import LazyGraph.Proofs.Calls
import LazyGraph.Proofs.Hush

/-!
# Two applications side by side

A thread that applies a node to some arguments deals them out in blocks, one for each function on
the way. With more arguments at the end it takes the same steps, and in the end it has to apply the
result to them.
-/

namespace LazyGraph

variable {w : World} {t t' u : Thread} {n : NodeId} {K : List Frame} {xs ys left block : List Arg}

/-! ## Calls of functions -/

/-- The arguments that a function gets, and those that are kept for its result. -/
structure Deal where
  function : NodeId
  block : List Arg
  rest : List Arg
  deriving DecidableEq

/-- What the thread deals out when it calls a function over `depth` frames. -/
def Thread.deal? (depth : Nat) (w : World) (t : Thread) : Option Deal :=
  match t.agenda, t.control with
  | [], .call n args =>
    match w.node? n with
    | some (.value (.function _ arity _ _)) =>
      if t.stack.length = depth ∧ arity ≤ args.length then
        some ⟨n, args.take arity, args.drop arity⟩
      else none
    | _ => none
  | _, _ => none

/-- The thread calls bytecode over `depth` frames. -/
def Thread.callsBytecode (depth : Nat) (w : World) (t : Thread) : Bool :=
  match t.agenda, t.control with
  | [], .call n _ =>
    match w.node? n with
    | some (.value (.bytecode _ _)) => t.stack.length == depth
    | _ => false
  | _, _ => false

theorem Thread.deal?_of_function {args : List Arg} {name : String} {arity : Nat} {body : Code}
    {env : Env} (idle : t.agenda = []) (at' : t.control = .call n args)
    (function : w.node? n = some (.value (.function name arity body env))) :
    t.deal? t.stack.length w =
      if arity ≤ args.length then some ⟨n, args.take arity, args.drop arity⟩ else none := by
  simp [deal?, idle, at', function]

theorem Thread.deal?_of_other {depth : Nat} (other : ∀ n args name arity body env,
    t.agenda = [] → t.control = .call n args → t.stack.length = depth →
      w.node? n ≠ some (.value (.function name arity body env))) : t.deal? depth w = none := by
  unfold deal?
  split
  · rename_i n args idle at'
    split
    · rename_i name arity body env function
      have apart : t.stack.length ≠ depth := fun same => other _ _ _ _ _ _ idle at' same function
      simp [apart]
    · rfl
  · rfl

theorem Thread.step_call {args : List Arg} (idle : t.agenda = []) (at' : t.control = .call n args) :
    t.step w = t.call w n args := by
  simp [step, idle, proceed, at']

/-- The thread calls a function with as many arguments as it has parameters. With more of them, the
others wait for the result. -/
def Thread.Receives (w : World) (t : Thread) (d : Deal) : Prop :=
  ∃ name body env, t.control = .call d.function (d.block ++ d.rest) ∧
    w.node? d.function = some (.value (.function name d.block.length body env)) ∧
    t.step w = (w, { t with
      control := .run body { env with frames := d.block :: env.frames }
      stack := (if d.rest = [] then [] else [.applyTo d.rest]) ++ t.stack })

theorem Thread.receives_of_deal? {depth : Nat} {d : Deal} (deals : t.deal? depth w = some d) :
    t.Receives w d := by
  unfold deal? at deals
  split at deals
  · rename_i m args idle at'
    split at deals
    · rename_i name arity body env function
      split at deals
      · rename_i fits
        obtain ⟨-, enough⟩ := fits
        cases deals
        have length : (args.take arity).length = arity := List.length_take_of_le enough
        refine ⟨name, body, env, ?_, ?_, ?_⟩
        · rw [List.take_append_drop, at']
        · rw [length, function]
        · rw [step_call idle at', call, function]
          rcases Nat.lt_or_eq_of_le enough with less | same
          · have some : args.drop arity ≠ [] := by simpa using less
            simp [callFunction, Nat.ne_of_gt less, less, some, push]
          · simp [callFunction, same, goto]
      · cases deals
    · cases deals
  · cases deals

/-- With too few arguments, no code of the function is run. -/
theorem Thread.step_few {args : List Arg} {name : String} {arity : Nat} {body : Code} {env : Env}
    (idle : t.agenda = []) (at' : t.control = .call n args)
    (function : w.node? n = some (.value (.function name arity body env)))
    (few : args.length < arity) :
    t.step w = (w, t.goto (.fail (.arityMismatch n arity args.length))) := by
  simp [step_call idle at', call, function, callFunction, Nat.ne_of_lt few, Nat.not_lt_of_lt few]

/-! ## Two applications side by side -/

/-- A thread has to hand over `left`, to a function to be found, over the frames `K`. The other one
has `ys` besides. -/
inductive Prolongs (K : List Frame) (ys : List Arg) : List Arg → Thread → Thread → Prop
  | calling {t : Thread} {m left} (stack : t.stack = K) (idle : t.agenda = [])
    (at' : t.control = .apply m left) :
    Prolongs K ys left t { t with control := .apply m (left ++ ys) }
  | reporting {t : Thread} {m left e e'} (stack : t.stack = K) (next : t.agenda = [.emit e])
    (at' : t.control = .call m left) :
    Prolongs K ys left t { t with agenda := [.emit e'], control := .call m (left ++ ys) }
  | called {t : Thread} {m left} (stack : t.stack = K) (idle : t.agenda = [])
      (at' : t.control = .call m left) :
    Prolongs K ys left t { t with control := .call m (left ++ ys) }
  | within {u : Thread} {left} :
    Prolongs K ys left (u.over (.applyTo left :: K)) (u.over (.applyTo (left ++ ys) :: K))

/-- The threads are the same but for the frames at the bottom, which are `K` in one and `K'` in the
other. -/
def SameAbove (K K' : List Frame) (t t' : Thread) : Prop :=
  ∃ u : Thread, t = u.over K ∧ t' = u.over K'

/-- The thread runs the last function, and with `ys` besides the result is applied to them. -/
def Prolongs.Last (K : List Frame) (ys : List Arg) : Thread → Thread → Prop :=
  SameAbove K (.applyTo ys :: K)

/-- Worlds with the same content but for the log. -/
def World.Resembles (w w' : World) : Prop :=
  w'.hushed .log = w.hushed .log

theorem Thread.step_over (below : List Frame) (aside : u.agenda = [] → u.Aside below) :
    (u.step w).1.Resembles ((u.over below).step w).1 ∧
      ((u.over below).step w).2 = (u.step w).2.over below := by
  have turn : (Veil.hush .log).turn [] ((u.over below).step w) =
      (Veil.hush .log).turn below (u.step w) :=
    hushed_step rfl aside
  obtain ⟨worlds, threads⟩ := Prod.mk.inj turn
  exact ⟨worlds, by rwa [over_nil] at threads⟩

theorem World.Resembles.trans {w₁ w₂ w₃ : World} (first : w₁.Resembles w₂)
    (second : w₂.Resembles w₃) :
    w₁.Resembles w₃ :=
  Eq.trans second first

theorem World.Resembles.symm {w₁ w₂ : World} (resembles : w₁.Resembles w₂) : w₂.Resembles w₁ :=
  Eq.symm resembles

/-- As long as the own frames of a thread are not at an end, others below make no difference. -/
theorem Thread.step_over_over (below below' : List Frame)
    (aside : u.agenda = [] → u.control.isOutcome = true → u.stack ≠ []) :
    ((u.over below).step w).1.Resembles ((u.over below').step w).1 ∧
      ((u.over below).step w).2 = (u.step w).2.over below ∧
      ((u.over below').step w).2 = (u.step w).2.over below' := by
  have own : ∀ {frames}, u.agenda = [] → u.Aside frames := fun idle outcome none =>
    absurd none (aside idle outcome)
  obtain ⟨worlds, thread⟩ := step_over (w := w) below own
  obtain ⟨worlds', thread'⟩ := step_over (w := w) below' own
  exact ⟨worlds.symm.trans worlds', thread, thread'⟩

theorem Thread.pass_over {below : List Frame} {g : String} :
    (u.over below).pass g = (u.pass g).over below := by
  unfold Thread.pass
  rw [agenda_over]
  split
  · split <;> rfl
  · rfl

namespace SameAbove

variable {K' : List Frame}

theorem pass (same : SameAbove K K' t t') (g : String) : SameAbove K K' (t.pass g) (t'.pass g) := by
  obtain ⟨u, rfl, rfl⟩ := same
  exact ⟨u.pass g, Thread.pass_over, Thread.pass_over⟩

theorem step (same : SameAbove K K' t t') (away : t.isBackAt K.length = false) :
    (t.step w).1.Resembles (t'.step w).1 ∧ SameAbove K K' (t.step w).2 (t'.step w).2 := by
  obtain ⟨u, rfl, rfl⟩ := same
  have inside : u.agenda = [] → u.control.isOutcome = true → u.stack ≠ [] := by
    intro idle outcome none
    cases at' : u.control <;>
      simp [Thread.isBackAt, Thread.over, idle, none, at', Control.isOutcome] at away outcome
  obtain ⟨worlds, first, second⟩ := Thread.step_over_over (w := w) K K' inside
  exact ⟨worlds, _, first, second⟩

/-- The one is back when the other is. -/
theorem isBackAt (same : SameAbove K K' t t') : t'.isBackAt K'.length = t.isBackAt K.length := by
  obtain ⟨u, rfl, rfl⟩ := same
  have height (K : List Frame) :
      (u.stack.length + K.length == K.length) = (u.stack.length == 0) := by
    rw [Bool.eq_iff_iff]
    simp
  simp [Thread.isBackAt, Thread.over, height]

end SameAbove

namespace Prolongs

theorem pass (prolongs : Prolongs K ys left t t') (g : String) :
    Prolongs K ys left (t.pass g) (t'.pass g) := by
  cases prolongs with
  | calling stack idle at' | called stack idle at' =>
    have stays : t.pass g = t := by simp [Thread.pass, idle]
    have stays' : ∀ c, ({ t with control := c } : Thread).pass g = { t with control := c } :=
      fun c => by simp [Thread.pass, idle]
    rw [stays, stays']
    constructor <;> assumption
  | reporting stack next at' =>
    have stays : t.pass g = t := by simp [Thread.pass, next]
    rw [stays]
    exact .reporting stack next at'
  | within =>
    rw [Thread.pass_over, Thread.pass_over]
    exact .within

/-- What a step makes of an application: it goes on with what is left, it deals a block out, or it
fails. -/
inductive Next (K : List Frame) (ys left : List Arg) (w : World) (t t' : Thread) : Prop
  | goes (none : t.deal? K.length w = none) (resembles : (t.step w).1.Resembles (t'.step w).1)
    (prolongs : Prolongs K ys left (t.step w).2 (t'.step w).2)
  | deals {d : Deal} (deals : t.deal? K.length w = some d) (split : left = d.block ++ d.rest)
    (more : d.rest ≠ []) (resembles : (t.step w).1.Resembles (t'.step w).1)
    (prolongs : Prolongs K ys d.rest (t.step w).2 (t'.step w).2)
  | last {d : Deal} (deals : t.deal? K.length w = some d) (split : left = d.block)
    (done : d.rest = []) (resembles : (t.step w).1.Resembles (t'.step w).1)
    (last : Last K ys (t.step w).2 (t'.step w).2)
  | fails (none : t.deal? K.length w = none) (idle : (t.step w).2.agenda = [])
    (stack : (t.step w).2.stack = K) (exit : (t.step w).2.control.isExit)

theorem step_function {name : String} {arity : Nat} {body : Code} {env : Env} (stack : t.stack = K)
    (idle : t.agenda = []) (at' : t.control = .call n left)
    (node : w.node? n = .some (.value (.function name arity body env))) (some : ys ≠ []) :
    Next K ys left w t { t with control := .call n (left ++ ys) } := by
  have deals := Thread.deal?_of_function idle at' node
  rw [stack] at deals
  by_cases fits : arity ≤ left.length
  · rw [if_pos fits] at deals
    have more : arity < (left ++ ys).length := by
      have := List.length_pos_iff.2 some
      rw [List.length_append]
      omega
    let runs : Thread :=
      { t with
        control := .run body { env with frames := left.take arity :: env.frames }
        stack := [] }
    have second : ({ t with control := .call n (left ++ ys) } : Thread).step w =
        (w, runs.over (.applyTo (left.drop arity ++ ys) :: K)) := by
      rw [Thread.step_call (t := { t with control := .call n (left ++ ys) }) idle rfl]
      simp only [Thread.call, node, Thread.callFunction, Nat.ne_of_gt more, more, if_false, if_true,
        List.take_append_of_le_length fits, List.drop_append_of_le_length fits, Thread.push, stack]
      rfl
    rcases Nat.lt_or_eq_of_le fits with less | rfl
    · have first : t.step w = (w, runs.over (.applyTo (left.drop arity) :: K)) := by
        rw [Thread.step_call idle at']
        simp only [Thread.call, node, Thread.callFunction, Nat.ne_of_gt less, less, if_false,
          if_true, Thread.push, stack]
        rfl
      have more : left.drop arity ≠ [] := by simpa using less
      refine .deals deals (List.take_append_drop arity left).symm more ?_ ?_ <;> rw [first, second]
      · rfl
      · exact .within
    · have first : t.step w = (w, runs.over K) := by
        rw [Thread.step_call idle at']
        simp only [Thread.call, node, Thread.callFunction, if_true, Thread.goto, runs, Thread.over,
          List.take_length, List.nil_append, ← stack]
      rw [List.drop_length, List.nil_append] at second
      refine .last deals (List.take_length).symm (List.drop_length ..) ?_ ?_ <;> rw [first, second]
      · rfl
      · exact ⟨runs, rfl, rfl⟩
  · rw [if_neg fits] at deals
    have fails := Thread.step_few idle at' node (Nat.lt_of_not_le fits)
    exact .fails deals (by rw [fails]; exact idle) (by rw [fails]; exact stack) (by rw [fails]; rfl)

theorem step_called (stack : t.stack = K) (idle : t.agenda = []) (at' : t.control = .call n left)
    (native : t.callsBytecode K.length w = false) (some : ys ≠ []) :
    Next K ys left w t { t with control := .call n (left ++ ys) } := by
  have first : t.step w = t.call w n left := Thread.step_call idle at'
  have second : ({ t with control := .call n (left ++ ys) } : Thread).step w =
      ({ t with control := .call n (left ++ ys) } : Thread).call w n (left ++ ys) :=
    Thread.step_call idle rfl
  have other : (∀ name arity body env, w.node? n ≠ .some (.value (.function name arity body env))) →
      t.deal? K.length w = none := fun other =>
    Thread.deal?_of_other fun m args name arity body env _ is _ => by
      rw [at'] at is
      cases is
      exact other name arity body env
  cases node : w.node? n with
  | none =>
    have raises : t.step w = (w, t.goto (.fail (.raised "no node"))) := by
      simp [first, Thread.call, node, Thread.raise]
    exact .fails (other (by simp [node])) (by rw [raises]; exact idle) (by rw [raises]; exact stack)
      (by rw [raises]; rfl)
  | some x =>
    cases x with
    | thunk th =>
      have none := other (by simp [node])
      cases value : th.slot.value? with
      | none =>
        have enters : t.step w = (w, ({ t with control := .enter n, stack := [] } : Thread).over
            (.applyTo left :: K)) := by
          simp [first, Thread.call, node, value, Thread.push, Thread.over, stack]
        have enters' : ({ t with control := .call n (left ++ ys) } : Thread).step w =
            (w, ({ t with control := .enter n, stack := [] } : Thread).over
              (.applyTo (left ++ ys) :: K)) := by
          rw [second]
          simp [Thread.call, node, value, Thread.push, Thread.over, stack]
        refine .goes none ?_ ?_ <;> rw [enters, enters']
        · rfl
        · exact .within
      | some v =>
        have again : t.step w = (w, t.goto (.apply v left)) := by
          simp [first, Thread.call, node, value]
        have again' : ({ t with control := .call n (left ++ ys) } : Thread).step w =
            (w, t.goto (.apply v (left ++ ys))) := by
          rw [second]
          simp [Thread.call, node, value, Thread.goto]
        refine .goes none ?_ ?_ <;> rw [again, again']
        · rfl
        · exact .calling (t := t.goto (.apply v left)) stack idle rfl
    | value v =>
      cases v with
      | function name arity body env => exact step_function stack idle at' node some
      | bytecode code pointers => simp [Thread.callsBytecode, idle, at', node, stack] at native
      | scalar | object | data =>
        refine .fails (other (by simp [node])) ?_ ?_ ?_ <;>
          simp [first, Thread.call, node, Thread.goto, Control.isExit, idle, stack]

/-- What the frames above the rest do is not affected, until their outcome comes to the rest. -/
theorem step_within :
    Next K ys left w (u.over (.applyTo left :: K)) (u.over (.applyTo (left ++ ys) :: K)) := by
  have none : (u.over (.applyTo left :: K)).deal? K.length w = none :=
    Thread.deal?_of_other fun _ _ _ _ _ _ _ _ same => by
      simp [Thread.over] at same
      omega
  by_cases ended : u.agenda = [] ∧ u.control.isOutcome = true ∧ u.stack = []
  · obtain ⟨idle, outcome, empty⟩ := ended
    cases at' : u.control with
    | give n =>
      have first : (u.over (.applyTo left :: K)).step w =
          (w, { u with control := .apply n left, stack := K }) := by
        simp [Thread.step, Thread.proceed, Thread.give, Thread.over, Thread.goto, idle, empty, at']
      have second : (u.over (.applyTo (left ++ ys) :: K)).step w =
          (w, { u with control := .apply n (left ++ ys), stack := K }) := by
        simp [Thread.step, Thread.proceed, Thread.give, Thread.over, Thread.goto, idle, empty, at']
      refine .goes none ?_ ?_ <;> rw [first, second]
      · rfl
      · exact .calling (t := { u with control := .apply n left, stack := K }) rfl idle rfl
    | fail e =>
      refine .fails none ?_ ?_ ?_ <;>
        simp [Thread.step, Thread.proceed, Thread.fail, Thread.over, idle, empty, at',
          Control.isExit]
    | unwind message =>
      refine .fails none ?_ ?_ ?_ <;>
        simp [Thread.step, Thread.proceed, Thread.unwind, Thread.over, idle, empty, at',
          Control.isExit]
    | _ => simp [at', Control.isOutcome] at outcome
  · obtain ⟨worlds, first, second⟩ := Thread.step_over_over (w := w) (.applyTo left :: K)
      (.applyTo (left ++ ys) :: K) (fun idle outcome empty => ended ⟨idle, outcome, empty⟩)
    refine .goes none worlds ?_
    rw [first, second]
    exact .within

theorem step (prolongs : Prolongs K ys left t t') (native : t.callsBytecode K.length w = false)
    (some : ys ≠ []) : Next K ys left w t t' := by
  cases prolongs with
  | @calling _ m _ stack idle at' =>
    have none : t.deal? K.length w = none := by simp [Thread.deal?, idle, at']
    have first : t.step w =
        (w, { t with agenda := [.emit (.applied m (shapeOf left))], control := .call m left }) := by
      simp [Thread.step, Thread.proceed, Thread.apply, Thread.plan, idle, at']
    have second : ({ t with control := .apply m (left ++ ys) } : Thread).step w =
        (w, { t with
          agenda := [.emit (.applied m (shapeOf (left ++ ys)))]
          control := .call m (left ++ ys) }) := by
      simp [Thread.step, Thread.proceed, Thread.apply, Thread.plan, idle]
    refine .goes none ?_ ?_ <;> rw [first, second]
    · rfl
    · exact .reporting (t := { t with
        agenda := [.emit (.applied m (shapeOf left))], control := .call m left }) stack rfl rfl
  | @reporting _ m _ e e' stack next at' =>
    have none : t.deal? K.length w = none := by simp [Thread.deal?, next]
    have first : t.step w = (w.emit t.context e, { t with agenda := [] }) := by
      simp [Thread.step, Action.perform, next]
    have second :
        ({ t with agenda := [.emit e'], control := .call m (left ++ ys) } : Thread).step w =
          (w.emit t.context e', { t with agenda := [], control := .call m (left ++ ys) }) := by
      simp [Thread.step, Action.perform]
    refine .goes none ?_ ?_ <;> rw [first, second]
    · exact (World.hushed_emit _).trans (World.hushed_emit _).symm
    · exact .called (t := { t with agenda := [] }) stack rfl at'
  | called stack idle at' => exact step_called stack idle at' native some
  | within => exact step_within

end Prolongs

end LazyGraph

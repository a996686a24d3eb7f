import LazyGraph.Proofs.Reduction
import LazyGraph.Proofs.Rooted

/-!
# The machine does what pure code does

A graph fits a world if it has the nodes of the world as they were built. With such a graph, each
step of host code that is pure has the effect that the code has by itself.
-/

namespace LazyGraph

/-- What a thread does next is something that pure code does: it does not catch errors, use
variables, look up names, probe, read registers or the depth of the stack, use slots by hand or
revert constants. -/
def Thread.isPure (t : Thread) : Bool :=
  match t.control, t.stack with
  | .run (.named _) _, _ | .peek _ _ _, _ | .revert _, _ | .fail _, .handler _ _ :: _ => false
  | .run (.prim p []) _, _ | .perform p _ _, _ => p.isPure
  | _, _ => true

/-- The thread is about to run a compiled closure. -/
def Thread.interprets (w : World) (t : Thread) : Bool :=
  match t.control with
  | .call n _ =>
    match w.value? n with
    | some (.bytecode _ _) => true
    | _ => false
  | _ => false

/-- A control without regard to slots and registries: until it runs, a thunk is forced, and a result
on its way into a slot or next to a registry is a result. -/
def Control.plain : Control → Control
  | .force n _ | .seize n _ | .start n _ | .body n _ | .recheck n _ | .attach n _ | .lock n _ _ _
  | .gather n _ _ _ | .join n _ _ _ | .suspend n _ | .parked n _ => .force n false
  | .enlist x | .enrol x | .confirm x | .retract x | .enlisted x _ | .publish x _ =>
    .force x.thunk false
  | .update _ v | .install _ v _ => .give v
  | .register _ n => .give n
  | c => c

structure Graph.Fits (H : Graph) (w : World) : Prop where
  value : ∀ n v, w.value? n = some v → H n = some (.value v)
  thunk : ∀ n s, w.suspension? n = some s →
    ∃ s', H n = some (.thunk s') ∧ (s.cleared = false → s' = s)

/-- The turn has the effect, on top of a stack. -/
def Turn.Realizes (H : Graph) (stack : List Frame) (e : Effect) (x : Turn) : Prop :=
  ∃ fs, e.Makes H x.2.control.plain fs ∧ x.2.stack = fs ++ stack ∧ ∀ f ∈ fs, f.thunk? = none

variable {H : Graph} {w w' : World} {t : Thread} {n : NodeId} {stack : List Frame}

namespace Graph.Fits

theorem built_value {v : Value} (fits : H.Fits (w.alloc (.value v)).1) :
    H (w.alloc (.value v)).2 = some (.value v) :=
  fits.value _ v (World.value?_eq_some.2 ((World.node?_alloc _).trans (if_pos rfl)))

theorem built_thunk {s : Suspension} (whole : s.cleared = false)
    (fits : H.Fits (w.alloc (.thunk ⟨s, {}⟩)).1) :
    H (w.alloc (.thunk ⟨s, {}⟩)).2 = some (.thunk s) := by
  obtain ⟨s', is, same⟩ := fits.thunk (w.alloc (.thunk ⟨s, {}⟩)).2 s (World.suspension?_eq_some.2
    ⟨⟨s, {}⟩, World.thunk?_eq_some.2 ((World.node?_alloc _).trans (if_pos rfl)), rfl⟩)
  rw [is, same whole]

variable (fits : H.Fits w) (has : w.Has n)

include fits has

theorem cases : (∃ v, w.node? n = some (.value v) ∧ H n = some (.value v)) ∨
    ∃ th s, w.node? n = some (.thunk th) ∧ H n = some (.thunk s) ∧
      (th.suspension.cleared = false → s = th.suspension) := by
  obtain ⟨x, node⟩ := Option.isSome_iff_exists.1 (World.has_iff.1 has)
  cases x with
  | value v => exact .inl ⟨v, node, fits.value n v (World.value?_eq_some.2 node)⟩
  | thunk th =>
    obtain ⟨s, is, same⟩ := fits.thunk n _
      (World.suspension?_eq_some.2 ⟨th, World.thunk?_eq_some.2 node, rfl⟩)
    exact .inr ⟨th, s, node, is, same⟩

theorem value?_eq : H.value? n = w.value? n := by
  obtain ⟨v, node, is⟩ | ⟨th, s, node, is, -⟩ := fits.cases has <;>
    simp [Graph.value?, World.value?, node, is, Node.value?]

theorem number_eq : H.number n = w.number n := by
  have same := fits.value?_eq has
  unfold Graph.number World.number
  generalize H.value? n = found, w.value? n = found' at same
  subst same
  cases found with
  | none => rfl
  | some v => cases v <;> rfl

end Graph.Fits

/-! ## Ways to go on -/

namespace Thread

theorem realizes_goto {c c' : Control} (plain : c'.plain = c) :
    Turn.Realizes H t.stack (.next c) (w, t.goto c') :=
  ⟨[], by rw [goto, plain]; exact .go, rfl, by simp⟩

theorem realizes_push {c : Control} {f : Frame} (plain : c.plain = c) (code : f.thunk? = none) :
    Turn.Realizes H t.stack (.go [f] c) (w, t.push f c) :=
  ⟨[f], by rw [push, plain]; exact .go, rfl, by simpa using code⟩

theorem realizes_raise (message : String) :
    Turn.Realizes H t.stack (.raise message) (t.raise w message) :=
  realizes_goto rfl

theorem realizes_yield {v : Value} (fits : H.Fits (t.yield w v).1) :
    Turn.Realizes H t.stack (.yield v) (t.yield w v) :=
  ⟨[], .build (Graph.Fits.built_value fits), rfl, by simp⟩

theorem realizes_build {s : Suspension} {c : Control} (whole : s.cleared = false)
    (plain : c.plain = .give (w.alloc (.thunk ⟨s, {}⟩)).2)
    (fits : H.Fits (w.alloc (.thunk ⟨s, {}⟩)).1) :
    Turn.Realizes H t.stack (.build (.thunk s)) ((w.alloc (.thunk ⟨s, {}⟩)).1, t.goto c) :=
  ⟨[], by rw [goto, plain]; exact .build (Graph.Fits.built_thunk whole fits), rfl, by simp⟩

theorem realizes_withArgs {env : Env} {f : List Arg → Value}
    (fits : H.Fits (t.withArgs w env f).1) :
    Turn.Realizes H t.stack (.withArgs env f) (t.withArgs w env f) := by
  unfold withArgs at fits ⊢
  unfold Effect.withArgs
  generalize env.frames = frames at fits ⊢
  cases frames with
  | nil => exact realizes_raise _
  | cons args rest => exact realizes_yield fits

theorem realizes_giveField {field : Except GraphError Field}
    (fits : H.Fits (t.giveField w field).1) :
    Turn.Realizes H t.stack (.ofField field) (t.giveField w field) := by
  cases field with
  | error e => exact realizes_goto rfl
  | ok f =>
    cases f with
    | pointer m => exact realizes_goto rfl
    | scalar s => exact realizes_yield fits

theorem realizes_arithmetic {f : Int64 → Int64 → Int64} {ns : List NodeId} (seen : H.Fits w)
    (within : ∀ n ∈ ns, w.Has n) (fits : H.Fits (t.arithmetic w f ns).1) :
    Turn.Realizes H t.stack (H.arithmetic f ns) (t.arithmetic w f ns) := by
  have numbers : ns.map H.number = ns.map w.number :=
    List.map_congr_left fun n known => seen.number_eq (within n known)
  unfold Graph.arithmetic
  rw [numbers]
  exact realizes_yield fits

/-! ## Primitives -/

theorem realizes_perform {p : Prim} (pure : p.isPure = true) {ns : List NodeId} {env : Env}
    (seen : H.Fits w) (within : ∀ n ∈ ns, w.Has n) (fits : H.Fits (t.perform w p ns env).1) :
    Turn.Realizes H t.stack (H.perform p ns env) (t.perform w p ns env) := by
  have none := realizes_raise (H := H) (w := w) (t := t) "no operand"
  cases p with
  | box v => exact realizes_yield fits
  | data tag layout => exact realizes_yield fits
  | application =>
    cases ns with
    | nil => exact none
    | cons f args => exact realizes_build rfl rfl fits
  | selector kind index =>
    cases ns with
    | nil => exact none
    | cons producer rest => exact realizes_build rfl rfl fits
  | bytecode code =>
    simp only [perform, Graph.perform] at fits ⊢
    split
    · exact realizes_goto rfl
    · rename_i wide
      rw [if_neg wide] at fits
      exact realizes_yield fits
  | evaluate | enter | apply =>
    cases ns with
    | nil => exact none
    | cons n rest => exact realizes_goto rfl
  | blackHole =>
    cases ns with
    | nil => exact none
    | cons n rest =>
      simp only [perform, Graph.perform, seen.value?_eq (within n (List.mem_cons_self ..))]
      split
      · exact realizes_goto rfl
      · exact realizes_goto rfl
  | sum | difference | product => exact realizes_arithmetic seen within fits
  | less =>
    rcases ns with _ | ⟨a, _ | ⟨b, rest⟩⟩
    · exact none
    · exact none
    · simp only [perform, Graph.perform, seen.number_eq (within a (by simp)),
        seen.number_eq (within b (by simp))] at fits ⊢
      simp only [yieldFlag, decide_eq_true_eq] at fits ⊢
      exact realizes_yield fits
  | last =>
    simp only [perform, Graph.perform] at fits ⊢
    generalize ns.getLast? = last at fits ⊢
    cases last with
    | none => exact realizes_yield fits
    | some n => exact realizes_goto rfl
  | raise message => exact realizes_raise message
  | panic message => exact realizes_goto rfl
  | gate g => exact ⟨[], .build (Graph.Fits.built_value fits), rfl, by simp⟩
  | shape | count => exact realizes_withArgs fits
  | field kind index =>
    cases ns with
    | nil => exact none
    | cons n rest =>
      simp only [perform, Graph.perform, seen.value?_eq (within n (List.mem_cons_self ..))] at fits ⊢
      generalize w.value? n = found at fits ⊢
      cases found with
      | none => exact realizes_raise _
      | some v =>
        cases v with
        | data tag fields => exact realizes_giveField fits
        | _ => exact realizes_raise _
  | read x | increment x | register kind | depth | onThunk op | revert r => cases pure

/-! ## Code -/

theorem realizes_run {c : Code} {env : Env} (at' : t.control = .run c env) (pure : t.isPure = true)
    (seen : H.Fits w) (fits : H.Fits (t.run w c env).1) :
    ∃ e, H.run? env c = some e ∧ Turn.Realizes H t.stack e (t.run w c env) := by
  simp only [isPure, at'] at pure
  cases c with
  | captured x =>
    refine ⟨_, rfl, ?_⟩
    simp only [run]
    cases env.captured.find? x with
    | none => exact realizes_raise _
    | some n => exact realizes_goto rfl
  | named x => cases pure
  | arg i up =>
    simp only [run, Graph.run?] at fits ⊢
    generalize env.frames[up]? = frame at fits ⊢
    cases frame with
    | none => exact ⟨_, rfl, realizes_raise _⟩
    | some args =>
      dsimp only at fits ⊢
      generalize args[i]? = arg at fits ⊢
      cases arg with
      | none => exact ⟨_, rfl, realizes_raise _⟩
      | some a =>
        cases a with
        | pointer n => exact ⟨_, rfl, realizes_goto rfl⟩
        | immediate v => exact ⟨_, rfl, realizes_yield fits⟩
  | suspend body => exact ⟨_, rfl, realizes_build rfl rfl fits⟩
  | constant r body =>
    refine ⟨_, rfl, realizes_build rfl ?_ fits⟩
    split <;> rfl
  | lambda name arity body => exact ⟨_, rfl, realizes_yield fits⟩
  | prim p operands =>
    cases operands with
    | nil => exact ⟨_, if_pos pure, realizes_perform pure seen (by simp) fits⟩
    | cons c cs => exact ⟨_, rfl, realizes_push rfl rfl⟩
  | branch scrutinee yes no => exact ⟨_, rfl, realizes_push rfl rfl⟩
  | probe subject other => exact ⟨_, rfl, realizes_push rfl rfl⟩
  | recover body handler => exact ⟨_, rfl, realizes_push rfl rfl⟩

/-! ## Application -/

theorem realizes_callFunction (arity : Nat) (body : Code) (env : Env) (args : List Arg) :
    Turn.Realizes H t.stack (.callFunction n arity body env args)
      (t.callFunction w n arity body env args) := by
  unfold callFunction Effect.callFunction
  dsimp only
  split
  · exact realizes_goto rfl
  · split
    · exact realizes_push rfl rfl
    · exact realizes_goto rfl

/-- A function that has been called is a value, or else a thunk without one. -/
theorem realizes_call {args : List Arg} {rule : Option Interpreter} (seen : H.Fits w)
    (has : w.Has n) (free : (w.slot n).value? = none) (at' : t.control = .call n args)
    (interpreter : t.interprets w = true → (w.context t.context).interpreter = rule)
    (fits : H.Fits (t.call w n args).1) :
    ∃ e, H.act? rule (.call n args) = some e ∧ Turn.Realizes H t.stack e (t.call w n args) := by
  simp only [Graph.act?]
  obtain ⟨v, node, is⟩ | ⟨th, s, node, is, -⟩ := seen.cases has
  · simp only [call, node] at fits ⊢
    simp only [is, Option.map_some, Option.some.injEq, exists_eq_left']
    cases v with
    | function name arity body env => exact realizes_callFunction arity body env args
    | bytecode code pointers =>
      obtain rfl := interpreter (by simp [interprets, at', World.value?_eq_some.2 node])
      cases installed : (w.context t.context).interpreter with
      | none => exact realizes_goto rfl
      | some rule => exact realizes_goto rfl
    | scalar | object | data => exact realizes_goto rfl
  · rw [World.slot_of_thunk (World.thunk?_eq_some.2 node)] at free
    simp only [call, node, free]
    simp only [is, Option.map_some, Option.some.injEq, exists_eq_left']
    exact realizes_push rfl rfl

/-! ## Requests -/

theorem realizes_enter (rule : Option Interpreter) (seen : H.Fits w) (has : w.Has n) :
    ∃ e, H.act? rule (.enter n) = some e ∧ Turn.Realizes H t.stack e (t.enter w n) := by
  simp only [Graph.act?]
  obtain ⟨v, node, is⟩ | ⟨th, s, node, is, -⟩ := seen.cases has
  · simp only [enter, node, is, Option.map_some, Option.some.injEq, exists_eq_left']
    exact ⟨[], .go, rfl, by simp⟩
  · simp only [enter, node, is, Option.map_some, Option.some.injEq, exists_eq_left']
    exact realizes_goto rfl

theorem realizes_evaluate (rule : Option Interpreter) (seen : H.Fits w) (has : w.Has n)
    (free : (w.slot n).value? = none) :
    ∃ e, H.act? rule (.evaluate n) = some e ∧ Turn.Realizes H t.stack e (t.evaluate w n) := by
  simp only [Graph.act?]
  obtain ⟨v, node, is⟩ | ⟨th, s, node, is, -⟩ := seen.cases has
  · simp only [evaluate, World.evaluated?, node, is, Option.map_some, Option.some.injEq,
      exists_eq_left']
    exact realizes_goto rfl
  · rw [World.slot_of_thunk (World.thunk?_eq_some.2 node)] at free
    simp only [evaluate, World.evaluated?, node, free, is, Option.map_some, Option.some.injEq,
      exists_eq_left']
    exact realizes_push rfl rfl

/-! ## Results -/

theorem realizes_project {kind : FieldKind} {index : Nat} {producer : NodeId} (seen : H.Fits w)
    (has : w.Has n) (fits : H.Fits (t.project w kind index producer n).1) :
    ∃ e, H.return? n (.project kind index producer) = some e ∧
      Turn.Realizes H t.stack e (t.project w kind index producer n) := by
  simp only [project, Graph.return?, seen.value?_eq has] at fits ⊢
  cases found : w.value? n with
  | none => exact ⟨_, rfl, realizes_goto rfl⟩
  | some v =>
    rw [found] at fits
    cases v with
    | data tag fields =>
      refine ⟨_, rfl, ?_⟩
      dsimp only at fits ⊢
      cases field : fieldOf kind fields index with
      | error e => exact realizes_goto rfl
      | ok f =>
        rw [field] at fits
        cases f with
        | pointer m => exact realizes_goto rfl
        | scalar s => exact realizes_yield fits
    | _ => exact ⟨_, rfl, realizes_goto rfl⟩

theorem realizes_give {f : Frame} (top : t.stack = f :: stack) (code : f.thunk? = none)
    (seen : H.Fits w) (has : w.Has n) (fits : H.Fits (t.give w n).1) :
    ∃ e, H.return? n f = some e ∧ Turn.Realizes H stack e (t.give w n) := by
  simp only [give, top] at fits ⊢
  cases f with
  | operands p done rest env =>
    cases rest with
    | nil => exact ⟨_, rfl, realizes_goto (t := { t with stack }) rfl⟩
    | cons c cs => exact ⟨_, rfl, realizes_push (t := { t with stack }) rfl rfl⟩
  | branch yes no env =>
    refine ⟨_, rfl, ?_⟩
    rw [seen.number_eq has]
    exact realizes_goto (t := { t with stack }) rfl
  | project kind index producer => exact realizes_project (t := { t with stack }) seen has fits
  | probe | handler | again | applyTo => exact ⟨_, rfl, realizes_goto (t := { t with stack }) rfl⟩
  | running | settling | leaving => cases code

end Thread

end LazyGraph

import LazyGraph.Proofs.Confinement
import LazyGraph.Proofs.Sparing

/-!
# Selectors

A selector computes its projection. It evaluates its producer, selects the field of the constructor
that it gets, and installs the value of the field. Whatever goes wrong on the way, the selector is
as it was before, and so are the registers, but for those that others have written.
-/

namespace LazyGraph

variable {w w' : World} {t u : Thread} {n m p x y v : NodeId} {claim : Bool} {S : Suspension}
  {kind : FieldKind} {index : Nat} {base rest : List Frame}

theorem Control.isCall_of_calls? {c : Control} (asks : c.calls? = some n) : c.isCall = true := by
  unfold calls? at asks
  split at asks <;> first | rfl | cases asks

/-- What is selected from a node stays the same. -/
theorem World.Evolves.select (evolves : w.Evolves w') (has : w.Has x) :
    w'.select kind index p x = w.select kind index p x := by
  have same : w'.value? x = w.value? x := by
    obtain ⟨node, found⟩ := Option.isSome_iff_exists.1 (World.has_iff.1 has)
    cases node with
    | value v =>
      have value : w.value? x = some v := by simp [World.value?, found, Node.value?]
      rw [value, evolves.value x v value]
    | thunk th =>
      have thunk : (w.thunk? x).isSome := by simp [World.thunk?, found, Node.thunk?]
      rw [World.value?_of_thunk thunk, World.value?_of_thunk (evolves.thunk x thunk)]
  rw [World.select, World.select, same]

/-! ## Projections that fail -/

namespace Run

variable {run : Run} {i : ThreadId} {a b e k l depth : Nat} {c : Control}

/-! ## Calls -/

/-- The call that thread `t` makes at time `a` returns at time `e`, with `c`. -/
structure Returns (run : Run) (i : ThreadId) (t : Thread) (a e : Nat) (c : Control) : Prop where
  calls : run.Calls i a e t.stack.length
  ended : ∃ u, (run.state e).threads[i]? = some u ∧ u.control = c

/-- The call returns with `c`, and the selector is unevaluated and keeps its producer. The registers
are as at time `b`. -/
structure Declines (run : Run) (i : ThreadId) (n : NodeId) (S : Suspension) (t : Thread)
    (a b e : Nat) (c : Control) : Prop extends run.Returns i t a e c where
  kept : (run.state e).world.suspension? n = some S
  free : ((run.state e).world.slot n).cell = none
  registers : run.registers e t.context = run.registers b t.context

/-- The call returns with `v`, which is the value of the selector. -/
structure Settles (run : Run) (i : ThreadId) (n : NodeId) (S : Suspension) (t : Thread)
    (a e : Nat) (v : NodeId) (registers : Registers) : Prop
    extends run.Returns i t a e (.give v) where
  held : ((run.state e).world.slot n).cell = some (.value v)
  released : (run.state e).world.suspension? n = some S.clear
  registers : run.registers e t.context = registers

theorem Calls.away_below (calls : run.Calls i a b depth) {low : Nat} (lt : low < depth) :
    run.Away i low a b := by
  intro k before le
  obtain ⟨t, found, -, -, height⟩ := calls.caller
  obtain ⟨u, there, -, fs, stack⟩ := calls.above found le (Nat.le_of_lt before)
  have higher : u.stack.length ≠ low := by
    rw [stack, List.length_append, height]
    omega
  simp [there, Thread.isBackAt, higher]

/-- A thread that asks for `n`, and for which nothing is left but to return. -/
structure Asks (run : Run) (i : ThreadId) (n : NodeId) (t : Thread) (a : Nat) : Prop where
  found : (run.state a).threads[i]? = some t
  idle : t.agenda = []
  asks : t.control.calls? = some n

theorem Asks.returns (asks : run.Asks i n t a) (le : a ≤ e) (away : run.Away i t.stack.length a e)
    (there : (run.state e).threads[i]? = some u) (idle : u.agenda = [])
    (outcome : u.control.isOutcome = true) (stack : u.stack = t.stack) :
    run.Returns i t a e u.control := by
  refine ⟨⟨le, ?_, away, ?_⟩, u, there, rfl⟩
  · simp [asks.found, Thread.calls, asks.idle, Control.isCall_of_calls? asks.asks]
  · cases at' : u.control <;>
      simp_all [Thread.isBackAt, Control.isOutcome]

/-- Thread `t` asked for `n` at time `a`, has not returned until time `k`, when it is `u`, and holds
thunk `n`, whose code is still there. -/
structure Stands (run : Run) (i : ThreadId) (n : NodeId) (S : Suspension) (claim : Bool)
    (t : Thread) (rest : List Frame) (a k : Nat) (u : Thread) (th : Thunk) : Prop where
  le : a ≤ k
  away : run.Away i t.stack.length a k
  found : (run.state k).threads[i]? = some u
  context : u.context = t.context
  thunk : (run.state k).world.thunk? n = some th
  suspension : th.suspension = S
  held : th.slot.Held claim (u.me (run.state k).world)
  atop : Atop t.stack rest

variable {th : Thunk}

theorem Asks.frames (asks : run.Asks i n t a) :
    ((run.state a).world.context t.context).stack.frames = t.stack.filterMap Frame.thunk? := by
  have call := Control.isCall_of_calls? asks.asks
  have runs : t.Runs := Thread.runs_of_control (by
    cases at' : t.control <;> simp_all [Control.isCall, Control.isOutcome])
  rw [((run.framed a).running i t asks.found runs).frames,
    t.evaluations_eq (Control.isFirm_of_isCall call)]

/-- An unevaluated thunk that is asked for opens with its code. -/
theorem Asks.begins {fs : List Frame} (asks : run.Asks i n t a)
    (opening : S.opening? = some (fs, c)) (known : (run.state a).world.suspension? n = some S)
    (free : ((run.state a).world.slot n).cell = none)
    (outside : n ∉ ((run.state a).world.context t.context).stack.frames) :
    run.Within i n 7 a fun l => (∃ u th claim rest, run.Stands i n S claim t rest a l u th ∧
      u.agenda = [] ∧ u.control = c ∧ u.stack = fs ++ .running n claim :: rest ∧
      run.registers l t.context = run.registers a t.context) ∧
      run.Confined i n t.context a l := by
  rw [asks.frames] at outside
  obtain ⟨found, idle, call⟩ := asks
  obtain ⟨⟨S, slot⟩, thunk, rfl⟩ := World.suspension?_eq_some.1 known
  rw [World.slot_of_thunk thunk] at free
  obtain ⟨r, le, phase⟩ : ∃ r ≤ 7, Opening n S fs c t.stack (t.me (run.state a).world) r
      ⟨S, slot⟩ [] t.control t.stack := Opening.of_call call free
  rw [← idle] at phase
  have descent := Opening.descent opening outside (run.registers a t.context)
  refine (passes_within descent found ⟨trivial, rfl, _, thunk, phase⟩).weaken le |>.mono
    fun l le => ?_
  rintro ⟨u, there, context, ⟨-, registers, th, thunk', phase'⟩, passes⟩
  obtain ⟨claim, rest, suspension, held, atop, none, is, stack⟩ := phase'.done
  rw [context] at registers
  refine ⟨⟨u, th, claim, rest, ?_, none, is, stack, registers⟩, ?_⟩
  · exact ⟨le, passes.away descent, there, context, thunk', suspension, held, atop⟩
  · exact passes.confined fun _ _ _ _ phase left => phase.minds left

theorem Asks.opens (asks : run.Asks i n t a)
    (known : (run.state a).world.suspension? n = some (.selector kind (some (index, p))))
    (free : ((run.state a).world.slot n).cell = none)
    (outside : n ∉ ((run.state a).world.context t.context).stack.frames) :
    run.Within i n 7 a fun l => ∃ u th claim rest,
      run.Stands i n (.selector kind (some (index, p))) claim t rest a l u th ∧ u.agenda = [] ∧
        u.control = .evaluate p ∧ u.stack = .project kind index p :: .running n claim :: rest ∧
        run.registers l t.context = run.registers a t.context :=
  (asks.begins rfl known free outside).mono fun _ _ => And.left

/-- Nothing is lost while the thread evaluates something on top of a frame for `n`. -/
theorem Stands.after (stands : run.Stands i n S claim t rest a l u th) (whole : run.Whole)
    (plain : S.isConstant = false) (calls : run.Calls i l b u.stack.length)
    (frame : n ∈ u.stack.filterMap Frame.thunk?) (above : t.stack.length < u.stack.length)
    (untouched : run.Untouched i n l b) (abstains : run.Abstains i l b) :
    ∃ v th', run.Stands i n S claim t rest a b v th' ∧ v.agenda = [] ∧
      v.control.isOutcome = true ∧ v.stack = u.stack := by
  obtain ⟨le, away, found, context, thunk, rfl, held, atop⟩ := stands
  obtain ⟨v, slot, there, idle, outcome, same, stack, thunk', held'⟩ :=
    calls.spares whole found frame thunk held plain untouched abstains
  exact ⟨v, _, ⟨Nat.le_trans le calls.le, away.trans (calls.away_below above), there,
    same.trans context, thunk', rfl, held', atop⟩, idle, outcome, stack⟩

/-- An exit that comes to the frame of the thunk is passed on to the caller. -/
theorem Asks.gives_up {r : Nat} (asks : run.Asks i n t a) (exit : c.isExit) (le : a ≤ b)
    (away : run.Away i t.stack.length a b) (found : (run.state b).threads[i]? = some u)
    (context : u.context = t.context)
    (phase : Phase.At (Failing n S claim c t.stack) n (run.registers k t.context) (fun _ => True) r
      (run.state b).world u) :
    run.Within i n r b fun e => run.Declines i n S t a k e c ∧ run.Confined i n t.context b e := by
  have descent : Descent n t.stack.length (Phase.At (Failing n S claim c t.stack) n
      (run.registers k t.context) fun _ => True) :=
    Failing.descent exit _
  refine (passes_within descent found phase).mono fun e le' => ?_
  rintro ⟨v, there, same, ⟨-, registers, th, thunk, phase'⟩, passes⟩
  obtain ⟨suspension, free, idle, is, stack⟩ := phase'.done
  have outcome : v.control.isOutcome = true := by
    rw [is]
    exact Control.isOutcome_of_isExit exit
  have returns := asks.returns (Nat.le_trans le le') (away.trans (passes.away descent)) there idle
    outcome stack
  rw [is] at returns
  rw [same, context] at registers
  refine ⟨⟨returns, ?_, ?_, registers⟩, context ▸ passes.confined ?_⟩
  · simp [World.suspension?, thunk, suspension]
  · rw [World.slot_of_thunk thunk, free]
  · exact fun _ _ _ _ phase left => phase.minds exit left

theorem Asks.declines {r : Nat} (asks : run.Asks i n t a) (exit : c.isExit) (le : a ≤ b)
    (away : run.Away i t.stack.length a b) (found : (run.state b).threads[i]? = some u)
    (context : u.context = t.context)
    (phase : Phase.At (Failing n S claim c t.stack) n (run.registers k t.context) (fun _ => True) r
      (run.state b).world u) :
    run.Within i n r b fun e => run.Declines i n S t a k e c :=
  (asks.gives_up exit le away found context phase).mono fun _ _ => And.left

/-- A value that comes to the frame of the thunk is installed and returned to the caller. -/
theorem Asks.pays {r : Nat} {registers : Registers} (asks : run.Asks i n t a) (le : a ≤ b)
    (away : run.Away i t.stack.length a b) (found : (run.state b).threads[i]? = some u)
    (context : u.context = t.context)
    (phase : Phase.At (Settling n S claim v t.stack) n registers (·.IsValue v) r
      (run.state b).world u) :
    run.Within i n r b fun e =>
      run.Settles i n S t a e v registers ∧ run.Confined i n t.context b e := by
  have descent : Descent n t.stack.length
      (Phase.At (Settling n S claim v t.stack) n registers (·.IsValue v)) :=
    Settling.descent registers
  refine (passes_within descent found phase).mono fun e le' => ?_
  rintro ⟨u', there, same, ⟨-, registers, th, thunk, phase'⟩, passes⟩
  obtain ⟨suspension, set, idle, is, stack⟩ := phase'.done
  have returns := asks.returns (Nat.le_trans le le') (away.trans (passes.away descent)) there idle
    (by rw [is]; rfl) stack
  rw [is] at returns
  rw [same, context] at registers
  refine ⟨⟨returns, ?_, ?_, registers⟩, context ▸ passes.confined ?_⟩
  · rw [World.slot_of_thunk thunk, set]
  · simp [World.suspension?, thunk, suspension]
  · exact fun _ _ _ _ phase left => phase.minds left

theorem Asks.settles {r : Nat} {registers : Registers} (asks : run.Asks i n t a) (le : a ≤ b)
    (away : run.Away i t.stack.length a b) (found : (run.state b).threads[i]? = some u)
    (context : u.context = t.context)
    (phase : Phase.At (Settling n S claim v t.stack) n registers (·.IsValue v) r
      (run.state b).world u) :
    run.Within i n r b fun e => run.Settles i n S t a e v registers :=
  (asks.pays le away found context phase).mono fun _ _ => And.left

/-- A result that comes to the frame of the thunk is evaluated under it. -/
theorem hands_over {r : Nat} {registers : Registers} (le : a ≤ b)
    (away : run.Away i t.stack.length a b) (found : (run.state b).threads[i]? = some u)
    (context : u.context = t.context)
    (phase : Phase.At (Handing n S claim m t.stack) n registers (fun _ => True) r
      (run.state b).world u) :
    run.Within i n r b fun d => (∃ v th rest, run.Stands i n S claim t rest a d v th ∧
      v.agenda = [] ∧ v.control = .evaluate m ∧ v.stack = .settling n claim :: rest ∧
      run.registers d t.context = registers) ∧ run.Confined i n t.context b d := by
  have descent : Descent n t.stack.length
      (Phase.At (Handing n S claim m t.stack) n registers fun _ => True) :=
    Handing.descent registers
  refine (passes_within descent found phase).mono fun d le' => ?_
  rintro ⟨v, there, same, ⟨-, registers, th, thunk, phase'⟩, passes⟩
  obtain ⟨rest, suspension, held, atop, idle, is, stack⟩ := phase'.done
  rw [same, context] at registers
  refine ⟨⟨v, th, rest, ?_, idle, is, stack, registers⟩, context ▸ passes.confined ?_⟩
  · exact ⟨Nat.le_trans le le', away.trans (passes.away descent), there, same.trans context, thunk,
      suspension, held, atop⟩
  · exact fun _ _ _ _ phase left => phase.minds left

theorem Stands.inPhase {Φ : Phase} {Q : World → Prop} {r : Nat}
    (stands : run.Stands i n S claim t rest a b u th) (known : Q (run.state b).world)
    (phase : Φ (u.me (run.state b).world) r th u.agenda u.control u.stack) :
    Φ.At n (run.registers b t.context) Q r (run.state b).world u :=
  ⟨known, by rw [stands.context]; rfl, th, stands.thunk, phase⟩

/-- The thread is about to project, and it takes its turn. -/
theorem Stands.selects (P' : World → Thread → Prop)
    (stands : run.Stands i n S claim t rest a b u th)
    (projects : u.Projects kind index p x (.running n claim :: rest))
    (step : ∀ w v, Selecting n S claim kind index p x t.stack (run.registers b t.context)
      (run.state b).world.Evolves w v → v.context < w.contexts.size → P' (v.step w).1 (v.step w).2)
    (stable : ∀ {w w' : World} {t : Thread}, P' w t → w.Evolves w' → w'.thunk? n = w.thunk? n →
      t.me w' = t.me w →
      (w'.context t.context).registers = (w.context t.context).registers → P' w' t) :
    run.Within i n 1 b fun k => ∃ v, (run.state k).threads[i]? = some v ∧ v.context = t.context ∧
      P' (run.state k).world v ∧ run.Away i t.stack.length a k := by
  obtain ⟨le, away, found, context, thunk, rfl, held, atop⟩ := stands
  have selecting : Selecting n th.suspension claim kind index p x t.stack
      (run.registers b t.context) (run.state b).world.Evolves (run.state b).world u :=
    ⟨World.Evolves.refl _, by rw [context]; rfl, th.slot, rest, thunk, held, atop, projects⟩
  have descent := Selecting.descent (fun _ _ later evolves => evolves.trans later) step stable
  refine (within (r := 1) descent found selecting).mono fun k _ => ?_
  rintro ⟨v, there, same, done, away'⟩
  exact ⟨v, there, same.trans context, done, away.trans away'⟩

/-- A pointer field is put into `r1` and evaluated under the frame of the selector. -/
theorem Stands.hands (stands : run.Stands i n S claim t rest a b u th)
    (projects : u.Projects kind index p x (.running n claim :: rest))
    (has : (run.state b).world.Has x)
    (select : (run.state b).world.select kind index p x = .ok (.pointer m)) :
    run.Within i n 2 b fun d => ∃ v th' rest',
      run.Stands i n S claim t rest' a d v th' ∧ v.agenda = [] ∧ v.control = .evaluate m ∧
        v.stack = .settling n claim :: rest' ∧
        run.registers d t.context = { run.registers b t.context with r1 := some m } := by
  change run.Within i n (1 + 1) b _
  let P' := Phase.At (Handing n S claim m t.stack) n
    { run.registers b t.context with r1 := some m } (fun _ => True) 1
  refine Within.trans (stands.selects P' projects ?_ (Phase.At.stable fun _ _ _ => id))
    fun k le ⟨v, there, context, phase, away⟩ => ?_
  · rintro w v ⟨evolves, registers, slot, rest, thunk, held, atop, projects⟩ seated
    have me := (step_cases w v).me
    have is : v.step w = (v.write w { run.registers b t.context with r1 := some m },
        { v with stack := .running n claim :: rest, control := .give m }) := by
      rw [projects.step, evolves.select has, select, registers]
    rw [is] at me ⊢
    refine ⟨trivial, Thread.registers_write seated, _, thunk, ?_⟩
    rw [me, projects.idle]
    exact .given held atop
  · exact (hands_over (Nat.le_trans stands.le le) away there context phase).mono
      fun _ _ => And.left

/-! ## What a selector computes -/

/-- The pointer field of a selector has been evaluated by time `b`, and thread `u` has the outcome.
An error is passed on, a value is the value of the selector. -/
structure Filled (run : Run) (i : ThreadId) (n : NodeId) (S : Suspension) (t : Thread) (a b : Nat)
    (u : Thread) : Prop where
  failed : u.control.isExit → run.Within i n 6 b fun e => run.Declines i n S t a b e u.control
  filled : ∀ v, u.control = .give v → (run.state b).world.IsValue v →
    run.Within i n 9 b fun e => run.Settles i n S t a e v (run.registers b t.context)

theorem Stands.filled (asks : run.Asks i n t a) (stands : run.Stands i n S claim t rest a b u th)
    (idle : u.agenda = []) (stack : u.stack = .settling n claim :: rest) :
    run.Filled i n S t a b u := by
  obtain rfl := stands.suspension
  refine ⟨fun exit => ?_, fun v gives value => ?_⟩
  · have phase : Failing n th.suspension claim u.control t.stack (u.me (run.state b).world) 6 th
        u.agenda u.control u.stack := by
      rw [idle, stack]
      exact .dropping (.inr rfl) stands.held stands.atop
    exact asks.declines exit stands.le stands.away stands.found stands.context
      (stands.inPhase trivial phase)
  · have phase : Settling n th.suspension claim v t.stack (u.me (run.state b).world) 9 th
        u.agenda u.control u.stack := by
      rw [idle, gives, stack]
      exact .installing (.settling stands.held) stands.atop
    exact asks.settles stands.le stands.away stands.found stands.context
      (stands.inPhase value phase)

end Run

namespace Run

theorem untouched_of_steps {run : Run} {i : ThreadId} {a b : Nat}
    (steps : ∀ k < b, a ≤ k → (run.move k).isStep i = true) : run.Untouched i n a b :=
  fun k le lt other => absurd (Move.isStep_iff.1 (steps k lt le)) other

end Run

end LazyGraph

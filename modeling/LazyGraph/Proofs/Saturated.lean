import LazyGraph.Proofs.Applications
import LazyGraph.Proofs.Selectors

/-!
# Application thunks

A thunk that applies a function to some arguments and has not been evaluated does what the caller
would do if it applied the function and evaluated the result for itself. For comparison, the same
moves are made in a state in which the thread has the frames of its caller only.
-/

namespace LazyGraph

variable {t u : Thread} {n f r y : NodeId} {claim : Bool} {S : Suspension}
  {args : List NodeId} {below below' rest : List Frame} {c : Control}

/-! ## Another thread in the same run -/

namespace State

variable {s : State} {i : ThreadId}

/-- The state in which thread `i` has other frames. -/
def restack (s : State) (i : ThreadId) (below : List Frame) : State :=
  match s.threads[i]? with
  | some u => s.put i (s.world, { u with stack := below })
  | none => s

theorem restack_eq (found : s.threads[i]? = some u) (below : List Frame) :
    s.restack i below = s.put i (s.world, { u with stack := below }) := by
  rw [restack, found]

/-- But for the frames, nothing has changed. -/
theorem beside_restack (found : s.threads[i]? = some u) (below : List Frame) :
    (s.restack i below).threads[i]? = some { u with stack := below } ∧
      Beside i (s.restack i below) s u := by
  rw [restack_eq found]
  refine ⟨threads_put found, ?_⟩
  have back : (s.put i (s.world, { u with stack := below })).put i (s.world, u) = s := by
    simp only [put, Array.setIfInBounds_setIfInBounds]
    exact put_self found
  exact congrArg (hushed .log) back.symm

end State

namespace Run

variable {run : Run} {i : ThreadId} {a b d e k l : Nat}

/-- The moves from `a` to `b`. -/
def moves (run : Run) (a b : Nat) : List Move :=
  (List.range' a (b - a)).map run.move

theorem moves_succ (le : a ≤ b) : run.moves a (b + 1) = run.moves a b ++ [run.move b] := by
  have more : b + 1 - a = b - a + 1 := by omega
  have last : a + (b - a) = b := by omega
  rw [moves, more, List.range'_1_concat, List.map_append, last]
  rfl

theorem afterAll_moves (le : a ≤ b) : (run.state a).afterAll (run.moves a b) = run.state b := by
  induction le with
  | refl => simp [moves, State.afterAll]
  | step le ih =>
    rw [moves_succ le, State.afterAll_append, ih]
    rfl

theorem take_moves (le : k ≤ b - a) : (run.moves a b).take k = run.moves a (a + k) := by
  rw [moves, show b - a = k + (b - a - k) by omega, ← List.range'_append_1, List.map_append,
    List.take_left' (by simp), moves, Nat.add_sub_cancel_left]

/-- What the run would be at time `b` if from time `a` on thread `i` had other frames. -/
def replay (run : Run) (i : ThreadId) (below : List Frame) (a b : Nat) : State :=
  ((run.state a).restack i below).afterAll (run.moves a b)

/-- From time `a` to time `b`, thread `i` would not be back, if it had the frames `below` only. -/
def Pending (run : Run) (i : ThreadId) (below : List Frame) (a b : Nat) : Prop :=
  ∀ k < b, a ≤ k → ((run.replay i below a k).threads[i]?).any (·.isBackAt below.length) = false

theorem Pending.until (pending : run.Pending i below a b) (le : k ≤ b) :
    run.Pending i below a k :=
  fun j lt => pending j (Nat.lt_of_lt_of_le lt le)

/-- Over the frames `below'`, the thread does what it would do over `below`, until it would be
back. -/
theorem Pending.follows (pending : run.Pending i below a b) (le : a ≤ b)
    (found : (run.state a).threads[i]? = some u) :
    ∃ v v' : Thread, (run.replay i below a b).threads[i]? = some v ∧
      State.Beside i (run.replay i below a b) (run.state b) v' ∧ SameAbove below u.stack v v' := by
  obtain ⟨start, beside⟩ := State.beside_restack found below
  have same : SameAbove below u.stack { u with stack := below } u :=
    ⟨{ u with stack := [] }, rfl, rfl⟩
  have away : ((run.state a).restack i below).Away i below.length (run.moves a b) := by
    intro k lt
    have bound : k < b - a := by simpa [moves] using lt
    rw [take_moves (Nat.le_of_lt bound)]
    exact pending (a + k) (by omega) (Nat.le_add_right a k)
  have follows := same.run start beside away
  rwa [afterAll_moves le] at follows

/-- What the thread does over its frames is a call, if it would be one over the other ones. -/
theorem Pending.calls (pending : run.Pending i below a b) (le : a ≤ b)
    (found : (run.state a).threads[i]? = some u) (idle : u.agenda = [])
    (call : u.control.isCall = true)
    (back : ((run.replay i below a b).threads[i]?).any (·.isBackAt below.length)) :
    run.Calls i a b u.stack.length := by
  have alike : ∀ k ≤ b, a ≤ k → ((run.state k).threads[i]?).any (·.isBackAt u.stack.length) =
      ((run.replay i below a k).threads[i]?).any (·.isBackAt below.length) := by
    intro k high low
    obtain ⟨v, v', there, beside, same⟩ := (pending.until high).follows low found
    rw [there, beside.found there, Option.any_some, Option.any_some, same.isBackAt]
  refine ⟨le, ?_, fun k lt low => ?_, ?_⟩
  · simp [found, Thread.calls, idle, call]
  · rw [alike k (Nat.le_of_lt lt) low, pending k lt low]
  · rw [alike b (Nat.le_refl b) le, back]

/-- From time `l` on, thread `i` does over the frames `below'` what it would do over the frames
`below`. When it would be back, `E` holds of this time and of the outcome. -/
def Imitates (run : Run) (i : ThreadId) (n : NodeId) (below below' : List Frame) (l : Nat)
    (E : Nat → Control → Prop) : Prop :=
  ∀ b, l ≤ b → run.Untouched i n l b → run.Abstains i l b → run.Pending i below l b →
    ∃ v : Thread, (run.replay i below l b).threads[i]? = some (v.over below) ∧
      State.Beside i (run.replay i below l b) (run.state b) (v.over below') ∧
      ((v.over below).isBackAt below.length → E b v.control)

/-! ## Thunks that are forced -/

/-- Thunk `n` is not evaluated, its code is `S`, and context `c` does not have it under
evaluation. -/
structure Dormant (run : Run) (n : NodeId) (S : Suspension) (c : ContextId) (k : Nat) : Prop where
  known : (run.state k).world.suspension? n = some S
  free : ((run.state k).world.slot n).cell = none
  outside : n ∉ ((run.state k).world.context c).stack.frames

/-- A call that fails leaves the update stack as it was. -/
theorem Declines.dormant {S' : Suspension} {k : Nat} (asks : run.Asks i n t a)
    (dormant : run.Dormant n S' t.context a) (declines : run.Declines i n S t a k e c) :
    run.Dormant n S t.context e where
  known := declines.kept
  free := declines.free
  outside := by
    rw [(declines.calls.stack_restored asks.found).1]
    exact dormant.outside

/-- Thunk `n` has the value `y`, its code is released, and thread `i` hands the value to the frames
of its caller. -/
structure Memoizes (run : Run) (i : ThreadId) (n : NodeId) (S : Suspension) (t : Thread) (d : Nat)
    (y : NodeId) (registers : Registers) : Prop where
  gives : ∃ u, (run.state d).threads[i]? = some u ∧ u.agenda = [] ∧ u.control = .give y ∧
    Atop t.stack u.stack
  held : ((run.state d).world.slot n).cell = some (.value y)
  released : (run.state d).world.suspension? n = some S.clear
  registers : run.registers d t.context = registers

/-- The call fails with `c`, soon after time `b`. The thunk is not evaluated and keeps its code, and
nothing else changes. -/
def Abandons (run : Run) (i : ThreadId) (n : NodeId) (S : Suspension) (t : Thread) (a b : Nat)
    (c : Control) : Prop :=
  run.Within i n 6 b fun e => run.Declines i n S t a b e c ∧ run.Dormant n S t.context e ∧
    run.Confined i n t.context b e

/-- By time `b`, the result of the code has been evaluated, with outcome `c`. -/
structure Evaluated (run : Run) (i : ThreadId) (n : NodeId) (S : Suspension) (t : Thread)
    (a b : Nat) (c : Control) : Prop where
  failed : c.isExit → run.Abandons i n S t a b c
  valued : ∀ y, c = .give y → run.Within i n 7 b fun d =>
    run.Memoizes i n S t d y (run.registers b t.context) ∧ run.Confined i n t.context b d ∧
      ((run.state d).world.IsValue y → run.Within i n 2 d fun e =>
        run.Settles i n S t a e y (run.registers b t.context) ∧ run.Confined i n t.context d e)

/-- By time `b`, the code has been run, with outcome `c`. Its result is evaluated under the frame of
the thunk; this takes no time if it is a value. -/
structure Executed (run : Run) (i : ThreadId) (n : NodeId) (S : Suspension) (t : Thread) (a b : Nat)
    (c : Control) : Prop where
  failed : c.isExit → run.Abandons i n S t a b c
  valued : ∀ y, c = .give y → (run.state b).world.IsValue y → run.Within i n 11 b fun e =>
    run.Settles i n S t a e y (run.registers b t.context) ∧ run.Confined i n t.context b e
  result : ∀ r, c = .give r → run.Within i n 1 b fun d => run.Confined i n t.context b d ∧
    ∃ u claim rest, (run.state d).threads[i]? = some u ∧ u.agenda = [] ∧
      u.control = .evaluate r ∧ u.stack = .settling n claim :: rest ∧
      run.registers d t.context = run.registers b t.context ∧
      run.Imitates i n t.stack (.settling n claim :: rest) d (run.Evaluated i n S t a)

section

variable {th : Thunk} {frame : Frame} {E : Nat → Control → Prop}

/-- Under the frame of the thunk, the thread does what it would do for its caller. -/
theorem Stands.imitates (stands : run.Stands i n S claim t rest a l u th) (whole : run.Whole)
    (plain : S.isConstant = false) (idle : u.agenda = []) (call : u.control.isCall = true)
    (stack : u.stack = frame :: rest) (own : frame.thunk? = some n)
    (ends : ∀ b v th', run.Stands i n S claim t rest a b v th' → v.agenda = [] →
      v.stack = frame :: rest → E b v.control) :
    run.Imitates i n t.stack (frame :: rest) l E := by
  intro b le untouched abstains pending
  obtain ⟨x, x', there, beside, v, rfl, rfl⟩ := pending.follows le stands.found
  rw [stack] at beside
  -- When the one is back, the other one is back over the frame of the thunk, which it still holds.
  refine ⟨v, there, beside, fun back => ?_⟩
  have calls := pending.calls le stands.found idle call (by simpa [there] using back)
  have above : t.stack.length < u.stack.length := by
    rw [stack]
    exact Nat.lt_succ_of_le stands.atop.length_le
  obtain ⟨v', th', stands', idle', -, stack'⟩ := stands.after whole plain calls
    (by simp [stack, own]) above untouched abstains
  obtain rfl := Option.some.inj ((beside.found there).symm.trans stands'.found)
  exact ends b (v.over (frame :: rest)) th' stands' idle' (stack'.trans stack)

theorem Stands.abandons (stands : run.Stands i n S claim t rest a b u th) (asks : run.Asks i n t a)
    (dormant : run.Dormant n S t.context a) (idle : u.agenda = [])
    (stack : u.stack = frame :: rest)
    (evaluates : frame = .running n claim ∨ frame = .settling n claim) (exit : u.control.isExit) :
    run.Abandons i n S t a b u.control := by
  obtain rfl := stands.suspension
  have phase : Failing n th.suspension claim u.control t.stack (u.me (run.state b).world) 6 th
      u.agenda u.control u.stack := by
    rw [idle, stack]
    exact .dropping evaluates stands.held stands.atop
  refine (asks.gives_up exit stands.le stands.away stands.found stands.context
    (stands.inPhase trivial phase)).mono fun e _ ⟨declines, confined⟩ => ?_
  exact ⟨declines, declines.dormant asks dormant, confined⟩

/-- A value that is handed to the caller of a thunk is returned by it. -/
theorem Memoizes.settles {registers : Registers} (memoizes : run.Memoizes i n S t d y registers)
    (asks : run.Asks i n t a) (le : a ≤ d) (away : run.Away i t.stack.length a d)
    (context : ∀ u, (run.state d).threads[i]? = some u → u.context = t.context)
    (value : (run.state d).world.IsValue y) :
    run.Within i n 2 d fun e =>
      run.Settles i n S t a e y registers ∧ run.Confined i n t.context d e := by
  obtain ⟨⟨u, there, idle, gives, atop⟩, held, released, same⟩ := memoizes
  obtain ⟨⟨_, slot⟩, thunk, rfl⟩ := World.suspension?_eq_some.1 released
  rw [World.slot_of_thunk thunk] at held
  obtain ⟨r, small, phase⟩ : ∃ r ≤ 2, Settling n S true y t.stack (u.me (run.state d).world) r
      ⟨S.clear, slot⟩ [] (.give y) u.stack := Settling.left held atop
  rw [← idle, ← gives] at phase
  have is := context u there
  exact (asks.pays le away there is ⟨value, by rw [is]; exact same, _, thunk, phase⟩).weaken small

theorem Stands.evaluated (stands : run.Stands i n S claim t rest a b u th)
    (asks : run.Asks i n t a) (dormant : run.Dormant n S t.context a) (idle : u.agenda = [])
    (stack : u.stack = .settling n claim :: rest) : run.Evaluated i n S t a b u.control := by
  refine ⟨stands.abandons asks dormant idle stack (.inr rfl), fun y gives => ?_⟩
  obtain rfl := stands.suspension
  have phase : Installing n th.suspension claim y rest (u.me (run.state b).world) 7 th
      u.agenda u.control u.stack := by
    rw [idle, gives, stack]
    exact .settling stands.held
  have descent : Descent n t.stack.length (Phase.At (Installing n th.suspension claim y rest) n
      (run.registers b t.context) fun _ => True) :=
    Installing.descent stands.atop.length_le _
  refine (passes_within descent stands.found (stands.inPhase trivial phase)).mono fun d le => ?_
  rintro ⟨v, there, same, ⟨-, registers, th', thunk, phase'⟩, passes⟩
  obtain ⟨slot, set, is, idle', gives', stack'⟩ := phase'.done
  subst is
  have context := same.trans stands.context
  rw [context] at registers
  have memoizes : run.Memoizes i n th.suspension t d y (run.registers b t.context) := by
    refine ⟨⟨v, there, idle', gives', stack' ▸ stands.atop⟩, ?_, ?_, registers⟩
    · rw [World.slot_of_thunk thunk, set]
    · simp [World.suspension?, thunk]
  refine ⟨memoizes, stands.context ▸ passes.confined ?_, fun value => ?_⟩
  · exact fun _ _ _ _ phase left => phase.minds left
  · refine memoizes.settles asks (Nat.le_trans stands.le le)
      (stands.away.trans (passes.away descent)) (fun v' there' => ?_) value
    obtain rfl := Option.some.inj (there.symm.trans there')
    exact context

theorem Stands.executed (stands : run.Stands i n S claim t rest a b u th) (asks : run.Asks i n t a)
    (dormant : run.Dormant n S t.context a) (whole : run.Whole) (plain : S.isConstant = false)
    (idle : u.agenda = []) (stack : u.stack = .running n claim :: rest) :
    run.Executed i n S t a b u.control := by
  refine ⟨stands.abandons asks dormant idle stack (.inl rfl), fun y gives value => ?_,
    fun r gives => ?_⟩
  · obtain rfl := stands.suspension
    have phase : Settling n th.suspension claim y t.stack (u.me (run.state b).world) 11 th
        u.agenda u.control u.stack := by
      rw [idle, gives, stack]
      exact .running stands.held stands.atop
    exact asks.pays stands.le stands.away stands.found stands.context (stands.inPhase value phase)
  · obtain rfl := stands.suspension
    have phase : Handing n th.suspension claim r t.stack (u.me (run.state b).world) 1 th
        u.agenda u.control u.stack := by
      rw [idle, gives, stack]
      exact .given stands.held stands.atop
    refine (hands_over stands.le stands.away stands.found stands.context
      (stands.inPhase trivial phase)).mono fun d _ => ?_
    rintro ⟨⟨v, th', rest', stands', idle', is, stack', registers⟩, confined⟩
    refine ⟨confined, v, claim, rest', stands'.found, idle', is, stack', registers, ?_⟩
    refine stands'.imitates whole plain idle' (by rw [is]; rfl) stack' rfl ?_
    exact fun b v th stands idle stack => stands.evaluated asks dormant idle stack

/-- An unevaluated thunk that is asked for runs its code, which starts with `c`, as its caller would
run it. -/
theorem Asks.runs (asks : run.Asks i n t a) (dormant : run.Dormant n S t.context a)
    (whole : run.Whole) (plain : S.isConstant = false) (opening : S.opening? = some ([], c))
    (call : c.isCall = true) :
    run.Within i n 7 a fun l => run.Confined i n t.context a l ∧ ∃ u claim rest,
      (run.state l).threads[i]? = some u ∧ u.agenda = [] ∧ u.control = c ∧
        u.stack = .running n claim :: rest ∧ Atop t.stack rest ∧
        ((run.state l).world.context t.context).stack.frames =
          n :: ((run.state a).world.context t.context).stack.frames ∧
        run.registers l t.context = run.registers a t.context ∧
        run.Imitates i n t.stack (.running n claim :: rest) l (run.Executed i n S t a) := by
  refine (asks.begins opening dormant.known dormant.free dormant.outside).mono fun l _ => ?_
  rintro ⟨⟨u, th, claim, rest, stands, idle, is, stack, registers⟩, confined⟩
  refine ⟨confined, u, claim, rest, stands.found, idle, is, stack, stands.atop, ?_, registers, ?_⟩
  · have runs : u.Runs := Thread.runs_of_stack (by simp [stack])
    have soft : u.control.isFirm = false := Control.isFirm_of_isCall (is ▸ call)
    have tracks := (run.framed l).running i u stands.found runs
    rw [← stands.context, tracks.frames, u.evaluations_eq soft, stack, stands.context, asks.frames,
      ← stands.atop.evaluations]
    rfl
  · refine stands.imitates whole plain idle (is ▸ call) stack rfl ?_
    exact fun b v th stands idle stack => stands.executed asks dormant whole plain idle stack

end

end Run

/-! ## Applications -/

theorem Control.isCall_applying : (Control.applying f args).isCall = true := by
  cases args <;> rfl

theorem Suspension.opening?_application :
    (Suspension.application (some (f, args))).opening? = some ([], .applying f args) := by
  cases args <;> rfl

namespace Run

/-- **Application thunks agree with application.** A context asks for an unevaluated application
that it does not have under evaluation. Then the thunk is put on the update stack, and the function
is applied to the arguments, in their order, just as the caller would do it for itself, with the
same effects on everything but the log. The result is evaluated as the caller would evaluate it, and
the value of the result is the value of the thunk, whose function and arguments are released. On an
error or a panic the thunk is as it was before, so that it can be asked for again. While all this
happens, other threads leave the thunk alone, and the code that is run does not touch slots or code
of thunks directly. -/
theorem application_imitates (run : Run) (whole : run.Whole) (i : ThreadId) (t : Thread)
    (n f : NodeId) (args : List NodeId) (a : Nat) (asks : run.Asks i n t a)
    (dormant : run.Dormant n (.application (some (f, args))) t.context a) :
    run.Within i n 7 a fun l => run.Confined i n t.context a l ∧ ∃ u claim rest,
      (run.state l).threads[i]? = some u ∧ u.agenda = [] ∧ u.control = .applying f args ∧
        u.stack = .running n claim :: rest ∧ Atop t.stack rest ∧
        ((run.state l).world.context t.context).stack.frames =
          n :: ((run.state a).world.context t.context).stack.frames ∧
        run.registers l t.context = run.registers a t.context ∧
        run.Imitates i n t.stack (.running n claim :: rest) l
          (run.Executed i n (.application (some (f, args))) t a) :=
  asks.runs dormant whole rfl Suspension.opening?_application Control.isCall_applying

/-- A function that doubles its argument, later. -/
def doubling : Run :=
  .ofMoves {}
    ([.build (.function "double" 1 (.suspend (.prim .sum [.arg 0 0, .arg 0 0])) {}),
        .build (.scalar (.long 20)), .suspend (.application (some (0, [1]))), .sit true,
        .evaluate 0 2] ++ List.replicate 50 (.step 0))
    (by decide +kernel)

/-- The function is applied from time 16 to time 20. Its result is a thunk, which is evaluated from
time 21 to time 45. -/
theorem application_imitates_doubling :
    ∃ t, doubling.Asks 0 2 t 9 ∧
      doubling.Dormant 2 (.application (some (0, [1]))) t.context 9 ∧
      ∃ e, doubling.Settles 0 2 (.application (some (0, [1]))) t 9 e 4
          (doubling.registers 45 t.context) ∧
        (doubling.state 45).world.number 4 = 40 := by
  have whole : doubling.Whole := ofMoves_all rfl (by decide +kernel)
  have steps : ∀ k < 55, 9 ≤ k → (doubling.move k).isStep 0 = true := by decide
  have alone : ∀ {a b : Nat}, 9 ≤ a → b ≤ 55 → doubling.Untouched 0 2 a b := fun low high =>
    untouched_of_steps fun k lt le => steps k (by omega) (by omega)
  have modest : ∀ k < 55, ((doubling.state k).threads[0]?).any Thread.touches = false := by
    decide +kernel
  have abstains : ∀ {a b : Nat}, b ≤ 55 → doubling.Abstains 0 a b := fun high k _ lt =>
    modest k (by omega)
  obtain ⟨t, found, calls, height, context⟩ := caller_of_any (i := 0) (s := doubling.state 9)
    (n := 2) (c := 0) (by decide +kernel)
  have idle : ((doubling.state 9).threads[0]?).any (·.agenda.isEmpty) = true := by decide +kernel
  rw [found, Option.any_some, List.isEmpty_iff] at idle
  have asks : doubling.Asks 0 2 t 9 := ⟨found, idle, calls⟩
  have outside : 2 ∉ ((doubling.state 9).world.context t.context).stack.frames := by
    rw [context]
    decide +kernel
  have dormant : doubling.Dormant 2 (.application (some (0, [1]))) t.context 9 :=
    ⟨rfl, by decide +kernel, outside⟩
  have bottom : t.stack = [] := List.length_eq_zero_iff.1 height
  refine ⟨t, asks, dormant, ?_⟩
  obtain ⟨j, le, ⟨-, u, claim, rest, there, -, -, stack, -, -, -, imitates⟩, -⟩ :=
    application_imitates doubling whole 0 t 2 0 [1] 9 asks dormant 7
      (alone (by decide) (by decide)) (by decide +kernel)
  have at16 : ∀ j ≤ 7, ((doubling.state (9 + j)).threads[0]?).any
      (fun u => u.stack.head?.any (·.thunk? == some 2)) = true → j = 7 := by decide +kernel
  obtain rfl := at16 j le (by simp [there, stack, Frame.thunk?])
  rw [bottom] at imitates
  have pending : ∀ k < 20, 16 ≤ k →
      ((doubling.replay 0 [] 16 k).threads[0]?).any (·.isBackAt 0) = false := by decide +kernel
  obtain ⟨v, found', -, executed⟩ := imitates 20 (by decide) (alone (by decide) (by decide))
    (abstains (by decide)) pending
  have gives : ((doubling.replay 0 [] 16 20).threads[0]?).any
      (fun u => u.isBackAt 0 && u.gives 3) = true := by decide +kernel
  rw [found', Option.any_some, Bool.and_eq_true] at gives
  obtain ⟨j, le, ⟨-, u, claim, rest, there, -, evaluates, -, -, imitates⟩, -⟩ :=
    (executed gives.1).result 3 (Thread.control_of_gives gives.2) 1 (alone (by decide) (by decide))
      (by decide +kernel)
  have at21 : ∀ j ≤ 1, ((doubling.state (20 + j)).threads[0]?).any (·.asks 3) = true → j = 1 := by
    decide +kernel
  obtain rfl := at21 j le (by simp [there, evaluates, Thread.asks])
  rw [bottom] at imitates
  have pending : ∀ k < 45, 21 ≤ k →
      ((doubling.replay 0 [] 21 k).threads[0]?).any (·.isBackAt 0) = false := by decide +kernel
  obtain ⟨v, found', -, evaluated⟩ := imitates 45 (by decide) (alone (by decide) (by decide))
    (abstains (by decide)) pending
  have gives : ((doubling.replay 0 [] 21 45).threads[0]?).any
      (fun u => u.isBackAt 0 && u.gives 4) = true := by decide +kernel
  rw [found', Option.any_some, Bool.and_eq_true] at gives
  have value : ((doubling.state 45).world.value? 4).isSome = true := by decide +kernel
  obtain ⟨j, le, ⟨-, -, settles⟩, -⟩ := (evaluated gives.1).valued 4
    (Thread.control_of_gives gives.2) 7 (alone (by decide) (by decide)) (by decide +kernel)
  have known : (doubling.state (45 + j)).world.IsValue 4 :=
    (doubling.evolves (Nat.le_add_right 45 j)).isValue value
  have turns : ∀ j ≤ 7, 2 ≤ doubling.turns 0 (45 + j) 2 := by decide +kernel
  obtain ⟨k, -, ⟨settles, -⟩, -⟩ := settles known 2 (alone (by omega) (by omega)) (turns j le)
  exact ⟨_, settles, by decide +kernel⟩

end Run

end LazyGraph

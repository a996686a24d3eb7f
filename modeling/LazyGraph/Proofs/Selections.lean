import LazyGraph.Proofs.Delivery
import LazyGraph.Proofs.Descents

/-!
# The steps of a thunk

A thunk that is forced opens with its code. Once this is over, the thunk fails, or the result of the
code is evaluated and installed; a selector selects a field before. But for what the code does and
for the evaluation of the result, the number of steps is bounded.
-/

namespace LazyGraph

variable {w w' : World} {t t' : Thread} {n v : NodeId} {claim : Bool}

/-! ## What a step makes of a thunk -/

namespace World

theorem thunk?_write_self {th : Thunk} (found : w.thunk? n = some th) (cell : Option Cell) :
    (w.write n cell).thunk? n = some { th with slot := th.slot.write cell } := by
  rw [thunk?_eq_some, node?_write, found]
  simp

theorem thunk?_release_self {th : Thunk} (found : w.thunk? n = some th) :
    (w.release n).thunk? n = some { th with suspension := th.suspension.clear } := by
  rw [thunk?_eq_some, node?_release, found]
  simp

theorem thunk?_emit (c : ContextId) (e : Event) : (w.emit c e).thunk? n = w.thunk? n := by
  obtain ⟨log, same⟩ := w.emit_eq c e
  rw [same]
  rfl

end World

/-- The slot holds the claim of task `me`, or nothing if `me` has not claimed it. -/
def Slot.Held (claim : Bool) (me : TaskId) (s : Slot) : Prop :=
  s.cell = if claim then some (.blackHole me) else none

theorem Slot.held_of_free {me : TaskId} {s : Slot} (free : s.cell = none) : s.Held false me :=
  free

/-- The frames of a caller, who may want to evaluate the result. -/
def Atop (base rest : List Frame) : Prop :=
  rest = base ∨ rest = .again :: base

/-! ## Phases -/

/-- How a thread of task `me` stands to thunk `n`, with so many steps left. -/
abbrev Phase := TaskId → Nat → Thunk → List Action → Control → List Frame → Prop

/-- The thread is in the phase, and its registers are as given. -/
def Phase.At (Φ : Phase) (n : NodeId) (registers : Registers) (Q : World → Prop) (r : Nat)
    (w : World) (t : Thread) : Prop :=
  Q w ∧ (w.context t.context).registers = registers ∧
    ∃ th, w.thunk? n = some th ∧ Φ (t.me w) r th t.agenda t.control t.stack

/-- The step of the thread leads on in the phase. -/
def Phase.Steps (Φ : Phase) (n : NodeId) (w : World) (t : Thread) (r : Nat) : Prop :=
  ∃ r' < r, ∃ th, (t.step w).1.thunk? n = some th ∧
    Φ (t.me w) r' th (t.step w).2.agenda (t.step w).2.control (t.step w).2.stack

theorem Phase.steps {Φ : Phase} {th : Thunk} {r : Nat} (r' : Nat) (less : r' < r)
    (step : t.step w = (w', t')) (thunk : w'.thunk? n = some th)
    (next : Φ (t.me w) r' th t'.agenda t'.control t'.stack) : Φ.Steps n w t r := by
  unfold Steps
  rw [step]
  exact ⟨r', less, th, thunk, next⟩

theorem Phase.At.stable {Φ : Phase} {registers : Registers} {Q : World → Prop} {r : Nat}
    (mono : ∀ w w' : World, w.Evolves w' → Q w → Q w') (at' : Φ.At n registers Q r w t)
    (evolves : w.Evolves w') (same : w'.thunk? n = w.thunk? n) (me : t.me w' = t.me w)
    (kept : (w'.context t.context).registers = (w.context t.context).registers) :
    Φ.At n registers Q r w' t := by
  obtain ⟨known, registers', th, found, phase⟩ := at'
  exact ⟨mono w w' evolves known, kept.trans registers', th, same.trans found, me ▸ phase⟩

theorem Thread.away_of_control {depth : Nat} (inside : t.control.isOutcome = false) :
    t.isBackAt depth = false := by
  unfold isBackAt
  cases at' : t.control <;> simp_all [Control.isOutcome]

/-- The thread is under way, and it is not about to project. -/
structure Thread.Engaged (t : Thread) (depth : Nat) : Prop where
  runs : t.Runs
  calm : t.Calm
  gate : ∀ g as, t.agenda ≠ .gate g :: as
  away : t.isBackAt depth = false

theorem Phase.descent {Φ : Phase} {registers : Registers} {Q : World → Prop} {depth : Nat}
    (mono : ∀ w w' : World, w.Evolves w' → Q w → Q w')
    (step : ∀ w t r th, Q w → w.thunk? n = some th → Φ (t.me w) r th t.agenda t.control t.stack →
      r ≠ 0 → (w.context t.context).stack.Tracks t.evaluations → Φ.Steps n w t r)
    (engaged : ∀ (t : Thread) me r th, Φ me r th t.agenda t.control t.stack → r ≠ 0 →
      t.Engaged depth) :
    Descent n depth (Φ.At n registers Q) where
  step := by
    rintro w t r ⟨known, same, th, found, at'⟩ left - tracks
    obtain ⟨r', less, th', found', next⟩ := step w t r th known found at' left tracks
    have change := step_cases w t
    refine ⟨r', less, mono w _ change.evolves known, ?_, th', found', ?_⟩
    · rw [change.context, Thread.registers_step (.inr (engaged t _ r th at' left).calm), same]
    · rwa [change.me]
  runs := by
    rintro w t r ⟨-, -, th, -, at'⟩ left
    exact (engaged t _ r th at' left).runs
  gate := by
    rintro w t r g as ⟨-, -, th, -, at'⟩ left
    exact (engaged t _ r th at' left).gate g as
  away := by
    rintro w t r ⟨-, -, th, -, at'⟩ left
    exact (engaged t _ r th at' left).away
  stable := Phase.At.stable mono

/-! ### Opening -/

section

variable {S : Suspension} {fs base : List Frame} {c : Control}

/-- From the request for a thunk to its code, which starts with `c` over the frames `fs`. -/
inductive Opening (n : NodeId) (S : Suspension) (fs : List Frame) (c : Control) (base : List Frame)
    (me : TaskId) : Nat → Thunk → List Action → Control → List Frame → Prop
  | evaluate {slot} (free : slot.cell = none) :
    Opening n S fs c base me 7 ⟨S, slot⟩ [] (.evaluate n) base
  | enter {slot rest} (free : slot.cell = none) (atop : Atop base rest) :
    Opening n S fs c base me 6 ⟨S, slot⟩ [] (.enter n) rest
  | blackHole {slot ns env} (free : slot.cell = none) :
    Opening n S fs c base me 6 ⟨S, slot⟩ [] (.perform .blackHole (n :: ns) env) base
  | force {slot claim rest} (free : slot.cell = none) (atop : Atop base rest) :
    Opening n S fs c base me 5 ⟨S, slot⟩ [] (.force n claim) rest
  | seize {slot seen rest} (free : slot.cell = none) (noted : seen.cell = none)
    (atop : Atop base rest) :
    Opening n S fs c base me 4 ⟨S, slot⟩ [] (.seize n seen) rest
  | claimed {slot e rest} (own : slot.Held true me) (atop : Atop base rest) :
    Opening n S fs c base me 3 ⟨S, slot⟩ [.emit e] (.start n true) rest
  | start {slot claim rest} (held : slot.Held claim me) (atop : Atop base rest) :
    Opening n S fs c base me 2 ⟨S, slot⟩ [] (.start n claim) rest
  | body {slot claim rest} (held : slot.Held claim me) (atop : Atop base rest) :
    Opening n S fs c base me 1 ⟨S, slot⟩ [] (.body n claim) rest
  | opened {slot claim rest} (held : slot.Held claim me) (atop : Atop base rest) :
    Opening n S fs c base me 0 ⟨S, slot⟩ [] c (fs ++ .running n claim :: rest)

theorem Atop.evaluations {rest : List Frame} (atop : Atop base rest) :
    rest.filterMap Frame.thunk? = base.filterMap Frame.thunk? := by
  rcases atop with rfl | rfl <;> rfl

theorem Opening.step {r : Nat} {th : Thunk} (opening : S.opening? = some (fs, c))
    (outside : n ∉ base.filterMap Frame.thunk?) (found : w.thunk? n = some th)
    (phase : Opening n S fs c base (t.me w) r th t.agenda t.control t.stack) (left : r ≠ 0)
    (tracks : (w.context t.context).stack.Tracks t.evaluations) :
    Phase.Steps (Opening n S fs c base) n w t r := by
  have node := World.thunk?_eq_some.1 found
  have slot := World.slot_of_thunk found
  generalize next : t.agenda = agenda at phase
  generalize at' : t.control = control at phase
  generalize stack : t.stack = frames at phase
  cases phase with
  | evaluate free =>
    have unknown : w.evaluated? n = none := by simp [World.evaluated?, node, Slot.value?, free]
    have is : t.step w = (w, { t with control := .enter n, stack := .again :: t.stack }) := by
      simp [Thread.step_idle next, Thread.proceed, at', Thread.evaluate, unknown, Thread.push]
    rw [stack] at is
    refine Phase.steps 6 (by decide) is found ?_
    rw [next]
    exact .enter free (.inr rfl)
  | enter free atop =>
    have is : t.step w = (w, t.goto (.force n (w.context t.context).config.eager)) := by
      simp [Thread.step_idle next, Thread.proceed, at', Thread.enter, node]
    refine Phase.steps 5 (by decide) is found ?_
    simp only [Thread.goto, next, stack]
    exact .force free atop
  | blackHole free =>
    have is : t.step w = (w, t.goto (.force n true)) :=
      Thread.step_blackHole next at' (by rw [found]; rfl)
    refine Phase.steps 5 (by decide) is found ?_
    simp only [Thread.goto, next, stack]
    exact .force free (.inl rfl)
  | @force _ claim _ free atop =>
    cases claim with
    | false =>
      have is : t.step w = (w, t.goto (.start n false)) := by
        simp [Thread.step_idle next, Thread.proceed, at', Thread.force, slot, free]
      refine Phase.steps 2 (by decide) is found ?_
      simp only [Thread.goto, next, stack]
      exact .start (Slot.held_of_free free) atop
    | true =>
      have is : t.step w = (w, t.goto (.seize n (w.slot n))) := by
        simp [Thread.step_idle next, Thread.proceed, at', Thread.force, slot, free]
      refine Phase.steps 4 (by decide) is found ?_
      simp only [Thread.goto, next, stack]
      exact .seize free (slot ▸ free) atop
  | @seize σ seen _ free noted atop =>
    have same : σ.unchanged seen = true := by simp [Slot.unchanged, free, noted]
    have is : t.step w = (w.write n (some (.blackHole (t.me w))),
        { t with agenda := [.emit (.claimed n (t.me w))], control := .start n true }) := by
      simp [Thread.step_idle next, Thread.proceed, at', Thread.seize, World.exchange?, slot, same,
        Thread.plan, next, Thread.me, World.taskOf_write]
    refine Phase.steps 3 (by decide) is (World.thunk?_write_self found _) ?_
    rw [stack]
    exact .claimed rfl atop
  | claimed own atop =>
    refine Phase.steps 2 (by decide) (Thread.step_emit next) (by rwa [World.thunk?_emit]) ?_
    rw [at', stack]
    exact .start own atop
  | @start _ claim _ held atop =>
    obtain ⟨stack', pushed⟩ : ∃ s, (w.context t.context).stack.push? n = some s := by
      refine Option.ne_none_iff_exists'.1 fun active => outside ?_
      rw [tracks.push?_eq_none, Thread.evaluations, at', stack, atop.evaluations] at active
      simpa [Control.begun?] using active
    have is : t.step w = (w.setContext t.context { w.context t.context with stack := stack' },
        t.goto (.body n claim)) := by
      simp [Thread.step_idle next, Thread.proceed, at', Thread.start, pushed]
    refine Phase.steps 1 (by decide) is found ?_
    simp only [Thread.goto, next, stack]
    exact .body held atop
  | @body _ claim _ held atop =>
    have known : w.suspension? n = some S := by simp [World.suspension?, found]
    have is : t.step w = t.body w n claim := by simp [Thread.step_idle next, Thread.proceed, at']
    rw [Thread.body_of_opening known opening] at is
    refine Phase.steps 0 (by decide) is found ?_
    simp only [next, stack]
    exact .opened held atop
  | opened => exact absurd rfl left

/-- Whoever asks for the thunk, it opens. -/
theorem Opening.of_call {me : TaskId} {slot : Slot} {call : Control} (asks : call.calls? = some n)
    (free : slot.cell = none) : ∃ r ≤ 7, Opening n S fs c base me r ⟨S, slot⟩ [] call base := by
  unfold Control.calls? at asks
  split at asks
  · cases asks
    exact ⟨7, by decide, .evaluate free⟩
  · cases asks
    exact ⟨6, by decide, .enter free (.inl rfl)⟩
  · cases asks
    exact ⟨6, by decide, .blackHole free⟩
  · cases asks

theorem Opening.done {me : TaskId} {th : Thunk} {as : List Action} {c' : Control}
    {stack : List Frame} (phase : Opening n S fs c base me 0 th as c' stack) :
    ∃ claim rest, th.suspension = S ∧ th.slot.Held claim me ∧ Atop base rest ∧ as = [] ∧ c' = c ∧
      stack = fs ++ .running n claim :: rest := by
  cases phase with
  | opened held atop => exact ⟨_, _, rfl, held, atop, rfl, rfl, rfl⟩

theorem Opening.engaged {me : TaskId} {r : Nat} {th : Thunk}
    (phase : Opening n S fs c base me r th t.agenda t.control t.stack) (left : r ≠ 0) :
    t.Engaged base.length := by
  have inside : t.control.isOutcome = false → (∀ g as, t.agenda ≠ .gate g :: as) →
      t.Engaged base.length := fun inside gate =>
    ⟨Thread.runs_of_control inside,
      Thread.calm_of_control fun x is => by simp [is, Control.isOutcome] at inside, gate,
      Thread.away_of_control inside⟩
  generalize next : t.agenda = agenda at phase inside
  generalize at' : t.control = control at phase inside
  generalize stack : t.stack = frames at phase
  cases phase with
  | opened => exact absurd rfl left
  | _ => exact inside rfl (by simp)

theorem Opening.descent (opening : S.opening? = some (fs, c))
    (outside : n ∉ base.filterMap Frame.thunk?) (registers : Registers) :
    Descent n base.length (Phase.At (Opening n S fs c base) n registers fun _ => True) :=
  Phase.descent (fun _ _ _ => id)
    (fun _ _ _ _ _ found phase left tracks => phase.step opening outside found left tracks)
    fun _ _ _ _ phase left => phase.engaged left

end

/-! ### Failing -/

section

variable {S : Suspension} {c : Control} {base frames : List Frame} {me : TaskId} {r : Nat}
  {th : Thunk}

theorem Slot.ownedBy_of_held {s : Slot} (own : s.Held true me) : s.ownedBy me = true := by
  rw [Slot.ownedBy, show s.cell = some (.blackHole me) from own]
  simp [Cell.owner?]

/-- The claim on a thunk is given up, and then the thread goes on with `c`. -/
inductive Yielding (n : NodeId) (S : Suspension) (c : Control) (frames : List Frame) (me : TaskId) :
    Nat → Thunk → List Action → Control → List Frame → Prop
  | report {slot e} (own : slot.Held true me) :
    Yielding n S c frames me 4 ⟨S, slot⟩ [.emit e, .abandon n] c frames
  | abandon {slot} (own : slot.Held true me) :
    Yielding n S c frames me 3 ⟨S, slot⟩ [.abandon n] c frames
  | surrender {slot} (own : slot.Held true me) :
    Yielding n S c frames me 2 ⟨S, slot⟩ [.surrender n slot] c frames
  | abandoned {slot e} (free : slot.cell = none) :
    Yielding n S c frames me 1 ⟨S, slot⟩ [.emit e] c frames
  | freed {slot} (free : slot.cell = none) : Yielding n S c frames me 0 ⟨S, slot⟩ [] c frames

theorem Yielding.step (found : w.thunk? n = some th)
    (phase : Yielding n S c frames (t.me w) r th t.agenda t.control t.stack) (left : r ≠ 0) :
    Phase.Steps (Yielding n S c frames) n w t r := by
  have slot := World.slot_of_thunk found
  generalize next : t.agenda = agenda at phase
  generalize at' : t.control = control at phase
  generalize stack : t.stack = fs at phase
  cases phase with
  | report own =>
    refine Phase.steps 3 (by decide) (Thread.step_emit next) (by rwa [World.thunk?_emit]) ?_
    rw [at', stack]
    exact .abandon own
  | @abandon σ own =>
    have owned : σ.ownedBy (w.taskOf t.context) = true := Slot.ownedBy_of_held own
    have is : t.step w = (w, { t with agenda := [.surrender n σ] }) := by
      simp [Thread.step, next, Action.perform, slot, owned]
    refine Phase.steps 2 (by decide) is found ?_
    rw [at', stack]
    exact .surrender own
  | @surrender σ own =>
    have alone : σ.queue? = none := by
      rw [Slot.queue?, show σ.cell = some (.blackHole (t.me w)) from own]
    have is : t.step w = (w.write n none, { t with agenda := [.emit (.abandoned (t.me w))] }) := by
      simp [Thread.step, next, Action.perform, World.exchange?, slot, Slot.unchanged_self,
        afterSurrender, alone, World.taskOf_write, Thread.me]
    refine Phase.steps 1 (by decide) is (World.thunk?_write_self found _) ?_
    rw [at', stack]
    exact .abandoned rfl
  | abandoned free =>
    refine Phase.steps 0 (by decide) (Thread.step_emit next) (by rwa [World.thunk?_emit]) ?_
    rw [at', stack]
    exact .freed free
  | freed => exact absurd rfl left

theorem Yielding.busy {as : List Action} {c' : Control} {fs : List Frame}
    (phase : Yielding n S c frames me (r + 1) th as c' fs) :
    as ≠ [] ∧ ∀ g bs, as ≠ .gate g :: bs := by
  cases phase <;> simp

theorem Yielding.done {as : List Action} {c' : Control} {fs : List Frame}
    (phase : Yielding n S c frames me 0 th as c' fs) :
    ∃ slot : Slot, slot.cell = none ∧ th = ⟨S, slot⟩ ∧ as = [] ∧ c' = c ∧ fs = frames := by
  cases phase with
  | freed free => exact ⟨_, free, rfl, rfl, rfl, rfl⟩

/-- From an exit of the selector to the exit of its caller. -/
inductive Failing (n : NodeId) (S : Suspension) (claim : Bool) (c : Control) (base : List Frame)
    (me : TaskId) : Nat → Thunk → List Action → Control → List Frame → Prop
  | projecting {kind index p slot rest} (held : slot.Held claim me) (atop : Atop base rest) :
    Failing n S claim c base me 7 ⟨S, slot⟩ [] c (.project kind index p :: .running n claim :: rest)
  | dropping {f slot rest} (evaluates : f = .running n claim ∨ f = .settling n claim)
    (held : slot.Held claim me) (atop : Atop base rest) :
    Failing n S claim c base me 6 ⟨S, slot⟩ [] c (f :: rest)
  | yielding {r th as c' fs rest} (phase : Yielding n S c rest me (r + 1) th as c' fs)
    (atop : Atop base rest) : Failing n S claim c base me (r + 2) th as c' fs
  | above {slot} (free : slot.cell = none) :
    Failing n S claim c base me 1 ⟨S, slot⟩ [] c (.again :: base)
  | back {slot} (free : slot.cell = none) : Failing n S claim c base me 0 ⟨S, slot⟩ [] c base

/-- Without a claim, the thread is back with its caller, but for the frame of an evaluation. -/
theorem Failing.freed {slot : Slot} {rest : List Frame} (free : slot.cell = none)
    (atop : Atop base rest) : ∃ r ≤ 1, Failing n S claim c base me r ⟨S, slot⟩ [] c rest := by
  rcases atop with rfl | rfl
  · exact ⟨0, by decide, .back free⟩
  · exact ⟨1, by decide, .above free⟩

theorem Thread.step_exit_evaluation {f : Frame} {rest : List Frame} (idle : t.agenda = [])
    (exit : t.control.isExit) (top : t.stack = f :: rest)
    (evaluates : f = .running n claim ∨ f = .settling n claim) :
    ∃ e, (e = [] ∨ ∃ x, e = [.emit x]) ∧
      t.step w = (t.leave w n,
        { t with agenda := if claim then e ++ [.abandon n] else [], stack := rest }) := by
  cases at' : t.control with
  | fail e =>
    refine ⟨[], .inl rfl, ?_⟩
    rcases evaluates with rfl | rfl <;>
      cases claim <;> simp [step_idle idle, proceed, at', fail, top, leave, plan, idle]
  | unwind message =>
    refine ⟨[.emit (.panicked n (t.me w))], .inr ⟨_, rfl⟩, ?_⟩
    rcases evaluates with rfl | rfl <;>
      cases claim <;> simp [step_idle idle, proceed, at', unwind, top, leave, plan, idle, me]
  | _ => simp [at', Control.isExit] at exit

theorem Failing.step (exit : c.isExit) (found : w.thunk? n = some th)
    (phase : Failing n S claim c base (t.me w) r th t.agenda t.control t.stack) (left : r ≠ 0) :
    Phase.Steps (Failing n S claim c base) n w t r := by
  generalize next : t.agenda = agenda at phase
  generalize at' : t.control = control at phase
  generalize stack : t.stack = fs at phase
  cases phase with
  | projecting held atop =>
    refine Phase.steps 6 (by decide) (Thread.step_exit_project next (at' ▸ exit) stack) found ?_
    rw [next, at']
    exact .dropping (.inl rfl) held atop
  | @dropping _ σ rest evaluates held atop =>
    obtain ⟨e, reports, is⟩ :=
      Thread.step_exit_evaluation (w := w) next (at' ▸ exit) stack evaluates
    cases claim with
    | false =>
      obtain ⟨r', small, landed⟩ : ∃ r ≤ 1, Failing n S false c base (t.me w) r ⟨S, σ⟩ [] c rest :=
        Failing.freed held atop
      refine Phase.steps r' (by omega) is found ?_
      rw [at']
      exact landed
    | true =>
      rcases reports with rfl | ⟨x, rfl⟩
      · refine Phase.steps 4 (by decide) is found ?_
        rw [at']
        exact .yielding (.abandon held) atop
      · refine Phase.steps 5 (by decide) is found ?_
        rw [at']
        exact .yielding (.report held) atop
  | @yielding r _ _ _ _ rest phase atop =>
    have step : Phase.Steps (Yielding n S c rest) n w t (r + 1) :=
      Yielding.step found (by rw [next, at', stack]; exact phase) (Nat.succ_ne_zero r)
    obtain ⟨r', less, th', thunk, phase'⟩ := step
    cases r' with
    | zero =>
      obtain ⟨σ, free, rfl, idle, same, below⟩ := phase'.done
      obtain ⟨r', small, landed⟩ := Failing.freed free atop
      refine ⟨r', by omega, _, thunk, ?_⟩
      rw [idle, same, below]
      exact landed
    | succ r' => exact ⟨r' + 2, by omega, th', thunk, .yielding phase' atop⟩
  | above free =>
    have is : t.step w = (w, { t with stack := base }) := by
      cases c <;> simp_all [Thread.step, Thread.proceed, Thread.fail, Thread.unwind,
        Control.isExit]
    refine Phase.steps 0 (by decide) is found ?_
    rw [next, at']
    exact .back free
  | back => exact absurd rfl left

theorem Atop.length_le {base rest : List Frame} (atop : Atop base rest) :
    base.length ≤ rest.length := by
  rcases atop with rfl | rfl
  · exact Nat.le_refl _
  · exact Nat.le_succ _

theorem Thread.engaged_of_above {depth : Nat} (above : depth < t.stack.length) (calm : t.Calm)
    (gate : ∀ g as, t.agenda ≠ .gate g :: as) : t.Engaged depth := by
  refine ⟨Thread.runs_of_stack fun empty => ?_, calm, gate, ?_⟩
  · simp [empty] at above
  · simp [isBackAt, Nat.ne_of_gt above]

theorem Thread.engaged_of_busy {depth : Nat} (busy : t.agenda ≠ [])
    (gate : ∀ g as, t.agenda ≠ .gate g :: as) : t.Engaged depth where
  runs := Thread.runs_of_agenda busy
  calm _ _ _ _ _ projects := busy projects.idle
  gate := gate
  away := by simp [isBackAt, busy]

theorem Failing.done {as : List Action} {c' : Control} {fs : List Frame}
    (phase : Failing n S claim c base me 0 th as c' fs) :
    th.suspension = S ∧ th.slot.cell = none ∧ as = [] ∧ c' = c ∧ fs = base := by
  cases phase with
  | back free => exact ⟨rfl, free, rfl, rfl, rfl⟩

theorem Failing.engaged (exit : c.isExit)
    (phase : Failing n S claim c base me r th t.agenda t.control t.stack) (left : r ≠ 0) :
    t.Engaged base.length := by
  have calm : t.control.isExit = true → t.Calm := fun exit =>
    Thread.calm_of_control fun x is => by simp [is, Control.isExit] at exit
  generalize next : t.agenda = agenda at phase
  generalize at' : t.control = control at phase calm
  generalize stack : t.stack = fs at phase
  cases phase with
  | projecting held atop =>
    refine Thread.engaged_of_above ?_ (calm exit) (by simp [next])
    have := atop.length_le
    simp only [stack, List.length_cons]
    omega
  | dropping _ held atop =>
    refine Thread.engaged_of_above ?_ (calm exit) (by simp [next])
    have := atop.length_le
    simp only [stack, List.length_cons]
    omega
  | yielding phase =>
    obtain ⟨busy, gate⟩ := phase.busy
    exact Thread.engaged_of_busy (by rwa [next]) (by rwa [next])
  | above => exact Thread.engaged_of_above (by simp [stack]) (calm exit) (by simp [next])
  | back => exact absurd rfl left

theorem Failing.descent (exit : c.isExit) (registers : Registers) :
    Descent n base.length (Phase.At (Failing n S claim c base) n registers fun _ => True) :=
  Phase.descent (fun _ _ _ => id)
    (fun _ _ _ _ _ found phase left _ => Failing.step exit found phase left)
    fun _ _ _ _ phase left => Failing.engaged exit phase left

end

/-! ### Settling -/

section

variable {S : Suspension} {base rest : List Frame} {me : TaskId} {r : Nat} {th : Thunk}

theorem Slot.Held.value? {s : Slot} (held : s.Held claim me) : s.value? = none := by
  have cell : s.cell = if claim then some (.blackHole me) else none := held
  cases claim <;> simp [Slot.value?, cell]

theorem Slot.Held.afterInstall {s : Slot} (held : s.Held claim me) :
    Thread.afterInstall me s = [] := by
  have cell : s.cell = if claim then some (.blackHole me) else none := held
  cases claim <;> simp [Thread.afterInstall, cell]

/-- From the value of a thunk under its frame to its return over the frames `rest`. -/
inductive Installing (n : NodeId) (S : Suspension) (claim : Bool) (v : NodeId) (rest : List Frame)
    (me : TaskId) : Nat → Thunk → List Action → Control → List Frame → Prop
  | settling {slot} (held : slot.Held claim me) :
    Installing n S claim v rest me 7 ⟨S, slot⟩ [] (.give v) (.settling n claim :: rest)
  | report {slot e} (held : slot.Held claim me) :
    Installing n S claim v rest me 6 ⟨S, slot⟩ [.emit e] (.update n v) (.leaving n :: rest)
  | update {slot} (held : slot.Held claim me) :
    Installing n S claim v rest me 5 ⟨S, slot⟩ [] (.update n v) (.leaving n :: rest)
  | install {slot} (held : slot.Held claim me) :
    Installing n S claim v rest me 4 ⟨S, slot⟩ [] (.install n v slot) (.leaving n :: rest)
  | installed {slot e} (set : slot.cell = some (.value v)) :
    Installing n S claim v rest me 3 ⟨S, slot⟩ [.clear n, .emit e] (.give v) (.leaving n :: rest)
  | cleared {slot e} (set : slot.cell = some (.value v)) :
    Installing n S claim v rest me 2 ⟨S.clear, slot⟩ [.emit e] (.give v) (.leaving n :: rest)
  | leaving {slot} (set : slot.cell = some (.value v)) :
    Installing n S claim v rest me 1 ⟨S.clear, slot⟩ [] (.give v) (.leaving n :: rest)
  | left {slot} (set : slot.cell = some (.value v)) :
    Installing n S claim v rest me 0 ⟨S.clear, slot⟩ [] (.give v) rest

theorem Installing.step (found : w.thunk? n = some th)
    (phase : Installing n S claim v rest (t.me w) r th t.agenda t.control t.stack) (left : r ≠ 0) :
    Phase.Steps (Installing n S claim v rest) n w t r := by
  have slot := World.slot_of_thunk found
  generalize next : t.agenda = agenda at phase
  generalize at' : t.control = control at phase
  generalize stack : t.stack = fs at phase
  cases phase with
  | settling held =>
    have is : t.step w = (w, { t with
        agenda := [.emit (.installing v)]
        control := .update n v
        stack := .leaving n :: rest }) := by
      simp [Thread.step_idle next, Thread.proceed, at', Thread.give, stack, Thread.settle,
        Thread.plan, next]
    exact Phase.steps 6 (by decide) is found (.report held)
  | report held =>
    refine Phase.steps 5 (by decide) (Thread.step_emit next) (by rwa [World.thunk?_emit]) ?_
    rw [at', stack]
    exact .update held
  | @update σ held =>
    have is : t.step w = (w, { t with control := .install n v σ }) := by
      simp [Thread.step_idle next, Thread.proceed, at', Thread.update, slot, held.value?,
        Thread.goto]
    refine Phase.steps 4 (by decide) is found ?_
    rw [next, stack]
    exact .install held
  | @install σ held =>
    have quiet : Thread.afterInstall (t.me w) σ = [] := held.afterInstall
    have is : t.step w = (w.write n (some (.value v)),
        { t with agenda := [.clear n, .emit (.updated (t.me w) v)], control := .give v }) := by
      simp [Thread.step_idle next, Thread.proceed, at', Thread.install, World.exchange?, slot,
        Slot.unchanged_self, Thread.plan, next, Thread.me, World.taskOf_write]
      exact quiet
    refine Phase.steps 3 (by decide) is (World.thunk?_write_self found _) ?_
    rw [stack]
    exact .installed (Slot.cell_write _ _)
  | @installed _ e set =>
    have is : t.step w = (w.release n, { t with agenda := [.emit e] }) := by
      simp [Thread.step, next, Action.perform]
    refine Phase.steps 2 (by decide) is (World.thunk?_release_self found) ?_
    rw [at', stack]
    exact .cleared set
  | cleared set =>
    refine Phase.steps 1 (by decide) (Thread.step_emit next) (by rwa [World.thunk?_emit]) ?_
    rw [at', stack]
    exact .leaving set
  | leaving set =>
    have is : t.step w = (t.leave w n, { t with control := .give v, stack := rest }) := by
      simp [Thread.step_idle next, Thread.proceed, at', Thread.give, stack, Thread.leave,
        Thread.goto]
    refine Phase.steps 0 (by decide) is found ?_
    rw [next]
    exact .left set
  | left => exact absurd rfl left

/-- The frame of the evaluation is there until the end. -/
theorem Installing.above {as : List Action} {c : Control} {fs : List Frame}
    (phase : Installing n S claim v rest me (r + 1) th as c fs) :
    (∃ f, fs = f :: rest ∧ ∀ kind index p, f ≠ .project kind index p) ∧
      ∀ g bs, as ≠ .gate g :: bs := by
  cases phase <;> exact ⟨⟨_, rfl, by simp⟩, by simp⟩

theorem Installing.engaged {depth : Nat} (low : depth ≤ rest.length)
    (phase : Installing n S claim v rest me r th t.agenda t.control t.stack) (left : r ≠ 0) :
    t.Engaged depth := by
  obtain ⟨r, rfl⟩ := Nat.exists_eq_succ_of_ne_zero left
  obtain ⟨⟨f, stack, other⟩, gate⟩ := phase.above
  refine Thread.engaged_of_above ?_ (Thread.calm_of_top stack other) gate
  rw [stack]
  exact Nat.lt_succ_of_le low

theorem Installing.done {as : List Action} {c : Control} {fs : List Frame}
    (phase : Installing n S claim v rest me 0 th as c fs) :
    ∃ slot : Slot, slot.cell = some (.value v) ∧ th = ⟨S.clear, slot⟩ ∧ as = [] ∧ c = .give v ∧
      fs = rest := by
  cases phase with
  | left set => exact ⟨_, set, rfl, rfl, rfl, rfl⟩

theorem Installing.descent {depth : Nat} (low : depth ≤ rest.length) (registers : Registers) :
    Descent n depth (Phase.At (Installing n S claim v rest) n registers fun _ => True) :=
  Phase.descent (fun _ _ _ => id)
    (fun _ _ _ _ _ found phase left _ => Installing.step found phase left)
    fun _ _ _ _ phase left => phase.engaged low left

/-- From the value of a thunk to the return of its caller. -/
inductive Settling (n : NodeId) (S : Suspension) (claim : Bool) (v : NodeId) (base : List Frame)
    (me : TaskId) : Nat → Thunk → List Action → Control → List Frame → Prop
  | running {slot rest} (held : slot.Held claim me) (atop : Atop base rest) :
    Settling n S claim v base me 11 ⟨S, slot⟩ [] (.give v) (.running n claim :: rest)
  | evaluate {slot rest} (held : slot.Held claim me) (atop : Atop base rest) :
    Settling n S claim v base me 10 ⟨S, slot⟩ [] (.evaluate v) (.settling n claim :: rest)
  | installing {r th as c fs rest} (phase : Installing n S claim v rest me (r + 1) th as c fs)
    (atop : Atop base rest) : Settling n S claim v base me (r + 3) th as c fs
  | above {slot} (set : slot.cell = some (.value v)) :
    Settling n S claim v base me 2 ⟨S.clear, slot⟩ [] (.give v) (.again :: base)
  | again {slot} (set : slot.cell = some (.value v)) :
    Settling n S claim v base me 1 ⟨S.clear, slot⟩ [] (.evaluate v) base
  | back {slot} (set : slot.cell = some (.value v)) :
    Settling n S claim v base me 0 ⟨S.clear, slot⟩ [] (.give v) base

/-- When the thunk is left, the thread is back with its caller, but for the frame of an
evaluation. -/
theorem Settling.left {slot : Slot} (set : slot.cell = some (.value v)) (atop : Atop base rest) :
    ∃ r ≤ 2, Settling n S claim v base me r ⟨S.clear, slot⟩ [] (.give v) rest := by
  rcases atop with rfl | rfl
  · exact ⟨0, by decide, .back set⟩
  · exact ⟨2, by decide, .above set⟩

/-- A thread that evaluates a value has it. -/
theorem Thread.step_evaluate_value (idle : t.agenda = []) (at' : t.control = .evaluate v)
    (value : w.IsValue v) : t.step w = (w, { t with control := .give v }) := by
  simp [step_idle idle, proceed, at', evaluate, World.evaluated?_of_value value, goto]

theorem Settling.step (value : w.IsValue v) (found : w.thunk? n = some th)
    (phase : Settling n S claim v base (t.me w) r th t.agenda t.control t.stack) (left : r ≠ 0) :
    Phase.Steps (Settling n S claim v base) n w t r := by
  generalize next : t.agenda = agenda at phase
  generalize at' : t.control = control at phase
  generalize stack : t.stack = fs at phase
  cases phase with
  | @running _ rest held atop =>
    have is : t.step w =
        (w, { t with control := .evaluate v, stack := .settling n claim :: rest }) := by
      simp [Thread.step_idle next, Thread.proceed, at', Thread.give, stack, Thread.push]
    refine Phase.steps 10 (by decide) is found ?_
    rw [next]
    exact .evaluate held atop
  | evaluate held atop =>
    refine Phase.steps 9 (by decide) (Thread.step_evaluate_value next at' value) found ?_
    rw [next, stack]
    exact .installing (.settling held) atop
  | @installing r _ _ _ _ rest phase atop =>
    have step : Phase.Steps (Installing n S claim v rest) n w t (r + 1) :=
      Installing.step found (by rw [next, at', stack]; exact phase) (Nat.succ_ne_zero r)
    obtain ⟨r', less, th', thunk, phase'⟩ := step
    cases r' with
    | zero =>
      obtain ⟨σ, set, rfl, idle, gives, below⟩ := phase'.done
      obtain ⟨r', small, landed⟩ := Settling.left set atop
      refine ⟨r', by omega, _, thunk, ?_⟩
      rw [idle, gives, below]
      exact landed
    | succ r' => exact ⟨r' + 3, by omega, th', thunk, .installing phase' atop⟩
  | above set =>
    have is : t.step w = (w, { t with control := .evaluate v, stack := base }) := by
      simp [Thread.step_idle next, Thread.proceed, at', Thread.give, stack, Thread.goto]
    refine Phase.steps 1 (by decide) is found ?_
    rw [next]
    exact .again set
  | again set =>
    refine Phase.steps 0 (by decide) (Thread.step_evaluate_value next at' value) found ?_
    rw [next, stack]
    exact .back set
  | back => exact absurd rfl left

theorem Settling.done {as : List Action} {c : Control} {fs : List Frame}
    (phase : Settling n S claim v base me 0 th as c fs) :
    th.suspension = S.clear ∧ th.slot.cell = some (.value v) ∧ as = [] ∧ c = .give v ∧
      fs = base := by
  cases phase with
  | back set => exact ⟨rfl, set, rfl, rfl, rfl⟩

theorem Settling.engaged (phase : Settling n S claim v base me r th t.agenda t.control t.stack)
    (left : r ≠ 0) : t.Engaged base.length := by
  have below : ∀ {f rest}, Atop base rest → t.stack = f :: rest → base.length < t.stack.length :=
    fun atop stack => by
      rw [stack]
      exact Nat.lt_succ_of_le atop.length_le
  have calm : ∀ {f rest}, t.stack = f :: rest → (∀ kind index p, f ≠ .project kind index p) →
      t.Calm :=
    Thread.calm_of_top
  generalize next : t.agenda = agenda at phase
  generalize at' : t.control = control at phase
  generalize stack : t.stack = fs at phase below calm
  cases phase with
  | running held atop | evaluate held atop =>
    exact Thread.engaged_of_above (stack ▸ below atop rfl) (calm rfl (by simp)) (by simp [next])
  | @installing r _ _ _ _ rest phase atop =>
    have phase' : Installing n S claim v rest me (r + 1) th t.agenda t.control t.stack := by
      rw [next, at', stack]
      exact phase
    exact phase'.engaged atop.length_le (Nat.succ_ne_zero r)
  | above =>
    exact Thread.engaged_of_above (by simp [stack]) (calm rfl (by simp)) (by simp [next])
  | again =>
    have inside : t.control.isOutcome = false := by rw [at']; rfl
    exact ⟨Thread.runs_of_control inside, Thread.calm_of_control (by simp [at']), by simp [next],
      Thread.away_of_control inside⟩
  | back => exact absurd rfl left

theorem Settling.descent (registers : Registers) :
    Descent n base.length (Phase.At (Settling n S claim v base) n registers (·.IsValue v)) :=
  Phase.descent (fun _ _ evolves => evolves.isValue)
    (fun _ _ _ _ value found phase left _ => Settling.step value found phase left)
    fun _ _ _ _ phase left => phase.engaged left

end

/-! ### Selecting -/

section

variable {S : Suspension} {kind : FieldKind} {index : Nat} {p x m : NodeId} {base : List Frame}
  {me : TaskId} {r : Nat} {th : Thunk}

/-- The producer `p` has the value `x`, and the field is to be selected. -/
def Selecting (n : NodeId) (S : Suspension) (claim : Bool) (kind : FieldKind) (index : Nat)
    (p x : NodeId) (base : List Frame) (registers : Registers) (Q : World → Prop) (w : World)
    (t : Thread) : Prop :=
  Q w ∧ (w.context t.context).registers = registers ∧ ∃ slot rest, w.thunk? n = some ⟨S, slot⟩ ∧
    slot.Held claim (t.me w) ∧ Atop base rest ∧
    t.Projects kind index p x (.running n claim :: rest)

/-- Where the step of a projection leads, the thread gets in one turn. -/
theorem Selecting.descent {P' : World → Thread → Prop} {registers : Registers} {Q : World → Prop}
    (mono : ∀ w w' : World, w.Evolves w' → Q w → Q w')
    (step : ∀ w t, Selecting n S claim kind index p x base registers Q w t →
      t.context < w.contexts.size → P' (t.step w).1 (t.step w).2)
    (stable : ∀ {w w' : World} {t : Thread}, P' w t → w.Evolves w' → w'.thunk? n = w.thunk? n →
      t.me w' = t.me w →
      (w'.context t.context).registers = (w.context t.context).registers → P' w' t) :
    Descent n base.length (Then (Selecting n S claim kind index p x base registers Q) P') := by
  have above : ∀ {w t}, Selecting n S claim kind index p x base registers Q w t →
      t.agenda = [] ∧ base.length < t.stack.length := by
    rintro w t ⟨-, -, slot, rest, -, -, atop, projects⟩
    have := atop.length_le
    exact ⟨projects.idle, by simp only [projects.top, List.length_cons]; omega⟩
  have only : ∀ {r w t}, Then (Selecting n S claim kind index p x base registers Q) P' r w t →
      r ≠ 0 → Selecting n S claim kind index p x base registers Q w t := by
    intro r w t at' left
    rcases at'.cases with ⟨done, -⟩ | ⟨-, here⟩
    · exact absurd done left
    · exact here
  refine ⟨?_, ?_, ?_, ?_, ?_⟩
  · intro w t r at' left seated _
    exact ⟨0, Nat.pos_of_ne_zero left, step w t (only at' left) seated⟩
  · intro w t r at' left
    refine Thread.runs_of_stack fun empty => ?_
    simpa [empty] using (above (only at' left)).2
  · intro w t r g as at' left
    simp [(above (only at' left)).1]
  · intro w t r at' left
    simp [Thread.isBackAt, Nat.ne_of_gt (above (only at' left)).2]
  · intro w w' t r at' evolves same me kept
    rcases at'.cases with ⟨rfl, done⟩ | ⟨rfl, here⟩
    · exact stable done evolves same me kept
    · obtain ⟨known, registers', slot, rest, found, held, atop, projects⟩ := here
      exact ⟨mono w w' evolves known, kept.trans registers', slot, rest, same.trans found,
        me ▸ held, atop, projects⟩

/-- The pointer field `m` is to be evaluated. -/
inductive Handing (n : NodeId) (S : Suspension) (claim : Bool) (m : NodeId) (base : List Frame)
    (me : TaskId) : Nat → Thunk → List Action → Control → List Frame → Prop
  | given {slot rest} (held : slot.Held claim me) (atop : Atop base rest) :
    Handing n S claim m base me 1 ⟨S, slot⟩ [] (.give m) (.running n claim :: rest)
  | evaluate {slot rest} (held : slot.Held claim me) (atop : Atop base rest) :
    Handing n S claim m base me 0 ⟨S, slot⟩ [] (.evaluate m) (.settling n claim :: rest)

theorem Handing.step (found : w.thunk? n = some th)
    (phase : Handing n S claim m base (t.me w) r th t.agenda t.control t.stack) (left : r ≠ 0) :
    Phase.Steps (Handing n S claim m base) n w t r := by
  generalize next : t.agenda = agenda at phase
  generalize at' : t.control = control at phase
  generalize stack : t.stack = fs at phase
  cases phase with
  | @given _ rest held atop =>
    have is : t.step w =
        (w, { t with control := .evaluate m, stack := .settling n claim :: rest }) := by
      simp [Thread.step_idle next, Thread.proceed, at', Thread.give, stack, Thread.push]
    refine Phase.steps 0 (by decide) is found ?_
    rw [next]
    exact .evaluate held atop
  | evaluate => exact absurd rfl left

theorem Handing.done {as : List Action} {c : Control} {fs : List Frame}
    (phase : Handing n S claim m base me 0 th as c fs) :
    ∃ rest, th.suspension = S ∧ th.slot.Held claim me ∧ Atop base rest ∧ as = [] ∧
      c = .evaluate m ∧ fs = .settling n claim :: rest := by
  cases phase with
  | evaluate held atop => exact ⟨_, rfl, held, atop, rfl, rfl, rfl⟩

theorem Handing.engaged (phase : Handing n S claim m base me r th t.agenda t.control t.stack)
    (left : r ≠ 0) : t.Engaged base.length := by
  generalize next : t.agenda = agenda at phase
  generalize at' : t.control = control at phase
  generalize stack : t.stack = fs at phase
  cases phase with
  | given held atop =>
    refine Thread.engaged_of_above ?_ (Thread.calm_of_top stack (by simp)) (by simp [next])
    rw [stack]
    exact Nat.lt_succ_of_le atop.length_le
  | evaluate => exact absurd rfl left

theorem Handing.descent (registers : Registers) :
    Descent n base.length (Phase.At (Handing n S claim m base) n registers fun _ => True) :=
  Phase.descent (fun _ _ _ => id)
    (fun _ _ _ _ _ found phase left _ => Handing.step found phase left)
    fun _ _ _ _ phase left => phase.engaged left

end

end LazyGraph

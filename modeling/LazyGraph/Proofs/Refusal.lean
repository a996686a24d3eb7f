import LazyGraph.Proofs.Release

/-!
# Forcing a thunk that has been released

A thunk that is released and has lost its value is refused. `Refusing` lists the steps that lead
there when nobody else touches the slot; whatever other tasks do, the code is not run.
-/

namespace LazyGraph

variable {w w' : World} {t t' : Thread} {n v : NodeId} {s : Suspension}

/-! ## Alone with the slot -/

/-- Thunk `n` is being forced and has no value. If it is released, this many steps at most are left
until it is refused: in eager mode the task claims the thunk and gives the claim up again. -/
inductive Refusing (n : NodeId) (me : TaskId) : Nat → Slot → List Action → Control → Prop
  | enter {slot} (free : slot.cell = none) : Refusing n me 12 slot [] (.enter n)
  | force {slot claim} (free : slot.cell = none) : Refusing n me 11 slot [] (.force n claim)
  | seize {slot seen : Slot} (free : slot.cell = none) (noted : seen.cell = none) :
    Refusing n me 10 slot [] (.seize n seen)
  | claimed {slot e} (own : slot.cell = some (.blackHole me)) :
    Refusing n me 9 slot [.emit e] (.start n true)
  | start {slot} (own : slot.cell = some (.blackHole me)) : Refusing n me 8 slot [] (.start n true)
  | share {slot} (free : slot.cell = none) : Refusing n me 8 slot [] (.start n false)
  | body {slot} (own : slot.cell = some (.blackHole me)) : Refusing n me 7 slot [] (.body n true)
  | bodyShared {slot} (free : slot.cell = none) : Refusing n me 7 slot [] (.body n false)
  | abandon {slot} (own : slot.cell = some (.blackHole me)) :
    Refusing n me 6 slot [.abandon n] (.recheck n true)
  | surrender {slot} (own : slot.cell = some (.blackHole me)) :
    Refusing n me 5 slot [.surrender n slot] (.recheck n true)
  | abandoned {slot e} (free : slot.cell = none) :
    Refusing n me 4 slot [.emit e] (.recheck n true)
  | recheck {slot claim} (free : slot.cell = none) : Refusing n me 3 slot [] (.recheck n claim)
  | abort {slot e} (free : slot.cell = none) :
    Refusing n me 2 slot [.emit e] (.fail (.cleared n))
  | refused {slot} (free : slot.cell = none) : Refusing n me 0 slot [] (.fail (.cleared n))

theorem World.slot_emit (c : ContextId) (e : Event) : (w.emit c e).slot n = w.slot n := by
  obtain ⟨log, same⟩ := w.emit_eq c e
  rw [same]
  rfl

/-- The step of the thread leads closer to the refusal. Until the code is looked for, at 7, nothing
rests on its release. -/
def Refusing.Next (n : NodeId) (w : World) (t : Thread) (r : Nat) : Prop :=
  ∃ r' as c, (r' < r ∧ (7 < r → 7 ≤ r')) ∧ (t.step w).2 = { t with agenda := as, control := c } ∧
    Refusing n (t.me w) r' ((t.step w).1.slot n) as c ∧
    (r' = 0 → t.control = c ∧ ∀ d, (t.step w).1.context d = w.context d)

theorem Refusing.next {r r' : Nat} {as : List Action} {c : Control}
    (turn : t.step w = (w', { t with agenda := as, control := c }))
    (phase : Refusing n (t.me w) r' (w'.slot n) as c) (lt : r' < r ∧ (7 < r → 7 ≤ r'))
    (last : r' = 0 → t.control = c ∧ ∀ d, w'.context d = w.context d) :
    Refusing.Next n w t r := by
  unfold Refusing.Next
  rw [turn]
  exact ⟨r', as, c, lt, rfl, phase, last⟩

theorem Refusing.step {r : Nat} (phase : Refusing n (t.me w) r (w.slot n) t.agenda t.control)
    (left : r ≠ 0) (found : w.suspension? n = some s) (cleared : r ≤ 7 → s.cleared = true)
    (outside : t.agenda = [] → ∀ claim, t.control = .start n claim →
      (w.context t.context).stack.push? n ≠ none) : Refusing.Next n w t r := by
  obtain ⟨th, thunk, rfl⟩ := World.suspension?_eq_some.1 found
  have node := World.thunk?_eq_some.1 thunk
  have emits : ∀ {e}, t.agenda = [.emit e] →
      t.step w = (w.emit t.context e, { t with agenda := [], control := t.control }) := by
    intro e errands
    simp [Thread.step, errands, Action.perform]
  have slot_emit : ∀ e, (w.emit t.context e).slot n = w.slot n := World.slot_emit t.context
  have idle : t.agenda = [] → t.step w = t.proceed w := fun errands => by simp [Thread.step, errands]
  have fresh : (w.slot n).cell = none → ∀ seen : Slot, seen.cell = none →
      (w.slot n).unchanged seen = true := fun free seen free' => by simp [Slot.unchanged, free, free']
  have starts : ∀ {claim}, t.agenda = [] → t.control = .start n claim → ∃ stack,
      t.step w = (w.setContext t.context { w.context t.context with stack },
        { t with agenda := [], control := .body n claim }) := by
    intro claim errands at'
    obtain ⟨stack, pushed⟩ := Option.ne_none_iff_exists'.1 (outside errands claim at')
    refine ⟨stack, ?_⟩
    rw [idle errands]
    simp [Thread.proceed, at', Thread.start, pushed, Thread.goto, errands]
  generalize slot : w.slot n = σ at phase
  generalize errands : t.agenda = agenda at phase
  generalize at' : t.control = control at phase
  cases phase with
  | enter free =>
    have is : t.step w =
        (w, { t with agenda := [], control := .force n (w.context t.context).config.eager }) := by
      rw [idle errands]
      simp [Thread.proceed, at', Thread.enter, node, Thread.goto, errands]
    exact next is (.force (slot ▸ free)) (by omega) (by simp)
  | @force _ claim free =>
    cases claim with
    | false =>
      have is : t.step w = (w, { t with agenda := [], control := .start n false }) := by
        rw [idle errands]
        simp [Thread.proceed, at', Thread.force, slot, free, Thread.goto, errands]
      exact next is (.share (slot ▸ free)) (by omega) (by simp)
    | true =>
      have is : t.step w = (w, { t with agenda := [], control := .seize n (w.slot n) }) := by
        rw [idle errands]
        simp [Thread.proceed, at', Thread.force, slot, free, Thread.goto, errands]
      exact next is (.seize (slot ▸ free) (slot ▸ free)) (by omega) (by simp)
  | @seize _ seen free noted =>
    have is : t.step w = (w.write n (some (.blackHole (t.me w))),
        { t with agenda := [.emit (.claimed n (t.me w))], control := .start n true }) := by
      rw [idle errands]
      simp [Thread.proceed, at', Thread.seize, World.exchange?, fresh (slot ▸ free) seen noted,
        Thread.plan, errands, Thread.me]
    exact next is (.claimed (by simp [World.slot_write_self thunk])) (by omega) (by simp)
  | claimed own =>
    have is := emits errands
    rw [at'] at is
    exact next is (.start (by rw [slot_emit, slot, own])) (by omega) (by simp)
  | start own =>
    obtain ⟨stack, is⟩ := starts errands at'
    exact next is (.body (slot ▸ own)) (by omega) (by simp)
  | share free =>
    obtain ⟨stack, is⟩ := starts errands at'
    exact next is (.bodyShared (slot ▸ free)) (by omega) (by simp)
  | body own =>
    have is : t.step w = (t.leave w n, { t with agenda := [.abandon n], control := .recheck n true }) := by
      rw [idle errands]
      simp [Thread.proceed, at', Thread.body_of_cleared found (cleared (Nat.le_refl 7)), Thread.plan,
        errands, giveUp]
    exact next is (.abandon (slot ▸ own)) (by omega) (by simp)
  | bodyShared free =>
    have is : t.step w = (t.leave w n, { t with agenda := [], control := .recheck n false }) := by
      rw [idle errands]
      simp [Thread.proceed, at', Thread.body_of_cleared found (cleared (Nat.le_refl 7)), Thread.plan,
        errands, giveUp]
    exact next is (.recheck (slot ▸ free)) (by omega) (by simp)
  | abandon own =>
    have owned : (w.slot n).ownedBy (w.taskOf t.context) = true := by
      simp [slot, Slot.ownedBy, own, Cell.owner?, Thread.me]
    have is : t.step w =
        (w, { t with agenda := [.surrender n (w.slot n)], control := t.control }) := by
      simp [Thread.step, errands, Action.perform, owned]
    rw [at'] at is
    exact next is (.surrender (slot ▸ own)) (by omega) (by simp)
  | surrender own =>
    have is : t.step w = (w.write n none,
        { t with agenda := [.emit (.abandoned (t.me w))], control := t.control }) := by
      simp [Thread.step, errands, Action.perform, World.exchange?, slot, Slot.unchanged_self,
        afterSurrender, Slot.queue?, own, Thread.me]
    rw [at'] at is
    exact next is (.abandoned (by simp [World.slot_write_self thunk])) (by omega) (by simp)
  | abandoned free =>
    have is := emits errands
    rw [at'] at is
    exact next is (.recheck (by rw [slot_emit, slot, free])) (by omega) (by simp)
  | recheck free =>
    have is : t.step w = (w, { t with
        agenda := [.emit (.fatal (t.me w) (.cleared n))], control := .fail (.cleared n) }) := by
      rw [idle errands]
      simp [Thread.proceed, at', Thread.recheck, slot, free, thunk, cleared (by omega), Thread.abort,
        Thread.plan, errands, Thread.me]
    exact next is (.abort (slot ▸ free)) (by omega) (by simp)
  | abort free =>
    have is := emits errands
    rw [at'] at is
    refine next is (.refused (by rw [slot_emit, slot, free])) (by omega) ?_
    refine fun _ => ⟨at', fun d => ?_⟩
    obtain ⟨log, same⟩ := w.emit_eq t.context _
    rw [same]
    rfl
  | refused free => exact absurd rfl left

/-! ## Among other tasks -/

/-- How forcing thunk `n` can end if its code is not run. -/
inductive Refused (w : World) (n : NodeId) (me : TaskId) : Control → Prop
  | cleared : Refused w n me (.fail (.cleared n))
  | loop (own : (w.slot n).ownedBy me = true) : Refused w n me (.fail (.loop n))
  | given {v : NodeId} (held : (w.slot n).cell = some (.value v)) : Refused w n me (.give v)
  | blocked : Refused w n me (.unwind "would block")

theorem Refused.isCode {me : TaskId} {c : Control} (refused : Refused w n me c) :
    c.isCode = false := by
  cases refused <;> rfl

theorem Control.isCode_of_target? {c : Control} (target : c.target? = some n) :
    c.isCode = false := by
  cases c <;> first | rfl | cases target

theorem Errand.refused (step : Errand w t w' t') (target : t.control.target? = some n) :
    t'.stack = t.stack ∧ (t'.control.target? = some n ∨ Refused w n (t.me w) t'.control) := by
  cases step with
  | refuse => exact ⟨rfl, .inr .blocked⟩
  | _ => exact ⟨rfl, .inl target⟩

theorem HostStep.refused (step : HostStep w t w' t') (target : t.control.target? = some n) :
    t'.stack = t.stack ∧ (t'.control.target? = some n ∨ Refused w n (t.me w) t'.control) := by
  cases step with
  | code _ host =>
    rw [Control.isCode_of_target? target] at host
    cases host
  | dropCode _ exit | dropAgain _ exit | dropEvaluation _ exit | dropLeaving _ exit =>
    cases is : t.control <;> simp_all [Control.isExit, Control.target?]
  | _ => simp_all [Control.target?]

theorem Forcing.refused (step : Forcing w t w' t') (target : t.control.target? = some n)
    (entered : t.control ≠ .enter n)
    (begun : ∀ claim, t.control = .body n claim → t'.stack = t.stack)
    (outside : ∀ claim, t.control = .start n claim → (w.context t.context).stack.push? n ≠ none) :
    t'.stack = t.stack ∧ (t'.control.target? = some n ∨ Refused w n (t.me w) t'.control) := by
  cases step with
  | evaluated _ at' | evaluate _ at' | updateLost _ at' | update _ at' | installed _ at'
  | installMissed _ at' => simp [at', Control.target?] at target
  | enter _ at' | enterFailed _ at' =>
    rw [at'] at target entered
    cases target
    exact absurd rfl entered
  | done _ at' held =>
    rw [at'] at target
    cases target
    exact ⟨rfl, .inr (.given held)⟩
  | loop _ at' own =>
    rw [at'] at target
    cases target
    exact ⟨rfl, .inr (.loop own)⟩
  | startLoop _ at' active =>
    rw [at'] at target
    cases target
    exact absurd active (outside _ at')
  | recheckFailed _ at' =>
    rw [at'] at target
    cases target
    exact ⟨rfl, .inr .cleared⟩
  | body _ at' =>
    rw [at'] at target
    cases target
    have length := congrArg List.length (begun _ at')
    simp at length
    omega
  | take _ at' | share _ at' | await _ at' | seized _ at' | seizeMissed _ at' | started _ at'
  | released _ at' | recheck _ at' =>
    rw [at'] at target
    exact ⟨rfl, .inl target⟩

theorem Waits.refused (step : Waits w t w' t') (target : t.control.target? = some n) :
    t'.stack = t.stack ∧ (t'.control.target? = some n ∨ Refused w n (t.me w) t'.control) := by
  cases step with
  | busy | asleep => exact ⟨rfl, .inl target⟩
  | refuse => exact ⟨rfl, .inr .blocked⟩
  | loop _ at' own =>
    rw [at'] at target
    cases target
    exact ⟨rfl, .inr (.loop own)⟩
  | @proceed x blocked as _ at' | @published x blocked seen as _ at' =>
    rw [at'] at target
    refine ⟨rfl, .inl ?_⟩
    cases blocked <;> exact target
  | free _ at' | lock _ at' | join _ at' | locked _ at' | lockMissed _ at' | gathered _ at'
  | joined _ at' | joinMissed _ at' | enlist _ at' | enrolled _ at' | confirmClosed _ at'
  | confirm _ at' | retract _ at' | enlisted _ at' | publishMissed _ at' | «suspend» _ at'
  | resumed _ at' =>
    rw [at'] at target
    exact ⟨rfl, .inl target⟩

theorem Step.refused (step : Step w t w' t') (target : t.control.target? = some n)
    (entered : t.control ≠ .enter n)
    (begun : ∀ claim, t.control = .body n claim → t'.stack = t.stack)
    (outside : ∀ claim, t.control = .start n claim → (w.context t.context).stack.push? n ≠ none) :
    t'.stack = t.stack ∧ (t'.control.target? = some n ∨ Refused w n (t.me w) t'.control) := by
  cases step with
  | stay => exact ⟨rfl, .inl target⟩
  | errand step => exact step.refused target
  | host step => exact step.refused target
  | forcing step => exact step.refused target entered begun outside
  | waits step => exact step.refused target
  | attempt step => cases step <;> simp_all [Control.target?]

/-- A thread that forces a released thunk does not come to run its code. -/
theorem Thread.refused_step (found : w.suspension? n = some s) (cleared : s.cleared = true)
    (target : t.control.target? = some n)
    (outside : ∀ claim, t.control = .start n claim → (w.context t.context).stack.push? n ≠ none) :
    (t.step w).2.stack = t.stack ∧
      ((t.step w).2.control.target? = some n ∨ Refused w n (t.me w) (t.step w).2.control) := by
  have step := step_cases w t
  by_cases idle : t.agenda = []
  · obtain ⟨th, thunk, -⟩ := World.suspension?_eq_some.1 found
    by_cases entered : t.control = .enter n
    · simp [Thread.step, idle, Thread.proceed, entered, Thread.enter, World.thunk?_eq_some.1 thunk,
        Thread.goto, Control.target?]
    · refine step.refused target entered ?_ outside
      intro claim at'
      simp [Thread.step, idle, Thread.proceed, at', Thread.body_of_cleared found cleared,
        Thread.plan]
  · rcases step.errand_of_busy idle with ⟨-, same⟩ | errand
    · rw [same]
      exact ⟨rfl, .inl target⟩
    · exact errand.refused target

def Move.isStep (i : ThreadId) : Move → Bool
  | .step j => j == i
  | _ => false

theorem Move.isStep_iff {i : ThreadId} {m : Move} : m.isStep i = true ↔ m = .step i := by
  cases m <;> simp [isStep]

theorem Refusing.agenda_ne_gate {me : TaskId} {r : Nat} {slot : Slot} {as bs : List Action}
    {c : Control} {g : String} (phase : Refusing n me r slot as c) : as ≠ .gate g :: bs := by
  cases phase <;> simp

theorem Refusing.refuses {me : TaskId} {slot : Slot} {as : List Action} {c : Control}
    (phase : Refusing n me 0 slot as c) :
    as = [] ∧ c = .fail (.cleared n) ∧ slot.cell = none := by
  cases phase with
  | refused free => exact ⟨rfl, rfl, free⟩

theorem Refusing.runs {me : TaskId} {r : Nat} {slot : Slot}
    (phase : Refusing n me r slot t.agenda t.control) (left : r ≠ 0) : t.Runs := by
  generalize next : t.agenda = agenda at phase
  generalize at' : t.control = control at phase
  cases phase with
  | refused => exact absurd rfl left
  | claimed | abandon | surrender | abandoned | abort => exact Thread.runs_of_agenda (by simp [next])
  | _ => exact Thread.runs_of_control (by rw [at']; rfl)

theorem Refusing.isCode {me : TaskId} {r : Nat} {slot : Slot} {as : List Action} {c : Control}
    (phase : Refusing n me r slot as c) : c.isCode = false := by
  cases phase <;> rfl

namespace Run

variable {run : Run} {i : ThreadId} {a b : Nat}

/-- How many of the next `m` moves are steps of thread `i`. -/
def turns (run : Run) (i : ThreadId) (a m : Nat) : Nat :=
  (List.range m).countP fun k => (run.move (a + k)).isStep i

theorem turns_succ (m : Nat) :
    run.turns i a (m + 1) = run.turns i a m + if (run.move (a + m)).isStep i then 1 else 0 := by
  simp [turns, List.range_succ, List.countP_append, List.countP_singleton]

/-- From `a` to `b`, other threads leave the slot of thunk `n` alone. -/
def Undisturbed (run : Run) (i : ThreadId) (n : NodeId) (a b : Nat) : Prop :=
  ∀ k, a ≤ k → k < b → run.move k ≠ .step i →
    (run.state (k + 1)).world.slot n = (run.state k).world.slot n

/-- From `a` to `b`, thread `i` pushes no frame and runs no code. -/
def RunsNoCode (run : Run) (i : ThreadId) (stack : List Frame) (a b : Nat) : Prop :=
  ∀ k, a ≤ k → k ≤ b → ∃ u, (run.state k).threads[i]? = some u ∧ u.stack = stack ∧
    u.control.isCode = false

/-- At `b`, thread `i` fails because thunk `n` is released; the thunk is free, and the update stack
is as it was at `a`. -/
structure Refuses (run : Run) (i : ThreadId) (t : Thread) (n : NodeId) (a b : Nat) : Prop where
  fails : (run.state b).threads[i]? = some { t with agenda := [], control := .fail (.cleared n) }
  free : ((run.state b).world.slot n).cell = none
  frames : ((run.state b).world.context t.context).stack.frames =
    ((run.state a).world.context t.context).stack.frames

theorem RunsNoCode.succ {stack : List Frame} (before : run.RunsNoCode i stack a b) {u : Thread}
    (after : (run.state (b + 1)).threads[i]? = some u) (same : u.stack = stack)
    (code : u.control.isCode = false) : run.RunsNoCode i stack a (b + 1) := by
  intro k low high
  rcases Nat.le_succ_iff.1 high with earlier | rfl
  · exact before k low earlier
  · exact ⟨u, after, same, code⟩

section

variable {t : Thread} {n : NodeId} {s : Suspension} (whole : run.Whole)
  (found : (run.state a).threads[i]? = some t)
  (asks : t.control = .enter n ∨ ∃ claim, t.control = .force n claim)
  (known : (run.state a).world.suspension? n = some s) (cleared : s.cleared = true)
  (outside : n ∉ ((run.state a).world.context t.context).stack.frames)

include asks

theorem target_of_asks : t.control.target? = some n := by
  rcases asks with at' | ⟨claim, at'⟩ <;> rw [at'] <;> rfl

include found

/-- The update stack when the call begins: the frames of the thread. -/
theorem frames_of_asks : t.Runs ∧ ((run.state a).world.context t.context).stack.frames =
    t.stack.filterMap Frame.thunk? := by
  have soft : t.control.isFirm = false := by
    rcases asks with at' | ⟨claim, at'⟩ <;> rw [at'] <;> rfl
  have runs : t.Runs := by
    refine Thread.runs_of_control ?_
    rcases asks with at' | ⟨claim, at'⟩ <;> rw [at'] <;> rfl
  have frames := ((run.framed a).running i t found runs).frames
  rw [Thread.evaluations_eq soft] at frames
  exact ⟨runs, frames⟩

include outside

/-- Nowhere on its way is the thread taken for one that evaluates `n` already. -/
theorem push_of_asks {u : Thread} (there : (run.state b).threads[i]? = some u) (runs : u.Runs)
    (stack : u.stack = t.stack) (claim : Bool) (at' : u.control = .start n claim) :
    ((run.state b).world.context u.context).stack.push? n ≠ none := by
  intro active
  rw [((run.framed b).running i u there runs).push?_eq_none, Thread.evaluations, at', stack,
    ← (frames_of_asks found asks).2] at active
  exact outside (by simpa [Control.begun?] using active)

include whole known cleared

/-- Whatever other tasks do, a thread that forces a released thunk runs no code, and if it returns
it does so in one of few ways. -/
theorem refused_among_others (le : a ≤ b) :
    (run.RunsNoCode i t.stack a b ∧ ∃ u, (run.state b).threads[i]? = some u ∧
      u.stack = t.stack ∧ u.control.target? = some n) ∨
    ∃ c u, a ≤ c ∧ c < b ∧ run.RunsNoCode i t.stack a (c + 1) ∧
      (run.state (c + 1)).threads[i]? = some u ∧ u.stack = t.stack ∧
      Refused (run.state c).world n (u.me (run.state (c + 1)).world) u.control := by
  induction le with
  | refl =>
    refine .inl ⟨?_, t, found, rfl, target_of_asks asks⟩
    intro k low high
    obtain rfl := Nat.le_antisymm high low
    exact ⟨t, found, rfl, Control.isCode_of_target? (target_of_asks asks)⟩
  | @step b le ih =>
    rcases ih with ⟨code, u, there, stack, target⟩ | ⟨c, u, low, high, rest⟩
    · have runs : u.Runs := Thread.runs_of_control (by
        cases is : u.control <;> simp_all [Control.target?, Control.isOutcome])
      by_cases turn : run.move b = .step i
      · obtain ⟨world, after⟩ := own_step turn there
        have me := (step_cases (run.state b).world u).me
        obtain ⟨same, next⟩ := Thread.refused_step (run.cleared_kept whole le known cleared) cleared
          target (push_of_asks found asks outside there runs stack)
        rcases next with target | refused
        · exact .inl ⟨code.succ after (same.trans stack) (Control.isCode_of_target? target), _,
            after, same.trans stack, target⟩
        · refine .inr ⟨b, _, le, Nat.lt_succ_self b,
            code.succ after (same.trans stack) refused.isCode, after, same.trans stack, ?_⟩
          rw [world, me]
          exact refused
      · rcases not_own_step turn there with stays | ⟨g, as, -, -, passed⟩
        · exact .inl ⟨code.succ stays stack (Control.isCode_of_target? target), u, stays, stack, target⟩
        · exact .inl ⟨code.succ passed stack (Control.isCode_of_target? target), _, passed, stack,
            target⟩
    · exact .inr ⟨c, u, low, Nat.lt_succ_of_lt high, rest⟩

end

/-- At `b`, thread `i`, which was `t` once, is on its way to the refusal. -/
structure IsRefusing (run : Run) (i : ThreadId) (t : Thread) (n : NodeId) (b : Nat) (u : Thread)
    (r : Nat) : Prop where
  there : (run.state b).threads[i]? = some u
  same : u = { t with agenda := u.agenda, control := u.control }
  phase : Refusing n (u.me (run.state b).world) r ((run.state b).world.slot n) u.agenda u.control
  left : r ≠ 0

theorem refusing (whole : run.Whole) {t : Thread} {n : NodeId} {s : Suspension}
    (found : (run.state a).threads[i]? = some t) (idle : t.agenda = [])
    (asks : t.control = .enter n ∨ ∃ claim, t.control = .force n claim)
    (free : ((run.state a).world.slot n).cell = none)
    (known : (run.state a).world.suspension? n = some s) (cleared : s.cleared = true)
    (outside : n ∉ ((run.state a).world.context t.context).stack.frames) (m : Nat)
    (quiet : run.Undisturbed i n a (a + m)) :
    (∃ b, a ≤ b ∧ b ≤ a + m ∧ run.Refuses i t n a b ∧ run.RunsNoCode i t.stack a b) ∨
      ∃ u r, run.IsRefusing i t n (a + m) u r ∧ r + run.turns i a m ≤ 12 ∧
        run.RunsNoCode i t.stack a (a + m) := by
  have frames := (frames_of_asks found asks).2
  induction m with
  | zero =>
    have start : ∃ r, Refusing n (t.me (run.state a).world) r ((run.state a).world.slot n) t.agenda
        t.control ∧ r ≠ 0 ∧ r ≤ 12 := by
      rw [idle]
      rcases asks with at' | ⟨claim, at'⟩ <;> rw [at']
      · exact ⟨12, .enter free, by omega, by omega⟩
      · exact ⟨11, .force free, by omega, by omega⟩
    obtain ⟨r, phase, left, le⟩ := start
    refine .inr ⟨t, r, ⟨found, rfl, phase, left⟩, by simpa [Run.turns] using le, ?_⟩
    intro k low high
    obtain rfl := Nat.le_antisymm high low
    exact ⟨t, found, rfl, phase.isCode⟩
  | succ m ih =>
    rw [show a + (m + 1) = a + m + 1 from rfl] at quiet ⊢
    rcases ih fun k low high => quiet k low (Nat.lt_succ_of_lt high) with
      ⟨b, low, high, done⟩ | ⟨u, r, ⟨there, same, phase, left⟩, turns, code⟩
    · exact .inl ⟨b, low, Nat.le_succ_of_le high, done⟩
    have held : (run.state (a + m)).world.suspension? n = some s :=
      run.cleared_kept whole (Nat.le_add_right a m) known cleared
    have stack : u.stack = t.stack := by rw [same]
    have context : u.context = t.context := by rw [same]
    by_cases turn : run.move (a + m) = .step i
    · obtain ⟨world, after⟩ := own_step turn there
      have tracks := (run.framed (a + m)).running i u there (phase.runs left)
      have begun := push_of_asks found asks outside there (phase.runs left) stack
      obtain ⟨r', as, c, ⟨lt, -⟩, is, phase', last⟩ :=
        phase.step left held (fun _ => cleared) fun _ => begun
      have me := (step_cases (run.state (a + m)).world u).me
      have same' : (u.step (run.state (a + m)).world).2 = { t with agenda := as, control := c } := by
        rw [is, same]
      rw [same'] at after me
      have code := code.succ after rfl phase'.isCode
      by_cases done : r' = 0
      · subst done
        obtain ⟨kept, contexts⟩ := last rfl
        obtain ⟨rfl, rfl, free⟩ := phase'.refuses
        refine .inl ⟨a + m + 1, by omega, Nat.le_refl _, ⟨after, ?_, ?_⟩, code⟩
        · rwa [world]
        · rw [world, contexts, ← context, tracks.frames, Thread.evaluations, kept, stack, context,
            frames]
          rfl
      · refine .inr ⟨_, r', ⟨after, rfl, ?_, done⟩, ?_, code⟩
        · rw [world, me]
          exact phase'
        · rw [run.turns_succ, if_pos (Move.isStep_iff.2 turn)]
          omega
    · rcases not_own_step turn there with stays | ⟨g, as, gate, -⟩
      · refine .inr ⟨u, r, ⟨stays, same, ?_, left⟩, ?_, code.succ stays stack phase.isCode⟩
        · rw [(run.change (a + m)).me (run.seats (a + m)) there,
            quiet (a + m) (Nat.le_add_right a m) (by omega) turn]
          exact phase
        · rwa [run.turns_succ, if_neg (by simpa [Move.isStep_iff] using turn)]
      · exact absurd gate phase.agenda_ne_gate

/-- A thunk is released exactly by the installation of its value, and a constant never is. So a thunk
that has no value and was never reset can be run. One that is released and has been reset is refused,
in either mode and without running code, whatever other tasks do; the call returns as soon as the
thread has taken its turns. -/
theorem winner_releases (run : Run) (kept : run.NeverFrees) (whole : run.Whole) :
    (∀ k n s, (run.state k).world.suspension? n = some s → s.isConstant = false →
      (s.cleared = true ↔
        ∃ i v c d, c < d ∧ d < k ∧ run.Installs i n v c ∧ run.move d = .step i)) ∧
    (∀ j k n s, j ≤ k → (run.state j).world.suspension? n = some s → s.isConstant = true →
      (run.state k).world.suspension? n = some s ∧ s.cleared = false) ∧
    (∀ k n s, (run.state k).world.suspension? n = some s →
      ((run.state k).world.slot n).value? = none →
      (∀ m < k, ¬ (run.state m).Resets (run.move m) n) →
      ∃ fs c, s.opening? = some (fs, c) ∧ ∀ (t : Thread) claim, t.agenda = [] → t.control = .body n claim →
        t.step (run.state k).world = ((run.state k).world,
          { t with stack := fs ++ .running n claim :: t.stack, control := c })) ∧
    ∀ (i : ThreadId) t n s a, (run.state a).threads[i]? = some t → t.agenda = [] →
      (t.control = .enter n ∨ ∃ claim, t.control = .force n claim) →
      (run.state a).world.suspension? n = some s → s.cleared = true →
      n ∉ ((run.state a).world.context t.context).stack.frames →
      (∀ b, a ≤ b → run.RunsNoCode i t.stack a b ∨
        ∃ c u, a ≤ c ∧ c < b ∧ run.RunsNoCode i t.stack a (c + 1) ∧
          (run.state (c + 1)).threads[i]? = some u ∧ u.stack = t.stack ∧
          Refused (run.state c).world n (u.me (run.state (c + 1)).world) u.control) ∧
      ∀ m, ((run.state a).world.slot n).cell = none → run.Undisturbed i n a (a + m) →
        12 ≤ run.turns i a m →
        ∃ b, a ≤ b ∧ b ≤ a + m ∧ run.Refuses i t n a b ∧ run.RunsNoCode i t.stack a b := by
  refine ⟨?_, ?_, ?_, ?_⟩
  · intro k n s found shrinks
    refine ⟨run.installs_of_cleared kept whole k found, ?_⟩
    rintro ⟨i, v, c, d, after, before, installs, turn⟩
    exact cleared_of_installs whole installs after before turn found shrinks
  · intro j k n s le found constant
    refine ⟨run.constant_kept whole le found constant, ?_⟩
    cases s <;> first | rfl | cases constant
  · intro k n s found free never
    have present : s.cleared = false := by
      by_contra cleared
      obtain ⟨i, v, c, d, after, before, installs, -⟩ :=
        run.installs_of_cleared kept whole k found (by simpa using cleared)
      have held := run.value_kept (Nat.succ_le_of_lt (Nat.lt_trans after before)) installs.held
        fun m _ high => never m high
      rw [← Slot.value?_eq_some, free] at held
      cases held
    obtain ⟨⟨fs, c⟩, opening⟩ := Option.isSome_iff_exists.1
      (Suspension.opening?_isSome.trans (by rw [present]; rfl))
    refine ⟨fs, c, opening, fun t claim idle at' => ?_⟩
    rw [← Thread.body_of_opening found opening]
    simp [Thread.step, idle, Thread.proceed, at']
  · intro i t n s a found idle asks known cleared outside
    refine ⟨fun b le => ?_, fun m free quiet turns => ?_⟩
    · exact (refused_among_others whole found asks known cleared outside le).imp_left (·.1)
    · rcases refusing whole found idle asks free known cleared outside m quiet with
        done | ⟨u, r, refusing, few, -⟩
      · exact done
      · have left := refusing.left
        omega

end Run

def Thread.entersFrom (t : Thread) (n : NodeId) (c : ContextId) : Bool :=
  match t.agenda, t.control with
  | [], .enter m => m == n && t.context == c
  | _, _ => false

theorem Thread.enter_of_entersFrom {c : ContextId} (enters : t.entersFrom n c = true) :
    t.agenda = [] ∧ t.control = .enter n ∧ t.context = c := by
  unfold entersFrom at enters
  split at enters
  · rename_i idle is
    simp only [Bool.and_eq_true, beq_iff_eq] at enters
    exact ⟨idle, by rw [is, enters.1], enters.2⟩
  · cases enters

namespace Run

/-- A thunk is evaluated, reset by the host and evaluated again. -/
def resetting : Run :=
  .ofMoves {}
    ([.thunk (.prim (.box (.scalar (.int 7))) []) [], .sit true, .evaluate 0 0] ++
      List.replicate 23 (.step 0) ++
      [.start 0 (.prim (.onThunk .reset) [.arg 0 0]) { frames := [[.pointer 0]] } true true] ++
      List.replicate 5 (.step 1) ++ [.evaluate 0 0] ++ List.replicate 17 (.step 2))
    (by decide +kernel)

theorem winner_releases_resetting :
    resetting.NeverFrees ∧ resetting.Whole ∧
      (∃ i v c d, c < d ∧ d < 38 ∧ resetting.Installs i 0 v c ∧ resetting.move d = .step i) ∧
      ∃ t b, resetting.Refuses 2 t 0 38 b ∧ resetting.RunsNoCode 2 t.stack 38 b := by
  have kept : resetting.NeverFrees :=
    ofMoves_forall (P := fun s => ∀ t ∈ s.threads, t.frees = false) (by decide +kernel)
  have whole : resetting.Whole := ofMoves_all rfl (by decide +kernel)
  have suspension : ((resetting.state 38).world.suspension? 0).any
      (fun s => s.cleared && !s.isConstant) = true := by decide +kernel
  have asks : ((resetting.state 38).threads[2]?).any (·.entersFrom 0 0) = true := by
    decide +kernel
  have own : ∀ k < 50, 38 ≤ k → (resetting.move k).isStep 2 = true := by decide +kernel
  obtain ⟨s, known, released⟩ := (Option.any_eq_true _ _).1 suspension
  obtain ⟨cleared, shrinks⟩ : s.cleared = true ∧ s.isConstant = false := by simpa using released
  obtain ⟨t, found, at'⟩ := (Option.any_eq_true _ _).1 asks
  obtain ⟨idle, at', context⟩ := Thread.enter_of_entersFrom at'
  have outside : 0 ∉ ((resetting.state 38).world.context t.context).stack.frames := by
    rw [context]
    decide +kernel
  obtain ⟨updates, -, -, refuses⟩ := winner_releases resetting kept whole
  obtain ⟨b, -, -, refused⟩ := (refuses 2 t 0 s 38 found idle (.inl at') known cleared outside).2 12
    (by decide +kernel)
    (fun k low high other => absurd (Move.isStep_iff.1 (own k high low)) other)
    (by decide +kernel)
  exact ⟨kept, whole, (updates 38 0 s known shrinks).1 cleared, t, b, refused⟩

end Run

end LazyGraph

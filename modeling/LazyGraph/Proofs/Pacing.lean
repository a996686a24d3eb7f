import LazyGraph.Proofs.Rounds

/-!
# Forcing never busy-waits

A task that forces a thunk looks at the slot again only after it has been suspended, as long as the
others keep still while it runs and none of them is stopped on its way into a queue, with a slot
locked.
-/

namespace LazyGraph

variable {w w' : World} {t t' : Thread} {n : NodeId} {claim : Bool}

/-- Outside of any round, or suspended, or so many steps from the end of a round. -/
inductive Paced (w : World) (t : Thread) : Prop
  | outside (outside : t.control.isInside = false)
  | asleep {m : NodeId} {claims : Bool} (idle : t.agenda = []) (at' : t.control = .parked m claims)
    (thunk : (w.thunk? m).isSome)
  | inside {m : NodeId} {claims : Bool} {left : Nat} (round : Round m claims w t left)
    (thunk : (w.thunk? m).isSome)

/-- A step to the start of a round, from a call or from a suspended task, which takes its permit. -/
inductive Thread.Begins (n : NodeId) (claim : Bool) (w : World) (t : Thread) : Prop
  | enter (idle : t.agenda = []) (at' : t.control = .enter n) (thunk : (w.thunk? n).isSome)
  | blackHole {ns env} (idle : t.agenda = []) (at' : t.control = .perform .blackHole (n :: ns) env)
    (free : w.value? n = none)
  | woken (idle : t.agenda = []) (at' : t.control = .parked n claim)
    (permit : (w.task (t.me w)).permit = true)
    (taken : ((t.step w).1.task (t.me w)).permit = false)

theorem World.permit_setTask_resume {me : TaskId} (permit : (w.task me).permit = true) :
    ((w.setTask me (w.task me).resume).task me).permit = false := by
  simp [World.task_setTask, World.lt_of_permit permit, Task.resume]

theorem Step.begins (step : Step w t w' t') (outside : t.control.isInside = false) :
    t'.control.isInside = false ∨ ∃ n claim, t'.agenda = [] ∧ t'.control = .force n claim ∧
      t.Begins n claim w := by
  have elsewhere : ∀ {c : Control}, t.control = c → c.isInside = true → False := fun at' inside => by
    rw [at', inside] at outside
    cases outside
  cases step with
  | stay => exact .inl outside
  | errand step =>
    rcases step.frames.2 with same | exit
    · exact .inl (same ▸ outside)
    · exact .inl (Control.isInside_of_isCalm (Control.isCalm_of_isExit exit))
  | host step =>
    cases step with
    | blackHole idle host free => exact .inr ⟨_, _, idle, rfl, .blackHole idle host free⟩
    | code _ _ _ _ calm | giveCode _ _ _ _ _ _ calm => exact .inl (Control.isInside_of_isCalm calm)
    | dropCode _ exit _ _ caught =>
      rcases caught with rfl | ⟨code, env, rfl⟩
      · exact .inl outside
      · exact .inl rfl
    | dropAgain | dropEvaluation | dropLeaving => exact .inl outside
    | _ => exact .inl rfl
  | forcing step =>
    cases step with
    | enter idle at' thunk => exact .inr ⟨_, _, idle, rfl, .enter idle at' thunk⟩
    | body _ at' => exact (elsewhere at' rfl).elim
    | evaluated | evaluate | enterFailed | updateLost | update | installed | installMissed =>
      exact .inl rfl
    | take _ at' | share _ at' | done _ at' | loop _ at' | await _ at' | seized _ at'
    | seizeMissed _ at' | started _ at' | startLoop _ at' | released _ at' | recheckFailed _ at'
    | recheck _ at' => exact (elsewhere at' rfl).elim
  | waits step =>
    cases step with
    | free _ at' | loop _ at' | busy _ at' | lock _ at' | join _ at' | locked _ at'
    | lockMissed _ at' | gathered _ at' | joined _ at' | joinMissed _ at' | enlist _ at'
    | enrolled _ at' | confirmClosed _ at' | confirm _ at' | retract _ at' | enlisted _ at'
    | proceed _ at' | published _ at' | publishMissed _ at' | «suspend» _ at' | resumed _ at'
    | asleep _ at' | refuse _ at' => exact (elsewhere at' rfl).elim
  | attempt step => cases step <;> exact .inl rfl

/-- The step is as it should be between rounds and within one. -/
structure Thread.Advances (w : World) (t : Thread) : Prop where
  paced : Paced (t.step w).1 (t.step w).2
  begins : ∀ n claim, (t.step w).2.control = .force n claim → t.Begins n claim w
  attaches : ∀ n claim, (t.step w).2.control = .attach n claim → t.control = .force n claim

theorem Thread.advances_of_apart (paced : Paced (t.step w).1 (t.step w).2)
    (apart : ∀ n claim, (t.step w).2.control ≠ .force n claim ∧
      (t.step w).2.control ≠ .attach n claim) : t.Advances w :=
  ⟨paced, fun n claim at' => absurd at' (apart n claim).1,
    fun n claim at' => absurd at' (apart n claim).2⟩

theorem Thread.advances_of_outside (outside : (t.step w).2.control.isInside = false) :
    t.Advances w := by
  refine Thread.advances_of_apart (.outside outside) fun n claim => ⟨?_, ?_⟩ <;>
  · intro at'
    rw [at'] at outside
    cases outside

/-- Nothing in the world keeps the thread from going through a round without a second look. -/
structure Thread.Unhindered (w : World) (t : Thread) : Prop where
  detours : ∀ c, (w.context c).detour = none
  unlocked : ∀ n o, (w.slot n).cell = some (.locked o) → t.HasLock n (w.slot n)
  queues : ∀ n q o, (w.slot n).cell = some (.queue q o) → w.Open q
  released : ∀ n, w.Released n → (t.step w).1.Released n
  nodes : ∀ n ns env, t.control = .perform .blackHole (n :: ns) env → (w.node? n).isSome

theorem Thread.Begins.thunk (begins : t.Begins n claim w) (free : t.Unhindered w)
    (outside : t.control.isInside = false) : (w.thunk? n).isSome := by
  cases begins with
  | enter _ _ thunk => exact thunk
  | blackHole _ at' none' =>
    obtain ⟨x, found⟩ := Option.isSome_iff_exists.1 (free.nodes _ _ _ at')
    cases x with
    | value v => simp [World.value?, found, Node.value?] at none'
    | thunk th => simp [World.thunk?, found, Node.thunk?]
  | woken _ at' =>
    rw [at'] at outside
    cases outside

theorem Paced.step (paced : Paced w t) (free : t.Unhindered w) : t.Advances w := by
  have step := step_cases w t
  have stays : ∀ {n}, (w.thunk? n).isSome → ((t.step w).1.thunk? n).isSome :=
    fun known => step.evolves.thunk _ known
  have begun : ∀ {n claim}, (t.step w).2.agenda = [] → (t.step w).2.control = .force n claim →
      t.Begins n claim w → (w.thunk? n).isSome → t.Advances w := by
    intro n claim idle at' begins thunk
    refine ⟨.inside (.look idle at') (stays thunk), ?_, ?_⟩
    · intro m c is
      rw [at'] at is
      cases is
      exact begins
    · intro m c is
      rw [at'] at is
      cases is
  cases paced with
  | outside outside =>
    rcases step.begins outside with still | ⟨n, claim, idle, at', begins⟩
    · exact Thread.advances_of_outside still
    · exact begun idle at' begins (begins.thunk free outside)
  | @asleep n claim idle at' thunk =>
    have turn : t.step w = t.park w n claim := by
      simp only [Thread.step_idle idle, Thread.proceed, at']
    unfold Thread.park World.takePermit? at turn
    split at turn
    · rename_i taken
      split at taken
      · rename_i permit
        obtain rfl := Option.some.inj taken
        have taken : ((t.step w).1.task (t.me w)).permit = false := by
          rw [turn]
          exact World.permit_setTask_resume permit
        exact begun (by rw [turn]; exact idle) (by rw [turn]; rfl)
          (.woken idle at' permit taken) thunk
      · cases taken
    · by_cases mayWait : t.maySuspend
      · rw [if_pos mayWait] at turn
        refine Thread.advances_of_apart ?_ (by simp [turn, at'])
        rw [turn]
        exact .asleep idle at' thunk
      · rw [if_neg mayWait] at turn
        exact Thread.advances_of_outside (by rw [turn]; rfl)
  | @inside n claim r round thunk =>
    rcases round.step thunk (free.released n) free.detours (free.unlocked n) (free.queues n) with
      ⟨-, r', lt, next⟩ | leaves
    · refine ⟨.inside next (stays thunk), ?_, ?_⟩
      · intro m c is
        have most := next.at_force is
        have := round.le
        omega
      · intro m c is
        obtain ⟨second, rfl, rfl⟩ := next.at_attach is
        obtain rfl : r = 13 := by
          have := round.le
          omega
        exact round.at_start.2
    · cases leaves with
      | suspended idle at' =>
        exact Thread.advances_of_apart (.asleep idle at' (stays thunk)) (by simp [at'])
      | returned outcome =>
        exact Thread.advances_of_outside (Control.isInside_of_isOutcome outcome)
      | running _ calm => exact Thread.advances_of_outside (Control.isInside_of_isCalm calm)

/-! ## Runs -/

def Thread.dangles (w : World) (t : Thread) : Bool :=
  match t.control with
  | .perform .blackHole (n :: _) _ => (w.node? n).isNone
  | _ => false

namespace Run

/-- No host claims a thunk that is not there. -/
def NeverDangles (run : Run) : Prop :=
  ∀ k, ∀ t ∈ (run.state k).threads, t.dangles (run.state k).world = false

/-- Other threads run only while thread `i` stands at a gate or its task is suspended, and when it
takes a turn, none of them stands between the locking of a slot and the publication of its queue. -/
structure HasFloor (run : Run) (i : ThreadId) (a b : Nat) : Prop where
  yields : run.Yields i a b
  lockless : ∀ k, a ≤ k → k < b → run.move k = .step i → ∀ j ≠ i, ∀ u,
    (run.state k).threads[j]? = some u → u.holdsLock = false

variable {run : Run} {i : ThreadId} {a b k r : Nat} {u : Thread}

theorem released_kept (whole : run.Whole) (known : (run.state k).world.Released n) :
    (run.state (k + 1)).world.Released n := by
  obtain ⟨s, found, cleared⟩ := known
  exact ⟨s, run.cleared_kept whole (Nat.le_succ k) found cleared, cleared⟩

theorem unhindered (direct : run.NeverDetours) (whole : run.Whole) (fair : run.NeverTriesLock)
    (real : run.NeverDangles) (turn : run.move k = .step i)
    (lockless : ∀ j ≠ i, ∀ u, (run.state k).threads[j]? = some u → u.holdsLock = false)
    (there : (run.state k).threads[i]? = some u) : u.Unhindered (run.state k).world where
  detours := run.undetoured direct k
  unlocked _ _ locked := lock_own direct fair there lockless locked
  queues n q o held := by
    obtain ⟨Q, found, -, -, open'⟩ := (run.queued k).slots n q o held
    exact ⟨Q, found, open'⟩
  released n known := by
    rw [← (run.own_step turn there).1]
    exact released_kept whole known
  nodes n ns env at' := by
    have there := real k u (Array.mem_of_getElem? there)
    simpa [Thread.dangles, at'] using there

theorem still_of_no_step (quiet : ∀ j, run.move k ≠ .step j) :
    (∀ n, (run.state (k + 1)).world.slot n = (run.state k).world.slot n) ∧
      ∀ q, (run.state (k + 1)).world.queue? q = (run.state k).world.queue? q := by
  refine ⟨fun n => ?_, fun q => ?_⟩
  · rcases run.transition k n with same | ⟨j, t, turn, -⟩
    · exact same
    · exact absurd turn (quiet j)
  · rw [World.queue?, World.queue?, run.state_succ, State.queues_after quiet]

/-- While a thread neither stands at a gate nor is suspended, nobody else takes a turn. -/
theorem rests_of_busy (floor : run.HasFloor i a b) (low : a ≤ k) (high : k < b)
    (turn : run.move k ≠ .step i) (there : (run.state k).threads[i]? = some u)
    (gateless : ∀ g as, u.agenda ≠ .gate g :: as) (awake : ∀ n claim, u.control ≠ .parked n claim) :
    (run.state (k + 1)).threads[i]? = some u ∧
      (∀ n, (run.state (k + 1)).world.slot n = (run.state k).world.slot n) ∧
      ∀ q, (run.state (k + 1)).world.queue? q = (run.state k).world.queue? q := by
  have busy : u.standsAt? = none ∧ u.isParked = false := by
    constructor
    · unfold Thread.standsAt?
      split
      · exact absurd ‹_› (gateless _ _)
      · rfl
    · unfold Thread.isParked
      split
      · exact absurd ‹_› (awake _ _)
      · rfl
  have quiet : ∀ j, run.move k ≠ .step j := by
    intro j is
    have other : j ≠ i := fun same => turn (same ▸ is)
    simpa [there, busy] using floor.yields k low high j other is
  refine ⟨?_, still_of_no_step quiet⟩
  rcases run.not_own_step turn there with stays | ⟨g, as, gate, -⟩
  · exact stays
  · exact absurd gate (gateless g as)

theorem round_rests (whole : run.Whole) (floor : run.HasFloor i a b) (low : a ≤ k) (high : k < b)
    (turn : run.move k ≠ .step i) (there : (run.state k).threads[i]? = some u)
    (round : Round n claim (run.state k).world u r) :
    (run.state (k + 1)).threads[i]? = some u ∧ Round n claim (run.state (k + 1)).world u r := by
  obtain ⟨stays, slots, queues⟩ := rests_of_busy floor low high turn there
    (fun _ _ => round.gateless) fun _ _ => round.not_parked
  exact ⟨stays, round.stable (slots n) queues ((run.change k).me (run.seats k) there)
    (released_kept whole)⟩

theorem taking_rests (whole : run.Whole) (floor : run.HasFloor i a b) (low : a ≤ k) (high : k < b)
    (turn : run.move k ≠ .step i) (there : (run.state k).threads[i]? = some u)
    (taking : Taking n (run.state k).world u r) :
    (run.state (k + 1)).threads[i]? = some u ∧ Taking n (run.state (k + 1)).world u r := by
  obtain ⟨stays, slots, -⟩ := rests_of_busy floor low high turn there
    (fun _ _ => taking.phase.agenda_ne_gate) fun _ _ => taking.not_parked
  exact ⟨stays, taking.stable (slots n) ((run.change k).me (run.seats k) there)
    (released_kept whole)⟩

/-- What every turn of thread `i` brings closer to its end, and no other move disturbs, ends. -/
theorem ends {L : Nat → World → Thread → Prop} {Done : Thread → Prop}
    (own : ∀ k u r, a ≤ k → k < b → run.move k = .step i → (run.state k).threads[i]? = some u →
      L r (run.state k).world u →
      (∃ r' < r, L r' (run.state (k + 1)).world (u.step (run.state k).world).2) ∨
        Done (u.step (run.state k).world).2)
    (rests : ∀ k u r, a ≤ k → k < b → run.move k ≠ .step i →
      (run.state k).threads[i]? = some u → L r (run.state k).world u →
      (run.state (k + 1)).threads[i]? = some u ∧ L r (run.state (k + 1)).world u)
    (lasts : ∀ w u, ¬ L 0 w u) (low : a ≤ k) (there : (run.state k).threads[i]? = some u)
    (start : L r (run.state k).world u) {m : Nat} (high : k + m ≤ b)
    (turns : r ≤ run.turns i k m) :
    ∃ j ≤ m, ∃ v, (run.state (k + j)).threads[i]? = some v ∧ Done v := by
  obtain ⟨j, le, ⟨v, at', last⟩, -⟩ := comes_down (m := m)
    (L := fun r k => ∃ u, (run.state k).threads[i]? = some u ∧
      (L r (run.state k).world u ∨ r = 0 ∧ Done u))
    (fun c r after before ⟨v, at', going⟩ more => by
      have going := going.resolve_right fun ⟨zero, _⟩ => more zero
      by_cases turn : run.move c = .step i
      · obtain ⟨-, later⟩ := run.own_step turn at'
        have one : run.turns i c 1 = 1 := by rw [turns_one, if_pos (Move.isStep_iff.2 turn)]
        rcases own c v r (by omega) (by omega) turn at' going with ⟨r', lt, next⟩ | done
        · exact ⟨r', ⟨_, later, .inl next⟩, by omega⟩
        · exact ⟨0, ⟨_, later, .inr ⟨rfl, done⟩⟩, by omega⟩
      · obtain ⟨stays, same⟩ := rests c v r (by omega) (by omega) turn at' going
        have none' : run.turns i c 1 = 0 := by
          rw [turns_one, if_neg (by simpa [Move.isStep_iff] using turn)]
        exact ⟨r, ⟨v, stays, .inl same⟩, by omega⟩)
    ⟨u, there, .inl start⟩ turns
  exact ⟨j, le, v, at', (last.resolve_left (lasts _ v)).2⟩

section

variable (direct : run.NeverDetours) (whole : run.Whole) (fair : run.NeverTriesLock)
  (real : run.NeverDangles) (floor : run.HasFloor i a b)

include direct whole fair real floor

theorem paced (found : (run.state a).threads[i]? = some t)
    (outside : t.control.isInside = false) (low : a ≤ k) (high : k ≤ b) :
    ∃ u, (run.state k).threads[i]? = some u ∧ Paced (run.state k).world u := by
  induction low with
  | refl => exact ⟨t, found, .outside outside⟩
  | @step k low ih =>
    obtain ⟨u, there, paced⟩ := ih (Nat.le_of_succ_le high)
    by_cases turn : run.move k = .step i
    · obtain ⟨world, after⟩ := run.own_step turn there
      have free := unhindered direct whole fair real turn (floor.lockless k low high turn) there
      exact ⟨_, after, world ▸ (paced.step free).paced⟩
    · cases paced with
      | inside round thunk =>
        obtain ⟨stays, later⟩ := round_rests whole floor low high turn there round
        exact ⟨u, stays, .inside later ((run.change k).evolves.thunk _ thunk)⟩
      | asleep idle at' thunk =>
        refine ⟨u, ?_, .asleep idle at' ((run.change k).evolves.thunk _ thunk)⟩
        rcases run.not_own_step turn there with stays | ⟨g, as, gate, -⟩
        · exact stays
        · simp [idle] at gate
      | outside outside =>
        rcases run.not_own_step turn there with stays | ⟨g, as, gate, -, passed⟩
        · exact ⟨u, stays, .outside outside⟩
        · exact ⟨_, passed, .outside outside⟩

/-- A round comes to its end. -/
theorem leaves (low : a ≤ k) (there : (run.state k).threads[i]? = some u)
    (round : Round n claim (run.state k).world u r)
    (thunk : ((run.state k).world.thunk? n).isSome) {m : Nat} (high : k + m ≤ b)
    (turns : r ≤ run.turns i k m) :
    ∃ j ≤ m, ∃ v, (run.state (k + j)).threads[i]? = some v ∧ v.Leaves n claim u.stack := by
  refine ends (L := fun r w v => v.stack = u.stack ∧ Round n claim w v r ∧ (w.thunk? n).isSome)
    ?_ ?_ (fun w v ⟨_, round, _⟩ => round.pos) low there ⟨rfl, round, thunk⟩ high turns
  · rintro c v r after before turn at' ⟨same, round, thunk⟩
    have free := unhindered direct whole fair real turn (floor.lockless c after before turn) at'
    rw [(run.own_step turn at').1]
    rcases round.step thunk (free.released n) free.detours (free.unlocked n) (free.queues n) with
      ⟨stack, r', lt, next⟩ | leaves
    · exact .inl ⟨r', lt, stack.trans same, next, (step_cases _ v).evolves.thunk n thunk⟩
    · exact .inr (same ▸ leaves)
  · rintro c v r after before turn at' ⟨same, round, thunk⟩
    obtain ⟨stays, later⟩ := round_rests whole floor after before turn at' round
    exact ⟨stays, same, later, (run.change c).evolves.thunk n thunk⟩

/-- Taking a thunk that is released fails. -/
theorem fails (low : a ≤ k) (there : (run.state k).threads[i]? = some u)
    (taking : Taking n (run.state k).world u r) (known : (run.state k).world.Released n) {m : Nat}
    (high : k + m ≤ b) (turns : r ≤ run.turns i k m) :
    ∃ j ≤ m, ∃ v, (run.state (k + j)).threads[i]? = some v ∧ v.FailsOn n ∧ v.stack = u.stack := by
  refine ends (L := fun r w v => v.stack = u.stack ∧ Taking n w v r ∧ w.Released n)
    ?_ ?_ (fun w v ⟨_, taking, _⟩ => absurd taking.left (by omega)) low there ⟨rfl, taking, known⟩
    high turns
  · rintro c v r after before turn at' ⟨same, taking, known⟩
    have free := unhindered direct whole fair real turn (floor.lockless c after before turn) at'
    rw [(run.own_step turn at').1]
    rcases taking.step known.thunk (free.released n) with
      ⟨stack, ⟨r', lt, next⟩ | fails⟩ | ⟨unreleased, -⟩
    · exact .inl ⟨r', lt, stack.trans same, next, free.released n known⟩
    · exact .inr ⟨fails, stack.trans same⟩
    · exact absurd known unreleased
  · rintro c v r after before turn at' ⟨same, taking, known⟩
    obtain ⟨stays, later⟩ := taking_rests whole floor after before turn at' taking
    exact ⟨stays, same, later, released_kept whole known⟩

end

/-- **Forcing never busy-waits.** Hosts lock no slots, gates are in host code only, and other
threads run only while the caller stands at one or its task is suspended, and are then not stopped
on their way into a queue with a slot locked. Then a call begins a round of forcing only when a
thunk is asked for and when the task has been suspended and takes a permit, it looks for a queue
once a round, and 13 of its turns bring a round to its end. A round on a released thunk that has no
value ends in an error. -/
theorem never_spins (run : Run) (direct : run.NeverDetours) (whole : run.Whole)
    (fair : run.NeverTriesLock) (real : run.NeverDangles) {i : ThreadId} {a b : Nat} {t : Thread}
    (found : (run.state a).threads[i]? = some t) (calls : t.calls = true)
    (floor : run.HasFloor i a b) :
    (∀ k u v, a ≤ k → k < b → run.move k = .step i → (run.state k).threads[i]? = some u →
      (run.state (k + 1)).threads[i]? = some v →
      (∀ n claim, v.control = .force n claim → u.Begins n claim (run.state k).world) ∧
      ∀ n claim, v.control = .attach n claim → u.control = .force n claim) ∧
    (∀ k u n claim m, a ≤ k → k + m ≤ b → (run.state k).threads[i]? = some u →
      u.control = .force n claim → 13 ≤ run.turns i k m →
      ∃ j ≤ m, ∃ v, (run.state (k + j)).threads[i]? = some v ∧ v.Leaves n claim u.stack) ∧
    ∀ k u n m, a ≤ k → k + m ≤ b → (run.state k).threads[i]? = some u → u.agenda = [] →
      (u.control = .enter n ∨ ∃ claim, u.control = .force n claim) →
      ((run.state k).world.slot n).cell = none → (run.state k).world.Released n →
      12 ≤ run.turns i k m →
      ∃ j ≤ m, ∃ v, (run.state (k + j)).threads[i]? = some v ∧ v.FailsOn n ∧ v.stack = u.stack := by
  have outside : t.control.isInside = false := by
    unfold Thread.calls at calls
    cases at' : t.control <;> simp_all [Control.isCall, Control.isInside, Control.target?]
  have paced := fun k => paced direct whole fair real floor found outside (k := k)
  refine ⟨?_, ?_, ?_⟩
  · intro k u v low high turn there after
    obtain ⟨u', there', at'⟩ := paced k low (Nat.le_of_lt high)
    rw [there] at there'
    cases there'
    have free := unhindered direct whole fair real turn (floor.lockless k low high turn) there
    have advances := at'.step free
    obtain ⟨-, after'⟩ := run.own_step turn there
    rw [after] at after'
    cases after'
    exact ⟨advances.begins, advances.attaches⟩
  · intro k u n claim m low high there at' turns
    obtain ⟨u', there', is⟩ := paced k low (by omega)
    rw [there] at there'
    cases there'
    cases is with
    | outside outside =>
      rw [at'] at outside
      cases outside
    | asleep _ is =>
      rw [at'] at is
      cases is
    | inside round thunk =>
      obtain rfl := round.at_force at'
      have start := round.at_start.2
      rw [at'] at start
      cases start
      exact leaves direct whole fair real floor low there round thunk high turns
  · intro k u n m low high there idle asks free known turns
    have taking : ∃ r ≤ 12, Taking n (run.state k).world u r := by
      rcases asks with at' | ⟨claim, at'⟩
      · refine ⟨12, by omega, ?_, by omega, by omega⟩
        rw [idle, at']
        exact .enter free
      · refine ⟨11, by omega, ?_, by omega, by omega⟩
        rw [idle, at']
        exact .force free
    obtain ⟨r, few, taking⟩ := taking
    exact fails direct whole fair real floor low there taking known high (by omega)

def locklessAt (run : Run) (i : ThreadId) (k : Nat) : Bool :=
  match run.move k with
  | .step j => j != i || (List.range (run.state k).threads.size).all fun j =>
      j == i || ((run.state k).threads[j]?).all fun u => !u.holdsLock
  | _ => true

theorem HasFloor.of_locklessAt (yields : ∀ k < b, a ≤ k → run.yieldsAt i k = true)
    (lockless : ∀ k < b, a ≤ k → run.locklessAt i k = true) : run.HasFloor i a b where
  yields := yields_of_yieldsAt yields
  lockless k low high turn j other u there := by
    have all := lockless k high low
    simp only [locklessAt, turn, bne_self_eq_false, Bool.false_or, List.all_eq_true,
      List.mem_range] at all
    simpa [there, other] using all j (Array.getElem?_eq_some_iff.1 there).1

end Run

def Control.isForce (n : NodeId) (claim : Bool) : Control → Bool
  | .force m c => m == n && c == claim
  | _ => false

theorem Control.force_of_isForce {c : Control} (is : c.isForce n claim = true) :
    c = .force n claim := by
  unfold isForce at is
  split at is
  · simp only [Bool.and_eq_true, beq_iff_eq] at is
    rw [is.1, is.2]
  · cases is

def Control.isAttach (n : NodeId) (claim : Bool) : Control → Bool
  | .attach m c => m == n && c == claim
  | _ => false

theorem Control.attach_of_isAttach {c : Control} (is : c.isAttach n claim = true) :
    c = .attach n claim := by
  unfold isAttach at is
  split at is
  · simp only [Bool.and_eq_true, beq_iff_eq] at is
    rw [is.1, is.2]
  · cases is

namespace Run

/-- While a task stands at a gate in the code of a thunk, another one asks for the thunk and is
suspended. -/
def patient : Run :=
  .ofMoves {}
    ([.thunk (.prim (.gate "g") []) [], .sit true, .sit true, .evaluate 0 0, .evaluate 1 0] ++
      List.replicate 12 (.step 0) ++ List.replicate 19 (.step 1) ++ [.pass 0 "g"] ++
      List.replicate 16 (.step 0) ++ List.replicate 4 (.step 1))
    (by decide +kernel)

theorem never_spins_patient :
    patient.NeverDetours ∧ patient.Whole ∧ patient.NeverTriesLock ∧ patient.NeverDangles ∧
      patient.HasFloor 1 21 57 ∧
      (∃ u, (patient.state 53).threads[1]? = some u ∧ u.Begins 0 true (patient.state 53).world) ∧
      ∃ u v, (patient.state 23).threads[1]? = some u ∧ v.Leaves 0 true u.stack ∧
        ∃ j ≤ 13, (patient.state (23 + j)).threads[1]? = some v := by
  have direct : patient.NeverDetours := neverDetours_ofMoves (by decide +kernel)
  have whole : patient.Whole := ofMoves_all rfl (by decide +kernel)
  have fair : patient.NeverTriesLock :=
    ofMoves_forall (P := fun s => ∀ t ∈ s.threads, t.triesLock = false) (by decide +kernel)
  have real : patient.NeverDangles :=
    ofMoves_forall (P := fun s => ∀ t ∈ s.threads, t.dangles s.world = false) (by decide +kernel)
  have floor : patient.HasFloor 1 21 57 := .of_locklessAt (by decide +kernel) (by decide +kernel)
  have calls : ((patient.state 21).threads[1]?).any (·.calls) = true := by decide +kernel
  have first : ((patient.state 23).threads[1]?).any (·.control.isForce 0 true) = true := by
    decide +kernel
  have parked : ((patient.state 53).threads[1]?).isSome := by decide +kernel
  have again : ((patient.state 54).threads[1]?).any (·.control.isForce 0 true) = true := by
    decide +kernel
  obtain ⟨t, found, calls⟩ := (Option.any_eq_true _ _).1 calls
  obtain ⟨u, there, begins⟩ := (Option.any_eq_true _ _).1 first
  obtain ⟨x, sleeps⟩ := Option.isSome_iff_exists.1 parked
  obtain ⟨y, after, wakes⟩ := (Option.any_eq_true _ _).1 again
  obtain ⟨rounds, ends, -⟩ := never_spins patient direct whole fair real found calls floor
  obtain ⟨j, le, v, there', leaves⟩ := ends 23 u 0 true 13 (by decide) (by decide) there
    (Control.force_of_isForce begins) (by decide +kernel)
  exact ⟨direct, whole, fair, real, floor,
    ⟨x, sleeps, (rounds 53 x y (by decide) (by decide) rfl sleeps after).1 0 true
      (Control.force_of_isForce wakes)⟩, u, v, there, leaves, j, le, there'⟩

/-- While a task stands at a gate in the code of a thunk, a second one locks the slot and is not
scheduled again, and a third one asks for the thunk. -/
def preempted : Run :=
  .ofMoves {}
    ([.thunk (.prim (.gate "g") []) [], .sit true, .sit true, .sit true, .evaluate 0 0,
        .evaluate 1 0, .evaluate 2 0] ++
      List.replicate 12 (.step 0) ++ List.replicate 9 (.step 1) ++ List.replicate 27 (.step 2))
    (by decide +kernel)

/-- A task that meets the lock of one that is not scheduled looks at the slot turn after turn. -/
theorem never_spins_preempted :
    preempted.NeverDetours ∧ preempted.Whole ∧ preempted.NeverTriesLock ∧
      preempted.NeverDangles ∧ preempted.Yields 2 32 55 ∧
      ((preempted.state 32).threads[2]?).any (·.calls) = true ∧
      preempted.turns 2 35 20 = 20 ∧
      ∀ k ≤ 55, 35 ≤ k → ∃ u, (preempted.state k).threads[2]? = some u ∧
        u.control = .attach 0 true := by
  have direct : preempted.NeverDetours := neverDetours_ofMoves (by decide +kernel)
  have whole : preempted.Whole := ofMoves_all rfl (by decide +kernel)
  have fair : preempted.NeverTriesLock :=
    ofMoves_forall (P := fun s => ∀ t ∈ s.threads, t.triesLock = false) (by decide +kernel)
  have real : preempted.NeverDangles :=
    ofMoves_forall (P := fun s => ∀ t ∈ s.threads, t.dangles s.world = false) (by decide +kernel)
  have yields : preempted.Yields 2 32 55 := yields_of_yieldsAt (by decide +kernel)
  have looks : ∀ k ≤ 55, 35 ≤ k →
      ((preempted.state k).threads[2]?).any (·.control.isAttach 0 true) = true := by
    decide +kernel
  refine ⟨direct, whole, fair, real, yields, by decide +kernel, by decide +kernel, ?_⟩
  intro k high low
  obtain ⟨u, there, at'⟩ := (Option.any_eq_true _ _).1 (looks k high low)
  exact ⟨u, there, Control.attach_of_isAttach at'⟩

end Run

end LazyGraph

import LazyGraph.Proofs.Frames
import LazyGraph.Proofs.Values

/-!
# All who force a thunk get the same node

A call on a thunk is followed from the request to the return. Wherever it gets its result, from the
slot, from its own update or from that of another task, the result stands in the slot at that moment.
-/

namespace LazyGraph

/-! ## Steps at a thunk -/

def Control.target? : Control → Option NodeId
  | .enter n | .force n _ | .seize n _ | .start n _ | .body n _ | .recheck n _ | .attach n _
  | .lock n _ _ _ | .gather n _ _ _ | .join n _ _ _ | .suspend n _ | .parked n _ => some n
  | .enlist x | .enrol x | .confirm x | .retract x | .enlisted x _ | .publish x _ => some x.thunk
  | _ => none

def Control.updates? : Control → Option NodeId
  | .update n _ | .install n _ _ => some n
  | _ => none

variable {w w' : World} {t t' : Thread} {n v : NodeId}

theorem Step.target_cases (step : Step w t w' t') (idle : t.agenda = [])
    (target : t.control.target? = some n) :
    t'.stack = t.stack ∧ (t'.control.target? = some n ∨ t'.control.isExit ∨
      ∃ v, t'.control = .give v ∧ (w.slot n).cell = some (.value v)) ∨
    ∃ gs claim, t.control = .body n claim ∧ t'.stack = gs ++ .running n claim :: t.stack := by
  cases step with
  | stay => exact .inl ⟨rfl, .inl target⟩
  | errand step => cases step <;> simp_all
  | host step =>
    cases step with
    | code _ host => cases is : t.control <;> simp_all [Control.isCode, Control.target?]
    | dropCode _ exit | dropAgain _ exit | dropEvaluation _ exit | dropLeaving _ exit =>
      cases is : t.control <;> simp_all [Control.isExit, Control.target?]
    | _ => simp_all [Control.target?]
  | forcing step =>
    cases step with
    | evaluated _ at' | evaluate _ at' | updateLost _ at' | update _ at' | installed _ at'
    | installMissed _ at' => simp [at', Control.target?] at target
    | done _ at' held =>
      rw [at'] at target
      cases target
      exact .inl ⟨rfl, .inr (.inr ⟨_, rfl, held⟩)⟩
    | body _ at' =>
      rw [at'] at target
      cases target
      exact .inr ⟨_, _, at', rfl⟩
    | enterFailed | loop | startLoop | recheckFailed => exact .inl ⟨rfl, .inr (.inl rfl)⟩
    | enter _ at' | take _ at' | share _ at' | await _ at' | seized _ at' | seizeMissed _ at'
    | started _ at' | released _ at' | recheck _ at' =>
      rw [at'] at target
      exact .inl ⟨rfl, .inl target⟩
  | waits step =>
    cases step with
    | busy | asleep => exact .inl ⟨rfl, .inl target⟩
    | loop | refuse => exact .inl ⟨rfl, .inr (.inl rfl)⟩
    | @proceed x blocked as _ at' | @published x blocked seen as _ at' =>
      rw [at'] at target
      refine .inl ⟨rfl, .inl ?_⟩
      cases blocked <;> exact target
    | free _ at' | lock _ at' | join _ at' | locked _ at' | lockMissed _ at' | gathered _ at'
    | joined _ at' | joinMissed _ at' | enlist _ at' | enrolled _ at' | confirmClosed _ at'
    | confirm _ at' | retract _ at' | enlisted _ at' | publishMissed _ at' | «suspend» _ at'
    | resumed _ at' =>
      rw [at'] at target
      exact .inl ⟨rfl, .inl target⟩
  | attempt step => cases step <;> simp_all [Control.target?]

theorem Step.update_cases (step : Step w t w' t') (idle : t.agenda = [])
    (updates : t.control.updates? = some n) (thunk : (w.thunk? n).isSome) :
    t'.stack = t.stack ∧ (t'.control.updates? = some n ∨ ∃ v, t'.control = .give v ∧
      ((w.slot n).cell = some (.value v) ∨ (w'.slot n).cell = some (.value v))) := by
  cases step with
  | stay => exact ⟨rfl, .inl updates⟩
  | errand step => cases step <;> simp_all
  | host step =>
    cases step with
    | code _ host => cases is : t.control <;> simp_all [Control.isCode, Control.updates?]
    | dropCode _ exit | dropAgain _ exit | dropEvaluation _ exit | dropLeaving _ exit =>
      cases is : t.control <;> simp_all [Control.isExit, Control.updates?]
    | _ => simp_all [Control.updates?]
  | forcing step =>
    cases step with
    | updateLost _ at' held =>
      rw [at'] at updates
      cases updates
      exact ⟨rfl, .inr ⟨_, rfl, .inl held⟩⟩
    | installed _ at' =>
      rw [at'] at updates
      cases updates
      obtain ⟨th, found⟩ := Option.isSome_iff_exists.1 thunk
      exact ⟨rfl, .inr ⟨_, rfl, .inr (by simp [World.slot_write_self found])⟩⟩
    | update _ at' | installMissed _ at' =>
      rw [at'] at updates
      exact ⟨rfl, .inl updates⟩
    | _ => simp_all [Control.updates?]
  | waits step => cases step <;> simp_all [Control.updates?]
  | attempt step => cases step <;> simp_all [Control.updates?]

/-! ## A call on a thunk -/

def Near (n : NodeId) (base stack : List Frame) : Prop :=
  ∃ gs, stack = gs ++ base ∧ ∀ g ∈ gs, g = .again ∨ g = .leaving n

theorem Near.refl (base : List Frame) : Near n base base :=
  ⟨[], rfl, by simp⟩

theorem Near.push {base stack : List Frame} {f : Frame} (near : Near n base stack)
    (kind : f = .again ∨ f = .leaving n) : Near n base (f :: stack) := by
  obtain ⟨gs, rfl, all⟩ := near
  refine ⟨f :: gs, rfl, ?_⟩
  intro g known
  rcases List.mem_cons.1 known with rfl | old
  · exact kind
  · exact all g old

theorem Near.pop {base stack rest : List Frame} {f : Frame} (near : Near n base stack)
    (top : stack = f :: rest) (above : stack ≠ base) :
    (f = .again ∨ f = .leaving n) ∧ Near n base rest := by
  obtain ⟨gs, rfl, all⟩ := near
  cases gs with
  | nil => exact absurd rfl above
  | cons g gs =>
    cases top
    exact ⟨all _ List.mem_cons_self, gs, rfl, fun g known => all g (List.mem_cons_of_mem _ known)⟩

/-- How far a call on `n` has come. `Got v` tells that `v` was in the slot when the thread got it. -/
inductive Stage (n : NodeId) (base : List Frame) (Got : NodeId → Prop) : Control → List Frame → Prop
  | asked {s} (near : Near n base s) : Stage n base Got (.evaluate n) s
  | forcing {c s} (near : Near n base s) (target : c.target? = some n) : Stage n base Got c s
  | running {c g f claim s} (near : Near n base s)
    (frame : f = .running n claim ∨ f = .settling n claim) : Stage n base Got c (g ++ f :: s)
  | updating {c s} (near : Near n base s) (updates : c.updates? = some n) : Stage n base Got c s
  | giving {v s} (near : Near n base s) (got : Got v) : Stage n base Got (.give v) s
  | rereading {v s} (near : Near n base s) (got : Got v) : Stage n base Got (.evaluate v) s
  | failing {c s} (near : Near n base s) (exit : c.isExit) : Stage n base Got c s

def Thread.isBackAt (t : Thread) (depth : Nat) : Bool :=
  t.agenda.isEmpty && t.stack.length == depth &&
    match t.control with
    | .give _ | .fail _ | .unwind _ => true
    | _ => false

section

variable {base : List Frame} {Got Got' : NodeId → Prop}

theorem Stage.mono {c : Control} {s : List Frame}
    (grows : ∀ v, Got v → c = .give v ∨ c = .evaluate v → Got' v)
    (stage : Stage n base Got c s) : Stage n base Got' c s := by
  cases stage with
  | asked near => exact .asked near
  | forcing near target => exact .forcing near target
  | running near frame => exact .running near frame
  | updating near updates => exact .updating near updates
  | giving near got => exact .giving near (grows _ got (.inl rfl))
  | rereading near got => exact .rereading near (grows _ got (.inr rfl))
  | failing near exit => exact .failing near exit

theorem Near.length_le {s : List Frame} (near : Near n base s) : base.length ≤ s.length := by
  obtain ⟨gs, rfl, -⟩ := near
  simp

theorem Stage.got_of_back {s : List Frame} (stage : Stage n base Got (.give v) s)
    (back : s.length = base.length) : Got v := by
  generalize at' : Control.give v = c at stage
  cases stage with
  | giving near got =>
    cases at'
    exact got
  | running near frame =>
    have above := near.length_le
    simp only [List.length_append, List.length_cons] at back
    omega
  | asked | rereading => cases at'
  | forcing near target => simp [← at', Control.target?] at target
  | updating near updates => simp [← at', Control.updates?] at updates
  | failing near exit => simp [← at', Control.isExit] at exit

end

theorem Errand.stage {base : List Frame} {Got : NodeId → Prop} (step : Errand w t w' t')
    (stage : Stage n base Got t.control t.stack) : Stage n base Got t'.control t'.stack := by
  obtain ⟨stack, control⟩ := step.frames
  rw [stack]
  rcases control with same | exit
  · rw [same]
    exact stage
  · generalize t.stack = s at stage
    generalize t.control = c at stage
    cases stage with
    | running near frame => exact .running near frame
    | asked near | forcing near | updating near | giving near | rereading near | failing near =>
      exact .failing near exit

section

variable {base : List Frame} {Got : NodeId → Prop} {s : List Frame}

theorem Step.running_stage {gs : List Frame} {f : Frame} {claim : Bool} (step : Step w t w' t')
    (stack : t.stack = gs ++ f :: s) (near : Near n base s)
    (frame : f = .running n claim ∨ f = .settling n claim) :
    Stage n base Got t'.control t'.stack := by
  rcases step.stack_cases with ⟨fs, pushed⟩ | ⟨g, rest, top, popped⟩
  · rw [pushed, stack, ← List.append_assoc]
    exact .running near frame
  · rw [stack] at top
    cases gs with
    | cons h gs =>
      cases top
      rcases popped with ⟨⟨fs, is⟩, -⟩ | ⟨m, -, is⟩ | ⟨m, claim', -, is⟩
      · rw [is, List.append_eq, ← List.append_assoc]
        exact .running near frame
      · rw [is]
        exact .running near frame
      · rcases is with is | ⟨x, is, -⟩ | ⟨is, -⟩
        · rw [is]
          exact .running (g := .settling m claim' :: gs) near frame
        · rw [is]
          exact .running (g := .leaving m :: gs) near frame
        · rw [is]
          exact .running near frame
    | nil =>
      cases top
      rcases popped with ⟨-, other⟩ | ⟨m, is, -⟩ | ⟨m, claim', kind, is⟩
      · rcases frame with rfl | rfl <;> cases other
      · rcases frame with rfl | rfl <;> cases is
      · have same : m = n := by
          rcases frame with rfl | rfl <;> simp_all
        subst same
        rcases is with is | ⟨x, is, update⟩ | ⟨is, exit, -⟩
        · rw [is]
          exact .running (g := []) (f := .settling m claim') near (.inr rfl)
        · rw [is]
          exact .updating (near.push (.inr rfl)) (by simp [update, Control.updates?])
        · rw [is]
          exact .failing near exit

theorem HostStep.giving_stage (step : HostStep w t w' t') (at' : t.control = .give v)
    (near : Near n base t.stack) (above : t.stack ≠ base) (got : Got v) :
    Stage n base Got t'.control t'.stack := by
  cases step with
  | code _ host => simp [at', Control.isCode] at host
  | giveCode _ host top kind =>
    obtain ⟨rfl | rfl, -⟩ := near.pop top above <;> cases kind
  | giveAgain _ host top =>
    rw [at'] at host
    cases host
    exact .rereading (near.pop top above).2 got
  | giveRunning _ host top | giveSettling _ host top =>
    obtain ⟨is | is, -⟩ := near.pop top above <;> cases is
  | giveLeaving _ host top =>
    rw [at'] at host
    cases host
    exact .giving (near.pop top above).2 got
  | dropCode _ exit | dropAgain _ exit | dropEvaluation _ exit | dropLeaving _ exit =>
    simp [at', Control.isExit] at exit
  | _ => simp_all

theorem HostStep.failing_stage (step : HostStep w t w' t') (exit : t.control.isExit)
    (near : Near n base t.stack) (above : t.stack ≠ base) :
    Stage n base Got t'.control t'.stack := by
  cases step with
  | code _ host => cases is : t.control <;> simp_all [Control.isExit, Control.isCode]
  | dropCode _ _ top kind =>
    obtain ⟨rfl | rfl, -⟩ := near.pop top above <;> cases kind
  | dropAgain _ _ top | dropLeaving _ _ top => exact .failing (near.pop top above).2 exit
  | dropEvaluation _ _ top kind =>
    obtain ⟨rfl | rfl, -⟩ := near.pop top above <;> simp at kind
  | _ => simp_all [Control.isExit]

end

theorem Step.evaluate_cases (step : Step w t w' t') (idle : t.agenda = [])
    (at' : t.control = .evaluate n) :
    t'.stack = t.stack ∧ t'.control = .evaluate n ∨
    (∃ v, t'.stack = t.stack ∧ t'.control = .give v ∧ w.evaluated? n = some v) ∨
    t'.stack = .again :: t.stack ∧ t'.control = .enter n ∧ w.evaluated? n = none := by
  cases step with
  | stay => exact .inl ⟨rfl, at'⟩
  | errand step => cases step <;> simp_all
  | host step =>
    cases step with
    | code _ host => simp [at', Control.isCode] at host
    | dropCode _ exit | dropAgain _ exit | dropEvaluation _ exit | dropLeaving _ exit =>
      simp [at', Control.isExit] at exit
    | _ => simp_all
  | forcing step =>
    cases step with
    | evaluated _ is known =>
      rw [at'] at is
      cases is
      exact .inr (.inl ⟨_, rfl, rfl, known⟩)
    | evaluate _ is unknown =>
      rw [at'] at is
      cases is
      exact .inr (.inr ⟨rfl, rfl, unknown⟩)
    | _ => simp_all
  | waits step => cases step <;> simp_all
  | attempt step => cases step <;> simp_all

theorem World.evaluated?_of_thunk (thunk : (w.thunk? n).isSome) :
    w.evaluated? n = some v ↔ (w.slot n).cell = some (.value v) := by
  obtain ⟨th, found⟩ := Option.isSome_iff_exists.1 thunk
  rw [World.slot_of_thunk found, ← Slot.value?_eq_some]
  simp [World.evaluated?, World.thunk?_eq_some.1 found]

theorem World.evaluated?_of_value (value : w.IsValue n) : w.evaluated? n = some n := by
  obtain ⟨x, found⟩ := Option.isSome_iff_exists.1 value
  simp [World.evaluated?, World.value?_eq_some.1 found]

/-- An outcome stays, or is handed to the innermost frame. -/
theorem Step.outcome_cases (step : Step w t w' t') (idle : t.agenda = [])
    (outcome : t.control.isOutcome = true) :
    t'.stack = t.stack ∧ t'.control = t.control ∨ HostStep w t w' t' := by
  cases step with
  | stay => exact .inl ⟨rfl, rfl⟩
  | errand step => cases step <;> simp_all
  | host step => exact .inr step
  | forcing step => cases step <;> simp_all [Control.isOutcome]
  | waits step => cases step <;> simp_all [Control.isOutcome]
  | attempt step => cases step <;> simp_all [Control.isOutcome]

theorem Step.stage {base : List Frame} {Got : NodeId → Prop} (step : Step w t w' t')
    (noted : t.Noted) (stage : Stage n base Got t.control t.stack)
    (away : t.isBackAt base.length = false) (thunk : (w.thunk? n).isSome)
    (values : ∀ v, Got v → w.IsValue v) :
    Stage n base (fun v => Got v ∨ (w'.slot n).cell = some (.value v)) t'.control t'.stack := by
  cases next : t.agenda with
  | cons a as =>
    have grows := fun v (got : Got v) (_ : t'.control = .give v ∨ t'.control = .evaluate v) =>
      Or.inl (b := (w'.slot n).cell = some (.value v)) got
    cases step with
    | stay => exact stage.mono grows
    | errand step => exact (step.stage stage).mono grows
    | host step | forcing step | waits step | attempt step => cases step <;> simp_all
  | nil =>
    have read : ∀ v, (w.slot n).cell = some (.value v) → (w'.slot n).cell = some (.value v) := by
      intro v held
      exact step.value_kept noted held (by simp [next])
    generalize at' : t.control = c at stage
    generalize stack : t.stack = s at stage
    cases stage with
    | asked near =>
      rcases step.evaluate_cases next at' with
        ⟨same, stays⟩ | ⟨v, same, gives, known⟩ | ⟨pushed, enters, -⟩
      · rw [same, stays, stack]
        exact .asked near
      · rw [same, gives, stack]
        exact .giving near (.inr (read v ((World.evaluated?_of_thunk thunk).1 known)))
      · rw [pushed, enters, stack]
        exact .forcing (near.push (.inl rfl)) rfl
    | forcing near target =>
      rcases step.target_cases next (at' ▸ target) with ⟨same, there | exit | ⟨v, gives, held⟩⟩ |
        ⟨gs, claim, -, runs⟩
      · rw [same, stack]
        exact .forcing near there
      · rw [same, stack]
        exact .failing near exit
      · rw [same, gives, stack]
        exact .giving near (.inr (read v held))
      · rw [runs, stack]
        exact .running near (.inl rfl)
    | running near frame => exact step.running_stage stack near frame
    | updating near updates =>
      obtain ⟨same, there | ⟨v, gives, held⟩⟩ := step.update_cases next (at' ▸ updates) thunk
      · rw [same, stack]
        exact .updating near there
      · rw [same, gives, stack]
        exact .giving near (.inr (held.elim (read v) id))
    | @giving v _ near got =>
      have above : t.stack ≠ base := fun is => by simp [Thread.isBackAt, next, is, at'] at away
      rcases step.outcome_cases next (by rw [at']; rfl) with ⟨same, stays⟩ | step
      · rw [same, stays, at', stack]
        exact .giving near (.inl got)
      · exact step.giving_stage at' (stack ▸ near) above (.inl got)
    | @rereading v _ near got =>
      rcases step.evaluate_cases next at' with
        ⟨same, stays⟩ | ⟨x, same, gives, known⟩ | ⟨-, -, unknown⟩
      · rw [same, stays, stack]
        exact .rereading near (.inl got)
      · rw [World.evaluated?_of_value (values v got)] at known
        cases known
        rw [same, gives, stack]
        exact .giving near (.inl got)
      · rw [World.evaluated?_of_value (values v got)] at unknown
        cases unknown
    | failing near exit =>
      have above : t.stack ≠ base := fun is => by
        cases c <;> simp_all [Thread.isBackAt, Control.isExit]
      have outcome := Control.isOutcome_of_isExit (at' ▸ exit)
      rcases step.outcome_cases next outcome with ⟨same, stays⟩ | step
      · rw [same, stays, at', stack]
        exact .failing near exit
      · exact step.failing_stage (at' ▸ exit) (stack ▸ near) above

/-! ## Runs -/

def Thread.asks (t : Thread) (n : NodeId) : Bool :=
  match t.control with
  | .evaluate m | .enter m | .force m _ | .update m _ => m == n
  | _ => false

def Thread.gives (t : Thread) (v : NodeId) : Bool :=
  match t.control with
  | .give m => m == v
  | _ => false

theorem Thread.control_of_gives {v : NodeId} (gives : t.gives v = true) : t.control = .give v := by
  unfold Thread.gives at gives
  split at gives
  · rename_i at'
    rw [at', beq_iff_eq.1 gives]
  · cases gives

/-- The thread has `v` and hands it back. -/
def Thread.returns (t : Thread) (v : NodeId) : Bool :=
  match t.control with
  | .give m | .evaluate m => m == v
  | _ => false

namespace Run

variable (run : Run)

/-- Thread `i` is asked for the result of thunk `n` at time `a`, over `depth` frames, and it is back
with `v` at time `b`. -/
structure Forces (i : ThreadId) (n v : NodeId) (a b depth : Nat) : Prop where
  le : a ≤ b
  thunk : ((run.state a).world.thunk? n).isSome
  asked : ((run.state a).threads[i]?).any fun t => t.asks n && t.stack.length == depth
  away : ∀ k < b, a ≤ k → ((run.state k).threads[i]?).any (·.isBackAt depth) = false
  back : ((run.state b).threads[i]?).any fun t => t.isBackAt depth && t.gives v

/-- At time `c` thread `i` has `v`, the slot of `n` holds it, and the thread hands it back until
time `k`. -/
structure Gets (i : ThreadId) (n v : NodeId) (c k : Nat) : Prop where
  le : c ≤ k
  held : ((run.state c).world.slot n).cell = some (.value v)
  returns : ∀ d ≤ k, c ≤ d → ((run.state d).threads[i]?).any (·.returns v)

variable {run}

theorem Gets.later {i : ThreadId} {n v : NodeId} {c k : Nat} (gets : run.Gets i n v c k)
    (returns : ((run.state (k + 1)).threads[i]?).any (·.returns v)) :
    run.Gets i n v c (k + 1) := by
  refine ⟨Nat.le_succ_of_le gets.le, gets.held, ?_⟩
  intro d high low
  rcases Nat.lt_succ_iff_lt_or_eq.1 (Nat.lt_succ_of_le high) with before | rfl
  · exact gets.returns d (Nat.lt_succ_iff.1 before) low
  · exact returns

theorem gets_now {i : ThreadId} {n v : NodeId} {k : Nat}
    (held : ((run.state k).world.slot n).cell = some (.value v))
    (returns : ((run.state k).threads[i]?).any (·.returns v)) : run.Gets i n v k k := by
  refine ⟨Nat.le_refl k, held, ?_⟩
  intro d high low
  rw [Nat.le_antisymm high low]
  exact returns

theorem stage {i : ThreadId} {n : NodeId} {a k : Nat} {t : Thread} (hands : run.HandsValues)
    (thunk : ((run.state a).world.thunk? n).isSome) (found : (run.state a).threads[i]? = some t)
    (asks : t.asks n) (le : a ≤ k)
    (away : ∀ m < k, a ≤ m → ((run.state m).threads[i]?).any (·.isBackAt t.stack.length) = false) :
    ∃ u, (run.state k).threads[i]? = some u ∧
      Stage n t.stack (fun v => ∃ c, a ≤ c ∧ run.Gets i n v c k) u.control u.stack := by
  induction le with
  | refl =>
    refine ⟨t, found, ?_⟩
    unfold Thread.asks at asks
    split at asks <;> rename_i is <;> simp only [beq_iff_eq, Bool.false_eq_true] at asks <;>
      subst asks <;> rw [is]
    · exact .asked (Near.refl _)
    · exact .forcing (Near.refl _) rfl
    · exact .forcing (Near.refl _) rfl
    · exact .updating (Near.refl _) rfl
  | @step k le ih =>
    obtain ⟨u, at', stage⟩ := ih fun m lt low => away m (Nat.lt_succ_of_lt lt) low
    obtain ⟨u', found', moved⟩ := (run.change k).thread at'
    have returns : ∀ v, u'.control = .give v ∨ u'.control = .evaluate v →
        ((run.state (k + 1)).threads[i]?).any (·.returns v) := by
      rintro v (is | is) <;> simp [found', Thread.returns, is]
    refine ⟨u', found', ?_⟩
    rcases moved with rfl | step
    · apply stage.mono
      rintro v ⟨c, low, gets⟩ back
      exact ⟨c, low, gets.later (returns v back)⟩
    · have after := step.stage (run.noted k i u at') stage
        (by simpa [at'] using away k (Nat.lt_succ_self k) le) ((run.evolves le).thunk n thunk) ?_
      · apply after.mono
        rintro v (⟨c, low, gets⟩ | held) back
        · exact ⟨c, low, gets.later (returns v back)⟩
        · exact ⟨k + 1, Nat.le_succ_of_le le, gets_now held (returns v back)⟩
      · rintro v ⟨c, -, gets⟩
        exact (run.evolves gets.le).isValue ((run.sound hands c).1 n v gets.held)

theorem Forces.gets {i : ThreadId} {n v : NodeId} {a b depth : Nat} (hands : run.HandsValues)
    (forces : run.Forces i n v a b depth) : ∃ c, a ≤ c ∧ run.Gets i n v c b := by
  obtain ⟨le, thunk, asked, away, back⟩ := forces
  simp only [Option.any_eq_true, Bool.and_eq_true, beq_iff_eq] at asked back
  obtain ⟨t, found, asks, rfl⟩ := asked
  obtain ⟨u, found', isBack, gives⟩ := back
  obtain ⟨u', same, stage⟩ := run.stage hands thunk found asks le away
  rw [found'] at same
  cases same
  unfold Thread.gives at gives
  split at gives
  · rename_i is
    simp only [beq_iff_eq] at gives
    rw [is, gives] at stage
    simp only [Thread.isBackAt, Bool.and_eq_true, beq_iff_eq] at isBack
    exact stage.got_of_back isBack.1.2
  · cases gives

/-- **Agreement.** Slots hold values only. When a call on a thunk gets the value that it returns,
the slot holds it, and keeps it until the thunk is reset, which may come before the call is back.
Between two resets, all calls return the same node. -/
theorem calls_agree (run : Run) (hands : run.HandsValues) :
    (∀ k n v, ((run.state k).world.slot n).cell = some (.value v) →
      (run.state k).world.IsValue v) ∧
    (∀ i n v a b depth, run.Forces i n v a b depth → (run.state b).world.IsValue v ∧
      ∃ c, a ≤ c ∧ run.Gets i n v c b ∧ ∀ d, c ≤ d →
        (∀ m, c ≤ m → m < d → ¬ (run.state m).Resets (run.move m) n) →
        ((run.state d).world.slot n).cell = some (.value v)) ∧
    (∀ n first last, (∀ m, first ≤ m → m < last → ¬ (run.state m).Resets (run.move m) n) →
      ∀ i v a b depth j v' a' b' depth', run.Forces i n v a b depth →
        run.Forces j n v' a' b' depth' →
        first ≤ a → b ≤ last → first ≤ a' → b' ≤ last → v = v') := by
  have keeps : ∀ {i n v c k}, run.Gets i n v c k → ∀ d, c ≤ d →
      (∀ m, c ≤ m → m < d → ¬ (run.state m).Resets (run.move m) n) →
      ((run.state d).world.slot n).cell = some (.value v) :=
    fun gets d le kept => run.value_kept le gets.held kept
  refine ⟨fun k => (run.sound hands k).1, ?_, ?_⟩
  · intro i n v a b depth forces
    obtain ⟨c, low, gets⟩ := forces.gets hands
    have value := (run.evolves gets.le).isValue ((run.sound hands c).1 n v gets.held)
    exact ⟨value, c, low, gets, keeps gets⟩
  · intro n first last kept i v a b depth j v' a' b' depth' one other low high low' high'
    obtain ⟨c, after, mine⟩ := one.gets hands
    obtain ⟨c', after', yours⟩ := other.gets hands
    have here := keeps mine last (Nat.le_trans mine.le high) fun m above =>
      kept m (Nat.le_trans low (Nat.le_trans after above))
    have there := keeps yours last (Nat.le_trans yours.le high') fun m above =>
      kept m (Nat.le_trans low' (Nat.le_trans after' above))
    rw [here] at there
    cases there
    rfl

/-- Two tasks run the same thunk, and the second one comes too late to install its own result. -/
def race : Run :=
  .ofMoves {}
    ([.thunk (.prim (.box (.scalar (.int 7))) []) [], .sit false, .sit false, .evaluate 0 0,
      .evaluate 1 0] ++ (List.range 48).map fun k => .step (k % 2))
    (by decide +kernel)

theorem calls_agree_race :
    race.HandsValues ∧ race.Forces 0 0 1 12 46 0 ∧ race.Forces 1 0 1 13 53 0 ∧
      (race.state 53).world.IsValue 1 ∧ ∃ c, 13 ≤ c ∧ race.Gets 1 0 1 c 53 := by
  have hands : race.HandsValues :=
    ofMoves_forall (P := fun s => ∀ t ∈ s.threads, t.handsValue s.world = true)
      (by decide +kernel)
  have first : race.Forces 0 0 1 12 46 0 :=
    ⟨by decide, by decide +kernel, by decide +kernel, by decide +kernel, by decide +kernel⟩
  have second : race.Forces 1 0 1 13 53 0 :=
    ⟨by decide, by decide +kernel, by decide +kernel, by decide +kernel, by decide +kernel⟩
  obtain ⟨value, c, low, gets, -⟩ := (calls_agree race hands).2.1 1 0 1 13 53 0 second
  exact ⟨hands, first, second, value, c, low, gets⟩

/-- A task has installed the value of a constant and not returned yet when another one reverts the
registry. -/
def undone : Run :=
  .ofMoves {}
    ([.keep "r" true, .sit false, .sit false,
        .start 0 (.constant "r" (.prim (.box (.scalar (.int 7))) [])) {} true true] ++
      List.replicate 3 (.step 0) ++ [.evaluate 0 0] ++ List.replicate 18 (.step 1) ++
      [.start 1 (.prim (.revert "r") []) {} true true] ++ List.replicate 6 (.step 2) ++
      List.replicate 3 (.step 1))
    (by decide +kernel)

/-- The slot need not hold the value any more when the call returns it. -/
theorem calls_agree_undone :
    undone.HandsValues ∧ undone.Forces 1 0 1 12 36 0 ∧
      ((undone.state 36).world.slot 0).cell = none :=
  ⟨ofMoves_forall (P := fun s => ∀ t ∈ s.threads, t.handsValue s.world = true) (by decide +kernel),
    ⟨by decide, by decide +kernel, by decide +kernel, by decide +kernel, by decide +kernel⟩,
    by decide +kernel⟩

end Run

end LazyGraph

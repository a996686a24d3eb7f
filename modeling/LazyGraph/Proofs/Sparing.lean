import LazyGraph.Proofs.Records
import LazyGraph.Proofs.Selections

/-!
# Evaluation under a frame

While a thread has a frame for a thunk, whatever it evaluates on top leaves this thunk as it is.
Only a claim may be taken, which is given up at once, because the thunk is found under evaluation.
-/

namespace LazyGraph

/-! ## What concerns a thunk -/

/-- The thunk that the thread is to update or to start, or whose slot a host looks at. -/
def Control.aim? : Control → Option NodeId
  | .update n _ | .install n _ _ | .probe _ n | .exchange n _ _ | .body n _ | .start n true =>
    some n
  | _ => none

/-- The thunk whose slot or code the errand takes away. -/
def Action.aim? : Action → Option NodeId
  | .overwrite n _ | .clear n | .abandon n | .surrender n _ => some n
  | _ => none

/-- Nothing that the thread does next concerns thunk `n`. -/
structure Thread.Spares (t : Thread) (n : NodeId) : Prop where
  control : t.control.aim? ≠ some n
  errands : ∀ a ∈ t.agenda, a.aim? ≠ some n

variable {w w' : World} {t t' : Thread} {n : NodeId} {claim : Bool}

theorem Control.aim?_of_isCalm {c : Control} (calm : c.isCalm) : c.aim? = none := by
  cases c <;> first | rfl | cases calm

theorem Action.aim?_of_isReport {a : Action} (report : a.isReport) : a.aim? = none := by
  cases a <;> first | rfl | cases report

theorem spared_of_giveUp {m : NodeId} (other : m ≠ n ∨ claim = false) :
    ∀ a ∈ giveUp m claim, a.aim? ≠ some n := by
  cases claim with
  | false => simp [giveUp]
  | true => simpa [giveUp, Action.aim?] using other

theorem aim?_of_afterSurrender {me : TaskId} {seen : Slot} :
    ∀ a ∈ afterSurrender me seen, a.aim? = none := by
  cases found : seen.queue? <;> simp [afterSurrender, found, wakeQueue, Action.aim?]

theorem aim?_of_afterInstall {me : TaskId} {seen : Slot} :
    ∀ a ∈ Thread.afterInstall me seen, a.aim? = none := by
  unfold Thread.afterInstall
  split
  · simp
  · split <;> simp [wakeQueue, Action.aim?]
  · split <;> simp [Action.aim?]
  · simp [Action.aim?]

/-! ## Steps -/

theorem Errand.spares (step : Errand w t w' t') (spares : t.Spares n) : t'.Spares n := by
  obtain ⟨control, errands⟩ := spares
  have rest : ∀ {a : Action} {as : List Action}, t.agenda = a :: as →
      a.aim? ≠ some n ∧ ∀ b ∈ as, b.aim? ≠ some n := fun next => by
    rw [next] at errands
    exact List.forall_mem_cons.1 errands
  cases step with
  | stand => exact ⟨control, errands⟩
  | refuse next => exact ⟨by simp [Control.aim?], (rest next).2⟩
  | drain next reports =>
    refine ⟨control, List.forall_mem_append.2 ⟨List.forall_mem_append.2 ⟨?_, ?_⟩, (rest next).2⟩⟩
    · simp [Action.aim?]
    · intro a known
      simp [Action.aim?_of_isReport (reports a known)]
  | @overwrite m v as next =>
    refine ⟨control, List.forall_mem_append.2 ⟨?_, (rest next).2⟩⟩
    cases (w.slot m).queue? <;> simp [Action.aim?]
  | surrendered next =>
    refine ⟨control, List.forall_mem_append.2 ⟨?_, (rest next).2⟩⟩
    intro a known
    simp [aim?_of_afterSurrender a known]
  | abandonOwn next | surrenderMissed next =>
    exact ⟨control, List.forall_mem_cons.2 ⟨(rest next).1, (rest next).2⟩⟩
  | dismissListed next =>
    exact ⟨control, by simpa [Action.aim?] using (rest next).2⟩
  | quiet next | wake next | «seal» next | sweep next | examined next | examineClosed next
  | examineOpen next | inspectResolved next | inspectOpen next | dismissed next | dismissOther next
  | abandonOther next => exact ⟨control, by simpa [Action.aim?] using (rest next).2⟩

theorem HostStep.spares (step : HostStep w t w' t') (spares : t.Spares n)
    (honest : t.touches = false)
    (top : t.agenda = [] → ∀ f rest, t.stack = f :: rest → t.control.isOutcome →
      f.thunk? ≠ some n)
    (reverts : t.agenda = [] → ∀ r, t.control = .revert r → .overwrite n none ∉ t'.agenda) :
    t'.Spares n := by
  obtain ⟨control, errands⟩ := spares
  have calm : ∀ {c : Control}, c.isCalm → c.aim? ≠ some n := fun calm => by
    simp [Control.aim?_of_isCalm calm]
  have exits : t.control.isExit → t.control.isOutcome ∧ t.control.aim? ≠ some n := fun exit =>
    ⟨Control.isOutcome_of_isExit exit, calm (Control.isCalm_of_isExit exit)⟩
  cases step with
  | code _ _ _ _ calm' reports =>
    refine ⟨calm calm', ?_⟩
    rcases reports with reports | ⟨g, m, rfl, -⟩
    · intro a known
      simp [Action.aim?_of_isReport (reports a known)]
    · simp [Action.aim?]
  | @attempt op _ _ _ _ host raw => cases op <;> simp_all [Thread.touches, ThunkOp.isRaw]
  | abandon _ host | clear _ host | reset _ host | set _ host | update _ host =>
    simp [Thread.touches, host] at honest
  | revert idle host _ resets =>
    refine ⟨by simp [Control.aim?], fun a known => ?_⟩
    rcases resets a known with ⟨m, rfl⟩ | rfl | report
    · rintro is
      cases is
      exact reverts idle _ host known
    · simp [Action.aim?]
    · simp [Action.aim?_of_isReport report]
  | giveCode _ _ _ _ _ _ calm' => exact ⟨calm calm', errands⟩
  | @giveSettling v m claim rest idle host is =>
    have other := top idle _ _ is (by rw [host]; rfl)
    exact ⟨by simpa [Control.aim?, Frame.thunk?] using other, by simp [Action.aim?]⟩
  | dropCode _ exit _ _ caught =>
    refine ⟨?_, errands⟩
    rcases caught with rfl | ⟨code, env, rfl⟩
    · exact (exits exit).2
    · simp [Control.aim?]
  | dropAgain _ exit | dropLeaving _ exit => exact ⟨(exits exit).2, errands⟩
  | @dropEvaluation f m claim rest e idle exit is kind reports =>
    have other := top idle _ _ is (exits exit).1
    have thunk : f.thunk? = some m := by rcases kind with rfl | rfl <;> rfl
    refine ⟨(exits exit).2, List.forall_mem_append.2 ⟨fun a known => ?_, ?_⟩⟩
    · simp [Action.aim?_of_isReport (reports a known)]
    · exact spared_of_giveUp (.inl fun same => other (by rw [thunk, same]))
  | blackHole | giveAgain | giveRunning | giveLeaving => exact ⟨by simp [Control.aim?], errands⟩

theorem Forcing.spares (step : Forcing w t w' t') (spares : t.Spares n)
    (active : (w.context t.context).stack.push? n = none)
    (missed : t.agenda = [] → ∀ seen, t.control = .seize n seen →
      (w.slot n).unchanged seen = false) :
    t'.Spares n := by
  obtain ⟨control, errands⟩ := spares
  have calm : ∀ {c : Control}, c.isCalm → c.aim? ≠ some n := fun calm => by
    simp [Control.aim?_of_isCalm calm]
  cases step with
  | enterFailed _ _ reports =>
    refine ⟨by simp [Control.aim?], fun a known => ?_⟩
    simp [Action.aim?_of_isReport (reports a known)]
  | @seized m seen e idle at' same =>
    have other : m ≠ n := by
      rintro rfl
      simp [missed idle seen at'] at same
    exact ⟨by simpa [Control.aim?] using other, by simp [Action.aim?]⟩
  | @started m claim stack _ at' pushed =>
    refine ⟨?_, errands⟩
    rintro is
    cases is
    rw [active] at pushed
    cases pushed
  | @startLoop m claim e _ at' =>
    refine ⟨by simp [Control.aim?], List.forall_mem_cons.2 ⟨by simp [Action.aim?], ?_⟩⟩
    refine spared_of_giveUp ?_
    cases claim with
    | false => exact .inr rfl
    | true => exact .inl (by simpa [at', Control.aim?] using control)
  | body _ _ _ calm' => exact ⟨calm calm', errands⟩
  | @released m claim _ at' =>
    refine ⟨by simp [Control.aim?], spared_of_giveUp (.inl ?_)⟩
    simpa [at', Control.aim?] using control
  | @update m v _ at' => exact ⟨by simpa [at', Control.aim?] using control, errands⟩
  | @installed m v seen e _ at' =>
    have other : m ≠ n := by simpa [at', Control.aim?] using control
    refine ⟨by simp [Control.aim?], ?_⟩
    refine List.forall_mem_cons.2 ⟨by simpa [Action.aim?] using other, ?_⟩
    refine List.forall_mem_append.2 ⟨fun a known => ?_, by simp [Action.aim?]⟩
    simp [aim?_of_afterInstall a known]
  | @installMissed m v seen _ at' =>
    exact ⟨by simpa [at', Control.aim?] using control, errands⟩
  | loop | recheckFailed | updateLost => exact ⟨by simp [Control.aim?], by simp [Action.aim?]⟩
  | evaluated | evaluate | enter | take | share | done | await | seizeMissed | recheck =>
    exact ⟨by simp [Control.aim?], errands⟩

theorem Waits.spares (step : Waits w t w' t') (spares : t.Spares n) : t'.Spares n := by
  obtain ⟨control, errands⟩ := spares
  have reported : ∀ {e : List Action}, (∀ a ∈ e, a.isReport) → ∀ a ∈ e, a.aim? ≠ some n :=
    fun reports a known => by simp [Action.aim?_of_isReport (reports a known)]
  cases step with
  | enlist _ _ _ gates | enlisted _ _ _ gates =>
    refine ⟨by simp [Control.aim?], fun a known => ?_⟩
    obtain ⟨g, rfl⟩ := gates a known
    simp [Action.aim?]
  | @proceed x blocked _ _ _ _ reports | @published x blocked _ _ _ _ _ _ reports =>
    exact ⟨by cases blocked <;> simp [Control.aim?], reported reports⟩
  | loop | confirm | publishMissed => exact ⟨by simp [Control.aim?], by simp [Action.aim?]⟩
  | busy | asleep => exact ⟨control, errands⟩
  | _ => exact ⟨by simp [Control.aim?], errands⟩

theorem Attempt.spares (step : Attempt w t w' t') (spares : t.Spares n) : t'.Spares n := by
  obtain ⟨control, errands⟩ := spares
  cases step with
  | @probe op m cell _ at' => exact ⟨by simpa [at', Control.aim?] using control, errands⟩
  | _ => exact ⟨by simp [Control.aim?], errands⟩

theorem Step.spares (step : Step w t w' t') (spares : t.Spares n) (honest : t.touches = false)
    (active : (w.context t.context).stack.push? n = none)
    (missed : t.agenda = [] → ∀ seen, t.control = .seize n seen →
      (w.slot n).unchanged seen = false)
    (top : t.agenda = [] → ∀ f rest, t.stack = f :: rest → t.control.isOutcome →
      f.thunk? ≠ some n)
    (reverts : t.agenda = [] → ∀ r, t.control = .revert r → .overwrite n none ∉ t'.agenda) :
    t'.Spares n := by
  cases step with
  | stay => exact spares
  | errand step => exact step.spares spares
  | host step => exact step.spares spares honest top reverts
  | forcing step => exact step.spares spares active missed
  | waits step => exact step.spares spares
  | attempt step => exact step.spares spares

variable {S : Suspension} {σ : Slot}

/-- Such a step leaves thunk `n` alone otherwise. -/
theorem Thread.Spares.thunk (spares : t.Spares n) (noted : t.Noted) (entitled : t.Entitled w)
    (foreign : ∀ o, t.control.owner? = some o → o ≠ t.me w) (found : w.thunk? n = some ⟨S, σ⟩)
    (held : σ.Held claim (t.me w)) :
    (t.step w).1.thunk? n = some ⟨S, σ⟩ ∨
      σ.cell = none ∧ t.agenda = [] ∧ ∃ seen, t.control = .seize n seen := by
  have slot := World.slot_of_thunk found
  have first : ∀ {a : Action} {as : List Action}, t.agenda = a :: as → a.aim? ≠ some n :=
    fun next => spares.errands _ (by simp [next])
  have known : w.suspension? n = some S := by simp [World.suspension?, found]
  have kept : (t.step w).1.suspension? n = some S := by
    rcases (growth_step w t).suspensions with retains | ⟨m, as, next, released⟩
    · exact retains.kept n S known
    · have other : n ≠ m := fun is => first next (by rw [is]; rfl)
      rw [released, World.suspension?_release, if_neg other, known]
  rcases (step_cases w t).transition noted entitled foreign n with same | transition
  · obtain ⟨th, there, is⟩ := World.suspension?_eq_some.1 kept
    refine .inl (there.trans (congrArg some ?_))
    rw [World.slot_of_thunk there, slot] at same
    cases th
    cases is
    cases same
    rfl
  · have cell : σ.cell = none ∨ σ.cell = some (.blackHole (t.me w)) := by
      cases claim
      · exact .inl held
      · exact .inr held
    rw [slot] at transition
    generalize before : σ.cell = old, ((t.step w).1.slot n).cell = new at transition cell
    cases transition with
    | enter idle at' => exact .inr ⟨rfl, idle, _, at'⟩
    | claim _ at' | tryLock _ at' | unlock _ at' =>
      exact absurd (by rw [at']; rfl) spares.control
    | lock _ _ other => exact absurd (by simpa using cell) other
    | publish => simp at cell
    | abandon next => exact absurd rfl (first next)
    | update _ at' => exact absurd (by rw [at']; rfl) spares.control
    | overwrite next => exact absurd rfl (first next)

/-- A step under a frame for `n` concerns `n` only if it takes a claim on it. -/
theorem Thread.Spares.step (spares : t.Spares n) (noted : t.Noted) (entitled : t.Entitled w)
    (foreign : ∀ o, t.control.owner? = some o → o ≠ t.me w) (found : w.thunk? n = some ⟨S, σ⟩)
    (held : σ.Held claim (t.me w)) (honest : t.touches = false)
    (active : (w.context t.context).stack.push? n = none)
    (top : t.agenda = [] → ∀ f rest, t.stack = f :: rest → t.control.isOutcome →
      f.thunk? ≠ some n)
    (reverts : t.agenda = [] → ∀ r, t.control = .revert r →
      .overwrite n none ∉ (t.step w).2.agenda) :
    ((t.step w).2.Spares n ∧ (t.step w).1.thunk? n = some ⟨S, σ⟩) ∨
      claim = false ∧ t.step w = (w.write n (some (.blackHole (t.me w))),
        { t with agenda := [.emit (.claimed n (t.me w))], control := .start n true }) := by
  have slot := World.slot_of_thunk found
  have free : ∀ seen, t.control = .seize n seen → seen.cell = none := fun seen at' => by
    have known := noted.control
    rwa [at'] at known
  by_cases seizes : t.agenda = [] ∧ σ.cell = none ∧ ∃ seen, t.control = .seize n seen
  · obtain ⟨idle, empty, seen, at'⟩ := seizes
    have same : σ.unchanged seen = true := by simp [Slot.unchanged, empty, free seen at']
    refine .inr ⟨?_, ?_⟩
    · cases claim with
      | false => rfl
      | true => exact absurd ((show σ.cell = some _ from held).symm.trans empty) (by simp)
    · simp [Thread.step_idle idle, Thread.proceed, at', Thread.seize, World.exchange?, slot, same,
        Thread.plan, idle, Thread.me, World.taskOf_write]
  · refine .inl ⟨(step_cases w t).spares spares honest active ?_ top reverts, ?_⟩
    · intro idle seen at'
      by_contra same
      have empty := Slot.cell_of_unchanged (by simpa [slot] using same)
      exact seizes ⟨idle, empty.trans (free seen at'), seen, at'⟩
    · rcases spares.thunk noted entitled foreign found held with kept | ⟨empty, idle, seizing⟩
      · exact kept
      · exact absurd ⟨idle, empty, seizing⟩ seizes

/-! ## A claim taken and given up -/

/-- The thread has taken a claim on a thunk that it has under evaluation. -/
inductive Retreating (n : NodeId) (S : Suspension) (frames : List Frame) (me : TaskId) :
    Nat → Thunk → List Action → Control → List Frame → Prop
  | claimed {slot e} (own : slot.Held true me) :
    Retreating n S frames me 6 ⟨S, slot⟩ [.emit e] (.start n true) frames
  | start {slot} (own : slot.Held true me) :
    Retreating n S frames me 5 ⟨S, slot⟩ [] (.start n true) frames
  | yielding {r th as c fs} (phase : Yielding n S (.fail (.loop n)) frames me r th as c fs) :
    Retreating n S frames me r th as c fs

variable {th : Thunk} {frames : List Frame} {r : Nat} {me : TaskId}

theorem Retreating.step (found : w.thunk? n = some th)
    (phase : Retreating n S frames (t.me w) r th t.agenda t.control t.stack) (left : r ≠ 0)
    (active : (w.context t.context).stack.push? n = none) :
    Phase.Steps (Retreating n S frames) n w t r := by
  generalize next : t.agenda = agenda at phase
  generalize at' : t.control = control at phase
  generalize stack : t.stack = fs at phase
  cases phase with
  | claimed own =>
    refine Phase.steps 5 (by decide) (Thread.step_emit next) (by rwa [World.thunk?_emit]) ?_
    rw [at', stack]
    exact .start own
  | start own =>
    have is : t.step w = (w, { t with
        agenda := [.emit (.fatal (t.me w) (.loop n)), .abandon n]
        control := .fail (.loop n) }) := by
      simp [Thread.step_idle next, Thread.proceed, at', Thread.start, active, Thread.plan, next]
    refine Phase.steps 4 (by decide) is found ?_
    rw [stack]
    exact .yielding (.report own)
  | yielding phase =>
    obtain ⟨r', less, th', thunk, phase'⟩ := Yielding.step found (next ▸ at' ▸ stack ▸ phase) left
    exact ⟨r', less, th', thunk, .yielding phase'⟩

theorem Retreating.busy {as : List Action} {c : Control} {fs : List Frame}
    (phase : Retreating n S frames me r th as c fs) (left : r ≠ 0) :
    (as ≠ [] ∨ c.isOutcome = false) ∧ (∀ g bs, as ≠ .gate g :: bs) ∧ fs = frames := by
  cases phase with
  | claimed => exact ⟨.inl (by simp), by simp, rfl⟩
  | start => exact ⟨.inr rfl, by simp, rfl⟩
  | yielding phase =>
    cases phase with
    | freed => exact absurd rfl left
    | _ => exact ⟨.inl (by simp), by simp, rfl⟩

theorem Retreating.done {as : List Action} {c : Control} {fs : List Frame}
    (phase : Retreating n S frames me 0 th as c fs) :
    ∃ slot : Slot, slot.cell = none ∧ th = ⟨S, slot⟩ ∧ as = [] ∧ c = .fail (.loop n) := by
  cases phase with
  | yielding phase =>
    obtain ⟨slot, free, same, idle, is, -⟩ := phase.done
    exact ⟨slot, free, same, idle, is⟩

/-- How a thread with a frame for `n`, and with or without a claim, stands to `n` while it evaluates
on top of this frame. -/
inductive Sheltered (n : NodeId) (S : Suspension) (claim : Bool) (me : TaskId) :
    Thunk → Thread → Prop
  | spared {slot} {u : Thread} (spares : u.Spares n) (held : slot.Held claim me) :
    Sheltered n S claim me ⟨S, slot⟩ u
  | retreating {r : Nat} {th : Thunk} {fs : List Frame} {u : Thread} (unclaimed : claim = false)
    (phase : Retreating n S fs me r th u.agenda u.control u.stack) (left : r ≠ 0) :
    Sheltered n S claim me th u

theorem Sheltered.step (found : w.thunk? n = some th)
    (sheltered : Sheltered n S claim (t.me w) th t)
    (noted : t.Noted) (entitled : t.Entitled w)
    (foreign : ∀ o, t.control.owner? = some o → o ≠ t.me w) (honest : t.touches = false)
    (active : (w.context t.context).stack.push? n = none)
    (top : t.agenda = [] → ∀ f rest, t.stack = f :: rest → t.control.isOutcome →
      f.thunk? ≠ some n)
    (reverts : t.agenda = [] → ∀ r, t.control = .revert r →
      .overwrite n none ∉ (t.step w).2.agenda) :
    ∃ th', (t.step w).1.thunk? n = some th' ∧ Sheltered n S claim (t.me w) th' (t.step w).2 := by
  cases sheltered with
  | spared spares held =>
    rcases spares.step noted entitled foreign found held honest active top reverts with
      ⟨spares', thunk⟩ | ⟨unclaimed, is⟩
    · exact ⟨_, thunk, .spared spares' held⟩
    · rw [is]
      exact ⟨_, World.thunk?_write_self found _,
        .retreating unclaimed (.claimed (Slot.cell_write _ _)) (by decide)⟩
  | retreating unclaimed phase left =>
    obtain ⟨r', -, th', thunk, phase'⟩ := phase.step found left active
    rcases Nat.eq_zero_or_pos r' with rfl | later
    · obtain ⟨slot, free, rfl, idle, is⟩ := phase'.done
      refine ⟨_, thunk, .spared ⟨by simp [is, Control.aim?], by simp [idle]⟩ ?_⟩
      rw [unclaimed]
      exact Slot.held_of_free free
    · exact ⟨th', thunk, .retreating unclaimed phase' (Nat.ne_of_gt later)⟩

theorem Retreating.suspension {as : List Action} {c : Control} {fs : List Frame}
    (phase : Retreating n S frames me r th as c fs) : th.suspension = S := by
  cases phase with
  | claimed | start => rfl
  | yielding phase => cases phase <;> rfl

theorem Sheltered.suspension (sheltered : Sheltered n S claim me th t) : th.suspension = S := by
  cases sheltered with
  | spared => rfl
  | retreating _ phase => exact phase.suspension

theorem Sheltered.pass {g : String} {as : List Action} (sheltered : Sheltered n S claim me th t)
    (next : t.agenda = .gate g :: as) : Sheltered n S claim me th { t with agenda := as } := by
  cases sheltered with
  | spared spares held =>
    refine .spared ⟨spares.control, fun a known => spares.errands a ?_⟩ held
    simp [next, show a ∈ as from known]
  | retreating _ phase left => exact absurd next ((phase.busy left).2.1 g as)

/-- What a thread has got, it has got without a claim left to give up. -/
theorem Sheltered.held (sheltered : Sheltered n S claim me th t) (idle : t.agenda = [])
    (outcome : t.control.isOutcome = true) : th.slot.Held claim me := by
  cases sheltered with
  | spared _ held => exact held
  | retreating _ phase left =>
    rcases (phase.busy left).1 with busy | inside
    · exact absurd idle busy
    · simp [outcome] at inside

theorem Thread.not_top {f : Frame} {fs base rest : List Frame}
    (nodup : t.evaluations.Nodup) (stack : t.stack = fs ++ base)
    (frame : n ∈ base.filterMap Frame.thunk?) (top : t.stack = f :: rest) (above : fs ≠ []) :
    f.thunk? ≠ some n := by
  intro is
  cases fs with
  | nil => exact above rfl
  | cons g gs =>
    obtain ⟨rfl, -⟩ := List.cons.inj (top.symm.trans stack)
    rw [Thread.evaluations, stack, List.cons_append, List.filterMap_cons_some is,
      List.filterMap_append] at nodup
    have inner := (List.nodup_append.1 nodup).2.1
    exact (List.nodup_cons.1 inner).1 (List.mem_append_right _ frame)

/-! ## Runs -/

namespace Run

variable {run : Run} {i : ThreadId} {a b k depth : Nat}

/-- From `a` to `b`, thread `i` does not read or write slots or code of thunks itself. -/
def Abstains (run : Run) (i : ThreadId) (a b : Nat) : Prop :=
  ∀ k, a ≤ k → k < b → ((run.state k).threads[i]?).any Thread.touches = false

/-- Only constants are reset by the reversal of a registry. -/
theorem not_reverted (whole : run.Whole) (found : (run.state k).threads[i]? = some t)
    (turn : run.move k = .step i) (idle : t.agenda = []) {r : String} (at' : t.control = .revert r)
    (known : (run.state k).world.suspension? n = some S) (plain : S.isConstant = false) :
    .overwrite n none ∉ (t.step (run.state k).world).2.agenda := by
  obtain ⟨world, after⟩ := own_step turn found
  cases busy : ((run.state k).world.registry r).busy with
  | true =>
    simp [Thread.step, idle, Thread.proceed, at', Thread.revert, busy]
  | false =>
    have locks : run.Locks i r k := ⟨turn, ⟨t, found, idle, at'⟩, busy⟩
    obtain ⟨u, v, there, -, -, later⟩ := locks.after
    rw [after] at later
    rw [Option.some.inj later]
    intro resets
    have listed : n ∈ ((run.state k).world.registry r).constants := by
      simp only [List.mem_append, List.mem_map, List.mem_filter] at resets
      rcases resets with ⟨m, ⟨listed, -⟩, is⟩ | other
      · cases is
        exact listed
      · simp at other
    obtain ⟨ds, holds⟩ := run.holds r k
    obtain ⟨c, lt, s, constant⟩ := holds.built listed
    have same := run.constant_kept whole lt constant rfl
    rw [known] at same
    cases same
    cases plain

theorem sheltered (whole : run.Whole) (calls : run.Calls i a b depth)
    (found : (run.state a).threads[i]? = some t) (frame : n ∈ t.stack.filterMap Frame.thunk?)
    (known : (run.state a).world.thunk? n = some ⟨S, σ⟩)
    (held : σ.Held claim (t.me (run.state a).world)) (plain : S.isConstant = false)
    (untouched : run.Untouched i n a b) (abstains : run.Abstains i a b) (le : a ≤ k) (le' : k ≤ b) :
    ∃ u th, (run.state k).threads[i]? = some u ∧ (run.state k).world.thunk? n = some th ∧
      Sheltered n S claim (u.me (run.state k).world) th u := by
  induction le with
  | refl =>
    obtain ⟨t', found', idle, call, -⟩ := calls.caller
    rw [found] at found'
    cases found'
    refine ⟨t, _, found, known, .spared ⟨?_, by simp [idle]⟩ held⟩
    cases at' : t.control <;> simp_all [Control.isCall, Control.aim?]
  | @step k le ih =>
    obtain ⟨u, th, there, thunk, sheltered⟩ := ih (Nat.le_of_succ_le le')
    by_cases turn : run.move k = .step i
    · obtain ⟨world, after⟩ := own_step turn there
      obtain ⟨u', there', -, fs, stack⟩ := calls.above found le (Nat.le_of_succ_le le')
      obtain ⟨u'', there'', runs⟩ := calls.runs le le'
      rw [there] at there' there''
      cases there'
      cases there''
      have tracks := (run.framed k).running i u there runs
      have member : n ∈ u.evaluations := by
        rw [Thread.evaluations, stack, List.filterMap_append]
        exact List.mem_append_right _ (List.mem_append_right _ frame)
      have at' : (run.state k).world.suspension? n = some S := by
        simp [World.suspension?, thunk, sheltered.suspension]
      obtain ⟨th', thunk', sheltered'⟩ := sheltered.step thunk (run.noted k i u there)
        (run.entitled k i u there) (fun o => (run.guarded k).foreign i u o there)
        (by simpa [there] using abstains k le le') (tracks.push?_eq_none.2 member)
        (fun idle f rest top outcome => Thread.not_top tracks.nodup stack frame top fun none => by
          have away := calls.away k le' le
          obtain ⟨t', found', -, -, height⟩ := calls.caller
          rw [found] at found'
          cases found'
          rw [none, List.nil_append] at stack
          cases at' : u.control <;>
            simp_all [Thread.isBackAt, Control.isOutcome])
        (fun idle r reverts => not_reverted whole there turn idle reverts at' plain)
      refine ⟨_, th', after, world ▸ thunk', ?_⟩
      rwa [world, (step_cases _ u).me]
    · have same := untouched k le le' turn
      have me := (run.change k).me (run.seats k) there
      rcases not_own_step turn there with stays | ⟨g, as, next, -, passed⟩
      · exact ⟨u, th, stays, same.trans thunk, me ▸ sheltered⟩
      · exact ⟨_, th, passed, same.trans thunk, (me ▸ sheltered).pass next⟩

/-- **What is evaluated under a frame leaves its thunk alone.** -/
theorem Calls.spares (whole : run.Whole) (calls : run.Calls i a b depth)
    (found : (run.state a).threads[i]? = some t) (frame : n ∈ t.stack.filterMap Frame.thunk?)
    (known : (run.state a).world.thunk? n = some ⟨S, σ⟩)
    (held : σ.Held claim (t.me (run.state a).world)) (plain : S.isConstant = false)
    (untouched : run.Untouched i n a b) (abstains : run.Abstains i a b) :
    ∃ u slot, (run.state b).threads[i]? = some u ∧ u.agenda = [] ∧ u.control.isOutcome = true ∧
      u.context = t.context ∧ u.stack = t.stack ∧
      (run.state b).world.thunk? n = some ⟨S, slot⟩ ∧
      slot.Held claim (u.me (run.state b).world) := by
  obtain ⟨u, there, idle, outcome, context, stack⟩ := calls.returned found
  obtain ⟨u', th, there', thunk, sheltered⟩ := sheltered whole calls found frame known held plain
    untouched abstains calls.le (Nat.le_refl b)
  rw [there] at there'
  cases there'
  obtain rfl := sheltered.suspension
  exact ⟨u, th.slot, there, idle, outcome, context, stack, thunk, sheltered.held idle outcome⟩

end Run

end LazyGraph

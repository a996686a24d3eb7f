import LazyGraph.Proofs.Agreement
import LazyGraph.Proofs.Custody
import LazyGraph.Proofs.Lifecycle

/-!
# Entries and duties

An entry of a thunk keeps whether it takes it, from the request to the end of the evaluation. A thread
has a duty for each place where it keeps a claim. Only taking a thunk makes a duty, and the owner of
a slot changes only when a duty ends.
-/

namespace LazyGraph

def ThunkOp.meddles : ThunkOp → Bool
  | .abandon | .reset | .set | .update => true
  | _ => false

/-- The host gives up a claim, or writes a slot without evaluating its thunk. -/
def Thread.meddles (t : Thread) : Bool :=
  match t.control with
  | .perform (.onThunk op) _ _ => op.meddles
  | .revert _ => true
  | _ => false

/-! ## Entries -/

/-- The entry that a control belongs to: a thunk, and whether it is to be taken. -/
def Control.entry? : Control → Option (NodeId × Bool)
  | .force n claim | .start n claim | .body n claim | .recheck n claim | .attach n claim
  | .lock n claim _ _ | .gather n claim _ _ | .join n claim _ _ | .suspend n claim
  | .parked n claim => some (n, claim)
  | .seize n _ => some (n, true)
  | .enlist x | .enrol x | .confirm x | .retract x | .enlisted x _ | .publish x _ =>
    some (x.thunk, x.claim)
  | _ => none

def Frame.entry? : Frame → Option (NodeId × Bool)
  | .running n claim | .settling n claim => some (n, claim)
  | _ => none

def Thread.entries (t : Thread) : List (NodeId × Bool) :=
  t.control.entry?.toList ++ t.stack.filterMap Frame.entry?

variable {w w' : World} {t t' : Thread} {n : NodeId} {claim : Bool} {e : NodeId × Bool}
  {fs : List Frame}

theorem Control.entry?_of_isCalm {c : Control} (calm : c.isCalm) : c.entry? = none := by
  cases c <;> first | rfl | cases calm

theorem Frame.entry?_of_isCode {f : Frame} (code : f.isCode) : f.entry? = none := by
  cases f <;> first | rfl | cases code

theorem entries_of_isCode (code : ∀ f ∈ fs, f.isCode) : fs.filterMap Frame.entry? = [] :=
  List.filterMap_eq_nil_iff.2 fun f known => Frame.entry?_of_isCode (code f known)

theorem HostStep.entry_origin (step : HostStep w t w' t')
    (at' : t'.control.entry? = some (n, claim)) :
    claim = true ∧ ∃ ns env, t.control = .perform .blackHole (n :: ns) env := by
  cases step with
  | blackHole _ host =>
    cases at'
    exact ⟨rfl, _, _, host⟩
  | code _ _ _ _ calm | giveCode _ _ _ _ _ _ calm =>
    rw [Control.entry?_of_isCalm calm] at at'
    cases at'
  | dropCode _ exit _ _ caught =>
    rcases caught with rfl | ⟨code, env, rfl⟩
    · rw [Control.entry?_of_isCalm (Control.isCalm_of_isExit exit)] at at'
      cases at'
    · cases at'
  | dropAgain _ exit | dropEvaluation _ exit | dropLeaving _ exit =>
    rw [Control.entry?_of_isCalm (Control.isCalm_of_isExit exit)] at at'
    cases at'
  | _ => cases at'

theorem Waits.entry (step : Waits w t w' t') (at' : t'.control.entry? = some e) :
    t.control.entry? = some e := by
  cases step with
  | loop | refuse => cases at'
  | busy | asleep => exact at'
  | @proceed x blocked _ _ is | @published x blocked _ _ _ is =>
    rw [is]
    cases blocked <;> exact at'
  | free _ is | lock _ is | join _ is | locked _ is | lockMissed _ is | gathered _ is
  | joined _ is | joinMissed _ is | enlist _ is | enrolled _ is | confirmClosed _ is
  | confirm _ is | retract _ is | enlisted _ is | publishMissed _ is | «suspend» _ is
  | resumed _ is =>
    rw [is]
    exact at'

theorem Forcing.entry_origin (step : Forcing w t w' t')
    (at' : t'.control.entry? = some (n, claim)) :
    t.control.entry? = some (n, claim) ∨ t.control = .enter n ∧ (w.thunk? n).isSome ∧
      claim = (w.context t.context).config.eager := by
  cases step with
  | enter _ is thunk mode =>
    cases at'
    exact .inr ⟨is, thunk, mode⟩
  | body _ _ _ calm =>
    rw [Control.entry?_of_isCalm calm] at at'
    cases at'
  | take _ is | share _ is | await _ is | seized _ is | seizeMissed _ is | started _ is
  | released _ is | recheck _ is =>
    rw [is]
    exact .inl at'
  | _ => cases at'

theorem Step.frame_origin (step : Step w t w' t') (known : e ∈ t'.stack.filterMap Frame.entry?) :
    e ∈ t.entries := by
  have old : ∀ {fs}, t.stack.filterMap Frame.entry? = fs → e ∈ fs → e ∈ t.entries :=
    fun is known => List.mem_append_right _ (is ▸ known)
  cases step with
  | stay => exact old rfl known
  | errand step => exact old rfl (step.frames.1 ▸ known)
  | host step =>
    cases step with
    | code _ _ _ frames =>
      rw [List.filterMap_append, entries_of_isCode frames] at known
      exact old rfl known
    | giveCode _ _ top kind _ frames =>
      rw [List.filterMap_append, entries_of_isCode frames, List.nil_append] at known
      exact old (by rw [top, List.filterMap_cons_none (Frame.entry?_of_isCode kind)]) known
    | dropCode _ _ top kind =>
      exact old (by rw [top, List.filterMap_cons_none (Frame.entry?_of_isCode kind)]) known
    | giveAgain _ _ top | giveRunning _ _ top | giveLeaving _ _ top | dropAgain _ _ top
    | dropLeaving _ _ top =>
      exact old (by rw [top]; rfl) known
    | giveSettling _ _ top =>
      exact old (by rw [top]; rfl) (List.mem_cons_of_mem _ known)
    | @dropEvaluation f m claim rest _ _ _ top kind =>
      have is : f.entry? = some (m, claim) := by rcases kind with rfl | rfl <;> rfl
      exact old (by rw [top, List.filterMap_cons_some is]) (List.mem_cons_of_mem _ known)
    | _ => exact old rfl known
  | forcing step =>
    cases step with
    | @body m claim fs c _ at' frames =>
      rw [List.filterMap_append, entries_of_isCode frames] at known
      rcases List.mem_cons.1 known with rfl | known
      · simp [Thread.entries, at', Control.entry?]
      · exact old rfl known
    | _ => exact old rfl known
  | waits step => cases step <;> exact old rfl known
  | attempt step => cases step <;> exact old rfl known

theorem Step.entry_origin (step : Step w t w' t') (known : (n, claim) ∈ t'.entries) :
    (n, claim) ∈ t.entries ∨
      (t.control = .enter n ∧ (w.thunk? n).isSome ∧ claim = (w.context t.context).config.eager) ∨
      claim = true ∧ ∃ ns env, t.control = .perform .blackHole (n :: ns) env := by
  rcases List.mem_append.1 known with at' | frame
  · have old : t.control.entry? = some (n, claim) → (n, claim) ∈ t.entries := fun is =>
      List.mem_append_left _ (by simp [is])
    rw [Option.mem_toList] at at'
    cases step with
    | stay => exact .inl (old at')
    | errand step =>
      rcases step.frames.2 with same | exit
      · exact .inl (old (same ▸ at'))
      · rw [Control.entry?_of_isCalm (Control.isCalm_of_isExit exit)] at at'
        cases at'
    | host step => exact .inr (.inr (step.entry_origin at'))
    | forcing step =>
      rcases step.entry_origin at' with is | entered
      · exact .inl (old is)
      · exact .inr (.inl entered)
    | waits step => exact .inl (old (step.entry at'))
    | attempt step => cases step <;> cases at'
  · exact .inl (step.frame_origin frame)

/-! ## Duties -/

/-- The thunks that the thread has taken and not yet updated or given up, once for each place where
it keeps one. -/
def Thread.duties (t : Thread) : List NodeId :=
  t.control.claim?.toList ++ (t.agenda.filterMap Action.claim? ++ t.stack.filterMap Frame.claim?)

def Action.isOverwrite : Action → Bool
  | .overwrite _ _ => true
  | _ => false

theorem Action.claim?_of_isReport {a : Action} (report : a.isReport) : a.claim? = none := by
  cases a <;> first | rfl | cases report

theorem claims_of_reports {as : List Action} (reports : ∀ a ∈ as, a.isReport) :
    as.filterMap Action.claim? = [] :=
  List.filterMap_eq_nil_iff.2 fun a known => Action.claim?_of_isReport (reports a known)

theorem claims_of_giveUp : (giveUp n claim).filterMap Action.claim? = if claim then [n] else [] := by
  cases claim <;> rfl

theorem claims_of_afterSurrender (me : TaskId) (seen : Slot) :
    (afterSurrender me seen).filterMap Action.claim? = [] := by
  unfold afterSurrender
  cases seen.queue? <;> rfl

theorem claims_of_afterInstall (me : TaskId) (seen : Slot) :
    (Thread.afterInstall me seen).filterMap Action.claim? = [] := by
  unfold Thread.afterInstall
  split
  · rfl
  · split <;> rfl
  · split <;> rfl
  · rfl

theorem Frame.claim?_of_isCode {f : Frame} (code : f.isCode) : f.claim? = none := by
  cases f <;> first | rfl | cases code

theorem claims_of_isCode (code : ∀ f ∈ fs, f.isCode) : fs.filterMap Frame.claim? = [] :=
  List.filterMap_eq_nil_iff.2 fun f known => Frame.claim?_of_isCode (code f known)

theorem Control.claim?_of_not_isFirm {c : Control} (soft : c.isFirm = false) : c.claim? = none := by
  cases c <;> first | rfl | cases soft

theorem Thread.duties_of_not_isFirm (soft : t.control.isFirm = false) :
    t.duties = t.agenda.filterMap Action.claim? ++ t.stack.filterMap Frame.claim? := by
  rw [duties, Control.claim?_of_not_isFirm soft]
  rfl

theorem claims_of_wakes (ms : List Message) :
    (ms.map fun m => Action.wake m.task).filterMap Action.claim? = [] :=
  List.filterMap_eq_nil_iff.2 fun a known => by
    obtain ⟨m, -, rfl⟩ := List.mem_map.1 known
    rfl

theorem claims_of_displaced (q : Option QueueId) :
    ((q.map fun q => [Action.drain q .silent]).getD []).filterMap Action.claim? = [] := by
  cases q <;> rfl

theorem Thread.duties_count_le
    (control : t'.control.claim? = t.control.claim? ∨ t'.control.claim? = none)
    (errands : (t'.agenda.filterMap Action.claim?).count n ≤
      (t.agenda.filterMap Action.claim?).count n)
    (frames : t'.stack.filterMap Frame.claim? = t.stack.filterMap Frame.claim?) :
    t'.duties.count n ≤ t.duties.count n := by
  simp only [duties, List.count_append, frames]
  refine Nat.add_le_add ?_ (Nat.add_le_add_right errands _)
  rcases control with same | none
  · exact Nat.le_of_eq (by rw [same])
  · rw [none]
    exact Nat.zero_le _

theorem Errand.claims_count (step : Errand w t w' t') :
    (t'.agenda.filterMap Action.claim?).count n ≤ (t.agenda.filterMap Action.claim?).count n := by
  have tail : ∀ {a : Action} {as}, t.agenda = a :: as →
      (as.filterMap Action.claim?).count n ≤ (t.agenda.filterMap Action.claim?).count n :=
    fun next => by
      rw [next]
      exact ((List.sublist_cons_self _ _).filterMap _).count_le _
  cases step with
  | stand => exact Nat.le_refl _
  | quiet next | refuse next | wake next | «seal» next | dismissed next | abandonOther next =>
    exact tail next
  | drain next reports =>
    simpa only [List.filterMap_append, claims_of_wakes, claims_of_reports reports, List.nil_append]
      using tail next
  | overwrite next =>
    simpa only [List.filterMap_append, claims_of_displaced, List.nil_append] using tail next
  | surrendered next =>
    simpa only [List.filterMap_append, claims_of_afterSurrender, List.nil_append] using tail next
  | sweep next | examined next | examineClosed next | examineOpen next | inspectResolved next
  | inspectOpen next | dismissOther next | dismissListed next | abandonOwn next
  | surrenderMissed next =>
    rw [next]
    exact Nat.le_refl _

theorem Errand.duties_count (step : Errand w t w' t') :
    t'.duties.count n ≤ t.duties.count n := by
  refine Thread.duties_count_le ?_ step.claims_count (by rw [step.frames.1])
  rcases step.frames.2 with same | exit
  · exact .inl (by rw [same])
  · exact .inr (Control.claim?_of_not_isFirm
      (Control.isFirm_of_isCalm (Control.isCalm_of_isExit exit)))

theorem HostStep.duties_count (step : HostStep w t w' t') (honest : t.meddles = false)
    (claims : ∀ claim, (n, claim) ∈ t.entries → claim = true) :
    t'.duties.count n ≤ t.duties.count n := by
  have before := t.duties_of_not_isFirm step.not_isFirm_before
  have calm : ∀ {t' : Thread}, t'.control.isFirm = false → t'.agenda.filterMap Action.claim? = [] →
      t'.stack.filterMap Frame.claim? = t.stack.filterMap Frame.claim? →
      t'.duties.count n ≤ t.duties.count n := by
    intro t' soft errands frames
    exact Thread.duties_count_le (.inr (Control.claim?_of_not_isFirm soft))
      (by rw [errands]; exact Nat.zero_le _) frames
  cases step with
  | code _ _ _ frames calm' reports =>
    refine calm (Control.isFirm_of_isCalm calm') ?_ ?_
    · rcases reports with reports | ⟨g, m, rfl, -⟩
      · exact claims_of_reports reports
      · rfl
    · rw [List.filterMap_append, claims_of_isCode frames, List.nil_append]
  | giveCode idle _ top kind _ frames calm' =>
    refine calm (Control.isFirm_of_isCalm calm') (by rw [idle]; rfl) ?_
    rw [List.filterMap_append, claims_of_isCode frames, List.nil_append, top,
      List.filterMap_cons_none (Frame.claim?_of_isCode kind)]
  | dropCode idle exit top kind caught =>
    refine calm ?_ (by rw [idle]; rfl) ?_
    · rcases caught with rfl | ⟨code, env, rfl⟩
      · exact Control.isFirm_of_isCalm (Control.isCalm_of_isExit exit)
      · rfl
    · rw [top, List.filterMap_cons_none (Frame.claim?_of_isCode kind)]
  | dropAgain idle exit top | dropLeaving idle exit top =>
    refine calm (Control.isFirm_of_isCalm (Control.isCalm_of_isExit exit)) (by rw [idle]; rfl) ?_
    rw [top]
    rfl
  | giveAgain idle _ top | giveLeaving idle _ top =>
    refine calm rfl (by rw [idle]; rfl) ?_
    rw [top]
    rfl
  | @giveRunning v m claim rest idle _ top =>
    refine calm rfl (by rw [idle]; rfl) ?_
    rw [top]
    cases claim <;> rfl
  | @giveSettling v m claim rest idle _ top =>
    rw [before, idle, top]
    by_cases same : m = n
    · subst same
      obtain rfl := claims claim (by simp [Thread.entries, top, Frame.entry?])
      exact Nat.le_refl _
    · have other : [m].count n = 0 := List.count_eq_zero.2 (by simpa using Ne.symm same)
      calc ([m] ++ rest.filterMap Frame.claim?).count n
        _ = (rest.filterMap Frame.claim?).count n := by rw [List.count_append, other, Nat.zero_add]
        _ ≤ _ := ((List.sublist_cons_self _ _).filterMap _).count_le _
  | @dropEvaluation f m claim rest as idle exit top kind reports =>
    have is : (f :: rest).filterMap Frame.claim? =
        (if claim then [m] else []) ++ rest.filterMap Frame.claim? := by
      rcases kind with rfl | rfl <;> cases claim <;> rfl
    rw [Thread.duties_of_not_isFirm (t := { t with agenda := as ++ giveUp m claim, stack := rest })
      (Control.isFirm_of_isCalm (Control.isCalm_of_isExit exit))]
    rw [before, idle, top, List.filterMap_append, claims_of_reports reports, claims_of_giveUp, is]
    exact Nat.le_refl _
  | abandon _ host | reset _ host | set _ host | update _ host =>
    simp [Thread.meddles, host, ThunkOp.meddles] at honest
  | revert _ host => simp [Thread.meddles, host] at honest
  | blackHole idle | attempt idle => exact calm rfl (by rw [idle]; rfl) rfl
  | clear => exact calm rfl rfl rfl

/-- The thread takes `n`, whose slot was empty. -/
structure Seizes (w : World) (t : Thread) (n : NodeId) (w' : World) (t' : Thread) : Prop where
  at' : ∃ seen, t.control = .seize n seen
  free : (w.slot n).cell = none
  hole : w' = w.write n (some (.blackHole (t.me w)))
  stack : t'.stack = t.stack
  count : t'.duties.count n ≤ t.duties.count n + 1

theorem Forcing.duties_count (step : Forcing w t w' t') (noted : t.Noted) :
    t'.duties.count n ≤ t.duties.count n ∨ Seizes w t n w' t' := by
  have same : ∀ {t' : Thread}, t'.control.claim? = t.control.claim? ∨ t'.control.claim? = none →
      t'.agenda.filterMap Action.claim? = [] → t'.stack = t.stack →
      t'.duties.count n ≤ t.duties.count n := fun control errands stack =>
    Thread.duties_count_le control (by rw [errands]; exact Nat.zero_le _) (by rw [stack])
  cases step with
  | @seized m seen e idle at' unchanged =>
    by_cases mine : m = n
    · subst mine
      have control := noted.1
      rw [at'] at control
      refine .inr ⟨⟨seen, at'⟩, (Slot.cell_of_unchanged unchanged).trans control, rfl, rfl, ?_⟩
      simp [Thread.duties, at', idle, List.filterMap_cons, Control.claim?, Action.claim?]
    · have other : [m].count n = 0 := List.count_eq_zero.2 (by simpa using Ne.symm mine)
      refine .inl ?_
      calc ([m] ++ t.stack.filterMap Frame.claim?).count n
        _ = (t.stack.filterMap Frame.claim?).count n := by
          rw [List.count_append, other, Nat.zero_add]
        _ ≤ t.duties.count n := by
          simp only [Thread.duties, List.count_append]
          omega
  | @startLoop m claim e idle at' =>
    refine .inl (Nat.le_of_eq ?_)
    cases claim <;>
      simp [Thread.duties, idle, at', List.filterMap_cons, Control.claim?, Action.claim?, giveUp]
  | @released m claim idle at' =>
    refine .inl (Nat.le_of_eq ?_)
    cases claim <;> simp [Thread.duties, idle, at', Control.claim?, Action.claim?, giveUp]
  | @body m claim fs c idle at' frames calm =>
    refine .inl (Nat.le_of_eq ?_)
    rw [Thread.duties_of_not_isFirm
      (t := { t with control := c, stack := fs ++ .running m claim :: t.stack })
      (Control.isFirm_of_isCalm calm)]
    cases claim <;> simp [Thread.duties, idle, at', List.filterMap_cons, Control.claim?,
      Frame.claim?, claims_of_isCode frames]
  | installed idle at' =>
    refine .inl (same (.inr rfl) ?_ rfl)
    simp [List.filterMap_cons, Action.claim?, claims_of_afterInstall]
  | evaluated idle | enter idle | take idle | share idle | done idle | await idle
  | recheck idle | seizeMissed idle =>
    exact .inl (same (.inr rfl) (by rw [idle]; rfl) rfl)
  | evaluate idle =>
    exact .inl (Thread.duties_count_le (.inr rfl) (Nat.le_of_eq (by rw [idle])) rfl)
  | loop | recheckFailed | updateLost => exact .inl (same (.inr rfl) rfl rfl)
  | enterFailed _ _ reports => exact .inl (same (.inr rfl) (claims_of_reports reports) rfl)
  | @started m claim _ idle at' =>
    exact .inl (same (.inl (by rw [at']; cases claim <;> rfl)) (by rw [idle]; rfl) rfl)
  | update idle at' | installMissed idle at' =>
    exact .inl (same (.inl (by rw [at']; rfl)) (by rw [idle]; rfl) rfl)

theorem Waits.duties_count (step : Waits w t w' t') : t'.duties.count n ≤ t.duties.count n := by
  have soft := step.not_isFirm step.not_isFirm_before
  have same : ∀ {t' : Thread}, t'.control.claim? = none →
      t'.agenda.filterMap Action.claim? = [] → t'.stack = t.stack →
      t'.duties.count n ≤ t.duties.count n := fun control errands stack =>
    Thread.duties_count_le (.inr control) (by rw [errands]; exact Nat.zero_le _) (by rw [stack])
  have none := Control.claim?_of_not_isFirm soft
  cases step with
  | loop | confirm | publishMissed => exact same none rfl rfl
  | proceed _ _ _ reports | published _ _ _ _ reports =>
    exact same none (claims_of_reports reports) rfl
  | enlist _ _ _ gates | enlisted _ _ _ gates =>
    refine same none (List.filterMap_eq_nil_iff.2 ?_) rfl
    intro a known
    obtain ⟨g, rfl⟩ := gates a known
    rfl
  | free idle | busy idle | lock idle | join idle | locked idle | lockMissed idle | gathered idle
  | joined idle | joinMissed idle | enrolled idle | confirmClosed idle | retract idle
  | «suspend» idle | resumed idle | asleep idle | refuse idle =>
    exact same none (by rw [idle]; rfl) rfl

theorem Attempt.duties_count (step : Attempt w t w' t') :
    t'.duties.count n ≤ t.duties.count n := by
  cases step <;> exact Thread.duties_count_le (.inr rfl) (Nat.le_refl _) rfl

theorem Step.duties_count (step : Step w t w' t') (noted : t.Noted) (honest : t.meddles = false)
    (claims : ∀ claim, (n, claim) ∈ t.entries → claim = true) :
    t'.duties.count n ≤ t.duties.count n ∨ Seizes w t n w' t' := by
  cases step with
  | stay => exact .inl (Nat.le_refl _)
  | errand step => exact .inl step.duties_count
  | host step => exact .inl (step.duties_count honest claims)
  | forcing step => exact step.duties_count noted
  | waits step => exact .inl step.duties_count
  | attempt step => exact .inl step.duties_count

/-! ## What ends a duty -/

theorem Step.duties_of_surrender {seen : Slot} {as : List Action} (step : Step w t w' t')
    (next : t.agenda = .surrender n seen :: as) :
    w'.slot n = w.slot n ∨ t'.duties.count n < t.duties.count n := by
  rcases step.errand_of_busy (by simp [next]) with ⟨rfl, -⟩ | errand
  · exact .inl rfl
  · cases errand with
    | surrendered next' =>
      rw [next] at next'
      cases next'
      refine .inr ?_
      simp [Thread.duties, next, claims_of_afterSurrender, Action.claim?]
    | surrenderMissed => exact .inl rfl
    | quiet _ _ quiet => exact .inl (quiet.slot n)
    | _ => simp_all

theorem Step.duties_of_install {v : NodeId} {seen : Slot} (step : Step w t w' t')
    (idle : t.agenda = []) (at' : t.control = .install n v seen) :
    w'.slot n = w.slot n ∨ t'.duties.count n < t.duties.count n := by
  cases step with
  | stay => exact .inl rfl
  | forcing step =>
    cases step with
    | installed _ is =>
      rw [at'] at is
      cases is
      refine .inr ?_
      simp [Thread.duties, at', idle, List.filterMap_cons, claims_of_afterInstall, Action.claim?,
        Control.claim?]
    | installMissed => exact .inl rfl
    | _ => simp_all
  | errand step => cases step <;> simp_all
  | host step =>
    have firm := step.not_isFirm_before
    simp [at', Control.isFirm] at firm
  | waits step =>
    have firm := step.not_isFirm_before
    simp [at', Control.isFirm] at firm
  | attempt step => cases step <;> simp_all

theorem Step.owner_kept {o : TaskId} (step : Step w t w' t') (noted : t.Noted)
    (entitled : t.Entitled w) (foreign : ∀ o, t.control.owner? = some o → o ≠ t.me w)
    (writes : ∀ a ∈ t.agenda, a.isOverwrite = false) (owned : (w.slot n).ownedBy o = true) :
    (w'.slot n).ownedBy o = true ∨ t'.duties.count n < t.duties.count n := by
  have old : (w.slot n).cell.bind Cell.owner? = some o := by simpa [Slot.ownedBy] using owned
  have kept : (w'.slot n).cell.bind Cell.owner? = some o →
      (w'.slot n).ownedBy o = true := fun is => by simpa [Slot.ownedBy] using is
  have same : w'.slot n = w.slot n → (w'.slot n).ownedBy o = true := fun is => by rw [is, owned]
  rcases step.transition noted entitled foreign n with is | transition
  · exact .inl (same is)
  · generalize (w.slot n).cell = before at transition old
    generalize after : (w'.slot n).cell = cell at transition kept
    cases transition with
    | enter | claim | tryLock | unlock => cases old
    | lock | publish => exact .inl (kept old)
    | abandon next => exact (step.duties_of_surrender next).imp_left same
    | update idle at' => exact (step.duties_of_install idle at').imp_left same
    | overwrite next =>
      have write := writes _ (by rw [next]; exact List.mem_cons_self)
      cases write

theorem leaving_of_append (code : ∀ f ∈ fs, f.isCode) {rest : List Frame}
    (known : .leaving n ∈ fs ++ rest) : .leaving n ∈ rest := by
  rcases List.mem_append.1 known with new | old
  · cases code _ new
  · exact old

theorem Step.leaving_origin (step : Step w t w' t') (known : .leaving n ∈ t'.stack) :
    .leaving n ∈ t.stack ∨
      (∃ claim, .settling n claim ∈ t.stack) ∧ ∃ v, t'.control = .update n v := by
  have below : ∀ {f rest}, t.stack = f :: rest → .leaving n ∈ rest → .leaving n ∈ t.stack :=
    fun top old => by
      rw [top]
      exact List.mem_cons_of_mem _ old
  cases step with
  | stay => exact .inl known
  | errand step => exact .inl (step.frames.1 ▸ known)
  | host step =>
    cases step with
    | code _ _ _ frames => exact .inl (leaving_of_append frames known)
    | giveCode _ _ top _ _ frames => exact .inl (below top (leaving_of_append frames known))
    | giveRunning _ _ top =>
      exact .inl (below top ((List.mem_cons.1 known).resolve_left (by simp)))
    | @giveSettling v m claim rest _ _ top =>
      rcases List.mem_cons.1 known with is | old
      · cases is
        exact .inr ⟨⟨claim, by rw [top]; exact List.mem_cons_self⟩, v, rfl⟩
      · exact .inl (below top old)
    | giveAgain _ _ top | giveLeaving _ _ top | dropCode _ _ top | dropAgain _ _ top
    | dropEvaluation _ _ top | dropLeaving _ _ top =>
      exact .inl (below top known)
    | _ => exact .inl known
  | forcing step =>
    cases step with
    | evaluate => exact .inl ((List.mem_cons.1 known).resolve_left (by simp))
    | body _ _ frames =>
      have rest := leaving_of_append frames known
      exact .inl ((List.mem_cons.1 rest).resolve_left (by simp))
    | _ => exact .inl known
  | waits step => cases step <;> exact .inl known
  | attempt step => cases step <;> exact .inl known

theorem Step.overwrite_origin (step : Step w t w' t') (honest : t.meddles = false)
    (writes : ∀ a ∈ t.agenda, a.isOverwrite = false) : ∀ a ∈ t'.agenda, a.isOverwrite = false := by
  intro a known
  rcases step.plans known with old | plans
  · exact writes a old
  · cases plans with
    | plain kind => cases a <;> first | rfl | cases kind
    | reset _ host =>
      rcases host with ⟨ns, env, host⟩ | ⟨r, host⟩ <;>
        simp [Thread.meddles, host, ThunkOp.meddles] at honest
    | set _ host => simp [Thread.meddles, host, ThunkOp.meddles] at honest
    | _ => rfl

end LazyGraph

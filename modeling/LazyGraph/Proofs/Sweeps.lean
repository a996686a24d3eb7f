import LazyGraph.Proofs.Advance
import LazyGraph.Proofs.Core
import LazyGraph.Proofs.Tended

/-!
# Sweeps wake nobody

Errands on the map of a capability are hidden: without them, and without reports, a thread does to
the rest of the world what it does with them, provided that no sweep finds a queue that is open and
resolved.
-/

namespace LazyGraph

/-- Reports, and errands on the map of the capability. -/
def Action.isHidden : Action → Bool
  | .emit _ | .withdraw _ | .sweep _ => true
  | _ => false

/-- A sweep has begun. -/
def Action.isMidway : Action → Bool
  | .examine _ _ _ | .inspect _ _ _ _ | .dismiss _ _ => true
  | _ => false

def Action.isSweep : Action → Bool
  | .sweep _ => true
  | a => a.isMidway

def hide (as : List Action) : List Action :=
  as.filter fun a => !a.isHidden

def Thread.seen (t : Thread) : Thread :=
  { t with agenda := hide t.agenda }

def Turn.seen (x : Turn) : Turn :=
  (x.1.core, x.2.seen)

def Thread.Tidy (t : Thread) : Prop :=
  ∀ a ∈ t.agenda, a.isMidway = false

/-- What the thread does next is not hidden. -/
def Thread.Poised (t : Thread) : Prop :=
  ∀ a ∈ t.agenda.head?, a.isHidden = false

variable {w w' : World} {t t' : Thread} {q : QueueId} {a : Action} {as : List Action}

/-! ## What is seen of a step -/

@[simp] theorem hide_append (as bs : List Action) : hide (as ++ bs) = hide as ++ hide bs :=
  List.filter_append ..

@[simp] theorem hide_wakes (ms : List Message) :
    hide (ms.map fun m => .wake m.task) = ms.map fun m => .wake m.task := by
  induction ms with
  | nil => rfl
  | cons m ms ih => exact congrArg (_ :: ·) ih

@[simp] theorem hide_report (note : Note) (k : CapabilityId) (count : Nat) :
    hide (note.report k q count) = [] := by
  cases note <;> rfl

theorem hide_cons (shown : a.isHidden = false) : hide (a :: as) = a :: hide as := by
  simp [hide, shown]

@[simp] theorem hide_hide : hide (hide as) = hide as := by
  simp [hide]

@[simp] theorem Thread.seen_seen : t.seen.seen = t.seen := by
  simp [seen]

theorem Thread.seen_of_idle (idle : t.agenda = []) : t.seen = t := by
  rw [seen, idle]
  exact congrArg (fun as => { t with agenda := as }) idle.symm

@[simp] theorem Turn.seen_core (x : Turn) : Turn.seen (Turn.core x) = Turn.seen x := by
  simp [seen, core]

theorem seen_proceed : Turn.seen (t.proceed w) = Turn.seen (t.proceed w.core) := by
  by_cases at' : ∃ x, t.control = .confirm x
  · obtain ⟨x, at'⟩ := at'
    simp only [Thread.proceed, at', Thread.confirm, World.isClosed_core]
    split <;> simp [Turn.seen, Thread.seen, Thread.goto, Thread.plan, hide, Action.isHidden]
  · rw [← Thread.core_proceed fun x is => at' ⟨x, is⟩, Turn.seen_core]

theorem seen_perform (shown : a.isHidden = false) (whole : a.isMidway = false) :
    Turn.seen (a.perform w t) = Turn.seen (a.perform w.core t.seen) := by
  cases a with
  | emit | withdraw | sweep => cases shown
  | examine | inspect | dismiss => cases whole
  | gate g =>
    have same : t.seen.mayStop = t.mayStop := rfl
    simp only [Action.perform, same]
    split <;> simp [Turn.seen, Thread.seen, Thread.refuse, Thread.goto, hide_cons shown]
  | wake u => simp [Action.perform, Turn.seen, World.wake]
  | drain q note => simp [Action.perform, Turn.seen, Thread.seen]
  | «seal» q => simp [Action.perform, Turn.seen]
  | overwrite n v =>
    have drains : ∀ found : Option QueueId,
        hide ((found.map fun q => [Action.drain q .silent]).getD []) =
          (found.map fun q => [Action.drain q .silent]).getD [] := by
      rintro (_ | q) <;> rfl
    simp [Action.perform, Turn.seen, Thread.seen, drains]
  | clear n => simp [Action.perform, Turn.seen]
  | abandon n =>
    have same : t.seen.context = t.context := rfl
    simp only [Action.perform, World.slot_core, World.taskOf_core, same]
    split <;> simp [Turn.seen, Thread.seen, hide, Action.isHidden]
  | surrender n seen =>
    simp only [Action.perform, ← World.core_exchange?]
    cases w.exchange? n seen none <;> simp [Turn.seen, Thread.seen, hide, Action.isHidden]
  | release r => simp [Action.perform, Turn.seen]

/-- Threads that are poised make of what can be seen what can be seen afterwards. -/
theorem Turn.seen_next {x : Turn} (poised : x.2.Poised) (tidy : x.2.Tidy) :
    x.next.seen = x.seen.next.seen := by
  obtain ⟨w, t⟩ := x
  cases next : t.agenda with
  | nil =>
    have same : t.seen = t := Thread.seen_of_idle next
    simp only [Turn.next, Turn.seen, same, Thread.step, next]
    exact seen_proceed
  | cons a as =>
    have shown := poised a (by simp [next])
    have whole := tidy a (by simp [next])
    have agenda : t.seen.agenda = a :: hide as := by
      rw [Thread.seen, next, hide_cons shown]
    have rest : ({ t.seen with agenda := hide as } : Thread) =
        ({ t with agenda := as } : Thread).seen := rfl
    simp only [Turn.next, Turn.seen, Thread.step, next, agenda, rest]
    exact seen_perform shown whole

/-! ## Sweeps come last -/

/-- Neither a gate nor part of a sweep. -/
def Action.isWork : Action → Bool
  | .gate _ => false
  | a => !a.isSweep

/-- What a step does to the errands of a thread. -/
inductive Planning (t t' : Thread) : Prop
  | keeps (same : t'.agenda = t.agenda)
  | works {a : Action} {as : List Action} (new : List Action) (next : t.agenda = a :: as)
    (after : t'.agenda = new ++ as) (work : ∀ b ∈ new, b.isWork)
  | sweeps {a b : Action} {as : List Action} (new : List Action) (next : t.agenda = a :: as)
    (sweep : a.isSweep) (after : t'.agenda = new ++ b :: as) (work : ∀ b ∈ new, b.isWork)
    (again : b.isMidway)
  | plans (idle : t.agenda = []) (work : ∀ b ∈ t'.agenda, b.isWork)
  | stops {g} (idle : t.agenda = []) (after : t'.agenda = [.gate g])
  | ends {u e} (new : List Action) (idle : t.agenda = []) (after : t'.agenda = new ++ .sweep u :: e)
    (work : ∀ b ∈ new, b.isWork) (reports : ∀ b ∈ e, b.isReport)

theorem Action.isWork_of_isReport (report : a.isReport) : a.isWork := by
  cases a <;> first | rfl | cases report

theorem isWork_of_giveUp {n : NodeId} {claim : Bool} (known : a ∈ giveUp n claim) :
    a.isWork := by
  cases claim with
  | false => cases known
  | true =>
    obtain rfl := List.mem_singleton.1 known
    rfl

theorem isWork_of_wakeQueue (known : a ∈ wakeQueue q) : a.isWork := by
  simp only [wakeQueue, List.mem_cons, List.not_mem_nil, or_false] at known
  rcases known with rfl | rfl <;> rfl

theorem isWork_of_afterSurrender {me : TaskId} {seen : Slot}
    (known : a ∈ afterSurrender me seen) : a.isWork := by
  rcases List.mem_cons.1 known with rfl | wakes
  · rfl
  · cases found : seen.queue? with
    | none => simp [found] at wakes
    | some q =>
      rw [found] at wakes
      exact isWork_of_wakeQueue wakes

theorem afterInstall_cases (me : TaskId) (seen : Slot) :
    (∀ b ∈ Thread.afterInstall me seen, b.isWork) ∨
      ∃ new, Thread.afterInstall me seen = new ++ [.sweep me] ∧ ∀ b ∈ new, b.isWork := by
  unfold Thread.afterInstall
  split
  · exact .inl (by simp)
  · rename_i q owner held
    split
    · exact .inl fun b known => isWork_of_wakeQueue (by simpa using known)
    · exact .inr ⟨wakeQueue q, rfl, fun b known => isWork_of_wakeQueue known⟩
  · split
    · exact .inl (by simp)
    · exact .inr ⟨[], rfl, by simp⟩
  · exact .inr ⟨[], rfl, by simp⟩

theorem Planning.drops (next : t.agenda = a :: as) (after : t'.agenda = as) : Planning t t' :=
  .works [] next after (by simp)

theorem Planning.idles (idle : t.agenda = []) (after : t'.agenda = []) : Planning t t' :=
  .keeps (after.trans idle.symm)

theorem Planning.reports (idle : t.agenda = []) (reports : ∀ b ∈ t'.agenda, b.isReport) :
    Planning t t' :=
  .plans idle fun b known => Action.isWork_of_isReport (reports b known)

theorem Errand.planning (step : Errand w t w' t') : Planning t t' := by
  cases step with
  | stand => exact .keeps rfl
  | quiet next | refuse next | wake next | «seal» next | dismissed next | abandonOther next =>
    exact .drops next rfl
  | drain next kind =>
    refine .works _ next rfl fun b known => ?_
    rcases List.mem_append.1 known with wakes | report
    · obtain ⟨m, -, rfl⟩ := List.mem_map.1 wakes
      rfl
    · exact Action.isWork_of_isReport (kind b report)
  | sweep next | examined next | examineClosed next | examineOpen next | inspectResolved next
  | inspectOpen next | dismissOther next => exact .sweeps [] next rfl rfl (by simp) rfl
  | dismissListed next =>
    exact .sweeps [_] next rfl rfl (fun b known => List.mem_singleton.1 known ▸ rfl) rfl
  | @overwrite n v as next =>
    refine .works _ next rfl fun b known => ?_
    cases found : (w.slot n).queue? with
    | none => simp [found] at known
    | some q =>
      obtain rfl : b = .drain q .silent := by simpa [found] using known
      rfl
  | abandonOwn next | surrenderMissed next =>
    exact .works [_] next rfl fun b known => List.mem_singleton.1 known ▸ rfl
  | surrendered next => exact .works _ next rfl fun b known => isWork_of_afterSurrender known

theorem HostStep.planning (step : HostStep w t w' t') : Planning t t' := by
  cases step with
  | code idle _ _ _ _ reports =>
    rcases reports with reports | ⟨g, n, rfl, -⟩
    · exact .reports idle reports
    · exact .stops idle rfl
  | abandon idle | clear idle | reset idle | set idle | update idle | giveSettling idle =>
    exact .plans idle fun b known => List.mem_singleton.1 known ▸ rfl
  | revert idle _ _ resets =>
    refine .plans idle fun b known => ?_
    rcases resets b known with ⟨n, rfl⟩ | rfl | report
    · rfl
    · rfl
    · exact Action.isWork_of_isReport report
  | dropEvaluation idle _ _ _ report =>
    refine .plans idle fun b known => ?_
    rcases List.mem_append.1 known with old | given
    · exact Action.isWork_of_isReport (report b old)
    · exact isWork_of_giveUp given
  | _ => exact .keeps rfl

theorem Forcing.planning (step : Forcing w t w' t') : Planning t t' := by
  cases step with
  | loop idle | seized idle | recheckFailed idle =>
    exact .plans idle fun b known => List.mem_singleton.1 known ▸ rfl
  | enterFailed idle _ report => exact .reports idle report
  | startLoop idle =>
    refine .plans idle fun b known => ?_
    rcases List.mem_cons.1 known with rfl | given
    · rfl
    · exact isWork_of_giveUp given
  | released idle => exact .plans idle fun b known => isWork_of_giveUp known
  | updateLost idle => exact .ends [_] idle rfl (fun b known => List.mem_singleton.1 known ▸ rfl) (by simp)
  | @installed n v seen e idle =>
    rcases afterInstall_cases (t.me w) seen with work | ⟨new, after, work⟩
    · refine .plans idle fun b known => ?_
      rcases List.mem_append.1 known with install | last
      · rcases List.mem_cons.1 install with rfl | install
        · rfl
        · exact work b install
      · exact List.mem_singleton.1 last ▸ rfl
    · refine .ends (u := t.me w) (e := [.emit e]) (.clear n :: new) idle (by simp [after])
        (fun b known => ?_) fun b known => List.mem_singleton.1 known ▸ rfl
      rcases List.mem_cons.1 known with rfl | known
      · rfl
      · exact work b known
  | _ => exact .keeps rfl

theorem Waits.planning (step : Waits w t w' t') (straight : t'.Straight) : Planning t t' := by
  have ungated : ∀ {x as}, t'.control.waiting? = some x → t'.agenda = as →
      (∀ a ∈ as, ∃ g, a = Action.gate g) → as = [] := by
    intro x as waiting is gates
    refine List.eq_nil_iff_forall_not_mem.2 fun a known => ?_
    obtain ⟨g, rfl⟩ := gates a known
    cases straight x waiting _ (is ▸ known)
  cases step with
  | loop idle | confirm idle | publishMissed idle =>
    exact .plans idle fun b known => List.mem_singleton.1 known ▸ rfl
  | enlist idle _ _ gates | enlisted idle _ _ gates =>
    exact .idles idle (ungated rfl rfl gates)
  | proceed idle _ _ reports | published idle _ _ _ reports => exact .reports idle reports
  | _ => exact .keeps rfl

theorem Step.planning (step : Step w t w' t') (straight : t'.Straight) : Planning t t' := by
  cases step with
  | stay => exact .keeps rfl
  | errand step => exact step.planning
  | host step => exact step.planning
  | forcing step => exact step.planning
  | waits step => exact step.planning straight
  | attempt step => cases step <;> exact .keeps rfl

theorem Action.isSweep_of_isWork (work : a.isWork) : a.isSweep = false := by
  cases a <;> first | rfl | cases work

theorem Action.isMidway_of_isSweep (sweep : a.isSweep) (shown : a.isHidden = false) :
    a.isMidway := by
  cases a with
  | sweep => cases shown
  | _ => exact sweep

theorem Action.isMidway_of_isWork (work : a.isWork) : a.isMidway = false := by
  cases a <;> first | rfl | cases work

/-- Behind a sweep there are reports only, and gates are alone. -/
structure Thread.Ordered (t : Thread) : Prop where
  sweeps : t.agenda.Pairwise fun a b => a.isSweep → b.isReport
  gates : ∀ g, .gate g ∈ t.agenda → t.agenda = [.gate g]

theorem Thread.Ordered.of_isWork (work : ∀ a ∈ t.agenda, a.isWork) : t.Ordered where
  sweeps := List.pairwise_of_forall_mem_list fun a known b _ sweep => by
    rw [Action.isSweep_of_isWork (work a known)] at sweep
    cases sweep
  gates g known := by cases work _ known

/-- Work may be put before all the rest. -/
theorem pairwise_work {new as : List Action} (work : ∀ a ∈ new, a.isWork)
    (rest : as.Pairwise fun a b => a.isSweep → b.isReport) :
    (new ++ as).Pairwise fun a b => a.isSweep → b.isReport := by
  have vacuous : ∀ a ∈ new, ∀ b : Action, a.isSweep → b.isReport := by
    intro a known b sweep
    rw [Action.isSweep_of_isWork (work a known)] at sweep
    cases sweep
  exact List.pairwise_append.2 ⟨List.pairwise_of_forall_mem_list fun a known b _ =>
    vacuous a known b, rest, fun a known b _ => vacuous a known b⟩

theorem Planning.ordered (planning : Planning t t') (ordered : t.Ordered) : t'.Ordered := by
  cases planning with
  | keeps same => exact ⟨same ▸ ordered.sweeps, same ▸ ordered.gates⟩
  | works new next after work =>
    have sweeps := ordered.sweeps
    rw [next] at sweeps
    refine ⟨after ▸ pairwise_work work (List.pairwise_cons.1 sweeps).2, fun g known => ?_⟩
    rw [after] at known
    rcases List.mem_append.1 known with fresh | old
    · cases work _ fresh
    · have alone := ordered.gates g (next ▸ List.mem_cons_of_mem _ old)
      rw [next] at alone
      cases alone
      cases old
  | @sweeps a b as new next sweep after work again =>
    have sweeps := ordered.sweeps
    rw [next] at sweeps
    obtain ⟨reports, rest⟩ := List.pairwise_cons.1 sweeps
    refine ⟨after ▸ pairwise_work work (List.pairwise_cons.2
      ⟨fun c known _ => reports c known sweep, rest⟩), fun g known => ?_⟩
    rw [after] at known
    rcases List.mem_append.1 known with fresh | old
    · cases work _ fresh
    · rcases List.mem_cons.1 old with rfl | old
      · cases again
      · cases reports _ old sweep
  | plans _ work => exact .of_isWork work
  | stops _ after =>
    refine ⟨after ▸ List.pairwise_singleton .., fun g known => ?_⟩
    rw [after] at known ⊢
    rw [List.mem_singleton.1 known]
  | @ends u e new _ after work reports =>
    refine ⟨after ▸ pairwise_work work (List.pairwise_cons.2
      ⟨fun b known _ => reports b known, List.pairwise_of_forall_mem_list
        fun _ _ b known _ => reports b known⟩), fun g known => ?_⟩
    rw [after] at known
    rcases List.mem_append.1 known with fresh | old
    · cases work _ fresh
    · rcases List.mem_cons.1 old with is | old
      · cases is
      · cases reports _ old

theorem Planning.tidy (planning : Planning t t') (poised : t.Poised) (tidy : t.Tidy) : t'.Tidy := by
  cases planning with
  | keeps same => exact fun a known => tidy a (same ▸ known)
  | works new next after work =>
    intro b known
    rw [after] at known
    rcases List.mem_append.1 known with fresh | old
    · exact Action.isMidway_of_isWork (work b fresh)
    · exact tidy b (next ▸ List.mem_cons_of_mem _ old)
  | @sweeps a b as new next sweep =>
    have midway := Action.isMidway_of_isSweep sweep (poised a (by simp [next]))
    rw [tidy a (by simp [next])] at midway
    cases midway
  | plans _ work => exact fun b known => Action.isMidway_of_isWork (work b known)
  | stops _ after =>
    intro b known
    rw [after] at known
    rw [List.mem_singleton.1 known]
    rfl
  | ends new _ after work reports =>
    intro b known
    rw [after] at known
    rcases List.mem_append.1 known with fresh | old
    · exact Action.isMidway_of_isWork (work b fresh)
    · rcases List.mem_cons.1 old with rfl | old
      · rfl
      · exact Action.isMidway_of_isWork (Action.isWork_of_isReport (reports b old))

/-! ## What is hidden is not missed -/

/-- Nobody waits in the queue, and closing it changes nothing. -/
def World.Spent (w : World) (q : QueueId) : Prop :=
  w.messages q = [] ∧ (w.close q).core = w.core

/-- Whatever queues a sweep finds, it wakes nobody. -/
def World.Orderly (w : World) : Prop :=
  ∀ q, w.isClosed q = true ∨ w.isResolved q = true → w.Spent q

theorem World.Spent.of_core (spent : w.Spent q) (same : w'.core = w.core) : w'.Spent q := by
  refine ⟨?_, ?_⟩
  · rw [← World.messages_core, same, World.messages_core]
    exact spent.1
  · rw [World.core_close, same, ← World.core_close]
    exact spent.2

def Turn.Leads (x y : Turn) : Prop :=
  ∃ n, Turn.next^[n] x = y

/-- The first errands are done, and nobody sees it. -/
def Turn.Skips (x : Turn) (as : List Action) : Prop :=
  ∃ w', x.Leads (w', { x.2 with agenda := as }) ∧ w'.core = x.1.core

namespace Turn

variable {x y z : Turn} {u : TaskId} {todo ready : List QueueId} {bs : List Action}

theorem Leads.refl (x : Turn) : x.Leads x :=
  ⟨0, rfl⟩

theorem Leads.next (leads : x.next.Leads y) : x.Leads y := by
  obtain ⟨n, is⟩ := leads
  exact ⟨n + 1, is⟩

theorem Leads.trans (first : x.Leads y) (second : y.Leads z) : x.Leads z := by
  obtain ⟨n, rfl⟩ := first
  obtain ⟨m, rfl⟩ := second
  exact ⟨m + n, Function.iterate_add_apply ..⟩

theorem Skips.done (next : x.2.agenda = as) : x.Skips as := by
  refine ⟨x.1, ?_, rfl⟩
  rw [← next]
  exact .refl x

theorem Skips.first (step : x.next = (w', { x.2 with agenda := bs })) (same : w'.core = x.1.core)
    (rest : Turn.Skips (w', { x.2 with agenda := bs }) as) : x.Skips as := by
  obtain ⟨w'', leads, after⟩ := rest
  exact ⟨w'', .next (step ▸ leads), after.trans same⟩

theorem next_of_errand (next : x.2.agenda = a :: as) :
    x.next = a.perform x.1 { x.2 with agenda := as } := by
  rw [Turn.next, Thread.step, next]

theorem skips_emit {e : Event} (next : x.2.agenda = .emit e :: as) : x.Skips as :=
  .first (next_of_errand next) (World.core_emit e) (.done rfl)

theorem skips_withdraw (next : x.2.agenda = .withdraw q :: as) : x.Skips as :=
  .first (next_of_errand next) World.core_withdraw (.done rfl)

theorem skips_drain {task : TaskId} (next : x.2.agenda = .drain q (.released task) :: as)
    (spent : x.1.Spent q) : x.Skips as := by
  have step := next_of_errand next
  simp only [Action.perform, spent.1, Note.report, List.map_nil, List.nil_append,
    List.cons_append] at step
  exact .first step spent.2 (skips_emit rfl)

theorem Skips.after (skips : x.Skips bs)
    (rest : ∀ w', w'.core = x.1.core → Turn.Skips (w', { x.2 with agenda := bs }) as) :
    x.Skips as := by
  obtain ⟨w', leads, same⟩ := skips
  obtain ⟨w'', leads', same'⟩ := rest w' same
  exact ⟨w'', leads.trans leads', same'.trans same⟩

theorem skips_dismiss (next : x.2.agenda = .dismiss u ready :: as)
    (spent : ∀ q ∈ ready, x.1.Spent q) : x.Skips as := by
  induction ready generalizing x with
  | nil => exact .first (next_of_errand next) rfl (.done rfl)
  | cons q ready ih =>
    have step := next_of_errand next
    simp only [Action.perform] at step
    split at step
    · refine .first step World.core_withdraw (.after (skips_drain rfl ?_) fun w' same => ?_)
      · exact (spent q (List.mem_cons_self ..)).of_core World.core_withdraw
      · refine ih rfl fun r known => ?_
        exact (spent r (List.mem_cons_of_mem _ known)).of_core same
    · exact .first step rfl (ih rfl fun r known => spent r (List.mem_cons_of_mem _ known))

theorem skips_examine (orderly : x.1.Orderly) (next : x.2.agenda = .examine u todo ready :: as)
    (spent : ∀ q ∈ ready, x.1.Spent q) : x.Skips as := by
  induction todo generalizing x ready with
  | nil => exact .first (next_of_errand next) rfl (skips_dismiss rfl spent)
  | cons q todo ih =>
    have spent' : x.1.Spent q → ∀ r ∈ ready ++ [q], x.1.Spent r := by
      intro here r known
      rcases List.mem_append.1 known with old | new
      · exact spent r old
      · exact List.mem_singleton.1 new ▸ here
    have step := next_of_errand next
    simp only [Action.perform] at step
    split at step
    · rename_i closed
      exact .first step rfl (ih orderly rfl (spent' (orderly q (.inl closed))))
    · refine .first step rfl ?_
      have look := next_of_errand (x := (x.1, { x.2 with agenda := .inspect u q todo ready :: as }))
        rfl
      simp only [Action.perform] at look
      split at look
      · rename_i resolved
        exact .first look rfl (ih orderly rfl (spent' (orderly q (.inr resolved))))
      · exact .first look rfl (ih orderly rfl spent)

theorem skips_sweep (orderly : x.1.Orderly) (next : x.2.agenda = .sweep u :: as) : x.Skips as :=
  .first (next_of_errand next) rfl (skips_examine orderly rfl (by simp))

/-- Whenever the thread comes to a sweep, the sweep wakes nobody. -/
def Sound (x : Turn) : Prop :=
  ∀ y, x.Leads y → ∀ u as, y.2.agenda = .sweep u :: as → y.1.Orderly

end Turn

end LazyGraph

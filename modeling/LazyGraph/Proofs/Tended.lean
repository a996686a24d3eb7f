import LazyGraph.Proofs.Suspensions
import LazyGraph.Proofs.Wakeup

/-!
# Every queue is tended

If no capability stops a thread on its way into a queue, then each open queue is in its slot, or its
maker is about to put it there, or some thread is going to close it.
-/

namespace LazyGraph

variable {w w' : World} {t t' : Thread} {n : NodeId} {q : QueueId} {x : Waiting}

/-! ## Nothing comes between a thread and its queue -/

def Move.isDetour : Move → Bool
  | .detour _ _ => true
  | _ => false

/-- No capability stops a thread on its way into a queue. -/
def Run.NeverDetours (run : Run) : Prop :=
  ∀ k, (run.move k).isDetour = false

theorem Run.neverDetours_ofMoves {log : Log} {moves : List Move} {admitted}
    (plain : ∀ m ∈ moves, m.isDetour = false) : (ofMoves log moves admitted).NeverDetours :=
  ofMoves_each (P := fun m => m.isDetour = false) rfl plain

/-- On its way into a queue, the thread has nothing to do but to report. -/
def Thread.Straight (t : Thread) : Prop :=
  ∀ x, t.control.waiting? = some x → ∀ a ∈ t.agenda, a.isReport

def State.Undetoured (s : State) : Prop :=
  ∀ c, (s.world.context c).detour = none

theorem Growth.detours (growth : Growth w t w') (c : ContextId)
    (free : (w.context c).detour = none) : (w'.context c).detour = none := by
  cases growth with
  | grows grows => exact grows.detours c free
  | project _ _ _ enlarges => exact enlarges.detours c free
  | clear => exact World.detours_of_same (by unfold World.release; split <;> rfl) c free
  | release | register => exact free
  | revert _ _ grows => exact grows.detours c free

theorem State.undetoured_after {s : State} {m : Move} (direct : m.isDetour = false)
    (free : s.Undetoured) : (s.after m).Undetoured := by
  intro c
  have same : (s.after m).world.contexts = s.world.contexts →
      ((s.after m).world.context c).detour = none := fun same =>
    World.detours_of_same same c (free c)
  cases m with
  | step i =>
    cases found : s.threads[i]? with
    | none =>
      simp only [State.after, State.step, found]
      exact free c
    | some t =>
      rw [State.after, (State.own_step found).1]
      exact (growth_step s.world t).detours c (free c)
  | seat name capability config interpreter =>
    simp only [State.after, World.context, World.addContext, World.addTask,
      Array.getD_eq_getD_getElem?, Array.getElem?_push]
    split
    · rfl
    · simpa [World.context] using free c
  | detour c d => cases direct
  | poolStarted capabilities | jobPanicked d => exact (World.grows_emit _ _).detours c (free c)
  | _ => exact same rfl

theorem Thread.detour_of_none {afterwards : Bool} {next : Control}
    (free : (w.context t.context).detour = none) :
    t.detour w afterwards next = (w, t.goto next) := by
  simp [Thread.detour, free]

theorem Thread.straight_step (free : (w.context t.context).detour = none) (straight : t.Straight) :
    (t.step w).2.Straight := by
  intro x waiting a known
  rcases (step_cases w t).waiting_origin waiting with was | ⟨_, _, _, _, _, _, idle, _⟩ |
    ⟨_, _, _, _, _, _, idle, _⟩
  · cases next : t.agenda with
    | cons b as =>
      have report := straight x was b (by simp [next])
      cases b with
      | emit e =>
        simp only [Thread.step, next, Action.perform] at known
        exact straight x was a (by simp [next, known])
      | _ => cases report
    | nil =>
      have turn : t.step w = t.proceed w := Thread.step_idle next
      rw [turn] at known waiting
      cases at' : t.control with
      | enlist y =>
        have here : ((w.christen (w.context t.context).capability y.queue).context
            t.context).detour = none := (World.grows_christen _ _).detours _ free
        simp [Thread.proceed, at', Thread.enlist, Thread.detour_of_none here, Thread.goto,
          next] at known
      | enrol y => simp [Thread.proceed, at', Thread.enrol, Thread.goto, next] at known
      | confirm y =>
        simp only [Thread.proceed, at', Thread.confirm] at known
        split at known
        · simp [Thread.goto, next] at known
        · obtain rfl : a = _ := by simpa [Thread.plan, next] using known
          rfl
      | retract y => simp [Thread.proceed, at', Thread.retract, Thread.goto, next] at known
      | enlisted y blocked =>
        simp [Thread.proceed, at', Thread.detour_of_none free, Thread.goto, next] at known
      | publish y blocked =>
        simp only [Thread.proceed, at', Thread.publish] at waiting
        split at waiting
        · split at waiting <;> cases waiting
        · split at waiting
          · split at waiting <;> cases waiting
          · cases waiting
      | _ =>
        rw [at'] at was
        cases was
  · simp [idle] at known
  · simp [idle] at known

namespace Run

variable {run : Run}

theorem undetoured (direct : run.NeverDetours) (k : Nat) : (run.state k).Undetoured :=
  run.always (P := State.Undetoured) (fun _ => rfl)
    (fun k free => State.undetoured_after (direct k) free) k

theorem straight (direct : run.NeverDetours) (k : Nat) :
    (run.state k).Each fun _ t => t.Straight := by
  refine run.each (P := fun _ t => t.Straight) (fun _ _ => id) ?_ ?_ ?_ k
  · intro k i t _ straight
    exact Thread.straight_step (run.undetoured direct k t.context) straight
  · intro w t g as next straight x waiting a known
    exact straight x waiting a (by simp [next, known])
  · rintro w t ⟨idle, -, c, env, at'⟩ x waiting
    rw [at'] at waiting
    cases waiting

end Run

/-! ## On the way into a queue -/

theorem Control.isCalm_of_isCode {c : Control} (code : c.isCode) : c.isCalm := by
  cases c <;> first | rfl | cases code

theorem HostStep.starts (step : HostStep w t w' t') : t.control.isCalm := by
  cases step with
  | code _ host => exact Control.isCalm_of_isCode host
  | blackHole _ host | attempt _ host | abandon _ host | clear _ host | reset _ host | set _ host
  | update _ host | revert _ host | giveCode _ host | giveAgain _ host | giveRunning _ host
  | giveSettling _ host | giveLeaving _ host =>
    rw [host]
    rfl
  | dropCode _ exit | dropAgain _ exit | dropEvaluation _ exit | dropLeaving _ exit =>
    exact Control.isCalm_of_isExit exit

theorem Step.waits_of_waiting (step : Step w t w' t') (straight : t.Straight)
    (waiting : t.control.waiting? = some x) : t'.control = t.control ∨ Waits w t w' t' := by
  cases step with
  | stay => exact .inl rfl
  | errand step =>
    cases step with
    | refuse next => cases straight x waiting _ (by rw [next]; exact List.mem_cons_self)
    | _ => exact .inl rfl
  | host step =>
    have calm := step.starts
    cases at' : t.control with
    | enlist | enrol | confirm | retract | enlisted | publish =>
      rw [at'] at calm
      cases calm
    | _ =>
      rw [at'] at waiting
      cases waiting
  | forcing step =>
    cases step with
    | evaluated _ at' | evaluate _ at' | enter _ at' | enterFailed _ at' | take _ at' | share _ at'
    | done _ at' | loop _ at' | await _ at' | seized _ at' | seizeMissed _ at' | started _ at'
    | startLoop _ at' | body _ at' | released _ at' | recheckFailed _ at' | recheck _ at'
    | updateLost _ at' | update _ at' | installed _ at' | installMissed _ at' =>
      rw [at'] at waiting
      cases waiting
  | waits step => exact .inr step
  | attempt step =>
    cases step with
    | probe _ at' | hopeless _ at' | exchanged _ at' | missed _ at' =>
      rw [at'] at waiting
      cases waiting

/-- Registering a queue, or taking that back. -/
def Control.enrols? : Control → Option Waiting
  | .enlist x | .enrol x | .confirm x | .retract x => some x
  | _ => none

/-- Behind the registration. -/
def Control.enrolled? : Control → Option Waiting
  | .enlisted x _ | .publish x _ => some x
  | _ => none

theorem Control.waiting?_of_enrols? {c : Control} (enrols : c.enrols? = some x) :
    c.waiting? = some x := by
  cases c <;> first | exact enrols | cases enrols

theorem Control.waiting?_of_enrolled? {c : Control} (enrolled : c.enrolled? = some x) :
    c.waiting? = some x := by
  cases c <;> first | exact enrolled | cases enrolled

/-- What becomes of a thread on its way into a queue. -/
inductive Way (w : World) (t : Thread) (w' : World) (t' : Thread) (x : Waiting) : Prop
  | enrols (before : t.control.enrols? = some x) (after : t'.control.enrols? = some x)
  | retracted (idle : t.agenda = []) (at' : t.control = .retract x)
    (after : t'.control.enrolled? = some x)
  | confirmed (idle : t.agenda = []) (at' : t.control = .confirm x)
    (open' : w.isClosed x.queue = false) (same : w' = w) (after : t'.control.enrolled? = some x)
  | enrolled (before : t.control.enrolled? = some x) (after : t'.control.enrolled? = some x)
  | joined (before : t.control.enrolled? = some x) (made : x.lock = none)
  | published (held : (w'.slot x.thunk).cell = some (.queue x.queue x.owner))
  | missed {b seen} (idle : t.agenda = []) (at' : t.control = .publish x b)
    (made : x.lock = some seen) (changed : (w.slot x.thunk).unchanged seen = false) (same : w' = w)
    (seals : .seal x.queue ∈ t'.agenda)

theorem Step.way (step : Step w t w' t') (noted : t.Noted) (straight : t.Straight)
    (waiting : t.control.waiting? = some x) : Way w t w' t' x := by
  rcases step.waits_of_waiting straight waiting with same | step
  · cases at' : t.control with
    | enlist y | enrol y | confirm y | retract y =>
      rw [at'] at waiting same
      cases waiting
      exact .enrols (by rw [at']; rfl) (by rw [same]; rfl)
    | enlisted y blocked | publish y blocked =>
      rw [at'] at waiting same
      cases waiting
      exact .enrolled (by rw [at']; rfl) (by rw [same]; rfl)
    | _ =>
      rw [at'] at waiting
      cases waiting
  · cases step with
    | enlist _ at' | enrolled _ at' | confirmClosed _ at' =>
      rw [at'] at waiting
      cases waiting
      exact .enrols (by rw [at']; rfl) rfl
    | confirm idle at' open' =>
      rw [at'] at waiting
      cases waiting
      exact .confirmed idle at' open' rfl rfl
    | retract idle at' =>
      rw [at'] at waiting
      cases waiting
      exact .retracted idle at' rfl
    | enlisted _ at' =>
      rw [at'] at waiting
      cases waiting
      exact .enrolled (by rw [at']; rfl) rfl
    | proceed _ at' joined =>
      rw [at'] at waiting
      cases waiting
      exact .joined (by rw [at']; rfl) joined
    | published _ at' made same =>
      rw [at'] at waiting
      cases waiting
      have held := (Slot.cell_of_unchanged same).trans (noted.lock (by rw [at']; rfl) made)
      obtain ⟨th, found⟩ := World.thunk_of_cell held
      exact .published (by rw [World.slot_write_self found, Slot.cell_write])
    | publishMissed idle at' made changed =>
      rw [at'] at waiting
      cases waiting
      exact .missed idle at' made changed rfl List.mem_cons_self
    | busy _ at' | asleep _ at' | free _ at' | loop _ at' | lock _ at' | join _ at' | locked _ at'
    | lockMissed _ at' | gathered _ at' | joined _ at' | joinMissed _ at' | «suspend» _ at'
    | resumed _ at' | refuse _ at' =>
      rw [at'] at waiting
      cases waiting

/-! ## Queues and their makers -/

theorem Step.seals (step : Step w t w' t') (sealed : .seal q ∈ t.agenda)
    (known : (w.queue? q).isSome) : .seal q ∈ t'.agenda ∨ w'.Closed q :=
  step.closes (.inl rfl) sealed known

/-- The maker of a queue publishes it or closes it. -/
theorem Step.owns_kept (step : Step w t w' t') (noted : t.Noted) (straight : t.Straight)
    (owns : t.Owns q) (known : (w.queue? q).isSome) :
    t'.Owns q ∨ (∃ n o, (w'.slot n).cell = some (.queue q o)) ∨ w'.Closed q := by
  rcases owns with ⟨x, waiting, rfl, made⟩ | sealed
  · have on : t'.control.waiting? = some x → t'.Owns x.queue := fun waiting' =>
      .inl ⟨x, waiting', rfl, made⟩
    cases step.way noted straight waiting with
    | enrols _ after => exact .inl (on (Control.waiting?_of_enrols? after))
    | retracted _ _ after | confirmed _ _ _ _ after | enrolled _ after =>
      exact .inl (on (Control.waiting?_of_enrolled? after))
    | joined _ none' => simp [none'] at made
    | published held => exact .inr (.inl ⟨_, _, held⟩)
    | missed _ _ _ _ _ seals => exact .inl (.inr seals)
  · rcases step.seals sealed known with kept | closed
    · exact .inl (.inr kept)
    · exact .inr (.inr closed)

/-! ## Runs -/

/-- An open queue is in its slot, or some thread has it in hand. -/
def State.Tends (s : State) (q : QueueId) : Prop :=
  s.Served q ∨ s.world.Closed q ∨ ∃ u ∈ s.threads, u.Owns q

structure State.Tended (s : State) : Prop where
  open' : ∀ q, (s.world.queue? q).isSome → s.Tends q
  emptied : ∀ q Q, s.world.queue? q = some Q → Q.closed = true → Q.messages = []

variable {s s' : State} {i : ThreadId}

theorem tended_turns (noted : s.Each fun _ t => t.Noted) (straight : s.Each fun _ t => t.Straight)
    (tended : s.Tended) (turns : Turns s s' i t t') : s'.Tended where
  open' q known := by
    have there := Array.mem_of_getElem? turns.after
    have old : (s.world.queue? q).isSome → s'.Tends q := fun known => by
      have served : s.Served q ∨ s.world.Closed q → s'.Tends q := fun was => by
        rcases served_turns noted turns known was with served | closed
        · exact .inl served
        · exact .inr (.inl closed)
      rcases tended.open' q known with was | was | ⟨u, mem, owns⟩
      · exact served (.inl was)
      · exact served (.inr was)
      · rcases turns.mem mem with rfl | stays
        · rcases turns.step.owns_kept (noted i u turns.before) (straight i u turns.before) owns
            known with kept | held | closed
          · exact .inr (.inr ⟨t', there, kept⟩)
          · exact .inl (.inl held)
          · exact .inr (.inl closed)
        · exact .inr (.inr ⟨u, stays, owns⟩)
    rcases turns.step.queue_cases q with same | handles
    · exact old (same ▸ known)
    · cases handles with
      | made _ _ _ waits => exact .inr (.inr ⟨t', there, .inl ⟨_, waits, rfl, rfl⟩⟩)
      | joined _ before | drained _ before | sealed _ before => exact old (by simp [before])
  emptied q Q found closed := by
    rcases turns.step.queue_cases q with same | handles
    · exact tended.emptied q Q (same ▸ found) closed
    · cases handles with
      | made _ _ after =>
        rw [found] at after
        cases after
        cases closed
      | joined _ _ open' after =>
        rw [found] at after
        cases after
        simp [open'] at closed
      | drained _ _ after | sealed _ _ after =>
        rw [found] at after
        cases after
        rfl

theorem tended_rests (tended : s.Tended) (rests : Rests s s') : s'.Tended where
  open' q known := by
    rw [rests.still.queue] at known
    rcases tended.open' q known with served | closed | ⟨u, mem, owns⟩
    · exact .inl (served.rests rests)
    · exact .inr (.inl (rests.still.evolves.closed closed))
    · exact .inr (.inr ⟨u, rests.mem mem, owns⟩)
  emptied q Q found closed := tended.emptied q Q (rests.still.queue q ▸ found) closed

theorem Run.tended {run : Run} (direct : run.NeverDetours) (k : Nat) : (run.state k).Tended := by
  refine run.always (P := State.Tended) ⟨?_, ?_⟩ ?_ k
  · intro q known
    simp [World.queue?] at known
  · intro q Q found
    simp [World.queue?] at found
  · intro k tended
    rcases (run.change k).split with rests | ⟨i, t, t', turns, -⟩
    · exact tended_rests tended rests
    · exact tended_turns (run.noted k) (run.straight direct k) tended turns

end LazyGraph

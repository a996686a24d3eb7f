import LazyGraph.Proofs.Publication

/-!
# No wake-up is missed

A message is followed from the push until the permit of its task is set: its queue is in the slot, or
somebody is going to close it, or somebody is going to wake the task.
-/

namespace LazyGraph

/-- The thread is about to push the message of its task. -/
def Control.pushes? : Control → Option NodeId
  | .gather n _ _ _ | .join n _ _ _ => some n
  | _ => none

/-- The message has been pushed. -/
def Control.pushed? : Control → Option NodeId
  | .suspend n _ | .parked n _ => some n
  | c => c.waiting?.map Waiting.thunk

/-- The task has to wait. -/
def Control.awaits? : Control → Option NodeId
  | .suspend n _ | .parked n _ => some n
  | _ => none

def Control.owner? : Control → Option TaskId
  | .lock _ _ o _ | .gather _ _ o _ | .join _ _ _ o => some o
  | c => c.waiting?.map Waiting.owner

def Thread.Makes (t : Thread) (q : QueueId) : Prop :=
  ∃ x, t.control.waiting? = some x ∧ x.queue = q ∧ x.lock.isSome

def World.Closed (w : World) (q : QueueId) : Prop :=
  ∃ Q, w.queue? q = some Q ∧ Q.closed = true

variable {w w' : World} {t t' : Thread} {n : NodeId} {q : QueueId} {o : TaskId} {x : Waiting}

theorem Control.isWait_of_pushed? {c : Control} (pushed : c.pushed? = some n) :
    c.isWait = true := by
  cases c <;> first | rfl | cases pushed

theorem Control.isWait_of_owner? {c : Control} (owner : c.owner? = some o) : c.isWait = true := by
  cases c <;> first | rfl | cases owner

theorem Control.pushed?_of_awaits? {c : Control} (awaits : c.awaits? = some n) :
    c.pushed? = some n := by
  cases c <;> first | exact awaits | cases awaits

theorem Control.pushed?_of_isExit {c : Control} (exit : c.isExit) : c.pushed? = none := by
  cases c <;> first | rfl | cases exit

theorem Thread.runs_of_isWait (wait : t.control.isWait = true) : t.Runs := by
  refine Thread.runs_of_control ?_
  cases is : t.control <;> first | rfl | (rw [is] at wait; cases wait)

/-! ## Steps of the wait -/

theorem Step.owner_origin (step : Step w t w' t') (owner : t'.control.owner? = some o) :
    t.control.owner? = some o ∨ o ≠ t.me w := by
  rcases step.wait_cases (Control.isWait_of_owner? owner) with same | step
  · exact .inl (same ▸ owner)
  · cases step with
    | busy | asleep => exact .inl owner
    | lock _ _ _ other | join _ _ _ other =>
      cases owner
      exact .inr other
    | @proceed x blocked | @published x blocked => cases blocked <;> cases owner
    | locked _ at' | gathered _ at' | joined _ at' | enlist _ at' | enrolled _ at'
    | confirmClosed _ at' | confirm _ at' | retract _ at' | enlisted _ at' =>
      rw [at']
      exact .inl owner
    | _ => cases owner

theorem Step.pushed_origin (step : Step w t w' t') (pushed : t'.control.pushed? = some n) :
    t.control.pushed? = some n ∨ t.control.pushes? = some n := by
  rcases step.wait_cases (Control.isWait_of_pushed? pushed) with same | step
  · exact .inl (same ▸ pushed)
  · cases step with
    | busy | asleep => exact .inl pushed
    | gathered _ at' | joined _ at' =>
      rw [at']
      exact .inr pushed
    | @proceed x blocked _ _ at' | @published x blocked _ _ _ at' =>
      rw [at']
      cases blocked with
      | false => cases pushed
      | true => exact .inl pushed
    | enlist _ at' | enrolled _ at' | confirmClosed _ at' | confirm _ at' | retract _ at'
    | enlisted _ at' | «suspend» _ at' =>
      rw [at']
      exact .inl pushed
    | _ => cases pushed

theorem Step.pushes (step : Step w t w' t') (before : t.control.pushes? = some n)
    (pushed : t'.control.pushed? = some n) :
    ∃ x, t'.control.waiting? = some x ∧ x.thunk = n ∧
      (∃ Q, w'.queue? x.queue = some Q ∧ Q.closed = false ∧ ⟨t.me w, n⟩ ∈ Q.messages) ∧
      (x.lock.isSome ∨ (∃ claim, t.control = .join n claim x.queue x.owner) ∧
        ¬ w.Closed x.queue) := by
  have other : t'.control ≠ t.control := fun same => by
    rw [same] at pushed
    cases is : t.control <;> simp_all [Control.pushes?, Control.pushed?, Control.waiting?]
  rcases step.wait_cases (Control.isWait_of_pushed? pushed) with same | step
  · exact absurd same other
  · cases step with
    | gathered _ at' =>
      cases pushed
      exact ⟨_, rfl, rfl, ⟨_, by rw [World.queue?_addQueue, if_pos rfl], rfl, by simp [Queue.unnamed]⟩,
        .inl rfl⟩
    | @joined w' m claim r owner _ at' accepted =>
      cases pushed
      obtain ⟨queues, Q, -, -, found, open', after⟩ := World.push?_eq_some accepted
      refine ⟨_, rfl, rfl, ⟨{ Q with messages := Q.messages ++ [⟨t.me w, m⟩] },
        by rw [after, if_pos rfl], open', by simp⟩,
        .inr ⟨⟨claim, at'⟩, ?_⟩⟩
      intro closed
      obtain ⟨R, found', closed⟩ := closed
      rw [found] at found'
      cases found'
      simp [open'] at closed
    | busy | asleep => exact absurd rfl other
    | joinMissed => cases pushed
    | free _ at' | loop _ at' | lock _ at' | join _ at' | locked _ at' | lockMissed _ at'
    | enlist _ at' | enrolled _ at' | confirmClosed _ at' | confirm _ at' | retract _ at'
    | enlisted _ at' | proceed _ at' | published _ at' | publishMissed _ at' | «suspend» _ at'
    | resumed _ at' | refuse _ at' =>
      rw [at'] at before
      cases before

theorem Step.publishes {seen : Slot} (step : Step w t w' t') (noted : t.Noted)
    (waiting : t.control.waiting? = some x) (made : x.lock = some seen)
    (pushed : t'.control.pushed? = some n) :
    t'.control.waiting? = some x ∨ (w'.slot x.thunk).cell = some (.queue x.queue x.owner) := by
  rcases step.wait_cases (Control.isWait_of_pushed? pushed) with same | step
  · exact .inl (same ▸ waiting)
  · cases step with
    | busy | asleep => exact .inl waiting
    | enlist _ at' | enrolled _ at' | confirmClosed _ at' | confirm _ at' | retract _ at'
    | enlisted _ at' =>
      rw [at'] at waiting
      exact .inl waiting
    | proceed _ at' joined =>
      rw [at'] at waiting
      cases waiting
      rw [joined] at made
      cases made
    | published _ at' lock same =>
      rw [at'] at waiting
      cases waiting
      have held := (Slot.cell_of_unchanged same).trans (noted.lock (by rw [at']; rfl) lock)
      obtain ⟨th, found⟩ := World.thunk_of_cell held
      exact .inr (by rw [World.slot_write_self found, Slot.cell_write])
    | publishMissed => cases pushed
    | free _ at' | loop _ at' | lock _ at' | join _ at' | locked _ at' | lockMissed _ at'
    | gathered _ at' | joined _ at' | joinMissed _ at' | «suspend» _ at' | resumed _ at'
    | refuse _ at' =>
      rw [at'] at waiting
      cases waiting

theorem Step.seal_apart (step : Step w t w' t')
    (apart : ∀ q, .seal q ∈ t.agenda → t.control.pushed? = none) (known : .seal q ∈ t'.agenda) :
    t'.control.pushed? = none := by
  rcases step.seal_origin known with old | ⟨x, seen, -, -, -, -, -, rfl⟩
  · rcases step.errand_of_busy (fun idle => by simp [idle] at old) with ⟨-, rfl⟩ | errand
    · exact apart q old
    · rcases errand.frames.2 with same | exit
      · rw [same]
        exact apart q old
      · exact Control.pushed?_of_isExit exit
  · rfl

/-- An errand that closes a queue is done in its turn. -/
theorem Step.closes {a : Action} (step : Step w t w' t')
    (closing : a = .seal q ∨ ∃ note, a = .drain q note) (planned : a ∈ t.agenda)
    (known : (w.queue? q).isSome) : a ∈ t'.agenda ∨ w'.Closed q := by
  rcases step.agenda_kept planned with kept | ⟨as, next⟩
  · exact .inl kept
  · obtain ⟨Q, found⟩ := Option.isSome_iff_exists.1 known
    rcases step.errand_of_busy (by simp [next]) with ⟨-, rfl⟩ | errand
    · exact .inl planned
    · cases errand with
      | stand => exact .inl planned
      | drain next' | «seal» next' =>
        rw [next] at next'
        cases next'
        rcases closing with is | ⟨note, is⟩ <;> cases is
        exact .inr ⟨Q.close, by rw [World.queue?_close, if_pos rfl, found]; rfl, rfl⟩
      | quiet next' kind =>
        rw [next] at next'
        cases next'
        rcases closing with rfl | ⟨note, rfl⟩ <;> cases kind
      | refuse next' | wake next' | sweep next' | examined next' | examineClosed next'
      | examineOpen next' | inspectResolved next' | inspectOpen next' | dismissed next'
      | dismissListed next' | dismissOther next' | overwrite next' | abandonOwn next'
      | abandonOther next' | surrendered next' | surrenderMissed next' =>
        rw [next] at next'
        cases next'
        rcases closing with is | ⟨note, is⟩ <;> cases is

theorem Step.drains (step : Step w t w' t') (drains : t.Drains q) (known : (w.queue? q).isSome) :
    t'.Drains q ∨ w'.Closed q := by
  obtain ⟨note, planned⟩ := drains
  rcases step.closes (.inr ⟨note, rfl⟩) planned known with kept | closed
  · exact .inl ⟨note, kept⟩
  · exact .inr closed

/-! ## Permits -/

theorem World.permit_wake {u v : TaskId} (permit : (w.task u).permit = true) :
    ((w.wake v).task u).permit = true := by
  simp only [World.wake, World.task_setTask]
  split
  · rfl
  · exact permit

theorem Step.permit_kept {u : TaskId} (step : Step w t w' t')
    (permit : (w.task u).permit = true) :
    (w'.task u).permit = true ∨
      t.me w = u ∧ t.control.isWait = true ∧ t'.control.pushed? = none := by
  have same : w'.tasks = w.tasks → (w'.task u).permit = true := fun same => by
    rw [World.task, same]
    exact permit
  cases step with
  | stay => exact .inl permit
  | errand step =>
    cases step with
    | quiet _ _ quiet | dismissListed _ quiet => exact .inl (same quiet.tasks)
    | wake => exact .inl (World.permit_wake permit)
    | overwrite | surrendered => exact .inl (same (by simp))
    | _ => exact .inl permit
  | host step =>
    cases step with
    | code _ _ quiet | abandon _ _ quiet | clear _ _ quiet | reset _ _ quiet | set _ _ quiet
    | revert _ _ quiet | giveCode _ _ _ _ quiet => exact .inl (same quiet.tasks)
    | _ => exact .inl permit
  | forcing step =>
    cases step with
    | seized | installed => exact .inl (same (by simp))
    | _ => exact .inl permit
  | waits step =>
    cases step with
    | locked | published => exact .inl (same (by simp))
    | joined _ _ pushed =>
      obtain ⟨queues, Q, rfl, -⟩ := World.push?_eq_some pushed
      exact .inl permit
    | enlist _ _ quiet | retract _ _ quiet | enlisted _ _ quiet => exact .inl (same quiet.tasks)
    | «suspend» =>
      rw [World.task_setTask]
      split
      · rename_i is
        exact .inl (is.1 ▸ permit)
      · exact .inl permit
    | resumed _ at' =>
      rw [World.task_setTask]
      split
      · rename_i is
        exact .inr ⟨is.1.symm, by rw [at']; rfl, rfl⟩
      · exact .inl permit
    | _ => exact .inl permit
  | attempt step =>
    cases step with
    | probe => exact .inl permit
    | hopeless _ _ quiet | missed _ _ quiet => exact .inl (same quiet.tasks)
    | exchanged _ _ _ quiet => exact .inl (same (by rw [quiet.tasks, World.tasks_write]))

variable {s s' : State} {i j : ThreadId} {u v : Thread} {m : Move}

theorem World.lt_of_permit {u : TaskId} (permit : (w.task u).permit = true) :
    u < w.tasks.size := by
  by_contra beyond
  simp [World.task, Array.getD_eq_getD_getElem?, beyond] at permit

theorem Change.permit_kept {task : TaskId} (change : Change s m s')
    (permit : (s.world.task task).permit = true) :
    (s'.world.task task).permit = true ∨ ∃ (i : ThreadId) (t t' : Thread),
      s.threads[i]? = some t ∧ s'.threads[i]? = some t' ∧ t.me s.world = task ∧
      t.control.isWait = true ∧ t'.control.pushed? = none := by
  cases change with
  | @step i t w' t' at' step =>
    rcases step.permit_kept permit with kept | ⟨own, wait, gone⟩
    · exact .inl kept
    · have bound := (Array.getElem?_eq_some_iff.1 at').1
      exact .inr ⟨i, t, t', at', by simp [bound], own, wait, gone⟩
  | quiet quiet => exact .inl (by rw [World.task, quiet.tasks]; exact permit)
  | wake => exact .inl (World.permit_wake permit)
  | start => exact .inl permit
  | seat =>
    refine .inl ?_
    have bound := World.lt_of_permit permit
    simpa [World.task, World.addTask, World.addContext, Array.getD_eq_getD_getElem?,
      Array.getElem?_push, Nat.ne_of_lt bound] using permit

theorem State.permit_after {task : TaskId} (bound : task < s.world.tasks.size)
    (permits : s.permits m task = true) : ((s.after m).world.task task).permit = true := by
  have woken : ((s.world.wake task).task task).permit = true := by
    simp [World.wake, World.task_setTask, bound, Task.wake]
  unfold State.permits at permits
  split at permits
  · simp only [beq_iff_eq] at permits
    subst permits
    exact woken
  · simp only [Option.any_eq_true] at permits
    obtain ⟨t, found, head⟩ := permits
    split at head
    · rename_i v as next
      simp only [beq_iff_eq] at head
      subst head
      simpa [State.after, State.step, found, Thread.step, next, Action.perform] using woken
    · cases head
  · cases permits

/-- Whoever has left a message in a queue is a task. -/
def State.Addressed (s : State) : Prop :=
  ∀ q Q, s.world.queue? q = some Q → ∀ m ∈ Q.messages, m.task < s.world.tasks.size

theorem Change.addressed (change : Change s m s') (seats : s.Seats) (addressed : s.Addressed) :
    s'.Addressed := by
  intro q Q found x known
  refine Nat.lt_of_lt_of_le ?_ change.tasks
  rcases change.split with rests | ⟨i, t, t', turns, -⟩
  · exact addressed q Q (by rw [← rests.still.queue, found]) x known
  · rcases turns.step.message_origin found known with ⟨R, there, old⟩ | ⟨own, -⟩
    · exact addressed q R there x old
    · rw [own]
      exact seats.tasks _ (seats.seated i t turns.before)

theorem Run.addressed (run : Run) (k : Nat) : (run.state k).Addressed := by
  refine run.always (fun q Q found => ?_)
    (fun k addressed => (run.change k).addressed (run.seats k) addressed) k
  simp [World.queue?] at found

/-- Move `k` wakes task `u`, which has a permit afterwards. -/
structure Run.Wakes (run : Run) (u : TaskId) (k : Nat) : Prop where
  permits : (run.state k).permits (run.move k) u = true
  permit : ((run.state (k + 1)).world.task u).permit = true

theorem Run.wakes_of_permits {run : Run} {q : QueueId} {Q : Queue} {x : Message} {a k : Nat}
    (there : (run.state a).world.queue? q = some Q) (known : x ∈ Q.messages) (le : a ≤ k)
    (permits : (run.state k).permits (run.move k) x.task = true) : run.Wakes x.task k := by
  have bound := Nat.lt_of_lt_of_le (run.addressed a q Q there x known) (run.tasks_mono le)
  exact ⟨permits, State.permit_after bound permits⟩

/-! ## Queues on the way -/

def Action.wakes : Action → Bool
  | .wake _ | .drain _ _ => true
  | _ => false

/-- No thread is in the middle of waking others. -/
def State.AtRest (s : State) : Prop :=
  ∀ u ∈ s.threads, ∀ a ∈ u.agenda, a.wakes = false

/-- Queue `q` is in its slot, or the thread that took it from there is going to wake the waiters. -/
def State.Served (s : State) (q : QueueId) : Prop :=
  (∃ n o, (s.world.slot n).cell = some (.queue q o)) ∨ ∃ u ∈ s.threads, u.Drains q

structure State.Guarded (s : State) : Prop where
  foreign : ∀ (i : ThreadId) t o, s.threads[i]? = some t → t.control.owner? = some o →
    o ≠ t.me s.world
  joins : ∀ (i : ThreadId) t n claim q o, s.threads[i]? = some t →
    t.control = .join n claim q o → s.Served q ∨ s.world.Closed q
  seals : ∀ (i : ThreadId) t q, s.threads[i]? = some t → .seal q ∈ t.agenda →
    t.control.pushed? = none

theorem World.Evolves.closed (evolves : w.Evolves w') (closed : w.Closed q) : w'.Closed q := by
  obtain ⟨Q, found, closed⟩ := closed
  obtain ⟨Q', found', -, -, stays⟩ := evolves.queue q Q found
  exact ⟨Q', found', stays closed⟩

theorem served_turns (noted : s.Each fun _ t => t.Noted)
    (turns : Turns s s' i t t') (known : (s.world.queue? q).isSome)
    (served : s.Served q ∨ s.world.Closed q) : s'.Served q ∨ s'.world.Closed q := by
  have there := Array.mem_of_getElem? turns.after
  rcases served with (⟨n, o, held⟩ | ⟨u, mem, drains⟩) | closed
  · rcases turns.step.displaced (noted i t turns.before) held with kept | drains
    · exact .inl (.inl ⟨n, o, kept⟩)
    · exact .inl (.inr ⟨t', there, drains⟩)
  · rcases turns.mem mem with rfl | stays
    · rcases turns.step.drains drains known with drains | closed
      · exact .inl (.inr ⟨t', there, drains⟩)
      · exact .inr closed
    · exact .inl (.inr ⟨u, stays, drains⟩)
  · exact .inr (turns.step.evolves.closed closed)

theorem State.Served.rests (rests : Rests s s') (served : s.Served q) : s'.Served q := by
  rcases served with ⟨n, o, held⟩ | ⟨u, mem, drains⟩
  · exact .inl ⟨n, o, by rw [rests.still.slot, held]⟩
  · exact .inr ⟨u, rests.mem mem, drains⟩

theorem guarded_turns (queued : s.Queued) (noted : s.Each fun _ t => t.Noted)
    (guarded : s.Guarded) (turns : Turns s s' i t t') : s'.Guarded where
  foreign j u o found owner := by
    rcases turns.others j u found with ⟨rfl, rfl⟩ | ⟨-, old⟩
    · rw [turns.step.me]
      rcases turns.step.owner_origin owner with was | other
      · exact guarded.foreign _ t o turns.before was
      · exact other
    · rw [Thread.me, turns.step.keeps.taskOf]
      exact guarded.foreign j u o old owner
  joins j u n claim q o found at' := by
    have old : ∀ (k : ThreadId) v, s.threads[k]? = some v → v.control = .join n claim q o →
        s'.Served q ∨ s'.world.Closed q := fun k v there is =>
      served_turns noted turns (queued.joins k v n claim q o there is).1.known
        (guarded.joins k v n claim q o there is)
    rcases turns.others j u found with ⟨rfl, rfl⟩ | ⟨-, was⟩
    · rcases turns.step.join_origin at' with was | ⟨held, -⟩
      · exact old _ t turns.before was
      · obtain ⟨Q, there, -⟩ := queued.slots n q o held
        exact served_turns noted turns (by simp [there]) (.inl (.inl ⟨n, o, held⟩))
    · exact old j u was at'
  seals j u q found known := by
    rcases turns.others j u found with ⟨rfl, rfl⟩ | ⟨-, old⟩
    · exact turns.step.seal_apart (fun q => guarded.seals _ t q turns.before) known
    · exact guarded.seals j u q old known

theorem guarded_rests (guarded : s.Guarded) (rests : Rests s s')
    (me : ∀ (j : ThreadId) u, s.threads[j]? = some u → u.me s'.world = u.me s.world) :
    s'.Guarded where
  foreign j u o found owner := by
    rcases rests.others j u found with old | ⟨-, -, c, env, is⟩
    · rw [me j u old]
      exact guarded.foreign j u o old owner
    · rw [is] at owner
      cases owner
  joins j u n claim q o found at' := by
    rcases rests.others j u found with old | ⟨-, -, c, env, is⟩
    · rcases guarded.joins j u n claim q o old at' with served | closed
      · exact .inl (served.rests rests)
      · exact .inr (rests.still.evolves.closed closed)
    · rw [is] at at'
      cases at'
  seals j u q found known := by
    rcases rests.others j u found with old | ⟨idle, -⟩
    · exact guarded.seals j u q old known
    · rw [idle] at known
      cases known

theorem Run.guarded (run : Run) (k : Nat) : (run.state k).Guarded := by
  refine run.always ?_ ?_ k
  · constructor <;> intros <;> simp_all
  · intro k guarded
    rcases (run.change k).split with rests | ⟨i, t, t', turns, -⟩
    · exact guarded_rests guarded rests fun j u found => (run.change k).me (run.seats k) found
    · exact guarded_turns (run.queued k) (run.noted k) guarded turns

/-! ## The message -/

/-- The message of a thread that waits for `n` is in queue `q`, or its task is going to be woken. -/
def State.Awaits (s : State) (t : Thread) (n : NodeId) (q : QueueId) : Prop :=
  ∃ Q, s.world.queue? q = some Q ∧ Q.thunk = n ∧ Q.owner ≠ t.me s.world ∧
    (Q.closed = false ∧ ⟨t.me s.world, n⟩ ∈ Q.messages ∧ (s.Served q ∨ t.Makes q) ∨
      Q.closed = true ∧ ∃ u ∈ s.threads, .wake (t.me s.world) ∈ u.agenda)

theorem awaits_pushed (queued : s.Queued) (noted : s.Each fun _ t => t.Noted)
    (guarded : s.Guarded) (turns : Turns s s' i t t') (before : t.control.pushes? = some n)
    (pushed : t'.control.pushed? = some n) : ∃ q, s'.Awaits t' n q := by
  have after := queued_turns queued noted turns
  have guarded' := guarded_turns queued noted guarded turns
  obtain ⟨x, waiting, rfl, ⟨Q, found, open', known⟩, way⟩ := turns.step.pushes before pushed
  obtain ⟨R, there, thunk, owner⟩ := after.waits i t' x turns.after waiting
  rw [found] at there
  cases there
  have foreign : x.owner ≠ t'.me s'.world := by
    refine guarded'.foreign i t' x.owner turns.after ?_
    cases is : t'.control <;> simp_all [Control.waiting?, Control.owner?]
  refine ⟨x.queue, Q, found, thunk, owner ▸ foreign, .inl ⟨open', turns.step.me ▸ known, ?_⟩⟩
  rcases way with made | ⟨⟨claim, joins⟩, opened⟩
  · exact .inr ⟨x, waiting, rfl, made⟩
  · have served := (guarded.joins i t _ claim _ _ turns.before joins).resolve_right opened
    have there := (queued.joins i t _ claim _ _ turns.before joins).1.known
    rcases served_turns noted turns there (.inl served) with served | ⟨R, found', closed⟩
    · exact .inl served
    · rw [found] at found'
      cases found'
      simp [open'] at closed

theorem makes_turns (noted : s.Each fun _ t => t.Noted) (turns : Turns s s' i t t')
    (found : s.threads[j]? = some u) (found' : s'.threads[j]? = some v)
    (pushed : v.control.pushed? = some n) (makes : u.Makes q) : s'.Served q ∨ v.Makes q := by
  rcases turns.others j v found' with ⟨rfl, rfl⟩ | ⟨-, old⟩
  · rw [turns.before] at found
    cases found
    obtain ⟨x, waiting, rfl, made⟩ := makes
    obtain ⟨seen, lock⟩ := Option.isSome_iff_exists.1 made
    rcases turns.step.publishes (noted _ t turns.before) waiting lock pushed with same | held
    · exact .inr ⟨x, same, rfl, made⟩
    · exact .inl (.inl ⟨x.thunk, x.owner, held⟩)
  · rw [found] at old
    cases old
    exact .inr makes

/-- Only the maker's own message can be in a queue that was not published. -/
theorem seal_notMem_of_message {Q : Queue} (queued : s.Queued) (guarded : s.Guarded)
    (seats : s.Seats) (at' : s.threads[i]? = some t) (found : s.threads[j]? = some u)
    (pushed : u.control.pushed? = some n) (there : s.world.queue? q = some Q)
    (known : ⟨u.me s.world, n⟩ ∈ Q.messages) : .seal q ∉ t.agenda := by
  intro sealed
  have own := queued.privately i t q Q at' (.inr sealed) there _ known
  have same := seats.same_thread at' found (Thread.runs_of_agenda (List.ne_nil_of_mem sealed))
    (Thread.runs_of_isWait (Control.isWait_of_pushed? pushed)) own.symm
  subst same
  rw [at'] at found
  cases found
  rw [guarded.seals i t q at' sealed] at pushed
  cases pushed

theorem wake_turns {task : TaskId} (turns : Turns s s' i t t')
    (moved : m = .step i ∨ ∃ g as, t.agenda = .gate g :: as)
    (unpermitted : s.permits m task = false)
    (waking : ∃ u ∈ s.threads, .wake task ∈ u.agenda) :
    ∃ u ∈ s'.threads, .wake task ∈ u.agenda := by
  obtain ⟨u, mem, wake⟩ := waking
  rcases turns.mem mem with rfl | stays
  · rcases turns.step.agenda_kept wake with kept | ⟨as, next⟩
    · exact ⟨t', Array.mem_of_getElem? turns.after, kept⟩
    · rcases moved with rfl | ⟨g, as', gate⟩
      · simp [State.permits, turns.before, next] at unpermitted
      · rw [next] at gate
        cases gate
  · exact ⟨u, stays, wake⟩

theorem awaits_turns (queued : s.Queued) (noted : s.Each fun _ t => t.Noted)
    (guarded : s.Guarded) (seats : s.Seats) (turns : Turns s s' i t t')
    (moved : m = .step i ∨ ∃ g as, t.agenda = .gate g :: as)
    (found : s.threads[j]? = some u) (found' : s'.threads[j]? = some v)
    (pushed : u.control.pushed? = some n) (pushed' : v.control.pushed? = some n)
    (unpermitted : s.permits m (u.me s.world) = false) (awaits : s.Awaits u n q) :
    s'.Awaits v n q := by
  obtain ⟨Q, there, thunk, owner, state⟩ := awaits
  obtain ⟨Q', there', thunk', owner', stays⟩ := turns.step.evolves.queue q Q there
  have me := turns.me found found'
  refine ⟨Q', there', thunk'.trans thunk, by rw [owner', me]; exact owner, ?_⟩
  rw [me]
  rcases state with ⟨open', known, way⟩ | ⟨closed, waking⟩
  · rcases turns.step.message_kept there known open' with ⟨R, is, kept, open''⟩ |
      ⟨⟨R, is, closed⟩, wake⟩ | sealed
    · rw [there'] at is
      cases is
      refine .inl ⟨open'', kept, ?_⟩
      rcases way with served | makes
      · refine .inl ((served_turns noted turns (by simp [there]) (.inl served)).resolve_right ?_)
        rintro ⟨R, is, closed⟩
        rw [there'] at is
        cases is
        simp [open''] at closed
      · exact makes_turns noted turns found found' pushed' makes
    · rw [there'] at is
      cases is
      exact .inr ⟨closed, t', Array.mem_of_getElem? turns.after, wake⟩
    · exact absurd sealed
        (seal_notMem_of_message queued guarded seats turns.before found pushed there known)
  · exact .inr ⟨stays closed, wake_turns turns moved unpermitted waking⟩

theorem awaits_rests (rests : Rests s s') (me : u.me s'.world = u.me s.world)
    (awaits : s.Awaits u n q) : s'.Awaits u n q := by
  obtain ⟨Q, there, thunk, owner, state⟩ := awaits
  refine ⟨Q, (rests.still.queue q).trans there, thunk, me ▸ owner, ?_⟩
  rw [me]
  rcases state with ⟨open', known, served | makes⟩ | ⟨closed, waker, mem, wake⟩
  · exact .inl ⟨open', known, .inl (served.rests rests)⟩
  · exact .inl ⟨open', known, .inr makes⟩
  · exact .inr ⟨closed, waker, rests.mem mem, wake⟩

/-! ## Runs -/

theorem Change.thread_me (change : Change s m s') (seats : s.Seats)
    (found : s.threads[i]? = some t) :
    ∃ t', s'.threads[i]? = some t' ∧ t'.me s'.world = t.me s.world := by
  obtain ⟨t', found', rfl | step⟩ := change.thread found
  · exact ⟨t', found', change.me seats found⟩
  · exact ⟨t', found', step.me⟩

namespace Run

variable {run : Run} {a b c k p : Nat}

theorem thread_me (le : a ≤ b) (found : (run.state a).threads[i]? = some t) :
    ∃ u, (run.state b).threads[i]? = some u ∧ u.me (run.state b).world = t.me (run.state a).world := by
  induction le with
  | refl => exact ⟨t, found, rfl⟩
  | @step b le ih =>
    obtain ⟨u, there, same⟩ := ih
    obtain ⟨v, after, same'⟩ := (run.change b).thread_me (run.seats b) there
    exact ⟨v, after, same'.trans same⟩

variable (run) in
/-- Thread `i` pushes the message of its task in move `p`, to wait for `n`, and has not looked at the
slot again by time `k`. -/
structure Waits (i : ThreadId) (n : NodeId) (p k : Nat) : Prop where
  before : p < k
  pushes : ((run.state p).threads[i]?).any fun t => t.control.pushes? == some n
  since : ∀ c ≤ k, p < c → ((run.state c).threads[i]?).any fun t => t.control.pushed? == some n

theorem Waits.at (waits : run.Waits i n p k) (after : p < c) (le : c ≤ k) :
    ∃ t, (run.state c).threads[i]? = some t ∧ t.control.pushed? = some n := by
  have since := waits.since c le after
  simp only [Option.any_eq_true, beq_iff_eq] at since
  exact since

theorem Waits.earlier (waits : run.Waits i n p k) (after : p < c) (le : c ≤ k) :
    run.Waits i n p c :=
  ⟨after, waits.pushes, fun d high low => waits.since d (Nat.le_trans high le) low⟩

theorem Waits.later (waits : run.Waits i n p k)
    (found : (run.state (k + 1)).threads[i]? = some t) (pushed : t.control.pushed? = some n) :
    run.Waits i n p (k + 1) := by
  refine ⟨Nat.lt_succ_of_lt waits.before, waits.pushes, ?_⟩
  intro c high low
  rcases Nat.lt_succ_iff_lt_or_eq.1 (Nat.lt_succ_of_le high) with before | rfl
  · exact waits.since c (Nat.lt_succ_iff.1 before) low
  · simp [found, pushed]

theorem exists_waits (run : Run) (k : Nat) (i : ThreadId) (t : Thread)
    (found : (run.state k).threads[i]? = some t) (pushed : t.control.pushed? = some n) :
    ∃ p, run.Waits i n p k := by
  induction k generalizing t with
  | zero => simp [state, trace] at found
  | succ k ih =>
    have old : (run.state k).threads[i]? = some t → ∃ p, run.Waits i n p (k + 1) := fun there => by
      obtain ⟨p, waits⟩ := ih t there pushed
      exact ⟨p, waits.later found pushed⟩
    rcases (run.change k).split with rests | ⟨j, u, u', turns, -⟩
    · rcases rests.others i t found with there | ⟨-, -, c, env, is⟩
      · exact old there
      · rw [is] at pushed
        cases pushed
    · rcases turns.others i t found with ⟨rfl, rfl⟩ | ⟨-, there⟩
      · rcases turns.step.pushed_origin pushed with was | before
        · obtain ⟨p, waits⟩ := ih u turns.before was
          exact ⟨p, waits.later found pushed⟩
        · refine ⟨k, Nat.lt_succ_self k, by simp [turns.before, before], ?_⟩
          intro c high low
          obtain rfl : c = k + 1 := by omega
          simp [found, pushed]
      · exact old there

theorem not_pushed_of_pushes {c : Control} (pushes : c.pushes? = some n) (pushed : c.pushed? = some n) :
    False := by
  cases c <;> cases pushes <;> cases pushed

theorem Waits.awaits_first (waits : run.Waits i n p (p + 1))
    (found : (run.state (p + 1)).threads[i]? = some t) :
    ∃ q, (run.state (p + 1)).Awaits t n q := by
  obtain ⟨v, there, pushed⟩ := waits.at waits.before (Nat.le_refl _)
  rw [found] at there
  cases there
  have pushes := waits.pushes
  simp only [Option.any_eq_true, beq_iff_eq] at pushes
  obtain ⟨u, there, pushes⟩ := pushes
  have moves : (run.state (p + 1)).threads[i]? = some u → False := fun stays => by
    rw [found] at stays
    cases stays
    exact not_pushed_of_pushes pushes pushed
  rcases (run.change p).split with rests | ⟨j, v, v', turns, -⟩
  · exact (moves (rests.stays i u there)).elim
  · by_cases same : i = j
    · subst same
      rw [turns.before] at there
      cases there
      rw [turns.after] at found
      cases found
      exact awaits_pushed (run.queued p) (run.noted p) (run.guarded p) turns pushes pushed
    · exact (moves (turns.stays i u same there)).elim

theorem Waits.awaits_next (waits : run.Waits i n p (k + 1))
    (found : (run.state k).threads[i]? = some u)
    (found' : (run.state (k + 1)).threads[i]? = some v) (pushed : u.control.pushed? = some n)
    (unpermitted : (run.state k).permits (run.move k) (u.me (run.state k).world) = false)
    (awaits : (run.state k).Awaits u n q) : (run.state (k + 1)).Awaits v n q := by
  obtain ⟨v', there, pushed'⟩ := waits.at waits.before (Nat.le_refl _)
  rw [found'] at there
  cases there
  rcases (run.change k).split with rests | ⟨j, t, t', turns, moved⟩
  · have stays := rests.stays i u found
    rw [found'] at stays
    cases stays
    exact awaits_rests rests ((run.change k).me (run.seats k) found) awaits
  · exact awaits_turns (run.queued k) (run.noted k) (run.guarded k) (run.seats k) turns moved
      found found' pushed pushed' unpermitted awaits

theorem Waits.awaits (waits : run.Waits i n p k) (found : (run.state k).threads[i]? = some t)
    (unpermitted : ∀ c < k, p ≤ c →
      (run.state c).permits (run.move c) (t.me (run.state k).world) = false) :
    ∃ q, (run.state k).Awaits t n q := by
  have before : p + 1 ≤ k := waits.before
  induction before generalizing t with
  | refl => exact waits.awaits_first found
  | @step k before ih =>
    obtain ⟨u, there, pushed⟩ := waits.at before (Nat.le_succ k)
    obtain ⟨v, after, me⟩ := (run.change k).thread_me (run.seats k) there
    rw [found] at after
    cases after
    rw [me] at unpermitted
    obtain ⟨q, awaits⟩ := ih (waits.earlier before (Nat.le_succ k)) there fun c high low =>
      unpermitted c (Nat.lt_succ_of_lt high) low
    exact ⟨q, waits.awaits_next there found pushed
      (unpermitted k (Nat.lt_succ_self k) (Nat.le_of_lt before)) awaits⟩

theorem Waits.permit_kept (waits : run.Waits i n p k) (found : (run.state k).threads[i]? = some t)
    (low : p < c) (high : c ≤ k)
    (permit : ((run.state c).world.task (t.me (run.state k).world)).permit = true) :
    ((run.state k).world.task (t.me (run.state k).world)).permit = true := by
  induction high generalizing t with
  | refl => exact permit
  | @step k high ih =>
    have before := Nat.lt_of_lt_of_le low high
    obtain ⟨u, there, pushed⟩ := waits.at before (Nat.le_succ k)
    obtain ⟨v, after, me⟩ := (run.change k).thread_me (run.seats k) there
    rw [found] at after
    cases after
    rw [me] at permit ⊢
    have kept := ih (waits.earlier before (Nat.le_succ k)) there permit
    rcases (run.change k).permit_kept kept with kept | ⟨j, w, w', at', after, own, wait, gone⟩
    · exact kept
    · have same := (run.seats k).same_thread at' there (Thread.runs_of_isWait wait)
        (Thread.runs_of_isWait (Control.isWait_of_pushed? pushed)) own
      subst same
      obtain ⟨w'', found', pushed'⟩ := waits.at waits.before (Nat.le_refl _)
      rw [after] at found'
      cases found'
      rw [gone] at pushed'
      cases pushed'

theorem Waits.unpermitted (waits : run.Waits i n p k)
    (found : (run.state k).threads[i]? = some t)
    (free : ((run.state k).world.task (t.me (run.state k).world)).permit = false) (low : p ≤ c)
    (high : c < k) : (run.state c).permits (run.move c) (t.me (run.state k).world) = false := by
  by_contra permits
  have bound : t.me (run.state k).world < (run.state c).world.tasks.size := by
    have pushes := waits.pushes
    simp only [Option.any_eq_true] at pushes
    obtain ⟨u, there, -⟩ := pushes
    obtain ⟨v, before, -⟩ := thread_me low there
    obtain ⟨v', after, me⟩ := thread_me (Nat.le_of_lt high) before
    rw [found] at after
    cases after
    rw [me]
    exact (run.seats c).tasks _ ((run.seats c).seated i v before)
  have permit := State.permit_after bound (by simpa using permits)
  have kept := waits.permit_kept found (Nat.lt_succ_of_le low) high permit
  rw [free] at kept
  cases kept

theorem awaits_slot (queued : s.Queued) {Q : Queue} (there : s.world.queue? q = some Q)
    (held : ∃ n o, (s.world.slot n).cell = some (.queue q o)) :
    (s.world.slot Q.thunk).cell = some (.queue q Q.owner) := by
  obtain ⟨n, o, held⟩ := held
  obtain ⟨R, found, rfl, rfl, -⟩ := queued.slots n q o held
  rw [there] at found
  cases found
  exact held

theorem Control.waiting?_of_awaits? {c : Control} (awaits : c.awaits? = some n) :
    c.waiting? = none := by
  cases c <;> first | rfl | cases awaits

theorem awaits_owner (found : (run.state k).threads[i]? = some t)
    (awaits : t.control.awaits? = some n)
    (free : ((run.state k).world.task (t.me (run.state k).world)).permit = false)
    (rest : (run.state k).AtRest) :
    ∃ q Q, (run.state k).world.queue? q = some Q ∧
      ((run.state k).world.slot n).cell = some (.queue q Q.owner) ∧ Q.closed = false ∧
      ⟨t.me (run.state k).world, n⟩ ∈ Q.messages ∧ Q.owner ≠ t.me (run.state k).world := by
  obtain ⟨p, waits⟩ := exists_waits run k i t found (Control.pushed?_of_awaits? awaits)
  obtain ⟨q, Q, there, rfl, owner, state⟩ := waits.awaits found fun c high low =>
    waits.unpermitted found free low high
  rcases state with ⟨open', known, way⟩ | ⟨-, u, mem, wake⟩
  · refine ⟨q, Q, there, awaits_slot (run.queued k) there ?_, open', known, owner⟩
    rcases way with (held | ⟨u, mem, note, drain⟩) | ⟨x, waiting, -⟩
    · exact held
    · cases rest u mem _ drain
    · rw [Control.waiting?_of_awaits? awaits] at waiting
      cases waiting
  · cases rest u mem _ wake

theorem evaluated?_of_queue {w : World} (held : (w.slot n).cell = some (.queue q o)) :
    w.evaluated? n = none := by
  obtain ⟨th, found⟩ := World.thunk_of_cell held
  rw [World.slot_of_thunk found] at held
  simp [World.evaluated?, World.thunk?_eq_some.1 found, Slot.value?, held]

/-- **No missed wake-up.** Every thread that has to wait has pushed its message. As long as its
task is not woken, the message is in an open queue that is in the slot of the thunk or that a thread
is about to drain, or else the queue is closed and a thread is about to wake the task. Hence, while
nobody is waking others, a task that waits without a permit is in the open queue in the slot of its
thunk, which has no value and is owned by another task. -/
theorem no_missed_wake (run : Run) (k : Nat) (i : ThreadId) (t : Thread) (n : NodeId)
    (found : (run.state k).threads[i]? = some t) (awaits : t.control.awaits? = some n) :
    (∃ p, run.Waits i n p k) ∧
    (∀ p, run.Waits i n p k →
      (∀ c < k, p ≤ c →
        (run.state c).permits (run.move c) (t.me (run.state k).world) = false) →
      ∃ q Q, (run.state k).world.queue? q = some Q ∧ Q.thunk = n ∧
        (Q.closed = false ∧ ⟨t.me (run.state k).world, n⟩ ∈ Q.messages ∧
            (((run.state k).world.slot n).cell = some (.queue q Q.owner) ∨
              ∃ u ∈ (run.state k).threads, u.Drains q) ∨
          Q.closed = true ∧
            ∃ u ∈ (run.state k).threads, .wake (t.me (run.state k).world) ∈ u.agenda)) ∧
    (((run.state k).world.task (t.me (run.state k).world)).permit = false →
      (run.state k).AtRest →
      (run.state k).world.evaluated? n = none ∧
      ∃ q Q, (run.state k).world.queue? q = some Q ∧
        ((run.state k).world.slot n).cell = some (.queue q Q.owner) ∧ Q.closed = false ∧
        ⟨t.me (run.state k).world, n⟩ ∈ Q.messages ∧ Q.owner ≠ t.me (run.state k).world) := by
  refine ⟨exists_waits run k i t found (Control.pushed?_of_awaits? awaits),
    fun p waits unpermitted => ?_, fun free rest => ?_⟩
  · obtain ⟨q, Q, there, rfl, -, state⟩ := waits.awaits found unpermitted
    refine ⟨q, Q, there, rfl, ?_⟩
    rcases state with ⟨open', known, way⟩ | woken
    · refine .inl ⟨open', known, ?_⟩
      rcases way with (held | drains) | ⟨x, waiting, -⟩
      · exact .inl (awaits_slot (run.queued k) there held)
      · exact .inr drains
      · rw [Control.waiting?_of_awaits? awaits] at waiting
        cases waiting
    · exact .inr woken
  · obtain ⟨q, Q, there, held, rest⟩ := awaits_owner found awaits free rest
    exact ⟨evaluated?_of_queue held, q, Q, there, held, rest⟩

/-- A task holds a thunk, and another one comes to wait for it. -/
def standoff : Run :=
  .ofMoves {}
    ([.thunk (.prim (.box (.scalar (.int 7))) []) [], .sit true, .sit true, .evaluate 0 0,
      .evaluate 1 0] ++ List.replicate 8 (.step 0) ++ List.replicate 20 (.step 1))
    (by decide +kernel)

theorem no_missed_wake_standoff :
    standoff.Waits 1 0 22 29 ∧
      (∀ c < 29, 22 ≤ c → (standoff.state c).permits (standoff.move c) 1 = false) ∧
      (∃ q Q, (standoff.state 29).world.queue? q = some Q ∧ Q.thunk = 0) ∧
      ((standoff.state 33).world.task 1).permit = false ∧ (standoff.state 33).AtRest ∧
      ∃ q Q, (standoff.state 33).world.queue? q = some Q ∧
        ((standoff.state 33).world.slot 0).cell = some (.queue q Q.owner) ∧ Q.closed = false ∧
        ⟨1, 0⟩ ∈ Q.messages ∧ Q.owner ≠ 1 := by
  have waits : standoff.Waits 1 0 22 29 :=
    ⟨by decide, by decide +kernel, by decide +kernel⟩
  have unpermitted : ∀ c < 29, 22 ≤ c →
      (standoff.state c).permits (standoff.move c) 1 = false := by decide +kernel
  have free : ((standoff.state 33).world.task 1).permit = false := by decide +kernel
  have rest : ∀ u ∈ (standoff.state 33).threads, ∀ a ∈ u.agenda, a.wakes = false := by
    decide +kernel
  have suspends : ((standoff.state 29).threads[1]?).any (fun t =>
      t.me (standoff.state 29).world == 1 && t.control.awaits? == some 0) = true := by
    decide +kernel
  have parked : ((standoff.state 33).threads[1]?).any (fun t =>
      t.me (standoff.state 33).world == 1 && t.control.awaits? == some 0) = true := by
    decide +kernel
  simp only [Option.any_eq_true, Bool.and_eq_true, beq_iff_eq] at suspends parked
  obtain ⟨t, found, me, awaits⟩ := suspends
  obtain ⟨u, found', me', awaits'⟩ := parked
  obtain ⟨-, followed, -⟩ := no_missed_wake standoff 29 1 t 0 found awaits
  obtain ⟨-, -, settled⟩ := no_missed_wake standoff 33 1 u 0 found' awaits'
  rw [me] at followed
  rw [me'] at settled
  obtain ⟨q, Q, there, thunk, -⟩ := followed 22 waits unpermitted
  exact ⟨waits, unpermitted, ⟨q, Q, there, thunk⟩, free, rest, (settled free rest).2⟩

end Run

end LazyGraph

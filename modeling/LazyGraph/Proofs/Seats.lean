import LazyGraph.Proofs.Snapshots

/-!
# Every running thread has a task of its own
-/

namespace LazyGraph

structure World.Keeps (w w' : World) : Prop where
  contexts : w'.contexts.size = w.contexts.size
  tasks : w'.tasks.size = w.tasks.size
  taskOf : ∀ c, w'.taskOf c = w.taskOf c
  interpreter : ∀ c, (w'.context c).interpreter = (w.context c).interpreter

variable {w w' w'' : World} {t t' : Thread} {n : NodeId} {c : ContextId}

namespace World

theorem Keeps.refl (w : World) : w.Keeps w :=
  ⟨rfl, rfl, fun _ => rfl, fun _ => rfl⟩

theorem Keeps.trans (first : w.Keeps w') (second : w'.Keeps w'') : w.Keeps w'' :=
  ⟨second.contexts.trans first.contexts, second.tasks.trans first.tasks,
    fun c => (second.taskOf c).trans (first.taskOf c),
    fun c => (second.interpreter c).trans (first.interpreter c)⟩

theorem Quiet.keeps (quiet : w.Quiet w') : w.Keeps w' :=
  ⟨quiet.size, by rw [quiet.tasks], quiet.taskOf, quiet.interpreter⟩

theorem keeps_write (cell : Option Cell) : w.Keeps (w.write n cell) :=
  ⟨by simp, by simp, by simp, fun c => by simp [World.context]⟩

theorem keeps_setTask (u : TaskId) (task : Task) : w.Keeps (w.setTask u task) :=
  ⟨rfl, by simp [setTask], fun _ => rfl, fun _ => rfl⟩

theorem keeps_setContext {context : Context} (task : context.task = (w.context c).task)
    (interpreter : context.interpreter = (w.context c).interpreter) :
    w.Keeps (w.setContext c context) := by
  refine ⟨by simp [setContext], rfl, fun d => ?_, fun d => ?_⟩
  · simp only [taskOf, context_setContext]
    split
    · rename_i same
      rw [same.1, task]
    · rfl
  · rw [context_setContext]
    split
    · rename_i same
      rw [same.1, interpreter]
    · rfl

theorem keeps_leave : w.Keeps (t.leave w n) :=
  keeps_setContext rfl rfl

theorem keeps_push {q : QueueId} {m : Message} (pushed : w.push? q m = some w') : w.Keeps w' := by
  obtain ⟨queues, Q, rfl, -⟩ := push?_eq_some pushed
  exact ⟨rfl, rfl, fun _ => rfl, fun _ => rfl⟩

end World

theorem Step.keeps (step : Step w t w' t') : w.Keeps w' := by
  have same := World.Keeps.refl w
  cases step with
  | stay => exact same
  | errand step =>
    cases step with
    | quiet _ _ quiet | dismissListed _ quiet => exact quiet.keeps
    | wake => exact World.keeps_setTask _ _
    | overwrite | surrendered => exact World.keeps_write _
    | _ => exact ⟨rfl, rfl, fun _ => rfl, fun _ => rfl⟩
  | host step =>
    cases step with
    | code _ _ quiet | abandon _ _ quiet | clear _ _ quiet | reset _ _ quiet | set _ _ quiet
    | revert _ _ quiet | giveCode _ _ _ _ quiet => exact quiet.keeps
    | giveLeaving | dropEvaluation | dropLeaving => exact World.keeps_leave
    | _ => exact same
  | forcing step =>
    cases step with
    | seized | installed => exact World.keeps_write _
    | started => exact World.keeps_setContext rfl rfl
    | released => exact World.keeps_leave
    | _ => exact same
  | waits step =>
    cases step with
    | locked | published => exact World.keeps_write _
    | joined _ _ pushed => exact World.keeps_push pushed
    | enlist _ _ quiet | retract _ _ quiet | enlisted _ _ quiet => exact quiet.keeps
    | «suspend» | resumed => exact World.keeps_setTask _ _
    | _ => exact ⟨rfl, rfl, fun _ => rfl, fun _ => rfl⟩
  | attempt step =>
    cases step with
    | probe => exact same
    | hopeless _ _ quiet | missed _ _ quiet => exact quiet.keeps
    | exchanged _ _ _ quiet => exact (World.keeps_write _).trans quiet.keeps

theorem Step.context (step : Step w t w' t') : t'.context = t.context := by
  cases step with
  | stay => rfl
  | errand step | host step | forcing step | waits step | attempt step => cases step <;> rfl

theorem Step.me (step : Step w t w' t') : t'.me w' = t.me w := by
  rw [Thread.me, Thread.me, step.context, step.keeps.taskOf]

/-! ## Threads that have ended -/

def Control.isOutcome : Control → Bool
  | .give _ | .fail _ | .unwind _ => true
  | _ => false

theorem Control.isOutcome_of_isExit {c : Control} (exit : c.isExit) : c.isOutcome = true := by
  cases c <;> first | rfl | cases exit

def Thread.Runs (t : Thread) : Prop :=
  t.outcome? = none

theorem Thread.runs_of_agenda (busy : t.agenda ≠ []) : t.Runs := by
  cases next : t.agenda with
  | nil => exact absurd next busy
  | cons a as => simp [Runs, outcome?, next]

theorem Thread.runs_of_stack (busy : t.stack ≠ []) : t.Runs := by
  cases top : t.stack with
  | nil => exact absurd top busy
  | cons f rest => cases next : t.agenda <;> simp [Runs, outcome?, next, top]

theorem Thread.runs_of_control (inside : t.control.isOutcome = false) : t.Runs := by
  unfold Runs outcome?
  split
  · rename_i is
    simp [is, Control.isOutcome] at inside
  · rename_i is
    simp [is, Control.isOutcome] at inside
  · rename_i is
    simp [is, Control.isOutcome] at inside
  · rfl

theorem Step.ended (step : Step w t w' t') (ended : ¬ t.Runs) : w' = w ∧ t' = t := by
  have idle : t.agenda = [] := by
    by_contra busy
    exact ended (Thread.runs_of_agenda busy)
  have top : t.stack = [] := by
    by_contra busy
    exact ended (Thread.runs_of_stack busy)
  have outcome : t.control.isOutcome = true := by
    by_contra inside
    exact ended (Thread.runs_of_control (by simpa using inside))
  cases step with
  | stay => exact ⟨rfl, rfl⟩
  | errand step => cases step <;> simp_all
  | host step =>
    cases step with
    | code _ host => cases is : t.control <;> simp_all [Control.isCode, Control.isOutcome]
    | _ => simp_all [Control.isOutcome]
  | forcing step => cases step <;> simp_all [Control.isOutcome]
  | waits step => cases step <;> simp_all [Control.isOutcome]
  | attempt step => cases step <;> simp_all [Control.isOutcome]

theorem Step.runs (step : Step w t w' t') (runs : t'.Runs) : t.Runs := by
  by_contra ended
  obtain ⟨-, rfl⟩ := step.ended ended
  exact ended runs

/-! ## Seats -/

structure State.Seats (s : State) : Prop where
  seated : ∀ (i : ThreadId) t, s.threads[i]? = some t → t.context < s.world.contexts.size
  tasks : ∀ c < s.world.contexts.size, s.world.taskOf c < s.world.tasks.size
  distinct : ∀ c d, c < s.world.contexts.size → d < s.world.contexts.size →
    s.world.taskOf c = s.world.taskOf d → c = d
  alone : ∀ (i j : ThreadId) t u, s.threads[i]? = some t → s.threads[j]? = some u → t.Runs →
    u.Runs → t.context = u.context → i = j

theorem State.Seats.of_keeps {s s' : State} (seats : s.Seats) (keeps : s.world.Keeps s'.world)
    (threads : ∀ (i : ThreadId) t, s'.threads[i]? = some t → ∃ u, s.threads[i]? = some u ∧
      u.context = t.context ∧ (t.Runs → u.Runs)) : s'.Seats where
  seated i t found := by
    obtain ⟨u, old, same, -⟩ := threads i t found
    rw [keeps.contexts, ← same]
    exact seats.seated i u old
  tasks c bound := by
    rw [keeps.taskOf, keeps.tasks]
    exact seats.tasks c (keeps.contexts ▸ bound)
  distinct c d bound bound' same := by
    rw [keeps.taskOf, keeps.taskOf] at same
    exact seats.distinct c d (keeps.contexts ▸ bound) (keeps.contexts ▸ bound') same
  alone i j t u found found' runs runs' same := by
    obtain ⟨t₀, old, is, ran⟩ := threads i t found
    obtain ⟨u₀, old', is', ran'⟩ := threads j u found'
    exact seats.alone i j t₀ u₀ old old' (ran runs) (ran' runs') (is.trans (same.trans is'.symm))

theorem seats_seat {s : State} {task : Task} {context : Context} (seats : s.Seats)
    (own : context.task = s.world.tasks.size) :
    State.Seats { s with world := ((s.world.addTask task).1.addContext context).1 } := by
  have old : ∀ c < s.world.contexts.size,
      ((s.world.addTask task).1.addContext context).1.taskOf c = s.world.taskOf c := fun c bound => by
    simp [World.taskOf, World.context, World.addContext, World.addTask, Array.getElem?_push,
      Nat.ne_of_lt bound]
  have new : ((s.world.addTask task).1.addContext context).1.taskOf s.world.contexts.size =
      s.world.tasks.size := by
    simp [World.taskOf, World.context, World.addContext, World.addTask, own]
  have contexts : ((s.world.addTask task).1.addContext context).1.contexts.size =
      s.world.contexts.size + 1 := by simp [World.addContext, World.addTask]
  have tasks : ((s.world.addTask task).1.addContext context).1.tasks.size =
      s.world.tasks.size + 1 := by simp [World.addContext, World.addTask]
  refine ⟨?_, ?_, ?_, seats.alone⟩
  · intro i t found
    rw [contexts]
    exact Nat.lt_succ_of_lt (seats.seated i t found)
  · intro c bound
    rw [contexts] at bound
    rw [tasks]
    rcases Nat.lt_succ_iff_lt_or_eq.1 bound with before | rfl
    · rw [old c before]
      exact Nat.lt_succ_of_lt (seats.tasks c before)
    · rw [new]
      exact Nat.lt_succ_self _
  · intro c d bound bound' same
    rw [contexts] at bound bound'
    rcases Nat.lt_succ_iff_lt_or_eq.1 bound with before | rfl <;>
      rcases Nat.lt_succ_iff_lt_or_eq.1 bound' with before' | rfl
    · rw [old c before, old d before'] at same
      exact seats.distinct c d before before' same
    · rw [old c before, new] at same
      exact absurd same (Nat.ne_of_lt (seats.tasks c before))
    · rw [new, old d before'] at same
      exact absurd same.symm (Nat.ne_of_lt (seats.tasks d before'))
    · rfl

theorem seats_start {s : State} {t : Thread} (seats : s.Seats)
    (seated : t.context < s.world.contexts.size)
    (free : ∀ u ∈ s.threads, u.context = t.context → u.outcome?.isSome) :
    State.Seats { s with threads := s.threads.push t } := by
  have taken : ∀ (i : ThreadId) u, s.threads[i]? = some u → u.Runs → u.context ≠ t.context := by
    intro i u found runs same
    have ended := free u (Array.mem_of_getElem? found) same
    rw [show u.outcome? = none from runs] at ended
    cases ended
  refine ⟨?_, seats.tasks, seats.distinct,
    ?_⟩
  · intro i u found
    rcases getElem?_push_some found with ⟨-, rfl⟩ | old
    · exact seated
    · exact seats.seated i u old
  · intro i j u v found found' runs runs' same
    rcases getElem?_push_some found with ⟨rfl, rfl⟩ | old <;>
      rcases getElem?_push_some found' with ⟨rfl, rfl⟩ | old'
    · rfl
    · exact absurd same.symm (taken j v old' runs')
    · exact absurd same (taken i u old runs)
    · exact seats.alone i j u v old old' runs runs' same

/-- The interpreter of a context is the one that it was seated with. -/
theorem Change.interpreter {s s' : State} {m : Move} (change : Change s m s')
    (bound : c < s'.world.contexts.size) :
    (c < s.world.contexts.size ∧
        (s'.world.context c).interpreter = (s.world.context c).interpreter) ∨
      ∃ name capability config,
        m = .seat name capability config (s'.world.context c).interpreter := by
  have kept : ∀ {w : World}, s.world.Keeps w → c < w.contexts.size →
      c < s.world.contexts.size ∧ (w.context c).interpreter = (s.world.context c).interpreter :=
    fun keeps bound => ⟨keeps.contexts ▸ bound, keeps.interpreter c⟩
  cases change with
  | step _ step => exact .inl (kept step.keeps bound)
  | quiet quiet => exact .inl (kept quiet.keeps bound)
  | wake => exact .inl (kept (World.keeps_setTask _ _) bound)
  | start => exact .inl ⟨bound, rfl⟩
  | @seat task context _ _ moved =>
    simp only [World.addContext, World.addTask, Array.size_push] at bound
    rcases Nat.lt_succ_iff_lt_or_eq.1 bound with old | rfl
    · left
      simp [World.context, World.addContext, World.addTask, Array.getElem?_push, Nat.ne_of_lt old,
        old]
    · right
      simpa [World.context, World.addContext, World.addTask] using moved

theorem Change.tasks {s s' : State} {m : Move} (change : Change s m s') :
    s.world.tasks.size ≤ s'.world.tasks.size := by
  cases change with
  | step _ step => exact Nat.le_of_eq step.keeps.tasks.symm
  | quiet quiet => exact Nat.le_of_eq quiet.keeps.tasks.symm
  | wake => exact Nat.le_of_eq (World.keeps_setTask _ _).tasks.symm
  | start => exact Nat.le_refl _
  | seat => simp [World.addContext, World.addTask]

theorem Change.seats {s s' : State} {m : Move} (change : Change s m s') (seats : s.Seats) :
    s'.Seats := by
  cases change with
  | @step i t w' t' at' step moved =>
    refine seats.of_keeps step.keeps ?_
    intro j u found
    rcases getElem?_setIfInBounds_some found with ⟨rfl, rfl⟩ | ⟨-, old⟩
    · exact ⟨t, at', step.context.symm, step.runs⟩
    · exact ⟨u, old, rfl, id⟩
  | quiet quiet => exact seats.of_keeps quiet.keeps fun j u found => ⟨u, found, rfl, id⟩
  | wake =>
    exact seats.of_keeps (World.keeps_setTask _ _) fun j u found => ⟨u, found, rfl, id⟩
  | start seated free => exact seats_start seats seated free
  | seat own => exact seats_seat seats own

theorem Run.seats (run : Run) (k : Nat) : (run.state k).Seats := by
  refine run.always ⟨?_, ?_, ?_, ?_⟩ (fun k seats => (run.change k).seats seats) k
  · intro i t found
    simp at found
  · intro c bound
    simp at bound
  · intro c d bound
    simp at bound
  · intro i j t u found
    simp at found

theorem Run.tasks_mono (run : Run) {a b : Nat} (le : a ≤ b) :
    (run.state a).world.tasks.size ≤ (run.state b).world.tasks.size := by
  induction le with
  | refl => exact Nat.le_refl _
  | step _ ih => exact Nat.le_trans ih (run.change _).tasks

theorem State.Seats.same_thread {s : State} (seats : s.Seats) {i j : ThreadId} {t u : Thread}
    (found : s.threads[i]? = some t) (found' : s.threads[j]? = some u) (runs : t.Runs)
    (runs' : u.Runs) (same : t.me s.world = u.me s.world) : i = j :=
  seats.alone i j t u found found' runs runs'
    (seats.distinct _ _ (seats.seated i t found) (seats.seated j u found') same)

theorem Change.me {s s' : State} {m : Move} {i : ThreadId} (change : Change s m s')
    (seats : s.Seats) (found : s.threads[i]? = some t) : t.me s'.world = t.me s.world := by
  cases change with
  | step at' step moved => exact step.keeps.taskOf _
  | quiet quiet => exact quiet.taskOf _
  | wake | start => rfl
  | seat =>
    have bound := seats.seated i t found
    simp [Thread.me, World.taskOf, World.context, World.addContext, World.addTask,
      Array.getElem?_push, Nat.ne_of_lt bound]

theorem Turns.me {s s' : State} {i j : ThreadId} {u v : Thread} (turns : Turns s s' i t t')
    (found : s.threads[j]? = some u) (found' : s'.threads[j]? = some v) :
    v.me s'.world = u.me s.world := by
  rcases turns.others j v found' with ⟨rfl, rfl⟩ | ⟨-, old⟩
  · rw [turns.before] at found
    cases found
    exact turns.step.me
  · rw [found] at old
    cases old
    exact turns.step.keeps.taskOf _

end LazyGraph

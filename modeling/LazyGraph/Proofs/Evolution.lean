import LazyGraph.Proofs.Run

/-!
# What every move keeps

Values are final and slots only move forward, whatever the threads do. A property of single threads
that rests on such facts is kept by a run once the thread's own steps keep it.
-/

namespace LazyGraph

namespace World

variable {w w' : World}

/-! ## Elementary changes -/

theorem still_of_same (heap : w'.heap = w.heap) (queues : w'.queues = w.queues)
    (maps : w'.maps = w.maps) : w.Still w' where
  value n v known := by simpa [value?, node?, heap] using known
  thunk n known := by simpa [thunk?, node?, heap] using known
  slot n := by simp [slot, thunk?, node?, heap]
  queue q := by simp [queue?, queues]
  maps j := maps ▸ .refl _

theorem still_setTask (u : TaskId) (task : Task) : w.Still (w.setTask u task) :=
  still_of_same rfl rfl rfl

theorem still_wake (u : TaskId) : w.Still (w.wake u) :=
  still_of_same rfl rfl rfl

theorem still_setContext (c : ContextId) (context : Context) :
    w.Still (w.setContext c context) :=
  still_of_same rfl rfl rfl

theorem still_leave (t : Thread) (n : NodeId) : w.Still (t.leave w n) :=
  still_setContext _ _

theorem still_seat (task : Task) (context : Context) :
    w.Still ((w.addTask task).1.addContext context).1 :=
  still_of_same rfl rfl rfl

theorem thunk?_isSome_write (n : NodeId) (cell : Option Cell) (m : NodeId)
    (known : (w.thunk? m).isSome) : ((w.write n cell).thunk? m).isSome := by
  rw [thunk?, node?_write]
  cases found : w.thunk? n with
  | none => exact known
  | some t =>
    by_cases same : m = n
    · simp [same, Node.thunk?]
    · simpa [same, thunk?] using known

@[simp] theorem queue?_write (n : NodeId) (cell : Option Cell) (q : QueueId) :
    (w.write n cell).queue? q = w.queue? q := by
  simp [queue?]

theorem evolves_write (n : NodeId) (cell : Option Cell) : w.Evolves (w.write n cell) where
  value m v known := by simpa using known
  thunk m known := thunk?_isSome_write n cell m known
  slot m := later_write m cell
  queue q Q there := ⟨Q, by simpa using there, rfl, rfl, id⟩

theorem evolves_close (q : QueueId) : w.Evolves (w.close q) where
  value _ _ := id
  thunk _ := id
  slot _ := Slot.Later.refl _
  queue r Q there := by
    rw [queue?_close, there]
    split
    · exact ⟨Q.close, rfl, rfl, rfl, fun _ => rfl⟩
    · exact ⟨Q, rfl, rfl, rfl, id⟩

theorem evolves_addQueue (Q : Queue) : w.Evolves (w.addQueue Q).1 where
  value _ _ := id
  thunk _ := id
  slot _ := Slot.Later.refl _
  queue r R there := by
    have bound := lt_of_queue? there
    exact ⟨R, by rw [queue?_addQueue, if_neg (Nat.ne_of_lt bound), there], rfl, rfl, id⟩

theorem evolves_push {q : QueueId} {m : Message} (pushed : w.push? q m = some w') :
    w.Evolves w' := by
  obtain ⟨queues, Q, rfl, -, there, -, after⟩ := push?_eq_some pushed
  refine ⟨fun _ _ => id, fun _ => id, fun _ => Slot.Later.refl _, ?_⟩
  intro r R found
  rw [after r]
  split
  · rename_i same
    subst same
    rw [there] at found
    cases found
    exact ⟨_, rfl, rfl, rfl, id⟩
  · exact ⟨R, found, rfl, rfl, id⟩

theorem evolves_enrol (k : CapabilityId) (q : QueueId) : w.Evolves (w.enrol k q) where
  value _ _ := id
  thunk _ := id
  slot _ := Slot.Later.refl _
  queue _ Q there := ⟨Q, there, rfl, rfl, id⟩

end World

/-! ## Steps and moves -/

variable {w w' : World} {t t' : Thread}

theorem Errand.evolves (errand : Errand w t w' t') : w.Evolves w' := by
  have same := World.Evolves.refl w
  cases errand with
  | quiet next kind quiet => exact quiet.toStill.evolves
  | dismissListed next quiet => exact quiet.toStill.evolves
  | wake next => exact (World.still_wake _).evolves
  | drain next kind => exact World.evolves_close _
  | «seal» next => exact World.evolves_close _
  | overwrite next => exact World.evolves_write _ _
  | surrendered next same => exact World.evolves_write _ _
  | _ => exact same

theorem HostStep.evolves (step : HostStep w t w' t') : w.Evolves w' := by
  have same := World.Evolves.refl w
  cases step with
  | code _ _ quiet | abandon _ _ quiet | clear _ _ quiet | reset _ _ quiet | set _ _ quiet
  | revert _ _ quiet | giveCode _ _ _ _ quiet => exact quiet.toStill.evolves
  | giveLeaving | dropEvaluation | dropLeaving => exact (World.still_leave _ _).evolves
  | _ => exact same

theorem Forcing.evolves (step : Forcing w t w' t') : w.Evolves w' := by
  have same := World.Evolves.refl w
  cases step with
  | seized | installed => exact World.evolves_write _ _
  | started => exact (World.still_setContext _ _).evolves
  | released => exact (World.still_leave _ _).evolves
  | _ => exact same

theorem Waits.evolves (step : Waits w t w' t') : w.Evolves w' := by
  have same := World.Evolves.refl w
  cases step with
  | locked | published => exact World.evolves_write _ _
  | gathered => exact World.evolves_addQueue _
  | joined _ _ pushed => exact World.evolves_push pushed
  | enrolled => exact World.evolves_enrol _ _
  | enlist _ _ quiet | retract _ _ quiet | enlisted _ _ quiet => exact quiet.toStill.evolves
  | «suspend» | resumed => exact (World.still_setTask _ _).evolves
  | _ => exact same

theorem Attempt.evolves (step : Attempt w t w' t') : w.Evolves w' := by
  cases step with
  | probe => exact World.Evolves.refl w
  | hopeless _ _ quiet | missed _ _ quiet => exact quiet.toStill.evolves
  | exchanged _ _ _ quiet => exact (World.evolves_write _ _).trans quiet.toStill.evolves

theorem Step.evolves (step : Step w t w' t') : w.Evolves w' := by
  cases step with
  | stay => exact World.Evolves.refl w
  | errand step => exact step.evolves
  | host step => exact step.evolves
  | forcing step => exact step.evolves
  | waits step => exact step.evolves
  | attempt step => exact step.evolves

theorem Change.evolves {s s' : State} {m : Move} (change : Change s m s') :
    s.world.Evolves s'.world := by
  cases change with
  | step at' step moved => exact step.evolves
  | quiet quiet => exact quiet.toStill.evolves
  | wake => exact (World.still_wake _).evolves
  | start => exact World.Evolves.refl _
  | seat => exact (World.still_seat _ _).evolves

theorem Run.evolves (run : Run) {j k : Nat} (le : j ≤ k) :
    (run.state j).world.Evolves (run.state k).world := by
  induction le with
  | refl => exact World.Evolves.refl _
  | step le ih => exact ih.trans (run.change _).evolves

/-! ## Threads one by one -/

theorem getElem?_setIfInBounds_some {xs : Array Thread} {i j : ThreadId} {u : Thread}
    (found : (xs.setIfInBounds i t)[j]? = some u) :
    j = i ∧ u = t ∨ j ≠ i ∧ xs[j]? = some u := by
  rw [Array.getElem?_setIfInBounds] at found
  split at found
  · rename_i same
    split at found
    · exact .inl ⟨same.symm, by simpa using found.symm⟩
    · cases found
  · rename_i other
    exact .inr ⟨Ne.symm other, found⟩

theorem getElem?_push_some {xs : Array Thread} {j : ThreadId} {u : Thread}
    (found : (xs.push t)[j]? = some u) : j = xs.size ∧ u = t ∨ xs[j]? = some u := by
  rw [Array.getElem?_push] at found
  split at found
  · rename_i same
    exact .inl ⟨same, by simpa using found.symm⟩
  · exact .inr found

def State.Each (s : State) (P : World → Thread → Prop) : Prop :=
  ∀ (i : ThreadId) t, s.threads[i]? = some t → P s.world t

/-- A property that other threads do not disturb is kept if a thread's own steps keep it. -/
theorem Change.each {s s' : State} {m : Move} {P : World → Thread → Prop}
    (change : Change s m s') (each : s.Each P)
    (others : ∀ t, P s.world t → P s'.world t)
    (own : ∀ (i : ThreadId) t t', s.threads[i]? = some t → Step s.world t s'.world t' → P s'.world t')
    (fresh : ∀ t c env, t.agenda = [] → t.stack = [] → t.control = .run c env → P s'.world t) :
    s'.Each P := by
  cases change with
  | step at' step moved =>
    intro j u found
    rcases getElem?_setIfInBounds_some found with ⟨rfl, rfl⟩ | ⟨-, old⟩
    · exact own _ _ _ at' step
    · exact others u (each j u old)
  | quiet | wake | seat =>
    intro j u found
    exact others u (each j u found)
  | start seated free errands frames code =>
    intro j u found
    rcases getElem?_push_some found with ⟨-, rfl⟩ | old
    · exact fresh _ _ _ errands frames code
    · exact others u (each j u old)

theorem Change.thread {s s' : State} {m : Move} {i : ThreadId} (change : Change s m s')
    (found : s.threads[i]? = some t) :
    ∃ t', s'.threads[i]? = some t' ∧ (t' = t ∨ Step s.world t s'.world t') := by
  cases change with
  | @step j u w' u' at' step moved =>
    by_cases same : j = i
    · subst same
      rw [at'] at found
      cases found
      have bound := (Array.getElem?_eq_some_iff.1 at').1
      exact ⟨u', by simp [bound], .inr step⟩
    · exact ⟨t, by simp [same, found], .inl rfl⟩
  | quiet | wake | seat => exact ⟨t, found, .inl rfl⟩
  | start =>
    have bound := (Array.getElem?_eq_some_iff.1 found).1
    exact ⟨t, by simp [Array.getElem?_push, found, Nat.ne_of_lt bound], .inl rfl⟩

def Thread.Fresh (t : Thread) : Prop :=
  t.agenda = [] ∧ t.stack = [] ∧ ∃ c env, t.control = .run c env

structure Turns (s s' : State) (i : ThreadId) (t t' : Thread) : Prop where
  before : s.threads[i]? = some t
  after : s'.threads[i]? = some t'
  step : Step s.world t s'.world t'
  stays : ∀ (j : ThreadId) u, j ≠ i → s.threads[j]? = some u → s'.threads[j]? = some u
  others : ∀ (j : ThreadId) u, s'.threads[j]? = some u → j = i ∧ u = t' ∨ j ≠ i ∧ s.threads[j]? = some u

/-- Slots and queues stay as they are, and so do the threads, but for new ones. -/
structure Rests (s s' : State) : Prop where
  still : s.world.Still s'.world
  stays : ∀ (j : ThreadId) u, s.threads[j]? = some u → s'.threads[j]? = some u
  others : ∀ (j : ThreadId) u, s'.threads[j]? = some u → s.threads[j]? = some u ∨ u.Fresh

theorem turns_of_step {s : State} {i : ThreadId} (at' : s.threads[i]? = some t)
    (step : Step s.world t w' t') : Turns s ⟨w', s.threads.setIfInBounds i t'⟩ i t t' := by
  have bound := (Array.getElem?_eq_some_iff.1 at').1
  refine ⟨at', by simp [bound], step, fun j u other found => ?_, fun j u =>
    getElem?_setIfInBounds_some⟩
  simpa [Ne.symm other] using found

theorem Turns.mem {s s' : State} {i : ThreadId} {u : Thread} (turns : Turns s s' i t t')
    (known : u ∈ s.threads) : u = t ∨ u ∈ s'.threads := by
  obtain ⟨j, found⟩ := Array.mem_iff_getElem?.1 known
  by_cases same : j = i
  · subst same
    rw [turns.before] at found
    cases found
    exact .inl rfl
  · exact .inr (Array.mem_of_getElem? (turns.stays j u same found))

theorem Rests.mem {s s' : State} {u : Thread} (rests : Rests s s') (known : u ∈ s.threads) :
    u ∈ s'.threads := by
  obtain ⟨j, found⟩ := Array.mem_iff_getElem?.1 known
  exact Array.mem_of_getElem? (rests.stays j u found)

theorem Change.split {s s' : State} {m : Move} (change : Change s m s') :
    Rests s s' ∨ ∃ i t t', Turns s s' i t t' ∧ (m = .step i ∨ ∃ g as, t.agenda = .gate g :: as) := by
  cases change with
  | step at' step moved => exact .inr ⟨_, _, _, turns_of_step at' step, moved⟩
  | quiet quiet => exact .inl ⟨quiet.toStill, fun j u => id, fun j u => .inl⟩
  | wake => exact .inl ⟨World.still_wake _, fun j u => id, fun j u => .inl⟩
  | start seated free errands frames code =>
    refine .inl ⟨World.Still.refl _, ?_, ?_⟩
    · intro j u found
      have bound := (Array.getElem?_eq_some_iff.1 found).1
      simp [Array.getElem?_push, found, Nat.ne_of_lt bound]
    · intro j u found
      rcases getElem?_push_some found with ⟨-, rfl⟩ | old
      · exact .inr ⟨errands, frames, _, _, code⟩
      · exact .inl old
  | seat => exact .inl ⟨World.still_seat _ _, fun j u => id, fun j u => .inl⟩

/-! ## One thread among others -/

/-- Thread `i` and the world it sees are replaced. -/
def State.put (s : State) (i : ThreadId) (x : Turn) : State :=
  ⟨x.1, s.threads.setIfInBounds i x.2⟩

namespace State

variable {s : State} {i : ThreadId} {x : Turn}

theorem put_self (found : s.threads[i]? = some t) : s.put i (s.world, t) = s := by
  rw [put, setIfInBounds_self found]

theorem threads_put (found : s.threads[i]? = some t) : (s.put i x).threads[i]? = some x.2 := by
  simp [put, (Array.getElem?_eq_some_iff.1 found).1]

theorem threads_put_other {j : ThreadId} (other : j ≠ i) :
    (s.put i x).threads[j]? = s.threads[j]? := by
  rw [put, Array.getElem?_setIfInBounds_ne other.symm]

theorem step_put (found : s.threads[i]? = some t) :
    (s.put i x).step i = s.put i (x.2.step x.1) := by
  simp only [step, threads_put found]
  simp [put]

end State

theorem State.own_step {s : State} {i : ThreadId} (found : s.threads[i]? = some t) :
    (s.step i).world = (t.step s.world).1 ∧
      (s.step i).threads[i]? = some (t.step s.world).2 := by
  have bound := (Array.getElem?_eq_some_iff.1 found).1
  unfold State.step
  rw [found]
  exact ⟨rfl, by simp [bound]⟩

/-- Whatever else happens, a thread stays where it is, but for a gate that is opened. -/
theorem State.not_own_step {s : State} {m : Move} {i : ThreadId} (other : m ≠ .step i)
    (found : s.threads[i]? = some t) :
    (s.after m).threads[i]? = some t ∨
      ∃ g as, t.agenda = .gate g :: as ∧ (s.after m).world = s.world ∧
        (s.after m).threads[i]? = some { t with agenda := as } := by
  have bound := (Array.getElem?_eq_some_iff.1 found).1
  cases m with
  | step j =>
    have apart : j ≠ i := fun same => other (by rw [same])
    simp only [State.after, State.step]
    split
    · exact .inl found
    · exact .inl (by simpa [apart] using found)
  | pass j g =>
    simp only [State.after, Array.getElem?_modify]
    split
    · rw [found, Option.map_some]
      rcases pass_cases t g with stays | ⟨as, next, passed⟩
      · exact .inl (by rw [stays])
      · exact .inr ⟨g, as, next, trivial, by rw [passed]⟩
    · exact .inl found
  | start c code env mayStop maySuspend =>
    refine .inl ?_
    simp [State.after, State.spawn, Array.getElem?_push, found, Nat.ne_of_lt bound]
  | _ => exact .inl found

theorem State.thread_of_after {s : State} {m : Move} {i : ThreadId}
    (found : (s.after m).threads[i]? = some t') :
    (∃ t, s.threads[i]? = some t) ∨ t'.Fresh := by
  have old : ∀ xs : Array Thread, xs.size = s.threads.size → xs[i]? = some t' →
      (∃ t, s.threads[i]? = some t) ∨ t'.Fresh := fun xs size found => by
    have bound := (Array.getElem?_eq_some_iff.1 found).1
    exact .inl ⟨_, Array.getElem?_eq_getElem (size ▸ bound)⟩
  cases m with
  | step j =>
    refine old _ ?_ found
    simp only [State.after, State.step]
    split <;> simp
  | pass j g => exact old _ (by simp [State.after]) found
  | start c code env mayStop maySuspend =>
    rcases getElem?_push_some found with ⟨-, rfl⟩ | before
    · exact .inr ⟨rfl, rfl, _, _, rfl⟩
    · exact .inl ⟨t', before⟩
  | _ => exact old _ rfl found

namespace Run

variable {run : Run} {k : Nat} {i : ThreadId}

theorem own_step (turn : run.move k = .step i) (found : (run.state k).threads[i]? = some t) :
    (run.state (k + 1)).world = (t.step (run.state k).world).1 ∧
      (run.state (k + 1)).threads[i]? = some (t.step (run.state k).world).2 := by
  rw [state_succ, turn]
  exact State.own_step found

theorem not_own_step (other : run.move k ≠ .step i)
    (found : (run.state k).threads[i]? = some t) :
    (run.state (k + 1)).threads[i]? = some t ∨
      ∃ g as, t.agenda = .gate g :: as ∧ (run.state (k + 1)).world = (run.state k).world ∧
        (run.state (k + 1)).threads[i]? = some { t with agenda := as } :=
  State.not_own_step other found

theorem thread_before (found : (run.state (k + 1)).threads[i]? = some t') :
    (∃ t, (run.state k).threads[i]? = some t) ∨ t'.Fresh :=
  State.thread_of_after found

/-- A property of each thread that its own steps keep and other threads leave alone. -/
theorem each_found {P : World → Thread → Prop} (run : Run)
    (others : ∀ k (i : ThreadId) t, (run.state k).threads[i]? = some t →
      P (run.state k).world t → P (run.state (k + 1)).world t)
    (own : ∀ k (i : ThreadId) t, (run.state k).threads[i]? = some t →
      P (run.state k).world t → P (t.step (run.state k).world).1 (t.step (run.state k).world).2)
    (gate : ∀ w t g as, t.agenda = .gate g :: as → P w t → P w { t with agenda := as })
    (fresh : ∀ w t, t.Fresh → P w t) (k : Nat) : (run.state k).Each P := by
  induction k with
  | zero =>
    intro i t found
    simp [state, trace] at found
  | succ k ih =>
    intro i t' found
    rcases thread_before found with ⟨t, before⟩ | new
    · by_cases turn : run.move k = .step i
      · obtain ⟨world, after⟩ := own_step turn before
        rw [after] at found
        cases found
        rw [world]
        exact own k i t before (ih i t before)
      · have held := others k i t before (ih i t before)
        rcases not_own_step turn before with stays | ⟨g, as, next, -, passed⟩
        · rw [stays] at found
          cases found
          exact held
        · rw [passed] at found
          cases found
          exact gate _ t g as next held
    · exact fresh _ t' new

theorem each {P : World → Thread → Prop} (run : Run)
    (others : ∀ k t, P (run.state k).world t → P (run.state (k + 1)).world t)
    (own : ∀ k (i : ThreadId) t, (run.state k).threads[i]? = some t →
      P (run.state k).world t → P (t.step (run.state k).world).1 (t.step (run.state k).world).2)
    (gate : ∀ w t g as, t.agenda = .gate g :: as → P w t → P w { t with agenda := as })
    (fresh : ∀ w t, t.Fresh → P w t) (k : Nat) : (run.state k).Each P :=
  run.each_found (fun k _ t _ => others k t) own gate fresh k

end Run

end LazyGraph

import LazyGraph.Proofs.Lifecycle
import LazyGraph.Proofs.Tended

/-!
# Locks are transient

Unless a host locks slots itself, whoever has locked one is on its way into a queue. So a task finds
no slot locked while nobody else is on that way.
-/

namespace LazyGraph

variable {w w' : World} {t t' : Thread} {n : NodeId} {lock : Slot} {o : Option TaskId}

def Thread.triesLock (t : Thread) : Bool :=
  match t.control with
  | .probe .tryLock _ => true
  | _ => false

/-- Hosts do not lock slots. -/
def Run.NeverTriesLock (run : Run) : Prop :=
  ∀ k, ∀ t ∈ (run.state k).threads, t.triesLock = false

/-- The thread stands between the locking of a slot and the publication of the queue for it. -/
def Thread.holdsLock (t : Thread) : Bool :=
  match t.control with
  | .gather _ _ _ _ => true
  | c => c.waiting?.any (·.lock.isSome)

/-- The thread has locked the slot of `n` to put a queue there. -/
inductive Thread.HasLock (n : NodeId) (lock : Slot) (t : Thread) : Prop
  | gather {claim owner} (idle : t.agenda = []) (at' : t.control = .gather n claim owner lock)
  | publish {x} (waiting : t.control.waiting? = some x) (thunk : x.thunk = n)
    (made : x.lock = some lock)

namespace Thread

theorem HasLock.holdsLock (has : t.HasLock n lock) : t.holdsLock = true := by
  unfold Thread.holdsLock
  split
  · rfl
  · rename_i free
    cases has with
    | gather _ at' => exact absurd at' (free _ _ _ _)
    | publish waiting _ made => simp [waiting, made]

theorem HasLock.pass {g : String} {as : List Action} (has : t.HasLock n lock)
    (next : t.agenda = .gate g :: as) : ({ t with agenda := as } : Thread).HasLock n lock := by
  cases has with
  | gather idle => simp [idle] at next
  | publish waiting thunk made => exact .publish waiting thunk made

/-- Whoever has locked a slot keeps the lock until the slot is written. -/
theorem HasLock.step (has : t.HasLock n (w.slot n)) (noted : t.Noted) (straight : t.Straight)
    (same : (t.step w).1.slot n = w.slot n) (locked : (w.slot n).cell = some (.locked o)) :
    (t.step w).2.HasLock n (w.slot n) := by
  cases has with
  | gather idle at' =>
    rw [step_idle idle]
    simp only [proceed, at', Thread.gather]
    exact .publish rfl rfl rfl
  | @publish x waiting thunk made =>
    have on := fun waiting' => HasLock.publish (t := (t.step w).2) waiting' thunk made
    cases (step_cases w t).way noted straight waiting with
    | enrols _ after => exact on (Control.waiting?_of_enrols? after)
    | retracted _ _ after | confirmed _ _ _ _ after | enrolled _ after =>
      exact on (Control.waiting?_of_enrolled? after)
    | joined _ none' =>
      rw [made] at none'
      cases none'
    | published held =>
      rw [thunk, same, locked] at held
      cases held
    | missed _ _ made' changed =>
      rw [made] at made'
      cases made'
      rw [thunk, Slot.unchanged_self] at changed
      cases changed

end Thread

theorem ThunkOp.eq_tryLock {op : ThunkOp} {me : TaskId} {cell : Option Cell}
    (tries : op.attempt? me cell = some (some (.locked o))) : op = .tryLock := by
  unfold attempt? at tries
  split at tries
  · cases tries
  · rfl
  · cases tries
  · cases tries

namespace Run

variable {run : Run}

theorem no_exchange_lock (fair : run.NeverTriesLock) (k : Nat) :
    (run.state k).Each fun _ t => ∀ n seen, t.control ≠ .exchange n seen (some (.locked o)) := by
  refine run.each (P := fun _ t => ∀ n seen, t.control ≠ .exchange n seen (some (.locked o)))
    (fun _ _ => id) ?_ (fun _ _ _ _ _ => id) ?_ k
  · intro k i t found never n seen at'
    rcases (step_cases (run.state k).world t).exchange_origin at' with old | ⟨op, probes, tries⟩
    · exact never n seen old
    · have other := fair k t (Array.mem_of_getElem? found)
      rw [ThunkOp.eq_tryLock tries] at probes
      simp [Thread.triesLock, probes] at other
  · rintro w t ⟨-, -, c, env, is⟩ n seen at'
    rw [is] at at'
    cases at'

/-- Who locks a slot has the lock. -/
theorem has_lock_of_transition {k : Nat} {i : ThreadId} (fair : run.NeverTriesLock)
    (turn : run.move k = .step i) (found : (run.state k).threads[i]? = some t)
    (locked : ((run.state (k + 1)).world.slot n).cell = some (.locked o))
    (transition : Transition (run.state k).world t n ((run.state k).world.slot n).cell
      ((run.state (k + 1)).world.slot n).cell) :
    ∃ u, (run.state (k + 1)).threads[i]? = some u ∧
      u.HasLock n ((run.state (k + 1)).world.slot n) := by
  obtain ⟨world, after⟩ := run.own_step turn found
  refine ⟨_, after, ?_⟩
  generalize old : ((run.state k).world.slot n).cell = before at transition
  generalize new : ((run.state (k + 1)).world.slot n).cell = now at transition
  have same : some (.locked o) = now := locked.symm.trans new
  cases transition with
  | tryLock idle at' => exact absurd at' (no_exchange_lock fair k i t found n _)
  | @lock claim owner seen idle at' =>
    rw [Thread.step_idle idle] at world ⊢
    simp only [Thread.proceed, at', Thread.lock] at world ⊢
    split at world
    · rw [world]
      exact .gather idle rfl
    · rw [world, old] at locked
      cases locked
  | @overwrite v => cases v <;> cases same
  | enter | claim | unlock | publish | abandon | update => cases same

theorem lock_held (direct : run.NeverDetours) (fair : run.NeverTriesLock) (k : Nat)
    (locked : ((run.state k).world.slot n).cell = some (.locked o)) :
    ∃ (i : ThreadId) (t : Thread), (run.state k).threads[i]? = some t ∧
      t.HasLock n ((run.state k).world.slot n) := by
  induction k generalizing o with
  | zero => simp [state, trace, World.slot, World.thunk?, World.node?] at locked
  | succ k ih =>
    rcases run.transition k n with same | ⟨i, t, turn, found, transition⟩
    · rw [same] at locked ⊢
      obtain ⟨i, t, found, has⟩ := ih locked
      by_cases turn : run.move k = .step i
      · obtain ⟨world, after⟩ := run.own_step turn found
        rw [world] at same
        exact ⟨i, _, after, has.step (run.noted k i t found) (run.straight direct k i t found) same
          locked⟩
      · rcases run.not_own_step turn found with stays | ⟨g, as, next, -, passed⟩
        · exact ⟨i, t, stays, has⟩
        · exact ⟨i, _, passed, has.pass next⟩
    · exact ⟨i, has_lock_of_transition fair turn found locked transition⟩

/-- While nobody else is on its way into a queue with a lock, `i` alone can have one. -/
theorem lock_own (direct : run.NeverDetours) (fair : run.NeverTriesLock) {k : Nat} {i : ThreadId}
    (found : (run.state k).threads[i]? = some t)
    (lockless : ∀ j ≠ i, ∀ u, (run.state k).threads[j]? = some u → u.holdsLock = false)
    (locked : ((run.state k).world.slot n).cell = some (.locked o)) :
    t.HasLock n ((run.state k).world.slot n) := by
  obtain ⟨j, u, there, has⟩ := lock_held direct fair k locked
  by_cases same : j = i
  · subst same
    rw [found] at there
    cases there
    exact has
  · have holds := has.holdsLock
    simp [lockless j same u there] at holds

end Run

end LazyGraph

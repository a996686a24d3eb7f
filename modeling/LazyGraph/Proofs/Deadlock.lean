import LazyGraph.Proofs.Ownership
import LazyGraph.Proofs.Wakeup

/-!
# Deadlocks come from cyclic demands

A task waits for a thunk that another task is evaluating, and what that one waits for ranks below.
-/

namespace LazyGraph

def Control.waitsAt? : Control → Option NodeId
  | .attach n _ | .lock n _ _ _ | .gather n _ _ _ | .join n _ _ _ => some n
  | c => c.pushed?

def Thread.Descends (r : NodeId → NodeId → Prop) (t : Thread) : Prop :=
  ∀ n, t.control.waitsAt? = some n → ∀ m ∈ t.evaluations, r n m

def Control.forced? : Control → Option NodeId
  | .force n _ => some n
  | _ => none

/-- A task forces only thunks that rank below all those on its update stack. -/
def Run.Ranked (run : Run) (r : NodeId → NodeId → Prop) : Prop :=
  ∀ k, ∀ t ∈ (run.state k).threads, ∀ n ∈ t.control.forced?,
    ∀ m ∈ ((run.state k).world.context t.context).stack.frames, r n m

variable {w w' : World} {t t' : Thread} {n : NodeId} {r : NodeId → NodeId → Prop}

theorem Control.isFirm_of_waitsAt? {c : Control} (waits : c.waitsAt? = some n) :
    c.isFirm = false := by
  cases c <;> first | rfl | cases waits

theorem Control.isFirm_of_forced? {c : Control} (forced : c.forced? = some n) :
    c.isFirm = false := by
  cases c <;> first | rfl | cases forced

theorem Control.isOutcome_of_forced? {c : Control} (forced : c.forced? = some n) :
    c.isOutcome = false := by
  cases c <;> first | rfl | cases forced

theorem Control.waitsAt?_of_isCalm {c : Control} (calm : c.isCalm) : c.waitsAt? = none := by
  cases c <;> first | rfl | cases calm

theorem HostStep.waitsAt? (step : HostStep w t w' t') : t'.control.waitsAt? = none := by
  rcases step.lands with calm | ⟨n, is⟩ | ⟨op, n, ns, env, -, is⟩ |
    ⟨n, v, e, is, -⟩
  · exact Control.waitsAt?_of_isCalm calm
  all_goals
    rw [is]
    rfl

theorem Step.waitsAt_origin (step : Step w t w' t') (waits : t'.control.waitsAt? = some n) :
    t'.stack = t.stack ∧
      (t.control.waitsAt? = some n ∨ t.control.forced? = some n) := by
  cases step with
  | stay => exact ⟨rfl, .inl waits⟩
  | errand step =>
    obtain ⟨stack, same | exit⟩ := step.frames
    · exact ⟨stack, .inl (same ▸ waits)⟩
    · rw [Control.waitsAt?_of_isCalm (Control.isCalm_of_isExit exit)] at waits
      cases waits
  | host step =>
    rw [step.waitsAt?] at waits
    cases waits
  | forcing step =>
    cases step with
    | await _ at' =>
      rw [at']
      exact ⟨rfl, .inr waits⟩
    | body _ _ _ calm =>
      rw [Control.waitsAt?_of_isCalm calm] at waits
      cases waits
    | _ => cases waits
  | waits step =>
    cases step with
    | busy | asleep => exact ⟨rfl, .inl waits⟩
    | @proceed x blocked _ _ at' | @published x blocked _ _ _ at' =>
      rw [at']
      cases blocked with
      | false => cases waits
      | true => exact ⟨rfl, .inl waits⟩
    | lock _ at' | join _ at' | locked _ at' | lockMissed _ at' | gathered _ at' | joined _ at'
    | joinMissed _ at' | enlist _ at' | enrolled _ at' | confirmClosed _ at' | confirm _ at'
    | retract _ at' | enlisted _ at' | «suspend» _ at' =>
      rw [at']
      exact ⟨rfl, .inl waits⟩
    | _ => cases waits
  | attempt step => cases step <;> cases waits

theorem Step.descends (step : Step w t w' t')
    (ranked : ∀ n ∈ t.control.forced?, ∀ m ∈ t.evaluations, r n m)
    (descends : t.Descends r) : t'.Descends r := by
  intro n waits m known
  obtain ⟨stack, origin⟩ := step.waitsAt_origin waits
  have soft : t.control.isFirm = false := by
    rcases origin with old | forced
    · exact Control.isFirm_of_waitsAt? old
    · exact Control.isFirm_of_forced? forced
  rw [t'.evaluations_eq (Control.isFirm_of_waitsAt? waits), stack, ← t.evaluations_eq soft] at known
  rcases origin with old | forced
  · exact descends n old m known
  · exact ranked n forced m known

namespace Run

variable {run : Run}

theorem descends (ranked : run.Ranked r) (k : Nat) :
    (run.state k).Each fun _ t => t.Descends r := by
  refine run.always (P := (·.Each fun _ t => t.Descends r)) (fun i t found => by simp at found) ?_ k
  intro k each
  refine (run.change k).each each (fun _ => id) ?_ ?_
  · intro i t t' found step
    refine step.descends ?_ (each i t found)
    intro n forced m known
    have runs := Thread.runs_of_control (Control.isOutcome_of_forced? forced)
    have tracks := (run.framed k).running i t found runs
    exact ranked k t (Array.mem_of_getElem? found) n forced m (tracks.frames ▸ known)
  · intro t c env errands frames code n waits
    rw [code] at waits
    cases waits

theorem of_isStuck {s : State} {i : ThreadId} (stuck : s.isStuck i = true) :
    ∃ t n claim, s.threads[i]? = some t ∧ t.agenda = [] ∧ t.control = .parked n claim ∧
      (s.world.task (t.me s.world)).permit = false := by
  simp only [State.isStuck, Option.any_eq_true, Bool.and_eq_true, Bool.not_eq_true'] at stuck
  obtain ⟨t, found, parked, free⟩ := stuck
  unfold Thread.isParked at parked
  split at parked
  · rename_i idle at'
    exact ⟨t, _, _, found, idle, at', free⟩
  · cases parked

theorem mem_evaluations_of_answers {m : NodeId} {claim : Bool} (idle : t.agenda = [])
    (parked : t.control = .parked m claim) (answers : t.Answers n) : n ∈ t.evaluations := by
  obtain ⟨f, known, is⟩ := answers.frame_of_idle idle (by rw [parked]; rfl)
  exact List.mem_append_right _ (List.mem_filterMap.2 ⟨f, known, is⟩)

/-- **Deadlock only from cyclic demand.** If hosts do not claim thunks themselves and every task
forces only thunks that rank below those that it evaluates, then some task is always running while
another one is suspended. -/
theorem some_task_runs (run : Run) (modest : run.NeverClaims) (wf : WellFounded r)
    (ranked : run.Ranked r) (k : Nat) (i : ThreadId) (stuck : (run.state k).isStuck i = true) :
    ∃ (j : ThreadId) (t : Thread), (run.state k).threads[j]? = some t ∧ t.outcome? = none ∧
      (run.state k).isStuck j = false := by
  by_contra none
  have asleep : ∀ (j : ThreadId) (t : Thread), (run.state k).threads[j]? = some t → t.Runs →
      (run.state k).isStuck j = true := by
    intro j t found runs
    by_contra awake
    exact none ⟨j, t, found, runs, by simpa using awake⟩
  have rest : (run.state k).AtRest := by
    intro u mem a known
    obtain ⟨j, found⟩ := Array.mem_iff_getElem?.1 mem
    have busy : u.agenda ≠ [] := List.ne_nil_of_mem known
    obtain ⟨t, n, claim, found', idle, -⟩ := of_isStuck (asleep j u found (Thread.runs_of_agenda busy))
    rw [found] at found'
    cases found'
    exact absurd idle busy
  -- Whoever waits for `n` is waited for by the owner of `n`, which waits for something lower.
  have descent : ∀ n (i : ThreadId) (t : Thread) (claim : Bool),
      (run.state k).threads[i]? = some t → t.control = .parked n claim →
      ((run.state k).world.task (t.me (run.state k).world)).permit = false → False := by
    intro n
    induction n using wf.induction with
    | _ n ih =>
      intro i t claim found parked free
      obtain ⟨q, Q, -, held, -⟩ := awaits_owner found (n := n) (by rw [parked]; rfl) free rest
      have owned : ((run.state k).world.slot n).ownedBy Q.owner = true := by
        simp [Slot.ownedBy, held, Cell.owner?]
      obtain ⟨j, u, found', -, answers⟩ := (run.owned modest k).answers n Q.owner owned
      have runs : u.Runs := answers.runs
      obtain ⟨v, m, claim', found'', idle, parked', free'⟩ := of_isStuck (asleep j u found' runs)
      rw [found'] at found''
      cases found''
      have below := run.descends ranked k j u found' m (by rw [parked']; rfl) n
        (mem_evaluations_of_answers idle parked' answers)
      exact ih m below j u claim' found' parked' free'
  obtain ⟨t, n, claim, found, -, parked, free⟩ := of_isStuck stuck
  exact descent n i t claim found parked free

/-- A task evaluates a thunk that needs another one, which a second task has taken. -/
def demand : Run :=
  .ofMoves {}
    ([.thunk (.prim (.box (.scalar (.int 7))) []) [], .thunk (.prim .evaluate [.arg 0 0]) [0],
      .sit true, .sit true, .evaluate 0 1, .evaluate 1 0] ++ List.replicate 8 (.step 1) ++
      List.replicate 30 (.step 0))
    (by decide +kernel)

theorem some_task_runs_demand :
    demand.NeverClaims ∧ demand.Ranked (· < ·) ∧ (demand.state 44).isStuck 0 = true ∧
      ∃ (j : ThreadId) (t : Thread), (demand.state 44).threads[j]? = some t ∧
        t.outcome? = none ∧ (demand.state 44).isStuck j = false := by
  have modest : demand.NeverClaims :=
    ofMoves_forall (P := fun s => ∀ t ∈ s.threads, t.claims = false) (by decide +kernel)
  have ranked : demand.Ranked (· < ·) :=
    ofMoves_forall (P := fun s => ∀ t ∈ s.threads, ∀ n ∈ t.control.forced?,
      ∀ m ∈ (s.world.context t.context).stack.frames, n < m) (by decide +kernel)
  have stuck : (demand.state 44).isStuck 0 = true := by decide +kernel
  exact ⟨modest, ranked, stuck, some_task_runs demand modest Nat.lt_wfRel.wf ranked 44 0 stuck⟩

end Run

end LazyGraph

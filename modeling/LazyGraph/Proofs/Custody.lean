import LazyGraph.Proofs.Ownership
import LazyGraph.Proofs.Wakeup

/-!
# No claim is orphaned

Whoever owns a slot is evaluating its thunk under a frame that holds the claim, and does not wait in
its own queue.
-/

namespace LazyGraph

/-- The thread runs host code or has just called or returned, stands at a gate, or is suspended. -/
inductive Thread.AtHost (t : Thread) : Prop
  | runs (idle : t.agenda = []) (calm : t.control.isCalm)
  | stands {g} (next : t.agenda = [.gate g])
  | suspended {n claim} (idle : t.agenda = []) (at' : t.control = .parked n claim)

/-- Nobody waits for itself. -/
def World.Apart (w : World) : Prop :=
  ∀ q Q, w.queue? q = some Q → ∀ m ∈ Q.messages, m.task ≠ Q.owner

variable {w w' : World} {t t' : Thread} {n : NodeId} {o : TaskId}

/-! ## Owners and waiters -/

theorem Step.apart (step : Step w t w' t') (apart : w.Apart)
    (foreign : ∀ o, t.control.owner? = some o → o ≠ t.me w)
    (joins : ∀ n claim q o, t.control = .join n claim q o → w.Serves q n o) : w'.Apart := by
  intro q Q' there m known
  rcases step.queue_cases q with same | handles
  · exact apart q Q' (same ▸ there) m known
  · cases handles with
    | made at' _ after =>
      rw [there] at after
      cases after
      obtain rfl := List.mem_singleton.1 known
      exact (foreign _ (by rw [at']; rfl)).symm
    | @joined n claim o Q at' before _ after =>
      rw [there] at after
      cases after
      rcases List.mem_append.1 known with old | new
      · exact apart q Q before m old
      · obtain rfl := List.mem_singleton.1 new
        obtain ⟨R, found, -, owner⟩ := joins n claim q o at'
        rw [before] at found
        cases found
        rw [owner]
        exact (foreign o (by rw [at']; rfl)).symm
    | drained _ _ after | sealed _ _ after =>
      rw [there] at after
      cases after
      cases known

theorem Run.apart (run : Run) (k : Nat) : (run.state k).world.Apart := by
  refine run.always (P := fun s => s.world.Apart) ?_ ?_ k
  · intro q Q there
    simp [World.queue?] at there
  · intro k apart
    rcases (run.change k).split with rests | ⟨i, t, t', turns, -⟩
    · intro q Q there
      exact apart q Q (rests.still.queue q ▸ there)
    · have before := turns.before
      exact turns.step.apart apart (fun o => (run.guarded k).foreign i t o before)
        fun n claim q o at' => ((run.queued k).joins i t n claim q o before at').1

/-! ## Owners and frames -/

theorem Thread.AtHost.frame (host : t.AtHost) (steady : t.Steady) (answers : t.Answers n) :
    ∃ f ∈ t.stack, f.claim? = some n := by
  cases answers with
  | frame known is => exact ⟨_, known, is⟩
  | control claim =>
    have firm := Control.isFirm_of_claim? claim
    cases host with
    | runs _ calm =>
      rw [Control.isFirm_of_isCalm calm] at firm
      cases firm
    | stands next => cases steady firm _ (by rw [next]; exact List.mem_singleton_self _)
    | suspended _ at' =>
      rw [at'] at firm
      cases firm
  | errand known claim =>
    cases host with
    | runs idle | suspended idle =>
      rw [idle] at known
      cases known
    | stands next =>
      rw [next] at known
      obtain rfl := List.mem_singleton.1 known
      cases claim

theorem Thread.agenda_of_standsAt? {g : String} (stands : t.standsAt? = some g)
    (single : t.agenda.length = 1) : t.agenda = [.gate g] := by
  unfold standsAt? at stands
  split at stands
  · simp_all
  · cases stands

namespace Run

variable {run : Run} {k : Nat}

theorem owner_runs (modest : run.NeverClaims)
    (owned : ((run.state k).world.slot n).ownedBy o = true) :
    ∃ (i : ThreadId) (t : Thread), (run.state k).threads[i]? = some t ∧
      t.me (run.state k).world = o ∧ t.Runs ∧
      (t.AtHost → n ∈ ((run.state k).world.context t.context).stack.frames ∧
        ∃ f ∈ t.stack, f.claim? = some n) := by
  obtain ⟨i, t, found, me, answers⟩ := (run.owned modest k).answers n o owned
  refine ⟨i, t, found, me, answers.runs, fun host => ?_⟩
  obtain ⟨f, known, claim⟩ := host.frame ((run.framed k).steady i t found) answers
  have tracks := (run.framed k).running i t found answers.runs
  refine ⟨?_, f, known, claim⟩
  rw [tracks.frames]
  exact List.mem_append_right _ (List.mem_filterMap.2 ⟨f, known, Frame.thunk?_of_claim? claim⟩)

/-- **No orphaned claim.** If hosts do not claim thunks themselves, the owner of a slot is a running
task; while it is in host code or suspended, it has the thunk on its update stack, in a frame that
holds the claim. A queue in the slot is its own, open, and it does not wait there. A task that has
ended owns nothing. -/
theorem no_orphaned_claim (run : Run) (modest : run.NeverClaims) (k : Nat) :
    (∀ n o, ((run.state k).world.slot n).ownedBy o = true →
      (∃ (i : ThreadId) (t : Thread), (run.state k).threads[i]? = some t ∧
        t.me (run.state k).world = o ∧ t.outcome? = none ∧
        (t.AtHost → n ∈ ((run.state k).world.context t.context).stack.frames ∧
          ∃ f ∈ t.stack, f.claim? = some n)) ∧
      ∀ q p, ((run.state k).world.slot n).cell = some (.queue q p) →
        ∃ Q, (run.state k).world.queue? q = some Q ∧ Q.owner = o ∧ Q.closed = false ∧
          ∀ m ∈ Q.messages, m.task ≠ o) ∧
    ∀ c < (run.state k).world.contexts.size,
      (∀ t ∈ (run.state k).threads, t.context = c → t.outcome?.isSome) →
      ∀ n, ((run.state k).world.slot n).ownedBy ((run.state k).world.taskOf c) = false := by
  refine ⟨?_, ?_⟩
  · intro n o owned
    refine ⟨owner_runs modest owned, ?_⟩
    intro q p held
    obtain rfl : p = o := by simpa [Slot.ownedBy, held, Cell.owner?] using owned
    obtain ⟨Q, there, -, rfl, open'⟩ := (run.queued k).slots n q p held
    exact ⟨Q, there, rfl, open', run.apart k q Q there⟩
  · intro c bound ended n
    by_contra owned
    obtain ⟨i, t, found, me, runs, -⟩ := owner_runs modest (by simpa using owned)
    have same := (run.seats k).distinct _ _ ((run.seats k).seated i t found) bound me
    have settled := ended t (Array.mem_of_getElem? found) same
    rw [show t.outcome? = none from runs] at settled
    cases settled

/-- The owner of a thunk stands at a gate in its code, and another task waits for it. -/
def custody : Run :=
  .ofMoves {}
    ([.thunk (.prim (.gate "g") []) [], .sit true, .sit true, .evaluate 0 0, .evaluate 1 0] ++
      List.replicate 14 (.step 0) ++ List.replicate 20 (.step 1))
    (by decide +kernel)

theorem no_orphaned_claim_custody :
    custody.NeverClaims ∧ ((custody.state 39).world.slot 0).cell = some (.queue 0 0) ∧
      (∃ t, (custody.state 39).threads[0]? = some t ∧ t.AtHost ∧
        0 ∈ ((custody.state 39).world.context t.context).stack.frames ∧
        ∃ f ∈ t.stack, f.claim? = some 0) ∧
      ∃ Q, (custody.state 39).world.queue? 0 = some Q ∧ Q.owner = 0 ∧ Q.closed = false ∧
        ∀ m ∈ Q.messages, m.task ≠ 0 := by
  have modest : custody.NeverClaims :=
    ofMoves_forall (P := fun s => ∀ t ∈ s.threads, t.claims = false) (by decide +kernel)
  have held : ((custody.state 39).world.slot 0).cell = some (.queue 0 0) := by decide +kernel
  have stands : ((custody.state 39).threads[0]?).any (fun t => t.standsAt? == some "g" &&
      t.agenda.length == 1 && t.me (custody.state 39).world == 0) = true := by
    decide +kernel
  have owned : ((custody.state 39).world.slot 0).ownedBy 0 = true := by
    simp [Slot.ownedBy, held, Cell.owner?]
  simp only [Option.any_eq_true, Bool.and_eq_true, beq_iff_eq] at stands
  obtain ⟨t, found, ⟨gate, single⟩, mine⟩ := stands
  have next := Thread.agenda_of_standsAt? gate single
  have host : t.AtHost := .stands next
  have runs : t.Runs := Thread.runs_of_agenda (by simp [next])
  obtain ⟨⟨i, u, found', me, runs', frame⟩, queue⟩ :=
    (no_orphaned_claim custody modest 39).1 0 0 owned
  have same := (custody.seats 39).same_thread found' found runs' runs (me.trans mine.symm)
  subst same
  rw [found] at found'
  cases found'
  exact ⟨modest, held, ⟨t, found, host, frame host⟩, queue 0 0 held⟩

end Run

end LazyGraph

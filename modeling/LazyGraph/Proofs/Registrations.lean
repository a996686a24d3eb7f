import LazyGraph.Proofs.Custody
import LazyGraph.Proofs.Rooted
import LazyGraph.Proofs.Tended

/-!
# Registrations that are left behind

With one map for all capabilities, a registration is taken back by whoever takes the queue from its
slot through a capability. An overwrite does not go through one, a maker who comes too late to
publish closes the queue only, and who joins between the withdrawal of a queue and its closing
registers it anew.
-/

namespace LazyGraph

/-- The capabilities of all contexts register queues in map `m`. -/
def Run.Shares (run : Run) (m : Nat) : Prop :=
  ∀ k, ∀ c < (run.state k).world.contexts.size,
    (run.state k).world.mapOf ((run.state k).world.context c).capability = m

/-- In its next step the thread leaves the registration of queue `q` to nobody. -/
inductive State.Strands (s : State) (q : QueueId) (t : Thread) : Prop
  | displaced {n v o as} (next : t.agenda = .overwrite n v :: as)
    (held : (s.world.slot n).cell = some (.queue q o))
  | unpublished {x b seen} (idle : t.agenda = []) (at' : t.control = .publish x b)
    (is : x.queue = q) (made : x.lock = some seen)
    (changed : (s.world.slot x.thunk).unchanged seen = false)
  | late {x} (idle : t.agenda = []) (at' : t.control = .confirm x) (is : x.queue = q)
    (joins : x.lock = none) (open' : s.world.isClosed q = false)
    (gone : ∀ n o, (s.world.slot n).cell ≠ some (.queue q o))
    (unseen : ∀ u ∈ s.threads, .withdraw q ∉ u.agenda)

/-- In move `k` the registration of queue `q` is left to nobody. -/
def Run.Strands (run : Run) (q : QueueId) (k : Nat) : Prop :=
  ∃ i t, run.move k = .step i ∧ (run.state k).threads[i]? = some t ∧ (run.state k).Strands q t

variable {w w' : World} {t t' : Thread} {n : NodeId} {q : QueueId} {o : TaskId} {m : Nat}

/-- The thread has registered queue `q`, or is about to, and will put it into its slot or look
whether it is closed. -/
def Thread.Registers (t : Thread) (q : QueueId) : Prop :=
  ∃ x, x.queue = q ∧
    (t.control.enrols? = some x ∨ t.control.enrolled? = some x ∧ x.lock.isSome)

/-- Somebody will take back the registration of queue `q`, or notice that it has to be. -/
def State.Minds (s : State) (q : QueueId) : Prop :=
  (∃ n o, (s.world.slot n).cell = some (.queue q o)) ∨
    (∃ u ∈ s.threads, .withdraw q ∈ u.agenda) ∨ ∃ u ∈ s.threads, u.Registers q

/-! ## Steps -/

/-- Who takes a queue from its slot withdraws it, unless by an overwrite. -/
theorem Step.withdraws (step : Step w t w' t') (noted : t.Noted)
    (held : (w.slot n).cell = some (.queue q o)) :
    (w'.slot n).cell = some (.queue q o) ∨ .withdraw q ∈ t'.agenda ∨
      ∃ v as, t.agenda = .overwrite n v :: as := by
  rcases step.cell_kept held with stays | ⟨cell, writes, -⟩
  · exact .inl stays
  · rcases writes.wakes noted held with wakes | ⟨-, overwrites⟩
    · exact .inr (.inl (wakes (by simp [wakeQueue])))
    · exact .inr (.inr overwrites)

theorem World.not_mem_withdraw {k : CapabilityId} (own : w.mapOf k = m)
    (nodup : (w.maps.getD m []).Nodup) : q ∉ (w.withdraw k q).maps.getD m [] := by
  rw [World.maps_withdraw, if_pos own]
  exact nodup.not_mem_erase

theorem Step.nodup_maps (step : Step w t w' t') (nodup : (w.maps.getD m []).Nodup) :
    (w'.maps.getD m []).Nodup := by
  rcases step.maps with less | ⟨x, k, -, -, rfl⟩
  · exact (less m).nodup nodup
  · rw [World.maps_enrol]
    split
    · rename_i new
      refine List.nodup_append.2 ⟨nodup, List.pairwise_singleton _ _, ?_⟩
      rintro r known s single rfl
      exact new.2.2 (List.mem_singleton.1 single ▸ known)
    · exact nodup

theorem Step.registers_origin (step : Step w t w' t') (there : q ∈ w'.maps.getD m []) :
    q ∈ w.maps.getD m [] ∨ t'.Registers q := by
  rcases step.maps with less | ⟨x, k, -, at', rfl⟩
  · exact .inl ((less m).mem there)
  · rw [World.maps_enrol] at there
    split at there
    · rcases List.mem_append.1 there with old | new
      · exact .inl old
      · obtain rfl := List.mem_singleton.1 new
        exact .inr ⟨x, rfl, .inl (by rw [at']; rfl)⟩
    · exact .inl there

/-! ## Runs -/

namespace Run

variable {run : Run} {k : Nat} {i : ThreadId}

theorem nodup_maps (run : Run) (m k : Nat) : ((run.state k).world.maps.getD m []).Nodup := by
  refine run.always (P := fun s => (s.world.maps.getD m []).Nodup) (by simp) ?_ k
  intro k nodup
  rcases (run.change k).split with rests | ⟨i, t, t', turns, -⟩
  · exact (rests.still.maps m).nodup nodup
  · exact turns.step.nodup_maps nodup

section

variable (shared : run.Shares m)
  (turns : Turns (run.state k) (run.state (k + 1)) i t t')
  (moved : run.move k = .step i ∨ ∃ g as, t.agenda = .gate g :: as)
include shared turns moved

/-- What a thread is told to withdraw is withdrawn before the thread does anything else. -/
theorem withdraw_kept (told : .withdraw q ∈ t.agenda)
    (there : q ∈ (run.state (k + 1)).world.maps.getD m []) : .withdraw q ∈ t'.agenda := by
  rcases turns.step.agenda_kept told with kept | ⟨as, next⟩
  · exact kept
  rcases moved with own | ⟨g, as', gate⟩
  · rw [(own_step own turns.before).1, Thread.step, next] at there
    exact absurd there (World.not_mem_withdraw
      (shared k _ ((run.seats k).seated i t turns.before)) (run.nodup_maps m k))
  · rw [next] at gate
    cases gate

theorem registers_kept (direct : run.NeverDetours) (old : t.Registers q)
    (there : q ∈ (run.state (k + 1)).world.maps.getD m []) :
    (run.state (k + 1)).Minds q ∨ run.Strands q k := by
  have noted := run.noted k i t turns.before
  have straight := run.straight direct k i t turns.before
  have mem := Array.mem_of_getElem? turns.after
  obtain ⟨x, rfl, on⟩ := old
  have waiting : t.control.waiting? = some x := by
    rcases on with enrols | ⟨enrolled, -⟩
    · exact Control.waiting?_of_enrols? enrols
    · exact Control.waiting?_of_enrolled? enrolled
  have own : t.agenda = [] → run.move k = .step i := fun idle => by
    rcases moved with own | ⟨g, as, gate⟩
    · exact own
    · rw [idle] at gate
      cases gate
  cases turns.step.way noted straight waiting with
  | enrols _ after => exact .inl (.inr (.inr ⟨t', mem, x, rfl, .inl after⟩))
  | published held => exact .inl (.inl ⟨_, _, held⟩)
  | missed idle at' made changed =>
    exact .inr ⟨i, t, own idle, turns.before, .unpublished idle at' rfl made changed⟩
  | retracted idle at' =>
    rw [(own_step (own idle) turns.before).1, Thread.step, idle, Thread.proceed, at'] at there
    exact absurd there (World.not_mem_withdraw
      (shared k _ ((run.seats k).seated i t turns.before)) (run.nodup_maps m k))
  | enrolled before after =>
    rcases on with enrols | ⟨-, made⟩
    · cases at' : t.control <;> rw [at'] at enrols before <;> cases enrols <;> cases before
    · exact .inl (.inr (.inr ⟨t', mem, x, rfl, .inr ⟨after, made⟩⟩))
  | joined before none' =>
    rcases on with enrols | ⟨-, made⟩
    · cases at' : t.control <;> rw [at'] at enrols before <;> cases enrols <;> cases before
    · simp [none'] at made
  | confirmed idle at' open' same after =>
    cases made : x.lock with
    | some seen =>
      exact .inl (.inr (.inr ⟨t', mem, x, rfl, .inr ⟨after, by simp [made]⟩⟩))
    | none =>
      by_cases held : ∃ n o, ((run.state k).world.slot n).cell = some (.queue x.queue o)
      · exact .inl (.inl (same ▸ held))
      by_cases told : ∃ u ∈ (run.state k).threads, .withdraw x.queue ∈ u.agenda
      · obtain ⟨u, known, told⟩ := told
        rcases turns.mem known with rfl | stays
        · simp [idle] at told
        · exact .inl (.inr (.inl ⟨u, stays, told⟩))
      · exact .inr ⟨i, t, own idle, turns.before, .late idle at' rfl made open'
          (fun n o cell => held ⟨n, o, cell⟩) fun u known told' => told ⟨u, known, told'⟩⟩

theorem minds_turns (direct : run.NeverDetours) (minds : (run.state k).Minds q)
    (there : q ∈ (run.state (k + 1)).world.maps.getD m []) :
    (run.state (k + 1)).Minds q ∨ run.Strands q k := by
  rcases minds with ⟨n, o, held⟩ | ⟨u, known, told⟩ | ⟨u, known, registers⟩
  · rcases turns.step.withdraws (run.noted k i t turns.before) held with stays | told | ⟨v, as, next⟩
    · exact .inl (.inl ⟨n, o, stays⟩)
    · exact .inl (.inr (.inl ⟨t', Array.mem_of_getElem? turns.after, told⟩))
    · rcases moved with own | ⟨g, as', gate⟩
      · exact .inr ⟨i, t, own, turns.before, .displaced next held⟩
      · rw [next] at gate
        cases gate
  · rcases turns.mem known with rfl | stays
    · have kept := withdraw_kept shared turns moved told there
      exact .inl (.inr (.inl ⟨t', Array.mem_of_getElem? turns.after, kept⟩))
    · exact .inl (.inr (.inl ⟨u, stays, told⟩))
  · rcases turns.mem known with rfl | stays
    · exact registers_kept shared turns moved direct registers there
    · exact .inl (.inr (.inr ⟨u, stays, registers⟩))

end

/-- A registered queue is minded, or was stranded. -/
theorem minds_of_registered (shared : run.Shares m) (direct : run.NeverDetours) (k : Nat)
    (there : q ∈ (run.state k).world.maps.getD m []) :
    (run.state k).Minds q ∨ ∃ c < k, run.Strands q c := by
  induction k with
  | zero => simp [state, trace] at there
  | succ k ih =>
    have before : q ∈ (run.state k).world.maps.getD m [] →
        (run.state k).Minds q ∨ ∃ c < k + 1, run.Strands q c := fun old => by
      rcases ih old with minds | ⟨c, lt, stranded⟩
      · exact .inl minds
      · exact .inr ⟨c, by omega, stranded⟩
    rcases (run.change k).split with rests | ⟨i, t, t', turns, moved⟩
    · rcases before ((rests.still.maps m).mem there) with
        (⟨n, o, held⟩ | ⟨u, known, told⟩ | ⟨u, known, registers⟩) | stranded
      · exact .inl (.inl ⟨n, o, by rw [rests.still.slot, held]⟩)
      · exact .inl (.inr (.inl ⟨u, rests.mem known, told⟩))
      · exact .inl (.inr (.inr ⟨u, rests.mem known, registers⟩))
      · exact .inr stranded
    · rcases turns.step.registers_origin there with old | registers
      · rcases before old with minds | stranded
        · rcases minds_turns shared turns moved direct minds there with minds | stranded
          · exact .inl minds
          · exact .inr ⟨k, by omega, stranded⟩
        · exact .inr stranded
      · exact .inl (.inr (.inr ⟨t', Array.mem_of_getElem? turns.after, registers⟩))

end Run

/-! ## What is left -/

theorem Thread.atHost_of_outcome (ended : t.outcome?.isSome) : t.AtHost := by
  unfold Thread.outcome? at ended
  split at ended
  · rename_i idle _ at'
    exact .runs idle (by rw [at']; rfl)
  · rename_i idle _ at'
    exact .runs idle (by rw [at']; rfl)
  · rename_i idle _ at'
    exact .runs idle (by rw [at']; rfl)
  · cases ended

theorem Thread.AtHost.waiting? (host : t.AtHost) (straight : t.Straight) :
    t.control.waiting? = none := by
  cases host with
  | runs _ calm =>
    cases at' : t.control with
    | enlist | enrol | confirm | retract | enlisted | publish =>
      rw [at'] at calm
      cases calm
    | _ => rfl
  | stands next =>
    cases waiting : t.control.waiting? with
    | none => rfl
    | some x => cases straight x waiting _ (by rw [next]; exact List.mem_cons_self)
  | suspended _ at' => rw [at']; rfl

theorem Thread.AtHost.not_told (host : t.AtHost) {a : Action} (busy : ∀ g, a ≠ .gate g) :
    a ∉ t.agenda := by
  intro known
  cases host with
  | runs idle => simp [idle] at known
  | stands next => exact busy _ (by simpa [next] using known)
  | suspended idle => simp [idle] at known

/-- While all threads are in host code, a queue that is in no slot is closed, and nobody waits in
it. -/
theorem State.Tended.closed {s : State} (tended : s.Tended)
    (straight : s.Each fun _ t => t.Straight) (host : ∀ t ∈ s.threads, t.AtHost)
    (known : (s.world.queue? q).isSome) (free : ∀ n o, (s.world.slot n).cell ≠ some (.queue q o)) :
    ∃ Q, s.world.queue? q = some Q ∧ Q.closed = true ∧ Q.messages = [] := by
  rcases tended.open' q known with (⟨n, o, held⟩ | ⟨u, mem, note, drains⟩) | ⟨Q, found, closed⟩ |
    ⟨u, mem, ⟨x, waiting, -⟩ | seals⟩
  · exact absurd held (free n o)
  · exact absurd drains ((host u mem).not_told (by simp))
  · exact ⟨Q, found, closed, tended.emptied q Q found closed⟩
  · obtain ⟨i, found⟩ := Array.mem_iff_getElem?.1 mem
    rw [(host u mem).waiting? (straight i u found)] at waiting
    cases waiting
  · exact absurd seals ((host u mem).not_told (by simp))

theorem World.not_queue_of_lt (free : ∀ n < w.heap.size, (w.slot n).queue? = none) (n : NodeId)
    (q : QueueId) (o : TaskId) : (w.slot n).cell ≠ some (.queue q o) := by
  intro held
  obtain ⟨th, found⟩ := World.thunk_of_cell held
  have none' := free n (World.lt_of_node? (World.thunk?_eq_some.1 found))
  rw [Slot.queue?_eq_some.2 ⟨o, held⟩] at none'
  cases none'

namespace Run

/-- **What is left in the map.** Suppose that all capabilities share one map. While all threads are in
host code, at a gate or suspended, and no slot holds a queue, each queue that is still registered was
stranded before: it was overwritten in its slot, its maker found the lock gone, or it was registered
once more when its registration had been withdrawn already. It is closed, and nobody waits in it.
So if no queue was stranded, the map is empty. -/
theorem leftovers_stranded (run : Run) {m : Nat} (shared : run.Shares m)
    (direct : run.NeverDetours) (k : Nat) (host : ∀ t ∈ (run.state k).threads, t.AtHost)
    (free : ∀ n q o, ((run.state k).world.slot n).cell ≠ some (.queue q o)) :
    (∀ q ∈ (run.state k).world.maps.getD m [], (∃ c < k, run.Strands q c) ∧
      ∃ Q, (run.state k).world.queue? q = some Q ∧ Q.closed = true ∧ Q.messages = []) ∧
    ((∀ q, ∀ c < k, ¬ run.Strands q c) → ∀ c < (run.state k).world.contexts.size,
      (run.state k).world.pending ((run.state k).world.context c).capability = []) := by
  have straight := run.straight direct k
  have stranded : ∀ q ∈ (run.state k).world.maps.getD m [], ∃ c < k, run.Strands q c := by
    intro q there
    rcases minds_of_registered shared direct k there with
      (⟨n, o, held⟩ | ⟨u, mem, told⟩ | ⟨u, mem, x, -, on⟩) | stranded
    · exact absurd held (free n q o)
    · exact absurd told ((host u mem).not_told (by simp))
    · obtain ⟨i, found⟩ := Array.mem_iff_getElem?.1 mem
      have waiting : u.control.waiting? = some x := by
        rcases on with enrols | ⟨enrolled, -⟩
        · exact Control.waiting?_of_enrols? enrols
        · exact Control.waiting?_of_enrolled? enrolled
      rw [(host u mem).waiting? (straight i u found)] at waiting
      cases waiting
    · exact stranded
  refine ⟨fun q there => ⟨stranded q there, ?_⟩, fun never c bound => ?_⟩
  · exact (run.tended direct k).closed straight host
      ((run.queued k).lists q (World.lists_iff.2 ⟨m, there⟩)) fun n o => free n q o
  · rw [World.pending, shared k c bound, List.eq_nil_iff_forall_not_mem]
    intro q there
    obtain ⟨c, lt, strands⟩ := stranded q there
    exact never q c lt strands

/-- Run for the first time, the code stops at a gate and then fails. -/
def failsOnce : Code :=
  .branch (.prim .less [.prim (.increment "runs") [], .prim (.box (.scalar (.int 1))) []])
    (.prim .last [.prim (.gate "g") [], .prim (.raise "failed") []])
    (.prim (.box (.scalar (.int 7))) [])

/-- Two tasks force a constant; it is reverted while the first one stands at a gate in its code. The
second one, whose queue is displaced by that, runs the code itself; then the first one fails. -/
def reverted : Run :=
  .ofMoves {}
    (List.flatten [
      [.map, .capability 0 none false, .keep "r" true, .sit true, .sit true, .sit true,
        .start 0 (.constant "r" failsOnce) {} true true],
      .replicate 4 (.step 0), [.evaluate 1 0], .replicate 21 (.step 1), [.evaluate 2 0],
      .replicate 19 (.step 2), [.start 0 (.prim (.revert "r") []) {} true true],
      .replicate 7 (.step 3), .replicate 26 (.step 2), [.pass 1 "g"], .replicate 6 (.step 1)])
    (by decide +kernel)

theorem reverted_shares : reverted.Shares 0 :=
  ofMoves_forall (P := fun s => ∀ c < s.world.contexts.size,
    s.world.mapOf (s.world.context c).capability = 0) (by decide +kernel)

theorem reverted_direct : reverted.NeverDetours :=
  neverDetours_ofMoves (by decide +kernel)

theorem reverted_ended : ∀ t ∈ (reverted.state 94).threads, t.outcome?.isSome := by
  decide +kernel

theorem reverted_free (n : NodeId) (q : QueueId) (o : TaskId) :
    ((reverted.state 94).world.slot n).cell ≠ some (.queue q o) :=
  World.not_queue_of_lt (by decide +kernel) n q o

theorem leftovers_stranded_reverted :
    reverted.Shares 0 ∧ reverted.NeverDetours ∧
      (∀ t ∈ (reverted.state 94).threads, t.AtHost) ∧
      (∀ n q o, ((reverted.state 94).world.slot n).cell ≠ some (.queue q o)) ∧
      0 ∈ (reverted.state 94).world.maps.getD 0 [] ∧ (∃ c < 94, reverted.Strands 0 c) ∧
      ∃ Q, (reverted.state 94).world.queue? 0 = some Q ∧ Q.closed = true ∧ Q.messages = [] := by
  have host : ∀ t ∈ (reverted.state 94).threads, t.AtHost := fun t known =>
    Thread.atHost_of_outcome (reverted_ended t known)
  have left : 0 ∈ (reverted.state 94).world.maps.getD 0 [] := by decide +kernel
  obtain ⟨stranded, -⟩ := leftovers_stranded reverted reverted_shares reverted_direct 94 host
    reverted_free
  exact ⟨reverted_shares, reverted_direct, host, reverted_free, left, stranded 0 left⟩

/-- Even where hosts only force thunks and revert constants, a registration can be left when all
tasks have ended: the failing owner of a reverted constant looks at the slot only, while one that
comes too late with a value sweeps the map. -/
theorem registration_leaks : ¬ ∀ (run : Run) (m k : Nat), run.Shares m → run.NeverDetours →
    run.NeverTouches → (∀ t ∈ (run.state k).threads, t.outcome?.isSome) →
    (∀ n q o, ((run.state k).world.slot n).cell ≠ some (.queue q o)) →
    (run.state k).world.maps.getD m [] = [] := by
  intro empty
  have hands : reverted.NeverTouches :=
    ofMoves_forall (P := fun s => ∀ t ∈ s.threads, t.touches = false) (by decide +kernel)
  have left : (reverted.state 94).world.maps.getD 0 [] = [0] := by decide +kernel
  have none' := empty reverted 0 94 reverted_shares reverted_direct hands reverted_ended
    reverted_free
  rw [left] at none'
  cases none'

end Run

end LazyGraph

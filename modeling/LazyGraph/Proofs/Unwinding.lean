import LazyGraph.Proofs.Calls
import LazyGraph.Proofs.Exclusion
import LazyGraph.Proofs.Reentry
import LazyGraph.Proofs.Rooted

/-!
# A call leaves nothing behind

When a call returns, with a result or not, the thunks that it entered are no longer owned. Those that
it did not update can be run again, and whoever waited for them has been woken.
-/

namespace LazyGraph

variable {w w' : World} {t t' u : Thread} {n : NodeId} {s : Suspension} {claim : Bool}

/-! ## Giving up -/

/-- The thread is about to find that it runs `n` already, or else it is giving `n` up. -/
def Thread.Retreats (t : Thread) (n : NodeId) : Prop :=
  t.control = .start n true ∨ ∃ a ∈ t.agenda, a.claim? = some n

theorem Thread.retreats_step (retreats : t.Retreats n) (steady : t.Steady)
    (active : (w.context t.context).stack.push? n = none)
    (owned : (w.slot n).ownedBy (t.me w) = true)
    (owned' : ((t.step w).1.slot n).ownedBy (t.me w) = true) : (t.step w).2.Retreats n := by
  rcases retreats with at' | ⟨a, known, claim⟩
  · cases next : t.agenda with
    | nil =>
      rw [step_start next at' active]
      exact .inr ⟨.abandon n, by simp [giveUp], rfl⟩
    | cons a as =>
      rcases (step_cases w t).errand_of_busy (by simp [next]) with ⟨-, same⟩ | errand
      · exact .inl (by rw [same, at'])
      · exact .inl (by rw [errand.control_of_steady steady (by rw [at']; rfl), at'])
  · rcases (step_cases w t).agenda_kept known with kept | ⟨as, next⟩
    · exact .inr ⟨a, kept, claim⟩
    · cases a with
      | abandon m =>
        cases claim
        have stays : t.step w = (w, { t with agenda := .surrender n (w.slot n) :: as }) := by
          simp only [Thread.step, next, Action.perform]
          rw [if_pos (by exact owned)]
        rw [stays]
        exact .inr ⟨_, List.mem_cons_self .., rfl⟩
      | surrender m seen =>
        cases claim
        simp only [Thread.step, next, Action.perform] at owned' ⊢
        unfold World.exchange? at owned' ⊢
        split at owned'
        · rename_i w' exchanged
          split at exchanged
          · cases exchanged
            simp [World.not_owned_of_write] at owned'
          · cases exchanged
        · exact .inr ⟨_, List.mem_cons_self .., rfl⟩
      | _ => cases claim

theorem last_without {P : Nat → Prop} {c b : Nat} (le : c ≤ b) (before : ¬ P c) (after : P b) :
    ∃ d, c ≤ d ∧ d < b ∧ ¬ P d ∧ ∀ k, d < k → k ≤ b → P k := by
  induction le with
  | refl => exact absurd after before
  | @step b le ih =>
    have last : ∀ k, b < k → k ≤ b + 1 → P k := fun k low high => by
      obtain rfl := Nat.le_antisymm high low
      exact after
    by_cases already : P b
    · obtain ⟨d, low, lt, not, still⟩ := ih already
      refine ⟨d, low, Nat.lt_succ_of_lt lt, not, fun k after le => ?_⟩
      rcases Nat.le_succ_iff.1 le with le | rfl
      · exact still k after le
      · exact last _ (Nat.lt_succ_self b) (Nat.le_refl _)
    · exact ⟨b, le, Nat.lt_succ_self b, already, last⟩

namespace Run

variable {run : Run} {i : ThreadId} {a b c depth : Nat}

namespace Calls

/-- The call started within frames that run `n`, so `n` is not entered again. -/
theorem active (calls : run.Calls i a b depth) (found : (run.state a).threads[i]? = some t)
    {f : Frame} (known : f ∈ t.stack) (is : f.thunk? = some n) {k : Nat} (lt : a < k) (le : k ≤ b)
    (there : (run.state k).threads[i]? = some u) :
    ((run.state k).world.context u.context).stack.push? n = none := by
  rw [(calls.tracks lt le there).push?_eq_none]
  obtain ⟨v, found', -, fs, stack⟩ := calls.above found (Nat.le_of_lt lt) le
  rw [there] at found'
  cases found'
  refine List.mem_append_right _ (List.mem_filterMap.2 ⟨f, ?_, is⟩)
  rw [stack]
  exact List.mem_append_right _ known

/-- What the call takes while its caller runs it already, it gives up again. -/
theorem retreats (calls : run.Calls i a b depth) (found : (run.state a).threads[i]? = some t)
    {f : Frame} (known : f ∈ t.stack) (is : f.thunk? = some n) {d : Nat} (le : a ≤ d)
    (owned : ∀ k, d < k → k ≤ b →
      ((run.state k).world.slot n).ownedBy (t.me (run.state a).world) = true)
    (taken : (run.state (d + 1)).threads[i]? = some u) (start : u.control = .start n true) {k : Nat}
    (lt : d < k) (le' : k ≤ b) :
    ∃ u, (run.state k).threads[i]? = some u ∧ u.Retreats n := by
  induction lt with
  | refl => exact ⟨u, taken, .inl start⟩
  | @step k lt ih =>
    obtain ⟨v, there, retreats⟩ := ih (Nat.le_of_succ_le le')
    obtain ⟨v', there', me⟩ := run.thread_me (Nat.le_trans le (Nat.le_of_succ_le lt)) found
    rw [there] at there'
    cases there'
    by_cases turn : run.move k = .step i
    · obtain ⟨world, after⟩ := run.own_step turn there
      refine ⟨_, after, ?_⟩
      refine v.retreats_step retreats ((run.framed k).steady i v there)
        (calls.active found known is (Nat.lt_of_le_of_lt le lt) (Nat.le_of_succ_le le') there) ?_ ?_
      · rw [me]
        exact owned k lt (Nat.le_of_succ_le le')
      · rw [me, ← world]
        exact owned (k + 1) (Nat.lt_succ_of_lt lt) le'
    · rcases run.not_own_step turn there with stays | ⟨g, as, next, -, after⟩
      · exact ⟨v, stays, retreats⟩
      · refine ⟨_, after, retreats.imp id ?_⟩
        rintro ⟨x, listed, claim⟩
        rw [next] at listed
        rcases List.mem_cons.1 listed with rfl | old
        · cases claim
        · exact ⟨x, old, claim⟩

end Calls

/-- A thread that is back answers for what its frames claim. -/
theorem Calls.frame_of_owned (calls : run.Calls i a b depth) (modest : run.NeverClaims)
    (found : (run.state a).threads[i]? = some t)
    (owned : ((run.state b).world.slot n).ownedBy (t.me (run.state a).world) = true) :
    ∃ f ∈ t.stack, f.thunk? = some n := by
  obtain ⟨u, there, idle, outcome, same, stack⟩ := calls.returned found
  obtain ⟨j, v, there', me, answers⟩ := (run.owned modest b).answers n _ owned
  obtain ⟨u', there'', me'⟩ := run.thread_me calls.le found
  rw [there] at there''
  cases there''
  have seats := run.seats b
  have context : v.context = u.context :=
    seats.distinct _ _ (seats.seated j v there') (seats.seated i u there) (me.trans me'.symm)
  obtain ⟨e, rfl⟩ : ∃ e, b = e + 1 := ⟨b - 1, by have := calls.lt; omega⟩
  obtain ⟨x, before, runs⟩ := calls.runs (Nat.lt_succ_iff.1 calls.lt) (Nat.lt_succ_self e)
  have came : u.context = x.context := by
    obtain ⟨y, there'', rfl | step⟩ := (run.change e).thread before
    · rw [there] at there''
      cases there''
      rfl
    · rw [there] at there''
      cases there''
      exact step.context
  obtain rfl := (run.change e).alone (run.seats e) before runs there' answers.runs
    (context.trans came)
  rw [there] at there'
  cases there'
  obtain ⟨f, known, is⟩ := answers.frame_of_idle idle (by
    cases at' : u.control <;> simp_all [Control.claim?, Control.isOutcome])
  exact ⟨f, stack ▸ known, is⟩

/-- What a call has entered, its task does not own when it returns. -/
theorem Calls.not_owned (calls : run.Calls i a b depth) (modest : run.NeverClaims)
    (found : (run.state a).threads[i]? = some t) (enters : run.Enters i n claim c) (le : a ≤ c)
    (lt : c < b) :
    ((run.state b).world.slot n).ownedBy (t.me (run.state a).world) = false := by
  by_contra owned
  rw [Bool.not_eq_false] at owned
  obtain ⟨f, known, is⟩ := calls.frame_of_owned modest found owned
  have free : ¬ ((run.state c).world.slot n).ownedBy (t.me (run.state a).world) = true := by
    simp [Slot.ownedBy, enters.empty]
  obtain ⟨d, low, high, before, still⟩ := last_without
    (P := fun k => ((run.state k).world.slot n).ownedBy (t.me (run.state a).world) = true)
    (Nat.le_of_lt lt) free owned
  have now := still (d + 1) (Nat.lt_succ_self d) high
  rcases (run.change d).split with rests | ⟨j, v, v', turns, -⟩
  · rw [rests.still.slot n] at now
    exact before now
  · rcases turns.step.owned_start (run.noted d j v turns.before)
        ((run.owned modest d).modest j v turns.before) now with old | ⟨me, start⟩
    · exact before old
    · have runs : v.Runs := turns.step.runs (Thread.runs_of_control (by rw [start]; rfl))
      obtain ⟨u, there, runs'⟩ := calls.runs (Nat.le_trans le low) high
      obtain ⟨u', there', me'⟩ := run.thread_me (Nat.le_trans le low) found
      rw [there] at there'
      cases there'
      obtain rfl := (run.seats d).same_thread turns.before there runs runs' (me.symm.trans me'.symm)
      obtain ⟨x, back, retreats⟩ := calls.retreats found known is (Nat.le_trans le low) still
        turns.after start high (Nat.le_refl b)
      obtain ⟨y, back', idle, outcome, -⟩ := calls.returned found
      rw [back] at back'
      cases back'
      rcases retreats with at' | ⟨a, listed, -⟩
      · rw [at'] at outcome
        cases outcome
      · rw [idle] at listed
        cases listed

theorem NeverTouches.neverClaims (hands : run.NeverTouches) : run.NeverClaims := by
  intro k t known
  have looks := hands k t known
  unfold Thread.claims
  split
  · rename_i at'
    simp [Thread.touches, at'] at looks
  · rfl

/-! ## Running again -/

/-- A thunk keeps its code until somebody installs a value. -/
theorem suspension_kept_or_installs (rooted : run.Rooted) (whole : run.Whole)
    (hands : run.NeverTouches) (le : c ≤ b)
    (found : (run.state c).world.suspension? n = some s)
    (free : ((run.state c).world.slot n).cell = none) :
    (run.state b).world.suspension? n = some s ∨
      ∃ j v d, c ≤ d ∧ d < b ∧ run.Installs j n v d := by
  rcases run.suspension_kept whole le found with same | cleared
  · exact .inl same
  · cases constant : s.isConstant with
    | true => exact .inl (by rw [cleared, Suspension.clear_of_isConstant constant])
    | false =>
      obtain ⟨j, v, d, e, lt, lt', installs, -⟩ := run.installs_of_cleared hands.neverFrees whole b
        cleared (Suspension.cleared_clear constant)
      refine .inr ⟨j, v, d, ?_, by omega, installs⟩
      by_contra before
      have le : d + 1 ≤ c := by omega
      obtain ⟨th, there⟩ := World.thunk_of_cell installs.held
      have old : (run.state (d + 1)).world.suspension? n = some th.suspension :=
        World.suspension?_eq_some.2 ⟨th, there, rfl⟩
      have shrinks : th.suspension.isConstant = false := by
        rcases run.suspension_kept whole le old with same | same
        · rw [found, Option.some.injEq] at same
          rwa [← same]
        · rw [found, Option.some.injEq] at same
          simpa [same] using constant
      have held := run.value_stays rooted whole hands le old shrinks installs.held
      rw [free] at held
      cases held

end Run

@[simp] theorem World.suspension?_take (me : TaskId) :
    (w.take n claim me).suspension? n = w.suspension? n := by
  unfold take
  split <;> simp

/-- Whoever forces `n` and does not run it already gets to run `s`. -/
def World.Runs (w : World) (n : NodeId) (s : Suspension) : Prop :=
  ∀ t claim stack, t.agenda = [] → t.control = .force n claim →
    (w.context t.context).stack.push? n = some stack →
    ∃ fs c w', s.opening? = some (fs, c) ∧ Reaches w t w' { t with control := .body n claim } ∧
      Thread.step w' { t with control := .body n claim } =
        (w', { t with stack := fs ++ .running n claim :: t.stack, control := c })

theorem World.runs_of_free (found : w.suspension? n = some s) (ready : s.cleared = false)
    (free : (w.slot n).cell = none) : w.Runs n s := by
  intro t claim stack idle at' pushed
  obtain ⟨⟨fs, c⟩, opening⟩ : ∃ o, s.opening? = some o :=
    Option.isSome_iff_exists.1 (by rw [Suspension.opening?_isSome, ready]; rfl)
  obtain ⟨log, first⟩ := reaches_start idle at' free
  let w₁ : World := { w.take n claim (t.me w) with log }
  have stack' : (w₁.context t.context).stack = (w.context t.context).stack := by
    rw [show w₁.context t.context = (w.take n claim (t.me w)).context t.context from rfl,
      World.context_take]
  let w₂ := w₁.setContext t.context { w₁.context t.context with stack }
  have next : Thread.step w₁ { t with control := .start n claim } =
      (w₂, { t with control := .body n claim }) := by
    simp only [Thread.step, idle, Thread.proceed, Thread.start, stack', pushed, Thread.goto]
    rfl
  have kept : w₂.suspension? n = some s :=
    (World.suspension?_take (t.me w)).trans found
  refine ⟨fs, c, w₂, opening, first.trans (.of_step rfl next .refl), ?_⟩
  simp only [Thread.step, idle, Thread.proceed]
  rw [Thread.body_of_opening kept opening]

/-! ## Waking -/

theorem State.queues_after {σ : State} {m : Move} (other : ∀ j, m ≠ .step j) :
    (σ.after m).world.queues = σ.world.queues := by
  cases m <;> first | rfl | exact absurd rfl (other _)

/-- What is left to do for the waiters in `q` once a claim has been given up. -/
inductive Thread.Wakes (w : World) (t : Thread) (q : QueueId) (m : Message) : Prop
  | report {e as} (next : t.agenda = .emit e :: wakeQueue q ++ as) (known : m ∈ w.messages q)
  | withdraw {as} (next : t.agenda = wakeQueue q ++ as) (known : m ∈ w.messages q)
  | drain {as} (next : t.agenda = .drain q .woke :: as) (known : m ∈ w.messages q)
  | wake (known : .wake m.task ∈ t.agenda)

theorem World.messages_congr {q : QueueId} (same : w'.queues = w.queues) :
    w'.messages q = w.messages q := by
  rw [messages, same, messages]

theorem Thread.wakes_step {q : QueueId} {m : Message} (wakes : t.Wakes w q m) :
    (t.step w).2.Wakes (t.step w).1 q m ∨ ∃ as, t.agenda = .wake m.task :: as := by
  cases wakes with
  | @report e as next known =>
    have step : t.step w = (w.emit t.context e, { t with agenda := wakeQueue q ++ as }) := by
      simp only [Thread.step, next, List.cons_append]
      rfl
    rw [step]
    obtain ⟨log, same⟩ := w.emit_eq t.context e
    refine .inl (.withdraw rfl ?_)
    rwa [same]
  | @withdraw as next known =>
    have step : t.step w = (w.withdraw (w.context t.context).capability q,
        { t with agenda := .drain q .woke :: as }) := by
      simp only [Thread.step, next, wakeQueue, List.cons_append]
      rfl
    rw [step]
    exact .inl (.drain rfl known)
  | @drain as next known =>
    have step : (t.step w).2.agenda = (w.messages q).map (fun m => .wake m.task) ++
        Note.woke.report (w.context t.context).capability q (w.messages q).length ++ as := by
      simp only [Thread.step, next]
      rfl
    refine .inl (.wake ?_)
    rw [step]
    exact List.mem_append_left _ (List.mem_append_left _ (List.mem_map.2 ⟨m, known, rfl⟩))
  | wake known =>
    exact ((step_cases w t).agenda_kept known).imp .wake id

theorem Thread.Wakes.not_idle {q : QueueId} {m : Message} (wakes : t.Wakes w q m) :
    t.agenda ≠ [] := by
  cases wakes with
  | report next => simp [next]
  | withdraw next => simp [next, wakeQueue]
  | drain next => simp [next]
  | wake known => exact List.ne_nil_of_mem known

/-- Until the waiters are on the list of those to be woken, the thread lets nobody else run. -/
theorem Thread.Wakes.wake_or_busy {q : QueueId} {m : Message} (wakes : t.Wakes w q m) :
    .wake m.task ∈ t.agenda ∨ m ∈ w.messages q ∧ t.standsAt? = none ∧ t.isParked = false ∧
      (∀ g as, t.agenda ≠ .gate g :: as) ∧
      ∀ w', m ∈ w'.messages q → t.Wakes w' q m := by
  cases wakes with
  | report next known =>
    exact .inr ⟨known, by simp [standsAt?, next], by simp [isParked, next], by simp [next],
      fun w' => .report next⟩
  | withdraw next known =>
    exact .inr ⟨known, by simp [standsAt?, next, wakeQueue], by simp [isParked, next, wakeQueue],
      by simp [next, wakeQueue], fun w' => .withdraw next⟩
  | drain next known =>
    exact .inr ⟨known, by simp [standsAt?, next], by simp [isParked, next], by simp [next],
      fun w' => .drain next⟩
  | wake known => exact .inl known

namespace Run

variable (run : Run)

/-- At time `e` thread `i` gives up a claim on `n`, and in `q` tasks wait for it. -/
def GivesUp (i : ThreadId) (n : NodeId) (q : QueueId) (e : Nat) : Prop :=
  run.move e = .step i ∧ ∃ t seen as o, (run.state e).threads[i]? = some t ∧
    t.agenda = .surrender n seen :: as ∧ ((run.state e).world.slot n).unchanged seen = true ∧
    ((run.state e).world.slot n).cell = some (.queue q o)

/-- Other threads run only while thread `i` stands at a gate or its task is suspended. -/
def Yields (i : ThreadId) (a b : Nat) : Prop :=
  ∀ k, a ≤ k → k < b → ∀ j ≠ i, run.move k = .step j →
    ((run.state k).threads[i]?).any fun t => t.standsAt?.isSome || t.isParked

variable {run} {i : ThreadId} {a b e depth : Nat} {q : QueueId}

theorem GivesUp.wakes (gives : run.GivesUp i n q e) {m : Message}
    (known : m ∈ (run.state e).world.messages q) :
    ∃ t, (run.state (e + 1)).threads[i]? = some t ∧ t.Wakes (run.state (e + 1)).world q m := by
  obtain ⟨turn, t, seen, as, o, found, next, same, held⟩ := gives
  obtain ⟨world, after⟩ := run.own_step turn found
  have queue : seen.queue? = some q := by
    rw [Slot.queue?, ← Slot.cell_of_unchanged same, held]
  have step : t.step (run.state e).world = ((run.state e).world.write n none,
      { t with agenda := .emit (.abandoned (t.me (run.state e).world)) :: wakeQueue q ++ as }) := by
    simp only [Thread.step, next, Action.perform, World.exchange?, same, if_true, afterSurrender,
      queue, World.taskOf_write]
    rfl
  rw [step] at world after
  refine ⟨_, after, .report rfl ?_⟩
  rwa [world, World.messages_congr (World.queues_write none)]

/-- Whoever waited for a claim that a call gives up is woken before the call returns. -/
theorem Calls.woken (calls : run.Calls i a b depth) (yields : run.Yields i a b) (le : a ≤ e)
    (lt : e < b) (gives : run.GivesUp i n q e) {m : Message}
    (known : m ∈ (run.state e).world.messages q) :
    ∃ d, e < d ∧ d < b ∧ run.move d = .step i ∧ run.Wakes m.task d := by
  obtain ⟨Q, queue, waits⟩ := World.queue_of_mem_messages known
  have until' : ∀ k, e < k → k ≤ b →
      (∃ d, e < d ∧ d < k ∧ run.move d = .step i ∧ run.Wakes m.task d) ∨
      ∃ t, (run.state k).threads[i]? = some t ∧ t.Wakes (run.state k).world q m := by
    intro k after
    induction after with
    | refl => exact fun _ => .inr (gives.wakes known)
    | @step k after ih =>
      intro le'
      rcases ih (Nat.le_of_succ_le le') with ⟨d, low, high, woken⟩ | ⟨t, found, wakes⟩
      · exact .inl ⟨d, low, Nat.lt_succ_of_lt high, woken⟩
      · by_cases turn : run.move k = .step i
        · obtain ⟨world, found'⟩ := run.own_step turn found
          rcases t.wakes_step wakes with later | ⟨as, next⟩
          · exact .inr ⟨_, found', world ▸ later⟩
          · refine .inl ⟨k, after, Nat.lt_succ_self k, turn,
              wakes_of_permits queue waits (Nat.le_of_lt after) ?_⟩
            simp [turn, State.permits, found, next]
        · rcases wakes.wake_or_busy with listed | ⟨there, stands, parked, gates, later⟩
          · rcases run.not_own_step turn found with stays | ⟨g, as, next, -, passed⟩
            · exact .inr ⟨t, stays, .wake listed⟩
            · rw [next] at listed
              exact .inr ⟨_, passed, .wake (by simpa using listed)⟩
          · have quiet : ∀ j, run.move k ≠ .step j := fun j other => by
              have alone := yields k (Nat.le_trans le (Nat.le_of_lt after)) le' j
                (fun is => turn (is ▸ other)) other
              simp [found, stands, parked] at alone
            rcases run.not_own_step turn found with stays | ⟨g, as, next, -⟩
            · have same : (run.state (k + 1)).world.queues = (run.state k).world.queues :=
                State.queues_after quiet
              exact .inr ⟨t, stays, later _ (by rwa [World.messages_congr same])⟩
            · exact absurd next (gates g as)
  rcases until' b lt (Nat.le_refl b) with woken | ⟨t, found, wakes⟩
  · exact woken
  · obtain ⟨t₀, start, -⟩ := calls.caller
    obtain ⟨u, there, idle, -⟩ := calls.returned start
    rw [found] at there
    cases there
    exact absurd idle wakes.not_idle

theorem Calls.entered (calls : run.Calls i a b depth) (le : a ≤ e) (starts : run.Starts i n e) :
    ∃ c claim, a ≤ c ∧ c < e ∧ run.Enters i n claim c := by
  obtain ⟨u, claim, found, at'⟩ := starts.opens
  obtain ⟨c, lt, enters, between⟩ := run.entered_of_opens found (by rw [at']; rfl)
  refine ⟨c, claim, ?_, lt, enters⟩
  by_contra before
  obtain ⟨v, there, opens⟩ := between a (Nat.not_le.1 before) le
  obtain ⟨t, found', -, call, -⟩ := calls.caller
  rw [there] at found'
  cases found'
  cases at' : v.control <;> simp_all [Control.opens?, Control.isCall]

/-- **Nothing is left behind.** Hosts leave slots alone, nodes from outside name nodes that are
there, and thunks from outside have their code. When a call of the evaluator returns, with a value,
an error or a panic, the update stack of its context is what it was. A thunk whose evaluation the
call started was entered by it, when its slot was empty. What the call has entered, its task does
not own any more; and if the call has not updated it, it has kept its code, or else another thread
has installed a value, and whoever finds its slot empty later on runs the code again. If others run
only while the thread stands at a gate or its task is suspended, then all tasks that waited for a
claim that the call gave up have been woken, each by a move that leaves it with a permit. -/
theorem call_unwinds (run : Run) (rooted : run.Rooted) (whole : run.Whole)
    (hands : run.NeverTouches) {i : ThreadId} {a b depth : Nat}
    (calls : run.Calls i a b depth) :
    ∃ t u, (run.state a).threads[i]? = some t ∧ (run.state b).threads[i]? = some u ∧
      u.context = t.context ∧ u.stack = t.stack ∧
      ((run.state b).world.context t.context).stack.frames =
        ((run.state a).world.context t.context).stack.frames ∧
      (∀ n, ((run.state b).world.context t.context).stack.active.contains n =
        ((run.state a).world.context t.context).stack.active.contains n) ∧
      (∀ n e, a ≤ e → e < b → run.Starts i n e →
        ∃ c claim, a ≤ c ∧ c < e ∧ run.Enters i n claim c) ∧
      (∀ n claim c, a ≤ c → c < b → run.Enters i n claim c →
        ((run.state b).world.slot n).ownedBy (u.me (run.state b).world) = false ∧
        ∀ s, (run.state c).world.suspension? n = some s →
          (∀ v d, c ≤ d → d < b → ¬ run.Installs i n v d) →
          ((run.state b).world.suspension? n = some s ∨
            ∃ j ≠ i, ∃ v d, c ≤ d ∧ d < b ∧ run.Installs j n v d) ∧
          ∀ k ≥ b, ((run.state k).world.slot n).cell = none → (run.state k).world.Runs n s) ∧
      (run.Yields i a b → ∀ n q e, a ≤ e → e < b → run.GivesUp i n q e →
        ∀ m ∈ (run.state e).world.messages q,
          ∃ d, e < d ∧ d < b ∧ run.move d = .step i ∧ run.Wakes m.task d) := by
  obtain ⟨t, found, -⟩ := calls.caller
  obtain ⟨u, there, -, -, context, stack⟩ := calls.returned found
  obtain ⟨frames, active⟩ := calls.stack_restored found
  obtain ⟨u', there', me⟩ := run.thread_me calls.le found
  rw [there] at there'
  cases there'
  refine ⟨t, u, found, there, context, stack, frames, active,
    fun n e le _ starts => calls.entered le starts, ?_,
    fun yields n q e le lt gives m known => calls.woken yields le lt gives known⟩
  intro n claim c le lt enters
  refine ⟨me ▸ calls.not_owned hands.neverClaims found enters le lt, ?_⟩
  intro s source pending
  refine ⟨?_, ?_⟩
  · refine (run.suspension_kept_or_installs rooted whole hands (Nat.le_of_lt lt) source
      enters.empty).imp id ?_
    rintro ⟨j, v, d, low, high, installs⟩
    exact ⟨j, fun is => pending v d low high (is ▸ installs), v, d, low, high, installs⟩
  · intro k later free
    have kept := run.suspension_stays rooted whole hands (Nat.le_of_lt (Nat.lt_of_lt_of_le lt later))
      source (by simp [Slot.value?, free])
    refine World.runs_of_free kept ?_ free
    by_contra cleared
    rw [Bool.not_eq_false] at cleared
    obtain ⟨v, held⟩ := run.value_of_cleared rooted whole hands kept cleared
    rw [free] at held
    cases held

def yieldsAt (run : Run) (i : ThreadId) (k : Nat) : Bool :=
  match run.move k with
  | .step j => j == i || ((run.state k).threads[i]?).any fun t => t.standsAt?.isSome || t.isParked
  | _ => true

theorem yields_of_yieldsAt {run : Run} {i : ThreadId} {a b : Nat}
    (all : ∀ k < b, a ≤ k → run.yieldsAt i k = true) : run.Yields i a b := by
  intro k low high j other turn
  have alone := all k high low
  rw [yieldsAt, turn] at alone
  simpa [other] using alone

end Run

def Control.isSeize (n : NodeId) : Control → Bool
  | .seize m _ => m == n
  | _ => false

theorem Control.seize_of_isSeize {c : Control} (is : c.isSeize n = true) :
    ∃ seen, c = .seize n seen := by
  unfold isSeize at is
  split at is
  · exact ⟨_, by rw [eq_of_beq is]⟩
  · cases is

def Control.isClaimed (n : NodeId) : Control → Bool
  | .start m claim => m == n && claim
  | _ => false

theorem Control.start_of_isClaimed {c : Control} (is : c.isClaimed n = true) :
    c = .start n true := by
  unfold isClaimed at is
  split at is
  · simp only [Bool.and_eq_true, beq_iff_eq] at is
    rw [is.1, is.2]
  · cases is

def Thread.givesUp (t : Thread) (w : World) (n : NodeId) : Bool :=
  match t.agenda with
  | .surrender m seen :: _ => m == n && (w.slot n).unchanged seen
  | _ => false

theorem Thread.agenda_of_givesUp {t : Thread} (gives : t.givesUp w n = true) :
    ∃ seen as, t.agenda = .surrender n seen :: as ∧ (w.slot n).unchanged seen = true := by
  unfold givesUp at gives
  split at gives
  · rename_i m seen as next
    simp only [Bool.and_eq_true, beq_iff_eq] at gives
    exact ⟨seen, as, by rw [next, gives.1], gives.2⟩
  · cases gives

namespace Run

/-- The code of a thunk stops at a gate and panics afterwards. A task that waits for the thunk is
woken, and it is to run the thunk again. -/
def deserted : Run :=
  .ofMoves {}
    ([.thunk (.branch (.prim (.gate "g") []) (.prim (.raise "bad") []) (.prim (.panic "no") [])) [],
        .sit true, .sit true, .evaluate 0 0, .evaluate 1 0] ++ List.replicate 13 (.step 0) ++
      List.replicate 19 (.step 1) ++ [.pass 0 "g"] ++ List.replicate 13 (.step 0) ++ [.step 1])
    (by decide +kernel)

theorem call_unwinds_deserted :
    deserted.Rooted ∧ deserted.Whole ∧ deserted.NeverTouches ∧ deserted.Calls 0 9 50 0 ∧
      deserted.Yields 0 9 50 ∧ deserted.Enters 0 0 true 12 ∧ deserted.GivesUp 0 0 0 43 ∧
      ((deserted.state 50).world.context 0).stack.frames =
        ((deserted.state 9).world.context 0).stack.frames ∧
      ((deserted.state 50).world.slot 0).ownedBy 0 = false ∧
      (∃ s, (deserted.state 12).world.suspension? 0 = some s ∧
        (deserted.state 52).world.Runs 0 s) ∧
      ∃ d, 43 < d ∧ d < 50 ∧ deserted.Wakes 1 d := by
  have rooted : deserted.Rooted := rooted_ofMoves (by decide +kernel)
  have whole : deserted.Whole := ofMoves_all rfl (by decide +kernel)
  have hands : deserted.NeverTouches :=
    ofMoves_forall (P := fun s => ∀ t ∈ s.threads, t.touches = false) (by decide +kernel)
  have calls : deserted.Calls 0 9 50 0 :=
    ⟨by decide, by decide +kernel, by decide +kernel, by decide +kernel⟩
  have yields : deserted.Yields 0 9 50 := yields_of_yieldsAt (by decide +kernel)
  have seizes : ((deserted.state 12).threads[0]?).any (fun t => t.control.isSeize 0) = true := by
    decide +kernel
  have taken : ((deserted.state 13).threads[0]?).any (fun t => t.control.isClaimed 0 &&
      ((deserted.state 13).world.slot 0).cell ==
        some (.blackHole (t.me (deserted.state 13).world))) = true := by
    decide +kernel
  have enters : deserted.Enters 0 0 true 12 := by
    obtain ⟨t, found, at'⟩ := (Option.any_eq_true _ _).1 seizes
    obtain ⟨u, found', after⟩ := (Option.any_eq_true _ _).1 taken
    obtain ⟨claimed, held⟩ := Bool.and_eq_true_iff.1 after
    exact ⟨⟨t, found, .inr ⟨Control.seize_of_isSeize at', rfl⟩⟩, by decide +kernel, u, found',
      Control.start_of_isClaimed claimed, fun _ _ => eq_of_beq held⟩
  have surrenders : ((deserted.state 43).threads[0]?).any
      (fun t => t.givesUp (deserted.state 43).world 0) = true := by
    decide +kernel
  have gives : deserted.GivesUp 0 0 0 43 := by
    obtain ⟨t, found, next⟩ := (Option.any_eq_true _ _).1 surrenders
    obtain ⟨seen, as, is, same⟩ := Thread.agenda_of_givesUp next
    exact ⟨rfl, t, seen, as, 0, found, is, same, by decide +kernel⟩
  have waits : (⟨1, 0⟩ : Message) ∈ (deserted.state 43).world.messages 0 := by decide +kernel
  have source : ((deserted.state 12).world.suspension? 0).isSome = true := by decide +kernel
  obtain ⟨s, source⟩ := Option.isSome_iff_exists.1 source
  obtain ⟨t, u, found, there, context, -, frames, -, -, entered, woken⟩ :=
    call_unwinds deserted rooted whole hands calls
  have seat : ((deserted.state 9).threads[0]?).any (fun t => t.context == 0) = true := by
    decide +kernel
  have me : ((deserted.state 50).threads[0]?).any
      (fun u => u.me (deserted.state 50).world == 0) = true := by
    decide +kernel
  rw [found, Option.any_some, beq_iff_eq] at seat
  rw [there, Option.any_some, beq_iff_eq] at me
  obtain ⟨free, again⟩ := entered 0 true 12 (by decide) (by decide) enters
  have pending : ∀ v d, 12 ≤ d → d < 50 → ¬ deserted.Installs 0 0 v d := by
    intro v d low high installs
    have never : ∀ d < 51, ((deserted.state d).world.slot 0).value? = none := by decide +kernel
    have held := never (d + 1) (Nat.succ_lt_succ high)
    rw [Slot.value?_eq_some.2 installs.held] at held
    cases held
  have runs := (again s source pending).2 52 (by decide) (by decide +kernel)
  obtain ⟨d, low, high, -, wakes⟩ :=
    woken yields 0 0 43 (by decide) (by decide) gives ⟨1, 0⟩ waits
  rw [seat] at frames
  rw [me] at free
  exact ⟨rooted, whole, hands, calls, yields, enters, gives, frames, free, ⟨s, source, runs⟩,
    d, low, high, wakes⟩

end Run

end LazyGraph

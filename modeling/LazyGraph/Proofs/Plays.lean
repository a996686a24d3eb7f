import LazyGraph.Proofs.Modes
import LazyGraph.Proofs.Sole
import LazyGraph.Proofs.Sweeps

/-!
# Plays

In a play, a thread that has its turn keeps it until it ends, stands at a gate or is suspended.
-/

namespace LazyGraph

/-! ## Turns that stop -/

namespace Turn

/-- The thread has ended, stands at a gate or waits for its task to be woken. -/
def stops (x : Turn) : Bool :=
  x.2.outcome?.isSome || x.2.standsAt?.isSome ||
    x.2.isParked && !(x.1.task (x.2.me x.1)).permit

variable {x : Turn} {n m : Nat}

theorem stops_cases (stops : x.stops) : x.2.outcome?.isSome ∨
    (∃ g as, x.2.agenda = .gate g :: as ∧ x.2.mayStop = true) ∨
    ∃ n claim, x.2.agenda = [] ∧ x.2.control = .parked n claim ∧ x.2.maySuspend = true ∧
      (x.1.task (x.2.me x.1)).permit = false := by
  simp only [Turn.stops, Bool.or_eq_true, Bool.and_eq_true, Bool.not_eq_true'] at stops
  rcases stops with (ended | stands) | ⟨parked, asleep⟩
  · exact .inl ended
  · unfold Thread.standsAt? at stands
    split at stands
    · rename_i g as next
      split at stands
      · rename_i may
        exact .inr (.inl ⟨g, as, next, may⟩)
      · cases stands
    · cases stands
  · unfold Thread.isParked at parked
    split at parked
    · rename_i n claim idle at'
      exact .inr (.inr ⟨n, claim, idle, at', parked, asleep⟩)
    · cases parked

theorem next_of_stops (stops : x.stops) : x.next = x := by
  rcases stops_cases stops with ended | ⟨g, as, next, may⟩ | ⟨n, claim, idle, at', may, asleep⟩
  · exact next_of_ended ended
  · rw [next_of_errand next, Action.perform, if_pos may, ← next]
  · simp [Turn.next, Thread.step, idle, Thread.proceed, at', Thread.park, World.takePermit?,
      asleep, may]

theorem iterate_of_stops (stops : (Turn.next^[n] x).stops) (late : n ≤ m) :
    Turn.next^[m] x = Turn.next^[n] x :=
  iterate_of_fixed (next_of_stops stops) late

theorem eq_of_stops (stops : (Turn.next^[n] x).stops) (stops' : (Turn.next^[m] x).stops) :
    Turn.next^[n] x = Turn.next^[m] x := by
  rcases Nat.le_total n m with le | le
  · exact (iterate_of_stops stops le).symm
  · exact iterate_of_stops stops' le

end Turn

/-! ## Threads that keep their turn -/

/-- Thread `i` takes steps until it stops. -/
def State.Settles (s : State) (i : ThreadId) (s' : State) : Prop :=
  (∃ n, (State.step · i)^[n] s = s') ∧ ∀ t, s'.threads[i]? = some t → Turn.stops (s'.world, t)

/-- Moves where a thread keeps its turn until it stops. -/
inductive State.Plays (s : State) : Move → State → Prop
  | turn {i : ThreadId} {s' : State} (settles : s.Settles i s') : Plays s (.step i) s'
  | other {m : Move} (other : ∀ i, m ≠ .step i) : Plays s m (s.after m)

variable {s s' z : State} {m : Move} {i : ThreadId} {t : Thread} {x : Turn}

namespace State

theorem iterate_step (found : s.threads[i]? = some t) (n : Nat) :
    (State.step · i)^[n] s = s.put i (Turn.next^[n] (s.world, t)) := by
  induction n with
  | zero => exact (put_self found).symm
  | succ n ih =>
    rw [Function.iterate_succ_apply', ih, step_put found, Function.iterate_succ_apply']
    rfl

theorem settles_iff (found : s.threads[i]? = some t) : s.Settles i s' ↔
    ∃ n, s' = s.put i (Turn.next^[n] (s.world, t)) ∧ (Turn.next^[n] (s.world, t)).stops := by
  constructor
  · rintro ⟨⟨n, rfl⟩, stops⟩
    rw [iterate_step found] at stops ⊢
    exact ⟨n, rfl, stops _ (threads_put found)⟩
  · rintro ⟨n, rfl, stops⟩
    refine ⟨⟨n, iterate_step found n⟩, fun t' there => ?_⟩
    rw [threads_put found] at there
    cases there
    exact stops

theorem settles_iff_of_none (missing : s.threads[i]? = none) : s.Settles i s' ↔ s' = s := by
  have stays : s.step i = s := by simp [step, missing]
  constructor
  · rintro ⟨⟨n, rfl⟩, -⟩
    exact Function.iterate_fixed stays n
  · rintro rfl
    refine ⟨⟨0, rfl⟩, fun t there => ?_⟩
    rw [missing] at there
    cases there

theorem Settles.unique (settles : s.Settles i s') (settles' : s.Settles i z) : s' = z := by
  cases found : s.threads[i]? with
  | none =>
    rw [settles_iff_of_none found] at settles settles'
    rw [settles, settles']
  | some t =>
    obtain ⟨n, rfl, stops⟩ := (settles_iff found).1 settles
    obtain ⟨m, rfl, stops'⟩ := (settles_iff found).1 settles'
    rw [Turn.eq_of_stops stops stops']

theorem Plays.unique (plays : s.Plays m s') (plays' : s.Plays m z) : s' = z := by
  cases plays with
  | turn settles =>
    cases plays' with
    | turn settles' => exact settles.unique settles'
    | other other => exact absurd rfl (other _)
  | other other =>
    cases plays' with
    | turn => exact absurd rfl (other _)
    | other => rfl

end State

/-! ## Between the turns -/

/-- The thread has nothing to do before its gates are opened. -/
def Thread.Pauses (t : Thread) : Prop :=
  t.control.waiting? = none ∧ ∀ a ∈ t.agenda, ∃ g, a = .gate g

/-- The state of a run in which no capability stops a thread on its way into a queue. -/
def State.Direct (s : State) : Prop :=
  ∃ (run : Run) (k : Nat), run.NeverDetours ∧ run.state k = s

/-- Between the turns of its threads. -/
structure State.Ready (s : State) : Prop where
  direct : s.Direct
  pauses : s.Each fun _ t => t.Pauses

namespace State.Direct

theorem start (log : Log) : State.Direct { world := { log } } :=
  ⟨{ log, move := fun _ => .rest, admitted := fun _ => rfl }, 0, fun _ => rfl, rfl⟩

theorem after (direct : s.Direct) (admitted : s.admits m = true) (plain : m.isDetour = false) :
    (s.after m).Direct := by
  obtain ⟨run, k, never, rfl⟩ := direct
  refine ⟨run.continued k m admitted, k + 1, fun j => ?_, Run.continued_after admitted⟩
  simp only [Run.continued]
  split
  · exact never j
  · split
    · exact plain
    · rfl

theorem iterate (direct : s.Direct) (i : ThreadId) (n : Nat) :
    ((State.step · i)^[n] s).Direct := by
  induction n with
  | zero => exact direct
  | succ n ih =>
    rw [Function.iterate_succ_apply']
    exact ih.after (m := .step i) rfl rfl

end State.Direct

theorem Run.ordered {run : Run} (direct : run.NeverDetours) (k : Nat) :
    (run.state k).Each fun _ t => t.Ordered := by
  refine run.each (fun _ _ held => held) (fun k i t found held => ?_)
    (fun w t g as next held => ?_) (fun w t fresh => ?_) k
  · exact ((step_cases _ t).planning (Thread.straight_step (run.undetoured direct k t.context)
      (run.straight direct k i t found))).ordered held
  · have alone := held.gates g (by rw [next]; exact List.mem_cons_self ..)
    rw [next] at alone
    cases alone
    exact .of_isWork (by simp)
  · exact .of_isWork (by simp [fresh.1])

theorem Thread.Fresh.pauses (fresh : t.Fresh) : t.Pauses := by
  obtain ⟨idle, -, c, env, code⟩ := fresh
  exact ⟨by rw [code]; rfl, by simp [idle]⟩

theorem Turn.pauses_of_stops (stops : x.stops) (ordered : x.2.Ordered) (straight : x.2.Straight) :
    x.2.Pauses := by
  rcases stops_cases stops with ended | ⟨g, as, next, -⟩ | ⟨n, claim, idle, at', -⟩
  · obtain ⟨idle, -, ⟨n, at'⟩ | ⟨e, at'⟩ | ⟨m, at'⟩⟩ := Thread.ended_cases ended <;>
      exact ⟨by rw [at']; rfl, by simp [idle]⟩
  · have known : .gate g ∈ x.2.agenda := next ▸ List.mem_cons_self ..
    refine ⟨?_, fun a planned => ⟨g, ?_⟩⟩
    · by_contra waits
      obtain ⟨y, waiting⟩ := Option.ne_none_iff_exists'.1 waits
      cases straight y waiting _ known
    · rw [ordered.gates g known] at planned
      exact List.mem_singleton.1 planned
  · exact ⟨by rw [at']; rfl, by simp [idle]⟩

namespace State.Ready

theorem put (ready : s.Ready) (found : s.threads[i]? = some t) {y : Turn}
    (leads : Turn.Leads (s.world, t) y) : (s.put i y).Direct := by
  obtain ⟨n, rfl⟩ := leads
  rw [← iterate_step found]
  exact ready.direct.iterate i n

theorem settles (ready : s.Ready) (settles : s.Settles i s') : s'.Ready := by
  cases found : s.threads[i]? with
  | none =>
    obtain rfl := (settles_iff_of_none found).1 settles
    exact ready
  | some t =>
    obtain ⟨n, rfl, stops⟩ := (settles_iff found).1 settles
    have direct := ready.put found ⟨n, rfl⟩
    refine ⟨direct, fun j t' there => ?_⟩
    by_cases own : j = i
    · subst own
      rw [threads_put found] at there
      cases there
      obtain ⟨run, k, never, is⟩ := direct
      have at' := is ▸ threads_put found
      exact Turn.pauses_of_stops stops (run.ordered never k j _ at') (run.straight never k j _ at')
    · rw [threads_put_other own] at there
      exact ready.pauses j t' there

theorem plays (ready : s.Ready) (plays : s.Plays m s') (admitted : s.admits m = true)
    (plain : m.isDetour = false) : s'.Ready := by
  cases plays with
  | turn settles => exact ready.settles settles
  | other other =>
    refine ⟨ready.direct.after admitted plain, fun j t' there => ?_⟩
    rcases thread_of_after there with ⟨u, found⟩ | fresh
    · rcases not_own_step (other j) found with stays | ⟨g, as, next, -, passed⟩
      · rw [stays] at there
        cases there
        exact ready.pauses j t' found
      · rw [passed] at there
        cases there
        obtain ⟨waits, gates⟩ := ready.pauses j u found
        exact ⟨waits, fun a known => gates a (next ▸ List.mem_cons_of_mem _ known)⟩
    · exact fresh.pauses

end State.Ready

/-! ## Plays -/

/-- Threads and their host take turns. The host leaves capabilities to the evaluator. -/
structure Play where
  log : Log
  move : Nat → Move
  state : Nat → State
  start : state 0 = { world := { log } }
  next : ∀ k, (state k).Plays (move k) (state (k + 1))
  admitted : ∀ k, (state k).admits (move k) = true
  direct : ∀ k, (move k).isDetour = false

namespace Play

variable {play other : Play} {k : Nat}

theorem ready (play : Play) (k : Nat) : (play.state k).Ready := by
  induction k with
  | zero =>
    rw [play.start]
    exact ⟨.start play.log, fun i t found => by simp at found⟩
  | succ k ih => exact ih.plays (play.next k) (play.admitted k) (play.direct k)

end Play

/-! ## Plays that are given as lists -/

namespace State

/-- Where it is the turn of a thread, it takes `n` steps. -/
def taking (s : State) (m : Move) (n : Nat) : State :=
  match m with
  | .step i => (State.step · i)^[n] s
  | m => s.after m

def stopped (s : State) : Move → Bool
  | .step i => (s.threads[i]?).all fun t => Turn.stops (s.world, t)
  | _ => true

def settled (s : State) : List (Move × Nat) → Bool
  | [] => true
  | (m, n) :: ms =>
    s.admits m && !m.isDetour && (s.taking m n).stopped m && (s.taking m n).settled ms

/-- The state after the first moves. -/
def taken (s : State) : List (Move × Nat) → Nat → State
  | [], _ | _, 0 => s
  | (m, n) :: ms, k + 1 => (s.taking m n).taken ms k

theorem plays_taking {n : Nat} (stopped : (s.taking m n).stopped m = true) :
    s.Plays m (s.taking m n) := by
  cases m with
  | step i =>
    refine .turn ⟨⟨n, rfl⟩, fun t found => ?_⟩
    have stops : (s.taking (.step i) n).threads[i]?.all
        (fun t => Turn.stops ((s.taking (.step i) n).world, t)) = true := stopped
    rw [found] at stops
    exact stops
  | _ => exact .other (by simp)

theorem taken_zero (ms : List (Move × Nat)) : s.taken ms 0 = s := by
  cases ms <;> rfl

theorem plays_taken {ms : List (Move × Nat)} (settled : s.settled ms = true) (k : Nat) :
    (s.taken ms k).Plays (ms.getD k (.rest, 0)).1 (s.taken ms (k + 1)) ∧
      (s.taken ms k).admits (ms.getD k (.rest, 0)).1 = true ∧
      (ms.getD k (.rest, 0)).1.isDetour = false := by
  induction ms generalizing s k with
  | nil => exact ⟨.other (m := .rest) (by simp), rfl, rfl⟩
  | cons first ms ih =>
    obtain ⟨m, n⟩ := first
    simp only [State.settled, Bool.and_eq_true, Bool.not_eq_true'] at settled
    obtain ⟨⟨⟨admitted, plain⟩, stopped⟩, rest⟩ := settled
    cases k with
    | zero =>
      have plays := plays_taking stopped
      rw [← taken_zero (s := s.taking m n) ms] at plays
      exact ⟨plays, admitted, plain⟩
    | succ k => exact ih rest k

end State

namespace Play

def ofMoves (log : Log) (ms : List (Move × Nat))
    (settled : State.settled { world := { log } } ms = true) : Play where
  log
  move k := (ms.getD k (.rest, 0)).1
  state := State.taken { world := { log } } ms
  start := State.taken_zero ms
  next k := (State.plays_taken settled k).1
  admitted k := (State.plays_taken settled k).2.1
  direct k := (State.plays_taken settled k).2.2

end Play

end LazyGraph

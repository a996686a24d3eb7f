import LazyGraph.Proofs.Plays
import Mathlib.Tactic.Choose

/-!
# Capabilities are not relied on

A wake-up never depends on the map in which a queue was registered: what becomes of threads that take
turns is the same whatever the capabilities of their contexts.
-/

namespace LazyGraph

/-! ## Two turns in step -/

namespace Turn

variable {x y : Turn} {n : Nat}

theorem stops_seen (poised : x.2.Poised) : x.seen.stops = x.stops := by
  obtain ⟨w, t⟩ := x
  cases next : t.agenda with
  | nil =>
    simp [Turn.seen, Thread.seen_of_idle next, stops]
  | cons a as =>
    have agenda : t.seen.agenda = a :: hide as := by
      rw [Thread.seen, next, hide_cons (poised a (by simp [next]))]
    have mayStop : t.seen.mayStop = t.mayStop := rfl
    simp only [Turn.seen, stops, Thread.outcome?, Thread.standsAt?, Thread.isParked, agenda, next,
      mayStop]
    cases a <;> rfl

/-- The thread is not in the middle of a sweep, and will wake nobody in one. -/
structure Fit (x : Turn) : Prop where
  sound : x.Sound
  tidy : x.2.Tidy
  straight : ∀ y, x.Leads y → y.2.Straight

theorem Sound.leads (sound : x.Sound) (leads : x.Leads y) : y.Sound :=
  fun z further => sound z (leads.trans further)

theorem Fit.next (fit : x.Fit) (poised : x.2.Poised) : x.next.Fit where
  sound := fit.sound.leads (.next (.refl _))
  tidy := ((step_cases x.1 x.2).planning (fit.straight x.next (.next (.refl _)))).tidy poised
    fit.tidy
  straight y leads := fit.straight y leads.next

/-- After hidden errands, a thread does something that can be seen. -/
theorem Fit.poise (fit : x.Fit) : ∃ y, x.Leads y ∧ y.2.Poised ∧ y.Fit ∧ y.seen = x.seen := by
  generalize left : x.2.agenda = as
  induction as generalizing x with
  | nil =>
    refine ⟨x, .refl x, ?_, fit, rfl⟩
    intro a known
    rw [left] at known
    cases known
  | cons a as ih =>
    by_cases hidden : a.isHidden = true
    · have skips : x.Skips as := by
        cases a with
        | emit e => exact skips_emit left
        | withdraw q => exact skips_withdraw left
        | sweep u => exact skips_sweep (fit.sound x (.refl x) u as left) left
        | _ => cases hidden
      obtain ⟨w', leads, same⟩ := skips
      have fit' : Turn.Fit (w', { x.2 with agenda := as }) := by
        refine ⟨fit.sound.leads leads, fun b known => ?_, fun y further =>
          fit.straight y (leads.trans further)⟩
        exact fit.tidy b (left ▸ List.mem_cons_of_mem _ known)
      obtain ⟨y, further, poised, fitted, seen⟩ := ih fit' rfl
      refine ⟨y, leads.trans further, poised, fitted, seen.trans ?_⟩
      simp [Turn.seen, Thread.seen, same, left, hide, hidden]
    · refine ⟨x, .refl x, ?_, fit, rfl⟩
      intro b known
      rw [left] at known
      cases known
      simpa using hidden

/-- Threads of which the same is seen stop with the same to be seen. -/
theorem Fit.lockstep (fit : x.Fit) (fit' : y.Fit) (same : x.seen = y.seen)
    (stops : (Turn.next^[n] x).stops) :
    ∃ z, y.Leads z ∧ z.stops ∧ z.seen = (Turn.next^[n] x).seen := by
  -- on the steps of `x`: both threads do their hidden errands, which may take one of them longer,
  -- and then one step each that is seen
  induction n using Nat.strongRecOn generalizing x y with
  | ind n ih =>
    obtain ⟨_, ⟨j, rfl⟩, poised, fits, seen⟩ := fit.poise
    obtain ⟨y', leads, poised', fits', seen'⟩ := fit'.poise
    have alike : (Turn.next^[j] x).seen = y'.seen := seen.trans (same.trans seen'.symm)
    by_cases stopped : (Turn.next^[j] x).stops = true
    · refine ⟨y', leads, ?_, ?_⟩
      · rw [← stops_seen poised', ← alike, stops_seen poised]
        exact stopped
      · rw [← alike, eq_of_stops stopped stops]
    · have before : j < n := by
        by_contra late
        exact stopped (iterate_of_stops stops (Nat.not_lt.1 late) ▸ stops)
      obtain ⟨d, rfl⟩ := Nat.exists_eq_add_of_lt before
      have split : Turn.next^[j + d + 1] x = Turn.next^[d] (Turn.next^[j] x).next := by
        rw [show j + d + 1 = d + 1 + j by omega, Function.iterate_add_apply,
          Function.iterate_succ_apply]
      rw [split] at stops ⊢
      have after : (Turn.next^[j] x).next.seen = y'.next.seen := by
        rw [seen_next poised fits.tidy, seen_next poised' fits'.tidy, alike]
      obtain ⟨z, further, ends, found⟩ :=
        ih d (by omega) (fits.next poised) (fits'.next poised') after stops
      exact ⟨z, leads.trans further.next, ends, found⟩

end Turn

/-! ## Sweeps wake nobody -/

variable {s s' z : State} {m m' : Move} {i : ThreadId} {t : Thread} {w : World} {q : QueueId}
  {Q : Queue}

theorem World.spent_of_closed (found : w.queue? q = some Q) (closed : Q.closed = true)
    (empty : Q.messages = []) : w.Spent q := by
  refine ⟨(messages_of_queue? found).trans empty, ?_⟩
  obtain ⟨named, there, rfl⟩ := queue?_eq_some found
  have same : named.close = named := by
    obtain ⟨name, owner, thunk, messages, shut⟩ := named
    cases closed
    cases empty
    rfl
  have kept : w.close q = w := by
    rw [World.close, modify_eq_setIfInBounds _ there, same, setIfInBounds_self there]
  rw [kept]

theorem World.spent_of_none (unknown : w.queue? q = none) : w.Spent q := by
  have there : w.queues[q]? = none := by simpa [World.queue?] using unknown
  refine ⟨by simp [World.messages, there], ?_⟩
  rw [World.close, modify_of_none _ there]

theorem Thread.Pauses.free (pauses : t.Pauses) : ¬ t.Drains q ∧ ¬ t.Owns q := by
  obtain ⟨waits, gates⟩ := pauses
  have other : ∀ {a}, a ∈ t.agenda → ∃ g, a = .gate g := fun known => gates _ known
  constructor
  · rintro ⟨note, known⟩
    obtain ⟨g, is⟩ := other known
    cases is
  · rintro (⟨x, waiting, -⟩ | known)
    · rw [waits] at waiting
      cases waiting
    · obtain ⟨g, is⟩ := other known
      cases is

/-- What a thread has to do with queues, it does before it sweeps. -/
theorem Thread.Ordered.free {u : TaskId} {as : List Action} (ordered : t.Ordered)
    (straight : t.Straight) (next : t.agenda = .sweep u :: as) : ¬ t.Drains q ∧ ¬ t.Owns q := by
  have other : ∀ {a}, a ∈ t.agenda → a = .sweep u ∨ a.isReport := by
    intro a known
    have sweeps := ordered.sweeps
    rw [next] at known sweeps
    rcases List.mem_cons.1 known with is | behind
    · exact .inl is
    · exact .inr ((List.pairwise_cons.1 sweeps).1 a behind rfl)
  constructor
  · rintro ⟨note, known⟩
    rcases other known with is | report
    · cases is
    · cases report
  · rintro (⟨x, waiting, -⟩ | known)
    · cases straight x waiting (.sweep u) (next ▸ List.mem_cons_self ..)
    · rcases other known with is | report
      · cases is
      · cases report

/-- While no thread has a queue in hand, each open queue is in the slot of a thunk without value. -/
theorem State.Tended.orderly (tended : s.Tended) (queued : s.Queued)
    (free : ∀ t ∈ s.threads, ∀ q, ¬ t.Drains q ∧ ¬ t.Owns q) : s.world.Orderly := by
  intro q ready
  cases there : s.world.queue? q with
  | none => exact World.spent_of_none there
  | some Q =>
    by_cases closed : Q.closed = true
    · exact World.spent_of_closed there closed (tended.emptied q Q there closed)
    · have resolved : (s.world.evaluated? Q.thunk).isSome := by
        rw [World.isClosed_of_queue? there, World.isResolved_of_queue? there] at ready
        exact ready.resolve_left closed
      rcases tended.open' q (by rw [there]; rfl) with (held | ⟨t, known, drains⟩) |
        ⟨R, found, shut⟩ | ⟨t, known, owns⟩
      · rw [Run.evaluated?_of_queue (Run.awaits_slot queued there held)] at resolved
        cases resolved
      · exact absurd drains (free t known q).1
      · rw [there] at found
        cases found
        exact absurd shut closed
      · exact absurd owns (free t known q).2

theorem State.Direct.orderly {u : TaskId} {as : List Action} (direct : s.Direct)
    (found : s.threads[i]? = some t) (next : t.agenda = .sweep u :: as)
    (others : ∀ (j : ThreadId) t', s.threads[j]? = some t' → j ≠ i → t'.Pauses) :
    s.world.Orderly := by
  obtain ⟨run, k, never, rfl⟩ := direct
  refine (run.tended never k).orderly (run.queued k) fun t' known q => ?_
  obtain ⟨j, there⟩ := Array.getElem?_of_mem known
  by_cases own : j = i
  · subst own
    rw [found] at there
    cases there
    exact (run.ordered never k j t found).free (run.straight never k j t found) next
  · exact (others j t' there own).free

theorem State.Ready.fit (ready : s.Ready) (found : s.threads[i]? = some t) : Turn.Fit (s.world, t) where
  sound y leads u as next := by
    refine (ready.put found leads).orderly (threads_put found) next fun j t' there other => ?_
    rw [threads_put_other other] at there
    exact ready.pauses j t' there
  tidy a known := by
    obtain ⟨g, rfl⟩ := (ready.pauses i t found).2 a known
    rfl
  straight y leads := by
    obtain ⟨run, k, never, is⟩ := ready.put found leads
    exact run.straight never k i y.2 (is ▸ threads_put found)

theorem Thread.Pauses.seen (pauses : t.Pauses) : t.seen = t := by
  have same : hide t.agenda = t.agenda := by
    refine List.filter_eq_self.2 fun a known => ?_
    obtain ⟨g, rfl⟩ := pauses.2 a known
    rfl
  rw [Thread.seen, same]

/-! ## What becomes of the rest -/

def State.core (s : State) : State :=
  ⟨s.world.core, s.threads⟩

/-- The move without what it says of capabilities. -/
def Move.core : Move → Move
  | .seat name _ config interpreter => .seat name 0 config interpreter
  | .map | .capability _ _ _ | .poolStarted _ | .jobPanicked _ => .rest
  | m => m

theorem Move.core_eq_step (same : m.core = .step i) : m = .step i := by
  cases m <;> first | exact same | cases same

theorem Move.isDetour_of_core (same : m.core = m'.core) : m.isDetour = m'.isDetour := by
  have kept : ∀ m : Move, m.core.isDetour = m.isDetour := by
    intro m
    cases m <;> rfl
  rw [← kept m, same, kept]

namespace State

theorem core_core : s.core.core = s.core := by
  simp [core]

theorem isStuck_core (i : ThreadId) : s.core.isStuck i = s.isStuck i := by
  simp [isStuck, core]

theorem core_after (other : ∀ i, m ≠ .step i) : (s.after m).core = (s.core.after m.core).core := by
  cases m with
  | step i => exact absurd rfl (other i)
  | seat name =>
    have task : (s.world.core.addTask { name }).2 = (s.world.addTask { name }).2 := rfl
    simp [core, after, Move.core, Context.core, task]
  | map | capability | rest => exact core_core.symm
  | _ => simp [core, after, Move.core, spawn, Context.core]

theorem admits_core : s.core.admits m.core = s.admits m := by
  have size : s.core.world.contexts.size = s.world.contexts.size := Array.size_map ..
  cases m with
  | start =>
    simp only [admits, Move.core, size]
    rfl
  | _ => rfl

theorem Ready.follow (ready : s.Ready) (ready' : s'.Ready) (same : s.core = s'.core)
    (alike : m.core = m'.core) (plays : s.Plays m z) : ∃ z', s'.Plays m' z' ∧ z'.core = z.core := by
  obtain ⟨world, threads⟩ := State.mk.inj same
  cases plays with
  | @turn i _ settles =>
    obtain rfl : m' = .step i := Move.core_eq_step alike.symm
    cases found : s.threads[i]? with
    | none =>
      obtain rfl := (settles_iff_of_none found).1 settles
      exact ⟨s', .turn ((settles_iff_of_none (threads ▸ found)).2 rfl), same.symm⟩
    | some t =>
      have found' : s'.threads[i]? = some t := threads ▸ found
      have seen : Turn.seen (s.world, t) = Turn.seen (s'.world, t) := by
        rw [Turn.seen, Turn.seen, world]
      have settled := ready.settles settles
      obtain ⟨n, rfl, stops⟩ := (settles_iff found).1 settles
      obtain ⟨y, ⟨m, rfl⟩, ends, agrees⟩ :=
        (ready.fit found).lockstep (ready'.fit found') seen stops
      have settles' : s'.Settles i (s'.put i (Turn.next^[m] (s'.world, t))) :=
        (settles_iff found').2 ⟨m, rfl, ends⟩
      have pauses := settled.pauses i _ (threads_put found)
      have pauses' := (ready'.settles settles').pauses i _ (threads_put found')
      refine ⟨_, .turn settles', ?_⟩
      obtain ⟨after, self⟩ := Prod.mk.inj agrees
      rw [pauses.seen, pauses'.seen] at self
      simp only [core, State.put, after, self, threads]
  | other other =>
    refine ⟨_, .other fun i is => other i (Move.core_eq_step (alike.trans (by rw [is]; rfl))), ?_⟩
    rw [core_after other, same, alike, ← core_after]
    exact fun i is => other i (Move.core_eq_step (alike.trans (by rw [is]; rfl)))

end State

namespace Play

variable {play other : Play} {k : Nat}

theorem follows (alike : ∀ k, (play.move k).core = (other.move k).core) (k : Nat) :
    (other.state k).core = (play.state k).core := by
  induction k with
  | zero =>
    rw [play.start, other.start]
    rfl
  | succ k ih =>
    obtain ⟨z, plays, same⟩ := (play.ready k).follow (other.ready k) ih.symm (alike k) (play.next k)
    rw [(other.next k).unique plays, same]

theorem ofMoves_alike {log log' : Log} {ms ms' : List (Move × Nat)} {settled settled'}
    (same : ms.map (·.1.core) = ms'.map (·.1.core)) (k : Nat) :
    ((ofMoves log ms settled).move k).core = ((ofMoves log' ms' settled').move k).core := by
  have at' : ∀ ms : List (Move × Nat),
      (ms.getD k (.rest, 0)).1.core = (ms.map (·.1.core)).getD k .rest := by
    intro ms
    rw [List.getD_eq_getElem?_getD, List.getD_eq_getElem?_getD, List.getElem?_map]
    cases ms[k]? <;> rfl
  exact (at' ms).trans ((congrArg (·.getD k .rest) same).trans (at' ms').symm)

theorem exists_alike (play : Play) {move : Nat → Move}
    (alike : ∀ k, (play.move k).core = (move k).core) (log : Log) :
    ∃ other : Play, other.move = move ∧ other.log = log := by
  have step : ∀ (k : Nat) (s : { s : State // s.Ready ∧ s.core = (play.state k).core }),
      ∃ s' : { s : State // s.Ready ∧ s.core = (play.state (k + 1)).core },
        s.1.Plays (move k) s'.1 ∧ s.1.admits (move k) = true := by
    rintro k ⟨s, ready, same⟩
    have admitted : s.admits (move k) = true := by
      rw [← State.admits_core, same, ← alike k, State.admits_core]
      exact play.admitted k
    have plain : (move k).isDetour = false := Move.isDetour_of_core (alike k) ▸ play.direct k
    obtain ⟨z, plays, agrees⟩ := (play.ready k).follow ready same.symm (alike k) (play.next k)
    exact ⟨⟨z, ready.plays plays admitted plain, agrees⟩, plays, admitted⟩
  choose next plays admitted using step
  have first : State.Ready { world := { log } } ∧
      State.core { world := { log } } = (play.state 0).core := by
    refine ⟨⟨.start log, fun i t found => by simp at found⟩, ?_⟩
    rw [play.start]
    rfl
  let states (k : Nat) : { s : State // s.Ready ∧ s.core = (play.state k).core } :=
    Nat.rec ⟨_, first⟩ next k
  exact ⟨{ log, move, state := fun k => (states k).1, start := rfl
           next := fun k => plays k (states k), admitted := fun k => admitted k (states k)
           direct := fun k => Move.isDetour_of_core (alike k) ▸ play.direct k }, rfl, rfl⟩

/-- **Capabilities are not relied on.** A play can be repeated with any other capabilities for its
contexts, sharing their maps or not. After every move of it, threads, slots and queues are as before,
and so are the threads that wait for their task to be woken. -/
theorem capability_independent (play : Play) (move : Nat → Move) (log : Log)
    (alike : ∀ k, (play.move k).core = (move k).core) :
    (∃ other : Play, other.move = move ∧ other.log = log) ∧
    ∀ other : Play, other.move = move → ∀ k,
      (other.state k).threads = (play.state k).threads ∧
      (∀ n, (other.state k).world.slot n = (play.state k).world.slot n) ∧
      (∀ q, (other.state k).world.queue? q = (play.state k).world.queue? q) ∧
      (∀ i, (other.state k).isStuck i = (play.state k).isStuck i) ∧
      (other.state k).world.core = (play.state k).world.core := by
  refine ⟨play.exists_alike alike log, ?_⟩
  rintro other rfl k
  obtain ⟨world, threads⟩ := State.mk.inj (follows alike k)
  refine ⟨threads, fun n => ?_, fun q => ?_, fun i => ?_, world⟩
  · rw [← World.slot_core, world, World.slot_core]
  · rw [← World.queue?_core, world, World.queue?_core]
  · rw [← State.isStuck_core, follows alike k, State.isStuck_core]

/-- A lazy task runs the code of a thunk, an eager one takes it, and a third one comes to wait. Then
the lazy task is the first to be done. -/
def race (second capability : Move) (waiter : CapabilityId) : List (Move × Nat) :=
  [(.map, 0), (second, 0), (.capability 0 none false, 0), (capability, 0),
    (.thunk (.prim .last [.prim (.gate "g") [], .prim (.box (.scalar (.int 7))) []]) [], 0),
    (.sit false, 0), (.sit true, 0), (.seat none waiter { eager := true } none, 0),
    (.evaluate 0 0, 0), (.evaluate 1 0, 0), (.evaluate 2 0, 0), (.step 0, 40), (.step 1, 40),
    (.step 2, 40), (.pass 0 "g", 0), (.step 0, 40), (.step 2, 40), (.pass 1 "g", 0), (.step 1, 40)]

def sharing : Play :=
  .ofMoves {} (race .rest .rest 0) (by decide +kernel)

def parting : Play :=
  .ofMoves {} (race .map (.capability 1 none false) 1) (by decide +kernel)

theorem capability_independent_parting :
    (∀ k, (sharing.move k).core = (parting.move k).core) ∧
    (∀ k, (parting.state k).threads = (sharing.state k).threads) ∧
    (sharing.state 14).isStuck 2 = true ∧ (parting.state 14).isStuck 2 = true ∧
    (sharing.state 16).world.maps = #[[]] ∧ (parting.state 16).world.maps = #[[], [0]] ∧
    (sharing.state 16).isStuck 2 = false ∧ (parting.state 16).isStuck 2 = false ∧
    ∀ i < 3, ((parting.state 19).threads[i]?).bind Thread.outcome? = some (.value 3) := by
  have alike : ∀ k, (sharing.move k).core = (parting.move k).core := ofMoves_alike rfl
  have same := (capability_independent sharing parting.move {} alike).2 parting rfl
  refine ⟨alike, fun k => (same k).1, by decide +kernel, ?_, by decide +kernel, by decide +kernel,
    by decide +kernel, ?_, ?_⟩
  · rw [(same 14).2.2.2.1]
    decide +kernel
  · rw [(same 16).2.2.2.1]
    decide +kernel
  · rw [(same 19).1]
    decide +kernel

end Play

end LazyGraph

import LazyGraph.Proofs.Queues

/-!
# Which queues are in slots

A queue belongs to its maker until it is published; then it is open as long as it is in its slot, and
whoever takes it from there closes it.
-/

namespace LazyGraph

/-- Queue `q` is in no slot and will not come into one: the lock under which it was made is gone. -/
structure State.Out (s : State) (q : QueueId) : Prop where
  known : (s.world.queue? q).isSome
  slot : ∀ n o, (s.world.slot n).cell ≠ some (.queue q o)
  lock : ∀ (j : ThreadId) u x seen, s.threads[j]? = some u → u.control.waiting? = some x →
    x.queue = q → x.lock = some seen → (s.world.slot x.thunk).unchanged seen = false

/-- Queue `q` was made for the waiters of `n` while `o` evaluates it. -/
def World.Serves (w : World) (q : QueueId) (n : NodeId) (o : TaskId) : Prop :=
  ∃ Q, w.queue? q = some Q ∧ Q.thunk = n ∧ Q.owner = o

structure State.Queued (s : State) : Prop where
  slots : ∀ n q o, (s.world.slot n).cell = some (.queue q o) →
    ∃ Q, s.world.queue? q = some Q ∧ Q.thunk = n ∧ Q.owner = o ∧ Q.closed = false
  apart : ∀ (i : ThreadId) t q, s.threads[i]? = some t → t.Owns q →
    ∀ n o, (s.world.slot n).cell ≠ some (.queue q o)
  alone : ∀ (i j : ThreadId) t u q, s.threads[i]? = some t → s.threads[j]? = some u →
    t.Owns q → u.Owns q → i = j
  waits : ∀ (i : ThreadId) t x, s.threads[i]? = some t → t.control.waiting? = some x →
    s.world.Serves x.queue x.thunk x.owner
  joins : ∀ (i : ThreadId) t n claim q o, s.threads[i]? = some t →
    t.control = .join n claim q o →
    s.world.Serves q n o ∧ ∀ (j : ThreadId) u, s.threads[j]? = some u → ¬ u.Owns q
  locks : ∀ (i : ThreadId) t x seen, s.threads[i]? = some t → t.control.waiting? = some x →
    x.lock = some seen → seen.Later (s.world.slot x.thunk)
  gathers : ∀ (i : ThreadId) t n claim o seen, s.threads[i]? = some t →
    t.control = .gather n claim o seen → seen.Later (s.world.slot n)
  privately : ∀ (i : ThreadId) t q Q, s.threads[i]? = some t → t.Owns q →
    s.world.queue? q = some Q → ∀ m ∈ Q.messages, m.task = t.me s.world
  closed : ∀ q Q, s.world.queue? q = some Q → Q.closed = true → s.Out q
  doomed : ∀ (i : ThreadId) t q, s.threads[i]? = some t → t.Dooms q → s.Out q
  lists : ∀ q, s.world.Lists q → (s.world.queue? q).isSome
  looks : ∀ (i : ThreadId) t q, s.threads[i]? = some t → t.Looks q →
    (s.world.queue? q).isSome

variable {s s' : State} {i : ThreadId} {t t' : Thread} {q : QueueId} {n : NodeId} {o : TaskId}

theorem Thread.Noted.lock {x : Waiting} {seen : Slot} (noted : t.Noted)
    (waiting : t.control.waiting? = some x) (made : x.lock = some seen) :
    seen.cell = some (.locked (some x.owner)) := by
  have control := noted.control
  cases at' : t.control <;> simp_all [Control.waiting?, Control.Noted, Waiting.Noted]

theorem World.Evolves.knows {w w' : World} (evolves : w.Evolves w')
    (known : (w.queue? q).isSome) : (w'.queue? q).isSome := by
  obtain ⟨Q, found⟩ := Option.isSome_iff_exists.1 known
  obtain ⟨Q', found', -⟩ := evolves.queue q Q found
  simp [found']

theorem World.Evolves.serves {w w' : World} (evolves : w.Evolves w') (serves : w.Serves q n o) :
    w'.Serves q n o := by
  obtain ⟨Q, found, thunk, owner⟩ := serves
  obtain ⟨Q', found', thunk', owner', -⟩ := evolves.queue q Q found
  exact ⟨Q', found', thunk'.trans thunk, owner'.trans owner⟩

theorem World.Serves.known {w : World} (serves : w.Serves q n o) : (w.queue? q).isSome := by
  obtain ⟨Q, found, -⟩ := serves
  simp [found]

theorem not_known_size (w : World) : ¬ (w.queue? w.queues.size).isSome := by
  simp [World.queue?_eq_none (Nat.le_refl _)]

theorem State.Queued.known_of_owns (queued : s.Queued) (found : s.threads[i]? = some t)
    (owns : t.Owns q) : (s.world.queue? q).isSome := by
  rcases owns with ⟨x, waiting, rfl, -⟩ | known
  · exact (queued.waits i t x found waiting).known
  · exact (queued.doomed i t q found ⟨_, known, List.mem_singleton_self q⟩).known

/-! ## Steps -/

theorem owner_turns (turns : Turns s s' i t t') {j : ThreadId} {u : Thread}
    (known : (s.world.queue? q).isSome) (found : s'.threads[j]? = some u) (owns : u.Owns q) :
    ∃ v, s.threads[j]? = some v ∧ v.Owns q ∧ v.me s.world = u.me s'.world := by
  rcases turns.others j u found with ⟨rfl, rfl⟩ | ⟨-, old⟩
  · rcases turns.step.owns_origin owns with was | ⟨n, claim, owner, lock, -, rfl, -⟩
    · exact ⟨t, turns.before, was, turns.step.me.symm⟩
    · exact absurd known (not_known_size s.world)
  · exact ⟨u, old, owns, (turns.step.keeps.taskOf _).symm⟩

section

variable (queued : s.Queued) (noted : s.Each fun _ t => t.Noted) (turns : Turns s s' i t t')

include queued noted turns

theorem out_turns (out : s.Out q) : s'.Out q := by
  refine ⟨turns.step.evolves.knows out.known, ?_, ?_⟩
  · intro n o held
    rcases turns.step.queue_origin (noted i t turns.before) held with old |
      ⟨x, seen, waiting, rfl, rfl, -, made, same, -⟩
    · exact out.slot n o old
    · rw [out.lock i t x seen turns.before waiting rfl made] at same
      cases same
  · intro j u x seen found waiting is made
    have kept : ∀ (j : ThreadId) u, s.threads[j]? = some u → u.control.waiting? = some x →
        (s'.world.slot x.thunk).unchanged seen = false := fun j u old waiting => by
      have full : seen.cell ≠ none := by simp [(noted j u old).lock waiting made]
      exact Slot.Later.gone (queued.locks j u x seen old waiting made)
        (turns.step.evolves.slot x.thunk) full (out.lock j u x seen old waiting is made)
    rcases turns.others j u found with ⟨rfl, rfl⟩ | ⟨-, old⟩
    · rcases turns.step.waiting_origin waiting with old | ⟨m, claim, owner, lock, -, rfl, -⟩ |
        ⟨m, claim, r, owner, -, rfl, -⟩
      · exact kept _ t turns.before old
      · subst is
        exact absurd out.known (not_known_size s.world)
      · cases made
    · exact kept j u old waiting

theorem slots_turns (held : (s'.world.slot n).cell = some (.queue q o)) :
    ∃ Q, s'.world.queue? q = some Q ∧ Q.thunk = n ∧ Q.owner = o ∧ Q.closed = false := by
  have inside : s.world.Serves q n o ∧ ¬ s.Out q := by
    rcases turns.step.queue_origin (noted i t turns.before) held with old |
      ⟨x, seen, waiting, rfl, rfl, rfl, made, same, -⟩
    · obtain ⟨Q, found, thunk, owner, -⟩ := queued.slots n q o old
      exact ⟨⟨Q, found, thunk, owner⟩, fun out => out.slot n o old⟩
    · refine ⟨queued.waits i t x turns.before waiting, ?_⟩
      intro out
      rw [out.lock i t x seen turns.before waiting rfl made] at same
      cases same
  obtain ⟨Q, found, thunk, owner⟩ := turns.step.evolves.serves inside.1
  refine ⟨Q, found, thunk, owner, ?_⟩
  by_contra closed
  rcases turns.step.closed_origin found (by simpa using closed) with ⟨R, there, was⟩ | dooms
  · exact inside.2 (queued.closed q R there was)
  · exact inside.2 (queued.doomed i t q turns.before dooms)

theorem apart_turns {j : ThreadId} {u : Thread} (found : s'.threads[j]? = some u)
    (owns : u.Owns q) : (s'.world.slot n).cell ≠ some (.queue q o) := by
  intro held
  rcases turns.step.queue_origin (noted i t turns.before) held with old |
    ⟨x, seen, waiting, rfl, rfl, rfl, made, -, -, gone⟩
  · obtain ⟨Q, there, -⟩ := queued.slots n q o old
    obtain ⟨v, was, owned, -⟩ := owner_turns turns (by simp [there]) found owns
    exact queued.apart j v q was owned n o old
  · have own : t.Owns x.queue := .inl ⟨x, waiting, rfl, by simp [made]⟩
    obtain ⟨v, was, owned, -⟩ := owner_turns turns
      (queued.waits i t x turns.before waiting).known found owns
    have same := queued.alone j i v t x.queue was turns.before owned own
    subst same
    rw [turns.after] at found
    cases found
    exact gone owns

omit noted in
theorem alone_turns {j k : ThreadId} {u v : Thread} (found : s'.threads[j]? = some u)
    (found' : s'.threads[k]? = some v) (owns : u.Owns q) (owns' : v.Owns q) : j = k := by
  rcases turns.others j u found with ⟨rfl, rfl⟩ | ⟨-, old⟩ <;>
    rcases turns.others k v found' with ⟨rfl, rfl⟩ | ⟨-, old'⟩
  · rfl
  · rcases turns.step.owns_origin owns with was | ⟨m, claim, owner, lock, -, rfl, -⟩
    · exact queued.alone _ k t v q turns.before old' was owns'
    · exact absurd (queued.known_of_owns old' owns') (not_known_size s.world)
  · rcases turns.step.owns_origin owns' with was | ⟨m, claim, owner, lock, -, rfl, -⟩
    · exact queued.alone j _ u t q old turns.before owns was
    · exact absurd (queued.known_of_owns old owns) (not_known_size s.world)
  · exact queued.alone j k u v q old old' owns owns'

omit noted in
theorem waits_turns {j : ThreadId} {u : Thread} {x : Waiting} (found : s'.threads[j]? = some u)
    (waiting : u.control.waiting? = some x) : s'.world.Serves x.queue x.thunk x.owner := by
  have evolves := turns.step.evolves
  rcases turns.others j u found with ⟨rfl, rfl⟩ | ⟨-, old⟩
  · rcases turns.step.waiting_origin waiting with old | ⟨m, claim, owner, lock, -, rfl, -, is⟩ |
      ⟨m, claim, r, owner, at', rfl, -, pushed⟩
    · exact evolves.serves (queued.waits _ t x turns.before old)
    · rw [is]
      exact ⟨_, by rw [World.queue?_addQueue, if_pos rfl], rfl, rfl⟩
    · exact evolves.serves (queued.joins _ t m claim r owner turns.before at').1
  · exact evolves.serves (queued.waits j u x old waiting)

omit noted in
theorem joins_turns {j : ThreadId} {u : Thread} {claim : Bool} (found : s'.threads[j]? = some u)
    (at' : u.control = .join n claim q o) :
    s'.world.Serves q n o ∧ ∀ (k : ThreadId) v, s'.threads[k]? = some v → ¬ v.Owns q := by
  have evolves := turns.step.evolves
  have old : s.world.Serves q n o → (∀ (k : ThreadId) v, s.threads[k]? = some v → ¬ v.Owns q) →
      s'.world.Serves q n o ∧ ∀ (k : ThreadId) v, s'.threads[k]? = some v → ¬ v.Owns q := by
    intro serves free
    refine ⟨evolves.serves serves, ?_⟩
    intro k v there owns
    obtain ⟨x, was, owned, -⟩ := owner_turns turns serves.known there owns
    exact free k x was owned
  rcases turns.others j u found with ⟨rfl, rfl⟩ | ⟨-, was⟩
  · rcases turns.step.join_origin at' with was | ⟨held, -⟩
    · have joins := queued.joins _ t n claim q o turns.before was
      exact old joins.1 joins.2
    · obtain ⟨Q, there, thunk, owner, -⟩ := queued.slots n q o held
      exact old ⟨Q, there, thunk, owner⟩ fun k v known owns => queued.apart k v q known owns n o held
  · have joins := queued.joins j u n claim q o was at'
    exact old joins.1 joins.2

omit noted in
theorem locks_turns {j : ThreadId} {u : Thread} {x : Waiting} {seen : Slot}
    (found : s'.threads[j]? = some u) (waiting : u.control.waiting? = some x)
    (made : x.lock = some seen) : seen.Later (s'.world.slot x.thunk) := by
  have later := fun m => turns.step.evolves.slot m
  rcases turns.others j u found with ⟨rfl, rfl⟩ | ⟨-, old⟩
  · rcases turns.step.waiting_origin waiting with old | ⟨m, claim, owner, lock, at', rfl, -⟩ |
      ⟨m, claim, r, owner, -, rfl, -⟩
    · exact (queued.locks _ t x seen turns.before old made).trans (later _)
    · cases made
      exact (queued.gathers _ t m claim owner seen turns.before at').trans (later _)
    · cases made
  · exact (queued.locks j u x seen old waiting made).trans (later _)

omit noted in
theorem gathers_turns {j : ThreadId} {u : Thread} {claim : Bool} {seen : Slot}
    (found : s'.threads[j]? = some u) (at' : u.control = .gather n claim o seen) :
    seen.Later (s'.world.slot n) := by
  have later := turns.step.evolves.slot n
  rcases turns.others j u found with ⟨rfl, rfl⟩ | ⟨-, old⟩
  · rcases turns.step.gather_origin at' with old | is
    · exact (queued.gathers _ t n claim o seen turns.before old).trans later
    · rw [is]
      exact Slot.Later.refl _
  · exact (queued.gathers j u n claim o seen old at').trans later

omit noted in
theorem privately_turns {j : ThreadId} {u : Thread} {Q : Queue} {m : Message}
    (found : s'.threads[j]? = some u) (owns : u.Owns q) (there : s'.world.queue? q = some Q)
    (known : m ∈ Q.messages) : m.task = u.me s'.world := by
  rcases turns.step.message_origin there known with ⟨R, was, old⟩ | ⟨sender, joins | fresh⟩
  · obtain ⟨v, before, owned, same⟩ := owner_turns turns (by simp [was]) found owns
    rw [← same]
    exact queued.privately j v q R before owned was m old
  · obtain ⟨k, claim, owner, at'⟩ := joins
    have free := queued.joins i t k claim q owner turns.before at'
    obtain ⟨v, before, owned, -⟩ := owner_turns turns free.1.known found owns
    exact absurd owned (free.2 j v before)
  · rcases turns.others j u found with ⟨rfl, rfl⟩ | ⟨-, old⟩
    · rw [sender, turns.step.me]
    · subst fresh
      exact absurd (queued.known_of_owns old owns) (not_known_size s.world)

theorem closed_turns {Q : Queue} (there : s'.world.queue? q = some Q) (closed : Q.closed = true) :
    s'.Out q := by
  refine out_turns queued noted turns ?_
  rcases turns.step.closed_origin there closed with ⟨R, was, closed⟩ | dooms
  · exact queued.closed q R was closed
  · exact queued.doomed i t q turns.before dooms

omit turns in
theorem out_of_resolved (known : (s.world.queue? q).isSome) (resolved : s.world.isResolved q = true) :
    s.Out q := by
  obtain ⟨Q, found⟩ := Option.isSome_iff_exists.1 known
  rw [World.isResolved_of_queue? found] at resolved
  have free : ∀ seen : Slot, (s.world.slot Q.thunk).cell = seen.cell → (∃ u, seen.cell = some
      (.locked u)) ∨ (∃ r u, seen.cell = some (.queue r u)) → False := by
    intro seen cell full
    obtain ⟨v, value⟩ := Option.isSome_iff_exists.1 resolved
    cases th : s.world.thunk? Q.thunk with
    | none =>
      rw [World.slot_of_none th] at cell
      rcases full with ⟨u, is⟩ | ⟨r, u, is⟩ <;> simp [is] at cell
    | some x =>
      have held : (s.world.slot Q.thunk).cell = some (.value v) := by
        rw [World.slot_of_thunk th, ← Slot.value?_eq_some]
        simpa [World.evaluated?, World.thunk?_eq_some.1 th] using value
      rw [held] at cell
      rcases full with ⟨u, is⟩ | ⟨r, u, is⟩ <;> simp [is] at cell
  refine ⟨known, ?_, ?_⟩
  · intro n o held
    obtain ⟨R, there, rfl, -⟩ := queued.slots n q o held
    rw [found] at there
    cases there
    exact free _ rfl (.inr ⟨q, o, held⟩)
  · intro j u x seen there waiting is made
    by_contra same
    have unchanged : (s.world.slot x.thunk).unchanged seen = true := by simpa using same
    obtain ⟨R, serves, thunk, -⟩ := queued.waits j u x there waiting
    rw [is, found] at serves
    cases serves
    exact free seen (thunk ▸ Slot.cell_of_unchanged unchanged)
      (.inl ⟨_, (noted j u there).lock waiting made⟩)

omit noted in
theorem out_of_displaced (held : (s.world.slot n).cell = some (.queue q o))
    (gone : ∀ o, (s'.world.slot n).cell ≠ some (.queue q o))
    (other : ∀ m, m ≠ n → s'.world.slot m = s.world.slot m) : s'.Out q := by
  obtain ⟨Q, there, thunk, -⟩ := queued.slots n q o held
  have known : (s.world.queue? q).isSome := by simp [there]
  refine ⟨turns.step.evolves.knows known, ?_, ?_⟩
  · intro m u held'
    by_cases same : m = n
    · subst same
      exact gone u held'
    · rw [other m same] at held'
      obtain ⟨R, there', thunk', -⟩ := queued.slots m q u held'
      rw [there] at there'
      cases there'
      exact same (thunk'.symm.trans thunk)
  · intro j u x seen found waiting is made
    have owns : u.Owns q := .inl ⟨x, waiting, is, by simp [made]⟩
    obtain ⟨v, was, owned, -⟩ := owner_turns turns known found owns
    exact absurd held (queued.apart j v q was owned n o)

omit noted turns in
theorem out_of_missed {x : Waiting} {seen : Slot} (found : s.threads[i]? = some t)
    (waiting : t.control.waiting? = some x) (made : x.lock = some seen)
    (changed : (s.world.slot x.thunk).unchanged seen = false) : s.Out x.queue := by
  have own : t.Owns x.queue := .inl ⟨x, waiting, rfl, by simp [made]⟩
  refine ⟨(queued.waits i t x found waiting).known, queued.apart i t x.queue found own, ?_⟩
  intro j u y seen' found' waiting' is made'
  have owns : u.Owns x.queue := .inl ⟨y, waiting', is, by simp [made']⟩
  have same := queued.alone j i u t x.queue found' found owns own
  subst same
  rw [found] at found'
  cases found'
  rw [waiting] at waiting'
  cases waiting'
  rw [made] at made'
  cases made'
  exact changed

theorem doomed_turns {j : ThreadId} {u : Thread} (found : s'.threads[j]? = some u)
    (dooms : u.Dooms q) : s'.Out q := by
  have stays := fun out => out_turns queued noted turns (q := q) out
  rcases turns.others j u found with ⟨rfl, rfl⟩ | ⟨-, old⟩
  · rcases turns.step.dooms_origin dooms with was | doomed
    · exact stays (queued.doomed _ t q turns.before was)
    · cases doomed with
      | displaced held gone other => exact out_of_displaced queued turns held gone other
      | closed known todo same closed =>
        have there := queued.looks _ t q turns.before ⟨_, known, todo⟩
        obtain ⟨Q, is⟩ := Option.isSome_iff_exists.1 there
        exact stays (queued.closed q Q is ((World.isClosed_of_queue? is).symm.trans closed))
      | resolved known todo same resolved =>
        have there := queued.looks _ t q turns.before ⟨_, known, todo⟩
        exact stays (out_of_resolved queued noted there resolved)
      | missed waiting is made same changed =>
        subst is
        exact stays (out_of_missed queued turns.before waiting made changed)
  · exact stays (queued.doomed j u q old dooms)

omit noted in
theorem lists_turns (lists : s'.world.Lists q) : (s'.world.queue? q).isSome := by
  refine turns.step.evolves.knows ?_
  rcases turns.step.lists_origin lists with old | ⟨x, waiting, rfl⟩
  · exact queued.lists q old
  · exact (queued.waits i t x turns.before waiting).known

omit noted in
theorem looks_turns {j : ThreadId} {u : Thread} (found : s'.threads[j]? = some u)
    (looks : u.Looks q) : (s'.world.queue? q).isSome := by
  refine turns.step.evolves.knows ?_
  rcases turns.others j u found with ⟨rfl, rfl⟩ | ⟨-, old⟩
  · rcases turns.step.looks_origin looks with was | lists
    · exact queued.looks _ t q turns.before was
    · exact queued.lists q lists
  · exact queued.looks j u q old looks

theorem queued_turns : s'.Queued where
  slots _ _ _ held := slots_turns queued noted turns held
  apart _ _ _ found owns _ _ := apart_turns queued noted turns found owns
  alone _ _ _ _ _ found found' owns owns' := alone_turns queued turns found found' owns owns'
  waits _ _ _ found waiting := waits_turns queued turns found waiting
  joins _ _ _ _ _ _ found at' := joins_turns queued turns found at'
  locks _ _ _ _ found waiting made := locks_turns queued turns found waiting made
  gathers _ _ _ _ _ _ found at' := gathers_turns queued turns found at'
  privately _ _ _ _ found owns there _ known := privately_turns queued turns found owns there known
  closed _ _ there closed := closed_turns queued noted turns there closed
  doomed _ _ _ found dooms := doomed_turns queued noted turns found dooms
  lists _ lists := lists_turns queued turns lists
  looks _ _ _ found looks := looks_turns queued turns found looks

end

/-! ## Runs -/

theorem Thread.Fresh.waiting? (fresh : t.Fresh) : t.control.waiting? = none := by
  obtain ⟨-, -, c, env, is⟩ := fresh
  rw [is]
  rfl

theorem Thread.Fresh.not_owns (fresh : t.Fresh) : ¬ t.Owns q := by
  rintro (⟨x, waiting, -⟩ | known)
  · rw [fresh.waiting?] at waiting
    cases waiting
  · rw [fresh.1] at known
    cases known

theorem Thread.Fresh.not_dooms (fresh : t.Fresh) : ¬ t.Dooms q := by
  rintro ⟨a, known, -⟩
  rw [fresh.1] at known
  cases known

theorem Thread.Fresh.not_looks (fresh : t.Fresh) : ¬ t.Looks q := by
  rintro ⟨a, known, -⟩
  rw [fresh.1] at known
  cases known

theorem State.Out.rests (rests : Rests s s') (out : s.Out q) : s'.Out q := by
  obtain ⟨still, -, others⟩ := rests
  refine ⟨(still.queue q).symm ▸ out.known, fun n o held => out.slot n o (still.slot n ▸ held), ?_⟩
  intro j u x seen found waiting is made
  rcases others j u found with old | fresh
  · rw [still.slot]
    exact out.lock j u x seen old waiting is made
  · rw [fresh.waiting?] at waiting
    cases waiting

theorem queued_rests (queued : s.Queued) (rests : Rests s s')
    (me : ∀ (j : ThreadId) u, s.threads[j]? = some u → u.me s'.world = u.me s.world) :
    s'.Queued := by
  have out := fun q => State.Out.rests (q := q) rests
  obtain ⟨still, -, others⟩ := rests
  have evolves := still.evolves
  have owner : ∀ (j : ThreadId) u q, s'.threads[j]? = some u → u.Owns q → s.threads[j]? = some u :=
    fun j u q found owns => (others j u found).resolve_right fun fresh => fresh.not_owns owns
  have waiter : ∀ (j : ThreadId) u, s'.threads[j]? = some u → (∀ c env, u.control ≠ .run c env) →
      s.threads[j]? = some u := fun j u found other =>
    (others j u found).resolve_right fun fresh => fresh.2.2.elim fun c ⟨env, is⟩ => other c env is
  have waits : ∀ {u : Thread} {x : Waiting}, u.control.waiting? = some x →
      ∀ c env, u.control ≠ .run c env := fun waiting c env is => by
    simp [is, Control.waiting?] at waiting
  constructor
  · intro n q o held
    rw [still.slot] at held
    simpa only [still.queue] using queued.slots n q o held
  · intro j u q found owns n o held
    rw [still.slot] at held
    exact queued.apart j u q (owner j u q found owns) owns n o held
  · intro j k u v q found found' owns owns'
    exact queued.alone j k u v q (owner j u q found owns) (owner k v q found' owns') owns owns'
  · intro j u x found waiting
    exact evolves.serves (queued.waits j u x (waiter j u found (waits waiting)) waiting)
  · intro j u n claim q o found at'
    obtain ⟨serves, free⟩ := queued.joins j u n claim q o (waiter j u found (by simp [at'])) at'
    exact ⟨evolves.serves serves, fun k v there owns => free k v (owner k v q there owns) owns⟩
  · intro j u x seen found waiting made
    rw [still.slot]
    exact queued.locks j u x seen (waiter j u found (waits waiting)) waiting made
  · intro j u n claim o seen found at'
    rw [still.slot]
    exact queued.gathers j u n claim o seen (waiter j u found (by simp [at'])) at'
  · intro j u q Q found owns there m known
    rw [still.queue] at there
    have old := owner j u q found owns
    rw [me j u old]
    exact queued.privately j u q Q old owns there m known
  · intro q Q there closed
    rw [still.queue] at there
    exact out q (queued.closed q Q there closed)
  · intro j u q found dooms
    rcases others j u found with old | fresh
    · exact out q (queued.doomed j u q old dooms)
    · exact absurd dooms fresh.not_dooms
  · intro q lists
    rw [still.queue]
    exact queued.lists q (still.lists q lists)
  · intro j u q found looks
    rw [still.queue]
    rcases others j u found with old | fresh
    · exact queued.looks j u q old looks
    · exact absurd looks fresh.not_looks

theorem Change.queued {m : Move} (change : Change s m s') (seats : s.Seats)
    (noted : s.Each fun _ t => t.Noted) (queued : s.Queued) : s'.Queued := by
  rcases change.split with rests | ⟨i, t, t', turns, -⟩
  · exact queued_rests queued rests fun j u found => change.me seats found
  · exact queued_turns queued noted turns

theorem Run.queued (run : Run) (k : Nat) : (run.state k).Queued := by
  refine run.always ?_ (fun k => (run.change k).queued (run.seats k) (run.noted k)) k
  constructor <;> intros <;>
    simp_all [World.slot, World.thunk?, World.node?, World.queue?, World.Lists]

end LazyGraph

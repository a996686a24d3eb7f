import LazyGraph.Proofs.Fatal
import Mathlib.Data.List.Forall2

/-!
# What a registry holds

A registry holds the constants that were built in it while it kept them, since it was last emptied:
each is recorded once, when the thread that built it gets hold of the lock.
-/

namespace LazyGraph

/-! ## Registries by name -/

namespace Table

variable {α : Type}

theorem find?_filter (table : Table α) (p : String → Bool) (x : String) :
    Table.find? (table.filter fun entry => p entry.1) x = if p x then table.find? x else none := by
  induction table with
  | nil => simp [find?]
  | cons entry table ih =>
    obtain ⟨y, a⟩ := entry
    simp only [find?] at ih ⊢
    by_cases same : x = y
    · subst same
      by_cases holds : p x <;> simp [holds, ih]
    · have other : (x == y) = false := by simpa using same
      by_cases holds : p y <;> simp [holds, List.lookup_cons, ih, other]

theorem find?_insert (table : Table α) (x y : String) (a : α) :
    (table.insert x a).find? y = if y = x then some a else table.find? y := by
  have low := table.find?_filter (fun z => decide (z < x)) y
  have high := table.find?_filter (fun z => decide (x < z)) y
  simp only [find?, decide_eq_true_eq] at low high
  simp only [find?, insert, List.lookup_append, List.lookup_cons, low, high]
  by_cases same : y = x
  · subst same
    simp
  · have apart : (y == x) = false := by simpa using same
    rcases Std.lt_trichotomy y x with lt | is | gt
    · simp [lt, apart, same, String.lt_asymm lt]
    · exact absurd is same
    · simp [gt, apart, same, String.lt_asymm gt]

end Table

variable {w w' : World} {t t' : Thread} {n : NodeId} {r : String}

theorem World.registry_setRegistry (r r' : String) (x : Registry) :
    (w.setRegistry r x).registry r' = if r' = r then x else w.registry r' := by
  simp only [World.registry, World.setRegistry, Table.find?_insert]
  split <;> rfl

theorem World.registry_congr (same : w'.registries = w.registries) (r : String) :
    w'.registry r = w.registry r := by
  rw [registry, registry, same]

namespace Run

/-! ## Events -/

variable (run : Run)

/-- In move `c` thread `i` builds constant `n` in registry `r`, whose keep flag is `kept`. -/
structure Builds (i : ThreadId) (r : String) (n : NodeId) (kept : Bool) (c : Nat) : Prop where
  turn : run.move c = .step i
  code : ∃ t body env, (run.state c).threads[i]? = some t ∧ t.agenda = [] ∧
    t.control = .run (.constant r body) env
  new : (run.state c).world.heap.size = n
  mode : ((run.state c).world.registry r).keep = kept

/-- At time `k` thread `i` is to record constant `n` in registry `r`, once it gets the lock. -/
def Due (i : ThreadId) (r : String) (n : NodeId) (k : Nat) : Prop :=
  ∃ t, (run.state k).threads[i]? = some t ∧ t.agenda = [] ∧ t.control = .register r n

/-- In move `d` thread `i` records constant `n` in registry `r`. -/
structure Records (i : ThreadId) (r : String) (n : NodeId) (d : Nat) : Prop where
  turn : run.move d = .step i
  due : run.Due i r n d
  free : ((run.state d).world.registry r).busy = false

/-- In move `e` thread `i` locks registry `r` to revert what it holds. -/
structure Locks (i : ThreadId) (r : String) (e : Nat) : Prop where
  turn : run.move e = .step i
  at' : ∃ t, (run.state e).threads[i]? = some t ∧ t.agenda = [] ∧ t.control = .revert r
  free : ((run.state e).world.registry r).busy = false

/-- In move `e` thread `i` empties registry `r` and unlocks it. -/
structure Empties (i : ThreadId) (r : String) (e : Nat) : Prop where
  turn : run.move e = .step i
  next : ∃ t as, (run.state e).threads[i]? = some t ∧ t.agenda = .release r :: as

/-- What a move does to the content and the lock of a registry. -/
inductive Keeping (r : String) (k : Nat) : Prop
  | stays
    (constants : ((run.state (k + 1)).world.registry r).constants =
      ((run.state k).world.registry r).constants)
    (busy : ((run.state (k + 1)).world.registry r).busy = ((run.state k).world.registry r).busy)
    (records : ∀ i n, ¬ run.Records i r n k) (locks : ∀ i, ¬ run.Locks i r k)
    (empties : ∀ i, ¬ run.Empties i r k)
  | records {i n} (records : run.Records i r n k)
    (after : (run.state (k + 1)).world.registry r = ((run.state k).world.registry r).record n)
    (empties : ∀ i, ¬ run.Empties i r k)
  | locks {i} (locks : run.Locks i r k)
    (after : (run.state (k + 1)).world.registry r = ((run.state k).world.registry r).lock)
    (records : ∀ i n, ¬ run.Records i r n k) (empties : ∀ i, ¬ run.Empties i r k)
  | empties {i} (empties : run.Empties i r k)
    (after : (run.state (k + 1)).world.registry r = ((run.state k).world.registry r).release)
    (records : ∀ i n, ¬ run.Records i r n k)

variable {run} {i : ThreadId} {k : Nat}

theorem Records.after (records : run.Records i r n k) :
    (run.state (k + 1)).world.registry r = ((run.state k).world.registry r).record n ∧
      ∃ t es, (run.state k).threads[i]? = some t ∧
        (run.state (k + 1)).threads[i]? = some { t with agenda := [.emit es], control := .give n } := by
  obtain ⟨t, found, idle, at'⟩ := records.due
  obtain ⟨world, after⟩ := own_step records.turn found
  have turn : t.step (run.state k).world = t.register (run.state k).world r n := by
    rw [Thread.step, idle, Thread.proceed, at']
  rw [turn] at world after
  simp only [Thread.register, records.free, Bool.false_eq_true, if_false] at world after
  rw [world, World.registry_setRegistry, if_pos rfl]
  refine ⟨rfl, t, .registered r n (((run.state k).world.registry r).record n).constants.length,
    found, ?_⟩
  rw [after, Thread.plan, idle]
  rfl

theorem Locks.after (locks : run.Locks i r k) :
    ∃ t v, (run.state k).threads[i]? = some t ∧
      v = (run.state k).world.heap.size ∧
      (run.state (k + 1)).world =
        (((run.state k).world.setRegistry r ((run.state k).world.registry r).lock).alloc
          (.value (.scalar (.long (.ofNat
            ((run.state k).world.registry r).constants.length))))).1 ∧
      (run.state (k + 1)).threads[i]? = some { t with
        agenda := (((run.state k).world.registry r).constants.filter
            fun n => ((run.state k).world.thunk? n).isSome).map (.overwrite · none) ++
          [.release r, .emit (.reverted r ((run.state k).world.registry r).constants.length)]
        control := .give v } := by
  obtain ⟨t, found, idle, at'⟩ := locks.at'
  obtain ⟨world, after⟩ := own_step locks.turn found
  have turn : t.step (run.state k).world = t.revert (run.state k).world r := by
    rw [Thread.step, idle, Thread.proceed, at']
  rw [turn] at world after
  simp only [Thread.revert, locks.free, Bool.false_eq_true, if_false] at world after
  refine ⟨t, _, found, rfl, world, ?_⟩
  rw [after, Thread.plan, idle, List.append_nil]
  rfl

theorem Locks.registry (locks : run.Locks i r k) :
    (run.state (k + 1)).world.registry r = ((run.state k).world.registry r).lock := by
  obtain ⟨t, v, -, -, world, -⟩ := locks.after
  have written : ((run.state k).world.setRegistry r ((run.state k).world.registry r).lock).registry r
      = ((run.state k).world.registry r).lock := by
    rw [World.registry_setRegistry, if_pos rfl]
  exact world ▸ (World.registry_congr rfl r).trans written

theorem Empties.after (empties : run.Empties i r k) :
    (run.state (k + 1)).world =
      (run.state k).world.setRegistry r ((run.state k).world.registry r).release := by
  obtain ⟨t, as, found, next⟩ := empties.next
  obtain ⟨world, -⟩ := own_step empties.turn found
  rw [world, Thread.step, next]
  rfl

theorem Empties.registry (empties : run.Empties i r k) :
    (run.state (k + 1)).world.registry r = ((run.state k).world.registry r).release := by
  rw [empties.after, World.registry_setRegistry, if_pos rfl]

/-- Whoever empties a registry is on an errand. -/
theorem Empties.not_idle (empties : run.Empties i r k) {j : ThreadId} {t : Thread}
    (turn : run.move k = .step j) (found : (run.state k).threads[j]? = some t) : t.agenda ≠ [] := by
  obtain ⟨u, as, there, next⟩ := empties.next
  obtain rfl : i = j := by
    have same := empties.turn
    rw [turn] at same
    cases same
    rfl
  rw [found] at there
  cases there
  simp [next]

theorem Records.not_empties (records : run.Records i r n k) (j : ThreadId) :
    ¬ run.Empties j r k := fun empties => by
  obtain ⟨t, found, idle, -⟩ := records.due
  exact empties.not_idle records.turn found idle

theorem Locks.not_empties (locks : run.Locks i r k) (j : ThreadId) : ¬ run.Empties j r k :=
  fun empties => by
    obtain ⟨t, found, idle, -⟩ := locks.at'
    exact empties.not_idle locks.turn found idle

/-- A move that is none of these leaves the registry alone, but for its flags. -/
theorem keeping (run : Run) (r : String) (k : Nat) : run.Keeping r k := by
  by_cases records : ∃ i n, run.Records i r n k
  · obtain ⟨i, n, records⟩ := records
    exact .records records records.after.1 records.not_empties
  have records := fun i n is => records ⟨i, n, is⟩
  by_cases locks : ∃ i, run.Locks i r k
  · obtain ⟨i, locks⟩ := locks
    exact .locks locks locks.registry records locks.not_empties
  by_cases empties : ∃ i, run.Empties i r k
  · obtain ⟨i, empties⟩ := empties
    exact .empties empties empties.registry records
  have locks := fun i is => locks ⟨i, is⟩
  have empties := fun i is => empties ⟨i, is⟩
  have same : (run.state (k + 1)).world.registry r = (run.state k).world.registry r →
      run.Keeping r k := fun same =>
    .stays (by rw [same]) (by rw [same]) records locks empties
  have flags : ∀ r' x, x.constants = ((run.state k).world.registry r').constants →
      x.busy = ((run.state k).world.registry r').busy →
      (run.state (k + 1)).world = (run.state k).world.setRegistry r' x → run.Keeping r k := by
    intro r' x constants busy is
    refine .stays ?_ ?_ records locks empties
    all_goals
      rw [is, World.registry_setRegistry]
      split
      · rename_i here
        rw [here]
        assumption
      · rfl
  cases move : run.move k with
  | step i =>
    cases found : (run.state k).threads[i]? with
    | none =>
      refine same ?_
      rw [state_succ, move, State.after, State.step, found]
    | some t =>
      have world := (own_step move found).1
      generalize is : (t.step (run.state k).world).1 = w' at world
      cases is ▸ growth_step (run.state k).world t with
      | grows grows => exact same (by rw [world]; exact World.registry_congr grows.registries r)
      | project _ _ _ enlarges =>
        exact same (by rw [world]; exact World.registry_congr enlarges.registries r)
      | clear =>
        refine same ?_
        rw [world]
        exact World.registry_congr (by unfold World.release; split <;> rfl) r
      | @release r' as next =>
        have other : r ≠ r' := fun here => empties i ⟨move, t, as, found, here ▸ next⟩
        exact same (by rw [world, World.registry_setRegistry, if_neg other])
      | @register r' n idle at' free =>
        have other : r ≠ r' := fun here =>
          records i n ⟨move, ⟨t, found, idle, here ▸ at'⟩, here ▸ free⟩
        exact same (by rw [world, World.registry_setRegistry, if_neg other])
      | @revert w' r' idle at' grows free =>
        have other : r ≠ r' := fun here => locks i ⟨move, ⟨t, found, idle, here ▸ at'⟩, here ▸ free⟩
        refine same ?_
        rw [world, World.registry_congr grows.registries, World.registry_setRegistry,
          if_neg other]
  | keep r' on =>
    exact flags r' { (run.state k).world.registry r' with keep := on } rfl rfl
      (by rw [state_succ, move]; rfl)
  | configure r' config =>
    exact flags r' { (run.state k).world.registry r' with
      keep := config.keepConstants, verbose := config.debug.gccafs } rfl rfl
      (by rw [state_succ, move]; rfl)
  | poolStarted count | jobPanicked c =>
    refine same (World.registry_congr ?_ r)
    rw [state_succ, move]
    exact (World.grows_emit _ _).registries
  | _ =>
    refine same (World.registry_congr ?_ r)
    rw [state_succ, move]
    rfl

/-! ## Building -/

variable {j : ThreadId} {c d : Nat} {kept : Bool} {r' : String}

theorem Builds.after (builds : run.Builds i r n kept c) :
    ∃ t s, (run.state c).threads[i]? = some t ∧ t.agenda = [] ∧
      (run.state (c + 1)).world = ((run.state c).world.alloc (.thunk ⟨.constant s, {}⟩)).1 ∧
      (run.state (c + 1)).threads[i]? =
        some (t.goto (if kept then .register r n else .give n)) := by
  obtain ⟨t, body, env, found, idle, at'⟩ := builds.code
  obtain ⟨world, after⟩ := own_step builds.turn found
  have turn : t.step (run.state c).world = t.run (run.state c).world (.constant r body) env := by
    rw [Thread.step, idle, Thread.proceed, at']
  rw [turn] at world after
  refine ⟨t, (body, env), found, idle, world, ?_⟩
  rw [after, ← builds.mode, ← builds.new]
  rfl

theorem Builds.constant (builds : run.Builds i r n kept c) :
    ∃ s, (run.state (c + 1)).world.suspension? n = some (.constant s) := by
  obtain ⟨t, s, -, -, world, -⟩ := builds.after
  refine ⟨s, World.suspension?_eq_some.2 ⟨⟨.constant s, {}⟩, ?_, rfl⟩⟩
  rw [world, World.thunk?_eq_some, World.node?_alloc, if_pos builds.new.symm]

/-- A node is built once. -/
theorem Builds.once {kept' : Bool} (builds : run.Builds i r n kept c)
    (other : run.Builds j r' n kept' d) : c = d ∧ i = j ∧ r = r' ∧ kept = kept' := by
  have before : ∀ {i j : ThreadId} {r r' : String} {kept kept' : Bool} {c d : Nat},
      run.Builds i r n kept c → run.Builds j r' n kept' d → ¬ c < d := by
    intro i j r r' kept kept' c d first second lt
    obtain ⟨s, found⟩ := first.constant
    have has : (run.state (c + 1)).world.Has n :=
      World.has_iff.2 (by
        obtain ⟨th, there, -⟩ := World.suspension?_eq_some.1 found
        simp [World.thunk?_eq_some.1 there])
    have still : (run.state d).world.Has n := (run.evolves lt).has has
    exact absurd second.new (Nat.ne_of_gt still)
  obtain rfl : c = d :=
    Nat.le_antisymm (Nat.not_lt.1 (before other builds)) (Nat.not_lt.1 (before builds other))
  obtain rfl : i = j := by
    have same := builds.turn
    rw [other.turn] at same
    cases same
    rfl
  obtain ⟨t, body, env, found, -, at'⟩ := builds.code
  obtain ⟨u, body', env', found', -, is⟩ := other.code
  rw [found] at found'
  cases found'
  rw [at'] at is
  cases is
  exact ⟨rfl, rfl, rfl, builds.mode.symm.trans other.mode⟩

/-- Whoever is to record a constant has built it while the registry kept constants, and has waited
for the lock since. -/
theorem due_origin {t : Thread} {k : Nat} (found : (run.state k).threads[i]? = some t)
    (at' : t.control = .register r n) :
    ∃ c < k, run.Builds i r n true c ∧ ∀ e, c < e → e ≤ k → run.Due i r n e := by
  obtain ⟨c, lt, turn, ⟨u, before, idle, -, alarms⟩, still⟩ :=
    run.alarmed found (by rw [at']; rfl)
  rw [at'] at alarms still
  cases alarms with
  | @constant _ body env code keep =>
    have builds : run.Builds i r (run.state c).world.heap.size true c :=
      ⟨turn, ⟨u, body, env, before, idle, code⟩, rfl, keep⟩
    refine ⟨c, lt, builds, fun e low high => ?_⟩
    induction low with
    | refl =>
      obtain ⟨v, s, there, idle, -, after⟩ := builds.after
      exact ⟨_, after, idle, rfl⟩
    | @step e low ih =>
      obtain ⟨v, there, idle, is⟩ := ih (Nat.le_of_succ_le high)
      obtain ⟨v', there', is'⟩ := still (e + 1) (Nat.lt_succ_of_lt low) high
      by_cases own : run.move e = .step i
      · obtain ⟨-, after⟩ := run.own_step own there
        rw [there', Option.some.injEq] at after
        subst after
        refine ⟨_, there', ?_, is'⟩
        simp only [Thread.step, idle, Thread.proceed, is, Thread.register] at is' ⊢
        split at is'
        · rename_i busy
          rw [if_pos busy]
          exact idle
        · cases is'
      · rcases run.not_own_step own there with stays | ⟨g, as, next, -⟩
        · exact ⟨v, stays, idle, is⟩
        · rw [idle] at next
          cases next

theorem Records.built (records : run.Records i r n d) :
    ∃ c < d, run.Builds i r n true c ∧ ∀ e, c < e → e ≤ d → run.Due i r n e := by
  obtain ⟨t, found, -, at'⟩ := records.due
  exact due_origin found at'

/-- A constant is recorded once, in one registry. -/
theorem Records.once (records : run.Records i r n c) (other : run.Records j r' n d) : c = d := by
  obtain ⟨a, lt, builds, due⟩ := records.built
  obtain ⟨b, lt', builds', due'⟩ := other.built
  obtain ⟨rfl, rfl, rfl, -⟩ := builds.once builds'
  have before : ∀ {c d : Nat}, run.Records i r n c → a < c → (∀ e, a < e → e ≤ d → run.Due i r n e) →
      ¬ c < d := by
    intro c d first low due lt
    obtain ⟨-, t, es, -, after⟩ := first.after
    obtain ⟨u, found, -, at'⟩ := due (c + 1) (Nat.lt_succ_of_lt low) lt
    rw [after] at found
    cases found
    cases at'
  exact Nat.le_antisymm (Nat.not_lt.1 (before other lt' due)) (Nat.not_lt.1 (before records lt due'))

/-- Who has built a constant while the registry kept constants records it, as soon as it gets the
lock. -/
theorem Builds.recorded (builds : run.Builds i r n true c) {k : Nat} (lt : c < k) :
    run.Due i r n k ∨ ∃ d, c < d ∧ d < k ∧ run.Records i r n d := by
  induction lt with
  | refl =>
    obtain ⟨t, s, -, idle, -, after⟩ := builds.after
    exact .inl ⟨_, after, idle, rfl⟩
  | @step k lt ih =>
    rcases ih with due | ⟨d, low, high, records⟩
    · by_cases own : run.move k = .step i
      · cases free : ((run.state k).world.registry r).busy with
        | false => exact .inr ⟨k, lt, Nat.lt_succ_self k, own, due, free⟩
        | true =>
          obtain ⟨t, found, idle, at'⟩ := due
          obtain ⟨-, after⟩ := run.own_step own found
          simp only [Thread.step, idle, Thread.proceed, at', Thread.register, free, if_true] at after
          exact .inl ⟨t, after, idle, at'⟩
      · obtain ⟨t, found, idle, at'⟩ := due
        rcases run.not_own_step own found with stays | ⟨g, as, next, -⟩
        · exact .inl ⟨t, stays, idle, at'⟩
        · rw [idle] at next
          cases next
    · exact .inr ⟨d, low, Nat.lt_succ_of_lt high, records⟩

theorem Builds.never_recorded (builds : run.Builds i r n false c) : ¬ run.Records j r' n d :=
  fun records => by
    obtain ⟨b, -, builds', -⟩ := records.built
    cases (builds.once builds').2.2.2

/-! ## What a registry holds -/

variable (run) in
/-- At time `k` the registry `r` holds `ns`: these constants were recorded, one after the other, in
moves `ds`, which are all moves that recorded a constant in `r` since `r` was last emptied. -/
structure Holds (r : String) (k : Nat) (ns : List NodeId) (ds : List Nat) : Prop where
  sorted : ds.Pairwise (· < ·)
  moves : ∀ d, d ∈ ds ↔ d < k ∧ (∃ i n, run.Records i r n d) ∧
    ∀ e, d < e → e < k → ∀ i, ¬ run.Empties i r e
  records : List.Forall₂ (fun n d => ∃ i, run.Records i r n d) ns ds

theorem Holds.quiet {ns : List NodeId} {ds : List Nat} (holds : run.Holds r k ns ds)
    (records : ∀ i n, ¬ run.Records i r n k) (empties : ∀ i, ¬ run.Empties i r k) :
    run.Holds r (k + 1) ns ds where
  sorted := holds.sorted
  moves d := by
    rw [holds.moves]
    constructor
    · rintro ⟨lt, recorded, since⟩
      refine ⟨Nat.lt_succ_of_lt lt, recorded, fun e low high => ?_⟩
      rcases Nat.lt_succ_iff_lt_or_eq.1 high with high | rfl
      · exact since e low high
      · exact empties
    · rintro ⟨lt, ⟨i, n, recorded⟩, since⟩
      rcases Nat.lt_succ_iff_lt_or_eq.1 lt with lt | rfl
      · exact ⟨lt, ⟨i, n, recorded⟩, fun e low high => since e low (Nat.lt_succ_of_lt high)⟩
      · exact absurd recorded (records i n)
  records := holds.records

theorem Holds.record {ns : List NodeId} {ds : List Nat} (holds : run.Holds r k ns ds)
    (records : run.Records i r n k) (empties : ∀ i, ¬ run.Empties i r k) :
    run.Holds r (k + 1) (ns ++ [n]) (ds ++ [k]) where
  sorted := List.pairwise_append.2 ⟨holds.sorted, List.pairwise_singleton _ _, fun d known e is => by
    rw [List.mem_singleton.1 is]
    exact ((holds.moves d).1 known).1⟩
  moves d := by
    rw [List.mem_append, List.mem_singleton, holds.moves]
    constructor
    · rintro (⟨lt, recorded, since⟩ | rfl)
      · refine ⟨Nat.lt_succ_of_lt lt, recorded, fun e low high => ?_⟩
        rcases Nat.lt_succ_iff_lt_or_eq.1 high with high | rfl
        · exact since e low high
        · exact empties
      · exact ⟨Nat.lt_succ_self d, ⟨i, n, records⟩, fun e low high => absurd low (by omega)⟩
    · rintro ⟨lt, recorded, since⟩
      rcases Nat.lt_succ_iff_lt_or_eq.1 lt with lt | rfl
      · exact .inl ⟨lt, recorded, fun e low high => since e low (Nat.lt_succ_of_lt high)⟩
      · exact .inr rfl
  records := List.rel_append holds.records (.cons ⟨i, records⟩ .nil)

theorem Empties.holds (empties : run.Empties i r k) (records : ∀ i n, ¬ run.Records i r n k) :
    run.Holds r (k + 1) [] [] where
  sorted := .nil
  moves d := by
    refine ⟨fun known => absurd known List.not_mem_nil, ?_⟩
    rintro ⟨lt, ⟨j, n, recorded⟩, since⟩
    rcases Nat.lt_succ_iff_lt_or_eq.1 lt with lt | rfl
    · exact absurd empties (since k lt (Nat.lt_succ_self k) i)
    · exact absurd recorded (records j n)
  records := .nil

theorem holds (run : Run) (r : String) (k : Nat) :
    ∃ ds, run.Holds r k ((run.state k).world.registry r).constants ds := by
  induction k with
  | zero => exact ⟨[], .nil, fun d => by simp, .nil⟩
  | succ k ih =>
    obtain ⟨ds, holds⟩ := ih
    cases run.keeping r k with
    | stays constants _ records _ empties =>
      rw [constants]
      exact ⟨ds, holds.quiet records empties⟩
    | records records after empties =>
      rw [after]
      exact ⟨ds ++ [k], holds.record records empties⟩
    | locks _ after records empties =>
      rw [after]
      exact ⟨ds, holds.quiet records empties⟩
    | empties empties after records =>
      rw [after]
      exact ⟨[], empties.holds records⟩

theorem Holds.recorded {ns : List NodeId} {ds : List Nat} (holds : run.Holds r k ns ds)
    (known : n ∈ ns) : ∃ i, ∃ d < k, run.Records i r n d := by
  obtain ⟨m, bound, rfl⟩ := List.mem_iff_getElem.1 known
  obtain ⟨length, each⟩ := List.forall₂_iff_get.1 holds.records
  obtain ⟨i, records⟩ := each m bound (length ▸ bound)
  exact ⟨i, _, ((holds.moves _).1 (List.get_mem ..)).1, records⟩

theorem Holds.built {ns : List NodeId} {ds : List Nat} (holds : run.Holds r k ns ds)
    (known : n ∈ ns) : ∃ c < k, ∃ s, (run.state (c + 1)).world.suspension? n = some (.constant s) := by
  obtain ⟨i, d, lt, records⟩ := holds.recorded known
  obtain ⟨c, lt', builds, -⟩ := records.built
  exact ⟨c, Nat.lt_trans lt' lt, builds.constant⟩

theorem Holds.nodup {ns : List NodeId} {ds : List Nat} (holds : run.Holds r k ns ds) : ns.Nodup := by
  obtain ⟨length, each⟩ := List.forall₂_iff_get.1 holds.records
  refine List.pairwise_iff_getElem.2 fun a b low high lt same => ?_
  obtain ⟨i, records⟩ := each a low (length ▸ low)
  obtain ⟨j, other⟩ := each b high (length ▸ high)
  rw [List.get_eq_getElem, same] at records
  have sorted := List.pairwise_iff_getElem.1 holds.sorted a b (length ▸ low) (length ▸ high) lt
  exact absurd (records.once other) (Nat.ne_of_lt sorted)

end Run

end LazyGraph

import LazyGraph.Proofs.Reverts

/-!
# The life cycle of constants

A constant that was built while its registry kept constants is recorded, reset by the next revert, and
run again when it is forced next; one that was built otherwise keeps its value for ever.
-/

namespace LazyGraph

namespace Run

variable {run : Run} {i j : ThreadId} {n v : NodeId} {r : String} {a c d e k : Nat}
  {s : Code × Env}

/-! ## The lock is not lost -/

theorem reverting_of_busy (k : Nat)
    (busy : ((run.state k).world.registry r).busy = true) : ∃ i a, run.Reverting i r a k := by
  induction k with
  | zero => cases busy
  | succ k ih =>
    cases run.keeping r k with
    | stays _ same _ _ empties =>
      obtain ⟨i, a, rev⟩ := ih (same ▸ busy)
      exact ⟨i, a, rev.on (empties i)⟩
    | records records after =>
      rw [after] at busy
      exact absurd (busy.symm.trans records.free) (by simp)
    | locks locks => exact ⟨_, k, locks.reverting⟩
    | empties _ after =>
      rw [after] at busy
      cases busy

/-! ## What is reset -/

theorem Stage.overwrites {t u : Thread} {done todo : List NodeId} {x : Option NodeId}
    (stage : run.Stage i r a k t v done todo) (found : (run.state k).threads[i]? = some u)
    (known : .overwrite n x ∈ u.agenda) : x = none ∧ n ∈ run.held r a := by
  obtain rfl : t = u := Option.some.inj (stage.found.symm.trans found)
  obtain ⟨rfl, left⟩ := stage.reverting.overwrites known
  exact ⟨rfl, by rw [stage.split]; exact List.mem_append_right _ left⟩

/-- Slots are overwritten by reverts only, to reset what was recorded. -/
theorem overwrites_reset (hands : run.NeverTouches) {t : Thread} {x : Option NodeId}
    (found : (run.state k).threads[i]? = some t) (known : .overwrite n x ∈ t.agenda) :
    x = none ∧ ∃ r a, run.Reverting i r a k ∧ n ∈ run.held r a := by
  obtain ⟨r, a, rev⟩ := reverting_of_errand hands found (.inl ⟨n, x, known⟩)
  obtain ⟨u, v, done, todo, stage⟩ := rev.stage
  obtain ⟨rfl, there⟩ := stage.overwrites found known
  exact ⟨rfl, r, a, rev, there⟩

theorem Unsets.reverting (hands : run.NeverTouches) (unsets : run.Unsets i n d) :
    ∃ r a, run.Reverting i r a d ∧ n ∈ run.held r a := by
  obtain ⟨t, as, found, next⟩ := unsets.next
  exact (overwrites_reset hands found (next ▸ List.mem_cons_self)).2

/-- A constant that was built while the registry kept none keeps its value. -/
theorem Builds.permanent (hands : run.NeverTouches) (builds : run.Builds i r n false c) {j : Nat}
    (le : j ≤ k) (held : ((run.state j).world.slot n).cell = some (.value v)) :
    ((run.state k).world.slot n).cell = some (.value v) := by
  refine run.value_kept le held fun m _ _ resets => ?_
  obtain ⟨i', t, x, as, -, found, next⟩ := resets
  obtain ⟨-, r', a, -, known⟩ := overwrites_reset hands found (next ▸ List.mem_cons_self)
  obtain ⟨ds, holds⟩ := run.holds r' a
  obtain ⟨j', d, -, records⟩ := holds.recorded known
  exact builds.never_recorded records

/-! ## Forcing a constant -/

/-- No constant has lost its code. -/
theorem not_cleared (whole : run.Whole) {j : Nat}
    (constant : (run.state j).world.suspension? n = some (.constant s)) (k : Nat) :
    ∀ t ∈ (run.state k).threads, t.control ≠ .fail (.cleared n) := by
  intro t mem at'
  obtain ⟨i, found⟩ := Array.mem_iff_getElem?.1 mem
  obtain ⟨d, -, -, ⟨u, -, -, -, alarms⟩, -⟩ := run.alarmed found (by rw [at']; rfl)
  rw [at'] at alarms
  cases alarms with
  | released _ _ cleared =>
    obtain ⟨th, there, cleared⟩ := (Option.any_eq_true _ _).1 cleared
    have known : (run.state d).world.suspension? n = some th.suspension :=
      World.suspension?_eq_some.2 ⟨th, there, rfl⟩
    have same : th.suspension = .constant s := by
      rcases Nat.le_total d j with le | le
      · have kept := run.cleared_kept whole le known cleared
        rw [constant] at kept
        exact (Option.some.inj kept).symm
      · have kept := run.constant_kept whole le constant rfl
        rw [known] at kept
        exact Option.some.inj kept
    rw [same] at cleared
    cases cleared

theorem runs_again (whole : run.Whole) {j : Nat}
    (constant : (run.state j).world.suspension? n = some (.constant s)) (le : j ≤ k)
    (free : ((run.state k).world.slot n).cell = none) :
    (run.state k).world.Runs n (.constant s) :=
  World.runs_of_free (run.constant_kept whole le constant rfl) rfl free

theorem starts_of_body {t : Thread} {claim : Bool} (turn : run.move k = .step i)
    (found : (run.state k).threads[i]? = some t) (idle : t.agenda = [])
    (at' : t.control = .body n claim)
    (constant : (run.state k).world.suspension? n = some (.constant s)) : run.Starts i n k := by
  obtain ⟨-, after⟩ := run.own_step turn found
  rw [Thread.step, idle, Thread.proceed, at'] at after
  have runs : (Suspension.constant s).opening? = some ([], .run s.1 s.2) := rfl
  simp only [Thread.body_of_opening constant runs] at after
  refine ⟨by simp [found, at', Control.begun?], ?_⟩
  simp [Evaluates, after, Thread.evaluates, Frame.evaluates, Frame.entry?]

/-- A thread begins to update a constant by running it. -/
theorem updating_next (whole : run.Whole) (hands : run.NeverTouches) {j : Nat}
    (constant : (run.state j).world.suspension? n = some (.constant s)) (le : j ≤ k)
    (idle : ∀ t ∈ (run.state k).threads, n ∉ t.updating) :
    (∃ i t, run.move k = .step i ∧ (run.state k).threads[i]? = some t ∧ t.agenda = [] ∧
      run.Starts i n k) ∨ ∀ t ∈ (run.state (k + 1)).threads, n ∉ t.updating := by
  by_contra neither
  simp only [not_or, not_forall, not_not] at neither
  obtain ⟨still, u, mem, updating⟩ := neither
  obtain ⟨i, found⟩ := Array.mem_iff_getElem?.1 mem
  have old : ∀ t, (run.state k).threads[i]? = some t → n ∉ t.updating := fun t there =>
    idle t (Array.mem_of_getElem? there)
  rcases (run.change k).split with rests | ⟨j', t, t', turns, moved⟩
  · rcases rests.others i u found with was | ⟨-, top, code, env, at'⟩
    · exact old u was updating
    · simp [Thread.updating, top, at', Control.updates?] at updating
  · rcases turns.others i u found with ⟨rfl, rfl⟩ | ⟨-, was⟩
    · rcases List.mem_append.1 updating with updates | frame
      · rcases turns.step.updates_origin (by simpa using updates) with known |
          ⟨-, v, ns, env, host⟩
        · exact old t turns.before known
        · have looks := hands k t (Array.mem_of_getElem? turns.before)
          simp [Thread.touches, host] at looks
      · rcases turns.step.frame_thunk_origin frame with known | ⟨none, claim, at', -⟩
        · exact old t turns.before (List.mem_append_right _ known)
        · rcases moved with turn | ⟨g, as, next⟩
          · exact still ⟨i, t, turn, turns.before, none, starts_of_body turn turns.before none at'
              (run.constant_kept whole le constant rfl)⟩
          · rw [none] at next
            cases next
    · exact old u was updating

/-- A slot gets a value from a thread that updates the thunk. -/
theorem value_next (hands : run.NeverTouches)
    (idle : ∀ t ∈ (run.state k).threads, n ∉ t.updating)
    (held : ((run.state (k + 1)).world.slot n).cell = some (.value v)) :
    ((run.state k).world.slot n).cell = some (.value v) := by
  rcases (run.change k).split with rests | ⟨i, t, t', turns, -⟩
  · rwa [rests.still.slot] at held
  · rcases turns.step.value_origin (run.noted k i t turns.before) held with was |
      ⟨seen, at'⟩ | overwrite
    · exact was
    · have updating : n ∈ t.updating := by simp [Thread.updating, at', Control.updates?]
      exact absurd updating (idle t (Array.mem_of_getElem? turns.before))
    · cases (overwrites_reset hands turns.before overwrite).1

/-- Once a constant is reset while nobody is at it, it has a value only if it was run again. -/
theorem Unsets.runs (whole : run.Whole) (hands : run.NeverTouches) {j : Nat}
    (constant : (run.state j).world.suspension? n = some (.constant s)) (le : j ≤ d)
    (unsets : run.Unsets i n d) (idle : ∀ t ∈ (run.state d).threads, n ∉ t.updating) (lt : d < k) :
    (∃ i c, d < c ∧ c < k ∧ run.Starts i n c) ∨
      (∀ t ∈ (run.state k).threads, n ∉ t.updating) ∧
        ∀ v, ((run.state k).world.slot n).cell ≠ some (.value v) := by
  induction lt with
  | refl =>
    refine .inr ⟨?_, fun v held => by rw [unsets.slot] at held; cases held⟩
    rcases updating_next whole hands constant le idle with ⟨j', t, turn, found, none, -⟩ | after
    · obtain ⟨u, as, there, next⟩ := unsets.next
      have same := unsets.turn
      rw [turn] at same
      cases same
      rw [found] at there
      cases there
      rw [none] at next
      cases next
    · exact after
  | @step k lt ih =>
    rcases ih with ⟨i, c, low, high, starts⟩ | ⟨idle, empty⟩
    · exact .inl ⟨i, c, low, Nat.lt_succ_of_lt high, starts⟩
    · have later : j ≤ k := Nat.le_trans le (Nat.le_of_lt lt)
      rcases updating_next whole hands constant later idle with ⟨i, t, -, -, -, starts⟩ | after
      · exact .inl ⟨i, k, lt, Nat.lt_succ_self k, starts⟩
      · exact .inr ⟨after, fun v held => empty v (value_next hands idle held)⟩

/-! ## Registries -/

/-- **The life cycle of a registry.** Hosts leave slots alone, and thunks from outside have their code.
A registry holds the constants that were recorded in it since it was last emptied, in this order and
each once. Recorded are those that were built while it kept constants, by the thread that built them
and as soon as no revert holds the lock. A thread that reverts takes the lock, resets what the registry
holds, and only that, wakes whoever waits in a queue that it displaces, empties the registry and gives
back the number. A constant that is reset while nobody is at it has a value again only once its code
has run again, and it can always be run. A constant that was built otherwise keeps its value. -/
theorem registry_life_cycle (run : Run) (whole : run.Whole) (hands : run.NeverTouches) (r : String) :
    (∀ k, (run.held r k).Nodup ∧ ∃ ds, run.Holds r k (run.held r k) ds) ∧
    (∀ i n d, run.Records i r n d →
      ∃ c < d, run.Builds i r n true c ∧ ∀ e, c < e → e ≤ d → run.Due i r n e) ∧
    (∀ i n c k, run.Builds i r n true c → c < k →
      run.Due i r n k ∨ ∃ d, c < d ∧ d < k ∧ run.Records i r n d) ∧
    (∀ k, ((run.state k).world.registry r).busy = true → ∃ i a, run.Reverting i r a k) ∧
    (∀ i a, run.Locks i r a → (∀ k, ∃ d > k, run.move d = .step i) → ∃ e, run.Reverts i r a e) ∧
    (∀ i e, run.Empties i r e → ∃ a, run.Reverts i r a e) ∧
    (∀ i a e, run.Reverts i r a e →
      (∀ d, a < d → d ≤ e → run.held r d = run.held r a) ∧ run.held r (e + 1) = [] ∧
      (∃ t v, (run.state (e + 1)).threads[i]? = some t ∧ t.control = .give v ∧
        t.agenda = [.emit (.reverted r (run.held r a).length)] ∧
        (run.state (e + 1)).world.value? v =
          some (.scalar (.long (.ofNat (run.held r a).length)))) ∧
      (∀ n ∈ run.held r a, ∃ d, a < d ∧ d < e ∧ run.Unsets i n d ∧
        ((run.state (d + 1)).world.slot n).cell = none ∧
        ∀ q o, ((run.state d).world.slot n).cell = some (.queue q o) →
          (run.state e).world.Closed q ∧ ∀ c Q m, d ≤ c → c ≤ e →
            (run.state c).world.queue? q = some Q → Q.closed = false → m ∈ Q.messages →
            (∃ u ∈ (run.state e).threads, .wake m.task ∈ u.agenda) ∨
              ∃ b, c ≤ b ∧ b < e ∧ run.Wakes m.task b) ∧
      ∀ d, a ≤ d → d ≤ e → run.move d = .step i →
        (run.state d).world.Spares (run.state (d + 1)).world r (run.held r a)) ∧
    (∀ j n s, (run.state j).world.suspension? n = some (.constant s) →
      (∀ k, ∀ t ∈ (run.state k).threads, t.control ≠ .fail (.cleared n)) ∧
      (∀ k ≥ j, ((run.state k).world.slot n).cell = none →
        (run.state k).world.Runs n (.constant s)) ∧
      ∀ i d, j ≤ d → run.Unsets i n d → (∀ t ∈ (run.state d).threads, n ∉ t.updating) →
        ∀ k > d, ∀ v, ((run.state k).world.slot n).cell = some (.value v) →
          ∃ i c, d < c ∧ c < k ∧ run.Starts i n c) ∧
    ∀ i n c, run.Builds i r n false c → ∀ j k v, j ≤ k →
      ((run.state j).world.slot n).cell = some (.value v) →
      ((run.state k).world.slot n).cell = some (.value v) := by
  refine ⟨fun k => ?_, fun i n d records => records.built,
    fun i n c k builds lt => builds.recorded lt, reverting_of_busy, ?_, ?_, ?_, ?_,
    fun i n c builds j k v le held => builds.permanent hands le held⟩
  · obtain ⟨ds, holds⟩ := run.holds r k
    exact ⟨holds.nodup, ds, holds⟩
  · intro i a locks turns
    obtain ⟨t, v, stage⟩ := locks.stage
    exact locks.reverting.ends stage.found turns
  · intro i e empties
    obtain ⟨a, rev⟩ := reverting_of_empties hands empties
    exact ⟨a, rev, empties⟩
  · intro i a e rev
    refine ⟨fun d low le => ((rev.earlier low le).locked hands).2.1, rev.emptied, rev.returned, ?_,
      fun d low le turn => rev.spares low le turn⟩
    intro n known
    obtain ⟨d, low, high, unsets⟩ := rev.unsets known
    exact ⟨d, low, high, unsets, unsets.slot, fun q o displaced =>
      ⟨rev.closed unsets high displaced, fun c Q m low le there open' known =>
        rev.woken unsets high displaced low le there open' known⟩⟩
  · intro j n s constant
    refine ⟨not_cleared whole constant, fun k le free => runs_again whole constant le free, ?_⟩
    intro i d le unsets idle k lt v held
    rcases unsets.runs whole hands constant le idle lt with starts | ⟨-, empty⟩
    · exact starts
    · exact absurd held (empty v)

/-- Three constants are built, two of them while the registry keeps constants. The first and the
last are forced, the code of the second one stops at a gate, and a task waits for it. The registry
is reverted, and the first constant is forced again. -/
def cycled : Run :=
  .ofMoves {}
    (List.flatten [
      [.keep "r" true, .sit true, .sit true, .sit true,
        .start 0 (.constant "r" (.prim (.increment "runs") [])) {} true true],
      .replicate 3 (.step 0),
      [.start 0 (.constant "r" (.prim (.gate "g") [])) {} true true],
      .replicate 3 (.step 1),
      [.keep "r" false, .start 0 (.constant "r" (.prim (.increment "runs") [])) {} true true,
        .step 2, .evaluate 0 0],
      .replicate 23 (.step 3), [.evaluate 0 2], .replicate 23 (.step 4), [.evaluate 1 1],
      .replicate 12 (.step 5), [.evaluate 2 1], .replicate 19 (.step 6),
      [.start 0 (.prim (.revert "r") []) {} true true], .replicate 8 (.step 7), [.evaluate 0 0],
      .replicate 18 (.step 8)])
    (by decide +kernel)

end Run

def Thread.isReverting (r : String) (t : Thread) : Bool :=
  match t.agenda, t.control with
  | [], .revert x => x == r
  | _, _ => false

theorem Thread.revert_of_isReverting {t : Thread} (reverts : t.isReverting r = true) :
    t.agenda = [] ∧ t.control = .revert r := by
  unfold isReverting at reverts
  split at reverts
  · rename_i idle control
    exact ⟨idle, by rw [control, eq_of_beq reverts]⟩
  · cases reverts

def Thread.isReleasing (r : String) (t : Thread) : Bool :=
  match t.agenda with
  | .release x :: _ => x == r
  | _ => false

theorem Thread.release_of_isReleasing {t : Thread} (releases : t.isReleasing r = true) :
    ∃ as, t.agenda = .release r :: as := by
  unfold isReleasing at releases
  split at releases
  · rename_i x as next
    exact ⟨as, by rw [next, eq_of_beq releases]⟩
  · cases releases

def Thread.buildsFor (r : String) (t : Thread) : Bool :=
  match t.agenda, t.control with
  | [], .run (.constant x _) _ => x == r
  | _, _ => false

theorem Thread.constant_of_buildsFor {t : Thread} (builds : t.buildsFor r = true) :
    ∃ body env, t.agenda = [] ∧ t.control = .run (.constant r body) env := by
  unfold buildsFor at builds
  split at builds
  · rename_i x body env idle control
    exact ⟨body, env, idle, by rw [control, eq_of_beq builds]⟩
  · cases builds

def Thread.unsets? (t : Thread) : Option NodeId :=
  match t.agenda with
  | .overwrite n none :: _ => some n
  | _ => none

namespace Run

theorem Unsets.unsets? {run : Run} {i : ThreadId} {n : NodeId} {d : Nat}
    (unsets : run.Unsets i n d) : ((run.state d).threads[i]?).bind (·.unsets?) = some n := by
  obtain ⟨t, as, found, next⟩ := unsets.next
  simp [found, Thread.unsets?, next]

theorem cycled_reverts : cycled.Reverts 7 "r" 98 103 := by
  have reverts : ((cycled.state 98).threads[7]?).any (·.isReverting "r") = true := by
    decide +kernel
  have resets : ∀ d < 103, 98 < d →
      ((cycled.state d).threads[7]?).all (fun t => !t.isReleasing "r") = true := by
    decide +kernel
  have releases : ((cycled.state 103).threads[7]?).any (·.isReleasing "r") = true := by
    decide +kernel
  obtain ⟨t, found, at'⟩ := (Option.any_eq_true _ _).1 reverts
  obtain ⟨v, there, last⟩ := (Option.any_eq_true _ _).1 releases
  obtain ⟨as, next⟩ := Thread.release_of_isReleasing last
  refine ⟨⟨⟨rfl, ⟨t, found, Thread.revert_of_isReverting at'⟩, by decide +kernel⟩, by decide, ?_⟩,
    rfl, v, as, there, next⟩
  intro d low high empties
  obtain ⟨w, as, there, next⟩ := empties.next
  simpa [there, Thread.isReleasing, next] using resets d high low

theorem registry_life_cycle_cycled :
    cycled.Whole ∧ cycled.NeverTouches ∧ cycled.held "r" 98 = [0, 1] ∧
      cycled.Reverts 7 "r" 98 103 ∧ cycled.held "r" 104 = [] ∧ cycled.Unsets 7 0 99 ∧
      cycled.Unsets 7 1 100 ∧ ((cycled.state 100).world.slot 1).cell = some (.queue 0 1) ∧
      (cycled.state 103).world.Closed 0 ∧ (∃ b, 100 ≤ b ∧ b < 103 ∧ cycled.Wakes 2 b) ∧
      (∃ i c, 99 < c ∧ c < 124 ∧ cycled.Starts i 0 c) ∧
      ((cycled.state 124).world.slot 2).cell = some (.value 4) := by
  have whole : cycled.Whole := ofMoves_all rfl (by decide +kernel)
  have hands : cycled.NeverTouches :=
    ofMoves_forall (P := fun s => ∀ t ∈ s.threads, t.touches = false) (by decide +kernel)
  have held : cycled.held "r" 98 = [0, 1] := by
    unfold held
    decide +kernel
  have idle : ∀ t ∈ (cycled.state 99).threads, 0 ∉ t.updating := by decide +kernel
  have value : ((cycled.state 124).world.slot 0).cell = some (.value 7) := by decide +kernel
  have other : ((cycled.state 64).world.slot 2).cell = some (.value 4) := by decide +kernel
  have unkept : ((cycled.state 14).threads[2]?).any (·.buildsFor "r") = true := by decide +kernel
  have builds : cycled.Builds 2 "r" 2 false 14 := by
    obtain ⟨t, found, at'⟩ := (Option.any_eq_true _ _).1 unkept
    obtain ⟨body, env, at'⟩ := Thread.constant_of_buildsFor at'
    exact ⟨rfl, ⟨t, body, env, found, at'⟩, by decide +kernel, by decide +kernel⟩
  have constant : ((cycled.state 6).world.suspension? 0).any Suspension.isConstant = true := by
    decide +kernel
  obtain ⟨s, known, constant⟩ := (Option.any_eq_true _ _).1 constant
  obtain ⟨-, -, -, -, -, -, reverts, forced, permanent⟩ :=
    registry_life_cycle cycled whole hands "r"
  obtain ⟨-, emptied, -, reset, -⟩ := reverts 7 98 103 cycled_reverts
  have once : ∀ d < 103, 98 < d → ∀ n < 2,
      ((cycled.state d).threads[7]?).bind (·.unsets?) = some n → d = 99 + n := by
    decide +kernel
  obtain ⟨d, low, high, first, -⟩ := reset 0 (by rw [held]; simp)
  obtain rfl := once d high low 0 (by decide) first.unsets?
  obtain ⟨d, low, high, second, -, waiters⟩ := reset 1 (by rw [held]; simp)
  obtain rfl := once d high low 1 (by decide) second.unsets?
  have displaced : ((cycled.state 100).world.slot 1).cell = some (.queue 0 1) := by
    decide +kernel
  have waits : ((cycled.state 100).world.queue? 0).any
      (fun Q => !Q.closed && Q.messages.contains ⟨2, 1⟩) = true := by
    decide +kernel
  obtain ⟨Q, there, waits⟩ := (Option.any_eq_true _ _).1 waits
  simp only [Bool.and_eq_true, Bool.not_eq_true', List.contains_iff_mem] at waits
  obtain ⟨closed, woken⟩ := waiters 0 1 displaced
  have rests : (cycled.state 103).AtRest := by
    unfold State.AtRest
    decide +kernel
  have woken := (woken 100 Q ⟨2, 1⟩ (by decide) (by decide) there waits.1 waits.2).resolve_left
    fun ⟨u, mem, planned⟩ => absurd (rests u mem _ planned) (by decide)
  refine ⟨whole, hands, held, cycled_reverts, emptied, first, second, displaced, closed, woken, ?_,
    permanent 2 2 14 builds 64 124 4 (by decide) other⟩
  cases s with
  | constant => exact (forced 6 0 _ known).2.2 7 99 (by decide) first idle 124 (by decide) 7 value
  | updatable | application | selector => cases constant

end Run

end LazyGraph

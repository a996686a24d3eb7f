import LazyGraph.Proofs.Records

/-!
# What a revert does

A revert holds the lock of its registry from the move in which it reads what is recorded until the
move in which it empties the registry. In between it overwrites the slots of the recorded constants,
one after the other, and wakes whoever waited in a queue that it displaced.
-/

namespace LazyGraph

/-! ## The errands of a revert -/

/-- A wake that reports nothing. -/
def Action.isSilent : Action → Bool
  | .wake _ | .drain _ .silent => true
  | _ => false

/-- The thread is to reset the constants `todo`, to empty and unlock the registry `r`, and to give
back `v`. -/
def Thread.Reverting (t : Thread) (r : String) (count : Nat) (v : NodeId) (todo : List NodeId) :
    Prop :=
  t.control = .give v ∧ ∃ wakes : List Action, (∀ a ∈ wakes, a.isSilent) ∧
    t.agenda = wakes ++ todo.map (.overwrite · none) ++ [.release r, .emit (.reverted r count)]

variable {w w' : World} {t t' : Thread} {n v : NodeId} {r r' : String} {q : QueueId} {a : Action}

namespace Thread.Reverting

variable {count : Nat} {todo : List NodeId}

theorem not_gate (rev : t.Reverting r count v todo) (g : String) (as : List Action) :
    t.agenda ≠ .gate g :: as := by
  obtain ⟨-, wakes, silent, agenda⟩ := rev
  rw [agenda]
  intro next
  cases wakes with
  | nil => cases todo <;> simp at next
  | cons a wakes =>
    obtain ⟨rfl, -⟩ := List.cons.inj next
    cases silent _ List.mem_cons_self

theorem overwrites (rev : t.Reverting r count v todo) {x : Option NodeId}
    (known : .overwrite n x ∈ t.agenda) : x = none ∧ n ∈ todo := by
  obtain ⟨-, wakes, silent, agenda⟩ := rev
  rw [agenda] at known
  simp only [List.mem_append, List.mem_map, List.mem_cons, reduceCtorEq, List.not_mem_nil, or_self,
    or_false, Action.overwrite.injEq] at known
  rcases known with wake | ⟨m, there, rfl, rfl⟩
  · cases silent _ wake
  · exact ⟨rfl, there⟩

theorem releases (rev : t.Reverting r count v todo) (known : .release r' ∈ t.agenda) : r' = r := by
  obtain ⟨-, wakes, silent, agenda⟩ := rev
  rw [agenda] at known
  simp only [List.mem_append, List.mem_map, List.mem_cons, reduceCtorEq, and_false, exists_false,
    List.not_mem_nil, or_false, Action.release.injEq] at known
  rcases known with wake | rfl
  · cases silent _ wake
  · rfl

/-- The next step wakes somebody, resets a constant, or empties the registry. -/
theorem step (rev : t.Reverting r count v todo) (w : World) :
    (t.step w).2.Reverting r count v todo ∧ (t.step w).1.heap = w.heap ∧
        (t.step w).1.registries = w.registries ∧ (∀ m x as, t.agenda ≠ .overwrite m x :: as) ∧
        ((∃ q as, t.agenda = .drain q .silent :: as) ∨ ∃ u as, t.agenda = .wake u :: as) ∨
      (∃ m rest as, todo = m :: rest ∧ t.agenda = .overwrite m none :: as ∧
        (t.step w).2.Reverting r count v rest ∧ (t.step w).1 = w.write m none) ∨
      todo = [] ∧ t.agenda = [.release r, .emit (.reverted r count)] := by
  obtain ⟨at', wakes, silent, agenda⟩ := rev
  cases wakes with
  | cons a wakes =>
    have silent' : ∀ b ∈ wakes, b.isSilent := fun b known => silent b (List.mem_cons_of_mem _ known)
    have kind := silent a List.mem_cons_self
    rw [List.cons_append, List.cons_append] at agenda
    cases a with
    | wake u =>
      have turn : t.step w = (w.wake u, { t with
          agenda := wakes ++ (todo.map (.overwrite · none) ++
            [.release r, .emit (.reverted r count)]) }) := by
        simp only [Thread.step, agenda, Action.perform, List.append_assoc]
      rw [turn]
      exact .inl ⟨⟨at', wakes, silent', (List.append_assoc ..).symm⟩, rfl, rfl, by simp [agenda],
        .inr ⟨u, _, agenda⟩⟩
    | drain q note =>
      cases note with
      | silent =>
        have turn : t.step w = (w.close q, { t with
            agenda := ((w.messages q).map (fun m => .wake m.task) ++ wakes) ++
              todo.map (.overwrite · none) ++ [.release r, .emit (.reverted r count)] }) := by
          simp only [Thread.step, agenda, Action.perform, Note.report, List.append_assoc,
            List.nil_append]
        rw [turn]
        refine .inl ⟨⟨at', _, ?_, rfl⟩, rfl, rfl, by simp [agenda], .inl ⟨q, _, agenda⟩⟩
        intro b known
        simp only [List.mem_append, List.mem_map] at known
        rcases known with ⟨m, -, rfl⟩ | old
        · rfl
        · exact silent' b old
      | _ => cases kind
    | _ => cases kind
  | nil =>
    cases todo with
    | nil => exact .inr (.inr ⟨rfl, agenda⟩)
    | cons m rest =>
      have turn : t.step w = (w.write m none, { t with
          agenda := (((w.slot m).queue?).map fun q => [Action.drain q .silent]).getD [] ++
            rest.map (.overwrite · none) ++ [.release r, .emit (.reverted r count)] }) := by
        simp [Thread.step, agenda, Action.perform]
      rw [turn]
      refine .inr (.inl ⟨m, rest, _, rfl, agenda, ⟨at', _, ?_, rfl⟩, rfl⟩)
      intro b known
      cases displaced : (w.slot m).queue? with
      | none => simp [displaced] at known
      | some q =>
        simp only [displaced, Option.map_some, Option.getD_some, List.mem_singleton] at known
        rw [known]
        rfl

end Thread.Reverting

theorem Errand.release_origin (step : Errand w t w' t') (known : .release r ∈ t'.agenda) :
    .release r ∈ t.agenda := by
  cases step with
  | stand => exact known
  | drain next kind =>
    simp only [List.mem_append, List.mem_map, reduceCtorEq, and_false, exists_false,
      false_or] at known
    rcases known with report | old
    · cases kind _ report
    · rw [next]
      exact List.mem_cons_of_mem _ old
  | @overwrite m x as next =>
    rw [next]
    rcases List.mem_append.1 known with new | old
    · cases found : (w.slot m).queue? <;> simp [found] at new
    · exact List.mem_cons_of_mem _ old
  | @surrendered m seen as next =>
    rw [next]
    rcases List.mem_append.1 known with new | old
    · cases found : seen.queue? <;> simp [afterSurrender, found, wakeQueue] at new
    · exact List.mem_cons_of_mem _ old
  | quiet next | refuse next | wake next | «seal» next | sweep next | examined next
  | examineClosed next | examineOpen next | inspectResolved next | inspectOpen next
  | dismissed next | dismissListed next | dismissOther next | abandonOwn next | abandonOther next
  | surrenderMissed next =>
    rw [next]
    exact List.mem_cons_of_mem _ (by simpa using known)

/-- Only a revert plans to release the registry. -/
theorem Step.release_origin (step : Step w t w' t') (known : .release r ∈ t'.agenda) :
    .release r ∈ t.agenda ∨ t.agenda = [] ∧ ∃ r, t.control = .revert r := by
  have reports : ∀ {as : List Action}, (∀ a ∈ as, a.isReport) → .release r ∉ as :=
    fun reports known => by cases reports _ known
  have claims : ∀ {n : NodeId} {claim : Bool}, .release r ∉ giveUp n claim := by
    intro n claim known
    cases claim <;> simp [giveUp] at known
  cases step with
  | stay => exact .inl known
  | errand step => exact .inl (step.release_origin known)
  | host step =>
    cases step with
    | code _ _ _ _ _ kinds =>
      rcases kinds with kind | ⟨g, n, rfl, -⟩
      · exact absurd known (reports kind)
      · simp at known
    | revert idle at' => exact .inr ⟨idle, _, at'⟩
    | dropEvaluation _ _ _ _ kind =>
      rcases List.mem_append.1 known with report | claim
      · exact absurd report (reports kind)
      · exact absurd claim claims
    | _ => simp_all
  | forcing step =>
    cases step with
    | enterFailed _ _ kind => exact absurd known (reports kind)
    | startLoop _ _ _ =>
      rcases List.mem_cons.1 known with report | claim
      · cases report
      · exact absurd claim claims
    | released => exact absurd known claims
    | @installed n v seen e =>
      simp only [List.mem_append, List.mem_cons, reduceCtorEq, List.not_mem_nil, or_false,
        false_or] at known
      unfold Thread.afterInstall at known
      split at known
      · cases known
      · split at known <;> simp [wakeQueue] at known
      · split at known <;> simp at known
      · simp at known
    | _ => simp_all
  | waits step =>
    cases step with
    | enlist _ _ _ gates | enlisted _ _ _ gates =>
      obtain ⟨g, is⟩ := gates _ known
      cases is
    | proceed _ _ _ kind | published _ _ _ _ kind => exact absurd known (reports kind)
    | _ => simp_all
  | attempt step => cases step <;> simp_all

/-! ## How far a revert has come -/

def Action.isDrain : Action → Bool
  | .drain _ _ => true
  | _ => false

/-- What is left to do for a thread on errands. Waiters are counted only once their queue is closed. -/
def Thread.rank (t : Thread) : Nat × Nat × Nat :=
  (t.agenda.countP (·.isOverwrite), t.agenda.countP (·.isDrain), t.agenda.length)

theorem Thread.Reverting.rank {count : Nat} {todo : List NodeId}
    (rev : t.Reverting r count v todo) (w : World) (left : t.agenda.head? ≠ some (.release r)) :
    Prod.Lex (· < ·) (Prod.Lex (· < ·) (· < ·)) (t.step w).2.rank t.rank := by
  rcases rev.step w with ⟨-, -, -, -, ⟨q, as, next⟩ | ⟨u, as, next⟩⟩ | ⟨m, rest, as, -, next, -⟩ |
    ⟨-, next⟩
  · have overwrites : ∀ ms : List Message,
        (ms.map fun m => Action.wake m.task).countP (·.isOverwrite) = 0 := fun ms => by
      simp [List.countP_eq_zero, Action.isOverwrite]
    have drains : ∀ ms : List Message,
        (ms.map fun m => Action.wake m.task).countP (·.isDrain) = 0 := fun ms => by
      simp [List.countP_eq_zero, Action.isDrain]
    simp only [Thread.rank, Thread.step, next, Action.perform, Note.report, List.append_nil,
      List.countP_append, List.countP_cons, overwrites, drains]
    simp [Prod.lex_def, Action.isOverwrite, Action.isDrain]
  · simp [Thread.rank, Thread.step, next, Action.perform, Prod.lex_def, Action.isOverwrite,
      Action.isDrain]
  · cases displaced : (w.slot m).queue? <;>
      simp [Thread.rank, Thread.step, next, Action.perform, displaced, Prod.lex_def,
        Action.isOverwrite]
  · exact absurd (by rw [next]; rfl) left

/-! ## What a revert leaves alone -/

/-- Of what there was, nothing changes but the slots of `ns` and the registry `r`, and not the flags
of `r`. -/
structure World.Spares (w w' : World) (r : String) (ns : List NodeId) : Prop where
  node : ∀ n, w.Has n → n ∉ ns → w'.node? n = w.node? n
  suspension : ∀ n, w.Has n → w'.suspension? n = w.suspension? n
  registry : ∀ x, x ≠ r → w'.registry x = w.registry x
  keep : (w'.registry r).keep = (w.registry r).keep
  verbose : (w'.registry r).verbose = (w.registry r).verbose

namespace World

variable {ns : List NodeId} {x : Registry}

theorem spares_of_heap (heap : w'.heap = w.heap) (registries : w'.registries = w.registries) :
    w.Spares w' r ns where
  node n _ _ := by rw [node?, heap, node?]
  suspension n _ := suspension?_congr (by rw [node?, heap, node?])
  registry x _ := registry_congr registries x
  keep := by rw [registry_congr registries]
  verbose := by rw [registry_congr registries]

theorem spares_write (known : n ∈ ns) (cell : Option Cell) : w.Spares (w.write n cell) r ns where
  node m _ other := by
    rw [node?_write]
    have apart : m ≠ n := fun same => other (same ▸ known)
    cases w.thunk? n <;> simp [apart]
  suspension m _ := suspension?_write cell
  registry x _ := registry_congr (grows_write n cell).registries x
  keep := by rw [registry_congr (grows_write n cell).registries]
  verbose := by rw [registry_congr (grows_write n cell).registries]

theorem spares_setRegistry (keep : x.keep = (w.registry r).keep)
    (verbose : x.verbose = (w.registry r).verbose) : w.Spares (w.setRegistry r x) r ns where
  node _ _ _ := rfl
  suspension _ _ := rfl
  registry y other := by rw [registry_setRegistry, if_neg other]
  keep := by rw [registry_setRegistry, if_pos rfl, keep]
  verbose := by rw [registry_setRegistry, if_pos rfl, verbose]

theorem Spares.alloc (spares : w.Spares w' r ns) (same : w'.heap = w.heap) (node : Node) :
    w.Spares (w'.alloc node).1 r ns := by
  have old : ∀ n, w.Has n → (w'.alloc node).1.node? n = w'.node? n := fun n has => by
    rw [node?_alloc, if_neg (by rw [same]; exact Nat.ne_of_lt has)]
  have registry : ∀ x, (w'.alloc node).1.registry x = w'.registry x := registry_congr rfl
  exact {
    node := fun n has other => (old n has).trans (spares.node n has other)
    suspension := fun n has => (suspension?_congr (old n has)).trans (spares.suspension n has)
    registry := fun x other => (registry x).trans (spares.registry x other)
    keep := by rw [registry, spares.keep]
    verbose := by rw [registry, spares.verbose] }

end World

namespace Run

/-! ## From the lock to the release -/

variable (run : Run)

/-- In move `d` thread `i` resets `n`. -/
structure Unsets (i : ThreadId) (n : NodeId) (d : Nat) : Prop where
  turn : run.move d = .step i
  next : ∃ t as, (run.state d).threads[i]? = some t ∧ t.agenda = .overwrite n none :: as

/-- At time `k` thread `i` is still at the revert for which it locked registry `r` in move `a`. -/
structure Reverting (i : ThreadId) (r : String) (a k : Nat) : Prop where
  locks : run.Locks i r a
  before : a < k
  since : ∀ d, a < d → d < k → ¬ run.Empties i r d

/-- Thread `i` locks registry `r` in move `a` and empties it in move `e`. -/
structure Reverts (i : ThreadId) (r : String) (a e : Nat) : Prop extends run.Reverting i r a e where
  empties : run.Empties i r e

/-- What registry `r` holds at time `k`. -/
def held (r : String) (k : Nat) : List NodeId :=
  ((run.state k).world.registry r).constants

/-- How far the revert has come at time `k`: the constants `done` have been reset. -/
structure Stage (i : ThreadId) (r : String) (a k : Nat) (t : Thread) (v : NodeId)
    (done todo : List NodeId) : Prop where
  found : (run.state k).threads[i]? = some t
  reverting : t.Reverting r (run.held r a).length v todo
  result : (run.state k).world.value? v =
    some (.scalar (.long (.ofNat (run.held r a).length)))
  split : run.held r a = done ++ todo
  unset : ∀ n ∈ done, ∃ d, a < d ∧ d < k ∧ run.Unsets i n d

variable {run} {i j : ThreadId} {k d e : Nat} {b c : Nat}

theorem held_thunk (known : n ∈ run.held r k) : ((run.state k).world.thunk? n).isSome := by
  obtain ⟨ds, holds⟩ := run.holds r k
  obtain ⟨c, lt, s, found⟩ := holds.built known
  exact (run.evolves (Nat.succ_le_of_lt lt)).thunk n (World.thunk?_of_suspension? found)

variable {a : Nat}

theorem Reverting.earlier (rev : run.Reverting i r a k) (after : a < d) (le : d ≤ k) :
    run.Reverting i r a d :=
  ⟨rev.locks, after, fun e low high => rev.since e low (Nat.lt_of_lt_of_le high le)⟩

theorem Reverting.on (rev : run.Reverting i r a k) (busy : ¬ run.Empties i r k) :
    run.Reverting i r a (k + 1) := by
  refine ⟨rev.locks, Nat.lt_succ_of_lt rev.before, fun d low high => ?_⟩
  rcases Nat.lt_succ_iff_lt_or_eq.1 high with high | rfl
  · exact rev.since d low high
  · exact busy

theorem Locks.reverting (locks : run.Locks i r a) : run.Reverting i r a (a + 1) :=
  ⟨locks, Nat.lt_succ_self a, fun d low high => absurd low (by omega)⟩

theorem Locks.stage (locks : run.Locks i r a) :
    ∃ t v, run.Stage i r a (a + 1) t v [] (run.held r a) := by
  obtain ⟨t, v, found, new, world, after⟩ := locks.after
  have thunks : ((run.state a).world.registry r).constants.filter
      (fun n => ((run.state a).world.thunk? n).isSome) = run.held r a :=
    List.filter_eq_self.2 fun n known => held_thunk known
  rw [thunks] at after
  refine ⟨_, v, after, ⟨rfl, [], by simp, rfl⟩, ?_, rfl, by simp⟩
  rw [world, World.value?_eq_some, World.node?_alloc]
  exact if_pos new

/-- Until the registry is emptied, whoever moves, the revert stays where it is or goes on. -/
theorem Stage.next {t : Thread} {done todo : List NodeId}
    (stage : run.Stage i r a k t v done todo) (before : a < k) (busy : ¬ run.Empties i r k) :
    ∃ t' done' todo', run.Stage i r a (k + 1) t' v done' todo' := by
  obtain ⟨found, reverting, result, split, unset⟩ := stage
  have result := (run.evolves (Nat.le_succ k)).value v _ result
  have unset' : ∀ n ∈ done, ∃ d, a < d ∧ d < k + 1 ∧ run.Unsets i n d := fun n known => by
    obtain ⟨d, low, high, unsets⟩ := unset n known
    exact ⟨d, low, Nat.lt_succ_of_lt high, unsets⟩
  by_cases turn : run.move k = .step i
  · obtain ⟨world, after⟩ := run.own_step turn found
    rcases reverting.step (run.state k).world with ⟨next, -⟩ | ⟨m, rest, as, rfl, head, next, -⟩ |
      ⟨-, next⟩
    · exact ⟨_, done, todo, after, next, result, split, unset'⟩
    · refine ⟨_, done ++ [m], rest, after, next, result, by rw [split]; simp, ?_⟩
      intro n known
      rcases List.mem_append.1 known with old | new
      · exact unset' n old
      · obtain rfl := List.mem_singleton.1 new
        exact ⟨k, before, Nat.lt_succ_self k, turn, t, as, found, head⟩
    · exact absurd ⟨turn, t, _, found, next⟩ busy
  · rcases run.not_own_step turn found with stays | ⟨g, as, next, -⟩
    · exact ⟨t, done, todo, stays, reverting, result, split, unset'⟩
    · exact absurd next (reverting.not_gate g as)

theorem Reverting.stage (rev : run.Reverting i r a k) :
    ∃ t v done todo, run.Stage i r a k t v done todo := by
  obtain ⟨locks, before, since⟩ := rev
  induction before with
  | refl =>
    obtain ⟨t, v, stage⟩ := locks.stage
    exact ⟨t, v, [], _, stage⟩
  | @step k before ih =>
    obtain ⟨t, v, done, todo, stage⟩ := ih fun d low high => since d low (Nat.lt_succ_of_lt high)
    obtain ⟨t', done', todo', next⟩ := stage.next before (since k before (Nat.lt_succ_self k))
    exact ⟨t', v, done', todo', next⟩

/-- When the registry is emptied, there is nothing left to do but to report it. -/
theorem Stage.last {t : Thread} {done todo : List NodeId}
    (stage : run.Stage i r a k t v done todo) (empties : run.Empties i r k) :
    todo = [] ∧ t.agenda = [.release r, .emit (.reverted r (run.held r a).length)] := by
  obtain ⟨u, as, there, next⟩ := empties.next
  obtain rfl : t = u := Option.some.inj (stage.found.symm.trans there)
  rcases stage.reverting.step (run.state k).world with ⟨-, -, -, -, ⟨q, as, head⟩ | ⟨u, as, head⟩⟩ |
    ⟨m, rest, as, -, head, -⟩ | last
  · rw [next] at head
    cases head
  · rw [next] at head
    cases head
  · rw [next] at head
    cases head
  · exact last

/-- Slots are overwritten, and registries emptied, by reverts only. -/
theorem reverting_of_errand (hands : run.NeverTouches) {k : Nat} {t : Thread}
    (found : (run.state k).threads[i]? = some t)
    (errand : (∃ n x, .overwrite n x ∈ t.agenda) ∨ ∃ r, .release r ∈ t.agenda) :
    ∃ r a, run.Reverting i r a k := by
  induction k generalizing t with
  | zero => simp [Run.state, trace] at found
  | succ k ih =>
    rcases run.thread_before found with ⟨u, before⟩ | ⟨idle, -⟩
    · by_cases old : (∃ n x, .overwrite n x ∈ u.agenda) ∨ ∃ r, .release r ∈ u.agenda
      · obtain ⟨r, a, rev⟩ := ih before old
        refine ⟨r, a, rev.on fun empties => ?_⟩
        obtain ⟨u', v, done, todo, stage⟩ := rev.stage
        obtain rfl : u' = u := Option.some.inj (stage.found.symm.trans before)
        obtain ⟨-, after⟩ := run.own_step empties.turn before
        rw [found, Option.some.injEq] at after
        have last : t.agenda = [.emit (.reverted r (run.held r a).length)] := by
          rw [after, Thread.step, (stage.last empties).2]
          rfl
        rcases errand with ⟨n, x, known⟩ | ⟨r, known⟩ <;> simp [last] at known
      · have new : (∃ n x, .overwrite n x ∈ t.agenda ∧ .overwrite n x ∉ u.agenda) ∨
            ∃ r, .release r ∈ t.agenda ∧ .release r ∉ u.agenda := by
          refine errand.imp ?_ ?_
          · rintro ⟨n, x, known⟩
            exact ⟨n, x, known, fun was => old (.inl ⟨n, x, was⟩)⟩
          · rintro ⟨r, known⟩
            exact ⟨r, known, fun was => old (.inr ⟨r, was⟩)⟩
        by_cases turn : run.move k = .step i
        · obtain ⟨-, after⟩ := run.own_step turn before
          rw [found, Option.some.injEq] at after
          have looks := hands k u (Array.mem_of_getElem? before)
          have step := after ▸ step_cases (run.state k).world u
          have reverts : ∃ r, u.agenda = [] ∧ u.control = .revert r := by
            rcases new with ⟨n, x, known, fresh⟩ | ⟨r, known, fresh⟩
            · rcases step.plans known with was | plans
              · exact absurd was fresh
              · cases plans with
                | plain kind => cases kind
                | reset idle host =>
                  rcases host with ⟨ns, env, host⟩ | ⟨r, host⟩
                  · simp [Thread.touches, host] at looks
                  · exact ⟨r, idle, host⟩
                | set _ host => simp [Thread.touches, host] at looks
            · rcases step.release_origin known with was | ⟨idle, r, at'⟩
              · exact absurd was fresh
              · exact ⟨r, idle, at'⟩
          obtain ⟨r, idle, at'⟩ := reverts
          cases free : ((run.state k).world.registry r).busy with
          | false =>
            exact ⟨r, k, Locks.reverting ⟨turn, ⟨u, before, idle, at'⟩, free⟩⟩
          | true =>
            have stays : t = u := by
              simp only [after, Thread.step, idle, Thread.proceed, at', Thread.revert, free, if_true]
            subst stays
            rcases errand with ⟨n, x, known⟩ | ⟨r, known⟩ <;> simp [idle] at known
        · rcases run.not_own_step turn before with stays | ⟨g, as, next, -, passed⟩
          · rw [found] at stays
            cases stays
            rcases new with ⟨n, x, known, fresh⟩ | ⟨r, known, fresh⟩ <;> exact absurd known fresh
          · rw [found] at passed
            cases passed
            rcases new with ⟨n, x, known, fresh⟩ | ⟨r, known, fresh⟩ <;>
              exact absurd (next ▸ List.mem_cons_of_mem _ known) fresh
    · rcases errand with ⟨n, x, known⟩ | ⟨r, known⟩ <;> simp [idle] at known

/-! ## The lock -/

theorem reverting_of_empties (hands : run.NeverTouches) (empties : run.Empties i r k) :
    ∃ a, run.Reverting i r a k := by
  obtain ⟨t, as, found, next⟩ := empties.next
  obtain ⟨r', a, rev⟩ := reverting_of_errand hands found (.inr ⟨r, by simp [next]⟩)
  obtain ⟨u, v, done, todo, stage⟩ := rev.stage
  obtain rfl : u = t := Option.some.inj (stage.found.symm.trans found)
  obtain rfl : r = r' := stage.reverting.releases (by simp [next])
  exact ⟨a, rev⟩

/-- While a registry is locked, it keeps what it holds. -/
theorem Reverting.locked (hands : run.NeverTouches) {k : Nat} :
    ∀ {i : ThreadId} {a : Nat}, run.Reverting i r a k →
      ((run.state k).world.registry r).busy = true ∧ run.held r k = run.held r a ∧
        ∀ {j : ThreadId} {b : Nat}, run.Reverting j r b k → i = j ∧ a = b := by
  induction k using Nat.strongRecOn with
  | ind k ih =>
    have unique : ∀ {i j : ThreadId} {a b : Nat}, run.Reverting i r a k → run.Reverting j r b k →
        ¬ a < b := by
      intro i j a b rev other lt
      have busy := (ih b other.before (rev.earlier lt (Nat.le_of_lt other.before))).1
      rw [other.locks.free] at busy
      cases busy
    intro i a rev
    have same : ∀ {j : ThreadId} {b : Nat}, run.Reverting j r b k → i = j ∧ a = b := by
      intro j b other
      obtain rfl := Nat.le_antisymm (Nat.not_lt.1 (unique other rev)) (Nat.not_lt.1 (unique rev other))
      have turn := rev.locks.turn
      rw [other.locks.turn] at turn
      cases turn
      exact ⟨rfl, rfl⟩
    obtain ⟨k, rfl⟩ : ∃ m, k = m + 1 := ⟨k - 1, by have := rev.before; omega⟩
    rcases Nat.lt_succ_iff_lt_or_eq.1 rev.before with before | rfl
    · have was := rev.earlier before (Nat.le_succ k)
      obtain ⟨busy, held, sole⟩ := ih k (Nat.lt_succ_self k) was
      refine ⟨?_, ?_, same⟩
      all_goals
        cases run.keeping r k with
        | stays constants stays => first | exact stays.trans busy | exact constants.trans held
        | records records =>
          rw [records.free] at busy
          cases busy
        | locks locks =>
          rw [locks.free] at busy
          cases busy
        | empties empties =>
          obtain ⟨b, other⟩ := reverting_of_empties hands empties
          obtain ⟨rfl, rfl⟩ := sole other
          exact absurd empties (rev.since k before (Nat.lt_succ_self k))
    · refine ⟨?_, ?_, same⟩
      · rw [rev.locks.registry]
        rfl
      · rw [held, rev.locks.registry]
        rfl

/-! ## What is reset -/

theorem Reverts.stage (rev : run.Reverts i r a e) :
    ∃ t v, run.Stage i r a e t v (run.held r a) [] := by
  obtain ⟨t, v, done, todo, stage⟩ := rev.toReverting.stage
  obtain ⟨rfl, -⟩ := stage.last rev.empties
  have all : run.held r a = done := stage.split.trans (List.append_nil done)
  exact ⟨t, v, all ▸ stage⟩

/-- With the registry emptied, the number of constants is what the thread gives back. -/
theorem Reverts.returned (rev : run.Reverts i r a e) :
    ∃ t v, (run.state (e + 1)).threads[i]? = some t ∧ t.control = .give v ∧
      t.agenda = [.emit (.reverted r (run.held r a).length)] ∧
      (run.state (e + 1)).world.value? v =
        some (.scalar (.long (.ofNat (run.held r a).length))) := by
  obtain ⟨t, v, stage⟩ := rev.stage
  obtain ⟨-, agenda⟩ := stage.last rev.empties
  obtain ⟨-, after⟩ := run.own_step rev.empties.turn stage.found
  rw [Thread.step, agenda] at after
  exact ⟨_, v, after, stage.reverting.1, rfl,
    (run.evolves (Nat.le_succ e)).value v _ stage.result⟩

theorem Reverts.emptied (rev : run.Reverts i r a e) : run.held r (e + 1) = [] := by
  rw [held, rev.empties.registry]
  rfl

theorem Reverts.unsets (rev : run.Reverts i r a e) (known : n ∈ run.held r a) :
    ∃ d, a < d ∧ d < e ∧ run.Unsets i n d := by
  obtain ⟨t, v, stage⟩ := rev.stage
  exact stage.unset n known

theorem Unsets.after (unsets : run.Unsets i n d) :
    (run.state (d + 1)).world = (run.state d).world.write n none ∧
      ∃ t as, (run.state (d + 1)).threads[i]? = some t ∧
        t.agenda = ((((run.state d).world.slot n).queue?).map fun q =>
          [Action.drain q .silent]).getD [] ++ as := by
  obtain ⟨t, as, found, next⟩ := unsets.next
  obtain ⟨world, after⟩ := run.own_step unsets.turn found
  rw [Thread.step, next] at world after
  exact ⟨world, _, as, after, rfl⟩

theorem Unsets.slot (unsets : run.Unsets i n d) :
    ((run.state (d + 1)).world.slot n).cell = none := by
  rw [unsets.after.1]
  cases found : (run.state d).world.thunk? n with
  | none => rw [World.slot_write_of_none found, World.slot_of_none found]
  | some th =>
    rw [World.slot_write_self found]
    rfl

/-! ## Who is woken -/

/-- An errand is done before the thread comes to an end of its errands. -/
theorem errand_done {x : Action} {t : Thread} (found : (run.state d).threads[i]? = some t)
    (known : x ∈ t.agenda) (busy : ∀ g, x ≠ .gate g) (le : d ≤ e) :
    (∃ u, (run.state e).threads[i]? = some u ∧ x ∈ u.agenda) ∨
      ∃ c, d ≤ c ∧ c < e ∧ run.move c = .step i ∧
        ∃ u as, (run.state c).threads[i]? = some u ∧ u.agenda = x :: as := by
  induction le with
  | refl => exact .inl ⟨t, found, known⟩
  | @step e le ih =>
    rcases ih with ⟨u, there, left⟩ | ⟨c, low, high, done⟩
    · by_cases turn : run.move e = .step i
      · obtain ⟨-, after⟩ := run.own_step turn there
        rcases (step_cases (run.state e).world u).agenda_kept left with kept | ⟨as, next⟩
        · exact .inl ⟨_, after, kept⟩
        · exact .inr ⟨e, le, Nat.lt_succ_self e, turn, u, as, there, next⟩
      · rcases run.not_own_step turn there with stays | ⟨g, as, next, -, passed⟩
        · exact .inl ⟨u, stays, left⟩
        · refine .inl ⟨_, passed, ?_⟩
          rw [next] at left
          exact List.mem_of_ne_of_mem (busy g) left
    · exact .inr ⟨c, low, Nat.lt_succ_of_lt high, done⟩

/-- A queue that nobody made for himself stays so. -/
theorem unowned_kept (known : ((run.state d).world.queue? q).isSome)
    (unowned : ∀ (j : ThreadId) u, (run.state d).threads[j]? = some u → ¬ u.Owns q) (le : d ≤ e) :
    ∀ (j : ThreadId) u, (run.state e).threads[j]? = some u → ¬ u.Owns q := by
  induction le with
  | refl => exact unowned
  | @step e le ih =>
    intro j u found owns
    rcases (run.change e).split with rests | ⟨i, t, t', turns, -⟩
    · rcases rests.others j u found with old | fresh
      · exact ih j u old owns
      · exact fresh.not_owns owns
    · obtain ⟨v, old, was, -⟩ := owner_turns turns ((run.evolves le).knows known) found owns
      exact ih j v old was

/-- A message stays in its queue until somebody closes the queue to wake all who wait in it. -/
theorem message_goes {m : Message} {Q : Queue} (there : (run.state d).world.queue? q = some Q)
    (open' : Q.closed = false) (known : m ∈ Q.messages)
    (unowned : ∀ (j : ThreadId) u, (run.state d).threads[j]? = some u → ¬ u.Owns q) (le : d ≤ e) :
    (∃ Q, (run.state e).world.queue? q = some Q ∧ m ∈ Q.messages ∧ Q.closed = false) ∨
      (∃ u ∈ (run.state e).threads, .wake m.task ∈ u.agenda) ∨
      ∃ c, d ≤ c ∧ c < e ∧ run.Wakes m.task c := by
  induction le with
  | refl => exact .inl ⟨Q, there, known, open'⟩
  | @step e le ih =>
    have before := unowned_kept (by simp [there]) unowned le
    rcases ih with ⟨R, is, known, open'⟩ | ⟨u, mem, wake⟩ | ⟨c, low, high, wakes⟩
    · rcases (run.change e).split with rests | ⟨i, t, t', turns, -⟩
      · exact .inl ⟨R, (rests.still.queue q).trans is, known, open'⟩
      · rcases turns.step.message_kept is known open' with kept | ⟨-, wake⟩ | sealed
        · exact .inl kept
        · exact .inr (.inl ⟨t', Array.mem_of_getElem? turns.after, wake⟩)
        · exact absurd (.inr sealed) (before i t turns.before)
    · cases permits : (run.state e).permits (run.move e) m.task with
      | true =>
        exact .inr (.inr ⟨e, le, Nat.lt_succ_self e, wakes_of_permits there known le permits⟩)
      | false =>
        rcases (run.change e).split with rests | ⟨i, t, t', turns, moved⟩
        · exact .inr (.inl ⟨u, rests.mem mem, wake⟩)
        · exact .inr (.inl (wake_turns turns moved permits ⟨u, mem, wake⟩))
    · exact .inr (.inr ⟨c, low, Nat.lt_succ_of_lt high, wakes⟩)

section

variable (rev : run.Reverts i r a e) (unsets : run.Unsets i n d) (high : d < e) {o : TaskId}
  (displaced : ((run.state d).world.slot n).cell = some (.queue q o))

include rev unsets high displaced

theorem Reverts.closed : (run.state e).world.Closed q := by
  obtain ⟨world, t, as, found, agenda⟩ := unsets.after
  rw [Slot.queue?_eq_some.2 ⟨o, displaced⟩] at agenda
  obtain ⟨Q, there, -⟩ := (run.queued d).slots n q o displaced
  rcases errand_done found (x := .drain q .silent) (by simp [agenda]) (by simp) high with
    ⟨u, last, left⟩ | ⟨c, low, lt, turn, u, as, there', next⟩
  · obtain ⟨v, result, stage⟩ := rev.stage
    obtain rfl : v = u := Option.some.inj (stage.found.symm.trans last)
    rw [(stage.last rev.empties).2] at left
    simp at left
  · obtain ⟨after, -⟩ := run.own_step turn there'
    obtain ⟨Q', there', -⟩ := (run.evolves (Nat.le_of_succ_le low)).queue q Q there
    have closed : (run.state (c + 1)).world.Closed q := by
      refine ⟨Q'.close, ?_, rfl⟩
      rw [after, Thread.step, next]
      simp only [Action.perform, World.queue?_close, if_true, there', Option.map_some]
    exact (run.evolves lt).closed closed

/-- Whoever waits in a displaced queue before the revert is over has been woken by then, unless the
one who is to wake him has still to do it. -/
theorem Reverts.woken {c : Nat} (low : d ≤ c) (le : c ≤ e) {Q : Queue} {m : Message}
    (there : (run.state c).world.queue? q = some Q) (open' : Q.closed = false)
    (known : m ∈ Q.messages) :
    (∃ u ∈ (run.state e).threads, .wake m.task ∈ u.agenda) ∨
      ∃ b, c ≤ b ∧ b < e ∧ run.Wakes m.task b := by
  have slots := (run.queued d).slots n q o displaced
  have unowned : ∀ (j : ThreadId) u, (run.state d).threads[j]? = some u → ¬ u.Owns q :=
    fun j u found owns => (run.queued d).apart j u q found owns n o displaced
  have unowned := unowned_kept (by obtain ⟨Q, is, -⟩ := slots; simp [is]) unowned low
  rcases message_goes there open' known unowned le with ⟨R, is, -, still⟩ | gone
  · obtain ⟨S, is', closed⟩ := rev.closed unsets high displaced
    rw [is] at is'
    cases is'
    rw [still] at closed
    cases closed
  · exact gone

end

/-! ## What else changes -/

/-- The moves of the thread that reverts change nothing but the slots of the recorded constants. -/
theorem Reverts.spares (rev : run.Reverts i r a e) (low : a ≤ d) (le : d ≤ e)
    (turn : run.move d = .step i) :
    (run.state d).world.Spares (run.state (d + 1)).world r (run.held r a) := by
  rcases Nat.lt_or_eq_of_le low with after | rfl
  · rcases Nat.lt_or_eq_of_le le with before | rfl
    · obtain ⟨t, v, done, todo, stage⟩ := (rev.toReverting.earlier after le).stage
      obtain ⟨world, -⟩ := run.own_step turn stage.found
      rw [world]
      rcases stage.reverting.step (run.state d).world with ⟨-, heap, registries, -⟩ |
        ⟨m, rest, as, rfl, -, -, written⟩ | ⟨-, next⟩
      · exact World.spares_of_heap heap registries
      · rw [written]
        exact World.spares_write (by rw [stage.split]; simp) none
      · exact absurd ⟨turn, t, _, stage.found, next⟩ (rev.since d after before)
    · rw [rev.empties.after]
      exact World.spares_setRegistry rfl rfl
  · obtain ⟨t, v, -, -, world, -⟩ := rev.locks.after
    rw [world]
    exact (World.spares_setRegistry (x := Registry.lock _) rfl rfl).alloc rfl _

/-! ## That it ends -/

theorem Stage.pauses {t : Thread} {done todo : List NodeId}
    (stage : run.Stage i r a (k + 1) t v done todo) (lt : k < d) (pauses : run.Pauses i k d) :
    (run.state d).threads[i]? = some t := by
  induction lt with
  | refl => exact stage.found
  | @step d lt ih =>
    have found := ih fun c low high => pauses c low (Nat.lt_succ_of_lt high)
    rcases run.not_own_step (pauses d lt (Nat.lt_succ_self d)) found with stays | ⟨g, as, next, -⟩
    · exact stays
    · exact absurd next (stage.reverting.not_gate g as)

/-- A thread that has locked a registry empties it, if it gets to run. -/
theorem Reverting.ends {k : Nat} (rev : run.Reverting i r a (k + 1)) {t : Thread}
    (found : (run.state (k + 1)).threads[i]? = some t)
    (turns : ∀ k, ∃ d > k, run.move d = .step i) : ∃ e, run.Reverts i r a e := by
  obtain ⟨u, v, done, todo, stage⟩ := rev.stage
  obtain rfl : t = u := Option.some.inj (found.symm.trans stage.found)
  obtain ⟨next, after, turn⟩ := turns k
  obtain ⟨d, low, -, turn, pauses⟩ := first_turn after turn
  have found := stage.pauses low pauses
  have rev : run.Reverting i r a d := by
    refine ⟨rev.locks, Nat.lt_of_lt_of_le rev.before low, fun c above high empties => ?_⟩
    by_cases early : c < k + 1
    · exact rev.since c above early empties
    · exact pauses c (by omega) high empties.turn
  by_cases empties : run.Empties i r d
  · exact ⟨d, rev, empties⟩
  · obtain ⟨-, after⟩ := run.own_step turn found
    have less : Prod.Lex (· < ·) (Prod.Lex (· < ·) (· < ·)) (t.step (run.state d).world).2.rank
        t.rank := by
      refine stage.reverting.rank _ fun next => empties ?_
      obtain ⟨as, next⟩ := List.head?_eq_some_iff.1 next
      exact ⟨turn, t, as, found, next⟩
    exact (rev.on empties).ends after turns
termination_by t.rank
decreasing_by exact less

end Run

end LazyGraph

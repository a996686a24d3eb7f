import LazyGraph.Proofs.Pools

/-!
# Jobs are isolated

Workers that do not sleep take every job that a pool is handed, and no job meets another one but in
the thunks that they share.
-/

namespace LazyGraph

namespace Service

variable {service : Service} {e e' : Engagement} {code code' : Code} {env env' : Env}
  {o : Thread.Outcome} {j k d job : Nat}

/-! ## Closing the pool -/

theorem load_next (closes : service.Closes d) (le : d ≤ k) :
    service.pool (k + 1) = service.pool k ∨
      (service.pool (k + 1)).load < (service.pool k).load := by
  cases serves service k with
  | machine _ _ _ pool | nothing _ pool => exact .inl pool
  | submit moved => exact absurd moved (closes k le _ _)
  | @take i e _ _ _ moved hires _ pool =>
    have engaged := (perm_hired (e := e) hires.idle).length_eq
    have queue := congrArg List.length hires.first
    rw [List.length_cons] at engaged queue
    simp only [Pool.load, pool]
    omega
  | collect moved fires _ pool =>
    have engaged := (perm_fired fires.engaged).length_eq
    rw [List.length_cons] at engaged
    simp only [Pool.load, pool]
    omega

theorem load_later (closes : service.Closes d) (le : d ≤ j) (le' : j ≤ k) :
    service.pool k = service.pool j ∨ (service.pool k).load < (service.pool j).load := by
  induction le' with
  | refl => exact .inl rfl
  | @step k le' ih =>
    rcases load_next closes (Nat.le_trans le le') with same | less
    · exact same ▸ ih
    · refine .inr ?_
      rcases ih with same | less'
      · exact same ▸ less
      · exact Nat.lt_trans less less'

/-- While its pool stays as it is, no worker has a job: it would end and be put away. -/
theorem idle_of_stuck (diligent : service.Diligent) (terminates : service.Terminates)
    (stuck : ∀ j ≥ k, service.pool j = service.pool k) :
    ∀ worker ∈ (service.pool k).workers, worker = none := by
  rintro (_ | e) known
  · rfl
  obtain ⟨i, engaged⟩ := List.mem_iff_getElem?.1 known
  obtain ⟨l, -, code, env, takes⟩ := (service.accounts k).engaged e known
  obtain ⟨m, o, ended⟩ := terminates e code env l takes
  obtain ⟨j, late, moved⟩ := diligent.collects (max k m) i e o fun j le =>
    ⟨by rw [stuck j (by omega), engaged], ended.mono (by omega)⟩
  obtain ⟨t, thread, outcome⟩ := ended.mono (k := j) (by omega)
  have fires : Pool.Fires (service.state j) (service.pool j) i e t o :=
    ⟨by rw [stuck j (by omega), engaged], thread, outcome⟩
  have filed := congrArg (List.length ∘ Pool.results)
    ((stuck (j + 1) (by omega)).trans (stuck j (by omega)).symm)
  rw [pool_succ, moved, Pool.serve, Pool.collect_of_fires fires] at filed
  simp at filed

theorem rests_of_stuck (diligent : service.Diligent) (terminates : service.Terminates)
    (stuck : ∀ j ≥ k, service.pool j = service.pool k) : service.Rests k := by
  have idle := idle_of_stuck diligent terminates stuck
  refine ⟨?_, idle⟩
  by_contra waits
  have staffed := service.staffed k
  have staff : 0 < service.config.groupSize := by
    rw [Config.groupSize]
    omega
  have bound := staffed.workers ▸ staff
  have worker : (service.pool k).workers[0]? = some none := by
    rw [List.getElem?_eq_getElem bound, idle _ (List.getElem_mem bound)]
  obtain ⟨capability, known⟩ : ∃ capability, (service.pool k).capabilities[0]? = some capability :=
    ⟨_, List.getElem?_eq_getElem (staffed.capabilities ▸ staff)⟩
  obtain ⟨j, late, moved⟩ := diligent.takes k 0 fun j le => stuck j le ▸ ⟨waits, worker⟩
  obtain ⟨⟨job, code, env⟩, queue, first⟩ := List.exists_cons_of_ne_nil waits
  have hires : Pool.Hires (service.state j) (service.pool j) 0
      ⟨job, (service.state j).world.contexts.size, (service.state j).threads.size⟩ code env
      capability := by
    rw [stuck j late]
    exact ⟨by rw [first, List.tail_cons], worker, known, rfl, rfl⟩
  have shorter := congrArg (List.length ∘ Pool.queue)
    ((stuck (j + 1) (by omega)).trans (stuck j late).symm)
  rw [pool_succ, moved, Pool.serve, Pool.take_of_hires hires, stuck j late] at shorter
  simp [first] at shorter

theorem rests_at_last (closes : service.Closes d) (diligent : service.Diligent)
    (terminates : service.Terminates) : ∃ k ≥ d, service.Rests k := by
  suffices after : ∀ (load k : Nat), d ≤ k → (service.pool k).load = load →
      ∃ j ≥ k, service.Rests j from after _ d (Nat.le_refl d) rfl
  intro load
  induction load using Nat.strongRecOn with
  | _ load ih =>
    intro k le is
    by_cases stuck : ∀ j ≥ k, service.pool j = service.pool k
    · exact ⟨k, Nat.le_refl k, rests_of_stuck diligent terminates stuck⟩
    · obtain ⟨j, le', other⟩ : ∃ j ≥ k, service.pool j ≠ service.pool k := by simpa using stuck
      have less := (load_later closes le le').resolve_left other
      obtain ⟨l, later, rests⟩ := ih _ (is ▸ less) j (Nat.le_trans le le') rfl
      exact ⟨l, Nat.le_trans le' later, rests⟩

theorem Rests.stays (rests : service.Rests j) (closes : service.Closes d) (le : d ≤ j)
    (le' : j ≤ k) : service.pool k = service.pool j := by
  obtain ⟨queue, idle⟩ := rests
  refine (load_later closes le le').resolve_right fun less => ?_
  have none : (service.pool j).workers.filterMap id = [] := by
    refine List.filterMap_eq_nil_iff.2 fun worker known => ?_
    exact idle worker known
  rw [Pool.load, Pool.load, none, queue] at less
  exact absurd less (Nat.not_lt_zero _)

theorem Rests.rests (rests : service.Rests j) (closes : service.Closes d) (le : d ≤ j)
    (le' : j ≤ k) : service.Rests k := by
  unfold Rests
  rw [rests.stays closes le le']
  exact rests

/-! ## What a job is given and what it gives -/

/-- The code of the job is alone on a new task and a new context, where no thunk is being evaluated
and the registers are empty. -/
structure Fresh (service : Service) (e : Engagement) (code : Code) (env : Env) (j : Nat) :
    Prop where
  context : ∃ capability ∈ (service.pool j).capabilities,
    (service.state (j + 1)).world.contexts[e.context]? = some
      { task := (service.state j).world.tasks.size, capability, config := service.config,
        interpreter := service.interpreter, stack := {}, registers := {} }
  thread : (service.state (j + 1)).threads[e.thread]? =
    some { context := e.context, mayStop := service.mayStop, control := .run code env }
  alone : ∀ k > j, (service.state k).Sole e.context e.thread (service.state j).world.tasks.size
  own : ∀ k > j, ∀ c < (service.state k).world.contexts.size,
    (service.state k).world.taskOf c = (service.state j).world.tasks.size → c = e.context

theorem Takes.fresh (takes : service.Takes e code env j) : service.Fresh e code env j := by
  refine ⟨?_, ?_, fun k lt => takes.sole lt, fun k lt c bound same => ?_⟩
  · obtain ⟨i, capability, moved, hires⟩ := takes
    refine ⟨capability, List.mem_of_getElem? hires.capability, ?_⟩
    rw [state_succ, moved, Pool.serve, Pool.take_of_hires hires, State.hire_context, hires.context,
      Array.getElem?_push_size, (service.staffed j).config, (service.staffed j).interpreter]
  · obtain ⟨capability, state, context, thread⟩ := takes.hired
    rw [state, State.hire_threads, thread, Array.getElem?_push_size, context,
      (service.staffed j).mayStop]
  · have sole := takes.sole lt
    exact (service.reaches k).seats.distinct c _ bound sole.seated (same.trans sole.task.symm)

theorem collectJob_kept {p : Pool} {r : JobResult} (found : p.result? job = some r)
    (session : Session) {spec : Session.JobSpec} (kept : spec.kept = true) :
    ((∃ m, r.outcome = .panic m) ∧ (Session.collectJob p session job spec).2 = .dropped) ∨
      (∀ m, r.outcome ≠ .panic m) ∧ (Session.collectJob p session job spec).2 =
        .ended ((session.bindResult spec.name r.outcome).world.written r.outcome) r.depth := by
  obtain ⟨o, depth⟩ := r
  unfold Session.collectJob
  rw [if_pos kept, found]
  cases o with
  | panic m => exact .inl ⟨⟨m, rfl⟩, rfl⟩
  | value | error => exact .inr ⟨nofun, rfl⟩

/-- **Jobs are isolated.** A pool is handed jobs until it is closed, its workers do not sleep, and no
job runs forever. Then at some time no job waits and no worker has one, for good. Every job has been
taken exactly once, with the code it was handed in with, and run on a new task and a new context that
serve nobody else. Whoever waits for its result is told that the job was dropped exactly if it has
panicked, and otherwise gets what it has returned. If the job does not claim thunks itself, its task
owns no thunk any more. -/
theorem jobs_isolated (service : Service) (closes : service.Closes d)
    (diligent : service.Diligent) (terminates : service.Terminates) :
    ∃ l ≥ d, (∀ k ≥ l, service.Rests k) ∧ ∀ job < (service.pool l).submitted,
      ∃ j < l, ∃ e code env r,
        e.job = job ∧ (∃ i < j, service.Submits job code env i) ∧ service.Takes e code env j ∧
        (∀ e' code' env' k, service.Takes e' code' env' k → e'.job = job → k = j) ∧
        service.Fresh e code env j ∧ service.Ended e r.outcome l ∧
        (∀ k ≥ l, (service.pool k).result? job = some r ∧
          ∀ session spec, spec.kept = true →
            ((Session.collectJob (service.pool k) session job spec).2 = .dropped ↔
              ∃ m, r.outcome = .panic m) ∧
            ((∀ m, r.outcome ≠ .panic m) →
              (Session.collectJob (service.pool k) session job spec).2 =
                .ended ((session.bindResult spec.name r.outcome).world.written r.outcome)
                  r.depth)) ∧
        (service.Refrains e → ∀ k ≥ l, ∀ n, ((service.state k).world.slot n).ownedBy
          (service.state j).world.tasks.size = false) := by
  obtain ⟨l, le, rests⟩ := rests_at_last closes diligent terminates
  refine ⟨l, le, fun k le' => rests.rests closes le le', fun job bound => ?_⟩
  have accounts := service.accounts l
  obtain ⟨queue, idle⟩ := rests
  have none : (service.pool l).workers.filterMap id = [] :=
    List.filterMap_eq_nil_iff.2 fun worker known => idle worker known
  have jobs : ((service.pool l).results.map Prod.fst).Perm
      (List.range (service.pool l).submitted) := by
    have all := accounts.jobs
    rwa [queue, none] at all
  obtain ⟨⟨same, r⟩, known, rfl⟩ := List.mem_map.1 (jobs.mem_iff.2 (List.mem_range.2 bound))
  obtain ⟨j, lt, e, code, env, takes, rfl, ended⟩ := accounts.filed _ r known
  have result : (service.pool l).result? e.job = some r :=
    lookup_of_nodup (jobs.nodup_iff.2 List.nodup_range) known
  refine ⟨j, lt, e, code, env, r, rfl, takes.submitted, takes,
    fun e' code' env' k takes' same => takes.unique takes' same, takes.fresh, ended, ?_, ?_⟩
  · intro k le'
    have result : (service.pool k).result? e.job = some r := by
      rw [Rests.stays ⟨queue, idle⟩ closes le le', result]
    refine ⟨result, fun session spec kept => ?_⟩
    rcases collectJob_kept result session kept with ⟨panicked, dropped⟩ | ⟨returned, answer⟩
    · obtain ⟨m, is⟩ := panicked
      exact ⟨⟨fun _ => ⟨m, is⟩, fun _ => dropped⟩, fun returned => absurd is (returned m)⟩
    · refine ⟨⟨fun dropped => ?_, fun ⟨m, is⟩ => absurd is (returned m)⟩, fun _ => answer⟩
      rw [answer] at dropped
      cases dropped
  · intro refrains k le' n
    obtain ⟨t, found, outcome⟩ := ended.mono le'
    exact (takes.honours refrains (Nat.lt_of_lt_of_le lt le')).disowned found (by rw [outcome]; rfl)

end Service

/-! ## Services where nobody else runs code -/

def PoolMove.starts : PoolMove → Bool
  | .machine (.start ..) => true
  | _ => false

namespace Service

variable {m : Move}

theorem admits_of_not_starts {s : State} (quiet : (PoolMove.machine m).starts = false) :
    s.admits m = true := by
  cases m <;> first | rfl | cases quiet

theorem spares_of_not_starts {c : ContextId} (quiet : (PoolMove.machine m).starts = false) :
    m.spares c = true := by
  cases m <;> first | rfl | cases quiet

theorem getD_rest {moves : List PoolMove} {k : Nat} (beyond : moves.length ≤ k) :
    moves.getD k (.machine .rest) = .machine .rest := by
  rw [List.getD, List.getElem?_eq_none beyond]
  rfl

theorem quiet_getD {moves : List PoolMove} (quiet : ∀ m ∈ moves, m.starts = false) (k : Nat) :
    (moves.getD k (.machine .rest)).starts = false := by
  by_cases before : k < moves.length
  · rw [← List.getElem_eq_getD (h := before)]
    exact quiet _ (List.getElem_mem before)
  · rw [getD_rest (Nat.not_lt.1 before)]
    rfl

theorem eq_ok_of_isSome {α ε : Type} {x : Except ε α} (sound : x.toOption.isSome = true) :
    x = .ok (x.toOption.get sound) := by
  cases x with
  | error => cases sound
  | ok => rfl

def ofMoves (opened : State) (reached : opened.Reached) (config : Config) (mayStop : Bool)
    (sound : (Pool.start opened.world config none mayStop).toOption.isSome = true)
    (moves : List PoolMove) (quiet : ∀ m ∈ moves, m.starts = false) : Service where
  opened
  reached
  config
  interpreter := none
  mayStop
  world := ((Pool.start opened.world config none mayStop).toOption.get sound).1
  first := ((Pool.start opened.world config none mayStop).toOption.get sound).2
  start := eq_ok_of_isSome sound
  move k := moves.getD k (.machine .rest)
  admitted k _ moved := admits_of_not_starts (moved ▸ quiet_getD quiet k)
  apart _ k _ _ _ _ _ _ _ _ _ moved := spares_of_not_starts (moved ▸ quiet_getD quiet k)

variable {opened : State} {reached : opened.Reached} {config : Config} {mayStop : Bool}
  {sound : (Pool.start opened.world config none mayStop).toOption.isSome = true}
  {moves : List PoolMove} {quiet : ∀ m ∈ moves, m.starts = false}

theorem ofMoves_beyond (beyond : moves.length ≤ k) :
    (ofMoves opened reached config mayStop sound moves quiet).move k = .machine .rest :=
  getD_rest beyond

theorem ofMoves_last (beyond : moves.length ≤ k) :
    (ofMoves opened reached config mayStop sound moves quiet).state k =
        (ofMoves opened reached config mayStop sound moves quiet).state moves.length ∧
      (ofMoves opened reached config mayStop sound moves quiet).pool k =
        (ofMoves opened reached config mayStop sound moves quiet).pool moves.length := by
  induction beyond with
  | refl => exact ⟨rfl, rfl⟩
  | step beyond ih => rwa [state_succ, pool_succ, ofMoves_beyond beyond]

theorem ofMoves_diligent
    (rests : (ofMoves opened reached config mayStop sound moves quiet).Rests moves.length) :
    (ofMoves opened reached config mayStop sound moves quiet).Diligent := by
  refine ⟨fun k i waits => ?_, fun k i e o ended => ?_⟩
  · have last := (waits (max k moves.length) (Nat.le_max_left ..)).1
    rw [(ofMoves_last (Nat.le_max_right ..)).2] at last
    exact absurd rests.1 last
  · have last := (ended (max k moves.length) (Nat.le_max_left ..)).1
    rw [(ofMoves_last (Nat.le_max_right ..)).2] at last
    cases rests.2 _ (List.mem_of_getElem? last)

theorem ofMoves_terminates
    (rests : (ofMoves opened reached config mayStop sound moves quiet).Rests moves.length) :
    (ofMoves opened reached config mayStop sound moves quiet).Terminates := by
  intro e code env k takes
  have lt : k < moves.length := by
    by_contra beyond
    obtain ⟨i, capability, moved, -⟩ := takes
    rw [ofMoves_beyond (Nat.not_lt.1 beyond)] at moved
    cases moved
  rcases (accounts _ moves.length).taken e code env k lt takes with engaged | ⟨r, -, ended⟩
  · cases rests.2 _ engaged
  · exact ⟨_, _, ended⟩

/-- The only worker has a job that panics while it evaluates a thunk, and then one that ends well. -/
def mixed : Service :=
  .ofMoves (({} : State).after (.thunk (.prim (.panic "no") []) []))
    ((State.Reached.start {}).after rfl) { capabilities := some 1, eager := true } true
    (by decide +kernel)
    (List.flatten [
      [.submit (.prim .evaluate [.arg 0 0]) { frames := [[.pointer 0]] },
        .submit (.prim (.data 0 []) []) {}, .take 0],
      .replicate 18 (.machine (.step 0)),
      [.collect 0, .take 0, .machine (.step 1), .collect 0]])
    (by decide +kernel)

theorem jobs_isolated_mixed :
    mixed.Closes 2 ∧ mixed.Diligent ∧ mixed.Terminates ∧
      ((mixed.state 15).world.slot 0).ownedBy 0 = true ∧
      ∃ l ≥ 2, mixed.Rests l ∧ ∀ job < 2, ∃ j e code env r,
        e.job = job ∧ mixed.Takes e code env j ∧ mixed.Fresh e code env j ∧
        (mixed.pool l).result? job = some r ∧ ∀ n,
          ((mixed.state l).world.slot n).ownedBy (mixed.state j).world.tasks.size = false := by
  have rests : mixed.Rests 25 := by
    unfold Rests
    decide +kernel
  have closes : mixed.Closes 2 := by
    intro k le code env moved
    by_cases before : k < 25
    · have quiet : ∀ k < 25, 2 ≤ k → (match mixed.move k with
          | .submit _ _ => false
          | _ => true) = true := by
        decide +kernel
      have handed := quiet k before le
      rw [moved] at handed
      cases handed
    · have last : mixed.move k = .machine .rest := ofMoves_beyond (Nat.not_lt.1 before)
      rw [last] at moved
      cases moved
  have diligent : mixed.Diligent := ofMoves_diligent rests
  have terminates : mixed.Terminates := ofMoves_terminates rests
  have refrains : ∀ e, mixed.Refrains e := by
    intro e k t found
    have within : ∀ k ≤ 25, ∀ t ∈ (mixed.state k).threads, t.claims = false := by
      decide +kernel
    rcases Nat.le_total k 25 with before | beyond
    · exact within k before t (Array.mem_of_getElem? found)
    · have last : mixed.state k = mixed.state 25 := (ofMoves_last beyond).1
      exact within 25 (Nat.le_refl 25) t (Array.mem_of_getElem? (last ▸ found))
  have submitted : ∀ k ≥ 2, (mixed.pool k).submitted = 2 := by
    intro k le
    have within : ∀ k ≤ 25, 2 ≤ k → (mixed.pool k).submitted = 2 := by
      decide +kernel
    rcases Nat.le_total k 25 with before | beyond
    · exact within k before le
    · have last : mixed.pool k = mixed.pool 25 := (ofMoves_last beyond).2
      rw [last]
      exact within 25 (Nat.le_refl 25) (by decide)
  refine ⟨closes, diligent, terminates, by decide +kernel, ?_⟩
  obtain ⟨l, le, always, jobs⟩ := jobs_isolated mixed closes diligent terminates
  refine ⟨l, le, always l (Nat.le_refl l), fun job bound => ?_⟩
  obtain ⟨j, -, e, code, env, r, is, -, takes, -, fresh, -, result, disowned⟩ :=
    jobs job (by rw [submitted l le]; exact bound)
  exact ⟨j, e, code, env, r, is, takes, fresh, (result l (Nat.le_refl l)).1,
    disowned (refrains e) l (Nat.le_refl l)⟩

end Service

end LazyGraph

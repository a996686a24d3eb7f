import LazyGraph.Proofs.Sole
import LazyGraph.Session.Perform

/-!
# The jobs of a pool

A pool serves while the machine makes moves: it is handed jobs, an idle worker takes the first job of
the queue, and a worker whose job has ended puts the result away. Every job is run once, on a task
and a context that no other job has.
-/

namespace LazyGraph

inductive PoolMove
  | machine (m : Move)
  | submit (code : Code) (env : Env)
  | take (i : Nat)
  | collect (i : Nat)

namespace Pool

def serve (s : State) (p : Pool) : PoolMove → State × Pool
  | .machine m => (s.after m, p)
  | .submit code env => (s, p.submit code env)
  | .take i => take s p i
  | .collect i => collect s p i

def trace (s : State) (p : Pool) (move : Nat → PoolMove) : Nat → State × Pool
  | 0 => (s, p)
  | k + 1 => serve (trace s p move k).1 (trace s p move k).2 (move k)

/-- Worker `i` is idle and can take the first job. -/
structure Hires (s : State) (p : Pool) (i : Nat) (e : Engagement) (code : Code) (env : Env)
    (capability : CapabilityId) : Prop where
  first : p.queue = (e.job, code, env) :: p.queue.tail
  idle : p.workers[i]? = some none
  capability : p.capabilities[i]? = some capability
  context : e.context = s.world.contexts.size
  thread : e.thread = s.threads.size

/-- The job of worker `i` has ended. -/
structure Fires (s : State) (p : Pool) (i : Nat) (e : Engagement) (t : Thread)
    (o : Thread.Outcome) : Prop where
  engaged : p.workers[i]? = some (some e)
  thread : s.threads[e.thread]? = some t
  outcome : t.outcome? = some o

/-- What the workers still have to do. -/
def load (p : Pool) : Nat :=
  2 * p.queue.length + (p.workers.filterMap id).length

variable {s : State} {p : Pool} {i : Nat} {e : Engagement} {code : Code} {env : Env}
  {capability : CapabilityId} {t : Thread} {o : Thread.Outcome}

theorem take_of_hires (hires : Hires s p i e code env capability) :
    take s p i = (s.hire capability p.config p.interpreter p.mayStop code env,
      { p with queue := p.queue.tail, workers := p.workers.set i (some e) }) := by
  obtain ⟨first, idle, known, context, thread⟩ := hires
  obtain ⟨job, c, i⟩ := e
  cases context
  cases thread
  unfold take
  rw [first, idle, known]
  rfl

theorem take_cases (s : State) (p : Pool) (i : Nat) :
    take s p i = (s, p) ∨ ∃ e code env capability, Hires s p i e code env capability := by
  cases queue : p.queue with
  | nil => exact .inl (by simp [take, queue])
  | cons first queue' =>
    obtain ⟨job, code, env⟩ := first
    cases idle : p.workers[i]? with
    | none => exact .inl (by simp [take, queue, idle])
    | some worker =>
      cases worker with
      | some e => exact .inl (by simp [take, queue, idle])
      | none =>
        cases known : p.capabilities[i]? with
        | none => exact .inl (by simp [take, queue, idle, known])
        | some capability =>
          exact .inr ⟨⟨job, s.world.contexts.size, s.threads.size⟩, code, env, capability,
            by simp [queue], idle, known, rfl, rfl⟩

/-- The context of a job that has panicked is mentioned in the log. -/
def mourned (s : State) (e : Engagement) : Thread.Outcome → State
  | .panic _ => s.after (.jobPanicked e.context)
  | _ => s

theorem collect_of_fires (fires : Fires s p i e t o) :
    collect s p i = (mourned s e o,
      { p with
        workers := p.workers.set i none
        results := p.results ++ [(e.job, ⟨o, (s.world.context e.context).stack.depth⟩)] }) := by
  obtain ⟨engaged, thread, outcome⟩ := fires
  unfold collect
  rw [engaged]
  simp only [thread, Option.bind_some, outcome]
  cases o <;> rfl

theorem collect_cases (s : State) (p : Pool) (i : Nat) :
    collect s p i = (s, p) ∨ ∃ e t o, Fires s p i e t o := by
  cases engaged : p.workers[i]? with
  | none => exact .inl (by simp [collect, engaged])
  | some worker =>
    cases worker with
    | none => exact .inl (by simp [collect, engaged])
    | some e =>
      cases thread : s.threads[e.thread]? with
      | none => exact .inl (by simp [collect, engaged, thread])
      | some t =>
        cases outcome : t.outcome? with
        | none => exact .inl (by simp [collect, engaged, thread, outcome])
        | some o => exact .inr ⟨e, t, o, engaged, thread, outcome⟩

/-! ## Starting a pool -/

theorem reached_addGroup (map : Nat) (traced : Bool) (count : Nat) :
    ∀ {w : World} {threads : Array Thread}, State.Reached ⟨w, threads⟩ →
      State.Reached ⟨(addGroup map traced count w).1, threads⟩ := by
  induction count with
  | zero => exact fun reached => reached
  | succ count ih => exact fun reached => ih (reached.after (m := .capability map none traced) rfl)

theorem length_addGroup (map : Nat) (traced : Bool) (count : Nat) :
    ∀ w, (addGroup map traced count w).2.length = count := by
  induction count with
  | zero => exact fun w => rfl
  | succ count ih => exact fun w => congrArg Nat.succ (ih _)

structure Started (s : State) (config : Config) (interpreter : Option Interpreter)
    (mayStop : Bool) (w : World) (p : Pool) : Prop where
  reached : State.Reached ⟨w, s.threads⟩
  configured : p.config = config
  interpreted : p.interpreter = interpreter
  stops : p.mayStop = mayStop
  idle : p.workers = List.replicate config.groupSize none
  capabilities : p.capabilities.length = config.groupSize
  queue : p.queue = []
  submitted : p.submitted = 0
  results : p.results = []

theorem started {config : Config} {interpreter : Option Interpreter} {mayStop : Bool} {w : World}
    (reached : s.Reached) (start : start s.world config interpreter mayStop = .ok (w, p)) :
    Started s config interpreter mayStop w p := by
  unfold Pool.start at start
  split at start
  · cases start
  · cases start
    have mapped : State.Reached ⟨(addMap s.world).1, s.threads⟩ :=
      reached.after (m := .map) rfl
    have grouped := reached_addGroup (addMap s.world).2 config.debug.scheduler config.groupSize
      mapped
    have length := length_addGroup (addMap s.world).2 config.debug.scheduler config.groupSize
      (addMap s.world).1
    exact ⟨grouped.after (m := .poolStarted _) rfl, rfl, rfl, rfl,
      (List.map_const' ..).trans (congrArg (List.replicate · none) length), length, rfl, rfl, rfl⟩

end Pool

/-! ## A pool in service -/

/-- A pool is started and serves. Nobody else runs code on the contexts of its jobs. -/
structure Service where
  opened : State
  reached : opened.Reached
  config : Config
  interpreter : Option Interpreter
  mayStop : Bool
  world : World
  first : Pool
  start : Pool.start opened.world config interpreter mayStop = .ok (world, first)
  move : Nat → PoolMove
  admitted : ∀ k m, move k = .machine m →
    (Pool.trace ⟨world, opened.threads⟩ first move k).1.admits m = true
  apart : ∀ j k i e code env capability m, j < k → move j = .take i →
    Pool.Hires (Pool.trace ⟨world, opened.threads⟩ first move j).1
      (Pool.trace ⟨world, opened.threads⟩ first move j).2 i e code env capability →
    move k = .machine m → m.spares e.context = true

namespace Service

variable (service : Service)

def state (k : Nat) : State :=
  (Pool.trace ⟨service.world, service.opened.threads⟩ service.first service.move k).1

def pool (k : Nat) : Pool :=
  (Pool.trace ⟨service.world, service.opened.threads⟩ service.first service.move k).2

/-- Job `job` is to run `code`. -/
def Submits (job : Nat) (code : Code) (env : Env) (k : Nat) : Prop :=
  service.move k = .submit code env ∧ (service.pool k).submitted = job

/-- At time `k` a worker takes a job and starts it. -/
def Takes (e : Engagement) (code : Code) (env : Env) (k : Nat) : Prop :=
  ∃ i capability, service.move k = .take i ∧
    Pool.Hires (service.state k) (service.pool k) i e code env capability

/-- At time `k` the job has ended with outcome `o`. -/
def Ended (e : Engagement) (o : Thread.Outcome) (k : Nat) : Prop :=
  ∃ t, (service.state k).threads[e.thread]? = some t ∧ t.outcome? = some o

/-- No job waits, and no worker has one. -/
def Rests (k : Nat) : Prop :=
  (service.pool k).queue = [] ∧ ∀ worker ∈ (service.pool k).workers, worker = none

/-- From time `k` on the pool is handed no jobs. -/
def Closes (k : Nat) : Prop :=
  ∀ j ≥ k, ∀ code env, service.move j ≠ .submit code env

/-- The workers do not sleep: one that is idle while jobs wait takes one at some time, and one whose
job has ended puts the result away. -/
structure Diligent : Prop where
  takes : ∀ k i, (∀ j ≥ k, (service.pool j).queue ≠ [] ∧ (service.pool j).workers[i]? = some none) →
    ∃ j ≥ k, service.move j = .take i
  collects : ∀ k i e o, (∀ j ≥ k, (service.pool j).workers[i]? = some (some e) ∧
    service.Ended e o j) → ∃ j ≥ k, service.move j = .collect i

/-- No job runs forever. -/
def Terminates : Prop :=
  ∀ e code env k, service.Takes e code env k → ∃ d o, service.Ended e o d

variable {e e' : Engagement} {code code' : Code} {env env' : Env} {o : Thread.Outcome}
  {j k d job : Nat}

theorem started :
    Pool.Started service.opened service.config service.interpreter service.mayStop service.world
      service.first :=
  Pool.started service.reached service.start

theorem state_succ (k : Nat) : service.state (k + 1) =
    (Pool.serve (service.state k) (service.pool k) (service.move k)).1 :=
  rfl

theorem pool_succ (k : Nat) : service.pool (k + 1) =
    (Pool.serve (service.state k) (service.pool k) (service.move k)).2 :=
  rfl

/-- What a service does next. -/
inductive Serves (k : Nat) : Prop
  | machine {m : Move} (moved : service.move k = .machine m)
      (admitted : (service.state k).admits m = true)
      (state : service.state (k + 1) = (service.state k).after m)
      (pool : service.pool (k + 1) = service.pool k)
  | submit {code : Code} {env : Env} (moved : service.move k = .submit code env)
      (state : service.state (k + 1) = service.state k)
      (pool : service.pool (k + 1) = (service.pool k).submit code env)
  | take {i : Nat} {e : Engagement} {code : Code} {env : Env} {capability : CapabilityId}
      (moved : service.move k = .take i)
      (hires : Pool.Hires (service.state k) (service.pool k) i e code env capability)
      (state : service.state (k + 1) = (service.state k).hire capability (service.pool k).config
        (service.pool k).interpreter (service.pool k).mayStop code env)
      (pool : service.pool (k + 1) = { service.pool k with
        queue := (service.pool k).queue.tail
        workers := (service.pool k).workers.set i (some e) })
  | collect {i : Nat} {e : Engagement} {t : Thread} {o : Thread.Outcome}
      (moved : service.move k = .collect i)
      (fires : Pool.Fires (service.state k) (service.pool k) i e t o)
      (state : service.state (k + 1) = Pool.mourned (service.state k) e o)
      (pool : service.pool (k + 1) = { service.pool k with
        workers := (service.pool k).workers.set i none
        results := (service.pool k).results ++
          [(e.job, ⟨o, ((service.state k).world.context e.context).stack.depth⟩)] })
  | nothing (state : service.state (k + 1) = service.state k)
      (pool : service.pool (k + 1) = service.pool k)

theorem serves (k : Nat) : service.Serves k := by
  have state := service.state_succ k
  have pool := service.pool_succ k
  cases moved : service.move k with
  | machine m =>
    rw [moved] at state pool
    exact .machine moved (service.admitted k m moved) state pool
  | submit code env =>
    rw [moved] at state pool
    exact .submit moved state pool
  | take i =>
    rw [moved] at state pool
    simp only [Pool.serve] at state pool
    rcases Pool.take_cases (service.state k) (service.pool k) i with
      none | ⟨e, code, env, capability, hires⟩
    · rw [none] at state pool
      exact .nothing state pool
    · rw [Pool.take_of_hires hires] at state pool
      exact .take moved hires state pool
  | collect i =>
    rw [moved] at state pool
    simp only [Pool.serve] at state pool
    rcases Pool.collect_cases (service.state k) (service.pool k) i with none | ⟨e, t, o, fires⟩
    · rw [none] at state pool
      exact .nothing state pool
    · rw [Pool.collect_of_fires fires] at state pool
      exact .collect moved fires state pool

/-! ### What happens to the state -/

variable {service}

theorem preserves {P : State → Prop}
    (each : ∀ s m, s.Reached → s.admits m = true → s.threads = (service.state k).threads →
      (service.move k = .machine m ∨
        ∀ c < (service.state k).world.contexts.size, m.spares c = true) → P s → P (s.after m))
    (reached : (service.state k).Reached) (start : P (service.state k)) :
    P (service.state (k + 1)) := by
  cases serves service k with
  | machine moved admitted state =>
    rw [state]
    exact each _ _ reached admitted rfl (.inl moved) start
  | submit _ state | nothing state => exact state ▸ start
  | @take _ _ _ _ capability _ _ state =>
    rw [state]
    have seated := each _ (.seat none capability (service.pool k).config
      (service.pool k).interpreter) reached rfl rfl (.inr fun _ _ => rfl) start
    refine each _ _ (reached.after rfl) reached.seats.admits_hired rfl (.inr fun c bound => ?_)
      seated
    exact bne_iff_ne.2 (Nat.ne_of_gt bound)
  | @collect i e t o _ _ state =>
    rw [state]
    cases o with
    | panic => exact each _ (.jobPanicked e.context) reached rfl rfl (.inr fun _ _ => rfl) start
    | value | error => exact start

theorem reaches (service : Service) (k : Nat) : (service.state k).Reached := by
  induction k with
  | zero => exact service.started.reached
  | succ k ih => exact preserves (fun _ _ reached admitted _ _ _ => reached.after admitted) ih ih

theorem Takes.hired (takes : service.Takes e code env j) :
    ∃ capability, service.state (j + 1) = (service.state j).hire capability
        (service.pool j).config (service.pool j).interpreter (service.pool j).mayStop code env ∧
      e.context = (service.state j).world.contexts.size ∧
      e.thread = (service.state j).threads.size := by
  obtain ⟨i, capability, moved, hires⟩ := takes
  refine ⟨capability, ?_, hires.context, hires.thread⟩
  rw [state_succ, moved, Pool.serve, Pool.take_of_hires hires]

/-- Once a job has started, its context and its task serve its thread alone. -/
theorem Takes.along {P : State → Prop} (takes : service.Takes e code env j) (lt : j < k)
    (hired : P (service.state (j + 1)))
    (each : ∀ s m, s.Reached → s.admits m = true → (∃ l, s.threads = (service.state l).threads) →
      s.Sole e.context e.thread (service.state j).world.tasks.size → P s → P (s.after m)) :
    (service.state k).Sole e.context e.thread (service.state j).world.tasks.size ∧
      P (service.state k) := by
  induction lt with
  | refl =>
    obtain ⟨capability, state, context, thread⟩ := takes.hired
    refine ⟨?_, hired⟩
    rw [state, context, thread]
    exact (service.reaches j).sole_hired
  | @step k lt ih =>
    have bound := ih.1.seated
    refine preserves (P := fun s => s.Sole e.context e.thread _ ∧ P s) ?_ (service.reaches k) ih
    rintro s m reached admitted same made ⟨sole, holds⟩
    refine ⟨sole.change (change_of_admits admitted) ?_,
      each s m reached admitted ⟨k, same⟩ sole holds⟩
    obtain ⟨i, capability, moved, hires⟩ := takes
    rcases made with machine | spares
    · exact service.apart j k i e code env capability m lt moved hires machine
    · exact spares _ bound

theorem Takes.sole (takes : service.Takes e code env j) (lt : j < k) :
    (service.state k).Sole e.context e.thread (service.state j).world.tasks.size :=
  (takes.along (P := fun _ => True) lt trivial fun _ _ _ _ _ _ _ => trivial).1

theorem Ended.mono (ended : service.Ended e o j) (le : j ≤ k) : service.Ended e o k := by
  obtain ⟨t, found, outcome⟩ := ended
  refine ⟨t, ?_, outcome⟩
  induction le with
  | refl => exact found
  | @step k le ih =>
    refine preserves (P := (·.threads[e.thread]? = some t)) ?_ (service.reaches k) ih
    intro s m reached admitted _ _ found
    exact (change_of_admits admitted).ended found (by rw [outcome]; rfl)

/-- The job does not claim thunks itself. -/
def Refrains (service : Service) (e : Engagement) : Prop :=
  ∀ k t, (service.state k).threads[e.thread]? = some t → t.claims = false

theorem Takes.honours (takes : service.Takes e code env j) (refrains : service.Refrains e)
    (lt : j < k) :
    (service.state k).Honours e.thread (service.state j).world.tasks.size := by
  refine (takes.along (P := (·.Honours e.thread _)) lt ?_ ?_).2
  · obtain ⟨capability, state, -, thread⟩ := takes.hired
    rw [state, thread]
    exact (service.reaches j).honours_hired
  · rintro s m reached admitted ⟨l, same⟩ sole honours
    exact reached.honours admitted sole honours fun t found => refrains l t (same ▸ found)

/-! ### Where the jobs are -/

theorem perm_hired {xs : List (Option Engagement)} {i : Nat} (idle : xs[i]? = some none) :
    ((xs.set i (some e)).filterMap id).Perm (e :: xs.filterMap id) := by
  induction xs generalizing i with
  | nil => simp at idle
  | cons x xs ih =>
    cases i with
    | zero =>
      obtain rfl : x = none := by simpa using idle
      simp
    | succ i =>
      have rest := ih (i := i) (by simpa using idle)
      cases x with
      | none => simpa using rest
      | some x => simpa using (rest.cons x).trans (.swap e x _)

theorem perm_fired {xs : List (Option Engagement)} {i : Nat} (engaged : xs[i]? = some (some e)) :
    (xs.filterMap id).Perm (e :: (xs.set i none).filterMap id) := by
  have bound := (List.getElem?_eq_some_iff.1 engaged).1
  have again : (xs.set i none).set i (some e) = xs := by
    rw [List.set_set, ← (List.getElem?_eq_some_iff.1 engaged).2, List.set_getElem_self]
  have idle : (xs.set i none)[i]? = some none := by simp [bound]
  have perm := perm_hired (e := e) idle
  rwa [again] at perm

/-- The pool is staffed as it was started. -/
structure Staffed (service : Service) (k : Nat) : Prop where
  config : (service.pool k).config = service.config
  interpreter : (service.pool k).interpreter = service.interpreter
  mayStop : (service.pool k).mayStop = service.mayStop
  workers : (service.pool k).workers.length = service.config.groupSize
  capabilities : (service.pool k).capabilities.length = service.config.groupSize

theorem staffed (service : Service) (k : Nat) : service.Staffed k := by
  induction k with
  | zero =>
    have started := service.started
    have workers : (service.pool 0).workers = List.replicate service.config.groupSize none :=
      started.idle
    exact ⟨started.configured, started.interpreted, started.stops, by simp [workers],
      started.capabilities⟩
  | succ k ih =>
    obtain ⟨config, interpreter, mayStop, workers, capabilities⟩ := ih
    cases serves service k with
    | machine _ _ _ pool | submit _ _ pool | nothing _ pool =>
      exact ⟨pool ▸ config, pool ▸ interpreter, pool ▸ mayStop, pool ▸ workers,
        pool ▸ capabilities⟩
    | take _ _ _ pool | collect _ _ _ pool =>
      exact ⟨pool ▸ config, pool ▸ interpreter, pool ▸ mayStop,
        pool ▸ List.length_set.trans workers, pool ▸ capabilities⟩

/-- A worker has the job, or its result is there. -/
def Holds (service : Service) (e : Engagement) (k : Nat) : Prop :=
  some e ∈ (service.pool k).workers ∨
    ∃ r, (e.job, r) ∈ (service.pool k).results ∧ service.Ended e r.outcome k

/-- Every job waits, or a worker has it, or its result is there, and it is nowhere else. -/
structure Accounts (service : Service) (k : Nat) : Prop where
  jobs : ((service.pool k).queue.map Prod.fst ++
    ((service.pool k).workers.filterMap id).map Engagement.job ++
    (service.pool k).results.map Prod.fst).Perm (List.range (service.pool k).submitted)
  queued : ∀ job code env, (job, code, env) ∈ (service.pool k).queue →
    ∃ j < k, service.Submits job code env j
  engaged : ∀ e, some e ∈ (service.pool k).workers →
    ∃ j < k, ∃ code env, service.Takes e code env j
  filed : ∀ job r, (job, r) ∈ (service.pool k).results → ∃ j < k, ∃ e code env,
    service.Takes e code env j ∧ e.job = job ∧ service.Ended e r.outcome k
  taken : ∀ e code env j, j < k → service.Takes e code env j → service.Holds e k

theorem Accounts.start (service : Service) : service.Accounts 0 := by
  obtain ⟨-, -, -, -, idle, -, queue, submitted, results⟩ := service.started
  have workers : (service.pool 0).workers = List.replicate service.config.groupSize none := idle
  have queue : (service.pool 0).queue = [] := queue
  have results : (service.pool 0).results = [] := results
  have submitted : (service.pool 0).submitted = 0 := submitted
  refine ⟨?_, ?_, ?_, ?_, ?_⟩
  · simp [queue, workers, results, submitted]
  · simp [queue]
  · simp [workers]
  · simp [results]
  · intro _ _ _ j lt
    exact absurd lt (Nat.not_lt_zero j)

theorem mem_set_of_ne {xs : List (Option Engagement)} {i : Nat} {x y : Option Engagement}
    (known : some e ∈ xs) (before : xs[i]? = some x) (other : x ≠ some e) :
    some e ∈ xs.set i y := by
  obtain ⟨l, found⟩ := List.mem_iff_getElem?.1 known
  refine List.mem_iff_getElem?.2 ⟨l, ?_⟩
  have apart : i ≠ l := by
    rintro rfl
    exact other (Option.some.inj (before.symm.trans found))
  rw [List.getElem?_set_ne apart, found]

theorem Takes.pool (takes : service.Takes e code env k) :
    ∃ i, service.pool (k + 1) = { service.pool k with
      queue := (service.pool k).queue.tail
      workers := (service.pool k).workers.set i (some e) } ∧
      (service.pool k).workers[i]? = some none := by
  obtain ⟨i, capability, moved, hires⟩ := takes
  refine ⟨i, ?_, hires.idle⟩
  rw [pool_succ, moved, Pool.serve, Pool.take_of_hires hires]

theorem Takes.engages (takes : service.Takes e code env k) :
    some e ∈ (service.pool (k + 1)).workers := by
  obtain ⟨i, pool, idle⟩ := takes.pool
  rw [pool]
  exact List.mem_set (List.getElem?_eq_some_iff.1 idle).1 _

theorem Holds.next (holds : service.Holds e k) : service.Holds e (k + 1) := by
  unfold Holds at holds ⊢
  rcases holds with known | ⟨r, known, ended⟩
  · cases serves service k with
    | machine _ _ _ pool | submit _ _ pool | nothing _ pool => exact .inl (pool ▸ known)
    | take _ hires _ pool =>
      rw [pool]
      exact .inl (mem_set_of_ne known hires.idle nofun)
    | @collect i d t o _ fires _ pool =>
      rw [pool]
      by_cases same : d = e
      · subst same
        have ended : service.Ended d o k := ⟨t, fires.thread, fires.outcome⟩
        exact .inr ⟨_, List.mem_append_right _ List.mem_cons_self, ended.mono (Nat.le_succ k)⟩
      · exact .inl (mem_set_of_ne known fires.engaged fun is => same (Option.some.inj is))
  · refine .inr ⟨r, ?_, ended.mono (Nat.le_succ k)⟩
    cases serves service k with
    | machine _ _ _ pool | submit _ _ pool | nothing _ pool | take _ _ _ pool => exact pool ▸ known
    | collect _ _ _ pool =>
      rw [pool]
      exact List.mem_append_left _ known

/-- Jobs go from the queue to a worker and from there to the results. -/
theorem Accounts.jobs_next (accounts : service.Accounts k) :
    ((service.pool (k + 1)).queue.map Prod.fst ++
      ((service.pool (k + 1)).workers.filterMap id).map Engagement.job ++
      (service.pool (k + 1)).results.map Prod.fst).Perm
        (List.range (service.pool (k + 1)).submitted) := by
  have jobs := accounts.jobs
  cases serves service k with
  | machine _ _ _ pool | nothing _ pool =>
    rw [pool]
    exact jobs
  | submit _ _ pool =>
    rw [pool]
    rw [List.perm_iff_count] at jobs ⊢
    intro job
    have count := jobs job
    simp only [Pool.submit, List.map_append, List.map_cons, List.map_nil, List.count_append,
      List.range_succ] at count ⊢
    omega
  | @take i e code env capability moved hires _ pool =>
    have perm := (perm_hired (e := e) hires.idle).map Engagement.job
    rw [pool]
    rw [hires.first] at jobs
    rw [List.perm_iff_count] at jobs perm ⊢
    intro job
    have count := jobs job
    have moved := perm job
    simp only [List.map_cons, List.count_append, List.count_cons] at count moved ⊢
    omega
  | @collect i e t o moved fires _ pool =>
    have perm := (perm_fired fires.engaged).map Engagement.job
    rw [pool]
    rw [List.perm_iff_count] at jobs perm ⊢
    intro job
    have count := jobs job
    have moved := perm job
    simp only [List.map_append, List.map_cons, List.map_nil, List.count_append,
      List.count_cons, List.count_nil] at count moved ⊢
    omega

theorem Accounts.next (accounts : service.Accounts k) : service.Accounts (k + 1) := by
  have jobs := accounts.jobs_next
  have taken : ∀ e code env j, j < k + 1 → service.Takes e code env j →
      service.Holds e (k + 1) := by
    intro e code env j lt takes
    rcases Nat.lt_succ_iff_lt_or_eq.1 lt with before | rfl
    · exact (accounts.taken e code env j before takes).next
    · exact .inl takes.engages
  have queued := fun job code env known =>
    (accounts.queued job code env known).imp fun j => And.imp_left Nat.lt_succ_of_lt
  have engaged := fun e known =>
    (accounts.engaged e known).imp fun j => And.imp_left Nat.lt_succ_of_lt
  have filed : ∀ job r, (job, r) ∈ (service.pool k).results → ∃ j < k + 1, ∃ e code env,
      service.Takes e code env j ∧ e.job = job ∧ service.Ended e r.outcome (k + 1) := by
    intro job r known
    obtain ⟨j, lt, e, code, env, takes, same, ended⟩ := accounts.filed job r known
    exact ⟨j, Nat.lt_succ_of_lt lt, e, code, env, takes, same, ended.mono (Nat.le_succ k)⟩
  cases serves service k with
  | machine _ _ _ pool | nothing _ pool =>
    refine ⟨jobs, ?_, ?_, ?_, taken⟩ <;> rw [pool]
    · exact queued
    · exact engaged
    · exact filed
  | @submit code env moved _ pool =>
    refine ⟨jobs, ?_, ?_, ?_, taken⟩ <;> rw [pool]
    · intro job c f known
      rcases List.mem_append.1 known with old | new
      · exact queued job c f old
      · cases List.mem_singleton.1 new
        exact ⟨k, Nat.lt_succ_self k, moved, rfl⟩
    · exact engaged
    · exact filed
  | @take i e code env capability moved hires _ pool =>
    refine ⟨jobs, ?_, ?_, ?_, taken⟩ <;> rw [pool]
    · exact fun job c f known => queued job c f (List.mem_of_mem_tail known)
    · intro d known
      rcases List.mem_or_eq_of_mem_set known with old | new
      · exact engaged d old
      · cases new
        exact ⟨k, Nat.lt_succ_self k, code, env, i, capability, moved, hires⟩
    · exact filed
  | @collect i e t o moved fires _ pool =>
    refine ⟨jobs, ?_, ?_, ?_, taken⟩ <;> rw [pool]
    · exact queued
    · intro d known
      rcases List.mem_or_eq_of_mem_set known with old | new
      · exact engaged d old
      · cases new
    · intro job r known
      rcases List.mem_append.1 known with old | new
      · exact filed job r old
      · cases List.mem_singleton.1 new
        obtain ⟨j, lt, c, f, takes⟩ := engaged e (List.mem_of_getElem? fires.engaged)
        have ended : service.Ended e o k := ⟨t, fires.thread, fires.outcome⟩
        exact ⟨j, lt, e, c, f, takes, rfl, ended.mono (Nat.le_succ k)⟩

theorem accounts (service : Service) (k : Nat) : service.Accounts k := by
  induction k with
  | zero => exact .start service
  | succ k ih => exact ih.next

theorem Accounts.nodup (accounts : service.Accounts k) :
    ((service.pool k).queue.map Prod.fst ++
      ((service.pool k).workers.filterMap id).map Engagement.job ++
      (service.pool k).results.map Prod.fst).Nodup :=
  accounts.jobs.nodup_iff.2 List.nodup_range

theorem Takes.lt_of_job_eq (takes : service.Takes e code env j)
    (takes' : service.Takes e' code' env' k) (same : e'.job = e.job) : k ≤ j := by
  by_contra later
  have accounts := service.accounts k
  obtain ⟨i, capability, -, hires⟩ := takes'
  have waits : e.job ∈ (service.pool k).queue.map Prod.fst := by
    rw [hires.first, ← same]
    exact List.mem_cons_self
  have apart := List.nodup_append.1 accounts.nodup
  have apart' := List.nodup_append.1 apart.1
  rcases accounts.taken e code env j (Nat.not_le.1 later) takes with engaged | ⟨r, filed, -⟩
  · have there : e.job ∈ ((service.pool k).workers.filterMap id).map Engagement.job :=
      List.mem_map_of_mem (List.mem_filterMap.2 ⟨_, engaged, rfl⟩)
    exact apart'.2.2 _ waits _ there rfl
  · exact apart.2.2 _ (List.mem_append_left _ waits) _ (List.mem_map_of_mem filed) rfl

/-- No job is taken twice. -/
theorem Takes.unique (takes : service.Takes e code env j)
    (takes' : service.Takes e' code' env' k) (same : e'.job = e.job) : k = j :=
  Nat.le_antisymm (takes.lt_of_job_eq takes' same) (takes'.lt_of_job_eq takes same.symm)

theorem lookup_of_nodup {results : List (Nat × JobResult)} {r : JobResult}
    (nodup : (results.map Prod.fst).Nodup) (known : (job, r) ∈ results) :
    results.lookup job = some r := by
  obtain ⟨before, after, rfl⟩ := List.append_of_mem known
  rw [List.map_append, List.map_cons] at nodup
  refine List.lookup_eq_some_iff.2 ⟨before, after, rfl, fun x earlier => ?_⟩
  rw [bne_iff_ne]
  exact fun same => (List.nodup_append.1 nodup).2.2 _ (List.mem_map_of_mem earlier) _
    List.mem_cons_self same.symm

theorem Takes.submitted (takes : service.Takes e code env k) :
    ∃ j < k, service.Submits e.job code env j := by
  obtain ⟨i, capability, -, hires⟩ := takes
  refine (service.accounts k).queued e.job code env ?_
  rw [hires.first]
  exact List.mem_cons_self

end Service

end LazyGraph

import LazyGraph.Proofs.Sessions

/-!
# Sessions in lockstep

Sessions that differ in the switches of their reports, begun and commanded alike, agree after every
command. Only a pool refuses a log level that it does not know.
-/

namespace LazyGraph

variable {h : Hush}

/-! ## Pools -/

def Config.knowsLevel (c : Config) : Bool :=
  (Level.ofName? c.logLevel).isSome

theorem Config.fault?_hushed {config config' : Config} (same : config'.hushed h = config.hushed h)
    (known : config.knowsLevel) (known' : config'.knowsLevel) : config'.fault? = config.fault? := by
  have capabilities : config'.capabilities = config.capabilities := by
    simpa only [hushed] using congrArg Config.capabilities same
  have level : ∀ {c : Config}, c.knowsLevel → (Level.ofName? c.logLevel).isNone = false :=
    fun known => by simpa [knowsLevel, Option.isSome_iff_ne_none] using known
  simp only [fault?, capabilities, level known, level known', Bool.false_eq_true, if_false]

theorem Config.groupSize_congr {config config' : Config}
    (same : config'.hushed h = config.hushed h) :
    config'.groupSize = config.groupSize :=
  show (config'.hushed h).groupSize = (config.hushed h).groupSize from congrArg _ same

theorem Config.traced_congr {config config' : Config} (same : config'.hushed h = config.hushed h) :
    h.traced config'.debug.scheduler = h.traced config.debug.scheduler := by
  rw [← h.scheduler, ← h.scheduler]
  exact congrArg (fun c : Config => c.debug.scheduler) same

namespace Pool

variable {p p' : Pool} {s s' : State} {w w' : World}

def hushed (h : Hush) (p : Pool) : Pool :=
  { p with config := p.config.hushed h }

theorem addGroup_hushed (map : Nat) (traced : Bool) (count : Nat) (w : World) :
    (addGroup map traced count w).1.hushed h =
        (addGroup map (h.traced traced) count (w.hushed h)).1 ∧
      (addGroup map traced count w).2 = (addGroup map (h.traced traced) count (w.hushed h)).2 := by
  induction count generalizing w with
  | zero => exact ⟨rfl, rfl⟩
  | succ count ih =>
    obtain ⟨world, ks⟩ := ih (addCapability w map none traced).1
    rw [World.hushed_addCapability] at world ks
    refine ⟨world, ?_⟩
    simp only [addGroup, ks]
    congr 1
    exact (Array.size_map ..).symm

theorem group_alike {config config' : Config} (same : w'.hushed h = w.hushed h)
    (settings : config'.hushed h = config.hushed h) :
    (addGroup (addMap w').2 config'.debug.scheduler config'.groupSize (addMap w').1).1.hushed h =
        (addGroup (addMap w).2 config.debug.scheduler config.groupSize (addMap w).1).1.hushed h ∧
      (addGroup (addMap w').2 config'.debug.scheduler config'.groupSize (addMap w').1).2 =
        (addGroup (addMap w).2 config.debug.scheduler config.groupSize (addMap w).1).2 := by
  have added : (addMap w').1.hushed h = (addMap w).1.hushed h :=
    congrArg (fun w => (addMap w).1) same
  have map : (addMap w').2 = (addMap w).2 := 
    World.read (f := fun w => w.maps.size) (fun _ => rfl) same
  obtain ⟨world, ks⟩ := addGroup_hushed (h := h) (addMap w).2 config.debug.scheduler
    config.groupSize (addMap w).1
  obtain ⟨world', ks'⟩ := addGroup_hushed (h := h) (addMap w').2 config'.debug.scheduler
    config'.groupSize (addMap w').1
  rw [world, ks, world', ks', map, added, Config.groupSize_congr settings,
    Config.traced_congr settings]
  exact ⟨rfl, rfl⟩

theorem hushed_eq (same : p'.hushed h = p.hushed h) :
    ∃ config, p' = { p with config } ∧ config.hushed h = p.config.hushed h := by
  obtain ⟨config, interpreter, mayStop, capabilities, queue, submitted, workers, results⟩ := p
  obtain ⟨config', interpreter', mayStop', capabilities', queue', submitted', workers',
    results'⟩ := p'
  simp only [hushed, Pool.mk.injEq] at same
  obtain ⟨settings, rfl, rfl, rfl, rfl, rfl, rfl, rfl⟩ := same
  exact ⟨config', rfl, settings⟩

theorem start_alike {config config' : Config} (same : w'.hushed h = w.hushed h)
    (settings : config'.hushed h = config.hushed h)
    (known : config.knowsLevel) (known' : config'.knowsLevel) (i : Option Interpreter)
    (mayStop : Bool) :
    (∃ e, start w config i mayStop = .error e ∧ start w' config' i mayStop = .error e) ∨
    ∃ x x' p p', start w config i mayStop = .ok (x, p) ∧ start w' config' i mayStop = .ok (x', p') ∧
      x'.hushed h = x.hushed h ∧ p'.hushed h = p.hushed h := by
  obtain ⟨worlds, capabilities⟩ := group_alike same settings
  simp only [start, Config.fault?_hushed settings known known']
  cases config.fault? with
  | some e => exact .inl ⟨_, rfl, rfl⟩
  | none =>
    refine .inr ⟨_, _, _, _, rfl, rfl, ?_, ?_⟩
    · simpa using worlds
    · simp only [hushed, settings, capabilities]

end Pool

namespace Session

variable {s s' : Session} {p p' : Pool}

theorem Alike.active? (alike : s.Alike h s') (pools : p'.hushed h = p.hushed h) :
    p'.active? s'.state = p.active? s.state := by
  obtain ⟨config, rfl, settings⟩ := Pool.hushed_eq pools
  simp only [Pool.active?, alike.isStuck]

theorem Alike.idle? (pools : p'.hushed h = p.hushed h) : p'.idle? = p.idle? := by
  obtain ⟨config, rfl, settings⟩ := Pool.hushed_eq pools
  rfl

theorem Alike.collect (alike : s.Alike h s') (pools : p'.hushed h = p.hushed h) (i : Nat) :
    Alike h { s with state := (p.collect s.state i).1 }
      { s' with state := (p'.collect s'.state i).1 } ∧
      (p'.collect s'.state i).2.hushed h = (p.collect s.state i).2.hushed h := by
  obtain ⟨config, rfl, settings⟩ := Pool.hushed_eq pools
  unfold Pool.collect
  rw [alike.threads]
  rcases p.workers[i]? with _ | _ | e
  · exact ⟨alike, pools⟩
  · exact ⟨alike, pools⟩
  · dsimp only
    cases (s.state.threads[e.thread]?).bind Thread.outcome? with
    | none => exact ⟨alike, pools⟩
    | some outcome =>
      have depth : (s'.world.context e.context).stack.depth =
          (s.world.context e.context).stack.depth :=
        alike.read (f := fun w => (w.context e.context).stack.depth) fun w => by simp
      simp only [Session.world] at depth
      refine ⟨alike_mk ?_ rfl alike.workers, by simp only [Pool.hushed, settings, depth]⟩
      cases outcome with
      | panic message =>
        simp only [Session.world, World.hushed_emit]
        exact alike.world
      | value | error => exact alike.world

theorem Alike.take (alike : s.Alike h s') (pools : p'.hushed h = p.hushed h) (i : Nat) :
    Alike h { s with state := (p.take s.state i).1 } { s' with state := (p'.take s'.state i).1 } ∧
      (p'.take s'.state i).2.hushed h = (p.take s.state i).2.hushed h := by
  obtain ⟨config, rfl, settings⟩ := Pool.hushed_eq pools
  simp only [Pool.take]
  split
  · rename_i job code env queue capability jobs idle seat
    have tasks : s'.state.world.tasks.size = s.state.world.tasks.size :=
      alike.read (f := fun w => w.tasks.size) fun _ => rfl
    have contexts : s'.state.world.contexts.size = s.state.world.contexts.size :=
      alike.read (f := fun w => w.contexts.size) fun w => Array.size_map ..
    have added : ((s'.state.world.addTask {}).1.addContext
          ⟨s'.state.world.tasks.size, capability, config, p.interpreter, {}, {}, none⟩).1.hushed h =
        ((s.state.world.addTask {}).1.addContext
          ⟨s.state.world.tasks.size, capability, p.config, p.interpreter, {}, {},
            none⟩).1.hushed h := by
      have worlds := alike.world
      simp only [Session.world] at worlds
      simp only [World.hushed_addContext, World.hushed_addTask, worlds, tasks, Context.hushed,
        Context.veiled, settings]
    refine ⟨alike_mk added ?_ alike.workers, ?_⟩
    · simp only [State.spawn, World.addContext, World.addTask, alike.threads, contexts]
    · simp only [Pool.hushed, settings, State.spawn, World.addContext, World.addTask, alike.threads,
        contexts]
  · exact ⟨alike, pools⟩

theorem Alike.work (alike : s.Alike h s') (pools : p'.hushed h = p.hushed h) (fuel turns : Nat) :
    (Session.work fuel turns s p).1.Alike h (Session.work fuel turns s' p').1 ∧
      (Session.work fuel turns s' p').2.hushed h = (Session.work fuel turns s p).2.hushed h := by
  induction turns generalizing s s' p p' with
  | zero => exact ⟨alike, pools⟩
  | succ turns ih =>
    simp only [Session.work, alike.active? pools, Alike.idle? pools]
    split
    · rename_i i e _
      obtain ⟨t, t', o, first, second, after⟩ := (alike.finish fuel e.thread).pair
      simp only [first, second]
      obtain ⟨collected, pools⟩ := after.collect pools i
      exact ih collected pools
    · rename_i i _ _
      obtain ⟨taken, pools⟩ := alike.take pools i
      exact ih taken pools
    · exact ⟨alike, pools⟩

theorem Alike.collectJob (alike : s.Alike h s') (pools : p'.hushed h = p.hushed h) (job : Nat)
    (spec : JobSpec) : Agree h (collectJob p s job spec) (collectJob p' s' job spec) := by
  obtain ⟨config, rfl, settings⟩ := Pool.hushed_eq pools
  have result : Pool.result? { p with config } job = p.result? job := rfl
  simp only [Session.collectJob, result]
  split
  · split
    · exact alike.answer _
    · exact alike.answer _
    · rename_i outcome depth _ _
      have bound := alike.bindResult spec.name outcome
      refine ⟨bound, ?_⟩
      exact bound.read (f := fun w => JobAnswer.ended (w.written outcome) depth) fun w => by simp
  · exact alike.answer _

theorem Alike.collectJobs (alike : s.Alike h s') (pools : p'.hushed h = p.hushed h) (job : Nat)
    (specs : List JobSpec) : Agree h (collectJobs p s job specs) (collectJobs p' s' job specs) := by
  induction specs generalizing s s' job with
  | nil => exact alike.answer _
  | cons spec specs ih =>
    obtain ⟨t, t', a, first, second, after⟩ := (alike.collectJob pools job spec).pair
    obtain ⟨u, u', as, third, fourth, last⟩ := (ih after (job + 1)).pair
    simp only [Session.collectJobs, first, second, third, fourth]
    exact last.answer _

theorem submit_hushed (pools : p'.hushed h = p.hushed h) (jobs : List JobSpec) (env : Env) :
    (jobs.foldl (fun p job => p.submit job.code env) p').hushed h =
      (jobs.foldl (fun p job => p.submit job.code env) p).hushed h := by
  induction jobs generalizing p p' with
  | nil => exact pools
  | cons job jobs ih =>
    obtain ⟨config, rfl, settings⟩ := Pool.hushed_eq pools
    exact ih (by simp only [Pool.hushed, Pool.submit, settings])

theorem Alike.pool (alike : s.Alike h s') {config config' : Config}
    (settings : config'.hushed h = config.hushed h) (known : config.knowsLevel)
    (known' : config'.knowsLevel) (fuel : Nat) (i : Option Interpreter) (jobs : List JobSpec) :
    Agree h (s.pool fuel config i jobs) (s'.pool fuel config' i jobs) := by
  rcases Pool.start_alike alike.world settings known known' i false with
    ⟨e, first, second⟩ | ⟨x, x', p, p', first, second, same, pools⟩
  · simp only [Session.pool, first, second]
    exact alike.answer _
  · have count : p'.capabilities.length = p.capabilities.length := by
      obtain ⟨config, rfl, settings⟩ := Pool.hushed_eq pools
      rfl
    obtain ⟨worked, done⟩ := (alike.put same).work (submit_hushed pools jobs s.env) fuel fuel
    obtain ⟨t, t', results, third, fourth, after⟩ := (worked.collectJobs done 0 jobs).pair
    simp only [Session.pool, first, second, alike.env, third, fourth, count]
    exact after.answer _

end Session

/-! ## Commands -/

namespace Session

def RegistryOp.hushed (h : Hush) : RegistryOp → RegistryOp
  | .configure config => .configure (config.hushed h)
  | op => op

namespace Request

/-- The request with the switches of the reports set. -/
def hushed (h : Hush) : Request → Request
  | .registry r op => .registry r (op.hushed h)
  | .pool config i jobs => .pool (config.hushed h) i jobs
  | r => r

/-- No pool is asked for an unknown log level. -/
def knowsLevel : Request → Bool
  | .pool config _ _ => config.knowsLevel
  | _ => true

inductive Varies (h : Hush) : Request → Request → Prop
  | same {r} : Varies h r r
  | configure {x config config'} (same : Config.hushed h config' = config.hushed h) :
    Varies h (.registry x (.configure config)) (.registry x (.configure config'))
  | pool {config config' i jobs} (same : Config.hushed h config' = config.hushed h) :
    Varies h (.pool config i jobs) (.pool config' i jobs)

theorem varies {r r' : Request} (same : r'.hushed h = r.hushed h) : Varies h r r' := by
  cases r with
  | registry x op =>
    cases r' with
    | registry x' op' =>
      obtain ⟨rfl, ops⟩ := Request.registry.inj same
      cases op with
      | configure config =>
        cases op' with
        | configure config' => exact .configure (RegistryOp.configure.inj ops)
        | _ => cases ops
      | _ =>
        cases op' <;> cases ops
        exact .same
    | _ => cases same
  | pool config i jobs =>
    cases r' with
    | pool config' i' jobs' =>
      obtain ⟨settings, rfl, rfl⟩ := Request.pool.inj same
      exact .pool settings
    | _ => cases same
  | _ =>
    cases r' <;> cases same
    exact .same

end Request

namespace Command

def hushed (h : Hush) : Command → Command
  | .single r => .single (r.hushed h)
  | .overlap worker l rs => .overlap worker l (rs.map (Request.hushed h))

def knowsLevel : Command → Bool
  | .single r => r.knowsLevel
  | .overlap _ _ rs => rs.all Request.knowsLevel

end Command

variable {s s' : Session}

theorem Alike.request (alike : s.Alike h s') {r r' : Request} (same : r'.hushed h = r.hushed h)
    (known : r.knowsLevel) (known' : r'.knowsLevel) (fuel : Nat) :
    Agree h (s.request fuel r) (s'.request fuel r') := by
  cases Request.varies same with
  | configure settings => exact alike.configure _ settings
  | pool settings => exact alike.pool settings known known' fuel _ _
  | same =>
    cases r with
    | run l => exact alike.run fuel l
    | spawn worker l => exact (alike.hire worker l).answer _
    | pass g => exact alike.openGate g
    | detour c d => exact (alike.detour c d).answer _
    | state x =>
      exact alike.withNode x fun n =>
        alike.look (fun w => ((w.nodeState n).map Answer.state).getD (.unknown x)) fun w => by simp
    | peek x =>
      exact alike.withNode x fun n =>
        alike.look (fun w => .view ((w.evaluated? n).map w.view)) fun w => by
          rw [show (w.hushed h).view = w.view from funext fun _ => World.view_hushed,
            World.evaluated?_hushed]
    | same x y => exact alike.withNode x fun n => alike.withNode y fun m => alike.answer _
    | value x =>
      exact alike.withNode x fun n =>
        alike.look (fun w => ((w.valueInfo n).map Answer.value).getD (.unknown x)) fun _ => rfl
    | field x kind index => exact alike.withNode x fun n => alike.field n kind index
    | registers c clear => exact alike.registers c clear
    | context c => exact alike.context c
    | assign x l => exact (alike.change (f := (·.assign x l)) fun _ => rfl).answer _
    | read x => exact alike.look (fun w => .number (w.counters.find? x)) fun _ => rfl
    | drop x => exact (alike.change (f := (·.unbind x)) fun _ => rfl).answer _
    | inspect subject => exact alike.inspect subject
    | registry x op => exact alike.onRegistry fuel x op
    | queue q op => exact alike.onQueue fuel q op
    | capability c op => exact alike.onCapability fuel c op
    | task t op => exact alike.onTask t op
    | pool config i jobs => exact alike.pool rfl known known' fuel i jobs
    | listen => exact alike.answer _

theorem Alike.requests (alike : s.Alike h s') {rs rs' : List Request}
    (same : rs'.map (Request.hushed h) = rs.map (Request.hushed h))
    (known : rs.all Request.knowsLevel) (known' : rs'.all Request.knowsLevel) (fuel : Nat) :
    Agree h (s.requests fuel rs) (s'.requests fuel rs') := by
  induction rs generalizing rs' s s' with
  | nil =>
    obtain rfl : rs' = [] := List.map_eq_nil_iff.1 same
    exact alike.answer _
  | cons r rs ih =>
    cases rs' with
    | nil => cases same
    | cons r' rs' =>
      simp only [List.map_cons, List.cons.injEq, List.all_cons, Bool.and_eq_true]
        at same known known'
      obtain ⟨t, t', a, first, second, after⟩ :=
        (alike.request same.1 known.1 known'.1 fuel).pair
      obtain ⟨u, u', as, third, fourth, last⟩ := (ih after same.2 known.2 known'.2).pair
      simp only [Session.requests, first, second, third, fourth]
      exact last.answer _

/-- The report but for its log lines. -/
def Report.hushed (r : Report) : Report :=
  { r with lines := [] }

theorem Alike.command (alike : s.Alike h s') {c c' : Command} (same : c'.hushed h = c.hushed h)
    (known : c.knowsLevel) (known' : c'.knowsLevel) (fuel : Nat) :
    (s.command fuel c).1.Alike h (s'.command fuel c').1 ∧
      (s'.command fuel c').2.hushed = (s.command fuel c).2.hushed := by
  cases c with
  | single r =>
    cases c' with
    | overlap => cases same
    | single r' =>
      obtain ⟨t, t', a, first, second, after⟩ :=
        (alike.request (Command.single.inj same) known known' fuel).pair
      have settled := after.advance fuel none
      simp only [Session.command, first, second]
      exact ⟨settled.acknowledge, by
        simp only [Report.hushed, Session.settle, settled.changes]⟩
  | overlap worker l rs =>
    cases c' with
    | single => cases same
    | overlap worker' l' rs' =>
      obtain ⟨rfl, rfl, lists⟩ := Command.overlap.inj same
      obtain ⟨t, t', a, first, second, after⟩ :=
        ((alike.hire worker' l').requests lists known known' fuel).pair
      have settled := after.advance fuel none
      simp only [Session.command, first, second]
      exact ⟨settled.acknowledge, by
        simp only [Report.hushed, Session.settle, settled.changes]⟩

/-! ## Beginnings -/

def Setup.hushed (h : Hush) (setup : Setup) : Setup :=
  { setup with config := setup.config.hushed h, log := none }

theorem nextSeat_hushed (w : World) : nextSeat (w.hushed h) = nextSeat w := by
  have size : ((w.hushed h).capabilities.filter (·.name.isSome)).size =
      (w.capabilities.filter (·.name.isSome)).size := by
    show ((w.capabilities.map (Capability.hushed h)).filter (·.name.isSome)).size = _
    rw [Array.filter_map, Array.size_map]
    rfl
  delta nextSeat
  rw [size]

theorem addSeats_hushed (map : Nat) (traced : Bool) (count : Nat) (w : World) :
    (addSeats map traced count w).hushed h = addSeats map (h.traced traced) count (w.hushed h) := by
  induction count with
  | zero => rfl
  | succ count ih =>
    simp only [addSeats, World.hushed_addCapability, ih]
    rw [← ih, nextSeat_hushed]

theorem seat_hushed (w : World) (config : Config) (seat : Seat) :
    Session.seat (w.hushed h) (config.hushed h) seat =
      ((Session.seat w config seat).1.hushed h, (Session.seat w config seat).2) := by
  have size : (w.hushed h).capabilities.size = w.capabilities.size := Array.size_map ..
  cases seat with
  | group index => rfl
  | own =>
    have name : nextSeat (Pool.addMap (w.hushed h)).1 = nextSeat (Pool.addMap w).1 :=
      nextSeat_hushed (Pool.addMap w).1
    refine Prod.ext ?_ size
    simp only [Session.seat, World.hushed_addCapability, name, Config.hushed, h.scheduler]
    rfl
  | alone =>
    refine Prod.ext ?_ size
    simp only [Session.seat, World.hushed_addCapability, Config.hushed, h.scheduler]
    rfl

theorem addContext_hushed (config : Config) (w : World) (spec : ContextSpec) :
    (addContext config w spec).hushed h = addContext (config.hushed h) (w.hushed h) spec := by
  have seats :=
    seat_hushed (h := h) w { config with eager := spec.eager.getD config.eager } spec.seat
  simp only [Config.hushed] at seats
  simp only [addContext, Config.hushed, seats]
  generalize (Session.seat w _ spec.seat).1 = w
  have size : (w.hushed h).contexts.size = w.contexts.size := Array.size_map ..
  rw [size, World.hushed_addContext]
  rfl

theorem start_alike {setup setup' : Setup} (same : setup'.hushed h = setup.hushed h) :
    (start setup).Alike h (start setup') := by
  have settings : setup'.config.hushed h = setup.config.hushed h := by
    simpa only [Setup.hushed] using congrArg Setup.config same
  have contexts : setup'.contexts = setup.contexts := by
    simpa only [Setup.hushed] using congrArg Setup.contexts same
  have each : ∀ (specs : List ContextSpec) (w w' : World), w'.hushed h = w.hushed h →
      (specs.foldl (addContext setup'.config) w').hushed h =
        (specs.foldl (addContext setup.config) w).hushed h := by
    intro specs
    induction specs with
    | nil => exact fun _ _ same => same
    | cons spec specs ih =>
      intro w w' same
      exact ih _ _ (by rw [addContext_hushed, addContext_hushed, settings, same])
  have seats : ∀ map, (addSeats map setup'.config.debug.scheduler setup'.config.groupSize
        (Pool.addMap { log := { level := setup'.log } }).1).hushed h =
      (addSeats map setup.config.debug.scheduler setup.config.groupSize
        (Pool.addMap { log := { level := setup.log } }).1).hushed h := by
    intro map
    rw [addSeats_hushed, addSeats_hushed, Config.traced_congr settings,
      Config.groupSize_congr settings]
    rfl
  refine alike_mk ?_ rfl rfl
  simp only [start, Session.world, contexts]
  exact each _ _ _ (seats _)

end Session

end LazyGraph

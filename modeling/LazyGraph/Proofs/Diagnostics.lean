import LazyGraph.Proofs.Lockstep
import LazyGraph.Proofs.Run

/-!
# Diagnostics do not change behaviour

Debug flags and log levels decide what is recorded, and nothing else. The one exception is a pool,
which refuses a log level without a name.
-/

namespace LazyGraph

variable {h : Hush}

/-- The same but for the log and its switches. -/
structure State.Agrees (s s' : State) : Prop where
  threads : s'.threads = s.threads
  nodes : s'.world.heap = s.world.heap
  tasks : s'.world.tasks = s.world.tasks
  queues : s'.world.queues = s.world.queues
  maps : s'.world.maps = s.world.maps
  capability : ∀ c, (s'.world.context c).capability = (s.world.context c).capability
  task : ∀ c, (s'.world.context c).task = (s.world.context c).task
  stack : ∀ c, (s'.world.context c).stack = (s.world.context c).stack
  registers : ∀ c, (s'.world.context c).registers = (s.world.context c).registers
  detour : ∀ c, (s'.world.context c).detour = (s.world.context c).detour
  keep : ∀ r, (s'.world.registry r).keep = (s.world.registry r).keep
  constants : ∀ r, (s'.world.registry r).constants = (s.world.registry r).constants
  busy : ∀ r, (s'.world.registry r).busy = (s.world.registry r).busy
  counters : s'.world.counters = s.world.counters
  names : s'.world.names = s.world.names

theorem State.agrees_of_hushed {s s' : State} (same : s'.hushed h = s.hushed h) : s.Agrees s' := by
  have worlds : s'.world.hushed h = s.world.hushed h := (State.mk.inj same).1
  have context : ∀ {α : Type} (f : Context → α), (∀ c, f (Context.hushed h c) = f c) →
      ∀ c, f (s'.world.context c) = f (s.world.context c) := fun f blind c =>
    World.read (f := fun w => f (w.context c)) (fun w => by rw [World.context_hushed, blind]) worlds
  have registry : ∀ {α : Type} (f : Registry → α), (∀ r, f (Registry.hushed h r) = f r) →
      ∀ r, f (s'.world.registry r) = f (s.world.registry r) := fun f blind r =>
    World.read (f := fun w => f (w.registry r))
      (fun w => by rw [World.registry_hushed, blind]) worlds
  exact
    { threads := (State.mk.inj same).2
      nodes := World.read (fun _ => rfl) worlds
      tasks := World.read (fun _ => rfl) worlds
      queues := World.read (fun _ => rfl) worlds
      maps := World.read (fun _ => rfl) worlds
      capability := context Context.capability fun _ => rfl
      task := context Context.task fun _ => rfl
      stack := context Context.stack fun _ => rfl
      registers := context Context.registers fun _ => rfl
      detour := context Context.detour fun _ => rfl
      keep := registry Registry.keep fun _ => rfl
      constants := registry Registry.constants fun _ => rfl
      busy := registry Registry.busy fun _ => rfl
      counters := World.read (fun _ => rfl) worlds
      names := World.read (fun _ => rfl) worlds }

/-! ## Runs -/

theorem State.admits_hushed {s s' : State} {m m' : Move} (same : s'.hushed h = s.hushed h)
    (alike : m'.hushed h = m.hushed h) : s'.admits m' = s.admits m := by
  have threads : s'.threads = s.threads := (State.mk.inj same).2
  have contexts : s'.world.contexts.size = s.world.contexts.size :=
    World.read (f := fun w => w.contexts.size) (fun w => Array.size_map ..) (State.mk.inj same).1
  cases m with
  | start c code env mayStop maySuspend =>
    cases m' with
    | start =>
      cases alike
      simp only [State.admits, threads, contexts]
    | _ => cases alike
  | _ => cases m' <;> first | rfl | cases alike

theorem trace_hushed {log log' : Log} {move move' : Nat → Move}
    (alike : ∀ k, (move' k).hushed h = (move k).hushed h) (k : Nat) :
    (trace log' move' k).hushed h = (trace log move k).hushed h := by
  induction k with
  | zero => rfl
  | succ k ih => exact State.hushed_after_eq ih (alike k)

namespace Run

theorem exists_hushed (run : Run) {move : Nat → Move} (log : Log)
    (alike : ∀ k, (move k).hushed h = (run.move k).hushed h) :
    ∃ other : Run, other.log = log ∧ other.move = move :=
  ⟨⟨log, move, fun k => by
    have same : (trace log move k).hushed h = (run.state k).hushed h := trace_hushed alike k
    rw [State.admits_hushed same (alike k)]
    exact run.admitted k⟩, rfl, rfl⟩

theorem hushed_eq {run other : Run} (alike : ∀ k, (other.move k).hushed h = (run.move k).hushed h)
    (k : Nat) : (other.state k).hushed h = (run.state k).hushed h :=
  trace_hushed alike k

theorem ofMoves_hushed {log log' : Log} {ms ms' : List Move} {admitted admitted'}
    (same : ms'.map (Move.hushed h) = ms.map (Move.hushed h)) (k : Nat) :
    ((ofMoves log' ms' admitted').move k).hushed h =
      ((ofMoves log ms admitted).move k).hushed h := by
  have at' : ∀ ms : List Move,
      (ms.getD k .rest).hushed h = (ms.map (Move.hushed h)).getD k .rest := by
    intro ms
    rw [List.getD_eq_getElem?_getD, List.getD_eq_getElem?_getD, List.getElem?_map]
    cases ms[k]? <;> rfl
  exact (at' ms').trans ((congrArg (·.getD k .rest) same).trans (at' ms).symm)

end Run

/-! ## Sessions -/

namespace Session

def after (fuel : Nat) (s : Session) (cs : List Command) : Session :=
  cs.foldl (fun s c => (s.command fuel c).1) s

theorem Alike.perform {s s' : Session} (alike : s.Alike h s') {cs cs' : List Command}
    (same : cs'.map (Command.hushed h) = cs.map (Command.hushed h))
    (known : ∀ c ∈ cs, c.knowsLevel) (known' : ∀ c ∈ cs', c.knowsLevel) (fuel : Nat) :
    (s.after fuel cs).Alike h (s'.after fuel cs') ∧
      (Session.perform fuel s' cs').map Report.hushed =
        (Session.perform fuel s cs).map Report.hushed := by
  induction cs generalizing s s' cs' with
  | nil =>
    obtain rfl : cs' = [] := List.map_eq_nil_iff.1 same
    exact ⟨alike, rfl⟩
  | cons c cs ih =>
    cases cs' with
    | nil => cases same
    | cons c' cs' =>
      simp only [List.map_cons, List.cons.injEq, List.forall_mem_cons] at same known known'
      obtain ⟨next, report⟩ := alike.command same.1 known.1 known'.1 fuel
      obtain ⟨last, reports⟩ := ih next same.2 known.2 known'.2
      exact ⟨last, by simp only [Session.perform, List.map_cons, report, reports]⟩

end Session

open Session

/-- **Diagnostics do not change behaviour.** A run can be repeated with any other debug flags and
log levels, and listened to at any level: after every move, the two states agree in all but the log.
So do sessions, whose commands get the same answers, as long as no pool is asked for an unknown
level. -/
theorem diagnostics_inert :
    (∀ (run : Run) (move : Nat → Move) (log : Log),
      (∀ k, (move k).hushed .all = (run.move k).hushed .all) →
      (∃ other : Run, other.log = log ∧ other.move = move) ∧
      ∀ other : Run, other.move = move → ∀ k, (run.state k).Agrees (other.state k)) ∧
    ∀ (fuel : Nat) (setup setup' : Setup) (cs cs' : List Command),
      setup'.hushed .all = setup.hushed .all →
      cs'.map (Command.hushed .all) = cs.map (Command.hushed .all) →
      (∀ c ∈ cs, c.knowsLevel) → (∀ c ∈ cs', c.knowsLevel) →
      (perform fuel (start setup') cs').map Report.hushed =
        (perform fuel (start setup) cs).map Report.hushed ∧
      ∀ k, ((start setup).after fuel (cs.take k)).state.Agrees
        ((start setup').after fuel (cs'.take k)).state := by
  refine ⟨fun run move log alike => ⟨run.exists_hushed log alike, ?_⟩, ?_⟩
  · rintro other rfl k
    exact State.agrees_of_hushed (Run.hushed_eq alike k)
  · intro fuel setup setup' cs cs' same commands known known'
    have begun := start_alike same
    refine ⟨(begun.perform commands known known' fuel).2, fun k => ?_⟩
    have part : (cs'.take k).map (Command.hushed .all) = (cs.take k).map (Command.hushed .all) := by
      rw [List.map_take, List.map_take, commands]
    exact State.agrees_of_hushed
      (begun.perform part (fun c at' => known c (List.mem_of_mem_take at'))
      (fun c at' => known' c (List.mem_of_mem_take at')) fuel).1.state

/-- A task takes a constant and stops in its code, a second one waits for it. Then the constant gets
its value. -/
def guarded (flags : DebugFlags) : List Move :=
  [.map, .capability 0 (some "k0") flags.scheduler,
    .configure "r" { keepConstants := true, debug := flags },
    .seat none 0 { eager := true, debug := flags } none,
    .seat none 0 { eager := true, debug := flags } none,
    .start 0 (.prim .evaluate [.constant "r" (.prim .last [.prim (.gate "g") [],
      .prim (.apply []) [.lambda "f" 0 (.prim (.box (.scalar (.int 7))) [])]])])
      { frames := [] } true true] ++
  List.replicate 16 (.step 0) ++ [.evaluate 1 0] ++ List.replicate 30 (.step 1) ++
  [.pass 0 "g"] ++ List.replicate 50 (.step 0) ++ List.replicate 30 (.step 1)

def loud : DebugFlags :=
  ⟨true, true, true, true⟩

def listened : Run :=
  .ofMoves { level := some .trace } (guarded loud) (by decide +kernel)

def silent : Run :=
  .ofMoves {} (guarded {}) (by decide +kernel)

/-- A pool with one capability and a single job. -/
def smallPool (flags : DebugFlags) (level : String) : List Command :=
  [.single (.pool { capabilities := some 1, logLevel := level, debug := flags } none
    [{ code := .prim (.box (.scalar (.int 3))) [] }])]

def listening : Setup :=
  { config := { debug := loud, capabilities := some 1 }, log := some .trace }

theorem diagnostics_inert_loud :
    (∀ k, (listened.state k).Agrees (silent.state k)) ∧
    (∀ i < 2, ((silent.state 150).threads[i]?).any (·.outcome?.isSome) = true) ∧
    (listened.state 150).world.log.records.size = 8 ∧
    (silent.state 150).world.log.records.size = 4 ∧
    (perform 99 (start {}) (smallPool {} "warn")).map Report.hushed =
      (perform 99 (start listening) (smallPool loud "trace")).map Report.hushed := by
  have known : ∀ {flags level}, (Level.ofName? level).isSome →
      ∀ c ∈ smallPool flags level, c.knowsLevel := by
    rintro flags level named c at'
    rw [List.mem_singleton.1 at']
    exact named
  refine ⟨fun k =>
      (diagnostics_inert.1 listened silent.move {} (Run.ofMoves_hushed rfl)).2 silent rfl k,
    by decide +kernel, by decide +kernel, by decide +kernel, ?_⟩
  exact (diagnostics_inert.2 99 listening {} (smallPool loud "trace") (smallPool {} "warn") rfl rfl
    (known (by decide +kernel)) (known (by decide +kernel))).1

def Session.Report.isRefusal (r : Report) : Bool :=
  match r.answer with
  | .poolFailed _ _ => true
  | _ => false

/-- A pool with a log level that it does not know is refused. -/
theorem unknown_level_refused :
    ¬ ∀ (fuel : Nat) (setup : Setup) (cs cs' : List Command),
      cs'.map (Command.hushed .all) = cs.map (Command.hushed .all) →
      (perform fuel (start setup) cs').map Report.hushed =
        (perform fuel (start setup) cs).map Report.hushed := by
  intro alike
  have same := congrArg (List.map Report.isRefusal)
    (alike 99 {} (smallPool {} "warn") (smallPool {} "loud") rfl)
  revert same
  decide +kernel

end LazyGraph

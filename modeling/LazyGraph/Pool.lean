import LazyGraph.Machine.Step
import LazyGraph.Quoted

/-!
A pool of capabilities: jobs wait in one queue, and each worker takes the first job whenever it is
idle. A job runs on a task and a context of its own.
-/

namespace LazyGraph

inductive PoolError
  | config (reason : String)
  | spawn (reason : String)
  | shutDown
  deriving DecidableEq

def PoolError.message : PoolError → String
  | .config reason => s!"Invalid pool configuration: {reason}"
  | .spawn reason => s!"Failed to spawn capability worker: {reason}"
  | .shutDown => "Capability pool has been shut down"

def PoolError.text : PoolError → String
  | .config reason => s!"Config({quoted reason})"
  | .spawn reason => s!"Spawn({quoted reason})"
  | .shutDown => "ShutDown"

def droppedMessage : String := "job dropped before producing a result"

structure Engagement where
  job : Nat
  context : ContextId
  thread : ThreadId
  deriving DecidableEq

structure JobResult where
  outcome : Thread.Outcome
  depth : Nat
  deriving DecidableEq

/-- `mayStop` tells whether jobs wait at gates. -/
structure Pool where
  config : Config
  interpreter : Option Interpreter
  mayStop : Bool
  capabilities : List CapabilityId
  queue : List (Nat × Code × Env) := []
  submitted : Nat := 0
  workers : List (Option Engagement)
  results : List (Nat × JobResult) := []

namespace Pool

def addCapability (w : World) (map : Nat) (name : Option String) (traced : Bool) :
    World × CapabilityId :=
  ({ w with capabilities := w.capabilities.push { name, map, traced } }, w.capabilities.size)

def addMap (w : World) : World × Nat :=
  ({ w with maps := w.maps.push [] }, w.maps.size)

def addGroup (map : Nat) (traced : Bool) : Nat → World → World × List CapabilityId
  | 0, w => (w, [])
  | count + 1, w =>
    let (w, k) := addCapability w map none traced
    let (w, ks) := addGroup map traced count w
    (w, k :: ks)

def start (w : World) (config : Config) (interpreter : Option Interpreter) (mayStop : Bool) :
    Except PoolError (World × Pool) :=
  match config.fault? with
  | some e => .error (.config e.message)
  | none =>
    let (w, map) := addMap w
    let (w, capabilities) := addGroup map config.debug.scheduler config.groupSize w
    let w := w.emit 0 (.poolStarted capabilities.length)
    .ok (w, {
      config, interpreter, mayStop, capabilities, workers := capabilities.map fun _ => none })

def submit (p : Pool) (c : Code) (env : Env) : Pool :=
  { p with queue := p.queue ++ [(p.submitted, c, env)], submitted := p.submitted + 1 }

def active? (s : State) (p : Pool) : Option (Nat × Engagement) :=
  (List.range p.workers.length).findSome? fun i =>
    match p.workers[i]? with
    | some (some e) => if s.isStuck e.thread then none else some (i, e)
    | _ => none

def idle? (p : Pool) : Option Nat :=
  if p.queue.isEmpty then none else p.workers.findIdx? Option.isNone

/-- An idle worker takes the first job, on a new task and a new context. -/
def take (s : State) (p : Pool) (i : Nat) : State × Pool :=
  match p.queue, p.workers[i]?, p.capabilities[i]? with
  | (job, c, env) :: queue, some none, some capability =>
    let (w, task) := s.world.addTask {}
    let (w, context) := w.addContext
      { task, capability, config := p.config, interpreter := p.interpreter }
    let (s, thread) := State.spawn { s with world := w }
      { context, mayStop := p.mayStop, control := .run c env }
    (s, { p with queue, workers := p.workers.set i (some ⟨job, context, thread⟩) })
  | _, _, _ => (s, p)

def collect (s : State) (p : Pool) (i : Nat) : State × Pool :=
  match p.workers[i]? with
  | some (some e) =>
    match (s.threads[e.thread]?).bind Thread.outcome? with
    | some outcome =>
      let context := s.world.context e.context
      let w := match outcome with
        | .panic _ => s.world.emit e.context (.jobPanicked context.task)
        | _ => s.world
      ({ s with world := w },
        { p with
          workers := p.workers.set i none
          results := p.results ++ [(e.job, ⟨outcome, context.stack.depth⟩)] })
    | none => (s, p)
  | _ => (s, p)

def result? (p : Pool) (job : Nat) : Option JobResult :=
  p.results.lookup job

end Pool

end LazyGraph

import LazyGraph.Session.Schedule

/-!
Carrying out the commands of a session.
-/

namespace LazyGraph.Session

/-! ## The world at the beginning -/

def nextSeat (w : World) : String :=
  s!"k{(w.capabilities.filter (·.name.isSome)).size}"

def addSeats (map : Nat) (traced : Bool) : Nat → World → World
  | 0, w => w
  | count + 1, w =>
    let w := addSeats map traced count w
    (Pool.addCapability w map (some (nextSeat w)) traced).1

def seat (w : World) (config : Config) : Seat → World × CapabilityId
  | .group index => (w, index % config.groupSize)
  | .own =>
    let (w, map) := Pool.addMap w
    Pool.addCapability w map (some (nextSeat w)) config.debug.scheduler
  | .alone =>
    let (w, map) := Pool.addMap w
    Pool.addCapability w map none config.debug.scheduler

def addContext (config : Config) (w : World) (spec : ContextSpec) : World :=
  let config := { config with eager := spec.eager.getD config.eager }
  let (w, capability) := seat w config spec.seat
  let (w, task) := w.addTask { name := some s!"c{w.contexts.size}" }
  (w.addContext { task, capability, config, interpreter := spec.interpreter }).1

def start (setup : Setup) : Session :=
  let (w, map) := Pool.addMap { log := { level := setup.log } }
  let w := addSeats map setup.config.debug.scheduler setup.config.groupSize w
  { state := { world := setup.contexts.foldl (addContext setup.config) w } }

/-! ## Things by name -/

def lastNamed {α : Type} (name : α → Option String) (xs : Array α) (x : String) : Option Nat :=
  ((List.range xs.size).filter fun i => (xs[i]?).bind name == some x).getLast?

def node? (s : Session) (x : String) : Option NodeId :=
  s.world.names.find? x

def task? (s : Session) (x : String) : Option TaskId :=
  lastNamed Task.name s.world.tasks x

def queue? (s : Session) (x : String) : Option QueueId :=
  lastNamed Queue.name s.world.queues x

def env (s : Session) : Env :=
  { captured := s.world.names, frames := [[]] }

def withNode (s : Session) (x : String) (f : NodeId → Session × Answer) : Session × Answer :=
  match s.node? x with
  | some n => f n
  | none => (s, .unknown x)

def withTask (s : Session) (x : String) (f : TaskId → Session × Answer) : Session × Answer :=
  match s.task? x with
  | some t => f t
  | none => (s, .unknown x)

def withQueue (s : Session) (x : String) (f : QueueId → Session × Answer) : Session × Answer :=
  match s.queue? x with
  | some q => f q
  | none => (s, .unknown x)

/-! ## Running code -/

def bindResult (s : Session) (x : Option String) : Thread.Outcome → Session
  | .value n => (x.map fun x => s.mapWorld (·.bind x n)).getD s
  | _ => s

def run (fuel : Nat) (s : Session) (l : Launch) : Session × Answer :=
  match s.main fuel l.context [] (.run l.code s.env) with
  | (s, some outcome) =>
    let s := s.bindResult l.name outcome
    (s, .outcome (s.world.written outcome))
  | (s, none) => (s, .unfinished)

def hire (s : Session) (name : String) (l : Launch) : Session :=
  let (state, thread) := s.state.spawn { context := l.context, control := .run l.code s.env }
  { s with
    state
    workers := s.workers ++ [{ name, thread, context := l.context, bindAs := l.name }] }

def errands (fuel : Nat) (s : Session) (c : ContextId) (actions : List Action) (answer : Answer) :
    Session × Answer :=
  match s.main fuel c actions (.give 0) with
  | (s, some _) => (s, answer)
  | (s, none) => (s, .unfinished)

def openGate (s : Session) (g : String) : Session × Answer :=
  let standing := s.workers.filter fun w => (s.thread? w).bind Thread.standsAt? == some g
  let threads := standing.foldl (fun threads w => threads.modify w.thread (·.pass g))
    s.state.threads
  ({ s with state := { s.state with threads } }, .count standing.length)

def detour (s : Session) (c : ContextId) (d : Detour) : Session :=
  let context := s.world.context c
  if (s.world.capabilities[context.capability]?).any (·.name.isSome) then
    s.mapWorld (·.setContext c { context with detour := some d })
  else s

/-! ## Looking -/

def inspect (s : Session) (subject : Subject) : Session × Answer :=
  let w := s.world
  match subject with
  | .node x => s.withNode x fun n => (s, .text (w.text n))
  | .weak x => s.withNode x fun n => (s, .text s!"Weak({w.text n})")
  | .thunk x => s.withNode x fun n =>
    (s, ((w.thunk? n).map fun t => Answer.text s!"Thunk[{t.describe}]").getD (.unknown x))
  | .slot x => s.withNode x fun n => (s, .text (w.slotText n))
  | .fields x => s.withNode x fun n =>
    match w.value? n with
    | some (.data _ fields) => (s, .text (bracketed (fields.map w.fieldText)))
    | _ => (s, .unknown x)
  | .bytecode x => s.withNode x fun n =>
    match w.value? n with
    | some (.bytecode code pointers) => (s, .text (code.text pointers.length))
    | _ => (s, .unknown x)
  | .context c => (s, .text (w.contextText c))
  | .registers c => (s, .text (w.registersText (w.context c).registers))
  | .capability c => (s, .text (w.capabilityText (w.context c).capability))
  | .task x => s.withTask x fun t => (s, .text (w.taskStateText t))
  | .taskId x => s.withTask x fun t => (s, .text s!"task-{w.taskName t} {w.taskText t}")
  | .message x => s.withTask x fun t => (s, .text (w.messageText (w.task t).info))
  | .queue x => s.withQueue x fun q => (s, .text (w.queueText q))
  | .registry r => (s, .text (w.registryText r))

def field (s : Session) (n : NodeId) (kind : FieldKind) (index : Nat) : Session × Answer :=
  match s.world.value? n with
  | some (.data _ fields) =>
    match fieldOf kind fields index with
    | .ok (.pointer m) => (s, .outcome (.value (s.world.view m)))
    | .ok (.scalar number) => (s, .outcome (.value (.scalar [] number)))
    | .error e => (s, .outcome (.error e (s.world.message e)))
  | _ => (s, .unknown "field")

def registers (s : Session) (c : ContextId) (clear : Bool) : Session × Answer :=
  let context := s.world.context c
  let s := if clear then s.mapWorld (·.setContext c { context with registers := {} }) else s
  let r := (s.world.context c).registers
  (s, .registers (r.r1.map s.world.view) r)

def contextInfo (s : Session) (c : ContextId) : Option ContextInfo :=
  if s.workers.any fun w => w.context == c && w.ended.isNone then none
  else
    let context := s.world.context c
    some ⟨context.stack.depth, context.interpreter.isSome, context.config.eager⟩

def argInfo (w : World) (arg : Arg) : ArgInfo :=
  match arg with
  | .pointer n => { letter := arg.letter, text := s!"Ptr({w.text n})", pointer := some (w.view n) }
  | .immediate (.scalar number) =>
    { letter := arg.letter, text := number.text, scalar := some number }
  | .immediate (.object o) => { letter := arg.letter, text := "Object(..)", object := some o }
  | .immediate .void => { letter := arg.letter, text := "Void" }

def arguments (fuel : Nat) (s : Session) (layout : List (Option Immediate)) (pointers : List Code) :
    Except Written (List ArgInfo) :=
  let code := Code.prim (.data 0 (pointers.map fun _ => none)) pointers
  match s.main fuel 0 [] (.run code s.env) with
  | (s, some (.value n)) =>
    let ns := match s.world.value? n with
      | some (.data _ fields) => fields.filterMap fun
        | .pointer m => some m
        | .scalar _ => none
      | _ => []
    .ok ((fill Arg.pointer Arg.immediate ns layout).map (argInfo s.world))
  | (s, some outcome) => .error (s.world.written outcome)
  | (_, none) => .error (.panic "unfinished")

/-! ## Registries, queues, capabilities and tasks -/

def onRegistry (fuel : Nat) (s : Session) (r : String) (op : RegistryOp) : Session × Answer :=
  let registry := s.world.registry r
  let change (registry : Registry) : Session × Answer :=
    (s.mapWorld (·.setRegistry r registry), .nothing)
  match op with
  | .keep on => change { registry with keep := on }
  | .keeps => (s, .flag registry.keep)
  | .isEmpty => (s, .flag registry.constants.isEmpty)
  | .length => (s, .count registry.constants.length)
  | .configure config =>
    change { registry with keep := config.keepConstants, verbose := config.debug.gccafs }
  | .register x => s.withNode x fun n =>
    match s.main fuel 0 [] (.register r n) with
    | (s, some _) => (s, .nothing)
    | (s, none) => (s, .unfinished)
  | .revert =>
    match s.main fuel 0 [] (.revert r) with
    | (s, some (.value n)) => (s, .count (s.world.number n).toInt.toNat)
    | (s, _) => (s, .unfinished)

def onQueue (fuel : Nat) (s : Session) (x : String) (op : QueueOp) : Session × Answer :=
  let w := s.world
  match op with
  | .new owner y => s.withTask owner fun t => s.withNode y fun n =>
    (s.mapWorld fun w => (w.addQueue { name := some x, owner := t, thunk := n }).1, .nothing)
  | .push sender y => s.withQueue x fun q => s.withTask sender fun t => s.withNode y fun n =>
    match w.push? q ⟨t, n⟩ with
    | some w => (s.mapWorld fun _ => w, .flag true)
    | none => (s, .flag false)
  | .close => s.withQueue x fun q =>
    (s.mapWorld (·.close q), .names ((w.messages q).map fun m => w.taskName m.task))
  | .wakeAll => s.withQueue x fun q =>
    s.errands fuel 0 [.drain q .silent] (.count (w.messages q).length)
  | .info => s.withQueue x fun q =>
    (s, ((w.queueInfo q).map Answer.queue).getD (.unknown x))

def onCapability (fuel : Nat) (s : Session) (c : ContextId) (op : CapabilityOp) :
    Session × Answer :=
  let k := (s.world.context c).capability
  match op with
  | .pending => (s, .count (s.world.pending k).length)
  | .wake q => s.withQueue q fun q => s.errands fuel c (wakeQueue q) .nothing
  | .check t => s.withTask t fun t => s.errands fuel c [.sweep t] .nothing
  | .message t _ q => s.withTask t fun t => s.withQueue q fun q =>
    let w := (s.world.christen k q).enrol k q
    match w.queues[q]? with
    | none => (s, .unknown "queue")
    | some queue =>
      if queue.closed then (s.mapWorld fun _ => w.withdraw k q, .flag false)
      else (s.mapWorld fun _ => w.emit c (.enlisted k t queue.owner), .flag true)
  | .blocked t => s.withTask t fun t =>
    match s.world.takePermit? t with
    | some w => (s.mapWorld fun _ => w, .nothing)
    | none => (s, .wouldBlock)

def onTask (s : Session) (x : String) (op : TaskOp) : Session × Answer :=
  let info (s : Session) (t : TaskId) : Session × Answer := (s, .task (s.world.taskInfo t))
  match op with
  | .new => (s.mapWorld fun w => (w.addTask { name := some x }).1, .nothing)
  | .wake => s.withTask x fun t => info (s.mapWorld (·.wake t)).absorb t
  | .park => s.withTask x fun t =>
    match s.world.takePermit? t with
    | some w => info (s.mapWorld fun _ => w) t
    | none => (s, .wouldBlock)
  | .block waiting y => s.withTask x fun t => s.withNode y fun n =>
    info (s.mapWorld fun w => w.setTask t ((w.task t).blockOn waiting ⟨t, n⟩)) t
  | .info => s.withTask x fun t => info s t

/-! ## Pools -/

/-- Carries out the jobs of a pool, in at most `turns` turns. While the jobs of some workers are
suspended, the next idle one takes a job. -/
def work (fuel : Nat) : Nat → Session → Pool → Session × Pool
  | 0, s, p => (s, p)
  | turns + 1, s, p =>
    match p.active? s.state, p.idle? with
    | some (i, e), _ =>
      let (s, _) := finish fuel e.thread s
      let (state, p) := p.collect s.state i
      work fuel turns { s with state } p
    | none, some i =>
      let (state, p) := p.take s.state i
      work fuel turns { s with state } p
    | none, none => (s, p)

def collectJob (p : Pool) (s : Session) (job : Nat) (spec : JobSpec) : Session × JobAnswer :=
  if spec.kept then
    match p.result? job with
    | some ⟨.panic _, _⟩ | none => (s, .dropped)
    | some ⟨outcome, depth⟩ =>
      let s := s.bindResult spec.name outcome
      (s, .ended (s.world.written outcome) depth)
  else (s, .nothing)

def collectJobs (p : Pool) : Session → Nat → List JobSpec → Session × List JobAnswer
  | s, _, [] => (s, [])
  | s, job, spec :: specs =>
    let (s, answer) := collectJob p s job spec
    let (s, answers) := collectJobs p s (job + 1) specs
    (s, answer :: answers)

/-- Nobody opens a gate while the jobs are carried out, so they may not wait at one. -/
def pool (fuel : Nat) (s : Session) (config : Config) (interpreter : Option Interpreter)
    (jobs : List JobSpec) : Session × Answer :=
  match Pool.start s.world config interpreter false with
  | .error e => (s, .poolFailed e e.text)
  | .ok (w, p) =>
    let count := p.capabilities.length
    let p := jobs.foldl (fun p job => p.submit job.code s.env) p
    let (s, p) := work fuel fuel (s.mapWorld fun _ => w) p
    let (s, results) := collectJobs p s 0 jobs
    (s, .pool count s!"CapabilityPool \x7b num_capabilities: {count} \x7d" results)

/-! ## Commands -/

def request (fuel : Nat) (s : Session) : Request → Session × Answer
  | .run l => s.run fuel l
  | .spawn worker l => (s.hire worker l, .nothing)
  | .pass g => s.openGate g
  | .detour c d => (s.detour c d, .nothing)
  | .state x => s.withNode x fun n =>
    (s, ((s.world.nodeState n).map Answer.state).getD (.unknown x))
  | .peek x => s.withNode x fun n =>
    (s, .view ((s.world.evaluated? n).map s.world.view))
  | .same x y => s.withNode x fun n => s.withNode y fun m =>
    (s, .flags [n == m, n == m, n == m])
  | .value x => s.withNode x fun n =>
    (s, ((s.world.valueInfo n).map Answer.value).getD (.unknown x))
  | .field x kind index => s.withNode x fun n => s.field n kind index
  | .registers c clear => s.registers c clear
  | .context c => (s, .context (s.contextInfo c) (s.world.taskInfo (s.world.taskOf c)))
  | .assign x l => (s.mapWorld (·.assign x l), .nothing)
  | .read x => (s, .number (s.world.counters.find? x))
  | .drop x => (s.mapWorld (·.unbind x), .nothing)
  | .inspect subject => s.inspect subject
  | .registry r op => s.onRegistry fuel r op
  | .queue q op => s.onQueue fuel q op
  | .capability c op => s.onCapability fuel c op
  | .task t op => s.onTask t op
  | .pool config interpreter jobs => s.pool fuel config interpreter jobs
  | .listen => (s, .flag false)

def requests (fuel : Nat) : Session → List Request → Session × List Answer
  | s, [] => (s, [])
  | s, r :: rs =>
    let (s, answer) := s.request fuel r
    let (s, answers) := requests fuel s rs
    (s, answer :: answers)

def command (fuel : Nat) (s : Session) (c : Command) : Session × Report :=
  let (s, answer) := match c with
    | .single r => s.request fuel r
    | .overlap worker l rs =>
      let (s, answers) := requests fuel (s.hire worker l) rs
      (s, .answers answers)
  let s := s.settle fuel
  (s.acknowledge, ⟨answer, s.changes, s.news⟩)

def perform (fuel : Nat) : Session → List Command → List Report
  | _, [] => []
  | s, c :: cs =>
    let (s, report) := s.command fuel c
    report :: perform fuel s cs

end LazyGraph.Session

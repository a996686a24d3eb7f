import LazyGraph.Describe
import LazyGraph.Machine.Thread

/-!
Reports on the graph: what an observer is shown of nodes, slots, tasks and results.
-/

namespace LazyGraph

inductive View
  | scalar (names : List String) (s : Scalar)
  | object (names : List String) (o : String)
  | data (names : List String) (tag : UInt32) (fields : List (Scalar ⊕ View))
  | function (names : List String) (name : String) (arity : Nat)
  | bytecode (names : List String) (code : Bytecode) (pointers : List View)
  | thunk (names : List String) (description : String)

inductive Written
  | value (v : View)
  | error (e : GraphError) (message : String)
  | panic (message : String)

inductive SlotView
  | unevaluated
  | blackHole (owner : String)
  | locked (owner : Option String)
  | queue (owner : String) (waiters : Nat)
  | evaluated (v : View)

namespace SlotView

def name : SlotView → String
  | .unevaluated => "Unevaluated"
  | .blackHole _ => "BlackHole"
  | .locked _ => "Locked"
  | .queue _ _ => "BlockingQueue"
  | .evaluated _ => "Evaluated"

def isEvaluated : SlotView → Bool
  | .evaluated _ => true
  | _ => false

def isUnderEvaluation : SlotView → Bool
  | .blackHole _ | .queue _ _ => true
  | _ => false

end SlotView

inductive NodeState
  | value (description : String)
  | thunk (slot : SlotView) (cleared isConstant : Bool) (description : String)

structure ValueInfo where
  typeName : String
  description : String
  scalar : Option Scalar
  arity : Option Nat

structure TaskInfo where
  waiting : Bool
  info : Option (String × List String)

structure QueueInfo where
  length : Nat
  closed : Bool
  resolved : Bool
  owner : String
  thunk : List String

namespace World

def viewTo (w : World) : Nat → NodeId → View
  | 0, n => .thunk (w.names.keysOf n) "…"
  | depth + 1, n =>
    let names := w.names.keysOf n
    match w.node? n with
    | some (.value (.scalar s)) => .scalar names s
    | some (.value (.object o)) => .object names o
    | some (.value (.data tag fields)) =>
      .data names tag (fields.map fun
        | .pointer m => .inr (w.viewTo depth m)
        | .scalar s => .inl s)
    | some (.value (.function name arity _ _)) => .function names name arity
    | some (.value (.bytecode code pointers)) =>
      .bytecode names code (pointers.map (w.viewTo depth))
    | some (.thunk t) => .thunk names t.describe
    | none => .thunk names "…"

/-- A whole node: a field is older than its constructor, so there are fewer constructors on the way
than nodes. -/
def view (w : World) (n : NodeId) : View :=
  w.viewTo (w.heap.size + 1) n

def written (w : World) : Thread.Outcome → Written
  | .value n => .value (w.view n)
  | .error e => .error e (w.message e)
  | .panic message => .panic message

def slotView (w : World) (n : NodeId) : SlotView :=
  match (w.slot n).cell with
  | none => .unevaluated
  | some (.blackHole owner) => .blackHole (w.taskName owner)
  | some (.locked owner) => .locked (owner.map w.taskName)
  | some (.queue q owner) => .queue (w.taskName owner) (w.messages q).length
  | some (.value v) => .evaluated (w.view v)

def nodeState (w : World) (n : NodeId) : Option NodeState :=
  (w.node? n).map fun
    | .value v => .value v.describe
    | .thunk t =>
      .thunk (w.slotView n) t.suspension.cleared t.suspension.isConstant t.describe

def valueInfo (w : World) (n : NodeId) : Option ValueInfo :=
  (w.value? n).map fun v =>
    { typeName := v.typeName
      description := v.describe
      scalar := match v with
        | .scalar s => some s
        | _ => none
      arity := match v with
        | .data _ fields => some fields.length
        | _ => none }

def taskInfo (w : World) (t : TaskId) : TaskInfo :=
  ⟨(w.task t).waiting,
    (w.task t).info.map fun m => (w.taskName m.task, w.names.keysOf m.thunk)⟩

def queueInfo (w : World) (q : QueueId) : Option QueueInfo :=
  (w.queues[q]?).map fun queue =>
    { length := queue.messages.length
      closed := queue.closed
      resolved := w.isResolved q
      owner := w.taskName queue.owner
      thunk := w.names.keysOf queue.thunk }

end World

/-! ## Texts of structures -/

namespace World

def taskText (w : World) (t : TaskId) : String :=
  s!"TaskId({w.taskName t})"

def messageText (w : World) : Option Message → String
  | some m => s!"Some(MessageBlackHole \x7b task: {w.taskText m.task} \x7d)"
  | none => "None"

def slotText (w : World) (n : NodeId) : String :=
  match (w.slot n).cell with
  | none => "Unevaluated"
  | some (.blackHole owner) => s!"BlackHole \x7b owner: {w.taskText owner} \x7d"
  | some (.locked none) => "Locked \x7b owner: None \x7d"
  | some (.locked (some owner)) => s!"Locked \x7b owner: Some({w.taskText owner}) \x7d"
  | some (.queue q owner) =>
    s!"BlockingQueue \x7b owner: {w.taskText owner}, waiters: {(w.messages q).length} \x7d"
  | some (.value v) => s!"Evaluated({w.text v})"

def fieldText (w : World) : Field → String
  | .pointer n => w.text n
  | .scalar s => s.suffixed

def contextText (w : World) (c : ContextId) : String :=
  let context := w.context c
  s!"StgContext \x7b task: {w.taskText context.task}, " ++
    s!"capability: {w.capabilityName context.capability}, depth: {context.stack.depth} \x7d"

def registersText (w : World) (r : Registers) : String :=
  let r1 := match r.r1 with
    | some n => s!"Some({w.text n})"
    | none => "None"
  s!"Registers \x7b r1: {r1}, int: {r.int.toInt}, long: {r.long.toInt}, " ++
    s!"float: {Decimal.single.marked r.float.toNat}, " ++
    s!"double: {Decimal.double.marked r.double.toNat} \x7d"

def capabilityText (w : World) (k : CapabilityId) : String :=
  s!"WorkerCapability \x7b id: {w.capabilityName k}, pending_queues: {(w.pending k).length} \x7d"

def taskStateText (w : World) (t : TaskId) : String :=
  let why := if (w.task t).waiting then "BlockedOnBlackHole" else "NotBlocked"
  s!"Task \x7b id: {w.taskText t}, why_blocked: {why} \x7d"

def queueText (w : World) (q : QueueId) : String :=
  match w.queues[q]? with
  | some queue =>
    s!"BlockingQueue \x7b id: {w.queueName q}, owner: {w.taskText queue.owner}, " ++
      s!"waiters: {queue.messages.length}, closed: {queue.closed} \x7d"
  | none => "?"

def registryText (w : World) (r : String) : String :=
  let registry := w.registry r
  s!"CafRegistry \x7b keep: {registry.keep}, len: {registry.constants.length} \x7d"

end World

end LazyGraph

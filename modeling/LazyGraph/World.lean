import LazyGraph.Context
import LazyGraph.Event
import LazyGraph.Registry
import LazyGraph.Scheduler

/-!
The state that all threads share, with its elementary reads and writes. Each of them is one atomic
access.
-/

namespace LazyGraph

abbrev ContextId := Nat

structure World where
  heap : Array Node := #[]
  tasks : Array Task := #[]
  queues : Array Queue := #[]
  maps : Array QueueMap := #[]
  capabilities : Array Capability := #[]
  contexts : Array Context := #[]
  registries : Table Registry := []
  counters : Table Int64 := []
  names : Bindings := []
  log : Log := {}
  christened : Nat := 0
  deriving Inhabited

namespace World

/-! ## Nodes -/

def node? (w : World) (n : NodeId) : Option Node :=
  w.heap[n]?

def value? (w : World) (n : NodeId) : Option Value :=
  (w.node? n).bind Node.value?

def thunk? (w : World) (n : NodeId) : Option Thunk :=
  (w.node? n).bind Node.thunk?

def alloc (w : World) (node : Node) : World × NodeId :=
  ({ w with heap := w.heap.push node }, w.heap.size)

def setThunk (w : World) (n : NodeId) (t : Thunk) : World :=
  { w with heap := w.heap.setIfInBounds n (.thunk t) }

def slot (w : World) (n : NodeId) : Slot :=
  match w.thunk? n with
  | some t => t.slot
  | none => {}

def write (w : World) (n : NodeId) (cell : Option Cell) : World :=
  match w.thunk? n with
  | some t => w.setThunk n { t with slot := t.slot.write cell }
  | none => w

/-- Overwrites a slot that still is as it was `seen`; `none` if it has changed. -/
def exchange? (w : World) (n : NodeId) (seen : Slot) (cell : Option Cell) : Option World :=
  if (w.slot n).unchanged seen then some (w.write n cell) else none

def release (w : World) (n : NodeId) : World :=
  match w.thunk? n with
  | some t => w.setThunk n { t with suspension := t.suspension.clear }
  | none => w

def evaluated? (w : World) (n : NodeId) : Option NodeId :=
  match w.node? n with
  | some (.value _) => some n
  | some (.thunk t) => t.slot.value?
  | none => none

def number (w : World) (n : NodeId) : Int64 :=
  match w.value? n with
  | some (.scalar s) => s.number
  | _ => 0

/-! ## Tasks and queues -/

def task (w : World) (t : TaskId) : Task :=
  w.tasks.getD t {}

def setTask (w : World) (t : TaskId) (task : Task) : World :=
  { w with tasks := w.tasks.setIfInBounds t task }

def wake (w : World) (t : TaskId) : World :=
  w.setTask t (w.task t).wake

def takePermit? (w : World) (t : TaskId) : Option World :=
  if (w.task t).permit then some (w.setTask t (w.task t).resume) else none

def addTask (w : World) (task : Task) : World × TaskId :=
  ({ w with tasks := w.tasks.push task }, w.tasks.size)

def addQueue (w : World) (q : Queue) : World × QueueId :=
  ({ w with queues := w.queues.push q }, w.queues.size)

def messages (w : World) (q : QueueId) : List Message :=
  match w.queues[q]? with
  | some queue => queue.messages
  | none => []

def isClosed (w : World) (q : QueueId) : Bool :=
  match w.queues[q]? with
  | some queue => queue.closed
  | none => true

def isResolved (w : World) (q : QueueId) : Bool :=
  match w.queues[q]? with
  | some queue => (w.evaluated? queue.thunk).isSome
  | none => true

def push? (w : World) (q : QueueId) (m : Message) : Option World :=
  match (w.queues[q]?).bind (·.push? m) with
  | some queue => some { w with queues := w.queues.setIfInBounds q queue }
  | none => none

def close (w : World) (q : QueueId) : World :=
  { w with queues := w.queues.modify q Queue.close }

/-! ## Contexts and capabilities -/

def context (w : World) (c : ContextId) : Context :=
  w.contexts.getD c default

def setContext (w : World) (c : ContextId) (context : Context) : World :=
  { w with contexts := w.contexts.setIfInBounds c context }

def addContext (w : World) (context : Context) : World × ContextId :=
  ({ w with contexts := w.contexts.push context }, w.contexts.size)

def taskOf (w : World) (c : ContextId) : TaskId :=
  (w.context c).task

def mapOf (w : World) (k : CapabilityId) : Nat :=
  match w.capabilities[k]? with
  | some capability => capability.map
  | none => w.maps.size

def pending (w : World) (k : CapabilityId) : QueueMap :=
  w.maps.getD (w.mapOf k) []

def enrol (w : World) (k : CapabilityId) (q : QueueId) : World :=
  { w with maps := w.maps.modify (w.mapOf k) fun m => if m.contains q then m else m ++ [q] }

def withdraw (w : World) (k : CapabilityId) (q : QueueId) : World :=
  { w with maps := w.maps.modify (w.mapOf k) (·.erase q) }

/-- Names a queue by its number if it has no name. Private capabilities name none. -/
def christen (w : World) (k : CapabilityId) (q : QueueId) : World :=
  match (w.capabilities[k]?).bind (·.name), w.queues[q]? with
  | some _, some queue =>
    if queue.name.isSome then w
    else
      { w with
        queues := w.queues.setIfInBounds q { queue with name := some s!"_{w.christened}" }
        christened := w.christened + 1 }
  | _, _ => w

/-! ## Registries, counters and names -/

def registry (w : World) (r : String) : Registry :=
  (w.registries.find? r).getD {}

def setRegistry (w : World) (r : String) (registry : Registry) : World :=
  { w with registries := w.registries.insert r registry }

def counter (w : World) (x : String) : Int64 :=
  (w.counters.find? x).getD 0

def assign (w : World) (x : String) (l : Int64) : World :=
  { w with counters := w.counters.insert x l }

def bind (w : World) (x : String) (n : NodeId) : World :=
  { w with names := w.names.insert x n }

def unbind (w : World) (x : String) : World :=
  { w with names := w.names.erase x }

end World

end LazyGraph

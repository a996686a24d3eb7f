import LazyGraph.Node

/-!
Tasks, the queues in which they wait for a thunk, and the capabilities that keep track of the
queues.
-/

namespace LazyGraph

structure Message where
  task : TaskId
  thunk : NodeId
  deriving DecidableEq

/-- A logical thread. `permit` is set by a wake and consumed by a park, so that a wake that comes
first is not lost. `waiting` tells that the task is about to suspend, and `info` for what. -/
structure Task where
  name : Option String := none
  waiting : Bool := false
  info : Option Message := none
  permit : Bool := false
  deriving DecidableEq, Inhabited

namespace Task

def wake (t : Task) : Task :=
  { t with permit := true }

def blockOn (t : Task) (waiting : Bool) (m : Message) : Task :=
  { t with waiting, info := some m }

def resume (t : Task) : Task :=
  { t with waiting := false, info := none, permit := false }

end Task

structure Queue where
  name : Option String := none
  owner : TaskId
  thunk : NodeId
  messages : List Message := []
  closed : Bool := false
  deriving DecidableEq

namespace Queue

def push? (q : Queue) (m : Message) : Option Queue :=
  if q.closed then none else some { q with messages := q.messages ++ [m] }

def close (q : Queue) : Queue :=
  { q with messages := [], closed := true }

end Queue

abbrev QueueMap := List QueueId

/-- `name` is unknown for a private capability. `traced` switches its log events on. -/
structure Capability where
  name : Option String := none
  map : Nat
  traced : Bool := false
  deriving DecidableEq

end LazyGraph

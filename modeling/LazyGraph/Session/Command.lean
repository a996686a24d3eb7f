import LazyGraph.Pool
import LazyGraph.View

/-!
What a session can be asked to do, and its answers.
-/

namespace LazyGraph.Session

/-- How the capability of a context is made: one of the group, one with a map of its own, or one
of a context that stands alone. -/
inductive Seat
  | group (index : Nat)
  | own
  | alone
  deriving DecidableEq

structure ContextSpec where
  eager : Option Bool := none
  seat : Seat := .group 0
  interpreter : Option Interpreter := none

structure Setup where
  config : Config := { capabilities := some 1 }
  contexts : List ContextSpec := [{}]
  log : Option Level := none

inductive Subject
  | node (x : String)
  | weak (x : String)
  | thunk (x : String)
  | slot (x : String)
  | fields (x : String)
  | bytecode (x : String)
  | context (c : ContextId)
  | registers (c : ContextId)
  | capability (c : ContextId)
  | task (t : String)
  | taskId (t : String)
  | message (t : String)
  | queue (q : String)
  | registry (r : String)

inductive RegistryOp
  | keep (on : Bool)
  | keeps
  | isEmpty
  | length
  | revert
  | register (x : String)
  | configure (config : Config)

inductive QueueOp
  | new (task x : String)
  | push (task x : String)
  | close
  | wakeAll
  | info

inductive CapabilityOp
  | pending
  | wake (q : String)
  | check (t : String)
  | message (t x q : String)
  | blocked (t : String)

inductive TaskOp
  | new
  | wake
  | park
  | block (waiting : Bool) (x : String)
  | info

structure JobSpec where
  code : Code
  name : Option String := none
  kept : Bool := true

structure Launch where
  code : Code
  context : ContextId := 0
  name : Option String := none

inductive Request
  | run (l : Launch)
  | spawn (worker : String) (l : Launch)
  | pass (g : String)
  | detour (c : ContextId) (d : Detour)
  | state (x : String)
  | peek (x : String)
  | same (x y : String)
  | value (x : String)
  | field (x : String) (kind : FieldKind) (index : Nat)
  | registers (c : ContextId) (clear : Bool)
  | context (c : ContextId)
  | assign (x : String) (l : Int64)
  | read (x : String)
  | drop (x : String)
  | inspect (s : Subject)
  | registry (r : String) (op : RegistryOp)
  | queue (q : String) (op : QueueOp)
  | capability (c : ContextId) (op : CapabilityOp)
  | task (t : String) (op : TaskOp)
  | pool (config : Config) (interpreter : Option Interpreter) (jobs : List JobSpec)
  | listen

inductive Command
  | single (r : Request)
  | overlap (worker : String) (l : Launch) (requests : List Request)

structure ContextInfo where
  depth : Nat
  interpreted : Bool
  eager : Bool

structure ArgInfo where
  letter : Char
  text : String
  pointer : Option View := none
  scalar : Option Scalar := none
  object : Option String := none

inductive JobAnswer
  | nothing
  | dropped
  | ended (result : Written) (depth : Nat)

inductive Answer
  | nothing
  | flag (b : Bool)
  | flags (bs : List Bool)
  | count (n : Nat)
  | number (l : Option Int64)
  | text (s : String)
  | names (xs : List String)
  | wouldBlock
  | outcome (o : Written)
  | view (v : Option View)
  | state (s : NodeState)
  | value (v : ValueInfo)
  | registers (r1 : Option View) (r : Registers)
  | context (info : Option ContextInfo) (task : TaskInfo)
  | task (info : TaskInfo)
  | queue (info : QueueInfo)
  | pool (count : Nat) (text : String) (results : List JobAnswer)
  | poolFailed (e : PoolError) (text : String)
  | answers (as : List Answer)
  | unknown (x : String)
  | unfinished

inductive Status
  | gate (g : String)
  | parked
  | done (o : Written)

structure Report where
  answer : Answer
  workers : List (String × Status)
  lines : List String

end LazyGraph.Session

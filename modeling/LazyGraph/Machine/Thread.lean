import LazyGraph.World

/-!
Threads. A thread holds what it does next (`Control`), what it does with the result (`Frame`s) and,
before both, errands that follow from its last step (`Action`s). Each action and each control is one
atomic step, so between any two of them other threads may run.
-/

namespace LazyGraph

inductive Note
  | silent
  | woke
  | released (t : TaskId)
  deriving DecidableEq

inductive Action
  | emit (e : Event)
  | gate (g : String)
  | wake (t : TaskId)
  | drain (q : QueueId) (note : Note)
  | seal (q : QueueId)
  | withdraw (q : QueueId)
  | sweep (t : TaskId)
  | examine (t : TaskId) (todo ready : List QueueId)
  | inspect (t : TaskId) (q : QueueId) (todo ready : List QueueId)
  | dismiss (t : TaskId) (ready : List QueueId)
  /-- Write a slot whatever it holds, and wake the waiters of a queue displaced by that. -/
  | overwrite (n : NodeId) (v : Option NodeId)
  | clear (n : NodeId)
  | abandon (n : NodeId)
  | surrender (n : NodeId) (seen : Slot)
  | release (registry : String)

/-- A task on its way into a queue. `lock` is the slot it has locked to publish the queue; without
it, the queue was in the slot already. -/
structure Waiting where
  thunk : NodeId
  claim : Bool
  queue : QueueId
  owner : TaskId
  lock : Option Slot
  deriving DecidableEq

inductive Control
  | run (c : Code) (env : Env)
  | perform (p : Prim) (operands : List NodeId) (env : Env)
  | give (n : NodeId)
  | fail (e : GraphError)
  | unwind (message : String)
  | evaluate (n : NodeId)
  | enter (n : NodeId)
  | peek (n : NodeId) (other : Code) (env : Env)
  | apply (n : NodeId) (args : List Arg)
  | call (n : NodeId) (args : List Arg)
  /-- Look at the slot of a thunk; `claim` tells whether to take it before running it. -/
  | force (n : NodeId) (claim : Bool)
  | seize (n : NodeId) (seen : Slot)
  | start (n : NodeId) (claim : Bool)
  | body (n : NodeId) (claim : Bool)
  | recheck (n : NodeId) (claim : Bool)
  | update (n v : NodeId)
  | install (n v : NodeId) (seen : Slot)
  | attach (n : NodeId) (claim : Bool)
  | lock (n : NodeId) (claim : Bool) (owner : TaskId) (seen : Slot)
  | gather (n : NodeId) (claim : Bool) (owner : TaskId) (lock : Slot)
  | join (n : NodeId) (claim : Bool) (q : QueueId) (owner : TaskId)
  | enlist (x : Waiting)
  | enrol (x : Waiting)
  | confirm (x : Waiting)
  | retract (x : Waiting)
  | enlisted (x : Waiting) (blocked : Bool)
  | publish (x : Waiting) (blocked : Bool)
  | suspend (n : NodeId) (claim : Bool)
  | parked (n : NodeId) (claim : Bool)
  | probe (op : ThunkOp) (n : NodeId)
  | exchange (n : NodeId) (seen : Slot) (cell : Option Cell)
  | register (registry : String) (n : NodeId)
  | revert (registry : String)

/-! ## Application to nodes -/

namespace Control

def applyP (f a : NodeId) : Control :=
  .apply f [.pointer a]

def applyPP (f a b : NodeId) : Control :=
  .apply f [.pointer a, .pointer b]

def applyPPP (f a b c : NodeId) : Control :=
  .apply f [.pointer a, .pointer b, .pointer c]

def applyPPPP (f a b c d : NodeId) : Control :=
  .apply f [.pointer a, .pointer b, .pointer c, .pointer d]

def applyPPPPP (f a b c d e : NodeId) : Control :=
  .apply f [.pointer a, .pointer b, .pointer c, .pointer d, .pointer e]

def applyPPPPPP (f a b c d e g : NodeId) : Control :=
  .apply f [.pointer a, .pointer b, .pointer c, .pointer d, .pointer e, .pointer g]

/-- Applies a function to stored arguments by the shape that takes as many of them. -/
def applyStored (f : NodeId) : List NodeId → Control
  | [] => .evaluate f
  | [a] => applyP f a
  | [a, b] => applyPP f a b
  | [a, b, c] => applyPPP f a b c
  | [a, b, c, d] => applyPPPP f a b c d
  | [a, b, c, d, e] => applyPPPPP f a b c d e
  | [a, b, c, d, e, g] => applyPPPPPP f a b c d e g
  | more => .apply f (more.map .pointer)

end Control

/-! ## Threads -/

inductive Frame
  | operands (p : Prim) (done : List NodeId) (rest : List Code) (env : Env)
  | branch (yes no : Code) (env : Env)
  | probe (other : Code) (env : Env)
  | handler (c : Code) (env : Env)
  | again
  | applyTo (args : List Arg)
  | project (kind : FieldKind) (index : Nat) (producer : NodeId)
  | running (n : NodeId) (claim : Bool)
  | settling (n : NodeId) (claim : Bool)
  | leaving (n : NodeId)

/-- A thread on a context. Where a thread may not wait, at a gate or for its task to be woken, an
exception is thrown instead. -/
structure Thread where
  context : ContextId
  mayStop : Bool := true
  maySuspend : Bool := true
  agenda : List Action := []
  control : Control
  stack : List Frame := []

abbrev Turn := World × Thread

namespace Thread

def goto (t : Thread) (c : Control) : Thread :=
  { t with control := c }

def push (t : Thread) (f : Frame) (c : Control) : Thread :=
  { t with stack := f :: t.stack, control := c }

def plan (t : Thread) (actions : List Action) (c : Control) : Thread :=
  { t with agenda := actions ++ t.agenda, control := c }

def yield (t : Thread) (w : World) (v : Value) : Turn :=
  let (w, n) := w.alloc (.value v)
  (w, t.goto (.give n))

def raise (t : Thread) (w : World) (message : String) : Turn :=
  (w, t.goto (.fail (.raised message)))

def abort (t : Thread) (w : World) (e : GraphError) : Turn :=
  (w, t.plan [.emit (.fatal (w.taskOf t.context) e)] (.fail e))

def refuse (t : Thread) : Thread :=
  t.goto (.unwind "would block")

inductive Outcome
  | value (n : NodeId)
  | error (e : GraphError)
  | panic (message : String)
  deriving DecidableEq

def outcome? (t : Thread) : Option Outcome :=
  match t.agenda, t.stack, t.control with
  | [], [], .give n => some (.value n)
  | [], [], .fail e => some (.error e)
  | [], [], .unwind message => some (.panic message)
  | _, _, _ => none

def standsAt? (t : Thread) : Option String :=
  match t.agenda with
  | .gate g :: _ => if t.mayStop then some g else none
  | _ => none

def isParked (t : Thread) : Bool :=
  match t.agenda, t.control with
  | [], .parked _ _ => t.maySuspend
  | _, _ => false

def pass (t : Thread) (g : String) : Thread :=
  match t.agenda with
  | .gate h :: rest => if h = g then { t with agenda := rest } else t
  | _ => t

end Thread

end LazyGraph

import LazyGraph.PointerMap
import LazyGraph.Scalar

/-!
Host code: the programs that build, force and inspect the graph.

Code runs in an environment that holds the nodes it captured and the arguments of the functions
around it, so code itself contains no node and can be run again.
-/

namespace LazyGraph

inductive ThunkOp
  | claim
  | tryLock
  | unlock
  | cleared
  | isConstant
  | abandon
  | clear
  | reset
  | set
  | update
  deriving DecidableEq

structure Bytecode where
  instructions : List UInt8
  literals : List UInt8
  arity : Nat
  pointers : PointerMap
  deriving DecidableEq

/-- What is done once all operands are nodes. In a layout, `none` stands for the next operand. -/
inductive Prim
  | box (v : Immediate)
  | data (tag : UInt32) (layout : List (Option Scalar))
  | application
  | selector (kind : FieldKind) (index : Nat)
  | bytecode (code : Bytecode)
  | evaluate
  | enter
  | blackHole
  | apply (layout : List (Option Immediate))
  | sum
  | difference
  | product
  | less
  | last
  | raise (message : String)
  | panic (message : String)
  | read (x : String)
  | increment (x : String)
  | gate (g : String)
  | shape
  | count
  | register (kind : FieldKind)
  | depth
  | onThunk (op : ThunkOp)
  | revert (registry : String)
  | field (kind : FieldKind) (index : Nat)
  deriving DecidableEq

/-- Host code. `captured` reads the bindings that the environment took along, `named` those of the
moment; `arg i up` is argument `i` of the `up`-th function around, counted from the inside. -/
inductive Code
  | captured (x : String)
  | named (x : String)
  | arg (i up : Nat)
  | suspend (body : Code)
  | constant (registry : String) (body : Code)
  | lambda (name : String) (arity : Nat) (body : Code)
  | prim (p : Prim) (operands : List Code)
  | branch (scrutinee yes no : Code)
  | probe (subject other : Code)
  | recover (body handler : Code)
  deriving Inhabited

namespace Code

def evaluated (c : Code) : Code :=
  .prim .evaluate [c]

def arithmetic (p : Prim) (operands : List Code) : Code :=
  .prim p (operands.map evaluated)

end Code

end LazyGraph

import LazyGraph.Code
import LazyGraph.Table

/-!
The nodes of the graph: values, which are final, and thunks, whose slot is written once.
-/

namespace LazyGraph

abbrev NodeId := Nat

abbrev TaskId := Nat

abbrev QueueId := Nat

abbrev Bindings := Table NodeId

inductive Arg
  | pointer (n : NodeId)
  | immediate (v : Immediate)
  deriving DecidableEq

def Arg.letter : Arg → Char
  | .pointer _ => 'P'
  | .immediate (.scalar (.int _)) => 'N'
  | .immediate (.scalar (.long _)) => 'L'
  | .immediate (.scalar (.float _)) => 'F'
  | .immediate (.scalar (.double _)) => 'D'
  | .immediate (.object _) => 'O'
  | .immediate .void => 'V'

def Arg.immediate? : Arg → Option Immediate
  | .pointer _ => none
  | .immediate v => some v

def shapeOf (args : List Arg) : String :=
  String.ofList (args.map Arg.letter)

def isInline (count : Nat) : Bool :=
  count ≤ 6

def fill {α β : Type} (pointer : NodeId → β) (constant : α → β) :
    List NodeId → List (Option α) → List β
  | _, [] => []
  | ns, some a :: layout => constant a :: fill pointer constant ns layout
  | [], none :: layout => fill pointer constant [] layout
  | n :: ns, none :: layout => pointer n :: fill pointer constant ns layout

/-- What code sees of its surroundings: the names at the time it was built, and the arguments of
the functions around it, innermost first. -/
structure Env where
  captured : Bindings := []
  frames : List (List Arg) := []
  deriving DecidableEq, Inhabited

inductive Field
  | pointer (n : NodeId)
  | scalar (s : Scalar)
  deriving DecidableEq

def Field.kind : Field → FieldKind
  | .pointer _ => .pointer
  | .scalar s => s.kind

inductive Value
  | scalar (s : Scalar)
  | object (o : String)
  | data (tag : UInt32) (fields : List Field)
  | function (name : String) (arity : Nat) (body : Code) (env : Env)
  | bytecode (code : Bytecode) (pointers : List NodeId)

namespace Value

def ofImmediate : Immediate → Value
  | .scalar s => .scalar s
  | .object o => .object o
  | .void => .data 0 []

def typeName : Value → String
  | .scalar (.int _) => "Int"
  | .scalar (.long _) => "Long"
  | .scalar (.float _) => "Float"
  | .scalar (.double _) => "Double"
  | .object _ => "Object"
  | .data _ _ => "Data"
  | .function _ _ _ _ => "Function"
  | .bytecode _ _ => "Bco"

end Value

/-- What a thunk does when it is run. All but a constant release it, leaving `none`, once the thunk
has been updated. -/
inductive Suspension
  | updatable (code : Option (Code × Env))
  | application (call : Option (NodeId × List NodeId))
  | selector (kind : FieldKind) (source : Option (Nat × NodeId))
  | constant (code : Code × Env)

namespace Suspension

def clear : Suspension → Suspension
  | .updatable _ => .updatable none
  | .application _ => .application none
  | .selector kind _ => .selector kind none
  | .constant code => .constant code

def cleared : Suspension → Bool
  | .updatable code => code.isNone
  | .application call => call.isNone
  | .selector _ source => source.isNone
  | .constant _ => false

def isConstant : Suspension → Bool
  | .constant _ => true
  | _ => false

end Suspension

inductive Cell
  | blackHole (owner : TaskId)
  | locked (owner : Option TaskId)
  | queue (q : QueueId) (owner : TaskId)
  | value (v : NodeId)
  deriving DecidableEq

def Cell.owner? : Cell → Option TaskId
  | .blackHole owner => some owner
  | .locked owner => owner
  | .queue _ owner => some owner
  | .value _ => none

/-- The slot of a thunk. `stamp` counts the cells published in it, so that two cells with equal
contents are told apart. -/
structure Slot where
  cell : Option Cell := none
  stamp : Nat := 0
  deriving DecidableEq, Inhabited

namespace Slot

def write (s : Slot) : Option Cell → Slot
  | none => { s with cell := none }
  | some c => ⟨some c, s.stamp + 1⟩

/-- Whether the slot still is as it was when `seen` was read: an empty slot is like any other, a
cell is like itself only. -/
def unchanged (s seen : Slot) : Bool :=
  s.cell == seen.cell && (s.cell.isNone || s.stamp == seen.stamp)

def value? (s : Slot) : Option NodeId :=
  match s.cell with
  | some (.value v) => some v
  | _ => none

end Slot

structure Thunk where
  suspension : Suspension
  slot : Slot := {}

inductive Node
  | value (v : Value)
  | thunk (t : Thunk)

namespace Node

def value? : Node → Option Value
  | .value v => some v
  | .thunk _ => none

def thunk? : Node → Option Thunk
  | .value _ => none
  | .thunk t => some t

end Node

end LazyGraph

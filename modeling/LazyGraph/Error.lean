import LazyGraph.Node

/-!
Errors of entry, application and projection.
-/

namespace LazyGraph

inductive GraphError
  | valueEntered (node : NodeId) (description : String)
  | loop (thunk : NodeId)
  /-- A thunk was reset after its free variables had been released. -/
  | cleared (thunk : NodeId)
  | notAFunction (node : NodeId) (description : String)
  | arityMismatch (node : NodeId) (arity supplied : Nat)
  | notAConstructor (node : NodeId) (description : String)
  | fieldOutOfRange (index arity : Nat)
  | fieldType (index : Nat) (expected found : FieldKind)
  | noInterpreter (node : NodeId)
  | raised (message : String)
  | invalidPointerMap (arity size : Nat)
  deriving DecidableEq

namespace GraphError

def isFatal : GraphError → Bool
  | .valueEntered _ _ | .loop _ | .cleared _ => true
  | _ => false

def mapDescription (f : String → String) : GraphError → GraphError
  | .valueEntered node description => .valueEntered node (f description)
  | .notAFunction node description => .notAFunction node (f description)
  | .notAConstructor node description => .notAConstructor node (f description)
  | e => e

def message (label : NodeId → String) : GraphError → String
  | .valueEntered node description => s!"{description} ({label node}) entered"
  | .loop thunk => s!"<<loop>> forcing thunk {label thunk}"
  | .cleared thunk => s!"Thunk {label thunk} was reset after its free variables were released"
  | .notAFunction node description =>
    s!"Cannot apply {description} ({label node}): not a function"
  | .arityMismatch node arity supplied =>
    s!"Function {label node} of arity {arity} applied to {supplied} argument(s)"
  | .notAConstructor node description =>
    s!"Selector producer {label node} reduced to {description}, expected a constructor"
  | .fieldOutOfRange index arity =>
    s!"Field index {index} out of range for constructor with {arity} field(s)"
  | .fieldType index expected found =>
    s!"Field {index}: expected {expected.name}, found {found.name}"
  | .noInterpreter node => s!"No bytecode interpreter installed to run {label node}"
  | .raised message => s!"Interpreter error: {message}"
  | .invalidPointerMap arity size =>
    s!"Pointer bitmap covers {size} slot(s) but closure has arity {arity}"

end GraphError

def addressLabel (n : NodeId) : String :=
  "#0x" ++ String.ofList (Nat.toDigits 16 n)

def fieldAt (fields : List Field) (index : Nat) : Except GraphError Field :=
  match fields[index]? with
  | some f => .ok f
  | none => .error (.fieldOutOfRange index fields.length)

def fieldOf (kind : FieldKind) (fields : List Field) (index : Nat) : Except GraphError Field :=
  match fieldAt fields index with
  | .error e => .error e
  | .ok f => if f.kind = kind then .ok f else .error (.fieldType index kind f.kind)

end LazyGraph

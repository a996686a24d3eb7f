/-!
Unboxed numbers, and the immediate operands that hold them.
-/

namespace LazyGraph

/-- An unboxed number. A floating-point number is its IEEE bit pattern, so that equality is
equality of bits. -/
inductive Scalar
  | int (i : Int32)
  | long (l : Int64)
  | float (bits : UInt32)
  | double (bits : UInt64)
  deriving DecidableEq

inductive FieldKind
  | pointer
  | int
  | long
  | float
  | double
  deriving DecidableEq

def FieldKind.name : FieldKind → String
  | .pointer => "pointer"
  | .int => "int"
  | .long => "long"
  | .float => "float"
  | .double => "double"

def FieldKind.letter : FieldKind → String
  | .pointer => "p"
  | .int => "i"
  | .long => "l"
  | .float => "f"
  | .double => "d"

def Scalar.kind : Scalar → FieldKind
  | .int _ => .int
  | .long _ => .long
  | .float _ => .float
  | .double _ => .double

/-- The operand of integer arithmetic: a floating-point number counts as zero. -/
def Scalar.number : Scalar → Int64
  | .int i => i.toInt64
  | .long l => l
  | .float _ | .double _ => 0

inductive Immediate
  | scalar (s : Scalar)
  | object (o : String)
  | void
  deriving DecidableEq

end LazyGraph

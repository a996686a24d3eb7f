import LazyGraph.Config
import LazyGraph.Node
import Std.Data.TreeSet.Basic

/-!
What a task carries along while it evaluates: the stack of thunks under evaluation and the return
registers.
-/

namespace LazyGraph

/-- The thunks whose evaluation a task has begun, innermost first, and the same thunks as a set, in
which re-entry is looked up. -/
structure UpdateStack where
  frames : List NodeId := []
  active : Std.TreeSet NodeId := ∅
  deriving Inhabited

namespace UpdateStack

def push? (s : UpdateStack) (n : NodeId) : Option UpdateStack :=
  if s.active.contains n then none else some ⟨n :: s.frames, s.active.insert n⟩

def pop (s : UpdateStack) (n : NodeId) : UpdateStack :=
  if s.active.contains n then
    match s.frames.dropWhile (· != n) with
    | [] => s
    | _ :: below =>
      let ended := s.frames.takeWhile (· != n) ++ [n]
      ⟨below, ended.foldl (fun active m => active.erase m) s.active⟩
  else s

def depth (s : UpdateStack) : Nat :=
  s.frames.length

end UpdateStack

structure Registers where
  r1 : Option NodeId := none
  int : Int32 := 0
  long : Int64 := 0
  float : UInt32 := 0
  double : UInt64 := 0
  deriving DecidableEq, Inhabited

namespace Registers

def write (r : Registers) : Scalar → Registers
  | .int i => { r with int := i }
  | .long l => { r with long := l }
  | .float bits => { r with float := bits }
  | .double bits => { r with double := bits }

def read? (r : Registers) : FieldKind → Option Scalar
  | .pointer => none
  | .int => some (.int r.int)
  | .long => some (.long r.long)
  | .float => some (.float r.float)
  | .double => some (.double r.double)

end Registers

/-- The interpreter of compiled closures that a host installs. It chooses the code that is run for a
call by the compiled code, the number of nodes that come with it, and the arguments that are no
nodes. The code finds the arguments in its own frame and the nodes in the frame around it. -/
structure Interpreter where
  program : Bytecode → Nat → List (Option Immediate) → Code

namespace Interpreter

/-- Gives the first node of the closure. -/
def first : Interpreter where
  program code count args :=
    if args.length = code.arity then
      if count = 0 then .prim (.box (.scalar (.int (.ofNat args.length)))) [] else .arg 0 1
    else .prim (.raise s!"expected {code.arity} args") []

/-- Applies the first node of the closure to the arguments. -/
def apply : Interpreter where
  program _ count args :=
    let given := (List.range args.length).filter fun i => args[i]? = some none
    if count = 0 then .prim (.raise "no ptrs") []
    else .prim (.apply args) (.arg 0 1 :: given.map (.arg · 0))

/-- Builds a constructor of the arguments in pointer slots, boxed if need be, and the nodes of the
closure. The fields of the other slots hold their number. -/
def pack : Interpreter where
  program code count args :=
    let slots := List.range args.length
    let field (slot : Nat) : Option Scalar :=
      if code.pointers.isPointer slot then none else some (.int (.ofNat slot))
    .prim (.data (.ofNat code.arity) (slots.map field ++ List.replicate count none))
      ((slots.filter code.pointers.isPointer).map (.arg · 0) ++ (List.range count).map (.arg · 1))

end Interpreter

structure Detour where
  gate : String
  afterwards : Bool
  deriving DecidableEq

abbrev CapabilityId := Nat

structure Context where
  task : TaskId
  capability : CapabilityId
  config : Config := {}
  interpreter : Option Interpreter := none
  stack : UpdateStack := {}
  registers : Registers := {}
  detour : Option Detour := none
  deriving Inhabited

end LazyGraph

import LazyGraph.Digit

/-!
References in texts. A message of host code may look as if it spoke of a node, a task, a capability
or a queue; in reports its numbers are masked, so that only the world itself refers to them.
-/

namespace LazyGraph

structure Spelling where
  lead : String
  digit : Char → Bool
  masked : String

namespace Spelling

def node : Spelling := ⟨"#0x", Digit.isHex, "#?"⟩

def decimal (lead masked : String) : Spelling :=
  ⟨lead, Char.isDigit, lead ++ masked⟩

def all : List Spelling :=
  [node, decimal "task-" "?", decimal "TaskId(" "?", decimal "capability: " "k?",
    decimal "WorkerCapability \x7b id: " "k?", decimal " cap=" "k?",
    decimal "BlockingQueue \x7b id: " "?", decimal " queue=" "?"]

def rest? (s : Spelling) (cs : List Char) : Option (List Char) :=
  match cs.drop s.lead.length with
  | c :: rest =>
    if s.lead.toList.isPrefixOf cs && s.digit c then some (rest.dropWhile s.digit) else none
  | [] => none

def reference? (cs : List Char) : Option (List Char × List Char) :=
  all.findSome? fun s => (s.rest? cs).map fun rest => (s.masked.toList, rest)

end Spelling

/-- Masks references from left to right; `fuel` is at least the length of the text. -/
def maskWithin : Nat → List Char → List Char
  | 0, cs => cs
  | _ + 1, [] => []
  | fuel + 1, c :: cs =>
    match Spelling.reference? (c :: cs) with
    | some (masked, rest) => masked ++ maskWithin fuel rest
    | none => c :: maskWithin fuel cs

def masked (s : String) : String :=
  String.ofList (maskWithin s.length s.toList)

end LazyGraph

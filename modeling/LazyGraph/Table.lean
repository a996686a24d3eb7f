/-!
Tables keyed by text, kept in the order of their keys.
-/

namespace LazyGraph

/-- Each key stands at most once. -/
abbrev Table (α : Type) := List (String × α)

namespace Table

variable {α : Type}

def find? (t : Table α) (x : String) : Option α :=
  t.lookup x

def erase (t : Table α) (x : String) : Table α :=
  t.filter fun entry => entry.1 != x

def insert (t : Table α) (x : String) (a : α) : Table α :=
  t.filter (fun entry => entry.1 < x) ++ (x, a) :: t.filter fun entry => x < entry.1

def keysOf [BEq α] (t : Table α) (a : α) : List String :=
  (t.filter fun entry => entry.2 == a).map (·.1)

end Table

end LazyGraph

import LazyGraph.Node

/-!
Registries of revertible constants.
-/

namespace LazyGraph

/-- While `keep` is set, each constant built in the registry is recorded. `busy` is the lock that is
held while the recorded constants are reset. -/
structure Registry where
  keep : Bool := false
  verbose : Bool := false
  constants : List NodeId := []
  busy : Bool := false
  deriving DecidableEq, Inhabited

namespace Registry

def record (r : Registry) (n : NodeId) : Registry :=
  { r with constants := r.constants ++ [n] }

def lock (r : Registry) : Registry :=
  { r with busy := true }

def release (r : Registry) : Registry :=
  { r with constants := [], busy := false }

end Registry

end LazyGraph

import LazyGraph.Config
import LazyGraph.Config.Document
import LazyGraph.Config.FileTree

/-!
Configurations read from text and from files.
-/

namespace LazyGraph

open Document (Item Entries)

def DebugFlags.ofEntries (entries : Entries) : Option DebugFlags :=
  entries.foldlM set? {}
where
  set? (f : DebugFlags) : String × Item → Option DebugFlags
    | ("scheduler", .boolean b) => some { f with scheduler := b }
    | ("apply", .boolean b) => some { f with apply := b }
    | ("gccafs", .boolean b) => some { f with gccafs := b }
    | ("sanity", .boolean b) => some { f with sanity := b }
    | _ => none

/-- The switches may be listed in their order instead; what follows the fourth is ignored. -/
def DebugFlags.ofItems (items : List Item) : Option DebugFlags :=
  ofEntries (["scheduler", "apply", "gccafs", "sanity"].zip items)

namespace Config

def set? (c : Config) : String × Item → Option Config
  | ("capabilities", .number (.integer i)) =>
    if 0 ≤ i then some { c with capabilities := some i.toNat } else none
  | ("eager_blackholing", .boolean b) => some { c with eager := b }
  | ("keep_cafs", .boolean b) => some { c with keepConstants := b }
  | ("log_level", .string s) => some { c with logLevel := s }
  | ("debug", .table _ entries) => (DebugFlags.ofEntries entries).map ({ c with debug := · })
  | ("debug", .array items) => (DebugFlags.ofItems items).map ({ c with debug := · })
  | _ => none

def ofEntries (entries : Entries) : Option Config :=
  entries.foldlM set? {}

def parse (text : String) : Except ConfigError Config :=
  match (Document.read? text).bind ofEntries with
  | some c => c.validate
  | none => .error (.malformed "not a configuration")

def load (read : String → Except ReadError String) (path : String) : Except ConfigError Config :=
  match read path with
  | .ok text => parse text
  | .error e => .error (.unreadable path e.message)

end Config

end LazyGraph

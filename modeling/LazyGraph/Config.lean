/-!
Configuration of the evaluator, and the values it refuses.
-/

namespace LazyGraph

inductive Level
  | error
  | warn
  | info
  | debug
  | trace
  deriving DecidableEq

namespace Level

def all : List Level := [.error, .warn, .info, .debug, .trace]

def name : Level → String
  | .error => "error"
  | .warn => "warn"
  | .info => "info"
  | .debug => "debug"
  | .trace => "trace"

def tag : Level → String
  | .error => "ERROR"
  | .warn => "WARN"
  | .info => "INFO"
  | .debug => "DEBUG"
  | .trace => "TRACE"

def rank : Level → Nat
  | .error => 0
  | .warn => 1
  | .info => 2
  | .debug => 3
  | .trace => 4

def ofName? (name : String) : Option Level :=
  all.find? fun level => level.name == name

end Level

structure DebugFlags where
  scheduler : Bool := false
  apply : Bool := false
  gccafs : Bool := false
  sanity : Bool := false
  deriving DecidableEq, Inhabited

def DebugFlags.text (f : DebugFlags) : String :=
  s!"DebugFlags \x7b scheduler: {f.scheduler}, apply: {f.apply}, gccafs: {f.gccafs}, " ++
    s!"sanity: {f.sanity} \x7d"

/-- Without a number, there are as many capabilities as processors. -/
structure Config where
  capabilities : Option Nat := none
  eager : Bool := false
  keepConstants : Bool := false
  logLevel : String := "warn"
  debug : DebugFlags := {}
  deriving DecidableEq, Inhabited

inductive ConfigError
  | unreadable (path reason : String)
  | malformed (reason : String)
  | invalid (reason : String)
  deriving DecidableEq

def ConfigError.message : ConfigError → String
  | .unreadable path reason => s!"Cannot read {path}: {reason}"
  | .malformed reason => s!"Invalid runtime configuration: {reason}"
  | .invalid reason => s!"Invalid runtime configuration: {reason}"

namespace Config

def fault? (c : Config) : Option ConfigError :=
  if c.capabilities = some 0 then
    some (.invalid "capabilities must be at least 1")
  else if (Level.ofName? c.logLevel).isNone then
    let levels := ", ".intercalate (Level.all.map Level.name)
    some (.invalid s!"unknown log_level '{c.logLevel}' (expected one of {levels})")
  else
    none

def validate (c : Config) : Except ConfigError Config :=
  match c.fault? with
  | some e => .error e
  | none => .ok c

def groupSize (c : Config) : Nat :=
  max 1 (c.capabilities.getD 1)

end Config

end LazyGraph

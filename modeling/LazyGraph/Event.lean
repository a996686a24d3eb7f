import LazyGraph.Config
import LazyGraph.Error

/-!
What the evaluator reports while it runs.
-/

namespace LazyGraph

inductive Event
  | claimed (thunk : NodeId) (task : TaskId)
  | lostRace (task : TaskId)
  | updated (task : TaskId) (value : NodeId)
  | abandoned (task : TaskId)
  | queued (thunk : NodeId) (owner : TaskId)
  | blocked (thunk : NodeId) (task : TaskId)
  | panicked (thunk : NodeId) (task : TaskId)
  | installing (result : NodeId)
  | fatal (task : TaskId) (e : GraphError)
  | applied (node : NodeId) (shape : String)
  | enlisted (capability : Nat) (task owner : TaskId)
  | woke (capability : Nat) (queue : QueueId) (count : Nat)
  | released (capability : Nat) (task : TaskId) (queue : QueueId) (count : Nat)
  | registered (registry : String) (constant : NodeId) (count : Nat)
  | reverted (registry : String) (count : Nat)
  | poolStarted (capabilities : Nat)
  | jobPanicked (task : TaskId)
  deriving DecidableEq

namespace Event

def level : Event → Level
  | .fatal _ _ => .error
  | .panicked _ _ | .installing _ | .jobPanicked _ => .warn
  | .applied _ _ | .enlisted _ _ _ | .woke _ _ _ | .released _ _ _ _ | .registered _ _ _
  | .reverted _ _ | .poolStarted _ => .debug
  | .claimed _ _ | .lostRace _ | .updated _ _ | .abandoned _ | .queued _ _ | .blocked _ _ =>
    .trace

def target : Event → String
  | .claimed _ _ | .lostRace _ | .updated _ _ | .abandoned _ | .queued _ _ | .blocked _ _
  | .panicked _ _ | .installing _ => "lazyrts::thunk"
  | .fatal _ _ => "lazyrts::barf"
  | .applied _ _ => "lazyrts::apply"
  | .enlisted _ _ _ | .woke _ _ _ | .released _ _ _ _ | .poolStarted _ | .jobPanicked _ =>
    "lazyrts::sched"
  | .registered _ _ _ | .reverted _ _ => "lazyrts::caf"

end Event

/-- An event with its line, which is written only if someone listens at its level. -/
structure Record where
  event : Event
  line : Option String

structure Log where
  level : Option Level := none
  records : Array Record := #[]
  deriving Inhabited

def Log.hears (log : Log) (level : Level) : Bool :=
  log.level.any fun most => level.rank ≤ most.rank

end LazyGraph

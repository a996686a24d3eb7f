import LazyGraph.Session.Command

/-!
Sessions, and the order in which their workers run: the first spawned worker that can go on runs
until it ends or stops; then the next one is chosen, until none can go on.
-/

namespace LazyGraph

/-- A named worker. `ended` is its result as it was when the worker ended, and `shown` is the status
last reported. -/
structure Worker where
  name : String
  thread : ThreadId
  context : ContextId
  bindAs : Option String := none
  ended : Option Written := none
  shown : Option Session.Status := none

structure Session where
  state : State := {}
  workers : List Worker := []
  heard : Nat := 0

namespace Session

def world (s : Session) : World :=
  s.state.world

def mapWorld (s : Session) (f : World → World) : Session :=
  { s with state := { s.state with world := f s.state.world } }

def thread? (s : Session) (w : Worker) : Option Thread :=
  s.state.threads[w.thread]?

def waits (s : Session) (w : Worker) : Bool :=
  (s.thread? w).any fun t => t.standsAt?.isSome || t.isParked

def next? (s : Session) : Option Nat :=
  s.workers.findIdx? fun w => w.ended.isNone && !s.waits w

/-- Parked workers take their permits at once, but do not run yet. -/
def absorb (s : Session) : Session :=
  { s with
    state := s.workers.foldl (fun state w =>
      if (state.threads[w.thread]?).any Thread.isParked then state.step w.thread else state)
      s.state }

def conclude (s : Session) (i : Nat) : Session :=
  match s.workers[i]? with
  | none => s
  | some w =>
    match (s.thread? w).bind Thread.outcome? with
    | none => s
    | some outcome =>
      let s := match w.bindAs, outcome with
        | some x, .value n => s.mapWorld (·.bind x n)
        | _, _ => s
      { s with workers := s.workers.set i { w with ended := some (s.world.written outcome) } }

def stops (s : Session) (i : Nat) : Bool :=
  (s.workers[i]?).all fun w =>
    s.waits w || ((s.thread? w).bind Thread.outcome?).isSome

def advance : Nat → Option Nat → Session → Session
  | 0, _, s => s
  | fuel + 1, none, s =>
    match s.next? with
    | none => s
    | some i => advance fuel (some i) s
  | fuel + 1, some i, s =>
    match s.workers[i]? with
    | none => s
    | some w =>
      let s := { s with state := s.state.step w.thread }
      if s.stops i then advance fuel none (s.conclude i).absorb
      else advance fuel (some i) s.absorb

def settle (fuel : Nat) (s : Session) : Session :=
  advance fuel none s

/-- Runs a thread by itself until it ends or has to wait to be woken, while parked workers only take
their permits. -/
def finish : Nat → ThreadId → Session → Session × Option Thread.Outcome
  | 0, _, s => (s, none)
  | fuel + 1, i, s =>
    match (s.state.threads[i]?).bind Thread.outcome? with
    | some outcome => (s, some outcome)
    | none =>
      if s.state.isStuck i then (s, none)
      else finish fuel i { s with state := s.state.step i }.absorb

def main (fuel : Nat) (s : Session) (c : ContextId) (agenda : List Action) (control : Control) :
    Session × Option Thread.Outcome :=
  let (state, i) :=
    s.state.spawn { context := c, mayStop := false, maySuspend := false, agenda, control }
  finish fuel i { s with state }

def status? (s : Session) (w : Worker) : Option Status :=
  match w.ended, s.thread? w with
  | some o, _ => some (.done o)
  | none, some t =>
    match t.standsAt? with
    | some g => some (.gate g)
    | none => if t.isParked then some .parked else none
  | none, none => none

def Status.same : Status → Status → Bool
  | .gate g, .gate h => g == h
  | .parked, .parked => true
  | .done _, .done _ => true
  | _, _ => false

def change? (s : Session) (w : Worker) : Option Status :=
  (s.status? w).filter fun now => !w.shown.any now.same

def changes (s : Session) : List (String × Status) :=
  s.workers.filterMap fun w => (s.change? w).map fun now => (w.name, now)

def news (s : Session) : List String :=
  (s.world.log.records.toList.drop s.heard).filterMap Record.line

def acknowledge (s : Session) : Session :=
  { s with
    workers := s.workers.map fun w =>
      match s.change? w with
      | some now => { w with shown := some now }
      | none => w
    heard := s.world.log.records.size }

end Session

end LazyGraph

import LazyGraph.Decimal.Notation
import LazyGraph.Reference
import LazyGraph.World

/-!
Texts of nodes, tasks and queues.
-/

namespace LazyGraph

namespace Scalar

def digits : Scalar → String
  | .int i => toString i.toInt
  | .long l => toString l.toInt
  | .float bits => Decimal.single.plain bits.toNat
  | .double bits => Decimal.double.plain bits.toNat

def text : Scalar → String
  | .int i => s!"Int({(Scalar.int i).digits})"
  | .long l => s!"Long({(Scalar.long l).digits})"
  | .float bits => s!"Float({(Scalar.float bits).digits})"
  | .double bits => s!"Double({(Scalar.double bits).digits})"

def suffixed : Scalar → String
  | .int i => (Scalar.int i).digits
  | .long l => (Scalar.long l).digits ++ "L"
  | .float bits => (Scalar.float bits).digits ++ "f"
  | .double bits => (Scalar.double bits).digits ++ "d"

end Scalar

def bracketed (items : List String) : String :=
  "[" ++ ", ".intercalate items ++ "]"

def PointerMap.text (m : PointerMap) : String :=
  s!"BcoBitmap \x7b size: {m.size}, words: {bracketed (m.words.map toString)} \x7d"

def Bytecode.text (code : Bytecode) (pointers : Nat) : String :=
  s!"Bco \x7b instrs: {code.instructions.length}, literals: {code.literals.length}, " ++
    s!"ptrs: {pointers}, arity: {code.arity}, bitmap: {code.pointers.text} \x7d"

def Value.describe : Value → String
  | .scalar s => s.text
  | .object _ => "Object"
  | .data tag fields => s!"Con{tag}/{fields.length}"
  | .function name arity _ _ => s!"Function({name}/{arity})"
  | .bytecode code _ => s!"Bco(arity {code.arity})"

def Suspension.describe : Suspension → String
  | .updatable _ => "thunk"
  | .application (some (_, args)) => s!"ap/{args.length}"
  | .application none => "ap"
  | .selector kind (some (index, _)) => s!"sel_{kind.letter}[{index}]"
  | .selector kind none => s!"sel_{kind.letter}"
  | .constant _ => "caf"

def Slot.describe (s : Slot) : String :=
  match s.cell with
  | none => "unevaluated"
  | some (.blackHole _) => "black hole"
  | some (.locked _) => "locked"
  | some (.queue _ _) => "blocking queue"
  | some (.value _) => "evaluated"

def Thunk.describe (t : Thunk) : String :=
  s!"{t.suspension.describe}, {t.slot.describe}"

namespace World

def label (w : World) (n : NodeId) : String :=
  "#" ++ (w.names.keysOf n).headD "?"

def taskName (w : World) (t : TaskId) : String :=
  (w.task t).name.getD "?"

def queueName (w : World) (q : QueueId) : String :=
  ((w.queues[q]?).bind (·.name)).getD "?"

def capabilityName (w : World) (k : CapabilityId) : String :=
  ((w.capabilities[k]?).bind (·.name)).getD "k?"

def message (w : World) (e : GraphError) : String :=
  match e with
  | .raised _ => masked (e.message w.label)
  | e => (e.mapDescription masked).message w.label

def inspect (w : World) : Nat → NodeId → String
  | 0, _ => "…"
  | depth + 1, n =>
    match w.node? n with
    | some (.value (.data tag fields)) =>
      s!"Con{tag}" ++ bracketed (fields.map fun
        | .pointer m => w.inspect depth m
        | .scalar s => s.suffixed)
    | some (.value v) => masked v.describe
    | some (.thunk t) => s!"Thunk{w.label n}[{t.describe}]"
    | none => "…"

/-- A node with all its fields: a field is older than its constructor, so there are fewer
constructors on the way than nodes. -/
def text (w : World) (n : NodeId) : String :=
  w.inspect (w.heap.size + 1) n

end World

def World.admits (w : World) (c : ContextId) : Event → Bool
  | .applied _ _ => (w.context c).config.debug.apply
  | .installing result => (w.context c).config.debug.sanity && (w.value? result).isNone
  | .enlisted k _ _ | .woke k _ _ | .released k _ _ _ => (w.capabilities[k]?).any (·.traced)
  | .registered r _ _ | .reverted r _ => (w.registry r).verbose
  | _ => true

def World.describe (w : World) : Event → String
  | .claimed n t => s!"claimed thunk={w.label n} task=task-{w.taskName t}"
  | .lostRace t => s!"update lost race task=task-{w.taskName t}"
  | .updated t v => s!"updated task=task-{w.taskName t} value={w.text v}"
  | .abandoned t => s!"abandoned claim task=task-{w.taskName t}"
  | .queued n owner => s!"created blocking queue thunk={w.label n} owner=task-{w.taskName owner}"
  | .blocked n t => s!"blocked on black hole thunk={w.label n} task=task-{w.taskName t}"
  | .panicked n t =>
    s!"evaluation panicked, releasing claim thunk={w.label n} task=task-{w.taskName t}"
  | .installing result => s!"updating thunk with a non-value result={w.text result}"
  | .fatal _ e => w.message e
  | .applied n shape => s!"apply node={w.label n} shape={shape}"
  | .enlisted k t owner =>
    s!"task blocked on black hole cap={w.capabilityName k} task=task-{w.taskName t} " ++
      s!"owner=task-{w.taskName owner}"
  | .woke k q count =>
    s!"woke blocking queue cap={w.capabilityName k} queue={w.queueName q} woken={count}"
  | .released k t q count =>
    s!"released waiters cap={w.capabilityName k} task=task-{w.taskName t} " ++
      s!"queue={w.queueName q} woken={count}"
  | .registered _ n count => s!"registered CAF caf={w.label n} registered={count}"
  | .reverted _ count => s!"reverted CAFs count={count}"
  | .poolStarted count => s!"capability pool started capabilities={count}"
  | .jobPanicked t => s!"job panicked, worker continues task=task-{w.taskName t}"

/-- Records an event that passes its switch. The line is written at once, with the names and
states of the moment. -/
def World.emit (w : World) (c : ContextId) (e : Event) : World :=
  if w.admits c e then
    let line :=
      if w.log.hears e.level then some s!"{e.level.tag} {e.target} {w.describe e}" else none
    { w with log := { w.log with records := w.log.records.push ⟨e, line⟩ } }
  else w

end LazyGraph

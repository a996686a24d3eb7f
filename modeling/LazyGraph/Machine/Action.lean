import LazyGraph.Describe
import LazyGraph.Machine.Thread

/-!
Errands of a thread: reporting, waking, overwriting slots and giving up claims.
-/

namespace LazyGraph

def Note.report (note : Note) (k : CapabilityId) (q : QueueId) (count : Nat) : List Action :=
  match note with
  | .silent => []
  | .woke => [.emit (.woke k q count)]
  | .released t => [.emit (.released k t q count)]

def wakeQueue (q : QueueId) : List Action :=
  [.withdraw q, .drain q .woke]

def Slot.queue? (s : Slot) : Option QueueId :=
  match s.cell with
  | some (.queue q _) => some q
  | _ => none

def afterSurrender (me : TaskId) (seen : Slot) : List Action :=
  .emit (.abandoned me) :: (seen.queue?.map wakeQueue).getD []

def Slot.ownedBy (s : Slot) (t : TaskId) : Bool :=
  (s.cell.bind Cell.owner?) == some t

/-- One errand; those that follow from it come before the rest. -/
def Action.perform (w : World) (t : Thread) : Action → Turn
  | .emit e => (w.emit t.context e, t)
  | .gate g =>
    if t.mayStop then (w, { t with agenda := .gate g :: t.agenda }) else (w, t.refuse)
  | .wake task => (w.wake task, t)
  | .drain q note =>
    let waiters := w.messages q
    let k := (w.context t.context).capability
    (w.close q, { t with
      agenda := waiters.map (fun m => .wake m.task) ++ note.report k q waiters.length ++ t.agenda })
  | .seal q => (w.close q, t)
  | .withdraw q => (w.withdraw (w.context t.context).capability q, t)
  | .sweep task =>
    let known := w.pending (w.context t.context).capability
    (w, { t with agenda := .examine task known [] :: t.agenda })
  | .examine task [] ready => (w, { t with agenda := .dismiss task ready :: t.agenda })
  | .examine task (q :: todo) ready =>
    if w.isClosed q then
      (w, { t with agenda := .examine task todo (ready ++ [q]) :: t.agenda })
    else
      (w, { t with agenda := .inspect task q todo ready :: t.agenda })
  | .inspect task q todo ready =>
    let ready := if w.isResolved q then ready ++ [q] else ready
    (w, { t with agenda := .examine task todo ready :: t.agenda })
  | .dismiss _ [] => (w, t)
  | .dismiss task (q :: ready) =>
    let k := (w.context t.context).capability
    if (w.pending k).contains q then
      (w.withdraw k q,
        { t with agenda := .drain q (.released task) :: .dismiss task ready :: t.agenda })
    else
      (w, { t with agenda := .dismiss task ready :: t.agenda })
  | .overwrite n v =>
    let displaced := (w.slot n).queue?
    (w.write n (v.map .value),
      { t with agenda := (displaced.map fun q => [.drain q .silent]).getD [] ++ t.agenda })
  | .clear n => (w.release n, t)
  | .abandon n =>
    if (w.slot n).ownedBy (w.taskOf t.context) then
      (w, { t with agenda := .surrender n (w.slot n) :: t.agenda })
    else (w, t)
  | .surrender n seen =>
    match w.exchange? n seen none with
    | some w => (w, { t with agenda := afterSurrender (w.taskOf t.context) seen ++ t.agenda })
    | none => (w, { t with agenda := .abandon n :: t.agenda })
  | .release r => (w.setRegistry r (w.registry r).release, t)

end LazyGraph

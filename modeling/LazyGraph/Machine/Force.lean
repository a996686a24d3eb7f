import LazyGraph.Machine.Action

/-!
Forcing a thunk: taking it, running it under an update frame, installing its result, and waiting
for the task that has taken it.
-/

namespace LazyGraph

namespace Thread

def me (t : Thread) (w : World) : TaskId :=
  w.taskOf t.context

def leave (t : Thread) (w : World) (n : NodeId) : World :=
  let c := w.context t.context
  w.setContext t.context { c with stack := c.stack.pop n }

def enter (w : World) (t : Thread) (n : NodeId) : Turn :=
  match w.node? n with
  | some (.thunk _) => (w, t.goto (.force n (w.context t.context).config.eager))
  | some (.value v) => t.abort w (.valueEntered n v.describe)
  | none => t.raise w "no node"

def evaluate (w : World) (t : Thread) (n : NodeId) : Turn :=
  match w.evaluated? n with
  | some v => (w, t.goto (.give v))
  | none => (w, t.push .again (.enter n))

/-- Goes by what the slot holds: a value is the result, an own claim is a loop, a claim of another
task is waited for. -/
def force (w : World) (t : Thread) (n : NodeId) (claim : Bool) : Turn :=
  match (w.slot n).cell with
  | none => (w, t.goto (if claim then .seize n (w.slot n) else .start n false))
  | some (.value v) => (w, t.goto (.give v))
  | some cell =>
    if cell.owner? = some (t.me w) then t.abort w (.loop n) else (w, t.goto (.attach n claim))

def seize (w : World) (t : Thread) (n : NodeId) (seen : Slot) : Turn :=
  match w.exchange? n seen (some (.blackHole (t.me w))) with
  | some w => (w, t.plan [.emit (.claimed n (t.me w))] (.start n true))
  | none => (w, t.goto (.force n true))

/-- Pushes the update frame. Re-entry is a loop, also if the slot was empty. -/
def start (w : World) (t : Thread) (n : NodeId) (claim : Bool) : Turn :=
  let c := w.context t.context
  match c.stack.push? n with
  | some stack => (w.setContext t.context { c with stack }, t.goto (.body n claim))
  | none =>
    (w, t.plan (.emit (.fatal (t.me w) (.loop n)) :: if claim then [.abandon n] else [])
      (.fail (.loop n)))

def body (w : World) (t : Thread) (n : NodeId) (claim : Bool) : Turn :=
  let frame := Frame.running n claim
  let released : Turn :=
    (t.leave w n, t.plan (if claim then [.abandon n] else []) (.recheck n claim))
  match (w.thunk? n).map Thunk.suspension with
  | some (.updatable (some (code, env))) => (w, t.push frame (.run code env))
  | some (.constant (code, env)) => (w, t.push frame (.run code env))
  | some (.application (some (f, args))) => (w, t.push frame (.applyStored f args))
  | some (.selector kind (some (index, producer))) =>
    (w, { t with
      stack := .project kind index producer :: frame :: t.stack, control := .evaluate producer })
  | _ => released

def recheck (w : World) (t : Thread) (n : NodeId) (claim : Bool) : Turn :=
  if (w.slot n).cell.isNone && ((w.thunk? n).any (·.suspension.cleared)) then
    t.abort w (.cleared n)
  else (w, t.goto (.force n claim))

/-! ## Installing a result -/

def settle (t : Thread) (n v : NodeId) : Thread :=
  t.plan [.emit (.installing v)] (.update n v)

def update (w : World) (t : Thread) (n v : NodeId) : Turn :=
  match (w.slot n).value? with
  | some winner =>
    (w, t.plan [.emit (.lostRace (t.me w)), .sweep (t.me w)] (.give winner))
  | none => (w, t.goto (.install n v (w.slot n)))

/-- Who has to be woken once a value took the place of `seen`. A queue of another task may be
registered elsewhere, and behind a lock there may be a queue not yet published. -/
def afterInstall (me : TaskId) (seen : Slot) : List Action :=
  match seen.cell with
  | none => []
  | some (.queue q owner) => wakeQueue q ++ if owner = me then [] else [.sweep me]
  | some (.blackHole owner) => if owner = me then [] else [.sweep me]
  | some _ => [.sweep me]

def install (w : World) (t : Thread) (n v : NodeId) (seen : Slot) : Turn :=
  match w.exchange? n seen (some (.value v)) with
  | some w =>
    (w, t.plan (.clear n :: afterInstall (t.me w) seen ++ [.emit (.updated (t.me w) v)]) (.give v))
  | none => (w, t.goto (.update n v))

/-! ## Waiting -/

/-- Looks for a queue to join. A black hole is locked first, to put a queue in its place. -/
def attach (w : World) (t : Thread) (n : NodeId) (claim : Bool) : Turn :=
  match (w.slot n).cell with
  | none | some (.value _) => (w, t.goto (.force n claim))
  | some (.blackHole owner) =>
    if owner = t.me w then t.abort w (.loop n)
    else (w, t.goto (.lock n claim owner (w.slot n)))
  | some (.locked _) => (w, t)
  | some (.queue q owner) =>
    if owner = t.me w then t.abort w (.loop n) else (w, t.goto (.join n claim q owner))

def lock (w : World) (t : Thread) (n : NodeId) (claim : Bool) (owner : TaskId) (seen : Slot) :
    Turn :=
  match w.exchange? n seen (some (.locked (some owner))) with
  | some w => (w, t.goto (.gather n claim owner (w.slot n)))
  | none => (w, t.goto (.attach n claim))

def gather (w : World) (t : Thread) (n : NodeId) (claim : Bool) (owner : TaskId) (lock : Slot) :
    Turn :=
  let (w, q) := w.addQueue { owner, thunk := n, messages := [⟨t.me w, n⟩] }
  (w, t.goto (.enlist ⟨n, claim, q, owner, some lock⟩))

def join (w : World) (t : Thread) (n : NodeId) (claim : Bool) (q : QueueId) (owner : TaskId) :
    Turn :=
  match w.push? q ⟨t.me w, n⟩ with
  | some w => (w, t.goto (.enlist ⟨n, claim, q, owner, none⟩))
  | none => (w, t.goto (.attach n claim))

def detour (w : World) (t : Thread) (afterwards : Bool) (next : Control) : Turn :=
  let c := w.context t.context
  match c.detour with
  | some d =>
    if d.afterwards = afterwards then
      (w.setContext t.context { c with detour := none }, t.plan [.gate d.gate] next)
    else (w, t.goto next)
  | none => (w, t.goto next)

/-- The queue is registered before it is published, so that whoever writes a value over the lock
finds it. -/
def enlist (w : World) (t : Thread) (x : Waiting) : Turn :=
  t.detour (w.christen (w.context t.context).capability x.queue) false (.enrol x)

def enrol (w : World) (t : Thread) (x : Waiting) : Turn :=
  (w.enrol (w.context t.context).capability x.queue, t.goto (.confirm x))

def confirm (w : World) (t : Thread) (x : Waiting) : Turn :=
  if w.isClosed x.queue then (w, t.goto (.retract x))
  else
    (w, t.plan [.emit (.enlisted (w.context t.context).capability (t.me w) x.owner)]
      (.enlisted x true))

def retract (w : World) (t : Thread) (x : Waiting) : Turn :=
  (w.withdraw (w.context t.context).capability x.queue, t.goto (.enlisted x false))

/-- Puts the queue in the place of the lock; if the lock is gone, so is the reason to wait. -/
def publish (w : World) (t : Thread) (x : Waiting) (blocked : Bool) : Turn :=
  let next (t : Thread) (events : List Event) : Thread :=
    if blocked then
      t.plan ((events ++ [Event.blocked x.thunk (t.me w)]).map .emit) (.suspend x.thunk x.claim)
    else t.plan (events.map .emit) (.force x.thunk x.claim)
  match x.lock with
  | none => (w, next t [])
  | some seen =>
    match w.exchange? x.thunk seen (some (.queue x.queue x.owner)) with
    | some w => (w, next t [.queued x.thunk x.owner])
    | none => (w, t.plan [.seal x.queue] (.force x.thunk x.claim))

def suspend (w : World) (t : Thread) (n : NodeId) (claim : Bool) : Turn :=
  (w.setTask (t.me w) ((w.task (t.me w)).blockOn true ⟨t.me w, n⟩), t.goto (.parked n claim))

def park (w : World) (t : Thread) (n : NodeId) (claim : Bool) : Turn :=
  match w.takePermit? (t.me w) with
  | some w => (w, t.goto (.force n claim))
  | none => (w, if t.maySuspend then t else t.refuse)

end Thread

end LazyGraph

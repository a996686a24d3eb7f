import LazyGraph.Proofs.Quiet

/-!
# What one step of a thread can do

`Step` lists the transitions of a thread, grouped by errands, host code, forcing, waiting and direct
accesses of a host. Every later proof about steps is a case analysis of it.
-/

namespace LazyGraph

/-! ## Kinds of controls, frames and actions -/

def Control.isCode : Control → Bool
  | .run _ _ | .perform _ _ _ | .peek _ _ _ | .apply _ _ | .call _ _ | .register _ _ | .revert _ =>
    true
  | _ => false

/-- Where host code goes without looking at a slot. -/
def Control.isCalm : Control → Bool
  | .give _ | .fail _ | .unwind _ | .evaluate _ | .enter _ => true
  | c => c.isCode

/-- What the application of `f` to some nodes does. Without any, `f` is evaluated. -/
def Control.applying (f : NodeId) : List NodeId → Control
  | [] => .evaluate f
  | args => .apply f (args.map .pointer)

/-- Every shape of application passes on all its arguments, in their order. -/
theorem Control.applyStored_eq (f : NodeId) :
    ∀ args : List NodeId, applyStored f args = applying f args
  | [] | [_] | [_, _] | [_, _, _] | [_, _, _, _] | [_, _, _, _, _] | [_, _, _, _, _, _] => rfl
  | _ :: _ :: _ :: _ :: _ :: _ :: _ :: _ => rfl

theorem Control.isCalm_applyStored (f : NodeId) (args : List NodeId) :
    (applyStored f args).isCalm = true := by
  rw [applyStored_eq]
  cases args <;> rfl

def Control.isExit : Control → Bool
  | .fail _ | .unwind _ => true
  | _ => false

def Frame.isCode : Frame → Bool
  | .operands _ _ _ _ | .branch _ _ _ | .probe _ _ | .handler _ _ | .applyTo _ | .project _ _ _ =>
    true
  | .again | .running _ _ | .settling _ _ | .leaving _ => false

def Action.isReport : Action → Bool
  | .emit _ => true
  | _ => false

/-- Errands that change neither slots nor queues nor tasks. A gate is passed once it is opened. -/
def Action.isQuiet : Action → Bool
  | .emit _ | .gate _ | .clear _ | .release _ | .withdraw _ => true
  | _ => false

/-- The host reads or writes the slot of a thunk itself. -/
def ThunkOp.isRaw : ThunkOp → Bool
  | .cleared | .isConstant | .clear => false
  | _ => true

def giveUp (n : NodeId) (claim : Bool) : List Action :=
  if claim then [.abandon n] else []

theorem Thread.step_idle {w : World} {t : Thread} (idle : t.agenda = []) :
    t.step w = t.proceed w := by
  simp only [step, idle]

theorem Thread.step_cons {w : World} {t : Thread} {a : Action} {as : List Action}
    (next : t.agenda = a :: as) : t.step w = a.perform w { t with agenda := as } := by
  simp only [step, next]

theorem Thread.step_emit {w : World} {t : Thread} {e : Event} {as : List Action}
    (next : t.agenda = .emit e :: as) :
    t.step w = (w.emit t.context e, { t with agenda := as }) := by
  simp only [step, next, Action.perform]

/-! ## The transitions -/

section

variable (w : World) (t : Thread)

inductive Errand : World → Thread → Prop
  | quiet {w' a as} (next : t.agenda = a :: as) (kind : a.isQuiet) (quiet : w.Quiet w') :
    Errand w' { t with agenda := as }
  | stand {g as} (next : t.agenda = .gate g :: as) : Errand w t
  | refuse {g as} (next : t.agenda = .gate g :: as) :
    Errand w { t with agenda := as, control := .unwind "would block" }
  | wake {u as} (next : t.agenda = .wake u :: as) : Errand (w.wake u) { t with agenda := as }
  | drain {q note as reports} (next : t.agenda = .drain q note :: as)
    (kind : ∀ a ∈ reports, a.isReport) :
    Errand (w.close q)
      { t with agenda := (w.messages q).map (fun m => .wake m.task) ++ reports ++ as }
  | seal {q as} (next : t.agenda = .seal q :: as) : Errand (w.close q) { t with agenda := as }
  | sweep {u as known} (next : t.agenda = .sweep u :: as) (lists : ∀ q ∈ known, w.Lists q) :
    Errand w { t with agenda := .examine u known [] :: as }
  | examined {u ready as} (next : t.agenda = .examine u [] ready :: as) :
    Errand w { t with agenda := .dismiss u ready :: as }
  | examineClosed {u q todo ready as} (next : t.agenda = .examine u (q :: todo) ready :: as)
    (closed : w.isClosed q = true) :
    Errand w { t with agenda := .examine u todo (ready ++ [q]) :: as }
  | examineOpen {u q todo ready as} (next : t.agenda = .examine u (q :: todo) ready :: as) :
    Errand w { t with agenda := .inspect u q todo ready :: as }
  | inspectResolved {u q todo ready as} (next : t.agenda = .inspect u q todo ready :: as)
    (resolved : w.isResolved q = true) :
    Errand w { t with agenda := .examine u todo (ready ++ [q]) :: as }
  | inspectOpen {u q todo ready as} (next : t.agenda = .inspect u q todo ready :: as) :
    Errand w { t with agenda := .examine u todo ready :: as }
  | dismissed {u as} (next : t.agenda = .dismiss u [] :: as) : Errand w { t with agenda := as }
  | dismissListed {u q ready as w'} (next : t.agenda = .dismiss u (q :: ready) :: as)
    (quiet : w.Quiet w') :
    Errand w' { t with agenda := .drain q (.released u) :: .dismiss u ready :: as }
  | dismissOther {u q ready as} (next : t.agenda = .dismiss u (q :: ready) :: as) :
    Errand w { t with agenda := .dismiss u ready :: as }
  | overwrite {n v as} (next : t.agenda = .overwrite n v :: as) :
    Errand (w.write n (v.map .value))
      { t with
        agenda := (((w.slot n).queue?).map fun q => [Action.drain q .silent]).getD [] ++ as }
  | abandonOwn {n as} (next : t.agenda = .abandon n :: as)
    (owned : (w.slot n).ownedBy (t.me w) = true) :
    Errand w { t with agenda := .surrender n (w.slot n) :: as }
  | abandonOther {n as} (next : t.agenda = .abandon n :: as)
    (other : (w.slot n).ownedBy (t.me w) = false) : Errand w { t with agenda := as }
  | surrendered {n seen as} (next : t.agenda = .surrender n seen :: as)
    (same : (w.slot n).unchanged seen = true) :
    Errand (w.write n none) { t with agenda := afterSurrender (t.me w) seen ++ as }
  | surrenderMissed {n seen as} (next : t.agenda = .surrender n seen :: as)
    (changed : (w.slot n).unchanged seen = false) :
    Errand w { t with agenda := .abandon n :: as }

inductive HostStep : World → Thread → Prop
  | code {w' l c e} (idle : t.agenda = []) (host : t.control.isCode) (quiet : w.Quiet w')
    (frames : ∀ f ∈ l, f.isCode) (calm : c.isCalm)
    (reports : (∀ a ∈ e, a.isReport) ∨ (∃ g n, e = [.gate g] ∧ c = .give n)) :
    HostStep w' { t with agenda := e, control := c, stack := l ++ t.stack }
  | blackHole {n ns env} (idle : t.agenda = []) (host : t.control = .perform .blackHole (n :: ns) env)
    (free : w.value? n = none) : HostStep w { t with control := .force n true }
  | attempt {op n ns env} (idle : t.agenda = [])
    (host : t.control = .perform (.onThunk op) (n :: ns) env) (raw : op.isRaw) :
    HostStep w { t with control := .probe op n }
  | abandon {w' n ns env m} (idle : t.agenda = [])
    (host : t.control = .perform (.onThunk .abandon) (n :: ns) env) (quiet : w.Quiet w') :
    HostStep w' { t with agenda := [.abandon n], control := .give m }
  | clear {w' n ns env m} (idle : t.agenda = [])
    (host : t.control = .perform (.onThunk .clear) (n :: ns) env) (quiet : w.Quiet w') :
    HostStep w' { t with agenda := [.clear n], control := .give m }
  | reset {w' n ns env m} (idle : t.agenda = [])
    (host : t.control = .perform (.onThunk .reset) (n :: ns) env) (quiet : w.Quiet w') :
    HostStep w' { t with agenda := [.overwrite n none], control := .give m }
  | set {w' n v ns env m} (idle : t.agenda = [])
    (host : t.control = .perform (.onThunk .set) (n :: v :: ns) env) (quiet : w.Quiet w') :
    HostStep w' { t with agenda := [.overwrite n (some v)], control := .give m }
  | update {n v ns env} (idle : t.agenda = [])
    (host : t.control = .perform (.onThunk .update) (n :: v :: ns) env) :
    HostStep w { t with agenda := [.emit (.installing v)], control := .update n v }
  | revert {w' r as m} (idle : t.agenda = []) (host : t.control = .revert r) (quiet : w.Quiet w')
    (resets : ∀ a ∈ as, (∃ n, a = .overwrite n none) ∨ a = .release r ∨ a.isReport) :
    HostStep w' { t with agenda := as, control := .give m }
  | giveCode {w' n f rest l c} (idle : t.agenda = []) (host : t.control = .give n)
    (top : t.stack = f :: rest) (kind : f.isCode) (quiet : w.Quiet w')
    (frames : ∀ f ∈ l, f.isCode) (calm : c.isCalm) :
    HostStep w' { t with control := c, stack := l ++ rest }
  | giveAgain {n rest} (idle : t.agenda = []) (host : t.control = .give n)
    (top : t.stack = .again :: rest) :
    HostStep w { t with control := .evaluate n, stack := rest }
  | giveRunning {v n claim rest} (idle : t.agenda = []) (host : t.control = .give v)
    (top : t.stack = .running n claim :: rest) :
    HostStep w { t with control := .evaluate v, stack := .settling n claim :: rest }
  | giveSettling {v n claim rest} (idle : t.agenda = []) (host : t.control = .give v)
    (top : t.stack = .settling n claim :: rest) :
    HostStep w { t with
      agenda := [.emit (.installing v)], control := .update n v, stack := .leaving n :: rest }
  | giveLeaving {v n rest} (idle : t.agenda = []) (host : t.control = .give v)
    (top : t.stack = .leaving n :: rest) :
    HostStep (t.leave w n) { t with control := .give v, stack := rest }
  | dropCode {f rest c} (idle : t.agenda = []) (exit : t.control.isExit)
    (top : t.stack = f :: rest) (kind : f.isCode)
    (caught : c = t.control ∨ ∃ code env, c = .run code env) :
    HostStep w { t with control := c, stack := rest }
  | dropAgain {rest} (idle : t.agenda = []) (exit : t.control.isExit)
    (top : t.stack = .again :: rest) : HostStep w { t with stack := rest }
  | dropEvaluation {f n claim rest e} (idle : t.agenda = []) (exit : t.control.isExit)
    (top : t.stack = f :: rest) (kind : f = .running n claim ∨ f = .settling n claim)
    (report : ∀ a ∈ e, a.isReport) :
    HostStep (t.leave w n) { t with agenda := e ++ giveUp n claim, stack := rest }
  | dropLeaving {n rest} (idle : t.agenda = []) (exit : t.control.isExit)
    (top : t.stack = .leaving n :: rest) : HostStep (t.leave w n) { t with stack := rest }

/-- From a request for a result to its installation. -/
inductive Forcing : World → Thread → Prop
  | evaluated {n v} (idle : t.agenda = []) (at' : t.control = .evaluate n)
    (known : w.evaluated? n = some v) : Forcing w { t with control := .give v }
  | evaluate {n} (idle : t.agenda = []) (at' : t.control = .evaluate n)
    (unknown : w.evaluated? n = none) :
    Forcing w { t with control := .enter n, stack := .again :: t.stack }
  | enter {n claim} (idle : t.agenda = []) (at' : t.control = .enter n)
    (thunk : (w.thunk? n).isSome) (mode : claim = (w.context t.context).config.eager) :
    Forcing w { t with control := .force n claim }
  | enterFailed {n x e} (idle : t.agenda = []) (at' : t.control = .enter n)
    (report : ∀ a ∈ e, a.isReport) :
    Forcing w { t with agenda := e, control := .fail x }
  | take {n} (idle : t.agenda = []) (at' : t.control = .force n true)
    (free : (w.slot n).cell = none) : Forcing w { t with control := .seize n (w.slot n) }
  | share {n} (idle : t.agenda = []) (at' : t.control = .force n false)
    (free : (w.slot n).cell = none) : Forcing w { t with control := .start n false }
  | done {n claim v} (idle : t.agenda = []) (at' : t.control = .force n claim)
    (held : (w.slot n).cell = some (.value v)) : Forcing w { t with control := .give v }
  | loop {n claim e} (idle : t.agenda = []) (at' : t.control = .force n claim)
    (own : (w.slot n).ownedBy (t.me w) = true) :
    Forcing w { t with agenda := [.emit e], control := .fail (.loop n) }
  | await {n claim cell} (idle : t.agenda = []) (at' : t.control = .force n claim)
    (held : (w.slot n).cell = some cell) (taken : ∀ v, cell ≠ .value v)
    (other : cell.owner? ≠ some (t.me w)) : Forcing w { t with control := .attach n claim }
  | seized {n seen e} (idle : t.agenda = []) (at' : t.control = .seize n seen)
    (same : (w.slot n).unchanged seen = true) :
    Forcing (w.write n (some (.blackHole (t.me w))))
      { t with agenda := [.emit e], control := .start n true }
  | seizeMissed {n seen} (idle : t.agenda = []) (at' : t.control = .seize n seen) :
    Forcing w { t with control := .force n true }
  | started {n claim stack} (idle : t.agenda = []) (at' : t.control = .start n claim)
    (pushed : (w.context t.context).stack.push? n = some stack) :
    Forcing (w.setContext t.context { w.context t.context with stack })
      { t with control := .body n claim }
  | startLoop {n claim e} (idle : t.agenda = []) (at' : t.control = .start n claim)
    (active : (w.context t.context).stack.push? n = none) :
    Forcing w { t with agenda := .emit e :: giveUp n claim, control := .fail (.loop n) }
  | body {n claim l c} (idle : t.agenda = []) (at' : t.control = .body n claim)
    (frames : ∀ f ∈ l, f.isCode) (calm : c.isCalm) :
    Forcing w { t with control := c, stack := l ++ .running n claim :: t.stack }
  | released {n claim} (idle : t.agenda = []) (at' : t.control = .body n claim) :
    Forcing (t.leave w n) { t with agenda := giveUp n claim, control := .recheck n claim }
  | recheckFailed {n claim e'} (idle : t.agenda = []) (at' : t.control = .recheck n claim) :
    Forcing w { t with agenda := [.emit e'], control := .fail (.cleared n) }
  | recheck {n claim} (idle : t.agenda = []) (at' : t.control = .recheck n claim) :
    Forcing w { t with control := .force n claim }
  | updateLost {n v winner e u} (idle : t.agenda = []) (at' : t.control = .update n v)
    (held : (w.slot n).cell = some (.value winner)) :
    Forcing w { t with agenda := [.emit e, .sweep u], control := .give winner }
  | update {n v} (idle : t.agenda = []) (at' : t.control = .update n v)
    (free : (w.slot n).value? = none) : Forcing w { t with control := .install n v (w.slot n) }
  | installed {n v seen e} (idle : t.agenda = []) (at' : t.control = .install n v seen)
    (same : (w.slot n).unchanged seen = true) :
    Forcing (w.write n (some (.value v)))
      { t with
        agenda := .clear n :: Thread.afterInstall (t.me w) seen ++ [.emit e], control := .give v }
  | installMissed {n v seen} (idle : t.agenda = []) (at' : t.control = .install n v seen) :
    Forcing w { t with control := .update n v }

inductive Waits : World → Thread → Prop
  | free {n claim} (idle : t.agenda = []) (at' : t.control = .attach n claim) :
    Waits w { t with control := .force n claim }
  | loop {n claim e} (idle : t.agenda = []) (at' : t.control = .attach n claim)
    (own : (w.slot n).ownedBy (t.me w) = true) :
    Waits w { t with agenda := [.emit e], control := .fail (.loop n) }
  | busy {n claim} (idle : t.agenda = []) (at' : t.control = .attach n claim) : Waits w t
  | lock {n claim owner} (idle : t.agenda = []) (at' : t.control = .attach n claim)
    (held : (w.slot n).cell = some (.blackHole owner)) (other : owner ≠ t.me w) :
    Waits w { t with control := .lock n claim owner (w.slot n) }
  | join {n claim q owner} (idle : t.agenda = []) (at' : t.control = .attach n claim)
    (held : (w.slot n).cell = some (.queue q owner)) (other : owner ≠ t.me w) :
    Waits w { t with control := .join n claim q owner }
  | locked {n claim owner seen} (idle : t.agenda = []) (at' : t.control = .lock n claim owner seen)
    (same : (w.slot n).unchanged seen = true) :
    Waits (w.write n (some (.locked (some owner))))
      { t with
        control := .gather n claim owner ((w.write n (some (.locked (some owner)))).slot n) }
  | lockMissed {n claim owner seen} (idle : t.agenda = [])
    (at' : t.control = .lock n claim owner seen) :
    Waits w { t with control := .attach n claim }
  | gathered {n claim owner lock} (idle : t.agenda = [])
    (at' : t.control = .gather n claim owner lock) :
    Waits (w.addQueue { owner, thunk := n, messages := [⟨t.me w, n⟩] }).1
      { t with control := .enlist ⟨n, claim, w.queues.size, owner, some lock⟩ }
  | joined {w' n claim q owner} (idle : t.agenda = []) (at' : t.control = .join n claim q owner)
    (pushed : w.push? q ⟨t.me w, n⟩ = some w') :
    Waits w' { t with control := .enlist ⟨n, claim, q, owner, none⟩ }
  | joinMissed {n claim q owner} (idle : t.agenda = [])
    (at' : t.control = .join n claim q owner) : Waits w { t with control := .attach n claim }
  | enlist {w' x as} (idle : t.agenda = []) (at' : t.control = .enlist x) (quiet : w.Quiet w')
    (gates : ∀ a ∈ as, ∃ g, a = .gate g) :
    Waits w' { t with agenda := as, control := .enrol x }
  | enrolled {x k} (idle : t.agenda = []) (at' : t.control = .enrol x) :
    Waits (w.enrol k x.queue) { t with control := .confirm x }
  | confirmClosed {x} (idle : t.agenda = []) (at' : t.control = .confirm x)
    (closed : w.isClosed x.queue = true) : Waits w { t with control := .retract x }
  | confirm {x e} (idle : t.agenda = []) (at' : t.control = .confirm x)
    (open' : w.isClosed x.queue = false) :
    Waits w { t with agenda := [.emit e], control := .enlisted x true }
  | retract {w' x} (idle : t.agenda = []) (at' : t.control = .retract x) (quiet : w.Quiet w') :
    Waits w' { t with control := .enlisted x false }
  | enlisted {w' x blocked as} (idle : t.agenda = []) (at' : t.control = .enlisted x blocked)
    (quiet : w.Quiet w') (gates : ∀ a ∈ as, ∃ g, a = .gate g) :
    Waits w' { t with agenda := as, control := .publish x blocked }
  | proceed {x blocked e} (idle : t.agenda = []) (at' : t.control = .publish x blocked)
    (joined : x.lock = none) (reports : ∀ a ∈ e, a.isReport) :
    Waits w { t with
      agenda := e
      control := if blocked then .suspend x.thunk x.claim else .force x.thunk x.claim }
  | published {x blocked seen e} (idle : t.agenda = []) (at' : t.control = .publish x blocked)
    (made : x.lock = some seen) (same : (w.slot x.thunk).unchanged seen = true)
    (reports : ∀ a ∈ e, a.isReport) :
    Waits (w.write x.thunk (some (.queue x.queue x.owner))) { t with
      agenda := e
      control := if blocked then .suspend x.thunk x.claim else .force x.thunk x.claim }
  | publishMissed {x blocked seen} (idle : t.agenda = []) (at' : t.control = .publish x blocked)
    (made : x.lock = some seen) (changed : (w.slot x.thunk).unchanged seen = false) :
    Waits w { t with agenda := [.seal x.queue], control := .force x.thunk x.claim }
  | suspend {n claim} (idle : t.agenda = []) (at' : t.control = .suspend n claim) :
    Waits (w.setTask (t.me w) ((w.task (t.me w)).blockOn true ⟨t.me w, n⟩))
      { t with control := .parked n claim }
  | resumed {n claim} (idle : t.agenda = []) (at' : t.control = .parked n claim)
    (permit : (w.task (t.me w)).permit = true) :
    Waits (w.setTask (t.me w) (w.task (t.me w)).resume) { t with control := .force n claim }
  | asleep {n claim} (idle : t.agenda = []) (at' : t.control = .parked n claim) : Waits w t
  | refuse {n claim} (idle : t.agenda = []) (at' : t.control = .parked n claim) :
    Waits w { t with control := .unwind "would block" }

/-- Attempts of a host on a slot, in two halves. -/
inductive Attempt : World → Thread → Prop
  | probe {op n cell} (idle : t.agenda = []) (at' : t.control = .probe op n)
    (tries : op.attempt? (t.me w) (w.slot n).cell = some cell) :
    Attempt w { t with control := .exchange n (w.slot n) cell }
  | hopeless {w' op n m} (idle : t.agenda = []) (at' : t.control = .probe op n)
    (quiet : w.Quiet w') : Attempt w' { t with control := .give m }
  | exchanged {w' n seen cell m} (idle : t.agenda = []) (at' : t.control = .exchange n seen cell)
    (same : (w.slot n).unchanged seen = true) (quiet : (w.write n cell).Quiet w') :
    Attempt w' { t with control := .give m }
  | missed {w' n seen cell m} (idle : t.agenda = []) (at' : t.control = .exchange n seen cell)
    (quiet : w.Quiet w') : Attempt w' { t with control := .give m }

/-- One step of a thread. A thread that waits for a registry, or has ended, stays as it is. -/
inductive Step : World → Thread → Prop
  | stay : Step w t
  | errand {w' t'} (errand : Errand w t w' t') : Step w' t'
  | host {w' t'} (host : HostStep w t w' t') : Step w' t'
  | forcing {w' t'} (forcing : Forcing w t w' t') : Step w' t'
  | waits {w' t'} (waits : Waits w t w' t') : Step w' t'
  | attempt {w' t'} (attempt : Attempt w t w' t') : Step w' t'

end

end LazyGraph

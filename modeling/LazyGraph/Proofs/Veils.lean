import LazyGraph.Proofs.Seats

/-!
# What a thread does not look at

A veil hides a part of the world. If the elementary accesses do not notice, no step of a thread
does. Nor does a thread look at the frames below those that it works on.
-/

namespace LazyGraph

/-! ## Veils -/

def Context.veiled (config : Config → Config) (capability : CapabilityId → CapabilityId)
    (c : Context) : Context :=
  { c with config := config c.config, capability := capability c.capability }

def Registry.veiled (verbose : Bool → Bool) (r : Registry) : Registry :=
  { r with verbose := verbose r.verbose }

/-- A part of the world is hidden, and the settings of contexts and registries are disguised. What
is left behaves as if the hidden part was not there. -/
structure Veil where
  hide : World → World
  config : Config → Config
  capability : CapabilityId → CapabilityId
  verbose : Bool → Bool
  eager : ∀ c, (config c).eager = c.eager
  heap : ∀ w, (hide w).heap = w.heap
  setHeap : ∀ w heap, hide { w with heap } = { hide w with heap }
  tasks : ∀ w, (hide w).tasks = w.tasks
  setTasks : ∀ w tasks, hide { w with tasks } = { hide w with tasks }
  counters : ∀ w, (hide w).counters = w.counters
  setCounters : ∀ w counters, hide { w with counters } = { hide w with counters }
  names : ∀ w, (hide w).names = w.names
  context : ∀ w c, (hide w).context c = (w.context c).veiled config capability
  setContext : ∀ w c context,
    hide (w.setContext c context) = (hide w).setContext c (context.veiled config capability)
  registry : ∀ w r, (hide w).registry r = (w.registry r).veiled verbose
  setRegistry : ∀ w r registry,
    hide (w.setRegistry r registry) = (hide w).setRegistry r (registry.veiled verbose)
  isClosed : ∀ w q, (hide w).isClosed q = w.isClosed q
  queues : ∀ w, (hide w).queues.size = w.queues.size
  addQueue : ∀ w Q, Q.name = none → hide (w.addQueue Q).1 = ((hide w).addQueue Q).1
  push? : ∀ w q m, (w.push? q m).map hide = (hide w).push? q m
  christen : ∀ w k q, hide (w.christen k q) = (hide w).christen (capability k) q
  enrol : ∀ w k q, hide (w.enrol k q) = (hide w).enrol (capability k) q
  withdraw : ∀ w k q, hide (w.withdraw k q) = (hide w).withdraw (capability k) q

attribute [simp] Veil.eager Veil.heap Veil.tasks Veil.counters Veil.names Veil.context
  Veil.setContext Veil.registry Veil.setRegistry Veil.isClosed Veil.queues Veil.christen Veil.enrol
  Veil.withdraw

namespace Veil

variable (V : Veil) {w : World} {n m : NodeId} {u : TaskId}

/-! ### What can be seen -/

@[simp] theorem node? : (V.hide w).node? n = w.node? n := by
  simp [World.node?]

@[simp] theorem value? : (V.hide w).value? n = w.value? n := by
  simp [World.value?]

@[simp] theorem thunk? : (V.hide w).thunk? n = w.thunk? n := by
  simp [World.thunk?]

@[simp] theorem slot : (V.hide w).slot n = w.slot n := by
  simp [World.slot]

@[simp] theorem evaluated? : (V.hide w).evaluated? n = w.evaluated? n := by
  simp [World.evaluated?]

@[simp] theorem number : (V.hide w).number n = w.number n := by
  simp [World.number]

@[simp] theorem task : (V.hide w).task u = w.task u := by
  simp [World.task]

@[simp] theorem taskOf (c : ContextId) : (V.hide w).taskOf c = w.taskOf c := by
  simp [World.taskOf, Context.veiled]

@[simp] theorem counter (x : String) : (V.hide w).counter x = w.counter x := by
  simp [World.counter]

/-! ### What can be changed -/

@[simp] theorem alloc (x : Node) : V.hide (w.alloc x).1 = ((V.hide w).alloc x).1 :=
  (V.setHeap w _).trans (by simp [World.alloc])

@[simp] theorem alloc_snd (x : Node) : ((V.hide w).alloc x).2 = (w.alloc x).2 := by
  simp [World.alloc]

@[simp] theorem setThunk (th : Thunk) : V.hide (w.setThunk n th) = (V.hide w).setThunk n th :=
  (V.setHeap w _).trans (by simp [World.setThunk])

@[simp] theorem write (cell : Option Cell) : V.hide (w.write n cell) = (V.hide w).write n cell := by
  simp only [World.write, thunk?]
  split
  · exact V.setThunk _
  · rfl

@[simp] theorem release : V.hide (w.release n) = (V.hide w).release n := by
  simp only [World.release, thunk?]
  split
  · exact V.setThunk _
  · rfl

@[simp] theorem exchange? (seen : Slot) (cell : Option Cell) :
    (w.exchange? n seen cell).map V.hide = (V.hide w).exchange? n seen cell := by
  simp only [World.exchange?, slot]
  split
  · simp
  · rfl

@[simp] theorem setTask (task : Task) : V.hide (w.setTask u task) = (V.hide w).setTask u task :=
  (V.setTasks w _).trans (by simp [World.setTask])

@[simp] theorem wake : V.hide (w.wake u) = (V.hide w).wake u := by
  simp [World.wake]

@[simp] theorem takePermit? : (w.takePermit? u).map V.hide = (V.hide w).takePermit? u := by
  simp only [World.takePermit?, task]
  split
  · simp
  · rfl

@[simp] theorem addQueue_snd (Q : Queue) : ((V.hide w).addQueue Q).2 = (w.addQueue Q).2 := by
  simp [World.addQueue]

@[simp] theorem assign (x : String) (l : Int64) :
    V.hide (w.assign x l) = (V.hide w).assign x l :=
  (V.setCounters w _).trans (by simp [World.assign])

end Veil

/-! ## Frames below -/

/-- The thread with more frames below its own. -/
def Thread.over (t : Thread) (below : List Frame) : Thread :=
  { t with stack := t.stack ++ below }

@[simp] theorem Thread.over_nil (t : Thread) : t.over [] = t := by
  simp [Thread.over]

def Veil.turn (V : Veil) (below : List Frame) (x : Turn) : Turn :=
  (V.hide x.1, x.2.over below)

namespace Thread

variable {V : Veil} {below : List Frame} {w : World} {t : Thread} {n m : NodeId}

@[simp] theorem veil_mk : V.turn below (w, t) = (V.hide w, t.over below) :=
  rfl

@[simp] theorem context_over : (t.over below).context = t.context :=
  rfl

@[simp] theorem agenda_over : (t.over below).agenda = t.agenda :=
  rfl

@[simp] theorem control_over : (t.over below).control = t.control :=
  rfl

@[simp] theorem goto_over (c : Control) : (t.goto c).over below = (t.over below).goto c :=
  rfl

@[simp] theorem push_over (f : Frame) (c : Control) :
    (t.push f c).over below = (t.over below).push f c :=
  rfl

@[simp] theorem plan_over (as : List Action) (c : Control) :
    (t.plan as c).over below = (t.over below).plan as c :=
  rfl

@[simp] theorem settle_over : (t.settle n m).over below = (t.over below).settle n m :=
  rfl

@[simp] theorem me_veil : (t.over below).me (V.hide w) = t.me w := by
  simp [me]

theorem leave_veil (below : List Frame) :
    V.hide (t.leave w n) = (t.over below).leave (V.hide w) n := by
  simp [leave, Context.veiled]

@[simp] theorem veil_yield (v : Value) :
    V.turn below (t.yield w v) = (t.over below).yield (V.hide w) v := by
  simp [yield]

@[simp] theorem veil_raise (message : String) :
    V.turn below (t.raise w message) = (t.over below).raise (V.hide w) message :=
  rfl

@[simp] theorem veil_abort (e : GraphError) :
    V.turn below (t.abort w e) = (t.over below).abort (V.hide w) e := by
  simp [abort]

/-! ### Host code -/

@[simp] theorem veil_yieldFlag (b : Bool) :
    V.turn below (t.yieldFlag w b) = (t.over below).yieldFlag (V.hide w) b :=
  veil_yield _

@[simp] theorem veil_yieldAfter (as : List Action) :
    V.turn below (t.yieldAfter w as) = (t.over below).yieldAfter (V.hide w) as := by
  simp [yieldAfter]

@[simp] theorem veil_giveField (field : Except GraphError Field) :
    V.turn below (t.giveField w field) = (t.over below).giveField (V.hide w) field := by
  rcases field with e | (m | s)
  · rfl
  · rfl
  · exact veil_yield _

theorem veil_onThunk (op : ThunkOp) (v : Option NodeId) :
    V.turn below (t.onThunk w op n v) = (t.over below).onThunk (V.hide w) op n v := by
  simp only [onThunk, Veil.thunk?]
  cases w.thunk? n with
  | none => rfl
  | some th => cases op <;> cases v <;> simp

theorem veil_withArgs (env : Env) (f : List Arg → Value) :
    V.turn below (t.withArgs w env f) = (t.over below).withArgs (V.hide w) env f := by
  unfold withArgs
  split <;> simp

theorem veil_readRegister (kind : FieldKind) :
    V.turn below (t.readRegister w kind) = (t.over below).readRegister (V.hide w) kind := by
  simp only [readRegister, Veil.context, Context.veiled, context_over]
  split <;> simp

theorem veil_perform (p : Prim) (ns : List NodeId) (env : Env) :
    V.turn below (t.perform w p ns env) = (t.over below).perform (V.hide w) p ns env := by
  cases p with
  | shape | count => exact veil_withArgs _ _
  | register kind => exact veil_readRegister kind
  | onThunk op =>
    cases ns with
    | nil => rfl
    | cons n ns => exact veil_onThunk op _
  | field kind index =>
    cases ns with
    | nil => rfl
    | cons n ns =>
      simp only [perform, Veil.value?]
      split <;> simp
  | less => rcases ns with _ | ⟨a, _ | ⟨b, ns⟩⟩ <;> simp [perform]
  | last =>
    simp only [perform]
    split <;> simp
  | bytecode code =>
    simp only [perform]
    split <;> simp
  | sum | difference | product =>
    have number : (V.hide w).number = w.number := funext fun n => V.number
    simp [perform, arithmetic, number]
  | depth => simp [perform, Context.veiled]
  | raise | panic | revert => rfl
  | box | data | read | increment | gate => simp [perform]
  | application | selector | evaluate | enter | blackHole | apply => cases ns <;> simp [perform]

theorem veil_run (code : Code) (env : Env) :
    V.turn below (t.run w code env) = (t.over below).run (V.hide w) code env := by
  cases code with
  | captured x | named x =>
    simp only [run, Veil.names]
    split <;> simp
  | arg i up =>
    simp only [run]
    split
    · rfl
    · split <;> simp
  | prim p operands =>
    cases operands with
    | nil => exact veil_perform p [] env
    | cons code codes => rfl
  | branch | probe | recover => rfl
  | «suspend» | lambda => simp [run]
  | constant r body =>
    have keep : (((V.hide w).alloc (.thunk ⟨.constant (body, env), {}⟩)).1.registry r).keep =
        ((w.alloc (.thunk ⟨.constant (body, env), {}⟩)).1.registry r).keep := by
      rw [← V.alloc, V.registry]
      rfl
    simp [run, keep]

/-! ### Application -/

theorem veil_callFunction (arity : Nat) (body : Code) (env : Env) (args : List Arg) :
    V.turn below (t.callFunction w n arity body env args) =
      (t.over below).callFunction (V.hide w) n arity body env args := by
  unfold callFunction
  split
  · rfl
  · split <;> rfl

theorem veil_call (args : List Arg) :
    V.turn below (t.call w n args) = (t.over below).call (V.hide w) n args := by
  simp only [call, Veil.node?]
  rcases w.node? n with _ | (v | th)
  · rfl
  · cases v with
    | function name arity body env => exact veil_callFunction arity body env args
    | bytecode code pointers =>
      simp only [Veil.context, Context.veiled, context_over]
      cases (w.context t.context).interpreter <;> rfl
    | _ => rfl
  · simp only
    split <;> rfl

/-! ### Constants, frames and requests -/

theorem veil_register (r : String) :
    V.turn below (t.register w r n) = (t.over below).register (V.hide w) r n := by
  cases busy : (w.registry r).busy <;>
    simp [register, Registry.veiled, Registry.record, busy]

theorem veil_revert (r : String) :
    V.turn below (t.revert w r) = (t.over below).revert (V.hide w) r := by
  cases busy : (w.registry r).busy with
  | true => simp [revert, Registry.veiled, busy]
  | false =>
    have next : ∀ (w : World) x y, ((w.setRegistry r x).alloc y).2 = w.heap.size :=
      fun _ _ _ => rfl
    simp [revert, Registry.veiled, Registry.lock, busy, next]

theorem veil_project (kind : FieldKind) (index : Nat) (producer : NodeId) :
    V.turn below (t.project w kind index producer n) =
      (t.over below).project (V.hide w) kind index producer n := by
  simp only [project, Veil.value?]
  split
  · split <;> simp [Context.veiled]
  · rfl
  · rfl

/-- The own frames of the thread are not at an end. -/
def Aside (t : Thread) (below : List Frame) : Prop :=
  t.control.isOutcome = true → t.stack = [] → below = []

theorem veil_give (at' : t.control = .give n) (aside : t.Aside below) :
    V.turn below (t.give w n) = (t.over below).give (V.hide w) n := by
  have ends := aside (by rw [at']; rfl)
  obtain ⟨context, mayStop, maySuspend, agenda, control, stack⟩ := t
  cases stack with
  | nil =>
    obtain rfl := ends rfl
    simp [give]
  | cons f stack =>
    cases f with
    | operands p done rest env => cases rest <;> rfl
    | project kind index producer => exact veil_project kind index producer
    | leaving m => exact congrArg (·, _) (leave_veil below)
    | branch => simp [give, Thread.over, goto]
    | _ => rfl

theorem veil_fail {e : GraphError} (at' : t.control = .fail e) (aside : t.Aside below) :
    V.turn below (t.fail w e) = (t.over below).fail (V.hide w) e := by
  have ends := aside (by rw [at']; rfl)
  obtain ⟨context, mayStop, maySuspend, agenda, control, stack⟩ := t
  cases stack with
  | nil =>
    obtain rfl := ends rfl
    simp [fail]
  | cons f stack =>
    cases f with
    | leaving m | running m claim | settling m claim => exact congrArg (·, _) (leave_veil below)
    | _ => rfl

theorem veil_unwind {message : String} (at' : t.control = .unwind message)
    (aside : t.Aside below) :
    V.turn below (t.unwind w message) = (t.over below).unwind (V.hide w) message := by
  have ends := aside (by rw [at']; rfl)
  obtain ⟨context, mayStop, maySuspend, agenda, control, stack⟩ := t
  cases stack with
  | nil =>
    obtain rfl := ends rfl
    simp [unwind]
  | cons f stack =>
    cases f with
    | leaving m => exact congrArg (·, _) (leave_veil below)
    | running m claim | settling m claim =>
      simp only [unwind, Thread.over, List.cons_append, veil_mk, leave_veil below]
      simp [plan, me]
    | _ => rfl

theorem veil_evaluate :
    V.turn below (t.evaluate w n) = (t.over below).evaluate (V.hide w) n := by
  simp only [evaluate, Veil.evaluated?]
  split <;> rfl

theorem veil_enter : V.turn below (t.enter w n) = (t.over below).enter (V.hide w) n := by
  simp only [enter, Veil.node?]
  rcases w.node? n with _ | (v | th)
  · rfl
  · exact veil_abort _
  · simp [Context.veiled]

/-! ### Thunks -/

theorem veil_force (claim : Bool) :
    V.turn below (t.force w n claim) = (t.over below).force (V.hide w) n claim := by
  simp only [force, Veil.slot, me_veil]
  split
  · rfl
  · rfl
  · split
    · exact veil_abort _
    · rfl

theorem veil_seize (seen : Slot) :
    V.turn below (t.seize w n seen) = (t.over below).seize (V.hide w) n seen := by
  simp only [seize, me_veil, ← Veil.exchange?]
  cases w.exchange? n seen (some (.blackHole (t.me w))) <;> simp

theorem veil_start (claim : Bool) :
    V.turn below (t.start w n claim) = (t.over below).start (V.hide w) n claim := by
  simp only [start, Veil.context, Context.veiled, me_veil, context_over]
  split <;> simp [Context.veiled]

theorem veil_body (claim : Bool) :
    V.turn below (t.body w n claim) = (t.over below).body (V.hide w) n claim := by
  simp only [body, Veil.thunk?]
  split <;> simp [leave_veil below]
  rfl

theorem veil_recheck (claim : Bool) :
    V.turn below (t.recheck w n claim) = (t.over below).recheck (V.hide w) n claim := by
  simp only [recheck, Veil.slot, Veil.thunk?]
  split
  · exact veil_abort _
  · rfl

theorem veil_update : V.turn below (t.update w n m) = (t.over below).update (V.hide w) n m := by
  simp only [update, Veil.slot, me_veil]
  split <;> rfl

theorem veil_install (seen : Slot) :
    V.turn below (t.install w n m seen) = (t.over below).install (V.hide w) n m seen := by
  simp only [install, ← Veil.exchange?]
  cases w.exchange? n seen (some (.value m)) <;> simp

/-! ### Waiting -/

theorem veil_attach (claim : Bool) :
    V.turn below (t.attach w n claim) = (t.over below).attach (V.hide w) n claim := by
  simp only [attach, Veil.slot, me_veil]
  split
  · rfl
  · rfl
  · split
    · exact veil_abort _
    · rfl
  · rfl
  · split
    · exact veil_abort _
    · rfl

theorem veil_lock (claim : Bool) (owner : TaskId) (seen : Slot) :
    V.turn below (t.lock w n claim owner seen) =
      (t.over below).lock (V.hide w) n claim owner seen := by
  simp only [lock, ← Veil.exchange?]
  cases w.exchange? n seen (some (.locked (some owner))) <;> simp

theorem veil_gather (claim : Bool) (owner : TaskId) (lock : Slot) :
    V.turn below (t.gather w n claim owner lock) =
      (t.over below).gather (V.hide w) n claim owner lock := by
  simp [gather, V.addQueue]

theorem veil_join (claim : Bool) (q : QueueId) (owner : TaskId) :
    V.turn below (t.join w n claim q owner) =
      (t.over below).join (V.hide w) n claim q owner := by
  simp only [join, me_veil, ← V.push?]
  cases w.push? q ⟨t.me w, n⟩ <;> simp

theorem veil_detour (afterwards : Bool) (next : Control) :
    V.turn below (t.detour w afterwards next) =
      (t.over below).detour (V.hide w) afterwards next := by
  simp only [detour, Veil.context, Context.veiled, context_over]
  cases (w.context t.context).detour with
  | none => rfl
  | some d =>
    simp only
    split <;> simp [Context.veiled]

theorem veil_enlist (x : Waiting) :
    V.turn below (t.enlist w x) = (t.over below).enlist (V.hide w) x := by
  simp [enlist, veil_detour, Context.veiled]

theorem veil_enrol (x : Waiting) :
    V.turn below (t.enrol w x) = (t.over below).enrol (V.hide w) x := by
  simp [enrol, Context.veiled]

theorem veil_confirm (x : Waiting)
    (open' : V.capability (w.context t.context).capability = (w.context t.context).capability) :
    V.turn below (t.confirm w x) = (t.over below).confirm (V.hide w) x := by
  simp only [confirm, V.isClosed]
  split <;> simp [Context.veiled, open']

theorem veil_retract (x : Waiting) :
    V.turn below (t.retract w x) = (t.over below).retract (V.hide w) x := by
  simp [retract, Context.veiled]

theorem veil_publish (x : Waiting) (blocked : Bool) :
    V.turn below (t.publish w x blocked) = (t.over below).publish (V.hide w) x blocked := by
  simp only [publish, me_veil]
  cases x.lock with
  | none => cases blocked <;> rfl
  | some seen =>
    simp only [← Veil.exchange?]
    cases w.exchange? x.thunk seen (some (.queue x.queue x.owner)) <;> cases blocked <;> simp

theorem veil_suspend (claim : Bool) :
    V.turn below (t.suspend w n claim) = (t.over below).suspend (V.hide w) n claim := by
  simp [«suspend»]

theorem veil_park (claim : Bool) :
    V.turn below (t.park w n claim) = (t.over below).park (V.hide w) n claim := by
  simp only [park, me_veil, ← Veil.takePermit?]
  cases w.takePermit? (t.me w) with
  | none =>
    cases may : t.maySuspend <;> simp [Thread.over, refuse, goto, may]
  | some w' => simp

/-! ### Attempts of hosts -/

theorem veil_probe (op : ThunkOp) :
    V.turn below (t.probe w op n) = (t.over below).probe (V.hide w) op n := by
  simp only [probe, me_veil, Veil.slot]
  split <;> simp

theorem veil_exchange (seen : Slot) (cell : Option Cell) :
    V.turn below (t.exchange w n seen cell) = (t.over below).exchange (V.hide w) n seen cell := by
  simp only [exchange, ← Veil.exchange?]
  cases w.exchange? n seen cell <;> simp

/-! ### Steps -/

/-- Where a thread registers a queue, it reports on its capability. -/
theorem veil_proceed (aside : t.Aside below) (open' : ∀ x, t.control = .confirm x →
      V.capability (w.context t.context).capability = (w.context t.context).capability) :
    V.turn below (t.proceed w) = (t.over below).proceed (V.hide w) := by
  unfold proceed
  rw [control_over]
  cases at' : t.control with
  | run code env => exact veil_run code env
  | perform p ns env => exact veil_perform p ns env
  | give n => exact veil_give at' aside
  | fail e => exact veil_fail at' aside
  | unwind message => exact veil_unwind at' aside
  | evaluate n => exact veil_evaluate
  | enter n => exact veil_enter
  | peek n other env =>
    simp only [Veil.evaluated?]
    split <;> rfl
  | apply n args => rfl
  | call n args => exact veil_call args
  | force n claim => exact veil_force claim
  | seize n seen => exact veil_seize seen
  | start n claim => exact veil_start claim
  | body n claim => exact veil_body claim
  | recheck n claim => exact veil_recheck claim
  | update n v => exact veil_update
  | install n v seen => exact veil_install seen
  | attach n claim => exact veil_attach claim
  | lock n claim owner seen => exact veil_lock claim owner seen
  | gather n claim owner lock => exact veil_gather claim owner lock
  | join n claim q owner => exact veil_join claim q owner
  | enlist x => exact veil_enlist x
  | enrol x => exact veil_enrol x
  | confirm x => exact veil_confirm x (open' x at')
  | retract x => exact veil_retract x
  | enlisted x blocked => exact veil_detour true _
  | publish x blocked => exact veil_publish x blocked
  | «suspend» n claim => exact veil_suspend claim
  | parked n claim => exact veil_park claim
  | probe op n => exact veil_probe op
  | exchange n seen cell => exact veil_exchange seen cell
  | register r n => exact veil_register r
  | revert r => exact veil_revert r

end Thread

end LazyGraph

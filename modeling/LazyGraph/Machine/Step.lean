import LazyGraph.Machine.Prim

/-!
One step of a thread, and of one thread among others.
-/

namespace LazyGraph

namespace Thread

def run (w : World) (t : Thread) (c : Code) (env : Env) : Turn :=
  let found (x : String) : Option NodeId → Turn
    | some n => (w, t.goto (.give n))
    | none => t.raise w s!"unbound {x}"
  match c with
  | .captured x => found x (env.captured.find? x)
  | .named x => found x (w.names.find? x)
  | .arg i up =>
    match env.frames[up]? with
    | none => t.raise w "no frame"
    | some args =>
      match args[i]? with
      | none => t.raise w s!"no arg {i}"
      | some (.pointer n) => (w, t.goto (.give n))
      | some (.immediate v) => t.yield w (.ofImmediate v)
  | .suspend body =>
    let (w, n) := w.alloc (.thunk ⟨.updatable (some (body, env)), {}⟩)
    (w, t.goto (.give n))
  | .constant r body =>
    let (w, n) := w.alloc (.thunk ⟨.constant (body, env), {}⟩)
    (w, t.goto (if (w.registry r).keep then .register r n else .give n))
  | .lambda name arity body => t.yield w (.function name arity body env)
  | .prim p [] => t.perform w p [] env
  | .prim p (c :: cs) => (w, t.push (.operands p [] cs env) (.run c env))
  | .branch scrutinee yes no => (w, t.push (.branch yes no env) (.run scrutinee env))
  | .probe subject other => (w, t.push (.probe other env) (.run subject env))
  | .recover body handler => (w, t.push (.handler handler env) (.run body env))

def register (w : World) (t : Thread) (r : String) (n : NodeId) : Turn :=
  let registry := w.registry r
  if registry.busy then (w, t)
  else
    let registry := registry.record n
    (w.setRegistry r registry,
      t.plan [.emit (.registered r n registry.constants.length)] (.give n))

def revert (w : World) (t : Thread) (r : String) : Turn :=
  let registry := w.registry r
  if registry.busy then (w, t)
  else
    let count := registry.constants.length
    let resets := (registry.constants.filter fun n => (w.thunk? n).isSome).map (.overwrite · none)
    let (w, n) := (w.setRegistry r registry.lock).alloc
      (.value (.scalar (.long (.ofNat count))))
    (w, t.plan (resets ++ [.release r, .emit (.reverted r count)]) (.give n))

def project (w : World) (t : Thread) (kind : FieldKind) (index : Nat) (producer n : NodeId) :
    Turn :=
  let context := w.context t.context
  let setRegisters (registers : Registers) : World :=
    w.setContext t.context { context with registers }
  match w.value? n with
  | some (.data _ fields) =>
    match fieldOf kind fields index with
    | .error e => (w, t.goto (.fail e))
    | .ok (.pointer m) =>
      (setRegisters { context.registers with r1 := some m }, t.goto (.give m))
    | .ok (.scalar s) => t.yield (setRegisters (context.registers.write s)) (.scalar s)
  | some v => (w, t.goto (.fail (.notAConstructor producer v.describe)))
  | none => (w, t.goto (.fail (.notAConstructor producer "thunk")))

def give (w : World) (t : Thread) (n : NodeId) : Turn :=
  match t.stack with
  | [] => (w, t)
  | frame :: stack =>
    let t := { t with stack }
    match frame with
    | .operands p done [] env => (w, t.goto (.perform p (done ++ [n]) env))
    | .operands p done (c :: cs) env =>
      (w, t.push (.operands p (done ++ [n]) cs env) (.run c env))
    | .branch yes no env => (w, t.goto (.run (if w.number n = 0 then no else yes) env))
    | .probe other env => (w, t.goto (.peek n other env))
    | .handler _ _ => (w, t.goto (.give n))
    | .again => (w, t.goto (.evaluate n))
    | .applyTo args => (w, t.goto (.apply n args))
    | .project kind index producer => t.project w kind index producer n
    | .running thunk claim => (w, t.push (.settling thunk claim) (.evaluate n))
    | .settling thunk _ => (w, ({ t with stack := .leaving thunk :: stack }).settle thunk n)
    | .leaving thunk => (t.leave w thunk, t.goto (.give n))

def fail (w : World) (t : Thread) (e : GraphError) : Turn :=
  match t.stack with
  | [] => (w, t)
  | frame :: stack =>
    let t := { t with stack }
    match frame with
    | .handler c env => (w, t.goto (.run c env))
    | .running n claim | .settling n claim =>
      (t.leave w n, t.plan (if claim then [.abandon n] else []) (.fail e))
    | .leaving n => (t.leave w n, t)
    | _ => (w, t)

def unwind (w : World) (t : Thread) (message : String) : Turn :=
  match t.stack with
  | [] => (w, t)
  | frame :: stack =>
    let t := { t with stack }
    match frame with
    | .running n claim | .settling n claim =>
      (t.leave w n,
        t.plan (if claim then [.emit (.panicked n (t.me w)), .abandon n] else [])
          (.unwind message))
    | .leaving n => (t.leave w n, t)
    | _ => (w, t)

def proceed (w : World) (t : Thread) : Turn :=
  match t.control with
  | .run c env => t.run w c env
  | .perform p operands env => t.perform w p operands env
  | .give n => t.give w n
  | .fail e => t.fail w e
  | .unwind message => t.unwind w message
  | .evaluate n => t.evaluate w n
  | .enter n => t.enter w n
  | .peek n other env =>
    match w.evaluated? n with
    | some v => (w, t.goto (.give v))
    | none => (w, t.goto (.run other env))
  | .apply n args => t.apply w n args
  | .call n args => t.call w n args
  | .force n claim => t.force w n claim
  | .seize n seen => t.seize w n seen
  | .start n claim => t.start w n claim
  | .body n claim => t.body w n claim
  | .recheck n claim => t.recheck w n claim
  | .update n v => t.update w n v
  | .install n v seen => t.install w n v seen
  | .attach n claim => t.attach w n claim
  | .lock n claim owner seen => t.lock w n claim owner seen
  | .gather n claim owner lock => t.gather w n claim owner lock
  | .join n claim q owner => t.join w n claim q owner
  | .enlist x => t.enlist w x
  | .enrol x => t.enrol w x
  | .confirm x => t.confirm w x
  | .retract x => t.retract w x
  | .enlisted x blocked => t.detour w true (.publish x blocked)
  | .publish x blocked => t.publish w x blocked
  | .suspend n claim => t.suspend w n claim
  | .parked n claim => t.park w n claim
  | .probe op n => t.probe w op n
  | .exchange n seen cell => t.exchange w n seen cell
  | .register r n => t.register w r n
  | .revert r => t.revert w r

def step (w : World) (t : Thread) : Turn :=
  match t.agenda with
  | action :: agenda => action.perform w { t with agenda }
  | [] => t.proceed w

end Thread

abbrev ThreadId := Nat

structure State where
  world : World := {}
  threads : Array Thread := #[]
  deriving Inhabited

namespace State

def step (s : State) (i : ThreadId) : State :=
  match s.threads[i]? with
  | none => s
  | some t =>
    let (world, t) := t.step s.world
    ⟨world, s.threads.setIfInBounds i t⟩

def spawn (s : State) (t : Thread) : State × ThreadId :=
  ({ s with threads := s.threads.push t }, s.threads.size)

def isStuck (s : State) (i : ThreadId) : Bool :=
  (s.threads[i]?).any fun t => t.isParked && !(s.world.task (t.me s.world)).permit

def follow (s : State) (schedule : List ThreadId) : State :=
  schedule.foldl step s

end State

end LazyGraph

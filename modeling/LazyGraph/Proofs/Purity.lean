import LazyGraph.Proofs.Realization
import LazyGraph.Proofs.Seats

/-!
# Pure programs

Whether code is pure can be told from its text. Threads run nothing but what comes from outside and
parts of it, so if that is pure, pure code is all that is ever run.
-/

namespace LazyGraph

mutual

/-- Code that does not catch errors, use variables, look up names, probe, read registers or the depth
of the stack, use slots by hand or revert constants. -/
def Code.isPure : Code → Bool
  | .captured _ | .arg _ _ => true
  | .named _ | .probe _ _ | .recover _ _ => false
  | .suspend body | .constant _ body | .lambda _ _ body => body.isPure
  | .prim p operands => p.isPure && Code.arePure operands
  | .branch scrutinee yes no => scrutinee.isPure && yes.isPure && no.isPure

def Code.arePure : List Code → Bool
  | [] => true
  | c :: cs => c.isPure && Code.arePure cs

end

def Value.isPure : Value → Bool
  | .function _ _ body _ => body.isPure
  | _ => true

def Suspension.isPure : Suspension → Bool
  | .updatable (some (body, _)) | .constant (body, _) => body.isPure
  | _ => true

def Node.isPure : Node → Bool
  | .value v => v.isPure
  | .thunk th => th.suspension.isPure

def Control.isPure : Control → Bool
  | .run c _ => c.isPure
  | .perform p _ _ => p.isPure
  | .peek _ _ _ | .revert _ => false
  | _ => true

def Frame.isPure : Frame → Bool
  | .operands p _ rest _ => p.isPure && Code.arePure rest
  | .branch yes no _ => yes.isPure && no.isPure
  | .probe _ _ | .handler _ _ => false
  | _ => true

/-- Calls of compiled closures run pure code only. -/
def Interpreter.Pure (rule : Interpreter) : Prop :=
  ∀ code count args, (rule.program code count args).isPure = true

def Move.Pure : Move → Prop
  | .start _ code _ _ _ => code.isPure = true
  | .build v => v.isPure = true
  | .suspend s => s.isPure = true
  | .seat _ _ _ interpreter => ∀ rule ∈ interpreter, rule.Pure
  | _ => True

def World.Pure (w : World) : Prop :=
  ∀ n x, w.node? n = some x → x.isPure = true

structure Turn.Pure (x : Turn) : Prop where
  world : x.1.Pure
  control : x.2.control.isPure = true
  frames : ∀ f ∈ x.2.stack, f.isPure = true

variable {w w' : World} {t t' : Thread} {n : NodeId}

theorem Suspension.isPure_clear {s : Suspension} (pure : s.isPure = true) :
    s.clear.isPure = true := by
  cases s <;> first | rfl | exact pure

theorem pure_opening {s : Suspension} {fs : List Frame} {c : Control} (pure : s.isPure = true)
    (opening : s.opening? = some (fs, c)) : (∀ f ∈ fs, f.isPure = true) ∧ c.isPure = true := by
  unfold Suspension.opening? at opening
  split at opening <;> cases opening <;> exact ⟨by simp [Frame.isPure], pure⟩

theorem Turn.Pure.isPure (pure : Turn.Pure (w, t)) : t.isPure = true := by
  obtain ⟨-, control, frames⟩ := pure
  unfold Thread.isPure
  split
  · rename_i at'
    simp [at', Control.isPure, Code.isPure] at control
  · rename_i at'
    simp [at', Control.isPure] at control
  · rename_i at'
    simp [at', Control.isPure] at control
  · rename_i top
    have handler := frames _ (by rw [top]; exact List.mem_cons_self ..)
    simp [Frame.isPure] at handler
  · rename_i at'
    simpa [at', Control.isPure, Code.isPure, Code.arePure] using control
  · rename_i at'
    simpa [at', Control.isPure] using control
  · rfl

/-! ## Worlds -/

namespace World.Pure

variable (world : w.Pure)

include world

theorem of_heap (same : w'.heap = w.heap) : w'.Pure := fun n x found =>
  world n x (by rwa [node?, same] at found)

theorem alloc {x : Node} (pure : x.isPure = true) : (w.alloc x).1.Pure := by
  intro n y found
  rw [node?_alloc] at found
  split at found
  · cases found
    exact pure
  · exact world n y found

theorem write (n : NodeId) (cell : Option Cell) : (w.write n cell).Pure := by
  intro m x found
  rw [node?_write] at found
  split at found
  · rename_i th there
    have pure := world n _ (thunk?_eq_some.1 there)
    split at found
    · cases found
      exact pure
    · exact world m x found
  · exact world m x found

theorem release (n : NodeId) : (w.release n).Pure := by
  intro m x found
  rw [node?_release] at found
  split at found
  · rename_i th there
    split at found
    · cases found
      exact Suspension.isPure_clear (world n _ (thunk?_eq_some.1 there))
    · exact world m x found
  · exact world m x found

theorem exchange {seen : Slot} {cell : Option Cell} (exchanged : w.exchange? n seen cell = some w') :
    w'.Pure := by
  unfold exchange? at exchanged
  split at exchanged
  · cases exchanged
    exact world.write n cell
  · cases exchanged

end World.Pure

/-! ## Ways to go on -/

section

variable (world : w.Pure) (frames : ∀ f ∈ t.stack, f.isPure = true)

include world frames

theorem pure_goto {c : Control} (control : c.isPure = true) : Turn.Pure (w, t.goto c) :=
  ⟨world, control, frames⟩

theorem pure_plan {as : List Action} {c : Control} (control : c.isPure = true) :
    Turn.Pure (w, t.plan as c) :=
  ⟨world, control, frames⟩

theorem pure_push {f : Frame} {c : Control} (frame : f.isPure = true) (control : c.isPure = true) :
    Turn.Pure (w, t.push f c) :=
  ⟨world, control, List.forall_mem_cons.2 ⟨frame, frames⟩⟩

theorem pure_yield {v : Value} (pure : v.isPure = true) : Turn.Pure (t.yield w v) :=
  ⟨world.alloc pure, rfl, frames⟩

theorem pure_raise (message : String) : Turn.Pure (t.raise w message) :=
  ⟨world, rfl, frames⟩

theorem pure_abort (e : GraphError) : Turn.Pure (t.abort w e) :=
  ⟨world, rfl, frames⟩

theorem pure_giveField (field : Except GraphError Field) : Turn.Pure (t.giveField w field) := by
  unfold Thread.giveField
  split
  · exact pure_goto world frames rfl
  · exact pure_yield world frames rfl
  · exact pure_goto world frames rfl

theorem pure_withArgs {env : Env} {f : List Arg → Value} (pure : ∀ args, (f args).isPure = true) :
    Turn.Pure (t.withArgs w env f) := by
  unfold Thread.withArgs
  split
  · exact pure_yield world frames (pure _)
  · exact pure_raise world frames _

/-! ## Host code -/

omit world frames in
theorem isPure_ofImmediate (v : Immediate) : (Value.ofImmediate v).isPure = true := by
  cases v <;> rfl

theorem pure_perform {p : Prim} (pure : p.isPure = true) (ns : List NodeId) (env : Env) :
    Turn.Pure (t.perform w p ns env) := by
  have raises := pure_raise world frames
  have yields := fun {v} => pure_yield world frames (v := v)
  have goes := fun {c} => pure_goto world frames (c := c)
  cases p with
  | box v => exact yields (isPure_ofImmediate v)
  | data tag layout | sum | difference | product => exact yields rfl
  | application | selector kind index =>
    cases ns with
    | nil => exact raises _
    | cons m rest => exact ⟨world.alloc rfl, rfl, frames⟩
  | bytecode code =>
    simp only [Thread.perform]
    split
    · exact goes rfl
    · exact yields rfl
  | evaluate | enter | apply =>
    cases ns with
    | nil => exact raises _
    | cons m rest => exact goes rfl
  | blackHole =>
    cases ns with
    | nil => exact raises _
    | cons m rest =>
      simp only [Thread.perform]
      split <;> exact goes rfl
  | less =>
    rcases ns with _ | ⟨m, _ | ⟨n, rest⟩⟩
    · exact raises _
    · exact raises _
    · exact yields rfl
  | last =>
    simp only [Thread.perform]
    split
    · exact goes rfl
    · exact yields rfl
  | raise message | panic message => exact goes rfl
  | gate g => exact ⟨world.alloc rfl, rfl, frames⟩
  | shape | count => exact pure_withArgs world frames fun _ => rfl
  | field kind index =>
    cases ns with
    | nil => exact raises _
    | cons m rest =>
      simp only [Thread.perform]
      split
      · exact pure_giveField world frames _
      · exact raises _
  | read x | increment x | register kind | depth | onThunk op | revert r => cases pure

theorem pure_run {c : Code} (pure : c.isPure = true) (env : Env) : Turn.Pure (t.run w c env) := by
  have raises := pure_raise world frames
  cases c with
  | captured x =>
    simp only [Thread.run]
    split
    · exact pure_goto world frames rfl
    · exact raises _
  | named x | probe subject other | recover body handler => cases pure
  | arg i up =>
    simp only [Thread.run]
    split
    · exact raises _
    · split
      · exact raises _
      · exact pure_goto world frames rfl
      · exact pure_yield world frames (isPure_ofImmediate _)
  | suspend body => exact ⟨world.alloc pure, rfl, frames⟩
  | constant r body =>
    refine ⟨world.alloc pure, ?_, frames⟩
    simp only [Thread.run, Thread.goto]
    split <;> rfl
  | lambda name arity body => exact pure_yield world frames pure
  | prim p operands =>
    simp only [Code.isPure, Bool.and_eq_true] at pure
    cases operands with
    | nil => exact pure_perform world frames pure.1 [] env
    | cons c cs =>
      simp only [Code.arePure, Bool.and_eq_true] at pure
      exact pure_push world frames (by simp [Frame.isPure, pure]) pure.2.1
  | branch scrutinee yes no =>
    simp only [Code.isPure, Bool.and_eq_true] at pure
    exact pure_push world frames (by simp [Frame.isPure, pure]) pure.1.1

/-! ## Application -/

theorem pure_call (rules : ∀ rule ∈ (w.context t.context).interpreter, rule.Pure)
    (args : List Arg) : Turn.Pure (t.call w n args) := by
  unfold Thread.call
  split
  · split
    · exact pure_goto world frames rfl
    · exact pure_push world frames rfl rfl
  · rename_i name arity body env found
    have pure : body.isPure = true := world n _ found
    unfold Thread.callFunction
    dsimp only
    split
    · exact pure_goto world frames pure
    · split
      · exact pure_push world frames rfl pure
      · exact pure_goto world frames rfl
  · split
    · rename_i rule installed
      exact pure_goto world frames (rules rule installed _ _ _)
    · exact pure_goto world frames rfl
  · exact pure_goto world frames rfl
  · exact pure_raise world frames _

/-! ## Results -/

theorem pure_project (kind : FieldKind) (index : Nat) (producer : NodeId) :
    Turn.Pure (t.project w kind index producer n) := by
  have written : ∀ context, (w.setContext t.context context).Pure := fun _ => world.of_heap rfl
  unfold Thread.project
  dsimp only
  split
  · split
    · exact pure_goto world frames rfl
    · exact pure_goto (written _) frames rfl
    · exact pure_yield (written _) frames rfl
  · exact pure_goto world frames rfl
  · exact pure_goto world frames rfl

theorem pure_give (at' : t.control = .give n) : Turn.Pure (t.give w n) := by
  unfold Thread.give
  split
  · exact ⟨world, by rw [at']; rfl, frames⟩
  · rename_i frame stack top
    rw [top, List.forall_mem_cons] at frames
    obtain ⟨frame', rest'⟩ := frames
    cases frame with
    | operands p done rest env =>
      simp only [Frame.isPure, Bool.and_eq_true] at frame'
      cases rest with
      | nil => exact ⟨world, frame'.1, rest'⟩
      | cons c cs =>
        simp only [Code.arePure, Bool.and_eq_true] at frame'
        refine ⟨world, frame'.2.1, List.forall_mem_cons.2 ⟨?_, rest'⟩⟩
        simp [Frame.isPure, frame']
    | branch yes no env =>
      simp only [Frame.isPure, Bool.and_eq_true] at frame'
      refine ⟨world, ?_, rest'⟩
      simp only [Thread.goto, Control.isPure]
      split
      · exact frame'.2
      · exact frame'.1
    | probe other env | handler c env => cases frame'
    | again | applyTo args => exact ⟨world, rfl, rest'⟩
    | project kind index producer =>
      exact pure_project (t := { t with stack }) world rest' kind index producer
    | running m claim | settling m claim =>
      exact ⟨world, rfl, List.forall_mem_cons.2 ⟨rfl, rest'⟩⟩
    | leaving m => exact ⟨world.of_heap rfl, rfl, rest'⟩

theorem pure_fail {e : GraphError} (at' : t.control = .fail e) : Turn.Pure (t.fail w e) := by
  unfold Thread.fail
  split
  · exact ⟨world, by rw [at']; rfl, frames⟩
  · rename_i frame stack top
    rw [top, List.forall_mem_cons] at frames
    obtain ⟨frame', rest'⟩ := frames
    cases frame with
    | handler c env => cases frame'
    | running m claim | settling m claim => exact ⟨world.of_heap rfl, rfl, rest'⟩
    | leaving m => exact ⟨world.of_heap rfl, by rw [at']; rfl, rest'⟩
    | _ => exact ⟨world, by rw [at']; rfl, rest'⟩

theorem pure_unwind {message : String} (at' : t.control = .unwind message) :
    Turn.Pure (t.unwind w message) := by
  unfold Thread.unwind
  split
  · exact ⟨world, by rw [at']; rfl, frames⟩
  · rename_i frame stack top
    rw [top, List.forall_mem_cons] at frames
    obtain ⟨-, rest'⟩ := frames
    cases frame with
    | running m claim | settling m claim => exact ⟨world.of_heap rfl, rfl, rest'⟩
    | leaving m => exact ⟨world.of_heap rfl, by rw [at']; rfl, rest'⟩
    | _ => exact ⟨world, by rw [at']; rfl, rest'⟩

/-! ## Forcing -/

theorem pure_evaluate : Turn.Pure (t.evaluate w n) := by
  unfold Thread.evaluate
  split
  · exact pure_goto world frames rfl
  · exact pure_push world frames rfl rfl

theorem pure_enter : Turn.Pure (t.enter w n) := by
  unfold Thread.enter
  split
  · exact pure_goto world frames rfl
  · exact pure_abort world frames _
  · exact pure_raise world frames _

theorem pure_force (claim : Bool) : Turn.Pure (t.force w n claim) := by
  unfold Thread.force
  split
  · exact pure_goto world frames (by split <;> rfl)
  · exact pure_goto world frames rfl
  · split
    · exact pure_abort world frames _
    · exact pure_goto world frames rfl

theorem pure_seize (seen : Slot) : Turn.Pure (t.seize w n seen) := by
  unfold Thread.seize
  split
  · rename_i exchanged
    exact pure_plan (world.exchange exchanged) frames rfl
  · exact pure_goto world frames rfl

theorem pure_start (claim : Bool) : Turn.Pure (t.start w n claim) := by
  unfold Thread.start
  dsimp only
  split
  · exact ⟨world.of_heap rfl, rfl, frames⟩
  · exact pure_plan world frames rfl

theorem pure_body (claim : Bool) : Turn.Pure (t.body w n claim) := by
  rcases t.body_cases w n claim with gone | ⟨s, fs, c, found, opening, runs⟩
  · rw [gone]
    exact ⟨world.of_heap rfl, rfl, frames⟩
  · obtain ⟨th, there, rfl⟩ := World.suspension?_eq_some.1 found
    have pure : th.suspension.isPure = true := world n _ (World.thunk?_eq_some.1 there)
    obtain ⟨frames', control⟩ := pure_opening pure opening
    rw [runs]
    refine ⟨world, control, List.forall_mem_append.2 ⟨frames', ?_⟩⟩
    exact List.forall_mem_cons.2 ⟨rfl, frames⟩

theorem pure_recheck (claim : Bool) : Turn.Pure (t.recheck w n claim) := by
  unfold Thread.recheck
  split
  · exact pure_abort world frames _
  · exact pure_goto world frames rfl

theorem pure_update (v : NodeId) : Turn.Pure (t.update w n v) := by
  unfold Thread.update
  split
  · exact pure_plan world frames rfl
  · exact pure_goto world frames rfl

theorem pure_install (v : NodeId) (seen : Slot) : Turn.Pure (t.install w n v seen) := by
  unfold Thread.install
  split
  · rename_i exchanged
    exact pure_plan (world.exchange exchanged) frames rfl
  · exact pure_goto world frames rfl

/-! ## Waiting -/

theorem pure_attach {claim : Bool} (at' : t.control = .attach n claim) :
    Turn.Pure (t.attach w n claim) := by
  unfold Thread.attach
  split
  · exact pure_goto world frames rfl
  · exact pure_goto world frames rfl
  · split
    · exact pure_abort world frames _
    · exact pure_goto world frames rfl
  · exact ⟨world, by rw [at']; rfl, frames⟩
  · split
    · exact pure_abort world frames _
    · exact pure_goto world frames rfl

theorem pure_lock (claim : Bool) (owner : TaskId) (seen : Slot) :
    Turn.Pure (t.lock w n claim owner seen) := by
  unfold Thread.lock
  split
  · rename_i exchanged
    exact pure_goto (world.exchange exchanged) frames rfl
  · exact pure_goto world frames rfl

theorem pure_join (claim : Bool) (q : QueueId) (owner : TaskId) :
    Turn.Pure (t.join w n claim q owner) := by
  unfold Thread.join
  split
  · rename_i pushed
    obtain ⟨queues, Q, rfl, -⟩ := World.push?_eq_some pushed
    exact ⟨world.of_heap rfl, rfl, frames⟩
  · exact pure_goto world frames rfl

theorem pure_detour {afterwards : Bool} {next : Control} (control : next.isPure = true) :
    Turn.Pure (t.detour w afterwards next) := by
  unfold Thread.detour
  dsimp only
  split
  · split
    · exact ⟨world.of_heap rfl, control, frames⟩
    · exact pure_goto world frames control
  · exact pure_goto world frames control

theorem pure_publish (x : Waiting) (blocked : Bool) : Turn.Pure (t.publish w x blocked) := by
  have next : ∀ {w'} (events : List Event), w'.Pure → Turn.Pure (w', if blocked then
        t.plan ((events ++ [Event.blocked x.thunk (t.me w)]).map .emit) (.suspend x.thunk x.claim)
      else t.plan (events.map .emit) (.force x.thunk x.claim)) := by
    intro w' events world'
    split <;> exact pure_plan world' frames rfl
  unfold Thread.publish
  dsimp only
  split
  · exact next [] world
  · split
    · rename_i exchanged
      exact next [_] (world.exchange exchanged)
    · exact pure_plan world frames rfl

theorem pure_park {claim : Bool} (at' : t.control = .parked n claim) :
    Turn.Pure (t.park w n claim) := by
  unfold Thread.park World.takePermit?
  split
  · rename_i taken
    split at taken
    · cases taken
      exact ⟨world.of_heap rfl, rfl, frames⟩
    · cases taken
  · split
    · exact ⟨world, by rw [at']; rfl, frames⟩
    · exact pure_goto world frames rfl

end

/-! ## Every step -/

theorem pure_proceed (pure : Turn.Pure (w, t))
    (rules : ∀ rule ∈ (w.context t.context).interpreter, rule.Pure) :
    Turn.Pure (t.proceed w) := by
  obtain ⟨world, control, frames⟩ := pure
  unfold Thread.proceed
  cases at' : t.control with
  | run c env => exact pure_run world frames (by rwa [at'] at control) env
  | perform p ns env => exact pure_perform world frames (by rwa [at'] at control) ns env
  | give n => exact pure_give world frames at'
  | fail e => exact pure_fail world frames at'
  | unwind message => exact pure_unwind world frames at'
  | evaluate n => exact pure_evaluate world frames
  | enter n => exact pure_enter world frames
  | peek n other env | revert r => simp [at', Control.isPure] at control
  | apply n args => exact pure_plan world frames rfl
  | call n args => exact pure_call world frames rules args
  | force n claim => exact pure_force world frames claim
  | seize n seen => exact pure_seize world frames seen
  | start n claim => exact pure_start world frames claim
  | body n claim => exact pure_body world frames claim
  | recheck n claim => exact pure_recheck world frames claim
  | update n v => exact pure_update world frames v
  | install n v seen => exact pure_install world frames v seen
  | attach n claim => exact pure_attach world frames at'
  | lock n claim owner seen => exact pure_lock world frames claim owner seen
  | gather n claim owner lock | enrol x | retract x | suspend n claim =>
    exact ⟨world.of_heap rfl, rfl, frames⟩
  | join n claim q owner => exact pure_join world frames claim q owner
  | enlist x =>
    have named : (w.christen (w.context t.context).capability x.queue).Pure := by
      unfold World.christen
      split
      · split
        · exact world
        · exact world.of_heap rfl
      · exact world
    exact pure_detour named frames rfl
  | confirm x =>
    simp only [Thread.confirm]
    split
    · exact pure_goto world frames rfl
    · exact pure_plan world frames rfl
  | enlisted x blocked => exact pure_detour world frames rfl
  | publish x blocked => exact pure_publish world frames x blocked
  | parked n claim => exact pure_park world frames at'
  | probe op n =>
    simp only [Thread.probe]
    split
    · exact pure_goto world frames rfl
    · exact pure_yield world frames rfl
  | exchange n seen cell =>
    simp only [Thread.exchange]
    split
    · rename_i exchanged
      exact pure_yield (world.exchange exchanged) frames rfl
    · exact pure_yield world frames rfl
  | register r n =>
    simp only [Thread.register]
    split
    · exact ⟨world, by rw [at']; rfl, frames⟩
    · exact ⟨world.of_heap rfl, rfl, frames⟩

theorem pure_errand {a : Action} {as : List Action} (pure : Turn.Pure (w, t)) :
    Turn.Pure (a.perform w { t with agenda := as }) := by
  obtain ⟨world, control, frames⟩ := pure
  cases a with
  | emit e =>
    obtain ⟨log, same⟩ := w.emit_eq t.context e
    simp only [Action.perform, same]
    exact ⟨world.of_heap rfl, control, frames⟩
  | gate g =>
    simp only [Action.perform]
    split
    · exact ⟨world, control, frames⟩
    · exact ⟨world, rfl, frames⟩
  | wake u | drain q note | «seal» q | withdraw q | sweep u | inspect u q todo ready | release r =>
    exact ⟨world.of_heap rfl, control, frames⟩
  | examine u todo ready =>
    cases todo with
    | nil => exact ⟨world, control, frames⟩
    | cons q todo =>
      simp only [Action.perform]
      split <;> exact ⟨world, control, frames⟩
  | dismiss u ready =>
    cases ready with
    | nil => exact ⟨world, control, frames⟩
    | cons q ready =>
      simp only [Action.perform]
      split <;> exact ⟨world.of_heap rfl, control, frames⟩
  | overwrite n v => exact ⟨world.write _ _, control, frames⟩
  | clear n => exact ⟨world.release n, control, frames⟩
  | abandon n =>
    simp only [Action.perform]
    split <;> exact ⟨world, control, frames⟩
  | surrender n seen =>
    simp only [Action.perform]
    split
    · rename_i exchanged
      exact ⟨world.exchange exchanged, control, frames⟩
    · exact ⟨world, control, frames⟩

theorem pure_step (pure : Turn.Pure (w, t))
    (rules : ∀ rule ∈ (w.context t.context).interpreter, rule.Pure) : Turn.Pure (t.step w) := by
  unfold Thread.step
  split
  · exact pure_errand pure
  · exact pure_proceed pure rules

/-! ## Runs -/

/-- Thunks, functions, frames, controls and interpreters are pure. -/
structure State.Pure (s : State) : Prop where
  world : s.world.Pure
  threads : s.Each fun _ t => t.control.isPure = true ∧ ∀ f ∈ t.stack, f.isPure = true
  rules : ∀ c < s.world.contexts.size, ∀ rule ∈ (s.world.context c).interpreter, rule.Pure

/-- A move of a thread that is seated, or from outside. -/
theorem State.Pure.after {s : State} {m : Move} (pure : s.Pure) (seats : s.Seats)
    (admitted : s.admits m) (outside : m.Pure) : (s.after m).Pure := by
  obtain ⟨world, threads, rules⟩ := pure
  have rules' : ∀ c < (s.after m).world.contexts.size,
      ∀ rule ∈ ((s.after m).world.context c).interpreter, rule.Pure := by
    intro c bound rule known
    rcases (change_of_admits admitted).interpreter bound with ⟨old, same⟩ | ⟨name, k, config, is⟩
    · exact rules c old rule (same ▸ known)
    · rw [is] at outside
      exact outside rule known
  cases m with
  | step i =>
    cases found : s.threads[i]? with
    | none =>
      simp only [State.after, State.step, found]
      exact ⟨world, threads, rules⟩
    | some t =>
      obtain ⟨control, frames⟩ := threads i t found
      have own := pure_step ⟨world, control, frames⟩ (rules _ (seats.seated i t found))
      obtain ⟨moved, -⟩ := State.own_step found
      refine ⟨by rw [State.after, moved]; exact own.world, fun j u there => ?_, rules'⟩
      simp only [State.after, State.step, found] at there
      rcases getElem?_setIfInBounds_some there with ⟨-, rfl⟩ | ⟨-, old⟩
      · exact ⟨own.control, own.frames⟩
      · exact threads j u old
  | pass i g =>
    refine ⟨world, fun j u there => ?_, rules'⟩
    simp only [State.after, Array.getElem?_modify] at there
    split at there
    · obtain ⟨t, found, rfl⟩ := Option.map_eq_some_iff.1 there
      rcases pass_cases t g with stays | ⟨as, -, passed⟩
      · rw [stays]
        exact threads j t found
      · rw [passed]
        exact threads j t found
    · exact threads j u there
  | start context code env mayStop maySuspend =>
    refine ⟨world, fun j u there => ?_, rules'⟩
    rcases getElem?_push_some there with ⟨-, rfl⟩ | old
    · exact ⟨outside, by simp⟩
    · exact threads j u old
  | build v => exact ⟨world.alloc outside, threads, rules'⟩
  | suspend x => exact ⟨world.alloc outside, threads, rules'⟩
  | _ => exact ⟨world.of_heap rfl, threads, rules'⟩

/-- If what comes from outside is pure, so is all that threads ever do. -/
theorem Run.isPure_of_code (run : Run) (outside : ∀ k, (run.move k).Pure) (k : Nat) :
    ∀ t ∈ (run.state k).threads, t.isPure = true := by
  have all : (run.state k).Pure := by
    refine run.always (P := State.Pure) ⟨fun n x found => ?_, fun i t found => ?_, ?_⟩ ?_ k
    · simp [World.node?] at found
    · simp at found
    · simp
    · exact fun k pure => pure.after (run.seats k) (run.admitted k) (outside k)
  intro t known
  obtain ⟨i, found⟩ := Array.mem_iff_getElem?.1 known
  obtain ⟨control, frames⟩ := all.threads i t found
  exact Turn.Pure.isPure ⟨all.world, control, frames⟩

end LazyGraph

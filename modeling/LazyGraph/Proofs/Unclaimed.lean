import LazyGraph.Proofs.Ownership

/-!
# The world as if nothing were claimed

A view of worlds and threads without claims, stamps of cells, modes and log. Host code and errands
make of the view of a state the view of what they make of the state.
-/

namespace LazyGraph

def Slot.unclaimed (s : Slot) : Slot :=
  { cell := s.value?.map .value }

def Thunk.unclaimed (t : Thunk) : Thunk :=
  { t with slot := t.slot.unclaimed }

def Node.unclaimed : Node → Node
  | .value v => .value v
  | .thunk t => .thunk t.unclaimed

def Context.unclaimed (c : Context) : Context :=
  { c with config := { c.config with eager := false } }

def World.unclaimed (w : World) : World :=
  { w with
    heap := w.heap.map Node.unclaimed, contexts := w.contexts.map Context.unclaimed, log := {} }

def Control.unclaimed : Control → Control
  | .force n _ => .force n false
  | .body n _ => .body n false
  | .recheck n _ => .recheck n false
  | c => c

def Frame.unclaimed : Frame → Frame
  | .running n _ => .running n false
  | .settling n _ => .settling n false
  | f => f

def Thread.unclaimed (t : Thread) : Thread :=
  { t with control := t.control.unclaimed, stack := t.stack.map Frame.unclaimed }

def Turn.unclaimed (x : Turn) : Turn :=
  (x.1.unclaimed, x.2.unclaimed)

/-- Empty, or with a value. -/
def Slot.Untaken (s : Slot) : Prop :=
  ∀ c, s.cell = some c → ∃ v, c = .value v

variable {w : World} {t : Thread} {n m : NodeId} {c : ContextId}

/-! ## What can be seen -/

theorem Slot.cell_unclaimed {s : Slot} (untaken : s.Untaken) : s.unclaimed.cell = s.cell := by
  cases held : s.cell with
  | none => simp [unclaimed, value?, held]
  | some c =>
    obtain ⟨v, rfl⟩ := untaken c held
    simp [unclaimed, value?, held]

theorem Slot.Untaken.unowned {s : Slot} {o : TaskId} (untaken : s.Untaken) :
    s.ownedBy o = false := by
  refine Bool.eq_false_iff.2 fun owned => ?_
  obtain ⟨c, held, owner⟩ := cell_of_ownedBy owned
  obtain ⟨v, rfl⟩ := untaken c held
  cases owner

@[simp] theorem Slot.value?_unclaimed (s : Slot) : s.unclaimed.value? = s.value? := by
  unfold unclaimed
  cases s.value? <;> rfl

@[simp] theorem Slot.unclaimed_unclaimed (s : Slot) : s.unclaimed.unclaimed = s.unclaimed := by
  rw [unclaimed, value?_unclaimed]
  rfl

@[simp] theorem Slot.queue?_unclaimed (s : Slot) : s.unclaimed.queue? = none := by
  unfold unclaimed
  cases s.value? <;> rfl

theorem Slot.unclaimed_write (s : Slot) (cell : Option Cell) :
    (s.write cell).unclaimed = (s.unclaimed.write cell).unclaimed := by
  cases cell <;> rfl

namespace Context

variable (context : Context)

@[simp] theorem capability_unclaimed : context.unclaimed.capability = context.capability :=
  rfl

@[simp] theorem interpreter_unclaimed : context.unclaimed.interpreter = context.interpreter :=
  rfl

@[simp] theorem stack_unclaimed : context.unclaimed.stack = context.stack :=
  rfl

@[simp] theorem registers_unclaimed : context.unclaimed.registers = context.registers :=
  rfl

end Context

@[simp] theorem Node.unclaimed_unclaimed (x : Node) : x.unclaimed.unclaimed = x.unclaimed := by
  cases x with
  | value => rfl
  | thunk t => simp [Node.unclaimed, Thunk.unclaimed]

@[simp] theorem Control.unclaimed_unclaimed (c : Control) :
    c.unclaimed.unclaimed = c.unclaimed := by
  cases c <;> rfl

@[simp] theorem Frame.unclaimed_unclaimed (f : Frame) : f.unclaimed.unclaimed = f.unclaimed := by
  cases f <;> rfl

@[simp] theorem Thread.unclaimed_unclaimed (t : Thread) : t.unclaimed.unclaimed = t.unclaimed := by
  simp [unclaimed, Function.comp_def]

namespace World

@[simp] theorem unclaimed_unclaimed (w : World) : w.unclaimed.unclaimed = w.unclaimed := by
  simp [unclaimed, Function.comp_def, Context.unclaimed]

@[simp] theorem context_unclaimed : w.unclaimed.context c = (w.context c).unclaimed := by
  simp only [context, unclaimed, Array.getD_eq_getD_getElem?, Array.getElem?_map]
  cases w.contexts[c]? <;> rfl

@[simp] theorem taskOf_unclaimed : w.unclaimed.taskOf c = w.taskOf c := by
  simp [taskOf, Context.unclaimed]

@[simp] theorem node?_unclaimed : w.unclaimed.node? n = (w.node? n).map Node.unclaimed := by
  simp [node?, unclaimed]

@[simp] theorem value?_unclaimed : w.unclaimed.value? n = w.value? n := by
  rw [value?, value?, node?_unclaimed]
  rcases w.node? n with _ | (v | t) <;> rfl

@[simp] theorem thunk?_unclaimed : w.unclaimed.thunk? n = (w.thunk? n).map Thunk.unclaimed := by
  rw [thunk?, thunk?, node?_unclaimed]
  rcases w.node? n with _ | (v | t) <;> rfl

@[simp] theorem slot_unclaimed : w.unclaimed.slot n = (w.slot n).unclaimed := by
  rw [slot, slot, thunk?_unclaimed]
  cases w.thunk? n <;> rfl

@[simp] theorem evaluated?_unclaimed : w.unclaimed.evaluated? n = w.evaluated? n := by
  rw [evaluated?, evaluated?, node?_unclaimed]
  rcases w.node? n with _ | (v | t)
  · rfl
  · rfl
  · simp [Node.unclaimed, Thunk.unclaimed]

@[simp] theorem isResolved_unclaimed (q : QueueId) :
    w.unclaimed.isResolved q = w.isResolved q := by
  simp only [isResolved, evaluated?_unclaimed]
  rfl

@[simp] theorem number_unclaimed : w.unclaimed.number n = w.number n := by
  rw [number, number, value?_unclaimed]

/-! ## What can be changed -/

@[simp] theorem unclaimed_value (v : Value) :
    (w.alloc (.value v)).1.unclaimed = (w.unclaimed.alloc (.value v)).1 := by
  simp [alloc, unclaimed, Node.unclaimed]

@[simp] theorem unclaimed_thunk (s : Suspension) :
    (w.alloc (.thunk ⟨s, {}⟩)).1.unclaimed = (w.unclaimed.alloc (.thunk ⟨s, {}⟩)).1 := by
  simp [alloc, unclaimed, Node.unclaimed, Thunk.unclaimed, Slot.unclaimed, Slot.value?]

@[simp] theorem alloc_unclaimed (x : Node) : (w.unclaimed.alloc x).2 = (w.alloc x).2 := by
  simp [alloc, unclaimed]

@[simp] theorem unclaimed_setContext (context : Context) :
    (w.setContext c context).unclaimed = w.unclaimed.setContext c context.unclaimed := by
  simp [setContext, unclaimed]

@[simp] theorem unclaimed_emit (e : Event) : (w.emit c e).unclaimed = w.unclaimed := by
  obtain ⟨log, same⟩ := w.emit_eq c e
  rw [same]
  rfl

theorem unclaimed_setThunk (th : Thunk) :
    (w.setThunk n th).unclaimed = w.unclaimed.setThunk n th.unclaimed := by
  simp [setThunk, unclaimed, Node.unclaimed]

/-- Only what a write leaves to see matters. -/
theorem unclaimed_write (cell : Option Cell) :
    (w.write n cell).unclaimed = (w.unclaimed.write n cell).unclaimed := by
  unfold write
  rw [thunk?_unclaimed]
  cases w.thunk? n with
  | none => simp
  | some th =>
    have slot : (th.slot.write cell).unclaimed = (th.unclaimed.slot.write cell).unclaimed :=
      Slot.unclaimed_write _ _
    simp [unclaimed_setThunk, Thunk.unclaimed, slot]

@[simp] theorem names_unclaimed : w.unclaimed.names = w.names :=
  rfl

@[simp] theorem counter_unclaimed (x : String) : w.unclaimed.counter x = w.counter x :=
  rfl

@[simp] theorem registry_unclaimed (r : String) : w.unclaimed.registry r = w.registry r :=
  rfl

@[simp] theorem unclaimed_assign (x : String) (l : Int64) :
    (w.assign x l).unclaimed = w.unclaimed.assign x l :=
  rfl

@[simp] theorem unclaimed_setRegistry (r : String) (registry : Registry) :
    (w.setRegistry r registry).unclaimed = w.unclaimed.setRegistry r registry :=
  rfl

@[simp] theorem unclaimed_release : (w.release n).unclaimed = w.unclaimed.release n := by
  unfold release
  rw [thunk?_unclaimed]
  cases w.thunk? n with
  | none => rfl
  | some th => simp [unclaimed_setThunk, Thunk.unclaimed]

end World

namespace Turn

@[simp] theorem unclaimed_mk (w : World) (t : Thread) :
    Turn.unclaimed (w, t) = (w.unclaimed, t.unclaimed) :=
  rfl

@[simp] theorem unclaimed_unclaimed (x : Turn) :
    Turn.unclaimed (Turn.unclaimed x) = Turn.unclaimed x := by
  simp [Turn.unclaimed]

theorem sees {x y : Turn} (same : Turn.unclaimed x = y) : Turn.unclaimed x = Turn.unclaimed y := by
  rw [← same, unclaimed_unclaimed]

end Turn

namespace Thread

@[simp] theorem unclaimed_goto (d : Control) :
    (t.goto d).unclaimed = t.unclaimed.goto d.unclaimed :=
  rfl

@[simp] theorem unclaimed_plan (as : List Action) (d : Control) :
    (t.plan as d).unclaimed = t.unclaimed.plan as d.unclaimed :=
  rfl

@[simp] theorem context_unclaimed : t.unclaimed.context = t.context :=
  rfl

@[simp] theorem me_unclaimed : t.unclaimed.me w.unclaimed = t.me w := by
  simp [me]

@[simp] theorem unclaimed_leave : (t.leave w n).unclaimed = t.unclaimed.leave w.unclaimed n := by
  simp [leave, Context.unclaimed]

@[simp] theorem unclaimed_yield (v : Value) :
    Turn.unclaimed (t.yield w v) = t.unclaimed.yield w.unclaimed v := by
  simp [yield, Control.unclaimed]

@[simp] theorem unclaimed_raise (message : String) :
    Turn.unclaimed (t.raise w message) = t.unclaimed.raise w.unclaimed message :=
  rfl

@[simp] theorem unclaimed_abort (e : GraphError) :
    Turn.unclaimed (t.abort w e) = t.unclaimed.abort w.unclaimed e := by
  simp [abort, Control.unclaimed]

/-! ## Host code -/

@[simp] theorem unclaimed_yieldFlag (b : Bool) :
    Turn.unclaimed (t.yieldFlag w b) = t.unclaimed.yieldFlag w.unclaimed b := by
  simp [yieldFlag]

@[simp] theorem unclaimed_yieldAfter (as : List Action) :
    Turn.unclaimed (t.yieldAfter w as) = t.unclaimed.yieldAfter w.unclaimed as := by
  simp [yieldAfter, Control.unclaimed]

@[simp] theorem unclaimed_settle (v : NodeId) :
    (t.settle n v).unclaimed = t.unclaimed.settle n v :=
  rfl

@[simp] theorem unclaimed_giveField (field : Except GraphError Field) :
    Turn.unclaimed (t.giveField w field) = t.unclaimed.giveField w.unclaimed field := by
  rcases field with e | (m | s)
  · rfl
  · rfl
  · simp [giveField]

theorem unclaimed_onThunk (op : ThunkOp) (v : Option NodeId) :
    Turn.unclaimed (t.onThunk w op n v) = t.unclaimed.onThunk w.unclaimed op n v := by
  unfold onThunk
  rw [World.thunk?_unclaimed]
  cases w.thunk? n with
  | none => simp
  | some th => cases op <;> cases v <;> simp [Control.unclaimed, Thunk.unclaimed]

theorem unclaimed_arithmetic (f : Int64 → Int64 → Int64) (ns : List NodeId) :
    Turn.unclaimed (t.arithmetic w f ns) = t.unclaimed.arithmetic w.unclaimed f ns := by
  have numbers : w.unclaimed.number = w.number := funext fun n => World.number_unclaimed
  simp [arithmetic, numbers]

theorem unclaimed_withArgs (env : Env) (f : List Arg → Value) :
    Turn.unclaimed (t.withArgs w env f) = t.unclaimed.withArgs w.unclaimed env f := by
  unfold withArgs
  split <;> simp

theorem unclaimed_readRegister (kind : FieldKind) :
    Turn.unclaimed (t.readRegister w kind) = t.unclaimed.readRegister w.unclaimed kind := by
  unfold readRegister
  simp only [context_unclaimed, World.context_unclaimed, Context.registers_unclaimed]
  split <;> simp [Control.unclaimed]

theorem unclaimed_perform (p : Prim) (ns : List NodeId) (env : Env) :
    Turn.unclaimed (t.perform w p ns env) =
      Turn.unclaimed (t.unclaimed.perform w.unclaimed p ns env) := by
  cases p with
  | blackHole =>
    cases ns with
    | nil => exact Turn.sees rfl
    | cons n ns =>
      simp only [perform, World.value?_unclaimed]
      split <;> simp [Control.unclaimed]
  | sum | difference | product => exact Turn.sees (unclaimed_arithmetic _ _)
  | shape | count => exact Turn.sees (unclaimed_withArgs _ _)
  | register kind => exact Turn.sees (unclaimed_readRegister kind)
  | onThunk op =>
    cases ns with
    | nil => exact Turn.sees rfl
    | cons n ns => exact Turn.sees (unclaimed_onThunk op _)
  | last =>
    refine Turn.sees ?_
    simp only [perform]
    split <;> simp [Control.unclaimed]
  | less =>
    refine Turn.sees ?_
    rcases ns with _ | ⟨a, _ | ⟨b, ns⟩⟩ <;> simp [perform]
  | field kind index =>
    cases ns with
    | nil => exact Turn.sees rfl
    | cons n ns =>
      refine Turn.sees ?_
      simp only [perform, World.value?_unclaimed]
      split <;> simp
  | bytecode code =>
    refine Turn.sees ?_
    simp only [perform]
    split <;> simp [Control.unclaimed]
  | box | data | raise | panic | read | increment | gate | depth | revert =>
    exact Turn.sees (by simp [perform, Control.unclaimed])
  | application | selector | evaluate | enter | apply =>
    refine Turn.sees ?_
    cases ns <;> simp [perform, Control.unclaimed]

theorem unclaimed_run (code : Code) (env : Env) :
    Turn.unclaimed (t.run w code env) = Turn.unclaimed (t.unclaimed.run w.unclaimed code env) := by
  cases code with
  | captured x =>
    refine Turn.sees ?_
    cases found : env.captured.find? x <;> simp [run, found, Control.unclaimed]
  | named x =>
    refine Turn.sees ?_
    cases found : w.names.find? x <;> simp [run, found, Control.unclaimed]
  | arg i up =>
    refine Turn.sees ?_
    simp only [run]
    split
    · simp
    · split <;> simp [Control.unclaimed]
  | suspend body => exact Turn.sees (by simp [run, Control.unclaimed])
  | constant r body =>
    refine Turn.sees ?_
    have registry : (w.alloc (.thunk ⟨.constant (body, env), {}⟩)).1.registry r = w.registry r :=
      rfl
    have registry' :
        (w.unclaimed.alloc (.thunk ⟨.constant (body, env), {}⟩)).1.registry r = w.registry r :=
      rfl
    simp only [run, Turn.unclaimed_mk, World.unclaimed_thunk, unclaimed_goto, registry, registry',
      World.alloc_unclaimed]
    split <;> rfl
  | lambda name arity body => exact Turn.sees (by simp [run])
  | prim p operands =>
    cases operands with
    | nil => exact unclaimed_perform p [] env
    | cons code codes => exact Turn.sees rfl
  | branch scrutinee yes no | probe subject other | recover body handler => exact Turn.sees rfl

/-! ## Application -/

theorem unclaimed_callFunction (arity : Nat) (body : Code) (env : Env) (args : List Arg) :
    Turn.unclaimed (t.callFunction w n arity body env args) =
      t.unclaimed.callFunction w.unclaimed n arity body env args := by
  unfold callFunction
  split
  · rfl
  · split <;> rfl

theorem unclaimed_call (args : List Arg) :
    Turn.unclaimed (t.call w n args) = t.unclaimed.call w.unclaimed n args := by
  unfold call
  rw [World.node?_unclaimed]
  rcases w.node? n with _ | (v | th)
  · simp
  · cases v with
    | function name arity body env => exact unclaimed_callFunction arity body env args
    | bytecode code pointers =>
      simp only [Option.map_some, Node.unclaimed, context_unclaimed, World.context_unclaimed,
        Context.interpreter_unclaimed]
      cases (w.context t.context).interpreter <;> rfl
    | _ => rfl
  · simp only [Option.map_some, Node.unclaimed, Thunk.unclaimed, Slot.value?_unclaimed]
    split <;> rfl

/-! ## Constants, frames and requests -/

theorem unclaimed_register (r : String) :
    Turn.unclaimed (t.register w r n) = t.unclaimed.register w.unclaimed r n := by
  cases busy : (w.registry r).busy <;> simp [register, busy, Control.unclaimed]

theorem unclaimed_revert (r : String) :
    Turn.unclaimed (t.revert w r) = t.unclaimed.revert w.unclaimed r := by
  cases busy : (w.registry r).busy with
  | true => simp [revert, busy]
  | false =>
    simp only [revert, World.registry_unclaimed, World.thunk?_unclaimed, Option.isSome_map, busy,
      ← World.unclaimed_setRegistry, World.alloc_unclaimed, ← World.unclaimed_value]
    rfl

theorem unclaimed_project (kind : FieldKind) (index : Nat) (producer : NodeId) :
    Turn.unclaimed (t.project w kind index producer n) =
      t.unclaimed.project w.unclaimed kind index producer n := by
  simp only [project, World.value?_unclaimed]
  split
  · split <;> simp [Control.unclaimed, Context.unclaimed]
  · rfl
  · rfl

theorem unclaimed_give :
    Turn.unclaimed (t.give w n) = t.unclaimed.give w.unclaimed n := by
  obtain ⟨context, mayStop, maySuspend, agenda, control, stack⟩ := t
  cases stack with
  | nil => rfl
  | cons f stack =>
    cases f with
    | operands p done rest env => cases rest <;> rfl
    | branch yes no env =>
      simp [give, unclaimed, Frame.unclaimed, goto, Control.unclaimed]
    | project kind index producer => exact unclaimed_project kind index producer
    | leaving m => exact congrArg (·, _) unclaimed_leave
    | _ => rfl

/-- A claim of the innermost frame is to be given up. Without one, errors are handed on alike. -/
theorem unclaimed_fail (e : GraphError) (free : ∀ f ∈ t.stack.head?, f.claim? = none) :
    Turn.unclaimed (t.fail w e) = t.unclaimed.fail w.unclaimed e := by
  obtain ⟨context, mayStop, maySuspend, agenda, control, stack⟩ := t
  cases stack with
  | nil => rfl
  | cons f stack =>
    cases f with
    | leaving m => exact congrArg (·, _) unclaimed_leave
    | running m claim | settling m claim =>
      cases claim with
      | false => exact congrArg (·, _) unclaimed_leave
      | true => simp [Frame.claim?] at free
    | _ => rfl

theorem unclaimed_unwind (message : String) (free : ∀ f ∈ t.stack.head?, f.claim? = none) :
    Turn.unclaimed (t.unwind w message) = t.unclaimed.unwind w.unclaimed message := by
  obtain ⟨context, mayStop, maySuspend, agenda, control, stack⟩ := t
  cases stack with
  | nil => rfl
  | cons f stack =>
    cases f with
    | leaving m => exact congrArg (·, _) unclaimed_leave
    | running m claim | settling m claim =>
      cases claim with
      | false => exact congrArg (·, _) unclaimed_leave
      | true => simp [Frame.claim?] at free
    | _ => rfl

theorem unclaimed_evaluate :
    Turn.unclaimed (t.evaluate w n) = t.unclaimed.evaluate w.unclaimed n := by
  simp only [evaluate, World.evaluated?_unclaimed]
  split <;> rfl

theorem unclaimed_enter :
    Turn.unclaimed (t.enter w n) = t.unclaimed.enter w.unclaimed n := by
  simp only [enter, World.node?_unclaimed]
  rcases w.node? n with _ | (v | th)
  · rfl
  · exact unclaimed_abort _
  · simp [Node.unclaimed, Context.unclaimed, Control.unclaimed]

theorem unclaimed_applyStored (f : NodeId) (args : List NodeId) :
    (Control.applyStored f args).unclaimed = .applyStored f args := by
  rw [Control.applyStored_eq]
  cases args <;> rfl

/-- Either there is nothing to run, whether `n` is claimed or not, or its code is run alike. -/
theorem unclaimed_body (claim : Bool) :
    (t.body w n claim = (t.leave w n, t.plan (giveUp n claim) (.recheck n claim)) ∧
      t.unclaimed.body w.unclaimed n false =
        (t.unclaimed.leave w.unclaimed n, t.unclaimed.goto (.recheck n false))) ∨
    Turn.unclaimed (t.body w n claim) = t.unclaimed.body w.unclaimed n false ∧
      (t.body w n claim).2.control.isCalm ∧ (t.body w n claim).2.agenda = t.agenda := by
  unfold body
  rw [World.thunk?_unclaimed]
  rcases w.thunk? n with _ | ⟨suspension, slot⟩
  · exact .inl ⟨rfl, rfl⟩
  · cases suspension with
    | updatable code =>
      cases code with
      | none => exact .inl ⟨rfl, rfl⟩
      | some code => exact .inr ⟨rfl, rfl, rfl⟩
    | constant code => exact .inr ⟨rfl, rfl, rfl⟩
    | application call =>
      cases call with
      | none => exact .inl ⟨rfl, rfl⟩
      | some call =>
        refine .inr ⟨?_, Control.isCalm_applyStored _ _, rfl⟩
        exact congrArg (fun c => (w.unclaimed, t.unclaimed.push (.running n false) c))
          (unclaimed_applyStored call.1 call.2)
    | selector kind source =>
      cases source with
      | none => exact .inl ⟨rfl, rfl⟩
      | some source => exact .inr ⟨rfl, rfl, rfl⟩

theorem unclaimed_recheck {claim : Bool} (untaken : (w.slot n).Untaken) :
    Turn.unclaimed (t.recheck w n claim) =
      Turn.unclaimed (t.unclaimed.recheck w.unclaimed n false) := by
  have cell : (w.unclaimed.slot n).cell = (w.slot n).cell := by
    rw [World.slot_unclaimed, Slot.cell_unclaimed untaken]
  have cleared : (w.unclaimed.thunk? n).any (·.suspension.cleared) =
      (w.thunk? n).any (·.suspension.cleared) := by
    rw [World.thunk?_unclaimed]
    cases w.thunk? n <;> rfl
  simp only [recheck, cell, cleared]
  split <;> exact Turn.sees (by simp [Control.unclaimed])

/-! ## Errands -/

theorem unclaimed_errand (a : Action) (kind : a.claim? = none)
    (free : ∀ n, (w.slot n).queue? = none) :
    Turn.unclaimed (a.perform w t) = Turn.unclaimed (a.perform w.unclaimed t.unclaimed) := by
  cases a with
  | abandon | surrender => cases kind
  | emit e => simp [Action.perform]
  | gate g =>
    refine Turn.sees ?_
    have same : t.unclaimed.mayStop = t.mayStop := rfl
    simp only [Action.perform, same]
    split <;> rfl
  | drain q note =>
    refine Turn.sees ?_
    simp only [Action.perform, World.context_unclaimed, Context.capability_unclaimed,
      context_unclaimed]
    rfl
  | withdraw q | sweep u =>
    refine Turn.sees ?_
    simp only [Action.perform, World.context_unclaimed, Context.capability_unclaimed,
      context_unclaimed]
    rfl
  | examine u todo ready =>
    refine Turn.sees ?_
    cases todo with
    | nil => rfl
    | cons q todo =>
      have same : w.unclaimed.isClosed q = w.isClosed q := rfl
      simp only [Action.perform, same]
      split <;> rfl
  | inspect u q todo ready =>
    refine Turn.sees ?_
    simp only [Action.perform, World.isResolved_unclaimed]
    rfl
  | dismiss u ready =>
    refine Turn.sees ?_
    cases ready with
    | nil => rfl
    | cons q ready =>
      have same : ∀ k, w.unclaimed.pending k = w.pending k := fun _ => rfl
      simp only [Action.perform, World.context_unclaimed, Context.capability_unclaimed,
        context_unclaimed, same]
      split <;> rfl
  | overwrite n v =>
    have rest : ∀ as, ({ t with agenda := as } : Thread).unclaimed =
        ({ t.unclaimed with agenda := as } : Thread).unclaimed := fun as =>
      congrArg (fun t : Thread => { t with agenda := as }) t.unclaimed_unclaimed.symm
    simp only [Action.perform, World.slot_unclaimed, free, Slot.queue?_unclaimed]
    exact congrArg₂ Prod.mk (World.unclaimed_write _) (rest _)
  | clear n => exact Turn.sees (by simp [Action.perform])
  | wake | «seal» | release => exact Turn.sees rfl

/-! ## Steps -/

theorem unclaimed_proceed (calm : t.control.isCalm)
    (free : t.control.isExit → ∀ f ∈ t.stack.head?, f.claim? = none) :
    Turn.unclaimed (t.proceed w) = Turn.unclaimed (t.unclaimed.proceed w.unclaimed) := by
  have control : t.unclaimed.control = t.control.unclaimed := rfl
  unfold proceed
  rw [control]
  cases at' : t.control with
  | run code env => exact unclaimed_run code env
  | perform p ns env => exact unclaimed_perform p ns env
  | give n => exact Turn.sees unclaimed_give
  | fail e => exact Turn.sees (unclaimed_fail e (free (by rw [at']; rfl)))
  | unwind message => exact Turn.sees (unclaimed_unwind message (free (by rw [at']; rfl)))
  | evaluate n => exact Turn.sees unclaimed_evaluate
  | enter n => exact Turn.sees unclaimed_enter
  | peek n other env =>
    refine Turn.sees ?_
    simp only [Control.unclaimed, World.evaluated?_unclaimed]
    split <;> rfl
  | apply n args => exact Turn.sees rfl
  | call n args => exact Turn.sees (unclaimed_call args)
  | register r n => exact Turn.sees (unclaimed_register r)
  | revert r => exact Turn.sees (unclaimed_revert r)
  | _ =>
    rw [at'] at calm
    cases calm

end Thread

end LazyGraph

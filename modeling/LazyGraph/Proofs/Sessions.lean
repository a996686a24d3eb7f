import LazyGraph.Proofs.Hush
import LazyGraph.Session.Perform

/-!
# Sessions that agree

Sessions in which everything but the reports is the same answer alike, and agree again after every
operation.
-/

namespace LazyGraph

variable {h : Hush}

/-! ## What an observer is shown -/

namespace World

variable {w w' : World} {n : NodeId} {c : ContextId} {k : CapabilityId} {q : QueueId} {u : TaskId}

theorem viewTo_hushed (depth : Nat) (n : NodeId) :
    (w.hushed h).viewTo depth n = w.viewTo depth n := by
  induction depth generalizing n with
  | zero => rfl
  | succ depth ih =>
    have fields : (w.hushed h).viewTo depth = w.viewTo depth := funext ih
    simp only [viewTo, node?_hushed, names_hushed, fields]

@[simp] theorem view_hushed : (w.hushed h).view n = w.view n :=
  viewTo_hushed _ n

theorem inspect_hushed (depth : Nat) (n : NodeId) :
    (w.hushed h).inspect depth n = w.inspect depth n := by
  induction depth generalizing n with
  | zero => rfl
  | succ depth ih =>
    have label : (w.hushed h).label n = w.label n := rfl
    have fields : (w.hushed h).inspect depth = w.inspect depth := funext ih
    simp only [inspect, node?_hushed, label, fields]

@[simp] theorem text_hushed : (w.hushed h).text n = w.text n :=
  inspect_hushed _ n

@[simp] theorem message_hushed (e : GraphError) : (w.hushed h).message e = w.message e := by
  cases e <;> rfl

@[simp] theorem written_hushed (o : Thread.Outcome) : (w.hushed h).written o = w.written o := by
  cases o <;> simp [written]

@[simp] theorem fieldText_hushed (f : Field) : (w.hushed h).fieldText f = w.fieldText f := by
  cases f <;> simp [fieldText]

@[simp] theorem taskName_hushed : (w.hushed h).taskName u = w.taskName u :=
  rfl

@[simp] theorem taskText_hushed : (w.hushed h).taskText u = w.taskText u :=
  rfl

@[simp] theorem nodeState_hushed : (w.hushed h).nodeState n = w.nodeState n := by
  have slot : (w.hushed h).slotView n = w.slotView n := by
    simp only [slotView, slot_hushed, view_hushed]
    rfl
  simp only [nodeState, slot]
  rfl

@[simp] theorem slotText_hushed : (w.hushed h).slotText n = w.slotText n := by
  simp only [slotText, slot_hushed, text_hushed, taskText_hushed, messages_hushed]

@[simp] theorem taskStateText_hushed : (w.hushed h).taskStateText u = w.taskStateText u := by
  delta taskStateText
  rw [task_hushed, taskText_hushed]

@[simp] theorem messageText_hushed (m : Option Message) :
    (w.hushed h).messageText m = w.messageText m := by
  cases m with
  | none => rfl
  | some m =>
    delta messageText
    dsimp only
    rw [taskText_hushed]

@[simp] theorem queueText_hushed : (w.hushed h).queueText q = w.queueText q := by
  have queues : (w.hushed h).queues = w.queues := rfl
  have name : (w.hushed h).queueName q = w.queueName q := rfl
  have task : (w.hushed h).taskText = w.taskText := rfl
  delta queueText
  rw [queues, name, task]

@[simp] theorem contextText_hushed : (w.hushed h).contextText c = w.contextText c := by
  delta contextText
  dsimp only
  rw [context_hushed, Context.task_hushed, Context.capability_hushed, Context.stack_hushed,
    taskText_hushed, capabilityName_hushed]

@[simp] theorem registersText_hushed (r : Registers) :
    (w.hushed h).registersText r = w.registersText r := by
  have text : (w.hushed h).text = w.text := funext fun _ => text_hushed
  delta registersText
  rw [text]

@[simp] theorem capabilityText_hushed : (w.hushed h).capabilityText k = w.capabilityText k := by
  delta capabilityText
  rw [capabilityName_hushed, pending_hushed]

@[simp] theorem registryText_hushed (r : String) :
    (w.hushed h).registryText r = w.registryText r := by
  delta registryText
  dsimp only
  rw [registry_hushed, Registry.keep_hushed, Registry.constants_hushed]

/-- Whatever goes by the hushed world is the same in both. -/
theorem read {α : Type} {f : World → α} (blind : ∀ w, f (w.hushed h) = f w)
    (same : w'.hushed h = w.hushed h) : f w' = f w := by
  rw [← blind, same, blind]

end World

/-! ## Workers -/

namespace Session

/-- Sessions that agree on everything but their reports. -/
structure Alike (h : Hush) (s s' : Session) : Prop where
  state : s'.state.hushed h = s.state.hushed h
  workers : s'.workers = s.workers

/-- What an operation makes of sessions that agree. -/
structure Agree {α : Type} (h : Hush) (x x' : Session × α) : Prop where
  session : x.1.Alike h x'.1
  answer : x'.2 = x.2

variable {s s' : Session} {α : Type}

theorem Agree.pair {x x' : Session × α} (agree : Agree h x x') :
    ∃ s s' a, x = (s, a) ∧ x' = (s', a) ∧ s.Alike h s' :=
  ⟨x.1, x'.1, x.2, rfl, by rw [← agree.answer], agree.session⟩

theorem Alike.world (alike : s.Alike h s') : s'.world.hushed h = s.world.hushed h :=
  congrArg State.world alike.state

theorem Alike.threads (alike : s.Alike h s') : s'.state.threads = s.state.threads :=
  (State.mk.inj alike.state).2

theorem alike_mk (world : s'.world.hushed h = s.world.hushed h)
    (threads : s'.state.threads = s.state.threads) (workers : s'.workers = s.workers) :
    s.Alike h s' :=
  ⟨by rw [State.hushed, State.hushed, threads]; exact congrArg (State.mk · _) world, workers⟩

theorem Alike.read (alike : s.Alike h s') {f : World → α}
    (blind : ∀ w : World, f (w.hushed h) = f w) :
    f s'.world = f s.world :=
  World.read blind alike.world

theorem Alike.mapWorld (alike : s.Alike h s') {f f' : World → World}
    (same : (f' s'.world).hushed h = (f s.world).hushed h) :
    (s.mapWorld f).Alike h (s'.mapWorld f') :=
  alike_mk same alike.threads alike.workers

theorem Alike.answer (alike : s.Alike h s') (a : α) : Agree h (s, a) (s', a) :=
  ⟨alike, rfl⟩

theorem Alike.put (alike : s.Alike h s') {w w' : World} (same : w'.hushed h = w.hushed h) :
    (s.mapWorld fun _ => w).Alike h (s'.mapWorld fun _ => w') :=
  alike.mapWorld same

/-- A change that goes by the hushed world. -/
theorem Alike.change (alike : s.Alike h s') {f : World → World}
    (commutes : ∀ w, (f w).hushed h = f (w.hushed h)) : (s.mapWorld f).Alike h (s'.mapWorld f) :=
  alike.mapWorld (by rw [commutes, alike.world, commutes])

theorem Alike.step (alike : s.Alike h s') (i : ThreadId) :
    Alike h { s with state := s.state.step i } { s' with state := s'.state.step i } :=
  ⟨State.hushed_step alike.state i, alike.workers⟩

theorem Alike.thread? (alike : s.Alike h s') (w : Worker) : s'.thread? w = s.thread? w := by
  rw [Session.thread?, Session.thread?, alike.threads]

theorem Alike.waits (alike : s.Alike h s') (w : Worker) : s'.waits w = s.waits w := by
  rw [Session.waits, Session.waits, alike.thread?]

theorem Alike.next? (alike : s.Alike h s') : s'.next? = s.next? := by
  simp only [Session.next?, alike.workers, alike.waits]

theorem Alike.stops (alike : s.Alike h s') (i : Nat) : s'.stops i = s.stops i := by
  simp only [Session.stops, alike.workers, alike.waits, alike.thread?]

theorem Alike.change? (alike : s.Alike h s') (w : Worker) : s'.change? w = s.change? w := by
  simp only [Session.change?, Session.status?, alike.thread?]

theorem Alike.changes (alike : s.Alike h s') : s'.changes = s.changes := by
  simp only [Session.changes, alike.workers, alike.change?]

theorem Alike.acknowledge (alike : s.Alike h s') : s.acknowledge.Alike h s'.acknowledge :=
  ⟨alike.state, by simp only [Session.acknowledge, alike.workers, alike.change?]⟩

theorem Alike.absorb (alike : s.Alike h s') : s.absorb.Alike h s'.absorb := by
  have all : ∀ (ws : List Worker) (x x' : State), x'.hushed h = x.hushed h →
      State.hushed h (ws.foldl (fun state w =>
        if (state.threads[w.thread]?).any Thread.isParked then state.step w.thread else state) x') =
      State.hushed h (ws.foldl (fun state w =>
        if (state.threads[w.thread]?).any Thread.isParked then state.step w.thread
          else state) x) := by
    intro ws
    induction ws with
    | nil => exact fun _ _ same => same
    | cons w ws ih =>
      intro x x' same
      have threads : x'.threads = x.threads := (State.mk.inj same).2
      rw [List.foldl_cons, List.foldl_cons, threads]
      split
      · exact ih _ _ (State.hushed_step same w.thread)
      · exact ih _ _ same
  exact ⟨by rw [Session.absorb, Session.absorb, alike.workers]; exact all _ _ _ alike.state,
    alike.workers⟩

theorem Alike.conclude (alike : s.Alike h s') (i : Nat) :
    (s.conclude i).Alike h (s'.conclude i) := by
  rw [Session.conclude, Session.conclude, alike.workers]
  cases s.workers[i]? with
  | none => exact alike
  | some w =>
    dsimp only
    rw [alike.thread?]
    cases (s.thread? w).bind Thread.outcome? with
    | none => exact alike
    | some outcome =>
      have written : ∀ {s s' : Session}, s.Alike h s' →
          s'.world.written outcome = s.world.written outcome := fun alike =>
        alike.read (f := (World.written · outcome)) fun _ => World.written_hushed _
      have bound : ∀ x n, (s.mapWorld (·.bind x n)).Alike h (s'.mapWorld (·.bind x n)) :=
        fun x n => alike.change fun _ => rfl
      cases w.bindAs with
      | none => exact ⟨alike.state, by simp only [written alike, alike.workers]⟩
      | some x =>
        cases outcome with
        | value n =>
          exact ⟨(bound x n).state, by simp only [written (bound x n), (bound x n).workers]⟩
        | error | panic => exact ⟨alike.state, by simp only [written alike, alike.workers]⟩

theorem Alike.advance (alike : s.Alike h s') (fuel : Nat) (i : Option Nat) :
    (Session.advance fuel i s).Alike h (Session.advance fuel i s') := by
  induction fuel generalizing s s' i with
  | zero => exact alike
  | succ fuel ih =>
    cases i with
    | none =>
      simp only [Session.advance, alike.next?]
      split
      · exact alike
      · exact ih alike _
    | some i =>
      simp only [Session.advance, alike.workers]
      split
      · exact alike
      · rename_i w found
        have stepped := alike.step w.thread
        rw [alike.workers] at stepped
        rw [stepped.stops]
        split
        · exact ih (stepped.conclude i).absorb _
        · exact ih stepped.absorb _

theorem Alike.isStuck (alike : s.Alike h s') (i : ThreadId) :
    s'.state.isStuck i = s.state.isStuck i := by
  have permit : ∀ t : Thread, (s'.world.task (t.me s'.world)).permit =
      (s.world.task (t.me s.world)).permit := fun t =>
    alike.read (f := fun w => (w.task (t.me w)).permit) fun w => by
      rw [Thread.me, Thread.me, World.taskOf, World.context_hushed]
      rfl
  simp only [State.isStuck, alike.threads]
  simp only [Session.world] at permit
  simp only [permit]

theorem Alike.finish (alike : s.Alike h s') (fuel : Nat) (i : ThreadId) :
    Agree h (Session.finish fuel i s) (Session.finish fuel i s') := by
  induction fuel generalizing s s' with
  | zero => exact ⟨alike, rfl⟩
  | succ fuel ih =>
    rw [Session.finish, Session.finish, alike.threads, alike.isStuck]
    cases (s.state.threads[i]?).bind Thread.outcome? with
    | some outcome => exact ⟨alike, rfl⟩
    | none =>
      dsimp only
      split
      · exact ⟨alike, rfl⟩
      · exact ih (alike.step i).absorb

theorem Alike.spawn (alike : s.Alike h s') (t : Thread) :
    Alike h { s with state := (s.state.spawn t).1 } { s' with state := (s'.state.spawn t).1 } :=
  alike_mk alike.world (congrArg (·.push t) alike.threads) alike.workers

theorem Alike.main (alike : s.Alike h s') (fuel : Nat) (c : ContextId) (agenda : List Action)
    (control : Control) :
    Agree h (s.main fuel c agenda control) (s'.main fuel c agenda control) := by
  have next : ∀ t, (s'.state.spawn t).2 = (s.state.spawn t).2 := fun t =>
    congrArg Array.size alike.threads
  simp only [Session.main, next]
  exact (alike.spawn _).finish fuel _

/-! ## Operations -/

theorem Alike.env (alike : s.Alike h s') : s'.env = s.env :=
  alike.read (f := fun w => ({ captured := w.names, frames := [[]] } : Env)) fun _ => rfl

theorem Alike.withNode (alike : s.Alike h s') (x : String) {f f' : NodeId → Session × Answer}
    (agree : ∀ n, Agree h (f n) (f' n)) : Agree h (s.withNode x f) (s'.withNode x f') := by
  have known : s'.node? x = s.node? x := alike.read (f := (·.names.find? x)) fun _ => rfl
  simp only [Session.withNode, known]
  split
  · exact agree _
  · exact ⟨alike, rfl⟩

theorem Alike.withTask (alike : s.Alike h s') (x : String) {f f' : TaskId → Session × Answer}
    (agree : ∀ t, Agree h (f t) (f' t)) : Agree h (s.withTask x f) (s'.withTask x f') := by
  have known : s'.task? x = s.task? x :=
    alike.read (f := (lastNamed Task.name ·.tasks x)) fun _ => rfl
  simp only [Session.withTask, known]
  split
  · exact agree _
  · exact ⟨alike, rfl⟩

theorem Alike.withQueue (alike : s.Alike h s') (x : String) {f f' : QueueId → Session × Answer}
    (agree : ∀ q, Agree h (f q) (f' q)) : Agree h (s.withQueue x f) (s'.withQueue x f') := by
  have known : s'.queue? x = s.queue? x :=
    alike.read (f := (lastNamed Queue.name ·.queues x)) fun _ => rfl
  simp only [Session.withQueue, known]
  split
  · exact agree _
  · exact ⟨alike, rfl⟩

/-- Looking changes nothing, and shows what the hushed world shows. -/
theorem Alike.look (alike : s.Alike h s') (f : World → Answer)
    (blind : ∀ w : World, f (w.hushed h) = f w) : Agree h (s, f s.world) (s', f s'.world) :=
  ⟨alike, alike.read blind⟩

theorem Alike.bindResult (alike : s.Alike h s') (x : Option String) (o : Thread.Outcome) :
    (s.bindResult x o).Alike h (s'.bindResult x o) := by
  cases o with
  | value n =>
    cases x with
    | none => exact alike
    | some x => exact alike.change (f := (·.bind x n)) fun _ => rfl
  | error | panic => exact alike

theorem Alike.run (alike : s.Alike h s') (fuel : Nat) (l : Launch) :
    Agree h (s.run fuel l) (s'.run fuel l) := by
  obtain ⟨t, t', o, first, second, after⟩ := (alike.main fuel l.context [] (.run l.code s.env)).pair
  simp only [Session.run, alike.env, first, second]
  cases o with
  | none => exact ⟨after, rfl⟩
  | some o =>
    exact (after.bindResult l.name o).look (fun w => .outcome (w.written o)) fun w => by
      rw [World.written_hushed]

theorem Alike.hire (alike : s.Alike h s') (name : String) (l : Launch) :
    (s.hire name l).Alike h (s'.hire name l) := by
  have next : ∀ t, (s'.state.spawn t).2 = (s.state.spawn t).2 := fun t =>
    congrArg Array.size alike.threads
  simp only [Session.hire, alike.env, next, alike.workers]
  exact ⟨(alike.spawn _).state, rfl⟩

theorem Alike.errands (alike : s.Alike h s') (fuel : Nat) (c : ContextId) (actions : List Action)
    (answer : Answer) :
    Agree h (s.errands fuel c actions answer) (s'.errands fuel c actions answer) := by
  obtain ⟨t, t', o, first, second, after⟩ := (alike.main fuel c actions (.give 0)).pair
  simp only [Session.errands, first, second]
  cases o <;> exact ⟨after, rfl⟩

theorem Alike.openGate (alike : s.Alike h s') (g : String) :
    Agree h (s.openGate g) (s'.openGate g) := by
  have standing : (s'.workers.filter fun w => (s'.thread? w).bind Thread.standsAt? == some g) =
      s.workers.filter fun w => (s.thread? w).bind Thread.standsAt? == some g := by
    simp only [alike.workers, alike.thread?]
  simp only [Session.openGate, standing, alike.threads]
  exact ⟨alike_mk alike.world rfl alike.workers, rfl⟩

theorem Alike.detour (alike : s.Alike h s') (c : ContextId) (d : Detour) :
    (s.detour c d).Alike h (s'.detour c d) := by
  have named : (s'.world.capabilities[(s'.world.context c).capability]?).any (·.name.isSome) =
      (s.world.capabilities[(s.world.context c).capability]?).any (·.name.isSome) :=
    alike.read (f := fun w => (w.capabilities[(w.context c).capability]?).any (·.name.isSome))
      fun w => by
        rw [World.capabilityOf_hushed, World.hushed, Array.getElem?_map, Option.any_map]
        rfl
  simp only [Session.detour, named]
  split
  · refine alike.change (f := fun w => w.setContext c { w.context c with detour := some d })
      fun w => ?_
    simp [Context.hushed, Context.veiled]
  · exact alike

theorem Alike.inspect (alike : s.Alike h s') (subject : Subject) :
    Agree h (s.inspect subject) (s'.inspect subject) := by
  cases subject with
  | node x =>
    exact alike.withNode x fun n => alike.look (fun w => .text (w.text n)) fun w => by simp
  | weak x =>
    exact alike.withNode x fun n =>
      alike.look (fun w => .text s!"Weak({w.text n})") fun w => by simp
  | thunk x =>
    refine alike.withNode x fun n => ?_
    rw [alike.read (f := (World.thunk? · n)) fun _ => rfl]
    exact ⟨alike, rfl⟩
  | slot x =>
    exact alike.withNode x fun n => alike.look (fun w => .text (w.slotText n)) fun w => by simp
  | fields x =>
    refine alike.withNode x fun n => ?_
    rw [alike.read (f := (World.value? · n)) fun _ => rfl]
    split
    · exact alike.look (fun w => .text (bracketed (List.map w.fieldText _))) fun w => by
        rw [show (w.hushed h).fieldText = w.fieldText from funext fun _ => World.fieldText_hushed _]
    · exact ⟨alike, rfl⟩
  | bytecode x =>
    refine alike.withNode x fun n => ?_
    rw [alike.read (f := (World.value? · n)) fun _ => rfl]
    split <;> exact ⟨alike, rfl⟩
  | context c => exact alike.look (fun w => .text (w.contextText c)) fun w => by simp
  | registers c =>
    exact alike.look (fun w => .text (w.registersText (w.context c).registers)) fun w => by
      simp [Context.hushed, Context.veiled]
  | capability c =>
    exact alike.look (fun w => .text (w.capabilityText (w.context c).capability)) fun w => by
      simp [Context.hushed, Context.veiled]
  | task x =>
    exact alike.withTask x fun t => alike.look (fun w => .text (w.taskStateText t)) fun w => by simp
  | taskId x =>
    exact alike.withTask x fun t =>
      alike.look (fun w => .text s!"task-{w.taskName t} {w.taskText t}") fun w => by
        rw [World.taskName_hushed, World.taskText_hushed]
  | message x =>
    exact alike.withTask x fun t =>
      alike.look (fun w => .text (w.messageText (w.task t).info)) fun w => by simp
  | queue x =>
    exact alike.withQueue x fun q => alike.look (fun w => .text (w.queueText q)) fun w => by simp
  | registry r => exact alike.look (fun w => .text (w.registryText r)) fun w => by simp

theorem Alike.field (alike : s.Alike h s') (n : NodeId) (kind : FieldKind) (index : Nat) :
    Agree h (s.field n kind index) (s'.field n kind index) := by
  simp only [Session.field, alike.read (f := (World.value? · n)) fun _ => rfl]
  split
  · split
    · exact alike.look (fun w => .outcome (.value (w.view _))) fun w => by simp
    · exact ⟨alike, rfl⟩
    · exact alike.look (fun w => .outcome (.error _ (w.message _))) fun w => by simp
  · exact ⟨alike, rfl⟩

theorem Alike.registers (alike : s.Alike h s') (c : ContextId) (clear : Bool) :
    Agree h (s.registers c clear) (s'.registers c clear) := by
  have shown : ∀ {s s' : Session}, s.Alike h s' →
      Agree h (s, Answer.registers ((s.world.context c).registers.r1.map s.world.view)
        (s.world.context c).registers)
      (s', Answer.registers ((s'.world.context c).registers.r1.map s'.world.view)
        (s'.world.context c).registers) := fun alike =>
    alike.look (fun w => .registers ((w.context c).registers.r1.map w.view) (w.context c).registers)
      fun w => by
        rw [show (w.hushed h).view = w.view from funext fun _ => World.view_hushed,
          World.context_hushed, Context.registers_hushed]
  cases clear with
  | false => exact shown alike
  | true =>
    refine shown
      (alike.change (f := fun w => w.setContext c { w.context c with registers := {} }) ?_)
    intro w
    simp [Context.hushed, Context.veiled]

theorem Alike.context (alike : s.Alike h s') (c : ContextId) :
    Agree h (s, Answer.context (s.contextInfo c) (s.world.taskInfo (s.world.taskOf c)))
      (s', Answer.context (s'.contextInfo c) (s'.world.taskInfo (s'.world.taskOf c))) := by
  have info : s'.contextInfo c = s.contextInfo c := by
    simp only [Session.contextInfo, alike.workers]
    split
    · rfl
    · exact alike.read (f := fun w => some (⟨(w.context c).stack.depth,
        (w.context c).interpreter.isSome, (w.context c).config.eager⟩ : ContextInfo)) fun w => by
          simp
  rw [info]
  exact alike.look (fun w => .context (s.contextInfo c) (w.taskInfo (w.taskOf c))) fun w => by
    rw [World.taskOf_hushed]
    rfl

/-! ### Registries, queues, capabilities and tasks -/

theorem Alike.configure (alike : s.Alike h s') {config config' : Config} (r : String)
    (same : config'.hushed h = config.hushed h) :
    Agree h
      (s.mapWorld (·.setRegistry r { s.world.registry r with
        keep := config.keepConstants, verbose := config.debug.gccafs }), Answer.nothing)
      (s'.mapWorld (·.setRegistry r { s'.world.registry r with
        keep := config'.keepConstants, verbose := config'.debug.gccafs }), Answer.nothing) := by
  have keep : config'.keepConstants = config.keepConstants := by
    simpa only [Config.hushed] using congrArg Config.keepConstants same
  have verbose : h.verbose config'.debug.gccafs = h.verbose config.debug.gccafs := by
    rw [← h.gccafs, ← h.gccafs]
    simpa only [Config.hushed] using congrArg (fun c : Config => c.debug.gccafs) same
  have constants : (s'.world.registry r).constants = (s.world.registry r).constants :=
    alike.read (f := fun w => (w.registry r).constants) fun w => by simp
  have busy : (s'.world.registry r).busy = (s.world.registry r).busy :=
    alike.read (f := fun w => (w.registry r).busy) fun w => by simp
  refine (alike.mapWorld ?_).answer _
  rw [World.hushed_setRegistry, World.hushed_setRegistry, alike.world]
  simp only [Registry.hushed, Registry.veiled, keep, verbose, constants, busy]

theorem Alike.onRegistry (alike : s.Alike h s') (fuel : Nat) (r : String) (op : RegistryOp) :
    Agree h (s.onRegistry fuel r op) (s'.onRegistry fuel r op) := by
  cases op with
  | keep on =>
    refine ⟨alike.change (f := fun w => w.setRegistry r { w.registry r with keep := on }) ?_, rfl⟩
    intro w
    simp [Registry.hushed, Registry.veiled]
  | keeps =>
    exact alike.look (fun w => .flag (w.registry r).keep) fun w => by
      simp
  | isEmpty =>
    exact alike.look (fun w => .flag (w.registry r).constants.isEmpty) fun w => by
      simp
  | length =>
    exact alike.look (fun w => .count (w.registry r).constants.length) fun w => by
      simp
  | configure config => exact alike.configure r rfl
  | register x =>
    refine alike.withNode x fun n => ?_
    obtain ⟨t, t', o, first, second, after⟩ := (alike.main fuel 0 [] (.register r n)).pair
    simp only [first, second]
    cases o <;> exact ⟨after, rfl⟩
  | revert =>
    obtain ⟨t, t', o, first, second, after⟩ := (alike.main fuel 0 [] (.revert r)).pair
    simp only [Session.onRegistry, first, second]
    rcases o with _ | ⟨n⟩ | _ | _
    · exact ⟨after, rfl⟩
    · exact after.look (fun w => .count (w.number n).toInt.toNat) fun _ => rfl
    · exact ⟨after, rfl⟩
    · exact ⟨after, rfl⟩

theorem Alike.onQueue (alike : s.Alike h s') (fuel : Nat) (x : String) (op : QueueOp) :
    Agree h (s.onQueue fuel x op) (s'.onQueue fuel x op) := by
  have messages : ∀ q, s'.world.messages q = s.world.messages q := fun q =>
    alike.read (f := (World.messages · q)) fun _ => rfl
  cases op with
  | new owner y =>
    exact alike.withTask owner fun t => alike.withNode y fun n =>
      ⟨alike.change (f := fun w => (w.addQueue { name := some x, owner := t, thunk := n }).1)
        fun _ => rfl, rfl⟩
  | push sender y =>
    refine alike.withQueue x fun q => alike.withTask sender fun t => alike.withNode y fun n => ?_
    have pushed := World.hushed_push? (h := h) (w := s'.world) (q := q) ⟨t, n⟩
    rw [alike.world, ← World.hushed_push?] at pushed
    generalize s.world.push? q ⟨t, n⟩ = after at pushed
    generalize s'.world.push? q ⟨t, n⟩ = after' at pushed
    cases after <;> cases after' <;>
      simp only [Option.map_some, Option.map_none, reduceCtorEq, Option.some.injEq] at pushed
    · exact ⟨alike, rfl⟩
    · exact (alike.put pushed).answer _
  | close =>
    refine alike.withQueue x fun q => ⟨alike.change (f := (·.close q)) fun _ => rfl, ?_⟩
    exact alike.read (f := fun w => Answer.names ((w.messages q).map fun m => w.taskName m.task))
      fun _ => rfl
  | wakeAll =>
    refine alike.withQueue x fun q => ?_
    rw [messages]
    exact alike.errands fuel 0 _ _
  | info =>
    exact alike.withQueue x fun q =>
      alike.look (fun w => ((w.queueInfo q).map Answer.queue).getD (.unknown x)) fun _ => rfl

theorem Alike.takePermit (alike : s.Alike h s') {f f' : World → Session × Answer} (u : TaskId)
    (agree : ∀ w w', w'.hushed h = w.hushed h → Agree h (f w) (f' w')) :
    Agree h
      (match s.world.takePermit? u with
        | some w => f w
        | none => (s, .wouldBlock))
      (match s'.world.takePermit? u with
        | some w => f' w
        | none => (s', .wouldBlock)) := by
  have taken := Veil.takePermit? (.hush h) (w := s'.world) (u := u)
  rw [show (Veil.hush h).hide = World.hushed h from rfl, alike.world] at taken
  rw [show (s.world.hushed h).takePermit? u = (s.world.takePermit? u).map (World.hushed h) from
    (Veil.takePermit? (.hush h)).symm] at taken
  cases before : s.world.takePermit? u <;> cases before' : s'.world.takePermit? u <;>
    simp only [before, before', Option.map_some, Option.map_none, reduceCtorEq,
      Option.some.injEq] at taken ⊢
  · exact ⟨alike, rfl⟩
  · exact agree _ _ taken

theorem Alike.onCapability (alike : s.Alike h s') (fuel : Nat) (c : ContextId) (op : CapabilityOp) :
    Agree h (s.onCapability fuel c op) (s'.onCapability fuel c op) := by
  have capability : (s'.world.context c).capability = (s.world.context c).capability :=
    alike.read (f := fun w => (w.context c).capability) fun _ => World.capabilityOf_hushed
  cases op with
  | pending =>
    exact alike.look (fun w => .count (w.pending (w.context c).capability).length) fun w => by simp
  | wake q => exact alike.withQueue q fun q => alike.errands fuel c _ _
  | check t => exact alike.withTask t fun t => alike.errands fuel c _ _
  | message t x q =>
    refine alike.withTask t fun t => alike.withQueue q fun q => ?_
    rw [capability]
    generalize (s.world.context c).capability = k
    have same : ((s'.world.christen k q).enrol k q).hushed h =
        ((s.world.christen k q).enrol k q).hushed h := by
      rw [World.hushed_enrol, World.hushed_christen, alike.world, World.hushed_enrol,
        World.hushed_christen]
    simp only [World.read (f := (·.queues[q]?)) (fun _ => rfl) same]
    split
    · exact alike.answer _
    · split
      · exact (alike.put (by rw [World.hushed_withdraw, same, World.hushed_withdraw])).answer _
      · exact (alike.put (by rw [World.hushed_emit, same, World.hushed_emit])).answer _
  | blocked t =>
    exact alike.withTask t fun t => alike.takePermit t fun w w' same => (alike.put same).answer _

theorem Alike.onTask (alike : s.Alike h s') (x : String) (op : TaskOp) :
    Agree h (s.onTask x op) (s'.onTask x op) := by
  have info : ∀ {s s' : Session} (t : TaskId), s.Alike h s' →
      Agree h (s, Answer.task (s.world.taskInfo t)) (s', Answer.task (s'.world.taskInfo t)) :=
    fun t alike => alike.look (fun w => .task (w.taskInfo t)) fun _ => rfl
  cases op with
  | new => exact ⟨alike.change (f := fun w => (w.addTask { name := some x }).1) fun _ => rfl, rfl⟩
  | wake =>
    exact alike.withTask x fun t => info t (alike.change (f := (·.wake t)) fun _ => rfl).absorb
  | park =>
    exact alike.withTask x fun t => alike.takePermit t fun w w' same => info t (alike.put same)
  | block waiting y =>
    exact alike.withTask x fun t => alike.withNode y fun n =>
      info t (alike.change (f := fun w => w.setTask t ((w.task t).blockOn waiting ⟨t, n⟩))
        fun _ => rfl)
  | info => exact alike.withTask x fun t => info t alike

end Session

end LazyGraph

import LazyGraph.Proofs.Veils

/-!
# Reports change nothing

What a world records, and whether it does, has no influence on what its threads do next. The log is
written only, and the switches are looked at only when an event is recorded.
-/

namespace LazyGraph

/-! ## Silence -/

/-- Takes the log away, and sets the switches of the reports. -/
structure Hush where
  flags : DebugFlags → DebugFlags
  level : String → String
  traced : Bool → Bool
  verbose : Bool → Bool
  flags_default : flags {} = {}
  level_default : level "warn" = "warn"
  scheduler : ∀ f, (flags f).scheduler = traced f.scheduler
  gccafs : ∀ f, (flags f).gccafs = verbose f.gccafs

attribute [simp] Hush.scheduler Hush.gccafs

namespace Hush

/-- Only the log is taken away. -/
def log : Hush :=
  ⟨id, id, id, id, rfl, rfl, fun _ => rfl, fun _ => rfl⟩

/-- Besides, all switches are off. -/
def all : Hush :=
  ⟨fun _ => {}, fun _ => "warn", fun _ => false, fun _ => false, rfl, rfl, fun _ => rfl,
    fun _ => rfl⟩

theorem verbose_default (h : Hush) : h.verbose false = false := by
  rw [← h.gccafs {}, h.flags_default]

end Hush

variable {h : Hush}

def Config.hushed (h : Hush) (c : Config) : Config :=
  { c with debug := h.flags c.debug, logLevel := h.level c.logLevel }

def Context.hushed (h : Hush) (c : Context) : Context :=
  c.veiled (Config.hushed h) id

namespace Context

variable {c : Context}

@[simp] theorem task_hushed : (c.hushed h).task = c.task :=
  rfl

@[simp] theorem capability_hushed : (c.hushed h).capability = c.capability :=
  rfl

@[simp] theorem eager_hushed : (c.hushed h).config.eager = c.config.eager :=
  rfl

@[simp] theorem interpreter_hushed : (c.hushed h).interpreter = c.interpreter :=
  rfl

@[simp] theorem stack_hushed : (c.hushed h).stack = c.stack :=
  rfl

@[simp] theorem registers_hushed : (c.hushed h).registers = c.registers :=
  rfl

end Context

def Capability.hushed (h : Hush) (k : Capability) : Capability :=
  { k with traced := h.traced k.traced }

def Registry.hushed (h : Hush) (r : Registry) : Registry :=
  r.veiled h.verbose

namespace Registry

variable {r : Registry}

@[simp] theorem keep_hushed : (r.hushed h).keep = r.keep :=
  rfl

@[simp] theorem constants_hushed : (r.hushed h).constants = r.constants :=
  rfl

@[simp] theorem busy_hushed : (r.hushed h).busy = r.busy :=
  rfl

end Registry

namespace World

def hushed (h : Hush) (w : World) : World :=
  { w with
    contexts := w.contexts.map (Context.hushed h)
    capabilities := w.capabilities.map (Capability.hushed h)
    registries := w.registries.map fun entry => (entry.1, entry.2.hushed h)
    log := {} }

variable {w : World} {n : NodeId} {c : ContextId} {k : CapabilityId} {q : QueueId} {u : TaskId}
  {r : String}

/-! ## What can be seen -/

@[simp] theorem names_hushed : (w.hushed h).names = w.names :=
  rfl

@[simp] theorem node?_hushed : (w.hushed h).node? n = w.node? n :=
  rfl

@[simp] theorem value?_hushed : (w.hushed h).value? n = w.value? n :=
  rfl

@[simp] theorem thunk?_hushed : (w.hushed h).thunk? n = w.thunk? n :=
  rfl

@[simp] theorem slot_hushed : (w.hushed h).slot n = w.slot n :=
  rfl

@[simp] theorem evaluated?_hushed : (w.hushed h).evaluated? n = w.evaluated? n :=
  rfl

@[simp] theorem task_hushed : (w.hushed h).task u = w.task u :=
  rfl

@[simp] theorem messages_hushed : (w.hushed h).messages q = w.messages q :=
  rfl

@[simp] theorem context_hushed : (w.hushed h).context c = (w.context c).hushed h := by
  simp only [context, hushed, Array.getD_eq_getD_getElem?, Array.getElem?_map]
  cases w.contexts[c]? with
  | none =>
    simp only [Option.map_none, Option.getD_none]
    simp [default, instInhabitedContext.default, Context.hushed, Context.veiled, Config.hushed,
      h.flags_default, h.level_default]
  | some context => rfl

@[simp] theorem taskOf_hushed : (w.hushed h).taskOf c = w.taskOf c := by
  simp [taskOf]

@[simp] theorem registry_hushed : (w.hushed h).registry r = (w.registry r).hushed h := by
  have entries : ∀ t : Table Registry,
      Table.find? (t.map fun entry => (entry.1, entry.2.hushed h)) r =
        (Table.find? t r).map (Registry.hushed h) := by
    intro t
    unfold Table.find?
    induction t with
    | nil => rfl
    | cons entry t ih =>
      obtain ⟨x, registry⟩ := entry
      simp only [List.map_cons, List.lookup_cons, ih]
      cases r == x <;> rfl
  simp only [registry, hushed, entries]
  cases Table.find? w.registries r with
  | none => simp [Registry.hushed, Registry.veiled, h.verbose_default]
  | some registry => rfl

@[simp] theorem pending_hushed : (w.hushed h).pending k = w.pending k := by
  simp only [pending, mapOf, hushed, Array.getElem?_map]
  cases w.capabilities[k]? <;> rfl

theorem capabilityOf_hushed :
    ((w.hushed h).context c).capability = (w.context c).capability := by
  simp

@[simp] theorem capabilityName_hushed : (w.hushed h).capabilityName k = w.capabilityName k := by
  simp only [capabilityName, hushed, Array.getElem?_map]
  cases w.capabilities[k]? <;> rfl

/-! ## What can be changed -/

@[simp] theorem hushed_setContext (context : Context) :
    (w.setContext c context).hushed h = (w.hushed h).setContext c (context.hushed h) := by
  simp [setContext, hushed]

@[simp] theorem hushed_addContext (context : Context) :
    (w.addContext context).1.hushed h = ((w.hushed h).addContext (context.hushed h)).1 := by
  simp [addContext, hushed]

@[simp] theorem addContext_hushed (context : Context) :
    ((w.hushed h).addContext context).2 = (w.addContext context).2 := by
  simp [addContext, hushed]

@[simp] theorem hushed_addTask (task : Task) :
    (w.addTask task).1.hushed h = ((w.hushed h).addTask task).1 :=
  rfl

@[simp] theorem addTask_hushed (task : Task) : ((w.hushed h).addTask task).2 = (w.addTask task).2 :=
  rfl

@[simp] theorem hushed_setRegistry (registry : Registry) :
    (w.setRegistry r registry).hushed h = (w.hushed h).setRegistry r (registry.hushed h) := by
  simp [setRegistry, hushed, Table.insert, List.filter_map, Function.comp_def]

@[simp] theorem hushed_christen :
    (w.christen k q).hushed h = (w.hushed h).christen k q := by
  have name : ((w.hushed h).capabilities[k]?).bind (·.name) =
      (w.capabilities[k]?).bind (·.name) := by
    simp only [hushed, Array.getElem?_map]
    cases w.capabilities[k]? <;> rfl
  have queues : (w.hushed h).queues = w.queues := rfl
  simp only [christen, name, queues]
  cases (w.capabilities[k]?).bind (·.name) with
  | none => rfl
  | some x =>
    cases w.queues[q]? with
    | none => rfl
    | some Q =>
      simp only
      split <;> rfl

theorem mapOf_hushed : (w.hushed h).mapOf k = w.mapOf k := by
  simp only [mapOf, hushed, Array.getElem?_map]
  cases w.capabilities[k]? <;> rfl

@[simp] theorem hushed_enrol : (w.enrol k q).hushed h = (w.hushed h).enrol k q := by
  simp only [enrol, mapOf_hushed]
  rfl

@[simp] theorem hushed_withdraw : (w.withdraw k q).hushed h = (w.hushed h).withdraw k q := by
  simp only [withdraw, mapOf_hushed]
  rfl

@[simp] theorem hushed_addCapability (map : Nat) (name : Option String) (traced : Bool) :
    (Pool.addCapability w map name traced).1.hushed h =
      (Pool.addCapability (w.hushed h) map name (h.traced traced)).1 := by
  simp [Pool.addCapability, hushed, Capability.hushed]

@[simp] theorem hushed_close : (w.close q).hushed h = (w.hushed h).close q :=
  rfl

@[simp] theorem hushed_push? (m : Message) :
    (w.push? q m).map (hushed h) = (w.hushed h).push? q m := by
  simp only [push?, hushed]
  cases (w.queues[q]?).bind (·.push? m) <;> rfl

@[simp] theorem hushed_emit (e : Event) : (w.emit c e).hushed h = w.hushed h := by
  obtain ⟨log, same⟩ := w.emit_eq c e
  rw [same]
  rfl

end World

def Veil.hush (h : Hush) : Veil where
  hide := World.hushed h
  config := Config.hushed h
  capability := id
  verbose := h.verbose
  eager _ := rfl
  heap _ := rfl
  setHeap _ _ := rfl
  tasks _ := rfl
  setTasks _ _ := rfl
  counters _ := rfl
  setCounters _ _ := rfl
  names _ := rfl
  context _ _ := World.context_hushed
  setContext _ _ _ := World.hushed_setContext _
  registry _ _ := World.registry_hushed
  setRegistry _ _ _ := World.hushed_setRegistry _
  isClosed _ _ := rfl
  queues _ := rfl
  addQueue _ _ _ := rfl
  push? _ _ _ := World.hushed_push? _
  christen _ _ _ := World.hushed_christen
  enrol _ _ _ := World.hushed_enrol
  withdraw _ _ _ := World.hushed_withdraw

/-! ## Steps -/

def Turn.hushed (h : Hush) (x : Turn) : Turn :=
  (x.1.hushed h, x.2)

section

variable {w w' : World} {t : Thread} {below : List Frame}

/-- A report apart, an errand does in a silent world what it does elsewhere. -/
theorem Action.hushed_perform (a : Action) (other : ∀ e, a ≠ .emit e) :
    (Veil.hush h).turn below (a.perform w t) = a.perform (w.hushed h) (t.over below) := by
  have hide : (Veil.hush h).hide = World.hushed h := rfl
  cases a with
  | emit e => exact absurd rfl (other e)
  | gate g =>
    simp only [perform]
    have may : (t.over below).mayStop = t.mayStop := rfl
    rw [may]
    split <;> rfl
  | wake u =>
    simp only [perform, Thread.veil_mk, Veil.wake]
    rfl
  | drain q note =>
    simp only [perform, Thread.context_over, World.capabilityOf_hushed]
    rfl
  | «seal» q => rfl
  | withdraw q =>
    simp only [perform, Thread.veil_mk, Thread.context_over, World.capabilityOf_hushed, hide,
      World.hushed_withdraw]
  | sweep u =>
    simp only [perform, Thread.context_over, World.capabilityOf_hushed, World.pending_hushed]
    rfl
  | examine u todo ready =>
    cases todo with
    | nil => rfl
    | cons q todo =>
      simp only [perform]
      have closed : (w.hushed h).isClosed q = w.isClosed q := rfl
      rw [closed]
      split <;> rfl
  | inspect u q todo ready => rfl
  | dismiss u ready =>
    cases ready with
    | nil => rfl
    | cons q ready =>
      simp only [perform, Thread.context_over, World.capabilityOf_hushed, World.pending_hushed]
      split
      · simp only [Thread.veil_mk, hide, World.hushed_withdraw]
        rfl
      · rfl
  | overwrite n v =>
    simp only [perform, Thread.veil_mk, Veil.write]
    rfl
  | clear n =>
    simp only [perform, Thread.veil_mk, Veil.release]
    rfl
  | abandon n =>
    have owned : ((w.hushed h).slot n).ownedBy ((w.hushed h).taskOf (t.over below).context) =
        (w.slot n).ownedBy (w.taskOf t.context) := by
      rw [← hide, Veil.slot, Veil.taskOf, Thread.context_over]
    simp only [perform, owned]
    split <;> rfl
  | surrender n seen =>
    simp only [perform, ← hide, ← Veil.exchange?]
    cases w.exchange? n seen none <;> simp [Thread.over]
  | release r =>
    simp only [perform, Thread.veil_mk, hide, World.hushed_setRegistry, World.registry_hushed]
    rfl

/-- A step of a thread in worlds that differ in their reports only, with more frames below. -/
theorem Thread.hushed_step (same : w'.hushed h = w.hushed h)
    (aside : t.agenda = [] → t.Aside below) :
    (Veil.hush h).turn [] ((t.over below).step w') = (Veil.hush h).turn below (t.step w) := by
  have none (t : Thread) : t.Aside [] := fun _ _ => rfl
  cases next : t.agenda with
  | nil =>
    have first : (t.over below).step w' = (t.over below).proceed w' := by
      simp only [step, agenda_over, next]
    have second : t.step w = t.proceed w := step_idle next
    rw [first, second, veil_proceed (none _) fun _ _ => rfl,
      veil_proceed (aside next) fun _ _ => rfl,
      over_nil, show (Veil.hush h).hide = World.hushed h from rfl, same]
  | cons a as =>
    have first : (t.over below).step w' = a.perform w' ({ t with agenda := as }.over below) := by
      simp only [step, agenda_over, next]
      rfl
    have second : t.step w = a.perform w { t with agenda := as } := step_cons next
    rw [first, second]
    by_cases emits : ∃ e, a = .emit e
    · obtain ⟨e, rfl⟩ := emits
      simp only [Action.perform, Veil.turn, over_nil]
      rw [show (Veil.hush h).hide = World.hushed h from rfl, World.hushed_emit, World.hushed_emit,
        same]
    · have other : ∀ e, a ≠ .emit e := fun e is => emits ⟨e, is⟩
      rw [Action.hushed_perform a other, Action.hushed_perform a other, over_nil, same]

theorem Turn.hushed_step (same : w'.hushed h = w.hushed h) :
    Turn.hushed h (t.step w') = Turn.hushed h (t.step w) := by
  have step : (Veil.hush h).turn [] ((t.over []).step w') = (Veil.hush h).turn [] (t.step w) :=
    Thread.hushed_step same fun _ _ _ => rfl
  rwa [Thread.over_nil, Veil.turn, Veil.turn, Thread.over_nil, Thread.over_nil] at step

end

/-! ## Moves -/

namespace Move

/-- The move with the switches of the reports set. -/
def hushed (h : Hush) : Move → Move
  | .seat name k config interpreter => .seat name k (config.hushed h) interpreter
  | .configure r config => .configure r (config.hushed h)
  | .capability j name traced => .capability j name (h.traced traced)
  | m => m

def isReport : Move → Bool
  | .poolStarted _ | .jobPanicked _ => true
  | _ => false

variable {m : Move}

@[simp] theorem isReport_hushed : (m.hushed h).isReport = m.isReport := by
  cases m <;> rfl

@[simp] theorem hushed_eq_step {i : ThreadId} : m.hushed h = .step i ↔ m = .step i := by
  cases m <;> simp [hushed]

end Move

namespace State

def hushed (h : Hush) (s : State) : State :=
  ⟨s.world.hushed h, s.threads⟩

variable {s s' : State} {m m' : Move}

theorem hushed_step (same : s'.hushed h = s.hushed h) (i : ThreadId) :
    (s'.step i).hushed h = (s.step i).hushed h := by
  obtain ⟨world, threads⟩ := s
  obtain ⟨world', threads'⟩ := s'
  obtain ⟨worlds, is⟩ := State.mk.inj same
  simp only at worlds is
  subst is
  simp only [State.step]
  cases threads'[i]? with
  | none => exact same
  | some t =>
    have turn := Turn.hushed_step (t := t) worlds
    simp only [Turn.hushed, Prod.mk.injEq] at turn
    simp only [hushed, turn]

theorem hushed_after (other : ∀ i, m ≠ .step i) (silent : m.isReport = false) :
    (s.after m).hushed h = (s.hushed h).after (m.hushed h) := by
  cases m with
  | step i => exact absurd rfl (other i)
  | poolStarted | jobPanicked => cases silent
  | seat => simp [hushed, after, Move.hushed, Context.hushed, Context.veiled]
  | keep | detour =>
    simp [hushed, after, Move.hushed, Registry.hushed, Registry.veiled, Context.hushed,
      Context.veiled]
  | configure r config =>
    simp [hushed, after, Move.hushed, Registry.hushed, Registry.veiled, Config.hushed]
  | capability => simp [hushed, after, Move.hushed]
  | _ => rfl

theorem hushed_report (report : m.isReport) : (s.after m).hushed h = s.hushed h := by
  cases m with
  | poolStarted | jobPanicked => simp [hushed, after]
  | _ => cases report

/-- Moves that differ in the switches of reports lead to states that differ in reports. -/
theorem hushed_after_eq (same : s'.hushed h = s.hushed h) (alike : m'.hushed h = m.hushed h) :
    (s'.after m').hushed h = (s.after m).hushed h := by
  have report : m'.isReport = m.isReport := by
    rw [← Move.isReport_hushed (h := h), alike, Move.isReport_hushed]
  by_cases step : ∃ i, m = .step i
  · obtain ⟨i, rfl⟩ := step
    obtain rfl : m' = .step i := Move.hushed_eq_step.1 alike
    exact hushed_step same i
  · have other : ∀ i, m ≠ .step i := fun i is => step ⟨i, is⟩
    cases silent : m.isReport with
    | true => rw [hushed_report silent, hushed_report (report.trans silent), same]
    | false =>
      rw [hushed_after other silent, hushed_after ?_ (report.trans silent), same, alike]
      exact fun i is => other i (Move.hushed_eq_step.1 (alike.symm.trans (by rw [is]; rfl)))

end State

end LazyGraph

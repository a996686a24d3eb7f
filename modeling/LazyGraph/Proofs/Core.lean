import LazyGraph.Proofs.Veils

/-!
# The world without its capabilities

Maps, capabilities, the names of queues and the log are of no concern to the code that threads run.
Without errands, a thread makes of the rest of the world what it would make of it if nothing else
were there.
-/

namespace LazyGraph

def Context.core (c : Context) : Context :=
  { c with capability := 0 }

namespace World

/-- The world without maps, capabilities, names of queues and log. -/
def core (w : World) : World :=
  { w with
    queues := w.queues.map Queue.unnamed, maps := #[], capabilities := #[]
    contexts := w.contexts.map Context.core, log := {}, christened := 0 }

variable {w w' : World} {n : NodeId} {c : ContextId} {k : CapabilityId} {q : QueueId} {u : TaskId}
  {cell : Option Cell}

/-! ## What can be seen -/

@[simp] theorem core_core : w.core.core = w.core := by
  simp [core, Function.comp_def, Context.core, Queue.unnamed]

@[simp] theorem context_core : w.core.context c = (w.context c).core := by
  simp only [context, core, Array.getD_eq_getD_getElem?, Array.getElem?_map]
  cases w.contexts[c]? <;> rfl

@[simp] theorem taskOf_core : w.core.taskOf c = w.taskOf c := by
  simp [taskOf, Context.core]

@[simp] theorem node?_core : w.core.node? n = w.node? n :=
  rfl

@[simp] theorem value?_core : w.core.value? n = w.value? n :=
  rfl

@[simp] theorem thunk?_core : w.core.thunk? n = w.thunk? n :=
  rfl

@[simp] theorem slot_core : w.core.slot n = w.slot n :=
  rfl

@[simp] theorem evaluated?_core : w.core.evaluated? n = w.evaluated? n :=
  rfl

@[simp] theorem number_core : w.core.number = w.number :=
  rfl

@[simp] theorem task_core : w.core.task u = w.task u :=
  rfl

@[simp] theorem messages_core : w.core.messages q = w.messages q := by
  simp only [messages, core, Array.getElem?_map]
  cases w.queues[q]? <;> rfl

@[simp] theorem isClosed_core : w.core.isClosed q = w.isClosed q := by
  simp only [isClosed, core, Array.getElem?_map]
  cases w.queues[q]? <;> rfl

@[simp] theorem isResolved_core : w.core.isResolved q = w.isResolved q := by
  simp only [isResolved, core, Array.getElem?_map]
  cases w.queues[q]? <;> rfl

@[simp] theorem queue?_core : w.core.queue? q = w.queue? q := by
  simp only [queue?, core, Array.getElem?_map]
  cases w.queues[q]? <;> rfl

@[simp] theorem registry_core (r : String) : w.core.registry r = w.registry r :=
  rfl

@[simp] theorem counter_core (x : String) : w.core.counter x = w.counter x :=
  rfl

@[simp] theorem names_core : w.core.names = w.names :=
  rfl

/-! ## What can be changed -/

@[simp] theorem core_alloc (x : Node) : (w.alloc x).1.core = (w.core.alloc x).1 :=
  rfl

@[simp] theorem alloc_core (x : Node) : (w.core.alloc x).2 = (w.alloc x).2 :=
  rfl

@[simp] theorem core_write : (w.write n cell).core = w.core.write n cell := by
  unfold write
  rw [thunk?_core]
  cases w.thunk? n <;> rfl

@[simp] theorem core_release : (w.release n).core = w.core.release n := by
  unfold release
  rw [thunk?_core]
  cases w.thunk? n <;> rfl

@[simp] theorem core_exchange? (seen : Slot) :
    (w.exchange? n seen cell).map core = w.core.exchange? n seen cell := by
  unfold exchange?
  rw [slot_core]
  split
  · rw [Option.map_some, core_write]
  · rfl

@[simp] theorem core_setContext (context : Context) :
    (w.setContext c context).core = w.core.setContext c context.core := by
  simp [setContext, core]

@[simp] theorem core_addContext (context : Context) :
    (w.addContext context).1.core = (w.core.addContext context.core).1 := by
  simp [addContext, core]

@[simp] theorem core_addTask (task : Task) : (w.addTask task).1.core = (w.core.addTask task).1 :=
  rfl

@[simp] theorem core_wake : (w.wake u).core = w.core.wake u :=
  rfl

@[simp] theorem core_setTask (task : Task) : (w.setTask u task).core = w.core.setTask u task :=
  rfl

@[simp] theorem core_takePermit? : (w.takePermit? u).map core = w.core.takePermit? u := by
  unfold takePermit?
  rw [task_core]
  split <;> rfl

@[simp] theorem core_addQueue (Q : Queue) :
    (w.addQueue Q).1.core = (w.core.addQueue Q.unnamed).1 := by
  simp [addQueue, core]

@[simp] theorem addQueue_core (Q : Queue) : (w.core.addQueue Q).2 = (w.addQueue Q).2 := by
  simp [addQueue, core]

@[simp] theorem core_push? (m : Message) : (w.push? q m).map core = w.core.push? q m := by
  unfold push?
  simp only [core, Array.getElem?_map]
  cases w.queues[q]? with
  | none => rfl
  | some Q =>
    cases closed : Q.closed <;> simp [Queue.push?, Queue.unnamed, closed, core]

@[simp] theorem core_close : (w.close q).core = w.core.close q := by
  have same : ∀ (Qs : Array Queue), (Qs.modify q Queue.close).map Queue.unnamed =
      (Qs.map Queue.unnamed).modify q Queue.close := by
    intro Qs
    apply Array.ext_getElem?
    intro r
    simp only [Array.getElem?_map, Array.getElem?_modify]
    by_cases here : q = r
    · subst here
      cases Qs[q]? <;> simp [Queue.unnamed, Queue.close]
    · simp [here]
  simp [close, core, same]

@[simp] theorem core_emit (e : Event) : (w.emit c e).core = w.core := by
  obtain ⟨log, same⟩ := w.emit_eq c e
  rw [same]
  rfl

@[simp] theorem core_withdraw : (w.withdraw k q).core = w.core :=
  rfl

@[simp] theorem core_enrol : (w.enrol k q).core = w.core :=
  rfl

@[simp] theorem enrol_core : w.core.enrol k q = w.core := by
  simp [enrol, core]

@[simp] theorem withdraw_core : w.core.withdraw k q = w.core := by
  simp [withdraw, core]

@[simp] theorem core_christen : (w.christen k q).core = w.core := by
  unfold christen
  split
  · split
    · rfl
    · rename_i Q _ found _
      have same : (w.queues.map Queue.unnamed).setIfInBounds q Q.unnamed =
          w.queues.map Queue.unnamed := by
        apply Array.ext_getElem?
        intro r
        rw [Array.getElem?_setIfInBounds]
        by_cases here : q = r
        · subst here
          obtain ⟨bound, rfl⟩ := Array.getElem?_eq_some_iff.1 found
          simp [bound]
        · simp [here]
      simpa [core, Queue.unnamed] using same
  · rfl

@[simp] theorem christen_core : w.core.christen k q = w.core := by
  simp [christen, core]

@[simp] theorem core_setRegistry (r : String) (registry : Registry) :
    (w.setRegistry r registry).core = w.core.setRegistry r registry :=
  rfl

@[simp] theorem core_assign (x : String) (l : Int64) :
    (w.assign x l).core = w.core.assign x l :=
  rfl

@[simp] theorem core_bind (x : String) : (w.bind x n).core = w.core.bind x n :=
  rfl

@[simp] theorem core_unbind (x : String) : (w.unbind x).core = w.core.unbind x :=
  rfl

end World

/-! ## What threads make of it -/

def Veil.core : Veil where
  hide := World.core
  config := id
  capability _ := 0
  verbose := id
  eager _ := rfl
  heap _ := rfl
  setHeap _ _ := rfl
  tasks _ := rfl
  setTasks _ _ := rfl
  counters _ := rfl
  setCounters _ _ := rfl
  names _ := rfl
  context _ _ := World.context_core
  setContext _ _ _ := World.core_setContext _
  registry _ _ := rfl
  setRegistry _ _ _ := rfl
  isClosed _ _ := World.isClosed_core
  queues _ := Array.size_map ..
  addQueue w Q nameless := by
    rw [World.core_addQueue, Queue.unnamed, ← nameless]
  push? _ _ _ := World.core_push? _
  christen _ _ _ := by rw [World.core_christen, World.christen_core]
  enrol _ _ _ := by rw [World.core_enrol, World.enrol_core]
  withdraw _ _ _ := by rw [World.core_withdraw, World.withdraw_core]

def Turn.core (x : Turn) : Turn :=
  (x.1.core, x.2)

namespace Thread

variable {w : World} {t : Thread}

@[simp] theorem me_core : t.me w.core = t.me w := by
  simp [me]

/-- Where a thread registers a queue, it reports on its capability. -/
theorem core_proceed (other : ∀ x, t.control ≠ .confirm x) :
    Turn.core (t.proceed w) = t.proceed w.core := by
  have veiled : Veil.core.turn [] (t.proceed w) = (t.over []).proceed (Veil.core.hide w) :=
    veil_proceed (fun _ _ => rfl) fun x is => absurd is (other x)
  rw [over_nil] at veiled
  rw [← show Veil.core.hide w = w.core from rfl, ← veiled, Veil.turn, over_nil]
  rfl

end Thread

end LazyGraph

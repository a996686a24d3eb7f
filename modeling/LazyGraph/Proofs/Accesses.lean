import LazyGraph.Machine.Step
import Mathlib.Order.Basic

/-!
# What an access changes

Each elementary access of the shared state, seen through nodes, slots, queues, tasks and contexts.
A slot only moves forward (`Slot.Later`): a cell that has gone from it never comes back, which is
what makes a compare-exchange against an old reading safe.
-/

namespace LazyGraph

/-! ## The life of one slot -/

namespace Slot

/-- `new` comes after `old` in the life of a slot. -/
structure Later (old new : Slot) : Prop where
  stamp : old.stamp ≤ new.stamp
  cell : new.stamp = old.stamp → new.cell = old.cell ∨ new.cell = none

theorem Later.refl (s : Slot) : Later s s :=
  ⟨Nat.le_refl _, fun _ => .inl rfl⟩

theorem Later.trans {a b c : Slot} (first : Later a b) (second : Later b c) : Later a c := by
  have low := first.stamp
  have high := second.stamp
  refine ⟨Nat.le_trans low high, ?_⟩
  intro same
  rcases second.cell (by omega) with kept | emptied
  · rw [kept]
    exact first.cell (by omega)
  · exact .inr emptied

theorem later_write (s : Slot) (cell : Option Cell) : Later s (s.write cell) := by
  cases cell with
  | none => exact ⟨Nat.le_refl _, fun _ => .inr rfl⟩
  | some c => exact ⟨Nat.le_succ _, fun same => by simp [write] at same⟩

@[simp] theorem cell_write (s : Slot) (cell : Option Cell) : (s.write cell).cell = cell := by
  cases cell <;> rfl

theorem unchanged_self (s : Slot) : s.unchanged s = true := by
  simp [unchanged]

theorem cell_of_unchanged {s seen : Slot} (same : s.unchanged seen = true) :
    s.cell = seen.cell := by
  simp only [unchanged, Bool.and_eq_true, beq_iff_eq] at same
  exact same.1

theorem stamp_of_unchanged {s seen : Slot} (same : s.unchanged seen = true)
    (full : seen.cell ≠ none) : s.stamp = seen.stamp := by
  have cell := cell_of_unchanged same
  simp only [unchanged, Bool.and_eq_true, Bool.or_eq_true, beq_iff_eq, Option.isNone_iff_eq_none,
    cell, full, false_or] at same
  exact same.2

theorem Later.gone {seen now new : Slot} (before : Later seen now) (after : Later now new)
    (full : seen.cell ≠ none) (changed : now.unchanged seen = false) :
    new.unchanged seen = false := by
  by_contra back
  have same : new.unchanged seen = true := by simpa using back
  have cell := cell_of_unchanged same
  have stamp := stamp_of_unchanged same full
  have low := before.stamp
  have high := after.stamp
  rcases before.cell (by omega) with kept | emptied
  · have still : now.unchanged seen = true := by
      simp [unchanged, kept, show now.stamp = seen.stamp by omega]
    simp [still] at changed
  · rcases after.cell (by omega) with kept | cleared
    · exact full (by rw [← cell, kept, emptied])
    · exact full (by rw [← cell, cleared])

theorem value?_eq_some {s : Slot} {v : NodeId} :
    s.value? = some v ↔ s.cell = some (.value v) := by
  unfold value?
  split <;> simp_all

theorem queue?_eq_some {s : Slot} {q : QueueId} :
    s.queue? = some q ↔ ∃ o, s.cell = some (.queue q o) := by
  unfold queue?
  split <;> simp_all

theorem cell_of_ownedBy {s : Slot} {o : TaskId} (owned : s.ownedBy o = true) :
    ∃ c, s.cell = some c ∧ c.owner? = some o := by
  simpa [ownedBy, Option.bind_eq_some_iff] using owned

theorem not_value_of_ownedBy {s : Slot} {o : TaskId} {v : NodeId}
    (owned : s.ownedBy o = true) : s.cell ≠ some (.value v) := by
  intro held
  simp [ownedBy, held, Cell.owner?] at owned

end Slot

namespace World

variable {w w' : World} {n m : NodeId}

/-! ## Nodes -/

theorem thunk?_eq_some {t : Thunk} : w.thunk? n = some t ↔ w.node? n = some (.thunk t) := by
  simp only [thunk?, Option.bind_eq_some_iff]
  constructor
  · rintro ⟨node, found, is⟩
    cases node <;> simp_all [Node.thunk?]
  · exact fun found => ⟨_, found, rfl⟩

theorem value?_eq_some {v : Value} : w.value? n = some v ↔ w.node? n = some (.value v) := by
  simp only [value?, Option.bind_eq_some_iff]
  constructor
  · rintro ⟨node, found, is⟩
    cases node <;> simp_all [Node.value?]
  · exact fun found => ⟨_, found, rfl⟩

theorem slot_of_thunk {t : Thunk} (found : w.thunk? n = some t) : w.slot n = t.slot := by
  simp [slot, found]

theorem slot_of_none (none : w.thunk? n = none) : w.slot n = {} := by
  simp [slot, none]

theorem slot_congr (same : w'.node? m = w.node? m) : w'.slot m = w.slot m := by
  simp [slot, thunk?, same]

theorem value?_congr (same : w'.node? m = w.node? m) : w'.value? m = w.value? m := by
  simp [value?, same]

theorem thunk_of_cell {cell : Cell} (held : (w.slot n).cell = some cell) :
    ∃ t, w.thunk? n = some t := by
  cases found : w.thunk? n with
  | none => simp [slot_of_none found] at held
  | some t => exact ⟨t, rfl⟩

theorem node?_setThunk (t : Thunk) :
    (w.setThunk n t).node? m =
      if m = n ∧ n < w.heap.size then some (.thunk t) else w.node? m := by
  simp only [node?, setThunk, Array.getElem?_setIfInBounds]
  split <;> split <;> simp_all

theorem lt_of_node? {node : Node} (found : w.node? n = some node) : n < w.heap.size :=
  (Array.getElem?_eq_some_iff.1 found).1

theorem node?_write (cell : Option Cell) :
    (w.write n cell).node? m =
      match w.thunk? n with
      | some t => if m = n then some (.thunk { t with slot := t.slot.write cell }) else w.node? m
      | none => w.node? m := by
  unfold write
  cases found : w.thunk? n with
  | none => rfl
  | some t =>
    have bound := lt_of_node? (thunk?_eq_some.1 found)
    simp [node?_setThunk, bound]

theorem node?_release :
    (w.release n).node? m =
      match w.thunk? n with
      | some t => if m = n then some (.thunk { t with suspension := t.suspension.clear }) else w.node? m
      | none => w.node? m := by
  unfold release
  cases found : w.thunk? n with
  | none => rfl
  | some t =>
    have bound := lt_of_node? (thunk?_eq_some.1 found)
    simp [node?_setThunk, bound]

theorem suspension_write (cell : Option Cell) (m : NodeId) :
    ((w.write n cell).thunk? m).map Thunk.suspension = (w.thunk? m).map Thunk.suspension := by
  rw [thunk?, node?_write]
  cases found : w.thunk? n with
  | none => rfl
  | some th =>
    by_cases same : m = n
    · subst same
      simp [found, Node.thunk?]
    · simp [same, thunk?]

@[simp] theorem value?_write (cell : Option Cell) : (w.write n cell).value? m = w.value? m := by
  simp only [value?, node?_write]
  cases found : w.thunk? n with
  | none => rfl
  | some t =>
    by_cases same : m = n
    · subst same
      simp [thunk?_eq_some.1 found, Node.value?]
    · simp [same]

@[simp] theorem value?_release : (w.release n).value? m = w.value? m := by
  simp only [value?, node?_release]
  cases found : w.thunk? n with
  | none => rfl
  | some t =>
    by_cases same : m = n
    · subst same
      simp [thunk?_eq_some.1 found, Node.value?]
    · simp [same]

theorem slot_write_self {t : Thunk} (found : w.thunk? n = some t) (cell : Option Cell) :
    (w.write n cell).slot n = (w.slot n).write cell := by
  have written : (w.write n cell).thunk? n = some { t with slot := t.slot.write cell } := by
    rw [thunk?_eq_some, node?_write, found]
    simp
  rw [slot_of_thunk written, slot_of_thunk found]

theorem slot_write_of_none (missing : w.thunk? n = none) (cell : Option Cell) :
    w.write n cell = w := by
  simp [write, missing]

theorem slot_write_ne (other : m ≠ n) (cell : Option Cell) :
    (w.write n cell).slot m = w.slot m := by
  apply slot_congr
  rw [node?_write]
  cases w.thunk? n <;> simp [other]

theorem later_write (m : NodeId) (cell : Option Cell) :
    (w.slot m).Later ((w.write n cell).slot m) := by
  by_cases same : m = n
  · subst same
    cases found : w.thunk? m with
    | none => simpa [slot_write_of_none found] using Slot.Later.refl _
    | some t => simpa [slot_write_self found] using Slot.later_write _ _
  · simpa [slot_write_ne same] using Slot.Later.refl _

theorem cell_write {cell : Option Cell} {c : Cell}
    (held : ((w.write n cell).slot m).cell = some c) :
    m = n ∧ cell = some c ∨ (w.slot m).cell = some c ∧ (m = n → w.thunk? n = none) := by
  by_cases same : m = n
  · subst same
    cases found : w.thunk? m with
    | none => exact .inr ⟨by simpa [slot_write_of_none found] using held, fun _ => rfl⟩
    | some t => exact .inl ⟨rfl, by simpa [slot_write_self found] using held⟩
  · exact .inr ⟨by simpa [slot_write_ne same] using held, fun is => absurd is same⟩

@[simp] theorem slot_release : (w.release n).slot m = w.slot m := by
  cases found : w.thunk? n with
  | none => simp [release, found]
  | some t =>
    by_cases same : m = n
    · subst same
      have cleared : (w.release m).thunk? m = some { t with suspension := t.suspension.clear } := by
        rw [thunk?_eq_some, node?_release, found]
        simp
      rw [slot_of_thunk cleared, slot_of_thunk found]
    · apply slot_congr
      simp [node?_release, found, same]

theorem node?_alloc (node : Node) :
    (w.alloc node).1.node? m = if m = w.heap.size then some node else w.node? m := by
  simp [node?, alloc, Array.getElem?_push]

@[simp] theorem queues_write (cell : Option Cell) : (w.write n cell).queues = w.queues := by
  unfold write
  split <;> rfl

@[simp] theorem tasks_write (cell : Option Cell) : (w.write n cell).tasks = w.tasks := by
  unfold write
  split <;> rfl

@[simp] theorem contexts_write (cell : Option Cell) :
    (w.write n cell).contexts = w.contexts := by
  unfold write
  split <;> rfl

@[simp] theorem context_write (cell : Option Cell) (c : ContextId) :
    (w.write n cell).context c = w.context c := by
  simp [World.context]

@[simp] theorem taskOf_write (cell : Option Cell) (c : ContextId) :
    (w.write n cell).taskOf c = w.taskOf c := by
  simp [World.taskOf]

@[simp] theorem maps_write (cell : Option Cell) : (w.write n cell).maps = w.maps := by
  unfold write
  split <;> rfl

theorem release_eq : ∃ heap, w.release n = { w with heap } := by
  unfold release
  split
  · exact ⟨_, rfl⟩
  · exact ⟨w.heap, rfl⟩

theorem emit_eq (c : ContextId) (e : Event) : ∃ log, w.emit c e = { w with log } := by
  unfold emit
  split
  · exact ⟨_, rfl⟩
  · exact ⟨w.log, rfl⟩

/-! ## Queues -/

end World

/-- A queue apart from its name, which only texts show. -/
def Queue.unnamed (q : Queue) : Queue :=
  { q with name := none }

namespace World

variable {w w' : World} {q r : QueueId}

def queue? (w : World) (q : QueueId) : Option Queue :=
  (w.queues[q]?).map Queue.unnamed

theorem queue?_eq_some {Q : Queue} (found : w.queue? q = some Q) :
    ∃ named, w.queues[q]? = some named ∧ named.unnamed = Q := by
  simpa [queue?] using found

theorem lt_of_queue? {Q : Queue} (found : w.queue? q = some Q) : q < w.queues.size := by
  obtain ⟨named, there, -⟩ := queue?_eq_some found
  exact (Array.getElem?_eq_some_iff.1 there).1

theorem queue?_eq_none (beyond : w.queues.size ≤ q) : w.queue? q = none := by
  simp [queue?, beyond]

theorem queue?_addQueue (Q : Queue) :
    (w.addQueue Q).1.queue? r = if r = w.queues.size then some Q.unnamed else w.queue? r := by
  simp only [queue?, addQueue, Array.getElem?_push]
  split <;> rfl

theorem queue?_close :
    (w.close q).queue? r = if r = q then (w.queue? r).map Queue.close else w.queue? r := by
  simp only [queue?, close, Array.getElem?_modify]
  by_cases same : q = r
  · subst same
    cases w.queues[q]? <;> simp [Queue.unnamed, Queue.close]
  · simp [same, Ne.symm same]

theorem messages_of_queue? {Q : Queue} (found : w.queue? q = some Q) :
    w.messages q = Q.messages := by
  obtain ⟨named, there, rfl⟩ := queue?_eq_some found
  simp [messages, there, Queue.unnamed]

theorem queue_of_mem_messages {m : Message} (known : m ∈ w.messages q) :
    ∃ Q, w.queue? q = some Q ∧ m ∈ Q.messages := by
  unfold messages at known
  split at known
  · rename_i named there
    exact ⟨named.unnamed, by simp [queue?, there], known⟩
  · cases known

theorem isClosed_of_queue? {Q : Queue} (found : w.queue? q = some Q) :
    w.isClosed q = Q.closed := by
  obtain ⟨named, there, rfl⟩ := queue?_eq_some found
  simp [isClosed, there, Queue.unnamed]

theorem isResolved_of_queue? {Q : Queue} (found : w.queue? q = some Q) :
    w.isResolved q = (w.evaluated? Q.thunk).isSome := by
  obtain ⟨named, there, rfl⟩ := queue?_eq_some found
  simp [isResolved, there, Queue.unnamed]

theorem push?_eq_some {m : Message} (pushed : w.push? q m = some w') :
    ∃ queues Q, w' = { w with queues } ∧ queues.size = w.queues.size ∧ w.queue? q = some Q ∧
      Q.closed = false ∧
      ∀ r, w'.queue? r = if r = q then some { Q with messages := Q.messages ++ [m] }
        else w.queue? r := by
  unfold push? at pushed
  split at pushed
  · rename_i after accepted
    obtain ⟨named, there, added⟩ := Option.bind_eq_some_iff.1 accepted
    have bound := (Array.getElem?_eq_some_iff.1 there).1
    unfold Queue.push? at added
    split at added
    · cases added
    · rename_i open'
      cases added
      cases pushed
      refine ⟨_, named.unnamed, rfl, by simp, by simp [queue?, there],
        by simpa [Queue.unnamed] using open', ?_⟩
      intro r
      by_cases same : r = q
      · subst same
        simp [queue?, bound, Queue.unnamed]
      · simp [queue?, same, Ne.symm same]
  · cases pushed

/-! ## Tasks and contexts -/

theorem task_setTask (t u : TaskId) (task : Task) :
    (w.setTask t task).task u = if u = t ∧ t < w.tasks.size then task else w.task u := by
  simp only [World.task, setTask, Array.getD_eq_getD_getElem?, Array.getElem?_setIfInBounds]
  by_cases same : t = u
  · subst same
    by_cases bound : t < w.tasks.size <;> simp [bound]
  · simp [same, Ne.symm same]

theorem context_setContext (c d : ContextId) (context : Context) :
    (w.setContext c context).context d =
      if d = c ∧ c < w.contexts.size then context else w.context d := by
  simp only [World.context, setContext, Array.getD_eq_getD_getElem?,
    Array.getElem?_setIfInBounds]
  by_cases same : c = d
  · subst same
    by_cases bound : c < w.contexts.size <;> simp [bound]
  · simp [same, Ne.symm same]

end World

end LazyGraph

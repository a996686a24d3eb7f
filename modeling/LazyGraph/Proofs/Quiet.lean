import LazyGraph.Proofs.Accesses

/-!
# Changes of the world

`World.Evolves` holds of every change that a run makes. `World.Still` and `World.Quiet` hold of
the changes that no task can see in slots, queues and update stacks: new nodes, reports, names,
registers.
-/

namespace LazyGraph

namespace World

def Lists (w : World) (q : QueueId) : Prop :=
  ∃ m ∈ w.maps, q ∈ m

structure Evolves (w w' : World) : Prop where
  value : ∀ n v, w.value? n = some v → w'.value? n = some v
  thunk : ∀ n, (w.thunk? n).isSome → (w'.thunk? n).isSome
  slot : ∀ n, (w.slot n).Later (w'.slot n)
  queue : ∀ q Q, w.queue? q = some Q → ∃ Q', w'.queue? q = some Q' ∧ Q'.thunk = Q.thunk ∧
    Q'.owner = Q.owner ∧ (Q.closed = true → Q'.closed = true)

structure Still (w w' : World) : Prop where
  value : ∀ n v, w.value? n = some v → w'.value? n = some v
  thunk : ∀ n, (w.thunk? n).isSome → (w'.thunk? n).isSome
  slot : ∀ n, w'.slot n = w.slot n
  queue : ∀ q, w'.queue? q = w.queue? q
  maps : ∀ j, (w'.maps.getD j []).Sublist (w.maps.getD j [])

structure Quiet (w w' : World) : Prop extends Still w w' where
  tasks : w'.tasks = w.tasks
  size : w'.contexts.size = w.contexts.size
  taskOf : ∀ c, w'.taskOf c = w.taskOf c
  stack : ∀ c, (w'.context c).stack = (w.context c).stack
  interpreter : ∀ c, (w'.context c).interpreter = (w.context c).interpreter

variable {w w' w'' : World} {n : NodeId} {c : ContextId}

theorem Still.refl (w : World) : Still w w :=
  ⟨fun _ _ => id, fun _ => id, fun _ => rfl, fun _ => rfl, fun _ => .refl _⟩

theorem Quiet.refl (w : World) : Quiet w w :=
  { Still.refl w with
    tasks := rfl
    size := rfl
    taskOf := fun _ => rfl
    stack := fun _ => rfl
    interpreter := fun _ => rfl }

theorem Still.trans (first : Still w w') (second : Still w' w'') : Still w w'' where
  value n v known := second.value n v (first.value n v known)
  thunk n known := second.thunk n (first.thunk n known)
  slot n := (second.slot n).trans (first.slot n)
  queue q := (second.queue q).trans (first.queue q)
  maps j := (second.maps j).trans (first.maps j)

theorem Quiet.trans (first : Quiet w w') (second : Quiet w' w'') : Quiet w w'' where
  toStill := first.toStill.trans second.toStill
  tasks := second.tasks.trans first.tasks
  size := second.size.trans first.size
  taskOf c := (second.taskOf c).trans (first.taskOf c)
  stack c := (second.stack c).trans (first.stack c)
  interpreter c := (second.interpreter c).trans (first.interpreter c)

theorem lists_iff {q : QueueId} : w.Lists q ↔ ∃ j, q ∈ w.maps.getD j [] := by
  constructor
  · rintro ⟨m, there, known⟩
    obtain ⟨j, bound, rfl⟩ := Array.mem_iff_getElem.1 there
    exact ⟨j, by simpa [Array.getD, bound] using known⟩
  · rintro ⟨j, known⟩
    by_cases bound : j < w.maps.size
    · exact ⟨_, Array.getElem_mem bound, by simpa [Array.getD, bound] using known⟩
    · simp [Array.getD, bound] at known

theorem Still.lists (still : Still w w') (q : QueueId) (known : w'.Lists q) : w.Lists q := by
  obtain ⟨j, known⟩ := lists_iff.1 known
  exact lists_iff.2 ⟨j, (still.maps j).mem known⟩

theorem Still.evolves (still : Still w w') : Evolves w w' where
  value := still.value
  thunk := still.thunk
  slot n := by rw [still.slot n]; exact Slot.Later.refl _
  queue q Q there := ⟨Q, by rw [still.queue q, there], rfl, rfl, id⟩

theorem Evolves.refl (w : World) : Evolves w w :=
  (Still.refl w).evolves

theorem Evolves.trans (first : Evolves w w') (second : Evolves w' w'') : Evolves w w'' where
  value n v known := second.value n v (first.value n v known)
  thunk n known := second.thunk n (first.thunk n known)
  slot n := (first.slot n).trans (second.slot n)
  queue q Q there := by
    obtain ⟨Q', there', thunk, owner, closed⟩ := first.queue q Q there
    obtain ⟨Q'', there'', thunk', owner', closed'⟩ := second.queue q Q' there'
    exact ⟨Q'', there'', thunk'.trans thunk, owner'.trans owner, fun is => closed' (closed is)⟩

/-! ## Changes that nobody waits for -/

theorem quiet_of_heap (heap : Array Node)
    (value : ∀ n v, w.value? n = some v → ({ w with heap } : World).value? n = some v)
    (thunk : ∀ n, (w.thunk? n).isSome → (({ w with heap } : World).thunk? n).isSome)
    (slot : ∀ n, ({ w with heap } : World).slot n = w.slot n) :
    Quiet w { w with heap } :=
  { value, thunk, slot, queue := fun _ => rfl, maps := fun _ => .refl _, tasks := rfl,
    size := rfl, taskOf := fun _ => rfl, stack := fun _ => rfl, interpreter := fun _ => rfl }

theorem quiet_alloc (node : Node) (empty : ∀ t, node = .thunk t → t.slot = {}) :
    Quiet w (w.alloc node).1 := by
  have old : ∀ m, m ≠ w.heap.size → (w.alloc node).1.node? m = w.node? m := fun m other => by
    simp [node?_alloc, other]
  have beyond : w.node? w.heap.size = none := by simp [node?]
  refine quiet_of_heap _ ?_ ?_ ?_
  · intro n v known
    have other : n ≠ w.heap.size := fun same => by simp [same, value?, beyond] at known
    exact (value?_congr (old n other)).trans known
  · intro n known
    have other : n ≠ w.heap.size := fun same => by simp [same, thunk?, beyond] at known
    exact (congrArg (fun x => (x.bind Node.thunk?).isSome) (old n other)).trans known
  · intro n
    by_cases same : n = w.heap.size
    · have new : (w.alloc node).1.node? n = some node := by simp [node?_alloc, same]
      rw [slot_of_none (w := w) (by simp [thunk?, same, beyond])]
      change (w.alloc node).1.slot n = {}
      cases node with
      | value v => exact slot_of_none (by simp [thunk?, new, Node.thunk?])
      | thunk t => exact (slot_of_thunk (thunk?_eq_some.2 new)).trans (empty t rfl)
    · exact slot_congr (old n same)

theorem quiet_value (v : Value) : Quiet w (w.alloc (.value v)).1 :=
  quiet_alloc _ fun _ is => nomatch is

theorem quiet_thunk (s : Suspension) : Quiet w (w.alloc (.thunk ⟨s, {}⟩)).1 :=
  quiet_alloc _ fun t is => by cases is; rfl

theorem quiet_release : Quiet w (w.release n) := by
  obtain ⟨heap, same⟩ := w.release_eq (n := n)
  have value := fun m => w.value?_release (n := n) (m := m)
  have slot := fun m => w.slot_release (n := n) (m := m)
  have node := fun m => w.node?_release (n := n) (m := m)
  rw [same] at value slot node ⊢
  refine quiet_of_heap _ (fun m v known => (value m).trans known) ?_ slot
  intro m known
  rw [thunk?, node m]
  obtain ⟨t, found⟩ := Option.isSome_iff_exists.1 known
  cases at' : w.thunk? n with
  | none => exact known
  | some s =>
    by_cases same : m = n
    · simp [same, Node.thunk?]
    · simpa [same, thunk?] using known

theorem quiet_emit (e : Event) : Quiet w (w.emit c e) := by
  obtain ⟨log, same⟩ := w.emit_eq c e
  rw [same]
  exact { Quiet.refl w with }

theorem quiet_setRegistry (r : String) (registry : Registry) :
    Quiet w (w.setRegistry r registry) :=
  { Quiet.refl w with }

theorem quiet_assign (x : String) (l : Int64) : Quiet w (w.assign x l) :=
  { Quiet.refl w with }

theorem quiet_bind (x : String) (n : NodeId) : Quiet w (w.bind x n) :=
  { Quiet.refl w with }

theorem quiet_unbind (x : String) : Quiet w (w.unbind x) :=
  { Quiet.refl w with }

theorem quiet_setContext {context : Context} (task : context.task = (w.context c).task)
    (stack : context.stack = (w.context c).stack)
    (interpreter : context.interpreter = (w.context c).interpreter) :
    Quiet w (w.setContext c context) :=
  { Still.refl w with
    tasks := rfl
    size := by simp [setContext]
    taskOf := fun d => by
      simp only [World.taskOf, context_setContext]
      split
      · rename_i same
        rw [same.1, task]
      · rfl
    stack := fun d => by
      rw [context_setContext]
      split
      · rename_i same
        rw [same.1, stack]
      · rfl
    interpreter := fun d => by
      rw [context_setContext]
      split
      · rename_i same
        rw [same.1, interpreter]
      · rfl }

theorem quiet_christen (k : CapabilityId) (q : QueueId) : Quiet w (w.christen k q) := by
  unfold christen
  split
  · rename_i queue _ there
    split
    · exact Quiet.refl w
    · refine { Quiet.refl w with queue := ?_ }
      intro r
      by_cases same : q = r
      · subst same
        obtain ⟨bound, is⟩ := Array.getElem?_eq_some_iff.1 there
        simp [queue?, bound, is, Queue.unnamed]
      · simp [queue?, same]
  · exact Quiet.refl w

theorem lists_of_pending {k : CapabilityId} {q : QueueId} (known : q ∈ w.pending k) :
    w.Lists q :=
  lists_iff.2 ⟨w.mapOf k, known⟩

theorem getD_modify {maps : Array QueueMap} {i j : Nat} (f : QueueMap → QueueMap) :
    (maps.modify i f).getD j [] =
      if i = j ∧ j < maps.size then f (maps.getD j []) else maps.getD j [] := by
  by_cases bound : j < maps.size
  · simp [Array.getD, bound, Array.getElem_modify]
  · simp [Array.getD, bound]

theorem maps_withdraw (k : CapabilityId) (q : QueueId) (j : Nat) :
    (w.withdraw k q).maps.getD j [] =
      if w.mapOf k = j then (w.maps.getD j []).erase q else w.maps.getD j [] := by
  rw [withdraw, getD_modify]
  by_cases bound : j < w.maps.size
  · simp [bound]
  · simp [bound, Array.getD]

theorem maps_enrol (k : CapabilityId) (q : QueueId) (j : Nat) :
    (w.enrol k q).maps.getD j [] =
      if w.mapOf k = j ∧ j < w.maps.size ∧ q ∉ w.maps.getD j [] then w.maps.getD j [] ++ [q]
      else w.maps.getD j [] := by
  rw [enrol, getD_modify]
  by_cases known : q ∈ w.maps.getD j []
  · simp only [List.contains_eq_mem, known, decide_true, if_true, ite_self, not_true, and_false,
      if_false]
  · simp only [List.contains_eq_mem, known, decide_false, Bool.false_eq_true, if_false, not_false_eq_true,
      and_true]

theorem quiet_withdraw (k : CapabilityId) (q : QueueId) : Quiet w (w.withdraw k q) := by
  refine { Quiet.refl w with maps := fun j => ?_ }
  rw [maps_withdraw]
  split
  · exact List.erase_sublist
  · exact .refl _

theorem lists_enrol {k : CapabilityId} {q r : QueueId} (known : (w.enrol k q).Lists r) :
    r = q ∨ w.Lists r := by
  obtain ⟨j, known⟩ := lists_iff.1 known
  rw [maps_enrol] at known
  split at known
  · rcases List.mem_append.1 known with old | new
    · exact .inr (lists_iff.2 ⟨j, old⟩)
    · exact .inl (by simpa using new)
  · exact .inr (lists_iff.2 ⟨j, known⟩)

end World

end LazyGraph

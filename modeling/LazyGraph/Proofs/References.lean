import LazyGraph.Proofs.Suspensions

/-!
# References

The nodes named by a value, a suspension, a control or a frame, and worlds and threads that name
none but nodes of the heap. A registry records constants only, and so nothing but constants is
reset by a host that leaves slots alone.
-/

namespace LazyGraph

/-! ## All nodes named by a term -/

section

variable (H : NodeId → Prop)

def Arg.In : Arg → Prop
  | .pointer n => H n
  | .immediate _ => True

structure Env.In (env : Env) : Prop where
  captured : ∀ b ∈ env.captured, H b.2
  frames : ∀ args ∈ env.frames, ∀ a ∈ args, Arg.In H a

def Field.In : Field → Prop
  | .pointer n => H n
  | .scalar _ => True

def Value.In : Value → Prop
  | .scalar _ | .object _ => True
  | .data _ fields => ∀ f ∈ fields, Field.In H f
  | .function _ _ _ env => Env.In H env
  | .bytecode _ pointers => ∀ n ∈ pointers, H n

def Suspension.In : Suspension → Prop
  | .updatable (some (_, env)) | .constant (_, env) => Env.In H env
  | .application (some (f, args)) => H f ∧ ∀ n ∈ args, H n
  | .selector _ (some (_, producer)) => H producer
  | _ => True

def Node.In : Node → Prop
  | .value v => Value.In H v
  | .thunk th => Suspension.In H th.suspension ∧ ∀ v, th.slot.cell = some (.value v) → H v

def Control.In : Control → Prop
  | .run _ env => Env.In H env
  | .perform _ operands env => (∀ n ∈ operands, H n) ∧ Env.In H env
  | .fail _ | .unwind _ | .revert _ => True
  | .peek n _ env => H n ∧ Env.In H env
  | .apply n args | .call n args => H n ∧ ∀ a ∈ args, Arg.In H a
  | .update n v | .install n v _ => H n ∧ H v
  | .give n | .evaluate n | .enter n | .force n _ | .seize n _ | .start n _ | .body n _
  | .recheck n _ | .attach n _ | .lock n _ _ _ | .gather n _ _ _ | .join n _ _ _ | .suspend n _
  | .parked n _ | .probe _ n | .register _ n => H n
  | .exchange n _ cell => H n ∧ ∀ v, cell = some (.value v) → H v
  | .enlist x | .enrol x | .confirm x | .retract x | .enlisted x _ | .publish x _ => H x.thunk

def Frame.In : Frame → Prop
  | .operands _ done _ env => (∀ n ∈ done, H n) ∧ Env.In H env
  | .branch _ _ env | .probe _ env | .handler _ env => Env.In H env
  | .again => True
  | .applyTo args => ∀ a ∈ args, Arg.In H a
  | .project _ _ n | .running n _ | .settling n _ | .leaving n => H n

end

section

variable {H H' : NodeId → Prop} (le : ∀ n, H n → H' n)

include le

theorem Arg.In.mono {a : Arg} (within : a.In H) : a.In H' := by
  cases a <;> first | exact le _ within | trivial

theorem Env.In.mono {env : Env} (within : env.In H) : env.In H' :=
  ⟨fun b known => le _ (within.captured b known),
    fun args known a there => (within.frames args known a there).mono le⟩

theorem Field.In.mono {f : Field} (within : f.In H) : f.In H' := by
  cases f <;> first | exact le _ within | trivial

theorem Value.In.mono {v : Value} (within : v.In H) : v.In H' := by
  cases v with
  | scalar | object => trivial
  | data tag fields => exact fun f known => (within f known).mono le
  | function name arity body env => exact Env.In.mono le within
  | bytecode code pointers => exact fun n known => le n (within n known)

theorem Suspension.In.mono {s : Suspension} (within : s.In H) : s.In H' := by
  cases s with
  | updatable source =>
    cases source with
    | none => trivial
    | some x => exact Env.In.mono le within
  | application source =>
    cases source with
    | none => trivial
    | some x => exact ⟨le _ within.1, fun n known => le n (within.2 n known)⟩
  | selector kind source =>
    cases source with
    | none => trivial
    | some x => exact le _ within
  | constant x => exact Env.In.mono le within

theorem Node.In.mono {x : Node} (within : x.In H) : x.In H' := by
  cases x with
  | value v => exact Value.In.mono le within
  | thunk th => exact ⟨within.1.mono le, fun v held => le v (within.2 v held)⟩

theorem Control.In.mono {c : Control} (within : c.In H) : c.In H' := by
  cases c with
  | run => exact Env.In.mono le within
  | perform => exact ⟨fun n known => le n (within.1 n known), within.2.mono le⟩
  | fail | unwind | revert => trivial
  | peek => exact ⟨le _ within.1, within.2.mono le⟩
  | apply | call => exact ⟨le _ within.1, fun a known => (within.2 a known).mono le⟩
  | update | install => exact ⟨le _ within.1, le _ within.2⟩
  | exchange => exact ⟨le _ within.1, fun v is => le v (within.2 v is)⟩
  | _ => exact le _ within

theorem Frame.In.mono {f : Frame} (within : f.In H) : f.In H' := by
  cases f with
  | operands => exact ⟨fun n known => le n (within.1 n known), within.2.mono le⟩
  | branch | probe | handler => exact Env.In.mono le within
  | again => trivial
  | applyTo args => exact fun a known => (within a known).mono le
  | _ => exact le _ within

end

section

variable {H : NodeId → Prop} [DecidablePred H]

instance : DecidablePred (Arg.In H) := fun
  | .pointer n => inferInstanceAs (Decidable (H n))
  | .immediate _ => .isTrue trivial

instance : DecidablePred (Env.In H) := fun env =>
  decidable_of_iff ((∀ b ∈ env.captured, H b.2) ∧ ∀ args ∈ env.frames, ∀ a ∈ args, Arg.In H a)
    ⟨fun known => ⟨known.1, known.2⟩, fun known => ⟨known.captured, known.frames⟩⟩

instance : DecidablePred (Field.In H) := fun
  | .pointer n => inferInstanceAs (Decidable (H n))
  | .scalar _ => .isTrue trivial

instance : DecidablePred (Value.In H) := fun
  | .scalar _ | .object _ => .isTrue trivial
  | .data _ fields => inferInstanceAs (Decidable (∀ f ∈ fields, Field.In H f))
  | .function _ _ _ env => inferInstanceAs (Decidable (Env.In H env))
  | .bytecode _ pointers => inferInstanceAs (Decidable (∀ n ∈ pointers, H n))

instance : DecidablePred (Suspension.In H) := fun
  | .updatable (some (_, env)) | .constant (_, env) => inferInstanceAs (Decidable (Env.In H env))
  | .application (some (f, args)) => inferInstanceAs (Decidable (H f ∧ ∀ n ∈ args, H n))
  | .selector _ (some (_, producer)) => inferInstanceAs (Decidable (H producer))
  | .updatable none | .application none | .selector _ none => .isTrue trivial

end

/-! ## Grounded worlds and threads -/

namespace World

def Has (w : World) (n : NodeId) : Prop :=
  n < w.heap.size

instance (w : World) : DecidablePred w.Has := fun n =>
  inferInstanceAs (Decidable (n < w.heap.size))

def Constant (w : World) (n : NodeId) : Prop :=
  ∃ s, w.suspension? n = some s ∧ s.isConstant = true

structure Grounded (w : World) : Prop where
  nodes : ∀ n x, w.node? n = some x → x.In w.Has
  names : ∀ b ∈ w.names, w.Has b.2
  registries : ∀ b ∈ w.registries, ∀ n ∈ b.2.constants, w.Constant n
  registers : ∀ c n, (w.context c).registers.r1 = some n → w.Has n

end World

/-- All but the control of the thread. -/
structure Thread.Anchored (w : World) (t : Thread) : Prop where
  frames : ∀ f ∈ t.stack, f.In w.Has
  overwrites : ∀ n v, .overwrite n v ∈ t.agenda → w.Constant n ∧ ∀ x, v = some x → w.Has x

structure Thread.Grounded (w : World) (t : Thread) : Prop extends Thread.Anchored w t where
  control : t.control.In w.Has
  registers : ∀ r n, t.control = .register r n → w.Constant n

structure Turn.Grounded (x : Turn) : Prop where
  world : x.1.Grounded
  thread : x.2.Grounded x.1

variable {w w' w'' : World} {t : Thread} {n v : NodeId} {c : ContextId}

/-! ## Nodes stay -/

namespace World

theorem has_iff : w.Has n ↔ (w.node? n).isSome := by
  simp [Has, node?]

/-- Nodes stay in the heap, and constants stay constants. -/
structure Extends (w w' : World) : Prop where
  has : ∀ n, w.Has n → w'.Has n
  constant : ∀ n, w.Constant n → w'.Constant n

theorem Extends.refl (w : World) : w.Extends w :=
  ⟨fun _ => id, fun _ => id⟩

theorem Extends.trans (first : w.Extends w') (second : w'.Extends w'') : w.Extends w'' :=
  ⟨fun n known => second.has n (first.has n known),
    fun n known => second.constant n (first.constant n known)⟩

theorem extends_of_heap (same : w'.heap = w.heap) : w.Extends w' where
  has n known := by rwa [Has, same]
  constant n known := by
    obtain ⟨s, found, constant⟩ := known
    exact ⟨s, (suspension?_congr (by rw [node?, node?, same])).trans found, constant⟩

theorem Retains.constant (retains : w.Retains w') (known : w.Constant n) : w'.Constant n := by
  obtain ⟨s, found, constant⟩ := known
  exact ⟨s, retains.kept n s found, constant⟩

@[simp] theorem size_setThunk (th : Thunk) : (w.setThunk n th).heap.size = w.heap.size := by
  simp [setThunk]

theorem extends_alloc (x : Node) : w.Extends (w.alloc x).1 where
  has n known := by
    change n < (w.heap.push x).size
    rw [Array.size_push]
    exact Nat.lt_succ_of_lt known
  constant n known := by
    obtain ⟨s, found, constant⟩ := known
    obtain ⟨th, there, -⟩ := suspension?_eq_some.1 found
    have other : n ≠ w.heap.size := Nat.ne_of_lt (lt_of_node? (thunk?_eq_some.1 there))
    exact ⟨s, (suspension?_congr (by simp [node?_alloc, other])).trans found, constant⟩

theorem has_alloc (x : Node) : (w.alloc x).1.Has (w.alloc x).2 := by
  simp [Has, alloc]

theorem extends_write (n : NodeId) (cell : Option Cell) : w.Extends (w.write n cell) where
  has m known := by
    unfold write
    split
    · simpa [Has] using known
    · exact known
  constant m known := (grows_write n cell).toRetains.constant known

theorem extends_release (n : NodeId) : w.Extends (w.release n) where
  has m known := by
    unfold release
    split
    · simpa [Has] using known
    · exact known
  constant m known := by
    obtain ⟨s, found, constant⟩ := known
    refine ⟨s, ?_, constant⟩
    rw [suspension?_release, found]
    simp [Suspension.clear_of_isConstant constant]

/-! ## Grounded worlds -/

/-- A larger world is grounded if what it keeps was there before. -/
theorem Grounded.extend (world : w.Grounded) (grown : w.Extends w')
    (nodes : ∀ n x, w'.node? n = some x → x.In w.Has) (names : w'.names = w.names)
    (registries : w'.registries = w.registries)
    (registers : ∀ c n, (w'.context c).registers.r1 = some n → w.Has n) : w'.Grounded where
  nodes n x found := (nodes n x found).mono grown.has
  names b known := grown.has _ (world.names b (names ▸ known))
  registries b known n there := grown.constant n (world.registries b (registries ▸ known) n there)
  registers c n at' := grown.has n (registers c n at')

theorem Grounded.of_same (world : w.Grounded) (heap : w'.heap = w.heap) (names : w'.names = w.names)
    (registries : w'.registries = w.registries)
    (registers : ∀ c n, (w'.context c).registers.r1 = some n → w.Has n) : w'.Grounded := by
  refine world.extend (extends_of_heap heap) (fun n x found => ?_) names registries registers
  rw [node?, heap, ← node?] at found
  exact world.nodes n x found

theorem Grounded.alloc (world : w.Grounded) {x : Node} (within : x.In w.Has) :
    (w.alloc x).1.Grounded := by
  refine world.extend (extends_alloc x) (fun n y found => ?_) rfl rfl world.registers
  rw [node?_alloc] at found
  split at found
  · exact Option.some.inj found ▸ within
  · exact world.nodes n y found

/-- Only a thunk changes. -/
theorem Grounded.change (world : w.Grounded) {f : Thunk → Thunk}
    (changed : ∀ m, w'.node? m = match w.thunk? n with
      | some th => if m = n then some (.thunk (f th)) else w.node? m
      | none => w.node? m)
    (within : ∀ th, Node.In w.Has (.thunk th) → Node.In w.Has (.thunk (f th))) (m : NodeId)
    (x : Node) (found : w'.node? m = some x) : x.In w.Has := by
  rw [changed] at found
  cases there : w.thunk? n with
  | none => exact world.nodes m x (by simpa [there] using found)
  | some th =>
    rw [there] at found
    by_cases same : m = n
    · simp only [same, if_true, Option.some.injEq] at found
      exact found ▸ within th (world.nodes n _ (thunk?_eq_some.1 there))
    · exact world.nodes m x (by simpa [same] using found)

theorem Grounded.write (world : w.Grounded) {cell : Option Cell}
    (within : ∀ v, cell = some (.value v) → w.Has v) : (w.write n cell).Grounded := by
  have same : (w.write n cell).names = w.names ∧ (w.write n cell).registries = w.registries := by
    unfold World.write
    split <;> exact ⟨rfl, rfl⟩
  refine world.extend (extends_write n cell) (world.change (fun m => node?_write cell) ?_)
    same.1 same.2 fun c m at' => world.registers c m (by rwa [context_write] at at')
  rintro th ⟨suspension, -⟩
  exact ⟨suspension, fun v held => within v (by simpa using held)⟩

theorem Grounded.release (world : w.Grounded) : (w.release n).Grounded := by
  obtain ⟨heap, same⟩ := w.release_eq (n := n)
  refine world.extend (extends_release n) (world.change (fun m => node?_release) ?_)
    (by rw [same]) (by rw [same]) fun c m at' => world.registers c m (by rwa [same] at at')
  rintro ⟨s, slot⟩ ⟨suspension, held⟩
  refine ⟨?_, held⟩
  cases s <;> trivial

theorem Grounded.evaluated (world : w.Grounded) (has : w.Has n)
    (known : w.evaluated? n = some v) : w.Has v := by
  unfold evaluated? at known
  split at known
  · cases known
    exact has
  · rename_i th found
    exact (world.nodes n _ found).2 v (Slot.value?_eq_some.1 known)
  · cases known

theorem Grounded.cell (world : w.Grounded) (held : (w.slot n).cell = some (.value v)) :
    w.Has v := by
  obtain ⟨th, found⟩ := thunk_of_cell held
  rw [slot_of_thunk found] at held
  exact (world.nodes n _ (thunk?_eq_some.1 found)).2 v held

theorem mem_of_find? {α : Type} {table : Table α} {x : String} {a : α}
    (found : table.find? x = some a) : (x, a) ∈ table := by
  induction table with
  | nil => cases found
  | cons b table ih =>
    obtain ⟨y, d⟩ := b
    simp only [Table.find?, List.lookup_cons] at found
    split at found
    · rename_i same
      cases found
      simp [eq_of_beq same]
    · exact List.mem_cons_of_mem _ (ih found)

theorem mem_insert {α : Type} {table : Table α} {x : String} {a : α} {b : String × α}
    (known : b ∈ table.insert x a) : b = (x, a) ∨ b ∈ table := by
  simp only [Table.insert, List.mem_append, List.mem_cons, List.mem_filter] at known
  rcases known with ⟨old, -⟩ | new | ⟨old, -⟩
  · exact .inr old
  · exact .inl new
  · exact .inr old

theorem Grounded.constants (world : w.Grounded) {r : String}
    (known : n ∈ (w.registry r).constants) : w.Constant n := by
  unfold registry at known
  cases found : w.registries.find? r with
  | none => simp [found, show ({} : Registry).constants = [] from rfl] at known
  | some registry =>
    rw [found] at known
    exact world.registries _ (mem_of_find? found) n known

theorem Grounded.setRegistry (world : w.Grounded) {r : String} {registry : Registry}
    (constants : ∀ n ∈ registry.constants, w.Constant n) :
    (w.setRegistry r registry).Grounded where
  nodes n x found := (world.nodes n x found).mono fun _ => id
  names b known := world.names b known
  registries b known n there := by
    rcases mem_insert known with rfl | old
    · exact constants n there
    · exact world.registries b old n there
  registers c n at' := world.registers c n at'

theorem Grounded.setContext (world : w.Grounded) {context : Context}
    (within : ∀ n, context.registers.r1 = some n → w.Has n) : (w.setContext c context).Grounded := by
  refine world.of_same rfl rfl rfl fun d n at' => ?_
  rw [context_setContext] at at'
  split at at'
  · exact within n at'
  · exact world.registers d n at'

end World

end LazyGraph

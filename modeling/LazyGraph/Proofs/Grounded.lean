import LazyGraph.Proofs.References

/-!
# No dangling references

A step of a thread builds from nodes that are there, and so leaves the world and the thread grounded
as they were. One lemma for each function of the machine.
-/

namespace LazyGraph

variable {w w' : World} {t : Thread} {n v : NodeId}

/-! ## Host code -/

theorem Thread.Anchored.extend (grown : w.Extends w') (anchored : t.Anchored w) :
    t.Anchored w' where
  frames f known := (anchored.frames f known).mono grown.has
  overwrites n v known :=
    ⟨grown.constant n (anchored.overwrites n v known).1,
      fun x is => grown.has x ((anchored.overwrites n v known).2 x is)⟩

theorem Thread.Grounded.extend (grown : w.Extends w') (grounded : t.Grounded w) :
    t.Grounded w' where
  toAnchored := grounded.toAnchored.extend grown
  control := grounded.control.mono grown.has
  registers r n at' := grown.constant n (grounded.registers r n at')

def Control.isRegister : Control → Bool
  | .register _ _ => true
  | _ => false

section

variable (world : w.Grounded) (anchored : t.Anchored w)

include world anchored

theorem grounded_goto {c : Control} (within : c.In w.Has) (plain : c.isRegister = false) :
    Turn.Grounded (w, t.goto c) :=
  ⟨world, { anchored with
    control := within
    registers := fun r n at' => by simp [show c = _ from at', Control.isRegister] at plain }⟩

theorem grounded_stay {c : Control} (at' : t.control = c) (within : c.In w.Has)
    (plain : c.isRegister = false) : Turn.Grounded (w, t) := by
  subst at'
  exact grounded_goto world anchored within plain

/-- The world may change where no nodes are kept. -/
theorem grounded_elsewhere {c : Control} (heap : w'.heap = w.heap) (names : w'.names = w.names)
    (registries : w'.registries = w.registries) (contexts : w'.contexts = w.contexts)
    (within : c.In w.Has) (plain : c.isRegister = false) : Turn.Grounded (w', t.goto c) := by
  have grown : w.Extends w' := World.extends_of_heap heap
  have world' : w'.Grounded := world.of_same heap names registries fun d n at' =>
    world.registers d n (by rwa [World.context, contexts] at at')
  exact grounded_goto world' (anchored.extend grown) (within.mono grown.has) plain

theorem grounded_push {f : Frame} {c : Control} (frame : f.In w.Has) (within : c.In w.Has)
    (plain : c.isRegister = false) : Turn.Grounded (w, t.push f c) :=
  ⟨world, {
    frames := fun g known => by
      rcases List.mem_cons.1 known with rfl | old
      · exact frame
      · exact anchored.frames g old
    overwrites := anchored.overwrites
    control := within
    registers := fun r n at' => by simp [show c = _ from at', Control.isRegister] at plain }⟩

theorem grounded_plan {as : List Action} {c : Control} (within : c.In w.Has)
    (plain : c.isRegister = false)
    (resets : ∀ n v, .overwrite n v ∈ as → w.Constant n ∧ ∀ x, v = some x → w.Has x) :
    Turn.Grounded (w, t.plan as c) :=
  ⟨world, {
    frames := anchored.frames
    overwrites := fun n v known => by
      rcases List.mem_append.1 known with new | old
      · exact resets n v new
      · exact anchored.overwrites n v old
    control := within
    registers := fun r n at' => by simp [show c = _ from at', Control.isRegister] at plain }⟩

theorem grounded_build {x : Node} (within : x.In w.Has) :
    Turn.Grounded ((w.alloc x).1, t.goto (.give (w.alloc x).2)) :=
  grounded_goto (world.alloc within) (anchored.extend (World.extends_alloc x)) (World.has_alloc x) rfl

theorem grounded_yield {v : Value} (within : v.In w.Has) : Turn.Grounded (t.yield w v) :=
  grounded_build world anchored (x := .value v) within

theorem grounded_raise (message : String) : Turn.Grounded (t.raise w message) :=
  grounded_goto world anchored trivial rfl

theorem grounded_abort (e : GraphError) : Turn.Grounded (t.abort w e) :=
  grounded_plan world anchored trivial rfl (by simp)

theorem grounded_giveField {field : Except GraphError Field}
    (within : ∀ f, field = .ok f → f.In w.Has) : Turn.Grounded (t.giveField w field) := by
  unfold Thread.giveField
  split
  · exact grounded_goto world anchored (within _ rfl) rfl
  · exact grounded_yield world anchored trivial
  · exact grounded_goto world anchored trivial rfl

theorem grounded_withArgs {env : Env} {f : List Arg → Value}
    (within : ∀ args, (f args).In w.Has) : Turn.Grounded (t.withArgs w env f) := by
  unfold Thread.withArgs
  split
  · exact grounded_yield world anchored (within _)
  · exact grounded_raise world anchored _

theorem grounded_readRegister (kind : FieldKind) : Turn.Grounded (t.readRegister w kind) := by
  unfold Thread.readRegister
  dsimp only
  split
  · exact grounded_yield world anchored trivial
  · rename_i n _ at'
    exact grounded_goto world anchored (world.registers _ n at') rfl
  · exact grounded_raise world anchored _

end

theorem World.Grounded.value (world : w.Grounded) {x : Value} (found : w.value? n = some x) :
    x.In w.Has :=
  world.nodes n _ (World.value?_eq_some.1 found)

theorem forall_fill {α β : Type} {P : β → Prop} {pointer : NodeId → β} {constant : α → β}
    (constants : ∀ a, P (constant a)) (ns : List NodeId) (layout : List (Option α))
    (pointers : ∀ n ∈ ns, P (pointer n)) : ∀ b ∈ fill pointer constant ns layout, P b := by
  induction ns, layout using fill.induct with
  | case1 ns => simp [fill]
  | case2 ns a layout ih => simpa [fill, constants] using ih pointers
  | case3 layout ih => simpa [fill] using ih pointers
  | case4 n ns layout ih =>
    simp only [fill, List.mem_cons, forall_eq_or_imp]
    exact ⟨pointers n (List.mem_cons_self ..),
      ih fun m known => pointers m (List.mem_cons_of_mem _ known)⟩

theorem mem_of_fieldOf {kind : FieldKind} {fields : List Field} {index : Nat} {f : Field}
    (known : fieldOf kind fields index = .ok f) : f ∈ fields := by
  unfold fieldOf fieldAt at known
  cases found : fields[index]? with
  | none => simp [found] at known
  | some g =>
    simp only [found] at known
    split at known
    · cases known
      exact List.mem_of_getElem? found
    · cases known

theorem Suspension.In.opening {H : NodeId → Prop} {s : Suspension} {o : List Frame × Control}
    (within : s.In H) (opening : s.opening? = some o) :
    (∀ f ∈ o.1, f.In H) ∧ o.2.In H ∧ o.2.isRegister = false := by
  unfold Suspension.opening? at opening
  split at opening
  all_goals cases opening
  · exact ⟨by simp, within, rfl⟩
  · exact ⟨by simp, within, rfl⟩
  · exact ⟨by simp, within.1, rfl⟩
  · refine ⟨by simp, ⟨within.1, fun a there => ?_⟩, rfl⟩
    obtain ⟨m, listed, rfl⟩ := List.mem_map.1 there
    exact within.2 m listed
  · refine ⟨fun f known => ?_, within, rfl⟩
    obtain rfl := List.mem_singleton.1 known
    exact within

/-- Operations on the slot or the suspension of a thunk, other than looking at them. -/
def Thread.touches (t : Thread) : Bool :=
  match t.control with
  | .perform (.onThunk op) _ _ => op != .cleared && op != .isConstant
  | _ => false

section

variable (world : w.Grounded) (anchored : t.Anchored w)

include world anchored

theorem grounded_look {op : ThunkOp} (looks : op = .cleared ∨ op = .isConstant)
    (v : Option NodeId) : Turn.Grounded (t.onThunk w op n v) := by
  unfold Thread.onThunk
  split
  · exact grounded_raise world anchored _
  · rcases looks with rfl | rfl <;> exact grounded_yield world anchored trivial

theorem grounded_perform {p : Prim} {operands : List NodeId} {env : Env}
    (looks : ∀ op n ns, p = .onThunk op → operands = n :: ns → op = .cleared ∨ op = .isConstant)
    (within : ∀ n ∈ operands, w.Has n) : Turn.Grounded (t.perform w p operands env) := by
  have raises := grounded_raise world anchored
  have gives : ∀ n ∈ operands, Turn.Grounded (w, t.goto (.give n)) :=
    fun n known => grounded_goto world anchored (within n known) rfl
  cases p with
  | box v =>
    refine grounded_yield world anchored ?_
    cases v <;> simp [Value.ofImmediate, Value.In]
  | data tag layout =>
    exact grounded_yield world anchored (forall_fill (fun _ => trivial) _ _ within)
  | application =>
    cases operands with
    | nil => exact raises _
    | cons f args =>
      refine grounded_build world anchored ⟨⟨within f (List.mem_cons_self ..), ?_⟩, by simp⟩
      exact fun n known => within n (List.mem_cons_of_mem _ known)
  | selector kind index =>
    cases operands with
    | nil => exact raises _
    | cons f args =>
      exact grounded_build world anchored ⟨within f (List.mem_cons_self ..), by simp⟩
  | bytecode code =>
    simp only [Thread.perform]
    split
    · exact grounded_goto world anchored trivial rfl
    · exact grounded_yield world anchored within
  | evaluate | enter =>
    cases operands with
    | nil => exact raises _
    | cons f args => exact grounded_goto world anchored (within f (List.mem_cons_self ..)) rfl
  | blackHole =>
    cases operands with
    | nil => exact raises _
    | cons f args =>
      simp only [Thread.perform]
      split <;> exact grounded_goto world anchored (within f (List.mem_cons_self ..)) rfl
  | apply layout =>
    cases operands with
    | nil => exact raises _
    | cons f args =>
      refine grounded_goto world anchored ⟨within f (List.mem_cons_self ..), ?_⟩ rfl
      exact forall_fill (fun _ => trivial) _ _ fun n known => within n (List.mem_cons_of_mem _ known)
  | sum | difference | product | depth | read x => exact grounded_yield world anchored trivial
  | less =>
    rcases operands with _ | ⟨a, _ | ⟨b, rest⟩⟩
    · exact raises _
    · exact raises _
    · exact grounded_yield world anchored trivial
  | last =>
    simp only [Thread.perform]
    split
    · rename_i n last
      exact gives n (List.mem_of_getLast? last)
    · exact grounded_yield world anchored (by simp [Value.In])
  | raise message | panic message | revert r => exact grounded_goto world anchored trivial rfl
  | increment x =>
    have assigned : (w.assign x (w.counter x + 1)).Grounded :=
      world.of_same rfl rfl rfl world.registers
    exact grounded_yield assigned (anchored.extend (World.extends_of_heap (w := w) rfl)) trivial
  | gate g =>
    have zero : Node.In w.Has (.value (.scalar (.int 0))) := trivial
    exact grounded_plan (world.alloc zero) (anchored.extend (World.extends_alloc _))
      (World.has_alloc _) rfl (by simp)
  | shape | count => exact grounded_withArgs world anchored fun _ => trivial
  | register kind => exact grounded_readRegister world anchored kind
  | onThunk op =>
    cases operands with
    | nil => exact raises _
    | cons n rest => exact grounded_look world anchored (looks op n rest rfl rfl) _
  | field kind index =>
    cases operands with
    | nil => exact raises _
    | cons n rest =>
      simp only [Thread.perform]
      split
      · rename_i fields found
        exact grounded_giveField world anchored fun f known =>
          world.value found f (mem_of_fieldOf known)
      · exact raises _

theorem grounded_run {c : Code} {env : Env} (within : env.In w.Has) : Turn.Grounded (t.run w c env) := by
  have raises := grounded_raise world anchored
  cases c with
  | captured x =>
    simp only [Thread.run]
    split
    · rename_i n found
      exact grounded_goto world anchored (within.captured _ (World.mem_of_find? found)) rfl
    · exact raises _
  | named x =>
    simp only [Thread.run]
    split
    · rename_i n found
      exact grounded_goto world anchored (world.names _ (World.mem_of_find? found)) rfl
    · exact raises _
  | arg i up =>
    simp only [Thread.run]
    split
    · exact raises _
    · rename_i args known
      have known := within.frames args (List.mem_of_getElem? known)
      split
      · exact raises _
      · rename_i n there
        exact grounded_goto world anchored (known _ (List.mem_of_getElem? there)) rfl
      · rename_i v there
        refine grounded_yield world anchored ?_
        cases v <;> simp [Value.ofImmediate, Value.In]
  | suspend body => exact grounded_build world anchored ⟨within, by simp⟩
  | constant r body =>
    simp only [Thread.run]
    have grown := World.extends_alloc (w := w) (.thunk ⟨.constant (body, env), {}⟩)
    have fresh := World.has_alloc (w := w) (.thunk ⟨.constant (body, env), {}⟩)
    refine ⟨world.alloc ⟨within, by simp⟩, { anchored.extend grown with control := ?_, registers := ?_ }⟩
    · split <;> exact fresh
    · intro s n at'
      have here : n = w.heap.size := by
        simp only [Thread.goto] at at'
        split at at' <;> simp_all [World.alloc]
      refine ⟨.constant (body, env), ?_, rfl⟩
      simp [here, World.suspension?, World.thunk?, World.node?_alloc, Node.thunk?]
  | lambda name arity body => exact grounded_yield world anchored within
  | prim p operands =>
    cases operands with
    | nil => exact grounded_perform world anchored (by simp) (by simp)
    | cons c cs => exact grounded_push world anchored ⟨by simp, within⟩ within rfl
  | branch scrutinee yes no | probe subject other | recover body handler =>
    exact grounded_push world anchored within within rfl

theorem grounded_interpret {pointers : List NodeId} {args : List Arg} (code : Bytecode)
    (rule : Interpreter) (known : ∀ n ∈ pointers, w.Has n) (within : ∀ a ∈ args, a.In w.Has) :
    Turn.Grounded (t.interpret w code pointers args rule) := by
  refine grounded_goto world anchored ⟨by simp, fun l there => ?_⟩ rfl
  rcases List.mem_cons.1 there with rfl | there
  · exact within
  · obtain rfl := List.mem_singleton.1 there
    intro a held
    obtain ⟨n, listed, rfl⟩ := List.mem_map.1 held
    exact known n listed

theorem grounded_call {args : List Arg} (has : w.Has n) (within : ∀ a ∈ args, a.In w.Has) :
    Turn.Grounded (t.call w n args) := by
  unfold Thread.call
  split
  · rename_i th found
    split
    · rename_i v held
      exact grounded_goto world anchored
        ⟨(world.nodes n _ found).2 v (Slot.value?_eq_some.1 held), within⟩ rfl
    · exact grounded_push world anchored within has rfl
  · rename_i name arity body env found
    have outer : Env.In w.Has env := world.nodes n _ found
    have frame : ∀ l : List Arg, (∀ a ∈ l, a ∈ args) →
        Env.In w.Has { env with frames := l :: env.frames } := fun l sub =>
      ⟨outer.captured, fun args' known => by
        rcases List.mem_cons.1 known with rfl | old
        · exact fun a there => within a (sub a there)
        · exact outer.frames args' old⟩
    unfold Thread.callFunction
    dsimp only
    split
    · exact grounded_goto world anchored (frame args fun _ => id) rfl
    · split
      · exact grounded_push world anchored (fun a known => within a (List.mem_of_mem_drop known))
          (frame _ fun a known => List.mem_of_mem_take known) rfl
      · exact grounded_goto world anchored trivial rfl
  · rename_i code pointers found
    split
    · exact grounded_interpret world anchored code _ (world.nodes n _ found) within
    · exact grounded_goto world anchored trivial rfl
  · exact grounded_goto world anchored trivial rfl
  · exact grounded_raise world anchored _

theorem grounded_register {r : String} (recorded : w.Constant n) (has : w.Has n)
    (at' : t.control = .register r n) : Turn.Grounded (t.register w r n) := by
  unfold Thread.register
  dsimp only
  split
  · exact ⟨world, { anchored with
      control := by rw [at']; exact has
      registers := fun s m is => by
        rw [at'] at is
        cases is
        exact recorded }⟩
  · have recorded : (w.setRegistry r ((w.registry r).record n)).Grounded := by
      refine world.setRegistry fun m known => ?_
      rcases List.mem_append.1 known with old | new
      · exact world.constants old
      · obtain rfl := List.mem_singleton.1 new
        exact recorded
    exact grounded_plan recorded (anchored.extend (World.extends_of_heap (w := w) rfl)) has rfl
      (by simp)

theorem grounded_revert {r : String} (at' : t.control = .revert r) :
    Turn.Grounded (t.revert w r) := by
  unfold Thread.revert
  dsimp only
  split
  · exact grounded_stay world anchored at' trivial rfl
  · have locked : (w.setRegistry r (w.registry r).lock).Grounded :=
      world.setRegistry fun m known => world.constants known
    have count : Node.In w.Has
        (.value (.scalar (.long (.ofNat (w.registry r).constants.length)))) := trivial
    have same : w.Extends (w.setRegistry r (w.registry r).lock) := World.extends_of_heap rfl
    have grown := same.trans
      (World.extends_alloc (.value (.scalar (.long (.ofNat (w.registry r).constants.length)))))
    refine grounded_plan (locked.alloc count) (anchored.extend grown) (World.has_alloc _) rfl ?_
    intro m v known
    simp only [List.mem_append, List.mem_map, List.mem_filter] at known
    rcases known with ⟨k, ⟨there, -⟩, is⟩ | other
    · cases is
      exact ⟨grown.constant m (world.constants there), by simp⟩
    · simp at other

theorem grounded_project {kind : FieldKind} {index : Nat} {producer : NodeId} :
    Turn.Grounded (t.project w kind index producer n) := by
  have fails := fun e => grounded_goto world anchored (c := .fail e) trivial rfl
  unfold Thread.project
  dsimp only
  split
  · rename_i fields found
    have fields := world.value found
    split
    · exact fails _
    · rename_i m known
      have has : w.Has m := fields _ (mem_of_fieldOf known)
      refine grounded_goto (world.setContext fun k is => ?_)
        (anchored.extend (World.extends_of_heap (w := w) rfl)) has rfl
      cases is
      exact has
    · rename_i s known
      have written : (w.setContext t.context { w.context t.context with
          registers := (w.context t.context).registers.write s }).Grounded := by
        refine world.setContext fun k is => world.registers t.context k ?_
        cases s <;> exact is
      exact grounded_yield written (anchored.extend (World.extends_of_heap (w := w) rfl)) trivial
  · exact fails _
  · exact fails _

end

/-! ## Evaluation -/

theorem Thread.Anchored.drop {f : Frame} {fs : List Frame} (anchored : t.Anchored w)
    (top : t.stack = f :: fs) :
    f.In w.Has ∧ Thread.Anchored w { t with stack := fs } :=
  ⟨anchored.frames f (by simp [top]),
    fun g known => anchored.frames g (by simp [top, known]), anchored.overwrites⟩

theorem World.Grounded.leave (world : w.Grounded) : (t.leave w n).Grounded :=
  world.setContext fun _ is => world.registers t.context _ is

theorem World.extends_leave : w.Extends (t.leave w n) :=
  World.extends_of_heap rfl

theorem overwrite_not_mem_giveUp {m : NodeId} {x : Option NodeId} {claim : Bool} :
    .overwrite m x ∉ giveUp n claim := by
  cases claim <;> simp [giveUp]

section

variable (world : w.Grounded) (anchored : t.Anchored w)

include world anchored

theorem grounded_give (has : w.Has n) (at' : t.control = .give n) :
    Turn.Grounded (t.give w n) := by
  unfold Thread.give
  split
  · rename_i empty
    exact grounded_stay world anchored at' has rfl
  · rename_i frame stack top
    obtain ⟨frame', dropped⟩ := anchored.drop top
    cases frame with
    | operands p done rest env =>
      have more : ∀ m ∈ done ++ [n], w.Has m := fun m known => by
        rcases List.mem_append.1 known with old | new
        · exact frame'.1 m old
        · exact List.mem_singleton.1 new ▸ has
      cases rest with
      | nil => exact grounded_goto world dropped ⟨more, frame'.2⟩ rfl
      | cons c cs => exact grounded_push world dropped ⟨more, frame'.2⟩ frame'.2 rfl
    | branch yes no env => exact grounded_goto world dropped frame' rfl
    | probe other env => exact grounded_goto world dropped ⟨has, frame'⟩ rfl
    | handler c env | again => exact grounded_goto world dropped has rfl
    | applyTo args => exact grounded_goto world dropped ⟨has, frame'⟩ rfl
    | project kind index producer => exact grounded_project world dropped
    | running m claim => exact grounded_push world dropped frame' has rfl
    | settling m claim =>
      have left : Thread.Anchored w { t with stack := .leaving m :: stack } :=
        ⟨fun f known => by
          rcases List.mem_cons.1 known with rfl | old
          · exact frame'
          · exact dropped.frames f old, anchored.overwrites⟩
      exact grounded_plan world left ⟨frame', has⟩ rfl (by simp)
    | leaving m =>
      exact grounded_goto world.leave (dropped.extend World.extends_leave) has rfl

theorem grounded_fail {e : GraphError} (at' : t.control = .fail e) :
    Turn.Grounded (t.fail w e) := by
  unfold Thread.fail
  split
  · exact grounded_stay world anchored at' trivial rfl
  · rename_i frame stack top
    obtain ⟨frame', dropped⟩ := anchored.drop top
    have same : ∀ {w'}, w'.Grounded → w.Extends w' →
        Turn.Grounded (w', { t with stack }) := fun world' grown =>
      grounded_stay world' (dropped.extend grown) at' trivial rfl
    cases frame with
    | handler c env => exact grounded_goto world dropped frame' rfl
    | running m claim | settling m claim =>
      exact grounded_plan world.leave (dropped.extend World.extends_leave) trivial rfl
        fun k x known => absurd known overwrite_not_mem_giveUp
    | leaving m => exact same world.leave World.extends_leave
    | _ => exact same world (World.Extends.refl w)

theorem grounded_unwind {message : String} (at' : t.control = .unwind message) :
    Turn.Grounded (t.unwind w message) := by
  unfold Thread.unwind
  split
  · exact grounded_stay world anchored at' trivial rfl
  · rename_i frame stack top
    obtain ⟨-, dropped⟩ := anchored.drop top
    have same : ∀ {w'}, w'.Grounded → w.Extends w' →
        Turn.Grounded (w', { t with stack }) := fun world' grown =>
      grounded_stay world' (dropped.extend grown) at' trivial rfl
    cases frame with
    | running m claim | settling m claim =>
      refine grounded_plan world.leave (dropped.extend World.extends_leave) trivial rfl ?_
      intro k x known
      cases claim <;> simp at known
    | leaving m => exact same world.leave World.extends_leave
    | _ => exact same world (World.Extends.refl w)

theorem grounded_enter (has : w.Has n) : Turn.Grounded (t.enter w n) := by
  unfold Thread.enter
  split
  · exact grounded_goto world anchored has rfl
  · exact grounded_abort world anchored _
  · exact grounded_raise world anchored _

theorem grounded_evaluate (has : w.Has n) : Turn.Grounded (t.evaluate w n) := by
  unfold Thread.evaluate
  split
  · rename_i v known
    exact grounded_goto world anchored (world.evaluated has known) rfl
  · exact grounded_push world anchored trivial has rfl

theorem grounded_peek {other : Code} {env : Env} (has : w.Has n) (within : env.In w.Has)
    (at' : t.control = .peek n other env) : Turn.Grounded (t.proceed w) := by
  simp only [Thread.proceed, at']
  split
  · rename_i v known
    exact grounded_goto world anchored (world.evaluated has known) rfl
  · exact grounded_goto world anchored within rfl

/-! ## Forcing -/

omit anchored in
theorem grounded_exchange {seen : Slot} {cell : Option Cell}
    (within : ∀ v, cell = some (.value v) → w.Has v)
    (exchanged : w.exchange? n seen cell = some w') : w'.Grounded ∧ w.Extends w' := by
  unfold World.exchange? at exchanged
  split at exchanged
  · cases exchanged
    exact ⟨world.write within, World.extends_write n cell⟩
  · cases exchanged

theorem grounded_force (has : w.Has n) (claim : Bool) : Turn.Grounded (t.force w n claim) := by
  unfold Thread.force
  split
  · refine grounded_goto world anchored ?_ ?_ <;> split <;> first | exact has | rfl
  · rename_i v held
    exact grounded_goto world anchored (world.cell held) rfl
  · split
    · exact grounded_abort world anchored _
    · exact grounded_goto world anchored has rfl

theorem grounded_seize {seen : Slot} (has : w.Has n) : Turn.Grounded (t.seize w n seen) := by
  unfold Thread.seize
  split
  · rename_i w' exchanged
    obtain ⟨world', grown⟩ := grounded_exchange world (by simp) exchanged
    exact grounded_plan world' (anchored.extend grown) (grown.has n has) rfl (by simp)
  · exact grounded_goto world anchored has rfl

theorem grounded_start (has : w.Has n) (claim : Bool) : Turn.Grounded (t.start w n claim) := by
  unfold Thread.start
  dsimp only
  split
  · rename_i stack _
    have pushed : (w.setContext t.context { w.context t.context with stack }).Grounded :=
      world.setContext fun m is => world.registers t.context m is
    exact grounded_goto pushed (anchored.extend (World.extends_of_heap (w := w) rfl)) has rfl
  · refine grounded_plan world anchored trivial rfl fun k x known => ?_
    cases claim <;> simp at known

theorem grounded_body (has : w.Has n) (claim : Bool) : Turn.Grounded (t.body w n claim) := by
  rcases t.body_cases w n claim with gone | ⟨s, fs, c, found, opening, runs⟩
  · rw [gone]
    exact grounded_plan world.leave (anchored.extend World.extends_leave) has rfl fun k x known =>
      absurd known overwrite_not_mem_giveUp
  · obtain ⟨th, there, rfl⟩ := World.suspension?_eq_some.1 found
    obtain ⟨frames, control, plain⟩ :=
      (world.nodes n _ (World.thunk?_eq_some.1 there)).1.opening opening
    rw [runs]
    exact ⟨world, {
      frames := fun f known => by
        rcases List.mem_append.1 known with new | old
        · exact frames f new
        rcases List.mem_cons.1 old with rfl | old
        · exact has
        · exact anchored.frames f old
      overwrites := anchored.overwrites
      control
      registers := fun r m is => by simp [show c = _ from is, Control.isRegister] at plain }⟩

theorem grounded_recheck (has : w.Has n) (claim : Bool) :
    Turn.Grounded (t.recheck w n claim) := by
  unfold Thread.recheck
  split
  · exact grounded_abort world anchored _
  · exact grounded_goto world anchored has rfl

theorem grounded_update (has : w.Has n) (has' : w.Has v) : Turn.Grounded (t.update w n v) := by
  unfold Thread.update
  split
  · rename_i winner held
    exact grounded_plan world anchored (world.cell (Slot.value?_eq_some.1 held)) rfl (by simp)
  · exact grounded_goto world anchored ⟨has, has'⟩ rfl

omit world anchored in
theorem overwrite_not_mem_afterInstall {me : TaskId} {seen : Slot} {m : NodeId}
    {x : Option NodeId} : .overwrite m x ∉ Thread.afterInstall me seen := by
  unfold Thread.afterInstall
  split
  · simp
  all_goals (try split) <;> simp [wakeQueue]

theorem grounded_install {seen : Slot} (has : w.Has n) (has' : w.Has v) :
    Turn.Grounded (t.install w n v seen) := by
  unfold Thread.install
  split
  · rename_i w' exchanged
    obtain ⟨world', grown⟩ := grounded_exchange world (by simpa using has') exchanged
    refine grounded_plan world' (anchored.extend grown) (grown.has v has') rfl ?_
    intro m x known
    simp [overwrite_not_mem_afterInstall] at known
  · exact grounded_goto world anchored ⟨has, has'⟩ rfl

/-! ## Waiting -/

theorem grounded_attach {claim : Bool} (has : w.Has n) (at' : t.control = .attach n claim) :
    Turn.Grounded (t.attach w n claim) := by
  unfold Thread.attach
  split
  · exact grounded_goto world anchored has rfl
  · exact grounded_goto world anchored has rfl
  · split
    · exact grounded_abort world anchored _
    · exact grounded_goto world anchored has rfl
  · exact grounded_stay world anchored at' has rfl
  · split
    · exact grounded_abort world anchored _
    · exact grounded_goto world anchored has rfl

theorem grounded_lock {claim : Bool} {owner : TaskId} {seen : Slot} (has : w.Has n) :
    Turn.Grounded (t.lock w n claim owner seen) := by
  unfold Thread.lock
  split
  · rename_i w' exchanged
    obtain ⟨world', grown⟩ := grounded_exchange world (by simp) exchanged
    exact grounded_goto world' (anchored.extend grown) (grown.has n has) rfl
  · exact grounded_goto world anchored has rfl

theorem grounded_gather {claim : Bool} {owner : TaskId} {lock : Slot} (has : w.Has n) :
    Turn.Grounded (t.gather w n claim owner lock) :=
  grounded_elsewhere world anchored rfl rfl rfl rfl has rfl

theorem grounded_join {claim : Bool} {q : QueueId} {owner : TaskId} (has : w.Has n) :
    Turn.Grounded (t.join w n claim q owner) := by
  unfold Thread.join
  split
  · rename_i w' pushed
    obtain ⟨queues, Q, rfl, -⟩ := World.push?_eq_some pushed
    exact grounded_elsewhere world anchored rfl rfl rfl rfl has rfl
  · exact grounded_goto world anchored has rfl

theorem grounded_detour {afterwards : Bool} {next : Control} (within : next.In w.Has)
    (plain : next.isRegister = false) : Turn.Grounded (t.detour w afterwards next) := by
  unfold Thread.detour
  dsimp only
  split
  · split
    · have left : (w.setContext t.context { w.context t.context with detour := none }).Grounded :=
        world.setContext fun m is => world.registers t.context m is
      exact grounded_plan left (anchored.extend (World.extends_of_heap (w := w) rfl)) within plain
        (by simp)
    · exact grounded_goto world anchored within plain
  · exact grounded_goto world anchored within plain

theorem grounded_enlist {x : Waiting} (has : w.Has x.thunk) : Turn.Grounded (t.enlist w x) := by
  have named : (w.christen (w.context t.context).capability x.queue).Grounded ∧
      w.Extends (w.christen (w.context t.context).capability x.queue) := by
    unfold World.christen
    split
    · split
      · exact ⟨world, World.Extends.refl w⟩
      · exact ⟨world.of_same rfl rfl rfl world.registers, World.extends_of_heap rfl⟩
    · exact ⟨world, World.Extends.refl w⟩
  exact grounded_detour named.1 (anchored.extend named.2) (named.2.has _ has) rfl

theorem grounded_enrol {x : Waiting} (has : w.Has x.thunk) : Turn.Grounded (t.enrol w x) :=
  grounded_elsewhere world anchored rfl rfl rfl rfl has rfl

theorem grounded_confirm {x : Waiting} (has : w.Has x.thunk) : Turn.Grounded (t.confirm w x) := by
  unfold Thread.confirm
  split
  · exact grounded_goto world anchored has rfl
  · exact grounded_plan world anchored has rfl (by simp)

theorem grounded_retract {x : Waiting} (has : w.Has x.thunk) : Turn.Grounded (t.retract w x) :=
  grounded_elsewhere world anchored rfl rfl rfl rfl has rfl

theorem grounded_publish {x : Waiting} (has : w.Has x.thunk) (blocked : Bool) :
    Turn.Grounded (t.publish w x blocked) := by
  have next : ∀ {w'} (events : List Event), w'.Grounded → w.Extends w' →
      Turn.Grounded (w', if blocked then
          t.plan ((events ++ [Event.blocked x.thunk (t.me w)]).map .emit) (.suspend x.thunk x.claim)
        else t.plan (events.map .emit) (.force x.thunk x.claim)) := by
    intro w' events world' grown
    split
    · exact grounded_plan world' (anchored.extend grown) (grown.has _ has) rfl (by simp)
    · exact grounded_plan world' (anchored.extend grown) (grown.has _ has) rfl (by simp)
  unfold Thread.publish
  dsimp only
  split
  · exact next [] world (World.Extends.refl w)
  · split
    · rename_i w' exchanged
      obtain ⟨world', grown⟩ := grounded_exchange world (by simp) exchanged
      exact next [_] world' grown
    · exact grounded_plan world anchored has rfl (by simp)

theorem grounded_suspend {claim : Bool} (has : w.Has n) : Turn.Grounded (t.suspend w n claim) :=
  grounded_elsewhere world anchored rfl rfl rfl rfl has rfl

theorem grounded_park {claim : Bool} (has : w.Has n) (at' : t.control = .parked n claim) :
    Turn.Grounded (t.park w n claim) := by
  unfold Thread.park World.takePermit?
  split
  · rename_i w' taken
    split at taken
    · cases taken
      exact grounded_elsewhere world anchored rfl rfl rfl rfl has rfl
    · cases taken
  · split
    · exact grounded_stay world anchored at' has rfl
    · exact grounded_goto world anchored trivial rfl

/-! ## Slots in the hands of host code -/

omit world anchored in
theorem attempt?_ne_value {op : ThunkOp} {me : TaskId} {cell : Option Cell} (v : NodeId) :
    op.attempt? me cell ≠ some (some (.value v)) := by
  unfold ThunkOp.attempt?
  split <;> simp

theorem grounded_probe {op : ThunkOp} (has : w.Has n) : Turn.Grounded (t.probe w op n) := by
  unfold Thread.probe
  split
  · rename_i cell attempted
    refine grounded_goto world anchored ⟨has, fun v is => ?_⟩ rfl
    subst is
    exact absurd attempted (attempt?_ne_value v)
  · exact grounded_yield world anchored trivial

theorem grounded_swap {seen : Slot} {cell : Option Cell}
    (within : ∀ v, cell = some (.value v) → w.Has v) :
    Turn.Grounded (t.exchange w n seen cell) := by
  unfold Thread.exchange
  split
  · rename_i w' exchanged
    obtain ⟨world', grown⟩ := grounded_exchange world within exchanged
    exact grounded_yield world' (anchored.extend grown) trivial
  · exact grounded_yield world anchored trivial

end

theorem grounded_proceed (world : w.Grounded) (grounded : t.Grounded w)
    (looks : t.touches = false) : Turn.Grounded (t.proceed w) := by
  have anchored := grounded.toAnchored
  have within : ∀ {c}, t.control = c → c.In w.Has := fun at' => at' ▸ grounded.control
  unfold Thread.proceed
  cases at' : t.control with
  | run c env => exact grounded_run world anchored (within at')
  | perform p operands env =>
    refine grounded_perform world anchored (fun op n ns is _ => ?_) (within at').1
    subst is
    simp only [Thread.touches, at', Bool.and_eq_false_iff, bne_eq_false_iff_eq] at looks
    exact looks
  | give n => exact grounded_give world anchored (within at') at'
  | fail e => exact grounded_fail world anchored at'
  | unwind message => exact grounded_unwind world anchored at'
  | evaluate n => exact grounded_evaluate world anchored (within at')
  | enter n => exact grounded_enter world anchored (within at')
  | peek n other env =>
    simpa only [Thread.proceed, at'] using
      grounded_peek world anchored (within at').1 (within at').2 at'
  | apply n args =>
    have applied := within at'
    exact grounded_plan world anchored applied rfl (by simp)
  | call n args => exact grounded_call world anchored (within at').1 (within at').2
  | force n claim => exact grounded_force world anchored (within at') claim
  | seize n seen => exact grounded_seize world anchored (within at')
  | start n claim => exact grounded_start world anchored (within at') claim
  | body n claim => exact grounded_body world anchored (within at') claim
  | recheck n claim => exact grounded_recheck world anchored (within at') claim
  | update n v => exact grounded_update world anchored (within at').1 (within at').2
  | install n v seen => exact grounded_install world anchored (within at').1 (within at').2
  | attach n claim => exact grounded_attach world anchored (within at') at'
  | lock n claim owner seen => exact grounded_lock world anchored (within at')
  | gather n claim owner lock => exact grounded_gather world anchored (within at')
  | join n claim q owner => exact grounded_join world anchored (within at')
  | enlist x => exact grounded_enlist world anchored (within at')
  | enrol x => exact grounded_enrol world anchored (within at')
  | confirm x => exact grounded_confirm world anchored (within at')
  | retract x => exact grounded_retract world anchored (within at')
  | enlisted x blocked =>
    have waits := within at'
    exact grounded_detour world anchored waits rfl
  | publish x blocked => exact grounded_publish world anchored (within at') blocked
  | suspend n claim => exact grounded_suspend world anchored (within at')
  | parked n claim => exact grounded_park world anchored (within at') at'
  | probe op n => exact grounded_probe world anchored (within at')
  | exchange n seen cell => exact grounded_swap world anchored (within at').2
  | register r n =>
    exact grounded_register world anchored (grounded.registers r n at') (within at') at'
  | revert r => exact grounded_revert world anchored at'

/-! ## Errands -/

theorem Thread.Grounded.errands (grounded : t.Grounded w) {as : List Action}
    (fewer : ∀ m x, .overwrite m x ∈ as → .overwrite m x ∈ t.agenda) :
    Thread.Grounded w { t with agenda := as } :=
  { grounded with overwrites := fun m x known => grounded.overwrites m x (fewer m x known) }

theorem overwrite_not_mem_afterSurrender {me : TaskId} {seen : Slot} {m : NodeId}
    {x : Option NodeId} : .overwrite m x ∉ afterSurrender me seen := by
  unfold afterSurrender wakeQueue
  cases seen.queue? <;> simp

theorem grounded_errand {a : Action} {as : List Action} (next : t.agenda = a :: as)
    (world : w.Grounded) (grounded : t.Grounded w) :
    Turn.Grounded (a.perform w { t with agenda := as }) := by
  have rest : Thread.Grounded w { t with agenda := as } :=
    grounded.errands fun m x known => by simp [next, known]
  have anchored := rest.toAnchored
  -- worlds that differ where no node is kept
  have done : ∀ {w'} {bs : List Action}, w'.Grounded → w.Extends w' →
      (∀ m x, .overwrite m x ∈ bs → .overwrite m x ∈ t.agenda) →
      Turn.Grounded (w', { t with agenda := bs }) := fun world' grown fewer =>
    ⟨world', (grounded.errands fewer).extend grown⟩
  have old : ∀ m x, .overwrite m x ∈ as → .overwrite m x ∈ t.agenda :=
    fun m x known => by simp [next, known]
  cases a with
  | emit e =>
    obtain ⟨log, same⟩ := w.emit_eq t.context e
    simp only [Action.perform, same]
    exact done (world.of_same rfl rfl rfl world.registers) (World.extends_of_heap rfl) old
  | gate g =>
    simp only [Action.perform]
    split
    · exact done world (World.Extends.refl w) fun m x known => by simpa [next] using known
    · exact grounded_goto world anchored trivial rfl
  | wake u =>
    exact done (world.of_same rfl rfl rfl world.registers) (World.extends_of_heap rfl) old
  | drain q note =>
    refine done (world.of_same rfl rfl rfl world.registers) (World.extends_of_heap rfl) ?_
    intro m x known
    cases note <;> simpa [Note.report, next] using known
  | «seal» q | withdraw q =>
    exact done (world.of_same rfl rfl rfl world.registers) (World.extends_of_heap rfl) old
  | sweep u =>
    exact done world (World.Extends.refl w) fun m x known => by simpa [next] using known
  | examine u todo ready =>
    cases todo with
    | nil => exact done world (World.Extends.refl w) fun m x known => by simpa [next] using known
    | cons q todo =>
      simp only [Action.perform]
      split <;>
        exact done world (World.Extends.refl w) fun m x known => by simpa [next] using known
  | inspect u q todo ready =>
    exact done world (World.Extends.refl w) fun m x known => by simpa [next] using known
  | dismiss u ready =>
    cases ready with
    | nil => exact done world (World.Extends.refl w) old
    | cons q ready =>
      simp only [Action.perform]
      split
      · exact done (world.of_same rfl rfl rfl world.registers) (World.extends_of_heap rfl)
          fun m x known => by simpa [next] using known
      · exact done world (World.Extends.refl w) fun m x known => by simpa [next] using known
  | overwrite n v =>
    obtain ⟨-, has⟩ := grounded.overwrites n v (by simp [next])
    refine done (world.write fun x is => ?_) (World.extends_write _ _) fun m x known => ?_
    · cases v with
      | none => cases is
      | some v => cases is; exact has _ rfl
    · rcases List.mem_append.1 known with new | known
      · cases displaced : (w.slot n).queue? <;> simp [displaced] at new
      · exact old m x known
  | clear n => exact done world.release (World.extends_release n) old
  | abandon n =>
    simp only [Action.perform]
    split
    · exact done world (World.Extends.refl w) fun m x known => by simpa [next] using known
    · exact done world (World.Extends.refl w) old
  | surrender n seen =>
    simp only [Action.perform]
    split
    · rename_i w' exchanged
      obtain ⟨world', grown⟩ := grounded_exchange world (by simp) exchanged
      refine done world' grown fun m x known => ?_
      rcases List.mem_append.1 known with new | known
      · exact absurd new overwrite_not_mem_afterSurrender
      · exact old m x known
    · exact done world (World.Extends.refl w) fun m x known => by simpa [next] using known
  | release r =>
    refine done (world.setRegistry fun m known => ?_) (World.extends_of_heap rfl) old
    simp [Registry.release] at known

theorem grounded_step (world : w.Grounded) (grounded : t.Grounded w)
    (looks : t.touches = false) : Turn.Grounded (t.step w) := by
  unfold Thread.step
  split
  · rename_i a as next
    exact grounded_errand next world grounded
  · exact grounded_proceed world grounded looks

end LazyGraph

import LazyGraph.Proofs.Evolution

/-!
# What becomes of the code of a thunk

Host code builds thunks that can be run, and no step but the clearing of a thunk takes its code
away. So the suspension of a thunk is at any time what it was built with, or that, released.
-/

namespace LazyGraph

namespace World

def suspension? (w : World) (n : NodeId) : Option Suspension :=
  (w.thunk? n).map Thunk.suspension

/-- Suspensions stay as they are, and a thunk that is new has not been released. -/
structure Retains (w w' : World) : Prop where
  kept : ∀ n s, w.suspension? n = some s → w'.suspension? n = some s
  new : ∀ n s, w'.suspension? n = some s → w.suspension? n = some s ∨ s.cleared = false

/-- Besides, registries and names are as they were, and no detour is new. -/
structure Enlarges (w w' : World) : Prop extends Retains w w' where
  registries : w'.registries = w.registries
  names : w'.names = w.names
  detours : ∀ c, (w.context c).detour = none → (w'.context c).detour = none

/-- Besides, no return register is written. -/
structure Grows (w w' : World) : Prop extends Enlarges w w' where
  registers : ∀ c, (w'.context c).registers = (w.context c).registers

variable {w w' w'' : World} {n m : NodeId}

theorem suspension?_congr (same : w'.node? m = w.node? m) : w'.suspension? m = w.suspension? m := by
  simp [suspension?, thunk?, same]

theorem suspension?_eq_some {s : Suspension} :
    w.suspension? n = some s ↔ ∃ th, w.thunk? n = some th ∧ th.suspension = s := by
  simp [suspension?]

theorem thunk?_of_suspension? {s : Suspension} (found : w.suspension? n = some s) :
    (w.thunk? n).isSome := by
  obtain ⟨th, there, -⟩ := suspension?_eq_some.1 found
  simp [there]

theorem Retains.refl (w : World) : w.Retains w :=
  ⟨fun _ _ => id, fun _ _ => .inl⟩

theorem Retains.trans (first : w.Retains w') (second : w'.Retains w'') : w.Retains w'' where
  kept n s known := second.kept n s (first.kept n s known)
  new n s known := by
    rcases second.new n s known with old | whole
    · exact first.new n s old
    · exact .inr whole

theorem retains_of_heap (same : w'.heap = w.heap) : w.Retains w' := by
  have node : ∀ n, w'.suspension? n = w.suspension? n := fun n =>
    suspension?_congr (by rw [node?, node?, same])
  exact ⟨fun n s known => (node n).trans known, fun n s known => .inl ((node n).symm.trans known)⟩

theorem Enlarges.trans (first : w.Enlarges w') (second : w'.Enlarges w'') : w.Enlarges w'' where
  toRetains := first.toRetains.trans second.toRetains
  registries := second.registries.trans first.registries
  names := second.names.trans first.names
  detours c free := second.detours c (first.detours c free)

theorem Grows.refl (w : World) : w.Grows w :=
  ⟨⟨Retains.refl w, rfl, rfl, fun _ => id⟩, fun _ => rfl⟩

theorem Grows.trans (first : w.Grows w') (second : w'.Grows w'') : w.Grows w'' where
  toEnlarges := first.toEnlarges.trans second.toEnlarges
  registers c := (second.registers c).trans (first.registers c)

theorem detours_of_same (contexts : w'.contexts = w.contexts) (c : ContextId)
    (free : (w.context c).detour = none) : (w'.context c).detour = none := by
  rw [context, contexts]
  exact free

theorem registers_of_same (contexts : w'.contexts = w.contexts) (c : ContextId) :
    (w'.context c).registers = (w.context c).registers := by
  rw [context, contexts]
  rfl

theorem grows_of_same (heap : w'.heap = w.heap) (registries : w'.registries = w.registries)
    (names : w'.names = w.names) (contexts : w'.contexts = w.contexts) : w.Grows w' :=
  ⟨⟨retains_of_heap heap, registries, names, detours_of_same contexts⟩,
    registers_of_same contexts⟩

theorem retains_setRegistry (r : String) (registry : Registry) :
    w.Retains (w.setRegistry r registry) :=
  retains_of_heap rfl

theorem grows_assign (x : String) (l : Int64) : w.Grows (w.assign x l) :=
  grows_of_same rfl rfl rfl rfl

theorem enlarges_setContext {c : ContextId} {context : Context}
    (detour : (w.context c).detour = none → context.detour = none) :
    w.Enlarges (w.setContext c context) where
  toRetains := retains_of_heap rfl
  registries := rfl
  names := rfl
  detours d free := by
    rw [context_setContext]
    split
    · rename_i same
      exact detour (same.1 ▸ free)
    · exact free

theorem registers_setContext {c : ContextId} {context : Context}
    (registers : context.registers = (w.context c).registers) (d : ContextId) :
    ((w.setContext c context).context d).registers = (w.context d).registers := by
  rw [context_setContext]
  split
  · rename_i same
    rw [same.1, registers]
  · rfl

theorem grows_setContext {c : ContextId} {context : Context}
    (detour : (w.context c).detour = none → context.detour = none)
    (registers : context.registers = (w.context c).registers) :
    w.Grows (w.setContext c context) where
  toEnlarges := enlarges_setContext detour
  registers := registers_setContext registers

theorem retains_alloc {node : Node} (whole : ∀ th, node = .thunk th → th.suspension.cleared = false) :
    w.Retains (w.alloc node).1 where
  kept n s known := by
    obtain ⟨th, there, -⟩ := suspension?_eq_some.1 known
    have other : n ≠ w.heap.size := Nat.ne_of_lt (lt_of_node? (thunk?_eq_some.1 there))
    rw [← known]
    exact suspension?_congr (by simp [node?_alloc, other])
  new n s known := by
    by_cases same : n = w.heap.size
    · obtain ⟨th, there, rfl⟩ := suspension?_eq_some.1 known
      rw [thunk?_eq_some, node?_alloc, if_pos same] at there
      exact .inr (whole th (Option.some.inj there))
    · rw [← known]
      exact .inl (suspension?_congr (by simp [node?_alloc, same])).symm

theorem grows_value (v : Value) : w.Grows (w.alloc (.value v)).1 :=
  ⟨⟨retains_alloc fun _ is => (nomatch is), rfl, rfl, fun _ => id⟩, fun _ => rfl⟩

theorem grows_thunk {s : Suspension} (whole : s.cleared = false) :
    w.Grows (w.alloc (.thunk ⟨s, {}⟩)).1 :=
  ⟨⟨retains_alloc fun th is => by cases is; exact whole, rfl, rfl, fun _ => id⟩, fun _ => rfl⟩

@[simp] theorem suspension?_write (cell : Option Cell) :
    (w.write n cell).suspension? m = w.suspension? m :=
  suspension_write cell m

theorem grows_write (n : NodeId) (cell : Option Cell) : w.Grows (w.write n cell) where
  kept m s known := by simpa using known
  new m s known := .inl (by simpa using known)
  registries := by
    unfold write
    split <;> rfl
  names := by
    unfold write
    split <;> rfl
  detours := detours_of_same (contexts_write cell)
  registers := registers_of_same (contexts_write cell)

theorem suspension?_release :
    (w.release n).suspension? m =
      if m = n then (w.suspension? m).map Suspension.clear else w.suspension? m := by
  rw [suspension?, thunk?, node?_release]
  cases found : w.thunk? n with
  | none =>
    by_cases same : m = n
    · subst same
      simp [suspension?, ← thunk?.eq_def, found]
    · simp [suspension?, same, thunk?]
  | some th =>
    by_cases same : m = n
    · subst same
      simp [suspension?, found, Node.thunk?]
    · simp [suspension?, same, thunk?]

theorem grows_emit (c : ContextId) (e : Event) : w.Grows (w.emit c e) := by
  obtain ⟨log, same⟩ := w.emit_eq c e
  rw [same]
  exact grows_of_same rfl rfl rfl rfl

theorem grows_push {q : QueueId} {message : Message} (pushed : w.push? q message = some w') :
    w.Grows w' := by
  obtain ⟨queues, Q, rfl, -⟩ := push?_eq_some pushed
  exact grows_of_same rfl rfl rfl rfl

theorem grows_christen (k : CapabilityId) (q : QueueId) : w.Grows (w.christen k q) := by
  unfold christen
  split
  · split
    · exact Grows.refl w
    · exact grows_of_same rfl rfl rfl rfl
  · exact Grows.refl w

theorem grows_exchange {seen : Slot} {cell : Option Cell}
    (exchanged : w.exchange? n seen cell = some w') : w.Grows w' := by
  unfold exchange? at exchanged
  split at exchanged
  · obtain rfl := Option.some.inj exchanged
    exact grows_write n cell
  · cases exchanged

end World

/-! ## Host code -/

namespace Thread

variable {w w' : World} {t : Thread} {n : NodeId}

theorem grows_yield (grows : w.Grows w') (v : Value) : w.Grows (t.yield w' v).1 :=
  grows.trans (World.grows_value v)

theorem grows_giveField (field : Except GraphError Field) :
    w.Grows (t.giveField w field).1 := by
  unfold giveField
  split
  · exact World.Grows.refl w
  · exact grows_yield (World.Grows.refl w) _
  · exact World.Grows.refl w

theorem grows_withArgs (env : Env) (f : List Arg → Value) :
    w.Grows (t.withArgs w env f).1 := by
  unfold withArgs
  split
  · exact grows_yield (World.Grows.refl w) _
  · exact World.Grows.refl w

theorem grows_readRegister (kind : FieldKind) : w.Grows (t.readRegister w kind).1 := by
  unfold readRegister
  dsimp only
  split
  · exact grows_yield (World.Grows.refl w) _
  · exact World.Grows.refl w
  · exact World.Grows.refl w

theorem grows_onThunk (op : ThunkOp) (v : Option NodeId) :
    w.Grows (t.onThunk w op n v).1 := by
  have same := World.Grows.refl w
  unfold onThunk
  split
  · exact same
  · split <;> first | exact same | exact World.grows_value _

theorem grows_perform (p : Prim) (operands : List NodeId) (env : Env) :
    w.Grows (t.perform w p operands env).1 := by
  have same := World.Grows.refl w
  have yields := fun v => grows_yield (t := t) same v
  cases p with
  | box v | data tag layout | sum | difference | product | read x | gate g | depth =>
    exact yields _
  | application | selector kind index =>
    cases operands with
    | nil => exact same
    | cons f args => exact World.grows_thunk rfl
  | bytecode code =>
    simp only [perform]
    split
    · exact same
    · exact yields _
  | evaluate | enter | blackHole | apply => cases operands <;> exact same
  | less =>
    rcases operands with _ | ⟨a, _ | ⟨b, rest⟩⟩
    · exact same
    · exact same
    · exact yields _
  | last =>
    simp only [perform]
    split
    · exact same
    · exact yields _
  | raise message | panic message | revert r => exact same
  | increment x => exact grows_yield (World.grows_assign _ _) _
  | shape | count => exact grows_withArgs _ _
  | register kind => exact grows_readRegister kind
  | onThunk op =>
    cases operands with
    | nil => exact same
    | cons n rest => exact grows_onThunk op rest.head?
  | field kind index =>
    cases operands with
    | nil => exact same
    | cons n rest =>
      simp only [perform]
      split
      · exact grows_giveField _
      · exact same

theorem grows_run (c : Code) (env : Env) : w.Grows (t.run w c env).1 := by
  have same := World.Grows.refl w
  cases c with
  | captured x | named x =>
    simp only [run]
    split <;> exact same
  | arg i up =>
    simp only [run]
    split
    · exact same
    · split
      · exact same
      · exact same
      · exact grows_yield same _
  | suspend body | constant r body => exact World.grows_thunk rfl
  | lambda name arity body => exact grows_yield same _
  | prim p operands =>
    cases operands with
    | nil => exact grows_perform p [] env
    | cons c cs => exact same
  | branch scrutinee yes no => exact same
  | probe subject other => exact same
  | recover body handler => exact same

theorem grows_call (args : List Arg) : w.Grows (t.call w n args).1 := by
  have same := World.Grows.refl w
  unfold call
  split
  · split <;> exact same
  · unfold callFunction
    dsimp only
    split
    · exact same
    · split <;> exact same
  · split <;> exact same
  · exact same
  · exact same

theorem grows_leave : w.Grows (t.leave w n) :=
  World.grows_setContext id rfl

theorem enlarges_project (kind : FieldKind) (index : Nat) (producer : NodeId) :
    w.Enlarges (t.project w kind index producer n).1 := by
  unfold project
  dsimp only
  split
  · split
    · exact (World.Grows.refl w).toEnlarges
    · exact World.enlarges_setContext id
    · refine (World.enlarges_setContext ?_).trans (World.grows_value _).toEnlarges
      exact id
  · exact (World.Grows.refl w).toEnlarges
  · exact (World.Grows.refl w).toEnlarges

theorem grows_give (registers : ∀ kind index p rest, t.stack ≠ .project kind index p :: rest) :
    w.Grows (t.give w n).1 := by
  have same := World.Grows.refl w
  unfold give
  split
  · exact same
  · rename_i frame stack top
    cases frame with
    | operands p done rest env => cases rest <;> exact same
    | project kind index producer => exact absurd top (registers kind index producer stack)
    | leaving thunk => exact grows_leave
    | _ => exact same

theorem grows_fail (e : GraphError) : w.Grows (t.fail w e).1 := by
  unfold fail
  split
  · exact World.Grows.refl w
  · rename_i frame stack top
    cases frame with
    | running n claim | settling n claim | leaving n => exact grows_leave
    | _ => exact World.Grows.refl w

theorem grows_unwind (message : String) : w.Grows (t.unwind w message).1 := by
  unfold unwind
  split
  · exact World.Grows.refl w
  · rename_i frame stack top
    cases frame with
    | running n claim | settling n claim | leaving n => exact grows_leave
    | _ => exact World.Grows.refl w

/-! ## Forcing and waiting -/

theorem grows_body (claim : Bool) : w.Grows (t.body w n claim).1 := by
  unfold body
  dsimp only
  split <;> first | exact World.Grows.refl w | exact grows_leave

theorem grows_detour (afterwards : Bool) (next : Control) :
    w.Grows (t.detour w afterwards next).1 := by
  unfold detour
  dsimp only
  split
  · split
    · exact World.grows_setContext (fun _ => rfl) rfl
    · exact World.Grows.refl w
  · exact World.Grows.refl w

theorem grows_publish (x : Waiting) (blocked : Bool) :
    w.Grows (t.publish w x blocked).1 := by
  unfold publish
  dsimp only
  split
  · exact World.Grows.refl w
  · split
    · rename_i exchanged
      exact World.grows_exchange exchanged
    · exact World.Grows.refl w

theorem grows_park (claim : Bool) : w.Grows (t.park w n claim).1 := by
  unfold park World.takePermit?
  split
  · rename_i taken
    split at taken
    · obtain rfl := Option.some.inj taken
      exact World.grows_of_same rfl rfl rfl rfl
    · cases taken
  · exact World.Grows.refl w

theorem grows_proceed (registers : ∀ r n, t.control ≠ .register r n)
    (reverts : ∀ r, t.control ≠ .revert r)
    (projects : ∀ n kind index p rest, t.control = .give n → t.stack ≠ .project kind index p :: rest) :
    w.Grows (t.proceed w).1 := by
  have same := World.Grows.refl w
  unfold proceed
  cases at' : t.control with
  | run c env => exact grows_run c env
  | perform p operands env => exact grows_perform p operands env
  | give n => exact grows_give fun kind index p rest => projects n kind index p rest at'
  | fail e => exact grows_fail e
  | unwind message => exact grows_unwind message
  | call n args => exact grows_call args
  | register r n => exact absurd at' (registers r n)
  | revert r => exact absurd at' (reverts r)
  | body n claim => exact grows_body claim
  | publish x blocked => exact grows_publish x blocked
  | enlisted x blocked => exact grows_detour _ _
  | enlist x => exact (World.grows_christen _ _).trans (grows_detour _ _)
  | parked n claim => exact grows_park claim
  | enrol x | retract x | suspend n claim | gather n claim owner lock =>
    exact World.grows_of_same rfl rfl rfl rfl
  | apply n args => exact same
  | evaluate n | enter n | peek n other env | update n v | recheck n claim | confirm x =>
    simp only [evaluate, enter, update, recheck, confirm]
    split <;> exact same
  | force n claim =>
    simp only [force]
    split
    · exact same
    · exact same
    · split <;> exact same
  | attach n claim =>
    simp only [attach]
    split
    · exact same
    · exact same
    · split <;> exact same
    · exact same
    · split <;> exact same
  | start n claim =>
    simp only [start]
    split
    · exact World.grows_setContext id rfl
    · exact same
  | seize n seen | install n v seen | lock n claim owner seen =>
    simp only [seize, install, lock]
    split
    · rename_i exchanged
      exact World.grows_exchange exchanged
    · exact same
  | join n claim q owner =>
    simp only [join]
    split
    · rename_i pushed
      exact World.grows_push pushed
    · exact same
  | probe op n =>
    simp only [probe]
    split
    · exact same
    · exact grows_yield same _
  | exchange n seen cell =>
    simp only [exchange]
    split
    · rename_i exchanged
      exact grows_yield (World.grows_exchange exchanged) _
    · exact grows_yield same _

end Thread

/-! ## Steps -/

variable {w : World} {t : Thread}

theorem Action.grows_perform {a : Action} (clears : ∀ n, a ≠ .clear n)
    (releases : ∀ r, a ≠ .release r) : w.Grows (a.perform w t).1 := by
  have same := World.Grows.refl w
  cases a with
  | clear n => exact absurd rfl (clears n)
  | release r => exact absurd rfl (releases r)
  | emit e => exact World.grows_emit _ _
  | wake u | drain q note | «seal» q | withdraw q => exact World.grows_of_same rfl rfl rfl rfl
  | overwrite n v => exact World.grows_write _ _
  | sweep u => exact same
  | gate g =>
    simp only [perform]
    split <;> exact same
  | examine u todo ready =>
    cases todo with
    | nil => exact same
    | cons q todo =>
      simp only [perform]
      split <;> exact same
  | inspect u q todo ready => exact same
  | dismiss u ready =>
    cases ready with
    | nil => exact same
    | cons q ready =>
      simp only [perform]
      split
      · exact World.grows_of_same rfl rfl rfl rfl
      · exact same
  | abandon n =>
    simp only [perform]
    split <;> exact same
  | surrender n seen =>
    simp only [perform]
    split
    · rename_i exchanged
      exact World.grows_exchange exchanged
    · exact same

/-- What a step of a thread does to thunks and registries. -/
inductive Growth (w : World) (t : Thread) : World → Prop
  | grows {w'} (grows : w.Grows w') : Growth w t w'
  | project {n kind index p rest} (idle : t.agenda = []) (at' : t.control = .give n)
    (top : t.stack = .project kind index p :: rest)
    (enlarges : w.Enlarges (({ t with stack := rest } : Thread).project w kind index p n).1) :
    Growth w t (({ t with stack := rest } : Thread).project w kind index p n).1
  | clear {n as} (next : t.agenda = .clear n :: as) : Growth w t (w.release n)
  | release {r as} (next : t.agenda = .release r :: as) :
    Growth w t (w.setRegistry r (w.registry r).release)
  | register {r n} (idle : t.agenda = []) (at' : t.control = .register r n)
    (free : (w.registry r).busy = false) : Growth w t (w.setRegistry r ((w.registry r).record n))
  | revert {w' r} (idle : t.agenda = []) (at' : t.control = .revert r)
    (grows : (w.setRegistry r (w.registry r).lock).Grows w') (free : (w.registry r).busy = false) :
    Growth w t w'

theorem growth_perform {a : Action} {as : List Action} (next : t.agenda = a :: as) :
    Growth w t (a.perform w { t with agenda := as }).1 := by
  by_cases clears : ∃ n, a = .clear n
  · obtain ⟨n, rfl⟩ := clears
    exact .clear next
  · by_cases releases : ∃ r, a = .release r
    · obtain ⟨r, rfl⟩ := releases
      exact .release next
    · exact .grows (Action.grows_perform (fun n is => clears ⟨n, is⟩) fun r is => releases ⟨r, is⟩)

theorem growth_register {r : String} {n : NodeId} (idle : t.agenda = [])
    (at' : t.control = .register r n) : Growth w t (t.register w r n).1 := by
  unfold Thread.register
  dsimp only
  split
  · exact .grows (World.Grows.refl w)
  · rename_i free
    exact .register idle at' (by simpa using free)

theorem growth_revert {r : String} (idle : t.agenda = []) (at' : t.control = .revert r) :
    Growth w t (t.revert w r).1 := by
  unfold Thread.revert
  dsimp only
  split
  · exact .grows (World.Grows.refl w)
  · rename_i free
    exact .revert idle at' (World.grows_value _) (by simpa using free)

theorem growth_step (w : World) (t : Thread) : Growth w t (t.step w).1 := by
  unfold Thread.step
  split
  · rename_i a as next
    exact growth_perform next
  · rename_i idle
    by_cases registers : ∃ r n, t.control = .register r n
    · obtain ⟨r, n, at'⟩ := registers
      simpa [Thread.proceed, at'] using growth_register idle at'
    · by_cases reverts : ∃ r, t.control = .revert r
      · obtain ⟨r, at'⟩ := reverts
        simpa [Thread.proceed, at'] using growth_revert idle at'
      · by_cases projects : ∃ n kind index p rest, t.control = .give n ∧
            t.stack = .project kind index p :: rest
        · obtain ⟨n, kind, index, p, rest, at', top⟩ := projects
          simpa [Thread.proceed, at', Thread.give, top] using
            Growth.project idle at' top (Thread.enlarges_project kind index p)
        · exact .grows (Thread.grows_proceed (fun r n at' => registers ⟨r, n, at'⟩)
            (fun r at' => reverts ⟨r, at'⟩)
            fun n kind index p rest at' top => projects ⟨n, kind, index, p, rest, at', top⟩)

theorem Growth.suspensions {w' : World} (growth : Growth w t w') :
    w.Retains w' ∨ ∃ n as, t.agenda = .clear n :: as ∧ w' = w.release n := by
  cases growth with
  | grows grows => exact .inl grows.toRetains
  | project _ _ _ enlarges => exact .inl enlarges.toRetains
  | clear next => exact .inr ⟨_, _, next, rfl⟩
  | release | register => exact .inl (World.retains_setRegistry _ _)
  | revert _ _ grows => exact .inl ((World.retains_setRegistry _ _).trans grows.toRetains)

/-! ## Runs -/

namespace Suspension

/-- How the evaluation of a thunk starts: with these frames on top of its update frame, and with
this control. -/
def opening? : Suspension → Option (List Frame × Control)
  | updatable (some (code, env)) | constant (code, env) => some ([], .run code env)
  | application (some (f, [])) => some ([], .evaluate f)
  | application (some (f, args)) => some ([], .apply f (args.map .pointer))
  | selector kind (some (index, producer)) =>
    some ([.project kind index producer], .evaluate producer)
  | _ => none

variable {s : Suspension}

@[simp] theorem clear_clear (s : Suspension) : s.clear.clear = s.clear := by
  cases s <;> rfl

@[simp] theorem isConstant_clear (s : Suspension) : s.clear.isConstant = s.isConstant := by
  cases s <;> rfl

theorem clear_of_isConstant (constant : s.isConstant = true) : s.clear = s := by
  cases s <;> first | rfl | cases constant

theorem clear_of_cleared (cleared : s.cleared = true) : s.clear = s := by
  cases s with
  | updatable source | application source | selector kind source =>
    cases source <;> first | rfl | cases cleared
  | constant code => rfl

theorem cleared_clear (shrinks : s.isConstant = false) : s.clear.cleared = true := by
  cases s <;> first | rfl | cases shrinks

theorem isCalm_of_opening {fs : List Frame} {c : Control} (opening : s.opening? = some (fs, c)) :
    c.isCalm := by
  unfold opening? at opening
  split at opening <;> cases opening <;> rfl

theorem opening?_isSome : s.opening?.isSome = !s.cleared := by
  cases s with
  | updatable code => cases code <;> rfl
  | application call =>
    rcases call with _ | ⟨f, _ | ⟨a, as⟩⟩ <;> rfl
  | selector kind source => cases source <;> rfl
  | constant code => rfl

end Suspension

theorem Thread.body_of_opening {n : NodeId} {claim : Bool} {s : Suspension} {fs : List Frame}
    {c : Control} (found : w.suspension? n = some s) (opening : s.opening? = some (fs, c)) :
    t.body w n claim = (w, { t with stack := fs ++ .running n claim :: t.stack, control := c }) := by
  have found' : (w.thunk? n).map Thunk.suspension = some s := found
  unfold Thread.body
  rw [found']
  cases s with
  | updatable code =>
    cases code with
    | none => cases opening
    | some x => cases opening; rfl
  | application call =>
    rcases call with _ | ⟨f, _ | ⟨a, as⟩⟩
    · cases opening
    · cases opening; rfl
    · cases opening
      simp only [Thread.push, Control.applyStored_eq]
      rfl
  | selector kind source =>
    cases source with
    | none => cases opening
    | some x => cases opening; rfl
  | constant x => cases opening; rfl

theorem Thread.body_of_cleared {n : NodeId} {claim : Bool} {s : Suspension}
    (found : w.suspension? n = some s) (cleared : s.cleared = true) :
    t.body w n claim = (t.leave w n, t.plan (giveUp n claim) (.recheck n claim)) := by
  have found' : (w.thunk? n).map Thunk.suspension = some s := found
  unfold Thread.body
  rw [found']
  cases s with
  | updatable source | application source | selector kind source =>
    cases source <;> first | rfl | cases cleared
  | constant x => cases cleared

/-- The evaluation of a thunk that has begun runs the code of the thunk, or is given up if there is
none. -/
theorem Thread.body_cases (w : World) (t : Thread) (n : NodeId) (claim : Bool) :
    t.body w n claim = (t.leave w n, t.plan (giveUp n claim) (.recheck n claim)) ∨
      ∃ s fs c, w.suspension? n = some s ∧ s.opening? = some (fs, c) ∧ t.body w n claim =
        (w, { t with stack := fs ++ .running n claim :: t.stack, control := c }) := by
  cases found : w.suspension? n with
  | none =>
    have nothing : (w.thunk? n).map Thunk.suspension = none := found
    left
    simp only [Thread.body, nothing, giveUp]
  | some s =>
    cases opening : s.opening? with
    | none =>
      have cleared : s.cleared = true := by
        simpa [opening] using (Suspension.opening?_isSome (s := s)).symm
      exact .inl (Thread.body_of_cleared found cleared)
    | some o => exact .inr ⟨s, o.1, o.2, rfl, opening, Thread.body_of_opening found opening⟩

/-- What comes from outside are thunks that can be run. -/
def Move.isWhole : Move → Bool
  | .suspend s => !s.cleared
  | _ => true

def Run.Whole (run : Run) : Prop :=
  ∀ k, (run.move k).isWhole = true

theorem State.suspensions_after (s : State) (m : Move) (whole : m.isWhole = true) :
    s.world.Retains (s.after m).world ∨ ∃ i t n as, m = .step i ∧ s.threads[i]? = some t ∧
      t.agenda = .clear n :: as ∧ (s.after m).world = s.world.release n := by
  cases m with
  | step i =>
    cases found : s.threads[i]? with
    | none =>
      refine .inl ?_
      simp only [State.after, State.step, found]
      exact World.Retains.refl _
    | some t =>
      have same : (s.after (.step i)).world = (t.step s.world).1 := (State.own_step found).1
      rw [same]
      rcases (growth_step s.world t).suspensions with retains | ⟨n, as, next, cleared⟩
      · exact .inl retains
      · exact .inr ⟨i, t, n, as, rfl, found, next, cleared⟩
  | build v => exact .inl (World.grows_value v).toRetains
  | suspend c => exact .inl (World.grows_thunk (by simpa [Move.isWhole] using whole)).toRetains
  | _ => exact .inl (World.retains_of_heap rfl)

namespace Run

variable {run : Run} {n : NodeId} {s : Suspension}

theorem suspensions (whole : run.Whole) (k : Nat) :
    (run.state k).world.Retains (run.state (k + 1)).world ∨
      ∃ i t n as, run.move k = .step i ∧ (run.state k).threads[i]? = some t ∧
        t.agenda = .clear n :: as ∧
        (run.state (k + 1)).world = (run.state k).world.release n :=
  (run.state k).suspensions_after (run.move k) (whole k)

/-- A thunk keeps its suspension, whole or released. -/
theorem suspension_kept (whole : run.Whole) {j k : Nat} (le : j ≤ k)
    (found : (run.state j).world.suspension? n = some s) :
    (run.state k).world.suspension? n = some s ∨
      (run.state k).world.suspension? n = some s.clear := by
  induction le with
  | refl => exact .inl found
  | @step k le ih =>
    rcases run.suspensions whole k with retains | ⟨i, t, m, as, -, -, -, released⟩
    · exact ih.imp (retains.kept n s) (retains.kept n s.clear)
    · rw [released, World.suspension?_release]
      by_cases same : n = m
      · subst same
        rcases ih with ih | ih <;> simp [ih]
      · simpa [same] using ih

theorem cleared_kept (whole : run.Whole) {j k : Nat} (le : j ≤ k)
    (found : (run.state j).world.suspension? n = some s) (cleared : s.cleared = true) :
    (run.state k).world.suspension? n = some s := by
  have same := Suspension.clear_of_cleared cleared
  rcases run.suspension_kept whole le found with kept | kept
  · exact kept
  · rwa [same] at kept

theorem constant_kept (whole : run.Whole) {j k : Nat} (le : j ≤ k)
    (found : (run.state j).world.suspension? n = some s) (constant : s.isConstant = true) :
    (run.state k).world.suspension? n = some s := by
  have same := Suspension.clear_of_isConstant constant
  rcases run.suspension_kept whole le found with kept | kept
  · exact kept
  · rwa [same] at kept

end Run

end LazyGraph

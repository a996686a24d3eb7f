import LazyGraph.Proofs.Selections

/-!
# Steps that concern one thunk only

Apart from the code of a thunk and the evaluation of its result, all that a thread does when it
forces a thunk is done to this thunk, to the update stack of the context, and to the log.
-/

namespace LazyGraph

variable {w w' : World} {t : Thread} {n : NodeId} {c : ContextId} {r : Nat} {th : Thunk}

/-! ## The rest of the world -/

namespace World

/-- The world apart from what thunk `n` holds, from the update stack of context `c`, and from the
log. -/
def apart (n : NodeId) (c : ContextId) (w : World) : World :=
  { w with
    heap := w.heap.setIfInBounds n (.thunk ⟨.updatable none, {}⟩)
    contexts := w.contexts.modify c fun context => { context with stack := {} }
    log := {} }

theorem apart_setThunk (th : Thunk) : (w.setThunk n th).apart n c = w.apart n c := by
  simp [apart, setThunk]

theorem apart_write (cell : Option Cell) : (w.write n cell).apart n c = w.apart n c := by
  unfold write
  split
  · exact apart_setThunk _
  · rfl

theorem apart_release : (w.release n).apart n c = w.apart n c := by
  unfold release
  split
  · exact apart_setThunk _
  · rfl

theorem apart_emit (d : ContextId) (e : Event) : (w.emit d e).apart n c = w.apart n c := by
  obtain ⟨log, same⟩ := w.emit_eq d e
  rw [same]
  rfl

theorem apart_exchange {seen : Slot} {cell : Option Cell}
    (exchanged : w.exchange? n seen cell = some w') : w'.apart n c = w.apart n c := by
  unfold exchange? at exchanged
  split at exchanged
  · cases exchanged
    exact apart_write cell
  · cases exchanged

theorem apart_setStack (stack : UpdateStack) :
    (w.setContext c { w.context c with stack }).apart n c = w.apart n c := by
  have contexts : (w.setContext c { w.context c with stack }).contexts.modify c
      (fun context => { context with stack := {} }) =
        w.contexts.modify c fun context => { context with stack := {} } := by
    apply Array.ext_getElem?
    intro d
    simp only [setContext, Array.getElem?_modify, Array.getElem?_setIfInBounds]
    by_cases same : c = d
    · subst same
      by_cases bound : c < w.contexts.size
      · simp [context, bound]
      · simp [bound]
    · simp [same]
  rw [apart, contexts]
  rfl

end World

theorem Thread.apart_leave : (t.leave w n).apart n t.context = w.apart n t.context :=
  World.apart_setStack _

/-! ## Steps -/

def Action.minds (n : NodeId) : Action → Bool
  | .emit _ => true
  | .abandon m | .surrender m _ | .clear m => m == n
  | _ => false

def Control.minds (n : NodeId) : Control → Bool
  | .evaluate _ | .enter _ | .perform .blackHole _ _ => true
  | .force m _ | .seize m _ | .start m _ | .body m _ | .update m _ | .install m _ _ => m == n
  | _ => false

/-- Whether the outcome of what is above the frame is dealt with without looking elsewhere. -/
def Frame.minds (n : NodeId) (c : Control) : Frame → Bool
  | .again => c.isOutcome
  | .project _ _ _ => c.isExit
  | .running m _ | .settling m _ | .leaving m => m == n && c.isOutcome
  | _ => false

/-- Whether the next step of the thread concerns no thunk but `n`, and runs no code. -/
def Thread.minds (n : NodeId) (t : Thread) : Bool :=
  match t.agenda with
  | a :: _ => a.minds n
  | [] => t.control.minds n || t.stack.head?.any (·.minds n t.control)

theorem Action.apart_perform {a : Action} (minds : a.minds n) :
    (a.perform w t).1.apart n c = w.apart n c := by
  cases a with
  | emit e => exact World.apart_emit _ _
  | clear m =>
    obtain rfl : m = n := by simpa [Action.minds] using minds
    exact World.apart_release
  | abandon m =>
    simp only [Action.perform]
    split <;> rfl
  | surrender m seen =>
    obtain rfl : m = n := by simpa [Action.minds] using minds
    simp only [Action.perform]
    split
    · rename_i exchanged
      exact World.apart_exchange exchanged
    · rfl
  | _ => cases minds

theorem Thread.apart_control (minds : t.control.minds n) :
    (t.proceed w).1.apart n t.context = w.apart n t.context := by
  unfold Thread.proceed
  cases at' : t.control with
  | evaluate m =>
    simp only [Thread.evaluate]
    split <;> rfl
  | enter m =>
    simp only [Thread.enter]
    split <;> rfl
  | perform p operands env =>
    rw [at'] at minds
    cases p with
    | blackHole =>
      cases operands <;> rfl
    | _ => cases minds
  | force m claim =>
    simp only [Thread.force]
    split
    · rfl
    · rfl
    · split <;> rfl
  | seize m seen =>
    obtain rfl : m = n := by simpa [at', Control.minds] using minds
    simp only [Thread.seize]
    split
    · rename_i exchanged
      exact World.apart_exchange exchanged
    · rfl
  | start m claim =>
    simp only [Thread.start]
    split
    · exact World.apart_setStack _
    · rfl
  | body m claim =>
    obtain rfl : m = n := by simpa [at', Control.minds] using minds
    simp only [Thread.body]
    split <;> first | rfl | exact Thread.apart_leave
  | update m v =>
    simp only [Thread.update]
    split <;> rfl
  | install m v seen =>
    obtain rfl : m = n := by simpa [at', Control.minds] using minds
    simp only [Thread.install]
    split
    · rename_i exchanged
      exact World.apart_exchange exchanged
    · rfl
  | _ =>
    rw [at'] at minds
    cases minds

theorem Thread.apart_outcome {f : Frame} {rest : List Frame} (top : t.stack = f :: rest)
    (minds : f.minds n t.control) : (t.proceed w).1.apart n t.context = w.apart n t.context := by
  have leave : ∀ {u : Thread}, u.context = t.context →
      (u.leave w n).apart n t.context = w.apart n t.context := fun same => same ▸ Thread.apart_leave
  unfold Thread.proceed
  cases at' : t.control <;> cases f <;>
    simp_all [Frame.minds, Control.isOutcome, Control.isExit, Thread.give, Thread.fail,
      Thread.unwind]

theorem Thread.apart_step (minds : t.minds n) :
    (t.step w).1.apart n t.context = w.apart n t.context := by
  unfold Thread.minds at minds
  unfold Thread.step
  cases next : t.agenda with
  | cons a as =>
    rw [next] at minds
    exact Action.apart_perform minds
  | nil =>
    rw [next] at minds
    rcases Bool.or_eq_true_iff.1 minds with minds | minds
    · exact Thread.apart_control minds
    · cases stack : t.stack with
      | nil => simp [stack] at minds
      | cons f rest => exact Thread.apart_outcome stack (by simpa [stack] using minds)

/-! ## Phases -/

section

variable {S : Suspension} {fs base rest : List Frame} {claim : Bool} {v m : NodeId} {k : Control}
  {me : TaskId}

theorem Opening.minds (phase : Opening n S fs k base me r th t.agenda t.control t.stack)
    (left : r ≠ 0) : t.minds n := by
  unfold Thread.minds
  generalize t.agenda = agenda, t.control = control, t.stack = stack at phase
  cases phase <;> first | exact absurd rfl left | simp [Action.minds, Control.minds]

theorem Yielding.minds (phase : Yielding n S k rest me r th t.agenda t.control t.stack)
    (left : r ≠ 0) : t.minds n := by
  unfold Thread.minds
  generalize t.agenda = agenda, t.control = control, t.stack = stack at phase
  cases phase <;> first | exact absurd rfl left | simp [Action.minds]

theorem Failing.minds (exit : k.isExit)
    (phase : Failing n S claim k base me r th t.agenda t.control t.stack) (left : r ≠ 0) :
    t.minds n := by
  have outcome := Control.isOutcome_of_isExit exit
  generalize next : t.agenda = agenda at phase
  generalize at' : t.control = control at phase
  generalize stack : t.stack = fs at phase
  cases phase with
  | projecting => simp [Thread.minds, next, at', stack, Frame.minds, exit]
  | dropping evaluates =>
    rcases evaluates with rfl | rfl <;>
      simp [Thread.minds, next, at', stack, Frame.minds, outcome]
  | @yielding r _ _ _ _ rest phase _ =>
    have phase' : Yielding n S k rest me (r + 1) th t.agenda t.control t.stack := by
      rw [next, at', stack]
      exact phase
    exact phase'.minds (Nat.succ_ne_zero r)
  | above => simp [Thread.minds, next, at', stack, Frame.minds, outcome]
  | back => exact absurd rfl left

theorem Installing.minds (phase : Installing n S claim v rest me r th t.agenda t.control t.stack)
    (left : r ≠ 0) : t.minds n := by
  unfold Thread.minds
  generalize t.agenda = agenda, t.control = control, t.stack = stack at phase
  cases phase <;> first
    | exact absurd rfl left
    | simp [Action.minds, Control.minds, Frame.minds, Control.isOutcome]

theorem Settling.minds (phase : Settling n S claim v base me r th t.agenda t.control t.stack)
    (left : r ≠ 0) : t.minds n := by
  generalize next : t.agenda = agenda at phase
  generalize at' : t.control = control at phase
  generalize stack : t.stack = fs at phase
  cases phase with
  | @installing r _ _ _ _ rest phase _ =>
    have phase' : Installing n S claim v rest me (r + 1) th t.agenda t.control t.stack := by
      rw [next, at', stack]
      exact phase
    exact phase'.minds (Nat.succ_ne_zero r)
  | back => exact absurd rfl left
  | _ => simp [Thread.minds, next, at', stack, Control.minds, Frame.minds, Control.isOutcome]

theorem Handing.minds (phase : Handing n S claim m base me r th t.agenda t.control t.stack)
    (left : r ≠ 0) : t.minds n := by
  unfold Thread.minds
  generalize t.agenda = agenda, t.control = control, t.stack = stack at phase
  cases phase with
  | given => simp [Frame.minds, Control.isOutcome]
  | evaluate => exact absurd rfl left

end

/-! ## Runs -/

namespace Run

variable {run : Run} {i : ThreadId} {a b : Nat}

/-- From `a` to `b`, the steps of thread `i` change nothing but thunk `n`, the update stack of
context `c` and the log. -/
def Confined (run : Run) (i : ThreadId) (n : NodeId) (c : ContextId) (a b : Nat) : Prop :=
  ∀ k < b, a ≤ k → run.move k = .step i →
    (run.state (k + 1)).world.apart n c = (run.state k).world.apart n c

theorem Passes.confined {Φ : Phase} {registers : Registers} {Q : World → Prop}
    (passes : run.Passes i (Φ.At n registers Q) c a b)
    (minds : ∀ (t : Thread) me r th, Φ me r th t.agenda t.control t.stack → r ≠ 0 → t.minds n) :
    run.Confined i n c a b := by
  intro k lt le turn
  obtain ⟨u, r, there, rfl, ⟨-, -, th, -, phase⟩, left⟩ := passes k lt le
  rw [(run.own_step turn there).1]
  exact Thread.apart_step (minds u (u.me (run.state k).world) r th phase left)

end Run

end LazyGraph

import LazyGraph.Proofs.Deadlock

/-!
# Re-entered thunks

A thread that asks for a thunk under its own evaluation gets the loop error at once, unless another
task has claimed the thunk. Then it waits.
-/

namespace LazyGraph

/-- Slots hold what they held; queues, free variables, tasks and update stacks are as before. -/
structure World.Alike (w w' : World) : Prop where
  cells : ∀ m, (w'.slot m).cell = (w.slot m).cell
  suspensions : ∀ m, (w'.thunk? m).map Thunk.suspension = (w.thunk? m).map Thunk.suspension
  queues : w'.queues = w.queues
  maps : w'.maps = w.maps
  tasks : w'.tasks = w.tasks
  contexts : w'.contexts = w.contexts

/-- The thread neither runs code nor waits. -/
def Control.isDirect (c : Control) : Bool :=
  !c.isCode && c.begun?.isNone && c.waitsAt?.isNone

def Control.request? : Control → Option NodeId
  | .evaluate n | .enter n | .force n _ => some n
  | _ => none

/-- One thread makes steps while all others stand still. -/
inductive Reaches : World → Thread → World → Thread → Prop
  | refl {w t} : Reaches w t w t
  | step {w t w' t'} (direct : t.control.isDirect = true)
    (rest : Reaches (t.step w).1 (t.step w).2 w' t') : Reaches w t w' t'

/-- The claim of one who wants to take `n`. -/
def World.take (w : World) (n : NodeId) (claim : Bool) (me : TaskId) : World :=
  if claim then w.write n (some (.blackHole me)) else w

def World.drop (w : World) (n : NodeId) (claim : Bool) : World :=
  if claim then w.write n none else w

/-- The thread gets the loop error, and nothing else has changed. -/
def Thread.Loops (w : World) (t : Thread) (n : NodeId) : Prop :=
  ∃ w', w.Alike w' ∧ Reaches w t w' { t with agenda := [], control := .fail (.loop n) }

variable {w w' w'' : World} {t t' t'' : Thread} {n : NodeId} {c : ContextId} {claim : Bool}

theorem Control.isOutcome_of_request? {c : Control} (request : c.request? = some n) :
    c.isOutcome = false := by
  cases c <;> first | rfl | cases request

theorem Control.isDirect_of_isExit {c : Control} (exit : c.isExit) : c.isDirect = true := by
  cases c <;> first | rfl | cases exit

namespace World

theorem Alike.trans (first : w.Alike w') (second : w'.Alike w'') : w.Alike w'' where
  cells m := (second.cells m).trans (first.cells m)
  suspensions m := (second.suspensions m).trans (first.suspensions m)
  queues := second.queues.trans first.queues
  maps := second.maps.trans first.maps
  tasks := second.tasks.trans first.tasks
  contexts := second.contexts.trans first.contexts

theorem alike_log (w : World) (log : Log) : w.Alike { w with log } :=
  ⟨fun _ => rfl, fun _ => rfl, rfl, rfl, rfl, rfl⟩

theorem alike_of_unclaimed {cell : Option Cell} (free : (w.slot n).cell = none)
    (claimed : (w.write n cell).Alike w') : w.Alike (w'.write n none) where
  cells m := by
    by_cases same : m = n
    · subst same
      cases found : w'.thunk? m with
      | none => simp [slot_write_of_none found, slot_of_none found, free]
      | some th => rw [slot_write_self found, Slot.cell_write, free]
    · rw [slot_write_ne same, claimed.cells, slot_write_ne same]
  suspensions m := by rw [suspension_write, claimed.suspensions, suspension_write]
  queues := by rw [queues_write, claimed.queues, queues_write]
  maps := by rw [maps_write, claimed.maps, maps_write]
  tasks := by rw [tasks_write, claimed.tasks, tasks_write]
  contexts := by rw [contexts_write, claimed.contexts, contexts_write]

theorem write_log (w : World) (cell : Option Cell) (log : Log) :
    ({ w with log } : World).write n cell = { w.write n cell with log } := by
  unfold write
  cases found : w.thunk? n with
  | none => simp [show ({ w with log } : World).thunk? n = none from found]
  | some th => simp [show ({ w with log } : World).thunk? n = some th from found, setThunk]

theorem context_take {me : TaskId} : (w.take n claim me).context c = w.context c := by
  cases claim with
  | false => rfl
  | true => exact context_write _ c

theorem me_take : t.me (w.take n claim (t.me w)) = t.me w := by
  rw [Thread.me, taskOf, context_take]
  rfl

theorem cell_take {th : Thunk} (found : w.thunk? n = some th) :
    ((w.take n true (t.me w)).slot n).cell = some (.blackHole (t.me (w.take n true (t.me w)))) := by
  rw [me_take, take, if_pos rfl, slot_write_self found, Slot.cell_write]

end World

theorem Reaches.trans (first : Reaches w t w' t') (second : Reaches w' t' w'' t'') :
    Reaches w t w'' t'' := by
  induction first with
  | refl => exact second
  | step direct rest ih => exact .step direct (ih second)

theorem Reaches.of_step (direct : t.control.isDirect = true) (after : t.step w = (w', t'))
    (rest : Reaches w' t' w'' t'') : Reaches w t w'' t'' :=
  .step direct (by rw [after]; exact rest)

theorem reaches_of_reports (direct : t.control.isDirect = true) (es : List Event)
    (rest : List Action) (next : t.agenda = es.map .emit ++ rest) :
    ∃ log, Reaches w t { w with log } { t with agenda := rest } := by
  induction es generalizing w t with
  | nil =>
    obtain ⟨context, mayStop, maySuspend, agenda, control, stack⟩ := t
    cases next
    exact ⟨w.log, .refl⟩
  | cons e es ih =>
    obtain ⟨log, emitted⟩ := w.emit_eq t.context e
    have after : t.step w = ({ w with log }, { t with agenda := es.map .emit ++ rest }) := by
      simp [Thread.step, next, Action.perform, emitted]
    obtain ⟨log', reaches⟩ := @ih { w with log } { t with agenda := es.map .emit ++ rest } direct rfl
    exact ⟨log', .step direct (by rw [after]; exact reaches)⟩

theorem step_start (idle : t.agenda = []) (at' : t.control = .start n claim)
    (active : (w.context t.context).stack.push? n = none) :
    t.step w = (w, { t with
      agenda := .emit (.fatal (t.me w) (.loop n)) :: giveUp n claim, control := .fail (.loop n) }) := by
  simp [Thread.step, idle, Thread.proceed, at', Thread.start, active, Thread.plan, giveUp]

theorem reaches_of_owned (idle : t.agenda = []) (at' : t.control = .force n claim)
    (owned : (w.slot n).ownedBy (t.me w) = true) :
    ∃ log, Reaches w t { w with log } { t with agenda := [], control := .fail (.loop n) } := by
  obtain ⟨cell, held, owner⟩ := Slot.cell_of_ownedBy owned
  have after : t.step w = (w, { t with
      agenda := [.emit (.fatal (t.me w) (.loop n))], control := .fail (.loop n) }) := by
    cases cell with
    | value v => cases owner
    | _ =>
      simp [Thread.step, idle, Thread.proceed, at', Thread.force, held, owner, Thread.abort,
        Thread.plan, Thread.me]
  obtain ⟨log, reported⟩ := reaches_of_reports (w := w)
    (t := { t with agenda := [.emit (.fatal (t.me w) (.loop n))], control := .fail (.loop n) }) rfl
    [.fatal (t.me w) (.loop n)] [] rfl
  exact ⟨log, .of_step (by rw [at']; rfl) after reported⟩

theorem loops_of_owned (idle : t.agenda = []) (at' : t.control = .force n claim)
    (owned : (w.slot n).ownedBy (t.me w) = true) : t.Loops w n := by
  obtain ⟨log, reaches⟩ := reaches_of_owned idle at' owned
  exact ⟨_, w.alike_log log, reaches⟩

theorem reaches_of_abandon (direct : t.control.isDirect = true) (next : t.agenda = [.abandon n])
    (held : (w.slot n).cell = some (.blackHole (t.me w))) :
    ∃ log, Reaches w t { w.write n none with log } { t with agenda := [] } := by
  have owned : (w.slot n).ownedBy (w.taskOf t.context) = true := by
    simp [Slot.ownedBy, held, Cell.owner?, Thread.me]
  have read : t.step w = (w, { t with agenda := [.surrender n (w.slot n)] }) := by
    simp [Thread.step, next, Action.perform, owned]
  have surrendered : Thread.step w { t with agenda := [.surrender n (w.slot n)] } =
      (w.write n none, { t with agenda := [.emit (.abandoned (t.me w))] }) := by
    simp [Thread.step, Action.perform, World.exchange?, Slot.unchanged_self, afterSurrender,
      Slot.queue?, held, Thread.me]
  obtain ⟨log, reported⟩ := reaches_of_reports (w := w.write n none)
    (t := { t with agenda := [.emit (.abandoned (t.me w))] }) direct [.abandoned (t.me w)] [] rfl
  exact ⟨log, .of_step direct read (.of_step direct surrendered reported)⟩

/-- Up to the push of the update frame. -/
theorem reaches_start (idle : t.agenda = []) (at' : t.control = .force n claim)
    (free : (w.slot n).cell = none) :
    ∃ log, Reaches w t { w.take n claim (t.me w) with log } { t with control := .start n claim } := by
  cases claim with
  | false =>
    have after : t.step w = (w, { t with control := .start n false }) := by
      simp [Thread.step, idle, Thread.proceed, at', Thread.force, free, Thread.goto]
    exact ⟨w.log, .of_step (by rw [at']; rfl) after .refl⟩
  | true =>
    let hole := w.write n (some (.blackHole (t.me w)))
    have read : t.step w = (w, { t with control := .seize n (w.slot n) }) := by
      simp [Thread.step, idle, Thread.proceed, at', Thread.force, free, Thread.goto]
    have seized : Thread.step w { t with control := .seize n (w.slot n) } =
        (hole, { t with agenda := [.emit (.claimed n (t.me w))], control := .start n true }) := by
      simp [Thread.step, idle, Thread.proceed, Thread.seize, World.exchange?, Slot.unchanged_self,
        Thread.plan, Thread.me, hole]
    obtain ⟨log, claimed⟩ := reaches_of_reports (w := hole)
      (t := { t with agenda := [.emit (.claimed n (t.me w))], control := .start n true }) rfl
      [.claimed n (t.me w)] [] rfl
    obtain ⟨context, mayStop, maySuspend, agenda, control, stack⟩ := t
    cases idle
    exact ⟨log, .of_step (by rw [at']; rfl) read (.of_step rfl seized claimed)⟩

theorem reaches_loop (idle : t.agenda = []) (at' : t.control = .start n claim)
    (active : (w.context t.context).stack.push? n = none)
    (held : claim = true → (w.slot n).cell = some (.blackHole (t.me w))) :
    ∃ log, Reaches w t { w.drop n claim with log }
      { t with agenda := [], control := .fail (.loop n) } := by
  have started := step_start idle at' active
  obtain ⟨log, reported⟩ := reaches_of_reports (w := w)
    (t := { t with
      agenda := .emit (.fatal (t.me w) (.loop n)) :: giveUp n claim, control := .fail (.loop n) })
    rfl [.fatal (t.me w) (.loop n)] (giveUp n claim) rfl
  have fails : Reaches w t { w with log }
      { t with agenda := giveUp n claim, control := .fail (.loop n) } :=
    .of_step (by rw [at']; rfl) started reported
  cases claim with
  | false => exact ⟨log, fails⟩
  | true =>
    obtain ⟨log', done⟩ := reaches_of_abandon (w := { w with log }) (n := n)
      (t := { t with agenda := [.abandon n], control := .fail (.loop n) }) rfl rfl (held rfl)
    rw [World.write_log] at done
    exact ⟨log', fails.trans done⟩

theorem loops_of_free (thunk : (w.thunk? n).isSome) (idle : t.agenda = [])
    (at' : t.control = .force n claim) (active : (w.context t.context).stack.push? n = none)
    (free : (w.slot n).cell = none) : t.Loops w n := by
  obtain ⟨th, found⟩ := Option.isSome_iff_exists.1 thunk
  obtain ⟨log, starts⟩ := reaches_start idle at' free
  obtain ⟨log', fails⟩ := reaches_loop (w := { w.take n claim (t.me w) with log })
    (t := { t with control := .start n claim }) idle rfl
    (by rw [← active]; exact congrArg (·.stack.push? n) World.context_take)
    (fun claimed => by subst claimed; exact World.cell_take (t := t) found)
  refine ⟨_, ?_, starts.trans fails⟩
  cases claim with
  | false => exact w.alike_log log'
  | true =>
    exact (World.alike_of_unclaimed free (World.alike_log _ log)).trans (World.alike_log _ log')

theorem loops_of_force (thunk : (w.thunk? n).isSome) (idle : t.agenda = [])
    (at' : t.control = .force n claim) (active : (w.context t.context).stack.push? n = none)
    (free : (w.slot n).cell = none ∨ (w.slot n).ownedBy (t.me w) = true) : t.Loops w n := by
  rcases free with free | owned
  · exact loops_of_free thunk idle at' active free
  · exact loops_of_owned idle at' owned

theorem step_enter (thunk : (w.thunk? n).isSome) (idle : t.agenda = [])
    (at' : t.control = .enter n) : ∃ claim, t.step w = (w, { t with control := .force n claim }) := by
  obtain ⟨th, found⟩ := Option.isSome_iff_exists.1 thunk
  refine ⟨(w.context t.context).config.eager, ?_⟩
  simp [Thread.step, idle, Thread.proceed, at', Thread.enter, World.thunk?_eq_some.1 found,
    Thread.goto]

theorem step_evaluate (thunk : (w.thunk? n).isSome) (free : (w.slot n).value? = none)
    (idle : t.agenda = []) (at' : t.control = .evaluate n) :
    t.step w = (w, { t with control := .enter n, stack := .again :: t.stack }) := by
  obtain ⟨th, found⟩ := Option.isSome_iff_exists.1 thunk
  rw [World.slot_of_thunk found] at free
  simp [Thread.step, idle, Thread.proceed, at', Thread.evaluate, World.evaluated?,
    World.thunk?_eq_some.1 found, free, Thread.push]

theorem reaches_force (thunk : (w.thunk? n).isSome) (free : (w.slot n).value? = none)
    (idle : t.agenda = []) (request : t.control.request? = some n) :
    ∃ claim stack, (stack = t.stack ∨ stack = .again :: t.stack) ∧
      Reaches w t w { t with control := .force n claim, stack } := by
  cases at' : t.control with
  | force m claim =>
    rw [at'] at request
    cases request
    refine ⟨claim, t.stack, .inl rfl, ?_⟩
    rw [← at']
    exact .refl
  | enter m =>
    rw [at'] at request
    cases request
    obtain ⟨claim, after⟩ := step_enter thunk idle at'
    exact ⟨claim, t.stack, .inl rfl, .of_step (by rw [at']; rfl) after .refl⟩
  | evaluate m =>
    rw [at'] at request
    cases request
    have first := step_evaluate thunk free idle at'
    obtain ⟨claim, second⟩ := step_enter (w := w) (n := n)
      (t := { t with control := .enter n, stack := .again :: t.stack }) thunk idle rfl
    exact ⟨claim, _, .inr rfl, .of_step (by rw [at']; rfl) first (.of_step rfl second .refl)⟩
  | _ => simp [at', Control.request?] at request

theorem loops_of_request (thunk : (w.thunk? n).isSome) (idle : t.agenda = [])
    (request : t.control.request? = some n) (active : (w.context t.context).stack.push? n = none)
    (unclaimed : (w.slot n).cell = none ∨ (w.slot n).ownedBy (t.me w) = true) : t.Loops w n := by
  have free : (w.slot n).value? = none := by
    refine Slot.value?_eq_none_of_cell fun v held => ?_
    rcases unclaimed with none | owned
    · simp [held] at none
    · simp [Slot.ownedBy, held, Cell.owner?] at owned
  obtain ⟨claim, stack, frames, forces⟩ := reaches_force thunk free idle request
  obtain ⟨w', alike, fails⟩ := loops_of_force (w := w) (n := n)
    (t := { t with control := .force n claim, stack }) thunk idle rfl active unclaimed
  refine ⟨w', alike, forces.trans (fails.trans ?_)⟩
  rcases frames with rfl | rfl
  · exact .refl
  · exact .step rfl .refl

/-! ## Claims of other tasks -/

structure World.Foreign (w : World) (t : Thread) (n : NodeId) : Prop where
  taken : (w.slot n).cell ≠ none
  free : (w.slot n).value? = none
  other : (w.slot n).ownedBy (t.me w) = false

theorem step_force_foreign (idle : t.agenda = []) (at' : t.control = .force n claim)
    (foreign : w.Foreign t n) : t.step w = (w, { t with control := .attach n claim }) := by
  obtain ⟨taken, free, other⟩ := foreign
  obtain ⟨cell, held⟩ := Option.ne_none_iff_exists'.1 taken
  have owner : cell.owner? ≠ some (t.me w) := by
    simpa [Slot.ownedBy, held] using other
  cases cell with
  | value v => simp [Slot.value?, held] at free
  | _ =>
    simp [Thread.step, idle, Thread.proceed, at', Thread.force, held, owner, Thread.goto]

inductive Approaches (n : NodeId) : Control → Prop
  | evaluate : Approaches n (.evaluate n)
  | enter : Approaches n (.enter n)
  | force {mode} : Approaches n (.force n mode)
  | attach {mode} : Approaches n (.attach n mode)

theorem step_approaches (thunk : (w.thunk? n).isSome) (idle : t.agenda = [])
    (foreign : w.Foreign t n) (approaches : Approaches n t.control)
    (direct : t.control.isDirect = true) :
    ∃ stack c, Approaches n c ∧ t.step w = (w, { t with control := c, stack }) := by
  generalize at' : t.control = c at approaches
  cases approaches with
  | evaluate => exact ⟨_, _, .enter, step_evaluate thunk foreign.free idle at'⟩
  | enter =>
    obtain ⟨claim, after⟩ := step_enter thunk idle at'
    exact ⟨_, _, .force, after⟩
  | force => exact ⟨_, _, .attach, step_force_foreign idle at' foreign⟩
  | attach =>
    rw [at'] at direct
    cases direct

theorem approaches_of_reaches (reaches : Reaches w t w' t') (thunk : (w.thunk? n).isSome)
    (idle : t.agenda = []) (foreign : w.Foreign t n) (approaches : Approaches n t.control) :
    Approaches n t'.control := by
  induction reaches with
  | refl => exact approaches
  | @step w t w' t' direct rest ih =>
    obtain ⟨stack, c, after, is⟩ := step_approaches thunk idle foreign approaches direct
    rw [is] at ih
    exact ih thunk idle ⟨foreign.taken, foreign.free, foreign.other⟩ after

theorem approaches_of_request (request : t.control.request? = some n) :
    Approaches n t.control := by
  cases at' : t.control with
  | evaluate | enter | force =>
    rw [at'] at request
    cases request
    constructor
  | _ => simp [at', Control.request?] at request

theorem not_loops_of_foreign (thunk : (w.thunk? n).isSome) (idle : t.agenda = [])
    (request : t.control.request? = some n) (foreign : w.Foreign t n) : ¬ t.Loops w n := by
  rintro ⟨w', -, reaches⟩
  cases approaches_of_reaches reaches thunk idle foreign (approaches_of_request request)

theorem attaches_of_foreign (thunk : (w.thunk? n).isSome) (idle : t.agenda = [])
    (request : t.control.request? = some n) (foreign : w.Foreign t n) :
    ∃ u claim, Reaches w t w u ∧ u.agenda = [] ∧ u.control = .attach n claim := by
  obtain ⟨claim, stack, -, forces⟩ := reaches_force thunk foreign.free idle request
  have after := step_force_foreign (w := w) (t := { t with control := .force n claim, stack })
    idle rfl ⟨foreign.taken, foreign.free, foreign.other⟩
  refine ⟨{ t with control := .attach n claim, stack }, claim, ?_, idle, rfl⟩
  refine forces.trans (.step rfl ?_)
  rw [after]
  exact .refl

namespace Run

/-- **Cycle detection.** A task that asks for a thunk on its own update stack, whose slot holds no
value, gets the loop error at once and changes nothing, if and only if no other task has claimed the
thunk. Otherwise it goes to wait for that task. -/
theorem loops_iff_unclaimed (run : Run) (k : Nat) (i : ThreadId) (t : Thread) (n : NodeId)
    (found : (run.state k).threads[i]? = some t) (idle : t.agenda = [])
    (request : t.control.request? = some n) (thunk : ((run.state k).world.thunk? n).isSome)
    (active : n ∈ ((run.state k).world.context t.context).stack.frames)
    (free : ((run.state k).world.slot n).value? = none) :
    (t.Loops (run.state k).world n ↔ ((run.state k).world.slot n).cell = none ∨
      ((run.state k).world.slot n).ownedBy (t.me (run.state k).world) = true) ∧
    (¬ t.Loops (run.state k).world n → ∃ u claim,
      Reaches (run.state k).world t (run.state k).world u ∧ u.agenda = [] ∧
        u.control = .attach n claim) := by
  have runs : t.Runs := Thread.runs_of_control (Control.isOutcome_of_request? request)
  have tracks := (run.framed k).running i t found runs
  have again : ((run.state k).world.context t.context).stack.push? n = none :=
    tracks.push?_eq_none.2 (tracks.frames ▸ active)
  have foreign : ¬ (((run.state k).world.slot n).cell = none ∨
      ((run.state k).world.slot n).ownedBy (t.me (run.state k).world) = true) →
      (run.state k).world.Foreign t n := by
    intro claimed
    simp only [not_or, Bool.not_eq_true] at claimed
    exact ⟨claimed.1, free, claimed.2⟩
  have loops := loops_of_request thunk idle request again
  refine ⟨⟨?_, loops⟩, ?_⟩
  · intro looped
    by_contra claimed
    exact not_loops_of_foreign thunk idle request (foreign claimed) looped
  · intro waits
    exact attaches_of_foreign thunk idle request (foreign fun unclaimed => waits (loops unclaimed))

/-- A task evaluates a thunk that needs itself, without claiming it, and another task claims it
meanwhile. -/
def overtaken : Run :=
  .ofMoves {}
    ([.thunk (.prim .evaluate [.named "t"]) [], .bind "t" 0, .sit false, .sit true, .evaluate 0 0,
      .evaluate 1 0] ++ List.replicate 13 (.step 0) ++ List.replicate 8 (.step 1) ++
      List.replicate 15 (.step 0))
    (by decide +kernel)

theorem loops_iff_unclaimed_overtaken :
    ∃ t, (overtaken.state 19).threads[0]? = some t ∧ t.agenda = [] ∧
      t.control.request? = some 0 ∧ ((overtaken.state 19).world.thunk? 0).isSome ∧
      0 ∈ ((overtaken.state 19).world.context t.context).stack.frames ∧
      ((overtaken.state 19).world.slot 0).value? = none ∧ t.Loops (overtaken.state 19).world 0 := by
  have asks : ((overtaken.state 19).threads[0]?).any (fun t => t.agenda.isEmpty &&
      t.control.request? == some 0 &&
      ((overtaken.state 19).world.context t.context).stack.frames.contains 0) = true := by
    decide +kernel
  have thunk : ((overtaken.state 19).world.thunk? 0).isSome := by decide +kernel
  have free : ((overtaken.state 19).world.slot 0).value? = none := by decide +kernel
  have empty : ((overtaken.state 19).world.slot 0).cell = none := by decide +kernel
  simp only [Option.any_eq_true, Bool.and_eq_true, List.isEmpty_iff, beq_iff_eq,
    List.contains_iff_mem] at asks
  obtain ⟨t, found, ⟨idle, request⟩, active⟩ := asks
  exact ⟨t, found, idle, request, thunk, active, free,
    (loops_iff_unclaimed overtaken 19 0 t 0 found idle request thunk active free).1.2 (.inl empty)⟩

/-- Once the other task has claimed the thunk, the first one waits for it, although the thunk is on
its own update stack. -/
theorem overtaken_waits :
    (∃ t, (overtaken.state 27).threads[0]? = some t ∧ t.agenda = [] ∧
      t.control.request? = some 0 ∧ ((overtaken.state 27).world.thunk? 0).isSome ∧
      0 ∈ ((overtaken.state 27).world.context t.context).stack.frames ∧
      ((overtaken.state 27).world.slot 0).value? = none ∧
      ¬ t.Loops (overtaken.state 27).world 0) ∧
    (overtaken.state 42).isStuck 0 = true := by
  have asks : ((overtaken.state 27).threads[0]?).any (fun t => t.agenda.isEmpty &&
      t.control.request? == some 0 &&
      ((overtaken.state 27).world.context t.context).stack.frames.contains 0 &&
      !((overtaken.state 27).world.slot 0).ownedBy (t.me (overtaken.state 27).world)) = true := by
    decide +kernel
  have thunk : ((overtaken.state 27).world.thunk? 0).isSome := by decide +kernel
  have free : ((overtaken.state 27).world.slot 0).value? = none := by decide +kernel
  have taken : ((overtaken.state 27).world.slot 0).cell ≠ none := by decide +kernel
  have stuck : (overtaken.state 42).isStuck 0 = true := by decide +kernel
  simp only [Option.any_eq_true, Bool.and_eq_true, List.isEmpty_iff, beq_iff_eq,
    List.contains_iff_mem, Bool.not_eq_true'] at asks
  obtain ⟨t, found, ⟨⟨idle, request⟩, active⟩, other⟩ := asks
  exact ⟨⟨t, found, idle, request, thunk, active, free,
    not_loops_of_foreign thunk idle request ⟨taken, free, other⟩⟩, stuck⟩

end Run

end LazyGraph

import LazyGraph.Pool
import LazyGraph.Proofs.Inversion

/-!
# Runs

A run starts without nodes, tasks and threads. Threads take turns in any order, tasks may be woken
for no reason, and from outside come new nodes, contexts with tasks of their own and code to run on
them.
-/

namespace LazyGraph

inductive Move
  | step (i : ThreadId)
  | wake (u : TaskId)
  | pass (i : ThreadId) (g : String)
  | start (c : ContextId) (code : Code) (env : Env) (mayStop maySuspend : Bool)
  | seat (name : Option String) (capability : CapabilityId) (config : Config)
    (interpreter : Option Interpreter)
  | build (v : Value)
  | suspend (s : Suspension)
  | bind (x : String) (n : NodeId)
  | unbind (x : String)
  | assign (x : String) (l : Int64)
  | keep (r : String) (on : Bool)
  | configure (r : String) (config : Config)
  | detour (c : ContextId) (d : Detour)
  | map
  | capability (map : Nat) (name : Option String) (traced : Bool)
  | poolStarted (capabilities : Nat)
  | jobPanicked (c : ContextId)
  | rest

namespace Move

def sit (eager : Bool) : Move :=
  .seat none 0 { eager } none

def thunk (code : Code) (ns : List NodeId) : Move :=
  .suspend (.updatable (some (code, { frames := [ns.map .pointer] })))

def evaluate (c : ContextId) (n : NodeId) : Move :=
  .start c (.prim .evaluate [.arg 0 0]) { frames := [[.pointer n]] } true true

end Move

namespace State

variable (s : State)

def after : Move → State
  | .step i => s.step i
  | .wake u => { s with world := s.world.wake u }
  | .pass i g => { s with threads := s.threads.modify i (·.pass g) }
  | .start context code env mayStop maySuspend =>
    (s.spawn { context, mayStop, maySuspend, control := .run code env }).1
  | .seat name capability config interpreter =>
    let (w, task) := s.world.addTask { name }
    { s with world := (w.addContext { task, capability, config, interpreter }).1 }
  | .build v => { s with world := (s.world.alloc (.value v)).1 }
  | .suspend c => { s with world := (s.world.alloc (.thunk ⟨c, {}⟩)).1 }
  | .bind x n => { s with world := s.world.bind x n }
  | .unbind x => { s with world := s.world.unbind x }
  | .assign x l => { s with world := s.world.assign x l }
  | .keep r on => { s with world := s.world.setRegistry r { s.world.registry r with keep := on } }
  | .configure r config =>
    { s with world := s.world.setRegistry r { s.world.registry r with
        keep := config.keepConstants, verbose := config.debug.gccafs } }
  | .detour c d =>
    { s with world := s.world.setContext c { s.world.context c with detour := some d } }
  | .map => { s with world := (Pool.addMap s.world).1 }
  | .capability map name traced =>
    { s with world := (Pool.addCapability s.world map name traced).1 }
  | .poolStarted capabilities => { s with world := s.world.emit 0 (.poolStarted capabilities) }
  | .jobPanicked c => { s with world := s.world.emit c (.jobPanicked (s.world.context c).task) }
  | .rest => s

/-- A context serves one thread at a time. -/
def admits : Move → Bool
  | .start c _ _ _ _ =>
    decide (c < s.world.contexts.size) &&
      s.threads.all fun t => t.context != c || t.outcome?.isSome
  | _ => true

/-- Whether a move sets the permit of task `u`. -/
def permits (m : Move) (u : TaskId) : Bool :=
  match m with
  | .wake v => v == u
  | .step i => (s.threads[i]?).any fun t =>
    match t.agenda with
    | .wake v :: _ => v == u
    | _ => false
  | _ => false

/-- The move resets thunk `n`: whatever its slot holds is overwritten. -/
def Resets (m : Move) (n : NodeId) : Prop :=
  ∃ i t v as, m = .step i ∧ s.threads[i]? = some t ∧ t.agenda = .overwrite n v :: as

end State

def trace (log : Log) (move : Nat → Move) : Nat → State
  | 0 => { world := { log } }
  | k + 1 => (trace log move k).after (move k)

structure Run where
  log : Log
  move : Nat → Move
  admitted : ∀ k, (trace log move k).admits (move k)

namespace Run

variable (run : Run)

def state (k : Nat) : State :=
  trace run.log run.move k

theorem state_succ (k : Nat) : run.state (k + 1) = (run.state k).after (run.move k) :=
  rfl

theorem always {P : State → Prop} (start : P { world := { log := run.log } })
    (keeps : ∀ k, P (run.state k) → P (run.state (k + 1))) (k : Nat) : P (run.state k) := by
  induction k with
  | zero => exact start
  | succ k ih => exact keeps k ih

theorem getD_rest {moves : List Move} {k : Nat} (beyond : moves.length ≤ k) :
    moves.getD k .rest = .rest := by
  rw [List.getD, List.getElem?_eq_none beyond]
  rfl

def ofMoves (log : Log) (moves : List Move)
    (admitted : ∀ k < moves.length, (trace log (moves.getD · .rest) k).admits (moves.getD k .rest)) :
    Run where
  log
  move k := moves.getD k .rest
  admitted k := by
    by_cases before : k < moves.length
    · exact admitted k before
    · rw [getD_rest (Nat.not_lt.1 before)]
      rfl

theorem ofMoves_move {log : Log} {moves : List Move} {admitted} (k : Nat) :
    (ofMoves log moves admitted).move k = moves.getD k .rest :=
  rfl

theorem ofMoves_state_of_le {log : Log} {moves : List Move} {admitted} {k : Nat}
    (beyond : moves.length ≤ k) :
    (ofMoves log moves admitted).state k = (ofMoves log moves admitted).state moves.length := by
  induction beyond with
  | refl => rfl
  | step beyond ih =>
    rw [state_succ, ofMoves_move, ih, getD_rest beyond]
    rfl

theorem ofMoves_forall {log : Log} {moves : List Move} {admitted} {P : State → Prop}
    (within : ∀ k ≤ moves.length, P ((ofMoves log moves admitted).state k)) (k : Nat) :
    P ((ofMoves log moves admitted).state k) := by
  rcases Nat.le_total k moves.length with before | beyond
  · exact within k before
  · rw [ofMoves_state_of_le beyond]
    exact within _ (Nat.le_refl _)

theorem ofMoves_each {log : Log} {moves : List Move} {admitted} {P : Move → Prop}
    (rest : P .rest) (each : ∀ m ∈ moves, P m) (k : Nat) :
    P ((ofMoves log moves admitted).move k) := by
  rw [ofMoves_move]
  by_cases before : k < moves.length
  · rw [← List.getElem_eq_getD (h := before)]
    exact each _ (List.getElem_mem before)
  · rwa [getD_rest (Nat.not_lt.1 before)]

theorem ofMoves_all {log : Log} {moves : List Move} {admitted} {P : Move → Bool}
    (rest : P .rest) (all : moves.all P) (k : Nat) : P ((ofMoves log moves admitted).move k) :=
  ofMoves_each (P := fun m => P m = true) rest (List.all_eq_true.1 all) k

end Run

/-! ## What a move changes -/

/-- A move is a step of one thread, a new thread, a new task, or else not seen by any thread. -/
inductive Change (s : State) (m : Move) : State → Prop
  | step {i t w' t'} (at' : s.threads[i]? = some t) (step : Step s.world t w' t')
    (moved : m = .step i ∨ ∃ g as, t.agenda = .gate g :: as) :
    Change s m ⟨w', s.threads.setIfInBounds i t'⟩
  | quiet {w'} (quiet : s.world.Quiet w') : Change s m { s with world := w' }
  | wake {u} (woken : m = .wake u) : Change s m { s with world := s.world.wake u }
  | start {t c env} (seated : t.context < s.world.contexts.size)
    (free : ∀ u ∈ s.threads, u.context = t.context → u.outcome?.isSome)
    (errands : t.agenda = []) (frames : t.stack = []) (code : t.control = .run c env)
    (moved : ∃ code env mayStop maySuspend, m = .start t.context code env mayStop maySuspend) :
    Change s m { s with threads := s.threads.push t }
  | seat {task context} (own : context.task = s.world.tasks.size) (fresh : context.stack = {})
    (moved : ∃ name capability config, m = .seat name capability config context.interpreter) :
    Change s m { s with world := ((s.world.addTask task).1.addContext context).1 }

theorem change_step (s : State) (i : ThreadId) : Change s (.step i) (s.step i) := by
  unfold State.step
  cases at' : s.threads[i]? with
  | none => exact .quiet (World.Quiet.refl _)
  | some t => exact .step at' (step_cases s.world t) (.inl rfl)

theorem pass_cases (t : Thread) (g : String) :
    t.pass g = t ∨ ∃ as, t.agenda = .gate g :: as ∧ t.pass g = { t with agenda := as } := by
  unfold Thread.pass
  split
  · rename_i h as next
    split
    · rename_i same
      exact .inr ⟨as, by rw [next, same], rfl⟩
    · exact .inl rfl
  · exact .inl rfl

theorem modify_eq_setIfInBounds {α : Type} {xs : Array α} {i : Nat} {x : α} (f : α → α)
    (at' : xs[i]? = some x) : xs.modify i f = xs.setIfInBounds i (f x) := by
  apply Array.ext_getElem?
  intro j
  rw [Array.getElem?_modify, Array.getElem?_setIfInBounds]
  obtain ⟨bound, rfl⟩ := Array.getElem?_eq_some_iff.1 at'
  by_cases same : i = j
  · subst same
    simp [bound]
  · simp [same]

theorem setIfInBounds_self {α : Type} {xs : Array α} {i : Nat} {x : α} (at' : xs[i]? = some x) :
    xs.setIfInBounds i x = xs := by
  apply Array.ext_getElem?
  intro j
  rw [Array.getElem?_setIfInBounds]
  obtain ⟨bound, rfl⟩ := Array.getElem?_eq_some_iff.1 at'
  by_cases same : i = j
  · subst same
    simp [bound]
  · simp [same]

theorem modify_of_none {α : Type} {xs : Array α} {i : Nat} (f : α → α) (at' : xs[i]? = none) :
    xs.modify i f = xs := by
  apply Array.ext_getElem?
  intro j
  rw [Array.getElem?_modify]
  by_cases same : i = j
  · subst same
    simp [at']
  · simp [same]

theorem change_pass (s : State) (i : ThreadId) (g : String) :
    Change s (.pass i g) (s.after (.pass i g)) := by
  have same : Change s (.pass i g) s := .quiet (World.Quiet.refl s.world)
  cases at' : s.threads[i]? with
  | none => simpa [State.after, modify_of_none _ at'] using same
  | some t =>
    simp only [State.after, modify_eq_setIfInBounds _ at']
    rcases pass_cases t g with stays | ⟨as, next, passed⟩
    · simpa [stays, setIfInBounds_self at'] using same
    · rw [passed]
      exact .step at' (.errand (.quiet next rfl (World.Quiet.refl _))) (.inr ⟨g, as, next⟩)

theorem quiet_of_maps {w : World} {maps : Array QueueMap} {capabilities : Array Capability}
    (same : ∀ j, maps.getD j [] = w.maps.getD j []) : w.Quiet { w with maps, capabilities } :=
  { World.Quiet.refl w with maps := fun j => same j ▸ .refl _ }

theorem change_of_admits {s : State} {m : Move} (admitted : s.admits m) :
    Change s m (s.after m) := by
  cases m with
  | step i => exact change_step s i
  | wake u => exact .wake rfl
  | pass i g => exact change_pass s i g
  | start context code env mayStop maySuspend =>
    simp only [State.admits, Bool.and_eq_true, decide_eq_true_eq, Array.all_eq_true'] at admitted
    obtain ⟨seated, free⟩ := admitted
    refine .start seated ?_ rfl rfl rfl ⟨_, _, _, _, rfl⟩
    intro u known same
    simpa [same] using free u known
  | seat name capability config interpreter => exact .seat rfl rfl ⟨_, _, _, rfl⟩
  | build v => exact .quiet (World.quiet_value v)
  | suspend c => exact .quiet (World.quiet_thunk c)
  | bind x n => exact .quiet (World.quiet_bind x n)
  | unbind x => exact .quiet (World.quiet_unbind x)
  | assign x l => exact .quiet (World.quiet_assign x l)
  | keep r on | configure r config => exact .quiet (World.quiet_setRegistry r _)
  | detour c d => exact .quiet (World.quiet_setContext rfl rfl rfl)
  | map =>
    refine .quiet (quiet_of_maps fun j => ?_)
    simp only [Array.getD_eq_getD_getElem?, Array.getElem?_push]
    split
    · rename_i new
      simp [new]
    · rfl
  | capability map name traced => exact .quiet (quiet_of_maps fun _ => rfl)
  | poolStarted capabilities | jobPanicked c => exact .quiet (World.quiet_emit _)
  | rest => exact .quiet (World.Quiet.refl s.world)

theorem Run.change (run : Run) (k : Nat) :
    Change (run.state k) (run.move k) (run.state (k + 1)) :=
  change_of_admits (run.admitted k)

end LazyGraph

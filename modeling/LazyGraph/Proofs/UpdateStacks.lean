import LazyGraph.Proofs.Run
import Std.Data.TreeSet.Lemmas

/-!
# Update stacks

An update stack is kept twice: as a list of the evaluations that have begun, innermost first, and
as a set of the same thunks. The two stay in step whichever evaluations a thread begins and ends on
its context, so that what is found in the set is a re-entry, and every re-entry is found there.
-/

namespace LazyGraph

structure UpdateStack.Tracks (u : UpdateStack) (ns : List NodeId) : Prop where
  frames : u.frames = ns
  nodup : ns.Nodup
  active : ∀ n, u.active.contains n = true ↔ n ∈ ns

namespace UpdateStack

variable {u v : UpdateStack} {ns below : List NodeId} {n : NodeId}

theorem tracks_empty : ({} : UpdateStack).Tracks [] :=
  ⟨rfl, List.nodup_nil, fun n => by simp⟩

theorem Tracks.self (tracks : u.Tracks ns) : u.Tracks u.frames :=
  tracks.frames ▸ tracks

theorem Tracks.push?_eq_none (tracks : u.Tracks ns) : u.push? n = none ↔ n ∈ ns := by
  rw [← tracks.active, push?]
  split <;> simp_all

theorem Tracks.push (tracks : u.Tracks ns) (pushed : u.push? n = some v) :
    v.Tracks (n :: ns) := by
  have fresh : n ∉ ns := fun known => by
    rw [tracks.push?_eq_none.2 known] at pushed
    cases pushed
  rw [push?] at pushed
  split at pushed
  · cases pushed
  · cases pushed
    refine ⟨by simp [tracks.frames], List.nodup_cons.2 ⟨fresh, tracks.nodup⟩, ?_⟩
    intro m
    rw [Std.TreeSet.contains_insert, Bool.or_eq_true, tracks.active, List.mem_cons, beq_iff_eq,
      Std.LawfulEqCmp.compare_eq_iff_eq, eq_comm]

theorem contains_foldl_erase (ended : List NodeId) (active : Std.TreeSet NodeId) (m : NodeId) :
    (ended.foldl (fun active n => active.erase n) active).contains m = true ↔
      active.contains m = true ∧ m ∉ ended := by
  induction ended generalizing active with
  | nil => simp
  | cons n ended ih =>
    rw [List.foldl_cons, ih, Std.TreeSet.contains_erase, Bool.and_eq_true, bne_iff_ne, ne_eq,
      Std.LawfulEqCmp.compare_eq_iff_eq, eq_comm, List.mem_cons, not_or, and_assoc, and_left_comm]

/-- The frames above that of `n` go together with it, from the list as from the set. -/
theorem Tracks.pop_through (above : List NodeId) (tracks : u.Tracks (above ++ n :: below)) :
    (u.pop n).Tracks below := by
  have active : u.active.contains n = true := (tracks.active n).2 (by simp)
  have other : ∀ m ∈ above, (m != n) = true := fun m known => by
    simpa using (List.nodup_append.1 tracks.nodup).2.2 m known n List.mem_cons_self
  have popped : u.pop n =
      ⟨below, (above ++ [n]).foldl (fun active m => active.erase m) u.active⟩ := by
    simp [UpdateStack.pop, active, tracks.frames, List.dropWhile_append_of_pos other,
      List.takeWhile_append_of_pos other]
  -- the frame of `n` is counted to those above, since it ends with them
  rw [List.append_cons] at tracks
  obtain ⟨-, nodup, apart⟩ := List.nodup_append.1 tracks.nodup
  rw [popped]
  refine ⟨rfl, nodup, fun m => ?_⟩
  rw [contains_foldl_erase, tracks.active, List.mem_append]
  constructor
  · rintro ⟨known, gone⟩
    exact known.resolve_left gone
  · intro kept
    exact ⟨.inr kept, fun ended => apart m ended m kept rfl⟩

theorem Tracks.pop (tracks : u.Tracks (n :: ns)) : (u.pop n).Tracks ns :=
  Tracks.pop_through [] tracks

theorem Tracks.pop_of_not_mem (tracks : u.Tracks ns) (foreign : n ∉ ns) : u.pop n = u := by
  rw [UpdateStack.pop, if_neg (mt (tracks.active n).1 foreign)]

end UpdateStack

/-!
## Evaluations begun and ended in any order

In a run it is always the innermost evaluation that ends. The stack does not rely on that.
-/

/-- A thread begins the evaluation of a thunk, which it may have claimed, or ends one. -/
inductive StackOp
  | start (n : NodeId) (claim : Bool)
  | leave (n : NodeId)

namespace World

theorem setContext_self (w : World) (c : ContextId) : w.setContext c (w.context c) = w := by
  suffices same : w.contexts.setIfInBounds c (w.context c) = w.contexts by rw [setContext, same]
  cases at' : w.contexts[c]? with
  | none => exact Array.setIfInBounds_eq_of_size_le (Array.getElem?_eq_none_iff.1 at')
  | some context =>
    have here : w.context c = context := by simp [World.context, at']
    rw [here, setIfInBounds_self at']

end World

namespace Thread

variable {w : World} {t : Thread} {u : UpdateStack} {ns : List NodeId} {n : NodeId} {claim : Bool}

def updateStack (t : Thread) (w : World) : UpdateStack :=
  (w.context t.context).stack

def setStack (t : Thread) (w : World) (u : UpdateStack) : World :=
  w.setContext t.context { w.context t.context with stack := u }

def operate (t : Thread) (w : World) : StackOp → World
  | .start n claim => (t.start w n claim).1
  | .leave n => t.leave w n

theorem updateStack_setStack (seated : t.context < w.contexts.size) :
    t.updateStack (t.setStack w u) = u := by
  rw [updateStack, setStack, World.context_setContext, if_pos ⟨rfl, seated⟩]

theorem start_of_mem (tracks : (t.updateStack w).Tracks ns) (known : n ∈ ns) :
    t.start w n claim =
      (w, t.plan (.emit (.fatal (t.me w) (.loop n)) :: if claim then [.abandon n] else [])
        (.fail (.loop n))) := by
  have again : (w.context t.context).stack.push? n = none := tracks.push?_eq_none.2 known
  simp only [Thread.start, again]

theorem start_of_not_mem (claim : Bool) (tracks : (t.updateStack w).Tracks ns) (fresh : n ∉ ns) :
    ∃ u, u.Tracks (n :: ns) ∧ t.start w n claim = (t.setStack w u, t.goto (.body n claim)) := by
  cases pushed : (t.updateStack w).push? n with
  | none => exact absurd (tracks.push?_eq_none.1 pushed) fresh
  | some u =>
    refine ⟨u, tracks.push pushed, ?_⟩
    rw [updateStack] at pushed
    simp only [Thread.start, pushed]
    rfl

theorem leave_eq : t.leave w n = t.setStack w ((t.updateStack w).pop n) :=
  rfl

theorem leave_of_not_mem (tracks : (t.updateStack w).Tracks ns) (foreign : n ∉ ns) :
    t.leave w n = w := by
  rw [leave_eq, tracks.pop_of_not_mem foreign]
  exact World.setContext_self w t.context

/-- The thread has a context, whose update stack is in step. -/
structure InStep (t : Thread) (w : World) : Prop where
  seated : t.context < w.contexts.size
  tracks : (t.updateStack w).Tracks (t.updateStack w).frames

theorem inStep_setStack (seated : t.context < w.contexts.size) (tracks : u.Tracks ns) :
    t.InStep (t.setStack w u) where
  seated := by simpa [setStack, World.setContext] using seated
  tracks := by
    rw [updateStack_setStack seated]
    exact tracks.self

theorem InStep.operate (inStep : t.InStep w) (op : StackOp) : t.InStep (t.operate w op) := by
  cases op with
  | start n claim =>
    by_cases known : n ∈ (t.updateStack w).frames
    · rw [Thread.operate, start_of_mem inStep.tracks known]
      exact inStep
    · obtain ⟨u, tracks, started⟩ := start_of_not_mem claim inStep.tracks known
      rw [Thread.operate, started]
      exact inStep_setStack inStep.seated tracks
  | leave n =>
    by_cases known : n ∈ (t.updateStack w).frames
    · obtain ⟨above, below, split⟩ := List.append_of_mem known
      rw [Thread.operate, leave_eq]
      exact inStep_setStack inStep.seated (.pop_through above (split ▸ inStep.tracks))
    · rw [Thread.operate, leave_of_not_mem inStep.tracks known]
      exact inStep

theorem InStep.operations (inStep : t.InStep w) (ops : List StackOp) :
    t.InStep (ops.foldl t.operate w) := by
  induction ops generalizing w with
  | nil => exact inStep
  | cons op ops ih => exact ih (inStep.operate op)

theorem InStep.fails_iff (inStep : t.InStep w) (n : NodeId) (claim : Bool) (e : GraphError) :
    (t.start w n claim).2.control = .fail e ↔ n ∈ (t.updateStack w).frames ∧ e = .loop n := by
  by_cases known : n ∈ (t.updateStack w).frames
  · rw [start_of_mem inStep.tracks known]
    simp [known, plan, eq_comm]
  · obtain ⟨u, -, started⟩ := start_of_not_mem claim inStep.tracks known
    rw [started]
    simp [known, goto]

/-- Whatever evaluations a thread began and ended on a fresh context: no thunk is on the update
stack twice, and the set holds those on the stack. To begin another one fails exactly if the thunk
is on the stack, with a loop at this thunk, and then changes nothing; else the thunk comes on top.
To end the evaluation of a thunk leaves exactly the frames below it, and changes nothing if the
thunk is not on the stack. -/
theorem stack_in_step (w : World) (t : Thread) (ops : List StackOp)
    (seated : t.context < w.contexts.size) (fresh : t.updateStack w = {}) :
    let w' := ops.foldl t.operate w
    let u := t.updateStack w'
    u.frames.Nodup ∧ (∀ n, u.active.contains n = true ↔ n ∈ u.frames) ∧
    (∀ n claim e, (t.start w' n claim).2.control = .fail e ↔ n ∈ u.frames ∧ e = .loop n) ∧
    (∀ n ∈ u.frames, ∀ claim, (t.start w' n claim).1 = w') ∧
    (∀ n ∉ u.frames, ∀ claim, (t.updateStack (t.start w' n claim).1).Tracks (n :: u.frames)) ∧
    (∀ n above below, u.frames = above ++ n :: below →
      (t.updateStack (t.leave w' n)).Tracks below) ∧
    ∀ n ∉ u.frames, t.leave w' n = w' := by
  intro w' u
  have start : t.InStep w := ⟨seated, by rw [fresh]; exact UpdateStack.tracks_empty⟩
  have inStep : t.InStep w' := start.operations ops
  refine ⟨inStep.tracks.nodup, inStep.tracks.active, inStep.fails_iff, ?_, ?_, ?_, ?_⟩
  · intro n known claim
    rw [start_of_mem inStep.tracks known]
  · intro n new claim
    obtain ⟨u', tracks, started⟩ := start_of_not_mem claim inStep.tracks new
    rw [started, updateStack_setStack inStep.seated]
    exact tracks
  · intro n above below split
    rw [leave_eq, updateStack_setStack inStep.seated]
    exact .pop_through above (split ▸ inStep.tracks)
  · intro n foreign
    exact leave_of_not_mem inStep.tracks foreign

end Thread

def vacant : World :=
  (State.after {} (.sit false)).world

def sitter : Thread :=
  { context := 0, control := .give 0 }

def unwinding : List StackOp :=
  [.start 1 false, .start 2 true, .start 3 false, .leave 2, .start 3 true, .leave 7]

def unwound : World :=
  unwinding.foldl sitter.operate vacant

/-- The end of 2 unwinds 3 as well, which is then begun again; 7 had not begun. -/
theorem stack_in_step_unwound :
    (sitter.context < vacant.contexts.size ∧ sitter.updateStack vacant = {}) ∧
    (sitter.updateStack unwound).frames = [3, 1] ∧
    (sitter.start unwound 1 true).2.control = .fail (.loop 1) ∧
    (sitter.updateStack (sitter.leave unwound 1)).Tracks [] ∧
    sitter.leave unwound 2 = unwound := by
  have seated : sitter.context < vacant.contexts.size := by decide
  have frames : (sitter.updateStack unwound).frames = [3, 1] := by decide +kernel
  have outer : 1 ∈ (sitter.updateStack unwound).frames := by simp [frames]
  have ended : 2 ∉ (sitter.updateStack unwound).frames := by simp [frames]
  obtain ⟨-, -, fails, -, -, leaves, ignores⟩ :=
    Thread.stack_in_step vacant sitter unwinding seated rfl
  exact ⟨⟨seated, rfl⟩, frames, (fails 1 true (.loop 1)).2 ⟨outer, rfl⟩, leaves 1 [3] [] frames,
    ignores 2 ended⟩

end LazyGraph

import LazyGraph.Proofs.Agreement
import LazyGraph.Proofs.Ownership

/-!
# Calls of the evaluator

From a call to its return the frames of the caller stay where they are. So the update stack of the
context is as it was, whatever the outcome.
-/

namespace LazyGraph

def Control.isCall : Control → Bool
  | .evaluate _ | .enter _ | .apply _ _ | .perform .blackHole _ _ => true
  | _ => false

def Thread.calls (t : Thread) : Bool :=
  t.agenda.isEmpty && t.control.isCall

variable {w w' : World} {t t' u : Thread} {n : NodeId} {c : ContextId} {base : List Frame}

theorem Control.isFirm_of_isCall {c : Control} (call : c.isCall) : c.isFirm = false := by
  cases c <;> first | rfl | cases call

theorem Control.isFirm_of_isOutcome {c : Control} (outcome : c.isOutcome) : c.isFirm = false := by
  cases c <;> first | rfl | cases outcome

/-- Frames are taken off by a thread that has an outcome and no errands. -/
theorem Step.stack_kept (step : Step w t w' t')
    (busy : t.agenda ≠ [] ∨ t.control.isOutcome = false) : ∃ fs, t'.stack = fs ++ t.stack := by
  have pops : t.agenda = [] → t.control.isOutcome = true → ∃ fs, t'.stack = fs ++ t.stack := by
    intro idle outcome
    rcases busy with busy | inside
    · exact absurd idle busy
    · rw [inside] at outcome
      cases outcome
  cases step with
  | stay => exact ⟨[], rfl⟩
  | errand step => exact ⟨[], step.frames.1⟩
  | host step =>
    cases step with
    | code => exact ⟨_, rfl⟩
    | giveCode idle at' | giveAgain idle at' | giveRunning idle at' | giveSettling idle at'
    | giveLeaving idle at' => exact pops idle (by rw [at']; rfl)
    | dropCode idle exit | dropAgain idle exit | dropEvaluation idle exit | dropLeaving idle exit =>
      exact pops idle (Control.isOutcome_of_isExit exit)
    | _ => exact ⟨[], rfl⟩
  | forcing step =>
    cases step with
    | evaluate => exact ⟨[.again], rfl⟩
    | @body n claim fs => exact ⟨fs ++ [.running n claim], by simp⟩
    | _ => exact ⟨[], rfl⟩
  | waits step => cases step with | _ => exact ⟨[], rfl⟩
  | attempt step => cases step with | _ => exact ⟨[], rfl⟩

/-- A step above some frames leaves them alone. -/
theorem Step.above (step : Step w t w' t') (away : t.isBackAt base.length = false)
    (above : ∃ fs, t.stack = fs ++ base) : ∃ fs, t'.stack = fs ++ base := by
  obtain ⟨gs, stack⟩ := above
  cases gs with
  | nil =>
    have busy : t.agenda ≠ [] ∨ t.control.isOutcome = false := by
      by_contra both
      simp only [ne_eq, not_or, not_not, Bool.not_eq_false] at both
      obtain ⟨idle, outcome⟩ := both
      rw [Thread.isBackAt, idle, stack] at away
      cases at' : t.control <;> simp [at', Control.isOutcome] at outcome away
    obtain ⟨fs, same⟩ := step.stack_kept busy
    exact ⟨fs, by rw [same, stack, List.nil_append]⟩
  | cons g gs =>
    have rest : ∀ {f : Frame} {fs : List Frame}, t.stack = f :: fs → fs = gs ++ base :=
      fun top => by
        rw [stack] at top
        exact (List.cons.inj top).2.symm
    rcases step.stack_cases with ⟨fs, same⟩ | ⟨f, fs, top, popped⟩
    · exact ⟨fs ++ g :: gs, by simp [same, stack]⟩
    · obtain rfl := rest top
      rcases popped with ⟨⟨fs, same⟩, -⟩ | ⟨m, -, same⟩ | ⟨m, claim, -, same | ⟨v, same, -⟩ | ⟨same, -⟩⟩
      · exact ⟨fs ++ gs, by simp [same]⟩
      · exact ⟨gs, same⟩
      · exact ⟨.settling m claim :: gs, same⟩
      · exact ⟨.leaving m :: gs, same⟩
      · exact ⟨gs, same⟩

/-! ## The update stack -/

/-- While a thread runs, no other thread begins on its context. -/
theorem Change.alone {s s' : State} {m : Move} {i j : ThreadId} (change : Change s m s')
    (seats : s.Seats) (found : s.threads[i]? = some t) (runs : t.Runs)
    (found' : s'.threads[j]? = some u) (active : u.Runs) (same : u.context = t.context) :
    j = i := by
  have old : ∀ {v : Thread}, s.threads[j]? = some v → v.Runs → v.context = t.context → j = i :=
    fun before active same => seats.alone j i _ t before found active runs same
  cases change with
  | step at' step =>
    rcases getElem?_setIfInBounds_some found' with ⟨rfl, rfl⟩ | ⟨-, before⟩
    · exact old at' (step.runs active) (step.context ▸ same)
    · exact old before active same
  | quiet | wake | seat => exact old found' active same
  | start seated free =>
    rcases getElem?_push_some found' with ⟨-, rfl⟩ | before
    · have ended := free t (Array.mem_of_getElem? found) same.symm
      rw [show t.outcome? = none from runs] at ended
      cases ended
    · exact old before active same

namespace Run

variable (run : Run)

/-- Thread `i` calls the evaluator at time `a`, over `depth` frames, and the call returns at time
`b`. -/
structure Calls (i : ThreadId) (a b depth : Nat) : Prop where
  le : a ≤ b
  called : ((run.state a).threads[i]?).any fun t => t.calls && t.stack.length == depth
  away : ∀ k < b, a ≤ k → ((run.state k).threads[i]?).any (·.isBackAt depth) = false
  back : ((run.state b).threads[i]?).any (·.isBackAt depth)

variable {run} {i : ThreadId} {a b k depth : Nat}

theorem tracks_next (found : (run.state k).threads[i]? = some t) (runs : t.Runs)
    (found' : (run.state (k + 1)).threads[i]? = some t') :
    ((run.state (k + 1)).world.context t'.context).stack.Tracks t'.evaluations := by
  have framed := run.framed (k + 1)
  by_cases active : t'.Runs
  · exact framed.running i t' found' active
  · have seated := (run.seats (k + 1)).seated i t' found'
    have same : t'.context = t.context := by
      obtain ⟨u, there, rfl | step⟩ := (run.change k).thread found
      · rw [there] at found'
        cases found'
        rfl
      · rw [there] at found'
        cases found'
        exact step.context
    rw [Thread.evaluations_of_ended active]
    refine framed.idle _ seated fun u mem at' runs' => ?_
    obtain ⟨j, there⟩ := Array.mem_iff_getElem?.1 mem
    obtain rfl := (run.change k).alone (run.seats k) found runs there runs' (at'.trans same)
    rw [there] at found'
    cases found'
    exact active runs'

namespace Calls

variable (calls : run.Calls i a b depth)

include calls

theorem caller : ∃ t, (run.state a).threads[i]? = some t ∧ t.agenda = [] ∧
    t.control.isCall = true ∧ t.stack.length = depth := by
  have called := calls.called
  simp only [Option.any_eq_true, Bool.and_eq_true, beq_iff_eq, Thread.calls,
    List.isEmpty_iff] at called
  obtain ⟨t, found, ⟨idle, call⟩, length⟩ := called
  exact ⟨t, found, idle, call, length⟩

theorem lt : a < b := by
  refine Nat.lt_of_le_of_ne calls.le ?_
  rintro rfl
  obtain ⟨t, found, -, call, -⟩ := calls.caller
  have back := calls.back
  rw [found] at back
  cases at' : t.control <;> simp_all [Thread.isBackAt, Control.isCall]

/-- The caller's frames are there all the time. -/
theorem above (found : (run.state a).threads[i]? = some t) (le : a ≤ k) (le' : k ≤ b) :
    ∃ u, (run.state k).threads[i]? = some u ∧ u.context = t.context ∧
      ∃ fs, u.stack = fs ++ t.stack := by
  induction le with
  | refl => exact ⟨t, found, rfl, [], rfl⟩
  | @step k le ih =>
    obtain ⟨u, there, same, above⟩ := ih (Nat.le_of_succ_le le')
    obtain ⟨v, found', rfl | step⟩ := (run.change k).thread there
    · exact ⟨v, found', same, above⟩
    · have away := calls.away k le' le
      obtain ⟨t', found'', -, -, length⟩ := calls.caller
      rw [found] at found''
      cases found''
      refine ⟨v, found', step.context.trans same, step.above ?_ above⟩
      simpa [there, length] using away

theorem runs (le : a ≤ k) (lt : k < b) : ∃ u, (run.state k).threads[i]? = some u ∧ u.Runs := by
  obtain ⟨t, found, -, -, length⟩ := calls.caller
  obtain ⟨u, there, -, fs, stack⟩ := calls.above found le (Nat.le_of_lt lt)
  refine ⟨u, there, ?_⟩
  by_cases empty : u.stack = []
  · have away := calls.away k lt le
    have none : depth = 0 := by
      have nil : t.stack = [] := (List.append_eq_nil_iff.1 (stack.symm.trans empty)).2
      rw [← length, nil, List.length_nil]
    simp only [there, Option.any_some, Thread.isBackAt, none, empty, List.length_nil] at away
    unfold Thread.Runs Thread.outcome?
    split <;> simp_all
  · exact Thread.runs_of_stack empty

theorem tracks (le : a < k) (le' : k ≤ b) (found : (run.state k).threads[i]? = some u) :
    ((run.state k).world.context u.context).stack.Tracks u.evaluations := by
  obtain ⟨k, rfl⟩ : ∃ j, k = j + 1 := ⟨k - 1, by omega⟩
  obtain ⟨t, before, runs⟩ := calls.runs (Nat.lt_succ_iff.1 le) le'
  exact run.tracks_next before runs found

theorem returned (found : (run.state a).threads[i]? = some t) :
    ∃ u, (run.state b).threads[i]? = some u ∧ u.agenda = [] ∧ u.control.isOutcome = true ∧
      u.context = t.context ∧ u.stack = t.stack := by
  obtain ⟨u, there, same, fs, stack⟩ := calls.above found calls.le (Nat.le_refl b)
  obtain ⟨t', found', -, -, length⟩ := calls.caller
  rw [found] at found'
  cases found'
  have back := calls.back
  simp only [there, Option.any_some, Thread.isBackAt, Bool.and_eq_true, List.isEmpty_iff,
    beq_iff_eq] at back
  obtain ⟨⟨idle, height⟩, outcome⟩ := back
  have none : fs = [] := by
    rw [stack, List.length_append, length] at height
    exact List.length_eq_zero_iff.1 (by omega)
  refine ⟨u, there, idle, ?_, same, by rw [stack, none, List.nil_append]⟩
  cases at' : u.control <;> simp_all [Control.isOutcome]

/-- The update stack is what it was. -/
theorem stack_restored (found : (run.state a).threads[i]? = some t) :
    ((run.state b).world.context t.context).stack.frames =
        ((run.state a).world.context t.context).stack.frames ∧
      ∀ n, ((run.state b).world.context t.context).stack.active.contains n =
        ((run.state a).world.context t.context).stack.active.contains n := by
  obtain ⟨u, there, -, outcome, same, stack⟩ := calls.returned found
  obtain ⟨t', found', -, call, -⟩ := calls.caller
  rw [found] at found'
  cases found'
  have before : t.evaluations = t.stack.filterMap Frame.thunk? :=
    t.evaluations_eq (Control.isFirm_of_isCall call)
  have after : u.evaluations = t.stack.filterMap Frame.thunk? := by
    rw [u.evaluations_eq (Control.isFirm_of_isOutcome outcome), stack]
  have runs : t.Runs := Thread.runs_of_control (by
    cases at' : t.control <;> simp_all [Control.isCall, Control.isOutcome])
  have first := (run.framed a).running i t found runs
  have last := calls.tracks calls.lt (Nat.le_refl b) there
  rw [before] at first
  rw [after, same] at last
  refine ⟨last.frames.trans first.frames.symm, fun n => ?_⟩
  rw [Bool.eq_iff_iff, last.active, first.active]

end Calls

end Run

end LazyGraph

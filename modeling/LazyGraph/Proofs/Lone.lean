import LazyGraph.Proofs.Duties
import LazyGraph.Proofs.Reentry
import LazyGraph.Proofs.Unclaimed

/-!
# Lone threads

A thread that meets no claim but its own never waits. It stays alone as long as its host leaves the
slots of thunks to the evaluator.
-/

namespace LazyGraph

/-- The host leaves the slot of a thunk to the evaluator. -/
def Thread.isTame (t : Thread) : Bool :=
  match t.control with
  | .perform (.onThunk op) _ _ => !op.isRaw
  | _ => true

/-- Controls of a thread that meets no claim of another task. -/
def Control.isOwn : Control → Bool
  | .force _ _ | .seize _ _ | .start _ _ | .body _ _ | .recheck _ _ | .update _ _
  | .install _ _ _ => true
  | c => c.isCalm

/-- A thread whose task is the only one with claims. -/
structure Lone (w : World) (t : Thread) : Prop where
  seated : t.context < w.contexts.size
  steady : t.Steady
  noted : t.Noted
  tracks : (w.context t.context).stack.Tracks t.evaluations
  own : t.control.isOwn
  cells : ∀ n c, (w.slot n).cell = some c → c = .blackHole (t.me w) ∨ ∃ v, c = .value v
  answers : ∀ n, (w.slot n).ownedBy (t.me w) = true → t.Answers n

variable {w w' : World} {t t' : Thread} {n : NodeId} {claim : Bool}

theorem Control.isOwn_of_isCalm {c : Control} (calm : c.isCalm) : c.isOwn := by
  cases c <;> first | rfl | cases calm

theorem Control.modest_of_isOwn {c : Control} (own : c.isOwn) : c.Modest := by
  cases c <;> trivial

theorem Lone.not_waits (lone : Lone w t) : ¬ Waits w t w' t' := by
  have own := lone.own
  intro step
  cases step <;> simp_all [Control.isOwn, Control.isCalm, Control.isCode]

theorem Lone.not_attempts (lone : Lone w t) : ¬ Attempt w t w' t' := by
  have own := lone.own
  intro step
  cases step <;> simp_all [Control.isOwn, Control.isCalm, Control.isCode]

theorem HostStep.own (step : HostStep w t w' t') (tame : t.isTame) : t'.control.isOwn := by
  cases step with
  | attempt _ host raw => simp [Thread.isTame, host, raw] at tame
  | code _ _ _ _ calm | giveCode _ _ _ _ _ _ calm => exact Control.isOwn_of_isCalm calm
  | dropCode _ exit _ _ caught =>
    rcases caught with rfl | ⟨code, env, rfl⟩
    · exact Control.isOwn_of_isCalm (Control.isCalm_of_isExit exit)
    · rfl
  | dropAgain _ exit | dropEvaluation _ exit | dropLeaving _ exit =>
    exact Control.isOwn_of_isCalm (Control.isCalm_of_isExit exit)
  | _ => rfl

theorem Lone.own_step (lone : Lone w t) (tame : t.isTame) (step : Step w t w' t') :
    t'.control.isOwn := by
  have own := lone.own
  cases step with
  | stay => exact own
  | errand step =>
    rcases step.frames.2 with same | exit
    · exact same ▸ own
    · exact Control.isOwn_of_isCalm (Control.isCalm_of_isExit exit)
  | host step => exact step.own tame
  | forcing step =>
    cases step with
    | body _ _ _ calm => exact Control.isOwn_of_isCalm calm
    | await _ _ held taken other =>
      rcases lone.cells _ _ held with rfl | ⟨v, rfl⟩
      · exact absurd rfl other
      · exact absurd rfl (taken v)
    | _ => rfl
  | waits step => exact absurd step lone.not_waits
  | attempt step => exact absurd step lone.not_attempts

theorem Lone.cells_step (lone : Lone w t) (step : Step w t w' t') (n : NodeId) (c : Cell)
    (held : (w'.slot n).cell = some c) : c = .blackHole (t.me w) ∨ ∃ v, c = .value v := by
  have own := lone.own
  rcases step.cell_origin held with old | writes
  · exact lone.cells n c old
  · generalize is : some c = cell at writes
    cases writes with
    | @overwrite n v =>
      cases v with
      | none => cases is
      | some v => exact .inr ⟨v, Option.some.inj is⟩
    | surrendered => cases is
    | seized => exact .inl (Option.some.inj is)
    | installed => exact .inr ⟨_, Option.some.inj is⟩
    | locked at' | published _ at' | exchanged at' =>
      rw [at'] at own
      cases own

theorem Lone.answers_step (lone : Lone w t) (step : Step w t w' t') (n : NodeId)
    (owned : (w'.slot n).ownedBy (t.me w) = true) : t'.Answers n := by
  rcases step.owned_origin lone.noted (Control.modest_of_isOwn lone.own) owned with old | ⟨-, new⟩
  · rcases step.answers lone.steady (lone.answers n old) with stays | lost
    · exact stays
    · rw [owned] at lost
      cases lost
  · exact new

theorem Lone.step (lone : Lone w t) (tame : t.isTame) (step : Step w t w' t') : Lone w' t' where
  seated := by
    rw [step.context, step.keeps.contexts]
    exact lone.seated
  steady := step.steady lone.steady
  noted := step.noted lone.noted
  tracks := by
    rw [step.context]
    exact (step.evaluates lone.steady).tracks lone.seated lone.tracks
  own := lone.own_step tame step
  cells n c held := by
    rw [step.me]
    exact lone.cells_step step n c held
  answers n owned := by
    rw [step.me] at owned
    exact lone.answers_step step n owned

theorem Lone.reaches (lone : Lone w t) (reaches : Reaches w t w' t') : Lone w' t' := by
  induction reaches with
  | refl => exact lone
  | @step w t w' t' direct rest ih =>
    refine ih (lone.step ?_ (step_cases w t))
    unfold Thread.isTame
    split
    · rename_i at'
      rw [at'] at direct
      cases direct
    · rfl

theorem Lone.slot_cases (lone : Lone w t) (n : NodeId) :
    (w.slot n).cell = none ∨ (∃ v, (w.slot n).cell = some (.value v)) ∨
      (w.slot n).cell = some (.blackHole (t.me w)) := by
  cases held : (w.slot n).cell with
  | none => exact .inl rfl
  | some c =>
    rcases lone.cells n c held with rfl | ⟨v, rfl⟩
    · exact .inr (.inr rfl)
    · exact .inr (.inl ⟨v, rfl⟩)

theorem Lone.unqueued (lone : Lone w t) (n : NodeId) : (w.slot n).queue? = none := by
  rcases lone.slot_cases n with held | ⟨v, held⟩ | held <;> simp [Slot.queue?, held]

theorem Lone.untaken (lone : Lone w t) (unowned : (w.slot n).ownedBy (t.me w) = false) :
    (w.slot n).Untaken := by
  intro c held
  rcases lone.cells n c held with rfl | value
  · simp [Slot.ownedBy, held, Cell.owner?] at unowned
  · exact value

/-- A claim that no control and no errand answers for is that of an evaluation under way. -/
theorem Lone.active (lone : Lone w t) (idle : t.agenda = []) (free : t.control.claim? = none)
    (owned : (w.slot n).ownedBy (t.me w) = true) : n ∈ t.stack.filterMap Frame.thunk? := by
  cases lone.answers n owned with
  | control at' =>
    rw [free] at at'
    cases at'
  | errand known =>
    rw [idle] at known
    cases known
  | @frame f known is =>
    exact List.mem_filterMap.2 ⟨f, known, Frame.thunk?_of_claim? is⟩

end LazyGraph

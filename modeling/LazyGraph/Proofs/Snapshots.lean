import LazyGraph.Proofs.Errands
import LazyGraph.Proofs.Writes

/-!
# What threads have seen

A compare-exchange is made against an earlier reading of the slot. Which readings a thread can act
on does not depend on other threads, and none of them is a value: only an overwrite removes a value
from a slot.
-/

namespace LazyGraph

def Waiting.Noted (x : Waiting) : Prop :=
  ∀ seen, x.lock = some seen → seen.cell = some (.locked (some x.owner))

/-- What the slot readings in a control can be. -/
def Control.Noted : Control → Prop
  | .seize _ seen => seen.cell = none
  | .install _ _ seen => seen.value? = none
  | .lock _ _ owner seen => seen.cell = some (.blackHole owner)
  | .gather _ _ owner seen => seen.cell = some (.locked (some owner))
  | .enlist x | .enrol x | .confirm x | .retract x | .enlisted x _ | .publish x _ => x.Noted
  | .exchange _ seen cell =>
    (seen.cell = none ∨ seen.cell = some (.locked none)) ∧
      (cell = none ∨ cell = some (.locked none) ∨ ∃ u, cell = some (.blackHole u))
  | _ => True

def Action.Noted : Action → Prop
  | .surrender _ seen => (seen.cell.bind Cell.owner?).isSome
  | _ => True

structure Thread.Noted (t : Thread) : Prop where
  control : t.control.Noted
  agenda : ∀ a ∈ t.agenda, a.Noted

variable {w w' : World} {t t' : Thread} {n : NodeId}

theorem Control.noted_of_isCalm {c : Control} (calm : c.isCalm) : c.Noted := by
  cases c <;> trivial

theorem Plans.noted {a : Action} (plans : Plans w t w' t' a) : a.Noted := by
  cases plans with
  | plain plain => cases a <;> trivial
  | surrender owned =>
    simp only [Slot.ownedBy, beq_iff_eq] at owned
    simp [Action.Noted, owned]
  | _ => trivial

theorem HostStep.noted (step : HostStep w t w' t') : t'.control.Noted := by
  rcases step.lands with calm | ⟨n, is⟩ | ⟨op, n, ns, env, -, is⟩ |
    ⟨n, v, e, is, -⟩
  · exact Control.noted_of_isCalm calm
  all_goals
    rw [is]
    trivial

theorem Forcing.noted (step : Forcing w t w' t') : t'.control.Noted := by
  cases step with
  | take _ _ free | update _ _ free => exact free
  | body _ _ _ calm => exact Control.noted_of_isCalm calm
  | _ => trivial

theorem Waits.noted (step : Waits w t w' t') (noted : t.control.Noted) : t'.control.Noted := by
  cases step with
  | busy | asleep => exact noted
  | lock _ _ held => exact held
  | @locked n claim owner seen _ at' same =>
    rw [at'] at noted
    have held : (w.slot n).cell = some (.blackHole owner) :=
      (Slot.cell_of_unchanged same).trans noted
    obtain ⟨th, found⟩ := World.thunk_of_cell held
    simp [Control.Noted, World.slot_write_self found]
  | gathered _ at' =>
    rw [at'] at noted
    rintro seen ⟨⟩
    exact noted
  | joined =>
    rintro seen ⟨⟩
  | enlist _ at' | enlisted _ at' | enrolled _ at' | confirmClosed _ at' | confirm _ at'
  | retract _ at' =>
    rw [at'] at noted
    exact noted
  | @proceed x blocked | @published x blocked => cases blocked <;> trivial
  | _ => trivial

theorem Attempt.noted (step : Attempt w t w' t') : t'.control.Noted := by
  cases step with
  | @probe op n cell _ _ tries =>
    unfold ThunkOp.attempt? at tries
    split at tries <;> cases tries <;> simp_all [Control.Noted]
  | hopeless | exchanged | missed => trivial

theorem Step.noted (step : Step w t w' t') (noted : t.Noted) : t'.Noted := by
  refine ⟨?_, ?_⟩
  · cases step with
    | stay => exact noted.control
    | errand step =>
      rcases step.frames.2 with same | exit
      · exact same ▸ noted.control
      · exact Control.noted_of_isCalm (Control.isCalm_of_isExit exit)
    | host step => exact step.noted
    | forcing step => exact step.noted
    | waits step => exact step.noted noted.control
    | attempt step => exact step.noted
  · intro a known
    rcases step.plans known with old | plans
    · exact noted.agenda a old
    · exact plans.noted

theorem Run.noted (run : Run) (k : Nat) : (run.state k).Each fun _ t => t.Noted := by
  refine run.always (P := (·.Each fun _ t => t.Noted)) (fun i t found => by simp at found) ?_ k
  intro k each
  refine (run.change k).each each (fun _ => id) ?_ ?_
  · intro i t t' found step
    exact step.noted (each i t found)
  · intro t c env errands frames code
    exact ⟨by rw [code]; trivial, by simp [errands]⟩

/-! ## Values stay -/

theorem Slot.value?_eq_none_of_cell {s : Slot} (free : ∀ v, s.cell ≠ some (.value v)) :
    s.value? = none := by
  cases known : s.value? with
  | none => rfl
  | some v => exact absurd (Slot.value?_eq_some.1 known) (free v)

theorem Action.value?_of_noted {m : NodeId} {seen : Slot}
    (noted : (Action.surrender m seen).Noted) : seen.value? = none := by
  refine Slot.value?_eq_none_of_cell fun v held => ?_
  simp [Action.Noted, held, Cell.owner?] at noted

theorem Writes.value?_eq_none {cell : Option Cell} (writes : Writes w t t' n cell)
    (noted : t.Noted) (kept : ∀ x as, t.agenda ≠ .overwrite n x :: as) :
    (w.slot n).value? = none := by
  obtain ⟨control, agenda⟩ := noted
  have read : ∀ {seen : Slot}, (w.slot n).unchanged seen = true → seen.value? = none →
      (w.slot n).value? = none := fun same free => by
    rw [Slot.value?, Slot.cell_of_unchanged same, ← Slot.value?]
    exact free
  cases writes with
  | overwrite next => exact absurd next (kept _ _)
  | surrendered next same =>
    exact read same (Action.value?_of_noted (agenda _ (by rw [next]; exact List.mem_cons_self)))
  | seized at' same | locked at' same =>
    rw [at'] at control
    exact read same (by simp [Slot.value?, show _ = _ from control])
  | installed at' same =>
    rw [at'] at control
    exact read same control
  | published _ at' made same =>
    rw [at'] at control
    exact read same (by simp [Slot.value?, control _ made])
  | exchanged at' same =>
    rw [at'] at control
    refine read same ?_
    rcases control.1 with free | free <;> simp [Slot.value?, free]

theorem Step.value_kept {v : NodeId} (step : Step w t w' t') (noted : t.Noted)
    (held : (w.slot n).cell = some (.value v)) (kept : ∀ x as, t.agenda ≠ .overwrite n x :: as) :
    (w'.slot n).cell = some (.value v) := by
  rcases step.cell_kept held with stays | ⟨cell, writes, -⟩
  · exact stays
  · have free := writes.value?_eq_none noted kept
    rw [Slot.value?_eq_some.2 held] at free
    cases free

theorem Run.value_kept (run : Run) {c d : Nat} {v : NodeId} (le : c ≤ d)
    (held : ((run.state c).world.slot n).cell = some (.value v))
    (kept : ∀ m, c ≤ m → m < d → ¬ (run.state m).Resets (run.move m) n) :
    ((run.state d).world.slot n).cell = some (.value v) := by
  induction le with
  | refl => exact held
  | @step d le ih =>
    have before := ih fun m low high => kept m low (Nat.lt_succ_of_lt high)
    have last := kept d le (Nat.lt_succ_self d)
    have noted := run.noted d
    have change := run.change d
    revert change
    generalize run.state (d + 1) = after
    intro change
    cases change with
    | @step i t w' t' at' step moved =>
      refine step.value_kept (noted i t at') before ?_
      intro x as next
      rcases moved with moved | ⟨g, as', gate⟩
      · exact last ⟨i, t, x, as, moved, at', next⟩
      · rw [next] at gate
        cases gate
    | quiet quiet => rw [quiet.slot n, before]
    | wake => exact before
    | start => exact before
    | seat => exact before

end LazyGraph

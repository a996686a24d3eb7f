import LazyGraph.Proofs.Evolution

/-!
# What a step does to slots

At most one slot is written in a step. Except for an overwrite, a write is the second half of a
compare-exchange.
-/

namespace LazyGraph

inductive Writes (w : World) (t t' : Thread) : NodeId → Option Cell → Prop
  | overwrite {n v as} (next : t.agenda = .overwrite n v :: as)
    (after : t'.agenda = (((w.slot n).queue?).map fun q => [Action.drain q .silent]).getD [] ++ as) :
    Writes w t t' n (v.map .value)
  | surrendered {n seen as} (next : t.agenda = .surrender n seen :: as)
    (same : (w.slot n).unchanged seen = true)
    (after : t'.agenda = afterSurrender (t.me w) seen ++ as) : Writes w t t' n none
  | seized {n seen} (at' : t.control = .seize n seen) (same : (w.slot n).unchanged seen = true)
    (after : t'.control = .start n true) (idle : t.agenda = []) :
    Writes w t t' n (some (.blackHole (t.me w)))
  | installed {n v seen e} (at' : t.control = .install n v seen)
    (same : (w.slot n).unchanged seen = true)
    (after : t'.agenda = .clear n :: Thread.afterInstall (t.me w) seen ++ [.emit e])
    (idle : t.agenda = []) : Writes w t t' n (some (.value v))
  | locked {n claim owner seen} (at' : t.control = .lock n claim owner seen)
    (same : (w.slot n).unchanged seen = true) (idle : t.agenda = []) :
    Writes w t t' n (some (.locked (some owner)))
  | published {x blocked seen} (idle : t.agenda = []) (at' : t.control = .publish x blocked)
    (made : x.lock = some seen) (same : (w.slot x.thunk).unchanged seen = true)
    (reports : ∀ a ∈ t'.agenda, a.isReport)
    (after : t'.control = if blocked then .suspend x.thunk x.claim else .force x.thunk x.claim) :
    Writes w t t' x.thunk (some (.queue x.queue x.owner))
  | exchanged {n seen cell} (at' : t.control = .exchange n seen cell)
    (same : (w.slot n).unchanged seen = true) (idle : t.agenda = []) : Writes w t t' n cell

variable {w w' : World} {t t' : Thread} {n m : NodeId} {cell : Option Cell} {c : Cell}

theorem Step.writes (step : Step w t w' t') :
    (∀ n, w'.slot n = w.slot n) ∨
      ∃ n cell, Writes w t t' n cell ∧ ∀ m, w'.slot m = (w.write n cell).slot m := by
  have same : (∀ n, w.slot n = w.slot n) ∨
      ∃ n cell, Writes w t t' n cell ∧ ∀ m, w.slot m = (w.write n cell).slot m :=
    .inl fun _ => rfl
  cases step with
  | stay => exact same
  | errand step =>
    cases step with
    | quiet _ _ quiet | dismissListed _ quiet => exact .inl quiet.slot
    | overwrite next => exact .inr ⟨_, _, .overwrite next rfl, fun _ => rfl⟩
    | surrendered next unchanged => exact .inr ⟨_, _, .surrendered next unchanged rfl, fun _ => rfl⟩
    | _ => exact .inl fun _ => rfl
  | host step =>
    cases step with
    | code _ _ quiet | abandon _ _ quiet | clear _ _ quiet | reset _ _ quiet | set _ _ quiet
    | revert _ _ quiet | giveCode _ _ _ _ quiet => exact .inl quiet.slot
    | _ => exact .inl fun _ => rfl
  | forcing step =>
    cases step with
    | seized idle at' unchanged =>
      exact .inr ⟨_, _, .seized at' unchanged rfl idle, fun _ => rfl⟩
    | installed idle at' unchanged =>
      exact .inr ⟨_, _, .installed at' unchanged rfl idle, fun _ => rfl⟩
    | _ => exact .inl fun _ => rfl
  | waits step =>
    cases step with
    | locked idle at' unchanged => exact .inr ⟨_, _, .locked at' unchanged idle, fun _ => rfl⟩
    | published idle at' made unchanged reports =>
      exact .inr ⟨_, _, .published idle at' made unchanged reports rfl, fun _ => rfl⟩
    | joined _ _ pushed =>
      obtain ⟨queues, Q, rfl, -⟩ := World.push?_eq_some pushed
      exact .inl fun _ => rfl
    | enlist _ _ quiet | retract _ _ quiet | enlisted _ _ quiet => exact .inl quiet.slot
    | _ => exact .inl fun _ => rfl
  | attempt step =>
    cases step with
    | probe => exact .inl fun _ => rfl
    | hopeless _ _ quiet | missed _ _ quiet => exact .inl quiet.slot
    | exchanged idle at' unchanged quiet =>
      exact .inr ⟨_, _, .exchanged at' unchanged idle, quiet.slot⟩

theorem Step.cell_origin (step : Step w t w' t') (held : (w'.slot n).cell = some c) :
    (w.slot n).cell = some c ∨ Writes w t t' n (some c) := by
  rcases step.writes with same | ⟨m, cell, writes, after⟩
  · exact .inl (same n ▸ held)
  · rw [after n] at held
    rcases World.cell_write held with ⟨rfl, rfl⟩ | ⟨old, -⟩
    · exact .inr writes
    · exact .inl old

theorem Step.cell_kept (step : Step w t w' t') (held : (w.slot n).cell = some c) :
    (w'.slot n).cell = some c ∨
      ∃ cell, Writes w t t' n cell ∧ w'.slot n = (w.slot n).write cell ∧
        ∀ m, m ≠ n → w'.slot m = w.slot m := by
  rcases step.writes with same | ⟨m, cell, writes, after⟩
  · exact .inl ((same n).symm ▸ held)
  · by_cases same : n = m
    · subst same
      obtain ⟨th, found⟩ := World.thunk_of_cell held
      refine .inr ⟨cell, writes, (after n).trans (World.slot_write_self found cell), ?_⟩
      intro m other
      rw [after m, World.slot_write_ne other]
    · rw [after n, World.slot_write_ne same]
      exact .inl held

end LazyGraph

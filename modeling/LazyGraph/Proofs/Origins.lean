import LazyGraph.Proofs.Realization

/-!
# The graph of a run

What a node was built as can be told as long as it has not been released, and never changes. So a run
has one graph, which fits all of its states.
-/

namespace LazyGraph

def World.origin? (w : World) (n : NodeId) : Option Origin :=
  match w.node? n with
  | some (.value v) => some (.value v)
  | some (.thunk th) => if th.suspension.cleared then none else some (.thunk th.suspension)
  | none => none

variable {w w' : World} {n : NodeId}

namespace World

theorem origin?_of_value {v : Value} (found : w.value? n = some v) :
    w.origin? n = some (.value v) := by
  simp [origin?, value?_eq_some.1 found]

theorem origin?_of_suspension {s : Suspension} (found : w.suspension? n = some s)
    (whole : s.cleared = false) : w.origin? n = some (.thunk s) := by
  obtain ⟨th, there, rfl⟩ := suspension?_eq_some.1 found
  simp [origin?, thunk?_eq_some.1 there, whole]

theorem origin?_cases {x : Origin} (known : w.origin? n = some x) :
    (∃ v, x = .value v ∧ w.value? n = some v) ∨
      ∃ s, x = .thunk s ∧ w.suspension? n = some s ∧ s.cleared = false := by
  unfold origin? at known
  split at known
  · rename_i v node
    cases known
    exact .inl ⟨v, rfl, value?_eq_some.2 node⟩
  · rename_i th node
    split at known
    · cases known
    · rename_i whole
      cases known
      exact .inr ⟨_, rfl, suspension?_eq_some.2 ⟨th, thunk?_eq_some.2 node, rfl⟩, by simpa using whole⟩
  · cases known

end World

namespace Run

variable {run : Run} {j k : Nat} {x y : Origin}

theorem origin_kept (whole : run.Whole) (le : j ≤ k)
    (known : (run.state j).world.origin? n = some x)
    (later : (run.state k).world.origin? n = some y) : x = y := by
  obtain ⟨v, rfl, found⟩ | ⟨s, rfl, found, uncleared⟩ := World.origin?_cases known
  · rw [World.origin?_of_value ((run.evolves le).value n v found)] at later
    exact Option.some.inj later
  · rcases run.suspension_kept whole le found with same | cleared
    · rw [World.origin?_of_suspension same uncleared] at later
      exact Option.some.inj later
    · cases constant : s.isConstant with
      | true =>
        rw [Suspension.clear_of_isConstant constant] at cleared
        rw [World.origin?_of_suspension cleared uncleared] at later
        exact Option.some.inj later
      | false =>
        obtain ⟨th, there, is⟩ := World.suspension?_eq_some.1 cleared
        simp [World.origin?, World.thunk?_eq_some.1 there, is,
          Suspension.cleared_clear constant] at later

theorem origin_unique (whole : run.Whole) (known : (run.state j).world.origin? n = some x)
    (other : (run.state k).world.origin? n = some y) : x = y := by
  rcases Nat.le_total j k with le | le
  · exact origin_kept whole le known other
  · exact (origin_kept whole le other known).symm

/-- Each thunk was built with its code. -/
theorem origin_of_suspension (whole : run.Whole) (k : Nat) {s : Suspension}
    (found : (run.state k).world.suspension? n = some s) :
    ∃ j ≤ k, ∃ s', (run.state j).world.origin? n = some (.thunk s') := by
  induction k generalizing s with
  | zero =>
    obtain ⟨th, there, -⟩ := World.suspension?_eq_some.1 found
    cases World.lt_of_node? (World.thunk?_eq_some.1 there)
  | succ k ih =>
    have earlier : ∀ {s}, (run.state k).world.suspension? n = some s →
        ∃ j ≤ k + 1, ∃ s', (run.state j).world.origin? n = some (.thunk s') := by
      intro s old
      obtain ⟨j, le, s', known⟩ := ih old
      exact ⟨j, Nat.le_succ_of_le le, s', known⟩
    rcases run.suspensions whole k with retains | ⟨i, t, m, as, -, -, -, same⟩
    · rcases retains.new n s found with old | uncleared
      · exact earlier old
      · exact ⟨k + 1, Nat.le_refl _, s, World.origin?_of_suspension found uncleared⟩
    · rw [same] at found
      have thunk : ((run.state k).world.thunk? n).isSome := by
        rw [World.suspension?_release] at found
        split at found
        · obtain ⟨s', old, -⟩ := Option.map_eq_some_iff.1 found
          exact World.thunk?_of_suspension? old
        · exact World.thunk?_of_suspension? found
      obtain ⟨th, there⟩ := Option.isSome_iff_exists.1 thunk
      exact earlier (World.suspension?_eq_some.2 ⟨th, there, rfl⟩)

open Classical in
noncomputable def graph (run : Run) : Graph := fun n =>
  if h : ∃ x k, (run.state k).world.origin? n = some x then some h.choose else none

theorem graph_eq (whole : run.Whole) (known : (run.state k).world.origin? n = some x) :
    run.graph n = some x := by
  have built : ∃ x k, (run.state k).world.origin? n = some x := ⟨x, k, known⟩
  unfold graph
  rw [dif_pos built]
  obtain ⟨j, is⟩ := built.choose_spec
  rw [origin_unique whole is known]

theorem fits (whole : run.Whole) (k : Nat) : run.graph.Fits (run.state k).world where
  value _ _ found := graph_eq whole (World.origin?_of_value found)
  thunk n s found := by
    obtain ⟨j, le, s', known⟩ := origin_of_suspension whole k found
    refine ⟨s', graph_eq whole known, fun uncleared => ?_⟩
    have same := origin_unique whole known (World.origin?_of_suspension found uncleared)
    cases same
    rfl

end Run

end LazyGraph

import LazyGraph.Proofs.Grounded
import LazyGraph.Proofs.Release
import LazyGraph.Proofs.Snapshots

/-!
# Rooted runs

If what comes from outside names only nodes that are there, so does all that a run builds. If hosts
leave slots alone, then in such a run code is given up for a value only, and a thunk without a value
can always be run.
-/

namespace LazyGraph

variable {w w' : World} {t : Thread} {n v : NodeId}

/-! ## Whole runs -/

/-- What comes from outside names only nodes that are there. -/
def Move.In (H : NodeId → Prop) : Move → Prop
  | .start _ _ env _ _ => env.In H
  | .build v => v.In H
  | .suspend s => s.In H
  | .bind _ n => H n
  | _ => True

instance {H : NodeId → Prop} [DecidablePred H] : DecidablePred (Move.In H) := fun m =>
  match m with
  | .start _ _ env _ _ => inferInstanceAs (Decidable (env.In H))
  | .build v => inferInstanceAs (Decidable (v.In H))
  | .suspend s => inferInstanceAs (Decidable (s.In H))
  | .bind _ n => inferInstanceAs (Decidable (H n))
  | .step _ | .wake _ | .pass _ _ | .seat _ _ _ _ | .unbind _ | .assign _ _ | .keep _ _
  | .configure _ _ | .detour _ _ | .map | .capability _ _ _ | .poolStarted _ | .jobPanicked _
  | .rest => .isTrue trivial

def Run.Rooted (run : Run) : Prop :=
  ∀ k, (run.move k).In (run.state k).world.Has

theorem Run.rooted_ofMoves {log : Log} {moves : List Move} {admitted}
    (within : ∀ k < moves.length,
      (moves.getD k .rest).In ((ofMoves log moves admitted).state k).world.Has) :
    (ofMoves log moves admitted).Rooted := by
  intro k
  rw [ofMoves_move]
  by_cases before : k < moves.length
  · exact within k before
  · rw [getD_rest (Nat.not_lt.1 before)]
    trivial

def Run.NeverTouches (run : Run) : Prop :=
  ∀ k, ∀ t ∈ (run.state k).threads, t.touches = false

theorem Run.NeverTouches.neverFrees {run : Run} (hands : run.NeverTouches) : run.NeverFrees := by
  intro k t known
  have looks := hands k t known
  unfold Thread.frees
  split
  · rename_i at'
    simp [Thread.touches, at'] at looks
  · rfl

structure State.Grounded (s : State) : Prop where
  world : s.world.Grounded
  threads : s.Each fun w t => t.Grounded w

theorem World.Evolves.has (evolves : w.Evolves w') (has : w.Has n) : w'.Has n := by
  rw [World.has_iff] at has ⊢
  obtain ⟨x, found⟩ := Option.isSome_iff_exists.1 has
  cases x with
  | value x =>
    have kept := evolves.value n x (World.value?_eq_some.2 found)
    simp [World.value?_eq_some.1 kept]
  | thunk th =>
    have kept := evolves.thunk n (by simp [World.thunk?_eq_some.2 found])
    obtain ⟨th', found'⟩ := Option.isSome_iff_exists.1 kept
    simp [World.thunk?_eq_some.1 found']

theorem Run.extends (run : Run) (whole : run.Whole) {j k : Nat} (le : j ≤ k) :
    (run.state j).world.Extends (run.state k).world where
  has _ known := (run.evolves le).has known
  constant n known := by
    obtain ⟨s, found, constant⟩ := known
    exact ⟨s, run.constant_kept whole le found constant, constant⟩

theorem World.context_seat (task : Task) (context : Context) (c : ContextId) :
    ((w.addTask task).1.addContext context).1.context c =
      if c = w.contexts.size then context else w.context c := by
  simp only [World.context, World.addContext, World.addTask, Array.getD_eq_getD_getElem?,
    Array.getElem?_push]
  split <;> rfl

theorem World.Grounded.seat (world : w.Grounded) (task : Task) {context : Context}
    (fresh : context.registers.r1 = none) :
    ((w.addTask task).1.addContext context).1.Grounded := by
  refine world.of_same rfl rfl rfl fun c n at' => ?_
  rw [World.context_seat] at at'
  split at at'
  · rw [fresh] at at'
    cases at'
  · exact world.registers c n at'

theorem State.Grounded.after {s : State} {m : Move} (grounded : s.Grounded)
    (admitted : s.admits m) (rooted : m.In s.world.Has) (grown : s.world.Extends (s.after m).world)
    (looks : ∀ t ∈ s.threads, t.touches = false) : (s.after m).Grounded := by
  obtain ⟨world, threads⟩ := grounded
  have quiet : ∀ {w' : World}, w'.Grounded → s.world.Extends w' →
      State.Grounded { s with world := w' } := fun world' grown =>
    ⟨world', fun i t found => (threads i t found).extend grown⟩
  have same : ∀ {w' : World}, w'.heap = s.world.heap → w'.names = s.world.names →
      w'.registries = s.world.registries → w'.contexts = s.world.contexts →
      State.Grounded { s with world := w' } := fun heap names registries contexts =>
    quiet (world.of_same heap names registries fun c n at' =>
      world.registers c n (by rwa [World.context, contexts] at at'))
      (World.extends_of_heap heap)
  have reported : ∀ c e, State.Grounded { s with world := s.world.emit c e } := fun c e => by
    obtain ⟨log, is⟩ := s.world.emit_eq c e
    rw [is]
    exact same rfl rfl rfl rfl
  cases m with
  | step i =>
    cases found : s.threads[i]? with
    | none =>
      simp only [State.after, State.step, found]
      exact ⟨world, threads⟩
    | some t =>
      obtain ⟨world', own⟩ := grounded_step world (threads i t found)
        (looks t (Array.mem_of_getElem? found))
      obtain ⟨moved, -⟩ := State.own_step found
      refine ⟨by rw [State.after, moved]; exact world', fun j u there => ?_⟩
      simp only [State.after, State.step, found] at there ⊢
      rcases getElem?_setIfInBounds_some there with ⟨-, rfl⟩ | ⟨-, old⟩
      · exact own
      · refine (threads j u old).extend ?_
        simpa only [State.after, State.step, found] using grown
  | wake u => exact same rfl rfl rfl rfl
  | pass i g =>
    refine ⟨world, fun j u there => ?_⟩
    simp only [State.after, Array.getElem?_modify] at there
    split at there
    · rename_i here
      obtain ⟨t, found, rfl⟩ := Option.map_eq_some_iff.1 there
      rcases pass_cases t g with stays | ⟨as, next, passed⟩
      · rw [stays]
        exact threads j t found
      · rw [passed]
        exact (threads j t found).errands fun m x known => by simp [next, known]
    · exact threads j u there
  | start context code env mayStop maySuspend =>
    refine ⟨world, fun j u there => ?_⟩
    rcases getElem?_push_some there with ⟨-, rfl⟩ | old
    · exact {
        frames := by simp
        overwrites := by simp
        control := rooted
        registers := fun r n is => by cases is }
    · exact threads j u old
  | seat name capability config interpreter => exact quiet (world.seat _ rfl) grown
  | build v => exact quiet (world.alloc rooted) grown
  | suspend x => exact quiet (world.alloc ⟨rooted, by simp⟩) grown
  | bind x n =>
    refine quiet ⟨world.nodes, fun b known => ?_, world.registries, world.registers⟩ grown
    rcases World.mem_insert known with rfl | old
    · exact rooted
    · exact world.names b old
  | unbind x =>
    exact quiet ⟨world.nodes, fun b known => world.names b (List.mem_filter.1 known).1,
      world.registries, world.registers⟩ grown
  | assign x l => exact same rfl rfl rfl rfl
  | keep r on | configure r config =>
    exact quiet (world.setRegistry fun n known => world.constants known) grown
  | detour c d => exact quiet (world.setContext fun n is => world.registers c n is) grown
  | map | capability map name traced => exact same rfl rfl rfl rfl
  | poolStarted capabilities | jobPanicked c => exact reported _ _
  | rest => exact ⟨world, threads⟩

theorem Run.grounded (run : Run) (rooted : run.Rooted) (whole : run.Whole)
    (hands : run.NeverTouches) (k : Nat) : (run.state k).Grounded := by
  refine run.always (P := State.Grounded) ⟨⟨?_, ?_, ?_, ?_⟩, ?_⟩ ?_ k
  · intro n x found
    simp [World.node?] at found
  · simp
  · simp
  · intro c n at'
    simp [World.context, show (default : Context).registers.r1 = none from rfl] at at'
  · intro i t found
    simp at found
  · intro k grounded
    exact grounded.after (run.admitted k) (rooted k) (run.extends whole (Nat.le_succ k)) (hands k)

namespace Run

variable {run : Run} {j k : Nat} {s : Suspension}

/-- Only a revert resets, and it resets constants. -/
theorem constant_of_resets (rooted : run.Rooted) (whole : run.Whole) (hands : run.NeverTouches)
    (resets : (run.state k).Resets (run.move k) n) : (run.state k).world.Constant n := by
  obtain ⟨i, t, v, as, -, found, next⟩ := resets
  exact ((run.grounded rooted whole hands k).threads i t found).overwrites n v (by simp [next]) |>.1

theorem value_stays (rooted : run.Rooted) (whole : run.Whole) (hands : run.NeverTouches)
    (le : j ≤ k) (found : (run.state j).world.suspension? n = some s) (shrinks : s.isConstant = false)
    (held : ((run.state j).world.slot n).cell = some (.value v)) :
    ((run.state k).world.slot n).cell = some (.value v) := by
  refine run.value_kept le held fun m above _ resets => ?_
  obtain ⟨s', found', constant⟩ := constant_of_resets rooted whole hands resets
  rcases run.suspension_kept whole above found with same | cleared
  · rw [same] at found'
    cases found'
    simp [shrinks] at constant
  · rw [cleared] at found'
    cases found'
    simp [shrinks] at constant

/-- Code is given up for a value. -/
theorem value_of_cleared (rooted : run.Rooted) (whole : run.Whole) (hands : run.NeverTouches)
    (found : (run.state k).world.suspension? n = some s) (cleared : s.cleared = true) :
    ∃ v, ((run.state k).world.slot n).cell = some (.value v) := by
  obtain ⟨i, v, c, d, lt, lt', installs, -⟩ :=
    run.installs_of_cleared hands.neverFrees whole k found cleared
  have le : c + 1 ≤ k := by omega
  obtain ⟨th, there⟩ := World.thunk_of_cell installs.held
  have found' : (run.state (c + 1)).world.suspension? n = some th.suspension :=
    World.suspension?_eq_some.2 ⟨th, there, rfl⟩
  have shrinks : th.suspension.isConstant = false := by
    have shrunk : s.isConstant = false := by
      cases s <;> first | rfl | cases cleared
    rcases run.suspension_kept whole le found' with same | same
    · rw [found, Option.some.injEq] at same
      rwa [← same]
    · rw [found, Option.some.injEq] at same
      simpa [same] using shrunk
  exact ⟨v, value_stays rooted whole hands le found' shrinks installs.held⟩

/-- A thunk without a value can be run as ever. -/
theorem suspension_stays (rooted : run.Rooted) (whole : run.Whole) (hands : run.NeverTouches)
    (le : j ≤ k) (found : (run.state j).world.suspension? n = some s)
    (free : ((run.state k).world.slot n).value? = none) :
    (run.state k).world.suspension? n = some s := by
  rcases run.suspension_kept whole le found with same | cleared
  · exact same
  · cases constant : s.isConstant with
    | true => rwa [Suspension.clear_of_isConstant constant] at cleared
    | false =>
      obtain ⟨v, held⟩ :=
        value_of_cleared rooted whole hands cleared (Suspension.cleared_clear constant)
      simp [Slot.value?_eq_some.2 held] at free

end Run

end LazyGraph

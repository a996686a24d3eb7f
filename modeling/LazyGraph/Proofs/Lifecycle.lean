import LazyGraph.Proofs.Wakeup

/-!
# The life cycle of a slot

Every change of a slot is one of a few transitions. A claim is given up by its owner or replaced by a
value, and a value stays until the thunk is reset.
-/

namespace LazyGraph

/-- What the next step of thread `t` makes of the slot of `n`, and by which operation. -/
inductive Transition (w : World) (t : Thread) (n : NodeId) : Option Cell → Option Cell → Prop
  | enter {seen} (idle : t.agenda = []) (at' : t.control = .seize n seen) :
    Transition w t n none (some (.blackHole (t.me w)))
  | claim {seen} (idle : t.agenda = [])
    (at' : t.control = .exchange n seen (some (.blackHole (t.me w)))) :
    Transition w t n none (some (.blackHole (t.me w)))
  | tryLock {seen} (idle : t.agenda = [])
    (at' : t.control = .exchange n seen (some (.locked none))) :
    Transition w t n none (some (.locked none))
  | unlock {seen} (idle : t.agenda = []) (at' : t.control = .exchange n seen none) :
    Transition w t n (some (.locked none)) none
  | lock {claim o seen} (idle : t.agenda = []) (at' : t.control = .lock n claim o seen)
    (other : o ≠ t.me w) : Transition w t n (some (.blackHole o)) (some (.locked (some o)))
  | publish {claim q o lock blocked} (idle : t.agenda = [])
    (at' : t.control = .publish ⟨n, claim, q, o, lock⟩ blocked) (other : o ≠ t.me w) :
    Transition w t n (some (.locked (some o))) (some (.queue q o))
  | abandon {seen as c} (next : t.agenda = .surrender n seen :: as)
    (own : c.owner? = some (t.me w)) : Transition w t n (some c) none
  | update {v seen old} (idle : t.agenda = []) (at' : t.control = .install n v seen)
    (free : ∀ x, old ≠ some (.value x)) : Transition w t n old (some (.value v))
  | overwrite {v as old} (next : t.agenda = .overwrite n v :: as) :
    Transition w t n old (v.map .value)

/-- The move can end a claim of task `o` on `n`: the task gives it up, somebody updates the thunk, or
the slot is overwritten. -/
def State.lifts (s : State) (m : Move) (n : NodeId) (o : TaskId) : Bool :=
  match m with
  | .step i => (s.threads[i]?).any fun t =>
    match t.agenda, t.control with
    | .surrender m _ :: _, _ => m == n && t.me s.world == o
    | .overwrite m _ :: _, _ => m == n
    | [], .install m _ _ => m == n
    | _, _ => false
  | _ => false

/-! ## What threads are entitled to -/

structure Thread.Entitled (w : World) (t : Thread) : Prop where
  exchanges : ∀ n seen cell, t.control = .exchange n seen cell →
    ∃ op : ThunkOp, op.attempt? (t.me w) seen.cell = some cell
  surrenders : ∀ n seen, .surrender n seen ∈ t.agenda → seen.ownedBy (t.me w) = true

variable {w w' : World} {t t' : Thread} {n : NodeId} {o : TaskId} {cell : Option Cell} {seen : Slot}

theorem Control.isCalm_ne_exchange {c : Control} (calm : c.isCalm) : c ≠ .exchange n seen cell := by
  rintro rfl
  cases calm

theorem Step.exchange_origin (step : Step w t w' t') (at' : t'.control = .exchange n seen cell) :
    t.control = .exchange n seen cell ∨
      ∃ op : ThunkOp, t.control = .probe op n ∧ op.attempt? (t.me w) seen.cell = some cell := by
  cases step with
  | stay => exact .inl at'
  | errand step =>
    rcases step.frames.2 with same | exit
    · exact .inl (same ▸ at')
    · exact absurd at' (Control.isCalm_ne_exchange (Control.isCalm_of_isExit exit))
  | host step =>
    rcases step.lands with calm | ⟨m, is⟩ | ⟨op, m, ns, env, -, is⟩ | ⟨m, v, e, is, -⟩
    · exact absurd at' (Control.isCalm_ne_exchange calm)
    all_goals
      rw [is] at at'
      cases at'
  | forcing step =>
    cases step with
    | body _ _ _ calm => exact absurd at' (Control.isCalm_ne_exchange calm)
    | _ => cases at'
  | waits step =>
    cases step with
    | busy | asleep => exact .inl at'
    | @proceed x blocked | @published x blocked => cases blocked <;> cases at'
    | _ => cases at'
  | attempt step =>
    cases step with
    | probe _ probes tries =>
      cases at'
      exact .inr ⟨_, probes, tries⟩
    | hopeless | exchanged | missed => cases at'

theorem Step.surrender_origin (step : Step w t w' t') (known : .surrender n seen ∈ t'.agenda) :
    .surrender n seen ∈ t.agenda ∨ seen.ownedBy (t.me w) = true := by
  rcases step.plans known with old | plans
  · exact .inl old
  · cases plans with
    | plain kind => cases kind
    | surrender owned => exact .inr owned

theorem Step.entitled (step : Step w t w' t') (entitled : t.Entitled w) : t'.Entitled w' where
  exchanges n seen cell at' := by
    rw [step.me]
    rcases step.exchange_origin at' with old | ⟨op, -, tries⟩
    · exact entitled.exchanges n seen cell old
    · exact ⟨op, tries⟩
  surrenders n seen known := by
    rw [step.me]
    rcases step.surrender_origin known with old | owned
    · exact entitled.surrenders n seen old
    · exact owned

theorem Thread.Entitled.of_me (entitled : t.Entitled w) (me : t.me w' = t.me w) :
    t.Entitled w' where
  exchanges := by simpa only [me] using entitled.exchanges
  surrenders := by simpa only [me] using entitled.surrenders

theorem Run.entitled (run : Run) (k : Nat) : (run.state k).Each Thread.Entitled := by
  refine run.always (P := (·.Each Thread.Entitled)) (fun i t found => by simp at found) ?_ k
  intro k each j u found
  rcases (run.change k).split with rests | ⟨i, t, t', turns, -⟩
  · rcases rests.others j u found with old | ⟨idle, -, c, env, is⟩
    · exact (each j u old).of_me ((run.change k).me (run.seats k) old)
    · exact ⟨by simp [is], by simp [idle]⟩
  · rcases turns.others j u found with ⟨rfl, rfl⟩ | ⟨-, old⟩
    · exact turns.step.entitled (each _ t turns.before)
    · exact (each j u old).of_me ((run.change k).me (run.seats k) old)

/-! ## Transitions -/

theorem Thread.Entitled.transition (entitled : t.Entitled w) (idle : t.agenda = [])
    (at' : t.control = .exchange n seen cell) : Transition w t n seen.cell cell := by
  obtain ⟨op, tries⟩ := entitled.exchanges n seen cell at'
  unfold ThunkOp.attempt? at tries
  split at tries
  · rename_i free
    cases tries
    rw [free]
    exact .claim idle at'
  · rename_i free
    cases tries
    rw [free]
    exact .tryLock idle at'
  · rename_i held
    cases tries
    rw [held]
    exact .unlock idle at'
  · cases tries

theorem Writes.transition (writes : Writes w t t' n cell) (noted : t.Noted)
    (entitled : t.Entitled w) (foreign : ∀ o, t.control.owner? = some o → o ≠ t.me w) :
    Transition w t n (w.slot n).cell cell := by
  obtain ⟨control, -⟩ := noted
  cases writes with
  | overwrite next => exact .overwrite next
  | @surrendered n seen as next same =>
    have own := entitled.surrenders n seen (by rw [next]; exact List.mem_cons_self)
    rw [Slot.cell_of_unchanged same]
    obtain ⟨c, held, owner⟩ := Slot.cell_of_ownedBy own
    rw [held]
    exact .abandon next owner
  | seized at' same _ idle =>
    rw [at'] at control
    rw [Slot.cell_of_unchanged same, show _ = none from control]
    exact .enter idle at'
  | @installed n v seen e at' same _ idle =>
    rw [at'] at control
    refine .update idle at' fun x held => ?_
    rw [Slot.cell_of_unchanged same] at held
    have free : seen.value? = none := control
    rw [Slot.value?_eq_some.2 held] at free
    cases free
  | @locked n claim o seen at' same idle =>
    rw [at'] at control
    rw [Slot.cell_of_unchanged same, show _ = some (Cell.blackHole o) from control]
    exact .lock idle at' (foreign o (by rw [at']; rfl))
  | @published x blocked seen idle at' made same =>
    rw [at'] at control
    rw [Slot.cell_of_unchanged same, control seen made]
    exact .publish idle at' (foreign x.owner (by rw [at']; rfl))
  | exchanged at' same idle =>
    rw [Slot.cell_of_unchanged same]
    exact entitled.transition idle at'

theorem Step.transition (step : Step w t w' t') (noted : t.Noted) (entitled : t.Entitled w)
    (foreign : ∀ o, t.control.owner? = some o → o ≠ t.me w) (n : NodeId) :
    w'.slot n = w.slot n ∨ Transition w t n (w.slot n).cell (w'.slot n).cell := by
  rcases step.writes with same | ⟨m, cell, writes, after⟩
  · exact .inl (same n)
  · by_cases same : n = m
    · subst same
      cases found : w.thunk? n with
      | none => exact .inl (by rw [after n, World.slot_write_of_none found])
      | some th =>
        rw [after n, World.slot_write_self found, Slot.cell_write]
        exact .inr (writes.transition noted entitled foreign)
    · exact .inl (by rw [after n, World.slot_write_ne same])

theorem Transition.not_gate {old new : Option Cell} {g : String} {as : List Action}
    (transition : Transition w t n old new) : t.agenda ≠ .gate g :: as := by
  cases transition <;> simp_all

/-- A claim that is not lifted is kept. -/
theorem Transition.owner {s : State} {i : ThreadId} {old new : Option Cell}
    (transition : Transition s.world t n old new) (found : s.threads[i]? = some t)
    (kept : s.lifts (.step i) n o = false) (owned : old.bind Cell.owner? = some o) :
    new.bind Cell.owner? = some o := by
  cases transition with
  | enter | claim | tryLock | unlock => cases owned
  | lock | publish => exact owned
  | abandon next own =>
    have mine : t.me s.world = o := Option.some.inj (own.symm.trans owned)
    simp [State.lifts, found, next, mine] at kept
  | update idle at' => simp [State.lifts, found, idle, at'] at kept
  | overwrite next => simp [State.lifts, found, next] at kept

namespace Run

variable {run : Run}

theorem transition (run : Run) (k : Nat) (n : NodeId) :
    (run.state (k + 1)).world.slot n = (run.state k).world.slot n ∨
      ∃ i t, run.move k = .step i ∧ (run.state k).threads[i]? = some t ∧
        Transition (run.state k).world t n ((run.state k).world.slot n).cell
          ((run.state (k + 1)).world.slot n).cell := by
  rcases (run.change k).split with rests | ⟨i, t, t', turns, moved⟩
  · exact .inl (rests.still.slot n)
  · have before := turns.before
    rcases turns.step.transition (run.noted k i t before) (run.entitled k i t before)
      (fun o => (run.guarded k).foreign i t o before) n with same | transition
    · exact .inl same
    · refine .inr ⟨i, t, ?_, before, transition⟩
      rcases moved with step | ⟨g, as, gate⟩
      · exact step
      · exact absurd gate transition.not_gate

theorem owner_kept (run : Run) {c d : Nat} (le : c ≤ d)
    (kept : ∀ m, c ≤ m → m < d → (run.state m).lifts (run.move m) n o = false)
    (owned : ((run.state c).world.slot n).ownedBy o = true) :
    ((run.state d).world.slot n).ownedBy o = true := by
  induction le with
  | refl => exact owned
  | @step d le ih =>
    have before := ih fun m low high => kept m low (Nat.lt_succ_of_lt high)
    rcases run.transition d n with same | ⟨i, t, moved, found, transition⟩
    · rw [same, before]
    · have last := kept d le (Nat.lt_succ_self d)
      rw [moved] at last
      simpa [Slot.ownedBy] using transition.owner found last (by simpa [Slot.ownedBy] using before)

/-- **Slot life cycle.** Every change of a slot is a transition of the moving thread. The queue in a
slot has the owner that the slot names. A claim is kept unless its owner gives it up, the thunk is
updated or its slot is overwritten, and a value is kept until the thunk is reset. -/
theorem slot_transitions (run : Run) :
    (∀ k n, (run.state (k + 1)).world.slot n = (run.state k).world.slot n ∨
      ∃ i t, run.move k = .step i ∧ (run.state k).threads[i]? = some t ∧
        Transition (run.state k).world t n ((run.state k).world.slot n).cell
          ((run.state (k + 1)).world.slot n).cell) ∧
    (∀ k n q o, ((run.state k).world.slot n).cell = some (.queue q o) →
      ∃ Q, (run.state k).world.queue? q = some Q ∧ Q.thunk = n ∧ Q.owner = o) ∧
    (∀ c d n o, c ≤ d →
      (∀ m, c ≤ m → m < d → (run.state m).lifts (run.move m) n o = false) →
      ((run.state c).world.slot n).ownedBy o = true →
      ((run.state d).world.slot n).ownedBy o = true) ∧
    (∀ c d n v, c ≤ d → (∀ m, c ≤ m → m < d → ¬ (run.state m).Resets (run.move m) n) →
      ((run.state c).world.slot n).cell = some (.value v) →
      ((run.state d).world.slot n).cell = some (.value v)) := by
  refine ⟨run.transition, ?_, ?_, ?_⟩
  · intro k n q o held
    obtain ⟨Q, there, thunk, owner, -⟩ := (run.queued k).slots n q o held
    exact ⟨Q, there, thunk, owner⟩
  · intro c d n o le kept owned
    exact run.owner_kept le kept owned
  · intro c d n v le kept held
    exact run.value_kept le held kept

theorem slot_transitions_standoff :
    (∀ m < 33, 13 ≤ m → (standoff.state m).lifts (standoff.move m) 0 0 = false) ∧
      ((standoff.state 13).world.slot 0).cell = some (.blackHole 0) ∧
      ((standoff.state 33).world.slot 0).cell = some (.queue 0 0) ∧
      ((standoff.state 33).world.slot 0).ownedBy 0 = true := by
  have kept : ∀ m < 33, 13 ≤ m → (standoff.state m).lifts (standoff.move m) 0 0 = false := by
    decide +kernel
  have hole : ((standoff.state 13).world.slot 0).cell = some (.blackHole 0) := by decide +kernel
  have queue : ((standoff.state 33).world.slot 0).cell = some (.queue 0 0) := by decide +kernel
  have owned : ((standoff.state 13).world.slot 0).ownedBy 0 = true := by
    simp [Slot.ownedBy, hole, Cell.owner?]
  exact ⟨kept, hole, queue, (slot_transitions standoff).2.2.1 13 33 0 0 (by decide)
    (fun m low high => kept m high low) owned⟩

end Run

end LazyGraph

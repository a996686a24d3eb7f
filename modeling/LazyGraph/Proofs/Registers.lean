import LazyGraph.Proofs.Calls
import LazyGraph.Proofs.Suspensions

/-!
# Return registers

Only a projection writes return registers: one of its own context, for the kind of field that it
selects.
-/

namespace LazyGraph

namespace Registers

variable {r : Registers} {s : Scalar} {kind : FieldKind}

theorem read?_write (same : s.kind = kind) : (r.write s).read? kind = some s := by
  subst same
  cases s <;> rfl

end Registers

theorem kind_of_fieldOf {kind : FieldKind} {fields : List Field} {index : Nat} {f : Field}
    (found : fieldOf kind fields index = .ok f) : f.kind = kind := by
  unfold fieldOf at found
  split at found
  · cases found
  · split at found
    · cases found
      assumption
    · cases found

/-! ## Projections -/

/-- What a selector gets from the value `x` of its producer `p`. -/
def World.select (w : World) (kind : FieldKind) (index : Nat) (p x : NodeId) :
    Except GraphError Field :=
  match w.value? x with
  | some (.data _ fields) => fieldOf kind fields index
  | some v => .error (.notAConstructor p v.describe)
  | none => .error (.notAConstructor p "thunk")

theorem World.kind_of_select {w : World} {kind : FieldKind} {index : Nat} {p x : NodeId} {f : Field}
    (found : w.select kind index p x = .ok f) : f.kind = kind := by
  unfold select at found
  split at found
  · exact kind_of_fieldOf found
  · cases found
  · cases found

namespace Thread

variable {w : World} {t : Thread} {x p : NodeId} {kind : FieldKind} {index : Nat}
  {rest : List Frame}

/-- The thread is about to select a field of `x`. -/
structure Projects (t : Thread) (kind : FieldKind) (index : Nat) (p x : NodeId)
    (rest : List Frame) : Prop where
  idle : t.agenda = []
  gives : t.control = .give x
  top : t.stack = .project kind index p :: rest

def write (w : World) (t : Thread) (registers : Registers) : World :=
  w.setContext t.context { w.context t.context with registers }

theorem Projects.runs (projects : t.Projects kind index p x rest) : t.Runs :=
  runs_of_stack (by simp [projects.top])

theorem Projects.step (projects : t.Projects kind index p x rest) :
    t.step w =
      match w.select kind index p x with
      | .error e => (w, { t with stack := rest, control := .fail e })
      | .ok (.pointer m) =>
        (t.write w { (w.context t.context).registers with r1 := some m },
          { t with stack := rest, control := .give m })
      | .ok (.scalar s) =>
        ({ t with stack := rest } : Thread).yield
          (t.write w ((w.context t.context).registers.write s)) (.scalar s) := by
  obtain ⟨idle, gives, top⟩ := projects
  simp only [Thread.step, idle, proceed, gives, give, top, project, World.select]
  cases w.value? x with
  | none => rfl
  | some v =>
    cases v with
    | data tag fields => rcases fieldOf kind fields index with e | ⟨m⟩ | ⟨s⟩ <;> rfl
    | _ => rfl

end Thread

variable {w w' : World} {t : Thread} {c : ContextId}

theorem Growth.registers (growth : Growth w t w') :
    (∀ c, (w'.context c).registers = (w.context c).registers) ∨
      ∃ kind index p x rest, t.Projects kind index p x rest := by
  cases growth with
  | grows grows => exact .inl grows.registers
  | project idle gives top => exact .inr ⟨_, _, _, _, _, idle, gives, top⟩
  | @clear n =>
    refine .inl (World.registers_of_same ?_)
    obtain ⟨heap, same⟩ := w.release_eq (n := n)
    rw [same]
  | release | register => exact .inl fun _ => rfl
  | revert _ _ grows => exact .inl grows.registers

theorem Thread.registers_write_ne {registers : Registers} (other : c ≠ t.context) :
    ((t.write w registers).context c).registers = (w.context c).registers := by
  rw [write, World.context_setContext, if_neg fun is => other is.1]

theorem Thread.registers_write {registers : Registers} (seated : t.context < w.contexts.size) :
    ((t.write w registers).context t.context).registers = registers := by
  rw [write, World.context_setContext, if_pos ⟨rfl, seated⟩]

theorem Thread.Projects.registers {kind : FieldKind} {index : Nat} {p x : NodeId}
    {rest : List Frame} {s : Scalar} (projects : t.Projects kind index p x rest)
    (field : w.select kind index p x = .ok (.scalar s)) (seated : t.context < w.contexts.size) :
    ((t.step w).1.context t.context).registers = (w.context t.context).registers.write s := by
  rw [projects.step, field]
  exact registers_write seated

/-- The registers of a context are written by the threads on it. -/
theorem Thread.registers_step
    (other : c ≠ t.context ∨ ∀ kind index p x rest, ¬ t.Projects kind index p x rest) :
    ((t.step w).1.context c).registers = (w.context c).registers := by
  rcases (growth_step w t).registers with same | ⟨kind, index, p, x, rest, projects⟩
  · exact same c
  · rcases other with other | never
    · rw [projects.step]
      split
      · rfl
      · exact registers_write_ne other
      · exact registers_write_ne other
    · exact absurd projects (never kind index p x rest)

/-! ## Runs -/

theorem State.registers_after {s : State} {m : Move} (quiet : ∀ i, m ≠ .step i)
    (seated : c < s.world.contexts.size) :
    ((s.after m).world.context c).registers = (s.world.context c).registers := by
  cases m with
  | step i => exact absurd rfl (quiet i)
  | seat name capability config interpreter =>
    simp [after, World.context, World.addContext, World.addTask, Array.getElem?_push,
      Nat.ne_of_lt seated]
  | detour d e =>
    refine World.registers_setContext ?_ c
    rfl
  | poolStarted | jobPanicked => exact (World.grows_emit _ _).registers c
  | _ => rfl

/-- While a thread runs, the registers of its context are left alone but by its projections. -/
theorem Run.registers_succ {run : Run} {k : Nat} {i : ThreadId}
    (found : (run.state k).threads[i]? = some t) (runs : t.Runs)
    (other : run.move k = .step i → ∀ kind index p x rest, ¬ t.Projects kind index p x rest) :
    ((run.state (k + 1)).world.context t.context).registers =
      ((run.state k).world.context t.context).registers := by
  have seats := run.seats k
  by_cases turn : ∃ j, run.move k = .step j
  · obtain ⟨j, turn⟩ := turn
    cases there : (run.state k).threads[j]? with
    | none =>
      rw [run.state_succ, turn]
      simp only [State.after, State.step, there]
    | some u =>
      rw [(own_step turn there).1]
      refine Thread.registers_step ?_
      by_cases same : u.context = t.context
      · refine .inr fun kind index p x rest projects => ?_
        obtain rfl := seats.alone j i u t there found projects.runs runs same
        rw [found] at there
        cases there
        exact other turn _ _ _ _ _ projects
      · exact .inl (Ne.symm same)
  · exact State.registers_after (fun j is => turn ⟨j, is⟩) (seats.seated i t found)

end LazyGraph

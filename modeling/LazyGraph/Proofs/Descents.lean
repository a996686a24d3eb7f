import LazyGraph.Proofs.Refusal
import LazyGraph.Proofs.Registers

/-!
# Descents

A thread that has only so many steps left before it comes somewhere gets there when it has taken
that many turns, as long as the others leave alone the thunk that it works on.
-/

namespace LazyGraph

/-- A thread of which `P r` holds gets to `P 0` in `r` steps at most, and until then it is not back
with an outcome at `depth` frames. All that it goes by is its own state, its registers, thunk `n`,
and nodes that are values. -/
structure Descent (n : NodeId) (depth : Nat) (P : Nat → World → Thread → Prop) : Prop where
  step {w : World} {t : Thread} {r : Nat} (at' : P r w t) (left : r ≠ 0)
    (seated : t.context < w.contexts.size)
    (tracks : (w.context t.context).stack.Tracks t.evaluations) :
    ∃ r' < r, P r' (t.step w).1 (t.step w).2
  runs {w : World} {t : Thread} {r : Nat} (at' : P r w t) (left : r ≠ 0) : t.Runs
  gate {w : World} {t : Thread} {r : Nat} {g : String} {as : List Action} (at' : P r w t)
    (left : r ≠ 0) : t.agenda ≠ .gate g :: as
  away {w : World} {t : Thread} {r : Nat} (at' : P r w t) (left : r ≠ 0) :
    t.isBackAt depth = false
  stable {w w' : World} {t : Thread} {r : Nat} (at' : P r w t) (evolves : w.Evolves w')
    (same : w'.thunk? n = w.thunk? n) (me : t.me w' = t.me w)
    (registers : (w'.context t.context).registers = (w.context t.context).registers) : P r w' t

/-- One step leads from `P` to `P'`. -/
def Then (P P' : World → Thread → Prop) : Nat → World → Thread → Prop
  | 0 => P'
  | 1 => P
  | _ => fun _ _ => False

theorem Then.cases {P P' : World → Thread → Prop} {r : Nat} {w : World} {t : Thread}
    (at' : Then P P' r w t) : r = 0 ∧ P' w t ∨ r = 1 ∧ P w t := by
  rcases r with _ | _ | r
  · exact .inl ⟨rfl, at'⟩
  · exact .inr ⟨rfl, at'⟩
  · exact at'.elim

namespace Run

variable {P : Nat → World → Thread → Prop} {n : NodeId} {t : Thread} {r : Nat} {run : Run}
  {i : ThreadId} {c : ContextId} {a b m depth : Nat}

theorem turns_zero : run.turns i a 0 = 0 :=
  rfl

theorem turns_add (m m' : Nat) :
    run.turns i a (m + m') = run.turns i a m + run.turns i (a + m) m' := by
  induction m' with
  | zero => rfl
  | succ m' ih => rw [← Nat.add_assoc, turns_succ, turns_succ, ih, Nat.add_assoc, Nat.add_assoc]

theorem turns_one : run.turns i a 1 = if (run.move a).isStep i then 1 else 0 := by
  rw [turns_succ, turns_zero, Nat.add_zero, Nat.zero_add]

/-- From `a` to `b`, other threads leave thunk `n` alone. -/
def Untouched (run : Run) (i : ThreadId) (n : NodeId) (a b : Nat) : Prop :=
  ∀ k, a ≤ k → k < b → run.move k ≠ .step i →
    (run.state (k + 1)).world.thunk? n = (run.state k).world.thunk? n

/-- From `a` to `b`, thread `i` is not back with an outcome at `depth` frames. -/
def Away (run : Run) (i : ThreadId) (depth a b : Nat) : Prop :=
  ∀ k < b, a ≤ k → ((run.state k).threads[i]?).any (·.isBackAt depth) = false

theorem Away.trans {c : Nat} (first : run.Away i depth a b) (second : run.Away i depth b c) :
    run.Away i depth a c := by
  intro k lt le
  rcases Nat.lt_or_ge k b with before | after
  · exact first k before le
  · exact second k lt after

theorem Untouched.mono (untouched : run.Untouched i n a b) {a' b' : Nat} (low : a ≤ a')
    (high : b' ≤ b) : run.Untouched i n a' b' :=
  fun k le lt => untouched k (Nat.le_trans low le) (Nat.lt_of_lt_of_le lt high)

/-- One move takes a thread down, or leaves it where it is. -/
theorem approaches (descent : Descent n depth P) (untouched : run.Untouched i n a (a + 1))
    (found : (run.state a).threads[i]? = some t) (at' : P r (run.state a).world t) (left : r ≠ 0) :
    ∃ u r', (run.state (a + 1)).threads[i]? = some u ∧ u.context = t.context ∧
      P r' (run.state (a + 1)).world u ∧ r' + run.turns i a 1 ≤ r := by
  have runs := descent.runs at' left
  have seats := run.seats a
  by_cases turn : run.move a = .step i
  · obtain ⟨world, after⟩ := run.own_step turn found
    obtain ⟨r', less, at''⟩ := descent.step at' left (seats.seated i t found)
      ((run.framed a).running i t found runs)
    refine ⟨_, r', after, (step_cases _ t).context, world ▸ at'', ?_⟩
    rw [turns_one, if_pos (Move.isStep_iff.2 turn)]
    omega
  · rcases run.not_own_step turn found with stays | ⟨g, as, gate, -⟩
    · refine ⟨t, r, stays, rfl, ?_, ?_⟩
      · exact descent.stable at' (run.evolves (Nat.le_succ a))
          (untouched a (Nat.le_refl a) (Nat.lt_succ_self a) turn) ((run.change a).me seats found)
          (registers_succ found runs fun is => absurd is turn)
      · rw [turns_one, if_neg (by simpa [Move.isStep_iff] using turn)]
        omega
    · exact absurd gate (descent.gate at' left)

/-- If each turn of thread `i` leaves less to do and no other move leaves more, then all is done
after as many turns as there were things to do. The other turns are left for what comes next. -/
theorem comes_down {L : Nat → Nat → Prop}
    (down : ∀ k r, a ≤ k → k < a + m → L r k → r ≠ 0 →
      ∃ r', L r' (k + 1) ∧ r' + run.turns i k 1 ≤ r)
    (start : L r a) (turns : r ≤ run.turns i a m) :
    ∃ j ≤ m, L 0 (a + j) ∧ run.turns i a m ≤ r + run.turns i (a + j) (m - j) := by
  induction m generalizing a r with
  | zero =>
    obtain rfl : r = 0 := by simpa [turns_zero] using turns
    exact ⟨0, Nat.le_refl 0, start, by simp [turns_zero]⟩
  | succ m ih =>
    rcases Nat.eq_zero_or_pos r with rfl | left
    · exact ⟨0, Nat.zero_le _, start, by simp⟩
    · obtain ⟨r', next, fewer⟩ := down a r (Nat.le_refl a) (by omega) start (by omega)
      have split : run.turns i a (m + 1) = run.turns i a 1 + run.turns i (a + 1) m := by
        rw [Nat.add_comm m 1, turns_add]
      obtain ⟨j, le, done, rest⟩ := ih (fun k r low high => down k r (by omega) (by omega)) next
        (by omega)
      rw [Nat.add_assoc, Nat.add_comm 1 j] at done rest
      refine ⟨j + 1, by omega, done, ?_⟩
      rw [split, Nat.add_sub_add_right]
      omega

/-- From `a` to `b`, thread `i` has steps left. -/
def Passes (run : Run) (i : ThreadId) (P : Nat → World → Thread → Prop) (c : ContextId)
    (a b : Nat) : Prop :=
  ∀ k < b, a ≤ k → ∃ u r, (run.state k).threads[i]? = some u ∧ u.context = c ∧
    P r (run.state k).world u ∧ r ≠ 0

theorem Passes.away (passes : run.Passes i P c a b) (descent : Descent n depth P) :
    run.Away i depth a b := by
  intro k lt le
  obtain ⟨u, r, there, -, at', left⟩ := passes k lt le
  simpa [there] using descent.away at' left

theorem Passes.succ (passes : run.Passes i P c a b) (there : (run.state b).threads[i]? = some t)
    (context : t.context = c) (at' : P r (run.state b).world t) (left : r ≠ 0) :
    run.Passes i P c a (b + 1) := by
  intro k lt le
  rcases Nat.lt_succ_iff_lt_or_eq.1 lt with before | rfl
  · exact passes k before le
  · exact ⟨t, r, there, context, at', left⟩

/-- With as many turns as it has steps left, a thread gets to the end. -/
theorem arrives (descent : Descent n depth P) (untouched : run.Untouched i n a (a + m))
    (found : (run.state a).threads[i]? = some t) (at' : P r (run.state a).world t)
    (turns : r ≤ run.turns i a m) :
    ∃ j ≤ m, ∃ u, (run.state (a + j)).threads[i]? = some u ∧ u.context = t.context ∧
      P 0 (run.state (a + j)).world u ∧ run.Passes i P t.context a (a + j) ∧
      run.turns i a m ≤ r + run.turns i (a + j) (m - j) := by
  obtain ⟨j, le, ⟨u, there, same, done, passes⟩, rest⟩ := comes_down (m := m)
    (L := fun r k => ∃ u, (run.state k).threads[i]? = some u ∧ u.context = t.context ∧
      P r (run.state k).world u ∧ run.Passes i P t.context a k)
    (fun k r low high ⟨u, there, same, at', passes⟩ left => by
      obtain ⟨v, r', after, context, next, fewer⟩ := approaches descent
        (untouched.mono low (by omega)) there at' left
      exact ⟨r', ⟨v, after, context.trans same, next, passes.succ there same at' left⟩, fewer⟩)
    ⟨t, found, rfl, at', fun k lt le => absurd lt (Nat.not_lt.2 le)⟩ turns
  exact ⟨j, le, u, there, same, done, passes, rest⟩

/-- As soon as thread `i` has taken `r` turns from `a` on, `P` has held at some time, if the others
leave thunk `n` alone. The turns that were not needed are left over. -/
def Within (run : Run) (i : ThreadId) (n : NodeId) (r a : Nat) (P : Nat → Prop) : Prop :=
  ∀ m, run.Untouched i n a (a + m) → r ≤ run.turns i a m →
    ∃ j ≤ m, P (a + j) ∧ run.turns i a m ≤ r + run.turns i (a + j) (m - j)

theorem Within.trans {P P' : Nat → Prop} {r' : Nat} (first : run.Within i n r a P)
    (second : ∀ k, a ≤ k → P k → run.Within i n r' k P') : run.Within i n (r + r') a P' := by
  intro m untouched turns
  obtain ⟨j, le, at', left⟩ := first m untouched (by omega)
  have later : run.Untouched i n (a + j) (a + j + (m - j)) :=
    untouched.mono (by omega) (by omega)
  obtain ⟨j', le', done, left'⟩ := second (a + j) (by omega) at' (m - j) later (by omega)
  refine ⟨j + j', by omega, by rwa [← Nat.add_assoc], ?_⟩
  rw [← Nat.add_assoc, Nat.sub_add_eq]
  omega

theorem Within.weaken {P : Nat → Prop} {r' : Nat} (within : run.Within i n r a P) (le : r ≤ r') :
    run.Within i n r' a P := by
  intro m untouched turns
  obtain ⟨j, small, at', left⟩ := within m untouched (Nat.le_trans le turns)
  exact ⟨j, small, at', by omega⟩

theorem Within.mono {P P' : Nat → Prop} (within : run.Within i n r a P)
    (imp : ∀ k, a ≤ k → P k → P' k) : run.Within i n r a P' := by
  intro m untouched turns
  obtain ⟨j, le, at', left⟩ := within m untouched turns
  exact ⟨j, le, imp _ (by omega) at', left⟩

theorem passes_within (descent : Descent n depth P) (found : (run.state a).threads[i]? = some t)
    (at' : P r (run.state a).world t) :
    run.Within i n r a fun k => ∃ u, (run.state k).threads[i]? = some u ∧ u.context = t.context ∧
      P 0 (run.state k).world u ∧ run.Passes i P t.context a k := by
  intro m untouched turns
  obtain ⟨j, le, u, there, same, done, passes, left⟩ := arrives descent untouched found at' turns
  exact ⟨j, le, ⟨u, there, same, done, passes⟩, left⟩

theorem within (descent : Descent n depth P) (found : (run.state a).threads[i]? = some t)
    (at' : P r (run.state a).world t) :
    run.Within i n r a fun k => ∃ u, (run.state k).threads[i]? = some u ∧ u.context = t.context ∧
      P 0 (run.state k).world u ∧ run.Away i depth a k :=
  (passes_within descent found at').mono fun _ _ ⟨u, there, same, done, passes⟩ =>
    ⟨u, there, same, done, passes.away descent⟩

end Run

end LazyGraph

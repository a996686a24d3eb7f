import LazyGraph.Proofs.Duties

/-!
# Evaluations are exclusive

An evaluation begins with an entry that found the slot empty. If every entry takes the thunk, one
task at a time has it on its update stack, and only a failed evaluation is followed by another one.
-/

namespace LazyGraph

/-- The thread enters `n` without taking it, or `n` is no thunk to take. -/
def Thread.shares (w : World) (t : Thread) (n : NodeId) : Bool :=
  match t.control with
  | .enter m => m == n && !(w.context t.context).config.eager
  | .perform .blackHole (m :: _) _ => m == n && (w.thunk? m).isNone
  | _ => false

def Run.HandsOff (run : Run) : Prop :=
  ∀ k, ∀ t ∈ (run.state k).threads, t.meddles = false

/-- Every entry of `n` takes it. -/
def Run.Claims (run : Run) (n : NodeId) : Prop :=
  ∀ k, ∀ t ∈ (run.state k).threads, t.shares (run.state k).world n = false

variable {w w' : World} {t t' : Thread} {n : NodeId} {claim : Bool}

theorem Run.entries (run : Run) (claims : run.Claims n) (k : Nat) :
    (run.state k).Each fun w t => ∀ claim, (n, claim) ∈ t.entries →
      claim = true ∧ (w.thunk? n).isSome := by
  refine run.always (P := (·.Each fun w t => ∀ claim, (n, claim) ∈ t.entries →
    claim = true ∧ (w.thunk? n).isSome)) (fun i t found => by simp at found) ?_ k
  intro k each
  have grows := (run.change k).evolves.thunk n
  refine (run.change k).each each ?_ ?_ ?_
  · intro t entered claim known
    exact (entered claim known).imp_right grows
  · intro i t t' found step claim known
    have shares := claims k t (Array.mem_of_getElem? found)
    rcases step.entry_origin known with old | ⟨at', thunk, rfl⟩ | ⟨rfl, ns, env, at'⟩
    · exact (each i t found claim old).imp_right grows
    · rw [Thread.shares, at'] at shares
      exact ⟨by simpa using shares, grows thunk⟩
    · rw [Thread.shares, at'] at shares
      exact ⟨rfl, grows (by simpa [Option.isSome_iff_ne_none] using shares)⟩
  · intro t c env idle stack at' claim known
    simp [Thread.entries, at', stack, Control.entry?] at known

/-! ## One evaluation at a time -/

/-- The thread evaluates `n` or still has it on its update stack. -/
def Thread.Holds (t : Thread) (n : NodeId) : Prop :=
  n ∈ t.duties ∨ .leaving n ∈ t.stack

structure State.Exclusive (s : State) (n : NodeId) : Prop where
  owed : ∀ (i : ThreadId) t, s.threads[i]? = some t → n ∈ t.duties →
    (s.world.slot n).ownedBy (t.me s.world) = true
  once : ∀ (i : ThreadId) t, s.threads[i]? = some t → t.duties.count n ≤ 1
  leaves : ∀ (i : ThreadId) t, s.threads[i]? = some t → .leaving n ∈ t.stack →
    t.control.updates? = some n ∨ ∃ v, (s.world.slot n).cell = some (.value v)
  alone : ∀ (i j : ThreadId) t u, s.threads[i]? = some t → s.threads[j]? = some u → t.Holds n →
    u.Holds n → i = j

theorem Thread.mem_duties_of_updates? (updates : t.control.updates? = some n) : n ∈ t.duties := by
  refine List.mem_append_left _ ?_
  cases is : t.control <;> simp_all [Control.updates?, Control.claim?]

theorem Thread.mem_duties_of_frame {f : Frame} (known : f ∈ t.stack) (is : f.claim? = some n) :
    n ∈ t.duties :=
  List.mem_append_right _ (List.mem_append_right _ (List.mem_filterMap.2 ⟨f, known, is⟩))

variable {s s' : State} {i j : ThreadId} {u : Thread}

theorem State.Exclusive.thunk (exclusive : s.Exclusive n) (found : s.threads[i]? = some t)
    (owes : n ∈ t.duties) : (s.world.thunk? n).isSome := by
  obtain ⟨c, held, -⟩ := Slot.cell_of_ownedBy (exclusive.owed i t found owes)
  obtain ⟨th, thunk⟩ := World.thunk_of_cell held
  simp [thunk]

theorem State.Exclusive.free (exclusive : s.Exclusive n) (free : (s.world.slot n).cell = none)
    (found : s.threads[i]? = some t) : ¬ t.Holds n := by
  have unowed : n ∉ t.duties := fun owes => by
    obtain ⟨c, held, -⟩ := Slot.cell_of_ownedBy (exclusive.owed i t found owes)
    rw [free] at held
    cases held
  rintro (owes | leaving)
  · exact unowed owes
  · rcases exclusive.leaves i t found leaving with updates | ⟨v, held⟩
    · exact unowed (Thread.mem_duties_of_updates? updates)
    · rw [free] at held
      cases held

/-- What the step of a thread rests on, when the host leaves slots alone and every entry of `n` takes
it. -/
structure Thread.Fair (w : World) (t : Thread) (n : NodeId) : Prop where
  steady : t.Steady
  noted : t.Noted
  entitled : t.Entitled w
  foreign : ∀ o, t.control.owner? = some o → o ≠ t.me w
  honest : t.meddles = false
  writes : ∀ a ∈ t.agenda, a.isOverwrite = false
  entries : ∀ claim, (n, claim) ∈ t.entries → claim = true ∧ (w.thunk? n).isSome

theorem Thread.Fair.duties_count (fair : t.Fair w n) (step : Step w t w' t') :
    t'.duties.count n ≤ t.duties.count n ∨ Seizes w t n w' t' :=
  step.duties_count fair.noted fair.honest fun claim known => (fair.entries claim known).1

theorem Thread.Fair.value_kept {v : NodeId} (fair : t.Fair w n) (step : Step w t w' t')
    (held : (w.slot n).cell = some (.value v)) : (w'.slot n).cell = some (.value v) :=
  step.value_kept fair.noted held fun x as next => by
    have write := fair.writes _ (by rw [next]; exact List.mem_cons_self)
    cases write

theorem Thread.Fair.holds (fair : t.Fair w n) (step : Step w t w' t')
    (fewer : t'.duties.count n ≤ t.duties.count n) (holds : t'.Holds n) : t.Holds n := by
  rcases holds with owes | leaving
  · exact .inl (List.count_pos_iff.1 (Nat.lt_of_lt_of_le (List.count_pos_iff.2 owes) fewer))
  · rcases step.leaving_origin leaving with old | ⟨⟨claim, known⟩, -⟩
    · exact .inr old
    · have entry : (n, claim) ∈ t.entries :=
        List.mem_append_right _ (List.mem_filterMap.2 ⟨_, known, rfl⟩)
      obtain ⟨rfl, -⟩ := fair.entries claim entry
      exact .inl (Thread.mem_duties_of_frame known rfl)

theorem Thread.Fair.updates (fair : t.Fair w n) (step : Step w t w' t')
    (thunk : (w.thunk? n).isSome) (updates : t.control.updates? = some n) :
    t'.control.updates? = some n ∨ ∃ v, (w'.slot n).cell = some (.value v) := by
  cases next : t.agenda with
  | nil =>
    rcases (step.update_cases next updates thunk).2 with stays | ⟨v, -, held | held⟩
    · exact .inl stays
    · exact .inr ⟨v, fair.value_kept step held⟩
    · exact .inr ⟨v, held⟩
  | cons a as =>
    rcases step.errand_of_busy (by simp [next]) with ⟨-, rfl⟩ | errand
    · exact .inl updates
    · have firm : t.control.isFirm = true := by
        cases is : t.control <;> simp_all [Control.updates?, Control.isFirm]
      exact .inl (errand.control_of_steady fair.steady firm ▸ updates)

theorem Thread.Fair.leaves (fair : t.Fair w n) (step : Step w t w' t')
    (thunk : t.control.updates? = some n → (w.thunk? n).isSome)
    (before : .leaving n ∈ t.stack →
      t.control.updates? = some n ∨ ∃ v, (w.slot n).cell = some (.value v))
    (leaving : .leaving n ∈ t'.stack) :
    t'.control.updates? = some n ∨ ∃ v, (w'.slot n).cell = some (.value v) := by
  rcases step.leaving_origin leaving with old | ⟨-, v, is⟩
  · rcases before old with updates | ⟨v, held⟩
    · exact fair.updates step (thunk updates) updates
    · exact .inr ⟨v, fair.value_kept step held⟩
  · exact .inl (by rw [is]; rfl)

theorem State.Exclusive.turns (exclusive : s.Exclusive n) (fair : t.Fair s.world n)
    (turns : Turns s s' i t t') (fewer : t'.duties.count n ≤ t.duties.count n) :
    s'.Exclusive n := by
  have step := turns.step
  have owes : n ∈ t'.duties → n ∈ t.duties := fun known =>
    List.count_pos_iff.1 (Nat.lt_of_lt_of_le (List.count_pos_iff.2 known) fewer)
  have once := exclusive.once i t turns.before
  have kept : ∀ (j : ThreadId) u, s.threads[j]? = some u → n ∈ u.duties → j ≠ i ∨ n ∈ t'.duties →
      (s'.world.slot n).ownedBy (u.me s.world) = true := by
    intro j u found known other
    rcases step.owner_kept fair.noted fair.entitled fair.foreign fair.writes
      (exclusive.owed j u found known) with stays | less
    · exact stays
    · have own : n ∈ t.duties := List.count_pos_iff.1 (Nat.lt_of_le_of_lt (Nat.zero_le _) less)
      rcases other with other | still
      · exact absurd (exclusive.alone j i u t found turns.before (.inl known) (.inl own)) other
      · have := List.count_pos_iff.2 still
        omega
  have from' : ∀ {j : ThreadId} {u : Thread}, s'.threads[j]? = some u → u.Holds n →
      ∃ u, s.threads[j]? = some u ∧ u.Holds n := by
    intro j u found holds
    rcases turns.others j u found with ⟨rfl, rfl⟩ | ⟨-, old⟩
    · exact ⟨t, turns.before, fair.holds step fewer holds⟩
    · exact ⟨u, old, holds⟩
  refine ⟨?_, ?_, ?_, ?_⟩
  · intro j u found known
    rcases turns.others j u found with ⟨rfl, rfl⟩ | ⟨other, old⟩
    · rw [step.me]
      exact kept _ t turns.before (owes known) (.inr known)
    · rw [show u.me s'.world = u.me s.world from step.keeps.taskOf _]
      exact kept j u old known (.inl other)
  · intro j u found
    rcases turns.others j u found with ⟨rfl, rfl⟩ | ⟨-, old⟩
    · exact Nat.le_trans fewer once
    · exact exclusive.once j u old
  · intro j u found leaving
    rcases turns.others j u found with ⟨rfl, rfl⟩ | ⟨-, old⟩
    · refine fair.leaves step ?_ (exclusive.leaves _ t turns.before) leaving
      intro updates
      exact exclusive.thunk turns.before (Thread.mem_duties_of_updates? updates)
    · exact (exclusive.leaves j u old leaving).imp_right fun ⟨v, held⟩ =>
        ⟨v, fair.value_kept step held⟩
  · intro j k u v found found' holds holds'
    obtain ⟨u, old, had⟩ := from' found holds
    obtain ⟨v, old', had'⟩ := from' found' holds'
    exact exclusive.alone j k u v old old' had had'

theorem State.Exclusive.seizes (exclusive : s.Exclusive n) (fair : t.Fair s.world n)
    (turns : Turns s s' i t t') (seizes : Seizes s.world t n s'.world t') : s'.Exclusive n := by
  obtain ⟨⟨seen, at'⟩, free, hole, stack, count⟩ := seizes
  have idle : ∀ (j : ThreadId) u, s.threads[j]? = some u → ¬ u.Holds n :=
    fun j u found => exclusive.free free found
  obtain ⟨-, thunk⟩ := fair.entries true (by simp [Thread.entries, at', Control.entry?])
  obtain ⟨th, found⟩ := Option.isSome_iff_exists.1 thunk
  have owned : (s'.world.slot n).ownedBy (t.me s.world) = true := by
    simp [hole, World.slot_write_self found, Slot.ownedBy, Cell.owner?]
  have none : t.duties.count n = 0 := List.count_eq_zero.2 fun known =>
    idle i t turns.before (.inl known)
  have stays : .leaving n ∉ t'.stack := fun leaving =>
    idle i t turns.before (.inr (stack ▸ leaving))
  refine ⟨?_, ?_, ?_, ?_⟩
  · intro j u found known
    rcases turns.others j u found with ⟨rfl, rfl⟩ | ⟨-, old⟩
    · rw [turns.step.me]
      exact owned
    · exact absurd (.inl known) (idle j u old)
  · intro j u found
    rcases turns.others j u found with ⟨rfl, rfl⟩ | ⟨-, old⟩
    · omega
    · exact exclusive.once j u old
  · intro j u found leaving
    rcases turns.others j u found with ⟨rfl, rfl⟩ | ⟨-, old⟩
    · exact absurd leaving stays
    · exact absurd (.inr leaving) (idle j u old)
  · intro j k u v found found' holds holds'
    rcases turns.others j u found with ⟨rfl, -⟩ | ⟨-, old⟩
    · rcases turns.others k v found' with ⟨rfl, -⟩ | ⟨-, old'⟩
      · rfl
      · exact absurd holds' (idle k v old')
    · exact absurd holds (idle j u old)

theorem Thread.Fresh.not_holds (fresh : t.Fresh) : ¬ t.Holds n := by
  obtain ⟨idle, stack, c, env, at'⟩ := fresh
  simp [Thread.Holds, Thread.duties, idle, stack, at', Control.claim?]

theorem State.Exclusive.rests (exclusive : s.Exclusive n) (rests : Rests s s')
    (me : ∀ (j : ThreadId) u, s.threads[j]? = some u → u.me s'.world = u.me s.world) :
    s'.Exclusive n := by
  refine ⟨?_, ?_, ?_, ?_⟩
  · intro j u found known
    rcases rests.others j u found with old | fresh
    · rw [rests.still.slot, me j u old]
      exact exclusive.owed j u old known
    · exact absurd (.inl known) fresh.not_holds
  · intro j u found
    rcases rests.others j u found with old | fresh
    · exact exclusive.once j u old
    · rw [List.count_eq_zero.2 fun known => fresh.not_holds (.inl known)]
      exact Nat.zero_le _
  · intro j u found leaving
    rcases rests.others j u found with old | fresh
    · rw [rests.still.slot]
      exact exclusive.leaves j u old leaving
    · exact absurd (.inr leaving) fresh.not_holds
  · intro j k u v found found' holds holds'
    rcases rests.others j u found with old | fresh
    · rcases rests.others k v found' with old' | fresh
      · exact exclusive.alone j k u v old old' holds holds'
      · exact absurd holds' fresh.not_holds
    · exact absurd holds fresh.not_holds

namespace Run

variable {run : Run} {k : Nat}

theorem writes (honest : run.HandsOff) (k : Nat) :
    (run.state k).Each fun _ t => ∀ a ∈ t.agenda, a.isOverwrite = false := by
  refine run.always (P := (·.Each fun _ t => ∀ a ∈ t.agenda, a.isOverwrite = false))
    (fun i t found => by simp at found) ?_ k
  intro k each
  refine (run.change k).each each (fun t writes => writes) ?_ ?_
  · intro i t t' found step
    exact step.overwrite_origin (honest k t (Array.mem_of_getElem? found)) (each i t found)
  · intro t c env idle _ _ a known
    rw [idle] at known
    cases known

theorem fair (honest : run.HandsOff) (claims : run.Claims n) (k : Nat) :
    (run.state k).Each fun w t => t.Fair w n := by
  intro i t found
  exact {
    steady := (run.framed k).steady i t found
    noted := run.noted k i t found
    entitled := run.entitled k i t found
    foreign := fun o => (run.guarded k).foreign i t o found
    honest := honest k t (Array.mem_of_getElem? found)
    writes := run.writes honest k i t found
    entries := run.entries claims k i t found }

theorem exclusive (honest : run.HandsOff) (claims : run.Claims n) (k : Nat) :
    (run.state k).Exclusive n := by
  refine run.always (P := (·.Exclusive n)) ⟨?_, ?_, ?_, ?_⟩ ?_ k
  · intro i t found
    simp at found
  · intro i t found
    simp at found
  · intro i t found
    simp at found
  · intro i j t u found
    simp at found
  · intro k exclusive
    rcases (run.change k).split with rests | ⟨i, t, t', turns, -⟩
    · exact exclusive.rests rests fun j u found => (run.change k).me (run.seats k) found
    · have fair := run.fair honest claims k i t turns.before
      rcases fair.duties_count turns.step with fewer | seizes
      · exact exclusive.turns fair turns fewer
      · exact exclusive.seizes fair turns seizes

end Run

/-! ## Beginning and end of an evaluation -/

def Frame.evaluates (f : Frame) (n : NodeId) : Bool :=
  f.entry?.any (·.1 == n)

/-- The thread runs the code of `n` or forces its result. -/
def Thread.evaluates (t : Thread) (n : NodeId) : Bool :=
  t.stack.any (·.evaluates n)

/-- The thread has entered `n` and is about to run it. -/
def Control.opens? : Control → Option (NodeId × Bool)
  | .start n claim | .body n claim => some (n, claim)
  | _ => none

theorem Thread.mem_entries_of_evaluates (evaluates : t.evaluates n) :
    ∃ claim, (n, claim) ∈ t.stack.filterMap Frame.entry? := by
  simp only [Thread.evaluates, Frame.evaluates, List.any_eq_true, Option.any_eq_true,
    beq_iff_eq] at evaluates
  obtain ⟨f, known, ⟨m, claim⟩, is, rfl⟩ := evaluates
  exact ⟨claim, List.mem_filterMap.2 ⟨f, known, is⟩⟩

theorem Control.opens?_of_isCalm {c : Control} (calm : c.isCalm) : c.opens? = none := by
  cases c <;> first | rfl | cases calm

theorem Step.opens_origin (step : Step w t w' t') (noted : t.Noted)
    (opens : t'.control.opens? = some (n, claim)) :
    t.control.opens? = some (n, claim) ∨ (w.slot n).cell = none ∧
      t'.control = .start n claim ∧ (t.control = .force n false ∧ claim = false ∨
        (∃ seen, t.control = .seize n seen) ∧ claim = true ∧
          w' = w.write n (some (.blackHole (t.me w)))) := by
  have calm : t'.control.isCalm → t.control.opens? = some (n, claim) := fun calm => by
    rw [Control.opens?_of_isCalm calm] at opens
    cases opens
  cases step with
  | stay => exact .inl opens
  | errand step =>
    rcases step.frames.2 with same | exit
    · exact .inl (same ▸ opens)
    · exact .inl (calm (Control.isCalm_of_isExit exit))
  | host step =>
    rcases step.lands with is | ⟨m, is⟩ | ⟨op, m, ns, env, -, is⟩ | ⟨m, v, a, is, -⟩
    · exact .inl (calm is)
    all_goals
      rw [is] at opens
      cases opens
  | forcing step =>
    cases step with
    | share _ at' free =>
      cases opens
      exact .inr ⟨free, rfl, .inl ⟨at', rfl⟩⟩
    | @seized m seen e idle at' same =>
      cases opens
      have control := noted.1
      rw [at'] at control
      exact .inr ⟨(Slot.cell_of_unchanged same).trans control, rfl,
        .inr ⟨⟨seen, at'⟩, rfl, rfl⟩⟩
    | started _ at' =>
      rw [at']
      exact .inl opens
    | body _ _ _ is => exact .inl (calm is)
    | _ => cases opens
  | waits step =>
    cases step with
    | busy | asleep => exact .inl opens
    | @proceed x blocked | @published x blocked => cases blocked <;> cases opens
    | _ => cases opens
  | attempt step => cases step <;> cases opens

theorem Step.evaluates_until (step : Step w t w' t') (evaluates : t.evaluates n) :
    t'.evaluates n ∨ t'.control.isExit ∨ t'.control.updates? = some n := by
  have below : ∀ {g rest}, t'.stack = g ++ rest → rest.any (·.evaluates n) → t'.evaluates n :=
    fun stack known => by
      rw [Thread.evaluates, stack, List.any_append, known, Bool.or_true]
  rcases step.stack_cases with ⟨gs, stack⟩ | ⟨f, rest, top, popped⟩
  · exact .inl (below stack evaluates)
  · rw [Thread.evaluates, top, List.any_cons, Bool.or_eq_true] at evaluates
    rcases evaluates with this | others
    · rcases popped with ⟨-, none⟩ | ⟨m, rfl, -⟩ | ⟨m, claim, kind, result⟩
      · cases f <;> first | cases this | cases none
      · cases this
      · obtain rfl : m = n := by
          rcases kind with rfl | rfl <;> simpa [Frame.evaluates, Frame.entry?] using this
        rcases result with stack | ⟨v, -, update⟩ | ⟨-, exit, -⟩
        · exact .inl (by simp [Thread.evaluates, stack, Frame.evaluates, Frame.entry?])
        · exact .inr (.inr (by rw [update]; rfl))
        · exact .inr (.inl exit)
    · rcases popped with ⟨⟨gs, stack⟩, -⟩ | ⟨m, -, stack⟩ | ⟨m, claim, -, result⟩
      · exact .inl (below stack others)
      · exact .inl (below (g := []) stack others)
      · rcases result with stack | ⟨v, stack, -⟩ | ⟨stack, -⟩
        · exact .inl (below (g := [.settling m claim]) stack others)
        · exact .inl (below (g := [.leaving m]) stack others)
        · exact .inl (below (g := []) stack others)

namespace Run

variable (run : Run)

/-- At time `c` thread `i` enters `n` and finds its slot empty. A claiming entry makes it the black
hole of the thread's task. -/
structure Enters (i : ThreadId) (n : NodeId) (claim : Bool) (c : Nat) : Prop where
  before : ∃ t, (run.state c).threads[i]? = some t ∧
    (t.control = .force n false ∧ claim = false ∨
      (∃ seen, t.control = .seize n seen) ∧ claim = true)
  empty : ((run.state c).world.slot n).cell = none
  after : ∃ t, (run.state (c + 1)).threads[i]? = some t ∧ t.control = .start n claim ∧
    (claim = true → ((run.state c).world.thunk? n).isSome →
      ((run.state (c + 1)).world.slot n).cell =
        some (.blackHole (t.me (run.state (c + 1)).world)))

/-- At time `k` thread `i` evaluates `n`. -/
def Evaluates (i : ThreadId) (n : NodeId) (k : Nat) : Prop :=
  ((run.state k).threads[i]?).any (·.evaluates n)

structure Starts (i : ThreadId) (n : NodeId) (b : Nat) : Prop where
  before : ((run.state b).threads[i]?).any fun t => t.control.begun? == some n
  after : run.Evaluates i n (b + 1)

/-- The evaluation of `n` by thread `i` ends at time `e` with an error or a panic. -/
structure Fails (i : ThreadId) (n : NodeId) (e : Nat) : Prop where
  before : run.Evaluates i n e
  after : ((run.state (e + 1)).threads[i]?).any fun t => !t.evaluates n && t.control.isExit

/-- The evaluation of `n` by thread `i` ends at time `e` with a result to install. -/
structure Succeeds (i : ThreadId) (n : NodeId) (e : Nat) : Prop where
  before : run.Evaluates i n e
  after : ((run.state (e + 1)).threads[i]?).any fun t =>
    !t.evaluates n && t.control.updates? == some n

variable {run}

theorem entered_of_opens {i : ThreadId} {k : Nat}
    (found : (run.state k).threads[i]? = some t) (opens : t.control.opens? = some (n, claim)) :
    ∃ c < k, run.Enters i n claim c ∧ ∀ d, c < d → d ≤ k →
      ∃ t, (run.state d).threads[i]? = some t ∧ t.control.opens? = some (n, claim) := by
  induction k generalizing t with
  | zero => simp [Run.state, trace] at found
  | succ k ih =>
    have later : ∀ {u : Thread}, (run.state k).threads[i]? = some u →
        u.control.opens? = some (n, claim) → ∃ c < k + 1, run.Enters i n claim c ∧
          ∀ d, c < d → d ≤ k + 1 →
            ∃ t, (run.state d).threads[i]? = some t ∧ t.control.opens? = some (n, claim) := by
      intro u before opened
      obtain ⟨c, lt, enters, between⟩ := ih before opened
      refine ⟨c, Nat.lt_succ_of_lt lt, enters, ?_⟩
      intro d low high
      rcases Nat.le_succ_iff.1 high with high | rfl
      · exact between d low high
      · exact ⟨t, found, opens⟩
    rcases (run.change k).split with rests | ⟨j, u, u', turns, -⟩
    · rcases rests.others i t found with old | ⟨-, -, c, env, at'⟩
      · exact later old opens
      · rw [at'] at opens
        cases opens
    · rcases turns.others i t found with ⟨rfl, rfl⟩ | ⟨-, old⟩
      · rcases turns.step.opens_origin (run.noted k _ u turns.before) opens with
          old | ⟨free, at', entry⟩
        · exact later turns.before old
        · refine ⟨k, Nat.lt_succ_self k, ⟨⟨u, turns.before, ?_⟩, free, t, found, at', ?_⟩, ?_⟩
          · exact entry.imp_right fun taken => ⟨taken.1, taken.2.1⟩
          · rintro rfl thunk
            rcases entry with ⟨-, is⟩ | ⟨-, -, hole⟩
            · cases is
            · obtain ⟨th, known⟩ := Option.isSome_iff_exists.1 thunk
              rw [turns.step.me, hole, World.slot_write_self known]
              rfl
          · intro d low high
            obtain rfl := Nat.le_antisymm high low
            exact ⟨t, found, opens⟩
      · exact later old opens

section

variable {i j : ThreadId} {k b e d : Nat}

theorem Evaluates.thread (evaluates : run.Evaluates i n k) :
    ∃ t, (run.state k).threads[i]? = some t ∧ t.evaluates n := by
  simpa [Evaluates, Option.any_eq_true] using evaluates

theorem Evaluates.owes (honest : run.HandsOff) (claims : run.Claims n)
    (evaluates : run.Evaluates i n k) : ∃ t, (run.state k).threads[i]? = some t ∧
      1 ≤ (t.stack.filterMap Frame.claim?).count n := by
  obtain ⟨t, found, evaluates⟩ := evaluates.thread
  obtain ⟨claim, known⟩ := Thread.mem_entries_of_evaluates evaluates
  obtain ⟨rfl, -⟩ := (run.fair honest claims k i t found).entries claim
    (List.mem_append_right _ known)
  obtain ⟨f, there, is⟩ := List.mem_filterMap.1 known
  refine ⟨t, found, List.count_pos_iff.2 (List.mem_filterMap.2 ⟨f, there, ?_⟩)⟩
  cases f <;> cases is <;> rfl

theorem evaluates_until (le : b ≤ d) (evaluates : run.Evaluates i n b) :
    (∀ m, b ≤ m → m ≤ d → run.Evaluates i n m) ∨
      ∃ e, b ≤ e ∧ e < d ∧ (∀ m, b ≤ m → m ≤ e → run.Evaluates i n m) ∧
        (run.Fails i n e ∨ run.Succeeds i n e) := by
  induction le with
  | refl =>
    refine .inl fun m low high => ?_
    rw [Nat.le_antisymm high low]
    exact evaluates
  | @step d le ih =>
    rcases ih with still | ⟨e, low, high, still, ends⟩
    · have now := still d le (Nat.le_refl d)
      by_cases next : run.Evaluates i n (d + 1)
      · refine .inl fun m low high => ?_
        rcases Nat.le_succ_iff.1 high with high | rfl
        · exact still m low high
        · exact next
      · refine .inr ⟨d, le, Nat.lt_succ_self d, still, ?_⟩
        obtain ⟨t, found, active⟩ := now.thread
        obtain ⟨t', found', moved⟩ := (run.change d).thread found
        have quits : t'.evaluates n = false := by simpa [Evaluates, found'] using next
        rcases moved with rfl | step
        · rw [active] at quits
          cases quits
        · rcases step.evaluates_until active with stays | exit | updates
          · rw [stays] at quits
            cases quits
          · exact .inl ⟨now, by simp [found', quits, exit]⟩
          · exact .inr ⟨now, by simp [found', quits, updates]⟩
    · exact .inr ⟨e, low, Nat.lt_succ_of_lt high, still, ends⟩

/-- While `n` is evaluated, its slot has no value, and nobody else takes it or updates it. -/
theorem Evaluates.alone (honest : run.HandsOff) (claims : run.Claims n)
    (evaluates : run.Evaluates i n k) :
    (∀ v, ((run.state k).world.slot n).cell ≠ some (.value v)) ∧
      ∀ (j : ThreadId) u, (run.state k).threads[j]? = some u → u.control.claim? ≠ some n := by
  obtain ⟨t, found, owes⟩ := evaluates.owes honest claims
  have exclusive := run.exclusive honest claims k
  have known : n ∈ t.duties :=
    List.mem_append_right _ (List.mem_append_right _ (List.count_pos_iff.1 owes))
  refine ⟨fun v => Slot.not_value_of_ownedBy (exclusive.owed i t found known), ?_⟩
  intro j u found' claim
  have taken : n ∈ u.duties := List.mem_append_left _ (by simp [claim])
  obtain rfl := exclusive.alone i j t u found found' (.inl known) (.inl taken)
  rw [found] at found'
  cases found'
  have once := exclusive.once i t found
  simp only [Thread.duties, claim, Option.toList_some, List.count_append,
    List.count_singleton_self] at once
  omega

theorem not_resets (honest : run.HandsOff) (k : Nat) (n : NodeId) :
    ¬ (run.state k).Resets (run.move k) n := by
  rintro ⟨i, t, v, as, -, found, next⟩
  have write := run.writes honest k i t found _ (by rw [next]; exact List.mem_cons_self)
  cases write

theorem Succeeds.settled (honest : run.HandsOff) (claims : run.Claims n)
    (succeeds : run.Succeeds i n e) (lt : e < d) :
    (∃ t, (run.state d).threads[i]? = some t ∧ t.control.updates? = some n) ∨
      ∃ v, ((run.state d).world.slot n).cell = some (.value v) := by
  induction lt with
  | refl =>
    have after := succeeds.after
    simp only [Option.any_eq_true, Bool.and_eq_true, beq_iff_eq] at after
    obtain ⟨t, found, -, updates⟩ := after
    exact .inl ⟨t, found, updates⟩
  | @step d lt ih =>
    rcases ih with ⟨t, found, updates⟩ | ⟨v, held⟩
    · obtain ⟨t', found', moved⟩ := (run.change d).thread found
      rcases moved with rfl | step
      · exact .inl ⟨_, found', updates⟩
      · have thunk := (run.exclusive honest claims d).thunk found
          (Thread.mem_duties_of_updates? updates)
        exact ((run.fair honest claims d i t found).updates step thunk updates).imp_left
          fun updates => ⟨t', found', updates⟩
    · exact .inr ⟨v, run.value_kept (Nat.le_succ d) held fun m _ _ => not_resets honest m n⟩

theorem holds_of_frames (honest : run.HandsOff) (claims : run.Claims n) {c : ContextId}
    (bound : c < (run.state k).world.contexts.size)
    (known : n ∈ ((run.state k).world.context c).stack.frames) :
    ∃ (i : ThreadId) (t : Thread), (run.state k).threads[i]? = some t ∧ t.context = c ∧
      t.Holds n := by
  have framed := run.framed k
  by_cases busy : ∃ t ∈ (run.state k).threads, t.context = c ∧ t.Runs
  · obtain ⟨t, there, rfl, runs⟩ := busy
    obtain ⟨i, found⟩ := Array.mem_iff_getElem?.1 there
    have entries := (run.fair honest claims k i t found).entries
    refine ⟨i, t, found, rfl, ?_⟩
    rw [(framed.running i t found runs).frames] at known
    rcases List.mem_append.1 known with begun | evaluation
    · cases at' : t.control <;> simp [at', Control.begun?] at begun
      subst begun
      obtain ⟨rfl, -⟩ := entries _ (List.mem_append_left _ (by rw [at']; exact List.mem_cons_self))
      exact .inl (List.mem_append_left _ (by rw [at']; exact List.mem_cons_self))
    · obtain ⟨f, there, is⟩ := List.mem_filterMap.1 evaluation
      cases f with
      | running m claim | settling m claim =>
        cases is
        obtain ⟨rfl, -⟩ := entries claim
          (List.mem_append_right _ (List.mem_filterMap.2 ⟨_, there, rfl⟩))
        exact .inl (Thread.mem_duties_of_frame there rfl)
      | leaving m =>
        cases is
        exact .inr there
      | _ => cases is
  · have idle : ∀ t ∈ (run.state k).threads, t.context = c → ¬ t.Runs :=
      fun t there at' runs => busy ⟨t, there, at', runs⟩
    rw [(framed.idle c bound idle).frames] at known
    cases known

theorem Starts.opens (starts : run.Starts i n b) :
    ∃ t claim, (run.state b).threads[i]? = some t ∧ t.control = .body n claim := by
  obtain ⟨before, -⟩ := starts
  simp only [Option.any_eq_true, beq_iff_eq] at before
  obtain ⟨t, found, begun⟩ := before
  cases at' : t.control <;> simp [at', Control.begun?] at begun
  subst begun
  exact ⟨t, _, found, at'⟩

theorem entry_of_starts (honest : run.HandsOff) (starts : run.Starts i n b) :
    ∃ c < b, ∃ claim, run.Enters i n claim c ∧
      (∀ d, c < d → d ≤ b → ∃ t, (run.state d).threads[i]? = some t ∧
        t.control.opens? = some (n, claim)) ∧
      ∀ d ≤ c, ∀ v, ((run.state d).world.slot n).cell ≠ some (.value v) := by
  obtain ⟨t, claim, found, at'⟩ := starts.opens
  obtain ⟨c, lt, enters, between⟩ := entered_of_opens found (by rw [at']; rfl)
  refine ⟨c, lt, claim, enters, between, ?_⟩
  intro d le v held
  have kept := run.value_kept le held fun m _ _ => not_resets honest m n
  rw [enters.empty] at kept
  cases kept

theorem succeeds_once (honest : run.HandsOff) (claims : run.Claims n)
    (first : run.Succeeds i n b) (second : run.Succeeds j n d) : ¬ b < d := by
  intro lt
  obtain ⟨free, unclaimed⟩ := second.before.alone honest claims
  rcases first.settled honest claims lt with ⟨t, found, updates⟩ | ⟨v, held⟩
  · refine unclaimed i t found ?_
    cases at' : t.control <;> simp_all [Control.updates?, Control.claim?]
  · exact free v held

theorem fails_between (honest : run.HandsOff) (claims : run.Claims n)
    (first : run.Starts i n b) (second : run.Starts j n d) (lt : b < d) :
    ∃ e, b < e ∧ e < d ∧ run.Fails i n e ∧ ∀ m, b < m → m ≤ e → run.Evaluates i n m := by
  obtain ⟨u, claim, found, at'⟩ := second.opens
  have fair := run.fair honest claims d j u found
  obtain ⟨rfl, -⟩ := fair.entries claim
    (List.mem_append_left _ (by rw [at']; exact List.mem_cons_self))
  have claimed : u.control.claim? = some n := by rw [at']; rfl
  rcases evaluates_until lt first.after with still | ⟨e, low, high, still, fails | succeeds⟩
  · exact absurd claimed (((still d lt (Nat.le_refl d)).alone honest claims).2 j u found)
  · exact ⟨e, low, high, fails, still⟩
  · have exclusive := run.exclusive honest claims d
    have owes : n ∈ u.duties := List.mem_append_left _ (by simp [claimed])
    rcases succeeds.settled honest claims high with ⟨t, found', updates⟩ | ⟨v, held⟩
    · obtain rfl := exclusive.alone i j t u found' found
        (.inl (Thread.mem_duties_of_updates? updates)) (.inl owes)
      rw [found] at found'
      cases found'
      simp [at', Control.updates?] at updates
    · exact absurd held (Slot.not_value_of_ownedBy (exclusive.owed j u found owes))

end

/-- **Exclusive evaluation.** If hosts leave slots alone, the code of a thunk runs only after an entry
that found its slot empty, so before any value was installed. If moreover every entry takes the
thunk, one context at a time has it on its update stack, one evaluation succeeds, and the next one
starts after the last one has failed. -/
theorem evaluations_exclusive (run : Run) (honest : run.HandsOff) (n : NodeId) :
    (∀ i b, run.Starts i n b → ∃ c < b, ∃ claim, run.Enters i n claim c ∧
      (∀ d, c < d → d ≤ b → ∃ t, (run.state d).threads[i]? = some t ∧
        t.control.opens? = some (n, claim)) ∧
      ∀ d ≤ c, ∀ v, ((run.state d).world.slot n).cell ≠ some (.value v)) ∧
    (run.Claims n →
      (∀ k c d, c < (run.state k).world.contexts.size → d < (run.state k).world.contexts.size →
        n ∈ ((run.state k).world.context c).stack.frames →
        n ∈ ((run.state k).world.context d).stack.frames → c = d) ∧
      (∀ i j e e', run.Succeeds i n e → run.Succeeds j n e' → i = j ∧ e = e') ∧
      ∀ i j b b', run.Starts i n b → run.Starts j n b' → b < b' →
        ∃ e, b < e ∧ e < b' ∧ run.Fails i n e ∧ ∀ d, b < d → d ≤ e → run.Evaluates i n d) := by
  refine ⟨fun i b => entry_of_starts honest, fun claims => ⟨?_, ?_, ?_⟩⟩
  · intro k c d bound bound' known known'
    obtain ⟨i, t, found, rfl, holds⟩ := holds_of_frames honest claims bound known
    obtain ⟨j, u, found', rfl, holds'⟩ := holds_of_frames honest claims bound' known'
    obtain rfl := (run.exclusive honest claims k).alone i j t u found found' holds holds'
    rw [found] at found'
    cases found'
    rfl
  · intro i j e e' first second
    have same : e = e' := Nat.le_antisymm (Nat.not_lt.1 (succeeds_once honest claims second first))
      (Nat.not_lt.1 (succeeds_once honest claims first second))
    subst same
    obtain ⟨t, found, owes⟩ := first.before.owes honest claims
    obtain ⟨u, found', owes'⟩ := second.before.owes honest claims
    have holds : ∀ {t : Thread}, 1 ≤ (t.stack.filterMap Frame.claim?).count n → t.Holds n :=
      fun owes => .inl
        (List.mem_append_right _ (List.mem_append_right _ (List.count_pos_iff.1 owes)))
    exact ⟨(run.exclusive honest claims e).alone i j t u found found' (holds owes) (holds owes'),
      rfl⟩
  · intro i j b b' first second lt
    exact fails_between honest claims first second lt

/-- The first run of a thunk fails. The task that waited for it runs it again. -/
def retry : Run :=
  .ofMoves {}
    ([.thunk (.branch (.prim (.increment "x") []) (.prim (.box (.scalar (.int 7))) [])
        (.prim (.raise "bad") [])) [], .sit true, .sit true, .evaluate 0 0, .evaluate 1 0] ++
      (List.range 79).map fun k => .step (k % 2))
    (by decide +kernel)

theorem evaluations_exclusive_retry :
    retry.HandsOff ∧ retry.Claims 0 ∧ retry.Starts 0 0 25 ∧ retry.Starts 1 0 52 ∧
      retry.Succeeds 1 0 66 ∧ (∃ c < 52, ∃ claim, retry.Enters 1 0 claim c) ∧
      (∃ e, 25 < e ∧ e < 52 ∧ retry.Fails 0 0 e) ∧
      ∀ i e, retry.Succeeds i 0 e → i = 1 ∧ e = 66 := by
  have honest : retry.HandsOff :=
    ofMoves_forall (P := fun s => ∀ t ∈ s.threads, t.meddles = false) (by decide +kernel)
  have claims : retry.Claims 0 :=
    ofMoves_forall (P := fun s => ∀ t ∈ s.threads, t.shares s.world 0 = false)
      (by decide +kernel)
  have first : retry.Starts 0 0 25 := ⟨by decide +kernel, by unfold Evaluates; decide +kernel⟩
  have second : retry.Starts 1 0 52 := ⟨by decide +kernel, by unfold Evaluates; decide +kernel⟩
  have succeeds : retry.Succeeds 1 0 66 :=
    ⟨by unfold Evaluates; decide +kernel, by decide +kernel⟩
  obtain ⟨entries, exclusive⟩ := evaluations_exclusive retry honest 0
  obtain ⟨c, before, claim, enters, -⟩ := entries 1 52 second
  obtain ⟨-, once, again⟩ := exclusive claims
  obtain ⟨e, low, high, fails, -⟩ := again 0 1 25 52 first second (by decide)
  exact ⟨honest, claims, first, second, succeeds, ⟨c, before, claim, enters⟩,
    ⟨e, low, high, fails⟩, fun i e other => once i 1 e 66 other succeeds⟩

end Run

end LazyGraph

import LazyGraph.Proofs.Agreement
import LazyGraph.Proofs.Suspensions

/-!
# Release

A thunk is released when its value is installed, by the thread that installed it and in its next
step. A value that a host sets releases nothing.
-/

namespace LazyGraph

/-- The host releases a thunk itself. -/
def Thread.frees (t : Thread) : Bool :=
  match t.control with
  | .perform (.onThunk .clear) _ _ => true
  | _ => false

def Run.NeverFrees (run : Run) : Prop :=
  ∀ k, ∀ t ∈ (run.state k).threads, t.frees = false

def Thread.installs (t : Thread) (n v : NodeId) : Bool :=
  match t.agenda, t.control with
  | [], .install m x _ => m == n && x == v
  | _, _ => false

/-- In move `c`, thread `i` installs value `v` into thunk `n`, which has none. -/
structure Run.Installs (run : Run) (i : ThreadId) (n v : NodeId) (c : Nat) : Prop where
  turn : run.move c = .step i
  installs : ((run.state c).threads[i]?).any (·.installs n v)
  free : ((run.state c).world.slot n).value? = none
  held : ((run.state (c + 1)).world.slot n).cell = some (.value v)

variable {w w' : World} {t t' : Thread} {n v : NodeId} {s : Suspension}

/-! ## What is updated is a thunk -/

/-- The thunks on which a thread has an update frame, or which it is updating. -/
def Thread.updating (t : Thread) : List NodeId :=
  t.control.updates?.toList ++ t.stack.filterMap Frame.thunk?

theorem Step.frame_thunk_origin (step : Step w t w' t') (known : n ∈ t'.stack.filterMap Frame.thunk?) :
    n ∈ t.stack.filterMap Frame.thunk? ∨
      t.agenda = [] ∧ ∃ claim, t.control = .body n claim ∧ t'.stack ≠ t.stack := by
  cases step with
  | stay => exact .inl known
  | errand step => exact .inl (step.frames.1 ▸ known)
  | host step =>
    refine .inl ?_
    cases step with
    | code _ _ _ frames => rwa [filterMap_of_isCode frames] at known
    | giveCode _ _ top kind _ frames =>
      rw [filterMap_of_isCode frames] at known
      rwa [top, List.filterMap_cons_none (Frame.thunk?_of_isCode kind)]
    | dropCode _ _ top kind =>
      rwa [top, List.filterMap_cons_none (Frame.thunk?_of_isCode kind)]
    | giveAgain _ _ top | giveRunning _ _ top | giveSettling _ _ top | dropAgain _ _ top =>
      rw [top]
      exact known
    | giveLeaving _ _ top | dropLeaving _ _ top =>
      rw [top]
      exact List.mem_cons_of_mem _ known
    | @dropEvaluation f m claim rest _ _ _ top kind =>
      have is : f.thunk? = some m := by rcases kind with rfl | rfl <;> rfl
      rw [top, List.filterMap_cons_some is]
      exact List.mem_cons_of_mem _ known
    | _ => exact known
  | forcing step =>
    cases step with
    | @body m claim fs c idle at' frames =>
      rw [filterMap_of_isCode frames] at known
      rcases List.mem_cons.1 known with rfl | old
      · refine .inr ⟨idle, claim, at', fun same => ?_⟩
        have length := congrArg List.length same
        simp at length
        omega
      · exact .inl old
    | _ => exact .inl known
  | waits step => exact .inl (by cases step <;> exact known)
  | attempt step => exact .inl (by cases step <;> exact known)

theorem Step.updates_origin (step : Step w t w' t') (known : t'.control.updates? = some n) :
    n ∈ t.updating ∨
      t.agenda = [] ∧ ∃ v ns env, t.control = .perform (.onThunk .update) (n :: v :: ns) env := by
  have same : ∀ {c}, t.control = c → c.updates? = some n → n ∈ t.updating := fun is updates => by
    simp [Thread.updating, is, updates]
  have calm : ∀ {c : Control}, c.isCalm → c.updates? ≠ some n := fun calm => by
    cases ‹Control› <;> simp_all [Control.isCalm, Control.isCode, Control.updates?]
  cases step with
  | stay => exact .inl (same rfl known)
  | errand step =>
    rcases step.frames.2 with kept | exit
    · exact .inl (same kept.symm known)
    · exact absurd known (calm (Control.isCalm_of_isExit exit))
  | host step =>
    cases step with
    | update idle host =>
      cases known
      exact .inr ⟨idle, _, _, _, host⟩
    | giveSettling _ _ top =>
      cases known
      exact .inl (by simp [Thread.updating, top, Frame.thunk?])
    | code _ _ _ _ quiet | giveCode _ _ _ _ _ _ quiet => exact absurd known (calm quiet)
    | dropCode _ exit _ _ caught =>
      rcases caught with rfl | ⟨code, env, rfl⟩
      · exact absurd known (calm (Control.isCalm_of_isExit exit))
      · cases known
    | dropAgain _ exit | dropEvaluation _ exit | dropLeaving _ exit =>
      exact absurd known (calm (Control.isCalm_of_isExit exit))
    | _ => cases known
  | forcing step =>
    cases step with
    | body _ _ _ quiet => exact absurd known (calm quiet)
    | update _ at' | installMissed _ at' => exact .inl (same at' known)
    | _ => cases known
  | waits step =>
    cases step with
    | busy | asleep => exact .inl (same rfl known)
    | @proceed x blocked | @published x blocked => cases blocked <;> cases known
    | _ => cases known
  | attempt step => cases step <;> cases known

theorem Thread.updating_step (thunks : ∀ n ∈ t.updating, (w.thunk? n).isSome) :
    ∀ n ∈ (t.step w).2.updating, (w.thunk? n).isSome := by
  intro n known
  have step := step_cases w t
  have frames : n ∈ t.stack.filterMap Frame.thunk? → (w.thunk? n).isSome := fun old =>
    thunks n (List.mem_append_right _ old)
  by_contra missing
  have none : w.thunk? n = none := by simpa using missing
  rcases List.mem_append.1 known with updates | frame
  · rcases step.updates_origin (by simpa using updates) with old | ⟨idle, v, ns, env, host⟩
    · exact missing (thunks n old)
    · simp [Thread.step, idle, Thread.proceed, host, Thread.perform, Thread.onThunk, none,
        Thread.raise, Thread.goto, Control.updates?] at updates
  · rcases step.frame_thunk_origin frame with old | ⟨idle, claim, at', grown⟩
    · exact missing (frames old)
    · refine grown ?_
      simp [Thread.step, idle, Thread.proceed, at', Thread.body, none, Thread.plan]

theorem Run.updating (run : Run) (k : Nat) :
    (run.state k).Each fun w t => ∀ n ∈ t.updating, (w.thunk? n).isSome := by
  refine run.each ?_ ?_ ?_ ?_ k
  · intro k t thunks n known
    exact (run.change k).evolves.thunk n (thunks n known)
  · intro k i t found thunks n known
    exact (step_cases _ t).evolves.thunk n (Thread.updating_step thunks n known)
  · exact fun w t g as next thunks => thunks
  · rintro w t ⟨-, top, c, env, at'⟩ n known
    simp [Thread.updating, top, at', Control.updates?] at known

/-! ## The errand to release -/

theorem Thread.installs_iff : t.installs n v ↔ t.agenda = [] ∧ ∃ seen, t.control = .install n v seen := by
  unfold installs
  split <;> rename_i next at'
  · rw [at']
    simp [next]
  · simp only [Bool.false_eq_true, false_iff, not_and, not_exists]
    exact fun idle seen is => at' n v seen idle is

theorem clear_not_mem_afterInstall {me : TaskId} {seen : Slot} :
    .clear n ∉ Thread.afterInstall me seen := by
  unfold Thread.afterInstall
  split
  · simp
  · split <;> simp [wakeQueue]
  · split <;> simp
  · simp

theorem clear_not_mem_afterSurrender {me : TaskId} {seen : Slot} :
    .clear n ∉ afterSurrender me seen := by
  cases found : seen.queue? <;> simp [afterSurrender, found, wakeQueue]

theorem clear_not_mem_of_reports {as : List Action} (reports : ∀ a ∈ as, a.isReport) :
    .clear n ∉ as := fun known => by simpa [Action.isReport] using reports _ known

theorem clear_not_mem_giveUp {m : NodeId} {claim : Bool} : .clear n ∉ giveUp m claim := by
  cases claim <;> simp [giveUp]

theorem Errand.clear_origin (step : Errand w t w' t') (known : .clear n ∈ t'.agenda) :
    t' = t ∨ ∃ a as, t.agenda = a :: as ∧ .clear n ∈ as := by
  cases step with
  | stand => exact .inl rfl
  | drain next kind =>
    simp only [List.mem_append, List.mem_map, reduceCtorEq, and_false, exists_false,
      false_or] at known
    rcases known with report | old
    · exact absurd report (clear_not_mem_of_reports kind)
    · exact .inr ⟨_, _, next, old⟩
  | @overwrite m x as next =>
    rcases List.mem_append.1 known with new | old
    · cases found : (w.slot m).queue? <;> simp [found] at new
    · exact .inr ⟨_, _, next, old⟩
  | surrendered next =>
    rcases List.mem_append.1 known with new | old
    · exact absurd new clear_not_mem_afterSurrender
    · exact .inr ⟨_, _, next, old⟩
  | quiet next | refuse next | wake next | «seal» next | sweep next | examined next
  | examineClosed next | examineOpen next | inspectResolved next | inspectOpen next
  | dismissed next | dismissListed next | dismissOther next | abandonOwn next | abandonOther next
  | surrenderMissed next => exact .inr ⟨_, _, next, by simpa using known⟩

/-- The thread is about to release thunk `n`, and has no other to release. -/
def Thread.Releases (t : Thread) (n : NodeId) : Prop :=
  ∃ as, t.agenda = .clear n :: as ∧ ∀ m, .clear m ∉ as

/-- The step that installs a value. -/
structure Installation (w : World) (t : Thread) (n : NodeId) (w' : World) (t' : Thread) : Prop where
  idle : t.agenda = []
  wrote : ∃ v seen, t.control = .install n v seen ∧ (w.slot n).unchanged seen = true ∧
    w' = w.write n (some (.value v))
  releases : t'.Releases n

theorem Step.clear_origin (step : Step w t w' t') (kept : t.frees = false)
    (known : .clear n ∈ t'.agenda) :
    t' = t ∨ (∃ a as, t.agenda = a :: as ∧ .clear n ∈ as) ∨ Installation w t n w' t' := by
  cases step with
  | stay => exact .inl rfl
  | errand step => exact (step.clear_origin known).imp_right .inl
  | host step =>
    cases step with
    | code _ _ _ _ _ reports =>
      rcases reports with reports | ⟨g, m, rfl, -⟩
      · exact absurd known (clear_not_mem_of_reports reports)
      · simp at known
    | clear _ host => simp [Thread.frees, host] at kept
    | revert _ _ _ resets =>
      rcases resets _ known with ⟨m, is⟩ | is | report
      · cases is
      · cases is
      · simp [Action.isReport] at report
    | dropEvaluation _ _ _ _ reports =>
      rcases List.mem_append.1 known with new | new
      · exact absurd new (clear_not_mem_of_reports reports)
      · exact absurd new clear_not_mem_giveUp
    | _ => simp_all
  | forcing step =>
    cases step with
    | enterFailed _ _ reports => exact absurd known (clear_not_mem_of_reports reports)
    | startLoop =>
      rcases List.mem_cons.1 known with is | new
      · cases is
      · exact absurd new clear_not_mem_giveUp
    | released => exact absurd known clear_not_mem_giveUp
    | @installed m v seen e idle at' same =>
      have rest : ∀ k, .clear k ∉ Thread.afterInstall (t.me w) seen ++ [.emit e] := by
        simp [clear_not_mem_afterInstall]
      rcases List.mem_cons.1 known with is | new
      · cases is
        exact .inr (.inr ⟨idle, ⟨v, seen, at', same, rfl⟩, _, rfl, rest⟩)
      · exact absurd new (rest n)
    | _ => simp_all
  | waits step =>
    cases step with
    | enlist _ _ _ gates | enlisted _ _ _ gates =>
      obtain ⟨g, is⟩ := gates _ known
      cases is
    | proceed _ _ _ reports | published _ _ _ _ reports =>
      exact absurd known (clear_not_mem_of_reports reports)
    | _ => simp_all
  | attempt step => cases step <;> simp_all

/-! ## Who releases -/

namespace Run

variable {run : Run} {i : ThreadId} {j k : Nat}

/-- No step of thread `i` falls between moves `c` and `k`. -/
def Pauses (run : Run) (i : ThreadId) (c k : Nat) : Prop :=
  ∀ d, c < d → d < k → run.move d ≠ .step i

theorem releases_origin (kept : run.NeverFrees) (k : Nat) : ∀ (i : ThreadId) t n,
    (run.state k).threads[i]? = some t → .clear n ∈ t.agenda →
      t.Releases n ∧ ∃ c v, c < k ∧ run.Installs i n v c ∧ run.Pauses i c k := by
  induction k with
  | zero =>
    intro i t n found
    simp [state, trace] at found
  | succ k ih =>
    intro i t' n found known
    obtain ⟨t, before⟩ : ∃ t, (run.state k).threads[i]? = some t := by
      rcases thread_before found with old | ⟨errands, -⟩
      · exact old
      · simp [errands] at known
    have honest := kept k t (Array.mem_of_getElem? before)
    by_cases turn : run.move k = .step i
    · obtain ⟨world, after⟩ := own_step turn before
      rw [after] at found
      cases found
      rcases (step_cases _ t).clear_origin honest known with same | ⟨a, as, next, rest⟩ | installation
      · -- The first errand has been done, so that the thread cannot be as before.
        rw [same] at known
        obtain ⟨⟨as, next, only⟩, -⟩ := ih i t n before known
        have gone : (t.step (run.state k).world).2.agenda = as := by
          simp [Thread.step, next, Action.perform]
        rw [same, next] at gone
        exact absurd gone (by simp)
      · obtain ⟨⟨bs, is, only⟩, -⟩ := ih i t n before (next ▸ List.mem_cons_of_mem _ rest)
        rw [next] at is
        cases is
        exact absurd rest (only n)
      · obtain ⟨idle, ⟨v, seen, at', same, wrote⟩, releases⟩ := installation
        have updates : n ∈ t.updating := by simp [Thread.updating, at', Control.updates?]
        obtain ⟨th, thunk⟩ := Option.isSome_iff_exists.1 (run.updating k i t before n updates)
        have noted := (run.noted k i t before).control
        rw [at'] at noted
        refine ⟨releases, k, v, Nat.lt_succ_self k, ⟨turn, ?_, ?_, ?_⟩, fun d low high => by omega⟩
        · simp [before, Thread.installs_iff.2 ⟨idle, seen, at'⟩]
        · rw [Slot.value?, Slot.cell_of_unchanged same, ← Slot.value?]
          exact noted
        · rw [world, wrote, World.slot_write_self thunk, Slot.cell_write]
    · have stays : t' = t ∨ ∃ g, t.agenda = .gate g :: t'.agenda := by
        rcases not_own_step turn before with stays | ⟨g, as, next, -, passed⟩
        · rw [stays] at found
          exact .inl (Option.some.inj found).symm
        · rw [passed] at found
          obtain rfl := Option.some.inj found
          exact .inr ⟨g, next⟩
      rcases stays with rfl | ⟨g, next⟩
      · obtain ⟨releases, c, v, lt, installs, pauses⟩ := ih i t' n before known
        refine ⟨releases, c, v, Nat.lt_succ_of_lt lt, installs, fun d low high => ?_⟩
        rcases Nat.lt_succ_iff_lt_or_eq.1 high with earlier | rfl
        · exact pauses d low earlier
        · exact turn
      · obtain ⟨⟨as, is, -⟩, -⟩ := ih i t n before (next ▸ List.mem_cons_of_mem _ known)
        rw [next] at is
        cases is

/-- Until it takes its next step, a thread that has installed a value is about to release. -/
theorem releases_after {n v : NodeId} {c : Nat} (installs : run.Installs i n v c) {k : Nat}
    (lt : c < k) (pauses : run.Pauses i c k) :
    ∃ t, (run.state k).threads[i]? = some t ∧ t.Releases n := by
  induction lt with
  | refl =>
    obtain ⟨t, found, at'⟩ := (Option.any_eq_true _ _).1 installs.installs
    obtain ⟨idle, seen, at'⟩ := Thread.installs_iff.1 at'
    obtain ⟨world, after⟩ := own_step installs.turn found
    have step : t.step (run.state c).world = t.install (run.state c).world n v seen := by
      simp [Thread.step, idle, Thread.proceed, at']
    refine ⟨_, after, ?_⟩
    rw [step] at world ⊢
    unfold Thread.install at world ⊢
    cases exchanged : (run.state c).world.exchange? n seen (some (.value v)) with
    | none =>
      simp only [exchanged] at world
      have value := installs.held
      rw [world, ← Slot.value?_eq_some, installs.free] at value
      cases value
    | some w =>
      refine ⟨_, by simp only [Thread.plan, idle, List.append_nil, List.cons_append]; rfl, ?_⟩
      simp [clear_not_mem_afterInstall]
  | @step k lt ih =>
    obtain ⟨t, before, as, next, only⟩ := ih fun d low high => pauses d low (Nat.lt_succ_of_lt high)
    rcases not_own_step (pauses k lt (Nat.lt_succ_self k)) before with stays | ⟨g, bs, gate, -⟩
    · exact ⟨t, stays, as, next, only⟩
    · rw [next] at gate
      cases gate

theorem first_turn {c d : Nat} (lt : c < d) (turn : run.move d = .step i) :
    ∃ e, c < e ∧ e ≤ d ∧ run.move e = .step i ∧ run.Pauses i c e := by
  induction d using Nat.strongRecOn with
  | ind d ih =>
    by_cases pauses : run.Pauses i c d
    · exact ⟨d, lt, Nat.le_refl d, turn, pauses⟩
    · simp only [Pauses, not_forall, ne_eq, not_not] at pauses
      obtain ⟨e, low, high, turn⟩ := pauses
      obtain ⟨f, low, le, rest⟩ := ih e high low turn
      exact ⟨f, low, Nat.le_of_lt (Nat.lt_of_le_of_lt le high), rest⟩

/-- A thunk is released by the first step of the thread that has installed its value. -/
theorem cleared_of_installs (whole : run.Whole) {n v : NodeId} {c d k : Nat}
    (installs : run.Installs i n v c) (after : c < d) (before : d < k)
    (turn : run.move d = .step i) (found : (run.state k).world.suspension? n = some s)
    (shrinks : s.isConstant = false) : s.cleared = true := by
  obtain ⟨e, low, le, turn, pauses⟩ := first_turn after turn
  obtain ⟨t, there, as, next, -⟩ := releases_after installs low pauses
  have released : (run.state (e + 1)).world = (run.state e).world.release n := by
    rw [(own_step turn there).1]
    simp [Thread.step, next, Action.perform]
  -- The thunk has held a value, so it is in the heap by then.
  obtain ⟨old, there⟩ := World.thunk_of_cell installs.held
  obtain ⟨th, thunk⟩ := Option.isSome_iff_exists.1
    ((run.evolves (Nat.succ_le_of_lt low)).thunk n (by rw [there]; rfl))
  have known : (run.state e).world.suspension? n = some th.suspension := by
    simp [World.suspension?, thunk]
  have cleared : (run.state (e + 1)).world.suspension? n = some th.suspension.clear := by
    rw [released, World.suspension?_release, if_pos rfl, known, Option.map_some]
  rcases run.suspension_kept whole (Nat.succ_le_of_lt (Nat.lt_of_le_of_lt le before)) cleared with
    kept | kept <;>
  · rw [found] at kept
    obtain rfl := Option.some.inj kept
    simp only [Suspension.clear_clear, Suspension.isConstant_clear] at shrinks ⊢
    exact Suspension.cleared_clear shrinks

theorem installs_of_cleared (kept : run.NeverFrees) (whole : run.Whole) {n : NodeId} (k : Nat)
    (found : (run.state k).world.suspension? n = some s) (cleared : s.cleared = true) :
    ∃ i v c d, c < d ∧ d < k ∧ run.Installs i n v c ∧ run.move d = .step i := by
  induction k with
  | zero => simp [state, trace, World.suspension?, World.thunk?, World.node?] at found
  | succ k ih =>
    have before (old : (run.state k).world.suspension? n = some s) :
        ∃ i v c d, c < d ∧ d < k + 1 ∧ run.Installs i n v c ∧ run.move d = .step i := by
      obtain ⟨i, v, c, d, lt, lt', rest⟩ := ih old
      exact ⟨i, v, c, d, lt, Nat.lt_succ_of_lt lt', rest⟩
    rcases run.suspensions whole k with retains | ⟨i, t, m, as, turn, there, next, released⟩
    · rcases retains.new n s found with old | fresh
      · exact before old
      · rw [cleared] at fresh
        cases fresh
    · by_cases same : n = m
      · subst same
        obtain ⟨-, c, v, lt, installs, -⟩ := run.releases_origin kept k i t n there
          (next ▸ List.mem_cons_self)
        exact ⟨i, v, c, k, lt, Nat.lt_succ_self k, installs, turn⟩
      · rw [released, World.suspension?_release, if_neg same] at found
        exact before found

end Run

end LazyGraph

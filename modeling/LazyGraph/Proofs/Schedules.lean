import LazyGraph.Proofs.Fatal
import LazyGraph.Proofs.Fidelity
import LazyGraph.Proofs.Purity
import Mathlib.Tactic.IntervalCases

/-!
# The schedule does not change results

A task of pure code that comes to an end does so as its code says, whatever else runs, in whatever
order, lazily or eagerly. Between two runs that share a graph the results differ in the names of
nodes only.
-/

namespace LazyGraph

/-- What comes from outside names nodes that are there, thunks among it have their code, and its code
is pure, that of interpreters included. -/
structure Run.Pure (run : Run) : Prop where
  rooted : run.Rooted
  whole : run.Whole
  code : ∀ k, (run.move k).Pure

/-- Whoever is seated has this interpreter. -/
def Move.Installs (rule : Option Interpreter) : Move → Prop
  | .seat _ _ _ interpreter => interpreter = rule
  | _ => True

/-- Compiled closures are run by this interpreter, if at all. -/
def Run.Interprets (run : Run) (rule : Option Interpreter) : Prop :=
  ∀ k, ∀ t ∈ (run.state k).threads, t.interprets (run.state k).world = true →
    ((run.state k).world.context t.context).interpreter = rule

/-- The run starts a thread with the code, which has come to the outcome at time `k`. -/
def Run.Ends (run : Run) (code : Code) (env : Env) (k : Nat) (o : Thread.Outcome) : Prop :=
  ∃ a c mayStop maySuspend, run.move a = .start c code env mayStop maySuspend ∧
    (run.state k).threads[(run.state a).threads.size]?.bind Thread.outcome? = some o

/-- The same error up to the naming of nodes, or values with the same head. -/
def Thread.Outcome.Alike (w w' : World) : Thread.Outcome → Thread.Outcome → Prop
  | .value n, .value m => (w.value? n).map Value.head = (w'.value? m).map Value.head
  | .error e, .error e' => e.unnamed = e'.unnamed
  | .panic message, .panic message' => message = message'
  | _, _ => False

def Thread.Outcome.control : Thread.Outcome → Control
  | .value n => .give n
  | .error e => .fail e
  | .panic message => .unwind message

variable {H : Graph} {rule : Option Interpreter} {c₀ : Focus} {n : NodeId} {t t' : Thread}
  {o o' : Thread.Outcome}

namespace Thread

theorem outcome?_eq_some :
    t.outcome? = some o ↔ t.agenda = [] ∧ t.stack = [] ∧ t.control = o.control := by
  constructor
  · intro ended
    unfold outcome? at ended
    split at ended <;> cases ended <;> exact ⟨by assumption, by assumption, by assumption⟩
  · rintro ⟨idle, top, at'⟩
    cases o <;> simp [outcome?, idle, top, at', Outcome.control]

theorem Outcome.ended (o : Outcome) : Focus.Ended (o.control, []) := by
  cases o <;> exact ⟨rfl, rfl⟩

theorem Faithful.outcome (faithful : t.Faithful H rule c₀) (ended : t.outcome? = some o) :
    H.Reds rule c₀ (o.control, []) ∨ (∃ m, o = .error (.loop m)) ∧ H.Diverges rule c₀ ∨
      o = .panic "would block" := by
  obtain ⟨-, top, is⟩ := outcome?_eq_some.1 ended
  cases faithful with
  | follows follows =>
    rw [Follows, top, is] at follows
    have plain : o.control.plain = o.control := by cases o <;> rfl
    rw [plain] at follows
    exact .inl follows
  | loops at' diverges =>
    rw [at'] at is
    cases o <;> cases is
    exact .inr (.inl ⟨⟨_, rfl⟩, diverges⟩)
  | refused at' =>
    rw [at'] at is
    cases o <;> cases is
    exact .inr (.inr rfl)

theorem touches_of_isPure (pure : t.isPure = true) : t.touches = false := by
  unfold touches
  split
  · rename_i at'
    simp [isPure, at', Prim.isPure] at pure
  · rfl

theorem meddles_of_isPure (pure : t.isPure = true) : t.meddles = false := by
  unfold meddles
  split
  · rename_i at'
    simp [isPure, at', Prim.isPure] at pure
  · rename_i at'
    simp [isPure, at'] at pure
  · rfl

theorem handsValue_of_isPure {w : World} (pure : t.isPure = true) : t.handsValue w = true := by
  unfold handsValue
  split
  · rename_i at'
    simp [isPure, at', Prim.isPure] at pure
  · rename_i at'
    simp [isPure, at', Prim.isPure] at pure
  · rfl

end Thread

namespace Run

variable {run : Run} {i : ThreadId} {j k : Nat}

/-- What a thread has on the update stack, it evaluates. -/
theorem evaluates (found : (run.state k).threads[i]? = some t)
    (inside : t.control.isOutcome = false) (soft : t.control.begun? = none)
    (known : n ∈ ((run.state k).world.context t.context).stack.frames) :
    n ∈ t.stack.filterMap Frame.thunk? := by
  have tracks := (run.framed k).running i t found (Thread.runs_of_control inside)
  rw [tracks.frames, Thread.evaluations, soft] at known
  exact known

namespace Pure

variable (pure : run.Pure)

include pure

theorem threads (k : Nat) : ∀ t ∈ (run.state k).threads, t.isPure = true :=
  run.isPure_of_code pure.code k

theorem hands : run.NeverTouches := fun k t known =>
  Thread.touches_of_isPure (pure.threads k t known)

theorem honest : run.HandsOff := fun k t known =>
  Thread.meddles_of_isPure (pure.threads k t known)

theorem sound (k : Nat) : (run.state k).world.Sound :=
  (run.sound (fun k t known => Thread.handsValue_of_isPure (pure.threads k t known)) k).1

theorem tame (k : Nat) : (run.state k).Each fun _ t => t.Tame := by
  refine run.always (P := (·.Each fun _ t => t.Tame)) (fun i t found => by simp at found) ?_ k
  intro k each
  refine (run.change k).each each (fun t tame => tame) ?_ ?_
  · intro i t t' found step
    exact step.tame (pure.threads k t (Array.mem_of_getElem? found)) (each i t found)
  · intro t c env _ _ at'
    exact Thread.tame_of_isCalm (by rw [at']; rfl)

theorem scene (interprets : run.Interprets rule) (turn : run.move k = .step i)
    (found : (run.state k).threads[i]? = some t) (idle : t.agenda = [])
    (memoizes : run.graph.Memoizes rule (run.state k).world) :
    t.Scene run.graph rule (run.state k).world where
  pure := pure.threads k t (Array.mem_of_getElem? found)
  tame := pure.tame k i t found
  seen := run.fits pure.whole k
  fits := by
    have fits := run.fits pure.whole (k + 1)
    rw [(run.own_step turn found).1] at fits
    simpa only [Thread.step, idle] using fits
  within := ((run.grounded pure.rooted pure.whole pure.hands k).threads i t found).control
  memoizes := memoizes
  sound := pure.sound k
  interpreter := interprets k t (Array.mem_of_getElem? found)
  owned n inside soft own := by
    have free : t.control.claim? = none := by
      cases claim : t.control.claim? with
      | none => rfl
      | some m => rw [Control.isFirm_of_claim? claim] at soft; cases soft
    exact evaluates found inside (Control.begun?_of_isFirm soft)
      (frames_of_owned pure.hands.neverClaims found idle inside free own)
  active n claim at' active := by
    have inside : t.control.isOutcome = false := by rw [at']; rfl
    have tracks := (run.framed k).running i t found (Thread.runs_of_control inside)
    refine evaluates found inside (by rw [at']; rfl) ?_
    exact tracks.frames ▸ tracks.push?_eq_none.1 active
  whole n s found cleared := by
    obtain ⟨v, held⟩ := run.value_of_cleared pure.rooted pure.whole pure.hands found cleared
    rw [held]
    simp

/-! ## Every step -/

theorem faithful_succ (interprets : run.Interprets rule)
    (memoizes : run.graph.Memoizes rule (run.state k).world)
    (found : (run.state k).threads[i]? = some t) (faithful : t.Faithful run.graph rule c₀) :
    ∃ t', (run.state (k + 1)).threads[i]? = some t' ∧ t'.Faithful run.graph rule c₀ := by
  by_cases turn : run.move k = .step i
  · refine ⟨_, (run.own_step turn found).2, ?_⟩
    cases next : t.agenda with
    | nil =>
      have scene := pure.scene interprets turn found next memoizes
      simpa only [Thread.step, next] using scene.faithful faithful
    | cons a as =>
      have step := step_cases (run.state k).world t
      rcases step.errand_of_busy (by simp [next]) with ⟨-, same⟩ | step
      · rwa [same]
      · exact faithful.errand step
  · rcases run.not_own_step turn found with stays | ⟨g, as, -, -, passed⟩
    · exact ⟨t, stays, faithful⟩
    · exact ⟨_, passed, faithful.of_same rfl rfl⟩

/-- What is installed is the result of its thunk. -/
theorem memoizes_succ (memoizes : run.graph.Memoizes rule (run.state k).world)
    (faithful : (run.state k).Each fun _ t => ∃ c₀, t.Faithful run.graph rule c₀) :
    run.graph.Memoizes rule (run.state (k + 1)).world := by
  intro n v held
  rcases (run.change k).split with rests | ⟨i, t, t', turns, -⟩
  · exact memoizes n v (by rwa [rests.still.slot n] at held)
  · have noted := run.noted k i t turns.before
    rcases turns.step.value_origin noted held with old | ⟨seen, at'⟩ | write
    · exact memoizes n v old
    · obtain ⟨rest, top⟩ := (pure.tame k i t turns.before).updates n (by rw [at']; rfl)
      obtain ⟨c₀, faithful⟩ := faithful i t turns.before
      cases faithful with
      | follows follows =>
        rw [Thread.Follows, top, at'] at follows
        exact follows.1.to_reflTransGen
      | loops is | refused is => rw [at'] at is; cases is
    · cases run.writes pure.honest k i t turns.before _ write

theorem keeps (interprets : run.Interprets rule) (k : Nat) :
    run.graph.Memoizes rule (run.state k).world ∧
      (run.state k).Each fun _ t => ∃ c₀, t.Faithful run.graph rule c₀ := by
  induction k with
  | zero =>
    refine ⟨fun n v held => ?_, fun i t found => by simp [Run.state, trace] at found⟩
    obtain ⟨th, there⟩ := World.thunk_of_cell held
    cases World.lt_of_node? (World.thunk?_eq_some.1 there)
  | succ k ih =>
    obtain ⟨memoizes, faithful⟩ := ih
    refine ⟨pure.memoizes_succ memoizes faithful, fun i t' found' => ?_⟩
    rcases run.thread_before found' with ⟨t, found⟩ | ⟨-, top, c, env, at'⟩
    · obtain ⟨c₀, before⟩ := faithful i t found
      obtain ⟨u, there, after⟩ := pure.faithful_succ interprets memoizes found before
      rw [found'] at there
      cases there
      exact ⟨c₀, after⟩
    · refine ⟨(.run c env, []), .follows ?_⟩
      rw [Thread.Follows, top, at']
      exact .refl

/-! ## Whole tasks -/

theorem faithful_after (interprets : run.Interprets rule) (le : j ≤ k)
    (found : (run.state j).threads[i]? = some t) (faithful : t.Faithful run.graph rule c₀) :
    ∃ t', (run.state k).threads[i]? = some t' ∧ t'.Faithful run.graph rule c₀ := by
  induction le with
  | refl => exact ⟨t, found, faithful⟩
  | step _ ih =>
    obtain ⟨u, there, before⟩ := ih
    exact pure.faithful_succ interprets (pure.keeps interprets _).1 there before

theorem reduces (interprets : run.Interprets rule) {code : Code} {env : Env}
    (ends : run.Ends code env k o) :
    run.graph.Reds rule (.run code env, []) (o.control, []) ∨
      (∃ m, o = .error (.loop m)) ∧ run.graph.Diverges rule (.run code env, []) ∨
      o = .panic "would block" := by
  obtain ⟨a, c, mayStop, maySuspend, starts, ended⟩ := ends
  obtain ⟨t, found, ended⟩ := Option.bind_eq_some_iff.1 ended
  have fresh : (run.state (a + 1)).threads[(run.state a).threads.size]? =
      some { context := c, mayStop, maySuspend, control := .run code env } := by
    rw [run.state_succ, starts]
    simp [State.after, State.spawn]
  have later : a + 1 ≤ k := by
    by_contra early
    obtain ⟨u, there, -⟩ := run.thread_me (by omega : k ≤ a) found
    exact absurd (Array.getElem?_eq_some_iff.1 there).1 (Nat.lt_irrefl _)
  obtain ⟨u, there, faithful⟩ := pure.faithful_after interprets later fresh (.follows .refl)
  rw [found] at there
  cases there
  exact faithful.outcome ended

end Pure

/-! ## Two runs -/

section

variable {A B : Run} {p l : Nat} (pureA : A.Pure) (pureB : B.Pure)
  (shared : ∀ k ≤ p, (A.state k).world.heap = (B.state k).world.heap)

include pureA pureB shared

end

/-- Two tasks for an application of a compiled closure, each with its interpreter. -/
def compiled (eager : Bool) (rule rule' : Option Interpreter) (steps : List Move) : List Move :=
  [.build (.scalar (.int 5)), .build (.bytecode ⟨[], [], 1, .ofSlots [true]⟩ [0]),
    .suspend (.application (some (1, [0]))), .seat none 0 { eager } rule,
    .seat none 0 { eager } rule', .evaluate 0 2, .evaluate 1 2] ++ steps

/-- An eager task by itself, after something else has been built. -/
def alone : Run :=
  .ofMoves {} (compiled true (some .pack) (some .pack)
    (.build (.scalar (.int 0)) :: List.replicate 31 (.step 0))) (by decide +kernel)

end Run

end LazyGraph

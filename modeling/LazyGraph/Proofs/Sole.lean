import LazyGraph.Proofs.Lifecycle
import LazyGraph.Proofs.Ownership

/-!
# A context for one thread only

A thread that is the only one on its context, and whose host leaves the slots of thunks to the
evaluator, answers for all that its task owns, whatever other threads do. Once it has ended, its task
owns nothing.
-/

namespace LazyGraph

/-! ## States of runs -/

def State.Reached (s : State) : Prop :=
  ∃ (run : Run) (k : Nat), run.state k = s

theorem State.Reached.start (log : Log) : State.Reached { world := { log } } :=
  ⟨{ log, move := fun _ => .rest, admitted := fun _ => rfl }, 0, rfl⟩

theorem trace_congr {log : Log} {move move' : Nat → Move} {k : Nat}
    (same : ∀ j < k, move j = move' j) : trace log move k = trace log move' k := by
  induction k with
  | zero => rfl
  | succ k ih =>
    rw [trace, trace, ih fun j lt => same j (Nat.lt_succ_of_lt lt), same k (Nat.lt_succ_self k)]

/-- The run makes move `m` at time `k`, and no move after that. -/
def Run.continued (run : Run) (k : Nat) (m : Move) (admitted : (run.state k).admits m = true) :
    Run where
  log := run.log
  move j := if j < k then run.move j else if j = k then m else .rest
  admitted j := by
    have before : ∀ l ≤ k, trace run.log
        (fun j => if j < k then run.move j else if j = k then m else .rest) l = run.state l :=
      fun l le => trace_congr fun j lt => if_pos (Nat.lt_of_lt_of_le lt le)
    rcases Nat.lt_trichotomy j k with lt | rfl | gt
    · rw [before j (Nat.le_of_lt lt), if_pos lt]
      exact run.admitted j
    · rw [before j (Nat.le_refl j), if_neg (Nat.lt_irrefl j), if_pos rfl]
      exact admitted
    · rw [if_neg (Nat.lt_asymm gt), if_neg (Nat.ne_of_gt gt)]
      rfl

theorem Run.continued_move {run : Run} {k : Nat} {m : Move}
    (admitted : (run.state k).admits m = true) : (run.continued k m admitted).move k = m := by
  simp [Run.continued]

theorem Run.continued_before {run : Run} {k : Nat} {m : Move}
    (admitted : (run.state k).admits m = true) :
    (run.continued k m admitted).state k = run.state k :=
  trace_congr fun _ lt => if_pos lt

theorem Run.continued_after {run : Run} {k : Nat} {m : Move}
    (admitted : (run.state k).admits m = true) :
    (run.continued k m admitted).state (k + 1) = (run.state k).after m := by
  rw [Run.state_succ, continued_before, continued_move]

theorem State.Reached.next {s : State} {m : Move} (reached : s.Reached)
    (admitted : s.admits m = true) :
    ∃ (run : Run) (k : Nat), run.state k = s ∧ run.move k = m ∧ run.state (k + 1) = s.after m := by
  obtain ⟨run, k, rfl⟩ := reached
  exact ⟨run.continued k m admitted, k, Run.continued_before admitted, Run.continued_move admitted,
    Run.continued_after admitted⟩

theorem State.Reached.after {s : State} {m : Move} (reached : s.Reached)
    (admitted : s.admits m = true) : (s.after m).Reached := by
  obtain ⟨run, k, -, -, after⟩ := reached.next admitted
  exact ⟨run, k + 1, after⟩

/-! ## One thread on a context -/

/-- The move starts no code on context `c`. -/
def Move.spares (c : ContextId) : Move → Bool
  | .start d _ _ _ _ => d != c
  | _ => true

/-- Thread `i` is the only one on context `c`, whose task is `u`. -/
structure State.Sole (s : State) (c : ContextId) (i : ThreadId) (u : TaskId) : Prop where
  seated : c < s.world.contexts.size
  task : s.world.taskOf c = u
  thread : ∃ t, s.threads[i]? = some t ∧ t.context = c
  alone : ∀ (j : ThreadId) t, s.threads[j]? = some t → t.context = c → j = i

variable {s s' : State} {m : Move} {c : ContextId} {i : ThreadId} {u o : TaskId} {t : Thread}
  {w : World} {n : NodeId}

theorem Change.seat_kept (change : Change s m s') (bound : c < s.world.contexts.size) :
    c < s'.world.contexts.size ∧ s'.world.taskOf c = s.world.taskOf c := by
  have kept : ∀ {w : World}, s.world.Keeps w →
      c < w.contexts.size ∧ w.taskOf c = s.world.taskOf c :=
    fun keeps => ⟨keeps.contexts ▸ bound, keeps.taskOf c⟩
  cases change with
  | step _ step => exact kept step.keeps
  | quiet quiet => exact kept quiet.keeps
  | wake => exact kept (World.keeps_setTask _ _)
  | start => exact ⟨bound, rfl⟩
  | seat =>
    refine ⟨?_, ?_⟩
    · simp only [World.addContext, World.addTask, Array.size_push]
      exact Nat.lt_succ_of_lt bound
    · simp [World.taskOf, World.context, World.addContext, World.addTask, Array.getElem?_push,
        Nat.ne_of_lt bound]

/-- What has ended stays as it is. -/
theorem Change.ended (change : Change s m s') (found : s.threads[i]? = some t)
    (ended : t.outcome?.isSome) : s'.threads[i]? = some t := by
  obtain ⟨t', there, rfl | step⟩ := change.thread found
  · exact there
  · obtain ⟨-, rfl⟩ := step.ended (by simpa [Thread.Runs, ← Option.isSome_iff_ne_none] using ended)
    exact there

theorem State.Sole.change (sole : s.Sole c i u) (change : Change s m s')
    (spares : m.spares c = true) : s'.Sole c i u := by
  obtain ⟨bound, task⟩ := change.seat_kept sole.seated
  obtain ⟨t, found, at'⟩ := sole.thread
  obtain ⟨t', there, same⟩ := change.thread found
  refine ⟨bound, task.trans sole.task, ⟨t', there, ?_⟩, ?_⟩
  · rcases same with rfl | step
    · exact at'
    · exact step.context.trans at'
  · intro j v found' is
    cases change with
    | step before step =>
      rcases getElem?_setIfInBounds_some found' with ⟨rfl, rfl⟩ | ⟨-, old⟩
      · exact sole.alone _ _ before (step.context ▸ is)
      · exact sole.alone j v old is
    | quiet | wake | seat => exact sole.alone j v found' is
    | start _ _ _ _ _ moved =>
      rcases getElem?_push_some found' with ⟨-, rfl⟩ | old
      · obtain ⟨code, env, mayStop, maySuspend, rfl⟩ := moved
        simp [Move.spares, is] at spares
      · exact sole.alone j v old is

/-! ## What its task owns -/

/-- Thread `i` answers for whatever task `u` owns. -/
structure State.Honours (s : State) (i : ThreadId) (u : TaskId) : Prop where
  modest : ∀ t, s.threads[i]? = some t → t.control.Modest
  answers : ∀ n, (s.world.slot n).ownedBy u = true →
    ∃ t, s.threads[i]? = some t ∧ t.Answers n

theorem Transition.owner_origin {old new : Option Cell} (transition : Transition w t n old new)
    (owned : new.bind Cell.owner? = some o) :
    old.bind Cell.owner? = some o ∨ o = t.me w := by
  cases transition with
  | enter | claim =>
    cases owned
    exact .inr rfl
  | lock | publish => exact .inl owned
  | tryLock | unlock | abandon | update => cases owned
  | @overwrite v => cases v <;> cases owned

namespace Run

variable {run : Run} {k : Nat}

theorem owner_arises {s' : State} {j : ThreadId} {t' : Thread}
    (turns : Turns (run.state k) s' j t t') (owned : (s'.world.slot n).ownedBy o = true) :
    ((run.state k).world.slot n).ownedBy o = true ∨ o = t.me (run.state k).world := by
  have before := turns.before
  rcases turns.step.transition (run.noted k j t before) (run.entitled k j t before)
    (fun o => (run.guarded k).foreign j t o before) n with same | transition
  · exact .inl (same ▸ owned)
  · rcases transition.owner_origin (by simpa [Slot.ownedBy] using owned) with old | mine
    · exact .inl (by simpa [Slot.ownedBy] using old)
    · exact .inr mine

/-- Owners have a seat. -/
theorem owner_seated (run : Run) (k : Nat) : ∀ n o,
    ((run.state k).world.slot n).ownedBy o = true →
      ∃ c < (run.state k).world.contexts.size, (run.state k).world.taskOf c = o := by
  induction k with
  | zero =>
    intro n o owned
    simp [Run.state, trace, World.slot, World.thunk?, World.node?, Slot.ownedBy] at owned
  | succ k ih =>
    intro n o owned
    obtain ⟨c, bound, task⟩ : ∃ c < (run.state k).world.contexts.size,
        (run.state k).world.taskOf c = o := by
      rcases (run.change k).split with rests | ⟨i, t, t', turns, -⟩
      · exact ih n o (rests.still.slot n ▸ owned)
      · rcases owner_arises turns owned with old | rfl
        · exact ih n o old
        · exact ⟨t.context, (run.seats k).seated i t turns.before, rfl⟩
    obtain ⟨bound', task'⟩ := (run.change k).seat_kept bound
    exact ⟨c, bound', task'.trans task⟩

theorem honours_next (sole : (run.state k).Sole c i u) (honours : (run.state k).Honours i u)
    (unclaimed : ∀ t, (run.state k).threads[i]? = some t → t.claims = false) :
    (run.state (k + 1)).Honours i u := by
  obtain ⟨t₀, found₀, at'⟩ := sole.thread
  have mine : t₀.me (run.state k).world = u := by rw [Thread.me, at', sole.task]
  rcases (run.change k).split with rests | ⟨j, t, t', turns, -⟩
  · have stays := rests.stays i t₀ found₀
    refine ⟨fun t found => ?_, fun n owned => ?_⟩
    · rw [stays] at found
      cases found
      exact honours.modest _ found₀
    · rw [rests.still.slot] at owned
      obtain ⟨t, found, answers⟩ := honours.answers n owned
      exact ⟨t, rests.stays i t found, answers⟩
  · have noted := run.noted k j t turns.before
    by_cases same : j = i
    · subst same
      obtain rfl : t = t₀ := Option.some.inj (turns.before.symm.trans found₀)
      have modest := honours.modest t found₀
      refine ⟨fun v found => ?_, fun n owned => ⟨t', turns.after, ?_⟩⟩
      · rw [turns.after] at found
        cases found
        exact turns.step.modest (unclaimed t found₀) modest
      · rcases turns.step.owned_origin noted modest owned with old | ⟨-, answers⟩
        · obtain ⟨v, found, answers⟩ := honours.answers n old
          rw [found₀] at found
          cases found
          rcases turns.step.answers ((run.framed k).steady j t found₀) answers with stays | lost
          · exact stays
          · rw [mine, owned] at lost
            cases lost
        · exact answers
    · have stays := turns.stays i t₀ (Ne.symm same) found₀
      refine ⟨fun v found => ?_, fun n owned => ?_⟩
      · rw [stays] at found
        cases found
        exact honours.modest _ found₀
      · rcases owner_arises turns owned with old | other
        · obtain ⟨v, found, answers⟩ := honours.answers n old
          exact ⟨v, turns.stays i v (Ne.symm same) found, answers⟩
        · have seats := run.seats k
          have here : t.context = c := seats.distinct _ _ (seats.seated j t turns.before)
            sole.seated (other.symm.trans sole.task.symm)
          exact absurd (sole.alone j t turns.before here) same

end Run

theorem State.Reached.honours (reached : s.Reached) (admitted : s.admits m = true)
    (sole : s.Sole c i u) (honours : s.Honours i u)
    (unclaimed : ∀ t, s.threads[i]? = some t → t.claims = false) : (s.after m).Honours i u := by
  obtain ⟨run, k, rfl, -, after⟩ := reached.next admitted
  rw [← after]
  exact run.honours_next sole honours unclaimed

theorem State.Honours.disowned (honours : s.Honours i u) (found : s.threads[i]? = some t)
    (ended : t.outcome?.isSome) : (s.world.slot n).ownedBy u = false := by
  rw [Bool.eq_false_iff]
  intro owned
  obtain ⟨v, there, answers⟩ := honours.answers n owned
  rw [found] at there
  cases there
  rw [show t.outcome? = none from answers.runs] at ended
  cases ended

/-! ## A new context with a thread -/

/-- A new task gets a context of its own, and code is started there. -/
def State.hire (s : State) (capability : CapabilityId) (config : Config)
    (interpreter : Option Interpreter) (mayStop : Bool) (code : Code) (env : Env) : State :=
  (s.after (.seat none capability config interpreter)).after
    (.start s.world.contexts.size code env mayStop true)

namespace State

variable {capability : CapabilityId} {config : Config} {interpreter : Option Interpreter}
  {mayStop : Bool} {code : Code} {env : Env}

theorem hire_context : (s.hire capability config interpreter mayStop code env).world.contexts =
    s.world.contexts.push { task := s.world.tasks.size, capability, config, interpreter } :=
  rfl

theorem hire_threads : (s.hire capability config interpreter mayStop code env).threads =
    s.threads.push
      { context := s.world.contexts.size, mayStop, control := .run code env } :=
  rfl

theorem Seats.admits_hired (seats : s.Seats) :
    (s.after (.seat none capability config interpreter)).admits
      (.start s.world.contexts.size code env mayStop true) = true := by
  have free : s.threads.all (fun t => t.context != s.world.contexts.size || t.outcome?.isSome) =
      true := by
    rw [Array.all_eq_true']
    intro t known
    obtain ⟨i, found⟩ := Array.mem_iff_getElem?.1 known
    have bound := seats.seated i t found
    simp [Nat.ne_of_lt bound]
  simp [admits, State.after, World.addContext, World.addTask, free]

theorem Reached.seats (reached : s.Reached) : s.Seats := by
  obtain ⟨run, k, rfl⟩ := reached
  exact run.seats k

theorem Reached.hire (reached : s.Reached) :
    (s.hire capability config interpreter mayStop code env).Reached :=
  (reached.after (m := .seat none capability config interpreter) rfl).after
    reached.seats.admits_hired

theorem Reached.sole_hired (reached : s.Reached) :
    (s.hire capability config interpreter mayStop code env).Sole s.world.contexts.size
      s.threads.size s.world.tasks.size := by
  refine ⟨by simp [hire_context], by simp [World.taskOf, World.context, hire_context],
    ⟨_, by rw [hire_threads, Array.getElem?_push_size], rfl⟩, fun j t found at' => ?_⟩
  rw [hire_threads] at found
  rcases getElem?_push_some found with ⟨rfl, -⟩ | old
  · rfl
  · exact absurd at' (Nat.ne_of_lt (reached.seats.seated j t old))

theorem Reached.honours_hired (reached : s.Reached) :
    (s.hire capability config interpreter mayStop code env).Honours s.threads.size
      s.world.tasks.size := by
  refine ⟨fun t found => ?_, fun n owned => ?_⟩
  · rw [hire_threads, Array.getElem?_push_size] at found
    cases found
    trivial
  · have before : (s.world.slot n).ownedBy s.world.tasks.size = true := owned
    have seats := reached.seats
    obtain ⟨run, k, rfl⟩ := reached
    obtain ⟨c, bound, task⟩ := run.owner_seated k n _ before
    exact absurd task (Nat.ne_of_lt (seats.tasks c bound))

end State

end LazyGraph

import LazyGraph.Proofs.Advance

/-!
# Both modes agree for one task

Whether thunks are taken before they are run cannot be told from what a task alone on its graph
computes, loops and failed evaluations included.
-/

namespace LazyGraph

def World.inMode (w : World) (c : ContextId) (eager : Bool) : World :=
  w.setContext c { w.context c with config := { (w.context c).config with eager } }

structure Turn.Ends (x y : Turn) : Prop where
  reached : ∃ k, Turn.next^[k] x = y
  ended : y.2.outcome?.isSome

/-- The worlds differ in logs, modes and stamps at most. -/
structure World.Agrees (w w' : World) : Prop where
  size : w.heap.size = w'.heap.size
  values : ∀ n, w.value? n = w'.value? n
  cells : ∀ n, (w.slot n).cell = (w'.slot n).cell
  suspensions : ∀ n, (w.thunk? n).map Thunk.suspension = (w'.thunk? n).map Thunk.suspension
  updates : ∀ c, (w.context c).stack = (w'.context c).stack
  registers : ∀ c, (w.context c).registers = (w'.context c).registers
  counters : w.counters = w'.counters
  registries : w.registries = w'.registries
  names : w.names = w'.names
  tasks : w.tasks = w'.tasks
  queues : w.queues = w'.queues
  maps : w.maps = w'.maps

/-- Whenever `x` comes to an end, so does `y`, and to the same end. -/
def Turn.Mirrors (x y : Turn) : Prop :=
  ∀ x', x.Ends x' → ∃ y', y.Ends y' ∧ y'.2.outcome? = x'.2.outcome? ∧ x'.1.Agrees y'.1

variable {w w' : World} {t : Thread} {x y x' y' : Turn} {n : NodeId}

/-! ## Whole runs -/

/-- What a single thread does is `Turn.next`, time after time. -/
theorem State.follow_alone (x : Turn) (k : Nat) :
    (⟨x.1, #[x.2]⟩ : State).follow (List.replicate k 0) =
      ⟨(Turn.next^[k] x).1, #[(Turn.next^[k] x).2]⟩ := by
  induction k generalizing x with
  | zero => rfl
  | succ k ih =>
    rw [Function.iterate_succ_apply]
    exact ih x.next

theorem Thread.isTame_unclaimed : t.unclaimed.isTame = t.isTame := by
  unfold isTame
  rw [show t.unclaimed.control = t.control.unclaimed from rfl]
  cases t.control <;> rfl

theorem Thread.outcome?_unclaimed : t.unclaimed.outcome? = t.outcome? := by
  obtain ⟨context, mayStop, maySuspend, agenda, control, stack⟩ := t
  cases agenda with
  | cons a as => rfl
  | nil =>
    cases stack with
    | cons f fs => rfl
    | nil => cases control <;> rfl

theorem Thread.ended_cases (ended : t.outcome?.isSome) :
    t.agenda = [] ∧ t.stack = [] ∧
      ((∃ n, t.control = .give n) ∨ (∃ e, t.control = .fail e) ∨ ∃ m, t.control = .unwind m) := by
  unfold outcome? at ended
  split at ended <;> simp_all

theorem Turn.next_of_ended (ended : x.2.outcome?.isSome) : x.next = x := by
  obtain ⟨w, context, mayStop, maySuspend, agenda, control, stack⟩ := x
  obtain ⟨idle, unframed, at'⟩ := Thread.ended_cases ended
  cases idle
  cases unframed
  rcases at' with ⟨n, at'⟩ | ⟨e, at'⟩ | ⟨m, at'⟩ <;> cases at' <;> rfl

theorem Turn.iterate_of_ended {k n : Nat} (ended : (Turn.next^[n] x).2.outcome?.isSome)
    (late : n ≤ k) : Turn.next^[k] x = Turn.next^[n] x :=
  Turn.iterate_of_fixed (Turn.next_of_ended ended) late

theorem Turn.tame_of_ended {n : Nat} (ended : (Turn.next^[n] x).2.outcome?.isSome)
    (tame : ∀ k < n, (Turn.next^[k] x).2.isTame) (k : Nat) : (Turn.next^[k] x).2.isTame := by
  rcases Nat.lt_or_ge k n with before | late
  · exact tame k before
  · rw [Turn.iterate_of_ended ended late]
    obtain ⟨-, -, at'⟩ := Thread.ended_cases ended
    unfold Thread.isTame
    rcases at' with ⟨n, at'⟩ | ⟨e, at'⟩ | ⟨m, at'⟩ <;> rw [at']

/-- The steps of a run, some of them taken together, are those of an evaluation without claims. -/
theorem Turn.Good.follows (good : x.Good) (tame : ∀ k j,
    Turn.unclaimed (Turn.next^[k] x) = Turn.advance^[j] (Turn.unclaimed x) →
      (Turn.next^[k] x).2.isTame) (j : Nat) :
    ∃ k, j ≤ k ∧ (Turn.next^[k] x).Good ∧
      Turn.unclaimed (Turn.next^[k] x) = Turn.advance^[j] (Turn.unclaimed x) := by
  induction j with
  | zero => exact ⟨0, Nat.le_refl 0, good, rfl⟩
  | succ j ih =>
    obtain ⟨k, enough, here, seen⟩ := ih
    obtain ⟨i, there, comes⟩ := here.advances (tame k j seen)
    rw [← Function.iterate_add_apply] at there comes
    refine ⟨i + 1 + k, by omega, there, ?_⟩
    rw [comes, seen, Function.iterate_succ_apply']

theorem Turn.outcome_of_unclaimed (same : Turn.unclaimed x = Turn.unclaimed y) :
    x.2.outcome? = y.2.outcome? := by
  rw [← Thread.outcome?_unclaimed, show x.2.unclaimed = y.2.unclaimed from congrArg Prod.snd same,
    Thread.outcome?_unclaimed]

theorem Turn.Good.mirrored (good : x.Good) (good' : y.Good)
    (same : Turn.unclaimed x = Turn.unclaimed y)
    (tame : ∀ j, (Turn.advance^[j] (Turn.unclaimed x)).2.isTame) (ends : x.Ends x') :
    ∃ y', y.Ends y' ∧ x'.Good ∧ y'.Good ∧ Turn.unclaimed y' = Turn.unclaimed x' := by
  have tame' : ∀ {z : Turn} {j}, Turn.unclaimed z = Turn.advance^[j] (Turn.unclaimed x) →
      z.2.isTame := fun {z j} seen => by
    rw [← Thread.isTame_unclaimed, ← show (Turn.unclaimed z).2 = z.2.unclaimed from rfl, seen]
    exact tame j
  obtain ⟨⟨n, reached⟩, ended⟩ := ends
  obtain ⟨k, enough, here, seen⟩ := good.follows (fun k j => tame') n
  obtain ⟨i, -, there, seen'⟩ := good'.follows (fun k j seen => tame' (same ▸ seen)) n
  have stays : Turn.next^[k] x = x' := by
    rw [Turn.iterate_of_ended (reached ▸ ended) enough, reached]
  have view : Turn.unclaimed (Turn.next^[i] y) = Turn.unclaimed x' := by
    rw [seen', ← same, ← seen, stays]
  refine ⟨_, ⟨⟨i, rfl⟩, ?_⟩, stays ▸ here, there, view⟩
  rw [Turn.outcome_of_unclaimed view]
  exact ended

/-! ## Ends -/

theorem Turn.Good.untaken_of_ended (good : x.Good) (ended : x.2.outcome?.isSome) (n : NodeId) :
    (x.1.slot n).Untaken := by
  obtain ⟨idle, unframed, at'⟩ := Thread.ended_cases ended
  refine good.lone.untaken (Bool.eq_false_iff.2 fun owned => ?_)
  have free : x.2.control.claim? = none := by
    rcases at' with ⟨n, at'⟩ | ⟨e, at'⟩ | ⟨m, at'⟩ <;> simp [at', Control.claim?]
  have known := good.lone.active idle free owned
  rw [unframed] at known
  cases known

theorem World.agrees_of_unclaimed (same : w.unclaimed = w'.unclaimed)
    (untaken : ∀ n, (w.slot n).Untaken) (untaken' : ∀ n, (w'.slot n).Untaken) :
    w.Agrees w' where
  size := by simpa [unclaimed] using congrArg (·.heap.size) same
  values n := by rw [← value?_unclaimed, same, value?_unclaimed]
  cells n := by
    rw [← Slot.cell_unclaimed (untaken n), ← slot_unclaimed, same, slot_unclaimed,
      Slot.cell_unclaimed (untaken' n)]
  suspensions n := by
    have suspension : ∀ w : World, (w.unclaimed.thunk? n).map Thunk.suspension =
        (w.thunk? n).map Thunk.suspension := by
      intro w
      rw [thunk?_unclaimed]
      cases w.thunk? n <;> rfl
    rw [← suspension, same, suspension]
  updates c := by
    have seen := congrArg (fun w => (w.context c).stack) same
    simpa using seen
  registers c := by
    have seen := congrArg (fun w => (w.context c).registers) same
    simpa using seen
  counters := congrArg (·.counters) same
  registries := congrArg (·.registries) same
  names := congrArg (·.names) same
  tasks := congrArg (·.tasks) same
  queues := congrArg (·.queues) same
  maps := congrArg (·.maps) same

theorem Turn.Good.mirrors (good : x.Good) (good' : y.Good)
    (same : Turn.unclaimed x = Turn.unclaimed y)
    (tame : ∀ j, (Turn.advance^[j] (Turn.unclaimed x)).2.isTame) : x.Mirrors y := by
  intro x' ends
  obtain ⟨y', ends', here, there, view⟩ := good.mirrored good' same tame ends
  refine ⟨y', ends', Turn.outcome_of_unclaimed view, ?_⟩
  exact World.agrees_of_unclaimed (congrArg Prod.fst view.symm)
    (here.untaken_of_ended ends.ended) (there.untaken_of_ended ends'.ended)

/-! ## Starts -/

theorem World.unclaimed_inMode (w : World) (c : ContextId) (a b : Bool) :
    (w.inMode c a).unclaimed = (w.inMode c b).unclaimed := by
  simp [inMode, Context.unclaimed]

theorem good_of_fresh (a : Bool) (fresh : t.Fresh) (seated : t.context < w.contexts.size)
    (empty : (w.context t.context).stack.Tracks [])
    (untaken : ∀ n, (w.slot n).Untaken) : Turn.Good (w.inMode t.context a, t) := by
  obtain ⟨idle, unframed, code, env, at'⟩ := fresh
  have slot : ∀ n, (w.inMode t.context a).slot n = w.slot n := fun n => rfl
  have stack : ((w.inMode t.context a).context t.context).stack =
      (w.context t.context).stack := by
    rw [World.inMode, World.context_setContext, if_pos ⟨rfl, seated⟩]
  have tracks : t.evaluations = [] := by simp [Thread.evaluations, at', unframed, Control.begun?]
  refine ⟨⟨?_, ?_, ?_, ?_, ?_, ?_, ?_⟩, settled_of_idle (by rw [at']; rfl) idle⟩
  · simpa [World.inMode, World.setContext] using seated
  · simp [Thread.Steady, idle]
  · exact ⟨by rw [at']; trivial, by simp [idle]⟩
  · rw [stack, tracks]
    exact empty
  · rw [at']
    rfl
  · intro n c held
    exact .inr (untaken n c held)
  · intro n owned
    rw [slot, (untaken n).unowned] at owned
    cases owned

/-- **Modes.** A task alone on a graph without claims computes the same in either mode: it comes to
an end in both or in neither, with the same outcome and the same graph. -/
theorem modes_agree (w : World) (t : Thread) (a b : Bool) (fresh : t.Fresh)
    (seated : t.context < w.contexts.size) (empty : (w.context t.context).stack.Tracks [])
    (untaken : ∀ n, (w.slot n).Untaken)
    (tame : ∀ k, (Turn.next^[k] (w.inMode t.context a, t)).2.isTame) :
    Turn.Mirrors (w.inMode t.context a, t) (w.inMode t.context b, t) ∧
      Turn.Mirrors (w.inMode t.context b, t) (w.inMode t.context a, t) := by
  have good := good_of_fresh a fresh seated empty untaken
  have good' := good_of_fresh b fresh seated empty untaken
  have same : Turn.unclaimed (w.inMode t.context a, t) = Turn.unclaimed (w.inMode t.context b, t) :=
    congrArg (·, t.unclaimed) (w.unclaimed_inMode t.context a b)
  have tame' : ∀ j, (Turn.advance^[j] (Turn.unclaimed (w.inMode t.context a, t))).2.isTame := by
    intro j
    obtain ⟨k, -, -, seen⟩ := good.follows (fun k _ _ => tame k) j
    rw [← seen]
    exact Thread.isTame_unclaimed.trans (tame k)
  exact ⟨good.mirrors good' same tame', good'.mirrors good same.symm (same ▸ tame')⟩

/-- A thunk that needs itself, and catches the error. -/
def caught : World :=
  (([.suspend (.updatable (some (.recover (.prim .evaluate [.named "t"]) (.prim .depth []), {}))),
    .bind "t" 0, .sit false] : List Move).foldl State.after {}).world

def asks : Thread :=
  { context := 0, control := .run (.prim .evaluate [.named "t"]) {} }

theorem modes_agree_caught :
    asks.Fresh ∧ asks.context < caught.contexts.size ∧
      (caught.context asks.context).stack.Tracks [] ∧
      (∀ n, (caught.slot n).Untaken) ∧
      (∀ k, (Turn.next^[k] (caught.inMode asks.context true, asks)).2.isTame) ∧
      ∃ y, Turn.Ends (caught.inMode asks.context false, asks) y ∧
        y.2.outcome? = some (.value 1) := by
  have fresh : asks.Fresh := ⟨rfl, rfl, _, _, rfl⟩
  have seated : asks.context < caught.contexts.size := by decide +kernel
  have empty : (caught.context asks.context).stack.Tracks [] := UpdateStack.tracks_empty
  have untaken : ∀ n, (caught.slot n).Untaken := by
    rintro (_ | n) c held <;> cases held
  have outcome : (Turn.next^[40] (caught.inMode asks.context true, asks)).2.outcome? =
      some (.value 1) := by
    decide +kernel
  have ended : (Turn.next^[40] (caught.inMode asks.context true, asks)).2.outcome?.isSome := by
    rw [outcome]
    rfl
  have tame := Turn.tame_of_ended ended (by decide +kernel)
  obtain ⟨y, ends, same, -⟩ :=
    (modes_agree caught asks true false fresh seated empty untaken tame).1 _ ⟨⟨40, rfl⟩, ended⟩
  exact ⟨fresh, seated, empty, untaken, tame, y, ends, same.trans outcome⟩

end LazyGraph

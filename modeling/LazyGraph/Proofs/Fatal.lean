import LazyGraph.Proofs.Unwinding

/-!
# Fatal errors have a reason

No step of host code ends in a fatal error or enters a node that it did not find to be a thunk. So a
fatal error comes from the evaluator, and the only one that it comes to is a loop: the thunk is on the
update stack already.
-/

namespace LazyGraph

/-- Host code enters a node without looking at it. -/
def Thread.entersBare (t : Thread) : Bool :=
  match t.control with
  | .perform .enter _ _ => true
  | _ => false

def Run.NeverEnters (run : Run) : Prop :=
  ∀ k, ∀ t ∈ (run.state k).threads, t.entersBare = false

/-- Neither an entry, nor a fatal error, nor a constant to be recorded. -/
def Control.isSober : Control → Bool
  | .enter _ | .register _ _ => false
  | .fail e => !e.isFatal
  | _ => true

theorem Control.isSober_applyStored (f : NodeId) (args : List NodeId) :
    (applyStored f args).isSober = true := by
  rw [applyStored_eq]
  cases args <;> rfl

variable {w w' : World} {t t' : Thread} {n : NodeId}

/-! ## Host code -/

namespace Thread

theorem sober_giveField {field : Except GraphError Field}
    (known : ∀ e, field = .error e → e.isFatal = false) :
    (t.giveField w field).2.control.isSober = true := by
  unfold giveField
  split
  · rfl
  · rfl
  · rename_i e
    simp [goto, Control.isSober, known e rfl]

theorem isFatal_of_fieldOf {kind : FieldKind} {fields : List Field} {index : Nat} {e : GraphError}
    (known : fieldOf kind fields index = .error e) : e.isFatal = false := by
  unfold fieldOf fieldAt at known
  split at known
  · rename_i failed
    split at failed <;> cases failed
    cases known
    rfl
  · split at known <;> cases known
    rfl

theorem sober_withArgs (env : Env) (f : List Arg → Value) :
    (t.withArgs w env f).2.control.isSober = true := by
  unfold withArgs
  split <;> rfl

theorem sober_readRegister (kind : FieldKind) :
    (t.readRegister w kind).2.control.isSober = true := by
  unfold readRegister
  dsimp only
  split <;> rfl

theorem sober_onThunk (op : ThunkOp) (v : Option NodeId) :
    (t.onThunk w op n v).2.control.isSober = true := by
  unfold onThunk
  split
  · rfl
  · split <;> rfl

theorem sober_perform {p : Prim} (looks : p ≠ .enter) (operands : List NodeId) (env : Env) :
    (t.perform w p operands env).2.control.isSober = true := by
  cases p with
  | enter => exact absurd rfl looks
  | box v | data tag layout | sum | difference | product | read x | gate g | depth | increment x
  | raise message | panic message | revert r => rfl
  | application | selector kind index | evaluate | apply layout => cases operands <;> rfl
  | blackHole =>
    cases operands with
    | nil => rfl
    | cons n rest =>
      simp only [perform, goto]
      split <;> rfl
  | bytecode code =>
    simp only [perform]
    split <;> rfl
  | less =>
    rcases operands with _ | ⟨a, _ | ⟨b, rest⟩⟩ <;> rfl
  | last =>
    simp only [perform]
    split <;> rfl
  | shape | count => exact sober_withArgs env _
  | register kind => exact sober_readRegister kind
  | onThunk op =>
    cases operands with
    | nil => rfl
    | cons n rest => exact sober_onThunk op rest.head?
  | field kind index =>
    cases operands with
    | nil => rfl
    | cons n rest =>
      simp only [perform]
      split
      · exact sober_giveField fun e => isFatal_of_fieldOf
      · rfl

theorem sober_run {c : Code} (env : Env) (other : ∀ r body, c ≠ .constant r body) :
    (t.run w c env).2.control.isSober = true := by
  cases c with
  | captured x | named x =>
    simp only [run]
    split <;> rfl
  | arg i up =>
    simp only [run]
    split
    · rfl
    · split <;> rfl
  | suspend body | lambda name arity body | branch scrutinee yes no | probe subject other
  | recover body handler => rfl
  | constant r body => exact absurd rfl (other r body)
  | prim p operands =>
    cases operands with
    | nil =>
      by_cases bare : p = .enter
      · subst bare
        rfl
      · exact sober_perform bare [] env
    | cons c cs => rfl

theorem sober_callFunction (arity : Nat) (body : Code) (env : Env) (args : List Arg) :
    (t.callFunction w n arity body env args).2.control.isSober = true := by
  unfold callFunction
  dsimp only
  split
  · rfl
  · split <;> rfl

theorem sober_project (kind : FieldKind) (index : Nat) (producer : NodeId) :
    (t.project w kind index producer n).2.control.isSober = true := by
  unfold project
  dsimp only
  split
  · split
    · rename_i e failed
      simp [goto, Control.isSober, isFatal_of_fieldOf failed]
    · rfl
    · rfl
  · rfl
  · rfl

theorem sober_give (at' : t.control = .give n) : (t.give w n).2.control.isSober = true := by
  unfold give
  split
  · rw [at']
    rfl
  · rename_i frame stack top
    cases frame with
    | operands p done rest env => cases rest <;> rfl
    | project kind index producer => exact sober_project kind index producer
    | _ => rfl

end Thread

/-! ## Steps -/

/-- The step of the thread enters a node, comes to a fatal error, or builds a constant that is to be
recorded. -/
inductive Alarms (w : World) (t : Thread) : Control → Prop
  | constant {r body env} (at' : t.control = .run (.constant r body) env)
    (keep : (w.registry r).keep = true) : Alarms w t (.register r w.heap.size)
  | evaluate {m} (at' : t.control = .evaluate m) (unknown : w.evaluated? m = none) :
    Alarms w t (.enter m)
  | call {m args} (at' : t.control = .call m args) (thunk : (w.thunk? m).isSome) :
    Alarms w t (.enter m)
  | bare {m} (at' : t.entersBare = true) : Alarms w t (.enter m)
  | entered {m v} (at' : t.control = .enter m) (value : w.value? m = some v) :
    Alarms w t (.fail (.valueEntered m v.describe))
  | owned {m} (calm : t.control.isOutcome = false) (free : t.control.claim? = none)
    (own : (w.slot m).ownedBy (t.me w) = true) : Alarms w t (.fail (.loop m))
  | active {m claim} (at' : t.control = .start m claim)
    (active : (w.context t.context).stack.push? m = none) : Alarms w t (.fail (.loop m))
  | released {m claim} (at' : t.control = .recheck m claim) (free : (w.slot m).cell = none)
    (cleared : (w.thunk? m).any (·.suspension.cleared) = true) : Alarms w t (.fail (.cleared m))

theorem Thread.sober_detour (afterwards : Bool) {next : Control} (sober : next.isSober = true) :
    (t.detour w afterwards next).2.control.isSober = true := by
  simp only [detour]
  split
  · split <;> exact sober
  · exact sober

theorem Thread.sober_publish (x : Waiting) (blocked : Bool) :
    (t.publish w x blocked).2.control.isSober = true := by
  simp only [publish]
  split
  · split <;> rfl
  · split
    · split <;> rfl
    · rfl

theorem alarms_own {cell : Cell} (calm : t.control.isOutcome = false)
    (free : t.control.claim? = none) (held : (w.slot n).cell = some cell)
    (own : cell.owner? = some (t.me w)) : Alarms w t (.fail (.loop n)) :=
  .owned calm free (by simp [Slot.ownedBy, held, own])

theorem alarms_run {c : Code} {env : Env} (at' : t.control = .run c env) :
    (t.run w c env).2.control.isSober = true ∨ Alarms w t (t.run w c env).2.control := by
  by_cases constant : ∃ r body, c = .constant r body
  · obtain ⟨r, body, rfl⟩ := constant
    simp only [Thread.run, Thread.goto]
    split
    · rename_i keep
      exact .inr (.constant at' keep)
    · exact .inl rfl
  · exact .inl (Thread.sober_run env fun r body is => constant ⟨r, body, is⟩)

theorem alarms_perform {p : Prim} {operands : List NodeId} {env : Env}
    (at' : t.control = .perform p operands env) :
    (t.perform w p operands env).2.control.isSober = true ∨
      Alarms w t (t.perform w p operands env).2.control := by
  by_cases bare : p = .enter
  · subst bare
    cases operands with
    | nil => exact .inl rfl
    | cons n rest => exact .inr (.bare (by simp [Thread.entersBare, at']))
  · exact .inl (Thread.sober_perform bare operands env)

theorem alarms_call {args : List Arg} (at' : t.control = .call n args) :
    (t.call w n args).2.control.isSober = true ∨ Alarms w t (t.call w n args).2.control := by
  unfold Thread.call
  split
  · rename_i th found
    split
    · exact .inl rfl
    · exact .inr (.call at' (by simp [World.thunk?_eq_some.2 found]))
  · exact .inl (Thread.sober_callFunction _ _ _ args)
  · split <;> exact .inl rfl
  · exact .inl rfl
  · exact .inl rfl

theorem alarms_force {claim : Bool} (at' : t.control = .force n claim) :
    (t.force w n claim).2.control.isSober = true ∨ Alarms w t (t.force w n claim).2.control := by
  unfold Thread.force
  split
  · left
    simp only [Thread.goto]
    split <;> rfl
  · exact .inl rfl
  · rename_i cell _ held
    split
    · rename_i own
      exact .inr (alarms_own (by rw [at']; rfl) (by rw [at']; rfl) held own)
    · exact .inl rfl

theorem alarms_attach {claim : Bool} (at' : t.control = .attach n claim) :
    (t.attach w n claim).2.control.isSober = true ∨ (t.attach w n claim).2.control = t.control ∨
      Alarms w t (t.attach w n claim).2.control := by
  have own : ∀ {cell : Cell}, (w.slot n).cell = some cell → cell.owner? = some (t.me w) →
      Alarms w t (.fail (.loop n)) := alarms_own (by rw [at']; rfl) (by rw [at']; rfl)
  unfold Thread.attach
  split
  · exact .inl rfl
  · exact .inl rfl
  · rename_i owner held
    split
    · rename_i me
      exact .inr (.inr (own held (by rw [me]; rfl)))
    · exact .inl rfl
  · exact .inr (.inl rfl)
  · rename_i q owner held
    split
    · rename_i me
      exact .inr (.inr (own held (by rw [me]; rfl)))
    · exact .inl rfl

theorem alarms_proceed : (t.proceed w).2.control.isSober = true ∨
    (t.proceed w).2.control = t.control ∨ Alarms w t (t.proceed w).2.control := by
  unfold Thread.proceed
  cases at' : t.control with
  | run c env => exact (alarms_run at').imp id .inr
  | perform p operands env => exact (alarms_perform at').imp id .inr
  | give n => exact .inl (Thread.sober_give at')
  | fail e =>
    refine (?_ : _ ∨ _).imp id .inl
    simp only [Thread.fail]
    split
    · exact .inr at'
    · rename_i frame stack top
      cases frame <;> first | exact .inl rfl | exact .inr rfl | exact .inr at'
  | unwind message =>
    refine .inl ?_
    simp only [Thread.unwind]
    split
    · rw [at']
      rfl
    · rename_i frame stack top
      cases frame <;> first | rfl | (rw [at']; rfl)
  | evaluate n =>
    simp only [Thread.evaluate]
    split
    · exact .inl rfl
    · rename_i unknown
      exact .inr (.inr (.evaluate at' unknown))
  | enter n =>
    simp only [Thread.enter]
    split
    · exact .inl rfl
    · rename_i v found
      exact .inr (.inr (.entered at' (World.value?_eq_some.2 found)))
    · exact .inl rfl
  | apply | gather | enrol | retract | «suspend» => exact .inl rfl
  | call n args => exact (alarms_call at').imp id .inr
  | force n claim => exact (alarms_force at').imp id .inr
  | start n claim =>
    simp only [Thread.start]
    split
    · exact .inl rfl
    · rename_i active
      exact .inr (.inr (.active at' active))
  | recheck n claim =>
    simp only [Thread.recheck]
    split
    · rename_i both
      simp only [Bool.and_eq_true, Option.isNone_iff_eq_none] at both
      exact .inr (.inr (.released at' both.1 both.2))
    · exact .inl rfl
  | attach n claim => exact (alarms_attach at').imp id (.imp (·.trans at') id)
  | enlist x => exact .inl (Thread.sober_detour _ rfl)
  | enlisted x blocked => exact .inl (Thread.sober_detour _ rfl)
  | publish x blocked => exact .inl (Thread.sober_publish x blocked)
  | parked n claim =>
    simp only [Thread.park]
    split
    · exact .inl rfl
    · split
      · exact .inr (.inl at')
      · exact .inl rfl
  | body n claim =>
    left
    simp only [Thread.body]
    split
    case h_3 => exact Control.isSober_applyStored _ _
    all_goals rfl
  | peek | seize | update | install | lock | join | confirm | probe | exchange =>
    left
    simp only [Thread.seize, Thread.update, Thread.install, Thread.lock, Thread.join,
      Thread.confirm, Thread.probe, Thread.exchange]
    split <;> rfl
  | register | revert =>
    simp only [Thread.register, Thread.revert]
    split
    · exact .inr (.inl at')
    · exact .inl rfl

/-- Whatever enters a node, fails or is to be recorded, does so for one of the reasons of `Alarms`. -/
theorem alarms_step : (t.step w).2.control.isSober = true ∨
    (t.step w).2.control = t.control ∨
    t.agenda = [] ∧ Alarms w t (t.step w).2.control := by
  cases next : t.agenda with
  | nil =>
    rw [Thread.step_idle next]
    exact alarms_proceed.imp id (.imp id fun alarms => ⟨rfl, alarms⟩)
  | cons a as =>
    rcases (step_cases w t).errand_of_busy (by simp [next]) with ⟨-, same⟩ | errand
    · exact .inr (.inl (by rw [same]))
    · generalize (t.step w).1 = w' at errand
      generalize (t.step w).2 = t' at errand ⊢
      cases errand with
      | refuse => exact .inl rfl
      | _ => exact .inr (.inl rfl)

/-! ## Runs -/

namespace Run

variable {run : Run} {i : ThreadId} {k : Nat}

/-- A control that is not sober was reached for a reason, and kept since. -/
theorem alarmed (run : Run) {k : Nat} (found : (run.state k).threads[i]? = some t)
    (alarm : t.control.isSober = false) :
    ∃ d < k, run.move d = .step i ∧
      (∃ u, (run.state d).threads[i]? = some u ∧ u.agenda = [] ∧ u.control ≠ t.control ∧
        Alarms (run.state d).world u t.control) ∧
      ∀ m, d < m → m ≤ k → ∃ v, (run.state m).threads[i]? = some v ∧ v.control = t.control := by
  induction k generalizing t with
  | zero => simp [Run.state, trace] at found
  | succ k ih =>
    rcases run.thread_before found with ⟨u, before⟩ | ⟨-, -, c, env, is⟩
    · by_cases same : u.control = t.control
      · obtain ⟨d, lt, turn, reason, still⟩ := ih before (same ▸ alarm)
        rw [same] at reason still
        refine ⟨d, Nat.lt_succ_of_lt lt, turn, reason, fun m low high => ?_⟩
        rcases Nat.le_succ_iff.1 high with high | rfl
        · exact still m low high
        · exact ⟨t, found, rfl⟩
      · have other : ∀ v : Thread, (run.state (k + 1)).threads[i]? = some v →
            v.control ≠ u.control := fun v there is => by
          rw [found] at there
          cases there
          exact same is.symm
        by_cases turn : run.move k = .step i
        · obtain ⟨-, after⟩ := run.own_step turn before
          rw [found, Option.some.injEq] at after
          subst after
          rcases alarms_step (w := (run.state k).world) (t := u) with sober | kept | ⟨idle, alarms⟩
          · rw [sober] at alarm
            cases alarm
          · exact absurd kept.symm same
          · refine ⟨k, Nat.lt_succ_self k, turn, ⟨u, before, idle, same, alarms⟩, ?_⟩
            intro m low high
            obtain rfl := Nat.le_antisymm high low
            exact ⟨_, found, rfl⟩
        · rcases run.not_own_step turn before with stays | ⟨g, as, -, -, passed⟩
          · exact (other _ stays rfl).elim
          · exact (other _ passed rfl).elim
    · rw [is] at alarm
      cases alarm

/-- What is entered is a thunk. -/
theorem enters_thunk (rooted : run.Rooted) (whole : run.Whole) (hands : run.NeverTouches)
    (bare : run.NeverEnters) (k : Nat) :
    (run.state k).Each fun w t => ∀ n, t.control = .enter n → (w.thunk? n).isSome := by
  refine run.each (fun k t each n at' => (run.evolves (Nat.le_succ k)).thunk n (each n at')) ?_
    (fun w t g as _ each => each) ?_ k
  · intro k i t found each n at'
    refine (step_cases (run.state k).world t).evolves.thunk n ?_
    rcases alarms_step (w := (run.state k).world) (t := t) with sober | same | ⟨idle, alarms⟩
    · rw [at'] at sober
      cases sober
    · exact each n (same ▸ at')
    · rw [at'] at alarms
      cases alarms with
      | evaluate at' unknown =>
        have has := (run.grounded rooted whole hands k).threads i t found |>.control
        rw [at'] at has
        obtain ⟨x, node⟩ := Option.isSome_iff_exists.1 (World.has_iff.1 has)
        cases x with
        | value v => simp [World.evaluated?, node] at unknown
        | thunk th => simp [World.thunk?_eq_some.2 node]
      | call _ thunk => exact thunk
      | bare enters =>
        rw [bare k t (Array.mem_of_getElem? found)] at enters
        cases enters
  · rintro w t ⟨-, -, c, env, is⟩ n at'
    rw [at'] at is
    cases is

/-- A thread that does not answer for more than its frames runs what its task owns. -/
theorem frames_of_owned (modest : run.NeverClaims) (found : (run.state k).threads[i]? = some t)
    (idle : t.agenda = []) (calm : t.control.isOutcome = false) (free : t.control.claim? = none)
    (own : ((run.state k).world.slot n).ownedBy (t.me (run.state k).world) = true) :
    n ∈ ((run.state k).world.context t.context).stack.frames := by
  have runs := Thread.runs_of_control calm
  obtain ⟨j, u, found', me, answers⟩ := (run.owned modest k).answers n _ own
  obtain rfl := (run.seats k).same_thread found found' runs answers.runs me.symm
  rw [found] at found'
  cases found'
  obtain ⟨f, known, is⟩ := answers.frame_of_idle idle free
  rw [((run.framed k).running i t found runs).frames]
  exact List.mem_append_right _ (List.mem_filterMap.2 ⟨f, known, is⟩)

theorem raised (rooted : run.Rooted) (whole : run.Whole) (hands : run.NeverTouches)
    (bare : run.NeverEnters) {e : GraphError} (found : (run.state k).threads[i]? = some t)
    (idle : t.agenda = []) (alarms : Alarms (run.state k).world t (.fail e)) :
    ∃ n, e = .loop n ∧ n ∈ ((run.state k).world.context t.context).stack.frames := by
  cases alarms with
  | @entered n v at' value =>
    have thunk := run.enters_thunk rooted whole hands bare k i t found n at'
    obtain ⟨th, there⟩ := Option.isSome_iff_exists.1 thunk
    rw [World.value?_eq_some] at value
    rw [World.thunk?_eq_some, value] at there
    cases there
  | @owned n calm free own =>
    exact ⟨n, rfl, frames_of_owned hands.neverClaims found idle calm free own⟩
  | @active n claim at' active =>
    have runs : t.Runs := Thread.runs_of_control (by rw [at']; rfl)
    have tracks := (run.framed k).running i t found runs
    exact ⟨n, rfl, tracks.frames ▸ tracks.push?_eq_none.1 active⟩
  | @released n claim at' free cleared =>
    obtain ⟨th, there, cleared⟩ := (Option.any_eq_true _ _).1 cleared
    obtain ⟨v, held⟩ := run.value_of_cleared rooted whole hands
      (World.suspension?_eq_some.2 ⟨th, there, rfl⟩) cleared
    rw [free] at held
    cases held

/-- **Fatal errors have a reason.** Hosts leave slots alone and enter nodes by way of the evaluator
only, nodes from outside name nodes that are there, and thunks from outside have their code. Then the
only fatal error of a run is a loop, and when it was raised, the thunk that it names was on the update
stack of the task that gets it. -/
theorem fatal_is_loop (run : Run) (rooted : run.Rooted) (whole : run.Whole)
    (hands : run.NeverTouches) (bare : run.NeverEnters) {i : ThreadId} {k : Nat} {t : Thread}
    {e : GraphError} (found : (run.state k).threads[i]? = some t) (at' : t.control = .fail e)
    (fatal : e.isFatal = true) :
    ∃ n, e = .loop n ∧ ∃ r < k, run.move r = .step i ∧
      (∃ u, (run.state r).threads[i]? = some u ∧ u.control ≠ .fail e ∧
        n ∈ ((run.state r).world.context u.context).stack.frames) ∧
      ∀ m, r < m → m ≤ k → ∃ v, (run.state m).threads[i]? = some v ∧ v.control = .fail e := by
  obtain ⟨r, lt, turn, ⟨u, before, idle, other, alarms⟩, still⟩ :=
    run.alarmed found (by simp [at', Control.isSober, fatal])
  rw [at'] at other alarms still
  obtain ⟨n, is, known⟩ := run.raised rooted whole hands bare before idle alarms
  exact ⟨n, is, r, lt, turn, ⟨u, before, other, known⟩, still⟩

/-- A thunk that forces itself. -/
def knotted : Run :=
  .ofMoves {}
    ([.thunk (.prim .evaluate [.named "t"]) [], .bind "t" 0, .sit true, .evaluate 0 0] ++
      List.replicate 20 (.step 0))
    (by decide +kernel)

theorem fatal_is_loop_knotted :
    knotted.Rooted ∧ knotted.Whole ∧ knotted.NeverTouches ∧ knotted.NeverEnters ∧
      ∃ t e n, (knotted.state 24).threads[0]? = some t ∧ t.control = .fail e ∧
        e.isFatal = true ∧ e = .loop n ∧ ∃ r < 24, knotted.move r = .step 0 ∧
          ∃ u, (knotted.state r).threads[0]? = some u ∧
            n ∈ ((knotted.state r).world.context u.context).stack.frames := by
  have rooted : knotted.Rooted := rooted_ofMoves (by decide +kernel)
  have whole : knotted.Whole := ofMoves_all rfl (by decide +kernel)
  have hands : knotted.NeverTouches :=
    ofMoves_forall (P := fun s => ∀ t ∈ s.threads, t.touches = false) (by decide +kernel)
  have bare : knotted.NeverEnters :=
    ofMoves_forall (P := fun s => ∀ t ∈ s.threads, t.entersBare = false) (by decide +kernel)
  have fails : ((knotted.state 24).threads[0]?).any (fun t => match t.control with
      | .fail e => e.isFatal
      | _ => false) = true := by
    decide +kernel
  obtain ⟨t, found, at'⟩ := (Option.any_eq_true _ _).1 fails
  split at at'
  · rename_i e is
    obtain ⟨n, loop, r, lt, turn, ⟨u, there, -, known⟩, -⟩ :=
      fatal_is_loop knotted rooted whole hands bare found is at'
    exact ⟨rooted, whole, hands, bare, t, e, n, found, is, at', loop, r, lt, turn, u, there, known⟩
  · cases at'

end Run

end LazyGraph

import LazyGraph.Proofs.Errands
import LazyGraph.Proofs.Seats
import LazyGraph.Proofs.UpdateStacks

/-!
# Update frames

The update stack of a context lists the evaluations of the thread that runs on it, innermost first.
-/

namespace LazyGraph

def Frame.thunk? : Frame → Option NodeId
  | .running n _ | .settling n _ | .leaving n => some n
  | _ => none

def Control.begun? : Control → Option NodeId
  | .body n _ => some n
  | _ => none

/-- The thunks that a thread is evaluating, innermost first. -/
def Thread.evaluations (t : Thread) : List NodeId :=
  t.control.begun?.toList ++ t.stack.filterMap Frame.thunk?

/-! ## Threads that cannot be interrupted -/

/-- Between a claim and the run of the code, and while a result is installed. -/
def Control.isFirm : Control → Bool
  | .start _ _ | .body _ _ | .update _ _ | .install _ _ _ => true
  | _ => false

def Thread.Steady (t : Thread) : Prop :=
  t.control.isFirm → ∀ a ∈ t.agenda, a.isReport

variable {w w' : World} {t t' : Thread} {n : NodeId} {c : ContextId} {fs : List Frame}

theorem Control.isFirm_of_isCalm {c : Control} (calm : c.isCalm) : c.isFirm = false := by
  cases c <;> first | rfl | cases calm

theorem Control.isOutcome_of_isFirm {c : Control} (firm : c.isFirm) : c.isOutcome = false := by
  cases c <;> first | rfl | cases firm

theorem Waits.not_isFirm (step : Waits w t w' t') (soft : t.control.isFirm = false) :
    t'.control.isFirm = false := by
  cases step with
  | busy | asleep => exact soft
  | @proceed x blocked | @published x blocked => cases blocked <;> rfl
  | _ => rfl

theorem Waits.not_isFirm_before (step : Waits w t w' t') : t.control.isFirm = false := by
  cases step <;> simp_all [Control.isFirm]

theorem HostStep.not_isFirm_before (step : HostStep w t w' t') : t.control.isFirm = false := by
  cases step with
  | code _ host => cases is : t.control <;> simp_all [Control.isCode, Control.isFirm]
  | dropCode _ exit | dropAgain _ exit | dropEvaluation _ exit | dropLeaving _ exit =>
    exact Control.isFirm_of_isCalm (Control.isCalm_of_isExit exit)
  | _ => simp_all [Control.isFirm]

theorem Errand.control_of_steady (step : Errand w t w' t') (steady : t.Steady)
    (firm : t.control.isFirm = true) : t'.control = t.control := by
  cases step with
  | refuse next => cases steady firm _ (by rw [next]; exact List.mem_cons_self)
  | _ => rfl

theorem Errand.steady (step : Errand w t w' t') (steady : t.Steady) : t'.Steady := by
  have head : ∀ {a : Action} {as}, t.agenda = a :: as → t.control.isFirm → a.isReport :=
    fun next firm => steady firm _ (by rw [next]; exact List.mem_cons_self)
  have rest : ∀ {a : Action} {as}, t.agenda = a :: as → t.control.isFirm →
      ∀ b ∈ as, b.isReport :=
    fun next firm b known => steady firm b (by rw [next]; exact List.mem_cons_of_mem _ known)
  cases step with
  | stand => exact steady
  | quiet next => exact rest next
  | refuse => exact fun firm => nomatch firm
  | wake next | drain next | «seal» next | sweep next | examined next | examineClosed next
  | examineOpen next | inspectResolved next | inspectOpen next | dismissed next
  | dismissListed next | dismissOther next | overwrite next | abandonOwn next
  | abandonOther next | surrendered next | surrenderMissed next =>
    intro firm
    cases head next firm

theorem Step.steady (step : Step w t w' t') (steady : t.Steady) : t'.Steady := by
  have idle : ∀ {as : List Action}, as = [] → ∀ a ∈ as, a.isReport := fun none a known => by
    rw [none] at known
    cases known
  have soft : ∀ {u : Thread}, u.control.isFirm = false → u.Steady := fun none firm => by
    rw [none] at firm
    cases firm
  cases step with
  | stay => exact steady
  | errand step => exact step.steady steady
  | host step =>
    rcases step.lands with calm | ⟨n, is⟩ | ⟨op, n, ns, env, -, is⟩ | ⟨n, v, e, -, reports⟩
    · exact soft (Control.isFirm_of_isCalm calm)
    · exact soft (by rw [is]; rfl)
    · exact soft (by rw [is]; rfl)
    · exact fun _ => by simp [reports, Action.isReport]
  | forcing step =>
    cases step with
    | body _ _ _ calm => exact soft (Control.isFirm_of_isCalm calm)
    | share none | started none | update none | installMissed none => exact fun _ => idle none
    | seized => exact fun _ => by simp [Action.isReport]
    | _ => exact soft rfl
  | waits step => exact soft (step.not_isFirm step.not_isFirm_before)
  | attempt step => cases step <;> exact soft rfl

/-! ## Evaluations -/

theorem Frame.thunk?_of_isCode {f : Frame} (code : f.isCode) : f.thunk? = none := by
  cases f <;> first | rfl | cases code

theorem filterMap_of_isCode (code : ∀ f ∈ fs, f.isCode) (rest : List Frame) :
    (fs ++ rest).filterMap Frame.thunk? = rest.filterMap Frame.thunk? := by
  induction fs with
  | nil => rfl
  | cons f fs ih =>
    have none := Frame.thunk?_of_isCode (code f List.mem_cons_self)
    rw [List.cons_append, List.filterMap_cons_none none]
    exact ih fun g known => code g (List.mem_cons_of_mem _ known)

theorem Control.begun?_of_isFirm {c : Control} (soft : c.isFirm = false) : c.begun? = none := by
  cases c <;> first | rfl | cases soft

theorem Step.stack_cases (step : Step w t w' t') :
    (∃ fs, t'.stack = fs ++ t.stack) ∨ ∃ f rest, t.stack = f :: rest ∧
      ((∃ fs, t'.stack = fs ++ rest) ∧ f.thunk? = none ∨
      (∃ n, f = .leaving n ∧ t'.stack = rest) ∨
      ∃ n claim, (f = .running n claim ∨ f = .settling n claim) ∧
        (t'.stack = .settling n claim :: rest ∨
          (∃ v, t'.stack = .leaving n :: rest ∧ t'.control = .update n v) ∨
          t'.stack = rest ∧ t'.control.isExit ∧ ∀ a ∈ giveUp n claim, a ∈ t'.agenda)) := by
  cases step with
  | stay => exact .inl ⟨[], rfl⟩
  | errand step => exact .inl ⟨[], step.frames.1⟩
  | host step =>
    cases step with
    | code => exact .inl ⟨_, rfl⟩
    | giveCode _ _ top kind =>
      exact .inr ⟨_, _, top, .inl ⟨⟨_, rfl⟩, Frame.thunk?_of_isCode kind⟩⟩
    | dropCode _ _ top kind =>
      exact .inr ⟨_, _, top, .inl ⟨⟨[], rfl⟩, Frame.thunk?_of_isCode kind⟩⟩
    | giveAgain _ _ top | dropAgain _ _ top =>
      exact .inr ⟨_, _, top, .inl ⟨⟨[], rfl⟩, rfl⟩⟩
    | giveRunning _ _ top => exact .inr ⟨_, _, top, .inr (.inr ⟨_, _, .inl rfl, .inl rfl⟩)⟩
    | giveSettling _ _ top =>
      exact .inr ⟨_, _, top, .inr (.inr ⟨_, _, .inr rfl, .inr (.inl ⟨_, rfl, rfl⟩)⟩)⟩
    | giveLeaving _ _ top | dropLeaving _ _ top => exact .inr ⟨_, _, top, .inr (.inl ⟨_, rfl, rfl⟩)⟩
    | dropEvaluation _ exit top kind =>
      exact .inr ⟨_, _, top, .inr (.inr ⟨_, _, kind, .inr (.inr ⟨rfl, exit,
        fun a known => List.mem_append_right _ known⟩)⟩)⟩
    | _ => exact .inl ⟨[], rfl⟩
  | forcing step =>
    cases step with
    | evaluate => exact .inl ⟨[.again], rfl⟩
    | @body n claim fs => exact .inl ⟨fs ++ [.running n claim], by simp⟩
    | _ => exact .inl ⟨[], rfl⟩
  | waits step =>
    cases step with
    | _ => exact .inl ⟨[], rfl⟩
  | attempt step =>
    cases step with
    | _ => exact .inl ⟨[], rfl⟩

theorem Thread.evaluations_eq (soft : t.control.isFirm = false) :
    t.evaluations = t.stack.filterMap Frame.thunk? := by
  rw [evaluations, Control.begun?_of_isFirm soft]
  rfl

inductive Evaluates (w : World) (t : Thread) (w' : World) (t' : Thread) : Prop
  | same (kept : ∀ c, (w'.context c).stack = (w.context c).stack)
    (evaluations : t'.evaluations = t.evaluations)
  | begins {n : NodeId} {stack : UpdateStack}
    (pushed : (w.context t.context).stack.push? n = some stack)
    (is : w' = w.setContext t.context { w.context t.context with stack })
    (evaluations : t'.evaluations = n :: t.evaluations)
  | ends {n : NodeId} (is : w' = t.leave w n) (evaluations : t.evaluations = n :: t'.evaluations)

theorem Errand.evaluates (step : Errand w t w' t') (steady : t.Steady) :
    Evaluates w t w' t' := by
  have contexts : w'.contexts = w.contexts ∨ w.Quiet w' := by
    cases step with
    | quiet _ _ quiet | dismissListed _ quiet => exact .inr quiet
    | overwrite | surrendered => exact .inl (by simp)
    | _ => exact .inl rfl
  have begun : t'.control.begun? = t.control.begun? := by
    cases firm : t.control.isFirm with
    | true => rw [step.control_of_steady steady firm]
    | false =>
      rcases step.frames.2 with same | exit
      · rw [same]
      · rw [Control.begun?_of_isFirm firm,
          Control.begun?_of_isFirm (Control.isFirm_of_isCalm (Control.isCalm_of_isExit exit))]
  have evaluations : t'.evaluations = t.evaluations := by
    rw [Thread.evaluations, Thread.evaluations, step.frames.1, begun]
  refine .same ?_ evaluations
  intro c
  rcases contexts with same | quiet
  · rw [World.context, same, ← World.context]
  · exact quiet.stack c

theorem HostStep.evaluates (step : HostStep w t w' t') : Evaluates w t w' t' := by
  have soft := step.not_isFirm_before
  have before := t.evaluations_eq soft
  have same : ∀ {w' : World} {t' : Thread}, (∀ c, (w'.context c).stack = (w.context c).stack) →
      t'.control.begun? = none →
      t'.stack.filterMap Frame.thunk? = t.stack.filterMap Frame.thunk? →
      Evaluates w t w' t' := fun kept none frames =>
    .same kept (by rw [before, Thread.evaluations, none, frames]; rfl)
  cases step with
  | code _ _ quiet frames calm =>
    exact same quiet.stack (Control.begun?_of_isFirm (Control.isFirm_of_isCalm calm))
      (filterMap_of_isCode frames _)
  | giveCode _ _ top kind quiet frames calm =>
    refine same quiet.stack (Control.begun?_of_isFirm (Control.isFirm_of_isCalm calm)) ?_
    rw [filterMap_of_isCode frames, top, List.filterMap_cons_none (Frame.thunk?_of_isCode kind)]
  | dropCode _ exit top kind caught =>
    refine same (fun _ => rfl) ?_ ?_
    · rcases caught with rfl | ⟨code, env, rfl⟩
      · exact Control.begun?_of_isFirm soft
      · rfl
    · rw [top, List.filterMap_cons_none (Frame.thunk?_of_isCode kind)]
  | dropAgain _ exit top =>
    refine same (fun _ => rfl) (Control.begun?_of_isFirm soft) ?_
    rw [top]
    rfl
  | dropEvaluation _ exit top kind =>
    refine .ends rfl ?_
    rw [before, Thread.evaluations, Control.begun?_of_isFirm soft, top]
    rcases kind with rfl | rfl <;> rfl
  | dropLeaving _ exit top =>
    refine .ends rfl ?_
    rw [before, Thread.evaluations, Control.begun?_of_isFirm soft, top]
    rfl
  | giveAgain _ _ top | giveRunning _ _ top | giveSettling _ _ top =>
    exact same (fun _ => rfl) rfl (by rw [top]; rfl)
  | giveLeaving _ _ top =>
    refine .ends rfl ?_
    rw [before, top]
    rfl
  | abandon _ _ quiet | clear _ _ quiet | reset _ _ quiet | set _ _ quiet | revert _ _ quiet =>
    exact same quiet.stack rfl rfl
  | blackHole | attempt | update => exact same (fun _ => rfl) rfl rfl

theorem Forcing.evaluates (step : Forcing w t w' t') : Evaluates w t w' t' := by
  have written : ∀ {w' : World} {t' : Thread}, w'.contexts = w.contexts →
      t'.control.begun? = none → t.control.begun? = none → t'.stack = t.stack →
      Evaluates w t w' t' := fun contexts none none' stack =>
    .same (fun c => by rw [World.context, contexts, ← World.context])
      (by rw [Thread.evaluations, Thread.evaluations, none, none', stack])
  cases step with
  | evaluate _ at' =>
    refine .same (fun _ => rfl) ?_
    rw [Thread.evaluations, Thread.evaluations, at']
    rfl
  | started _ at' pushed =>
    refine .begins pushed rfl ?_
    rw [Thread.evaluations, Thread.evaluations, at']
    rfl
  | body _ at' frames calm =>
    refine .same (fun _ => rfl) ?_
    rw [Thread.evaluations_eq (Control.isFirm_of_isCalm calm), Thread.evaluations, at',
      filterMap_of_isCode frames]
    rfl
  | released _ at' =>
    refine .ends rfl ?_
    rw [Thread.evaluations, Thread.evaluations, at']
    rfl
  | seized _ at' | installed _ at' => exact written (by simp) rfl (by rw [at']; rfl) rfl
  | evaluated _ at' | enter _ at' | enterFailed _ at' | take _ at' | share _ at' | done _ at'
  | loop _ at' | await _ at' | seizeMissed _ at' | startLoop _ at' | recheckFailed _ at'
  | recheck _ at' | updateLost _ at' | update _ at' | installMissed _ at' =>
    exact written rfl rfl (by rw [at']; rfl) rfl

theorem Waits.evaluates (step : Waits w t w' t') : Evaluates w t w' t' := by
  have before := step.not_isFirm_before
  refine .same ?_ ?_
  · intro c
    cases step with
    | locked | published => simp
    | joined _ _ pushed =>
      obtain ⟨queues, Q, rfl, -⟩ := World.push?_eq_some pushed
      rfl
    | enlist _ _ quiet | retract _ _ quiet | enlisted _ _ quiet => exact quiet.stack c
    | _ => rfl
  · rw [t.evaluations_eq before, t'.evaluations_eq (step.not_isFirm before)]
    cases step <;> rfl

theorem Attempt.evaluates (step : Attempt w t w' t') : Evaluates w t w' t' := by
  cases step with
  | probe _ at' =>
    refine .same (fun _ => rfl) ?_
    rw [Thread.evaluations, Thread.evaluations, at']
    rfl
  | hopeless _ at' quiet | missed _ at' quiet =>
    refine .same quiet.stack ?_
    rw [Thread.evaluations, Thread.evaluations, at']
    rfl
  | exchanged _ at' _ quiet =>
    refine .same (fun c => by rw [quiet.stack c, World.context_write]) ?_
    rw [Thread.evaluations, Thread.evaluations, at']
    rfl

theorem Step.evaluates (step : Step w t w' t') (steady : t.Steady) : Evaluates w t w' t' := by
  cases step with
  | stay => exact .same (fun _ => rfl) rfl
  | errand step => exact step.evaluates steady
  | host step => exact step.evaluates
  | forcing step => exact step.evaluates
  | waits step => exact step.evaluates
  | attempt step => exact step.evaluates

/-! ## Runs -/

theorem World.stack_setContext_ne {context : Context} {d : ContextId} (other : c ≠ d) :
    ((w.setContext d context).context c).stack = (w.context c).stack := by
  rw [World.context_setContext, if_neg fun is => other is.1]

theorem Evaluates.stack_other (evaluates : Evaluates w t w' t') (other : c ≠ t.context) :
    (w'.context c).stack = (w.context c).stack := by
  cases evaluates with
  | same kept => exact kept c
  | begins pushed is =>
    rw [is]
    exact World.stack_setContext_ne other
  | ends is =>
    rw [is]
    exact World.stack_setContext_ne other

theorem Evaluates.tracks (evaluates : Evaluates w t w' t')
    (seated : t.context < w.contexts.size)
    (tracks : (w.context t.context).stack.Tracks t.evaluations) :
    (w'.context t.context).stack.Tracks t'.evaluations := by
  cases evaluates with
  | same kept evaluations =>
    rw [kept, evaluations]
    exact tracks
  | begins pushed is evaluations =>
    rw [is, evaluations, World.context_setContext, if_pos ⟨rfl, seated⟩]
    exact tracks.push pushed
  | ends is evaluations =>
    rw [is, Thread.leave, World.context_setContext, if_pos ⟨rfl, seated⟩]
    rw [evaluations] at tracks
    exact tracks.pop

structure State.Framed (s : State) : Prop where
  steady : s.Each fun _ t => t.Steady
  running : ∀ (i : ThreadId) t, s.threads[i]? = some t → t.Runs →
    (s.world.context t.context).stack.Tracks t.evaluations
  idle : ∀ c < s.world.contexts.size,
    (∀ t ∈ s.threads, t.context = c → ¬ t.Runs) → (s.world.context c).stack.Tracks []

theorem Thread.evaluations_of_ended (ended : ¬ t.Runs) : t.evaluations = [] := by
  have top : t.stack = [] := by
    by_contra busy
    exact ended (Thread.runs_of_stack busy)
  have soft : t.control.isFirm = false := by
    by_contra firm
    exact ended (Thread.runs_of_control (Control.isOutcome_of_isFirm (by simpa using firm)))
  rw [t.evaluations_eq soft, top]
  rfl

variable {s s' : State} {i : ThreadId} {m : Move}

theorem framed_step (seats : s.Seats) (framed : s.Framed) (turns : Turns s s' i t t') :
    s'.Framed := by
  have seated := seats.seated i t turns.before
  have keeps := turns.step.keeps
  have evaluates := turns.step.evaluates (framed.steady i t turns.before)
  have own : t.Runs → (s'.world.context t.context).stack.Tracks t'.evaluations := fun runs =>
    evaluates.tracks seated (framed.running i t turns.before runs)
  refine ⟨?_, ?_, ?_⟩
  · intro j u found
    rcases turns.others j u found with ⟨rfl, rfl⟩ | ⟨-, old⟩
    · exact turns.step.steady (framed.steady _ t turns.before)
    · exact framed.steady j u old
  · intro j u found runs
    rcases turns.others j u found with ⟨rfl, rfl⟩ | ⟨other, old⟩
    · rw [turns.step.context]
      exact own (turns.step.runs runs)
    · by_cases same : u.context = t.context
      · by_cases active : t.Runs
        · exact absurd (seats.alone j i u t old turns.before runs active same) other
        · rw [(turns.step.ended active).1]
          exact framed.running j u old runs
      · rw [evaluates.stack_other same]
        exact framed.running j u old runs
  · intro c bound free
    rw [keeps.contexts] at bound
    have rest : ∀ u ∈ s.threads, u ≠ t → u.context = c → ¬ u.Runs := fun u mem other at' =>
      free u ((turns.mem mem).resolve_left other) at'
    by_cases same : t.context = c
    · subst same
      have ended : ¬ t'.Runs :=
        free t' (Array.mem_of_getElem? turns.after) turns.step.context
      by_cases runs : t.Runs
      · exact t'.evaluations_of_ended ended ▸ own runs
      · rw [(turns.step.ended runs).1]
        refine framed.idle _ bound ?_
        intro u mem at'
        by_cases is : u = t
        · exact is ▸ runs
        · exact rest u mem is at'
    · rw [evaluates.stack_other (Ne.symm same)]
      exact framed.idle c bound fun u mem at' => rest u mem (fun is => same (is ▸ at')) at'

theorem framed_of_kept {w' : World} (framed : s.Framed)
    (size : w'.contexts.size = s.world.contexts.size)
    (kept : ∀ c < s.world.contexts.size, (w'.context c).stack = (s.world.context c).stack)
    (seats : s.Seats) : State.Framed { s with world := w' } where
  steady := framed.steady
  running j u found runs := by
    rw [kept _ (seats.seated j u found)]
    exact framed.running j u found runs
  idle c bound free := by
    rw [kept c (size ▸ bound)]
    exact framed.idle c (size ▸ bound) free

theorem Change.framed (change : Change s m s') (seats : s.Seats) (framed : s.Framed) :
    s'.Framed := by
  cases change with
  | step at' step => exact framed_step seats framed (turns_of_step at' step)
  | quiet quiet => exact framed_of_kept framed quiet.size (fun c _ => quiet.stack c) seats
  | wake => exact framed_of_kept framed rfl (fun c _ => rfl) seats
  | @start t c env seated free errands frames code =>
    have soft : t.control.isFirm = false := by rw [code]; rfl
    have evaluations : t.evaluations = [] := by rw [t.evaluations_eq soft, frames]; rfl
    have runs : t.Runs := Thread.runs_of_control (by rw [code]; rfl)
    refine ⟨?_, ?_, ?_⟩
    · intro j u found
      rcases getElem?_push_some found with ⟨-, rfl⟩ | old
      · intro firm
        rw [soft] at firm
        cases firm
      · exact framed.steady j u old
    · intro j u found active
      rcases getElem?_push_some found with ⟨-, rfl⟩ | old
      · rw [evaluations]
        refine framed.idle _ seated ?_
        intro v mem at' active
        have ended := free v mem at'
        rw [show v.outcome? = none from active] at ended
        cases ended
      · exact framed.running j u old active
    · intro c bound busy
      exact framed.idle c bound fun u mem at' => busy u (Array.mem_push_of_mem _ mem) at'
  | @seat task context own fresh =>
    have old : ∀ c < s.world.contexts.size,
        ((s.world.addTask task).1.addContext context).1.context c = s.world.context c :=
      fun c bound => by
        simp [World.context, World.addContext, World.addTask, Array.getElem?_push,
          Nat.ne_of_lt bound]
    refine ⟨framed.steady, ?_, ?_⟩
    · intro j u found runs
      rw [old _ (seats.seated j u found)]
      exact framed.running j u found runs
    · intro c bound free
      have size : ((s.world.addTask task).1.addContext context).1.contexts.size =
          s.world.contexts.size + 1 := by simp [World.addContext, World.addTask]
      rw [size] at bound
      rcases Nat.lt_succ_iff_lt_or_eq.1 bound with before | rfl
      · rw [old c before]
        exact framed.idle c before free
      · have new : ((s.world.addTask task).1.addContext context).1.context s.world.contexts.size =
            context := by simp [World.context, World.addContext, World.addTask]
        rw [new, fresh]
        exact UpdateStack.tracks_empty

theorem Run.framed (run : Run) (k : Nat) : (run.state k).Framed := by
  refine run.always ⟨?_, ?_, ?_⟩ (fun k framed => (run.change k).framed (run.seats k) framed) k
  · intro i t found
    simp at found
  · intro i t found
    simp at found
  · intro c bound
    simp at bound

end LazyGraph

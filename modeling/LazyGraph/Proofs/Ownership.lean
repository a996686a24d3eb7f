import LazyGraph.Proofs.Frames

/-!
# Claims are kept

Hosts that do not claim thunks themselves leave every claim with a thread that evaluates the thunk,
or is about to give the claim up.
-/

namespace LazyGraph

/-- The host takes a thunk without evaluating it. -/
def Thread.claims (t : Thread) : Bool :=
  match t.control with
  | .perform (.onThunk .claim) _ _ => true
  | _ => false

def Run.NeverClaims (run : Run) : Prop :=
  ∀ k, ∀ t ∈ (run.state k).threads, t.claims = false

def Control.Modest : Control → Prop
  | .probe op _ => op ≠ .claim
  | .exchange _ _ cell => cell.bind Cell.owner? = none
  | _ => True

/-! ## Who answers for a claim -/

def Control.claim? : Control → Option NodeId
  | .start n true | .body n true | .update n _ | .install n _ _ => some n
  | _ => none

def Action.claim? : Action → Option NodeId
  | .abandon n | .surrender n _ => some n
  | _ => none

def Frame.claim? : Frame → Option NodeId
  | .running n true | .settling n true => some n
  | _ => none

/-- The thread will install a result for `n` or give up its claim. -/
inductive Thread.Answers (t : Thread) (n : NodeId) : Prop
  | control (at' : t.control.claim? = some n)
  | errand {a} (known : a ∈ t.agenda) (is : a.claim? = some n)
  | frame {f} (known : f ∈ t.stack) (is : f.claim? = some n)

variable {w w' : World} {t t' : Thread} {n : NodeId} {o : TaskId}

theorem Control.modest_of_isCalm {c : Control} (calm : c.isCalm) : c.Modest := by
  cases c <;> trivial

theorem Step.modest (step : Step w t w' t') (unclaimed : t.claims = false)
    (modest : t.control.Modest) : t'.control.Modest := by
  cases step with
  | stay => exact modest
  | errand step =>
    cases step with
    | refuse => trivial
    | _ => exact modest
  | host step =>
    rcases step.lands with calm | ⟨n, is⟩ | ⟨op, n, ns, env, host, is⟩ | ⟨n, v, e, is, -⟩
    · exact Control.modest_of_isCalm calm
    · rw [is]
      trivial
    · rw [is]
      rintro rfl
      simp [Thread.claims, host] at unclaimed
    · rw [is]
      trivial
  | forcing step =>
    cases step with
    | body _ _ _ calm => exact Control.modest_of_isCalm calm
    | _ => trivial
  | waits step =>
    cases step with
    | busy | asleep => exact modest
    | @proceed x blocked | @published x blocked => cases blocked <;> trivial
    | _ => trivial
  | attempt step =>
    cases step with
    | @probe op n cell _ at' tries =>
      rw [at'] at modest
      unfold ThunkOp.attempt? at tries
      split at tries
      · exact absurd rfl modest
      · cases tries
        rfl
      · cases tries
        rfl
      · cases tries
    | hopeless | exchanged | missed => trivial

/-- A task comes to own a thunk by taking it to run it. -/
theorem Step.owned_start (step : Step w t w' t') (noted : t.Noted) (modest : t.control.Modest)
    (owned : (w'.slot n).ownedBy o = true) :
    (w.slot n).ownedBy o = true ∨ o = t.me w ∧ t'.control = .start n true := by
  obtain ⟨c, held, owner⟩ := Slot.cell_of_ownedBy owned
  have old : ∀ {seen : Slot} {c : Cell}, (w.slot n).unchanged seen = true →
      seen.cell = some c → c.owner? = some o → (w.slot n).ownedBy o = true := by
    intro seen c same was owner
    simp [Slot.ownedBy, Slot.cell_of_unchanged same, was, owner]
  rcases step.cell_origin held with was | writes
  · exact .inl (by simp [Slot.ownedBy, was, owner])
  · obtain ⟨control, -⟩ := noted
    generalize is : some c = cell at writes
    cases writes with
    | @overwrite n v =>
      cases v with
      | none => cases is
      | some v =>
        cases is
        cases owner
    | surrendered => cases is
    | installed =>
      cases is
      cases owner
    | seized _ _ after =>
      cases is
      cases owner
      exact .inr ⟨rfl, after⟩
    | locked at' same =>
      cases is
      rw [at'] at control
      exact .inl (old same control owner)
    | published _ at' made same =>
      cases is
      rw [at'] at control
      exact .inl (old same (control _ made) owner)
    | exchanged at' =>
      rw [at', ← is] at modest
      rw [show c.owner? = none from modest] at owner
      cases owner

theorem Step.owned_origin (step : Step w t w' t') (noted : t.Noted) (modest : t.control.Modest)
    (owned : (w'.slot n).ownedBy o = true) :
    (w.slot n).ownedBy o = true ∨ o = t.me w ∧ t'.Answers n :=
  (step.owned_start noted modest owned).imp_right fun taken =>
    ⟨taken.1, .control (by rw [taken.2]; rfl)⟩

theorem Control.isFirm_of_claim? {c : Control} (claim : c.claim? = some n) : c.isFirm = true := by
  cases c <;> first | rfl | cases claim

theorem Thread.Answers.runs (answers : t.Answers n) : t.Runs := by
  cases answers with
  | control claim =>
    exact Thread.runs_of_control (Control.isOutcome_of_isFirm (Control.isFirm_of_claim? claim))
  | errand known => exact Thread.runs_of_agenda (List.ne_nil_of_mem known)
  | frame known => exact Thread.runs_of_stack (List.ne_nil_of_mem known)

theorem Frame.thunk?_of_claim? {f : Frame} (claim : f.claim? = some n) : f.thunk? = some n := by
  cases f with
  | running m c | settling m c =>
    cases c with
    | false => cases claim
    | true => exact claim
  | _ => cases claim

/-- A thread that has nothing else to do answers for the thunks that it runs. -/
theorem Thread.Answers.frame_of_idle (answers : t.Answers n) (idle : t.agenda = [])
    (free : t.control.claim? = none) : ∃ f ∈ t.stack, f.thunk? = some n := by
  cases answers with
  | control at' =>
    rw [free] at at'
    cases at'
  | errand known =>
    rw [idle] at known
    cases known
  | frame known is => exact ⟨_, known, Frame.thunk?_of_claim? is⟩

theorem answers_of_giveUp {claim : Bool} (claimed : claim = true)
    (planned : ∀ a ∈ giveUp n claim, a ∈ t.agenda) : t.Answers n := by
  subst claimed
  exact .errand (planned _ (List.mem_singleton_self _)) rfl

theorem World.not_owned_of_write {cell : Option Cell} (free : cell.bind Cell.owner? = none) :
    ((w.write n cell).slot n).ownedBy o = false := by
  cases found : w.thunk? n with
  | none => simp [World.slot_write_of_none found, World.slot_of_none found, Slot.ownedBy]
  | some th => simp [World.slot_write_self found, Slot.ownedBy, free]

theorem Forcing.answers (step : Forcing w t w' t') (claim : t.control.claim? = some n) :
    t'.Answers n ∨ (w'.slot n).ownedBy (t.me w) = false := by
  cases step with
  | @started m claim' stack _ at' =>
    rw [at'] at claim
    cases claim' with
    | false => cases claim
    | true => exact .inl (.control claim)
  | @startLoop m claim' e _ at' =>
    rw [at'] at claim
    cases claim' with
    | false => cases claim
    | true =>
      cases claim
      exact .inl (answers_of_giveUp rfl fun a known => List.mem_cons_of_mem _ known)
  | @body m claim' l c _ at' =>
    rw [at'] at claim
    cases claim' with
    | false => cases claim
    | true =>
      cases claim
      exact .inl (.frame (f := .running n true) (by simp) rfl)
  | @released m claim' _ at' =>
    rw [at'] at claim
    cases claim' with
    | false => cases claim
    | true =>
      cases claim
      exact .inl (answers_of_giveUp rfl fun a known => known)
  | updateLost _ at' held =>
    rw [at'] at claim
    cases claim
    exact .inr (by simp [Slot.ownedBy, held, Cell.owner?])
  | update _ at' | installMissed _ at' =>
    rw [at'] at claim
    exact .inl (.control claim)
  | installed _ at' =>
    rw [at'] at claim
    cases claim
    exact .inr (World.not_owned_of_write rfl)
  | evaluated _ at' | evaluate _ at' | enter _ at' | enterFailed _ at' | take _ at' | share _ at'
  | done _ at' | loop _ at' | await _ at' | seized _ at' | seizeMissed _ at' | recheckFailed _ at'
  | recheck _ at' =>
    rw [at'] at claim
    cases claim

theorem Errand.answers {a : Action} {as : List Action} (step : Errand w t w' t')
    (next : t.agenda = a :: as) (claim : a.claim? = some n) :
    t'.Answers n ∨ (w'.slot n).ownedBy (t.me w) = false := by
  cases step with
  | stand => exact .inl (.errand (by rw [next]; exact List.mem_cons_self) claim)
  | abandonOwn next' =>
    rw [next] at next'
    cases next'
    exact .inl (.errand List.mem_cons_self claim)
  | abandonOther next' other =>
    rw [next] at next'
    cases next'
    cases claim
    exact .inr other
  | surrendered next' =>
    rw [next] at next'
    cases next'
    cases claim
    exact .inr (World.not_owned_of_write rfl)
  | surrenderMissed next' =>
    rw [next] at next'
    cases next'
    exact .inl (.errand List.mem_cons_self claim)
  | quiet next' kind =>
    rw [next] at next'
    cases next'
    cases a <;> cases kind <;> cases claim
  | refuse next' | wake next' | drain next' | «seal» next' | sweep next' | examined next'
  | examineClosed next' | examineOpen next' | inspectResolved next' | inspectOpen next'
  | dismissed next' | dismissListed next' | dismissOther next' | overwrite next' =>
    rw [next] at next'
    cases next'
    cases claim

theorem Step.answers (step : Step w t w' t') (steady : t.Steady) (answers : t.Answers n) :
    t'.Answers n ∨ (w'.slot n).ownedBy (t.me w) = false := by
  cases answers with
  | control claim =>
    have firm := Control.isFirm_of_claim? claim
    cases step with
    | stay => exact .inl (.control claim)
    | errand step => exact .inl (.control ((step.control_of_steady steady firm).symm ▸ claim))
    | host step =>
      rw [step.not_isFirm_before] at firm
      cases firm
    | forcing step => exact step.answers claim
    | waits step =>
      rw [step.not_isFirm_before] at firm
      cases firm
    | attempt step => cases step <;> simp_all [Control.isFirm]
  | errand known claim =>
    rcases step.agenda_kept known with kept | ⟨as, next⟩
    · exact .inl (.errand kept claim)
    · rcases step.errand_of_busy (by simp [next]) with ⟨-, rfl⟩ | errand
      · exact .inl (.errand known claim)
      · exact errand.answers next claim
  | @frame f known claim =>
    rcases step.stack_cases with ⟨fs, pushed⟩ | ⟨g, rest, top, popped⟩
    · exact .inl (.frame (by rw [pushed]; exact List.mem_append_right _ known) claim)
    · rw [top] at known
      rcases popped with ⟨⟨fs, stack⟩, none⟩ | ⟨m, rfl, stack⟩ | ⟨m, c, kind, result⟩
      · rcases List.mem_cons.1 known with rfl | old
        · cases f <;> first | cases claim | cases none
        · exact .inl (.frame (by rw [stack]; exact List.mem_append_right _ old) claim)
      · rcases List.mem_cons.1 known with rfl | old
        · cases claim
        · exact .inl (.frame (by rw [stack]; exact old) claim)
      · rcases List.mem_cons.1 known with rfl | old
        · have own : m = n ∧ c = true := by
            rcases kind with rfl | rfl <;> cases c <;> cases claim <;> exact ⟨rfl, rfl⟩
          obtain ⟨rfl, rfl⟩ := own
          rcases result with stack | ⟨v, -, control⟩ | ⟨-, -, planned⟩
          · exact .inl (.frame (by rw [stack]; exact List.mem_cons_self) rfl)
          · exact .inl (.control (by rw [control]; rfl))
          · exact .inl (answers_of_giveUp rfl planned)
        · rcases result with stack | ⟨v, stack, -⟩ | ⟨stack, -⟩
          · exact .inl (.frame (by rw [stack]; exact List.mem_cons_of_mem _ old) claim)
          · exact .inl (.frame (by rw [stack]; exact List.mem_cons_of_mem _ old) claim)
          · exact .inl (.frame (by rw [stack]; exact old) claim)

/-! ## Runs -/

structure State.Owned (s : State) : Prop where
  modest : s.Each fun _ t => t.control.Modest
  answers : ∀ n o, (s.world.slot n).ownedBy o = true →
    ∃ (i : ThreadId) (t : Thread), s.threads[i]? = some t ∧ t.me s.world = o ∧ t.Answers n

variable {s s' : State} {i : ThreadId} {m : Move}

theorem owned_turns (noted : s.Each fun _ t => t.Noted) (framed : s.Framed)
    (unclaimed : ∀ t ∈ s.threads, t.claims = false) (owned : s.Owned)
    (turns : Turns s s' i t t') : s'.Owned := by
  have modest := owned.modest i t turns.before
  refine ⟨?_, ?_⟩
  · intro j u found
    rcases turns.others j u found with ⟨rfl, rfl⟩ | ⟨-, old⟩
    · exact turns.step.modest (unclaimed t (Array.mem_of_getElem? turns.before)) modest
    · exact owned.modest j u old
  · intro n o held
    rcases turns.step.owned_origin (noted i t turns.before) modest held with old | ⟨rfl, answers⟩
    · obtain ⟨j, u, found, me, answers⟩ := owned.answers n o old
      by_cases same : j = i
      · subst same
        rw [turns.before] at found
        cases found
        rcases turns.step.answers (framed.steady j t turns.before) answers with stays | lost
        · exact ⟨j, t', turns.after, turns.step.me.trans me, stays⟩
        · rw [me, held] at lost
          cases lost
      · exact ⟨j, u, turns.stays j u same found, (turns.step.keeps.taskOf _).trans me, answers⟩
    · exact ⟨i, t', turns.after, turns.step.me, answers⟩

theorem owned_rests (owned : s.Owned) (rests : Rests s s')
    (me : ∀ (j : ThreadId) u, s.threads[j]? = some u → u.me s'.world = u.me s.world) :
    s'.Owned := by
  refine ⟨?_, ?_⟩
  · intro j u found
    rcases rests.others j u found with old | ⟨-, -, c, env, is⟩
    · exact owned.modest j u old
    · simp [is, Control.Modest]
  · intro n o held
    rw [rests.still.slot] at held
    obtain ⟨j, u, found, same, answers⟩ := owned.answers n o held
    exact ⟨j, u, rests.stays j u found, (me j u found).trans same, answers⟩

theorem Run.owned (run : Run) (modest : run.NeverClaims) (k : Nat) : (run.state k).Owned := by
  refine run.always (P := State.Owned) ⟨?_, ?_⟩ ?_ k
  · intro i t found
    simp at found
  · intro n o held
    simp [World.slot, World.thunk?, World.node?, Slot.ownedBy] at held
  · intro k owned
    rcases (run.change k).split with rests | ⟨i, t, t', turns, -⟩
    · exact owned_rests owned rests fun j u found => (run.change k).me (run.seats k) found
    · exact owned_turns (run.noted k) (run.framed k) (modest k) owned turns

end LazyGraph

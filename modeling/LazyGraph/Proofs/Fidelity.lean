import LazyGraph.Proofs.Courses

/-!
# Every step keeps to the code

Step by step, a thread of pure code follows the reduction of its code: host code takes one step of
the reduction, what comes from a slot takes all of those that led to it, and claiming, waiting and
installing take none.
-/

namespace LazyGraph

variable {H : Graph} {rule : Option Interpreter} {c₀ : Focus} {n v : NodeId} {w w' : World}
  {t t' : Thread}

namespace Thread

/-! ## Errands -/

theorem Faithful.of_same (faithful : t.Faithful H rule c₀) (stack : t'.stack = t.stack)
    (control : t'.control = t.control) : t'.Faithful H rule c₀ := by
  cases faithful with
  | follows follows => exact .follows (follows.of_plain stack (by rw [control]))
  | loops at' diverges => exact .loops (control.trans at') diverges
  | refused at' => exact .refused (control.trans at')

theorem Faithful.errand (faithful : t.Faithful H rule c₀) (step : Errand w t w' t') :
    t'.Faithful H rule c₀ := by
  cases step with
  | refuse => exact .refused rfl
  | _ => exact faithful.of_same rfl rfl

/-! ## Exits -/

theorem fail_eq {e : GraphError} (at' : t.control = .fail e) (pure : t.isPure = true) :
    (t.fail w e).2.control = .fail e ∧ (t.fail w e).2.stack = t.stack.tail := by
  unfold fail
  cases top : t.stack with
  | nil => exact ⟨at', top⟩
  | cons f rest =>
    cases f with
    | handler c env => simp [isPure, at', top] at pure
    | running | settling => exact ⟨rfl, rfl⟩
    | _ => exact ⟨at', rfl⟩

theorem unwind_eq {message : String} (at' : t.control = .unwind message) :
    (t.unwind w message).2.control = .unwind message ∧
      (t.unwind w message).2.stack = t.stack.tail := by
  unfold unwind
  cases top : t.stack with
  | nil => exact ⟨at', top⟩
  | cons f rest =>
    cases f with
    | running | settling => exact ⟨rfl, rfl⟩
    | _ => exact ⟨at', rfl⟩

theorem Follows.exit (follows : t.Follows H rule c₀) (stack : t'.stack = t.stack.tail)
    (control : t'.control = t.control)
    (drops : ∀ f rest, t.stack = f :: rest →
      H.Reds rule (t.control.plain, f.plain) (t.control.plain, [])) : t'.Follows H rule c₀ := by
  unfold Follows at follows ⊢
  rw [stack, control]
  cases top : t.stack with
  | nil => rwa [top] at follows
  | cons f rest =>
    rw [top] at follows
    exact follows.pop (drops f rest top)

theorem Follows.fail {e : GraphError} (follows : t.Follows H rule c₀) (at' : t.control = .fail e)
    (pure : t.isPure = true) : (t.fail w e).2.Follows H rule c₀ := by
  obtain ⟨control, stack⟩ := fail_eq (w := w) at' pure
  refine follows.exit stack (control.trans at'.symm) fun f rest top => ?_
  rw [at']
  cases f with
  | settling | leaving => exact .refl
  | handler c env => simp [isPure, at', top] at pure
  | _ => exact .single (.fail (by simp))

theorem Follows.unwind {message : String} (follows : t.Follows H rule c₀)
    (at' : t.control = .unwind message) : (t.unwind w message).2.Follows H rule c₀ := by
  obtain ⟨control, stack⟩ := unwind_eq (w := w) at'
  refine follows.exit stack (control.trans at'.symm) fun f rest top => ?_
  rw [at']
  cases f with
  | settling | leaving => exact .refl
  | _ => exact .single .unwind

namespace Scene

variable (scene : t.Scene H rule w)

include scene

theorem thunk (held : (w.slot n).cell = some (.value v)) : ∃ s, H n = some (.thunk s) := by
  obtain ⟨th, found⟩ := World.thunk_of_cell held
  obtain ⟨s, is, -⟩ := scene.seen.thunk n _ (World.suspension?_eq_some.2 ⟨th, found, rfl⟩)
  exact ⟨s, is⟩

theorem value (held : (w.slot n).cell = some (.value v)) : ∃ x, H v = some (.value x) := by
  obtain ⟨x, found⟩ := Option.isSome_iff_exists.1 (scene.sound n v held)
  exact ⟨x, scene.seen.value v x found⟩

variable (follows : t.Follows H rule c₀)

include follows

/-! ## Requests -/

theorem evaluate (at' : t.control = .evaluate n) : (t.evaluate w n).2.Follows H rule c₀ := by
  have has : w.Has n := by simpa [at', Control.In] using scene.within
  cases free : (w.slot n).value? with
  | none =>
    obtain ⟨e, acts, realizes⟩ := realizes_evaluate rule (t := t) scene.seen has free
    exact follows.acts (by rw [at']; exact acts) realizes
  | some v =>
    have held := Slot.value?_eq_some.1 free
    obtain ⟨s, is⟩ := scene.thunk held
    obtain ⟨x, value⟩ := scene.value held
    obtain ⟨th, found⟩ := World.thunk_of_cell held
    rw [World.slot_of_thunk found] at free
    have turn : t.evaluate w n = (w, t.goto (.give v)) := by
      simp [Thread.evaluate, World.evaluated?, World.thunk?_eq_some.1 found, free]
    rw [turn]
    refine follows.goes rfl rfl ?_
    rw [at']
    exact Graph.reds_evaluate is value (scene.memoizes n v held)

theorem call {args : List Arg} (at' : t.control = .call n args) :
    (t.call w n args).2.Follows H rule c₀ := by
  have has : w.Has n := by
    have within := scene.within
    rw [at'] at within
    exact within.1
  have fits := scene.fits
  simp only [proceed, at'] at fits
  cases free : (w.slot n).value? with
  | none =>
    obtain ⟨e, acts, realizes⟩ := realizes_call scene.seen has free at' scene.interpreter fits
    exact follows.acts (by rw [at']; exact acts) realizes
  | some v =>
    have held := Slot.value?_eq_some.1 free
    obtain ⟨s, is⟩ := scene.thunk held
    obtain ⟨th, found⟩ := World.thunk_of_cell held
    rw [World.slot_of_thunk found] at free
    have turn : t.call w n args = (w, t.goto (.apply v args)) := by
      simp [Thread.call, World.thunk?_eq_some.1 found, free]
    rw [turn]
    refine follows.goes rfl rfl ?_
    rw [at']
    exact Graph.reds_call is (scene.memoizes n v held)

/-! ## Forcing -/

theorem force {claim : Bool} (at' : t.control = .force n claim) :
    (t.force w n claim).2.Faithful H rule c₀ := by
  unfold Thread.force
  split
  · refine .follows (follows.of_plain rfl ?_)
    rw [at']
    dsimp only [goto]
    split <;> rfl
  · rename_i v held
    refine .follows (follows.goes rfl rfl ?_)
    rw [at']
    exact scene.memoizes n v held
  · rename_i cell _ held
    split
    · rename_i own
      refine follows.loops (by rw [at']; rfl) ?_ rfl
      exact scene.owned n (by rw [at']; rfl) (by rw [at']; rfl) (by simp [Slot.ownedBy, held, own])
    · exact .follows (follows.of_plain rfl (by rw [at']; rfl))

theorem attach {claim : Bool} (at' : t.control = .attach n claim) :
    (t.attach w n claim).2.Faithful H rule c₀ := by
  have same : ∀ {c : Control}, c.plain = .force n false → (t.goto c).Faithful H rule c₀ :=
    fun plain => .follows (follows.of_plain rfl (by rw [at']; exact plain))
  have loop : ∀ {cell : Cell}, (w.slot n).cell = some cell → cell.owner? = some (t.me w) →
      (t.abort w (.loop n)).2.Faithful H rule c₀ := fun held own =>
    follows.loops (by rw [at']; rfl)
      (scene.owned n (by rw [at']; rfl) (by rw [at']; rfl) (by simp [Slot.ownedBy, held, own])) rfl
  unfold Thread.attach
  split
  · exact same rfl
  · exact same rfl
  · rename_i owner held
    split
    · rename_i own
      exact loop held (by rw [own]; rfl)
    · exact same rfl
  · exact .follows follows
  · rename_i q owner held
    split
    · rename_i own
      exact loop held (by rw [own]; rfl)
    · exact same rfl

theorem start {claim : Bool} (at' : t.control = .start n claim) :
    (t.start w n claim).2.Faithful H rule c₀ := by
  unfold Thread.start
  dsimp only
  split
  · exact .follows (follows.of_plain rfl (by rw [at']; rfl))
  · rename_i active
    exact follows.loops (by rw [at']; rfl) (scene.active n claim at' active) rfl

theorem body {claim : Bool} (at' : t.control = .body n claim) :
    (t.body w n claim).2.Follows H rule c₀ := by
  have has : w.Has n := by simpa [at', Control.In] using scene.within
  rcases t.body_cases w n claim with gone | ⟨s, fs, c, found, opening, runs⟩
  · rw [gone]
    exact follows.of_plain rfl (by rw [at']; rfl)
  · have cleared : s.cleared = false := by
      simpa [opening] using Suspension.opening?_isSome (s := s)
    obtain ⟨s', is, same⟩ := scene.seen.thunk n s found
    obtain rfl := same cleared
    have plain : c.plain = c ∧ ∀ f ∈ fs, f.thunk? = none := by
      unfold Suspension.opening? at opening
      split at opening <;> cases opening <;> exact ⟨rfl, by simp [Frame.thunk?]⟩
    have acts : H.act? rule (.force n false) = some (.go (fs ++ [.again]) c) := by
      simp [Graph.act?, is, opening]
    rw [runs]
    unfold Follows at follows ⊢
    rw [at'] at follows
    rw [Graph.Linked.append plain.2, plain.1]
    have opened : H.Red rule (.force n false, []) (c, (fs ++ [.again]) ++ []) :=
      Graph.red_go acts
    exact ⟨.single (by simpa [Frame.plain] using opened), follows⟩

theorem recheck {claim : Bool} (at' : t.control = .recheck n claim) :
    (t.recheck w n claim).2.Follows H rule c₀ := by
  unfold Thread.recheck
  split
  · rename_i both
    simp only [Bool.and_eq_true, Option.isNone_iff_eq_none] at both
    obtain ⟨th, there, cleared⟩ := (Option.any_eq_true _ _).1 both.2
    exact absurd both.1
      (scene.whole n _ (World.suspension?_eq_some.2 ⟨th, there, rfl⟩) cleared)
  · exact follows.of_plain rfl (by rw [at']; rfl)

/-! ## Results -/

theorem give (at' : t.control = .give n) : (t.give w n).2.Follows H rule c₀ := by
  have has : w.Has n := by simpa [at', Control.In] using scene.within
  have fits := scene.fits
  simp only [proceed, at'] at fits
  cases top : t.stack with
  | nil =>
    simp only [Thread.give, top]
    exact follows
  | cons f rest =>
    cases thunk : f.thunk? with
    | none =>
      obtain ⟨e, returns, realizes⟩ := realizes_give top thunk scene.seen has fits
      exact follows.returns at' top thunk returns realizes
    | some m =>
      unfold Follows at follows ⊢
      rw [top, at'] at follows
      cases f with
      | running m claim =>
        simp only [Thread.give, top, push, Graph.Linked]
        have again : H.return? n .again = some (.go [] (.evaluate n)) := rfl
        exact ⟨follows.1.tail (Graph.red_back again), follows.2⟩
      | settling m claim =>
        simp only [Thread.give, top, settle, plan]
        exact follows
      | leaving m =>
        simp only [Thread.give, top, goto]
        exact follows.pop .refl
      | _ => cases thunk

/-- A result that comes too late gives way to the one that is in the slot. -/
theorem update (at' : t.control = .update n v) : (t.update w n v).2.Follows H rule c₀ := by
  obtain ⟨rest, top⟩ := scene.tame.updates n (by rw [at']; rfl)
  unfold Thread.update
  split
  · rename_i winner known
    have held := Slot.value?_eq_some.1 known
    unfold Follows at follows ⊢
    rw [top, at'] at follows
    simp only [plan, top]
    refine ⟨?_, follows.2⟩
    rcases (scene.memoizes n winner held).cases_head with same | first
    · cases same
    · exact Relation.TransGen.head'_iff.2 first
  · exact follows.of_plain rfl (by rw [at']; rfl)

theorem proceeds : (t.proceed w).2.Faithful H rule c₀ := by
  have fits := scene.fits
  have pure := scene.pure
  have same : ∀ {x : Turn}, x.2.stack = t.stack → x.2.control.plain = t.control.plain →
      x.2.Faithful H rule c₀ := fun stack control => .follows (follows.of_plain stack control)
  unfold proceed at fits ⊢
  cases at' : t.control with
  | run c env =>
    rw [at'] at fits
    obtain ⟨e, runs, realizes⟩ := realizes_run at' pure scene.seen fits
    exact .follows (follows.acts (by rw [at']; exact runs) realizes)
  | perform p operands env =>
    rw [at'] at fits
    have within := scene.within
    rw [at'] at within
    have pure : p.isPure = true := by simpa [isPure, at'] using pure
    refine .follows (follows.acts ?_ (realizes_perform pure scene.seen within.1 fits))
    rw [at']
    exact if_pos pure
  | give n => exact .follows (scene.give follows at')
  | fail e => exact .follows (follows.fail at' pure)
  | unwind message => exact .follows (follows.unwind at')
  | evaluate n => exact .follows (scene.evaluate follows at')
  | enter n =>
    have has : w.Has n := by simpa [at', Control.In] using scene.within
    obtain ⟨e, acts, realizes⟩ := realizes_enter rule (t := t) scene.seen has
    exact .follows (follows.acts (by rw [at']; exact acts) realizes)
  | peek n other env => simp [isPure, at'] at pure
  | apply n args =>
    refine .follows (follows.acts (e := .next (.call n args)) (by rw [at']; rfl) ?_)
    exact ⟨[], .go, rfl, by simp⟩
  | call n args => exact .follows (scene.call follows at')
  | force n claim => exact scene.force follows at'
  | seize n seen | install n v seen | lock n claim owner seen | join n claim q owner | confirm x =>
    simp only [seize, install, lock, join, confirm]
    split <;> exact same rfl (by rw [at']; rfl)
  | start n claim => exact scene.start follows at'
  | body n claim => exact .follows (scene.body follows at')
  | recheck n claim => exact .follows (scene.recheck follows at')
  | update n v => exact .follows (scene.update follows at')
  | attach n claim => exact scene.attach follows at'
  | gather n claim owner lock | enrol x | retract x | suspend n claim =>
    exact same rfl (by rw [at']; rfl)
  | enlist x | enlisted x blocked =>
    simp only [enlist, detour]
    split
    · split <;> exact same rfl (by rw [at']; rfl)
    · exact same rfl (by rw [at']; rfl)
  | publish x blocked =>
    simp only [publish]
    split
    · split <;> exact same rfl (by rw [at']; rfl)
    · split
      · split <;> exact same rfl (by rw [at']; rfl)
      · exact same rfl (by rw [at']; rfl)
  | parked n claim =>
    simp only [park]
    split
    · exact same rfl (by rw [at']; rfl)
    · split
      · exact .follows follows
      · exact .refused rfl
  | probe op n | exchange n seen cell => simpa [at', Control.isAttempt] using scene.tame.attempts
  | register r n =>
    simp only [register]
    split
    · exact .follows follows
    · exact same rfl (by rw [at']; rfl)
  | revert r => simp [isPure, at'] at pure

omit follows in
theorem faithful (faithful : t.Faithful H rule c₀) : (t.proceed w).2.Faithful H rule c₀ := by
  cases faithful with
  | follows follows => exact scene.proceeds follows
  | @loops m at' diverges =>
    refine .loops (m := m) ?_ diverges
    simp only [proceed, at']
    exact (fail_eq at' scene.pure).1
  | refused at' =>
    refine .refused ?_
    simp only [proceed, at']
    exact (unwind_eq at').1

end Scene

end Thread

/-! ## Tame threads -/

theorem Control.not_attempt_of_isCalm {c : Control} (calm : c.isCalm) : c.isAttempt = false := by
  cases c <;> first | rfl | cases calm

theorem Control.updates?_of_isCalm {c : Control} (calm : c.isCalm) : c.updates? = none := by
  cases c <;> first | rfl | cases calm

theorem Thread.tame_of_isCalm (calm : t.control.isCalm) : t.Tame :=
  ⟨Control.not_attempt_of_isCalm calm,
    fun n is => by rw [Control.updates?_of_isCalm calm] at is; cases is⟩

theorem HostStep.tame (step : HostStep w t w' t') (pure : t.isPure = true) : t'.Tame := by
  cases step with
  | code _ _ _ _ calm | giveCode _ _ _ _ _ _ calm => exact Thread.tame_of_isCalm calm
  | blackHole => exact ⟨rfl, fun n is => by cases is⟩
  | attempt _ host => simp [Thread.isPure, host, Prim.isPure] at pure
  | update _ host => simp [Thread.isPure, host, Prim.isPure] at pure
  | giveSettling => exact ⟨rfl, fun n is => by cases is; exact ⟨_, rfl⟩⟩
  | dropCode _ exit _ _ caught =>
    refine Thread.tame_of_isCalm ?_
    rcases caught with rfl | ⟨code, env, rfl⟩
    · exact Control.isCalm_of_isExit exit
    · rfl
  | dropAgain _ exit | dropEvaluation _ exit | dropLeaving _ exit =>
    exact Thread.tame_of_isCalm (Control.isCalm_of_isExit exit)
  | _ => exact Thread.tame_of_isCalm rfl

theorem Step.tame (step : Step w t w' t') (pure : t.isPure = true) (tame : t.Tame) : t'.Tame := by
  have plain : t'.control.isAttempt = false → t'.control.updates? = none → t'.Tame :=
    fun attempts updates => ⟨attempts, fun n is => by rw [updates] at is; cases is⟩
  cases step with
  | stay => exact tame
  | errand step =>
    cases step with
    | refuse => exact plain rfl rfl
    | _ => exact ⟨tame.attempts, tame.updates⟩
  | host step => exact step.tame pure
  | forcing step =>
    cases step with
    | body _ _ _ calm => exact Thread.tame_of_isCalm calm
    | update _ at' | installMissed _ at' =>
      exact ⟨rfl, fun m is => by cases is; exact tame.updates _ (by rw [at']; rfl)⟩
    | _ => exact plain rfl rfl
  | waits step =>
    cases step with
    | proceed | published =>
      exact plain (by dsimp only; split <;> rfl) (by dsimp only; split <;> rfl)
    | asleep | busy => exact tame
    | _ => exact plain rfl rfl
  | attempt step =>
    have attempts := tame.attempts
    cases step with
    | probe _ at' | hopeless _ at' | exchanged _ at' | missed _ at' =>
      simp [at', Control.isAttempt] at attempts

end LazyGraph

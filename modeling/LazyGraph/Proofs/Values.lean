import LazyGraph.Proofs.Snapshots

/-!
# Slots hold values

A result reaches a slot only after it has been evaluated: under a frame that settles a thunk there is
nothing but the evaluation of its result, and under one that installs it nothing at all.
-/

namespace LazyGraph

def World.IsValue (w : World) (n : NodeId) : Prop :=
  (w.value? n).isSome

/-- Whether a thread that is about to update or overwrite a thunk hands over a value. -/
def Thread.handsValue (w : World) (t : Thread) : Bool :=
  match t.agenda, t.control with
  | [], .perform (.onThunk .set) (_ :: v :: _) _ | [], .perform (.onThunk .update) (_ :: v :: _) _ =>
    (w.value? v).isSome
  | _, _ => true

/-! ## How frames are nested -/

def Frame.isPlain : Frame → Bool
  | .settling _ _ | .leaving _ => false
  | _ => true

/-- Frame `f` can be directly above frame `g`. -/
def Frame.Over (f : Frame) : Frame → Prop
  | .settling _ _ => f = .again
  | .leaving _ => False
  | _ => True

def Nested : List Frame → Prop
  | [] => True
  | f :: rest => (∀ g ∈ rest.head?, f.Over g) ∧ Nested rest

/-- What a thread can be doing with a frame at the top of its stack. -/
def Frame.Expects (w : World) (c : Control) : Frame → Prop
  | .settling _ _ => c.isExit ∨ (∃ n, c = .evaluate n) ∨ ∃ v, c = .give v ∧ w.IsValue v
  | .leaving n => c.isExit ∨ (∃ v, c = .update n v) ∨ (∃ v seen, c = .install n v seen) ∨
    ∃ v, c = .give v ∧ w.IsValue v
  | _ => True

def Control.isInner : Control → Bool
  | .fail _ | .unwind _ | .evaluate _ | .give _ | .update _ _ | .install _ _ _ => false
  | _ => true

structure Bare (stack : List Frame) : Prop where
  nested : Nested stack
  top : ∀ f ∈ stack.head?, f.isPlain

variable {w w' : World} {t t' : Thread} {n v : NodeId} {f : Frame} {stack rest fs : List Frame}

theorem Frame.over_of_isPlain {g : Frame} (plain : g.isPlain) : f.Over g := by
  cases g <;> trivial

theorem Frame.expects_of_isPlain {c : Control} (plain : f.isPlain) : f.Expects w c := by
  cases f <;> trivial

theorem Frame.isPlain_of_isCode (code : f.isCode) : f.isPlain := by
  cases f <;> trivial

theorem Frame.Expects.installing {c c' : Control} (expects : f.Expects w c)
    (settled : ∀ n claim, ¬ Frame.Expects w c (.settling n claim))
    (next : ∀ n, Frame.Expects w c (.leaving n) → Frame.Expects w c' (.leaving n)) :
    f.Expects w c' := by
  cases f with
  | settling n claim => exact absurd expects (settled n claim)
  | leaving n => exact next n expects
  | _ => trivial

theorem Frame.expects_exit {c : Control} (exit : c.isExit) : f.Expects w c := by
  cases f <;> first | trivial | exact .inl exit

theorem Frame.isPlain_of_inner {c : Control} (inner : c.isInner) (expects : f.Expects w c) :
    f.isPlain := by
  cases f with
  | settling => cases c <;> simp_all [Expects, Control.isInner, Control.isExit]
  | leaving => cases c <;> simp_all [Expects, Control.isInner, Control.isExit]
  | _ => rfl

theorem Control.isInner_of_isCode {c : Control} (code : c.isCode) : c.isInner := by
  cases c <;> trivial

theorem Bare.cons (bare : Bare stack) (plain : f.isPlain) : Bare (f :: stack) where
  nested := ⟨fun g top => Frame.over_of_isPlain (bare.top g top), bare.nested⟩
  top := by simpa using plain

theorem Bare.append (bare : Bare stack) (code : ∀ f ∈ fs, f.isCode) : Bare (fs ++ stack) := by
  induction fs with
  | nil => exact bare
  | cons f fs ih =>
    have above := ih fun g known => code g (List.mem_cons_of_mem _ known)
    exact above.cons (Frame.isPlain_of_isCode (code f List.mem_cons_self))

theorem Nested.bare (nested : Nested (f :: rest)) (other : f ≠ .again) : Bare rest where
  nested := nested.2
  top g top := by
    have upon := nested.1 g top
    cases g <;> first | rfl | exact absurd upon other | exact absurd upon id

/-! ## Threads -/

structure Thread.Sound (w : World) (t : Thread) : Prop where
  overwrites : ∀ n v, .overwrite n (some v) ∈ t.agenda → w.IsValue v
  updates : ∀ n v, t.control = .update n v → w.IsValue v
  installs : ∀ n v seen, t.control = .install n v seen → w.IsValue v
  top : ∀ f ∈ t.stack.head?, f.Expects w t.control
  nested : Nested t.stack

def World.Sound (w : World) : Prop :=
  ∀ n v, (w.slot n).cell = some (.value v) → w.IsValue v

theorem World.Evolves.isValue (evolves : w.Evolves w') (known : w.IsValue v) : w'.IsValue v := by
  obtain ⟨value, found⟩ := Option.isSome_iff_exists.1 known
  exact Option.isSome_iff_exists.2 ⟨value, evolves.value v value found⟩

theorem Frame.Expects.evolve {c : Control} (evolves : w.Evolves w') (expects : f.Expects w c) :
    f.Expects w' c := by
  cases f with
  | settling =>
    rcases expects with exit | evaluate | ⟨v, is, known⟩
    · exact .inl exit
    · exact .inr (.inl evaluate)
    · exact .inr (.inr ⟨v, is, evolves.isValue known⟩)
  | leaving =>
    rcases expects with exit | update | install | ⟨v, is, known⟩
    · exact .inl exit
    · exact .inr (.inl update)
    · exact .inr (.inr (.inl install))
    · exact .inr (.inr (.inr ⟨v, is, evolves.isValue known⟩))
  | _ => trivial

theorem Thread.Sound.evolve (evolves : w.Evolves w') (sound : t.Sound w) : t.Sound w' where
  overwrites n v known := evolves.isValue (sound.overwrites n v known)
  updates n v at' := evolves.isValue (sound.updates n v at')
  installs n v seen at' := evolves.isValue (sound.installs n v seen at')
  top f known := (sound.top f known).evolve evolves
  nested := sound.nested

theorem Thread.Sound.bare (sound : t.Sound w) (inner : t.control.isInner) : Bare t.stack where
  nested := sound.nested
  top f known := Frame.isPlain_of_inner inner (sound.top f known)

theorem sound_of_bare (bare : Bare t.stack)
    (overwrites : ∀ n v, .overwrite n (some v) ∈ t.agenda → w.IsValue v)
    (updates : ∀ n v, t.control = .update n v → w.IsValue v)
    (installs : ∀ n v seen, t.control = .install n v seen → w.IsValue v) :
    t.Sound w where
  overwrites
  updates
  installs
  top f known := Frame.expects_of_isPlain (bare.top f known)
  nested := bare.nested

/-- A frame that waits for a value stands right on frames of code. -/
theorem sound_of_expects {rest : List Frame} (stack : t.stack = f :: rest) (bare : Bare rest)
    (expects : f.Expects w t.control)
    (overwrites : ∀ n v, .overwrite n (some v) ∈ t.agenda → w.IsValue v)
    (updates : ∀ n v, t.control = .update n v → w.IsValue v)
    (installs : ∀ n v seen, t.control = .install n v seen → w.IsValue v) :
    t.Sound w where
  overwrites
  updates
  installs
  top g known := by
    rw [stack] at known
    cases known
    exact expects
  nested := by
    rw [stack]
    exact ⟨fun g known => Frame.over_of_isPlain (bare.top g known), bare.nested⟩

theorem Control.calm_ne_update {c : Control} (calm : c.isCalm) : c ≠ .update n v := by
  rintro rfl
  cases calm

theorem Control.calm_ne_install {c : Control} {seen : Slot} (calm : c.isCalm) :
    c ≠ .install n v seen := by
  rintro rfl
  cases calm

/-! ## Steps -/

theorem Step.overwrites (step : Step w t w' t')
    (sets : ∀ n v, .overwrite n (some v) ∈ t.agenda → w.IsValue v)
    (hands : t.handsValue w = true) (n v : NodeId)
    (known : .overwrite n (some v) ∈ t'.agenda) : w.IsValue v := by
  rcases step.plans known with old | plans
  · exact sets n v old
  · cases plans with
    | plain plain => cases plain
    | set idle at' => simpa [Thread.handsValue, idle, at', World.IsValue] using hands

theorem Errand.sound (step : Errand w t w' t') (sound : t.Sound w)
    (sets : ∀ n v, .overwrite n (some v) ∈ t'.agenda → w.IsValue v) : t'.Sound w := by
  obtain ⟨stack, same | exit⟩ := step.frames
  · refine ⟨sets, same ▸ sound.updates, same ▸ sound.installs, ?_, stack ▸ sound.nested⟩
    rw [stack, same]
    exact sound.top
  · refine ⟨sets, ?_, ?_,
      fun f known => Frame.expects_exit exit, stack ▸ sound.nested⟩
    · intro n v is
      rw [is] at exit
      cases exit
    · intro n v seen is
      rw [is] at exit
      cases exit

theorem HostStep.sound (step : HostStep w t w' t') (sound : t.Sound w)
    (hands : t.handsValue w = true)
    (sets : ∀ n v, .overwrite n (some v) ∈ t'.agenda → w.IsValue v) : t'.Sound w := by
  have code : t.control.isCode → Bare t.stack := fun code =>
    sound.bare (Control.isInner_of_isCode code)
  obtain ⟨-, updates, installs, top, nested⟩ := sound
  cases step with
  | code idle host quiet frames calm =>
    exact sound_of_bare ((code host).append frames) sets
      (fun n v is => absurd is (Control.calm_ne_update calm))
      (fun n v seen is => absurd is (Control.calm_ne_install calm))
  | blackHole idle host | attempt idle host | abandon idle host | clear idle host
  | reset idle host | set idle host =>
    exact sound_of_bare (code (by rw [host]; rfl)) sets (by simp) (by simp)
  | update idle host =>
    refine sound_of_bare (code (by rw [host]; rfl)) sets ?_ (by simp)
    intro n v at'
    cases at'
    simpa [Thread.handsValue, idle, host, World.IsValue] using hands
  | revert idle host => exact sound_of_bare (code (by rw [host]; rfl)) sets (by simp) (by simp)
  | giveCode idle host at' kind quiet frames calm =>
    rw [at'] at nested
    have below : Bare _ := nested.bare (by rintro rfl; cases kind)
    exact sound_of_bare (below.append frames) sets
      (fun n v is => absurd is (Control.calm_ne_update calm))
      (fun n v seen is => absurd is (Control.calm_ne_install calm))
  | giveAgain idle host at' =>
    rw [at'] at nested
    refine ⟨sets, by simp, by simp, ?_, nested.2⟩
    intro f known
    have upon := nested.1 f known
    cases f with
    | settling => exact .inr (.inl ⟨_, rfl⟩)
    | leaving => exact absurd upon id
    | _ => trivial
  | giveRunning idle host at' =>
    rw [at'] at nested
    exact sound_of_expects rfl (nested.bare (by simp)) (.inr (.inl ⟨_, rfl⟩)) sets (by simp)
      (by simp)
  | giveSettling idle host at' =>
    rw [at'] at nested top
    have value := top _ rfl
    simp only [Frame.Expects, host, Control.isExit, Control.give.injEq, reduceCtorEq, exists_false,
      Bool.false_eq_true, false_or, exists_eq_left'] at value
    refine sound_of_expects rfl (nested.bare (by simp)) (.inr (.inl ⟨_, rfl⟩)) sets ?_ (by simp)
    intro n v is
    cases is
    exact value
  | giveLeaving idle host at' =>
    rw [at'] at nested
    exact sound_of_bare (nested.bare (by simp)) sets (by simp) (by simp)
  | dropCode idle exit at' kind caught =>
    rw [at'] at nested
    have below : Bare _ := nested.bare (by rintro rfl; cases kind)
    refine sound_of_bare below sets ?_ ?_
    · intro n v is
      rcases caught with rfl | ⟨code, env, rfl⟩
      · exact updates n v is
      · cases is
    · intro n v seen is
      rcases caught with rfl | ⟨code, env, rfl⟩
      · exact installs n v seen is
      · cases is
  | dropAgain idle exit at' =>
    rw [at'] at nested
    exact ⟨sets, updates, installs, fun f known => Frame.expects_exit exit, nested.2⟩
  | dropEvaluation idle exit at' kind =>
    rw [at'] at nested
    have below : Bare _ := nested.bare (by rintro rfl; simp at kind)
    exact sound_of_bare below sets updates installs
  | dropLeaving idle exit at' =>
    rw [at'] at nested
    exact sound_of_bare (nested.bare (by simp)) sets updates installs

theorem World.Sound.evaluated (shared : w.Sound) (known : w.evaluated? n = some v) :
    w.IsValue v := by
  unfold World.evaluated? at known
  split at known
  · rename_i value found
    cases known
    simp [World.IsValue, World.value?, found, Node.value?]
  · rename_i thunk found
    refine shared n v ?_
    rw [World.slot_of_thunk (World.thunk?_eq_some.2 found)]
    exact Slot.value?_eq_some.1 known
  · cases known

theorem Forcing.sound (step : Forcing w t w' t') (shared : w.Sound) (sound : t.Sound w)
    (sets : ∀ n v, .overwrite n (some v) ∈ t'.agenda → w.IsValue v) : t'.Sound w := by
  have inner : ∀ {c : Control}, t.control = c → c.isInner → Bare t.stack := fun is inner =>
    sound.bare (is ▸ inner)
  obtain ⟨-, updates, installs, top, nested⟩ := sound
  cases step with
  | evaluated idle at' known =>
    refine ⟨sets, by simp, by simp, ?_, nested⟩
    intro f there
    have expects := top f there
    cases f with
    | settling => exact .inr (.inr ⟨_, rfl, shared.evaluated known⟩)
    | leaving => simp [Frame.Expects, at', Control.isExit] at expects
    | _ => trivial
  | evaluate idle at' unknown =>
    refine ⟨sets, by simp, by simp, ?_, ?_, nested⟩
    · intro f there
      simp only [List.head?_cons, Option.mem_def, Option.some.injEq] at there
      subst there
      trivial
    · intro g there
      have expects := top g there
      cases g with
      | settling => rfl
      | leaving => simp [Frame.Expects, at', Control.isExit] at expects
      | _ => trivial
  | enter _ at' | enterFailed _ at' | take _ at' | share _ at' | done _ at' | loop _ at'
  | await _ at' | seized _ at' | seizeMissed _ at' | started _ at' | startLoop _ at'
  | released _ at' | recheckFailed _ at' | recheck _ at' =>
    exact sound_of_bare (inner at' rfl) sets (by simp) (by simp)
  | @body n claim fs c idle at' frames calm =>
    have below : Bare (.running n claim :: t.stack) := (inner at' rfl).cons rfl
    exact sound_of_bare (below.append frames) sets
      (fun n v is => absurd is (Control.calm_ne_update calm))
      (fun n v seen is => absurd is (Control.calm_ne_install calm))
  | updateLost idle at' held =>
    refine ⟨sets, by simp, by simp, fun f there => (top f there).installing ?_ ?_, nested⟩
    · simp [Frame.Expects, at', Control.isExit]
    · intro m upon
      exact .inr (.inr (.inr ⟨_, rfl, shared _ _ held⟩))
  | @update n v idle at' free =>
    refine ⟨sets, by simp, ?_,
      fun f there => (top f there).installing ?_ ?_, nested⟩
    · intro m x seen is
      cases is
      exact updates n v at'
    · simp [Frame.Expects, at', Control.isExit]
    · intro m upon
      simpa [Frame.Expects, at', Control.isExit] using upon
  | @installed n v seen e idle at' same =>
    refine ⟨sets, by simp, by simp, fun f there => (top f there).installing ?_ ?_, nested⟩
    · simp [Frame.Expects, at', Control.isExit]
    · intro m upon
      exact .inr (.inr (.inr ⟨_, rfl, installs n v seen at'⟩))
  | @installMissed n v seen idle at' =>
    refine ⟨sets, ?_, by simp,
      fun f there => (top f there).installing ?_ ?_, nested⟩
    · intro m x is
      cases is
      exact installs n v seen at'
    · simp [Frame.Expects, at', Control.isExit]
    · intro m upon
      simpa [Frame.Expects, at', Control.isExit] using upon

theorem Waits.sound (step : Waits w t w' t') (sound : t.Sound w)
    (sets : ∀ n v, .overwrite n (some v) ∈ t'.agenda → w.IsValue v) : t'.Sound w := by
  have inner : ∀ {c : Control}, t.control = c → c.isInner → Bare t.stack := fun is inner =>
    sound.bare (is ▸ inner)
  cases step with
  | busy => exact sound
  | asleep => exact sound
  | free _ at' | loop _ at' | lock _ at' | join _ at' | locked _ at' | lockMissed _ at'
  | gathered _ at' | joined _ at' | joinMissed _ at' | enlist _ at' | enrolled _ at'
  | confirmClosed _ at' | confirm _ at' | retract _ at' | enlisted _ at' | publishMissed _ at'
  | «suspend» _ at' | resumed _ at' | refuse _ at' =>
    exact sound_of_bare (inner at' rfl) sets (by simp) (by simp)
  | @proceed x blocked _ _ at' | @published x blocked _ _ _ at' =>
    exact sound_of_bare (inner at' rfl) sets (by cases blocked <;> simp)
      (by cases blocked <;> simp)

theorem Attempt.sound (step : Attempt w t w' t') (sound : t.Sound w)
    (sets : ∀ n v, .overwrite n (some v) ∈ t'.agenda → w.IsValue v) : t'.Sound w := by
  cases step with
  | probe _ at' | hopeless _ at' | exchanged _ at' | missed _ at' =>
    exact sound_of_bare (sound.bare (by rw [at']; rfl)) sets (by simp) (by simp)

theorem Step.threadSound (step : Step w t w' t') (shared : w.Sound) (sound : t.Sound w)
    (hands : t.handsValue w = true) : t'.Sound w' := by
  have sets := step.overwrites sound.overwrites hands
  refine Thread.Sound.evolve step.evolves ?_
  cases step with
  | stay => exact sound
  | errand step => exact step.sound sound sets
  | host step => exact step.sound sound hands sets
  | forcing step => exact step.sound shared sound sets
  | waits step => exact step.sound sound sets
  | attempt step => exact step.sound sound sets

/-! ## Where values in slots come from -/

theorem Step.value_origin (step : Step w t w' t') (noted : t.Noted)
    (held : (w'.slot n).cell = some (.value v)) :
    (w.slot n).cell = some (.value v) ∨ (∃ seen, t.control = .install n v seen) ∨
      .overwrite n (some v) ∈ t.agenda := by
  rcases step.cell_origin held with old | writes
  · exact .inl old
  · refine .inr ?_
    generalize is : some (Cell.value v) = cell at writes
    cases writes with
    | @overwrite n x as next =>
      cases x with
      | none => cases is
      | some x =>
        cases is
        exact .inr (by rw [next]; exact List.mem_cons_self)
    | installed at' =>
      cases is
      exact .inl ⟨_, at'⟩
    | exchanged at' =>
      have control := noted.control
      rw [at', ← is] at control
      rcases control.2 with none | lock | ⟨u, hole⟩
      · cases none
      · cases lock
      · cases hole
    | surrendered | seized | locked | published => cases is

theorem Step.worldSound (step : Step w t w' t') (noted : t.Noted) (shared : w.Sound)
    (sound : t.Sound w) : w'.Sound := by
  intro n v held
  refine step.evolves.isValue ?_
  rcases step.value_origin noted held with old | ⟨seen, at'⟩ | set
  · exact shared n v old
  · exact sound.installs n v seen at'
  · exact sound.overwrites n v set

/-- Hosts pass values only to updates and overwrites. -/
def Run.HandsValues (run : Run) : Prop :=
  ∀ k, ∀ t ∈ (run.state k).threads, t.handsValue (run.state k).world = true

theorem Run.sound (run : Run) (hands : run.HandsValues) (k : Nat) :
    (run.state k).world.Sound ∧ (run.state k).Each Thread.Sound := by
  refine run.always (P := fun s => s.world.Sound ∧ s.Each Thread.Sound) ⟨?_, ?_⟩ ?_ k
  · intro n v held
    simp [World.slot, World.thunk?, World.node?] at held
  · intro i t found
    simp at found
  · rintro k ⟨shared, each⟩
    have change := run.change k
    have noted := run.noted k
    have evolves := change.evolves
    refine ⟨?_, change.each each (fun t => Thread.Sound.evolve evolves) ?_ ?_⟩
    · revert change
      generalize run.state (k + 1) = after
      intro change
      cases change with
      | step at' step moved => exact step.worldSound (noted _ _ at') shared (each _ _ at')
      | quiet quiet =>
        intro n v held
        rw [quiet.slot n] at held
        exact quiet.toStill.evolves.isValue (shared n v held)
      | wake | start | seat => exact fun n v held => shared n v held
    · intro i t t' at' step
      exact step.threadSound shared (each i t at') (hands k t (Array.mem_of_getElem? at'))
    · intro t c env errands frames code
      refine ⟨by simp [errands], by simp [code], by simp [code], by simp [frames], ?_⟩
      rw [frames]
      trivial

end LazyGraph

import LazyGraph.Proofs.Registers

/-!
# Delivery by register

A call of an unboxed selector is followed from the request to the return. It writes the register if
and only if it gets as far as to select the field itself.
-/

namespace LazyGraph

def Control.calls? : Control → Option NodeId
  | .evaluate n | .enter n | .perform .blackHole (n :: _) _ => some n
  | _ => none

/-- How far a call of the selector `n` has come. `Asked` tells since when its producer is being
evaluated, `Kept` that the registers are as at the call, and `Wrote` that they are as its projection
left them. -/
inductive Delivery (n : NodeId) (kind : FieldKind) (base : List Frame)
    (Asked : Nat → NodeId → Bool → List Frame → Prop) (Kept Wrote : Prop) (w : World) :
    Control → List Frame → Prop
  | asked {c s} (near : Near n base s) (asks : c.calls? = some n) (kept : Kept) :
    Delivery n kind base Asked Kept Wrote w c s
  | forcing {c s} (near : Near n base s) (target : c.target? = some n) (kept : Kept) :
    Delivery n kind base Asked Kept Wrote w c s
  | selecting {c g index p claim s} (near : Near n base s) (asked : Asked index p claim s) :
    Delivery n kind base Asked Kept Wrote w c (g ++ .project kind index p :: .running n claim :: s)
  | boxed {c f v claim s} (near : Near n base s) (value : w.IsValue v) (set : Wrote)
    (at' : f = .running n claim ∧ c = .give v ∨
      f = .settling n claim ∧ (c = .evaluate v ∨ c = .give v)) :
    Delivery n kind base Asked Kept Wrote w c (f :: s)
  | updating {c s} (near : Near n base s) (updates : c.updates? = some n) (set : Wrote) :
    Delivery n kind base Asked Kept Wrote w c s
  | giving {c v s} (near : Near n base s) (value : w.IsValue v)
      (at' : c = .give v ∨ c = .evaluate v)
    (done : Kept ∨ Wrote) : Delivery n kind base Asked Kept Wrote w c s
  | failing {c s} (near : Near n base s) (exit : c.isExit) :
    Delivery n kind base Asked Kept Wrote w c s
  | dropping {c f claim s} (near : Near n base s) (exit : c.isExit)
    (frame : f = .running n claim ∨ f = .settling n claim) :
    Delivery n kind base Asked Kept Wrote w c (f :: s)

namespace Delivery

variable {n v : NodeId} {kind : FieldKind} {base s : List Frame}
  {Asked Asked' : Nat → NodeId → Bool → List Frame → Prop} {Kept Kept' Wrote Wrote' : Prop}
  {w w' : World} {c c' : Control}

theorem mono (delivery : Delivery n kind base Asked Kept Wrote w c s) (evolves : w.Evolves w')
    (asked : ∀ index p claim rest, Asked index p claim rest → Asked' index p claim rest)
    (kept : Kept → Kept') (set : Wrote → Wrote') :
    Delivery n kind base Asked' Kept' Wrote' w' c s := by
  cases delivery with
  | asked near asks still => exact .asked near asks (kept still)
  | forcing near target still => exact .forcing near target (kept still)
  | selecting near since => exact .selecting near (asked _ _ _ _ since)
  | boxed near value written at' => exact .boxed near (evolves.isValue value) (set written) at'
  | updating near updates written => exact .updating near updates (set written)
  | giving near value at' done => exact .giving near (evolves.isValue value) at' (done.imp kept set)
  | failing near exit => exact .failing near exit
  | dropping near exit frame => exact .dropping near exit frame

/-- Back with a value, the registers are as at the call or as the projection left them. -/
theorem done_of_back (delivery : Delivery n kind base Asked Kept Wrote w (.give v) s)
    (back : s.length = base.length) : Kept ∨ Wrote := by
  generalize at' : Control.give v = c at delivery
  cases delivery with
  | giving near value is done => exact done
  | asked near asks => simp [← at', Control.calls?] at asks
  | forcing near target => simp [← at', Control.target?] at target
  | updating near updates => simp [← at', Control.updates?] at updates
  | failing near exit | dropping near exit => simp [← at', Control.isExit] at exit
  | selecting near | boxed near =>
    have above := near.length_le
    simp only [List.length_append, List.length_cons] at back
    omega

theorem unwinds (delivery : Delivery n kind base Asked Kept Wrote w c s) (exit : c'.isExit) :
    Delivery n kind base Asked Kept Wrote w c' s := by
  cases delivery with
  | selecting near since => exact .selecting near since
  | boxed near value written at' => exact .dropping near exit (at'.imp And.left And.left)
  | dropping near _ frame => exact .dropping near exit frame
  | asked near | forcing near | updating near | giving near | failing near =>
    exact .failing near exit

end Delivery

/-! ## Steps -/

section

variable {n v : NodeId} {kind : FieldKind} {base : List Frame}
  {Asked Asked' : Nat → NodeId → Bool → List Frame → Prop} {Kept Kept' Wrote Wrote' : Prop}
  {w w' : World} {t t' : Thread} {source : Option (Nat × NodeId)}

theorem World.value?_of_thunk (thunk : (w.thunk? n).isSome) : w.value? n = none := by
  obtain ⟨th, found⟩ := Option.isSome_iff_exists.1 thunk
  simp [value?, thunk?_eq_some.1 found, Node.value?]

theorem World.value?_alloc (v : Value) : (w.alloc (.value v)).1.value? w.heap.size = some v := by
  simp [value?, node?_alloc, Node.value?]

theorem World.isValue_alloc (v : Value) : (w.alloc (.value v)).1.IsValue w.heap.size := by
  simp [IsValue, value?_alloc]

theorem Thread.step_blackHole {ns : List NodeId} {env : Env} (idle : t.agenda = [])
    (at' : t.control = .perform .blackHole (n :: ns) env) (thunk : (w.thunk? n).isSome) :
    t.step w = (w, t.goto (.force n true)) := by
  simp [step, idle, proceed, at', perform, World.value?_of_thunk thunk]

theorem Thread.step_exit_project {index : Nat} {p : NodeId} {rest : List Frame}
    (idle : t.agenda = [])
    (exit : t.control.isExit) (top : t.stack = .project kind index p :: rest) :
    t.step w = (w, { t with stack := rest }) := by
  cases at' : t.control <;> simp_all [step, proceed, fail, unwind, Control.isExit]

theorem Thread.step_exit_near {f : Frame} {rest : List Frame} (idle : t.agenda = [])
    (exit : t.control.isExit) (top : t.stack = f :: rest) (kind : f = .again ∨ f = .leaving n) :
    (t.step w).2 = { t with stack := rest } := by
  rcases kind with rfl | rfl <;>
    cases at' : t.control <;> simp_all [step, proceed, fail, unwind, Control.isExit]

theorem Thread.step_exit_running {f : Frame} {claim : Bool} {rest : List Frame}
    (idle : t.agenda = []) (exit : t.control.isExit) (top : t.stack = f :: rest)
    (kind : f = .running n claim ∨ f = .settling n claim) :
    (t.step w).2.control.isExit ∧ (t.step w).2.stack = rest := by
  rcases kind with rfl | rfl <;>
    cases at' : t.control <;> simp_all [step, proceed, fail, unwind, Control.isExit, plan]

/-- The thread looks for the value of `n`, or runs its code. -/
theorem target_delivery (idle : t.agenda = []) (target : t.control.target? = some n)
    (sound : w.Sound) (near : Near n base t.stack) (kept : Kept')
    (opens : ∀ gs claim, t.control = .body n claim →
      (t.step w).2.stack = gs ++ .running n claim :: t.stack →
      Delivery n kind base Asked' Kept' Wrote' (t.step w).1 (t.step w).2.control
        (t.step w).2.stack) :
    Delivery n kind base Asked' Kept' Wrote' (t.step w).1 (t.step w).2.control
      (t.step w).2.stack := by
  have step := step_cases w t
  rcases step.target_cases idle target with ⟨same, there | exit | ⟨v, gives, held⟩⟩ |
    ⟨gs, claim, body, runs⟩
  · rw [same]
    exact .forcing near there kept
  · rw [same]
    exact .failing near exit
  · rw [same, gives]
    exact .giving near (step.evolves.isValue (sound _ _ held)) (.inl rfl) (.inl kept)
  · exact opens gs claim body runs

theorem asked_delivery (idle : t.agenda = []) (asks : t.control.calls? = some n)
    (thunk : (w.thunk? n).isSome) (sound : w.Sound) (near : Near n base t.stack) (kept : Kept') :
    Delivery n kind base Asked' Kept' Wrote' (t.step w).1 (t.step w).2.control
      (t.step w).2.stack := by
  have step := step_cases w t
  have value : ∀ {v}, w.evaluated? n = some v → (t.step w).1.IsValue v := fun known =>
    step.evolves.isValue (sound.evaluated known)
  cases at' : t.control with
  | evaluate m =>
    obtain rfl : m = n := by simpa [at', Control.calls?] using asks
    rcases step.evaluate_cases idle at' with
      ⟨same, stays⟩ | ⟨v, same, gives, known⟩ | ⟨pushed, enters, -⟩
    · rw [same, stays]
      exact .asked near rfl kept
    · rw [same, gives]
      exact .giving near (value known) (.inl rfl) (.inl kept)
    · rw [pushed, enters]
      exact .asked (near.push (.inl rfl)) rfl kept
  | enter m =>
    obtain rfl : m = n := by simpa [at', Control.calls?] using asks
    refine target_delivery idle (by rw [at']; rfl) sound near kept fun gs claim body _ => ?_
    rw [at'] at body
    cases body
  | perform q ns env =>
    obtain ⟨rfl, ns, rfl⟩ : q = .blackHole ∧ ∃ ms, ns = n :: ms := by
      rw [at'] at asks
      unfold Control.calls? at asks
      split at asks <;> simp_all
    rw [Thread.step_blackHole idle at' thunk]
    exact .forcing near rfl kept
  | _ => simp [at', Control.calls?] at asks

theorem forcing_delivery (idle : t.agenda = []) (target : t.control.target? = some n)
    (known : w.suspension? n = some (.selector kind source)) (sound : w.Sound)
    (near : Near n base t.stack) (kept : Kept')
    (opens : ∀ index p claim, (t.step w).2.agenda = [] → source = some (index, p) →
      (t.step w).2.control = .evaluate p →
      (t.step w).2.stack = .project kind index p :: .running n claim :: t.stack →
      Asked' index p claim t.stack) :
    Delivery n kind base Asked' Kept' Wrote' (t.step w).1 (t.step w).2.control
      (t.step w).2.stack := by
  refine target_delivery idle target sound near kept fun gs claim body runs => ?_
  have is : t.step w = t.body w n claim := by simp [Thread.step, idle, Thread.proceed, body]
  cases source with
  | none =>
    rw [is, Thread.body_of_cleared known rfl] at runs
    have longer := congrArg List.length runs
    simp [Thread.plan] at longer
    omega
  | some source =>
    obtain ⟨index, p⟩ := source
    rw [is, Thread.body_of_opening known rfl] at opens ⊢
    exact .selecting (g := []) near (opens index p claim idle rfl rfl rfl)

theorem selecting_delivery {index : Nat} {p : NodeId} {claim : Bool} {g rest : List Frame}
    (idle : t.agenda = [])
    (stack : t.stack = g ++ .project kind index p :: .running n claim :: rest)
    (unboxed : kind ≠ .pointer) (near : Near n base rest)
    (asked : t.isBackAt (rest.length + 2) = false → Asked' index p claim rest)
    (selects : ∀ x s, t.Projects kind index p x (.running n claim :: rest) →
      w.select kind index p x = .ok (.scalar s) → Wrote') :
    Delivery n kind base Asked' Kept' Wrote' (t.step w).1 (t.step w).2.control
      (t.step w).2.stack := by
  have step := step_cases w t
  by_cases back : t.isBackAt (rest.length + 2) = true
  · obtain ⟨top, gives | exit⟩ : t.stack = .project kind index p :: .running n claim :: rest ∧
        ((∃ x, t.control = .give x) ∨ t.control.isExit) := by
      have none : g = [] := by
        simp only [Thread.isBackAt, stack, List.length_append, List.length_cons, Bool.and_eq_true,
          beq_iff_eq] at back
        exact List.length_eq_zero_iff.1 (by omega)
      refine ⟨by rw [stack, none, List.nil_append], ?_⟩
      cases at' : t.control <;> simp_all [Thread.isBackAt, Control.isExit]
    · obtain ⟨x, gives⟩ := gives
      have projects : t.Projects kind index p x (.running n claim :: rest) := ⟨idle, gives, top⟩
      rw [projects.step]
      cases field : w.select kind index p x with
      | error e => exact .dropping near rfl (.inl rfl)
      | ok f =>
        cases f with
        | pointer m => exact absurd (World.kind_of_select field).symm unboxed
        | scalar s =>
          exact .boxed near (World.isValue_alloc _) (selects x s projects field) (.inl ⟨rfl, rfl⟩)
    · have is : t.step w = (w, { t with stack := .running n claim :: rest }) :=
        Thread.step_exit_project idle exit top
      rw [is]
      exact .dropping near exit (.inl rfl)
  · obtain ⟨fs, above⟩ : ∃ fs,
        (t.step w).2.stack = fs ++ .project kind index p :: .running n claim :: rest :=
      step.above (by simpa using back) ⟨g, stack⟩
    rw [above]
    exact .selecting near (asked (by simpa using back))

theorem boxed_delivery {f : Frame} {claim : Bool} {rest : List Frame} (idle : t.agenda = [])
    (stack : t.stack = f :: rest) (near : Near n base rest) (value : w.IsValue v) (set : Wrote')
    (at' : f = .running n claim ∧ t.control = .give v ∨
      f = .settling n claim ∧ (t.control = .evaluate v ∨ t.control = .give v)) :
    Delivery n kind base Asked' Kept' Wrote' (t.step w).1 (t.step w).2.control
      (t.step w).2.stack := by
  rcases at' with ⟨rfl, gives⟩ | ⟨rfl, evaluates | gives⟩
  · have is : t.step w =
        (w, { t with control := .evaluate v, stack := .settling n claim :: rest }) := by
      simp [Thread.step, idle, Thread.proceed, gives, Thread.give, stack, Thread.push]
    rw [is]
    exact .boxed near value set (.inr ⟨rfl, .inl rfl⟩)
  · have is : t.step w = (w, { t with control := .give v }) := by
      simp [Thread.step, idle, Thread.proceed, evaluates, Thread.evaluate,
        World.evaluated?_of_value value, Thread.goto]
    rw [is, stack]
    exact .boxed near value set (.inr ⟨rfl, .inr rfl⟩)
  · have is : t.step w = (w, ({ t with stack := .leaving n :: rest } : Thread).settle n v) := by
      simp [Thread.step, idle, Thread.proceed, gives, Thread.give, stack]
    rw [is]
    exact .updating (near.push (.inr rfl)) rfl set

theorem updating_delivery (idle : t.agenda = []) (updates : t.control.updates? = some n)
    (thunk : (w.thunk? n).isSome) (sound : w.Sound) (sound' : (t.step w).1.Sound)
    (near : Near n base t.stack) (set : Wrote') :
    Delivery n kind base Asked' Kept' Wrote' (t.step w).1 (t.step w).2.control
      (t.step w).2.stack := by
  have step := step_cases w t
  obtain ⟨same, there | ⟨v, gives, held⟩⟩ := step.update_cases idle updates thunk
  · rw [same]
    exact .updating near there set
  · rw [same, gives]
    refine .giving near ?_ (.inl rfl) (.inr set)
    exact held.elim (fun held => step.evolves.isValue (sound _ _ held)) (sound' _ _)

theorem giving_delivery (idle : t.agenda = []) (near : Near n base t.stack)
    (away : t.isBackAt base.length = false) (value : w.IsValue v)
    (at' : t.control = .give v ∨ t.control = .evaluate v) (done : Kept' ∨ Wrote') :
    Delivery n kind base Asked' Kept' Wrote' (t.step w).1 (t.step w).2.control
      (t.step w).2.stack := by
  rcases at' with gives | evaluates
  · obtain ⟨gs, stack, all⟩ := near
    cases gs with
    | nil => simp [Thread.isBackAt, idle, stack, gives] at away
    | cons g gs =>
      have below : Near n base (gs ++ base) :=
        ⟨gs, rfl, fun g known => all g (List.mem_cons_of_mem _ known)⟩
      rcases all g List.mem_cons_self with rfl | rfl
      · have is : t.step w = (w, { t with control := .evaluate v, stack := gs ++ base }) := by
          simp [Thread.step, idle, Thread.proceed, gives, Thread.give, stack, Thread.goto]
        rw [is]
        exact .giving below value (.inr rfl) done
      · have is : t.step w = (t.leave w n, { t with control := .give v, stack := gs ++ base }) := by
          simp [Thread.step, idle, Thread.proceed, gives, Thread.give, stack, Thread.goto,
            Thread.leave]
        rw [is]
        exact .giving below ((World.still_leave t n).evolves.isValue value) (.inl rfl) done
  · have is : t.step w = (w, { t with control := .give v }) := by
      simp [Thread.step, idle, Thread.proceed, evaluates, Thread.evaluate,
        World.evaluated?_of_value value, Thread.goto]
    rw [is]
    exact .giving near value (.inl rfl) done

theorem failing_delivery (idle : t.agenda = []) (near : Near n base t.stack)
    (away : t.isBackAt base.length = false) (exit : t.control.isExit) :
    Delivery n kind base Asked' Kept' Wrote' (t.step w).1 (t.step w).2.control
      (t.step w).2.stack := by
  obtain ⟨gs, stack, all⟩ := near
  cases gs with
  | nil => cases at' : t.control <;> simp_all [Thread.isBackAt, Control.isExit]
  | cons g gs =>
    rw [Thread.step_exit_near idle exit stack (all g List.mem_cons_self)]
    exact .failing ⟨gs, rfl, fun g known => all g (List.mem_cons_of_mem _ known)⟩ exit

theorem dropping_delivery {f : Frame} {claim : Bool} {rest : List Frame} (idle : t.agenda = [])
    (stack : t.stack = f :: rest) (near : Near n base rest) (exit : t.control.isExit)
    (frame : f = .running n claim ∨ f = .settling n claim) :
    Delivery n kind base Asked' Kept' Wrote' (t.step w).1 (t.step w).2.control
      (t.step w).2.stack := by
  obtain ⟨leaves, below⟩ := Thread.step_exit_running (w := w) idle exit stack frame
  rw [below]
  exact .failing near leaves

/-- No projection is due. -/
def Thread.Calm (t : Thread) : Prop :=
  ∀ kind index p x rest, ¬ t.Projects kind index p x rest

theorem Thread.calm_of_control (other : ∀ x, t.control ≠ .give x) : t.Calm :=
  fun _ _ _ x _ projects => other x projects.gives

theorem Thread.calm_of_top {f : Frame} {rest : List Frame} (top : t.stack = f :: rest)
    (other : ∀ kind index p, f ≠ .project kind index p) : t.Calm := by
  intro kind index p x below projects
  exact other kind index p (List.cons.inj (top.symm.trans projects.top)).1

theorem Thread.calm_of_near (near : Near n base t.stack) (away : t.isBackAt base.length = false) :
    t.Calm := by
  intro kind index p x below projects
  obtain ⟨gs, stack, all⟩ := near
  cases gs with
  | nil => simp [Thread.isBackAt, projects.idle, projects.gives, stack] at away
  | cons g gs =>
    rw [projects.top] at stack
    obtain ⟨rfl, -⟩ := List.cons.inj stack
    rcases all _ List.mem_cons_self with is | is <;> cases is

theorem Delivery.step (delivery : Delivery n kind base Asked Kept Wrote w t.control t.stack)
    (away : t.isBackAt base.length = false) (unboxed : kind ≠ .pointer)
    (known : w.suspension? n = some (.selector kind source)) (sound : w.Sound)
    (sound' : (t.step w).1.Sound) (keeps : t.Calm → Kept → Kept') (sets : t.Calm → Wrote → Wrote')
    (opens : ∀ index p claim, (t.step w).2.agenda = [] → source = some (index, p) →
      (t.step w).2.control = .evaluate p →
      (t.step w).2.stack = .project kind index p :: .running n claim :: t.stack →
      Asked' index p claim t.stack)
    (asked : ∀ index p claim rest, t.isBackAt (rest.length + 2) = false →
      Asked index p claim rest → Asked' index p claim rest)
    (selects : ∀ index p claim rest x s, t.Projects kind index p x (.running n claim :: rest) →
      w.select kind index p x = .ok (.scalar s) → Near n base rest → Asked index p claim rest →
        Wrote') :
    Delivery n kind base Asked' Kept' Wrote' (t.step w).1 (t.step w).2.control
      (t.step w).2.stack := by
  have thunk := World.thunk?_of_suspension? known
  cases next : t.agenda with
  | cons a as =>
    have calm : t.Calm := fun _ _ _ _ _ projects => by simp [projects.idle] at next
    have busy : ∀ depth, t.isBackAt depth = false := fun depth => by simp [Thread.isBackAt, next]
    have after := delivery.mono (step_cases w t).evolves
      (fun index p claim rest => asked index p claim rest (busy _)) (keeps calm) (sets calm)
    obtain ⟨stack, same | exit⟩ := (step_cases w t).frames_of_busy (by simp [next])
    · rwa [stack, same]
    · rw [stack]
      exact after.unwinds exit
  | nil =>
    generalize at' : t.control = c at delivery
    generalize stack : t.stack = s at delivery
    cases delivery with
    | asked near asks kept =>
      have calm : t.Calm := Thread.calm_of_control fun x is => by
        simp [← at', is, Control.calls?] at asks
      exact asked_delivery next (at' ▸ asks) thunk sound (stack ▸ near) (keeps calm kept)
    | forcing near target kept =>
      have calm : t.Calm := Thread.calm_of_control fun x is => by
        simp [← at', is, Control.target?] at target
      exact forcing_delivery next (at' ▸ target) known sound (stack ▸ near) (keeps calm kept) opens
    | selecting near since =>
      exact selecting_delivery next stack unboxed near (fun away => asked _ _ _ _ away since)
        fun x s projects field => selects _ _ _ _ x s projects field near since
    | boxed near value set is =>
      have calm : t.Calm := Thread.calm_of_top stack (by
        rintro kind index p rfl
        simp at is)
      exact boxed_delivery next stack near value (sets calm set) (at' ▸ is)
    | updating near updates set =>
      have calm : t.Calm := Thread.calm_of_control fun x is => by
        simp [← at', is, Control.updates?] at updates
      exact updating_delivery next (at' ▸ updates) thunk sound sound' (stack ▸ near) (sets calm set)
    | giving near value is done =>
      have calm := Thread.calm_of_near (stack ▸ near) away
      exact giving_delivery next (stack ▸ near) away value (at' ▸ is)
        (done.imp (keeps calm) (sets calm))
    | failing near exit => exact failing_delivery next (stack ▸ near) away (at' ▸ exit)
    | dropping near exit frame => exact dropping_delivery next stack near (at' ▸ exit) frame

end

def Suspension.selects (s : Suspension) (kind : FieldKind) (source : Option (Nat × NodeId)) :
    Bool :=
  match s with
  | .selector k x => k == kind && x == source
  | _ => false

theorem suspension_of_any {w : World} {n : NodeId} {kind : FieldKind}
    {source : Option (Nat × NodeId)} (selects : (w.suspension? n).any (·.selects kind source)) :
    w.suspension? n = some (.selector kind source) := by
  obtain ⟨s, found, selects⟩ := (Option.any_eq_true _ _).1 selects
  rw [found]
  cases s <;> simp_all [Suspension.selects]

theorem caller_of_any {s : State} {i : ThreadId} {n : NodeId} {c : ContextId}
    (asks : (s.threads[i]?).any fun t =>
      t.control.calls? == some n && t.stack.length == 0 && t.context == c) :
    ∃ t, s.threads[i]? = some t ∧ t.control.calls? = some n ∧ t.stack.length = 0 ∧
      t.context = c := by
  simp only [Option.any_eq_true, Bool.and_eq_true, beq_iff_eq] at asks
  obtain ⟨t, found, ⟨asks, height⟩, context⟩ := asks
  exact ⟨t, found, asks, height, context⟩

/-! ## Runs -/

namespace Run

/-- Since time `l`, thread `i` evaluates the producer `p` of the selector `n`. -/
structure Opens (run : Run) (i : ThreadId) (n : NodeId) (kind : FieldKind) (index : Nat)
    (p : NodeId) (claim : Bool) (rest : List Frame) (l k : Nat) : Prop where
  le : l ≤ k
  asked : ∃ u, (run.state l).threads[i]? = some u ∧ u.agenda = [] ∧ u.control = .evaluate p ∧
    u.stack = .project kind index p :: .running n claim :: rest
  away : ∀ j < k, l ≤ j → run.move j = .step i →
    ((run.state j).threads[i]?).any (·.isBackAt (rest.length + 2)) = false

/-- Thread `i` has evaluated the producer of the selector `n` from time `l` on, and at time `m` it
selects the field `s` of the constructor that it got. -/
structure Selects (run : Run) (i : ThreadId) (n : NodeId) (kind : FieldKind) (index : Nat)
    (p : NodeId) (claim : Bool) (rest : List Frame) (s : Scalar) (l m : Nat) : Prop
    extends run.Opens i n kind index p claim rest l m where
  turn : run.move m = .step i
  selects : ∃ u x, (run.state m).threads[i]? = some u ∧
    u.Projects kind index p x (.running n claim :: rest) ∧
    (run.state m).world.select kind index p x = .ok (.scalar s)

variable {run : Run} {i : ThreadId} {n p : NodeId} {kind : FieldKind} {index a b k l : Nat}
  {claim : Bool} {rest : List Frame} {source : Option (Nat × NodeId)} {t : Thread}

theorem Opens.succ (opens : run.Opens i n kind index p claim rest l k)
    (away : run.move k = .step i →
      ((run.state k).threads[i]?).any (·.isBackAt (rest.length + 2)) = false) :
    run.Opens i n kind index p claim rest l (k + 1) := by
  refine ⟨Nat.le_succ_of_le opens.le, opens.asked, fun j lt low turn => ?_⟩
  rcases Nat.lt_succ_iff_lt_or_eq.1 lt with before | rfl
  · exact opens.away j before low turn
  · exact away turn

/-- The registers of context `c` at time `k`. -/
def registers (run : Run) (k : Nat) (c : ContextId) : Registers :=
  ((run.state k).world.context c).registers

/-- From time `a` to time `k`, thread `i` has projected nothing. -/
def Refrains (run : Run) (i : ThreadId) (a k : Nat) : Prop :=
  ∀ m < k, a ≤ m → run.move m = .step i → ∀ u, (run.state m).threads[i]? = some u → u.Calm

theorem Refrains.succ (refrains : run.Refrains i a k)
    (calm : run.move k = .step i → ∀ u, (run.state k).threads[i]? = some u → u.Calm) :
    run.Refrains i a (k + 1) := by
  intro m lt low
  rcases Nat.lt_succ_iff_lt_or_eq.1 lt with before | rfl
  · exact refrains m before low
  · exact calm

theorem delivery (hands : run.HandsValues) (whole : run.Whole)
    (found : (run.state a).threads[i]? = some t) (asks : t.control.calls? = some n)
    (known : (run.state a).world.suspension? n = some (.selector kind source))
    (unboxed : kind ≠ .pointer) (calls : run.Calls i a b t.stack.length) (le : a ≤ k)
    (le' : k ≤ b) :
    ∃ u, (run.state k).threads[i]? = some u ∧ u.context = t.context ∧
      Delivery n kind t.stack
        (fun index p claim rest => source = some (index, p) ∧
          ∃ l, a ≤ l ∧ run.Opens i n kind index p claim rest l k)
        (run.registers k t.context = run.registers a t.context ∧ run.Refrains i a k)
        (∃ index p claim rest s l m, source = some (index, p) ∧ a ≤ l ∧ m < k ∧
          Near n t.stack rest ∧ run.Selects i n kind index p claim rest s l m ∧
          run.registers k t.context = (run.registers m t.context).write s)
        (run.state k).world u.control u.stack := by
  induction le with
  | refl =>
    exact ⟨t, found, rfl, .asked (Near.refl _) asks ⟨rfl, fun m lt low => absurd lt (by omega)⟩⟩
  | @step k le ih =>
    obtain ⟨u, there, context, delivery⟩ := ih (Nat.le_of_succ_le le')
    obtain ⟨u', there', runs⟩ := calls.runs le le'
    obtain rfl : u = u' := Option.some.inj (there.symm.trans there')
    have away : u.isBackAt t.stack.length = false := by
      simpa [there] using calls.away k le' le
    have same : (run.move k = .step i → u.Calm) →
        run.registers (k + 1) t.context = run.registers k t.context := fun calm => by
      rw [registers, registers, ← context]
      exact registers_succ there runs calm
    have refrains : (run.move k = .step i → u.Calm) → run.Refrains i a k →
        run.Refrains i a (k + 1) :=
      fun calm before => before.succ fun turn v found => by
        rw [there] at found
        cases found
        exact calm turn
    by_cases turn : run.move k = .step i
    · obtain ⟨world, after⟩ := own_step turn there
      refine ⟨_, after, (step_cases _ u).context.trans context, ?_⟩
      obtain ⟨source', at', origin⟩ : ∃ source', (run.state k).world.suspension? n =
          some (.selector kind source') ∧ ∀ x, source' = some x → source = some x := by
        rcases run.suspension_kept whole le known with kept | cleared
        · exact ⟨source, kept, fun _ => id⟩
        · exact ⟨none, cleared, nofun⟩
      rw [world]
      refine delivery.step away unboxed at' (run.sound hands k).1
        (world ▸ (run.sound hands (k + 1)).1) ?_ ?_ ?_ ?_ ?_
      · exact fun calm kept => ⟨(same fun _ => calm).trans kept.1, refrains (fun _ => calm) kept.2⟩
      · rintro calm ⟨index, p, claim, rest, s, l, m, is, low, lt, near, selects, set⟩
        exact ⟨index, p, claim, rest, s, l, m, is, low, Nat.lt_succ_of_lt lt, near, selects,
          (same fun _ => calm).trans set⟩
      · intro index p claim idle is evaluates stack
        exact ⟨origin _ is, k + 1, Nat.le_succ_of_le le, Nat.le_refl _, ⟨_, after, idle, evaluates,
          stack⟩, fun j lt low => absurd lt (by omega)⟩
      · rintro index p claim rest away ⟨is, l, low, opens⟩
        exact ⟨is, l, low, opens.succ fun _ => by simpa [there] using away⟩
      · rintro index p claim rest x s projects field near ⟨is, l, low, opens⟩
        refine ⟨index, p, claim, rest, s, l, k, is, low, Nat.lt_succ_self k, near,
          ⟨opens, turn, u, x, there, projects, field⟩, ?_⟩
        have seated := (run.seats k).seated i u there
        rw [registers, registers, world, ← context, projects.registers field seated]
    · have calm : run.move k = .step i → u.Calm := fun is => absurd is turn
      obtain ⟨u', after, control, stack, seat⟩ : ∃ u', (run.state (k + 1)).threads[i]? = some u' ∧
          u'.control = u.control ∧ u'.stack = u.stack ∧ u'.context = u.context := by
        rcases not_own_step turn there with stays | ⟨g, as, -, -, stays⟩
        · exact ⟨u, stays, rfl, rfl, rfl⟩
        · exact ⟨_, stays, rfl, rfl, rfl⟩
      refine ⟨u', after, seat.trans context, ?_⟩
      rw [control, stack]
      refine delivery.mono (run.change k).evolves ?_ ?_ ?_
      · rintro index p claim rest ⟨is, l, low, opens⟩
        exact ⟨is, l, low, opens.succ fun is => absurd is turn⟩
      · exact fun kept => ⟨(same calm).trans kept.1, refrains calm kept.2⟩
      · rintro ⟨index, p, claim, rest, s, l, m, is, low, lt, near, selects, set⟩
        exact ⟨index, p, claim, rest, s, l, m, is, low, Nat.lt_succ_of_lt lt, near, selects,
          (same calm).trans set⟩

/-- **Delivery by register.** A call of an unboxed selector that returns a value has selected the
field itself, and the register of its kind holds this field at the return; or it has projected
nothing, and all registers are as they were at the call. -/
theorem selector_delivers (run : Run) (hands : run.HandsValues) (whole : run.Whole) (i : ThreadId)
    (t : Thread) (n r : NodeId) (kind : FieldKind) (source : Option (Nat × NodeId)) (a b : Nat)
    (unboxed : kind ≠ .pointer) (found : (run.state a).threads[i]? = some t)
    (asks : t.control.calls? = some n) (calls : run.Calls i a b t.stack.length)
    (known : (run.state a).world.suspension? n = some (.selector kind source))
    (returned : ((run.state b).threads[i]?).any (·.gives r)) :
    (∃ index p claim rest s l m, source = some (index, p) ∧ a ≤ l ∧ m < b ∧ Near n t.stack rest ∧
      run.Selects i n kind index p claim rest s l m ∧
      run.registers b t.context = (run.registers m t.context).write s ∧
      (run.registers b t.context).read? kind = some s) ∨
    run.registers b t.context = run.registers a t.context ∧ run.Refrains i a b := by
  obtain ⟨u, there, -, delivery⟩ :=
    delivery hands whole found asks known unboxed calls calls.le (Nat.le_refl b)
  obtain ⟨u', there', -, -, -, stack⟩ := calls.returned found
  obtain rfl : u = u' := Option.some.inj (there.symm.trans there')
  have gives : u.control = .give r := by
    rw [there, Option.any_some] at returned
    exact Thread.control_of_gives returned
  rw [gives] at delivery
  rcases delivery.done_of_back (congrArg List.length stack) with kept | set
  · exact .inr kept
  · obtain ⟨index, p, claim, rest, s, l, m, is, low, lt, near, selects, set⟩ := set
    refine .inl ⟨index, p, claim, rest, s, l, m, is, low, lt, near, selects, set, ?_⟩
    obtain ⟨-, -, v, x, -, -, field⟩ := selects
    rw [set]
    exact Registers.read?_write (World.kind_of_select field)

/-- Two selectors are evaluated in one context, and then the first one once more. -/
def reselecting : Run :=
  .ofMoves {}
    ([.build (.data 1 [.scalar (.int 3)]), .build (.data 1 [.scalar (.int 5)]),
      .suspend (.selector .int (some (0, 0))), .suspend (.selector .int (some (0, 1))), .sit false,
      .evaluate 0 2] ++ List.replicate 30 (.step 0) ++ [.evaluate 0 3] ++
      List.replicate 30 (.step 1) ++ [.evaluate 0 2] ++ List.replicate 10 (.step 2))
    (by decide +kernel)

theorem selector_delivers_reselecting :
    ∃ t, (reselecting.state 10).threads[0]? = some t ∧ t.control.calls? = some 2 ∧
      reselecting.Calls 0 10 28 t.stack.length ∧
      (reselecting.state 10).world.suspension? 2 = some (.selector .int (some (0, 0))) ∧
      ((reselecting.state 28).threads[0]?).any (·.gives 4) ∧
      (∃ claim rest l m, reselecting.Selects 0 2 .int 0 0 claim rest (.int 3) l m) ∧
      (reselecting.registers 28 t.context).read? .int = some (.int 3) := by
  have hands : reselecting.HandsValues :=
    ofMoves_forall (P := fun s => ∀ t ∈ s.threads, t.handsValue s.world = true) (by decide +kernel)
  have whole : reselecting.Whole := ofMoves_all rfl (by decide +kernel)
  obtain ⟨t, found, asks, height, context⟩ := caller_of_any (i := 0)
    (s := reselecting.state 10) (n := 2) (c := 0) (by decide +kernel)
  have calls : reselecting.Calls 0 10 28 t.stack.length := by
    rw [height]
    exact ⟨by decide, by decide +kernel, by decide +kernel, by decide +kernel⟩
  have known : (reselecting.state 10).world.suspension? 2 = some (.selector .int (some (0, 0))) :=
    suspension_of_any (by decide +kernel)
  have gives : ((reselecting.state 28).threads[0]?).any (·.gives 4) = true := by decide +kernel
  have before : (reselecting.registers 10 0).int = 0 := by decide +kernel
  have after : (reselecting.registers 28 0).read? .int = some (.int 3) := by decide +kernel
  rw [← context] at before after
  refine ⟨t, found, asks, calls, known, gives, ?_, after⟩
  rcases selector_delivers reselecting hands whole 0 t 2 4 .int (some (0, 0)) 10 28 (by decide)
    found asks calls known gives with
    ⟨index, p, claim, rest, s, l, m, is, -, -, -, selects, -, set⟩ | ⟨kept, -⟩
  · cases is
    rw [after] at set
    cases set
    exact ⟨claim, rest, l, m, selects⟩
  · rw [kept] at after
    simp [Registers.read?, before] at after

/-- The second evaluation of the first selector leaves the other field in the register. -/
theorem memoized_skips_register :
    ∃ t, (reselecting.state 72).threads[2]? = some t ∧ t.control.calls? = some 2 ∧
      reselecting.Calls 2 72 73 t.stack.length ∧
      (reselecting.state 72).world.suspension? 2 = some (.selector .int none) ∧
      ((reselecting.state 73).threads[2]?).any (·.gives 4) ∧
      (reselecting.state 73).world.number 4 = 3 ∧
      (reselecting.registers 73 t.context).read? .int = some (.int 5) := by
  obtain ⟨t, found, asks, height, context⟩ := caller_of_any (i := 2)
    (s := reselecting.state 72) (n := 2) (c := 0) (by decide +kernel)
  have known : (reselecting.state 72).world.suspension? 2 = some (.selector .int none) :=
    suspension_of_any (by decide +kernel)
  refine ⟨t, found, asks, ?_, known, by decide +kernel, by decide +kernel, ?_⟩
  · rw [height]
    exact ⟨by decide, by decide +kernel, by decide +kernel, by decide +kernel⟩
  · rw [context]
    decide +kernel

end Run

end LazyGraph

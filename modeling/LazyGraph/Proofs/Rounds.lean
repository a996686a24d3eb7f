import LazyGraph.Proofs.Descents
import LazyGraph.Proofs.Locks
import LazyGraph.Proofs.Unwinding

/-!
# Rounds of forcing

Forcing a thunk is a loop: look at the slot, then run the thunk, or wait for the task that runs it
and look again. If no other task comes between two accesses, each round has a bounded number of
steps, and only a task that has been suspended begins another.
-/

namespace LazyGraph

variable {w w' : World} {t t' : Thread} {n : NodeId} {claim : Bool} {q : QueueId} {r : Nat}

/-! ## Waiting for another task -/

def World.Open (w : World) (q : QueueId) : Prop :=
  ∃ Q, w.queue? q = some Q ∧ Q.closed = false

theorem World.Open.push {m : Message} (open' : w.Open q) :
    ∃ w', w.push? q m = some w' ∧ w'.Open q ∧ ∀ n, w'.slot n = w.slot n := by
  obtain ⟨Q, found, closed⟩ := open'
  obtain ⟨named, there, rfl⟩ := queue?_eq_some found
  have pushed : w.push? q m = some { w with
      queues := w.queues.setIfInBounds q { named with messages := named.messages ++ [m] } } := by
    simp only [push?, there, Option.bind_some, Queue.push?]
    rw [if_neg (by simpa [Queue.unnamed] using closed)]
  obtain ⟨queues, R, -, -, same, unclosed, after⟩ := push?_eq_some pushed
  exact ⟨_, pushed, ⟨_, (after q).trans (if_pos rfl), unclosed⟩, fun _ => rfl⟩

/-- The thread goes into an open queue of `n`, behind its own lock if it has made the queue. -/
structure Waiting.Fits (w : World) (n : NodeId) (claim : Bool) (x : Waiting) : Prop where
  thunk : x.thunk = n
  claim : x.claim = claim
  open' : w.Open x.queue
  lock : ∀ seen, x.lock = some seen → seen = w.slot n

theorem Waiting.Fits.mono {x : Waiting} (fits : x.Fits w n claim) (slot : w'.slot n = w.slot n)
    (queues : ∀ q, w'.queue? q = w.queue? q) : x.Fits w' n claim where
  thunk := fits.thunk
  claim := fits.claim
  open' := by
    rw [World.Open, queues]
    exact fits.open'
  lock seen made := slot ▸ fits.lock seen made

/-- The task of the thread has to be suspended, and this many steps at most are left to that. -/
inductive Joining (n : NodeId) (claim : Bool) (w : World) (t : Thread) : Nat → Prop
  | attach {cell} (idle : t.agenda = []) (at' : t.control = .attach n claim)
    (held : (w.slot n).cell = some cell) (taken : ∀ v, cell ≠ .value v)
    (other : cell.owner? ≠ some (t.me w)) : Joining n claim w t 12
  | lock {owner} (idle : t.agenda = []) (at' : t.control = .lock n claim owner (w.slot n)) :
    Joining n claim w t 11
  | gather {owner} (idle : t.agenda = []) (at' : t.control = .gather n claim owner (w.slot n)) :
    Joining n claim w t 10
  | join {q owner} (idle : t.agenda = []) (at' : t.control = .join n claim q owner)
    (open' : w.Open q) : Joining n claim w t 10
  | enlist {x} (idle : t.agenda = []) (at' : t.control = .enlist x) (fits : x.Fits w n claim) :
    Joining n claim w t 9
  | enrol {x} (idle : t.agenda = []) (at' : t.control = .enrol x) (fits : x.Fits w n claim) :
    Joining n claim w t 8
  | confirm {x} (idle : t.agenda = []) (at' : t.control = .confirm x) (fits : x.Fits w n claim) :
    Joining n claim w t 7
  | confirmed {x e} (next : t.agenda = [.emit e]) (at' : t.control = .enlisted x true)
    (fits : x.Fits w n claim) : Joining n claim w t 6
  | enlisted {x} (idle : t.agenda = []) (at' : t.control = .enlisted x true)
    (fits : x.Fits w n claim) : Joining n claim w t 5
  | publish {x} (idle : t.agenda = []) (at' : t.control = .publish x true)
    (fits : x.Fits w n claim) : Joining n claim w t 4
  | suspend {l : List Event} (next : t.agenda = l.map .emit) (few : l.length ≤ 2)
    (at' : t.control = .suspend n claim) : Joining n claim w t (l.length + 1)

/-- The step leads closer to the suspension, or there. -/
def Joining.Next (n : NodeId) (claim : Bool) (w : World) (t : Thread) (r : Nat) : Prop :=
  (t.step w).2.stack = t.stack ∧
    ((∃ r' < r, Joining n claim (t.step w).1 (t.step w).2 r') ∨
      (t.step w).2.agenda = [] ∧ (t.step w).2.control = .parked n claim)

theorem Joining.next {r' : Nat} (turn : t.step w = (w', t')) (stack : t'.stack = t.stack)
    (phase : Joining n claim w' t' r') (lt : r' < r) : Joining.Next n claim w t r := by
  unfold Joining.Next
  rw [turn]
  exact ⟨stack, .inl ⟨r', lt, phase⟩⟩

section

variable {x : Waiting} {owner : TaskId}

theorem Joining.next_attach {cell : Cell} (idle : t.agenda = []) (at' : t.control = .attach n claim)
    (held : (w.slot n).cell = some cell) (taken : ∀ v, cell ≠ .value v)
    (other : cell.owner? ≠ some (t.me w))
    (unlocked : ∀ o, cell = .locked o → t.HasLock n (w.slot n))
    (open' : ∀ q o, cell = .queue q o → w.Open q) : Joining.Next n claim w t 12 := by
  have turn : t.step w = t.attach w n claim := by
    simp only [Thread.step_idle idle, Thread.proceed, at']
  unfold Thread.attach at turn
  rw [held] at turn
  cases cell with
  | value v => exact absurd rfl (taken v)
  | blackHole owner =>
    have foreign : owner ≠ t.me w := fun is => other (congrArg some is)
    simp only [if_neg foreign] at turn
    exact next turn rfl (.lock idle rfl) (by omega)
  | locked o =>
    cases unlocked o rfl with
    | gather _ is | publish is =>
      rw [at'] at is
      cases is
  | queue q owner =>
    have foreign : owner ≠ t.me w := fun is => other (congrArg some is)
    simp only [if_neg foreign] at turn
    exact next turn rfl (.join idle rfl (open' q owner rfl)) (by omega)

theorem Joining.next_gather (idle : t.agenda = [])
    (at' : t.control = .gather n claim owner (w.slot n)) : Joining.Next n claim w t 10 := by
  have turn : t.step w = t.gather w n claim owner (w.slot n) := by
    simp only [Thread.step_idle idle, Thread.proceed, at']
  have open' : (w.addQueue { owner, thunk := n, messages := [⟨t.me w, n⟩] }).1.Open w.queues.size :=
    ⟨_, by rw [World.queue?_addQueue, if_pos rfl], rfl⟩
  refine next turn rfl (.enlist idle rfl ⟨rfl, rfl, open', ?_⟩) (by omega)
  intro seen made
  cases made
  rfl

theorem Joining.next_publish (idle : t.agenda = []) (at' : t.control = .publish x true)
    (fits : x.Fits w n claim) : Joining.Next n claim w t 4 := by
  have turn : t.step w = t.publish w x true := by
    simp only [Thread.step_idle idle, Thread.proceed, at']
  obtain ⟨thunk, claims, -, lock⟩ := fits
  unfold Thread.publish at turn
  cases made : x.lock with
  | none =>
    rw [made] at turn
    refine next turn rfl (.suspend (l := [.blocked x.thunk (t.me w)]) ?_ (by simp) ?_)
      (by simp)
    · simp [Thread.plan, idle]
    · simp [Thread.plan, thunk, claims]
  | some seen =>
    have same : (w.slot x.thunk).unchanged seen = true := by
      rw [thunk, lock seen made, Slot.unchanged_self]
    simp only [made, World.exchange?, if_pos same] at turn
    refine next turn rfl
      (.suspend (l := [.queued x.thunk x.owner, .blocked x.thunk (t.me w)]) ?_ (by simp) ?_)
      (by simp)
    · simp [Thread.plan, idle]
    · simp [Thread.plan, thunk, claims]

theorem Joining.next_suspend {es : List Event} (errands : t.agenda = es.map .emit)
    (few : es.length ≤ 2) (at' : t.control = .suspend n claim) :
    Joining.Next n claim w t (es.length + 1) := by
  cases es with
  | nil =>
    unfold Joining.Next
    simp only [Thread.step_idle errands, Thread.proceed, at', Thread.suspend]
    exact ⟨rfl, .inr ⟨errands, rfl⟩⟩
  | cons e es =>
    have turn := Thread.step_emit (w := w) errands
    exact next turn rfl (.suspend rfl (by simp at few; omega) at') (by simp)

end

theorem Joining.step (phase : Joining n claim w t r)
    (free : ∀ c, (w.context c).detour = none)
    (unlocked : ∀ o, (w.slot n).cell = some (.locked o) → t.HasLock n (w.slot n))
    (open' : ∀ q o, (w.slot n).cell = some (.queue q o) → w.Open q) :
    Joining.Next n claim w t r := by
  have proceeds : t.agenda = [] → t.step w = t.proceed w := Thread.step_idle
  cases phase with
  | attach idle at' held taken other =>
    exact next_attach idle at' held taken other (fun o is => unlocked o (is ▸ held))
      fun q o is => open' q o (is ▸ held)
  | @lock owner idle at' =>
    have turn : t.step w = t.lock w n claim owner (w.slot n) := by
      simp only [proceeds idle, Thread.proceed, at']
    rw [Thread.lock, World.exchange?, if_pos (Slot.unchanged_self _)] at turn
    exact next turn rfl (.gather idle rfl) (by omega)
  | gather idle at' => exact next_gather idle at'
  | @join q owner idle at' open'' =>
    have turn : t.step w = t.join w n claim q owner := by
      simp only [proceeds idle, Thread.proceed, at']
    obtain ⟨w', pushed, still, slots⟩ := open''.push
    rw [Thread.join, pushed] at turn
    exact next turn rfl (.enlist idle rfl ⟨rfl, rfl, still, fun _ made => by cases made⟩)
      (by omega)
  | @enlist x idle at' fits =>
    have quiet := World.quiet_christen (w := w) (w.context t.context).capability x.queue
    have here : ((w.christen (w.context t.context).capability x.queue).context
        t.context).detour = none := (World.grows_christen _ _).detours _ (free _)
    have turn : t.step w =
        (w.christen (w.context t.context).capability x.queue, t.goto (.enrol x)) := by
      simp only [proceeds idle, Thread.proceed, at', Thread.enlist, Thread.detour_of_none here]
    exact next turn rfl (.enrol idle rfl (fits.mono (quiet.slot n) quiet.queue)) (by omega)
  | @enrol x idle at' fits =>
    have turn : t.step w =
        (w.enrol (w.context t.context).capability x.queue, t.goto (.confirm x)) := by
      simp only [proceeds idle, Thread.proceed, at', Thread.enrol]
    exact next turn rfl (.confirm idle rfl (fits.mono rfl fun _ => rfl)) (by omega)
  | @confirm x idle at' fits =>
    obtain ⟨Q, found, open''⟩ := fits.open'
    have turn : t.step w = t.confirm w x := by simp only [proceeds idle, Thread.proceed, at']
    rw [Thread.confirm, World.isClosed_of_queue? found, open''] at turn
    exact next turn rfl (.confirmed (by simp [Thread.plan, idle]; rfl) rfl fits) (by omega)
  | @confirmed x e errand at' fits =>
    have quiet := World.quiet_emit (w := w) (c := t.context) e
    exact next (Thread.step_emit errand) rfl
      (.enlisted rfl at' (fits.mono (quiet.slot n) quiet.queue)) (by omega)
  | @enlisted x idle at' fits =>
    have turn : t.step w = (w, t.goto (.publish x true)) := by
      simp only [proceeds idle, Thread.proceed, at', Thread.detour_of_none (free _)]
    exact next turn rfl (.publish idle rfl fits) (by omega)
  | publish idle at' fits => exact next_publish idle at' fits
  | «suspend» errands few at' => exact next_suspend errands few at'

/-! ## Taking the thunk -/

def World.Released (w : World) (n : NodeId) : Prop :=
  ∃ s, w.suspension? n = some s ∧ s.cleared = true

theorem World.Released.thunk (known : w.Released n) : (w.thunk? n).isSome := by
  obtain ⟨s, found, -⟩ := known
  obtain ⟨th, thunk, -⟩ := World.suspension?_eq_some.1 found
  simp [thunk]

/-- The thread is taking thunk `n`, which it has found without value and claim. -/
structure Taking (n : NodeId) (w : World) (t : Thread) (r : Nat) : Prop where
  phase : Refusing n (t.me w) r (w.slot n) t.agenda t.control
  left : 3 ≤ r
  released : r < 7 → w.Released n

/-- The thread fails because thunk `n` is released, or on its own update stack. -/
def Thread.FailsOn (t : Thread) (n : NodeId) : Prop :=
  t.control = .fail (.cleared n) ∨ t.control = .fail (.loop n)

theorem Refusing.fails {me : TaskId} {slot : Slot} {as : List Action} {c : Control}
    (phase : Refusing n me r slot as c) (last : r < 3) : c = .fail (.cleared n) := by
  cases phase <;> first | rfl | omega

theorem Refusing.at_body {me : TaskId} {slot : Slot} {as : List Action} {c : Control}
    (phase : Refusing n me 7 slot as c) : as = [] ∧ ∃ claim, c = .body n claim := by
  cases phase <;> exact ⟨rfl, _, rfl⟩

theorem Taking.step (taking : Taking n w t r) (thunk : (w.thunk? n).isSome)
    (kept : w.Released n → (t.step w).1.Released n) :
    ((t.step w).2.stack = t.stack ∧
      ((∃ r' < r, Taking n (t.step w).1 (t.step w).2 r') ∨ (t.step w).2.FailsOn n)) ∨
    ¬ w.Released n ∧ ∃ l claim, (t.step w).2.stack = l ++ .running n claim :: t.stack ∧
      (t.step w).2.control.isCalm := by
  obtain ⟨phase, left, released⟩ := taking
  obtain ⟨th, found⟩ := Option.isSome_iff_exists.1 thunk
  have known : w.suspension? n = some th.suspension :=
    World.suspension?_eq_some.2 ⟨th, found, rfl⟩
  by_cases ready : r ≤ 7 → th.suspension.cleared = true
  · by_cases pushes : t.agenda = [] → ∀ claim, t.control = .start n claim →
      (w.context t.context).stack.push? n ≠ none
    · obtain ⟨r', as, c, ⟨lt, above⟩, is, phase', -⟩ :=
        phase.step (by omega) known ready pushes
      have me := (step_cases w t).me
      rw [is] at me
      refine .inl ⟨by rw [is], ?_⟩
      rw [is]
      by_cases more : 3 ≤ r'
      · refine .inl ⟨r', lt, me ▸ phase', more, fun small => kept ⟨_, known, ready (by omega)⟩⟩
      · exact .inr (.inl (phase'.fails (by omega)))
    · obtain ⟨idle, starts⟩ := Classical.not_imp.1 pushes
      obtain ⟨claim, starts⟩ := Classical.not_forall.1 starts
      obtain ⟨at', active⟩ := Classical.not_imp.1 starts
      rw [Classical.not_not] at active
      refine .inl ?_
      simp only [Thread.step_idle idle, Thread.proceed, at', Thread.start, active]
      exact ⟨rfl, .inr (.inr rfl)⟩
  · obtain ⟨small, uncleared⟩ := Classical.not_imp.1 ready
    have unreleased : ¬ w.Released n := by
      rintro ⟨s, there, cleared⟩
      rw [known] at there
      cases there
      exact uncleared cleared
    obtain rfl : r = 7 := by
      by_contra other
      exact unreleased (released (by omega))
    obtain ⟨idle, claim, at'⟩ := phase.at_body
    have opens : th.suspension.opening?.isSome := by
      rw [Suspension.opening?_isSome]
      simpa using uncleared
    obtain ⟨⟨fs, c⟩, opening⟩ := Option.isSome_iff_exists.1 opens
    refine .inr ⟨unreleased, fs, claim, ?_⟩
    simp only [Thread.step_idle idle, Thread.proceed, at', Thread.body_of_opening known opening]
    exact ⟨trivial, Suspension.isCalm_of_opening opening⟩

/-! ## One round -/

/-- In a round of forcing `n`, this many steps at most before it is over. -/
inductive Round (n : NodeId) (claim : Bool) (w : World) (t : Thread) : Nat → Prop
  | look (idle : t.agenda = []) (at' : t.control = .force n claim) : Round n claim w t 13
  | takes {m : Nat} (taking : Taking n w t m) (small : m ≤ 10) : Round n claim w t m
  | joins {m : Nat} (joining : Joining n claim w t m) : Round n claim w t m

/-- A round is over: the task waits to be woken, the thread has a result, or it runs the thunk. -/
inductive Thread.Leaves (n : NodeId) (claim : Bool) (base : List Frame) (t : Thread) : Prop
  | suspended (idle : t.agenda = []) (at' : t.control = .parked n claim) (same : t.stack = base)
  | returned (outcome : t.control.isOutcome = true) (same : t.stack = base)
  | running {l claimed} (frames : t.stack = l ++ .running n claimed :: base)
    (calm : t.control.isCalm)

theorem Round.step (round : Round n claim w t r) (thunk : (w.thunk? n).isSome)
    (kept : w.Released n → (t.step w).1.Released n) (free : ∀ c, (w.context c).detour = none)
    (unlocked : ∀ o, (w.slot n).cell = some (.locked o) → t.HasLock n (w.slot n))
    (open' : ∀ q o, (w.slot n).cell = some (.queue q o) → w.Open q) :
    ((t.step w).2.stack = t.stack ∧
      ∃ r' < r, Round n claim (t.step w).1 (t.step w).2 r') ∨
    (t.step w).2.Leaves n claim t.stack := by
  have takes : ∀ {r r'}, r ≤ r' → r ≤ 11 → Taking n w t r → ((t.step w).2.stack = t.stack ∧
      ∃ r'' < r', Round n claim (t.step w).1 (t.step w).2 r'') ∨
      (t.step w).2.Leaves n claim t.stack := by
    intro r r' le small taking
    rcases taking.step thunk kept with ⟨same, ⟨r'', lt, next⟩ | fails⟩ | ⟨-, l, c, frames, calm⟩
    · exact .inl ⟨same, r'', by omega, .takes next (by omega)⟩
    · refine .inr (.returned ?_ same)
      rcases fails with is | is <;> rw [is] <;> rfl
    · exact .inr (.running frames calm)
  cases round with
  | takes taking small => exact takes (Nat.le_refl r) (by omega) taking
  | joins joining =>
    obtain ⟨same, ⟨r', lt, next⟩ | ⟨idle, at'⟩⟩ := joining.step free unlocked open'
    · exact .inl ⟨same, r', lt, .joins next⟩
    · exact .inr (.suspended idle at' same)
  | look idle at' =>
    have turn : t.step w = t.force w n claim := by
      simp only [Thread.step_idle idle, Thread.proceed, at']
    cases held : (w.slot n).cell with
    | none =>
      refine takes (r := 11) (by omega) (by omega) ⟨?_, by omega, by omega⟩
      rw [idle, at']
      exact .force held
    | some cell =>
      unfold Thread.force at turn
      rw [held] at turn
      by_cases value : ∃ v, cell = .value v
      · obtain ⟨v, rfl⟩ := value
        rw [turn]
        exact .inr (.returned rfl rfl)
      · have taken : ∀ v, cell ≠ .value v := fun v is => value ⟨v, is⟩
        have turn : t.step w = if cell.owner? = some (t.me w) then t.abort w (.loop n)
            else (w, t.goto (.attach n claim)) := by
          rw [turn]
          cases cell with
          | value v => exact absurd rfl (taken v)
          | _ => rfl
        by_cases own : cell.owner? = some (t.me w)
        · rw [turn, if_pos own]
          exact .inr (.returned rfl rfl)
        · rw [turn, if_neg own]
          exact .inl ⟨rfl, 12, by omega, .joins (.attach idle rfl held taken own)⟩

/-! ## Where a thread is in a round -/

/-- Between the first look at a slot and the end of a round. -/
def Control.isInside : Control → Bool
  | .enter _ => false
  | c => c.target?.isSome

theorem Control.isInside_of_isCalm {c : Control} (calm : c.isCalm) : c.isInside = false := by
  cases c <;> first | rfl | cases calm

theorem Control.isInside_of_isOutcome {c : Control} (outcome : c.isOutcome = true) :
    c.isInside = false := by
  cases c <;> first | rfl | cases outcome

section

variable {m : NodeId} {c : Bool}

theorem Round.isInside (round : Round n claim w t r) : t.control.isInside = true := by
  cases round with
  | look idle at' => rw [at']; rfl
  | takes taking small =>
    obtain ⟨phase, left, -⟩ := taking
    generalize t.agenda = agenda at phase
    generalize t.control = control at phase
    cases phase <;> first | rfl | omega
  | joins joining => cases joining <;> simp_all [Control.isInside, Control.target?]

theorem Taking.not_parked (taking : Taking n w t r) : t.control ≠ .parked m c := by
  obtain ⟨phase, -, -⟩ := taking
  generalize t.agenda = agenda at phase
  generalize t.control = control at phase
  cases phase <;> simp

theorem Round.not_parked (round : Round n claim w t r) : t.control ≠ .parked m c := by
  cases round with
  | look idle at' => simp [at']
  | takes taking small => exact taking.not_parked
  | joins joining => cases joining <;> simp_all

theorem Round.gateless (round : Round n claim w t r) {g : String} {as : List Action} :
    t.agenda ≠ .gate g :: as := by
  cases round with
  | look idle => simp [idle]
  | takes taking => exact taking.phase.agenda_ne_gate
  | joins joining =>
    cases joining with
    | confirmed next => simp [next]
    | @«suspend» es next => cases es <;> simp [next]
    | attach idle | lock idle | gather idle | join idle | enlist idle | enrol idle | confirm idle
    | enlisted idle | publish idle => simp [idle]

theorem Round.at_force (round : Round n claim w t r) (at' : t.control = .force m c) :
    r = 13 := by
  cases round with
  | look => rfl
  | takes taking small =>
    obtain ⟨phase, -, -⟩ := taking
    generalize t.agenda = agenda at phase
    rw [at'] at phase
    cases phase
    omega
  | joins joining => cases joining <;> simp_all

theorem Round.at_attach (round : Round n claim w t r) (at' : t.control = .attach m c) :
    r = 12 ∧ m = n ∧ c = claim := by
  cases round with
  | look _ is => simp [at'] at is
  | takes taking =>
    obtain ⟨phase, -, -⟩ := taking
    generalize t.agenda = agenda at phase
    rw [at'] at phase
    cases phase
  | joins joining => cases joining <;> simp_all

theorem Round.pos (round : Round n claim w t 0) : False := by
  generalize none' : 0 = r at round
  cases round with
  | look => omega
  | takes taking => exact absurd taking.left (by omega)
  | joins joining => cases joining <;> omega

theorem Round.le (round : Round n claim w t r) : r ≤ 13 := by
  cases round with
  | look => omega
  | takes => omega
  | joins joining => cases joining <;> omega

theorem Round.at_start (round : Round n claim w t 13) :
    t.agenda = [] ∧ t.control = .force n claim := by
  generalize most : 13 = r at round
  cases round with
  | look idle at' => exact ⟨idle, at'⟩
  | takes => omega
  | joins joining => cases joining <;> omega

theorem Joining.stable (joining : Joining n claim w t r) (slot : w'.slot n = w.slot n)
    (queues : ∀ q, w'.queue? q = w.queue? q) (me : t.me w' = t.me w) :
    Joining n claim w' t r := by
  have fits : ∀ {x : Waiting}, x.Fits w n claim → x.Fits w' n claim := fun f => f.mono slot queues
  cases joining with
  | attach idle at' held taken other =>
    exact .attach idle at' (slot ▸ held) taken (me ▸ other)
  | lock idle at' => exact .lock idle (slot ▸ at')
  | gather idle at' => exact .gather idle (slot ▸ at')
  | join idle at' open' => exact .join idle at' (by rwa [World.Open, queues])
  | enlist idle at' f => exact .enlist idle at' (fits f)
  | enrol idle at' f => exact .enrol idle at' (fits f)
  | confirm idle at' f => exact .confirm idle at' (fits f)
  | confirmed next at' f => exact .confirmed next at' (fits f)
  | enlisted idle at' f => exact .enlisted idle at' (fits f)
  | publish idle at' f => exact .publish idle at' (fits f)
  | «suspend» next few at' => exact .suspend next few at'

theorem Taking.stable (taking : Taking n w t r) (slot : w'.slot n = w.slot n)
    (me : t.me w' = t.me w) (kept : w.Released n → w'.Released n) : Taking n w' t r where
  phase := by
    rw [slot, me]
    exact taking.phase
  left := taking.left
  released small := kept (taking.released small)

theorem Round.stable (round : Round n claim w t r) (slot : w'.slot n = w.slot n)
    (queues : ∀ q, w'.queue? q = w.queue? q) (me : t.me w' = t.me w)
    (kept : w.Released n → w'.Released n) : Round n claim w' t r := by
  cases round with
  | look idle at' => exact .look idle at'
  | takes taking small => exact .takes (taking.stable slot me kept) small
  | joins joining => exact .joins (joining.stable slot queues me)

end

end LazyGraph

import LazyGraph.Proofs.Lone
import Mathlib.Logic.Function.Iterate

/-!
# Evaluation without claims

A thunk can be evaluated by its value and the update stack alone. What can be seen of a lone thread
is such an evaluation, whether the thread takes thunks or not.
-/

namespace LazyGraph

/-- Where a thread neither takes a thunk nor gives one up. -/
def Control.isSettled : Control → Bool
  | .force _ _ | .body _ _ | .update _ _ => true
  | c => c.isCalm

structure Thread.Settled (t : Thread) : Prop where
  control : t.control.isSettled
  agenda : ∀ a ∈ t.agenda, a.claim? = none

/-- A result, a new evaluation or a loop. -/
def Thread.demand (w : World) (t : Thread) (n : NodeId) : Turn :=
  let c := w.context t.context
  match (w.slot n).value?, c.stack.push? n with
  | some v, _ => (w, t.goto (.give v))
  | none, some stack => (w.setContext t.context { c with stack }, t.goto (.body n false))
  | none, none => (w, t.goto (.fail (.loop n)))

def Control.isHalf : Control → Bool
  | .recheck _ _ | .install _ _ _ => true
  | _ => false

def Turn.next (x : Turn) : Turn :=
  x.2.step x.1

/-- The next settled turn of an evaluation without claims. -/
def Turn.advance (x : Turn) : Turn :=
  Turn.unclaimed <| match x.2.agenda, x.2.control with
  | [], .force n _ => x.2.demand x.1 n
  | _, _ => if x.next.2.control.isHalf then x.next.next else x.next

structure Turn.Good (x : Turn) : Prop where
  lone : Lone x.1 x.2
  settled : x.2.Settled

/-- After some steps, all that can be seen is as in `y`. -/
def Turn.ComesTo (x y : Turn) : Prop :=
  ∃ k, (Turn.next^[k + 1] x).Good ∧ Turn.unclaimed (Turn.next^[k + 1] x) = y

def Turn.Advances (x : Turn) : Prop :=
  x.ComesTo (Turn.advance (Turn.unclaimed x))

variable {w w' : World} {t t' : Thread} {n v : NodeId} {claim : Bool}

theorem Control.isHalf_unclaimed {c : Control} : c.unclaimed.isHalf = c.isHalf := by
  cases c <;> rfl

theorem Control.not_isHalf_of_isSettled {c : Control} (settled : c.isSettled) :
    c.isHalf = false := by
  cases c <;> first | rfl | cases settled

theorem Control.isSettled_of_isCalm {c : Control} (calm : c.isCalm) : c.isSettled := by
  cases c <;> first | rfl | cases calm

/-! ## Claims that are not seen -/

namespace World

theorem unclaimed_hidden {cell : Option Cell} (free : (w.slot n).value? = none)
    (hidden : ∀ v, cell ≠ some (.value v)) : (w.write n cell).unclaimed = w.unclaimed := by
  unfold write
  cases found : w.thunk? n with
  | none => rfl
  | some th =>
    rw [slot_of_thunk found] at free
    have after : (th.slot.write cell).value? = none := by
      refine Slot.value?_eq_none_of_cell fun v held => hidden v ?_
      rwa [Slot.cell_write] at held
    have same : ({ th with slot := th.slot.write cell } : Thunk).unclaimed = th.unclaimed := by
      simp [Thunk.unclaimed, Slot.unclaimed, free, after]
    have seen : w.unclaimed.thunk? n = some th.unclaimed := by simp [found]
    have kept : w.unclaimed.heap.setIfInBounds n (.thunk th.unclaimed) = w.unclaimed.heap :=
      setIfInBounds_self (thunk?_eq_some.1 seen)
    simp only [unclaimed_setThunk, same]
    rw [setThunk, kept]

theorem unclaimed_take {me : TaskId} (free : (w.slot n).cell = none) :
    (w.take n claim me).unclaimed = w.unclaimed := by
  cases claim with
  | false => rfl
  | true => exact unclaimed_hidden (by simp [Slot.value?, free]) (by simp)

end World

/-- Reports and a claim given up are not seen. -/
theorem Lone.drains (lone : Lone w t) (direct : t.control.isDirect = true) (es : List Event)
    (next : t.agenda = es.map .emit ++ giveUp n claim) :
    ∃ w', Reaches w t w' { t with agenda := [] } ∧ w'.unclaimed = w.unclaimed := by
  obtain ⟨log, reports⟩ := reaches_of_reports (w := w) direct es _ next
  cases claim with
  | false => exact ⟨_, reports, rfl⟩
  | true =>
    cases owned : (w.slot n).ownedBy (t.me w) with
    | false =>
      have other : (World.slot { w with log } n).ownedBy (World.taskOf { w with log } t.context) =
          false := owned
      have kept : Thread.step { w with log } { t with agenda := [.abandon n] } =
          ({ w with log }, { t with agenda := [] }) := by
        simp [Thread.step, Action.perform, other]
      exact ⟨{ w with log }, reports.trans (.of_step direct kept .refl), rfl⟩
    | true =>
      have held : (w.slot n).cell = some (.blackHole (t.me w)) := by
        rcases lone.slot_cases n with none | ⟨v, value⟩ | held
        · simp [Slot.ownedBy, none] at owned
        · exact absurd value (Slot.not_value_of_ownedBy owned)
        · exact held
      obtain ⟨log', abandons⟩ := reaches_of_abandon (w := { w with log }) (n := n)
        (t := { t with agenda := [.abandon n] }) direct rfl held
      have free : (w.slot n).value? = none := by simp [Slot.value?, held]
      exact ⟨_, reports.trans abandons, World.unclaimed_hidden (w := { w with log }) free (by simp)⟩

/-! ## Steps that are seen -/

theorem Turn.iterate_of_fixed {x : Turn} {k n : Nat}
    (fixed : (Turn.next^[n] x).next = Turn.next^[n] x) (late : n ≤ k) :
    Turn.next^[k] x = Turn.next^[n] x := by
  obtain ⟨d, rfl⟩ := Nat.exists_eq_add_of_le' late
  rw [Function.iterate_add_apply]
  exact Function.iterate_fixed fixed d

theorem iterate_of_reaches (reaches : Reaches w t w' t') :
    ∃ k, Turn.next^[k] (w, t) = (w', t') := by
  induction reaches with
  | refl => exact ⟨0, rfl⟩
  | step direct rest ih =>
    obtain ⟨k, is⟩ := ih
    exact ⟨k + 1, is⟩

theorem Lone.comes (lone : Lone w t) (tame : t.isTame)
    (reaches : Reaches (t.step w).1 (t.step w).2 w' t') (settled : t'.Settled) :
    Turn.ComesTo (w, t) (Turn.unclaimed (w', t')) := by
  obtain ⟨k, is⟩ := iterate_of_reaches reaches
  have arrives : Turn.next^[k + 1] (w, t) = (w', t') := is
  refine ⟨k, ?_, by rw [arrives]⟩
  rw [arrives]
  exact ⟨(lone.step tame (step_cases w t)).reaches reaches, settled⟩

theorem Turn.advance_of_force (idle : t.agenda = []) (at' : t.control = .force n claim) :
    Turn.advance (Turn.unclaimed (w, t)) = Turn.unclaimed (t.unclaimed.demand w.unclaimed n) := by
  obtain ⟨context, mayStop, maySuspend, agenda, control, stack⟩ := t
  cases idle
  cases at'
  rfl

theorem Turn.advance_of_plain
    (plain : t.agenda ≠ [] ∨ ∀ n claim, t.control ≠ .force n claim) :
    Turn.advance (Turn.unclaimed (w, t)) =
      let x : Turn := t.unclaimed.step w.unclaimed
      Turn.unclaimed (if x.2.control.isHalf then x.next else x) := by
  unfold Turn.advance
  split
  · rename_i n claim idle at'
    rcases plain with busy | other
    · exact absurd idle busy
    · exfalso
      have at' : t.control.unclaimed = .force n claim := at'
      cases is : t.control with
      | force m mode => exact other m mode is
      | _ => rw [is] at at'; cases at'
  · rfl

theorem Turn.advance_of_step
    (plain : t.agenda ≠ [] ∨ ∀ n claim, t.control ≠ .force n claim)
    (whole : (t.unclaimed.step w.unclaimed).2.control.isHalf = false) :
    Turn.advance (Turn.unclaimed (w, t)) = Turn.unclaimed (t.unclaimed.step w.unclaimed) := by
  rw [Turn.advance_of_plain plain]
  simp [whole]

theorem Turn.advance_of_half {x : Turn} (plain : ∀ n claim, t.control ≠ .force n claim)
    (after : t.unclaimed.step w.unclaimed = x) (half : x.2.control.isHalf = true) :
    Turn.advance (Turn.unclaimed (w, t)) = Turn.unclaimed x.next := by
  rw [Turn.advance_of_plain (.inr plain)]
  simp [after, half]

theorem Lone.comes_next (lone : Lone w t) (tame : t.isTame) (settled : (t.step w).2.Settled)
    (plain : t.agenda ≠ [] ∨ ∀ n claim, t.control ≠ .force n claim)
    (seen : Turn.unclaimed (t.step w) = Turn.unclaimed (t.unclaimed.step w.unclaimed)) :
    Turn.Advances (w, t) := by
  have whole : (t.unclaimed.step w.unclaimed).2.control.isHalf = false := by
    have same : (t.step w).2.control.unclaimed =
        (t.unclaimed.step w.unclaimed).2.control.unclaimed := congrArg (·.2.control) seen
    rw [← Control.isHalf_unclaimed, ← same, Control.isHalf_unclaimed,
      Control.not_isHalf_of_isSettled settled.control]
  rw [Turn.Advances, Turn.advance_of_step plain whole, ← seen]
  exact lone.comes tame .refl settled

/-! ## Errands and host code -/

theorem Errand.settled (step : Errand w t w' t') (settled : t.Settled) : t'.Settled where
  control := by
    rcases step.frames.2 with same | exit
    · rw [same]
      exact settled.control
    · exact Control.isSettled_of_isCalm (Control.isCalm_of_isExit exit)
  agenda a known := by
    by_contra claim
    obtain ⟨n, is⟩ := Option.ne_none_iff_exists'.1 claim
    have owed : n ∈ t'.agenda.filterMap Action.claim? := List.mem_filterMap.2 ⟨a, known, is⟩
    have old := List.count_pos_iff.1
      (Nat.lt_of_lt_of_le (List.count_pos_iff.2 owed) step.claims_count)
    obtain ⟨b, listed, claim⟩ := List.mem_filterMap.1 old
    rw [settled.agenda b listed] at claim
    cases claim

theorem settled_of_reports (control : t.control.isSettled) (reports : ∀ a ∈ t.agenda, a.isReport) :
    t.Settled :=
  ⟨control, fun a known => Action.claim?_of_isReport (reports a known)⟩

theorem settled_of_idle (control : t.control.isSettled) (idle : t.agenda = []) : t.Settled :=
  settled_of_reports control (by simp [idle])

theorem HostStep.settled (step : HostStep w t w' t') (tame : t.isTame)
    (free : t.control.isExit → ∀ f ∈ t.stack.head?, f.claim? = none) : t'.Settled := by
  have exits : ∀ {c : Control}, c.isExit → c.isSettled := fun exit =>
    Control.isSettled_of_isCalm (Control.isCalm_of_isExit exit)
  cases step with
  | code _ _ _ _ calm reports =>
    rcases reports with reports | ⟨g, m, rfl, rfl⟩
    · exact settled_of_reports (Control.isSettled_of_isCalm calm) reports
    · exact ⟨rfl, by simp [Action.claim?]⟩
  | blackHole idle => exact settled_of_idle rfl idle
  | clear => exact ⟨rfl, by simp [Action.claim?]⟩
  | attempt _ host raw => simp [Thread.isTame, host, raw] at tame
  | abandon _ host | reset _ host | set _ host | update _ host =>
    simp [Thread.isTame, host, ThunkOp.isRaw] at tame
  | revert _ _ _ resets =>
    refine ⟨rfl, fun a known => ?_⟩
    rcases resets a known with ⟨n, rfl⟩ | rfl | report
    · rfl
    · rfl
    · exact Action.claim?_of_isReport report
  | giveCode idle _ _ _ _ _ calm => exact settled_of_idle (Control.isSettled_of_isCalm calm) idle
  | giveAgain idle | giveRunning idle | giveLeaving idle => exact settled_of_idle rfl idle
  | giveSettling => exact settled_of_reports rfl (by simp [Action.isReport])
  | dropCode idle exit _ _ caught =>
    rcases caught with rfl | ⟨code, env, rfl⟩
    · exact settled_of_idle (exits exit) idle
    · exact settled_of_idle rfl idle
  | dropAgain idle exit | dropLeaving idle exit => exact settled_of_idle (exits exit) idle
  | @dropEvaluation f n claim rest e idle exit top kind report =>
    have unclaimed := free exit f (by rw [top]; rfl)
    cases claim with
    | true => rcases kind with rfl | rfl <;> cases unclaimed
    | false => exact settled_of_reports (exits exit) (by simpa [giveUp] using report)

theorem Step.settled_of_isCalm (step : Step w t w' t') (idle : t.agenda = [])
    (calm : t.control.isCalm) (tame : t.isTame)
    (free : t.control.isExit → ∀ f ∈ t.stack.head?, f.claim? = none) : t'.Settled := by
  cases step with
  | stay => exact settled_of_idle (Control.isSettled_of_isCalm calm) idle
  | errand step => cases step <;> simp_all
  | host step => exact step.settled tame free
  | forcing step =>
    cases step with
    | evaluated | evaluate | enter => exact settled_of_idle rfl idle
    | enterFailed _ _ reports => exact settled_of_reports rfl reports
    | _ => simp_all [Control.isCalm, Control.isCode]
  | waits step => cases step <;> simp_all [Control.isCalm, Control.isCode]
  | attempt step => cases step <;> simp_all [Control.isCalm, Control.isCode]

/-! ## Single steps -/

theorem step_of_claim {f : Frame} {rest : List Frame} (idle : t.agenda = [])
    (exit : t.control.isExit) (top : t.stack = f :: rest) (is : f.claim? = some n) :
    (∃ es : List Event, t.step w =
      (t.leave w n, { t with agenda := es.map .emit ++ giveUp n true, stack := rest })) ∧
    t.unclaimed.step w.unclaimed = (t.unclaimed.leave w.unclaimed n,
      ({ t with agenda := [], stack := rest } : Thread).unclaimed) := by
  obtain ⟨context, mayStop, maySuspend, agenda, control, stack⟩ := t
  cases idle
  cases top
  cases f with
  | running m claim | settling m claim =>
    cases claim with
    | false => cases is
    | true =>
      cases is
      cases control with
      | fail e => exact ⟨⟨[], rfl⟩, rfl⟩
      | unwind message => exact ⟨⟨[.panicked n _], rfl⟩, rfl⟩
      | _ => cases exit
  | _ => cases is

theorem Thread.unclaimed_demand :
    Turn.unclaimed (t.demand w n) = Turn.unclaimed (t.unclaimed.demand w.unclaimed n) := by
  have value : (w.unclaimed.slot n).value? = (w.slot n).value? := by simp
  have stack : (w.unclaimed.context t.context).stack = (w.context t.context).stack := by simp
  simp only [demand, value, stack, context_unclaimed]
  cases (w.slot n).value? with
  | some v => exact Turn.sees rfl
  | none =>
    cases (w.context t.context).stack.push? n with
    | some stack => exact Turn.sees (by simp [Context.unclaimed, Control.unclaimed])
    | none => exact Turn.sees rfl

theorem Reaches.first (reaches : Reaches w t w' t') (moved : t'.control ≠ t.control) :
    Reaches (t.step w).1 (t.step w).2 w' t' := by
  cases reaches with
  | refl => exact absurd rfl moved
  | step _ rest => exact rest

theorem step_update (idle : t.agenda = []) (at' : t.control = .update n v)
    (free : (w.slot n).value? = none) :
    t.step w = (w, t.goto (.install n v (w.slot n))) := by
  simp [Thread.step, idle, Thread.proceed, at', Thread.update, free]

theorem step_install (idle : t.agenda = []) (at' : t.control = .install n v (w.slot n))
    (quiet : Thread.afterInstall (t.me w) (w.slot n) = []) :
    t.step w =
      (w.write n (some (.value v)), t.plan [.clear n, .emit (.updated (t.me w) v)] (.give v)) := by
  have me : t.me (w.write n (some (.value v))) = t.me w := by simp [Thread.me, World.taskOf]
  simp [Thread.step, idle, Thread.proceed, at', Thread.install, World.exchange?,
    Slot.unchanged_self, me, quiet]

/-! ## Every kind of turn -/

namespace Turn.Good

theorem errand {a : Action} {as : List Action} (good : Turn.Good (w, t)) (tame : t.isTame)
    (next : t.agenda = a :: as) : Turn.Advances (w, t) := by
  have busy : t.agenda ≠ [] := by simp [next]
  have after : t.step w = a.perform w { t with agenda := as } := Thread.step_cons next
  have seen : t.unclaimed.step w.unclaimed =
      a.perform w.unclaimed ({ t with agenda := as } : Thread).unclaimed := by
    simp [Thread.step, Thread.unclaimed, next]
  refine good.lone.comes_next tame ?_ (.inl busy) ?_
  · rcases (step_cases w t).errand_of_busy busy with ⟨-, same⟩ | step
    · rw [same]
      exact good.settled
    · exact step.settled good.settled
  · rw [after, seen]
    exact Thread.unclaimed_errand a (good.settled.agenda a (by rw [next]; exact List.mem_cons_self))
      good.lone.unqueued

section

variable (good : Turn.Good (w, t)) (tame : t.isTame) (idle : t.agenda = [])

include good tame idle

theorem calm (calm : t.control.isCalm)
    (free : t.control.isExit → ∀ f ∈ t.stack.head?, f.claim? = none) : Turn.Advances (w, t) := by
  have after : t.step w = t.proceed w := by simp [Thread.step, idle]
  have seen : t.unclaimed.step w.unclaimed = t.unclaimed.proceed w.unclaimed := by
    simp [Thread.step, Thread.unclaimed, idle]
  refine good.lone.comes_next tame ((step_cases w t).settled_of_isCalm idle calm tame free)
    (.inr fun n claim is => ?_) ?_
  · rw [is] at calm
    cases calm
  · rw [after, seen]
    exact Thread.unclaimed_proceed calm free

theorem exits {f : Frame} {rest : List Frame} (exit : t.control.isExit) (top : t.stack = f :: rest)
    (is : f.claim? = some n) : Turn.Advances (w, t) := by
  obtain ⟨⟨es, after⟩, seen⟩ := step_of_claim (w := w) idle exit top is
  have settled := Control.isSettled_of_isCalm (Control.isCalm_of_isExit exit)
  have lone := good.lone.step tame (step_cases w t)
  rw [after] at lone
  obtain ⟨w', drains, same⟩ := lone.drains (Control.isDirect_of_isExit exit) es rfl
  have view : Turn.unclaimed (w', { t with agenda := [], stack := rest }) =
      t.unclaimed.step w.unclaimed := by
    rw [seen, Turn.unclaimed_mk, same, Thread.unclaimed_leave]
  have plain : ∀ n claim, t.control ≠ .force n claim := fun n claim is => by
    rw [is] at exit
    cases exit
  have whole : (t.unclaimed.step w.unclaimed).2.control.isHalf = false := by
    rw [seen]
    exact Control.isHalf_unclaimed.trans (Control.not_isHalf_of_isSettled settled)
  rw [Turn.Advances, Turn.advance_of_step (.inr plain) whole, ← view, Turn.unclaimed_unclaimed]
  exact good.lone.comes tame (after ▸ drains) (settled_of_idle settled rfl)

/-! ## Requests -/

theorem request_value (at' : t.control = .force n claim)
    (held : (w.slot n).cell = some (.value v)) :
    Turn.ComesTo (w, t) (Turn.unclaimed (t.demand w n)) := by
  have gives : t.demand w n = (w, t.goto (.give v)) := by
    simp [Thread.demand, Slot.value?, held]
  have after : t.step w = (w, t.goto (.give v)) := by
    simp [Thread.step, idle, Thread.proceed, at', Thread.force, held]
  rw [gives]
  exact good.lone.comes tame (after ▸ .refl) (settled_of_idle rfl idle)

theorem request_owned (at' : t.control = .force n claim)
    (owned : (w.slot n).ownedBy (t.me w) = true) :
    Turn.ComesTo (w, t) (Turn.unclaimed (t.demand w n)) := by
  have free : (w.slot n).value? = none :=
    Slot.value?_eq_none_of_cell fun v => Slot.not_value_of_ownedBy owned
  -- the thread evaluates what it owns, so the update stack tells of the loop as well
  have known : n ∈ t.evaluations :=
    List.mem_append_right _ (good.lone.active idle (by rw [at']; rfl) owned)
  have active : (w.context t.context).stack.push? n = none :=
    good.lone.tracks.push?_eq_none.2 known
  have fails : t.demand w n = (w, t.goto (.fail (.loop n))) := by
    simp [Thread.demand, free, active]
  obtain ⟨log, loops⟩ := reaches_of_owned idle at' owned
  have view : Turn.unclaimed (w, t.goto (.fail (.loop n))) =
      Turn.unclaimed ({ w with log }, { t with agenda := [], control := .fail (.loop n) }) := by
    rw [← idle]
    rfl
  rw [fails, view]
  exact good.lone.comes tame (loops.first (by simp [at'])) (settled_of_idle rfl rfl)

theorem request_free (at' : t.control = .force n claim) (free : (w.slot n).cell = none) :
    Turn.ComesTo (w, t) (Turn.unclaimed (t.demand w n)) := by
  have none : (w.slot n).value? = none := by simp [Slot.value?, free]
  obtain ⟨log, starts⟩ := reaches_start idle at' free
  generalize taken_eq : ({ w.take n claim (t.me w) with log } : World) = taken at starts
  have seen : taken.unclaimed = w.unclaimed := by
    rw [← taken_eq]
    exact World.unclaimed_take free
  have context : taken.context t.context = w.context t.context := by
    rw [← taken_eq]
    exact World.context_take
  cases active : (w.context t.context).stack.push? n with
  | some stack =>
    have pushes : Thread.step taken { t with control := .start n claim } =
        (taken.setContext t.context { w.context t.context with stack },
          { t with control := .body n claim }) := by
      simp [Thread.step, idle, Thread.proceed, Thread.start, context, active, Thread.goto]
    have view : Turn.unclaimed (t.demand w n) =
        Turn.unclaimed (taken.setContext t.context { w.context t.context with stack },
          { t with control := .body n claim }) := by
      simp only [Thread.demand, none, active, Turn.unclaimed_mk, World.unclaimed_setContext, seen]
      rfl
    rw [view]
    have begins := starts.trans (.of_step rfl pushes .refl)
    exact good.lone.comes tame (begins.first (by simp [at'])) (settled_of_idle rfl idle)
  | none =>
    have fails := step_start (w := taken) (t := { t with control := .start n claim }) idle rfl
      (by rw [context]; exact active)
    have lone := (good.lone.reaches starts).step rfl (step_cases _ _)
    rw [fails] at lone
    obtain ⟨w', drains, same⟩ := lone.drains rfl [_] rfl
    have view : Turn.unclaimed (t.demand w n) =
        Turn.unclaimed (w', { t with agenda := [], control := .fail (.loop n) }) := by
      simp only [Thread.demand, none, active, Turn.unclaimed_mk, same, seen, ← idle]
      rfl
    rw [view]
    have loops := starts.trans (.of_step rfl fails drains)
    exact good.lone.comes tame (loops.first (by simp [at'])) (settled_of_idle rfl rfl)

theorem request (at' : t.control = .force n claim) : Turn.Advances (w, t) := by
  rw [Turn.Advances, Turn.advance_of_force idle at', ← Thread.unclaimed_demand]
  rcases good.lone.slot_cases n with free | ⟨v, held⟩ | hole
  · exact good.request_free tame idle at' free
  · exact good.request_value tame idle at' held
  · exact good.request_owned tame idle at' (by simp [Slot.ownedBy, hole, Cell.owner?])

/-! ## Evaluations -/

theorem released (at' : t.control = .body n claim)
    (after : t.step w = (t.leave w n, t.plan (giveUp n claim) (.recheck n claim)))
    (seen : t.unclaimed.step w.unclaimed =
      (t.unclaimed.leave w.unclaimed n, t.unclaimed.goto (.recheck n false))) :
    Turn.Advances (w, t) := by
  have lone := good.lone.step tame (step_cases w t)
  have nodup := good.lone.tracks.nodup
  rw [after] at lone
  have agenda : (t.plan (giveUp n claim) (.recheck n claim)).agenda = giveUp n claim := by
    simp [Thread.plan, idle]
  obtain ⟨w', drains, same⟩ := lone.drains rfl [] agenda
  let waits : Thread := { t with agenda := [], control := .recheck n claim }
  have drains : Reaches (t.leave w n) (t.plan (giveUp n claim) (.recheck n claim)) w' waits :=
    drains
  have alone : Lone w' waits := lone.reaches drains
  -- a claim left in the slot would belong to an outer evaluation, but none of `n` is under way
  have untaken : (w'.slot n).Untaken := by
    refine alone.untaken (Bool.eq_false_iff.2 fun owned => ?_)
    have known : n ∈ t.stack.filterMap Frame.thunk? := alone.active rfl rfl owned
    rw [Thread.evaluations, at'] at nodup
    exact (List.nodup_cons.1 nodup).1 known
  have checks : waits.step w' = waits.recheck w' n claim := rfl
  have advance : Turn.advance (Turn.unclaimed (w, t)) =
      Turn.unclaimed (waits.unclaimed.recheck w'.unclaimed n false) := by
    rw [Turn.advance_of_half (by simp [at']) seen rfl, same, Thread.unclaimed_leave]
    obtain ⟨context, mayStop, maySuspend, agenda, control, stack⟩ := t
    cases idle
    rfl
  have settled : (waits.recheck w' n claim).2.Settled := by
    unfold Thread.recheck
    split
    · exact settled_of_reports rfl (by simp [Thread.abort, Thread.plan, waits, Action.isReport])
    · exact settled_of_idle rfl rfl
  rw [Turn.Advances, advance, ← Thread.unclaimed_recheck untaken]
  refine good.lone.comes tame ?_ settled
  rw [after]
  exact drains.trans (.of_step rfl checks .refl)

theorem body (at' : t.control = .body n claim) : Turn.Advances (w, t) := by
  have after : t.step w = t.body w n claim := by simp [Thread.step, idle, Thread.proceed, at']
  have seen : t.unclaimed.step w.unclaimed = t.unclaimed.body w.unclaimed n false := by
    simp [Thread.step, idle, Thread.proceed, at', Thread.unclaimed, Control.unclaimed]
  rcases Thread.unclaimed_body (w := w) (t := t) (n := n) claim with
    ⟨released, released'⟩ | ⟨runs, calm, still⟩
  · exact good.released tame idle at' (after.trans released) (seen.trans released')
  · refine good.lone.comes_next tame ?_ (.inr (by simp [at'])) ?_
    · rw [after]
      exact settled_of_idle (Control.isSettled_of_isCalm calm) (still.trans idle)
    · rw [after, seen]
      exact Turn.sees runs

/-! ## Results -/

theorem lost {winner : NodeId} (at' : t.control = .update n v)
    (held : (w.slot n).value? = some winner) : Turn.Advances (w, t) := by
  have after : t.step w =
      (w, t.plan [.emit (.lostRace (t.me w)), .sweep (t.me w)] (.give winner)) := by
    simp [Thread.step, idle, Thread.proceed, at', Thread.update, held]
  have seen : t.unclaimed.step w.unclaimed = (w.unclaimed,
      t.unclaimed.plan [.emit (.lostRace (t.me w)), .sweep (t.me w)] (.give winner)) := by
    have agenda : t.unclaimed.agenda = [] := idle
    have control : t.unclaimed.control = .update n v := by
      simp [Thread.unclaimed, at', Control.unclaimed]
    simp [Thread.step, agenda, Thread.proceed, control, Thread.update, held]
  refine good.lone.comes_next tame ?_ (.inr (by simp [at'])) ?_
  · rw [after]
    exact ⟨rfl, by simp [Thread.plan, idle, Action.claim?]⟩
  · rw [after, seen]
    exact Turn.sees rfl

theorem installs (at' : t.control = .update n v) (free : (w.slot n).value? = none) :
    Turn.Advances (w, t) := by
  have none : (w.unclaimed.slot n).cell = none := by
    rw [World.slot_unclaimed, Slot.unclaimed, free]
    rfl
  have woken : Thread.afterInstall (t.me w) (w.slot n) = [] := by
    rcases good.lone.slot_cases n with none | ⟨u, held⟩ | hole
    · simp [Thread.afterInstall, none]
    · simp [Slot.value?, held] at free
    · simp [Thread.afterInstall, hole]
  have reads := step_update idle at' free
  have writes := step_install (w := w) (t := t.goto (.install n v (w.slot n))) idle rfl woken
  have seen := step_update (w := w.unclaimed) (t := t.unclaimed) (n := n) (v := v) idle
    (by simp [Thread.unclaimed, at', Control.unclaimed]) (by simpa using free)
  have written : (t.unclaimed.goto (.install n v (w.unclaimed.slot n))).step w.unclaimed =
      (w.unclaimed.write n (some (.value v)),
        t.unclaimed.plan [.clear n, .emit (.updated (t.me w) v)] (.give v)) := by
    rw [← Thread.me_unclaimed]
    exact step_install (t := t.unclaimed.goto _) idle rfl
      (by simp only [Thread.afterInstall, none])
  have view : Turn.advance (Turn.unclaimed (w, t)) = Turn.unclaimed
      (w.write n (some (.value v)), t.plan [.clear n, .emit (.updated (t.me w) v)] (.give v)) := by
    rw [Turn.advance_of_half (by simp [at']) seen rfl, Turn.next, written, Turn.unclaimed_mk,
      Turn.unclaimed_mk, ← World.unclaimed_write]
    simp
  rw [Turn.Advances, view]
  refine good.lone.comes tame ?_ ⟨rfl, by simp [Thread.plan, idle, Action.claim?]⟩
  rw [reads]
  exact .of_step rfl writes .refl

theorem update (at' : t.control = .update n v) : Turn.Advances (w, t) := by
  cases held : (w.slot n).value? with
  | some winner => exact good.lost tame idle at' held
  | none => exact good.installs tame idle at' held

end

/-- What can be seen of the next settled turn follows from what can be seen of this one. -/
theorem advances {x : Turn} (good : x.Good) (tame : x.2.isTame) : x.Advances := by
  obtain ⟨w, t⟩ := x
  cases idle : t.agenda with
  | cons a as => exact good.errand tame idle
  | nil =>
    have settled := good.settled.control
    cases at' : t.control with
    | force n claim => exact good.request tame idle at'
    | body n claim => exact good.body tame idle at'
    | update n v => exact good.update tame idle at'
    | fail e | unwind message =>
      have exit : t.control.isExit := by rw [at']; rfl
      by_cases claimed : ∃ f ∈ t.stack.head?, f.claim? ≠ none
      · obtain ⟨f, top, some⟩ := claimed
        obtain ⟨n, is⟩ := Option.ne_none_iff_exists'.1 some
        obtain ⟨rest, stack⟩ := List.head?_eq_some_iff.1 top
        exact good.exits tame idle exit stack is
      · refine good.calm tame idle (Control.isCalm_of_isExit exit) fun _ f top => ?_
        by_contra some
        exact claimed ⟨f, top, some⟩
    | _ =>
      rw [at'] at settled
      refine good.calm tame idle ?_ fun exit => ?_
      · rw [at']
        exact settled
      · rw [at'] at exit
        cases exit

end Turn.Good

end LazyGraph

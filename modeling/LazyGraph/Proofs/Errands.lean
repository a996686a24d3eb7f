import LazyGraph.Proofs.Steps

/-!
# Errands

Errands come before everything else and leave the stack alone. `Plans` lists the new errands of a
step, each with what the thread did or found when it planned the errand.
-/

namespace LazyGraph

/-- Errands that close no queue, look at no queue and write to no slot. -/
def Action.isPlain : Action → Bool
  | .emit _ | .gate _ | .wake _ | .withdraw _ | .sweep _ | .clear _ | .abandon _ | .release _ => true
  | _ => false

/-- The step plans an errand. -/
inductive Plans (w : World) (t : Thread) (w' : World) (t' : Thread) : Action → Prop
  | plain {a} (kind : a.isPlain) : Plans w t w' t' a
  | drain {n q o note} (held : (w.slot n).cell = some (.queue q o))
    (gone : ∀ o, (w'.slot n).cell ≠ some (.queue q o))
    (other : ∀ m, m ≠ n → w'.slot m = w.slot m) : Plans w t w' t' (.drain q note)
  | released {u q ready} (known : .dismiss u (q :: ready) ∈ t.agenda) :
    Plans w t w' t' (.drain q (.released u))
  | missed {x blocked seen} (at' : t.control = .publish x blocked) (made : x.lock = some seen)
    (changed : (w.slot x.thunk).unchanged seen = false) (same : w' = w)
    (after : t' = { t with agenda := [.seal x.queue], control := .force x.thunk x.claim }) :
    Plans w t w' t' (.seal x.queue)
  | examine {u todo} (lists : ∀ q ∈ todo, w.Lists q) : Plans w t w' t' (.examine u todo [])
  | closed {u q todo ready} (known : .examine u (q :: todo) ready ∈ t.agenda) (same : w' = w)
    (closed : w.isClosed q = true) : Plans w t w' t' (.examine u todo (ready ++ [q]))
  | resolved {u q todo ready} (known : .inspect u q todo ready ∈ t.agenda) (same : w' = w)
    (resolved : w.isResolved q = true) : Plans w t w' t' (.examine u todo (ready ++ [q]))
  | skip {u q todo ready} (known : .inspect u q todo ready ∈ t.agenda) :
    Plans w t w' t' (.examine u todo ready)
  | inspect {u q todo ready} (known : .examine u (q :: todo) ready ∈ t.agenda) :
    Plans w t w' t' (.inspect u q todo ready)
  | dismiss {u ready} (known : .examine u [] ready ∈ t.agenda) :
    Plans w t w' t' (.dismiss u ready)
  | dismissRest {u q ready} (known : .dismiss u (q :: ready) ∈ t.agenda) :
    Plans w t w' t' (.dismiss u ready)
  | reset {n} (idle : t.agenda = [])
    (host : (∃ ns env, t.control = .perform (.onThunk .reset) (n :: ns) env) ∨
      ∃ r, t.control = .revert r) : Plans w t w' t' (.overwrite n none)
  | set {n v ns env} (idle : t.agenda = [])
    (at' : t.control = .perform (.onThunk .set) (n :: v :: ns) env) :
    Plans w t w' t' (.overwrite n (some v))
  | surrender {n} (owned : (w.slot n).ownedBy (t.me w) = true) :
    Plans w t w' t' (.surrender n (w.slot n))

variable {w w' : World} {t t' : Thread} {n : NodeId} {q : QueueId} {o : TaskId} {a : Action}

/-! ## New errands -/

theorem Action.isPlain_of_isReport (report : a.isReport) : a.isPlain := by
  cases a <;> first | rfl | cases report

theorem plain_of_giveUp {claim : Bool} (known : a ∈ giveUp n claim) : a.isPlain := by
  cases claim with
  | false => cases known
  | true =>
    obtain rfl := List.mem_singleton.1 known
    rfl

theorem plain_of_wakeQueue (known : a ∈ wakeQueue q) : a.isPlain ∨ a = .drain q .woke := by
  rcases List.mem_cons.1 known with rfl | last
  · exact .inl rfl
  · exact .inr (List.mem_singleton.1 last)

theorem mem_afterSurrender {me : TaskId} {seen : Slot} (known : a ∈ afterSurrender me seen) :
    a.isPlain ∨ ∃ q o, seen.cell = some (.queue q o) ∧ a = .drain q .woke := by
  rcases List.mem_cons.1 known with rfl | wakes
  · exact .inl rfl
  · cases found : seen.queue? with
    | none => simp [found] at wakes
    | some q =>
      simp only [found, Option.map_some, Option.getD_some] at wakes
      obtain ⟨o, held⟩ := Slot.queue?_eq_some.1 found
      rcases plain_of_wakeQueue wakes with plain | rfl
      · exact .inl plain
      · exact .inr ⟨q, o, held, rfl⟩

theorem mem_afterInstall {me : TaskId} {seen : Slot} (known : a ∈ Thread.afterInstall me seen) :
    a.isPlain ∨ ∃ q o, seen.cell = some (.queue q o) ∧ a = .drain q .woke := by
  unfold Thread.afterInstall at known
  split at known
  · cases known
  · rename_i q owner held
    rcases List.mem_append.1 known with wakes | sweeps
    · rcases plain_of_wakeQueue wakes with plain | rfl
      · exact .inl plain
      · exact .inr ⟨q, owner, held, rfl⟩
    · split at sweeps
      · cases sweeps
      · obtain rfl := List.mem_singleton.1 sweeps
        exact .inl rfl
  · split at known
    · cases known
    · obtain rfl := List.mem_singleton.1 known
      exact .inl rfl
  · obtain rfl := List.mem_singleton.1 known
    exact .inl rfl

theorem plans_of_write {note : Note} {cell : Option Cell}
    (held : (w.slot n).cell = some (.queue q o)) (other : ∀ q o, cell ≠ some (.queue q o)) :
    Plans w t (w.write n cell) t' (.drain q note) := by
  obtain ⟨th, found⟩ := World.thunk_of_cell held
  refine .drain held ?_ fun m apart => World.slot_write_ne apart cell
  intro o
  simpa [World.slot_write_self found] using other q o

theorem Errand.plans (step : Errand w t w' t') (known : a ∈ t'.agenda) :
    a ∈ t.agenda ∨ Plans w t w' t' a := by
  have rest : ∀ {b : Action} {as}, t.agenda = b :: as → a ∈ as → a ∈ t.agenda := fun next old => by
    rw [next]
    exact List.mem_cons_of_mem _ old
  have head : ∀ {b : Action} {as}, t.agenda = b :: as → b ∈ t.agenda := fun next => by
    rw [next]
    exact List.mem_cons_self
  have step' : ∀ {b c : Action} {as}, t.agenda = b :: as → Plans w t w' t' c → a ∈ c :: as →
      a ∈ t.agenda ∨ Plans w t w' t' a := by
    intro b c as next plans known
    rcases List.mem_cons.1 known with rfl | old
    · exact .inr plans
    · exact .inl (rest next old)
  cases step with
  | stand => exact .inl known
  | quiet next | refuse next | wake next | «seal» next | dismissed next | abandonOther next =>
    exact .inl (rest next known)
  | drain next reports =>
    simp only [List.mem_append, List.mem_map] at known
    rcases known with (⟨m, -, rfl⟩ | report) | old
    · exact .inr (.plain rfl)
    · exact .inr (.plain (Action.isPlain_of_isReport (reports a report)))
    · exact .inl (rest next old)
  | sweep next lists => exact step' next (.examine lists) known
  | examined next => exact step' next (.dismiss (head next)) known
  | examineClosed next closed => exact step' next (.closed (head next) rfl closed) known
  | examineOpen next => exact step' next (.inspect (head next)) known
  | inspectResolved next resolved => exact step' next (.resolved (head next) rfl resolved) known
  | inspectOpen next => exact step' next (.skip (head next)) known
  | dismissOther next => exact step' next (.dismissRest (head next)) known
  | dismissListed next =>
    rcases List.mem_cons.1 known with rfl | known
    · exact .inr (.released (head next))
    · exact step' next (.dismissRest (head next)) known
  | abandonOwn next owned => exact step' next (.surrender owned) known
  | surrenderMissed next => exact step' next (.plain rfl) known
  | @overwrite n v as next =>
    rcases List.mem_append.1 known with new | old
    · cases found : (w.slot n).queue? with
      | none => simp [found] at new
      | some q =>
        simp only [found, Option.map_some, Option.getD_some, List.mem_singleton] at new
        subst new
        obtain ⟨o, held⟩ := Slot.queue?_eq_some.1 found
        exact .inr (plans_of_write held (by cases v <;> simp))
    · exact .inl (rest next old)
  | surrendered next same =>
    rcases List.mem_append.1 known with new | old
    · rcases mem_afterSurrender new with plain | ⟨q, o, was, rfl⟩
      · exact .inr (.plain plain)
      · exact .inr (plans_of_write ((Slot.cell_of_unchanged same).trans was) (by simp))
    · exact .inl (rest next old)

theorem HostStep.plans (step : HostStep w t w' t') (known : a ∈ t'.agenda) :
    a ∈ t.agenda ∨ Plans w t w' t' a := by
  cases step with
  | code _ _ _ _ _ reports =>
    rcases reports with reports | ⟨g, m, rfl, -⟩
    · exact .inr (.plain (Action.isPlain_of_isReport (reports a known)))
    · obtain rfl := List.mem_singleton.1 known
      exact .inr (.plain rfl)
  | abandon | clear | update | giveSettling =>
    obtain rfl := List.mem_singleton.1 known
    exact .inr (.plain rfl)
  | reset idle host =>
    obtain rfl := List.mem_singleton.1 known
    exact .inr (.reset idle (.inl ⟨_, _, host⟩))
  | set idle host =>
    obtain rfl := List.mem_singleton.1 known
    exact .inr (.set idle host)
  | revert idle host _ resets =>
    rcases resets a known with ⟨n, rfl⟩ | rfl | report
    · exact .inr (.reset idle (.inr ⟨_, host⟩))
    · exact .inr (.plain rfl)
    · exact .inr (.plain (Action.isPlain_of_isReport report))
  | dropEvaluation _ _ _ _ reports =>
    rcases List.mem_append.1 known with new | new
    · exact .inr (.plain (Action.isPlain_of_isReport (reports a new)))
    · exact .inr (.plain (plain_of_giveUp new))
  | _ => exact .inl known

theorem Forcing.plans (step : Forcing w t w' t') (known : a ∈ t'.agenda) :
    a ∈ t.agenda ∨ Plans w t w' t' a := by
  cases step with
  | enterFailed _ _ reports =>
    exact .inr (.plain (Action.isPlain_of_isReport (reports a known)))
  | loop | seized | recheckFailed =>
    obtain rfl := List.mem_singleton.1 known
    exact .inr (.plain rfl)
  | startLoop =>
    rcases List.mem_cons.1 known with rfl | new
    · exact .inr (.plain rfl)
    · exact .inr (.plain (plain_of_giveUp new))
  | released => exact .inr (.plain (plain_of_giveUp known))
  | updateLost =>
    rcases List.mem_cons.1 known with rfl | last
    · exact .inr (.plain rfl)
    · obtain rfl := List.mem_singleton.1 last
      exact .inr (.plain rfl)
  | installed _ at' same =>
    rcases List.mem_cons.1 known with rfl | new
    · exact .inr (.plain rfl)
    · rcases List.mem_append.1 new with after | last
      · rcases mem_afterInstall after with plain | ⟨q, o, was, rfl⟩
        · exact .inr (.plain plain)
        · exact .inr (plans_of_write ((Slot.cell_of_unchanged same).trans was) (by simp))
      · obtain rfl := List.mem_singleton.1 last
        exact .inr (.plain rfl)
  | _ => exact .inl known

theorem Waits.plans (step : Waits w t w' t') (known : a ∈ t'.agenda) :
    a ∈ t.agenda ∨ Plans w t w' t' a := by
  cases step with
  | loop | confirm =>
    obtain rfl := List.mem_singleton.1 known
    exact .inr (.plain rfl)
  | enlist _ _ _ gates | enlisted _ _ _ gates =>
    obtain ⟨g, rfl⟩ := gates a known
    exact .inr (.plain rfl)
  | proceed _ _ _ reports | published _ _ _ _ reports =>
    exact .inr (.plain (Action.isPlain_of_isReport (reports a known)))
  | publishMissed _ at' made changed =>
    obtain rfl := List.mem_singleton.1 known
    exact .inr (.missed at' made changed rfl rfl)
  | _ => exact .inl known

theorem Step.plans (step : Step w t w' t') (known : a ∈ t'.agenda) :
    a ∈ t.agenda ∨ Plans w t w' t' a := by
  cases step with
  | stay => exact .inl known
  | errand step => exact step.plans known
  | host step => exact step.plans known
  | forcing step => exact step.plans known
  | waits step => exact step.plans known
  | attempt step => cases step <;> exact .inl known

/-! ## Errands come first -/

theorem Errand.frames (step : Errand w t w' t') :
    t'.stack = t.stack ∧ (t'.control = t.control ∨ t'.control.isExit) := by
  cases step with
  | refuse => exact ⟨rfl, .inr rfl⟩
  | _ => exact ⟨rfl, .inl rfl⟩

theorem Step.errand_of_busy (step : Step w t w' t') (busy : t.agenda ≠ []) :
    w' = w ∧ t' = t ∨ Errand w t w' t' := by
  cases step with
  | stay => exact .inl ⟨rfl, rfl⟩
  | errand step => exact .inr step
  | host step => cases step <;> contradiction
  | forcing step => cases step <;> contradiction
  | waits step => cases step <;> contradiction
  | attempt step => cases step <;> contradiction

theorem Step.frames_of_busy (step : Step w t w' t') (busy : t.agenda ≠ []) :
    t'.stack = t.stack ∧ (t'.control = t.control ∨ t'.control.isExit) := by
  rcases step.errand_of_busy busy with ⟨-, same⟩ | errand
  · rw [same]
    exact ⟨rfl, .inl rfl⟩
  · exact errand.frames

theorem Step.agenda_kept {a : Action} (step : Step w t w' t') (known : a ∈ t.agenda) :
    a ∈ t'.agenda ∨ ∃ as, t.agenda = a :: as := by
  have rest : ∀ {b : Action} {as}, t.agenda = b :: as → a ∉ as → ∃ as, t.agenda = a :: as := by
    intro b as next gone
    rw [next] at known
    rcases List.mem_cons.1 known with rfl | old
    · exact ⟨as, next⟩
    · exact absurd old gone
  by_contra lost
  simp only [not_or] at lost
  obtain ⟨lost, other⟩ := lost
  cases step with
  | stay => exact lost known
  | errand step =>
    cases step with
    | stand => exact lost known
    | quiet next | refuse next | wake next | drain next | «seal» next | sweep next
    | examined next | examineClosed next | examineOpen next | inspectResolved next
    | inspectOpen next | dismissed next | dismissListed next | dismissOther next | overwrite next
    | abandonOwn next | abandonOther next | surrendered next | surrenderMissed next =>
      exact other (rest next fun old => lost (by simp [old]))
  | host step => cases step <;> simp_all
  | forcing step => cases step <;> simp_all
  | waits step => cases step <;> simp_all
  | attempt step => cases step <;> simp_all

/-! ## Where host code leads -/

theorem Control.isCalm_of_isExit {c : Control} (exit : c.isExit) : c.isCalm := by
  cases c <;> first | rfl | cases exit

theorem HostStep.lands (step : HostStep w t w' t') :
    t'.control.isCalm ∨ (∃ n, t'.control = .force n true) ∨
      (∃ op n ns env, t.control = .perform (.onThunk op) (n :: ns) env ∧
        t'.control = .probe op n) ∨
      ∃ n v e, t'.control = .update n v ∧ t'.agenda = [.emit e] := by
  cases step with
  | code _ _ _ _ calm | giveCode _ _ _ _ _ _ calm => exact .inl calm
  | dropCode _ exit _ _ caught =>
    rcases caught with rfl | ⟨code, env, rfl⟩
    · exact .inl (Control.isCalm_of_isExit exit)
    · exact .inl rfl
  | dropAgain _ exit | dropEvaluation _ exit | dropLeaving _ exit =>
    exact .inl (Control.isCalm_of_isExit exit)
  | blackHole => exact .inr (.inl ⟨_, rfl⟩)
  | attempt _ host => exact .inr (.inr (.inl ⟨_, _, _, _, host, rfl⟩))
  | update | giveSettling => exact .inr (.inr (.inr ⟨_, _, _, rfl, rfl⟩))
  | _ => exact .inl rfl

end LazyGraph

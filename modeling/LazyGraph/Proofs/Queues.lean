import LazyGraph.Proofs.Errands
import LazyGraph.Proofs.Seats

/-!
# What a step does to queues

Where queues in slots come from, who knows a queue before it is in a slot, and who is going to close
it.
-/

namespace LazyGraph

def Control.waiting? : Control → Option Waiting
  | .enlist x | .enrol x | .confirm x | .retract x | .enlisted x _ | .publish x _ => some x
  | _ => none

/-- Behind the reading of a slot in which somebody's claim was found. -/
def Control.isWait : Control → Bool
  | .lock _ _ _ _ | .gather _ _ _ _ | .join _ _ _ _ | .suspend _ _ | .parked _ _ => true
  | c => c.waiting?.isSome

/-- The queues that an errand closes, or has found to be in no slot. -/
def Action.dooms : Action → List QueueId
  | .drain q _ | .seal q => [q]
  | .examine _ _ ready | .inspect _ _ _ ready | .dismiss _ ready => ready
  | _ => []

def Action.todo : Action → List QueueId
  | .examine _ todo _ => todo
  | .inspect _ q todo _ => q :: todo
  | _ => []

namespace Thread

variable (t : Thread) (q : QueueId)

def Owns : Prop :=
  (∃ x, t.control.waiting? = some x ∧ x.queue = q ∧ x.lock.isSome) ∨ .seal q ∈ t.agenda

def Dooms : Prop :=
  ∃ a ∈ t.agenda, q ∈ a.dooms

def Drains : Prop :=
  ∃ note, .drain q note ∈ t.agenda

end Thread

variable {w w' : World} {t t' : Thread} {n : NodeId} {q : QueueId} {o : TaskId} {x : Waiting}

theorem Control.isWait_of_isCalm {c : Control} (calm : c.isCalm) : c.isWait = false := by
  cases c <;> first | rfl | cases calm

theorem Control.isWait_of_waiting? {c : Control} (waiting : c.waiting? = some x) :
    c.isWait = true := by
  cases c <;> first | rfl | cases waiting

theorem HostStep.isWait (step : HostStep w t w' t') : t'.control.isWait = false := by
  rcases step.lands with calm | ⟨n, is⟩ | ⟨op, n, ns, env, -, is⟩ |
    ⟨n, v, e, is, -⟩
  · exact Control.isWait_of_isCalm calm
  all_goals
    rw [is]
    rfl

theorem Forcing.isWait (step : Forcing w t w' t') : t'.control.isWait = false := by
  cases step with
  | body _ _ _ calm => exact Control.isWait_of_isCalm calm
  | _ => rfl

theorem Step.wait_cases (step : Step w t w' t') (wait : t'.control.isWait = true) :
    t'.control = t.control ∨ Waits w t w' t' := by
  cases step with
  | stay => exact .inl rfl
  | errand step =>
    rcases step.frames.2 with same | exit
    · exact .inl same
    · simp [Control.isWait_of_isCalm (Control.isCalm_of_isExit exit)] at wait
  | host step => simp [step.isWait] at wait
  | forcing step => simp [step.isWait] at wait
  | waits step => exact .inr step
  | attempt step => cases step <;> cases wait

theorem Step.waiting_origin (step : Step w t w' t') (waiting : t'.control.waiting? = some x) :
    t.control.waiting? = some x ∨
    (∃ n claim owner lock, t.control = .gather n claim owner lock ∧
      x = ⟨n, claim, w.queues.size, owner, some lock⟩ ∧ t'.agenda = [] ∧
      w' = (w.addQueue { owner, thunk := n, messages := [⟨t.me w, n⟩] }).1) ∨
    ∃ n claim q owner, t.control = .join n claim q owner ∧ x = ⟨n, claim, q, owner, none⟩ ∧
      t'.agenda = [] ∧ w.push? q ⟨t.me w, n⟩ = some w' := by
  rcases step.wait_cases (Control.isWait_of_waiting? waiting) with same | step
  · exact .inl (same ▸ waiting)
  · cases step with
    | busy | asleep => exact .inl waiting
    | gathered idle at' =>
      cases waiting
      exact .inr (.inl ⟨_, _, _, _, at', rfl, idle, rfl⟩)
    | joined idle at' pushed =>
      cases waiting
      exact .inr (.inr ⟨_, _, _, _, at', rfl, idle, pushed⟩)
    | enlist _ at' | enrolled _ at' | confirmClosed _ at' | confirm _ at' | retract _ at'
    | enlisted _ at' =>
      rw [at']
      exact .inl waiting
    | @proceed x' blocked | @published x' blocked => cases blocked <;> cases waiting
    | _ => cases waiting

theorem Step.join_origin {claim : Bool} (step : Step w t w' t')
    (at' : t'.control = .join n claim q o) :
    t.control = .join n claim q o ∨
      (w.slot n).cell = some (.queue q o) ∧ o ≠ t.me w := by
  rcases step.wait_cases (by rw [at']; rfl) with same | step
  · exact .inl (same ▸ at')
  · cases step with
    | busy | asleep => exact .inl at'
    | join _ _ held other =>
      cases at'
      exact .inr ⟨held, other⟩
    | @proceed x blocked | @published x blocked => cases blocked <;> cases at'
    | _ => cases at'

theorem Step.gather_origin {claim : Bool} {seen : Slot} (step : Step w t w' t')
    (at' : t'.control = .gather n claim o seen) :
    t.control = .gather n claim o seen ∨ seen = w'.slot n := by
  rcases step.wait_cases (by rw [at']; rfl) with same | step
  · exact .inl (same ▸ at')
  · cases step with
    | busy | asleep => exact .inl at'
    | locked =>
      cases at'
      exact .inr rfl
    | @proceed x blocked | @published x blocked => cases blocked <;> cases at'
    | _ => cases at'

/-! ## Queues that could not be published -/

theorem Step.seal_origin (step : Step w t w' t') (known : .seal q ∈ t'.agenda) :
    .seal q ∈ t.agenda ∨ ∃ x seen, t.control.waiting? = some x ∧ x.queue = q ∧
      x.lock = some seen ∧ (w.slot x.thunk).unchanged seen = false ∧ w' = w ∧
      t' = { t with agenda := [.seal x.queue], control := .force x.thunk x.claim } := by
  rcases step.plans known with old | plans
  · exact .inl old
  · cases plans with
    | plain kind => cases kind
    | missed at' made changed same after =>
      exact .inr ⟨_, _, by rw [at']; rfl, rfl, made, changed, same, after⟩

theorem Step.owns_origin (step : Step w t w' t') (owns : t'.Owns q) :
    t.Owns q ∨ ∃ n claim owner lock, t.control = .gather n claim owner lock ∧
      q = w.queues.size ∧ w' = (w.addQueue { owner, thunk := n, messages := [⟨t.me w, n⟩] }).1 := by
  rcases owns with ⟨x, waiting, rfl, made⟩ | known
  · rcases step.waiting_origin waiting with old | ⟨n, claim, owner, lock, at', rfl, -, is⟩ |
      ⟨n, claim, q, owner, -, rfl, -⟩
    · exact .inl (.inl ⟨x, old, rfl, made⟩)
    · exact .inr ⟨n, claim, owner, lock, at', rfl, is⟩
    · cases made
  · rcases step.seal_origin known with old | ⟨x, seen, waiting, rfl, made, -⟩
    · exact .inl (.inr old)
    · exact .inl (.inl ⟨x, waiting, rfl, by simp [made]⟩)

theorem Step.queue_origin (step : Step w t w' t') (noted : t.Noted)
    (held : (w'.slot n).cell = some (.queue q o)) :
    (w.slot n).cell = some (.queue q o) ∨ ∃ x seen, t.control.waiting? = some x ∧ x.thunk = n ∧
      x.queue = q ∧ x.owner = o ∧ x.lock = some seen ∧ (w.slot n).unchanged seen = true ∧
      t.agenda = [] ∧ ¬ t'.Owns q := by
  rcases step.cell_origin held with old | writes
  · exact .inl old
  · refine .inr ?_
    generalize is : some (Cell.queue q o) = cell at writes
    cases writes with
    | @published x blocked seen idle at' made same reports after =>
      cases is
      refine ⟨x, seen, by rw [at']; rfl, rfl, rfl, rfl, made, same, idle, ?_⟩
      rintro (⟨y, waiting, -⟩ | known)
      · rw [after] at waiting
        cases blocked <;> cases waiting
      · cases reports _ known
    | @overwrite n v => cases v <;> cases is
    | exchanged at' =>
      have control := noted.control
      rw [at', ← is] at control
      rcases control.2 with none | lock | ⟨u, hole⟩
      · cases none
      · cases lock
      · cases hole
    | surrendered | seized | installed | locked => cases is

/-! ## Contents -/

inductive Handles (w : World) (t : Thread) (w' : World) (t' : Thread) (q : QueueId) : Prop
  | made {n claim owner lock} (at' : t.control = .gather n claim owner lock)
    (new : q = w.queues.size)
    (after : w'.queue? q = some { owner, thunk := n, messages := [⟨t.me w, n⟩] })
    (waits : t'.control.waiting? = some ⟨n, claim, q, owner, some lock⟩)
  | joined {n claim owner Q} (at' : t.control = .join n claim q owner)
    (before : w.queue? q = some Q) (open' : Q.closed = false)
    (after : w'.queue? q = some { Q with messages := Q.messages ++ [⟨t.me w, n⟩] })
  | drained {note as Q} (next : t.agenda = .drain q note :: as) (before : w.queue? q = some Q)
    (after : w'.queue? q = some Q.close) (wakes : ∀ m ∈ Q.messages, .wake m.task ∈ t'.agenda)
  | sealed {as Q} (next : t.agenda = .seal q :: as) (before : w.queue? q = some Q)
    (after : w'.queue? q = some Q.close)

theorem Errand.queue_cases (step : Errand w t w' t') (q : QueueId) :
    w'.queue? q = w.queue? q ∨ Handles w t w' t' q := by
  cases step with
  | quiet _ _ quiet | dismissListed _ quiet => exact .inl (quiet.queue q)
  | @drain r note as reports next =>
    by_cases same : q = r
    · subst same
      cases before : w.queue? q with
      | none => exact .inl (by simp [World.queue?_close, before])
      | some Q =>
        refine .inr (.drained next before (by simp [World.queue?_close, before]) fun m known => ?_)
        rw [World.messages_of_queue? before]
        simp only [List.mem_append, List.mem_map]
        exact .inl (.inl ⟨m, known, rfl⟩)
    · exact .inl (by rw [World.queue?_close, if_neg same])
  | @«seal» r as next =>
    by_cases same : q = r
    · subst same
      cases before : w.queue? q with
      | none => exact .inl (by simp [World.queue?_close, before])
      | some Q => exact .inr (.sealed next before (by simp [World.queue?_close, before]))
    · exact .inl (by rw [World.queue?_close, if_neg same])
  | overwrite | surrendered => exact .inl (World.queue?_write _ _ q)
  | _ => exact .inl rfl

theorem Step.queue_cases (step : Step w t w' t') (q : QueueId) :
    w'.queue? q = w.queue? q ∨ Handles w t w' t' q := by
  cases step with
  | stay => exact .inl rfl
  | errand step => exact step.queue_cases q
  | host step =>
    cases step with
    | code _ _ quiet | abandon _ _ quiet | clear _ _ quiet | reset _ _ quiet | set _ _ quiet
    | revert _ _ quiet | giveCode _ _ _ _ quiet => exact .inl (quiet.queue q)
    | _ => exact .inl rfl
  | forcing step =>
    cases step with
    | seized | installed => exact .inl (World.queue?_write _ _ q)
    | _ => exact .inl rfl
  | waits step =>
    cases step with
    | locked | published => exact .inl (World.queue?_write _ _ q)
    | gathered _ at' =>
      by_cases new : q = w.queues.size
      · exact .inr (.made at' new (by rw [World.queue?_addQueue, if_pos new]; rfl) (by rw [new]; rfl))
      · exact .inl (by rw [World.queue?_addQueue, if_neg new])
    | @joined w' n claim r owner _ at' pushed =>
      obtain ⟨queues, Q, -, -, before, open', after⟩ := World.push?_eq_some pushed
      by_cases same : q = r
      · subst same
        exact .inr (.joined at' before open' (by rw [after, if_pos rfl]))
      · exact .inl (by rw [after, if_neg same])
    | enlist _ _ quiet | retract _ _ quiet | enlisted _ _ quiet => exact .inl (quiet.queue q)
    | _ => exact .inl rfl
  | attempt step =>
    cases step with
    | probe => exact .inl rfl
    | hopeless _ _ quiet | missed _ _ quiet => exact .inl (quiet.queue q)
    | exchanged _ _ _ quiet => exact .inl ((quiet.queue q).trans (World.queue?_write _ _ q))

/-! ## Closing -/

theorem wakeQueue_subset_afterInstall {me : TaskId} {seen : Slot}
    (held : seen.cell = some (.queue q o)) : wakeQueue q ⊆ Thread.afterInstall me seen := by
  simp [Thread.afterInstall, held]

theorem wakeQueue_subset_afterSurrender {me : TaskId} {seen : Slot}
    (held : seen.cell = some (.queue q o)) : wakeQueue q ⊆ afterSurrender me seen := by
  simp [afterSurrender, Slot.queue?_eq_some.2 ⟨o, held⟩]

/-- Who takes a queue from its slot is going to wake the tasks in it, through a capability, or
overwrites the slot and closes the queue. -/
theorem Writes.wakes {cell : Option Cell} (writes : Writes w t t' n cell) (noted : t.Noted)
    (held : (w.slot n).cell = some (.queue q o)) :
    wakeQueue q ⊆ t'.agenda ∨
      .drain q .silent ∈ t'.agenda ∧ ∃ v as, t.agenda = .overwrite n v :: as := by
  obtain ⟨control, -⟩ := noted
  have read : ∀ {seen : Slot}, (w.slot n).unchanged seen = true →
      seen.cell = some (.queue q o) := fun same => by
    rw [← Slot.cell_of_unchanged same, held]
  cases writes with
  | overwrite next after =>
    exact .inr ⟨by simp [after, Slot.queue?_eq_some.2 ⟨o, held⟩], _, _, next⟩
  | surrendered _ same after =>
    left
    rw [after]
    exact List.subset_append_of_subset_left _ (wakeQueue_subset_afterSurrender (read same))
  | installed _ same after =>
    left
    rw [after]
    exact List.subset_append_of_subset_left _
      (List.subset_cons_of_subset _ (wakeQueue_subset_afterInstall (read same)))
  | seized at' same | locked at' same =>
    rw [at'] at control
    have other := read same
    rw [show _ = _ from control] at other
    cases other
  | published _ at' made same =>
    rw [at'] at control
    have other := read same
    rw [control _ made] at other
    cases other
  | exchanged at' same =>
    rw [at'] at control
    have other := read same
    rcases control.1 with free | free <;> simp [free] at other

theorem Step.displaced (step : Step w t w' t') (noted : t.Noted)
    (held : (w.slot n).cell = some (.queue q o)) :
    (w'.slot n).cell = some (.queue q o) ∨ t'.Drains q := by
  rcases step.cell_kept held with stays | ⟨cell, writes, -⟩
  · exact .inl stays
  · rcases writes.wakes noted held with wakes | ⟨silent, -⟩
    · exact .inr ⟨.woke, wakes (by simp [wakeQueue])⟩
    · exact .inr ⟨.silent, silent⟩

/-- Why a queue is going to be closed: it was in its slot until now, it is closed, its thunk has a
value, or its maker could not publish it. -/
inductive Doomed (before : World) (u : Thread) (after : World) (r : QueueId) : Prop
  | displaced {n : NodeId} {o : TaskId} (held : (before.slot n).cell = some (.queue r o))
    (gone : ∀ o, (after.slot n).cell ≠ some (.queue r o))
    (other : ∀ m, m ≠ n → after.slot m = before.slot m)
  | closed {a} (known : a ∈ u.agenda) (todo : r ∈ a.todo) (same : after = before)
    (closed : before.isClosed r = true)
  | resolved {a} (known : a ∈ u.agenda) (todo : r ∈ a.todo) (same : after = before)
    (resolved : before.isResolved r = true)
  | missed {x : Waiting} {seen : Slot} (waiting : u.control.waiting? = some x) (is : x.queue = r)
    (made : x.lock = some seen) (same : after = before)
    (changed : (before.slot x.thunk).unchanged seen = false)

theorem Action.not_dooms_of_isPlain {a : Action} (plain : a.isPlain) : q ∉ a.dooms := by
  cases a <;> first | exact List.not_mem_nil | cases plain

theorem Step.dooms_origin (step : Step w t w' t') (dooms : t'.Dooms q) :
    t.Dooms q ∨ Doomed w t w' q := by
  obtain ⟨a, planned, dooms⟩ := dooms
  rcases step.plans planned with old | plans
  · exact .inl ⟨a, old, dooms⟩
  · cases plans with
    | plain plain => exact absurd dooms (Action.not_dooms_of_isPlain plain)
    | drain held gone other =>
      obtain rfl := List.mem_singleton.1 dooms
      exact .inr (.displaced held gone other)
    | released known =>
      obtain rfl := List.mem_singleton.1 dooms
      exact .inl ⟨.dismiss _ _, known, List.mem_cons_self⟩
    | missed at' made changed same =>
      obtain rfl := List.mem_singleton.1 dooms
      exact .inr (.missed (by rw [at']; rfl) rfl made same changed)
    | closed known same closed =>
      rcases List.mem_append.1 dooms with old | new
      · exact .inl ⟨_, known, old⟩
      · obtain rfl := List.mem_singleton.1 new
        exact .inr (.closed known List.mem_cons_self same closed)
    | resolved known same resolved =>
      rcases List.mem_append.1 dooms with old | new
      · exact .inl ⟨_, known, old⟩
      · obtain rfl := List.mem_singleton.1 new
        exact .inr (.resolved known List.mem_cons_self same resolved)
    | skip known | inspect known | dismiss known => exact .inl ⟨_, known, dooms⟩
    | dismissRest known => exact .inl ⟨_, known, List.mem_cons_of_mem _ dooms⟩
    | examine | reset | set | surrender => cases dooms

theorem Step.closed_origin {Q : Queue} (step : Step w t w' t') (found : w'.queue? q = some Q)
    (closed : Q.closed = true) :
    (∃ Q, w.queue? q = some Q ∧ Q.closed = true) ∨ t.Dooms q := by
  rcases step.queue_cases q with same | handles
  · exact .inl ⟨Q, same ▸ found, closed⟩
  · cases handles with
    | made _ _ after =>
      rw [found] at after
      cases after
      cases closed
    | joined _ _ open' after =>
      rw [found] at after
      cases after
      simp [open'] at closed
    | drained next | sealed next =>
      exact .inr ⟨_, by rw [next]; exact List.mem_cons_self, List.mem_cons_self⟩

/-! ## Maps -/

def Thread.Looks (t : Thread) (q : QueueId) : Prop :=
  ∃ a ∈ t.agenda, q ∈ a.todo

theorem Action.not_todo_of_isPlain {a : Action} (plain : a.isPlain) : q ∉ a.todo := by
  cases a <;> first | exact List.not_mem_nil | cases plain

theorem Step.looks_origin (step : Step w t w' t') (looks : t'.Looks q) : t.Looks q ∨ w.Lists q := by
  obtain ⟨a, planned, todo⟩ := looks
  rcases step.plans planned with old | plans
  · exact .inl ⟨a, old, todo⟩
  · cases plans with
    | plain plain => exact absurd todo (Action.not_todo_of_isPlain plain)
    | examine lists => exact .inr (lists q todo)
    | closed known => exact .inl ⟨.examine _ _ _, known, List.mem_cons_of_mem _ todo⟩
    | resolved known | skip known =>
      exact .inl ⟨.inspect _ _ _ _, known, List.mem_cons_of_mem _ todo⟩
    | inspect known => exact .inl ⟨.examine _ _ _, known, todo⟩
    | drain | released | missed | dismiss | dismissRest | reset | set | surrender => cases todo

/-- Only a thread on its way into a queue registers one. -/
theorem Step.maps (step : Step w t w' t') :
    (∀ j, (w'.maps.getD j []).Sublist (w.maps.getD j [])) ∨
      ∃ x k, t.control = .enrol x ∧ t'.control = .confirm x ∧ w' = w.enrol k x.queue := by
  have same : w'.maps = w.maps → ∀ j, (w'.maps.getD j []).Sublist (w.maps.getD j []) :=
    fun same j => same ▸ .refl _
  cases step with
  | stay => exact .inl (same rfl)
  | errand step =>
    cases step with
    | quiet _ _ quiet | dismissListed _ quiet => exact .inl quiet.maps
    | overwrite | surrendered => exact .inl (same (by simp))
    | _ => exact .inl (same rfl)
  | host step =>
    cases step with
    | code _ _ quiet | abandon _ _ quiet | clear _ _ quiet | reset _ _ quiet | set _ _ quiet
    | revert _ _ quiet | giveCode _ _ _ _ quiet => exact .inl quiet.maps
    | _ => exact .inl (same rfl)
  | forcing step =>
    cases step with
    | seized | installed => exact .inl (same (by simp))
    | _ => exact .inl (same rfl)
  | waits step =>
    cases step with
    | locked | published => exact .inl (same (by simp))
    | joined _ _ pushed =>
      obtain ⟨queues, Q, rfl, -⟩ := World.push?_eq_some pushed
      exact .inl (same rfl)
    | enrolled _ at' => exact .inr ⟨_, _, at', rfl, rfl⟩
    | enlist _ _ quiet | retract _ _ quiet | enlisted _ _ quiet => exact .inl quiet.maps
    | _ => exact .inl (same rfl)
  | attempt step =>
    cases step with
    | probe => exact .inl (same rfl)
    | hopeless _ _ quiet | missed _ _ quiet => exact .inl quiet.maps
    | exchanged _ _ _ quiet =>
      refine .inl fun j => ?_
      have kept := quiet.maps j
      rwa [World.maps_write] at kept

theorem Step.lists_origin (step : Step w t w' t') (lists : w'.Lists q) :
    w.Lists q ∨ ∃ x, t.control.waiting? = some x ∧ x.queue = q := by
  rcases step.maps with less | ⟨x, k, at', -, rfl⟩
  · obtain ⟨j, known⟩ := World.lists_iff.1 lists
    exact .inl (World.lists_iff.2 ⟨j, (less j).mem known⟩)
  · rcases World.lists_enrol lists with rfl | old
    · exact .inr ⟨x, by rw [at']; rfl, rfl⟩
    · exact .inl old

/-! ## Messages -/

theorem Step.message_origin {Q : Queue} {m : Message} (step : Step w t w' t')
    (found : w'.queue? q = some Q) (known : m ∈ Q.messages) :
    (∃ Q, w.queue? q = some Q ∧ m ∈ Q.messages) ∨ m.task = t.me w ∧
      ((∃ n claim o, t.control = .join n claim q o) ∨ q = w.queues.size) := by
  rcases step.queue_cases q with same | handles
  · exact .inl ⟨Q, same ▸ found, known⟩
  · cases handles with
    | made _ new after =>
      rw [found] at after
      cases after
      obtain rfl := List.mem_singleton.1 known
      exact .inr ⟨rfl, .inr new⟩
    | @joined n claim owner R at' before _ after =>
      rw [found] at after
      cases after
      rcases List.mem_append.1 known with old | sent
      · exact .inl ⟨R, before, old⟩
      · obtain rfl := List.mem_singleton.1 sent
        exact .inr ⟨rfl, .inl ⟨n, claim, owner, at'⟩⟩
    | drained _ _ after | sealed _ _ after =>
      rw [found] at after
      cases after
      cases known

/-- A message stays in its open queue until the queue is closed; then its sender is woken, unless the
queue was never published. -/
theorem Step.message_kept {Q : Queue} {m : Message} (step : Step w t w' t')
    (found : w.queue? q = some Q) (known : m ∈ Q.messages) (open' : Q.closed = false) :
    (∃ Q, w'.queue? q = some Q ∧ m ∈ Q.messages ∧ Q.closed = false) ∨
    ((∃ Q, w'.queue? q = some Q ∧ Q.closed = true) ∧ .wake m.task ∈ t'.agenda) ∨
    .seal q ∈ t.agenda := by
  rcases step.queue_cases q with same | handles
  · exact .inl ⟨Q, same.trans found, known, open'⟩
  · cases handles with
    | made _ new => exact absurd new (Nat.ne_of_lt (World.lt_of_queue? found))
    | joined _ before _ after =>
      rw [found] at before
      cases before
      exact .inl ⟨_, after, List.mem_append_left _ known, open'⟩
    | drained _ before after wakes =>
      rw [found] at before
      cases before
      exact .inr (.inl ⟨⟨Q.close, after, rfl⟩, wakes m known⟩)
    | sealed next => exact .inr (.inr (by rw [next]; exact List.mem_cons_self))

end LazyGraph

import LazyGraph.Proofs.Fatal
import LazyGraph.Proofs.Veils

/-!
# Reports of fatal errors

Whoever comes to a fatal error plans to report it in the same step, and an error on its way through
the frames of a call is not reported again. So a call that ends in a fatal error has reported that
error once, and any other call has reported none, as long as host code lets errors pass.
-/

namespace LazyGraph

variable {w : World} {t : Thread} {n : NodeId} {me u : TaskId}

/-! ## Reports in the log -/

/-- The fatal error that is reported, and the task that reports it. -/
def Event.fatal? : Event → Option (TaskId × GraphError)
  | .fatal u e => some (u, e)
  | _ => none

theorem Event.target_eq_barf_iff (e : Event) : e.target = "lazyrts::barf" ↔ e.fatal?.isSome := by
  cases e <;> simp [target, fatal?]

/-- What is recorded of an event, if its switch is on. -/
def World.record (w : World) (e : Event) : Record :=
  ⟨e, if w.log.hears e.level then some s!"{e.level.tag} {e.target} {w.describe e}" else none⟩

/-- The fatal errors that task `u` has reported, in order. -/
def World.barfs (w : World) (u : TaskId) : List Record :=
  w.log.records.toList.filter fun r => r.event.fatal?.any (·.1 == u)

namespace World

theorem barfs_emit (c : ContextId) (e : Event) :
    (w.emit c e).barfs u =
      w.barfs u ++ if e.fatal?.any (·.1 == u) then [w.record e] else [] := by
  unfold emit
  split
  · simp only [barfs, Array.toList_push, List.filter_append, List.filter_cons, List.filter_nil]
    rfl
  · rename_i switched
    cases e with
    | fatal => exact absurd rfl switched
    | _ => simp [Event.fatal?]

theorem barfs_emit_fatal (c : ContextId) (e : GraphError) :
    (w.emit c (.fatal u e)).barfs u = w.barfs u ++ [w.record (.fatal u e)] := by
  simp [barfs_emit, Event.fatal?]

theorem barfs_emit_other (c : ContextId) {e : Event} (other : ∀ x, e ≠ .fatal u x) :
    (w.emit c e).barfs u = w.barfs u := by
  rw [barfs_emit]
  cases e with
  | fatal v x =>
    have apart : v ≠ u := by
      rintro rfl
      exact other x rfl
    simp [Event.fatal?, apart]
  | _ => simp [Event.fatal?]

theorem barfs_of_log {w' : World} (same : w'.log = w.log) : w'.barfs u = w.barfs u := by
  rw [barfs, same, barfs]

theorem barfs_write (cell : Option Cell) : (w.write n cell).barfs u = w.barfs u := by
  unfold write
  split <;> rfl

variable {k : CapabilityId} {q : QueueId} {log : Log}

theorem push?_relogged (m : Message) :
    ((w.push? q m).map fun w => { w with log }) = ({ w with log } : World).push? q m := by
  simp only [push?]
  cases (w.queues[q]?).bind (·.push? m) <;> rfl

theorem christen_relogged :
    ({ w.christen k q with log } : World) = ({ w with log } : World).christen k q := by
  simp only [christen]
  cases (w.capabilities[k]?).bind (·.name) with
  | none => rfl
  | some x =>
    cases w.queues[q]? with
    | none => rfl
    | some Q =>
      simp only
      split <;> rfl

end World

/-- The log stays what it was once. -/
def Veil.log (log : Log) : Veil where
  hide w := { w with log }
  config c := c
  capability := id
  verbose := id
  eager _ := rfl
  heap _ := rfl
  setHeap _ _ := rfl
  tasks _ := rfl
  setTasks _ _ := rfl
  counters _ := rfl
  setCounters _ _ := rfl
  names _ := rfl
  context _ _ := rfl
  setContext _ _ _ := rfl
  registry _ _ := rfl
  setRegistry _ _ _ := rfl
  isClosed _ _ := rfl
  queues _ := rfl
  addQueue _ _ _ := rfl
  push? _ _ _ := World.push?_relogged _
  christen _ _ _ := World.christen_relogged
  enrol _ _ _ := rfl
  withdraw _ _ _ := rfl

/-- Only errands report. -/
theorem Thread.log_proceed : (t.proceed w).1.log = w.log := by
  have same : (Veil.log w.log).turn [] (t.proceed w) =
      (t.over []).proceed ((Veil.log w.log).hide w) :=
    Thread.veil_proceed (fun _ _ => rfl) fun _ _ => rfl
  rw [Thread.over_nil, show (Veil.log w.log).hide w = w from rfl] at same
  rw [← same]
  rfl

/-! ## Reports to come -/

def Action.fatal? : Action → Option (TaskId × GraphError)
  | .emit e => e.fatal?
  | _ => none

/-- Neither a gate nor the report of a fatal error. -/
def Action.isMild : Action → Bool
  | .gate _ => false
  | a => a.fatal?.isNone

def Control.fatal? : Control → Option GraphError
  | .fail e => if e.isFatal then some e else none
  | _ => none

/-- No fatal error is to be reported. -/
def Thread.Mute (t : Thread) : Prop :=
  ∀ a ∈ t.agenda, a.fatal? = none

/-- If the thread has come to a fatal error, it is about to report it. -/
inductive Thread.Frank (me : TaskId) (t : Thread) : Prop
  | calm (calm : t.control.fatal? = none) (mute : t.Mute)
  | alarm {e as} (at' : t.control = .fail e) (fatal : e.isFatal = true)
    (next : t.agenda = .emit (.fatal me e) :: as) (mild : ∀ a ∈ as, a.isMild)

theorem Action.fatal?_of_isMild {a : Action} (mild : a.isMild) : a.fatal? = none := by
  cases a <;> first | rfl | exact Option.isNone_iff_eq_none.1 mild

theorem Control.fatal?_of_isSober {c : Control} (sober : c.isSober = true) : c.fatal? = none := by
  cases c with
  | fail e =>
    have mild : e.isFatal = false := by simpa [isSober] using sober
    simp [fatal?, mild]
  | _ => rfl

theorem mild_of_giveUp {claim : Bool} {a : Action} (known : a ∈ giveUp n claim) :
    a.isMild := by
  cases claim with
  | false => cases known
  | true => exact List.mem_singleton.1 known ▸ rfl

theorem mild_of_wakeQueue {q : QueueId} {a : Action} (known : a ∈ wakeQueue q) :
    a.isMild := by
  simp only [wakeQueue, List.mem_cons, List.not_mem_nil, or_false] at known
  rcases known with rfl | rfl <;> rfl

theorem mild_of_afterSurrender {seen : Slot} {a : Action}
    (known : a ∈ afterSurrender me seen) : a.isMild := by
  rcases List.mem_cons.1 known with rfl | wakes
  · rfl
  · cases found : seen.queue? with
    | none => simp [found] at wakes
    | some q =>
      rw [found] at wakes
      exact mild_of_wakeQueue wakes

theorem mild_of_report {note : Note} {k : CapabilityId} {q : QueueId} {count : Nat} {a : Action}
    (known : a ∈ note.report k q count) : a.isMild := by
  cases note with
  | silent => cases known
  | woke | released => exact List.mem_singleton.1 known ▸ rfl

/-- Errands plan mild errands only. -/
theorem Action.perform_mild {a : Action} (passes : ∀ g, a ≠ .gate g) :
    ∃ new, (a.perform w t).2 = { t with agenda := new ++ t.agenda } ∧ ∀ b ∈ new, b.isMild := by
  have one : ∀ {b : Action}, b.isMild → ∀ c ∈ [b], c.isMild := fun mild c known =>
    List.mem_singleton.1 known ▸ mild
  have none : ∀ b ∈ ([] : List Action), b.isMild := by simp
  cases a with
  | gate g => exact absurd rfl (passes g)
  | emit | wake | «seal» | withdraw | clear | release => exact ⟨[], rfl, none⟩
  | drain q note =>
    refine ⟨_, rfl, fun b known => ?_⟩
    rcases List.mem_append.1 known with wakes | report
    · obtain ⟨m, -, rfl⟩ := List.mem_map.1 wakes
      rfl
    · exact mild_of_report report
  | sweep u => exact ⟨[.examine u _ []], rfl, one rfl⟩
  | examine u todo ready =>
    cases todo with
    | nil => exact ⟨[.dismiss u ready], rfl, one rfl⟩
    | cons q todo =>
      simp only [perform]
      split
      · exact ⟨[.examine u todo (ready ++ [q])], rfl, one rfl⟩
      · exact ⟨[.inspect u q todo ready], rfl, one rfl⟩
  | inspect u q todo ready => exact ⟨[.examine u todo _], rfl, one rfl⟩
  | dismiss u ready =>
    cases ready with
    | nil => exact ⟨[], rfl, none⟩
    | cons q ready =>
      simp only [perform]
      split
      · refine ⟨[.drain q (.released u), .dismiss u ready], rfl, fun b known => ?_⟩
        simp only [List.mem_cons, List.not_mem_nil, or_false] at known
        rcases known with rfl | rfl <;> rfl
      · exact ⟨[.dismiss u ready], rfl, one rfl⟩
  | overwrite n v =>
    refine ⟨_, rfl, fun b known => ?_⟩
    cases found : (w.slot n).queue? with
    | none => simp [found] at known
    | some q =>
      obtain rfl : b = .drain q .silent := by simpa [found] using known
      rfl
  | abandon n =>
    simp only [perform]
    split
    · exact ⟨[.surrender n (w.slot n)], rfl, one rfl⟩
    · exact ⟨[], rfl, none⟩
  | surrender n seen =>
    simp only [perform]
    split
    · exact ⟨_, rfl, fun b known => mild_of_afterSurrender known⟩
    · exact ⟨[.abandon n], rfl, one rfl⟩

/-! ## Steps of host code -/

namespace Thread

variable {c : Control} {as : List Action}

theorem mute_plan :
    (t.plan as c).Mute ↔ (∀ a ∈ as, a.fatal? = none) ∧ t.Mute := by
  simp [Mute, plan, or_imp, forall_and]

theorem mute_giveField (mute : t.Mute) (field : Except GraphError Field) :
    (t.giveField w field).2.Mute := by
  unfold giveField
  split <;> exact mute

theorem mute_withArgs (mute : t.Mute) (env : Env) (f : List Arg → Value) :
    (t.withArgs w env f).2.Mute := by
  unfold withArgs
  split <;> exact mute

theorem mute_readRegister (mute : t.Mute) (kind : FieldKind) : (t.readRegister w kind).2.Mute := by
  unfold readRegister
  dsimp only
  split <;> exact mute

theorem mute_onThunk (mute : t.Mute) (op : ThunkOp) (v : Option NodeId) :
    (t.onThunk w op n v).2.Mute := by
  have planned : ∀ {a : Action}, a.fatal? = none → ∀ b ∈ [a], b.fatal? = none :=
    fun mild b known => List.mem_singleton.1 known ▸ mild
  unfold onThunk
  split
  · exact mute
  · split <;> first | exact mute | exact mute_plan.2 ⟨planned rfl, mute⟩

theorem mute_perform (mute : t.Mute) (p : Prim) (operands : List NodeId) (env : Env) :
    (t.perform w p operands env).2.Mute := by
  cases p with
  | box v | data tag layout | sum | difference | product | read x | depth | increment x
  | raise message | panic message | revert r => exact mute
  | gate g => exact mute_plan.2 ⟨fun b known => List.mem_singleton.1 known ▸ rfl, mute⟩
  | application | selector kind index | evaluate | enter | blackHole | apply layout =>
    cases operands <;> exact mute
  | bytecode code =>
    simp only [perform]
    split <;> exact mute
  | less => rcases operands with _ | ⟨a, _ | ⟨b, rest⟩⟩ <;> exact mute
  | last =>
    simp only [perform]
    split <;> exact mute
  | shape | count => exact mute_withArgs mute env _
  | register kind => exact mute_readRegister mute kind
  | onThunk op =>
    cases operands with
    | nil => exact mute
    | cons n rest => exact mute_onThunk mute op rest.head?
  | field kind index =>
    cases operands with
    | nil => exact mute
    | cons n rest =>
      simp only [perform]
      split
      · exact mute_giveField mute _
      · exact mute

theorem mute_run (mute : t.Mute) (code : Code) (env : Env) : (t.run w code env).2.Mute := by
  cases code with
  | captured x | named x =>
    simp only [run]
    split <;> exact mute
  | arg i up =>
    simp only [run]
    split
    · exact mute
    · split <;> exact mute
  | «suspend» body | constant r body | lambda name arity body | branch scrutinee yes no
  | probe subject other | recover body handler => exact mute
  | prim p operands =>
    cases operands with
    | nil => exact mute_perform mute p [] env
    | cons c cs => exact mute

theorem mute_callFunction (mute : t.Mute) (arity : Nat) (body : Code) (env : Env)
    (args : List Arg) : (t.callFunction w n arity body env args).2.Mute := by
  unfold callFunction
  dsimp only
  split
  · exact mute
  · split <;> exact mute

theorem mute_call (mute : t.Mute) (args : List Arg) : (t.call w n args).2.Mute := by
  unfold call
  split
  · split <;> exact mute
  · exact mute_callFunction mute _ _ _ args
  · split <;> exact mute
  · exact mute
  · exact mute

theorem mute_project (mute : t.Mute) (kind : FieldKind) (index : Nat) (producer : NodeId) :
    (t.project w kind index producer n).2.Mute := by
  unfold project
  dsimp only
  split
  · split <;> exact mute
  · exact mute
  · exact mute

theorem mute_give (mute : t.Mute) : (t.give w n).2.Mute := by
  unfold give
  split
  · exact mute
  · rename_i frame stack top
    cases frame with
    | operands p done rest env => cases rest <;> exact mute
    | project kind index producer =>
      exact mute_project (t := { t with stack }) mute kind index producer
    | settling m claim =>
      exact mute_plan.2 ⟨fun b known => List.mem_singleton.1 known ▸ rfl, mute⟩
    | _ => exact mute

theorem mute_detour (mute : t.Mute) (afterwards : Bool) (next : Control) :
    (t.detour w afterwards next).2.Mute := by
  simp only [detour]
  split
  · split
    · exact mute_plan.2 ⟨fun b known => List.mem_singleton.1 known ▸ rfl, mute⟩
    · exact mute
  · exact mute

theorem mute_publish (mute : t.Mute) (x : Waiting) (blocked : Bool) :
    (t.publish w x blocked).2.Mute := by
  have next : ∀ es : List Event, (∀ e ∈ es, e.fatal? = none) →
      Mute (if blocked then
          t.plan ((es ++ [Event.blocked x.thunk (t.me w)]).map .emit) (.suspend x.thunk x.claim)
        else t.plan (es.map .emit) (.force x.thunk x.claim)) := by
    intro es mild
    have silent : ∀ {es : List Event}, (∀ e ∈ es, e.fatal? = none) →
        ∀ a ∈ es.map Action.emit, a.fatal? = none := by
      intro es mild a known
      obtain ⟨e, among, rfl⟩ := List.mem_map.1 known
      exact mild e among
    split
    · refine mute_plan.2 ⟨silent fun e known => ?_, mute⟩
      rcases List.mem_append.1 known with old | last
      · exact mild e old
      · exact List.mem_singleton.1 last ▸ rfl
    · exact mute_plan.2 ⟨silent mild, mute⟩
  simp only [publish]
  split
  · exact next [] (by simp)
  · split
    · exact next [.queued x.thunk x.owner] fun e known => List.mem_singleton.1 known ▸ rfl
    · exact mute_plan.2 ⟨fun b known => List.mem_singleton.1 known ▸ rfl, mute⟩

theorem mute_afterInstall {seen : Slot} {a : Action} (known : a ∈ afterInstall me seen) :
    a.fatal? = none := by
  unfold afterInstall at known
  split at known
  · cases known
  · rcases List.mem_append.1 known with wakes | sweeps
    · exact Action.fatal?_of_isMild (mild_of_wakeQueue wakes)
    · split at sweeps
      · cases sweeps
      · exact List.mem_singleton.1 sweeps ▸ rfl
  · split at known
    · cases known
    · exact List.mem_singleton.1 known ▸ rfl
  · exact List.mem_singleton.1 known ▸ rfl

/-! ## Steps of the evaluator -/

theorem frank_of_isSober (mute : t.Mute) (sober : t.control.isSober = true) : t.Frank me :=
  .calm (Control.fatal?_of_isSober sober) mute

theorem frank_abort (idle : t.agenda = []) {e : GraphError} (fatal : e.isFatal = true) :
    (t.abort w e).2.Frank (t.me w) :=
  .alarm rfl fatal rfl (by simp [idle])

theorem frank_start (idle : t.agenda = []) (claim : Bool) :
    (t.start w n claim).2.Frank (t.me w) := by
  have mute : t.Mute := by simp [Mute, idle]
  unfold start
  dsimp only
  split
  · exact .calm rfl mute
  · refine .alarm rfl rfl rfl fun a known => ?_
    have given : a ∈ giveUp n claim := by simpa [idle, giveUp] using known
    exact mild_of_giveUp given

theorem frank_run (mute : t.Mute) (code : Code) (env : Env) : (t.run w code env).2.Frank me := by
  refine .calm ?_ (mute_run mute code env)
  by_cases constant : ∃ r body, code = .constant r body
  · obtain ⟨r, body, rfl⟩ := constant
    simp only [run, goto]
    split <;> rfl
  · exact Control.fatal?_of_isSober (sober_run env fun r body is => constant ⟨r, body, is⟩)

theorem frank_perform (mute : t.Mute) (p : Prim) (operands : List NodeId) (env : Env) :
    (t.perform w p operands env).2.Frank me := by
  refine .calm ?_ (mute_perform mute p operands env)
  by_cases bare : p = .enter
  · subst bare
    cases operands <;> rfl
  · exact Control.fatal?_of_isSober (sober_perform bare operands env)

theorem frank_call (mute : t.Mute) (args : List Arg) : (t.call w n args).2.Frank me := by
  refine .calm ?_ (mute_call mute args)
  unfold call
  split
  · split <;> rfl
  · exact Control.fatal?_of_isSober (sober_callFunction _ _ _ args)
  · split <;> rfl
  · rfl
  · rfl

theorem frank_enter (idle : t.agenda = []) : (t.enter w n).2.Frank (t.me w) := by
  have mute : t.Mute := by simp [Mute, idle]
  unfold enter
  split
  · exact .calm rfl mute
  · exact frank_abort idle rfl
  · exact .calm rfl mute

theorem frank_force (idle : t.agenda = []) (claim : Bool) :
    (t.force w n claim).2.Frank (t.me w) := by
  have mute : t.Mute := by simp [Mute, idle]
  unfold force
  split
  · exact .calm (by cases claim <;> rfl) mute
  · exact .calm rfl mute
  · split
    · exact frank_abort idle rfl
    · exact .calm rfl mute

theorem frank_recheck (idle : t.agenda = []) (claim : Bool) :
    (t.recheck w n claim).2.Frank (t.me w) := by
  unfold recheck
  split
  · exact frank_abort idle rfl
  · exact .calm rfl (by simp [Mute, goto, idle])

theorem frank_attach (idle : t.agenda = []) (claim : Bool) (at' : t.control = .attach n claim) :
    (t.attach w n claim).2.Frank (t.me w) := by
  have mute : t.Mute := by simp [Mute, idle]
  unfold attach
  split
  · exact .calm rfl mute
  · exact .calm rfl mute
  · split
    · exact frank_abort idle rfl
    · exact .calm rfl mute
  · exact .calm (by rw [at']; rfl) mute
  · split
    · exact frank_abort idle rfl
    · exact .calm rfl mute

theorem frank_body (mute : t.Mute) (claim : Bool) : (t.body w n claim).2.Frank me := by
  unfold body
  dsimp only
  split
  · exact .calm rfl mute
  · exact .calm rfl mute
  · exact .calm (Control.fatal?_of_isSober (Control.isSober_applyStored _ _)) mute
  · exact .calm rfl mute
  · refine .calm rfl (mute_plan.2 ⟨fun a known => ?_, mute⟩)
    exact Action.fatal?_of_isMild (mild_of_giveUp known)

theorem frank_update (mute : t.Mute) {v : NodeId} : (t.update w n v).2.Frank me := by
  unfold update
  split
  · refine .calm rfl (mute_plan.2 ⟨fun a known => ?_, mute⟩)
    simp only [List.mem_cons, List.not_mem_nil, or_false] at known
    rcases known with rfl | rfl <;> rfl
  · exact .calm rfl mute

theorem frank_install (mute : t.Mute) {v : NodeId} (seen : Slot) :
    (t.install w n v seen).2.Frank me := by
  unfold install
  split
  · refine .calm rfl (mute_plan.2 ⟨fun a known => ?_, mute⟩)
    rcases List.mem_append.1 known with first | last
    · rcases List.mem_cons.1 first with rfl | wakes
      · rfl
      · exact mute_afterInstall wakes
    · exact List.mem_singleton.1 last ▸ rfl
  · exact .calm rfl mute

theorem frank_revert (mute : t.Mute) {r : String} (at' : t.control = .revert r) :
    (t.revert w r).2.Frank me := by
  unfold revert
  dsimp only
  split
  · exact .calm (by rw [at']; rfl) mute
  · refine .calm rfl (mute_plan.2 ⟨fun a known => ?_, mute⟩)
    rcases List.mem_append.1 known with resets | rest
    · obtain ⟨m, -, rfl⟩ := List.mem_map.1 resets
      rfl
    · simp only [List.mem_cons, List.not_mem_nil, or_false] at rest
      rcases rest with rfl | rfl <;> rfl

/-- A thread that comes to a fatal error plans to report it before all else. -/
theorem frank_proceed (idle : t.agenda = []) (inside : t.control.isExit = false) :
    (t.proceed w).2.Frank (t.me w) := by
  have mute : t.Mute := by simp [Mute, idle]
  have single : ∀ {a : Action}, a.fatal? = none → ∀ b ∈ [a], b.fatal? = none :=
    fun mild b known => List.mem_singleton.1 known ▸ mild
  unfold proceed
  cases at' : t.control with
  | fail | unwind => simp [at', Control.isExit] at inside
  | run c env => exact frank_run mute c env
  | perform p operands env => exact frank_perform mute p operands env
  | give n => exact frank_of_isSober (mute_give mute) (sober_give at')
  | enter n => exact frank_enter idle
  | call n args => exact frank_call mute args
  | force n claim => exact frank_force idle claim
  | start n claim => exact frank_start idle claim
  | recheck n claim => exact frank_recheck idle claim
  | attach n claim => exact frank_attach idle claim at'
  | apply n args => exact .calm rfl (mute_plan.2 ⟨single rfl, mute⟩)
  | enlist x => exact frank_of_isSober (mute_detour mute false _) (sober_detour _ rfl)
  | enlisted x blocked => exact frank_of_isSober (mute_detour mute true _) (sober_detour _ rfl)
  | publish x blocked =>
    exact frank_of_isSober (mute_publish mute x blocked) (sober_publish x blocked)
  | gather | enrol | retract | «suspend» => exact .calm rfl mute
  | body n claim => exact frank_body mute claim
  | update n v => exact frank_update mute
  | install n v seen => exact frank_install mute seen
  | peek n other env =>
    dsimp only
    split <;> exact .calm rfl mute
  | evaluate | lock | join | probe | exchange =>
    simp only [evaluate, lock, join, probe, exchange]
    split <;> exact .calm rfl mute
  | seize | confirm =>
    simp only [seize, confirm]
    split <;> first | exact .calm rfl mute | exact .calm rfl (mute_plan.2 ⟨single rfl, mute⟩)
  | parked n claim =>
    simp only [park]
    split
    · exact .calm rfl mute
    · split
      · exact .calm (by rw [at']; rfl) mute
      · exact .calm rfl mute
  | register r n =>
    simp only [register]
    split
    · exact .calm (by rw [at']; rfl) mute
    · exact .calm rfl (mute_plan.2 ⟨single rfl, mute⟩)
  | revert r => exact frank_revert mute at'

/-- Host code catches the error. -/
def catches (t : Thread) : Bool :=
  match t.agenda, t.control, t.stack with
  | [], .fail _, .handler _ _ :: _ => true
  | _, _, _ => false

/-- On its way through the frames an error or a panic is not reported as a fatal error. -/
theorem mild_of_exit (idle : t.agenda = []) (exit : t.control.isExit = true) :
    (∀ a ∈ (t.proceed w).2.agenda, a.isMild) ∧
      (t.catches = false → (t.proceed w).2.control = t.control) := by
  have none : ∀ a ∈ t.agenda, a.isMild := by simp [idle]
  have up : ∀ {m : NodeId} {claim : Bool},
      ∀ a ∈ (if claim then [Action.abandon m] else []) ++ t.agenda, a.isMild :=
    fun {m claim} a known => by
      rw [idle, List.append_nil] at known
      have given : a ∈ giveUp m claim := known
      exact mild_of_giveUp given
  cases at' : t.control with
  | fail e =>
    have step : t.proceed w = t.fail w e := by simp only [proceed, at']
    rw [step]
    unfold fail
    split
    · exact ⟨none, fun _ => at'⟩
    · rename_i frame stack top
      cases frame with
      | handler c env => exact ⟨none, fun lets => by simp [catches, idle, at', top] at lets⟩
      | running m claim | settling m claim => exact ⟨up, fun _ => rfl⟩
      | _ => exact ⟨none, fun _ => at'⟩
  | unwind message =>
    have step : t.proceed w = t.unwind w message := by simp only [proceed, at']
    rw [step]
    unfold unwind
    split
    · exact ⟨none, fun _ => at'⟩
    · rename_i frame stack top
      cases frame with
      | running m claim | settling m claim =>
        refine ⟨fun a known => ?_, fun _ => rfl⟩
        simp only [plan, idle, List.append_nil] at known
        cases claim with
        | false => cases known
        | true =>
          simp only [if_true, List.mem_cons, List.not_mem_nil, or_false] at known
          rcases known with rfl | rfl <;> rfl
      | _ => exact ⟨none, fun _ => at'⟩
  | _ => simp [at', Control.isExit] at exit

/-- Whoever reports a fatal error reports it in its own name. -/
def Honest (w : World) (t : Thread) : Prop :=
  ∀ v e, .emit (.fatal v e) ∈ t.agenda → v = t.me w

end Thread

theorem not_fatal_of_mild {as : List Action} (mild : ∀ a ∈ as, a.isMild) {v : TaskId}
    {e : GraphError} : .emit (.fatal v e) ∉ as :=
  fun known => by cases mild _ known

theorem barfs_perform {a : Action} (other : ∀ e, a ≠ .emit (.fatal u e)) :
    (a.perform w t).1.barfs u = w.barfs u := by
  cases a with
  | emit e => exact World.barfs_emit_other t.context fun x is => other x (by rw [is])
  | gate g =>
    simp only [Action.perform]
    split <;> rfl
  | examine task todo ready =>
    cases todo with
    | nil => rfl
    | cons q todo =>
      simp only [Action.perform]
      split <;> rfl
  | dismiss task ready =>
    cases ready with
    | nil => rfl
    | cons q ready =>
      simp only [Action.perform]
      split <;> rfl
  | overwrite n v => exact World.barfs_write _
  | clear n =>
    obtain ⟨heap, same⟩ : ∃ heap, w.release n = { w with heap } := World.release_eq
    simp only [Action.perform, same]
    rfl
  | abandon n =>
    simp only [Action.perform]
    split <;> rfl
  | surrender n seen =>
    simp only [Action.perform, World.exchange?]
    split
    · rename_i w' taken
      split at taken
      · cases taken
        exact World.barfs_write _
      · cases taken
    · rfl
  | _ => rfl

theorem barfs_step (honest : t.Honest w) (other : t.me w ≠ u) :
    (t.step w).1.barfs u = w.barfs u := by
  cases next : t.agenda with
  | nil =>
    rw [Thread.step_idle next]
    exact World.barfs_of_log Thread.log_proceed
  | cons a as =>
    rw [Thread.step_cons next]
    refine barfs_perform ?_
    rintro e rfl
    exact other (honest u e (by simp [next])).symm

theorem Thread.Honest.step (honest : t.Honest w) : (t.step w).2.Honest (t.step w).1 := by
  intro v e known
  rw [(step_cases w t).me]
  cases next : t.agenda with
  | nil =>
    rw [Thread.step_idle next] at known
    cases exit : t.control.isExit with
    | true => exact absurd known (not_fatal_of_mild (mild_of_exit next exit).1)
    | false =>
      cases frank_proceed (w := w) next exit with
      | calm _ mute => cases mute _ known
      | alarm _ _ reports mild =>
        rw [reports] at known
        rcases List.mem_cons.1 known with is | later
        · cases is
          rfl
        · exact absurd later (not_fatal_of_mild mild)
  | cons a as =>
    rw [Thread.step_cons next] at known
    have before : ∀ v e, .emit (.fatal v e) ∈ as → v = t.me w := fun v e old =>
      honest v e (by rw [next]; exact List.mem_cons_of_mem _ old)
    by_cases gate : ∃ g, a = .gate g
    · obtain ⟨g, rfl⟩ := gate
      simp only [Action.perform] at known
      split at known
      · rcases List.mem_cons.1 known with is | old
        · cases is
        · exact before v e old
      · exact before v e known
    · obtain ⟨new, after, mild⟩ := Action.perform_mild (w := w)
        (t := { t with agenda := as }) fun g is => gate ⟨g, is⟩
      rw [after] at known
      rcases List.mem_append.1 known with fresh | old
      · exact absurd fresh (not_fatal_of_mild mild)
      · exact before v e old

/-! ## One call -/

/-- What task `me` has told of a call so far, `before` being what it had told already. Worlds that
the call has seen are in the `past`. -/
inductive Tale (me : TaskId) (before : List Record) (past : World → Prop) (w : World)
    (t : Thread) : Prop
  | quiet (calm : t.control.fatal? = none) (mute : t.Mute) (log : w.barfs me = before)
  | due {e as} (at' : t.control = .fail e) (fatal : e.isFatal = true)
    (next : t.agenda = .emit (.fatal me e) :: as) (mild : ∀ a ∈ as, a.isMild)
    (log : w.barfs me = before)
  | told {e v} (at' : t.control = .fail e) (fatal : e.isFatal = true)
    (mild : ∀ a ∈ t.agenda, a.isMild) (seen : past v)
    (log : w.barfs me = before ++ [v.record (.fatal me e)])

namespace Tale

variable {before : List Record} {past past' : World → Prop}

theorem mono (tale : Tale me before past w t) (longer : ∀ v, past v → past' v) :
    Tale me before past' w t := by
  cases tale with
  | quiet calm mute log => exact .quiet calm mute log
  | due at' fatal next mild log => exact .due at' fatal next mild log
  | told at' fatal mild seen log => exact .told at' fatal mild (longer _ seen) log

theorem of_log {w' : World} (tale : Tale me before past w t) (same : w'.barfs me = w.barfs me) :
    Tale me before past w' t := by
  cases tale with
  | quiet calm mute log => exact .quiet calm mute (same.trans log)
  | due at' fatal next mild log => exact .due at' fatal next mild (same.trans log)
  | told at' fatal mild seen log => exact .told at' fatal mild seen (same.trans log)

/-- At a gate nothing is told. -/
theorem pass {g : String} {as : List Action} (tale : Tale me before past w t)
    (next : t.agenda = .gate g :: as) : Tale me before past w { t with agenda := as } := by
  cases tale with
  | quiet calm mute log =>
    exact .quiet calm (fun a known => mute a (by rw [next]; exact List.mem_cons_of_mem _ known)) log
  | due _ _ reports =>
    rw [next] at reports
    cases reports
  | told _ _ mild => cases mild (.gate g) (by simp [next])

theorem proceed (tale : Tale (t.me w) before past w t) (idle : t.agenda = [])
    (lets : t.catches = false) :
    Tale (t.me w) before past (t.proceed w).1 (t.proceed w).2 := by
  have same : (t.proceed w).1.barfs (t.me w) = w.barfs (t.me w) :=
    World.barfs_of_log Thread.log_proceed
  refine of_log ?_ same
  cases exit : t.control.isExit with
  | true =>
    obtain ⟨mild, kept⟩ := Thread.mild_of_exit (w := w) idle exit
    cases tale with
    | quiet calm mute log =>
      exact .quiet (by rw [kept lets, calm]) (fun a known => Action.fatal?_of_isMild (mild a known))
        log
    | due _ _ reports =>
      rw [idle] at reports
      cases reports
    | told at' fatal _ seen log => exact .told ((kept lets).trans at') fatal mild seen log
  | false =>
    have log : w.barfs (t.me w) = before := by
      cases tale with
      | quiet _ _ log | due _ _ _ _ log => exact log
      | told at' =>
        rw [at'] at exit
        cases exit
    cases Thread.frank_proceed (w := w) idle exit with
    | calm calm mute => exact .quiet calm mute log
    | alarm at' fatal next mild => exact .due at' fatal next mild log

theorem step (tale : Tale (t.me w) before past w t) (lets : t.catches = false) (here : past w) :
    Tale (t.me w) before past (t.step w).1 (t.step w).2 := by
  cases next : t.agenda with
  | nil =>
    rw [Thread.step_idle next]
    exact tale.proceed next lets
  | cons a as =>
    rw [Thread.step_cons next]
    cases tale with
    | quiet calm mute log =>
      have rest : ∀ b ∈ as, b.fatal? = none := fun b known =>
        mute b (by rw [next]; exact List.mem_cons_of_mem _ known)
      have mild : ∀ e, a ≠ .emit (.fatal (t.me w) e) := by
        rintro e rfl
        cases mute _ (by rw [next]; exact List.mem_cons_self)
      refine of_log ?_ (barfs_perform mild)
      by_cases gate : ∃ g, a = .gate g
      · obtain ⟨g, rfl⟩ := gate
        simp only [Action.perform]
        split
        · refine .quiet calm (fun b known => ?_) log
          rcases List.mem_cons.1 known with rfl | old
          · rfl
          · exact rest b old
        · exact .quiet rfl rest log
      · obtain ⟨new, after, mild⟩ := Action.perform_mild (w := w)
          (t := { t with agenda := as }) fun g is => gate ⟨g, is⟩
        rw [after]
        refine .quiet calm (fun b known => ?_) log
        rcases List.mem_append.1 known with fresh | old
        · exact Action.fatal?_of_isMild (mild b fresh)
        · exact rest b old
    | @due e bs at' fatal reports mild log =>
      rw [next] at reports
      cases reports
      exact .told at' fatal mild here (by rw [← log]; exact World.barfs_emit_fatal t.context e)
    | told at' fatal mild seen log =>
      have first : a.isMild := mild a (by simp [next])
      have rest : ∀ b ∈ as, b.isMild := fun b known => mild b (by simp [next, known])
      have mild : ∀ e, a ≠ .emit (.fatal (t.me w) e) := by
        rintro e rfl
        cases first
      obtain ⟨new, after, planned⟩ := Action.perform_mild (w := w)
        (t := { t with agenda := as }) (a := a) fun g is => by
          subst is
          cases first
      refine of_log ?_ (barfs_perform mild)
      rw [after]
      refine .told at' fatal (fun b known => ?_) seen log
      rcases List.mem_append.1 known with fresh | old
      · exact planned b fresh
      · exact rest b old

end Tale

namespace Run

variable {run : Run} {i : ThreadId} {k a b depth : Nat}

theorem honest (run : Run) (k : Nat) : (run.state k).Each fun w t => t.Honest w := by
  refine run.each_found ?_ ?_ ?_ ?_ k
  · intro k i t found honest v e known
    rw [(run.change k).me (run.seats k) found]
    exact honest v e known
  · intro k i t _ honest
    exact honest.step
  · intro w t g as next honest v e known
    exact honest v e (by rw [next]; exact List.mem_cons_of_mem _ known)
  · intro w t fresh v e known
    rw [fresh.1] at known
    cases known

theorem barfs_after {s : State} {m : Move} (other : ∀ j, m ≠ .step j) :
    (s.after m).world.barfs u = s.world.barfs u := by
  cases m with
  | step j => exact absurd rfl (other j)
  | poolStarted | jobPanicked => exact World.barfs_emit_other _ fun x => by simp
  | _ => rfl

/-- Others report in their own names. -/
theorem barfs_others (turn : run.move k ≠ .step i) (found : (run.state k).threads[i]? = some t)
    (runs : t.Runs) :
    (run.state (k + 1)).world.barfs (t.me (run.state k).world) =
      (run.state k).world.barfs (t.me (run.state k).world) := by
  by_cases step : ∃ j, run.move k = .step j
  · obtain ⟨j, is⟩ := step
    cases found' : (run.state k).threads[j]? with
    | none =>
      rw [state_succ, is, State.after, State.step, found']
    | some v =>
      rw [(own_step is found').1]
      by_cases active : v.Runs
      · refine barfs_step (run.honest k j v found') fun same => turn ?_
        rw [is, (run.seats k).same_thread found' found active runs same]
      · rw [((step_cases _ v).ended active).1]
  · exact barfs_after fun j is => step ⟨j, is⟩

/-- From `a` to `b`, no host code that thread `i` runs catches an error. -/
def LetsPass (run : Run) (i : ThreadId) (a b : Nat) : Prop :=
  ∀ k, a ≤ k → k < b → ∀ t, (run.state k).threads[i]? = some t → t.catches = false

/-- While a call runs, its task tells what is to be told and no more. -/
theorem Calls.tale (calls : run.Calls i a b depth) (lets : run.LetsPass i a b)
    (found : (run.state a).threads[i]? = some t) (le : a ≤ k) (le' : k ≤ b) :
    ∃ v, (run.state k).threads[i]? = some v ∧
      v.me (run.state k).world = t.me (run.state a).world ∧
      Tale (t.me (run.state a).world) ((run.state a).world.barfs (t.me (run.state a).world))
        (fun w => ∃ m, a ≤ m ∧ m < k ∧ w = (run.state m).world) (run.state k).world v := by
  induction le with
  | refl =>
    obtain ⟨t', found', idle, call, -⟩ := calls.caller
    rw [found] at found'
    cases found'
    refine ⟨t, found, rfl, .quiet ?_ (by simp [Thread.Mute, idle]) rfl⟩
    cases at' : t.control <;> first | rfl | simp [at', Control.isCall] at call
  | @step k le ih =>
    obtain ⟨v, there, me, tale⟩ := ih (Nat.le_of_succ_le le')
    have same := (run.change k).me (run.seats k) there
    have longer : ∀ w, (∃ m, a ≤ m ∧ m < k ∧ w = (run.state m).world) →
        ∃ m, a ≤ m ∧ m < k + 1 ∧ w = (run.state m).world := by
      rintro w ⟨m, low, high, is⟩
      exact ⟨m, low, Nat.lt_succ_of_lt high, is⟩
    have tale := tale.mono longer
    by_cases turn : run.move k = .step i
    · obtain ⟨world, after⟩ := run.own_step turn there
      refine ⟨_, after, ?_, ?_⟩
      · rw [world, (step_cases _ v).me, me]
      · rw [← me] at tale ⊢
        rw [world]
        exact tale.step (lets k le le' v there) ⟨k, le, Nat.lt_succ_self k, rfl⟩
    · obtain ⟨v', there', runs⟩ := calls.runs le le'
      rw [there] at there'
      cases there'
      have log := barfs_others turn there runs
      rw [me] at log
      rcases run.not_own_step turn there with stays | ⟨g, as, gate, -, passed⟩
      · exact ⟨v, stays, same.trans me, tale.of_log log⟩
      · exact ⟨_, passed, same.trans me, (tale.pass gate).of_log log⟩

end Run

end LazyGraph

import LazyGraph.Proofs.Steps

/-!
# Every step is one of the listed transitions
-/

namespace LazyGraph

variable {w : World} {t : Thread}

/-! ## Errands -/

theorem reports_report (note : Note) (k : CapabilityId) (q : QueueId) (count : Nat) :
    ∀ a ∈ note.report k q count, a.isReport := by
  cases note <;> simp [Note.report, Action.isReport]

theorem errand_perform {a : Action} {as : List Action} (next : t.agenda = a :: as) :
    Errand w t (a.perform w { t with agenda := as }).1
      (a.perform w { t with agenda := as }).2 := by
  cases a with
  | emit e => exact .quiet next rfl (World.quiet_emit e)
  | gate g =>
    simp only [Action.perform]
    split
    · rw [show ({ t with agenda := Action.gate g :: as } : Thread) = t by rw [← next]]
      exact .stand next
    · exact .refuse next
  | wake u => exact .wake next
  | drain q note =>
    have turn := Errand.drain (w := w) next (reports_report note (w.context t.context).capability q
      (w.messages q).length)
    simpa [Action.perform] using turn
  | «seal» q => exact .seal next
  | withdraw q => exact .quiet next rfl (World.quiet_withdraw _ _)
  | sweep u => exact .sweep next fun q known => World.lists_of_pending known
  | examine u todo ready =>
    cases todo with
    | nil => exact .examined next
    | cons q todo =>
      simp only [Action.perform]
      split
      · rename_i closed
        exact .examineClosed next closed
      · exact .examineOpen next
  | inspect u q todo ready =>
    simp only [Action.perform]
    split
    · rename_i resolved
      exact .inspectResolved next resolved
    · exact .inspectOpen next
  | dismiss u ready =>
    cases ready with
    | nil => exact .dismissed next
    | cons q ready =>
      simp only [Action.perform]
      split
      · exact .dismissListed next (World.quiet_withdraw _ _)
      · exact .dismissOther next
  | overwrite n v => exact .overwrite next
  | clear n => exact .quiet next rfl World.quiet_release
  | abandon n =>
    simp only [Action.perform]
    split
    · rename_i owned
      exact .abandonOwn next owned
    · rename_i other
      exact .abandonOther next (by simpa [Thread.me] using other)
  | surrender n seen =>
    simp only [Action.perform, World.exchange?]
    by_cases same : (w.slot n).unchanged seen = true
    · simp only [same, if_true]
      have turn := Errand.surrendered next same
      simpa [Thread.me] using turn
    · have changed : (w.slot n).unchanged seen = false := by simpa using same
      simp only [changed]
      exact .surrenderMissed next changed
  | release r => exact .quiet next rfl (World.quiet_setRegistry _ _)

/-! ## Host code -/

section Code

variable (idle : t.agenda = [])

include idle

theorem host_goto {w' : World} {c : Control} (host : t.control.isCode) (quiet : w.Quiet w')
    (calm : c.isCalm) : HostStep w t w' (t.goto c) := by
  have turn := HostStep.code (l := []) (e := []) idle host quiet (by simp) calm (by simp)
  simpa [Thread.goto, ← idle] using turn

theorem host_yield (host : t.control.isCode) {w' : World} (quiet : w.Quiet w') (v : Value) :
    HostStep w t (t.yield w' v).1 (t.yield w' v).2 :=
  host_goto idle host (quiet.trans (World.quiet_value v)) rfl

theorem host_raise (host : t.control.isCode) (message : String) :
    HostStep w t (t.raise w message).1 (t.raise w message).2 :=
  host_goto idle host (World.Quiet.refl w) rfl

theorem host_push {f : Frame} {c : Control} (host : t.control.isCode) (frame : f.isCode)
    (calm : c.isCalm) : HostStep w t w (t.push f c) := by
  have turn := HostStep.code (w := w) (l := [f]) (e := []) idle host (World.Quiet.refl w)
    (by simpa using frame) calm (by simp)
  simpa [Thread.push, ← idle] using turn

theorem host_report {w' : World} {c : Control} (host : t.control.isCode) (quiet : w.Quiet w')
    (calm : c.isCalm) (es : List Event) : HostStep w t w' (t.plan (es.map .emit) c) := by
  have turn := HostStep.code (w := w) (l := []) (e := es.map .emit) idle host quiet (by simp) calm
    (.inl (by simp [Action.isReport]))
  simpa [Thread.plan, idle] using turn

theorem host_callFunction (host : t.control.isCode) (n : NodeId) (arity : Nat) (body : Code)
    (env : Env) (args : List Arg) :
    HostStep w t (t.callFunction w n arity body env args).1
      (t.callFunction w n arity body env args).2 := by
  unfold Thread.callFunction
  dsimp only
  split
  · exact host_goto idle host (World.Quiet.refl w) rfl
  · split
    · exact host_push idle host rfl rfl
    · exact host_goto idle host (World.Quiet.refl w) rfl

theorem host_call (host : t.control.isCode) (n : NodeId) (args : List Arg) :
    HostStep w t (t.call w n args).1 (t.call w n args).2 := by
  have same := World.Quiet.refl w
  unfold Thread.call
  split
  · split
    · exact host_goto idle host same rfl
    · exact host_push idle host rfl rfl
  · exact host_callFunction idle host _ _ _ _ _
  · split
    · exact host_goto idle host same rfl
    · exact host_goto idle host same rfl
  · exact host_goto idle host same rfl
  · exact host_raise idle host _

theorem host_apply (host : t.control.isCode) (n : NodeId) (args : List Arg) :
    HostStep w t (t.apply w n args).1 (t.apply w n args).2 :=
  host_report idle host (World.Quiet.refl w) rfl [.applied n (shapeOf args)]

theorem host_giveField (host : t.control.isCode) (field : Except GraphError Field) :
    HostStep w t (t.giveField w field).1 (t.giveField w field).2 := by
  have same := World.Quiet.refl w
  unfold Thread.giveField
  split
  · exact host_goto idle host same rfl
  · exact host_yield idle host same _
  · exact host_goto idle host same rfl

theorem host_onThunk {op : ThunkOp} {n : NodeId} {rest : List NodeId} {env : Env}
    (at' : t.control = .perform (.onThunk op) (n :: rest) env) :
    HostStep w t (t.onThunk w op n rest.head?).1 (t.onThunk w op n rest.head?).2 := by
  have host : t.control.isCode := by simp [at', Control.isCode]
  have same := World.Quiet.refl w
  have errand : ∀ actions, t.yieldAfter w actions =
      ((w.alloc (.value (.scalar (.int 1)))).1,
        { t with agenda := actions, control := .give (w.alloc (.value (.scalar (.int 1)))).2 }) :=
    fun actions => by simp [Thread.yieldAfter, Thread.plan, idle]
  unfold Thread.onThunk
  cases w.thunk? n with
  | none => exact host_raise idle host _
  | some thunk =>
    cases op with
    | claim | tryLock | unlock => exact .attempt idle at' rfl
    | cleared | isConstant => exact host_yield idle host same _
    | abandon =>
      simp only [errand]
      exact .abandon idle at' (World.quiet_value _)
    | clear =>
      simp only [errand]
      exact .clear idle at' (World.quiet_value _)
    | reset =>
      simp only [errand]
      exact .reset idle at' (World.quiet_value _)
    | set =>
      cases rest with
      | nil => exact host_raise idle host _
      | cons v rest =>
        simp only [List.head?_cons, errand]
        exact .set idle at' (World.quiet_value _)
    | update =>
      cases rest with
      | nil => exact host_raise idle host _
      | cons v rest =>
        have turn := HostStep.update (w := w) idle at'
        simpa [Thread.settle, Thread.plan, idle] using turn

end Code

section Code

variable (idle : t.agenda = [])

include idle

theorem host_withArgs (host : t.control.isCode) (env : Env) (f : List Arg → Value) :
    HostStep w t (t.withArgs w env f).1 (t.withArgs w env f).2 := by
  unfold Thread.withArgs
  split
  · exact host_yield idle host (World.Quiet.refl w) _
  · exact host_raise idle host _

theorem host_readRegister (host : t.control.isCode) (kind : FieldKind) :
    HostStep w t (t.readRegister w kind).1 (t.readRegister w kind).2 := by
  have same := World.Quiet.refl w
  unfold Thread.readRegister
  dsimp only
  split
  · exact host_yield idle host same _
  · exact host_goto idle host same rfl
  · exact host_raise idle host _

theorem host_arithmetic (host : t.control.isCode) (f : Int64 → Int64 → Int64) (ns : List NodeId) :
    HostStep w t (t.arithmetic w f ns).1 (t.arithmetic w f ns).2 :=
  host_yield idle host (World.Quiet.refl w) _

theorem host_build (host : t.control.isCode) (s : Suspension) :
    HostStep w t (w.alloc (.thunk ⟨s, {}⟩)).1 (t.goto (.give (w.alloc (.thunk ⟨s, {}⟩)).2)) :=
  host_goto idle host (World.quiet_thunk s) rfl

theorem host_perform {p : Prim} {operands : List NodeId} {env : Env} (host : t.control.isCode)
    (at' : ∀ op n rest, p = .onThunk op → operands = n :: rest →
      t.control = .perform (.onThunk op) (n :: rest) env)
    (blocks : ∀ n rest, p = .blackHole → operands = n :: rest →
      t.control = .perform .blackHole (n :: rest) env) :
    HostStep w t (t.perform w p operands env).1 (t.perform w p operands env).2 := by
  have same := World.Quiet.refl w
  have go := fun {c : Control} (calm : c.isCalm) => host_goto idle host same calm
  have none := host_raise (w := w) idle host "no operand"
  have yields := fun v => host_yield (w := w) idle host same v
  cases p with
  | box v => exact yields _
  | data tag layout => exact yields _
  | application =>
    cases operands with
    | nil => exact none
    | cons f args => exact host_build idle host _
  | selector kind index =>
    cases operands with
    | nil => exact none
    | cons producer rest => exact host_build idle host _
  | bytecode code =>
    simp only [Thread.perform]
    split
    · exact go rfl
    · exact yields _
  | evaluate | enter | apply =>
    cases operands with
    | nil => exact none
    | cons n rest => exact go rfl
  | blackHole =>
    cases operands with
    | nil => exact none
    | cons n rest =>
      simp only [Thread.perform]
      split
      · exact go rfl
      · rename_i free
        exact .blackHole idle (blocks n rest rfl rfl) (by simpa using free)
  | sum | difference | product => exact host_arithmetic idle host _ _
  | less =>
    rcases operands with _ | ⟨a, _ | ⟨b, rest⟩⟩
    · exact none
    · exact none
    · exact yields _
  | last =>
    simp only [Thread.perform]
    split
    · exact go rfl
    · exact yields _
  | raise message => exact host_raise idle host _
  | panic message => exact go rfl
  | read x => exact yields _
  | increment x => exact host_yield idle host (World.quiet_assign _ _) _
  | gate g =>
    have turn := HostStep.code (l := []) (e := [.gate g]) (c := .give w.heap.size) idle host
      (World.quiet_value (w := w) (.scalar (.int 0))) (by simp) rfl (.inr ⟨g, _, rfl, rfl⟩)
    simpa [Thread.perform, Thread.plan, idle, World.alloc] using turn
  | shape | count => exact host_withArgs idle host _ _
  | register kind => exact host_readRegister idle host _
  | depth => exact yields _
  | onThunk op =>
    cases operands with
    | nil => exact none
    | cons n rest => exact host_onThunk idle (at' op n rest rfl rfl)
  | revert r => exact go rfl
  | field kind index =>
    cases operands with
    | nil => exact none
    | cons n rest =>
      simp only [Thread.perform]
      split
      · exact host_giveField idle host _
      · exact host_raise idle host _

theorem host_run {c : Code} {env : Env} (at' : t.control = .run c env) :
    HostStep w t (t.run w c env).1 (t.run w c env).2 := by
  have host : t.control.isCode := by simp [at', Control.isCode]
  have same := World.Quiet.refl w
  cases c with
  | captured x | named x =>
    simp only [Thread.run]
    split
    · exact host_goto idle host same rfl
    · exact host_raise idle host _
  | arg i up =>
    simp only [Thread.run]
    split
    · exact host_raise idle host _
    · split
      · exact host_raise idle host _
      · exact host_goto idle host same rfl
      · exact host_yield idle host same _
  | suspend body => exact host_build idle host _
  | constant r body =>
    refine host_goto idle host (World.quiet_thunk _) ?_
    split <;> rfl
  | lambda name arity body => exact host_yield idle host same _
  | prim p operands =>
    cases operands with
    | nil =>
      exact host_perform idle host (fun _ _ _ _ is => by cases is) fun _ _ _ is => by cases is
    | cons c cs => exact host_push idle host rfl rfl
  | branch scrutinee yes no => exact host_push idle host rfl rfl
  | probe subject other => exact host_push idle host rfl rfl
  | recover body handler => exact host_push idle host rfl rfl

theorem step_register {r : String} {n : NodeId} (at' : t.control = .register r n) :
    Step w t (t.register w r n).1 (t.register w r n).2 := by
  have host : t.control.isCode := by simp [at', Control.isCode]
  unfold Thread.register
  dsimp only
  split
  · exact .stay
  · exact .host (host_report idle host (World.quiet_setRegistry _ _) rfl [_])

theorem step_revert {r : String} (at' : t.control = .revert r) :
    Step w t (t.revert w r).1 (t.revert w r).2 := by
  unfold Thread.revert
  dsimp only
  split
  · exact .stay
  · refine .host ?_
    simp only [Thread.plan, idle, List.append_nil]
    refine .revert idle at' ((World.quiet_setRegistry _ _).trans (World.quiet_value _)) ?_
    intro a known
    simp only [List.mem_append, List.mem_map, List.mem_cons, List.not_mem_nil, or_false] at known
    rcases known with ⟨n, -, rfl⟩ | rfl | rfl
    · exact .inl ⟨n, rfl⟩
    · exact .inr (.inl rfl)
    · exact .inr (.inr rfl)

end Code

/-! ## Frames -/

section Frames

variable (idle : t.agenda = [])

include idle

theorem give_code {n : NodeId} {f : Frame} {rest : List Frame} (at' : t.control = .give n)
    (top : t.stack = f :: rest) (kind : f.isCode) :
    HostStep w t (t.give w n).1 (t.give w n).2 := by
  have go : ∀ {w' : World} {c : Control}, w.Quiet w' → c.isCalm →
      HostStep w t w' { t with stack := rest, control := c } := fun quiet calm =>
    .giveCode (l := []) idle at' top kind quiet (by simp) calm
  have same := World.Quiet.refl w
  simp only [Thread.give, top]
  cases f with
  | operands p done todo env =>
    cases todo with
    | nil => exact go same rfl
    | cons c cs =>
      have turn := HostStep.giveCode (w := w) (l := [.operands p (done ++ [n]) cs env])
        (c := .run c env) idle at' top kind same (by simp [Frame.isCode]) rfl
      simpa [Thread.push] using turn
  | branch yes no env => exact go same rfl
  | probe other env => exact go same rfl
  | handler c env => exact go same rfl
  | applyTo args => exact go same rfl
  | project field index producer =>
    have registers : ∀ registers, w.Quiet (w.setContext t.context
        { w.context t.context with registers }) := fun _ => World.quiet_setContext rfl rfl rfl
    simp only [Thread.project]
    split
    · split
      · exact go same rfl
      · exact go (registers _) rfl
      · exact go ((registers _).trans (World.quiet_value _)) rfl
    · exact go same rfl
    · exact go same rfl
  | again | running | settling | leaving => simp [Frame.isCode] at kind

theorem step_give {n : NodeId} (at' : t.control = .give n) :
    Step w t (t.give w n).1 (t.give w n).2 := by
  cases top : t.stack with
  | nil =>
    simp only [Thread.give, top]
    exact .stay
  | cons f rest =>
    refine .host ?_
    cases kind : f.isCode with
    | true => exact give_code idle at' top kind
    | false =>
      cases f with
      | again =>
        simpa [Thread.give, top, Thread.goto] using HostStep.giveAgain (w := w) idle at' top
      | running m claim =>
        simpa [Thread.give, top, Thread.push] using HostStep.giveRunning (w := w) idle at' top
      | settling m claim =>
        have turn := HostStep.giveSettling (w := w) idle at' top
        simpa [Thread.give, top, Thread.settle, Thread.plan, idle] using turn
      | leaving m =>
        simpa [Thread.give, top, Thread.goto, Thread.leave] using
          HostStep.giveLeaving (w := w) idle at' top
      | _ => simp [Frame.isCode] at kind

theorem step_fail {e : GraphError} (at' : t.control = .fail e) :
    Step w t (t.fail w e).1 (t.fail w e).2 := by
  have exit : t.control.isExit := by simp [at', Control.isExit]
  cases top : t.stack with
  | nil =>
    simp only [Thread.fail, top]
    exact .stay
  | cons f rest =>
    refine .host ?_
    simp only [Thread.fail, top]
    have drop : f.isCode → HostStep w t w { t with stack := rest } := fun kind =>
      .dropCode idle exit top kind (.inl rfl)
    cases f with
    | handler c env => exact .dropCode idle exit top rfl (.inr ⟨c, env, rfl⟩)
    | operands | branch | probe | applyTo | project => exact drop rfl
    | again => exact .dropAgain idle exit top
    | running n claim =>
      have turn := HostStep.dropEvaluation (w := w) (e := []) idle exit top (.inl rfl) (by simp)
      simpa [Thread.plan, Thread.leave, idle, at', giveUp] using turn
    | settling n claim =>
      have turn := HostStep.dropEvaluation (w := w) (e := []) idle exit top (.inr rfl) (by simp)
      simpa [Thread.plan, Thread.leave, idle, at', giveUp] using turn
    | leaving n => exact .dropLeaving idle exit top

theorem drop_panicked {message : String} {f : Frame} {n : NodeId} {claim : Bool}
    {rest : List Frame} (at' : t.control = .unwind message) (top : t.stack = f :: rest)
    (kind : f = .running n claim ∨ f = .settling n claim) :
    HostStep w t (t.leave w n) ({ t with stack := rest }.plan
      (if claim then [.emit (.panicked n (t.me w)), .abandon n] else []) (.unwind message)) := by
  have exit : t.control.isExit := by simp [at', Control.isExit]
  cases claim with
  | false =>
    have turn := HostStep.dropEvaluation (w := w) (e := []) idle exit top kind (by simp)
    simpa [Thread.plan, idle, at', giveUp] using turn
  | true =>
    have turn := HostStep.dropEvaluation (w := w) (e := [.emit (.panicked n (t.me w))]) idle
      exit top kind (by simp [Action.isReport])
    simpa [Thread.plan, idle, at', giveUp] using turn

theorem step_unwind {message : String} (at' : t.control = .unwind message) :
    Step w t (t.unwind w message).1 (t.unwind w message).2 := by
  have exit : t.control.isExit := by simp [at', Control.isExit]
  cases top : t.stack with
  | nil =>
    simp only [Thread.unwind, top]
    exact .stay
  | cons f rest =>
    refine .host ?_
    simp only [Thread.unwind, top]
    have drop : f.isCode → HostStep w t w { t with stack := rest } := fun kind =>
      .dropCode idle exit top kind (.inl rfl)
    cases f with
    | operands | branch | probe | handler | applyTo | project => exact drop rfl
    | again => exact .dropAgain idle exit top
    | running n claim => exact drop_panicked idle at' top (.inl rfl)
    | settling n claim => exact drop_panicked idle at' top (.inr rfl)
    | leaving n => exact .dropLeaving idle exit top

end Frames

/-! ## Forcing -/

section Forcing

variable (idle : t.agenda = [])

include idle

theorem forcing_evaluate {n : NodeId} (at' : t.control = .evaluate n) :
    Forcing w t (t.evaluate w n).1 (t.evaluate w n).2 := by
  unfold Thread.evaluate
  cases known : w.evaluated? n with
  | some v => exact .evaluated idle at' known
  | none => exact .evaluate idle at' known

theorem forcing_enter {n : NodeId} (at' : t.control = .enter n) :
    Forcing w t (t.enter w n).1 (t.enter w n).2 := by
  unfold Thread.enter
  cases found : w.node? n with
  | none =>
    have turn := Forcing.enterFailed (w := w) (x := .raised "no node") (e := []) idle at'
      (by simp)
    simpa [Thread.raise, Thread.goto, ← idle] using turn
  | some node =>
    cases node with
    | thunk th => exact .enter idle at' (by simp [World.thunk?_eq_some.2 found]) rfl
    | value v =>
      simp only [Thread.abort, Thread.plan, idle, List.append_nil]
      exact .enterFailed idle at' (by simp [Action.isReport])

theorem forcing_force {n : NodeId} {claim : Bool} (at' : t.control = .force n claim) :
    Forcing w t (t.force w n claim).1 (t.force w n claim).2 := by
  unfold Thread.force
  cases held : (w.slot n).cell with
  | none =>
    cases claim with
    | true => exact .take idle at' held
    | false => exact .share idle at' held
  | some cell =>
    cases cell with
    | value v => exact .done idle at' held
    | blackHole | locked | queue =>
      dsimp only
      split
      · rename_i own
        simp only [Thread.abort, Thread.plan, idle, List.append_nil]
        exact .loop idle at' (by simp [Slot.ownedBy, held, own])
      · rename_i other
        exact .await idle at' held (by simp) other

theorem forcing_seize {n : NodeId} {seen : Slot} (at' : t.control = .seize n seen) :
    Forcing w t (t.seize w n seen).1 (t.seize w n seen).2 := by
  unfold Thread.seize World.exchange?
  by_cases same : (w.slot n).unchanged seen = true
  · simp only [same, if_true]
    have turn := Forcing.seized (e := .claimed n (t.me w)) idle at' same
    simpa [Thread.plan, idle, Thread.me] using turn
  · simp only [same]
    exact .seizeMissed idle at'

theorem forcing_start {n : NodeId} {claim : Bool} (at' : t.control = .start n claim) :
    Forcing w t (t.start w n claim).1 (t.start w n claim).2 := by
  unfold Thread.start
  cases pushed : (w.context t.context).stack.push? n with
  | some stack =>
    simp only [pushed]
    exact .started idle at' pushed
  | none =>
    simp only [pushed, Thread.plan, idle, List.append_nil]
    exact .startLoop idle at' pushed

theorem forcing_body {n : NodeId} {claim : Bool} (at' : t.control = .body n claim) :
    Forcing w t (t.body w n claim).1 (t.body w n claim).2 := by
  have released : Forcing w t (t.leave w n) (t.plan (giveUp n claim) (.recheck n claim)) := by
    simpa [Thread.plan, idle] using Forcing.released (w := w) idle at'
  have runs : ∀ {c : Control}, c.isCalm → Forcing w t w (t.push (.running n claim) c) :=
    fun calm => .body (l := []) idle at' (by simp) calm
  unfold Thread.body
  dsimp only
  split
  · exact runs rfl
  · exact runs rfl
  · exact runs (Control.isCalm_applyStored _ _)
  · rename_i kind index producer _
    exact .body (l := [.project kind index producer]) idle at' (by simp [Frame.isCode]) rfl
  · exact released

theorem forcing_recheck {n : NodeId} {claim : Bool} (at' : t.control = .recheck n claim) :
    Forcing w t (t.recheck w n claim).1 (t.recheck w n claim).2 := by
  unfold Thread.recheck
  split
  · simp only [Thread.abort, Thread.plan, idle, List.append_nil]
    exact .recheckFailed idle at'
  · exact .recheck idle at'

theorem forcing_update {n v : NodeId} (at' : t.control = .update n v) :
    Forcing w t (t.update w n v).1 (t.update w n v).2 := by
  unfold Thread.update
  cases known : (w.slot n).value? with
  | some winner =>
    simp only [Thread.plan, idle, List.append_nil]
    exact .updateLost idle at' (Slot.value?_eq_some.1 known)
  | none => exact .update idle at' known

theorem forcing_install {n v : NodeId} {seen : Slot} (at' : t.control = .install n v seen) :
    Forcing w t (t.install w n v seen).1 (t.install w n v seen).2 := by
  unfold Thread.install World.exchange?
  by_cases same : (w.slot n).unchanged seen = true
  · simp only [same, if_true]
    have turn := Forcing.installed (e := .updated (t.me w) v) idle at' same
    simpa [Thread.plan, idle, Thread.me] using turn
  · simp only [same]
    exact .installMissed idle at'

end Forcing

/-! ## Waiting -/

section Waiting

variable (idle : t.agenda = [])

include idle

theorem waits_attach {n : NodeId} {claim : Bool} (at' : t.control = .attach n claim) :
    Waits w t (t.attach w n claim).1 (t.attach w n claim).2 := by
  unfold Thread.attach
  cases held : (w.slot n).cell with
  | none => exact .free idle at'
  | some cell =>
    cases cell with
    | value v => exact .free idle at'
    | locked owner => exact .busy idle at'
    | blackHole owner =>
      dsimp only
      split
      · rename_i own
        simp only [Thread.abort, Thread.plan, idle, List.append_nil]
        exact .loop idle at' (by simp [Slot.ownedBy, held, Cell.owner?, own])
      · rename_i other
        exact .lock idle at' held other
    | queue q owner =>
      dsimp only
      split
      · rename_i own
        simp only [Thread.abort, Thread.plan, idle, List.append_nil]
        exact .loop idle at' (by simp [Slot.ownedBy, held, Cell.owner?, own])
      · rename_i other
        exact .join idle at' held other

theorem waits_lock {n : NodeId} {claim : Bool} {owner : TaskId} {seen : Slot}
    (at' : t.control = .lock n claim owner seen) :
    Waits w t (t.lock w n claim owner seen).1 (t.lock w n claim owner seen).2 := by
  unfold Thread.lock World.exchange?
  by_cases same : (w.slot n).unchanged seen = true
  · simp only [same, if_true]
    exact .locked idle at' same
  · simp only [same]
    exact .lockMissed idle at'

theorem waits_join {n : NodeId} {claim : Bool} {q : QueueId} {owner : TaskId}
    (at' : t.control = .join n claim q owner) :
    Waits w t (t.join w n claim q owner).1 (t.join w n claim q owner).2 := by
  unfold Thread.join
  cases pushed : w.push? q ⟨t.me w, n⟩ with
  | some w' => exact .joined idle at' pushed
  | none => exact .joinMissed idle at'

theorem detour_cases (afterwards : Bool) (next : Control) :
    ∃ as, w.Quiet (t.detour w afterwards next).1 ∧ (∀ a ∈ as, ∃ g, a = Action.gate g) ∧
      (t.detour w afterwards next).2 = { t with agenda := as, control := next } := by
  have same := World.Quiet.refl w
  unfold Thread.detour
  dsimp only
  split
  · rename_i d _
    split
    · exact ⟨[.gate d.gate], World.quiet_setContext rfl rfl rfl, by simp,
        by simp [Thread.plan, idle]⟩
    · exact ⟨[], same, by simp, by simp [Thread.goto, ← idle]⟩
  · exact ⟨[], same, by simp, by simp [Thread.goto, ← idle]⟩

theorem waits_enlist {x : Waiting} (at' : t.control = .enlist x) :
    Waits w t (t.enlist w x).1 (t.enlist w x).2 := by
  obtain ⟨as, quiet, gates, turn⟩ :=
    detour_cases (w := w.christen (w.context t.context).capability x.queue) idle false
      (.enrol x)
  unfold Thread.enlist
  rw [turn]
  exact .enlist idle at' ((World.quiet_christen _ _).trans quiet) gates

theorem waits_enlisted {x : Waiting} {blocked : Bool} (at' : t.control = .enlisted x blocked) :
    Waits w t (t.detour w true (.publish x blocked)).1
      (t.detour w true (.publish x blocked)).2 := by
  obtain ⟨as, quiet, gates, turn⟩ := detour_cases (w := w) idle true (.publish x blocked)
  rw [turn]
  exact .enlisted idle at' quiet gates

theorem waits_confirm {x : Waiting} (at' : t.control = .confirm x) :
    Waits w t (t.confirm w x).1 (t.confirm w x).2 := by
  unfold Thread.confirm
  split
  · rename_i closed
    exact .confirmClosed idle at' closed
  · rename_i open'
    simp only [Thread.plan, idle, List.append_nil]
    exact .confirm idle at' (by simpa using open')

theorem waits_publish {x : Waiting} {blocked : Bool} (at' : t.control = .publish x blocked) :
    Waits w t (t.publish w x blocked).1 (t.publish w x blocked).2 := by
  cases made : x.lock with
  | none =>
    have turn := fun as => Waits.proceed (w := w) (e := as) idle at' made
    cases blocked with
    | true =>
      simpa [Thread.publish, made, Thread.plan, idle] using
        turn [.emit (.blocked x.thunk (t.me w))] (by simp [Action.isReport])
    | false =>
      simpa [Thread.publish, made, Thread.plan, idle] using turn [] (by simp)
  | some seen =>
    by_cases same : (w.slot x.thunk).unchanged seen = true
    · have turn := fun as => Waits.published (w := w) (e := as) idle at' made same
      cases blocked with
      | true =>
        simpa [Thread.publish, made, World.exchange?, same, Thread.plan, idle] using
          turn [.emit (.queued x.thunk x.owner), .emit (.blocked x.thunk (t.me w))]
            (by simp [Action.isReport])
      | false =>
        simpa [Thread.publish, made, World.exchange?, same, Thread.plan, idle] using
          turn [.emit (.queued x.thunk x.owner)] (by simp [Action.isReport])
    · have changed : (w.slot x.thunk).unchanged seen = false := by simpa using same
      simpa [Thread.publish, made, World.exchange?, changed, Thread.plan, idle] using
        Waits.publishMissed (w := w) idle at' made changed

theorem waits_park {n : NodeId} {claim : Bool} (at' : t.control = .parked n claim) :
    Waits w t (t.park w n claim).1 (t.park w n claim).2 := by
  unfold Thread.park World.takePermit?
  by_cases permit : (w.task (t.me w)).permit = true
  · simp only [permit, if_true]
    exact .resumed idle at' permit
  · simp only [permit]
    cases t.maySuspend with
    | true => exact .asleep idle at'
    | false => exact .refuse idle at'

end Waiting

/-! ## Attempts of a host -/

theorem attempt_probe (idle : t.agenda = []) {op : ThunkOp} {n : NodeId}
    (at' : t.control = .probe op n) :
    Attempt w t (t.probe w op n).1 (t.probe w op n).2 := by
  unfold Thread.probe
  cases tries : op.attempt? (t.me w) (w.slot n).cell with
  | some cell => exact .probe idle at' tries
  | none => exact .hopeless idle at' (World.quiet_value _)

theorem attempt_exchange (idle : t.agenda = []) {n : NodeId} {seen : Slot} {cell : Option Cell}
    (at' : t.control = .exchange n seen cell) :
    Attempt w t (t.exchange w n seen cell).1 (t.exchange w n seen cell).2 := by
  unfold Thread.exchange World.exchange?
  by_cases same : (w.slot n).unchanged seen = true
  · simp only [same, if_true]
    exact .exchanged idle at' same (World.quiet_value _)
  · simp only [same]
    exact .missed idle at' (World.quiet_value _)

/-! ## The step -/

theorem step_proceed (idle : t.agenda = []) : Step w t (t.proceed w).1 (t.proceed w).2 := by
  unfold Thread.proceed
  split
  next c env at' => exact .host (host_run idle at')
  next p operands env at' =>
    have host : t.control.isCode := by simp [at', Control.isCode]
    refine .host (host_perform idle host ?_ ?_)
    · rintro op n rest rfl rfl
      exact at'
    · rintro n rest rfl rfl
      exact at'
  next at' => exact step_give idle at'
  next at' => exact step_fail idle at'
  next at' => exact step_unwind idle at'
  next at' => exact .forcing (forcing_evaluate idle at')
  next at' => exact .forcing (forcing_enter idle at')
  next n other env at' =>
    have host : t.control.isCode := by simp [at', Control.isCode]
    split
    · exact .host (host_goto idle host (World.Quiet.refl w) rfl)
    · exact .host (host_goto idle host (World.Quiet.refl w) rfl)
  next at' => exact .host (host_apply idle (by simp [at', Control.isCode]) _ _)
  next at' => exact .host (host_call idle (by simp [at', Control.isCode]) _ _)
  next at' => exact .forcing (forcing_force idle at')
  next at' => exact .forcing (forcing_seize idle at')
  next at' => exact .forcing (forcing_start idle at')
  next at' => exact .forcing (forcing_body idle at')
  next at' => exact .forcing (forcing_recheck idle at')
  next at' => exact .forcing (forcing_update idle at')
  next at' => exact .forcing (forcing_install idle at')
  next at' => exact .waits (waits_attach idle at')
  next at' => exact .waits (waits_lock idle at')
  next at' => exact .waits (.gathered idle at')
  next at' => exact .waits (waits_join idle at')
  next at' => exact .waits (waits_enlist idle at')
  next at' => exact .waits (.enrolled idle at')
  next at' => exact .waits (waits_confirm idle at')
  next at' => exact .waits (.retract idle at' (World.quiet_withdraw _ _))
  next at' => exact .waits (waits_enlisted idle at')
  next at' => exact .waits (waits_publish idle at')
  next at' => exact .waits (.suspend idle at')
  next at' => exact .waits (waits_park idle at')
  next at' => exact .attempt (attempt_probe idle at')
  next at' => exact .attempt (attempt_exchange idle at')
  next at' => exact step_register idle at'
  next at' => exact step_revert idle at'

/-- The transitions are all there is. -/
theorem step_cases (w : World) (t : Thread) : Step w t (t.step w).1 (t.step w).2 := by
  unfold Thread.step
  cases next : t.agenda with
  | nil => exact step_proceed next
  | cons a as => exact .errand (errand_perform next)

end LazyGraph

import LazyGraph.Proofs.Likeness

/-!
# What pure code does

Away from slots, tasks and errands, what a control of pure code comes to depends on the nodes as they
were built only. It is the same up to the naming of nodes for two terms that are alike, if the nodes
that they name were built alike.
-/

namespace LazyGraph

/-- What each node was built as. -/
abbrev Graph := NodeId → Option Origin

inductive Effect
  | go (frames : List Frame) (c : Control)
  | build (x : Origin)

namespace Effect

def next (c : Control) : Effect :=
  .go [] c

def raise (message : String) : Effect :=
  .next (.fail (.raised message))

def yield (v : Value) : Effect :=
  .build (.value v)

def ofField : Except GraphError Field → Effect
  | .ok (.pointer m) => .next (.give m)
  | .ok (.scalar s) => .yield (.scalar s)
  | .error e => .next (.fail e)

def withArgs (env : Env) (f : List Arg → Value) : Effect :=
  match env.frames with
  | args :: _ => .yield (f args)
  | [] => .raise "no frame"

def found (x : String) : Option NodeId → Effect
  | some n => .next (.give n)
  | none => .raise s!"unbound {x}"

def callFunction (n : NodeId) (arity : Nat) (body : Code) (env : Env) (args : List Arg) : Effect :=
  let frame (args : List Arg) : Env := { env with frames := args :: env.frames }
  if args.length = arity then .next (.run body (frame args))
  else if arity < args.length then
    .go [.applyTo (args.drop arity)] (.run body (frame (args.take arity)))
  else .next (.fail (.arityMismatch n arity args.length))

def interpret (code : Bytecode) (pointers : List NodeId) (args : List Arg) (rule : Interpreter) :
    Effect :=
  .next (.run (rule.program code pointers.length (args.map Arg.immediate?))
    { frames := [args, pointers.map .pointer] })

def call (rule : Option Interpreter) (n : NodeId) (args : List Arg) : Value → Effect
  | .function _ arity body env => callFunction n arity body env args
  | .bytecode code pointers =>
    match rule with
    | some rule => interpret code pointers args rule
    | none => .next (.fail (.noInterpreter n))
  | v => .next (.fail (.notAFunction n v.describe))

end Effect

/-- Primitives of pure code. -/
def Prim.isPure : Prim → Bool
  | .read _ | .increment _ | .register _ | .depth | .onThunk _ | .revert _ => false
  | _ => true

namespace Graph

variable (H : Graph)

def value? (n : NodeId) : Option Value :=
  match H n with
  | some (.value v) => some v
  | _ => none

def number (n : NodeId) : Int64 :=
  match H.value? n with
  | some (.scalar s) => s.number
  | _ => 0

def arithmetic (f : Int64 → Int64 → Int64) (ns : List NodeId) : Effect :=
  let result := match ns.map H.number with
    | [] => 0
    | l :: ls => ls.foldl f l
  .yield (.scalar (.long result))

def perform (p : Prim) (operands : List NodeId) (env : Env) : Effect :=
  match p, operands with
  | .box v, _ => .yield (.ofImmediate v)
  | .data tag layout, ns => .yield (.data tag (fill .pointer .scalar ns layout))
  | .application, f :: args => .build (.thunk (.application (some (f, args))))
  | .selector kind index, producer :: _ => .build (.thunk (.selector kind (some (index, producer))))
  | .bytecode code, ns =>
    if code.pointers.size < code.arity then
      .next (.fail (.invalidPointerMap code.arity code.pointers.size))
    else .yield (.bytecode code ns)
  | .evaluate, n :: _ => .next (.evaluate n)
  | .enter, n :: _ => .next (.enter n)
  | .blackHole, n :: _ => .next (if (H.value? n).isSome then .give n else .force n false)
  | .apply layout, f :: ns => .next (.apply f (fill .pointer .immediate ns layout))
  | .sum, ns => H.arithmetic (· + ·) ns
  | .difference, ns => H.arithmetic (· - ·) ns
  | .product, ns => H.arithmetic (· * ·) ns
  | .less, a :: b :: _ => .yield (.scalar (.int (if H.number a < H.number b then 1 else 0)))
  | .last, ns =>
    match ns.getLast? with
    | some n => .next (.give n)
    | none => .yield (.data 0 [])
  | .raise message, _ => .raise message
  | .panic message, _ => .next (.unwind message)
  | .gate _, _ => .yield (.scalar (.int 0))
  | .shape, _ => .withArgs env fun args => .object (shapeOf args)
  | .count, _ => .withArgs env fun args => .scalar (.int (.ofNat args.length))
  | .field kind index, n :: _ =>
    match H.value? n with
    | some (.data _ fields) => .ofField (fieldOf kind fields index)
    | _ => .raise "not data"
  | _, _ => .raise "no operand"

def perform? (p : Prim) (operands : List NodeId) (env : Env) : Option Effect :=
  if p.isPure then some (H.perform p operands env) else none

def run? (env : Env) : Code → Option Effect
  | .captured x => some (.found x (env.captured.find? x))
  | .named _ => none
  | .arg i up =>
    match env.frames[up]? with
    | none => some (.raise "no frame")
    | some args =>
      match args[i]? with
      | none => some (.raise s!"no arg {i}")
      | some (.pointer n) => some (.next (.give n))
      | some (.immediate v) => some (.yield (.ofImmediate v))
  | .suspend body => some (.build (.thunk (.updatable (some (body, env)))))
  | .constant _ body => some (.build (.thunk (.constant (body, env))))
  | .lambda name arity body => some (.yield (.function name arity body env))
  | .prim p [] => H.perform? p [] env
  | .prim p (c :: cs) => some (.go [.operands p [] cs env] (.run c env))
  | .branch scrutinee yes no => some (.go [.branch yes no env] (.run scrutinee env))
  | .probe subject other => some (.go [.probe other env] (.run subject env))
  | .recover body handler => some (.go [.handler handler env] (.run body env))

/-- A thunk is opened whatever its slot holds. -/
def act? (rule : Option Interpreter) : Control → Option Effect
  | .run c env => H.run? env c
  | .perform p operands env => H.perform? p operands env
  | .evaluate n => (H n).map fun
    | .value _ => .next (.give n)
    | .thunk _ => .go [.again] (.enter n)
  | .enter n => (H n).map fun
    | .value v => .next (.fail (.valueEntered n v.describe))
    | .thunk _ => .next (.force n false)
  | .apply n args => some (.next (.call n args))
  | .call n args => (H n).map fun
    | .value v => .call rule n args v
    | .thunk _ => .go [.applyTo args] (.enter n)
  | .force n _ => (H n).bind fun
    | .value _ => none
    | .thunk s => s.opening?.map fun (frames, c) => .go (frames ++ [.again]) c
  | _ => none

/-- What becomes of a result. -/
def return? (n : NodeId) : Frame → Option Effect
  | .operands p done [] env => some (.next (.perform p (done ++ [n]) env))
  | .operands p done (c :: cs) env => some (.go [.operands p (done ++ [n]) cs env] (.run c env))
  | .branch yes no env => some (.next (.run (if H.number n = 0 then no else yes) env))
  | .probe other env => some (.next (.peek n other env))
  | .handler _ _ => some (.next (.give n))
  | .again => some (.next (.evaluate n))
  | .applyTo args => some (.next (.apply n args))
  | .project kind index producer =>
    match H.value? n with
    | some (.data _ fields) => some (.ofField (fieldOf kind fields index))
    | some v => some (.next (.fail (.notAConstructor producer v.describe)))
    | none => some (.next (.fail (.notAConstructor producer "thunk")))
  | .running _ _ | .settling _ _ | .leaving _ => none

end Graph

/-! ## Like effects -/

inductive Effect.Like (R : NodeId → NodeId → Prop) : Effect → Effect → Prop
  | go {fs fs' c c'} (frames : List.Forall₂ (Frame.Like R) fs fs') (control : c.Like R c') :
    Like R (.go fs c) (.go fs' c')
  | build {x x'} (origin : x.Like R x') : Like R (.build x) (.build x')

/-- Related nodes were built alike. -/
def Graph.Matches (H H' : Graph) (R : NodeId → NodeId → Prop) : Prop :=
  ∀ n m, R n m → ∃ x y, H n = some x ∧ H' m = some y ∧ x.Like R y

namespace Effect

variable {R : NodeId → NodeId → Prop} {env env' : Env} {args args' : List Arg}

theorem like_next {c c' : Control} (like : c.Like R c') : (next c).Like R (next c') :=
  .go .nil like

theorem like_fail {e e' : GraphError} (same : e.unnamed = e'.unnamed) :
    (next (.fail e)).Like R (next (.fail e')) :=
  like_next (.fail same)

theorem like_raise (message : String) : (raise message).Like R (raise message) :=
  like_fail rfl

theorem like_yield {v v' : Value} (like : v.Like R v') : (yield v).Like R (yield v') :=
  .build (.value like)

theorem like_ofImmediate (v : Immediate) : (Value.ofImmediate v).Like R (.ofImmediate v) := by
  cases v with
  | scalar s => exact .scalar
  | object o => exact .object
  | void => exact .data .nil

theorem like_ofField {fields fields' : List Field}
    (each : List.Forall₂ (Field.Like R) fields fields') (kind : FieldKind) (index : Nat) :
    (ofField (fieldOf kind fields index)).Like R (ofField (fieldOf kind fields' index)) := by
  obtain ⟨e, failed, failed'⟩ | ⟨f, f', ok, ok', like⟩ := like_fieldOf each kind index
  · rw [failed, failed']
    exact like_fail rfl
  · rw [ok, ok']
    cases like with
    | pointer nodes => exact like_next (.give nodes)
    | scalar => exact like_yield .scalar

theorem like_withArgs (scope : env.Like R env') {f : List Arg → Value}
    (same : ∀ args args', List.Forall₂ (Arg.Like R) args args' → (f args).Like R (f args')) :
    (withArgs env f).Like R (withArgs env' f) := by
  have frames := scope.frames
  unfold withArgs
  generalize env.frames = frames, env'.frames = frames' at frames
  cases frames with
  | nil => exact like_raise _
  | cons head tail => exact like_yield (same _ _ head)

theorem like_found (x : String) {found found' : Option NodeId} (rel : Option.Rel R found found') :
    (Effect.found x found).Like R (Effect.found x found') := by
  cases rel with
  | none => exact like_raise _
  | some nodes => exact like_next (.give nodes)

theorem like_callFunction (n m : NodeId) (arity : Nat) (body : Code) (scope : env.Like R env')
    (each : List.Forall₂ (Arg.Like R) args args') :
    (callFunction n arity body env args).Like R (callFunction m arity body env' args') := by
  have frame : ∀ {xs ys : List Arg}, List.Forall₂ (Arg.Like R) xs ys →
      Env.Like R { env with frames := xs :: env.frames } { env' with frames := ys :: env'.frames } :=
    fun known => ⟨scope.captured, .cons known scope.frames⟩
  unfold callFunction
  rw [each.length_eq]
  dsimp only
  split
  · exact like_next (.run (frame each))
  · split
    · exact .go (.cons (.applyTo (List.forall₂_drop _ each)) .nil)
        (.run (frame (List.forall₂_take _ each)))
    · exact like_fail rfl

theorem immediates_eq (each : List.Forall₂ (Arg.Like R) args args') :
    args.map Arg.immediate? = args'.map Arg.immediate? := by
  induction each with
  | nil => rfl
  | cons like _ ih =>
    rw [List.map_cons, List.map_cons, ih]
    cases like <;> rfl

theorem like_interpret (code : Bytecode) {pointers pointers' : List NodeId}
    (shared : List.Forall₂ R pointers pointers') (each : List.Forall₂ (Arg.Like R) args args')
    (rule : Interpreter) :
    (interpret code pointers args rule).Like R (interpret code pointers' args' rule) := by
  rw [interpret, interpret, shared.length_eq, immediates_eq each]
  exact like_next (.run ⟨.nil, .cons each (.cons (List.rel_map (fun _ _ => .pointer) shared) .nil)⟩)

theorem like_call (rule : Option Interpreter) (n m : NodeId)
    (each : List.Forall₂ (Arg.Like R) args args') {v v' : Value} (like : v.Like R v') :
    (call rule n args v).Like R (call rule m args' v') := by
  cases like with
  | function scope => exact like_callFunction n m _ _ scope each
  | bytecode shared =>
    cases rule with
    | none => exact like_fail rfl
    | some rule => exact like_interpret _ shared each rule
  | data fields =>
    exact like_fail (by simp [GraphError.unnamed, (Value.Like.data fields).describe_eq])
  | scalar | object => exact like_fail rfl

end Effect

namespace Graph

open Effect

variable {H H' : Graph} {R : NodeId → NodeId → Prop} (pairs : H.Matches H' R) {n m : NodeId}
  {ns ms : List NodeId} {env env' : Env}

include pairs

theorem like_value? (nodes : R n m) : Option.Rel (Value.Like R) (H.value? n) (H'.value? m) := by
  obtain ⟨x, y, is, is', like⟩ := pairs n m nodes
  unfold value?
  rw [is, is']
  cases like with
  | value like => exact .some like
  | thunk => exact .none

theorem number_eq (nodes : R n m) : H.number n = H'.number m := by
  have rel := like_value? pairs nodes
  unfold number
  generalize H.value? n = x, H'.value? m = y at rel
  cases rel with
  | none => rfl
  | some like => cases like <;> rfl

theorem like_arithmetic (f : Int64 → Int64 → Int64) (each : List.Forall₂ R ns ms) :
    (H.arithmetic f ns).Like R (H'.arithmetic f ms) := by
  have numbers : ns.map H.number = ms.map H'.number := by
    induction each with
    | nil => rfl
    | cons nodes _ ih => rw [List.map_cons, List.map_cons, number_eq pairs nodes, ih]
  unfold arithmetic
  rw [numbers]
  exact like_yield .scalar

theorem like_perform (p : Prim) (each : List.Forall₂ R ns ms) (scope : env.Like R env') :
    (H.perform p ns env).Like R (H'.perform p ms env') := by
  cases p with
  | box v => exact like_yield (like_ofImmediate v)
  | data tag layout =>
    exact like_yield (.data (like_fill (fun _ _ nodes => .pointer nodes) (fun _ => .scalar) each layout))
  | application =>
    cases each with
    | nil => exact like_raise _
    | cons nodes rest => exact .build (.thunk (.application nodes rest))
  | selector kind index =>
    cases each with
    | nil => exact like_raise _
    | cons nodes rest => exact .build (.thunk (.selector nodes))
  | bytecode code =>
    simp only [perform]
    split
    · exact like_fail rfl
    · exact like_yield (.bytecode each)
  | evaluate =>
    cases each with
    | nil => exact like_raise _
    | cons nodes rest => exact like_next (.evaluate nodes)
  | enter =>
    cases each with
    | nil => exact like_raise _
    | cons nodes rest => exact like_next (.enter nodes)
  | blackHole =>
    cases each with
    | nil => exact like_raise _
    | @cons n m _ _ nodes rest =>
      have rel := like_value? pairs nodes
      simp only [perform]
      generalize H.value? n = x, H'.value? m = y at rel
      cases rel with
      | none => exact like_next (.force nodes)
      | some like => exact like_next (.give nodes)
  | apply layout =>
    cases each with
    | nil => exact like_raise _
    | cons nodes rest =>
      exact like_next (.apply nodes
        (like_fill (fun _ _ nodes => .pointer nodes) (fun _ => .immediate) rest layout))
  | sum | difference | product => exact like_arithmetic pairs _ each
  | less =>
    match each with
    | .nil | .cons _ .nil => exact like_raise _
    | .cons first (.cons second rest) =>
      simp only [perform, number_eq pairs first, number_eq pairs second]
      exact like_yield .scalar
  | last =>
    have rel : Option.Rel R ns.getLast? ms.getLast? := by
      rw [List.getLast?_eq_getElem?, List.getLast?_eq_getElem?, each.length_eq]
      exact forall₂_getElem? each _
    simp only [perform]
    generalize ns.getLast? = x, ms.getLast? = y at rel
    cases rel with
    | none => exact like_yield (.data .nil)
    | some nodes => exact like_next (.give nodes)
  | raise message => exact like_raise message
  | panic message => exact like_next .unwind
  | gate g => exact like_yield .scalar
  | shape =>
    refine like_withArgs scope fun args args' known => ?_
    rw [shapeOf_eq_of_like known]
    exact .object
  | count =>
    refine like_withArgs scope fun args args' known => ?_
    rw [known.length_eq]
    exact .scalar
  | field kind index =>
    cases each with
    | nil => exact like_raise _
    | @cons n m _ _ nodes rest =>
      have rel := like_value? pairs nodes
      simp only [perform]
      generalize H.value? n = x, H'.value? m = y at rel
      cases rel with
      | none => exact like_raise _
      | some like =>
        cases like with
        | data fields => exact like_ofField fields kind index
        | _ => exact like_raise _
  | read x | increment x | register kind | depth | onThunk op | revert r => exact like_raise _

theorem like_perform? (p : Prim) (each : List.Forall₂ R ns ms) (scope : env.Like R env') :
    Option.Rel (Effect.Like R) (H.perform? p ns env) (H'.perform? p ms env') := by
  unfold perform?
  split
  · exact .some (like_perform pairs p each scope)
  · exact .none

theorem like_run? (c : Code) (scope : env.Like R env') :
    Option.Rel (Effect.Like R) (H.run? env c) (H'.run? env' c) := by
  cases c with
  | captured x => exact .some (like_found x (scope.find? x))
  | named x => exact .none
  | arg i up =>
    have rel := forall₂_getElem? scope.frames up
    simp only [run?]
    generalize env.frames[up]? = x, env'.frames[up]? = y at rel
    cases rel with
    | none => exact .some (like_raise _)
    | @some args args' each =>
      have rel := forall₂_getElem? each i
      dsimp only
      generalize args[i]? = x, args'[i]? = y at rel
      cases rel with
      | none => exact .some (like_raise _)
      | some like =>
        cases like with
        | pointer nodes => exact .some (like_next (.give nodes))
        | immediate => exact .some (like_yield (like_ofImmediate _))
  | suspend body => exact .some (.build (.thunk (.updatable scope)))
  | constant r body => exact .some (.build (.thunk (.constant scope)))
  | lambda name arity body => exact .some (like_yield (.function scope))
  | prim p operands =>
    cases operands with
    | nil => exact like_perform? pairs p .nil scope
    | cons c cs => exact .some (.go (.cons (.operands .nil scope) .nil) (.run scope))
  | branch scrutinee yes no => exact .some (.go (.cons (.branch scope) .nil) (.run scope))
  | probe subject other => exact .some (.go (.cons (.probe scope) .nil) (.run scope))
  | recover body handler => exact .some (.go (.cons (.handler scope) .nil) (.run scope))

omit pairs in
theorem like_opening? {s s' : Suspension} (like : s.Like R s') :
    ∃ fs c fs' c', s.opening? = some (fs, c) ∧ s'.opening? = some (fs', c') ∧
      List.Forall₂ (Frame.Like R) fs fs' ∧ c.Like R c' := by
  cases like with
  | updatable scope | constant scope => exact ⟨_, _, _, _, rfl, rfl, .nil, .run scope⟩
  | application function each =>
    cases each with
    | nil => exact ⟨_, _, _, _, rfl, rfl, .nil, .evaluate function⟩
    | cons nodes rest =>
      refine ⟨_, _, _, _, rfl, rfl, .nil, .apply function ?_⟩
      exact List.rel_map (fun _ _ nodes => .pointer nodes) (.cons nodes rest)
  | selector nodes =>
    exact ⟨_, _, _, _, rfl, rfl, .cons (.project nodes) .nil, .evaluate nodes⟩

theorem like_act? (rule : Option Interpreter) {c c' : Control} (like : c.Like R c') :
    Option.Rel (Effect.Like R) (H.act? rule c) (H'.act? rule c') := by
  cases like with
  | run scope => exact like_run? pairs _ scope
  | perform each scope => exact like_perform? pairs _ each scope
  | give | fail | unwind | peek => exact .none
  | @evaluate n m nodes =>
    obtain ⟨x, y, is, is', like⟩ := pairs n m nodes
    simp only [act?, is, is', Option.map_some]
    cases like with
    | value => exact .some (like_next (.give nodes))
    | thunk => exact .some (.go (.cons .again .nil) (.enter nodes))
  | @enter n m nodes =>
    obtain ⟨x, y, is, is', like⟩ := pairs n m nodes
    simp only [act?, is, is', Option.map_some]
    cases like with
    | value like => exact .some (like_fail (by simp [GraphError.unnamed, like.describe_eq]))
    | thunk => exact .some (like_next (.force nodes))
  | apply nodes each => exact .some (like_next (.call nodes each))
  | @call n m args args' nodes each =>
    obtain ⟨x, y, is, is', like⟩ := pairs n m nodes
    simp only [act?, is, is', Option.map_some]
    cases like with
    | value like => exact .some (like_call rule n m each like)
    | thunk => exact .some (.go (.cons (.applyTo each) .nil) (.enter nodes))
  | @force n m nodes =>
    obtain ⟨x, y, is, is', like⟩ := pairs n m nodes
    simp only [act?, is, is', Option.bind_some]
    cases like with
    | value => exact .none
    | thunk like =>
      obtain ⟨fs, c, fs', c', opens, opens', frames, control⟩ := like_opening? like
      simp only [opens, opens', Option.map_some]
      exact .some (.go (List.rel_append frames (.cons .again .nil)) control)

theorem like_return? (nodes : R n m) {f f' : Frame} (like : f.Like R f') :
    Option.Rel (Effect.Like R) (H.return? n f) (H'.return? m f') := by
  cases like with
  | @operands p done done' rest env env' each scope =>
    have operands := forall₂_snoc each nodes
    cases rest with
    | nil => exact .some (like_next (.perform operands scope))
    | cons c cs => exact .some (.go (.cons (.operands operands scope) .nil) (.run scope))
  | branch scope =>
    simp only [return?, number_eq pairs nodes]
    exact .some (like_next (.run scope))
  | probe scope => exact .some (like_next (.peek nodes scope))
  | handler scope => exact .some (like_next (.give nodes))
  | again => exact .some (like_next (.evaluate nodes))
  | applyTo each => exact .some (like_next (.apply nodes each))
  | project producer =>
    have rel := like_value? pairs nodes
    simp only [return?]
    generalize H.value? n = x, H'.value? m = y at rel
    cases rel with
    | none => exact .some (like_fail rfl)
    | some like =>
      cases like with
      | data fields => exact .some (like_ofField fields _ _)
      | function scope => exact .some (like_fail rfl)
      | bytecode each => exact .some (like_fail rfl)
      | scalar | object => exact .some (like_fail rfl)

end Graph

end LazyGraph

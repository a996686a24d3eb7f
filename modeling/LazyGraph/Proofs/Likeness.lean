import LazyGraph.Proofs.References
import Mathlib.Data.List.Forall2

/-!
# Terms alike up to the naming of nodes

Two terms are alike if they differ in the nodes they name only, and these stand in a given relation.
What is read off a term without following its nodes is then the same for both.
-/

namespace LazyGraph

/-- What a node was built as. -/
inductive Origin
  | value (v : Value)
  | thunk (s : Suspension)

/-- What can be told of a value without looking at its parts. -/
inductive Head
  | scalar (s : Scalar)
  | object (o : String)
  | data (tag : UInt32) (fields : Nat)
  | function (name : String) (arity : Nat)
  | bytecode (code : Bytecode) (pointers : Nat)
  deriving DecidableEq

def Value.head : Value → Head
  | .scalar s => .scalar s
  | .object o => .object o
  | .data tag fields => .data tag fields.length
  | .function name arity _ _ => .function name arity
  | .bytecode code pointers => .bytecode code pointers.length

/-- An error without the node that it names. -/
def GraphError.unnamed : GraphError → GraphError
  | .valueEntered _ description => .valueEntered 0 description
  | .loop _ => .loop 0
  | .cleared _ => .cleared 0
  | .notAFunction _ description => .notAFunction 0 description
  | .arityMismatch _ arity supplied => .arityMismatch 0 arity supplied
  | .notAConstructor _ description => .notAConstructor 0 description
  | .noInterpreter _ => .noInterpreter 0
  | e => e

/-! ## Likeness -/

section

variable (R : NodeId → NodeId → Prop)

inductive Arg.Like : Arg → Arg → Prop
  | pointer {n m} (nodes : R n m) : Like (.pointer n) (.pointer m)
  | immediate {v} : Like (.immediate v) (.immediate v)

structure Env.Like (env env' : Env) : Prop where
  captured : List.Forall₂ (fun b b' => b.1 = b'.1 ∧ R b.2 b'.2) env.captured env'.captured
  frames : List.Forall₂ (List.Forall₂ (Arg.Like R)) env.frames env'.frames

inductive Field.Like : Field → Field → Prop
  | pointer {n m} (nodes : R n m) : Like (.pointer n) (.pointer m)
  | scalar {s} : Like (.scalar s) (.scalar s)

inductive Value.Like : Value → Value → Prop
  | scalar {s} : Like (.scalar s) (.scalar s)
  | object {o} : Like (.object o) (.object o)
  | data {tag fields fields'} (each : List.Forall₂ (Field.Like R) fields fields') :
    Like (.data tag fields) (.data tag fields')
  | function {name arity body env env'} (scope : Env.Like R env env') :
    Like (.function name arity body env) (.function name arity body env')
  | bytecode {code pointers pointers'} (each : List.Forall₂ R pointers pointers') :
    Like (.bytecode code pointers) (.bytecode code pointers')

/-- Suspensions that can be run. -/
inductive Suspension.Like : Suspension → Suspension → Prop
  | updatable {code env env'} (scope : Env.Like R env env') :
    Like (.updatable (some (code, env))) (.updatable (some (code, env')))
  | application {f f' args args'} (function : R f f') (each : List.Forall₂ R args args') :
    Like (.application (some (f, args))) (.application (some (f', args')))
  | selector {kind index producer producer'} (nodes : R producer producer') :
    Like (.selector kind (some (index, producer))) (.selector kind (some (index, producer')))
  | constant {code env env'} (scope : Env.Like R env env') :
    Like (.constant (code, env)) (.constant (code, env'))

inductive Origin.Like : Origin → Origin → Prop
  | value {v v'} (like : Value.Like R v v') : Like (.value v) (.value v')
  | thunk {s s'} (like : Suspension.Like R s s') : Like (.thunk s) (.thunk s')

inductive Control.Like : Control → Control → Prop
  | run {c env env'} (scope : Env.Like R env env') : Like (.run c env) (.run c env')
  | perform {p ns ns' env env'} (each : List.Forall₂ R ns ns') (scope : Env.Like R env env') :
    Like (.perform p ns env) (.perform p ns' env')
  | give {n m} (nodes : R n m) : Like (.give n) (.give m)
  | fail {e e'} (same : e.unnamed = e'.unnamed) : Like (.fail e) (.fail e')
  | unwind {message} : Like (.unwind message) (.unwind message)
  | evaluate {n m} (nodes : R n m) : Like (.evaluate n) (.evaluate m)
  | enter {n m} (nodes : R n m) : Like (.enter n) (.enter m)
  | peek {n m other env env'} (nodes : R n m) (scope : Env.Like R env env') :
    Like (.peek n other env) (.peek m other env')
  | apply {n m args args'} (nodes : R n m) (each : List.Forall₂ (Arg.Like R) args args') :
    Like (.apply n args) (.apply m args')
  | call {n m args args'} (nodes : R n m) (each : List.Forall₂ (Arg.Like R) args args') :
    Like (.call n args) (.call m args')
  | force {n m} (nodes : R n m) : Like (.force n false) (.force m false)

inductive Frame.Like : Frame → Frame → Prop
  | operands {p done done' rest env env'} (each : List.Forall₂ R done done')
    (scope : Env.Like R env env') : Like (.operands p done rest env) (.operands p done' rest env')
  | branch {yes no env env'} (scope : Env.Like R env env') :
    Like (.branch yes no env) (.branch yes no env')
  | probe {other env env'} (scope : Env.Like R env env') : Like (.probe other env) (.probe other env')
  | handler {c env env'} (scope : Env.Like R env env') : Like (.handler c env) (.handler c env')
  | again : Like .again .again
  | applyTo {args args'} (each : List.Forall₂ (Arg.Like R) args args') :
    Like (.applyTo args) (.applyTo args')
  | project {kind index producer producer'} (nodes : R producer producer') :
    Like (.project kind index producer) (.project kind index producer')

end

/-! ## Weaker relations -/

section

variable {R R' : NodeId → NodeId → Prop} (le : ∀ n m, R n m → R' n m)

include le

theorem Arg.Like.mono {a a' : Arg} (like : a.Like R a') : a.Like R' a' := by
  cases like with
  | pointer nodes => exact .pointer (le _ _ nodes)
  | immediate => exact .immediate

theorem Env.Like.mono {env env' : Env} (like : env.Like R env') : env.Like R' env' where
  captured := like.captured.imp fun _ _ known => ⟨known.1, le _ _ known.2⟩
  frames := like.frames.imp fun _ _ known => known.imp fun _ _ arg => arg.mono le

theorem Field.Like.mono {f f' : Field} (like : f.Like R f') : f.Like R' f' := by
  cases like with
  | pointer nodes => exact .pointer (le _ _ nodes)
  | scalar => exact .scalar

theorem Value.Like.mono {v v' : Value} (like : v.Like R v') : v.Like R' v' := by
  cases like with
  | scalar => exact .scalar
  | object => exact .object
  | data each => exact .data (each.imp fun _ _ field => field.mono le)
  | function env => exact .function (env.mono le)
  | bytecode each => exact .bytecode (each.imp le)

theorem Suspension.Like.mono {s s' : Suspension} (like : s.Like R s') : s.Like R' s' := by
  cases like with
  | updatable env => exact .updatable (env.mono le)
  | application function each => exact .application (le _ _ function) (each.imp le)
  | selector nodes => exact .selector (le _ _ nodes)
  | constant env => exact .constant (env.mono le)

theorem Origin.Like.mono {x x' : Origin} (like : x.Like R x') : x.Like R' x' := by
  cases like with
  | value like => exact .value (like.mono le)
  | thunk like => exact .thunk (like.mono le)

end

/-! ## A term is like itself -/

section

variable {H : NodeId → Prop} {R : NodeId → NodeId → Prop} (same : ∀ n, H n → R n n)

include same

theorem Arg.In.like {a : Arg} (within : a.In H) : a.Like R a := by
  cases a with
  | pointer n => exact .pointer (same n within)
  | immediate v => exact .immediate

theorem Env.In.like {env : Env} (within : env.In H) : env.Like R env where
  captured := List.forall₂_same.2 fun b known => ⟨rfl, same _ (within.captured b known)⟩
  frames := List.forall₂_same.2 fun args known =>
    List.forall₂_same.2 fun a there => (within.frames args known a there).like same

theorem Field.In.like {f : Field} (within : f.In H) : f.Like R f := by
  cases f with
  | pointer n => exact .pointer (same n within)
  | scalar s => exact .scalar

theorem Value.In.like {v : Value} (within : v.In H) : v.Like R v := by
  cases v with
  | scalar s => exact .scalar
  | object o => exact .object
  | data tag fields =>
    exact .data (List.forall₂_same.2 fun f known => Field.In.like same (within f known))
  | function name arity body env => exact .function (Env.In.like same within)
  | bytecode code pointers =>
    exact .bytecode (List.forall₂_same.2 fun n known => same n (within n known))

theorem Suspension.In.like {s : Suspension} (within : s.In H) (whole : s.cleared = false) :
    s.Like R s := by
  cases s with
  | updatable source =>
    cases source with
    | none => cases whole
    | some x => exact .updatable (Env.In.like same within)
  | application source =>
    cases source with
    | none => cases whole
    | some x =>
      exact .application (same _ within.1)
        (List.forall₂_same.2 fun n known => same n (within.2 n known))
  | selector kind source =>
    cases source with
    | none => cases whole
    | some x => exact .selector (same _ within)
  | constant x => exact .constant (Env.In.like same within)

end

/-! ## What likeness keeps -/

section

variable {R : NodeId → NodeId → Prop}

theorem Arg.Like.letter_eq {a a' : Arg} (like : a.Like R a') : a.letter = a'.letter := by
  cases like <;> rfl

theorem shapeOf_eq_of_like {args args' : List Arg} (each : List.Forall₂ (Arg.Like R) args args') :
    shapeOf args = shapeOf args' := by
  have letters : args.map Arg.letter = args'.map Arg.letter := by
    induction each with
    | nil => rfl
    | cons like _ ih => rw [List.map_cons, List.map_cons, like.letter_eq, ih]
  rw [shapeOf, letters, shapeOf]

namespace Value.Like

variable {v v' : Value} (like : v.Like R v')

include like

theorem describe_eq : v.describe = v'.describe := by
  cases like with
  | data each => simp [Value.describe, each.length_eq]
  | _ => rfl

end Value.Like

theorem forall₂_getElem? {α β : Type} {S : α → β → Prop} {xs : List α} {ys : List β}
    (each : List.Forall₂ S xs ys) (i : Nat) : Option.Rel S xs[i]? ys[i]? := by
  induction each generalizing i with
  | nil => exact .none
  | cons head _ ih =>
    cases i with
    | zero => exact .some head
    | succ i => simpa using ih i

theorem forall₂_snoc {α β : Type} {S : α → β → Prop} {xs : List α} {ys : List β} {x : α} {y : β}
    (each : List.Forall₂ S xs ys) (last : S x y) : List.Forall₂ S (xs ++ [x]) (ys ++ [y]) :=
  List.rel_append each (.cons last .nil)

theorem like_fill {α β : Type} {S : β → β → Prop} {pointer : NodeId → β} {constant : α → β}
    (nodes : ∀ n m, R n m → S (pointer n) (pointer m)) (others : ∀ a, S (constant a) (constant a))
    {ns ms : List NodeId} (each : List.Forall₂ R ns ms) (layout : List (Option α)) :
    List.Forall₂ S (fill pointer constant ns layout) (fill pointer constant ms layout) := by
  induction layout generalizing ns ms with
  | nil => cases each <;> exact .nil
  | cons slot layout ih =>
    cases slot with
    | some a =>
      simp only [fill]
      exact .cons (others a) (ih each)
    | none =>
      cases each with
      | nil => exact ih .nil
      | cons head tail => exact .cons (nodes _ _ head) (ih tail)

theorem Env.Like.find? {env env' : Env} (like : env.Like R env') (x : String) :
    Option.Rel R (env.captured.find? x) (env'.captured.find? x) := by
  have captured := like.captured
  generalize env.captured = table, env'.captured = table' at captured
  induction captured with
  | nil => exact .none
  | @cons b b' rest rest' head _ ih =>
    obtain ⟨y, n⟩ := b
    obtain ⟨y', m⟩ := b'
    obtain ⟨rfl, nodes⟩ := head
    simp only [Table.find?, List.lookup_cons] at ih ⊢
    split
    · exact .some nodes
    · exact ih

theorem Field.Like.kind_eq {f f' : Field} (like : f.Like R f') : f.kind = f'.kind := by
  cases like <;> rfl

/-- Both projections fail alike, or both succeed. -/
theorem like_fieldOf {fields fields' : List Field}
    (each : List.Forall₂ (Field.Like R) fields fields') (kind : FieldKind) (index : Nat) :
    (∃ e, fieldOf kind fields index = .error e ∧ fieldOf kind fields' index = .error e) ∨
      ∃ f f', fieldOf kind fields index = .ok f ∧ fieldOf kind fields' index = .ok f' ∧
        f.Like R f' := by
  have there := forall₂_getElem? each index
  unfold fieldOf fieldAt
  rw [each.length_eq]
  generalize fields[index]? = x, fields'[index]? = y at there
  cases there with
  | none => exact .inl ⟨_, rfl, rfl⟩
  | @some f f' like =>
    simp only [like.kind_eq]
    split
    · exact .inr ⟨f, f', rfl, rfl, like⟩
    · exact .inl ⟨_, rfl, rfl⟩

end

end LazyGraph

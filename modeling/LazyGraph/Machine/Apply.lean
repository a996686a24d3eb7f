import LazyGraph.Machine.Force

/-!
Application of functions and of compiled closures.
-/

namespace LazyGraph

namespace Thread

def callFunction (w : World) (t : Thread) (n : NodeId) (arity : Nat) (body : Code) (env : Env)
    (args : List Arg) : Turn :=
  let frame (args : List Arg) : Env := { env with frames := args :: env.frames }
  if args.length = arity then (w, t.goto (.run body (frame args)))
  else if arity < args.length then
    (w, t.push (.applyTo (args.drop arity)) (.run body (frame (args.take arity))))
  else (w, t.goto (.fail (.arityMismatch n arity args.length)))

def interpret (w : World) (t : Thread) (code : Bytecode) (pointers : List NodeId)
    (args : List Arg) (rule : Interpreter) : Turn :=
  (w, t.goto (.run (rule.program code pointers.length (args.map Arg.immediate?))
    { frames := [args, pointers.map .pointer] }))

def call (w : World) (t : Thread) (n : NodeId) (args : List Arg) : Turn :=
  match w.node? n with
  | some (.thunk thunk) =>
    match thunk.slot.value? with
    | some v => (w, t.goto (.apply v args))
    | none => (w, t.push (.applyTo args) (.enter n))
  | some (.value (.function _ arity body env)) => t.callFunction w n arity body env args
  | some (.value (.bytecode code pointers)) =>
    match (w.context t.context).interpreter with
    | some rule => t.interpret w code pointers args rule
    | none => (w, t.goto (.fail (.noInterpreter n)))
  | some (.value v) => (w, t.goto (.fail (.notAFunction n v.describe)))
  | none => t.raise w "no node"

def apply (w : World) (t : Thread) (n : NodeId) (args : List Arg) : Turn :=
  (w, t.plan [.emit (.applied n (shapeOf args))] (.call n args))

end Thread

end LazyGraph

import LazyGraph.Machine.Apply

/-!
Operations of host code on evaluated operands.
-/

namespace LazyGraph

def ThunkOp.attempt? (op : ThunkOp) (me : TaskId) (cell : Option Cell) : Option (Option Cell) :=
  match op, cell with
  | .claim, none => some (some (.blackHole me))
  | .tryLock, none => some (some (.locked none))
  | .unlock, some (.locked none) => some none
  | _, _ => none

namespace Thread

def yieldFlag (t : Thread) (w : World) (b : Bool) : Turn :=
  t.yield w (.scalar (.int (if b then 1 else 0)))

def yieldAfter (t : Thread) (w : World) (actions : List Action) : Turn :=
  let (w, n) := w.alloc (.value (.scalar (.int 1)))
  (w, t.plan actions (.give n))

def probe (w : World) (t : Thread) (op : ThunkOp) (n : NodeId) : Turn :=
  match op.attempt? (t.me w) (w.slot n).cell with
  | some cell => (w, t.goto (.exchange n (w.slot n) cell))
  | none => t.yieldFlag w false

def exchange (w : World) (t : Thread) (n : NodeId) (seen : Slot) (cell : Option Cell) : Turn :=
  match w.exchange? n seen cell with
  | some w => t.yieldFlag w true
  | none => t.yieldFlag w false

def onThunk (w : World) (t : Thread) (op : ThunkOp) (n : NodeId) (v : Option NodeId) : Turn :=
  match w.thunk? n with
  | none => t.raise w "not a thunk"
  | some thunk =>
    match op, v with
    | .claim, _ | .tryLock, _ | .unlock, _ => (w, t.goto (.probe op n))
    | .cleared, _ => t.yieldFlag w thunk.suspension.cleared
    | .isConstant, _ => t.yieldFlag w thunk.suspension.isConstant
    | .abandon, _ => t.yieldAfter w [.abandon n]
    | .clear, _ => t.yieldAfter w [.clear n]
    | .reset, _ => t.yieldAfter w [.overwrite n none]
    | .set, some v => t.yieldAfter w [.overwrite n (some v)]
    | .update, some v => (w, t.settle n v)
    | .set, none | .update, none => t.raise w "no value"

def giveField (t : Thread) (w : World) : Except GraphError Field → Turn
  | .ok (.pointer m) => (w, t.goto (.give m))
  | .ok (.scalar s) => t.yield w (.scalar s)
  | .error e => (w, t.goto (.fail e))

def arithmetic (w : World) (t : Thread) (f : Int64 → Int64 → Int64) (ns : List NodeId) : Turn :=
  let result := match ns.map w.number with
    | [] => 0
    | l :: ls => ls.foldl f l
  t.yield w (.scalar (.long result))

def withArgs (w : World) (t : Thread) (env : Env) (f : List Arg → Value) : Turn :=
  match env.frames with
  | args :: _ => t.yield w (f args)
  | [] => t.raise w "no frame"

def readRegister (w : World) (t : Thread) (kind : FieldKind) : Turn :=
  let registers := (w.context t.context).registers
  match registers.read? kind, registers.r1 with
  | some s, _ => t.yield w (.scalar s)
  | none, some n => (w, t.goto (.give n))
  | none, none => t.raise w "r1 empty"

def perform (w : World) (t : Thread) (p : Prim) (operands : List NodeId) (env : Env) : Turn :=
  match p, operands with
  | .box v, _ => t.yield w (.ofImmediate v)
  | .data tag layout, ns => t.yield w (.data tag (fill .pointer .scalar ns layout))
  | .application, f :: args =>
    let (w, n) := w.alloc (.thunk ⟨.application (some (f, args)), {}⟩)
    (w, t.goto (.give n))
  | .selector kind index, producer :: _ =>
    let (w, n) := w.alloc (.thunk ⟨.selector kind (some (index, producer)), {}⟩)
    (w, t.goto (.give n))
  | .bytecode code, ns =>
    if code.pointers.size < code.arity then
      (w, t.goto (.fail (.invalidPointerMap code.arity code.pointers.size)))
    else t.yield w (.bytecode code ns)
  | .evaluate, n :: _ => (w, t.goto (.evaluate n))
  | .enter, n :: _ => (w, t.goto (.enter n))
  | .blackHole, n :: _ =>
    (w, t.goto (if (w.value? n).isSome then .give n else .force n true))
  | .apply layout, f :: ns => (w, t.goto (.apply f (fill .pointer .immediate ns layout)))
  | .sum, ns => t.arithmetic w (· + ·) ns
  | .difference, ns => t.arithmetic w (· - ·) ns
  | .product, ns => t.arithmetic w (· * ·) ns
  | .less, a :: b :: _ => t.yieldFlag w (w.number a < w.number b)
  | .last, ns =>
    match ns.getLast? with
    | some n => (w, t.goto (.give n))
    | none => t.yield w (.data 0 [])
  | .raise message, _ => t.raise w message
  | .panic message, _ => (w, t.goto (.unwind message))
  | .read x, _ => t.yield w (.scalar (.long (w.counter x)))
  | .increment x, _ =>
    t.yield (w.assign x (w.counter x + 1)) (.scalar (.long (w.counter x)))
  | .gate g, _ =>
    let (w, n) := w.alloc (.value (.scalar (.int 0)))
    (w, t.plan [.gate g] (.give n))
  | .shape, _ => t.withArgs w env fun args => .object (shapeOf args)
  | .count, _ => t.withArgs w env fun args => .scalar (.int (.ofNat args.length))
  | .register kind, _ => t.readRegister w kind
  | .depth, _ => t.yield w (.scalar (.int (.ofNat (w.context t.context).stack.depth)))
  | .onThunk op, n :: rest => t.onThunk w op n rest.head?
  | .revert r, _ => (w, t.goto (.revert r))
  | .field kind index, n :: _ =>
    match w.value? n with
    | some (.data _ fields) => t.giveField w (fieldOf kind fields index)
    | _ => t.raise w "not data"
  | _, _ => t.raise w "no operand"

end Thread

end LazyGraph

import LiveCalls.Builtin
import LiveCalls.Expr.Evaluation

namespace LiveCalls

/-- What outlives a call: the heap, and the slots that a native procedure last kept hold of. -/
structure World where
  heap : Heap
  kept : List (List Value)
  deriving Inhabited

def World.empty : World := ⟨.empty, []⟩

/-- What came of running a callable: its values, if any, the world it leaves, and the texts it
printed. -/
structure Reply where
  values : Option (List Value)
  world : World
  printed : List String

/-- A procedure supplied from outside. It gets one slot of values per parameter. -/
structure Native where
  run : List (List Value) → World → Reply

/-- What a callable does with its slots. -/
inductive Body where
  | builtin (b : Builtin)
  | script (e : Expr)
  | native (n : Native)

structure Callable where
  signature : Signature Ref
  body : Body

namespace Callable

/-- The context that the body of a script function sees: each parameter is a variable that holds
the values of its slot. -/
def context (params : List (Parameter Ref)) (slots : List (List Value)) : Context :=
  (params.zip slots).foldl (fun ctx ps => ctx.set ps.1.name ps.2) .empty

/-- The values of a script function: those of its body, converted to the declared result, and at
most one if the result is single. -/
def evaluate (s : Signature Ref) (e : Expr) (slots : List (List Value)) (h : Heap) :
    Option (List Value) × Heap :=
  match s.result with
  | none => (none, h)
  | some r =>
    let (vs, h) := e.eval (context s.parameters slots) h
    let vs := vs.filterMap (Datum.convert? h.read r.type)
    (some (if r.cardinality.isSingle then vs.take 1 else vs), h)

/-- Runs the body on one slot per parameter. -/
def call (c : Callable) (slots : List (List Value)) (w : World) : Reply :=
  match c.body with
  | .builtin b =>
    let out := b.run slots w.heap
    ⟨out.values, { w with heap := out.heap }, out.printed.toList⟩
  | .script e =>
    let (values, heap) := evaluate c.signature e slots w.heap
    ⟨values, { w with heap }, []⟩
  | .native n => n.run slots w

/-- Copies of the defaults of parameters that were left out, if all of them have one. -/
def defaults : List (Parameter Ref) → Heap → Option (List (List Value)) × Heap
  | [], h => (some [], h)
  | p :: ps, h =>
    match p.default with
    | none => (none, h)
    | some vs =>
      let (copies, h) := Value.copyAll vs h
      let (rest, h) := defaults ps h
      (rest.map (copies :: ·), h)

/-- Calls with the slots given, those left out at the end filled with copies of their defaults.
There are no values if slots are left over, if a default is missing, or if the body gives none. -/
def execute (c : Callable) (given : List (List Value)) (w : World) : Reply :=
  if c.signature.arity < given.length then ⟨none, w, []⟩
  else
    let (filled, heap) := defaults (c.signature.parameters.drop given.length) w.heap
    let w := { w with heap }
    match filled with
    | none => ⟨none, w, []⟩
    | some rest =>
      let reply := c.call (given ++ rest) w
      { reply with values := reply.values.filter (!·.isEmpty) }

/-- Forgets what the last call returned. Nothing outlives a call, so that is always done. -/
def forgetsResult (_ : Callable) : Bool := true

end Callable

end LiveCalls

import LiveCalls.Conversion
import LiveCalls.Expr.Basic
import LiveCalls.Table

/-!
# Evaluation of expressions

An expression has a sequence of values in a context. A variable hands out the very values it
holds, shared locations included; a constant is a value of its own at every evaluation.

`Expr.eval` gives the values on the heap. `Expr.denote` gives the constants that these values are,
with no heap at all.
-/

namespace LiveCalls

/-- The variables that expressions are evaluated against. -/
structure Context where
  vars : Table String (List Value)
  deriving Inhabited

namespace Context

def empty : Context := ⟨.empty⟩

/-- The values of a variable. One that is not set has none. -/
def get (ctx : Context) (name : String) : List Value := (ctx.vars.get? name).getD []

/-- The context with a variable set, over its older values. -/
def set (ctx : Context) (name : String) (values : List Value) : Context :=
  ⟨ctx.vars.insert name values⟩

/-- What each variable holds at the moment. -/
def constants (ctx : Context) (h : Heap) (name : String) : List Constant :=
  (ctx.get name).map (Value.constant h)

end Context

namespace Expr

mutual

/-- The values of an expression in a context. Values that have no counterpart in the type they are
to be converted to are left out. -/
def eval (ctx : Context) : Expr → Heap → List Value × Heap
  | constants cs _, h => Constant.placeAll cs h
  | var name _ _, h => (ctx.get name, h)
  | list items _, h => evalItems ctx items h
  | converted e target _, h =>
    let (vs, h) := e.eval ctx h
    (vs.filterMap (Datum.convert? h.read target), h)

def evalItems (ctx : Context) : List Expr → Heap → List Value × Heap
  | [], h => ([], h)
  | e :: es, h =>
    let (vs, h) := e.eval ctx h
    let (ws, h) := evalItems ctx es h
    (vs ++ ws, h)

end

mutual

/-- The constants that the values of an expression are, given what the variables hold. -/
def denote (vars : String → List Constant) : Expr → List Constant
  | constants cs _ => cs
  | var name _ _ => vars name
  | list items _ => denoteItems vars items
  | converted e target _ => (e.denote vars).filterMap (Datum.convert? id target)

def denoteItems (vars : String → List Constant) : List Expr → List Constant
  | [] => []
  | e :: es => e.denote vars ++ denoteItems vars es

end

end Expr

end LiveCalls

import LiveCalls.Source
import LiveCalls.Text.Enumeration
import LiveCalls.Value

/-!
# Expressions

What a call is given and what a function gives back: constants, variables, lists of expressions,
and expressions whose values are converted when they are evaluated. Every node knows its place.
-/

namespace LiveCalls

inductive Expr where
  /-- A row of constants. -/
  | constants (values : List Constant) (pos : Position)
  /-- The values of a variable, declared to have the type `ty`. -/
  | var (name : String) (ty : VarType) (pos : Position)
  /-- The values of every item, in order. -/
  | list (items : List Expr) (pos : Position)
  /-- The values of `source`, each converted to `target`. -/
  | converted (source : Expr) (target : VarType) (pos : Position)
  deriving Inhabited

namespace Expr

/-- Where the expression was written. -/
def pos : Expr → Position
  | constants _ pos | var _ _ pos | list _ pos | converted _ _ pos => pos

mutual

/-- The type that every value of the expression conforms to. -/
def type : Expr → VarType
  | constants cs _ => .common (cs.map Datum.type)
  | var _ ty _ => ty
  | list items _ => .common (types items)
  | converted _ target _ => target

def types : List Expr → List VarType
  | [] => []
  | e :: es => e.type :: types es

end

/-- The expression as it was written, before any conversion. -/
def source : Expr → Expr
  | converted e _ _ => e.source
  | e => e

mutual

/-- The text of an expression. A conversion does not show. -/
def text : Expr → String
  | constants cs _ => enumeration (cs.map Constant.literal)
  | var name _ _ => "\x7b" ++ name ++ "\x7d"
  | list items _ => "(" ++ enumeration (texts items) ++ ")"
  | converted e _ _ => e.text

def texts : List Expr → List String
  | [] => []
  | e :: es => e.text :: texts es

end

end Expr

end LiveCalls

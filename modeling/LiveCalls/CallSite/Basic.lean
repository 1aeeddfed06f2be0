import LiveCalls.Registry
import LiveCalls.Source

namespace LiveCalls

/-- What the code around a call can take from it: any value, or only those of one kind. -/
inductive Uptake where
  | value | num | bool | str | loc
  deriving DecidableEq, Repr, Inhabited

/-- Whether a value is taken. -/
def Uptake.admits {α : Type} : Uptake → Datum α → Bool
  | value, _ => true
  | num, .num _ | bool, .bool _ | str, .str _ | loc, .loc _ => true
  | _, _ => false

/-- What a call site runs against. -/
inductive Binding where
  /-- No validation has succeeded yet. A callable found while executing is kept. -/
  | unbound (late : Option Callable)
  /-- The signature that the last successful validation adopted. There is no callable while the
  function is declared only. -/
  | bound (signature : Signature Ref) (callable : Option Callable)
  deriving Inhabited

/-- One call of a function by name. -/
structure CallSite where
  id : CallId
  function : String
  /-- The arguments; a successful validation puts their converted forms here. -/
  arguments : List Expr
  binding : Binding
  /-- Whether the first validation found that at most one value comes back. -/
  single : Bool
  /-- The types that the code around the call expects back, one of which has to fit. -/
  expected : Option (List VarType)
  site : Option Site
  uptake : Uptake

namespace CallSite

/-- A call site that was never validated. -/
def fresh (id : CallId) (function : String) (site : Option Site) (expected : Option (List VarType))
    (arguments : List Expr) (uptake : Uptake) : CallSite :=
  ⟨id, function, arguments, .unbound none, false, expected, site, uptake⟩

def signature? (c : CallSite) : Option (Signature Ref) :=
  match c.binding with
  | .bound s _ => some s
  | .unbound _ => none

def isBound (c : CallSite) : Bool := c.signature?.isSome

def callable? (c : CallSite) : Option Callable :=
  match c.binding with
  | .bound _ f => f
  | .unbound late => late

/-- Whether all arguments go into one parameter that takes several values. -/
def spreads (c : CallSite) : Bool := c.signature?.any (·.spreads)

/-- The type of the values that come back. There is none to tell before a validation succeeds. -/
def returnType? (c : CallSite) : Option VarType :=
  c.signature?.map fun s => s.resultType?.getD .undefined

def text (c : CallSite) : String :=
  c.function ++ "(" ++ ", ".intercalate (c.arguments.map Expr.text) ++ ")"

end CallSite

end LiveCalls

import LiveCalls.CallSite.Basic
import LiveCalls.Diagnostic
import LiveCalls.Expr.Conversion
import LiveCalls.Text.Ordinal

/-!
# Validation of call sites

A call site is validated once when its script is loaded and again whenever the function it calls is
redefined. It is judged against the declared signature: what comes back has to be what is expected,
the arguments have to be neither too many nor too few, and each has to convert to the type of its
parameter. The first fault decides, and is reported.

An accepted site adopts the signature and the converted arguments, and subscribes to its function.
A rejected one stays as it was, so that a site which has something to run keeps running it when its
function changes.
-/

namespace LiveCalls

/-- Whether a site is validated for the first time or because its function was redefined. -/
inductive Phase where
  | first | again
  deriving DecidableEq, Repr, Inhabited

/-- Why a call site does not fit its function. -/
inductive Rejection where
  | missing
  /-- A value is expected, and the function returns none. -/
  | returnsNothing
  /-- The function returns none of the types expected. -/
  | returnsOther (returned : VarType) (expected : List VarType)
  /-- A function that returned one value returns several. -/
  | returnsSeveral
  | tooMany (arity given : Nat)
  | tooFew (required given : Nat)
  /-- The argument at this index does not convert to the type of its parameter. -/
  | misfit (index : Nat) (type : VarType)
  deriving DecidableEq

namespace Rejection

def plural (n : Nat) : String := if n = 1 then "" else "s"

/-- What happens to callers that a redefinition leaves behind. -/
def staleNotice : String :=
  "but is still used in other script(s). These will continue to use the old version of the " ++
    "function until the environment restarts."

def listHint : String :=
  "If you want to use lists in function calls, you have to use additional parentheses, " ++
    "e.g. 'give(player, (iron ore and gold ore))'"

/-- The report on a site whose function was redefined. -/
def staleMessage (function : String) (r : Rejection) : String :=
  let change := match r with
    | missing => "deleted or renamed"
    | returnsNothing => "redefined with no return value"
    | returnsOther .. | returnsSeveral => "redefined with a different, incompatible return type"
    | tooMany .. | tooFew .. => "redefined with a different, incompatible amount of arguments"
    | misfit .. => "redefined with different, incompatible arguments"
  "The function '" ++ function ++ "' was " ++ change ++ ", " ++ staleNotice

/-- The report on a site that is validated for the first time. -/
def firstMessage (function : String) : Rejection → String
  | missing => "The function '" ++ function ++ "' does not exist."
  | returnsNothing => "The function '" ++ function ++ "' doesn't return any value."
  | returnsOther returned expected =>
    "The returned value of the function '" ++ function ++ "', " ++ returned.name ++ ", is " ++
      VarType.noneOf expected ++ "."
  | returnsSeveral => staleMessage function returnsSeveral
  | tooMany 0 given =>
    "The function '" ++ function ++ "' has no arguments, but " ++ toString given ++
      " are given. To call a function without parameters, just write the function name followed " ++
      "by '()', e.g. 'func()'."
  | tooMany arity given =>
    "The function '" ++ function ++ "' has only " ++ toString arity ++ " argument" ++
      plural arity ++ ", but " ++ toString given ++ " are given. " ++ listHint
  | tooFew required given =>
    "The function '" ++ function ++ "' requires at least " ++ toString required ++ " argument" ++
      plural required ++ ", but only " ++ toString given ++
      (if given = 1 then " is" else " are") ++ " given."
  | misfit index type =>
    "The " ++ ordinal (index + 1) ++ " argument given to the function '" ++ function ++
      "' is not of the required type " ++ type.name ++
      ". Check the correct order of the arguments and put lists into parentheses if " ++
      "appropriate (e.g. 'give(player, (iron ore and gold ore))'). Please note that storing the " ++
      "value in a variable and then using that variable as parameter will suppress this error, " ++
      "but it still won't work."

end Rejection

namespace CallSite

/-- Judges what comes back, and says whether the site may count on a single value. Only a first
validation settles that; a later one keeps what was settled. -/
def judgeResult (phase : Phase) (s : Signature Ref) (c : CallSite) : Except Rejection Bool :=
  match c.expected with
  | none => .ok c.single
  | some expected =>
    match s.resultType? with
    | none => .error .returnsNothing
    | some returned =>
      if !expected.any returned.isSubtype then .error (.returnsOther returned expected)
      else match phase with
        | .first => .ok s.returnsSingle
        | .again => if c.single && !s.returnsSingle then .error .returnsSeveral else .ok c.single

/-- Judges the number of arguments. There cannot be too many for a parameter that takes them
all. -/
def judgeCount (s : Signature Ref) (given : Nat) : Except Rejection Unit :=
  if !s.spreads && s.arity < given then .error (.tooMany s.arity given)
  else if given < s.required then .error (.tooFew s.required given)
  else .ok ()

/-- The types that the arguments have to convert to: each that of the parameter at its own place,
or all that of the one parameter which takes them all. -/
def targets (s : Signature Ref) (given : Nat) : List VarType :=
  if s.spreads then s.parameters.flatMap fun p => List.replicate given p.type
  else s.parameters.map (·.type)

/-- The arguments converted one by one, counted from `index`, up to the first misfit. Each has a log
of its own. What is in it matters if the argument does not fit and the site is new; a site that
becomes stale is not told why. -/
def convertArguments (phase : Phase) (site : Option Site) (index : Nat) (sink : List Diagnostic) :
    List (Expr × VarType) → Except Rejection (List Expr) × List Diagnostic
  | [] => (.ok [], sink)
  | (e, type) :: rest =>
    match e.convertedTo type .new with
    | (some e', log) =>
      let (es, sink) := convertArguments phase site (index + 1) (log.discard sink) rest
      (es.map (e' :: ·), sink)
    | (none, log) =>
      (.error (.misfit index type),
        match phase with
        | .first => log.flushInto site sink
        | .again => log.discard sink)

/-- Judges a call site against the signature of its function: whether it may count on a single
value, and what its arguments are converted. -/
def fitting (phase : Phase) (s : Signature Ref) (c : CallSite) (sink : List Diagnostic) :
    Except Rejection (Bool × List Expr) × List Diagnostic :=
  match judgeResult phase s c with
  | .error rejection => (.error rejection, sink)
  | .ok single =>
    match judgeCount s c.arguments.length with
    | .error rejection => (.error rejection, sink)
    | .ok () =>
      let (es, sink) := convertArguments phase c.site 0 sink
        (c.arguments.zip (targets s c.arguments.length))
      (es.map (single, ·), sink)

structure Adopted where
  signature : Signature Ref
  callable : Option Callable
  arguments : List Expr
  single : Bool

def examine (phase : Phase) (r : Registry) (c : CallSite) (sink : List Diagnostic) :
    Except Rejection Adopted × List Diagnostic :=
  match r.signatures.get? c.function with
  | none => (.error .missing, sink)
  | some s =>
    let (fit, sink) := c.fitting phase s sink
    (fit.map fun fit => ⟨s, r.callables.get? c.function, fit.2, fit.1⟩, sink)

/-- How a rejection is reported. A first validation names the site; a later one reports that it is
stale, wherever it is. -/
def notice (phase : Phase) (c : CallSite) (rejection : Rejection) : Diagnostic :=
  match phase with
  | .first => ⟨c.site, rejection.firstMessage c.function⟩
  | .again => ⟨none, rejection.staleMessage c.function⟩

/-- The site bound to what it adopts. -/
def adopt (c : CallSite) (a : Adopted) : CallSite :=
  { c with arguments := a.arguments, single := a.single, binding := .bound a.signature a.callable }

/-- What came of validating a call site. -/
structure Verdict where
  accepted : Bool
  site : CallSite
  registry : Registry
  diagnostics : List Diagnostic

/-- Binds a call site to the current definition of its function, if it fits. -/
def validate (phase : Phase) (r : Registry) (c : CallSite) : Verdict :=
  match c.examine phase r [] with
  | (.ok a, sink) => ⟨true, c.adopt a, r.subscribe c.function c.id, sink⟩
  | (.error rejection, sink) => ⟨false, c, r, sink ++ [c.notice phase rejection]⟩

end CallSite

end LiveCalls

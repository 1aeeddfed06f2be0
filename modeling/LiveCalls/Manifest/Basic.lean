import LiveCalls.Value

namespace LiveCalls

inductive Manifest.Term where
  /-- A row of constants. -/
  | many (values : List Constant)
  | var (name : String)
  | list (items : List Manifest.Term)
  | one (value : Constant)
  deriving Inhabited

structure Manifest.Parameter where
  name : String
  type : String
  multiple : Bool
  default : Option Manifest.Term

structure Manifest.Return where
  type : String
  multiple : Bool

/-- A function, or its declaration only where it has no body. -/
structure Manifest.Function where
  name : String
  params : List Manifest.Parameter
  returns : Option Manifest.Return
  body : Option Manifest.Term

structure Manifest.Call where
  function : String
  args : List Manifest.Term
  expect : Option (List String)
  /-- The line it is said to be on. -/
  line : Option UInt64

structure Manifest.Trigger where
  event : String
  calls : List Manifest.Call

/-- The content of a script file. -/
structure Manifest where
  functions : List Manifest.Function
  triggers : List Manifest.Trigger

end LiveCalls

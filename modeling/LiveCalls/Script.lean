import LiveCalls.Expr.Basic
import LiveCalls.Signature

namespace LiveCalls

/-- A function that a script declares. Without a body there is nothing to run yet. -/
structure ScriptFunction (α : Type) where
  signature : Signature α
  body : Option Expr

/-- A call as it is written, not yet bound to anything. -/
structure WrittenCall where
  function : String
  arguments : List Expr
  expected : Option (List VarType)
  site : Site

/-- The calls to make when an event occurs. -/
structure Trigger where
  event : String
  calls : List WrittenCall

/-- The functions and triggers of one file. -/
structure Script (α : Type) where
  functions : List (ScriptFunction α)
  triggers : List Trigger

namespace Script

def names {α : Type} (s : Script α) : List String := s.functions.map (·.signature.name)

/-- The functions with the locations in their defaults on the heap. -/
def placeFunctions : List (ScriptFunction Point) → Heap → List (ScriptFunction Ref) × Heap
  | [], h => ([], h)
  | f :: fs, h =>
    let (s, h) := f.signature.place h
    let (gs, h) := placeFunctions fs h
    (⟨s, f.body⟩ :: gs, h)

/-- The script with the locations in its defaults on the heap. -/
def place (s : Script Point) (h : Heap) : Script Ref × Heap :=
  let (functions, h) := placeFunctions s.functions h
  (⟨functions, s.triggers⟩, h)

end Script

end LiveCalls

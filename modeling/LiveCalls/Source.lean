namespace LiveCalls

structure Position where
  line : Nat
  column : Nat
  deriving DecidableEq, Repr, Inhabited

namespace Position

def unknown : Position := ⟨0, 0⟩

/-- `line:column`, or question marks for an unknown position. -/
def text (p : Position) : String :=
  if p = unknown then "?:?" else toString p.line ++ ":" ++ toString p.column

end Position

/-- A position in a script, or in none. -/
structure Site where
  script : Option String
  position : Position
  deriving DecidableEq, Repr, Inhabited

def Site.text (s : Site) : String :=
  match s.script with
  | some script => script ++ ":" ++ s.position.text
  | none => s.position.text

end LiveCalls

import LiveCalls.Text.Raw

/-!
# Paths

Paths are raw text with names between slashes. Empty names and the name `.` say nothing, and `..`
goes to the parent.
-/

namespace LiveCalls

/-- A path as it was given. -/
structure Path where
  raw : RawText
  deriving DecidableEq, Repr, Inhabited

namespace Path

def slash : UInt8 := 0x2F

/-- The path as it is shown. -/
def text (p : Path) : String := p.raw.shown

/-- What stands between the slashes. -/
def steps (p : Path) : List RawText := (p.raw.bytes.splitOn slash).map RawText.mk

/-- The names on the way, parents included. -/
def names (p : Path) : List RawText := p.steps.filter fun step => step ≠ "" && step ≠ "."

/-- The name that a path ends in. One that ends at a root, at its own start or at a parent has
none. -/
def fileName? (p : Path) : Option RawText := p.names.getLast?.filter (· ≠ "..")

def isAbsolute (p : Path) : Bool := p.raw.bytes.head? = some slash

/-- The path that `inner` is as seen from `p`. -/
def join (p inner : Path) : Path :=
  if inner.isAbsolute then inner
  else if p.raw.bytes = [] || p.raw.bytes.getLast? = some slash then
    ⟨⟨p.raw.bytes ++ inner.raw.bytes⟩⟩
  else ⟨⟨p.raw.bytes ++ slash :: inner.raw.bytes⟩⟩

/-- Whether a path is that of a script file: its name ends in `.json` and has more to it. -/
def isScript (p : Path) : Bool :=
  match p.fileName? with
  | some name => (".json" : RawText).bytes.isSuffixOf name.bytes && name ≠ ".json"
  | none => false

end Path

end LiveCalls

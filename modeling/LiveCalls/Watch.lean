import LiveCalls.Path

namespace LiveCalls

inductive ChangeKind where
  | create | modify | remove | access | any | other
  deriving DecidableEq, Repr

/-- Whether a change affects what is in the files, or whether they are there. -/
def ChangeKind.touches : ChangeKind → Bool
  | create | modify | remove => true
  | access | any | other => false

/-- The script files that a change touches. -/
def changedScripts (kind : ChangeKind) (paths : List Path) : List Path :=
  if kind.touches then paths.filter Path.isScript else []

end LiveCalls

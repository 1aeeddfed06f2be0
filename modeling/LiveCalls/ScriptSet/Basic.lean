import LiveCalls.Linkage
import LiveCalls.Path
import LiveCalls.Script

namespace LiveCalls

/-- The calls kept for an event. -/
structure LoadedTrigger where
  event : String
  calls : List CallId
  deriving DecidableEq, Repr

/-- What is loaded of one script. -/
structure LoadedScript where
  /-- The names of its functions. -/
  functions : List String
  triggers : List LoadedTrigger
  deriving DecidableEq, Repr, Inhabited

/-- The calls kept for a script, in the order of the file. -/
def LoadedScript.calls (s : LoadedScript) : List CallId := s.triggers.flatMap (·.calls)

/-- The scripts that are loaded together. -/
structure ScriptSet where
  root : Path
  linkage : Linkage
  scripts : Table String LoadedScript
  /-- The script that each function is from. -/
  owners : Table String String

namespace ScriptSet

/-- The set without any script. -/
def empty (root : Path) : ScriptSet := ⟨root, ⟨.builtins, .empty⟩, .empty, .empty⟩

def names (s : ScriptSet) : List String := s.scripts.keys

/-- How many calls are kept. -/
def callCount (s : ScriptSet) : Nat := (s.scripts.values.flatMap (·.calls)).length

/-- The call sites kept for a script, in the order of its file. -/
def calls (s : ScriptSet) (script : String) : List CallSite :=
  match s.scripts.get? script with
  | none => []
  | some loaded => loaded.calls.filterMap s.linkage.sites.live.get?

end ScriptSet

/-- What came of binding calls: the identities of those that fit, and what was reported about the
others. -/
structure Bound (α : Type) where
  kept : α
  linkage : Linkage
  diagnostics : List Diagnostic

namespace Linkage

/-- Validates calls for the first time. Those that fit are kept and follow redefinitions. -/
def bindCalls (l : Linkage) : List WrittenCall → Bound (List CallId)
  | [] => ⟨[], l, []⟩
  | c :: cs =>
    let (id, sites) := l.sites.allot
    let site := CallSite.fresh id c.function (some c.site) c.expected c.arguments .value
    let v := site.validate .first l.registry
    let sites := if v.accepted then (sites.keep v.site).track id else sites
    let rest := bindCalls ⟨v.registry, sites⟩ cs
    ⟨if v.accepted then id :: rest.kept else rest.kept, rest.linkage,
      v.diagnostics ++ rest.diagnostics⟩

/-- Validates the calls of triggers for the first time. -/
def bindTriggers (l : Linkage) : List Trigger → Bound (List LoadedTrigger)
  | [] => ⟨[], l, []⟩
  | t :: ts =>
    let calls := l.bindCalls t.calls
    let rest := bindTriggers calls.linkage ts
    ⟨⟨t.event, calls.kept⟩ :: rest.kept, rest.linkage, calls.diagnostics ++ rest.diagnostics⟩

def forgetAll (l : Linkage) (ids : List CallId) : Linkage := ids.foldl forget l

end Linkage

end LiveCalls

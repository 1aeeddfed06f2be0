import LiveCalls.ScriptFile
import LiveCalls.ScriptSet.Basic

/-!
# Reloading a script

A script is brought up to date with its file while the others stay loaded. Its functions replace
the old ones, its own calls are bound anew, and the calls that other scripts make of functions which
the script had before are validated again. Nobody is told of a function that the script did not have
before. A file that is gone is unloaded; one whose content is not usable leaves everything as it
was.
-/

namespace LiveCalls

/-- The callers to be told, by the name of the function that the news is about. -/
abbrev News := Table String (List CallId)

/-- The news with another event, callers that are to be told already left out. -/
def News.merge (news : News) : Option Redefined → News
  | none => news
  | some e =>
    match news.get? e.name with
    | none => news.insert e.name e.callers
    | some earlier =>
      news.insert e.name
        (e.callers.foldl (fun ids id => if id ∈ ids then ids else ids ++ [id]) earlier)

namespace ScriptSet

/-- A registry under change, with the news so far. -/
structure Change where
  registry : Registry
  news : News

namespace Change

/-- The change continued by a step that may be news. -/
def next (c : Change) (step : Registry → Option Redefined × Registry) : Change :=
  let (event, registry) := step c.registry
  ⟨registry, c.news.merge event⟩

def remove (c : Change) (name : String) : Change := c.next (·.remove name)

/-- Installs a function. A body that was there before does not outlive a declaration without
one. -/
def install (c : Change) (f : ScriptFunction Ref) : Change :=
  match f.body with
  | some e =>
    (c.next (·.declare f.signature)).next (·.define ⟨f.signature, .script e⟩)
  | none =>
    let name := f.signature.name
    let c := if c.registry.callables.contains name then c.remove name else c
    c.next (·.declare f.signature)

end Change

/-- Passes on news, in the order of the functions' names. -/
def passOn (l : Linkage) : List (List CallId) → Linkage.Notified
  | [] => ⟨l, .none, []⟩
  | ids :: rest =>
    let first := l.notify ids
    let rest := passOn first.linkage rest
    ⟨rest.linkage, first.outcome + rest.outcome, first.diagnostics ++ rest.diagnostics⟩

structure Reloaded where
  set : ScriptSet
  heap : Heap
  outcome : Revalidation
  diagnostics : List Diagnostic

/-- The owners without functions that are gone. -/
def disown (owners : Table String String) (functions : List String) : Table String String :=
  functions.foldl (·.erase ·) owners

/-- Drops a script with its functions and calls. -/
def unload (s : ScriptSet) (name : String) (h : Heap) : Reloaded :=
  match s.scripts.get? name with
  | none => ⟨s, h, .none, []⟩
  | some old =>
    let l := s.linkage.forgetAll old.calls
    let change := old.functions.foldl Change.remove ⟨l.registry, .empty⟩
    let told := passOn ⟨change.registry, l.sites⟩ change.news.values
    ⟨⟨s.root, told.linkage, s.scripts.erase name, disown s.owners old.functions⟩, h,
      told.outcome, told.diagnostics⟩

/-- Puts a script in the place of its older version. -/
def replace (s : ScriptSet) (name : String) (script : Script Ref) : ScriptSet × Linkage.Notified :=
  let old := (s.scripts.get? name).getD ⟨[], []⟩
  let l := s.linkage.forgetAll old.calls
  let gone := old.functions.filter (· ∉ script.names)
  let change := gone.foldl Change.remove ⟨l.registry, .empty⟩
  let change := script.functions.foldl Change.install change
  let owners := script.names.foldl (·.insert · name) (disown s.owners gone)
  let bound := Linkage.bindTriggers ⟨change.registry, l.sites⟩ script.triggers
  let scripts := s.scripts.insert name ⟨script.names, bound.kept⟩
  let told := passOn bound.linkage change.news.values
  (⟨s.root, told.linkage, scripts, owners⟩,
    { told with diagnostics := bound.diagnostics ++ told.diagnostics })

/-- The first of these functions that another script owns, with its owner. -/
def foreign? (owners : Table String String) (name : String) : List String → Option (String × String)
  | [] => none
  | f :: fs =>
    match owners.get? f with
    | some owner => if owner = name then foreign? owners name fs else some (f, owner)
    | none => foreign? owners name fs

/-- Brings the script of a file up to date with the disk. -/
def reload (s : ScriptSet) (d : Disk) (p : Path) (h : Heap) : Except LoadError Reloaded := do
  let name ← p.scriptName
  if !d.exists? p then .ok (s.unload name h)
  else
    let script ← d.script name p
    match foreign? s.owners name script.names with
    | some (function, owner) => .error (.alreadyDefined name function owner)
    | none =>
      let (script, h) := script.place h
      let (set, told) := s.replace name script
      .ok ⟨set, h, told.outcome, told.diagnostics⟩

end ScriptSet

end LiveCalls

import LiveCalls.ScriptFile
import LiveCalls.ScriptSet.Basic

/-!
# Loading a folder

All signatures are declared before any call is validated, so that scripts may call functions of
scripts that come later. The bodies are defined afterwards, and then every call is given the
callable of its function, which it keeps when the function changes incompatibly.
-/

namespace LiveCalls

namespace ScriptSet

/-- The scripts of one folder after another, with the script that each function is from. A file
that cannot be read or used, or that has a function of another, spoils all. -/
def gather (d : Disk) (owners : Table String String) :
    List Path → Except LoadError (List (String × Script Point) × Table String String)
  | [] => .ok ([], owners)
  | p :: ps => do
    let name ← p.scriptName
    let script ← d.script name p
    let owners ← claim name owners script.names
    let (scripts, owners) ← gather d owners ps
    .ok ((name, script) :: scripts, owners)
where
  /-- Makes a script the owner of functions that have none. -/
  claim (script : String) (owners : Table String String) :
      List String → Except LoadError (Table String String)
    | [] => .ok owners
    | f :: fs =>
      match owners.get? f with
      | some owner => .error (.alreadyDefined script f owner)
      | none => claim script (owners.insert f script) fs

def placeAll : List (String × Script Point) → Heap → List (String × Script Ref) × Heap
  | [], h => ([], h)
  | (name, s) :: rest, h =>
    let (s, h) := s.place h
    let (rest, h) := placeAll rest h
    ((name, s) :: rest, h)

/-- The registry with functions declared. -/
def declareAll (r : Registry) (functions : List (ScriptFunction Ref)) : Registry :=
  functions.foldl (fun r f => (r.declare f.signature).2) r

/-- The registry with those functions defined that have a body. -/
def defineAll (r : Registry) (functions : List (ScriptFunction Ref)) : Registry :=
  functions.foldl
    (fun r f => match f.body with
      | some e => (r.define ⟨f.signature, .script e⟩).2
      | none => r)
    r

/-- The linkage with every call site given the callable of its function, unless it has one. -/
def link (l : Linkage) : Linkage :=
  ⟨l.registry, { l.sites with live := l.sites.live.mapValues (·.resolve l.registry) }⟩

/-- The calls of scripts, bound one script after the other. -/
def bindScripts (l : Linkage) (loaded : Table String LoadedScript) :
    List (String × Script Ref) → Bound (Table String LoadedScript)
  | [] => ⟨loaded, l, []⟩
  | (name, s) :: rest =>
    let triggers := l.bindTriggers s.triggers
    let rest := bindScripts triggers.linkage (loaded.insert name ⟨s.names, triggers.kept⟩) rest
    ⟨rest.kept, rest.linkage, triggers.diagnostics ++ rest.diagnostics⟩

/-- The set of these scripts, and what was reported about calls that were left out. -/
def assemble (root : Path) (owners : Table String String) (scripts : List (String × Script Ref)) :
    ScriptSet × List Diagnostic :=
  let functions := scripts.flatMap (·.2.functions)
  let bound := bindScripts ⟨declareAll .builtins functions, .empty⟩ .empty scripts
  let registry := defineAll bound.linkage.registry functions
  (⟨root, link ⟨registry, bound.linkage.sites⟩, bound.kept, owners⟩, bound.diagnostics)

structure Loaded where
  set : ScriptSet
  heap : Heap
  diagnostics : List Diagnostic

/-- Loads every script of a folder. Calls that do not fit are reported and left out. -/
def load (d : Disk) (root : Path) (h : Heap) : Except LoadError Loaded := do
  let paths ← d.scripts root
  let (scripts, owners) ← gather d .empty paths
  let (scripts, h) := placeAll scripts h
  let (set, diagnostics) := assemble root owners scripts
  .ok ⟨set, h, diagnostics⟩

end ScriptSet

end LiveCalls

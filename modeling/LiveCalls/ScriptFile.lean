import LiveCalls.Disk
import LiveCalls.Manifest.Compile
import LiveCalls.Manifest.Reader

namespace LiveCalls

/-- Why scripts cannot be loaded. -/
inductive LoadError where
  /-- The path does not end in the name of a file, or in one that is no text. -/
  | unnamed (path : Path)
  | unreadableFolder (path : Path)
  | missingFile (path : Path)
  | unreadableFile (path : Path)
  /-- The content of the file is no manifest. -/
  | malformed (path : Path)
  /-- The manifest is no script. -/
  | faulty (script : String) (fault : Manifest.Fault)
  | alreadyDefined (script function owner : String)

/-- The error in words. Some errors have a cause that is not worded here: what the system says of a
folder or a file that it does not give out, and what a reader of JSON says of a text. -/
def LoadError.message (cause : LoadError → String) (e : LoadError) : String :=
  match e with
  | unnamed path => "Invalid script path '" ++ path.text ++ "'"
  | unreadableFolder path => "Failed to read scripts folder '" ++ path.text ++ "': " ++ cause e
  | missingFile path => "Script file '" ++ path.text ++ "' not found."
  | unreadableFile path => "Failed to read script file '" ++ path.text ++ "': " ++ cause e
  | malformed path => "Failed to parse script file '" ++ path.text ++ "': " ++ cause e
  | faulty script fault => script ++ ": " ++ fault.message
  | alreadyDefined script function owner =>
    script ++ ": the function '" ++ function ++ "' is already defined in " ++ owner

/-- The name of the script in a file. -/
def Path.scriptName (p : Path) : Except LoadError String :=
  match p.fileName?.bind RawText.text? with
  | some name => .ok name
  | none => .error (.unnamed p)

namespace Disk

/-- The script files of a folder, in the order of their names. -/
def scripts (d : Disk) (root : Path) : Except LoadError (List Path) :=
  match d.find root with
  | .ok (place, .folder) =>
    let paths := (d.filesIn place).map fun name => root.join ⟨name⟩
    .ok (paths.filter fun p => d.isFile p && p.isScript)
  | _ => .error (.unreadableFolder root)

def text (d : Disk) (p : Path) : Except LoadError String :=
  match d.find p with
  | .error .missing => .error (.missingFile p)
  | .ok (_, .file bytes) =>
    match String.fromUTF8? bytes with
    | some text => .ok text
    | none => .error (.unreadableFile p)
  | _ => .error (.unreadableFile p)

def manifest (d : Disk) (p : Path) : Except LoadError Manifest := do
  match Manifest.parse? (← d.text p) with
  | some m => .ok m
  | none => .error (.malformed p)

/-- The script in a file, under the name that is given. -/
def script (d : Disk) (name : String) (p : Path) : Except LoadError (Script Point) := do
  let m ← d.manifest p
  match m.compile name with
  | .ok s => .ok s
  | .error fault => .error (.faulty name fault)

end Disk

end LiveCalls

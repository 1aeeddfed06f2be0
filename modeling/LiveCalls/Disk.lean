import LiveCalls.Path
import LiveCalls.Table

/-!
# Files and folders

What can be read: a tree of folders and files, without links. A path leads through it step by step,
and every step but the last has to end at a folder.
-/

namespace LiveCalls

/-- A file with its bytes, or a folder. -/
inductive Node where
  | file (bytes : ByteArray)
  | folder

/-- Why nothing is found at a path. -/
inductive Absence where
  /-- There is nothing of this name. -/
  | missing
  /-- The way leads through a file. -/
  | blocked
  /-- No file can have this path: it or a name in it is too long, or it holds a null character. -/
  | impossible
  deriving DecidableEq, Repr

/-- The files and folders by their full names; the root itself is not among them. -/
structure Disk where
  nodes : Table RawText Node
  deriving Inhabited

namespace Disk

def empty : Disk := ⟨.empty⟩

/-- The full name of a place, given the names to it from the innermost outwards. -/
def fullName (place : List RawText) : RawText :=
  ⟨place.reverse.flatMap fun name => Path.slash :: name.bytes⟩

/-- The file or folder at a place. The root is a folder always. -/
def node? (d : Disk) (place : List RawText) : Option Node :=
  if place.isEmpty then some .folder else d.nodes.get? (fullName place)

/-- How many bytes a name can have. -/
def maxName : Nat := 255

/-- How many bytes a path can have. -/
def maxPath : Nat := 4095

/-- The place that the steps of a path lead to. -/
def walk (d : Disk) (place : List RawText) : List RawText → Except Absence (List RawText)
  | [] => .ok place
  | step :: steps =>
    match d.node? place with
    | none => .error .missing
    | some (.file _) => .error .blocked
    | some .folder =>
      if step = "" || step = "." then d.walk place steps
      else if step = ".." then d.walk place.tail steps
      else if maxName < step.bytes.length then .error .impossible
      else d.walk (step :: place) steps

/-- What a path leads to, and where that is. -/
def find (d : Disk) (p : Path) : Except Absence (List RawText × Node) :=
  if 0 ∈ p.raw.bytes ∨ maxPath < p.raw.bytes.length then .error .impossible
  else match d.walk [] p.steps with
    | .error absence => .error absence
    | .ok place =>
      match d.node? place with
      | some node => .ok (place, node)
      | none => .error .missing

def exists? (d : Disk) (p : Path) : Bool :=
  match d.find p with
  | .ok _ => true
  | .error _ => false

def isFile (d : Disk) (p : Path) : Bool :=
  match d.find p with
  | .ok (_, .file _) => true
  | _ => false

/-- The names of the files that a folder holds itself, in order. -/
def filesIn (d : Disk) (place : List RawText) : List RawText :=
  let folder := (fullName place).bytes ++ [Path.slash]
  d.nodes.entries.filterMap fun (name, node) =>
    match node with
    | .folder => none
    | .file _ =>
      if folder.isPrefixOf name.bytes then
        let rest := name.bytes.drop folder.length
        if Path.slash ∈ rest then none else some ⟨rest⟩
      else none

/-- The place that the steps of a path lead to where every folder on the way is made, and the disk
with these folders. -/
def makeWay (d : Disk) (place : List RawText) : List RawText → List RawText × Disk
  | [] => (place, d)
  | step :: steps =>
    if step = "" || step = "." then d.makeWay place steps
    else if step = ".." then d.makeWay place.tail steps
    else
      let place := step :: place
      let nodes := match d.node? place with
        | none => d.nodes.insert (fullName place) .folder
        | some _ => d.nodes
      Disk.makeWay ⟨nodes⟩ place steps

/-- The disk with a folder at a path, the folders on the way included. -/
def makeFolder (d : Disk) (p : Path) : Disk := (d.makeWay [] p.steps).2

/-- The disk with a file at a path, the folders on the way included. -/
def write (d : Disk) (p : Path) (bytes : ByteArray) : Disk :=
  let (folder, d) := d.makeWay [] p.steps.dropLast
  match p.fileName? with
  | none => d
  | some name => ⟨d.nodes.insert (fullName (name :: folder)) (.file bytes)⟩

/-- The disk without the file at a path, and whether there was one. -/
def delete (d : Disk) (p : Path) : Bool × Disk :=
  match d.find p with
  | .ok (place, .file _) => (true, ⟨d.nodes.erase (fullName place)⟩)
  | _ => (false, d)

end Disk

end LiveCalls

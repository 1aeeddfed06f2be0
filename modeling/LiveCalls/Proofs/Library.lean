import LiveCalls.Proofs.Reachable

/-!
# A library and its caller

A folder with two scripts, of which one has a function that the other calls. The function may change
while the scripts are loaded.
-/

namespace LiveCalls

/-- The versions of a script `lib.json` with one function, `f`, which another script calls. -/
inductive Library where
  /-- The function takes a string, and there is nothing to run. -/
  | declared
  /-- The function takes a string. -/
  | defined
  /-- The function takes a location. -/
  | changed

namespace Library

open ScriptSet

def text : Library → String
  | declared => r#"[[["f",[["x","str"]],["str"]]]]"#
  | defined => r#"[[["f",[["x","str"]],["str"],"old"]]]"#
  | changed => r#"[[["f",[["x","loc"]],["str"],"new"]]]"#

def callerText : String := r#"[[],[["go",[["f",["abc"]]]]]]"#

section
variable {α : Type}

def signature (type : VarType) : Signature α :=
  ⟨"f", [⟨"x", type, .single, none⟩], some ⟨.str, .single⟩⟩

def body (text : String) : Expr := .constants [.str text] ⟨1, 1⟩

def script : Library → Script α
  | declared => ⟨[⟨signature .str, none⟩], []⟩
  | defined => ⟨[⟨signature .str, some (body "old")⟩], []⟩
  | changed => ⟨[⟨signature .loc, some (body "new")⟩], []⟩

def caller : Script α :=
  ⟨[], [⟨"go", [⟨"f", [body "abc"], none, ⟨some "main.json", ⟨1, 1⟩⟩⟩]⟩]⟩

end

def path : Path := ⟨"/r/lib.json"⟩

def disk (v : Library) : Disk :=
  ⟨Table.ofList [("/r", .folder), ("/r/lib.json", .file v.text.toUTF8),
    ("/r/main.json", .file callerText.toUTF8)]⟩

/-- The set that the folder is loaded as. -/
def loaded (v : Library) : ScriptSet :=
  (assemble ⟨"/r"⟩ (.ofList [("f", "lib.json")]) [("lib.json", v.script), ("main.json", caller)]).1

theorem scripts_disk (v : Library) : v.disk.scripts ⟨"/r"⟩ = .ok [path, ⟨"/r/main.json"⟩] := by
  have folder : v.disk.find ⟨"/r"⟩ = .ok (["r"], .folder) := by cases v <;> rfl
  have files : v.disk.filesIn ["r"] = ["lib.json", "main.json"] := by rfl
  have library : (Path.mk "/r").join ⟨"lib.json"⟩ = path := rfl
  have main : (Path.mk "/r").join ⟨"main.json"⟩ = ⟨"/r/main.json"⟩ := rfl
  have file : v.disk.isFile path := by cases v <;> rfl
  have file' : v.disk.isFile ⟨"/r/main.json"⟩ := by cases v <;> rfl
  have script : path.isScript := rfl
  have script' : (Path.mk "/r/main.json").isScript := rfl
  simp [Disk.scripts, folder, files, library, main, file, file', script, script']

theorem script_disk (v : Library) : v.disk.script "lib.json" path = .ok v.script := by
  have read (body : Option Manifest.Term) (type : String) {s : Script Point}
      (found : v.disk.find path = .ok (["lib.json", "r"], .file v.text.toUTF8))
      (parsed : Manifest.parse? v.text =
        some ⟨[⟨"f", [⟨"x", type, false, none⟩], some ⟨"str", false⟩, body⟩], []⟩)
      (compiled : Manifest.compile "lib.json"
        ⟨[⟨"f", [⟨"x", type, false, none⟩], some ⟨"str", false⟩, body⟩], []⟩ = .ok s) :
      v.disk.script "lib.json" path = .ok s := Disk.script_of_text found parsed compiled
  cases v with
  | declared => exact read none "str" rfl (by cbv) rfl
  | defined => exact read (some (.one (.str "old"))) "str" rfl (by cbv) rfl
  | changed => exact read (some (.one (.str "new"))) "loc" rfl (by cbv) rfl

theorem script_main (v : Library) :
    v.disk.script "main.json" ⟨"/r/main.json"⟩ = .ok caller := by
  have found : v.disk.find ⟨"/r/main.json"⟩ =
      .ok (["main.json", "r"], .file callerText.toUTF8) := by cases v <;> rfl
  have parsed : Manifest.parse? callerText =
      some ⟨[], [⟨"go", [⟨"f", [.one (.str "abc")], none, none⟩]⟩]⟩ := by cbv
  exact Disk.script_of_text found parsed rfl

theorem scriptName_path : path.scriptName = .ok "lib.json" := by rfl

theorem scriptName_main : (Path.mk "/r/main.json").scriptName = .ok "main.json" := by rfl

theorem load_disk (v : Library) : ∃ out, load v.disk ⟨"/r"⟩ World.empty.heap = .ok out ∧
    out.set = v.loaded ∧ out.heap = World.empty.heap := by
  have gathered : gather v.disk .empty [path, ⟨"/r/main.json"⟩] =
      .ok ([("lib.json", v.script), ("main.json", caller)], .ofList [("f", "lib.json")]) := by
    simp only [gather, scriptName_path, scriptName_main, script_disk, script_main, bind,
      Except.bind]
    cases v <;> rfl
  refine ⟨_, load_eq_ok_iff.mpr ⟨_, _, _, v.scripts_disk, gathered, rfl⟩, ?_⟩
  cases v <;> exact ⟨rfl, rfl⟩

theorem reachable_loaded (v : Library) : Reachable v.loaded .empty := by
  obtain ⟨out, loads, set, heap⟩ := v.load_disk
  have reachable := Reachable.load (w := .empty) loads
  rw [set, heap] at reachable
  exact reachable

/-- The library may be reloaded in any version. -/
theorem reload_disk (v : Library) {s : ScriptSet}
    (own : foreign? s.owners "lib.json" ["f"] = none) (h : Heap) :
    s.reload v.disk path h = .ok
      ⟨(s.replace "lib.json" v.script).1, h, (s.replace "lib.json" v.script).2.outcome,
        (s.replace "lib.json" v.script).2.diagnostics⟩ := by
  have found : v.disk.exists? path := by cases v <;> rfl
  refine reload_eq_ok_iff.mpr ⟨"lib.json", scriptName_path, .inr ⟨found, _, v.script_disk, ?_⟩⟩
  cases v <;> exact ⟨own, rfl⟩

def old : Callable := ⟨signature .str, .script (body "old")⟩

/-- The call of the function, which holds what there was to run when it was bound. -/
def call (held : Option Callable) : CallSite :=
  ⟨1, "f", [body "abc"], .bound (signature .str) held, false, none,
    some ⟨some "main.json", ⟨1, 1⟩⟩, .value⟩

end Library

end LiveCalls

import LiveCalls.Proofs.Assembly
import LiveCalls.Proofs.Library

namespace LiveCalls

theorem Registry.Has.extend {r r' : Registry} {h h' : Heap} {f : ScriptFunction Point}
    (hf : r.Has h f) (he : h.Extends h')
    (same : r'.signatures.get? f.signature.name = r.signatures.get? f.signature.name ∧
      r'.callables.get? f.signature.name = r.callables.get? f.signature.name) : r'.Has h' f := by
  obtain ⟨s, lies, read, signature, callable⟩ := hf
  exact ⟨s, lies.mono he.size, (Signature.map_extend lies he).trans read,
    same.1.trans signature, same.2.trans callable⟩

namespace ScriptSet

/-- A set of scripts after a history, with what was loaded last of each script that is still there.
Whatever else goes on in the world leaves the defaults of the functions as they are. -/
inductive History : Table String (Script Point) → ScriptSet → World → Prop where
  | load {d : Disk} {root : Path} {w : World} {paths : List Path}
      {scripts : List (String × Script Point)} {out : Loaded} (listed : d.scripts root = .ok paths)
      (read : d.readAll paths = .ok scripts) (loaded : ScriptSet.load d root w.heap = .ok out) :
      History (.ofList scripts) out.set { w with heap := out.heap }
  | reload {contents : Table String (Script Point)} {s : ScriptSet} {w : World} {d : Disk}
      {p : Path} {name : String} {script : Script Point} {out : Reloaded}
      (h : History contents s w) (named : p.scriptName = .ok name) (there : d.exists? p)
      (read : d.script name p = .ok script) (reloaded : s.reload d p w.heap = .ok out) :
      History (contents.insert name script) out.set { w with heap := out.heap }
  | vanish {contents : Table String (Script Point)} {s : ScriptSet} {w : World} {d : Disk}
      {p : Path} {name : String} {out : Reloaded} (h : History contents s w)
      (named : p.scriptName = .ok name) (gone : d.exists? p = false)
      (reloaded : s.reload d p w.heap = .ok out) :
      History (contents.erase name) out.set { w with heap := out.heap }
  | unload {contents : Table String (Script Point)} {s : ScriptSet} {w : World}
      (h : History contents s w) (name : String) :
      History (contents.erase name) (s.unload name w.heap).set
        { w with heap := (s.unload name w.heap).heap }
  | refuse {contents : Table String (Script Point)} {s : ScriptSet} {w : World}
      (h : History contents s w) (d : Disk) (p : Path) {e : LoadError}
      (refused : s.reload d p w.heap = .error e) : History contents s w
  | fire {contents : Table String (Script Point)} {s : ScriptSet} {w : World}
      (h : History contents s w) (event : String) (ctx : Context) (hc : ctx.InHeap w.heap) :
      History contents (s.fire event ctx w).2.1 (s.fire event ctx w).2.2
  | outside {contents : Table String (Script Point)} {s : ScriptSet} {w w' : World}
      (h : History contents s w) (size : w.heap.size ≤ w'.heap.size)
      (same : ∀ f sig, s.linkage.registry.signatures.get? f = some sig →
        sig.map w'.heap.read = sig.map w.heap.read) : History contents s w'

theorem History.reachable {contents : Table String (Script Point)} {s : ScriptSet} {w : World}
    (h : History contents s w) : Reachable s w := by
  induction h with
  | load _ _ loaded => exact .load loaded
  | reload _ named _ _ reloaded ih => exact .next ih (.update (.reload _ _ named reloaded))
  | vanish _ named _ reloaded ih => exact .next ih (.update (.reload _ _ named reloaded))
  | unload _ name ih => exact .next ih (.update .unload)
  | refuse _ d p refused ih => exact .next ih (.refuse d p refused)
  | fire _ event ctx hc ih => exact .next ih (.fire event ctx hc)
  | outside _ size _ ih => exact .next ih (.outside size)

/-- What is loaded is these scripts, each under its name, and all of their functions are
installed. -/
structure Contains (s : ScriptSet) (h : Heap) (contents : Table String (Script Point)) : Prop where
  scripts : ∀ name, (s.scripts.get? name).map (·.functions) =
    (contents.get? name).map Script.names
  compiled : ∀ name script, contents.get? name = some script → script.CompiledAs name
  functions : ∀ name script, contents.get? name = some script → ∀ f ∈ script.functions,
    s.linkage.registry.Has h f
  builtins : ∀ b, s.linkage.registry.HasBuiltin b

namespace Contains

variable {s : ScriptSet} {h : Heap} {contents : Table String (Script Point)}

theorem functions_iff (c : s.Contains h contents) (f name : String) :
    (∃ loaded, s.scripts.get? name = some loaded ∧ f ∈ loaded.functions) ↔
      ∃ script, contents.get? name = some script ∧ f ∈ script.names := by
  have same := c.scripts name
  cases hl : s.scripts.get? name with
  | none =>
    rw [hl, Option.map_none, eq_comm, Option.map_eq_none_iff] at same
    simp [same]
  | some loaded =>
    rw [hl, Option.map_some, eq_comm, Option.map_eq_some_iff] at same
    obtain ⟨script, found, names⟩ := same
    simp [found, names]

theorem owner (c : s.Contains h contents) (owned : s.Owned) (f name : String) :
    s.owners.get? f = some name ↔ ∃ script, contents.get? name = some script ∧ f ∈ script.names :=
  (owned.owner f name).trans (c.functions_iff f name)

theorem apart (c : s.Contains h contents) (owned : s.Owned) {f name name' : String}
    {script script' : Script Point} (hs : contents.get? name = some script)
    (hs' : contents.get? name' = some script') (hf : f ∈ script.names) (hf' : f ∈ script'.names) :
    name = name' := by
  have own := (c.owner owned f name).mpr ⟨script, hs, hf⟩
  have own' := (c.owner owned f name').mpr ⟨script', hs', hf'⟩
  exact Option.some.inj (own.symm.trans own')

theorem names (c : s.Contains h contents) : s.names = contents.keys := by
  have keys {α β : Type} (t : Table String α) (f : α → β) : (t.mapValues f).keys = t.keys := by
    simp [Table.keys, Table.mapValues, Function.comp_def]
  have same : s.scripts.mapValues (·.functions) = contents.mapValues Script.names := by
    apply Table.ext
    intro name
    rw [Table.get?_mapValues, Table.get?_mapValues]
    exact c.scripts name
  rw [ScriptSet.names, ← keys s.scripts, same, keys]

theorem loadable (c : s.Contains h contents) (owned : s.Owned) : Loadable contents.entries := by
  have distinct (entry : String × Script Point) (he : entry ∈ contents.entries) :
      entry.2.names.Nodup ∧ ∀ f ∈ entry.2.names, Builtin.isName f = false := by
    obtain ⟨m, compiled⟩ := c.compiled entry.1 entry.2 (Table.mem_entries_iff.mp he)
    exact Manifest.compile_distinct compiled
  constructor
  · exact contents.nodup_keys
  · refine (nodup_functions_iff contents.nodup_keys fun e he => (distinct e he).1).mpr ?_
    intro a ha b hb f hf hf'
    exact c.apart owned (Table.mem_entries_iff.mp ha) (Table.mem_entries_iff.mp hb) hf hf'
  · exact fun e he => (distinct e he).2

theorem declared (c : s.Contains h contents) (owned : s.Owned) (f : String) :
    s.linkage.registry.isDeclared f ↔
      Builtin.isName f ∨ ∃ name script, contents.get? name = some script ∧ f ∈ script.names := by
  rw [owned.declared, Table.contains, Option.isSome_iff_exists]
  exact or_congr_right (exists_congr fun name => c.owner owned f name)

theorem serves (c : s.Contains h contents) (owned : s.Owned) :
    s.linkage.registry.Serves h contents.entries := by
  refine Registry.serves_of ?_ c.builtins ?_
  · intro name script hs
    exact c.functions name script (Table.mem_entries_iff.mp hs)
  · intro f hf
    obtain builtin | ⟨name, script, hs, own⟩ := (c.declared owned f).mp hf
    · exact .inl builtin
    · exact .inr ⟨name, script, Table.mem_entries_iff.mpr hs, own⟩

/-- Where nothing changes about the functions, the same scripts are loaded. -/
theorem transfer (c : s.Contains h contents) {t : ScriptSet} {h' : Heap}
    (scripts : t.scripts = s.scripts) (registry : t.linkage.registry = s.linkage.registry)
    (functions : ∀ f, s.linkage.registry.Has h f → s.linkage.registry.Has h' f) :
    t.Contains h' contents := by
  constructor
  · rw [scripts]
    exact c.scripts
  · exact c.compiled
  · intro name script hs f hf
    rw [registry]
    exact functions f (c.functions name script hs f hf)
  · rw [registry]
    exact c.builtins

end Contains

theorem contains_load {d : Disk} {root : Path} {h : Heap} {paths : List Path}
    {scripts : List (String × Script Point)} {out : Loaded} (listed : d.scripts root = .ok paths)
    (read : d.readAll paths = .ok scripts) (loaded : load d root h = .ok out) :
    out.set.Contains out.heap (.ofList scripts) := by
  obtain ⟨paths', scripts', listed', read', loaded⟩ := load_eq_ok_iff_loadScripts.mp loaded
  obtain rfl := Except.ok.inj (listed.symm.trans listed')
  obtain rfl := Except.ok.inj (read.symm.trans read')
  have loadable := loadable_readAll listed read (loadScripts_isOk_iff.mp ⟨out, loaded⟩)
  obtain ⟨functions, builtins⟩ := loadScripts_has loadable loaded
  obtain ⟨kept, -⟩ := loadScripts_kept loadable loaded
  have entry {name : String} {script : Script Point} :
      (Table.ofList scripts).get? name = some script ↔ (name, script) ∈ scripts :=
    Table.get?_ofList loadable.names
  constructor
  · intro name
    cases hs : (Table.ofList scripts).get? name with
    | some script => exact (kept name script (entry.mp hs)).1
    | none =>
      have other : name ∉ scripts.map Prod.fst := by
        intro hn
        obtain ⟨⟨name, script⟩, there, rfl⟩ := List.mem_map.mp hn
        rw [entry.mpr there] at hs
        cases hs
      rw [loadScripts_other loaded other]
      rfl
  · intro name script hs
    obtain ⟨p, -, -, compiled⟩ := (Disk.mem_readAll read).mp (entry.mp hs)
    exact Disk.compiledAs compiled
  · intro name script hs
    exact functions name script (entry.mp hs)
  · exact builtins

section
variable {s : ScriptSet} {w : World} (sound : s.Sound w) {name : String} {script : Script Ref}
  {out : Reloaded} (r : s.Replaces w.heap name script out)
include sound r

/-- A replacement leaves the functions of the other scripts and the built-in ones alone. -/
theorem replaces_other {f : String} (old : f ∉ (s.version name).functions)
    (new : f ∉ script.names) :
    out.set.linkage.registry.signatures.get? f = s.linkage.registry.signatures.get? f ∧
      out.set.linkage.registry.callables.get? f = s.linkage.registry.callables.get? f := by
  have same := functions_told sound.held name script
  obtain ⟨signature, callable⟩ := (installs sound.owned name r.fits).other f old new
  rw [r.linkage, same.signatures, same.callables]
  exact ⟨signature, callable⟩

theorem replaces_has {f : ScriptFunction Ref} (hf : f ∈ script.functions) :
    out.set.linkage.registry.Has out.heap (f.map out.heap.read) := by
  have same := functions_told sound.held name script
  apply Registry.has_of_installed (r.lies f hf)
  rw [r.linkage, same.signatures, same.callables]
  exact (installs sound.owned name r.fits).function f hf

/-- After a replacement the new version is loaded in the place of the old one. -/
theorem contains_replaces {contents contents' : Table String (Script Point)}
    (contains : s.Contains w.heap contents)
    (scripts : ∀ n, (out.set.scripts.get? n).map (·.functions) =
      (contents'.get? n).map Script.names)
    (others : ∀ n, n ≠ name → contents'.get? n = contents.get? n)
    (own : ∀ new, contents'.get? name = some new →
      new.CompiledAs name ∧ script.map out.heap.read = new) :
    out.set.Contains out.heap contents' := by
  have untouched {n : String} {other : Script Point} (hn : n ≠ name)
      (hs : contents.get? n = some other) {f : String} (hf : f ∈ other.names) :
      f ∉ (s.version name).functions ∧ f ∉ script.names := by
    have owner := (contains.owner sound.owned f n).mpr ⟨other, hs, hf⟩
    constructor
    · intro old
      rw [(mem_version sound.owned).mp old] at owner
      exact hn (Option.some.inj owner).symm
    · intro new
      exact hn (foreign?_eq_none.mp r.fits.own f new n owner)
  constructor
  · exact scripts
  · intro n new hs
    by_cases here : n = name
    · subst here
      exact (own new hs).1
    · rw [others n here] at hs
      exact contains.compiled n new hs
  · intro n new hs f hf
    by_cases here : n = name
    · subst here
      obtain ⟨-, rfl⟩ := own new hs
      obtain ⟨g, hg, rfl⟩ := List.mem_map.mp hf
      exact replaces_has sound r hg
    · rw [others n here] at hs
      obtain ⟨old, new⟩ := untouched here hs (List.mem_map_of_mem hf)
      exact (contains.functions n _ hs f hf).extend r.grows
        (replaces_other sound r old new)
  · intro b
    have builtin := b.isName_name
    have old : b.name ∉ (s.version name).functions := by
      intro old
      have owned := Table.contains_of_get? ((mem_version sound.owned).mp old)
      rw [sound.owned.custom _ owned] at builtin
      cases builtin
    have new : b.name ∉ script.names := by
      intro new
      rw [r.fits.custom _ new] at builtin
      cases builtin
    obtain ⟨signature, callable⟩ := replaces_other sound r old new
    obtain ⟨signature', callable'⟩ := contains.builtins b
    exact ⟨signature.trans signature', callable.trans callable'⟩

end

theorem contains_unload {s : ScriptSet} {w : World} (sound : s.Sound w)
    {contents : Table String (Script Point)} (contains : s.Contains w.heap contents)
    (name : String) :
    (s.unload name w.heap).set.Contains (s.unload name w.heap).heap (contents.erase name) := by
  apply contains_replaces sound (unload_replaces s w.heap name) contains
  · intro n
    rw [unload_eq, Table.get?_erase_ite, Table.get?_erase_ite]
    split
    · rfl
    · exact contains.scripts n
  · intro n hn
    exact Table.get?_erase_of_ne _ (Ne.symm hn)
  · intro new hs
    rw [Table.get?_erase_self] at hs
    cases hs

theorem contains_reload {s : ScriptSet} {w : World} (sound : s.Sound w)
    {contents : Table String (Script Point)} (contains : s.Contains w.heap contents) {d : Disk}
    {p : Path} {name : String} {script : Script Point} (read : d.script name p = .ok script)
    (own : foreign? s.owners name script.names = none) :
    (s.replace name (script.place w.heap).1).1.Contains (script.place w.heap).2
      (contents.insert name script) := by
  apply contains_replaces sound (replace_replaces read own w.heap) contains
  · intro n
    rw [replace_eq, Table.get?_insert_ite, Table.get?_insert_ite]
    split
    · exact congrArg some (script.names_place w.heap)
    · exact contains.scripts n
  · intro n hn
    exact Table.get?_insert_of_ne _ _ hn
  · intro new hs
    rw [Table.get?_insert_self] at hs
    obtain rfl := Option.some.inj hs
    exact ⟨Disk.compiledAs read, script.map_place w.heap⟩

/-- Whatever has become of a set, it has the functions of what was loaded last of each script. -/
theorem contains_history {contents : Table String (Script Point)} {s : ScriptSet} {w : World}
    (h : History contents s w) : s.Contains w.heap contents := by
  induction h with
  | load listed read loaded => exact contains_load listed read loaded
  | reload h named there read reloaded ih =>
    have sound := reachable_sound h.reachable
    obtain ⟨name, named', ⟨gone, -⟩ | ⟨-, script, read', own, rfl⟩⟩ :=
      reload_eq_ok_iff.mp reloaded
    · rw [there] at gone
      cases gone
    · obtain rfl := Except.ok.inj (named.symm.trans named')
      obtain rfl := Except.ok.inj (read.symm.trans read')
      exact contains_reload sound ih read own
  | vanish h named gone reloaded ih =>
    have sound := reachable_sound h.reachable
    obtain ⟨name, named', ⟨-, rfl⟩ | ⟨there, -⟩⟩ := reload_eq_ok_iff.mp reloaded
    · obtain rfl := Except.ok.inj (named.symm.trans named')
      exact contains_unload sound ih _
    · rw [gone] at there
      cases there
  | unload h name ih => exact contains_unload (reachable_sound h.reachable) ih name
  | refuse h d p refused ih => exact ih
  | @fire contents s w h event ctx hc ih =>
    have settled := (reachable_sound h.reachable).settled
    have grows := (settled.makeCalls hc (s.callsOn event)).1
    have registry := functions_makeCalls ctx s.linkage w (s.callsOn event)
    refine ih.transfer (t := (s.fire event ctx w).2.1) rfl registry ?_
    intro f hf
    exact hf.extend grows ⟨rfl, rfl⟩
  | outside h size same ih =>
    apply ih.transfer rfl rfl
    rintro f ⟨sig, lies, read, signature, callable⟩
    exact ⟨sig, lies.mono size, (same _ sig signature).trans read, signature, callable⟩

/-- The registry is determined by what was loaded last of each script. A name is declared if it is
that of a built-in function or of a function of exactly one of the scripts. Each function of a
script has the signature that it was compiled with, and something to run, with that signature, if it
has a body; the owner of each is its script; and the built-in functions are as they always are.
Wherever the same scripts are loaded, the registry has the same. -/
theorem registry_determined {contents : Table String (Script Point)} {s : ScriptSet} {w : World}
    (h : History contents s w) :
    let r := s.linkage.registry
    (∀ f, r.isDeclared f ↔ Builtin.isName f ∨
        ∃! name, ∃ script, contents.get? name = some script ∧ f ∈ script.names) ∧
      s.names = contents.keys ∧
      (∀ name script, contents.get? name = some script → script.CompiledAs name ∧
        ∀ f ∈ script.functions, Builtin.isName f.signature.name = false ∧ r.Has w.heap f) ∧
      (∀ f name, s.owners.get? f = some name ↔
        ∃ script, contents.get? name = some script ∧ f ∈ script.names) ∧
      (∀ b, r.HasBuiltin b) ∧ r.Closed ∧
      ∀ t w', History contents t w' → t.owners = s.owners ∧
        ∀ f, t.linkage.registry.offer? w'.heap f = r.offer? w.heap f := by
  intro r
  have contains := contains_history h
  have owned := (reachable_sound h.reachable).owned
  refine ⟨?_, contains.names, ?_, contains.owner owned, contains.builtins, owned.closed, ?_⟩
  · intro f
    refine (contains.declared owned f).trans (or_congr_right ?_)
    constructor
    · rintro ⟨name, script, hs, hf⟩
      refine ⟨name, ⟨script, hs, hf⟩, ?_⟩
      rintro name' ⟨script', hs', hf'⟩
      exact contains.apart owned hs' hs hf' hf
    · rintro ⟨name, found, -⟩
      exact ⟨name, found⟩
  · intro name script hs
    refine ⟨contains.compiled name script hs, ?_⟩
    intro f hf
    have own := (contains.owner owned f.signature.name name).mpr
      ⟨script, hs, List.mem_map_of_mem hf⟩
    exact ⟨owned.custom _ (Table.contains_of_get? own), contains.functions name script hs f hf⟩
  · intro t w' h'
    have contains' := contains_history h'
    have owned' := (reachable_sound h'.reachable).owned
    constructor
    · apply Table.ext
      intro f
      apply Option.ext
      intro name
      rw [contains'.owner owned', contains.owner owned]
    · exact (contains'.serves owned').unique (contains.serves owned) fun _ => Iff.rfl

end ScriptSet

namespace Library

open ScriptSet

def contents (v : Library) : List (String × Script Point) :=
  [("lib.json", v.script), ("main.json", caller)]

theorem readAll_disk (v : Library) :
    v.disk.readAll [path, ⟨"/r/main.json"⟩] = .ok v.contents := by
  simp only [Disk.readAll, scriptName_path, scriptName_main, script_disk, script_main, bind,
    Except.bind]
  rfl

theorem history_loaded (v : Library) : History (.ofList v.contents) v.loaded .empty := by
  obtain ⟨out, loads, set, heap⟩ := v.load_disk
  have history := History.load (w := .empty) v.scripts_disk v.readAll_disk loads
  rw [set, heap] at history
  exact history

/-- The function that is reloaded has its new signature and body, whatever it was before. -/
theorem registry_determined_changed :
    ∃ s, History (.insert (.ofList defined.contents) "lib.json" changed.script) s .empty ∧
      s.linkage.registry.Has World.empty.heap ⟨signature .loc, some (body "new")⟩ ∧
      s.owners.get? "f" = some "lib.json" ∧ s.linkage.registry.HasBuiltin .join := by
  have found : changed.disk.exists? path := by rfl
  have reloaded := changed.reload_disk (s := defined.loaded) rfl World.empty.heap
  have history := defined.history_loaded.reload scriptName_path found changed.script_disk reloaded
  obtain ⟨-, -, functions, owner, builtins, -⟩ := registry_determined history
  have script := Table.get?_insert_self (.ofList defined.contents) "lib.json" changed.script
  obtain ⟨-, has⟩ := functions "lib.json" changed.script script
  exact ⟨_, history, (has _ (List.mem_singleton_self _)).2,
    (owner "f" "lib.json").mpr ⟨_, script, List.mem_singleton_self _⟩, builtins .join⟩

end Library

end LiveCalls

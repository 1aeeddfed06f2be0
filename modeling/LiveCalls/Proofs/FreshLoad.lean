import LiveCalls.Proofs.Contents
import LiveCalls.Proofs.Revalidation

/-!
# A reload and a fresh load

A reload binds the calls of its script against what has become of the registry. A load declares
everything first, binds all calls, and defines the functions afterwards. As the registry is
determined by what is loaded, both keep the same calls of the script, bind them to the same and
report the same about the others.
-/

namespace LiveCalls

/-- Whether a report is about a place in a script. -/
def Diagnostic.isAbout (name : String) (d : Diagnostic) : Bool :=
  d.site.any (·.script = some name)

namespace Manifest

theorem compile_sites {name : String} {m : Manifest} {s : Script Point}
    (h : m.compile name = .ok s) : ∀ t ∈ s.triggers, ∀ c ∈ t.calls, c.site.script = some name := by
  intro t ht c hc
  have written := List.mem_flatMap.mpr ⟨t, ht, hc⟩
  obtain ⟨call, -, compiled⟩ := exists_mem_of_forall₂ (compile_eq_ok h).calls written
  rw [compiled.site]

end Manifest

namespace Script

theorem isAbout_reports {s : Script Point} {name : String} (compiled : s.CompiledAs name)
    {r : Registry} {d : Diagnostic} (hd : d ∈ s.reports r) (name' : String) :
    d.isAbout name' = decide (name = name') := by
  obtain ⟨m, compiled⟩ := compiled
  obtain ⟨t, ht, hd⟩ := List.mem_flatMap.mp hd
  obtain ⟨c, hc, hd⟩ := List.mem_flatMap.mp hd
  have site : d.site = some c.site := CallSite.site_of_first hd
  simp [Diagnostic.isAbout, site, Manifest.compile_sites compiled t ht c hc]

theorem filter_reports {scripts : List (String × Script Point)} {r : Registry}
    (names : (scripts.map Prod.fst).Nodup)
    (compiled : ∀ name script, (name, script) ∈ scripts → script.CompiledAs name) {name : String}
    {script : Script Point} (hs : (name, script) ∈ scripts) :
    (scripts.flatMap (·.2.reports r)).filter (Diagnostic.isAbout name) = script.reports r := by
  have about (entry : String × Script Point) (he : entry ∈ scripts) :
      (entry.2.reports r).filter (Diagnostic.isAbout name) =
        if entry.1 = name then entry.2.reports r else [] := by
    rw [List.filter_congr fun d hd => isAbout_reports (compiled entry.1 entry.2 he) hd name]
    split
    · rename_i same
      simp [same]
    · rename_i other
      simp [other]
  rw [List.filter_flatMap, List.flatMap_congr about]
  clear about compiled
  induction scripts with
  | nil => cases hs
  | cons entry rest ih =>
    obtain ⟨first, others⟩ := List.nodup_cons.mp names
    rw [List.flatMap_cons]
    rcases List.mem_cons.mp hs with rfl | later
    · have none : rest.flatMap (fun e => if e.1 = name then e.2.reports r else []) = [] := by
        apply List.flatMap_eq_nil_iff.mpr
        intro e he
        exact if_neg fun same => first (List.mem_map.mpr ⟨e, he, same⟩)
      rw [none, if_pos rfl, List.append_nil]
    · have other : entry.1 ≠ name := by
        rintro rfl
        exact first (List.mem_map.mpr ⟨_, later, rfl⟩)
      rw [if_neg other, List.nil_append, ih others later]

end Script

namespace ScriptSet

section
variable {s : ScriptSet} {w : World} (sound : s.Sound w) {name : String} {script : Script Ref}
  {out : Reloaded} (r : s.Replaces w.heap name script out)
include sound r

/-- The calls that a replacement keeps are not among those that hear its news. -/
theorem live_told {id : CallId} (hid : id ∈ (s.rebuilt name script).kept.flatMap (·.calls)) :
    out.set.linkage.sites.live.get? id =
      (s.rebuilt name script).linkage.sites.live.get? id := by
  obtain ⟨cs, order, tells⟩ := told_tells sound r
  have low := ((rebuilt_binds sound.held name script).range id hid).1
  rw [r.linkage]
  apply tells.others
  intro told
  obtain ⟨c, hc, rfl⟩ := List.mem_map.mp told
  have other := (List.mem_filter.mp (order.mem_iff.mp hc)).1
  have live := (mem_callsOfOthers sound.held).mp other
  obtain ⟨-, -, allotted⟩ := (sound.held.coherent.forgetAll _).site c.id c live
  exact absurd allotted (Nat.not_lt.mpr low)

/-- What is kept of a script that is replaced is what a first validation against the functions that
it leaves accepts. What is wrong with its other calls is reported, and then, at no place, what is
wrong with calls of other scripts. -/
theorem replaces_kept (triggers : (out.set.version name).triggers = (s.rebuilt name script).kept) :
    out.set.kept out.heap name = script.kept out.set.linkage.registry out.heap ∧
      ∃ stale, out.diagnostics = script.reports out.set.linkage.registry ++ stale ∧
        ∀ d ∈ stale, d.site = none := by
  have coherent := (holding_installed sound.held name script).coherent
  obtain ⟨sites, reports⟩ := Linkage.bindTriggers_sites coherent script.triggers
  have same : (s.installed name script).registry.SameFunctions out.set.linkage.registry := by
    rw [r.linkage]
    exact functions_told sound.held name script
  rw [← Trigger.bound_congr same] at sites
  rw [← Trigger.reports_congr same] at reports
  constructor
  · apply kept_of_sites
    rw [triggers, ← sites]
    exact LoadedTrigger.sites_congr fun id hid => live_told sound r hid
  · obtain ⟨cs, -, tells⟩ := told_tells sound r
    refine ⟨_, r.diagnostics.trans (congrArg (· ++ _) reports), ?_⟩
    rw [tells.diagnostics]
    exact unlocated_reports

end

/-- What is kept of a script that is reloaded is what a first validation against the registry that
is left accepts, and it is reported what is wrong with its other calls. -/
theorem reload_kept {s : ScriptSet} {w : World} (sound : s.Sound w) {d : Disk} {p : Path}
    {name : String} {script : Script Point} (named : p.scriptName = .ok name) (there : d.exists? p)
    (read : d.script name p = .ok script) {out : Reloaded}
    (reloaded : s.reload d p w.heap = .ok out) :
    out.set.kept out.heap name = script.kept out.set.linkage.registry out.heap ∧
      out.diagnostics.filter (·.isAbout name) = script.reports out.set.linkage.registry := by
  obtain ⟨name', named', ⟨gone, -⟩ | ⟨-, script', read', own, rfl⟩⟩ :=
    reload_eq_ok_iff.mp reloaded
  · rw [there] at gone
    cases gone
  obtain rfl := Except.ok.inj (named.symm.trans named')
  obtain rfl := Except.ok.inj (read.symm.trans read')
  have version : ((s.replace name (script.place w.heap).1).1.version name).triggers =
      (s.rebuilt name (script.place w.heap).1).kept := by
    rw [replace_eq, ScriptSet.version, Table.get?_insert_self, Option.getD_some]
  obtain ⟨kept, stale, reports, elsewhere⟩ :=
    replaces_kept sound (replace_replaces read own w.heap) version
  refine ⟨kept, ?_⟩
  rw [reports, List.filter_append]
  have here (r : Registry) : (script.reports r).filter (·.isAbout name) = script.reports r := by
    apply List.filter_eq_self.mpr
    intro diagnostic hd
    rw [Script.isAbout_reports (Disk.compiledAs read) hd, decide_eq_true rfl]
  have others : stale.filter (·.isAbout name) = [] := by
    apply List.filter_eq_nil_iff.mpr
    intro diagnostic hd
    simp [Diagnostic.isAbout, elsewhere diagnostic hd]
  rw [others, List.append_nil]
  exact here _

/-- A load of the scripts that a registry serves keeps of each of them what a first validation
against this registry accepts, and reports the same about its other calls. -/
theorem loadScripts_agrees {r : Registry} {h h' : Heap} {root : Path}
    {current scripts : List (String × Script Point)} {fresh : Loaded}
    (serves : r.Serves h current) (same : scripts.Perm current) (loadable : Loadable scripts)
    (compiled : ∀ name script, (name, script) ∈ scripts → script.CompiledAs name)
    (loaded : loadScripts root scripts h' = .ok fresh) {name : String} {script : Script Point}
    (hs : (name, script) ∈ scripts) :
    fresh.set.kept fresh.heap name = script.kept r h ∧
      fresh.diagnostics.filter (·.isAbout name) = script.reports r := by
  obtain ⟨kept, reports⟩ := loadScripts_served loadable loaded serves same
  refine ⟨kept name script hs, ?_⟩
  rw [reports]
  exact Script.filter_reports loadable.names compiled hs

/-- A script that is reloaded keeps what a load of all scripts, as they were loaded last, keeps of
it: the same calls in the same order, for the same events, with the same arguments, bound to the
same signature and holding the same to run. The same is reported about the calls that are not kept.
It is so whether the scripts are loaded as they are listed here or from a folder that has them. -/
theorem reload_as_loaded {contents : Table String (Script Point)} {s : ScriptSet} {w : World}
    (h : History contents s w) {d : Disk} {p : Path} (there : d.exists? p) {out : Reloaded}
    (reloaded : s.reload d p w.heap = .ok out) :
    ∃ name script, p.scriptName = .ok name ∧ d.script name p = .ok script ∧
      let current := (contents.insert name script).entries
      let agrees (fresh : Loaded) :=
        out.set.kept out.heap name = fresh.set.kept fresh.heap name ∧
          out.diagnostics.filter (·.isAbout name) = fresh.diagnostics.filter (·.isAbout name)
      (∀ root heap, ∃ fresh, loadScripts root current heap = .ok fresh ∧ agrees fresh) ∧
        ∀ (d : Disk) root heap paths scripts, d.scripts root = .ok paths →
          d.readAll paths = .ok scripts → (∀ entry, entry ∈ scripts ↔ entry ∈ current) →
          ∃ fresh, load d root heap = .ok fresh ∧ agrees fresh := by
  obtain ⟨name, named, ⟨gone, -⟩ | ⟨-, script, read, -, -⟩⟩ := reload_eq_ok_iff.mp reloaded
  · rw [there] at gone
    cases gone
  refine ⟨name, script, named, read, ?_⟩
  intro current agrees
  have history := h.reload named there read reloaded
  have owned := (reachable_sound history.reachable).owned
  have contains := contains_history history
  have loadable : Loadable current := contains.loadable owned
  obtain ⟨kept, reports⟩ :=
    reload_kept (reachable_sound h.reachable) named there read reloaded
  have entry : (name, script) ∈ current :=
    Table.mem_entries_iff.mpr (Table.get?_insert_self contents name script)
  -- it is of no account in which order a load has the scripts
  have load_agrees {scripts : List (String × Script Point)} (same : scripts.Perm current)
      (root : Path) (heap : Heap) :
      ∃ fresh, loadScripts root scripts heap = .ok fresh ∧ agrees fresh := by
    have loadable := loadable.perm same.symm
    obtain ⟨fresh, loaded⟩ := loadScripts_isOk_iff.mpr loadable.functions
    obtain ⟨keeps, tells⟩ := loadScripts_agrees (contains.serves owned) same loadable
      (fun name script hs =>
        contains.compiled name script (Table.mem_entries_iff.mp (same.mem_iff.mp hs)))
      loaded (same.mem_iff.mpr entry)
    exact ⟨fresh, loaded, kept.trans keeps.symm, reports.trans tells.symm⟩
  constructor
  · exact load_agrees (.refl current)
  · intro d root heap paths scripts listed read same
    have distinct := (Disk.distinct_readAll listed read).of_map
    have perm := (List.perm_ext_iff_of_nodup distinct loadable.names.of_map).mpr same
    obtain ⟨fresh, loaded, agree⟩ := load_agrees perm root heap
    exact ⟨fresh, load_eq_ok_iff_loadScripts.mpr ⟨paths, scripts, listed, read, loaded⟩, agree⟩

end ScriptSet

namespace Library

open ScriptSet

/-- A caller that is reloaded after its function is back to taking a string keeps its call, as it
would had the folder been loaded as it is now. -/
theorem reload_as_loaded_main :
    ∃ s out, History (.ofList defined.contents) s .empty ∧
      s.reload defined.disk ⟨"/r/main.json"⟩ World.empty.heap = .ok out ∧
        out.set.kept out.heap "main.json" =
          [("go", [(call (some old)).kept World.empty.heap])] := by
  have found : defined.disk.exists? path := by rfl
  have found' : defined.disk.exists? ⟨"/r/main.json"⟩ := by rfl
  have library := defined.reload_disk (s := changed.loaded) rfl World.empty.heap
  have history := changed.history_loaded.reload scriptName_path found defined.script_disk library
  have contents : (Table.ofList changed.contents).insert "lib.json" defined.script =
    .ofList defined.contents := by rfl
  rw [contents] at history
  let s := (changed.loaded.replace "lib.json" defined.script).1
  obtain ⟨out, reloaded⟩ :
      ∃ out, s.reload defined.disk ⟨"/r/main.json"⟩ World.empty.heap = .ok out :=
    ⟨_, reload_eq_ok_iff.mpr ⟨"main.json", scriptName_main,
      .inr ⟨found', caller, defined.script_main, rfl, rfl⟩⟩⟩
  refine ⟨s, out, history, reloaded, ?_⟩
  obtain ⟨name, script, named, read, -, folder⟩ := reload_as_loaded history found' reloaded
  obtain rfl := Except.ok.inj (scriptName_main.symm.trans named)
  obtain rfl := Except.ok.inj (defined.script_main.symm.trans read)
  have same : ∀ entry, entry ∈ defined.contents ↔
      entry ∈ ((Table.ofList defined.contents).insert "main.json" caller).entries :=
    fun _ => Iff.rfl
  obtain ⟨fresh, loads, kept, -⟩ :=
    folder _ _ World.empty.heap _ _ defined.scripts_disk defined.readAll_disk same
  obtain ⟨loaded, loads', set, heap⟩ := defined.load_disk
  obtain rfl := Except.ok.inj (loads'.symm.trans loads)
  rw [set, heap] at kept
  exact kept

end Library

end LiveCalls

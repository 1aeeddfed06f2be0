import LiveCalls.Proofs.Contents

/-!
# The order of files

A load goes through the files of a folder more than once: it declares the functions of all of them,
binds the calls of all of them, and then defines the functions and gives the calls what there is to
run. Whether it succeeds, which calls it keeps and what they are bound to is not a matter of the
order of the files.
-/

namespace LiveCalls

namespace WrittenCall

variable {r r' : Registry} {h h' : Heap} {scripts : List (String × Script Point)}

/-- A call is kept if it fits what is declared, and holds what its function has to run. -/
theorem kept?_linked (serves : r.Serves h scripts) (declares : r'.Declares h' scripts)
    (call : WrittenCall) :
    call.kept? r h = (call.kept? r' h').map fun kept =>
      { kept with callable := (offered? scripts call.function).bind (·.callable) } := by
  have same := (serves.declares call.function).trans (declares call.function).symm
  obtain ⟨kept, -⟩ := call.kept?_congr same
  rw [← serves.offer?_eq]
  cases hs : r.signatures.get? call.function with
  | none =>
    rw [hs, Option.map_none, eq_comm, Option.map_eq_none_iff] at same
    rw [kept?_undeclared hs, kept?_undeclared same]
    rfl
  | some s =>
    have offer : r.offer? h call.function =
        some ⟨s.map h.read, (r.callables.get? call.function).map (·.read h)⟩ := by
      rw [Registry.offer?, hs, Option.map_some]
    rw [offer, Option.bind_some]
    exact kept

/-- A call that is kept is bound to what its function is, and holds what its function has to run. -/
theorem kept?_offered (serves : r.Serves h scripts) {call : WrittenCall} {kept : KeptCall}
    (hk : call.kept? r h = some kept) :
    ∃ o, offered? scripts kept.function = some o ∧ kept.signature = some o.signature ∧
      kept.callable = o.callable := by
  obtain ⟨c, bound, rfl⟩ := Option.map_eq_some_iff.mp hk
  rw [bound?_eq] at bound
  cases judged : call.unbound.judge .first r with
  | error rejection =>
    rw [judged] at bound
    cases bound
  | ok a =>
    rw [judged] at bound
    cases bound
    obtain ⟨declared, -, -, -, held⟩ := CallSite.judge_eq_ok_iff.mp judged
    have declared : r.signatures.get? call.function = some a.signature := declared
    have offer := serves.offer?_eq call.function
    rw [Registry.offer?, declared, Option.map_some] at offer
    have held : (call.unbound.adopt a).callable? = r.callables.get? call.function := held
    exact ⟨_, offer.symm, rfl, congrArg (Option.map fun f : Callable => f.read h) held⟩

end WrittenCall

/-- What is kept of the calls of a script whose calls are bound against what is declared, and given
afterwards what the functions of all scripts have to run. -/
def Script.linked {α : Type} (scripts : List (String × Script Point)) (r : Registry) (h : Heap)
    (s : Script α) : List (String × List KeptCall) :=
  s.triggers.map fun t => (t.event, t.calls.filterMap fun call => (call.kept? r h).map fun kept =>
    { kept with callable := (offered? scripts call.function).bind (·.callable) })

namespace ScriptSet

theorem load_isOk_iff_readAll {d : Disk} {root : Path} {paths : List Path}
    (listed : d.scripts root = .ok paths) (h : Heap) :
    (∃ out, load d root h = .ok out) ↔
      ∃ scripts, d.readAll paths = .ok scripts ∧ (scripts.flatMap (·.2.names)).Nodup := by
  have ok (scripts : List (String × Script Point)) : (scripts.flatMap (·.2.names)).Nodup ↔
      ∃ out, loadScripts root scripts h = .ok out := loadScripts_isOk_iff.symm
  simp only [load_eq_ok_iff_loadScripts, ok]
  constructor
  · rintro ⟨out, paths', scripts, listed', read, loaded⟩
    obtain rfl := Except.ok.inj (listed.symm.trans listed')
    exact ⟨scripts, read, out, loaded⟩
  · rintro ⟨scripts, read, out, loaded⟩
    exact ⟨out, paths, scripts, listed, read, loaded⟩

theorem load_isOk_iff {d : Disk} {root : Path} {paths : List Path}
    (listed : d.scripts root = .ok paths) (h : Heap) :
    (∃ out, load d root h = .ok out) ↔
      (∀ p ∈ paths, ∃ name script, d.HasScript p name script) ∧
        ∀ p ∈ paths, ∀ q ∈ paths, ∀ name script name' script' f,
          d.HasScript p name script → d.HasScript q name' script' →
          f ∈ script.names → f ∈ script'.names → p = q := by
  rw [load_isOk_iff_readAll listed]
  simp only [Disk.hasScript_iff, ← Disk.readAll_isOk_iff]
  have apart_iff {scripts : List (String × Script Point)} (read : d.readAll paths = .ok scripts) :
      (scripts.flatMap (·.2.names)).Nodup ↔ ∀ a ∈ scripts, ∀ b ∈ scripts, ∀ f,
        f ∈ a.2.names → f ∈ b.2.names → a.1 = b.1 := by
    apply nodup_functions_iff (Disk.distinct_readAll listed read)
    intro entry he
    obtain ⟨p, -, -, script⟩ := (Disk.mem_readAll read).mp he
    exact (Disk.script_distinct script).1
  constructor
  · rintro ⟨scripts, read, distinct⟩
    refine ⟨⟨scripts, read⟩, ?_⟩
    intro p hp q hq name script name' script' f hs hs' hf hf'
    have same : name = name' := (apart_iff read).mp distinct
      _ ((Disk.mem_readAll read).mpr ⟨p, hp, hs⟩) _ ((Disk.mem_readAll read).mpr ⟨q, hq, hs'⟩)
      f hf hf'
    apply Disk.scripts_inj listed hp hq
    rw [Path.scriptName_eq_ok_iff.mp hs.1, Path.scriptName_eq_ok_iff.mp hs'.1, same]
  · rintro ⟨⟨scripts, read⟩, apart⟩
    refine ⟨scripts, read, (apart_iff read).mpr ?_⟩
    intro a ha b hb f hf hf'
    obtain ⟨p, hp, hs⟩ := (Disk.mem_readAll read).mp ha
    obtain ⟨q, hq, hs'⟩ := (Disk.mem_readAll read).mp hb
    obtain rfl := apart p hp q hq _ _ _ _ f hs hs' hf hf'
    exact Except.ok.inj (hs.1.symm.trans hs'.1)

theorem loadScripts_kept_other {root : Path} {scripts : List (String × Script Point)} {h : Heap}
    {out : Loaded} (loaded : loadScripts root scripts h = .ok out) {name : String}
    (other : name ∉ scripts.map Prod.fst) : out.set.kept out.heap name = [] := by
  rw [ScriptSet.kept, version, loadScripts_other loaded other]
  rfl

section
variable {root : Path} {scripts : List (String × Script Point)} {h : Heap} {out : Loaded}
  (loadable : Loadable scripts) (loaded : loadScripts root scripts h = .ok out)
include loadable loaded

theorem loadScripts_linked {name : String} {script : Script Point} (hs : (name, script) ∈ scripts)
    {r : Registry} {h' : Heap} (declares : r.Declares h' scripts) :
    out.set.kept out.heap name = script.linked scripts r h' := by
  obtain ⟨-, kept⟩ := (loadScripts_kept loadable loaded).1 name script hs
  have serves := loadScripts_serves loadable loaded
  rw [kept]
  apply List.map_congr_left
  intro t _
  rw [List.filterMap_congr fun call _ => call.kept?_linked serves declares]

/-- Every call that is kept is bound to what its function is, in whichever script that is, and holds
what it has to run. -/
theorem loadScripts_offered {name : String} {entry : String × List KeptCall}
    (he : entry ∈ out.set.kept out.heap name) {call : KeptCall} (hc : call ∈ entry.2) :
    ∃ o ∈ offers scripts, offered? scripts call.function = some o ∧
      call.signature = some o.signature ∧ call.callable = o.callable := by
  by_cases hn : name ∈ scripts.map Prod.fst
  · obtain ⟨⟨name, script⟩, hs, rfl⟩ := List.mem_map.mp hn
    obtain ⟨-, kept⟩ := (loadScripts_kept loadable loaded).1 name script hs
    rw [kept] at he
    obtain ⟨t, -, rfl⟩ := List.mem_map.mp he
    obtain ⟨written, -, hk⟩ := List.mem_filterMap.mp hc
    obtain ⟨o, offered, bound⟩ := WrittenCall.kept?_offered (loadScripts_serves loadable loaded) hk
    exact ⟨o, List.mem_of_find?_eq_some offered, offered, bound⟩
  · rw [loadScripts_kept_other loaded hn] at he
    cases he

/-- The same is kept when the scripts are loaded in another order. -/
theorem loadScripts_perm {scripts' : List (String × Script Point)} (same : scripts'.Perm scripts)
    (root' : Path) (h' : Heap) :
    ∃ out', loadScripts root' scripts' h' = .ok out' ∧
      ∀ name, out'.set.kept out'.heap name = out.set.kept out.heap name := by
  have loadable' := loadable.perm same.symm
  obtain ⟨out', loaded'⟩ := loadScripts_isOk_iff.mpr loadable'.functions
  refine ⟨out', loaded', ?_⟩
  intro name
  by_cases hn : name ∈ scripts.map Prod.fst
  · obtain ⟨⟨name, script⟩, hs, rfl⟩ := List.mem_map.mp hn
    obtain ⟨-, kept⟩ := (loadScripts_kept loadable loaded).1 name script hs
    obtain ⟨kept', -⟩ :=
      loadScripts_served loadable' loaded' (loadScripts_serves loadable loaded) same
    exact (kept' name script (same.mem_iff.mpr hs)).trans kept.symm
  · have hn' : name ∉ scripts'.map Prod.fst := mt (same.map Prod.fst).mem_iff.mp hn
    rw [loadScripts_kept_other loaded hn, loadScripts_kept_other loaded' hn']

end

/-- A folder can be loaded if and only if each of its files has a script, that is, can be read and
is a manifest that compiles, and no function is in two files. Then of every script those calls are
kept, in order, that a first validation accepts against any registry that declares the functions of
all files and the built-in ones. Each of them is bound to the signature of its function, and holds
what the function has to run, whichever file it is in, and nothing if it has no body; what it holds
has the signature that it is bound to. In any other order of the files the same calls are kept,
bound to the same. -/
theorem load_unordered {d : Disk} {root : Path} {paths : List Path}
    (listed : d.scripts root = .ok paths) (h : Heap) :
    ((∃ out, load d root h = .ok out) ↔
        (∀ p ∈ paths, ∃ name script, d.HasScript p name script) ∧
          ∀ p ∈ paths, ∀ q ∈ paths, ∀ name script name' script' f,
            d.HasScript p name script → d.HasScript q name' script' →
            f ∈ script.names → f ∈ script'.names → p = q) ∧
      ∀ out, load d root h = .ok out → ∃ scripts,
        List.Forall₂ (fun p entry => d.HasScript p entry.1 entry.2) paths scripts ∧
          out.set.linkage.registry.Declares out.heap scripts ∧
          (∀ name script, (name, script) ∈ scripts → ∀ r h', r.Declares h' scripts →
            out.set.kept out.heap name = script.linked scripts r h') ∧
          (∀ name, ∀ entry ∈ out.set.kept out.heap name, ∀ call ∈ entry.2,
            ∃ o ∈ offers scripts, offered? scripts call.function = some o ∧
              call.signature = some o.signature ∧ call.callable = o.callable ∧
              ∀ g, o.callable = some g → g.1 = o.signature) ∧
          loadScripts root scripts h = .ok out ∧
          ∀ scripts', scripts'.Perm scripts → ∀ root' h',
            ∃ out', loadScripts root' scripts' h' = .ok out' ∧
              ∀ name, out'.set.kept out'.heap name = out.set.kept out.heap name := by
  refine ⟨load_isOk_iff listed h, ?_⟩
  intro out loads
  obtain ⟨paths', scripts, listed', read, loaded⟩ := load_eq_ok_iff_loadScripts.mp loads
  obtain rfl := Except.ok.inj (listed.symm.trans listed')
  have loadable := loadable_readAll listed read (loadScripts_isOk_iff.mp ⟨out, loaded⟩)
  refine ⟨scripts, ?_, (loadScripts_serves loadable loaded).declares, ?_, ?_, loaded, ?_⟩
  · exact (Disk.readAll_eq_ok_iff.mp read).imp fun _ _ => Disk.hasScript_iff.mpr
  · exact fun name script hs r h' declares => loadScripts_linked loadable loaded hs declares
  · intro name entry he call hc
    obtain ⟨o, ho, offered, signature, callable⟩ := loadScripts_offered loadable loaded he hc
    exact ⟨o, ho, offered, signature, callable, fun _ => signature_offer ho⟩
  · exact fun scripts' same => loadScripts_perm loadable loaded same

end ScriptSet

namespace Library

open ScriptSet

/-- The caller keeps its call and has what the function has to run when it comes before the
library. -/
theorem load_unordered_swapped :
    defined.disk.scripts ⟨"/r"⟩ = .ok [path, ⟨"/r/main.json"⟩] ∧
      ∃ out, loadScripts ⟨"/r"⟩ [("main.json", caller), ("lib.json", defined.script)]
        World.empty.heap = .ok out ∧
          out.set.kept out.heap "main.json" =
            [("go", [(call (some old)).kept World.empty.heap])] := by
  refine ⟨defined.scripts_disk, ?_⟩
  obtain ⟨out, loads, set, heap⟩ := defined.load_disk
  obtain ⟨-, loaded⟩ := load_unordered defined.scripts_disk World.empty.heap
  obtain ⟨scripts, files, -, -, -, -, reordered⟩ := loaded out loads
  have read := Disk.readAll_eq_ok_iff.mpr (files.imp fun _ _ => Disk.hasScript_iff.mp)
  obtain rfl := Except.ok.inj (defined.readAll_disk.symm.trans read)
  obtain ⟨out', loads', kept⟩ := reordered _ (.swap ..) ⟨"/r"⟩ World.empty.heap
  refine ⟨out', loads', (kept "main.json").trans ?_⟩
  rw [set, heap]
  rfl

end Library

end LiveCalls

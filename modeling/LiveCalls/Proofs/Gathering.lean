import LiveCalls.Proofs.Acceptance
import LiveCalls.Proofs.Listing
import LiveCalls.Proofs.Subscriptions
import Mathlib.Data.List.Forall2
import Mathlib.Data.List.Nodup
import Mathlib.Data.Option.Basic

namespace LiveCalls

namespace Manifest

/-- The functions of a script have different names, and none is that of a built-in function. -/
theorem compile_distinct {name : String} {m : Manifest} {s : Script Point}
    (h : m.compile name = .ok s) :
    s.names.Nodup ∧ ∀ f ∈ s.names, Builtin.isName f = false := by
  obtain ⟨distinct, functions, -⟩ := compile_isOk_iff.mp ⟨s, h⟩
  rw [(compile_eq_ok h).names]
  refine ⟨distinct, fun f hf => ?_⟩
  obtain ⟨g, hg, rfl⟩ := List.mem_map.mp hf
  exact (functions g hg).custom

end Manifest

/-- A script that a manifest was compiled to under a name. -/
def Script.CompiledAs (s : Script Point) (name : String) : Prop :=
  ∃ m : Manifest, m.compile name = .ok s

theorem Disk.script_eq_ok_iff {d : Disk} {name : String} {p : Path} {s : Script Point} :
    d.script name p = .ok s ↔ ∃ text m, d.text p = .ok text ∧ Manifest.parse? text = some m ∧
      m.compile name = .ok s := by
  simp only [script, manifest, bind_eq_ok_iff]
  constructor
  · rintro ⟨m, ⟨text, read, parsed⟩, compiled⟩
    split at parsed
    · rename_i found
      cases parsed
      split at compiled
      · rename_i script
        cases compiled
        exact ⟨text, m, read, found, script⟩
      · cases compiled
    · cases parsed
  · rintro ⟨text, m, read, parsed, compiled⟩
    refine ⟨m, ⟨text, read, ?_⟩, ?_⟩
    · rw [parsed]
    · rw [compiled]

/-- A file has the script that its text is the manifest of, under its own name. -/
def Disk.HasScript (d : Disk) (p : Path) (name : String) (script : Script Point) : Prop :=
  p.scriptName = .ok name ∧ ∃ text m, d.text p = .ok text ∧ Manifest.parse? text = some m ∧
    m.compile name = .ok script

theorem Disk.hasScript_iff {d : Disk} {p : Path} {name : String} {script : Script Point} :
    d.HasScript p name script ↔ p.scriptName = .ok name ∧ d.script name p = .ok script :=
  and_congr_right fun _ => script_eq_ok_iff.symm

theorem Disk.compiledAs {d : Disk} {name : String} {p : Path} {s : Script Point}
    (h : d.script name p = .ok s) : s.CompiledAs name := by
  obtain ⟨-, m, -, -, compiled⟩ := script_eq_ok_iff.mp h
  exact ⟨m, compiled⟩

theorem Disk.script_distinct {d : Disk} {name : String} {p : Path} {s : Script Point}
    (h : d.script name p = .ok s) : s.names.Nodup ∧ ∀ f ∈ s.names, Builtin.isName f = false := by
  obtain ⟨m, compiled⟩ := compiledAs h
  exact Manifest.compile_distinct compiled

/-- A file whose text is that of a manifest is read as the script that the manifest is. -/
theorem Disk.script_of_text {d : Disk} {p : Path} {place : List RawText} {text name : String}
    {m : Manifest} {s : Script Point} (found : d.find p = .ok (place, .file text.toUTF8))
    (parsed : Manifest.parse? text = some m) (compiled : m.compile name = .ok s) :
    d.script name p = .ok s := by
  have read : d.text p = .ok text := by
    rw [Disk.text, found]
    simp only [fromUTF8?_toUTF8]
  exact script_eq_ok_iff.mpr ⟨text, m, read, parsed, compiled⟩

def Disk.readAll (d : Disk) : List Path → Except LoadError (List (String × Script Point))
  | [] => .ok []
  | p :: ps => do
    let name ← p.scriptName
    let script ← d.script name p
    let rest ← d.readAll ps
    .ok ((name, script) :: rest)

theorem Disk.readAll_eq_ok_iff {d : Disk} {paths : List Path}
    {scripts : List (String × Script Point)} :
    d.readAll paths = .ok scripts ↔
      List.Forall₂ (fun p entry => p.scriptName = .ok entry.1 ∧ d.script entry.1 p = .ok entry.2)
        paths scripts := by
  induction paths generalizing scripts with
  | nil =>
    rw [readAll, List.forall₂_nil_left_iff, Except.ok.injEq]
    exact eq_comm
  | cons p ps ih =>
    rw [List.forall₂_cons_left_iff]
    simp only [readAll, bind_eq_ok_iff, ih]
    constructor
    · rintro ⟨name, named, script, read, rest, later, same⟩
      cases same
      exact ⟨(name, script), rest, ⟨named, read⟩, later, rfl⟩
    · rintro ⟨⟨name, script⟩, rest, ⟨named, read⟩, later, rfl⟩
      exact ⟨name, named, script, read, rest, later, rfl⟩

theorem Disk.mem_readAll {d : Disk} {paths : List Path} {scripts : List (String × Script Point)}
    (h : d.readAll paths = .ok scripts) {name : String} {script : Script Point} :
    (name, script) ∈ scripts ↔
      ∃ p ∈ paths, p.scriptName = .ok name ∧ d.script name p = .ok script := by
  have read := readAll_eq_ok_iff.mp h
  constructor
  · exact exists_mem_of_forall₂ read
  · rintro ⟨p, hp, named, script⟩
    obtain ⟨⟨name', script'⟩, hs, named', script''⟩ := exists_mem_of_forall₂ read.flip hp
    obtain rfl := Except.ok.inj (named.symm.trans named')
    obtain rfl := Except.ok.inj (script.symm.trans script'')
    exact hs

theorem Path.scriptName_eq_ok_iff {p : Path} {name : String} :
    p.scriptName = .ok name ↔ p.fileName? = some (.ofText name) := by
  unfold scriptName
  cases p.fileName? with
  | none => simp
  | some raw =>
    rw [Option.bind_some, Option.some.injEq, ← RawText.text?_eq_some_iff]
    cases raw.text? <;> simp

/-- A file whose name is not UTF-8 is a script file, and has no name that the script could go by. -/
example :
    let p : Path := ⟨⟨0xFF :: (".json" : RawText).bytes⟩⟩
    p.isScript ∧ p.scriptName = .error (.unnamed p) :=
  ⟨rfl, rfl⟩

theorem Disk.readAll_isOk_iff {d : Disk} {paths : List Path} :
    (∃ scripts, d.readAll paths = .ok scripts) ↔
      ∀ p ∈ paths, ∃ name script, p.scriptName = .ok name ∧ d.script name p = .ok script := by
  simp only [readAll_eq_ok_iff, exists_forall₂_iff, Prod.exists]

/-- Files of a folder that go by one name are the same. -/
theorem Disk.scripts_inj {d : Disk} {root : Path} {paths : List Path}
    (listed : d.scripts root = .ok paths) {p q : Path} (hp : p ∈ paths) (hq : q ∈ paths)
    (same : p.fileName? = q.fileName?) : p = q := by
  obtain ⟨names, files, nodup⟩ := nodup_scripts listed
  have distinct : (paths.map Path.fileName?).Nodup := by
    rw [files]
    exact nodup.map (Option.some_injective RawText)
  exact List.inj_on_of_nodup_map distinct hp hq same

theorem Disk.distinct_readAll {d : Disk} {root : Path} {paths : List Path}
    {scripts : List (String × Script Point)} (listed : d.scripts root = .ok paths)
    (h : d.readAll paths = .ok scripts) : (scripts.map Prod.fst).Nodup := by
  have files : paths.map Path.fileName? =
      ((scripts.map Prod.fst).map RawText.ofText).map some := by
    have read := readAll_eq_ok_iff.mp h
    clear h listed
    induction read with
    | nil => rfl
    | @cons p entry paths scripts first _ ih =>
      obtain ⟨named, -⟩ := first
      rw [List.map_cons, Path.scriptName_eq_ok_iff.mp named, ih]
      rfl
  obtain ⟨names, same, nodup⟩ := nodup_scripts listed
  rw [files] at same
  rw [← (List.map_inj_right fun _ _ => Option.some.inj).mp same] at nodup
  exact nodup.of_map

namespace ScriptSet

/-- Makes scripts the owners of their functions, one script after the other. -/
def claimAll (owners : Table String String) :
    List (String × Script Point) → Except LoadError (Table String String)
  | [] => .ok owners
  | (name, script) :: rest => do
    let owners ← gather.claim name owners script.names
    claimAll owners rest

theorem gather_cons {d : Disk} {owners owners' : Table String String} {p : Path} {paths : List Path}
    {scripts : List (String × Script Point)}
    (h : gather d owners (p :: paths) = .ok (scripts, owners')) :
    ∃ name script claimed rest, p.scriptName = .ok name ∧ d.script name p = .ok script ∧
      gather.claim name owners script.names = .ok claimed ∧
      gather d claimed paths = .ok (rest, owners') ∧ scripts = (name, script) :: rest := by
  unfold gather at h
  simp only [bind_eq_ok_iff] at h
  obtain ⟨name, named, script, read, claimed, claims, ⟨rest, owners''⟩, gathered, same⟩ := h
  cases same
  exact ⟨name, script, claimed, rest, named, read, claims, gathered, rfl⟩

theorem gather_eq_ok_iff {d : Disk} {owners owners' : Table String String} {paths : List Path}
    {scripts : List (String × Script Point)} :
    gather d owners paths = .ok (scripts, owners') ↔
      d.readAll paths = .ok scripts ∧ claimAll owners scripts = .ok owners' := by
  induction paths generalizing owners scripts with
  | nil =>
    simp only [gather, Disk.readAll, Except.ok.injEq, Prod.mk.injEq]
    constructor
    · rintro ⟨rfl, rfl⟩
      exact ⟨rfl, rfl⟩
    · rintro ⟨rfl, same⟩
      cases same
      exact ⟨rfl, rfl⟩
  | cons p ps ih =>
    simp only [Disk.readAll, bind_eq_ok_iff]
    constructor
    · intro h
      obtain ⟨name, script, claimed, rest, named, read, claims, gathered, rfl⟩ := gather_cons h
      obtain ⟨readRest, claimsRest⟩ := ih.mp gathered
      exact ⟨⟨name, named, script, read, rest, readRest, rfl⟩,
        bind_eq_ok_iff.mpr ⟨claimed, claims, claimsRest⟩⟩
    · rintro ⟨⟨name, named, script, read, rest, readRest, same⟩, claims⟩
      cases same
      obtain ⟨claimed, claims, claimsRest⟩ := bind_eq_ok_iff.mp claims
      have gathered := ih.mpr ⟨readRest, claimsRest⟩
      simp only [gather, bind_eq_ok_iff]
      exact ⟨name, named, script, read, claimed, claims, (rest, owners'), gathered, rfl⟩

theorem claim_eq_ok {script : String} {owners owners' : Table String String} {fs : List String}
    (h : gather.claim script owners fs = .ok owners') :
    (∀ f ∈ fs, owners.get? f = none) ∧
      ∀ f, owners'.get? f = if f ∈ fs then some script else owners.get? f := by
  induction fs generalizing owners with
  | nil =>
    cases h
    exact ⟨fun _ hf => (List.not_mem_nil hf).elim, fun _ => rfl⟩
  | cons g fs ih =>
    unfold gather.claim at h
    split at h
    · cases h
    · rename_i unowned
      obtain ⟨others, claimed⟩ := ih h
      constructor
      · refine List.forall_mem_cons.mpr ⟨unowned, ?_⟩
        intro f hf
        have free := others f hf
        rw [Table.get?_insert_ite] at free
        split at free
        · cases free
        · exact free
      · intro f
        rw [claimed, Table.get?_insert_ite]
        by_cases here : f = g <;> by_cases later : f ∈ fs <;> simp [here, later]

/-- What is gathered: every function is from one of the scripts, or had an owner before. -/
theorem owners_gather {d : Disk} {owners owners' : Table String String} {paths : List Path}
    {scripts : List (String × Script Point)} (h : gather d owners paths = .ok (scripts, owners')) :
    (∀ entry ∈ scripts, ∀ f ∈ entry.2.names, owners.get? f = none ∧ Builtin.isName f = false) ∧
      ∀ f name, owners'.get? f = some name ↔
        owners.get? f = some name ∨ ∃ script, (name, script) ∈ scripts ∧ f ∈ script.names := by
  induction paths generalizing owners scripts with
  | nil =>
    cases h
    exact ⟨fun _ he => (List.not_mem_nil he).elim, by simp⟩
  | cons p paths ih =>
    obtain ⟨name, script, claimed, rest, -, read, claims, gathered, rfl⟩ := gather_cons h
    obtain ⟨free, owner⟩ := claim_eq_ok claims
    obtain ⟨later, owned⟩ := ih gathered
    obtain ⟨-, custom⟩ := Disk.script_distinct read
    constructor
    · rw [List.forall_mem_cons]
      constructor
      · intro f hf
        exact ⟨free f hf, custom f hf⟩
      · intro entry he f hf
        obtain ⟨unclaimed, custom'⟩ := later entry he f hf
        rw [owner] at unclaimed
        split at unclaimed
        · cases unclaimed
        · exact ⟨unclaimed, custom'⟩
    · intro f name'
      rw [owned, owner]
      constructor
      · rintro (own | ⟨script', hs, hf⟩)
        · split at own
          · rename_i mine
            obtain rfl := Option.some.inj own
            exact .inr ⟨script, List.mem_cons_self, mine⟩
          · exact .inl own
        · exact .inr ⟨script', List.mem_cons_of_mem _ hs, hf⟩
      · rintro (own | ⟨script', hs, hf⟩)
        · left
          rw [if_neg fun mine => by rw [free f mine] at own; cases own]
          exact own
        · rcases List.mem_cons.mp hs with same | hs
          · cases same
            exact .inl (if_pos hf)
          · exact .inr ⟨script', hs, hf⟩

theorem claim_isOk_iff {script : String} {owners : Table String String} {fs : List String} :
    (∃ owners', gather.claim script owners fs = .ok owners') ↔
      fs.Nodup ∧ ∀ f ∈ fs, owners.get? f = none := by
  induction fs generalizing owners with
  | nil => simp [gather.claim]
  | cons f fs ih =>
    unfold gather.claim
    rw [List.nodup_cons, List.forall_mem_cons]
    cases ho : owners.get? f with
    | some owner => simp
    | none =>
      refine ih.trans ?_
      have rest : (∀ g ∈ fs, (owners.insert f script).get? g = none) ↔
          f ∉ fs ∧ ∀ g ∈ fs, owners.get? g = none := by
        constructor
        · intro free
          have first : f ∉ fs := by
            intro hf
            have none := free f hf
            rw [Table.get?_insert_self] at none
            cases none
          refine ⟨first, fun g hg => ?_⟩
          rw [← Table.get?_insert_of_ne owners script (ne_of_mem_of_not_mem hg first)]
          exact free g hg
        · rintro ⟨first, free⟩ g hg
          rw [Table.get?_insert_of_ne owners script (ne_of_mem_of_not_mem hg first)]
          exact free g hg
      rw [rest]
      simp only [true_and]
      exact ⟨fun ⟨distinct, first, free⟩ => ⟨⟨first, distinct⟩, free⟩,
        fun ⟨⟨first, distinct⟩, free⟩ => ⟨distinct, first, free⟩⟩

theorem claimAll_isOk_iff {owners : Table String String} {scripts : List (String × Script Point)} :
    (∃ owners', claimAll owners scripts = .ok owners') ↔
      (scripts.flatMap (·.2.names)).Nodup ∧
        ∀ f ∈ scripts.flatMap (·.2.names), owners.get? f = none := by
  induction scripts generalizing owners with
  | nil => simp [claimAll]
  | cons entry rest ih =>
    obtain ⟨name, script⟩ := entry
    simp only [claimAll, bind_eq_ok_iff, List.flatMap_cons, List.forall_mem_append,
      List.nodup_append]
    constructor
    · rintro ⟨owners', claimed, claims, claimsRest⟩
      obtain ⟨distinct, free⟩ := claim_isOk_iff.mp ⟨claimed, claims⟩
      obtain ⟨distinctRest, freeRest⟩ := ih.mp ⟨owners', claimsRest⟩
      obtain ⟨-, owner⟩ := claim_eq_ok claims
      have unclaimed : ∀ f ∈ rest.flatMap (·.2.names), f ∉ script.names ∧
          owners.get? f = none := by
        intro f hf
        have none := freeRest f hf
        rw [owner] at none
        split at none
        · cases none
        · rename_i other
          exact ⟨other, none⟩
      refine ⟨⟨distinct, distinctRest, ?_⟩, free, fun f hf => (unclaimed f hf).2⟩
      rintro f hf g hg rfl
      exact (unclaimed f hg).1 hf
    · rintro ⟨⟨distinct, distinctRest, apart⟩, free, freeRest⟩
      obtain ⟨claimed, claims⟩ := claim_isOk_iff.mpr ⟨distinct, free⟩
      obtain ⟨-, owner⟩ := claim_eq_ok claims
      have unclaimed : ∀ f ∈ rest.flatMap (·.2.names), claimed.get? f = none := by
        intro f hf
        rw [owner, if_neg fun own => apart f own f hf rfl]
        exact freeRest f hf
      obtain ⟨owners', claimsRest⟩ := ih.mpr ⟨distinctRest, unclaimed⟩
      exact ⟨owners', claimed, claims, claimsRest⟩

end ScriptSet

end LiveCalls

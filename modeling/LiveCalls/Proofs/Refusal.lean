import LiveCalls.Proofs.Acceptance
import LiveCalls.Proofs.Library
import LiveCalls.Proofs.InPlace

namespace LiveCalls

namespace ScriptSet

/-- What keeps a script from being reloaded. But for the name of the file it is about a file that is
there, since a script whose file is gone is unloaded. -/
inductive Refuses (s : ScriptSet) (d : Disk) (p : Path) : Prop where
  | unnamed (nameless : ∀ name : String, p.fileName? ≠ some (.ofText name)) : Refuses s d p
  | unreadable (there : d.exists? p) (unread : ∀ text, d.text p ≠ .ok text) : Refuses s d p
  | malformed {text : String} (there : d.exists? p) (read : d.text p = .ok text)
      (unparsed : Manifest.parse? text = none) : Refuses s d p
  | faulty {text : String} {m : Manifest} (there : d.exists? p) (read : d.text p = .ok text)
      (parsed : Manifest.parse? text = some m) (faulty : ¬ m.WellFormed) : Refuses s d p
  | foreign {text name owner : String} {m : Manifest} {f : Manifest.Function}
      {loaded : LoadedScript} (there : d.exists? p) (named : p.fileName? = some (.ofText name))
      (read : d.text p = .ok text) (parsed : Manifest.parse? text = some m)
      (declares : f ∈ m.functions) (other : owner ≠ name)
      (found : s.scripts.get? owner = some loaded) (owns : f.name ∈ loaded.functions) :
      Refuses s d p

section
variable {s : ScriptSet} (owned : s.Owned) {d : Disk} {p : Path} {heap : Heap}
include owned

theorem refuses_of_error {e : LoadError} (h : s.reload d p heap = .error e) : s.Refuses d p := by
  by_cases textual : ∃ name : String, p.fileName? = some (.ofText name)
  · obtain ⟨name, hn⟩ := textual
    have named := Path.scriptName_eq_ok_iff.mpr hn
    have accepted {out : Reloaded} (ok : s.reload d p heap = .ok out) : s.Refuses d p := by
      rw [h] at ok
      cases ok
    cases there : d.exists? p with
    | false => exact accepted (reload_eq_ok_iff.mpr ⟨name, named, .inl ⟨there, rfl⟩⟩)
    | true =>
      cases read : d.text p with
      | error e => exact .unreadable there fun text => by rw [read]; nofun
      | ok text =>
        cases parsed : Manifest.parse? text with
        | none => exact .malformed there read parsed
        | some m =>
          by_cases sound : m.WellFormed
          · obtain ⟨script, compiled⟩ : ∃ script, m.compile name = .ok script :=
              Manifest.compile_isOk_iff.mpr sound
            have has := Disk.script_eq_ok_iff.mpr ⟨text, m, read, parsed, compiled⟩
            cases hf : foreign? s.owners name script.names with
            | none =>
              exact accepted (reload_eq_ok_iff.mpr
                ⟨name, named, .inr ⟨there, script, has, hf, rfl⟩⟩)
            | some foreign =>
              have own : ¬ ∀ f ∈ script.names, ∀ owner, s.owners.get? f = some owner →
                  owner = name := by
                rw [← foreign?_eq_none, hf]
                nofun
              push Not at own
              obtain ⟨f, hf, owner, owns, other⟩ := own
              rw [(Manifest.compile_eq_ok compiled).names] at hf
              obtain ⟨g, hg, rfl⟩ := List.mem_map.mp hf
              obtain ⟨loaded, found, mem⟩ := (owned.owner g.name owner).mp owns
              exact .foreign there hn read parsed hg other found mem
          · exact .faulty there read parsed sound
  · exact .unnamed (not_exists.mp textual)

theorem error_of_refuses (h : s.Refuses d p) : ∃ e, s.reload d p heap = .error e := by
  cases hr : s.reload d p heap with
  | error e => exact ⟨e, rfl⟩
  | ok out =>
    exfalso
    obtain ⟨name, named, done⟩ := reload_eq_ok_iff.mp hr
    have usable (there : d.exists? p) : ∃ text m, d.text p = .ok text ∧
        Manifest.parse? text = some m ∧ m.WellFormed ∧
          foreign? s.owners name (m.functions.map (·.name)) = none := by
      rcases done with ⟨gone, -⟩ | ⟨-, script, has, own, -⟩
      · rw [gone] at there
        cases there
      · obtain ⟨text, m, read, parsed, compiled⟩ := Disk.script_eq_ok_iff.mp has
        rw [(Manifest.compile_eq_ok compiled).names] at own
        exact ⟨text, m, read, parsed, Manifest.compile_isOk_iff.mp ⟨script, compiled⟩, own⟩
    cases h with
    | unnamed nameless => exact nameless name (Path.scriptName_eq_ok_iff.mp named)
    | unreadable there unread =>
      obtain ⟨text, m, read, -⟩ := usable there
      exact unread text read
    | malformed there read unparsed =>
      obtain ⟨text, m, read', parsed, -⟩ := usable there
      obtain rfl := Except.ok.inj (read.symm.trans read')
      rw [unparsed] at parsed
      cases parsed
    | faulty there read parsed faulty =>
      obtain ⟨text, m, read', parsed', sound, -⟩ := usable there
      obtain rfl := Except.ok.inj (read.symm.trans read')
      obtain rfl := Option.some.inj (parsed.symm.trans parsed')
      exact faulty sound
    | foreign there named' read parsed declares other found owns =>
      obtain ⟨text, m, read', parsed', -, own⟩ := usable there
      obtain rfl := Except.ok.inj (read.symm.trans read')
      obtain rfl := Option.some.inj (parsed.symm.trans parsed')
      have same := named'.symm.trans (Path.scriptName_eq_ok_iff.mp named)
      obtain rfl := RawText.ofText_inj.mp (Option.some.inj same)
      refine other (foreign?_eq_none.mp own _ (List.mem_map_of_mem declares) _ ?_)
      exact (owned.owner _ _).mpr ⟨_, found, owns⟩

theorem reload_isError_iff : (∃ e, s.reload d p heap = .error e) ↔ s.Refuses d p :=
  ⟨fun ⟨_, h⟩ => refuses_of_error owned h, error_of_refuses owned⟩

end

end ScriptSet

namespace Host

inductive Request where
  | reload (d : Disk) (p : Path)
  | unload (name : String)
  | fire (event : String) (ctx : Context)

inductive Answer where
  | updated (outcome : Except LoadError Revalidation)
  | fired (calls : List Fired)

def answer (h : Host) : Request → Answer × Host
  | .reload d p =>
    let (outcome, h) := (reloading d p).run.run h
    (.updated outcome, h)
  | .unload name =>
    let (outcome, h) := (unloading name).run h
    (.updated (.ok outcome), h)
  | .fire event ctx =>
    let (fired, set, world) := h.set.fire event ctx h.world
    (.fired fired, ⟨set, world, h.log ++ fired.flatMap (·.diagnostics)⟩)

/-- The answers to requests, one after the other, and what becomes of the host. -/
def answers (h : Host) : List Request → List Answer × Host
  | [] => ([], h)
  | r :: rs =>
    let (first, h) := h.answer r
    let (rest, h) := answers h rs
    (first :: rest, h)

/-- A reload that fails leaves the functions with their callers, the scripts, the calls and what
they are bound to, the world and the log as they were. Whatever is asked for later is answered as if
there had been no such reload. The reload fails if the path has no file name or one that is no
text, and if there is a file that cannot be read, is no manifest or not a well-formed one, or has a
function of another script that is loaded, wherever it stands in the file. It does not fail
otherwise. -/
theorem reload_refused {s : ScriptSet} {w : World} (reachable : s.Reachable w)
    (log : List Diagnostic) (d : Disk) (p : Path) :
    (∀ e after, (reloading d p).run.run ⟨s, w, log⟩ = (.error e, after) →
        after = ⟨s, w, log⟩ ∧ ∀ later, answers ⟨s, w, log⟩ (.reload d p :: later) =
          (.updated (.error e) :: (answers ⟨s, w, log⟩ later).1,
            (answers ⟨s, w, log⟩ later).2)) ∧
      ((∃ e after, (reloading d p).run.run ⟨s, w, log⟩ = (.error e, after)) ↔ s.Refuses d p) := by
  have runs := run_reloading ⟨s, w, log⟩ d p
  have sound := ScriptSet.reachable_sound reachable
  have fails : (∃ e, s.reload d p w.heap = .error e) ↔ s.Refuses d p :=
    ScriptSet.reload_isError_iff sound.owned
  rw [← fails]
  cases hr : s.reload d p w.heap with
  | error e =>
    simp only [hr] at runs
    constructor
    · intro e' after failed
      obtain ⟨same, rfl⟩ := Prod.mk.inj (failed.symm.trans runs)
      cases same
      refine ⟨rfl, fun later => ?_⟩
      rw [answers, answer, runs]
      rfl
    · exact iff_of_true ⟨e, _, runs⟩ ⟨e, rfl⟩
  | ok out =>
    simp only [hr] at runs
    constructor
    · intro e after failed
      cases failed.symm.trans runs
    · refine iff_of_false ?_ nofun
      rintro ⟨e, after, failed⟩
      cases failed.symm.trans runs

end Host

namespace Library

open ScriptSet

/-- The folder after the function of the library was written into the file of its caller, too. -/
def taken : Disk :=
  ⟨Table.ofList [("/r", .folder), ("/r/lib.json", .file defined.text.toUTF8),
    ("/r/main.json", .file defined.text.toUTF8)]⟩

/-- The caller cannot take over the function of the library. -/
theorem reload_refused_taken :
    Reachable defined.loaded .empty ∧
      ∃ e, (Host.reloading taken ⟨"/r/main.json"⟩).run.run ⟨defined.loaded, .empty, []⟩ =
        (.error e, ⟨defined.loaded, .empty, []⟩) := by
  have there : taken.exists? ⟨"/r/main.json"⟩ := by rfl
  have found : taken.find ⟨"/r/main.json"⟩ =
      .ok (["main.json", "r"], .file defined.text.toUTF8) := by rfl
  have read : taken.text ⟨"/r/main.json"⟩ = .ok defined.text := by
    rw [Disk.text, found]
    simp only [fromUTF8?_toUTF8]
  have parsed : Manifest.parse? defined.text =
      some ⟨[⟨"f", [⟨"x", "str", false, none⟩], some ⟨"str", false⟩, some (.one (.str "old"))⟩],
        []⟩ := by
    cbv
  have library : defined.loaded.scripts.get? "lib.json" = some ⟨["f"], []⟩ := by rfl
  have named : (Path.mk "/r/main.json").fileName? = some (.ofText "main.json") := by rfl
  have refuses : defined.loaded.Refuses taken ⟨"/r/main.json"⟩ :=
    .foreign there named read parsed (List.mem_singleton_self _) (by decide) library
      (List.mem_singleton_self _)
  obtain ⟨unchanged, fails⟩ :=
    Host.reload_refused defined.reachable_loaded [] taken ⟨"/r/main.json"⟩
  obtain ⟨e, after, failed⟩ := fails.mpr refuses
  obtain ⟨rfl, -⟩ := unchanged e after failed
  exact ⟨defined.reachable_loaded, e, failed⟩

end Library

end LiveCalls

import LiveCalls.CommandLine.Report
import LiveCalls.Proofs.Callers
import LiveCalls.Proofs.Contents
import LiveCalls.Proofs.InPlace
import Mathlib.Algebra.GroupWithZero.Nat

namespace LiveCalls

namespace WrittenCall

/-- Why a first validation rejects a call, if it does. -/
def rejection? (r : Registry) (c : WrittenCall) : Option Rejection :=
  match c.unbound.judge .first r with
  | .ok _ => none
  | .error x => some x

variable {r : Registry} {h : Heap} {c : WrittenCall}

theorem isSome_kept? : (c.kept? r h).isSome = (c.rejection? r).isNone := by
  rw [kept?, bound?_eq, rejection?]
  cases c.unbound.judge .first r <;> rfl

/-- A call that is not rejected leaves nothing in the sink, and neither do the logs of its
arguments. One that is rejected is reported once, and once more out of the log of an argument that
cannot be converted. -/
theorem length_reports_rejection? : (c.reports r).length =
    ((c.rejection? r).map fun x => 1 + if x.isMisfit then 1 else 0).getD 0 := by
  rw [reports_eq, rejection?]
  cases judged : c.unbound.judge .first r with
  | ok a => rfl
  | error x =>
    rw [Option.map_some, Option.getD_some, List.length_append]
    rcases CallSite.explained_of_rejected judged with
      ⟨other, silent⟩ | ⟨i, e, t, reason, rfl, -, -, why⟩
    · rw [silent, other]
      rfl
    · rw [why]
      rfl

section
variable (r : Registry) (h : Heap) (cs : List WrittenCall)

theorem length_kept_rejected :
    (cs.filterMap (kept? r h)).length +
      (cs.filterMap (rejection? r)).length = cs.length := by
  induction cs with
  | nil => rfl
  | cons c cs ih =>
    have one : (c.kept? r h).isSome = (c.rejection? r).isNone := isSome_kept?
    cases hx : c.rejection? r with
    | none =>
      rw [hx] at one
      obtain ⟨kept, hk⟩ := Option.isSome_iff_exists.mp one
      rw [List.filterMap_cons_some hk, List.filterMap_cons_none hx, List.length_cons,
        List.length_cons, ← ih]
      omega
    | some x =>
      rw [hx] at one
      have dropped : c.kept? r h = none := by simpa using one
      rw [List.filterMap_cons_none dropped, List.filterMap_cons_some hx, List.length_cons,
        List.length_cons, ← ih]
      omega

/-- What is reported of calls: once for each that is rejected, and once more where an argument
cannot be converted. -/
theorem length_reports :
    (cs.flatMap (·.reports r)).length = (cs.filterMap (rejection? r)).length +
      (cs.filterMap (rejection? r)).countP (·.isMisfit) := by
  induction cs with
  | nil => rfl
  | cons c cs ih =>
    rw [List.flatMap_cons, List.length_append, ih, length_reports_rejection?]
    cases hx : c.rejection? r with
    | none =>
      rw [List.filterMap_cons_none hx]
      simp
    | some x =>
      rw [List.filterMap_cons_some hx, List.length_cons, List.countP_cons]
      rw [Option.map_some, Option.getD_some]
      omega

end

end WrittenCall

def Script.calls {α : Type} (s : Script α) : List WrittenCall := s.triggers.flatMap (·.calls)

theorem Script.reports_eq {α : Type} (r : Registry) (s : Script α) :
    s.reports r = s.calls.flatMap (·.reports r) := by
  rw [calls, List.flatMap_assoc]
  rfl

theorem Script.kept_calls {α : Type} (r : Registry) (h : Heap) (s : Script α) :
    (s.kept r h).flatMap (·.2) = s.calls.filterMap (WrittenCall.kept? r h) := by
  rw [kept, calls, List.flatMap_map, List.filterMap_flatMap]

namespace ScriptSet

def written (scripts : List (String × Script Point)) : List WrittenCall :=
  scripts.flatMap (·.2.calls)

/-- What calls in scripts are rejected for, in order. -/
def rejections (r : Registry) (scripts : List (String × Script Point)) : List Rejection :=
  (written scripts).filterMap (WrittenCall.rejection? r)

theorem length_calls (s : ScriptSet) (h : Heap) (name : String) :
    (s.calls name).length = ((s.kept h name).flatMap (·.2)).length := by
  have flat (ts : List LoadedTrigger) :
      ((ts.flatMap (·.calls)).filterMap s.linkage.sites.live.get?).length =
        ((ts.map fun t => (t.event, (t.calls.filterMap s.linkage.sites.live.get?).map
          (CallSite.kept h))).flatMap (·.2)).length := by
    rw [List.filterMap_flatMap, List.flatMap_map, List.length_flatMap, List.length_flatMap]
    simp only [List.length_map]
  unfold calls kept version
  cases s.scripts.get? name with
  | none => rfl
  | some loaded => exact flat loaded.triggers

section
variable {root : Path} {scripts : List (String × Script Point)} {h : Heap} {out : Loaded}
  (loadable : Loadable scripts) (loaded : loadScripts root scripts h = .ok out)
include loadable loaded

theorem names_loadScripts : out.set.names.Perm (scripts.map Prod.fst) := by
  apply (List.perm_ext_iff_of_nodup out.set.scripts.nodup_keys loadable.names).mpr
  intro name
  rw [Table.mem_keys_iff]
  constructor
  · intro there
    by_contra other
    obtain ⟨v, found⟩ := Option.isSome_iff_exists.mp there
    rw [loadScripts_other loaded other] at found
    cases found
  · intro hn
    obtain ⟨⟨_, script⟩, hs, rfl⟩ := List.mem_map.mp hn
    obtain ⟨kept, -⟩ := loadScripts_kept loadable loaded
    obtain ⟨v, found, -⟩ := Option.map_eq_some_iff.mp (kept _ script hs).1
    exact Table.contains_of_get? found

theorem length_keptCalls_loadScripts :
    out.set.keptCalls.length = ((written scripts).filterMap
      (WrittenCall.kept? out.set.linkage.registry out.heap)).length := by
  obtain ⟨kept, -⟩ := loadScripts_kept loadable loaded
  have same := (names_loadScripts loadable loaded).flatMap_right out.set.calls
  rw [keptCalls, same.length_eq, written, List.filterMap_flatMap, List.flatMap_map,
    List.length_flatMap, List.length_flatMap]
  congr 1
  apply List.map_congr_left
  rintro ⟨name, script⟩ hs
  rw [length_calls _ out.heap, (kept name script hs).2, Script.kept_calls]

/-- The log has a line for every call that is rejected, and another one where an argument cannot be
converted. -/
theorem length_log :
    out.diagnostics.length = (rejections out.set.linkage.registry scripts).length +
      (rejections out.set.linkage.registry scripts).countP (·.isMisfit) := by
  obtain ⟨-, reports⟩ := loadScripts_kept loadable loaded
  rw [reports, List.flatMap_congr fun entry _ => entry.2.reports_eq _, ← List.flatMap_assoc]
  exact WrittenCall.length_reports _ _

end

end ScriptSet

/-- How many calls are written in a manifest. -/
def Manifest.callCount (m : Manifest) : Nat := (m.triggers.flatMap (·.calls)).length

/-- How many calls are written in the manifests of files. -/
def Disk.callCount (d : Disk) (paths : List Path) : Nat :=
  (paths.map fun p =>
    match d.manifest p with
    | .ok m => m.callCount
    | .error _ => 0).sum

theorem Manifest.length_calls {name : String} {m : Manifest} {s : Script Point}
    (h : m.compile name = .ok s) : s.calls.length = m.callCount := by
  have length := (compile_eq_ok h).calls.length_eq
  rw [List.length_zipIdx] at length
  exact length.symm

theorem Disk.callCount_readAll {d : Disk} {paths : List Path}
    {scripts : List (String × Script Point)} (read : d.readAll paths = .ok scripts) :
    (ScriptSet.written scripts).length = d.callCount paths := by
  have each := readAll_eq_ok_iff.mp read
  clear read
  induction each with
  | nil => rfl
  | @cons p entry paths scripts first _ ih =>
    obtain ⟨text, m, read, parsed, compiled⟩ := script_eq_ok_iff.mp first.2
    have manifest : d.manifest p = .ok m := by
      simp only [Disk.manifest, read, ok_bind, parsed]
    rw [ScriptSet.written, List.flatMap_cons, List.length_append, Manifest.length_calls compiled]
    rw [callCount, List.map_cons, manifest, List.sum_cons, ← callCount, ← ih]
    rfl

namespace ScriptSet

/-- The calls that are kept and those that are rejected are all that are written. -/
theorem callCount_load {d : Disk} {root : Path} {heap : Heap} {out : Loaded}
    (h : load d root heap = .ok out) : ∃ paths scripts, d.scripts root = .ok paths ∧
      d.readAll paths = .ok scripts ∧ (∀ name script, (name, script) ∈ scripts →
        out.set.kept out.heap name = script.kept out.set.linkage.registry out.heap) ∧
      out.set.callCount + (rejections out.set.linkage.registry scripts).length =
        d.callCount paths ∧
      out.diagnostics.length = (rejections out.set.linkage.registry scripts).length +
        (rejections out.set.linkage.registry scripts).countP (·.isMisfit) := by
  obtain ⟨paths, scripts, listed, read, loaded⟩ := load_eq_ok_iff_loadScripts.mp h
  have loadable := loadable_readAll listed read (loadScripts_isOk_iff.mp ⟨out, loaded⟩)
  obtain ⟨kept, -⟩ := loadScripts_kept loadable loaded
  refine ⟨paths, scripts, listed, read, fun name script hs => (kept name script hs).2, ?_,
    length_log loadable loaded⟩
  have held := holding_load h
  rw [← length_keptCalls held, length_keptCalls_loadScripts loadable loaded,
    ← Disk.callCount_readAll read]
  exact WrittenCall.length_kept_rejected _ _ _

end ScriptSet

namespace CommandLine

/-- A folder is loaded with nothing in the log at first. Where that fails nothing was reported, and
the check says why. Else the calls that are kept are those that a first validation accepts, and
together with those that are rejected they are all that are written in the manifests. The check
succeeds if none was rejected. Otherwise it fails with as many problems as calls were rejected, and
one more for each that was rejected for an argument that cannot be converted. -/
theorem check_exact (cause : LoadError → String) (d : Disk) (root : Path) :
    let start := line .info "checking scripts" [("root", root.text)]
    match (Host.loading d root).run.run ⟨.empty root, .empty, []⟩ with
    | (.error e, after) => after.log = [] ∧ check cause d root = ⟨1, [start, loadFailure cause e]⟩
    | (.ok (), after) => ∃ paths scripts, d.scripts root = .ok paths ∧
        d.readAll paths = .ok scripts ∧
        let set := after.set
        let reasons := ScriptSet.rejections set.linkage.registry scripts
        let loaded := loadedLines ⟨set, after.world.heap, after.log⟩
        (∀ name script, (name, script) ∈ scripts → set.kept after.world.heap name =
          script.kept set.linkage.registry after.world.heap) ∧
        set.callCount + reasons.length = d.callCount paths ∧
        check cause d root =
          if set.callCount = d.callCount paths then
            ⟨0, start :: loaded ++ [line .info "all calls are valid" (counts set)]⟩
          else ⟨1, start :: loaded ++ [failureLine
            (toString (reasons.length + reasons.countP (·.isMisfit)) ++ " problem(s) found")]⟩ := by
  intro start
  have runs := Host.run_loading d root .empty []
  have heap : World.empty.heap = .empty := rfl
  rw [heap] at runs
  cases hl : ScriptSet.load d root .empty with
  | error e =>
    rw [hl] at runs
    obtain ⟨owners, runs⟩ := runs
    rw [runs]
    exact ⟨rfl, by simp only [check, hl]; rfl⟩
  | ok out =>
    simp only [hl] at runs
    rw [runs]
    obtain ⟨paths, scripts, listed, read, kept, all, log⟩ := ScriptSet.callCount_load hl
    refine ⟨paths, scripts, listed, read, kept, all, ?_⟩
    let reasons := ScriptSet.rejections out.set.linkage.registry scripts
    have log : out.diagnostics.length = reasons.length + reasons.countP (·.isMisfit) := log
    have all : out.set.callCount + reasons.length = d.callCount paths := all
    have few : reasons.countP (·.isMisfit) ≤ reasons.length := List.countP_le_length
    have silent : reasons.length + reasons.countP (·.isMisfit) = 0 ↔
        out.set.callCount = d.callCount paths := by omega
    simp only [check, hl, log, silent, List.nil_append]
    rfl

/-- The one call of the folder is rejected, for an argument that cannot be converted. -/
theorem check_exact_changed : ∃ lines, check (fun _ => "") Library.changed.disk ⟨"/r"⟩ =
    ⟨1, lines ++ [failureLine "2 problem(s) found"]⟩ := by
  -- With the path at hand the load would be evaluated, instead of what is known of it used.
  obtain ⟨root, at_root⟩ : ∃ root : Path, root = ⟨"/r"⟩ := ⟨_, rfl⟩
  have exact := check_exact (fun _ => "") Library.changed.disk root
  have runs := Host.run_loading Library.changed.disk root .empty []
  obtain ⟨⟨_, heap, log⟩, loads, rfl, -⟩ := Library.changed.load_disk
  have scripts_disk := Library.changed.scripts_disk
  rw [← at_root] at loads scripts_disk ⊢
  rw [loads] at runs
  simp only at runs
  rw [runs] at exact
  obtain ⟨paths, scripts, listed, read, -, -, verdict⟩ := exact
  obtain rfl := Except.ok.inj (scripts_disk.symm.trans listed)
  obtain rfl := Except.ok.inj (Library.changed.readAll_disk.symm.trans read)
  have written : Library.changed.disk.callCount [Library.path, ⟨"/r/main.json"⟩] = 1 :=
    (Disk.callCount_readAll read).symm
  have kept : Library.changed.loaded.callCount ≠ 1 := Nat.zero_ne_one
  let reasons := ScriptSet.rejections Library.changed.loaded.linkage.registry
    Library.changed.contents
  have problems : reasons.length + reasons.countP (·.isMisfit) = 2 := rfl
  rw [written, if_neg kept, problems] at verdict
  exact ⟨_, verdict⟩

end CommandLine

end LiveCalls

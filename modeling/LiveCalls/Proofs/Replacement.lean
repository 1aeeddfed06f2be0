import LiveCalls.Proofs.Kept
import LiveCalls.Proofs.News

/-!
# Replacing a script

The stages of a replacement: the calls of the old version are forgotten, its functions that are gone
are removed and the new ones installed, the new calls are bound, and the news is passed on. To
unload a script is to replace it by one with nothing in it.
-/

namespace LiveCalls

namespace ScriptSet

/-- What is loaded of a script, nothing if it is not loaded. -/
def version (s : ScriptSet) (name : String) : LoadedScript := (s.scripts.get? name).getD ⟨[], []⟩

theorem mem_calls_version {s : ScriptSet} {name : String} {id : CallId} :
    id ∈ (s.version name).calls ↔
      ∃ loaded, s.scripts.get? name = some loaded ∧ id ∈ loaded.calls := by
  unfold version
  cases s.scripts.get? name with
  | none => simp [LoadedScript.calls]
  | some loaded => simp

theorem mem_functions_version {s : ScriptSet} {name f : String} :
    f ∈ (s.version name).functions ↔
      ∃ loaded, s.scripts.get? name = some loaded ∧ f ∈ loaded.functions := by
  unfold version
  cases s.scripts.get? name with
  | none => simp
  | some loaded => simp

/-- The linkage without the calls of a script. -/
def cleared (s : ScriptSet) (name : String) : Linkage :=
  s.linkage.forgetAll (s.version name).calls

/-- The functions of a script that its new version does not have. -/
def gone (s : ScriptSet) (name : String) (script : Script Ref) : List String :=
  (s.version name).functions.filter (· ∉ script.names)

/-- The registry with the functions of the new version, and the news of it. -/
def installed (s : ScriptSet) (name : String) (script : Script Ref) : Change :=
  script.functions.foldl Change.install
    ((s.gone name script).foldl Change.remove ⟨(s.cleared name).registry, .empty⟩)

def rebuilt (s : ScriptSet) (name : String) (script : Script Ref) : Bound (List LoadedTrigger) :=
  Linkage.bindTriggers ⟨(s.installed name script).registry, (s.cleared name).sites⟩ script.triggers

/-- What came of telling the callers. -/
def told (s : ScriptSet) (name : String) (script : Script Ref) : Linkage.Notified :=
  passOn (s.rebuilt name script).linkage (s.installed name script).news.values

def reowned (s : ScriptSet) (name : String) (script : Script Ref) : Table String String :=
  script.names.foldl (·.insert · name) (disown s.owners (s.gone name script))

theorem replace_eq (s : ScriptSet) (name : String) (script : Script Ref) :
    s.replace name script =
      (⟨s.root, (s.told name script).linkage,
        s.scripts.insert name ⟨script.names, (s.rebuilt name script).kept⟩,
        s.reowned name script⟩,
      { s.told name script with
        diagnostics := (s.rebuilt name script).diagnostics ++ (s.told name script).diagnostics }) :=
  rfl

/-- A script with nothing in it. -/
def vacant : Script Ref := ⟨[], []⟩

theorem gone_vacant (s : ScriptSet) (name : String) :
    s.gone name vacant = (s.version name).functions := by
  unfold gone
  rw [List.filter_eq_self]
  intro f _
  rfl

/-- To unload a script is to replace it by one with nothing in it. -/
theorem unload_eq (s : ScriptSet) (name : String) (h : Heap) :
    s.unload name h =
      ⟨⟨s.root, (s.told name vacant).linkage, s.scripts.erase name, s.reowned name vacant⟩, h,
        (s.told name vacant).outcome, (s.told name vacant).diagnostics⟩ := by
  unfold told rebuilt installed reowned
  rw [gone_vacant]
  unfold unload
  cases hs : s.scripts.get? name with
  | none =>
    have same : s.scripts.erase name = s.scripts := by
      apply Table.ext
      intro k
      rw [Table.get?_erase_ite]
      split
      · rename_i here
        rw [here, hs]
      · rfl
    rw [same, cleared, version, hs]
    rfl
  | some old =>
    rw [cleared, version, hs]
    rfl

theorem subscriptions_installed (s : ScriptSet) (name : String) (script : Script Ref) :
    (s.installed name script).registry.subscriptions =
      (s.cleared name).registry.subscriptions := by
  have removing (fs : List String) (c : Change) :
      (fs.foldl Change.remove c).registry.subscriptions = c.registry.subscriptions := by
    induction fs generalizing c with
    | nil => rfl
    | cons f fs ih => exact (ih _).trans (c.subscriptions_remove f)
  have installing (fs : List (ScriptFunction Ref)) (c : Change) :
      (fs.foldl Change.install c).registry.subscriptions = c.registry.subscriptions := by
    induction fs generalizing c with
    | nil => rfl
    | cons f fs ih => exact (ih _).trans (c.subscriptions_install f)
  exact (installing _ _).trans (removing _ _)

section
variable {s : ScriptSet} (h : Holding s.linkage s.scripts) (name : String) (script : Script Ref)
include h

theorem holding_installed :
    Holding ⟨(s.installed name script).registry, (s.cleared name).sites⟩ (s.scripts.erase name) :=
  (h.erase name).withRegistry (s.subscriptions_installed name script)

theorem rebuilt_binds :
    Linkage.Binds ⟨(s.installed name script).registry, (s.cleared name).sites⟩
      (s.rebuilt name script).linkage
      (⟨script.names, (s.rebuilt name script).kept⟩ : LoadedScript).calls :=
  Linkage.bindTriggers_binds (holding_installed h name script).coherent script.triggers

theorem holding_rebuilt :
    Holding (s.rebuilt name script).linkage
      (s.scripts.insert name ⟨script.names, (s.rebuilt name script).kept⟩) := by
  rw [← Table.insert_erase]
  exact (holding_installed h name script).insert (Table.get?_erase_self ..)
    (rebuilt_binds h name script)

theorem holding_replace :
    Holding (s.replace name script).1.linkage (s.replace name script).1.scripts := by
  have rebuilt := holding_rebuilt h name script
  exact rebuilt.transfer (rebuilt.coherent.passOn _) (Linkage.contains_passOn rebuilt.coherent _)

theorem holding_unload (heap : Heap) :
    Holding (s.unload name heap).set.linkage (s.unload name heap).set.scripts := by
  have installed := holding_installed h name vacant
  rw [unload_eq]
  exact installed.transfer (installed.coherent.passOn _)
    (Linkage.contains_passOn installed.coherent _)

theorem holding_fire (event : String) (ctx : Context) (w : World) :
    Holding (s.fire event ctx w).2.1.linkage (s.fire event ctx w).2.1.scripts :=
  h.transfer (h.coherent.makeCalls ctx w _) (Linkage.contains_makeCalls h.coherent ctx w _)

end

/-- What a reload does if it succeeds: it unloads a script whose file is gone, and puts the content
of the file in its place else. -/
theorem reload_eq_ok_iff {s : ScriptSet} {d : Disk} {p : Path} {heap : Heap} {out : Reloaded} :
    s.reload d p heap = .ok out ↔
      ∃ name, p.scriptName = .ok name ∧
        (d.exists? p = false ∧ out = s.unload name heap ∨
          d.exists? p = true ∧ ∃ script, d.script name p = .ok script ∧
            foreign? s.owners name script.names = none ∧
            out = ⟨(s.replace name (script.place heap).1).1, (script.place heap).2,
              (s.replace name (script.place heap).1).2.outcome,
              (s.replace name (script.place heap).1).2.diagnostics⟩) := by
  unfold reload
  simp only [bind_eq_ok_iff]
  refine exists_congr fun name => and_congr_right fun _ => ?_
  cases d.exists? p with
  | false => simp [eq_comm]
  | true =>
    simp only [Bool.not_true, Bool.false_eq_true, if_false, bind_eq_ok_iff, Bool.true_eq_false,
      false_and, false_or, true_and]
    refine exists_congr fun script => and_congr_right fun _ => ?_
    cases foreign? s.owners name script.names with
    | some foreign => simp
    | none => simp [eq_comm]

end ScriptSet

end LiveCalls

import LiveCalls.Proofs.CallerOrder
import LiveCalls.Proofs.Callers
import Mathlib.Data.List.Perm.Basic

namespace LiveCalls

namespace CallSite

/-- A first validation reports at the place of its call. -/
theorem site_of_first {r : Registry} {c : CallSite} {d : Diagnostic}
    (h : d ∈ (c.validate .first r).diagnostics) : d.site = c.site := by
  rcases validate_cases .first r c with ⟨a, -, verdict⟩ | ⟨rejection, judged, verdict⟩
  · rw [verdict] at h
    cases h
  · rw [verdict] at h
    rcases List.mem_append.mp h with why | stated
    · rcases explained_of_rejected judged with ⟨-, silent⟩ | ⟨i, e, t, reason, -, -, -, one⟩
      · rw [silent] at why
        cases why
      · rw [one] at why
        rw [List.mem_singleton.mp why]
    · rw [List.mem_singleton.mp stated]
      rfl

/-- A later validation reports a site that it rejects, once and at no place. -/
theorem reported_again (r : Registry) (c : CallSite) :
    (c.validate .again r).diagnostics.length = (if (c.validate .again r).accepted then 0 else 1) ∧
      ∀ d ∈ (c.validate .again r).diagnostics, d.site = none := by
  rcases validate_cases .again r c with ⟨a, -, verdict⟩ | ⟨rejection, -, verdict⟩
  · rw [verdict]
    exact ⟨rfl, fun d hd => (List.not_mem_nil hd).elim⟩
  · rw [verdict, explained_again]
    exact ⟨rfl, fun d hd => by rw [List.mem_singleton.mp hd]; rfl⟩

end CallSite

namespace Linkage

theorem located_bindCalls {l : Linkage} {calls : List WrittenCall} :
    ∀ d ∈ (l.bindCalls calls).diagnostics, d.site ≠ none := by
  induction calls generalizing l with
  | nil => exact fun d hd => (List.not_mem_nil hd).elim
  | cons call rest ih =>
    intro d hd
    rcases List.mem_append.mp hd with first | later
    · rw [CallSite.site_of_first first]
      exact Option.some_ne_none call.site
    · exact ih d later

/-- What is reported on calls that are bound is reported at their places. -/
theorem located_bindTriggers {l : Linkage} {triggers : List Trigger} :
    ∀ d ∈ (l.bindTriggers triggers).diagnostics, d.site ≠ none := by
  induction triggers generalizing l with
  | nil => exact fun d hd => (List.not_mem_nil hd).elim
  | cons trigger rest ih =>
    intro d hd
    rcases List.mem_append.mp hd with first | later
    · exact located_bindCalls d first
    · exact ih d later

end Linkage

theorem unlocated_reports {r : Registry} {cs : List CallSite} :
    ∀ d ∈ reports r cs, d.site = none := by
  intro d hd
  obtain ⟨c, -, hd⟩ := List.mem_flatMap.mp hd
  exact (c.reported_again r).2 d hd

theorem length_reports (r : Registry) (cs : List CallSite) :
    (reports r cs).length = (Revalidation.of r cs).stale := by
  induction cs with
  | nil => rfl
  | cons c cs ih =>
    rw [reports, List.flatMap_cons, ← reports, List.length_append, ih, (c.reported_again r).1,
      Revalidation.of_cons, Revalidation.one, Revalidation.add_def]
    cases (c.validate .again r).accepted <;> rfl

namespace ScriptSet

/-- The calls of other scripts that name one of these functions. -/
def callsOfOthersTo (s : ScriptSet) (name : String) (functions : List String) : List CallSite :=
  (s.callsOfOthers name).filter (·.function ∈ functions)

/-- Of the calls of other scripts, these and no others are validated again, each of them once and
against the functions that the update leaves. One that is accepted counts as rebound, one that is
not as stale and is reported once, and each becomes what its validation makes of it. -/
structure Revalidates (s : ScriptSet) (name : String) (out : Reloaded) (cs : List CallSite) :
    Prop where
  outcome : out.outcome = .of out.set.linkage.registry cs
  reported : (out.diagnostics.filter (·.site = none)).Perm (reports out.set.linkage.registry cs)
  told : ∀ c ∈ cs, out.set.linkage.sites.live.get? c.id =
    some (c.validate .again out.set.linkage.registry).site
  others : ∀ c ∈ s.callsOfOthers name, c ∉ cs →
    out.set.linkage.sites.live.get? c.id = some c

theorem Revalidates.total {s : ScriptSet} {name : String} {out : Reloaded} {cs : List CallSite}
    (h : s.Revalidates name out cs) : out.outcome.rebound + out.outcome.stale = cs.length := by
  rw [h.outcome]
  exact Revalidation.total_of _ cs

theorem Revalidates.stale {s : ScriptSet} {name : String} {out : Reloaded} {cs : List CallSite}
    (h : s.Revalidates name out cs) :
    out.outcome.stale = (out.diagnostics.filter (·.site = none)).length := by
  rw [h.outcome, h.reported.length_eq, length_reports]

/-- The news is told to those who call the functions of the old version. -/
theorem mem_news {s : ScriptSet} (held : Holding s.linkage s.scripts) {name : String}
    {script : Script Ref} (installed : s.Installs name script (s.installed name script))
    {id : CallId} :
    id ∈ (s.installed name script).news.values.flatten ↔
      ∃ c ∈ s.callsOfOthersTo name (s.version name).functions, c.id = id := by
  have coherent : (s.cleared name).Coherent := held.coherent.forgetAll _
  rw [List.mem_flatten]
  constructor
  · rintro ⟨ids, values, hid⟩
    obtain ⟨⟨f, ids⟩, entry, rfl⟩ := List.mem_map.mp values
    have told := Table.mem_entries_iff.mp entry
    rw [installed.news] at told
    split at told
    · rename_i old
      rw [Registry.hears_eq] at told
      split at told
      · cases told
      · obtain rfl := Option.some.inj told
        obtain ⟨c, live, rfl⟩ := (coherent.callers id f).mp hid
        obtain ⟨rfl, -⟩ := coherent.site id c live
        exact ⟨c, List.mem_filter.mpr ⟨(mem_callsOfOthers held).mpr live, decide_eq_true old⟩, rfl⟩
    · cases told
  · rintro ⟨c, hc, rfl⟩
    obtain ⟨other, old⟩ := List.mem_filter.mp hc
    have call : c.id ∈ (s.cleared name).registry.callers c.function :=
      (coherent.callers c.id c.function).mpr ⟨c, (mem_callsOfOthers held).mp other, rfl⟩
    have told := installed.news c.function
    rw [if_pos (of_decide_eq_true old), Registry.hears_eq,
      if_neg (List.ne_nil_of_mem call)] at told
    exact ⟨_, List.mem_map.mpr ⟨_, Table.mem_entries_iff.mpr told, rfl⟩, call⟩

theorem nodup_news {s : ScriptSet} (held : Holding s.linkage s.scripts) {name : String}
    {script : Script Ref} (installed : s.Installs name script (s.installed name script)) :
    (s.installed name script).news.values.flatten.Nodup := by
  have coherent : (s.cleared name).Coherent := held.coherent.forgetAll _
  have callers {f : String} {ids : List CallId}
      (told : (s.installed name script).news.get? f = some ids) :
      ids = (s.cleared name).registry.callers f := by
    rw [installed.news] at told
    split at told
    · rw [Registry.hears_eq] at told
      split at told
      · cases told
      · exact (Option.some.inj told).symm
    · cases told
  apply List.nodup_flatten.mpr
  constructor
  · intro ids values
    obtain ⟨⟨f, ids⟩, entry, rfl⟩ := List.mem_map.mp values
    rw [callers (Table.mem_entries_iff.mp entry)]
    exact nodup_callers _ f
  · apply List.pairwise_map.mpr
    have apart := List.pairwise_map.mp (s.installed name script).news.nodup_keys
    apply apart.imp_of_mem
    intro a b ha hb other id ida idb
    apply other
    rw [callers (Table.mem_entries_iff.mp ha), coherent.callers] at ida
    rw [callers (Table.mem_entries_iff.mp hb), coherent.callers] at idb
    obtain ⟨c, hc, hf⟩ := ida
    obtain ⟨d, hd, hg⟩ := idb
    obtain rfl := Option.some.inj (hc.symm.trans hd)
    exact hf.symm.trans hg

section
variable {s : ScriptSet} {w : World} (sound : s.Sound w) {name : String} (script : Script Ref)
include sound

/-- The calls of other scripts are as they were when the news is passed on. -/
theorem live_rebuilt {c : CallSite} (hc : c ∈ s.callsOfOthers name) :
    (s.rebuilt name script).linkage.sites.live.get? c.id = some c := by
  have held := sound.held
  have live := (mem_callsOfOthers held).mp hc
  obtain ⟨-, -, allotted⟩ := (held.coherent.forgetAll _).site c.id c live
  exact ((rebuilt_binds held name script).old c.id allotted).trans live

variable {script} {out : Reloaded} (r : s.Replaces w.heap name script out)
include r

/-- The sites that are told are those of the calls that name a function of the old version, in an
order of their own. -/
theorem told_tells : ∃ cs, cs.Perm (s.callsOfOthersTo name (s.version name).functions) ∧
    (s.rebuilt name script).linkage.Tells cs (s.told name script) := by
  have installed := installs sound.owned name r.fits
  have once : ((s.callsOfOthersTo name (s.version name).functions).map (·.id)).Nodup :=
    (nodup_callsOfOthers sound.held name).sublist (List.filter_sublist.map _)
  have perm : (s.installed name script).news.values.flatten.Perm
      ((s.callsOfOthersTo name (s.version name).functions).map (·.id)) := by
    apply (List.perm_ext_iff_of_nodup (nodup_news sound.held installed) once).mpr
    intro id
    rw [mem_news sound.held installed, List.mem_map]
  obtain ⟨cs, ids, order⟩ := (iff_of_eq
    (congrFun (congrFun (List.eq_map_comp_perm CallSite.id) _) _)).mpr perm
  have told : s.told name script =
      (s.rebuilt name script).linkage.notify (cs.map (·.id)) := by
    rw [← ids]
    exact passOn_eq _ _
  have live : ∀ c ∈ cs, (s.rebuilt name script).linkage.sites.live.get? c.id = some c := by
    intro c hc
    exact live_rebuilt sound script (List.mem_filter.mp (order.mem_iff.mp hc)).1
  rw [told]
  exact ⟨cs, order, Linkage.notify_sites (rebuilt_binds sound.held name script).coherent live⟩

theorem replaces_revalidates :
    s.Revalidates name out (s.callsOfOthersTo name (s.version name).functions) := by
  obtain ⟨cs, order, tells⟩ := told_tells sound r
  constructor
  · rw [r.outcome, r.linkage, tells.outcome, Revalidation.of_congr tells.functions]
    exact Revalidation.of_perm _ order
  · have located : (s.rebuilt name script).diagnostics.filter (·.site = none) = [] := by
      apply List.filter_eq_nil_iff.mpr
      intro d hd unlocated
      exact Linkage.located_bindTriggers d hd (of_decide_eq_true unlocated)
    have unlocated : (reports (s.rebuilt name script).linkage.registry cs).filter
        (·.site = none) = reports (s.rebuilt name script).linkage.registry cs :=
      List.filter_eq_self.mpr fun d hd => decide_eq_true (unlocated_reports d hd)
    rw [r.diagnostics, r.linkage, List.filter_append, located, List.nil_append, tells.diagnostics,
      unlocated, reports_congr tells.functions]
    exact order.flatMap_right _
  · intro c hc
    rw [r.linkage, (CallSite.validate_congr tells.functions .again c).2.1]
    exact tells.told c (order.mem_iff.mpr hc)
  · intro c hc unnamed
    have kept := live_rebuilt sound script hc
    have untold : c.id ∉ cs.map (·.id) := by
      intro hid
      obtain ⟨d, hd, same⟩ := List.mem_map.mp hid
      have live := live_rebuilt sound script (List.mem_filter.mp (order.mem_iff.mp hd)).1
      rw [same] at live
      obtain rfl := Option.some.inj (live.symm.trans kept)
      exact unnamed (order.mem_iff.mp hd)
    rw [r.linkage]
    exact (tells.others c.id untold).trans kept

end

/-- Every update validates the calls of other scripts again that name a function of the old
version, and no others. -/
theorem update_revalidates {s : ScriptSet} {w : World} (sound : s.Sound w) {name : String}
    {out : Reloaded} (h : s.Update w.heap name out) :
    s.Revalidates name out (s.callsOfOthersTo name (s.version name).functions) := by
  obtain ⟨script, r⟩ := update_replaces h
  exact replaces_revalidates sound r

/-- A reload validates the calls of other scripts again that name a function of the old version, and
reports each of them that it leaves behind. The calls that name a function of the new version are
all among them if and only if the script had every function before that is named by one of them. -/
theorem reload_revalidates_iff {s : ScriptSet} {w : World} (h : Reachable s w) {d : Disk} {p : Path}
    {name : String} (named : p.scriptName = .ok name) {out : Reloaded}
    (reloaded : s.reload d p w.heap = .ok out) :
    let old := (s.version name).functions
    let new := (out.set.version name).functions
    let known := ∀ c ∈ s.callsOfOthers name, c.function ∈ new → c.function ∈ old
    s.Revalidates name out (s.callsOfOthersTo name old) ∧
      out.outcome.stale = (out.diagnostics.filter (·.site = none)).length ∧
      (s.Revalidates name out (s.callsOfOthersTo name (old ++ new)) ↔ known) ∧
      (out.outcome.rebound + out.outcome.stale = (s.callsOfOthersTo name (old ++ new)).length ↔
        known) := by
  intro old new known
  have revalidates := update_revalidates (reachable_sound h) (.reload d p named reloaded)
  have all (hk : known) : s.callsOfOthersTo name (old ++ new) = s.callsOfOthersTo name old := by
    apply List.filter_congr
    intro c hc
    rw [decide_eq_decide, List.mem_append]
    exact or_iff_left_of_imp (hk c hc)
  have counted : out.outcome.rebound + out.outcome.stale =
      (s.callsOfOthersTo name (old ++ new)).length → known := by
    intro total c hc hn
    rw [revalidates.total] at total
    -- the calls that name an old function are as many as all of them, so they are all of them
    have some : (s.callsOfOthersTo name old).Sublist (s.callsOfOthersTo name (old ++ new)) := by
      apply List.monotone_filter_right
      intro d hd
      exact decide_eq_true (List.mem_append_left _ (of_decide_eq_true hd))
    have among : c ∈ s.callsOfOthersTo name (old ++ new) :=
      List.mem_filter.mpr ⟨hc, decide_eq_true (List.mem_append_right _ hn)⟩
    rw [← some.eq_of_length total] at among
    exact of_decide_eq_true (List.mem_filter.mp among).2
  refine ⟨revalidates, revalidates.stale, ⟨?_, ?_⟩, counted, ?_⟩
  · intro every
    exact counted every.total
  · intro hk
    rw [all hk]
    exact revalidates
  · intro hk
    rw [all hk]
    exact revalidates.total

end ScriptSet

namespace Library

open ScriptSet

theorem reload_revalidates_changed :
    ∃ out, defined.loaded.reload changed.disk path .empty = .ok out ∧
      defined.loaded.Revalidates "lib.json" out [call (some old)] ∧
      out.outcome.rebound + out.outcome.stale = 1 := by
  have reloaded := changed.reload_disk (s := defined.loaded) rfl World.empty.heap
  obtain ⟨revalidates, -, -, total⟩ :=
    reload_revalidates_iff defined.reachable_loaded scriptName_path reloaded
  exact ⟨_, reloaded, revalidates, total.mpr fun c hc hn => hn⟩

/-- A function that comes back after it was removed has no caller validated again, although the one
that names it fits. -/
theorem return_unnoticed :
    ∃ s w c out, Reachable s w ∧ s.reload defined.disk path w.heap = .ok out ∧
      s.callsOfOthersTo "lib.json" (out.set.version "lib.json").functions = [c] ∧
      (c.validate .again out.set.linkage.registry).accepted ∧ out.outcome = ⟨0, 0⟩ ∧
      ¬ s.Revalidates "lib.json" out [c] := by
  have gone : Reachable (defined.loaded.unload "lib.json" .empty).set .empty :=
    .next defined.reachable_loaded (.update (w := .empty) .unload)
  have reloaded := defined.reload_disk
    (s := (defined.loaded.unload "lib.json" .empty).set) rfl World.empty.heap
  refine ⟨_, _, call (some old), _, gone, reloaded, rfl, rfl,
    rfl, fun revalidates => ?_⟩
  cases revalidates.total

end Library

end LiveCalls

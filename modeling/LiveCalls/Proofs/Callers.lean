import LiveCalls.Proofs.Library
import Mathlib.Data.List.Nodup

namespace LiveCalls

namespace ScriptSet

/-- The call sites kept for the scripts, one script after the other. -/
def keptCalls (s : ScriptSet) : List CallSite := s.names.flatMap s.calls

def callsOfOthers (s : ScriptSet) (name : String) : List CallSite :=
  (s.names.filter (· ≠ name)).flatMap s.calls

section
variable {s : ScriptSet} (h : Holding s.linkage s.scripts)
include h

theorem ids_calls (name : String) : (s.calls name).map (·.id) = (s.version name).calls := by
  unfold calls version
  cases hs : s.scripts.get? name with
  | none => rfl
  | some loaded =>
    have live : ∀ id ∈ loaded.calls,
        (s.linkage.sites.live.get? id).map (·.id) = some id := by
      intro id hid
      obtain ⟨c, hc, own, -⟩ := h.live hs hid
      rw [hc, Option.map_some, own]
    change (loaded.calls.filterMap s.linkage.sites.live.get?).map (·.id) = loaded.calls
    rw [List.map_filterMap]
    exact (List.filterMap_congr live).trans List.filterMap_some

theorem mem_calls {name : String} {c : CallSite} :
    c ∈ s.calls name ↔
      c.id ∈ (s.version name).calls ∧ s.linkage.sites.live.get? c.id = some c := by
  rw [← ids_calls h]
  constructor
  · intro hc
    refine ⟨List.mem_map_of_mem hc, ?_⟩
    unfold calls at hc
    split at hc
    · cases hc
    · obtain ⟨id, -, hl⟩ := List.mem_filterMap.mp hc
      obtain ⟨rfl, -⟩ := h.coherent.site id c hl
      exact hl
  · rintro ⟨hid, hl⟩
    rw [ids_calls h] at hid
    obtain ⟨loaded, hs, hid⟩ := mem_calls_version.mp hid
    unfold calls
    rw [hs]
    exact List.mem_filterMap.mpr ⟨c.id, hid, hl⟩

theorem exists_script {c : CallSite} (hc : s.linkage.sites.live.get? c.id = some c) :
    ∃ name ∈ s.names, c.id ∈ (s.version name).calls := by
  obtain ⟨name, loaded, hs, hid⟩ := (h.held c.id).mp (Table.contains_of_get? hc)
  exact ⟨name, Table.mem_keys_iff.mpr (Table.contains_of_get? hs),
    mem_calls_version.mpr ⟨loaded, hs, hid⟩⟩

theorem mem_keptCalls {c : CallSite} :
    c ∈ s.keptCalls ↔ s.linkage.sites.live.get? c.id = some c := by
  unfold keptCalls
  rw [List.mem_flatMap]
  constructor
  · rintro ⟨name, -, hc⟩
    exact ((mem_calls h).mp hc).2
  · intro hc
    obtain ⟨name, hn, hid⟩ := exists_script h hc
    exact ⟨name, hn, (mem_calls h).mpr ⟨hid, hc⟩⟩

theorem version_apart {id : CallId} {a b : String} (ha : id ∈ (s.version a).calls)
    (hb : id ∈ (s.version b).calls) : a = b := by
  obtain ⟨loaded, hsa, ha⟩ := mem_calls_version.mp ha
  obtain ⟨loaded', hsb, hb⟩ := mem_calls_version.mp hb
  exact h.apart id a b loaded loaded' hsa hsb ha hb

/-- A call is kept for another script if and only if its site outlives those of the script. -/
theorem mem_callsOfOthers {name : String} {c : CallSite} :
    c ∈ s.callsOfOthers name ↔ (s.cleared name).sites.live.get? c.id = some c := by
  unfold callsOfOthers cleared
  rw [List.mem_flatMap, Linkage.live_forgetAll]
  constructor
  · rintro ⟨name', hn, hc⟩
    obtain ⟨hid, live⟩ := (mem_calls h).mp hc
    have other : name' ≠ name := of_decide_eq_true (List.mem_filter.mp hn).2
    rw [if_neg fun own => other (version_apart h hid own)]
    exact live
  · intro hc
    split at hc
    · cases hc
    · rename_i foreign
      obtain ⟨name', hn, hid⟩ := exists_script h hc
      have other : name' ≠ name := by
        rintro rfl
        exact foreign hid
      exact ⟨name', List.mem_filter.mpr ⟨hn, decide_eq_true other⟩, (mem_calls h).mpr ⟨hid, hc⟩⟩

/-- No call is kept twice. -/
theorem nodup_ids {names : List String} (distinct : names.Nodup) :
    ((names.flatMap s.calls).map (·.id)).Nodup := by
  rw [List.map_flatMap, List.nodup_flatMap]
  constructor
  · intro name _
    rw [ids_calls h, version]
    cases hs : s.scripts.get? name with
    | none => exact .nil
    | some loaded => exact h.once name loaded hs
  · apply distinct.imp
    intro a b other
    change List.Disjoint ((s.calls a).map (·.id)) ((s.calls b).map (·.id))
    rw [ids_calls h, ids_calls h]
    intro id ha hb
    exact other (version_apart h ha hb)

theorem nodup_keptCalls : (s.keptCalls.map (·.id)).Nodup := nodup_ids h s.scripts.nodup_keys

theorem nodup_callsOfOthers (name : String) : ((s.callsOfOthers name).map (·.id)).Nodup :=
  nodup_ids h (s.scripts.nodup_keys.filter _)

theorem length_keptCalls : s.keptCalls.length = s.callCount := by
  have same : s.keptCalls.map (·.id) = s.scripts.values.flatMap (·.calls) := by
    unfold keptCalls names
    rw [List.map_flatMap, Table.keys, Table.values, List.flatMap_map, List.flatMap_map]
    apply List.flatMap_congr
    intro entry listed
    rw [ids_calls h, version, Table.mem_entries_iff.mp listed]
    rfl
  rw [callCount, ← same, List.length_map]

end

theorem nodup_callers (r : Registry) (name : String) : (r.callers name).Nodup := by
  unfold Registry.callers
  refine List.Nodup.map_on ?_ (Table.nodup_keys _)
  intro a ha b hb same
  have function {x : Subscription}
      (hx : x ∈ (r.subscriptions.filter fun s _ => s.function = name).keys) :
      x.function = name := by
    rw [Table.mem_keys_iff, Table.get?_filter] at hx
    obtain ⟨u, hu⟩ := Option.isSome_iff_exists.mp hx
    exact of_decide_eq_true (Option.filter_eq_some_iff.mp hu).2
  obtain ⟨caller, name₁⟩ := a
  obtain ⟨caller', name₂⟩ := b
  obtain rfl : name₁ = name := function ha
  obtain rfl : name₂ = name₁ := function hb
  exact congrArg (Subscription.mk · name₂) same

/-- The subscribers of every function are the sites of the calls of that function which are kept,
and the sites that follow redefinitions are those of all calls that are kept; and every one of them
is bound. -/
theorem subscriptions_exact {s : ScriptSet} {w : World} (h : Reachable s w) :
    (∀ c ∈ s.keptCalls, c.isBound) ∧ s.keptCalls.length = s.callCount ∧
      (∀ name, (s.linkage.registry.callers name).Perm
        ((s.keptCalls.filter (·.function = name)).map (·.id))) ∧
      s.linkage.sites.tracked.keys.Perm (s.keptCalls.map (·.id)) := by
  have held := (reachable_sound h).held
  refine ⟨?_, length_keptCalls held, ?_, ?_⟩
  · intro c hc
    have live := (mem_keptCalls held).mp hc
    exact (held.coherent.site c.id c live).2.1
  · intro name
    have some : ((s.keptCalls.filter (·.function = name)).map (·.id)).Nodup :=
      (nodup_keptCalls held).sublist (List.filter_sublist.map _)
    apply (List.perm_ext_iff_of_nodup (nodup_callers _ name) some).mpr
    intro id
    rw [held.coherent.callers, List.mem_map]
    constructor
    · rintro ⟨c, hc, hf⟩
      obtain ⟨rfl, -⟩ := held.coherent.site id c hc
      exact ⟨c, List.mem_filter.mpr ⟨(mem_keptCalls held).mpr hc, decide_eq_true hf⟩, rfl⟩
    · rintro ⟨c, hc, rfl⟩
      obtain ⟨kept, hf⟩ := List.mem_filter.mp hc
      exact ⟨c, (mem_keptCalls held).mp kept, of_decide_eq_true hf⟩
  · have keys := s.linkage.sites.tracked.nodup_keys
    apply (List.perm_ext_iff_of_nodup keys (nodup_keptCalls held)).mpr
    intro id
    rw [Table.mem_keys_iff, List.mem_map]
    refine (Iff.of_eq (congrArg (· = true) (held.coherent.tracked id))).trans ?_
    constructor
    · intro live
      obtain ⟨c, hc⟩ := Option.isSome_iff_exists.mp live
      obtain ⟨rfl, -⟩ := held.coherent.site id c hc
      exact ⟨c, (mem_keptCalls held).mpr hc, rfl⟩
    · rintro ⟨c, hc, rfl⟩
      exact Table.contains_of_get? ((mem_keptCalls held).mp hc)

end ScriptSet

namespace Library

open ScriptSet

/-- The set after the caller was unloaded and its file was loaded again. -/
def resumed : ScriptSet :=
  ((defined.loaded.unload "main.json" World.empty.heap).set.replace "main.json" caller).1

/-- The set after the library was unloaded, too. -/
def bereft : ScriptSet := (resumed.unload "lib.json" World.empty.heap).set

theorem reachable_bereft : Reachable bereft .empty := by
  have emptied : Reachable (defined.loaded.unload "main.json" World.empty.heap).set .empty :=
    .next defined.reachable_loaded (.update .unload)
  have reloaded : (defined.loaded.unload "main.json" World.empty.heap).set.reload defined.disk
      ⟨"/r/main.json"⟩ World.empty.heap = .ok _ :=
    reload_eq_ok_iff.mpr ⟨"main.json", scriptName_main,
      .inr ⟨rfl, caller, defined.script_main, rfl, rfl⟩⟩
  have resumed : Reachable resumed .empty :=
    .next emptied (.update (.reload _ _ scriptName_main reloaded))
  exact .next resumed (.update .unload)

/-- The call that was bound at first is gone. The one that is kept instead still subscribes to the
function, and follows what becomes of it, although there is no such function for now. -/
theorem subscriptions_exact_library :
    Reachable bereft .empty ∧ bereft.linkage.registry.signatures.get? "f" = none ∧
      bereft.callCount = 1 ∧ (bereft.linkage.registry.callers "f").Perm [2] ∧
      bereft.linkage.sites.tracked.keys.Perm [2] := by
  obtain ⟨-, counted, callers, tracked⟩ := subscriptions_exact reachable_bereft
  exact ⟨reachable_bereft, rfl, counted.symm, callers "f", tracked⟩

end Library

end LiveCalls

import LiveCalls.Proofs.Revalidation

/-!
# What an update leaves of the calls that it does not bind again

A call of another script that an update does not bind again stays as it is. It goes on to run the
callable that it holds. One that holds none looks its function up by name whenever it is made, so it
runs whatever the update has defined.
-/

namespace LiveCalls

/-- A site goes on to run the same callable if it holds one, or if its function still has the same
one. -/
theorem CallSite.callable_resolve_eq_iff {r r' : Registry} {c : CallSite} :
    (c.resolve r').callable? = (c.resolve r).callable? ↔
      (c.callable? = none → r'.callables.get? c.function = r.callables.get? c.function) := by
  rw [callable_resolve, callable_resolve]
  cases c.callable? with
  | none => simp
  | some f => simp

namespace ScriptSet

/-- The update binds a call of another script again: it is validated again and accepted. -/
def Rebinds (s : ScriptSet) (name : String) (out : Reloaded) (c : CallSite) : Prop :=
  c ∈ s.callsOfOthersTo name (s.version name).functions ∧
    (c.validate .again out.set.linkage.registry).accepted

/-- A call of another script that is not bound again stays as it is. -/
theorem update_leaves {s : ScriptSet} {w : World} (sound : s.Sound w) {name : String}
    {out : Reloaded} (h : s.Update w.heap name out) {c : CallSite}
    (other : c ∈ s.callsOfOthers name) (left : ¬ s.Rebinds name out c) :
    out.set.linkage.sites.live.get? c.id = some c := by
  have revalidates := update_revalidates sound h
  by_cases told : c ∈ s.callsOfOthersTo name (s.version name).functions
  · have rejected : (c.validate .again out.set.linkage.registry).accepted = false :=
      Bool.eq_false_iff.mpr fun accepted => left ⟨told, accepted⟩
    rw [revalidates.told c told, CallSite.site_of_rejected rejected]
  · exact revalidates.others c other told

/-- A call of another script that an update does not bind again stays as it is. It runs the same
callable as before if and only if it holds one or the update leaves the callable of its function
alone; and then it gives the same in every context. -/
theorem stale_call_iff {s : ScriptSet} {w : World} (h : Reachable s w) {name : String}
    {out : Reloaded} (updated : s.Update w.heap name out) {c : CallSite}
    (other : c ∈ s.callsOfOthers name) (left : ¬ s.Rebinds name out c) :
    let before := s.linkage.registry
    let after := out.set.linkage.registry
    let keeps := c.callable? = none →
      after.callables.get? c.function = before.callables.get? c.function
    out.set.linkage.sites.live.get? c.id = some c ∧
      ((c.resolve after).callable? = (c.resolve before).callable? ↔ keeps) ∧
      (keeps → ∀ ctx : Context, ctx.InHeap w.heap →
        (c.execute ctx before w).Alike (c.execute ctx after { w with heap := out.heap })) := by
  intro before after keeps
  have sound := reachable_sound h
  obtain ⟨script, r⟩ := update_replaces updated
  refine ⟨update_leaves sound updated other left, CallSite.callable_resolve_eq_iff, ?_⟩
  intro hk ctx hc
  have live : s.linkage.sites.live.get? c.id = some c := by
    refine (mem_keptCalls sound.held).mp ?_
    obtain ⟨script, named, call⟩ := List.mem_flatMap.mp other
    exact List.mem_flatMap.mpr ⟨script, (List.mem_filter.mp named).1, call⟩
  have settled : ∀ f, (c.resolve before).callable? = some f → f.Settled w.heap := by
    intro f hf
    exact sound.settled.resolve live hf
  exact CallSite.execute_congr hc r.grows (CallSite.callable_resolve_eq_iff.mpr hk) settled

end ScriptSet

namespace Library

open ScriptSet

/-- A call goes on as before when its function changes, if there was something to run when it was
bound. -/
theorem stale_call_changed :
    ∃ out c, defined.loaded.Update World.empty.heap "lib.json" out ∧
      c ∈ defined.loaded.callsOfOthers "lib.json" ∧ ¬ defined.loaded.Rebinds "lib.json" out c ∧
      (c.execute .empty defined.loaded.linkage.registry .empty).Alike
        (c.execute .empty out.set.linkage.registry ⟨out.heap, []⟩) := by
  obtain ⟨out, reloaded, rejected⟩ : ∃ out,
      defined.loaded.reload changed.disk path World.empty.heap = .ok out ∧
        ((call (some old)).validate .again out.set.linkage.registry).accepted = false :=
    ⟨_, changed.reload_disk rfl _, by rfl⟩
  have updated := Update.reload changed.disk path scriptName_path reloaded
  have other : call (some old) ∈ defined.loaded.callsOfOthers "lib.json" :=
    List.mem_singleton_self _
  have left : ¬ defined.loaded.Rebinds "lib.json" out (call (some old)) := fun rebinds =>
    Bool.eq_false_iff.mp rejected rebinds.2
  obtain ⟨-, -, same⟩ := stale_call_iff defined.reachable_loaded updated other left
  exact ⟨out, _, updated, other, left, same (fun none => by cases none) .empty
    fun _ _ hv => by cases hv⟩

/-- A call of a function that was only declared runs what is defined later, although it does not fit
it. -/
theorem declared_call_changed :
    ∃ s w out c, Reachable s w ∧ s.Update w.heap "lib.json" out ∧
      c ∈ s.callsOfOthers "lib.json" ∧ ¬ s.Rebinds "lib.json" out c ∧
      (c.execute .empty s.linkage.registry w).values = none ∧
      (c.execute .empty out.set.linkage.registry { w with heap := out.heap }).values =
        some [.str "new"] ∧
      ¬ (c.execute .empty s.linkage.registry w).Alike
        (c.execute .empty out.set.linkage.registry { w with heap := out.heap }) := by
  have reloaded := changed.reload_disk (s := declared.loaded) rfl World.empty.heap
  refine ⟨_, _, _, call none, declared.reachable_loaded,
    .reload changed.disk path scriptName_path reloaded, List.mem_singleton_self _,
    fun rebinds => ?_, rfl, rfl, fun alike => ?_⟩
  · cases rebinds.2
  · cases alike.constants

end Library

end LiveCalls

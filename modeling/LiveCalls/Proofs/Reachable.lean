import LiveCalls.Proofs.Settled

namespace LiveCalls

namespace ScriptSet

/-- A script is brought up to date: its file is reloaded, or it is unloaded. -/
inductive Update (s : ScriptSet) (heap : Heap) (name : String) : Reloaded → Prop where
  | reload (d : Disk) (p : Path) {out : Reloaded} (named : p.scriptName = .ok name)
      (h : s.reload d p heap = .ok out) : Update s heap name out
  | unload : Update s heap name (s.unload name heap)

/-- What may happen to a set of scripts in a world. Whatever else goes on in the world may move
locations and add some, and takes none away. -/
inductive Step : ScriptSet → World → ScriptSet → World → Prop where
  | update {s : ScriptSet} {w : World} {name : String} {out : Reloaded}
      (h : s.Update w.heap name out) : Step s w out.set { w with heap := out.heap }
  | refuse {s : ScriptSet} {w : World} (d : Disk) (p : Path) {e : LoadError}
      (h : s.reload d p w.heap = .error e) : Step s w s w
  | fire {s : ScriptSet} {w : World} (event : String) (ctx : Context) (h : ctx.InHeap w.heap) :
      Step s w (s.fire event ctx w).2.1 (s.fire event ctx w).2.2
  | outside {s : ScriptSet} {w w' : World} (h : w.heap.size ≤ w'.heap.size) : Step s w s w'

/-- What can become of a folder of scripts. -/
inductive Reachable : ScriptSet → World → Prop where
  | load {d : Disk} {root : Path} {w : World} {out : Loaded}
      (h : ScriptSet.load d root w.heap = .ok out) : Reachable out.set { w with heap := out.heap }
  | next {s t : ScriptSet} {w w' : World} : Reachable s w → Step s w t w' → Reachable t w'

/-- What an update leaves is what a replacement by this script leaves. -/
structure Replaces (s : ScriptSet) (heap : Heap) (name : String) (script : Script Ref)
    (out : Reloaded) : Prop where
  fits : s.Fits name script
  grows : heap.Extends out.heap
  lies : script.InHeap out.heap
  linkage : out.set.linkage = (s.told name script).linkage
  functions : (out.set.version name).functions = script.names
  outcome : out.outcome = (s.told name script).outcome
  diagnostics : out.diagnostics =
    (s.rebuilt name script).diagnostics ++ (s.told name script).diagnostics

theorem unload_replaces (s : ScriptSet) (heap : Heap) (name : String) :
    s.Replaces heap name vacant (s.unload name heap) := by
  rw [unload_eq]
  refine ⟨.vacant s name, .refl heap, fun f hf => (List.not_mem_nil hf).elim, rfl, ?_, rfl, rfl⟩
  unfold version
  rw [Table.get?_erase_self]
  rfl

theorem replace_replaces {s : ScriptSet} {d : Disk} {name : String} {p : Path}
    {script : Script Point} (read : d.script name p = .ok script)
    (own : foreign? s.owners name script.names = none) (heap : Heap) :
    s.Replaces heap name (script.place heap).1
      ⟨(s.replace name (script.place heap).1).1, (script.place heap).2,
        (s.replace name (script.place heap).1).2.outcome,
        (s.replace name (script.place heap).1).2.diagnostics⟩ := by
  obtain ⟨grows, lies⟩ := script.place_lays heap
  refine ⟨fits_script read own heap, grows, lies, rfl, ?_, rfl, rfl⟩
  rw [replace_eq]
  unfold version
  rw [Table.get?_insert_self]
  rfl

theorem update_replaces {s : ScriptSet} {heap : Heap} {name : String} {out : Reloaded}
    (h : s.Update heap name out) : ∃ script, s.Replaces heap name script out := by
  cases h with
  | unload => exact ⟨vacant, unload_replaces s heap name⟩
  | reload d p named h =>
    obtain ⟨name', named', reloaded⟩ := reload_eq_ok_iff.mp h
    obtain rfl := Except.ok.inj (named.symm.trans named')
    rcases reloaded with ⟨-, rfl⟩ | ⟨-, script, read, own, rfl⟩
    · exact ⟨vacant, unload_replaces s heap name⟩
    · exact ⟨(script.place heap).1, replace_replaces read own heap⟩

/-- What is true of a set of scripts in a world whatever has become of it. -/
structure Sound (s : ScriptSet) (w : World) : Prop where
  held : Holding s.linkage s.scripts
  owned : s.Owned
  settled : s.linkage.Settled w.heap

theorem update_sound {s : ScriptSet} {w : World} {name : String} {out : Reloaded}
    (h : s.Update w.heap name out) (sound : s.Sound w) :
    out.set.Sound { w with heap := out.heap } := by
  have agree : Holding out.set.linkage out.set.scripts ∧ out.set.Owned := by
    cases h with
    | unload =>
      exact ⟨holding_unload sound.held name w.heap, owned_unload sound.held sound.owned name w.heap⟩
    | reload d p _ h =>
      obtain ⟨name, -, ⟨-, rfl⟩ | ⟨-, script, read, own, rfl⟩⟩ := reload_eq_ok_iff.mp h
      · exact ⟨holding_unload sound.held name w.heap,
          owned_unload sound.held sound.owned name w.heap⟩
      · exact ⟨holding_replace sound.held name _,
          owned_replace sound.held sound.owned (fits_script read own w.heap)⟩
  obtain ⟨script, r⟩ := update_replaces h
  have settled :=
    settled_told sound.held sound.owned r.fits (sound.settled.mono r.grows.size) r.lies
  rw [← r.linkage] at settled
  exact ⟨agree.1, agree.2, settled⟩

theorem step_sound {s t : ScriptSet} {w w' : World} (h : Step s w t w') (sound : s.Sound w) :
    t.Sound w' := by
  cases h with
  | update h => exact update_sound h sound
  | refuse => exact sound
  | fire event ctx hc =>
    exact ⟨holding_fire sound.held event ctx w, owned_fire sound.owned event ctx w,
      (sound.settled.makeCalls hc _).2⟩
  | outside size => exact ⟨sound.held, sound.owned, sound.settled.mono size⟩

theorem reachable_sound {s : ScriptSet} {w : World} (h : Reachable s w) : s.Sound w := by
  induction h with
  | load h => exact ⟨holding_load h, owned_load h, settled_load h⟩
  | next _ step ih => exact step_sound step ih

end ScriptSet

end LiveCalls

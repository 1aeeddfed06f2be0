import LiveCalls.Proofs.Isolation
import LiveCalls.Proofs.Loading

namespace LiveCalls

/-- What is laid on a heap leaves the cells that there are, and lies on the heap that it leaves. -/
structure Heap.Lays {α : Type} (lies : α → Heap → Prop) (h : Heap) (out : α × Heap) : Prop where
  grows : h.Extends out.2
  lies : lies out.1 out.2

namespace Heap.Lays

variable {α : Type} {lies : α → Heap → Prop}

theorem nil (h : Heap) : h.Lays (fun as h => ∀ a ∈ as, lies a h) (([] : List α), h) :=
  ⟨.refl h, fun _ ha => (List.not_mem_nil ha).elim⟩

theorem cons {h h' h'' : Heap} {a : α} {as : List α} (first : h.Lays lies (a, h'))
    (mono : h'.size ≤ h''.size → lies a h' → lies a h'')
    (rest : h'.Lays (fun as h => ∀ a ∈ as, lies a h) (as, h'')) :
    h.Lays (fun as h => ∀ a ∈ as, lies a h) (a :: as, h'') :=
  ⟨first.grows.trans rest.grows,
    List.forall_mem_cons.mpr ⟨mono rest.grows.size first.lies, rest.lies⟩⟩

end Heap.Lays

theorem Parameter.place_lays (p : Parameter Point) (h : Heap) : h.Lays InHeap (p.place h) := by
  unfold place
  cases p.default with
  | none => exact ⟨.refl h, fun _ hd => by cases hd⟩
  | some cs =>
    have placed := Value.placeAll_yields cs h
    constructor
    · exact placed.grows
    · intro vs hd
      obtain rfl := Option.some.inj hd
      exact placed.hold.inHeap

theorem Parameter.placeAll_lays (ps : List (Parameter Point)) (h : Heap) :
    h.Lays (fun ps h => ∀ p ∈ ps, InHeap p h) (placeAll ps h) := by
  induction ps generalizing h with
  | nil => exact .nil h
  | cons p ps ih => exact .cons (p.place_lays h) (fun size hp => hp.mono size) (ih _)

theorem Signature.place_lays (s : Signature Point) (h : Heap) : h.Lays InHeap (s.place h) := by
  obtain ⟨grows, lies⟩ := Parameter.placeAll_lays s.parameters h
  exact ⟨grows, lies⟩

namespace Script

def InHeap (s : Script Ref) (h : Heap) : Prop := ∀ f ∈ s.functions, f.signature.InHeap h

theorem InHeap.mono {s : Script Ref} {h h' : Heap} (hs : s.InHeap h) (size : h.size ≤ h'.size) :
    s.InHeap h' := fun f hf => (hs f hf).mono size

theorem placeFunctions_lays (fs : List (ScriptFunction Point)) (h : Heap) :
    h.Lays (fun fs h => ∀ f ∈ fs, f.signature.InHeap h) (placeFunctions fs h) := by
  induction fs generalizing h with
  | nil => exact .nil h
  | cons f fs ih =>
    obtain ⟨grows, lies⟩ := f.signature.place_lays h
    have first : h.Lays (fun (f : ScriptFunction Ref) h => f.signature.InHeap h)
      (⟨(f.signature.place h).1, f.body⟩, (f.signature.place h).2) := ⟨grows, lies⟩
    exact .cons first (fun size hf => hf.mono size) (ih _)

theorem place_lays (s : Script Point) (h : Heap) : h.Lays InHeap (s.place h) := by
  obtain ⟨grows, lies⟩ := placeFunctions_lays s.functions h
  exact ⟨grows, lies⟩

end Script

theorem ScriptSet.placeAll_lays (scripts : List (String × Script Point)) (h : Heap) :
    h.Lays (fun scripts h => ∀ entry ∈ scripts, entry.2.InHeap h) (placeAll scripts h) := by
  induction scripts generalizing h with
  | nil => exact .nil h
  | cons entry rest ih =>
    obtain ⟨name, script⟩ := entry
    obtain ⟨grows, lies⟩ := script.place_lays h
    have first : h.Lays (fun (entry : String × Script Ref) h => entry.2.InHeap h)
      ((name, (script.place h).1), (script.place h).2) := ⟨grows, lies⟩
    exact .cons first (fun size hs => hs.mono size) (ih _)

theorem ScriptFunction.settled {f : ScriptFunction Ref} {h : Heap} (hf : f.signature.InHeap h)
    {g : Callable} (hg : f.callable? = some g) : g.Settled h := by
  obtain ⟨e, -, rfl⟩ := Option.map_eq_some_iff.mp hg
  exact ⟨nofun, hf⟩

theorem Builtin.inHeap_signature (b : Builtin) (h : Heap) : b.signature.InHeap h := by
  have single (name : String) (type : VarType) : (single name type).InHeap h :=
    fun _ hd => by cases hd
  have multiple (name : String) (type : VarType) : (multiple name type).InHeap h :=
    fun _ hd => by cases hd
  have offset (name : String) : (offset name).InHeap h := by
    intro vs hd v hv
    obtain rfl := Option.some.inj hd
    obtain rfl := List.mem_singleton.mp hv
    trivial
  cases b <;> simp [Signature.InHeap, signature, single, multiple, offset]

namespace Linkage

/-- All that can be run is settled: what is defined, and what the sites hold. -/
structure Settled (l : Linkage) (h : Heap) : Prop where
  functions : ∀ name f, l.registry.callables.get? name = some f → f.Settled h
  sites : ∀ id c f, l.sites.live.get? id = some c → c.callable? = some f → f.Settled h

namespace Settled

variable {l : Linkage} {h : Heap}

theorem mono (hl : l.Settled h) {h' : Heap} (size : h.size ≤ h'.size) : l.Settled h' := by
  constructor
  · intro name f hf
    exact (hl.functions name f hf).mono size
  · intro id c f hc hf
    exact (hl.sites id c f hc hf).mono size

theorem resolve (hl : l.Settled h) {id : CallId} {c : CallSite}
    (hc : l.sites.live.get? id = some c) {f : Callable}
    (hf : (c.resolve l.registry).callable? = some f) : f.Settled h := by
  rw [CallSite.callable_resolve, Option.or_eq_some_iff] at hf
  rcases hf with held | ⟨-, found⟩
  · exact hl.sites id c f hc held
  · exact hl.functions _ f found

theorem keep (hl : l.Settled h) {c : CallSite}
    (held : ∀ f, c.callable? = some f → f.Settled h) :
    Settled ⟨l.registry, l.sites.keep c⟩ h := by
  constructor
  · exact hl.functions
  · intro id d f hd hf
    rw [CallSites.live_keep] at hd
    split at hd
    · obtain rfl := Option.some.inj hd
      exact held f hf
    · exact hl.sites id d f hd hf

theorem withRegistry (hl : l.Settled h) {r : Registry}
    (functions : ∀ name f, r.callables.get? name = some f → f.Settled h) :
    Settled ⟨r, l.sites⟩ h := ⟨functions, hl.sites⟩

theorem sameFunctions (hl : l.Settled h) {r : Registry} (same : l.registry.SameFunctions r) :
    Settled ⟨r, l.sites⟩ h := by
  apply hl.withRegistry
  intro name f hf
  rw [same.callables] at hf
  exact hl.functions name f hf

theorem revalidate (hl : l.Settled h) {id : CallId} {c : CallSite}
    (hc : l.sites.live.get? id = some c) : (l.revalidated c).Settled h := by
  have held : ∀ f, (c.validate .again l.registry).site.callable? = some f → f.Settled h := by
    intro f hf
    rcases CallSite.callable_validate hf with held | found
    · exact hl.sites id c f hc held
    · exact hl.functions _ f found
  exact (hl.keep held).sameFunctions (CallSite.functions_validate .again l.registry c)

theorem notify (hl : l.Settled h) (ids : List CallId) : (l.notify ids).linkage.Settled h := by
  induction ids generalizing l with
  | nil => exact hl
  | cons id ids ih =>
    unfold Linkage.notify
    split
    · exact ih ⟨hl.functions, hl.sites⟩
    · rename_i c found
      exact ih (hl.revalidate (CallSites.live_of_following found))

theorem forgetAll (hl : l.Settled h) (ids : List CallId) : (l.forgetAll ids).Settled h := by
  constructor
  · intro name f hf
    rw [(l.functions_forgetAll ids).callables] at hf
    exact hl.functions name f hf
  · intro id c f hc hf
    rw [live_forgetAll] at hc
    split at hc
    · cases hc
    · exact hl.sites id c f hc hf

theorem bind (hl : l.Settled h) {l' : Linkage} {ids : List CallId} (b : l.Binds l' ids) :
    l'.Settled h := by
  constructor
  · intro name f hf
    rw [b.functions.callables] at hf
    exact hl.functions name f hf
  · intro id c f hc hf
    by_cases old : id < l.sites.next
    · rw [b.old id old] at hc
      exact hl.sites id c f hc hf
    · have new : l.sites.next ≤ id := Nat.le_of_not_lt old
      have found := b.callable id c f new hc hf
      exact hl.functions _ f found

theorem link (hl : l.Settled h) : (ScriptSet.link l).Settled h := by
  constructor
  · exact hl.functions
  · intro id c f hc hf
    rw [ScriptSet.live_link] at hc
    obtain ⟨d, hd, rfl⟩ := Option.map_eq_some_iff.mp hc
    exact hl.resolve hd hf

/-- Making a call leaves all settled, and every cell that there was as it is. -/
theorem execute {w : World} (hl : l.Settled w.heap) {id : CallId} {c : CallSite}
    (hc : l.sites.live.get? id = some c) (ctx : Context) :
    let x := c.execute ctx l.registry w
    w.heap.Extends x.world.heap ∧
      Settled { l with sites := l.sites.keep x.site } x.world.heap := by
  intro x
  have held : ∀ f, (c.resolve l.registry).callable? = some f → f.Settled w.heap :=
    fun f hf => hl.resolve hc hf
  have grows := CallSite.execute_extends ctx w fun f hf => (held f hf).confined
  have kept := (hl.keep held).mono grows.size
  rw [← CallSite.site_execute ctx l.registry c w] at kept
  exact ⟨grows, kept⟩

/-- Making calls leaves all settled, and every cell that there was as it is. -/
theorem makeCalls {w : World} (hl : l.Settled w.heap) {ctx : Context} (hc : ctx.InHeap w.heap)
    (calls : List (String × CallId)) :
    w.heap.Extends (ScriptSet.makeCalls ctx l w calls).2.2.heap ∧
      (ScriptSet.makeCalls ctx l w calls).2.1.Settled
        (ScriptSet.makeCalls ctx l w calls).2.2.heap := by
  induction calls generalizing l w with
  | nil => exact ⟨.refl _, hl⟩
  | cons call rest ih =>
    obtain ⟨script, id⟩ := call
    unfold ScriptSet.makeCalls
    split
    · exact ih hl hc
    · rename_i c found
      obtain ⟨grows, kept⟩ := hl.execute found ctx
      obtain ⟨later, settled⟩ := ih kept (hc.mono grows.size)
      exact ⟨grows.trans later, settled⟩

end Settled

end Linkage

namespace ScriptSet

theorem settled_builtins (h : Heap) (name : String) (f : Callable)
    (hf : Registry.builtins.callables.get? name = some f) : f.Settled h := by
  rw [Registry.builtins_eq] at hf
  rcases Registry.get?_callables_defineEach hf with ⟨hf, -⟩ | none
  · obtain ⟨b, -, rfl⟩ := List.mem_map.mp hf
    exact ⟨nofun, b.inHeap_signature h⟩
  · cases none

theorem settled_defineAll {r : Registry} {fs : List (ScriptFunction Ref)} {h : Heap}
    (before : ∀ name f, r.callables.get? name = some f → f.Settled h)
    (lies : ∀ f ∈ fs, f.signature.InHeap h) (name : String) (f : Callable)
    (hf : (defineAll r fs).callables.get? name = some f) : f.Settled h := by
  rw [Registry.defineAll_eq] at hf
  rcases Registry.get?_callables_defineEach hf with ⟨hf, -⟩ | old
  · obtain ⟨g, hg, callable⟩ := List.mem_filterMap.mp hf
    exact ScriptFunction.settled (lies g hg) callable
  · exact before name f old

theorem settled_bindScripts {l : Linkage} {h : Heap} (coherent : l.Coherent) (hl : l.Settled h)
    (loaded : Table String LoadedScript) (scripts : List (String × Script Ref)) :
    (bindScripts l loaded scripts).linkage.Settled h := by
  induction scripts generalizing l loaded with
  | nil => exact hl
  | cons entry rest ih =>
    obtain ⟨name, script⟩ := entry
    have bound := Linkage.bindTriggers_binds coherent script.triggers
    exact ih bound.coherent (hl.bind bound) _

theorem settled_load {d : Disk} {root : Path} {heap : Heap} {out : Loaded}
    (h : load d root heap = .ok out) : out.set.linkage.Settled out.heap := by
  obtain ⟨paths, scripts, owners, -, -, rfl⟩ := load_eq_ok_iff.mp h
  have lies := (placeAll_lays scripts heap).lies
  generalize placeAll scripts heap = placed at lies ⊢
  obtain ⟨scripts, heap'⟩ := placed
  have start : Holding ⟨declareAll .builtins (scripts.flatMap (·.2.functions)), .empty⟩ .empty :=
    .start (subscriptions_declareAll _ _)
  have builtins : Linkage.Settled
      ⟨declareAll .builtins (scripts.flatMap (·.2.functions)), .empty⟩ heap' := by
    constructor
    · intro name f hf
      rw [Registry.callables_declareAll] at hf
      exact settled_builtins _ name f hf
    · intro id c f hc
      cases hc
  have bound := settled_bindScripts start.coherent builtins .empty scripts
  have functions : ∀ f ∈ scripts.flatMap (·.2.functions), f.signature.InHeap heap' := by
    intro f hf
    obtain ⟨entry, he, hf⟩ := List.mem_flatMap.mp hf
    exact lies entry he f hf
  exact (bound.withRegistry (settled_defineAll bound.functions functions)).link

section
variable {s : ScriptSet} {name : String} {script : Script Ref} {heap : Heap}

theorem settled_installed (owned : s.Owned) (fits : s.Fits name script)
    (settled : s.linkage.Settled heap) (lies : script.InHeap heap) (f : String) (g : Callable)
    (hg : (s.installed name script).registry.callables.get? f = some g) : g.Settled heap := by
  have installed := installs owned name fits
  by_cases new : f ∈ script.names
  · obtain ⟨f, hf, rfl⟩ := List.mem_map.mp new
    rw [(installed.function f hf).2] at hg
    exact ScriptFunction.settled (lies f hf) hg
  · by_cases old : f ∈ (s.version name).functions
    · rw [(installed.gone f old new).2] at hg
      cases hg
    · rw [(installed.other f old new).2] at hg
      exact settled.functions f g hg

/-- A replacement leaves all that can be run settled. -/
theorem settled_told (held : Holding s.linkage s.scripts) (owned : s.Owned)
    (fits : s.Fits name script) (settled : s.linkage.Settled heap)
    (lies : script.InHeap heap) : (s.told name script).linkage.Settled heap := by
  have installed := (settled.forgetAll (s.version name).calls).withRegistry
    (settled_installed owned fits settled lies)
  unfold told
  rw [passOn_eq]
  exact (installed.bind (rebuilt_binds held name script)).notify _

end

end ScriptSet

end LiveCalls

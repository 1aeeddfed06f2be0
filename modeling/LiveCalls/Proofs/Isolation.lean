import LiveCalls.Proofs.Outcome

namespace LiveCalls

namespace Heap.Extends

variable {base h : Heap}

theorem alloc (he : base.Extends h) (p : Point) : base.Extends (h.alloc p).2 := by
  refine he.trans ⟨?_, fun r hr => Heap.read_alloc_of_lt p hr⟩
  rw [Heap.size_alloc]
  exact Nat.le_succ _

theorem write (he : base.Extends h) {r : Ref} (beyond : base.size ≤ r.index) (p : Point) :
    base.Extends (h.write r p) := by
  constructor
  · rw [Heap.size_write]
    exact he.size
  · intro s hs
    have other : r ≠ s := by
      rintro rfl
      omega
    rw [Heap.read_write_of_ne p other]
    exact he.read s hs

end Heap.Extends

theorem Constant.place_extends (c : Constant) (h : Heap) : h.Extends (c.place h).2 :=
  ⟨size_place c h, fun _ hr => read_place c hr⟩

theorem Constant.placeAll_extends (cs : List Constant) (h : Heap) : h.Extends (placeAll cs h).2 :=
  (Value.placeAll_yields cs h).grows

namespace Expr

mutual

theorem eval_extends (ctx : Context) : (e : Expr) → (h : Heap) → h.Extends (e.eval ctx h).2
  | constants cs _, h => Constant.placeAll_extends cs h
  | var .., h => .refl h
  | list items _, h => evalItems_extends ctx items h
  | converted e _ _, h => eval_extends ctx e h

theorem evalItems_extends (ctx : Context) :
    (es : List Expr) → (h : Heap) → h.Extends (evalItems ctx es h).2
  | [], h => .refl h
  | e :: es, h => (eval_extends ctx e h).trans (evalItems_extends ctx es _)

end

end Expr

namespace Value

/-- Whether the location of a value is none of the cells of the heap. -/
def Beyond (h : Heap) : Value → Prop
  | .loc r => h.size ≤ r.index
  | _ => True

/-- No location in the slots is a cell of the heap. -/
def AllBeyond (h : Heap) (slots : List (List Value)) : Prop :=
  ∀ slot ∈ slots, ∀ v ∈ slot, v.Beyond h

theorem AllBeyond.append {h : Heap} {slots rest : List (List Value)} (a : AllBeyond h slots)
    (b : AllBeyond h rest) : AllBeyond h (slots ++ rest) :=
  List.forall_mem_append.mpr ⟨a, b⟩

def loc? : Value → Option Ref
  | .loc r => some r
  | _ => none

/-- The locations among values, each as often as it occurs. -/
def locations (vs : List Value) : List Ref := vs.filterMap loc?

theorem mem_locations {vs : List Value} {r : Ref} : r ∈ locations vs ↔ Datum.loc r ∈ vs := by
  unfold locations
  rw [List.mem_filterMap]
  constructor
  · rintro ⟨v, hv, hr⟩
    cases v with
    | loc s =>
      cases hr
      exact hv
    | _ => cases hr
  · intro hr
    exact ⟨_, hr, rfl⟩

/-- Values were laid out between two heaps: the cells of the first are left alone, and every
location among the values is a cell of its own that was added to them. -/
structure LaidOut (h : Heap) (vs : List Value) (h' : Heap) : Prop where
  grows : h.Extends h'
  distinct : (locations vs).Nodup
  added : ∀ r ∈ locations vs, h.size ≤ r.index ∧ r.index < h'.size

namespace LaidOut

variable {h h' h'' : Heap} {vs ws : List Value}

theorem nil (grows : h.Extends h') : LaidOut h [] h' := ⟨grows, .nil, nofun⟩

theorem append (a : LaidOut h vs h') (b : LaidOut h' ws h'') : LaidOut h (vs ++ ws) h'' := by
  have locations_append : locations (vs ++ ws) = locations vs ++ locations ws :=
    List.filterMap_append
  refine ⟨a.grows.trans b.grows, ?_, ?_⟩
  · rw [locations_append]
    refine List.nodup_append.mpr ⟨a.distinct, b.distinct, ?_⟩
    rintro r hr s hs rfl
    have before := (a.added r hr).2
    have after := (b.added r hs).1
    omega
  · intro r hr
    rw [locations_append] at hr
    have first := a.grows.size
    have second := b.grows.size
    rcases List.mem_append.mp hr with hr | hr
    · have bounds := a.added r hr
      omega
    · have bounds := b.added r hr
      omega

theorem after (grows : h.Extends h') (b : LaidOut h' vs h'') : LaidOut h vs h'' :=
  (nil grows).append b

theorem beyond {slots : List (List Value)} (a : LaidOut h slots.flatten h') :
    AllBeyond h slots := by
  intro slot hslot v hv
  cases v with
  | loc r => exact (a.added r (mem_locations.mpr (List.mem_flatten.mpr ⟨slot, hslot, hv⟩))).1
  | _ => trivial

theorem inHeap {slots : List (List Value)} (a : LaidOut h slots.flatten h') :
    ∀ slot ∈ slots, ∀ v ∈ slot, v.InHeap h' := by
  intro slot hslot v hv
  cases v with
  | loc r => exact (a.added r (mem_locations.mpr (List.mem_flatten.mpr ⟨slot, hslot, hv⟩))).2
  | _ => trivial

end LaidOut

theorem place_laidOut (c : Constant) (h : Heap) : LaidOut h [(c.place h).1] (c.place h).2 := by
  refine ⟨c.place_extends h, ?_, ?_⟩
  · cases c with
    | loc p => exact List.pairwise_singleton _ _
    | _ => exact .nil
  · cases c with
    | loc p =>
      intro r hr
      obtain rfl := List.mem_singleton.mp hr
      have bigger := h.size_alloc p
      have own : (h.alloc p).1.index = h.size := rfl
      simp only [Constant.place]
      omega
    | _ =>
      intro r hr
      cases hr

theorem placeAll_laidOut (cs : List Constant) (h : Heap) :
    LaidOut h (Constant.placeAll cs h).1 (Constant.placeAll cs h).2 := by
  induction cs generalizing h with
  | nil => exact .nil (.refl h)
  | cons c cs ih => exact (place_laidOut c h).append (ih _)

/-- Copies are laid out anew, whatever the values have in common. -/
theorem copyAll_laidOut (vs : List Value) (h : Heap) :
    LaidOut h (copyAll vs h).1 (copyAll vs h).2 := placeAll_laidOut _ h

end Value

open Value (AllBeyond LaidOut)

theorem Builtin.run_extends (b : Builtin) {base h : Heap} (he : base.Extends h)
    {slots : List (List Value)} (beyond : AllBeyond base slots) :
    base.Extends (b.run slots h).heap := by
  cases b with
  | location =>
    simp only [run]
    cases pointAt slots with
    | none => exact he
    | some p => exact he.alloc p
  | shift =>
    simp only [run]
    cases hm : movedAt slots h with
    | none => exact he
    | some moved =>
      obtain ⟨r, p⟩ := moved
      simp only [movedAt, Option.bind_eq_bind, Option.bind_eq_some_iff] at hm
      obtain ⟨slot, first, v, front, hm⟩ := hm
      cases v with
      | loc r' =>
        obtain ⟨dx, -, dy, -, dz, -, hm⟩ := by simpa only [Option.bind_eq_some_iff] using hm
        cases hm
        exact he.write
          (beyond slot (List.mem_of_getElem? first) _ (List.mem_of_mem_head? front)) _
      | _ => cases hm
  | _ => exact he

/-- A procedure from outside that keeps to what it is given: it takes no location away, and moves
none that was there but those in its slots. -/
structure Native.Confined (n : Native) : Prop where
  size : ∀ slots w, w.heap.size ≤ (n.run slots w).world.heap.size
  moves : ∀ slots w (r : Ref), r.index < w.heap.size → Datum.loc r ∉ slots.flatten →
    (n.run slots w).world.heap.read r = w.heap.read r

theorem Native.Confined.extends {n : Native} (hn : n.Confined) {base h : Heap}
    (he : base.Extends h) {slots : List (List Value)} (beyond : AllBeyond base slots)
    (kept : List (List Value)) : base.Extends (n.run slots ⟨h, kept⟩).world.heap := by
  constructor
  · exact Nat.le_trans he.size (hn.size slots ⟨h, kept⟩)
  · intro r hr
    have there : r.index < h.size := Nat.lt_of_lt_of_le hr he.size
    have foreign : Datum.loc r ∉ slots.flatten := by
      intro given
      obtain ⟨slot, hslot, hv⟩ := List.mem_flatten.mp given
      have outside : base.size ≤ r.index := beyond slot hslot _ hv
      omega
    rw [hn.moves slots ⟨h, kept⟩ r there foreign]
    exact he.read r hr

namespace Callable

/-- A callable that moves no location but those in its slots. That is so of every one that is not
supplied from outside. -/
def Confined (f : Callable) : Prop := ∀ n, f.body = .native n → n.Confined

theorem Settled.confined {f : Callable} {h : Heap} (hf : f.Settled h) : f.Confined :=
  fun n hn => absurd hn (hf.own n)

theorem defaults_extends (ps : List (Parameter Ref)) (h : Heap) : h.Extends (defaults ps h).2 := by
  induction ps generalizing h with
  | nil => exact .refl h
  | cons p ps ih =>
    unfold defaults
    cases p.default with
    | none => exact .refl h
    | some vs => exact (Value.copyAll_laidOut vs h).grows.trans (ih _)

/-- The defaults that fill slots are copied into cells of their own. -/
theorem defaults_laidOut {ps : List (Parameter Ref)} {h : Heap} {slots : List (List Value)}
    (filled : (defaults ps h).1 = some slots) : LaidOut h slots.flatten (defaults ps h).2 := by
  induction ps generalizing h slots with
  | nil =>
    cases filled
    exact .nil (.refl h)
  | cons p ps ih =>
    unfold defaults at filled ⊢
    cases hp : p.default with
    | none =>
      rw [hp] at filled
      cases filled
    | some vs =>
      rw [hp] at filled
      obtain ⟨rest, later, rfl⟩ := Option.map_eq_some_iff.mp filled
      exact (Value.copyAll_laidOut vs h).append (ih later)

/-- A confined callable that gets nothing of what there was leaves it alone. -/
theorem call_extends {f : Callable} {base h : Heap} (confined : f.Confined) (he : base.Extends h)
    {slots : List (List Value)} (beyond : AllBeyond base slots) (kept : List (List Value)) :
    base.Extends (f.call slots ⟨h, kept⟩).world.heap := by
  unfold call
  cases hb : f.body with
  | builtin b => exact b.run_extends he beyond
  | script e =>
    simp only [evaluate]
    split
    · exact he
    · exact he.trans (e.eval_extends _ h)
  | native n => exact (confined n hb).extends he beyond kept

theorem execute_extends {f : Callable} {base h : Heap} (confined : f.Confined)
    (he : base.Extends h) {given : List (List Value)} (beyond : AllBeyond base given)
    (kept : List (List Value)) : base.Extends (f.execute given ⟨h, kept⟩).world.heap := by
  unfold execute
  split
  · exact he
  · have grows := he.trans (defaults_extends (f.signature.parameters.drop given.length) h)
    cases out : (defaults (f.signature.parameters.drop given.length) h).1 with
    | none =>
      simp only [out]
      exact grows
    | some rest =>
      simp only [out]
      have filled := ((defaults_laidOut out).after he).beyond
      exact call_extends confined grows (beyond.append filled) kept

end Callable

namespace CallSite

theorem slotEach_laidOut (ctx : Context) (es : List Expr) (h : Heap) :
    LaidOut h (slotEach ctx es h).1.flatten (slotEach ctx es h).2 := by
  induction es generalizing h with
  | nil => exact .nil (.refl h)
  | cons e es ih =>
    exact ((Value.copyAll_laidOut _ _).after (e.eval_extends ctx h)).append (ih _)

theorem slotAll_laidOut (ctx : Context) (es : List Expr) (h : Heap) :
    LaidOut h (slotAll ctx es h).1.flatten (slotAll ctx es h).2 := by
  have one (slot : List Value) : [slot].flatten = slot := List.flatten_singleton
  unfold slotAll
  rw [one]
  exact (Value.copyAll_laidOut _ _).after (Expr.evalItems_extends ctx es h)

/-- The slots of a call hold copies, each with locations of its own. -/
theorem slots_laidOut (ctx : Context) (c : CallSite) (h : Heap) :
    LaidOut h (c.slots ctx h).1.flatten (c.slots ctx h).2 := by
  unfold slots
  split
  · exact slotAll_laidOut ctx c.arguments h
  · exact slotEach_laidOut ctx c.arguments h

/-- Executing a site leaves every cell that there was as it is. -/
theorem execute_extends (ctx : Context) (w : World) {r : Registry} {c : CallSite}
    (confined : ∀ f, (c.resolve r).callable? = some f → f.Confined) :
    w.heap.Extends (c.execute ctx r w).world.heap := by
  have slots := c.slots_laidOut ctx w.heap
  cases hf : (c.resolve r).callable? with
  | none =>
    simp only [execute, hf]
    exact .refl _
  | some f =>
    simp only [execute, hf, slots_resolve]
    exact Callable.execute_extends (confined f hf) slots.grows slots.beyond w.kept

end CallSite

end LiveCalls

import LiveCalls.Proofs.Slots

namespace LiveCalls

open Value (locations LaidOut)

theorem Builtin.run_inHeap (b : Builtin) {slots : List (List Value)} {h : Heap}
    (hin : ∀ slot ∈ slots, ∀ v ∈ slot, v.InHeap h) {vs : List Value}
    (given : (b.run slots h).values = some vs) : ∀ v ∈ vs, v.InHeap (b.run slots h).heap := by
  cases b with
  | sum | join | round =>
    obtain ⟨_, -, rfl⟩ := Option.map_eq_some_iff.mp given
    exact List.forall_mem_singleton.mpr trivial
  | location =>
    simp only [run] at given ⊢
    cases hp : pointAt slots with
    | none =>
      rw [hp] at given
      cases given
    | some p =>
      rw [hp] at given
      cases given
      exact List.forall_mem_singleton.mpr (Constant.inHeap_place (.loc p) h)
  | shift =>
    simp only [run] at given ⊢
    cases hm : movedAt slots h with
    | none =>
      rw [hm] at given
      cases given
    | some moved =>
      rw [hm] at given
      cases given
      refine List.forall_mem_singleton.mpr ?_
      rw [Value.InHeap, Heap.size_write]
      exact inHeap_movedAt hin hm
  | print => cases given

namespace Callable

/-- The slots that the body runs on, and the heap that they lie on: the slots given, and copies of
the defaults of the parameters that are left. The body does not run if too many are given, or if a
parameter that is left has no default. -/
def supplied (f : Callable) (given : List (List Value)) (h : Heap) :
    Option (List (List Value)) × Heap :=
  if f.signature.arity < given.length then (none, h)
  else
    let (rest, h) := defaults (f.signature.parameters.drop given.length) h
    (rest.map (given ++ ·), h)

theorem execute_eq (f : Callable) (given : List (List Value)) (w : World) :
    f.execute given w =
      match f.supplied given w.heap with
      | (none, heap) => ⟨none, { w with heap }, []⟩
      | (some slots, heap) =>
        let reply := f.call slots { w with heap }
        { reply with values := reply.values.filter (!·.isEmpty) } := by
  unfold execute supplied
  by_cases many : f.signature.arity < given.length
  · rw [if_pos many, if_pos many]
  · rw [if_neg many, if_neg many]
    cases out : (defaults (f.signature.parameters.drop given.length) w.heap).1 with
    | none => simp only [out, Option.map_none]
    | some rest => simp only [out, Option.map_some]

theorem supplied_laidOut {f : Callable} {base h heap : Heap} {given slots : List (List Value)}
    (laid : LaidOut base given.flatten h) (hs : f.supplied given h = (some slots, heap)) :
    LaidOut base slots.flatten heap := by
  unfold supplied at hs
  split at hs
  · cases hs
  · obtain ⟨filled, rfl⟩ := Prod.mk.inj hs
    obtain ⟨rest, out, rfl⟩ := Option.map_eq_some_iff.mp filled
    rw [List.flatten_append]
    exact laid.append (defaults_laidOut out)

theorem evaluate_inHeap {s : Signature Ref} {e : Expr} {slots : List (List Value)} {h : Heap}
    (hin : ∀ slot ∈ slots, ∀ v ∈ slot, v.InHeap h) {vs : List Value}
    (given : (evaluate s e slots h).1 = some vs) : ∀ v ∈ vs, v.InHeap (evaluate s e slots h).2 := by
  unfold evaluate at given ⊢
  cases hr : s.result with
  | none =>
    rw [hr] at given
    cases given
  | some r =>
    rw [hr] at given
    obtain rfl := Option.some.inj given
    have converted := ((e.eval_yields (inHeap_context s.parameters hin)).hold.convert r.type).inHeap
    intro v hv
    split at hv
    · exact converted v (List.mem_of_mem_take hv)
    · exact converted v hv

/-- What a callable of this library's own making gives back lies on the heap that it leaves. -/
theorem call_inHeap {f : Callable} (own : ∀ n, f.body ≠ .native n) {slots : List (List Value)}
    {w : World} (hin : ∀ slot ∈ slots, ∀ v ∈ slot, v.InHeap w.heap) {vs : List Value}
    (given : (f.call slots w).values = some vs) :
    ∀ v ∈ vs, v.InHeap (f.call slots w).world.heap := by
  unfold call at given ⊢
  cases hb : f.body with
  | builtin b =>
    rw [hb] at given
    exact b.run_inHeap hin given
  | script e =>
    rw [hb] at given
    exact evaluate_inHeap hin given
  | native n => exact absurd hb (own n)

end Callable

namespace CallSite

variable {ctx : Context} {r : Registry} {c : CallSite} {f : Callable} {w : World}

/-- The slots that the body of a callable runs on when a site makes a call of it, and the heap that
they lie on. -/
def supplied (ctx : Context) (c : CallSite) (f : Callable) (h : Heap) :
    Option (List (List Value)) × Heap :=
  f.supplied (c.slots ctx h).1 (c.slots ctx h).2

theorem execute_of_supplied (hf : (c.resolve r).callable? = some f) {slots : List (List Value)}
    {heap : Heap} (hs : c.supplied ctx f w.heap = (some slots, heap)) :
    c.execute ctx r w = (c.resolve r).ran f slots ⟨heap, w.kept⟩ := by
  unfold supplied at hs
  simp only [execute, hf, slots_resolve, Callable.execute_eq, hs]
  rfl

theorem values_of_unsupplied (hf : (c.resolve r).callable? = some f) {heap : Heap}
    (hs : c.supplied ctx f w.heap = (none, heap)) : (c.execute ctx r w).values = none := by
  unfold supplied at hs
  simp only [execute, hf, slots_resolve, Callable.execute_eq, hs]
  rfl

theorem execute_inHeap (own : ∀ f, (c.resolve r).callable? = some f → ∀ n, f.body ≠ .native n)
    {vs : List Value} (given : (c.execute ctx r w).values = some vs) :
    ∀ v ∈ vs, v.InHeap (c.execute ctx r w).world.heap := by
  cases hf : (c.resolve r).callable? with
  | none =>
    simp only [execute, hf] at given
    cases given
  | some f =>
    rcases hs : c.supplied ctx f w.heap with ⟨filled, heap⟩
    cases filled with
    | none =>
      rw [values_of_unsupplied hf hs] at given
      cases given
    | some slots =>
      have laid := Callable.supplied_laidOut (c.slots_laidOut ctx w.heap) hs
      rw [execute_of_supplied hf hs] at given ⊢
      obtain ⟨taken, called, rfl⟩ := Option.map_eq_some_iff.mp given
      obtain ⟨produced, -⟩ := Option.filter_eq_some_iff.mp called
      intro v hv
      exact Callable.call_inHeap (own f hf) laid.inHeap produced v (List.mem_filter.mp hv).1

/-- A call leaves every location that there was where it is, whoever holds it, if its body moves no
location but those in its slots. The locations in the slots that the body runs on were added for
the call, and none of them occurs twice. -/
theorem execute_isolated (confined : ∀ f, (c.resolve r).callable? = some f → f.Confined) :
    (∀ l : Ref, l.index < w.heap.size →
        (c.execute ctx r w).world.heap.read l = w.heap.read l) ∧
      ∀ f slots heap, (c.resolve r).callable? = some f →
        c.supplied ctx f w.heap = (some slots, heap) →
          c.execute ctx r w = (c.resolve r).ran f slots ⟨heap, w.kept⟩ ∧
            (locations slots.flatten).Nodup ∧
            ∀ l ∈ locations slots.flatten, w.heap.size ≤ l.index ∧ l.index < heap.size := by
  have grows := execute_extends ctx w confined
  refine ⟨grows.read, ?_⟩
  intro f slots heap hf hs
  have laid := Callable.supplied_laidOut (c.slots_laidOut ctx w.heap) hs
  exact ⟨execute_of_supplied hf hs, laid.distinct, laid.added⟩

/-- A procedure that moves all locations in its slots, gives all values back, and keeps hold of the
slots. -/
def nudge : Native where
  run slots w :=
    let heap := (locations slots.flatten).foldl
      (fun h l => h.write l ((h.read l).moved 1 0 0)) w.heap
    ⟨some slots.flatten, ⟨heap, slots⟩, []⟩

theorem nudge_confined : nudge.Confined := by
  have run (ls : List Ref) (h : Heap) :
      let h' := ls.foldl (fun h l => h.write l ((h.read l).moved 1 0 0)) h
      h'.size = h.size ∧ ∀ r ∉ ls, h'.read r = h.read r := by
    induction ls generalizing h with
    | nil => exact ⟨rfl, fun _ _ => rfl⟩
    | cons l ls ih =>
      obtain ⟨size, read⟩ := ih (h.write l ((h.read l).moved 1 0 0))
      refine ⟨size.trans (h.size_write ..), ?_⟩
      intro r hr
      have other : l ≠ r := (List.ne_of_not_mem_cons hr).symm
      exact (read r (List.not_mem_of_not_mem_cons hr)).trans (h.read_write_of_ne _ other)
  constructor
  · intro slots w
    exact Nat.le_of_eq (run (locations slots.flatten) w.heap).1.symm
  · intro slots w r _ foreign
    exact (run (locations slots.flatten) w.heap).2 r fun hr => foreign (Value.mem_locations.mp hr)

/-- A location that is given four times and stands in for a fifth value stays where it is, and the
body gets five others. -/
theorem execute_isolated_nudge :
    let home : Ref := ⟨0⟩
    let w : World := ⟨⟨#[⟨0, 64, 0⟩]⟩, [[.loc home]]⟩
    let ctx := Context.empty.set "home" [.loc home, .loc home]
    let f : Callable := ⟨⟨"nudge", [⟨"a", .loc, .multiple, none⟩, ⟨"b", .loc, .multiple, none⟩,
      ⟨"c", .loc, .single, some [.loc home]⟩], none⟩, .native nudge⟩
    let arg : Expr := .var "home" .loc .unknown
    let c : CallSite := ⟨1, "nudge", [arg, arg], .bound f.signature (some f), false, none, none,
      .value⟩
    f.Confined ∧ (c.execute ctx .empty w).world.heap.read home = w.heap.read home ∧
      ∃ slots heap, c.supplied ctx f w.heap = (some slots, heap) ∧
        c.execute ctx .empty w = c.ran f slots ⟨heap, w.kept⟩ ∧
        (locations slots.flatten).length = 5 ∧ (locations slots.flatten).Nodup := by
  intro home w ctx f arg c
  have confined : f.Confined := by
    rintro n ⟨⟩
    exact nudge_confined
  obtain ⟨still, handed⟩ := @execute_isolated ctx .empty c w (by
    rintro g ⟨⟩
    exact confined)
  refine ⟨confined, still home (by decide), _, _, rfl, ?_⟩
  obtain ⟨ran, distinct, -⟩ := handed f _ _ rfl rfl
  exact ⟨ran, rfl, distinct⟩

end CallSite

end LiveCalls

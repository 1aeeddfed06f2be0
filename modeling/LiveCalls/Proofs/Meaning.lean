import LiveCalls.Callable

namespace LiveCalls

/-- Every cell of `h` is in `h'` and holds the same point there. -/
structure Heap.Extends (h h' : Heap) : Prop where
  size : h.size ≤ h'.size
  read : ∀ r : Ref, r.index < h.size → h'.read r = h.read r

namespace Heap.Extends

theorem refl (h : Heap) : h.Extends h := ⟨Nat.le_refl _, fun _ _ => rfl⟩

theorem trans {h h' h'' : Heap} (a : h.Extends h') (b : h'.Extends h'') : h.Extends h'' := by
  have first := a.size
  have second := b.size
  constructor
  · omega
  · intro r hr
    have still : r.index < h'.size := by omega
    rw [b.read r still]
    exact a.read r hr

end Heap.Extends

namespace Value

theorem InHeap.mono {h h' : Heap} {v : Value} (hv : v.InHeap h) (hs : h.size ≤ h'.size) :
    v.InHeap h' := by
  cases v with
  | loc r => exact Nat.lt_of_lt_of_le hv hs
  | _ => trivial

/-- The values are in the heap, and these constants are what they are. -/
structure Hold (h : Heap) (vs : List Value) (cs : List Constant) : Prop where
  inHeap : ∀ v ∈ vs, v.InHeap h
  constants : vs.map (constant h) = cs

theorem Hold.self {h : Heap} {vs : List Value} (hv : ∀ v ∈ vs, v.InHeap h) :
    Hold h vs (vs.map (constant h)) := ⟨hv, rfl⟩

theorem Hold.extend {h h' : Heap} {vs : List Value} {cs : List Constant} (held : Hold h vs cs)
    (he : h.Extends h') : Hold h' vs cs := by
  constructor
  · intro v hv
    exact (held.inHeap v hv).mono he.size
  · rw [← held.constants]
    apply List.map_congr_left
    intro v hv
    exact constant_congr (held.inHeap v hv) he.read

theorem Hold.append {h : Heap} {vs ws : List Value} {cs ds : List Constant} (a : Hold h vs cs)
    (b : Hold h ws ds) : Hold h (vs ++ ws) (cs ++ ds) := by
  constructor
  · intro v hv
    rcases List.mem_append.mp hv with hv | hv
    · exact a.inHeap v hv
    · exact b.inHeap v hv
  · rw [List.map_append, a.constants, b.constants]

/-- What a run that starts on `h` leaves: a larger heap, on which the values are these constants. -/
structure Yields (h : Heap) (out : List Value × Heap) (cs : List Constant) : Prop where
  grows : h.Extends out.2
  hold : Hold out.2 out.1 cs

theorem placeAll_yields (cs : List Constant) (h : Heap) : Yields h (Constant.placeAll cs h) cs := by
  refine ⟨⟨Constant.size_placeAll cs h, fun r hr => Constant.read_placeAll cs hr⟩, ?_,
    Constant.constants_placeAll cs h⟩
  induction cs generalizing h with
  | nil => intro v hv; cases hv
  | cons c cs ih =>
    intro v hv
    rcases List.mem_cons.mp hv with rfl | hv
    · exact (Constant.inHeap_place c h).mono (Constant.size_placeAll cs _)
    · exact ih _ v hv

theorem copyAll_yields {h : Heap} {vs : List Value} {cs : List Constant} (held : Hold h vs cs) :
    Yields h (copyAll vs h) cs := by
  have yields := placeAll_yields (vs.map (constant h)) h
  rw [held.constants] at yields
  rwa [copyAll, held.constants]

theorem inHeap_convert {h : Heap} {t : VarType} {v w : Value} (hv : v.InHeap h)
    (hc : Datum.convert? h.read t v = some w) : w.InHeap h := by
  unfold Datum.convert? at hc
  split at hc
  · cases hc; exact hv
  · split at hc
    · obtain ⟨n, -, rfl⟩ := Option.map_eq_some_iff.mp hc
      trivial
    · obtain ⟨b, -, rfl⟩ := Option.map_eq_some_iff.mp hc
      trivial
    · cases hc; trivial
    · cases hc

/-- Converting values and looking at what they are are independent of their order. -/
theorem Hold.convert {h : Heap} {vs : List Value} {cs : List Constant} (held : Hold h vs cs)
    (t : VarType) :
    Hold h (vs.filterMap (Datum.convert? h.read t)) (cs.filterMap (Datum.convert? id t)) := by
  constructor
  · intro w hw
    obtain ⟨v, hv, hc⟩ := List.mem_filterMap.mp hw
    exact inHeap_convert (held.inHeap v hv) hc
  · rw [← held.constants, List.filterMap_map, List.map_filterMap]
    apply congrArg (List.filterMap · vs)
    funext v
    have commutes := Datum.convert?_map id h.read t v
    rw [Function.id_comp] at commutes
    exact commutes.symm

end Value

namespace Context

/-- Every location that a variable holds is a cell of the heap. -/
def InHeap (ctx : Context) (h : Heap) : Prop := ∀ name, ∀ v ∈ ctx.get name, v.InHeap h

theorem InHeap.mono {ctx : Context} {h h' : Heap} (hc : ctx.InHeap h) (hs : h.size ≤ h'.size) :
    ctx.InHeap h' := fun name v hv => (hc name v hv).mono hs

theorem constants_extend {ctx : Context} {h h' : Heap} (hc : ctx.InHeap h) (he : h.Extends h') :
    ctx.constants h' = ctx.constants h := by
  funext name
  exact ((Value.Hold.self (hc name)).extend he).constants

theorem get_set (ctx : Context) (name name' : String) (values : List Value) :
    (ctx.set name values).get name' = if name' = name then values else ctx.get name' := by
  simp only [get, set, Table.get?_insert, Std.LawfulEqOrd.compare_eq_iff_eq]
  split <;> rfl

end Context

open Value (Hold Yields)

namespace Expr

mutual

theorem eval_yields {ctx : Context} : (e : Expr) → {h : Heap} → ctx.InHeap h →
    Yields h (e.eval ctx h) (e.denote (ctx.constants h))
  | constants cs _, h, _ => Value.placeAll_yields cs h
  | var name _ _, h, hc => ⟨.refl h, Hold.self (hc name)⟩
  | list items _, _, hc => evalItems_yields items hc
  | converted e target _, h, hc => by
    have source := eval_yields e hc
    exact ⟨source.grows, source.hold.convert target⟩

theorem evalItems_yields {ctx : Context} : (es : List Expr) → {h : Heap} → ctx.InHeap h →
    Yields h (evalItems ctx es h) (denoteItems (ctx.constants h) es)
  | [], h, _ => ⟨.refl h, (fun _ hv => by cases hv), rfl⟩
  | e :: es, h, hc => by
    have first := eval_yields e hc
    have rest := evalItems_yields es (hc.mono first.grows.size)
    rw [Context.constants_extend hc first.grows] at rest
    exact ⟨first.grows.trans rest.grows, (first.hold.extend rest.grows).append rest.hold⟩

end

end Expr

namespace Value

/-- The slots are in the heap, and these rows of constants are what they hold. -/
structure HoldAll (h : Heap) (slots : List (List Value)) (rows : List (List Constant)) : Prop where
  inHeap : ∀ slot ∈ slots, ∀ v ∈ slot, v.InHeap h
  constants : slots.map (·.map (constant h)) = rows

theorem HoldAll.nil (h : Heap) : HoldAll h [] [] := ⟨by simp, rfl⟩

theorem HoldAll.cons {h : Heap} {slot : List Value} {row : List Constant}
    {slots : List (List Value)} {rows : List (List Constant)} (a : Hold h slot row)
    (b : HoldAll h slots rows) :
    HoldAll h (slot :: slots) (row :: rows) := by
  constructor
  · intro s hs
    rcases List.mem_cons.mp hs with rfl | hs
    · exact a.inHeap
    · exact b.inHeap s hs
  · rw [List.map_cons, a.constants, b.constants]

theorem HoldAll.append {h : Heap} {slots rest : List (List Value)}
    {rows more : List (List Constant)} (a : HoldAll h slots rows) (b : HoldAll h rest more) :
    HoldAll h (slots ++ rest) (rows ++ more) := by
  constructor
  · intro s hs
    rcases List.mem_append.mp hs with hs | hs
    · exact a.inHeap s hs
    · exact b.inHeap s hs
  · rw [List.map_append, a.constants, b.constants]

theorem HoldAll.extend {h h' : Heap} {slots : List (List Value)} {rows : List (List Constant)}
    (held : HoldAll h slots rows) (he : h.Extends h') : HoldAll h' slots rows := by
  constructor
  · intro s hs v hv
    exact (held.inHeap s hs v hv).mono he.size
  · rw [← held.constants]
    apply List.map_congr_left
    intro s hs
    have slot := (Hold.self (held.inHeap s hs)).extend he
    exact slot.constants

end Value

open Value (HoldAll)

namespace Builtin

/-- What a built-in function gives back and prints for slots that hold these constants. -/
def answer (b : Builtin) (rows : List (List Constant)) : Option (List Constant) × Option String :=
  match b with
  | sum => (rows.head?.map fun row => [.num (total row)], none)
  | join => (rows.head?.map fun row => [.str (" ".intercalate (row.map (Datum.text id)))], none)
  | location => ((pointAt rows).map fun p => [.loc p], none)
  | shift => (moved? rows, none)
  | round => ((numberAt rows 0).map fun n => [.num n.round], none)
  | print => (none, some (String.join (rows.flatten.map (Datum.text id))))
where
  /-- The location at the front of the first row, moved by the numbers of the next three. -/
  moved? (rows : List (List Constant)) : Option (List Constant) := do
    let row ← rows[0]?
    let .loc p ← row.head? | none
    let dx ← numberAt rows 1
    let dy ← numberAt rows 2
    let dz ← numberAt rows 3
    some [.loc (p.moved dx dy dz)]

theorem num?_constant (h : Heap) (v : Value) : (v.constant h).num? = v.num? := by
  cases v <;> rfl

theorem text_constant (h : Heap) (v : Value) : Datum.text id (v.constant h) = v.text h :=
  Datum.text_map id h.read v

theorem numberAt_constants (h : Heap) (slots : List (List Value)) (i : Nat) :
    numberAt (slots.map (·.map (Value.constant h))) i = numberAt slots i := by
  simp only [numberAt, List.getElem?_map]
  cases slots[i]? with
  | none => rfl
  | some slot =>
    cases slot with
    | nil => rfl
    | cons v vs => exact num?_constant h v

theorem total_constants (h : Heap) (slot : List Value) :
    total (slot.map (Value.constant h)) = total slot := by
  simp only [total, List.filterMap_map]
  exact congrArg (fun f => (List.filterMap f slot).foldl (· + ·) (-0.0)) (funext (num?_constant h))

theorem texts_constants (h : Heap) (slot : List Value) :
    (slot.map (Value.constant h)).map (Datum.text id) = slot.map (Value.text h) := by
  rw [List.map_map]
  exact List.map_congr_left fun v _ => text_constant h v

theorem pointAt_constants (h : Heap) (slots : List (List Value)) :
    pointAt (slots.map (·.map (Value.constant h))) = pointAt slots := by
  simp only [pointAt, numberAt_constants]

theorem moved?_constants (h : Heap) (slots : List (List Value)) :
    answer.moved? (slots.map (·.map (Value.constant h))) =
      (movedAt slots h).map fun moved => [.loc moved.2] := by
  simp only [answer.moved?, movedAt, numberAt_constants, List.getElem?_map]
  cases slots[0]? with
  | none => rfl
  | some slot =>
    cases slot with
    | nil => rfl
    | cons v vs =>
      cases v with
      | loc r =>
        cases numberAt slots 1 <;> cases numberAt slots 2 <;> cases numberAt slots 3 <;> rfl
      | _ => rfl

theorem inHeap_movedAt {h : Heap} {slots : List (List Value)} {r : Ref} {p : Point}
    (hin : ∀ slot ∈ slots, ∀ v ∈ slot, v.InHeap h) (hm : movedAt slots h = some (r, p)) :
    r.index < h.size := by
  simp only [movedAt, Option.bind_eq_bind, Option.bind_eq_some_iff] at hm
  obtain ⟨slot, hslot, v, hv, hm⟩ := hm
  cases v with
  | loc r' =>
    obtain ⟨dx, -, dy, -, dz, -, hm⟩ := by simpa only [Option.bind_eq_some_iff] using hm
    cases hm
    exact hin slot (List.mem_of_getElem? hslot) _ (List.mem_of_mem_head? hv)
  | _ => cases hm

theorem run_answers (b : Builtin) {h : Heap} {slots : List (List Value)}
    {rows : List (List Constant)} (held : HoldAll h slots rows) :
    (b.run slots h).values.map (·.map (Value.constant (b.run slots h).heap)) = (b.answer rows).1 ∧
      (b.run slots h).printed = (b.answer rows).2 := by
  obtain ⟨hin, rfl⟩ := held
  cases b with
  | sum =>
    refine ⟨?_, rfl⟩
    cases slots with
    | nil => rfl
    | cons slot rest =>
      simp only [run, answer, List.map_cons, List.head?_cons, Option.map_some, total_constants]
      rfl
  | join =>
    refine ⟨?_, rfl⟩
    cases slots with
    | nil => rfl
    | cons slot rest =>
      simp only [run, answer, List.map_cons, List.head?_cons, Option.map_some, texts_constants]
      rfl
  | location =>
    simp only [run, answer, pointAt_constants]
    cases pointAt slots with
    | none => exact ⟨rfl, rfl⟩
    | some p => simp [Value.constant, Datum.map]
  | shift =>
    simp only [run, answer, moved?_constants]
    cases hm : movedAt slots h with
    | none => exact ⟨rfl, rfl⟩
    | some moved =>
      obtain ⟨r, p⟩ := moved
      simp [Value.constant, Datum.map, Heap.read_write_self p (inHeap_movedAt hin hm)]
  | round =>
    refine ⟨?_, rfl⟩
    simp only [run, answer, numberAt_constants]
    cases numberAt slots 0 <;> rfl
  | print =>
    refine ⟨rfl, ?_⟩
    simp only [run, answer, ← List.map_flatten, texts_constants]

end Builtin

end LiveCalls

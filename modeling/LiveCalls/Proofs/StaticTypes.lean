import LiveCalls.Proofs.Conversion

namespace LiveCalls

/-- What conforms to one of several types conforms to what they have in common. -/
theorem Datum.isA_common {α : Type} {d : Datum α} {t : VarType} {ts : List VarType}
    (hd : d.isA t) (ht : t ∈ ts) : d.isA (.common ts) :=
  VarType.isSubtype_trans hd (VarType.isSubtype_of_common (VarType.isSubtype_refl _) t ht)

theorem Constant.types_placeAll (cs : List Constant) (h : Heap) :
    (placeAll cs h).1.map Datum.type = cs.map Datum.type := by
  have same := congrArg (List.map Datum.type) (constants_placeAll cs h)
  rw [List.map_map] at same
  rw [← same]
  exact List.map_congr_left fun v _ => (Datum.type_map _ v).symm

namespace Expr

variable {ctx : Context}

mutual

/-- The values of an expression conform to its type, if the variables in it hold values of their
declared types only. -/
theorem isA_eval : (e : Expr) → {h : Heap} → (∀ x ∈ e.varsIn, ∀ v ∈ ctx.get x.1, v.isA x.2) →
    ∀ v ∈ (e.eval ctx h).1, v.isA e.type
  | constants cs _, h, _, v, hv => by
    have among : v.type ∈ cs.map Datum.type := by
      rw [← Constant.types_placeAll cs h]
      exact List.mem_map_of_mem hv
    exact Datum.isA_common (VarType.isSubtype_refl _) among
  | var _ _ _, _, declared, v, hv => declared _ (List.mem_singleton_self _) v hv
  | list items _, _, declared, v, hv => by
    obtain ⟨t, ht, conforms⟩ := isA_evalItems items declared v hv
    exact Datum.isA_common conforms ht
  | converted _ _ _, _, _, v, hv => by
    -- what the values were before does not matter: those that do not convert are gone
    obtain ⟨u, -, converts⟩ := List.mem_filterMap.mp hv
    exact Datum.isA_of_convert? converts

theorem isA_evalItems : (es : List Expr) → {h : Heap} →
    (∀ x ∈ varsInAll es, ∀ v ∈ ctx.get x.1, v.isA x.2) →
    ∀ v ∈ (evalItems ctx es h).1, ∃ t ∈ types es, v.isA t
  | [], _, _, v, hv => by cases hv
  | e :: es, _, declared, v, hv => by
    obtain ⟨first, rest⟩ := List.forall_mem_append.mp declared
    rcases List.mem_append.mp hv with hv | hv
    · exact ⟨e.type, List.mem_cons_self, isA_eval e first v hv⟩
    · obtain ⟨t, ht, conforms⟩ := isA_evalItems es rest v hv
      exact ⟨t, List.mem_cons_of_mem _ ht, conforms⟩

end

/-- Types are sound. Where every variable holds only values of the types that an expression gives
it, every value of the expression conforms to its type. What a value converts to conforms to the
type asked for, and it is the value itself if that conforms already. -/
theorem types_sound :
    (∀ (e : Expr) (ctx : Context) (h : Heap), (∀ x ∈ e.varsIn, ∀ v ∈ ctx.get x.1, v.isA x.2) →
      ∀ v ∈ (e.eval ctx h).1, v.isA e.type) ∧
    ∀ (h : Heap) (t : VarType) (v w : Value), v.convert? h.read t = some w →
      w.isA t ∧ (v.isA t → w = v) := by
  refine ⟨fun e ctx h declared => isA_eval e declared, fun h t v w converts => ?_⟩
  refine ⟨Datum.isA_of_convert? converts, fun fits => ?_⟩
  rw [Datum.convert?_of_isA fits] at converts
  exact (Option.some.inj converts).symm

/-- Truth values: one that is written, then those among the values of two variables. -/
def verdicts : Expr :=
  .list [.constants [.bool true] .unknown,
    .list [.converted (.var "x" .any .unknown) .bool .unknown, .var "y" .bool .unknown] .unknown]
    .unknown

/-- The variable of any type adds a truth value for the text that spells one and none for the
number, so that the whole has truth values only, as its type says. -/
theorem types_sound_verdicts :
    let ctx := (Context.empty.set "x" [.str " no", .num 1]).set "y" [.bool true]
    verdicts.type = .bool ∧
      (verdicts.eval ctx .empty).1 = [.bool true, .bool false, .bool true] ∧
      (∀ v ∈ (verdicts.eval ctx .empty).1, v.isA .bool) ∧
      (∃ w : Value, Datum.convert? Heap.empty.read .bool (.str " no") = some w ∧ w.isA .bool) ∧
      ∃ w : Value, Datum.convert? Heap.empty.read .str (.str " no") = some w ∧ w = .str " no" := by
  intro ctx
  have declared : ∀ x ∈ verdicts.varsIn, ∀ v ∈ ctx.get x.1, v.isA x.2 := by
    intro x hx v hv
    rcases List.mem_pair.mp hx with rfl | rfl
    · exact VarType.isSubtype_any _
    · rw [List.mem_singleton.mp hv]
      rfl
  exact ⟨rfl, rfl, types_sound.1 verdicts ctx .empty declared,
    ⟨.bool false, rfl, (types_sound.2 .empty .bool (.str " no") _ rfl).1⟩,
    ⟨.str " no", rfl, (types_sound.2 .empty .str (.str " no") _ rfl).2 rfl⟩⟩

end Expr

end LiveCalls

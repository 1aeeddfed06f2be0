import LiveCalls.Proofs.Slots

namespace LiveCalls

namespace Signature

/-- The position of the parameter that takes the argument at a position. -/
def takerOf (s : Signature Ref) (i : Nat) : Nat := if s.spreads then 0 else i

theorem default_of_lt_required {s : Signature Ref} {n : Nat} (h : n < s.required) :
    ∃ i p, n ≤ i ∧ s.parameters[i]? = some p ∧ p.default = none := by
  unfold required at h
  generalize s.parameters = ps at h ⊢
  induction ps generalizing n with
  | nil => exact absurd h (Nat.not_lt_zero n)
  | cons p ps ih =>
    unfold requiredOf at h
    split at h
    · split at h
      · rename_i missing
        refine ⟨0, p, ?_, rfl, Option.isNone_iff_eq_none.mp missing⟩
        omega
      · exact absurd h (Nat.not_lt_zero n)
    · rename_i k last
      obtain ⟨i, q, later, hq, missing⟩ := ih (n := n - 1) (by omega)
      exact ⟨i + 1, q, by omega, hq, missing⟩

/-- Arguments are enough if and only if every parameter that they leave has a default. -/
theorem required_le_iff {s : Signature Ref} {n : Nat} :
    s.required ≤ n ↔ ∀ i p, s.parameters[i]? = some p → n ≤ i → p.default.isSome := by
  constructor
  · intro enough i p hp left
    obtain ⟨hi, rfl⟩ := List.getElem?_eq_some_iff.mp hp
    exact default_of_required_le (Nat.le_trans enough left) hi
  · intro defaults
    by_contra few
    obtain ⟨i, p, left, hp, missing⟩ := default_of_lt_required (Nat.not_le.mp few)
    have present := defaults i p hp left
    rw [missing] at present
    cases present

end Signature

namespace CallSite

/-- What a call has to meet to be accepted by a signature. -/
structure Suits (phase : Phase) (s : Signature Ref) (c : CallSite) : Prop where
  /-- What comes back is of a type that is expected, if any is. -/
  result : ∀ expected, c.expected = some expected →
    ∃ returned, s.resultType? = some returned ∧ ∃ t ∈ expected, returned.isSubtype t
  /-- A single value that the site counts on does not become several. -/
  single : ∀ expected, c.expected = some expected → phase = .again → c.single → s.returnsSingle
  /-- There is room for the arguments. -/
  room : (∃ p, s.parameters = [p] ∧ p.isSingle = false) ∨ c.arguments.length ≤ s.arity
  /-- What is left out has a default. -/
  defaults : ∀ i p, s.parameters[i]? = some p → c.arguments.length ≤ i → p.default.isSome
  /-- Every argument converts to the type of the parameter that takes it. -/
  arguments : ∀ i e, c.arguments[i]? = some e →
    ∃ p b, s.parameters[s.takerOf i]? = some p ∧ e.convert p.type = .ok b

theorem judgeResult_isOk_iff {phase : Phase} {s : Signature Ref} {c : CallSite} :
    (∃ b, judgeResult phase s c = .ok b) ↔
      (∀ expected, c.expected = some expected →
        ∃ returned, s.resultType? = some returned ∧ ∃ t ∈ expected, returned.isSubtype t) ∧
      ∀ expected, c.expected = some expected → phase = .again → c.single → s.returnsSingle := by
  cases hx : c.expected with
  | none => exact iff_of_true ⟨_, judgeResult_of_unexpected hx⟩ ⟨nofun, nofun⟩
  | some expected =>
    simp only [judgeResult_eq_ok_iff hx, Option.some.injEq, forall_eq']
    cases phase with
    | first => simp
    | again => simp

/-- Each argument has a parameter that takes it, if there is room for all. -/
theorem exists_taker {s : Signature Ref} {n i : Nat} (room : s.spreads ∨ n ≤ s.arity) (hi : i < n) :
    ∃ p, s.parameters[s.takerOf i]? = some p ∧ (targets s n)[i]? = some p.type := by
  unfold Signature.takerOf targets
  cases spreads : s.spreads with
  | true =>
    obtain ⟨p, only, -⟩ := Signature.spreads_iff.mp spreads
    refine ⟨p, by rw [only]; rfl, ?_⟩
    rw [only, if_pos rfl, List.flatMap_singleton, List.getElem?_replicate_of_lt hi]
  | false =>
    have inside : i < s.parameters.length := by
      have enough : n ≤ s.arity := by simpa [spreads] using room
      exact Nat.lt_of_lt_of_le hi enough
    refine ⟨s.parameters[i], List.getElem?_eq_getElem inside, ?_⟩
    rw [if_neg Bool.false_ne_true, List.getElem?_map, List.getElem?_eq_getElem inside]
    rfl

theorem convertPairs_isOk_iff {i : Nat} {pairs : List (Expr × VarType)} :
    (∃ es, convertPairs i pairs = .ok es) ↔ ∀ p ∈ pairs, ∃ b, p.1.convert p.2 = .ok b := by
  simp only [convertPairs_eq_ok_iff]
  induction pairs with
  | nil => exact iff_of_true ⟨[], .nil⟩ nofun
  | cons p pairs ih =>
    rw [List.forall_mem_cons, ← ih]
    constructor
    · rintro ⟨es, converts⟩
      obtain ⟨b, bs, first, rest, rfl⟩ := List.forall₂_cons_left_iff.mp converts
      exact ⟨⟨b, first⟩, bs, rest⟩
    · rintro ⟨⟨b, first⟩, bs, rest⟩
      exact ⟨b :: bs, .cons first rest⟩

/-- The arguments convert together if each of them does, to the type of the parameter that takes
it. -/
theorem fitted_isOk_iff {s : Signature Ref} {c : CallSite}
    (room : s.spreads ∨ c.arguments.length ≤ s.arity) :
    (∃ es, c.fitted s = .ok es) ↔ ∀ i e, c.arguments[i]? = some e →
      ∃ p b, s.parameters[s.takerOf i]? = some p ∧ e.convert p.type = .ok b := by
  refine convertPairs_isOk_iff.trans ?_
  constructor
  · intro converts i e he
    obtain ⟨hi, -⟩ := List.getElem?_eq_some_iff.mp he
    obtain ⟨p, hp, target⟩ := exists_taker room hi
    have pair : (e, p.type) ∈ c.arguments.zip (targets s c.arguments.length) :=
      List.mem_of_getElem? (List.getElem?_zip_eq_some.mpr ⟨he, target⟩)
    obtain ⟨b, hb⟩ := converts _ pair
    exact ⟨p, b, hp, hb⟩
  · rintro converts ⟨e, t⟩ pair
    obtain ⟨i, hi⟩ := List.mem_iff_getElem?.mp pair
    obtain ⟨he, ht⟩ := List.getElem?_zip_eq_some.mp hi
    obtain ⟨inside, -⟩ := List.getElem?_eq_some_iff.mp he
    obtain ⟨p, hp, target⟩ := exists_taker room inside
    obtain rfl : p.type = t := Option.some.inj (target.symm.trans ht)
    obtain ⟨q, b, hq, hb⟩ := converts i e he
    obtain rfl := Option.some.inj (hp.symm.trans hq)
    exact ⟨b, hb⟩

/-- A call suits a signature if and only if what comes back, the number of arguments and the
arguments themselves are all judged well. -/
theorem suits_iff {phase : Phase} {s : Signature Ref} {c : CallSite} :
    c.Suits phase s ↔ (∃ b, judgeResult phase s c = .ok b) ∧
      judgeCount s c.arguments.length = .ok () ∧ ∃ es, c.fitted s = .ok es := by
  rw [judgeResult_isOk_iff, judgeCount_eq_ok_iff, Signature.required_le_iff]
  constructor
  · rintro ⟨result, single, room, defaults, arguments⟩
    have room := room.imp_left Signature.spreads_iff.mpr
    exact ⟨⟨result, single⟩, ⟨room, defaults⟩, (fitted_isOk_iff room).mpr arguments⟩
  · rintro ⟨⟨result, single⟩, ⟨room, defaults⟩, fits⟩
    exact ⟨result, single, room.imp_left Signature.spreads_iff.mp, defaults,
      (fitted_isOk_iff room).mp fits⟩

/-- A validation that gets to the arguments finds the parameter that takes each of them. It accepts
a call if and only if its function is declared and the call suits what is declared. -/
theorem accepted_iff_suits (phase : Phase) (r : Registry) (c : CallSite) :
    (∀ s, r.signatures.get? c.function = some s → judgeCount s c.arguments.length = .ok () →
        ∀ i < c.arguments.length, ∃ p, s.parameters[s.takerOf i]? = some p ∧
          (targets s c.arguments.length)[i]? = some p.type) ∧
      ((c.validate phase r).accepted ↔
        ∃ s, r.signatures.get? c.function = some s ∧ c.Suits phase s) := by
  constructor
  · intro s _ count i hi
    exact exists_taker (judgeCount_eq_ok_iff.mp count).1 hi
  · rw [accepted_iff]
    constructor
    · rintro ⟨a, judged⟩
      obtain ⟨declared, result, count, fit, -⟩ := judge_eq_ok_iff.mp judged
      exact ⟨a.signature, declared, suits_iff.mpr ⟨⟨_, result⟩, count, _, fit⟩⟩
    · rintro ⟨s, declared, suits⟩
      obtain ⟨⟨single, result⟩, count, es, fit⟩ := suits_iff.mp suits
      exact ⟨⟨s, r.callables.get? c.function, es, single⟩,
        judge_eq_ok_iff.mpr ⟨declared, result, count, fit, rfl⟩⟩

end CallSite

end LiveCalls

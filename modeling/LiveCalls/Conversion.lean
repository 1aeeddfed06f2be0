import LiveCalls.Decimal.Reading
import LiveCalls.Value

namespace LiveCalls

namespace Datum

variable {α β : Type}

/-- The truth value that a text spells. -/
def truth? (s : String) : Option Bool :=
  match trim s with
  | "true" | "yes" => some true
  | "false" | "no" => some false
  | _ => none

/-- The datum as one of type `target`, if this datum has a counterpart there. -/
def convert? (read : α → Point) (target : VarType) (d : Datum α) : Option (Datum α) :=
  if d.isA target then some d
  else match d, target with
    | .str s, .num => (Decimal.read? (trim s)).map .num
    | .str s, .bool => (truth? s).map .bool
    | d, .str => some (.str (d.text read))
    | _, _ => none

theorem convert?_of_isA {read : α → Point} {target : VarType} {d : Datum α} (h : d.isA target) :
    d.convert? read target = some d := by
  simp [convert?, h]

/-- What a conversion gives conforms to the type asked for. -/
theorem isA_of_convert? {read : α → Point} {target : VarType} {d e : Datum α}
    (h : d.convert? read target = some e) : e.isA target := by
  unfold convert? at h
  split at h
  · rename_i hd
    cases h
    exact hd
  · split at h
    · obtain ⟨n, _, rfl⟩ := Option.map_eq_some_iff.mp h
      rfl
    · obtain ⟨b, _, rfl⟩ := Option.map_eq_some_iff.mp h
      rfl
    · cases h
      rfl
    · cases h

/-- Converting a datum and giving its location in another way are independent of their order. -/
theorem convert?_map (read : β → Point) (f : α → β) (target : VarType) (d : Datum α) :
    (d.map f).convert? read target = (d.convert? (read ∘ f) target).map (map f) := by
  cases d <;> cases target <;>
    simp [convert?, isA, type, VarType.isSubtype, map, text, Function.comp_def]

end Datum

namespace VarType

/-- Whether the values of one type have a conversion to another at all. -/
def converts : VarType → VarType → Bool
  | num, str | bool, str | loc, str | str, num | str, bool => true
  | _, _ => false

/-- Whether a value declared as `source` may turn out to have a conversion to `target`. -/
def mayConvert (source target : VarType) : Bool :=
  source.isSubtype target || source = any || source.converts target

end VarType

end LiveCalls

import LiveCalls.Text.Blank

namespace LiveCalls

/-- A declared type. No value has type `any` or `undefined` of its own: `any` admits every value,
and `undefined` stands for the result of a function that returns none. -/
inductive VarType where
  | bool | num | str | loc | any | undefined
  deriving DecidableEq, Repr, Inhabited

namespace VarType

/-- Every type is a subtype of itself and of `any`. -/
def isSubtype (a b : VarType) : Bool := a = b || b = any

theorem isSubtype_iff {a b : VarType} : a.isSubtype b ↔ a = b ∨ b = any := by
  simp [isSubtype]

@[simp] theorem isSubtype_refl (a : VarType) : a.isSubtype a := by simp [isSubtype]

@[simp] theorem isSubtype_any (a : VarType) : a.isSubtype any := by simp [isSubtype]

theorem isSubtype_trans {a b c : VarType} (hab : a.isSubtype b) (hbc : b.isSubtype c) :
    a.isSubtype c := by
  rw [isSubtype_iff] at *
  rcases hbc with rfl | rfl
  · exact hab
  · exact .inr rfl

def name : VarType → String
  | bool => "bool"
  | num => "num"
  | str => "str"
  | loc => "loc"
  | any => "any"
  | undefined => "undefined"

/-- The type that a manifest means by a name. Blanks around the name are ignored. -/
def parse? (text : String) : Option VarType :=
  match trim text with
  | "bool" | "boolean" => some bool
  | "num" | "number" => some num
  | "str" | "text" | "string" => some str
  | "loc" | "location" => some loc
  | "any" | "object" => some any
  | _ => none

/-- The type that all of these have in common, `any` when there is none or they differ. -/
def common : List VarType → VarType
  | [] => any
  | t :: ts => if ts.all (· = t) then t else any

/-- Says of a type that it is none of those expected. -/
def noneOf (expected : List VarType) : String :=
  match expected.map name with
  | [] => "not of any known type"
  | [only] => "not a " ++ only
  | names =>
    "neither a " ++ ", ".intercalate names.dropLast ++ " nor a " ++ names.getLastD ""

end VarType

/-- Whether a parameter or result holds exactly one value or a sequence of them. -/
inductive Cardinality where
  | single | multiple
  deriving DecidableEq, Repr, Inhabited

namespace Cardinality

def ofMultiple (multiple : Bool) : Cardinality := if multiple then .multiple else .single

def isSingle (c : Cardinality) : Bool := c = .single

end Cardinality

end LiveCalls

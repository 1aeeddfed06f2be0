import LiveCalls.Text.Quoted
import LiveCalls.Value

/-!
# Signatures

The declared shape of a function: its parameters with their types and defaults, and what it
returns. Defaults are data, so a signature comes in two forms like a datum does: with coordinates
in itself as a manifest declares it, and with locations on the heap once it is installed.
-/

namespace LiveCalls

/-- One parameter. The default stands in for a parameter that a call leaves out; only parameters
at the end can be left out. -/
structure Parameter (α : Type) where
  name : String
  type : VarType
  cardinality : Cardinality
  default : Option (List (Datum α))
  deriving Inhabited

/-- What a function returns. -/
structure Result where
  type : VarType
  cardinality : Cardinality
  deriving DecidableEq, Repr, Inhabited

/-- The declared shape of a function. -/
structure Signature (α : Type) where
  name : String
  parameters : List (Parameter α)
  /-- Absent for a function that returns nothing. -/
  result : Option Result
  deriving Inhabited

namespace Parameter

variable {α β : Type}

def isSingle (p : Parameter α) : Bool := p.cardinality.isSingle

/-- The parameter with the locations in its default given in another way. -/
def map (f : α → β) (p : Parameter α) : Parameter β :=
  ⟨p.name, p.type, p.cardinality, p.default.map (·.map (Datum.map f))⟩

/-- The parameter as a signature shows it. Default values are shown as quoted text. -/
def text (read : α → Point) (p : Parameter α) : String :=
  let dots := if p.isSingle then "" else "..."
  let default := match p.default with
    | some values => " = " ++ ", ".intercalate (values.map fun v => quoted (v.text read))
    | none => ""
  p.name ++ ": " ++ p.type.name ++ dots ++ default

end Parameter

namespace Signature

variable {α β : Type}

/-- How many parameters have to be given: all up to the last one without a default. -/
def requiredOf : List (Parameter α) → Nat
  | [] => 0
  | p :: ps =>
    match requiredOf ps with
    | 0 => if p.default.isNone then 1 else 0
    | n + 1 => n + 2

def required (s : Signature α) : Nat := requiredOf s.parameters

def arity (s : Signature α) : Nat := s.parameters.length

def resultType? (s : Signature α) : Option VarType := s.result.map (·.type)

/-- Whether the function returns at most one value. One that returns nothing does. -/
def returnsSingle (s : Signature α) : Bool := s.result.all (·.cardinality.isSingle)

/-- Whether all arguments of a call go into one parameter that takes several values. -/
def spreads (s : Signature α) : Bool :=
  match s.parameters with
  | [p] => !p.isSingle
  | _ => false

/-- The signature with the locations in its defaults given in another way. -/
def map (f : α → β) (s : Signature α) : Signature β :=
  ⟨s.name, s.parameters.map (·.map f), s.result⟩

def text (read : α → Point) (s : Signature α) : String :=
  let params := ", ".intercalate (s.parameters.map (·.text read))
  let result := match s.result with
    | some r => " :: " ++ r.type.name ++ if r.cardinality.isSingle then "" else "..."
    | none => ""
  s.name ++ "(" ++ params ++ ")" ++ result

theorem required_le (s : Signature α) : s.required ≤ s.arity := by
  simp only [required, arity]
  induction s.parameters with
  | nil => simp [requiredOf]
  | cons p ps ih =>
    simp only [requiredOf]
    split
    · split <;> simp
    · simp only [List.length_cons]
      omega

/-- Every parameter that need not be given has a default. -/
theorem default_of_required_le {s : Signature α} {i : Nat} (h : s.required ≤ i)
    (hi : i < s.arity) : (s.parameters.get ⟨i, hi⟩).default.isSome := by
  simp only [required, arity] at h hi
  generalize s.parameters = ps at h hi
  induction ps generalizing i with
  | nil => simp at hi
  | cons p ps ih =>
    simp only [requiredOf] at h
    split at h
    · rename_i hz
      cases i with
      | zero =>
        split at h
        · omega
        · rename_i hd
          simpa [Option.isSome_iff_ne_none] using hd
      | succ i => exact ih (by omega) (by simpa using hi)
    · cases i with
      | zero => omega
      | succ i => exact ih (by omega) (by simpa using hi)

end Signature

namespace Parameter

/-- The parameter with the locations in its default on the heap. -/
def place (p : Parameter Point) (h : Heap) : Parameter Ref × Heap :=
  match p.default with
  | none => (⟨p.name, p.type, p.cardinality, none⟩, h)
  | some cs =>
    let (vs, h) := Constant.placeAll cs h
    (⟨p.name, p.type, p.cardinality, some vs⟩, h)

def placeAll : List (Parameter Point) → Heap → List (Parameter Ref) × Heap
  | [], h => ([], h)
  | p :: ps, h =>
    let (q, h) := p.place h
    let (qs, h) := placeAll ps h
    (q :: qs, h)

end Parameter

namespace Signature

def place (s : Signature Point) (h : Heap) : Signature Ref × Heap :=
  let (params, h) := Parameter.placeAll s.parameters h
  (⟨s.name, params, s.result⟩, h)

end Signature

end LiveCalls

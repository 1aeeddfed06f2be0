import LiveCalls.Signature

namespace LiveCalls

inductive Builtin where
  | sum | join | location | shift | round | print
  deriving DecidableEq, Repr, Inhabited

namespace Builtin

def all : List Builtin := [sum, join, location, shift, round, print]

def name : Builtin → String
  | sum => "sum"
  | join => "join"
  | location => "location"
  | shift => "shift"
  | round => "round"
  | print => "print"

theorem mem_all (b : Builtin) : b ∈ all := by cases b <;> decide

/-- Whether a name is taken by a built-in function. -/
def isName (name : String) : Bool := all.any (·.name = name)

section
variable {α : Type}

def single (name : String) (type : VarType) : Parameter α := ⟨name, type, .single, none⟩

def multiple (name : String) (type : VarType) : Parameter α := ⟨name, type, .multiple, none⟩

/-- A single number that is zero when it is left out. -/
def offset (name : String) : Parameter α := ⟨name, .num, .single, some [.num 0]⟩

def signature (b : Builtin) : Signature α :=
  match b with
  | sum => ⟨b.name, [multiple "numbers" .num], some ⟨.num, .single⟩⟩
  | join => ⟨b.name, [multiple "texts" .str], some ⟨.str, .single⟩⟩
  | location => ⟨b.name, [single "x" .num, single "y" .num, offset "z"], some ⟨.loc, .single⟩⟩
  | shift =>
    ⟨b.name, [single "loc" .loc, single "dx" .num, offset "dy", offset "dz"],
      some ⟨.loc, .single⟩⟩
  | round => ⟨b.name, [single "n" .num], some ⟨.num, .single⟩⟩
  | print => ⟨b.name, [multiple "values" .any], none⟩

end

/-- What a built-in function did: the values it gives back, if any, the heap it leaves, and the
text it prints, if any. -/
structure Outcome where
  values : Option (List Value)
  heap : Heap
  printed : Option String

section
variable {α : Type}

/-- The number at the front of a slot. -/
def numberAt (slots : List (List (Datum α))) (i : Nat) : Option Float := do
  let slot ← slots[i]?
  let first ← slot.head?
  first.num?

/-- The sum of the numbers in a slot. It starts from negative zero, the sum of no numbers. -/
def total (slot : List (Datum α)) : Float := (slot.filterMap Datum.num?).foldl (· + ·) (-0.0)

/-- The point with the coordinates at the front of the first three slots. -/
def pointAt (slots : List (List (Datum α))) : Option Point := do
  let x ← numberAt slots 0
  let y ← numberAt slots 1
  let z ← numberAt slots 2
  some ⟨x, y, z⟩

end

/-- The reference at the front of the first slot, and where its location comes to lie when it is
moved by the numbers at the front of the next three. -/
def movedAt (slots : List (List Value)) (h : Heap) : Option (Ref × Point) := do
  let slot ← slots[0]?
  let .loc r ← slot.head? | none
  let dx ← numberAt slots 1
  let dy ← numberAt slots 2
  let dz ← numberAt slots 3
  some (r, (h.read r).moved dx dy dz)

/-- Runs a built-in function on one slot per parameter. -/
def run (b : Builtin) (slots : List (List Value)) (h : Heap) : Outcome :=
  match b with
  | sum => ⟨slots.head?.map fun slot => [.num (total slot)], h, none⟩
  | join =>
    ⟨slots.head?.map fun slot => [.str (" ".intercalate (slot.map (Value.text h)))], h, none⟩
  | location =>
    match pointAt slots with
    | some p => let (r, h) := h.alloc p; ⟨some [.loc r], h, none⟩
    | none => ⟨none, h, none⟩
  | shift =>
    match movedAt slots h with
    | some (r, p) => ⟨some [.loc r], h.write r p, none⟩
    | none => ⟨none, h, none⟩
  | round => ⟨(numberAt slots 0).map fun n => [.num n.round], h, none⟩
  | print => ⟨none, h, some (String.join (slots.flatten.map (Value.text h)))⟩

end Builtin

end LiveCalls

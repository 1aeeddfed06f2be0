import LiveCalls.Decimal.Shortest
import LiveCalls.Heap
import LiveCalls.VarType

/-!
# Values

A datum is a number, a text, a truth value or a location. It comes in two forms: a `Constant` has
the coordinates of its location in itself, and a `Value` refers to a location in a heap, which
other values may share. `Value.constant` reads a value off the heap and `Constant.place` puts a
constant onto it.
-/

namespace LiveCalls

/-- A datum whose locations are given by an `α`. -/
inductive Datum (α : Type) where
  | num (n : Float)
  | str (s : String)
  | bool (b : Bool)
  | loc (place : α)
  deriving Inhabited

/-- A datum that stands for itself. -/
abbrev Constant := Datum Point

/-- A datum whose location is shared through the heap. -/
abbrev Value := Datum Ref

namespace Datum

variable {α β : Type}

/-- The datum with its location given in another way. -/
def map (f : α → β) : Datum α → Datum β
  | num n => num n
  | str s => str s
  | bool b => bool b
  | loc a => loc (f a)

def type : Datum α → VarType
  | num _ => .num
  | str _ => .str
  | bool _ => .bool
  | loc _ => .loc

@[simp] theorem type_map (f : α → β) (d : Datum α) : (d.map f).type = d.type := by
  cases d <;> rfl

/-- Whether the datum conforms to a type. -/
def isA (d : Datum α) (t : VarType) : Bool := d.type.isSubtype t

def num? : Datum α → Option Float
  | num n => some n
  | _ => none

def boolText (b : Bool) : String := if b then "true" else "false"

/-- The plain text of a datum, its coordinates looked up by `read`. -/
def text (read : α → Point) : Datum α → String
  | num n => Decimal.text n
  | str s => s
  | bool b => boolText b
  | loc a =>
    let p := read a
    "x: " ++ Decimal.text p.x ++ ", y: " ++ Decimal.text p.y ++ ", z: " ++ Decimal.text p.z

@[simp] theorem text_map (read : β → Point) (f : α → β) (d : Datum α) :
    (d.map f).text read = d.text (read ∘ f) := by
  cases d <;> rfl

end Datum

namespace Constant

/-- A constant as a script shows it. -/
def literal : Constant → String
  | .num n => Decimal.text n
  | .str s => "\"" ++ s ++ "\""
  | .bool b => Datum.boolText b
  | .loc p =>
    "location(" ++ Decimal.text p.x ++ ", " ++ Decimal.text p.y ++ ", " ++ Decimal.text p.z ++ ")"

/-- The constant as a value of its own, its location in a new cell. -/
def place (c : Constant) (h : Heap) : Value × Heap :=
  match c with
  | .num n => (.num n, h)
  | .str s => (.str s, h)
  | .bool b => (.bool b, h)
  | .loc p => let (r, h) := h.alloc p; (.loc r, h)

/-- The constants placed one after the other, no two in one cell. -/
def placeAll : List Constant → Heap → List Value × Heap
  | [], h => ([], h)
  | c :: cs, h =>
    let (v, h) := c.place h
    let (vs, h) := placeAll cs h
    (v :: vs, h)

end Constant

namespace Value

/-- What a value is at the moment, detached from the heap. -/
def constant (h : Heap) (v : Value) : Constant := v.map h.read

def text (h : Heap) (v : Value) : String := Datum.text h.read v

/-- Whether the location of a value is a cell of the heap. -/
def InHeap (h : Heap) : Value → Prop
  | .loc r => r.index < h.size
  | _ => True

/-- Copies that share nothing with the values they are made from. -/
def copyAll (vs : List Value) (h : Heap) : List Value × Heap :=
  Constant.placeAll (vs.map (constant h)) h

theorem constant_congr {h h' : Heap} {v : Value} (hv : v.InHeap h)
    (heq : ∀ r : Ref, r.index < h.size → h'.read r = h.read r) :
    v.constant h' = v.constant h := by
  cases v with
  | loc r => simp [constant, Datum.map, heq r hv]
  | _ => rfl

end Value

namespace Constant

theorem size_place (c : Constant) (h : Heap) : h.size ≤ (c.place h).2.size := by
  cases c <;> simp [place]

theorem read_place (c : Constant) {h : Heap} {r : Ref} (hr : r.index < h.size) :
    (c.place h).2.read r = h.read r := by
  cases c <;> simp [place, Heap.read_alloc_of_lt, hr]

theorem inHeap_place (c : Constant) (h : Heap) : (c.place h).1.InHeap (c.place h).2 := by
  cases c <;> simp [place, Value.InHeap, Heap.alloc, Heap.size]

@[simp] theorem constant_place (c : Constant) (h : Heap) :
    (c.place h).1.constant (c.place h).2 = c := by
  cases c <;> simp [place, Value.constant, Datum.map]

theorem size_placeAll (cs : List Constant) (h : Heap) : h.size ≤ (placeAll cs h).2.size := by
  induction cs generalizing h with
  | nil => simp [placeAll]
  | cons c cs ih => exact Nat.le_trans (size_place c h) (ih _)

/-- Placing leaves the old cells alone. -/
theorem read_placeAll (cs : List Constant) {h : Heap} {r : Ref} (hr : r.index < h.size) :
    (placeAll cs h).2.read r = h.read r := by
  induction cs generalizing h with
  | nil => rfl
  | cons c cs ih =>
    exact (ih (Nat.lt_of_lt_of_le hr (size_place c h))).trans (read_place c hr)

/-- Placed constants read back as they were. -/
theorem constants_placeAll (cs : List Constant) (h : Heap) :
    (placeAll cs h).1.map (Value.constant (placeAll cs h).2) = cs := by
  induction cs generalizing h with
  | nil => rfl
  | cons c cs ih =>
    have head := Value.constant_congr (inHeap_place c h)
      fun r hr => read_placeAll cs (h := (c.place h).2) hr
    simp only [placeAll, List.map_cons, ih]
    exact congrArg (· :: cs) (head.trans (constant_place c h))

end Constant

end LiveCalls

import LiveCalls.Decimal.Nearest

/-!
# JSON values

JSON as a manifest reader sees it. Members keep their order and may repeat a name: what a repeated
name means is up to whoever reads the object. Some texts are JSON by their form and denote no value
that can be read: a number beyond the doubles, a string with half of a surrogate pair, a nesting
that is too deep. They do no harm in a part that nobody reads.
-/

namespace LiveCalls

/-- A number: one written as a whole number below 2^64 without a sign, or any other double. -/
inductive Json.Number where
  | natural (n : UInt64)
  | real (x : Float)

inductive Json where
  | null
  | bool (b : Bool)
  | number (n : Json.Number)
  | string (s : String)
  | array (items : List Json)
  | object (members : List (String × Json))
  /-- JSON by its form that denotes no readable value. -/
  | unreadable
  deriving Inhabited

namespace Json

/-- The double that a number denotes. -/
def Number.value : Number → Float
  | natural n => Decimal.nearest n.toNat 1
  | real x => x

mutual

/-- Whether every part of the value can be read. -/
def isReadable : Json → Bool
  | unreadable => false
  | array items => areReadable items
  | object members => membersReadable members
  | _ => true

def areReadable : List Json → Bool
  | [] => true
  | j :: js => j.isReadable && areReadable js

def membersReadable : List (String × Json) → Bool
  | [] => true
  | (_, j) :: ms => j.isReadable && membersReadable ms

end

/-- The truth value that the JSON is. -/
def bool? : Json → Option Bool
  | bool b => some b
  | _ => none

def string? : Json → Option String
  | string s => some s
  | _ => none

def number? : Json → Option Float
  | number n => some n.value
  | _ => none

def natural? : Json → Option UInt64
  | number (.natural n) => some n
  | _ => none

/-- The list that the JSON is, every item read by `f`. -/
def list? {α : Type} (f : Json → Option α) : Json → Option (List α)
  | array items => items.mapM f
  | _ => none

/-- The values of the members of one name, in order. -/
def named (name : String) : List (String × Json) → List Json
  | [] => []
  | (k, v) :: ms => if k = name then v :: named name ms else named name ms

/-- The values of the fields that a record has, in the order of their names; an absent field is
`none`. A record is an object, in which other members do not matter, or an array of the fields in
order, which may end early. A field that an object has twice spoils it. -/
def record? (names : List String) : Json → Option (List (Option Json))
  | object ms =>
    names.mapM fun name =>
      match named name ms with
      | [] => some none
      | [v] => some (some v)
      | _ => none
  | array items =>
    if items.length ≤ names.length then
      some (items.map some ++ List.replicate (names.length - items.length) none)
    else none
  | _ => none

end Json

end LiveCalls

import LiveCalls.Decimal.Reading
import LiveCalls.Json.Basic

/-!
# JSON numbers

The digits of a number are gathered into a significand as long as it fits 64 bits. Of the digits
that no longer fit, those before the point still count their places and those after it count
nothing. The significand and the power of ten are then combined by one multiplication or division
of doubles, so the number read may differ from the nearest double in its last digit.
-/

namespace LiveCalls.Json

def digit (c : Char) : Nat := c.toNat - '0'.toNat

/-- The significand with digits before the point appended while they fit, and how many did not. -/
def gatherWhole (n : Nat) : List Char → Nat × Nat
  | [] => (n, 0)
  | d :: ds =>
    if 10 * n + digit d < Nat.pow 2 64 then gatherWhole (10 * n + digit d) ds
    else (n, ds.length + 1)

/-- The significand with digits after the point appended while they fit, and how many did. -/
def gatherPart (n : Nat) : List Char → Nat × Nat
  | [] => (n, 0)
  | d :: ds =>
    if 10 * n + digit d < Nat.pow 2 64 then
      let (n, count) := gatherPart (10 * n + digit d) ds
      (n, count + 1)
    else (n, 0)

def powerOfTen (k : Nat) : Float := Decimal.nearest (Nat.pow 10 k) 1

/-- A double divided by a power of ten, in steps that are doubles themselves. -/
def divided (x : Float) (k : Nat) : Float :=
  if k ≤ 308 then x / powerOfTen k
  else if x == 0 then x
  else divided (x / powerOfTen 308) (k - 308)
termination_by k

/-- The double `significand · 10 ^ exponent`, unless it is beyond all doubles. -/
def combine? (significand : Nat) (exponent : Int) : Option Float :=
  let x := Decimal.nearest significand 1
  if exponent < 0 then some (divided x (-exponent).toNat)
  else if 308 < exponent then if significand = 0 then some x else none
  else
    let y := x * powerOfTen exponent.toNat
    if y.isInf then none else some y

/-- A number by the parts it is written in. -/
structure Literal where
  negative : Bool
  whole : List Char
  part : Option (List Char)
  exponent : Option Int

/-- The number that a literal denotes; it cannot be read if it is beyond all doubles. -/
def Literal.json (l : Literal) : Json :=
  let (n, skipped) := gatherWhole 0 l.whole
  match l.negative, l.part, l.exponent, skipped with
  | false, none, none, 0 => number (.natural (UInt64.ofNat n))
  | _, _, _, _ =>
    let (n, places) := gatherPart n (l.part.getD [])
    match combine? n ((l.exponent.getD 0) + skipped - places) with
    | some x => number (.real (if l.negative then -x else x))
    | none => unreadable

/-- The digits at the front, at least one, and what follows them. -/
def digits? (cs : List Char) : Option (List Char × List Char) :=
  match cs.takeWhile Char.isDigit with
  | [] => none
  | ds => some (ds, cs.dropWhile Char.isDigit)

/-- The digits before the point, which start with a zero only if it is the only one. -/
def whole? (cs : List Char) : Option (List Char × List Char) := do
  let (ds, rest) ← digits? cs
  if ds.head? = some '0' ∧ 1 < ds.length then none else some (ds, rest)

/-- A point with digits after it, if a point comes next. -/
def part? : List Char → Option (Option (List Char) × List Char)
  | '.' :: cs => (digits? cs).map fun (ds, rest) => (some ds, rest)
  | cs => some (none, cs)

/-- The exponent, if its mark comes next. -/
def exponent? : List Char → Option (Option Int × List Char)
  | 'e' :: cs | 'E' :: cs => do
    let (negative, cs) := Decimal.unsigned cs
    let (ds, rest) ← digits? cs
    let n : Int := Decimal.ofDigits ds
    some (some (if negative then -n else n), rest)
  | cs => some (none, cs)

/-- The number at the front of a text, and what follows it. -/
def scanNumber? (cs : List Char) : Option (Json × List Char) := do
  let (negative, cs) := match cs with
    | '-' :: rest => (true, rest)
    | cs => (false, cs)
  let (whole, cs) ← whole? cs
  let (part, cs) ← part? cs
  let (exponent, cs) ← exponent? cs
  some ((Literal.mk negative whole part exponent).json, cs)

end LiveCalls.Json

import LiveCalls.Decimal.Nearest

/-!
# Reading numbers

An optional sign, then `inf`, `infinity` or `nan` in any letter case, or decimal digits with at
most one point and an optional exponent. There is a digit before the point or after it. The number
read is the nearest double.
-/

namespace LiveCalls.Decimal

/-- The number that a row of decimal digits denotes. -/
def ofDigits (ds : List Char) : Nat := ds.foldl (fun n d => 10 * n + (d.toNat - '0'.toNat)) 0

/-- A text without its sign, and whether the sign is a minus. -/
def unsigned : List Char → Bool × List Char
  | '-' :: rest => (true, rest)
  | '+' :: rest => (false, rest)
  | cs => (false, cs)

/-- A whole number with an optional sign. -/
def integer? (cs : List Char) : Option Int :=
  let (negative, ds) := unsigned cs
  if ds.isEmpty || !ds.all Char.isDigit then none
  else some (if negative then -(ofDigits ds : Int) else ofDigits ds)

/-- The exponent after the digits; none written counts as zero. -/
def exponent? : List Char → Option Int
  | [] => some 0
  | 'e' :: cs => integer? cs
  | 'E' :: cs => integer? cs
  | _ => none

/-- The digits after a point, and what follows them. -/
def fraction : List Char → List Char × List Char
  | '.' :: cs => (cs.takeWhile Char.isDigit, cs.dropWhile Char.isDigit)
  | cs => ([], cs)

/-- A number without a sign. -/
def magnitude? (cs : List Char) : Option Float :=
  let word := cs.map Char.toLower
  if word = "inf".toList ∨ word = "infinity".toList then some (Float.ofBits 0x7ff0000000000000)
  else if word = "nan".toList then some (Float.ofBits 0x7ff8000000000000)
  else
    let whole := cs.takeWhile Char.isDigit
    let (part, rest) := fraction (cs.dropWhile Char.isDigit)
    if whole.isEmpty && part.isEmpty then none
    else (exponent? rest).map fun e => scientific (ofDigits (whole ++ part)) (e - part.length)

/-- The double that a text denotes, if it denotes one. -/
def read? (s : String) : Option Float :=
  let (negative, cs) := unsigned s.toList
  (magnitude? cs).map fun x => if negative then -x else x

end LiveCalls.Decimal

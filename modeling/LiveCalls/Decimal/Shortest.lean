/-!
# Writing numbers

A double is written by the fewest digits that read back as it, without an exponent. Of two such
texts with equally many digits the nearer one is taken, and of two equally near the larger.

The double `m · 2 ^ e` reads back from every decimal between the two halfway points to its
neighbours, and from these points themselves when `m` is even. All of it is counted in quarters of
`2 ^ e`, so that the halfway points are whole numbers also where the gap below is half as wide.
-/

namespace LiveCalls.Decimal

/-- The number `digits · 10 ^ exponent`. -/
structure Scaled where
  digits : Nat
  exponent : Int

/-- The multiple of `10 ^ k` that reads back as `m · 2 ^ e`, if there is one: the nearest, and of
two equally near the larger. `narrow` says that the gap below is half as wide as the one above. -/
def multiple? (m : Nat) (e : Int) (narrow : Bool) (k : Int) : Option Nat :=
  let quarter := Nat.pow 2 e.toNat * Nat.pow 10 (-k).toNat
  let step := 4 * (Nat.pow 2 (-e).toNat * Nat.pow 10 k.toNat)
  let value := 4 * m * quarter
  let low := value - (if narrow then quarter else 2 * quarter)
  let high := value + 2 * quarter
  let readsBack (x : Nat) : Bool := if m % 2 = 0 then low ≤ x ∧ x ≤ high else low < x ∧ x < high
  let n := value / step
  match readsBack (n * step), readsBack ((n + 1) * step) with
  | false, false => none
  | true, false => some n
  | false, true => some (n + 1)
  | true, true => some (if (n + 1) * step - value ≤ value - n * step then n + 1 else n)

/-- How many decimal places `num / den` stands to the left of the point, the first digit counted;
zero or less for a number whose first digit comes after the point. -/
def leadingPlace (num den : Nat) : Int :=
  if den ≤ num then (Nat.toDigits 10 (num / den)).length
  else -(((List.range 330).takeWhile fun j => num * Nat.pow 10 (j + 1) < den).length : Int)

/-- The shortest decimal that reads back as `m · 2 ^ e`. Seventeen digits are always enough. -/
def shortest (m : Nat) (e : Int) (narrow : Bool) : Scaled :=
  let place := leadingPlace (m * Nat.pow 2 e.toNat) (Nat.pow 2 (-e).toNat)
  let candidate (count : Nat) : Option Scaled :=
    let k := place - count
    (multiple? m e narrow k).map fun n => ⟨n, k⟩
  ((List.range 18).findSome? candidate).getD ⟨m, e⟩

/-- The digits with the point at its place and no exponent. -/
def Scaled.text (d : Scaled) : String :=
  let ds := Nat.toDigits 10 d.digits
  if 0 ≤ d.exponent then String.ofList (ds ++ List.replicate d.exponent.toNat '0')
  else
    let places := (-d.exponent).toNat
    let padded := List.replicate (places + 1 - ds.length) '0' ++ ds
    let whole := padded.length - places
    String.ofList (padded.take whole ++ '.' :: padded.drop whole)

/-- A double in decimal digits. -/
def text (x : Float) : String :=
  let bits := x.toBits.toNat
  let sign := if Nat.pow 2 63 ≤ bits then "-" else ""
  let field : Nat := bits / Nat.pow 2 52 % Nat.pow 2 11
  let fraction : Nat := bits % Nat.pow 2 52
  if field = 0x7ff then
    if fraction = 0 then sign ++ "inf" else "NaN"
  else if field = 0 then
    if fraction = 0 then sign ++ "0" else sign ++ (shortest fraction (-1074) false).text
  else
    sign ++ (shortest (Nat.pow 2 52 + fraction) (field - 1075) (fraction = 0 ∧ 1 < field)).text

end LiveCalls.Decimal

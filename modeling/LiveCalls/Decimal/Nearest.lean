/-!
# The double nearest to a fraction

Doubles are the multiples of a power of two that fit 53 binary digits. `Decimal.nearest` rounds an
exact fraction to one of them, and `Decimal.scientific` does so for digits with a power of ten.
-/

namespace LiveCalls.Decimal

/-- The whole number nearest to `num / den`; of two equally near ones, the even one. -/
def roundHalfEven (num den : Nat) : Nat :=
  let q := num / den
  let r := num % den
  if den < 2 * r ∨ 2 * r = den ∧ q % 2 = 1 then q + 1 else q

/-- The power of two by which the last of the 53 digits of `num / den` counts. Below the smallest
such power the digits run out, and the number has fewer of them. -/
def unitExponent (num den : Nat) : Int :=
  let top : Int := num.log2 - den.log2
  let reached : Bool := den * Nat.pow 2 top.toNat ≤ num * Nat.pow 2 (-top).toNat
  max (-1074) (if reached then top - 52 else top - 53)

/-- The double nearest to `num / den`, infinite beyond the largest. -/
def nearest (num den : Nat) : Float :=
  if num = 0 then 0
  else
    let e := unitExponent num den
    let digits := roundHalfEven (num * Nat.pow 2 (-e).toNat) (den * Nat.pow 2 e.toNat)
    -- a full set of digits carries its leading one into the exponent field
    let bits := digits + (e + 1074).toNat * Nat.pow 2 52
    Float.ofBits (min bits 0x7ff0000000000000).toUInt64

/-- The double nearest to `digits · 10 ^ exponent`. -/
def scientific (digits : Nat) (exponent : Int) : Float :=
  let top := (Nat.toDigits 10 digits).length + exponent
  if digits = 0 ∨ top < -330 then 0
  else if 310 < top then Float.ofBits 0x7ff0000000000000
  else nearest (digits * Nat.pow 10 exponent.toNat) (Nat.pow 10 (-exponent).toNat)

end LiveCalls.Decimal

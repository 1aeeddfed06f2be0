namespace LiveCalls

/-- The ending of an ordinal: the last digit decides, except after a tens digit of one. -/
def ordinalEnding (n : Nat) : String :=
  if n % 100 / 10 = 1 then "th"
  else match n % 10 with
    | 1 => "st"
    | 2 => "nd"
    | 3 => "rd"
    | _ => "th"

/-- The ordinal of `n` in digits, such as `1st`, `2nd` and `11th`. -/
def ordinal (n : Nat) : String := toString n ++ ordinalEnding n

end LiveCalls

namespace LiveCalls

/-- The items in one phrase, such as `a, b and c`. -/
def enumeration : List String → String
  | [] => ""
  | [last] => last
  | [a, last] => a ++ " and " ++ last
  | a :: rest => a ++ ", " ++ enumeration rest

end LiveCalls

import LiveCalls.Json.Number

namespace LiveCalls.Json

/-- How deep arrays and objects may be nested. -/
def maxDepth : Nat := 127

/-- The text from its first character that is no blank. -/
def skipBlanks (cs : List Char) : List Char :=
  cs.dropWhile fun c => c = ' ' || c = '\n' || c = '\t' || c = '\r'

def hexDigit? (c : Char) : Option Nat :=
  if c.isDigit then some (c.toNat - '0'.toNat)
  else if 'a' ≤ c ∧ c ≤ 'f' then some (c.toNat - 'a'.toNat + 10)
  else if 'A' ≤ c ∧ c ≤ 'F' then some (c.toNat - 'A'.toNat + 10)
  else none

/-- The number that four hexadecimal digits denote. -/
def hex? (a b c d : Char) : Option Nat := do
  let a ← hexDigit? a
  let b ← hexDigit? b
  let c ← hexDigit? c
  let d ← hexDigit? d
  some (((a * 16 + b) * 16 + c) * 16 + d)

/-- What a backslash with this letter stands for. -/
def escape? : Char → Option Char
  | '"' => some '"'
  | '\\' => some '\\'
  | '/' => some '/'
  | 'b' => some '\x08'
  | 'f' => some '\x0c'
  | 'n' => some '\n'
  | 'r' => some '\r'
  | 't' => some '\t'
  | _ => none

/-- The low half of a surrogate pair that is escaped at the front of a text, and the rest. -/
def lowSurrogate? : List Char → Option (Nat × List Char)
  | '\\' :: 'u' :: a :: b :: c :: d :: rest =>
    match hex? a b c d with
    | some n => if 0xdc00 ≤ n ∧ n < 0xe000 then some (n, rest) else none
    | none => none
  | _ => none

/-- The characters up to the closing quote. Half of a surrogate pair stands for no character, and
a string that holds one cannot be read. -/
def characters : Nat → List Char → Option (Option (List Char) × List Char)
  | 0, _ => none
  | fuel + 1, cs =>
    let next (c : Option Char) (rest : List Char) := do
      let (s, rest) ← characters fuel rest
      some (do return (← c) :: (← s), rest)
    match cs with
    | '"' :: rest => some (some [], rest)
    | '\\' :: 'u' :: a :: b :: c :: d :: rest => do
      let n ← hex? a b c d
      if 0xd800 ≤ n ∧ n < 0xdc00 then
        match lowSurrogate? rest with
        | some (low, rest) =>
          next (some (Char.ofNat (0x10000 + (n - 0xd800) * 0x400 + (low - 0xdc00)))) rest
        | none => next none rest
      else if 0xdc00 ≤ n ∧ n < 0xe000 then next none rest
      else next (some (Char.ofNat n)) rest
    | '\\' :: c :: rest => do
      let c ← escape? c
      next (some c) rest
    | c :: rest => if c.toNat < 0x20 then none else next (some c) rest
    | [] => none

/-- The string after its opening quote; there is none to read if a character of it is missing. -/
def scanString? (cs : List Char) : Option (Option String × List Char) := do
  let (s, rest) ← characters (cs.length + 1) cs
  some (s.map String.ofList, rest)

/-- The text behind a word, if the text starts with it. -/
def word? (word : String) (cs : List Char) : Option (List Char) :=
  if word.toList.isPrefixOf cs then some (cs.drop word.length) else none

mutual

/-- One value. `depth` more levels of nesting can be read; what is nested deeper cannot. -/
def scanValue : Nat → Nat → List Char → Option (Json × List Char)
  | 0, _, _ => none
  | fuel + 1, depth, cs =>
    match skipBlanks cs with
    | '"' :: cs => do
      let (s, cs) ← scanString? cs
      some ((s.map string).getD unreadable, cs)
    | '[' :: cs => do
      let (items, cs) ← match skipBlanks cs with
        | ']' :: cs => some ([], cs)
        | cs => scanItems fuel (depth - 1) cs
      some (if depth = 0 then unreadable else array items, cs)
    | '\x7b' :: cs => do
      let (members, cs) ← match skipBlanks cs with
        | '\x7d' :: cs => some (some [], cs)
        | cs => scanMembers fuel (depth - 1) cs
      some (if depth = 0 then unreadable else (members.map object).getD unreadable, cs)
    | 'n' :: cs => (word? "ull" cs).map (null, ·)
    | 't' :: cs => (word? "rue" cs).map (bool true, ·)
    | 'f' :: cs => (word? "alse" cs).map (bool false, ·)
    | cs => scanNumber? cs

/-- The items of an array up to its bracket; there is at least one. -/
def scanItems : Nat → Nat → List Char → Option (List Json × List Char)
  | 0, _, _ => none
  | fuel + 1, depth, cs => do
    let (item, cs) ← scanValue fuel depth cs
    match skipBlanks cs with
    | ',' :: cs => do
      let (items, cs) ← scanItems fuel depth cs
      some (item :: items, cs)
    | ']' :: cs => some ([item], cs)
    | _ => none

/-- The members of an object up to its brace; there is at least one. They cannot be read if one
of their names cannot. -/
def scanMembers : Nat → Nat → List Char → Option (Option (List (String × Json)) × List Char)
  | 0, _, _ => none
  | fuel + 1, depth, cs =>
    match skipBlanks cs with
    | '"' :: cs => do
      let (name, cs) ← scanString? cs
      match skipBlanks cs with
      | ':' :: cs => do
        let (value, cs) ← scanValue fuel depth cs
        let member := name.map (·, value)
        match skipBlanks cs with
        | ',' :: cs => do
          let (members, cs) ← scanMembers fuel depth cs
          some (do return (← member) :: (← members), cs)
        | '\x7d' :: cs => some (member.map ([·]), cs)
        | _ => none
      | _ => none
    | _ => none

end

/-- The value that a text is. -/
def parse? (text : String) : Option Json := do
  let cs := text.toList
  -- nesting costs at most two steps for a character
  let (j, rest) ← scanValue (2 * cs.length + 2) maxDepth cs
  if (skipBlanks rest).isEmpty then some j else none

end LiveCalls.Json

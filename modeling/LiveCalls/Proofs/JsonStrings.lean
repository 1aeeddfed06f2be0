import LiveCalls.Json.Reader

namespace LiveCalls.Json

mutual

/-- The strings among the values in a value, at whatever depth. The names of members are not among
them. -/
def strings : Json → List String
  | string s => [s]
  | array items => stringsAll items
  | object members => stringsOf members
  | _ => []

def stringsAll : List Json → List String
  | [] => []
  | j :: js => j.strings ++ stringsAll js

def stringsOf : List (String × Json) → List String
  | [] => []
  | (_, j) :: ms => j.strings ++ stringsOf ms

end

/-- What a text holds before its rest: it is longer than any of these strings is with the rest. -/
structure Holds (cs : List Char) (ss : List String) (rest : List Char) : Prop where
  shorter : rest.length ≤ cs.length
  strings : ∀ s ∈ ss, s.length + rest.length < cs.length

namespace Holds

variable {cs mid rest : List Char} {ss ts : List String}

theorem nil (h : rest.length ≤ cs.length) : Holds cs [] rest := ⟨h, nofun⟩

theorem after (h : Holds mid ss rest) (passed : mid.length ≤ cs.length) : Holds cs ss rest :=
  ⟨Nat.le_trans h.shorter passed, fun s hs => Nat.lt_of_lt_of_le (h.strings s hs) passed⟩

theorem before (h : Holds cs ss mid) (passed : rest.length ≤ mid.length) : Holds cs ss rest := by
  refine ⟨Nat.le_trans passed h.shorter, fun s hs => ?_⟩
  exact Nat.lt_of_le_of_lt (Nat.add_le_add_left passed s.length) (h.strings s hs)

theorem append (h : Holds cs ss mid) (later : Holds mid ts rest) : Holds cs (ss ++ ts) rest := by
  refine ⟨Nat.le_trans later.shorter h.shorter, fun s hs => ?_⟩
  rcases List.mem_append.mp hs with hs | hs
  · exact (h.before later.shorter).strings s hs
  · exact (later.after h.shorter).strings s hs

end Holds

theorem length_dropWhile (p : Char → Bool) (cs : List Char) :
    (cs.dropWhile p).length ≤ cs.length := (List.dropWhile_suffix p).length_le

theorem length_of_skipBlanks {cs rest : List Char} {c : Char} (h : skipBlanks cs = c :: rest) :
    rest.length < cs.length := by
  have passed : (skipBlanks cs).length ≤ cs.length := length_dropWhile _ cs
  rw [h] at passed
  exact passed

/-- Blanks and a character may be passed over before the strings. -/
theorem Holds.behind {cs tail rest : List Char} {ss : List String} {c : Char}
    (h : Holds tail ss rest) (next : skipBlanks cs = c :: tail) : Holds cs ss rest :=
  h.after (Nat.le_of_lt (length_of_skipBlanks next))

theorem length_lowSurrogate {cs rest : List Char} {n : Nat}
    (h : lowSurrogate? cs = some (n, rest)) : rest.length ≤ cs.length := by
  unfold lowSurrogate? at h
  split at h
  · split at h
    · split at h
      · cases h
        simp
        omega
      · cases h
    · cases h
  · cases h

theorem length_characters {fuel : Nat} {cs rest : List Char} {s : Option (List Char)}
    (h : characters fuel cs = some (s, rest)) : (s.getD []).length + rest.length < cs.length := by
  induction fuel generalizing cs s rest with
  | zero => cases h
  | succ fuel ih =>
    have next {c : Option Char} {tail : List Char} (h : (characters fuel tail).bind (fun out =>
        some (do return (← c) :: (← out.1), out.2)) = some (s, rest)) :
        (s.getD []).length + rest.length ≤ tail.length := by
      obtain ⟨⟨s', rest'⟩, read, same⟩ := Option.bind_eq_some_iff.mp h
      cases same
      have later : (s'.getD []).length + rest'.length < tail.length := ih read
      have short : (Option.getD (do return (← c) :: (← s')) []).length ≤
          (s'.getD []).length + 1 := by
        cases c <;> cases s' <;> simp
      calc _ ≤ (s'.getD []).length + 1 + rest'.length := Nat.add_le_add_right short _
        _ ≤ tail.length := by omega
    unfold characters at h
    split at h
    · cases h
      simp
    · obtain ⟨n, -, h⟩ := Option.bind_eq_some_iff.mp h
      simp only [List.length_cons]
      split at h
      · split at h
        · rename_i found
          have := length_lowSurrogate found
          have := next h
          omega
        · have := next h
          omega
      · split at h <;>
        · have := next h
          omega
    · obtain ⟨c, -, h⟩ := Option.bind_eq_some_iff.mp h
      have := next h
      simp only [List.length_cons]
      omega
    · split at h
      · cases h
      · have := next h
        simp only [List.length_cons]
        omega
    · cases h

theorem scanString_holds {cs rest : List Char} {s : Option String}
    (h : scanString? cs = some (s, rest)) : Holds cs s.toList rest := by
  obtain ⟨⟨chars, rest'⟩, read, same⟩ := Option.bind_eq_some_iff.mp h
  cases same
  have short := length_characters read
  refine ⟨by omega, fun s hs => ?_⟩
  cases chars with
  | none => cases hs
  | some chars =>
    obtain rfl := List.mem_singleton.mp hs
    rw [String.length_ofList]
    exact short

theorem length_word {word : String} {cs rest : List Char} (h : word? word cs = some rest) :
    rest.length ≤ cs.length := by
  unfold word? at h
  split at h
  · cases h
    rw [List.length_drop]
    exact Nat.sub_le ..
  · cases h

theorem length_digits {cs ds rest : List Char} (h : digits? cs = some (ds, rest)) :
    rest.length ≤ cs.length := by
  unfold digits? at h
  split at h
  · cases h
  · cases h
    exact length_dropWhile ..

theorem length_whole {cs ds rest : List Char} (h : whole? cs = some (ds, rest)) :
    rest.length ≤ cs.length := by
  obtain ⟨⟨ds, rest⟩, digits, h⟩ := Option.bind_eq_some_iff.mp h
  dsimp only at h
  split at h
  · cases h
  · cases h
    exact length_digits digits

theorem length_part {cs rest : List Char} {ds : Option (List Char)}
    (h : part? cs = some (ds, rest)) : rest.length ≤ cs.length := by
  unfold part? at h
  split at h
  · obtain ⟨⟨ds, rest⟩, digits, same⟩ := Option.map_eq_some_iff.mp h
    cases same
    exact Nat.le_succ_of_le (length_digits digits)
  · cases h
    exact Nat.le_refl _

theorem length_unsigned (cs : List Char) : (Decimal.unsigned cs).2.length ≤ cs.length := by
  unfold Decimal.unsigned
  split <;> simp

theorem length_exponent {cs rest : List Char} {n : Option Int}
    (h : exponent? cs = some (n, rest)) : rest.length ≤ cs.length := by
  have marked {cs ds rest : List Char} {c : Char}
      (digits : digits? (Decimal.unsigned cs).2 = some (ds, rest)) :
      rest.length ≤ (c :: cs).length :=
    Nat.le_succ_of_le (Nat.le_trans (length_digits digits) (length_unsigned cs))
  unfold exponent? at h
  split at h
  · obtain ⟨⟨ds, rest⟩, digits, same⟩ := Option.bind_eq_some_iff.mp h
    cases same
    exact marked digits
  · obtain ⟨⟨ds, rest⟩, digits, same⟩ := Option.bind_eq_some_iff.mp h
    cases same
    exact marked digits
  · cases h
    exact Nat.le_refl _

theorem strings_literal (l : Literal) : l.json.strings = [] := by
  unfold Literal.json
  split
  split
  · rfl
  · split
    split <;> rfl

theorem scanNumber_holds {cs rest : List Char} {j : Json} (h : scanNumber? cs = some (j, rest)) :
    Holds cs j.strings rest := by
  unfold scanNumber? at h
  simp only [Option.bind_eq_bind, Option.bind_eq_some_iff] at h
  obtain ⟨⟨whole, cs₁⟩, hw, ⟨part, cs₂⟩, hp, ⟨exponent, cs₃⟩, he, same⟩ := h
  cases same
  have unsigned : cs₁.length ≤ cs.length := by
    split at hw
    · exact Nat.le_succ_of_le (length_whole hw)
    · exact length_whole hw
  rw [strings_literal]
  exact .nil (Nat.le_trans (length_exponent he) (Nat.le_trans (length_part hp) unsigned))

theorem word_holds {word : String} {cs tail rest : List Char} {c : Char} {j j' : Json}
    (next : skipBlanks cs = c :: tail) (plain : j.strings = [])
    (h : (word? word tail).map (j, ·) = some (j', rest)) : Holds cs j'.strings rest := by
  obtain ⟨rest, read, same⟩ := Option.map_eq_some_iff.mp h
  cases same
  rw [plain]
  exact (Holds.nil (length_word read)).behind next

mutual

theorem scanValue_holds : (fuel depth : Nat) → {cs rest : List Char} → {j : Json} →
    scanValue fuel depth cs = some (j, rest) → Holds cs j.strings rest
  | 0, _, _, _, _, h => by cases h
  | fuel + 1, depth, cs, rest, j, h => by
    rw [scanValue] at h
    split at h
    case h_1 tail next =>
      obtain ⟨⟨s, rest'⟩, read, same⟩ := Option.bind_eq_some_iff.mp h
      cases same
      have holds := (scanString_holds read).behind next
      cases s with
      | none => exact holds
      | some s => exact holds
    case h_2 tail next =>
      have array {items : List Json} (holds : Holds tail (stringsAll items) rest) :
          Holds cs (if depth = 0 then unreadable else array items).strings rest := by
        split
        · exact .nil (holds.behind next).shorter
        · exact holds.behind next
      dsimp only at h
      split at h
      · rename_i close
        cases h
        exact array ((Holds.nil (Nat.le_refl _)).behind close)
      · obtain ⟨⟨items, rest'⟩, read, same⟩ := Option.bind_eq_some_iff.mp h
        cases same
        exact array ((scanItems_holds fuel (depth - 1) read).after (length_dropWhile ..))
    case h_3 tail next =>
      have object {members : Option (List (String × Json))}
          (holds : Holds tail (stringsOf (members.getD [])) rest) :
          Holds cs (if depth = 0 then unreadable
            else (members.map object).getD unreadable).strings rest := by
        split
        · exact .nil (holds.behind next).shorter
        · cases members with
          | none => exact holds.behind next
          | some ms => exact holds.behind next
      dsimp only at h
      split at h
      · rename_i close
        cases h
        exact object ((Holds.nil (Nat.le_refl _)).behind close)
      · obtain ⟨⟨members, rest'⟩, read, same⟩ := Option.bind_eq_some_iff.mp h
        cases same
        exact object ((scanMembers_holds fuel (depth - 1) read).after (length_dropWhile ..))
    case h_4 tail next => exact word_holds next rfl h
    case h_5 tail next => exact word_holds next rfl h
    case h_6 tail next => exact word_holds next rfl h
    case h_7 => exact (scanNumber_holds h).after (length_dropWhile ..)

theorem scanItems_holds : (fuel depth : Nat) → {cs rest : List Char} → {js : List Json} →
    scanItems fuel depth cs = some (js, rest) → Holds cs (stringsAll js) rest
  | 0, _, _, _, _, h => by cases h
  | fuel + 1, depth, cs, rest, js, h => by
    rw [scanItems] at h
    obtain ⟨⟨item, mid⟩, read, h⟩ := Option.bind_eq_some_iff.mp h
    have first := scanValue_holds fuel depth read
    dsimp only at h
    split at h
    · rename_i next
      obtain ⟨⟨items, rest'⟩, read, same⟩ := Option.bind_eq_some_iff.mp h
      cases same
      exact first.append ((scanItems_holds fuel depth read).behind next)
    · rename_i close
      cases h
      exact first.append ((Holds.nil (Nat.le_refl _)).behind close)
    · cases h

theorem scanMembers_holds : (fuel depth : Nat) → {cs rest : List Char} →
    {ms : Option (List (String × Json))} → scanMembers fuel depth cs = some (ms, rest) →
    Holds cs (stringsOf (ms.getD [])) rest
  | 0, _, _, _, _, h => by cases h
  | fuel + 1, depth, cs, rest, ms, h => by
    rw [scanMembers] at h
    split at h
    case h_2 => cases h
    case h_1 tail next =>
      obtain ⟨⟨name, tail₁⟩, named, h⟩ := Option.bind_eq_some_iff.mp h
      dsimp only at h
      split at h
      case h_2 => cases h
      case h_1 tail₂ colon =>
        obtain ⟨⟨value, tail₃⟩, read, h⟩ := Option.bind_eq_some_iff.mp h
        have passed : tail₂.length ≤ cs.length :=
          ((Holds.nil (Nat.le_refl _)).behind colon |>.after (scanString_holds named).shorter
            |>.behind next).shorter
        have first := (scanValue_holds fuel depth read).after passed
        dsimp only at h
        split at h
        · rename_i comma
          obtain ⟨⟨members, rest'⟩, more, same⟩ := Option.bind_eq_some_iff.mp h
          cases same
          have all := first.append ((scanMembers_holds fuel depth more).behind comma)
          cases name with
          | none => exact .nil all.shorter
          | some name =>
            cases members with
            | none => exact .nil all.shorter
            | some ms => exact all
        · rename_i close
          cases h
          have all := first.append ((Holds.nil (Nat.le_refl _)).behind close)
          cases name with
          | none => exact .nil all.shorter
          | some name => exact all
        · cases h

end

/-- A string in the JSON that a text is, is shorter than the text. -/
theorem length_of_mem_strings {text s : String} {j : Json} (h : parse? text = some j)
    (hs : s ∈ j.strings) : s.length < text.length := by
  obtain ⟨⟨j', rest⟩, read, h⟩ := Option.bind_eq_some_iff.mp h
  dsimp only at h
  split at h
  · cases h
    have short := (scanValue_holds _ _ read).strings s hs
    rw [String.length_toList] at short
    omega
  · cases h

end LiveCalls.Json

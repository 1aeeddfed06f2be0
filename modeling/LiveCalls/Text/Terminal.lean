/-!
# Text on a terminal

A terminal obeys some characters instead of showing them. In text that is meant to be read they are
written by their codes, so that it cannot ring the bell, move the cursor or recolour the screen.
Line ends and tabs stay as they are.
-/

namespace LiveCalls

/-- Whether a terminal obeys the character: bell, backspace, form feed, escape and delete, and the
controls from U+0080 to U+009F. -/
def isObeyed (c : Char) : Bool :=
  c = '\x07' || c = '\x08' || c = '\x0c' || c = '\x1b' || c = '\x7f' ||
    (0x80 ≤ c.toNat && c.toNat ≤ 0x9f)

/-- How one character is shown: one that is obeyed by two hexadecimal digits, or by its code point
beyond ASCII. -/
def shown (c : Char) : List Char :=
  if isObeyed c then
    let digits := [Nat.digitChar (c.toNat / 16), Nat.digitChar (c.toNat % 16)]
    if c.toNat < 0x80 then '\\' :: 'x' :: digits else '\\' :: 'u' :: '\x7b' :: digits ++ ['\x7d']
  else [c]

/-- The text with every character shown. -/
def legible (s : String) : String := String.ofList (s.toList.flatMap shown)

theorem isObeyed_digitChar (n : Nat) : isObeyed n.digitChar = false := by
  simp only [Nat.digitChar, apply_ite isObeyed]
  simp [isObeyed]

/-- What is shown for a character is not obeyed. -/
theorem isObeyed_of_mem_shown {c d : Char} (h : d ∈ shown c) : isObeyed d = false := by
  unfold shown at h
  split at h
  · split at h <;>
      simp only [List.mem_cons, List.cons_append, List.nil_append, List.not_mem_nil, or_false] at h
    · rcases h with rfl | rfl | rfl | rfl
      · rfl
      · rfl
      · exact isObeyed_digitChar _
      · exact isObeyed_digitChar _
    · rcases h with rfl | rfl | rfl | rfl | rfl | rfl
      · rfl
      · rfl
      · rfl
      · exact isObeyed_digitChar _
      · exact isObeyed_digitChar _
      · rfl
  · rename_i hc
    obtain rfl := List.mem_singleton.mp h
    simpa using hc

/-- Legible text holds no character that a terminal obeys. -/
theorem isObeyed_of_mem_legible {s : String} {c : Char} (h : c ∈ (legible s).toList) :
    isObeyed c = false := by
  simp only [legible, String.toList_ofList, List.mem_flatMap] at h
  obtain ⟨_, _, h⟩ := h
  exact isObeyed_of_mem_shown h

end LiveCalls

/-!
# Raw text

What the system has for names and paths: bytes, which are those of a text as a rule, and need not
be.
-/

namespace LiveCalls

theorem fromUTF8?_toUTF8 (text : String) : String.fromUTF8? text.toUTF8 = some text := by
  unfold String.fromUTF8?
  split
  · rfl
  · rename_i invalid
    exact absurd text.isValidUTF8 invalid

theorem toUTF8_of_fromUTF8? {bytes : ByteArray} {text : String}
    (h : String.fromUTF8? bytes = some text) : text.toUTF8 = bytes := by
  unfold String.fromUTF8? at h
  split at h
  · cases h
    rfl
  · cases h

/-- Bytes that stand for a text, whether or not they are UTF-8. -/
structure RawText where
  bytes : List UInt8
  deriving DecidableEq, Repr, Inhabited

namespace RawText

instance : Ord RawText := ⟨fun t t' => compare t.bytes t'.bytes⟩

instance : Std.TransOrd RawText where
  eq_swap {t t'} := Std.OrientedOrd.eq_swap (a := t.bytes) (b := t'.bytes)
  isLE_trans {_ t' _} := Std.TransOrd.isLE_trans (b := t'.bytes)

instance : Std.LawfulEqOrd RawText where
  compare_self {t} := Std.ReflOrd.compare_self (a := t.bytes)
  eq_of_compare {t t'} h := by
    obtain ⟨bytes⟩ := t
    obtain ⟨bytes'⟩ := t'
    exact congrArg mk (Std.LawfulEqOrd.eq_of_compare h)

def ofText (s : String) : RawText := ⟨s.toUTF8.data.toList⟩

instance : Coe String RawText := ⟨ofText⟩

/-- The text that these are the bytes of, if there is one. -/
def text? (t : RawText) : Option String := String.fromUTF8? ⟨t.bytes.toArray⟩

theorem text?_ofText (s : String) : (ofText s).text? = some s := fromUTF8?_toUTF8 s

theorem text?_eq_some_iff {t : RawText} {s : String} : t.text? = some s ↔ t = s := by
  constructor
  · intro h
    have bytes : s.toUTF8 = ⟨t.bytes.toArray⟩ := toUTF8_of_fromUTF8? h
    rw [ofText, bytes]
  · rintro rfl
    exact text?_ofText s

theorem ofText_inj {s s' : String} : ofText s = ofText s' ↔ s = s' := by
  rw [← text?_eq_some_iff, text?_ofText, Option.some.injEq]

/-- Whether a byte can be the last of a character of several. -/
def isTail (b : UInt8) : Bool := 0x80 ≤ b && b ≤ 0xBF

/-- Whether a character of more than two bytes can begin with these two. -/
def begins (a b : UInt8) : Bool :=
  if a = 0xE0 then 0xA0 ≤ b && b ≤ 0xBF
  else if a = 0xED then 0x80 ≤ b && b ≤ 0x9F
  else if a = 0xF0 then 0x90 ≤ b && b ≤ 0xBF
  else if a = 0xF4 then 0x80 ≤ b && b ≤ 0x8F
  else 0xE1 ≤ a && a ≤ 0xF3 && isTail b

/-- How many bytes a character has that breaks off: as many as could be the beginning of one. -/
def brokenSize : List UInt8 → Nat
  | a :: b :: rest =>
    if begins a b then
      if 0xF0 ≤ a && rest.head?.any isTail then 3 else 2
    else 1
  | _ => 1

/-- The text as far as the bytes are one, with a sign in place of each character that breaks off.
The first `skip` bytes belong to what is shown already. -/
def mended (skip : Nat) : List UInt8 → List Char
  | [] => []
  | b :: rest =>
    match skip with
    | skip + 1 => mended skip rest
    | 0 =>
      match ByteArray.utf8DecodeChar? ⟨(b :: rest).toArray⟩ 0 with
      | some c => c :: mended (c.utf8Size - 1) rest
      | none => '\uFFFD' :: mended (brokenSize (b :: rest) - 1) rest

def shown (t : RawText) : String :=
  match t.text? with
  | some s => s
  | none => String.ofList (mended 0 t.bytes)

end RawText

end LiveCalls

import Mathlib.Data.List.Basic

/-! Texts as sequences of UTF-16 code units, the way scripting languages index and
measure them. A sequence of units need not be a text; a lone surrogate is read as the
replacement character. -/

namespace SlothBox.Library.Utf16

def encodeChar (c : Char) : List Nat :=
  if c.toNat < 0x10000 then [c.toNat]
  else [0xd800 + (c.toNat - 0x10000) / 0x400, 0xdc00 + (c.toNat - 0x10000) % 0x400]

def encode (text : List Char) : List Nat := text.flatMap encodeChar

/-- The length of a string as scripts see it. -/
def length (text : String) : Nat := (encode text.toList).length

def isHigh (unit : Nat) : Bool := 0xd800 ≤ unit && unit < 0xdc00

def isLow (unit : Nat) : Bool := 0xdc00 ≤ unit && unit < 0xe000

def decode : List Nat → List Char
  | [] => []
  | unit :: rest =>
    if isHigh unit then
      match rest with
      | [] => ['\uFFFD']
      | next :: more =>
        if isLow next then Char.ofNat (0x10000 + (unit - 0xd800) * 0x400 + (next - 0xdc00)) :: decode more
        else '\uFFFD' :: decode (next :: more)
    else if isLow unit then '\uFFFD' :: decode rest
    else Char.ofNat unit :: decode rest

@[simp] theorem encode_nil : encode [] = [] := rfl

@[simp] theorem encode_cons (c : Char) (text : List Char) : encode (c :: text) = encodeChar c ++ encode text := rfl

private theorem toNat_bounds (c : Char) : c.toNat < 0x110000 ∧ (c.toNat < 0xd800 ∨ 0xe000 ≤ c.toNat) := by
  have valid : c.toNat.isValidChar := c.valid
  unfold Nat.isValidChar at valid
  omega

theorem decode_append (c : Char) (units : List Nat) : decode (encodeChar c ++ units) = c :: decode units := by
  obtain ⟨range, outside⟩ := toNat_bounds c
  unfold encodeChar
  split
  next basic =>
    have high : isHigh c.toNat = false := by
      simp only [isHigh, Bool.and_eq_false_iff, decide_eq_false_iff_not]
      omega
    have low : isLow c.toNat = false := by
      simp only [isLow, Bool.and_eq_false_iff, decide_eq_false_iff_not]
      omega
    rw [List.singleton_append]
    conv_lhs => unfold decode
    simp only [high, low, Bool.false_eq_true, ↓reduceIte, Char.ofNat_toNat]
  next =>
    have high : isHigh (0xd800 + (c.toNat - 0x10000) / 0x400) = true := by
      simp only [isHigh, Bool.and_eq_true, decide_eq_true_eq]
      omega
    have low : isLow (0xdc00 + (c.toNat - 0x10000) % 0x400) = true := by
      simp only [isLow, Bool.and_eq_true, decide_eq_true_eq]
      omega
    have joined : 0x10000 + (0xd800 + (c.toNat - 0x10000) / 0x400 - 0xd800) * 0x400 +
        (0xdc00 + (c.toNat - 0x10000) % 0x400 - 0xdc00) = c.toNat := by
      omega
    rw [List.cons_append, List.singleton_append]
    conv_lhs => unfold decode
    simp only [high, low, ↓reduceIte, joined, Char.ofNat_toNat]

theorem decode_encode (text : List Char) : decode (encode text) = text := by
  induction text with
  | nil => rfl
  | cons c text ih => rw [encode_cons, decode_append, ih]

end SlothBox.Library.Utf16

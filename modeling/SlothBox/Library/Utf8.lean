import SlothBox.Library.Bytes

/-! UTF-8 as a code: no character's encoding begins another's, so a text is
determined by its octets, also in front of octets that are not its own. The decoder
is the forgiving one of the web platform. -/

namespace SlothBox.Library.Utf8

def encode (text : List Char) : Bytes := text.flatMap String.utf8EncodeChar

@[simp] theorem encode_nil : encode [] = [] := rfl

@[simp] theorem encode_cons (c : Char) (text : List Char) :
    encode (c :: text) = String.utf8EncodeChar c ++ encode text := rfl

@[simp] theorem encode_append (first second : List Char) : encode (first ++ second) = encode first ++ encode second := by
  simp [encode]

/-- A character is read off the front of any octets that begin with it. -/
theorem char_cancel {c d : Char} {first second : Bytes}
    (same : String.utf8EncodeChar c ++ first = String.utf8EncodeChar d ++ second) : c = d ∧ first = second := by
  have joined : (String.utf8EncodeChar c).toByteArray ++ first.toByteArray =
      (String.utf8EncodeChar d).toByteArray ++ second.toByteArray := by
    simpa using congrArg List.toByteArray same
  have decoded : ((String.utf8EncodeChar c).toByteArray ++ first.toByteArray).utf8DecodeChar? 0 = some c :=
    ByteArray.utf8DecodeChar?_utf8EncodeChar_append
  rw [joined, ByteArray.utf8DecodeChar?_utf8EncodeChar_append] at decoded
  cases decoded
  exact ⟨rfl, List.append_cancel_left same⟩

/-- Texts of equally many characters are told apart before whatever follows them. -/
theorem encode_cancel {first second : List Char} {rest other : Bytes} (length : first.length = second.length)
    (same : encode first ++ rest = encode second ++ other) : first = second ∧ rest = other := by
  induction first generalizing second with
  | nil =>
    cases List.eq_nil_of_length_eq_zero length.symm
    exact ⟨rfl, same⟩
  | cons c text ih =>
    cases second with
    | nil => cases length
    | cons d more =>
      simp only [encode_cons, List.append_assoc] at same
      obtain ⟨rfl, remaining⟩ := char_cancel same
      obtain ⟨rfl, rfl⟩ := ih (Nat.succ.inj length) remaining
      exact ⟨rfl, rfl⟩

theorem encode_inj {first second : List Char} (same : encode first = encode second) : first = second := by
  induction first generalizing second with
  | nil =>
    cases second with
    | nil => rfl
    | cons d more => simp [String.utf8EncodeChar_ne_nil] at same
  | cons c text ih =>
    cases second with
    | nil => simp [String.utf8EncodeChar_ne_nil] at same
    | cons d more =>
      obtain ⟨rfl, remaining⟩ := char_cancel same
      rw [ih remaining]

/-! ### Decoding -/

def isContinuation (octet : UInt8) : Bool := 0x80 ≤ octet && octet ≤ 0xbf

/-- What may follow a lead octet of three or four. -/
def isSecond (lead second : UInt8) : Bool :=
  if lead = 0xe0 then 0xa0 ≤ second && second ≤ 0xbf
  else if lead = 0xed then 0x80 ≤ second && second ≤ 0x9f
  else if lead = 0xf0 then 0x90 ≤ second && second ≤ 0xbf
  else if lead = 0xf4 then 0x80 ≤ second && second ≤ 0x8f
  else 0xe1 ≤ lead && lead ≤ 0xf3 && isContinuation second

/-- How many octets one replacement character stands for: the longest beginning of a
character, but at least one. -/
def illFormed : Bytes → Nat
  | lead :: second :: third :: _ =>
    if isSecond lead second then (if 0xf0 ≤ lead && isContinuation third then 3 else 2) else 1
  | [lead, second] => if isSecond lead second then 2 else 1
  | _ => 1

/-- Every turn takes at least one octet, so the number of octets is enough fuel. -/
def decodeLossy : Nat → Bytes → List Char
  | 0, _ => []
  | _, [] => []
  | fuel + 1, octet :: rest =>
    match (octet :: rest).toByteArray.utf8DecodeChar? 0 with
    | some c => c :: decodeLossy fuel ((octet :: rest).drop c.utf8Size)
    | none => '\uFFFD' :: decodeLossy fuel ((octet :: rest).drop (illFormed (octet :: rest)))

/-- Decoding without a byte order mark. -/
def decode (bytes : Bytes) : List Char := decodeLossy bytes.length bytes

/-- `new TextDecoder().decode(bytes)`: a byte order mark at the front is dropped. -/
def decodeText (bytes : Bytes) : List Char :=
  decode (if [0xef, 0xbb, 0xbf].isPrefixOf bytes then bytes.drop 3 else bytes)

theorem decodeLossy_encode {fuel : Nat} {text : List Char} (enough : (encode text).length ≤ fuel) :
    decodeLossy fuel (encode text) = text := by
  induction text generalizing fuel with
  | nil => cases fuel <;> rfl
  | cons c text ih =>
    have size : (String.utf8EncodeChar c).length = c.utf8Size := String.length_utf8EncodeChar c
    rw [encode_cons, List.length_append, size] at enough
    have positive := c.utf8Size_pos
    obtain ⟨fuel, rfl⟩ : ∃ more, fuel = more + 1 := ⟨fuel - 1, by omega⟩
    obtain ⟨octet, rest, front⟩ := List.exists_cons_of_ne_nil (List.append_ne_nil_of_left_ne_nil
      (String.utf8EncodeChar_ne_nil (c := c)) (encode text))
    have read : (octet :: rest).toByteArray.utf8DecodeChar? 0 = some c := by
      rw [← front, List.toByteArray_append]
      exact ByteArray.utf8DecodeChar?_utf8EncodeChar_append
    have behind : (octet :: rest).drop c.utf8Size = encode text := by
      rw [← front, ← size, List.drop_left]
    rw [encode_cons, front, decodeLossy, read]
    dsimp only
    rw [behind, ih (by omega)]

theorem decode_encode (text : List Char) : decode (encode text) = text := decodeLossy_encode (Nat.le_refl _)

/-- A text that starts with an ASCII character has no byte order mark. -/
theorem decodeText_encode {c : Char} {octet : UInt8} (text : List Char) (ascii : String.utf8EncodeChar c = [octet])
    (plain : octet ≠ 0xef) : decodeText (encode (c :: text)) = c :: text := by
  rw [decodeText, if_neg, decode_encode]
  rw [encode_cons, ascii]
  simp [List.isPrefixOf, Ne.symm plain]

end SlothBox.Library.Utf8

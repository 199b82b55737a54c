import SlothBox.Download

/-! Encodings and guards of `crypto-core`: what a call that returns has checked, that
the encoders have inverses, and that the additional data of a chunk names its share and
its index. -/

namespace SlothBox.Proofs
open Library

/-! ### Encodings -/

theorem utf16_length_basic {text : List Char} (basic : ∀ c ∈ text, c.toNat < 0x10000) :
    Utf16.length (String.ofList text) = text.length := by
  rw [Utf16.length, String.toList_ofList]
  induction text with
  | nil => rfl
  | cons c text ih =>
    obtain ⟨first, others⟩ := List.forall_mem_cons.mp basic
    rw [Utf16.encode_cons, List.length_append, ih others, Utf16.encodeChar, if_pos first]
    exact Nat.add_comm _ _

theorem urlChar_lt {c : Char} (urlSafe : Base64.IsUrlChar c) : c.toNat < 0x80 := by
  rcases urlSafe with letter | rfl | rfl
  · have ranges : ((decide (c.val ≥ 'A'.val ∧ c.val ≤ 'Z'.val) || decide (c.val ≥ 'a'.val) && decide (c.val ≤ 'z'.val)) ||
        decide (c.val ≥ '0'.val) && decide (c.val ≤ '9'.val)) = true := letter
    simp only [Bool.or_eq_true, Bool.and_eq_true, decide_eq_true_eq, ge_iff_le, UInt32.le_iff_toNat_le] at ranges
    have number : c.toNat = c.val.toNat := rfl
    simp at ranges
    omega
  · decide
  · decide

theorem utf16_length_base64 (bytes : Bytes) :
    Utf16.length (bytesToBase64Url bytes) = (bytes.length * 4 + 2) / 3 := by
  rw [bytesToBase64Url, utf16_length_basic, Base64.length_encodeUrl]
  intro c inside
  exact Nat.lt_trans (urlChar_lt (Base64.encodeUrl_chars bytes c inside)) (by decide)

/-- A code unit takes one to three octets. -/
theorem utf16_length_bounds (text : String) :
    Utf16.length text ≤ (stringToBytes text).length ∧ (stringToBytes text).length ≤ 3 * Utf16.length text := by
  unfold Utf16.length stringToBytes
  induction text.toList with
  | nil => exact ⟨Nat.le_refl _, Nat.le_refl _⟩
  | cons c rest ih =>
    have char : (Utf16.encodeChar c).length ≤ c.utf8Size ∧ c.utf8Size ≤ 3 * (Utf16.encodeChar c).length := by
      have four : c.utf8Size = 4 ↔ 0xffff < c.toNat := by
        rw [Char.utf8Size_eq_four_iff, UInt32.lt_iff_toNat_lt]
        rfl
      have positive := c.utf8Size_pos
      have most := c.utf8Size_le_four
      unfold Utf16.encodeChar
      split <;> simp only [List.length_cons, List.length_nil] <;> omega
    simp only [Utf16.encode_cons, Utf8.encode_cons, List.length_append, String.length_utf8EncodeChar]
    omega

theorem base64_roundtrip (bytes : Bytes) : base64UrlToBytes (bytesToBase64Url bytes) = .ok bytes := by
  have length : Utf16.length (bytesToBase64Url bytes) = (Base64.encodeUrl bytes).length := by
    rw [utf16_length_base64, Base64.length_encodeUrl]
  rw [base64UrlToBytes, length, bytesToBase64Url, String.toList_ofList, Base64.ofUrl_encodeUrl, Base64.atob_encode]
  rfl

/-! ### Additional data -/

theorem buildChunkAad_ok {shareId : String} {index : Nat} {aad : Bytes} :
    buildChunkAad shareId index = .ok aad ↔ (stringToBytes shareId).length ≤ 0xffff ∧
      aad = u16be (stringToBytes shareId).length ++ stringToBytes shareId ++ u32be index := by
  simp only [buildChunkAad, bind_ok, throwIf_ok, Nat.not_lt, exists_const, pure, Except.pure, Except.ok.injEq]
  exact and_congr_right fun _ => eq_comm

theorem buildChunkAad_inj {first second : String} {i j : Nat} {aad : Bytes} (built : buildChunkAad first i = .ok aad)
    (built' : buildChunkAad second j = .ok aad) (small : i < 2 ^ 32) (small' : j < 2 ^ 32) :
    first = second ∧ i = j := by
  obtain ⟨short, same⟩ := buildChunkAad_ok.mp built
  obtain ⟨short', same'⟩ := buildChunkAad_ok.mp built'
  rw [same'] at same
  simp only [List.append_assoc] at same
  obtain ⟨lengths, rest⟩ := List.append_inj same rfl
  have length := u16be_inj (Nat.lt_succ_of_le short') (Nat.lt_succ_of_le short) lengths
  obtain ⟨names, indices⟩ := List.append_inj rest length
  exact ⟨String.toList_injective (Utf8.encode_inj names.symm), (u32be_inj small' small indices).symm⟩

/-! ### Guards -/

section Primitives
variable {sodium : Sodium}

theorem encryptChunk_ok {plaintext key nonce aad ciphertext : Bytes} :
    encryptChunk sodium plaintext key nonce aad = .ok ciphertext ↔
      key.length = 32 ∧ nonce.length = 24 ∧ ciphertext = sodium.aeadEncrypt plaintext aad nonce key := by
  simp only [encryptChunk, bind_ok, throwIf_ok, not_not, exists_const, pure, Except.pure, Except.ok.injEq]
  exact and_congr_right fun _ => and_congr_right fun _ => eq_comm

theorem decryptChunk_ok {ciphertext key nonce aad plaintext : Bytes} :
    decryptChunk sodium ciphertext key nonce aad = .ok plaintext ↔
      key.length = 32 ∧ nonce.length = 24 ∧ 16 ≤ ciphertext.length ∧
        sodium.aeadDecrypt ciphertext aad nonce key = some plaintext := by
  simp only [decryptChunk, bind_ok, throwIf_ok, not_not, Nat.not_lt, exists_const]
  refine and_congr_right fun _ => and_congr_right fun _ => and_congr_right fun _ => ?_
  cases sodium.aeadDecrypt ciphertext aad nonce key <;> simp

end Primitives

end SlothBox.Proofs

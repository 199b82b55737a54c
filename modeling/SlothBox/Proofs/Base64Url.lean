import SlothBox.Proofs.Creation
import SlothBox.Proofs.Tokens

/-! base64url across the browser, the gateway and the ingest service. What one of them
encodes, all of them read; but they do not refuse the same texts. -/

namespace SlothBox.Proofs
open Library

/-! ### Encoding -/

/-- As utils.ts writes it. -/
theorem bytesToBase64Url_eq (bytes : Bytes) : bytesToBase64Url bytes = String.ofList
    ((((Base64.encode bytes).map (Base64.replaceChar '+' '-')).map (Base64.replaceChar '/' '_')).rdropWhile (· == '=')) := by
  rw [bytesToBase64Url, Base64.encodeUrl_of_replace]

/-- As shares.ts writes it. -/
theorem encodeBase64Url_eq (buf : Bytes) : encodeBase64Url buf = String.ofList
    ((((Base64.encode buf).map (Base64.replaceChar '+' '-')).map (Base64.replaceChar '/' '_')).rdropWhile (· == '=')) := by
  rw [encodeBase64Url, Base64.encodeUrl_of_replace]

theorem downloadEndpoint_encodes (data : Bytes) : DownloadEndpoint.encodeBase64Url data = encodeBase64Url data := by
  rw [DownloadEndpoint.encodeBase64Url, Base64.encodeUrl_of_trim, encodeBase64Url]

theorem utf16_encode_basic {text : List Char} (basic : ∀ c ∈ text, c.toNat < 0x10000) :
    Utf16.encode text = text.map Char.toNat := by
  induction text with
  | nil => rfl
  | cons c rest ih =>
    obtain ⟨first, others⟩ := List.forall_mem_cons.mp basic
    rw [Utf16.encode_cons, Utf16.encodeChar, if_pos first, ih others]
    rfl

/-- The gateway's decoder is as forgiving as `Buffer.from`, which reads whatever `atob` reads. -/
theorem decodeBase64Url_encoded {bytes : Bytes} (filled : bytes ≠ []) :
    decodeBase64Url (Utf16.encode (encodeBase64Url bytes).toList) = .ok bytes := by
  have spelt : (encodeBase64Url bytes).toList = Base64.encodeUrl bytes := String.toList_ofList
  have urlSafe := Base64.encodeUrl_chars bytes
  have units : (Utf16.encode (encodeBase64Url bytes).toList).map Char.ofNat = Base64.encodeUrl bytes := by
    rw [spelt, utf16_encode_basic fun c member => Nat.lt_trans (urlChar_lt (urlSafe c member)) (by decide),
      List.map_map]
    exact (List.map_congr_left fun c _ => Char.ofNat_toNat c).trans (List.map_id _)
  have width : (Utf16.encode (encodeBase64Url bytes).toList).length = (Base64.encodeUrl bytes).length := by
    rw [← units, List.length_map]
  have longer : 0 < bytes.length := List.length_pos_iff.mpr filled
  refine decodeBase64Url_ok.mpr ⟨?_, ?_, ?_⟩
  · apply List.ne_nil_of_length_pos
    rw [width, Base64.length_encodeUrl]
    omega
  · intro unit member
    have inside : Char.ofNat unit ∈ Base64.encodeUrl bytes := units ▸ List.mem_map_of_mem member
    rcases urlSafe _ inside with letter | minus | score
    · simp [isBase64UrlChar, letter]
    · simp [isBase64UrlChar, minus]
    · simp [isBase64UrlChar, score]
  · rw [units, width, Base64.ofUrl_encodeUrl]
    exact (Base64.bufferFrom_of_fromBase64String (Base64.visible_encode bytes) (Base64.fromBase64String_encode bytes)).symm

/-- One encoding, whoever encodes, and every decoder takes it back. The two decoders of
the services do not take the empty text. -/
theorem base64url_roundtrips (bytes : Bytes) :
    (bytesToBase64Url bytes = encodeBase64Url bytes ∧ DownloadEndpoint.encodeBase64Url bytes = encodeBase64Url bytes) ∧
      (∀ c ∈ (encodeBase64Url bytes).toList, Base64.IsUrlChar c) ∧
      base64UrlToBytes (encodeBase64Url bytes) = .ok bytes ∧
      (bytes ≠ [] → decodeBase64Url (Utf16.encode (encodeBase64Url bytes).toList) = .ok bytes ∧
        tryDecodeBase64Url (encodeBase64Url bytes) = some bytes) := by
  have same : bytesToBase64Url bytes = encodeBase64Url bytes :=
    (bytesToBase64Url_eq bytes).trans (encodeBase64Url_eq bytes).symm
  refine ⟨⟨same, downloadEndpoint_encodes bytes⟩, ?_, same ▸ base64_roundtrip bytes, fun filled => ⟨?_, ?_⟩⟩
  · rw [encodeBase64Url, String.toList_ofList]
    exact Base64.encodeUrl_chars bytes
  · exact decodeBase64Url_encoded filled
  · exact same ▸ tryDecode_base64 (List.length_pos_iff.mpr filled)

/-! ### Decoding -/

/-- The decoding inside `extractRevokeTokenHash`, of what stands behind the scheme. -/
def bearerBytes (token : List Char) : Option Bytes :=
  if token.isEmpty || !token.all isBase64UrlChar then none
  else some (Base64.bufferFrom ((token ++ Base64.padding token.length).map Base64.ofUrlChar))

theorem extractRevokeTokenHash_eq (sha256 : Bytes → Bytes) (authHeader : Option String) :
    extractRevokeTokenHash sha256 authHeader = (do
      let header ← authHeader
      if !"Bearer".toList.isPrefixOf header.toList then none
      let rest := header.toList.drop 6
      if !rest.head?.any isSpace then none
      let raw ← bearerBytes (rest.dropWhile isSpace)
      if raw.length ≠ 32 then none
      return sha256 raw) := by
  cases authHeader with
  | none => rfl
  | some header =>
    simp only [extractRevokeTokenHash, bearerBytes, Option.bind_eq_bind, Option.bind_some]
    split
    next => rfl
    split
    next => rfl
    split
    next => rfl
    next => rfl

/-- The characters that end up in the standard alphabet when the URL-safe pair is replaced. -/
def isLenientChar (c : Char) : Bool := isBase64UrlChar c || c == '+' || c == '/'

/-- The texts that the ingest service can read: white space aside, both alphabets in
groups of four, where the fillers that are missing have been put at the end. -/
def Lenient (text : List Char) : Prop :=
  text.length % 4 ≠ 1 ∧ ∃ body k, k ≤ 2 ∧
    Base64.visible text ++ Base64.padding text.length = body ++ List.replicate k '=' ∧ (body.length + k) % 4 = 0 ∧
      ∀ c ∈ body, isLenientChar c

theorem sextet_isSome {c : Char} : (Base64.sextet? c).isSome ↔ c.isAlphanum ∨ c = '+' ∨ c = '/' := by
  have ranges : c.isAlphanum = true ↔ ('A' ≤ c ∧ c ≤ 'Z') ∨ ('a' ≤ c ∧ c ≤ 'z') ∨ ('0' ≤ c ∧ c ≤ '9') := by
    have spelled : c.isAlphanum = ((decide ('A' ≤ c ∧ c ≤ 'Z') || decide ('a' ≤ c) && decide (c ≤ 'z')) ||
        decide ('0' ≤ c) && decide (c ≤ '9')) := rfl
    simp only [spelled, Bool.or_eq_true, Bool.and_eq_true, decide_eq_true_eq, or_assoc]
  rw [ranges, Base64.sextet?]
  split
  next upper => simp [upper]
  next upper =>
  split
  next lower => simp [lower]
  next lower =>
  split
  next digit => simp [digit]
  next digit =>
  split
  next plus => simp [plus]
  next plus =>
  split
  next slash => simp [slash]
  next slash => simp [upper, lower, digit, plus, slash]

theorem sextet_ofUrlChar {c : Char} : (Base64.sextet? (Base64.ofUrlChar c)).isSome ↔ isLenientChar c := by
  rw [sextet_isSome, Base64.ofUrlChar]
  simp only [isLenientChar, isBase64UrlChar, Bool.or_eq_true, beq_iff_eq]
  split
  next minus => simp [minus]
  next minus =>
  split
  next score => simp [score]
  next score => simp [minus, score, or_assoc]

private theorem visible_ofUrlChar (text : List Char) :
    Base64.visible (text.map Base64.ofUrlChar) = (Base64.visible text).map Base64.ofUrlChar := by
  rw [Base64.visible, Base64.visible, List.filter_map]
  congr 1
  apply List.filter_congr
  intro c _
  rw [Function.comp_apply, Base64.ofUrlChar]
  split
  next minus => simp [minus]
  next =>
  split
  next score => simp [score]
  next => rfl

private theorem visible_padding (text : List Char) (n : Nat) :
    Base64.visible (text ++ Base64.padding n) = Base64.visible text ++ Base64.padding n := by
  have filler : Base64.visible (Base64.padding n) = Base64.padding n := by simp [Base64.visible, Base64.padding]
  rw [Base64.visible, List.filter_append]
  exact congrArg (_ ++ ·) filler

/-- The padding of the ingest service is the common one. -/
theorem tryDecode_eq {text : String} (filled : text ≠ "") : tryDecodeBase64Url text =
    if text.toList.length % 4 = 1 then none
    else Base64.fromBase64String (text.toList.map Base64.ofUrlChar ++ Base64.padding text.toList.length) := by
  have nonempty : text.isEmpty = false := by rwa [← Bool.not_eq_true, String.isEmpty_iff]
  have residues : text.toList.length % 4 = 0 ∨ text.toList.length % 4 = 1 ∨ text.toList.length % 4 = 2 ∨
      text.toList.length % 4 = 3 := by omega
  simp only [tryDecodeBase64Url, nonempty, Bool.false_eq_true, ↓reduceIte, List.length_map]
  rcases residues with same | same | same | same <;> simp [same, Base64.padding, List.replicate]

private theorem replicate_map_eq {body rest : List Char} {k : Nat}
    (same : (body ++ rest).map Base64.ofUrlChar = body.map Base64.ofUrlChar ++ List.replicate k '=') :
    rest = List.replicate k '=' := by
  rw [List.map_append, List.append_cancel_left_eq] at same
  have alphabet : ∀ {c}, Base64.ofUrlChar c = '=' → c = '=' := by
    intro c
    unfold Base64.ofUrlChar
    split
    next => exact fun same => absurd same (by decide)
    split
    next => exact fun same => absurd same (by decide)
    next => exact id
  refine List.eq_replicate_iff.mpr ⟨by simpa using congrArg List.length same, fun c member => alphabet ?_⟩
  exact List.eq_of_mem_replicate (same ▸ List.mem_map_of_mem member)

theorem tryDecode_isSome {text : String} (filled : text ≠ "") :
    (tryDecodeBase64Url text).isSome ↔ Lenient text.toList := by
  rw [tryDecode_eq filled, Lenient]
  by_cases lone : text.toList.length % 4 = 1
  · simp [lone]
  have mapped : (Base64.visible text.toList).map Base64.ofUrlChar ++ Base64.padding text.toList.length =
      (Base64.visible text.toList ++ Base64.padding text.toList.length).map Base64.ofUrlChar := by
    rw [List.map_append, Base64.padding, List.map_replicate]
    rfl
  rw [if_neg lone, Base64.fromBase64String_isSome, visible_padding, visible_ofUrlChar, mapped, List.length_map]
  simp only [lone, ne_eq, not_false_eq_true, true_and]
  constructor
  · rintro ⟨whole, mapped, k, few, same, spelt⟩
    obtain ⟨body, rest, split, rfl, fillers⟩ := List.map_eq_append_iff.mp same
    have rest : rest = List.replicate k '=' := replicate_map_eq (by rw [List.map_append, fillers])
    refine ⟨body, k, few, rest ▸ split, ?_, fun c member => ?_⟩
    · rw [split, List.length_append, rest, List.length_replicate] at whole
      exact whole
    · exact sextet_ofUrlChar.mp (spelt _ (List.mem_map_of_mem member))
  · rintro ⟨body, k, few, split, whole, spelt⟩
    refine ⟨?_, body.map Base64.ofUrlChar, k, few, ?_, fun c member => ?_⟩
    · rw [split, List.length_append, List.length_replicate]
      exact whole
    · rw [split, List.map_append, List.map_replicate]
      rfl
    · obtain ⟨d, inside, rfl⟩ := List.mem_map.mp member
      exact sextet_ofUrlChar.mpr (spelt d inside)

/-- A string of a script, given by its code units. -/
def spelled (units : List ℕ) : String := String.ofList (units.map Char.ofNat)

def UrlText (units : List ℕ) : Prop := ∀ unit ∈ units, isBase64UrlChar (Char.ofNat unit)

instance (units : List ℕ) : Decidable (UrlText units) := inferInstanceAs (Decidable (∀ _ ∈ _, _))

/-- What is asked of one string: the decoders agree on it, and accept base64url. -/
structure SameLanguage (units : List ℕ) : Prop where
  gateway : ∀ bytes, decodeBase64Url units = .ok bytes ↔ tryDecodeBase64Url (spelled units) = some bytes
  bearer : ∀ bytes, bearerBytes (units.map Char.ofNat) = some bytes ↔ tryDecodeBase64Url (spelled units) = some bytes
  accepted : (tryDecodeBase64Url (spelled units)).isSome ↔ UrlText units ∧ units.length % 4 ≠ 1

/-- What the gateway reads of a text in the right alphabet, whatever its length. -/
def lenientBytes (units : List ℕ) : Bytes :=
  Base64.bufferFrom ((units.map Char.ofNat).map Base64.ofUrlChar ++ Base64.padding units.length)

theorem decodeBase64Url_iff {units : List ℕ} (filled : units ≠ []) {bytes : Bytes} :
    decodeBase64Url units = .ok bytes ↔ UrlText units ∧ bytes = lenientBytes units :=
  decodeBase64Url_ok.trans (and_iff_right filled)

theorem bearerBytes_iff {units : List ℕ} (filled : units ≠ []) {bytes : Bytes} :
    bearerBytes (units.map Char.ofNat) = some bytes ↔ UrlText units ∧ bytes = lenientBytes units := by
  have same : ((units.map Char.ofNat ++ Base64.padding units.length).map Base64.ofUrlChar) =
      (units.map Char.ofNat).map Base64.ofUrlChar ++ Base64.padding units.length := by
    rw [List.map_append, Base64.padding, List.map_replicate]
    rfl
  unfold bearerBytes UrlText lenientBytes
  rw [List.length_map, same]
  split
  next refused =>
    apply iff_of_false (by simp)
    intro accepted
    simp only [List.isEmpty_iff, List.map_eq_nil_iff, filled, Bool.or_eq_true, Bool.not_eq_true',
      List.all_map, false_or] at refused
    obtain ⟨unit, inside, foreign⟩ := List.all_eq_false.mp refused
    exact foreign (accepted.1 unit inside)
  next accepted =>
    simp only [List.isEmpty_iff, List.map_eq_nil_iff, filled, Bool.or_eq_true, Bool.not_eq_true',
      List.all_map, false_or, Bool.not_eq_false, List.all_eq_true, Function.comp_apply] at accepted
    rw [Option.some.injEq, and_iff_right accepted]
    exact eq_comm

private theorem visible_urlText {units : List ℕ} (urlText : UrlText units) :
    Base64.visible (units.map Char.ofNat) = units.map Char.ofNat := by
  apply List.filter_eq_self.mpr
  intro c member
  obtain ⟨unit, inside, rfl⟩ := List.mem_map.mp member
  have letter := urlText unit inside
  simp only [Bool.not_eq_true', Bool.or_eq_false_iff, beq_eq_false_iff_ne]
  refine ⟨⟨⟨?_, ?_⟩, ?_⟩, ?_⟩ <;>
  · intro space
    rw [space] at letter
    exact absurd letter (by decide)

/-- In the right alphabet, the ingest service only insists on the length. -/
theorem tryDecode_urlText {units : List ℕ} (filled : units ≠ []) (urlText : UrlText units)
    (whole : units.length % 4 ≠ 1) : tryDecodeBase64Url (spelled units) = some (lenientBytes units) := by
  have text : (spelled units).toList = units.map Char.ofNat := String.toList_ofList
  have nonempty : spelled units ≠ "" := by
    rw [Ne, ← String.toList_inj, text]
    simpa using filled
  have accepted : (tryDecodeBase64Url (spelled units)).isSome := by
    refine (tryDecode_isSome nonempty).mpr ⟨?_, units.map Char.ofNat, (4 - units.length % 4) % 4, ?_, ?_, ?_, ?_⟩
    · rwa [text, List.length_map]
    · omega
    · rw [text, visible_urlText urlText, List.length_map]
      rfl
    · rw [List.length_map]
      omega
    · intro c member
      obtain ⟨unit, inside, rfl⟩ := List.mem_map.mp member
      simp [isLenientChar, urlText unit inside]
  obtain ⟨bytes, decoded⟩ := Option.isSome_iff_exists.mp accepted
  have standard := (tryDecode_eq nonempty).symm.trans decoded
  rw [text, List.length_map, if_neg whole] at standard
  rw [decoded, lenientBytes]
  refine congrArg some (Base64.bufferFrom_of_fromBase64String ?_ standard).symm
  rw [visible_padding, visible_ofUrlChar, visible_urlText urlText]

/-- The decoders agree on a string exactly if it is base64url of a possible length, or has
another character and is not what the ingest service forgives. -/
theorem sameLanguage_iff {units : List ℕ} (filled : units ≠ []) :
    SameLanguage units ↔ (UrlText units → units.length % 4 ≠ 1) ∧
      (¬UrlText units → ¬Lenient (units.map Char.ofNat)) := by
  have text : (spelled units).toList = units.map Char.ofNat := String.toList_ofList
  have nonempty : spelled units ≠ "" := by
    rw [Ne, ← String.toList_inj, text]
    simpa using filled
  have lenient := tryDecode_isSome nonempty
  rw [text] at lenient
  by_cases urlText : UrlText units
  · refine ⟨fun same => ⟨fun _ lone => ?_, fun foreign => absurd urlText foreign⟩, fun condition => ?_⟩
    · -- the gateway drops the lone character, the ingest service refuses the text
      have decoded := (same.gateway _).mp ((decodeBase64Url_iff filled).mpr ⟨urlText, rfl⟩)
      have refused := lenient.mp (Option.isSome_of_eq_some decoded)
      exact refused.1 (by rwa [List.length_map])
    · have whole := condition.1 urlText
      have decoded := tryDecode_urlText filled urlText whole
      refine ⟨fun bytes => ?_, fun bytes => ?_, ?_⟩
      · rw [decodeBase64Url_iff filled, decoded, Option.some.injEq, and_iff_right urlText, eq_comm]
      · rw [bearerBytes_iff filled, decoded, Option.some.injEq, and_iff_right urlText, eq_comm]
      · rw [decoded]
        exact iff_of_true rfl ⟨urlText, whole⟩
  · refine ⟨fun same => ⟨fun safe => absurd safe urlText, fun _ forgiven => ?_⟩, fun condition => ?_⟩
    · exact urlText (same.accepted.mp (lenient.mpr forgiven)).1
    · have refused : tryDecodeBase64Url (spelled units) = none :=
        Option.isNone_iff_eq_none.mp (by simpa using fun accepted => condition.2 urlText (lenient.mp accepted))
      refine ⟨fun bytes => ?_, fun bytes => ?_, ?_⟩
      · rw [decodeBase64Url_iff filled, refused]
        exact iff_of_false (fun accepted => urlText accepted.1) (by simp)
      · rw [bearerBytes_iff filled, refused]
        exact iff_of_false (fun accepted => urlText accepted.1) (by simp)
      · rw [refused]
        exact iff_of_false (by simp) (fun accepted => urlText accepted.1)

theorem sameLanguage_iff_sample : SameLanguage (Utf16.encode "AQ_-".toList) :=
  (sameLanguage_iff (by decide)).mpr ⟨fun _ => by decide, fun foreign => absurd (by decide) foreign⟩

/-- One character: no octet for the gateway, no text for the ingest service. -/
theorem sameLanguage_fails : ¬∀ units : List ℕ, units ≠ [] → SameLanguage units := by
  intro all
  have decoded := ((all (Utf16.encode "A".toList) (by decide)).gateway []).mp (by decide +kernel)
  exact absurd decoded (by decide +kernel)

end SlothBox.Proofs

import Mathlib.Data.List.DropRight
import SlothBox.Library.Bytes

/-! Base64 as the platform libraries compute it. The encoder is common to all of
them; the decoders differ in what they forgive, so each is a definition of its own
over one sextet decoder that drops the bits of an incomplete last octet. -/

namespace SlothBox.Library.Base64

/-- The standard alphabet, by value. -/
def sextetChar (n : Nat) : Char :=
  if n < 26 then Char.ofNat (65 + n)
  else if n < 52 then Char.ofNat (97 + (n - 26))
  else if n < 62 then Char.ofNat (48 + (n - 52))
  else if n = 62 then '+' else '/'

def sextet? (c : Char) : Option Nat :=
  if 'A' ≤ c ∧ c ≤ 'Z' then some (c.toNat - 65)
  else if 'a' ≤ c ∧ c ≤ 'z' then some (c.toNat - 97 + 26)
  else if '0' ≤ c ∧ c ≤ '9' then some (c.toNat - 48 + 52)
  else if c = '+' then some 62 else if c = '/' then some 63 else none

/-- Padded encoding in the standard alphabet. -/
def encode : Bytes → List Char
  | [] => []
  | [a] => [sextetChar (a.toNat / 4), sextetChar (a.toNat % 4 * 16), '=', '=']
  | [a, b] =>
    [sextetChar (a.toNat / 4), sextetChar (a.toNat % 4 * 16 + b.toNat / 16),
      sextetChar (b.toNat % 16 * 4), '=']
  | a :: b :: c :: rest =>
    sextetChar (a.toNat / 4) :: sextetChar (a.toNat % 4 * 16 + b.toNat / 16) ::
      sextetChar (b.toNat % 16 * 4 + c.toNat / 64) :: sextetChar (c.toNat % 64) :: encode rest

/-- Packs sextets into octets. One sextet left over carries no whole octet. -/
def pack : List Nat → Bytes
  | a :: b :: c :: d :: rest =>
    UInt8.ofNat (a * 4 + b / 16) :: UInt8.ofNat (b % 16 * 16 + c / 4) ::
      UInt8.ofNat (c % 4 * 64 + d) :: pack rest
  | [a, b, c] => [UInt8.ofNat (a * 4 + b / 16), UInt8.ofNat (b % 16 * 16 + c / 4)]
  | [a, b] => [UInt8.ofNat (a * 4 + b / 16)]
  | _ => []

/-- Removes one or two padding characters from the end. -/
def dropPadding (text : List Char) : List Char :=
  match text.reverse with
  | '=' :: '=' :: rest => rest.reverse
  | '=' :: rest => rest.reverse
  | _ => text

/-- The forgiving decoder of the web platform: ASCII white space is skipped and
padding is optional, but a lone last character or a foreign one is an error. -/
def atob (text : List Char) : Option Bytes :=
  let stripped := text.filter fun c => !(c == ' ' || c == '\t' || c == '\n' || c == '\x0c' || c == '\r')
  let body := if stripped.length % 4 = 0 then dropPadding stripped else stripped
  if body.length % 4 = 1 then none else (body.mapM sextet?).map pack

/-- The strict decoder of .NET: white space is skipped, the rest must be whole
groups of four with padding only at the end. -/
def fromBase64String (text : List Char) : Option Bytes :=
  let stripped := text.filter fun c => !(c == ' ' || c == '\t' || c == '\n' || c == '\r')
  if stripped.length % 4 = 0 then ((dropPadding stripped).mapM sextet?).map pack else none

/-- The lenient decoder of Node: it stops at padding and skips what it does not
know. Both alphabets are accepted. -/
def bufferFrom (text : List Char) : Bytes :=
  pack ((text.takeWhile (· != '=')).filterMap fun c =>
    if c = '-' then some 62 else if c = '_' then some 63 else sextet? c)

/-- From the standard to the URL-safe alphabet, and back. -/
def toUrlChar (c : Char) : Char := if c = '+' then '-' else if c = '/' then '_' else c

def ofUrlChar (c : Char) : Char := if c = '-' then '+' else if c = '_' then '/' else c

/-- Unpadded encoding in the URL-safe alphabet. -/
def encodeUrl (bytes : Bytes) : List Char := ((encode bytes).filter (· != '=')).map toUrlChar

def replaceChar (old new c : Char) : Char := if c = old then new else c

/-- The padding that fills a text to whole groups of four. -/
def padding (length : Nat) : List Char := List.replicate ((4 - length % 4) % 4) '='

/-! ### The sextets of an encoding -/

/-- What an encoding spells, before characters and padding. -/
def sextets : Bytes → List Nat
  | [] => []
  | [a] => [a.toNat / 4, a.toNat % 4 * 16]
  | [a, b] => [a.toNat / 4, a.toNat % 4 * 16 + b.toNat / 16, b.toNat % 16 * 4]
  | a :: b :: c :: rest =>
    (a.toNat / 4) :: (a.toNat % 4 * 16 + b.toNat / 16) :: (b.toNat % 16 * 4 + c.toNat / 64) ::
      (c.toNat % 64) :: sextets rest

theorem sextets_lt (bytes : Bytes) : ∀ n ∈ sextets bytes, n < 64 := by
  fun_induction sextets bytes with
  | case1 => simp
  | case2 a =>
    have := a.toNat_lt
    intro n member
    simp only [List.mem_cons, List.not_mem_nil, or_false] at member
    omega
  | case3 a b =>
    have := a.toNat_lt
    have := b.toNat_lt
    intro n member
    simp only [List.mem_cons, List.not_mem_nil, or_false] at member
    omega
  | case4 a b c rest ih =>
    have := a.toNat_lt
    have := b.toNat_lt
    have := c.toNat_lt
    intro n member
    simp only [List.mem_cons] at member
    rcases member with same | same | same | same | member
    · omega
    · omega
    · omega
    · omega
    · exact ih n member

theorem pack_sextets (bytes : Bytes) : pack (sextets bytes) = bytes := by
  fun_induction sextets bytes with
  | case1 => rfl
  | case2 a =>
    have := a.toNat_lt
    simp only [pack, List.cons.injEq, and_true]
    exact UInt8.toNat_inj.mp (by simp; omega)
  | case3 a b =>
    have := a.toNat_lt
    have := b.toNat_lt
    simp only [pack, List.cons.injEq, and_true]
    exact ⟨UInt8.toNat_inj.mp (by simp; omega), UInt8.toNat_inj.mp (by simp; omega)⟩
  | case4 a b c rest ih =>
    have := a.toNat_lt
    have := b.toNat_lt
    have := c.toNat_lt
    simp only [pack, ih, List.cons.injEq, and_true]
    exact ⟨UInt8.toNat_inj.mp (by simp; omega), UInt8.toNat_inj.mp (by simp; omega),
      UInt8.toNat_inj.mp (by simp; omega)⟩

theorem length_sextets_mod (bytes : Bytes) : (sextets bytes).length % 4 ≠ 1 := by
  fun_induction sextets bytes with
  | case1 => simp
  | case2 a => simp
  | case3 a b => simp
  | case4 a b c rest ih => simp only [List.length_cons]; omega

theorem length_sextets (bytes : Bytes) : (sextets bytes).length = (bytes.length * 4 + 2) / 3 := by
  fun_induction sextets bytes with
  | case1 => rfl
  | case2 a => simp
  | case3 a b => simp
  | case4 a b c rest ih => simp only [List.length_cons, ih]; omega

/-- Padding aside, an encoding is its sextets spelt in the alphabet. -/
theorem encode_eq (bytes : Bytes) :
    encode bytes = (sextets bytes).map sextetChar ++ padding (sextets bytes).length := by
  fun_induction sextets bytes with
  | case1 => rfl
  | case2 a => rfl
  | case3 a b => rfl
  | case4 a b c rest ih =>
    have filled : padding ((sextets rest).length + 1 + 1 + 1 + 1) = padding (sextets rest).length := by
      simp only [padding]
      congr 1
      omega
    simp only [encode, List.map_cons, List.length_cons, ih, filled, List.cons_append]

/-! ### Characters -/

theorem sextet_sextetChar {n : Nat} (small : n < 64) : sextet? (sextetChar n) = some n := by
  revert n
  decide

/-- No character of the alphabet is padding, white space or one of the URL-safe pair. -/
theorem sextetChar_ne {n : Nat} (small : n < 64) :
    sextetChar n ≠ '=' ∧ sextetChar n ≠ ' ' ∧ sextetChar n ≠ '\t' ∧ sextetChar n ≠ '\n' ∧
      sextetChar n ≠ '\x0c' ∧ sextetChar n ≠ '\r' ∧ sextetChar n ≠ '-' ∧ sextetChar n ≠ '_' := by
  revert n
  decide

theorem ofUrlChar_toUrlChar {n : Nat} (small : n < 64) :
    ofUrlChar (toUrlChar (sextetChar n)) = sextetChar n := by
  revert n
  decide

/-- The characters of an unpadded URL-safe encoding. -/
def IsUrlChar (c : Char) : Prop := c.isAlphanum ∨ c = '-' ∨ c = '_'

instance (c : Char) : Decidable (IsUrlChar c) := inferInstanceAs (Decidable (_ ∨ _))

theorem isUrlChar_toUrlChar {n : Nat} (small : n < 64) : IsUrlChar (toUrlChar (sextetChar n)) := by
  revert n
  decide

theorem encodeUrl_eq (bytes : Bytes) :
    encodeUrl bytes = (sextets bytes).map (fun n => toUrlChar (sextetChar n)) := by
  have kept : ((sextets bytes).map sextetChar).filter (· != '=') = (sextets bytes).map sextetChar := by
    rw [List.filter_eq_self]
    intro c member
    obtain ⟨n, inside, rfl⟩ := List.mem_map.mp member
    simpa using (sextetChar_ne (sextets_lt bytes n inside)).1
  have dropped : (padding (sextets bytes).length).filter (· != '=') = [] := by
    simp [padding]
  rw [encodeUrl, encode_eq, List.filter_append, kept, dropped, List.append_nil, List.map_map]
  rfl

theorem length_encodeUrl (bytes : Bytes) : (encodeUrl bytes).length = (bytes.length * 4 + 2) / 3 := by
  rw [encodeUrl_eq, List.length_map, length_sextets]

theorem encodeUrl_chars (bytes : Bytes) : ∀ c ∈ encodeUrl bytes, IsUrlChar c := by
  intro c member
  rw [encodeUrl_eq] at member
  obtain ⟨n, inside, rfl⟩ := List.mem_map.mp member
  exact isUrlChar_toUrlChar (sextets_lt bytes n inside)

theorem toUrlChar_eq (c : Char) : replaceChar '/' '_' (replaceChar '+' '-' c) = toUrlChar c := by
  unfold replaceChar toUrlChar
  by_cases plus : c = '+'
  · rw [if_pos plus, if_pos plus, if_neg (by decide)]
  · rw [if_neg plus, if_neg plus]

private theorem rdropWhile_replicate {body : List Char} (clean : '=' ∉ body) (k : Nat) :
    (body ++ List.replicate k '=').rdropWhile (· == '=') = body := by
  induction k with
  | zero =>
    rw [List.replicate_zero, List.append_nil, List.rdropWhile_eq_self_iff]
    intro filled last
    exact clean (beq_iff_eq.mp last ▸ List.getLast_mem filled)
  | succ k ih => rw [List.replicate_succ', ← List.append_assoc, List.rdropWhile_concat_pos _ _ _ rfl, ih]

/-- Trimming first and replacing afterwards gives the URL-safe encoding. -/
theorem encodeUrl_of_trim (bytes : Bytes) :
    (((encode bytes).rdropWhile (· == '=')).map (replaceChar '+' '-')).map (replaceChar '/' '_') = encodeUrl bytes := by
  have clean : '=' ∉ (sextets bytes).map sextetChar := by
    intro member
    obtain ⟨n, inside, same⟩ := List.mem_map.mp member
    exact (sextetChar_ne (sextets_lt bytes n inside)).1 same
  rw [encode_eq, padding, rdropWhile_replicate clean, encodeUrl_eq, List.map_map, List.map_map]
  exact List.map_congr_left fun n _ => toUrlChar_eq _

/-- So does replacing first: padding is not replaced by anything, nor anything by it. -/
theorem encodeUrl_of_replace (bytes : Bytes) :
    (((encode bytes).map (replaceChar '+' '-')).map (replaceChar '/' '_')).rdropWhile (· == '=') = encodeUrl bytes := by
  have clean : '=' ∉ (sextets bytes).map fun n => toUrlChar (sextetChar n) := by
    have alphabet : ∀ n < 64, toUrlChar (sextetChar n) ≠ '=' := by decide
    intro member
    obtain ⟨n, inside, same⟩ := List.mem_map.mp member
    exact alphabet n (sextets_lt bytes n inside) same
  have replaced : ((encode bytes).map (replaceChar '+' '-')).map (replaceChar '/' '_') =
      (sextets bytes).map (fun n => toUrlChar (sextetChar n)) ++ padding (sextets bytes).length := by
    rw [encode_eq, List.map_append, List.map_append, List.map_map, List.map_map, padding, List.map_replicate,
      List.map_replicate]
    exact congrArg (· ++ _) (List.map_congr_left fun n _ => toUrlChar_eq _)
  rw [replaced, padding, rdropWhile_replicate clean, encodeUrl_eq]

/-! ### Decoding an encoding -/

private theorem dropPadding_replicate {body : List Char} (clean : '=' ∉ body) {k : Nat} (few : k ≤ 2) :
    dropPadding (body ++ List.replicate k '=') = body := by
  have first : ∀ {rest}, body.reverse ≠ '=' :: rest := fun same =>
    clean (List.mem_reverse.mp (same ▸ List.mem_cons_self))
  obtain rfl | rfl | rfl : k = 0 ∨ k = 1 ∨ k = 2 := by omega
  · rw [List.replicate_zero, List.append_nil]
    unfold dropPadding
    split
    next both => exact absurd both first
    next one => exact absurd one first
    next => rfl
  · unfold dropPadding
    rw [List.reverse_append]
    split
    next both => exact absurd (List.cons.inj both).2 first
    next rest _ one =>
      have same : body.reverse = rest := (List.cons.inj one).2
      rw [← same, List.reverse_reverse]
    next neither => exact absurd rfl (neither body.reverse)
  · simp [dropPadding, List.replicate]

private theorem dropPadding_append (body : List Char) (clean : '=' ∉ body)
    (odd : body.length % 4 ≠ 1) : dropPadding (body ++ padding body.length) = body :=
  dropPadding_replicate clean (by omega)

private theorem mapM_sextet (numbers : List Nat) (small : ∀ n ∈ numbers, n < 64) :
    (numbers.map sextetChar).mapM sextet? = some numbers := by
  induction numbers with
  | nil => rfl
  | cons n rest ih =>
    simp only [List.map_cons, List.mapM_cons, sextet_sextetChar (small n (by simp)),
      ih (fun m member => small m (by simp [member]))]
    rfl

private theorem filter_encode (bytes : Bytes) {kept : Char → Bool} (alphabet : ∀ n < 64, kept (sextetChar n))
    (filler : kept '=') : (encode bytes).filter kept = encode bytes := by
  rw [List.filter_eq_self, encode_eq]
  intro c member
  rcases List.mem_append.mp member with member | member
  · obtain ⟨n, inside, rfl⟩ := List.mem_map.mp member
    exact alphabet n (sextets_lt bytes n inside)
  · obtain ⟨-, rfl⟩ := List.mem_replicate.mp member
    exact filler

theorem length_encode_mod (bytes : Bytes) : (encode bytes).length % 4 = 0 := by
  rw [encode_eq]
  simp only [List.length_append, List.length_map, padding, List.length_replicate]
  omega

private theorem decode_encode (bytes : Bytes) :
    ((dropPadding (encode bytes)).length % 4 ≠ 1) ∧ ((dropPadding (encode bytes)).mapM sextet?).map pack = some bytes := by
  have small := sextets_lt bytes
  have odd := length_sextets_mod bytes
  have clean : '=' ∉ (sextets bytes).map sextetChar := by
    intro member
    obtain ⟨n, inside, same⟩ := List.mem_map.mp member
    exact (sextetChar_ne (small n inside)).1 same
  have body := dropPadding_append ((sextets bytes).map sextetChar) clean (by simpa using odd)
  rw [List.length_map, ← encode_eq] at body
  rw [body, List.length_map, mapM_sextet _ small, Option.map_some, pack_sextets]
  exact ⟨odd, rfl⟩

theorem atob_encode (bytes : Bytes) : atob (encode bytes) = some bytes := by
  obtain ⟨odd, decoded⟩ := decode_encode bytes
  have stripped : (encode bytes).filter
      (fun c => !(c == ' ' || c == '\t' || c == '\n' || c == '\x0c' || c == '\r')) = encode bytes :=
    filter_encode bytes (by decide) rfl
  simp only [atob, stripped, length_encode_mod, ↓reduceIte, odd, decoded]

theorem fromBase64String_encode (bytes : Bytes) : fromBase64String (encode bytes) = some bytes := by
  obtain ⟨-, decoded⟩ := decode_encode bytes
  have stripped : (encode bytes).filter (fun c => !(c == ' ' || c == '\t' || c == '\n' || c == '\r')) = encode bytes :=
    filter_encode bytes (by decide) rfl
  simp only [fromBase64String, stripped, length_encode_mod, ↓reduceIte, decoded]

/-- Mapping a URL-safe encoding back and filling it up restores the padded one. -/
theorem ofUrl_encodeUrl (bytes : Bytes) :
    (encodeUrl bytes).map ofUrlChar ++ padding (encodeUrl bytes).length = encode bytes := by
  have back : (sextets bytes).map (fun n => ofUrlChar (toUrlChar (sextetChar n))) =
      (sextets bytes).map sextetChar := by
    apply List.map_congr_left
    intro n inside
    exact ofUrlChar_toUrlChar (sextets_lt bytes n inside)
  rw [encodeUrl_eq, encode_eq, List.map_map, List.length_map]
  exact congrArg (· ++ padding (sextets bytes).length) back

/-! ### What the strict decoders accept -/

private theorem dropPadding_cases (text : List Char) :
    ∃ padded, text = dropPadding text ++ padded ∧ (padded = [] ∨ padded.head? = some '=') := by
  unfold dropPadding
  split
  next rest both =>
    refine ⟨['=', '='], ?_, .inr rfl⟩
    rw [← List.reverse_reverse text, both]
    simp
  next rest one =>
    refine ⟨['='], ?_, .inr rfl⟩
    rw [← List.reverse_reverse text, one]
    simp
  next => exact ⟨[], (List.append_nil _).symm, .inl rfl⟩

private theorem sextet?_ne {c : Char} {n : Nat} (spelt : sextet? c = some n) : c ≠ '=' ∧ c ≠ '-' ∧ c ≠ '_' := by
  refine ⟨?_, ?_, ?_⟩ <;>
  · rintro rfl
    cases spelt

/-- Sextets up to the padding are all that the lenient decoder sees. -/
private theorem bufferFrom_append {body padded : List Char} {numbers : List Nat}
    (spelt : body.mapM sextet? = some numbers) (stop : padded = [] ∨ padded.head? = some '=') :
    bufferFrom (body ++ padded) = pack numbers := by
  have read : ∀ {body : List Char} {numbers : List Nat}, body.mapM sextet? = some numbers →
      ((body ++ padded).takeWhile (· != '=')).filterMap
        (fun c => if c = '-' then some 62 else if c = '_' then some 63 else sextet? c) = numbers := by
    intro body
    induction body with
    | nil =>
      intro numbers spelt
      cases spelt
      rcases stop with rfl | stop
      · rfl
      · obtain ⟨rest, rfl⟩ := List.head?_eq_some_iff.mp stop
        rfl
    | cons c rest ih =>
      intro numbers spelt
      simp only [List.mapM_cons, Option.bind_eq_bind, Option.bind_eq_some_iff] at spelt
      obtain ⟨n, first, others, rest, same⟩ := spelt
      cases same
      obtain ⟨filler, minus, score⟩ := sextet?_ne first
      rw [List.cons_append, List.takeWhile_cons_of_pos (by simpa using filler), List.filterMap_cons, if_neg minus,
        if_neg score, first, ih rest]
  rw [bufferFrom, read spelt]

/-- What the web platform's decoder accepts, the lenient one reads the same. -/
theorem bufferFrom_of_atob {text : List Char} {bytes : Bytes}
    (plain : ∀ c ∈ text, c ≠ ' ' ∧ c ≠ '\t' ∧ c ≠ '\n' ∧ c ≠ '\x0c' ∧ c ≠ '\r') (decoded : atob text = some bytes) :
    bufferFrom text = bytes := by
  have stripped : text.filter (fun c => !(c == ' ' || c == '\t' || c == '\n' || c == '\x0c' || c == '\r')) = text := by
    rw [List.filter_eq_self]
    intro c member
    obtain ⟨space, tab, line, feed, carriage⟩ := plain c member
    simp [space, tab, line, feed, carriage]
  simp only [atob, stripped] at decoded
  obtain ⟨body, padded, split, stop, packed⟩ : ∃ body padded, text = body ++ padded ∧
      (padded = [] ∨ padded.head? = some '=') ∧ (body.mapM sextet?).map pack = some bytes := by
    by_cases whole : text.length % 4 = 0
    · obtain ⟨padded, split, stop⟩ := dropPadding_cases text
      rw [if_pos whole] at decoded
      refine ⟨_, padded, split, stop, ?_⟩
      split at decoded
      · cases decoded
      · exact decoded
    · rw [if_neg whole] at decoded
      refine ⟨text, [], (List.append_nil _).symm, .inl rfl, ?_⟩
      split at decoded
      · cases decoded
      · exact decoded
  obtain ⟨numbers, spelt, rfl⟩ := Option.map_eq_some_iff.mp packed
  rw [split, bufferFrom_append spelt stop]

/-- What is left of a text for .NET. -/
def visible (text : List Char) : List Char := text.filter fun c => !(c == ' ' || c == '\t' || c == '\n' || c == '\r')

private theorem mapM_isSome {body : List Char} :
    (body.mapM sextet?).isSome ↔ ∀ c ∈ body, (sextet? c).isSome := by
  induction body with
  | nil => simp
  | cons c rest ih =>
    rw [List.mapM_cons, List.forall_mem_cons, ← ih]
    cases sextet? c <;> cases rest.mapM sextet? <;> simp

private theorem dropPadding_fillers (text : List Char) :
    ∃ k ≤ 2, text = dropPadding text ++ List.replicate k '=' := by
  unfold dropPadding
  split
  next rest both =>
    refine ⟨2, Nat.le_refl _, ?_⟩
    rw [← List.reverse_reverse text, both]
    simp
  next rest one =>
    refine ⟨1, by decide, ?_⟩
    rw [← List.reverse_reverse text, one]
    simp
  next => exact ⟨0, by decide, (List.append_nil _).symm⟩

theorem visible_encode (bytes : Bytes) : visible (encode bytes) = encode bytes := filter_encode bytes (by decide) rfl

theorem fromBase64String_eq (text : List Char) :
    fromBase64String text =
      if (visible text).length % 4 = 0 then ((dropPadding (visible text)).mapM sextet?).map pack else none := rfl

/-- The grammar of the strict decoder: groups of four, of which the last may end in one or
two fillers. -/
theorem fromBase64String_isSome {text : List Char} :
    (fromBase64String text).isSome ↔ (visible text).length % 4 = 0 ∧
      ∃ body k, k ≤ 2 ∧ visible text = body ++ List.replicate k '=' ∧ ∀ c ∈ body, (sextet? c).isSome := by
  have unfolded : (fromBase64String text).isSome ↔ (visible text).length % 4 = 0 ∧
      ((dropPadding (visible text)).mapM sextet?).isSome := by
    rw [fromBase64String_eq]
    split
    next whole => simp [whole]
    next broken => simp [broken]
  rw [unfolded, mapM_isSome]
  refine and_congr_right fun _ => ⟨fun spelt => ?_, fun grammar => ?_⟩
  · obtain ⟨k, few, same⟩ := dropPadding_fillers (visible text)
    exact ⟨_, k, few, same, spelt⟩
  · obtain ⟨body, k, few, same, spelt⟩ := grammar
    have clean : '=' ∉ body := fun inside => absurd (spelt _ inside) (by decide)
    rwa [same, dropPadding_replicate clean few]

/-- What the strict decoder accepts of a text without white space, the lenient one reads
the same. -/
theorem bufferFrom_of_fromBase64String {text : List Char} {bytes : Bytes} (plain : visible text = text)
    (decoded : fromBase64String text = some bytes) : bufferFrom text = bytes := by
  have packed : ((dropPadding text).mapM sextet?).map pack = some bytes := by
    rw [fromBase64String_eq, plain] at decoded
    split at decoded
    next => exact decoded
    next => cases decoded
  obtain ⟨numbers, spelt, rfl⟩ := Option.map_eq_some_iff.mp packed
  obtain ⟨padded, split, stop⟩ := dropPadding_cases text
  rw [split, bufferFrom_append spelt stop]

end SlothBox.Library.Base64

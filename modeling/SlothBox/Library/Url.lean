import SlothBox.Library.Utf8

/-! Percent-encoding and the query format of URLs, as the web platform defines them
on octets. -/

namespace SlothBox.Library.Url

def hexUpper (n : Nat) : Char := (Nat.digitChar n).toUpper

/-- What `encodeURIComponent` leaves alone. -/
def isUnreserved (c : Char) : Bool :=
  c.isAlphanum || ['-', '_', '.', '!', '~', '*', '\x27', '(', ')'].contains c

def percent (octet : UInt8) : List Char := ['%', hexUpper (octet.toNat / 16), hexUpper (octet.toNat % 16)]

def encodeURIComponent (text : List Char) : List Char :=
  text.flatMap fun c => if isUnreserved c then [c] else (String.utf8EncodeChar c).flatMap percent

/-- An escape that is not two hexadecimal digits stands for itself. -/
def percentDecode : Bytes → Bytes
  | [] => []
  | octet :: rest =>
    if octet ≠ 0x25 then octet :: percentDecode rest
    else match rest with
      | first :: second :: more =>
        match hexDigit? (Char.ofNat first.toNat), hexDigit? (Char.ofNat second.toNat) with
        | some high, some low => UInt8.ofNat (high * 16 + low) :: percentDecode more
        | _, _ => octet :: percentDecode (first :: second :: more)
      | rest => octet :: percentDecode rest

/-- The octets up to a separator, and those behind it. -/
def cut (separator : UInt8) (bytes : Bytes) : Bytes × Bytes :=
  (bytes.takeWhile (· != separator), (bytes.dropWhile (· != separator)).drop 1)

/-- One name or value of a query. -/
def queryText (bytes : Bytes) : List Char :=
  Utf8.decode (percentDecode (bytes.map fun octet => if octet = 0x2b then 0x20 else octet))

/-- The pairs of a query; an empty part is no pair. -/
def queryPairs (bytes : Bytes) : List (List Char × List Char) :=
  ((bytes.splitOn 0x26).filter (· ≠ [])).map fun part => Prod.map queryText queryText (cut 0x3d part)

/-- `new URLSearchParams(text).get(name)`. -/
def searchParam (text : List Char) (name : String) : Option (List Char) :=
  let text := if text.head? = some '?' then text.drop 1 else text
  (queryPairs (Utf8.encode text)).lookup name.toList

/-- The fragment of a URL with its number sign. -/
def fragment (url : List Char) : List Char := url.dropWhile (· ≠ '#')

/-! ### A pair that needs no escapes -/

/-- An octet that stands for itself in a query. -/
def IsPlain (octet : UInt8) : Prop := octet ≠ 0x26 ∧ octet ≠ 0x3d ∧ octet ≠ 0x2b ∧ octet ≠ 0x25

instance (octet : UInt8) : Decidable (IsPlain octet) := inferInstanceAs (Decidable (_ ∧ _))

theorem percentDecode_plain {bytes : Bytes} (plain : ∀ octet ∈ bytes, octet ≠ 0x25) : percentDecode bytes = bytes := by
  induction bytes with
  | nil => rfl
  | cons octet rest ih =>
    obtain ⟨first, others⟩ := List.forall_mem_cons.mp plain
    unfold percentDecode
    rw [if_pos first, ih others]

theorem queryText_plain {text : List Char} (plain : ∀ octet ∈ Utf8.encode text, IsPlain octet) :
    queryText (Utf8.encode text) = text := by
  have spaces : (Utf8.encode text).map (fun octet => if octet = 0x2b then 0x20 else octet) = Utf8.encode text := by
    conv_rhs => rw [← List.map_id (Utf8.encode text)]
    exact List.map_congr_left fun octet inside => if_neg (plain octet inside).2.2.1
  rw [queryText, spaces, percentDecode_plain fun octet inside => (plain octet inside).2.2.2, Utf8.decode_encode]

private theorem cut_append {separator : UInt8} {before : Bytes} (after : Bytes)
    (plain : ∀ octet ∈ before, octet ≠ separator) : cut separator (before ++ separator :: after) = (before, after) := by
  have passes : ∀ octet ∈ before, (octet != separator) = true := fun octet inside => by simpa using plain octet inside
  rw [cut, List.takeWhile_append_of_pos passes, List.dropWhile_append_of_pos passes]
  simp

theorem searchParam_pair {name value : List Char} (named : ∀ octet ∈ Utf8.encode name, IsPlain octet)
    (valued : ∀ octet ∈ Utf8.encode value, IsPlain octet) (present : name ≠ []) (first : name.head? ≠ some '?') :
    searchParam (name ++ '=' :: value) (String.ofList name) = some value := by
  have octets : Utf8.encode (name ++ '=' :: value) = Utf8.encode name ++ 0x3d :: Utf8.encode value := by
    rw [Utf8.encode_append, Utf8.encode_cons]
    rfl
  have whole : (Utf8.encode (name ++ '=' :: value)).splitOn 0x26 = [Utf8.encode (name ++ '=' :: value)] := by
    refine List.splitOnP_eq_singleton fun octet inside => ?_
    rw [octets, List.mem_append, List.mem_cons] at inside
    rcases inside with inside | rfl | inside
    · simpa using (named octet inside).1
    · rfl
    · simpa using (valued octet inside).1
  have start : (name ++ '=' :: value).head? ≠ some '?' := by
    rw [List.head?_append_of_ne_nil _ present]
    exact first
  have filled : Utf8.encode (name ++ '=' :: value) ≠ [] := by
    rw [octets]
    simp
  rw [searchParam, if_neg start, queryPairs, whole]
  simp only [List.filter_cons, filled, decide_not, decide_false, Bool.not_false, if_true, List.filter_nil,
    List.map_cons, List.map_nil]
  rw [octets, cut_append _ fun octet inside => (named octet inside).2.1, Prod.map_apply, queryText_plain named,
    queryText_plain valued]
  rw [String.toList_ofList, List.lookup_cons_self]

/-! ### The fragment behind an encoded component -/

private theorem hexUpper_ne {n : Nat} (small : n < 16) : hexUpper n ≠ '#' := by
  revert n
  decide

theorem hash_notMem_encodeURIComponent (text : List Char) : '#' ∉ encodeURIComponent text := by
  intro member
  obtain ⟨c, -, inside⟩ := List.mem_flatMap.mp member
  split at inside
  next kept =>
    rw [← List.mem_singleton.mp inside] at kept
    exact absurd kept (by decide)
  next =>
    obtain ⟨octet, -, inside⟩ := List.mem_flatMap.mp inside
    have range := octet.toNat_lt
    simp only [percent, List.mem_cons, List.not_mem_nil, or_false] at inside
    rcases inside with same | same | same
    · cases same
    · exact hexUpper_ne (by omega) same.symm
    · exact hexUpper_ne (by omega) same.symm

theorem fragment_append {before : List Char} (after : List Char) (plain : '#' ∉ before) :
    fragment (before ++ '#' :: after) = '#' :: after := by
  have passes : ∀ c ∈ before, (decide (c ≠ '#')) = true := fun c inside =>
    decide_eq_true fun same => plain (same ▸ inside)
  rw [fragment, List.dropWhile_append_of_pos passes]
  rfl

end SlothBox.Library.Url

import SlothBox.AuditChain
import SlothBox.Library.HashChain

/-! What `verify_audit_chain` accepts, and what an accepted chain pins down. The
verifier's loop is reduced once to two conditions on the table: every row behind
the genesis row carries its own hash, and the rows are linked. -/

namespace SlothBox.Proofs
open Library HashChain

/-! ### The cast to bytea -/

theorem unescape_plain {text : List Char} (plain : '\\' ∉ text) : unescape text = some (Utf8.encode text) := by
  induction text with
  | nil => rfl
  | cons c rest ih =>
    obtain ⟨other, plain⟩ := List.ne_and_not_mem_of_not_mem_cons plain
    unfold unescape
    rw [if_pos (Ne.symm other), ih plain]
    rfl

theorem byteaIn_plain {text : List Char} (plain : '\\' ∉ text) : byteaIn text = some (Utf8.encode text) := by
  unfold byteaIn
  rw [if_neg, unescape_plain plain]
  intro marked
  obtain ⟨rest, rfl⟩ := List.isPrefixOf_iff_prefix.mp marked
  exact plain (List.mem_append_left _ (by decide))

/-- On JSON text the cast succeeds character by character, a backslash being doubled. -/
theorem unescape_cases {text : List Char} {bytes : Bytes} (escaped : jsonEscaped text)
    (read : unescape text = some bytes) :
    text = [] ∧ bytes = [] ∨ ∃ c rest more, text = (if c = '\\' then '\\' :: '\\' :: rest else c :: rest) ∧
      jsonEscaped rest ∧ unescape rest = some more ∧ bytes = String.utf8EncodeChar c ++ more := by
  cases text with
  | nil => exact .inl ⟨rfl, (Option.some.inj read).symm⟩
  | cons c rest =>
    refine .inr ?_
    unfold unescape at read
    unfold jsonEscaped at escaped
    by_cases plain : c ≠ '\\'
    · rw [if_pos plain] at read escaped
      obtain ⟨more, tail, same⟩ := Option.map_eq_some_iff.mp read
      exact ⟨c, rest, more, by rw [if_neg plain], escaped, tail, same.symm⟩
    · rw [if_neg plain] at read escaped
      cases rest with
      | nil => cases read
      | cons d others =>
        dsimp only at read escaped
        by_cases doubled : d = '\\'
        · subst doubled
          rw [if_pos rfl] at read
          rw [if_neg (by decide), Bool.and_eq_true] at escaped
          obtain ⟨more, tail, same⟩ := Option.map_eq_some_iff.mp read
          exact ⟨'\\', others, more, by rw [not_not.mp plain, if_pos rfl], escaped.2, tail, same.symm⟩
        · -- no other JSON escape is an octal one
          have digit : octalDigit? d = none := by
            by_cases unicode : d = 'u'
            · subst unicode
              decide
            · rw [if_neg unicode, Bool.and_eq_true, List.contains_iff_mem] at escaped
              have member := escaped.1
              simp only [List.mem_cons, List.not_mem_nil, or_false, doubled, false_or] at member
              rcases member with rfl | rfl | rfl | rfl | rfl | rfl <;> decide
          rw [if_neg doubled] at read
          split at read
          · simp [octal?, digit] at read
          · cases read

theorem unescape_inj {first second : List Char} {bytes : Bytes} (escaped : jsonEscaped first)
    (escaped' : jsonEscaped second) (read : unescape first = some bytes) (read' : unescape second = some bytes) :
    first = second := by
  induction h : first.length using Nat.strong_induction_on generalizing first second bytes with
  | _ size ih =>
    rcases unescape_cases escaped read with ⟨rfl, rfl⟩ | ⟨c, rest, more, rfl, left, tail, rfl⟩
    · rcases unescape_cases escaped' read' with ⟨rfl, -⟩ | ⟨d, _, _, _, _, _, same⟩
      · rfl
      · simp [String.utf8EncodeChar_ne_nil] at same
    · rcases unescape_cases escaped' read' with ⟨-, same⟩ | ⟨d, rest', more', rfl, left', tail', same⟩
      · simp [String.utf8EncodeChar_ne_nil] at same
      · obtain ⟨rfl, rfl⟩ := Utf8.char_cancel same
        have shorter : rest.length < size := by
          rw [← h]
          split <;> simp only [List.length_cons] <;> omega
        rw [ih rest.length shorter left left' tail tail' rfl]

theorem byteaIn_json (payload : Jsonb) : byteaIn payload.text.toList = unescape payload.text.toList := by
  unfold byteaIn
  rw [if_neg]
  intro marked
  obtain ⟨rest, same⟩ := List.isPrefixOf_iff_prefix.mp marked
  have escaped := payload.escaped
  rw [← same] at escaped
  unfold jsonEscaped at escaped
  simp at escaped

theorem payload_inj {first second : Jsonb} {bytes : Bytes} (read : byteaIn first.text.toList = some bytes)
    (read' : byteaIn second.text.toList = some bytes) : first = second := by
  rw [byteaIn_json] at read read'
  have same := unescape_inj first.escaped second.escaped read read'
  obtain ⟨text, _, _⟩ := first
  obtain ⟨text', _, _⟩ := second
  cases String.toList_injective same
  rfl

/-! ### The hash input -/

theorem plain_name (eventType : EventType) : '\\' ∉ eventType.name.toList := by
  cases eventType <;> decide

theorem name_inj {first second : EventType} (same : first.name = second.name) : first = second := by
  cases first <;> cases second <;> first | rfl | (revert same; decide)

theorem length_name_lt (eventType : EventType) : eventType.name.length < 4294967296 := by
  cases eventType <;> decide +kernel

section Hash
variable {sha256 : Bytes → Bytes} {session : Session}

theorem preimage_eq_some {prevHash input : Bytes} {time : TimestampTz} {eventType : EventType} {payload : Jsonb} :
    preimage session prevHash time eventType.name payload = some input ↔
      ∃ body, byteaIn payload.text.toList = some body ∧
        input = prevHash ++ u32be (session.text time).length ++ Utf8.encode (session.text time).toList ++
          u32be eventType.name.length ++ Utf8.encode eventType.name.toList ++ u32be payload.text.length ++ body := by
  simp only [preimage, byteaIn_plain (session.plain time), byteaIn_plain (plain_name eventType),
    Option.bind_eq_bind, Option.bind_some, Option.bind_eq_some_iff, Option.some.injEq, Option.pure_def]
  exact exists_congr fun body => and_congr_right fun _ => eq_comm

/-- The character counts delimit the fields although the fields are octets. -/
theorem fields_cancel {first second : String} {rest other : Bytes} (small : first.length < 4294967296)
    (small' : second.length < 4294967296)
    (same : u32be first.length ++ (Utf8.encode first.toList ++ rest) =
      u32be second.length ++ (Utf8.encode second.toList ++ other)) : first = second ∧ rest = other := by
  obtain ⟨lengths, remaining⟩ := List.append_inj same rfl
  have equal := u32be_inj small small' lengths
  obtain ⟨texts, rests⟩ := Utf8.encode_cancel (by simpa only [String.length_toList] using equal) remaining
  exact ⟨String.toList_injective texts, rests⟩

/-- Equal inputs have equal fields, whichever sessions printed the times. -/
theorem preimage_inj {session' : Session} {prevHash prevHash' input : Bytes} {time time' : TimestampTz}
    {eventType eventType' : EventType} {payload payload' : Jsonb} (length : prevHash.length = prevHash'.length)
    (hashed : preimage session prevHash time eventType.name payload = some input)
    (hashed' : preimage session' prevHash' time' eventType'.name payload' = some input) :
    prevHash = prevHash' ∧ session.text time = session'.text time' ∧ eventType = eventType' ∧ payload = payload' := by
  obtain ⟨body, read, same⟩ := preimage_eq_some.mp hashed
  obtain ⟨body', read', same'⟩ := preimage_eq_some.mp hashed'
  rw [same'] at same
  simp only [List.append_assoc] at same
  obtain ⟨prev, fields⟩ := List.append_inj same length.symm
  have short : ∀ (session : Session) time, (session.text time).length < 4294967296 := fun session time =>
    Nat.lt_of_lt_of_le (session.short time) (by decide : 2 ^ 31 ≤ 4294967296)
  obtain ⟨times, fields⟩ := fields_cancel (short session' time') (short session time) fields
  obtain ⟨names, fields⟩ := fields_cancel (length_name_lt eventType') (length_name_lt eventType) fields
  obtain ⟨-, bodies⟩ := List.append_inj fields rfl
  refine ⟨prev.symm, times.symm, (name_inj names).symm, payload_inj read (bodies ▸ read')⟩

/-- A row is hashable as soon as its payload can be cast. -/
theorem expected_isSome {row : AuditRow} :
    (row.expected sha256 session).isSome ↔ (byteaIn row.payload.text.toList).isSome := by
  simp only [AuditRow.expected, digestEntry, Option.isSome_map, Option.isSome_iff_exists, preimage_eq_some]
  constructor
  · intro found
    obtain ⟨_, body, read, -⟩ := found
    exact ⟨body, read⟩
  · intro found
    obtain ⟨body, read⟩ := found
    exact ⟨_, body, read, rfl⟩

/-! ### The verifier's loop -/

theorem row_eq_of_seq (table : AuditTable) {first second : AuditRow} (inside : first ∈ table.rows)
    (also : second ∈ table.rows) (same : first.seq = second.seq) : first = second := by
  by_contra apart
  have ordered := table.sorted
  rcases List.pairwise_iff_getElem.mp ordered with ordered
  obtain ⟨i, hi, rfl⟩ := List.mem_iff_getElem.mp inside
  obtain ⟨j, hj, rfl⟩ := List.mem_iff_getElem.mp also
  rcases Nat.lt_trichotomy i j with less | rfl | more
  · exact absurd same (Nat.ne_of_lt (ordered i j hi hj less))
  · exact apart rfl
  · exact absurd same.symm (Nat.ne_of_lt (ordered j i hj hi more))

/-- The row carries the hash of its own columns. -/
def Hashed (sha256 : Bytes → Bytes) (session : Session) (row : AuditRow) : Prop :=
  row.expected sha256 session = some row.entryHash

private theorem verifyLoop_cons {vPrev : Option Bytes} {row : AuditRow} {rest : List AuditRow} (later : 1 < row.seq) :
    verifyLoop sha256 session vPrev (row :: rest) = .ok none ↔
      (∀ prev, vPrev = some prev → row.prevHash = prev) ∧ Hashed sha256 session row ∧
        verifyLoop sha256 session (some row.entryHash) rest = .ok none := by
  unfold Hashed
  rw [verifyLoop, if_pos later]
  cases vPrev with
  | none =>
    simp only [Option.any_none, Bool.false_eq_true, ↓reduceIte, reduceCtorEq, false_implies, implies_true, true_and]
    cases hashed : row.expected sha256 session with
    | none => simp
    | some expected => by_cases same : row.entryHash = expected <;> simp [same, eq_comm (a := expected)]
  | some prev =>
    by_cases linked : row.prevHash = prev
    · cases hashed : row.expected sha256 session with
      | none => simp [linked]
      | some expected => by_cases same : row.entryHash = expected <;> simp [linked, same, eq_comm (a := expected)]
    · simp [linked]

/-- On rows behind the genesis row. -/
theorem verifyLoop_later {vPrev : Option Bytes} {rows : List AuditRow} (later : ∀ row ∈ rows, 1 < row.seq) :
    verifyLoop sha256 session vPrev rows = .ok none ↔
      (∀ prev row, vPrev = some prev → rows.head? = some row → row.prevHash = prev) ∧
        (∀ row ∈ rows, Hashed sha256 session row) ∧ Linked AuditRow.prevHash AuditRow.entryHash rows := by
  induction rows generalizing vPrev with
  | nil => simp [verifyLoop, Linked]
  | cons row rest ih =>
    rw [verifyLoop_cons (later row List.mem_cons_self), ih fun other inside => later other (List.mem_cons_of_mem _ inside)]
    simp only [Linked, List.isChain_cons, List.mem_cons, forall_eq_or_imp, Option.some.injEq, List.head?_cons]
    constructor
    · rintro ⟨first, hashed, next, others, linked⟩
      exact ⟨fun prev _ known same => same ▸ first prev known, ⟨hashed, others⟩,
        fun after head => next _ after rfl head, linked⟩
    · rintro ⟨first, ⟨hashed, others⟩, next, linked⟩
      exact ⟨fun prev known => first prev row known rfl, hashed,
        fun _ after same head => same ▸ next after head, others, linked⟩

/-- A loop that can hash every row it meets returns. -/
theorem verifyLoop_returns {vPrev : Option Bytes} {rows : List AuditRow}
    (readable : ∀ row ∈ rows, 1 < row.seq → (row.expected sha256 session).isSome) :
    ∃ result, verifyLoop sha256 session vPrev rows = .ok result := by
  induction rows generalizing vPrev with
  | nil => exact ⟨none, rfl⟩
  | cons row rest ih =>
    have onwards : ∀ prev, ∃ result, verifyLoop sha256 session prev rest = .ok result := fun prev =>
      ih fun other inside => readable other (List.mem_cons_of_mem _ inside)
    rw [verifyLoop]
    split
    next later =>
      split
      · exact ⟨_, rfl⟩
      · obtain ⟨expected, hashed⟩ := Option.isSome_iff_exists.mp (readable row List.mem_cons_self later)
        rw [hashed]
        dsimp only
        split
        · exact ⟨_, rfl⟩
        · exact onwards _
    next => exact onwards _

theorem verify_eq (table : AuditTable) :
    table.verify sha256 session = verifyLoop sha256 session none table.rows := by
  have all : table.rows.filter (fun row => 1 ≤ row.seq && (none : Option Nat).all (row.seq ≤ ·)) = table.rows :=
    List.filter_eq_self.mpr fun row inside => by simpa using table.positive row inside
  rw [AuditTable.verify, verifyAuditChain, if_neg (by decide), all]

/-- Acceptance in terms of the table. -/
theorem verify_accepts (table : AuditTable) :
    table.verify sha256 session = .ok none ↔
      (∀ row ∈ table.rows, 1 < row.seq → Hashed sha256 session row) ∧
        Linked AuditRow.prevHash AuditRow.entryHash table.rows := by
  rw [verify_eq]
  obtain ⟨rows, sorted, positive⟩ := table
  cases rows with
  | nil => simp [verifyLoop, Linked]
  | cons row rest =>
    have least := positive row List.mem_cons_self
    have later : ∀ other ∈ rest, 1 < other.seq := fun other inside =>
      Nat.lt_of_le_of_lt least ((List.pairwise_cons.mp sorted).1 other inside)
    have hashes : (∀ other ∈ rest, 1 < other.seq → Hashed sha256 session other) ↔
        ∀ other ∈ rest, Hashed sha256 session other :=
      ⟨fun all other inside => all other inside (later other inside), fun all other inside _ => all other inside⟩
    have behind : verifyLoop sha256 session (some row.entryHash) rest = .ok none ↔
        (∀ other ∈ rest, Hashed sha256 session other) ∧
          Linked AuditRow.prevHash AuditRow.entryHash (row :: rest) := by
      rw [verifyLoop_later later, Linked, Linked, List.isChain_cons]
      constructor
      · rintro ⟨first, hashed, linked⟩
        exact ⟨hashed, fun after head => first _ after rfl head, linked⟩
      · rintro ⟨hashed, first, linked⟩
        refine ⟨fun prev after same head => ?_, hashed, linked⟩
        rw [first after head, Option.some.inj same]
    simp only [List.mem_cons, forall_eq_or_imp, hashes]
    by_cases genesis : 1 < row.seq
    · rw [verifyLoop_cons genesis, behind]
      simp only [reduceCtorEq, false_implies, implies_true, true_and, genesis, true_implies, and_assoc]
    · rw [verifyLoop, if_neg genesis, behind]
      simp only [genesis, false_implies, true_and]

/-- Anything else than acceptance is a reported row, if only every row can be hashed. -/
theorem verify_reports {table : AuditTable}
    (readable : ∀ row ∈ table.rows, 1 < row.seq → (row.expected sha256 session).isSome)
    (refused : table.verify sha256 session ≠ .ok none) : ∃ seq, table.verify sha256 session = .ok (some seq) := by
  rw [verify_eq] at refused ⊢
  obtain ⟨result, returned⟩ := verifyLoop_returns readable
  cases result with
  | none => exact absurd returned refused
  | some seq => exact ⟨seq, returned⟩

end Hash

/-! ### A small chain

The genesis row and two entries, with their real digests. -/

/-- ISO output in UTC at the epoch; other times are spelled in binary. -/
def sampleSession : Session where
  text time :=
    if time = 0 then "2000-01-01 00:00:00+00"
    else String.ofList ((List.range 64).map fun bit => if time.val.testBit bit then '1' else '0')
  plain time := by
    split
    · decide
    · simp only [String.toList_ofList, List.mem_map, not_exists, not_and]
      intro bit _
      split <;> decide
  short time := by
    split
    · decide +kernel
    · simp

theorem sampleSession_injective : Function.Injective sampleSession.text := by
  intro first second same
  have width : "2000-01-01 00:00:00+00".length = 22 := by decide +kernel
  simp only [sampleSession] at same
  split at same <;> split at same
  next zero zero' => rw [zero, zero']
  next => exact absurd (congrArg String.length same) (by simp [width])
  next => exact absurd (congrArg String.length same) (by simp [width])
  next =>
    have digits := List.map_inj_left.mp (String.ofList_injective same)
    refine Fin.ext (Nat.eq_of_testBit_eq fun bit => ?_)
    by_cases inside : bit < 64
    · have digit := digits bit (List.mem_range.mpr inside)
      cases left : first.val.testBit bit <;> cases right : second.val.testBit bit <;> simp [left, right] at digit ⊢
    · have large : ∀ time : TimestampTz, time.val.testBit bit = false := fun time =>
        Nat.testBit_lt_two_pow (Nat.lt_of_lt_of_le time.isLt (Nat.pow_le_pow_right (by decide) (Nat.le_of_not_lt inside)))
      rw [large, large]

def samplePayload : Jsonb where
  text := "\x7b\"shortId\": \"abcdefghjkmn\"\x7d"
  escaped := by decide +kernel
  short := by decide +kernel

def genesisDigest : Bytes :=
  [84, 29, 197, 74, 5, 42, 142, 238, 81, 2, 40, 142, 122, 184, 210, 123,
    35, 164, 25, 221, 80, 44, 217, 49, 114, 174, 93, 180, 128, 38, 128, 25]

def createdDigest : Bytes :=
  [137, 213, 87, 68, 58, 41, 202, 74, 166, 29, 4, 188, 98, 160, 245, 57,
    138, 104, 69, 148, 86, 19, 90, 72, 237, 76, 217, 78, 141, 10, 51, 131]

def destroyedDigest : Bytes :=
  [99, 130, 176, 230, 118, 72, 3, 244, 245, 217, 139, 97, 154, 212, 115, 131,
    207, 107, 173, 229, 5, 11, 10, 161, 13, 134, 218, 238, 7, 148, 22, 102]

/-- The input of one entry at the epoch. -/
def sampleInput (prevHash : Bytes) (eventType : EventType) : Bytes :=
  prevHash ++ u32be 22 ++ Utf8.encode "2000-01-01 00:00:00+00".toList ++ u32be eventType.name.length ++
    Utf8.encode eventType.name.toList ++ u32be 27 ++ Utf8.encode samplePayload.text.toList

def sampleSha256 : Bytes → Bytes :=
  patched [(Utf8.encode "slothbox-genesis-v0.1.0-alpha".toList, genesisDigest),
    (sampleInput genesisDigest .shareCreated, createdDigest),
    (sampleInput createdDigest .shareDestroyed, destroyedDigest)]

theorem sampleSha256_injective : Function.Injective sampleSha256 :=
  patched_injective (by decide +kernel) (by decide +kernel)

def sampleCreated : AuditRow where
  seq := 2
  occurredAt := 0
  eventType := .shareCreated
  shareId := some "8c1f0d6e"
  payload := samplePayload
  prevHash := genesisDigest
  entryHash := createdDigest

def sampleDestroyed : AuditRow where
  seq := 3
  occurredAt := 0
  eventType := .shareDestroyed
  shareId := some "8c1f0d6e"
  payload := samplePayload
  prevHash := createdDigest
  entryHash := destroyedDigest

def sampleTable : AuditTable where
  rows := [genesisRow sampleSha256 0, sampleCreated, sampleDestroyed]
  sorted := by simp [genesisRow, sampleCreated, sampleDestroyed]
  positive := by simp [genesisRow, sampleCreated, sampleDestroyed]

theorem genesis_mem_sampleTable : genesisRow sampleSha256 0 ∈ sampleTable.rows := List.mem_cons_self

theorem sampleCreated_mem : sampleCreated ∈ sampleTable.rows := List.mem_cons_of_mem _ List.mem_cons_self

theorem sampleDestroyed_mem : sampleDestroyed ∈ sampleTable.rows :=
  List.mem_cons_of_mem _ (List.mem_cons_of_mem _ List.mem_cons_self)

theorem sampleTable_accepted : sampleTable.verify sampleSha256 sampleSession = .ok none := by
  decide +kernel

end SlothBox.Proofs

import Mathlib.Algebra.GroupWithZero.Nat
import SlothBox.Store
import SlothBox.Library.Utf8

/-! The hash chain of `audit_chain`: what an entry hashes, how the chain is
verified, and what the table holds. A text goes into the hash through the cast to
`bytea`, which reads backslashes as escapes. -/

namespace SlothBox
open Library

def EventType.name : EventType → String
  | .shareCreated => "share_created"
  | .shareDownloaded => "share_downloaded"
  | .shareDestroyed => "share_destroyed"
  | .chainAnchor => "chain_anchor"
  | .authLogin => "auth_login"
  | .adminAction => "admin_action"

/-- `audit_chain_event_type_chk`. -/
def EventType.parse? (name : String) : Option EventType :=
  [.shareCreated, .shareDownloaded, .shareDestroyed, .chainAnchor, .authLogin, .adminAction].find? (·.name = name)

/-- A stored TIMESTAMPTZ: eight octets that count microseconds. -/
abbrev TimestampTz := Fin (2 ^ 64)

instance neZeroTimestampTz : NeZero (2 ^ 64) := ⟨by decide⟩

/-- How a session prints a timestamp; it depends on TimeZone and DateStyle. -/
structure Session where
  text : TimestampTz → String
  plain : ∀ time, '\\' ∉ (text time).toList
  short : ∀ time, (text time).length < 2 ^ 31

/-! ### text::bytea -/

def octalDigit? (c : Char) : Option Nat := if '0' ≤ c ∧ c ≤ '7' then some (c.toNat - 48) else none

/-- Three octal digits, the first at most 3. -/
def octal? (a b c : Char) : Option UInt8 := do
  let high ← octalDigit? a
  let middle ← octalDigit? b
  let low ← octalDigit? c
  if 3 < high then none else some (UInt8.ofNat (high * 64 + middle * 8 + low))

/-- The escape format: a doubled backslash is one, three octal digits are an octet,
and any other backslash is an error. -/
def unescape : List Char → Option Bytes
  | [] => some []
  | c :: rest =>
    if c ≠ '\\' then (unescape rest).map (String.utf8EncodeChar c ++ ·)
    else match rest with
      | [] => none
      | d :: more =>
        if d = '\\' then (unescape more).map (String.utf8EncodeChar '\\' ++ ·)
        else match more with
          | e :: f :: others => do
            let octet ← octal? d e f
            (unescape others).map (octet :: ·)
          | _ => none

/-- The hex format behind its marker; white space may stand between the pairs. -/
def unhex : List Char → Option Bytes
  | [] => some []
  | c :: rest =>
    if c = ' ' ∨ c = '\n' ∨ c = '\t' ∨ c = '\r' then unhex rest
    else match rest with
      | [] => none
      | d :: more => do
        let high ← hexDigit? c
        let low ← hexDigit? d
        (unhex more).map (UInt8.ofNat (high * 16 + low) :: ·)

/-- The input function of `bytea`. -/
def byteaIn (text : List Char) : Option Bytes :=
  if "\\x".toList.isPrefixOf text then unhex (text.drop 2) else unescape text

/-! ### Rows -/

/-- Backslashes as JSON output writes them. -/
def jsonEscaped : List Char → Bool
  | [] => true
  | c :: rest =>
    if c ≠ '\\' then jsonEscaped rest
    else match rest with
      | [] => false
      | d :: more =>
        if d = 'u' then
          match more with
          | a :: b :: e :: f :: others => [a, b, e, f].all (fun digit => (hexDigit? digit).isSome) && jsonEscaped others
          | _ => false
        else ['\\', '"', 'b', 'f', 'n', 'r', 't'].contains d && jsonEscaped more

/-- A JSONB value as its text. -/
structure Jsonb where
  text : String
  escaped : jsonEscaped text.toList
  short : text.length < 2 ^ 31
  deriving DecidableEq

structure AuditRow where
  seq : Nat
  occurredAt : TimestampTz
  eventType : EventType
  shareId : Option String
  payload : Jsonb
  prevHash : Bytes
  entryHash : Bytes
  deriving DecidableEq

inductive SqlError where
  | invalidBytea
  | genesisMissing
  | eventTypeCheck
  deriving DecidableEq, Repr

section Hash
variable (sha256 : Bytes → Bytes) (session : Session)

/-- The hash input: each text behind the number of its characters. -/
def preimage (prevHash : Bytes) (occurredAt : TimestampTz) (eventType : String) (payload : Jsonb) : Option Bytes := do
  let time ← byteaIn (session.text occurredAt).toList
  let event ← byteaIn eventType.toList
  let body ← byteaIn payload.text.toList
  return prevHash ++ u32be (session.text occurredAt).length ++ time ++ u32be eventType.length ++ event ++
    u32be payload.text.length ++ body

def digestEntry (prevHash : Bytes) (occurredAt : TimestampTz) (eventType : String) (payload : Jsonb) : Option Bytes :=
  (preimage session prevHash occurredAt eventType payload).map sha256

/-- `v_expected` of a stored row. -/
def AuditRow.expected (row : AuditRow) : Option Bytes :=
  digestEntry sha256 session row.prevHash row.occurredAt row.eventType.name row.payload

/-- The loop of `verify_audit_chain`. `v_prev` starts as NULL, and a comparison with
NULL does not take the branch. -/
def verifyLoop : Option Bytes → List AuditRow → Except SqlError (Option Nat)
  | _, [] => .ok none
  | vPrev, row :: rest =>
    if 1 < row.seq then
      if vPrev.any (fun prev => row.prevHash ≠ prev) then .ok (some row.seq)
      else match row.expected sha256 session with
        | none => .error .invalidBytea
        | some expected =>
          if row.entryHash ≠ expected then .ok (some row.seq) else verifyLoop (some row.entryHash) rest
    else verifyLoop (some row.entryHash) rest

/-- `verify_audit_chain`, on the rows in the order of their numbers. -/
def verifyAuditChain (rows : List AuditRow) (pFrom : Nat := 1) (pTo : Option Nat := none) :
    Except SqlError (Option Nat) :=
  let range := rows.filter fun row => pFrom ≤ row.seq && pTo.all (row.seq ≤ ·)
  if 1 < pFrom then
    match rows.find? (·.seq = pFrom - 1) with
    | none => .ok (some pFrom)
    | some before => verifyLoop sha256 session (some before.entryHash) range
  else verifyLoop sha256 session none range

/-- `ORDER BY seq DESC LIMIT 1`. -/
def latest : List AuditRow → Option AuditRow
  | [] => none
  | row :: rest =>
    match latest rest with
    | none => some row
    | some other => some (if other.seq < row.seq then row else other)

/-- The INSERT of `append_audit_entry`, with the number the sequence has given. -/
def buildRow (seq : Nat) (now : TimestampTz) (eventType : String) (shareId : Option String) (payload : Jsonb)
    (prevHash : Bytes) : Except SqlError AuditRow :=
  match digestEntry sha256 session prevHash now eventType payload with
  | none => .error .invalidBytea
  | some entryHash =>
    match EventType.parse? eventType with
    | none => .error .eventTypeCheck
    | some eventType => .ok ⟨seq, now, eventType, shareId, payload, prevHash, entryHash⟩

/-- `append_audit_entry` with the table to itself: the number that it returns, and the rows
that are in the table afterwards. -/
def appendAuditEntry (seq : Nat) (now : TimestampTz) (eventType : String) (shareId : Option String) (payload : Jsonb)
    (rows : List AuditRow) : Except SqlError (Nat × List AuditRow) :=
  match latest rows with
  | none => .error .genesisMissing
  | some last => (buildRow sha256 session seq now eventType shareId payload last.entryHash).map
      fun row => (row.seq, rows ++ [row])

def genesisPayload : Jsonb where
  text := "\x7b\"genesis\": true, \"version\": \"0.1.0-alpha\"\x7d"
  escaped := by decide +kernel
  short := by decide +kernel

/-- The row that the first migration inserts. Its hash is not computed from its columns. -/
def genesisRow (now : TimestampTz) : AuditRow where
  seq := 1
  occurredAt := now
  eventType := .chainAnchor
  shareId := none
  payload := genesisPayload
  prevHash := List.replicate 32 0
  entryHash := sha256 (Utf8.encode "slothbox-genesis-v0.1.0-alpha".toList)

end Hash

/-- The table, in the order of its primary key. A BIGSERIAL counts from 1. -/
structure AuditTable where
  rows : List AuditRow
  sorted : rows.Pairwise fun before after => before.seq < after.seq
  positive : ∀ row ∈ rows, 1 ≤ row.seq

def AuditTable.verify (sha256 : Bytes → Bytes) (session : Session) (table : AuditTable) :
    Except SqlError (Option Nat) := verifyAuditChain sha256 session table.rows

/-- A new value for one column of one row. -/
inductive Edit where
  | occurredAt (value : TimestampTz)
  | eventType (value : EventType)
  | shareId (value : Option String)
  | payload (value : Jsonb)
  | prevHash (value : Bytes)
  | entryHash (value : Bytes)

def Edit.apply (row : AuditRow) : Edit → AuditRow
  | .occurredAt value => { row with occurredAt := value }
  | .eventType value => { row with eventType := value }
  | .shareId value => { row with shareId := value }
  | .payload value => { row with payload := value }
  | .prevHash value => { row with prevHash := value }
  | .entryHash value => { row with entryHash := value }

theorem Edit.seq_apply (edit : Edit) (row : AuditRow) : (Edit.apply row edit).seq = row.seq := by
  cases edit <;> rfl

/-- UPDATE of one column in the row with the given number. -/
def AuditTable.update (table : AuditTable) (seq : Nat) (edit : Edit) : AuditTable where
  rows := table.rows.map fun row => if row.seq = seq then Edit.apply row edit else row
  sorted := by
    refine List.pairwise_map.mpr (table.sorted.imp fun {before after} less => ?_)
    split <;> split <;> simpa only [Edit.seq_apply] using less
  positive := by
    intro row member
    obtain ⟨old, inside, rfl⟩ := List.mem_map.mp member
    split <;> simpa only [Edit.seq_apply] using table.positive old inside

/-- DELETE of all rows but those whose number is kept. -/
def AuditTable.keep (table : AuditTable) (kept : Nat → Bool) : AuditTable where
  rows := table.rows.filter fun row => kept row.seq
  sorted := table.sorted.filter _
  positive row member := table.positive row (List.mem_of_mem_filter member)

end SlothBox

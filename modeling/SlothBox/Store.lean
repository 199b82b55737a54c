import Mathlib.Algebra.Group.Nat.Defs
import Mathlib.Data.List.AList
import SlothBox.Library.Bytes

/-! The tables and the object store that the three services share, for one share.
Statements are functions of the stored rows; the CHECK constraints and the trigger
of the migrations are part of them. -/

namespace SlothBox
open Library

/-- Microseconds, as `TIMESTAMPTZ` counts them. -/
abbrev Timestamp := Nat

inductive ShareState where
  | pending | uploading | ready | downloaded | expired | destroyed
  deriving DecidableEq, Repr

inductive DestroyedReason where
  | burn | expiry | manual | abuse | maxDownloads
  deriving DecidableEq, Repr

/-- A row of `shares`, without the columns that no service reads back
(`owner_id`, `sender_ip_hash`, `sender_region`). -/
structure ShareRow where
  id : String
  shortId : String
  createdAt : Timestamp
  expiresAt : Timestamp
  burnAfterRead : Bool
  maxDownloads : Option Nat
  downloadCount : Nat
  fileHash : Bytes
  fileSize : Nat
  encryptedMeta : Bytes
  nonceMeta : Bytes
  chunkCount : Nat
  chunkSize : Nat
  state : ShareState
  destroyedAt : Option Timestamp
  destroyedReason : Option DestroyedReason
  passwordProtected : Bool
  passwordSalt : Option Bytes
  passwordKdfOpsLimit : Option Nat
  passwordKdfMemLimitKib : Option Nat
  revokeTokenHash : Option Bytes
  deriving DecidableEq, Repr

/-- A row of `share_chunks`; its key is the chunk index. -/
structure ChunkRow where
  nonce : Bytes
  blobKey : String
  ciphertextSize : Nat
  uploadedAt : Option Timestamp
  servedAt : Option Timestamp
  servedCount : Nat
  downloadTokenHash : Option Bytes
  deriving DecidableEq, Repr

inductive EventType where
  | shareCreated | shareDownloaded | shareDestroyed | chainAnchor | authLogin | adminAction
  deriving DecidableEq, Repr

/-- The `trigger` field of a destruction entry. -/
inductive Trigger where
  | ingestLastChunk | gatewayDownloaded | senderRevokeToken
  deriving DecidableEq, Repr

/-- The audit payloads, one constructor for each place that builds one. -/
inductive AuditPayload where
  | created (shortId : String) (chunkCount : Nat) (burnAfterRead passwordProtected revocable : Bool)
      (ttlSeconds : Int)
  | burned (shortId : String) (reason : DestroyedReason) (fileHash : Bytes)
      (destroyedAt : Option Timestamp) (chunkCount : Nat) (trigger : Trigger)
  | downloaded (shortId : String) (becameDestroyed : Bool) (reason : Option DestroyedReason)
      (trigger : Option Trigger)
  | revoked (shortId : String) (reason : DestroyedReason) (trigger : Trigger)
  | reaped (shareId shortId : String) (reason : DestroyedReason) (fileHash : Bytes)
      (destroyedAt : Option Timestamp) (chunkCount : Nat)
  deriving DecidableEq, Repr

def AuditPayload.trigger : AuditPayload → Option Trigger
  | .burned _ _ _ _ _ trigger => some trigger
  | .downloaded _ _ _ trigger => trigger
  | .revoked _ _ trigger => some trigger
  | .created .. | .reaped .. => none

structure AuditEvent where
  eventType : EventType
  shareId : Option String
  payload : AuditPayload
  deriving DecidableEq, Repr

/-- Committed rows of one share and its objects. The chain is seen here as the
list of its events; their hashes are the subject of `SlothBox.AuditChain`. -/
structure Store where
  share : Option ShareRow
  chunks : AList (fun _ : Nat => ChunkRow)
  blobs : AList (fun _ : String => Bytes)
  audit : List AuditEvent

def Store.empty : Store := ⟨none, ∅, ∅, []⟩

def Store.state (store : Store) : Option ShareState := store.share.map ShareRow.state

/-- `destroyed` and `expired`: the states from which a share is not served. -/
def ShareState.terminal : ShareState → Bool
  | .expired | .destroyed => true
  | _ => false

def Store.ended (store : Store) : Bool := store.share.any (·.state.terminal)

/-! ### Row predicates and updates of the services -/

def ShareRow.canAcceptUploads (row : ShareRow) : Bool :=
  row.state = .pending || row.state = .uploading

def ShareRow.canServeDownloads (row : ShareRow) : Bool :=
  row.state = .ready || row.state = .downloaded

def ShareRow.isExpired (row : ShareRow) (now : Timestamp) : Bool := row.expiresAt ≤ now

/-- The CHECK constraints of `shares` that an INSERT can violate. A comparison with
NULL is not false, so a constraint lets it pass. -/
def ShareRow.checks (row : ShareRow) : Bool :=
  row.createdAt < row.expiresAt && 0 < row.chunkCount && 0 < row.chunkSize &&
    (if row.passwordProtected then
      row.passwordSalt.all (·.length == 16) &&
        row.passwordKdfOpsLimit.all (fun ops => 1 ≤ ops && ops ≤ 10) &&
        row.passwordKdfMemLimitKib.all (fun kib => 8192 ≤ kib && kib ≤ 1048576)
    else row.passwordSalt.isNone && row.passwordKdfOpsLimit.isNone && row.passwordKdfMemLimitKib.isNone) &&
    row.revokeTokenHash.all (·.length == 32)

/-- The ranges of the numeric columns. -/
def ShareRow.fits (row : ShareRow) : Bool :=
  row.maxDownloads.all (· < 2 ^ 31) && row.fileSize < 2 ^ 63 && row.chunkCount < 2 ^ 31 &&
    row.chunkSize < 2 ^ 31 && row.passwordKdfOpsLimit.all (· < 2 ^ 15) &&
    row.passwordKdfMemLimitKib.all (· < 2 ^ 31)

/-- The trigger `clear_chunk_delivery_on_replace`, run before every UPDATE of a chunk row. -/
def clearChunkDeliveryOnReplace (old new : ChunkRow) : ChunkRow :=
  if new.blobKey ≠ old.blobKey ∨ new.uploadedAt ≠ old.uploadedAt then
    { new with servedAt := none, servedCount := 0 }
  else new

/-- The row `INSERT … ON CONFLICT DO UPDATE` leaves for a chunk. -/
def upsertChunk (store : Store) (index : Nat) (nonce : Bytes) (blobKey : String)
    (ciphertextSize : Nat) (uploadedAt : Timestamp) (downloadTokenHash : Option Bytes) : ChunkRow :=
  let fresh : ChunkRow := ⟨nonce, blobKey, ciphertextSize, some uploadedAt, none, 0, downloadTokenHash⟩
  match store.chunks.lookup index with
  | none => fresh
  | some old => clearChunkDeliveryOnReplace old fresh

/-- `SELECT COUNT(*) … WHERE uploaded_at IS NOT NULL`. -/
def Store.countUploadedChunks (store : Store) : Nat :=
  store.chunks.entries.countP (fun entry => entry.2.uploadedAt.isSome)

/-- `SELECT COUNT(*) … WHERE served_at IS NULL`. -/
def Store.countUnserved (store : Store) : Nat :=
  store.chunks.entries.countP (fun entry => entry.2.servedAt.isNone)

/-- The UPDATE of `increment_download`, or nothing when its WHERE clause does not match. -/
def incrementDownload (now : Timestamp) (row : ShareRow) : Option ShareRow :=
  if (row.state = .ready ∨ row.state = .downloaded) ∧ now < row.expiresAt then
    some { row with
      downloadCount := row.downloadCount + 1
      state :=
        if row.burnAfterRead then .destroyed
        else if row.maxDownloads.any (· ≤ row.downloadCount + 1) then .expired
        else row.state
      destroyedAt := if row.burnAfterRead then some now else row.destroyedAt
      destroyedReason := if row.burnAfterRead then some .burn else row.destroyedReason }
  else none

/-- `mark_chunk_served` stamps the first delivery and counts every one. -/
def stampServed (now : Timestamp) (row : ChunkRow) : ChunkRow :=
  clearChunkDeliveryOnReplace row
    { row with servedAt := row.servedAt.or (some now), servedCount := row.servedCount + 1 }

/-- The flip of `mark_chunk_served`. -/
def burn (now : Timestamp) (row : ShareRow) : ShareRow :=
  { row with state := .destroyed, destroyedAt := some now, destroyedReason := some .burn,
             downloadCount := row.downloadCount + 1 }

/-- The UPDATE of `POST /destroy`. It is not guarded by the current state. -/
def revoke (now : Timestamp) (row : ShareRow) : ShareRow :=
  { row with state := .destroyed, destroyedAt := some now, destroyedReason := some .manual }

/-- `updateShareDestroyedSQL`. -/
def reapUpdate (now : Timestamp) (reason : DestroyedReason) (row : ShareRow) : ShareRow :=
  { row with state := .destroyed, destroyedAt := row.destroyedAt.or (some now), destroyedReason := some reason }

def classifyReason (row : ShareRow) (now : Timestamp) : DestroyedReason :=
  if row.burnAfterRead && row.state = .destroyed && row.destroyedAt.isSome then .burn
  else if row.maxDownloads.any (· ≤ row.downloadCount) then .maxDownloads
  else if row.expiresAt < now then .expiry
  -- the default the source keeps for a candidate query out of step
  else .expiry

/-- The WHERE clause of `selectReapableSQL`. -/
def Store.reapable (store : Store) (now : Timestamp) : Bool :=
  match store.share with
  | none => false
  | some row =>
    let chunksLeft := !store.chunks.entries.isEmpty
    ((row.state = .ready || row.state = .uploading || row.state = .pending) &&
        (row.expiresAt < now || row.maxDownloads.any (· ≤ row.downloadCount))) ||
      (row.state = .destroyed && row.destroyedAt.isSome && chunksLeft) ||
      (row.state = .expired && chunksLeft)

/-! ### Write sets -/

/-- What a statement or a transaction writes. A whole row is written only under
its row lock, so it replaces the stored one. -/
structure WriteSet where
  share : Option ShareRow := none
  chunk : Option (Nat × ChunkRow) := none
  dropChunks : Bool := false
  events : List AuditEvent := []

def WriteSet.apply (writes : WriteSet) (store : Store) : Store :=
  { store with
    share := writes.share.or store.share
    chunks :=
      if writes.dropChunks then ∅
      else match writes.chunk with
        | none => store.chunks
        | some (index, row) => store.chunks.insert index row
    audit := store.audit ++ writes.events }

/-- Later writes of one transaction win over its earlier ones. -/
def WriteSet.merge (first second : WriteSet) : WriteSet :=
  { share := second.share.or first.share
    chunk := second.chunk.or first.chunk
    dropChunks := first.dropChunks || second.dropChunks
    events := first.events ++ second.events }

/-- Whether the write set holds the row lock of a chunk. -/
def WriteSet.touches (writes : WriteSet) (index : Nat) : Bool :=
  writes.dropChunks || writes.chunk.any (·.1 == index)

end SlothBox

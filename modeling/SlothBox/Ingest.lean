import Mathlib.Algebra.Group.Nat.Defs
import SlothBox.Database
import SlothBox.Library.Base64

/-! The ingest service: `PUT /chunk` and `GET /chunk`, each as the sequence of its
database statements and object-store calls, with `mark_chunk_served` statement by
statement inside its transaction. -/

namespace SlothBox
open Library

/-- `TryDecodeBase64Url`. -/
def tryDecodeBase64Url (input : String) : Option Bytes :=
  if input.isEmpty then none
  else
    let s := input.toList.map Base64.ofUrlChar
    match s.length % 4 with
    | 0 => Base64.fromBase64String s
    | 2 => Base64.fromBase64String (s ++ ['=', '='])
    | 3 => Base64.fromBase64String (s ++ ['='])
    | _ => none

/-- `EncodeBase64Url`. -/
def DownloadEndpoint.encodeBase64Url (data : Bytes) : String :=
  let b64 := Base64.encode data
  String.ofList (((b64.rdropWhile (· == '=')).map (Base64.replaceChar '+' '-')).map (Base64.replaceChar '/' '_'))

/-- `BuildBlobKey`. -/
def buildBlobKey (shortId : String) (chunkIndex : Nat) : String :=
  shortId ++ "/" ++ toString chunkIndex

/-! ### PUT /chunk/{shortId}/{chunkIndex} -/

structure PutRequest where
  shortId : String
  chunkIndex : Int
  contentLength : Option Int
  nonceHeader : Option String
  tokenHashHeader : Option String
  body : Bytes
  deriving DecidableEq, Repr

/-- What the handler keeps after its checks; `share` is the row as it was read. -/
structure PutPlan where
  share : ShareRow
  index : Nat
  blobKey : String
  nonce : Bytes
  ciphertextSize : Nat
  downloadTokenHash : Option Bytes
  deriving DecidableEq, Repr

def PutRequest.requiredLength (request : PutRequest) : Except Reply Int :=
  match request.contentLength with
  | some length => if length < 0 then .error (.badRequest "content_length_required") else .ok length
  | none => .error (.badRequest "content_length_required")

def PutRequest.requiredNonce (options : IngestOptions) (request : PutRequest) : Except Reply Bytes :=
  match request.nonceHeader with
  | none => .error (.badRequest "missing_nonce_header")
  | some header =>
    if header.isEmpty then .error (.badRequest "missing_nonce_header")
    else match tryDecodeBase64Url header with
      | some nonce => if nonce.length = options.nonceBytes then .ok nonce else .error (.badRequest "invalid_nonce")
      | none => .error (.badRequest "invalid_nonce")

/-- The token commitment is optional, but a header that is there must be well formed. -/
def PutRequest.optionalTokenHash (request : PutRequest) : Except Reply (Option Bytes) :=
  match request.tokenHashHeader with
  | none => .ok none
  | some header =>
    if header.isEmpty then .error (.badRequest "empty_chunk_token_hash_header")
    else match tryDecodeBase64Url header with
      | some hash => if hash.length = 32 then .ok (some hash) else .error (.badRequest "invalid_chunk_token_hash")
      | none => .error (.badRequest "invalid_chunk_token_hash")

/-- Steps 1 to 4a of the upload handler, on the share it has read. -/
def PutRequest.check (options : IngestOptions) (request : PutRequest) (share : ShareRow)
    (now : Timestamp) : Except Reply PutPlan := do
  refuseIf (share.canAcceptUploads = false ∨ share.isExpired now) (.http 410 none)
  refuseIf (request.chunkIndex < 0 ∨ (share.chunkCount : Int) ≤ request.chunkIndex)
    (.badRequest "chunk_index_out_of_range")
  let contentLength ← request.requiredLength
  refuseIf ((options.maxChunkBytes : Int) < contentLength) (.http 413 none)
  -- 32-bit addition, as the source's `int` operands are added
  let expectedFullCiphertext := Int.bmod (share.chunkSize + options.aeadTagBytes) (2 ^ 32)
  let isLastChunk := request.chunkIndex = share.chunkCount - 1
  refuseIf (¬isLastChunk ∧ contentLength ≠ expectedFullCiphertext) (.badRequest "chunk_size_mismatch")
  refuseIf (isLastChunk ∧ expectedFullCiphertext < contentLength) (.badRequest "last_chunk_too_large")
  refuseIf (contentLength = 0) (.badRequest "empty_chunk")
  let nonce ← request.requiredNonce options
  let downloadTokenHash ← request.optionalTokenHash
  return {
    share
    index := request.chunkIndex.toNat
    blobKey := buildBlobKey request.shortId request.chunkIndex.toNat
    nonce
    ciphertextSize := contentLength.toNat
    downloadTokenHash }

inductive PutStep where
  | acquire
  | readShare
  | putBlob (plan : PutPlan)
  | upsert (plan : PutPlan) (uploadedAt : Timestamp)
  | setUploading (plan : PutPlan)
  | countChunks (plan : PutPlan)
  | setReady (plan : PutPlan)
  | done (reply : Reply)
  deriving DecidableEq, Repr

/-- `UpdateShareStateAsync`: the UPDATE names the row by id and nothing else. -/
def updateShareState (db : Database) (id : String) (state : ShareState) : Effect :=
  match db.store.findById id with
  | none => .skip
  | some row => .auto { share := some { row with state } }

def PutStep.created : PutStep := .done (.http 201 none)

def PutStep.exec (env : Env) (db : Database) (request : PutRequest) (clock : Timestamp)
    (outcome : Outcome) : PutStep → Option (PutStep × Effect)
  | .acquire => some (limited outcome (.done (.http 429 none)) .readShare)
  | .readShare =>
    some (attemptRead outcome
      (match db.store.find request.shortId with
        | none => .done (.http 404 (some "share_not_found"))
        | some share =>
          match request.check env.options share clock with
          | .error reply => .done reply
          | .ok plan => .putBlob plan)
      fun failure => .done (.unhandled failure))
  | .putBlob plan =>
    if request.body.length = plan.ciphertextSize then
      some (attempt outcome (.upsert plan clock, .putBlob plan.blobKey request.body) fun
        | .aborted => .done .dropped
        | _ => .done (.http 502 none))
    else some (.done (.badRequest "body_error"), .skip)
  | .upsert plan uploadedAt =>
    -- `shares` rows are never deleted, so the foreign key always finds its row
    if db.blocksUpsert plan.index then none
    else
      some (attempt outcome
        (if plan.share.state = .pending then .setUploading plan else .countChunks plan,
          .auto { chunk := some (plan.index, upsertChunk db.store plan.index plan.nonce plan.blobKey
            plan.ciphertextSize uploadedAt plan.downloadTokenHash) })
        fun _ => .done (.http 502 none))
  -- a failed promotion is logged and the chunk is still acknowledged
  | .setUploading plan =>
    if db.tx.isSome then none
    else some (attempt outcome (.countChunks plan, updateShareState db plan.share.id .uploading) fun _ => .created)
  | .countChunks plan =>
    some (attemptRead outcome
      (if plan.share.chunkCount ≤ db.store.countUploadedChunks then .setReady plan else .created)
      fun _ => .created)
  | .setReady plan =>
    if db.tx.isSome then none
    else some (attempt outcome (.created, updateShareState db plan.share.id .ready) fun _ => .created)
  | .done _ => none

/-! ### mark_chunk_served -/

/-- The row the function returns; `shareState` is NULL if the guarded UPDATE found no row. -/
structure MarkResult where
  burnFired : Bool
  shareState : Option ShareState
  deriving DecidableEq, Repr

inductive MarkStep where
  | lockShare
  | stampChunk (vShare : ShareRow)
  | countUnserved (vShare : ShareRow)
  | flip (vShare : ShareRow)
  | append (vShare : ShareRow)
  | commit (result : MarkResult)
  deriving DecidableEq, Repr

def burnEvent (shareId : String) (vShare : ShareRow) : AuditEvent where
  eventType := .shareDestroyed
  shareId := some shareId
  payload := .burned vShare.shortId .burn vShare.fileHash vShare.destroyedAt vShare.chunkCount .ingestLastChunk

/-- One statement of `mark_chunk_served(shareId, index)`. It ends with the returned
row, or with nothing when the call failed and was rolled back. -/
def MarkStep.exec (db : Database) (shareId : String) (index : Nat) (clock : Timestamp)
    (outcome : Outcome) : MarkStep → Option ((MarkStep ⊕ Option MarkResult) × Effect)
  | .lockShare =>
    if db.tx.isSome then none
    else
      some (match outcome with
        | .ok =>
          match db.store.findById shareId with
          | none => (.inr (some ⟨false, some .destroyed⟩), .skip)
          | some row => (.inl (.stampChunk row), .begin clock)
        | _ => (.inr none, .skip))
  | .stampChunk vShare =>
    some (attemptInside outcome
      (match db.view.chunks.lookup index with
        | none => (.inl (.commit ⟨false, some vShare.state⟩), .skip)
        | some row =>
          (if vShare.burnAfterRead && vShare.state = .ready then .inl (.countUnserved vShare)
            else .inl (.commit ⟨false, some vShare.state⟩),
            .stage { chunk := some (index, stampServed (db.tx.elim clock Transaction.now) row) }))
      (.inr none))
  | .countUnserved vShare =>
    some (attemptInside outcome
      (if db.view.countUnserved = 0 then .inl (.flip vShare)
        else .inl (.commit ⟨false, some vShare.state⟩), .skip)
      (.inr none))
  | .flip _ =>
    some (attemptInside outcome
      (match db.view.findById shareId with
        | none => (.inl (.commit ⟨false, none⟩), .skip)
        | some row =>
          if row.state = .ready then
            let flipped := burn (db.tx.elim clock Transaction.now) row
            (.inl (.append flipped), .stage { share := some flipped })
          else (.inl (.commit ⟨false, none⟩), .skip))
      (.inr none))
  | .append vShare =>
    some (attemptInside outcome
      (.inl (.commit ⟨true, some vShare.state⟩), .stage { events := [burnEvent shareId vShare] })
      (.inr none))
  | .commit result =>
    some (match outcome with
      | .ok => (.inr (some result), .commit)
      | .lost => (.inr none, .commit)
      | _ => (.inr none, .rollback))

/-! ### GET /chunk/{shortId}/{chunkIndex} -/

structure GetRequest where
  shortId : String
  chunkIndex : Int
  authorization : Option String
  deriving DecidableEq, Repr

/-- White space as `TrimStart` removes it. -/
def isWhiteSpace (c : Char) : Bool :=
  ('\x09' ≤ c && c ≤ '\x0d') || c == ' ' || c == '\x85' || c == '\xa0' || c == '\u1680' ||
    ('\u2000' ≤ c && c ≤ '\u200a') || c == '\u2028' || c == '\u2029' || c == '\u202f' ||
    c == '\u205f' || c == '\u3000'

/-- `ExtractChunkTokenHash`. -/
def extractChunkTokenHash (sha256 : Bytes → Bytes) (authorization : Option String) : Option Bytes := do
  let value ← authorization
  if !"Bearer ".toList.isPrefixOf value.toList then none
  let raw := (value.toList.drop 7).dropWhile isWhiteSpace
  if raw.isEmpty then none
  let rawBytes ← tryDecodeBase64Url (String.ofList raw)
  if rawBytes.length ≠ 32 then none
  return sha256 rawBytes

/-- The gates between the two reads and the first byte of the body. -/
def GetRequest.check (env : Env) (request : GetRequest) (share : ShareRow) (chunk : ChunkRow) :
    Except Reply Unit := do
  refuseIf (chunk.servedAt.isSome ∧ share.burnAfterRead) (.http 410 none)
  match chunk.downloadTokenHash with
  | none => .ok ()
  | some stored =>
    match extractChunkTokenHash env.sha256 request.authorization with
    | none => .error (.http 401 none)
    | some incoming => refuseIf (incoming ≠ stored) (.http 403 none)

inductive GetStep where
  | acquire
  | readShare
  | readChunk (share : ShareRow)
  | stream (share : ShareRow) (chunk : ChunkRow)
  | body (share : ShareRow) (chunk : ChunkRow)
  | mark (share : ShareRow) (step : MarkStep)
  | done (reply : Reply) (sent : Bool) (marked : Option MarkResult)
  deriving DecidableEq, Repr

/-- The handler leaves without having sent a byte of the body. -/
def GetStep.refused (reply : Reply) : GetStep := .done reply false none

def GetStep.exec (env : Env) (db : Database) (request : GetRequest) (clock : Timestamp)
    (outcome : Outcome) : GetStep → Option (GetStep × Effect)
  | .acquire => some (limited outcome (.refused (.http 429 none)) .readShare)
  | .readShare =>
    some (attemptRead outcome
      (match db.store.find request.shortId with
        | none => .refused (.http 404 (some "share_not_found"))
        | some share =>
          if share.canServeDownloads = false ∨ share.isExpired clock then .refused (.http 410 none)
          else if request.chunkIndex < 0 ∨ (share.chunkCount : Int) ≤ request.chunkIndex then
            .refused (.badRequest "chunk_index_out_of_range")
          else .readChunk share)
      fun failure => .refused (.unhandled failure))
  | .readChunk share =>
    some (attemptRead outcome
      (match db.store.chunks.lookup request.chunkIndex.toNat with
        | none => .refused (.http 404 (some "chunk_not_found"))
        | some chunk =>
          match request.check env share chunk with
          | .error reply => .refused reply
          | .ok () => .stream share chunk)
      fun failure => .refused (.unhandled failure))
  -- the first flushed byte is what makes `HasStarted` true
  | .stream share chunk =>
    some (attemptRead outcome
      (if (db.store.blobs.lookup chunk.blobKey).isSome then .body share chunk else .refused (.http 502 none))
      fun
        | .aborted => .refused .dropped
        | _ => .refused (.http 502 none))
  -- however the body ends, the finally block marks the chunk without the request's token
  | .body share _ => some (.mark share .lockShare, .skip)
  | .mark share step =>
    (step.exec db share.id request.chunkIndex.toNat clock outcome).map fun
      | (.inl next, effect) => (.mark share next, effect)
      | (.inr marked, effect) => (.done (.http 200 none) true marked, effect)
  | .done .. => none

end SlothBox

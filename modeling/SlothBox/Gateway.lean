import SlothBox.Database
import SlothBox.Library.Base64
import SlothBox.Library.Search

/-! The gateway's writers: creating a share, `POST /downloaded` and `POST /destroy`.
None of them opens a transaction; their audit entry is appended by a statement of
its own, whose failure is only logged. -/

namespace SlothBox
open Library

def shortIdAlphabet : String := "abcdefghjkmnpqrstuvwxyz23456789"

/-- `ShortIdParamSchema`. -/
def validShortId (shortId : String) : Bool :=
  shortId.length = 12 && shortId.toList.all shortIdAlphabet.toList.contains

inductive GatewayReply where
  | exception (status : Nat) (message : String)
  | created (shareId shortId : String) (uploadUrls : List String)
  | state (state : ShareState)
  | internalError
  deriving DecidableEq, Repr

def GatewayReply.notFound : GatewayReply := .exception 404 "share not found"

def GatewayReply.tooMany (bucket : String) : GatewayReply :=
  .exception 429 ("Too many requests in window for " ++ bucket)

/-- `buildUploadUrl`. -/
def buildUploadUrl (ingestPublicUrl shortId : String) (chunkIndex : Nat) : String :=
  let base := String.ofList (ingestPublicUrl.toList.reverse.dropWhile (· == '/')).reverse
  base ++ "/chunk/" ++ shortId ++ "/" ++ toString chunkIndex

/-- `appendAudit`: one statement, kept out of the chain's way while another
transaction holds the advisory lock. -/
def appendAudit {α : Type} (db : Database) (outcome : Outcome) (event : AuditEvent) (next : α) :
    Option (α × Effect) :=
  if db.blocksAppend then none
  else some (attempt outcome (next, .auto { events := [event] }) fun _ => next)

/-! ### POST /api/shares -/

/-- A body that passed the schema, decoded, with the identifiers that the insert
is going to use. -/
structure CreateRequest where
  id : String
  shortId : String
  expiresAt : Timestamp
  burnAfterRead : Bool
  maxDownloads : Option Nat
  fileHash : Bytes
  fileSize : Nat
  encryptedMeta : Bytes
  nonceMeta : Bytes
  chunkCount : Nat
  chunkSize : Nat
  passwordProtected : Bool
  passwordSalt : Option Bytes
  passwordKdfOpsLimit : Option Nat
  passwordKdfMemLimitKib : Option Nat
  revokeTokenHash : Option Bytes
  ingestPublicUrl : String
  deriving DecidableEq, Repr

/-- The row of the INSERT with the column defaults filled in. -/
def CreateRequest.row (request : CreateRequest) (now : Timestamp) : ShareRow where
  id := request.id
  shortId := request.shortId
  createdAt := now
  expiresAt := request.expiresAt
  burnAfterRead := request.burnAfterRead
  maxDownloads := request.maxDownloads
  downloadCount := 0
  fileHash := request.fileHash
  fileSize := request.fileSize
  encryptedMeta := request.encryptedMeta
  nonceMeta := request.nonceMeta
  chunkCount := request.chunkCount
  chunkSize := request.chunkSize
  state := .pending
  destroyedAt := none
  destroyedReason := none
  passwordProtected := request.passwordProtected
  passwordSalt := request.passwordSalt
  passwordKdfOpsLimit := request.passwordKdfOpsLimit
  passwordKdfMemLimitKib := request.passwordKdfMemLimitKib
  revokeTokenHash := request.revokeTokenHash

def CreateRequest.event (request : CreateRequest) (now : Timestamp) : AuditEvent where
  eventType := .shareCreated
  shareId := some request.id
  payload := .created request.shortId request.chunkCount request.burnAfterRead request.passwordProtected
    request.revokeTokenHash.isSome (((request.expiresAt : Int) - now) / 1000000)

def CreateRequest.reply (request : CreateRequest) : GatewayReply :=
  .created request.id request.shortId
    ((List.range request.chunkCount).map (buildUploadUrl request.ingestPublicUrl request.shortId))

inductive CreateStep where
  | acquire
  | insert
  | append (event : AuditEvent)
  | done (reply : GatewayReply)
  deriving DecidableEq, Repr

def CreateStep.exec (db : Database) (request : CreateRequest) (clock : Timestamp) (outcome : Outcome) :
    CreateStep → Option (CreateStep × Effect)
  | .acquire =>
    -- two buckets guard this route, and the day's is asked second
    some (match outcome with
      | .failed => (.done (.tooMany "create_minute"), .skip)
      | .lost => (.done (.tooMany "create_day"), .skip)
      | _ => (.insert, .skip))
  | .insert =>
    some (match db.store.share with
      | some row =>
        -- a clash of identifiers violates their uniqueness; any other insert is another share
        if row.id = request.id ∨ row.shortId = request.shortId then (.done .internalError, .skip)
        else attempt outcome (.append (request.event clock), .skip) fun _ => .done .internalError
      | none =>
        if (request.row clock).checks && (request.row clock).fits then
          attempt outcome (.append (request.event clock), .auto { share := some (request.row clock) })
            fun _ => .done .internalError
        else (.done .internalError, .skip))
  | .append event => appendAudit db outcome event (.done request.reply)
  | .done _ => none

/-! ### POST /api/shares/:shortId/downloaded -/

structure DownloadedRequest where
  shortId : String
  deriving DecidableEq, Repr

/-- `text.includes(part)`. -/
def includes (text part : String) : Bool := (Search.index part.toList text.toList).isSome

/-- The statement of phase 2, with its parameter taken out. -/
def incrementSql : String :=
  "SELECT id, state, burn_after_read AS \"burnAfterRead\" FROM increment_download($1)"

/-- What `increment_download` raises, as the handler's `catch` gets it. -/
def DownloadedRequest.caught (env : Env) (request : DownloadedRequest) : GatewayReply :=
  let message := env.queryError incrementSql [request.shortId] "share not available"
  if includes message "share not available" then .state .destroyed else .internalError

inductive DownloadedStep where
  | acquire
  | readShare
  | increment
  | append (updated : ShareRow)
  | done (reply : GatewayReply)
  deriving DecidableEq, Repr

def downloadedEvent (request : DownloadedRequest) (updated : ShareRow) : AuditEvent :=
  let becameDestroyed := updated.state = .destroyed
  { eventType := if becameDestroyed then .shareDestroyed else .shareDownloaded
    shareId := some updated.id
    payload := .downloaded request.shortId becameDestroyed (if becameDestroyed then some .burn else none)
      (if becameDestroyed then some .gatewayDownloaded else none) }

def DownloadedStep.exec (env : Env) (db : Database) (request : DownloadedRequest) (clock : Timestamp)
    (outcome : Outcome) : DownloadedStep → Option (DownloadedStep × Effect)
  | .acquire =>
    some (limited outcome (.done (.tooMany "read_minute"))
      (if validShortId request.shortId then .readShare else .done .notFound))
  | .readShare =>
    some (attemptRead outcome
      (match db.store.find request.shortId with
        | none => .done .notFound
        | some existing => if existing.state.terminal then .done (.state existing.state) else .increment)
      fun _ => .done .internalError)
  | .increment =>
    if db.tx.isSome then none
    else
      some (attempt outcome
        (match (db.store.find request.shortId).bind (incrementDownload clock) with
          | none => (.done (request.caught env), .skip)
          | some updated => (.append updated, .auto { share := some updated }))
        fun _ => .done .internalError)
  | .append updated => appendAudit db outcome (downloadedEvent request updated) (.done (.state updated.state))
  | .done _ => none

/-! ### POST /api/shares/:shortId/destroy -/

structure DestroyRequest where
  shortId : String
  authorization : Option String
  deriving DecidableEq, Repr

/-- White space of a regular expression's `\s`. -/
def isSpace (c : Char) : Bool :=
  ('\x09' ≤ c && c ≤ '\x0d') || c == ' ' || c == '\xa0' || c == '\u1680' ||
    ('\u2000' ≤ c && c ≤ '\u200a') || c == '\u2028' || c == '\u2029' || c == '\u202f' ||
    c == '\u205f' || c == '\u3000' || c == '\ufeff'

/-- The class `[A-Za-z0-9_-]`. -/
def isBase64UrlChar (c : Char) : Bool := c.isAlphanum || c == '_' || c == '-'

/-- `extractRevokeTokenHash`. -/
def extractRevokeTokenHash (sha256 : Bytes → Bytes) (authHeader : Option String) : Option Bytes := do
  let header ← authHeader
  if !"Bearer".toList.isPrefixOf header.toList then none
  let rest := header.toList.drop 6
  if !rest.head?.any isSpace then none
  let token := rest.dropWhile isSpace
  if token.isEmpty || !token.all isBase64UrlChar then none
  let raw := Base64.bufferFrom ((token ++ Base64.padding token.length).map Base64.ofUrlChar)
  if raw.length ≠ 32 then none
  return sha256 raw

inductive DestroyStep where
  | acquire
  | readShare (incomingHash : Bytes)
  | update
  | append (destroyedId : String)
  | done (reply : GatewayReply)
  deriving DecidableEq, Repr

def destroyEvent (request : DestroyRequest) (destroyedId : String) : AuditEvent where
  eventType := .shareDestroyed
  shareId := some destroyedId
  payload := .revoked request.shortId .manual .senderRevokeToken

def DestroyStep.exec (env : Env) (db : Database) (request : DestroyRequest) (clock : Timestamp)
    (outcome : Outcome) : DestroyStep → Option (DestroyStep × Effect)
  | .acquire =>
    some (limited outcome (.done (.tooMany "read_minute"))
      (if validShortId request.shortId then
        match extractRevokeTokenHash env.sha256 request.authorization with
        | none => .done (.exception 401 "missing or malformed bearer token")
        | some incomingHash => .readShare incomingHash
      else .done .notFound))
  | .readShare incomingHash =>
    some (attemptRead outcome
      (match db.store.find request.shortId with
        | none => .done .notFound
        | some existing =>
          if existing.state.terminal then .done (.state existing.state)
          else match existing.revokeTokenHash with
            | none => .done (.exception 410 "this share predates token-based revoke and cannot be revoked manually")
            | some storedHash =>
              if storedHash = incomingHash then .update else .done (.exception 403 "invalid revoke token"))
      fun _ => .done .internalError)
  | .update =>
    if db.tx.isSome then none
    else
      some (attempt outcome
        (match db.store.find request.shortId with
          | none => (.done (.state .destroyed), .skip)
          | some row => (.append row.id, .auto { share := some (revoke clock row) }))
        fun _ => .done .internalError)
  | .append destroyedId =>
    appendAudit db outcome (destroyEvent request destroyedId) (.done (.state .destroyed))
  | .done _ => none

end SlothBox

import SlothBox.Schema
import SlothBox.Session
import SlothBox.System

/-! The services behind the browser, while nobody else is there and nothing fails: each request
is handled to its last statement before the next one comes. Handlers are those of the whole
system, and so is the world they leave. -/

namespace SlothBox
open Library

/-- What the two services and their environment are set to. -/
structure Deployment where
  env : Env
  gateway : GatewayConfig
  dates : Dates
  /-- The identifiers that the next share is given. -/
  id : String
  shortId : String
  /-- What a handler reads from the clock, by the number of handlers before it. -/
  clock : Nat → Timestamp
  /-- Which texts the browser takes for a URL. -/
  isUrl : String → Bool
  /-- How the validator words its issues. -/
  details : List Issue → String

/-! ### One handler -/

/-- The body that a handler is about to send, with its nonce. -/
def Proc.sends (store : Store) : Proc → Option (Bytes × Bytes)
  | .get _ (.body _ chunk) => (store.blobs.lookup chunk.blobKey).map fun content => (chunk.nonce, content)
  | _ => none

structure Handled where
  db : Database
  proc : Proc
  sent : Option (Bytes × Bytes)

/-- The statements of a handler one after the other. -/
def Proc.handle (env : Env) (clock : Timestamp) (pid : Nat) : Nat → Database → Proc → Handled
  | 0, db, proc => ⟨db, proc, none⟩
  | steps + 1, db, proc =>
    match proc.exec env db clock .ok with
    | none => ⟨db, proc, none⟩
    | some (next, effect) =>
      let rest := next.handle env clock pid steps (db.apply pid effect)
      { rest with sent := (proc.sends db.store).or rest.sent }

/-- No handler of the browser's requests has more statements. -/
def longest : Nat := 11

section Serving
variable (deployment : Deployment) (world : World)

/-- The time at which the next request is handled. -/
def World.now : Timestamp := deployment.clock world.procs.length

def World.handled (request : Request) : Handled :=
  request.start.handle deployment.env (world.now deployment) world.procs.length longest world.db

def World.after (request : Request) : World :=
  ⟨(world.handled deployment request).db, world.procs ++ [(world.handled deployment request).proc]⟩

end Serving

/-! ### The gateway -/

/-- The body as the gateway's JSON parser has it; `undefined` is left out. -/
def CreateShareRequest.toJson (request : CreateShareRequest) : Json Double :=
  let text (name value : String) := (Utf16.encode name.toList, Json.string (Utf16.encode value.toList))
  let number (name : String) (value : Nat) := (Utf16.encode name.toList, Json.number (Double.finite value))
  .object ([
      number "fileSize" request.fileSize,
      text "fileHash" request.fileHash,
      text "encryptedMeta" request.encryptedMeta,
      text "nonceMeta" request.nonceMeta,
      number "chunkCount" request.chunkCount,
      number "chunkSize" request.chunkSize,
      text "expiresAt" request.expiresAt,
      (Utf16.encode "burnAfterRead".toList, .bool request.burnAfterRead),
      (Utf16.encode "maxDownloads".toList, request.maxDownloads.elim .null fun cap => .number (Double.finite cap)),
      (Utf16.encode "passwordProtected".toList, .bool request.passwordProtected)] ++
    (request.passwordSalt.map (text "passwordSalt")).toList ++
    (request.passwordKdfOpsLimit.map (number "passwordKdfOpsLimit")).toList ++
    (request.passwordKdfMemLimitKib.map (number "passwordKdfMemLimitKib")).toList ++
    [text "revokeTokenHash" request.revokeTokenHash])

/-- `errorHandler`: the status and the message of the envelope. -/
def GatewayReply.refusal : GatewayReply → Session.ApiError
  | .exception status message => ⟨message, status⟩
  | _ => ⟨"An internal error occurred. Reference the request ID when reporting.", 500⟩

/-- `CreateShareResponseSchema`. -/
def createShareResponse (isUrl : String → Bool) : GatewayReply → Except String CreateShareResponse
  | .created shareId shortId uploadUrls =>
    if fits : (1 ≤ Utf16.length shortId ∧ Utf16.length shortId ≤ 64) ∧ uploadUrls.length < 2 ^ 32 then
      if shareId ≠ "" ∧ uploadUrls.all isUrl then .ok ⟨shortId, uploadUrls, fits.1, fits.2⟩
      else .error "gateway response failed schema validation"
    else .error "gateway response failed schema validation"
  | reply => .error reply.refusal.message

section Gateway
variable (deployment : Deployment) (world : World)

/-- What POST /api/shares makes of a body before its first statement. -/
def Deployment.decode (data : Json Double) : Except GatewayReply CreateRequest := do
  match ← createShareSchema deployment.gateway deployment.dates (world.now deployment) data with
  | .error issues => .error (.exception 400 ("invalid request body: " ++ deployment.details issues))
  | .ok body => body.request deployment.gateway deployment.dates deployment.id deployment.shortId

/-- The reply that a handler of the gateway has ended with. -/
def Proc.gatewayReply : Proc → GatewayReply
  | .create _ (.done reply) | .downloaded _ (.done reply) | .destroy _ (.done reply) => reply
  | _ => .internalError

def postShares (request : CreateShareRequest) : Except String CreateShareResponse × World :=
  match deployment.decode world request.toJson with
  | .error reply => (.error reply.refusal.message, world)
  | .ok decoded =>
    (createShareResponse deployment.isUrl (world.handled deployment (.create decoded)).proc.gatewayReply,
      world.after deployment (.create decoded))

/-- The description that the browser reads from the answer. -/
def ShareResponse.descriptor (response : ShareResponse) : ShareDescriptor where
  burnAfterRead := response.burnAfterRead
  fileSize := response.fileSize
  encryptedMeta := response.encryptedMeta
  nonceMeta := response.nonceMeta
  chunkCount := response.chunkCount
  chunkSize := response.chunkSize
  password := response.password

def getShares (shortId : String) : Except Session.ApiError ShareDescriptor :=
  match getShare world.db.store (world.now deployment) shortId with
  | .error reply => .error reply.refusal
  | .ok response => .ok response.descriptor

end Gateway

/-! ### The ingest service -/

/-- The part of an upload URL before its path. -/
def uploadBase (ingestPublicUrl : String) : List Char := (ingestPublicUrl.toList.reverse.dropWhile (· == '/')).reverse

/-- The route `/chunk/{shortId}/{chunkIndex:int}` under a base. -/
def chunkRoute (base : List Char) (url : String) : Option (String × Nat) := do
  let path ← url.toList.dropPrefix? (base ++ "/chunk/".toList)
  let shortId := path.takeWhile (· != '/')
  let digits := path.drop (shortId.length + 1)
  if !validShortId (String.ofList shortId) then none
  if digits.isEmpty || !digits.all Char.isDigit then none
  let index := Nat.ofDigitChars 10 digits 0
  if 2 ^ 31 ≤ index then none
  return (String.ofList shortId, index)

def Reply.status : Reply → Option Nat
  | .http status _ => some status
  | .dropped => none

section Ingest
variable (deployment : Deployment) (world : World)

/-- The request that a PUT of the browser makes. -/
def PutChunkRequest.received (put : PutChunkRequest) (shortId : String) (index : Nat) : PutRequest where
  shortId := shortId
  chunkIndex := index
  contentLength := some put.ciphertext.length
  nonceHeader := some put.nonce
  tokenHashHeader := some put.chunkTokenHash
  body := put.ciphertext

def putChunk (put : PutChunkRequest) : PutAnswer × World :=
  match chunkRoute (uploadBase deployment.gateway.ingestPublicUrl) put.url with
  | none => (.response 404, world)
  | some (shortId, index) =>
    let request := Request.put (put.received shortId index)
    (match (world.handled deployment request).proc with
      | .put _ (.done reply) => reply.status.elim .unreachable .response
      | _ => .unreachable, world.after deployment request)

def getChunk (chunk : ChunkRequest) : ChunkAnswer × World :=
  if validShortId chunk.shortId && decide (chunk.chunkIndex < 2 ^ 31) then
    let request := Request.get ⟨chunk.shortId, chunk.chunkIndex, some chunk.authorization⟩
    let handled := world.handled deployment request
    (match handled.proc, handled.sent with
      | .get _ (.done (.http status _) true _), some (nonce, content) =>
        .response status (some (DownloadEndpoint.encodeBase64Url nonce)) (some content)
      | .get _ (.done (.http status _) _ _), _ => .response status none none
      | _, _ => .unreachable, world.after deployment request)
  else (.response 404 none none, world)

end Ingest

/-! ### Both -/

/-- The partner of an uploading browser. -/
def Deployment.serveUpload (deployment : Deployment) (world : World) :
    (call : Session.UploadCall) → call.Answer × World
  | .create request => postShares deployment world request
  | .put _ request => putChunk deployment world request

/-- The partner of a downloading browser. -/
def Deployment.serveDownload (deployment : Deployment) (world : World) :
    (call : Session.DownloadCall) → call.Answer × World
  | .share shortId => (getShares deployment world shortId, world)
  | .chunk request => getChunk deployment world request
  | .downloaded shortId => ((), world.after deployment (.downloaded ⟨shortId⟩))

/-- Visits of a share's page one after the other, each with the part of its link behind the number
sign and with its attempts: what the pages show in the end. -/
def Deployment.visits (deployment : Deployment) (sodium : Sodium) (shortId : String) :
    List (String × List Session.Attempt) → World → List (Except Empty Session.ReceiverStatus) × World
  | [], world => ([], world)
  | (hash, tries) :: rest, world =>
    let visit := (Session.shareReceiver sodium shortId hash tries).converse deployment.serveDownload world
    let later := deployment.visits sodium shortId rest visit.state
    (visit.result :: later.1, later.2)

end SlothBox

import SlothBox.Upload

/-! The recipient's browser: `extractKeyFromHash` and `downloadFile`. The server is an
arbitrary function from requests to answers; a body that is not JSON of the right shape
is an error like a refusal. -/

namespace SlothBox
open Library

inductive SharePasswordFacet where
  | disabled
  | enabled (salt : String) (opsLimit memLimitKib : Nat)
  deriving DecidableEq

def SharePasswordFacet.isEnabled : SharePasswordFacet → Bool
  | .disabled => false
  | .enabled .. => true

/-- The answer to GET /api/shares/:shortId, as far as it is read. -/
structure ShareDescriptor where
  burnAfterRead : Bool
  fileSize : String
  encryptedMeta : String
  nonceMeta : String
  chunkCount : Nat
  chunkSize : Nat
  password : SharePasswordFacet
  deriving DecidableEq

def SharePasswordFacet.isValid : SharePasswordFacet → Bool
  | .disabled => true
  | .enabled salt opsLimit memLimitKib =>
    1 ≤ Utf16.length salt && Utf16.length salt ≤ 64 && 1 ≤ opsLimit && opsLimit ≤ 10 &&
      8192 ≤ memLimitKib && memLimitKib ≤ 1048576

/-- `ShareDescriptorSchema`. -/
def ShareDescriptor.isValid (descriptor : ShareDescriptor) : Bool :=
  descriptor.fileSize ≠ "" && descriptor.fileSize.toList.all Char.isDigit && descriptor.encryptedMeta ≠ "" &&
    descriptor.nonceMeta ≠ "" && 0 < descriptor.chunkCount && 0 < descriptor.chunkSize &&
    descriptor.password.isValid

structure ChunkRequest where
  shortId : String
  chunkIndex : Nat
  authorization : String

def ChunkRequest.url (config : WebConfig) (request : ChunkRequest) : String :=
  config.ingestUrl ++ "/chunk/" ++ String.ofList (Url.encodeURIComponent request.shortId.toList) ++ "/" ++
    toString request.chunkIndex

/-- How the request for a chunk ends; the body may break off. -/
inductive ChunkAnswer where
  | aborted
  | unreachable
  | response (status : Nat) (nonce : Option String) (body : Option Bytes)

structure DownloadServer where
  getShare : String → Except String ShareDescriptor
  getChunk : ChunkRequest → ChunkAnswer

structure DownloadOptions where
  password : Option String := none
  /-- Whether the signal is set when a chunk's turn comes. -/
  aborted : Nat → Bool := fun _ => false

structure Blob where
  bytes : Bytes
  type : String
  deriving DecidableEq

/-- `new Blob(parts, { type })`: a type outside printable ASCII is dropped, the rest
is put in lower case. -/
def newBlob (parts : List Bytes) (type : String) : Blob where
  bytes := parts.flatten
  type := if type.toList.all (fun c => 0x20 ≤ c.toNat && c.toNat ≤ 0x7e) then
    String.ofList (type.toList.map Char.toLower) else ""

structure DownloadResult where
  blob : Blob
  fileName : String
  mimeType : String
  burnAfterRead : Bool
  deriving DecidableEq

structure ShareMeta where
  fileName : String
  mimeType : String
  fileHash : Option String
  chunkCount : Option Double

/-- A property that holds a string. -/
def stringProperty (json : Json Double) (name : String) : Option String :=
  match json.get? name with
  | some (.string units) => some (String.ofList (Utf16.decode units))
  | _ => none

def numberProperty (json : Json Double) (name : String) : Option Double :=
  match json.get? name with
  | some (.number value) => some value
  | _ => none

/-- The key of a link, from the part behind the number sign. -/
def extractKeyFromHash (hash : String) : Option Bytes :=
  if Utf16.length hash ≤ 1 then none
  else
    let stripped := if hash.toList.head? = some '#' then hash.toList.drop 1 else hash.toList
    match Url.searchParam stripped "key" with
    | none => none
    | some candidate =>
      if Utf16.length (String.ofList candidate) < 32 then none
      else match base64UrlToBytes (String.ofList candidate) with
        | .error _ => none
        | .ok bytes => if bytes.length = 32 then some bytes else none

section Download
variable (sodium : Sodium)

/-- The part of `decryptShareMeta` whose errors are all reported as one. -/
def openShareMeta (descriptor : ShareDescriptor) (aeadKey : Bytes) : Except Thrown Bytes := do
  let ciphertext ← base64UrlToBytes descriptor.encryptedMeta
  let nonce ← base64UrlToBytes descriptor.nonceMeta
  let length := nonce.length
  throwIf (length ≠ 24) (.downloadError s!"unexpected metadata nonce length: {length} (expected 24)" .metadata)
  let aad ← buildChunkAad "meta" 0
  decryptChunk sodium ciphertext aeadKey nonce aad

def parseShareMeta (metaBytes : Bytes) : Except Thrown ShareMeta :=
  match Json.parse Double.ofDecimal (bytesToString metaBytes).toList with
  | none => .error (.downloadError "share metadata is malformed" .metadata)
  | some parsed =>
    match stringProperty parsed "fileName", stringProperty parsed "mimeType" with
    | some fileName, some mimeType =>
      .ok ⟨fileName, mimeType, stringProperty parsed "fileHash", numberProperty parsed "chunkCount"⟩
    | _, _ => .error (.downloadError "share metadata missing fileName or mimeType" .metadata)

def decryptShareMeta (descriptor : ShareDescriptor) (aeadKey : Bytes) (passwordProtected : Bool) :
    Except Thrown ShareMeta :=
  match openShareMeta sodium descriptor aeadKey with
  | .error _ =>
    if passwordProtected then .error (.downloadError "incorrect password" .wrongPassword)
    else .error (.downloadError "could not decrypt share metadata — check the URL is complete" .metadata)
  | .ok metaBytes => parseShareMeta metaBytes

/-- A rethrown error. -/
def rethrow {α : Type} (thrown : Thrown) : Except Thrown α → Except Thrown α
  | .error _ => .error thrown
  | .ok value => .ok value

/-- The ciphertext and the nonce of one chunk. -/
def ChunkAnswer.read : ChunkAnswer → Except Thrown (Bytes × Bytes)
  | .aborted => .error (.downloadError "download cancelled" .cancelled)
  | .unreachable => .error (.downloadError "could not reach the ingest service" .transport)
  | .response status nonceHeader body => do
    throwIf (status = 410) (.downloadError
      "this share has already been delivered to someone else — ask the sender to re-upload" .alreadyUsed)
    throwIf (!isOkStatus status) (.downloadError s!"ingest returned HTTP {status}" .transport)
    let header := nonceHeader.getD ""
    throwIf (header = "") (.downloadError "ingest response missing nonce header" .metadata)
    let nonce ← rethrow (.downloadError "malformed nonce header" .metadata) (base64UrlToBytes header)
    let length := nonce.length
    throwIf (length ≠ 24) (.downloadError s!"unexpected nonce length: {length} (expected 24)" .metadata)
    let ciphertext ← body.elim (.error (.error "network error")) .ok
    throwIf (ciphertext.length < 16) (.downloadError "ciphertext too short — missing AEAD tag" .decrypt)
    return (ciphertext, nonce)

def downloadAeadKey (fragmentKey : Bytes) (descriptor : ShareDescriptor) (options : DownloadOptions) :
    Except Thrown Bytes :=
  match descriptor.password with
  | .disabled => deriveAeadKey sodium fragmentKey none
  | .enabled salt opsLimit memLimitKib => do
    let password := options.password.getD ""
    throwIf (Utf16.length password = 0) (.downloadError "password required" .passwordRequired)
    let saltBytes ← rethrow (.downloadError "share password salt malformed" .metadata) (base64UrlToBytes salt)
    let passwordKey ← deriveKeyFromPassword sodium password saltBytes opsLimit (memLimitKib * 1024)
    deriveAeadKey sodium fragmentKey (some passwordKey)

/-- One turn of the download loop. -/
def downloadChunk (server : DownloadServer) (shortId : String) (fragmentKey aeadKey : Bytes)
    (passwordProtected : Bool) (options : DownloadOptions) (index : Nat) : Except Thrown Bytes := do
  throwIf (options.aborted index) (.downloadError "download cancelled" .unknown)
  let chunkToken ← deriveChunkToken sodium fragmentKey shortId index
  let answer := server.getChunk ⟨shortId, index, "Bearer " ++ bytesToBase64Url chunkToken⟩
  let (ciphertext, nonce) ← answer.read
  let aad ← buildChunkAad shortId index
  rethrow (.downloadError s!"chunk {index} failed integrity check — file may be tampered with"
      (if passwordProtected && index == 0 then .wrongPassword else .decrypt))
    (decryptChunk sodium ciphertext aeadKey nonce aad)

/-- The whole-file check; a description without a hash is not checked. -/
def checkFileHash (fileHash : Option String) (plaintextChunks : List Bytes) : Except Thrown Unit :=
  match fileHash with
  | none => .ok ()
  | some fileHash =>
    if fileHash = "" then .ok ()
    else do
      let expectedHash ← rethrow (.downloadError "share metadata carries a malformed file hash" .metadata)
        (base64UrlToBytes fileHash)
      throwIf (hashChunks sodium plaintextChunks ≠ expectedHash) (.downloadError
        "file failed its integrity check — it may have been truncated or tampered with in transit" .decrypt)

/-- `getShare`, which throws on a body that the schema refuses. -/
def fetchShareMetadata (server : DownloadServer) (shortId : String) : Except String ShareDescriptor :=
  match server.getShare shortId with
  | .error message => .error message
  | .ok descriptor =>
    if descriptor.isValid then .ok descriptor else .error "gateway response failed schema validation"

def downloadFile (server : DownloadServer) (shortId : String) (fragmentKey : Bytes) (options : DownloadOptions) :
    Except Thrown DownloadResult := do
  throwIf (fragmentKey.length ≠ 32) (.downloadError "invalid decryption key" .keyInvalid)
  let descriptor ← (fetchShareMetadata server shortId).mapError (.downloadError · .shareNotFound)
  let aeadKey ← downloadAeadKey sodium fragmentKey descriptor options
  let shareMeta ← decryptShareMeta sodium descriptor aeadKey descriptor.password.isEnabled
  throwIf (shareMeta.chunkCount.any (· ≠ .finite descriptor.chunkCount)) (.downloadError
    "share is inconsistent — the server reported a different chunk count than the file was sealed with" .decrypt)
  -- `new Array(totalChunks)`
  throwIf (2 ^ 32 ≤ descriptor.chunkCount) (.error "Invalid array length")
  let plaintextChunks ← (List.range descriptor.chunkCount).mapM
    (downloadChunk sodium server shortId fragmentKey aeadKey descriptor.password.isEnabled options)
  checkFileHash sodium shareMeta.fileHash plaintextChunks
  return {
    blob := newBlob plaintextChunks (if shareMeta.mimeType = "" then "application/octet-stream" else shareMeta.mimeType)
    fileName := shareMeta.fileName
    mimeType := shareMeta.mimeType
    burnAfterRead := descriptor.burnAfterRead }

end Download

/-! ### Serving what was sent -/

/-- The password facet of a stored share. -/
def CreateShareRequest.facet (request : CreateShareRequest) : SharePasswordFacet :=
  match request.passwordProtected, request.passwordSalt, request.passwordKdfOpsLimit, request.passwordKdfMemLimitKib with
  | true, some salt, some opsLimit, some memLimitKib => .enabled salt opsLimit memLimitKib
  | _, _, _, _ => .disabled

def CreateShareRequest.descriptor (request : CreateShareRequest) : ShareDescriptor where
  burnAfterRead := request.burnAfterRead
  fileSize := toString request.fileSize
  encryptedMeta := request.encryptedMeta
  nonceMeta := request.nonceMeta
  chunkCount := request.chunkCount
  chunkSize := request.chunkSize
  password := request.facet

/-- Servers that give back what an upload has sent. -/
def UploadRun.served {α : Type} (run : UploadRun α) : DownloadServer where
  getShare _ := match run.created with
    | none => .error "share not found"
    | some request => .ok request.descriptor
  getChunk request := match run.puts[request.chunkIndex]? with
    | none => .response 404 none none
    | some put => .response 200 (some put.nonce) (some put.ciphertext)

end SlothBox

import SlothBox.Download
import SlothBox.Library.Dialogue

/-! The browser while it talks: `uploadFile`, `downloadFile` and the receiver's page as programs
that ask the services, whose answers may depend on everything asked before. -/

namespace SlothBox.Session
open Library

/-! ### Uploading -/

inductive UploadCall where
  | create (request : CreateShareRequest)
  | put (index : Nat) (request : PutChunkRequest)

@[reducible] def UploadCall.Answer : UploadCall → Type
  | .create _ => Except String CreateShareResponse
  | .put .. => PutAnswer

abbrev Uploading := Dialogue UploadCall UploadCall.Answer Thrown

section Upload
variable (sodium : Sodium) (config : WebConfig) (random : Randomness) (file : File) (options : UploadOptions)

/-- One turn of the upload loop. -/
def uploadChunk (aeadKey : Bytes) (response : CreateShareResponse) (index : Nat) : Uploading Unit := do
  .result (throwIf (options.aborted index) (.uploadError "upload cancelled"))
  let (_, ciphertext) ← .result (sealChunk sodium config random file aeadKey response.shortId index)
  let request ← .result (putRequest sodium random response index ciphertext)
  let answer ← .call (.put index request)
  .result (PutAnswer.check answer)

def uploadFile (expiresAt : String) : Uploading UploadResult := do
  let (description, encryptedMeta) ← .result (prepareUpload sodium config random file options)
  let request := createRequest sodium config random file options expiresAt encryptedMeta
  let created : Except String CreateShareResponse ← .call (UploadCall.create request)
  let response ← .result (created.mapError .uploadError)
  let urls := response.uploadUrls.length
  let chunks := request.chunkCount
  .result (throwIf (urls ≠ chunks)
    (.uploadError s!"gateway returned {urls} upload URLs but we have {chunks} chunks"))
  let _ ← (List.range chunks).mapM (uploadChunk sodium config random file options description.key response)
  return ⟨shareUrl config random response.shortId, response.shortId, expiresAt, bytesToBase64Url random.revokeToken⟩

end Upload

/-! ### Downloading -/

structure ApiError where
  message : String
  /-- Zero if the gateway could not be reached. -/
  status : Nat
  deriving DecidableEq

inductive DownloadCall where
  | share (shortId : String)
  | chunk (request : ChunkRequest)
  | downloaded (shortId : String)

/-- Nobody looks at the answer to the last one. -/
@[reducible] def DownloadCall.Answer : DownloadCall → Type
  | .share _ => Except ApiError ShareDescriptor
  | .chunk _ => ChunkAnswer
  | .downloaded _ => Unit

abbrev Downloading := Dialogue DownloadCall DownloadCall.Answer

/-- `getShare`. A body that the schema refuses came with a status of success. -/
def getShare (shortId : String) : Downloading ApiError ShareDescriptor := do
  let descriptor : ShareDescriptor ← .result (← .call (DownloadCall.share shortId))
  .result (throwIf (!descriptor.isValid) ⟨"gateway response failed schema validation", 200⟩)
  return descriptor

def fetchShareMetadata (shortId : String) : Downloading ApiError ShareDescriptor := getShare shortId

section Download
variable (sodium : Sodium) (shortId : String) (fragmentKey : Bytes) (options : DownloadOptions)

/-- The request for a chunk under its single-use token. -/
def chunkRequest (index : Nat) : Except Thrown ChunkRequest := do
  let chunkToken ← deriveChunkToken sodium fragmentKey shortId index
  return ⟨shortId, index, "Bearer " ++ bytesToBase64Url chunkToken⟩

/-- One turn of the download loop. -/
def downloadChunk (aeadKey : Bytes) (passwordProtected : Bool) (index : Nat) : Downloading Thrown Bytes := do
  .result (throwIf (options.aborted index) (.downloadError "download cancelled" .unknown))
  let request ← .result (chunkRequest sodium shortId fragmentKey index)
  let answer ← .call (.chunk request)
  let (ciphertext, nonce) ← .result (ChunkAnswer.read answer)
  let aad ← .result (buildChunkAad shortId index)
  .result (rethrow (.downloadError s!"chunk {index} failed integrity check — file may be tampered with"
      (if passwordProtected && index == 0 then .wrongPassword else .decrypt))
    (decryptChunk sodium ciphertext aeadKey nonce aad))

/-- What the browser works out from the description before it asks for a chunk: the key and
what is sealed in the description. -/
def openShare (descriptor : ShareDescriptor) : Except Thrown (Bytes × ShareMeta) := do
  let aeadKey ← downloadAeadKey sodium fragmentKey descriptor options
  let shareMeta ← decryptShareMeta sodium descriptor aeadKey descriptor.password.isEnabled
  throwIf (shareMeta.chunkCount.any (· ≠ .finite descriptor.chunkCount)) (.downloadError
    "share is inconsistent — the server reported a different chunk count than the file was sealed with" .decrypt)
  -- `new Array(totalChunks)`
  throwIf (2 ^ 32 ≤ descriptor.chunkCount) (.error "Invalid array length")
  return (aeadKey, shareMeta)

/-- What it makes of the plaintexts. -/
def assemble (descriptor : ShareDescriptor) (shareMeta : ShareMeta) (plaintextChunks : List Bytes) :
    Except Thrown DownloadResult := do
  checkFileHash sodium shareMeta.fileHash plaintextChunks
  return {
    blob := newBlob plaintextChunks (if shareMeta.mimeType = "" then "application/octet-stream" else shareMeta.mimeType)
    fileName := shareMeta.fileName
    mimeType := shareMeta.mimeType
    burnAfterRead := descriptor.burnAfterRead }

def downloadFile : Downloading Thrown DownloadResult := do
  .result (throwIf (fragmentKey.length ≠ 32) (.downloadError "invalid decryption key" .keyInvalid))
  let reply ← (fetchShareMetadata shortId).caught
  let descriptor ← .result (reply.mapError fun err => .downloadError err.message .shareNotFound)
  let (aeadKey, shareMeta) ← .result (openShare sodium fragmentKey options descriptor)
  let plaintextChunks ← (List.range descriptor.chunkCount).mapM
    (downloadChunk sodium shortId fragmentKey options aeadKey descriptor.password.isEnabled)
  .result (assemble sodium descriptor shareMeta plaintextChunks)

end Download

/-! ### The receiver's page -/

/-- Lower case, as far as it can turn into a letter of ASCII. -/
def toLowerCase (text : String) : List Char :=
  text.toList.map fun c => if c = '\u212a' then 'k' else c.toLower

def isPreviewable (mimeType fileName : String) : Bool :=
  let mime := toLowerCase mimeType
  let lower := toLowerCase fileName
  "image/".toList.isPrefixOf mime || mime == "application/pdf".toList || "text/".toList.isPrefixOf mime ||
    mime == "application/json".toList || mime == "application/xml".toList ||
    [".md", ".markdown", ".txt", ".log", ".csv", ".tsv"].any fun extension => extension.toList.isSuffixOf lower

inductive PasswordErrorKey where
  | errorRequired | errorWrong
  deriving DecidableEq

inductive DecryptErrorMessageKey where
  | downloadFailed | shareNotFound | keyInvalid | transport | metadata | integrity | alreadyUsed
  deriving DecidableEq

def downloadErrorMessageKey : DownloadErrorCode → DecryptErrorMessageKey
  | .shareNotFound => .shareNotFound
  | .keyInvalid => .keyInvalid
  | .transport => .transport
  | .metadata => .metadata
  | .decrypt => .integrity
  | .alreadyUsed => .alreadyUsed
  | .passwordRequired | .wrongPassword | .cancelled | .unknown => .downloadFailed

/-- Where the component comes to rest. -/
inductive DecryptState where
  | ready (passwordErrorKey : Option PasswordErrorKey)
  | done (blob : Blob) (fileName mimeType : String) (savedToDisk : Bool)
  | error (messageKey : DecryptErrorMessageKey)
  deriving DecidableEq

def DecryptState.isDone : DecryptState → Bool
  | .done .. => true
  | .ready _ | .error _ => false

def Thrown.message : Thrown → String
  | .error message | .uploadError message | .downloadError message _ => message

def Thrown.code : Thrown → DownloadErrorCode
  | .downloadError _ code => code
  | _ => .unknown

/-- The `catch` of `startDownload`. -/
def caughtState (thrown : Thrown) : DecryptState :=
  let code := Thrown.code thrown
  if code = .cancelled ∨ Thrown.message thrown = "download cancelled" then .ready none
  else if code = .wrongPassword then .ready (some .errorWrong)
  else if code = .passwordRequired then .ready (some .errorRequired)
  else .error (downloadErrorMessageKey code)

/-- What the receiver has typed when the button is pressed, and when it is cancelled. -/
structure Attempt where
  password : String
  aborted : Nat → Bool := fun _ => false

def Attempt.options (attempt : Attempt) (passwordRequired : Bool) : DownloadOptions where
  password := if passwordRequired then some attempt.password else none
  aborted := attempt.aborted

section Page
variable (sodium : Sodium) (shortId : String)

def startDownload (decryptionKey : Bytes) (passwordRequired : Bool) (attempt : Attempt) :
    Downloading Empty DecryptState := do
  if passwordRequired && Utf16.length attempt.password == 0 then return .ready (some .errorRequired)
  match ← (downloadFile sodium shortId decryptionKey (attempt.options passwordRequired)).caught with
  | .error thrown => return caughtState thrown
  | .ok result =>
    let canPreview := isPreviewable result.mimeType result.fileName
    -- `notifyDownloadComplete` swallows whatever comes of it
    let _ ← .call (.downloaded shortId)
    return .done result.blob result.fileName result.mimeType (!canPreview)

/-- The button again and again, each time after the last download has come to its end; it is
gone once a file is there. A second click into a running download, which the page lets
through before its first progress event, is not modelled. -/
def attempts (decryptionKey : Bytes) (passwordRequired : Bool) (state : DecryptState) :
    List Attempt → Downloading Empty DecryptState
  | [] => return state
  | attempt :: rest => do
    let state ← startDownload sodium shortId decryptionKey passwordRequired attempt
    if state.isDone then return state
    attempts decryptionKey passwordRequired state rest

inductive ReceiverErrorKey where
  | notFound | gateway | generic
  deriving DecidableEq

def mapApiError (err : ApiError) : ReceiverErrorKey :=
  if err.status = 0 then .gateway else if err.status = 404 ∨ err.status = 410 then .notFound else .generic

inductive ReceiverStatus where
  | missingKey
  | error (messageKey : ReceiverErrorKey)
  | shown (state : DecryptState)
  deriving DecidableEq

/-- `ShareReceiver`: one visit of a link. -/
def shareReceiver (hash : String) (tries : List Attempt) : Downloading Empty ReceiverStatus :=
  match extractKeyFromHash hash with
  | none => return .missingKey
  | some key => do
    match ← (getShare shortId).caught with
    | .error err => return .error (mapApiError err)
    | .ok descriptor =>
      let state ← attempts sodium shortId key descriptor.password.isEnabled (.ready none) tries
      return .shown state

end Page

end SlothBox.Session

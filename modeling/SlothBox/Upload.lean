import SlothBox.Crypto
import SlothBox.Library.Double
import SlothBox.Library.Json
import SlothBox.Library.Url

/-! The sender's browser: `uploadFile`. What the random generator yields and what the
servers answer are arguments. A run records every encryption and every request it has
made, also when it ends in an error. -/

namespace SlothBox
open Library

abbrev Octets (n : Nat) := { bytes : Bytes // bytes.length = n }

/-- The build-time constants of the web application. -/
structure WebConfig where
  publicUrl : String
  ingestUrl : String
  maxFileSizeBytes : Nat
  chunkSizeBytes : Nat
  noFragment : '#' ∉ publicUrl.toList
  positive : 0 < chunkSizeBytes
  safe : chunkSizeBytes < 2 ^ 53

structure File where
  name : String
  type : String
  content : Bytes
  safe : content.length < 2 ^ 53

def File.size (file : File) : Nat := file.content.length

/-- `file.type || "application/octet-stream"`. -/
def File.mimeType (file : File) : String := if file.type = "" then "application/octet-stream" else file.type

structure UploadOptions where
  burnAfterRead : Option Bool := none
  maxDownloads : Option Nat := none
  password : Option String := none
  passwordKdfOpsLimit : Option Nat := none
  passwordKdfMemLimitBytes : Option Nat := none
  /-- Whether the signal is set when a chunk's turn comes. -/
  aborted : Nat → Bool := fun _ => false

/-- What the generator yields during one upload. -/
structure Randomness where
  fragmentKey : Octets keyBytes
  passwordSalt : Octets saltBytes
  revokeToken : Octets 32
  nonceMeta : Octets nonceBytes
  nonce : Nat → Octets nonceBytes

structure CreateShareRequest where
  fileSize : Nat
  fileHash : String
  encryptedMeta : String
  nonceMeta : String
  chunkCount : Nat
  chunkSize : Nat
  expiresAt : String
  burnAfterRead : Bool
  maxDownloads : Option Nat
  passwordProtected : Bool
  passwordSalt : Option String
  passwordKdfOpsLimit : Option Nat
  passwordKdfMemLimitKib : Option Nat
  revokeTokenHash : String
  deriving DecidableEq

/-- `CreateShareResponseSchema`; an array has fewer than 2^32 entries. -/
structure CreateShareResponse where
  shortId : String
  uploadUrls : List String
  named : 1 ≤ Utf16.length shortId ∧ Utf16.length shortId ≤ 64
  bounded : uploadUrls.length < 2 ^ 32

structure PutChunkRequest where
  url : String
  ciphertext : Bytes
  nonce : String
  chunkTokenHash : String
  deriving DecidableEq

/-- How a `fetch` without an interesting body ends. -/
inductive PutAnswer where
  | aborted
  | unreachable
  | response (status : Nat)

/-- A body that fails the schema and a refusal are errors with the message shown. -/
structure UploadServer where
  createShare : CreateShareRequest → Except String CreateShareResponse
  putChunk : Nat → PutChunkRequest → PutAnswer

/-- One call of the AEAD cipher. -/
structure Sealed where
  key : Bytes
  nonce : Bytes
  aad : Bytes
  plaintext : Bytes
  deriving DecidableEq

structure UploadResult where
  shareUrl : String
  shortId : String
  expiresAt : String
  revokeToken : String
  deriving DecidableEq

structure UploadRun (α : Type) where
  encrypted : List Sealed
  created : Option CreateShareRequest
  puts : List PutChunkRequest
  result : Except Thrown α

/-- `response.ok`. -/
def isOkStatus (status : Nat) : Bool := 200 ≤ status && status ≤ 299

def UploadOptions.hasPassword (options : UploadOptions) : Bool :=
  options.password.any fun password => 0 < Utf16.length password

/-- `Math.round(bytes / 1024)`. -/
def memLimitKib (memLimitBytes : Nat) : Nat := (memLimitBytes + 512) / 1024

/-- `Math.ceil(file.size / chunkSize)`. -/
def chunkCount (config : WebConfig) (file : File) : Nat :=
  ⌈roundDouble (file.size / config.chunkSizeBytes)⌉.toNat

section Upload
variable (sodium : Sodium) (config : WebConfig) (random : Randomness) (file : File) (options : UploadOptions)

def uploadPasswordKey : Except Thrown (Option Bytes) :=
  if options.hasPassword then
    (deriveKeyFromPassword sodium (options.password.getD "") random.passwordSalt
      (options.passwordKdfOpsLimit.getD defaultOpsLimit)
      (options.passwordKdfMemLimitBytes.getD defaultMemLimitBytes)).map some
  else return none

/-- The sealed description of the file. -/
def metaJson : String := String.ofList (Json.stringify
  [("fileName".toList, .text file.name.toList),
    ("mimeType".toList, .text file.mimeType.toList),
    ("fileHash".toList, .text (bytesToBase64Url (hashBytes sodium file.content)).toList),
    ("chunkCount".toList, .nat (chunkCount config file)),
    ("fileSize".toList, .nat file.size)])

def createRequest (expiresAt : String) (encryptedMeta : Bytes) : CreateShareRequest where
  fileSize := file.size
  fileHash := bytesToBase64Url (hashBytes sodium file.content)
  encryptedMeta := bytesToBase64Url encryptedMeta
  nonceMeta := bytesToBase64Url random.nonceMeta
  chunkCount := chunkCount config file
  chunkSize := config.chunkSizeBytes
  expiresAt := expiresAt
  burnAfterRead := options.burnAfterRead.getD false
  maxDownloads := options.maxDownloads
  passwordProtected := options.hasPassword
  passwordSalt := if options.hasPassword then some (bytesToBase64Url random.passwordSalt) else none
  passwordKdfOpsLimit :=
    if options.hasPassword then some (options.passwordKdfOpsLimit.getD defaultOpsLimit) else none
  passwordKdfMemLimitKib :=
    if options.hasPassword then some (memLimitKib (options.passwordKdfMemLimitBytes.getD defaultMemLimitBytes))
    else none
  revokeTokenHash := bytesToBase64Url (sodium.sha256 random.revokeToken)

/-- Everything up to the first request: the key, and the sealed description. -/
def prepareUpload : Except Thrown (Sealed × Bytes) := do
  throwIf (file.size = 0) (.uploadError "file is empty")
  let size := file.size
  let limit := config.maxFileSizeBytes
  throwIf (limit < size) (.uploadError s!"file is too large ({size} bytes > {limit} bytes max)")
  let passwordKey ← uploadPasswordKey sodium random options
  let aeadKey ← deriveAeadKey sodium random.fragmentKey passwordKey
  let length := aeadKey.length
  throwIf (length ≠ aeadKeyBytes) (.uploadError s!"derived AEAD key has wrong length: {length}")
  let metaBytes := stringToBytes (metaJson sodium config file)
  let metaAad ← buildChunkAad "meta" 0
  let encryptedMeta ← encryptChunk sodium metaBytes aeadKey random.nonceMeta metaAad
  return (⟨aeadKey, random.nonceMeta, metaAad, metaBytes⟩, encryptedMeta)

/-- The bytes of one chunk: `file.slice(start, end)`. -/
def chunkPlaintext (index : Nat) : Bytes :=
  let start := index * config.chunkSizeBytes
  let stop := min (start + config.chunkSizeBytes) file.size
  (file.content.drop start).take (stop - start)

def sealChunk (aeadKey : Bytes) (shortId : String) (index : Nat) : Except Thrown (Sealed × Bytes) := do
  let plaintext := chunkPlaintext config file index
  let aad ← buildChunkAad shortId index
  let ciphertext ← encryptChunk sodium plaintext aeadKey (random.nonce index) aad
  return (⟨aeadKey, random.nonce index, aad, plaintext⟩, ciphertext)

def putRequest (response : CreateShareResponse) (index : Nat) (ciphertext : Bytes) :
    Except Thrown PutChunkRequest := do
  let chunkToken ← deriveChunkToken sodium random.fragmentKey response.shortId index
  let uploadUrl := response.uploadUrls.getD index ""
  throwIf (uploadUrl = "") (.uploadError s!"missing upload URL for chunk {index}")
  return ⟨uploadUrl, ciphertext, bytesToBase64Url (random.nonce index), bytesToBase64Url (sodium.sha256 chunkToken)⟩

def PutAnswer.check : PutAnswer → Except Thrown Unit
  | .aborted => .error (.uploadError "upload cancelled")
  | .unreachable => .error (.uploadError "could not reach the ingest service")
  | .response status => throwIf (!isOkStatus status) (.uploadError s!"ingest returned HTTP {status}")

/-- The upload loop over the chunks still to be sent. -/
def uploadChunks (server : UploadServer) (aeadKey : Bytes) (response : CreateShareResponse) :
    List Nat → UploadRun Unit
  | [] => ⟨[], none, [], .ok ()⟩
  | index :: rest =>
    if options.aborted index then ⟨[], none, [], .error (.uploadError "upload cancelled")⟩
    else match sealChunk sodium config random file aeadKey response.shortId index with
      | .error thrown => ⟨[], none, [], .error thrown⟩
      | .ok (call, ciphertext) =>
        match putRequest sodium random response index ciphertext with
        | .error thrown => ⟨[call], none, [], .error thrown⟩
        | .ok request =>
          match (server.putChunk index request).check with
          | .error thrown => ⟨[call], none, [request], .error thrown⟩
          | .ok () =>
            let later := uploadChunks server aeadKey response rest
            ⟨call :: later.encrypted, none, request :: later.puts, later.result⟩

def shareUrl (shortId : String) : String :=
  config.publicUrl ++ "/s/" ++ String.ofList (Url.encodeURIComponent shortId.toList) ++ "#key=" ++
    bytesToBase64Url random.fragmentKey

def uploadFile (server : UploadServer) (expiresAt : String) : UploadRun UploadResult :=
  match prepareUpload sodium config random file options with
  | .error thrown => ⟨[], none, [], .error thrown⟩
  | .ok (description, encryptedMeta) =>
    let request := createRequest sodium config random file options expiresAt encryptedMeta
    match server.createShare request with
    | .error message => ⟨[description], some request, [], .error (.uploadError message)⟩
    | .ok response =>
      let urls := response.uploadUrls.length
      let chunks := request.chunkCount
      if urls ≠ chunks then
        ⟨[description], some request, [],
          .error (.uploadError s!"gateway returned {urls} upload URLs but we have {chunks} chunks")⟩
      else
        let sent := uploadChunks sodium config random file options server description.key response (List.range chunks)
        ⟨description :: sent.encrypted, some request, sent.puts, sent.result.map fun _ =>
          ⟨shareUrl config random response.shortId, response.shortId, expiresAt,
            bytesToBase64Url random.revokeToken⟩⟩

end Upload

end SlothBox

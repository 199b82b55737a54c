import SlothBox.Download
import SlothBox.Gateway
import SlothBox.Library.Validation

/-! The two ends of a share's description at the gateway: `CreateShareSchema` with the
decoding behind it, and `GET /api/shares/:shortId`. The schema reads a parsed JSON
value, so numbers are doubles and strings are code units. What a date string means is
a parameter. -/

namespace SlothBox
open Library

structure GatewayConfig where
  maxShareTtlDays : Nat := 7
  maxChunkSizeBytes : Nat := 10 * 1024 * 1024
  maxFileSizeBytes : Nat := 1024 * 1024 * 1024
  ingestPublicUrl : String := "http://localhost:3023"

/-- The validator's reading of ISO 8601 with an offset, and `new Date(…).getTime()` in
milliseconds. -/
structure Dates where
  datetime : List Nat → Bool
  getTime : List Nat → Option Int

/-- `Date.now()`. -/
def dateNow (clock : Timestamp) : Int := (clock / 1000 : Nat)

inductive LowerBound where
  | above (bound : Int)
  | atLeast (bound : Int)
  deriving DecidableEq, Repr

def LowerBound.admits : LowerBound → Double → Bool
  | .above bound, value => (Double.finite bound).lt value
  | .atLeast bound, value => !value.lt (.finite bound)

/-- The code of an issue, with the message where the schema sets one. -/
inductive Problem where
  | invalidType (expected : String)
  | tooSmall (low : LowerBound)
  | tooBig (maximum : Int) (message : Option String)
  | invalidString (validation : String)
  | custom (message : String)
  /-- `chunkCount * chunkSize (…) exceeds MAX_FILE_SIZE_BYTES (…)` -/
  | storageExceeds (total : Option Double) (limit : Int)
  /-- `chunkCount * chunkSize (…) is smaller than declared fileSize (…)` -/
  | storageSmaller (total : Option Double) (fileSize : Double)
  deriving DecidableEq

structure Issue where
  path : List String
  problem : Problem
  deriving DecidableEq

abbrev Field := Parsed Issue GatewayReply

/-! ### Fields -/

def fileHashBytes : Nat := 32
def gatewayAeadTagBytes : Nat := 16
def nonceMetaBytes : Nat := 24
def passwordSaltBytes : Nat := 16
def revokeTokenHashBytes : Nat := 32

def GatewayReply.invalidEncoding : GatewayReply := .exception 400 "encoded value is not valid base64url"

/-- `decodeBase64Url`. -/
def decodeBase64Url (input : List Nat) : Except GatewayReply Bytes := do
  let text := input.map Char.ofNat
  throwIf (text = [] ∨ ¬text.all isBase64UrlChar) .invalidEncoding
  return Base64.bufferFrom ((text ++ Base64.padding text.length).map Base64.ofUrlChar)

/-- `z.number().int()` between two bounds. -/
def integerField (name : String) (low : LowerBound) (maximum : Int) (message : Option String) :
    Option (Json Double) → Field Double
  | some (.number value) =>
    Parsed.pass value
      |>.check Double.isInteger ⟨[name], .invalidType "integer"⟩
      |>.check low.admits ⟨[name], .tooSmall low⟩
      |>.check (fun value => !(Double.finite maximum).lt value) ⟨[name], .tooBig maximum message⟩
  | _ => .abort ⟨[name], .invalidType "number"⟩

/-- `z.string()` with at least one code unit and at most `longest`. -/
def stringField (name : String) (longest : Nat) : Option (Json Double) → Field (List Nat)
  | some (.string units) =>
    Parsed.pass units
      |>.check (fun units => 1 ≤ units.length) ⟨[name], .tooSmall (.atLeast 1)⟩
      |>.check (fun units => units.length ≤ longest) ⟨[name], .tooBig longest none⟩
  | _ => .abort ⟨[name], .invalidType "string"⟩

/-- A string that decodes to a fixed number of bytes. The decoder throws on what is no
base64url, which ends the whole request. -/
def encodedField (name : String) (bytes : Nat) (input : Option (Json Double)) : Field (List Nat) :=
  (stringField name 64 input).refine (fun units => (decodeBase64Url units).map (·.length == bytes))
    ⟨[name], .custom s!"{name} must decode to exactly {bytes} bytes"⟩

def booleanField (name : String) : Option (Json Double) → Field Bool
  | some (.bool value) => .pass value
  | _ => .abort ⟨[name], .invalidType "boolean"⟩

def optionalField {α : Type} (inner : Option (Json Double) → Field α) :
    Option (Json Double) → Field (Option α)
  | none => .pass none
  | input => (inner input).map some

def nullableField {α : Type} (inner : Option (Json Double) → Field α) :
    Option (Json Double) → Field (Option α)
  | some .null => .pass none
  | input => (inner input).map some

def defaultField {α : Type} (value : α) (inner : Option (Json Double) → Field α) :
    Option (Json Double) → Field α
  | none => .pass value
  | input => inner input

def fileSizeField (config : GatewayConfig) : Option (Json Double) → Field Double :=
  integerField "fileSize" (.above 0) config.maxFileSizeBytes (some "fileSize exceeds MAX_FILE_SIZE_BYTES")

def chunkCountField : Option (Json Double) → Field Double :=
  integerField "chunkCount" (.above 0) 100000 none

/-- The bound is on the plaintext slice, whose ciphertext must fit into one request. -/
def chunkSizeField (config : GatewayConfig) : Option (Json Double) → Field Double :=
  integerField "chunkSize" (.above 0) (config.maxChunkSizeBytes - gatewayAeadTagBytes)
    (some "chunkSize exceeds the uploadable maximum (MAX_CHUNK_SIZE_BYTES minus the 16-byte AEAD tag)")

def expiresAtField (config : GatewayConfig) (dates : Dates) (clock : Timestamp) :
    Option (Json Double) → Field (List Nat)
  | some (.string units) =>
    let days := config.maxShareTtlDays
    Parsed.pass units
      |>.check dates.datetime ⟨["expiresAt"], .invalidString "datetime"⟩
      |>.refine (fun iso => .ok ((dates.getTime iso).any (dateNow clock < ·)))
        ⟨["expiresAt"], .custom "expiresAt must be a future ISO-8601 timestamp"⟩
      |>.refineAgain (fun iso => (dates.getTime iso).any fun time =>
          time - dateNow clock ≤ (days : Int) * 24 * 60 * 60 * 1000)
        ⟨["expiresAt"], .custom s!"expiresAt cannot be more than {days} days from now"⟩
  | _ => .abort ⟨["expiresAt"], .invalidType "string"⟩

/-! ### CreateShareSchema -/

structure CreateShareBody where
  fileSize : Double
  fileHash : List Nat
  encryptedMeta : List Nat
  nonceMeta : List Nat
  chunkCount : Double
  chunkSize : Double
  expiresAt : List Nat
  burnAfterRead : Bool
  maxDownloads : Option Double
  passwordProtected : Bool
  passwordSalt : Option (List Nat)
  passwordKdfOpsLimit : Option Double
  passwordKdfMemLimitKib : Option Double
  revokeTokenHash : Option (List Nat)
  deriving DecidableEq

/-- The two checks of `superRefine` on the declared storage. -/
def CreateShareBody.storageIssues (config : GatewayConfig) (data : CreateShareBody) : List Issue :=
  let total := Double.mul? data.chunkCount data.chunkSize
  (if total.any (Double.finite config.maxFileSizeBytes).lt then
    [⟨["chunkCount"], .storageExceeds total config.maxFileSizeBytes⟩] else []) ++
  if total.any (·.lt data.fileSize) then [⟨["chunkCount"], .storageSmaller total data.fileSize⟩] else []

/-- Its all-or-nothing rule for the password fields. -/
def CreateShareBody.passwordIssues (data : CreateShareBody) : List Issue :=
  let kdfFieldsAllPresent :=
    data.passwordSalt.isSome && data.passwordKdfOpsLimit.isSome && data.passwordKdfMemLimitKib.isSome
  let kdfFieldsAllAbsent :=
    data.passwordSalt.isNone && data.passwordKdfOpsLimit.isNone && data.passwordKdfMemLimitKib.isNone
  (if data.passwordProtected && !kdfFieldsAllPresent then
    [⟨["passwordProtected"], .custom
      "passwordProtected = true requires passwordSalt + passwordKdfOpsLimit + passwordKdfMemLimitKib"⟩]
  else []) ++
  if !data.passwordProtected && !kdfFieldsAllAbsent then
    [⟨["passwordProtected"], .custom ("passwordProtected = false rejects passwordSalt / " ++
      "passwordKdfOpsLimit / passwordKdfMemLimitKib — omit all three")⟩]
  else []

/-- The fields in the order of the schema, before `superRefine`. -/
def createShareFields (config : GatewayConfig) (dates : Dates) (clock : Timestamp) (data : Json Double) :
    Field CreateShareBody :=
  Parsed.pass CreateShareBody.mk
    |>.field (fileSizeField config (data.get? "fileSize"))
    |>.field (encodedField "fileHash" fileHashBytes (data.get? "fileHash"))
    |>.field (stringField "encryptedMeta" 8192 (data.get? "encryptedMeta"))
    |>.field (encodedField "nonceMeta" nonceMetaBytes (data.get? "nonceMeta"))
    |>.field (chunkCountField (data.get? "chunkCount"))
    |>.field (chunkSizeField config (data.get? "chunkSize"))
    |>.field (expiresAtField config dates clock (data.get? "expiresAt"))
    |>.field (booleanField "burnAfterRead" (data.get? "burnAfterRead"))
    |>.field (nullableField (integerField "maxDownloads" (.above 0) 10000 none) (data.get? "maxDownloads"))
    |>.field (defaultField false (booleanField "passwordProtected") (data.get? "passwordProtected"))
    |>.field (optionalField (encodedField "passwordSalt" passwordSaltBytes) (data.get? "passwordSalt"))
    |>.field (optionalField (integerField "passwordKdfOpsLimit" (.atLeast 1) 10 none)
      (data.get? "passwordKdfOpsLimit"))
    |>.field (optionalField (integerField "passwordKdfMemLimitKib" (.atLeast 8192) 1048576 none)
      (data.get? "passwordKdfMemLimitKib"))
    |>.field (optionalField (encodedField "revokeTokenHash" revokeTokenHashBytes) (data.get? "revokeTokenHash"))

/-- `CreateShareSchema`: an exception of the decoder, or the issues of which a 400 is
made, or the body. -/
def createShareSchema (config : GatewayConfig) (dates : Dates) (clock : Timestamp) (data : Json Double) :
    Except GatewayReply (Except (List Issue) CreateShareBody) :=
  match data with
  | .object _ =>
    (createShareFields config dates clock data).outcome fun body =>
      body.storageIssues config ++ body.passwordIssues
  | _ => .ok (.error [⟨[], .invalidType "object"⟩])

/-! ### The handler of POST /api/shares -/

/-- A field that may be left out; an empty string counts as left out. -/
def decodePresent : Option (List Nat) → Except GatewayReply (Option Bytes)
  | none | some [] => .ok none
  | some units => (decodeBase64Url units).map some

/-- What the handler inserts under the identifiers it is given. -/
def CreateShareBody.request (config : GatewayConfig) (dates : Dates) (id shortId : String)
    (body : CreateShareBody) : Except GatewayReply CreateRequest := do
  let fileHash ← decodeBase64Url body.fileHash
  let nonceMeta ← decodeBase64Url body.nonceMeta
  let encryptedMeta ← decodeBase64Url body.encryptedMeta
  let passwordSalt ← decodePresent body.passwordSalt
  let revokeTokenHash ← decodePresent body.revokeTokenHash
  -- an invalid date cannot be written
  let expiresAt ← (dates.getTime body.expiresAt).elim (.error .internalError) .ok
  return {
    id, shortId
    expiresAt := (expiresAt * 1000).toNat
    burnAfterRead := body.burnAfterRead
    maxDownloads := body.maxDownloads.map Double.toNat
    fileHash
    fileSize := body.fileSize.toNat
    encryptedMeta, nonceMeta
    chunkCount := body.chunkCount.toNat
    chunkSize := body.chunkSize.toNat
    passwordProtected := body.passwordProtected
    passwordSalt
    passwordKdfOpsLimit := body.passwordKdfOpsLimit.map Double.toNat
    passwordKdfMemLimitKib := body.passwordKdfMemLimitKib.map Double.toNat
    revokeTokenHash
    ingestPublicUrl := config.ingestPublicUrl }

/-! ### GET /api/shares/:shortId -/

structure ShareResponse where
  shortId : String
  /-- The milliseconds that `toISOString` writes. -/
  expiresAt : Nat
  burnAfterRead : Bool
  fileSize : String
  encryptedMeta : String
  nonceMeta : String
  chunkCount : Nat
  chunkSize : Nat
  state : ShareState
  password : SharePasswordFacet
  deriving DecidableEq

/-- `encodeBase64Url`. -/
def encodeBase64Url (buf : Bytes) : String := String.ofList (Base64.encodeUrl buf)

def ShareRow.passwordFacet (row : ShareRow) : SharePasswordFacet :=
  match row.passwordProtected, row.passwordSalt, row.passwordKdfOpsLimit, row.passwordKdfMemLimitKib with
  | true, some salt, some opsLimit, some memLimitKib => .enabled (encodeBase64Url salt) opsLimit memLimitKib
  | _, _, _, _ => .disabled

def ShareRow.response (row : ShareRow) : ShareResponse where
  shortId := row.shortId
  expiresAt := row.expiresAt / 1000
  burnAfterRead := row.burnAfterRead
  fileSize := toString row.fileSize
  encryptedMeta := encodeBase64Url row.encryptedMeta
  nonceMeta := encodeBase64Url row.nonceMeta
  chunkCount := row.chunkCount
  chunkSize := row.chunkSize
  state := row.state
  password := row.passwordFacet

/-- The handler behind its rate limit: one statement that reads the row. -/
def getShare (store : Store) (clock : Timestamp) (shortId : String) : Except GatewayReply ShareResponse :=
  if !validShortId shortId then .error .notFound
  else match store.find shortId with
    | none => .error .notFound
    | some row =>
      if row.state.terminal then .error .notFound
      -- dates have milliseconds
      else if (row.expiresAt / 1000 : Nat) ≤ dateNow clock then .error .notFound
      else .ok row.response

end SlothBox

import SlothBox.Backend
import SlothBox.Proofs.Base64Url
import SlothBox.Proofs.Creation
import SlothBox.Proofs.Sizes

/-! What the browser declares is what the table holds. A request of `uploadFile` goes through
the gateway's schema exactly if it keeps to limits that only the operator and the sender
choose, and then the handler inserts the bytes and the numbers that it was made of. -/

namespace SlothBox.Proofs
open Library

/-- A text as the gateway receives it. -/
def sent (text : String) : Json Double := .string (units text)

/-! ### The fields of an object -/

section Fields
variable {config : GatewayConfig} {dates : Dates} {clock : Timestamp}

structure FieldsAccept (config : GatewayConfig) (dates : Dates) (clock : Timestamp) (data : Json Double)
    (body : CreateShareBody) : Prop where
  fileSize : (fileSizeField config (data.get? "fileSize")).Accepts body.fileSize
  fileHash : (encodedField "fileHash" fileHashBytes (data.get? "fileHash")).Accepts body.fileHash
  encryptedMeta : (stringField "encryptedMeta" 8192 (data.get? "encryptedMeta")).Accepts body.encryptedMeta
  nonceMeta : (encodedField "nonceMeta" nonceMetaBytes (data.get? "nonceMeta")).Accepts body.nonceMeta
  chunkCount : (chunkCountField (data.get? "chunkCount")).Accepts body.chunkCount
  chunkSize : (chunkSizeField config (data.get? "chunkSize")).Accepts body.chunkSize
  expiresAt : (expiresAtField config dates clock (data.get? "expiresAt")).Accepts body.expiresAt
  burnAfterRead : (booleanField "burnAfterRead" (data.get? "burnAfterRead")).Accepts body.burnAfterRead
  maxDownloads : (nullableField (integerField "maxDownloads" (.above 0) 10000 none)
    (data.get? "maxDownloads")).Accepts body.maxDownloads
  passwordProtected : (defaultField false (booleanField "passwordProtected")
    (data.get? "passwordProtected")).Accepts body.passwordProtected
  passwordSalt : (optionalField (encodedField "passwordSalt" passwordSaltBytes)
    (data.get? "passwordSalt")).Accepts body.passwordSalt
  passwordKdfOpsLimit : (optionalField (integerField "passwordKdfOpsLimit" (.atLeast 1) 10 none)
    (data.get? "passwordKdfOpsLimit")).Accepts body.passwordKdfOpsLimit
  passwordKdfMemLimitKib : (optionalField (integerField "passwordKdfMemLimitKib" (.atLeast 8192) 1048576 none)
    (data.get? "passwordKdfMemLimitKib")).Accepts body.passwordKdfMemLimitKib
  revokeTokenHash : (optionalField (encodedField "revokeTokenHash" revokeTokenHashBytes)
    (data.get? "revokeTokenHash")).Accepts body.revokeTokenHash

theorem createShareFields_accepts {data : Json Double} {body : CreateShareBody} :
    (createShareFields config dates clock data).Accepts body ↔ FieldsAccept config dates clock data body := by
  simp only [createShareFields, Parsed.accepts_field, Parsed.accepts_pass]
  constructor
  · intro fields
    -- the fields from the last to the first
    obtain ⟨_, revokeTokenHash, fields, revokeOk, rfl⟩ := fields
    obtain ⟨_, memLimit, fields, memOk, rfl⟩ := fields
    obtain ⟨_, opsLimit, fields, opsOk, rfl⟩ := fields
    obtain ⟨_, salt, fields, saltOk, rfl⟩ := fields
    obtain ⟨_, passwordProtected, fields, protectOk, rfl⟩ := fields
    obtain ⟨_, maxDownloads, fields, maxOk, rfl⟩ := fields
    obtain ⟨_, burnAfterRead, fields, burnOk, rfl⟩ := fields
    obtain ⟨_, expiresAt, fields, expiresOk, rfl⟩ := fields
    obtain ⟨_, chunkSize, fields, sizeOk, rfl⟩ := fields
    obtain ⟨_, chunkCount, fields, countOk, rfl⟩ := fields
    obtain ⟨_, nonceMeta, fields, nonceOk, rfl⟩ := fields
    obtain ⟨_, encryptedMeta, fields, metaOk, rfl⟩ := fields
    obtain ⟨_, fileHash, fields, hashOk, rfl⟩ := fields
    obtain ⟨_, fileSize, fields, fileOk, rfl⟩ := fields
    subst fields
    exact ⟨fileOk, hashOk, metaOk, nonceOk, countOk, sizeOk, expiresOk, burnOk, maxOk, protectOk, saltOk, opsOk, memOk,
      revokeOk⟩
  · intro fields
    cases body
    refine ⟨_, _, ?_, fields.revokeTokenHash, rfl⟩
    refine ⟨_, _, ?_, fields.passwordKdfMemLimitKib, rfl⟩
    refine ⟨_, _, ?_, fields.passwordKdfOpsLimit, rfl⟩
    refine ⟨_, _, ?_, fields.passwordSalt, rfl⟩
    refine ⟨_, _, ?_, fields.passwordProtected, rfl⟩
    refine ⟨_, _, ?_, fields.maxDownloads, rfl⟩
    refine ⟨_, _, ?_, fields.burnAfterRead, rfl⟩
    refine ⟨_, _, ?_, fields.expiresAt, rfl⟩
    refine ⟨_, _, ?_, fields.chunkSize, rfl⟩
    refine ⟨_, _, ?_, fields.chunkCount, rfl⟩
    refine ⟨_, _, ?_, fields.nonceMeta, rfl⟩
    refine ⟨_, _, ?_, fields.encryptedMeta, rfl⟩
    refine ⟨_, _, ?_, fields.fileHash, rfl⟩
    exact ⟨_, _, rfl, fields.fileSize, rfl⟩

/-- On an object the schema lets through what all fields and both rules across them do. -/
theorem createShareSchema_object {members : List (List ℕ × Json Double)} {body : CreateShareBody} :
    createShareSchema config dates clock (.object members) = .ok (.ok body) ↔
      FieldsAccept config dates clock (.object members) body ∧ body.storageIssues config = [] ∧ body.passwordIssues = [] := by
  rw [← createShareFields_accepts, ← List.append_eq_nil_iff]
  exact Parsed.outcome_ok

theorem integerField_nat {name : String} {low : LowerBound} {maximum : ℤ} {message : Option String} {n : ℕ} {value : Double}
    (natural : 0 < least low) :
    (integerField name low maximum message (some (.number (.finite n)))).Accepts value ↔
      value = .finite n ∧ least low ≤ n ∧ n ≤ maximum := by
  rw [integerField_accepts natural]
  constructor
  · intro ⟨same, within⟩
    cases same
    exact ⟨rfl, within_nat.mp within⟩
  · intro ⟨same, within⟩
    subst same
    exact ⟨rfl, within_nat.mpr within⟩

theorem stringField_sent {name text : String} {longest : ℕ} {value : List ℕ} :
    (stringField name longest (some (sent text))).Accepts value ↔
      value = units text ∧ 1 ≤ Utf16.length text ∧ Utf16.length text ≤ longest := by
  rw [stringField_accepts]
  constructor
  · intro ⟨same, bounds⟩
    cases same
    exact ⟨rfl, bounds⟩
  · intro ⟨same, bounds⟩
    subst same
    exact ⟨rfl, bounds⟩

theorem booleanField_sent {name : String} {flag value : Bool} :
    (booleanField name (some (.bool flag))).Accepts value ↔ value = flag := by
  rw [booleanField, Parsed.accepts_pass, eq_comm]

/-- Up to 47 bytes fit into the 64 characters of an encoded field. -/
theorem encodedField_sent {name : String} {bytes : Bytes} {width : ℕ} {value : List ℕ} (exact : bytes.length = width)
    (filled : 0 < width) (short : width ≤ 47) :
    (encodedField name width (some (sent (bytesToBase64Url bytes)))).Accepts value ↔ value = units (bytesToBase64Url bytes) := by
  rw [encodedField_accepts]
  constructor
  · intro ⟨same, _⟩
    cases same
    rfl
  · intro same
    subst same
    have length : (units (bytesToBase64Url bytes)).length = (bytes.length * 4 + 2) / 3 := utf16_length_base64 bytes
    refine ⟨rfl, by omega, bytes, decodeBase64Url_encoded ?_, exact⟩
    exact List.length_pos_iff.mp (by omega)

theorem optionalField_map {α β : Type} {inner : Option (Json Double) → Field α} {given : Option β} {write : β → Json Double}
    {value : Option α} {read : β → α} {fits : β → Prop}
    (turn : ∀ b, given = some b → ∀ a, (inner (some (write b))).Accepts a ↔ a = read b ∧ fits b) :
    (optionalField inner (given.map write)).Accepts value ↔ value = given.map read ∧ ∀ b, given = some b → fits b := by
  rw [optionalField_accepts]
  cases given with
  | none => simp
  | some b =>
    simp only [Option.map_some, reduceCtorEq, false_and, ne_eq, not_false_eq_true, true_and, false_or, turn b rfl,
      Option.some.injEq, forall_eq']
    constructor
    · intro ⟨a, same, read, bounds⟩
      exact ⟨same.trans (congrArg some read), bounds⟩
    · intro ⟨same, bounds⟩
      exact ⟨_, same, rfl, bounds⟩

theorem nullableField_elim {α β : Type} {inner : Option (Json Double) → Field α} {given : Option β} {write : β → Json Double}
    {value : Option α} {read : β → α} {fits : β → Prop} (there : ∀ b, write b ≠ .null)
    (turn : ∀ b, given = some b → ∀ a, (inner (some (write b))).Accepts a ↔ a = read b ∧ fits b) :
    (nullableField inner (some (given.elim .null write))).Accepts value ↔
      value = given.map read ∧ ∀ b, given = some b → fits b := by
  rw [nullableField_accepts]
  cases given with
  | none => simp
  | some b =>
    simp only [Option.elim_some, Option.some.injEq, there b, false_and, ne_eq, not_false_eq_true, true_and, false_or,
      turn b rfl, forall_eq', Option.map_some]
    constructor
    · intro ⟨a, same, read, bounds⟩
      exact ⟨same.trans (congrArg some read), bounds⟩
    · intro ⟨same, bounds⟩
      exact ⟨_, same, rfl, bounds⟩

/-! ### The browser's request -/

/-- The members of a request by their names. -/
structure Members (request : CreateShareRequest) (data : Json Double) : Prop where
  fileSize : data.get? "fileSize" = some (.number (.finite request.fileSize))
  fileHash : data.get? "fileHash" = some (sent request.fileHash)
  encryptedMeta : data.get? "encryptedMeta" = some (sent request.encryptedMeta)
  nonceMeta : data.get? "nonceMeta" = some (sent request.nonceMeta)
  chunkCount : data.get? "chunkCount" = some (.number (.finite request.chunkCount))
  chunkSize : data.get? "chunkSize" = some (.number (.finite request.chunkSize))
  expiresAt : data.get? "expiresAt" = some (sent request.expiresAt)
  burnAfterRead : data.get? "burnAfterRead" = some (.bool request.burnAfterRead)
  maxDownloads : data.get? "maxDownloads" = some (request.maxDownloads.elim .null fun cap => .number (.finite cap))
  passwordProtected : data.get? "passwordProtected" = some (.bool request.passwordProtected)
  passwordSalt : data.get? "passwordSalt" = request.passwordSalt.map sent
  passwordKdfOpsLimit : data.get? "passwordKdfOpsLimit" = request.passwordKdfOpsLimit.map fun ops : ℕ => .number (.finite ops)
  passwordKdfMemLimitKib : data.get? "passwordKdfMemLimitKib" =
    request.passwordKdfMemLimitKib.map fun kib : ℕ => .number (.finite kib)
  revokeTokenHash : data.get? "revokeTokenHash" = some (sent request.revokeTokenHash)

theorem toJson_members (request : CreateShareRequest) : Members request request.toJson := by
  obtain ⟨fileSize, fileHash, encryptedMeta, nonceMeta, chunkCount, chunkSize, expiresAt, burnAfterRead, maxDownloads,
    passwordProtected, salt, ops, mem, revokeTokenHash⟩ := request
  cases salt <;> cases ops <;> cases mem <;> exact ⟨rfl, rfl, rfl, rfl, rfl, rfl, rfl, rfl, rfl, rfl, rfl, rfl, rfl, rfl⟩

/-- What the schema makes of a request that it lets through. -/
def declaredBody (request : CreateShareRequest) : CreateShareBody where
  fileSize := .finite request.fileSize
  fileHash := units request.fileHash
  encryptedMeta := units request.encryptedMeta
  nonceMeta := units request.nonceMeta
  chunkCount := .finite request.chunkCount
  chunkSize := .finite request.chunkSize
  expiresAt := units request.expiresAt
  burnAfterRead := request.burnAfterRead
  maxDownloads := request.maxDownloads.map fun cap : ℕ => .finite cap
  passwordProtected := request.passwordProtected
  passwordSalt := request.passwordSalt.map units
  passwordKdfOpsLimit := request.passwordKdfOpsLimit.map fun ops : ℕ => .finite ops
  passwordKdfMemLimitKib := request.passwordKdfMemLimitKib.map fun kib : ℕ => .finite kib
  revokeTokenHash := some (units request.revokeTokenHash)

/-- The limits that the browser does not keep by itself. -/
structure Declarable (config : GatewayConfig) (dates : Dates) (clock : Timestamp) (request : CreateShareRequest) : Prop where
  fileSize : request.fileSize ≤ config.maxFileSizeBytes
  chunkCount : request.chunkCount ≤ 100000
  chunkSize : request.chunkSize + gatewayAeadTagBytes ≤ config.maxChunkSizeBytes
  storage : request.chunkCount * request.chunkSize ≤ config.maxFileSizeBytes
  encryptedMeta : Utf16.length request.encryptedMeta ≤ 8192
  expiresAt : dates.datetime (units request.expiresAt) ∧ ∃ time, dates.getTime (units request.expiresAt) = some time ∧
    dateNow clock < time ∧ time - dateNow clock ≤ (config.maxShareTtlDays : ℤ) * 24 * 60 * 60 * 1000
  maxDownloads : ∀ cap, request.maxDownloads = some cap → 0 < cap ∧ cap ≤ 10000
  passwordKdfOpsLimit : ∀ ops, request.passwordKdfOpsLimit = some ops → 1 ≤ ops ∧ ops ≤ 10
  passwordKdfMemLimitKib : ∀ kib, request.passwordKdfMemLimitKib = some kib → 8192 ≤ kib ∧ kib ≤ 1048576

end Fields

section Browser
variable {sodium : Sodium} {web : WebConfig} {random : Randomness} {file : File} {options : UploadOptions} {expiresAt : String}
  {encryptedMeta : Bytes} {config : GatewayConfig} {dates : Dates} {clock : Timestamp}

/-- The lengths of the two digests that a request carries. -/
structure Digests (sodium : Sodium) : Prop where
  sha256 : ∀ message, (sodium.sha256 message).length = 32
  genericHash : ∀ message, (sodium.genericHash message).length = 32

/-- The bounds that the fields check, one by one. -/
structure FieldBounds (config : GatewayConfig) (dates : Dates) (clock : Timestamp) (request : CreateShareRequest) : Prop where
  fileSize : 0 < request.fileSize ∧ request.fileSize ≤ config.maxFileSizeBytes
  encryptedMeta : 1 ≤ Utf16.length request.encryptedMeta ∧ Utf16.length request.encryptedMeta ≤ 8192
  chunkCount : 0 < request.chunkCount ∧ request.chunkCount ≤ 100000
  chunkSize : 0 < request.chunkSize ∧ request.chunkSize + gatewayAeadTagBytes ≤ config.maxChunkSizeBytes
  expiresAt : dates.datetime (units request.expiresAt) ∧ ∃ time, dates.getTime (units request.expiresAt) = some time ∧
    dateNow clock < time ∧ time - dateNow clock ≤ (config.maxShareTtlDays : ℤ) * 24 * 60 * 60 * 1000
  maxDownloads : ∀ cap, request.maxDownloads = some cap → 0 < cap ∧ cap ≤ 10000
  passwordKdfOpsLimit : ∀ ops, request.passwordKdfOpsLimit = some ops → 1 ≤ ops ∧ ops ≤ 10
  passwordKdfMemLimitKib : ∀ kib, request.passwordKdfMemLimitKib = some kib → 8192 ≤ kib ∧ kib ≤ 1048576

/-- The texts of a request that stand for bytes. -/
structure Encoded (request : CreateShareRequest) (fileHash nonceMeta revokeTokenHash : Bytes) (salt : Option Bytes) : Prop where
  fileHash : request.fileHash = bytesToBase64Url fileHash ∧ fileHash.length = fileHashBytes
  nonceMeta : request.nonceMeta = bytesToBase64Url nonceMeta ∧ nonceMeta.length = nonceMetaBytes
  revokeTokenHash : request.revokeTokenHash = bytesToBase64Url revokeTokenHash ∧ revokeTokenHash.length = revokeTokenHashBytes
  passwordSalt : request.passwordSalt = salt.map bytesToBase64Url ∧ ∀ bytes, salt = some bytes → bytes.length = passwordSaltBytes

section Members
variable {request : CreateShareRequest} {body : CreateShareBody} {fileHash nonceMeta revokeTokenHash : Bytes} {salt : Option Bytes}

theorem passwordSalt_accepts (encoded : Encoded request fileHash nonceMeta revokeTokenHash salt) {value : Option (List ℕ)} :
    (optionalField (encodedField "passwordSalt" passwordSaltBytes) (request.passwordSalt.map sent)).Accepts value ↔
      value = request.passwordSalt.map units := by
  obtain ⟨same, width⟩ := encoded.passwordSalt
  have turn : ∀ bytes, salt = some bytes → ∀ value, (encodedField "passwordSalt" passwordSaltBytes
      (some (sent (bytesToBase64Url bytes)))).Accepts value ↔ value = units (bytesToBase64Url bytes) ∧ True := by
    intro bytes there value
    rw [and_true]
    exact encodedField_sent (width bytes there) (by decide) (by decide)
  have whole := @optionalField_map _ _ _ _ _ value _ _ turn
  rw [same, Option.map_map, Option.map_map]
  exact whole.trans (and_iff_left fun _ _ => trivial)

theorem fieldsAccept_iff (encoded : Encoded request fileHash nonceMeta revokeTokenHash salt) :
    FieldsAccept config dates clock request.toJson body ↔
      body = declaredBody request ∧ FieldBounds config dates clock request := by
  have members := toJson_members request
  let data := request.toJson
  have fileSize : (fileSizeField config (data.get? "fileSize")).Accepts body.fileSize ↔
      body.fileSize = .finite request.fileSize ∧ 0 < request.fileSize ∧ request.fileSize ≤ config.maxFileSizeBytes := by
    rw [members.fileSize, fileSizeField, integerField_nat (by decide), least]
    exact and_congr_right fun _ => by omega
  have hash : (encodedField "fileHash" fileHashBytes (data.get? "fileHash")).Accepts body.fileHash ↔
      body.fileHash = units request.fileHash := by
    rw [members.fileHash, encoded.fileHash.1]
    exact encodedField_sent encoded.fileHash.2 (by decide) (by decide)
  have described : (stringField "encryptedMeta" 8192 (data.get? "encryptedMeta")).Accepts body.encryptedMeta ↔
      body.encryptedMeta = units request.encryptedMeta ∧ 1 ≤ Utf16.length request.encryptedMeta ∧
        Utf16.length request.encryptedMeta ≤ 8192 := by
    rw [members.encryptedMeta, stringField_sent]
  have nonce : (encodedField "nonceMeta" nonceMetaBytes (data.get? "nonceMeta")).Accepts body.nonceMeta ↔
      body.nonceMeta = units request.nonceMeta := by
    rw [members.nonceMeta, encoded.nonceMeta.1]
    exact encodedField_sent encoded.nonceMeta.2 (by decide) (by decide)
  have count : (chunkCountField (data.get? "chunkCount")).Accepts body.chunkCount ↔
      body.chunkCount = .finite request.chunkCount ∧ 0 < request.chunkCount ∧ request.chunkCount ≤ 100000 := by
    rw [members.chunkCount, chunkCountField, integerField_nat (by decide), least]
    exact and_congr_right fun _ => by omega
  have size : (chunkSizeField config (data.get? "chunkSize")).Accepts body.chunkSize ↔
      body.chunkSize = .finite request.chunkSize ∧ 0 < request.chunkSize ∧
        request.chunkSize + gatewayAeadTagBytes ≤ config.maxChunkSizeBytes := by
    rw [members.chunkSize, chunkSizeField, integerField_nat (by decide), least]
    exact and_congr_right fun _ => by omega
  have expires : (expiresAtField config dates clock (data.get? "expiresAt")).Accepts body.expiresAt ↔
      body.expiresAt = units request.expiresAt ∧ dates.datetime (units request.expiresAt) ∧
        ∃ time, dates.getTime (units request.expiresAt) = some time ∧ dateNow clock < time ∧
          time - dateNow clock ≤ (config.maxShareTtlDays : ℤ) * 24 * 60 * 60 * 1000 := by
    rw [members.expiresAt, expiresAtField_accepts]
    constructor
    · intro accepts
      obtain ⟨same, bounds⟩ := accepts
      have same : units request.expiresAt = body.expiresAt := Json.string.inj (Option.some.inj same)
      rw [same]
      exact ⟨rfl, bounds⟩
    · intro sent
      obtain ⟨same, bounds⟩ := sent
      rw [same]
      exact ⟨rfl, bounds⟩
  have burn : (booleanField "burnAfterRead" (data.get? "burnAfterRead")).Accepts body.burnAfterRead ↔
      body.burnAfterRead = request.burnAfterRead := by
    rw [members.burnAfterRead, booleanField_sent]
  have downloads : (nullableField (integerField "maxDownloads" (.above 0) 10000 none)
      (data.get? "maxDownloads")).Accepts body.maxDownloads ↔
      body.maxDownloads = request.maxDownloads.map (fun cap : ℕ => .finite cap) ∧
        ∀ cap, request.maxDownloads = some cap → 0 < cap ∧ cap ≤ 10000 := by
    have written : ∀ cap : ℕ, (Json.number (Double.finite cap) : Json Double) ≠ .null := by
      intro cap same
      cases same
    rw [members.maxDownloads]
    refine nullableField_elim written fun cap _ value => ?_
    rw [integerField_nat (by decide), least]
    exact and_congr_right fun _ => by omega
  have protect : (defaultField false (booleanField "passwordProtected")
      (data.get? "passwordProtected")).Accepts body.passwordProtected ↔
      body.passwordProtected = request.passwordProtected := by
    rw [members.passwordProtected]
    exact (booleanField_sent : (booleanField "passwordProtected" _).Accepts _ ↔ _)
  have salted : (optionalField (encodedField "passwordSalt" passwordSaltBytes)
      (data.get? "passwordSalt")).Accepts body.passwordSalt ↔ body.passwordSalt = request.passwordSalt.map units := by
    rw [members.passwordSalt]
    exact passwordSalt_accepts encoded
  have opsLimit : (optionalField (integerField "passwordKdfOpsLimit" (.atLeast 1) 10 none)
      (data.get? "passwordKdfOpsLimit")).Accepts body.passwordKdfOpsLimit ↔
      body.passwordKdfOpsLimit = request.passwordKdfOpsLimit.map (fun ops : ℕ => .finite ops) ∧
        ∀ ops, request.passwordKdfOpsLimit = some ops → 1 ≤ ops ∧ ops ≤ 10 := by
    rw [members.passwordKdfOpsLimit]
    refine optionalField_map fun ops _ value => ?_
    rw [integerField_nat (by decide), least]
    exact and_congr_right fun _ => by omega
  have memLimit : (optionalField (integerField "passwordKdfMemLimitKib" (.atLeast 8192) 1048576 none)
      (data.get? "passwordKdfMemLimitKib")).Accepts body.passwordKdfMemLimitKib ↔
      body.passwordKdfMemLimitKib = request.passwordKdfMemLimitKib.map (fun kib : ℕ => .finite kib) ∧
        ∀ kib, request.passwordKdfMemLimitKib = some kib → 8192 ≤ kib ∧ kib ≤ 1048576 := by
    rw [members.passwordKdfMemLimitKib]
    refine optionalField_map fun kib _ value => ?_
    rw [integerField_nat (by decide), least]
    exact and_congr_right fun _ => by omega
  have revoke : (optionalField (encodedField "revokeTokenHash" revokeTokenHashBytes)
      (data.get? "revokeTokenHash")).Accepts body.revokeTokenHash ↔
      body.revokeTokenHash = some (units request.revokeTokenHash) := by
    have whole : ∀ value, (encodedField "revokeTokenHash" revokeTokenHashBytes
        (some (sent (bytesToBase64Url revokeTokenHash)))).Accepts value ↔ value = units (bytesToBase64Url revokeTokenHash) :=
      fun value => encodedField_sent encoded.revokeTokenHash.2 (by decide) (by decide)
    rw [members.revokeTokenHash, encoded.revokeTokenHash.1, optionalField_accepts]
    simp [whole]
  constructor
  · intro fields
    obtain ⟨sameFile, fileBounds⟩ := fileSize.mp fields.fileSize
    obtain ⟨sameMeta, metaBounds⟩ := described.mp fields.encryptedMeta
    obtain ⟨sameCount, countBounds⟩ := count.mp fields.chunkCount
    obtain ⟨sameSize, sizeBounds⟩ := size.mp fields.chunkSize
    obtain ⟨sameExpiry, dated⟩ := expires.mp fields.expiresAt
    obtain ⟨sameCap, capBounds⟩ := downloads.mp fields.maxDownloads
    obtain ⟨sameOps, opsBounds⟩ := opsLimit.mp fields.passwordKdfOpsLimit
    obtain ⟨sameMem, memBounds⟩ := memLimit.mp fields.passwordKdfMemLimitKib
    refine ⟨?_, fileBounds, metaBounds, countBounds, sizeBounds, dated, capBounds, opsBounds, memBounds⟩
    have sameHash := hash.mp fields.fileHash
    have sameNonce := nonce.mp fields.nonceMeta
    have sameBurn := burn.mp fields.burnAfterRead
    have sameProtect := protect.mp fields.passwordProtected
    have sameSalt := salted.mp fields.passwordSalt
    have sameRevoke := revoke.mp fields.revokeTokenHash
    clear fileSize hash described nonce count size expires burn downloads protect salted opsLimit memLimit revoke fields
    cases body
    simp only at sameFile sameHash sameMeta sameNonce sameCount sameSize sameExpiry
    simp only at sameBurn sameCap sameProtect sameSalt sameOps sameMem sameRevoke
    subst sameFile sameHash sameMeta sameNonce sameCount sameSize sameExpiry
    subst sameBurn sameCap sameProtect sameSalt sameOps sameMem sameRevoke
    rfl
  · intro within
    obtain ⟨same, bounds⟩ := within
    subst same
    exact ⟨fileSize.mpr ⟨rfl, bounds.fileSize⟩, hash.mpr rfl, described.mpr ⟨rfl, bounds.encryptedMeta⟩, nonce.mpr rfl,
      count.mpr ⟨rfl, bounds.chunkCount⟩, size.mpr ⟨rfl, bounds.chunkSize⟩, expires.mpr ⟨rfl, bounds.expiresAt⟩, burn.mpr rfl,
      downloads.mpr ⟨rfl, bounds.maxDownloads⟩, protect.mpr rfl, salted.mpr rfl, opsLimit.mpr ⟨rfl, bounds.passwordKdfOpsLimit⟩,
      memLimit.mpr ⟨rfl, bounds.passwordKdfMemLimitKib⟩, revoke.mpr rfl⟩

end Members

theorem createRequest_encoded (digests : Digests sodium) :
    Encoded (createRequest sodium web random file options expiresAt encryptedMeta) (hashBytes sodium file.content)
      random.nonceMeta (sodium.sha256 random.revokeToken)
      (if options.hasPassword then some random.passwordSalt.val else none) where
  fileHash := ⟨rfl, digests.genericHash _⟩
  nonceMeta := ⟨rfl, random.nonceMeta.property⟩
  revokeTokenHash := ⟨rfl, digests.sha256 _⟩
  passwordSalt := by
    unfold createRequest
    cases options.hasPassword with
    | false => exact ⟨rfl, nofun⟩
    | true =>
      refine ⟨rfl, fun bytes same => ?_⟩
      cases same
      exact random.passwordSalt.property

/-- The browser names all password fields or none. -/
theorem createRequest_password :
    (declaredBody (createRequest sodium web random file options expiresAt encryptedMeta)).passwordIssues = [] := by
  unfold declaredBody createRequest
  cases options.hasPassword <;> rfl

theorem accepted_iff (digests : Digests sodium) (filled : 0 < file.size) (described : encryptedMeta ≠ [])
    (int32 : config.maxChunkSizeBytes < 2 ^ 31) {body : CreateShareBody} :
    createShareSchema config dates clock
        (createRequest sodium web random file options expiresAt encryptedMeta).toJson = .ok (.ok body) ↔
      body = declaredBody (createRequest sodium web random file options expiresAt encryptedMeta) ∧
        Declarable config dates clock (createRequest sodium web random file options expiresAt encryptedMeta) := by
  let request := createRequest sodium web random file options expiresAt encryptedMeta
  have schema : createShareSchema config dates clock request.toJson = .ok (.ok body) ↔
      FieldsAccept config dates clock request.toJson body ∧ body.storageIssues config = [] ∧ body.passwordIssues = [] :=
    createShareSchema_object
  have counted : 0 < request.chunkCount ∧ file.size ≤ request.chunkCount * request.chunkSize := by
    obtain ⟨nonzero, -, reach⟩ := @chunkCount_bounds web file filled
    exact ⟨nonzero, reach⟩
  have storage : request.chunkCount ≤ 100000 → request.chunkSize + gatewayAeadTagBytes ≤ config.maxChunkSizeBytes →
      ((declaredBody request).storageIssues config = [] ↔ request.chunkCount * request.chunkSize ≤ config.maxFileSizeBytes) := by
    intro few small
    have exact : request.chunkCount * request.chunkSize < 2 ^ 53 := by
      have := Nat.mul_le_mul few (show request.chunkSize ≤ 2 ^ 31 by omega)
      omega
    rw [storageIssues_nil rfl rfl rfl exact]
    exact and_iff_left counted.2
  rw [schema, fieldsAccept_iff (createRequest_encoded digests)]
  constructor
  · intro ⟨⟨same, bounds⟩, stored, _⟩
    subst same
    exact ⟨rfl, bounds.fileSize.2, bounds.chunkCount.2, bounds.chunkSize.2,
      (storage bounds.chunkCount.2 bounds.chunkSize.2).mp stored, bounds.encryptedMeta.2, bounds.expiresAt,
      bounds.maxDownloads, bounds.passwordKdfOpsLimit, bounds.passwordKdfMemLimitKib⟩
  · intro ⟨same, limits⟩
    subst same
    refine ⟨⟨rfl, ⟨filled, limits.fileSize⟩, ⟨?_, limits.encryptedMeta⟩, ⟨counted.1, limits.chunkCount⟩,
      ⟨web.positive, limits.chunkSize⟩, limits.expiresAt, limits.maxDownloads, limits.passwordKdfOpsLimit,
      limits.passwordKdfMemLimitKib⟩, (storage limits.chunkCount limits.chunkSize).mpr limits.storage,
      createRequest_password⟩
    have length := utf16_length_base64 encryptedMeta
    have nonzero := List.length_pos_iff.mpr described
    change 1 ≤ Utf16.length (bytesToBase64Url encryptedMeta)
    omega

/-- What the handler inserts, from what the browser knows. -/
def declared (sodium : Sodium) (web : WebConfig) (random : Randomness) (file : File) (options : UploadOptions)
    (encryptedMeta : Bytes) (config : GatewayConfig) (id shortId : String) (expiresAt : Timestamp) : CreateRequest where
  id := id
  shortId := shortId
  expiresAt := expiresAt
  burnAfterRead := options.burnAfterRead.getD false
  maxDownloads := options.maxDownloads
  fileHash := hashBytes sodium file.content
  fileSize := file.size
  encryptedMeta := encryptedMeta
  nonceMeta := random.nonceMeta
  chunkCount := chunkCount web file
  chunkSize := web.chunkSizeBytes
  passwordProtected := options.hasPassword
  passwordSalt := if options.hasPassword then some random.passwordSalt.val else none
  passwordKdfOpsLimit :=
    if options.hasPassword then some (options.passwordKdfOpsLimit.getD defaultOpsLimit) else none
  passwordKdfMemLimitKib :=
    if options.hasPassword then some (memLimitKib (options.passwordKdfMemLimitBytes.getD defaultMemLimitBytes)) else none
  revokeTokenHash := some (sodium.sha256 random.revokeToken)
  ingestPublicUrl := config.ingestPublicUrl

theorem decode_bytes {bytes : Bytes} (filled : 0 < bytes.length) :
    decodeBase64Url (units (bytesToBase64Url bytes)) = .ok bytes :=
  decodeBase64Url_encoded (List.length_pos_iff.mp filled)

theorem decodePresent_bytes {bytes : Bytes} (filled : 0 < bytes.length) :
    decodePresent (some (units (bytesToBase64Url bytes))) = .ok (some bytes) := by
  have there : units (bytesToBase64Url bytes) ≠ [] := by
    have length : (units (bytesToBase64Url bytes)).length = (bytes.length * 4 + 2) / 3 := utf16_length_base64 bytes
    exact List.length_pos_iff.mp (by omega)
  unfold decodePresent
  split
  next => contradiction
  next empty => exact absurd (Option.some.inj empty) there
  next given _ same =>
    cases same
    rw [decode_bytes filled]
    rfl

theorem declared_request (digests : Digests sodium) (described : encryptedMeta ≠ []) {time : ℤ}
    (dated : dates.getTime (units expiresAt) = some time) (id shortId : String) :
    (declaredBody (createRequest sodium web random file options expiresAt encryptedMeta)).request config dates id shortId =
      .ok (declared sodium web random file options encryptedMeta config id shortId (time * 1000).toNat) := by
  have fileHash := decode_bytes (Nat.lt_of_lt_of_eq (by decide) (digests.genericHash file.content).symm)
  have nonceMeta : decodeBase64Url (units (bytesToBase64Url random.nonceMeta)) = .ok random.nonceMeta.val :=
    decode_bytes (Nat.lt_of_lt_of_eq (by decide) random.nonceMeta.property.symm)
  have sealedMeta := decode_bytes (List.length_pos_iff.mpr described)
  have revoke := decodePresent_bytes (Nat.lt_of_lt_of_eq (by decide) (digests.sha256 random.revokeToken).symm)
  have salt : decodePresent (declaredBody (createRequest sodium web random file options expiresAt encryptedMeta)).passwordSalt =
      .ok (if options.hasPassword then some random.passwordSalt.val else none) := by
    unfold declaredBody createRequest
    cases options.hasPassword with
    | false => rfl
    | true => exact decodePresent_bytes (Nat.lt_of_lt_of_eq (by decide) random.passwordSalt.property.symm)
  have stamp : (dates.getTime (units expiresAt)).elim (.error .internalError : Except GatewayReply ℤ) .ok = .ok time := by
    rw [dated]
    rfl
  refine bind_ok.mpr ⟨_, fileHash, bind_ok.mpr ⟨_, nonceMeta, bind_ok.mpr ⟨_, sealedMeta, bind_ok.mpr ⟨_, salt,
    bind_ok.mpr ⟨_, revoke, bind_ok.mpr ⟨_, stamp, ?_⟩⟩⟩⟩⟩⟩
  -- numbers come back as they went out
  unfold declaredBody createRequest declared
  cases options.maxDownloads <;> cases options.hasPassword <;> simp [pure, Except.pure, hashBytes]

/-- What the gateway says of the row is what the browser said of the file. -/
theorem declared_descriptor {id shortId : String} {expires now : Timestamp} {row : ShareRow}
    (same : SameTerms ((declared sodium web random file options encryptedMeta config id shortId expires).row now) row) :
    row.response.descriptor = (createRequest sodium web random file options expiresAt encryptedMeta).descriptor := by
  obtain ⟨state, downloadCount, destroyedAt, destroyedReason, rfl⟩ := same
  unfold ShareResponse.descriptor CreateShareRequest.descriptor CreateShareRequest.facet createRequest
  cases protect : options.hasPassword <;> simp [ShareRow.response, ShareRow.passwordFacet, CreateRequest.row, declared, protect,
    encodeBase64Url, bytesToBase64Url]

/-- The sealed description may have 6128 bytes, most of which are the name of the file. -/
theorem encryptedMeta_fits (lawful : Lawful sodium) {description : Sealed}
    (prepared : prepareUpload sodium web random file options = .ok (description, encryptedMeta)) :
    Utf16.length (bytesToBase64Url encryptedMeta) ≤ 8192 ↔ (stringToBytes (metaJson sodium web file)).length ≤ 6128 := by
  obtain ⟨-, -, -, -, -, plaintext, value⟩ := prepareUpload_ok prepared
  have length := utf16_length_base64 encryptedMeta
  rw [length, value, sealedBytes, lawful.tagged, plaintext]
  omega

/-- From the browser to the table and back. The schema lets a request through exactly within
limits that the operator and the sender have set, and the file name has to be short enough;
the handler then decodes it to the values that the browser started from, which pass the
table's constraints; and whatever state the share gets into, a GET describes it as the
browser did. -/
theorem declared_stored (sodium : Sodium) (lawful : Lawful sodium) (digests : Digests sodium) (web : WebConfig)
    (random : Randomness) (file : File) (options : UploadOptions) (expiresAt : String) (description : Sealed)
    (encryptedMeta : Bytes) (prepared : prepareUpload sodium web random file options = .ok (description, encryptedMeta))
    (config : GatewayConfig) (int32 : config.maxChunkSizeBytes < 2 ^ 31) (bigint : config.maxFileSizeBytes < 2 ^ 63)
    (dates : Dates) (clock : Timestamp) (id shortId : String) :
    let request := createRequest sodium web random file options expiresAt encryptedMeta
    (∀ body, createShareSchema config dates clock request.toJson = .ok (.ok body) ↔
      body = declaredBody request ∧ Declarable config dates clock request) ∧
    (Utf16.length request.encryptedMeta ≤ 8192 ↔ (stringToBytes (metaJson sodium web file)).length ≤ 6128) ∧
    (Declarable config dates clock request → ∃ time, dates.getTime (units expiresAt) = some time ∧ dateNow clock < time ∧
      let decoded := declared sodium web random file options encryptedMeta config id shortId (time * 1000).toNat
      (declaredBody request).request config dates id shortId = .ok decoded ∧
      ∀ now < decoded.expiresAt, (decoded.row now).checks ∧ (decoded.row now).fits ∧
        ∀ row, SameTerms (decoded.row now) row → row.response.descriptor = request.descriptor) := by
  intro request
  obtain ⟨filled, -, -, -, -, -, value⟩ := prepareUpload_ok prepared
  have described : encryptedMeta ≠ [] := by
    refine List.length_pos_iff.mp ?_
    rw [value, sealedBytes, lawful.tagged]
    omega
  have accepted : ∀ body, createShareSchema config dates clock request.toJson = .ok (.ok body) ↔
      body = declaredBody request ∧ Declarable config dates clock request :=
    fun body => accepted_iff digests filled described int32
  refine ⟨accepted, encryptedMeta_fits lawful prepared, fun limits => ?_⟩
  obtain ⟨-, time, dated, future, -⟩ := limits.expiresAt
  have decoded : (declaredBody request).request config dates id shortId =
      .ok (declared sodium web random file options encryptedMeta config id shortId (time * 1000).toNat) :=
    declared_request digests described dated id shortId
  have checked := createShareSchema_ok ((accepted _).mpr ⟨rfl, limits⟩)
  obtain ⟨-, -, decodes⟩ := request_ok decoded
  exact ⟨time, dated, future, decoded, fun now early => ⟨row_checks checked decodes early,
    row_fits checked decodes bigint int32 now, fun row same => declared_descriptor same⟩⟩

/-- The primitives of the small upload, with digests of 32 bytes throughout, that open what
they have sealed. -/
def wholeSodium : Sodium :=
  { sampleSodium with
    aeadDecrypt := sampleOpenAll
    genericHash := fun message => (sampleSodium.genericHash message).take 32
    hashFinal := fun state => (sampleSodium.hashFinal state).take 32
    sha256 := fun message => (sampleSodium.sha256 message).take 32 }

theorem wholeSodium_lawful : Lawful wholeSodium where
  tagged := (sampleSodium_lawful sampleOpen).tagged
  incremental chunks := congrArg (List.take 32) ((sampleSodium_lawful sampleOpen).incremental chunks)
  keyed := (sampleSodium_lawful sampleOpen).keyed
  stretches := (sampleSodium_lawful sampleOpen).stretches

theorem wholeSodium_digests : Digests wholeSodium where
  sha256 message := by
    have wide : 32 ≤ (sampleSodium.sha256 message).length := le_length_patched (by decide +kernel) message
    exact List.length_take_of_le wide
  genericHash message := by
    have wide : 32 ≤ (sampleSodium.genericHash message).length := le_length_patched (by decide +kernel) message
    exact List.length_take_of_le wide

/-- The small file may be shared for a day. -/
theorem sampleFile_declarable {options : UploadOptions} {description : Sealed} {encryptedMeta : Bytes}
    (prepared : prepareUpload wholeSodium sampleConfig sampleRandom sampleFile options = .ok (description, encryptedMeta))
    (unprotected : options.hasPassword = false)
    (caps : ∀ cap, options.maxDownloads = some cap → 0 < cap ∧ cap ≤ 10000) :
    Declarable {} sampleDates 5 (createRequest wholeSodium sampleConfig sampleRandom sampleFile options
      "1970-01-02T00:00:00.000Z" encryptedMeta) := by
  have count : chunkCount sampleConfig sampleFile = 2 := by decide +kernel
  have dated : sampleDates.datetime (units "1970-01-02T00:00:00.000Z") = true ∧
      sampleDates.getTime (units "1970-01-02T00:00:00.000Z") = some 86400000 := by decide +kernel
  have short : Utf16.length (bytesToBase64Url encryptedMeta) ≤ 8192 :=
    (encryptedMeta_fits wholeSodium_lawful prepared).mpr (by decide +kernel)
  refine ⟨(by decide : 3 ≤ 1073741824), count.trans_le (by decide), (by decide : 2 + 16 ≤ 10485760),
    (congrArg (· * 2) count).trans_le (by decide), short, ⟨dated.1, 86400000, dated.2, by decide, by decide⟩, caps, ?_, ?_⟩
  all_goals
    unfold createRequest
    rw [unprotected]
    exact nofun

/-- The small file, for a day. -/
theorem declared_stored_sample : ∃ encryptedMeta body decoded,
    createShareSchema {} sampleDates 5 (createRequest wholeSodium sampleConfig sampleRandom sampleFile {}
      "1970-01-02T00:00:00.000Z" encryptedMeta).toJson = .ok (.ok body) ∧
    body.request {} sampleDates "8c1f0d6e" "abcdefghjkmn" = .ok decoded ∧ (decoded.row 5).checks ∧
    (decoded.row 5).response.descriptor = (createRequest wholeSodium sampleConfig sampleRandom sampleFile {}
      "1970-01-02T00:00:00.000Z" encryptedMeta).descriptor := by
  obtain ⟨description, encryptedMeta, prepared⟩ : ∃ description encryptedMeta,
      prepareUpload wholeSodium sampleConfig sampleRandom sampleFile {} = .ok (description, encryptedMeta) :=
    prepareUpload_returns wholeSodium_lawful (by decide) (by decide) ⟨rfl, rfl⟩ nofun
  obtain ⟨accepts, -, decodes⟩ := declared_stored wholeSodium wholeSodium_lawful wholeSodium_digests sampleConfig
    sampleRandom sampleFile {} "1970-01-02T00:00:00.000Z" description encryptedMeta prepared {} (by decide) (by decide)
    sampleDates 5 "8c1f0d6e" "abcdefghjkmn"
  have limits : Declarable {} sampleDates 5 (createRequest wholeSodium sampleConfig sampleRandom sampleFile {}
      "1970-01-02T00:00:00.000Z" encryptedMeta) := sampleFile_declarable prepared rfl nofun
  obtain ⟨time, -, future, decoded, stores⟩ := decodes limits
  have start : dateNow 5 = 0 := rfl
  have early : 5 < (time * 1000).toNat := by omega
  obtain ⟨checks, -, described⟩ := stores 5 early
  exact ⟨encryptedMeta, _, _, (accepts _).mpr ⟨rfl, limits⟩, decoded, checks, described _ (.refl _)⟩

end Browser
end SlothBox.Proofs

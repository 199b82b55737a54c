import SlothBox.Schema
import SlothBox.Proofs.Crypto
import SlothBox.Proofs.Steps

/-! What the schema has accepted: each field as a number or as the bytes it encodes,
and the rules across fields. -/

namespace SlothBox.Proofs
open Library

/-! ### Numbers -/

/-- A whole number between two bounds. -/
def Within (value : Double) (least most : ℤ) : Prop :=
  ∃ n : ℕ, value = .finite n ∧ least ≤ n ∧ n ≤ most

theorem Within.eq_toNat {value : Double} {low most : ℤ} (within : Within value low most) :
    value = .finite value.toNat ∧ low ≤ value.toNat ∧ value.toNat ≤ most := by
  obtain ⟨n, rfl, bounds⟩ := within
  rw [Double.toNat_nat]
  exact ⟨rfl, bounds⟩

/-- The least whole number that a lower bound admits. -/
def least : LowerBound → ℤ
  | .above bound => bound + 1
  | .atLeast bound => bound

theorem admits_nat {low : LowerBound} {n : ℕ} : low.admits (.finite n) ↔ least low ≤ n := by
  cases low with
  | above bound =>
    simp only [LowerBound.admits, Double.lt, decide_eq_true_eq, least]
    exact ⟨fun below => by have : bound < n := by exact_mod_cast below
                           omega,
      fun below => by exact_mod_cast (show bound < n by omega)⟩
  | atLeast bound =>
    simp only [LowerBound.admits, Double.lt, Bool.not_eq_true', decide_eq_false_iff_not, not_lt, least]
    exact ⟨fun below => by exact_mod_cast below, fun below => by exact_mod_cast below⟩

theorem positive_of_admits {low : LowerBound} {value : Double} (natural : 0 < least low)
    (whole : value.isInteger) (admitted : low.admits value) : (Double.finite 0).lt value := by
  cases value with
  | infinite negative => cases whole
  | finite q =>
    cases low with
    | above bound =>
      have below : (bound : ℚ) < q := of_decide_eq_true admitted
      have start : (0 : ℚ) ≤ bound := by exact_mod_cast Int.lt_add_one_iff.mp natural
      exact decide_eq_true (lt_of_le_of_lt start below)
    | atLeast bound =>
      have below : (bound : ℚ) ≤ q := by simpa [LowerBound.admits, Double.lt] using admitted
      have start : (0 : ℚ) < bound := by exact_mod_cast natural
      exact decide_eq_true (lt_of_lt_of_le start below)

theorem integerField_accepts {name : String} {low : LowerBound} {maximum : ℤ} {message : Option String}
    {input : Option (Json Double)} {value : Double} (natural : 0 < least low) :
    (integerField name low maximum message input).Accepts value ↔
      input = some (.number value) ∧ Within value (least low) maximum := by
  unfold integerField
  split
  next number =>
    simp only [Parsed.accepts_check, Parsed.accepts_pass, Option.some.injEq, Json.number.injEq]
    constructor
    · rintro ⟨⟨⟨rfl, whole⟩, admitted⟩, top⟩
      obtain ⟨n, -, rfl⟩ := Double.eq_nat whole (positive_of_admits natural whole admitted)
      refine ⟨rfl, n, rfl, admits_nat.mp admitted, ?_⟩
      have above : (n : ℚ) ≤ maximum := by simpa [Double.lt] using top
      exact_mod_cast above
    · rintro ⟨rfl, n, rfl, low, top⟩
      refine ⟨⟨⟨rfl, Double.isInteger_nat n⟩, admits_nat.mpr low⟩, ?_⟩
      have above : (n : ℚ) ≤ maximum := by exact_mod_cast top
      simpa [Double.lt] using above
  next other =>
    simp only [Parsed.accepts_abort, false_iff, not_and]
    rintro rfl
    exact absurd rfl (other value)

/-! ### Strings -/

/-- A text that the gateway decodes to so many bytes. -/
def Encodes (bytes : ℕ) (units : List ℕ) : Prop :=
  ∃ decoded, decodeBase64Url units = .ok decoded ∧ decoded.length = bytes

theorem Encodes.ne_nil {bytes : ℕ} {units : List ℕ} (encodes : Encodes bytes units) : units ≠ [] := by
  rintro rfl
  obtain ⟨_, decoded, -⟩ := encodes
  cases decoded

theorem stringField_accepts {name : String} {longest : ℕ} {input : Option (Json Double)} {units : List ℕ} :
    (stringField name longest input).Accepts units ↔
      input = some (.string units) ∧ 1 ≤ units.length ∧ units.length ≤ longest := by
  unfold stringField
  split
  next text =>
    simp only [Parsed.accepts_check, Parsed.accepts_pass, Option.some.injEq, Json.string.injEq, decide_eq_true_eq,
      and_assoc]
  next other =>
    simp only [Parsed.accepts_abort, false_iff, not_and]
    rintro rfl
    exact absurd rfl (other units)

theorem encodedField_accepts {name : String} {bytes : ℕ} {input : Option (Json Double)} {units : List ℕ} :
    (encodedField name bytes input).Accepts units ↔
      input = some (.string units) ∧ units.length ≤ 64 ∧ Encodes bytes units := by
  rw [encodedField, Parsed.accepts_refine, stringField_accepts]
  have decodes : (decodeBase64Url units).map (·.length == bytes) = .ok true ↔ Encodes bytes units := by
    rw [map_ok]
    simp only [beq_iff_eq]
    exact Iff.rfl
  rw [decodes]
  constructor
  · rintro ⟨⟨same, -, short⟩, encodes⟩
    exact ⟨same, short, encodes⟩
  · rintro ⟨same, short, encodes⟩
    exact ⟨⟨same, List.length_pos_iff.mpr encodes.ne_nil, short⟩, encodes⟩

/-- A field that may be missing is accepted without a value or like the field itself. -/
theorem optionalField_accepts {α : Type} {inner : Option (Json Double) → Field α} {input : Option (Json Double)}
    {value : Option α} :
    (optionalField inner input).Accepts value ↔
      (input = none ∧ value = none) ∨ ∃ a, input ≠ none ∧ value = some a ∧ (inner input).Accepts a := by
  unfold optionalField
  split
  next => simp [eq_comm]
  next present =>
    simp only [Parsed.accepts_map]
    constructor
    · rintro ⟨a, accepted, rfl⟩
      exact .inr ⟨a, present, rfl, accepted⟩
    · rintro (⟨absent, -⟩ | ⟨a, -, rfl, accepted⟩)
      · exact absurd absent present
      · exact ⟨a, accepted, rfl⟩

theorem nullableField_accepts {α : Type} {inner : Option (Json Double) → Field α} {input : Option (Json Double)}
    {value : Option α} :
    (nullableField inner input).Accepts value ↔
      (input = some .null ∧ value = none) ∨ ∃ a, input ≠ some .null ∧ value = some a ∧ (inner input).Accepts a := by
  unfold nullableField
  split
  next => simp [eq_comm]
  next present =>
    simp only [Parsed.accepts_map]
    constructor
    · rintro ⟨a, accepted, rfl⟩
      exact .inr ⟨a, present, rfl, accepted⟩
    · rintro (⟨absent, -⟩ | ⟨a, -, rfl, accepted⟩)
      · exact absurd absent present
      · exact ⟨a, accepted, rfl⟩

/-- A value of such a field has passed the field itself. -/
theorem optionalField_some {α : Type} {inner : Option (Json Double) → Field α} {input : Option (Json Double)} {a : α}
    (accepted : (optionalField inner input).Accepts (some a)) : (inner input).Accepts a := by
  rcases optionalField_accepts.mp accepted with ⟨-, absent⟩ | ⟨_, -, same, passed⟩
  · cases absent
  · cases same
    exact passed

theorem nullableField_some {α : Type} {inner : Option (Json Double) → Field α} {input : Option (Json Double)} {a : α}
    (accepted : (nullableField inner input).Accepts (some a)) : (inner input).Accepts a := by
  rcases nullableField_accepts.mp accepted with ⟨-, absent⟩ | ⟨_, -, same, passed⟩
  · cases absent
  · cases same
    exact passed

theorem expiresAtField_accepts {config : GatewayConfig} {dates : Dates} {clock : Timestamp}
    {input : Option (Json Double)} {iso : List ℕ} :
    (expiresAtField config dates clock input).Accepts iso ↔
      input = some (.string iso) ∧ dates.datetime iso ∧
        ∃ time, dates.getTime iso = some time ∧ dateNow clock < time ∧
          time - dateNow clock ≤ (config.maxShareTtlDays : ℤ) * 24 * 60 * 60 * 1000 := by
  unfold expiresAtField
  split
  next text =>
    simp only [Parsed.accepts_refineAgain, Parsed.accepts_refine, Parsed.accepts_check, Parsed.accepts_pass,
      Option.some.injEq, Json.string.injEq, Except.ok.injEq, Option.any_eq_true_iff_get, decide_eq_true_eq]
    constructor
    · rintro ⟨⟨⟨rfl, valid⟩, dated, future⟩, _, soon⟩
      exact ⟨rfl, valid, _, (Option.some_get dated).symm, future, soon⟩
    · rintro ⟨rfl, valid, time, dated, future, soon⟩
      simp [valid, dated, future, soon]
  next other =>
    simp only [Parsed.accepts_abort, false_iff, not_and]
    rintro rfl
    exact absurd rfl (other iso)

/-! ### The body -/

/-- Everything the schema promises about a body that it lets through. -/
structure Checked (config : GatewayConfig) (dates : Dates) (clock : Timestamp) (body : CreateShareBody) : Prop where
  fileSize : Within body.fileSize 1 config.maxFileSizeBytes
  fileHash : Encodes fileHashBytes body.fileHash
  encryptedMeta : body.encryptedMeta ≠ []
  nonceMeta : Encodes nonceMetaBytes body.nonceMeta
  chunkCount : Within body.chunkCount 1 100000
  chunkSize : Within body.chunkSize 1 (config.maxChunkSizeBytes - gatewayAeadTagBytes)
  expiresAt : ∃ time, dates.getTime body.expiresAt = some time ∧ dateNow clock < time
  maxDownloads : ∀ value, body.maxDownloads = some value → Within value 1 10000
  passwordSalt : ∀ units, body.passwordSalt = some units → Encodes passwordSaltBytes units
  passwordKdfOpsLimit : ∀ value, body.passwordKdfOpsLimit = some value → Within value 1 10
  passwordKdfMemLimitKib : ∀ value, body.passwordKdfMemLimitKib = some value → Within value 8192 1048576
  revokeTokenHash : ∀ units, body.revokeTokenHash = some units → Encodes revokeTokenHashBytes units
  storage : body.storageIssues config = []
  password : body.passwordIssues = []

section Body
variable {config : GatewayConfig} {dates : Dates} {clock : Timestamp} {body : CreateShareBody}

theorem createShareSchema_ok {data : Json Double}
    (accepted : createShareSchema config dates clock data = .ok (.ok body)) : Checked config dates clock body := by
  unfold createShareSchema at accepted
  split at accepted
  next =>
    obtain ⟨fields, whole⟩ := Parsed.outcome_ok.mp accepted
    simp only [createShareFields, Parsed.accepts_field, Parsed.accepts_pass] at fields
    -- the fields from the last to the first
    obtain ⟨_, revokeTokenHash, fields, revokeOk, rfl⟩ := fields
    obtain ⟨_, memLimit, fields, memOk, rfl⟩ := fields
    obtain ⟨_, opsLimit, fields, opsOk, rfl⟩ := fields
    obtain ⟨_, salt, fields, saltOk, rfl⟩ := fields
    obtain ⟨_, passwordProtected, fields, -, rfl⟩ := fields
    obtain ⟨_, maxDownloads, fields, maxOk, rfl⟩ := fields
    obtain ⟨_, burnAfterRead, fields, -, rfl⟩ := fields
    obtain ⟨_, expiresAt, fields, expiresOk, rfl⟩ := fields
    obtain ⟨_, chunkSize, fields, sizeOk, rfl⟩ := fields
    obtain ⟨_, chunkCount, fields, countOk, rfl⟩ := fields
    obtain ⟨_, nonceMeta, fields, nonceOk, rfl⟩ := fields
    obtain ⟨_, encryptedMeta, fields, metaOk, rfl⟩ := fields
    obtain ⟨_, fileHash, fields, hashOk, rfl⟩ := fields
    obtain ⟨_, fileSize, fields, fileOk, rfl⟩ := fields
    subst fields
    obtain ⟨storage, password⟩ := List.append_eq_nil_iff.mp whole
    refine ⟨?_, ?_, ?_, ?_, ?_, ?_, ?_, ?_, ?_, ?_, ?_, ?_, storage, password⟩
    · exact ((integerField_accepts (by decide)).mp fileOk).2
    · exact (encodedField_accepts.mp hashOk).2.2
    · exact List.length_pos_iff.mp (stringField_accepts.mp metaOk).2.1
    · exact (encodedField_accepts.mp nonceOk).2.2
    · exact ((integerField_accepts (by decide)).mp countOk).2
    · exact ((integerField_accepts (by decide)).mp sizeOk).2
    · obtain ⟨-, -, time, dated, future, -⟩ := expiresAtField_accepts.mp expiresOk
      exact ⟨time, dated, future⟩
    · rintro value rfl
      exact ((integerField_accepts (by decide)).mp (nullableField_some maxOk)).2
    · rintro units rfl
      exact (encodedField_accepts.mp (optionalField_some saltOk)).2.2
    · rintro value rfl
      exact ((integerField_accepts (by decide)).mp (optionalField_some opsOk)).2
    · rintro value rfl
      exact ((integerField_accepts (by decide)).mp (optionalField_some memOk)).2
    · rintro units rfl
      exact (encodedField_accepts.mp (optionalField_some revokeOk)).2.2
  next => cases accepted

/-- The storage rules in whole numbers, where their product is exact. -/
theorem storageIssues_nil {fileSize chunkCount chunkSize : ℕ} (file : body.fileSize = .finite fileSize)
    (count : body.chunkCount = .finite chunkCount) (size : body.chunkSize = .finite chunkSize)
    (exact : chunkCount * chunkSize < 2 ^ 53) :
    body.storageIssues config = [] ↔
      chunkCount * chunkSize ≤ config.maxFileSizeBytes ∧ fileSize ≤ chunkCount * chunkSize := by
  simp only [CreateShareBody.storageIssues, file, count, size, mul?_nat exact, Option.any_some, Double.lt_nat,
    List.append_eq_nil_iff, ite_eq_right_iff, decide_eq_true_eq, reduceCtorEq, imp_false, not_lt]

/-- All three fields are there exactly when the share is protected. -/
theorem passwordIssues_nil (clean : body.passwordIssues = []) :
    (body.passwordProtected = true ∧ ∃ salt opsLimit memLimit, body.passwordSalt = some salt ∧
        body.passwordKdfOpsLimit = some opsLimit ∧ body.passwordKdfMemLimitKib = some memLimit) ∨
      (body.passwordProtected = false ∧ body.passwordSalt = none ∧ body.passwordKdfOpsLimit = none ∧
        body.passwordKdfMemLimitKib = none) := by
  obtain ⟨present, absent⟩ := List.append_eq_nil_iff.mp clean
  simp only [ite_eq_right_iff, reduceCtorEq, imp_false, Bool.not_eq_true] at present absent
  cases protect : body.passwordProtected with
  | true =>
    rw [protect, Bool.true_and, Bool.not_eq_false'] at present
    simp only [Bool.and_eq_true, Option.isSome_iff_exists] at present
    obtain ⟨⟨⟨salt, hasSalt⟩, opsLimit, hasOps⟩, memLimit, hasMem⟩ := present
    exact .inl ⟨rfl, salt, opsLimit, memLimit, hasSalt, hasOps, hasMem⟩
  | false =>
    rw [protect, Bool.not_false, Bool.true_and, Bool.not_eq_false'] at absent
    simp only [Bool.and_eq_true, Option.isNone_iff_eq_none] at absent
    obtain ⟨⟨noSalt, noOps⟩, noMem⟩ := absent
    exact .inr ⟨rfl, noSalt, noOps, noMem⟩

/-! ### The row -/

/-- What the handler makes of a body: its bytes and its numbers. -/
structure Decodes (dates : Dates) (body : CreateShareBody) (request : CreateRequest) : Prop where
  fileHash : decodeBase64Url body.fileHash = .ok request.fileHash
  nonceMeta : decodeBase64Url body.nonceMeta = .ok request.nonceMeta
  encryptedMeta : decodeBase64Url body.encryptedMeta = .ok request.encryptedMeta
  passwordSalt : decodePresent body.passwordSalt = .ok request.passwordSalt
  revokeTokenHash : decodePresent body.revokeTokenHash = .ok request.revokeTokenHash
  expiresAt : ∃ time, dates.getTime body.expiresAt = some time ∧ request.expiresAt = (time * 1000).toNat
  numbers : request.fileSize = body.fileSize.toNat ∧ request.chunkCount = body.chunkCount.toNat ∧
    request.chunkSize = body.chunkSize.toNat ∧ request.maxDownloads = body.maxDownloads.map Double.toNat
  flags : request.burnAfterRead = body.burnAfterRead ∧ request.passwordProtected = body.passwordProtected
  costs : request.passwordKdfOpsLimit = body.passwordKdfOpsLimit.map Double.toNat ∧
    request.passwordKdfMemLimitKib = body.passwordKdfMemLimitKib.map Double.toNat

theorem request_ok {id shortId : String} {request : CreateRequest}
    (decoded : body.request config dates id shortId = .ok request) :
    request.id = id ∧ request.shortId = shortId ∧ Decodes dates body request := by
  simp only [CreateShareBody.request, bind_ok] at decoded
  obtain ⟨fileHash, hash, nonceMeta, nonce, encryptedMeta, sealedMeta, passwordSalt, salt, revokeTokenHash, revoke,
    time, dated, same⟩ := decoded
  obtain rfl := Except.ok.inj same
  refine ⟨rfl, rfl, hash, nonce, sealedMeta, salt, revoke, ⟨time, ?_, rfl⟩, ⟨rfl, rfl, rfl, rfl⟩, ⟨rfl, rfl⟩, rfl, rfl⟩
  cases stamp : dates.getTime body.expiresAt with
  | none =>
    rw [stamp] at dated
    cases dated
  | some other =>
    rw [stamp] at dated
    cases dated
    rfl

end Body

/-! ### A small body

A share of one day without a password, for any three sizes. -/

def units (text : String) : List ℕ := Utf16.encode text.toList

/-- Knows the one date of the sample. -/
def sampleDates : Dates where
  datetime iso := iso = units "1970-01-02T00:00:00.000Z"
  getTime iso := if iso = units "1970-01-02T00:00:00.000Z" then some 86400000 else none

def sampleJson (fileSize chunkCount chunkSize : ℕ) : Json Double := .object
  [(units "fileSize", .number (.finite fileSize)),
    (units "fileHash", .string (List.replicate 43 65)),
    (units "encryptedMeta", .string (units "AQ")),
    (units "nonceMeta", .string (List.replicate 32 65)),
    (units "chunkCount", .number (.finite chunkCount)),
    (units "chunkSize", .number (.finite chunkSize)),
    (units "expiresAt", .string (units "1970-01-02T00:00:00.000Z")),
    (units "burnAfterRead", .bool false),
    (units "maxDownloads", .null)]

def sampleBody (fileSize chunkCount chunkSize : ℕ) : CreateShareBody :=
  ⟨.finite fileSize, List.replicate 43 65, units "AQ", List.replicate 32 65, .finite chunkCount, .finite chunkSize,
    units "1970-01-02T00:00:00.000Z", false, none, false, none, none, none, none⟩

def sampleDeclared (fileSize chunkCount chunkSize : ℕ) : CreateRequest :=
  { sampleCreate with
    expiresAt := 86400000000
    burnAfterRead := false
    fileHash := List.replicate 32 0
    fileSize, chunkCount, chunkSize
    revokeTokenHash := none
    ingestPublicUrl := "http://localhost:3023" }

theorem sampleBody_request (fileSize chunkCount chunkSize : ℕ) :
    (sampleBody fileSize chunkCount chunkSize).request {} sampleDates "8c1f0d6e" "abcdefghjkmn" =
      .ok (sampleDeclared fileSize chunkCount chunkSize) := by
  have hash : decodeBase64Url (List.replicate 43 65) = .ok (List.replicate 32 0) := by decide +kernel
  have nonce : decodeBase64Url (List.replicate 32 65) = .ok (List.replicate 24 0) := by decide +kernel
  have sealedMeta : decodeBase64Url (units "AQ") = .ok [1] := by decide +kernel
  simp only [CreateShareBody.request, sampleBody, hash, nonce, sealedMeta, Double.toNat_nat]
  rfl

end SlothBox.Proofs

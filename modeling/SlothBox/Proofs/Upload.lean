import SlothBox.Proofs.Crypto

/-! What an upload has done: how the file is cut, what has been encrypted under which
additional data, and what the servers hold once it has returned. An upload that nothing
outside the browser stops does return. -/

namespace SlothBox.Proofs
open Library

/-! ### Cutting the file -/

section Cutting
variable {config : WebConfig} {file : File}

private theorem chunkCount_ceil (filled : 0 < file.size) :
    (chunkCount config file : ℤ) = ⌈(file.size / config.chunkSizeBytes : ℚ)⌉ := by
  have unit : (0 : ℚ) < config.chunkSizeBytes := by exact_mod_cast config.positive
  have positive : (0 : ℚ) < file.size := by exact_mod_cast filled
  have pieces : 0 < ⌈(file.size / config.chunkSizeBytes : ℚ)⌉ := Int.ceil_pos.mpr (div_pos positive unit)
  rw [chunkCount, ceil_roundDouble_div filled file.safe config.positive config.safe]
  omega

/-- The last chunk is the first one that reaches the end of the file. -/
theorem chunkCount_bounds (filled : 0 < file.size) :
    0 < chunkCount config file ∧ chunkCount config file ≤ file.size ∧
      file.size ≤ chunkCount config file * config.chunkSizeBytes := by
  have unit : (0 : ℚ) < config.chunkSizeBytes := by exact_mod_cast config.positive
  have positive : (0 : ℚ) < file.size := by exact_mod_cast filled
  have count : (chunkCount config file : ℤ) = _ := chunkCount_ceil filled
  have pieces : 0 < ⌈(file.size / config.chunkSizeBytes : ℚ)⌉ := Int.ceil_pos.mpr (div_pos positive unit)
  refine ⟨by omega, ?_, ?_⟩
  · have least : (1 : ℚ) ≤ config.chunkSizeBytes := by exact_mod_cast config.positive
    have small : ⌈(file.size / config.chunkSizeBytes : ℚ)⌉ ≤ (file.size : ℤ) := by
      refine Int.ceil_le.mpr ?_
      rw [div_le_iff₀ unit]
      push_cast
      nlinarith
    omega
  · have reach := Int.le_ceil (file.size / config.chunkSizeBytes : ℚ)
    rw [div_le_iff₀ unit, ← count] at reach
    exact_mod_cast reach

/-- One chunk less would not reach it. -/
theorem chunkCount_least (filled : 0 < file.size) {pieces : ℕ} (reach : file.size ≤ pieces * config.chunkSizeBytes) :
    chunkCount config file ≤ pieces := by
  have unit : (0 : ℚ) < config.chunkSizeBytes := by exact_mod_cast config.positive
  have count : (chunkCount config file : ℤ) = _ := chunkCount_ceil filled
  have enough : ⌈(file.size / config.chunkSizeBytes : ℚ)⌉ ≤ (pieces : ℤ) := by
    rw [Int.ceil_le, div_le_iff₀ unit]
    exact_mod_cast reach
  omega

theorem chunks_take (count : Nat) :
    ((List.range count).map (chunkPlaintext config file)).flatten = file.content.take (count * config.chunkSizeBytes) := by
  induction count with
  | zero => simp
  | succ count ih =>
    have slice : chunkPlaintext config file count =
        (file.content.drop (count * config.chunkSizeBytes)).take config.chunkSizeBytes := by
      rw [chunkPlaintext, List.take_eq_take_iff, List.length_drop, File.size]
      omega
    rw [List.range_succ, List.map_append, List.flatten_append, ih, List.map_singleton, List.flatten_singleton, slice,
      Nat.succ_mul, List.take_add]

theorem chunks_content (filled : 0 < file.size) :
    ((List.range (chunkCount config file)).map (chunkPlaintext config file)).flatten = file.content := by
  rw [chunks_take]
  exact List.take_of_length_le (chunkCount_bounds filled).2.2

end Cutting

/-! ### What has been sealed -/

section Sealed
variable {sodium : Sodium} {config : WebConfig} {random : Randomness} {file : File} {options : UploadOptions}
  {server : UploadServer} {expiresAt : String}

theorem stringProperty_eq {json : Json Double} {name value : String}
    (found : json.get? name = some (.string (Utf16.encode value.toList))) : stringProperty json name = some value := by
  rw [stringProperty, found]
  dsimp only
  rw [Utf16.decode_encode, String.ofList_toList]

/-- The description survives its own text. -/
theorem parseShareMeta_metaJson (filled : 0 < file.size) :
    parseShareMeta (stringToBytes (metaJson sodium config file)) =
      .ok ⟨file.name, file.mimeType, some (bytesToBase64Url (hashBytes sodium file.content)),
        some (.finite (chunkCount config file))⟩ := by
  have small : chunkCount config file < 2 ^ 53 := Nat.lt_of_le_of_lt (chunkCount_bounds filled).2.1 file.safe
  have text : bytesToString (stringToBytes (metaJson sodium config file)) = metaJson sodium config file := by
    rw [bytesToString, stringToBytes, metaJson, String.toList_ofList, Json.stringify, List.cons_append,
      Utf8.decodeText_encode _ rfl (by decide)]
  rw [parseShareMeta, text, metaJson, String.toList_ofList, Json.parse_stringify]
  simp only [List.map_cons, List.map_nil, Json.Field.read, ofDecimal_nat small]
  rw [stringProperty_eq rfl, stringProperty_eq rfl, stringProperty_eq rfl]
  rfl

/-- The ciphertext of a call. -/
def sealedBytes (sodium : Sodium) (call : Sealed) : Bytes :=
  sodium.aeadEncrypt call.plaintext call.aad call.nonce call.key

theorem prepareUpload_ok {description : Sealed} {encryptedMeta : Bytes}
    (prepared : prepareUpload sodium config random file options = .ok (description, encryptedMeta)) :
    0 < file.size ∧ (∃ passwordKey, uploadPasswordKey sodium random options = .ok passwordKey ∧
        deriveAeadKey sodium random.fragmentKey passwordKey = .ok description.key) ∧ description.key.length = 32 ∧
      description.nonce = random.nonceMeta ∧ buildChunkAad "meta" 0 = .ok description.aad ∧
      description.plaintext = stringToBytes (metaJson sodium config file) ∧
      encryptedMeta = sealedBytes sodium description := by
  simp only [prepareUpload, bind_ok, throwIf_ok, exists_const] at prepared
  obtain ⟨nonempty, -, passwordKey, password, key, derived, length, aad, built, ciphertext, sealedMeta, same⟩ := prepared
  obtain ⟨width, -, value⟩ := encryptChunk_ok.mp sealedMeta
  obtain ⟨sameCall, sameBytes⟩ := Prod.mk.inj (Except.ok.inj same)
  have plaintext : description.plaintext = stringToBytes (metaJson sodium config file) := by
    rw [← sameCall]
  have bytes : encryptedMeta = sealedBytes sodium description := by
    rw [← sameBytes, value, sealedBytes, plaintext, ← sameCall]
  rw [← sameCall] at plaintext bytes ⊢
  exact ⟨Nat.pos_of_ne_zero nonempty, ⟨passwordKey, password, derived⟩, width, rfl, built, plaintext, bytes⟩

/-- A call that seals a chunk of the file under the name of the share. -/
def SealsChunk (config : WebConfig) (file : File) (shortId : String) (index : Nat) (call : Sealed) : Prop :=
  buildChunkAad shortId index = .ok call.aad ∧ call.plaintext = chunkPlaintext config file index

theorem sealChunk_ok {aeadKey ciphertext : Bytes} {shortId : String} {index : Nat} {call : Sealed}
    (done : sealChunk sodium config random file aeadKey shortId index = .ok (call, ciphertext)) :
    SealsChunk config file shortId index call ∧ call.key = aeadKey ∧ call.nonce = random.nonce index ∧
      aeadKey.length = 32 ∧ ciphertext = sealedBytes sodium call := by
  simp only [sealChunk, bind_ok] at done
  obtain ⟨aad, built, sent, encrypted, same⟩ := done
  obtain ⟨length, -, value⟩ := encryptChunk_ok.mp encrypted
  obtain ⟨rfl, rfl⟩ := Prod.mk.inj (Except.ok.inj same)
  exact ⟨⟨built, rfl⟩, rfl, rfl, length, value⟩

/-- However the loop ends, it has sealed only chunks from its list. -/
theorem uploadChunks_encrypted {aeadKey : Bytes} {response : CreateShareResponse} {indices : List Nat} {call : Sealed}
    (inside : call ∈ (uploadChunks sodium config random file options server aeadKey response indices).encrypted) :
    ∃ index ∈ indices, SealsChunk config file response.shortId index call := by
  induction indices with
  | nil => cases inside
  | cons index rest ih =>
    rw [uploadChunks] at inside
    split at inside
    next => cases inside
    next =>
      split at inside
      next => cases inside
      next first ciphertext done =>
        have own : call = first → ∃ found ∈ index :: rest, SealsChunk config file response.shortId found call := by
          intro same
          exact ⟨index, List.mem_cons_self, same ▸ (sealChunk_ok done).1⟩
        split at inside
        next => exact own (List.mem_singleton.mp inside)
        next =>
          split at inside
          next => exact own (List.mem_singleton.mp inside)
          next =>
            rcases List.mem_cons.mp inside with same | later
            · exact own same
            · obtain ⟨found, member, seals⟩ := ih later
              exact ⟨found, List.mem_cons_of_mem _ member, seals⟩

/-- Everything an upload seals is the description, or a chunk of the file under the
name the gateway has given it. -/
theorem uploadFile_encrypted {call : Sealed}
    (inside : call ∈ (uploadFile sodium config random file options server expiresAt).encrypted) :
    0 < file.size ∧
      ((buildChunkAad "meta" 0 = .ok call.aad ∧ call.plaintext = stringToBytes (metaJson sodium config file)) ∨
        ∃ request response index, server.createShare request = .ok response ∧ index < 2 ^ 32 ∧
          SealsChunk config file response.shortId index call) := by
  rw [uploadFile] at inside
  split at inside
  next => cases inside
  next description encryptedMeta prepared =>
    obtain ⟨filled, -, -, -, aad, plaintext, -⟩ := prepareUpload_ok prepared
    refine ⟨filled, ?_⟩
    dsimp only at inside
    split at inside
    next =>
      cases List.mem_singleton.mp inside
      exact .inl ⟨aad, plaintext⟩
    next response created =>
      split at inside
      next =>
        cases List.mem_singleton.mp inside
        exact .inl ⟨aad, plaintext⟩
      next counted =>
        rcases List.mem_cons.mp inside with rfl | chunk
        · exact .inl ⟨aad, plaintext⟩
        · obtain ⟨index, listed, seals⟩ := uploadChunks_encrypted chunk
          have bound : index < response.uploadUrls.length := by
            rw [not_not.mp counted]
            exact List.mem_range.mp listed
          exact .inr ⟨_, response, index, created, Nat.lt_trans bound response.bounded, seals⟩

/-- The request that creates the share is sent for a file that passed the browser's checks. -/
theorem uploadFile_created {request : CreateShareRequest}
    (created : (uploadFile sodium config random file options server expiresAt).created = some request) :
    0 < file.size ∧ file.size ≤ config.maxFileSizeBytes ∧
      ∃ encryptedMeta, request = createRequest sodium config random file options expiresAt encryptedMeta := by
  rw [uploadFile] at created
  split at created
  next => cases created
  next description encryptedMeta prepared =>
    have filled := (prepareUpload_ok prepared).1
    have fits : file.size ≤ config.maxFileSizeBytes := by
      simp only [prepareUpload, bind_ok, throwIf_ok, exists_const] at prepared
      exact Nat.not_lt.mp prepared.2.1
    refine ⟨filled, fits, encryptedMeta, ?_⟩
    dsimp only at created
    split at created
    next => exact (Option.some.inj created).symm
    next => split at created <;> exact (Option.some.inj created).symm

/-! ### What has been stored -/

/-- The PUT of one chunk and the call that it carries. -/
structure StoresChunk (sodium : Sodium) (config : WebConfig) (random : Randomness) (file : File) (aeadKey : Bytes)
    (shortId : String) (index : Nat) (put : PutChunkRequest) (call : Sealed) : Prop where
  seals : SealsChunk config file shortId index call
  key : call.key = aeadKey
  nonce : call.nonce = random.nonce index
  ciphertext : put.ciphertext = sealedBytes sodium call
  header : put.nonce = bytesToBase64Url (random.nonce index)

theorem uploadChunks_ok {aeadKey : Bytes} {response : CreateShareResponse} {indices : List Nat}
    (returned : (uploadChunks sodium config random file options server aeadKey response indices).result = .ok ()) :
    List.Forall₂
      (fun index put => ∃ call ∈ (uploadChunks sodium config random file options server aeadKey response indices).encrypted,
        StoresChunk sodium config random file aeadKey response.shortId index put call)
      indices (uploadChunks sodium config random file options server aeadKey response indices).puts := by
  induction indices with
  | nil => exact .nil
  | cons index rest ih =>
    rw [uploadChunks] at returned ⊢
    split at returned
    next => cases returned
    next running =>
      rw [if_neg running]
      split at returned
      next => cases returned
      next call ciphertext done =>
        split at returned
        next => cases returned
        next put requested =>
          split at returned
          next => cases returned
          next stored =>
            obtain ⟨seals, key, nonce, -, value⟩ := sealChunk_ok done
            simp only [putRequest, bind_ok, throwIf_ok, exists_const] at requested
            obtain ⟨token, -, -, same⟩ := requested
            cases Except.ok.inj same
            refine .cons ⟨call, List.mem_cons_self, seals, key, nonce, value, rfl⟩ ((ih returned).imp ?_)
            intro other put stored
            obtain ⟨later, inside, stores⟩ := stored
            exact ⟨later, List.mem_cons_of_mem _ inside, stores⟩

/-- What the servers hold when an upload has returned. -/
theorem uploadFile_ok {result : UploadResult}
    (returned : (uploadFile sodium config random file options server expiresAt).result = .ok result) :
    ∃ description encryptedMeta,
      prepareUpload sodium config random file options = .ok (description, encryptedMeta) ∧
      result.shareUrl = shareUrl config random result.shortId ∧ chunkCount config file < 2 ^ 32 ∧
      description ∈ (uploadFile sodium config random file options server expiresAt).encrypted ∧
      (uploadFile sodium config random file options server expiresAt).created =
        some (createRequest sodium config random file options expiresAt encryptedMeta) ∧
      List.Forall₂
        (fun index put => ∃ call ∈ (uploadFile sodium config random file options server expiresAt).encrypted,
          StoresChunk sodium config random file description.key result.shortId index put call)
        (List.range (chunkCount config file)) (uploadFile sodium config random file options server expiresAt).puts := by
  rw [uploadFile] at returned ⊢
  split at returned
  next => cases returned
  next description encryptedMeta prepared =>
    dsimp only at returned ⊢
    split at returned
    next => cases returned
    next response created =>
      split at returned
      next => cases returned
      next counted =>
        rw [if_neg counted]
        obtain ⟨done, sent, same⟩ := map_ok.mp returned
        subst same
        refine ⟨description, encryptedMeta, prepared, rfl, ?_, List.mem_cons_self, rfl, (uploadChunks_ok sent).imp ?_⟩
        · have count : response.uploadUrls.length = chunkCount config file := not_not.mp counted
          exact count ▸ response.bounded
        · intro index put stored
          obtain ⟨call, inside, stores⟩ := stored
          exact ⟨call, List.mem_cons_of_mem _ inside, stores⟩

/-- The name in the result is the gateway's. -/
theorem uploadFile_named {result : UploadResult}
    (returned : (uploadFile sodium config random file options server expiresAt).result = .ok result) :
    ∃ request response, server.createShare request = .ok response ∧ result.shortId = response.shortId := by
  rw [uploadFile] at returned
  split at returned
  next => cases returned
  next description encryptedMeta prepared =>
    dsimp only at returned
    split at returned
    next => cases returned
    next response created =>
      split at returned
      next => cases returned
      next =>
        obtain ⟨-, -, same⟩ := map_ok.mp returned
        subst same
        exact ⟨_, response, created, rfl⟩

/-! ### Uploads that return -/

/-- What the documentation of the primitives promises, opening apart. -/
structure Lawful (sodium : Sodium) : Prop where
  tagged : ∀ plaintext aad nonce key, (sodium.aeadEncrypt plaintext aad nonce key).length = plaintext.length + 16
  incremental : ∀ chunks : List Bytes, sodium.hashFinal (chunks.foldl sodium.hashUpdate sodium.hashInit) =
    sodium.genericHash chunks.flatten
  keyed : ∀ message key, (sodium.keyedHash message key).length = 32
  stretches : ∀ password salt, salt.length = 16 →
    ∃ key, sodium.pwhash password salt defaultOpsLimit defaultMemLimitBytes = some key ∧ key.length = 32

/-- Nothing outside the browser stops the upload: the file is not too large, nobody
cancels, and the servers accept everything. -/
structure Accepted (config : WebConfig) (file : File) (options : UploadOptions) (server : UploadServer) : Prop where
  fits : file.size ≤ config.maxFileSizeBytes
  going : ∀ index, options.aborted index = false
  creates : ∀ request : CreateShareRequest, request.chunkCount = chunkCount config file →
    ∃ response, server.createShare request = .ok response ∧ response.uploadUrls.length = request.chunkCount ∧
      "" ∉ response.uploadUrls
  stores : ∀ index put, ∃ status, server.putChunk index put = .response status ∧ isOkStatus status = true

theorem buildChunkAad_returns {shortId : String} (index : Nat) (short : Utf16.length shortId ≤ 64) :
    ∃ aad, buildChunkAad shortId index = .ok aad := by
  have bound := (utf16_length_bounds shortId).2
  exact ⟨_, buildChunkAad_ok.mpr ⟨by omega, rfl⟩⟩

theorem uploadPasswordKey_returns (random : Randomness) (lawful : Lawful sodium)
    (defaults : options.passwordKdfOpsLimit = none ∧ options.passwordKdfMemLimitBytes = none)
    (short : ∀ password, options.password = some password → (stringToBytes password).length ≤ 4096) :
    ∃ passwordKey, uploadPasswordKey sodium random options = .ok passwordKey ∧
      ∀ key, passwordKey = some key → key.length = 32 := by
  rw [uploadPasswordKey, defaults.1, defaults.2]
  cases protect : options.hasPassword with
  | false => exact ⟨none, rfl, nofun⟩
  | true =>
    obtain ⟨password, given, long⟩ := (Option.any_eq_true _ _).mp protect
    have filled : Utf16.length password ≠ 0 := by simpa [Nat.pos_iff_ne_zero] using long
    have octets := short password given
    have units := (utf16_length_bounds password).1
    obtain ⟨key, stretched, width⟩ := lawful.stretches (stringToBytes password) random.passwordSalt
      random.passwordSalt.property
    refine ⟨some key, ?_, fun other same => Option.some.inj same ▸ width⟩
    simp only [↓reduceIte, map_ok, deriveKeyFromPassword, bind_ok, throwIf_ok, exists_const, given, Option.getD_some]
    refine ⟨key, ⟨not_not.mpr random.passwordSalt.property, filled, ?_, ?_, ?_⟩, rfl⟩
    · exact Nat.not_lt.mpr (Nat.le_trans units octets)
    · exact Nat.not_lt.mpr octets
    · rw [Option.getD_none, Option.getD_none, stretched]
      rfl

theorem deriveAeadKey_returns (lawful : Lawful sodium) {fragmentKey : Bytes} {passwordKey : Option Bytes}
    (width : fragmentKey.length = 32) (widths : ∀ key, passwordKey = some key → key.length = 32) :
    ∃ key, deriveAeadKey sodium fragmentKey passwordKey = .ok key ∧ key.length = 32 := by
  simp only [deriveAeadKey, bind_ok, throwIf_ok, exists_const]
  cases passwordKey with
  | none => exact ⟨fragmentKey, ⟨not_not.mpr width, rfl⟩, width⟩
  | some passwordKey =>
    simp only [bind_ok, throwIf_ok, exists_const]
    exact ⟨_, ⟨not_not.mpr width, not_not.mpr (widths passwordKey rfl), rfl⟩, lawful.keyed _ _⟩

theorem prepareUpload_returns (lawful : Lawful sodium) (filled : 0 < file.size)
    (fits : file.size ≤ config.maxFileSizeBytes)
    (defaults : options.passwordKdfOpsLimit = none ∧ options.passwordKdfMemLimitBytes = none)
    (short : ∀ password, options.password = some password → (stringToBytes password).length ≤ 4096) :
    ∃ description encryptedMeta,
      prepareUpload sodium config random file options = .ok (description, encryptedMeta) := by
  obtain ⟨passwordKey, password, widths⟩ := uploadPasswordKey_returns random lawful defaults short
  obtain ⟨key, derived, width⟩ := deriveAeadKey_returns lawful random.fragmentKey.property widths
  obtain ⟨aad, built⟩ : ∃ aad, buildChunkAad "meta" 0 = .ok aad := buildChunkAad_returns 0 (by decide)
  have sealedMeta := encryptChunk_ok.mpr ⟨width, random.nonceMeta.property,
    (rfl : _ = sodium.aeadEncrypt (stringToBytes (metaJson sodium config file)) aad random.nonceMeta key)⟩
  refine ⟨⟨key, random.nonceMeta, aad, stringToBytes (metaJson sodium config file)⟩,
    sodium.aeadEncrypt (stringToBytes (metaJson sodium config file)) aad random.nonceMeta key, ?_⟩
  simp only [prepareUpload, bind_ok, throwIf_ok, exists_const]
  exact ⟨Nat.pos_iff_ne_zero.mp filled, Nat.not_lt.mpr fits, passwordKey, password, key, derived, not_not.mpr width,
    aad, built, _, sealedMeta, rfl⟩

theorem uploadChunks_returns {aeadKey : Bytes} {response : CreateShareResponse} {indices : List Nat}
    (accepted : Accepted config file options server) (width : aeadKey.length = 32)
    (nonempty : "" ∉ response.uploadUrls) (inside : ∀ index ∈ indices, index < response.uploadUrls.length) :
    (uploadChunks sodium config random file options server aeadKey response indices).result = .ok () := by
  induction indices with
  | nil => rfl
  | cons index rest ih =>
    obtain ⟨first, others⟩ := List.forall_mem_cons.mp inside
    obtain ⟨aad, built⟩ := buildChunkAad_returns index response.named.2
    have done : ∃ call ciphertext,
        sealChunk sodium config random file aeadKey response.shortId index = .ok (call, ciphertext) := by
      refine ⟨⟨aeadKey, random.nonce index, aad, chunkPlaintext config file index⟩,
        sodium.aeadEncrypt (chunkPlaintext config file index) aad (random.nonce index) aeadKey, ?_⟩
      simp only [sealChunk, bind_ok]
      exact ⟨aad, built, _, encryptChunk_ok.mpr ⟨width, (random.nonce index).property, rfl⟩, rfl⟩
    obtain ⟨call, ciphertext, done⟩ := done
    have requested : ∃ put, putRequest sodium random response index ciphertext = .ok put := by
      have url : response.uploadUrls.getD index "" ≠ "" := by
        rw [List.getD_eq_getElem?_getD, List.getElem?_eq_getElem first, Option.getD_some]
        exact fun same => nonempty (same ▸ List.getElem_mem first)
      simp only [putRequest, deriveChunkToken, bind_ok, throwIf_ok, exists_const, built]
      exact ⟨_, _, ⟨not_not.mpr random.fragmentKey.property, aad, rfl, rfl⟩, url, rfl⟩
    obtain ⟨put, requested⟩ := requested
    obtain ⟨status, answered, success⟩ := accepted.stores index put
    have stored : (server.putChunk index put).check = .ok () := by
      rw [answered, PutAnswer.check, throwIf_ok]
      simp [success]
    rw [uploadChunks, if_neg (by simp [accepted.going index]), done]
    dsimp only
    rw [requested]
    dsimp only
    rw [stored]
    exact ih others

theorem uploadFile_returns (lawful : Lawful sodium) (accepted : Accepted config file options server)
    (filled : 0 < file.size)
    (defaults : options.passwordKdfOpsLimit = none ∧ options.passwordKdfMemLimitBytes = none)
    (short : ∀ password, options.password = some password → (stringToBytes password).length ≤ 4096) :
    ∃ result, (uploadFile sodium config random file options server expiresAt).result = .ok result := by
  obtain ⟨description, encryptedMeta, prepared⟩ := prepareUpload_returns lawful filled accepted.fits defaults short
  obtain ⟨-, -, width, -⟩ := prepareUpload_ok prepared
  obtain ⟨response, created, counted, nonempty⟩ :=
    accepted.creates (createRequest sodium config random file options expiresAt encryptedMeta) rfl
  have sent : (uploadChunks sodium config random file options server description.key response
      (List.range (chunkCount config file))).result = .ok () :=
    uploadChunks_returns accepted width nonempty fun index listed => counted ▸ List.mem_range.mp listed
  rw [uploadFile, prepared]
  dsimp only
  rw [created]
  dsimp only
  rw [if_neg (not_not.mpr counted)]
  exact ⟨_, map_ok.mpr ⟨(), sent, rfl⟩⟩

end Sealed

/-! ### A small file

Three octets in two chunks, with the values that the real primitives have on them. -/

def sampleConfig : WebConfig where
  publicUrl := "https://slothbox.local"
  ingestUrl := "https://ingest.local"
  maxFileSizeBytes := 1024
  chunkSizeBytes := 2
  noFragment := by decide
  positive := by decide
  safe := by decide

def sampleFile : File := ⟨"a.txt", "text/plain", [104, 105, 33], by decide⟩

def sampleRandom : Randomness where
  fragmentKey := ⟨List.replicate 32 7, rfl⟩
  passwordSalt := ⟨List.replicate 16 0, rfl⟩
  revokeToken := ⟨List.replicate 32 0, rfl⟩
  nonceMeta := ⟨List.replicate 24 1, rfl⟩
  nonce index := ⟨List.replicate 24 (UInt8.ofNat (2 + index)), by simp [nonceBytes]⟩

/-- A gateway that hands out as many URLs as there are chunks, and an ingest service
that takes everything. -/
def sampleServer : UploadServer where
  createShare request :=
    if bounded : request.chunkCount < 2 ^ 32 then
      .ok ⟨"abcdefghjkmn", List.replicate request.chunkCount "https://ingest.local/chunk", by decide, by simpa⟩
    else .error "too many chunks"
  putChunk _ _ := .response 204

theorem sampleServer_accepts : Accepted sampleConfig sampleFile {} sampleServer where
  fits := by decide
  going _ := rfl
  creates request same := by
    have count : request.chunkCount = 2 := by
      rw [same]
      decide +kernel
    have bounded : request.chunkCount < 2 ^ 32 := by omega
    refine ⟨_, dif_pos bounded, List.length_replicate, ?_⟩
    simp
  stores _ _ := ⟨204, rfl, rfl⟩

def sampleFileDigest : Bytes :=
  [179, 246, 104, 245, 104, 200, 24, 153, 223, 20, 201, 195, 125, 106, 148, 5,
    229, 64, 232, 225, 113, 168, 160, 137, 107, 116, 1, 70, 149, 151, 185, 102]

/-- The calls of the cipher during the upload, with their ciphertexts. -/
def sampleCalls : List (Sealed × Bytes) :=
  let name := u16be 12 ++ stringToBytes "abcdefghjkmn"
  [(⟨List.replicate 32 7, List.replicate 24 1, u16be 4 ++ stringToBytes "meta" ++ u32be 0, stringToBytes
      "\x7b\"fileName\":\"a.txt\",\"mimeType\":\"text/plain\",\"fileHash\":\"s_Zo9WjIGJnfFMnDfWqUBeVA6OFxqKCJa3QBRpWXuWY\",\"chunkCount\":2,\"fileSize\":3\x7d"⟩,
    [202, 86, 101, 36, 165, 137, 163, 254, 80, 142, 181, 185, 5, 106, 121, 249,
      207, 51, 176, 9, 134, 25, 98, 194, 212, 75, 198, 69, 5, 203, 67, 109,
      11, 139, 55, 0, 163, 253, 33, 32, 27, 175, 72, 249, 190, 232, 136, 76,
      154, 104, 145, 246, 120, 111, 133, 57, 94, 208, 36, 173, 115, 97, 52, 139,
      188, 152, 208, 135, 153, 13, 91, 68, 64, 25, 217, 149, 12, 63, 116, 67,
      1, 186, 171, 20, 230, 190, 158, 83, 102, 111, 146, 28, 62, 122, 122, 163,
      121, 171, 95, 217, 125, 164, 212, 103, 45, 245, 79, 186, 211, 30, 36, 36,
      90, 252, 3, 111, 249, 80, 73, 155, 18, 176, 22, 58, 255, 34, 9, 241,
      132, 241, 148, 254, 90, 152, 96, 79, 245, 23, 219, 108, 22, 232, 243, 119, 91]),
    (⟨List.replicate 32 7, List.replicate 24 2, name ++ u32be 0, [104, 105]⟩,
      [178, 216, 27, 41, 154, 133, 71, 161, 111, 165, 253, 96, 133, 76, 207, 87, 52, 69]),
    (⟨List.replicate 32 7, List.replicate 24 3, name ++ u32be 1, [33]⟩,
      [165, 56, 26, 25, 205, 69, 48, 117, 207, 238, 174, 192, 13, 163, 153, 97, 156])]

/-- The known ciphertexts; any other plaintext gets a tag of zeros. -/
def sampleEncrypt (plaintext aad nonce key : Bytes) : Bytes :=
  match sampleCalls.lookup ⟨key, nonce, aad, plaintext⟩ with
  | some ciphertext => ciphertext
  | none => plaintext ++ List.replicate 16 0

/-- Opens the known ciphertexts and nothing else. -/
def sampleOpen (ciphertext aad nonce key : Bytes) : Option Bytes :=
  (sampleCalls.find? fun call => call.1.key = key ∧ call.1.nonce = nonce ∧ call.1.aad = aad ∧ call.2 = ciphertext).map
    fun call => call.1.plaintext

def sampleTokenInput (index : Nat) : Bytes :=
  chunkTokenLabel ++ [0] ++ List.replicate 32 7 ++ u16be 12 ++ stringToBytes "abcdefghjkmn" ++ u32be index

def sampleToken : Bytes :=
  [61, 105, 41, 107, 173, 64, 2, 141, 23, 166, 47, 159, 155, 203, 40, 10,
    196, 61, 212, 208, 149, 95, 100, 195, 17, 245, 88, 22, 132, 179, 123, 153]

def secondToken : Bytes :=
  [242, 150, 32, 189, 11, 7, 102, 75, 177, 118, 163, 49, 233, 222, 97, 9,
    72, 107, 4, 40, 70, 176, 184, 106, 163, 150, 179, 195, 16, 211, 211, 203]

def sampleSodium : Sodium where
  aeadEncrypt := sampleEncrypt
  aeadDecrypt := sampleOpen
  genericHash := patched [([104, 105, 33], sampleFileDigest)]
  keyedHash _ _ := List.replicate 32 0
  HashState := Bytes
  hashInit := []
  hashUpdate state chunk := state ++ chunk
  hashFinal := patched [([104, 105, 33], sampleFileDigest)]
  pwhash _ _ _ _ := some (List.replicate 32 0)
  sha256 := patched
    [(List.replicate 32 0,
        [102, 104, 122, 173, 248, 98, 189, 119, 108, 143, 193, 139, 142, 159, 142, 32,
          8, 151, 20, 133, 110, 226, 51, 179, 144, 42, 89, 29, 13, 95, 41, 37]),
      (sampleTokenInput 0, sampleToken), (sampleTokenInput 1, secondToken),
      (sampleToken,
        [235, 148, 48, 133, 20, 162, 109, 126, 41, 169, 188, 68, 97, 32, 106, 25,
          202, 55, 182, 143, 77, 25, 68, 29, 75, 132, 165, 111, 180, 112, 221, 74]),
      (secondToken,
        [241, 10, 176, 209, 104, 133, 187, 166, 185, 3, 201, 107, 121, 167, 255, 43,
          165, 162, 26, 127, 155, 145, 6, 111, 123, 246, 170, 118, 164, 191, 242, 122])]

end SlothBox.Proofs

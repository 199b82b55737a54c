import SlothBox.Proofs.Blobs
import SlothBox.Proofs.Declaration
import SlothBox.Proofs.Handlers
import SlothBox.Proofs.Promotion
import SlothBox.Proofs.UploadSession

/-! An upload at the services: the share is created, each PUT puts one more chunk behind the
others, and with the last one the share is ready. -/

namespace SlothBox.Proofs
open Library Session

/-! ### The route of a chunk -/

theorem validShortId_chars {shortId : String} (valid : validShortId shortId) :
    ∀ c ∈ shortId.toList, (c != '/') = true := by
  simp only [validShortId, Bool.and_eq_true, List.all_eq_true] at valid
  intro c inside
  have known := valid.2 c inside
  rw [bne_iff_ne]
  intro same
  rw [same] at known
  exact absurd known (by decide)

theorem buildUploadUrl_toList (base shortId : String) (index : ℕ) : (buildUploadUrl base shortId index).toList =
    (uploadBase base ++ "/chunk/".toList) ++ (shortId.toList ++ '/' :: Nat.toDigits 10 index) := by
  have digits : (toString index).toList = Nat.toDigits 10 index := Nat.toList_repr
  have slash : "/".toList = ['/'] := rfl
  simp only [buildUploadUrl, uploadBase, String.toList_append, String.toList_ofList, digits, slash, List.append_assoc,
    List.cons_append, List.nil_append]

/-- The ingest service reads the gateway's URLs. -/
theorem chunkRoute_buildUploadUrl {base shortId : String} {index : ℕ} (valid : validShortId shortId) (small : index < 2 ^ 31) :
    chunkRoute (uploadBase base) (buildUploadUrl base shortId index) = some (shortId, index) := by
  have path : (buildUploadUrl base shortId index).toList.dropPrefix? (uploadBase base ++ "/chunk/".toList) =
      some (shortId.toList ++ '/' :: Nat.toDigits 10 index) :=
    List.dropPrefix?_eq_some_iff.mpr ⟨_, buildUploadUrl_toList base shortId index, beq_self_eq_true _⟩
  have name : (shortId.toList ++ '/' :: Nat.toDigits 10 index).takeWhile (· != '/') = shortId.toList := by
    rw [List.takeWhile_append_of_pos (validShortId_chars valid)]
    simp
  have rest : (shortId.toList ++ '/' :: Nat.toDigits 10 index).drop (shortId.toList.length + 1) = Nat.toDigits 10 index := by
    rw [← List.drop_drop, List.drop_left, List.drop_one, List.tail_cons]
  have filled : (Nat.toDigits 10 index).isEmpty = false := List.isEmpty_eq_false_iff.mpr Nat.toDigits_ne_nil
  have numeric : (Nat.toDigits 10 index).all Char.isDigit = true := by
    rw [List.all_eq_true]
    exact fun c inside => Nat.isDigit_of_mem_toDigits (by decide) (by decide) inside
  have bounded : ¬2 ^ 31 ≤ index := Nat.not_le.mpr small
  simp only [chunkRoute, path, Option.bind_eq_bind, Option.bind_some, name, rest, filled, numeric, String.ofList_toList, valid,
    Nat.ofDigitChars_ten_toDigits, bounded, Bool.not_true, Bool.or_self, if_false, Bool.false_eq_true]
  rfl

/-! ### The sizes of the chunks -/

section Sizes
variable {config : WebConfig} {file : File}

theorem length_chunkPlaintext (index : ℕ) : (chunkPlaintext config file index).length =
    min config.chunkSizeBytes (file.size - index * config.chunkSizeBytes) := by
  rw [chunkPlaintext, List.length_take, List.length_drop, File.size]
  omega

/-- A chunk of the browser is not turned away for its size. -/
theorem chunk_fits {options : IngestOptions} {row : ShareRow} {index : ℕ} (filled : 0 < file.size)
    (tags : options.aeadTagBytes = 16) (room : config.chunkSizeBytes + 16 ≤ options.maxChunkBytes)
    (int32 : options.maxChunkBytes < 2 ^ 31) (count : row.chunkCount = chunkCount config file)
    (size : row.chunkSize = config.chunkSizeBytes) (inside : index < chunkCount config file) :
    FitsChunk options row index ((chunkPlaintext config file index).length + 16) := by
  have full : fullCiphertext options row = config.chunkSizeBytes + 16 := by
    rw [fullCiphertext_eq (by omega), tags, size]
    rfl
  -- a piece less would not hold the file
  have before : ∀ pieces, pieces < chunkCount config file → pieces * config.chunkSizeBytes < file.size := by
    intro pieces fewer
    by_contra enough
    exact absurd (chunkCount_least filled (Nat.not_lt.mp enough)) (Nat.not_le.mpr fewer)
  have positive := config.positive
  have reached := before index inside
  rw [length_chunkPlaintext]
  refine ⟨count ▸ inside, by omega, by omega, fun early => ?_, fun _ => by omega⟩
  have more := before (index + 1) (by omega)
  rw [Nat.succ_mul] at more
  omega

end Sizes


/-! ### Filling a share -/

/-- A chunk as a PUT has left it. -/
structure Deposited (shortId : String) (put : PutChunkRequest) (index : ℕ) (blobs : AList fun _ : String => Bytes)
    (chunk : ChunkRow) : Prop where
  nonce : put.nonce = bytesToBase64Url chunk.nonce
  token : ∃ hash, put.chunkTokenHash = bytesToBase64Url hash ∧ hash.length = 32 ∧ chunk.downloadTokenHash = some hash
  key : chunk.blobKey = buildBlobKey shortId index
  blob : blobs.lookup chunk.blobKey = some put.ciphertext
  uploaded : chunk.uploadedAt.isSome

/-- The state of a share with so many of its chunks. -/
def fillState (row : ShareRow) (count : ℕ) : ShareState :=
  if count = 0 then .pending else if count < row.chunkCount then .uploading else .ready

/-- The first chunks are there and no others. -/
structure Filling (row : ShareRow) (puts : List PutChunkRequest) (count : ℕ) (store : Store) : Prop where
  share : store.share = some { row with state := fillState row count }
  inside : ∀ index chunk, store.chunks.lookup index = some chunk → index < count
  chunk : ∀ index put, index < count → puts[index]? = some put →
    ∃ chunk, store.chunks.lookup index = some chunk ∧ Deposited row.shortId put index store.blobs chunk ∧
      chunk.servedAt = none

/-- A PUT that nothing of the ingest service stands in the way of. -/
structure Sendable (env : Env) (row : ShareRow) (put : PutChunkRequest) (index : ℕ) : Prop where
  nonce : ∃ nonce : Bytes, put.nonce = bytesToBase64Url nonce ∧ nonce.length = env.options.nonceBytes ∧ 0 < nonce.length
  token : ∃ hash : Bytes, put.chunkTokenHash = bytesToBase64Url hash ∧ hash.length = 32
  fits : FitsChunk env.options row index put.ciphertext.length

theorem requiredNonce_sent {request : PutRequest} {options : IngestOptions} {nonce : Bytes}
    (sent : request.nonceHeader = some (bytesToBase64Url nonce)) (width : nonce.length = options.nonceBytes)
    (filled : 0 < nonce.length) : request.requiredNonce options = .ok nonce := by
  have decoded : tryDecodeBase64Url (bytesToBase64Url nonce) = some nonce := tryDecode_base64 filled
  have there : (bytesToBase64Url nonce).isEmpty = false := by
    rw [← Bool.not_eq_true, String.isEmpty_iff]
    exact base64_ne_empty filled
  simp only [PutRequest.requiredNonce, sent, there, decoded, width, Bool.false_eq_true, if_false, if_true]

theorem Sendable.admitted {env : Env} {row : ShareRow} {put : PutChunkRequest} {index : ℕ} {now : Timestamp}
    (sendable : Sendable env row put index) (accepts : row.canAcceptUploads) (alive : row.isExpired now = false) :
    ∃ plan, (put.received row.shortId index).check env.options row now = .ok plan ∧ plan.index = index ∧
      plan.ciphertextSize = put.ciphertext.length ∧ plan.blobKey = buildBlobKey row.shortId index ∧
      put.nonce = bytesToBase64Url plan.nonce ∧
      ∃ hash, put.chunkTokenHash = bytesToBase64Url hash ∧ hash.length = 32 ∧ plan.downloadTokenHash = some hash := by
  obtain ⟨nonce, header, width, filled⟩ := sendable.nonce
  obtain ⟨hash, commitment, digest⟩ := sendable.token
  have decoded : (put.received row.shortId index).requiredNonce env.options = .ok nonce :=
    requiredNonce_sent (congrArg some header) width filled
  have optional : (put.received row.shortId index).optionalTokenHash = .ok (some hash) :=
    optionalTokenHash_sent digest (congrArg some commitment)
  obtain ⟨plan, admitted⟩ := check_of_fits accepts alive rfl rfl decoded optional sendable.fits
  have planned := check_planned admitted
  have position : (index : ℤ) = plan.index := planned.index
  have sameIndex : plan.index = index := by omega
  have sameSize : plan.ciphertextSize = put.ciphertext.length := by exact_mod_cast (Option.some.inj planned.size).symm
  have sameNonce : plan.nonce = nonce := Except.ok.inj (planned.nonce.symm.trans decoded)
  have sameHash : plan.downloadTokenHash = some hash := Except.ok.inj (planned.hash.symm.trans optional)
  exact ⟨plan, admitted, sameIndex, sameSize, sameIndex ▸ planned.key, sameNonce ▸ header, hash, commitment, digest, sameHash⟩

section Step
variable {env : Env} {row : ShareRow} {puts : List PutChunkRequest} {count : ℕ} {store : Store} {put : PutChunkRequest}
  {clock : Timestamp}

theorem fillState_accepts (more : count < row.chunkCount) :
    ({ row with state := fillState row count } : ShareRow).canAcceptUploads = true := by
  have going : fillState row count = .pending ∨ fillState row count = .uploading := by
    rw [fillState, if_pos more]
    split
    · exact .inl rfl
    · exact .inr rfl
  simpa [ShareRow.canAcceptUploads] using going

/-- The chunks after one more PUT. -/
theorem Filling.more {plan : PutPlan} {request : PutRequest} (filling : Filling row puts count store)
    (next : puts[count]? = some put) (body : request.body = put.ciphertext) (index : plan.index = count)
    (key : plan.blobKey = buildBlobKey row.shortId count) (nonce : put.nonce = bytesToBase64Url plan.nonce)
    (token : ∃ hash, put.chunkTokenHash = bytesToBase64Url hash ∧ hash.length = 32 ∧ plan.downloadTokenHash = some hash) :
    (∀ index chunk, (filed request plan clock store).chunks.lookup index = some chunk → index < count + 1) ∧
    ∀ index put, index < count + 1 → puts[index]? = some put →
      ∃ chunk, (filed request plan clock store).chunks.lookup index = some chunk ∧
        Deposited row.shortId put index (filed request plan clock store).blobs chunk ∧ chunk.servedAt = none := by
  have absent : store.chunks.lookup count = none := by
    cases there : store.chunks.lookup count with
    | none => rfl
    | some chunk => exact absurd (filling.inside count chunk there) (Nat.lt_irrefl count)
  have fresh : upsertChunk store count plan.nonce plan.blobKey plan.ciphertextSize clock plan.downloadTokenHash =
      ⟨plan.nonce, plan.blobKey, plan.ciphertextSize, some clock, none, 0, plan.downloadTokenHash⟩ := by
    simp only [upsertChunk, absent]
  unfold filed
  rw [index, fresh, key, body]
  constructor
  · intro other chunk found
    by_cases same : other = count
    · omega
    · have before := filling.inside other chunk ((AList.lookup_insert_ne same).symm.trans found)
      omega
  · intro other sent below there
    by_cases same : other = count
    · subst same
      cases Option.some.inj (next.symm.trans there)
      exact ⟨_, AList.lookup_insert _, ⟨nonce, token, rfl, AList.lookup_insert _, rfl⟩, rfl⟩
    · obtain ⟨chunk, found, deposited, unserved⟩ := filling.chunk other sent (by omega) there
      refine ⟨chunk, (AList.lookup_insert_ne same).trans found, ⟨deposited.nonce, deposited.token, deposited.key, ?_,
        deposited.uploaded⟩, unserved⟩
      have apart : chunk.blobKey ≠ buildBlobKey row.shortId count := by
        rw [deposited.key]
        exact fun equal => same (buildBlobKey_inj equal)
      exact (AList.lookup_insert_ne apart).trans deposited.blob

/-- One more PUT, and with the last one the share is ready. -/
theorem Filling.step {plan : PutPlan} {request : PutRequest} (filling : Filling row puts count store)
    (long : puts.length = row.chunkCount) (next : puts[count]? = some put) (body : request.body = put.ciphertext)
    (index : plan.index = count) (key : plan.blobKey = buildBlobKey row.shortId count)
    (nonce : put.nonce = bytesToBase64Url plan.nonce)
    (token : ∃ hash, put.chunkTokenHash = bytesToBase64Url hash ∧ hash.length = 32 ∧ plan.downloadTokenHash = some hash) :
    Filling row puts (count + 1) (putStore { row with state := fillState row count } request plan clock store) := by
  obtain ⟨inside, chunk⟩ := @Filling.more row puts count store _ clock plan request filling next body index key nonce token
  have more : count < row.chunkCount := long ▸ (List.getElem?_eq_some_iff.mp next).1
  have there : ∀ other < count + 1, ∃ chunk, (filed request plan clock store).chunks.lookup other = some chunk ∧
      chunk.uploadedAt.isSome := by
    intro other below
    have sent : puts[other]? = some puts[other] := List.getElem?_eq_getElem (by omega)
    obtain ⟨chunk, lookup, deposited, -⟩ := chunk other _ below sent
    exact ⟨chunk, lookup, deposited.uploaded⟩
  have counts : row.chunkCount ≤ (filed request plan clock store).countUploadedChunks ↔ row.chunkCount ≤ count + 1 := by
    rw [complete_iff_count]
    · constructor
      · intro complete
        by_contra short
        obtain ⟨chunk, found⟩ := Option.isSome_iff_exists.mp (complete (count + 1) (by omega))
        exact absurd (inside _ chunk found) (Nat.lt_irrefl _)
      · intro enough other below
        obtain ⟨chunk, found, -⟩ := there other (by omega)
        rw [found]
        rfl
    · intro other chunk found
      have below := inside other chunk found
      obtain ⟨same, lookup, uploaded⟩ := there other below
      cases Option.some.inj (found.symm.trans lookup)
      exact ⟨by omega, uploaded⟩
  refine ⟨?_, inside, chunk⟩
  have state : (if row.chunkCount ≤ (filed request plan clock store).countUploadedChunks then ShareState.ready
      else .uploading) = fillState row (count + 1) := by
    unfold fillState
    rw [if_neg (Nat.succ_ne_zero count)]
    by_cases last : row.chunkCount ≤ count + 1
    · rw [if_pos (counts.mpr last), if_neg (by omega)]
    · rw [if_neg (mt counts.mp last), if_pos (by omega)]
  unfold putStore promotedRow
  rw [state]

end Step

section Serving
variable {deployment : Deployment} {world : World} {row : ShareRow} {puts : List PutChunkRequest} {count : ℕ}
  {put : PutChunkRequest}

/-- One PUT of the browser at the ingest service. -/
theorem putChunk_fills (unlocked : world.db.tx = none) (filling : Filling row puts count world.db.store)
    (long : puts.length = row.chunkCount) (next : puts[count]? = some put)
    (url : put.url = buildUploadUrl deployment.gateway.ingestPublicUrl row.shortId count) (valid : validShortId row.shortId)
    (few : row.chunkCount < 2 ^ 31) (sendable : Sendable deployment.env row put count)
    (alive : row.isExpired (world.now deployment) = false) :
    (putChunk deployment world put).1 = .response 201 ∧ (putChunk deployment world put).2.db.tx = none ∧
      Filling row puts (count + 1) (putChunk deployment world put).2.db.store := by
  have more : count < row.chunkCount := long ▸ (List.getElem?_eq_some_iff.mp next).1
  have route : chunkRoute (uploadBase deployment.gateway.ingestPublicUrl) put.url = some (row.shortId, count) := by
    rw [url]
    exact chunkRoute_buildUploadUrl valid (by omega)
  let present : ShareRow := { row with state := fillState row count }
  have fits : FitsChunk deployment.env.options present count put.ciphertext.length :=
    ⟨sendable.fits.inside, sendable.fits.filled, sendable.fits.bounded, sendable.fits.full, sendable.fits.last⟩
  have same : Sendable deployment.env present put count := ⟨sendable.nonce, sendable.token, fits⟩
  obtain ⟨plan, admitted, index, size, key, nonce, token⟩ := same.admitted (fillState_accepts more) alive
  let request := put.received row.shortId count
  have database : world.db = ⟨world.db.store, none⟩ := by rw [← unlocked]
  have handled : world.handled deployment (.put request) =
      ⟨⟨putStore present request plan (world.now deployment) world.db.store, none⟩, .put request .created, none⟩ := by
    rw [World.handled, database]
    exact put_handled filling.share rfl admitted size.symm
  have filled : Filling row puts (count + 1) (putStore present request plan (world.now deployment) world.db.store) :=
    filling.step long next rfl index key nonce token
  unfold putChunk World.after
  rw [route]
  dsimp only
  rw [handled]
  exact ⟨rfl, rfl, filled⟩

end Serving

/-! ### The share -/

theorem validShortId_sized {shortId : String} (valid : validShortId shortId) :
    1 ≤ Utf16.length shortId ∧ Utf16.length shortId ≤ 64 := by
  simp only [validShortId, Bool.and_eq_true, List.all_eq_true, decide_eq_true_eq] at valid
  have basic : ∀ c ∈ shortId.toList, c.toNat < 0x10000 := by
    intro c inside
    have known := List.contains_iff_mem.mp (valid.2 c inside)
    have small : shortIdAlphabet.toList.all (fun d => decide (d.toNat < 0x10000)) = true := by decide
    exact of_decide_eq_true (List.all_eq_true.mp small c known)
  have length : Utf16.length shortId = 12 := by
    rw [← String.ofList_toList (s := shortId), utf16_length_basic basic]
    exact valid.1
  omega

/-- The reply of the gateway passes the browser's schema. -/
theorem createShareResponse_created {isUrl : String → Bool} {request : CreateRequest} (valid : validShortId request.shortId)
    (few : request.chunkCount < 2 ^ 32) (identified : request.id ≠ "")
    (urls : ∀ index, isUrl (buildUploadUrl request.ingestPublicUrl request.shortId index) = true) :
    ∃ response, createShareResponse isUrl request.reply = .ok response ∧ response.shortId = request.shortId ∧
      response.uploadUrls = (List.range request.chunkCount).map (buildUploadUrl request.ingestPublicUrl request.shortId) := by
  have fits : (1 ≤ Utf16.length request.shortId ∧ Utf16.length request.shortId ≤ 64) ∧
      ((List.range request.chunkCount).map (buildUploadUrl request.ingestPublicUrl request.shortId)).length < 2 ^ 32 := by
    rw [List.length_map, List.length_range]
    exact ⟨validShortId_sized valid, few⟩
  have all : ((List.range request.chunkCount).map (buildUploadUrl request.ingestPublicUrl request.shortId)).all isUrl = true := by
    rw [List.all_map, List.all_eq_true]
    exact fun index _ => urls index
  refine ⟨⟨_, _, fits.1, fits.2⟩, ?_, rfl, rfl⟩
  rw [CreateRequest.reply, createShareResponse, dif_pos fits, if_pos ⟨identified, all⟩]

/-! ### An upload as a whole -/

/-- Services that take everything. -/
def accepting (response : CreateShareResponse) : (call : UploadCall) → call.Answer
  | .create _ => .ok response
  | .put .. => .response 201

/-- Two services set up for each other, and for browsers with these primitives. -/
structure Deployed (sodium : Sodium) (deployment : Deployment) : Prop where
  sha256 : deployment.env.sha256 = sodium.sha256
  nonceBytes : deployment.env.options.nonceBytes = 24
  aeadTagBytes : deployment.env.options.aeadTagBytes = 16
  chunkBytes : deployment.gateway.maxChunkSizeBytes ≤ deployment.env.options.maxChunkBytes
  int32 : deployment.env.options.maxChunkBytes < 2 ^ 31
  bigint : deployment.gateway.maxFileSizeBytes < 2 ^ 63
  shortId : validShortId deployment.shortId = true
  id : deployment.id ≠ ""
  urls : ∀ index, deployment.isUrl (buildUploadUrl deployment.gateway.ingestPublicUrl deployment.shortId index) = true

/-- A file within all limits, which nobody cancels, and an expiry that nobody lives to see. -/
structure Unhindered (sodium : Sodium) (web : WebConfig) (random : Randomness) (file : File) (options : UploadOptions)
    (expiresAt : String) (deployment : Deployment) : Prop where
  filled : 0 < file.size
  fits : file.size ≤ web.maxFileSizeBytes
  defaults : options.passwordKdfOpsLimit = none ∧ options.passwordKdfMemLimitBytes = none
  short : ∀ password, options.password = some password → (stringToBytes password).length ≤ 4096
  going : ∀ index, options.aborted index = false
  declarable : ∀ description encryptedMeta,
    prepareUpload sodium web random file options = .ok (description, encryptedMeta) →
    Declarable deployment.gateway deployment.dates (deployment.clock 0)
      (createRequest sodium web random file options expiresAt encryptedMeta)
  early : ∀ time, deployment.dates.getTime (units expiresAt) = some time →
    ∀ handlers, dateNow (deployment.clock handlers) < time

section Upload
variable {sodium : Sodium} {web : WebConfig} {random : Randomness} {file : File} {options : UploadOptions} {expiresAt : String}
  {deployment : Deployment} {encryptedMeta : Bytes}

/-- The row that an upload creates. -/
def uploadedRow (sodium : Sodium) (web : WebConfig) (random : Randomness) (file : File) (options : UploadOptions)
    (encryptedMeta : Bytes) (deployment : Deployment) (time : ℤ) : ShareRow :=
  (declared sodium web random file options encryptedMeta deployment.gateway deployment.id deployment.shortId
    (time * 1000).toNat).row (deployment.clock 0)

theorem dateNow_lt {clock : Timestamp} {time : ℤ} (before : dateNow clock < time) : clock < (time * 1000).toNat := by
  unfold dateNow at before
  have scaled : (clock : ℤ) < time * 1000 := by omega
  exact Int.lt_toNat.mpr scaled

/-- The first request of an upload: the share is there, without a chunk. -/
theorem create_fills (digests : Digests sodium) (deployed : Deployed sodium deployment)
    (unhindered : Unhindered sodium web random file options expiresAt deployment) (described : encryptedMeta ≠ [])
    (limits : Declarable deployment.gateway deployment.dates (deployment.clock 0)
      (createRequest sodium web random file options expiresAt encryptedMeta)) :
    let posted := postShares deployment (.start .empty) (createRequest sodium web random file options expiresAt encryptedMeta)
    ∃ time response, deployment.dates.getTime (units expiresAt) = some time ∧ posted.1 = .ok response ∧
      response.shortId = deployment.shortId ∧ response.uploadUrls = (List.range (chunkCount web file)).map
        (buildUploadUrl deployment.gateway.ingestPublicUrl deployment.shortId) ∧
      posted.2.db.tx = none ∧ ∀ puts,
        Filling (uploadedRow sodium web random file options encryptedMeta deployment time) puts 0 posted.2.db.store := by
  let start : World := .start .empty
  let request := createRequest sodium web random file options expiresAt encryptedMeta
  have small : deployment.gateway.maxChunkSizeBytes < 2 ^ 31 := Nat.lt_of_le_of_lt deployed.chunkBytes deployed.int32
  have accepted : createShareSchema deployment.gateway deployment.dates (start.now deployment) request.toJson =
      .ok (.ok (declaredBody request)) := (accepted_iff digests unhindered.filled described small).mpr ⟨rfl, limits⟩
  obtain ⟨-, time, dated, future, -⟩ := limits.expiresAt
  let decoded := declared sodium web random file options encryptedMeta deployment.gateway deployment.id deployment.shortId
    (time * 1000).toNat
  have decodes : (declaredBody request).request deployment.gateway deployment.dates deployment.id deployment.shortId =
      .ok decoded := declared_request digests described dated deployment.id deployment.shortId
  obtain ⟨-, -, values⟩ := request_ok decodes
  have valid : (decoded.row (deployment.clock 0)).checks = true ∧ (decoded.row (deployment.clock 0)).fits = true :=
    ⟨row_checks (createShareSchema_ok accepted) values (dateNow_lt future),
      row_fits (createShareSchema_ok accepted) values deployed.bigint small _⟩
  have handled : start.handled deployment (.create decoded) = ⟨⟨{ Store.empty with
      share := some (decoded.row (deployment.clock 0)), audit := [decoded.event (deployment.clock 0)] }, none⟩,
      .create decoded (.done decoded.reply), none⟩ := create_handled rfl valid
  obtain ⟨response, replied, named, urls⟩ : ∃ response, createShareResponse deployment.isUrl decoded.reply = .ok response ∧
      response.shortId = deployment.shortId ∧ response.uploadUrls = (List.range (chunkCount web file)).map
        (buildUploadUrl deployment.gateway.ingestPublicUrl deployment.shortId) := by
    have few : decoded.chunkCount < 2 ^ 32 := Nat.lt_of_le_of_lt limits.chunkCount (by norm_num)
    exact createShareResponse_created deployed.shortId few deployed.id deployed.urls
  have decode : deployment.decode start request.toJson = .ok decoded := by
    rw [Deployment.decode, accepted]
    exact decodes
  have posted : postShares deployment start request = (.ok response, start.after deployment (.create decoded)) := by
    unfold postShares
    rw [decode]
    dsimp only
    rw [handled]
    dsimp only
    rw [Proc.gatewayReply, replied]
  rw [posted]
  refine ⟨time, response, dated, rfl, named, urls, ?_, ?_⟩
  · rw [World.after, handled]
  · rw [World.after, handled]
    exact fun puts => ⟨rfl, nofun, nofun⟩

/-- The requests of the loop pass the ingest service. -/
theorem preparedChunk_sendable (lawful : Lawful sodium) (digests : Digests sodium) (deployed : Deployed sodium deployment)
    (filled : 0 < file.size) (small : web.chunkSizeBytes + 16 ≤ deployment.gateway.maxChunkSizeBytes) {aeadKey : Bytes}
    {response : CreateShareResponse} {index : ℕ} {put : PutChunkRequest} (inside : index < chunkCount web file)
    (prepared : preparedChunk sodium web random file options aeadKey response index = .ok put) (time : ℤ) :
    Sendable deployment.env (uploadedRow sodium web random file options encryptedMeta deployment time) put index := by
  obtain ⟨-, nonce, ⟨token, -, commitment⟩, call, ⟨-, plaintext⟩, ciphertext⟩ := preparedChunk_ok prepared
  have width : (random.nonce index).val.length = 24 := (random.nonce index).property
  refine ⟨⟨random.nonce index, nonce, width.trans deployed.nonceBytes.symm, by omega⟩, ⟨_, commitment, digests.sha256 token⟩, ?_⟩
  have length : put.ciphertext.length = (chunkPlaintext web file index).length + 16 := by
    rw [ciphertext, sealedBytes, lawful.tagged, plaintext]
  rw [length]
  exact chunk_fits filled deployed.aeadTagBytes (Nat.le_trans small deployed.chunkBytes) deployed.int32 rfl rfl inside

theorem uploadedRow_alive {time : ℤ} {clock : Timestamp} (before : dateNow clock < time) :
    (uploadedRow sodium web random file options encryptedMeta deployment time).isExpired clock = false :=
  decide_eq_false (Nat.not_le.mpr (dateNow_lt before))

/-- Services that take everything stop nothing. -/
theorem accepting_accepts {response : CreateShareResponse} (fits : file.size ≤ web.maxFileSizeBytes)
    (going : ∀ index, options.aborted index = false) {base shortId : String}
    (urls : response.uploadUrls = (List.range (chunkCount web file)).map (buildUploadUrl base shortId)) :
    Accepted web file options (settledUpload (accepting response)) where
  fits := fits
  going := going
  creates request count := by
    refine ⟨response, rfl, ?_, fun empty => ?_⟩
    · rw [urls, List.length_map, List.length_range, count]
    · rw [urls] at empty
      obtain ⟨index, -, same⟩ := List.mem_map.mp empty
      have spelt := buildUploadUrl_toList base shortId index
      rw [same] at spelt
      simp at spelt
  stores index put := ⟨201, rfl, rfl⟩

/-- How far an upload has come, by the requests still to be made. -/
def UploadStage (request : CreateShareRequest) (row : ShareRow) (puts : List PutChunkRequest) (rest : List UploadCall)
    (world : World) : Prop :=
  let calls := List.zipWith UploadCall.put (List.range puts.length) puts
  (rest = .create request :: calls ∧ world = .start .empty) ∨
    ∃ count ≤ puts.length, rest = calls.drop count ∧ world.db.tx = none ∧ Filling row puts count world.db.store

theorem drop_calls {puts : List PutChunkRequest} {count : ℕ} {call : UploadCall} {rest : List UploadCall}
    (left : call :: rest = (List.zipWith UploadCall.put (List.range puts.length) puts).drop count) :
    ∃ put, puts[count]? = some put ∧ call = .put count put ∧
      rest = (List.zipWith UploadCall.put (List.range puts.length) puts).drop (count + 1) := by
  have whole : (List.zipWith UploadCall.put (List.range puts.length) puts).length = puts.length := by
    rw [List.length_zipWith, List.length_range, Nat.min_self]
  have more : count < puts.length := by
    by_contra beyond
    rw [List.drop_eq_nil_of_le (by omega)] at left
    cases left
  rw [List.drop_eq_getElem_cons (by omega)] at left
  obtain ⟨sameCall, sameRest⟩ := List.cons.inj left
  refine ⟨puts[count], List.getElem?_eq_getElem more, ?_, sameRest⟩
  rw [sameCall, List.getElem_zipWith, List.getElem_range]

/-- One request of an upload, at the two services. -/
theorem UploadStage.turn {request : CreateShareRequest} {row : ShareRow} {puts : List PutChunkRequest}
    {response : CreateShareResponse} {call : UploadCall} {rest : List UploadCall} {world : World}
    (reached : UploadStage request row puts (call :: rest) world)
    (posted : (postShares deployment (.start .empty) request).1 = .ok response)
    (created : (postShares deployment (.start .empty) request).2.db.tx = none ∧
      Filling row puts 0 (postShares deployment (.start .empty) request).2.db.store)
    (long : puts.length = row.chunkCount) (valid : validShortId row.shortId = true) (few : row.chunkCount < 2 ^ 31)
    (url : ∀ index put, puts[index]? = some put →
      put.url = buildUploadUrl deployment.gateway.ingestPublicUrl row.shortId index)
    (sendable : ∀ index put, puts[index]? = some put → Sendable deployment.env row put index)
    (alive : ∀ handlers, row.isExpired (deployment.clock handlers) = false) :
    (deployment.serveUpload world call).1 = accepting response call ∧
      UploadStage request row puts rest (deployment.serveUpload world call).2 := by
  rcases reached with ⟨first, start⟩ | ⟨count, -, left, unlocked, filling⟩
  · obtain ⟨sameCall, sameRest⟩ := List.cons.inj first
    subst sameCall sameRest start
    exact ⟨posted, .inr ⟨0, Nat.zero_le _, rfl, created⟩⟩
  · obtain ⟨put, next, sameCall, sameRest⟩ := drop_calls left
    subst sameCall
    obtain ⟨status, free, filled⟩ := putChunk_fills unlocked filling long next (url count put next) valid few
      (sendable count put next) (alive world.procs.length)
    have more := (List.getElem?_eq_some_iff.mp next).1
    exact ⟨status, .inr ⟨count + 1, more, sameRest, free, filled⟩⟩

/-- An upload to the two services returns and leaves the whole share with them, as they would
have taken it down if all their answers had been settled before. -/
theorem upload_fills (lawful : Lawful sodium) (digests : Digests sodium) (deployed : Deployed sodium deployment)
    (unhindered : Unhindered sodium web random file options expiresAt deployment) :
    let talk := (Session.uploadFile sodium web random file options expiresAt).converse deployment.serveUpload (.start .empty)
    ∃ description encryptedMeta time result response,
      let run := uploadFile sodium web random file options (settledUpload (accepting response)) expiresAt
      prepareUpload sodium web random file options = .ok (description, encryptedMeta) ∧
      deployment.dates.getTime (units expiresAt) = some time ∧ talk.result = .ok result ∧ run.result = .ok result ∧
      result.shortId = deployment.shortId ∧ response.shortId = deployment.shortId ∧
      List.Forall₂ (fun index put =>
        preparedChunk sodium web random file options description.key response index = .ok put)
        (List.range (chunkCount web file)) run.puts ∧ talk.state.db.tx = none ∧
      Filling (uploadedRow sodium web random file options encryptedMeta deployment time) run.puts (chunkCount web file)
        talk.state.db.store := by
  intro talk
  obtain ⟨description, encryptedMeta, prepared⟩ : ∃ description encryptedMeta,
      prepareUpload sodium web random file options = .ok (description, encryptedMeta) :=
    prepareUpload_returns lawful unhindered.filled unhindered.fits unhindered.defaults unhindered.short
  have limits := unhindered.declarable description encryptedMeta prepared
  have described : encryptedMeta ≠ [] := by
    obtain ⟨-, -, -, -, -, -, value⟩ := prepareUpload_ok prepared
    refine List.length_pos_iff.mp ?_
    rw [value, sealedBytes, lawful.tagged]
    omega
  obtain ⟨time, response, dated, posted, named, urls, unlocked, filling⟩ :=
    create_fills digests deployed unhindered described limits
  let request := createRequest sodium web random file options expiresAt encryptedMeta
  let run := uploadFile sodium web random file options (settledUpload (accepting response)) expiresAt
  let row := uploadedRow sodium web random file options encryptedMeta deployment time
  -- what it would do if all answers were settled
  have accepted := accepting_accepts unhindered.fits unhindered.going urls
  obtain ⟨result, returned⟩ : ∃ result, run.result = .ok result :=
    uploadFile_returns lawful accepted unhindered.filled unhindered.defaults unhindered.short
  obtain ⟨_, _, _, again, answered, value, created, sent⟩ := uploadFile_prepared returned
  cases prepared.symm.trans again
  cases answered
  have long : run.puts.length = chunkCount web file := sent.length_eq.symm.trans List.length_range
  have made : ∀ index put, run.puts[index]? = some put → index < chunkCount web file ∧
      preparedChunk sodium web random file options description.key response index = .ok put := by
    intro index put there
    obtain ⟨inside, same⟩ := List.getElem?_eq_some_iff.mp there
    have each := (List.forall₂_iff_get.mp sent).2 index (by simpa [← long] using inside) inside
    rw [List.get_eq_getElem, List.get_eq_getElem, List.getElem_range] at each
    exact ⟨long ▸ inside, same ▸ each⟩
  let program := Session.uploadFile sodium web random file options expiresAt
  obtain ⟨same, order⟩ : program.against (accepting response) = run.result ∧ program.asked (accepting response) = _ :=
    uploadFile_settled (accepting response) expiresAt
  have asked : program.asked (accepting response) =
      .create request :: List.zipWith UploadCall.put (List.range run.puts.length) run.puts := by
    rw [order, created, long]
    rfl
  have url : ∀ index put, run.puts[index]? = some put →
      put.url = buildUploadUrl deployment.gateway.ingestPublicUrl row.shortId index := by
    intro index put there
    obtain ⟨inside, prepared⟩ := made index put there
    rw [(preparedChunk_ok prepared).1, urls, List.getD_eq_getElem?_getD, List.getElem?_map, List.getElem?_range inside]
    rfl
  -- what it does, then, at the two services
  have turn : ∀ call rest world, UploadStage request row run.puts (call :: rest) world →
      (deployment.serveUpload world call).1 = accepting response call ∧
        UploadStage request row run.puts rest (deployment.serveUpload world call).2 := by
    intro call rest world reached
    refine reached.turn posted ⟨unlocked, filling run.puts⟩ long deployed.shortId
      (Nat.lt_of_le_of_lt limits.chunkCount (by norm_num)) url (fun index put there => ?_)
      fun handlers => uploadedRow_alive (unhindered.early time dated handlers)
    obtain ⟨inside, prepared⟩ := made index put there
    exact preparedChunk_sendable lawful digests deployed unhindered.filled limits.chunkSize inside prepared time
  have start : UploadStage request row run.puts (program.asked (accepting response)) (.start .empty) := .inl ⟨asked, rfl⟩
  obtain ⟨settled, ended⟩ := program.converse_follows turn start
  rcases ended with ⟨impossible, -⟩ | ⟨count, atMost, left, free, filled⟩
  · cases impossible
  · have done : count = chunkCount web file := by
      have beyond := List.drop_eq_nil_iff.mp left.symm
      rw [List.length_zipWith, List.length_range, Nat.min_self] at beyond
      omega
    refine ⟨description, encryptedMeta, time, result, response, prepared, dated, settled.trans (same.trans returned), returned, ?_,
      named, sent, free, done ▸ filled⟩
    rw [value, named]

end Upload

end SlothBox.Proofs

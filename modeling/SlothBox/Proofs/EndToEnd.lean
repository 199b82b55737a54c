import SlothBox.Proofs.Upload

/-! From one browser to the other. Whatever the servers answer, a download that returns
has returned the sender's file; and if they give back what was sent, it returns. -/

namespace SlothBox.Proofs
open Library

variable {sodium : Sodium} {config : WebConfig} {random : Randomness} {file : File} {server : DownloadServer}
  {shortId : String} {options : DownloadOptions}

/-! ### Reading a download backwards -/

theorem rethrow_ok {α : Type} {thrown : Thrown} {x : Except Thrown α} {value : α} :
    rethrow thrown x = .ok value ↔ x = .ok value := by
  cases x <;> simp [rethrow]

/-- The keys that a server can make a recipient derive: the key of the link, or what becomes of it
with the password and a salt and a cost of the server's choice. -/
inductive RecipientKey (sodium : Sodium) (fragmentKey : Bytes) (password : Option String) (key : Bytes) : Prop where
  | link (derived : deriveAeadKey sodium fragmentKey none = .ok key)
  | password {salt passwordKey : Bytes} {opsLimit memLimit : Nat}
      (stretched : deriveKeyFromPassword sodium (password.getD "") salt opsLimit memLimit = .ok passwordKey)
      (derived : deriveAeadKey sodium fragmentKey (some passwordKey) = .ok key)

theorem downloadAeadKey_ok {fragmentKey key : Bytes} {descriptor : ShareDescriptor}
    (derived : downloadAeadKey sodium fragmentKey descriptor options = .ok key) :
    RecipientKey sodium fragmentKey options.password key := by
  unfold downloadAeadKey at derived
  split at derived
  next => exact .link derived
  next =>
    simp only [bind_ok] at derived
    obtain ⟨-, -, salt, -, passwordKey, stretched, derived⟩ := derived
    exact .password stretched derived

theorem decryptShareMeta_ok {descriptor : ShareDescriptor} {key : Bytes} {protect : Bool} {shareMeta : ShareMeta}
    (opened : decryptShareMeta sodium descriptor key protect = .ok shareMeta) :
    ∃ ciphertext nonce aad metaBytes, base64UrlToBytes descriptor.encryptedMeta = .ok ciphertext ∧
      buildChunkAad "meta" 0 = .ok aad ∧ sodium.aeadDecrypt ciphertext aad nonce key = some metaBytes ∧
      parseShareMeta metaBytes = .ok shareMeta := by
  unfold decryptShareMeta at opened
  split at opened
  next => split at opened <;> cases opened
  next metaBytes decrypted =>
    simp only [openShareMeta, bind_ok] at decrypted
    obtain ⟨ciphertext, decoded, nonce, -, -, -, aad, built, decrypted⟩ := decrypted
    exact ⟨ciphertext, nonce, aad, metaBytes, decoded, built, (decryptChunk_ok.mp decrypted).2.2.2, opened⟩

theorem downloadChunk_ok {fragmentKey key plaintext : Bytes} {protect : Bool} {index : Nat}
    (downloaded : downloadChunk sodium server shortId fragmentKey key protect options index = .ok plaintext) :
    ∃ token ciphertext nonce aad, deriveChunkToken sodium fragmentKey shortId index = .ok token ∧
      (server.getChunk ⟨shortId, index, "Bearer " ++ bytesToBase64Url token⟩).read = .ok (ciphertext, nonce) ∧
      buildChunkAad shortId index = .ok aad ∧ sodium.aeadDecrypt ciphertext aad nonce key = some plaintext := by
  simp only [downloadChunk, bind_ok, rethrow_ok] at downloaded
  obtain ⟨-, -, token, derived, ⟨ciphertext, nonce⟩, read, aad, built, decrypted⟩ := downloaded
  exact ⟨token, ciphertext, nonce, aad, derived, read, built, (decryptChunk_ok.mp decrypted).2.2.2⟩

theorem downloadFile_ok {fragmentKey : Bytes} {result : DownloadResult}
    (returned : downloadFile sodium server shortId fragmentKey options = .ok result) :
    ∃ descriptor key shareMeta chunks protect, RecipientKey sodium fragmentKey options.password key ∧
      decryptShareMeta sodium descriptor key protect = .ok shareMeta ∧
      shareMeta.chunkCount.any (· ≠ .finite descriptor.chunkCount) = false ∧ descriptor.chunkCount < 2 ^ 32 ∧
      List.Forall₂
        (fun index chunk => downloadChunk sodium server shortId fragmentKey key protect options index = .ok chunk)
        (List.range descriptor.chunkCount) chunks ∧
      result.blob.bytes = chunks.flatten ∧ result.fileName = shareMeta.fileName ∧
      result.mimeType = shareMeta.mimeType := by
  simp only [downloadFile, bind_ok, throwIf_ok, mapError_ok, exists_const, mapM_ok] at returned
  obtain ⟨-, descriptor, -, key, derived, shareMeta, opened, counted, bounded, chunks, turns, -, -, same⟩ := returned
  cases same
  exact ⟨descriptor, key, shareMeta, chunks, _, downloadAeadKey_ok derived, opened, by simpa using counted,
    Nat.lt_of_not_le bounded, turns, rfl, rfl, rfl⟩

/-! ### The key in the link -/

theorem urlChar_plain {c : Char} (urlSafe : Base64.IsUrlChar c) :
    ∀ octet ∈ String.utf8EncodeChar c, Url.IsPlain octet := by
  have ascii : ∀ n < 0x80, Base64.IsUrlChar (Char.ofNat n) →
      ∀ octet ∈ String.utf8EncodeChar (Char.ofNat n), Url.IsPlain octet := by
    decide +kernel
  have plain := ascii c.toNat (urlChar_lt urlSafe)
  rw [Char.ofNat_toNat] at plain
  exact plain urlSafe

theorem extractKey_shareUrl (config : WebConfig) (random : Randomness) (shortId : String) :
    extractKeyFromHash (String.ofList (Url.fragment (shareUrl config random shortId).toList)) =
      some random.fragmentKey.val := by
  have fragment : Url.fragment (shareUrl config random shortId).toList =
      '#' :: ("key".toList ++ '=' :: Base64.encodeUrl random.fragmentKey) := by
    have text : (shareUrl config random shortId).toList =
        (config.publicUrl.toList ++ "/s/".toList ++ Url.encodeURIComponent shortId.toList) ++
          '#' :: ("key".toList ++ '=' :: Base64.encodeUrl random.fragmentKey) := by
      simp [shareUrl, bytesToBase64Url]
    rw [text]
    refine Url.fragment_append _ ?_
    simp only [List.mem_append, not_or]
    exact ⟨⟨config.noFragment, by decide⟩, Url.hash_notMem_encodeURIComponent _⟩
  have plain : ∀ octet ∈ Utf8.encode (Base64.encodeUrl random.fragmentKey), Url.IsPlain octet := by
    intro octet inside
    obtain ⟨c, member, inside⟩ := List.mem_flatMap.mp inside
    exact urlChar_plain (Base64.encodeUrl_chars _ c member) octet inside
  have found : Url.searchParam ("key".toList ++ '=' :: Base64.encodeUrl random.fragmentKey) "key" =
      some (Base64.encodeUrl random.fragmentKey) :=
    Url.searchParam_pair (by decide +kernel) plain (by decide) (by decide)
  have width : random.fragmentKey.val.length = 32 := random.fragmentKey.property
  have long : Utf16.length (bytesToBase64Url random.fragmentKey) = 43 := by
    rw [utf16_length_base64, width]
  have present : ¬ Utf16.length (String.ofList ('#' :: ("key".toList ++ '=' :: Base64.encodeUrl random.fragmentKey))) ≤ 1 := by
    rw [Utf16.length, String.toList_ofList]
    exact Nat.not_le_of_lt (Nat.succ_lt_succ (Nat.succ_pos _))
  rw [fragment, extractKeyFromHash, if_neg present, String.toList_ofList]
  simp only [List.head?_cons, ↓reduceIte, List.drop_one, List.tail_cons, found]
  rw [← bytesToBase64Url, if_neg (by omega), base64_roundtrip]
  exact if_pos width

theorem extractKeyFromHash_length {hash : String} {key : Bytes} (found : extractKeyFromHash hash = some key) : key.length = 32 := by
  unfold extractKeyFromHash at found
  split at found
  next => cases found
  next =>
    dsimp only at found
    split at found
    next => cases found
    next candidate _ =>
      split at found
      next => cases found
      next =>
        split at found
        next => cases found
        next bytes _ =>
          split at found
          next width => exact Option.some.inj found ▸ width
          next => cases found

/-! ### Uploading and downloading -/

/-- What was sealed opens again. -/
def Opens (sodium : Sodium) (call : Sealed) : Prop :=
  sodium.aeadDecrypt (sealedBytes sodium call) call.aad call.nonce call.key = some call.plaintext

section Serving
variable {uploadOptions : UploadOptions} {expiresAt : String} {description : Sealed} {encryptedMeta : Bytes}

theorem base64_ne_empty {bytes : Bytes} (filled : 0 < bytes.length) : bytesToBase64Url bytes ≠ "" := by
  intro empty
  have length := utf16_length_base64 bytes
  rw [empty] at length
  have zero : Utf16.length "" = 0 := rfl
  omega

/-- The memory limit goes to the server in KiB and comes back as the same number of bytes. -/
theorem facet_created
    (defaults : uploadOptions.passwordKdfOpsLimit = none ∧ uploadOptions.passwordKdfMemLimitBytes = none) :
    (createRequest sodium config random file uploadOptions expiresAt encryptedMeta).facet =
      if uploadOptions.hasPassword then
        .enabled (bytesToBase64Url random.passwordSalt) defaultOpsLimit (defaultMemLimitBytes / 1024)
      else .disabled := by
  unfold CreateShareRequest.facet createRequest
  rw [defaults.1, defaults.2]
  cases uploadOptions.hasPassword <;> rfl

/-- The descriptor of a stored upload passes the recipient's schema. -/
theorem descriptor_isValid (lawful : Lawful sodium)
    (defaults : uploadOptions.passwordKdfOpsLimit = none ∧ uploadOptions.passwordKdfMemLimitBytes = none)
    (prepared : prepareUpload sodium config random file uploadOptions = .ok (description, encryptedMeta)) :
    (createRequest sodium config random file uploadOptions expiresAt encryptedMeta).descriptor.isValid = true := by
  obtain ⟨filled, -, -, -, -, -, value⟩ := prepareUpload_ok prepared
  have salt : Utf16.length (bytesToBase64Url random.passwordSalt) = 22 := by
    rw [utf16_length_base64, random.passwordSalt.property]
    rfl
  have facet : ((createRequest sodium config random file uploadOptions expiresAt encryptedMeta).facet).isValid = true := by
    rw [facet_created defaults]
    split
    · simp [SharePasswordFacet.isValid, salt, defaultOpsLimit, defaultMemLimitBytes]
    · rfl
  have sealedMeta : bytesToBase64Url encryptedMeta ≠ "" := by
    refine base64_ne_empty ?_
    rw [value, sealedBytes, lawful.tagged]
    omega
  have nonce : bytesToBase64Url random.nonceMeta ≠ "" := by
    refine base64_ne_empty ?_
    rw [random.nonceMeta.property]
    decide
  have digits : (toString file.size).toList = Nat.toDigits 10 file.size := Nat.toList_repr
  have size : toString file.size ≠ "" := by
    intro empty
    rw [empty] at digits
    exact Nat.toDigits_ne_nil digits.symm
  have numeric : (toString file.size).toList.all Char.isDigit = true := by
    rw [digits, List.all_eq_true]
    exact fun c member => Nat.isDigit_of_mem_toDigits (by decide) (by decide) member
  simp only [ShareDescriptor.isValid, CreateShareRequest.descriptor, Bool.and_eq_true]
  exact ⟨⟨⟨⟨⟨⟨decide_eq_true size, numeric⟩, decide_eq_true sealedMeta⟩, decide_eq_true nonce⟩,
    decide_eq_true (chunkCount_bounds filled).1⟩, decide_eq_true config.positive⟩, facet⟩

/-- Both sides make the same key. -/
theorem downloadAeadKey_served
    (defaults : uploadOptions.passwordKdfOpsLimit = none ∧ uploadOptions.passwordKdfMemLimitBytes = none)
    (prepared : prepareUpload sodium config random file uploadOptions = .ok (description, encryptedMeta))
    (same : options.password = uploadOptions.password) :
    downloadAeadKey sodium random.fragmentKey
      (createRequest sodium config random file uploadOptions expiresAt encryptedMeta).descriptor options =
      .ok description.key := by
  obtain ⟨-, ⟨passwordKey, password, derived⟩, -⟩ := prepareUpload_ok prepared
  rw [downloadAeadKey, CreateShareRequest.descriptor, facet_created defaults]
  rw [uploadPasswordKey, defaults.1, defaults.2] at password
  cases protect : uploadOptions.hasPassword with
  | false =>
    rw [protect] at password
    cases password
    exact derived
  | true =>
    rw [protect] at password
    obtain ⟨key, stretched, rfl⟩ := map_ok.mp password
    obtain ⟨text, given, long⟩ := (Option.any_eq_true _ _).mp protect
    have filled : Utf16.length text ≠ 0 := by simpa [Nat.pos_iff_ne_zero] using long
    simp only [↓reduceIte, bind_ok, throwIf_ok, exists_const, rethrow_ok, same]
    rw [given] at stretched ⊢
    exact ⟨filled, random.passwordSalt, base64_roundtrip _, key, stretched, derived⟩

/-- The sealed description is read back. -/
theorem decryptShareMeta_served (lawful : Lawful sodium) {protect : Bool}
    (prepared : prepareUpload sodium config random file uploadOptions = .ok (description, encryptedMeta))
    (opens : Opens sodium description) :
    decryptShareMeta sodium
      (createRequest sodium config random file uploadOptions expiresAt encryptedMeta).descriptor description.key protect =
      .ok ⟨file.name, file.mimeType, some (bytesToBase64Url (hashBytes sodium file.content)),
        some (.finite (chunkCount config file))⟩ := by
  obtain ⟨filled, -, width, nonce, aad, plaintext, value⟩ := prepareUpload_ok prepared
  have opened : openShareMeta sodium
      (createRequest sodium config random file uploadOptions expiresAt encryptedMeta).descriptor description.key =
      .ok description.plaintext := by
    simp only [openShareMeta, bind_ok, throwIf_ok, exists_const]
    refine ⟨encryptedMeta, base64_roundtrip _, random.nonceMeta, base64_roundtrip _, ?_, description.aad, aad, ?_⟩
    · exact not_not.mpr random.nonceMeta.property
    · refine decryptChunk_ok.mpr ⟨width, random.nonceMeta.property, ?_, ?_⟩
      · rw [value, sealedBytes, lawful.tagged]
        omega
      · rw [value, ← nonce]
        exact opens
  rw [decryptShareMeta, opened]
  dsimp only
  rw [plaintext, parseShareMeta_metaJson filled]

theorem downloadChunk_served (lawful : Lawful sodium) {run : UploadRun UploadResult} {key : Bytes} {index : Nat}
    {put : PutChunkRequest} {call : Sealed} {protect : Bool} (held : run.puts[index]? = some put)
    (stored : StoresChunk sodium config random file key shortId index put call) (opens : Opens sodium call)
    (width : key.length = 32) (going : options.aborted index = false) :
    downloadChunk sodium run.served shortId random.fragmentKey key protect options index =
      .ok (chunkPlaintext config file index) := by
  obtain ⟨aad, plaintext⟩ := stored.seals
  have token : ∃ token, deriveChunkToken sodium random.fragmentKey shortId index = .ok token := by
    simp only [deriveChunkToken, bind_ok, throwIf_ok, exists_const, aad, Except.ok.injEq, exists_eq_left']
    exact ⟨_, not_not.mpr random.fragmentKey.property, rfl⟩
  have nonce : (random.nonce index).val.length = 24 := (random.nonce index).property
  have length : 16 ≤ put.ciphertext.length := by
    rw [stored.ciphertext, sealedBytes, lawful.tagged]
    omega
  have answer : ∀ authorization, (run.served.getChunk ⟨shortId, index, authorization⟩).read =
      .ok (put.ciphertext, (random.nonce index).val) := by
    intro authorization
    have header : put.nonce ≠ "" := by
      rw [stored.header]
      exact base64_ne_empty (by omega)
    simp only [UploadRun.served, held, ChunkAnswer.read, bind_ok, throwIf_ok, exists_const, rethrow_ok]
    refine ⟨by decide, by decide, header, random.nonce index, ?_, not_not.mpr nonce, put.ciphertext, rfl,
      Nat.not_lt.mpr length, rfl⟩
    rw [Option.getD_some, stored.header, base64_roundtrip]
  obtain ⟨token, derived⟩ := token
  simp only [downloadChunk, bind_ok, throwIf_ok, exists_const, rethrow_ok]
  refine ⟨by simp [going], token, derived, _, answer _, call.aad, aad, ?_⟩
  refine decryptChunk_ok.mpr ⟨width, nonce, length, ?_⟩
  rw [stored.ciphertext, ← stored.nonce, ← stored.key, ← plaintext]
  exact opens

/-- The hash of the pieces is the hash of the file. -/
theorem checkFileHash_served (lawful : Lawful sodium) (filled : 0 < file.size) :
    checkFileHash sodium (some (bytesToBase64Url (hashBytes sodium file.content)))
      ((List.range (chunkCount config file)).map (chunkPlaintext config file)) = .ok () := by
  rw [checkFileHash]
  split
  · rfl
  · simp only [bind_ok, throwIf_ok, rethrow_ok]
    refine ⟨_, base64_roundtrip _, not_not.mpr ?_⟩
    rw [hashChunks, lawful.incremental, chunks_content filled, hashBytes]

/-- What a returned upload stored, a download gives back. -/
theorem downloadFile_served (lawful : Lawful sodium) {uploadServer : UploadServer} {result : UploadResult}
    (defaults : uploadOptions.passwordKdfOpsLimit = none ∧ uploadOptions.passwordKdfMemLimitBytes = none)
    (returned : (uploadFile sodium config random file uploadOptions uploadServer expiresAt).result = .ok result)
    (opens : ∀ call ∈ (uploadFile sodium config random file uploadOptions uploadServer expiresAt).encrypted,
      Opens sodium call)
    (same : options.password = uploadOptions.password) (going : ∀ index, options.aborted index = false) :
    downloadFile sodium (uploadFile sodium config random file uploadOptions uploadServer expiresAt).served result.shortId
        random.fragmentKey options =
      .ok ⟨newBlob [file.content] file.mimeType, file.name, file.mimeType, uploadOptions.burnAfterRead.getD false⟩ := by
  obtain ⟨description, encryptedMeta, prepared, -, bounded, sealedMeta, created, stored⟩ := uploadFile_ok returned
  set run := uploadFile sodium config random file uploadOptions uploadServer expiresAt
  obtain ⟨filled, -, width, -⟩ := prepareUpload_ok prepared
  have fetched : fetchShareMetadata run.served result.shortId =
      .ok (createRequest sodium config random file uploadOptions expiresAt encryptedMeta).descriptor := by
    simp only [fetchShareMetadata, UploadRun.served, created, descriptor_isValid lawful defaults prepared, if_true]
  have turns : List.Forall₂ (fun index chunk =>
      downloadChunk sodium run.served result.shortId random.fragmentKey description.key
        (createRequest sodium config random file uploadOptions expiresAt encryptedMeta).descriptor.password.isEnabled
        options index = .ok chunk)
      (List.range (chunkCount config file)) ((List.range (chunkCount config file)).map (chunkPlaintext config file)) := by
    rw [List.forall₂_map_right_iff, List.forall₂_same]
    intro index listed
    obtain ⟨length, each⟩ := List.forall₂_iff_get.mp stored
    rw [List.length_range] at length
    have inside := List.mem_range.mp listed
    obtain ⟨call, member, chunk⟩ := each index (by simpa using inside) (by omega)
    rw [List.get_eq_getElem, List.getElem_range] at chunk
    exact downloadChunk_served lawful (List.getElem?_eq_getElem _) chunk (opens call member) width (going index)
  have mime : file.mimeType ≠ "" := by
    unfold File.mimeType
    split
    · decide
    · assumption
  simp only [downloadFile, bind_ok, throwIf_ok, mapError_ok, exists_const, mapM_ok]
  refine ⟨not_not.mpr random.fragmentKey.property, _, fetched, _, downloadAeadKey_served defaults prepared same, _,
    decryptShareMeta_served lawful prepared (opens _ sealedMeta), ?_, Nat.not_le.mpr bounded, _, turns, (), ?_, ?_⟩
  · simp [CreateShareRequest.descriptor, createRequest]
  · exact checkFileHash_served lawful filled
  · have whole : newBlob ((List.range (chunkCount config file)).map (chunkPlaintext config file)) file.mimeType =
        newBlob [file.content] file.mimeType := by
      simp only [newBlob, chunks_content filled, List.flatten_singleton]
    rw [if_neg mime, whole]
    rfl

end Serving

/-! ### Ciphers with known values -/

/-- The known ciphertexts; any other plaintext gets a tag of zeros. -/
def tableEncrypt (calls : List (Sealed × Bytes)) (plaintext aad nonce key : Bytes) : Bytes :=
  match calls.lookup ⟨key, nonce, aad, plaintext⟩ with
  | some ciphertext => ciphertext
  | none => plaintext ++ List.replicate 16 0

/-- Opens the known ciphertexts and nothing else. -/
def tableOpen (calls : List (Sealed × Bytes)) (ciphertext aad nonce key : Bytes) : Option Bytes :=
  (calls.find? fun call => call.1.key = key ∧ call.1.nonce = nonce ∧ call.1.aad = aad ∧ call.2 = ciphertext).map
    fun call => call.1.plaintext

def tableSodium (calls : List (Sealed × Bytes)) : Sodium :=
  { sampleSodium with aeadEncrypt := tableEncrypt calls, aeadDecrypt := tableOpen calls }

/-- A table of a cipher: tags of 16 bytes, every call sealed and opened again, and no
ciphertext twice. -/
structure Known (calls : List (Sealed × Bytes)) : Prop where
  tagged : ∀ call ∈ calls, call.2.length = call.1.plaintext.length + 16
  seals : ∀ call ∈ calls, sealedBytes (tableSodium calls) call.1 = call.2
  opens : ∀ call ∈ calls, tableOpen calls call.2 call.1.aad call.1.nonce call.1.key = some call.1.plaintext
  distinct : (calls.map Prod.snd).Nodup

section Table
variable {calls : List (Sealed × Bytes)}

theorem tableOpen_mem {ciphertext aad nonce key plaintext : Bytes}
    (opened : tableOpen calls ciphertext aad nonce key = some plaintext) :
    (⟨key, nonce, aad, plaintext⟩, ciphertext) ∈ calls := by
  obtain ⟨call, found, same⟩ := Option.map_eq_some_iff.mp opened
  have fields := List.find?_some found
  rw [decide_eq_true_eq] at fields
  obtain ⟨rfl, rfl, rfl, rfl⟩ := fields
  subst same
  exact List.mem_of_find?_eq_some found

theorem Known.lawful (known : Known calls) (opening : Bytes → Bytes → Bytes → Bytes → Option Bytes) :
    Lawful { tableSodium calls with aeadDecrypt := opening } where
  tagged plaintext aad nonce key := by
    change (tableEncrypt calls plaintext aad nonce key).length = _
    rw [tableEncrypt]
    split
    next ciphertext found =>
      obtain ⟨before, after, split, -⟩ := List.lookup_eq_some_iff.mp found
      exact known.tagged _ (split ▸ List.mem_append_cons_self)
    next => rw [List.length_append, List.length_replicate]
  incremental chunks := by
    change patched _ (chunks.foldl (fun state chunk => state ++ id chunk) []) = patched _ chunks.flatten
    rw [List.foldl_append_eq_append, List.map_id, List.nil_append]
  keyed _ _ := rfl
  stretches _ _ _ := ⟨_, rfl, rfl⟩

theorem Known.opens_calls (known : Known calls) : ∀ call ∈ calls.map Prod.fst, Opens (tableSodium calls) call := by
  intro call inside
  obtain ⟨entry, listed, rfl⟩ := List.mem_map.mp inside
  rw [Opens, known.seals entry listed]
  exact known.opens entry listed

end Table

/-- The table of the sample cipher, read once: tags of 16 bytes, no ciphertext that ends in
zero, and every call is sealed to its ciphertext and opened again. -/
theorem sampleCalls_sound : ∀ call ∈ sampleCalls, call.2.length = call.1.plaintext.length + 16 ∧
    call.2.getLast? ≠ some 0 ∧ sealedBytes sampleSodium call.1 = call.2 ∧
    sampleOpen call.2 call.1.aad call.1.nonce call.1.key = some call.1.plaintext := by
  decide +kernel

theorem sampleCalls_known : Known sampleCalls where
  tagged call inside := (sampleCalls_sound call inside).1
  seals call inside := (sampleCalls_sound call inside).2.2.1
  opens call inside := (sampleCalls_sound call inside).2.2.2
  distinct := by decide +kernel

theorem sampleSodium_lawful (opening : Bytes → Bytes → Bytes → Bytes → Option Bytes) :
    Lawful { sampleSodium with aeadDecrypt := opening } :=
  sampleCalls_known.lawful opening

theorem sampleRun_encrypted :
    (uploadFile sampleSodium sampleConfig sampleRandom sampleFile {} sampleServer "2026-01-02T00:00:00.000Z").encrypted =
      sampleCalls.map Prod.fst := by
  -- a text that has just been put together need not be taken apart again
  simp only [uploadFile, prepareUpload, stringToBytes, metaJson, bytesToBase64Url, String.toList_ofList]
  decide +kernel

/-! ### Integrity -/

/-- A cipher that opens only what somebody has sealed, under the same key, nonce and
additional data, and then gives back what was sealed. -/
def IdealAead (sodium : Sodium) (produced : Sealed → Prop) : Prop :=
  ∀ ciphertext aad nonce key plaintext, sodium.aeadDecrypt ciphertext aad nonce key = some plaintext →
    produced ⟨key, nonce, aad, plaintext⟩

/-- No server can make a download return anything but the sender's file, if only the
share is not called `meta`: not by another descriptor, not by other chunks, not by
switching the password on or off. Other shares are sealed under other keys than those that
this link and this password can lead to. -/
theorem download_authentic (sodium : Sodium) (config : WebConfig) (random : Randomness) (file : File)
    (uploadOptions : UploadOptions) (uploadServer : UploadServer) (expiresAt shortId : String)
    (server : DownloadServer) (options : DownloadOptions)
    (named : ∀ request response, uploadServer.createShare request = .ok response → response.shortId = shortId)
    (distinct : shortId ≠ "meta") (produced : Sealed → Prop) (ideal : IdealAead sodium produced)
    (others : ∀ call, produced call →
      call ∈ (uploadFile sodium config random file uploadOptions uploadServer expiresAt).encrypted ∨
        ¬RecipientKey sodium random.fragmentKey options.password call.key)
    (result : DownloadResult)
    (returned : downloadFile sodium server shortId random.fragmentKey options = .ok result) :
    result.blob.bytes = file.content ∧ result.fileName = file.name ∧ result.mimeType = file.mimeType := by
  obtain ⟨descriptor, key, shareMeta, chunks, protect, derived, opened, counted, bounded, turns, blob, fileName,
    mimeType⟩ := downloadFile_ok returned
  -- whatever opens under the recipient's key was sealed by this upload
  have own : ∀ ciphertext aad nonce plaintext, sodium.aeadDecrypt ciphertext aad nonce key = some plaintext →
      ⟨key, nonce, aad, plaintext⟩ ∈ (uploadFile sodium config random file uploadOptions uploadServer expiresAt).encrypted := by
    intro ciphertext aad nonce plaintext decrypted
    rcases others _ (ideal _ _ _ _ _ decrypted) with inside | foreign
    · exact inside
    · exact absurd derived foreign
  obtain ⟨ciphertext, nonce, aad, metaBytes, -, built, decrypted, parsed⟩ := decryptShareMeta_ok opened
  obtain ⟨filled, description | ⟨request, response, index, created, small, aadBuilt, -⟩⟩ :=
    uploadFile_encrypted (own _ _ _ _ decrypted)
  · obtain ⟨-, same⟩ := description
    dsimp only at same
    rw [same, parseShareMeta_metaJson filled] at parsed
    cases Except.ok.inj parsed
    have count : chunkCount config file = descriptor.chunkCount := by
      simpa using counted
    refine ⟨?_, fileName, mimeType⟩
    have slices : chunks = (List.range descriptor.chunkCount).map (chunkPlaintext config file) := by
      refine eq_map_of_forall₂ turns fun index listed chunk downloaded => ?_
      obtain ⟨-, ciphertext, nonce, aad, -, -, named', decrypted⟩ := downloadChunk_ok downloaded
      have inside := List.mem_range.mp listed
      obtain ⟨-, ⟨metaBuilt, -⟩ | ⟨request, response, slot, created, small, chunkBuilt, plaintext⟩⟩ :=
        uploadFile_encrypted (own _ _ _ _ decrypted)
      · exact absurd (buildChunkAad_inj named' metaBuilt (by omega) (by decide)).1 distinct
      · rw [named _ _ created] at chunkBuilt
        obtain ⟨-, rfl⟩ := buildChunkAad_inj named' chunkBuilt (by omega) small
        exact plaintext
    rw [blob, slices, ← count, chunks_content filled]
  · exact absurd (buildChunkAad_inj aadBuilt built small (by decide)).1 (named _ _ created ▸ distinct)

/-- A chunk of another share, under its own key, with its ciphertext. -/
def foreignCall : Sealed × Bytes :=
  (⟨List.replicate 32 9, List.replicate 24 4, u16be 12 ++ stringToBytes "pqrstuvwxyz2" ++ u32be 0, [110, 111]⟩,
    [144, 163, 35, 94, 197, 240, 183, 201, 10, 14, 38, 102, 235, 127, 235, 222, 12, 30])

/-- The small upload and the other share. -/
def sharedCalls : List (Sealed × Bytes) := foreignCall :: sampleCalls

theorem sharedCalls_known : Known sharedCalls where
  tagged := by decide +kernel
  seals := by decide +kernel
  opens := by decide +kernel
  distinct := by decide +kernel

theorem sharedRun_encrypted :
    (uploadFile (tableSodium sharedCalls) sampleConfig sampleRandom sampleFile {} sampleServer
      "2026-01-02T00:00:00.000Z").encrypted = sampleCalls.map Prod.fst := by
  simp only [uploadFile, prepareUpload, stringToBytes, metaJson, bytesToBase64Url, String.toList_ofList]
  decide +kernel

/-- Without a password there is no key but the link's. -/
theorem foreign_unreached :
    ¬RecipientKey (tableSodium sharedCalls) sampleRandom.fragmentKey none foreignCall.1.key := by
  rintro (derived | ⟨stretched, -⟩)
  · revert derived
    decide +kernel
  · simp only [deriveKeyFromPassword, bind_ok, throwIf_ok] at stretched
    obtain ⟨-, -, -, filled, -⟩ := stretched
    exact filled rfl

/-- The small file comes back from servers that serve what they were sent, while they hold
ciphertexts of another share too. -/
theorem download_authentic_sample :
    ∃ download, downloadFile (tableSodium sharedCalls)
        (uploadFile (tableSodium sharedCalls) sampleConfig sampleRandom sampleFile {} sampleServer
          "2026-01-02T00:00:00.000Z").served "abcdefghjkmn" sampleRandom.fragmentKey {} = .ok download ∧
      download.blob.bytes = [104, 105, 33] ∧ download.fileName = "a.txt" ∧ download.mimeType = "text/plain" := by
  have lawful : Lawful (tableSodium sharedCalls) := sharedCalls_known.lawful (tableOpen sharedCalls)
  have named : ∀ request response, sampleServer.createShare request = .ok response →
      response.shortId = "abcdefghjkmn" := by
    intro request response created
    simp only [sampleServer] at created
    split at created
    · cases created
      rfl
    · cases created
  have opens : ∀ call ∈ sampleCalls.map Prod.fst, Opens (tableSodium sharedCalls) call := fun call inside =>
    sharedCalls_known.opens_calls call (List.mem_cons_of_mem _ inside)
  have ideal : IdealAead (tableSodium sharedCalls) (· ∈ sharedCalls.map Prod.fst) := by
    intro ciphertext aad nonce key plaintext opened
    exact List.mem_map_of_mem (tableOpen_mem opened)
  obtain ⟨result, returned⟩ := uploadFile_returns lawful sampleServer_accepts (by decide) ⟨rfl, rfl⟩ nofun
  obtain ⟨request, response, created, same⟩ := uploadFile_named returned
  rw [named request response created] at same
  have served : downloadFile (tableSodium sharedCalls) _ result.shortId sampleRandom.fragmentKey {} = _ :=
    downloadFile_served lawful ⟨rfl, rfl⟩ returned (sharedRun_encrypted ▸ opens) rfl fun _ => rfl
  rw [same] at served
  refine ⟨_, served, download_authentic (tableSodium sharedCalls) sampleConfig sampleRandom sampleFile {} sampleServer
    "2026-01-02T00:00:00.000Z" _ _ {} named (by decide) _ ideal (fun call inside => ?_) _ served⟩
  rcases List.mem_cons.mp inside with foreign | own
  · exact .inr (foreign ▸ foreign_unreached)
  · exact .inl (sharedRun_encrypted ▸ own)

/-- Upload then download is the identity, with no password or any that the key derivation
takes: an upload that nothing outside the browser stops returns, and from whatever a
returned upload has left with the servers, the link and the password give back the file. -/
theorem upload_download_identity (sodium : Sodium) (lawful : Lawful sodium)
    (opens : ∀ plaintext aad nonce key,
      sodium.aeadDecrypt (sodium.aeadEncrypt plaintext aad nonce key) aad nonce key = some plaintext) (config : WebConfig)
    (random : Randomness) (file : File) (filled : file.content ≠ []) (options : UploadOptions)
    (defaults : options.passwordKdfOpsLimit = none ∧ options.passwordKdfMemLimitBytes = none)
    (short : ∀ password, options.password = some password → (stringToBytes password).length ≤ 4096)
    (server : UploadServer) (expiresAt : String) :
    (Accepted config file options server →
      ∃ result, (uploadFile sodium config random file options server expiresAt).result = .ok result) ∧
    ∀ result, (uploadFile sodium config random file options server expiresAt).result = .ok result →
      extractKeyFromHash (String.ofList (Url.fragment result.shareUrl.toList)) = some random.fragmentKey.val ∧
      ∃ download, downloadFile sodium (uploadFile sodium config random file options server expiresAt).served
          result.shortId random.fragmentKey { password := options.password } = .ok download ∧
        download.blob.bytes = file.content ∧ download.fileName = file.name ∧
        download.mimeType = if file.type = "" then "application/octet-stream" else file.type := by
  constructor
  · intro accepted
    exact uploadFile_returns lawful accepted (List.length_pos_iff.mpr filled) defaults short
  · intro result returned
    obtain ⟨-, -, -, url, -⟩ := uploadFile_ok returned
    refine ⟨url ▸ extractKey_shareUrl config random result.shortId, _,
      downloadFile_served lawful defaults returned (fun call _ => opens _ _ _ _) rfl fun _ => rfl, ?_, rfl, rfl⟩
    exact List.append_nil _

/-- Opens whatever `sampleEncrypt` has sealed. -/
def sampleOpenAll (ciphertext aad nonce key : Bytes) : Option Bytes :=
  (sampleOpen ciphertext aad nonce key).or
    (if ciphertext.getLast? = some 0 then some (ciphertext.take (ciphertext.length - 16)) else none)

theorem sampleOpenAll_encrypt (plaintext aad nonce key : Bytes) :
    sampleOpenAll (sampleEncrypt plaintext aad nonce key) aad nonce key = some plaintext := by
  rw [sampleEncrypt]
  split
  next ciphertext found =>
    obtain ⟨before, after, calls, -⟩ := List.lookup_eq_some_iff.mp found
    obtain ⟨-, -, -, opened⟩ :=
      sampleCalls_sound (⟨key, nonce, aad, plaintext⟩, ciphertext) (calls ▸ List.mem_append_cons_self)
    rw [sampleOpenAll, opened, Option.some_or]
  next =>
    have last : (plaintext ++ List.replicate 16 0).getLast? = some 0 := by
      rw [List.getLast?_append]
      rfl
    have closed : sampleOpen (plaintext ++ List.replicate 16 0) aad nonce key = none := by
      rw [sampleOpen, Option.map_eq_none_iff, List.find?_eq_none]
      intro call inside
      rw [decide_eq_true_eq]
      intro fields
      exact (sampleCalls_sound call inside).2.1 (fields.2.2.2 ▸ last)
    rw [sampleOpenAll, closed, Option.none_or, if_pos last, List.length_append, List.length_replicate,
      Nat.add_sub_cancel, List.take_left]

/-- The small file is uploaded, and comes back through its link. -/
theorem upload_download_identity_sample :
    ∃ result download,
      (uploadFile { sampleSodium with aeadDecrypt := sampleOpenAll } sampleConfig sampleRandom sampleFile {} sampleServer
        "2026-01-02T00:00:00.000Z").result = .ok result ∧
      extractKeyFromHash (String.ofList (Url.fragment result.shareUrl.toList)) = some (List.replicate 32 7) ∧
      downloadFile { sampleSodium with aeadDecrypt := sampleOpenAll }
        (uploadFile { sampleSodium with aeadDecrypt := sampleOpenAll } sampleConfig sampleRandom sampleFile {} sampleServer
          "2026-01-02T00:00:00.000Z").served result.shortId sampleRandom.fragmentKey {} = .ok download ∧
      download.blob.bytes = [104, 105, 33] ∧ download.fileName = "a.txt" ∧ download.mimeType = "text/plain" := by
  obtain ⟨uploads, downloads⟩ := upload_download_identity _ (sampleSodium_lawful sampleOpenAll) sampleOpenAll_encrypt
    sampleConfig sampleRandom sampleFile (by decide) {} ⟨rfl, rfl⟩ nofun sampleServer "2026-01-02T00:00:00.000Z"
  obtain ⟨result, returned⟩ := uploads sampleServer_accepts
  obtain ⟨key, download, downloaded, bytes, name, type⟩ := downloads result returned
  exact ⟨result, download, returned, key, downloaded, bytes, name, type⟩

end SlothBox.Proofs

import SlothBox.Proofs.EndToEnd
import SlothBox.Proofs.Tokens

/-! What the byte layouts keep apart: shares and indices in the additional data, tokens
and keys in what is hashed, and chunks and the description of the file, which is sealed
under a name of its own, unless the gateway gives a share that name. -/

namespace SlothBox.Proofs
open Library

/-! ### Layouts -/

/-- The message whose digest is the token of a chunk, whatever the hash function. -/
def HashedForToken (fragmentKey : Bytes) (shortId : String) (index : Nat) (message : Bytes) : Prop :=
  ∀ sodium, deriveChunkToken sodium fragmentKey shortId index = .ok (sodium.sha256 message)

/-- The message whose keyed digest is the key of the ciphertexts, whatever the hash function. -/
def HashedForKey (fragmentKey passwordKey message : Bytes) : Prop :=
  ∀ sodium, deriveAeadKey sodium fragmentKey (some passwordKey) = .ok (sodium.keyedHash message fragmentKey)

/-- Hash functions that show what they are given. -/
def transparentSodium : Sodium := { sampleSodium with sha256 := id, keyedHash := fun message _ => message }

theorem hashedForToken_iff {fragmentKey message : Bytes} {shortId : String} {index : Nat} :
    HashedForToken fragmentKey shortId index message ↔ fragmentKey.length = 32 ∧
      ∃ aad, buildChunkAad shortId index = .ok aad ∧ message = tokenInput fragmentKey aad := by
  constructor
  · intro hashed
    exact deriveChunkToken_ok.mp (hashed transparentSodium)
  · intro layout sodium
    obtain ⟨width, aad, built, rfl⟩ := layout
    exact deriveChunkToken_ok.mpr ⟨width, aad, built, rfl⟩

theorem hashedForKey_iff {fragmentKey passwordKey message : Bytes} :
    HashedForKey fragmentKey passwordKey message ↔
      fragmentKey.length = 32 ∧ passwordKey.length = 32 ∧ message = aeadKdfLabel ++ [0] ++ passwordKey := by
  have derived : ∀ sodium, deriveAeadKey sodium fragmentKey (some passwordKey) = .ok (sodium.keyedHash message fragmentKey) ↔
      fragmentKey.length = 32 ∧ passwordKey.length = 32 ∧
        sodium.keyedHash message fragmentKey = sodium.keyedHash (aeadKdfLabel ++ [0] ++ passwordKey) fragmentKey := by
    intro sodium
    simp only [deriveAeadKey, bind_ok, throwIf_ok, not_not, exists_const, pure, Except.pure, Except.ok.injEq]
    exact and_congr_right fun _ => and_congr_right fun _ => eq_comm
  constructor
  · intro hashed
    exact (derived transparentSodium).mp (hashed transparentSodium)
  · intro layout sodium
    obtain ⟨width, width', rfl⟩ := layout
    exact (derived sodium).mpr ⟨width, width', rfl⟩

theorem buildChunkAad_long {shareId : String} (index : Nat) (long : 0xffff < (stringToBytes shareId).length) :
    buildChunkAad shareId index = .error (.error "shareId too long for AAD length prefix") := by
  rw [buildChunkAad, throwIf, if_pos long]
  rfl

theorem hashedForToken_inj {fragmentKey fragmentKey' message : Bytes} {first second : String} {i j : Nat}
    (small : i < 2 ^ 32) (small' : j < 2 ^ 32) (token : HashedForToken fragmentKey first i message)
    (token' : HashedForToken fragmentKey' second j message) : fragmentKey = fragmentKey' ∧ first = second ∧ i = j := by
  obtain ⟨width, aad, built, layout⟩ := hashedForToken_iff.mp token
  obtain ⟨width', aad', built', layout'⟩ := hashedForToken_iff.mp token'
  obtain ⟨keys, rfl⟩ := tokenInput_inj width width' (layout.symm.trans layout')
  exact ⟨keys, buildChunkAad_inj built built' small small'⟩

/-- A message that is hashed for a token is longer than any that is hashed for a key. -/
theorem token_apart {fragmentKey passwordKey message other : Bytes} {shortId : String} {index : Nat}
    (token : HashedForToken fragmentKey shortId index message) : ¬HashedForKey other passwordKey message := by
  intro key
  obtain ⟨width, aad, built, layout⟩ := hashedForToken_iff.mp token
  obtain ⟨-, width', layout'⟩ := hashedForKey_iff.mp key
  have labels : chunkTokenLabel.length = 23 ∧ aeadKdfLabel.length = 20 := by decide +kernel
  have lengths := congrArg List.length (layout.symm.trans layout')
  simp only [tokenInput, List.length_append, List.length_singleton, width, width', labels] at lengths
  omega

/-- The additional data of chunks is injective for names of at most 65535 octets and is
refused for longer ones; so is what is hashed for a token, which is never hashed for a key. -/
theorem layouts_injective :
    (∀ (first second : String) (i j : Nat), (stringToBytes first).length ≤ 0xffff → (stringToBytes second).length ≤ 0xffff →
      i < 2 ^ 32 → j < 2 ^ 32 → buildChunkAad first i = buildChunkAad second j → first = second ∧ i = j) ∧
    (∀ (shareId : String) (index : Nat), 0xffff < (stringToBytes shareId).length →
      buildChunkAad shareId index = .error (.error "shareId too long for AAD length prefix")) ∧
    (∀ (fragmentKey : Bytes) (shortId : String) (index : Nat), fragmentKey.length = 32 →
      (stringToBytes shortId).length ≤ 0xffff → ∃ message, HashedForToken fragmentKey shortId index message) ∧
    (∀ (fragmentKey fragmentKey' : Bytes) (first second : String) (i j : Nat) (message : Bytes), i < 2 ^ 32 → j < 2 ^ 32 →
      HashedForToken fragmentKey first i message → HashedForToken fragmentKey' second j message →
        fragmentKey = fragmentKey' ∧ first = second ∧ i = j) ∧
    ∀ (fragmentKey : Bytes) (shortId : String) (index : Nat) (message other passwordKey : Bytes),
      HashedForToken fragmentKey shortId index message → ¬HashedForKey other passwordKey message := by
  refine ⟨?_, fun _ => buildChunkAad_long, ?_, fun _ _ _ _ _ _ _ => hashedForToken_inj, fun _ _ _ _ _ _ => token_apart⟩
  · intro first second i j short short' small small' same
    have built : buildChunkAad first i = .ok _ := buildChunkAad_ok.mpr ⟨short, rfl⟩
    exact buildChunkAad_inj built (same ▸ built) small small'
  · intro fragmentKey shortId index width short
    exact ⟨_, hashedForToken_iff.mpr ⟨width, _, buildChunkAad_ok.mpr ⟨short, rfl⟩, rfl⟩⟩

/-! ### The description and the chunks -/

section Domains
variable {sodium : Sodium} {config : WebConfig} {random : Randomness} {file : File} {options : UploadOptions}
  {server : UploadServer} {expiresAt : String} {description : Sealed} {encryptedMeta : Bytes}
  {response : CreateShareResponse}

/-- The upload has its share: the description is sealed, and the gateway's response has a
URL for each chunk. -/
structure Proceeds (sodium : Sodium) (config : WebConfig) (random : Randomness) (file : File) (options : UploadOptions)
    (server : UploadServer) (expiresAt : String) (description : Sealed) (encryptedMeta : Bytes)
    (response : CreateShareResponse) : Prop where
  prepared : prepareUpload sodium config random file options = .ok (description, encryptedMeta)
  created : server.createShare (createRequest sodium config random file options expiresAt encryptedMeta) = .ok response
  counted : response.uploadUrls.length = chunkCount config file

/-- A cipher whose ciphertexts open only under the key, the nonce and the additional data
they were sealed with. -/
def Binding (sodium : Sodium) (calls : List Sealed) : Prop :=
  ∀ call ∈ calls, ∀ aad nonce key plaintext,
    sodium.aeadDecrypt (sealedBytes sodium call) aad nonce key = some plaintext →
      key = call.key ∧ nonce = call.nonce ∧ aad = call.aad

/-- The turn of the download loop for a chunk is answered with these bytes. -/
def Answered (sodium : Sodium) (server : DownloadServer) (shortId : String) (fragmentKey : Bytes) (index : Nat)
    (body : Bytes) : Prop :=
  ∃ header status nonce, chunkAuthorization sodium fragmentKey shortId index = .ok header ∧
    server.getChunk ⟨shortId, index, header⟩ = .response status nonce (some body)

/-- The description of a file and its chunks do not stand in for each other. -/
structure Apart (sodium : Sodium) (shortId : String) (description : Sealed) (chunks : List Sealed) : Prop where
  sealedApart : ∀ call ∈ chunks, call.key = description.key → call.aad ≠ description.aad
  /-- No chunk is read as a description, whoever asks with whatever key. -/
  describes : ∀ call ∈ chunks, ∀ descriptor key protect,
    base64UrlToBytes descriptor.encryptedMeta = .ok (sealedBytes sodium call) →
      ∀ shareMeta, decryptShareMeta sodium descriptor key protect ≠ .ok shareMeta
  /-- No turn of `downloadFile` takes the description for a chunk. -/
  delivers : ∀ server fragmentKey key protect options index, index < 2 ^ 32 →
    Answered sodium server shortId fragmentKey index (sealedBytes sodium description) →
      ∀ plaintext, downloadChunk sodium server shortId fragmentKey key protect options index ≠ .ok plaintext

theorem Proceeds.encrypted (proceeds : Proceeds sodium config random file options server expiresAt description
      encryptedMeta response) :
    (uploadFile sodium config random file options server expiresAt).encrypted = description ::
      (uploadChunks sodium config random file options server description.key response
        (List.range (chunkCount config file))).encrypted := by
  rw [uploadFile, proceeds.prepared]
  dsimp only
  rw [proceeds.created]
  dsimp only
  have counted : response.uploadUrls.length =
      (createRequest sodium config random file options expiresAt encryptedMeta).chunkCount := proceeds.counted
  rw [if_neg (not_not.mpr counted)]
  rfl

theorem Proceeds.description_mem (proceeds : Proceeds sodium config random file options server expiresAt description
      encryptedMeta response) :
    description ∈ (uploadFile sodium config random file options server expiresAt).encrypted := by
  rw [proceeds.encrypted]
  exact List.mem_cons_self

/-- The additional data of a chunk is that of the description for one name only. -/
theorem Proceeds.aad_ne (proceeds : Proceeds sodium config random file options server expiresAt description
      encryptedMeta response) (distinct : response.shortId ≠ "meta") {aad : Bytes} {index : Nat} (small : index < 2 ^ 32)
    (built : buildChunkAad response.shortId index = .ok aad) : aad ≠ description.aad := by
  obtain ⟨-, -, -, -, reserved, -⟩ := prepareUpload_ok proceeds.prepared
  rintro rfl
  exact distinct (buildChunkAad_inj built reserved small (by decide)).1

theorem Proceeds.chunk_aad (proceeds : Proceeds sodium config random file options server expiresAt description
      encryptedMeta response) {call : Sealed}
    (inside : call ∈ (uploadFile sodium config random file options server expiresAt).encrypted.tail) :
    ∃ index < 2 ^ 32, buildChunkAad response.shortId index = .ok call.aad := by
  rw [proceeds.encrypted, List.tail_cons] at inside
  obtain ⟨index, listed, built, -⟩ := uploadChunks_encrypted inside
  refine ⟨index, ?_, built⟩
  rw [List.mem_range, ← proceeds.counted] at listed
  exact Nat.lt_trans listed response.bounded

theorem read_response {status : Nat} {header : Option String} {body ciphertext nonce : Bytes}
    (read : (ChunkAnswer.response status header (some body)).read = .ok (ciphertext, nonce)) : ciphertext = body := by
  simp only [ChunkAnswer.read, bind_ok] at read
  obtain ⟨-, -, -, -, -, -, nonce', -, -, -, other, same, -, -, read⟩ := read
  cases same
  cases read
  rfl

/-- Under any other name than that of the description, nothing stands in for anything. -/
theorem apart_of_ne (proceeds : Proceeds sodium config random file options server expiresAt description
      encryptedMeta response)
    (binding : Binding sodium (uploadFile sodium config random file options server expiresAt).encrypted)
    (distinct : response.shortId ≠ "meta") :
    Apart sodium response.shortId description
      (uploadFile sodium config random file options server expiresAt).encrypted.tail where
  sealedApart call inside _ := by
    obtain ⟨index, small, built⟩ := proceeds.chunk_aad inside
    exact proceeds.aad_ne distinct small built
  describes call inside descriptor key protect decoded shareMeta opened := by
    obtain ⟨ciphertext, nonce, aad, metaBytes, decoded', reserved, decrypted, -⟩ := decryptShareMeta_ok opened
    obtain rfl := Except.ok.inj (decoded.symm.trans decoded')
    obtain ⟨-, -, rfl⟩ := binding call (List.mem_of_mem_tail inside) _ _ _ _ decrypted
    obtain ⟨index, small, built⟩ := proceeds.chunk_aad inside
    exact distinct (buildChunkAad_inj built reserved small (by decide)).1
  delivers other fragmentKey key protect asked index small answered plaintext downloaded := by
    obtain ⟨token, ciphertext, nonce, aad, derived, read, built, decrypted⟩ := downloadChunk_ok downloaded
    obtain ⟨header, status, nonceHeader, sends, answer⟩ := answered
    obtain ⟨token', derived', rfl⟩ := map_ok.mp sends
    obtain rfl := Except.ok.inj (derived.symm.trans derived')
    rw [answer] at read
    obtain rfl := read_response read
    obtain ⟨-, -, same⟩ := binding description proceeds.description_mem _ _ _ _ decrypted
    exact proceeds.aad_ne distinct small built same

/-- A server that answers every request for a chunk with the sealed description. -/
def describing (random : Randomness) (encryptedMeta : Bytes) : DownloadServer where
  getShare _ := .error "share not found"
  getChunk _ := .response 200 (some (bytesToBase64Url random.nonceMeta)) (some encryptedMeta)

/-- A share with the name of the description takes it for its first chunk. -/
theorem description_delivered (lawful : Lawful sodium) (opens : Opens sodium description)
    (prepared : prepareUpload sodium config random file options = .ok (description, encryptedMeta)) :
    downloadChunk sodium (describing random encryptedMeta) "meta" random.fragmentKey description.key false {} 0 =
      .ok description.plaintext := by
  obtain ⟨-, -, width, nonce, reserved, -, value⟩ := prepareUpload_ok prepared
  have nonceWidth : random.nonceMeta.val.length = 24 := random.nonceMeta.property
  have long : 16 ≤ encryptedMeta.length := by
    rw [value, sealedBytes, lawful.tagged]
    omega
  have read : (ChunkAnswer.response 200 (some (bytesToBase64Url random.nonceMeta)) (some encryptedMeta)).read =
      .ok (encryptedMeta, random.nonceMeta.val) := by
    have header : bytesToBase64Url random.nonceMeta ≠ "" := base64_ne_empty (by omega)
    simp only [ChunkAnswer.read, bind_ok, throwIf_ok, exists_const, rethrow_ok, Option.getD_some]
    exact ⟨by decide, by decide, header, _, base64_roundtrip _, not_not.mpr nonceWidth, _, rfl, Nat.not_lt.mpr long, rfl⟩
  simp only [downloadChunk, bind_ok, throwIf_ok, exists_const, rethrow_ok]
  refine ⟨by simp, _, deriveChunkToken_ok.mpr ⟨random.fragmentKey.property, _, reserved, rfl⟩, _, read, _, reserved, ?_⟩
  refine decryptChunk_ok.mpr ⟨width, nonceWidth, long, ?_⟩
  rw [value, ← nonce]
  exact opens

/-- The loop seals its next chunk, however it goes on. -/
theorem uploadChunks_seals {aeadKey ciphertext : Bytes} {index : Nat} {rest : List Nat} {call : Sealed}
    (going : options.aborted index = false)
    (done : sealChunk sodium config random file aeadKey response.shortId index = .ok (call, ciphertext)) :
    call ∈ (uploadChunks sodium config random file options server aeadKey response (index :: rest)).encrypted := by
  rw [uploadChunks, if_neg (by simp [going]), done]
  dsimp only
  split
  next => exact List.mem_singleton_self _
  next =>
    split
    next => exact List.mem_singleton_self _
    next => exact List.mem_cons_self

/-- In a share with the name of the description, so is the first chunk sealed, unless the
sender cancels before it. -/
theorem first_chunk_shares (proceeds : Proceeds sodium config random file options server expiresAt description
      encryptedMeta response) (named : response.shortId = "meta") (going : options.aborted 0 = false) :
    ∃ call ∈ (uploadFile sodium config random file options server expiresAt).encrypted.tail,
      call.key = description.key ∧ call.aad = description.aad := by
  obtain ⟨filled, -, width, -, reserved, -⟩ := prepareUpload_ok proceeds.prepared
  obtain ⟨ciphertext, done⟩ : ∃ ciphertext, sealChunk sodium config random file description.key response.shortId 0 =
      .ok (⟨description.key, random.nonce 0, description.aad, chunkPlaintext config file 0⟩, ciphertext) := by
    simp only [sealChunk, bind_ok, named]
    exact ⟨_, _, reserved, _, encryptChunk_ok.mpr ⟨width, (random.nonce 0).property, rfl⟩, rfl⟩
  obtain ⟨more, pieces⟩ : ∃ more, chunkCount config file = more + 1 :=
    Nat.exists_eq_succ_of_ne_zero (Nat.ne_of_gt (@chunkCount_bounds config file filled).1)
  rw [proceeds.encrypted, List.tail_cons, pieces, List.range_succ_eq_map]
  exact ⟨_, uploadChunks_seals going done, rfl, rfl⟩

/-- The description and the chunks are apart if and only if the gateway gives the share
another name than `meta`. -/
theorem apart_iff (lawful : Lawful sodium)
    (proceeds : Proceeds sodium config random file options server expiresAt description encryptedMeta response)
    (opens : ∀ call ∈ (uploadFile sodium config random file options server expiresAt).encrypted, Opens sodium call)
    (binding : Binding sodium (uploadFile sodium config random file options server expiresAt).encrypted) :
    Apart sodium response.shortId description
        (uploadFile sodium config random file options server expiresAt).encrypted.tail ↔ response.shortId ≠ "meta" := by
  constructor
  · intro apart named
    rw [named] at apart
    obtain ⟨-, -, -, -, reserved, -, value⟩ := prepareUpload_ok proceeds.prepared
    have token : deriveChunkToken sodium random.fragmentKey "meta" 0 = .ok _ :=
      deriveChunkToken_ok.mpr ⟨random.fragmentKey.property, _, reserved, rfl⟩
    have answered : Answered sodium (describing random encryptedMeta) "meta" random.fragmentKey 0
        (sealedBytes sodium description) := by
      rw [← value]
      exact ⟨_, _, _, congrArg _ token, rfl⟩
    exact apart.delivers _ _ _ _ _ _ (by decide) answered _
      (description_delivered lawful (opens _ proceeds.description_mem) proceeds.prepared)
  · exact apart_of_ne proceeds binding

end Domains

/-! ### A share with the name of the description -/

theorem Known.binding {calls : List (Sealed × Bytes)} (known : Known calls) :
    Binding (tableSodium calls) (calls.map Prod.fst) := by
  intro call inside aad nonce key plaintext opened
  obtain ⟨entry, listed, rfl⟩ := List.mem_map.mp inside
  rw [known.seals entry listed] at opened
  have same := List.inj_on_of_nodup_map known.distinct (tableOpen_mem opened) listed rfl
  rw [← same]
  exact ⟨rfl, rfl, rfl⟩

/-- The calls for the small file in a share with the name of the description. -/
def renamedCalls : List (Sealed × Bytes) :=
  let name := u16be 4 ++ stringToBytes "meta"
  sampleCalls.take 1 ++
    [(⟨List.replicate 32 7, List.replicate 24 2, name ++ u32be 0, [104, 105]⟩,
      [178, 216, 6, 253, 240, 53, 35, 250, 61, 19, 33, 169, 119, 129, 202, 24, 137, 171]),
    (⟨List.replicate 32 7, List.replicate 24 3, name ++ u32be 1, [33]⟩,
      [165, 96, 40, 72, 63, 37, 201, 97, 138, 151, 35, 160, 110, 193, 131, 63, 222])]

theorem renamedCalls_sound : (∀ call ∈ renamedCalls, call.2.length = call.1.plaintext.length + 16 ∧
    sealedBytes (tableSodium renamedCalls) call.1 = call.2 ∧
    tableOpen renamedCalls call.2 call.1.aad call.1.nonce call.1.key = some call.1.plaintext) ∧
      (renamedCalls.map Prod.snd).Nodup := by
  decide +kernel

theorem renamedCalls_known : Known renamedCalls where
  tagged call inside := (renamedCalls_sound.1 call inside).1
  seals call inside := (renamedCalls_sound.1 call inside).2.1
  opens call inside := (renamedCalls_sound.1 call inside).2.2
  distinct := renamedCalls_sound.2

private theorem urls_bounded (request : CreateShareRequest) (bounded : request.chunkCount < 2 ^ 32) :
    (List.replicate request.chunkCount "https://ingest.local/chunk").length < 2 ^ 32 := by
  rw [List.length_replicate]
  exact bounded

/-- A gateway that gives every share one name. -/
def namingServer (name : String) (named : 1 ≤ Utf16.length name ∧ Utf16.length name ≤ 64) : UploadServer where
  createShare request :=
    if bounded : request.chunkCount < 2 ^ 32 then
      .ok ⟨name, List.replicate request.chunkCount "https://ingest.local/chunk", named,
        urls_bounded request bounded⟩
    else .error "too many chunks"
  putChunk _ _ := .response 204

theorem small_proceeds {calls : List (Sealed × Bytes)} (known : Known calls) (name : String)
    (named : 1 ≤ Utf16.length name ∧ Utf16.length name ≤ 64) (expiresAt : String) :
    ∃ description encryptedMeta response, response.shortId = name ∧
      Proceeds (tableSodium calls) sampleConfig sampleRandom sampleFile {} (namingServer name named) expiresAt
        description encryptedMeta response := by
  obtain ⟨description, encryptedMeta, prepared⟩ := @prepareUpload_returns _ sampleConfig sampleRandom sampleFile {}
    (known.lawful _) (by decide) (by decide) ⟨rfl, rfl⟩ nofun
  have count : chunkCount sampleConfig sampleFile < 2 ^ 32 :=
    Nat.lt_of_le_of_lt (chunkCount_bounds (by decide)).2.1 (by decide)
  exact ⟨description, encryptedMeta, _, rfl, prepared, dif_pos count, List.length_replicate⟩

def smallRun (calls : List (Sealed × Bytes)) (name : String)
    (named : 1 ≤ Utf16.length name ∧ Utf16.length name ≤ 64) : UploadRun UploadResult :=
  uploadFile (tableSodium calls) sampleConfig sampleRandom sampleFile {} (namingServer name named)
    "2026-01-02T00:00:00.000Z"

theorem meta_sized : 1 ≤ Utf16.length "meta" ∧ Utf16.length "meta" ≤ 64 := by decide

theorem renamedRun_encrypted :
    (smallRun renamedCalls "meta" meta_sized).encrypted = renamedCalls.map Prod.fst := by
  -- as in the run under another name
  simp only [smallRun, uploadFile, prepareUpload, stringToBytes, metaJson, bytesToBase64Url, String.toList_ofList]
  decide +kernel

theorem apart_iff_sample : ∃ named description encryptedMeta response,
    Proceeds (tableSodium sampleCalls) sampleConfig sampleRandom sampleFile {} (namingServer "abcdefghjkmn" named)
        "2026-01-02T00:00:00.000Z" description encryptedMeta response ∧
      Apart (tableSodium sampleCalls) "abcdefghjkmn" description (smallRun sampleCalls "abcdefghjkmn" named).encrypted.tail := by
  have named : 1 ≤ Utf16.length "abcdefghjkmn" ∧ Utf16.length "abcdefghjkmn" ≤ 64 := by decide
  have encrypted : (smallRun sampleCalls "abcdefghjkmn" named).encrypted = sampleCalls.map Prod.fst := sampleRun_encrypted
  obtain ⟨description, encryptedMeta, response, same, proceeds⟩ :=
    small_proceeds sampleCalls_known "abcdefghjkmn" named "2026-01-02T00:00:00.000Z"
  refine ⟨named, description, encryptedMeta, response, proceeds, ?_⟩
  have apart := apart_iff (sampleCalls_known.lawful _) proceeds (encrypted ▸ sampleCalls_known.opens_calls)
    (encrypted ▸ sampleCalls_known.binding)
  rw [same] at apart
  exact apart.mpr (by decide)

/-- The first chunk of a share named `meta` is sealed as its description is. -/
theorem domains_collide : ¬∀ sodium config random file options server expiresAt description encryptedMeta response,
    Lawful sodium →
      Proceeds sodium config random file options server expiresAt description encryptedMeta response →
      (∀ call ∈ (uploadFile sodium config random file options server expiresAt).encrypted, Opens sodium call) →
      Binding sodium (uploadFile sodium config random file options server expiresAt).encrypted →
      Apart sodium response.shortId description
        (uploadFile sodium config random file options server expiresAt).encrypted.tail := by
  intro apart
  have encrypted := renamedRun_encrypted
  obtain ⟨description, encryptedMeta, response, same, proceeds⟩ :=
    small_proceeds renamedCalls_known "meta" meta_sized "2026-01-02T00:00:00.000Z"
  obtain ⟨call, inside, key, aad⟩ := first_chunk_shares proceeds same rfl
  exact (apart _ _ _ _ _ _ _ _ _ _ (renamedCalls_known.lawful _) proceeds (encrypted ▸ renamedCalls_known.opens_calls)
    (encrypted ▸ renamedCalls_known.binding)).sealedApart call inside key aad

end SlothBox.Proofs

import SlothBox.Proofs.Blobs
import SlothBox.Proofs.Upload

/-! The token of a chunk, from the browser that commits to it to the gate that asks for
it. The header of the right key, share and index decodes to what was committed to; that
of any other would be a collision of the hash, since the layout tells them apart. -/

namespace SlothBox.Proofs
open Library

/-! ### The ingest service's decoder -/

theorem tryDecode_base64 {bytes : Bytes} (filled : 0 < bytes.length) :
    tryDecodeBase64Url (bytesToBase64Url bytes) = some bytes := by
  have spelt : (bytesToBase64Url bytes).toList = Base64.encodeUrl bytes := String.toList_ofList
  have length := Base64.length_encodeUrl bytes
  have nonempty : (bytesToBase64Url bytes).isEmpty = false := by
    rw [← Bool.not_eq_true, String.isEmpty_iff, ← String.toList_inj, spelt]
    exact List.ne_nil_of_length_pos (by omega)
  have restored := Base64.ofUrl_encodeUrl bytes
  have residues : (Base64.encodeUrl bytes).length % 4 = 0 ∨ (Base64.encodeUrl bytes).length % 4 = 2 ∨
      (Base64.encodeUrl bytes).length % 4 = 3 := by omega
  simp only [tryDecodeBase64Url, nonempty, spelt, List.length_map, Bool.false_eq_true, ↓reduceIte]
  rcases residues with whole | two | three
  · have same : (Base64.encodeUrl bytes).map Base64.ofUrlChar = Base64.encode bytes := by
      simpa [Base64.padding, whole] using restored
    simp only [whole, same, Base64.fromBase64String_encode]
  · have same : (Base64.encodeUrl bytes).map Base64.ofUrlChar ++ ['=', '='] = Base64.encode bytes := by
      simpa [Base64.padding, two] using restored
    simp only [two, same, Base64.fromBase64String_encode]
  · have same : (Base64.encodeUrl bytes).map Base64.ofUrlChar ++ ['='] = Base64.encode bytes := by
      simpa [Base64.padding, three] using restored
    simp only [three, same, Base64.fromBase64String_encode]

private theorem encodeUrl_no_space (bytes : Bytes) : ∀ c ∈ Base64.encodeUrl bytes, isWhiteSpace c = false := by
  have alphabet : ∀ n < 64, isWhiteSpace (Base64.toUrlChar (Base64.sextetChar n)) = false := by decide
  intro c member
  rw [Base64.encodeUrl_eq] at member
  obtain ⟨n, inside, rfl⟩ := List.mem_map.mp member
  exact alphabet n (Base64.sextets_lt bytes n inside)

/-- A token behind the scheme is read and hashed. -/
theorem extractChunkTokenHash_bearer (sha256 : Bytes → Bytes) {token : Bytes} (width : token.length = 32) :
    extractChunkTokenHash sha256 (some ("Bearer " ++ bytesToBase64Url token)) = some (sha256 token) := by
  have text : ("Bearer " ++ bytesToBase64Url token).toList = "Bearer ".toList ++ Base64.encodeUrl token := by
    rw [String.toList_append]
    exact congrArg ("Bearer ".toList ++ ·) String.toList_ofList
  have scheme : "Bearer ".toList.isPrefixOf ("Bearer ".toList ++ Base64.encodeUrl token) = true :=
    List.isPrefixOf_iff_prefix.mpr (List.prefix_append _ _)
  have rest : ("Bearer ".toList ++ Base64.encodeUrl token).drop 7 = Base64.encodeUrl token := by
    exact List.drop_left' (by decide)
  have plain : (Base64.encodeUrl token).dropWhile isWhiteSpace = Base64.encodeUrl token := by
    cases spelt : Base64.encodeUrl token with
    | nil => rfl
    | cons c more =>
      have first := encodeUrl_no_space token c (by rw [spelt]; exact List.mem_cons_self)
      rw [List.dropWhile_cons_of_neg (by simp [first])]
  have filled : (Base64.encodeUrl token).isEmpty = false := by
    have length := Base64.length_encodeUrl token
    rw [List.isEmpty_eq_false_iff]
    exact List.ne_nil_of_length_pos (by omega)
  have decoded : tryDecodeBase64Url (String.ofList (Base64.encodeUrl token)) = some token :=
    tryDecode_base64 (by omega)
  rw [extractChunkTokenHash]
  simp only [Option.bind_eq_bind, Option.bind_some, text, scheme, rest, plain, filled, decoded, width]
  rfl

/-- A commitment is read back as it was made. -/
theorem optionalTokenHash_sent {upload : PutRequest} {hash : Bytes} (width : hash.length = 32)
    (sent : upload.tokenHashHeader = some (bytesToBase64Url hash)) : upload.optionalTokenHash = .ok (some hash) := by
  have decoded : tryDecodeBase64Url (bytesToBase64Url hash) = some hash := tryDecode_base64 (by omega)
  have nonempty : (bytesToBase64Url hash).isEmpty = false := by
    unfold tryDecodeBase64Url at decoded
    split at decoded
    · cases decoded
    next filled => exact Bool.eq_false_iff.mpr filled
  rw [PutRequest.optionalTokenHash, sent]
  simp only [nonempty, Bool.false_eq_true, ↓reduceIte, decoded, width]

/-! ### The browser's header -/

/-- What is hashed into the token of a chunk. -/
def tokenInput (fragmentKey aad : Bytes) : Bytes := chunkTokenLabel ++ [0] ++ fragmentKey ++ aad

theorem tokenInput_inj {first second aad other : Bytes} (width : first.length = 32) (width' : second.length = 32)
    (same : tokenInput first aad = tokenInput second other) : first = second ∧ aad = other := by
  simp only [tokenInput, List.append_assoc] at same
  exact List.append_inj (List.append_cancel_left (List.append_cancel_left same)) (width.trans width'.symm)

section Header
variable {sodium : Sodium}

theorem deriveChunkToken_ok {fragmentKey token : Bytes} {shortId : String} {index : Nat} :
    deriveChunkToken sodium fragmentKey shortId index = .ok token ↔
      fragmentKey.length = 32 ∧ ∃ aad, buildChunkAad shortId index = .ok aad ∧
        token = sodium.sha256 (tokenInput fragmentKey aad) := by
  simp only [deriveChunkToken, bind_ok, throwIf_ok, not_not, exists_const, pure, Except.pure, Except.ok.injEq]
  exact and_congr_right fun _ => exists_congr fun _ => and_congr_right fun _ => eq_comm

/-- The `Authorization` header of one turn of the download loop. -/
def chunkAuthorization (sodium : Sodium) (fragmentKey : Bytes) (shortId : String) (index : Nat) :
    Except Thrown String :=
  (deriveChunkToken sodium fragmentKey shortId index).map fun chunkToken => "Bearer " ++ bytesToBase64Url chunkToken

/-- The loop asks for a chunk under this header and for nothing else. -/
theorem downloadChunk_authorization {server other : DownloadServer} {shortId header : String}
    {fragmentKey aeadKey : Bytes} {protect : Bool} {options : DownloadOptions} {index : Nat}
    (sent : chunkAuthorization sodium fragmentKey shortId index = .ok header)
    (same : server.getChunk ⟨shortId, index, header⟩ = other.getChunk ⟨shortId, index, header⟩) :
    downloadChunk sodium server shortId fragmentKey aeadKey protect options index =
      downloadChunk sodium other shortId fragmentKey aeadKey protect options index := by
  obtain ⟨token, derived, rfl⟩ := map_ok.mp sent
  simp only [downloadChunk, derived, bind, Except.bind, same]

/-- The messages that SHA-256 is asked for between a key and the gate. -/
def HashedFor (sodium : Sodium) (fragmentKey : Bytes) (shortId : String) (index : Nat) (message : Bytes) : Prop :=
  ∃ aad, buildChunkAad shortId index = .ok aad ∧
    (message = tokenInput fragmentKey aad ∨ message = sodium.sha256 (tokenInput fragmentKey aad))

/-- Without a collision, a commitment belongs to one key, one share and one index. -/
theorem commitment_inj {first second token other : Bytes} {shortId shortId' : String} {i j : Nat}
    (derived : deriveChunkToken sodium first shortId i = .ok token)
    (derived' : deriveChunkToken sodium second shortId' j = .ok other) (small : i < 2 ^ 32) (small' : j < 2 ^ 32)
    (collisionFree : Set.InjOn sodium.sha256
      {message | HashedFor sodium first shortId i message ∨ HashedFor sodium second shortId' j message})
    (same : sodium.sha256 token = sodium.sha256 other) : first = second ∧ shortId = shortId' ∧ i = j := by
  obtain ⟨width, aad, built, rfl⟩ := deriveChunkToken_ok.mp derived
  obtain ⟨width', aad', built', rfl⟩ := deriveChunkToken_ok.mp derived'
  have tokens := collisionFree (.inl ⟨aad, built, .inr rfl⟩) (.inr ⟨aad', built', .inr rfl⟩) same
  have inputs := collisionFree (.inl ⟨aad, built, .inl rfl⟩) (.inr ⟨aad', built', .inl rfl⟩) tokens
  obtain ⟨keys, rfl⟩ := tokenInput_inj width width' inputs
  exact ⟨keys, buildChunkAad_inj built built' small small'⟩

/-- The commitment that an upload sends is the hash of the token. -/
theorem putRequest_commits {random : Randomness} {response : CreateShareResponse} {index : Nat} {ciphertext : Bytes}
    {put : PutChunkRequest} (prepared : putRequest sodium random response index ciphertext = .ok put) :
    index < 2 ^ 32 ∧ ∃ token, deriveChunkToken sodium random.fragmentKey response.shortId index = .ok token ∧
      put.chunkTokenHash = bytesToBase64Url (sodium.sha256 token) := by
  simp only [putRequest, bind_ok, throwIf_ok, exists_const] at prepared
  obtain ⟨token, derived, named, same⟩ := prepared
  cases same
  refine ⟨?_, token, derived, rfl⟩
  by_contra large
  have beyond : response.uploadUrls.length ≤ index := Nat.le_trans response.bounded.le (Nat.not_lt.mp large)
  exact named (by simp [List.getElem?_eq_none beyond])

end Header

/-! ### The gate -/

/-- A chunk with a commitment is given out for a token with that hash. -/
theorem check_bearer {env : Env} {request : GetRequest} {share : ShareRow} {chunk : ChunkRow} {token stored : Bytes}
    (width : token.length = 32) (sent : request.authorization = some ("Bearer " ++ bytesToBase64Url token))
    (committed : chunk.downloadTokenHash = some stored) :
    request.check env share chunk =
      if chunk.servedAt.isSome ∧ share.burnAfterRead then .error (.http 410 none)
      else refuseIf (env.sha256 token ≠ stored) (.http 403 none) := by
  simp only [GetRequest.check, committed, sent, extractChunkTokenHash_bearer env.sha256 width]
  split
  next gone =>
    rw [refuseIf, if_pos gone]
    rfl
  next serving =>
    rw [refuseIf, if_neg serving]
    rfl

/-- Of all headers the download loop can send, the one for the key, the share and the
index that the chunk was uploaded under opens the gate, and every other one is refused.
In front of it stands the gate of a burning share, which closes once the chunk was
served. -/
theorem chunk_token_agreement (sodium : Sodium) (env : Env) (digest : ∀ message, (sodium.sha256 message).length = 32)
    (identical : env.sha256 = sodium.sha256) {random : Randomness} {response : CreateShareResponse} {index : Nat}
    {ciphertext : Bytes} {put : PutChunkRequest}
    (prepared : putRequest sodium random response index ciphertext = .ok put) {upload : PutRequest} {share : ShareRow}
    {now uploadedAt : Timestamp} {plan : PutPlan} {store : Store} (sent : upload.tokenHashHeader = some put.chunkTokenHash)
    (admitted : upload.check env.options share now = .ok plan) (served : ShareRow) {chunk : ChunkRow}
    (stored : chunk.downloadTokenHash = (upsertChunk store plan.index plan.nonce plan.blobKey plan.ciphertextSize
      uploadedAt plan.downloadTokenHash).downloadTokenHash) :
    (∃ header, chunkAuthorization sodium random.fragmentKey response.shortId index = .ok header ∧
      ∀ request : GetRequest, request.authorization = some header →
        request.check env served chunk =
          if chunk.servedAt.isSome ∧ served.burnAfterRead then .error (.http 410 none) else .ok ()) ∧
    ∀ fragmentKey shortId other header, other < 2 ^ 32 →
      (fragmentKey, shortId, other) ≠ (random.fragmentKey.val, response.shortId, index) →
      chunkAuthorization sodium fragmentKey shortId other = .ok header →
      Set.InjOn sodium.sha256 {message | HashedFor sodium random.fragmentKey response.shortId index message ∨
        HashedFor sodium fragmentKey shortId other message} →
      ∀ request : GetRequest, request.authorization = some header →
        request.check env served chunk =
          .error (if chunk.servedAt.isSome ∧ served.burnAfterRead then .http 410 none else .http 403 none) := by
  obtain ⟨small, token, derived, commitment⟩ := putRequest_commits prepared
  have width : ∀ {fragmentKey : Bytes} {shortId : String} {position : Nat} {token : Bytes},
      deriveChunkToken sodium fragmentKey shortId position = .ok token → token.length = 32 := by
    intro fragmentKey shortId position token derived
    obtain ⟨-, aad, -, rfl⟩ := deriveChunkToken_ok.mp derived
    exact digest _
  have committed : chunk.downloadTokenHash = some (sodium.sha256 token) := by
    have read := optionalTokenHash_sent (digest token) (sent.trans (congrArg some commitment))
    rw [stored, (upsertChunk_data _ _ _ _ _ _ _).2.2.2]
    exact Except.ok.inj ((check_planned admitted).hash.symm.trans read)
  refine ⟨⟨_, congrArg _ derived, fun request header => ?_⟩, ?_⟩
  · rw [check_bearer (width derived) header committed, identical]
    simp [refuseIf]
  · intro fragmentKey shortId other header bound different sends collisionFree request authorization
    obtain ⟨token', derived', rfl⟩ := map_ok.mp sends
    rw [check_bearer (width derived') authorization committed, identical]
    have apart : sodium.sha256 token' ≠ sodium.sha256 token := by
      intro same
      obtain ⟨keys, names, indices⟩ := commitment_inj derived derived' small bound collisionFree same.symm
      exact different (by rw [keys, names, indices])
    simp only [refuseIf, if_pos apart]
    split <;> rfl

/-- The primitives of the small upload, with digests of 32 bytes throughout. -/
def sampleDigests : Sodium :=
  { sampleSodium with sha256 := fun message => (sampleSodium.sha256 message).take 32 }

def sampleUrls : List String := ["https://ingest.local/chunk", "https://ingest.local/chunk"]

private theorem sampleName_sized : 1 ≤ Utf16.length "abcdefghjkmn" ∧ Utf16.length "abcdefghjkmn" ≤ 64 := by decide

private theorem sampleUrls_bounded : sampleUrls.length < 2 ^ 32 := by decide

def sampleResponse : CreateShareResponse := ⟨"abcdefghjkmn", sampleUrls, sampleName_sized, sampleUrls_bounded⟩

def sampleTokenHash : Bytes := sampleDigests.sha256 sampleToken

def sampleCommitted : PutRequest :=
  { samplePut with tokenHashHeader := some (bytesToBase64Url sampleTokenHash) }

def sampleChunk : ChunkRow :=
  ⟨List.replicate 24 0, "abcdefghjkmn/0", 17, some 6, none, 0, some sampleTokenHash⟩

private theorem sampleDigests_length (message : Bytes) : (sampleDigests.sha256 message).length = 32 := by
  have wide : 32 ≤ (sampleSodium.sha256 message).length := le_length_patched (by decide +kernel) message
  rw [sampleDigests, List.length_take, Nat.min_eq_left wide]

private theorem hashed_sample {index : Nat} {message : Bytes}
    (hashed : HashedFor sampleDigests sampleRandom.fragmentKey "abcdefghjkmn" index message) :
    message = sampleTokenInput index ∨ message = sampleDigests.sha256 (sampleTokenInput index) := by
  obtain ⟨aad, built, same⟩ := hashed
  have input : tokenInput sampleRandom.fragmentKey aad = sampleTokenInput index := by
    rw [(buildChunkAad_ok.mp built).2, tokenInput, ← List.append_assoc, ← List.append_assoc]
    rfl
  rwa [input] at same

/-- The first of two tokens opens the chunk it was made for, the second does not. -/
theorem chunk_token_agreement_sample :
    (⟨"abcdefghjkmn", 0, some ("Bearer " ++ bytesToBase64Url sampleToken)⟩ : GetRequest).check
        { sampleEnv with sha256 := sampleDigests.sha256 } (sampleCreate.row 5) sampleChunk = .ok () ∧
      (⟨"abcdefghjkmn", 0, some ("Bearer " ++ bytesToBase64Url secondToken)⟩ : GetRequest).check
        { sampleEnv with sha256 := sampleDigests.sha256 } (sampleCreate.row 5) sampleChunk = .error (.http 403 none) := by
  have first : chunkAuthorization sampleDigests sampleRandom.fragmentKey "abcdefghjkmn" 0 =
      .ok ("Bearer " ++ bytesToBase64Url sampleToken) := by decide +kernel
  have second : chunkAuthorization sampleDigests sampleRandom.fragmentKey "abcdefghjkmn" 1 =
      .ok ("Bearer " ++ bytesToBase64Url secondToken) := by decide +kernel
  have prepared : putRequest sampleDigests sampleRandom sampleResponse 0 [] =
      .ok ⟨"https://ingest.local/chunk", [], bytesToBase64Url (List.replicate 24 2), bytesToBase64Url sampleTokenHash⟩ := by
    decide +kernel
  obtain ⟨plan, admitted, commits⟩ : ∃ plan, sampleCommitted.check {} (sampleCreate.row 5) 6 = .ok plan ∧
      plan.downloadTokenHash = some sampleTokenHash :=
    ⟨⟨sampleCreate.row 5, 0, "abcdefghjkmn/0", List.replicate 24 0, 17, some sampleTokenHash⟩, by decide +kernel, rfl⟩
  have stored : sampleChunk.downloadTokenHash = (upsertChunk sampleStore plan.index plan.nonce plan.blobKey
      plan.ciphertextSize 6 plan.downloadTokenHash).downloadTokenHash := by
    rw [(upsertChunk_data _ _ _ _ _ _ _).2.2.2, commits]
    rfl
  have distinct : Set.InjOn sampleDigests.sha256 {message |
      HashedFor sampleDigests sampleRandom.fragmentKey "abcdefghjkmn" 0 message ∨
        HashedFor sampleDigests sampleRandom.fragmentKey "abcdefghjkmn" 1 message} := by
    let messages := [sampleTokenInput 0, sampleDigests.sha256 (sampleTokenInput 0), sampleTokenInput 1,
      sampleDigests.sha256 (sampleTokenInput 1)]
    have listed : ∀ message, HashedFor sampleDigests sampleRandom.fragmentKey "abcdefghjkmn" 0 message ∨
        HashedFor sampleDigests sampleRandom.fragmentKey "abcdefghjkmn" 1 message → message ∈ messages := by
      rintro message (hashed | hashed)
      · rcases hashed_sample hashed with rfl | rfl <;> simp [messages]
      · rcases hashed_sample hashed with rfl | rfl <;> simp [messages]
    have apart : ∀ first ∈ messages, ∀ second ∈ messages,
        sampleDigests.sha256 first = sampleDigests.sha256 second → first = second := by decide +kernel
    exact fun first inside second inside' same => apart first (listed first inside) second (listed second inside') same
  obtain ⟨⟨header, sends, opens⟩, refuses⟩ := chunk_token_agreement sampleDigests { sampleEnv with sha256 := sampleDigests.sha256 }
    sampleDigests_length rfl prepared (rfl : sampleCommitted.tokenHashHeader = _) admitted (sampleCreate.row 5) stored
  obtain rfl := Except.ok.inj (first.symm.trans sends)
  exact ⟨opens _ rfl, refuses sampleRandom.fragmentKey "abcdefghjkmn" 1 _ (by decide) (by simp [sampleResponse]) second
    distinct _ rfl⟩

end SlothBox.Proofs

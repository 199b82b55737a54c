import SlothBox.Proofs.Session
import SlothBox.Proofs.Tokens

/-! What the sender's browser asks for, and when: the share once, then its chunks in order, each
once. Here too services that remember are no different from settled ones. -/

namespace SlothBox.Proofs
open Library Session

section Uploading
variable {sodium : Sodium} {config : WebConfig} {random : Randomness} {file : File} {options : UploadOptions}

/-- The services as an uploading browser sees them once their answers are settled. -/
def settledUpload (oracle : (call : UploadCall) → call.Answer) : UploadServer where
  createShare request := oracle (.create request)
  putChunk index request := oracle (.put index request)

/-- One turn of the loop as far as it is the browser's own: the encryption and the request. -/
def preparedChunk (sodium : Sodium) (config : WebConfig) (random : Randomness) (file : File) (options : UploadOptions)
    (aeadKey : Bytes) (response : CreateShareResponse) (index : ℕ) : Except Thrown PutChunkRequest := do
  throwIf (options.aborted index) (.uploadError "upload cancelled")
  let (_, ciphertext) ← sealChunk sodium config random file aeadKey response.shortId index
  putRequest sodium random response index ciphertext

theorem uploadChunk_eq (aeadKey : Bytes) (response : CreateShareResponse) (index : ℕ) :
    Session.uploadChunk sodium config random file options aeadKey response index =
      (Dialogue.result (preparedChunk sodium config random file options aeadKey response index) >>= fun request =>
        .ask (.put index request) fun answer => .result (PutAnswer.check answer)) := by
  unfold Session.uploadChunk preparedChunk
  cases throwIf (options.aborted index) (Thrown.uploadError "upload cancelled") with
  | error thrown => rfl
  | ok going => cases sealChunk sodium config random file aeadKey response.shortId index <;> rfl

/-- The loop turn by turn. -/
theorem uploadChunks_cons (server : UploadServer) (aeadKey : Bytes) (response : CreateShareResponse) (index : ℕ)
    (rest : List ℕ) :
    let sent := uploadChunks sodium config random file options server aeadKey response (index :: rest)
    let later := uploadChunks sodium config random file options server aeadKey response rest
    let prepared := preparedChunk sodium config random file options aeadKey response index
    sent.result = (prepared >>= fun request => (server.putChunk index request).check >>= fun _ => later.result) ∧
      sent.puts = prepared.toOption.elim [] fun request =>
        request :: (server.putChunk index request).check.toOption.elim [] fun _ => later.puts := by
  dsimp only
  rw [uploadChunks, preparedChunk]
  cases options.aborted index with
  | true => exact ⟨rfl, rfl⟩
  | false =>
    rw [if_neg Bool.false_ne_true]
    cases sealChunk sodium config random file aeadKey response.shortId index with
    | error thrown => exact ⟨rfl, rfl⟩
    | ok piece =>
      obtain ⟨call, ciphertext⟩ := piece
      change _ = (putRequest sodium random response index ciphertext >>= _) ∧
        _ = (putRequest sodium random response index ciphertext).toOption.elim [] _
      dsimp only
      cases putRequest sodium random response index ciphertext with
      | error thrown => exact ⟨rfl, rfl⟩
      | ok request =>
        dsimp only
        cases answered : (server.putChunk index request).check with
        | error thrown => simp [answered, bind, Except.bind, Except.toOption]
        | ok done => simp [answered, bind, Except.bind, Except.toOption]

theorem uploadChunks_settled (oracle : (call : UploadCall) → call.Answer) (aeadKey : Bytes) (response : CreateShareResponse)
    (indices : List ℕ) :
    let loop := indices.mapM (Session.uploadChunk sodium config random file options aeadKey response)
    let sent := uploadChunks sodium config random file options (settledUpload oracle) aeadKey response indices
    (loop.against oracle).map (fun _ => ()) = sent.result ∧
      loop.asked oracle = List.zipWith UploadCall.put indices sent.puts := by
  induction indices with
  | nil => exact ⟨rfl, rfl⟩
  | cons index rest ih =>
    obtain ⟨same, order⟩ := ih
    dsimp only at same order ⊢
    obtain ⟨result, puts⟩ := @uploadChunks_cons sodium config random file options (settledUpload oracle) aeadKey response index rest
    rw [result, puts, List.mapM_cons, uploadChunk_eq]
    cases preparedChunk sodium config random file options aeadKey response index with
    | error thrown => exact ⟨rfl, rfl⟩
    | ok request =>
      change (Dialogue.against oracle (Dialogue.result (PutAnswer.check (oracle (.put index request))) >>= _)).map _ =
          (PutAnswer.check (oracle (.put index request)) >>= fun _ => _) ∧
        UploadCall.put index request :: Dialogue.asked oracle (.result (PutAnswer.check (oracle (.put index request))) >>= _) =
          .put index request :: List.zipWith .put rest
            ((PutAnswer.check (oracle (.put index request))).toOption.elim [] fun _ => _)
      cases PutAnswer.check (oracle (.put index request)) with
      | error thrown => exact ⟨rfl, congrArg _ List.zipWith_nil_right.symm⟩
      | ok done =>
        change (Dialogue.against oracle (rest.mapM _ >>= _)).map _ = _ ∧ _ :: Dialogue.asked oracle (rest.mapM _ >>= _) = _ :: List.zipWith .put rest _
        rw [Dialogue.against_bind, Dialogue.asked_bind, order, ← same]
        cases (rest.mapM (Session.uploadChunk sodium config random file options aeadKey response)).against oracle with
        | error thrown => exact ⟨rfl, congrArg _ (List.append_nil _)⟩
        | ok values => exact ⟨rfl, congrArg _ (List.append_nil _)⟩

/-- Against services whose answers are settled, the browser does what `uploadFile` says, and
asks for what that has asked. -/
theorem uploadFile_settled (oracle : (call : UploadCall) → call.Answer) (expiresAt : String) :
    let program := Session.uploadFile sodium config random file options expiresAt
    let run := uploadFile sodium config random file options (settledUpload oracle) expiresAt
    program.against oracle = run.result ∧
      program.asked oracle = (run.created.map UploadCall.create).toList ++
        List.zipWith UploadCall.put (List.range (chunkCount config file)) run.puts := by
  dsimp only
  unfold Session.uploadFile uploadFile
  cases prepareUpload sodium config random file options with
  | error thrown => exact ⟨rfl, List.zipWith_nil_right.symm⟩
  | ok prepared =>
    obtain ⟨description, encryptedMeta⟩ := prepared
    dsimp only
    let request := createRequest sodium config random file options expiresAt encryptedMeta
    have created : (settledUpload oracle).createShare request = oracle (.create request) := rfl
    change Dialogue.against oracle (.result ((oracle (.create request)).mapError Thrown.uploadError) >>= _) = _ ∧
      .create request :: Dialogue.asked oracle (.result ((oracle (.create request)).mapError Thrown.uploadError) >>= _) = _
    rw [created]
    cases oracle (.create request) with
    | error message => exact ⟨rfl, congrArg _ List.zipWith_nil_right.symm⟩
    | ok response =>
      dsimp only
      change Dialogue.against oracle (.result (throwIf (response.uploadUrls.length ≠ chunkCount config file) _) >>= _) = _ ∧
        _ :: Dialogue.asked oracle (.result (throwIf (response.uploadUrls.length ≠ chunkCount config file) _) >>= _) = _
      have counted : request.chunkCount = chunkCount config file := rfl
      rw [counted]
      split
      next differs =>
        rw [throwIf, if_pos differs]
        exact ⟨rfl, congrArg _ List.zipWith_nil_right.symm⟩
      next agrees =>
        rw [throwIf, if_neg agrees]
        obtain ⟨same, order⟩ := @uploadChunks_settled sodium config random file options oracle description.key response
          (List.range (chunkCount config file))
        change Dialogue.against oracle (List.mapM (Session.uploadChunk sodium config random file options description.key response)
            (List.range (chunkCount config file)) >>= _) = _ ∧
          _ :: Dialogue.asked oracle (List.mapM (Session.uploadChunk sodium config random file options description.key response)
            (List.range (chunkCount config file)) >>= _) = _ :: _
        rw [Dialogue.against_bind, Dialogue.asked_bind, order, ← same]
        cases ((List.range (chunkCount config file)).mapM
          (Session.uploadChunk sodium config random file options description.key response)).against oracle with
        | error thrown => exact ⟨rfl, congrArg _ (List.append_nil _)⟩
        | ok values => exact ⟨rfl, congrArg _ (List.append_nil _)⟩

/-- What a request for a chunk is made of. -/
theorem preparedChunk_ok {aeadKey : Bytes} {response : CreateShareResponse} {index : ℕ} {put : PutChunkRequest}
    (prepared : preparedChunk sodium config random file options aeadKey response index = .ok put) :
    put.url = response.uploadUrls.getD index "" ∧ put.nonce = bytesToBase64Url (random.nonce index) ∧
      (∃ token, deriveChunkToken sodium random.fragmentKey response.shortId index = .ok token ∧
        put.chunkTokenHash = bytesToBase64Url (sodium.sha256 token)) ∧
      ∃ call, SealsChunk config file response.shortId index call ∧ put.ciphertext = sealedBytes sodium call := by
  simp only [preparedChunk, bind_ok] at prepared
  obtain ⟨-, -, ⟨call, ciphertext⟩, made, requested⟩ := prepared
  obtain ⟨seals, -, -, -, value⟩ := sealChunk_ok made
  obtain ⟨-, commitment⟩ := putRequest_commits requested
  simp only [putRequest, bind_ok, throwIf_ok, exists_const] at requested
  obtain ⟨token, -, -, same⟩ := requested
  cases same
  exact ⟨rfl, rfl, commitment, call, seals, value⟩

theorem uploadChunks_prepared {server : UploadServer} {aeadKey : Bytes} {response : CreateShareResponse} {indices : List ℕ}
    (returned : (uploadChunks sodium config random file options server aeadKey response indices).result = .ok ()) :
    List.Forall₂ (fun index put => preparedChunk sodium config random file options aeadKey response index = .ok put)
      indices (uploadChunks sodium config random file options server aeadKey response indices).puts := by
  induction indices with
  | nil => exact .nil
  | cons index rest ih =>
    obtain ⟨result, puts⟩ := @uploadChunks_cons sodium config random file options server aeadKey response index rest
    rw [result] at returned
    obtain ⟨put, prepared, sent⟩ := bind_ok.mp returned
    obtain ⟨done, checked, later⟩ := bind_ok.mp sent
    rw [puts, prepared]
    simp only [Except.toOption, Option.elim_some, checked]
    exact .cons prepared (ih later)

/-- The requests of an upload that has returned. -/
theorem uploadFile_prepared {server : UploadServer} {expiresAt : String} {result : UploadResult}
    (returned : (uploadFile sodium config random file options server expiresAt).result = .ok result) :
    ∃ description encryptedMeta response,
      prepareUpload sodium config random file options = .ok (description, encryptedMeta) ∧
      server.createShare (createRequest sodium config random file options expiresAt encryptedMeta) = .ok response ∧
      result = ⟨shareUrl config random response.shortId, response.shortId, expiresAt, bytesToBase64Url random.revokeToken⟩ ∧
      (uploadFile sodium config random file options server expiresAt).created =
        some (createRequest sodium config random file options expiresAt encryptedMeta) ∧
      List.Forall₂
        (fun index put => preparedChunk sodium config random file options description.key response index = .ok put)
        (List.range (chunkCount config file)) (uploadFile sodium config random file options server expiresAt).puts := by
  rw [uploadFile] at returned ⊢
  split at returned
  next => cases returned
  next description encryptedMeta prepared =>
    dsimp only at returned ⊢
    split at returned
    next => cases returned
    next response created =>
      split at returned
      next => cases returned
      next counted =>
        rw [if_neg counted]
        obtain ⟨done, sent, same⟩ := map_ok.mp returned
        exact ⟨description, encryptedMeta, response, prepared, created, same.symm, rfl, uploadChunks_prepared sent⟩

/-! ### One request after the other -/

/-- The PUT of a chunk. -/
def putCall (sodium : Sodium) (config : WebConfig) (random : Randomness) (file : File) (options : UploadOptions)
    (aeadKey : Bytes) (response : CreateShareResponse) (index : ℕ) : UploadCall :=
  .put index ((preparedChunk sodium config random file options aeadKey response index).toOption.getD ⟨"", [], "", ""⟩)

theorem uploadChunk_asks (aeadKey : Bytes) (response : CreateShareResponse) (index : ℕ) :
    (Session.uploadChunk sodium config random file options aeadKey response index).Asks
      [putCall sodium config random file options aeadKey response index] := by
  rw [uploadChunk_eq]
  unfold putCall
  cases preparedChunk sodium config random file options aeadKey response index with
  | error thrown => trivial
  | ok request => exact ⟨rfl, fun _ => .lift _⟩

/-- The upload once the gateway has answered. -/
def afterCreate (sodium : Sodium) (config : WebConfig) (random : Randomness) (file : File) (options : UploadOptions)
    (expiresAt : String) (aeadKey : Bytes) (reply : Except String CreateShareResponse) : Session.Uploading UploadResult := do
  let response ← .result (reply.mapError .uploadError)
  let urls := response.uploadUrls.length
  let chunks := chunkCount config file
  .result (throwIf (urls ≠ chunks) (.uploadError s!"gateway returned {urls} upload URLs but we have {chunks} chunks"))
  let _ ← (List.range chunks).mapM (Session.uploadChunk sodium config random file options aeadKey response)
  return ⟨shareUrl config random response.shortId, response.shortId, expiresAt, bytesToBase64Url random.revokeToken⟩

theorem afterCreate_asks (expiresAt : String) (aeadKey : Bytes) (response : CreateShareResponse) :
    (afterCreate sodium config random file options expiresAt aeadKey (.ok response)).Asks
      ((List.range (chunkCount config file)).map (putCall sodium config random file options aeadKey response)) := by
  have loop : ((List.range (chunkCount config file)).mapM
      (Session.uploadChunk sodium config random file options aeadKey response)).Asks
      ((List.range (chunkCount config file)).map (putCall sodium config random file options aeadKey response)) :=
    .mapM fun index _ => uploadChunk_asks aeadKey response index
  let result : UploadResult :=
    ⟨shareUrl config random response.shortId, response.shortId, expiresAt, bytesToBase64Url random.revokeToken⟩
  change ((Dialogue.result (throwIf (response.uploadUrls.length ≠ chunkCount config file) _) : Session.Uploading Unit) >>= fun _ =>
    _ >>= fun _ => .result (.ok result)).Asks _
  refine Dialogue.Asks.bind (.lift _) fun _ => ?_
  rw [← List.append_nil (List.map _ _)]
  exact loop.bind fun _ => .lift (.ok result)

/-- No upload asks for anything twice. -/
theorem uploadFile_once {σ : Type} (expiresAt : String) (serve : σ → (call : UploadCall) → call.Answer × σ) (state : σ) :
    ((Session.uploadFile sodium config random file options expiresAt).converse serve state).requests.Nodup := by
  unfold Session.uploadFile
  cases prepareUpload sodium config random file options with
  | error thrown => exact List.nodup_nil
  | ok prepared =>
    obtain ⟨description, encryptedMeta⟩ := prepared
    let request := createRequest sodium config random file options expiresAt encryptedMeta
    change (UploadCall.create request :: ((afterCreate sodium config random file options expiresAt description.key
      (serve state (.create request)).1).converse serve (serve state (.create request)).2).requests).Nodup
    cases (serve state (.create request)).1 with
    | error message => exact List.nodup_singleton _
    | ok response =>
      obtain ⟨front, -⟩ := (afterCreate_asks expiresAt description.key response).requests serve (serve state (.create request)).2
      refine List.Nodup.sublist (List.cons_prefix_cons.mpr ⟨rfl, front⟩).sublist ?_
      refine List.nodup_cons.mpr ⟨fun inside => ?_, (List.nodup_range).map fun first second same => ?_⟩
      · obtain ⟨index, -, same⟩ := List.mem_map.mp inside
        cases same
      · exact (UploadCall.put.inj same).1

/-- Services that take nothing. -/
def closed : (call : UploadCall) → call.Answer
  | .create _ => .error "could not reach the SlothBox gateway"
  | .put .. => .unreachable

/-- Nor does an upload know services that remember from settled ones. It returns what it would
return, and asks for what it would ask for, if all their answers had been written down
beforehand. -/
theorem upload_session (sodium : Sodium) (config : WebConfig) (random : Randomness) (file : File) (options : UploadOptions)
    (expiresAt : String) {σ : Type} (serve : σ → (call : UploadCall) → call.Answer × σ) (state : σ) :
    let talk := (Session.uploadFile sodium config random file options expiresAt).converse serve state
    ∃ server : UploadServer,
      (∀ request reply, ⟨.create request, reply⟩ ∈ talk.transcript → server.createShare request = reply) ∧
      (∀ index request answer, ⟨.put index request, answer⟩ ∈ talk.transcript → server.putChunk index request = answer) ∧
      let run := uploadFile sodium config random file options server expiresAt
      talk.result = run.result ∧ talk.requests.Nodup ∧
        talk.requests = (run.created.map UploadCall.create).toList ++
          List.zipWith UploadCall.put (List.range (chunkCount config file)) run.puts := by
  intro talk
  have once : talk.requests.Nodup := uploadFile_once expiresAt serve state
  obtain ⟨oracle, said, result, order⟩ := Dialogue.exists_fixed closed _ serve state once
  obtain ⟨same, asked⟩ := @uploadFile_settled sodium config random file options oracle expiresAt
  exact ⟨settledUpload oracle, fun request reply inside => said _ inside, fun index request answer inside => said _ inside,
    result.symm.trans same, once, order.symm.trans asked⟩

end Uploading
end SlothBox.Proofs

import SlothBox.Session
import SlothBox.Proofs.EndToEnd

/-! What the receiver's browser asks for, and when. However the services answer, and whatever they
remember, a download is one from services that were settled beforehand; and nothing that
can be used up is asked for before the description has opened. -/

namespace SlothBox.Proofs
open Library Session

/-! ### Settled services -/

/-- The services as the browser sees them once their answers are settled. -/
def settledServer (oracle : (call : DownloadCall) → call.Answer) : DownloadServer where
  getShare shortId := (oracle (.share shortId)).mapError ApiError.message
  getChunk request := oracle (.chunk request)

/-- Services that are out of reach. -/
def unreachable : (call : DownloadCall) → call.Answer
  | .share _ => .error ⟨"could not reach the SlothBox gateway", 0⟩
  | .chunk _ => .unreachable
  | .downloaded _ => ()

/-- A reply to the request for a description, as `getShare` and as `downloadFile` take it. -/
def described : Except ApiError ShareDescriptor → Except ApiError ShareDescriptor
  | .error err => .error err
  | .ok descriptor =>
    if descriptor.isValid then .ok descriptor else .error ⟨"gateway response failed schema validation", 200⟩

theorem described_ok {reply : Except ApiError ShareDescriptor} {descriptor : ShareDescriptor}
    (got : described reply = .ok descriptor) : reply = .ok descriptor ∧ descriptor.isValid := by
  cases reply with
  | error err => cases got
  | ok sent =>
    rw [described] at got
    split at got
    next valid =>
      cases got
      exact ⟨rfl, valid⟩
    next => cases got

def fetched (reply : Except ApiError ShareDescriptor) : Except Thrown ShareDescriptor :=
  (described reply).mapError fun err => .downloadError err.message .shareNotFound

section Downloading
variable {sodium : Sodium} {shortId : String} {fragmentKey : Bytes} {options : DownloadOptions}

theorem getShare_eq (shortId : String) :
    Session.getShare shortId = .ask (.share shortId) fun reply => .result (described reply) := by
  refine congrArg (Dialogue.ask (DownloadCall.share shortId)) (funext fun reply => ?_)
  cases reply with
  | error err => rfl
  | ok descriptor =>
    change (Dialogue.result (throwIf (!descriptor.isValid) _) >>= fun _ => pure descriptor) = .result (ite _ _ _)
    cases valid : descriptor.isValid <;> rfl

theorem fetchShareMetadata_caught {ε : Type} (shortId : String) :
    ((Session.fetchShareMetadata shortId).caught : Downloading ε _) =
      .ask (.share shortId) fun reply => .result (.ok (described reply)) := by
  rw [Session.fetchShareMetadata, getShare_eq]
  rfl

theorem fetched_settled (oracle : (call : DownloadCall) → call.Answer) (shortId : String) :
    fetched (oracle (.share shortId)) =
      (SlothBox.fetchShareMetadata (settledServer oracle) shortId).mapError (.downloadError · .shareNotFound) := by
  unfold fetched SlothBox.fetchShareMetadata settledServer
  dsimp only
  cases oracle (.share shortId) with
  | error err => rfl
  | ok descriptor =>
    change Except.mapError _ (ite _ _ _) = Except.mapError _ (ite _ _ _)
    split <;> rfl

theorem fetched_ok {reply : Except ApiError ShareDescriptor} {descriptor : ShareDescriptor}
    (got : fetched reply = .ok descriptor) : reply = .ok descriptor ∧ descriptor.isValid :=
  described_ok (mapError_ok.mp got)

theorem downloadChunk_settled (oracle : (call : DownloadCall) → call.Answer) (key : Bytes) (protect : Bool) (index : ℕ) :
    (Session.downloadChunk sodium shortId fragmentKey options key protect index).against oracle =
      SlothBox.downloadChunk sodium (settledServer oracle) shortId fragmentKey key protect options index := by
  simp only [Session.downloadChunk, SlothBox.downloadChunk, Dialogue.against_bind, Dialogue.against, chunkRequest, bind_assoc,
    pure_bind, Dialogue.call]
  rfl

/-- Against services whose answers are settled, the browser does what `downloadFile` says. -/
theorem downloadFile_settled (oracle : (call : DownloadCall) → call.Answer) :
    (Session.downloadFile sodium shortId fragmentKey options).against oracle =
      SlothBox.downloadFile sodium (settledServer oracle) shortId fragmentKey options := by
  simp only [Session.downloadFile, SlothBox.downloadFile, Dialogue.against_bind, Dialogue.against_mapM,
    fetchShareMetadata_caught, Dialogue.against, openShare, assemble, bind_assoc, pure_bind, downloadChunk_settled,
    ← fetched_settled]
  rfl

/-! ### What is asked, and in which order -/

/-- The request for a chunk under the token of the link. -/
def chunkCall (sodium : Sodium) (shortId : String) (fragmentKey : Bytes) (index : ℕ) : DownloadCall :=
  .chunk ((chunkRequest sodium shortId fragmentKey index).toOption.getD ⟨shortId, index, ""⟩)

theorem chunkCall_index (sodium : Sodium) (shortId : String) (fragmentKey : Bytes) (index : ℕ) :
    ∃ request, chunkCall sodium shortId fragmentKey index = .chunk request ∧
      request.shortId = shortId ∧ request.chunkIndex = index := by
  refine ⟨_, rfl, ?_⟩
  cases requested : chunkRequest sodium shortId fragmentKey index with
  | error thrown => exact ⟨rfl, rfl⟩
  | ok request =>
    obtain ⟨token, -, same⟩ := bind_ok.mp requested
    cases same
    exact ⟨rfl, rfl⟩

theorem chunkCall_injective : Function.Injective (chunkCall sodium shortId fragmentKey) := by
  intro first second same
  obtain ⟨request, called, -, index⟩ := chunkCall_index sodium shortId fragmentKey first
  obtain ⟨other, again, -, also⟩ := chunkCall_index sodium shortId fragmentKey second
  rw [called, again] at same
  cases same
  exact index.symm.trans also

theorem downloadChunk_asks (key : Bytes) (protect : Bool) (index : ℕ) :
    (Session.downloadChunk sodium shortId fragmentKey options key protect index).Asks
      [chunkCall sodium shortId fragmentKey index] := by
  refine Dialogue.Asks.bind (.lift _) fun _ => ?_
  unfold chunkCall
  cases chunkRequest sodium shortId fragmentKey index with
  | error thrown => trivial
  | ok request =>
    refine Dialogue.Asks.bind (.call (DownloadCall.chunk request)) fun answer => ?_
    refine Dialogue.Asks.bind (.lift _) fun (ciphertext, nonce) => ?_
    exact Dialogue.Asks.bind (.lift _) fun aad => .lift _

/-- The download once the description has come. -/
def afterShare (sodium : Sodium) (shortId : String) (fragmentKey : Bytes) (options : DownloadOptions)
    (reply : Except ApiError ShareDescriptor) : Downloading Thrown DownloadResult := do
  let descriptor ← .result (fetched reply)
  let (aeadKey, shareMeta) ← .result (openShare sodium fragmentKey options descriptor)
  let plaintextChunks ← (List.range descriptor.chunkCount).mapM
    (Session.downloadChunk sodium shortId fragmentKey options aeadKey descriptor.password.isEnabled)
  .result (assemble sodium descriptor shareMeta plaintextChunks)

theorem downloadFile_eq : Session.downloadFile sodium shortId fragmentKey options =
    if fragmentKey.length ≠ 32 then .result (.error (.downloadError "invalid decryption key" .keyInvalid))
    else .ask (.share shortId) (afterShare sodium shortId fragmentKey options) := by
  unfold Session.downloadFile
  rw [fetchShareMetadata_caught, throwIf]
  split <;> rfl

/-- Either no chunk is asked for, or the description has opened and its chunks are asked for one
after the other. -/
theorem afterShare_asks (sodium : Sodium) (shortId : String) (fragmentKey : Bytes) (options : DownloadOptions)
    (reply : Except ApiError ShareDescriptor) :
    (∃ thrown, afterShare sodium shortId fragmentKey options reply = .result (.error thrown)) ∨
      ∃ descriptor opened, reply = .ok descriptor ∧ openShare sodium fragmentKey options descriptor = .ok opened ∧
        (afterShare sodium shortId fragmentKey options reply).Asks
          ((List.range descriptor.chunkCount).map (chunkCall sodium shortId fragmentKey)) := by
  unfold afterShare
  cases got : fetched reply with
  | error thrown => exact .inl ⟨thrown, rfl⟩
  | ok descriptor =>
    cases opens : openShare sodium fragmentKey options descriptor with
    | error thrown =>
      refine .inl ⟨thrown, ?_⟩
      change (Dialogue.result (openShare sodium fragmentKey options descriptor) >>= _) = _
      rw [opens]
      rfl
    | ok opened =>
      refine .inr ⟨descriptor, opened, ?_, opens, ?_⟩
      · exact (fetched_ok got).1
      · change (Dialogue.result (openShare sodium fragmentKey options descriptor) >>= _).Asks _
        rw [opens]
        have loop : ((List.range descriptor.chunkCount).mapM (Session.downloadChunk sodium shortId fragmentKey options opened.1
            descriptor.password.isEnabled)).Asks
            ((List.range descriptor.chunkCount).map (chunkCall sodium shortId fragmentKey)) :=
          .mapM fun index _ => downloadChunk_asks opened.1 descriptor.password.isEnabled index
        have whole := Dialogue.Asks.bind loop fun chunks => .lift (assemble sodium descriptor opened.2 chunks)
        rwa [List.append_nil] at whole

theorem calls_nodup (count : ℕ) :
    (DownloadCall.share shortId :: (List.range count).map (chunkCall sodium shortId fragmentKey)).Nodup := by
  refine List.nodup_cons.mpr ⟨fun inside => ?_, (List.nodup_range).map chunkCall_injective⟩
  obtain ⟨index, -, same⟩ := List.mem_map.mp inside
  obtain ⟨request, called, -⟩ := chunkCall_index sodium shortId fragmentKey index
  rw [called] at same
  cases same

/-- How a download goes: it stops before the first chunk, or the description opens, and then the
chunks follow in order. -/
inductive Course (sodium : Sodium) (shortId : String) (fragmentKey : Bytes) (options : DownloadOptions) {σ : Type}
    (talk : Conversation DownloadCall DownloadCall.Answer Thrown DownloadResult σ) : Prop where
  | early (thrown : Thrown) (failed : talk.result = .error thrown) (asked : talk.requests <+: [.share shortId])
  | opened (descriptor : ShareDescriptor) (content : Bytes × ShareMeta)
      (said : ⟨.share shortId, .ok descriptor⟩ ∈ talk.transcript)
      (opens : openShare sodium fragmentKey options descriptor = .ok content)
      (order : talk.requests <+:
        .share shortId :: (List.range descriptor.chunkCount).map (chunkCall sodium shortId fragmentKey))
      (whole : ∀ result, talk.result = .ok result →
        talk.requests = .share shortId :: (List.range descriptor.chunkCount).map (chunkCall sodium shortId fragmentKey))

theorem downloadFile_course (sodium : Sodium) (shortId : String) (fragmentKey : Bytes) (options : DownloadOptions) {σ : Type}
    (serve : σ → (call : DownloadCall) → call.Answer × σ) (state : σ) :
    Course sodium shortId fragmentKey options
      ((Session.downloadFile sodium shortId fragmentKey options).converse serve state) := by
  rw [downloadFile_eq]
  split
  next => exact .early _ rfl List.nil_prefix
  next =>
    rw [Dialogue.converse]
    rcases afterShare_asks sodium shortId fragmentKey options (serve state (.share shortId)).1 with
      ⟨thrown, failed⟩ | ⟨descriptor, content, said, opens, asks⟩
    · rw [failed]
      exact .early thrown rfl (List.prefix_refl _)
    · obtain ⟨front, whole⟩ := asks.requests serve (serve state (.share shortId)).2
      refine .opened descriptor content ?_ opens (List.cons_prefix_cons.mpr ⟨rfl, front⟩) fun result returned => ?_
      · rw [← said]
        exact List.mem_cons_self
      · exact congrArg (DownloadCall.share shortId :: ·) (whole result returned)

theorem Course.once {σ : Type} {talk : Conversation DownloadCall DownloadCall.Answer Thrown DownloadResult σ}
    (course : Course sodium shortId fragmentKey options talk) : talk.requests.Nodup := by
  cases course with
  | early thrown failed asked => exact (List.nodup_singleton _).sublist asked.sublist
  | opened descriptor content said opens order whole => exact (calls_nodup _).sublist order.sublist

/-- The fixed services that a download could not tell from these. -/
theorem downloadFile_fixed (sodium : Sodium) (shortId : String) (fragmentKey : Bytes) (options : DownloadOptions) {σ : Type}
    (serve : σ → (call : DownloadCall) → call.Answer × σ) (state : σ) :
    let talk := (Session.downloadFile sodium shortId fragmentKey options).converse serve state
    ∃ server : DownloadServer, talk.result = SlothBox.downloadFile sodium server shortId fragmentKey options ∧
      (∀ id reply, ⟨.share id, reply⟩ ∈ talk.transcript → server.getShare id = reply.mapError ApiError.message) ∧
      ∀ request reply, ⟨.chunk request, reply⟩ ∈ talk.transcript → server.getChunk request = reply := by
  intro talk
  have course : Course sodium shortId fragmentKey options talk := downloadFile_course sodium shortId fragmentKey options serve state
  obtain ⟨oracle, said, same, -⟩ := Dialogue.exists_fixed unreachable _ serve state course.once
  refine ⟨settledServer oracle, same.symm.trans (downloadFile_settled oracle), fun id reply inside => ?_,
    fun request reply inside => said _ inside⟩
  exact congrArg (Except.mapError ApiError.message) (said _ inside)

end Downloading

/-- Services that remember gain nothing. Whatever they answer, and however that depends on what
they were asked before, a download returns what it would return from services settled
beforehand that answer the same. Before the description has come and has opened under the
key of the link nothing else is asked for; then its chunks are, each once, in order and
under its own token, and all of them before anything is returned. -/
theorem download_session (sodium : Sodium) (shortId : String) (fragmentKey : Bytes) (options : DownloadOptions) {σ : Type}
    (serve : σ → (call : DownloadCall) → call.Answer × σ) (state : σ) :
    let talk := (Session.downloadFile sodium shortId fragmentKey options).converse serve state
    (∃ server : DownloadServer, talk.result = SlothBox.downloadFile sodium server shortId fragmentKey options ∧
      (∀ id reply, ⟨.share id, reply⟩ ∈ talk.transcript → server.getShare id = reply.mapError ApiError.message) ∧
      ∀ request reply, ⟨.chunk request, reply⟩ ∈ talk.transcript → server.getChunk request = reply) ∧
    talk.requests.Nodup ∧ Course sodium shortId fragmentKey options talk := by
  intro talk
  have course : Course sodium shortId fragmentKey options talk := downloadFile_course sodium shortId fragmentKey options serve state
  exact ⟨downloadFile_fixed sodium shortId fragmentKey options serve state, course.once, course⟩

/-! ### A visit of the link -/

/-- A request for the description or, after one that opens for one of the attempts, for one
of its chunks. -/
def Earned (sodium : Sodium) (shortId : String) (key : Bytes) (required : Bool) (tries : List Attempt)
    (transcript : List (Sigma DownloadCall.Answer)) (call : DownloadCall) : Prop :=
  call = .share shortId ∨ ∃ descriptor index, call = chunkCall sodium shortId key index ∧ index < descriptor.chunkCount ∧
    ⟨.share shortId, .ok descriptor⟩ ∈ transcript ∧
    ∃ attempt ∈ tries, ∃ content, openShare sodium key (attempt.options required) descriptor = .ok content

/-- What the receiver's page has done when it rests: its requests were earned, but for the
last, which reports the download if and only if a file is shown; and such a file is one
that `downloadFile` returned. -/
structure Visit (sodium : Sodium) (shortId : String) (key : Bytes) (required : Bool) (tries : List Attempt) {σ : Type}
    (talk : Conversation DownloadCall DownloadCall.Answer Empty DecryptState σ) (state : DecryptState) : Prop where
  result : talk.result = .ok state
  order : ∃ earlier, talk.requests = earlier ++ (if state.isDone then [.downloaded shortId] else []) ∧
    ∀ call ∈ earlier, Earned sodium shortId key required tries talk.transcript call
  shown : ∀ blob fileName mimeType savedToDisk, state = .done blob fileName mimeType savedToDisk →
    savedToDisk = !isPreviewable mimeType fileName ∧ ∃ attempt ∈ tries, (∃ descriptor content,
      ⟨.share shortId, .ok descriptor⟩ ∈ talk.transcript ∧
        openShare sodium key (attempt.options required) descriptor = .ok content) ∧ ∃ server burnAfterRead,
      SlothBox.downloadFile sodium server shortId key (attempt.options required) =
        .ok ⟨blob, fileName, mimeType, burnAfterRead⟩

section Page
variable {sodium : Sodium} {shortId : String} {key : Bytes} {required : Bool} {σ : Type}
  {serve : σ → (call : DownloadCall) → call.Answer × σ}

theorem Earned.mono {tries more : List Attempt} {transcript longer : List (Sigma DownloadCall.Answer)} {call : DownloadCall}
    (tried : tries ⊆ more) (said : transcript ⊆ longer) (earned : Earned sodium shortId key required tries transcript call) :
    Earned sodium shortId key required more longer call := by
  rcases earned with same | ⟨descriptor, index, same, inside, reply, attempt, member, opens⟩
  · exact .inl same
  · exact .inr ⟨descriptor, index, same, inside, said reply, attempt, tried member, opens⟩

theorem caughtState_isDone (thrown : Thrown) : (caughtState thrown).isDone = false := by
  unfold caughtState
  dsimp only
  split_ifs <;> rfl

theorem Course.earned {attempt : Attempt} {talk : Conversation DownloadCall DownloadCall.Answer Thrown DownloadResult σ}
    (course : Course sodium shortId key (attempt.options required) talk) {call : DownloadCall}
    (inside : call ∈ talk.requests) : Earned sodium shortId key required [attempt] talk.transcript call := by
  cases course with
  | early thrown failed asked => exact .inl (List.mem_singleton.mp (asked.subset inside))
  | opened descriptor content said opens order whole =>
    rcases List.mem_cons.mp (order.subset inside) with same | chunk
    · exact .inl same
    · obtain ⟨index, listed, same⟩ := List.mem_map.mp chunk
      exact .inr ⟨descriptor, index, same.symm, List.mem_range.mp listed, said, attempt, List.mem_cons_self, content, opens⟩

theorem Course.opens {options : DownloadOptions} {talk : Conversation DownloadCall DownloadCall.Answer Thrown DownloadResult σ}
    (course : Course sodium shortId key options talk) {result : DownloadResult} (returned : talk.result = .ok result) :
    ∃ descriptor content, ⟨.share shortId, .ok descriptor⟩ ∈ talk.transcript ∧
      openShare sodium key options descriptor = .ok content := by
  cases course with
  | early thrown failed asked =>
    rw [failed] at returned
    cases returned
  | opened descriptor content said opens order whole => exact ⟨descriptor, content, said, opens⟩

/-- A press of the button that ends in an error. -/
theorem startDownload_caught {attempt : Attempt} {state : σ} {thrown : Thrown}
    (typed : (required && Utf16.length attempt.password == 0) = false)
    (failed : ((Session.downloadFile sodium shortId key (attempt.options required)).converse serve state).result =
      .error thrown) :
    (startDownload sodium shortId key required attempt).converse serve state =
      ⟨.ok (caughtState thrown),
        ((Session.downloadFile sodium shortId key (attempt.options required)).converse serve state).transcript,
        ((Session.downloadFile sodium shortId key (attempt.options required)).converse serve state).state⟩ := by
  rw [startDownload, typed, if_neg Bool.false_ne_true, Dialogue.converse_bind, Dialogue.converse_caught, failed]
  exact congrArg (Conversation.mk _ · _) (List.append_nil _)

/-- One that ends with the file. -/
theorem startDownload_done {attempt : Attempt} {state : σ} {result : DownloadResult}
    (typed : (required && Utf16.length attempt.password == 0) = false)
    (returned : ((Session.downloadFile sodium shortId key (attempt.options required)).converse serve state).result =
      .ok result) :
    (startDownload sodium shortId key required attempt).converse serve state =
      ⟨.ok (.done result.blob result.fileName result.mimeType (!isPreviewable result.mimeType result.fileName)),
        ((Session.downloadFile sodium shortId key (attempt.options required)).converse serve state).transcript ++
          [⟨.downloaded shortId, (serve ((Session.downloadFile sodium shortId key (attempt.options required)).converse serve
            state).state (.downloaded shortId)).1⟩],
        (serve ((Session.downloadFile sodium shortId key (attempt.options required)).converse serve state).state
          (.downloaded shortId)).2⟩ := by
  rw [startDownload, typed, if_neg Bool.false_ne_true, Dialogue.converse_bind, Dialogue.converse_caught, returned]
  rfl

theorem startDownload_visit (sodium : Sodium) (shortId : String) (key : Bytes) (required : Bool)
    (serve : σ → (call : DownloadCall) → call.Answer × σ) (attempt : Attempt) (state : σ) :
    ∃ shown, Visit sodium shortId key required [attempt]
      ((startDownload sodium shortId key required attempt).converse serve state) shown := by
  cases typed : required && Utf16.length attempt.password == 0 with
  | true =>
    refine ⟨.ready (some .errorRequired), ?_⟩
    rw [startDownload, typed, if_pos rfl]
    exact ⟨rfl, ⟨[], rfl, nofun⟩, nofun⟩
  | false =>
    have course := downloadFile_course sodium shortId key (attempt.options required) serve state
    obtain ⟨server, settled, -⟩ := downloadFile_fixed sodium shortId key (attempt.options required) serve state
    have earned : ∀ call ∈ ((Session.downloadFile sodium shortId key (attempt.options required)).converse serve state).requests,
        Earned sodium shortId key required [attempt] ((Session.downloadFile sodium shortId key (attempt.options
          required)).converse serve state).transcript call := fun _ inside => course.earned inside
    cases returned : ((Session.downloadFile sodium shortId key (attempt.options required)).converse serve state).result with
    | error thrown =>
      rw [startDownload_caught typed returned]
      have resting := caughtState_isDone thrown
      refine ⟨caughtState thrown, rfl, ⟨_, ?_, earned⟩, ?_⟩
      · rw [resting, if_neg Bool.false_ne_true, List.append_nil]
        rfl
      · intro blob fileName mimeType savedToDisk same
        rw [same] at resting
        cases resting
    | ok result =>
      rw [startDownload_done typed returned]
      refine ⟨_, rfl, ⟨((Session.downloadFile sodium shortId key (attempt.options required)).converse serve state).requests,
        ?_, fun call inside => ?_⟩, ?_⟩
      · exact List.map_append
      · exact (earned call inside).mono (List.Subset.refl _) (List.subset_append_left _ _)
      · intro blob fileName mimeType savedToDisk same
        cases same
        obtain ⟨descriptor, content, said, opens⟩ := course.opens returned
        exact ⟨rfl, attempt, List.mem_cons_self, ⟨descriptor, content, List.mem_append_left _ said, opens⟩, server,
          result.burnAfterRead, settled.symm.trans returned⟩

theorem attempts_visit (sodium : Sodium) (shortId : String) (key : Bytes) (required : Bool)
    (serve : σ → (call : DownloadCall) → call.Answer × σ) (tries : List Attempt) (before : DecryptState) (resting : before.isDone = false) (state : σ) :
    ∃ shown, Visit sodium shortId key required tries
      ((attempts sodium shortId key required before tries).converse serve state) shown := by
  induction tries generalizing before state with
  | nil =>
    refine ⟨before, rfl, ⟨[], ?_, nofun⟩, ?_⟩
    · rw [resting]
      rfl
    · intro blob fileName mimeType savedToDisk same
      rw [same] at resting
      cases resting
  | cons attempt rest ih =>
    obtain ⟨shown, first⟩ := startDownload_visit sodium shortId key required serve attempt state
    obtain ⟨earlier, order, earned⟩ := first.order
    rw [attempts, Dialogue.converse_bind_ok _ first.result]
    have tried : [attempt] ⊆ attempt :: rest := List.cons_subset_cons attempt (List.nil_subset rest)
    cases ended : shown.isDone with
    | true =>
      rw [if_pos rfl]
      refine ⟨shown, rfl, ⟨earlier, ?_, fun call inside => ?_⟩, fun blob fileName mimeType savedToDisk same => ?_⟩
      · rw [ended, if_pos rfl] at order
        rw [ended, if_pos rfl, ← order]
        exact congrArg List.keys (List.append_nil _)
      · exact (earned call inside).mono tried (List.subset_append_left _ _)
      · obtain ⟨saved, other, member, ⟨descriptor, content, said, opens⟩, downloaded⟩ := first.shown _ _ _ _ same
        exact ⟨saved, other, tried member, ⟨descriptor, content, List.mem_append_left _ said, opens⟩, downloaded⟩
    | false =>
      rw [if_neg Bool.false_ne_true]
      obtain ⟨last, later⟩ := ih shown ended ((startDownload sodium shortId key required attempt).converse serve state).state
      obtain ⟨others, orderLater, earnedLater⟩ := later.order
      refine ⟨last, later.result, ⟨earlier ++ others, ?_, fun call inside => ?_⟩,
        fun blob fileName mimeType savedToDisk same => ?_⟩
      · rw [ended, if_neg Bool.false_ne_true, List.append_nil] at order
        rw [List.append_assoc, ← order, ← orderLater]
        exact List.map_append
      · rcases List.mem_append.mp inside with before | after
        · exact (earned call before).mono tried (List.subset_append_left _ _)
        · exact (earnedLater call after).mono (List.subset_cons_self _ _) (List.subset_append_right _ _)
      · obtain ⟨saved, other, member, ⟨descriptor, content, said, opens⟩, downloaded⟩ := later.shown _ _ _ _ same
        exact ⟨saved, other, List.mem_cons_of_mem _ member, ⟨descriptor, content, List.mem_append_right _ said, opens⟩,
          downloaded⟩

/-- Nothing but the description is asked for if it does not open for any attempt. -/
theorem Visit.sober {tries : List Attempt} {talk : Conversation DownloadCall DownloadCall.Answer Empty DecryptState σ}
    {state : DecryptState} (visit : Visit sodium shortId key required tries talk state)
    (closed : ∀ descriptor, ⟨.share shortId, .ok descriptor⟩ ∈ talk.transcript →
      ∀ attempt ∈ tries, ∀ content, openShare sodium key (attempt.options required) descriptor ≠ .ok content) :
    state.isDone = false ∧ ∀ call ∈ talk.requests, call = .share shortId := by
  have resting : state.isDone = false := by
    cases state with
    | ready => rfl
    | error => rfl
    | done blob fileName mimeType savedToDisk =>
      obtain ⟨-, attempt, member, ⟨descriptor, content, said, opens⟩, -⟩ := visit.shown _ _ _ _ rfl
      exact absurd opens (closed descriptor said attempt member content)
  obtain ⟨earlier, order, earned⟩ := visit.order
  rw [resting, if_neg Bool.false_ne_true, List.append_nil] at order
  refine ⟨resting, fun call inside => ?_⟩
  rcases earned call (order ▸ inside) with same | ⟨descriptor, index, -, -, said, attempt, member, content, opens⟩
  · exact same
  · exact absurd opens (closed descriptor said attempt member content)

/-- Without a key in the link nobody is asked. -/
theorem shareReceiver_keyless {hash : String} (missing : extractKeyFromHash hash = none) (tries : List Attempt) (state : σ) :
    (shareReceiver sodium shortId hash tries).converse serve state = ⟨.ok .missingKey, [], state⟩ := by
  rw [shareReceiver, missing]
  rfl

theorem shareReceiver_error {hash : String} (found : extractKeyFromHash hash = some key) {tries : List Attempt} {state : σ}
    {err : ApiError} (refused : described (serve state (.share shortId)).1 = .error err) :
    (shareReceiver sodium shortId hash tries).converse serve state =
      ⟨.ok (.error (mapApiError err)), [⟨.share shortId, (serve state (.share shortId)).1⟩], (serve state (.share shortId)).2⟩ := by
  rw [shareReceiver, found, getShare_eq]
  dsimp only
  rw [Dialogue.converse_bind_ok _ (by rw [Dialogue.converse_caught]), Dialogue.converse_caught]
  simp only [Dialogue.converse]
  rw [refused]
  rfl

/-- With a description the page goes on to the attempts. -/
theorem shareReceiver_shown {hash : String} (found : extractKeyFromHash hash = some key) {tries : List Attempt} {state : σ}
    {descriptor : ShareDescriptor} (came : described (serve state (.share shortId)).1 = .ok descriptor) {shown : DecryptState}
    (result : ((attempts sodium shortId key descriptor.password.isEnabled (.ready none) tries).converse serve
      (serve state (.share shortId)).2).result = .ok shown) :
    let rest := (attempts sodium shortId key descriptor.password.isEnabled (.ready none) tries).converse serve
      (serve state (.share shortId)).2
    (shareReceiver sodium shortId hash tries).converse serve state =
      ⟨.ok (.shown shown), ⟨.share shortId, .ok descriptor⟩ :: rest.transcript, rest.state⟩ := by
  intro rest
  rw [shareReceiver, found, getShare_eq]
  dsimp only
  rw [Dialogue.converse_bind_ok _ (by rw [Dialogue.converse_caught]), Dialogue.converse_caught]
  simp only [Dialogue.converse]
  rw [came]
  dsimp only
  rw [Dialogue.converse_bind_ok _ result, (described_ok came).1]
  exact congrArg (fun transcript => Conversation.mk _ (_ :: transcript) _) (List.append_nil _)

theorem shareReceiver_visit (sodium : Sodium) (shortId : String) (serve : σ → (call : DownloadCall) → call.Answer × σ)
    {hash : String} (found : extractKeyFromHash hash = some key) (tries : List Attempt) (state : σ) :
    (∃ err, (shareReceiver sodium shortId hash tries).converse serve state =
        ⟨.ok (.error (mapApiError err)), [⟨.share shortId, (serve state (.share shortId)).1⟩], (serve state (.share shortId)).2⟩) ∨
      ∃ descriptor shown, descriptor.isValid ∧ ∃ rest : Conversation DownloadCall DownloadCall.Answer Empty DecryptState σ,
        (shareReceiver sodium shortId hash tries).converse serve state =
          ⟨.ok (.shown shown), ⟨.share shortId, .ok descriptor⟩ :: rest.transcript, rest.state⟩ ∧
        Visit sodium shortId key descriptor.password.isEnabled tries rest shown := by
  cases got : described (serve state (.share shortId)).1 with
  | error err => exact .inl ⟨err, shareReceiver_error found got⟩
  | ok descriptor =>
    obtain ⟨shown, visit⟩ := attempts_visit sodium shortId key descriptor.password.isEnabled serve tries (.ready none) rfl
      (serve state (.share shortId)).2
    exact .inr ⟨descriptor, shown, (described_ok got).2, _, shareReceiver_shown found got visit.result, visit⟩

end Page

/-- A visit of a link, with any number of attempts, each begun after the last has ended, and
any services. Without a key in the link nobody is asked; without a description there is an
error and no more; after that every request is for the description or for a chunk of one that
has opened, in the end one says that the file is there, if and only if it is, and the file is
one that `downloadFile` returned. In particular a visit with the wrong key or only wrong
passwords asks for nothing but the description. -/
theorem link_visit (sodium : Sodium) (shortId hash : String) (tries : List Attempt) {σ : Type}
    (serve : σ → (call : DownloadCall) → call.Answer × σ) (state : σ) :
    let talk := (shareReceiver sodium shortId hash tries).converse serve state
    (extractKeyFromHash hash = none ∧ talk.result = .ok .missingKey ∧ talk.requests = []) ∨
      (∃ err, talk.result = .ok (.error (mapApiError err)) ∧ talk.requests = [.share shortId]) ∨
      ∃ key descriptor shown, ∃ rest : Conversation DownloadCall DownloadCall.Answer Empty DecryptState σ,
        extractKeyFromHash hash = some key ∧ talk.result = .ok (.shown shown) ∧
        talk.transcript = ⟨.share shortId, .ok descriptor⟩ :: rest.transcript ∧
        Visit sodium shortId key descriptor.password.isEnabled tries rest shown ∧
        ((∀ said, ⟨.share shortId, .ok said⟩ ∈ talk.transcript → ∀ attempt ∈ tries, ∀ content,
            openShare sodium key (attempt.options descriptor.password.isEnabled) said ≠ .ok content) →
          shown.isDone = false ∧ ∀ call ∈ talk.requests, call = .share shortId) := by
  intro talk
  cases found : extractKeyFromHash hash with
  | none =>
    have quiet : talk = _ := shareReceiver_keyless found tries state
    rw [quiet]
    exact .inl ⟨rfl, rfl, rfl⟩
  | some key =>
    rcases shareReceiver_visit sodium shortId serve found tries state with
      ⟨err, refused⟩ | ⟨descriptor, shown, -, rest, came, visit⟩
    · have shape : talk = _ := refused
      rw [shape]
      exact .inr (.inl ⟨err, rfl, rfl⟩)
    · have shape : talk = _ := came
      rw [shape]
      refine .inr (.inr ⟨key, descriptor, shown, rest, rfl, rfl, rfl, visit, fun closed => ?_⟩)
      obtain ⟨resting, sober⟩ := visit.sober fun said inside => closed said (List.mem_cons_of_mem _ inside)
      refine ⟨resting, fun call inside => ?_⟩
      rcases List.mem_cons.mp inside with same | later
      · exact same
      · exact sober call later

end SlothBox.Proofs

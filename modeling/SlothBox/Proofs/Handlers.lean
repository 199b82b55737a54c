import SlothBox.Backend
import SlothBox.Proofs.Steps

/-! One request after the other, with nobody else there and nothing failing. What each handler
leaves is computed once, and a request handled so is a run of the whole system. -/

namespace SlothBox.Proofs
open Library

/-! ### A handler to its end -/

section Handlers
variable {env : Env} {clock : Timestamp} {pid : ℕ} {store : Store}

/-- One more statement of a handler that sends nothing by it. -/
theorem handle_next {steps : ℕ} {db : Database} {proc : Proc} {handled : Handled} (next : Proc) (effect : Effect)
    (after : Database) (executed : proc.exec env db clock .ok = some (next, effect)) (left : db.apply pid effect = after)
    (quiet : proc.sends db.store = none) (rest : next.handle env clock pid steps after = handled) :
    proc.handle env clock pid (steps + 1) db = handled := by
  subst left rest
  rw [Proc.handle, executed, quiet]
  rfl

theorem handle_over {steps : ℕ} {db : Database} {proc : Proc} (finished : proc.finished) :
    proc.handle env clock pid steps db = ⟨db, proc, none⟩ := by
  cases steps with
  | zero => rfl
  | succ steps =>
    have idle : proc.exec env db clock .ok = none := by
      cases proc with
      | crashed => rfl
      | create request step => cases step <;> first | rfl | cases finished
      | put request step => cases step <;> first | rfl | cases finished
      | get request step => cases step <;> first | rfl | cases finished
      | downloaded request step => cases step <;> first | rfl | cases finished
      | destroy request step => cases step <;> first | rfl | cases finished
      | sweep step => cases step <;> first | rfl | cases finished
    rw [Proc.handle, idle]

theorem auto_chunk {index : ℕ} {chunk : ChunkRow} : Database.apply ⟨store, none⟩ pid (.auto { chunk := some (index, chunk) }) =
    ⟨{ store with chunks := store.chunks.insert index chunk }, none⟩ := by
  simp [Database.apply, WriteSet.apply]

theorem auto_share {row : ShareRow} : Database.apply ⟨store, none⟩ pid (.auto { share := some row }) =
    ⟨{ store with share := some row }, none⟩ := by
  simp [Database.apply, WriteSet.apply]

theorem auto_events {events : List AuditEvent} : Database.apply ⟨store, none⟩ pid (.auto { events }) =
    ⟨{ store with audit := store.audit ++ events }, none⟩ := by
  simp [Database.apply, WriteSet.apply]

/-- The chunk row and the blob that a PUT leaves. -/
def filed (request : PutRequest) (plan : PutPlan) (clock : Timestamp) (store : Store) : Store :=
  { store with
    chunks := store.chunks.insert plan.index (upsertChunk store plan.index plan.nonce plan.blobKey plan.ciphertextSize clock
      plan.downloadTokenHash)
    blobs := store.blobs.insert plan.blobKey request.body }

/-- The state that a PUT moves its share to. -/
def promotedRow (row : ShareRow) (store : Store) : ShareRow :=
  { row with state := if row.chunkCount ≤ store.countUploadedChunks then .ready else .uploading }

def putStore (row : ShareRow) (request : PutRequest) (plan : PutPlan) (clock : Timestamp) (store : Store) : Store :=
  { filed request plan clock store with share := some (promotedRow row (filed request plan clock store)) }

theorem put_handled {request : PutRequest} {row : ShareRow} {plan : PutPlan} (found : store.share = some row)
    (named : row.shortId = request.shortId) (planned : request.check env.options row clock = .ok plan)
    (whole : request.body.length = plan.ciphertextSize) :
    (Request.put request).start.handle env clock pid longest ⟨store, none⟩ =
      ⟨⟨putStore row request plan clock store, none⟩, .put request .created, none⟩ := by
  have read : store.find request.shortId = some row := find_eq_some.mpr ⟨found, named⟩
  obtain ⟨accepts, shared, -, -⟩ := check_ok planned
  have accepting : row.state = .pending ∨ row.state = .uploading := by simpa [ShareRow.canAcceptUploads] using accepts
  let left := filed request plan clock store
  let uploading : Store := { left with share := some { row with state := .uploading } }
  have own : left.findById row.id = some row := findById_eq_some.mpr ⟨found, rfl⟩
  have again : uploading.findById row.id = some { row with state := .uploading } := findById_eq_some.mpr ⟨rfl, rfl⟩
  -- from the count on the two paths are one
  have counted : ∀ steps, (Proc.put request (.countChunks plan)).handle env clock pid (steps + 2) ⟨uploading, none⟩ =
      ⟨⟨putStore row request plan clock store, none⟩, .put request .created, none⟩ := by
    intro steps
    by_cases full : row.chunkCount ≤ left.countUploadedChunks
    · have ready : promotedRow row left = { row with state := .ready } := by rw [promotedRow, if_pos full]
      have counts : row.chunkCount ≤ uploading.countUploadedChunks := full
      refine handle_next (.put request (.setReady plan)) .skip ⟨uploading, none⟩ ?_ rfl rfl ?_
      · simp only [Proc.exec, PutStep.exec, attemptRead, shared, counts, if_true, Option.map_some, Prod.map_apply, id_eq]
      refine handle_next (.put request .created) (.auto { share := some { row with state := .ready } }) _ ?_ auto_share rfl ?_
      · simp only [Proc.exec, PutStep.exec, attempt, updateShareState, shared, again]
        rfl
      · rw [putStore, ready]
        exact handle_over rfl
    · have short : promotedRow row left = { row with state := .uploading } := by rw [promotedRow, if_neg full]
      have counts : ¬row.chunkCount ≤ uploading.countUploadedChunks := full
      refine handle_next (.put request .created) .skip ⟨uploading, none⟩ ?_ rfl rfl ?_
      · simp only [Proc.exec, PutStep.exec, attemptRead, shared, counts, if_true, if_false, Option.map_some, Prod.map_apply, id_eq]
      · rw [putStore, short]
        exact handle_over rfl
  refine handle_next (.put request .readShare) .skip ⟨store, none⟩ rfl rfl rfl ?_
  refine handle_next (.put request (.putBlob plan)) .skip ⟨store, none⟩ ?_ rfl rfl ?_
  · simp only [Proc.exec, PutStep.exec, attemptRead, read, planned, if_true, Option.map_some, Prod.map_apply, id_eq]
  refine handle_next (.put request (.upsert plan clock)) (.putBlob plan.blobKey request.body) _ ?_ rfl rfl ?_
  · simp only [Proc.exec, PutStep.exec, attempt, whole, if_true, Option.map_some, Prod.map_apply, id_eq]
  rcases accepting with pending | already
  · refine handle_next (.put request (.setUploading plan)) (.auto { chunk := some (plan.index, _) }) ⟨left, none⟩ ?_ auto_chunk rfl ?_
    · simp only [Proc.exec, PutStep.exec, attempt, shared, pending]
      rfl
    refine handle_next (.put request (.countChunks plan)) (.auto { share := some { row with state := .uploading } })
      ⟨uploading, none⟩ ?_ auto_share rfl (counted 4)
    simp only [Proc.exec, PutStep.exec, attempt, updateShareState, shared, own]
    rfl
  · have still : { row with state := .uploading } = row := by rw [← already]
    have same : uploading = left := by
      simp only [uploading, left, filed, found, still]
    rw [same] at counted
    refine handle_next (.put request (.countChunks plan)) (.auto { chunk := some (plan.index, _) }) ⟨left, none⟩ ?_ auto_chunk rfl ?_
    · simp only [Proc.exec, PutStep.exec, attempt, shared, already]
      rfl
    exact counted 5

/-- The statement by which the body goes out. -/
theorem handle_sends {steps : ℕ} {db : Database} {proc : Proc} {handled : Handled} {sent : Bytes × Bytes} (next : Proc)
    (effect : Effect) (after : Database) (executed : proc.exec env db clock .ok = some (next, effect))
    (left : db.apply pid effect = after) (sends : proc.sends db.store = some sent)
    (rest : next.handle env clock pid steps after = handled) :
    proc.handle env clock pid (steps + 1) db = { handled with sent := some sent } := by
  subst left rest
  rw [Proc.handle, executed, sends]
  rfl

/-- The chunk row that a delivery leaves. -/
def stampedStore (index : ℕ) (chunk : ChunkRow) (clock : Timestamp) (store : Store) : Store :=
  { store with chunks := store.chunks.insert index (stampServed clock chunk) }

/-- What a delivery leaves: the last one of a burn share ends it. -/
def servedStore (row : ShareRow) (index : ℕ) (chunk : ChunkRow) (clock : Timestamp) (store : Store) : Store :=
  let stamped := stampedStore index chunk clock store
  if row.burnAfterRead ∧ stamped.countUnserved = 0 then
    { stamped with share := some (burn clock row), audit := store.audit ++ [burnEvent row.id (burn clock row)] }
  else stamped

/-- The transaction behind a delivery. -/
theorem mark_handled {request : GetRequest} {row : ShareRow} {chunk : ChunkRow} (found : store.share = some row)
    (ready : row.state = .ready) (held : store.chunks.lookup request.chunkIndex.toNat = some chunk) :
    ∃ marked, (Proc.get request (.mark row .lockShare)).handle env clock pid 6 ⟨store, none⟩ =
      ⟨⟨servedStore row request.chunkIndex.toNat chunk clock store, none⟩,
        .get request (.done (.http 200 none) true marked), none⟩ := by
  have known : store.findById row.id = some row := findById_eq_some.mpr ⟨found, rfl⟩
  let stamped := stampedStore request.chunkIndex.toNat chunk clock store
  have view : Database.view ⟨store, some ⟨pid, clock, { chunk := some (request.chunkIndex.toNat, stampServed clock chunk) }⟩⟩ = stamped := by
    simp [Database.view, WriteSet.apply, stamped, stampedStore]
  let opened : Database := ⟨store, some ⟨pid, clock, {}⟩⟩
  let staged : Database := ⟨store, some ⟨pid, clock, { chunk := some (request.chunkIndex.toNat, stampServed clock chunk) }⟩⟩
  have early : opened.view.chunks.lookup request.chunkIndex.toNat = some chunk := held
  have committed : ∀ result steps, (Proc.get request (.mark row (.commit result))).handle env clock pid (steps + 1) staged =
      ⟨⟨stamped, none⟩, .get request (.done (.http 200 none) true (some result)), none⟩ := by
    intro result steps
    refine handle_next (.get request (.done (.http 200 none) true (some result))) .commit ⟨stamped, none⟩ rfl ?_ rfl
      (handle_over rfl)
    rw [Database.apply, view]
  unfold servedStore
  have locks : (Proc.get request (.mark row .lockShare)).exec env ⟨store, none⟩ clock .ok =
      some (.get request (.mark row (.stampChunk row)), .begin clock) := by
    simp only [Proc.exec, GetStep.exec, MarkStep.exec, known]
    rfl
  cases burns : row.burnAfterRead with
  | false =>
    rw [if_neg (by simp)]
    refine ⟨some ⟨false, some row.state⟩, ?_⟩
    refine handle_next (.get request (.mark row (.stampChunk row))) (.begin clock) opened locks rfl rfl ?_
    refine handle_next (.get request (.mark row (.commit ⟨false, some row.state⟩)))
      (.stage { chunk := some (request.chunkIndex.toNat, stampServed clock chunk) }) staged ?_ rfl rfl (committed _ 3)
    simp only [Proc.exec, GetStep.exec, MarkStep.exec, attemptInside, early, burns]
    rfl
  | true =>
    have stamps : (Proc.get request (.mark row (.stampChunk row))).exec env opened clock .ok =
        some (.get request (.mark row (.countUnserved row)), .stage { chunk := some (request.chunkIndex.toNat, stampServed clock chunk) }) := by
      simp only [Proc.exec, GetStep.exec, MarkStep.exec, attemptInside, early, burns, ready]
      rfl
    by_cases last : stamped.countUnserved = 0
    · rw [if_pos ⟨rfl, last⟩]
      refine ⟨some ⟨true, some .destroyed⟩, ?_⟩
      refine handle_next (.get request (.mark row (.stampChunk row))) (.begin clock) opened locks rfl rfl ?_
      refine handle_next (.get request (.mark row (.countUnserved row))) _ staged stamps rfl rfl ?_
      refine handle_next (.get request (.mark row (.flip row))) .skip staged ?_ rfl rfl ?_
      · simp only [Proc.exec, GetStep.exec, MarkStep.exec, attemptInside, staged, view, last, if_true]
        rfl
      have own : stamped.findById row.id = some row := findById_eq_some.mpr ⟨found, rfl⟩
      let flipped : Database := ⟨store, some ⟨pid, clock, { share := some (burn clock row), chunk := some (request.chunkIndex.toNat, stampServed clock chunk) }⟩⟩
      refine handle_next (.get request (.mark row (.append (burn clock row)))) (.stage { share := some (burn clock row) }) flipped ?_ rfl rfl ?_
      · simp only [Proc.exec, GetStep.exec, MarkStep.exec, attemptInside, staged, view, own, ready, if_true]
        rfl
      refine handle_next (.get request (.mark row (.commit ⟨true, some .destroyed⟩))) (.stage { events := [burnEvent row.id (burn clock row)] }) _ rfl rfl rfl ?_
      refine handle_next (.get request (.done (.http 200 none) true (some ⟨true, some .destroyed⟩))) .commit _ rfl rfl rfl ?_
      exact handle_over rfl
    · rw [if_neg (fun both => last both.2)]
      refine ⟨some ⟨false, some row.state⟩, ?_⟩
      refine handle_next (.get request (.mark row (.stampChunk row))) (.begin clock) opened locks rfl rfl ?_
      refine handle_next (.get request (.mark row (.countUnserved row))) _ staged stamps rfl rfl ?_
      refine handle_next (.get request (.mark row (.commit ⟨false, some row.state⟩))) .skip staged ?_ rfl rfl (committed _ 2)
      simp only [Proc.exec, GetStep.exec, MarkStep.exec, attemptInside, staged, view, last, if_false]
      rfl

theorem get_handled {request : GetRequest} {row : ShareRow} {chunk : ChunkRow} {content : Bytes} (found : store.share = some row)
    (named : row.shortId = request.shortId) (ready : row.state = .ready) (live : row.isExpired clock = false)
    (inside : 0 ≤ request.chunkIndex ∧ request.chunkIndex < row.chunkCount)
    (held : store.chunks.lookup request.chunkIndex.toNat = some chunk) (admitted : request.check env row chunk = .ok ())
    (blob : store.blobs.lookup chunk.blobKey = some content) :
    ∃ marked, (Request.get request).start.handle env clock pid longest ⟨store, none⟩ =
      ⟨⟨servedStore row request.chunkIndex.toNat chunk clock store, none⟩, .get request (.done (.http 200 none) true marked),
        some (chunk.nonce, content)⟩ := by
  have read : store.find request.shortId = some row := find_eq_some.mpr ⟨found, named⟩
  have serves : row.canServeDownloads = true := by simp [ShareRow.canServeDownloads, ready]
  have range : ¬(request.chunkIndex < 0 ∨ (row.chunkCount : ℤ) ≤ request.chunkIndex) := by omega
  obtain ⟨marked, marks⟩ : ∃ marked, (Proc.get request (.mark row .lockShare)).handle env clock pid 6 ⟨store, none⟩ =
      ⟨⟨servedStore row request.chunkIndex.toNat chunk clock store, none⟩,
        .get request (.done (.http 200 none) true marked), none⟩ := mark_handled found ready held
  refine ⟨marked, ?_⟩
  refine handle_next (.get request .readShare) .skip ⟨store, none⟩ rfl rfl rfl ?_
  refine handle_next (.get request (.readChunk row)) .skip ⟨store, none⟩ ?_ rfl rfl ?_
  · simp only [Proc.exec, GetStep.exec, attemptRead, read, serves, live, range, if_true, if_false, Bool.true_eq_false, Bool.false_eq_true, or_self, Option.map_some, Prod.map_apply, id_eq]
  refine handle_next (.get request (.stream row chunk)) .skip ⟨store, none⟩ ?_ rfl rfl ?_
  · simp only [Proc.exec, GetStep.exec, attemptRead, held, admitted, if_true, Option.map_some, Prod.map_apply, id_eq]
  refine handle_next (.get request (.body row chunk)) .skip ⟨store, none⟩ ?_ rfl rfl ?_
  · simp only [Proc.exec, GetStep.exec, attemptRead, blob, Option.isSome_some, if_true, Option.map_some, Prod.map_apply, id_eq]
  refine handle_sends (.get request (.mark row .lockShare)) .skip ⟨store, none⟩ rfl rfl ?_ marks
  rw [Proc.sends, blob]
  rfl

/-- A download of a share that is over is not counted. -/
theorem downloaded_handled_over {request : DownloadedRequest} {row : ShareRow} (found : store.share = some row)
    (named : row.shortId = request.shortId) (valid : validShortId request.shortId = true) (ended : row.state.terminal = true) :
    (Request.downloaded request).start.handle env clock pid longest ⟨store, none⟩ =
      ⟨⟨store, none⟩, .downloaded request (.done (.state row.state)), none⟩ := by
  have read : store.find request.shortId = some row := find_eq_some.mpr ⟨found, named⟩
  refine handle_next (.downloaded request .readShare) .skip ⟨store, none⟩ ?_ rfl rfl ?_
  · simp only [Request.start, Proc.exec, DownloadedStep.exec, limited, valid, if_true]
    rfl
  refine handle_next (.downloaded request (.done (.state row.state))) .skip ⟨store, none⟩ ?_ rfl rfl (handle_over rfl)
  simp only [Proc.exec, DownloadedStep.exec, attemptRead, read, ended, if_true, Option.map_some, Prod.map_apply, id_eq]

theorem downloaded_handled {request : DownloadedRequest} {row updated : ShareRow} (found : store.share = some row)
    (named : row.shortId = request.shortId) (valid : validShortId request.shortId = true)
    (going : row.state.terminal = false) (counted : incrementDownload clock row = some updated) :
    (Request.downloaded request).start.handle env clock pid longest ⟨store, none⟩ =
      ⟨⟨{ store with share := some updated, audit := store.audit ++ [downloadedEvent request updated] }, none⟩,
        .downloaded request (.done (.state updated.state)), none⟩ := by
  have read : store.find request.shortId = some row := find_eq_some.mpr ⟨found, named⟩
  refine handle_next (.downloaded request .readShare) .skip ⟨store, none⟩ ?_ rfl rfl ?_
  · simp only [Request.start, Proc.exec, DownloadedStep.exec, limited, valid, if_true]
    rfl
  refine handle_next (.downloaded request .increment) .skip ⟨store, none⟩ ?_ rfl rfl ?_
  · simp only [Proc.exec, DownloadedStep.exec, attemptRead, read, going, if_true, Bool.false_eq_true, if_false, Option.map_some,
      Prod.map_apply, id_eq]
  refine handle_next (.downloaded request (.append updated)) (.auto { share := some updated }) _ ?_ auto_share rfl ?_
  · simp only [Proc.exec, DownloadedStep.exec, attempt, read, Option.bind_some, counted]
    rfl
  refine handle_next (.downloaded request (.done (.state updated.state))) (.auto { events := [downloadedEvent request updated] }) _
    rfl auto_events rfl (handle_over rfl)

/-- A share that is not there is not created by asking for it. -/
theorem create_handled {request : CreateRequest} (absent : store.share = none)
    (valid : (request.row clock).checks = true ∧ (request.row clock).fits = true) :
    (Request.create request).start.handle env clock pid longest ⟨store, none⟩ =
      ⟨⟨{ store with share := some (request.row clock), audit := store.audit ++ [request.event clock] }, none⟩,
        .create request (.done request.reply), none⟩ := by
  refine handle_next (.create request .insert) .skip ⟨store, none⟩ rfl rfl rfl ?_
  refine handle_next (.create request (.append (request.event clock))) (.auto { share := some (request.row clock) }) _ ?_
    auto_share rfl ?_
  · simp only [Proc.exec, CreateStep.exec, absent, valid.1, valid.2, Bool.and_self, if_true, attempt, Option.map_some,
      Prod.map_apply, id_eq]
  exact handle_next (.create request (.done request.reply)) (.auto { events := [request.event clock] }) _ rfl auto_events rfl
    (handle_over rfl)

end Handlers

/-! ### Runs -/

theorem handle_reachable {env : Env} {clock : Timestamp} {procs : List Proc} (steps : ℕ) (db : Database) (proc : Proc) :
    (system env).Reachable (fun _ _ => True) ⟨db, procs ++ [proc]⟩
      ⟨(proc.handle env clock procs.length steps db).db, procs ++ [(proc.handle env clock procs.length steps db).proc]⟩ := by
  induction steps generalizing db proc with
  | zero => exact ⟨[], .nil⟩
  | succ steps ih =>
    rw [Proc.handle]
    cases executed : proc.exec env db clock .ok with
    | none => exact ⟨[], .nil⟩
    | some moved =>
      obtain ⟨next, effect⟩ := moved
      have taken : (system env).step ⟨db, procs ++ [proc]⟩ (.exec procs.length clock .ok) =
          some ⟨db.apply procs.length effect, procs ++ [next]⟩ := by
        simp [system, World.step, executed]
      exact (System.Reachable.step trivial taken).trans (ih _ next)

/-- A request that is handled alone is a run of the system. -/
theorem after_reachable (deployment : Deployment) (world : World) (request : Request) :
    (system deployment.env).Reachable (fun _ _ => True) world (world.after deployment request) := by
  have spawned : (system deployment.env).step world (.spawn request) =
      some ⟨world.db, world.procs ++ [request.start]⟩ := rfl
  exact (System.Reachable.step trivial spawned).trans (handle_reachable longest world.db request.start)

theorem serveUpload_reachable (deployment : Deployment) (world : World) (call : Session.UploadCall) :
    (system deployment.env).Reachable (fun _ _ => True) world (deployment.serveUpload world call).2 := by
  cases call with
  | create request =>
    unfold Deployment.serveUpload postShares
    dsimp only
    cases deployment.decode world request.toJson with
    | error reply => exact ⟨[], .nil⟩
    | ok decoded => exact after_reachable deployment world (.create decoded)
  | put index request =>
    unfold Deployment.serveUpload putChunk
    dsimp only
    cases chunkRoute (uploadBase deployment.gateway.ingestPublicUrl) request.url with
    | none => exact ⟨[], .nil⟩
    | some route => exact after_reachable deployment world (.put (request.received route.1 route.2))

theorem serveDownload_reachable (deployment : Deployment) (world : World) (call : Session.DownloadCall) :
    (system deployment.env).Reachable (fun _ _ => True) world (deployment.serveDownload world call).2 := by
  cases call with
  | share shortId => exact ⟨[], .nil⟩
  | chunk request =>
    unfold Deployment.serveDownload getChunk
    dsimp only
    split
    next => exact after_reachable deployment world (.get ⟨request.shortId, request.chunkIndex, some request.authorization⟩)
    next => exact ⟨[], .nil⟩
  | downloaded shortId => exact after_reachable deployment world (.downloaded ⟨shortId⟩)

/-- However a browser talks to the services, what they go through is a run. -/
theorem converse_reachable {ρ : Type} {answer : ρ → Type} {ε α : Type} {env : Env} {serve : World → (call : ρ) → answer call × World}
    (step : ∀ world call, (system env).Reachable (fun _ _ => True) world (serve world call).2)
    (program : Dialogue ρ answer ε α) (start : World) :
    (system env).Reachable (fun _ _ => True) start (program.converse serve start).state :=
  Dialogue.converse_keeps (motive := fun world => (system env).Reachable (fun _ _ => True) start world)
    (fun world call (_ : True) reached => reached.trans (step world call)) program (fun _ _ => trivial) ⟨[], .nil⟩

end SlothBox.Proofs

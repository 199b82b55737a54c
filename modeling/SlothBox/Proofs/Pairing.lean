import SlothBox.Proofs.Blobs

/-! The row of a chunk and the blob under its key, when uploads of the chunk race or fail.
Both are written under the same key, one after the other, so what matters is whether the
upload whose blob is stored is still to write its row. -/

namespace SlothBox.Proofs
open Library

variable {env : Env} {world next : World} {event : Event} {shortId : String}

/-- Only uploads are started. -/
def onlyUploads : Event → Bool
  | .spawn (.put _) => true
  | .spawn _ => false
  | _ => true

def isUpload : Proc → Bool
  | .put .. | .crashed => true
  | _ => false

theorem isTransfer_of_isUpload {proc : Proc} (kind : isUpload proc) : isTransfer proc := by
  cases proc <;> first | rfl | cases kind

theorem transfers_of_onlyUploads (permitted : onlyUploads event) : transfers event := by
  cases event with
  | spawn request => cases request <;> first | rfl | cases permitted
  | exec => rfl
  | crash => rfl

/-- An upload of the chunk is between its two writes, and this is what it has stored. -/
def attends (index : Nat) (content : Option Bytes) : Proc → Bool
  | .put request (.upsert plan _) => plan.index = index && content = some request.body
  | _ => false

theorem unfinished_of_attends {index : Nat} {content : Option Bytes} {proc : Proc}
    (attending : attends index content proc) : proc.finished = false := by
  unfold attends at attending
  split at attending
  · rfl
  · cases attending

/-- The row says what the plan would write. -/
def repeats (plan : PutPlan) (chunk : ChunkRow) : Bool :=
  chunk.nonce = plan.nonce && chunk.ciphertextSize = plan.ciphertextSize &&
    chunk.downloadTokenHash = plan.downloadTokenHash

/-- The upload leaves its blob behind under the row of another one. -/
def leaves (world : World) (request : PutRequest) (plan : PutPlan) : Bool :=
  world.db.store.blobs.lookup plan.blobKey = some request.body &&
    !(world.db.store.chunks.lookup plan.index).all (repeats plan)

/-- An upload writes its row over a blob of another that is through already, or stops with
its own blob stored under the row of another. -/
def mismatches (world : World) : Event → Bool
  | .exec pid _ outcome =>
    match world.procs[pid]? with
    | some (.put request (.putBlob plan)) =>
      outcome = .lost && request.body.length = plan.ciphertextSize &&
        !(world.db.store.chunks.lookup plan.index).all (repeats plan)
    | some (.put request (.upsert plan _)) =>
      if takesEffect outcome then
        !world.procs.any (attends plan.index (world.db.store.blobs.lookup plan.blobKey))
      else leaves world request plan
    | _ => false
  | .crash pid =>
    match world.procs[pid]? with
    | some (.put request (.upsert plan _)) => leaves world request plan
    | _ => false
  | .spawn _ => false

/-- Row and blob hold what one request of the run carried. -/
structure Belongs (options : IngestOptions) (events : List Event) (index : Nat) (chunk : ChunkRow)
    (content : Option Bytes) (request : PutRequest) : Prop where
  sent : .spawn (.put request) ∈ events
  index : request.chunkIndex = index
  nonce : request.requiredNonce options = .ok chunk.nonce
  size : request.contentLength = some (chunk.ciphertextSize : Int)
  hash : request.optionalTokenHash = .ok chunk.downloadTokenHash
  body : content = some request.body

/-- Row and blob belong together, or will when the upload that stored the blob is through. -/
def Paired (options : IngestOptions) (events : List Event) (world : World) : Prop :=
  ∀ index chunk, world.db.store.chunks.lookup index = some chunk →
    (∃ proc ∈ world.procs, attends index (world.db.store.blobs.lookup chunk.blobKey) proc) ∨
    ∃ request, Belongs options events index chunk (world.db.store.blobs.lookup chunk.blobKey) request

/-- Uploads only, each under its key and sent in the run. -/
structure Replacing (options : IngestOptions) (shortId : String) (events : List Event) (world : World) : Prop where
  kinds : ∀ proc ∈ world.procs, isUpload proc
  keyed : Keyed options shortId world
  sent : ∀ request step, .put request step ∈ world.procs → .spawn (.put request) ∈ events
  paired : Paired options events world

theorem Planned.belongs {options : IngestOptions} {events : List Event} {request : PutRequest} {plan : PutPlan}
    {chunk : ChunkRow} {content : Option Bytes} (planned : Planned options shortId request plan)
    (sent : .spawn (.put request) ∈ events) (same : repeats plan chunk) (body : content = some request.body) :
    Belongs options events plan.index chunk content request := by
  simp only [repeats, Bool.and_eq_true, decide_eq_true_eq] at same
  obtain ⟨⟨nonce, size⟩, hash⟩ := same
  exact ⟨sent, planned.index, nonce ▸ planned.nonce, size ▸ planned.size, hash ▸ planned.hash, body⟩

theorem Belongs.later {options : IngestOptions} {events : List Event} {index : Nat} {chunk : ChunkRow}
    {content : Option Bytes} {request : PutRequest} (belongs : Belongs options events index chunk content request)
    (event : Event) : Belongs options (events ++ [event]) index chunk content request :=
  { belongs with sent := List.mem_append_left _ belongs.sent }

/-- One process moves. For every row: some upload attends to its blob, or the two belong
together, or the row was there with its blob and this process did not attend to it. -/
theorem Paired.set {options : IngestOptions} {events : List Event} {db : Database} {pid : Nat} {proc moved : Proc}
    (paired : Paired options events world) (running : world.procs[pid]? = some proc)
    (rows : ∀ index chunk, db.store.chunks.lookup index = some chunk →
      (∃ other ∈ world.procs.set pid moved, attends index (db.store.blobs.lookup chunk.blobKey) other) ∨
      (∃ request, Belongs options events index chunk (db.store.blobs.lookup chunk.blobKey) request) ∨
      (world.db.store.chunks.lookup index = some chunk ∧
        db.store.blobs.lookup chunk.blobKey = world.db.store.blobs.lookup chunk.blobKey ∧
        attends index (world.db.store.blobs.lookup chunk.blobKey) proc = false)) :
    Paired options events ⟨db, world.procs.set pid moved⟩ := by
  intro index chunk found
  rcases rows index chunk found with attended | belongs | ⟨before, same, uninvolved⟩
  · exact .inl attended
  · exact .inr belongs
  · rw [same]
    rcases paired index chunk before with ⟨other, member, attended⟩ | belongs
    · refine .inl ⟨other, mem_set_of_ne running member fun equal => ?_, attended⟩
      rw [equal, uninvolved] at attended
      cases attended
    · exact .inr belongs

/-- The upload between its writes that stops here either did not attend to the blob, or
wrote nothing that is not in the row. -/
theorem leaves_belongs {events : List Event} {request : PutRequest} {plan : PutPlan} {uploadedAt : Timestamp}
    (keyed : Keyed env.options shortId world) (planned : Planned env.options shortId request plan)
    (sent : .spawn (.put request) ∈ events) (kept : leaves world request plan = false) (index : Nat) (chunk : ChunkRow)
    (found : world.db.store.chunks.lookup index = some chunk) :
    (∃ request, Belongs env.options events index chunk (world.db.store.blobs.lookup chunk.blobKey) request) ∨
    attends index (world.db.store.blobs.lookup chunk.blobKey) (.put request (.upsert plan uploadedAt)) = false := by
  cases attending : attends index (world.db.store.blobs.lookup chunk.blobKey) (.put request (.upsert plan uploadedAt)) with
  | false => exact .inr rfl
  | true =>
    simp only [attends, Bool.and_eq_true, decide_eq_true_eq] at attending
    obtain ⟨rfl, body⟩ := attending
    have key : chunk.blobKey = plan.blobKey := (keyed.rows _ _ found).trans planned.key.symm
    have same : repeats plan chunk = true := by
      rw [key] at body
      simpa [leaves, body, found] using kept
    exact .inl ⟨request, planned.belongs sent same body⟩

theorem put_paired {events : List Event} {pid : Nat} {clock : Timestamp} {outcome : Outcome} {request : PutRequest}
    {step moved : PutStep} {effect : Effect} (replacing : Replacing env.options shortId events world)
    (running : world.procs[pid]? = some (.put request step))
    (permitted : mismatches world (.exec pid clock outcome) = false)
    (move : PutMove env world.db request clock outcome step moved effect) :
    Paired env.options events ⟨world.db.apply pid effect, world.procs.set pid (.put request moved)⟩ := by
  have here := List.mem_of_getElem? running
  have keyed := replacing.keyed
  have planned := fun plan => keyed.plans request step plan here
  have sent := replacing.sent request step here
  -- an upload that writes neither blob nor row, and was not between the two
  have still : ∀ db : Database, db.store.blobs = world.db.store.blobs → db.store.chunks = world.db.store.chunks →
      awaitsRow step = false → Paired env.options events ⟨db, world.procs.set pid (.put request moved)⟩ := by
    intro db blobs chunks elsewhere
    refine replacing.paired.set running fun index chunk found => .inr (.inr ⟨chunks ▸ found, by rw [blobs], ?_⟩)
    cases step <;> first | rfl | cases elsewhere
  -- the blob of another chunk is under another key
  have apart : ∀ plan index chunk, storing step = some plan → index ≠ plan.index →
      world.db.store.chunks.lookup index = some chunk → chunk.blobKey ≠ plan.blobKey := by
    intro plan index chunk stores other found same
    rw [keyed.rows index chunk found, (planned plan stores).key] at same
    exact other (buildBlobKey_inj same)
  cases move with
  | acquire => exact still _ rfl rfl rfl
  | check => exact still _ rfl rfl rfl
  | @putBlob plan length ok =>
    refine replacing.paired.set running fun index chunk found => ?_
    by_cases same : index = plan.index
    · subst same
      have key : chunk.blobKey = plan.blobKey := (keyed.rows _ _ found).trans (planned plan rfl).key.symm
      have stored : (world.db.store.blobs.insert plan.blobKey request.body).lookup chunk.blobKey = some request.body := by
        rw [key]
        exact AList.lookup_insert _
      exact .inl ⟨_, mem_set_of_getElem? running, by simp [attends, Database.apply, stored]⟩
    · exact .inr (.inr ⟨found, AList.lookup_insert_ne (apart plan index chunk rfl same found), rfl⟩)
  | @putLost plan reply length lost =>
    refine replacing.paired.set running fun index chunk found => ?_
    by_cases same : index = plan.index
    · subst same
      have key : chunk.blobKey = plan.blobKey := (keyed.rows _ _ found).trans (planned plan rfl).key.symm
      have found : world.db.store.chunks.lookup plan.index = some chunk := found
      have equal : repeats plan chunk = true := by simpa [mismatches, running, lost, length, found] using permitted
      refine .inr (.inl ⟨request, (planned plan rfl).belongs sent equal ?_⟩)
      rw [key]
      exact AList.lookup_insert _
    · exact .inr (.inr ⟨found, AList.lookup_insert_ne (apart plan index chunk rfl same found), rfl⟩)
  | @upsert plan uploadedAt moved free executed next =>
    refine replacing.paired.set running fun index chunk found => ?_
    by_cases same : index = plan.index
    · subst same
      obtain rfl := Option.some.inj ((AList.lookup_insert _).symm.trans found)
      obtain ⟨key, nonce, size, hash⟩ := upsertChunk_data world.db.store plan.index plan.nonce plan.blobKey
        plan.ciphertextSize uploadedAt plan.downloadTokenHash
      rw [key]
      have attended : world.procs.any (attends plan.index (world.db.store.blobs.lookup plan.blobKey)) = true := by
        simpa [mismatches, running, executed] using permitted
      obtain ⟨other, member, attending⟩ := List.any_eq_true.mp attended
      by_cases mine : other = .put request (.upsert plan uploadedAt)
      · rw [mine] at attending
        simp only [attends, Bool.and_eq_true, decide_eq_true_eq] at attending
        exact .inr (.inl ⟨request, (planned plan rfl).belongs sent (by simp [repeats, nonce, size, hash]) attending.2⟩)
      · exact .inl ⟨other, mem_set_of_ne running member mine, attending⟩
    · have before : world.db.store.chunks.lookup index = some chunk := (AList.lookup_insert_ne same).symm.trans found
      exact .inr (.inr ⟨before, rfl, by simp [attends, Ne.symm same]⟩)
  | promote free executed promoted found next =>
    refine still _ rfl rfl ?_
    cases step <;> first | rfl | cases promoted
  | proceed written next =>
    refine still _ rfl rfl ?_
    cases step <;> first | rfl | cases written
  | stop failed =>
    cases step with
    | upsert plan uploadedAt =>
      have kept : leaves world request plan = false := by simpa [mismatches, running, failed rfl] using permitted
      refine replacing.paired.set running fun index chunk found => .inr ?_
      rcases leaves_belongs keyed (planned plan rfl) sent kept index chunk found with belongs | uninvolved
      · exact .inl belongs
      · exact .inr ⟨found, rfl, uninvolved⟩
    | _ => exact still _ rfl rfl rfl

theorem upload_step_cases (kinds : ∀ proc ∈ world.procs, isUpload proc) (permitted : onlyUploads event)
    (taken : (system env).step world event = some next) :
    (∃ request, event = .spawn (.put request) ∧ next = { world with procs := world.procs ++ [.put request .acquire] }) ∨
    (∃ pid clock outcome request step moved effect, event = .exec pid clock outcome ∧
      world.procs[pid]? = some (.put request step) ∧ PutMove env world.db request clock outcome step moved effect ∧
      next = ⟨world.db.apply pid effect, world.procs.set pid (.put request moved)⟩) ∨
    (∃ pid proc, event = .crash pid ∧ world.procs[pid]? = some proc ∧
      next = ⟨world.db.disconnect pid, world.procs.set pid .crashed⟩) := by
  rcases transfer_step_cases (fun proc member => isTransfer_of_isUpload (kinds proc member))
    (transfers_of_onlyUploads permitted) taken with ⟨request, rfl, rfl | ⟨upload, rfl⟩, same⟩ | put |
    ⟨pid, _, _, step, _, _, -, running, -, -⟩ | crash
  · cases permitted
  · exact .inl ⟨upload, rfl, same⟩
  · exact .inr (.inl put)
  · cases kinds _ (List.mem_of_getElem? running)
  · exact .inr (.inr crash)

theorem step_replacing {events : List Event} (replacing : Replacing env.options shortId events world)
    (permitted : onlyUploads event) (safe : mismatches world event = false)
    (taken : (system env).step world event = some next) :
    Replacing env.options shortId (events ++ [event]) next := by
  have later : ∀ {paired : World}, Paired env.options events paired → Paired env.options (events ++ [event]) paired :=
    fun paired index chunk found => (paired index chunk found).imp_right fun ⟨request, belongs⟩ =>
      ⟨request, belongs.later event⟩
  have keyed := step_keyed (fun proc member => isTransfer_of_isUpload (replacing.kinds proc member)) replacing.keyed
    (transfers_of_onlyUploads permitted) taken
  have earlier : ∀ request step, Proc.put request step ∈ world.procs → .spawn (.put request) ∈ events ++ [event] :=
    fun request step member => List.mem_append_left _ (replacing.sent request step member)
  rcases upload_step_cases replacing.kinds permitted taken with ⟨request, rfl, rfl⟩ |
    ⟨pid, clock, outcome, request, step, moved, effect, rfl, running, move, rfl⟩ | ⟨pid, proc, rfl, running, rfl⟩
  · refine ⟨fun proc member => ?_, keyed, fun upload step member => ?_, later fun index chunk found => ?_⟩
    · rcases List.mem_append.mp member with old | new
      · exact replacing.kinds proc old
      · cases List.mem_singleton.mp new
        rfl
    · rcases List.mem_append.mp member with old | new
      · exact earlier upload step old
      · cases List.mem_singleton.mp new
        exact List.mem_append_right _ List.mem_cons_self
    · refine (replacing.paired index chunk found).imp_left fun ⟨other, member, attending⟩ => ?_
      exact ⟨other, List.mem_append_left _ member, attending⟩
  · refine ⟨fun proc member => ?_, keyed, fun upload other member => ?_, later (put_paired replacing running safe move)⟩
    · rcases mem_set_cases member with rfl | old
      · rfl
      · exact replacing.kinds proc old
    · rcases mem_set_cases member with same | old
      · cases same
        exact earlier request step (List.mem_of_getElem? running)
      · exact earlier upload other old
  · refine ⟨fun proc member => ?_, keyed, fun upload other member => ?_, later ?_⟩
    · rcases mem_set_cases member with rfl | old
      · rfl
      · exact replacing.kinds proc old
    · rcases mem_set_cases member with same | old
      · cases same
      · exact earlier upload other old
    · refine replacing.paired.set running fun index chunk found => .inr ?_
      rw [disconnect_store] at found ⊢
      have here := List.mem_of_getElem? running
      cases proc with
      | put request step =>
        cases step with
        | upsert plan uploadedAt =>
          have kept : leaves world request plan = false := by simpa [mismatches, running] using safe
          have planned := replacing.keyed.plans request _ plan here rfl
          rcases leaves_belongs replacing.keyed planned (replacing.sent request _ here) kept index chunk found with
            belongs | uninvolved
          · exact .inl belongs
          · exact .inr ⟨found, rfl, uninvolved⟩
        | _ => exact .inr ⟨found, rfl, rfl⟩
      | _ => exact .inr ⟨found, rfl, rfl⟩

theorem replacing_reached {store : Store} {row : ShareRow} {events : List Event} (share : store.share = some row)
    (fresh : store.chunks = ∅)
    (run : (system env).Run (fun world event => onlyUploads event ∧ mismatches world event = false)
      (World.start store) events world) : Replacing env.options row.shortId events world := by
  induction run with
  | nil =>
    have none : ∀ index chunk, store.chunks.lookup index ≠ some chunk := by
      intro index chunk found
      rw [fresh] at found
      cases found
    refine ⟨?_, ⟨locked_start _, ?_, ?_, ?_⟩, ?_, ?_⟩
    · intro _ member
      cases member
    · intro current found
      cases share.symm.trans found
      rfl
    · intro index chunk found
      exact absurd found (none index chunk)
    · intro _ _ _ member
      cases member
    · intro _ _ member
      cases member
    · intro index chunk found
      exact absurd found (none index chunk)
  | snoc before permitted taken ih => exact step_replacing ih permitted.1 permitted.2 taken

/-- Whenever no upload is in flight, the row of a chunk and the blob under its key hold what
one request carried, provided that no upload writes its row over the blob of another that
is through, and none stops with its blob stored under the row of another. -/
theorem row_matches_blob (env : Env) {store : Store} {row : ShareRow} {events : List Event}
    (share : store.share = some row) (fresh : store.chunks = ∅)
    (run : (system env).Run (fun world event => onlyUploads event ∧ mismatches world event = false)
      (World.start store) events world) (quiet : world.quiet) :
    ∀ index chunk, world.db.store.chunks.lookup index = some chunk →
      ∃ request : PutRequest, .spawn (.put request) ∈ events ∧ request.chunkIndex = (index : Int) ∧
        request.requiredNonce env.options = .ok chunk.nonce ∧ request.contentLength = some (chunk.ciphertextSize : Int) ∧
        request.optionalTokenHash = .ok chunk.downloadTokenHash ∧
        world.db.store.blobs.lookup chunk.blobKey = some request.body := by
  intro index chunk found
  rcases (replacing_reached share fresh run).paired index chunk found with ⟨proc, member, attending⟩ | ⟨request, belongs⟩
  · cases (unfinished_of_attends attending).symm.trans (List.all_eq_true.mp quiet proc member)
  · exact ⟨request, belongs.sent, belongs.index, belongs.nonce, belongs.size, belongs.hash, belongs.body⟩

/-- Another upload of the sample chunk. -/
def sampleRetry : PutRequest :=
  { samplePut with nonceHeader := some "BAAAAAAAAAAAAAAAAAAAAAAAAAAAAAAA", body := List.replicate 17 6 }

/-- The retry cannot store its blob, and the chunk stays as it was. -/
theorem row_matches_blob_retried : ∃ events world,
    (system sampleEnv).Run (fun world event => onlyUploads event ∧ mismatches world event = false)
      (World.start sampleStore) events world ∧ world.quiet ∧ .spawn (.put sampleRetry) ∈ events ∧
    ∃ (chunk : ChunkRow) (request : PutRequest), world.db.store.chunks.lookup 0 = some chunk ∧
      request.requiredNonce sampleEnv.options = .ok chunk.nonce ∧
      world.db.store.blobs.lookup chunk.blobKey = some request.body := by
  have replayed : ((system sampleEnv).replay (fun world event => onlyUploads event && !mismatches world event)
      (World.start sampleStore)
      (.spawn (.put samplePut) :: .spawn (.put sampleRetry) :: steps 1 6 2 ++ steps 0 6 7 ++ [.exec 1 7 .failed])).any
      (fun world => world.quiet && (world.db.store.chunks.lookup 0).isSome) = true := by
    decide +kernel
  obtain ⟨world, run, passed⟩ := System.any_replay replayed
  obtain ⟨quiet, stored⟩ := Bool.and_eq_true_iff.mp passed
  obtain ⟨chunk, found⟩ := Option.isSome_iff_exists.mp stored
  have run := run.mono fun world event permitted => by
    simpa only [Bool.and_eq_true, Bool.not_eq_true'] using permitted
  obtain ⟨request, -, -, nonce, -, -, body⟩ := row_matches_blob sampleEnv rfl rfl run quiet 0 chunk found
  exact ⟨_, world, run, quiet, by simp, chunk, request, found, nonce, body⟩

/-- Blob, blob of the retry, row of the retry, row: the chunk cannot be decrypted any more. -/
theorem row_of_another_upload :
    ¬ ∀ (env : Env) (store : Store) (row : ShareRow) (events : List Event) (world : World), store.share = some row →
      store.chunks = ∅ → (system env).Run (fun _ event => onlyUploads event) (World.start store) events world →
      world.quiet → ∀ index chunk, world.db.store.chunks.lookup index = some chunk →
        ∃ request : PutRequest, .spawn (.put request) ∈ events ∧ request.chunkIndex = (index : Int) ∧
          request.requiredNonce env.options = .ok chunk.nonce ∧
          request.contentLength = some (chunk.ciphertextSize : Int) ∧
          request.optionalTokenHash = .ok chunk.downloadTokenHash ∧
          world.db.store.blobs.lookup chunk.blobKey = some request.body := by
  intro claimed
  have replayed : ((system sampleEnv).replay (fun _ event => onlyUploads event) (World.start sampleStore)
      (.spawn (.put samplePut) :: .spawn (.put sampleRetry) :: steps 0 6 3 ++ steps 1 6 3 ++ steps 1 7 4 ++ steps 0 7 4)).any
      (fun world => world.quiet && (world.db.store.chunks.lookup 0).any fun chunk =>
        chunk.nonce = List.replicate 24 0 ∧ world.db.store.blobs.lookup chunk.blobKey = some (List.replicate 17 6)) = true := by
    decide +kernel
  obtain ⟨world, run, passed⟩ := System.any_replay replayed
  obtain ⟨quiet, stored⟩ := Bool.and_eq_true_iff.mp passed
  obtain ⟨chunk, found, tested⟩ := (Option.any_eq_true _ _).mp stored
  obtain ⟨first, second⟩ := of_decide_eq_true tested
  obtain ⟨request, sent, -, nonce, -, -, body⟩ := claimed sampleEnv sampleStore _ _ world rfl rfl run quiet 0 chunk found
  have either : request = samplePut ∨ request = sampleRetry := by simpa [steps] using sent
  rcases either with rfl | rfl
  · rw [second] at body
    exact absurd body (by decide +kernel)
  · rw [first] at nonce
    exact absurd nonce (by decide +kernel)

end SlothBox.Proofs

import SlothBox.Proofs.Reaping

/-! Blobs and the rows that name them, under uploads and sweeps. An upload stores its blob
before it writes its row, and a sweep reads the keys, removes the blobs and deletes the rows
in three steps; a blob is orphaned where the two overlap, or where an upload stops between
its two writes. -/

namespace SlothBox.Proofs
open Library

variable {env : Env} {world next : World} {event : Event} {shortId : String}

/-- Only uploads and sweeps are started. -/
def transfers : Event → Bool
  | .spawn (.put _) | .spawn .sweep => true
  | .spawn _ => false
  | _ => true

def isTransfer : Proc → Bool
  | .put .. | .sweep _ | .crashed => true
  | _ => false

theorem transfer_step_cases (kinds : ∀ proc ∈ world.procs, isTransfer proc) (permitted : transfers event)
    (taken : (system env).step world event = some next) :
    (∃ request, event = .spawn request ∧ (request = .sweep ∨ ∃ upload, request = .put upload) ∧
      next = { world with procs := world.procs ++ [request.start] }) ∨
    (∃ pid clock outcome request step moved effect, event = .exec pid clock outcome ∧
      world.procs[pid]? = some (.put request step) ∧ PutMove env world.db request clock outcome step moved effect ∧
      next = ⟨world.db.apply pid effect, world.procs.set pid (.put request moved)⟩) ∨
    (∃ pid clock outcome step moved effect, event = .exec pid clock outcome ∧
      world.procs[pid]? = some (.sweep step) ∧ SweepMove world.db clock outcome step moved effect ∧
      next = ⟨world.db.apply pid effect, world.procs.set pid (.sweep moved)⟩) ∨
    (∃ pid proc, event = .crash pid ∧ world.procs[pid]? = some proc ∧
      next = ⟨world.db.disconnect pid, world.procs.set pid .crashed⟩) := by
  rcases step_cases taken with ⟨request, rfl, rfl⟩ |
    ⟨pid, clock, outcome, proc, moved, effect, rfl, running, executed, rfl⟩ | ⟨pid, proc, rfl, running, rfl⟩
  · refine .inl ⟨request, rfl, ?_, rfl⟩
    cases request with
    | put upload => exact .inr ⟨upload, rfl⟩
    | sweep => exact .inl rfl
    | _ => cases permitted
  · have kind := kinds proc (List.mem_of_getElem? running)
    cases proc with
    | put request step =>
      obtain ⟨after, call, rfl⟩ := handler_exec executed
      exact .inr (.inl ⟨pid, clock, outcome, request, step, after, effect, rfl, running, put_move call, rfl⟩)
    | sweep step =>
      obtain ⟨after, call, rfl⟩ := handler_exec executed
      exact .inr (.inr (.inl ⟨pid, clock, outcome, step, after, effect, rfl, running, sweep_move call, rfl⟩))
    | crashed => cases executed
    | _ => cases kind
  · exact .inr (.inr (.inr ⟨pid, proc, rfl, running, rfl⟩))

/-! ### Keys -/

/-- What an upload is going to store. -/
def storing : PutStep → Option PutPlan
  | .putBlob plan | .upsert plan _ => some plan
  | _ => none

theorem storing_settled {step : PutStep} (written : settled step) : storing step = none := by
  cases step <;> first | rfl | cases written

/-- The plan holds what its request carried, under the key of its chunk. -/
structure Planned (options : IngestOptions) (shortId : String) (request : PutRequest) (plan : PutPlan) : Prop where
  index : request.chunkIndex = plan.index
  key : plan.blobKey = buildBlobKey shortId plan.index
  nonce : request.requiredNonce options = .ok plan.nonce
  size : request.contentLength = some (plan.ciphertextSize : Int)
  hash : request.optionalTokenHash = .ok plan.downloadTokenHash

theorem check_planned {options : IngestOptions} {request : PutRequest} {share : ShareRow} {now : Timestamp}
    {plan : PutPlan} (admitted : request.check options share now = .ok plan) :
    Planned options request.shortId request plan := by
  simp only [PutRequest.check, bind_ok, refuseIf_ok] at admitted
  obtain ⟨-, accepts, -, inside, length, required, -, -, -, -, -, -, -, -, nonce, decoded, hash, optional, same⟩ := admitted
  obtain rfl := Except.ok.inj same
  refine ⟨?_, rfl, decoded, ?_, optional⟩
  · dsimp only
    omega
  · unfold PutRequest.requiredLength at required
    split at required
    next sent found =>
      split at required
      · cases required
      · cases required
        rw [found]
        dsimp only
        congr 1
        omega
    next => cases required

/-- The key tells the chunk. -/
theorem buildBlobKey_inj {first second : Nat} (same : buildBlobKey shortId first = buildBlobKey shortId second) :
    first = second := by
  have digits : Nat.toDigits 10 first = Nat.toDigits 10 second := by
    have lists := congrArg String.toList same
    simpa [buildBlobKey] using lists
  rw [← @Nat.ofDigitChars_ten_toDigits first, digits, Nat.ofDigitChars_ten_toDigits]

/-- Rows, and the uploads that are about to write one, stand under the key of their chunk. -/
structure Keyed (options : IngestOptions) (shortId : String) (world : World) : Prop where
  locked : Locked world
  share : ∀ row, world.db.store.share = some row → row.shortId = shortId
  rows : ∀ index chunk, world.db.store.chunks.lookup index = some chunk → chunk.blobKey = buildBlobKey shortId index
  plans : ∀ request step plan, .put request step ∈ world.procs → storing step = some plan →
    Planned options shortId request plan

theorem upsertChunk_data (store : Store) (index : Nat) (nonce : Bytes) (blobKey : String) (size : Nat)
    (uploadedAt : Timestamp) (hash : Option Bytes) :
    (upsertChunk store index nonce blobKey size uploadedAt hash).blobKey = blobKey ∧
      (upsertChunk store index nonce blobKey size uploadedAt hash).nonce = nonce ∧
      (upsertChunk store index nonce blobKey size uploadedAt hash).ciphertextSize = size ∧
      (upsertChunk store index nonce blobKey size uploadedAt hash).downloadTokenHash = hash := by
  unfold upsertChunk
  dsimp only
  split
  · exact ⟨rfl, rfl, rfl, rfl⟩
  · unfold clearChunkDeliveryOnReplace
    split <;> exact ⟨rfl, rfl, rfl, rfl⟩

/-- The rows after a sweep's statement: the same, or none. -/
theorem sweep_rows {pid : Nat} {clock : Timestamp} {outcome : Outcome} {step moved : SweepStep} {effect : Effect}
    (locked : Locked world) (running : world.procs[pid]? = some (.sweep step))
    (move : SweepMove world.db clock outcome step moved effect) :
    Untouched world.db.store (world.db.apply pid effect).store ∨
    (step = .commit ∧ (world.db.apply pid effect).store.chunks = ∅ ∧
      (world.db.apply pid effect).store.share.map ShareRow.shortId = world.db.store.share.map ShareRow.shortId) := by
  rcases sweep_untouched move with ⟨rfl, rfl, -⟩ | ⟨untouched, -⟩
  · obtain ⟨now, writes, opened, holds⟩ := locked.held pid _ running rfl
    rw [Database.apply, Database.view, opened]
    cases holds with
    | reaped share =>
      rw [share]
      exact .inr ⟨rfl, rfl, rfl⟩
  · exact .inl untouched

theorem keyed_share {options : IngestOptions} (keyed : Keyed options shortId world) {store : Store}
    (same : store.share.map ShareRow.shortId = world.db.store.share.map ShareRow.shortId) :
    ∀ row, store.share = some row → row.shortId = shortId := by
  intro row found
  rw [found] at same
  obtain ⟨before, stored, kept⟩ := Option.map_eq_some_iff.mp same.symm
  exact kept.symm.trans (keyed.share before stored)

/-- What an upload does to the tables, and where it stands in its plan. -/
theorem put_keyed {pid : Nat} {clock : Timestamp} {outcome : Outcome} {request : PutRequest} {step moved : PutStep}
    {effect : Effect} (keyed : Keyed env.options shortId world)
    (running : world.procs[pid]? = some (.put request step))
    (move : PutMove env world.db request clock outcome step moved effect) :
    (world.db.apply pid effect).store.share.map ShareRow.shortId = world.db.store.share.map ShareRow.shortId ∧
    (∀ index chunk, (world.db.apply pid effect).store.chunks.lookup index = some chunk →
      chunk.blobKey = buildBlobKey shortId index) ∧
    ∀ plan, storing moved = some plan → Planned env.options shortId request plan := by
  have planned := fun plan => keyed.plans request step plan (List.mem_of_getElem? running)
  cases move with
  | check found admitted =>
    refine ⟨rfl, keyed.rows, fun plan stores => ?_⟩
    cases stores
    obtain ⟨share, named⟩ := find_eq_some.mp found
    rw [← keyed.share _ share, named]
    exact check_planned admitted
  | putBlob => exact ⟨rfl, keyed.rows, planned⟩
  | putLost => exact ⟨rfl, keyed.rows, fun _ stores => by cases stores⟩
  | @upsert plan uploadedAt moved free executed next =>
    refine ⟨rfl, fun index chunk found => ?_, fun plan stores => ?_⟩
    · by_cases same : index = plan.index
      · rw [same] at found ⊢
        obtain rfl := Option.some.inj ((AList.lookup_insert _).symm.trans found)
        rw [(upsertChunk_data _ _ _ _ _ _ _).1]
        exact (planned plan rfl).key
      · exact keyed.rows index chunk ((AList.lookup_insert_ne same).symm.trans found)
    · cases (storing_settled next).symm.trans stores
  | @promote step moved plan state row free executed promoted found next =>
    refine ⟨?_, keyed.rows, fun plan stores => ?_⟩
    · rw [(findById_eq_some.mp found).1]
      rfl
    · cases (storing_settled next).symm.trans stores
  | @proceed step moved written next =>
    refine ⟨rfl, keyed.rows, fun plan stores => ?_⟩
    cases (storing_settled next).symm.trans stores
  | acquire => exact ⟨rfl, keyed.rows, fun _ stores => by cases stores⟩
  | stop => exact ⟨rfl, keyed.rows, fun _ stores => by cases stores⟩

theorem step_keyed (kinds : ∀ proc ∈ world.procs, isTransfer proc) (keyed : Keyed env.options shortId world)
    (permitted : transfers event) (taken : (system env).step world event = some next) :
    Keyed env.options shortId next := by
  have locked := locked_step keyed.locked taken
  rcases transfer_step_cases kinds permitted taken with ⟨request, rfl, kind, rfl⟩ |
    ⟨pid, clock, outcome, request, step, moved, effect, rfl, running, move, rfl⟩ |
    ⟨pid, clock, outcome, step, moved, effect, rfl, running, move, rfl⟩ | ⟨pid, proc, rfl, running, rfl⟩
  · refine ⟨locked, keyed.share, keyed.rows, fun upload step plan member stores => ?_⟩
    rcases List.mem_append.mp member with old | new
    · exact keyed.plans upload step plan old stores
    · rcases kind with rfl | ⟨sent, rfl⟩ <;> cases List.mem_singleton.mp new
      cases stores
  · obtain ⟨share, rows, planned⟩ := put_keyed keyed running move
    refine ⟨locked, keyed_share keyed share, rows, fun upload other plan member stores => ?_⟩
    rcases mem_set_cases member with same | old
    · cases same
      exact planned plan stores
    · exact keyed.plans upload other plan old stores
  · have plans : ∀ upload other plan, Proc.put upload other ∈ world.procs.set pid (.sweep moved) →
        storing other = some plan → Planned env.options shortId upload plan := by
      intro upload other plan member stores
      rcases mem_set_cases member with same | old
      · cases same
      · exact keyed.plans upload other plan old stores
    rcases sweep_rows keyed.locked running move with ⟨share, chunks, -⟩ | ⟨-, chunks, share⟩
    · refine ⟨locked, fun row found => keyed.share row (share ▸ found), fun index chunk found => ?_, plans⟩
      rw [chunks] at found
      exact keyed.rows index chunk found
    · refine ⟨locked, keyed_share keyed share, fun index chunk found => ?_, plans⟩
      rw [chunks] at found
      cases found
  · refine ⟨locked, ?_, ?_, fun upload other plan member stores => ?_⟩
    · rw [disconnect_store]
      exact keyed.share
    · rw [disconnect_store]
      exact keyed.rows
    · rcases mem_set_cases member with same | old
      · cases same
      · exact keyed.plans upload other plan old stores

/-! ### Orphans -/

/-- Every sweep that has read the chunk keys has still to remove this one. -/
def covered (world : World) (key : String) : Bool :=
  world.procs.all fun
    | .sweep step => (keysLeft step).all (·.contains key)
    | _ => true

/-- The chunk has a row, and no sweep is past removing its blob. -/
def fallback (world : World) (plan : PutPlan) : Bool :=
  (world.db.store.chunks.lookup plan.index).isSome && covered world plan.blobKey

/-- An upload writes its row when a sweep is past removing the blob, or stops between its
two writes when nothing else accounts for the blob. -/
def orphans (world : World) : Event → Bool
  | .exec pid _ outcome =>
    match world.procs[pid]? with
    | some (.put request (.putBlob plan)) =>
      outcome = .lost && request.body.length = plan.ciphertextSize && !fallback world plan
    | some (.put _ (.upsert plan _)) =>
      if takesEffect outcome then !covered world plan.blobKey else !fallback world plan
    | _ => false
  | .crash pid =>
    match world.procs[pid]? with
    | some (.put _ (.upsert plan _)) => !fallback world plan
    | _ => false
  | .spawn _ => false

def Covered (procs : List Proc) (key : String) : Prop :=
  ∀ step keys, .sweep step ∈ procs → keysLeft step = some keys → key ∈ keys

def Named (store : Store) (key : String) : Prop :=
  ∃ index chunk, store.chunks.lookup index = some chunk ∧ chunk.blobKey = key

/-- The upload has stored the blob and is to write its row. -/
def awaits (key : String) : Proc → Bool
  | .put _ (.upsert plan _) => plan.blobKey = key
  | _ => false

theorem unfinished_of_awaits {key : String} {proc : Proc} (awaited : awaits key proc) : proc.finished = false := by
  unfold awaits at awaited
  split at awaited
  · rfl
  · cases awaited

/-- A blob awaits its row, or has one that no sweep deletes without removing the blob. -/
def Tracked (world : World) : Prop :=
  ∀ key, (world.db.store.blobs.lookup key).isSome →
    (∃ proc ∈ world.procs, awaits key proc) ∨ (Named world.db.store key ∧ Covered world.procs key)

theorem covered_iff {key : String} : covered world key = true ↔ Covered world.procs key := by
  rw [covered, List.all_eq_true]
  constructor
  · intro all step keys member left
    have kept := all _ member
    simpa [left] using kept
  · intro kept proc member
    cases proc with
    | sweep step =>
      cases left : keysLeft step with
      | none => simp [left]
      | some keys => simpa [left] using kept step keys member left
    | _ => rfl

theorem Covered.set {procs : List Proc} {pid : Nat} {moved : Proc} {key : String} (kept : Covered procs key)
    (own : ∀ step keys, moved = .sweep step → keysLeft step = some keys → key ∈ keys) :
    Covered (procs.set pid moved) key := by
  intro step keys member left
  rcases mem_set_cases member with same | old
  · exact own step keys same.symm left
  · exact kept step keys old left

/-- What is left to a blob whose upload stops. -/
theorem fallback_named {options : IngestOptions} {request : PutRequest} {plan : PutPlan}
    (keyed : Keyed options shortId world) (planned : Planned options shortId request plan)
    (kept : fallback world plan) : Named world.db.store plan.blobKey ∧ Covered world.procs plan.blobKey := by
  obtain ⟨present, covers⟩ := Bool.and_eq_true_iff.mp kept
  obtain ⟨chunk, found⟩ := Option.isSome_iff_exists.mp present
  exact ⟨⟨plan.index, chunk, found, (keyed.rows _ _ found).trans planned.key.symm⟩, covered_iff.mp covers⟩

/-- One process moves. For every blob then stored: it awaits its row here, or is accounted
for, or was there before and this process had no part in it. -/
theorem Tracked.set {db : Database} {pid : Nat} {proc moved : Proc} (tracked : Tracked world)
    (running : world.procs[pid]? = some proc)
    (blobs : ∀ key, (db.store.blobs.lookup key).isSome →
      awaits key moved ∨ (Named db.store key ∧ Covered (world.procs.set pid moved) key) ∨
      ((world.db.store.blobs.lookup key).isSome ∧ awaits key proc = false ∧
        (Named world.db.store key → Covered world.procs key →
          Named db.store key ∧ Covered (world.procs.set pid moved) key))) :
    Tracked ⟨db, world.procs.set pid moved⟩ := by
  intro key stored
  rcases blobs key stored with awaited | accounted | ⟨before, uninvolved, keeps⟩
  · exact .inl ⟨moved, mem_set_of_getElem? running, awaited⟩
  · exact .inr accounted
  · rcases tracked key before with ⟨other, member, awaited⟩ | ⟨named, covers⟩
    · refine .inl ⟨other, mem_set_of_ne running member fun same => ?_, awaited⟩
      rw [same, uninvolved] at awaited
      cases awaited
    · exact .inr (keeps named covers)

private theorem isSome_of_shrinks {before after : AList fun _ : String => Bytes} {key : String}
    (shrinks : Shrinks before after) (stored : (after.lookup key).isSome) : (before.lookup key).isSome := by
  cases absent : before.lookup key with
  | some content => rfl
  | none =>
    rw [shrinks key absent] at stored
    cases stored

theorem put_tracked {pid : Nat} {clock : Timestamp} {outcome : Outcome} {request : PutRequest} {step moved : PutStep}
    {effect : Effect} (keyed : Keyed env.options shortId world) (tracked : Tracked world)
    (running : world.procs[pid]? = some (.put request step))
    (permitted : orphans world (.exec pid clock outcome) = false)
    (move : PutMove env world.db request clock outcome step moved effect) :
    Tracked ⟨world.db.apply pid effect, world.procs.set pid (.put request moved)⟩ := by
  have planned := fun plan => keyed.plans request step plan (List.mem_of_getElem? running)
  have uncovering : ∀ key, Covered world.procs key → Covered (world.procs.set pid (.put request moved)) key :=
    fun key covers => covers.set fun _ _ same => by cases same
  -- an upload that writes neither blob nor row, and did not owe one
  have still : ∀ db : Database, db.store.blobs = world.db.store.blobs → db.store.chunks = world.db.store.chunks →
      (∀ key, awaits key (.put request step) = false) →
      Tracked ⟨db, world.procs.set pid (.put request moved)⟩ := by
    intro db blobs chunks uninvolved
    refine tracked.set running fun key stored => .inr (.inr ⟨blobs ▸ stored, uninvolved key, fun named covers => ?_⟩)
    exact ⟨by simpa only [Named, chunks] using named, uncovering key covers⟩
  cases move with
  | acquire => exact still _ rfl rfl fun _ => rfl
  | check => exact still _ rfl rfl fun _ => rfl
  | @putBlob plan length ok =>
    refine tracked.set running fun key stored => ?_
    by_cases same : key = plan.blobKey
    · exact .inl (decide_eq_true same.symm)
    · refine .inr (.inr ⟨?_, rfl, fun named covers => ⟨named, uncovering key covers⟩⟩)
      exact (congrArg Option.isSome (AList.lookup_insert_ne same)).symm.trans stored
  | @putLost plan reply length lost =>
    refine tracked.set running fun key stored => ?_
    by_cases same : key = plan.blobKey
    · have kept : fallback world plan = true := by simpa [orphans, running, lost, length] using permitted
      obtain ⟨named, covers⟩ := fallback_named keyed (planned plan rfl) kept
      rw [same]
      exact .inr (.inl ⟨named, uncovering _ covers⟩)
    · refine .inr (.inr ⟨?_, rfl, fun named covers => ⟨named, uncovering key covers⟩⟩)
      exact (congrArg Option.isSome (AList.lookup_insert_ne same)).symm.trans stored
  | @upsert plan uploadedAt moved free executed next =>
    refine tracked.set running fun key stored => ?_
    by_cases same : key = plan.blobKey
    · have covers : covered world plan.blobKey = true := by simpa [orphans, running, executed] using permitted
      rw [same]
      exact .inr (.inl ⟨⟨plan.index, _, AList.lookup_insert _, (upsertChunk_data _ _ _ _ _ _ _).1⟩,
        uncovering _ (covered_iff.mp covers)⟩)
    · refine .inr (.inr ⟨stored, decide_eq_false (Ne.symm same), fun named covers => ⟨?_, uncovering key covers⟩⟩)
      obtain ⟨index, chunk, found, rfl⟩ := named
      refine ⟨index, chunk, ?_, rfl⟩
      have apart : index ≠ plan.index := by
        rintro rfl
        exact same ((keyed.rows _ _ found).trans (planned plan rfl).key.symm)
      exact (AList.lookup_insert_ne apart).trans found
  | promote free executed promoted found next =>
    refine still _ rfl rfl fun key => ?_
    cases step <;> first | rfl | cases promoted
  | proceed written next =>
    refine still _ rfl rfl fun key => ?_
    cases step <;> first | rfl | cases written
  | stop failed =>
    cases step with
    | upsert plan uploadedAt =>
      have kept : fallback world plan = true := by simpa [orphans, running, failed rfl] using permitted
      obtain ⟨named, covers⟩ := fallback_named keyed (planned plan rfl) kept
      refine tracked.set running fun key stored => ?_
      by_cases same : key = plan.blobKey
      · rw [same]
        exact .inr (.inl ⟨named, uncovering _ covers⟩)
      · exact .inr (.inr ⟨stored, decide_eq_false (Ne.symm same), fun named covers => ⟨named, uncovering key covers⟩⟩)
    | _ => exact still _ rfl rfl fun _ => rfl

/-- A sweep goes on to keys it has read, or drops the first one together with its blob. -/
theorem sweep_keysLeft {db : Database} {pid : Nat} {clock : Timestamp} {outcome : Outcome} {step moved : SweepStep}
    {effect : Effect} {left : List String} (move : SweepMove db clock outcome step moved effect)
    (remaining : keysLeft moved = some left) :
    (left = db.store.chunks.entries.map (·.2.blobKey)) ∨
    ∃ keys, keysLeft step = some keys ∧ ∀ key ∈ keys, key ∈ left ∨ (db.apply pid effect).store.blobs.lookup key = none := by
  cases move with
  | fetchChunkKeys =>
    rw [keysLeft_remaining] at remaining
    exact .inl (Option.some.inj remaining).symm
  | @removeBlob id removed rest chunkCount =>
    rw [keysLeft_remaining] at remaining
    cases remaining
    refine .inr ⟨_, rfl, fun key member => ?_⟩
    rcases List.mem_cons.mp member with rfl | later
    · exact .inr (AList.lookup_erase _ _)
    · exact .inl later
  | removed => exact .inr ⟨left, remaining, fun _ member => .inl member⟩
  | lock => exact .inr ⟨left, remaining, fun _ member => .inl member⟩
  | deleteChunks => exact .inr ⟨left, remaining, fun _ member => .inl member⟩
  | update => exact .inr ⟨left, remaining, fun _ member => .inl member⟩
  | updateNothing => exact .inr ⟨left, remaining, fun _ member => .inl member⟩
  | rereadDestroyedAt => exact .inr ⟨left, remaining, fun _ member => .inl member⟩
  | append => exact .inr ⟨left, remaining, fun _ member => .inl member⟩
  | _ => cases remaining

theorem sweep_tracked {pid : Nat} {clock : Timestamp} {outcome : Outcome} {step moved : SweepStep} {effect : Effect}
    (locked : Locked world) (tracked : Tracked world) (running : world.procs[pid]? = some (.sweep step))
    (move : SweepMove world.db clock outcome step moved effect) :
    Tracked ⟨world.db.apply pid effect, world.procs.set pid (.sweep moved)⟩ := by
  have here := List.mem_of_getElem? running
  refine tracked.set running fun key stored => .inr (.inr ⟨isSome_of_shrinks (sweep_shrinks move) stored, rfl, ?_⟩)
  intro named covers
  rcases sweep_rows locked running move with ⟨-, chunks, -⟩ | ⟨rfl, -, -⟩
  · refine ⟨by simpa only [Named, chunks] using named, covers.set fun after left same remaining => ?_⟩
    cases same
    rcases @sweep_keysLeft _ pid _ _ _ _ _ _ move remaining with rfl | ⟨keys, before, drops⟩
    · obtain ⟨index, chunk, found, rfl⟩ := named
      exact List.mem_map.mpr ⟨⟨index, chunk⟩, AList.mem_lookup_iff.mp found, rfl⟩
    · rcases drops key (covers step keys here before) with later | removed
      · exact later
      · rw [removed] at stored
        cases stored
  · -- nothing that is named was still stored
    exact absurd (covers .commit [] here rfl) List.not_mem_nil

theorem crash_tracked {pid : Nat} {proc : Proc} {db : Database} (keyed : Keyed env.options shortId world)
    (tracked : Tracked world) (running : world.procs[pid]? = some proc) (permitted : orphans world (.crash pid) = false)
    (same : db.store = world.db.store) : Tracked ⟨db, world.procs.set pid .crashed⟩ := by
  have uncovering : ∀ key, Covered world.procs key → Covered (world.procs.set pid .crashed) key :=
    fun key covers => covers.set fun _ _ same => by cases same
  refine tracked.set running fun key stored => .inr ?_
  rw [same] at stored ⊢
  cases owed : awaits key proc with
  | false => exact .inr ⟨stored, rfl, fun named covers => ⟨named, uncovering key covers⟩⟩
  | true =>
    cases proc with
    | put request step =>
      cases step with
      | upsert plan uploadedAt =>
        obtain rfl := of_decide_eq_true owed
        have kept : fallback world plan = true := by simpa [orphans, running] using permitted
        obtain ⟨named, covers⟩ :=
          fallback_named keyed (keyed.plans request _ plan (List.mem_of_getElem? running) rfl) kept
        exact .inl ⟨named, uncovering _ covers⟩
      | _ => cases owed
    | _ => cases owed

/-- Uploads and sweeps only, everything under its key, every blob accounted for. -/
structure Housed (options : IngestOptions) (shortId : String) (world : World) : Prop where
  kinds : ∀ proc ∈ world.procs, isTransfer proc
  keyed : Keyed options shortId world
  tracked : Tracked world

theorem step_isTransfer (kinds : ∀ proc ∈ world.procs, isTransfer proc) (permitted : transfers event)
    (taken : (system env).step world event = some next) : ∀ proc ∈ next.procs, isTransfer proc := by
  intro proc member
  rcases transfer_step_cases kinds permitted taken with ⟨request, -, kind, rfl⟩ | ⟨pid, _, _, _, _, _, _, -, -, -, rfl⟩ |
    ⟨pid, _, _, _, _, _, -, -, -, rfl⟩ | ⟨pid, _, -, -, rfl⟩
  · rcases List.mem_append.mp member with old | new
    · exact kinds proc old
    · rcases kind with rfl | ⟨sent, rfl⟩ <;> cases List.mem_singleton.mp new <;> rfl
  all_goals
    rcases mem_set_cases member with rfl | old
    · rfl
    · exact kinds proc old

theorem step_housed (housed : Housed env.options shortId world) (permitted : transfers event)
    (safe : orphans world event = false) (taken : (system env).step world event = some next) :
    Housed env.options shortId next := by
  refine ⟨step_isTransfer housed.kinds permitted taken, step_keyed housed.kinds housed.keyed permitted taken, ?_⟩
  rcases transfer_step_cases housed.kinds permitted taken with ⟨request, rfl, kind, rfl⟩ |
    ⟨pid, clock, outcome, request, step, moved, effect, rfl, running, move, rfl⟩ |
    ⟨pid, clock, outcome, step, moved, effect, rfl, running, move, rfl⟩ | ⟨pid, proc, rfl, running, rfl⟩
  · intro key stored
    rcases housed.tracked key stored with ⟨proc, member, awaited⟩ | ⟨named, covers⟩
    · exact .inl ⟨proc, List.mem_append_left _ member, awaited⟩
    · refine .inr ⟨named, fun step keys member left => ?_⟩
      rcases List.mem_append.mp member with old | new
      · exact covers step keys old left
      · rcases kind with rfl | ⟨sent, rfl⟩ <;> cases List.mem_singleton.mp new
        cases left
  · exact put_tracked housed.keyed housed.tracked running safe move
  · exact sweep_tracked housed.keyed.locked housed.tracked running move
  · exact crash_tracked housed.keyed housed.tracked running safe (disconnect_store _ _)

/-- Whenever nothing is in flight, every blob has a row that names it, provided that no
upload has written its row behind a sweep and none has stopped between its writes with
nothing to fall back on. Once the rows are gone, so are the blobs. -/
theorem blobs_named (env : Env) {store : Store} {row : ShareRow} {events : List Event} (share : store.share = some row)
    (keyed : ∀ index chunk, store.chunks.lookup index = some chunk → chunk.blobKey = buildBlobKey row.shortId index)
    (named : ∀ key, (store.blobs.lookup key).isSome →
      ∃ index chunk, store.chunks.lookup index = some chunk ∧ chunk.blobKey = key)
    (run : (system env).Run (fun world event => transfers event ∧ orphans world event = false)
      (World.start store) events world) (quiet : world.quiet) :
    (∀ key, (world.db.store.blobs.lookup key).isSome →
      ∃ index chunk, world.db.store.chunks.lookup index = some chunk ∧ chunk.blobKey = key) ∧
    (world.db.store.chunks = ∅ → ∀ key, world.db.store.blobs.lookup key = none) := by
  have start : Housed env.options row.shortId (World.start store) := by
    refine ⟨?_, ⟨locked_start _, ?_, keyed, ?_⟩, ?_⟩
    · intro _ member
      cases member
    · intro current found
      cases share.symm.trans found
      rfl
    · intro _ _ _ member
      cases member
    · intro key stored
      exact .inr ⟨named key stored, fun _ _ member => by cases member⟩
  have housed := run.invariant (Housed env.options row.shortId) start
    fun _ _ _ housed permitted taken => step_housed housed permitted.1 permitted.2 taken
  have rows : ∀ key, (world.db.store.blobs.lookup key).isSome → Named world.db.store key := by
    intro key stored
    rcases housed.tracked key stored with ⟨proc, member, awaited⟩ | ⟨named, -⟩
    · have ended := List.all_eq_true.mp quiet proc member
      cases (unfinished_of_awaits awaited).symm.trans ended
    · exact named
  refine ⟨rows, fun empty key => ?_⟩
  by_contra stored
  obtain ⟨index, chunk, found, -⟩ := rows key (Option.isSome_iff_ne_none.mpr stored)
  rw [empty] at found
  cases found

/-- The sample share is uploaded, and swept after its expiry. -/
theorem blobs_named_swept : ∃ events world,
    (system sampleEnv).Run (fun world event => transfers event ∧ orphans world event = false)
      (World.start sampleStore) events world ∧
    world.db.store.state = some .destroyed ∧ world.db.store.blobs.lookup "abcdefghjkmn/0" = none := by
  have replayed : ((system sampleEnv).replay (fun world event => transfers event && !orphans world event)
      (World.start sampleStore) (.spawn (.put samplePut) :: steps 0 6 7 ++ .spawn .sweep :: steps 1 2000 9)).any
      (fun world => world.quiet && world.db.store.chunks.entries.isEmpty &&
        decide (world.db.store.state = some .destroyed)) = true := by
    decide +kernel
  obtain ⟨world, run, passed⟩ := System.any_replay replayed
  simp only [Bool.and_eq_true, decide_eq_true_eq, List.isEmpty_iff] at passed
  obtain ⟨⟨quiet, empty⟩, destroyed⟩ := passed
  have run := run.mono fun world event permitted => by
    simpa only [Bool.and_eq_true, Bool.not_eq_true'] using permitted
  have gone := (blobs_named sampleEnv rfl (fun _ _ found => by cases found) (fun _ stored => by cases stored) run quiet).2
  exact ⟨_, world, run, destroyed, gone (AList.ext empty) _⟩

/-- The row of an upload fails after its blob is stored. No row names the blob, so no sweep
will ever remove it. -/
theorem blob_orphaned :
    ¬ ∀ (env : Env) (store : Store) (row : ShareRow) (events : List Event) (world : World), store.share = some row →
      store.chunks = ∅ → store.blobs = ∅ →
      (system env).Run (fun _ event => transfers event) (World.start store) events world → world.quiet →
      ∀ key, (world.db.store.blobs.lookup key).isSome →
        ∃ index chunk, world.db.store.chunks.lookup index = some chunk ∧ chunk.blobKey = key := by
  intro claimed
  have replayed : ((system sampleEnv).replay (fun _ event => transfers event) (World.start sampleStore)
      (.spawn (.put samplePut) :: steps 0 6 3 ++ [.exec 0 6 .failed])).any
      (fun world => world.quiet && world.db.store.chunks.entries.isEmpty &&
        (world.db.store.blobs.lookup "abcdefghjkmn/0").isSome) = true := by
    decide +kernel
  obtain ⟨world, run, passed⟩ := System.any_replay replayed
  simp only [Bool.and_eq_true, List.isEmpty_iff] at passed
  obtain ⟨⟨quiet, empty⟩, stored⟩ := passed
  obtain ⟨index, chunk, found, -⟩ := claimed sampleEnv sampleStore _ _ world rfl rfl rfl run quiet _ stored
  have empty : world.db.store.chunks = ∅ := AList.ext empty
  rw [empty] at found
  cases found

end SlothBox.Proofs

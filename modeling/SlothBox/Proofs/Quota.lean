import Mathlib.Algebra.Order.BigOperators.Group.List
import SlothBox.Proofs.Locking
import SlothBox.Proofs.Sizes

/-! What a share can take of the object store. Every upload writes under the key of a
chunk that was declared, at most a full ciphertext, and overwriting adds nothing, so the
declaration that the gateway has bounded bounds the storage as well. -/

namespace SlothBox.Proofs
open Library

/-- Comes from a body that the schema has let through. -/
def Declared (config : GatewayConfig) (request : CreateRequest) : Prop :=
  ∃ (dates : Dates) (clock : Timestamp) (data : Json Double) (body : CreateShareBody) (id shortId : String),
    createShareSchema config dates clock data = .ok (.ok body) ∧ body.request config dates id shortId = .ok request

/-- Shares are created through the schema; everything else may be started freely. -/
def createsDeclared (config : GatewayConfig) (event : Event) : Prop :=
  ∀ request, event = .spawn (.create request) → Declared config request

/-! ### Objects of declared chunks -/

/-- The object of a chunk: under its key, and not longer than a full ciphertext. -/
def Slot (row : ShareRow) (key : String) (length : ℕ) : Prop :=
  ∃ index < row.chunkCount, key = buildBlobKey row.shortId index ∧ 0 < length ∧ length ≤ row.chunkSize + 16

theorem Slot.terms {row new : ShareRow} {key : String} {length : ℕ} (slot : Slot row key length)
    (same : SameTerms row new) : Slot new key length := by
  obtain ⟨_, _, _, _, rfl⟩ := same
  exact slot

private theorem bmod_le_self {x : ℤ} (natural : 0 ≤ x) (m : ℕ) : Int.bmod x m ≤ x := by
  have split := Int.mul_ediv_add_emod x m
  have quotient : 0 ≤ (m : ℤ) * (x / m) := mul_nonneg (Int.natCast_nonneg m) (Int.ediv_nonneg natural (Int.natCast_nonneg m))
  rw [Int.bmod_def]
  split_ifs <;> omega

/-- The 32-bit sum is never above the real one. -/
theorem fullCiphertext_le (options : IngestOptions) (share : ShareRow) :
    fullCiphertext options share ≤ share.chunkSize + options.aeadTagBytes :=
  bmod_le_self (by omega) _

section Step
variable {env : Env} {world next : World} {event : Event} {config : GatewayConfig}

theorem slot_of_check {request : PutRequest} {share : ShareRow} {now : Timestamp} {plan : PutPlan}
    (tags : env.options.aeadTagBytes = 16) (named : share.shortId = request.shortId)
    (admitted : request.check env.options share now = .ok plan) : Slot share plan.blobKey plan.ciphertextSize := by
  have fits := check_fits admitted
  have most := fullCiphertext_le env.options share
  rw [tags] at most
  refine ⟨plan.index, fits.inside, by rw [named]; exact (check_ok admitted).2.2.2, fits.filled, ?_⟩
  by_cases atEnd : plan.index + 1 = share.chunkCount
  · have := fits.last atEnd
    omega
  · have := fits.full atEnd
    omega

/-- An object was there before, or an upload has just stored its body. -/
theorem blob_origin (locked : Locked world) (taken : (system env).step world event = some next) {key : String}
    {content : Bytes} (found : next.db.store.blobs.lookup key = some content) :
    world.db.store.blobs.lookup key = some content ∨ ∃ request plan, .put request (.putBlob plan) ∈ world.procs ∧
      key = plan.blobKey ∧ content.length = plan.ciphertextSize := by
  rcases commit_cases locked taken with ⟨same, -⟩ | ⟨pid, clock, outcome, proc, moved, effect, rfl, running, written, rfl⟩ |
    ⟨pid, clock, outcome, proc, moved, now, writes, rfl, running, -, last, holds, -, rfl⟩
  · exact .inl (same ▸ found)
  · cases written with
    | @putBlob request plan moved quit outside length =>
      by_cases same : key = plan.blobKey
      · subst same
        obtain rfl := Option.some.inj ((AList.lookup_insert _).symm.trans found)
        exact .inr ⟨request, plan, List.mem_of_getElem? running, rfl, length⟩
      · exact .inl ((AList.lookup_insert_ne same).symm.trans found)
    | @removeBlob step moved removed =>
      by_cases same : key = removed
      · subst same
        cases (AList.lookup_erase _ _).symm.trans found
      · exact .inl ((AList.lookup_erase_ne same).symm.trans found)
    | _ => exact .inl found
  · exact .inl found

/-- An upload is about to store its blob as before, or was just let through. -/
theorem plan_origin (taken : (system env).step world event = some next) {request : PutRequest} {plan : PutPlan}
    (member : .put request (.putBlob plan) ∈ next.procs) :
    .put request (.putBlob plan) ∈ world.procs ∨ ∃ share clock, world.db.store.find request.shortId = some share ∧
      request.check env.options share clock = .ok plan := by
  rcases proc_origin taken member with old | ⟨started, -, same⟩ | ⟨pid, clock, outcome, proc, effect, -, running, executed⟩ |
    same
  · exact .inl old
  · cases started <;> cases same
  · cases proc with
    | put sent step =>
      obtain ⟨after, call, wrapped⟩ := handler_exec executed
      obtain ⟨rfl, rfl⟩ := Proc.put.inj wrapped
      cases put_move call with
      | check found admitted => exact .inr ⟨_, clock, found, admitted⟩
      | upsert _ _ written => cases written
      | promote _ _ _ _ written => cases written
      | proceed _ written => cases written
    | crashed => cases executed
    | _ =>
      obtain ⟨after, -, wrapped⟩ := handler_exec executed
      cases wrapped
  · cases same

/-- A handler that creates goes on with its request. -/
theorem create_origin (taken : (system env).step world event = some next) {request : CreateRequest} {step : CreateStep}
    (member : .create request step ∈ next.procs) :
    (∃ before, .create request before ∈ world.procs) ∨ event = .spawn (.create request) := by
  rcases proc_origin taken member with old | ⟨started, rfl, same⟩ | ⟨pid, clock, outcome, proc, effect, -, running, executed⟩ |
    same
  · exact .inl ⟨step, old⟩
  · cases started <;> cases same
    exact .inr rfl
  · cases proc with
    | create sent before =>
      obtain ⟨after, -, wrapped⟩ := handler_exec executed
      obtain ⟨rfl, rfl⟩ := Proc.create.inj wrapped
      exact .inl ⟨before, List.mem_of_getElem? running⟩
    | crashed => cases executed
    | _ =>
      obtain ⟨after, -, wrapped⟩ := handler_exec executed
      cases wrapped
  · cases same

/-! ### The declared share and what is stored of it -/

/-- The share is as it was declared, and every object, stored or about to be, is the
object of one of its chunks. -/
structure Rationed (config : GatewayConfig) (world : World) : Prop where
  locked : Locked world
  creates : ∀ request step, .create request step ∈ world.procs → Declared config request
  share : ∀ row, world.db.store.share = some row → ∃ request created, Declared config request ∧
    (request.row created).fits ∧ SameTerms (request.row created) row
  plans : ∀ request plan, .put request (.putBlob plan) ∈ world.procs →
    ∃ row, world.db.store.share = some row ∧ Slot row plan.blobKey plan.ciphertextSize
  blobs : ∀ key content, world.db.store.blobs.lookup key = some content →
    ∃ row, world.db.store.share = some row ∧ Slot row key content.length

theorem rationed_start (config : GatewayConfig) : Rationed config (World.start .empty) where
  locked := locked_start _
  creates _ _ := by rintro ⟨⟩
  share _ := by rintro ⟨⟩
  plans _ _ := by rintro ⟨⟩
  blobs _ _ := by rintro ⟨⟩

theorem rationed_step (tags : env.options.aeadTagBytes = 16) (rationed : Rationed config world)
    (permitted : createsDeclared config event) (taken : (system env).step world event = some next) :
    Rationed config next := by
  have locked := rationed.locked
  have kept : ∀ {key length}, (∃ row, world.db.store.share = some row ∧ Slot row key length) →
      ∃ row, next.db.store.share = some row ∧ Slot row key length := by
    rintro key length ⟨row, stored, slot⟩
    obtain ⟨new, stored, same⟩ := step_terms locked taken stored
    exact ⟨new, stored, slot.terms same⟩
  refine ⟨locked_step locked taken, ?_, ?_, ?_, ?_⟩
  · intro request step member
    rcases create_origin taken member with ⟨before, old⟩ | started
    · exact rationed.creates request before old
    · exact permitted request started
  · intro row found
    rcases rewrite_cases locked taken with ⟨same, -⟩ | ⟨new, events, stored, -, rewrites⟩
    · exact rationed.share row (same.symm.trans found)
    · obtain rfl := Option.some.inj (stored.symm.trans found)
      cases before : world.db.store.share with
      | none =>
        rw [before] at rewrites
        cases rewrites with
        | insert running executed valid =>
          exact ⟨_, _, rationed.creates _ _ (List.mem_of_getElem? running), valid.2, .refl _⟩
      | some old =>
        rw [before] at rewrites
        obtain ⟨request, created, declared, fits, same⟩ := rationed.share old before
        exact ⟨request, created, declared, fits, same.trans rewrites.sameTerms⟩
  · intro request plan member
    rcases plan_origin taken member with old | ⟨share, clock, found, admitted⟩
    · exact kept (rationed.plans request plan old)
    · obtain ⟨stored, named⟩ := find_eq_some.mp found
      exact kept ⟨share, stored, slot_of_check tags named admitted⟩
  · intro key content found
    rcases blob_origin locked taken found with old | ⟨request, plan, member, rfl, length⟩
    · exact kept (rationed.blobs key content old)
    · rw [length]
      exact kept (rationed.plans request plan member)

end Step

/-- The bytes that the object store holds of the share. -/
def totalSize (store : Store) : ℕ := (store.blobs.entries.map fun entry => entry.2.length).sum

/-- Objects under known keys: repeated uploads do not add up. -/
theorem totalSize_le (store : Store) (keys : List String) {most : ℕ}
    (known : ∀ key content, store.blobs.lookup key = some content → key ∈ keys ∧ content.length ≤ most) :
    totalSize store ≤ keys.length * most := by
  have stored : ∀ entry ∈ store.blobs.entries, entry.1 ∈ keys ∧ entry.2.length ≤ most := fun entry member =>
    known entry.1 entry.2 (AList.mem_lookup_iff.mpr member)
  have few : store.blobs.entries.length ≤ keys.length := by
    have distinct : (store.blobs.entries.map Sigma.fst).Nodup := store.blobs.nodupKeys
    have subset : store.blobs.entries.map Sigma.fst ⊆ keys := by
      intro key member
      obtain ⟨entry, inside, rfl⟩ := List.mem_map.mp member
      exact (stored entry inside).1
    simpa using (distinct.subperm subset).length_le
  calc totalSize store ≤ (store.blobs.entries.map fun entry => entry.2.length).length • most := by
        refine List.sum_le_card_nsmul _ _ fun length member => ?_
        obtain ⟨entry, inside, rfl⟩ := List.mem_map.mp member
        exact (stored entry inside).2
    _ = store.blobs.entries.length * most := by rw [List.length_map]; rfl
    _ ≤ keys.length * most := Nat.mul_le_mul_right _ few

/-- A slice of the file, and so its ciphertext, is not longer than the share allows. -/
theorem slice_fits {options : IngestOptions} {row : ShareRow} {index : ℕ} (tags : options.aeadTagBytes = 16)
    (room : row.chunkSize + 16 ≤ options.maxChunkBytes) (int32 : options.maxChunkBytes < 2 ^ 31)
    (unit : 0 < row.chunkSize) (count : row.chunkCount = ⌈(row.fileSize / row.chunkSize : ℚ)⌉₊)
    (inside : index < row.chunkCount) :
    FitsChunk options row index (min row.chunkSize (row.fileSize - index * row.chunkSize) + 16) := by
  have full : fullCiphertext options row = row.chunkSize + 16 := by
    rw [fullCiphertext_eq (by omega), tags]
    rfl
  have before : index + 1 ≠ row.chunkCount → (index + 1) * row.chunkSize < row.fileSize := by
    intro early
    have less : index + 1 < ⌈(row.fileSize / row.chunkSize : ℚ)⌉₊ := by omega
    rw [Nat.lt_ceil, lt_div_iff₀ (by exact_mod_cast unit)] at less
    exact_mod_cast less
  refine ⟨inside, by omega, by omega, fun early => ?_, fun _ => by omega⟩
  have rest := before early
  rw [Nat.succ_mul] at rest
  omega

/-- What a share can occupy in the object store, whoever uploads to it and how often, and
that nothing of an honest upload is turned away for its size. -/
theorem storage_bounded (env : Env) (tags : env.options.aeadTagBytes = 16) {config : GatewayConfig}
    {events : List Event} {world : World} {row : ShareRow}
    (run : (system env).Run (fun _ event => createsDeclared config event) (World.start .empty) events world)
    (share : world.db.store.share = some row) :
    (∀ key content, world.db.store.blobs.lookup key = some content →
      ∃ index < row.chunkCount, key = buildBlobKey row.shortId index ∧ 1 ≤ content.length ∧
        content.length ≤ row.chunkSize + 16) ∧
    totalSize world.db.store ≤ row.chunkCount * (row.chunkSize + 16) ∧
    row.chunkCount * (row.chunkSize + 16) ≤ config.maxFileSizeBytes + 16 * row.chunkCount ∧
    (env.options.maxChunkBytes = config.maxChunkSizeBytes → config.maxChunkSizeBytes < 2 ^ 31 →
      row.chunkSize + env.options.aeadTagBytes < 2 ^ 31 ∧
      (∀ (upload : PutRequest) (now : Timestamp) (plan : PutPlan), upload.check env.options row now = .ok plan →
        upload.contentLength = some (plan.ciphertextSize : ℤ) ∧ plan.ciphertextSize < 2 ^ 31) ∧
      (row.chunkCount = ⌈(row.fileSize / row.chunkSize : ℚ)⌉₊ → ∀ index < row.chunkCount,
        ∀ (upload : PutRequest) (now : Timestamp), upload.chunkIndex = index →
          upload.contentLength = some ((min row.chunkSize (row.fileSize - index * row.chunkSize) + 16 : ℕ) : ℤ) →
          row.canAcceptUploads → row.isExpired now = false →
          (∃ nonce, upload.requiredNonce env.options = .ok nonce) → (∃ hash, upload.optionalTokenHash = .ok hash) →
          ∃ plan, upload.check env.options row now = .ok plan)) := by
  have rationed := run.invariant (Rationed config) (rationed_start config) fun _ _ _ rationed permitted taken =>
    rationed_step tags rationed permitted taken
  obtain ⟨request, created, ⟨dates, clock, data, body, id, shortId, accepted, decoded⟩, fits, same⟩ :=
    rationed.share row share
  obtain ⟨-, -, decodes⟩ := request_ok decoded
  have small : request.chunkSize < 2 ^ 31 := by
    simp only [ShareRow.fits, Bool.and_eq_true, decide_eq_true_eq] at fits
    exact fits.1.1.2
  obtain ⟨-, -, ⟨unit, room⟩, storage, -⟩ := created_bounds (createShareSchema_ok accepted) decodes small
  have objects : ∀ key content, world.db.store.blobs.lookup key = some content → Slot row key content.length := by
    intro key content found
    obtain ⟨current, stored, slot⟩ := rationed.blobs key content found
    rwa [Option.some.inj (share.symm.trans stored)]
  obtain ⟨state, downloadCount, destroyedAt, destroyedReason, rfl⟩ := same
  refine ⟨objects, ?_, ?_, fun equal int32 => ⟨?_, ?_, ?_⟩⟩
  · have total := totalSize_le world.db.store ((List.range request.chunkCount).map (buildBlobKey request.shortId))
      fun key content found => by
        obtain ⟨index, inside, rfl, -, most⟩ := objects key content found
        exact ⟨List.mem_map_of_mem (List.mem_range.mpr inside), most⟩
    rwa [List.length_map, List.length_range] at total
  · change request.chunkCount * (request.chunkSize + 16) ≤ config.maxFileSizeBytes + 16 * request.chunkCount
    rw [Nat.mul_add]
    omega
  · change request.chunkSize + env.options.aeadTagBytes < 2 ^ 31
    omega
  · intro upload now plan admitted
    have bounded := (check_fits admitted).bounded
    exact ⟨(check_planned admitted).size, by omega⟩
  · intro count index inside upload now named declared accepts alive ⟨nonce, decoded⟩ ⟨hash, optional⟩
    exact check_of_fits accepts alive named declared decoded optional
      (slice_fits tags (equal ▸ room) (equal ▸ int32) unit count inside)

def sampleUpload : PutRequest := { samplePut with contentLength := some 18, body := List.replicate 18 5 }

/-- Of creations only that of the sample. -/
def createsSample : Event → Bool
  | .spawn (.create request) => request = sampleDeclared 3 2 2
  | _ => true

/-- The first of two chunks, stored twice. -/
theorem storage_bounded_twice : ∃ events world row,
    (system sampleEnv).Run (fun _ event => createsDeclared {} event) (World.start .empty) events world ∧
      world.db.store.share = some row ∧ totalSize world.db.store = 18 ∧
      totalSize world.db.store ≤ row.chunkCount * (row.chunkSize + 16) := by
  have replayed : ((system sampleEnv).replay (fun _ => createsSample) (World.start .empty)
      (.spawn (.create (sampleDeclared 3 2 2)) :: steps 0 5 2 ++ .spawn (.put sampleUpload) :: steps 1 6 4 ++
        .spawn (.put sampleUpload) :: steps 2 7 3)).any
      (fun world => world.db.store.share.isSome && totalSize world.db.store = 18) = true := by
    decide +kernel
  obtain ⟨world, run, passed⟩ := System.any_replay replayed
  obtain ⟨created, size⟩ := Bool.and_eq_true_iff.mp passed
  obtain ⟨row, share⟩ := Option.isSome_iff_exists.mp created
  have accepted : createShareSchema {} sampleDates 5 (sampleJson 3 2 2) = .ok (.ok (sampleBody 3 2 2)) := by
    decide +kernel
  have run := run.mono fun world event permitted => show createsDeclared {} event by
    rintro request rfl
    obtain rfl : request = sampleDeclared 3 2 2 := of_decide_eq_true permitted
    exact ⟨_, _, _, _, _, _, accepted, sampleBody_request 3 2 2⟩
  exact ⟨_, world, row, run, share, of_decide_eq_true size, (storage_bounded sampleEnv rfl run share).2.1⟩

end SlothBox.Proofs

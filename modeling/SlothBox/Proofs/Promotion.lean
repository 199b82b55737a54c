import SlothBox.Proofs.Statements
import Mathlib.Data.Finset.Card
import Mathlib.Data.Finset.Range

/-! Uploads alone. Handlers write `uploading` from stale reads, also over `ready`;
each of them counts the rows afterwards, so the last one repairs what it broke. -/

namespace SlothBox.Proofs
open Library

/-- Uploads only, and every call of theirs succeeds. -/
def uploads : Event → Bool
  | .spawn (.put _) | .exec _ _ .ok => true
  | _ => false

/-- Every index has a row. -/
def Complete (row : ShareRow) (store : Store) : Prop :=
  ∀ index < row.chunkCount, (store.chunks.lookup index).isSome

/-- A row with its blob. -/
def Stored (row : ShareRow) (store : Store) (index : Nat) (chunk : ChunkRow) : Prop :=
  index < row.chunkCount ∧ chunk.uploadedAt.isSome ∧ chunk.blobKey = buildBlobKey row.shortId index ∧
    (store.blobs.lookup chunk.blobKey).isSome

/-- The plan was made for this share, whatever state the share was in. -/
def PlanFor (row : ShareRow) (plan : PutPlan) : Prop :=
  plan.share.id = row.id ∧ plan.share.chunkCount = row.chunkCount ∧ plan.index < row.chunkCount ∧
    plan.blobKey = buildBlobKey row.shortId plan.index

def StepValid (row : ShareRow) (store : Store) : PutStep → Prop
  | .putBlob plan | .setUploading plan | .countChunks plan => PlanFor row plan
  | .upsert plan _ => PlanFor row plan ∧ (store.blobs.lookup plan.blobKey).isSome
  | .setReady plan => PlanFor row plan ∧ Complete row store
  | _ => True

/-- The handler is going to count, or has counted, after the present state was written. -/
def settling : PutStep → Bool
  | .setUploading _ | .countChunks _ | .setReady _ => true
  | _ => false

structure Uploading (row : ShareRow) (world : World) : Prop where
  unlocked : world.db.tx = none
  share : ∃ state, world.db.store.share = some { row with state }
  stored : ∀ index chunk, world.db.store.chunks.lookup index = some chunk → Stored row world.db.store index chunk
  procs : ∀ proc ∈ world.procs, ∃ request step, proc = .put request step ∧ StepValid row world.db.store step
  complete : world.db.store.state = some .ready → Complete row world.db.store
  settled : Complete row world.db.store → world.db.store.state = some .ready ∨
    ∃ request step, Proc.put request step ∈ world.procs ∧ settling step

/-- Rows and blobs are only added. -/
structure Grows (before after : Store) : Prop where
  chunks : ∀ index, (before.chunks.lookup index).isSome → (after.chunks.lookup index).isSome
  blobs : ∀ key, (before.blobs.lookup key).isSome → (after.blobs.lookup key).isSome

theorem Grows.refl (store : Store) : Grows store store := ⟨fun _ => id, fun _ => id⟩

theorem Complete.grow {row : ShareRow} {before after : Store} (complete : Complete row before)
    (growth : Grows before after) : Complete row after :=
  fun index inside => growth.chunks index (complete index inside)

theorem Stored.grow {row : ShareRow} {before after : Store} {index : Nat} {chunk : ChunkRow}
    (stored : Stored row before index chunk) (growth : Grows before after) : Stored row after index chunk :=
  ⟨stored.1, stored.2.1, stored.2.2.1, growth.blobs _ stored.2.2.2⟩

theorem StepValid.grow {row : ShareRow} {before after : Store} {step : PutStep}
    (valid : StepValid row before step) (growth : Grows before after) : StepValid row after step := by
  cases step with
  | acquire => trivial
  | readShare => trivial
  | putBlob plan => exact valid
  | upsert plan uploadedAt => exact ⟨valid.1, growth.blobs _ valid.2⟩
  | setUploading plan => exact valid
  | countChunks plan => exact valid
  | setReady plan => exact ⟨valid.1, valid.2.grow growth⟩
  | done reply => trivial

/-- Distinct keys below a bound, as many as the bound, are all of them. -/
theorem mem_of_full {keys : List Nat} {bound : Nat} (distinct : keys.Nodup) (inside : ∀ key ∈ keys, key < bound)
    (full : bound ≤ keys.length) : ∀ index < bound, index ∈ keys := by
  have subset : keys.toFinset ⊆ Finset.range bound := fun key member =>
    Finset.mem_range.mpr (inside key (List.mem_toFinset.mp member))
  have large : (Finset.range bound).card ≤ keys.toFinset.card := by
    rw [Finset.card_range, List.toFinset_card_of_nodup distinct]
    exact full
  intro index below
  rw [← List.mem_toFinset, Finset.eq_of_subset_of_card_le subset large]
  exact Finset.mem_range.mpr below

/-- The count that a handler makes reaches the declared number exactly when no row is missing. -/
theorem complete_iff_count {row : ShareRow} {store : Store}
    (stored : ∀ index chunk, store.chunks.lookup index = some chunk →
      index < row.chunkCount ∧ chunk.uploadedAt.isSome) :
    row.chunkCount ≤ store.countUploadedChunks ↔ Complete row store := by
  have uploaded : store.countUploadedChunks = store.chunks.keys.length := by
    unfold Store.countUploadedChunks
    rw [AList.keys, List.keys, List.length_map]
    refine List.countP_eq_length.mpr ?_
    intro entry member
    exact (stored _ _ (AList.mem_lookup_iff.mpr member)).2
  have inside : ∀ key ∈ store.chunks.keys, key < row.chunkCount := by
    intro key member
    obtain ⟨chunk, found⟩ := Option.isSome_iff_exists.mp (AList.lookup_isSome.mpr (AList.mem_keys.mpr member))
    exact (stored key chunk found).1
  rw [uploaded]
  constructor
  · intro full index below
    exact AList.lookup_isSome.mpr (AList.mem_keys.mpr (mem_of_full store.chunks.keys_nodup inside full index below))
  · intro complete
    have subset : Finset.range row.chunkCount ⊆ store.chunks.keys.toFinset := fun index below =>
      List.mem_toFinset.mpr (AList.mem_keys.mp (AList.lookup_isSome.mp (complete index (Finset.mem_range.mp below))))
    simpa [List.toFinset_card_of_nodup store.chunks.keys_nodup] using Finset.card_le_card subset

/-- One statement of an upload: what it leaves in the store, and what it owes. -/
structure Advance (row : ShareRow) (before after : Store) (step moved : PutStep) : Prop where
  grows : Grows before after
  share : ∃ state, after.share = some { row with state }
  stored : ∀ index chunk, after.chunks.lookup index = some chunk → Stored row after index chunk
  valid : StepValid row after moved
  complete : after.state = some .ready → before.state = some .ready ∨ Complete row before
  completes : Complete row after → Complete row before ∨ settling moved
  settles : settling step → Complete row before → settling moved ∨ after.state = some .ready
  overwrites : after.state = before.state ∨ settling moved ∨ after.state = some .ready

section Statements
variable {env : Env} {db : Database} {row : ShareRow} {request : PutRequest}

/-- A statement that writes nothing. -/
private theorem Advance.still {step moved : PutStep} (share : ∃ state, db.store.share = some { row with state })
    (stored : ∀ index chunk, db.store.chunks.lookup index = some chunk → Stored row db.store index chunk)
    (valid : StepValid row db.store moved) (settles : settling step → Complete row db.store → settling moved) :
    Advance row db.store db.store step moved where
  grows := .refl _
  share := share
  stored := stored
  valid := valid
  complete := .inl
  completes := .inl
  settles owes complete := .inl (settles owes complete)
  overwrites := .inl rfl

theorem uploadedAt_upsert {store : Store} {index : Nat} {nonce : Bytes} {key : String} {size : Nat}
    {uploadedAt : Timestamp} {hash : Option Bytes} :
    (upsertChunk store index nonce key size uploadedAt hash).uploadedAt = some uploadedAt ∧
      (upsertChunk store index nonce key size uploadedAt hash).blobKey = key := by
  unfold upsertChunk clearChunkDeliveryOnReplace
  split
  · exact ⟨rfl, rfl⟩
  · dsimp only
    split <;> exact ⟨rfl, rfl⟩

/-- Adding a row with its blob already there. -/
private theorem Advance.upserted {plan : PutPlan} {uploadedAt : Timestamp} {pid : Nat} {moved : PutStep}
    (share : ∃ state, db.store.share = some { row with state })
    (stored : ∀ index chunk, db.store.chunks.lookup index = some chunk → Stored row db.store index chunk)
    (valid : StepValid row db.store (.upsert plan uploadedAt)) (goes : moved = following db (.upsert plan uploadedAt)) :
    Advance row db.store (db.apply pid (.auto { chunk := some (plan.index, upsertChunk db.store plan.index plan.nonce
      plan.blobKey plan.ciphertextSize uploadedAt plan.downloadTokenHash) })).store (.upsert plan uploadedAt) moved := by
  obtain ⟨planned, present⟩ := valid
  set written := upsertChunk db.store plan.index plan.nonce plan.blobKey plan.ciphertextSize uploadedAt
    plan.downloadTokenHash with upserted
  have growth : Grows db.store { db.store with chunks := db.store.chunks.insert plan.index written } := by
    refine ⟨fun index present => ?_, fun _ => id⟩
    rw [AList.lookup_isSome] at present ⊢
    exact (AList.mem_insert _).mpr (.inr present)
  have counted : settling moved ∧ ∀ store, StepValid row store moved := by
    rw [goes, following]
    split
    · exact ⟨rfl, fun _ => planned⟩
    · exact ⟨rfl, fun _ => planned⟩
  have same : (db.apply pid (.auto { chunk := some (plan.index, written) })).store =
      { db.store with chunks := db.store.chunks.insert plan.index written } := by
    simp [Database.apply, WriteSet.apply]
  rw [same]
  refine ⟨growth, share, ?_, counted.2 _, .inl, fun _ => .inr counted.1, nofun, .inl rfl⟩
  intro index chunk found
  by_cases own : index = plan.index
  · subst own
    obtain rfl : written = chunk := by simpa using found
    have uploaded := @uploadedAt_upsert db.store plan.index plan.nonce plan.blobKey plan.ciphertextSize
      uploadedAt plan.downloadTokenHash
    rw [← upserted] at uploaded
    exact ⟨planned.2.2.1, by simp [uploaded.1], uploaded.2.trans planned.2.2.2, by rw [uploaded.2]; exact present⟩
  · rw [AList.lookup_insert_ne own] at found
    exact (stored index chunk found).grow growth

/-- A promotion leaves the row with its new state and goes on, or is done with it. -/
private theorem Advance.promoted {step moved : PutStep} {plan : PutPlan} {state : ShareState} {current : ShareRow} {pid : Nat}
    (share : ∃ state, db.store.share = some { row with state })
    (stored : ∀ index chunk, db.store.chunks.lookup index = some chunk → Stored row db.store index chunk)
    (valid : StepValid row db.store step) (promoted : promotion step = some (plan, state))
    (found : db.store.share = some current) (goes : moved = following db step) :
    Advance row db.store (db.apply pid (.auto { share := some { current with state } })).store step moved := by
  obtain ⟨before, share⟩ := share
  obtain rfl : { row with state := before } = current := Option.some.inj (share.symm.trans found)
  subst goes
  cases step with
  | setUploading plan =>
    cases promoted
    exact ⟨⟨fun _ => id, fun _ => id⟩, ⟨.uploading, rfl⟩, stored, valid, nofun, .inl, fun _ _ => .inl rfl, .inr (.inl rfl)⟩
  | setReady plan =>
    cases promoted
    exact ⟨⟨fun _ => id, fun _ => id⟩, ⟨.ready, rfl⟩, stored, trivial, fun _ => .inr valid.2, .inl,
      fun _ _ => .inr rfl, .inr (.inr rfl)⟩
  | _ => cases promoted

/-- The plan of an admitted upload is one for this share. -/
private theorem planFor_check {share : ShareRow} {clock : Timestamp} {plan : PutPlan}
    (stored : ∃ state, db.store.share = some { row with state }) (read : db.store.find request.shortId = some share)
    (admitted : request.check env.options share clock = .ok plan) : PlanFor row plan := by
  obtain ⟨current, stored⟩ := stored
  obtain ⟨same, named⟩ := find_eq_some.mp read
  obtain rfl : { row with state := current } = share := Option.some.inj (stored.symm.trans same)
  obtain ⟨-, read, inside, key⟩ := check_ok admitted
  exact ⟨by rw [read], by rw [read], inside, by rw [key, ← named]⟩

theorem put_advance {clock : Timestamp} {step moved : PutStep} {effect : Effect} (pid : Nat)
    (unlocked : db.tx = none) (share : ∃ state, db.store.share = some { row with state })
    (stored : ∀ index chunk, db.store.chunks.lookup index = some chunk → Stored row db.store index chunk)
    (valid : StepValid row db.store step)
    (executed : step.exec env db request clock .ok = some (moved, effect)) :
    (db.apply pid effect).tx = none ∧ Advance row db.store (db.apply pid effect).store step moved := by
  cases put_move executed with
  | acquire => exact ⟨unlocked, .still share stored trivial nofun⟩
  | check found admitted => exact ⟨unlocked, .still share stored (planFor_check share found admitted) nofun⟩
  | @putBlob plan =>
    have growth : Grows db.store { db.store with blobs := db.store.blobs.insert plan.blobKey request.body } := by
      refine ⟨fun _ => id, fun key present => ?_⟩
      rw [AList.lookup_isSome] at present ⊢
      exact (AList.mem_insert _).mpr (.inr present)
    refine ⟨unlocked, growth, share, fun index chunk found => (stored index chunk found).grow growth, ?_,
      .inl, .inl, nofun, .inl rfl⟩
    exact ⟨valid, by simp [Database.apply]⟩
  | putLost _ lost => cases lost
  | upsert _ _ _ goes => exact ⟨unlocked, .upserted share stored valid (goes rfl)⟩
  | promote _ _ promoted found _ goes =>
    exact ⟨unlocked, .promoted share stored valid promoted (findById_eq_some.mp found).1 (goes rfl)⟩
  | proceed written _ goes absent =>
    refine ⟨unlocked, ?_⟩
    obtain rfl := goes rfl
    -- the promotions find their row, so this is the count
    have missing : ∀ plan state, promotion step = some (plan, state) → plan.share.id ≠ row.id := by
      intro plan state promoted named
      obtain ⟨current, share⟩ := share
      exact absurd ((absent rfl plan state promoted).symm.trans (findById_eq_some.mpr ⟨share, named.symm⟩)) (by simp)
    cases step with
    | setUploading plan => exact absurd valid.1 (missing plan _ rfl)
    | countChunks plan =>
      have uploaded := complete_iff_count fun index chunk found =>
        ⟨(stored index chunk found).1, (stored index chunk found).2.1⟩
      simp only [following, valid.2.1]
      refine .still share stored ?_ ?_
      · split
        next full => exact ⟨valid, uploaded.mp full⟩
        next => trivial
      · intro _ complete
        rw [if_pos (uploaded.mpr complete)]
        rfl
    | setReady plan => exact absurd valid.1.1 (missing plan _ rfl)
    | done reply => cases executed
    | _ => cases written
  | stop failed bad =>
    refine ⟨unlocked, .still share stored trivial fun owes => ?_⟩
    have written : settled step := by
      cases step <;> first | rfl | cases owes
    exact absurd rfl (bad written)

end Statements

theorem uploading_step {env : Env} {row : ShareRow} {world next : World} {event : Event}
    (valid : Uploading row world) (permitted : uploads event) (taken : (system env).step world event = some next) :
    Uploading row next := by
  rcases step_cases taken with ⟨request, rfl, rfl⟩ |
    ⟨pid, clock, outcome, proc, moved, effect, rfl, running, executed, rfl⟩ | ⟨pid, proc, rfl, running, rfl⟩
  · cases request with
    | put request =>
      refine { valid with procs := ?_, settled := ?_ }
      · intro proc member
        rcases List.mem_append.mp member with old | new
        · exact valid.procs proc old
        · exact ⟨request, .acquire, List.mem_singleton.mp new, trivial⟩
      · intro complete
        rcases valid.settled complete with ready | ⟨request, step, member, owes⟩
        · exact .inl ready
        · exact .inr ⟨request, step, List.mem_append_left _ member, owes⟩
    | _ => cases permitted
  · obtain ⟨request, step, rfl, ready⟩ := valid.procs proc (List.mem_of_getElem? running)
    obtain rfl : outcome = .ok := by
      cases outcome <;> first | rfl | cases permitted
    obtain ⟨after, moved, rfl⟩ := handler_exec executed
    obtain ⟨unlocked, advance⟩ := put_advance pid valid.unlocked valid.share valid.stored ready moved
    refine ⟨unlocked, advance.share, advance.stored, ?_, ?_, ?_⟩
    · intro proc member
      rcases mem_set_cases member with rfl | old
      · exact ⟨request, after, rfl, advance.valid⟩
      · obtain ⟨other, step, rfl, held⟩ := valid.procs proc old
        exact ⟨other, step, rfl, held.grow advance.grows⟩
    · intro promoted
      rcases advance.complete promoted with before | complete
      · exact (valid.complete before).grow advance.grows
      · exact complete.grow advance.grows
    · -- whoever is left with a count to make stands for the state still to be written
      intro complete
      have owed : settling after → ∃ other step,
          Proc.put other step ∈ world.procs.set pid (.put request after) ∧ settling step := fun owes =>
        ⟨request, after, mem_set_of_getElem? running, owes⟩
      rcases advance.completes complete with before | owes
      · rcases valid.settled before with promoted | ⟨other, waiting, member, owes⟩
        · rcases advance.overwrites with same | owes | promoted
          · exact .inl (same.trans promoted)
          · exact .inr (owed owes)
          · exact .inl promoted
        · by_cases own : Proc.put other waiting = Proc.put request step
          · obtain ⟨rfl, rfl⟩ := Proc.put.inj own
            exact (advance.settles owes before).symm.imp id owed
          · exact .inr ⟨other, waiting, mem_set_of_ne running member own, owes⟩
      · exact .inr (owed owes)
  · cases permitted

/-- From a share just created, whatever uploads run and however they interleave:
`ready` means that nothing is missing, and once all of them have returned the share
is `ready` exactly when no index lacks its row. -/
theorem upload_promotion (env : Env) (row : ShareRow) (store : Store) (created : store.share = some row)
    (pending : row.state = .pending) (positive : 0 < row.chunkCount) (fresh : store.chunks = ∅)
    {events : List Event} {final : World}
    (run : (system env).Run (fun _ event => uploads event = true) (World.start store) events final) :
    (final.db.store.state = some .ready → ∀ index < row.chunkCount, ∃ chunk,
      final.db.store.chunks.lookup index = some chunk ∧ (final.db.store.blobs.lookup chunk.blobKey).isSome) ∧
    (final.quiet → (final.db.store.state = some .ready ↔
      ∀ index < row.chunkCount, (final.db.store.chunks.lookup index).isSome)) := by
  have initial : Uploading row (World.start store) := by
    refine ⟨rfl, ⟨row.state, by simpa [World.start] using created⟩, ?_, by rintro _ ⟨⟩, ?_, ?_⟩
    · intro index chunk found
      simp [World.start, fresh] at found
    · intro ready
      simp [World.start, Store.state, created, pending] at ready
    · intro complete
      simpa [World.start, fresh] using complete 0 positive
  have valid := run.invariant (Uploading row) initial fun _ _ _ kept permitted taken =>
    uploading_step kept permitted taken
  constructor
  · intro ready index inside
    obtain ⟨chunk, found⟩ := Option.isSome_iff_exists.mp (valid.complete ready index inside)
    exact ⟨chunk, found, (valid.stored index chunk found).2.2.2⟩
  · intro quiet
    refine ⟨valid.complete, fun complete => ?_⟩
    rcases valid.settled complete with ready | ⟨request, step, member, owes⟩
    · exact ready
    · have finished := List.all_eq_true.mp quiet _ member
      cases step <;> simp_all [settling, Proc.finished]

/-- Two uploads of one chunk both read `pending`; the second one takes `ready` back
to `uploading` before it counts. -/
theorem upload_promotion_stale : ∃ events final,
    (system sampleEnv).Run (fun _ event => uploads event = true) (World.start sampleStore) events final ∧
    final.quiet ∧ final.db.store.state = some .ready ∧
    (final.db.store.state = some .ready ↔ ∀ index < 1, (final.db.store.chunks.lookup index).isSome) := by
  have replayed : ((system sampleEnv).replay (fun _ event => uploads event) (World.start sampleStore)
      (.spawn (.put samplePut) :: .spawn (.put samplePut) :: steps 0 6 2 ++ steps 1 6 2 ++ steps 0 7 5 ++
        steps 1 8 5)).any (fun final => final.quiet && final.db.store.state = some .ready) = true := by
    decide +kernel
  obtain ⟨final, run, passed⟩ := System.any_replay replayed
  obtain ⟨quiet, ready⟩ := Bool.and_eq_true_iff.mp passed
  have settled := upload_promotion sampleEnv (sampleCreate.row 5) sampleStore rfl rfl (by decide) rfl run
  exact ⟨_, final, run, quiet, of_decide_eq_true ready, settled.2 quiet⟩

end SlothBox.Proofs

import SlothBox.Proofs.Locking

/-! A share after it has become `ready`. Uploads are admitted by the state they read and
write later, so what freezes a share is not its state but that no upload admitted before
is still writing. -/

namespace SlothBox.Proofs
open Library

/-- A write of an upload takes effect on a share that does not accept uploads any more: its blob, its
chunk row, or the state `uploading`. -/
def writesLate (world : World) : Event → Bool
  | .exec pid _ outcome =>
    takesEffect outcome && world.db.store.share.any (fun row => !row.canAcceptUploads) &&
      match world.procs[pid]? with
      | some (.put request (.putBlob plan)) => request.body.length = plan.ciphertextSize
      | some (.put _ (.upsert ..)) | some (.put _ (.setUploading _)) => true
      | _ => false
  | _ => false

/-- A statement of the reaper. -/
def reaps (world : World) : Event → Bool
  | .exec pid _ _ =>
    match world.procs[pid]? with
    | some (.sweep _) => true
    | _ => false
  | _ => false

/-! ### What a reader keeps to itself -/

/-- The chunk row in an open transaction is the stored one with its delivery stamped. -/
def Stamped (db : Database) : Prop :=
  ∀ tx index row, db.tx = some tx → tx.writes.chunk = some (index, row) →
    ∃ old, db.store.chunks.lookup index = some old ∧ row = stampServed tx.now old

section Stamped
variable {env : Env} {world next : World} {event : Event} {db : Database} {pid : Nat} {clock : Timestamp}
  {outcome : Outcome} {effect : Effect}

/-- Everything but a chunk may be staged. -/
theorem Stamped.stage {writes : WriteSet} (stamped : Stamped db) (chunk : writes.chunk = none) :
    Stamped (db.apply pid (.stage writes)) := by
  intro tx index row opened staged
  obtain ⟨before, held, rfl⟩ := Option.map_eq_some_iff.mp opened
  refine stamped before index row held ?_
  simpa [WriteSet.merge, chunk] using staged

theorem Stamped.closed {db : Database} (free : db.tx = none) : Stamped db := by
  intro tx index row opened
  rw [free] at opened
  cases opened

/-- The chunk that `mark_chunk_served` stamps is the stored one. -/
theorem Stamped.stamp {now : Timestamp} {index : Nat} {row : ChunkRow} (opened : db.tx = some ⟨pid, now, {}⟩)
    (found : db.view.chunks.lookup index = some row) :
    Stamped (db.apply pid (.stage { chunk := some (index, stampServed (db.tx.elim clock Transaction.now) row) })) := by
  have stored : db.store.chunks.lookup index = some row := by simpa [Database.view, opened, WriteSet.apply] using found
  intro tx other staged held written
  simp only [Database.apply, opened, Option.map_some, Option.some.injEq] at held
  subst held
  obtain ⟨rfl, rfl⟩ : index = other ∧ stampServed now row = staged := by
    simpa [WriteSet.merge] using written
  exact ⟨row, stored, rfl⟩

/-- Another process changes no chunk row that is staged. -/
theorem writes_stamped {proc moved : Proc} (stamped : Stamped db)
    (written : Writes env db clock outcome proc moved effect) : Stamped (db.apply pid effect) := by
  cases written with
  | @upsert _ plan _ _ executed free =>
    intro tx index row opened staged
    obtain ⟨old, found, same⟩ := stamped tx index row opened staged
    refine ⟨old, ?_, same⟩
    have opened : db.tx = some tx := opened
    have apart : index ≠ plan.index := by
      rintro rfl
      simp [Database.blocksUpsert, opened, WriteSet.touches, staged] at free
    simpa [Database.apply, WriteSet.apply, AList.lookup_insert_ne apart] using found
  | markLock free =>
    intro tx index row opened staged
    cases opened
    cases staged
  | sweepLock ok free =>
    intro tx index row opened staged
    cases opened
    cases staged
  | _ => exact stamped

theorem mark_stamped {request : GetRequest} {share : ShareRow} {step : MarkStep} {now : Timestamp} {writes : WriteSet}
    {after : MarkStep ⊕ Option MarkResult} (stamped : Stamped db) (opened : db.tx = some ⟨pid, now, writes⟩)
    (holds : Holds db.store now (.get request (.mark share step)) writes)
    (call : step.exec db share.id request.chunkIndex.toNat clock outcome = some (after, effect)) :
    Stamped (db.apply pid effect) := by
  cases mark_move call with
  | lock => cases holds
  | leave => cases holds
  | stamp found =>
    cases holds with
    | stampChunk => exact .stamp opened found
  | stampOnly found =>
    cases holds with
    | stampChunk => exact .stamp opened found
  | flip => exact stamped.stage rfl
  | append => exact stamped.stage rfl
  | commit => exact .closed rfl
  | rollback => exact .closed rfl
  | _ => exact stamped

theorem sweep_stamped {step moved : SweepStep} (stamped : Stamped db)
    (inside : finalizing step) (call : step.exec db clock outcome = some (moved, effect)) :
    Stamped (db.apply pid effect) := by
  cases sweep_move call with
  | deleteChunks => exact stamped.stage rfl
  | update => exact stamped.stage rfl
  | append => exact stamped.stage rfl
  | commit => exact .closed rfl
  | commitLost => exact .closed rfl
  | rollback => exact .closed rfl
  | removeBlob => cases inside
  | removeLost => cases inside
  | lock => cases inside
  | _ => exact stamped

theorem stamped_step (locked : Locked world) (stamped : Stamped world.db)
    (taken : (system env).step world event = some next) : Stamped next.db := by
  rcases step_cases taken with ⟨request, rfl, rfl⟩ |
    ⟨pid, clock, outcome, proc, moved, effect, rfl, running, executed, rfl⟩ | ⟨pid, proc, rfl, running, rfl⟩
  · exact stamped
  · cases place : inside proc with
    | false => exact writes_stamped stamped (exec_writes place executed)
    | true =>
      obtain ⟨now, writes, opened, holds⟩ := locked.held pid proc running place
      cases proc with
      | get request step =>
        obtain ⟨after, call, rfl⟩ := handler_exec executed
        cases step with
        | mark share step =>
          obtain ⟨⟨result, written⟩, marks, same⟩ := Option.map_eq_some_iff.mp call
          cases result <;> cases same <;> exact mark_stamped stamped opened holds marks
        | _ => cases place
      | sweep step =>
        obtain ⟨after, call, rfl⟩ := handler_exec executed
        exact sweep_stamped stamped place call
      | _ => cases place
  · unfold Database.disconnect
    split
    · exact .closed rfl
    · exact stamped

end Stamped

/-! ### After `ready` -/

/-- The row of the same upload, delivered at least as often. -/
structure SameUpload (old new : ChunkRow) : Prop where
  nonce : new.nonce = old.nonce
  blobKey : new.blobKey = old.blobKey
  ciphertextSize : new.ciphertextSize = old.ciphertextSize
  uploadedAt : new.uploadedAt = old.uploadedAt
  downloadTokenHash : new.downloadTokenHash = old.downloadTokenHash
  servedAt : ∀ time, old.servedAt = some time → new.servedAt = some time

theorem SameUpload.refl (row : ChunkRow) : SameUpload row row := ⟨rfl, rfl, rfl, rfl, rfl, fun _ => id⟩

theorem SameUpload.stamp {old new : ChunkRow} (same : SameUpload old new) (now : Timestamp) :
    SameUpload old (stampServed now new) := by
  have kept : stampServed now new =
      { new with servedAt := new.servedAt.or (some now), servedCount := new.servedCount + 1 } := by
    simp [stampServed, clearChunkDeliveryOnReplace]
  rw [kept]
  exact ⟨same.nonce, same.blobKey, same.ciphertextSize, same.uploadedAt, same.downloadTokenHash,
    fun time served => by simp [same.servedAt time served]⟩

/-- The share does not accept uploads, and everything that was uploaded is in place. -/
structure Frozen (store : Store) (world : World) : Prop where
  closed : ∃ row, world.db.store.share = some row ∧ row.canAcceptUploads = false
  chunks : ∀ index old, store.chunks.lookup index = some old →
    ∃ new, world.db.store.chunks.lookup index = some new ∧ SameUpload old new
  blobs : world.db.store.blobs = store.blobs

section Frozen
variable {env : Env} {store : Store} {world next : World} {event : Event}

/-- A statement that ends a share or counts a download opens it to nobody. -/
theorem rewrite_closed {row new : ShareRow} {events : List AuditEvent} (share : world.db.store.share = some row)
    (closed : row.canAcceptUploads = false) (permitted : writesLate world event = false)
    (rewrites : Rewrites world event (some row) new events) : new.canAcceptUploads = false := by
  cases rewrites with
  | @promote _ _ _ _ step _ _ _ running executed promoted =>
    cases step with
    | setUploading plan => simp [writesLate, executed, share, closed, running] at permitted
    | setReady plan =>
      cases promoted
      rfl
    | _ => cases promoted
  | increment running executed named counted =>
    obtain ⟨live, -, ⟨-, ended, -⟩ | ended | same⟩ := incrementDownload_some counted
    · simp [ShareRow.canAcceptUploads, ended]
    · simp [ShareRow.canAcceptUploads, ended]
    · rcases live with live | live <;> simp [ShareRow.canAcceptUploads, same, live]
  | revoke => rfl
  | burn => rfl
  | reap => rfl

/-- Nothing but a delivery changes a chunk row, and nothing changes a blob. -/
theorem data_frozen (locked : Locked world) (stamped : Stamped world.db) (frozen : Frozen store world)
    (permitted : writesLate world event = false) (spared : reaps world event = false)
    (taken : (system env).step world event = some next) :
    (∀ index old, store.chunks.lookup index = some old →
      ∃ new, next.db.store.chunks.lookup index = some new ∧ SameUpload old new) ∧ next.db.store.blobs = store.blobs := by
  obtain ⟨row, share, closed⟩ := frozen.closed
  rcases commit_cases locked taken with ⟨same, -⟩ | ⟨pid, clock, outcome, proc, moved, effect, rfl, running, written, rfl⟩ |
    ⟨pid, clock, outcome, proc, moved, now, writes, rfl, running, opened, last, holds, -, rfl⟩
  · rw [same]
    exact ⟨frozen.chunks, frozen.blobs⟩
  · cases written with
    | putBlob _ _ length executed => simp [writesLate, executed, share, closed, running, length] at permitted
    | upsert executed => simp [writesLate, executed, share, closed, running] at permitted
    | removeBlob => simp [reaps, running] at spared
    | _ => exact ⟨frozen.chunks, frozen.blobs⟩
  · refine ⟨?_, frozen.blobs⟩
    have delivered : ∀ chunk, writes.chunk = some chunk → ∀ index old, store.chunks.lookup index = some old →
        ∃ new, (world.db.store.chunks.insert chunk.1 chunk.2).lookup index = some new ∧ SameUpload old new := by
      rintro ⟨marked, stampedRow⟩ staged index old found
      obtain ⟨new, stored, same⟩ := frozen.chunks index old found
      by_cases own : index = marked
      · subst own
        obtain ⟨current, again, rfl⟩ := stamped _ index stampedRow opened staged
        cases stored.symm.trans again
        exact ⟨_, AList.lookup_insert _, same.stamp now⟩
      · exact ⟨new, by rw [AList.lookup_insert_ne own]; exact stored, same⟩
    cases holds with
    | burned => exact delivered _ rfl
    | @marked _ _ _ _ chunk =>
      cases chunk with
      | none => exact frozen.chunks
      | some chunk => exact delivered _ rfl
    | reaped => simp [reaps, running] at spared
    | _ => cases last

theorem frozen_step (locked : Locked world) (stamped : Stamped world.db) (frozen : Frozen store world)
    (permitted : writesLate world event = false) (spared : reaps world event = false)
    (taken : (system env).step world event = some next) : Frozen store next := by
  obtain ⟨chunks, blobs⟩ := data_frozen locked stamped frozen permitted spared taken
  refine ⟨?_, chunks, blobs⟩
  obtain ⟨row, share, closed⟩ := frozen.closed
  rcases rewrite_cases locked taken with ⟨same, -⟩ | ⟨new, events, stored, -, rewrites⟩
  · exact ⟨row, same.trans share, closed⟩
  · rw [share] at rewrites
    exact ⟨new, stored, rewrite_closed share closed permitted rewrites⟩

end Frozen

/-- Once a share is `ready`, and as long as no upload writes to it late, no chunk of it and no blob is
replaced and no delivery is forgotten, whatever uploads and readers are interleaved. -/
theorem ready_share_frozen (env : Env) {store : Store} {first second : List Event} {middle final : World}
    (before : (system env).Run (fun _ _ => True) (World.start store) first middle)
    (ready : middle.db.store.state = some .ready)
    (after : (system env).Run (fun world event => writesLate world event = false ∧ reaps world event = false)
      middle second final) :
    (∀ index old, middle.db.store.chunks.lookup index = some old →
      ∃ new, final.db.store.chunks.lookup index = some new ∧ SameUpload old new) ∧
    final.db.store.blobs = middle.db.store.blobs := by
  have reached := before.invariant (fun world => Locked world ∧ Stamped world.db) ⟨locked_start store, .closed rfl⟩
    fun _ _ _ kept _ taken => ⟨locked_step kept.1 taken, stamped_step kept.1 kept.2 taken⟩
  have frozen : Frozen middle.db.store middle := by
    refine ⟨?_, fun index old found => ⟨old, found, .refl old⟩, rfl⟩
    obtain ⟨row, share, state⟩ := Option.map_eq_some_iff.mp ready
    exact ⟨row, share, by simp [ShareRow.canAcceptUploads, state]⟩
  have kept := after.invariant (fun world => (Locked world ∧ Stamped world.db) ∧ Frozen middle.db.store world)
    ⟨reached, frozen⟩ fun _ _ _ kept permitted taken =>
      ⟨⟨locked_step kept.1.1 taken, stamped_step kept.1.1 kept.1.2 taken⟩,
        frozen_step kept.1.1 kept.1.2 kept.2 permitted.1 permitted.2 taken⟩
  exact ⟨kept.2.chunks, kept.2.blobs⟩

/-- The sample share, to be read as often as one likes. -/
def sampleKept : Store := { Store.empty with share := some ({ sampleCreate with burnAfterRead := false }.row 5) }

/-- The share is uploaded and read, and an upload that comes later is refused. -/
theorem ready_share_frozen_read : ∃ first second middle final old,
    (system sampleEnv).Run (fun _ _ => True) (World.start sampleKept) first middle ∧
    middle.db.store.state = some .ready ∧
    (system sampleEnv).Run (fun world event => writesLate world event = false ∧ reaps world event = false)
      middle second final ∧
    middle.db.store.chunks.lookup 0 = some old ∧
    (∃ new, final.db.store.chunks.lookup 0 = some new ∧ new.servedAt = some 7 ∧ SameUpload old new) ∧
    final.db.store.blobs = middle.db.store.blobs := by
  have replayed : ((system sampleEnv).replay (fun _ _ => true) (World.start sampleKept)
      (.spawn (.put samplePut) :: steps 0 6 7)).any (fun middle => middle.db.store.state = some .ready &&
        (middle.db.store.chunks.lookup 0).isSome && ((system sampleEnv).replay
          (fun world event => !writesLate world event && !reaps world event) middle
          (.spawn (.get sampleGet) :: steps 1 7 8 ++ .spawn (.put samplePut) :: steps 2 8 2)).any fun final =>
            (final.db.store.chunks.lookup 0).any (·.servedAt = some 7)) = true := by decide +kernel
  obtain ⟨middle, before, passed⟩ := System.any_replay replayed
  simp only [Bool.and_eq_true, decide_eq_true_eq] at passed
  obtain ⟨⟨ready, present⟩, continued⟩ := passed
  obtain ⟨final, after, served⟩ := System.any_replay continued
  obtain ⟨old, found⟩ := Option.isSome_iff_exists.mp present
  have before := before.mono fun _ _ _ => trivial
  have after := after.mono fun world event permitted => by
    simpa only [Bool.and_eq_true, Bool.not_eq_true'] using permitted
  obtain ⟨chunks, blobs⟩ := ready_share_frozen sampleEnv before ready after
  obtain ⟨new, stored, same⟩ := chunks 0 old found
  rw [stored, Option.any_some, decide_eq_true_eq] at served
  exact ⟨_, _, middle, final, old, before, ready, after, found, ⟨new, stored, served, same⟩, blobs⟩

/-- Uploads and readers only. -/
def putsAndGets : Event → Bool
  | .spawn (.put _) | .spawn (.get _) | .exec .. | .crash _ => true
  | .spawn _ => false

/-- A slow upload is admitted, another one completes the share, a reader is served, and then the slow
upload writes its own blob and row over the delivered ones. -/
theorem ready_share_rewritten :
    ¬ ∀ (env : Env) (store : Store) (first second : List Event) (middle final : World),
      (system env).Run (fun _ event => putsAndGets event) (World.start store) first middle →
      middle.db.store.state = some .ready →
      (system env).Run (fun _ event => putsAndGets event) middle second final →
      (∀ index old, middle.db.store.chunks.lookup index = some old →
        ∃ new, final.db.store.chunks.lookup index = some new ∧ SameUpload old new) ∧
      final.db.store.blobs = middle.db.store.blobs := by
  intro claimed
  have replayed : ((system sampleEnv).replay (fun _ => putsAndGets) (World.start sampleKept)
      (.spawn (.put { samplePut with body := List.replicate 17 6 }) :: steps 0 6 2 ++ .spawn (.put samplePut) ::
        steps 1 6 7 ++ .spawn (.get sampleGet) :: steps 2 7 8)).any (fun middle =>
          middle.db.store.state = some .ready && (middle.db.store.chunks.lookup 0).any (·.servedAt = some 7) &&
            ((system sampleEnv).replay (fun _ => putsAndGets) middle (steps 0 8 2)).any fun final =>
              (final.db.store.chunks.lookup 0).any (·.servedAt = none)) = true := by decide +kernel
  obtain ⟨middle, before, passed⟩ := System.any_replay replayed
  simp only [Bool.and_eq_true, decide_eq_true_eq] at passed
  obtain ⟨⟨ready, served⟩, continued⟩ := passed
  obtain ⟨final, after, forgotten⟩ := System.any_replay continued
  obtain ⟨old, found, delivered⟩ := (Option.any_eq_true _ _).mp served
  obtain ⟨chunks, -⟩ := claimed sampleEnv sampleKept _ _ middle final before ready after
  obtain ⟨new, stored, same⟩ := chunks 0 old found
  rw [stored, Option.any_some, decide_eq_true_eq, same.servedAt 7 (of_decide_eq_true delivered)] at forgotten
  cases forgotten

end SlothBox.Proofs

import SlothBox.Database

/-! The reaper: one sweep over one share. The blobs go first and without a lock;
the rows follow in one transaction. -/

namespace SlothBox
open Library

/-- What a sweep counts its share as; `skipped` is `ErrShareGone`. -/
inductive SweepResult where
  | idle | processed | skipped | failed
  deriving DecidableEq, Repr

/-- `finalizeDestroy` begins at `lock`; `row` is what its locking read returned. -/
inductive SweepStep where
  | fetchReapable
  | fetchChunkKeys (id : String)
  | removeBlobs (id : String) (keys : List String) (chunkCount : Nat)
  | lock (id : String) (chunkCount : Nat)
  | deleteChunks (row : ShareRow) (reason : DestroyedReason) (chunkCount : Nat)
  | update (row : ShareRow) (reason : DestroyedReason) (chunkCount : Nat)
  | rereadDestroyedAt (row : ShareRow) (reason : DestroyedReason) (chunkCount : Nat)
  | append (event : AuditEvent)
  | commit
  | done (result : SweepResult)
  deriving DecidableEq, Repr

/-- The next blob to remove, or the transaction when none is left. -/
def SweepStep.remaining (id : String) (chunkCount : Nat) : List String → SweepStep
  | [] => .lock id chunkCount
  | keys => .removeBlobs id keys chunkCount

def reapEvent (row : ShareRow) (reason : DestroyedReason) (destroyedAt : Option Timestamp)
    (chunkCount : Nat) : AuditEvent where
  eventType := .shareDestroyed
  shareId := some row.id
  payload := .reaped row.id row.shortId reason row.fileHash destroyedAt chunkCount

def SweepStep.exec (db : Database) (clock : Timestamp) (outcome : Outcome) :
    SweepStep → Option (SweepStep × Effect)
  | .fetchReapable =>
    some (attemptRead outcome
      (match db.store.share with
        | none => .done .idle
        | some row => if db.store.reapable clock then .fetchChunkKeys row.id else .done .idle)
      fun _ => .done .failed)
  | .fetchChunkKeys id =>
    some (attemptRead outcome
      (.remaining id db.store.chunks.entries.length (db.store.chunks.entries.map (·.2.blobKey)))
      fun _ => .done .failed)
  | .removeBlobs id keys chunkCount =>
    some (match keys with
      | [] => (.lock id chunkCount, .skip)
      | key :: rest =>
        attempt outcome (.remaining id chunkCount rest, .removeBlob key) fun _ => .done .failed)
  -- SKIP LOCKED: a held lock is not waited for, and reads as a share that is gone
  | .lock id chunkCount =>
    some (match outcome with
      | .ok =>
        if db.tx.isSome then (.done .skipped, .skip)
        else match db.store.findById id with
          | none => (.done .skipped, .skip)
          | some row => (.deleteChunks row (classifyReason row clock) chunkCount, .begin clock)
      | _ => (.done .failed, .skip))
  | .deleteChunks row reason chunkCount =>
    some (attemptInside outcome (.update row reason chunkCount, .stage { dropChunks := true }) (.done .failed))
  | .update row reason chunkCount =>
    some (attemptInside outcome
      (.rereadDestroyedAt row reason chunkCount,
        match db.view.findById row.id with
        | none => .skip
        | some current => .stage { share := some (reapUpdate (db.tx.elim clock Transaction.now) reason current) })
      (.done .failed))
  | .rereadDestroyedAt row reason chunkCount =>
    some (attemptInside outcome
      (match db.view.findById row.id with
        | none => (.done .failed, .rollback)
        | some current => (.append (reapEvent row reason current.destroyedAt chunkCount), .skip))
      (.done .failed))
  | .append event =>
    some (attemptInside outcome (.commit, .stage { events := [event] }) (.done .failed))
  | .commit =>
    some (match outcome with
      | .ok => (.done .processed, .commit)
      | .lost => (.done .failed, .commit)
      | _ => (.done .failed, .rollback))
  | .done _ => none

end SlothBox

import SlothBox.Store

/-! Statement execution at READ COMMITTED. A statement reads the committed rows
and commits its own writes at once, except inside the one kind of transaction the
services open: it first takes the FOR UPDATE lock on the share row and keeps its
writes to itself until it commits. -/

namespace SlothBox
open Library

/-- An open transaction holds the lock on the share row. `now` is its `now()`,
fixed when it began. -/
structure Transaction where
  owner : Nat
  now : Timestamp
  writes : WriteSet

structure Database where
  store : Store
  tx : Option Transaction

/-- What the next statement of the lock holder sees: the committed rows of that
moment under its own uncommitted writes. -/
def Database.view (db : Database) : Store :=
  match db.tx with
  | none => db.store
  | some tx => tx.writes.apply db.store

/-- Effect of one statement or object-store call. -/
inductive Effect where
  | skip
  | auto (writes : WriteSet)
  | begin (now : Timestamp)
  | stage (writes : WriteSet)
  | commit
  | rollback
  | putBlob (key : String) (content : Bytes)
  | removeBlob (key : String)

def Database.apply (db : Database) (owner : Nat) : Effect → Database
  | .skip => db
  | .auto writes => { db with store := writes.apply db.store }
  | .begin now => { db with tx := some ⟨owner, now, {}⟩ }
  | .stage writes => { db with tx := db.tx.map fun tx => { tx with writes := tx.writes.merge writes } }
  | .commit => ⟨db.view, none⟩
  | .rollback => { db with tx := none }
  | .putBlob key content => { db with store := { db.store with blobs := db.store.blobs.insert key content } }
  | .removeBlob key => { db with store := { db.store with blobs := db.store.blobs.erase key } }

/-- The lock conflict of an upsert. A new row needs KEY SHARE on the share row
for its foreign key; an existing one only its own row lock. -/
def Database.blocksUpsert (db : Database) (index : Nat) : Bool :=
  match db.tx with
  | none => false
  | some tx => (db.store.chunks.lookup index).isNone || tx.writes.touches index

/-- The advisory lock of `append_audit_entry`, held from an append to its commit. -/
def Database.blocksAppend (db : Database) : Bool :=
  db.tx.any fun tx => !tx.writes.events.isEmpty

/-- How a call ends for its caller. `lost` took effect but reported an error. -/
inductive Outcome where
  | ok | failed | lost | aborted
  deriving DecidableEq, Repr

/-- A call that either goes through or leaves the handler on its error path. -/
def attempt {α : Type} (outcome : Outcome) (success : α × Effect) (failure : Outcome → α) : α × Effect :=
  match outcome with
  | .ok => success
  | .lost => (failure .lost, success.2)
  | .failed => (failure .failed, .skip)
  | .aborted => (failure .aborted, .skip)

/-- A call that only reads. -/
def attemptRead {α : Type} (outcome : Outcome) (success : α) (failure : Outcome → α) : α × Effect :=
  (if outcome = .ok then success else failure outcome, .skip)

/-- A statement inside a transaction: any error rolls the transaction back. -/
def attemptInside {α : Type} (outcome : Outcome) (success : α × Effect) (failure : α) : α × Effect :=
  match outcome with
  | .ok => success
  | _ => (failure, .rollback)

/-- What a client is told; `dropped` is a connection that ends without an answer. -/
inductive Reply where
  | http (status : Nat) (error : Option String)
  | dropped
  deriving DecidableEq, Repr

def Reply.unhandled : Outcome → Reply
  | .aborted => .dropped
  | _ => .http 500 none

/-- Both rate limiters fail open: only their own refusal stops a request. -/
def limited {α : Type} (outcome : Outcome) (stopped next : α) : α × Effect :=
  (if outcome = .failed then stopped else next, .skip)

def Reply.badRequest (error : String) : Reply := .http 400 (some error)

/-- A check that ends the request. -/
def refuseIf (condition : Prop) [Decidable condition] (reply : Reply) : Except Reply Unit :=
  if condition then .error reply else .ok ()

def Store.find (store : Store) (shortId : String) : Option ShareRow :=
  store.share.filter fun row => row.shortId = shortId

def Store.findById (store : Store) (id : String) : Option ShareRow :=
  store.share.filter fun row => row.id = id

/-- The parts of the environment the handlers compute with. -/
structure IngestOptions where
  maxChunkBytes : Nat := 10 * 1024 * 1024
  nonceBytes : Nat := 24
  aeadTagBytes : Nat := 16

structure Env where
  sha256 : Bytes → Bytes
  options : IngestOptions := {}
  /-- The message of the error that drizzle-orm throws for a query, its parameters and the message
  of what the driver has thrown. -/
  queryError (sql : String) (params : List String) (thrown : String) : String

end SlothBox

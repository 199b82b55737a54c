import Mathlib.Data.List.Sort
import SlothBox.AuditChain
import SlothBox.Library.Transition

/-! `append_audit_entry` under READ COMMITTED. Any number of transactions call it any
number of times; a scheduler interleaves the statements inside the calls. A second,
serial system says what the lock is for: one append at a time behind the last row. -/

namespace SlothBox
open Library

/-- The arguments of one call. -/
structure AppendCall where
  eventType : String
  shareId : Option String
  payload : Jsonb
  deriving DecidableEq

/-- Where a transaction stands inside `append_audit_entry`. -/
inductive AppendPhase where
  | idle
  | locking (call : AppendCall)
  | reading (call : AppendCall)
  | inserting (call : AppendCall) (vPrevHash : Bytes)
  | failed (error : SqlError)
  | closed
  deriving DecidableEq

structure AuditTransaction where
  /-- `now()` is the time at which the transaction began. -/
  now : TimestampTz
  phase : AppendPhase
  /-- Rows that only this transaction sees so far. -/
  rows : List AuditRow
  deriving DecidableEq

structure AuditDb where
  /-- Committed rows in the order in which they became visible. -/
  committed : List AuditRow
  /-- The sequence behind `seq`. It is not transactional. -/
  nextSeq : Nat
  /-- Who holds `pg_advisory_xact_lock(hashtext('slothbox.audit_chain'))`. -/
  lock : Option Nat
  transactions : List AuditTransaction
  deriving DecidableEq

inductive ChainEvent where
  | begin (now : TimestampTz)
  | call (id : Nat) (call : AppendCall)
  | lock (id : Nat)
  | read (id : Nat)
  | insert (id : Nat)
  | commit (id : Nat)
  | rollback (id : Nat)
  deriving DecidableEq

def AuditDb.put (db : AuditDb) (id : Nat) (tx : AuditTransaction) : AuditDb :=
  { db with transactions := db.transactions.set id tx }

/-- What a statement's fresh snapshot shows. -/
def AuditDb.visible (db : AuditDb) (tx : AuditTransaction) : List AuditRow := db.committed ++ tx.rows

/-- The end of a transaction: its rows are published or dropped, its lock is released. -/
def AuditDb.close (db : AuditDb) (id : Nat) (tx : AuditTransaction) (published : List AuditRow) : AuditDb where
  committed := db.committed ++ published
  nextSeq := db.nextSeq
  lock := if db.lock = some id then none else db.lock
  transactions := db.transactions.set id ⟨tx.now, .closed, []⟩

/-- `SELECT * FROM audit_chain ORDER BY seq`. -/
def AuditDb.chain (db : AuditDb) : List AuditRow :=
  db.committed.insertionSort fun first second => first.seq ≤ second.seq

section Append
variable (sha256 : Bytes → Bytes) (session : Session)

def AuditDb.step (db : AuditDb) : ChainEvent → Option AuditDb
  | .begin now => some { db with transactions := db.transactions ++ [⟨now, .idle, []⟩] }
  | .call id call => db.transactions[id]?.bind fun tx =>
    match tx.phase with
    | .idle => some (db.put id ⟨tx.now, .locking call, tx.rows⟩)
    | _ => none
  | .lock id => db.transactions[id]?.bind fun tx =>
    match tx.phase with
    | .locking call =>
      -- a transaction that already holds the lock gets it again
      if db.lock = none ∨ db.lock = some id then
        some { db.put id ⟨tx.now, .reading call, tx.rows⟩ with lock := some id }
      else none
    | _ => none
  | .read id => db.transactions[id]?.bind fun tx =>
    match tx.phase with
    | .reading call =>
      match latest (db.visible tx) with
      | none => some (db.put id ⟨tx.now, .failed .genesisMissing, tx.rows⟩)
      | some last => some (db.put id ⟨tx.now, .inserting call last.entryHash, tx.rows⟩)
    | _ => none
  | .insert id => db.transactions[id]?.bind fun tx =>
    match tx.phase with
    | .inserting call vPrevHash =>
      match buildRow sha256 session db.nextSeq tx.now call.eventType call.shareId call.payload vPrevHash with
      | .ok row => some { db.put id ⟨tx.now, .idle, tx.rows ++ [row]⟩ with nextSeq := db.nextSeq + 1 }
      -- the default of `seq` is evaluated before the row is checked
      | .error .eventTypeCheck =>
        some { db.put id ⟨tx.now, .failed .eventTypeCheck, tx.rows⟩ with nextSeq := db.nextSeq + 1 }
      | .error error => some (db.put id ⟨tx.now, .failed error, tx.rows⟩)
    | _ => none
  | .commit id => db.transactions[id]?.bind fun tx =>
    match tx.phase with
    | .idle => some (db.close id tx tx.rows)
    -- COMMIT of an aborted transaction rolls it back
    | .failed _ => some (db.close id tx [])
    | _ => none
  | .rollback id => db.transactions[id]?.bind fun tx =>
    match tx.phase with
    | .closed => none
    | _ => some (db.close id tx [])

def auditSystem : System AuditDb ChainEvent := ⟨fun db => db.step sha256 session⟩

/-- Calls from sessions with settings of their own: the one that draws number `n` prints
times as `sessions n` does. -/
def sessionSystem (sessions : Nat → Session) : System AuditDb ChainEvent :=
  ⟨fun db => db.step sha256 (sessions db.nextSeq)⟩

/-- The database after the migrations. -/
def AuditDb.start (now : TimestampTz) : AuditDb := ⟨[genesisRow sha256 now], 2, none, []⟩

/-! ### The serial chain -/

/-- One append with nobody else around. -/
def appendRow (now : TimestampTz) (rows : List AuditRow) (entry : Nat × AppendCall) : Option (List AuditRow) := do
  let last ← latest rows
  if last.seq < entry.1 then
    match buildRow sha256 session entry.1 now entry.2.eventType entry.2.shareId entry.2.payload last.entryHash with
    | .ok row => some (rows ++ [row])
    | .error _ => none
  else none

/-- Whole transactions, one after the other. -/
def serialChain (sessions : Nat → Session) : System (List AuditRow) (TimestampTz × List (Nat × AppendCall)) :=
  ⟨fun rows transaction =>
    transaction.2.foldlM (fun rows entry => appendRow sha256 (sessions entry.1) transaction.1 rows entry) rows⟩

end Append

end SlothBox

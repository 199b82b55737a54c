import SlothBox.AuditTransactions
import SlothBox.Proofs.AuditChain

/-! Concurrent appends are serial. The transaction that holds the advisory lock is
the only one with rows of its own, and what it sees is the committed table extended
by its own calls one after the other; a commit is therefore one step of the serial
chain, whatever the interleaving. -/

namespace SlothBox.Proofs
open Library HashChain

theorem latest_mem {rows : List AuditRow} {last : AuditRow} (found : latest rows = some last) : last ∈ rows := by
  induction rows with
  | nil => cases found
  | cons row rest ih =>
    rw [latest] at found
    split at found
    next => exact List.mem_cons.mpr (.inl (Option.some.inj found).symm)
    next other later =>
      split at found
      · exact List.mem_cons.mpr (.inl (Option.some.inj found).symm)
      · exact List.mem_cons_of_mem _ (ih (later.trans found))

/-- In the order of the numbers, the row with the highest one is the last. -/
theorem latest_sorted {rows : List AuditRow} (sorted : rows.Pairwise fun before after => before.seq < after.seq) :
    latest rows = rows.getLast? := by
  induction rows with
  | nil => rfl
  | cons row rest ih =>
    obtain ⟨first, others⟩ := List.pairwise_cons.mp sorted
    rw [latest, ih others, List.getLast?_cons]
    cases found : rest.getLast? with
    | none => rfl
    | some other =>
      have before := first other (List.mem_of_getLast? found)
      simp only [Option.getD_some, Option.some.injEq, ite_eq_right_iff]
      omega

section Append
variable {sha256 : Bytes → Bytes} {session : Session} {sessions : Nat → Session}

/-! ### The serial chain stays valid -/

/-- A chain of rows, each hashed in the session that appended it. -/
structure Valid (sha256 : Bytes → Bytes) (sessions : Nat → Session) (rows : List AuditRow) : Prop where
  sorted : rows.Pairwise fun before after => before.seq < after.seq
  positive : ∀ row ∈ rows, 1 ≤ row.seq
  hashed : ∀ row ∈ rows, 1 < row.seq → Hashed sha256 (sessions row.seq) row
  linked : Linked AuditRow.prevHash AuditRow.entryHash rows

/-- A session accepts the chain if and only if it recomputes every hash. -/
theorem Valid.accepted_iff {rows : List AuditRow} (valid : Valid sha256 sessions rows) :
    verifyAuditChain sha256 session rows = .ok none ↔ ∀ row ∈ rows, 1 < row.seq → Hashed sha256 session row :=
  (verify_accepts ⟨rows, valid.sorted, valid.positive⟩).trans (and_iff_left valid.linked)

theorem valid_genesis (now : TimestampTz) : Valid sha256 sessions [genesisRow sha256 now] where
  sorted := List.pairwise_singleton _ _
  positive := by simp [genesisRow]
  hashed := by simp [genesisRow]
  linked := List.isChain_singleton _

theorem buildRow_ok {seq : Nat} {now : TimestampTz} {eventType : String} {shareId : Option String} {payload : Jsonb}
    {prevHash : Bytes} {row : AuditRow}
    (built : buildRow sha256 session seq now eventType shareId payload prevHash = .ok row) :
    row.seq = seq ∧ row.prevHash = prevHash ∧ Hashed sha256 session row := by
  unfold buildRow at built
  split at built
  next => cases built
  next entryHash digested =>
    split at built
    next => cases built
    next parsed known =>
      cases built
      have name : parsed.name = eventType := by simpa using List.find?_some known
      exact ⟨rfl, rfl, by simpa only [Hashed, AuditRow.expected, name] using digested⟩

theorem appendRow_eq_some {now : TimestampTz} {rows after : List AuditRow} {entry : Nat × AppendCall} :
    appendRow sha256 session now rows entry = some after ↔
      ∃ last row, latest rows = some last ∧ last.seq < entry.1 ∧
        buildRow sha256 session entry.1 now entry.2.eventType entry.2.shareId entry.2.payload last.entryHash = .ok row ∧
        after = rows ++ [row] := by
  simp only [appendRow, Option.bind_eq_bind, Option.bind_eq_some_iff]
  refine exists_congr fun last => ?_
  split
  next later =>
    split
    next row built => simp [later, built, eq_comm]
    next error built => simp [built]
  next early => simp [early]

theorem Valid.append {now : TimestampTz} {rows after : List AuditRow} {entry : Nat × AppendCall}
    (valid : Valid sha256 sessions rows) (appended : appendRow sha256 (sessions entry.1) now rows entry = some after) :
    Valid sha256 sessions after := by
  obtain ⟨last, row, found, later, built, rfl⟩ := appendRow_eq_some.mp appended
  obtain ⟨number, names, hashed⟩ := buildRow_ok built
  have bound : ∀ before ∈ rows, before.seq < row.seq := by
    intro before inside
    rw [latest_sorted valid.sorted] at found
    obtain ⟨front, rfl⟩ := List.getLast?_eq_some_iff.mp found
    rcases List.mem_append.mp inside with earlier | final
    · have := (List.pairwise_append.mp valid.sorted).2.2 before earlier last List.mem_cons_self
      omega
    · cases List.mem_singleton.mp final
      omega
  refine ⟨List.pairwise_append.mpr ⟨valid.sorted, List.pairwise_singleton _ _, ?_⟩, ?_, ?_, ?_⟩
  · intro before inside other same
    cases List.mem_singleton.mp same
    exact bound before inside
  · intro other inside
    rcases List.mem_append.mp inside with old | new
    · exact valid.positive other old
    · cases List.mem_singleton.mp new
      omega
  · intro other inside
    rcases List.mem_append.mp inside with old | new
    · exact valid.hashed other old
    · cases List.mem_singleton.mp new
      exact fun _ => number ▸ hashed
  · refine valid.linked.concat fun before final => ?_
    rw [← latest_sorted valid.sorted, found] at final
    cases final
    exact names

theorem Valid.transaction {now : TimestampTz} {rows after : List AuditRow} {entries : List (Nat × AppendCall)}
    (valid : Valid sha256 sessions rows)
    (executed : (serialChain sha256 sessions).step rows (now, entries) = some after) :
    Valid sha256 sessions after := by
  induction entries generalizing rows with
  | nil =>
    cases executed
    exact valid
  | cons entry rest ih =>
    obtain ⟨middle, appended, remaining⟩ := Option.bind_eq_some_iff.mp executed
    exact ih (valid.append appended) remaining

/-- Appending never rewrites a row. -/
theorem serial_extends {now : TimestampTz} {rows after : List AuditRow} {entries : List (Nat × AppendCall)}
    (executed : (serialChain sha256 sessions).step rows (now, entries) = some after) : rows <+: after := by
  induction entries generalizing rows with
  | nil =>
    cases executed
    exact List.prefix_rfl
  | cons entry rest ih =>
    obtain ⟨middle, appended, remaining⟩ := Option.bind_eq_some_iff.mp executed
    obtain ⟨last, row, -, -, -, rfl⟩ := appendRow_eq_some.mp appended
    exact (List.prefix_append _ _).trans (ih remaining)

/-- One more call at the end of a transaction. -/
theorem serial_concat {now : TimestampTz} {rows middle after : List AuditRow} {entries : List (Nat × AppendCall)}
    {entry : Nat × AppendCall} (executed : (serialChain sha256 sessions).step rows (now, entries) = some middle)
    (appended : appendRow sha256 (sessions entry.1) now middle entry = some after) :
    (serialChain sha256 sessions).step rows (now, entries ++ [entry]) = some after := by
  simp only [serialChain] at executed ⊢
  simp [List.foldlM_append, executed, appended]

/-! ### What a transaction may hold -/

/-- Between the lock and the end of the call. -/
def insideCall : AppendPhase → Bool
  | .reading _ | .inserting _ _ => true
  | _ => false

structure Fits (sha256 : Bytes → Bytes) (sessions : Nat → Session) (db : AuditDb) (id : Nat) (tx : AuditTransaction) : Prop where
  outside : db.lock ≠ some id → tx.rows = [] ∧ insideCall tx.phase = false
  serial : ∃ entries, (serialChain sha256 sessions).step db.committed (tx.now, entries) = some (db.visible tx)
  fresh : ∀ row ∈ tx.rows, row.seq < db.nextSeq
  head : ∀ call vPrevHash, tx.phase = .inserting call vPrevHash →
    ∃ last, latest (db.visible tx) = some last ∧ vPrevHash = last.entryHash

structure Coherent (sha256 : Bytes → Bytes) (sessions : Nat → Session) (db : AuditDb) : Prop where
  fresh : ∀ row ∈ db.committed, row.seq < db.nextSeq
  fits : ∀ (id : Nat) tx, db.transactions[id]? = some tx → Fits sha256 sessions db id tx

/-- A transaction without the lock depends on nothing. -/
theorem fits_outside {db : AuditDb} {id : Nat} {tx : AuditTransaction} (empty : tx.rows = [])
    (outside : insideCall tx.phase = false) : Fits sha256 sessions db id tx where
  outside _ := ⟨empty, outside⟩
  serial := ⟨[], by simp [serialChain, AuditDb.visible, empty]⟩
  fresh row inside := by simp [empty] at inside
  head call vPrevHash phase := by simp [phase, insideCall] at outside

theorem Fits.frame {db after : AuditDb} {id : Nat} {tx : AuditTransaction} (fits : Fits sha256 sessions db id tx)
    (committed : after.committed = db.committed) (seq : db.nextSeq ≤ after.nextSeq)
    (lock : db.lock = some id → after.lock = some id) : Fits sha256 sessions after id tx where
  outside free := fits.outside fun held => free (lock held)
  serial := by simpa only [AuditDb.visible, committed] using fits.serial
  fresh row inside := Nat.lt_of_lt_of_le (fits.fresh row inside) seq
  head := by simpa only [AuditDb.visible, committed] using fits.head

/-- The transaction moves to another place of the call and keeps its rows. -/
theorem Fits.move {db after : AuditDb} {id : Nat} {tx : AuditTransaction} {phase : AppendPhase}
    (fits : Fits sha256 sessions db id tx) (committed : after.committed = db.committed)
    (seq : db.nextSeq ≤ after.nextSeq) (lock : db.lock = some id → after.lock = some id)
    (free : after.lock ≠ some id → insideCall phase = false)
    (head : ∀ call vPrevHash, phase = .inserting call vPrevHash →
      ∃ last, latest (db.visible tx) = some last ∧ vPrevHash = last.entryHash) :
    Fits sha256 sessions after id ⟨tx.now, phase, tx.rows⟩ where
  outside unlocked := ⟨(fits.outside fun held => unlocked (lock held)).1, free unlocked⟩
  serial := by simpa only [AuditDb.visible, committed] using fits.serial
  fresh row inside := Nat.lt_of_lt_of_le (fits.fresh row inside) seq
  head := by simpa only [AuditDb.visible, committed] using head

theorem Fits.locked {db : AuditDb} {id : Nat} {tx : AuditTransaction} (fits : Fits sha256 sessions db id tx)
    (inside : insideCall tx.phase = true) : db.lock = some id := by
  by_contra free
  rw [(fits.outside free).2] at inside
  cases inside

/-- The INSERT is one serial append behind what the transaction has seen. -/
theorem Fits.insert {db : AuditDb} {id : Nat} {tx : AuditTransaction} {call : AppendCall} {vPrevHash : Bytes}
    {row : AuditRow} (fits : Fits sha256 sessions db id tx) (fresh : ∀ row ∈ db.committed, row.seq < db.nextSeq)
    (phase : tx.phase = .inserting call vPrevHash)
    (built : buildRow sha256 (sessions db.nextSeq) db.nextSeq tx.now call.eventType call.shareId call.payload vPrevHash = .ok row)
    (held : db.lock = some id) :
    Fits sha256 sessions { db.put id ⟨tx.now, .idle, tx.rows ++ [row]⟩ with nextSeq := db.nextSeq + 1 } id
      ⟨tx.now, .idle, tx.rows ++ [row]⟩ where
  outside unlocked := absurd held unlocked
  serial := by
    obtain ⟨entries, executed⟩ := fits.serial
    obtain ⟨last, head, rfl⟩ := fits.head call vPrevHash phase
    have later : last.seq < db.nextSeq := by
      rcases List.mem_append.mp (latest_mem head) with old | own
      · exact fresh last old
      · exact fits.fresh last own
    refine ⟨entries ++ [(db.nextSeq, call)], serial_concat executed ?_⟩
    refine appendRow_eq_some.mpr ⟨last, row, head, later, built, ?_⟩
    exact (List.append_assoc _ _ _).symm
  fresh other inside := by
    rcases List.mem_append.mp inside with old | new
    · exact Nat.lt_succ_of_lt (fits.fresh other old)
    · cases List.mem_singleton.mp new
      rw [(buildRow_ok built).1]
      exact Nat.lt_succ_self _
  head := by simp

/-! ### One step -/

/-- What an event can do: start a transaction, move one that keeps its rows, add the
row of a finished call, or close one. -/
theorem audit_step_cases {db next : AuditDb} {event : ChainEvent}
    (taken : (sessionSystem sha256 sessions).step db event = some next) :
    (∃ now, next = { db with transactions := db.transactions ++ [⟨now, .idle, []⟩] }) ∨
    ∃ id tx, db.transactions[id]? = some tx ∧
      ((∃ phase seq, insideCall phase = false ∧ db.nextSeq ≤ seq ∧
          next = { db.put id ⟨tx.now, phase, tx.rows⟩ with nextSeq := seq }) ∨
        (∃ call, (db.lock = none ∨ db.lock = some id) ∧
          next = { db.put id ⟨tx.now, .reading call, tx.rows⟩ with lock := some id }) ∨
        (∃ call last, tx.phase = .reading call ∧ latest (db.visible tx) = some last ∧
          next = db.put id ⟨tx.now, .inserting call last.entryHash, tx.rows⟩) ∨
        (∃ call vPrevHash row, tx.phase = .inserting call vPrevHash ∧
          buildRow sha256 (sessions db.nextSeq) db.nextSeq tx.now call.eventType call.shareId call.payload vPrevHash = .ok row ∧
          next = { db.put id ⟨tx.now, .idle, tx.rows ++ [row]⟩ with nextSeq := db.nextSeq + 1 }) ∨
        next = db.close id tx tx.rows ∨ next = db.close id tx []) := by
  cases event with
  | begin now => exact .inl ⟨now, (Option.some.inj taken).symm⟩
  | call id call =>
    obtain ⟨tx, found, moved⟩ := Option.bind_eq_some_iff.mp taken
    refine .inr ⟨id, tx, found, .inl ?_⟩
    split at moved
    next => exact ⟨.locking call, db.nextSeq, rfl, Nat.le_refl _, (Option.some.inj moved).symm⟩
    next => cases moved
  | lock id =>
    obtain ⟨tx, found, moved⟩ := Option.bind_eq_some_iff.mp taken
    refine .inr ⟨id, tx, found, .inr (.inl ?_)⟩
    split at moved
    next call _ =>
      split at moved
      next free => exact ⟨call, free, (Option.some.inj moved).symm⟩
      next => cases moved
    next => cases moved
  | read id =>
    obtain ⟨tx, found, moved⟩ := Option.bind_eq_some_iff.mp taken
    refine .inr ⟨id, tx, found, ?_⟩
    split at moved
    next call phase =>
      split at moved
      next => exact .inl ⟨.failed .genesisMissing, db.nextSeq, rfl, Nat.le_refl _, (Option.some.inj moved).symm⟩
      next last head => exact .inr (.inr (.inl ⟨call, last, phase, head, (Option.some.inj moved).symm⟩))
    next => cases moved
  | insert id =>
    obtain ⟨tx, found, moved⟩ := Option.bind_eq_some_iff.mp taken
    refine .inr ⟨id, tx, found, ?_⟩
    split at moved
    next call vPrevHash phase =>
      split at moved
      next row built =>
        exact .inr (.inr (.inr (.inl ⟨call, vPrevHash, row, phase, built, (Option.some.inj moved).symm⟩)))
      next => exact .inl ⟨.failed .eventTypeCheck, db.nextSeq + 1, rfl, by omega, (Option.some.inj moved).symm⟩
      next error _ _ => exact .inl ⟨.failed error, db.nextSeq, rfl, Nat.le_refl _, (Option.some.inj moved).symm⟩
    next => cases moved
  | commit id =>
    obtain ⟨tx, found, moved⟩ := Option.bind_eq_some_iff.mp taken
    refine .inr ⟨id, tx, found, .inr (.inr (.inr (.inr ?_)))⟩
    split at moved
    next => exact .inl (Option.some.inj moved).symm
    next => exact .inr (Option.some.inj moved).symm
    next => cases moved
  | rollback id =>
    obtain ⟨tx, found, moved⟩ := Option.bind_eq_some_iff.mp taken
    refine .inr ⟨id, tx, found, .inr (.inr (.inr (.inr (.inr ?_))))⟩
    split at moved
    next => cases moved
    next => exact (Option.some.inj moved).symm

/-- One transaction is replaced; the others only have to be left alone. -/
theorem Coherent.replace {db after : AuditDb} {id : Nat} {tx moved : AuditTransaction}
    (found : db.transactions[id]? = some tx) (transactions : after.transactions = db.transactions.set id moved)
    (fresh : ∀ row ∈ after.committed, row.seq < after.nextSeq) (fits : Fits sha256 sessions after id moved)
    (others : ∀ (other : Nat) held, other ≠ id → db.transactions[other]? = some held →
      Fits sha256 sessions after other held) : Coherent sha256 sessions after where
  fresh := fresh
  fits other held running := by
    rw [transactions, List.getElem?_set] at running
    split at running
    next same =>
      subst same
      have inside : id < db.transactions.length := (List.getElem?_eq_some_iff.mp found).1
      rw [if_pos inside] at running
      cases running
      exact fits
    next different => exact others other held (Ne.symm different) running

/-- A transaction that moves without touching the committed rows. -/
theorem Coherent.move {db after : AuditDb} {id : Nat} {tx moved : AuditTransaction} (coherent : Coherent sha256 sessions db)
    (found : db.transactions[id]? = some tx) (transactions : after.transactions = db.transactions.set id moved)
    (committed : after.committed = db.committed) (seq : db.nextSeq ≤ after.nextSeq)
    (lock : ∀ other, other ≠ id → db.lock = some other → after.lock = some other)
    (fits : Fits sha256 sessions after id moved) : Coherent sha256 sessions after := by
  refine .replace found transactions (fun row inside => ?_) fits fun other held different running => ?_
  · exact Nat.lt_of_lt_of_le (coherent.fresh row (committed ▸ inside)) seq
  · exact (coherent.fits other held running).frame committed seq (lock other different)

theorem Coherent.close {db : AuditDb} {id : Nat} {tx : AuditTransaction} {published : List AuditRow}
    (coherent : Coherent sha256 sessions db) (found : db.transactions[id]? = some tx)
    (own : published = tx.rows ∨ published = []) : Coherent sha256 sessions (db.close id tx published) := by
  have fits := coherent.fits id tx found
  refine .replace found rfl ?_ (fits_outside rfl rfl) fun other held different running => ?_
  · intro row inside
    rcases List.mem_append.mp inside with old | new
    · exact coherent.fresh row old
    · rcases own with rfl | rfl
      · exact fits.fresh row new
      · cases new
  · have before := coherent.fits other held running
    by_cases holds : db.lock = some other
    · -- then this transaction has nothing to publish
      have elsewhere : db.lock ≠ some id := by
        rw [holds]
        exact fun same => different (Option.some.inj same)
      have nothing : published = [] := by
        rcases own with rfl | empty
        · exact (fits.outside elsewhere).1
        · exact empty
      refine before.frame (by simp [AuditDb.close, nothing]) (Nat.le_refl _) fun _ => ?_
      simp [AuditDb.close, holds, different]
    · obtain ⟨empty, outside⟩ := before.outside holds
      exact fits_outside empty outside

theorem coherent_step {db next : AuditDb} {event : ChainEvent} (coherent : Coherent sha256 sessions db)
    (taken : (sessionSystem sha256 sessions).step db event = some next) : Coherent sha256 sessions next := by
  rcases audit_step_cases taken with ⟨now, rfl⟩ | ⟨id, tx, found, moved⟩
  · refine ⟨coherent.fresh, fun id tx running => ?_⟩
    rcases getElem?_concat_cases running with old | ⟨-, rfl⟩
    · exact (coherent.fits id tx old).frame rfl (Nat.le_refl _) fun held => held
    · exact fits_outside rfl rfl
  · have fits := coherent.fits id tx found
    rcases moved with ⟨phase, seq, outside, later, rfl⟩ | ⟨call, free, rfl⟩ | ⟨call, last, phase, head, rfl⟩ |
      ⟨call, vPrevHash, row, phase, built, rfl⟩ | rfl | rfl
    · refine coherent.move found rfl rfl later (fun _ _ held => held) ?_
      refine fits.move rfl later (fun held => held) (fun _ => outside) fun call vPrevHash same => ?_
      simp [same, insideCall] at outside
    · refine coherent.move found rfl rfl (Nat.le_refl _) (fun other different held => ?_) ?_
      · rcases free with none | same
        · simp [none] at held
        · exact absurd (Option.some.inj (held.symm.trans same)) different
      · exact fits.move rfl (Nat.le_refl _) (fun _ => rfl) (fun unlocked => absurd rfl unlocked) (by simp)
    · have held := fits.locked (by rw [phase]; rfl)
      refine coherent.move found rfl rfl (Nat.le_refl _) (fun _ _ held => held) ?_
      refine fits.move rfl (Nat.le_refl _) (fun held => held) (fun unlocked => absurd held unlocked) ?_
      intro other vPrevHash same
      cases same
      exact ⟨last, head, rfl⟩
    · have held := fits.locked (by rw [phase]; rfl)
      refine coherent.move found rfl rfl (Nat.le_succ _) (fun _ _ held => held) ?_
      exact fits.insert coherent.fresh phase built held
    · exact coherent.close found (.inl rfl)
    · exact coherent.close found (.inr rfl)

/-! ### Runs -/

theorem coherent_start (now : TimestampTz) : Coherent sha256 sessions (AuditDb.start sha256 now) where
  fresh row inside := by
    cases List.mem_singleton.mp inside
    exact Nat.lt_succ_self 1
  fits id tx running := by simp [AuditDb.start] at running

/-- Only a commit is visible, and it is one serial transaction. -/
theorem committed_step {db next : AuditDb} {event : ChainEvent} (coherent : Coherent sha256 sessions db)
    (taken : (sessionSystem sha256 sessions).step db event = some next) :
    next.committed = db.committed ∨
      ∃ transaction, (serialChain sha256 sessions).step db.committed transaction = some next.committed := by
  rcases audit_step_cases taken with ⟨now, rfl⟩ | ⟨id, tx, found, moved⟩
  · exact .inl rfl
  · rcases moved with ⟨phase, seq, -, -, rfl⟩ | ⟨call, -, rfl⟩ | ⟨call, last, -, -, rfl⟩ |
      ⟨call, vPrevHash, row, -, -, rfl⟩ | rfl | rfl
    · exact .inl rfl
    · exact .inl rfl
    · exact .inl rfl
    · exact .inl rfl
    · obtain ⟨entries, executed⟩ := (coherent.fits id tx found).serial
      exact .inr ⟨(tx.now, entries), executed⟩
    · exact .inl (List.append_nil _)

/-- Concurrent appends refine the serial chain. -/
def serialization (sha256 : Bytes → Bytes) (sessions : Nat → Session) :
    Refinement (sessionSystem sha256 sessions) (serialChain sha256 sessions) (fun _ _ => True) where
  view := AuditDb.committed
  invariant := Coherent sha256 sessions
  preserved _ _ _ coherent _ taken := coherent_step coherent taken
  simulated _ _ _ coherent _ taken := committed_step coherent taken

theorem Valid.chain_eq {db : AuditDb} (valid : Valid sha256 sessions db.committed) : db.chain = db.committed :=
  (valid.sorted.imp fun less => Nat.le_of_lt less).insertionSort_eq

/-- The committed rows are in the order of their numbers, start with the genesis row and
form a chain. -/
theorem committed_valid {genesis : TimestampTz} {events : List ChainEvent} {db : AuditDb}
    (run : (sessionSystem sha256 sessions).Run (fun _ _ => True) (AuditDb.start sha256 genesis) events db) :
    db.chain = db.committed ∧ Valid sha256 sessions db.committed ∧ [genesisRow sha256 genesis] <+: db.committed := by
  obtain ⟨-, transactions, serial⟩ := (serialization sha256 sessions).reaches (coherent_start genesis) run
  have valid : Valid sha256 sessions db.committed :=
    serial.invariant (Valid sha256 sessions) (valid_genesis genesis)
      fun _ _ _ valid _ executed => valid.transaction executed
  have grown : [genesisRow sha256 genesis] <+: db.committed :=
    serial.invariant ([genesisRow sha256 genesis] <+: ·) List.prefix_rfl
      fun _ _ _ grown _ executed => grown.trans (serial_extends executed)
  exact ⟨valid.chain_eq, valid, grown⟩

/-- In every state of every interleaving the committed rows, taken by number, form one
chain from the genesis row on, and the verifier accepts it. -/
theorem appends_stay_linear {genesis : TimestampTz} {events : List ChainEvent} {db : AuditDb}
    (run : (auditSystem sha256 session).Run (fun _ _ => True) (AuditDb.start sha256 genesis) events db) :
    db.chain.Perm db.committed ∧ (db.chain.Pairwise fun before after => before.seq < after.seq) ∧
      [genesisRow sha256 genesis] <+: db.chain ∧
      (db.chain.IsChain fun before after => after.prevHash = before.entryHash) ∧
      verifyAuditChain sha256 session db.chain = .ok none := by
  have uniform : auditSystem sha256 session = sessionSystem sha256 fun _ => session := rfl
  rw [uniform] at run
  obtain ⟨order, valid, grown⟩ := committed_valid run
  rw [order]
  exact ⟨.refl _, valid.sorted, grown, valid.linked, valid.accepted_iff.mpr valid.hashed⟩

end Append

/-- Three transactions that overlap. The second one inserts first and is rolled back, so
its number is lost; the other two then append in turn. -/
def sampleSchedule : List ChainEvent :=
  let created : AppendCall := ⟨"share_created", some "8c1f0d6e", samplePayload⟩
  let destroyed : AppendCall := ⟨"share_destroyed", some "8c1f0d6e", samplePayload⟩
  [.begin 0, .begin 0, .begin 0, .call 0 created, .call 1 created, .lock 1, .call 2 destroyed, .read 1, .insert 1,
    .rollback 1, .lock 0, .read 0, .insert 0, .commit 0, .lock 2, .read 2, .insert 2, .commit 2]

theorem appends_stay_linear_overlapping :
    ∃ db, (auditSystem sampleSha256 sampleSession).Run (fun _ _ => True) (AuditDb.start sampleSha256 0)
        sampleSchedule db ∧
      db.chain.map AuditRow.seq = [1, 3, 4] ∧ verifyAuditChain sampleSha256 sampleSession db.chain = .ok none := by
  have replayed : ((auditSystem sampleSha256 sampleSession).replay (fun _ _ => true) (AuditDb.start sampleSha256 0)
      sampleSchedule).any (fun db => db.chain.map AuditRow.seq = [1, 3, 4]) = true := by
    decide +kernel
  obtain ⟨db, run, numbers⟩ := System.any_replay replayed
  have run := run.mono fun _ _ _ => trivial
  exact ⟨db, run, of_decide_eq_true numbers, (appends_stay_linear run).2.2.2.2⟩

end SlothBox.Proofs

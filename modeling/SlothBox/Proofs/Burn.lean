import SlothBox.Proofs.Statements

/-! Burn after read under concurrent readers. The lock on the share row makes
`mark_chunk_served` and `increment_download` one at a time; what one of them has
decided, the next one reads. -/

namespace SlothBox.Proofs
open Library

/-- Readers and `POST /downloaded` only. Outside `mark_chunk_served` a reader's call
may end in any way; database calls of the flip succeed, and increments come before
expiry. -/
def reads (row : ShareRow) (world : World) : Event → Bool
  | .spawn (.get _) | .spawn (.downloaded _) => true
  | .exec pid clock outcome =>
    match world.procs[pid]? with
    | some (.get _ (.mark ..)) => outcome = .ok
    | some (.get ..) => true
    | some (.downloaded _ .increment) => outcome = .ok && clock < row.expiresAt
    | some (.downloaded ..) => outcome = .ok
    | _ => false
  | _ => false

/-- The call of this event is a `mark_chunk_served` that returns `burn_fired`. -/
def markFires (world : World) : Event → Bool
  | .exec pid _ outcome =>
    match world.procs[pid]? with
    | some (.get _ (.mark _ (.commit result))) => outcome = .ok && result.burnFired
    | _ => false
  | _ => false

/-- The call of this event is an `increment_download` that returns a row. -/
def incrementFires (world : World) : Event → Bool
  | .exec pid clock outcome =>
    match world.procs[pid]? with
    | some (.downloaded request .increment) =>
      outcome = .ok && ((world.db.store.find request.shortId).bind (incrementDownload clock)).isSome
    | _ => false
  | _ => false

def Served (store : Store) (index : Nat) : Prop :=
  ∃ chunk, store.chunks.lookup index = some chunk ∧ chunk.servedAt.isSome

def Unserved (store : Store) (index : Nat) : Prop :=
  ∃ chunk, store.chunks.lookup index = some chunk ∧ chunk.servedAt = none

/-- Bytes of the chunk have left in the response of this handler. -/
def sends (index : Nat) : Proc → Bool
  | .get request (.body ..) | .get request (.mark ..) => request.chunkIndex.toNat == index
  | .get request (.done _ sent _) => sent && request.chunkIndex.toNat == index
  | _ => false

/-- The handler's call of `mark_chunk_served` has returned. -/
def called : Proc → Bool
  | .get _ (.done _ _ marked) => marked.isSome
  | _ => false

section Invariant
variable (row : ShareRow)

/-- Where `mark_chunk_served` stands. The holder of the lock knows the committed
row, and its write set is what its statements have written so far. -/
def MarkValid (db : Database) (pid index : Nat) : MarkStep → Prop
  | .lockShare => True
  | .stampChunk vShare => ∃ now, db.tx = some ⟨pid, now, {}⟩ ∧ db.store.share = some vShare
  | .countUnserved vShare => ∃ now chunk, db.tx = some ⟨pid, now, { chunk := some (index, chunk) }⟩ ∧
      chunk.servedAt.isSome ∧ db.store.share = some row ∧ vShare = row
  | .flip vShare => ∃ now chunk, db.tx = some ⟨pid, now, { chunk := some (index, chunk) }⟩ ∧
      chunk.servedAt.isSome ∧ db.store.share = some row ∧ vShare = row ∧ ∀ other, ¬Unserved db.view other
  | .append vShare => ∃ now chunk,
      db.tx = some ⟨pid, now, { share := some (burn now row), chunk := some (index, chunk) }⟩ ∧
      chunk.servedAt.isSome ∧ db.store.share = some row ∧ vShare = burn now row ∧ ∀ other, ¬Unserved db.view other
  | .commit ⟨true, _⟩ => ∃ now chunk,
      db.tx = some ⟨pid, now, { share := some (burn now row), chunk := some (index, chunk),
                                events := [burnEvent row.id (burn now row)] }⟩ ∧
      chunk.servedAt.isSome ∧ db.store.share = some row ∧ ∀ other, ¬Unserved db.view other
  | .commit ⟨false, _⟩ => ∃ now chunk, db.tx = some ⟨pid, now, { chunk := some (index, chunk) }⟩ ∧
      chunk.servedAt.isSome ∧ (db.store.share = some row → ∃ other, Unserved db.view other)

/-- Before the call returns its next statement is in order; afterwards the chunk is served. -/
def MarkLeaves (db : Database) (pid index : Nat) : MarkStep ⊕ Option MarkResult → Prop
  | .inl next => MarkValid row db pid index next
  | .inr marked => Served db.store index ∧ marked.isSome

def GetValid (db : Database) (pid : Nat) (request : GetRequest) : GetStep → Prop
  | .acquire | .readShare => True
  | .readChunk share | .stream share _ | .body share _ =>
    share.id = row.id ∧ request.chunkIndex.toNat < row.chunkCount
  | .mark share step => share.id = row.id ∧ request.chunkIndex.toNat < row.chunkCount ∧
      MarkValid row db pid request.chunkIndex.toNat step
  | .done _ sent marked => sent → Served db.store request.chunkIndex.toNat ∧ marked.isSome

def ProcValid (db : Database) (pid : Nat) : Proc → Prop
  | .get request step => GetValid row db pid request step
  | .downloaded .. => True
  | _ => False

structure Burning (world : World) : Prop where
  share : world.db.store.share = some row ∨ ∃ now, world.db.store.share = some (burn now row)
  rows : ∀ index, (world.db.store.chunks.lookup index).isSome ↔ index < row.chunkCount
  procs : ∀ pid proc, world.procs[pid]? = some proc → ProcValid row world.db pid proc
  waiting : world.db.store.share = some row → (∃ proc ∈ world.procs, called proc) →
    ∃ index, Unserved world.db.store index

end Invariant

/-! ### What a step leaves to the others -/

structure SameRows (before after : Database) : Prop where
  tx : after.tx = before.tx
  share : after.store.share = before.store.share
  chunks : after.store.chunks = before.store.chunks

theorem SameRows.view {before after : Database} (same : SameRows before after) :
    after.view.chunks = before.view.chunks := by
  unfold Database.view
  rw [same.tx]
  split
  · exact same.chunks
  · simp [WriteSet.apply, same.chunks]

variable {row : ShareRow}

theorem MarkValid.frame {before after : Database} {pid index : Nat} {step : MarkStep}
    (valid : MarkValid row before pid index step) (same : SameRows before after) :
    MarkValid row after pid index step := by
  have unserved : ∀ other, Unserved after.view other ↔ Unserved before.view other := by
    simp only [Unserved, same.view, implies_true]
  cases step with
  | lockShare => trivial
  | stampChunk vShare => simpa only [MarkValid, same.tx, same.share] using valid
  | countUnserved vShare => simpa only [MarkValid, same.tx, same.share] using valid
  | flip vShare => simpa only [MarkValid, same.tx, same.share, unserved] using valid
  | append vShare => simpa only [MarkValid, same.tx, same.share, unserved] using valid
  | commit result =>
    obtain ⟨fired, state⟩ := result
    cases fired <;> simpa only [MarkValid, same.tx, same.share, unserved] using valid

/-- Inside the function the caller holds the lock. -/
theorem MarkValid.holds {db : Database} {pid index : Nat} {step : MarkStep}
    (valid : MarkValid row db pid index step) (inside : step ≠ .lockShare) :
    ∃ tx, db.tx = some tx ∧ tx.owner = pid := by
  cases step with
  | lockShare => exact absurd rfl inside
  | stampChunk vShare => obtain ⟨now, held, -⟩ := valid; exact ⟨_, held, rfl⟩
  | countUnserved vShare => obtain ⟨now, chunk, held, -⟩ := valid; exact ⟨_, held, rfl⟩
  | flip vShare => obtain ⟨now, chunk, held, -⟩ := valid; exact ⟨_, held, rfl⟩
  | append vShare => obtain ⟨now, chunk, held, -⟩ := valid; exact ⟨_, held, rfl⟩
  | commit result =>
    obtain ⟨fired, state⟩ := result
    cases fired
    · obtain ⟨now, chunk, held, -⟩ := valid
      exact ⟨_, held, rfl⟩
    · obtain ⟨now, chunk, held, -⟩ := valid
      exact ⟨_, held, rfl⟩

/-- The row is kept, or it is the live one and gets burned. -/
def Kept (row : ShareRow) (before after : Store) : Prop :=
  after.share = before.share ∨ before.share = some row ∧ ∃ now, after.share = some (burn now row)

/-- A step of one handler, seen by the rest of the system. -/
structure Moves (row : ShareRow) (pid : Nat) (before after : Database) (finishes : Bool) : Prop where
  frame : SameRows before after ∨ ∀ tx, before.tx = some tx → tx.owner = pid
  share : Kept row before.store after.store
  rows : ∀ index, (after.store.chunks.lookup index).isSome ↔ (before.store.chunks.lookup index).isSome
  served : ∀ index, Served before.store index → Served after.store index
  waiting : after.store.chunks = before.store.chunks ∧ finishes = false ∨
    (after.store.share = some row → ∃ index, Unserved after.store index)

theorem ProcValid.frame {before after : Database} {pid other : Nat} {finishes : Bool} {proc : Proc}
    (valid : ProcValid row before other proc) (moves : Moves row pid before after finishes) (apart : other ≠ pid) :
    ProcValid row after other proc := by
  cases proc with
  | get request step =>
    cases step with
    | mark share step =>
      refine ⟨valid.1, valid.2.1, ?_⟩
      rcases moves.frame with same | owned
      · exact valid.2.2.frame same
      · by_cases inside : step = .lockShare
        · subst inside
          trivial
        · obtain ⟨tx, held, owner⟩ := valid.2.2.holds inside
          exact absurd (owner.symm.trans (owned tx held)) apart
    | done reply sent marked => exact fun left => ⟨moves.served _ (valid left).1, (valid left).2⟩
    | _ => exact valid
  | downloaded request step => trivial
  | _ => exact valid

theorem Moves.still {pid : Nat} {before after : Database} (same : SameRows before after) :
    Moves row pid before after false where
  frame := .inl same
  share := .inl same.share
  rows index := by rw [same.chunks]
  served index := by simp only [Served, same.chunks, imp_self]
  waiting := .inl ⟨same.chunks, rfl⟩

/-- A step of the lock holder that keeps its writes to itself. -/
theorem Moves.staged {pid : Nat} {before after : Database} (store : after.store = before.store)
    (owned : ∀ tx, before.tx = some tx → tx.owner = pid) : Moves row pid before after false where
  frame := .inr owned
  share := .inl (by rw [store])
  rows index := by rw [store]
  served index := by simp only [store, imp_self]
  waiting := .inl ⟨by rw [store], rfl⟩

theorem Moves.finished {pid : Nat} {before after : Database} (moves : Moves row pid before after true)
    (finishes : Bool) : Moves row pid before after finishes :=
  { moves with waiting := .inr (moves.waiting.resolve_left (by simp)) }

/-! ### mark_chunk_served -/

theorem countUnserved_eq_zero {store : Store} : store.countUnserved = 0 ↔ ∀ index, ¬Unserved store index := by
  unfold Store.countUnserved Unserved
  rw [List.countP_eq_zero]
  constructor
  · rintro none index ⟨chunk, found, unserved⟩
    exact none ⟨index, chunk⟩ (AList.mem_lookup_iff.mp found) (by simp [unserved])
  · intro none entry member unserved
    exact none entry.1 ⟨entry.2, AList.mem_lookup_iff.mpr member, by simpa using unserved⟩

theorem servedAt_stampServed (now : Timestamp) (chunk : ChunkRow) : (stampServed now chunk).servedAt.isSome := by
  unfold stampServed clearChunkDeliveryOnReplace
  cases served : chunk.servedAt <;> simp

theorem burn_ne (ready : row.state = .ready) (now : Timestamp) : burn now row ≠ row := by
  intro same
  have := congrArg ShareRow.state same
  simp [burn, ready] at this

section Statements
variable {env : Env} {db : Database} {pid : Nat} {clock : Timestamp}

/-- Committing the stamp of one chunk. -/
private theorem commit_moves {index : Nat} {now : Timestamp} {share : Option ShareRow} {chunk : ChunkRow}
    {events : List AuditEvent} (held : db.tx = some ⟨pid, now, { share, chunk := some (index, chunk), events }⟩)
    (stamped : chunk.servedAt.isSome) (present : (db.store.chunks.lookup index).isSome)
    (flips : share = none ∨ db.store.share = some row ∧ ∃ now, share = some (burn now row))
    (waiting : (share.or db.store.share) = some row → ∃ other, Unserved db.view other) :
    Moves row pid db (db.apply pid .commit) true ∧ Served (db.apply pid .commit).store index := by
  have view : db.view = { db.store with
      share := share.or db.store.share
      chunks := db.store.chunks.insert index chunk
      audit := db.store.audit ++ events } := by
    simp [Database.view, held, WriteSet.apply]
  have own : Served db.view index := by
    rw [view]
    exact ⟨chunk, AList.lookup_insert _, stamped⟩
  refine ⟨⟨.inr ?_, ?_, ?_, ?_, .inr ?_⟩, own⟩
  · rintro tx opened
    obtain rfl := Option.some.inj (held.symm.trans opened)
    rfl
  · simp only [Database.apply, view]
    rcases flips with rfl | ⟨ready, now, rfl⟩
    · exact .inl (by simp)
    · exact .inr ⟨ready, now, by simp⟩
  · intro other
    simp only [Database.apply, view, AList.lookup_isSome, AList.mem_insert]
    rw [AList.lookup_isSome] at present
    exact ⟨fun either => either.elim (fun same => same ▸ present) id, .inr⟩
  · rintro other ⟨old, found, served⟩
    by_cases same : other = index
    · exact same ▸ own
    · refine ⟨old, ?_, served⟩
      simp only [Database.apply, view]
      rw [AList.lookup_insert_ne same]
      exact found
  · intro ready
    refine waiting ?_
    simpa [Database.apply, view] using ready

theorem mark_moves (burns : row.burnAfterRead) (ready : row.state = .ready)
    (share : db.store.share = some row ∨ ∃ now, db.store.share = some (burn now row)) {index : Nat}
    (present : (db.store.chunks.lookup index).isSome) {step : MarkStep} (valid : MarkValid row db pid index step)
    {after : MarkStep ⊕ Option MarkResult} {effect : Effect}
    (executed : step.exec db row.id index clock .ok = some (after, effect)) :
    Moves row pid db (db.apply pid effect) after.isRight ∧ MarkLeaves row (db.apply pid effect) pid index after := by
  have owned : step ≠ .lockShare → ∀ tx, db.tx = some tx → tx.owner = pid := by
    intro inside tx opened
    obtain ⟨holder, held, owner⟩ := valid.holds inside
    exact Option.some.inj (held.symm.trans opened) ▸ owner
  cases mark_move executed with
  | lock free found =>
    refine ⟨.staged rfl fun tx opened => ?_, clock, rfl, (findById_eq_some.mp found).1⟩
    rw [free] at opened
    cases opened
  | leave absent =>
    have found : ∃ current, db.store.findById row.id = some current := by
      rcases share with same | ⟨now, same⟩
      · exact ⟨row, findById_eq_some.mpr ⟨same, rfl⟩⟩
      · exact ⟨_, findById_eq_some.mpr ⟨same, rfl⟩⟩
    obtain ⟨current, found⟩ := found
    exact absurd ((absent rfl).symm.trans found) (by simp)
  | absent absent =>
    obtain ⟨now, held, -⟩ := valid
    have viewed : db.view.chunks = db.store.chunks := by simp [Database.view, held, WriteSet.apply]
    rw [← viewed, absent] at present
    cases present
  | @stamp vShare chunk found _ live =>
    obtain ⟨now, held, locked⟩ := valid
    refine ⟨.staged rfl (owned (by simp)), now, stampServed now chunk, by simp [Database.apply, held, WriteSet.merge],
      servedAt_stampServed _ _, ?_⟩
    rcases share with same | ⟨burned, same⟩
    · exact ⟨same, Option.some.inj (locked.symm.trans same)⟩
    · obtain rfl := Option.some.inj (same.symm.trans locked)
      cases live
  | @stampOnly vShare chunk found kept =>
    obtain ⟨now, held, locked⟩ := valid
    refine ⟨.staged rfl (owned (by simp)), now, stampServed now chunk, by simp [Database.apply, held, WriteSet.merge],
      servedAt_stampServed _ _, fun live => ?_⟩
    obtain rfl := Option.some.inj (locked.symm.trans live)
    exact absurd ⟨burns, ready⟩ kept
  | allServed nothing =>
    obtain ⟨now, chunk, held, stamped, live, rfl⟩ := valid
    exact ⟨.still ⟨rfl, rfl, rfl⟩, now, chunk, held, stamped, live, rfl, countUnserved_eq_zero.mp nothing⟩
  | someUnserved left =>
    obtain ⟨now, chunk, held, stamped, live, rfl⟩ := valid
    rw [ne_eq, countUnserved_eq_zero] at left
    push Not at left
    exact ⟨.still ⟨rfl, rfl, rfl⟩, now, chunk, held, stamped, fun _ => left⟩
  | flip found _ =>
    obtain ⟨now, chunk, held, stamped, live, rfl, none⟩ := valid
    have viewed : db.view.share = db.store.share := by simp [Database.view, held, WriteSet.apply]
    obtain rfl := Option.some.inj ((viewed.trans live).symm.trans (findById_eq_some.mp found).1)
    refine ⟨.staged rfl (owned (by simp)), now, chunk, by simp [Database.apply, held, WriteSet.merge], stamped, live,
      by simp [held], ?_⟩
    simpa [Unserved, Database.apply, Database.view, held, WriteSet.merge, WriteSet.apply] using none
  | flipNothing ended =>
    obtain ⟨now, chunk, held, stamped, live, rfl, none⟩ := valid
    have viewed : db.view.share = db.store.share := by simp [Database.view, held, WriteSet.apply]
    exact absurd ready (ended _ (findById_eq_some.mpr ⟨viewed.trans live, rfl⟩))
  | append =>
    obtain ⟨now, chunk, held, stamped, live, rfl, none⟩ := valid
    refine ⟨.staged rfl (owned (by simp)), now, chunk, by simp [Database.apply, held, WriteSet.merge], stamped, live, ?_⟩
    simpa [Unserved, Database.apply, Database.view, held, WriteSet.merge, WriteSet.apply] using none
  | @commit result marked told =>
    obtain rfl := told rfl
    obtain ⟨fired, state⟩ := result
    cases fired with
    | true =>
      obtain ⟨now, chunk, held, stamped, live, none⟩ := valid
      have other : (some (burn now row)).or db.store.share ≠ some row := fun same =>
        burn_ne ready now (Option.some.inj same)
      obtain ⟨moves, served⟩ := commit_moves held stamped present (.inr ⟨live, now, rfl⟩) fun same => absurd same other
      exact ⟨moves, served, rfl⟩
    | false =>
      obtain ⟨now, chunk, held, stamped, waiting⟩ := valid
      obtain ⟨moves, served⟩ := commit_moves held stamped present (.inl rfl) waiting
      exact ⟨moves, served, rfl⟩
  | rollback _ bad => exact absurd rfl bad

/-! ### The handlers -/

theorem get_moves (burns : row.burnAfterRead) (ready : row.state = .ready)
    (share : db.store.share = some row ∨ ∃ now, db.store.share = some (burn now row))
    (rows : ∀ index, (db.store.chunks.lookup index).isSome ↔ index < row.chunkCount)
    {request : GetRequest} {step moved : GetStep} {outcome : Outcome} {effect : Effect}
    (valid : GetValid row db pid request step) (permitted : ∀ share inner, step = .mark share inner → outcome = .ok)
    (executed : step.exec env db request clock outcome = some (moved, effect)) :
    Moves row pid db (db.apply pid effect) (called (.get request moved)) ∧
      GetValid row (db.apply pid effect) pid request moved := by
  rcases get_cases executed with ⟨rfl, reply, rfl⟩ | ⟨rfl, rfl, rfl⟩ |
    ⟨current, rfl, rfl, found, -, -, natural, inside, rfl⟩ | ⟨current, chunk, rfl, rfl, -, -, rfl⟩ |
    ⟨current, chunk, rfl, rfl, rfl⟩ | ⟨current, chunk, rfl, rfl, rfl⟩ | ⟨current, inner, after, rfl, marked, rfl⟩
  · exact ⟨.still ⟨rfl, rfl, rfl⟩, nofun⟩
  · exact ⟨.still ⟨rfl, rfl, rfl⟩, trivial⟩
  · have same := (find_eq_some.mp found).1
    have kept : current.id = row.id ∧ current.chunkCount = row.chunkCount := by
      rcases share with live | ⟨now, burned⟩
      · obtain rfl := Option.some.inj (live.symm.trans same)
        exact ⟨rfl, rfl⟩
      · obtain rfl := Option.some.inj (burned.symm.trans same)
        exact ⟨rfl, rfl⟩
    exact ⟨.still ⟨rfl, rfl, rfl⟩, kept.1, by omega⟩
  · exact ⟨.still ⟨rfl, rfl, rfl⟩, valid⟩
  · exact ⟨.still ⟨rfl, rfl, rfl⟩, valid⟩
  · exact ⟨.still ⟨rfl, rfl, rfl⟩, valid.1, valid.2, trivial⟩
  · obtain rfl := permitted _ _ rfl
    obtain ⟨named, inside, held⟩ := valid
    rw [named] at marked
    obtain ⟨moves, leaves⟩ := mark_moves burns ready share ((rows _).mpr inside) held marked
    cases after with
    | inl next => exact ⟨moves, named, inside, leaves⟩
    | inr result => exact ⟨moves.finished _, fun _ => leaves⟩

/-- Before expiry the increment flips a live share, and afterwards it finds nothing. -/
theorem increment_fires (burns : row.burnAfterRead) (ready : row.state = .ready) (early : clock < row.expiresAt) :
    incrementDownload clock row = some (burn clock row) ∧
      ∀ now, incrementDownload clock (burn now row) = none := by
  constructor
  · simp [incrementDownload, burn, ready, early, burns]
  · intro now
    simp [incrementDownload, burn]

theorem downloaded_moves (burns : row.burnAfterRead) (ready : row.state = .ready)
    (share : db.store.share = some row ∨ ∃ now, db.store.share = some (burn now row))
    {request : DownloadedRequest} {step : DownloadedStep} {outcome : Outcome} {moved : Proc} {effect : Effect}
    (early : step = .increment → clock < row.expiresAt)
    (executed : (Proc.downloaded request step).exec env db clock outcome = some (moved, effect)) :
    Moves row pid db (db.apply pid effect) false := by
  cases exec_writes rfl executed with
  | skip => exact .still ⟨rfl, rfl, rfl⟩
  | increment free _ found counted =>
    have fires := increment_fires burns ready (early rfl)
    obtain ⟨same, -⟩ := find_eq_some.mp found
    rcases share with live | ⟨now, burned⟩
    · obtain rfl := Option.some.inj (live.symm.trans same)
      obtain rfl := Option.some.inj (fires.1.symm.trans counted)
      refine ⟨.inr fun tx opened => ?_, .inr ⟨live, clock, rfl⟩, fun _ => Iff.rfl, fun _ => id, .inl ⟨rfl, rfl⟩⟩
      rw [free] at opened
      cases opened
    · obtain rfl := Option.some.inj (burned.symm.trans same)
      rw [fires.2 now] at counted
      cases counted
  | append =>
    exact .still ⟨rfl, by simp [Database.apply, WriteSet.apply], by simp [Database.apply, WriteSet.apply]⟩

end Statements

/-! ### Runs -/

section Runs
variable {env : Env} {world next : World} {event : Event}

/-- A handler's step keeps the invariant as soon as it keeps the handler's own part of it. -/
theorem Burning.move (ready : row.state = .ready) (valid : Burning row world) {pid : Nat} {old moved : Proc} {db : Database}
    (running : world.procs[pid]? = some old) (moves : Moves row pid world.db db (called moved))
    (own : ProcValid row db pid moved) : Burning row ⟨db, world.procs.set pid moved⟩ where
  share := by
    rcases moves.share with same | ⟨-, burned⟩
    · rw [same]
      exact valid.share
    · exact .inr burned
  rows index := (moves.rows index).trans (valid.rows index)
  procs other proc member := by
    by_cases same : pid = other
    · subst same
      have inside := (List.getElem?_eq_some_iff.mp running).1
      rw [List.getElem?_set_self inside] at member
      exact Option.some.inj member ▸ own
    · rw [List.getElem?_set_ne same] at member
      exact (valid.procs other proc member).frame moves (Ne.symm same)
  waiting live finished := by
    rcases moves.waiting with ⟨chunks, silent⟩ | waiting
    · have before : world.db.store.share = some row := by
        rcases moves.share with same | ⟨-, now, burned⟩
        · exact same.symm.trans live
        · exact absurd (Option.some.inj (burned.symm.trans live)) (burn_ne ready now)
      obtain ⟨proc, member, done⟩ := finished
      rcases mem_set_cases member with rfl | member
      · rw [silent] at done
        cases done
      · obtain ⟨index, unserved⟩ := valid.waiting before ⟨proc, member, done⟩
        exact ⟨index, by simpa only [Unserved, chunks] using unserved⟩
    · exact waiting live

theorem burning_step (burns : row.burnAfterRead) (ready : row.state = .ready) (valid : Burning row world)
    (permitted : reads row world event) (taken : (system env).step world event = some next) :
    Burning row next ∧ Kept row world.db.store next.db.store := by
  rcases step_cases taken with ⟨request, rfl, rfl⟩ |
    ⟨pid, clock, outcome, proc, moved, effect, rfl, running, executed, rfl⟩ | ⟨pid, proc, rfl, running, rfl⟩
  · have started : ProcValid row world.db world.procs.length request.start ∧ called request.start = false := by
      cases request with
      | get request => exact ⟨trivial, rfl⟩
      | downloaded request => exact ⟨trivial, rfl⟩
      | _ => cases permitted
    refine ⟨{ valid with procs := ?_, waiting := ?_ }, .inl rfl⟩
    · intro pid proc member
      rcases getElem?_concat_cases member with old | ⟨rfl, rfl⟩
      · exact valid.procs pid proc old
      · exact started.1
    · rintro live ⟨proc, member, done⟩
      rcases List.mem_append.mp member with old | new
      · exact valid.waiting live ⟨proc, old, done⟩
      · rw [List.mem_singleton.mp new, started.2] at done
        cases done
  · have own := valid.procs pid proc running
    simp only [reads, running] at permitted
    cases proc with
    | get request step =>
      obtain ⟨after, stepped, rfl⟩ := handler_exec executed
      have inner : ∀ share inner, step = .mark share inner → outcome = .ok := by
        rintro share inner rfl
        simpa using permitted
      obtain ⟨moves, kept⟩ := get_moves burns ready valid.share valid.rows own inner stepped
      exact ⟨valid.move ready running moves kept, moves.share⟩
    | downloaded request step =>
      obtain ⟨after, stepped, rfl⟩ := handler_exec executed
      have early : step = .increment → clock < row.expiresAt := by
        rintro rfl
        rw [Bool.and_eq_true, decide_eq_true_eq, decide_eq_true_eq] at permitted
        exact permitted.2
      have moves : Moves row pid world.db (world.db.apply pid effect) false :=
        downloaded_moves burns ready valid.share early executed
      exact ⟨valid.move ready running moves trivial, moves.share⟩
    | _ => exact absurd own id
  · cases permitted

/-- The call of `mark_chunk_served` that fires is the COMMIT of a transaction with the
live row burned, nothing left unserved and one entry. -/
theorem markFires_commits (valid : Burning row world) (taken : (system env).step world event = some next)
    (fires : markFires world event) : ∃ pid index now chunk,
      world.db.tx = some ⟨pid, now, { share := some (burn now row), chunk := some (index, chunk),
                                      events := [burnEvent row.id (burn now row)] }⟩ ∧
      world.db.store.share = some row ∧ (∀ other, ¬Unserved world.db.view other) ∧
      next.db = world.db.apply pid .commit := by
  rcases step_cases taken with ⟨request, rfl, rfl⟩ |
    ⟨pid, clock, outcome, proc, moved, effect, rfl, running, executed, rfl⟩ | ⟨pid, proc, rfl, running, rfl⟩
  · cases fires
  · have own := valid.procs pid proc running
    simp only [markFires, running] at fires
    split at fires
    next request share result same =>
      obtain rfl := Option.some.inj same
      rw [Bool.and_eq_true, decide_eq_true_eq] at fires
      obtain ⟨rfl, fired⟩ := fires
      obtain ⟨burned, state⟩ := result
      obtain rfl : burned = true := fired
      obtain ⟨-, -, now, chunk, held, -, live, none⟩ := own
      obtain ⟨rfl, rfl⟩ := Prod.mk.inj (Option.some.inj executed)
      exact ⟨pid, _, now, chunk, held, live, none, rfl⟩
    next => cases fires
  · cases fires

/-- The increment that returns a row is the one that burns it. -/
theorem incrementFires_burns (burns : row.burnAfterRead) (ready : row.state = .ready) (valid : Burning row world)
    (permitted : reads row world event) (taken : (system env).step world event = some next)
    (fires : incrementFires world event) :
    world.db.store.share = some row ∧ ∃ now, next.db.store.share = some (burn now row) := by
  rcases step_cases taken with ⟨request, rfl, rfl⟩ |
    ⟨pid, clock, outcome, proc, moved, effect, rfl, running, executed, rfl⟩ | ⟨pid, proc, rfl, running, rfl⟩
  · cases fires
  · simp only [incrementFires, reads, running] at fires permitted
    split at fires
    next request same =>
      obtain rfl := Option.some.inj same
      simp only [Bool.and_eq_true, decide_eq_true_eq] at fires permitted
      obtain ⟨rfl, counted⟩ := fires
      obtain ⟨updated, incremented⟩ := Option.isSome_iff_exists.mp counted
      obtain ⟨current, found, counted⟩ := Option.bind_eq_some_iff.mp incremented
      have flips := increment_fires burns ready permitted.2
      rcases valid.share with live | ⟨now, burned⟩
      · obtain rfl := Option.some.inj (live.symm.trans (find_eq_some.mp found).1)
        obtain rfl := Option.some.inj (flips.1.symm.trans counted)
        refine ⟨live, clock, ?_⟩
        obtain ⟨after, stepped, rfl⟩ := handler_exec executed
        simp only [DownloadedStep.exec, attempt, incremented] at stepped
        split at stepped
        · cases stepped
        · obtain ⟨rfl, rfl⟩ := Prod.mk.inj (Option.some.inj stepped)
          simp [Database.apply, WriteSet.apply]
      · obtain rfl := Option.some.inj (burned.symm.trans (find_eq_some.mp found).1)
        rw [flips.2 now] at counted
        cases counted
    next => cases fires
  · cases fires

/-- A call that fires finds the live row and leaves the burned one. -/
theorem fires_flip (burns : row.burnAfterRead) (ready : row.state = .ready) (valid : Burning row world)
    (permitted : reads row world event) (taken : (system env).step world event = some next)
    (fires : markFires world event ∨ incrementFires world event) :
    world.db.store.share = some row ∧ ∃ now, next.db.store.share = some (burn now row) := by
  rcases fires with marks | increments
  · obtain ⟨pid, index, now, chunk, held, live, -, same⟩ := markFires_commits valid taken marks
    rw [same]
    exact ⟨live, now, by simp [Database.apply, Database.view, held, WriteSet.apply]⟩
  · exact incrementFires_burns burns ready valid permitted taken increments

/-- The call of `mark_chunk_served` that fires leaves no chunk unserved, and its
transaction appends its one entry. -/
theorem markFires_leaves (valid : Burning row world) (taken : (system env).step world event = some next)
    (fires : markFires world event) :
    (∀ index < row.chunkCount, Served next.db.store index) ∧
      ∃ now, next.db.store.audit = world.db.store.audit ++ [burnEvent row.id (burn now row)] := by
  obtain ⟨pid, marked, now, chunk, held, -, none, same⟩ := markFires_commits valid taken fires
  rw [same]
  refine ⟨fun index below => ?_, now, by simp [Database.apply, Database.view, held, WriteSet.apply]⟩
  have present : (world.db.view.chunks.lookup index).isSome := by
    have stored := (valid.rows index).mpr below
    rw [AList.lookup_isSome] at stored ⊢
    simp only [Database.view, held, WriteSet.apply, Bool.false_eq_true, ↓reduceIte]
    exact (AList.mem_insert _).mpr (.inr stored)
  obtain ⟨stamped, found⟩ := Option.isSome_iff_exists.mp present
  refine ⟨stamped, found, ?_⟩
  by_contra unserved
  exact none index ⟨stamped, found, by simpa using unserved⟩

end Runs

section Theorem
variable {env : Env} {store : Store}

theorem burning_start (live : store.share = some row)
    (rows : ∀ index, (store.chunks.lookup index).isSome ↔ index < row.chunkCount) :
    Burning row (World.start store) where
  share := .inl live
  rows := rows
  procs pid proc member := by simp [World.start] at member
  waiting _ finished := by simp [World.start] at finished

/-- Once burned, always burned. -/
theorem burned_run (burns : row.burnAfterRead) (ready : row.state = .ready) {start final : World} {events : List Event}
    (run : (system env).Run (fun world event => reads row world event = true) start events final)
    (valid : Burning row start) :
    Burning row final ∧ ((∃ now, start.db.store.share = some (burn now row)) →
      ∃ now, final.db.store.share = some (burn now row)) := by
  induction run with
  | nil => exact ⟨valid, id⟩
  | snoc before permitted taken ih =>
    obtain ⟨reached, kept⟩ := burning_step burns ready ih.1 permitted taken
    refine ⟨reached, fun burned => ?_⟩
    obtain ⟨now, burned⟩ := ih.2 burned
    rcases kept with same | ⟨live, -⟩
    · exact ⟨now, same.trans burned⟩
    · exact absurd (Option.some.inj (burned.symm.trans live)) (burn_ne ready now)

/-- Burn after read, for a `ready` share with a row for every chunk and any
interleaving of readers and of `POST /downloaded`. At most one call flips the share.
If that is a `mark_chunk_served`, no earlier call left every chunk served and this
one does, with one entry in the chain. Once bytes of every chunk have left and all
handlers are done, the share is destroyed. -/
theorem burn_fires_exactly_once (env : Env) (row : ShareRow) (store : Store) (live : store.share = some row)
    (burns : row.burnAfterRead) (ready : row.state = .ready) (positive : 0 < row.chunkCount)
    (rows : ∀ index, (store.chunks.lookup index).isSome ↔ index < row.chunkCount)
    {first : List Event} {world : World}
    (run : (system env).Run (fun world event => reads row world event = true) (World.start store) first world) :
    (∀ event next, reads row world event → (system env).step world event = some next →
      markFires world event ∨ incrementFires world event →
      world.db.store.state = some .ready ∧ next.db.store.state = some .destroyed ∧
      (∀ second later other,
        (system env).Run (fun world event => reads row world event = true) next second later →
        reads row later other → ((system env).step later other).isSome →
        ¬markFires later other ∧ ¬incrementFires later other) ∧
      (markFires world event →
        (∀ index < row.chunkCount, Served next.db.store index) ∧
        (∀ earlier before after,
          (system env).Run (fun world event => reads row world event = true) (World.start store) before earlier →
          (system env).Run (fun world event => reads row world event = true) earlier after world →
          (∃ proc ∈ earlier.procs, called proc) → ∃ index, Unserved earlier.db.store index) ∧
        ∃ entry, entry.eventType = .shareDestroyed ∧ next.db.store.audit = world.db.store.audit ++ [entry])) ∧
    (world.quiet → (∀ index < row.chunkCount, ∃ proc ∈ world.procs, sends index proc) →
      ∃ final, world.db.store.share = some final ∧ final.state = .destroyed ∧
        final.destroyedReason = some .burn ∧ final.destroyedAt.isSome) := by
  have valid := (burned_run burns ready run (burning_start live rows)).1
  constructor
  · intro event next permitted taken fires
    obtain ⟨before, flipped⟩ := fires_flip burns ready valid permitted taken fires
    refine ⟨by simp [Store.state, before, ready], ?_, ?_, ?_⟩
    · obtain ⟨now, burned⟩ := flipped
      simp [Store.state, burned, burn]
    · intro second later other after allowed enabled
      obtain ⟨reached, stays⟩ := burned_run burns ready after (burning_step burns ready valid permitted taken).1
      obtain ⟨now, burned⟩ := stays flipped
      obtain ⟨final, moved⟩ := Option.isSome_iff_exists.mp enabled
      have silent : ¬(markFires later other ∨ incrementFires later other) := fun again =>
        burn_ne ready now (Option.some.inj
          (burned.symm.trans (fires_flip burns ready reached allowed moved again).1))
      exact not_or.mp silent
    · intro marked
      obtain ⟨served, now, audited⟩ := markFires_leaves valid taken marked
      refine ⟨served, fun earlier _ _ start rest finished => ?_, _, rfl, audited⟩
      have known := (burned_run burns ready start (burning_start live rows)).1
      refine known.waiting ?_ finished
      rcases known.share with same | burned
      · exact same
      · obtain ⟨now, burned⟩ := (burned_run burns ready rest known).2 burned
        exact absurd (Option.some.inj (burned.symm.trans before)) (burn_ne ready now)
  · intro quiet sent
    -- a reader that is done has marked its chunk, so nothing is left unserved
    have delivered : ∀ index < row.chunkCount, Served world.db.store index ∧ ∃ proc ∈ world.procs, called proc := by
      intro index inside
      obtain ⟨proc, member, left⟩ := sent index inside
      have finished := List.all_eq_true.mp quiet proc member
      obtain ⟨pid, found⟩ := List.mem_iff_getElem?.mp member
      have own := valid.procs pid proc found
      cases proc with
      | get request step =>
        cases step with
        | done reply flag marked =>
          simp only [sends, Bool.and_eq_true, beq_iff_eq] at left
          obtain ⟨rfl, rfl⟩ := left
          exact ⟨(own rfl).1, _, member, (own rfl).2⟩
        | _ => cases finished
      | _ => cases left
    rcases valid.share with same | ⟨now, burned⟩
    · obtain ⟨index, chunk, found, unserved⟩ := valid.waiting same (delivered 0 positive).2
      have inside := (valid.rows index).mp (by rw [found]; rfl)
      obtain ⟨other, again, served⟩ := (delivered index inside).1
      obtain rfl := Option.some.inj (found.symm.trans again)
      rw [unserved] at served
      cases served
    · exact ⟨_, burned, rfl, rfl, rfl⟩

/-- Two readers of the one chunk and a `POST /downloaded` race for the flip. -/
theorem burn_fires_exactly_once_race : ∃ events world,
    (system sampleEnv).Run (fun world event => reads (sampleCreate.row 5) world event = true)
      (World.start sampleReady) events world ∧ world.quiet ∧
    ∃ final, world.db.store.share = some final ∧ final.state = .destroyed ∧
      final.destroyedReason = some .burn ∧ final.destroyedAt.isSome := by
  have replayed : ((system sampleEnv).replay (reads (sampleCreate.row 5)) (World.start sampleReady)
      (.spawn (.get sampleGet) :: .spawn (.get sampleGet) :: .spawn (.downloaded ⟨"abcdefghjkmn"⟩) ::
        steps 0 7 5 ++ steps 1 7 5 ++ steps 2 8 2 ++ steps 0 9 6 ++ steps 1 9 3 ++ steps 2 10 1)).any
      (fun world => world.quiet && world.procs.any (sends 0)) = true := by decide +kernel
  obtain ⟨world, run, passed⟩ := System.any_replay replayed
  obtain ⟨quiet, sent⟩ := Bool.and_eq_true_iff.mp passed
  have rows : ∀ index, (sampleReady.chunks.lookup index).isSome ↔ index < 1 := by
    intro index
    rw [AList.lookup_isSome, AList.mem_keys, sampleReady, AList.keys_singleton, List.mem_singleton]
    omega
  have outcome := burn_fires_exactly_once sampleEnv { sampleCreate.row 5 with state := .ready } sampleReady rfl rfl
    rfl (by decide) rows run
  refine ⟨_, world, run, quiet, outcome.2 quiet fun index inside => ?_⟩
  obtain rfl : index = 0 := by
    have : index < 1 := inside
    omega
  obtain ⟨proc, member, left⟩ := List.any_eq_true.mp sent
  exact ⟨proc, member, left⟩

end Theorem

end SlothBox.Proofs

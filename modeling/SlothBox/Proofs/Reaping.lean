import SlothBox.Proofs.Locking

/-! Sweeps over one share with nobody else about. Blobs go before rows, whoever removes
them, and the instances get in each other's way only where one takes the lock after
another has finished. -/

namespace SlothBox.Proofs
open Library

variable {env : Env} {world next : World} {event : Event}

/-! ### Sweeps alone -/

/-- Only sweeps are started. -/
def sweeps : Event → Bool
  | .spawn request => request = .sweep
  | _ => true

def isSweep : Proc → Bool
  | .sweep _ | .crashed => true
  | _ => false

/-- The keys a sweep has still to remove before it asks for the lock. -/
def keysLeft : SweepStep → Option (List String)
  | .fetchReapable | .fetchChunkKeys _ | .done _ => none
  | .removeBlobs _ keys _ => some keys
  | _ => some []

theorem keysLeft_remaining (id : String) (chunkCount : Nat) (keys : List String) :
    keysLeft (.remaining id chunkCount keys) = some keys := by
  cases keys <;> rfl

theorem remaining_ne_done (id : String) (chunkCount : Nat) (keys : List String) (result : SweepResult) :
    SweepStep.remaining id chunkCount keys ≠ .done result := by
  cases keys <;> nofun

/-- Of the blobs that the rows named, a sweep has removed those it has not still to remove. -/
def Cleared (store : Store) (blobs : AList fun _ : String => Bytes) (step : SweepStep) : Prop :=
  ∀ keys, keysLeft step = some keys → ∀ entry ∈ store.chunks.entries,
    entry.2.blobKey ∈ keys ∨ blobs.lookup entry.2.blobKey = none

/-- No row names a blob that is still there. -/
def Gone (store : Store) (blobs : AList fun _ : String => Bytes) : Prop :=
  ∀ entry ∈ store.chunks.entries, blobs.lookup entry.2.blobKey = none

/-- The three tables are as they were. -/
def Untouched (before after : Store) : Prop :=
  after.share = before.share ∧ after.chunks = before.chunks ∧ after.audit = before.audit

theorem lookup_erase_none {blobs : AList fun _ : String => Bytes} {key removed : String}
    (absent : blobs.lookup key = none) : (blobs.erase removed).lookup key = none := by
  by_cases same : key = removed
  · rw [same, AList.lookup_erase]
  · rw [AList.lookup_erase_ne same, absent]

/-- Blobs do not come back. -/
def Shrinks (before after : AList fun _ : String => Bytes) : Prop :=
  ∀ key, before.lookup key = none → after.lookup key = none

theorem Cleared.shrink {store : Store} {before after : AList fun _ : String => Bytes} {step : SweepStep}
    (cleared : Cleared store before step) (shrinks : Shrinks before after) : Cleared store after step :=
  fun keys left entry member => (cleared keys left entry member).imp_right (shrinks _)

theorem Gone.shrink {store : Store} {before after : AList fun _ : String => Bytes} (gone : Gone store before)
    (shrinks : Shrinks before after) : Gone store after :=
  fun entry member => shrinks _ (gone entry member)

/-- The number of chunks that an entry of the reaper records. -/
def recorded (event : AuditEvent) : Option Nat :=
  match event.payload with
  | .reaped _ _ _ _ _ chunkCount => some chunkCount
  | _ => none

/-- The sweep has counted so many chunks. -/
def Tallies (count : Nat) : SweepStep → Prop
  | .removeBlobs _ _ chunkCount | .lock _ chunkCount | .deleteChunks _ _ chunkCount | .update _ _ chunkCount
  | .rereadDestroyedAt _ _ chunkCount => chunkCount = count
  | .append event => recorded event = some count
  | _ => True

def processed : Proc → Bool
  | .sweep (.done .processed) => true
  | _ => false

/-- What a step can be while only sweeps are started. -/
theorem sweep_step_cases (reapers : ∀ proc ∈ world.procs, isSweep proc) (permitted : sweeps event)
    (taken : (system env).step world event = some next) :
    (event = .spawn .sweep ∧ next = { world with procs := world.procs ++ [.sweep .fetchReapable] }) ∨
    (∃ pid clock outcome step moved effect, event = .exec pid clock outcome ∧
      world.procs[pid]? = some (.sweep step) ∧ SweepMove world.db clock outcome step moved effect ∧
      next = ⟨world.db.apply pid effect, world.procs.set pid (.sweep moved)⟩) ∨
    (∃ pid proc, event = .crash pid ∧ world.procs[pid]? = some proc ∧
      next = ⟨world.db.disconnect pid, world.procs.set pid .crashed⟩) := by
  rcases step_cases taken with ⟨request, rfl, rfl⟩ |
    ⟨pid, clock, outcome, proc, moved, effect, rfl, running, executed, rfl⟩ | ⟨pid, proc, rfl, running, rfl⟩
  · obtain rfl : request = .sweep := by simpa [sweeps] using permitted
    exact .inl ⟨rfl, rfl⟩
  · have kind := reapers proc (List.mem_of_getElem? running)
    cases proc with
    | sweep step =>
      obtain ⟨after, call, rfl⟩ := handler_exec executed
      exact .inr (.inl ⟨pid, clock, outcome, step, after, effect, rfl, running, sweep_move call, rfl⟩)
    | crashed => cases executed
    | _ => cases kind
  · exact .inr (.inr ⟨pid, proc, rfl, running, rfl⟩)

theorem step_isSweep (reapers : ∀ proc ∈ world.procs, isSweep proc) (permitted : sweeps event)
    (taken : (system env).step world event = some next) : ∀ proc ∈ next.procs, isSweep proc := by
  intro proc member
  rcases sweep_step_cases reapers permitted taken with ⟨-, rfl⟩ | ⟨pid, _, _, _, _, _, -, -, -, rfl⟩ | ⟨pid, _, -, -, rfl⟩
  · rcases List.mem_append.mp member with old | new
    · exact reapers proc old
    · cases List.mem_singleton.mp new
      rfl
  · rcases mem_set_cases member with rfl | old
    · rfl
    · exact reapers proc old
  · rcases mem_set_cases member with rfl | old
    · rfl
    · exact reapers proc old

section Move
variable {db : Database} {pid : Nat} {clock : Timestamp} {outcome : Outcome} {step moved : SweepStep} {effect : Effect}

theorem view_blobs (db : Database) : db.view.blobs = db.store.blobs := by
  unfold Database.view
  split <;> rfl

theorem sweep_shrinks (move : SweepMove db clock outcome step moved effect) :
    Shrinks db.store.blobs (db.apply pid effect).store.blobs := by
  intro key absent
  cases move with
  | removeBlob => exact lookup_erase_none absent
  | removeLost => exact lookup_erase_none absent
  | commit => exact (congrArg (AList.lookup key) (view_blobs db)).trans absent
  | commitLost => exact (congrArg (AList.lookup key) (view_blobs db)).trans absent
  | _ => exact absent

/-- A sweep removes what the rows named before it asks for the lock. -/
theorem sweep_clears {store : Store} (cleared : Cleared store db.store.blobs step)
    (named : ∀ entry ∈ store.chunks.entries, entry.2.blobKey ∈ db.store.chunks.entries.map (·.2.blobKey) ∨
      db.store.blobs.lookup entry.2.blobKey = none)
    (move : SweepMove db clock outcome step moved effect) :
    Cleared store (db.apply pid effect).store.blobs moved := by
  have shrinks := @sweep_shrinks db pid _ _ _ _ _ move
  intro keys left entry member
  cases move with
  | fetchChunkKeys =>
    rw [keysLeft_remaining] at left
    cases left
    exact named entry member
  | @removeBlob id key rest chunkCount =>
    rw [keysLeft_remaining] at left
    cases left
    rcases cleared _ rfl entry member with waits | absent
    · rcases List.mem_cons.mp waits with same | later
      · exact .inr (by rw [same]; exact AList.lookup_erase _ _)
      · exact .inl later
    · exact .inr (shrinks _ absent)
  | removed => exact cleared _ left entry member
  | lock => exact cleared _ left entry member
  | deleteChunks => exact cleared _ left entry member
  | update => exact cleared _ left entry member
  | updateNothing => exact cleared _ left entry member
  | rereadDestroyedAt => exact cleared _ left entry member
  | append => exact cleared _ left entry member
  | _ => cases left

/-- Only the COMMIT of the reaper writes to the tables, and only it counts as processed. -/
theorem sweep_untouched (move : SweepMove db clock outcome step moved effect) :
    (step = .commit ∧ effect = .commit ∧ takesEffect outcome) ∨
    (Untouched db.store (db.apply pid effect).store ∧ moved ≠ .done .processed) := by
  cases move with
  | commit ok => exact .inl ⟨rfl, rfl, by rw [ok]; rfl⟩
  | commitLost lost => exact .inl ⟨rfl, rfl, by rw [lost]; rfl⟩
  | fetchChunkKeys => exact .inr ⟨⟨rfl, rfl, rfl⟩, remaining_ne_done _ _ _ _⟩
  | removeBlob => exact .inr ⟨⟨rfl, rfl, rfl⟩, remaining_ne_done _ _ _ _⟩
  | _ => exact .inr ⟨⟨rfl, rfl, rfl⟩, nofun⟩

theorem sweep_tallies {count : Nat} (tallies : Tallies count step) (counted : db.store.chunks.entries.length = count)
    (move : SweepMove db clock outcome step moved effect) : Tallies count moved := by
  have remaining : ∀ id keys, Tallies count (.remaining id count keys) := by
    intro id keys
    cases keys <;> rfl
  cases move with
  | fetchChunkKeys =>
    rw [counted]
    exact remaining _ _
  | removeBlob =>
    cases tallies
    exact remaining _ _
  | removed => exact tallies
  | lock => exact tallies
  | deleteChunks => exact tallies
  | update => exact tallies
  | updateNothing => exact tallies
  | rereadDestroyedAt =>
    cases tallies
    rfl
  | _ => trivial

/-- The entries that an open transaction has appended record the count. -/
def Staged (count : Nat) (tx : Option Transaction) : Prop :=
  ∀ held, tx = some held → ∀ event ∈ held.writes.events, recorded event = some count

theorem sweep_staged {count : Nat} (tallies : Tallies count step) (staged : Staged count db.tx)
    (move : SweepMove db clock outcome step moved effect) : Staged count (db.apply pid effect).tx := by
  have stage : ∀ writes : WriteSet, (∀ event ∈ writes.events, recorded event = some count) →
      Staged count (db.apply pid (.stage writes)).tx := by
    intro writes more held opened event member
    obtain ⟨before, open', rfl⟩ := Option.map_eq_some_iff.mp opened
    rcases List.mem_append.mp member with old | new
    · exact staged before open' event old
    · exact more event new
  cases move with
  | lock =>
    intro held opened event member
    cases opened
    cases member
  | deleteChunks => exact stage _ fun _ member => by cases member
  | update => exact stage _ fun _ member => by cases member
  | append =>
    refine stage _ fun event member => ?_
    cases List.mem_singleton.mp member
    exact tallies
  | commit => exact fun _ opened => by cases opened
  | commitLost => exact fun _ opened => by cases opened
  | rollback => exact fun _ opened => by cases opened
  | _ => exact staged

end Move

/-! ### Several instances -/

/-- An instance takes the lock although another has destroyed the share and deleted its chunks. -/
def relocks (world : World) : Event → Bool
  | .exec pid _ outcome =>
    match world.procs[pid]? with
    | some (.sweep (.lock ..)) =>
      outcome = .ok && world.db.tx.isNone && world.db.store.chunks.entries.isEmpty &&
        world.db.store.share.any fun row => row.state = .destroyed
    | _ => false
  | _ => false

/-- No instance has committed. -/
structure Waiting (store : Store) (world : World) : Prop where
  untouched : Untouched store world.db.store
  tallies : ∀ step, .sweep step ∈ world.procs → Tallies store.chunks.entries.length step
  staged : Staged store.chunks.entries.length world.db.tx
  unprocessed : world.procs.countP processed = 0

/-- One instance has committed. -/
structure Reaped (store : Store) (row : ShareRow) (world : World) : Prop where
  recorded : ∃ now, world.db.store.share = some (reapUpdate now (classifyReason row now) row) ∧
    world.db.store.audit = store.audit ++
      [reapEvent row (classifyReason row now) (row.destroyedAt.or (some now)) store.chunks.entries.length]
  chunks : world.db.store.chunks = ∅
  gone : Gone store world.db.store.blobs
  free : world.db.tx = none
  once : world.procs.countP processed ≤ 1

structure Sweeping (store : Store) (row : ShareRow) (world : World) : Prop where
  locked : Locked world
  reapers : ∀ proc ∈ world.procs, isSweep proc
  cleared : ∀ step, .sweep step ∈ world.procs → Cleared store world.db.store.blobs step
  rows : Waiting store world ∨ Reaped store row world

variable {store : Store} {row : ShareRow}

/-- Whatever the rows name now, what they named at the start is named or gone. -/
theorem Sweeping.named (sweeping : Sweeping store row world) : ∀ entry ∈ store.chunks.entries,
    entry.2.blobKey ∈ world.db.store.chunks.entries.map (·.2.blobKey) ∨
      world.db.store.blobs.lookup entry.2.blobKey = none := by
  intro entry member
  rcases sweeping.rows with waiting | reaped
  · refine .inl (List.mem_map.mpr ⟨entry, ?_, rfl⟩)
    rw [waiting.untouched.2.1]
    exact member
  · exact .inr (reaped.gone entry member)

theorem disconnect_store (db : Database) (pid : Nat) : (db.disconnect pid).store = db.store := by
  unfold Database.disconnect
  split <;> rfl

theorem disconnect_tx (db : Database) (pid : Nat) : (db.disconnect pid).tx = none ∨ (db.disconnect pid).tx = db.tx := by
  unfold Database.disconnect
  split
  · exact .inl rfl
  · exact .inr rfl

theorem step_cleared (sweeping : Sweeping store row world) (permitted : sweeps event)
    (taken : (system env).step world event = some next) :
    ∀ step, .sweep step ∈ next.procs → Cleared store next.db.store.blobs step := by
  intro other member
  rcases sweep_step_cases sweeping.reapers permitted taken with ⟨-, rfl⟩ |
    ⟨pid, clock, outcome, step, moved, effect, rfl, running, move, rfl⟩ | ⟨pid, proc, rfl, running, rfl⟩
  · rcases List.mem_append.mp member with old | new
    · exact sweeping.cleared other old
    · cases List.mem_singleton.mp new
      exact nofun
  · rcases mem_set_cases member with same | old
    · cases same
      exact sweep_clears (sweeping.cleared step (List.mem_of_getElem? running)) sweeping.named move
    · exact (sweeping.cleared other old).shrink (sweep_shrinks move)
  · rw [disconnect_store]
    rcases mem_set_cases member with same | old
    · cases same
    · exact sweeping.cleared other old

theorem Untouched.trans {first second third : Store} (before : Untouched first second)
    (after : Untouched second third) : Untouched first third :=
  ⟨after.1.trans before.1, after.2.1.trans before.2.1, after.2.2.trans before.2.2⟩

theorem processed_set {pid : Nat} {proc moved : Proc} (running : world.procs[pid]? = some proc)
    (unfinished : processed moved = false) :
    (world.procs.set pid moved).countP processed ≤ world.procs.countP processed := by
  have counted := countP_set_add processed moved running
  rw [unfinished] at counted
  exact Nat.le_trans (Nat.le_add_right _ _) (Nat.le_of_eq counted)

theorem processed_eq_false {step : SweepStep} (other : step ≠ .done .processed) : processed (.sweep step) = false := by
  unfold processed
  split
  next same =>
    cases same
    exact absurd rfl other
  next => rfl

/-- The first instance to commit. -/
theorem commit_reaped {pid : Nat} {moved : SweepStep} (sweeping : Sweeping store row world)
    (waiting : Waiting store world) (share : store.share = some row)
    (running : world.procs[pid]? = some (.sweep .commit)) :
    Reaped store row ⟨world.db.apply pid .commit, world.procs.set pid (.sweep moved)⟩ := by
  obtain ⟨unmoved, -, audit⟩ := waiting.untouched
  obtain ⟨now, writes, opened, holds⟩ := sweeping.locked.held pid _ running rfl
  cases holds with
  | @reaped current chunkCount locked =>
    obtain rfl : row = current := Option.some.inj (share.symm.trans (unmoved.symm.trans locked))
    obtain rfl : chunkCount = store.chunks.entries.length :=
      Option.some.inj (waiting.staged _ opened _ List.mem_cons_self)
    have gone : Gone store world.db.store.blobs := fun entry member =>
      (sweeping.cleared .commit (List.mem_of_getElem? running) [] rfl entry member).resolve_left List.not_mem_nil
    have counted := countP_set_add processed (.sweep moved) running
    rw [waiting.unprocessed, Nat.zero_add] at counted
    rw [Database.apply, Database.view, opened]
    refine ⟨⟨now, rfl, ?_⟩, rfl, gone, rfl, ?_⟩
    · rw [← audit]
      rfl
    · exact Nat.le_trans (Nat.le_of_eq counted) (Bool.toNat_le _)

/-- As long as nobody has committed, a step only brings an instance closer to it. -/
theorem step_waiting (sweeping : Sweeping store row world) (waiting : Waiting store world)
    (share : store.share = some row) (permitted : sweeps event) (taken : (system env).step world event = some next) :
    Waiting store next ∨ Reaped store row next := by
  rcases sweep_step_cases sweeping.reapers permitted taken with ⟨-, rfl⟩ |
    ⟨pid, clock, outcome, step, moved, effect, rfl, running, move, rfl⟩ | ⟨pid, proc, rfl, running, rfl⟩
  · refine .inl ⟨waiting.untouched, fun step member => ?_, waiting.staged, ?_⟩
    · rcases List.mem_append.mp member with old | new
      · exact waiting.tallies step old
      · cases List.mem_singleton.mp new
        trivial
    · rw [List.countP_append, waiting.unprocessed]
      rfl
  · rcases sweep_untouched move with ⟨rfl, rfl, -⟩ | ⟨untouched, unfinished⟩
    · exact .inr (commit_reaped sweeping waiting share running)
    · have tallies := waiting.tallies step (List.mem_of_getElem? running)
      refine .inl ⟨waiting.untouched.trans untouched, fun other member => ?_, sweep_staged tallies waiting.staged move, ?_⟩
      · rcases mem_set_cases member with same | old
        · cases same
          exact sweep_tallies tallies (by rw [waiting.untouched.2.1]) move
        · exact waiting.tallies other old
      · exact Nat.le_zero.mp (waiting.unprocessed ▸ processed_set running (processed_eq_false unfinished))
  · refine .inl ⟨by rw [disconnect_store]; exact waiting.untouched, fun step member => ?_, ?_, ?_⟩
    · rcases mem_set_cases member with same | old
      · cases same
      · exact waiting.tallies step old
    · rcases disconnect_tx world.db pid with free | same
      · exact fun held opened => by cases free.symm.trans opened
      · rw [same]
        exact waiting.staged
    · exact Nat.le_zero.mp (waiting.unprocessed ▸ processed_set running rfl)

/-- The lock is what the others then fail to get. -/
theorem step_reaped (sweeping : Sweeping store row world) (reaped : Reaped store row world) (permitted : sweeps event)
    (first : relocks world event = false) (taken : (system env).step world event = some next) :
    Reaped store row next := by
  obtain ⟨now, share, audit⟩ := reaped.recorded
  rcases sweep_step_cases sweeping.reapers permitted taken with ⟨-, rfl⟩ |
    ⟨pid, clock, outcome, step, moved, effect, rfl, running, move, rfl⟩ | ⟨pid, proc, rfl, running, rfl⟩
  · refine ⟨reaped.recorded, reaped.chunks, reaped.gone, reaped.free, ?_⟩
    rw [List.countP_append]
    exact reaped.once
  · have outside : finalizing step = false := by
      cases place : finalizing step with
      | false => rfl
      | true =>
        obtain ⟨_, _, opened, -⟩ := sweeping.locked.held pid _ running place
        cases reaped.free.symm.trans opened
    have free : (world.db.apply pid effect).tx = none := by
      cases move with
      | lock ok free found =>
        have empty : world.db.store.chunks.entries = [] := by rw [reaped.chunks]; rfl
        simp [relocks, running, ok, reaped.free, empty, share, reapUpdate] at first
      | fetchReapable => exact reaped.free
      | idle => exact reaped.free
      | fetchChunkKeys => exact reaped.free
      | removeBlob => exact reaped.free
      | removeLost => exact reaped.free
      | removed => exact reaped.free
      | gone => exact reaped.free
      | fail => exact reaped.free
      | rollback => rfl
      | _ => cases outside
    rcases sweep_untouched move with ⟨rfl, -, -⟩ | ⟨⟨share', chunks', audit'⟩, unfinished⟩
    · cases outside
    · exact ⟨⟨now, share'.trans share, audit'.trans audit⟩, chunks'.trans reaped.chunks,
        reaped.gone.shrink (sweep_shrinks move), free,
        Nat.le_trans (processed_set running (processed_eq_false unfinished)) reaped.once⟩
  · have free : (world.db.disconnect pid).tx = none := by
      rcases disconnect_tx world.db pid with free | same
      · exact free
      · exact same.trans reaped.free
    refine ⟨⟨now, ?_, ?_⟩, ?_, ?_, free, Nat.le_trans (processed_set running rfl) reaped.once⟩
    · rw [disconnect_store, share]
    · rw [disconnect_store, audit]
    · rw [disconnect_store, reaped.chunks]
    · rw [disconnect_store]
      exact reaped.gone

theorem step_sweeping (sweeping : Sweeping store row world) (share : store.share = some row) (permitted : sweeps event)
    (first : relocks world event = false) (taken : (system env).step world event = some next) :
    Sweeping store row next := by
  refine ⟨locked_step sweeping.locked taken, step_isSweep sweeping.reapers permitted taken,
    step_cleared sweeping permitted taken, ?_⟩
  rcases sweeping.rows with waiting | reaped
  · exact step_waiting sweeping waiting share permitted taken
  · exact .inr (step_reaped sweeping reaped permitted first taken)

theorem sweeping_start (store : Store) (row : ShareRow) : Sweeping store row (World.start store) where
  locked := locked_start store
  reapers _ member := by cases member
  cleared _ member := by cases member
  rows := .inl {
    untouched := ⟨rfl, rfl, rfl⟩
    tallies _ member := by cases member
    staged _ opened := by cases opened
    unprocessed := rfl }

/-- The row that a sweep has locked and updated is there when it reads it again. -/
theorem reread_found {pid chunkCount : Nat} {reason : DestroyedReason} (locked : Locked world)
    (running : world.procs[pid]? = some (.sweep (.rereadDestroyedAt row reason chunkCount))) :
    world.db.view.findById row.id ≠ none := by
  obtain ⟨now, writes, opened, holds⟩ := locked.held pid _ running rfl
  cases holds with
  | rereadDestroyedAt share => simp [Database.view, opened, WriteSet.apply, Store.findById, reapUpdate]

/-- A sweep fails with one of its own calls. -/
theorem sweep_failed {pid : Nat} {clock : Timestamp} {outcome : Outcome} {step : SweepStep} {effect : Effect}
    (locked : Locked world) (running : world.procs[pid]? = some (.sweep step))
    (move : SweepMove world.db clock outcome step (.done .failed) effect) : outcome ≠ .ok := by
  generalize moved : SweepStep.done .failed = after at move
  cases move with
  | removeLost lost => exact lost
  | commitLost lost => simp [lost]
  | fail outside bad => exact bad
  | rollback inside bad =>
    rcases bad with bad | ⟨row, reason, chunkCount, rfl, absent⟩
    · exact bad
    · exact absurd absent (reread_found locked running)
  | @fetchChunkKeys id => exact absurd moved.symm (remaining_ne_done _ _ _ _)
  | @removeBlob id key rest chunkCount => exact absurd moved.symm (remaining_ne_done _ _ _ _)
  | _ => cases moved

theorem failed_called {events : List Event} (run : (system env).Run (fun _ event => sweeps event) (World.start store) events world) :
    (Locked world ∧ ∀ proc ∈ world.procs, isSweep proc) ∧
      ∀ pid, world.procs[pid]? = some (.sweep (.done .failed)) →
        ∃ clock outcome, .exec pid clock outcome ∈ events ∧ outcome ≠ .ok := by
  induction run with
  | nil => exact ⟨⟨locked_start _, fun _ member => by cases member⟩, fun pid failed => by simp [World.start] at failed⟩
  | @snoc events world event next before permitted taken ih =>
    obtain ⟨⟨locked, reapers⟩, called⟩ := ih
    refine ⟨⟨locked_step locked taken, step_isSweep reapers permitted taken⟩, fun pid failed => ?_⟩
    have earlier : world.procs[pid]? = some (.sweep (.done .failed)) →
        ∃ clock outcome, .exec pid clock outcome ∈ events ++ [event] ∧ outcome ≠ .ok := by
      intro failed
      obtain ⟨clock, outcome, member, bad⟩ := called pid failed
      exact ⟨clock, outcome, List.mem_append_left _ member, bad⟩
    rcases sweep_step_cases reapers permitted taken with ⟨-, rfl⟩ |
      ⟨other, clock, outcome, step, moved, effect, rfl, running, move, rfl⟩ | ⟨other, proc, rfl, running, rfl⟩
    · rcases getElem?_concat_cases failed with old | ⟨-, new⟩
      · exact earlier old
      · cases new
    · rcases getElem?_set_cases failed with ⟨rfl, same⟩ | ⟨-, old⟩
      · cases same
        exact ⟨clock, outcome, List.mem_append_right _ List.mem_cons_self, sweep_failed locked running move⟩
      · exact earlier old
    · rcases getElem?_set_cases failed with ⟨-, same⟩ | ⟨-, old⟩
      · cases same
      · exact earlier old

/-- In a run of any number of instances, none of which takes the lock after another has
finished with the share, at most one commits. The row and the chain record what it found,
and the others find the lock taken or nothing to do, unless a call of theirs fails. -/
theorem reaped_once (env : Env) {events : List Event} (share : store.share = some row)
    (run : (system env).Run (fun world event => sweeps event ∧ relocks world event = false)
      (World.start store) events world) :
    ((world.db.store.share = store.share ∧ world.db.store.chunks = store.chunks ∧
          world.db.store.audit = store.audit ∧ world.procs.countP processed = 0) ∨
      (∃ now, world.db.store.share = some (reapUpdate now (classifyReason row now) row) ∧
          world.db.store.audit = store.audit ++
            [reapEvent row (classifyReason row now) (row.destroyedAt.or (some now)) store.chunks.entries.length]) ∧
        world.db.store.chunks = ∅ ∧ world.procs.countP processed ≤ 1) ∧
    ∀ pid result, world.procs[pid]? = some (.sweep (.done result)) →
      result = .processed ∨ result = .skipped ∨ result = .idle ∨
        ∃ clock outcome, .exec pid clock outcome ∈ events ∧ outcome ≠ .ok := by
  have sweeping := run.invariant (Sweeping store row) (sweeping_start store row)
    fun _ _ _ sweeping permitted taken => step_sweeping sweeping share permitted.1 permitted.2 taken
  constructor
  · rcases sweeping.rows with waiting | reaped
    · obtain ⟨share, chunks, audit⟩ := waiting.untouched
      exact .inl ⟨share, chunks, audit, waiting.unprocessed⟩
    · exact .inr ⟨reaped.recorded, reaped.chunks, reaped.once⟩
  · intro pid result ended
    cases result with
    | processed => exact .inl rfl
    | skipped => exact .inr (.inl rfl)
    | idle => exact .inr (.inr (.inl rfl))
    | failed => exact .inr (.inr (.inr ((failed_called (run.mono fun _ _ permitted => permitted.1)).2 pid ended)))

/-- A destruction entry of the reaper for the share. -/
def reaperEntry (id : String) (entry : AuditEvent) : Bool :=
  entry.eventType = .shareDestroyed && (recorded entry).isSome && entry.shareId = some id

/-- The second instance finds the lock taken. -/
theorem reaped_once_locked : ∃ events world,
    (system sampleEnv).Run (fun world event => sweeps event ∧ relocks world event = false)
      (World.start sampleReady) events world ∧
    world.procs = [.sweep (.done .processed), .sweep (.done .skipped)] ∧
    world.db.store.audit.length = 1 := by
  have replayed : ((system sampleEnv).replay (fun world event => sweeps event && !relocks world event)
      (World.start sampleReady)
      (.spawn .sweep :: .spawn .sweep :: steps 0 2000 4 ++ steps 1 2000 4 ++ steps 0 2001 5)).any
      (fun world => decide (world.procs = [.sweep (.done .processed), .sweep (.done .skipped)])) = true := by
    decide +kernel
  obtain ⟨world, run, ended⟩ := System.any_replay replayed
  have ended := of_decide_eq_true ended
  have run := run.mono fun world event permitted => by
    simpa only [Bool.and_eq_true, Bool.not_eq_true'] using permitted
  rcases (reaped_once sampleEnv rfl run).1 with ⟨-, -, -, unprocessed⟩ | ⟨⟨now, -, audit⟩, -, -⟩
  · rw [ended] at unprocessed
    cases unprocessed
  · exact ⟨_, world, run, ended, by rw [audit]; rfl⟩

/-- Both instances select the share. The first has finished when the second takes the lock,
which then destroys the share again and for another reason. -/
theorem reaped_twice :
    ¬ ∀ (env : Env) (store : Store) (row : ShareRow) (events : List Event) (world : World),
      store.share = some row → (system env).Run (fun _ event => sweeps event) (World.start store) events world →
      world.db.store.audit.countP (reaperEntry row.id) ≤ store.audit.countP (reaperEntry row.id) + 1 := by
  intro claimed
  have replayed : ((system sampleEnv).replay (fun _ event => sweeps event) (World.start sampleReady)
      (.spawn .sweep :: .spawn .sweep :: steps 0 2000 1 ++ steps 1 2000 1 ++ steps 0 2001 8 ++ steps 1 2002 7)).any
      (fun world => decide (world.db.store.audit.countP (reaperEntry "8c1f0d6e") = 2)) = true := by
    decide +kernel
  obtain ⟨world, run, twice⟩ := System.any_replay replayed
  have once := claimed sampleEnv sampleReady { sampleCreate.row 5 with state := .ready } _ world rfl run
  exact absurd (Nat.le_trans (Nat.le_of_eq (of_decide_eq_true twice).symm) once) (by decide)

end SlothBox.Proofs

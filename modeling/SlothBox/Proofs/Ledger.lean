import SlothBox.Library.Variant
import SlothBox.Proofs.Reaping

/-! The download counter against the audit chain. Counting a download and recording it are two
statements of `POST /downloaded`, and only the chain's last chunk does both in one transaction.
So the counter can run ahead of the chain, by the records in flight and by those that some
call or crash has lost, and by no other download. -/

namespace SlothBox.Proofs
open Library

/-- Entries that record a download. -/
def recordsDownload (event : AuditEvent) : Bool :=
  match event.payload with
  | .burned .. | .downloaded .. => true
  | _ => false

/-- A download has been counted and its entry is still to be appended. -/
def recording (proc : Proc) : Bool := (owes proc).any recordsDownload

/-- The downloads on the chain and those on their way to it. -/
def downloadsRecorded (world : World) : Nat :=
  world.db.store.audit.countP recordsDownload + world.procs.countP recording

def downloadsCounted (store : Store) : Nat := (store.share.map ShareRow.downloadCount).getD 0

/-- A counted download will not be recorded: its handler is killed between the two statements, or is
told that the first has failed, or the second does fail. -/
def forgets (world : World) : Event → Bool
  | .exec pid clock outcome =>
    match world.procs[pid]? with
    | some (.downloaded request .increment) =>
      outcome = .lost && ((world.db.store.find request.shortId).bind (incrementDownload clock)).isSome
    | some proc => recording proc && !takesEffect outcome
    | none => false
  | .crash pid => world.procs[pid]?.any recording
  | .spawn _ => false

section Ledger
variable {env : Env} {world next : World} {event : Event} {pid : Nat} {clock : Timestamp} {outcome : Outcome}
  {proc moved : Proc} {effect : Effect}

theorem incrementDownload_count {row updated : ShareRow} (incremented : incrementDownload clock row = some updated) :
    updated.downloadCount = row.downloadCount + 1 := by
  unfold incrementDownload at incremented
  split at incremented
  · cases incremented
    rfl
  · cases incremented

/-- `mark_chunk_served` counts and records in one transaction; the reaper does neither. -/
theorem holds_balanced {store : Store} {now : Timestamp} {writes : WriteSet} (holds : Holds store now proc writes)
    (last : committing proc) :
    (writes.apply store).audit.countP recordsDownload + downloadsCounted store =
      store.audit.countP recordsDownload + downloadsCounted (writes.apply store) := by
  unfold downloadsCounted
  cases holds with
  | burned share =>
    simp [WriteSet.apply, share, burn, burnEvent, recordsDownload]
    omega
  | marked share => simp [WriteSet.apply]
  | reaped share => simp [WriteSet.apply, share, reapUpdate, reapEvent, recordsDownload]
  | _ => cases last

theorem append_exec {db : Database} {entry : AuditEvent} (owed : owes proc = some entry)
    (executed : proc.exec env db clock outcome = some (moved, effect)) :
    owes moved = none ∧ effect = if takesEffect outcome then .auto { events := [entry] } else .skip := by
  have attempted : ∀ {α : Type} {next after : α}, appendAudit db outcome entry next = some (after, effect) →
      after = next ∧ effect = if takesEffect outcome then .auto { events := [entry] } else .skip := by
    intro α next after appended
    unfold appendAudit at appended
    split at appended
    · cases appended
    · cases outcome <;> cases appended <;> exact ⟨rfl, rfl⟩
  unfold owes at owed
  split at owed
  next request event =>
    obtain ⟨after, call, rfl⟩ := handler_exec executed
    cases owed
    obtain ⟨rfl, wrote⟩ := attempted call
    exact ⟨rfl, wrote⟩
  next request updated =>
    obtain ⟨after, call, rfl⟩ := handler_exec executed
    cases owed
    obtain ⟨rfl, wrote⟩ := attempted call
    exact ⟨rfl, wrote⟩
  next request destroyedId =>
    obtain ⟨after, call, rfl⟩ := handler_exec executed
    cases owed
    obtain ⟨rfl, wrote⟩ := attempted call
    exact ⟨rfl, wrote⟩
  next => cases owed

/-- The entry of a counted download is appended, or is lost. -/
theorem append_balanced {entry : AuditEvent} (owed : owes proc = some entry)
    (running : world.procs[pid]? = some proc) (executed : proc.exec env world.db clock outcome = some (moved, effect)) :
    (world.db.apply pid effect).store.audit.countP recordsDownload + (recording moved).toNat +
        (forgets world (.exec pid clock outcome)).toNat =
      world.db.store.audit.countP recordsDownload + (recording proc).toNat ∧
    (world.db.apply pid effect).store.share = world.db.store.share := by
  obtain ⟨quit, rfl⟩ := append_exec owed executed
  have noMore : recording moved = false := by rw [recording, quit]; rfl
  have missed : forgets world (.exec pid clock outcome) = (recording proc && !takesEffect outcome) := by
    simp only [forgets, running]
    split
    next same =>
      cases same
      cases owed
    next same => rw [Option.some.inj same]
    next absent => cases absent
  rw [noMore, missed]
  cases effective : takesEffect outcome with
  | true =>
    have once : [entry].countP recordsDownload = (recording proc).toNat := by
      rw [recording, owed, List.countP_singleton, Option.any_some]
      cases recordsDownload entry <;> rfl
    simp [Database.apply, WriteSet.apply, once]
  | false => simp [Database.apply]

/-- `increment_download` counts one, and its handler goes on to record it. -/
theorem increment_balanced {request : DownloadedRequest}
    (running : world.procs[pid]? = some (.downloaded request .increment))
    (executed : (Proc.downloaded request .increment).exec env world.db clock outcome = some (moved, effect)) :
    (world.db.apply pid effect).store.audit = world.db.store.audit ∧
    (recording moved).toNat + (forgets world (.exec pid clock outcome)).toNat + downloadsCounted world.db.store =
      downloadsCounted (world.db.apply pid effect).store := by
  obtain ⟨after, call, rfl⟩ := handler_exec executed
  have missed : forgets world (.exec pid clock outcome) =
      (outcome = .lost && ((world.db.store.find request.shortId).bind (incrementDownload clock)).isSome) := by
    simp only [forgets, running]
  rw [missed]
  unfold downloadsCounted
  cases downloaded_move call with
  | refused free ok nothing => simp [ok, recording, owes, Database.apply]
  | increment free ok found incremented =>
    have stored := (find_eq_some.mp found).1
    simp [ok, recording, owes, downloadedEvent, recordsDownload, Database.apply, WriteSet.apply, stored,
      incrementDownload_count incremented, Nat.add_comm]
  | incrementLost free lost found incremented =>
    have stored := (find_eq_some.mp found).1
    simp [lost, recording, owes, Database.apply, WriteSet.apply, stored, found, incremented,
      incrementDownload_count incremented, Nat.add_comm]
  | stop silent idle =>
    have nothing : (outcome = .lost && ((world.db.store.find request.shortId).bind (incrementDownload clock)).isSome) =
        false := by
      by_cases lost : outcome = .lost
      · simp [idle (by rw [lost]; rfl) rfl]
      · simp [lost]
    simp [nothing, recording, owes, Database.apply]

/-- Nothing else outside transactions counts or records a download. -/
theorem writes_balanced {db : Database} (written : Writes env db clock outcome proc moved effect)
    (nothing : owes proc = none) (other : ∀ request, proc ≠ .downloaded request .increment) :
    recording moved = false ∧ (db.apply pid effect).store.audit = db.store.audit ∧
      downloadsCounted (db.apply pid effect).store = downloadsCounted db.store := by
  unfold downloadsCounted
  cases written with
  | skip _ quit =>
    refine ⟨?_, rfl, rfl⟩
    rcases quit with none | ⟨request, created⟩
    · rw [recording, none]; rfl
    · rw [recording, created]; rfl
  | putBlob quit => exact ⟨by rw [recording, quit]; rfl, rfl, rfl⟩
  | removeBlob => exact ⟨rfl, rfl, rfl⟩
  | insert absent _ quit =>
    refine ⟨?_, List.append_nil _, by simp [Database.apply, WriteSet.apply, absent, CreateRequest.row]⟩
    rcases quit with none | created
    · rw [recording, none]; rfl
    · rw [recording, created]; rfl
  | promote _ _ _ found =>
    exact ⟨rfl, List.append_nil _, by simp [Database.apply, WriteSet.apply, found]⟩
  | upsert => exact ⟨rfl, List.append_nil _, rfl⟩
  | increment => exact absurd rfl (other _)
  | revoke _ _ found _ quit =>
    refine ⟨?_, List.append_nil _, by simp [Database.apply, WriteSet.apply, (find_eq_some.mp found).1, SlothBox.revoke]⟩
    rcases quit with none | revoked
    · rw [recording, none]; rfl
    · rw [recording, revoked]; rfl
  | append owed => cases nothing.symm.trans owed
  | markLock => exact ⟨rfl, rfl, rfl⟩
  | sweepLock => exact ⟨rfl, rfl, rfl⟩

/-- One process moves; the account of all is balanced if its own is. -/
theorem set_balanced {db : Database} {missing : Bool} (running : world.procs[pid]? = some proc)
    (own : db.store.audit.countP recordsDownload + (recording moved).toNat + missing.toNat +
        downloadsCounted world.db.store =
      world.db.store.audit.countP recordsDownload + (recording proc).toNat + downloadsCounted db.store) :
    downloadsRecorded ⟨db, world.procs.set pid moved⟩ + missing.toNat + downloadsCounted world.db.store =
      downloadsRecorded world + downloadsCounted db.store := by
  have moves := countP_set_add recording moved running
  unfold downloadsRecorded
  dsimp only
  omega

/-- What a transaction commits is balanced by itself. -/
theorem inside_balanced (locked : Locked world) (running : world.procs[pid]? = some proc) (place : inside proc)
    (executed : proc.exec env world.db clock outcome = some (moved, effect)) :
    (world.db.apply pid effect).store.audit.countP recordsDownload + (recording moved).toNat +
        (forgets world (.exec pid clock outcome)).toNat + downloadsCounted world.db.store =
      world.db.store.audit.countP recordsDownload + (recording proc).toNat +
        downloadsCounted (world.db.apply pid effect).store := by
  have silent : ∀ proc, inside proc → recording proc = false := by
    intro proc place
    cases proc with
    | get => rfl
    | sweep => rfl
    | _ => cases place
  have missed : forgets world (.exec pid clock outcome) = false := by
    simp only [forgets, running]
    split
    next same =>
      cases same
      cases place
    next same => rw [← Option.some.inj same, silent proc place]; rfl
    next => rfl
  obtain ⟨now, writes, opened, holds⟩ := locked.held pid proc running place
  rw [missed, silent proc place]
  rcases holds_exec opened holds executed with ⟨within, more, after, -⟩ | ⟨-, quit, after⟩ | ⟨-, quit, last, after⟩
  · rw [after, silent moved within]
    rfl
  · rw [after, recording, quit]
    rfl
  · rw [after, recording, quit]
    exact holds_balanced holds last

theorem outside_balanced (running : world.procs[pid]? = some proc) (place : inside proc = false)
    (executed : proc.exec env world.db clock outcome = some (moved, effect)) :
    (world.db.apply pid effect).store.audit.countP recordsDownload + (recording moved).toNat +
        (forgets world (.exec pid clock outcome)).toNat + downloadsCounted world.db.store =
      world.db.store.audit.countP recordsDownload + (recording proc).toNat +
        downloadsCounted (world.db.apply pid effect).store := by
  cases owed : owes proc with
  | some entry =>
    obtain ⟨balanced, share⟩ := append_balanced owed running executed
    unfold downloadsCounted
    rw [balanced, share]
  | none =>
    have silent : recording proc = false := by rw [recording, owed]; rfl
    rw [silent]
    by_cases increments : ∃ request, proc = .downloaded request .increment
    · obtain ⟨request, rfl⟩ := increments
      obtain ⟨audit, balanced⟩ := increment_balanced running executed
      rw [audit, ← balanced]
      dsimp only [Bool.toNat_false]
      omega
    · have other : ∀ request, proc ≠ .downloaded request .increment := fun request same => increments ⟨request, same⟩
      have missed : forgets world (.exec pid clock outcome) = false := by
        simp only [forgets, running]
        rw [silent]
        rfl
      obtain ⟨quiet, audit, count⟩ := writes_balanced (exec_writes place executed) owed other
      rw [quiet, audit, count, missed]
      rfl

theorem step_balanced (locked : Locked world) (taken : (system env).step world event = some next) :
    downloadsRecorded next + (forgets world event).toNat + downloadsCounted world.db.store =
      downloadsRecorded world + downloadsCounted next.db.store := by
  rcases step_cases taken with ⟨request, rfl, rfl⟩ |
    ⟨pid, clock, outcome, proc, moved, effect, rfl, running, executed, rfl⟩ | ⟨pid, proc, rfl, running, rfl⟩
  · have new : recording request.start = false := by cases request <;> rfl
    simp [downloadsRecorded, forgets, new]
  · cases place : inside proc with
    | true => exact set_balanced running (inside_balanced locked running place executed)
    | false => exact set_balanced running (outside_balanced running place executed)
  · apply set_balanced running
    have missed : forgets world (.crash pid) = recording proc := by simp [forgets, running]
    rw [disconnect_store, missed]
    rfl

/-- The chain accounts for every counted download. In every run of the whole system, over a store
that has no share and a chain that has no downloads yet, the download counter is the number of
downloads on the chain, plus those whose entry is still to be appended, plus the steps of the
run that forget one. -/
theorem download_ledger (env : Env) {allowed : World → Event → Prop} {store : Store} {events : List Event}
    {world : World} (fresh : store.share = none) (empty : ∀ entry ∈ store.audit, recordsDownload entry = false)
    (run : (system env).Run allowed (World.start store) events world) :
    downloadsCounted world.db.store =
      downloadsRecorded world + (system env).tally forgets (World.start store) events := by
  have balanced := run.balance downloadsRecorded (fun world => downloadsCounted world.db.store) forgets Locked (locked_start store)
    (fun _ _ _ locked _ taken => locked_step locked taken)
    (fun _ _ _ locked _ taken => step_balanced locked taken)
  have none : downloadsRecorded (World.start store) = 0 := by
    have unrecorded : store.audit.countP recordsDownload = 0 :=
      List.countP_eq_zero.mpr fun entry member => by simp [empty entry member]
    simp [downloadsRecorded, World.start, unrecorded]
  have zero : downloadsCounted store = 0 := by rw [downloadsCounted, fresh]; rfl
  change _ + _ + downloadsCounted store = _ at balanced
  omega

end Ledger

/-- Three downloads of one share: recorded, still to be recorded, and killed before that. -/
theorem download_ledger_three : ∃ events world,
    (system sampleEnv).Run (fun _ _ => true = true) (World.start .empty) events world ∧
    downloadsCounted world.db.store = 3 ∧ world.db.store.audit.countP recordsDownload = 1 ∧
    world.procs.countP recording = 1 ∧ (system sampleEnv).tally forgets (World.start .empty) events = 1 := by
  have replayed : ((system sampleEnv).replay (fun _ _ => true) (World.start .empty)
      (.spawn (.create { sampleCreate with burnAfterRead := false }) :: steps 0 5 3 ++ .spawn (.put samplePut) ::
        steps 1 6 7 ++ .spawn (.downloaded ⟨"abcdefghjkmn"⟩) :: steps 2 7 4 ++
        .spawn (.downloaded ⟨"abcdefghjkmn"⟩) :: steps 3 8 3 ++
        .spawn (.downloaded ⟨"abcdefghjkmn"⟩) :: steps 4 9 3 ++ [.crash 4])).any
      (fun world => decide (downloadsCounted world.db.store = 3) &&
        decide (world.db.store.audit.countP recordsDownload = 1) && decide (world.procs.countP recording = 1)) = true := by
    decide +kernel
  obtain ⟨world, run, passed⟩ := System.any_replay replayed
  simp only [Bool.and_eq_true, decide_eq_true_eq] at passed
  obtain ⟨⟨three, chained⟩, pending⟩ := passed
  have ledger := download_ledger sampleEnv rfl (fun _ member => by cases member) run
  rw [downloadsRecorded, three, chained, pending] at ledger
  exact ⟨_, world, run, three, chained, pending, by omega⟩

end SlothBox.Proofs

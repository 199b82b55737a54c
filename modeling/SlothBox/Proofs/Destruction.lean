import SlothBox.Proofs.Lifecycle

/-! How a share is destroyed, and what is recorded of it. The function in the database and
the reaper commit the flip together with its entry on the chain; the gateway flips first
and appends afterwards, without looking at the row again. -/

namespace SlothBox.Proofs
open Library

variable {env : Env} {world next : World} {event : Event}

/-! ### The entry on the chain -/

/-- Some entry says that the share was destroyed. -/
def accounts (store : Store) (row : ShareRow) : Bool :=
  store.audit.any fun entry => entry.eventType = .shareDestroyed && entry.shareId = some row.id

/-- A statement of the gateway destroys the share, and the chain does not say so yet. -/
def flipsAlone (world : World) : Event → Bool
  | .exec pid clock outcome =>
    takesEffect outcome && world.db.store.share.any fun row => !accounts world.db.store row &&
      match world.procs[pid]? with
      | some (.destroy request .update) => row.shortId = request.shortId
      | some (.downloaded request .increment) =>
        row.shortId = request.shortId && row.burnAfterRead && (incrementDownload clock row).isSome
      | _ => false
  | _ => false

/-- A destroyed share has its entry. -/
def Accounted (store : Store) : Prop :=
  ∀ row, store.share = some row → row.state = .destroyed →
    ∃ entry ∈ store.audit, entry.eventType = .shareDestroyed ∧ entry.shareId = some row.id

theorem accounts_iff {store : Store} {row : ShareRow} :
    accounts store row = true ↔
      ∃ entry ∈ store.audit, entry.eventType = .shareDestroyed ∧ entry.shareId = some row.id := by
  simp [accounts, List.any_eq_true]

theorem step_accounted (locked : Locked world) (accounted : Accounted world.db.store)
    (permitted : flipsAlone world event = false) (taken : (system env).step world event = some next) :
    Accounted next.db.store := by
  rcases rewrite_cases locked taken with ⟨same, grown⟩ | ⟨new, events, share, audit, rewrites⟩
  · intro row found destroyed
    obtain ⟨entry, inside, kind⟩ := accounted row (same ▸ found) destroyed
    exact ⟨entry, grown.subset inside, kind⟩
  · intro row found destroyed
    obtain rfl : new = row := Option.some.inj (share.symm.trans found)
    rw [audit]
    -- a flip of the gateway was permitted, so the entry is there already
    have before : ∀ old : ShareRow, new.id = old.id → accounts world.db.store old = true →
        ∃ entry ∈ world.db.store.audit ++ events, entry.eventType = .shareDestroyed ∧ entry.shareId = some new.id := by
      intro old named stated
      obtain ⟨entry, inside, kind⟩ := accounts_iff.mp stated
      exact ⟨entry, List.mem_append_left _ inside, named ▸ kind⟩
    generalize stored : world.db.store.share = current at rewrites
    cases rewrites with
    | insert => cases destroyed
    | promote running executed promoted =>
      rcases promotion_state promoted with rfl | rfl <;> cases destroyed
    | increment running executed named counted =>
      obtain ⟨live, same, ⟨burns, -⟩ | expired | kept⟩ := incrementDownload_some counted
      · refine before _ same ?_
        simpa [flipsAlone, executed, stored, running, named, burns, counted] using permitted
      · simp [expired] at destroyed
      · rw [kept] at destroyed
        rcases live with ready | downloaded <;> simp_all
    | @revoke _ _ _ _ row running executed named =>
      refine before row rfl ?_
      simpa [flipsAlone, executed, stored, running, named] using permitted
    | burn ready => exact ⟨_, List.mem_append_right _ List.mem_cons_self, rfl, rfl⟩
    | reap => exact ⟨_, List.mem_append_right _ List.mem_cons_self, rfl, rfl⟩

/-- In a run in which no statement of the gateway destroys the share before the chain says
so, a destroyed share always has its entry: every other flip is committed with it. -/
theorem destruction_accounted (env : Env) {events : List Event}
    (run : (system env).Run (fun world event => flipsAlone world event = false) (World.start .empty) events world) :
    ∀ row, world.db.store.share = some row → row.state = .destroyed →
      ∃ entry ∈ world.db.store.audit, entry.eventType = .shareDestroyed ∧ entry.shareId = some row.id := by
  have reached := run.invariant (fun world => Locked world ∧ Accounted world.db.store)
    ⟨locked_start _, fun row found => by cases found⟩
    fun _ _ _ kept permitted taken => ⟨locked_step kept.1 taken, step_accounted kept.1 kept.2 permitted taken⟩
  exact reached.2

/-- The share is uploaded and burned by its only reader. -/
theorem destruction_accounted_burned : ∃ events world,
    (system sampleEnv).Run (fun world event => flipsAlone world event = false) (World.start .empty) events world ∧
      world.db.store.state = some .destroyed ∧
      ∃ entry ∈ world.db.store.audit, entry.eventType = .shareDestroyed ∧ entry.shareId = some "8c1f0d6e" := by
  have replayed : ((system sampleEnv).replay (fun world event => !flipsAlone world event) (World.start .empty)
      (.spawn (.create sampleCreate) :: steps 0 5 3 ++ .spawn (.put samplePut) :: steps 1 6 7 ++
        .spawn (.get sampleGet) :: steps 2 7 11)).any
      (fun world => world.db.store.share.any fun row => row.state = .destroyed && row.id = "8c1f0d6e") = true := by
    decide +kernel
  obtain ⟨world, run, passed⟩ := System.any_replay replayed
  obtain ⟨row, share, tested⟩ := (Option.any_eq_true _ _).mp passed
  obtain ⟨destroyed, named⟩ := Bool.and_eq_true_iff.mp tested
  have run := run.mono fun world event => (Bool.not_eq_true' (flipsAlone world event)).mp
  have entry := destruction_accounted sampleEnv run row share (of_decide_eq_true destroyed)
  rw [of_decide_eq_true named] at entry
  exact ⟨_, world, run, by simpa [Store.state, share] using destroyed, entry⟩

/-- The gateway is stopped between its UPDATE and its append: the share is destroyed and
the chain will never say so. -/
theorem revoked_without_entry :
    ¬ ∀ (env : Env) (events : List Event) (world : World),
      (system env).Run (fun _ _ => True) (World.start .empty) events world →
      ∀ row, world.db.store.share = some row → row.state = .destroyed →
        ∃ entry ∈ world.db.store.audit, entry.eventType = .shareDestroyed ∧ entry.shareId = some row.id := by
  intro claimed
  have replayed : ((system sampleEnv).replay (fun _ _ => true) (World.start .empty)
      (.spawn (.create sampleCreate) :: steps 0 5 3 ++ .spawn (.destroy sampleDestroy) :: steps 1 6 3 ++ [.crash 1])).any
      (fun world => world.quiet && world.db.store.share.any fun row =>
        row.state = .destroyed && !accounts world.db.store row) = true := by
    decide +kernel
  obtain ⟨world, run, passed⟩ := System.any_replay replayed
  obtain ⟨row, share, tested⟩ := (Option.any_eq_true _ _).mp (Bool.and_eq_true_iff.mp passed).2
  obtain ⟨destroyed, unstated⟩ := Bool.and_eq_true_iff.mp tested
  have stated := claimed sampleEnv _ world (run.mono fun _ _ _ => trivial) row share (of_decide_eq_true destroyed)
  rw [accounts_iff.mpr stated] at unstated
  cases unstated

/-! ### The record in the row -/

/-- A revocation rewrites a row that is destroyed already. -/
def revokesAgain (world : World) : Event → Bool
  | .exec pid _ outcome =>
    takesEffect outcome && match world.procs[pid]?, world.db.store.share with
      | some (.destroy request .update), some row => row.shortId = request.shortId && row.state = .destroyed
      | _, _ => false
  | _ => false

/-- The reaper commits to a destroyed row whose reason it never makes out: that of a revocation, or
one other than `burn` on a share that burns. -/
def reclassifies (world : World) : Event → Bool
  | .exec pid _ outcome =>
    takesEffect outcome && match world.procs[pid]?, world.db.store.share with
      | some (.sweep .commit), some row => row.state = .destroyed &&
          (row.destroyedReason = some .manual || row.burnAfterRead && row.destroyedReason ≠ some .burn)
      | _, _ => false
  | _ => false

/-- `expiry` is recorded of a destroyed share that does not burn only below its cap. -/
def Lapsed (row : ShareRow) : Prop :=
  row.state = .destroyed → row.destroyedReason = some .expiry → row.burnAfterRead = false →
    row.maxDownloads.any (· ≤ row.downloadCount) = false

theorem classifyReason_expiry {row : ShareRow} {now : Timestamp} (keeps : row.burnAfterRead = false)
    (expiry : classifyReason row now = .expiry) : row.maxDownloads.any (· ≤ row.downloadCount) = false := by
  rw [classifyReason, keeps] at expiry
  by_contra capped
  rw [Bool.not_eq_false] at capped
  simp [capped] at expiry

theorem Rewrites.lapsed {row : Option ShareRow} {new : ShareRow} {events : List AuditEvent}
    (rewrites : Rewrites world event row new events) : Lapsed new := by
  intro destroyed expiry keeps
  cases rewrites with
  | insert => cases destroyed
  | promote running executed promoted =>
    rcases promotion_state promoted with rfl | rfl <;> cases destroyed
  | increment running executed named counted =>
    obtain ⟨live, -, ⟨burns, -⟩ | expired | kept⟩ := incrementDownload_some counted
    · obtain ⟨_, _, _, _, rfl⟩ := incrementDownload_terms counted
      cases burns.symm.trans keeps
    · cases expired.symm.trans destroyed
    · rw [kept] at destroyed
      rcases live with live | live <;> cases live.symm.trans destroyed
  | revoke => cases expiry
  | burn => cases expiry
  | @reap _ _ _ old now => exact @classifyReason_expiry old _ keeps (Option.some.inj expiry)

theorem lapsed_reached {allowed : World → Event → Prop} {events : List Event}
    (run : (system env).Run allowed (World.start .empty) events world) {row : ShareRow}
    (share : world.db.store.share = some row) : Lapsed row := by
  have all := run.invariant (fun world => Locked world ∧ ∀ row, world.db.store.share = some row → Lapsed row)
    ⟨locked_start _, fun row share => by cases share⟩ fun world _ next kept _ taken => by
      refine ⟨locked_step kept.1 taken, fun row share => ?_⟩
      rcases rewrite_cases kept.1 taken with ⟨same, -⟩ | ⟨new, events, stored, -, rewrites⟩
      · exact kept.2 row (same.symm.trans share)
      · cases stored.symm.trans share
        exact rewrites.lapsed
  exact all.2 row share

/-- Any other reason is the one that the reaper makes out again. -/
theorem classified_reached {allowed : World → Event → Prop} {events : List Event}
    (run : (system env).Run allowed (World.start .empty) events world) {row : ShareRow} {time : Timestamp}
    {reason : DestroyedReason} (share : world.db.store.share = some row) (destroyed : row.state = .destroyed)
    (stamped : row.destroyedAt = some time) (recorded : row.destroyedReason = some reason) (unrevoked : reason ≠ .manual)
    (burned : row.burnAfterRead = true → reason = .burn) (clock : Timestamp) : classifyReason row clock = reason := by
  have warranted := warranted_reached rfl run share
  cases burns : row.burnAfterRead with
  | true =>
    rw [burned burns, classifyReason, burns, destroyed, stamped]
    rfl
  | false =>
    rw [classifyReason, burns]
    cases reason with
    | burn => cases burns.symm.trans (warranted.burned recorded)
    | manual => exact absurd rfl unrevoked
    | abuse => exact absurd recorded warranted.abused
    | maxDownloads =>
      have capped : row.maxDownloads.any (· ≤ row.downloadCount) = true := warranted.capped recorded
      simp [capped]
    | expiry =>
      have below := lapsed_reached run share destroyed recorded burns
      simp [below]

/-- A COMMIT that fails leaves everything as it was. -/
theorem failed_commit_kept {pid : Nat} {clock : Timestamp} {outcome : Outcome}
    (running : world.procs[pid]? = some (.sweep .commit)) (failed : takesEffect outcome = false)
    (taken : (system env).step world (.exec pid clock outcome) = some next) : next.db.store = world.db.store := by
  rcases step_cases taken with ⟨_, same, -⟩ | ⟨_, _, _, proc, moved, effect, same, found, executed, rfl⟩ | ⟨_, _, same, -⟩
  · cases same
  · cases same
    cases running.symm.trans found
    change (SweepStep.exec world.db clock outcome .commit).map (Prod.map Proc.sweep id) = _ at executed
    obtain ⟨after, call, rfl⟩ := handler_exec executed
    cases sweep_move call with
    | commit ok => simp [ok, takesEffect] at failed
    | commitLost lost => simp [lost, takesEffect] at failed
    | fail => rfl
    | rollback => rfl
  · cases same

/-- The row says when and why it was destroyed. -/
def Records (store : Store) (time : Timestamp) (reason : DestroyedReason) : Prop :=
  ∃ row, store.share = some row ∧ row.state = .destroyed ∧ row.destroyedAt = some time ∧
    row.destroyedReason = some reason

theorem step_records {allowed : World → Event → Prop} {events : List Event} {time : Timestamp} {reason : DestroyedReason}
    (run : (system env).Run allowed (World.start .empty) events world) (records : Records world.db.store time reason)
    (live : resurrects world event = false) (first : revokesAgain world event = false)
    (faithful : reclassifies world event = false) (taken : (system env).step world event = some next) :
    Records next.db.store time reason := by
  obtain ⟨row, share, destroyed, stamped, recorded⟩ := records
  rcases rewrite_cases (locked_reached run) taken with ⟨same, -⟩ | ⟨new, events, after, -, rewrites⟩
  · exact ⟨row, same.trans share, destroyed, stamped, recorded⟩
  · rw [share] at rewrites
    cases rewrites with
    | promote running executed promoted =>
      have ended : world.db.store.ended = true := by simp [Store.ended, share, destroyed, ShareState.terminal]
      rw [promotion_resurrects ended running executed promoted] at live
      cases live
    | increment running executed named counted =>
      rcases (incrementDownload_some counted).1 with live | live <;> simp [live] at destroyed
    | revoke running executed named => simp [revokesAgain, executed, running, share, named, destroyed] at first
    | burn ready => simp [ready] at destroyed
    | @reap pid clock outcome row now chunkCount running =>
      by_cases executed : takesEffect outcome = true
      · simp only [reclassifies, executed, running, share, destroyed, recorded, decide_true, Bool.true_and,
          Bool.or_eq_false_iff, Bool.and_eq_false_imp, decide_eq_false_iff_not, Option.some.injEq, Decidable.not_not]
          at faithful
        have same := classified_reached run share destroyed stamped recorded faithful.1 faithful.2 now
        refine ⟨_, after, rfl, ?_, congrArg some same⟩
        rw [reapUpdate, stamped]
        rfl
      · have kept := failed_commit_kept running (Bool.not_eq_true _ ▸ executed) taken
        exact ⟨row, kept ▸ share, destroyed, stamped, recorded⟩

/-- Once a share is destroyed, the instant and the reason stay as they are, if only no
revocation comes late and no sweep commits to a share that was revoked, or that burns and was
destroyed without being read. -/
theorem destruction_record_kept (env : Env) {first second : List Event} {middle final : World} {row : ShareRow}
    {time : Timestamp} {reason : DestroyedReason}
    (before : (system env).Run (fun _ _ => True) (World.start .empty) first middle)
    (after : (system env).Run (fun world event => resurrects world event = false ∧ revokesAgain world event = false ∧
      reclassifies world event = false) middle second final)
    (share : middle.db.store.share = some row) (destroyed : row.state = .destroyed)
    (stamped : row.destroyedAt = some time) (recorded : row.destroyedReason = some reason) :
    ∃ last, final.db.store.share = some last ∧ last.state = .destroyed ∧ last.destroyedAt = some time ∧
      last.destroyedReason = some reason := by
  have reached := after.invariant
    (fun world => (system env).Reachable (fun _ _ => True) (World.start .empty) world ∧ Records world.db.store time reason)
    ⟨⟨first, before⟩, row, share, destroyed, stamped, recorded⟩ fun world event next kept permitted taken => by
      obtain ⟨events, run⟩ := kept.1
      exact ⟨⟨_, .snoc run trivial taken⟩, step_records run kept.2 permitted.1 permitted.2.1 permitted.2.2 taken⟩
  exact reached.2

/-- A sweep over a burned share finds the same reason. -/
theorem destruction_record_kept_burned : ∃ first middle final,
    (system sampleEnv).Run (fun _ _ => True) (World.start .empty) first middle ∧
    (system sampleEnv).Run (fun world event => resurrects world event = false ∧ revokesAgain world event = false ∧
      reclassifies world event = false) middle (.spawn .sweep :: steps 3 8 9) final ∧
    middle.db.store.audit.length < final.db.store.audit.length ∧
    ∃ last, final.db.store.share = some last ∧ last.state = .destroyed ∧ last.destroyedAt = some 7 ∧
      last.destroyedReason = some .burn := by
  have replayed : ((system sampleEnv).replay (fun _ _ => true) (World.start .empty)
      (.spawn (.create sampleCreate) :: steps 0 5 3 ++ .spawn (.put samplePut) :: steps 1 6 7 ++
        .spawn (.get sampleGet) :: steps 2 7 11)).any
      (fun middle => (middle.db.store.share.any fun row =>
          row.state = .destroyed ∧ row.destroyedAt = some 7 ∧ row.destroyedReason = some .burn) &&
        ((system sampleEnv).replay
          (fun world event => !resurrects world event && !revokesAgain world event && !reclassifies world event) middle
          (.spawn .sweep :: steps 3 8 9)).any fun final =>
            middle.db.store.audit.length < final.db.store.audit.length) = true := by
    decide +kernel
  obtain ⟨middle, before, passed⟩ := System.any_replay replayed
  obtain ⟨recorded, continued⟩ := Bool.and_eq_true_iff.mp passed
  obtain ⟨row, share, tested⟩ := (Option.any_eq_true _ _).mp recorded
  obtain ⟨destroyed, stamped, reason⟩ := of_decide_eq_true tested
  obtain ⟨final, after, grown⟩ := System.any_replay continued
  have before := before.mono fun _ _ _ => trivial
  have after := after.mono fun world event permitted => by
    simpa only [Bool.and_eq_true, Bool.not_eq_true', and_assoc] using permitted
  exact ⟨_, middle, final, before, after, of_decide_eq_true grown,
    destruction_record_kept sampleEnv before after share destroyed stamped reason⟩

/-- A manual revocation of a burn-after-read share is put down as a burn by the next sweep. -/
theorem revocation_rewritten : ∃ middle final,
    (system sampleEnv).Run (fun _ _ => True) (World.start .empty)
      (.spawn (.create sampleCreate) :: steps 0 5 3 ++ .spawn (.put samplePut) :: steps 1 6 7 ++
        .spawn (.destroy sampleDestroy) :: steps 2 7 4) middle ∧
    (system sampleEnv).Run (fun _ _ => True) middle (.spawn .sweep :: steps 3 8 9) final ∧
    Records middle.db.store 7 .manual ∧ Records final.db.store 7 .burn := by
  have replayed : ((system sampleEnv).replay (fun _ _ => true) (World.start .empty)
      (.spawn (.create sampleCreate) :: steps 0 5 3 ++ .spawn (.put samplePut) :: steps 1 6 7 ++
        .spawn (.destroy sampleDestroy) :: steps 2 7 4)).any
      (fun middle => (middle.db.store.share.any fun row =>
          row.state = .destroyed ∧ row.destroyedAt = some 7 ∧ row.destroyedReason = some .manual) &&
        ((system sampleEnv).replay (fun _ _ => true) middle (.spawn .sweep :: steps 3 8 9)).any fun final =>
          final.db.store.share.any fun row =>
            row.state = .destroyed ∧ row.destroyedAt = some 7 ∧ row.destroyedReason = some .burn) = true := by
    decide +kernel
  obtain ⟨middle, before, passed⟩ := System.any_replay replayed
  obtain ⟨recorded, continued⟩ := Bool.and_eq_true_iff.mp passed
  obtain ⟨final, after, rewritten⟩ := System.any_replay continued
  obtain ⟨row, share, tested⟩ := (Option.any_eq_true _ _).mp recorded
  obtain ⟨last, share', tested'⟩ := (Option.any_eq_true _ _).mp rewritten
  exact ⟨middle, final, before.mono fun _ _ _ => trivial, after.mono fun _ _ _ => trivial,
    ⟨row, share, of_decide_eq_true tested⟩, ⟨last, share', of_decide_eq_true tested'⟩⟩

/-! ### One entry for one destruction -/

/-- A destruction entry of the share that names its trigger. -/
def triggered (id : String) (entry : AuditEvent) : Bool :=
  entry.eventType = .shareDestroyed && entry.payload.trigger.isSome && entry.shareId = some id

/-- Such entries on the chain, and those that a handler of the gateway is about to append. -/
def entries (id : String) (world : World) : Nat :=
  world.db.store.audit.countP (triggered id) + world.procs.countP fun proc => (owes proc).any (triggered id)

/-- One destruction is on the chain or on its way there, and none while the share is not destroyed. -/
structure Single (id : String) (world : World) : Prop where
  locked : Locked world
  once : entries id world ≤ 1
  unused : world.db.store.state ≠ some .destroyed → entries id world = 0

variable {id : String}

theorem triggered_created (request : CreateRequest) (now : Timestamp) : triggered id (request.event now) = false := rfl

theorem triggered_reaped (row : ShareRow) (reason : DestroyedReason) (time : Option Timestamp) (chunkCount : Nat) :
    triggered id (reapEvent row reason time chunkCount) = false := rfl

/-- A download that leaves the share alive has no trigger to name. -/
theorem triggered_downloaded (request : DownloadedRequest) {updated : ShareRow} (alive : updated.state ≠ .destroyed) :
    triggered id (downloadedEvent request updated) = false := by
  simp [triggered, downloadedEvent, alive]

/-- A process moves on and owes what it owes then. -/
theorem entries_set (id : String) (db : Database) {pid : Nat} {proc : Proc} (moved : Proc)
    (running : world.procs[pid]? = some proc) :
    entries id ⟨db, world.procs.set pid moved⟩ + ((owes proc).any (triggered id)).toNat =
      db.store.audit.countP (triggered id) + (world.procs.countP fun proc => (owes proc).any (triggered id)) +
        ((owes moved).any (triggered id)).toNat :=
  calc
    _ = db.store.audit.countP (triggered id) +
        ((world.procs.set pid moved).countP (fun proc => (owes proc).any (triggered id)) +
          ((owes proc).any (triggered id)).toNat) := by rw [entries, Nat.add_assoc]
    _ = _ := by rw [countP_set_add _ moved running, Nat.add_assoc]

/-- A process moves on; what it appends it owed, and a destroyed share stays destroyed. -/
theorem Single.keep {db : Database} {pid : Nat} {proc moved : Proc} {events : List AuditEvent}
    (single : Single id world) (running : world.procs[pid]? = some proc)
    (locked : Locked ⟨db, world.procs.set pid moved⟩) (audit : db.store.audit = world.db.store.audit ++ events)
    (owed : events.countP (triggered id) + ((owes moved).any (triggered id)).toNat ≤
      ((owes proc).any (triggered id)).toNat)
    (stays : world.db.store.state = some .destroyed → db.store.state = some .destroyed) :
    Single id ⟨db, world.procs.set pid moved⟩ := by
  have moves := entries_set id db moved running
  have before : entries id world = world.db.store.audit.countP (triggered id) +
      world.procs.countP fun proc => (owes proc).any (triggered id) := rfl
  rw [audit, List.countP_append] at moves
  have fewer : entries id ⟨db, world.procs.set pid moved⟩ ≤ entries id world := by omega
  refine ⟨locked, Nat.le_trans fewer single.once, fun alive => ?_⟩
  have unused := single.unused fun destroyed => alive (stays destroyed)
  omega

/-- The share is destroyed, which adds one entry where there was none. -/
theorem Single.flip {db : Database} {pid : Nat} {proc moved : Proc} {events : List AuditEvent}
    (single : Single id world) (running : world.procs[pid]? = some proc)
    (locked : Locked ⟨db, world.procs.set pid moved⟩) (audit : db.store.audit = world.db.store.audit ++ events)
    (owed : events.countP (triggered id) + ((owes moved).any (triggered id)).toNat ≤ 1)
    (alive : world.db.store.state ≠ some .destroyed) (flipped : db.store.state = some .destroyed) :
    Single id ⟨db, world.procs.set pid moved⟩ := by
  have moves := entries_set id db moved running
  have before : entries id world = world.db.store.audit.countP (triggered id) +
      world.procs.countP fun proc => (owes proc).any (triggered id) := rfl
  have unused := single.unused alive
  rw [audit, List.countP_append] at moves
  exact ⟨locked, by omega, fun again => absurd flipped again⟩

theorem step_single (single : Single id world) (live : resurrects world event = false)
    (first : revokesAgain world event = false) (taken : (system env).step world event = some next) :
    Single id next := by
  have locked := locked_step single.locked taken
  have same : world.db.store.audit = world.db.store.audit ++ [] := (List.append_nil _).symm
  rcases commit_cases single.locked taken with ⟨kept, ⟨request, -, spawned⟩ | ⟨pid, proc, moved, running, quit, set⟩⟩ |
    ⟨pid, clock, outcome, proc, moved, effect, rfl, running, written, rfl⟩ |
    ⟨pid, clock, outcome, proc, moved, now, writes, rfl, running, -, last, holds, quit, rfl⟩
  · have none : owes request.start = none := by cases request <;> rfl
    have kept : entries id next = entries id world ∧ next.db.store.state = world.db.store.state := by
      simp [entries, kept, spawned, none]
    exact ⟨locked, kept.1 ▸ single.once, fun alive => kept.1 ▸ single.unused (kept.2 ▸ alive)⟩
  · obtain ⟨db, procs⟩ := next
    cases set
    have kept : db.store = world.db.store := kept
    have audit : db.store.audit = world.db.store.audit ++ [] := by rw [kept, ← same]
    exact single.keep running locked audit (by simp [quit]) fun destroyed => kept ▸ destroyed
  · cases written with
    | skip outside quit =>
      refine single.keep running locked same ?_ fun destroyed => destroyed
      rcases quit with quit | ⟨request, quit⟩ <;> simp [quit, triggered_created]
    | putBlob quit => exact single.keep running locked same (by simp [quit]) fun destroyed => destroyed
    | removeBlob => exact single.keep running locked same (by simp [owes]) fun destroyed => destroyed
    | insert absent outside quit =>
      refine single.keep running locked rfl ?_ fun destroyed => by simp [Store.state, absent] at destroyed
      rcases quit with quit | quit <;> simp [quit, triggered_created]
    | promote free executed promoted found =>
      refine single.keep running locked rfl (by simp [owes]) fun destroyed => ?_
      have ended : world.db.store.ended = true := by
        simp_all [Store.ended, Store.state, ShareState.terminal]
      rw [promotion_resurrects ended running executed promoted] at live
      cases live
    | upsert => exact single.keep running locked rfl (by simp [owes]) fun destroyed => destroyed
    | @increment request moved row updated free executed found counted outside quit =>
      have share := (find_eq_some.mp found).1
      have alive : world.db.store.state ≠ some .destroyed := by
        rcases (incrementDownload_some counted).1 with state | state <;> simp [Store.state, share, state]
      by_cases destroys : updated.state = .destroyed
      · refine single.flip running locked rfl ?_ alive (by simp [Database.apply, WriteSet.apply, Store.state, destroys])
        rcases quit with quit | quit <;> simp [quit, Bool.toNat_le]
      · refine single.keep running locked rfl ?_ fun destroyed => absurd destroyed alive
        rcases quit with quit | quit <;> simp [quit, triggered_downloaded request destroys]
    | @revoke request moved row free executed found outside quit =>
      obtain ⟨share, named⟩ := find_eq_some.mp found
      have alive : world.db.store.state ≠ some .destroyed := by
        simpa [revokesAgain, executed, running, share, named, Store.state] using first
      refine single.flip running locked rfl ?_ alive rfl
      rcases quit with quit | quit <;> simp [quit, Bool.toNat_le]
    | @append proc moved event owed outside quit =>
      refine single.keep running locked rfl ?_ fun destroyed => destroyed
      cases kind : triggered id event <;> simp [owed, quit, kind]
    | markLock => exact single.keep running locked same (by simp [owes]) fun destroyed => destroyed
    | sweepLock => exact single.keep running locked same (by simp [owes]) fun destroyed => destroyed
  · cases holds with
    | burned share ready =>
      refine single.flip running locked rfl ?_ (by simp [Store.state, share, ready]) rfl
      rw [quit]
      exact List.countP_le_length
    | marked share => exact single.keep running locked rfl (by simp [quit]) fun destroyed => destroyed
    | reaped share =>
      refine single.keep running locked rfl ?_ fun destroyed => rfl
      simp [quit, triggered_reaped]
    | _ => cases last

/-- The chain tells at most once what destroyed a share, if only no revocation comes late:
a download flips a live row only, and a revocation flips whatever row it finds. -/
theorem triggered_once (env : Env) (id : String) {store : Store} {events : List Event}
    (run : (system env).Run (fun world event => resurrects world event = false ∧ revokesAgain world event = false)
      (World.start store) events world)
    (untold : ∀ entry ∈ store.audit, triggered id entry = false) :
    world.db.store.audit.countP (triggered id) ≤ 1 := by
  have none : entries id (World.start store) = 0 := by
    simpa [entries, World.start, List.countP_eq_zero] using untold
  have single := run.invariant (Single id) ⟨locked_start _, by omega, fun _ => none⟩
    fun _ _ _ single permitted taken => step_single single permitted.1 permitted.2 taken
  exact Nat.le_trans (Nat.le_add_right _ _) single.once

/-- A reader burns the share before the other's report is counted, and a revocation is refused. -/
theorem triggered_once_raced : ∃ events world,
    (system sampleEnv).Run (fun world event => resurrects world event = false ∧ revokesAgain world event = false)
      (World.start sampleReady) events world ∧
    world.quiet ∧ 0 < world.db.store.audit.countP (triggered "8c1f0d6e") ∧
    world.db.store.audit.countP (triggered "8c1f0d6e") ≤ 1 := by
  have replayed : ((system sampleEnv).replay (fun world event => !resurrects world event && !revokesAgain world event)
      (World.start sampleReady)
      (.spawn (.get sampleGet) :: .spawn (.downloaded ⟨"abcdefghjkmn"⟩) :: steps 0 7 5 ++ steps 1 7 2 ++ steps 0 8 6 ++
        steps 1 9 1 ++ .spawn (.destroy sampleDestroy) :: steps 2 10 2)).any
      (fun world => world.quiet && decide (0 < world.db.store.audit.countP (triggered "8c1f0d6e"))) = true := by
    decide +kernel
  obtain ⟨world, run, passed⟩ := System.any_replay replayed
  obtain ⟨quiet, told⟩ := Bool.and_eq_true_iff.mp passed
  have run := run.mono fun world event permitted => by
    simpa only [Bool.and_eq_true, Bool.not_eq_true'] using permitted
  exact ⟨_, world, run, quiet, of_decide_eq_true told, triggered_once sampleEnv _ run (fun _ member => by cases member)⟩

/-- Two revocations compare the token before either of them writes, and both append. -/
theorem revoked_twice :
    ¬ ∀ (env : Env) (id : String) (store : Store) (events : List Event) (world : World),
      (system env).Run (fun _ _ => True) (World.start store) events world →
      (∀ entry ∈ store.audit, triggered id entry = false) → world.db.store.audit.countP (triggered id) ≤ 1 := by
  intro claimed
  have replayed : ((system sampleEnv).replay (fun _ _ => true) (World.start sampleReady)
      (.spawn (.destroy sampleDestroy) :: .spawn (.destroy sampleDestroy) :: steps 0 7 2 ++ steps 1 7 2 ++
        steps 0 8 2 ++ steps 1 9 2)).any
      (fun world => decide (world.db.store.audit.countP (triggered "8c1f0d6e") = 2)) = true := by
    decide +kernel
  obtain ⟨world, run, twice⟩ := System.any_replay replayed
  have once := claimed sampleEnv "8c1f0d6e" sampleReady _ world (run.mono fun _ _ _ => trivial)
    (fun _ member => by cases member)
  rw [of_decide_eq_true twice] at once
  exact absurd once (by decide)

end SlothBox.Proofs

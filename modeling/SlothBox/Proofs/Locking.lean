import SlothBox.Proofs.Statements

/-! The lock on the share row. Its holder is the only process inside a transaction, the
row cannot change under it, and what it will commit can be read off where it stands. So
every step either leaves the committed rows alone, or is one statement outside
transactions, or publishes one whole transaction. -/

namespace SlothBox.Proofs
open Library

/-- What the holder of the lock has written so far. -/
inductive Holds (store : Store) (now : Timestamp) : Proc → WriteSet → Prop where
  | stampChunk {request share row} (locked : store.share = some row) (named : row.id = share.id) :
      Holds store now (.get request (.mark share (.stampChunk row))) {}
  | countUnserved {request share row chunk} (locked : store.share = some row) (named : row.id = share.id) :
      Holds store now (.get request (.mark share (.countUnserved row))) { chunk := some chunk }
  | flip {request share row chunk} (locked : store.share = some row) (named : row.id = share.id) :
      Holds store now (.get request (.mark share (.flip row))) { chunk := some chunk }
  | appendBurned {request share row chunk} (locked : store.share = some row) (named : row.id = share.id)
      (ready : row.state = .ready) :
      Holds store now (.get request (.mark share (.append (burn now row))))
        { share := some (burn now row), chunk := some chunk }
  | burned {request share state row chunk} (locked : store.share = some row) (ready : row.state = .ready) :
      Holds store now (.get request (.mark share (.commit ⟨true, state⟩)))
        { share := some (burn now row), chunk := some chunk, events := [burnEvent row.id (burn now row)] }
  | marked {request share state row chunk} (locked : store.share = some row) :
      Holds store now (.get request (.mark share (.commit ⟨false, state⟩))) { chunk }
  | deleteChunks {row chunkCount} (locked : store.share = some row) :
      Holds store now (.sweep (.deleteChunks row (classifyReason row now) chunkCount)) {}
  | update {row chunkCount} (locked : store.share = some row) :
      Holds store now (.sweep (.update row (classifyReason row now) chunkCount)) { dropChunks := true }
  | rereadDestroyedAt {row chunkCount} (locked : store.share = some row) :
      Holds store now (.sweep (.rereadDestroyedAt row (classifyReason row now) chunkCount))
        { share := some (reapUpdate now (classifyReason row now) row), dropChunks := true }
  | appendReaped {row chunkCount} (locked : store.share = some row) :
      Holds store now
        (.sweep (.append (reapEvent row (classifyReason row now) (row.destroyedAt.or (some now)) chunkCount)))
        { share := some (reapUpdate now (classifyReason row now) row), dropChunks := true }
  | reaped {row chunkCount} (locked : store.share = some row) :
      Holds store now (.sweep .commit)
        { share := some (reapUpdate now (classifyReason row now) row), dropChunks := true
          events := [reapEvent row (classifyReason row now) (row.destroyedAt.or (some now)) chunkCount] }

/-- The next statement of the process is its COMMIT. -/
def committing : Proc → Bool
  | .get _ (.mark _ (.commit _)) | .sweep .commit => true
  | _ => false

theorem Holds.locked {store : Store} {now : Timestamp} {proc : Proc} {writes : WriteSet}
    (holds : Holds store now proc writes) : ∃ row, store.share = some row := by
  cases holds <;> exact ⟨_, ‹_›⟩

/-- Only the share row has to stay as it is. -/
theorem Holds.frame {before after : Store} {now : Timestamp} {proc : Proc} {writes : WriteSet}
    (holds : Holds before now proc writes) (same : after.share = before.share) : Holds after now proc writes := by
  cases holds with
  | stampChunk locked named => exact .stampChunk (same.trans locked) named
  | countUnserved locked named => exact .countUnserved (same.trans locked) named
  | flip locked named => exact .flip (same.trans locked) named
  | appendBurned locked named ready => exact .appendBurned (same.trans locked) named ready
  | burned locked ready => exact .burned (same.trans locked) ready
  | marked locked => exact .marked (same.trans locked)
  | deleteChunks locked => exact .deleteChunks (same.trans locked)
  | update locked => exact .update (same.trans locked)
  | rereadDestroyedAt locked => exact .rereadDestroyedAt (same.trans locked)
  | appendReaped locked => exact .appendReaped (same.trans locked)
  | reaped locked => exact .reaped (same.trans locked)

section Inside
variable {env : Env} {db : Database} {pid : Nat} {now clock : Timestamp} {outcome : Outcome} {writes : WriteSet}
  {proc moved : Proc} {effect : Effect}

/-- How a process goes on inside its transaction: with its writes still its own, or
rolled back, or committed. -/
def Continues (db : Database) (pid : Nat) (now : Timestamp) (writes : WriteSet) (proc moved : Proc)
    (effect : Effect) : Prop :=
  (inside moved ∧ ∃ more, db.apply pid effect = ⟨db.store, some ⟨pid, now, more⟩⟩ ∧ Holds db.store now moved more) ∨
  (inside moved = false ∧ owes moved = none ∧ db.apply pid effect = ⟨db.store, none⟩) ∨
  (inside moved = false ∧ owes moved = none ∧ committing proc ∧
    db.apply pid effect = ⟨writes.apply db.store, none⟩)

private theorem Continues.staged {more : WriteSet} (opened : db.tx = some ⟨pid, now, writes⟩) (further : inside moved)
    (holds : Holds db.store now moved (writes.merge more)) :
    Continues db pid now writes proc moved (.stage more) :=
  .inl ⟨further, _, by simp [Database.apply, opened], holds⟩

private theorem Continues.skipped (opened : db.tx = some ⟨pid, now, writes⟩) (further : inside moved)
    (holds : Holds db.store now moved writes) : Continues db pid now writes proc moved .skip :=
  .inl ⟨further, writes, by simp [Database.apply, ← opened], holds⟩

private theorem Continues.rolledBack (left : inside moved = false) (quit : owes moved = none) :
    Continues db pid now writes proc moved .rollback :=
  .inr (.inl ⟨left, quit, rfl⟩)

private theorem Continues.committed (opened : db.tx = some ⟨pid, now, writes⟩) (last : committing proc)
    (left : inside moved = false) (quit : owes moved = none) : Continues db pid now writes proc moved .commit :=
  .inr (.inr ⟨left, quit, last, by simp [Database.apply, Database.view, opened]⟩)

private theorem mark_continues {request : GetRequest} {share : ShareRow} {step : MarkStep}
    {after : MarkStep ⊕ Option MarkResult} (opened : db.tx = some ⟨pid, now, writes⟩)
    (holds : Holds db.store now (.get request (.mark share step)) writes)
    (call : step.exec db share.id request.chunkIndex.toNat clock outcome = some (after, effect)) :
    Continues db pid now writes (.get request (.mark share step))
      (.get request (after.elim (.mark share) (.done (.http 200 none) true))) effect := by
  have viewed : db.view = writes.apply db.store := by simp [Database.view, opened]
  cases holds with
  | stampChunk locked named =>
    cases mark_move call with
    | absent => exact .skipped opened rfl (.marked locked)
    | stamp found burns ready => exact .staged opened rfl (.countUnserved locked named)
    | stampOnly found => exact .staged opened rfl (.marked locked)
    | rollback => exact .rolledBack rfl rfl
  | countUnserved locked named =>
    cases mark_move call with
    | allServed => exact .skipped opened rfl (.flip locked named)
    | someUnserved => exact .skipped opened rfl (.marked locked)
    | rollback => exact .rolledBack rfl rfl
  | @flip _ _ row chunk locked named =>
    cases mark_move call with
    | flip found ready =>
      obtain ⟨same, -⟩ := findById_eq_some.mp found
      obtain rfl : row = _ := by simpa [viewed, WriteSet.apply, locked] using same
      rw [opened]
      exact .staged opened rfl (.appendBurned locked named ready)
    | flipNothing => exact .skipped opened rfl (.marked locked)
    | rollback => exact .rolledBack rfl rfl
  | appendBurned locked named ready =>
    cases mark_move call with
    | append => exact .staged opened rfl (named ▸ .burned locked ready)
    | rollback => exact .rolledBack rfl rfl
  | burned locked ready =>
    cases mark_move call with
    | commit => exact .committed opened rfl rfl rfl
    | rollback => exact .rolledBack rfl rfl
  | marked locked =>
    cases mark_move call with
    | commit => exact .committed opened rfl rfl rfl
    | rollback => exact .rolledBack rfl rfl

private theorem sweep_continues {step after : SweepStep} (opened : db.tx = some ⟨pid, now, writes⟩)
    (holds : Holds db.store now (.sweep step) writes) (call : step.exec db clock outcome = some (after, effect)) :
    Continues db pid now writes (.sweep step) (.sweep after) effect := by
  have viewed : db.view = writes.apply db.store := by simp [Database.view, opened]
  cases holds with
  | deleteChunks locked =>
    cases sweep_move call with
    | deleteChunks => exact .staged opened rfl (.update locked)
    | fail outside => cases outside
    | rollback => exact .rolledBack rfl rfl
  | @update row chunkCount locked =>
    have found : db.view.findById row.id = some row :=
      findById_eq_some.mpr ⟨by simpa [viewed, WriteSet.apply] using locked, rfl⟩
    cases sweep_move call with
    | update again =>
      obtain rfl := Option.some.inj (found.symm.trans again)
      rw [opened]
      exact .staged opened rfl (.rereadDestroyedAt locked)
    | updateNothing absent => exact absurd (found.symm.trans absent) (by simp)
    | fail outside => cases outside
    | rollback => exact .rolledBack rfl rfl
  | @rereadDestroyedAt row chunkCount locked =>
    have found : db.view.findById row.id = some (reapUpdate now (classifyReason row now) row) :=
      findById_eq_some.mpr ⟨by simp [viewed, WriteSet.apply], rfl⟩
    cases sweep_move call with
    | rereadDestroyedAt again =>
      obtain rfl := Option.some.inj (found.symm.trans again)
      exact .skipped opened rfl (.appendReaped locked)
    | fail outside => cases outside
    | rollback => exact .rolledBack rfl rfl
  | appendReaped locked =>
    cases sweep_move call with
    | append => exact .staged opened rfl (.reaped locked)
    | fail outside => cases outside
    | rollback => exact .rolledBack rfl rfl
  | reaped locked =>
    cases sweep_move call with
    | commit => exact .committed opened rfl rfl rfl
    | commitLost => exact .committed opened rfl rfl rfl
    | fail outside => cases outside
    | rollback => exact .rolledBack rfl rfl

theorem holds_exec (opened : db.tx = some ⟨pid, now, writes⟩) (holds : Holds db.store now proc writes)
    (executed : proc.exec env db clock outcome = some (moved, effect)) :
    Continues db pid now writes proc moved effect := by
  cases proc with
  | get request step =>
    obtain ⟨after, call, rfl⟩ := handler_exec executed
    cases step with
    | mark share step =>
      obtain ⟨⟨result, written⟩, marks, same⟩ := Option.map_eq_some_iff.mp call
      cases result with
      | inl next =>
        obtain ⟨rfl, rfl⟩ := Prod.mk.inj same
        exact mark_continues opened holds marks
      | inr marked =>
        obtain ⟨rfl, rfl⟩ := Prod.mk.inj same
        exact mark_continues opened holds marks
    | _ => cases holds
  | sweep step =>
    obtain ⟨after, call, rfl⟩ := handler_exec executed
    exact sweep_continues opened holds call
  | _ => cases holds

end Inside

/-! ### The invariant -/

/-- Whoever is inside a transaction holds the lock, and the lock is held from inside. -/
structure Locked (world : World) : Prop where
  held : ∀ pid proc, world.procs[pid]? = some proc → inside proc →
    ∃ now writes, world.db.tx = some ⟨pid, now, writes⟩ ∧ Holds world.db.store now proc writes
  holder : ∀ tx, world.db.tx = some tx → ∃ proc, world.procs[tx.owner]? = some proc ∧ inside proc

theorem locked_start (store : Store) : Locked (World.start store) :=
  ⟨fun _ _ running => by simp [World.start] at running, fun _ opened => by cases opened⟩

/-- Nobody else is inside while the lock is free or taken here. -/
theorem Locked.alone {world : World} (locked : Locked world) {pid other : Nat} {proc : Proc}
    (mine : ∀ tx, world.db.tx = some tx → tx.owner = pid) (running : world.procs[other]? = some proc)
    (within : inside proc) : other = pid := by
  obtain ⟨now, writes, opened, -⟩ := locked.held other proc running within
  exact mine _ opened

/-- A step of one process. The others either see the share row and the lock as before, or
are not inside. -/
theorem Locked.replace {world : World} {db : Database} {pid : Nat} {proc moved : Proc} (locked : Locked world)
    (running : world.procs[pid]? = some proc)
    (own : inside moved → ∃ now writes, db.tx = some ⟨pid, now, writes⟩ ∧ Holds db.store now moved writes)
    (holder : ∀ tx, db.tx = some tx → tx.owner = pid ∧ inside moved ∨ world.db.tx = some tx ∧ tx.owner ≠ pid)
    (others : (∀ tx, world.db.tx = some tx → tx.owner = pid) ∨
      db.tx = world.db.tx ∧ db.store.share = world.db.store.share) :
    Locked ⟨db, world.procs.set pid moved⟩ := by
  have present : pid < world.procs.length := (List.getElem?_eq_some_iff.mp running).1
  constructor
  · intro other held found within
    by_cases same : other = pid
    · subst same
      rw [List.getElem?_set_self present] at found
      cases found
      exact own within
    · rw [List.getElem?_set_ne (Ne.symm same)] at found
      rcases others with mine | ⟨tx, share⟩
      · exact absurd (locked.alone mine found within) same
      · obtain ⟨now, writes, opened, holds⟩ := locked.held other held found within
        exact ⟨now, writes, tx.trans opened, holds.frame share⟩
  · intro tx opened
    rcases holder tx opened with ⟨owner, within⟩ | ⟨before, elsewhere⟩
    · exact ⟨moved, by rw [owner, List.getElem?_set_self present], within⟩
    · obtain ⟨held, found, within⟩ := locked.holder tx before
      exact ⟨held, by rw [List.getElem?_set_ne (Ne.symm elsewhere)]; exact found, within⟩

/-- Statements outside transactions neither end nor change one, and find its row in place. -/
theorem writes_frame {env : Env} {db : Database} {pid : Nat} {clock : Timestamp} {outcome : Outcome}
    {proc moved : Proc} {effect : Effect} (written : Writes env db clock outcome proc moved effect) :
    (inside moved = false ∧ (db.apply pid effect).tx = db.tx ∧
      (db.tx = none ∨ db.store.share = none ∨ (db.apply pid effect).store.share = db.store.share)) ∨
    (db.tx = none ∧ inside moved ∧ ∃ now writes, (db.apply pid effect) = ⟨db.store, some ⟨pid, now, writes⟩⟩ ∧
      Holds db.store now moved writes) := by
  cases written with
  | skip outside => exact .inl ⟨outside, rfl, .inr (.inr rfl)⟩
  | putBlob quit outside => exact .inl ⟨outside, rfl, .inr (.inr rfl)⟩
  | removeBlob outside => exact .inl ⟨outside, rfl, .inr (.inr rfl)⟩
  | insert absent outside => exact .inl ⟨outside, rfl, .inr (.inl absent)⟩
  | promote free => exact .inl ⟨rfl, rfl, .inl free⟩
  | upsert => exact .inl ⟨rfl, rfl, .inr (.inr rfl)⟩
  | increment free _ _ _ outside => exact .inl ⟨outside, rfl, .inl free⟩
  | revoke free _ _ outside => exact .inl ⟨outside, rfl, .inl free⟩
  | append _ outside => exact .inl ⟨outside, rfl, .inr (.inr rfl)⟩
  | markLock free found =>
    obtain ⟨locked, named⟩ := findById_eq_some.mp found
    exact .inr ⟨free, rfl, clock, {}, rfl, .stampChunk locked named⟩
  | sweepLock _ free found => exact .inr ⟨free, rfl, clock, {}, rfl, .deleteChunks (findById_eq_some.mp found).1⟩

section Step
variable {env : Env} {world next : World} {event : Event}

theorem locked_step (locked : Locked world) (taken : (system env).step world event = some next) : Locked next := by
  rcases step_cases taken with ⟨request, rfl, rfl⟩ |
    ⟨pid, clock, outcome, proc, moved, effect, rfl, running, executed, rfl⟩ | ⟨pid, proc, rfl, running, rfl⟩
  · constructor
    · intro pid proc found within
      rcases getElem?_concat_cases found with old | ⟨-, rfl⟩
      · exact locked.held pid proc old within
      · cases request <;> cases within
    · intro tx opened
      obtain ⟨proc, found, within⟩ := locked.holder tx opened
      have present := (List.getElem?_eq_some_iff.mp found).1
      exact ⟨proc, by rw [List.getElem?_append_left present]; exact found, within⟩
  · cases place : inside proc with
    | false =>
      have elsewhere : ∀ tx, world.db.tx = some tx → tx.owner ≠ pid := by
        intro tx opened same
        obtain ⟨held, found, within⟩ := locked.holder tx opened
        rw [same, running] at found
        cases found
        simp [place] at within
      rcases writes_frame (exec_writes place executed) with ⟨outside, tx, share⟩ | ⟨free, within, now, writes, after, holds⟩
      · refine locked.replace running (fun within => by simp [outside] at within) ?_ ?_
        · intro held opened
          rw [tx] at opened
          exact .inr ⟨opened, elsewhere held opened⟩
        · rcases share with free | absent | same
          · exact .inl fun tx opened => by simp [free] at opened
          · refine .inl fun tx opened => ?_
            obtain ⟨held, found, within⟩ := locked.holder tx opened
            obtain ⟨_, _, _, holds⟩ := locked.held _ _ found within
            obtain ⟨row, locked⟩ := holds.locked
            simp [absent] at locked
          · exact .inr ⟨tx, same⟩
      · rw [after]
        refine locked.replace running (fun _ => ⟨now, writes, rfl, holds⟩) ?_ ?_
        · intro tx opened
          cases opened
          exact .inl ⟨rfl, within⟩
        · exact .inl fun tx opened => by simp [free] at opened
    | true =>
      obtain ⟨now, writes, opened, holds⟩ := locked.held pid proc running place
      have mine : ∀ tx, world.db.tx = some tx → tx.owner = pid := by
        intro tx again
        cases opened.symm.trans again
        rfl
      rcases holds_exec opened holds executed with ⟨within, more, after, holds⟩ | ⟨left, -, after⟩ | ⟨left, -, -, after⟩
      · rw [after]
        refine locked.replace running (fun _ => ⟨now, more, rfl, holds⟩) (fun tx again => ?_) (.inl mine)
        cases again
        exact .inl ⟨rfl, within⟩
      · rw [after]
        exact locked.replace running (fun within => by simp [left] at within) (fun _ opened => by cases opened) (.inl mine)
      · rw [after]
        exact locked.replace running (fun within => by simp [left] at within) (fun _ opened => by cases opened) (.inl mine)
  · unfold Database.disconnect
    split
    next mine =>
      refine locked.replace running (fun within => by cases within) (fun _ opened => by cases opened)
        (.inl fun tx opened => ?_)
      simpa [opened] using mine
    next other =>
      refine locked.replace running (fun within => by cases within) (fun tx opened => .inr ⟨opened, ?_⟩) (.inr ⟨rfl, rfl⟩)
      simpa [opened] using other

theorem locked_reached {env : Env} {allowed : World → Event → Prop} {store : Store} {events : List Event} {world : World}
    (run : (system env).Run allowed (World.start store) events world) : Locked world :=
  run.invariant Locked (locked_start _) fun _ _ _ locked _ taken => locked_step locked taken

/-- What a step commits: nothing, one statement, or one transaction. -/
theorem commit_cases (locked : Locked world) (taken : (system env).step world event = some next) :
    (next.db.store = world.db.store ∧
      ((∃ request, event = .spawn request ∧ next.procs = world.procs ++ [request.start]) ∨
        ∃ pid proc moved, world.procs[pid]? = some proc ∧ owes moved = none ∧ next.procs = world.procs.set pid moved)) ∨
    (∃ pid clock outcome proc moved effect, event = .exec pid clock outcome ∧ world.procs[pid]? = some proc ∧
      Writes env world.db clock outcome proc moved effect ∧
      next = ⟨world.db.apply pid effect, world.procs.set pid moved⟩) ∨
    (∃ pid clock outcome proc moved now writes, event = .exec pid clock outcome ∧ world.procs[pid]? = some proc ∧
      world.db.tx = some ⟨pid, now, writes⟩ ∧ committing proc ∧ Holds world.db.store now proc writes ∧ owes moved = none ∧
      next = ⟨⟨writes.apply world.db.store, none⟩, world.procs.set pid moved⟩) := by
  rcases step_cases taken with ⟨request, rfl, rfl⟩ |
    ⟨pid, clock, outcome, proc, moved, effect, rfl, running, executed, rfl⟩ | ⟨pid, proc, rfl, running, rfl⟩
  · exact .inl ⟨rfl, .inl ⟨request, rfl, rfl⟩⟩
  · cases place : inside proc with
    | false => exact .inr (.inl ⟨pid, clock, outcome, proc, moved, effect, rfl, running, exec_writes place executed, rfl⟩)
    | true =>
      obtain ⟨now, writes, opened, holds⟩ := locked.held pid proc running place
      rcases holds_exec opened holds executed with ⟨within, more, after, -⟩ | ⟨-, quit, after⟩ | ⟨-, quit, last, after⟩
      · have quit : owes moved = none := by
          cases moved with
          | get => rfl
          | sweep => rfl
          | _ => cases within
        exact .inl ⟨by rw [after], .inr ⟨pid, proc, moved, running, quit, rfl⟩⟩
      · exact .inl ⟨by rw [after], .inr ⟨pid, proc, moved, running, quit, rfl⟩⟩
      · exact .inr (.inr ⟨pid, clock, outcome, proc, moved, now, writes, rfl, running, opened, last, holds, quit, by rw [after]⟩)
  · refine .inl ⟨?_, .inr ⟨pid, proc, .crashed, running, rfl, rfl⟩⟩
    unfold Database.disconnect
    split <;> rfl

end Step

/-! ### Who rewrites the share row -/

/-- A committed change of the share row, with the entries committed along with it. -/
inductive Rewrites (world : World) : Event → Option ShareRow → ShareRow → List AuditEvent → Prop where
  | insert {pid clock outcome request} (running : world.procs[pid]? = some (.create request .insert))
      (executed : takesEffect outcome) (valid : (request.row clock).checks ∧ (request.row clock).fits) :
      Rewrites world (.exec pid clock outcome) none (request.row clock) []
  | promote {pid clock outcome request step plan state row} (running : world.procs[pid]? = some (.put request step))
      (executed : takesEffect outcome) (promoted : promotion step = some (plan, state)) :
      Rewrites world (.exec pid clock outcome) (some row) { row with state } []
  | increment {pid clock outcome request row updated}
      (running : world.procs[pid]? = some (.downloaded request .increment)) (executed : takesEffect outcome)
      (named : row.shortId = request.shortId) (counted : incrementDownload clock row = some updated) :
      Rewrites world (.exec pid clock outcome) (some row) updated []
  | revoke {pid clock outcome request row} (running : world.procs[pid]? = some (.destroy request .update))
      (executed : takesEffect outcome) (named : row.shortId = request.shortId) :
      Rewrites world (.exec pid clock outcome) (some row) (revoke clock row) []
  | burn {pid clock outcome request share state row now} (ready : row.state = .ready)
      (running : world.procs[pid]? = some (.get request (.mark share (.commit ⟨true, state⟩)))) :
      Rewrites world (.exec pid clock outcome) (some row) (burn now row) [burnEvent row.id (burn now row)]
  | reap {pid clock outcome row now chunkCount} (running : world.procs[pid]? = some (.sweep .commit)) :
      Rewrites world (.exec pid clock outcome) (some row) (reapUpdate now (classifyReason row now) row)
        [reapEvent row (classifyReason row now) (row.destroyedAt.or (some now)) chunkCount]

theorem rewrite_cases {env : Env} {world next : World} {event : Event} (locked : Locked world)
    (taken : (system env).step world event = some next) :
    (next.db.store.share = world.db.store.share ∧ world.db.store.audit <+: next.db.store.audit) ∨
    ∃ new events, next.db.store.share = some new ∧ next.db.store.audit = world.db.store.audit ++ events ∧
      Rewrites world event world.db.store.share new events := by
  rcases commit_cases locked taken with ⟨same, -⟩ | ⟨pid, clock, outcome, proc, moved, effect, rfl, running, written, rfl⟩ |
    ⟨pid, clock, outcome, proc, moved, now, writes, rfl, running, -, last, holds, -, rfl⟩
  · rw [same]
    exact .inl ⟨rfl, List.prefix_rfl⟩
  · cases written with
    | skip => exact .inl ⟨rfl, List.prefix_rfl⟩
    | putBlob => exact .inl ⟨rfl, List.prefix_rfl⟩
    | removeBlob => exact .inl ⟨rfl, List.prefix_rfl⟩
    | insert absent _ _ executed valid =>
      rw [absent]
      exact .inr ⟨_, [], rfl, rfl, .insert running executed valid⟩
    | promote free executed promoted found =>
      rw [found]
      exact .inr ⟨_, [], rfl, rfl, .promote running executed promoted⟩
    | upsert => exact .inl ⟨rfl, List.prefix_append _ _⟩
    | increment free executed found counted =>
      obtain ⟨share, named⟩ := find_eq_some.mp found
      rw [share]
      exact .inr ⟨_, [], rfl, rfl, .increment running executed named counted⟩
    | revoke free executed found =>
      obtain ⟨share, named⟩ := find_eq_some.mp found
      rw [share]
      exact .inr ⟨_, [], rfl, rfl, .revoke running executed named⟩
    | append => exact .inl ⟨rfl, List.prefix_append _ _⟩
    | markLock => exact .inl ⟨rfl, List.prefix_rfl⟩
    | sweepLock => exact .inl ⟨rfl, List.prefix_rfl⟩
  · cases holds with
    | burned share ready =>
      rw [share]
      exact .inr ⟨_, _, rfl, rfl, .burn ready running⟩
    | marked share => exact .inl ⟨rfl, List.prefix_append _ _⟩
    | reaped share =>
      rw [share]
      exact .inr ⟨_, _, rfl, rfl, .reap running⟩
    | _ => cases last

theorem promotion_state {step : PutStep} {plan : PutPlan} {state : ShareState}
    (promoted : promotion step = some (plan, state)) : state = .uploading ∨ state = .ready := by
  cases step <;> cases promoted
  · exact .inl rfl
  · exact .inr rfl

/-- `increment_download` touches live rows only, and destroys only to burn. -/
theorem incrementDownload_some {now : Timestamp} {row updated : ShareRow}
    (counted : incrementDownload now row = some updated) :
    (row.state = .ready ∨ row.state = .downloaded) ∧ updated.id = row.id ∧
      (row.burnAfterRead ∧ updated.state = .destroyed ∧ updated.destroyedAt = some now ∨
        updated.state = .expired ∨ updated.state = row.state) := by
  unfold incrementDownload at counted
  split at counted
  next live =>
    cases counted
    refine ⟨live.1, rfl, ?_⟩
    dsimp only
    split
    next burns => exact .inl ⟨burns, rfl, rfl⟩
    next =>
      split
      · exact .inr (.inl rfl)
      · exact .inr (.inr rfl)
  next => cases counted

theorem incrementDownload_ended {now : Timestamp} {row : ShareRow} (ended : row.state.terminal) :
    incrementDownload now row = none := by
  by_contra counts
  obtain ⟨updated, counted⟩ := Option.ne_none_iff_exists'.mp counts
  rcases (incrementDownload_some counted).1 with live | live <;> simp [live, ShareState.terminal] at ended

/-! ### What no statement changes -/

/-- The same share: only its state, its count and the record of its end may differ. -/
def SameTerms (old new : ShareRow) : Prop :=
  ∃ state downloadCount destroyedAt destroyedReason,
    new = { old with state, downloadCount, destroyedAt, destroyedReason }

theorem SameTerms.refl (row : ShareRow) : SameTerms row row := ⟨_, _, _, _, rfl⟩

theorem SameTerms.trans {first second third : ShareRow} (one : SameTerms first second) (two : SameTerms second third) :
    SameTerms first third := by
  obtain ⟨_, _, _, _, rfl⟩ := one
  obtain ⟨_, _, _, _, rfl⟩ := two
  exact ⟨_, _, _, _, rfl⟩

section Terms
variable {old new : ShareRow} (same : SameTerms old new)
include same

theorem SameTerms.shortId : new.shortId = old.shortId := by obtain ⟨_, _, _, _, rfl⟩ := same; rfl

theorem SameTerms.burnAfterRead : new.burnAfterRead = old.burnAfterRead := by obtain ⟨_, _, _, _, rfl⟩ := same; rfl

theorem SameTerms.maxDownloads : new.maxDownloads = old.maxDownloads := by obtain ⟨_, _, _, _, rfl⟩ := same; rfl

end Terms

theorem incrementDownload_terms {now : Timestamp} {row updated : ShareRow}
    (counted : incrementDownload now row = some updated) : SameTerms row updated := by
  unfold incrementDownload at counted
  split at counted
  · cases counted
    exact ⟨_, _, _, _, rfl⟩
  · cases counted

theorem Rewrites.sameTerms {world : World} {event : Event} {row new : ShareRow} {events : List AuditEvent}
    (rewrites : Rewrites world event (some row) new events) : SameTerms row new := by
  cases rewrites with
  | promote => exact ⟨_, _, _, _, rfl⟩
  | increment _ _ _ counted => exact incrementDownload_terms counted
  | revoke => exact ⟨_, _, _, _, rfl⟩
  | burn => exact ⟨_, _, _, _, rfl⟩
  | reap => exact ⟨_, _, _, _, rfl⟩

theorem step_terms {env : Env} {world next : World} {event : Event} {row : ShareRow} (locked : Locked world)
    (taken : (system env).step world event = some next) (share : world.db.store.share = some row) :
    ∃ new, next.db.store.share = some new ∧ SameTerms row new := by
  rcases rewrite_cases locked taken with ⟨same, -⟩ | ⟨new, events, stored, -, rewrites⟩
  · exact ⟨row, same.trans share, .refl row⟩
  · rw [share] at rewrites
    exact ⟨new, stored, rewrites.sameTerms⟩

/-- A share stays in its table under its terms. -/
theorem run_terms {env : Env} {allowed : World → Event → Prop} {start final : World} {events : List Event}
    {row : ShareRow} (locked : Locked start) (run : (system env).Run allowed start events final)
    (share : start.db.store.share = some row) : ∃ new, final.db.store.share = some new ∧ SameTerms row new := by
  have kept := run.invariant (fun world => Locked world ∧ ∃ new, world.db.store.share = some new ∧ SameTerms row new)
    ⟨locked, row, share, .refl row⟩ fun state _ next kept _ taken => by
      obtain ⟨locked, current, share, same⟩ := kept
      obtain ⟨new, stored, further⟩ := step_terms locked taken share
      exact ⟨locked_step locked taken, new, stored, same.trans further⟩
  exact kept.2

/-! ### Who burns -/

/-- `mark_chunk_served` has found a share that burns. -/
def flipping : Proc → Bool
  | .get _ (.mark _ (.countUnserved _)) | .get _ (.mark _ (.flip _)) | .get _ (.mark _ (.append _))
  | .get _ (.mark _ (.commit ⟨true, _⟩)) => true
  | _ => false

/-- Only a share that burns after reading is on its way to be burned. -/
def Burnable (world : World) : Prop :=
  ∀ proc ∈ world.procs, flipping proc → ∃ row, world.db.store.share = some row ∧ row.burnAfterRead

private theorem mark_flipping {db : Database} {request : GetRequest} {share : ShareRow} {step : MarkStep} {clock now : Timestamp}
    {outcome : Outcome} {after : MarkStep ⊕ Option MarkResult} {effect : Effect} {writes : WriteSet}
    (holds : step ≠ .lockShare → Holds db.store now (.get request (.mark share step)) writes)
    (call : step.exec db share.id request.chunkIndex.toNat clock outcome = some (after, effect))
    (burns : flipping (.get request (after.elim (.mark share) (.done (.http 200 none) true)))) :
    flipping (.get request (.mark share step)) ∨ ∃ row, db.store.share = some row ∧ row.burnAfterRead := by
  cases mark_move call with
  | stamp found burnAfterRead ready =>
    cases holds nofun with
    | stampChunk locked named => exact .inr ⟨_, locked, burnAfterRead⟩
  | allServed => exact .inl rfl
  | flip => exact .inl rfl
  | append => exact .inl rfl
  | _ => cases burns

theorem exec_flipping {env : Env} {world : World} {pid : Nat} {clock : Timestamp} {outcome : Outcome} {proc moved : Proc}
    {effect : Effect} (locked : Locked world) (running : world.procs[pid]? = some proc)
    (executed : proc.exec env world.db clock outcome = some (moved, effect)) (burns : flipping moved) :
    flipping proc ∨ ∃ row, world.db.store.share = some row ∧ row.burnAfterRead := by
  cases proc with
  | get request step =>
    obtain ⟨after, call, rfl⟩ := handler_exec executed
    rcases get_cases call with ⟨-, reply, rfl⟩ | ⟨-, -, rfl⟩ | ⟨share, -, -, -, -, -, -, -, rfl⟩ |
      ⟨share, chunk, -, -, -, -, rfl⟩ | ⟨share, chunk, -, -, rfl⟩ | ⟨share, chunk, -, -, rfl⟩ |
      ⟨share, inner, marked, rfl, called, rfl⟩
    · cases burns
    · cases burns
    · cases burns
    · cases burns
    · cases burns
    · cases burns
    · by_cases first : inner = .lockShare
      · subst first
        cases mark_move called <;> cases burns
      · obtain ⟨now, writes, -, holds⟩ := locked.held pid _ running (by cases inner <;> first | rfl | exact absurd rfl first)
        exact mark_flipping (fun _ => holds) called burns
  | crashed => cases executed
  | _ =>
    obtain ⟨after, -, rfl⟩ := handler_exec executed
    cases burns

theorem burnable_step {env : Env} {world next : World} {event : Event} (locked : Locked world) (burnable : Burnable world)
    (taken : (system env).step world event = some next) : Burnable next := by
  have kept : (∃ row, world.db.store.share = some row ∧ row.burnAfterRead) →
      ∃ row, next.db.store.share = some row ∧ row.burnAfterRead := by
    rintro ⟨row, share, burns⟩
    obtain ⟨new, stored, _, _, _, _, rfl⟩ := step_terms locked taken share
    exact ⟨_, stored, burns⟩
  intro proc member burns
  refine kept ?_
  rcases proc_origin taken member with old | ⟨request, -, rfl⟩ | ⟨pid, clock, outcome, mover, effect, -, running, executed⟩ |
    rfl
  · exact burnable proc old burns
  · cases request <;> cases burns
  · rcases exec_flipping locked running executed burns with before | found
    · exact burnable mover (List.mem_of_getElem? running) before
    · exact found
  · cases burns

end SlothBox.Proofs

import SlothBox.Migrate

/-! Between a file's own `COMMIT`, which ends the runner's transaction, and the row in
`_migrations` the database has the file's statements and does not know it. There alone
a run must not be lost. -/

namespace SlothBox.Proofs
open Library

/-! ### The database -/

def executed? (name : String) : MigrationEffect → Option String
  | .executed file sql => if file = name then some sql else none
  | .recorded _ => none

/-- The statements of a file that have been committed, each as often as it has been. -/
def executedOf (name : String) (log : List MigrationEffect) : List String := log.filterMap (executed? name)

/-- All of a file or nothing of it, as `_migrations` says. -/
structure AllOrNothing (file : MigrationFile) (log : List MigrationEffect) : Prop where
  all : .recorded file.name ∈ log → executedOf file.name log = file.statements
  nothing : .recorded file.name ∉ log → executedOf file.name log = []

/-- The runner's promise: a file's name is recorded exactly if its statements have been
committed, and then once. -/
def Atomic (migrations : Migrations) (log : List MigrationEffect) : Prop :=
  ∀ file ∈ migrations.files, AllOrNothing file log

/-- The effects of one file. -/
def OfFile (name : String) : MigrationEffect → Prop
  | .executed file _ => file = name
  | .recorded file => file = name

@[simp] theorem executedOf_append (name : String) (log more : List MigrationEffect) :
    executedOf name (log ++ more) = executedOf name log ++ executedOf name more := by
  simp [executedOf]

@[simp] theorem executedOf_recorded (name file : String) : executedOf name [.recorded file] = [] := rfl

@[simp] theorem executedOf_own (name : String) (statements : List String) :
    executedOf name (statements.map (.executed name)) = statements := by
  simp [executedOf, executed?, List.filterMap_map, Function.comp_def]

/-- What is done for one file says nothing of another. -/
theorem AllOrNothing.of_others {file : MigrationFile} {name : String} {log more : List MigrationEffect}
    (held : AllOrNothing file log) (other : file.name ≠ name) (own : ∀ effect ∈ more, OfFile name effect) :
    (MigrationEffect.recorded file.name ∈ log ++ more ↔ .recorded file.name ∈ log) ∧
      AllOrNothing file (log ++ more) := by
  have unrecorded : MigrationEffect.recorded file.name ∉ more := fun inside => other (own _ inside)
  have none : executedOf file.name more = [] := by
    apply List.filterMap_eq_nil_iff.mpr
    intro effect inside
    have own := own effect inside
    cases effect with
    | executed from' sql =>
      have apart : ¬from' = file.name := fun same => other (same.symm.trans own)
      exact if_neg apart
    | recorded from' => rfl
  have same : MigrationEffect.recorded file.name ∈ log ++ more ↔ .recorded file.name ∈ log := by
    rw [List.mem_append, or_iff_left unrecorded]
  refine ⟨same, ?_, ?_⟩
  · intro recorded
    rw [executedOf_append, none, List.append_nil]
    exact held.all (same.mp recorded)
  · intro recorded
    rw [executedOf_append, none, List.append_nil]
    exact held.nothing fun before => recorded (same.mpr before)

theorem mem_recorded? {log : List MigrationEffect} {name : String} :
    name ∈ log.filterMap MigrationEffect.recorded? ↔ .recorded name ∈ log := by
  rw [List.mem_filterMap]
  constructor
  · rintro ⟨effect, inside, same⟩
    cases effect with
    | executed file sql => cases same
    | recorded file =>
      cases same
      exact inside
  · exact fun inside => ⟨_, inside, rfl⟩

/-! ### One file -/

/-- The operations behind the statements of a file. -/
def ending (file : MigrationFile) : List MigrateOp :=
  if file.ownTransaction then [.commit, .insert, .commit] else [.insert, .commit]

/-- Nothing of a file is in the database. -/
structure Unapplied (file : MigrationFile) (log : List MigrationEffect) : Prop where
  unrecorded : .recorded file.name ∉ log
  unexecuted : executedOf file.name log = []

/-- Where the application of a file can stand. -/
inductive Applying (file : MigrationFile) : Connection MigrationEffect → List MigrateOp → Prop where
  | waiting {committed} (unapplied : Unapplied file committed) : Applying file ⟨committed, none⟩ file.application
  | opened {committed} (unapplied : Unapplied file committed) (own : file.ownTransaction) :
      Applying file ⟨committed, some []⟩ (file.script ++ [.insert, .commit])
  | executing {committed} (unapplied : Unapplied file committed) (done todo : List String)
      (split : done ++ todo = file.statements) :
      Applying file ⟨committed, some (done.map (.executed file.name))⟩ (todo.map .statement ++ ending file)
  /-- The file's own `COMMIT` has ended the runner's transaction. -/
  | gap {committed} (own : file.ownTransaction) (unrecorded : .recorded file.name ∉ committed)
      (executed : executedOf file.name committed = file.statements) :
      Applying file ⟨committed, none⟩ [.insert, .commit]
  | inserted {committed} (unapplied : Unapplied file committed) :
      Applying file ⟨committed, some (file.statements.map (.executed file.name) ++ [.recorded file.name])⟩ [.commit]
  | finishing {committed ops} (recorded : .recorded file.name ∈ committed)
      (executed : executedOf file.name committed = file.statements) (last : ops = [.commit] ∨ ops = []) :
      Applying file ⟨committed, none⟩ ops

theorem Unapplied.publish {file : MigrationFile} {committed : List MigrationEffect} (unapplied : Unapplied file committed) :
    executedOf file.name (committed ++ file.statements.map (.executed file.name)) = file.statements := by
  simp [unapplied.unexecuted]

theorem Applying.perform {file : MigrationFile} {connection next : Connection MigrationEffect} {op : MigrateOp}
    {ops : List MigrateOp} (applying : Applying file connection (op :: ops))
    (performed : file.perform? connection op = some next) : Applying file next ops := by
  generalize all : op :: ops = todo at applying
  cases applying with
  | waiting unapplied =>
    cases all
    cases performed
    unfold MigrationFile.script
    cases own : file.ownTransaction with
    | true =>
      have opened := Applying.opened unapplied own
      rwa [MigrationFile.script, own] at opened
    | false =>
      have executing := Applying.executing unapplied [] file.statements rfl
      rwa [ending, own] at executing
  | opened unapplied own =>
    rw [MigrationFile.script, if_pos own] at all
    cases all
    cases performed
    have executing := Applying.executing unapplied [] file.statements rfl
    rw [ending, if_pos own] at executing
    simpa [Connection.begin] using executing
  | executing unapplied done todo split =>
    cases todo with
    | cons sql todo =>
      cases all
      cases performed
      have executing := Applying.executing unapplied (done ++ [sql]) todo (by simpa using split)
      rwa [List.map_append] at executing
    | nil =>
      rw [List.append_nil] at split
      subst split
      unfold ending at all
      split at all
      next own =>
        cases all
        cases performed
        exact .gap own (by simpa using unapplied.unrecorded) unapplied.publish
      next own =>
        cases all
        simp only [MigrationFile.perform?] at performed
        split at performed
        · cases performed
        · cases performed
          exact .inserted unapplied
  | gap own unrecorded executed =>
    cases all
    simp only [MigrationFile.perform?] at performed
    split at performed
    · cases performed
    · cases performed
      exact .finishing (by simp) (by simpa using executed) (.inl rfl)
  | inserted unapplied =>
    cases all
    cases performed
    refine .finishing (by simp) ?_ (.inr rfl)
    rw [Option.getD_some, ← List.append_assoc, executedOf_append, unapplied.publish, executedOf_recorded, List.append_nil]
  | finishing recorded executed last =>
    rcases last with rfl | rfl
    · cases all
      cases performed
      exact .finishing (by simpa using recorded) (by simpa using executed) (.inr rfl)
    · cases all

/-- An application with nothing left to do has recorded its file. -/
theorem Applying.finished {file : MigrationFile} {connection : Connection MigrationEffect}
    (applying : Applying file connection []) : .recorded file.name ∈ connection.committed ∧
      executedOf file.name connection.committed = file.statements ∧ connection.pending = none := by
  generalize last : ([] : List MigrateOp) = ops at applying
  cases applying with
  | finishing recorded executed => exact ⟨recorded, executed, rfl⟩
  | executing unapplied done todo =>
    unfold ending at last
    split at last <;> simp at last
  | waiting => simp [MigrationFile.application] at last
  | opened | gap | inserted => simp at last

/-- What an open transaction holds back is the file's. -/
theorem Applying.own {file : MigrationFile} {connection : Connection MigrationEffect} {ops : List MigrateOp}
    (applying : Applying file connection ops) (effects : List MigrationEffect)
    (held : connection.pending = some effects) : ∀ effect ∈ effects, OfFile file.name effect := by
  have statements : ∀ done : List String, ∀ effect ∈ done.map (MigrationEffect.executed file.name),
      OfFile file.name effect := by
    intro done effect inside
    obtain ⟨sql, -, rfl⟩ := List.mem_map.mp inside
    rfl
  cases applying with
  | waiting | gap | finishing => cases held
  | opened =>
    cases held
    exact fun _ inside => absurd inside List.not_mem_nil
  | executing unapplied done todo split =>
    cases held
    exact statements done
  | inserted =>
    cases held
    intro effect inside
    rcases List.mem_append.mp inside with before | last
    · exact statements _ effect before
    · exact List.mem_singleton.mp last ▸ rfl

theorem perform_within {file : MigrationFile} {connection next : Connection MigrationEffect} {op : MigrateOp}
    {ops : List MigrateOp} (applying : Applying file connection (op :: ops))
    (performed : file.perform? connection op = some next) :
    Connection.Within (OfFile file.name) connection next := by
  cases op with
  | begin =>
    cases performed
    exact Connection.within_begin applying.own
  | statement sql =>
    cases performed
    exact Connection.within_write rfl applying.own
  | commit =>
    cases performed
    exact Connection.within_commit applying.own
  | insert =>
    simp only [MigrationFile.perform?] at performed
    split at performed
    · cases performed
    · cases performed
      exact Connection.within_write rfl applying.own

/-! ### The runs -/

section Runs
variable {migrations : Migrations}

/-- Between a file's own `COMMIT` and its row in `_migrations`. -/
def InGap (state : MigrateState) : Prop :=
  ∃ applied file files, state.running = some (.applying applied file [.insert, .commit] files) ∧
    state.connection.pending = none ∧ file.statements ≠ []

/-- The files that a run has before it: the others are recorded, and of these the run
knows which are. -/
structure Ahead (migrations : Migrations) (applied : List String) (log : List MigrationEffect)
    (files : List MigrationFile) : Prop where
  ahead : ∃ before, migrations.files = before ++ files ∧ ∀ file ∈ before, .recorded file.name ∈ log
  known : ∀ file ∈ files, file.name ∈ applied ↔ .recorded file.name ∈ log

/-- The states that runs reach when none is lost in a gap. -/
inductive Sound (migrations : Migrations) : MigrateState → Prop where
  | quiet {log running} (early : running = none ∨ running = some .ensureMigrationsTable ∨ running = some .appliedMigrations)
      (atomic : Atomic migrations log) : Sound migrations ⟨⟨log, none⟩, running⟩
  | looping {log applied files} (atomic : Atomic migrations log) (ahead : Ahead migrations applied log files) :
      Sound migrations ⟨⟨log, none⟩, some (.looping applied files)⟩
  | applying {connection applied file ops files before} (here : Applying file connection ops)
      (shape : migrations.files = before ++ file :: files)
      (others : ∀ other ∈ before ++ files, AllOrNothing other connection.committed)
      (passed : ∀ other ∈ before, .recorded other.name ∈ connection.committed)
      (known : ∀ other ∈ files, other.name ∈ applied ↔ .recorded other.name ∈ connection.committed) :
      Sound migrations ⟨connection, some (.applying applied file ops files)⟩

theorem files_distinct (migrations : Migrations) : (migrations.files.map MigrationFile.name).Nodup := by
  have sorted : migrations.files.Perm (migrations.directory.filter fun file => ".sql".toList <:+ file.name.toList) :=
    List.perm_insertionSort _ _
  exact (sorted.map MigrationFile.name).nodup_iff.mpr (migrations.distinct.sublist (List.filter_sublist.map _))

/-- The files beside one in the list have other names. -/
theorem name_ne {before files : List MigrationFile} {file other : MigrationFile}
    (shape : migrations.files = before ++ file :: files) (inside : other ∈ before ++ files) : other.name ≠ file.name := by
  have distinct := files_distinct migrations
  rw [shape, List.map_append, List.map_cons] at distinct
  have apart := (List.nodup_middle.mp distinct).notMem
  rw [← List.map_append] at apart
  exact fun same => apart (same ▸ List.mem_map_of_mem inside)

theorem mem_shape {before files : List MigrationFile} {file other : MigrationFile} :
    other ∈ before ++ file :: files ↔ other = file ∨ other ∈ before ++ files := by
  simp only [List.mem_append, List.mem_cons]
  exact or_left_comm

theorem AllOrNothing.of_unapplied {file : MigrationFile} {log : List MigrationEffect} (unapplied : Unapplied file log) :
    AllOrNothing file log :=
  ⟨fun recorded => absurd recorded unapplied.unrecorded, fun _ => unapplied.unexecuted⟩

/-- Wherever the application of a file stands, the database is in order but for the gap. -/
theorem Applying.allOrNothing_iff {file : MigrationFile} {connection : Connection MigrationEffect} {ops : List MigrateOp}
    (applying : Applying file connection ops) : AllOrNothing file connection.committed ↔
      ¬(ops = [.insert, .commit] ∧ connection.pending = none ∧ file.statements ≠ []) := by
  cases applying with
  | waiting unapplied =>
    refine iff_of_true (.of_unapplied unapplied) fun ⟨same, _⟩ => ?_
    simp [MigrationFile.application] at same
  | opened unapplied | executing unapplied | inserted unapplied =>
    exact iff_of_true (.of_unapplied unapplied) fun ⟨_, closed, _⟩ => by cases closed
  | gap own unrecorded executed =>
    constructor
    · rintro held ⟨-, -, statements⟩
      exact statements (executed.symm.trans (held.nothing unrecorded))
    · intro outside
      have none : file.statements = [] := by
        by_contra statements
        exact outside ⟨rfl, rfl, statements⟩
      exact ⟨fun recorded => absurd recorded unrecorded, fun _ => executed.trans none⟩
  | finishing recorded executed last =>
    refine iff_of_true ⟨fun _ => executed, fun unrecorded => absurd recorded unrecorded⟩ fun ⟨same, _⟩ => ?_
    rcases last with rfl | rfl <;> cases same

/-- The database is in order exactly outside the gap. -/
theorem Sound.atomic_iff {state : MigrateState} (sound : Sound migrations state) :
    Atomic migrations state.connection.committed ↔ ¬InGap state := by
  cases sound with
  | quiet early atomic =>
    refine iff_of_true atomic fun ⟨applied, file, files, running, _⟩ => ?_
    rcases early with rfl | rfl | rfl <;> cases running
  | looping atomic ahead =>
    refine iff_of_true atomic fun ⟨applied, file, files, running, _⟩ => ?_
    cases running
  | @applying connection applied file ops files before here shape others passed known =>
    have gap : InGap ⟨connection, some (.applying applied file ops files)⟩ ↔
        ops = [.insert, .commit] ∧ connection.pending = none ∧ file.statements ≠ [] := by
      constructor
      · rintro ⟨_, _, _, running, none, statements⟩
        cases running
        exact ⟨rfl, none, statements⟩
      · rintro ⟨rfl, none, statements⟩
        exact ⟨_, _, _, rfl, none, statements⟩
    rw [gap, ← here.allOrNothing_iff]
    constructor
    · exact fun atomic => atomic file (shape ▸ List.mem_append_right _ List.mem_cons_self)
    · intro held other inside
      rcases mem_shape.mp (shape ▸ inside) with rfl | beside
      · exact held
      · exact others other beside

theorem Ahead.passed {applied : List String} {log : List MigrationEffect} {file : MigrationFile}
    {files : List MigrationFile} (ahead : Ahead migrations applied log (file :: files)) (recorded : .recorded file.name ∈ log) :
    Ahead migrations applied log files where
  ahead := by
    obtain ⟨before, shape, done⟩ := ahead.ahead
    refine ⟨before ++ [file], by simp [shape], ?_⟩
    intro other inside
    rcases List.mem_append.mp inside with early | last
    · exact done other early
    · exact List.mem_singleton.mp last ▸ recorded
  known := fun other inside => ahead.known other (List.mem_cons_of_mem _ inside)

theorem sound_proceed {state next : MigrateState} (sound : Sound migrations state)
    (taken : state.proceed migrations = some next) : Sound migrations next := by
  cases sound with
  | @quiet log running early atomic =>
    rcases early with rfl | rfl | rfl <;> cases taken
    · exact .quiet (.inr (.inr rfl)) atomic
    · refine .looping atomic ⟨⟨[], rfl, fun _ inside => absurd inside List.not_mem_nil⟩, fun file _ => ?_⟩
      rw [mem_recorded?, Connection.visible, Option.getD_none, List.append_nil]
  | @looping log applied files atomic ahead =>
    cases files with
    | nil =>
      cases taken
      exact .quiet (.inl rfl) atomic
    | cons file files =>
      obtain ⟨before, shape, done⟩ := ahead.ahead
      simp only [MigrateState.proceed] at taken
      split at taken <;> cases taken
      next applied => exact .looping atomic (ahead.passed ((ahead.known file List.mem_cons_self).mp applied))
      next unapplied =>
        have unrecorded := mt (ahead.known file List.mem_cons_self).mpr unapplied
        have inside : file ∈ migrations.files := shape ▸ List.mem_append_right _ List.mem_cons_self
        refine .applying (.waiting ⟨unrecorded, (atomic file inside).nothing unrecorded⟩) shape ?_ done
          fun other later => ahead.known other (List.mem_cons_of_mem _ later)
        exact fun other beside => atomic other (shape ▸ mem_shape.mpr (.inr beside))
  | @applying connection applied file ops files before here shape others passed known =>
    cases ops with
    | nil =>
      cases taken
      obtain ⟨recorded, executed, closed⟩ := here.finished
      obtain ⟨log, pending⟩ := connection
      cases closed
      refine .looping ?_ ⟨⟨before ++ [file], by simp [shape], ?_⟩, known⟩
      · intro other inside
        rcases mem_shape.mp (shape ▸ inside) with rfl | beside
        · exact ⟨fun _ => executed, fun unrecorded => absurd recorded unrecorded⟩
        · exact others other beside
      · intro other inside
        rcases List.mem_append.mp inside with early | last
        · exact passed other early
        · exact List.mem_singleton.mp last ▸ recorded
    | cons op ops =>
      obtain ⟨connection', performed, same⟩ := Option.map_eq_some_iff.mp taken
      cases same
      obtain ⟨effects, published, own⟩ := (perform_within here performed).published
      have kept : ∀ other ∈ before ++ files,
          (MigrationEffect.recorded other.name ∈ connection'.committed ↔ .recorded other.name ∈ connection.committed) ∧
            AllOrNothing other connection'.committed := by
        intro other beside
        rw [published]
        exact (others other beside).of_others (name_ne shape beside) own
      refine .applying (here.perform performed) shape (fun other beside => (kept other beside).2) ?_ ?_
      · exact fun other early => (kept other (List.mem_append_left _ early)).1.mpr (passed other early)
      · exact fun other late => (known other late).trans (kept other (List.mem_append_right _ late)).1.symm

theorem sound_step {state next : MigrateState} {event : MigrateEvent} (sound : Sound migrations state)
    (unharmed : ¬((event = .fail ∨ event = .crash) ∧ InGap state))
    (taken : (migrate migrations).step state event = some next) : Sound migrations next := by
  have lost : (if state.running = none then none else some ⟨state.connection.rollback, none⟩) = some next →
      ¬InGap state → Sound migrations next := by
    intro taken outside
    split at taken <;> cases taken
    exact .quiet (.inl rfl) (sound.atomic_iff.mpr outside)
  cases event with
  | start =>
    simp only [migrate, MigrateState.step] at taken
    split at taken <;> cases taken
    next idle =>
      cases sound with
      | quiet early atomic => exact .quiet (.inr (.inl rfl)) atomic
      | looping | applying => cases idle
  | proceed => exact sound_proceed sound taken
  | fail => exact lost taken fun gap => unharmed ⟨.inl rfl, gap⟩
  | crash => exact lost taken fun gap => unharmed ⟨.inr rfl, gap⟩

/-! ### The undisturbed run -/

theorem perform_statements (file : MigrationFile) (committed held : List MigrationEffect) (statements : List String) :
    (statements.map .statement).foldlM file.perform? ⟨committed, some held⟩ =
      some ⟨committed, some (held ++ statements.map (.executed file.name))⟩ := by
  induction statements generalizing held with
  | nil => simp
  | cons sql statements ih =>
    rw [List.map_cons, List.foldlM_cons, MigrationFile.perform?, Option.bind_eq_bind, Option.bind_some]
    have rest := ih (held ++ [.executed file.name sql])
    rw [List.append_assoc, List.singleton_append, ← List.map_cons] at rest
    exact rest

/-- Up to its own `COMMIT` a file publishes its statements. -/
theorem perform_own {file : MigrationFile} (committed : List MigrationEffect) :
    (MigrateOp.begin :: .begin :: (file.statements.map .statement ++ [.commit])).foldlM file.perform? ⟨committed, none⟩ =
      some ⟨committed ++ file.statements.map (.executed file.name), none⟩ := by
  have opened : Connection.begin (Connection.begin ⟨committed, none⟩) =
      (⟨committed, some []⟩ : Connection MigrationEffect) := rfl
  simp only [List.foldlM_cons, MigrationFile.perform?, Option.bind_eq_bind, Option.bind_some, opened]
  rw [List.foldlM_append, perform_statements]
  rfl

theorem application_own {file : MigrationFile} (own : file.ownTransaction) : file.application =
    (.begin :: .begin :: (file.statements.map .statement ++ [.commit])) ++ [.insert, .commit] := by
  simp [MigrationFile.application, MigrationFile.script, own]

/-- An application that nothing disturbs. -/
theorem perform_application {file : MigrationFile} {committed : List MigrationEffect}
    (unrecorded : .recorded file.name ∉ committed) :
    file.application.foldlM file.perform? ⟨committed, none⟩ =
      some ⟨committed ++ file.statements.map (.executed file.name) ++ [.recorded file.name], none⟩ := by
  have absent : MigrationEffect.recorded file.name ∉ committed ++ file.statements.map (.executed file.name) := by
    simpa using unrecorded
  cases own : file.ownTransaction with
  | true =>
    rw [application_own own, List.foldlM_append, perform_own]
    simp [MigrationFile.perform?, Connection.visible, Connection.write, Connection.commit, absent]
  | false =>
    rw [MigrationFile.application, MigrationFile.script, own]
    simp only [Bool.false_eq_true, ↓reduceIte, List.foldlM_cons, MigrationFile.perform?, Option.bind_eq_bind,
      Option.bind_some]
    rw [List.foldlM_append, Connection.begin, Option.getD_none, perform_statements]
    simp [MigrationFile.perform?, Connection.visible, Connection.write, Connection.commit, unrecorded]

theorem reach_proceed {state next : MigrateState} (taken : state.proceed migrations = some next) :
    (migrate migrations).Reachable (fun _ _ => True) state next := by
  have taken : (migrate migrations).step state .proceed = some next := taken
  exact .step trivial taken

variable (migrations) in
theorem reach_performed {file : MigrationFile} {connection next : Connection MigrationEffect} {ops : List MigrateOp}
    (more : List MigrateOp) (applied : List String) (files : List MigrationFile)
    (performed : ops.foldlM file.perform? connection = some next) :
    (migrate migrations).Reachable (fun _ _ => True) ⟨connection, some (.applying applied file (ops ++ more) files)⟩
      ⟨next, some (.applying applied file more files)⟩ := by
  induction ops generalizing connection with
  | nil =>
    cases performed
    exact ⟨[], .nil⟩
  | cons op ops ih =>
    obtain ⟨middle, first, rest⟩ := Option.bind_eq_some_iff.mp performed
    refine .trans (reach_proceed ?_) (ih rest)
    exact Option.map_eq_some_iff.mpr ⟨middle, first, rfl⟩

variable (migrations) in
/-- A run that nothing disturbs gets to every file. -/
theorem reach_file {before : List MigrationFile} {committed : List MigrationEffect} (files : List MigrationFile)
    (distinct : (before.map MigrationFile.name).Nodup)
    (fresh : ∀ file ∈ before, .recorded file.name ∉ committed) :
    ∃ log, (migrate migrations).Reachable (fun _ _ => True)
        ⟨⟨committed, none⟩, some (.looping [] (before ++ files))⟩ ⟨⟨log, none⟩, some (.looping [] files)⟩ ∧
      ∀ name, .recorded name ∈ log → .recorded name ∈ committed ∨ name ∈ before.map MigrationFile.name := by
  induction before generalizing committed with
  | nil => exact ⟨committed, ⟨[], .nil⟩, fun _ => .inl⟩
  | cons file before ih =>
    obtain ⟨apart, distinct⟩ := List.nodup_cons.mp distinct
    have performed := perform_application (fresh file List.mem_cons_self)
    have fresh' : ∀ other ∈ before, .recorded other.name ∉
        committed ++ file.statements.map (MigrationEffect.executed file.name) ++ [.recorded file.name] := by
      intro other inside recorded
      rcases List.mem_append.mp recorded with old | new
      · exact fresh other (List.mem_cons_of_mem _ inside) (by simpa using old)
      · have same := MigrationEffect.recorded.inj (List.mem_singleton.mp new)
        exact apart (same ▸ List.mem_map_of_mem inside)
    obtain ⟨log, reached, names⟩ := ih distinct fresh'
    refine ⟨log, ?_, ?_⟩
    · have applied := reach_performed migrations [] [] (before ++ files) performed
      rw [List.append_nil] at applied
      exact .trans (.trans (.trans (reach_proceed rfl) applied) (reach_proceed rfl)) reached
    · intro name recorded
      rcases names name recorded with old | later
      · rcases List.mem_append.mp old with old | new
        · exact .inl (by simpa using old)
        · cases List.mem_singleton.mp new
          exact .inr List.mem_cons_self
      · exact .inr (List.mem_cons_of_mem _ later)

/-- A file with statements and a transaction of its own gets to its gap. -/
theorem reach_gap {file : MigrationFile} (inside : file ∈ migrations.files) (own : file.ownTransaction)
    (statements : file.statements ≠ []) :
    ∃ state, (migrate migrations).Reachable (fun _ _ => True) .initial state ∧
      ¬Atomic migrations state.connection.committed := by
  obtain ⟨before, files, shape⟩ := List.append_of_mem inside
  have distinct := files_distinct migrations
  rw [shape, List.map_append, List.map_cons] at distinct
  have early : (before.map MigrationFile.name).Nodup := distinct.sublist (List.sublist_append_left _ _)
  obtain ⟨log, reached, names⟩ := @reach_file migrations before [] (file :: files) early fun _ _ => List.not_mem_nil
  have unrecorded : .recorded file.name ∉ log := by
    intro recorded
    rcases names _ recorded with old | early
    · exact absurd old List.not_mem_nil
    · exact (List.nodup_middle.mp distinct).notMem (List.mem_append_left _ early)
  have performed := reach_performed migrations [.insert, .commit] [] files (@perform_own file log)
  rw [← application_own own] at performed
  have start : (migrate migrations).step .initial .start = some ⟨⟨[], none⟩, some .ensureMigrationsTable⟩ := rfl
  have started : (migrate migrations).Reachable (fun _ _ => True) .initial
      ⟨⟨[], none⟩, some (.looping [] (before ++ file :: files))⟩ :=
    shape ▸ .trans (.trans (.step trivial start) (reach_proceed rfl)) (reach_proceed rfl)
  refine ⟨_, .trans (.trans (.trans started reached) (reach_proceed rfl)) performed, ?_⟩
  intro atomic
  have nothing := (atomic file inside).nothing (by simpa using unrecorded)
  rw [executedOf_append, executedOf_own] at nothing
  exact statements (List.append_eq_nil_iff.mp nothing).2

theorem Sound.ahead {state : MigrateState} {applied : List String} {files : List MigrationFile}
    (sound : Sound migrations state) (running : state.running = some (.looping applied files)) :
    Ahead migrations applied state.connection.committed files := by
  cases sound with
  | quiet early => rcases early with rfl | rfl | rfl <;> cases running
  | applying => cases running
  | looping atomic ahead =>
    cases running
    exact ahead

/-- A gap is that of a file with a transaction of its own. -/
theorem Sound.gap_own {state : MigrateState} (sound : Sound migrations state) (gap : InGap state) :
    ∃ file ∈ migrations.files, file.ownTransaction ∧ file.statements ≠ [] := by
  obtain ⟨applied, file, files, running, closed, statements⟩ := gap
  cases sound with
  | quiet early =>
    rcases early with rfl | rfl | rfl <;> cases running
  | looping => cases running
  | applying here shape =>
    cases running
    refine ⟨file, shape ▸ List.mem_append_right _ List.mem_cons_self, ?_, statements⟩
    generalize gap : [MigrateOp.insert, .commit] = ops at here
    cases here with
    | gap own => exact own
    | finishing recorded executed last => rcases last with rfl | rfl <;> cases gap
    | waiting => simp [MigrationFile.application] at gap
    | opened | executing | inserted => cases closed

/-- The promise holds in every state of every run exactly when no file of statements has
a transaction of its own. Where some have, it holds in every state of a run that is not
lost in a gap, but for the gap itself: a loss there breaks it, and none elsewhere does;
the loop then passes over exactly the files that are recorded and ends with all of them. -/
theorem migrate_atomic_iff (migrations : Migrations) :
    ((∀ state, (migrate migrations).Reachable (fun _ _ => True) .initial state →
        Atomic migrations state.connection.committed) ↔
      ∀ file ∈ migrations.files, file.ownTransaction → file.statements = []) ∧
    ∀ events state, (migrate migrations).Run
        (fun state event => ¬((event = .fail ∨ event = .crash) ∧ InGap state)) .initial events state →
      (Atomic migrations state.connection.committed ↔ ¬InGap state) ∧
      (∀ event next, event = .fail ∨ event = .crash → (migrate migrations).step state event = some next →
        (Atomic migrations next.connection.committed ↔ ¬InGap state)) ∧
      (∀ applied file files, state.running = some (.looping applied (file :: files)) →
        (file.name ∈ applied ↔ .recorded file.name ∈ state.connection.committed)) ∧
      ∀ applied, state.running = some (.looping applied []) →
        ∀ file ∈ migrations.files, .recorded file.name ∈ state.connection.committed := by
  have start : Sound migrations .initial :=
    .quiet (.inl rfl) fun file _ => .of_unapplied ⟨List.not_mem_nil, rfl⟩
  refine ⟨⟨?_, ?_⟩, ?_⟩
  · intro always file inside own
    by_contra statements
    obtain ⟨state, reached, broken⟩ := reach_gap inside own statements
    exact broken (always state reached)
  · rintro plain state ⟨events, run⟩
    have outside {state} (sound : Sound migrations state) : ¬InGap state := by
      intro gap
      obtain ⟨file, inside, own, statements⟩ := sound.gap_own gap
      exact statements (plain file inside own)
    have sound : Sound migrations state := run.invariant _ start fun state event next held _ taken =>
      sound_step held (fun lost => outside held lost.2) taken
    exact sound.atomic_iff.mpr (outside sound)
  · intro events state run
    have sound : Sound migrations state := run.invariant _ start fun state event next => sound_step
    refine ⟨sound.atomic_iff, ?_, ?_, ?_⟩
    · rintro event next stops taken
      have same : next.connection.committed = state.connection.committed := by
        rcases stops with rfl | rfl <;> simp only [migrate, MigrateState.step] at taken <;>
          split at taken <;> cases taken <;> rfl
      rw [same]
      exact sound.atomic_iff
    · exact fun applied file files running => (sound.ahead running).known file List.mem_cons_self
    · intro applied running file inside
      obtain ⟨before, shape, done⟩ := (sound.ahead running).ahead
      exact done file (by simpa [shape] using inside)

end Runs

def sampleMigration : MigrationFile where
  name := "0008_destroyed_reason_max_downloads.sql"
  ownTransaction := true
  statements := ["ALTER TABLE shares DROP CONSTRAINT IF EXISTS shares_dest_reason_chk",
    "ALTER TABLE shares ADD CONSTRAINT shares_dest_reason_chk CHECK (destroyed_reason IS NULL OR " ++
      "destroyed_reason IN ('burn', 'expiry', 'manual', 'abuse', 'max_downloads'))"]

def sampleMigrations : Migrations := ⟨[sampleMigration], by decide⟩

/-- A loss before the file's own `COMMIT` leaves nothing and breaks nothing; the next run
comes to the gap, and a loss there breaks the promise. -/
theorem migrate_atomic_iff_sample : ∃ state, (migrate sampleMigrations).Run
      (fun state event => ¬((event = .fail ∨ event = .crash) ∧ InGap state)) .initial
      (.start :: List.replicate 7 .proceed ++ .crash :: .start :: List.replicate 8 .proceed) state ∧
    ¬Atomic sampleMigrations state.connection.committed ∧
    ∃ next, (migrate sampleMigrations).step state .crash = some next ∧
      ¬Atomic sampleMigrations next.connection.committed := by
  have replayed : ((migrate sampleMigrations).replay
      (fun state event => event == .start || event == .proceed || state.connection.pending.isSome) .initial
      (.start :: List.replicate 7 .proceed ++ .crash :: .start :: List.replicate 8 .proceed)).any
      (fun state => decide (state.running = some (.applying [] sampleMigration [.insert, .commit] [])) &&
        decide (state.connection.pending = none)) = true := by
    decide +kernel
  obtain ⟨state, run, passed⟩ := System.any_replay replayed
  obtain ⟨running, closed⟩ := Bool.and_eq_true_iff.mp passed
  have gap : InGap state :=
    ⟨[], sampleMigration, [], of_decide_eq_true running, of_decide_eq_true closed, List.cons_ne_nil _ _⟩
  have outside : ∀ (state : MigrateState) (event : MigrateEvent),
      (event == .start || event == .proceed || state.connection.pending.isSome) = true →
        ¬((event = .fail ∨ event = .crash) ∧ InGap state) := by
    rintro state event guarded ⟨rfl | rfl, applied, file, files, -, idle, -⟩ <;> simp [idle] at guarded
  have gapless := run.mono outside
  obtain ⟨broken, stops, -, -⟩ := (migrate_atomic_iff sampleMigrations).2 _ _ gapless
  have lost : (migrate sampleMigrations).step state .crash = some ⟨state.connection.rollback, none⟩ := by
    simp [migrate, MigrateState.step, of_decide_eq_true running]
  exact ⟨state, gapless, fun kept => broken.mp kept gap, _, lost,
    fun kept => (stops _ _ (.inr rfl) lost).mp kept gap⟩

/-- A run is lost behind the file's own `COMMIT`: the next one executes the file again. -/
theorem rerun_executes_again : ¬∀ (migrations : Migrations) (state : MigrateState),
    (∀ file ∈ migrations.files, file.ownTransaction) →
    (migrate migrations).Reachable (fun _ _ => True) .initial state →
      Atomic migrations state.connection.committed := by
  intro atomic
  have replayed : ((migrate sampleMigrations).replay (fun _ _ => true) .initial
      (.start :: List.replicate 8 .proceed ++ .crash :: .start :: List.replicate 12 .proceed)).any
      (fun state => state.running == none && .recorded sampleMigration.name ∈ state.connection.committed &&
        executedOf sampleMigration.name state.connection.committed ==
          sampleMigration.statements ++ sampleMigration.statements) = true := by
    decide +kernel
  obtain ⟨state, run, passed⟩ := System.any_replay replayed
  obtain ⟨first, twice⟩ := Bool.and_eq_true_iff.mp passed
  obtain ⟨-, recorded⟩ := Bool.and_eq_true_iff.mp first
  have held := atomic sampleMigrations state (by decide +kernel) ⟨_, run.mono fun _ _ _ => trivial⟩
  have once := (held sampleMigration (by decide +kernel)).all (of_decide_eq_true recorded)
  rw [beq_iff_eq.mp twice] at once
  cases once

end SlothBox.Proofs

import Mathlib.Data.List.Sort
import SlothBox.Library.Transaction
import SlothBox.Library.Transition
import SlothBox.Library.Utf16

/-! The migration runner: `run`, which applies each file in a transaction and records its
name in `_migrations`. All files but the first bring a `BEGIN` and a `COMMIT` of their
own. The database refuses a statement, or the runner is gone, at any point; the next run
starts over. -/

namespace SlothBox
open Library

/-- A file of the directory: its statements, and whether they stand in a transaction of
the file's own. -/
structure MigrationFile where
  name : String
  ownTransaction : Bool
  statements : List String
  deriving DecidableEq

/-- The directory `db/migrations`. -/
structure Migrations where
  directory : List MigrationFile
  distinct : (directory.map MigrationFile.name).Nodup

/-- The names that end in `.sql`, in the order of their code units. -/
def Migrations.files (migrations : Migrations) : List MigrationFile :=
  (migrations.directory.filter fun file => ".sql".toList <:+ file.name.toList).insertionSort
    fun file other => !List.lex (Utf16.encode other.name.toList) (Utf16.encode file.name.toList) (decide <| · < ·)

inductive MigrateOp where
  | begin
  | statement (sql : String)
  | insert
  | commit
  deriving DecidableEq

/-- What `tx.unsafe` sends. -/
def MigrationFile.script (file : MigrationFile) : List MigrateOp :=
  let statements := file.statements.map .statement
  if file.ownTransaction then .begin :: statements ++ [.commit] else statements

/-- `sql.begin` around the file and the row in `_migrations`. -/
def MigrationFile.application (file : MigrationFile) : List MigrateOp := .begin :: (file.script ++ [.insert, .commit])

inductive MigrationEffect where
  | executed (file sql : String)
  | recorded (file : String)
  deriving DecidableEq

/-- An operation that succeeds; the name is the primary key of `_migrations`. -/
def MigrationFile.perform? (file : MigrationFile) (connection : Connection MigrationEffect) :
    MigrateOp → Option (Connection MigrationEffect)
  | .begin => some connection.begin
  | .statement sql => some (connection.write (.executed file.name sql))
  | .insert =>
    if .recorded file.name ∈ connection.visible then none else some (connection.write (.recorded file.name))
  | .commit => some connection.commit

/-- How far a run has come. -/
inductive Migrating where
  | ensureMigrationsTable
  | appliedMigrations
  | looping (applied : List String) (files : List MigrationFile)
  | applying (applied : List String) (file : MigrationFile) (ops : List MigrateOp) (files : List MigrationFile)
  deriving DecidableEq

structure MigrateState where
  connection : Connection MigrationEffect
  running : Option Migrating

/-- A run starts, does its next step, is refused by the database, or is lost. -/
inductive MigrateEvent where
  | start
  | proceed
  | fail
  | crash
  deriving DecidableEq

def MigrationEffect.recorded? : MigrationEffect → Option String
  | .executed .. => none
  | .recorded file => some file

namespace MigrateState

/-- An empty database. -/
def initial : MigrateState := ⟨⟨[], none⟩, none⟩

def proceed (migrations : Migrations) (state : MigrateState) : Option MigrateState :=
  match state.running with
  | none => none
  | some .ensureMigrationsTable => some { state with running := some .appliedMigrations }
  | some .appliedMigrations =>
    let applied := state.connection.visible.filterMap MigrationEffect.recorded?
    some { state with running := some (.looping applied migrations.files) }
  | some (.looping _ []) => some { state with running := none }
  | some (.looping applied (file :: files)) =>
    if file.name ∈ applied then some { state with running := some (.looping applied files) }
    else some { state with running := some (.applying applied file file.application files) }
  | some (.applying applied _ [] files) => some { state with running := some (.looping applied files) }
  | some (.applying applied file (op :: ops) files) =>
    (file.perform? state.connection op).map fun connection => ⟨connection, some (.applying applied file ops files)⟩

def step (migrations : Migrations) (state : MigrateState) : MigrateEvent → Option MigrateState
  | .start => if state.running = none then some { state with running := some .ensureMigrationsTable } else none
  | .proceed => proceed migrations state
  | .fail | .crash => if state.running = none then none else some ⟨state.connection.rollback, none⟩

end MigrateState

def migrate (migrations : Migrations) : System MigrateState MigrateEvent := ⟨MigrateState.step migrations⟩

end SlothBox

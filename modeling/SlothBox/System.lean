import SlothBox.Library.Transition
import SlothBox.Ingest
import SlothBox.Gateway
import SlothBox.Reaper

/-! The whole system around one share: any number of handlers of the three services
over one database and one object store. The environment starts requests, chooses
whose statement runs next, what clock it reads and how it ends, and may kill a
process between two statements. -/

namespace SlothBox
open Library

inductive Proc where
  | create (request : CreateRequest) (step : CreateStep)
  | put (request : PutRequest) (step : PutStep)
  | get (request : GetRequest) (step : GetStep)
  | downloaded (request : DownloadedRequest) (step : DownloadedStep)
  | destroy (request : DestroyRequest) (step : DestroyStep)
  | sweep (step : SweepStep)
  | crashed
  deriving DecidableEq, Repr

inductive Request where
  | create (request : CreateRequest)
  | put (request : PutRequest)
  | get (request : GetRequest)
  | downloaded (request : DownloadedRequest)
  | destroy (request : DestroyRequest)
  | sweep
  deriving DecidableEq, Repr

def Request.start : Request → Proc
  | .create request => .create request .acquire
  | .put request => .put request .acquire
  | .get request => .get request .acquire
  | .downloaded request => .downloaded request .acquire
  | .destroy request => .destroy request .acquire
  | .sweep => .sweep .fetchReapable

def Proc.exec (env : Env) (db : Database) (clock : Timestamp) (outcome : Outcome) :
    Proc → Option (Proc × Effect)
  | .create request step => (step.exec db request clock outcome).map (Prod.map (.create request) id)
  | .put request step => (step.exec env db request clock outcome).map (Prod.map (.put request) id)
  | .get request step => (step.exec env db request clock outcome).map (Prod.map (.get request) id)
  | .downloaded request step => (step.exec env db request clock outcome).map (Prod.map (.downloaded request) id)
  | .destroy request step => (step.exec env db request clock outcome).map (Prod.map (.destroy request) id)
  | .sweep step => (step.exec db clock outcome).map (Prod.map .sweep id)
  | .crashed => none

/-- A handler that has sent its last statement. -/
def Proc.finished : Proc → Bool
  | .create _ (.done _) | .put _ (.done _) | .get _ (.done ..) | .downloaded _ (.done _)
  | .destroy _ (.done _) | .sweep (.done _) | .crashed => true
  | _ => false

structure World where
  db : Database
  procs : List Proc

inductive Event where
  | spawn (request : Request)
  | exec (pid : Nat) (clock : Timestamp) (outcome : Outcome)
  | crash (pid : Nat)
  deriving DecidableEq, Repr

/-- The server ends the transaction of a connection that dies. -/
def Database.disconnect (db : Database) (owner : Nat) : Database :=
  if db.tx.any (·.owner == owner) then db.apply owner .rollback else db

def World.step (env : Env) (world : World) : Event → Option World
  | .spawn request => some { world with procs := world.procs ++ [request.start] }
  | .exec pid clock outcome => do
    let proc ← world.procs[pid]?
    let (next, effect) ← proc.exec env world.db clock outcome
    return ⟨world.db.apply pid effect, world.procs.set pid next⟩
  | .crash pid => do
    let _ ← world.procs[pid]?
    return ⟨world.db.disconnect pid, world.procs.set pid .crashed⟩

def system (env : Env) : System World Event := ⟨World.step env⟩

def World.start (store : Store) : World := ⟨⟨store, none⟩, []⟩

def World.quiet (world : World) : Bool := world.procs.all Proc.finished

end SlothBox

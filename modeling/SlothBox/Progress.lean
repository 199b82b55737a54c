import Mathlib.Logic.Function.Basic
import SlothBox.Gateway
import SlothBox.Library.Transition

/-! The gateway's progress sockets: `attachProgressWs`. An upgrade reads the counter of
its address, the look-up of the share comes in between, and `onOpen` writes the counter
from what the upgrade has read. Whose address it is, what the database answers and when
the two ends close are events. -/

namespace SlothBox
open Library

/-- What an upgrade hands back. Handlers that serve keep the count that was read. -/
inductive ProgressHandlers where
  | refuse (code : Nat) (reason : String)
  | serve (currentForIp : Nat)
  deriving DecidableEq

inductive OnOpen where
  | pending
  | lookingUp
  | returned
  deriving DecidableEq

inductive ShareLookup where
  | found
  | notFound
  | failed
  deriving DecidableEq

structure ProgressSocket where
  ip : String
  handlers : ProgressHandlers
  onOpen : OnOpen := .pending
  counted : Bool := false
  heartbeat : Bool := false
  /-- Code and reason, once the server has closed its end. -/
  closing : Option (Nat × String) := none
  closed : Bool := false
  deriving DecidableEq

structure ProgressWs where
  wsConnectionsByIp : String → Option Nat
  sockets : List ProgressSocket

inductive ProgressEvent where
  | upgrade (ip : String) (shareId : Option String)
  | opened (socket : Nat)
  | lookedUp (socket : Nat) (result : ShareLookup)
  | closed (socket : Nat)
  deriving DecidableEq

namespace ProgressWs

/-- A gateway that has just started. -/
def initial : ProgressWs := ⟨fun _ => none, []⟩

def currentForIp (state : ProgressWs) (ip : String) : Nat := (state.wsConnectionsByIp ip).getD 0

def upgradeWebSocket (maxConnectionsPerIp : Nat) (state : ProgressWs) (ip : String) (shareId : Option String) :
    ProgressHandlers :=
  if !shareId.any validShortId then .refuse 1008 "missing or invalid shareId"
  else if state.currentForIp ip ≥ maxConnectionsPerIp then .refuse 1013 "per-IP connection cap reached"
  else .serve (state.currentForIp ip)

/-- `onOpen` up to the look-up, or to its end where the socket is refused. -/
def open? (socket : ProgressSocket) : Option ProgressSocket :=
  if socket.onOpen = .pending then
    match socket.handlers with
    | .refuse code reason => some { socket with onOpen := .returned, closing := some (code, reason) }
    | .serve _ => some { socket with onOpen := .lookingUp }
  else none

def count (connections : String → Option Nat) (ip : String) (n : Nat) : String → Option Nat :=
  Function.update connections ip (some n)

/-- The rest of `onOpen`, which nothing stops when the other end has gone. -/
def lookUp? (connections : String → Option Nat) (socket : ProgressSocket) (result : ShareLookup) :
    Option ((String → Option Nat) × ProgressSocket) :=
  match socket.onOpen, socket.handlers with
  | .lookingUp, .serve currentForIp =>
    match result with
    | .found =>
      some (count connections socket.ip (currentForIp + 1),
        { socket with onOpen := .returned, counted := true, heartbeat := true })
    | .notFound => some (connections, { socket with onOpen := .returned, closing := some (1008, "shareId not found") })
    | .failed =>
      some (connections, { socket with onOpen := .returned, closing := some (1011, "share verification failed") })
  | _, _ => none

/-- `onClose`. -/
def close? (connections : String → Option Nat) (socket : ProgressSocket) :
    Option ((String → Option Nat) × ProgressSocket) :=
  if socket.onOpen ≠ .pending ∧ !socket.closed then
    let next := ((connections socket.ip).getD 1 : Int) - 1
    let connections :=
      if !socket.counted then connections
      else if next ≤ 0 then Function.update connections socket.ip none
      else count connections socket.ip next.toNat
    some (connections, { socket with heartbeat := false, closed := true })
  else none

def step (maxConnectionsPerIp : Nat) (state : ProgressWs) : ProgressEvent → Option ProgressWs
  | .upgrade ip shareId =>
    let handlers := upgradeWebSocket maxConnectionsPerIp state ip shareId
    some { state with sockets := state.sockets ++ [{ ip, handlers }] }
  | .opened index => do
    let socket ← state.sockets[index]?
    let socket ← open? socket
    return { state with sockets := state.sockets.set index socket }
  | .lookedUp index result => do
    let socket ← state.sockets[index]?
    let (connections, socket) ← lookUp? state.wsConnectionsByIp socket result
    return ⟨connections, state.sockets.set index socket⟩
  | .closed index => do
    let socket ← state.sockets[index]?
    let (connections, socket) ← close? state.wsConnectionsByIp socket
    return ⟨connections, state.sockets.set index socket⟩

end ProgressWs

def progressWs (maxConnectionsPerIp : Nat) : System ProgressWs ProgressEvent := ⟨ProgressWs.step maxConnectionsPerIp⟩

end SlothBox

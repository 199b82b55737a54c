import SlothBox.Gateway
import SlothBox.RateLimit

/-! Who a request is counted for. The gateway goes by an address it reads off the headers or
the socket, the ingest service by the share; both count in one Valkey. -/

namespace SlothBox
open Library

/-- The two headers a proxy writes. -/
structure ProxyHeaders where
  xForwardedFor : Option String
  xRealIp : Option String
  deriving DecidableEq

/-- `trim`: the white space of a script is that of its regular expressions. -/
def trim (s : String) : String :=
  String.ofList ((s.toList.dropWhile isSpace).rdropWhile isSpace)

/-- `split(",")[0]`. -/
def firstSegment (s : String) : String := String.ofList (s.toList.takeWhile (· ≠ ','))

/-- The address that the headers name, if they name one. -/
def forwardedIp (headers : ProxyHeaders) : Option String :=
  let forwarded := headers.xForwardedFor.bind fun xff =>
    if xff.isEmpty then none
    else if (trim (firstSegment xff)).isEmpty then none
    else some (trim (firstSegment xff))
  forwarded.or (headers.xRealIp.bind fun realIp => if realIp.isEmpty then none else some (trim realIp))

def clientIp (trustForwardedFor : Bool) (headers : ProxyHeaders) (socketRemoteAddr fallback : String) : String :=
  let address := if trustForwardedFor then forwardedIp headers else none
  address.getD (if socketRemoteAddr.isEmpty then fallback else socketRemoteAddr)

/-- The upgrade handler's own way to the address. -/
def clientIpFromHeaders (headers : ProxyHeaders) : String := (forwardedIp headers).getD "0.0.0.0"

inductive Route where
  | create | read | cspReport
  deriving DecidableEq

structure ThrottleConfig where
  trustForwardedFor : Bool
  createPerMinute : Nat
  createPerDay : Nat
  readPerMinute : Nat

def ThrottleConfig.rules (config : ThrottleConfig) : Route → List RateLimitRule
  | .create => createRules config.createPerMinute config.createPerDay
  | .read => readRules config.readPerMinute
  | .cspReport => cspReportRules

/-- A request to the gateway, with what the middleware reads of it. -/
structure GatewayCall where
  route : Route
  headers : ProxyHeaders
  socketRemoteAddr : String
  nowMs : Nat
  incoming : Option String
  randomUUID : String
  exec : RateLimitRule → Exec

def GatewayCall.arrival (config : ThrottleConfig) (call : GatewayCall) : Arrival where
  nowMs := call.nowMs
  incoming := call.incoming
  randomUUID := call.randomUUID
  rules := config.rules call.route
  exec := call.exec

def GatewayCall.identity (config : ThrottleConfig) (call : GatewayCall) : String :=
  clientIp config.trustForwardedFor call.headers call.socketRemoteAddr "0.0.0.0"

inductive ThrottledCall where
  | gateway (call : GatewayCall)
  | put (shortId : String) (acquire : Acquire)
  | get (shortId : String) (acquire : Acquire)

/-- Whether the call is let through. -/
def throttle (config : ThrottleConfig) (valkey : Valkey) : ThrottledCall → Valkey × Bool
  | .gateway call =>
    match rateLimit (call.identity config) valkey (call.arrival config) with
    | (valkey, .ok ()) => (valkey, true)
    | (valkey, .error _) => (valkey, false)
  | .put shortId acquire => tryAcquireAsync valkey ("ingest:put:" ++ shortId) 1000 60 acquire
  | .get shortId acquire => tryAcquireAsync valkey ("ingest:get:" ++ shortId) 5000 60 acquire

/-- Whom a call counts against. -/
inductive Payer where
  | address (ip : String)
  | bucket (name : String)
  deriving DecidableEq

def ThrottledCall.payer (config : ThrottleConfig) : ThrottledCall → Payer
  | .gateway call => .address (call.identity config)
  | .put shortId _ => .bucket ("ingest:put:" ++ shortId)
  | .get shortId _ => .bucket ("ingest:get:" ++ shortId)

end SlothBox

import SlothBox.Library.Transition
import SlothBox.Library.Window

/-! The two sliding windows over Valkey: the gateway's middleware, which records every
attempt and counts afterwards, and the limiter of the ingest service, which counts and
records in one script. Valkey's clock is the one that stamps the requests. -/

namespace SlothBox
open Library

/-- What stands under each key. -/
abbrev Valkey := String → Slot String

def Valkey.put (valkey : Valkey) (key : String) (slot : Slot String) : Valkey :=
  fun other => if other = key then slot else valkey other

@[simp] theorem Valkey.put_self (valkey : Valkey) (key : String) (slot : Slot String) : valkey.put key slot key = slot :=
  if_pos rfl

theorem Valkey.put_of_ne {key other : String} (valkey : Valkey) (slot : Slot String) (apart : other ≠ key) :
    valkey.put key slot other = valkey other := if_neg apart

/-! ### Request ids -/

/-- `SAFE_ID`. -/
def safeId (id : String) : Bool :=
  1 ≤ id.length && id.length ≤ 128 && id.toList.all fun c => c.isAlphanum || c = '_' || c = '.' || c = '-'

/-- A client's own `x-request-id` is trusted if it is well formed. -/
def requestIdMiddleware (incoming : Option String) (randomUUID : String) : String :=
  match incoming with
  | some id => if safeId id then id else randomUUID
  | none => randomUUID

/-! ### The gateway -/

structure RateLimitRule where
  bucket : String
  windowMs : Nat
  max : Nat
  deriving DecidableEq

def RateLimitRule.key (rule : RateLimitRule) (identity : String) : String := "rl:" ++ rule.bucket ++ ":" ++ identity

/-- The route's rules: two of them are set by configuration. -/
def createRules (createPerMinute createPerDay : Nat) : List RateLimitRule :=
  [⟨"create_minute", 60000, createPerMinute⟩, ⟨"create_day", 24 * 60 * 60 * 1000, createPerDay⟩]

def readRules (readPerMinute : Nat) : List RateLimitRule := [⟨"read_minute", 60000, readPerMinute⟩]

def cspReportRules : List RateLimitRule := [⟨"csp_report_minute", 60000, 60⟩]

/-- How `pipeline.exec()` ends, and whether Valkey has run the commands. -/
inductive Exec where
  | replied
  /-- No replies, or none to ZCARD that is a number. -/
  | silent (applied : Bool)
  | thrown (applied : Bool)
  deriving DecidableEq

/-- A request as it reaches the middleware. -/
structure Arrival where
  nowMs : Nat
  incoming : Option String
  randomUUID : String
  rules : List RateLimitRule
  exec : RateLimitRule → Exec

def Arrival.requestId (arrival : Arrival) : String := requestIdMiddleware arrival.incoming arrival.randomUUID

/-- The name under which an attempt is recorded. -/
def Arrival.member (arrival : Arrival) : String := toString arrival.nowMs ++ ":" ++ arrival.requestId

/-- What the first command leaves in the window. -/
def windowOf (slot : Slot String) (nowMs : Nat) (rule : RateLimitRule) : Slot String :=
  let cutoff : Int := nowMs - rule.windowMs
  (slot.live nowMs).trim fun score => 0 ≤ score ∧ score ≤ cutoff

/-- Trim, add, count, expire. -/
def pipeline (slot : Slot String) (nowMs : Nat) (rule : RateLimitRule) (member : String) : Slot String × Nat :=
  let added := (windowOf slot nowMs rule).add member nowMs
  (added.expire nowMs rule.windowMs, added.set.card)

/-- The rule that tripped, if one did. -/
def evaluate (identity : String) (arrival : Arrival) : Valkey → List RateLimitRule → Valkey × Option RateLimitRule
  | valkey, [] => (valkey, none)
  | valkey, rule :: rules =>
    let key := rule.key identity
    let (slot, count) := pipeline (valkey key) arrival.nowMs rule arrival.member
    match arrival.exec rule with
    | .replied =>
      if rule.max < count then (valkey.put key slot, some rule) else evaluate identity arrival (valkey.put key slot) rules
    | .silent applied => evaluate identity arrival (if applied then valkey.put key slot else valkey) rules
    | .thrown applied => (if applied then valkey.put key slot else valkey, none)

structure TooManyRequests where
  retryAfter : String
  message : String
  deriving DecidableEq

def tooManyRequests (tripped : RateLimitRule) : TooManyRequests where
  retryAfter := toString ((tripped.windowMs + 999) / 1000)
  message := "Too many requests in window for " ++ tripped.bucket

/-- The middleware: status 429, or on to the handler. -/
def rateLimit (identity : String) (valkey : Valkey) (arrival : Arrival) : Valkey × Except TooManyRequests Unit :=
  match evaluate identity arrival valkey arrival.rules with
  | (valkey, some tripped) => (valkey, .error (tooManyRequests tripped))
  | (valkey, none) => (valkey, .ok ())

/-- The requests of one identity, one after the other. -/
structure Limiter where
  valkey : Valkey
  nowMs : Nat
  /-- The requests that went on to their handlers. -/
  admitted : List Arrival

def gatewayLimiter (identity : String) : System Limiter Arrival :=
  ⟨fun limiter arrival =>
    match rateLimit identity limiter.valkey arrival with
    | (valkey, .ok ()) => some ⟨valkey, arrival.nowMs, limiter.admitted ++ [arrival]⟩
    | (valkey, .error _) => some ⟨valkey, arrival.nowMs, limiter.admitted⟩⟩

/-! ### The ingest service -/

/-- `AcquireScript`. -/
def acquireScript (slot : Slot String) (now cutoff limit ttlMs : Int) (member : String) : Slot String × Bool :=
  let kept := (slot.live now).trim (· ≤ cutoff)
  if limit ≤ kept.set.card then (kept, false) else ((kept.add member now).expire now ttlMs, true)

/-- One call of `TryAcquireAsync`; an outage lets it through. -/
structure Acquire where
  nowMs : Int
  guid : String
  /-- If the script did not answer, whether it ran. -/
  outage : Option Bool := none
  deriving DecidableEq

def Acquire.memberId (acquire : Acquire) : String := toString acquire.nowMs ++ ":" ++ acquire.guid

def tryAcquireAsync (valkey : Valkey) (bucket : String) (limit windowSeconds : Int) (acquire : Acquire) : Valkey × Bool :=
  if limit ≤ 0 ∨ windowSeconds ≤ 0 then (valkey, true)
  else
    let key := "ratelimit:" ++ bucket
    let windowMs := windowSeconds * 1000
    let cutoff := acquire.nowMs - windowMs
    let ttlMs := (windowSeconds + 5) * 1000
    let (slot, admitted) := acquireScript (valkey key) acquire.nowMs cutoff limit ttlMs acquire.memberId
    match acquire.outage with
    | none => (valkey.put key slot, admitted)
    | some applied => (if applied then valkey.put key slot else valkey, true)

/-- The calls on one bucket, with their answers. -/
structure Bucket where
  valkey : Valkey
  calls : List (Acquire × Bool)

def ingestLimiter (bucket : String) (limit windowSeconds : Int) : System Bucket Acquire :=
  ⟨fun state acquire =>
    let (valkey, admitted) := tryAcquireAsync state.valkey bucket limit windowSeconds acquire
    some ⟨valkey, state.calls ++ [(acquire, admitted)]⟩⟩

end SlothBox

import SlothBox.Library.Search
import SlothBox.Library.Utf8

/-! The reaper's configuration: what it refuses to start with, and the copy of it that is
logged. A Go string is a sequence of octets, which an environment variable need not fill
with UTF-8. -/

namespace SlothBox
open Library

abbrev GoString := Bytes

/-- A literal. -/
def octets (literal : String) : GoString := Utf8.encode literal.toList

structure ReaperConfig where
  databaseURL : GoString
  minIOEndpoint : GoString
  minIOAccessKey : GoString
  minIOSecretKey : GoString
  minIOBucket : GoString
  minIOUseSSL : Bool
  /-- In nanoseconds. -/
  interval : Int
  batchSize : Int
  logLevel : GoString
  metricsAddr : GoString
  deriving DecidableEq

def ReaperConfig.problems (quote : GoString → GoString) (c : ReaperConfig) : List GoString :=
  (if c.databaseURL = [] then [octets "DATABASE_URL is required"]
    else if !(octets "postgres://").isPrefixOf c.databaseURL && !(octets "postgresql://").isPrefixOf c.databaseURL then
      [octets "DATABASE_URL must begin with postgres:// or postgresql://"]
    else []) ++
  (if c.minIOEndpoint = [] then [octets "MINIO_ENDPOINT is required"]
    else if (Search.index (octets "://") c.minIOEndpoint).isSome then
      [octets "MINIO_ENDPOINT must be host[:port] without scheme (use MINIO_USE_SSL for tls)"]
    else []) ++
  (if c.minIOAccessKey = [] then [octets "MINIO_ACCESS_KEY is required"] else []) ++
  (if c.minIOSecretKey = [] then [octets "MINIO_SECRET_KEY is required"] else []) ++
  (if c.minIOBucket = [] then [octets "MINIO_BUCKET is required"] else []) ++
  (if c.logLevel ∈ [octets "debug", octets "info", octets "warn", octets "error"] then []
    else [octets "LOG_LEVEL must be debug|info|warn|error, got " ++ quote c.logLevel])

/-- The error, if there is one; `quote` is the verb `%q`. -/
def ReaperConfig.validate (quote : GoString → GoString) (c : ReaperConfig) : Option GoString :=
  match c.problems quote with
  | [] => none
  | problems => some (octets "invalid configuration:\n  - " ++ (octets "\n  - ").intercalate problems)

def redactDSN (dsn : GoString) : GoString :=
  if dsn = [] then []
  else
    match Search.index (octets "://") dsn with
    | none => octets "[redacted dsn]"
    | some schemeEnd =>
      let scheme := dsn.take schemeEnd
      let rest := dsn.drop (schemeEnd + 3)
      let rest := (Search.lastIndex (octets "@") rest).elim rest fun i => rest.drop (i + 1)
      let rest := (Search.index (octets "?") rest).elim rest fun q => rest.take q
      scheme ++ octets "://[redacted]@" ++ rest

def ReaperConfig.redacted (c : ReaperConfig) : ReaperConfig :=
  { c with
    minIOSecretKey := if c.minIOSecretKey ≠ [] then octets "[redacted]" else c.minIOSecretKey
    databaseURL := redactDSN c.databaseURL }

end SlothBox

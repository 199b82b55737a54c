import SlothBox.ReaperConfig

/-! What the log shows of a configuration. The credentials in front of the host are cut
off at the last at sign of the whole, which may stand in the query string behind it. -/

namespace SlothBox.Proofs
open Library

def atSign : UInt8 := 0x40

def questionMark : UInt8 := 0x3f

/-- A connection string `scheme://userinfo@host[:port]/db[?query]`. -/
structure Dsn where
  scheme : GoString
  userinfo : GoString
  host : GoString
  port : Option GoString
  db : GoString
  query : Option GoString
  plain : ∀ part ∈ [host, port.getD [], db], atSign ∉ part ∧ questionMark ∉ part

namespace Dsn

/-- What the log is meant to show behind the scheme. -/
def address (dsn : Dsn) : GoString := dsn.host ++ dsn.port.elim [] (octets ":" ++ ·) ++ octets "/" ++ dsn.db

def afterUserinfo (dsn : Dsn) : GoString := dsn.address ++ dsn.query.elim [] (octets "?" ++ ·)

def text (dsn : Dsn) : GoString :=
  dsn.scheme ++ (octets "://" ++ (dsn.userinfo ++ (octets "@" ++ dsn.afterUserinfo)))

/-- The same database, under whatever credentials and parameters. -/
structure SameTarget (dsn other : Dsn) : Prop where
  scheme : dsn.scheme = other.scheme
  host : dsn.host = other.host
  port : dsn.port = other.port
  db : dsn.db = other.db

/-- The text between the last at sign of the query string and the next question mark. -/
def exposed (dsn : Dsn) : Option GoString :=
  (dsn.query.filter (atSign ∈ ·)).map fun query =>
    (query.rtakeWhile (· ≠ atSign)).takeWhile (· ≠ questionMark)

/-- The query strings say the same behind their at signs, or have none. -/
def Concealed (dsn other : Dsn) : Prop := dsn.exposed.getD dsn.address = other.exposed.getD other.address

instance (dsn other : Dsn) : Decidable (Concealed dsn other) := inferInstanceAs (Decidable (_ = _))

theorem SameTarget.address {dsn other : Dsn} (same : dsn.SameTarget other) : dsn.address = other.address := by
  rw [Dsn.address, Dsn.address, same.host, same.port, same.db]

theorem concealed_of_plain {dsn other : Dsn} (same : dsn.SameTarget other)
    (plain : ∀ query ∈ dsn.query, atSign ∉ query) (plain' : ∀ query ∈ other.query, atSign ∉ query) :
    dsn.Concealed other := by
  have nothing : ∀ dsn : Dsn, (∀ query ∈ dsn.query, atSign ∉ query) → dsn.exposed = none := by
    intro dsn plain
    rw [exposed, Option.map_eq_none_iff, Option.filter_eq_none_iff]
    intro query given
    simpa using plain query given
  rw [Concealed, nothing dsn plain, nothing other plain']
  exact same.address

end Dsn

theorem octets_signs : octets "@" = [atSign] ∧ octets "?" = [questionMark] ∧ (octets "://").length = 3 ∧
    (atSign ∉ octets ":" ∧ questionMark ∉ octets ":") ∧ atSign ∉ octets "/" ∧ questionMark ∉ octets "/" := by
  decide +kernel

theorem address_plain (dsn : Dsn) : atSign ∉ dsn.address ∧ questionMark ∉ dsn.address := by
  obtain ⟨-, -, -, colon, slash⟩ := octets_signs
  have parts := dsn.plain
  simp only [List.forall_mem_cons, List.not_mem_nil, false_implies, implies_true, and_true] at parts
  obtain ⟨host, port, db⟩ := parts
  unfold Dsn.address
  cases given : dsn.port with
  | none => simp [host, db, slash]
  | some port' =>
    rw [given] at port
    simp only [Option.getD_some] at port
    simp [host, port, db, colon, slash]

/-- Behind the credentials nothing else matters of what is shown. -/
theorem redactDSN_eq (scheme : GoString) : ∃ front, ∀ userinfo rest,
    redactDSN (scheme ++ (octets "://" ++ (userinfo ++ (octets "@" ++ rest)))) =
      front ++ ((rest.rtakeWhile (· ≠ atSign)).takeWhile (· ≠ questionMark)) := by
  obtain ⟨i, bound, found⟩ := Search.index_append (octets "://") scheme
  obtain ⟨at', mark, three, -⟩ := octets_signs
  refine ⟨scheme.take i ++ octets "://[redacted]@", ?_⟩
  intro userinfo rest
  have nonempty : scheme ++ (octets "://" ++ (userinfo ++ (octets "@" ++ rest))) ≠ [] := by
    simp [at']
  have front : (scheme ++ (octets "://" ++ (userinfo ++ (octets "@" ++ rest)))).take i = scheme.take i :=
    List.take_append_of_le_length bound
  have behind : (scheme ++ (octets "://" ++ (userinfo ++ (octets "@" ++ rest)))).drop (i + 3) =
      ((scheme ++ octets "://").drop (i + 3) ++ userinfo) ++ atSign :: rest := by
    rw [← List.append_assoc, List.drop_append_of_le_length, at', List.append_assoc, List.singleton_append]
    rw [List.length_append, three]
    exact Nat.add_le_add_right bound 3
  rw [redactDSN, if_neg nonempty, found]
  dsimp only
  rw [front, behind, at', mark, Search.drop_lastIndex, Search.take_index, Search.rtakeWhile_append_cons]

/-- An at sign in the query string is the last one. -/
theorem shown_eq (dsn : Dsn) :
    (dsn.afterUserinfo.rtakeWhile (· ≠ atSign)).takeWhile (· ≠ questionMark) = dsn.exposed.getD dsn.address := by
  obtain ⟨noSign, noMark⟩ := address_plain dsn
  have whole : dsn.address.takeWhile (· ≠ questionMark) = dsn.address := by
    rw [List.takeWhile_eq_self_iff]
    intro octet inside
    exact decide_eq_true fun same => noMark (same ▸ inside)
  unfold Dsn.afterUserinfo Dsn.exposed
  cases given : dsn.query with
  | none =>
    rw [Option.elim_none, List.append_nil, Search.rtakeWhile_plain atSign noSign, whole]
    rfl
  | some query =>
    obtain ⟨-, mark, -⟩ := octets_signs
    rw [Option.elim_some, mark, List.singleton_append]
    by_cases inside : atSign ∈ query
    · rw [Search.rtakeWhile_append atSign _ (List.mem_cons_of_mem _ inside),
        ← List.singleton_append, Search.rtakeWhile_append atSign _ inside, Option.filter_some,
        if_pos (decide_eq_true inside)]
      rfl
    · have differ : atSign ≠ questionMark := by decide
      have none : atSign ∉ dsn.address ++ questionMark :: query := by
        simp [noSign, inside, differ]
      rw [Search.rtakeWhile_plain atSign none, List.takeWhile_append, whole, if_pos rfl,
        List.takeWhile_cons_of_neg (by simp), List.append_nil, Option.filter_some, if_neg (by simpa using inside)]
      rfl

theorem secret_of_validate {quote : GoString → GoString} {config : ReaperConfig}
    (accepted : config.validate quote = none) : config.minIOSecretKey ≠ [] := by
  intro empty
  have sound : config.problems quote = [] := by
    unfold ReaperConfig.validate at accepted
    split at accepted
    · assumption
    · cases accepted
  simp [ReaperConfig.problems, empty] at sound

/-- What is logged of two configurations for one database is the same if and only if
their query strings say nothing behind an at sign, or the same. -/
theorem redacted_alike_iff (quote : GoString → GoString) {config config' : ReaperConfig} {dsn other : Dsn}
    (accepted : config.validate quote = none) (accepted' : config'.validate quote = none)
    (url : config.databaseURL = dsn.text) (url' : config'.databaseURL = other.text) (same : dsn.SameTarget other)
    (alike : config' = { config with
      databaseURL := config'.databaseURL
      minIOSecretKey := config'.minIOSecretKey }) :
    (redactDSN dsn.text = redactDSN other.text ↔ dsn.Concealed other) ∧
      (config.redacted = config'.redacted ↔ dsn.Concealed other) := by
  obtain ⟨front, shown⟩ := redactDSN_eq dsn.scheme
  have urls : redactDSN dsn.text = redactDSN other.text ↔ dsn.Concealed other := by
    unfold Dsn.text
    rw [← same.scheme, shown, shown, shown_eq, shown_eq, List.append_cancel_left_eq]
    exact Iff.rfl
  refine ⟨urls, ?_⟩
  rw [← urls, ← url, ← url', alike]
  simp [ReaperConfig.redacted, secret_of_validate accepted, secret_of_validate accepted']

/-- A connection string with a user, a password and parameters. -/
def sampleDsn (userinfo query : String) : Dsn where
  scheme := octets "postgres"
  userinfo := octets userinfo
  host := octets "db"
  port := some (octets "5432")
  db := octets "slothbox"
  query := some (octets query)
  plain := by decide +kernel

def sampleReaperConfig (dsn : Dsn) (minIOSecretKey : String) : ReaperConfig where
  databaseURL := dsn.text
  minIOEndpoint := octets "minio:9000"
  minIOAccessKey := octets "reaper"
  minIOSecretKey := octets minIOSecretKey
  minIOBucket := octets "slothbox"
  minIOUseSSL := false
  interval := 60000000000
  batchSize := 100
  logLevel := octets "info"
  metricsAddr := []

def quoted (s : GoString) : GoString := octets "\"" ++ s ++ octets "\""

def firstConfig : ReaperConfig := sampleReaperConfig (sampleDsn "slothbox:pw" "password=hunter@2&sslmode=require") "secret"

def secondConfig : ReaperConfig := sampleReaperConfig (sampleDsn "reaper:p@w?" "password=hunter@3&sslmode=require") "other"

def thirdConfig : ReaperConfig := sampleReaperConfig (sampleDsn "reaper:p@w?" "password=hunter3") "other"

def fourthConfig : ReaperConfig := sampleReaperConfig (sampleDsn "slothbox:pw" "sslmode=require") "secret"

theorem samples_accepted : ∀ config ∈ [firstConfig, secondConfig, thirdConfig, fourthConfig],
    config.validate quoted = none := by
  decide +kernel

theorem redacted_alike_iff_sample :
    thirdConfig.redacted = fourthConfig.redacted ∧ firstConfig.redacted ≠ secondConfig.redacted := by
  have accepted := samples_accepted
  simp only [List.forall_mem_cons] at accepted
  obtain ⟨first, second, third, fourth, -⟩ := accepted
  have plain := redacted_alike_iff quoted third fourth rfl rfl ⟨rfl, rfl, rfl, rfl⟩ rfl
  have marked := redacted_alike_iff quoted first second rfl rfl ⟨rfl, rfl, rfl, rfl⟩ rfl
  refine ⟨plain.2.mpr (Dsn.concealed_of_plain ⟨rfl, rfl, rfl, rfl⟩ ?_ ?_), mt marked.2.mp ?_⟩
  all_goals decide +kernel

/-- Two passwords in the query string that differ behind an at sign. -/
theorem redaction_leaks : ¬∀ (quote : GoString → GoString) (config config' : ReaperConfig) (dsn other : Dsn),
    config.validate quote = none → config'.validate quote = none → config.databaseURL = dsn.text →
      config'.databaseURL = other.text → dsn.SameTarget other → redactDSN dsn.text = redactDSN other.text := by
  intro conceals
  have accepted := samples_accepted
  simp only [List.forall_mem_cons] at accepted
  have same := conceals quoted firstConfig secondConfig _ _ accepted.1 accepted.2.1 rfl rfl ⟨rfl, rfl, rfl, rfl⟩
  have differ : redactDSN firstConfig.databaseURL ≠ redactDSN secondConfig.databaseURL := by decide +kernel
  exact differ same

end SlothBox.Proofs

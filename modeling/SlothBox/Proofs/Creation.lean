import SlothBox.Proofs.Locking
import SlothBox.Proofs.Schema

/-! From an accepted body to the row and back. The rule for the password fields stands in
the schema, in a CHECK and in the answer to a GET, and the three agree; whatever a share
goes through until it ends, a GET describes it as it was declared. -/

namespace SlothBox.Proofs
open Library

/-! ### The same bytes -/

theorem isUrlChar_of_isBase64UrlChar {c : Char} (urlSafe : isBase64UrlChar c) : Base64.IsUrlChar c := by
  simp only [isBase64UrlChar, Bool.or_eq_true, beq_iff_eq] at urlSafe
  rcases urlSafe with (letter | score) | minus
  · exact .inl letter
  · exact .inr (.inr score)
  · exact .inr (.inl minus)

theorem decodeBase64Url_ok {units : List ℕ} {bytes : Bytes} :
    decodeBase64Url units = .ok bytes ↔ units ≠ [] ∧ (∀ unit ∈ units, isBase64UrlChar (Char.ofNat unit)) ∧
      bytes = Base64.bufferFrom ((units.map Char.ofNat).map Base64.ofUrlChar ++ Base64.padding units.length) := by
  have filler : ∀ n, (Base64.padding n).map Base64.ofUrlChar = Base64.padding n := by
    intro n
    rw [Base64.padding, List.map_replicate]
    rfl
  simp only [decodeBase64Url, bind_ok, throwIf_ok, not_or, not_not, exists_const, List.map_append, filler,
    List.length_map, List.map_eq_nil_iff, List.all_map, List.all_eq_true, Function.comp_apply, pure, Except.pure,
    Except.ok.injEq, and_assoc]
  exact and_congr_right fun _ => and_congr_right fun _ => eq_comm

private theorem not_space {c : Char} (known : c.isAlphanum ∨ c = '+' ∨ c = '/' ∨ c = '=') :
    c ≠ ' ' ∧ c ≠ '\t' ∧ c ≠ '\n' ∧ c ≠ '\x0c' ∧ c ≠ '\r' := by
  rcases known with letter | rfl | rfl | rfl
  · refine ⟨?_, ?_, ?_, ?_, ?_⟩ <;>
    · rintro rfl
      exact absurd letter (by decide)
  · decide
  · decide
  · decide

/-- Where the browser can read what it has sent, it reads what the gateway has read. -/
theorem decoders_agree {units : List ℕ} {bytes other : Bytes} (gateway : decodeBase64Url units = .ok bytes)
    (browser : base64UrlToBytes (String.ofList (units.map Char.ofNat)) = .ok other) : other = bytes := by
  obtain ⟨-, safe, rfl⟩ := decodeBase64Url_ok.mp gateway
  have urlSafe : ∀ c ∈ units.map Char.ofNat, Base64.IsUrlChar c := by
    intro c member
    obtain ⟨unit, inside, rfl⟩ := List.mem_map.mp member
    exact isUrlChar_of_isBase64UrlChar (safe unit inside)
  have length : Utf16.length (String.ofList (units.map Char.ofNat)) = units.length := by
    rw [utf16_length_basic fun c member => Nat.lt_trans (urlChar_lt (urlSafe c member)) (by decide), List.length_map]
  have plain : ∀ c ∈ (units.map Char.ofNat).map Base64.ofUrlChar ++ Base64.padding units.length,
      c ≠ ' ' ∧ c ≠ '\t' ∧ c ≠ '\n' ∧ c ≠ '\x0c' ∧ c ≠ '\r' := by
    intro c member
    rcases List.mem_append.mp member with member | member
    · obtain ⟨d, inside, rfl⟩ := List.mem_map.mp member
      refine not_space ?_
      rcases urlSafe d inside with letter | rfl | rfl
      · have minus : d ≠ '-' := by
          rintro rfl
          exact absurd letter (by decide)
        have score : d ≠ '_' := by
          rintro rfl
          exact absurd letter (by decide)
        rw [Base64.ofUrlChar, if_neg minus, if_neg score]
        exact .inl letter
      · exact .inr (.inl rfl)
      · exact .inr (.inr (.inl rfl))
    · exact not_space (.inr (.inr (.inr (List.eq_of_mem_replicate member))))
  rw [base64UrlToBytes, String.toList_ofList, length] at browser
  cases decoded : Base64.atob ((units.map Char.ofNat).map Base64.ofUrlChar ++ Base64.padding units.length) with
  | none =>
    rw [decoded] at browser
    cases browser
  | some result =>
    rw [decoded] at browser
    cases browser
    exact (Base64.bufferFrom_of_atob plain decoded).symm

/-! ### The row -/

section Row
variable {config : GatewayConfig} {dates : Dates} {clock : Timestamp} {body : CreateShareBody}

theorem decodePresent_ok {field : Option (List ℕ)} {width : ℕ}
    (encodes : ∀ units, field = some units → Encodes width units) :
    ∃ bytes, decodePresent field = .ok bytes ∧ (field = none → bytes = none) ∧
      ∀ units, field = some units → ∃ decoded, bytes = some decoded ∧ decodeBase64Url units = .ok decoded ∧
        decoded.length = width := by
  cases field with
  | none => exact ⟨none, rfl, fun _ => rfl, nofun⟩
  | some units =>
    obtain ⟨decoded, same, length⟩ := encodes units rfl
    have filled := (encodes units rfl).ne_nil
    refine ⟨some decoded, ?_, nofun, fun other present => ?_⟩
    · unfold decodePresent
      split
      next absent => cases absent
      next empty => exact absurd (Option.some.inj empty) filled
      next other _ present =>
        cases present
        rw [same]
        rfl
    · cases present
      exact ⟨decoded, rfl, same, length⟩

/-- Nothing that the handler does with an accepted body fails, if only the description is
in the right alphabet. -/
theorem request_exists (checked : Checked config dates clock body)
    (described : ∀ unit ∈ body.encryptedMeta, isBase64UrlChar (Char.ofNat unit)) (id shortId : String) :
    ∃ request, body.request config dates id shortId = .ok request := by
  obtain ⟨fileHash, hash, -⟩ := checked.fileHash
  obtain ⟨nonceMeta, nonce, -⟩ := checked.nonceMeta
  obtain ⟨salt, hasSalt, -⟩ := decodePresent_ok checked.passwordSalt
  obtain ⟨revoke, hasRevoke, -⟩ := decodePresent_ok checked.revokeTokenHash
  obtain ⟨time, dated, -⟩ := checked.expiresAt
  refine ⟨_, bind_ok.mpr ⟨fileHash, hash, bind_ok.mpr ⟨nonceMeta, nonce, bind_ok.mpr ⟨_, decodeBase64Url_ok.mpr ⟨checked.encryptedMeta, described, rfl⟩,
    bind_ok.mpr ⟨salt, hasSalt, bind_ok.mpr ⟨revoke, hasRevoke, bind_ok.mpr ⟨time, ?_, rfl⟩⟩⟩⟩⟩⟩⟩
  rw [dated]
  rfl

/-- The password fields of the request: all three within their bounds, or none. -/
theorem request_password {request : CreateRequest} (checked : Checked config dates clock body)
    (decodes : Decodes dates body request) :
    (request.passwordProtected = true ∧ ∃ units salt opsLimit memLimitKib, body.passwordSalt = some units ∧
        decodeBase64Url units = .ok salt ∧ salt.length = 16 ∧
        body.passwordKdfOpsLimit = some (.finite (opsLimit : ℕ)) ∧ 1 ≤ opsLimit ∧ opsLimit ≤ 10 ∧
        body.passwordKdfMemLimitKib = some (.finite (memLimitKib : ℕ)) ∧ 8192 ≤ memLimitKib ∧ memLimitKib ≤ 1048576 ∧
        request.passwordSalt = some salt ∧ request.passwordKdfOpsLimit = some opsLimit ∧
        request.passwordKdfMemLimitKib = some memLimitKib) ∨
      (request.passwordProtected = false ∧ request.passwordSalt = none ∧ request.passwordKdfOpsLimit = none ∧
        request.passwordKdfMemLimitKib = none) := by
  obtain ⟨decoded, same, absent, present⟩ := decodePresent_ok checked.passwordSalt
  obtain rfl : decoded = request.passwordSalt := Except.ok.inj (same.symm.trans decodes.passwordSalt)
  obtain ⟨opsSame, memSame⟩ := decodes.costs
  rcases passwordIssues_nil checked.password with ⟨protect, units, ops, mem, hasSalt, hasOps, hasMem⟩ |
    ⟨protect, noSalt, noOps, noMem⟩
  · obtain ⟨salt, stored, read, width⟩ := present units hasSalt
    obtain ⟨opsLimit, rfl, opsLow, opsHigh⟩ := checked.passwordKdfOpsLimit ops hasOps
    obtain ⟨memLimitKib, rfl, memLow, memHigh⟩ := checked.passwordKdfMemLimitKib mem hasMem
    rw [hasOps, Option.map_some, Double.toNat_nat] at opsSame
    rw [hasMem, Option.map_some, Double.toNat_nat] at memSame
    exact .inl ⟨decodes.flags.2.trans protect, units, salt, opsLimit, memLimitKib, hasSalt, read, width, hasOps,
      by omega, by omega, hasMem, by omega, by omega, stored, opsSame, memSame⟩
  · rw [noOps] at opsSame
    rw [noMem] at memSame
    exact .inr ⟨decodes.flags.2.trans protect, absent noSalt, opsSame, memSame⟩

theorem row_checks {request : CreateRequest} (checked : Checked config dates clock body)
    (decodes : Decodes dates body request) {now : Timestamp} (future : now < request.expiresAt) :
    (request.row now).checks := by
  obtain ⟨-, count, size, -⟩ := decodes.numbers
  have counted := checked.chunkCount.eq_toNat.2.1
  have sized := checked.chunkSize.eq_toNat.2.1
  obtain ⟨revoke, same, absent, present⟩ := decodePresent_ok checked.revokeTokenHash
  obtain rfl : revoke = request.revokeTokenHash := Except.ok.inj (same.symm.trans decodes.revokeTokenHash)
  have revokes : request.revokeTokenHash.all (·.length == 32) := by
    cases hash : body.revokeTokenHash with
    | none =>
      rw [absent hash]
      rfl
    | some units =>
      obtain ⟨decoded, stored, -, width⟩ := present units hash
      rw [stored]
      exact beq_of_eq width
  have password : (if request.passwordProtected then
      request.passwordSalt.all (·.length == 16) && request.passwordKdfOpsLimit.all (fun ops => 1 ≤ ops && ops ≤ 10) &&
        request.passwordKdfMemLimitKib.all (fun kib => 8192 ≤ kib && kib ≤ 1048576)
      else request.passwordSalt.isNone && request.passwordKdfOpsLimit.isNone &&
        request.passwordKdfMemLimitKib.isNone) = true := by
    rcases request_password checked decodes with ⟨protect, units, salt, ops, mem, -, -, width, -, opsLow, opsHigh, -,
      memLow, memHigh, hasSalt, hasOps, hasMem⟩ | ⟨protect, noSalt, noOps, noMem⟩
    · simp [protect, hasSalt, hasOps, hasMem, width, opsLow, opsHigh, memLow, memHigh]
    · simp [protect, noSalt, noOps, noMem]
  have timely : now < request.expiresAt := future
  have filled : 0 < request.chunkCount := by omega
  have unit : 0 < request.chunkSize := by omega
  simp only [ShareRow.checks, CreateRequest.row, revokes, timely, filled, unit, decide_true, Bool.and_self,
    Bool.and_true, Bool.true_and]
  exact password

theorem row_fits {request : CreateRequest} (checked : Checked config dates clock body)
    (decodes : Decodes dates body request) (bigint : config.maxFileSizeBytes < 2 ^ 63)
    (int32 : config.maxChunkSizeBytes < 2 ^ 31) (now : Timestamp) : (request.row now).fits := by
  obtain ⟨file, count, size, max⟩ := decodes.numbers
  have fileBound := checked.fileSize.eq_toNat.2.2
  have countBound := checked.chunkCount.eq_toNat.2.2
  have sizeBound := checked.chunkSize.eq_toNat.2.2
  have caps : request.maxDownloads.all (· < 2 ^ 31) := by
    cases cap : body.maxDownloads with
    | none => rw [max, cap]; rfl
    | some value =>
      have bound := (checked.maxDownloads value cap).eq_toNat.2.2
      rw [max, cap]
      exact decide_eq_true (by omega)
  have costs : request.passwordKdfOpsLimit.all (· < 2 ^ 15) ∧ request.passwordKdfMemLimitKib.all (· < 2 ^ 31) := by
    rcases request_password checked decodes with ⟨-, units, salt, ops, mem, -, -, -, -, -, opsHigh, -, -, memHigh, -,
      hasOps, hasMem⟩ | ⟨-, -, noOps, noMem⟩
    · rw [hasOps, hasMem]
      exact ⟨decide_eq_true (by omega), decide_eq_true (by omega)⟩
    · rw [noOps, noMem]
      exact ⟨rfl, rfl⟩
  have fileFits : request.fileSize < 2 ^ 63 := by omega
  have countFits : request.chunkCount < 2 ^ 31 := by omega
  have sizeFits : request.chunkSize < 2 ^ 31 := by omega
  simp only [ShareRow.fits, CreateRequest.row, caps, costs, fileFits, countFits, sizeFits, decide_true, Bool.and_self]

/-! ### The answer -/

/-- A text of the answer stands for the bytes of a field of the body: the gateway has read
them there, the browser reads them here, and if it could read the field it would read
the same. -/
def SameBytes (field : List ℕ) (text : String) : Prop :=
  ∃ bytes, decodeBase64Url field = .ok bytes ∧ base64UrlToBytes text = .ok bytes ∧
    ∀ other, base64UrlToBytes (String.ofList (field.map Char.ofNat)) = .ok other → other = bytes

/-- The answer describes what the body declared. -/
structure Describes (body : CreateShareBody) (response : ShareResponse) : Prop where
  fileSize : ∃ size : ℕ, body.fileSize = .finite size ∧ response.fileSize = toString size
  chunkCount : body.chunkCount = .finite response.chunkCount
  chunkSize : body.chunkSize = .finite response.chunkSize
  burnAfterRead : response.burnAfterRead = body.burnAfterRead
  encryptedMeta : SameBytes body.encryptedMeta response.encryptedMeta
  nonceMeta : SameBytes body.nonceMeta response.nonceMeta
  enabled : response.password.isEnabled = body.passwordProtected
  password : ∀ salt opsLimit memLimitKib, response.password = .enabled salt opsLimit memLimitKib →
    (∃ units, body.passwordSalt = some units ∧ SameBytes units salt) ∧
      body.passwordKdfOpsLimit = some (.finite opsLimit) ∧ body.passwordKdfMemLimitKib = some (.finite memLimitKib)

theorem sameBytes {field : List ℕ} {bytes : Bytes} (read : decodeBase64Url field = .ok bytes) :
    SameBytes field (encodeBase64Url bytes) :=
  ⟨bytes, read, base64_roundtrip bytes, fun _ browser => decoders_agree read browser⟩

/-- The facet shows the password fields of a share that has them. -/
theorem passwordFacet_enabled {row : ShareRow} {salt : Bytes} {opsLimit memLimitKib : ℕ}
    (protect : row.passwordProtected = true) (hasSalt : row.passwordSalt = some salt)
    (hasOps : row.passwordKdfOpsLimit = some opsLimit) (hasMem : row.passwordKdfMemLimitKib = some memLimitKib) :
    row.passwordFacet = .enabled (encodeBase64Url salt) opsLimit memLimitKib := by
  simp only [ShareRow.passwordFacet, protect, hasSalt, hasOps, hasMem]

theorem passwordFacet_disabled {row : ShareRow} (free : row.passwordProtected = false) :
    row.passwordFacet = .disabled := by
  simp only [ShareRow.passwordFacet, free]

theorem row_describes {request : CreateRequest} {created : Timestamp} {row : ShareRow}
    (checked : Checked config dates clock body) (decodes : Decodes dates body request)
    (same : SameTerms (request.row created) row) : Describes body row.response := by
  obtain ⟨file, count, size, -⟩ := decodes.numbers
  obtain ⟨state, downloadCount, destroyedAt, destroyedReason, rfl⟩ := same
  constructor
  case fileSize => exact ⟨_, checked.fileSize.eq_toNat.1, congrArg toString file⟩
  case chunkCount => exact checked.chunkCount.eq_toNat.1.trans (congrArg (fun n : ℕ => Double.finite n) count.symm)
  case chunkSize => exact checked.chunkSize.eq_toNat.1.trans (congrArg (fun n : ℕ => Double.finite n) size.symm)
  case burnAfterRead => exact decodes.flags.1
  case encryptedMeta => exact sameBytes decodes.encryptedMeta
  case nonceMeta => exact sameBytes decodes.nonceMeta
  case enabled =>
    rw [← decodes.flags.2]
    rcases request_password checked decodes with ⟨protect, units, salt, ops, mem, -, -, -, -, -, -, -, -, -, stored, opsLimit,
      memLimit⟩ | ⟨protect, -, -, -⟩
    · rw [protect, ShareRow.response, passwordFacet_enabled protect stored opsLimit memLimit]
      rfl
    · rw [protect, ShareRow.response, passwordFacet_disabled protect]
      rfl
  case password =>
    intro salt opsLimit memLimitKib facet
    rcases request_password checked decodes with ⟨protect, units, bytes, ops, mem, present, read, -, hasOps, -, -, hasMem,
      -, -, stored, storedOps, storedMem⟩ | ⟨protect, -, -, -⟩
    · rw [ShareRow.response, passwordFacet_enabled protect stored storedOps storedMem] at facet
      cases facet
      exact ⟨⟨units, present, sameBytes read⟩, hasOps, hasMem⟩
    · rw [ShareRow.response, passwordFacet_disabled protect] at facet
      cases facet

end Row

/-! ### A whole life -/

section Life
variable {config : GatewayConfig} {dates : Dates} {clock : Timestamp} {body : CreateShareBody} {request : CreateRequest}

/-- Dates have milliseconds, so the handler, which compares those, sees the row expire
together with the database. -/
theorem expires_together (decodes : Decodes dates body request) (now : Timestamp) :
    (request.expiresAt / 1000 : ℕ) ≤ dateNow now ↔ request.expiresAt ≤ now := by
  obtain ⟨time, -, expires⟩ := decodes.expiresAt
  have millis : ∀ time : ℤ, 1000 ∣ (time * 1000).toNat := by omega
  have whole : 1000 ∣ request.expiresAt := expires ▸ millis time
  rw [dateNow, Nat.cast_le, Nat.le_div_iff_mul_le (by decide), Nat.div_mul_cancel whole]

theorem getShare_describes {store : Store} {row : ShareRow} {created now : Timestamp} (checked : Checked config dates clock body)
    (decodes : Decodes dates body request) (same : SameTerms (request.row created) row) (share : store.share = some row)
    (named : validShortId request.shortId) (live : row.state.terminal = false) (alive : row.isExpired now = false) :
    getShare store now request.shortId = .ok row.response ∧ Describes body row.response := by
  refine ⟨?_, row_describes checked decodes same⟩
  have found : store.find request.shortId = some row := find_eq_some.mpr ⟨share, same.shortId⟩
  have early : ¬((row.expiresAt / 1000 : ℕ) : ℤ) ≤ dateNow now := by
    obtain ⟨_, _, _, _, rfl⟩ := same
    exact fun late => of_decide_eq_false alive ((expires_together decodes now).mp late)
  simp only [getShare, named, found, live, early]
  rfl

/-- The INSERT of a valid row into the empty table. -/
theorem insert_stores {env : Env} {before created : World} {pid : Nat} {now : Timestamp} {outcome : Outcome}
    (running : before.procs[pid]? = some (.create request .insert)) (absent : before.db.store.share = none)
    (valid : (request.row now).checks ∧ (request.row now).fits) (executed : takesEffect outcome)
    (taken : (system env).step before (.exec pid now outcome) = some created) :
    created.db.store.share = some (request.row now) := by
  rcases step_cases taken with ⟨_, spawned, -⟩ | ⟨_, _, _, proc, moved, effect, same, current, called, rfl⟩ |
    ⟨_, _, crashed, -⟩
  · cases spawned
  · cases same
    obtain rfl := Option.some.inj (running.symm.trans current)
    rw [Proc.exec] at called
    obtain ⟨after, call, rfl⟩ := handler_exec called
    simp only [CreateStep.exec, absent, valid.1, valid.2, Bool.and_self, if_true, Option.some.injEq] at call
    rcases attempt_cases call with ⟨-, -, rfl⟩ | ⟨-, -, rfl⟩ | ⟨nothing, -, -⟩
    · rfl
    · rfl
    · rw [executed] at nothing
      cases nothing
  · cases crashed

/-- A GET answers with what the body declared, for as long as the share is there and has
neither ended nor expired. -/
def ServedAsDeclared (body : CreateShareBody) (shortId : String) (store : Store) : Prop :=
  ∃ row, store.share = some row ∧ ∀ now, row.state.terminal = false → row.isExpired now = false →
    ∃ response, getShare store now shortId = .ok response ∧ Describes body response

/-- What the schema accepts, the handler decodes, the table takes and a GET gives back. -/
theorem create_then_get (env : Env) (id shortId : String) {data : Json Double}
    (accepted : createShareSchema config dates clock data = .ok (.ok body))
    (described : ∀ unit ∈ body.encryptedMeta, isBase64UrlChar (Char.ofNat unit)) (named : validShortId shortId) :
    ∃ request, body.request config dates id shortId = .ok request ∧
      (∀ now < request.expiresAt, (request.row now).checks) ∧
      (config.maxFileSizeBytes < 2 ^ 63 → config.maxChunkSizeBytes < 2 ^ 31 →
        (∀ now, (request.row now).fits) ∧
        ∀ (earlier later : List Event) (before created world : World) (pid : Nat) (now : Timestamp) (outcome : Outcome),
          (system env).Run (fun _ _ => True) (World.start .empty) earlier before →
          before.db.store.share = none → before.procs[pid]? = some (.create request .insert) →
          now < request.expiresAt → takesEffect outcome →
          (system env).step before (.exec pid now outcome) = some created →
          (system env).Run (fun _ _ => True) created later world →
          ServedAsDeclared body shortId world.db.store) := by
  have checked := createShareSchema_ok accepted
  obtain ⟨request, decoded⟩ := request_exists checked described id shortId
  obtain ⟨-, rfl, decodes⟩ := request_ok decoded
  refine ⟨request, decoded, fun now future => row_checks checked decodes future, fun bigint int32 => ?_⟩
  have fits := row_fits checked decodes bigint int32
  refine ⟨fits, fun earlier later before created world pid now outcome run absent running future executed taken rest => ?_⟩
  have locked := locked_step (locked_reached run) taken
  have stored := insert_stores running absent ⟨row_checks checked decodes future, fits now⟩ executed taken
  obtain ⟨row, share, same⟩ := run_terms locked rest stored
  exact ⟨row, share, fun clock live alive => ⟨_, getShare_describes checked decodes same share named live alive⟩⟩

/-- Three bytes in two chunks, read after the handler has appended its audit entry. -/
theorem create_then_get_sample : ∃ earlier before created later world response,
    (system sampleEnv).Run (fun _ _ => True) (World.start .empty) earlier before ∧
      (system sampleEnv).step before (.exec 0 5 .ok) = some created ∧
      (system sampleEnv).Run (fun _ _ => True) created later world ∧
      getShare world.db.store 9 "abcdefghjkmn" = .ok response ∧ Describes (sampleBody 3 2 2) response := by
  have accepted : createShareSchema {} sampleDates 5 (sampleJson 3 2 2) = .ok (.ok (sampleBody 3 2 2)) := by
    decide +kernel
  obtain ⟨request, decoded, -, limits⟩ := create_then_get sampleEnv "8c1f0d6e" "abcdefghjkmn" accepted
    (by decide +kernel) (by decide +kernel)
  obtain rfl := Except.ok.inj ((sampleBody_request 3 2 2).symm.trans decoded)
  have waiting : (system sampleEnv).Run (fun _ _ => True) (World.start .empty)
      [.spawn (.create (sampleDeclared 3 2 2)), .exec 0 5 .ok]
      ⟨⟨.empty, none⟩, [.create (sampleDeclared 3 2 2) .insert]⟩ :=
    .cons trivial rfl (.cons trivial rfl .nil)
  have taken : (system sampleEnv).step ⟨⟨.empty, none⟩, [.create (sampleDeclared 3 2 2) .insert]⟩ (.exec 0 5 .ok) =
      some ⟨⟨{ Store.empty with share := some ((sampleDeclared 3 2 2).row 5) }, none⟩,
        [.create (sampleDeclared 3 2 2) (.append ((sampleDeclared 3 2 2).event 5))]⟩ := rfl
  obtain ⟨row, share, reads⟩ := (limits (by decide) (by decide)).2 _ [.exec 0 7 .ok] _ _ _ _ _ _ waiting rfl rfl
    (by decide) rfl taken (.cons trivial rfl .nil)
  obtain rfl := Option.some.inj share
  obtain ⟨response, answered, described⟩ := reads 9 rfl rfl
  exact ⟨_, _, _, [.exec 0 7 .ok], _, response, waiting, taken, .cons trivial rfl .nil, answered, described⟩

end Life

end SlothBox.Proofs

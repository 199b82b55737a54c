import SlothBox.Proofs.Blobs
import SlothBox.Proofs.EndToEnd
import SlothBox.Proofs.Schema

/-! Three services bound the same three numbers. The browser bounds the file, the gateway
the storage in whole chunks, and the ingest service every chunk by itself; the bounds
part where the last chunk is counted in full, and where there are more chunks than the
file can fill. -/

namespace SlothBox.Proofs
open Library

/-! ### The gateway's bounds -/

/-- The bounds of the three size fields and the two checks across them. -/
structure AdmitsSizes (config : GatewayConfig) (file count size : Double) : Prop where
  fileSize : (fileSizeField config (some (.number file))).Accepts file
  chunkCount : (chunkCountField (some (.number count))).Accepts count
  chunkSize : (chunkSizeField config (some (.number size))).Accepts size
  storage : ∀ body : CreateShareBody, body.fileSize = file → body.chunkCount = count → body.chunkSize = size →
    body.storageIssues config = []

section Gateway
variable {config : GatewayConfig}

theorem within_nat {n : ℕ} {low most : ℤ} : Within (.finite n) low most ↔ low ≤ n ∧ n ≤ most := by
  constructor
  · rintro ⟨m, same, bounds⟩
    have equal : n = m := by exact_mod_cast Double.finite.inj same
    rwa [equal]
  · exact fun bounds => ⟨n, rfl, bounds⟩

/-- The sizes of an accepted body are admitted. -/
theorem Checked.admitsSizes {dates : Dates} {clock : Timestamp} {body : CreateShareBody}
    (checked : Checked config dates clock body) :
    AdmitsSizes config body.fileSize body.chunkCount body.chunkSize where
  fileSize := (integerField_accepts (by decide)).mpr ⟨rfl, checked.fileSize⟩
  chunkCount := (integerField_accepts (by decide)).mpr ⟨rfl, checked.chunkCount⟩
  chunkSize := (integerField_accepts (by decide)).mpr ⟨rfl, checked.chunkSize⟩
  storage other file count size := by
    have same : other.storageIssues config = body.storageIssues config := by
      simp only [CreateShareBody.storageIssues, file, count, size]
    rw [same, checked.storage]

theorem admitsSizes_nat {fileSize chunkCount chunkSize : ℕ} (exact : chunkCount * chunkSize < 2 ^ 53) :
    AdmitsSizes config (.finite fileSize) (.finite chunkCount) (.finite chunkSize) ↔
      (0 < fileSize ∧ fileSize ≤ config.maxFileSizeBytes) ∧ (0 < chunkCount ∧ chunkCount ≤ 100000) ∧
        (0 < chunkSize ∧ chunkSize + 16 ≤ config.maxChunkSizeBytes) ∧
        chunkCount * chunkSize ≤ config.maxFileSizeBytes ∧ fileSize ≤ chunkCount * chunkSize := by
  have file : (fileSizeField config (some (.number (.finite fileSize)))).Accepts (.finite fileSize) ↔
      0 < fileSize ∧ fileSize ≤ config.maxFileSizeBytes := by
    rw [fileSizeField, integerField_accepts (by decide), within_nat, least, and_iff_right rfl]
    omega
  have count : (chunkCountField (some (.number (.finite chunkCount)))).Accepts (.finite chunkCount) ↔
      0 < chunkCount ∧ chunkCount ≤ 100000 := by
    rw [chunkCountField, integerField_accepts (by decide), within_nat, least, and_iff_right rfl]
    omega
  have size : (chunkSizeField config (some (.number (.finite chunkSize)))).Accepts (.finite chunkSize) ↔
      0 < chunkSize ∧ chunkSize + 16 ≤ config.maxChunkSizeBytes := by
    rw [chunkSizeField, integerField_accepts (by decide), within_nat, least, gatewayAeadTagBytes, and_iff_right rfl]
    omega
  constructor
  · intro admits
    refine ⟨file.mp admits.fileSize, count.mp admits.chunkCount, size.mp admits.chunkSize, ?_⟩
    -- the other fields do not matter
    let body : CreateShareBody :=
      ⟨.finite fileSize, [], [], [], .finite chunkCount, .finite chunkSize, [], false, none, false, none, none, none, none⟩
    exact (storageIssues_nil (rfl : body.fileSize = _) rfl rfl exact).mp (admits.storage body rfl rfl rfl)
  · rintro ⟨fileBounds, countBounds, sizeBounds, storage⟩
    exact ⟨file.mpr fileBounds, count.mpr countBounds, size.mpr sizeBounds,
      fun body file count size => (storageIssues_nil file count size exact).mpr storage⟩

/-- The sizes of a created share, where they fit into their columns. -/
theorem created_bounds {dates : Dates} {clock : Timestamp} {body : CreateShareBody} {request : CreateRequest}
    (checked : Checked config dates clock body) (decodes : Decodes dates body request)
    (small : request.chunkSize < 2 ^ 31) :
    (0 < request.fileSize ∧ request.fileSize ≤ config.maxFileSizeBytes) ∧
      (0 < request.chunkCount ∧ request.chunkCount ≤ 100000) ∧
      (0 < request.chunkSize ∧ request.chunkSize + 16 ≤ config.maxChunkSizeBytes) ∧
      request.chunkCount * request.chunkSize ≤ config.maxFileSizeBytes ∧
      request.fileSize ≤ request.chunkCount * request.chunkSize := by
  have admits := checked.admitsSizes
  obtain ⟨file, count, size, -⟩ := decodes.numbers
  rw [checked.fileSize.eq_toNat.1, checked.chunkCount.eq_toNat.1, checked.chunkSize.eq_toNat.1, ← file, ← count,
    ← size] at admits
  have few : request.chunkCount ≤ 100000 := by
    have := checked.chunkCount.eq_toNat.2.2
    omega
  have exact : request.chunkCount * request.chunkSize < 2 ^ 53 := by
    have := Nat.mul_le_mul few small.le
    omega
  exact (admitsSizes_nat exact).mp admits

end Gateway

/-! ### The browser's request -/

/-- A number as it arrives: read from the digits that were written. -/
def sentNumber (n : ℕ) : Double := .ofDecimal false n 0

theorem chunkCount_le_iff {config : WebConfig} {file : File} (filled : 0 < file.size) {pieces : ℕ} :
    chunkCount config file ≤ pieces ↔ file.size ≤ pieces * config.chunkSizeBytes :=
  ⟨fun most => (chunkCount_bounds filled).2.2.trans (Nat.mul_le_mul_right _ most), chunkCount_least filled⟩

section Browser
variable {sodium : Sodium} {web : WebConfig} {gateway : GatewayConfig} {random : Randomness} {file : File}
  {options : UploadOptions} {server : UploadServer} {expiresAt : String} {request : CreateShareRequest}

/-- The numbers of the request: the file, and the least number of chunks that hold it. -/
theorem created_sizes (chunk : web.chunkSizeBytes = 5 * 1024 * 1024)
    (created : (uploadFile sodium web random file options server expiresAt).created = some request) :
    0 < request.chunkCount ∧ request.fileSize ≤ request.chunkCount * request.chunkSize ∧
      (∀ pieces, request.chunkCount ≤ pieces ↔ file.size ≤ pieces * (5 * 1024 * 1024)) ∧
      sentNumber request.fileSize = .finite file.size ∧ sentNumber request.chunkCount = .finite request.chunkCount ∧
      request.chunkSize = 5 * 1024 * 1024 ∧ sentNumber request.chunkSize = .finite (5 * 1024 * 1024 : ℕ) := by
  obtain ⟨filled, -, encryptedMeta, rfl⟩ := uploadFile_created created
  obtain ⟨nonzero, few, reach⟩ := @chunkCount_bounds web file filled
  have safe : file.size < 2 ^ 53 := file.safe
  refine ⟨nonzero, reach, fun pieces => ?_, ofDecimal_nat safe, ofDecimal_nat (few.trans_lt safe), chunk, ?_⟩
  · rw [← chunk]
    exact chunkCount_le_iff filled
  · rw [createRequest, chunk]
    exact ofDecimal_nat (by norm_num)

/-- The gateway admits the sizes of a browser's request exactly where the file, counted in
whole chunks, stays below its limit: the last chunk may take the sum beyond a limit that
is no multiple of the chunk size. -/
theorem browser_sizes_admitted (chunk : web.chunkSizeBytes = 5 * 1024 * 1024)
    (same : web.maxFileSizeBytes = gateway.maxFileSizeBytes)
    (created : (uploadFile sodium web random file options server expiresAt).created = some request) :
    AdmitsSizes gateway (sentNumber request.fileSize) (sentNumber request.chunkCount) (sentNumber request.chunkSize) ↔
      file.size ≤ gateway.maxFileSizeBytes / (5 * 1024 * 1024) * (5 * 1024 * 1024) ∧
        file.size ≤ 100000 * (5 * 1024 * 1024) ∧ 5 * 1024 * 1024 + 16 ≤ gateway.maxChunkSizeBytes := by
  obtain ⟨filled, fits, -⟩ := uploadFile_created created
  obtain ⟨nonzero, reach, least, fileSize, chunkCount, size, chunkSize⟩ := created_sizes chunk created
  rw [fileSize, chunkCount, chunkSize, ← least, ← least, Nat.le_div_iff_mul_le (by norm_num)]
  rw [size] at reach
  have sizes : request.fileSize = file.size := by
    obtain ⟨-, -, -, rfl⟩ := uploadFile_created created
    rfl
  by_cases few : request.chunkCount ≤ 100000
  · have exact : request.chunkCount * (5 * 1024 * 1024) < 2 ^ 53 := by omega
    rw [admitsSizes_nat exact]
    constructor
    · rintro ⟨-, -, ⟨-, room⟩, storage, -⟩
      exact ⟨storage, few, room⟩
    · rintro ⟨storage, -, room⟩
      exact ⟨⟨filled, same ▸ fits⟩, ⟨nonzero, few⟩, ⟨by norm_num, room⟩, storage, sizes ▸ reach⟩
  · constructor
    · intro admits
      have bound := ((integerField_accepts (by decide)).mp admits.chunkCount).2
      rw [within_nat] at bound
      omega
    · rintro ⟨-, bound, -⟩
      exact absurd bound few

/-- A file within the limit gets as far as the request. -/
theorem uploadFile_creates (web : WebConfig) (random : Randomness) (file : File) (server : UploadServer)
    (expiresAt : String) (lawful : Lawful sodium) (filled : 0 < file.size) (fits : file.size ≤ web.maxFileSizeBytes) :
    ∃ request, (uploadFile sodium web random file {} server expiresAt).created = some request := by
  obtain ⟨description, encryptedMeta, prepared⟩ : ∃ description encryptedMeta,
      prepareUpload sodium web random file {} = .ok (description, encryptedMeta) :=
    prepareUpload_returns lawful filled fits ⟨rfl, rfl⟩ (fun _ absent => by cases absent)
  refine ⟨createRequest sodium web random file {} expiresAt encryptedMeta, ?_⟩
  rw [uploadFile, prepared]
  dsimp only
  split
  next => rfl
  next => split <;> rfl

end Browser

/-- The web application as it is built by default. -/
def defaultWeb : WebConfig where
  publicUrl := "http://localhost"
  ingestUrl := "http://localhost"
  maxFileSizeBytes := 1024 * 1024 * 1024
  chunkSizeBytes := 5 * 1024 * 1024
  noFragment := by decide
  positive := by decide
  safe := by decide

theorem browser_sizes_admitted_small : ∃ request,
    (uploadFile sampleSodium defaultWeb sampleRandom sampleFile {} sampleServer "2026-01-02T00:00:00.000Z").created =
        some request ∧
      AdmitsSizes {} (sentNumber request.fileSize) (sentNumber request.chunkCount) (sentNumber request.chunkSize) := by
  obtain ⟨request, created⟩ := uploadFile_creates defaultWeb sampleRandom sampleFile sampleServer
    "2026-01-02T00:00:00.000Z" (sampleSodium_lawful sampleOpen) (by decide) (by decide)
  exact ⟨request, created, (browser_sizes_admitted rfl rfl created).mpr (by decide)⟩

/-- As many zeros as the browser takes at most. -/
def fullFile : File where
  name := "full.bin"
  type := ""
  content := List.replicate (1024 * 1024 * 1024) 0
  safe := by
    rw [List.length_replicate]
    norm_num

/-- A file of 1 GiB takes 205 chunks, which the gateway counts as 1025 MiB. -/
theorem full_file_refused :
    ¬ ∀ (sodium : Sodium) (web : WebConfig) (gateway : GatewayConfig) (random : Randomness) (file : File)
      (options : UploadOptions) (server : UploadServer) (expiresAt : String) (request : CreateShareRequest),
      web.chunkSizeBytes = 5 * 1024 * 1024 → web.maxFileSizeBytes = gateway.maxFileSizeBytes →
      1024 * 1024 ∣ gateway.maxFileSizeBytes → gateway.maxChunkSizeBytes = 10 * 1024 * 1024 →
      (uploadFile sodium web random file options server expiresAt).created = some request →
      AdmitsSizes gateway (sentNumber request.fileSize) (sentNumber request.chunkCount)
        (sentNumber request.chunkSize) := by
  intro claimed
  have size : fullFile.size = 1024 * 1024 * 1024 := List.length_replicate
  obtain ⟨request, created⟩ := uploadFile_creates defaultWeb sampleRandom fullFile sampleServer
    "2026-01-02T00:00:00.000Z" (sampleSodium_lawful sampleOpen) (by rw [size]; norm_num)
    (by rw [size]; exact Nat.le_refl _)
  have admits := claimed _ defaultWeb {} _ fullFile _ _ _ request rfl rfl (by decide) rfl created
  obtain ⟨-, -, least, fileSize, chunkCount, -, chunkSize⟩ := created_sizes rfl created
  rw [fileSize, chunkCount, chunkSize] at admits
  have bound := ((integerField_accepts (by decide)).mp admits.chunkCount).2
  rw [within_nat] at bound
  obtain ⟨-, -, -, storage, -⟩ := (admitsSizes_nat (by omega)).mp admits
  have enough : request.chunkCount ≤ 204 := by
    change request.chunkCount * (5 * 1024 * 1024) ≤ 1024 * 1024 * 1024 at storage
    omega
  have reach := (least 204).mp enough
  rw [size] at reach
  omega

/-! ### The ingest service's checks -/

/-- The ciphertext of a full chunk, as the service adds it up. -/
def fullCiphertext (options : IngestOptions) (share : ShareRow) : ℤ :=
  Int.bmod (share.chunkSize + options.aeadTagBytes) (2 ^ 32)

/-- A length that passes for this chunk. -/
structure FitsChunk (options : IngestOptions) (share : ShareRow) (index length : ℕ) : Prop where
  inside : index < share.chunkCount
  filled : 0 < length
  bounded : length ≤ options.maxChunkBytes
  full : index + 1 ≠ share.chunkCount → (length : ℤ) = fullCiphertext options share
  last : index + 1 = share.chunkCount → (length : ℤ) ≤ fullCiphertext options share

section Ingest
variable {options : IngestOptions} {request : PutRequest} {share : ShareRow} {now : Timestamp}

theorem requiredLength_ok {length : ℤ} (required : request.requiredLength = .ok length) :
    request.contentLength = some length ∧ 0 ≤ length := by
  unfold PutRequest.requiredLength at required
  split at required
  next sent found =>
    split at required
    next => cases required
    next natural =>
      cases required
      exact ⟨found, Int.not_lt.mp natural⟩
  next => cases required

theorem check_fits {plan : PutPlan} (admitted : request.check options share now = .ok plan) :
    FitsChunk options share plan.index plan.ciphertextSize := by
  simp only [PutRequest.check, bind_ok, refuseIf_ok] at admitted
  obtain ⟨-, -, -, inside, length, required, -, bounded, -, full, -, last, -, filled, nonce, -, hash, -, same⟩ := admitted
  obtain rfl := Except.ok.inj same
  obtain ⟨-, natural⟩ := requiredLength_ok required
  have exact : (length.toNat : ℤ) = length := Int.toNat_of_nonneg natural
  constructor
  · dsimp only
    omega
  · dsimp only
    omega
  · dsimp only
    omega
  · intro before
    by_contra other
    refine full ⟨fun atEnd => before ?_, fun same => other (exact.trans same)⟩
    dsimp only
    omega
  · intro atEnd
    by_contra larger
    refine last ⟨?_, by rw [exact] at larger; exact Int.not_le.mp larger⟩
    dsimp only at atEnd
    omega

theorem check_of_fits {index length : ℕ} {nonce : Bytes} {hash : Option Bytes} (accepts : share.canAcceptUploads)
    (alive : share.isExpired now = false) (named : request.chunkIndex = index)
    (declared : request.contentLength = some (length : ℤ)) (decoded : request.requiredNonce options = .ok nonce)
    (optional : request.optionalTokenHash = .ok hash) (fits : FitsChunk options share index length) :
    ∃ plan, request.check options share now = .ok plan := by
  have required : request.requiredLength = .ok (length : ℤ) := by
    rw [PutRequest.requiredLength, declared]
    exact if_neg (by omega)
  have inside : ¬((index : ℤ) < 0 ∨ (share.chunkCount : ℤ) ≤ index) := by
    have := fits.inside
    omega
  have bounded : ¬((options.maxChunkBytes : ℤ) < length) := by
    have := fits.bounded
    omega
  have filled : ¬((length : ℤ) = 0) := by
    have := fits.filled
    omega
  have serving : ¬(share.canAcceptUploads = false ∨ share.isExpired now) := by simp [accepts, alive]
  simp only [PutRequest.check, bind_ok, refuseIf_ok, required, decoded, optional, named, exists_const]
  refine ⟨⟨share, index, buildBlobKey request.shortId index, nonce, length, hash⟩, serving, inside, _, rfl, bounded,
    ?_, ?_, filled, _, rfl, _, rfl, rfl⟩
  · rintro ⟨before, other⟩
    exact other (fits.full fun atEnd => before (by omega))
  · rintro ⟨atEnd, larger⟩
    exact absurd (fits.last (by omega)) (Int.not_le.mpr larger)

theorem fullCiphertext_eq (small : share.chunkSize + options.aeadTagBytes < 2 ^ 31) :
    fullCiphertext options share = share.chunkSize + options.aeadTagBytes := by
  unfold fullCiphertext
  exact Int.bmod_eq_of_le (by norm_num; omega) (by norm_num; omega)

/-- A way to cut the declared file into the declared chunks, so that each of them passes
with its tag in some upload. -/
def Uploadable (options : IngestOptions) (share : ShareRow) : Prop :=
  ∃ lengths : List ℕ, lengths.length = share.chunkCount ∧ lengths.sum = share.fileSize ∧
    ∀ (index length : ℕ), lengths[index]? = some length → ∃ (request : PutRequest) (now : Timestamp) (plan : PutPlan),
      request.chunkIndex = index ∧ request.contentLength = some ((length + tagBytes : ℕ) : ℤ) ∧
      request.check options share now = .ok plan

/-- Only an upload of a length that fits passes, and every such length does in some upload. -/
theorem passes_iff_fits {index length : ℕ} (accepts : share.canAcceptUploads) (alive : share.isExpired now = false)
    (nonces : options.nonceBytes = 24) :
    (∃ (request : PutRequest) (now : Timestamp) (plan : PutPlan), request.chunkIndex = index ∧
        request.contentLength = some (length : ℤ) ∧ request.check options share now = .ok plan) ↔
      FitsChunk options share index length := by
  constructor
  · rintro ⟨request, later, plan, named, declared, admitted⟩
    have fits := check_fits admitted
    have planned := check_planned admitted
    have sameIndex : plan.index = index := by exact_mod_cast planned.index.symm.trans named
    have sameLength : plan.ciphertextSize = length := by
      exact_mod_cast Option.some.inj (planned.size.symm.trans declared)
    rwa [sameIndex, sameLength] at fits
  · intro fits
    let request : PutRequest := { samplePut with chunkIndex := index, contentLength := some (length : ℤ) }
    have decodes : tryDecodeBase64Url "AAAAAAAAAAAAAAAAAAAAAAAAAAAAAAAA" = some (List.replicate 24 0) := by decide +kernel
    have present : String.isEmpty "AAAAAAAAAAAAAAAAAAAAAAAAAAAAAAAA" = false := by decide +kernel
    have decoded : request.requiredNonce options = .ok (List.replicate 24 0) := by
      simp only [PutRequest.requiredNonce, request, samplePut, present, decodes, nonces, List.length_replicate,
        Bool.false_eq_true, ↓reduceIte]
    obtain ⟨plan, admitted⟩ := check_of_fits accepts alive (rfl : request.chunkIndex = index) rfl decoded rfl fits
    exact ⟨request, now, plan, rfl, rfl, admitted⟩

/-- Full chunks come first, so their sum has to stay within the file. -/
theorem uploadable_iff (accepts : share.canAcceptUploads) (alive : share.isExpired now = false)
    (nonces : options.nonceBytes = 24) (tags : options.aeadTagBytes = tagBytes)
    (room : share.chunkSize + tagBytes ≤ options.maxChunkBytes) (int32 : options.maxChunkBytes < 2 ^ 31)
    (filled : 0 < share.chunkCount) (holds : share.fileSize ≤ share.chunkCount * share.chunkSize) :
    Uploadable options share ↔ (share.chunkCount - 1) * share.chunkSize ≤ share.fileSize := by
  have full : fullCiphertext options share = share.chunkSize + tagBytes := by
    rw [fullCiphertext_eq (by omega), tags]
  simp only [Uploadable, passes_iff_fits accepts alive nonces]
  obtain ⟨before, count⟩ := Nat.exists_eq_add_of_le' filled
  rw [count, Nat.add_sub_cancel]
  constructor
  · rintro ⟨lengths, pieces, total, fits⟩
    have fullChunks : lengths.take before = List.replicate before share.chunkSize := by
      refine List.eq_replicate_iff.mpr ⟨by rw [List.length_take]; omega, fun length member => ?_⟩
      obtain ⟨index, cut⟩ := List.mem_iff_getElem?.mp member
      rw [List.getElem?_take] at cut
      split at cut
      next inside =>
        have whole := (fits index length cut).full (by omega)
        omega
      next => cases cut
    rw [← total, ← List.take_append_drop before lengths, List.sum_append, fullChunks, List.sum_replicate_nat]
    exact Nat.le_add_right _ _
  · intro below
    refine ⟨List.replicate before share.chunkSize ++ [share.fileSize - before * share.chunkSize], ?_, ?_, ?_⟩
    · rw [List.length_append, List.length_replicate, List.length_singleton]
    · rw [List.sum_append, List.sum_replicate_nat, List.sum_singleton, Nat.add_sub_cancel' below]
    · intro index length cut
      have rest : share.fileSize - before * share.chunkSize ≤ share.chunkSize := by
        rw [count, Nat.succ_mul] at holds
        omega
      rw [List.getElem?_append, List.length_replicate] at cut
      split at cut
      next early =>
        rw [List.getElem?_replicate, if_pos early] at cut
        obtain rfl := Option.some.inj cut
        exact ⟨by omega, by rw [tagBytes]; omega, room, fun _ => by omega, fun _ => by omega⟩
      next late =>
        rw [List.getElem?_singleton] at cut
        split at cut
        next atEnd =>
          obtain rfl := Option.some.inj cut
          exact ⟨by omega, by rw [tagBytes]; omega, by omega, fun _ => by omega, fun _ => by omega⟩
        next => cases cut

end Ingest

/-! ### Created shares -/

/-- A share of the gateway can be uploaded in full exactly if the file reaches its last
chunk: the schema asks that the chunks hold the file, and not that the file fills them. -/
theorem created_share_uploadable {config : GatewayConfig} {dates : Dates} {clock created : Timestamp}
    {data : Json Double} {body : CreateShareBody} {id shortId : String} {request : CreateRequest}
    (accepted : createShareSchema config dates clock data = .ok (.ok body))
    (decoded : body.request config dates id shortId = .ok request) (int32 : config.maxChunkSizeBytes < 2 ^ 31) :
    Uploadable { maxChunkBytes := config.maxChunkSizeBytes } (request.row created) ↔
      (request.chunkCount - 1) * request.chunkSize ≤ request.fileSize := by
  have checked := createShareSchema_ok accepted
  obtain ⟨-, -, decodes⟩ := request_ok decoded
  obtain ⟨-, -, size, -⟩ := decodes.numbers
  have small : request.chunkSize < 2 ^ 31 := by
    have := checked.chunkSize.eq_toNat.2.2
    omega
  obtain ⟨-, ⟨filled, -⟩, ⟨-, room⟩, -, holds⟩ := created_bounds checked decodes small
  have alive : (request.row created).isExpired 0 = false := by
    obtain ⟨time, dated, future⟩ := checked.expiresAt
    obtain ⟨time', dated', expires⟩ := decodes.expiresAt
    obtain rfl := Option.some.inj (dated.symm.trans dated')
    have past : 0 ≤ dateNow clock := Int.natCast_nonneg _
    have later : 0 < (time * 1000).toNat := by omega
    rw [← expires] at later
    exact decide_eq_false (Nat.not_le.mpr later)
  exact uploadable_iff rfl alive rfl rfl room int32 filled holds

/-- Three bytes in two chunks of two. -/
theorem created_share_uploadable_sample :
    Uploadable { maxChunkBytes := 10 * 1024 * 1024 } ((sampleDeclared 3 2 2).row 5) := by
  have accepted : createShareSchema {} sampleDates 5 (sampleJson 3 2 2) = .ok (.ok (sampleBody 3 2 2)) := by
    decide +kernel
  exact (created_share_uploadable accepted (sampleBody_request 3 2 2) (by decide)).mpr (by decide)

/-- Five bytes do not fill two chunks of ten, so the third can never follow. -/
theorem created_share_stuck :
    ¬ ∀ (config : GatewayConfig) (dates : Dates) (clock created : Timestamp) (data : Json Double)
      (body : CreateShareBody) (id shortId : String) (request : CreateRequest),
      createShareSchema config dates clock data = .ok (.ok body) →
      body.request config dates id shortId = .ok request → config.maxChunkSizeBytes < 2 ^ 31 →
      Uploadable { maxChunkBytes := config.maxChunkSizeBytes } (request.row created) := by
  intro claimed
  have accepted : createShareSchema {} sampleDates 5 (sampleJson 5 3 10) = .ok (.ok (sampleBody 5 3 10)) := by
    decide +kernel
  have uploads := claimed {} sampleDates 5 5 _ _ _ _ _ accepted (sampleBody_request 5 3 10) (by decide)
  have alive : ((sampleDeclared 5 3 10).row 5).isExpired 5 = false := by decide
  exact absurd ((uploadable_iff rfl alive rfl rfl (by decide) (by decide) (by decide) (by decide)).mp uploads) (by decide)

end SlothBox.Proofs

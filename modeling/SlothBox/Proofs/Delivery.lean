import SlothBox.Proofs.Burn
import SlothBox.Proofs.Filling
import SlothBox.Proofs.Frozen
import SlothBox.Proofs.Session

/-! A share at the services, from the upload to its end. -/

namespace SlothBox.Proofs
open Library Session

/-! ### On the shelf -/

/-- A whole share that has been downloaded so often, with so many of its chunks delivered since
then; the last chunk of a burn share ends it. -/
structure Shelved (row : ShareRow) (puts : List PutChunkRequest) (downloads delivered : ℕ) (store : Store) : Prop where
  share : ∃ held, store.share = some held ∧ SameTerms row held ∧
    if row.burnAfterRead ∧ row.chunkCount ≤ delivered then held.state = .destroyed ∧ held.downloadCount = downloads + 1
    else held.state = .ready ∧ held.downloadCount = downloads
  inside : ∀ index chunk, store.chunks.lookup index = some chunk → index < row.chunkCount
  chunk : ∀ index put, puts[index]? = some put → ∃ chunk, store.chunks.lookup index = some chunk ∧
    Deposited row.shortId put index store.blobs chunk ∧ (row.burnAfterRead → (chunk.servedAt.isSome ↔ index < delivered))

/-- A share that is over after so many downloads. -/
def Over (row : ShareRow) (downloads : ℕ) (store : Store) : Prop :=
  ∃ held, store.share = some held ∧ SameTerms row held ∧ held.state.terminal = true ∧ held.downloadCount = downloads

section Shelf
variable {sodium : Sodium} {deployment : Deployment} {world : World} {row : ShareRow} {puts : List PutChunkRequest}
  {downloads delivered : ℕ} {store : Store}

/-- What an upload has filled. -/
theorem Filling.shelved (filling : Filling row puts row.chunkCount store) (filled : 0 < row.chunkCount)
    (long : puts.length = row.chunkCount) (fresh : row.downloadCount = 0) : Shelved row puts 0 0 store := by
  refine ⟨⟨_, filling.share, ⟨_, _, _, _, rfl⟩, ?_⟩, filling.inside, fun index put there => ?_⟩
  · have some : ¬(row.burnAfterRead = true ∧ row.chunkCount ≤ 0) := by omega
    rw [if_neg some]
    refine ⟨?_, fresh⟩
    change fillState row row.chunkCount = .ready
    rw [fillState, if_neg (by omega), if_neg (by omega)]
  · have below : index < row.chunkCount := long ▸ (List.getElem?_eq_some_iff.mp there).1
    obtain ⟨chunk, found, deposited, unserved⟩ := filling.chunk index put below there
    refine ⟨chunk, found, deposited, fun _ => ?_⟩
    rw [unserved]
    simp

/-- The description of a share. -/
theorem getShares_held {held : ShareRow} (valid : validShortId row.shortId = true) (found : world.db.store.share = some held)
    (same : SameTerms row held) (going : held.state.terminal = false)
    (alive : dateNow (world.now deployment) < ((row.expiresAt / 1000 : ℕ) : ℤ)) :
    getShares deployment world row.shortId = .ok held.response.descriptor := by
  obtain ⟨state, count, destroyed, reason, same⟩ := same
  have read : world.db.store.find row.shortId = some held := find_eq_some.mpr ⟨found, by rw [same]⟩
  have expires : held.expiresAt = row.expiresAt := by rw [same]
  have live : ¬((held.expiresAt / 1000 : ℕ) : ℤ) ≤ dateNow (world.now deployment) := by
    rw [expires]
    omega
  rw [getShares, getShare, valid, read]
  dsimp only
  rw [going, if_neg live]
  rfl

theorem getShares_over (spent : Over row downloads world.db.store) :
    getShares deployment world row.shortId = .error GatewayReply.notFound.refusal := by
  obtain ⟨held, found, ⟨state, count, destroyed, reason, same⟩, ended, -⟩ := spent
  have read : world.db.store.find row.shortId = some held := find_eq_some.mpr ⟨found, by rw [same]⟩
  unfold getShares getShare
  rw [read]
  cases validShortId row.shortId with
  | false => rfl
  | true =>
    dsimp only
    rw [ended]
    rfl

/-! ### A chunk -/

/-- The chunks after a delivery. -/
theorem Shelved.stamped {chunk : ChunkRow} {clock : Timestamp} (shelved : Shelved row puts downloads delivered store)
    (long : puts.length = row.chunkCount) (held : store.chunks.lookup delivered = some chunk) :
    let stamped := stampedStore delivered chunk clock store
    (∀ index chunk, stamped.chunks.lookup index = some chunk → index < row.chunkCount) ∧
    (∀ index put, puts[index]? = some put → ∃ chunk, stamped.chunks.lookup index = some chunk ∧
      Deposited row.shortId put index stamped.blobs chunk ∧ (row.burnAfterRead → (chunk.servedAt.isSome ↔ index < delivered + 1))) ∧
    (row.burnAfterRead → (stamped.countUnserved = 0 ↔ row.chunkCount ≤ delivered + 1)) := by
  intro stamped
  have inside : ∀ index chunk, stamped.chunks.lookup index = some chunk → index < row.chunkCount := by
    intro index other found
    by_cases same : index = delivered
    · subst same
      exact shelved.inside index chunk held
    · exact shelved.inside index other ((AList.lookup_insert_ne same).symm.trans found)
  have each : ∀ index put, puts[index]? = some put → ∃ chunk, stamped.chunks.lookup index = some chunk ∧
      Deposited row.shortId put index stamped.blobs chunk ∧
      (row.burnAfterRead → (chunk.servedAt.isSome ↔ index < delivered + 1)) := by
    intro index put there
    obtain ⟨other, found, deposited, served⟩ := shelved.chunk index put there
    by_cases same : index = delivered
    · subst same
      cases held.symm.trans found
      have kept := (SameUpload.refl chunk).stamp clock
      refine ⟨stampServed clock chunk, AList.lookup_insert _, ⟨?_, ?_, ?_, ?_, ?_⟩, fun _ => ?_⟩
      · rw [kept.nonce, deposited.nonce]
      · rw [kept.downloadTokenHash]
        exact deposited.token
      · rw [kept.blobKey, deposited.key]
      · rw [kept.blobKey]
        exact deposited.blob
      · rw [kept.uploadedAt]
        exact deposited.uploaded
      · exact ⟨fun _ => Nat.lt_succ_self index, fun _ => servedAt_stampServed clock chunk⟩
    · refine ⟨other, (AList.lookup_insert_ne same).trans found, deposited, fun burns => (served burns).trans ?_⟩
      omega
  refine ⟨inside, each, fun burns => ?_⟩
  rw [countUnserved_eq_zero]
  constructor
  · intro all
    by_contra fewer
    have there : puts[delivered + 1]? = some puts[delivered + 1] := List.getElem?_eq_getElem (by omega)
    obtain ⟨last, found, -, served⟩ := each (delivered + 1) _ there
    have unserved : last.servedAt = none := by
      rw [← Option.not_isSome_iff_eq_none, served burns]
      omega
    exact all (delivered + 1) ⟨last, found, unserved⟩
  · intro enough index unserved
    obtain ⟨last, found, missing⟩ := unserved
    have below := inside index last found
    have there : puts[index]? = some puts[index] := List.getElem?_eq_getElem (by omega)
    obtain ⟨same, lookup, -, served⟩ := each index _ there
    cases found.symm.trans lookup
    have sent := (served burns).mpr (by omega)
    rw [missing] at sent
    cases sent

/-- One chunk more is delivered, and the last of a burn share ends it. -/
theorem Shelved.deliver {held : ShareRow} {chunk : ChunkRow} {clock : Timestamp}
    (shelved : Shelved row puts downloads delivered store) (long : puts.length = row.chunkCount) (more : delivered < row.chunkCount)
    (share : store.share = some held) (found : store.chunks.lookup delivered = some chunk) :
    Shelved row puts downloads (delivered + 1) (servedStore held delivered chunk clock store) := by
  obtain ⟨_, shared, same, going⟩ := shelved.share
  cases share.symm.trans shared
  have some : ¬(row.burnAfterRead = true ∧ row.chunkCount ≤ delivered) := by omega
  rw [if_neg some] at going
  obtain ⟨ready, counted⟩ := going
  obtain ⟨inside, each, last⟩ := @Shelved.stamped row puts downloads delivered store chunk clock shelved long found
  have burning : held.burnAfterRead = row.burnAfterRead := same.burnAfterRead
  unfold servedStore
  dsimp only
  rw [burning]
  by_cases ends : row.burnAfterRead = true ∧ (stampedStore delivered chunk clock store).countUnserved = 0
  · rw [if_pos ends]
    refine ⟨⟨burn clock held, rfl, same.trans ⟨_, _, _, _, rfl⟩, ?_⟩, inside, each⟩
    rw [if_pos ⟨ends.1, (last ends.1).mp ends.2⟩]
    exact ⟨rfl, congrArg (· + 1) counted⟩
  · rw [if_neg ends]
    refine ⟨⟨held, share, same, ?_⟩, inside, each⟩
    have goes : ¬(row.burnAfterRead = true ∧ row.chunkCount ≤ delivered + 1) :=
      fun both => ends ⟨both.1, (last both.1).mpr both.2⟩
    rw [if_neg goes]
    exact ⟨ready, counted⟩

/-- The request of a recipient with the link, for the next chunk. -/
theorem getChunk_delivers {put : PutChunkRequest} {token : Bytes} (deployed : Deployed sodium deployment)
    (unlocked : world.db.tx = none) (shelved : Shelved row puts downloads delivered world.db.store)
    (long : puts.length = row.chunkCount) (few : row.chunkCount < 2 ^ 31) (valid : validShortId row.shortId = true)
    (alive : row.isExpired (world.now deployment) = false) (next : puts[delivered]? = some put) (width : token.length = 32)
    (commitment : put.chunkTokenHash = bytesToBase64Url (sodium.sha256 token)) :
    let got := getChunk deployment world ⟨row.shortId, delivered, "Bearer " ++ bytesToBase64Url token⟩
    got.1 = .response 200 (some put.nonce) (some put.ciphertext) ∧ got.2.db.tx = none ∧
      Shelved row puts downloads (delivered + 1) got.2.db.store := by
  intro got
  have more : delivered < row.chunkCount := long ▸ (List.getElem?_eq_some_iff.mp next).1
  obtain ⟨held, share, same, going⟩ := shelved.share
  have some' : ¬(row.burnAfterRead = true ∧ row.chunkCount ≤ delivered) := by omega
  rw [if_neg some'] at going
  obtain ⟨chunk, found, deposited, served⟩ := shelved.chunk delivered put next
  obtain ⟨hash, sent, -, stored⟩ := deposited.token
  have hashed : hash = sodium.sha256 token := by
    have spelt : bytesToBase64Url hash = bytesToBase64Url (sodium.sha256 token) := sent.symm.trans commitment
    have back := congrArg base64UrlToBytes spelt
    rw [base64_roundtrip, base64_roundtrip] at back
    exact Except.ok.inj back
  let request : GetRequest := ⟨row.shortId, delivered, some ("Bearer " ++ bytesToBase64Url token)⟩
  have burning : held.burnAfterRead = row.burnAfterRead := same.burnAfterRead
  have admitted : request.check deployment.env held chunk = .ok () := by
    rw [check_bearer width rfl stored, hashed, deployed.sha256]
    have unserved : ¬(chunk.servedAt.isSome = true ∧ held.burnAfterRead = true) := by
      rintro ⟨gone, burns⟩
      exact absurd ((served (burning ▸ burns)).mp gone) (Nat.lt_irrefl _)
    rw [if_neg unserved, refuseIf, if_neg (not_not.mpr rfl)]
  have terms : held.shortId = row.shortId ∧ held.isExpired (world.now deployment) = false ∧ held.chunkCount = row.chunkCount := by
    obtain ⟨_, _, _, _, same⟩ := same
    rw [same]
    exact ⟨rfl, alive, rfl⟩
  have index : request.chunkIndex.toNat = delivered := Int.toNat_natCast delivered
  have bounds : 0 ≤ request.chunkIndex ∧ request.chunkIndex < held.chunkCount := by
    rw [terms.2.2]
    exact ⟨Int.natCast_nonneg _, Int.ofNat_lt.mpr more⟩
  have database : world.db = ⟨world.db.store, none⟩ := by rw [← unlocked]
  obtain ⟨marked, handled⟩ : ∃ marked, world.handled deployment (.get request) =
      ⟨⟨servedStore held request.chunkIndex.toNat chunk (world.now deployment) world.db.store, none⟩,
        .get request (.done (.http 200 none) true marked), some (chunk.nonce, put.ciphertext)⟩ := by
    rw [World.handled, database]
    exact get_handled share terms.1 going.1 terms.2.1 bounds (index ▸ found) admitted deposited.blob
  have named : (validShortId row.shortId && decide (delivered < 2 ^ 31)) = true := by
    rw [valid, Bool.true_and, decide_eq_true_eq]
    omega
  have nonce : DownloadEndpoint.encodeBase64Url chunk.nonce = put.nonce := by
    rw [downloadEndpoint_encodes, deposited.nonce]
    rfl
  have whole : got = (.response 200 (some put.nonce) (some put.ciphertext), world.after deployment (.get request)) := by
    change getChunk deployment world _ = _
    unfold getChunk
    rw [if_pos named]
    dsimp only
    rw [handled]
    dsimp only
    rw [nonce]
  rw [whole]
  refine ⟨rfl, ?_, ?_⟩
  · rw [World.after, handled]
  · rw [World.after, handled]
    exact index ▸ shelved.deliver long more share found

/-! ### The end of a download -/

/-- How often a share may be downloaded, if not for ever. -/
def allowance (row : ShareRow) : Option ℕ := if row.burnAfterRead then some 1 else row.maxDownloads

/-- A share between two downloads: on the shelf, until it has been downloaded as often as it may be. -/
structure Offered (row : ShareRow) (puts : List PutChunkRequest) (downloads : ℕ) (db : Database) : Prop where
  unlocked : db.tx = none
  store : if (allowance row).any (· ≤ downloads) then Over row downloads db.store else Shelved row puts downloads 0 db.store

/-- What the row says of its downloads. -/
theorem Offered.recorded {db : Database} (offered : Offered row puts downloads db) (filled : 0 < row.chunkCount) :
    ∃ held, db.store.share = some held ∧ held.downloadCount = downloads ∧
      (held.state.terminal = true ↔ ∃ cap, allowance row = some cap ∧ cap ≤ downloads) := by
  have store := offered.store
  have limit : (allowance row).any (· ≤ downloads) = true ↔ ∃ cap, allowance row = some cap ∧ cap ≤ downloads := by
    rw [Option.any_eq_true]
    simp only [decide_eq_true_eq]
  by_cases spent : (allowance row).any (· ≤ downloads) = true
  · rw [if_pos spent] at store
    obtain ⟨held, share, -, ended, counted⟩ := store
    exact ⟨held, share, counted, fun _ => limit.mp spent, fun _ => ended⟩
  · rw [if_neg spent] at store
    obtain ⟨held, share, -, going⟩ := store.share
    have some : ¬(row.burnAfterRead = true ∧ row.chunkCount ≤ 0) := by omega
    rw [if_neg some] at going
    refine ⟨held, share, going.2, fun ended => ?_, fun reached => absurd (limit.mpr reached) spent⟩
    rw [going.1] at ended
    cases ended

theorem downloaded_counts (unlocked : world.db.tx = none)
    (shelved : Shelved row puts downloads row.chunkCount world.db.store) (valid : validShortId row.shortId = true)
    (alive : row.isExpired (world.now deployment) = false) :
    Offered row puts (downloads + 1) (world.after deployment (.downloaded ⟨row.shortId⟩)).db := by
  obtain ⟨held, share, same, going⟩ := shelved.share
  have named : held.shortId = row.shortId := same.shortId
  have database : world.db = ⟨world.db.store, none⟩ := by rw [← unlocked]
  cases burns : row.burnAfterRead with
  | true =>
    rw [if_pos ⟨burns, Nat.le_refl _⟩] at going
    have ended : held.state.terminal = true := by rw [going.1]; rfl
    have handled : world.handled deployment (.downloaded ⟨row.shortId⟩) =
        ⟨⟨world.db.store, none⟩, .downloaded ⟨row.shortId⟩ (.done (.state held.state)), none⟩ := by
      rw [World.handled, database]
      exact downloaded_handled_over share named valid ended
    have spent : (allowance row).any (· ≤ downloads + 1) = true := by
      rw [allowance, burns]
      simp
    rw [World.after, handled]
    refine ⟨rfl, ?_⟩
    rw [if_pos spent]
    exact ⟨held, share, same, ended, going.2⟩
  | false =>
    have keeps : ¬(row.burnAfterRead = true ∧ row.chunkCount ≤ row.chunkCount) := fun both => by
      rw [burns] at both
      cases both.1
    rw [if_neg keeps] at going
    obtain ⟨ready, counted⟩ := going
    have terms : held.burnAfterRead = false ∧ held.maxDownloads = row.maxDownloads ∧ held.expiresAt = row.expiresAt := by
      obtain ⟨_, _, _, _, same⟩ := same
      rw [same]
      exact ⟨burns, rfl, rfl⟩
    have before : world.now deployment < held.expiresAt := by
      rw [terms.2.2]
      exact Nat.not_le.mp (of_decide_eq_false alive)
    let updated : ShareRow := { held with
      downloadCount := held.downloadCount + 1
      state := if row.maxDownloads.any (· ≤ downloads + 1) then .expired else .ready }
    have increments : incrementDownload (world.now deployment) held = some updated := by
      rw [incrementDownload, if_pos ⟨.inl ready, before⟩, terms.1, terms.2.1, counted, ready]
      simp [updated, counted, terms.1, terms.2.1]
    have handled : world.handled deployment (.downloaded ⟨row.shortId⟩) =
        ⟨⟨{ world.db.store with
            share := some updated, audit := world.db.store.audit ++ [downloadedEvent ⟨row.shortId⟩ updated] }, none⟩,
          .downloaded ⟨row.shortId⟩ (.done (.state updated.state)), none⟩ := by
      rw [World.handled, database]
      exact downloaded_handled share named valid (by rw [ready]; rfl) increments
    have again : SameTerms row updated := same.trans ⟨_, _, _, _, rfl⟩
    have total : updated.downloadCount = downloads + 1 := congrArg (· + 1) counted
    rw [World.after, handled]
    refine ⟨rfl, ?_⟩
    have limit : allowance row = row.maxDownloads := by rw [allowance, burns, if_neg Bool.false_ne_true]
    rw [limit]
    by_cases spent : row.maxDownloads.any (· ≤ downloads + 1) = true
    · rw [if_pos spent]
      have state : updated.state = .expired := if_pos spent
      exact ⟨updated, rfl, again, by rw [state]; rfl, total⟩
    · rw [if_neg spent]
      have state : updated.state = .ready := if_neg spent
      refine ⟨⟨updated, rfl, again, ?_⟩, shelved.inside, fun index put there => ?_⟩
      · rw [if_neg fun both => keeps ⟨both.1, Nat.le_refl _⟩]
        exact ⟨state, total⟩
      · obtain ⟨chunk, found, deposited, -⟩ := shelved.chunk index put there
        refine ⟨chunk, found, deposited, fun burning => ?_⟩
        rw [burns] at burning
        cases burning

end Shelf
/-! ### A download -/

/-- Services whose answers are settled by what was uploaded. -/
def publishing (descriptor : ShareDescriptor) (puts : List PutChunkRequest) : (call : DownloadCall) → call.Answer
  | .share _ => .ok descriptor
  | .chunk request => match puts[request.chunkIndex]? with
    | none => .response 404 none none
    | some put => .response 200 (some put.nonce) (some put.ciphertext)
  | .downloaded _ => ()

/-- A share that the gateway describes as the sender did, and whose chunks are committed to the
tokens of a key. -/
structure Published (sodium : Sodium) (deployment : Deployment) (key : Bytes) (descriptor : ShareDescriptor) (row : ShareRow)
    (puts : List PutChunkRequest) : Prop where
  valid : descriptor.isValid = true
  described : ∀ held, SameTerms row held → held.response.descriptor = descriptor
  count : descriptor.chunkCount = row.chunkCount
  long : puts.length = row.chunkCount
  few : row.chunkCount < 2 ^ 31
  tokens : ∀ index put, puts[index]? = some put → ∃ token, deriveChunkToken sodium key row.shortId index = .ok token ∧
    token.length = 32 ∧ put.chunkTokenHash = bytesToBase64Url (sodium.sha256 token)
  named : validShortId row.shortId = true
  early : ∀ handlers, dateNow (deployment.clock handlers) < ((row.expiresAt / 1000 : ℕ) : ℤ)

section Download
variable {sodium : Sodium} {deployment : Deployment} {key : Bytes} {descriptor : ShareDescriptor} {row : ShareRow}
  {puts : List PutChunkRequest} {downloads : ℕ} {world : World} {options : DownloadOptions} {result : DownloadResult}

theorem Published.alive (published : Published sodium deployment key descriptor row puts) (handlers : ℕ) :
    row.isExpired (deployment.clock handlers) = false := by
  have before := published.early handlers
  unfold dateNow at before
  refine decide_eq_false (Nat.not_le.mpr ?_)
  have whole : deployment.clock handlers / 1000 < row.expiresAt / 1000 := Int.ofNat_lt.mp before
  exact Nat.lt_of_div_lt_div whole

/-- While the share is on the shelf it is described. -/
theorem Published.describes (published : Published sodium deployment key descriptor row puts) (filled : 0 < row.chunkCount)
    (shelved : Shelved row puts downloads 0 world.db.store) :
    deployment.serveDownload world (.share row.shortId) = (.ok descriptor, world) := by
  obtain ⟨held, share, same, going⟩ := shelved.share
  have some : ¬(row.burnAfterRead = true ∧ row.chunkCount ≤ 0) := by omega
  rw [if_neg some] at going
  have live : held.state.terminal = false := by rw [going.1]; rfl
  unfold Deployment.serveDownload
  dsimp only
  rw [getShares_held published.named share same live (published.early _), published.described held same]

/-- How far a download has come, by the requests still to be made. -/
def DownloadStage (sodium : Sodium) (key : Bytes) (row : ShareRow) (puts : List PutChunkRequest) (downloads : ℕ)
    (rest : List DownloadCall) (world : World) : Prop :=
  let calls := (List.range row.chunkCount).map (chunkCall sodium row.shortId key)
  world.db.tx = none ∧ ((rest = .share row.shortId :: calls ∧ Shelved row puts downloads 0 world.db.store) ∨
    ∃ delivered ≤ row.chunkCount, rest = calls.drop delivered ∧ Shelved row puts downloads delivered world.db.store)

/-- One request of a download, at the two services. -/
theorem DownloadStage.turn {call : DownloadCall} {rest : List DownloadCall}
    (reached : DownloadStage sodium key row puts downloads (call :: rest) world) (deployed : Deployed sodium deployment)
    (published : Published sodium deployment key descriptor row puts) (filled : 0 < row.chunkCount) :
    (deployment.serveDownload world call).1 = publishing descriptor puts call ∧
      DownloadStage sodium key row puts downloads rest (deployment.serveDownload world call).2 := by
  obtain ⟨unlocked, ⟨first, shelved⟩ | ⟨delivered, -, left, shelved⟩⟩ := reached
  · obtain ⟨sameCall, sameRest⟩ := List.cons.inj first
    subst sameCall sameRest
    rw [published.describes filled shelved]
    exact ⟨rfl, unlocked, .inr ⟨0, Nat.zero_le _, rfl, shelved⟩⟩
  · have more : delivered < row.chunkCount := by
      by_contra beyond
      rw [List.drop_eq_nil_of_le (by simpa using beyond)] at left
      cases left
    rw [List.drop_eq_getElem_cons (by simpa using more), List.getElem_map, List.getElem_range] at left
    obtain ⟨sameCall, sameRest⟩ := List.cons.inj left
    obtain ⟨put, next⟩ : ∃ put, puts[delivered]? = some put := ⟨_, List.getElem?_eq_getElem (published.long ▸ more)⟩
    obtain ⟨token, derived, width, commitment⟩ := published.tokens delivered put next
    have requested : chunkCall sodium row.shortId key delivered =
        .chunk ⟨row.shortId, delivered, "Bearer " ++ bytesToBase64Url token⟩ := by
      rw [chunkCall, chunkRequest, derived]
      rfl
    subst sameCall sameRest
    obtain ⟨answer, free, onwards⟩ := getChunk_delivers deployed unlocked shelved published.long published.few published.named
      (published.alive _) next width commitment
    rw [requested]
    refine ⟨?_, free, .inr ⟨delivered + 1, more, rfl, onwards⟩⟩
    refine answer.trans ?_
    unfold publishing
    dsimp only
    rw [next]

/-- A recipient with the key gets what was uploaded. -/
theorem downloadFile_delivers (deployed : Deployed sodium deployment)
    (published : Published sodium deployment key descriptor row puts) (filled : 0 < row.chunkCount) (width : key.length = 32)
    (unlocked : world.db.tx = none) (shelved : Shelved row puts downloads 0 world.db.store)
    (settled : SlothBox.downloadFile sodium (settledServer (publishing descriptor puts)) row.shortId key options = .ok result) :
    let talk := (Session.downloadFile sodium row.shortId key options).converse deployment.serveDownload world
    talk.result = .ok result ∧ talk.state.db.tx = none ∧ Shelved row puts downloads row.chunkCount talk.state.db.store := by
  intro talk
  let program := Session.downloadFile sodium row.shortId key options
  have returned : program.against (publishing descriptor puts) = .ok result :=
    (downloadFile_settled (publishing descriptor puts)).trans settled
  have asked : program.asked (publishing descriptor puts) =
      .share row.shortId :: (List.range row.chunkCount).map (chunkCall sodium row.shortId key) := by
    have shape : program = .ask (.share row.shortId) (afterShare sodium row.shortId key options) :=
      downloadFile_eq.trans (if_neg (not_not.mpr width))
    rw [shape] at returned ⊢
    refine congrArg (DownloadCall.share row.shortId :: ·) ?_
    rcases afterShare_asks sodium row.shortId key options (.ok descriptor) with ⟨thrown, failed⟩ | ⟨_, opened, same, -, asks⟩
    · have failing : (afterShare sodium row.shortId key options (.ok descriptor)).against (publishing descriptor puts) = .ok result :=
        returned
      rw [failed] at failing
      cases failing
    · cases same
      rw [← published.count]
      exact asks.asked returned
  have turn : ∀ call rest world, DownloadStage sodium key row puts downloads (call :: rest) world →
      (deployment.serveDownload world call).1 = publishing descriptor puts call ∧
        DownloadStage sodium key row puts downloads rest (deployment.serveDownload world call).2 :=
    fun call rest world reached => reached.turn deployed published filled
  have start : DownloadStage sodium key row puts downloads (program.asked (publishing descriptor puts)) world :=
    ⟨unlocked, .inl ⟨asked, shelved⟩⟩
  obtain ⟨same, free, ended⟩ := program.converse_follows turn start
  refine ⟨same.trans returned, free, ?_⟩
  rcases ended with ⟨impossible, -⟩ | ⟨delivered, atMost, left, onwards⟩
  · cases impossible
  · have all : delivered = row.chunkCount := by
      have beyond := List.drop_eq_nil_iff.mp left.symm
      rw [List.length_map, List.length_range] at beyond
      omega
    exact all ▸ onwards

/-! ### A visit -/

/-- A press of the button with the password. -/
theorem startDownload_delivers {required : Bool} {attempt : Attempt} (deployed : Deployed sodium deployment)
    (published : Published sodium deployment key descriptor row puts) (filled : 0 < row.chunkCount) (width : key.length = 32)
    (unlocked : world.db.tx = none) (shelved : Shelved row puts downloads 0 world.db.store)
    (typed : (required && Utf16.length attempt.password == 0) = false)
    (settled : SlothBox.downloadFile sodium (settledServer (publishing descriptor puts)) row.shortId key
      (attempt.options required) = .ok result) :
    let talk := (startDownload sodium row.shortId key required attempt).converse deployment.serveDownload world
    talk.result = .ok (.done result.blob result.fileName result.mimeType (!isPreviewable result.mimeType result.fileName)) ∧
      Offered row puts (downloads + 1) talk.state.db := by
  intro talk
  obtain ⟨returned, free, delivered⟩ := downloadFile_delivers deployed published filled width unlocked shelved settled
  have done : talk = _ := startDownload_done typed returned
  rw [done]
  exact ⟨rfl, downloaded_counts free delivered published.named (published.alive _)⟩

/-- One with a wrong password. -/
theorem startDownload_wrong {required : Bool} {attempt : Attempt} (width : key.length = 32)
    (described : deployment.serveDownload world (.share row.shortId) = (.ok descriptor, world))
    (wrong : ∀ content, openShare sodium key (attempt.options required) descriptor ≠ .ok content) :
    let talk := (startDownload sodium row.shortId key required attempt).converse deployment.serveDownload world
    ∃ shown, talk.result = .ok shown ∧ shown.isDone = false ∧ talk.state = world := by
  intro talk
  cases typed : required && Utf16.length attempt.password == 0 with
  | true =>
    have empty : talk = ⟨.ok (.ready (some .errorRequired)), [], world⟩ := by
      change (startDownload sodium row.shortId key required attempt).converse deployment.serveDownload world = _
      rw [startDownload, typed, if_pos rfl]
      rfl
    rw [empty]
    exact ⟨_, rfl, rfl, rfl⟩
  | false =>
    obtain ⟨thrown, failed⟩ : ∃ thrown,
        afterShare sodium row.shortId key (attempt.options required) (.ok descriptor) = .result (.error thrown) := by
      rcases afterShare_asks sodium row.shortId key (attempt.options required) (.ok descriptor) with early | ⟨_, content, same, opens, -⟩
      · exact early
      · cases same
        exact absurd opens (wrong content)
    have closed : (Session.downloadFile sodium row.shortId key (attempt.options required)).converse deployment.serveDownload world =
        ⟨.error thrown, [⟨.share row.shortId, .ok descriptor⟩], world⟩ := by
      rw [downloadFile_eq, if_neg (not_not.mpr width), Dialogue.converse, described]
      dsimp only
      rw [failed]
      rfl
    have caught : talk = _ := startDownload_caught typed (congrArg Conversation.result closed)
    rw [caught, closed]
    exact ⟨_, rfl, caughtState_isDone thrown, rfl⟩

theorem attempts_wrong {required : Bool} {wrong : List Attempt} (width : key.length = 32)
    (described : deployment.serveDownload world (.share row.shortId) = (.ok descriptor, world))
    (closed : ∀ attempt ∈ wrong, ∀ content, openShare sodium key (attempt.options required) descriptor ≠ .ok content)
    {before : DecryptState} (resting : before.isDone = false) (rest : List Attempt) : ∃ state transcript, state.isDone = false ∧
      ∀ later : Conversation DownloadCall DownloadCall.Answer Empty DecryptState World,
        (attempts sodium row.shortId key required state rest).converse deployment.serveDownload world = later →
        (attempts sodium row.shortId key required before (wrong ++ rest)).converse deployment.serveDownload world =
          ⟨later.result, transcript ++ later.transcript, later.state⟩ := by
  induction wrong generalizing before with
  | nil => exact ⟨before, [], resting, fun later same => same⟩
  | cons attempt others ih =>
    obtain ⟨shown, result, still, stays⟩ := startDownload_wrong width described (closed attempt List.mem_cons_self)
    obtain ⟨state, transcript, last, onwards⟩ := ih (fun other inside => closed other (List.mem_cons_of_mem _ inside)) still
    refine ⟨state, ((startDownload sodium row.shortId key required attempt).converse deployment.serveDownload world).transcript ++
      transcript, last, fun later same => ?_⟩
    rw [List.cons_append, attempts, Dialogue.converse_bind_ok _ result, still, if_neg Bool.false_ne_true, stays,
      onwards later same, List.append_assoc]

/-- The button until the password is right. -/
theorem attempts_delivers {required : Bool} {wrong rest : List Attempt} {right : Attempt} (deployed : Deployed sodium deployment)
    (published : Published sodium deployment key descriptor row puts) (filled : 0 < row.chunkCount) (width : key.length = 32)
    (unlocked : world.db.tx = none) (shelved : Shelved row puts downloads 0 world.db.store)
    (closed : ∀ attempt ∈ wrong, ∀ content, openShare sodium key (attempt.options required) descriptor ≠ .ok content)
    (typed : (required && Utf16.length right.password == 0) = false)
    (settled : SlothBox.downloadFile sodium (settledServer (publishing descriptor puts)) row.shortId key
      (right.options required) = .ok result) {before : DecryptState} (resting : before.isDone = false) :
    let talk := (attempts sodium row.shortId key required before (wrong ++ right :: rest)).converse deployment.serveDownload world
    talk.result = .ok (.done result.blob result.fileName result.mimeType (!isPreviewable result.mimeType result.fileName)) ∧
      Offered row puts (downloads + 1) talk.state.db := by
  intro talk
  obtain ⟨state, transcript, -, onwards⟩ :=
    attempts_wrong width (published.describes filled shelved) closed resting (right :: rest)
  obtain ⟨done, offered⟩ := startDownload_delivers deployed published filled width unlocked shelved typed settled
  have last : (attempts sodium row.shortId key required state (right :: rest)).converse deployment.serveDownload world =
      ⟨.ok (.done result.blob result.fileName result.mimeType (!isPreviewable result.mimeType result.fileName)),
        ((startDownload sodium row.shortId key required right).converse deployment.serveDownload world).transcript ++ [],
        ((startDownload sodium row.shortId key required right).converse deployment.serveDownload world).state⟩ := by
    rw [attempts, Dialogue.converse_bind_ok _ done]
    rfl
  have whole : talk = _ := onwards _ last
  rw [whole]
  exact ⟨rfl, offered⟩

/-- Attempts of which one has the password and is not cancelled, while none before it opens the share. -/
def Unlocks (sodium : Sodium) (key : Bytes) (descriptor : ShareDescriptor) (password : Option String) (tries : List Attempt) : Prop :=
  ∃ wrong right rest, tries = wrong ++ right :: rest ∧
    (∀ attempt ∈ wrong, ∀ content, openShare sodium key (attempt.options descriptor.password.isEnabled) descriptor ≠ .ok content) ∧
    (descriptor.password.isEnabled = true → some right.password = password) ∧ ∀ index, right.aborted index = false

/-- What the page shows of a file. -/
def DownloadResult.shown (result : DownloadResult) : ReceiverStatus :=
  .shown (.done result.blob result.fileName result.mimeType (!isPreviewable result.mimeType result.fileName))

def hasFile : ReceiverStatus → Bool
  | .shown state => state.isDone
  | .missingKey | .error _ => false

/-- A visit with the key of the link and, sooner or later, the password. -/
def Entitled (sodium : Sodium) (key : Bytes) (descriptor : ShareDescriptor) (password : Option String)
    (visit : String × List Attempt) : Prop :=
  extractKeyFromHash visit.1 = some key ∧ Unlocks sodium key descriptor password visit.2

/-- A visit without a key, or with one that opens the share in none of its attempts. -/
def Stranger (sodium : Sodium) (descriptor : ShareDescriptor) (visit : String × List Attempt) : Prop :=
  ∀ key, extractKeyFromHash visit.1 = some key → ∀ attempt ∈ visit.2, ∀ content,
    openShare sodium key (attempt.options descriptor.password.isEnabled) descriptor ≠ .ok content

/-- How many of some more visits end with the file. -/
def granted (row : ShareRow) (downloads visits : ℕ) : ℕ :=
  (allowance row).elim visits fun cap => min visits (cap - downloads)

section Visit
variable {hash : String} {password : Option String} {tries : List Attempt}

/-- The password opens what was uploaded. -/
def Opened (sodium : Sodium) (key : Bytes) (descriptor : ShareDescriptor) (row : ShareRow) (puts : List PutChunkRequest)
    (password : Option String) (result : DownloadResult) : Prop :=
  ∀ attempt : Attempt, (descriptor.password.isEnabled = true → some attempt.password = password) →
    (∀ index, attempt.aborted index = false) →
    (descriptor.password.isEnabled && Utf16.length attempt.password == 0) = false ∧
      SlothBox.downloadFile sodium (settledServer (publishing descriptor puts)) row.shortId key
        (attempt.options descriptor.password.isEnabled) = .ok result

/-- A visit while the share is over. -/
theorem shareReceiver_over (ended : Over row downloads world.db.store) (found : extractKeyFromHash hash = some key) :
    (shareReceiver sodium row.shortId hash tries).converse deployment.serveDownload world =
      ⟨.ok (.error .notFound), [⟨.share row.shortId, .error GatewayReply.notFound.refusal⟩], world⟩ := by
  have refused : deployment.serveDownload world (.share row.shortId) = (.error GatewayReply.notFound.refusal, world) := by
    unfold Deployment.serveDownload
    dsimp only
    rw [getShares_over ended]
  have ends : (shareReceiver sodium row.shortId hash tries).converse deployment.serveDownload world = _ :=
    shareReceiver_error found (congrArg (fun served => described served.1) refused)
  rw [refused] at ends
  exact ends

/-- One while it is on the shelf: the page and its attempts. -/
theorem shareReceiver_shelved (published : Published sodium deployment key descriptor row puts) (filled : 0 < row.chunkCount)
    (shelved : Shelved row puts downloads 0 world.db.store) {other : Bytes} (found : extractKeyFromHash hash = some other)
    {shown : DecryptState}
    (result : ((attempts sodium row.shortId other descriptor.password.isEnabled (.ready none) tries).converse
      deployment.serveDownload world).result = .ok shown) :
    ((shareReceiver sodium row.shortId hash tries).converse deployment.serveDownload world).result = .ok (.shown shown) ∧
      ((shareReceiver sodium row.shortId hash tries).converse deployment.serveDownload world).state =
        ((attempts sodium row.shortId other descriptor.password.isEnabled (.ready none) tries).converse
          deployment.serveDownload world).state := by
  have served : deployment.serveDownload world (.share row.shortId) = (.ok descriptor, world) :=
    published.describes filled shelved
  have came : described (deployment.serveDownload world (.share row.shortId)).1 = .ok descriptor := by
    rw [served, described, if_pos published.valid]
  rw [← show (deployment.serveDownload world (.share row.shortId)).2 = world by rw [served]] at result
  have ends := shareReceiver_shown found came result
  rw [served] at ends
  exact ⟨congrArg Conversation.result ends, congrArg Conversation.state ends⟩

/-- One visit of somebody with the key and the password: the file, as often as the share may be
downloaded, and then nothing any more. -/
theorem shareReceiver_entitled (deployed : Deployed sodium deployment)
    (published : Published sodium deployment key descriptor row puts) (filled : 0 < row.chunkCount)
    (opened : Opened sodium key descriptor row puts password result) (entitled : Entitled sodium key descriptor password (hash, tries))
    (offered : Offered row puts downloads world.db) :
    let talk := (shareReceiver sodium row.shortId hash tries).converse deployment.serveDownload world
    if (allowance row).any (· ≤ downloads) then
      talk.result = .ok (.error .notFound) ∧ Offered row puts downloads talk.state.db
    else talk.result = .ok (DownloadResult.shown result) ∧ Offered row puts (downloads + 1) talk.state.db := by
  intro talk
  obtain ⟨found, wrong, right, rest, tried, closed, typed, going⟩ := entitled
  dsimp only at found tried
  subst tried
  have store := offered.store
  by_cases spent : (allowance row).any (· ≤ downloads) = true
  · rw [if_pos spent] at store ⊢
    have ended : talk = _ := shareReceiver_over store found
    rw [ended]
    exact ⟨rfl, offered⟩
  · rw [if_neg spent] at store ⊢
    obtain ⟨filledIn, settled⟩ := opened right typed going
    let retries := (attempts sodium row.shortId key descriptor.password.isEnabled (.ready none) (wrong ++ right :: rest)).converse
      deployment.serveDownload world
    obtain ⟨done, onwards⟩ : retries.result = _ ∧ Offered row puts (downloads + 1) retries.state.db :=
      attempts_delivers deployed published filled (extractKeyFromHash_length found) offered.unlocked store closed filledIn settled rfl
    obtain ⟨shown, left⟩ : talk.result = _ ∧ talk.state = _ :=
      shareReceiver_shelved published filled store found done
    rw [shown, left]
    exact ⟨rfl, onwards⟩

/-- One visit of anybody else leaves no trace. -/
theorem shareReceiver_stranger (published : Published sodium deployment key descriptor row puts) (filled : 0 < row.chunkCount)
    (stranger : Stranger sodium descriptor (hash, tries)) (offered : Offered row puts downloads world.db) :
    let talk := (shareReceiver sodium row.shortId hash tries).converse deployment.serveDownload world
    talk.state = world ∧ ∃ status, talk.result = .ok status ∧ hasFile status = false := by
  intro talk
  have store := offered.store
  cases found : extractKeyFromHash hash with
  | none =>
    have quiet : talk = _ := shareReceiver_keyless found tries world
    rw [quiet]
    exact ⟨rfl, _, rfl, rfl⟩
  | some other =>
    by_cases spent : (allowance row).any (· ≤ downloads) = true
    · rw [if_pos spent] at store
      have ended : talk = _ := shareReceiver_over store found
      rw [ended]
      exact ⟨rfl, _, rfl, rfl⟩
    · rw [if_neg spent] at store
      obtain ⟨state, transcript, resting, onwards⟩ := attempts_wrong (extractKeyFromHash_length found)
        (published.describes filled store) (stranger other found) (rfl : (DecryptState.ready none).isDone = false) []
      have ends := onwards ⟨.ok state, [], world⟩ rfl
      rw [List.append_nil] at ends
      obtain ⟨shown, left⟩ : talk.result = _ ∧ talk.state = _ :=
        shareReceiver_shelved published filled store found (congrArg Conversation.result ends)
      rw [shown, left, ends]
      exact ⟨rfl, _, rfl, resting⟩

/-- What the pages of a number of visits show: the file to those who are entitled, while it lasts. -/
structure Received (row : ShareRow) (result : DownloadResult) (downloads : ℕ) (entitled : List Bool)
    (pages : List (Except Empty ReceiverStatus)) : Prop where
  files : ((pages.zip entitled).filter Prod.snd).map Prod.fst =
    List.replicate (granted row downloads (entitled.count true)) (.ok (DownloadResult.shown result)) ++
      List.replicate (entitled.count true - granted row downloads (entitled.count true)) (.ok (.error .notFound))
  strangers : ∀ page, (page, false) ∈ pages.zip entitled → ∃ status, page = .ok status ∧ hasFile status = false

section Received
variable {entitled : List Bool} {pages : List (Except Empty ReceiverStatus)}

theorem Received.stranger (received : Received row result downloads entitled pages) {status : ReceiverStatus}
    (empty : hasFile status = false) : Received row result downloads (false :: entitled) (.ok status :: pages) := by
  refine ⟨?_, fun page inside => ?_⟩
  · rw [List.count_cons_of_ne Bool.false_ne_true, ← received.files]
    rfl
  · rw [List.zip_cons_cons] at inside
    rcases List.mem_cons.mp inside with same | later
    · cases same
      exact ⟨status, rfl, empty⟩
    · exact received.strangers page later

/-- Those who are entitled come one after the other. -/
theorem Received.welcome {later : ℕ} {page : Except Empty ReceiverStatus} (received : Received row result later entitled pages)
    (files : page :: (List.replicate (granted row later (entitled.count true)) (.ok (DownloadResult.shown result)) ++
        List.replicate (entitled.count true - granted row later (entitled.count true)) (.ok (.error .notFound))) =
      List.replicate (granted row downloads (entitled.count true + 1)) (.ok (DownloadResult.shown result)) ++
        List.replicate (entitled.count true + 1 - granted row downloads (entitled.count true + 1)) (.ok (.error .notFound))) :
    Received row result downloads (true :: entitled) (page :: pages) := by
  refine ⟨?_, fun other inside => ?_⟩
  · rw [List.count_cons_self, ← files, ← received.files]
    rfl
  · rw [List.zip_cons_cons] at inside
    rcases List.mem_cons.mp inside with same | later
    · cases same
    · exact received.strangers other later

end Received

theorem granted_zero : granted row downloads 0 = 0 := by
  unfold granted
  cases allowance row with
  | none => rfl
  | some cap => exact Nat.zero_min _

theorem granted_spent (spent : (allowance row).any (· ≤ downloads) = true) (visits : ℕ) : granted row downloads visits = 0 := by
  unfold granted
  cases limit : allowance row with
  | none =>
    rw [limit] at spent
    cases spent
  | some cap =>
    rw [limit, Option.any_some, decide_eq_true_eq] at spent
    rw [Option.elim_some]
    omega

theorem granted_succ (going : ¬(allowance row).any (· ≤ downloads) = true) (visits : ℕ) :
    granted row downloads (visits + 1) = granted row (downloads + 1) visits + 1 := by
  unfold granted
  cases limit : allowance row with
  | none => rfl
  | some cap =>
    rw [limit, Option.any_some, decide_eq_true_eq] at going
    rw [Option.elim_some, Option.elim_some]
    omega

/-- Any number of visits of either kind, in any order. -/
theorem visits_deliver {visits : List (String × List Attempt)} {entitled : List Bool} (deployed : Deployed sodium deployment)
    (published : Published sodium deployment key descriptor row puts) (filled : 0 < row.chunkCount)
    (opened : Opened sodium key descriptor row puts password result)
    (kinds : List.Forall₂ (fun visit may =>
      if may = true then Entitled sodium key descriptor password visit else Stranger sodium descriptor visit) visits entitled)
    (offered : Offered row puts downloads world.db) :
    let received := deployment.visits sodium row.shortId visits world
    Received row result downloads entitled received.1 ∧
      Offered row puts (downloads + granted row downloads (entitled.count true)) received.2.db := by
  induction kinds generalizing world downloads with
  | nil =>
    intro received
    rw [List.count_nil, granted_zero]
    refine ⟨⟨?_, nofun⟩, offered⟩
    rw [List.count_nil, granted_zero]
    rfl
  | @cons visit may rest others kind _ ih =>
    obtain ⟨hash, tries⟩ := visit
    intro received
    let talk := (shareReceiver sodium row.shortId hash tries).converse deployment.serveDownload world
    have shape : received = (talk.result :: (deployment.visits sodium row.shortId rest talk.state).1,
      (deployment.visits sodium row.shortId rest talk.state).2) := rfl
    cases may with
    | false =>
      obtain ⟨same, status, shown, empty⟩ : talk.state = world ∧ ∃ status, talk.result = .ok status ∧ hasFile status = false :=
        shareReceiver_stranger published filled kind offered
      rw [same, shown] at shape
      obtain ⟨later, ended⟩ := ih offered
      rw [shape, List.count_cons_of_ne Bool.false_ne_true]
      exact ⟨later.stranger empty, ended⟩
    | true =>
      have visit : if (allowance row).any (· ≤ downloads) then
          talk.result = .ok (.error .notFound) ∧ Offered row puts downloads talk.state.db
        else talk.result = .ok (DownloadResult.shown result) ∧ Offered row puts (downloads + 1) talk.state.db :=
        shareReceiver_entitled deployed published filled opened kind offered
      rw [shape, List.count_cons_self]
      by_cases spent : (allowance row).any (· ≤ downloads) = true
      · rw [if_pos spent] at visit
        obtain ⟨later, ended⟩ := ih visit.2
        rw [visit.1]
        rw [granted_spent spent] at ended ⊢
        refine ⟨later.welcome ?_, ended⟩
        rw [granted_spent spent, granted_spent spent]
        rfl
      · rw [if_neg spent] at visit
        obtain ⟨later, ended⟩ := ih visit.2
        rw [visit.1]
        have more := granted_succ spent (others.count true)
        refine ⟨later.welcome ?_, ?_⟩
        · rw [more, Nat.succ_sub_succ]
          rfl
        · rw [more, Nat.add_comm (granted _ _ _), ← Nat.add_assoc]
          exact ended

end Visit

end Download

/-! ### From the sender to the recipients -/

theorem visits_reachable (sodium : Sodium) (deployment : Deployment) (shortId : String) (visits : List (String × List Attempt))
    (world : World) : (system deployment.env).Reachable (fun _ _ => True) world (deployment.visits sodium shortId visits world).2 := by
  induction visits generalizing world with
  | nil => exact ⟨[], .nil⟩
  | cons visit rest ih =>
    exact (converse_reachable (serveDownload_reachable deployment) (shareReceiver sodium shortId visit.1 visit.2) world).trans (ih _)

theorem downloadChunk_same {sodium : Sodium} {server : DownloadServer} {shortId : String} {fragmentKey key : Bytes}
    {protect : Bool} {one other : DownloadOptions} (same : one.aborted = other.aborted) (index : ℕ) :
    SlothBox.downloadChunk sodium server shortId fragmentKey key protect one index =
      SlothBox.downloadChunk sodium server shortId fragmentKey key protect other index := by
  rw [SlothBox.downloadChunk, SlothBox.downloadChunk, same]

/-- Without a password it does not matter what is typed. -/
theorem downloadFile_unprotected {sodium : Sodium} {server : DownloadServer} {shortId : String} {key : Bytes}
    {one other : DownloadOptions} (plain : ∀ descriptor,
      SlothBox.fetchShareMetadata server shortId = .ok descriptor → descriptor.password = .disabled)
    (same : one.aborted = other.aborted) :
    SlothBox.downloadFile sodium server shortId key one = SlothBox.downloadFile sodium server shortId key other := by
  have turns : ∀ aeadKey protect, SlothBox.downloadChunk sodium server shortId key aeadKey protect one =
      SlothBox.downloadChunk sodium server shortId key aeadKey protect other :=
    fun aeadKey protect => funext fun index => downloadChunk_same same index
  unfold SlothBox.downloadFile
  cases fetched : SlothBox.fetchShareMetadata server shortId with
  | error thrown => rfl
  | ok descriptor =>
    have keys : downloadAeadKey sodium key descriptor one = downloadAeadKey sodium key descriptor other := by
      rw [downloadAeadKey, downloadAeadKey, plain descriptor fetched]
    simp only [turns, keys, Except.mapError, bind, Except.bind]

section Whole
variable {sodium : Sodium} {web : WebConfig} {random : Randomness} {file : File} {options : UploadOptions} {expiresAt : String}
  {deployment : Deployment} {encryptedMeta : Bytes}

theorem settledServer_publishing {run : UploadRun UploadResult} {request : CreateShareRequest}
    (created : run.created = some request) : settledServer (publishing request.descriptor run.puts) = run.served := by
  unfold settledServer UploadRun.served publishing
  rw [created]
  rfl

/-- The password of the upload opens it. -/
theorem uploadFile_opened (lawful : Lawful sodium) (opens : ∀ plaintext aad nonce key,
      sodium.aeadDecrypt (sodium.aeadEncrypt plaintext aad nonce key) aad nonce key = some plaintext)
    {server : UploadServer} {upload : UploadResult}
    (defaults : options.passwordKdfOpsLimit = none ∧ options.passwordKdfMemLimitBytes = none)
    (returned : (uploadFile sodium web random file options server expiresAt).result = .ok upload)
    (created : (uploadFile sodium web random file options server expiresAt).created =
      some (createRequest sodium web random file options expiresAt encryptedMeta)) {row : ShareRow}
    (named : row.shortId = upload.shortId) :
    Opened sodium random.fragmentKey (createRequest sodium web random file options expiresAt encryptedMeta).descriptor row
      (uploadFile sodium web random file options server expiresAt).puts options.password
      ⟨newBlob [file.content] file.mimeType, file.name, file.mimeType, options.burnAfterRead.getD false⟩ := by
  intro attempt typed going
  rw [settledServer_publishing created, named]
  have served : ∀ download : DownloadOptions, download.password = options.password → download.aborted = attempt.aborted →
      SlothBox.downloadFile sodium (uploadFile sodium web random file options server expiresAt).served upload.shortId
        random.fragmentKey download =
        .ok ⟨newBlob [file.content] file.mimeType, file.name, file.mimeType, options.burnAfterRead.getD false⟩ := by
    intro download same aborted
    exact downloadFile_served lawful defaults returned (fun call _ => opens _ _ _ _) same fun index => by rw [aborted, going]
  have facet : (createRequest sodium web random file options expiresAt encryptedMeta).descriptor.password =
      if options.hasPassword then .enabled (bytesToBase64Url random.passwordSalt) defaultOpsLimit (defaultMemLimitBytes / 1024)
      else .disabled := facet_created defaults
  cases protect : options.hasPassword with
  | true =>
    have enabled : (createRequest sodium web random file options expiresAt encryptedMeta).descriptor.password.isEnabled = true := by
      rw [facet, protect]
      rfl
    rw [enabled] at typed ⊢
    have password := typed rfl
    refine ⟨?_, served _ password rfl⟩
    rw [UploadOptions.hasPassword, ← password, Option.any_some, decide_eq_true_eq] at protect
    rw [Bool.true_and, beq_eq_false_iff_ne]
    omega
  | false =>
    have disabled : (createRequest sodium web random file options expiresAt encryptedMeta).descriptor.password = .disabled := by
      rw [facet, protect, if_neg Bool.false_ne_true]
    rw [disabled]
    have plain : ∀ descriptor, SlothBox.fetchShareMetadata (uploadFile sodium web random file options server expiresAt).served
        upload.shortId = .ok descriptor → descriptor.password = .disabled := by
      intro descriptor fetched
      simp only [SlothBox.fetchShareMetadata, UploadRun.served, created] at fetched
      split at fetched
      next =>
        cases fetched
        exact disabled
      next => cases fetched
    have ignored : (attempt.options SharePasswordFacet.disabled.isEnabled).aborted = attempt.aborted := rfl
    exact ⟨rfl, (downloadFile_unprotected plain ignored).trans (served ⟨options.password, attempt.aborted⟩ rfl rfl)⟩

/-- What an upload to the two services publishes. -/
theorem upload_published (lawful : Lawful sodium) (digests : Digests sodium) (deployed : Deployed sodium deployment)
    {description : Sealed} {response : CreateShareResponse} {puts : List PutChunkRequest} {time : ℤ}
    (defaults : options.passwordKdfOpsLimit = none ∧ options.passwordKdfMemLimitBytes = none)
    (prepared : prepareUpload sodium web random file options = .ok (description, encryptedMeta))
    (limits : Declarable deployment.gateway deployment.dates (deployment.clock 0)
      (createRequest sodium web random file options expiresAt encryptedMeta))
    (early : ∀ handlers, dateNow (deployment.clock handlers) < time) (named : response.shortId = deployment.shortId)
    (sent : List.Forall₂ (fun index put =>
      preparedChunk sodium web random file options description.key response index = .ok put)
      (List.range (chunkCount web file)) puts) :
    Published sodium deployment random.fragmentKey (createRequest sodium web random file options expiresAt encryptedMeta).descriptor
      (uploadedRow sodium web random file options encryptedMeta deployment time) puts where
  valid := descriptor_isValid lawful defaults prepared
  described held same := declared_descriptor same
  count := rfl
  long := sent.length_eq.symm.trans List.length_range
  few := Nat.lt_of_le_of_lt limits.chunkCount (by norm_num)
  tokens index put there := by
    obtain ⟨inside, same⟩ := List.getElem?_eq_some_iff.mp there
    have each := (List.forall₂_iff_get.mp sent).2 index (by rwa [sent.length_eq]) inside
    rw [List.get_eq_getElem, List.get_eq_getElem, List.getElem_range, same] at each
    obtain ⟨-, -, ⟨token, derived, commitment⟩, -⟩ := preparedChunk_ok each
    obtain ⟨-, aad, -, value⟩ := deriveChunkToken_ok.mp derived
    rw [named] at derived
    exact ⟨token, derived, value ▸ digests.sha256 _, commitment⟩
  named := deployed.shortId
  early handlers := by
    have before := early handlers
    have expires : (uploadedRow sodium web random file options encryptedMeta deployment time).expiresAt = (time * 1000).toNat := rfl
    unfold dateNow at before ⊢
    rw [expires]
    omega

/-- An upload to the two services offers the file to those with the link and the password, as
often as the sender allows. -/
theorem upload_offers (lawful : Lawful sodium) (digests : Digests sodium) (opens : ∀ plaintext aad nonce key,
      sodium.aeadDecrypt (sodium.aeadEncrypt plaintext aad nonce key) aad nonce key = some plaintext)
    (deployed : Deployed sodium deployment) (unhindered : Unhindered sodium web random file options expiresAt deployment) :
    let talk := (Session.uploadFile sodium web random file options expiresAt).converse deployment.serveUpload (.start .empty)
    ∃ link descriptor row puts, talk.result = .ok link ∧ link.shareUrl = shareUrl web random link.shortId ∧
      row.shortId = link.shortId ∧ descriptor.password.isEnabled = options.hasPassword ∧
      allowance row = (if options.burnAfterRead.getD false then some 1 else options.maxDownloads) ∧ 0 < row.chunkCount ∧
      Published sodium deployment random.fragmentKey descriptor row puts ∧
      Opened sodium random.fragmentKey descriptor row puts options.password
        ⟨newBlob [file.content] file.mimeType, file.name, file.mimeType, options.burnAfterRead.getD false⟩ ∧
      Shelved row puts 0 0 talk.state.db.store ∧ Offered row puts 0 talk.state.db := by
  intro talk
  obtain ⟨description, encryptedMeta, time, link, response, prepared, dated, result, returned, linked, named, sent, unlocked, filling⟩ :=
    upload_fills lawful digests deployed unhindered
  have limits := unhindered.declarable description encryptedMeta prepared
  let request := createRequest sodium web random file options expiresAt encryptedMeta
  let row := uploadedRow sodium web random file options encryptedMeta deployment time
  let run := uploadFile sodium web random file options (settledUpload (accepting response)) expiresAt
  obtain ⟨_, _, again, url, -, -, created, -⟩ := uploadFile_ok returned
  cases prepared.symm.trans again
  have published := upload_published lawful digests deployed unhindered.defaults prepared limits
    (unhindered.early time dated) named sent
  have opened : Opened sodium random.fragmentKey request.descriptor row run.puts options.password _ :=
    uploadFile_opened lawful opens unhindered.defaults returned created linked.symm
  have positive : 0 < row.chunkCount := (chunkCount_bounds unhindered.filled).1
  have shelved : Shelved row run.puts 0 0 talk.state.db.store := filling.shelved positive published.long rfl
  have protect : request.descriptor.password.isEnabled = options.hasPassword := by
    have facet : request.descriptor.password = if options.hasPassword then
        .enabled (bytesToBase64Url random.passwordSalt) defaultOpsLimit (defaultMemLimitBytes / 1024) else .disabled :=
      facet_created unhindered.defaults
    rw [facet]
    cases options.hasPassword <;> rfl
  -- a limit of no download at all is refused
  have fresh : ¬(allowance row).any (· ≤ 0) = true := by
    rw [Option.any_eq_true]
    simp only [decide_eq_true_eq, not_exists, not_and]
    intro cap limit none
    unfold allowance at limit
    split at limit
    next => cases limit; cases none
    next => exact absurd (limits.maxDownloads cap limit).1 (Nat.not_lt.mpr none)
  have offered : Offered row run.puts 0 talk.state.db := by
    refine ⟨unlocked, ?_⟩
    rw [if_neg fresh]
    exact shelved
  exact ⟨link, request.descriptor, row, run.puts, result, url, linked.symm, protect, rfl, positive, published, opened, shelved, offered⟩

end Whole

/-- From the sender's browser through both services to the browsers of the recipients, with no
failure on the way, the default cost for the password, nobody who cancels what would succeed,
and the last request before the share expires. The upload returns a link. Visits may follow in
any number and order, of people with the key of the link and the password, who may mistype it
before, and of others; no two of them overlap, nor do the attempts within one. The first ones
of the former see the file, as many as the sender has allowed, and the rest of them that there
is nothing any more; the others never see it and use nothing up. Everything that the services
do is a run of the system. -/
theorem share_delivered (sodium : Sodium) (lawful : Lawful sodium) (digests : Digests sodium)
    (opens : ∀ plaintext aad nonce key,
      sodium.aeadDecrypt (sodium.aeadEncrypt plaintext aad nonce key) aad nonce key = some plaintext)
    (web : WebConfig) (random : Randomness) (file : File) (options : UploadOptions) (expiresAt : String)
    (deployment : Deployment) (deployed : Deployed sodium deployment)
    (unhindered : Unhindered sodium web random file options expiresAt deployment) :
    let sending := (Session.uploadFile sodium web random file options expiresAt).converse deployment.serveUpload (.start .empty)
    ∃ link descriptor, sending.result = .ok link ∧
      extractKeyFromHash (String.ofList (Url.fragment link.shareUrl.toList)) = some random.fragmentKey.val ∧
      getShares deployment sending.state link.shortId = .ok descriptor ∧ descriptor.password.isEnabled = options.hasPassword ∧
      ∀ (visits : List (String × List Attempt)) (entitled : List Bool), List.Forall₂ (fun visit may =>
          if may = true then Entitled sodium random.fragmentKey descriptor options.password visit
          else Stranger sodium descriptor visit) visits entitled →
        let received := deployment.visits sodium link.shortId visits sending.state
        let allowed := if options.burnAfterRead.getD false then some 1 else options.maxDownloads
        let asked := entitled.count true
        let delivered := allowed.elim asked (min asked)
        ((received.1.zip entitled).filter Prod.snd).map Prod.fst =
          List.replicate delivered (.ok (.shown (.done (newBlob [file.content] file.mimeType) file.name file.mimeType
            (!isPreviewable file.mimeType file.name)))) ++ List.replicate (asked - delivered) (.ok (.error .notFound)) ∧
        (∀ page, (page, false) ∈ received.1.zip entitled → ∃ status, page = .ok status ∧ hasFile status = false) ∧
        (∃ row, received.2.db.store.share = some row ∧ row.downloadCount = delivered ∧
          (row.state.terminal = true ↔ allowed = some delivered)) ∧
        (system deployment.env).Reachable (fun _ _ => True) (.start .empty) received.2 := by
  intro sending
  obtain ⟨link, descriptor, row, puts, result, url, named, protect, limit, positive, published, opened, shelved, offered⟩ :=
    upload_offers lawful digests opens deployed unhindered
  have found := extractKey_shareUrl web random link.shortId
  rw [← url] at found
  refine ⟨link, descriptor, result, found, ?_, protect, fun visits entitled kinds => ?_⟩
  · rw [← named]
    exact congrArg Prod.fst (published.describes positive shelved)
  · intro received allowed asked delivered
    obtain ⟨shown, ended⟩ := visits_deliver deployed published positive opened kinds offered
    have total : granted row 0 asked = delivered := by
      unfold granted
      rw [limit]
      rfl
    have files := shown.files
    have strangers := shown.strangers
    rw [named] at files strangers ended
    rw [total] at files ended
    rw [Nat.zero_add] at ended
    refine ⟨files, strangers, ?_,
      (converse_reachable (serveUpload_reachable deployment) _ _).trans (visits_reachable sodium deployment _ _ _)⟩
    obtain ⟨held, share, counted, terminal⟩ := ended.recorded positive
    refine ⟨held, share, counted, terminal.trans ⟨fun reached => ?_, fun reached => ⟨delivered, limit.trans reached, Nat.le_refl _⟩⟩⟩
    obtain ⟨cap, limited, atMost⟩ := reached
    have capped : allowed = some cap := limit.symm.trans limited
    have least : delivered = min asked cap := by
      change allowed.elim asked (min asked) = _
      rw [capped]
      rfl
    rw [capped]
    exact congrArg some (by omega)

/-- Services for the small file. -/
def sampleDeployment : Deployment where
  env := {
    sha256 := wholeSodium.sha256
    queryError := sampleEnv.queryError }
  gateway := {}
  dates := sampleDates
  id := "8c1f0d6e"
  shortId := "abcdefghjkmn"
  clock _ := 5
  isUrl _ := true
  details _ := ""

/-- The small file, for two downloads: of three visits with the link the last one comes too late,
and one without the key changes nothing. -/
theorem share_delivered_sample : ∃ link,
    ((Session.uploadFile wholeSodium sampleConfig sampleRandom sampleFile { maxDownloads := some 2 }
      "1970-01-02T00:00:00.000Z").converse sampleDeployment.serveUpload (.start .empty)).result = .ok link ∧
    let visit : String × List Attempt := (String.ofList (Url.fragment link.shareUrl.toList), [{ password := "" }])
    let received := sampleDeployment.visits wholeSodium link.shortId [visit, ("", []), visit, visit]
      ((Session.uploadFile wholeSodium sampleConfig sampleRandom sampleFile { maxDownloads := some 2 }
        "1970-01-02T00:00:00.000Z").converse sampleDeployment.serveUpload (.start .empty)).state
    ((received.1.zip [true, false, true, true]).filter Prod.snd).map Prod.fst =
        [.ok (.shown (.done ⟨[104, 105, 33], "text/plain"⟩ "a.txt" "text/plain" false)),
          .ok (.shown (.done ⟨[104, 105, 33], "text/plain"⟩ "a.txt" "text/plain" false)), .ok (.error .notFound)] ∧
      received.2.db.store.ended = true := by
  have deployed : Deployed wholeSodium sampleDeployment :=
    ⟨rfl, rfl, rfl, by decide, by decide, by decide, by decide, by decide, fun _ => rfl⟩
  have early : ∀ time, sampleDates.getTime (units "1970-01-02T00:00:00.000Z") = some time → ∀ _ : ℕ, dateNow 5 < time := by
    intro time dated _
    have day : sampleDates.getTime (units "1970-01-02T00:00:00.000Z") = some 86400000 := by decide +kernel
    cases day.symm.trans dated
    decide
  have unhindered : Unhindered wholeSodium sampleConfig sampleRandom sampleFile { maxDownloads := some 2 }
      "1970-01-02T00:00:00.000Z" sampleDeployment := by
    refine ⟨by decide, by decide, ⟨rfl, rfl⟩, nofun, fun _ => rfl, fun description encryptedMeta prepared => ?_, early⟩
    exact sampleFile_declarable prepared rfl fun cap same => by cases same; decide
  obtain ⟨link, descriptor, result, found, -, unprotected, delivers⟩ := share_delivered wholeSodium wholeSodium_lawful
    wholeSodium_digests sampleOpenAll_encrypt sampleConfig sampleRandom sampleFile { maxDownloads := some 2 }
    "1970-01-02T00:00:00.000Z" sampleDeployment deployed unhindered
  have entitled : Entitled wholeSodium sampleRandom.fragmentKey descriptor none
      (String.ofList (Url.fragment link.shareUrl.toList), [{ password := "" }]) := by
    refine ⟨found, [], { password := "" }, [], rfl, nofun, fun locked => ?_, fun _ => rfl⟩
    rw [unprotected] at locked
    cases locked
  have stranger : Stranger wholeSodium descriptor ("", []) := nofun
  obtain ⟨shown, -, ⟨row, share, -, terminal⟩, -⟩ := delivers _ [true, false, true, true]
    (.cons entitled (.cons stranger (.cons entitled (.cons entitled .nil))))
  refine ⟨link, result, shown, ?_⟩
  have ended : row.state.terminal = true := terminal.mpr rfl
  rw [Store.ended, share]
  exact ended

end SlothBox.Proofs

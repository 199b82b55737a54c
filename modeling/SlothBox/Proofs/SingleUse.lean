import SlothBox.Proofs.Burn

/-! Whether a chunk of a burn share is served twice. The check of `served_at` and
its stamp are statements of different transactions, with the whole body between
them; a chunk is single-use exactly as long as nobody else checks in between. -/

namespace SlothBox.Proofs
open Library

/-- The client holds the token that the chunk was committed to. -/
def holdsToken (env : Env) (store : Store) (request : GetRequest) : Bool :=
  (store.chunks.lookup request.chunkIndex.toNat).all fun chunk =>
    chunk.downloadTokenHash.all fun stored => extractChunkTokenHash env.sha256 request.authorization = some stored

/-- Readers with their tokens only. Any of them may go away at any point, and every
call of theirs otherwise succeeds; the final mark does not listen to the client. -/
def fetches (env : Env) (world : World) : Event → Bool
  | .spawn (.get request) => holdsToken env world.db.store request
  | .exec pid _ outcome =>
    match world.procs[pid]? with
    | some (.get _ (.mark ..)) => outcome = .ok
    | some (.get ..) => outcome = .ok || outcome = .aborted
    | _ => false
  | _ => false

/-- The reader has found the chunk unserved and has not marked it yet. -/
def passed (index : Int) : Proc → Bool
  | .get request (.stream ..) | .get request (.body ..) | .get request (.mark ..) => request.chunkIndex = index
  | _ => false

/-- No reader checks a chunk while another one is between its check and its mark. -/
def checksAlone (world : World) : Event → Bool
  | .exec pid _ _ =>
    match world.procs[pid]? with
    | some (.get request (.readChunk _)) => !world.procs.any (passed request.chunkIndex)
    | _ => true
  | _ => true

section Invariant
variable (env : Env) (row : ShareRow) (store : Store)

/-- The columns of the share that no reader changes. -/
def SameShare (current : ShareRow) : Prop :=
  current.id = row.id ∧ current.shortId = row.shortId ∧ current.burnAfterRead = row.burnAfterRead ∧
    current.chunkCount = row.chunkCount

/-- The columns of a chunk that no reader changes. -/
def SameChunk (index : Nat) (chunk : ChunkRow) : Prop :=
  ∃ old, store.chunks.lookup index = some old ∧ chunk.blobKey = old.blobKey ∧
    chunk.downloadTokenHash = old.downloadTokenHash

/-- The lock holder after its stamp: it will commit the chunk as served. -/
def StampHeld (db : Database) (pid index : Nat) : Prop :=
  ∃ now writes chunk, db.tx = some ⟨pid, now, writes⟩ ∧ writes.dropChunks = false ∧
    writes.chunk = some (index, chunk) ∧ chunk.servedAt.isSome ∧ SameChunk store index chunk ∧
    ∀ written, writes.share = some written → SameShare row written

def MarkHeld (db : Database) (pid index : Nat) : MarkStep → Prop
  | .lockShare => True
  | .stampChunk _ => ∃ now, db.tx = some ⟨pid, now, {}⟩
  | _ => StampHeld row store db pid index

/-- What a reader knows in each of its states. -/
def ReaderValid (db : Database) (pid : Nat) (request : GetRequest) : GetStep → Prop
  | .acquire | .readShare => holdsToken env store request
  | .readChunk share => holdsToken env store request ∧ SameShare row share ∧ 0 ≤ request.chunkIndex ∧
      request.chunkIndex < row.chunkCount
  | .stream share chunk => SameShare row share ∧ 0 ≤ request.chunkIndex ∧ request.chunkIndex < row.chunkCount ∧
      SameChunk store request.chunkIndex.toNat chunk
  | .body share _ => SameShare row share ∧ 0 ≤ request.chunkIndex ∧ request.chunkIndex < row.chunkCount
  | .mark share inner => SameShare row share ∧ 0 ≤ request.chunkIndex ∧ request.chunkIndex < row.chunkCount ∧
      MarkHeld row store db pid request.chunkIndex.toNat inner
  | .done reply sent _ =>
    (sent → 0 ≤ request.chunkIndex ∧ Served db.store request.chunkIndex.toNat) ∧
    (sent = false → request.shortId = row.shortId → 0 ≤ request.chunkIndex → request.chunkIndex < row.chunkCount →
      reply = .http 410 none ∨ reply = .dropped)

def OnlyReader (db : Database) (pid : Nat) : Proc → Prop
  | .get request step => ReaderValid env row store db pid request step
  | _ => False

/-- What holds of the stored rows. -/
structure Intact (current : Store) : Prop where
  share : ∃ now, current.share = some now ∧ SameShare row now
  chunks : ∀ index < row.chunkCount, ∃ chunk, current.chunks.lookup index = some chunk ∧ SameChunk store index chunk
  blobs : current.blobs = store.blobs

/-- The reader is past its check, or its body has been sent. -/
def claims (index : Int) : Proc → Bool
  | .get request (.stream ..) | .get request (.body ..) | .get request (.mark ..) => request.chunkIndex = index
  | .get request (.done _ sent _) => sent && request.chunkIndex = index
  | _ => false

structure Exclusive (world : World) : Prop where
  intact : Intact row store world.db.store
  readers : ∀ pid proc, world.procs[pid]? = some proc → OnlyReader env row store world.db pid proc
  exclusive : ∀ (index : Int) (first second : Nat) (one two : Proc), world.procs[first]? = some one →
    world.procs[second]? = some two → claims index one → claims index two → first = second

end Invariant

variable {env : Env} {row : ShareRow} {store : Store}

/-- A reader's step, seen by the other readers. -/
structure Shift (row : ShareRow) (store : Store) (pid : Nat) (before after : Database) : Prop where
  frame : SameRows before after ∨ ∀ tx, before.tx = some tx → tx.owner = pid
  intact : Intact row store after.store
  served : ∀ index, Served before.store index → Served after.store index

section Statements
variable {db : Database} {pid index : Nat} {clock : Timestamp}

theorem Shift.still (intact : Intact row store db.store) : Shift row store pid db db :=
  ⟨.inl ⟨rfl, rfl, rfl⟩, intact, fun _ => id⟩

theorem MarkHeld.frame {after : Database} {inner : MarkStep} (held : MarkHeld row store db pid index inner)
    (same : SameRows db after) : MarkHeld row store after pid index inner := by
  cases inner with
  | lockShare => trivial
  | _ => simpa only [MarkHeld, StampHeld, same.tx] using held

theorem MarkHeld.holds {inner : MarkStep} (held : MarkHeld row store db pid index inner)
    (inside : inner ≠ .lockShare) : ∃ tx, db.tx = some tx ∧ tx.owner = pid := by
  have stamped : StampHeld row store db pid index → ∃ tx, db.tx = some tx ∧ tx.owner = pid := by
    rintro ⟨now, writes, chunk, opened, -⟩
    exact ⟨_, opened, rfl⟩
  cases inner with
  | lockShare => exact absurd rfl inside
  | stampChunk vShare =>
    obtain ⟨now, opened⟩ := held
    exact ⟨_, opened, rfl⟩
  | countUnserved vShare => exact stamped held
  | flip vShare => exact stamped held
  | append vShare => exact stamped held
  | commit result => exact stamped held

private theorem Shift.staged {writes : WriteSet} (intact : Intact row store db.store)
    (owned : ∀ tx, db.tx = some tx → tx.owner = pid) :
    Shift row store pid db (db.apply pid (.stage writes)) :=
  ⟨.inr owned, intact, fun _ => id⟩

/-- Staging anything but chunks keeps the stamp. -/
private theorem StampHeld.stage {writes : WriteSet} (held : StampHeld row store db pid index)
    (chunk : writes.chunk = none) (kept : writes.dropChunks = false)
    (same : ∀ written, writes.share = some written → SameShare row written) :
    StampHeld row store (db.apply pid (.stage writes)) pid index := by
  obtain ⟨now, before, stamped, opened, drops, wrote, served, sound, shares⟩ := held
  refine ⟨now, before.merge writes, stamped, by simp [Database.apply, opened], ?_, ?_, served, sound, ?_⟩
  · simp [WriteSet.merge, drops, kept]
  · simp [WriteSet.merge, chunk, wrote]
  · intro written share
    rcases Option.or_eq_some_iff.mp share with later | ⟨-, earlier⟩
    · exact same written later
    · exact shares written earlier

theorem sameShare_view (intact : Intact row store db.store) (held : StampHeld row store db pid index)
    {current : ShareRow} (found : db.view.share = some current) : SameShare row current := by
  obtain ⟨now, writes, stamped, opened, -, -, -, -, shares⟩ := held
  obtain ⟨stored, share, same⟩ := intact.share
  simp only [Database.view, opened, WriteSet.apply, share] at found
  rcases Option.or_eq_some_iff.mp found with own | ⟨-, committed⟩
  · exact shares current own
  · exact Option.some.inj committed ▸ same

/-- The commit publishes the stamp. -/
private theorem commit_shift (intact : Intact row store db.store) (held : StampHeld row store db pid index) :
    Shift row store pid db (db.apply pid .commit) ∧ Served (db.apply pid .commit).store index := by
  have shared : ∀ current, db.view.share = some current → SameShare row current := fun _ =>
    sameShare_view intact held
  obtain ⟨now, writes, stamped, opened, drops, wrote, served, sound, shares⟩ := held
  have chunks : db.view.chunks = db.store.chunks.insert index stamped := by
    simp [Database.view, opened, WriteSet.apply, drops, wrote]
  have own : Served db.view index := ⟨stamped, by rw [chunks]; exact AList.lookup_insert _, served⟩
  refine ⟨⟨.inr ?_, ⟨?_, ?_, ?_⟩, ?_⟩, own⟩
  · intro tx running
    obtain rfl := Option.some.inj (opened.symm.trans running)
    rfl
  · obtain ⟨stored, share, same⟩ := intact.share
    have present : db.view.share.isSome := by
      simp [Database.view, opened, WriteSet.apply, share]
    obtain ⟨current, found⟩ := Option.isSome_iff_exists.mp present
    exact ⟨current, found, shared current found⟩
  · intro other inside
    by_cases same : other = index
    · subst same
      exact ⟨stamped, by simp [Database.apply, chunks], sound⟩
    · obtain ⟨chunk, found, kept⟩ := intact.chunks other inside
      exact ⟨chunk, by simpa [Database.apply, chunks, AList.lookup_insert_ne same] using found, kept⟩
  · simpa [Database.apply, Database.view, opened, WriteSet.apply] using intact.blobs
  · rintro other ⟨chunk, found, before⟩
    by_cases same : other = index
    · exact same ▸ own
    · exact ⟨chunk, by simpa [Database.apply, chunks, AList.lookup_insert_ne same] using found, before⟩

/-- Where the call of `mark_chunk_served` has come to. -/
def MarkGoes (row : ShareRow) (store : Store) (db : Database) (pid index : Nat) : MarkStep ⊕ Option MarkResult → Prop
  | .inl next => MarkHeld row store db pid index next
  | .inr _ => Served db.store index

/-- Stamping a chunk leaves its key and its token alone. -/
private theorem SameChunk.stamp {chunk : ChunkRow} (sound : SameChunk store index chunk) (now : Timestamp) :
    SameChunk store index (stampServed now chunk) := by
  obtain ⟨old, stored, key, hash⟩ := sound
  refine ⟨old, stored, ?_, ?_⟩
  · simpa [stampServed, clearChunkDeliveryOnReplace] using key
  · simpa [stampServed, clearChunkDeliveryOnReplace] using hash

theorem mark_shift (intact : Intact row store db.store) (inside : index < row.chunkCount) {inner : MarkStep}
    (held : MarkHeld row store db pid index inner) {after : MarkStep ⊕ Option MarkResult} {effect : Effect}
    (executed : inner.exec db row.id index clock .ok = some (after, effect)) :
    Shift row store pid db (db.apply pid effect) ∧ MarkGoes row store (db.apply pid effect) pid index after := by
  have owned : inner ≠ .lockShare → ∀ tx, db.tx = some tx → tx.owner = pid := by
    intro started tx running
    obtain ⟨holder, opened, owner⟩ := held.holds started
    exact Option.some.inj (opened.symm.trans running) ▸ owner
  obtain ⟨chunk, found, sound⟩ := intact.chunks index inside
  have stamped : ∀ now, db.tx = some ⟨pid, now, {}⟩ → ∀ read, db.view.chunks.lookup index = some read →
      StampHeld row store
        (db.apply pid (.stage { chunk := some (index, stampServed (db.tx.elim clock Transaction.now) read) })) pid index := by
    intro now opened read viewed
    obtain rfl : chunk = read := by simpa [Database.view, opened, WriteSet.apply, found] using viewed
    refine ⟨now, { chunk := some (index, stampServed now chunk) }, _, ?_, rfl, rfl, servedAt_stampServed now chunk,
      sound.stamp now, by rintro _ ⟨⟩⟩
    simp [Database.apply, opened, WriteSet.merge]
  cases mark_move executed with
  | lock free =>
    refine ⟨⟨.inr fun tx running => ?_, intact, fun _ => id⟩, clock, rfl⟩
    rw [free] at running
    cases running
  | leave absent =>
    obtain ⟨current, share, same⟩ := intact.share
    exact absurd ((absent rfl).symm.trans (findById_eq_some.mpr ⟨share, same.1⟩)) (by simp)
  | absent absent =>
    obtain ⟨now, opened⟩ := held
    simp [Database.view, opened, WriteSet.apply, found] at absent
  | stamp viewed =>
    obtain ⟨now, opened⟩ := held
    exact ⟨.staged intact (owned (by simp)), stamped now opened _ viewed⟩
  | stampOnly viewed =>
    obtain ⟨now, opened⟩ := held
    exact ⟨.staged intact (owned (by simp)), stamped now opened _ viewed⟩
  | allServed => exact ⟨.still intact, held⟩
  | someUnserved => exact ⟨.still intact, held⟩
  | flip found =>
    have same := sameShare_view intact held (findById_eq_some.mp found).1
    refine ⟨.staged intact (owned (by simp)), StampHeld.stage held rfl rfl ?_⟩
    rintro written ⟨⟩
    exact same
  | flipNothing => exact ⟨.still intact, held⟩
  | append => exact ⟨.staged intact (owned (by simp)), StampHeld.stage held rfl rfl (by rintro _ ⟨⟩)⟩
  | commit => exact commit_shift intact held
  | rollback _ bad => exact absurd rfl bad

/-- With its token and no failure but its own departure, a reader of an existing
chunk is only ever turned away with 410. -/
theorem refused_reply (stocked : ∀ index < row.chunkCount, ∃ chunk, store.chunks.lookup index = some chunk ∧
      (store.blobs.lookup chunk.blobKey).isSome)
    (intact : Intact row store db.store) {request : GetRequest} {step : GetStep} {outcome : Outcome} {reply : Reply}
    {effect : Effect} (valid : ReaderValid env row store db pid request step)
    (outcomes : outcome = .ok ∨ outcome = .aborted)
    (executed : step.exec env db request clock outcome = some (.refused reply, effect))
    (named : request.shortId = row.shortId) (natural : 0 ≤ request.chunkIndex)
    (inside : request.chunkIndex < row.chunkCount) : reply = .http 410 none ∨ reply = .dropped := by
  have below : request.chunkIndex.toNat < row.chunkCount := by omega
  cases step with
  | acquire =>
    have moved := (Prod.mk.inj (Option.some.inj executed)).1
    rw [if_neg (by rcases outcomes with rfl | rfl <;> simp)] at moved
    cases moved
  | readShare =>
    have moved := (Prod.mk.inj (Option.some.inj executed)).1
    rcases outcomes with rfl | rfl
    · obtain ⟨current, share, same⟩ := intact.share
      rw [if_pos rfl, find_eq_some.mpr ⟨share, same.2.1.trans named.symm⟩] at moved
      dsimp only at moved
      split at moved
      · cases moved
        exact .inl rfl
      · rw [if_neg (by rw [same.2.2.2]; omega)] at moved
        cases moved
    · cases moved
      exact .inr rfl
  | readChunk share =>
    have moved := (Prod.mk.inj (Option.some.inj executed)).1
    rcases outcomes with rfl | rfl
    · obtain ⟨chunk, found, old, stored, -, hash⟩ := intact.chunks _ below
      rw [if_pos rfl, found] at moved
      dsimp only at moved
      split at moved
      next error denied =>
        cases moved
        refine .inl ?_
        have token := valid.1
        simp only [holdsToken, stored, Option.all_some, ← hash] at token
        simp only [GetRequest.check] at denied
        by_cases served : chunk.servedAt.isSome ∧ share.burnAfterRead
        · simp only [refuseIf, served, and_self, ↓reduceIte, bind, Except.bind, Except.error.injEq] at denied
          exact denied.symm
        · simp only [refuseIf, served, ↓reduceIte, bind, Except.bind] at denied
          split at denied
          · cases denied
          next expected commits =>
            rw [commits, Option.all_some, decide_eq_true_eq] at token
            simp [token] at denied
      · cases moved
    · cases moved
      exact .inr rfl
  | stream share chunk =>
    have moved := (Prod.mk.inj (Option.some.inj executed)).1
    rcases outcomes with rfl | rfl
    · obtain ⟨-, -, -, old, stored, key, -⟩ := valid
      obtain ⟨known, found, present⟩ := stocked _ below
      obtain rfl := Option.some.inj (stored.symm.trans found)
      rw [if_pos rfl, if_pos (by rw [intact.blobs, key]; exact present)] at moved
      cases moved
    · cases moved
      exact .inr rfl
  | body share chunk => cases executed
  | mark share inner =>
    obtain ⟨⟨after, same⟩, marked, moved⟩ := Option.map_eq_some_iff.mp executed
    cases after <;> cases moved
  | done reply sent marked => cases executed

/-- The check lets a chunk of a burn share through only unserved. -/
theorem check_unserved {request : GetRequest} {share : ShareRow} {chunk : ChunkRow} (burns : share.burnAfterRead)
    (admitted : request.check env share chunk = .ok ()) : chunk.servedAt = none := by
  simp only [GetRequest.check, bind_ok, refuseIf_ok] at admitted
  obtain ⟨-, fresh, -⟩ := admitted
  simpa [burns] using fresh

theorem reader_shift (burns : row.burnAfterRead)
    (stocked : ∀ index < row.chunkCount, ∃ chunk, store.chunks.lookup index = some chunk ∧
      (store.blobs.lookup chunk.blobKey).isSome)
    (intact : Intact row store db.store) {request : GetRequest} {step moved : GetStep} {outcome : Outcome}
    {effect : Effect} (valid : ReaderValid env row store db pid request step)
    (outcomes : outcome = .ok ∨ outcome = .aborted) (marks : ∀ share inner, step = .mark share inner → outcome = .ok)
    (executed : step.exec env db request clock outcome = some (moved, effect)) :
    Shift row store pid db (db.apply pid effect) ∧ ReaderValid env row store (db.apply pid effect) pid request moved ∧
      ∀ index, claims index (.get request moved) → claims index (.get request step) ∨
        (∃ share, step = .readChunk share) ∧ request.chunkIndex = index ∧ Unserved db.store index.toNat := by
  rcases get_cases executed with ⟨rfl, reply, rfl⟩ | ⟨rfl, rfl, rfl⟩ |
    ⟨current, rfl, rfl, found, -, -, natural, inside, rfl⟩ | ⟨current, chunk, rfl, rfl, found, admitted, rfl⟩ |
    ⟨current, chunk, rfl, rfl, rfl⟩ | ⟨current, chunk, rfl, rfl, rfl⟩ | ⟨current, inner, after, rfl, marked, rfl⟩
  · exact ⟨.still intact, ⟨nofun, fun _ => refused_reply stocked intact valid outcomes executed⟩, nofun⟩
  · exact ⟨.still intact, valid, nofun⟩
  · obtain ⟨stored, share, same⟩ := intact.share
    obtain rfl := Option.some.inj (share.symm.trans (find_eq_some.mp found).1)
    exact ⟨.still intact, ⟨valid, same, natural, by rw [← same.2.2.2]; exact inside⟩, nofun⟩
  · obtain ⟨token, same, natural, inside⟩ := valid
    obtain ⟨stored, again, sound⟩ := intact.chunks request.chunkIndex.toNat (by omega)
    obtain rfl := Option.some.inj (again.symm.trans found)
    refine ⟨.still intact, ⟨same, natural, inside, sound⟩, fun index claimed => .inr ⟨⟨_, rfl⟩, ?_⟩⟩
    obtain rfl : request.chunkIndex = index := by simpa [claims] using claimed
    exact ⟨rfl, stored, found, check_unserved (same.2.2.1.trans burns) admitted⟩
  · exact ⟨.still intact, ⟨valid.1, valid.2.1, valid.2.2.1⟩, fun _ => .inl⟩
  · exact ⟨.still intact, ⟨valid.1, valid.2.1, valid.2.2, trivial⟩, fun _ => .inl⟩
  · obtain rfl := marks _ _ rfl
    obtain ⟨same, natural, inside, held⟩ := valid
    rw [same.1] at marked
    obtain ⟨shift, goes⟩ := mark_shift intact (by omega) held marked
    cases after with
    | inl next => exact ⟨shift, ⟨same, natural, inside, goes⟩, fun _ => .inl⟩
    | inr result =>
      refine ⟨shift, ⟨fun _ => ⟨natural, goes⟩, nofun⟩, fun index claimed => .inl ?_⟩
      simpa [claims] using claimed

end Statements

/-! ### Runs -/

theorem OnlyReader.frame {before after : Database} {pid other : Nat} {proc : Proc}
    (valid : OnlyReader env row store before other proc) (shift : Shift row store pid before after)
    (apart : other ≠ pid) : OnlyReader env row store after other proc := by
  cases proc with
  | get request step =>
    cases step with
    | mark share inner =>
      obtain ⟨same, natural, inside, held⟩ := valid
      refine ⟨same, natural, inside, ?_⟩
      rcases shift.frame with rows | owned
      · exact held.frame rows
      · by_cases started : inner = .lockShare
        · subst started
          trivial
        · obtain ⟨tx, opened, owner⟩ := held.holds started
          exact absurd (owner.symm.trans (owned tx opened)) apart
    | done reply sent marked =>
      exact ⟨fun left => ⟨(valid.1 left).1, shift.served _ (valid.1 left).2⟩, valid.2⟩
    | _ => exact valid
  | _ => exact valid

theorem holdsToken_intact {current : Store} {request : GetRequest} (intact : Intact row store current)
    (rows : ∀ index, (store.chunks.lookup index).isSome → index < row.chunkCount)
    (token : holdsToken env current request) : holdsToken env store request := by
  unfold holdsToken at token ⊢
  cases stored : store.chunks.lookup request.chunkIndex.toNat with
  | none => rfl
  | some old =>
    obtain ⟨chunk, found, known, same, -, hash⟩ := intact.chunks _ (rows _ (by rw [stored]; rfl))
    obtain rfl := Option.some.inj (stored.symm.trans same)
    rw [found, Option.all_some, hash] at token
    exact token

theorem exclusive_step {world next : World} {event : Event} (burns : row.burnAfterRead)
    (rows : ∀ index, (store.chunks.lookup index).isSome → index < row.chunkCount)
    (stocked : ∀ index < row.chunkCount, ∃ chunk, store.chunks.lookup index = some chunk ∧
      (store.blobs.lookup chunk.blobKey).isSome)
    (valid : Exclusive env row store world) (permitted : fetches env world event) (alone : checksAlone world event)
    (taken : (system env).step world event = some next) : Exclusive env row store next := by
  rcases step_cases taken with ⟨request, rfl, rfl⟩ |
    ⟨pid, clock, outcome, proc, moved, effect, rfl, running, executed, rfl⟩ | ⟨pid, proc, rfl, running, rfl⟩
  · cases request with
    | get request =>
      refine ⟨valid.intact, ?_, ?_⟩
      · intro pid proc member
        rcases getElem?_concat_cases member with old | ⟨rfl, rfl⟩
        · exact valid.readers pid proc old
        · exact holdsToken_intact valid.intact rows permitted
      · intro index first second one two atFirst atSecond claimed also
        rcases getElem?_concat_cases atFirst with old | ⟨rfl, rfl⟩
        · rcases getElem?_concat_cases atSecond with other | ⟨rfl, rfl⟩
          · exact valid.exclusive index first second one two old other claimed also
          · cases also
        · cases claimed
    | _ => cases permitted
  · have own := valid.readers pid proc running
    cases proc with
    | get request step =>
      obtain ⟨after, stepped, rfl⟩ := handler_exec executed
      have outcomes : outcome = .ok ∨ outcome = .aborted := by
        simp only [fetches, running] at permitted
        split at permitted <;> simp_all
      have marks : ∀ share inner, step = .mark share inner → outcome = .ok := by
        rintro share inner rfl
        simpa [fetches, running] using permitted
      obtain ⟨shift, kept, claimsOf⟩ := reader_shift burns stocked valid.intact own outcomes marks stepped
      have inside := (List.getElem?_eq_some_iff.mp running).1
      -- nobody else can claim the chunk that this step claims anew
      have fresh : ∀ (index : Int) (other : Nat) (two : Proc), other ≠ pid → world.procs[other]? = some two →
          claims index (.get request after) → claims index two → False := by
        intro index other two apart found claimed also
        rcases claimsOf index claimed with before | ⟨⟨share, rfl⟩, rfl, chunk, stored, unserved⟩
        · exact apart (valid.exclusive index other pid two _ found running also before)
        · simp only [checksAlone, running, Bool.not_eq_true', List.any_eq_false] at alone
          have silent := alone two (List.mem_of_getElem? found)
          have theirs := valid.readers other two found
          cases two with
          | get asked state =>
            cases state with
            | done reply sent marked =>
              simp only [claims, Bool.and_eq_true, decide_eq_true_eq] at also
              obtain ⟨chunk', again, served⟩ := (theirs.1 also.1).2
              rw [also.2] at again
              obtain rfl := Option.some.inj (stored.symm.trans again)
              rw [unserved] at served
              cases served
            | _ => exact silent also
          | _ => cases also
      refine ⟨shift.intact, ?_, ?_⟩
      · intro other proc member
        by_cases same : pid = other
        · subst same
          rw [List.getElem?_set_self inside] at member
          exact Option.some.inj member ▸ kept
        · rw [List.getElem?_set_ne same] at member
          exact (valid.readers other proc member).frame shift (Ne.symm same)
      · intro index first second one two atFirst atSecond claimed also
        by_cases one' : pid = first
        · subst one'
          rw [List.getElem?_set_self inside] at atFirst
          obtain rfl := Option.some.inj atFirst
          by_contra apart
          rw [List.getElem?_set_ne apart] at atSecond
          exact fresh index second two (Ne.symm apart) atSecond claimed also
        · rw [List.getElem?_set_ne one'] at atFirst
          by_cases two' : pid = second
          · subst two'
            rw [List.getElem?_set_self inside] at atSecond
            obtain rfl := Option.some.inj atSecond
            exact absurd claimed fun claimed => fresh index first one (Ne.symm one') atFirst also claimed
          · rw [List.getElem?_set_ne two'] at atSecond
            exact valid.exclusive index first second one two atFirst atSecond claimed also
    | _ => exact absurd own id
  · cases permitted

/-- A burn share whose rows and blobs are in place, read by any number of token
holders. As long as no reader checks a chunk between another reader's check and its
mark, at most one response carries bytes of a chunk, and every other request for it
ends with 410 or with its own client's departure. -/
theorem chunk_single_use (env : Env) (row : ShareRow) (store : Store) (share : store.share = some row)
    (burns : row.burnAfterRead) (rows : ∀ index, (store.chunks.lookup index).isSome → index < row.chunkCount)
    (stocked : ∀ index < row.chunkCount, ∃ chunk, store.chunks.lookup index = some chunk ∧
      (store.blobs.lookup chunk.blobKey).isSome)
    {events : List Event} {world : World}
    (run : (system env).Run (fun world event => fetches env world event = true ∧ checksAlone world event = true)
      (World.start store) events world) :
    ∀ index < row.chunkCount,
      (∀ (first second : Nat) (one two : Proc), world.procs[first]? = some one → world.procs[second]? = some two →
        sends index one → sends index two → first = second) ∧
      (∀ request reply sent marked, Proc.get request (.done reply sent marked) ∈ world.procs →
        request.shortId = row.shortId → request.chunkIndex = index → sent = false →
        reply = .http 410 none ∨ reply = .dropped) := by
  have initial : Exclusive env row store (World.start store) := by
    refine ⟨⟨⟨row, share, rfl, rfl, rfl, rfl⟩, ?_, rfl⟩, ?_, ?_⟩
    · intro index inside
      obtain ⟨chunk, found, -⟩ := stocked index inside
      exact ⟨chunk, found, chunk, found, rfl, rfl⟩
    · intro pid proc member
      simp [World.start] at member
    · intro index first second one two member
      simp [World.start] at member
  have valid := run.invariant (Exclusive env row store) initial fun _ _ _ kept permitted taken =>
    exclusive_step burns rows stocked kept permitted.1 permitted.2 taken
  intro index inside
  constructor
  · intro first second one two atFirst atSecond left also
    have claimed : ∀ (pid : Nat) (proc : Proc), world.procs[pid]? = some proc → sends index proc →
        claims index proc := by
      intro pid proc found sent
      have own := valid.readers pid proc found
      cases proc with
      | get request step =>
        cases step with
        | body share chunk =>
          simp only [sends, beq_iff_eq] at sent
          simp only [claims, decide_eq_true_eq]
          exact sent ▸ (Int.toNat_of_nonneg own.2.1).symm
        | mark share inner =>
          simp only [sends, beq_iff_eq] at sent
          simp only [claims, decide_eq_true_eq]
          exact sent ▸ (Int.toNat_of_nonneg own.2.1).symm
        | done reply flag marked =>
          simp only [sends, Bool.and_eq_true, beq_iff_eq] at sent
          simp only [claims, Bool.and_eq_true, decide_eq_true_eq]
          exact ⟨sent.1, sent.2 ▸ (Int.toNat_of_nonneg (own.1 sent.1).1).symm⟩
        | _ => cases sent
      | _ => cases sent
    exact valid.exclusive index first second one two atFirst atSecond (claimed _ _ atFirst left) (claimed _ _ atSecond also)
  · intro request reply sent marked member named asked unsent
    obtain ⟨pid, found⟩ := List.mem_iff_getElem?.mp member
    have own := valid.readers pid _ found
    exact own.2 unsent named (by omega) (by omega)

private theorem sampleReady_rows (index : Nat) : (sampleReady.chunks.lookup index).isSome → index < 1 := by
  rw [AList.lookup_isSome, AList.mem_keys, sampleReady, AList.keys_singleton, List.mem_singleton]
  omega

private theorem sampleReady_stocked : ∀ index < 1, ∃ chunk, sampleReady.chunks.lookup index = some chunk ∧
    (sampleReady.blobs.lookup chunk.blobKey).isSome := by
  intro index inside
  obtain rfl : index = 0 := by omega
  exact ⟨_, rfl, rfl⟩

/-- The second reader checks after the first one has marked, and is turned away. -/
theorem chunk_single_use_in_turn : ∃ events world,
    (system sampleEnv).Run (fun world event => fetches sampleEnv world event = true ∧ checksAlone world event = true)
      (World.start sampleReady) events world ∧
    (∃ (pid : Nat) (proc : Proc), world.procs[pid]? = some proc ∧ sends 0 proc) ∧
    (∃ request reply, Proc.get request (.done reply false none) ∈ world.procs ∧
      (reply = .http 410 none ∨ reply = .dropped)) := by
  have replayed : ((system sampleEnv).replay
      (fun world event => fetches sampleEnv world event && checksAlone world event) (World.start sampleReady)
      (.spawn (.get sampleGet) :: .spawn (.get sampleGet) :: steps 0 7 5 ++ steps 1 7 1 ++ steps 0 8 6 ++ steps 1 9 1)).any
      (fun world => world.procs[0]?.any (sends 0) &&
        world.procs[1]?.any (fun proc => proc = .get sampleGet (.done (.http 410 none) false none))) = true := by
    decide +kernel
  obtain ⟨world, run, passed⟩ := System.any_replay replayed
  obtain ⟨first, second⟩ := Bool.and_eq_true_iff.mp passed
  obtain ⟨sender, found, left⟩ := (Option.any_eq_true _ _).mp first
  obtain ⟨refused, member, same⟩ := (Option.any_eq_true _ _).mp second
  obtain rfl := of_decide_eq_true same
  have run := run.mono fun _ _ both => Bool.and_eq_true_iff.mp both
  have single := chunk_single_use sampleEnv { sampleCreate.row 5 with state := .ready } sampleReady rfl rfl
    sampleReady_rows sampleReady_stocked run 0 (by decide)
  have present := List.mem_of_getElem? member
  exact ⟨_, world, run, ⟨0, sender, found, left⟩, sampleGet, _, present, single.2 _ _ _ _ present rfl rfl rfl⟩

/-- Both readers check before either of them marks, and both get the body. -/
theorem chunk_sent_twice :
    ¬ ∀ (env : Env) (row : ShareRow) (store : Store) (events : List Event) (world : World),
      store.share = some row → row.burnAfterRead →
      (∀ index, (store.chunks.lookup index).isSome → index < row.chunkCount) →
      (∀ index < row.chunkCount, ∃ chunk, store.chunks.lookup index = some chunk ∧
        (store.blobs.lookup chunk.blobKey).isSome) →
      (system env).Run (fun world event => fetches env world event = true) (World.start store) events world →
      ∀ index < row.chunkCount, ∀ (first second : Nat) (one two : Proc), world.procs[first]? = some one →
        world.procs[second]? = some two → sends index one → sends index two → first = second := by
  intro claimed
  have replayed : ((system sampleEnv).replay (fetches sampleEnv) (World.start sampleReady)
      (.spawn (.get sampleGet) :: .spawn (.get sampleGet) :: steps 0 7 3 ++ steps 1 7 3 ++ steps 0 8 8 ++ steps 1 9 5)).any
      (fun world => world.procs[0]?.any (sends 0) && world.procs[1]?.any (sends 0)) = true := by decide +kernel
  obtain ⟨world, run, passed⟩ := System.any_replay replayed
  obtain ⟨first, second⟩ := Bool.and_eq_true_iff.mp passed
  obtain ⟨one, atFirst, left⟩ := (Option.any_eq_true _ _).mp first
  obtain ⟨two, atSecond, also⟩ := (Option.any_eq_true _ _).mp second
  have same := claimed sampleEnv { sampleCreate.row 5 with state := .ready } sampleReady _ world rfl rfl
    sampleReady_rows sampleReady_stocked run 0 (by decide) 0 1 one two atFirst atSecond left also
  cases same

end SlothBox.Proofs

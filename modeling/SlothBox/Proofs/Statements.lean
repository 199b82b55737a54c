import SlothBox.Proofs.Steps

/-! The statements of the handlers as relations. Each handler is inverted once: what it
found, how its call ended, where it stands afterwards and what it wrote. -/

namespace SlothBox.Proofs
open Library

/-- The call has been executed, whatever its caller was told. -/
def takesEffect (outcome : Outcome) : Bool := outcome = .ok || outcome = .lost

theorem attempt_cases {α : Type} {outcome : Outcome} {success : α × Effect} {failure : Outcome → α} {moved : α}
    {effect : Effect} (attempted : attempt outcome success failure = (moved, effect)) :
    (outcome = .ok ∧ moved = success.1 ∧ effect = success.2) ∨
    (outcome = .lost ∧ moved = failure .lost ∧ effect = success.2) ∨
    (takesEffect outcome = false ∧ moved = failure outcome ∧ effect = .skip) := by
  cases outcome with
  | ok => exact .inl ⟨rfl, (congrArg Prod.fst attempted).symm, (congrArg Prod.snd attempted).symm⟩
  | lost => exact .inr (.inl ⟨rfl, (congrArg Prod.fst attempted).symm, (congrArg Prod.snd attempted).symm⟩)
  | failed => exact .inr (.inr ⟨rfl, (congrArg Prod.fst attempted).symm, (congrArg Prod.snd attempted).symm⟩)
  | aborted => exact .inr (.inr ⟨rfl, (congrArg Prod.fst attempted).symm, (congrArg Prod.snd attempted).symm⟩)

theorem attemptRead_cases {α : Type} {outcome : Outcome} {success : α} {failure : Outcome → α} {moved : α}
    {effect : Effect} (attempted : attemptRead outcome success failure = (moved, effect)) :
    effect = .skip ∧ (outcome = .ok ∧ moved = success ∨ outcome ≠ .ok ∧ moved = failure outcome) := by
  obtain ⟨rfl, rfl⟩ := Prod.mk.inj attempted
  refine ⟨rfl, ?_⟩
  split
  next ok => exact .inl ⟨ok, rfl⟩
  next bad => exact .inr ⟨bad, rfl⟩

theorem attemptInside_cases {α : Type} {outcome : Outcome} {success : α × Effect} {failure moved : α}
    {effect : Effect} (attempted : attemptInside outcome success failure = (moved, effect)) :
    (outcome = .ok ∧ (moved, effect) = success) ∨ (outcome ≠ .ok ∧ moved = failure ∧ effect = .rollback) := by
  cases outcome with
  | ok => exact .inl ⟨rfl, attempted.symm⟩
  | lost => exact .inr ⟨nofun, (congrArg Prod.fst attempted).symm, (congrArg Prod.snd attempted).symm⟩
  | failed => exact .inr ⟨nofun, (congrArg Prod.fst attempted).symm, (congrArg Prod.snd attempted).symm⟩
  | aborted => exact .inr ⟨nofun, (congrArg Prod.fst attempted).symm, (congrArg Prod.snd attempted).symm⟩

/-! ### PUT /chunk -/

/-- The states an upload writes. -/
def promotion : PutStep → Option (PutPlan × ShareState)
  | .setUploading plan => some (plan, .uploading)
  | .setReady plan => some (plan, .ready)
  | _ => none

/-- The upload has written its row, or has given up before it stored anything. -/
def settled : PutStep → Bool
  | .setUploading _ | .countChunks _ | .setReady _ | .done _ => true
  | _ => false

/-- The blob is stored and its row is still to be written. -/
def awaitsRow : PutStep → Bool
  | .upsert .. => true
  | _ => false

/-- Where an upload with its blob stored goes on to when its call succeeds. -/
def following (db : Database) : PutStep → PutStep
  | .upsert plan _ => if plan.share.state = .pending then .setUploading plan else .countChunks plan
  | .setUploading plan => .countChunks plan
  | .countChunks plan => if plan.share.chunkCount ≤ db.store.countUploadedChunks then .setReady plan else .created
  | _ => .created

inductive PutMove (env : Env) (db : Database) (request : PutRequest) (clock : Timestamp) (outcome : Outcome) :
    PutStep → PutStep → Effect → Prop where
  | acquire : PutMove env db request clock outcome .acquire .readShare .skip
  | check {share plan} (found : db.store.find request.shortId = some share)
      (admitted : request.check env.options share clock = .ok plan) :
      PutMove env db request clock outcome .readShare (.putBlob plan) .skip
  | putBlob {plan} (length : request.body.length = plan.ciphertextSize) (ok : outcome = .ok) :
      PutMove env db request clock outcome (.putBlob plan) (.upsert plan clock) (.putBlob plan.blobKey request.body)
  | putLost {plan reply} (length : request.body.length = plan.ciphertextSize) (lost : outcome = .lost) :
      PutMove env db request clock outcome (.putBlob plan) (.done reply) (.putBlob plan.blobKey request.body)
  | upsert {plan uploadedAt moved} (free : db.blocksUpsert plan.index = false) (executed : takesEffect outcome)
      (next : settled moved) (goes : outcome = .ok → moved = following db (.upsert plan uploadedAt)) :
      PutMove env db request clock outcome (.upsert plan uploadedAt) moved
        (.auto { chunk := some (plan.index, upsertChunk db.store plan.index plan.nonce plan.blobKey plan.ciphertextSize
          uploadedAt plan.downloadTokenHash) })
  | promote {step moved plan state row} (free : db.tx = none) (executed : takesEffect outcome)
      (promoted : promotion step = some (plan, state)) (found : db.store.findById plan.share.id = some row)
      (next : settled moved) (goes : outcome = .ok → moved = following db step) :
      PutMove env db request clock outcome step moved (.auto { share := some { row with state } })
  | proceed {step moved} (written : settled step) (next : settled moved)
      (goes : outcome = .ok → moved = following db step)
      (absent : outcome = .ok → ∀ plan state, promotion step = some (plan, state) →
        db.store.findById plan.share.id = none) :
      PutMove env db request clock outcome step moved .skip
  | stop {step reply} (failed : awaitsRow step → takesEffect outcome = false) (bad : settled step → outcome ≠ .ok) :
      PutMove env db request clock outcome step (.done reply) .skip

private theorem promotion_move {env : Env} {db : Database} {request : PutRequest} {clock : Timestamp}
    {outcome : Outcome} {step moved : PutStep} {effect : Effect} {plan : PutPlan} {state : ShareState}
    (promoted : promotion step = some (plan, state)) (next : settled (following db step)) (free : db.tx = none)
    (attempted : attempt outcome (following db step, updateShareState db plan.share.id state)
      (fun _ => PutStep.created) = (moved, effect)) : PutMove env db request clock outcome step moved effect := by
  have written : settled step := by
    cases step <;> first | rfl | cases promoted
  have wrote : ∀ moved, settled moved → takesEffect outcome → (outcome = .ok → moved = following db step) →
      PutMove env db request clock outcome step moved (updateShareState db plan.share.id state) := by
    intro moved next executed goes
    unfold updateShareState
    split
    next absent =>
      refine .proceed written next goes fun _ other _ again => ?_
      obtain ⟨rfl, -⟩ := Prod.mk.inj (Option.some.inj (promoted.symm.trans again))
      exact absent
    next row found => exact .promote free executed promoted found next goes
  rcases attempt_cases attempted with ⟨rfl, rfl, rfl⟩ | ⟨rfl, rfl, rfl⟩ | ⟨failed, rfl, rfl⟩
  · exact wrote _ next rfl fun _ => rfl
  · exact wrote _ rfl rfl nofun
  · have bad : outcome ≠ .ok := by
      rintro rfl
      cases failed
    exact .proceed written rfl (fun ok => absurd ok bad) fun ok => absurd ok bad

theorem put_move {env : Env} {db : Database} {request : PutRequest} {clock : Timestamp} {outcome : Outcome}
    {step moved : PutStep} {effect : Effect}
    (executed : step.exec env db request clock outcome = some (moved, effect)) :
    PutMove env db request clock outcome step moved effect := by
  cases step with
  | acquire =>
    obtain ⟨rfl, rfl⟩ := Prod.mk.inj (Option.some.inj executed)
    split
    · exact .stop nofun nofun
    · exact .acquire
  | readShare =>
    rw [PutStep.exec, Option.some.injEq] at executed
    obtain ⟨rfl, ⟨-, rfl⟩ | ⟨-, rfl⟩⟩ := attemptRead_cases executed
    · split
      next => exact .stop nofun nofun
      next share found =>
        split
        next => exact .stop nofun nofun
        next plan admitted => exact .check found admitted
    · exact .stop nofun nofun
  | putBlob plan =>
    simp only [PutStep.exec] at executed
    split at executed
    next length =>
      rcases attempt_cases (Option.some.inj executed) with ⟨ok, rfl, rfl⟩ | ⟨lost, rfl, rfl⟩ | ⟨-, rfl, rfl⟩
      · exact .putBlob length ok
      · exact .putLost length lost
      · cases outcome <;> exact .stop nofun nofun
    next =>
      obtain ⟨rfl, rfl⟩ := Prod.mk.inj (Option.some.inj executed)
      exact .stop nofun nofun
  | upsert plan uploadedAt =>
    simp only [PutStep.exec] at executed
    split at executed
    · cases executed
    next free =>
      rw [Bool.not_eq_true] at free
      rcases attempt_cases (Option.some.inj executed) with ⟨rfl, rfl, rfl⟩ | ⟨rfl, rfl, rfl⟩ | ⟨failed, rfl, rfl⟩
      · refine .upsert free rfl ?_ fun _ => rfl
        dsimp only
        split <;> rfl
      · exact .upsert free rfl rfl nofun
      · exact .stop (fun _ => failed) nofun
  | setUploading plan =>
    simp only [PutStep.exec] at executed
    split at executed
    · cases executed
    next free => exact promotion_move rfl rfl (by simpa using free) (Option.some.inj executed)
  | countChunks plan =>
    rw [PutStep.exec, Option.some.injEq] at executed
    obtain ⟨rfl, ⟨-, rfl⟩ | ⟨bad, rfl⟩⟩ := attemptRead_cases executed
    · refine .proceed rfl ?_ (fun _ => rfl) fun _ _ _ promoted => by cases promoted
      split <;> rfl
    · exact .stop nofun fun _ => bad
  | setReady plan =>
    simp only [PutStep.exec] at executed
    split at executed
    · cases executed
    next free => exact promotion_move rfl rfl (by simpa using free) (Option.some.inj executed)
  | done reply => cases executed

/-! ### The reaper -/

/-- Between the lock and the end of the transaction. -/
def finalizing : SweepStep → Bool
  | .deleteChunks .. | .update .. | .rereadDestroyedAt .. | .append _ | .commit => true
  | _ => false

inductive SweepMove (db : Database) (clock : Timestamp) (outcome : Outcome) :
    SweepStep → SweepStep → Effect → Prop where
  | fetchReapable {row} (found : db.store.share = some row) (due : db.store.reapable clock) :
      SweepMove db clock outcome .fetchReapable (.fetchChunkKeys row.id) .skip
  | idle (ok : outcome = .ok) (nothing : ∀ row, db.store.share = some row → db.store.reapable clock = false) :
      SweepMove db clock outcome .fetchReapable (.done .idle) .skip
  | fetchChunkKeys {id} :
      SweepMove db clock outcome (.fetchChunkKeys id)
        (.remaining id db.store.chunks.entries.length (db.store.chunks.entries.map (·.2.blobKey))) .skip
  | removeBlob {id key rest chunkCount} :
      SweepMove db clock outcome (.removeBlobs id (key :: rest) chunkCount) (.remaining id chunkCount rest)
        (.removeBlob key)
  | removeLost {id key rest chunkCount} (lost : outcome ≠ .ok) :
      SweepMove db clock outcome (.removeBlobs id (key :: rest) chunkCount) (.done .failed) (.removeBlob key)
  | removed {id chunkCount} : SweepMove db clock outcome (.removeBlobs id [] chunkCount) (.lock id chunkCount) .skip
  | lock {id chunkCount row} (ok : outcome = .ok) (free : db.tx = none) (found : db.store.findById id = some row) :
      SweepMove db clock outcome (.lock id chunkCount) (.deleteChunks row (classifyReason row clock) chunkCount)
        (.begin clock)
  | gone {id chunkCount} (ok : outcome = .ok) (absent : db.tx.isSome ∨ db.store.findById id = none) :
      SweepMove db clock outcome (.lock id chunkCount) (.done .skipped) .skip
  | deleteChunks {row reason chunkCount} :
      SweepMove db clock outcome (.deleteChunks row reason chunkCount) (.update row reason chunkCount)
        (.stage { dropChunks := true })
  | update {row reason chunkCount current} (found : db.view.findById row.id = some current) :
      SweepMove db clock outcome (.update row reason chunkCount) (.rereadDestroyedAt row reason chunkCount)
        (.stage { share := some (reapUpdate (db.tx.elim clock Transaction.now) reason current) })
  | updateNothing {row reason chunkCount} (absent : db.view.findById row.id = none) :
      SweepMove db clock outcome (.update row reason chunkCount) (.rereadDestroyedAt row reason chunkCount) .skip
  | rereadDestroyedAt {row reason chunkCount current} (found : db.view.findById row.id = some current) :
      SweepMove db clock outcome (.rereadDestroyedAt row reason chunkCount)
        (.append (reapEvent row reason current.destroyedAt chunkCount)) .skip
  | append {event} : SweepMove db clock outcome (.append event) .commit (.stage { events := [event] })
  | commit (ok : outcome = .ok) : SweepMove db clock outcome .commit (.done .processed) .commit
  | commitLost (lost : outcome = .lost) : SweepMove db clock outcome .commit (.done .failed) .commit
  | fail {step} (outside : finalizing step = false) (bad : outcome ≠ .ok) :
      SweepMove db clock outcome step (.done .failed) .skip
  | rollback {step} (inside : finalizing step) (bad : outcome ≠ .ok ∨ ∃ row reason chunkCount,
        step = .rereadDestroyedAt row reason chunkCount ∧ db.view.findById row.id = none) :
      SweepMove db clock outcome step (.done .failed) .rollback

theorem sweep_move {db : Database} {clock : Timestamp} {outcome : Outcome} {step moved : SweepStep} {effect : Effect}
    (executed : step.exec db clock outcome = some (moved, effect)) : SweepMove db clock outcome step moved effect := by
  cases step with
  | fetchReapable =>
    rw [SweepStep.exec, Option.some.injEq] at executed
    obtain ⟨rfl, ⟨ok, rfl⟩ | ⟨bad, rfl⟩⟩ := attemptRead_cases executed
    · split
      next absent => exact .idle ok fun row found => absurd (absent.symm.trans found) (by simp)
      next row found =>
        split
        next due => exact .fetchReapable found due
        next early => exact .idle ok fun _ _ => by simpa using early
    · exact .fail rfl bad
  | fetchChunkKeys id =>
    rw [SweepStep.exec, Option.some.injEq] at executed
    obtain ⟨rfl, ⟨-, rfl⟩ | ⟨bad, rfl⟩⟩ := attemptRead_cases executed
    · exact .fetchChunkKeys
    · exact .fail rfl bad
  | removeBlobs id keys chunkCount =>
    cases keys with
    | nil =>
      obtain ⟨rfl, rfl⟩ := Prod.mk.inj (Option.some.inj executed)
      exact .removed
    | cons key rest =>
      rw [SweepStep.exec, Option.some.injEq] at executed
      rcases attempt_cases executed with ⟨-, rfl, rfl⟩ | ⟨lost, rfl, rfl⟩ | ⟨failed, rfl, rfl⟩
      · exact .removeBlob
      · exact .removeLost (by simp [lost])
      · exact .fail rfl (by rintro rfl; cases failed)
  | lock id chunkCount =>
    cases outcome with
    | ok =>
      simp only [SweepStep.exec, Option.some.injEq] at executed
      split at executed
      next held =>
        obtain ⟨rfl, rfl⟩ := Prod.mk.inj executed
        exact .gone rfl (.inl held)
      next free =>
        split at executed
        next absent =>
          obtain ⟨rfl, rfl⟩ := Prod.mk.inj executed
          exact .gone rfl (.inr absent)
        next row found =>
          obtain ⟨rfl, rfl⟩ := Prod.mk.inj executed
          exact .lock rfl (by simpa using free) found
    | _ =>
      obtain ⟨rfl, rfl⟩ := Prod.mk.inj (Option.some.inj executed)
      exact .fail rfl nofun
  | deleteChunks row reason chunkCount =>
    rw [SweepStep.exec, Option.some.injEq] at executed
    rcases attemptInside_cases executed with ⟨-, same⟩ | ⟨bad, rfl, rfl⟩
    · obtain ⟨rfl, rfl⟩ := Prod.mk.inj same
      exact .deleteChunks
    · exact .rollback rfl (.inl bad)
  | update row reason chunkCount =>
    rw [SweepStep.exec, Option.some.injEq] at executed
    rcases attemptInside_cases executed with ⟨-, same⟩ | ⟨bad, rfl, rfl⟩
    · obtain ⟨rfl, rfl⟩ := Prod.mk.inj same
      split
      next absent => exact .updateNothing absent
      next current found => exact .update found
    · exact .rollback rfl (.inl bad)
  | rereadDestroyedAt row reason chunkCount =>
    rw [SweepStep.exec, Option.some.injEq] at executed
    rcases attemptInside_cases executed with ⟨-, same⟩ | ⟨bad, rfl, rfl⟩
    · split at same
      next absent =>
        obtain ⟨rfl, rfl⟩ := Prod.mk.inj same
        exact .rollback rfl (.inr ⟨row, reason, chunkCount, rfl, absent⟩)
      next current found =>
        obtain ⟨rfl, rfl⟩ := Prod.mk.inj same
        exact .rereadDestroyedAt found
    · exact .rollback rfl (.inl bad)
  | append event =>
    rw [SweepStep.exec, Option.some.injEq] at executed
    rcases attemptInside_cases executed with ⟨-, same⟩ | ⟨bad, rfl, rfl⟩
    · obtain ⟨rfl, rfl⟩ := Prod.mk.inj same
      exact .append
    · exact .rollback rfl (.inl bad)
  | commit =>
    cases outcome with
    | ok =>
      obtain ⟨rfl, rfl⟩ := Prod.mk.inj (Option.some.inj executed)
      exact .commit rfl
    | lost =>
      obtain ⟨rfl, rfl⟩ := Prod.mk.inj (Option.some.inj executed)
      exact .commitLost rfl
    | _ =>
      obtain ⟨rfl, rfl⟩ := Prod.mk.inj (Option.some.inj executed)
      exact .rollback rfl (.inl nofun)
  | done result => cases executed

/-! ### mark_chunk_served -/

inductive MarkMove (db : Database) (shareId : String) (index : Nat) (clock : Timestamp) (outcome : Outcome) :
    MarkStep → MarkStep ⊕ Option MarkResult → Effect → Prop where
  | lock {row} (free : db.tx = none) (found : db.store.findById shareId = some row) :
      MarkMove db shareId index clock outcome .lockShare (.inl (.stampChunk row)) (.begin clock)
  | leave {marked} (absent : outcome = .ok → db.store.findById shareId = none) :
      MarkMove db shareId index clock outcome .lockShare (.inr marked) .skip
  | absent {vShare} (absent : db.view.chunks.lookup index = none) :
      MarkMove db shareId index clock outcome (.stampChunk vShare) (.inl (.commit ⟨false, some vShare.state⟩)) .skip
  | stamp {vShare row} (found : db.view.chunks.lookup index = some row) (burns : vShare.burnAfterRead)
      (ready : vShare.state = .ready) :
      MarkMove db shareId index clock outcome (.stampChunk vShare) (.inl (.countUnserved vShare))
        (.stage { chunk := some (index, stampServed (db.tx.elim clock Transaction.now) row) })
  | stampOnly {vShare row} (found : db.view.chunks.lookup index = some row)
      (kept : ¬(vShare.burnAfterRead ∧ vShare.state = .ready)) :
      MarkMove db shareId index clock outcome (.stampChunk vShare) (.inl (.commit ⟨false, some vShare.state⟩))
        (.stage { chunk := some (index, stampServed (db.tx.elim clock Transaction.now) row) })
  | allServed {vShare} (nothing : db.view.countUnserved = 0) :
      MarkMove db shareId index clock outcome (.countUnserved vShare) (.inl (.flip vShare)) .skip
  | someUnserved {vShare} (some : db.view.countUnserved ≠ 0) :
      MarkMove db shareId index clock outcome (.countUnserved vShare) (.inl (.commit ⟨false, .some vShare.state⟩)) .skip
  | flip {vShare row} (found : db.view.findById shareId = some row) (ready : row.state = .ready) :
      MarkMove db shareId index clock outcome (.flip vShare)
        (.inl (.append (burn (db.tx.elim clock Transaction.now) row)))
        (.stage { share := some (burn (db.tx.elim clock Transaction.now) row) })
  | flipNothing {vShare} (ended : ∀ row, db.view.findById shareId = some row → row.state ≠ .ready) :
      MarkMove db shareId index clock outcome (.flip vShare) (.inl (.commit ⟨false, none⟩)) .skip
  | append {vShare} :
      MarkMove db shareId index clock outcome (.append vShare) (.inl (.commit ⟨true, some vShare.state⟩))
        (.stage { events := [burnEvent shareId vShare] })
  | commit {result marked} (told : outcome = .ok → marked = some result) :
      MarkMove db shareId index clock outcome (.commit result) (.inr marked) .commit
  | rollback {step} (inside : step ≠ .lockShare) (bad : outcome ≠ .ok) :
      MarkMove db shareId index clock outcome step (.inr none) .rollback

theorem mark_move {db : Database} {shareId : String} {index : Nat} {clock : Timestamp} {outcome : Outcome}
    {step : MarkStep} {after : MarkStep ⊕ Option MarkResult} {effect : Effect}
    (executed : step.exec db shareId index clock outcome = some (after, effect)) :
    MarkMove db shareId index clock outcome step after effect := by
  cases step with
  | lockShare =>
    simp only [MarkStep.exec] at executed
    split at executed
    · cases executed
    next free =>
      have free : db.tx = none := by simpa using free
      cases outcome with
      | ok =>
        dsimp only at executed
        split at executed
        next absent => cases executed; exact .leave fun _ => absent
        next row found => cases executed; exact .lock free found
      | _ => cases executed; exact .leave nofun
  | stampChunk vShare =>
    rw [MarkStep.exec, Option.some.injEq] at executed
    rcases attemptInside_cases executed with ⟨-, same⟩ | ⟨bad, rfl, rfl⟩
    · split at same
      next absent => cases same; exact .absent absent
      next row found =>
        obtain ⟨rfl, rfl⟩ := Prod.mk.inj same
        split
        next burns =>
          rw [Bool.and_eq_true, decide_eq_true_eq] at burns
          exact .stamp found burns.1 burns.2
        next kept =>
          rw [Bool.and_eq_true, decide_eq_true_eq] at kept
          exact .stampOnly found kept
    · exact .rollback nofun bad
  | countUnserved vShare =>
    rw [MarkStep.exec, Option.some.injEq] at executed
    rcases attemptInside_cases executed with ⟨-, same⟩ | ⟨bad, rfl, rfl⟩
    · obtain ⟨rfl, rfl⟩ := Prod.mk.inj same
      split
      next nothing => exact .allServed nothing
      next some => exact .someUnserved some
    · exact .rollback nofun bad
  | flip vShare =>
    rw [MarkStep.exec, Option.some.injEq] at executed
    rcases attemptInside_cases executed with ⟨-, same⟩ | ⟨bad, rfl, rfl⟩
    · split at same
      next absent =>
        cases same
        exact .flipNothing fun row found => absurd (absent.symm.trans found) (by simp)
      next row found =>
        split at same
        next ready => cases same; exact .flip found ready
        next ended =>
          cases same
          exact .flipNothing fun other again => Option.some.inj (found.symm.trans again) ▸ ended
    · exact .rollback nofun bad
  | append vShare =>
    rw [MarkStep.exec, Option.some.injEq] at executed
    rcases attemptInside_cases executed with ⟨-, same⟩ | ⟨bad, rfl, rfl⟩
    · cases same
      exact .append
    · exact .rollback nofun bad
  | commit result =>
    cases outcome with
    | ok => cases executed; exact .commit fun _ => rfl
    | lost => cases executed; exact .commit nofun
    | _ => cases executed; exact .rollback nofun nofun

/-! ### POST /downloaded -/

/-- An answer with a state reports the row that was read or the row that was written, unless a
refusal is taken for the end of the share. -/
inductive DownloadedMove (env : Env) (db : Database) (request : DownloadedRequest) (clock : Timestamp) (outcome : Outcome) :
    DownloadedStep → DownloadedStep → Effect → Prop where
  | acquire (valid : validShortId request.shortId) : DownloadedMove env db request clock outcome .acquire .readShare .skip
  | ended {row} (found : db.store.find request.shortId = some row) (terminal : row.state.terminal) :
      DownloadedMove env db request clock outcome .readShare (.done (.state row.state)) .skip
  | live {row} (found : db.store.find request.shortId = some row) (live : row.state.terminal = false) :
      DownloadedMove env db request clock outcome .readShare .increment .skip
  | refused (free : db.tx = none) (ok : outcome = .ok)
      (nothing : (db.store.find request.shortId).bind (incrementDownload clock) = none) :
      DownloadedMove env db request clock outcome .increment (.done (request.caught env)) .skip
  | increment {row updated} (free : db.tx = none) (ok : outcome = .ok)
      (found : db.store.find request.shortId = some row) (counted : incrementDownload clock row = some updated) :
      DownloadedMove env db request clock outcome .increment (.append updated) (.auto { share := some updated })
  | incrementLost {row updated} (free : db.tx = none) (lost : outcome = .lost)
      (found : db.store.find request.shortId = some row) (counted : incrementDownload clock row = some updated) :
      DownloadedMove env db request clock outcome .increment (.done .internalError) (.auto { share := some updated })
  | append {updated} :
      DownloadedMove env db request clock outcome (.append updated) (.done (.state updated.state))
        (.auto { events := [downloadedEvent request updated] })
  | appendNothing {updated} :
      DownloadedMove env db request clock outcome (.append updated) (.done (.state updated.state)) .skip
  | stop {step reply} (silent : ∀ state, reply ≠ .state state)
      (idle : takesEffect outcome → step = .increment →
        (db.store.find request.shortId).bind (incrementDownload clock) = none) :
      DownloadedMove env db request clock outcome step (.done reply) .skip

theorem downloaded_move {db : Database} {request : DownloadedRequest} {clock : Timestamp} {outcome : Outcome}
    {step moved : DownloadedStep} {effect : Effect}
    (executed : step.exec env db request clock outcome = some (moved, effect)) :
    DownloadedMove env db request clock outcome step moved effect := by
  cases step with
  | acquire =>
    cases executed
    split
    · exact .stop nofun nofun
    · split
      next valid => exact .acquire valid
      next => exact .stop nofun nofun
  | readShare =>
    rw [DownloadedStep.exec, Option.some.injEq] at executed
    obtain ⟨rfl, ⟨-, rfl⟩ | ⟨-, rfl⟩⟩ := attemptRead_cases executed
    · split
      next => exact .stop nofun nofun
      next row found =>
        split
        next terminal => exact .ended found terminal
        next live => exact .live found (by simpa using live)
    · exact .stop nofun nofun
  | increment =>
    simp only [DownloadedStep.exec] at executed
    split at executed
    · cases executed
    next free =>
      have free : db.tx = none := by simpa using free
      cases incremented : (db.store.find request.shortId).bind (incrementDownload clock) with
      | none =>
        rw [incremented] at executed
        rcases attempt_cases (Option.some.inj executed) with ⟨ok, rfl, rfl⟩ | ⟨-, rfl, rfl⟩ | ⟨-, rfl, rfl⟩
        · exact .refused free ok incremented
        · exact .stop nofun fun _ _ => incremented
        · exact .stop nofun fun _ _ => incremented
      | some updated =>
        rw [incremented] at executed
        obtain ⟨row, found, counted⟩ := Option.bind_eq_some_iff.mp incremented
        rcases attempt_cases (Option.some.inj executed) with ⟨ok, rfl, rfl⟩ | ⟨lost, rfl, rfl⟩ | ⟨failed, rfl, rfl⟩
        · exact .increment free ok found counted
        · exact .incrementLost free lost found counted
        · exact .stop nofun fun executed => absurd executed (by simp [failed])
  | append updated =>
    simp only [DownloadedStep.exec, appendAudit] at executed
    split at executed
    · cases executed
    · rcases attempt_cases (Option.some.inj executed) with ⟨-, rfl, rfl⟩ | ⟨-, rfl, rfl⟩ | ⟨-, rfl, rfl⟩
      · exact .append
      · exact .append
      · exact .appendNothing
  | done reply => cases executed

/-! ### Everybody -/

/-- Inside a transaction, with the lock on the share row. -/
def inside : Proc → Bool
  | .get _ (.mark _ .lockShare) => false
  | .get _ (.mark _ _) => true
  | .sweep step => finalizing step
  | _ => false

/-- The entry that a gateway handler is about to append. -/
def owes : Proc → Option AuditEvent
  | .create _ (.append event) => some event
  | .downloaded request (.append updated) => some (downloadedEvent request updated)
  | .destroy request (.append destroyedId) => some (destroyEvent request destroyedId)
  | _ => none

/-- The statements outside transactions. Only the creation of another share comes to owe
an entry without writing to this one. -/
inductive Writes (env : Env) (db : Database) (clock : Timestamp) (outcome : Outcome) :
    Proc → Proc → Effect → Prop where
  | skip {proc moved} (outside : inside moved = false)
      (quit : owes moved = none ∨ ∃ request : CreateRequest, owes moved = some (request.event clock)) :
      Writes env db clock outcome proc moved .skip
  | putBlob {request plan moved} (quit : owes moved = none) (outside : inside moved = false)
      (length : request.body.length = plan.ciphertextSize) (executed : takesEffect outcome) :
      Writes env db clock outcome (.put request (.putBlob plan)) moved (.putBlob plan.blobKey request.body)
  | removeBlob {step moved key} (outside : finalizing moved = false) :
      Writes env db clock outcome (.sweep step) (.sweep moved) (.removeBlob key)
  | insert {request moved} (absent : db.store.share = none) (outside : inside moved = false)
      (quit : owes moved = none ∨ owes moved = some (request.event clock)) (executed : takesEffect outcome)
      (valid : (request.row clock).checks ∧ (request.row clock).fits) :
      Writes env db clock outcome (.create request .insert) moved (.auto { share := some (request.row clock) })
  | promote {request step moved plan state row} (free : db.tx = none) (executed : takesEffect outcome)
      (promoted : promotion step = some (plan, state)) (found : db.store.share = some row) :
      Writes env db clock outcome (.put request step) (.put request moved) (.auto { share := some { row with state } })
  | upsert {request plan uploadedAt moved} (executed : takesEffect outcome)
      (free : db.blocksUpsert plan.index = false) :
      Writes env db clock outcome (.put request (.upsert plan uploadedAt)) (.put request moved)
        (.auto { chunk := some (plan.index, upsertChunk db.store plan.index plan.nonce plan.blobKey plan.ciphertextSize
          uploadedAt plan.downloadTokenHash) })
  | increment {request moved row updated} (free : db.tx = none) (executed : takesEffect outcome)
      (found : db.store.find request.shortId = some row) (counted : incrementDownload clock row = some updated)
      (outside : inside moved = false) (quit : owes moved = none ∨ owes moved = some (downloadedEvent request updated)) :
      Writes env db clock outcome (.downloaded request .increment) moved (.auto { share := some updated })
  | revoke {request moved row} (free : db.tx = none) (executed : takesEffect outcome)
      (found : db.store.find request.shortId = some row) (outside : inside moved = false)
      (quit : owes moved = none ∨ owes moved = some (destroyEvent request row.id)) :
      Writes env db clock outcome (.destroy request .update) moved (.auto { share := some (revoke clock row) })
  | append {proc moved event} (owed : owes proc = some event) (outside : inside moved = false)
      (quit : owes moved = none) :
      Writes env db clock outcome proc moved (.auto { events := [event] })
  | markLock {request share row} (free : db.tx = none) (found : db.store.findById share.id = some row) :
      Writes env db clock outcome (.get request (.mark share .lockShare)) (.get request (.mark share (.stampChunk row)))
        (.begin clock)
  | sweepLock {id chunkCount row} (ok : outcome = .ok) (free : db.tx = none)
      (found : db.store.findById id = some row) :
      Writes env db clock outcome (.sweep (.lock id chunkCount))
        (.sweep (.deleteChunks row (classifyReason row clock) chunkCount)) (.begin clock)

section Writes
variable {env : Env} {db : Database} {clock : Timestamp} {outcome : Outcome} {moved : Proc} {effect : Effect}

private theorem append_writes {α : Type} {wrap : α → Proc} {proc : Proc} {event : AuditEvent} {next after : α}
    (owed : owes proc = some event) (outside : inside (wrap next) = false) (quit : owes (wrap next) = none)
    (executed : appendAudit db outcome event next = some (after, effect)) :
    Writes env db clock outcome proc (wrap after) effect := by
  unfold appendAudit at executed
  split at executed
  · cases executed
  · rcases attempt_cases (Option.some.inj executed) with ⟨-, rfl, rfl⟩ | ⟨-, rfl, rfl⟩ | ⟨-, rfl, rfl⟩
    · exact .append owed outside quit
    · exact .append owed outside quit
    · exact .skip outside (.inl quit)

private theorem create_writes {request : CreateRequest} {step after : CreateStep}
    (executed : step.exec db request clock outcome = some (after, effect)) :
    Writes env db clock outcome (.create request step) (.create request after) effect := by
  cases step with
  | acquire => cases outcome <;> cases executed <;> exact .skip rfl (.inl rfl)
  | insert =>
    simp only [CreateStep.exec, Option.some.injEq] at executed
    split at executed
    next row found =>
      split at executed
      · cases executed
        exact .skip rfl (.inl rfl)
      · rcases attempt_cases executed with ⟨-, rfl, rfl⟩ | ⟨-, rfl, rfl⟩ | ⟨-, rfl, rfl⟩
        · exact .skip rfl (.inr ⟨request, rfl⟩)
        · exact .skip rfl (.inl rfl)
        · exact .skip rfl (.inl rfl)
    next absent =>
      split at executed
      next valid =>
        have valid := Bool.and_eq_true_iff.mp valid
        rcases attempt_cases executed with ⟨ok, rfl, rfl⟩ | ⟨lost, rfl, rfl⟩ | ⟨-, rfl, rfl⟩
        · exact .insert absent rfl (.inr rfl) (by rw [ok]; rfl) valid
        · exact .insert absent rfl (.inl rfl) (by rw [lost]; rfl) valid
        · exact .skip rfl (.inl rfl)
      next =>
        cases executed
        exact .skip rfl (.inl rfl)
  | append event => exact append_writes rfl rfl rfl executed
  | done reply => cases executed

private theorem downloaded_writes {request : DownloadedRequest} {step after : DownloadedStep}
    (executed : step.exec env db request clock outcome = some (after, effect)) :
    Writes env db clock outcome (.downloaded request step) (.downloaded request after) effect := by
  cases downloaded_move executed with
  | acquire => exact .skip rfl (.inl rfl)
  | ended => exact .skip rfl (.inl rfl)
  | live => exact .skip rfl (.inl rfl)
  | refused => exact .skip rfl (.inl rfl)
  | increment free ok found counted => exact .increment free (by rw [ok]; rfl) found counted rfl (.inr rfl)
  | incrementLost free lost found counted => exact .increment free (by rw [lost]; rfl) found counted rfl (.inl rfl)
  | append => exact .append rfl rfl rfl
  | appendNothing => exact .skip rfl (.inl rfl)
  | stop => exact .skip rfl (.inl rfl)

private theorem destroy_writes {request : DestroyRequest} {step after : DestroyStep}
    (executed : step.exec env db request clock outcome = some (after, effect)) :
    Writes env db clock outcome (.destroy request step) (.destroy request after) effect := by
  cases step with
  | acquire =>
    cases executed
    split
    · exact .skip rfl (.inl rfl)
    · split
      · split <;> exact .skip rfl (.inl rfl)
      · exact .skip rfl (.inl rfl)
  | readShare incomingHash =>
    rw [DestroyStep.exec, Option.some.injEq] at executed
    obtain ⟨rfl, ⟨-, rfl⟩ | ⟨-, rfl⟩⟩ := attemptRead_cases executed
    · split
      next => exact .skip rfl (.inl rfl)
      next =>
        split
        · exact .skip rfl (.inl rfl)
        · split
          next => exact .skip rfl (.inl rfl)
          next => split <;> exact .skip rfl (.inl rfl)
    · exact .skip rfl (.inl rfl)
  | update =>
    simp only [DestroyStep.exec] at executed
    split at executed
    · cases executed
    next free =>
      have free : db.tx = none := by simpa using free
      cases found : db.store.find request.shortId with
      | none =>
        rw [found] at executed
        rcases attempt_cases (Option.some.inj executed) with ⟨-, rfl, rfl⟩ | ⟨-, rfl, rfl⟩ | ⟨-, rfl, rfl⟩ <;>
          exact .skip rfl (.inl rfl)
      | some row =>
        rw [found] at executed
        rcases attempt_cases (Option.some.inj executed) with ⟨rfl, rfl, rfl⟩ | ⟨rfl, rfl, rfl⟩ | ⟨-, rfl, rfl⟩
        · exact .revoke free rfl found rfl (.inr rfl)
        · exact .revoke free rfl found rfl (.inl rfl)
        · exact .skip rfl (.inl rfl)
  | append destroyedId => exact append_writes rfl rfl rfl executed
  | done reply => cases executed

private theorem put_writes {request : PutRequest} {step after : PutStep}
    (executed : step.exec env db request clock outcome = some (after, effect)) :
    Writes env db clock outcome (.put request step) (.put request after) effect := by
  cases put_move executed with
  | acquire => exact .skip rfl (.inl rfl)
  | check => exact .skip rfl (.inl rfl)
  | putBlob length ok => exact .putBlob rfl rfl length (by rw [ok]; rfl)
  | putLost length lost => exact .putBlob rfl rfl length (by rw [lost]; rfl)
  | upsert free effective => exact .upsert effective free
  | promote free effective promoted found => exact .promote free effective promoted (findById_eq_some.mp found).1
  | proceed => exact .skip rfl (.inl rfl)
  | stop => exact .skip rfl (.inl rfl)

private theorem get_writes {request : GetRequest} {step after : GetStep} (outside : inside (.get request step) = false)
    (executed : step.exec env db request clock outcome = some (after, effect)) :
    Writes env db clock outcome (.get request step) (.get request after) effect := by
  rcases get_cases executed with ⟨rfl, reply, rfl⟩ | ⟨rfl, rfl, rfl⟩ | ⟨share, rfl, rfl, -, -, -, -, -, rfl⟩ |
    ⟨share, chunk, rfl, rfl, -, -, rfl⟩ | ⟨share, chunk, rfl, rfl, rfl⟩ | ⟨share, chunk, rfl, rfl, rfl⟩ |
    ⟨share, inner, marked, rfl, call, rfl⟩
  · exact .skip rfl (.inl rfl)
  · exact .skip rfl (.inl rfl)
  · exact .skip rfl (.inl rfl)
  · exact .skip rfl (.inl rfl)
  · exact .skip rfl (.inl rfl)
  · exact .skip rfl (.inl rfl)
  · cases inner with
    | lockShare =>
      cases mark_move call with
      | lock free found => exact .markLock free found
      | leave => exact .skip rfl (.inl rfl)
      | rollback inside => exact absurd rfl inside
    | _ => cases outside

private theorem sweep_writes {step after : SweepStep} (outside : finalizing step = false)
    (executed : step.exec db clock outcome = some (after, effect)) :
    Writes env db clock outcome (.sweep step) (.sweep after) effect := by
  have remaining : ∀ id chunkCount keys, finalizing (.remaining id chunkCount keys) = false := by
    intro id chunkCount keys
    cases keys <;> rfl
  cases sweep_move executed with
  | fetchReapable => exact .skip rfl (.inl rfl)
  | idle => exact .skip rfl (.inl rfl)
  | fetchChunkKeys => exact .skip (remaining _ _ _) (.inl rfl)
  | removeBlob => exact .removeBlob (remaining _ _ _)
  | removeLost => exact .removeBlob rfl
  | removed => exact .skip rfl (.inl rfl)
  | lock ok free found => exact .sweepLock ok free found
  | gone => exact .skip rfl (.inl rfl)
  | fail => exact .skip rfl (.inl rfl)
  | rollback inside => exact absurd inside (by simp [outside])
  | _ => cases outside

/-- What a process outside a transaction writes. -/
theorem exec_writes {proc : Proc} (outside : inside proc = false)
    (executed : proc.exec env db clock outcome = some (moved, effect)) :
    Writes env db clock outcome proc moved effect := by
  cases proc with
  | crashed => cases executed
  | create request step =>
    obtain ⟨after, member, rfl⟩ := handler_exec executed
    exact create_writes member
  | put request step =>
    obtain ⟨after, member, rfl⟩ := handler_exec executed
    exact put_writes member
  | get request step =>
    obtain ⟨after, member, rfl⟩ := handler_exec executed
    exact get_writes outside member
  | downloaded request step =>
    obtain ⟨after, member, rfl⟩ := handler_exec executed
    exact downloaded_writes member
  | destroy request step =>
    obtain ⟨after, member, rfl⟩ := handler_exec executed
    exact destroy_writes member
  | sweep step =>
    obtain ⟨after, member, rfl⟩ := handler_exec executed
    exact sweep_writes outside member

end Writes

end SlothBox.Proofs

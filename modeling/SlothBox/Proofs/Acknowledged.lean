import SlothBox.Proofs.Promotion
import SlothBox.Proofs.Blobs

/-! Uploads whose promotion may fail. The handler answers 201 all the same and leaves the
state to whoever comes after it; nobody does after the last one. -/

namespace SlothBox.Proofs
open Library

/-- Uploads only, whose calls end in any way. A handler may be killed before it answers. -/
def unreliableUploads (world : World) : Event → Bool
  | .spawn (.put _) | .exec .. => true
  | .spawn _ => false
  | .crash pid => world.procs[pid]?.any (!·.finished)

def settles : Proc → Bool
  | .put _ step => settling step
  | _ => false

/-- No row is missing and no other handler is going to count. -/
def lastToSettle (world : World) (pid : Nat) (plan : PutPlan) : Bool :=
  plan.share.chunkCount ≤ world.db.store.countUploadedChunks && !(world.procs.eraseIdx pid).any settles

/-- The last handler that would promote a complete upload fails, is cancelled or is killed in one of
its steps after the row, and leaves the share in another state than `ready`. -/
def strands (world : World) : Event → Bool
  | .exec pid _ outcome =>
    match world.procs[pid]? with
    | some (.put _ (.setUploading plan)) =>
      outcome ≠ .ok && lastToSettle world pid plan && (outcome = .lost || world.db.store.state ≠ some .ready)
    | some (.put _ (.countChunks plan)) =>
      outcome ≠ .ok && lastToSettle world pid plan && world.db.store.state ≠ some .ready
    | some (.put _ (.setReady plan)) =>
      !takesEffect outcome && lastToSettle world pid plan && world.db.store.state ≠ some .ready
    | _ => false
  | .crash pid =>
    match world.procs[pid]? with
    | some (.put _ (.setUploading plan)) | some (.put _ (.countChunks plan)) | some (.put _ (.setReady plan)) =>
      lastToSettle world pid plan && world.db.store.state ≠ some .ready
    | _ => false
  | .spawn _ => false

/-- Every index has had an upload answered 201. -/
def Acknowledged (row : ShareRow) (world : World) : Prop :=
  ∀ index < row.chunkCount, ∃ request, Proc.put request .created ∈ world.procs ∧ request.chunkIndex = index

/-! ### Only a handler past its row answers 201 -/

theorem check_error {options : IngestOptions} {request : PutRequest} {share : ShareRow} {now : Timestamp} :
    ∀ reply, request.check options share now = .error reply → reply ≠ .http 201 none := by
  have guard : ∀ (condition : Prop) [Decidable condition] (reply : Reply), reply ≠ .http 201 none →
      ∀ thrown, refuseIf condition reply = .error thrown → thrown ≠ .http 201 none := by
    intro condition _ reply other thrown stopped
    rw [refuseIf_error stopped]
    exact other
  have length : ∀ thrown, request.requiredLength = .error thrown → thrown ≠ .http 201 none := by
    intro thrown stopped
    unfold PutRequest.requiredLength at stopped
    split at stopped
    · split at stopped <;> cases stopped
      simp [Reply.badRequest]
    · cases stopped
      simp [Reply.badRequest]
  have nonce : ∀ thrown, request.requiredNonce options = .error thrown → thrown ≠ .http 201 none := by
    intro thrown stopped
    unfold PutRequest.requiredNonce at stopped
    repeat' split at stopped
    all_goals cases stopped
    all_goals simp [Reply.badRequest]
  have hash : ∀ thrown, request.optionalTokenHash = .error thrown → thrown ≠ .http 201 none := by
    intro thrown stopped
    unfold PutRequest.optionalTokenHash at stopped
    repeat' split at stopped
    all_goals cases stopped
    all_goals simp [Reply.badRequest]
  unfold PutRequest.check
  refine bind_errors (guard _ _ (by simp)) fun _ => ?_
  refine bind_errors (guard _ _ (by simp [Reply.badRequest])) fun _ => ?_
  refine bind_errors length fun contentLength => ?_
  refine bind_errors (guard _ _ (by simp)) fun _ => ?_
  refine bind_errors (guard _ _ (by simp [Reply.badRequest])) fun _ => ?_
  refine bind_errors (guard _ _ (by simp [Reply.badRequest])) fun _ => ?_
  refine bind_errors (guard _ _ (by simp [Reply.badRequest])) fun _ => ?_
  refine bind_errors nonce fun _ => ?_
  exact bind_errors hash fun _ _ stopped => by cases stopped

theorem created_settling {env : Env} {db : Database} {request : PutRequest} {clock : Timestamp} {outcome : Outcome}
    {step : PutStep} {effect : Effect} (executed : step.exec env db request clock outcome = some (.created, effect)) :
    settling step := by
  cases step with
  | acquire =>
    have moved := (Prod.mk.inj (Option.some.inj executed)).1
    split at moved <;> cases moved
  | readShare =>
    rw [PutStep.exec, Option.some.injEq] at executed
    obtain ⟨-, ⟨-, moved⟩ | ⟨-, moved⟩⟩ := attemptRead_cases executed
    · split at moved
      · cases moved
      · split at moved
        next reply refused =>
          cases moved
          exact absurd rfl (check_error _ refused)
        · cases moved
    · cases outcome <;> cases moved
  | putBlob plan =>
    simp only [PutStep.exec] at executed
    split at executed
    · rcases attempt_cases (Option.some.inj executed) with ⟨-, moved, -⟩ | ⟨-, moved, -⟩ | ⟨failed, moved, -⟩
      · cases moved
      · cases moved
      · cases outcome <;> cases moved
    · cases executed
  | upsert plan uploadedAt =>
    simp only [PutStep.exec] at executed
    split at executed
    · cases executed
    · rcases attempt_cases (Option.some.inj executed) with ⟨-, moved, -⟩ | ⟨-, moved, -⟩ | ⟨-, moved, -⟩
      · dsimp only at moved
        split at moved <;> cases moved
      · cases moved
      · cases moved
  | setUploading plan => rfl
  | countChunks plan => rfl
  | setReady plan => rfl
  | done reply => cases executed

/-! ### Where handlers stand -/

/-- The plan was made for this share and this request. -/
def PlanOf (row : ShareRow) (request : PutRequest) (plan : PutPlan) : Prop :=
  plan.share.id = row.id ∧ plan.share.chunkCount = row.chunkCount ∧ plan.index < row.chunkCount ∧
    request.chunkIndex = plan.index

/-- A handler past its row, or answered 201, has its row stored. -/
def Placed (row : ShareRow) (store : Store) (request : PutRequest) : PutStep → Prop
  | .putBlob plan | .upsert plan _ => PlanOf row request plan
  | .setUploading plan | .countChunks plan | .setReady plan =>
    PlanOf row request plan ∧ (store.chunks.lookup plan.index).isSome
  | .done reply => reply = .http 201 none → (store.chunks.lookup request.chunkIndex.toNat).isSome
  | _ => True

def PlacedProc (row : ShareRow) (store : Store) : Proc → Prop
  | .put request step => Placed row store request step
  | .crashed => True
  | _ => False

/-- The share is there and has rows of its chunks only. -/
structure Receiving (row : ShareRow) (db : Database) : Prop where
  unlocked : db.tx = none
  share : ∃ state, db.store.share = some { row with state }
  rows : ∀ index chunk, db.store.chunks.lookup index = some chunk → index < row.chunkCount ∧ chunk.uploadedAt.isSome

structure Answering (row : ShareRow) (world : World) : Prop where
  receiving : Receiving row world.db
  procs : ∀ proc ∈ world.procs, PlacedProc row world.db.store proc
  ready : (∀ proc ∈ world.procs, settles proc = false) → Acknowledged row world →
    world.db.store.state = some .ready

theorem Placed.grow {row : ShareRow} {before after : Store} {request : PutRequest} {step : PutStep}
    (placed : Placed row before request step)
    (grows : ∀ index, (before.chunks.lookup index).isSome → (after.chunks.lookup index).isSome) :
    Placed row after request step := by
  cases step with
  | setUploading plan => exact ⟨placed.1, grows _ placed.2⟩
  | countChunks plan => exact ⟨placed.1, grows _ placed.2⟩
  | setReady plan => exact ⟨placed.1, grows _ placed.2⟩
  | done reply => exact fun created => grows _ (placed created)
  | _ => exact placed

theorem PlacedProc.grow {row : ShareRow} {before after : Store} {proc : Proc} (placed : PlacedProc row before proc)
    (grows : ∀ index, (before.chunks.lookup index).isSome → (after.chunks.lookup index).isSome) :
    PlacedProc row after proc := by
  cases proc with
  | put request step => exact Placed.grow placed grows
  | crashed => trivial
  | _ => exact placed.elim

/-- What a statement of an upload leaves, whichever way its call ends. -/
structure Leaves (row : ShareRow) (request : PutRequest) (before after : Database) (step moved : PutStep) : Prop where
  receiving : Receiving row after
  grows : ∀ index, (before.store.chunks.lookup index).isSome → (after.store.chunks.lookup index).isSome
  placed : Placed row after.store request moved
  still : settling step = false → after.store.state = before.store.state
  kept : settling step → after.store.chunks = before.store.chunks

section Statements
variable {env : Env} {db : Database} {row : ShareRow} {request : PutRequest} {clock : Timestamp} {outcome : Outcome}
  {step moved : PutStep} {effect : Effect} {plan : PutPlan}

theorem placed_following (placed : Placed row db.store request step) (owes : settling step)
    (next : moved = .created ∨ moved = following db step) : Placed row db.store request moved := by
  have answered : ∀ plan, PlanOf row request plan ∧ (db.store.chunks.lookup plan.index).isSome →
      Placed row db.store request .created := by
    rintro plan ⟨⟨-, -, -, index⟩, present⟩ -
    rw [index]
    exact present
  cases step with
  | setUploading plan =>
    rcases next with rfl | rfl
    · exact answered plan placed
    · exact placed
  | countChunks plan =>
    rcases next with rfl | rfl
    · exact answered plan placed
    · rw [following]
      split
      · exact placed
      · exact answered plan placed
  | setReady plan =>
    rcases next with rfl | rfl
    · exact answered plan placed
    · exact answered plan placed
  | _ => cases owes

/-- A call that writes nothing. -/
private theorem Leaves.nothing (receiving : Receiving row db) (placed : Placed row db.store request moved) :
    Leaves row request db db step moved :=
  ⟨receiving, fun _ => id, placed, fun _ => rfl, fun _ => rfl⟩

/-- The states that a handler past its row writes. -/
private theorem Leaves.promoted {pid : Nat} {state : ShareState} (receiving : Receiving row db)
    (placed : Placed row db.store request step) (owes : settling step) (named : plan.share.id = row.id)
    (attempted : attempt outcome (following db step, updateShareState db plan.share.id state)
      (fun _ => PutStep.created) = (moved, effect)) :
    Leaves row request db (db.apply pid effect) step moved := by
  obtain ⟨current, found⟩ := receiving.share
  have written : updateShareState db plan.share.id state = .auto { share := some { row with state } } := by
    rw [updateShareState, findById_eq_some.mpr ⟨found, named.symm⟩]
  rw [written] at attempted
  have promoted : ∀ moved, Placed row db.store request moved →
      Leaves row request db (db.apply pid (.auto { share := some { row with state } })) step moved := fun moved placed =>
    ⟨⟨receiving.unlocked, ⟨state, rfl⟩, receiving.rows⟩, fun _ => id, placed,
      fun outside => absurd owes (by simp [outside]), fun _ => rfl⟩
  rcases attempt_cases attempted with ⟨-, rfl, rfl⟩ | ⟨-, rfl, rfl⟩ | ⟨-, rfl, rfl⟩
  · exact promoted _ (placed_following placed owes (.inr rfl))
  · exact promoted _ (placed_following placed owes (.inl rfl))
  · exact .nothing receiving (placed_following placed owes (.inl rfl))

private theorem Leaves.upserted {pid : Nat} {uploadedAt : Timestamp} (receiving : Receiving row db)
    (planned : PlanOf row request plan)
    (placed : ∀ store : Store, (store.chunks.lookup plan.index).isSome → Placed row store request moved) :
    Leaves row request db (db.apply pid (.auto { chunk := some (plan.index, upsertChunk db.store plan.index plan.nonce
      plan.blobKey plan.ciphertextSize uploadedAt plan.downloadTokenHash) })) (.upsert plan uploadedAt) moved := by
  refine ⟨⟨receiving.unlocked, receiving.share, ?_⟩, ?_, placed _ (by simp [Database.apply, WriteSet.apply]),
    fun _ => rfl, nofun⟩
  · intro index chunk found
    by_cases own : index = plan.index
    · subst own
      obtain rfl : upsertChunk _ _ _ _ _ _ _ = chunk := by simpa [Database.apply, WriteSet.apply] using found
      exact ⟨planned.2.2.1, by rw [(uploadedAt_upsert).1]; rfl⟩
    · simp only [Database.apply, WriteSet.apply] at found
      rw [if_neg (by simp), AList.lookup_insert_ne own] at found
      exact receiving.rows index chunk found
  · intro index present
    simp only [Database.apply, WriteSet.apply, AList.lookup_isSome] at present ⊢
    exact (AList.mem_insert _).mpr (.inr present)

/-- The plan of an admitted upload is one for this share and this request. -/
private theorem planOf_check {share : ShareRow} (receiving : Receiving row db)
    (read : db.store.find request.shortId = some share) (admitted : request.check env.options share clock = .ok plan) :
    PlanOf row request plan := by
  obtain ⟨current, stored⟩ := receiving.share
  obtain ⟨same, -⟩ := find_eq_some.mp read
  obtain rfl : { row with state := current } = share := Option.some.inj (stored.symm.trans same)
  obtain ⟨-, read, inside, -⟩ := check_ok admitted
  exact ⟨by rw [read], by rw [read], inside, (check_planned admitted).index⟩

theorem put_leaves (pid : Nat) (receiving : Receiving row db) (placed : Placed row db.store request step)
    (executed : step.exec env db request clock outcome = some (moved, effect)) :
    Leaves row request db (db.apply pid effect) step moved := by
  -- before the row is written no answer is 201
  have refused : settling step = false → ∀ store reply, moved = .done reply → Placed row store request moved := by
    rintro outside store reply rfl rfl
    have owes := created_settling executed
    simp [outside] at owes
  cases step with
  | acquire =>
    obtain ⟨rfl, rfl⟩ := Prod.mk.inj (Option.some.inj executed)
    refine .nothing receiving ?_
    split
    · exact fun created => by cases created
    · trivial
  | readShare =>
    rw [PutStep.exec, Option.some.injEq] at executed
    obtain ⟨rfl, ⟨-, rfl⟩ | ⟨-, rfl⟩⟩ := attemptRead_cases executed
    · refine .nothing receiving ?_
      split
      next => exact fun created => by cases created
      next share found =>
        split
        next reply stopped => exact fun created => absurd created (check_error reply stopped)
        next plan admitted => exact planOf_check receiving found admitted
    · exact .nothing receiving (refused rfl _ _ rfl)
  | putBlob plan =>
    simp only [PutStep.exec] at executed
    split at executed
    · rcases attempt_cases (Option.some.inj executed) with ⟨-, rfl, rfl⟩ | ⟨-, rfl, rfl⟩ | ⟨-, rfl, rfl⟩
      · exact ⟨⟨receiving.unlocked, receiving.share, receiving.rows⟩, fun _ => id, placed, fun _ => rfl,
          fun owes => by cases owes⟩
      · exact ⟨⟨receiving.unlocked, receiving.share, receiving.rows⟩, fun _ => id, refused rfl _ _ rfl, fun _ => rfl,
          fun owes => by cases owes⟩
      · cases outcome <;> exact .nothing receiving fun created => by cases created
    · cases executed
      exact .nothing receiving (refused rfl _ _ rfl)
  | upsert plan uploadedAt =>
    simp only [PutStep.exec] at executed
    split at executed
    · cases executed
    · rcases attempt_cases (Option.some.inj executed) with ⟨-, rfl, rfl⟩ | ⟨-, rfl, rfl⟩ | ⟨-, rfl, rfl⟩
      · refine .upserted receiving placed fun store present => ?_
        dsimp only
        split
        · exact ⟨placed, present⟩
        · exact ⟨placed, present⟩
      · exact .upserted receiving placed fun store _ => refused rfl _ _ rfl
      · exact .nothing receiving (refused rfl _ _ rfl)
  | setUploading plan =>
    simp only [PutStep.exec] at executed
    split at executed
    · cases executed
    · exact .promoted receiving placed rfl placed.1.1 (Option.some.inj executed)
  | countChunks plan =>
    rw [PutStep.exec, Option.some.injEq] at executed
    obtain ⟨rfl, ⟨-, rfl⟩ | ⟨-, rfl⟩⟩ := attemptRead_cases executed
    · exact .nothing receiving (placed_following placed rfl (.inr rfl))
    · exact .nothing receiving (placed_following placed rfl (.inl rfl))
  | setReady plan =>
    simp only [PutStep.exec] at executed
    split at executed
    · cases executed
    · exact .promoted receiving placed rfl placed.1.1 (Option.some.inj executed)
  | done reply => cases executed

end Statements

section Step
variable {env : Env} {row : ShareRow} {world next : World} {event : Event} {pid : Nat} {clock : Timestamp}
  {outcome : Outcome} {request : PutRequest} {step moved : PutStep} {effect : Effect} {plan : PutPlan}

/-- The plan of a handler past its row. -/
def settlingPlan : PutStep → Option PutPlan
  | .setUploading plan | .countChunks plan | .setReady plan => some plan
  | _ => none

theorem settlingPlan_of_settling (owes : settling step) : ∃ plan, settlingPlan step = some plan := by
  cases step with
  | setUploading plan => exact ⟨plan, rfl⟩
  | countChunks plan => exact ⟨plan, rfl⟩
  | setReady plan => exact ⟨plan, rfl⟩
  | _ => cases owes

/-- The last handler of a complete upload leaves `ready` behind, unless it strands the share. -/
theorem last_settles (receiving : Receiving row world.db) (running : world.procs[pid]? = some (.put request step))
    (planned : settlingPlan step = some plan) (named : plan.share.id = row.id) (last : lastToSettle world pid plan)
    (permitted : strands world (.exec pid clock outcome) = false)
    (executed : step.exec env world.db request clock outcome = some (moved, effect)) (quits : settling moved = false) :
    (world.db.apply pid effect).store.state = some .ready := by
  obtain ⟨current, found⟩ := receiving.share
  have full := (Bool.and_eq_true_iff.mp last).1
  cases step with
  | setUploading plan =>
    cases planned
    simp only [strands, running, last, Bool.and_true, Bool.and_eq_false_iff, Bool.or_eq_false_iff] at permitted
    simp only [PutStep.exec] at executed
    split at executed
    · cases executed
    · rcases attempt_cases (Option.some.inj executed) with ⟨-, rfl, -⟩ | ⟨rfl, -, -⟩ | ⟨failed, -, rfl⟩
      · cases quits
      · simp at permitted
      · have bad : outcome ≠ .ok := by
          rintro rfl
          cases failed
        simpa [Database.apply] using (permitted.resolve_left (by simp [bad])).2
  | countChunks plan =>
    cases planned
    simp only [strands, running, last, Bool.and_true, Bool.and_eq_false_iff] at permitted
    rw [PutStep.exec, Option.some.injEq] at executed
    obtain ⟨rfl, ⟨-, rfl⟩ | ⟨bad, -⟩⟩ := attemptRead_cases executed
    · rw [if_pos (of_decide_eq_true full)] at quits
      cases quits
    · simpa [Database.apply] using permitted.resolve_left (by simp [bad])
  | setReady plan =>
    cases planned
    simp only [strands, running, last, Bool.and_true, Bool.and_eq_false_iff] at permitted
    have written : updateShareState world.db plan.share.id .ready = .auto { share := some { row with state := .ready } } := by
      rw [updateShareState, findById_eq_some.mpr ⟨found, named.symm⟩]
    simp only [PutStep.exec, written] at executed
    split at executed
    · cases executed
    · rcases attempt_cases (Option.some.inj executed) with ⟨-, -, rfl⟩ | ⟨-, -, rfl⟩ | ⟨failed, -, rfl⟩
      · rfl
      · rfl
      · simpa [Database.apply] using permitted.resolve_left (by simp [failed])
  | _ => cases planned

/-- Acknowledged chunks have their rows. -/
theorem complete_of_acknowledged {procs : List Proc} {store : Store} (placed : ∀ proc ∈ procs, PlacedProc row store proc)
    (acknowledged : ∀ index < row.chunkCount, ∃ request, Proc.put request .created ∈ procs ∧ request.chunkIndex = index) :
    Complete row store := by
  intro index inside
  obtain ⟨request, member, same⟩ := acknowledged index inside
  have present := placed _ member rfl
  rw [same] at present
  exact present

/-- Nobody else settles when the handler that moved was the last one. -/
theorem alone_of_set {procs : List Proc} {proc : Proc} (quiet : ∀ other ∈ procs.set pid proc, settles other = false) :
    (procs.eraseIdx pid).any settles = false := by
  rw [List.any_eq_false]
  intro other member
  obtain ⟨position, apart, found⟩ := List.mem_eraseIdx_iff_getElem?.mp member
  have kept : (procs.set pid proc)[position]? = some other := by
    rw [List.getElem?_set_ne (Ne.symm apart)]
    exact found
  simp [quiet other (List.mem_of_getElem? kept)]

theorem planOf_running (answering : Answering row world) (running : world.procs[pid]? = some (.put request step))
    (planned : settlingPlan step = some plan) : PlanOf row request plan := by
  have placed := answering.procs _ (List.mem_of_getElem? running)
  cases step <;> cases planned <;> exact placed.1

theorem last_of_complete (answering : Answering row world) (own : PlanOf row request plan)
    (complete : Complete row world.db.store) (alone : (world.procs.eraseIdx pid).any settles = false) :
    lastToSettle world pid plan := by
  have full := (complete_iff_count answering.receiving.rows).mpr complete
  simp [lastToSettle, own.2.1, full, alone]

theorem exec_ready (answering : Answering row world) (running : world.procs[pid]? = some (.put request step))
    (permitted : strands world (.exec pid clock outcome) = false)
    (executed : step.exec env world.db request clock outcome = some (moved, effect))
    (leaves : Leaves row request world.db (world.db.apply pid effect) step moved)
    (quiet : ∀ proc ∈ world.procs.set pid (.put request moved), settles proc = false)
    (acknowledged : ∀ index < row.chunkCount, ∃ other,
      Proc.put other .created ∈ world.procs.set pid (.put request moved) ∧ other.chunkIndex = index) :
    (world.db.apply pid effect).store.state = some .ready := by
  have quits : settling moved = false := quiet _ (mem_set_of_getElem? running)
  cases owes : settling step with
  | false =>
    -- nobody was settling, and nobody has answered
    rw [leaves.still owes]
    refine answering.ready ?_ ?_
    · intro proc member
      by_cases own : proc = .put request step
      · rw [own]
        exact owes
      · exact quiet proc (mem_set_of_ne running member own)
    · intro index inside
      obtain ⟨other, member, same⟩ := acknowledged index inside
      rcases mem_set_cases member with answered | old
      · cases answered
        simp [created_settling executed] at owes
      · exact ⟨other, old, same⟩
  | true =>
    obtain ⟨plan, planned⟩ := settlingPlan_of_settling owes
    have own := planOf_running answering running planned
    have after : ∀ proc ∈ world.procs.set pid (.put request moved), PlacedProc row (world.db.apply pid effect).store proc := by
      intro proc member
      rcases mem_set_cases member with rfl | old
      · exact leaves.placed
      · exact (answering.procs proc old).grow leaves.grows
    have complete : Complete row world.db.store := by
      have later := complete_of_acknowledged after acknowledged
      simpa only [Complete, leaves.kept owes] using later
    have last := last_of_complete answering own complete (alone_of_set quiet)
    exact last_settles answering.receiving running planned own.1 last permitted executed quits

theorem crash_ready (answering : Answering row world) {proc : Proc} (running : world.procs[pid]? = some proc)
    (permitted : strands world (.crash pid) = false)
    (quiet : ∀ other ∈ world.procs.set pid .crashed, settles other = false)
    (acknowledged : ∀ index < row.chunkCount, ∃ other,
      Proc.put other .created ∈ world.procs.set pid .crashed ∧ other.chunkIndex = index) :
    world.db.store.state = some .ready := by
  have before : ∀ index < row.chunkCount, ∃ other, Proc.put other .created ∈ world.procs ∧ other.chunkIndex = index := by
    intro index inside
    obtain ⟨other, member, same⟩ := acknowledged index inside
    rcases mem_set_cases member with answered | old
    · cases answered
    · exact ⟨other, old, same⟩
  cases owes : settles proc with
  | false =>
    refine answering.ready (fun other member => ?_) before
    by_cases own : other = proc
    · rw [own]
      exact owes
    · exact quiet other (mem_set_of_ne running member own)
  | true =>
    cases proc with
    | put request step =>
      obtain ⟨plan, planned⟩ := settlingPlan_of_settling owes
      have own := planOf_running answering running planned
      have complete := complete_of_acknowledged answering.procs before
      have last := last_of_complete answering own complete (alone_of_set quiet)
      cases step with
      | setUploading plan => cases planned; simpa [strands, running, last] using permitted
      | countChunks plan => cases planned; simpa [strands, running, last] using permitted
      | setReady plan => cases planned; simpa [strands, running, last] using permitted
      | _ => cases planned
    | _ => cases owes

theorem answering_step (answering : Answering row world) (kinds : unreliableUploads world event)
    (permitted : strands world event = false) (taken : (system env).step world event = some next) :
    Answering row next := by
  rcases step_cases taken with ⟨spawned, rfl, rfl⟩ |
    ⟨pid, clock, outcome, proc, moved, effect, rfl, running, executed, rfl⟩ | ⟨pid, proc, rfl, running, rfl⟩
  · cases spawned with
    | put request =>
      refine ⟨answering.receiving, ?_, fun quiet acknowledged => answering.ready ?_ ?_⟩
      · intro proc member
        rcases List.mem_append.mp member with old | new
        · exact answering.procs proc old
        · cases List.mem_singleton.mp new
          trivial
      · exact fun proc member => quiet proc (List.mem_append_left _ member)
      · intro index inside
        obtain ⟨other, member, same⟩ := acknowledged index inside
        rcases List.mem_append.mp member with old | new
        · exact ⟨other, old, same⟩
        · cases List.mem_singleton.mp new
    | _ => cases kinds
  · have placed := answering.procs proc (List.mem_of_getElem? running)
    cases proc with
    | put request step =>
      obtain ⟨after, call, rfl⟩ := handler_exec executed
      have leaves := put_leaves pid answering.receiving placed call
      refine ⟨leaves.receiving, ?_, exec_ready answering running permitted call leaves⟩
      intro proc member
      rcases mem_set_cases member with rfl | old
      · exact leaves.placed
      · exact (answering.procs proc old).grow leaves.grows
    | crashed => cases executed
    | _ => exact placed.elim
  · have kept : world.db.disconnect pid = world.db := by
      simp [Database.disconnect, answering.receiving.unlocked]
    rw [kept]
    refine ⟨answering.receiving, ?_, crash_ready answering running permitted⟩
    intro proc member
    rcases mem_set_cases member with rfl | old
    · trivial
    · exact answering.procs proc old

end Step

/-- A share just created, and uploads of it that may fail anywhere: once every chunk has had an upload
answered 201 and no handler is in flight, the share is `ready`, unless the last handler of the complete
upload was the one whose promotion failed. -/
theorem acknowledged_upload_ready (env : Env) {store : Store} {row : ShareRow} {events : List Event} {final : World}
    (created : store.share = some row) (positive : 0 < row.chunkCount) (fresh : store.chunks = ∅)
    (run : (system env).Run (fun world event => unreliableUploads world event ∧ strands world event = false)
      (World.start store) events final)
    (quiet : final.quiet) (acknowledged : Acknowledged row final) : final.db.store.state = some .ready := by
  have initial : Answering row (World.start store) := by
    refine ⟨⟨rfl, ⟨row.state, created⟩, ?_⟩, (fun _ member => by cases member), fun _ acknowledged => ?_⟩
    · intro index chunk found
      simp [World.start, fresh] at found
    · obtain ⟨_, member, -⟩ := acknowledged 0 positive
      cases member
  have answering := run.invariant (Answering row) initial fun _ _ _ kept permitted taken =>
    answering_step kept permitted.1 permitted.2 taken
  refine answering.ready (fun proc member => ?_) acknowledged
  have finished := List.all_eq_true.mp quiet proc member
  cases proc with
  | put request step => cases step <;> first | rfl | cases finished
  | _ => rfl

/-- The first upload of the only chunk fails to promote the share, the client sends it again, and the
second one promotes it. -/
theorem acknowledged_upload_ready_retried : ∃ events final,
    (system sampleEnv).Run (fun world event => unreliableUploads world event ∧ strands world event = false)
      (World.start sampleStore) events final ∧
    final.quiet ∧ Acknowledged (sampleCreate.row 5) final ∧ final.db.store.state = some .ready := by
  have replayed : ((system sampleEnv).replay (fun world event => unreliableUploads world event && !strands world event)
      (World.start sampleStore) (.spawn (.put samplePut) :: steps 0 6 4 ++ .spawn (.put samplePut) :: steps 1 7 4 ++
        .exec 0 8 .failed :: steps 1 9 3)).any (fun final => final.quiet &&
          final.procs.contains (.put samplePut .created)) = true := by decide +kernel
  obtain ⟨final, run, passed⟩ := System.any_replay replayed
  obtain ⟨quiet, answered⟩ := Bool.and_eq_true_iff.mp passed
  have run := run.mono fun world event permitted => by
    simpa only [Bool.and_eq_true, Bool.not_eq_true'] using permitted
  have acknowledged : Acknowledged (sampleCreate.row 5) final := by
    intro index inside
    obtain rfl : index = 0 := Nat.lt_one_iff.mp inside
    exact ⟨samplePut, List.contains_iff_mem.mp answered, rfl⟩
  exact ⟨_, final, run, quiet, acknowledged,
    acknowledged_upload_ready sampleEnv rfl Nat.one_pos rfl run quiet acknowledged⟩

/-- The count of the only upload fails: it is answered 201 and the share stays `uploading`. -/
theorem acknowledged_upload_stranded :
    ¬ ∀ (env : Env) (store : Store) (row : ShareRow) (events : List Event) (final : World),
      store.share = some row → row.state = .pending → 0 < row.chunkCount → store.chunks = ∅ →
      (system env).Run (fun world event => unreliableUploads world event) (World.start store) events final →
      final.quiet → Acknowledged row final → final.db.store.state = some .ready := by
  intro claimed
  have replayed : ((system sampleEnv).replay unreliableUploads (World.start sampleStore)
      (.spawn (.put samplePut) :: steps 0 6 5 ++ [.exec 0 7 .failed])).any (fun final => final.quiet &&
        final.procs.contains (.put samplePut .created) && final.db.store.state = some .uploading) = true := by
    decide +kernel
  obtain ⟨final, run, passed⟩ := System.any_replay replayed
  simp only [Bool.and_eq_true, decide_eq_true_eq] at passed
  obtain ⟨⟨quiet, answered⟩, uploading⟩ := passed
  have acknowledged : Acknowledged (sampleCreate.row 5) final := by
    intro index inside
    obtain rfl : index = 0 := Nat.lt_one_iff.mp inside
    exact ⟨samplePut, List.contains_iff_mem.mp answered, rfl⟩
  have refuted := claimed sampleEnv sampleStore _ _ final rfl rfl Nat.one_pos rfl run quiet acknowledged
  cases uploading.symm.trans refuted

end SlothBox.Proofs

import SlothBox.Proofs.Reaping
import SlothBox.Proofs.Terminal

/-! A share after its expiry. Whether it has expired is asked where a handler is let in, not
where it writes; so what the clock stops is admission, and the share is at rest once those who
were let in before are through. -/

namespace SlothBox.Proofs
open Library

/-- An upload or a reader that has passed the checks on the share and is not done. -/
def letIn : Proc → Bool
  | .put _ (.acquire) | .put _ .readShare | .put _ (.done _) => false
  | .put .. => true
  | .get _ .acquire | .get _ .readShare | .get _ (.done ..) => false
  | .get .. => true
  | _ => false

/-- The statement is run at that time or later. -/
def since (time : Timestamp) : Event → Bool
  | .exec _ clock _ => time ≤ clock
  | _ => true

section Expiry
variable {env : Env} {world next : World} {event : Event} {row : ShareRow} {clock : Timestamp} {outcome : Outcome}
  {proc moved : Proc} {effect : Effect} {db : Database}

theorem check_unexpired {options : IngestOptions} {request : PutRequest} {share : ShareRow} {now : Timestamp}
    {plan : PutPlan} (allowed : request.check options share now = .ok plan) : now < share.expiresAt := by
  simp only [PutRequest.check, bind_ok, refuseIf_ok] at allowed
  obtain ⟨-, accepts, -⟩ := allowed
  by_contra past
  exact accepts (.inr (decide_eq_true (Nat.le_of_not_lt past)))

/-- Nobody is let in after the expiry. -/
theorem letIn_exec (share : ∀ current, db.store.share = some current → current.expiresAt ≤ clock)
    (executed : proc.exec env db clock outcome = some (moved, effect)) (enters : letIn moved) : letIn proc := by
  cases proc with
  | put request step =>
    obtain ⟨after, call, rfl⟩ := handler_exec executed
    cases put_move call with
    | acquire => cases enters
    | check found allowed =>
      exact absurd (check_unexpired allowed) (Nat.not_lt.mpr (share _ (find_eq_some.mp found).1))
    | putBlob => rfl
    | putLost => rfl
    | upsert => rfl
    | promote _ _ promoted =>
      cases step <;> first | rfl | cases promoted
    | proceed written =>
      cases step with
      | done reply => cases call
      | setUploading plan => rfl
      | countChunks plan => rfl
      | setReady plan => rfl
      | _ => cases written
    | stop => cases enters
  | get request step =>
    obtain ⟨after, call, rfl⟩ := handler_exec executed
    rcases get_cases call with ⟨-, reply, rfl⟩ | ⟨-, rfl, rfl⟩ | ⟨current, -, rfl, found, -, open', -, -, rfl⟩ |
      ⟨_, chunk, -, rfl, -, -, rfl⟩ | ⟨_, chunk, -, rfl, rfl⟩ | ⟨_, chunk, -, rfl, rfl⟩ |
      ⟨_, inner, marked, rfl, called, rfl⟩
    · cases enters
    · cases enters
    · have past := share _ (find_eq_some.mp found).1
      rw [ShareRow.isExpired, decide_eq_true past] at open'
      cases open'
    · rfl
    · rfl
    · rfl
    · rfl
  | crashed => cases executed
  | _ =>
    obtain ⟨after, -, rfl⟩ := handler_exec executed
    cases enters

/-- A body is sent by a reader that was let in. -/
theorem sent_exec {request : GetRequest} {reply : Reply} {marked : Option MarkResult}
    (executed : proc.exec env db clock outcome = some (.get request (.done reply true marked), effect)) :
    letIn proc := by
  cases proc with
  | get other step =>
    obtain ⟨after, call, same⟩ := handler_exec executed
    cases same
    rcases get_cases call with ⟨-, reply, same⟩ | ⟨-, -, same⟩ | ⟨_, -, -, -, -, -, -, -, same⟩ |
      ⟨_, chunk, -, -, -, -, same⟩ | ⟨_, chunk, -, -, same⟩ | ⟨_, chunk, -, -, same⟩ | ⟨_, inner, marked, rfl, -, -⟩
    · cases same
    · cases same
    · cases same
    · cases same
    · cases same
    · cases same
    · rfl
  | crashed => cases executed
  | _ =>
    obtain ⟨after, -, same⟩ := handler_exec executed
    cases same

/-- The share as it was, or destroyed since; nothing of it is read or added, and only its removal goes on. -/
structure Resting (row : ShareRow) (before world : World) : Prop where
  locked : Locked world
  drained : ∀ proc ∈ world.procs, letIn proc = false
  share : ∃ new, world.db.store.share = some new ∧ SameTerms row new ∧ new.downloadCount = row.downloadCount ∧
    (new.state = row.state ∨ new.state = .destroyed)
  chunks : world.db.store.chunks = before.db.store.chunks ∨ world.db.store.chunks = ∅
  blobs : ∀ key content, world.db.store.blobs.lookup key = some content →
    before.db.store.blobs.lookup key = some content
  unsent : ∀ (pid : Nat) (request : GetRequest) (reply : Reply) (marked : Option MarkResult),
    world.procs[pid]? = some (.get request (.done reply true marked)) →
      before.procs[pid]? = some (.get request (.done reply true marked))

/-- What a statement does to a share at rest. -/
theorem Resting.store {before : World} (resting : Resting row before world) (late : since row.expiresAt event)
    (taken : (system env).step world event = some next) :
    (∃ new, next.db.store.share = some new ∧ SameTerms row new ∧ new.downloadCount = row.downloadCount ∧
      (new.state = row.state ∨ new.state = .destroyed)) := by
  obtain ⟨current, share, terms, count, state⟩ := resting.share
  rcases rewrite_cases resting.locked taken with ⟨same, -⟩ | ⟨new, events, stored, -, rewrites⟩
  · exact ⟨current, same.trans share, terms, count, state⟩
  · rw [share] at rewrites
    refine ⟨new, stored, terms.trans rewrites.sameTerms, ?_⟩
    cases rewrites with
    | @promote _ _ _ _ step _ _ _ running _ promoted =>
      have let' := resting.drained _ (List.mem_of_getElem? running)
      cases step with
      | setUploading plan => cases let'
      | setReady plan => cases let'
      | _ => cases promoted
    | @increment _ clock _ _ _ _ _ _ _ counted =>
      obtain ⟨_, _, _, _, rfl⟩ := terms
      have past : row.expiresAt ≤ clock := of_decide_eq_true late
      unfold incrementDownload at counted
      split at counted
      next live => exact absurd live.2 (Nat.not_lt.mpr past)
      next => cases counted
    | revoke => exact ⟨count, .inr rfl⟩
    | burn _ running =>
      have let' := resting.drained _ (List.mem_of_getElem? running)
      cases let'
    | reap => exact ⟨count, .inr rfl⟩

theorem Resting.data {before : World} (resting : Resting row before world)
    (taken : (system env).step world event = some next) :
    (next.db.store.chunks = world.db.store.chunks ∨ next.db.store.chunks = ∅) ∧
      ∀ key content, next.db.store.blobs.lookup key = some content → world.db.store.blobs.lookup key = some content := by
  rcases commit_cases resting.locked taken with ⟨same, -⟩ | ⟨pid, clock, outcome, proc, moved, effect, rfl, running, written, rfl⟩ |
    ⟨pid, clock, outcome, proc, moved, now, writes, rfl, running, -, last, holds, -, rfl⟩
  · rw [same]
    exact ⟨.inl rfl, fun _ _ found => found⟩
  · have let' := resting.drained _ (List.mem_of_getElem? running)
    cases written with
    | putBlob => cases let'
    | upsert => cases let'
    | @removeBlob _ _ removed =>
      refine ⟨.inl rfl, fun key content found => ?_⟩
      by_cases same : key = removed
      · subst same
        exact nomatch (AList.lookup_erase _ _).symm.trans found
      · exact (AList.lookup_erase_ne same).symm.trans found
    | _ => exact ⟨.inl rfl, fun _ _ found => found⟩
  · have let' := resting.drained _ (List.mem_of_getElem? running)
    refine ⟨?_, fun _ _ found => found⟩
    cases holds with
    | reaped => exact .inr rfl
    | burned => cases let'
    | marked => cases let'
    | _ => cases last

theorem step_resting {before : World} (resting : Resting row before world) (late : since row.expiresAt event)
    (taken : (system env).step world event = some next) : Resting row before next := by
  have past : ∀ pid clock outcome, event = .exec pid clock outcome →
      ∀ current, world.db.store.share = some current → current.expiresAt ≤ clock := by
    rintro pid clock outcome rfl current share
    obtain ⟨_, stored, ⟨_, _, _, _, rfl⟩, -⟩ := resting.share
    cases stored.symm.trans share
    exact of_decide_eq_true late
  obtain ⟨chunks, blobs⟩ := resting.data taken
  refine ⟨locked_step resting.locked taken, fun proc member => ?_, resting.store late taken, ?_,
    fun key content found => resting.blobs key content (blobs key content found), ?_⟩
  · rcases proc_origin taken member with old | ⟨request, -, rfl⟩ |
      ⟨pid, clock, outcome, mover, effect, same, running, executed⟩ | rfl
    · exact resting.drained proc old
    · cases request <;> rfl
    · by_contra enters
      have entered := letIn_exec (past _ _ _ same) executed (by simpa using enters)
      rw [resting.drained mover (List.mem_of_getElem? running)] at entered
      cases entered
    · rfl
  · rcases chunks with same | dropped
    · rw [same]
      exact resting.chunks
    · exact .inr dropped
  · intro pid request reply marked found
    rcases step_cases taken with ⟨start, rfl, rfl⟩ |
      ⟨mover, clock, outcome, proc, moved, effect, rfl, running, executed, rfl⟩ | ⟨mover, proc, rfl, running, rfl⟩
    · rcases getElem?_concat_cases found with old | ⟨-, new⟩
      · exact resting.unsent pid request reply marked old
      · cases start <;> cases new
    · rcases getElem?_set_cases found with ⟨rfl, same⟩ | ⟨-, old⟩
      · subst same
        have let' := sent_exec executed
        rw [resting.drained proc (List.mem_of_getElem? running)] at let'
        cases let'
      · exact resting.unsent pid request reply marked old
    · rcases getElem?_set_cases found with ⟨-, same⟩ | ⟨-, old⟩
      · cases same
      · exact resting.unsent pid request reply marked old

/-- After its expiry a share is at rest. Take any reachable world in which no upload and no reader
is past the checks, and any run from there in which no statement runs before the share's expiry: no
upload and no reader gets past the checks, no chunk of it is added or replaced, none of its
ciphertext is sent, no download is counted, and its state stays as it is or becomes `destroyed`. -/
theorem expired_rests (env : Env) {allowed : World → Event → Prop} {store : Store} {first later : List Event}
    {middle final : World} (before : (system env).Run allowed (World.start store) first middle)
    (share : middle.db.store.share = some row) (drained : ∀ proc ∈ middle.procs, letIn proc = false)
    (after : (system env).Run (fun _ event => since row.expiresAt event) middle later final) :
    (∀ proc ∈ final.procs, letIn proc = false) ∧
    (∃ new, final.db.store.share = some new ∧ new.downloadCount = row.downloadCount ∧
      (new.state = row.state ∨ new.state = .destroyed)) ∧
    (final.db.store.chunks = middle.db.store.chunks ∨ final.db.store.chunks = ∅) ∧
    (∀ key content, final.db.store.blobs.lookup key = some content →
      middle.db.store.blobs.lookup key = some content) ∧
    ∀ (pid : Nat) (request : GetRequest) (reply : Reply) (marked : Option MarkResult),
      final.procs[pid]? = some (.get request (.done reply true marked)) →
        middle.procs[pid]? = some (.get request (.done reply true marked)) := by
  have resting := after.invariant (Resting row middle)
    ⟨locked_reached before, drained, ⟨row, share, .refl row, rfl, .inl rfl⟩, .inl rfl, fun _ _ => id, fun _ _ _ _ => id⟩
    fun _ _ _ resting late taken => step_resting resting late taken
  obtain ⟨new, stored, -, count, state⟩ := resting.share
  exact ⟨resting.drained, ⟨new, stored, count, state⟩, resting.chunks, resting.blobs, resting.unsent⟩

/-- A share that was uploaded and never read: after its expiry a download, a reader and an upload
come in vain, and the reaper takes it away. -/
theorem expired_rests_swept : ∃ first middle later final row,
    (system sampleEnv).Run (fun _ _ => true = true) (World.start .empty) first middle ∧
    middle.db.store.share = some row ∧
    (system sampleEnv).Run (fun _ event => since row.expiresAt event) middle later final ∧
    final.procs[2]? = some (.get sampleGet (.refused (.http 410 none))) ∧
    final.db.store.state = some .destroyed ∧ (∀ proc ∈ final.procs, letIn proc = false) ∧
    ∃ new, final.db.store.share = some new ∧ new.downloadCount = row.downloadCount := by
  have replayed : ((system sampleEnv).replay (fun _ _ => true) (World.start .empty)
      (.spawn (.create sampleCreate) :: steps 0 5 3 ++ .spawn (.put samplePut) :: steps 1 6 7)).any
      (fun middle => middle.procs.all (fun proc => !letIn proc) &&
        (middle.db.store.share.any fun row => row.expiresAt = 1000) &&
        ((system sampleEnv).replay (fun _ event => since 1000 event) middle
          (.spawn (.get sampleGet) :: steps 2 1000 2 ++ .spawn (.put samplePut) :: steps 3 1000 2 ++
            .spawn (.downloaded ⟨"abcdefghjkmn"⟩) :: steps 4 1000 3 ++ .spawn .sweep :: steps 5 2000 9)).any fun final =>
          final.procs[2]? = some (.get sampleGet (.refused (.http 410 none))) &&
            final.db.store.state = some .destroyed) = true := by
    decide +kernel
  obtain ⟨middle, before, passed⟩ := System.any_replay replayed
  rw [Bool.and_eq_true, Bool.and_eq_true] at passed
  obtain ⟨⟨drained, stored⟩, continued⟩ := passed
  obtain ⟨final, after, tested⟩ := System.any_replay continued
  obtain ⟨row, share, expiry⟩ := (Option.any_eq_true _ _).mp stored
  have expiry : row.expiresAt = 1000 := of_decide_eq_true expiry
  rw [← expiry] at after
  have drained : ∀ proc ∈ middle.procs, letIn proc = false := by simpa using drained
  obtain ⟨rest, ⟨new, kept, count, -⟩, -⟩ := expired_rests sampleEnv before share drained after
  simp only [Bool.and_eq_true, decide_eq_true_eq] at tested
  exact ⟨_, middle, _, final, row, before, share, after, tested.1, tested.2, rest, new, kept, count⟩

end Expiry

end SlothBox.Proofs

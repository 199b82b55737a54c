import Mathlib.Algebra.Order.BigOperators.Group.List
import Mathlib.Algebra.Order.Group.Nat
import SlothBox.Library.Variant
import SlothBox.Proofs.Convergence
import SlothBox.Proofs.Frozen

/-! Handlers come to an end. Each statement of a handler brings it closer to its last one;
only a sweep has as many statements as there are chunk rows, and rows come from the uploads
that are still to write theirs. Nobody waits for a lock that is not given back: the holder of
the share row never waits, and while the lock is free nobody does. -/

namespace SlothBox.Proofs
open Library

def executes : Event → Bool
  | .exec .. => true
  | _ => false

def arrives : Event → Bool
  | .spawn _ => true
  | _ => false

/-- An upload that has not written its row yet. -/
def mayUpsert : Proc → Bool
  | .put _ step => !settled step
  | _ => false

/-- The chunk rows there are, and those that can still be added without another upload. -/
def rowsToCome (world : World) : Nat := world.db.store.chunks.entries.length + world.procs.countP mayUpsert

def createLeft : CreateStep → Nat
  | .acquire => 3
  | .insert => 2
  | .append _ => 1
  | .done _ => 0

def putLeft : PutStep → Nat
  | .acquire => 7
  | .readShare => 6
  | .putBlob _ => 5
  | .upsert .. => 4
  | .setUploading _ => 3
  | .countChunks _ => 2
  | .setReady _ => 1
  | .done _ => 0

def markLeft : MarkStep → Nat
  | .lockShare => 6
  | .stampChunk _ => 5
  | .countUnserved _ => 4
  | .flip _ => 3
  | .append _ => 2
  | .commit _ => 1

def getLeft : GetStep → Nat
  | .acquire => 11
  | .readShare => 10
  | .readChunk _ => 9
  | .stream .. => 8
  | .body .. => 7
  | .mark _ step => markLeft step
  | .done .. => 0

def downloadedLeft : DownloadedStep → Nat
  | .acquire => 4
  | .readShare => 3
  | .increment => 2
  | .append _ => 1
  | .done _ => 0

def destroyLeft : DestroyStep → Nat
  | .acquire => 4
  | .readShare _ => 3
  | .update => 2
  | .append _ => 1
  | .done _ => 0

/-- How many statements a handler still sends at most, when a sweep finds that many rows. -/
def statementsLeft (rows : Nat) : Proc → Nat
  | .create _ step => createLeft step
  | .put _ step => putLeft step
  | .get _ step => getLeft step
  | .downloaded _ step => downloadedLeft step
  | .destroy _ step => destroyLeft step
  | .sweep step => rank rows step
  | .crashed => 0

section Statements
variable {env : Env} {db : Database} {clock : Timestamp} {outcome : Outcome} {effect : Effect} {bound : Nat}

theorem attempt_lt {α : Type} {left : α → Nat} {success : α × Effect} {failure : Outcome → α} {moved : α}
    (attempted : attempt outcome success failure = (moved, effect)) (further : left success.1 < bound)
    (back : ∀ outcome, left (failure outcome) < bound) : left moved < bound := by
  rcases attempt_cases attempted with ⟨-, rfl, -⟩ | ⟨-, rfl, -⟩ | ⟨-, rfl, -⟩
  · exact further
  · exact back _
  · exact back _

theorem attemptRead_lt {α : Type} {left : α → Nat} {success moved : α} {failure : Outcome → α}
    (attempted : attemptRead outcome success failure = (moved, effect)) (further : left success < bound)
    (back : ∀ outcome, left (failure outcome) < bound) : left moved < bound := by
  obtain ⟨-, ⟨-, rfl⟩ | ⟨-, rfl⟩⟩ := attemptRead_cases attempted
  · exact further
  · exact back _

theorem append_lt {α : Type} {left : α → Nat} {event : AuditEvent} {after moved : α}
    (appended : appendAudit db outcome event after = some (moved, effect)) (last : left after < bound) :
    left moved < bound := by
  unfold appendAudit at appended
  split at appended
  · cases appended
  · exact attempt_lt (Option.some.inj appended) last fun _ => last

theorem createLeft_exec {request : CreateRequest} {step moved : CreateStep}
    (executed : step.exec db request clock outcome = some (moved, effect)) : createLeft moved < createLeft step := by
  cases step with
  | acquire => cases outcome <;> cases executed <;> decide
  | insert =>
    simp only [CreateStep.exec, Option.some.injEq] at executed
    split at executed
    · split at executed
      · cases executed
        exact Nat.zero_lt_two
      · exact attempt_lt executed Nat.one_lt_two fun _ => Nat.zero_lt_two
    · split at executed
      · exact attempt_lt executed Nat.one_lt_two fun _ => Nat.zero_lt_two
      · cases executed
        exact Nat.zero_lt_two
  | append event => exact append_lt executed Nat.zero_lt_one
  | done reply => cases executed

theorem putLeft_exec {request : PutRequest} {step moved : PutStep}
    (executed : step.exec env db request clock outcome = some (moved, effect)) : putLeft moved < putLeft step := by
  cases step with
  | acquire => cases outcome <;> cases executed <;> decide
  | readShare =>
    apply attemptRead_lt (Option.some.inj executed)
    · split
      · exact Nat.zero_lt_succ _
      · split
        · exact Nat.zero_lt_succ _
        · exact Nat.lt_succ_self _
    · exact fun _ => Nat.zero_lt_succ _
  | putBlob plan =>
    simp only [PutStep.exec] at executed
    split at executed
    · apply attempt_lt (Option.some.inj executed) (Nat.lt_succ_self _)
      intro outcome
      cases outcome <;> exact Nat.zero_lt_succ _
    · cases executed
      exact Nat.zero_lt_succ _
  | upsert plan uploadedAt =>
    simp only [PutStep.exec] at executed
    split at executed
    · cases executed
    · apply attempt_lt (Option.some.inj executed)
      · dsimp only
        split
        · exact Nat.lt_succ_self _
        · exact Nat.lt_succ_of_lt (Nat.lt_succ_self _)
      · exact fun _ => Nat.zero_lt_succ _
  | setUploading plan =>
    simp only [PutStep.exec] at executed
    split at executed
    · cases executed
    · exact attempt_lt (Option.some.inj executed) (Nat.lt_succ_self _) fun _ => Nat.zero_lt_succ _
  | countChunks plan =>
    apply attemptRead_lt (Option.some.inj executed)
    · split
      · exact Nat.lt_succ_self _
      · exact Nat.zero_lt_two
    · exact fun _ => Nat.zero_lt_two
  | setReady plan =>
    simp only [PutStep.exec] at executed
    split at executed
    · cases executed
    · exact attempt_lt (Option.some.inj executed) Nat.zero_lt_one fun _ => Nat.zero_lt_one
  | done reply => cases executed

theorem getLeft_exec {request : GetRequest} {step moved : GetStep}
    (executed : step.exec env db request clock outcome = some (moved, effect)) : getLeft moved < getLeft step := by
  rcases get_cases executed with ⟨-, reply, rfl⟩ | ⟨-, rfl, rfl⟩ | ⟨share, -, rfl, -, -, -, -, -, rfl⟩ |
    ⟨share, chunk, -, rfl, -, -, rfl⟩ | ⟨share, chunk, -, rfl, rfl⟩ | ⟨share, chunk, -, rfl, rfl⟩ |
    ⟨share, inner, after, rfl, call, rfl⟩
  · cases step with
    | mark share inner => cases inner <;> exact Nat.zero_lt_succ _
    | done reply sent marked => cases executed
    | _ => exact Nat.zero_lt_succ _
  · exact Nat.lt_succ_self _
  · exact Nat.lt_succ_self _
  · exact Nat.lt_succ_self _
  · exact Nat.lt_succ_self _
  · exact Nat.lt_succ_self _
  · cases mark_move call with
    | rollback => cases inner <;> exact Nat.zero_lt_succ _
    | _ => simp [getLeft, markLeft]

theorem downloadedLeft_exec {request : DownloadedRequest} {step moved : DownloadedStep}
    (executed : step.exec env db request clock outcome = some (moved, effect)) :
    downloadedLeft moved < downloadedLeft step := by
  cases downloaded_move executed with
  | stop =>
    cases step with
    | done reply => cases executed
    | _ => exact Nat.zero_lt_succ _
  | _ => simp [downloadedLeft]

theorem destroyLeft_exec {request : DestroyRequest} {step moved : DestroyStep}
    (executed : step.exec env db request clock outcome = some (moved, effect)) : destroyLeft moved < destroyLeft step := by
  cases step with
  | acquire =>
    cases executed
    split
    · exact Nat.zero_lt_succ _
    · split
      · split
        · exact Nat.zero_lt_succ _
        · exact Nat.lt_succ_self _
      · exact Nat.zero_lt_succ _
  | readShare incomingHash =>
    apply attemptRead_lt (Option.some.inj executed)
    · split
      · exact Nat.zero_lt_succ _
      · split
        · exact Nat.zero_lt_succ _
        · split
          · exact Nat.zero_lt_succ _
          · split
            · exact Nat.lt_succ_self _
            · exact Nat.zero_lt_succ _
    · exact fun _ => Nat.zero_lt_succ _
  | update =>
    simp only [DestroyStep.exec] at executed
    split at executed
    · cases executed
    · apply attempt_lt (Option.some.inj executed)
      · split
        · exact Nat.zero_lt_two
        · exact Nat.one_lt_two
      · exact fun _ => Nat.zero_lt_two
  | append destroyedId => exact append_lt executed Nat.zero_lt_one
  | done reply => cases executed

theorem rank_exec {step moved : SweepStep} {rows : Nat} (few : db.store.chunks.entries.length ≤ rows)
    (executed : step.exec db clock outcome = some (moved, effect)) : rank rows moved < rank rows step := by
  have ends : ∀ result, rank rows (.done result) < rank rows step := by
    intro result
    cases step with
    | done result => cases executed
    | _ => exact Nat.zero_lt_succ _
  cases sweep_move executed with
  | @fetchChunkKeys id =>
    have left := rank_remaining rows id db.store.chunks.entries.length (db.store.chunks.entries.map (·.2.blobKey))
    rw [List.length_map] at left
    exact Nat.lt_succ_of_le (Nat.le_trans left (Nat.add_le_add_right few 7))
  | removeBlob => exact Nat.lt_of_le_of_lt (rank_remaining _ _ _ _) (Nat.lt_succ_self _)
  | idle => exact ends _
  | removeLost => exact ends _
  | gone => exact ends _
  | commit => exact ends _
  | commitLost => exact ends _
  | fail => exact ends _
  | rollback => exact ends _
  | _ => exact Nat.lt_succ_self _

/-- One statement is one less to come. -/
theorem statementsLeft_exec {proc moved : Proc} {rows : Nat} (few : db.store.chunks.entries.length ≤ rows)
    (executed : proc.exec env db clock outcome = some (moved, effect)) :
    statementsLeft rows moved < statementsLeft rows proc := by
  cases proc with
  | crashed => cases executed
  | create request step =>
    obtain ⟨after, call, rfl⟩ := handler_exec executed
    exact createLeft_exec call
  | put request step =>
    obtain ⟨after, call, rfl⟩ := handler_exec executed
    exact putLeft_exec call
  | get request step =>
    obtain ⟨after, call, rfl⟩ := handler_exec executed
    exact getLeft_exec call
  | downloaded request step =>
    obtain ⟨after, call, rfl⟩ := handler_exec executed
    exact downloadedLeft_exec call
  | destroy request step =>
    obtain ⟨after, call, rfl⟩ := handler_exec executed
    exact destroyLeft_exec call
  | sweep step =>
    obtain ⟨after, call, rfl⟩ := handler_exec executed
    exact rank_exec few call

end Statements

/-! ### The rows a sweep finds -/

theorem length_insert {α : Type} (rows : AList fun _ : Nat => α) (index : Nat) (row : α) :
    (rows.insert index row).entries.length ≤ rows.entries.length + 1 ∧
      ((rows.lookup index).isSome → (rows.insert index row).entries.length = rows.entries.length) := by
  have counted : (rows.insert index row).entries.length = (rows.keys.erase index).length + 1 := by
    rw [← List.length_map Sigma.fst]
    exact congrArg List.length (AList.keys_insert rows)
  have keys : rows.keys.length = rows.entries.length := List.length_map _
  constructor
  · have shorter : (rows.keys.erase index).length ≤ rows.keys.length := List.length_erase_le
    omega
  · intro present
    have member : index ∈ rows.keys := AList.lookup_isSome.mp present
    have shorter := List.length_erase_of_mem member
    have some := List.length_pos_of_mem member
    omega

section Steps
variable {env : Env} {world next : World} {event : Event} {pid : Nat} {clock : Timestamp} {outcome : Outcome}
  {proc moved : Proc} {effect : Effect}

theorem settled_of_upsert {request : PutRequest} {plan : PutPlan} {uploadedAt : Timestamp} {db : Database} {after : PutStep}
    (executed : (PutStep.upsert plan uploadedAt).exec env db request clock outcome = some (after, effect)) : settled after := by
  cases put_move executed with
  | upsert _ _ next => exact next
  | promote _ _ promoted => cases promoted
  | proceed written => cases written
  | stop => rfl

/-- An upload that has written its row has no other to write. -/
theorem settled_exec {request : PutRequest} {db : Database} {step after : PutStep} (written : settled step)
    (executed : step.exec env db request clock outcome = some (after, effect)) : settled after := by
  cases put_move executed with
  | promote _ _ _ _ next => exact next
  | proceed _ next => exact next
  | stop => rfl
  | _ => cases written

theorem mayUpsert_exec {db : Database} (executed : proc.exec env db clock outcome = some (moved, effect))
    (may : mayUpsert moved) : mayUpsert proc := by
  cases proc with
  | crashed => cases executed
  | put request step =>
    obtain ⟨after, call, rfl⟩ := handler_exec executed
    by_contra written
    have further := settled_exec (by simpa [mayUpsert] using written) call
    simp [mayUpsert, further] at may
  | _ =>
    obtain ⟨after, call, rfl⟩ := handler_exec executed
    cases may

/-- A transaction adds no chunk row. -/
theorem rows_of_commit {db : Database} {now : Timestamp} {writes : WriteSet} (stamped : Stamped db)
    (opened : db.tx = some ⟨pid, now, writes⟩) (holds : Holds db.store now proc writes) :
    (writes.apply db.store).chunks.entries.length ≤ db.store.chunks.entries.length := by
  have staged : ∀ chunk : Nat × ChunkRow, writes.chunk = some chunk →
      (db.store.chunks.insert chunk.1 chunk.2).entries.length ≤ db.store.chunks.entries.length := by
    intro chunk wrote
    obtain ⟨old, found, -⟩ := stamped _ chunk.1 chunk.2 opened wrote
    exact Nat.le_of_eq ((length_insert _ _ _).2 (by rw [found]; rfl))
  cases holds with
  | countUnserved => exact staged _ rfl
  | flip => exact staged _ rfl
  | appendBurned => exact staged _ rfl
  | burned => exact staged _ rfl
  | @marked _ _ _ _ chunk =>
    cases chunk with
    | none => exact Nat.le_refl _
    | some chunk => exact staged chunk rfl
  | stampChunk => exact Nat.le_refl _
  | deleteChunks => exact Nat.le_refl _
  | update => exact Nat.zero_le _
  | rereadDestroyedAt => exact Nat.zero_le _
  | appendReaped => exact Nat.zero_le _
  | reaped => exact Nat.zero_le _

/-- A statement adds a row only for an upload that was still to write it. -/
theorem rows_exec (locked : Locked world) (stamped : Stamped world.db) (running : world.procs[pid]? = some proc)
    (executed : proc.exec env world.db clock outcome = some (moved, effect)) :
    (world.db.apply pid effect).store.chunks.entries.length + (mayUpsert moved).toNat ≤
      world.db.store.chunks.entries.length + (mayUpsert proc).toNat := by
  have fewer : (mayUpsert moved).toNat ≤ (mayUpsert proc).toNat := by
    apply Bool.toNat_le_toNat
    exact mayUpsert_exec executed
  have kept : (world.db.apply pid effect).store.chunks.entries.length ≤ world.db.store.chunks.entries.length →
      (world.db.apply pid effect).store.chunks.entries.length + (mayUpsert moved).toNat ≤
        world.db.store.chunks.entries.length + (mayUpsert proc).toNat := fun rows => Nat.add_le_add rows fewer
  cases place : inside proc with
  | true =>
    obtain ⟨now, writes, opened, holds⟩ := locked.held pid proc running place
    apply kept
    rcases holds_exec opened holds executed with ⟨-, more, after, -⟩ | ⟨-, -, after⟩ | ⟨-, -, -, after⟩
    · rw [after]
    · rw [after]
    · rw [after]
      exact rows_of_commit stamped opened holds
  | false =>
    cases exec_writes place executed with
    | @upsert request plan uploadedAt after =>
      obtain ⟨_, call, same⟩ := handler_exec executed
      cases same
      have written : mayUpsert (.put request after) = false := by simp [mayUpsert, settled_of_upsert call]
      rw [written]
      exact (length_insert world.db.store.chunks plan.index (upsertChunk world.db.store plan.index plan.nonce plan.blobKey
        plan.ciphertextSize uploadedAt plan.downloadTokenHash)).1
    | _ => exact kept (Nat.le_refl _)

/-- Nothing is added to the rows to come but by another upload. -/
theorem rowsToCome_step (locked : Locked world) (stamped : Stamped world.db) (closed : arrives event = false)
    (taken : (system env).step world event = some next) : rowsToCome next ≤ rowsToCome world := by
  rcases step_cases taken with ⟨request, rfl, -⟩ |
    ⟨pid, clock, outcome, proc, moved, effect, rfl, running, executed, rfl⟩ | ⟨pid, proc, rfl, running, rfl⟩
  · cases closed
  · have counted := countP_set_add mayUpsert moved running
    have rows := rows_exec locked stamped running executed
    unfold rowsToCome
    dsimp only
    omega
  · have counted := countP_set_add mayUpsert .crashed running
    unfold rowsToCome
    rw [disconnect_store]
    dsimp only [mayUpsert, Bool.toNat_false] at counted ⊢
    omega

theorem rank_mono {rows more : Nat} (grown : rows ≤ more) (step : SweepStep) : rank rows step ≤ rank more step := by
  cases step with
  | fetchReapable => exact Nat.add_le_add_right grown 9
  | fetchChunkKeys id => exact Nat.add_le_add_right grown 8
  | _ => exact Nat.le_refl _

theorem statementsLeft_mono {rows more : Nat} (grown : rows ≤ more) (proc : Proc) :
    statementsLeft rows proc ≤ statementsLeft more proc := by
  cases proc with
  | sweep step => exact rank_mono grown step
  | _ => exact Nat.le_refl _

/-- The statements still to come, for sweeps that find that many rows. -/
def statementsToCome (rows : Nat) (world : World) : Nat := (world.procs.map (statementsLeft rows)).sum

theorem statementsToCome_step {rows : Nat} (few : rowsToCome world ≤ rows) (closed : arrives event = false)
    (taken : (system env).step world event = some next) :
    statementsToCome rows next + (executes event).toNat ≤ statementsToCome rows world := by
  rcases step_cases taken with ⟨request, rfl, -⟩ |
    ⟨pid, clock, outcome, proc, moved, effect, rfl, running, executed, rfl⟩ | ⟨pid, proc, rfl, running, rfl⟩
  · cases closed
  · have summed := sum_set_add (statementsLeft rows) moved running
    have less := statementsLeft_exec (Nat.le_trans (Nat.le_add_right _ (world.procs.countP mayUpsert)) few) executed
    change ((world.procs.set pid moved).map (statementsLeft rows)).sum + 1 ≤ (world.procs.map (statementsLeft rows)).sum
    omega
  · have summed := sum_set_add (statementsLeft rows) .crashed running
    exact Nat.le_of_add_right_le (Nat.le_of_eq summed)

/-- What is still to come in a world that no further request reaches. -/
def work (world : World) : Nat := statementsToCome (rowsToCome world) world

theorem work_step (locked : Locked world) (stamped : Stamped world.db) (closed : arrives event = false)
    (taken : (system env).step world event = some next) : work next + (executes event).toNat ≤ work world := by
  have shrunk : work next ≤ statementsToCome (rowsToCome world) next :=
    List.sum_le_sum fun proc _ => statementsLeft_mono (rowsToCome_step locked stamped closed taken) proc
  have spent := statementsToCome_step (Nat.le_refl _) closed taken
  unfold work at shrunk ⊢
  omega

/-! ### Who can go on -/

/-- The holder of the share row never waits. -/
theorem inside_enabled (db : Database) (clock : Timestamp) (outcome : Outcome) (within : inside proc) :
    ∃ moved effect, proc.exec env db clock outcome = some (moved, effect) := by
  cases proc with
  | get request step =>
    cases step with
    | mark share step =>
      have called : ∃ result, step.exec db share.id request.chunkIndex.toNat clock outcome = some result := by
        cases step with
        | lockShare => cases within
        | _ => exact ⟨_, rfl⟩
      obtain ⟨result, call⟩ := called
      simp only [Proc.exec, GetStep.exec, call, Option.map_some]
      exact ⟨_, _, rfl⟩
    | _ => cases within
  | sweep step =>
    have going : ∀ result, step ≠ .done result := by
      rintro result rfl
      cases within
    obtain ⟨after, effect, call⟩ := sweep_enabled db clock outcome going
    simp only [Proc.exec, call, Option.map_some]
    exact ⟨_, _, rfl⟩
  | _ => cases within

/-- While the share row is not locked, nobody waits. -/
theorem unlocked_enabled {db : Database} (clock : Timestamp) (outcome : Outcome) (free : db.tx = none)
    (live : proc.finished = false) : ∃ moved effect, proc.exec env db clock outcome = some (moved, effect) := by
  have open' : db.blocksAppend = false := by rw [Database.blocksAppend, free]; rfl
  have writable : ∀ index, db.blocksUpsert index = false := fun index => by rw [Database.blocksUpsert, free]
  have unlocked : ¬db.tx.isSome := by rw [free]; exact Bool.false_ne_true
  cases proc with
  | crashed => cases live
  | create request step =>
    cases step with
    | append event =>
      simp only [Proc.exec, CreateStep.exec, appendAudit, open', Bool.false_eq_true, ↓reduceIte, Option.map_some]
      exact ⟨_, _, rfl⟩
    | done reply => cases live
    | _ => exact ⟨_, _, rfl⟩
  | put request step =>
    cases step with
    | putBlob plan =>
      simp only [Proc.exec, PutStep.exec]
      split <;> exact ⟨_, _, rfl⟩
    | upsert plan uploadedAt =>
      simp only [Proc.exec, PutStep.exec, writable, Bool.false_eq_true, ↓reduceIte, Option.map_some]
      exact ⟨_, _, rfl⟩
    | setUploading plan =>
      simp only [Proc.exec, PutStep.exec, if_neg unlocked, Option.map_some]
      exact ⟨_, _, rfl⟩
    | setReady plan =>
      simp only [Proc.exec, PutStep.exec, if_neg unlocked, Option.map_some]
      exact ⟨_, _, rfl⟩
    | done reply => cases live
    | _ => exact ⟨_, _, rfl⟩
  | get request step =>
    cases step with
    | mark share step =>
      have called : ∃ result, step.exec db share.id request.chunkIndex.toNat clock outcome = some result := by
        cases step with
        | lockShare =>
          simp only [MarkStep.exec, if_neg unlocked]
          exact ⟨_, rfl⟩
        | _ => exact ⟨_, rfl⟩
      obtain ⟨result, call⟩ := called
      simp only [Proc.exec, GetStep.exec, call, Option.map_some]
      exact ⟨_, _, rfl⟩
    | done reply sent marked => cases live
    | _ => exact ⟨_, _, rfl⟩
  | downloaded request step =>
    cases step with
    | increment =>
      simp only [Proc.exec, DownloadedStep.exec, if_neg unlocked, Option.map_some]
      exact ⟨_, _, rfl⟩
    | append updated =>
      simp only [Proc.exec, DownloadedStep.exec, appendAudit, open', Bool.false_eq_true, ↓reduceIte, Option.map_some]
      exact ⟨_, _, rfl⟩
    | done reply => cases live
    | _ => exact ⟨_, _, rfl⟩
  | destroy request step =>
    cases step with
    | update =>
      simp only [Proc.exec, DestroyStep.exec, if_neg unlocked, Option.map_some]
      exact ⟨_, _, rfl⟩
    | append destroyedId =>
      simp only [Proc.exec, DestroyStep.exec, appendAudit, open', Bool.false_eq_true, ↓reduceIte, Option.map_some]
      exact ⟨_, _, rfl⟩
    | done reply => cases live
    | _ => exact ⟨_, _, rfl⟩
  | sweep step =>
    have going : ∀ result, step ≠ .done result := by
      rintro result rfl
      cases live
    obtain ⟨after, effect, call⟩ := sweep_enabled db clock outcome going
    simp only [Proc.exec, call, Option.map_some]
    exact ⟨_, _, rfl⟩

/-- Until everybody is done, somebody can go on, however its next call ends. -/
theorem somebody_enabled (env : Env) (locked : Locked world) (busy : world.quiet = false) :
    ∃ pid, ∀ clock outcome, ∃ next, (system env).step world (.exec pid clock outcome) = some next := by
  have going : ∀ (pid : Nat) (proc : Proc), world.procs[pid]? = some proc →
      (∀ clock outcome, ∃ moved effect, proc.exec env world.db clock outcome = some (moved, effect)) →
      ∃ pid, ∀ clock outcome, ∃ next, (system env).step world (.exec pid clock outcome) = some next := by
    intro pid proc running enabled
    refine ⟨pid, fun clock outcome => ?_⟩
    obtain ⟨moved, effect, executed⟩ := enabled clock outcome
    exact ⟨⟨world.db.apply pid effect, world.procs.set pid moved⟩, by simp [system, World.step, running, executed]⟩
  cases opened : world.db.tx with
  | some tx =>
    obtain ⟨proc, running, within⟩ := locked.holder tx opened
    exact going _ proc running fun clock outcome => inside_enabled _ clock outcome within
  | none =>
    obtain ⟨proc, member, live⟩ := List.all_eq_false.mp busy
    obtain ⟨pid, running⟩ := List.mem_iff_getElem?.mp member
    exact going pid proc running fun clock outcome => unlocked_enabled clock outcome opened (by simpa using live)

/-- What stays to be done bounds the statements of every run in which no request arrives. -/
def draining (env : Env) : Library.Variant (system env) (fun _ event => arrives event = false) executes where
  measure := work
  invariant world := Locked world ∧ Stamped world.db
  preserved _ _ _ kept _ taken := ⟨locked_step kept.1 taken, stamped_step kept.1 kept.2 taken⟩
  decreases _ _ _ kept closed taken := work_step kept.1 kept.2 closed taken

theorem arrival_left (rows : Nat) (request : Request) : statementsLeft rows request.start ≤ rows + 11 := by
  cases request <;> simp only [Request.start, statementsLeft, createLeft, putLeft, getLeft, downloadedLeft, destroyLeft,
    rank] <;> omega

theorem stamped_reached {allowed : World → Event → Prop} {store : Store} {events : List Event}
    (run : (system env).Run allowed (World.start store) events world) : Stamped world.db :=
  (run.invariant (fun world => Locked world ∧ Stamped world.db) ⟨locked_start store, .closed rfl⟩
    fun _ _ _ kept _ taken => ⟨locked_step kept.1 taken, stamped_step kept.1 kept.2 taken⟩).2

/-- Each request brings a bounded number of statements along, and at most one row. -/
theorem run_spent {allowed : World → Event → Prop} {store : Store} {events : List Event}
    (run : (system env).Run allowed (World.start store) events world) :
    rowsToCome world ≤ store.chunks.entries.length + events.countP arrives ∧
      ∀ rows, store.chunks.entries.length + events.countP arrives ≤ rows →
        events.countP executes + statementsToCome rows world ≤ events.countP arrives * (rows + 11) := by
  induction run with
  | nil => exact ⟨Nat.le_refl _, fun rows _ => Nat.zero_le _⟩
  | @snoc events state event next before permitted taken ih =>
    obtain ⟨few, spent⟩ := ih
    have locked := locked_reached before
    have stamped := stamped_reached before
    rw [List.countP_append, List.countP_append, List.countP_singleton, List.countP_singleton]
    cases arrived : arrives event with
    | false =>
      have rows := rowsToCome_step locked stamped arrived taken
      refine ⟨Nat.le_trans rows few, fun bound many => ?_⟩
      have less := statementsToCome_step (Nat.le_trans few many) arrived taken
      have before := spent bound many
      cases worked : executes event with
      | false =>
        rw [worked] at less
        simp only [Bool.false_eq_true, if_false, Bool.toNat_false, Nat.add_zero] at less ⊢
        omega
      | true =>
        rw [worked] at less
        simp only [Bool.false_eq_true, if_true, if_false, Bool.toNat_true, Nat.add_zero] at less ⊢
        omega
    | true =>
      cases event with
      | spawn request =>
        cases taken
        simp only [executes, if_true, Bool.false_eq_true, if_false, Nat.add_zero]
        constructor
        · have counted : (state.procs ++ [request.start]).countP mayUpsert =
              state.procs.countP mayUpsert + [request.start].countP mayUpsert := List.countP_append
          have single : [request.start].countP mayUpsert ≤ 1 := List.countP_le_length
          unfold rowsToCome at few ⊢
          dsimp only at few ⊢
          omega
        · intro bound many
          have before := spent bound (Nat.le_of_succ_le many)
          have brought := arrival_left bound request
          have total : statementsToCome bound { state with procs := state.procs ++ [request.start] } =
              statementsToCome bound state + statementsLeft bound request.start := by
            simp [statementsToCome]
          rw [total, Nat.add_mul, Nat.one_mul]
          omega
      | exec => cases arrived
      | crash => cases arrived

/-- No handler of one share runs for ever and none waits for ever. A run with so many requests
has no more statements than their number times the rows it started with, itself and eleven;
until every handler is done one of them can go on, whatever clock its next call reads and
however the call ends; and so, against any answers, all of them can be brought to their end. -/
theorem handlers_finish (env : Env) {allowed : World → Event → Prop} {store : Store} {events : List Event} {world : World}
    (run : (system env).Run allowed (World.start store) events world) :
    events.countP executes ≤
      events.countP arrives * (store.chunks.entries.length + events.countP arrives + 11) ∧
    (world.quiet = false →
      ∃ pid, ∀ clock outcome, ∃ next, (system env).step world (.exec pid clock outcome) = some next) ∧
    ∀ answers : World → Nat → Timestamp × Outcome, ∃ more final,
      (system env).Run (fun world event => ∃ pid, event = .exec pid (answers world pid).1 (answers world pid).2)
        world more final ∧ final.quiet := by
  have locked := locked_reached run
  refine ⟨?_, somebody_enabled env locked, fun answers => ?_⟩
  · have spent := (run_spent run).2 _ (Nat.le_refl _)
    omega
  · apply (draining env).settles
    · rintro state event ⟨pid, rfl⟩
      exact ⟨rfl, rfl⟩
    · intro state kept
      cases busy : state.quiet with
      | true => exact .inl rfl
      | false =>
        obtain ⟨pid, enabled⟩ := somebody_enabled env kept.1 busy
        obtain ⟨next, taken⟩ := enabled (answers state pid).1 (answers state pid).2
        exact .inr ⟨_, next, ⟨pid, rfl⟩, taken⟩
    · exact ⟨locked, stamped_reached run⟩

end Steps

/-- A reader inside `mark_chunk_served`, and another download that waits for its lock. -/
theorem handlers_finish_waiting : ∃ world,
    world.db.tx.isSome ∧
    (∀ clock outcome, (system sampleEnv).step world (.exec 1 clock outcome) = none) ∧
    (∃ pid, ∀ clock outcome, ∃ next, (system sampleEnv).step world (.exec pid clock outcome) = some next) ∧
    ∀ answers : World → Nat → Timestamp × Outcome, ∃ more final,
      (system sampleEnv).Run (fun world event => ∃ pid, event = .exec pid (answers world pid).1 (answers world pid).2)
        world more final ∧ final.quiet := by
  have replayed : ((system sampleEnv).replay (fun _ _ => true) (World.start sampleReady)
      (.spawn (.get sampleGet) :: .spawn (.downloaded ⟨"abcdefghjkmn"⟩) :: steps 0 7 6 ++ steps 1 7 2)).any
      (fun world => world.db.tx.isSome && !world.quiet &&
        decide (world.procs[1]? = some (.downloaded ⟨"abcdefghjkmn"⟩ .increment))) = true := by
    decide +kernel
  obtain ⟨world, run, passed⟩ := System.any_replay replayed
  simp only [Bool.and_eq_true, decide_eq_true_eq, Bool.not_eq_true'] at passed
  obtain ⟨⟨held, busy⟩, waiting⟩ := passed
  obtain ⟨-, enabled, ended⟩ := handlers_finish sampleEnv run
  refine ⟨world, held, fun clock outcome => ?_, enabled busy, ended⟩
  simp [system, World.step, waiting, Proc.exec, DownloadedStep.exec, held]

end SlothBox.Proofs

import SlothBox.Proofs.Locking

/-! A party that knows the short id and no token. Reading and revoking are gated by token
hashes; `POST /downloaded` is not, and a chunk row without a hash lets everybody read. -/

namespace SlothBox.Proofs
open Library

/-- Requests of one party, before the share's time is up. A chunk token or a revoke token that it
presents never hashes to the hash it is compared with. -/
def outsider (env : Env) (world : World) : Event → Bool
  | .spawn (.create _) | .spawn .sweep => false
  | .spawn _ | .crash _ => true
  | .exec pid clock _ =>
    world.db.store.share.all (fun row => !row.isExpired clock) &&
      match world.procs[pid]? with
      | some (.get request (.readChunk _)) =>
        (world.db.store.chunks.lookup request.chunkIndex.toNat).all fun chunk =>
          chunk.downloadTokenHash.all fun stored => extractChunkTokenHash env.sha256 request.authorization ≠ some stored
      | some (.destroy _ (.readShare incomingHash)) =>
        world.db.store.share.all fun row => row.revokeTokenHash ≠ some incomingHash
      | _ => true

/-- `increment_download` is called on a share that this ends, or a chunk of a share that burns is
read from a row without a token hash. -/
def endsUngated (world : World) : Event → Bool
  | .exec pid clock outcome =>
    match world.procs[pid]? with
    | some (.downloaded request .increment) =>
      takesEffect outcome && (world.db.store.find request.shortId).any fun row =>
        row.canServeDownloads && !row.isExpired clock &&
          (row.burnAfterRead || row.maxDownloads.any (· ≤ row.downloadCount + 1))
    | some (.get request (.readChunk share)) =>
      outcome = .ok && share.burnAfterRead &&
        (world.db.store.chunks.lookup request.chunkIndex.toNat).any fun chunk =>
          chunk.downloadTokenHash.isNone && chunk.servedAt.isNone
    | _ => false
  | _ => false

/-- Without a token nobody gets as far as the end of a share. -/
def Ungated (burns : Bool) : Proc → Prop
  | .create .. | .sweep _ | .destroy _ .update => False
  | .get _ (.readChunk share) => share.burnAfterRead = burns
  | .get _ (.stream ..) | .get _ (.body ..) | .get _ (.mark ..) => burns = false
  | _ => True

structure Unended (burns : Bool) (world : World) : Prop where
  share : ∃ row, world.db.store.share = some row ∧ row.burnAfterRead = burns ∧ row.state.terminal = false
  procs : ∀ proc ∈ world.procs, Ungated burns proc

section Step
variable {env : Env} {burns : Bool} {world next : World} {event : Event} {pid : Nat} {clock : Timestamp}
  {outcome : Outcome}

/-- A reader passes the check by a matching token, or where none is asked for. -/
theorem token_of_check {request : GetRequest} {share : ShareRow} {chunk : ChunkRow}
    (passed : request.check env share chunk = .ok ()) (burns : share.burnAfterRead) :
    chunk.servedAt = none ∧ (chunk.downloadTokenHash = none ∨
      ∃ stored, chunk.downloadTokenHash = some stored ∧ extractChunkTokenHash env.sha256 request.authorization = some stored) := by
  simp only [GetRequest.check, bind_ok, refuseIf_ok] at passed
  obtain ⟨-, fresh, gate⟩ := passed
  refine ⟨by simpa [burns] using fresh, ?_⟩
  split at gate
  next absent => exact .inl absent
  next stored present =>
    split at gate
    · cases gate
    next incoming presented =>
      have same : incoming = stored := by simpa using gate
      exact .inr ⟨stored, present, by rw [presented, same]⟩

theorem readChunk_ungated {request : GetRequest} {share : ShareRow} {chunk : ChunkRow}
    (running : world.procs[pid]? = some (.get request (.readChunk share)))
    (party : outsider env world (.exec pid clock .ok)) (permitted : endsUngated world (.exec pid clock .ok) = false)
    (found : world.db.store.chunks.lookup request.chunkIndex.toNat = some chunk)
    (passed : request.check env share chunk = .ok ()) : share.burnAfterRead = false := by
  by_contra burning
  have burning : share.burnAfterRead = true := by simpa using burning
  obtain ⟨fresh, absent | ⟨stored, present, presented⟩⟩ := token_of_check passed burning
  · simp [endsUngated, running, found, burning, fresh, absent] at permitted
  · simp [outsider, running, found, present, presented] at party

private theorem outcome_of_stream {db : Database} {request : GetRequest} {share : ShareRow} {chunk : ChunkRow}
    {effect : Effect} (executed : (GetStep.readChunk share).exec env db request clock outcome =
      some (.stream share chunk, effect)) : outcome = .ok := by
  rw [GetStep.exec, Option.some.injEq] at executed
  obtain ⟨-, ⟨ok, -⟩ | ⟨-, refused⟩⟩ := attemptRead_cases executed
  · exact ok
  · cases refused

theorem get_ungated {request : GetRequest} {step moved : GetStep} {effect : Effect}
    (unended : Unended burns world) (running : world.procs[pid]? = some (.get request step))
    (party : outsider env world (.exec pid clock outcome)) (permitted : endsUngated world (.exec pid clock outcome) = false)
    (executed : step.exec env world.db request clock outcome = some (moved, effect)) : Ungated burns (.get request moved) := by
  have valid := unended.procs _ (List.mem_of_getElem? running)
  rcases get_cases executed with ⟨-, reply, rfl⟩ | ⟨-, -, rfl⟩ | ⟨share, -, -, found, -, -, -, -, rfl⟩ |
    ⟨share, chunk, -, rfl, found, passed, rfl⟩ | ⟨share, chunk, -, rfl, rfl⟩ | ⟨share, chunk, -, rfl, rfl⟩ |
    ⟨share, inner, marked, rfl, -, rfl⟩
  · trivial
  · trivial
  · obtain ⟨row, stored, kept, -⟩ := unended.share
    cases stored.symm.trans (find_eq_some.mp found).1
    exact kept
  · obtain rfl := outcome_of_stream executed
    have kept := readChunk_ungated running party permitted found passed
    rw [valid] at kept
    exact kept
  · exact valid
  · exact valid
  · cases marked with
    | inl next => exact valid
    | inr result => trivial

theorem destroy_ungated {request : DestroyRequest} {step moved : DestroyStep} {effect : Effect}
    (running : world.procs[pid]? = some (.destroy request step))
    (valid : Ungated burns (.destroy request step)) (party : outsider env world (.exec pid clock outcome))
    (executed : step.exec env world.db request clock outcome = some (moved, effect)) :
    Ungated burns (.destroy request moved) := by
  cases step with
  | acquire =>
    cases executed
    split
    · trivial
    · split
      · split <;> trivial
      · trivial
  | readShare incomingHash =>
    rw [DestroyStep.exec, Option.some.injEq] at executed
    obtain ⟨rfl, ⟨-, rfl⟩ | ⟨-, rfl⟩⟩ := attemptRead_cases executed
    · split
      next => trivial
      next row found =>
        split
        · trivial
        · split
          next => trivial
          next stored present =>
            split
            next same =>
              -- the token would have to match
              simp [outsider, running, (find_eq_some.mp found).1, present, same] at party
            next => trivial
    · trivial
  | update => exact valid.elim
  | append destroyedId =>
    simp only [DestroyStep.exec, appendAudit] at executed
    split at executed
    · cases executed
    · rcases attempt_cases (Option.some.inj executed) with ⟨-, rfl, rfl⟩ | ⟨-, rfl, rfl⟩ | ⟨-, rfl, rfl⟩ <;> trivial
  | done reply => cases executed

theorem exec_ungated {proc moved : Proc} {effect : Effect} (unended : Unended burns world)
    (running : world.procs[pid]? = some proc) (party : outsider env world (.exec pid clock outcome))
    (permitted : endsUngated world (.exec pid clock outcome) = false)
    (executed : proc.exec env world.db clock outcome = some (moved, effect)) : Ungated burns moved := by
  have valid := unended.procs proc (List.mem_of_getElem? running)
  cases proc with
  | create request step => exact valid.elim
  | put request step =>
    obtain ⟨after, -, rfl⟩ := handler_exec executed
    trivial
  | get request step =>
    obtain ⟨after, call, rfl⟩ := handler_exec executed
    exact get_ungated unended running party permitted call
  | downloaded request step =>
    obtain ⟨after, -, rfl⟩ := handler_exec executed
    trivial
  | destroy request step =>
    obtain ⟨after, call, rfl⟩ := handler_exec executed
    exact destroy_ungated running valid party call
  | sweep step => exact valid.elim
  | crashed => cases executed

/-- No statement that is left to the party ends the share. -/
theorem rewrite_unended {row new : ShareRow} {events : List AuditEvent} (burnable : Burnable world)
    (unended : Unended burns world) (share : world.db.store.share = some row) (live : row.state.terminal = false)
    (permitted : endsUngated world event = false) (rewrites : Rewrites world event (some row) new events) :
    new.state.terminal = false := by
  cases rewrites with
  | promote running executed promoted => rcases promotion_state promoted with rfl | rfl <;> rfl
  | @increment _ clock _ _ _ _ running executed named counted =>
    have found := find_eq_some.mpr ⟨share, named⟩
    unfold incrementDownload at counted
    split at counted
    next servable =>
      have serves : row.canServeDownloads = true := by simpa [ShareRow.canServeDownloads] using servable.1
      have early : row.isExpired clock = false := by simpa [ShareRow.isExpired] using servable.2
      simp only [endsUngated, running, executed, found, Option.any_some, serves, early, Bool.not_false, Bool.and_self,
        Bool.true_and, Bool.or_eq_false_iff] at permitted
      cases counted
      simpa [permitted] using live
    next => cases counted
  | revoke running => exact (unended.procs _ (List.mem_of_getElem? running)).elim
  | burn ready running =>
    obtain ⟨burned, found, burning⟩ := burnable _ (List.mem_of_getElem? running) rfl
    have kept : burns = false := unended.procs _ (List.mem_of_getElem? running)
    obtain ⟨current, stored, same, -⟩ := unended.share
    cases stored.symm.trans found
    simp [kept, burning] at same
  | reap running => exact (unended.procs _ (List.mem_of_getElem? running)).elim

theorem unended_step (locked : Locked world) (burnable : Burnable world) (unended : Unended burns world)
    (party : outsider env world event) (permitted : endsUngated world event = false)
    (taken : (system env).step world event = some next) : Unended burns next := by
  constructor
  · obtain ⟨row, share, same, live⟩ := unended.share
    rcases rewrite_cases locked taken with ⟨kept, -⟩ | ⟨new, events, stored, -, rewrites⟩
    · exact ⟨row, kept.trans share, same, live⟩
    · rw [share] at rewrites
      exact ⟨new, stored, rewrites.sameTerms.burnAfterRead.trans same,
        rewrite_unended burnable unended share live permitted rewrites⟩
  · intro proc member
    rcases proc_origin taken member with old | ⟨request, rfl, rfl⟩ |
      ⟨pid, clock, outcome, mover, effect, rfl, running, executed⟩ | rfl
    · exact unended.procs proc old
    · cases request <;> trivial
    · exact exec_ungated unended running party permitted executed
    · trivial

end Step

/-- A party without tokens does not end a live share, in any sequence of requests in which it neither
has a download counted that ends the share nor reads a chunk of a burning share that has no token hash. -/
theorem outsider_cannot_end (env : Env) {store : Store} {row : ShareRow} {events : List Event} {world : World}
    (share : store.share = some row) (live : row.state.terminal = false)
    (run : (system env).Run (fun world event => outsider env world event ∧ endsUngated world event = false)
      (World.start store) events world) : world.db.store.ended = false := by
  have kept := run.invariant (fun world => (Locked world ∧ Burnable world) ∧ Unended row.burnAfterRead world)
    ⟨⟨locked_start store, fun _ member => by cases member⟩, ⟨row, share, rfl, live⟩, fun _ member => by cases member⟩
    fun _ _ _ kept permitted taken => ⟨⟨locked_step kept.1.1 taken, burnable_step kept.1.1 kept.1.2 taken⟩,
      unended_step kept.1.1 kept.1.2 kept.2 permitted.1 permitted.2 taken⟩
  obtain ⟨-, ⟨current, stored, -, alive⟩, -⟩ := kept
  rw [Store.ended, stored, Option.any_some]
  exact alive

/-- The sample share withstands a read without a token, a foreign revoke token and an upload. -/
theorem outsider_cannot_end_refused : ∃ events world,
    (system sampleEnv).Run (fun world event => outsider sampleEnv world event ∧ endsUngated world event = false)
      (World.start sampleReady) events world ∧
    world.procs = [.get { sampleGet with authorization := none } (.refused (.http 401 none)),
      .destroy { sampleDestroy with authorization := some "Bearer BBBBBBBBBBBBBBBBBBBBBBBBBBBBBBBBBBBBBBBBBBB" }
        (.done (.exception 403 "invalid revoke token")),
      .put samplePut (.done (.http 410 none))] ∧
    world.db.store.ended = false := by
  have replayed : ((system sampleEnv).replay (fun world event => outsider sampleEnv world event && !endsUngated world event)
      (World.start sampleReady) (.spawn (.get { sampleGet with authorization := none }) :: steps 0 7 3 ++
        .spawn (.destroy { sampleDestroy with authorization := some "Bearer BBBBBBBBBBBBBBBBBBBBBBBBBBBBBBBBBBBBBBBBBBB" }) ::
        steps 1 8 2 ++ .spawn (.put samplePut) :: steps 2 9 2)).any (fun world => world.procs =
          [.get { sampleGet with authorization := none } (.refused (.http 401 none)),
            .destroy { sampleDestroy with authorization := some "Bearer BBBBBBBBBBBBBBBBBBBBBBBBBBBBBBBBBBBBBBBBBBB" }
              (.done (.exception 403 "invalid revoke token")),
            .put samplePut (.done (.http 410 none))]) = true := by decide +kernel
  obtain ⟨world, run, answers⟩ := System.any_replay replayed
  have run := run.mono fun world event permitted => by
    simpa only [Bool.and_eq_true, Bool.not_eq_true'] using permitted
  exact ⟨_, world, run, of_decide_eq_true answers, outsider_cannot_end sampleEnv rfl rfl run⟩

/-- One `POST /downloaded` without any token destroys the sample share. -/
theorem share_ended_by_outsider :
    ¬ ∀ (env : Env) (store : Store) (row : ShareRow) (events : List Event) (world : World),
      store.share = some row → row.state.terminal = false → row.revokeTokenHash.isSome →
      (∀ index chunk, store.chunks.lookup index = some chunk → chunk.downloadTokenHash.isSome) →
      (system env).Run (fun world event => outsider env world event) (World.start store) events world →
      world.db.store.ended = false := by
  intro claimed
  have replayed : ((system sampleEnv).replay (outsider sampleEnv) (World.start sampleReady)
      (.spawn (.downloaded ⟨"abcdefghjkmn"⟩) :: steps 0 7 3)).any (fun world => world.db.store.ended) = true := by
    decide +kernel
  obtain ⟨world, run, ended⟩ := System.any_replay replayed
  have hashes : ∀ index chunk, sampleReady.chunks.lookup index = some chunk → chunk.downloadTokenHash.isSome := by
    intro index chunk found
    have entry := AList.mem_lookup_iff.mp found
    obtain ⟨rfl, same⟩ := Sigma.mk.inj (List.mem_singleton.mp entry)
    cases same
    rfl
  have refuted := claimed sampleEnv sampleReady _ _ world rfl rfl rfl hashes run
  simp [ended] at refuted

end SlothBox.Proofs

import SlothBox.Proofs.Locking

/-! Whether an ended share can come back. Every writer of `shares.state` keeps an
ended share ended, except the two unguarded promotions of `PUT /chunk`, which
decide from the row as it was read before the body arrived. -/

namespace SlothBox.Proofs
open Library

/-- The statements of `UpdateShareStateAsync`. -/
def promotes : PutStep → Bool
  | .setUploading _ | .setReady _ => true
  | _ => false

/-- A PUT handler runs its promotion although the row has ended by now. -/
def resurrects (world : World) : Event → Bool
  | .exec pid _ outcome =>
    world.db.store.ended && (outcome = .ok || outcome = .lost) &&
      match world.procs[pid]? with
      | some (.put _ step) => promotes step
      | _ => false
  | _ => false

/-- A promotion that takes effect on a row that has ended. -/
theorem promotion_resurrects {world : World} {pid : Nat} {clock : Timestamp} {outcome : Outcome} {request : PutRequest}
    {step : PutStep} {plan : PutPlan} {state : ShareState} (ended : world.db.store.ended)
    (running : world.procs[pid]? = some (.put request step)) (executed : takesEffect outcome)
    (promoted : promotion step = some (plan, state)) : resurrects world (.exec pid clock outcome) = true := by
  have promotes : promotes step := by
    cases step <;> first | rfl | cases promoted
  simp only [resurrects, ended, running, promotes, Bool.and_true, Bool.true_and]
  exact executed

/-- One permitted step. -/
theorem step_ended {env : Env} {world next : World} {event : Event} (locked : Locked world)
    (permitted : resurrects world event = false) (taken : (system env).step world event = some next)
    (ended : world.db.store.ended) : next.db.store.ended := by
  rcases rewrite_cases locked taken with ⟨same, -⟩ | ⟨new, events, share, -, rewrites⟩
  · rw [Store.ended, same]
    exact ended
  · have before := ended
    rw [Store.ended] at ended
    rw [Store.ended, share, Option.any_some]
    generalize old : world.db.store.share = row at rewrites ended
    cases rewrites with
    | insert => cases ended
    | promote running executed promoted =>
      rw [promotion_resurrects before running executed promoted] at permitted
      cases permitted
    | increment running executed named counted =>
      -- the WHERE clause only matches a live row
      rcases (incrementDownload_some counted).1 with live | live <;> simp [live, ShareState.terminal] at ended
    | revoke => rfl
    | burn => rfl
    | reap => rfl

/-- In a run in which no upload promotes a share that has ended meanwhile, a share
that is `expired` or `destroyed` stays so, whatever else is interleaved. -/
theorem ended_absorbing (env : Env) {first second : List Event} {middle final : World}
    (before : (system env).Run (fun world event => resurrects world event = false) (World.start .empty) first middle)
    (after : (system env).Run (fun world event => resurrects world event = false) middle second final)
    (ended : middle.db.store.ended) : final.db.store.ended := by
  have reached := after.invariant (fun world => Locked world ∧ world.db.store.ended) ⟨locked_reached before, ended⟩
    fun _ _ _ kept permitted taken => ⟨locked_step kept.1 taken, step_ended kept.1 permitted taken kept.2⟩
  exact reached.2

/-- The share is created and revoked while nothing is uploaded; a late PUT is then refused. -/
theorem ended_absorbing_revoked : ∃ first second middle final,
    (system sampleEnv).Run (fun world event => resurrects world event = false) (World.start .empty) first middle ∧
    (system sampleEnv).Run (fun world event => resurrects world event = false) middle second final ∧
    middle.db.store.ended ∧ final.db.store.ended := by
  have replayed : ((system sampleEnv).replay (fun world event => !resurrects world event) (World.start .empty)
      (.spawn (.create sampleCreate) :: steps 0 5 3 ++ .spawn (.destroy sampleDestroy) :: steps 1 6 4)).any
      (fun middle => middle.db.store.ended && ((system sampleEnv).replay
        (fun world event => !resurrects world event) middle (.spawn (.put samplePut) :: steps 2 7 2)).any
          fun _ => true) = true := by decide +kernel
  obtain ⟨middle, before, passed⟩ := System.any_replay replayed
  obtain ⟨ended, continued⟩ := Bool.and_eq_true_iff.mp passed
  obtain ⟨final, after, -⟩ := System.any_replay continued
  have before := before.mono fun world event => (Bool.not_eq_true' (resurrects world event)).mp
  have after := after.mono fun world event => (Bool.not_eq_true' (resurrects world event)).mp
  exact ⟨_, _, middle, final, before, after, ended, ended_absorbing sampleEnv before after ended⟩

/-- The upload reads `pending`, the sender revokes the share, and the two promotions
of the upload then make the destroyed share `ready`. -/
theorem revoked_share_ready_again :
    ¬ ∀ (env : Env) (first second : List Event) (middle final : World),
      (system env).Run (fun _ _ => True) (World.start .empty) first middle →
      (system env).Run (fun _ _ => True) middle second final → middle.db.store.ended →
      final.db.store.state ≠ some .pending ∧ final.db.store.state ≠ some .uploading ∧
        final.db.store.state ≠ some .ready := by
  intro claimed
  have replayed : ((system sampleEnv).replay (fun _ _ => true) (World.start .empty)
      (.spawn (.create sampleCreate) :: steps 0 5 3 ++ .spawn (.put samplePut) :: steps 1 6 4 ++
        .spawn (.destroy sampleDestroy) :: steps 2 7 4)).any
      (fun middle => middle.db.store.ended && ((system sampleEnv).replay (fun _ _ => true) middle (steps 1 8 3)).any
        fun final => final.db.store.state = some .ready) = true := by decide +kernel
  obtain ⟨middle, before, passed⟩ := System.any_replay replayed
  obtain ⟨ended, continued⟩ := Bool.and_eq_true_iff.mp passed
  obtain ⟨final, after, ready⟩ := System.any_replay continued
  have refuted := claimed sampleEnv _ _ middle final (before.mono fun _ _ _ => trivial)
    (after.mono fun _ _ _ => trivial) ended
  exact refuted.2.2 (of_decide_eq_true ready)

end SlothBox.Proofs

import SlothBox.Proofs.Locking

/-! The download cap. One statement counts, compares and ends the share, and it only
matches a live row; so the count stops at the cap, unless an upload that is still in
flight makes the share live again. -/

namespace SlothBox.Proofs
open Library

/-- A handler of an upload that has not answered yet. -/
def uploadInFlight : Proc → Bool
  | .put _ (.done _) => false
  | .put _ _ => true
  | _ => false

/-- Downloads are counted while no upload is in flight. -/
def countsAlone (world : World) : Event → Bool
  | .exec pid _ _ =>
    match world.procs[pid]? with
    | some (.downloaded _ .increment) => !world.procs.any uploadInFlight
    | _ => true
  | _ => true

/-- The event is a call of `increment_download` that takes effect and returns a row. -/
def increments (world : World) : Event → Bool
  | .exec pid clock outcome =>
    match world.procs[pid]? with
    | some (.downloaded request .increment) =>
      takesEffect outcome && ((world.db.store.find request.shortId).bind (incrementDownload clock)).isSome
    | _ => false
  | _ => false

/-- The upload has been admitted. -/
def admitted : Proc → Bool
  | .put _ .acquire | .put _ .readShare | .put _ (.done _) => false
  | .put _ _ => true
  | _ => false

theorem uploadInFlight_of_admitted {proc : Proc} (holds : admitted proc) : uploadInFlight proc := by
  cases proc with
  | put request step => cases step <;> first | rfl | cases holds
  | _ => cases holds

theorem admitted_of_promotion {request : PutRequest} {step : PutStep} {plan : PutPlan} {state : ShareState}
    (promoted : promotion step = some (plan, state)) : admitted (.put request step) := by
  cases step <;> first | rfl | cases promoted

/-- An upload is admitted only to a share that accepts uploads. -/
theorem exec_admitted {env : Env} {db : Database} {clock : Timestamp} {outcome : Outcome} {proc moved : Proc}
    {effect : Effect} (executed : proc.exec env db clock outcome = some (moved, effect)) (plans : admitted moved) :
    admitted proc ∨ ∃ row, db.store.share = some row ∧ row.canAcceptUploads := by
  cases proc with
  | put request step =>
    obtain ⟨after, call, rfl⟩ := handler_exec executed
    cases put_move call with
    | acquire => cases plans
    | check found accepted => exact .inr ⟨_, (find_eq_some.mp found).1, (check_ok accepted).1⟩
    | putBlob => exact .inl rfl
    | putLost => cases plans
    | upsert => exact .inl rfl
    | promote _ _ promoted => exact .inl (admitted_of_promotion promoted)
    | proceed written =>
      cases step with
      | done reply => cases call
      | setUploading plan => exact .inl rfl
      | countChunks plan => exact .inl rfl
      | setReady plan => exact .inl rfl
      | _ => cases written
    | stop => cases plans
  | crashed => cases executed
  | _ =>
    obtain ⟨after, -, rfl⟩ := handler_exec executed
    cases plans

/-- The share is below its cap, or at its cap and over. -/
structure Capped (cap : Nat) (world : World) (row : ShareRow) : Prop where
  below : row.downloadCount ≤ cap
  live : row.downloadCount < cap → row.state ≠ .expired
  reached : row.downloadCount = cap → row.state.terminal ∧ ∀ proc ∈ world.procs, admitted proc = false

/-- The invariant of every share that does not burn. -/
def WithinCap (world : World) : Prop :=
  ∀ row cap, world.db.store.share = some row → row.burnAfterRead = false → row.maxDownloads = some cap → 0 < cap →
    Capped cap world row

section Step
variable {env : Env} {world next : World} {event : Event} {row new : ShareRow} {cap : Nat}

theorem increment_counts {now : Timestamp} {updated : ShareRow} (counted : incrementDownload now row = some updated)
    (keeps : row.burnAfterRead = false) (capped : row.maxDownloads = some cap) :
    row.state.terminal = false ∧ updated.downloadCount = row.downloadCount + 1 ∧
      (cap ≤ updated.downloadCount ∧ updated.state = .expired ∨
        updated.downloadCount < cap ∧ updated.state = row.state) := by
  unfold incrementDownload at counted
  split at counted
  next live =>
    cases counted
    refine ⟨by rcases live.1 with same | same <;> rw [same] <;> rfl, rfl, ?_⟩
    simp only [keeps, capped, Option.any_some, decide_eq_true_eq, Bool.false_eq_true, if_false]
    split
    next full => exact .inl ⟨full, rfl⟩
    next room => exact .inr ⟨by omega, rfl⟩
  next => cases counted

theorem closed_of_terminal (ended : row.state.terminal) : row.canAcceptUploads = false := by
  cases state : row.state <;> simp [ShareRow.canAcceptUploads, state, ShareState.terminal] at ended ⊢

theorem closed_of_increment {now : Timestamp} {updated : ShareRow} (counted : incrementDownload now row = some updated) :
    row.canAcceptUploads = false := by
  rcases (incrementDownload_some counted).1 with live | live <;> simp [ShareRow.canAcceptUploads, live]

/-- A call that counts writes the row that it has found. -/
theorem increments_writes (counts : increments world event) (taken : (system env).step world event = some next) :
    ∃ pid clock outcome request row updated, event = .exec pid clock outcome ∧
      world.procs[pid]? = some (.downloaded request .increment) ∧ world.db.store.share = some row ∧
      incrementDownload clock row = some updated ∧ next.db.store.share = some updated := by
  rcases step_cases taken with ⟨request, rfl, rfl⟩ |
    ⟨pid, clock, outcome, proc, moved, effect, rfl, running, executed, rfl⟩ | ⟨pid, proc, rfl, running, rfl⟩
  · cases counts
  · simp only [increments, running] at counts
    split at counts
    next request same =>
      cases same
      obtain ⟨effective, returned⟩ := Bool.and_eq_true_iff.mp counts
      obtain ⟨updated, incremented⟩ := Option.isSome_iff_exists.mp returned
      obtain ⟨row, found, counted⟩ := Option.bind_eq_some_iff.mp incremented
      refine ⟨pid, clock, outcome, request, row, updated, rfl, running, (find_eq_some.mp found).1, counted, ?_⟩
      obtain ⟨after, call, rfl⟩ := handler_exec executed
      cases downloaded_move call with
      | refused _ _ nothing => exact absurd (nothing.symm.trans incremented) (by simp)
      | increment _ _ again recounted =>
        cases found.symm.trans again
        cases counted.symm.trans recounted
        rfl
      | incrementLost _ _ again recounted =>
        cases found.symm.trans again
        cases counted.symm.trans recounted
        rfl
      | stop _ idle => exact absurd ((idle effective rfl).symm.trans incremented) (by simp)
    next => cases counts
  · cases counts

/-- What any other step leaves of a share that does not burn. -/
theorem otherwise_kept (locked : Locked world) (burnable : Burnable world)
    (taken : (system env).step world event = some next) (still : increments world event = false)
    (share : world.db.store.share = some row) (keeps : row.burnAfterRead = false)
    (stored : next.db.store.share = some new) :
    new.downloadCount = row.downloadCount ∧ (new.state = row.state ∨ new.state = .destroyed ∨
      new.state.terminal = false ∧ ∃ proc ∈ world.procs, admitted proc) := by
  rcases rewrite_cases locked taken with ⟨same, -⟩ | ⟨written, events, after, -, rewrites⟩
  · rw [same, share] at stored
    cases stored
    exact ⟨rfl, .inl rfl⟩
  · rw [after] at stored
    cases stored
    rw [share] at rewrites
    cases rewrites with
    | promote running executed promoted =>
      refine ⟨rfl, .inr (.inr ⟨?_, _, List.mem_of_getElem? running, admitted_of_promotion promoted⟩)⟩
      rcases promotion_state promoted with rfl | rfl <;> rfl
    | increment running executed named counted =>
      have found := find_eq_some.mpr ⟨share, named⟩
      simp [increments, running, executed, found, counted] at still
    | revoke => exact ⟨rfl, .inr (.inl rfl)⟩
    | burn ready running =>
      obtain ⟨burned, found, burns⟩ := burnable _ (List.mem_of_getElem? running) rfl
      cases share.symm.trans found
      simp [keeps] at burns
    | reap => exact ⟨rfl, .inr (.inl rfl)⟩

/-- Nobody is admitted to a share that is closed to uploads. -/
theorem nobody_admitted (taken : (system env).step world event = some next)
    (share : world.db.store.share = some row) (closed : row.canAcceptUploads = false)
    (nobody : ∀ proc ∈ world.procs, admitted proc = false) : ∀ proc ∈ next.procs, admitted proc = false := by
  intro proc member
  rcases proc_origin taken member with old | ⟨request, -, rfl⟩ | ⟨pid, clock, outcome, mover, effect, -, running, executed⟩ |
    rfl
  · exact nobody proc old
  · cases request <;> rfl
  · by_contra plans
    rcases exec_admitted executed (by simpa using plans) with before | ⟨found, again, accepts⟩
    · simp [nobody mover (List.mem_of_getElem? running)] at before
    · cases share.symm.trans again
      simp [closed] at accepts
  · rfl

/-- The call that counts the last download ends the share, and finds no upload that could undo it. -/
theorem capped_increment (capped : Capped cap world row) (permitted : countsAlone world event)
    (counts : increments world event) (taken : (system env).step world event = some next)
    (share : world.db.store.share = some row) (keeps : row.burnAfterRead = false) (limit : row.maxDownloads = some cap)
    (stored : next.db.store.share = some new) :
    new.downloadCount = row.downloadCount + 1 ∧ row.state.terminal = false ∧
      (new.state = .expired ↔ new.downloadCount = cap) ∧ Capped cap next new := by
  obtain ⟨pid, clock, outcome, request, found, updated, rfl, running, again, counted, after⟩ :=
    increments_writes counts taken
  cases share.symm.trans again
  cases stored.symm.trans after
  obtain ⟨live, count, ends⟩ := increment_counts counted keeps limit
  have room : row.downloadCount < cap := by
    refine Nat.lt_of_le_of_ne capped.below fun full => ?_
    simpa [live] using (capped.reached full).1
  have nobody : ∀ proc ∈ world.procs, admitted proc = false := by
    intro proc member
    simp only [countsAlone, running, Bool.not_eq_true', List.any_eq_false] at permitted
    by_contra plans
    exact permitted proc member (uploadInFlight_of_admitted (by simpa using plans))
  have alive : row.state ≠ .expired := fun ended => by simp [ended, ShareState.terminal] at live
  refine ⟨count, live, ?_, by omega, ?_, fun full => ⟨?_, nobody_admitted taken share (closed_of_increment counted) nobody⟩⟩
  · rcases ends with ⟨full, state⟩ | ⟨less, state⟩
    · exact ⟨fun _ => by omega, fun _ => state⟩
    · exact ⟨fun ended => absurd (state.symm.trans ended) alive, fun full => by omega⟩
  · intro less
    rcases ends with ⟨full, -⟩ | ⟨-, state⟩
    · omega
    · rw [state]
      exact alive
  · rcases ends with ⟨-, state⟩ | ⟨less, -⟩
    · rw [state]
      rfl
    · omega

theorem capped_otherwise (locked : Locked world) (burnable : Burnable world) (capped : Capped cap world row)
    (still : increments world event = false) (taken : (system env).step world event = some next)
    (share : world.db.store.share = some row) (keeps : row.burnAfterRead = false)
    (stored : next.db.store.share = some new) :
    new.downloadCount = row.downloadCount ∧ (new.state = .expired → row.state = .expired) ∧ Capped cap next new := by
  obtain ⟨count, state⟩ := otherwise_kept locked burnable taken still share keeps stored
  have expires : new.state = .expired → row.state = .expired := by
    intro ended
    rcases state with same | destroyed | ⟨live, -⟩
    · exact same.symm.trans ended
    · cases ended.symm.trans destroyed
    · simp [ended, ShareState.terminal] at live
  refine ⟨count, expires, by rw [count]; exact capped.below, fun less ended => ?_, fun full => ?_⟩
  · exact capped.live (by omega) (expires ended)
  · obtain ⟨ended, nobody⟩ := capped.reached (by omega)
    refine ⟨?_, nobody_admitted taken share (closed_of_terminal ended) nobody⟩
    rcases state with same | destroyed | ⟨-, proc, member, plans⟩
    · rw [same]
      exact ended
    · rw [destroyed]
      rfl
    · simp [nobody proc member] at plans

theorem withinCap_step (locked : Locked world) (burnable : Burnable world) (within : WithinCap world)
    (permitted : countsAlone world event) (taken : (system env).step world event = some next) : WithinCap next := by
  intro new cap stored keeps limit positive
  cases share : world.db.store.share with
  | none =>
    rcases rewrite_cases locked taken with ⟨same, -⟩ | ⟨written, events, after, -, rewrites⟩
    · rw [same, share] at stored
      cases stored
    · rw [after] at stored
      cases stored
      rw [share] at rewrites
      cases rewrites with
      | insert => exact ⟨Nat.zero_le _, fun _ => nofun, fun full => absurd full (Nat.ne_of_lt positive)⟩
  | some row =>
    obtain ⟨written, after, _, _, _, _, rfl⟩ := step_terms locked taken share
    rw [after] at stored
    cases stored
    have capped := within row cap share keeps limit positive
    cases counts : increments world event with
    | true => exact (capped_increment capped permitted counts taken share keeps limit after).2.2.2
    | false => exact (capped_otherwise locked burnable capped counts taken share keeps after).2.2

/-- What a run carries along. -/
structure CapSound (world : World) : Prop where
  locked : Locked world
  burnable : Burnable world
  within : WithinCap world

theorem CapSound.step (sound : CapSound world) (permitted : countsAlone world event)
    (taken : (system env).step world event = some next) : CapSound next :=
  ⟨locked_step sound.locked taken, burnable_step sound.locked sound.burnable taken,
    withinCap_step sound.locked sound.burnable sound.within permitted taken⟩

theorem capSound_reached {env : Env} {events : List Event} {world : World}
    (run : (system env).Run (fun world event => countsAlone world event) (World.start .empty) events world) :
    CapSound world :=
  run.invariant CapSound ⟨locked_start .empty, (fun _ member => by cases member), fun _ _ share => by cases share⟩
    fun _ _ _ sound permitted taken => sound.step permitted taken

end Step

/-- At the cap, a call of `increment_download` leaves the database as it is. -/
theorem increment_refused {env : Env} {world next : World} {pid : Nat} {clock : Timestamp} {outcome : Outcome}
    {request : DownloadedRequest} {row : ShareRow} (share : world.db.store.share = some row)
    (refuses : ∀ clock, incrementDownload clock row = none)
    (running : world.procs[pid]? = some (.downloaded request .increment))
    (taken : (system env).step world (.exec pid clock outcome) = some next) : next.db = world.db := by
  rcases step_cases taken with ⟨_, same, -⟩ | ⟨_, _, _, proc, moved, effect, same, found, executed, rfl⟩ | ⟨_, _, same, -⟩
  · cases same
  · cases same
    cases running.symm.trans found
    obtain ⟨after, call, rfl⟩ := handler_exec executed
    cases downloaded_move call with
    | refused => rfl
    | increment _ _ read counted =>
      cases share.symm.trans (find_eq_some.mp read).1
      cases (refuses clock).symm.trans counted
    | incrementLost _ _ read counted =>
      cases share.symm.trans (find_eq_some.mp read).1
      cases (refuses clock).symm.trans counted
    | stop => rfl
  · cases same

/-- With no upload in flight while downloads are counted, the count never passes the cap, each call
that takes effect counts once, the call that reaches the cap and no other one makes the share
`expired`, and afterwards every call is refused and changes nothing. -/
theorem download_cap_kept (env : Env) {events : List Event} {world : World} {row : ShareRow} {cap : Nat}
    (run : (system env).Run (fun world event => countsAlone world event) (World.start .empty) events world)
    (share : world.db.store.share = some row) (keeps : row.burnAfterRead = false)
    (limit : row.maxDownloads = some cap) (positive : 0 < cap) :
    row.downloadCount ≤ cap ∧
    (∀ event next new, countsAlone world event → (system env).step world event = some next →
      next.db.store.share = some new →
      new.downloadCount = row.downloadCount + (increments world event).toNat ∧
      (new.state = .expired ∧ row.state ≠ .expired ↔ increments world event ∧ new.downloadCount = cap)) ∧
    (row.downloadCount = cap → ∀ later final,
      (system env).Run (fun world event => countsAlone world event) world later final →
      ∃ new, final.db.store.share = some new ∧ new.downloadCount = cap ∧
        (∀ clock, incrementDownload clock new = none) ∧
        ∀ pid clock outcome request next, final.procs[pid]? = some (.downloaded request .increment) →
          (system env).step final (.exec pid clock outcome) = some next → next.db = final.db) := by
  obtain ⟨locked, burnable, within⟩ := capSound_reached run
  have capped := within row cap share keeps limit positive
  refine ⟨capped.below, ?_, ?_⟩
  · intro event next new permitted taken stored
    cases counts : increments world event with
    | true =>
      obtain ⟨count, live, ends, -⟩ := capped_increment capped permitted counts taken share keeps limit stored
      refine ⟨count, fun ended => ⟨rfl, ends.mp ended.1⟩, fun full => ⟨ends.mpr full.2, fun ended => ?_⟩⟩
      simp [ended, ShareState.terminal] at live
    | false =>
      obtain ⟨count, expires, -⟩ := capped_otherwise locked burnable capped counts taken share keeps stored
      exact ⟨count, fun ended => absurd (expires ended.1) ended.2, fun full => by cases full.1⟩
  · intro full later final after
    have kept := after.invariant (fun world => CapSound world ∧ ∃ new, world.db.store.share = some new ∧
        SameTerms row new ∧ new.downloadCount = cap) ⟨⟨locked, burnable, within⟩, row, share, .refl row, full⟩ ?_
    · obtain ⟨sound, new, stored, same, count⟩ := kept
      have capped := sound.within new cap stored (same.burnAfterRead.trans keeps) (same.maxDownloads.trans limit) positive
      have refuses : ∀ clock, incrementDownload clock new = none := fun clock =>
        incrementDownload_ended (capped.reached count).1
      exact ⟨new, stored, count, refuses, fun pid clock outcome request next running taken =>
        increment_refused stored refuses running taken⟩
    · rintro world event next ⟨sound, current, share, same, count⟩ permitted taken
      have keeps := same.burnAfterRead.trans keeps
      have limit := same.maxDownloads.trans limit
      obtain ⟨new, stored, further⟩ := step_terms sound.locked taken share
      refine ⟨sound.step permitted taken, new, stored, same.trans further, ?_⟩
      have capped := sound.within current cap share keeps limit positive
      cases counts : increments world event with
      | true =>
        obtain ⟨-, live, -⟩ := capped_increment capped permitted counts taken share keeps limit stored
        rw [(capped.reached count).1] at live
        cases live
      | false => exact (capped_otherwise sound.locked sound.burnable capped counts taken share keeps stored).1.trans count

def sampleCapped : CreateRequest := { sampleCreate with burnAfterRead := false, maxDownloads := some 1 }

/-- One download of a share with a cap of one. -/
theorem download_cap_kept_once : ∃ events world row,
    (system sampleEnv).Run (fun world event => countsAlone world event) (World.start .empty) events world ∧
    world.db.store.share = some row ∧ row.burnAfterRead = false ∧ row.maxDownloads = some 1 ∧ row.state = .expired ∧
    row.downloadCount = 1 ∧ row.downloadCount ≤ 1 ∧ ∀ later final,
      (system sampleEnv).Run (fun world event => countsAlone world event) world later final →
      ∃ new, final.db.store.share = some new ∧ new.downloadCount = 1 := by
  have replayed : ((system sampleEnv).replay countsAlone (World.start .empty)
      (.spawn (.create sampleCapped) :: steps 0 5 3 ++ .spawn (.put samplePut) :: steps 1 6 7 ++
        .spawn (.downloaded ⟨"abcdefghjkmn"⟩) :: steps 2 7 4)).any (fun world => world.db.store.share.any fun row =>
          row.burnAfterRead = false && row.maxDownloads = some 1 && row.state = .expired && row.downloadCount = 1) =
      true := by decide +kernel
  obtain ⟨world, run, passed⟩ := System.any_replay replayed
  obtain ⟨row, share, counted⟩ := (Option.any_eq_true _ _).mp passed
  simp only [Bool.and_eq_true, decide_eq_true_eq] at counted
  obtain ⟨⟨⟨keeps, limit⟩, ended⟩, count⟩ := counted
  obtain ⟨below, -, after⟩ := download_cap_kept sampleEnv run share keeps limit Nat.one_pos
  refine ⟨_, world, row, run, share, keeps, limit, ended, count, below, fun later final continued => ?_⟩
  obtain ⟨new, stored, full, -⟩ := after count later final continued
  exact ⟨new, stored, full⟩

end SlothBox.Proofs

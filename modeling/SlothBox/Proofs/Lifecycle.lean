import SlothBox.Lifecycle
import SlothBox.Proofs.Terminal

/-! The handlers of the three services, interleaved in any way, take a share through a life of
the abstract kind. What holds of every life then holds of every row. -/

namespace SlothBox.Proofs
open Library

/-! ### Every life -/

/-- What is true of a life even if uploads bring it back. -/
structure Warranted (life : Life) : Prop where
  spent : life.phase = .spent → life.terms.burnAfterRead = false ∧ life.terms.exhausted life.downloads
  gone : life.phase = .gone → life.reason.isSome
  burned : life.reason = some .burn → life.terms.burnAfterRead
  revoked : life.reason = some .manual → life.terms.revocable
  capped : life.reason = some .maxDownloads → life.terms.exhausted life.downloads
  abused : life.reason ≠ some .abuse
  read : life.terms.burnAfterRead → 0 < life.downloads → life.reason.isSome

/-- What is true as well if nothing brings it back. -/
structure Measured (life : Life) : Prop where
  once : life.terms.burnAfterRead → life.downloads ≤ 1 ∧ (0 < life.downloads → life.phase.ended)
  within : life.terms.burnAfterRead = false → ∀ most, life.terms.maxDownloads = some most →
    (life.phase.ended = false → life.downloads = 0 ∨ life.downloads < most) ∧ life.downloads ≤ max most 1

section Enabled
variable {late : Bool} {life : Life}

theorem step_download (live : life.phase = .live) :
    (lifecycle late).step (some life) .download = some (some (
      if life.terms.burnAfterRead then
        { life with phase := .gone, downloads := life.downloads + 1, reason := some .burn }
      else if life.terms.exhausted (life.downloads + 1) then
        { life with phase := .spent, downloads := life.downloads + 1 }
      else { life with downloads := life.downloads + 1 })) := if_pos live

theorem step_burn (live : life.phase = .live) (burns : life.terms.burnAfterRead) :
    (lifecycle late).step (some life) .burn =
      some (some { life with phase := .gone, downloads := life.downloads + 1, reason := some .burn }) :=
  if_pos (Bool.and_eq_true_iff.mpr ⟨decide_eq_true live, burns⟩)

theorem step_revoke (revocable : life.terms.revocable) :
    (lifecycle late).step (some life) .revoke = some (some { life with phase := .gone, reason := some .manual }) :=
  if_pos revocable

theorem step_reap {reason : DestroyedReason} (warrant : life.warrants reason) :
    (lifecycle late).step (some life) (.reap reason) = some (some { life with phase := .gone, reason := some reason }) :=
  if_pos warrant

theorem step_fill (open' : ¬(life.phase.ended && !late)) :
    (lifecycle late).step (some life) .fill = some (some { life with phase := .filling }) := if_neg open'

theorem step_complete (open' : ¬(life.phase.ended && !late)) :
    (lifecycle late).step (some life) .complete = some (some { life with phase := .live }) := if_neg open'

end Enabled

theorem exhausted_succ {terms : Terms} {downloads : Nat} (full : terms.exhausted downloads) :
    terms.exhausted (downloads + 1) := by
  obtain ⟨most, allowed, reached⟩ := (Option.any_eq_true _ _).mp full
  have reached := of_decide_eq_true reached
  exact (Option.any_eq_true _ _).mpr ⟨most, allowed, decide_eq_true (by omega)⟩

theorem warranted_step {late : Bool} {life next : Life} {event : LifeEvent} (warranted : Warranted life)
    (taken : (lifecycle late).step (some life) event = some (some next)) : Warranted next := by
  cases event with
  | create terms => cases taken
  | fill =>
    simp only [lifecycle, Life.step] at taken
    split at taken
    · cases taken
    · cases taken
      exact ⟨nofun, nofun, warranted.burned, warranted.revoked, warranted.capped, warranted.abused, warranted.read⟩
  | complete =>
    simp only [lifecycle, Life.step] at taken
    split at taken
    · cases taken
    · cases taken
      exact ⟨nofun, nofun, warranted.burned, warranted.revoked, warranted.capped, warranted.abused, warranted.read⟩
  | download =>
    simp only [lifecycle, Life.step] at taken
    split at taken
    next live =>
      cases taken
      split
      next burns => exact ⟨nofun, fun _ => rfl, fun _ => burns, nofun, nofun, nofun, fun _ _ => rfl⟩
      next keeps =>
        have keeps : life.terms.burnAfterRead = false := by simpa using keeps
        split
        next full =>
          exact ⟨fun _ => ⟨keeps, full⟩, nofun, warranted.burned, warranted.revoked,
            fun capped => exhausted_succ (warranted.capped capped), warranted.abused,
            fun burns => absurd burns (by simp [keeps])⟩
        next =>
          exact ⟨fun spent => absurd spent (by simp [live]), fun gone => absurd gone (by simp [live]), warranted.burned,
            warranted.revoked, fun capped => exhausted_succ (warranted.capped capped), warranted.abused,
            fun burns => absurd burns (by simp [keeps])⟩
    next => cases taken
  | burn =>
    simp only [lifecycle, Life.step] at taken
    split at taken
    next burns =>
      cases taken
      exact ⟨nofun, fun _ => rfl, fun _ => (Bool.and_eq_true_iff.mp burns).2, nofun, nofun, nofun, fun _ _ => rfl⟩
    next => cases taken
  | revoke =>
    simp only [lifecycle, Life.step] at taken
    split at taken
    next revocable =>
      cases taken
      exact ⟨nofun, fun _ => rfl, nofun, fun _ => revocable, nofun, nofun, fun _ _ => rfl⟩
    next => cases taken
  | reap reason =>
    simp only [lifecycle, Life.step] at taken
    split at taken
    next warrant =>
      cases taken
      refine ⟨nofun, fun _ => rfl, ?_, ?_, ?_, ?_, fun _ _ => rfl⟩
      · rintro ⟨⟩
        exact (Bool.and_eq_true_iff.mp warrant).1
      · rintro ⟨⟩
        cases warrant
      · rintro ⟨⟩
        exact warrant
      · rintro ⟨⟩
        cases warrant
    next => cases taken

/-- A share that is over stays over, and its downloads stay as they are. -/
theorem Measured.ended {life next : Life} (measured : Measured life) (terms : next.terms = life.terms)
    (downloads : next.downloads = life.downloads) (ends : next.phase.ended) : Measured next := by
  constructor
  · intro burns
    rw [terms] at burns
    exact ⟨downloads ▸ (measured.once burns).1, fun _ => ends⟩
  · intro keeps most allowed
    rw [terms] at keeps allowed
    refine ⟨fun alive => ?_, downloads ▸ (measured.within keeps most allowed).2⟩
    rw [ends] at alive
    cases alive

/-- A share that is filling or live may go on to either. -/
theorem Measured.promoted {life : Life} (measured : Measured life) (alive : life.phase.ended = false) (phase : Phase) :
    Measured { life with phase } where
  once burns := by
    obtain ⟨few, ends⟩ := measured.once burns
    refine ⟨few, fun some => ?_⟩
    rw [ends some] at alive
    cases alive
  within keeps most allowed := ⟨fun _ => (measured.within keeps most allowed).1 alive, (measured.within keeps most allowed).2⟩

theorem measured_step {life next : Life} {event : LifeEvent} (measured : Measured life)
    (taken : (lifecycle false).step (some life) event = some (some next)) : Measured next := by
  cases event with
  | create terms => cases taken
  | fill =>
    simp only [lifecycle, Life.step, Bool.not_false, Bool.and_true] at taken
    split at taken
    · cases taken
    next alive =>
      cases taken
      exact measured.promoted (by simpa using alive) .filling
  | complete =>
    simp only [lifecycle, Life.step, Bool.not_false, Bool.and_true] at taken
    split at taken
    · cases taken
    next alive =>
      cases taken
      exact measured.promoted (by simpa using alive) .live
  | download =>
    simp only [lifecycle, Life.step] at taken
    split at taken
    next live =>
      have alive : life.phase.ended = false := by rw [live]; rfl
      cases taken
      split
      next burns =>
        obtain ⟨-, ends⟩ := measured.once burns
        have unread : life.downloads = 0 := by
          by_contra read
          rw [ends (Nat.pos_of_ne_zero read)] at alive
          cases alive
        exact ⟨fun _ => ⟨by simp [unread], fun _ => rfl⟩, fun keeps => nomatch burns.symm.trans keeps⟩
      next keeps =>
        have keeps : life.terms.burnAfterRead = false := by simpa using keeps
        have few := fun most allowed => (measured.within keeps most allowed).1 alive
        split
        next full =>
          refine ⟨fun burns => absurd burns (by simp [keeps]), fun _ most allowed => ⟨nofun, ?_⟩⟩
          have before := few most allowed
          dsimp only
          omega
        next open' =>
          refine ⟨fun burns => absurd burns (by simp [keeps]), fun _ most allowed => ?_⟩
          have before := few most allowed
          have room : ¬most ≤ life.downloads + 1 := by
            intro reached
            exact open' ((Option.any_eq_true _ _).mpr ⟨most, allowed, decide_eq_true reached⟩)
          dsimp only
          omega
    next => cases taken
  | burn =>
    simp only [lifecycle, Life.step] at taken
    split at taken
    next burns =>
      cases taken
      rw [Bool.and_eq_true, decide_eq_true_eq] at burns
      obtain ⟨-, ends⟩ := measured.once burns.2
      have unread : life.downloads = 0 := by
        by_contra read
        have ends := ends (Nat.pos_of_ne_zero read)
        rw [burns.1] at ends
        cases ends
      exact ⟨fun _ => ⟨by simp [unread], fun _ => rfl⟩, fun keeps => nomatch burns.2.symm.trans keeps⟩
    next => cases taken
  | revoke =>
    simp only [lifecycle, Life.step] at taken
    split at taken
    · cases taken
      exact measured.ended rfl rfl rfl
    · cases taken
  | reap reason =>
    simp only [lifecycle, Life.step] at taken
    split at taken
    · cases taken
      exact measured.ended rfl rfl rfl
    · cases taken

/-- A life goes on, or begins. -/
theorem life_step_cases {late : Bool} {before after : Option Life} {event : LifeEvent}
    (taken : (lifecycle late).step before event = some after) :
    (∃ life next, before = some life ∧ after = some next) ∨
      (before = none ∧ ∃ terms, after = some ⟨terms, .filling, 0, none⟩) := by
  cases before with
  | none =>
    cases event with
    | create terms =>
      cases taken
      exact .inr ⟨rfl, terms, rfl⟩
    | _ => cases taken
  | some life =>
    cases after with
    | some next => exact .inl ⟨life, next, rfl, rfl⟩
    | none =>
      exfalso
      cases event with
      | create terms => cases taken
      | _ =>
        simp only [lifecycle, Life.step] at taken
        split at taken <;> cases taken

theorem lives_warranted {late : Bool} {life : Life}
    (reached : (lifecycle late).Reachable (fun _ _ => True) none (some life)) : Warranted life := by
  obtain ⟨events, run⟩ := reached
  have all := run.invariant (fun state => ∀ life, state = some life → Warranted life) nofun
    fun before event after holds _ taken => by
      intro next same
      subst same
      rcases life_step_cases taken with ⟨life, _, rfl, same⟩ | ⟨-, terms, same⟩
      · exact warranted_step (holds life rfl) taken
      · cases same
        exact ⟨nofun, nofun, nofun, nofun, nofun, nofun, fun _ some => absurd some (Nat.lt_irrefl 0)⟩
  exact all life rfl

theorem lives_measured {life : Life} (reached : (lifecycle false).Reachable (fun _ _ => True) none (some life)) :
    Measured life := by
  obtain ⟨events, run⟩ := reached
  have all := run.invariant (fun state => ∀ life, state = some life → Measured life) nofun
    fun before event after holds _ taken => by
      intro next same
      subst same
      rcases life_step_cases taken with ⟨life, _, rfl, same⟩ | ⟨-, terms, same⟩
      · exact measured_step (holds life rfl) taken
      · cases same
        exact ⟨fun _ => ⟨Nat.zero_le 1, fun some => absurd some (Nat.lt_irrefl 0)⟩,
          fun _ _ _ => ⟨fun _ => .inl rfl, Nat.zero_le _⟩⟩
  exact all life rfl

/-! ### The share row lives such a life -/

def phase : ShareState → Phase
  | .pending | .uploading => .filling
  | .ready | .downloaded => .live
  | .expired => .spent
  | .destroyed => .gone

def lifeOf (row : ShareRow) : Life where
  terms := ⟨row.burnAfterRead, row.maxDownloads, row.revokeTokenHash.isSome⟩
  phase := phase row.state
  downloads := row.downloadCount
  reason := row.destroyedReason

section Refinement
variable {env : Env} {world next : World} {event : Event} {late : Bool}

/-- Whoever is about to revoke has found a token on the share. -/
def Revoking (world : World) : Prop :=
  ∀ request, Proc.destroy request .update ∈ world.procs →
    ∃ row, world.db.store.share = some row ∧ row.revokeTokenHash.isSome

/-- The update follows a read that has found the token, or is tried again. -/
theorem update_origin {db : Database} {request : DestroyRequest} {clock : Timestamp} {outcome : Outcome}
    {step : DestroyStep} {effect : Effect} (executed : step.exec env db request clock outcome = some (.update, effect)) :
    step = .update ∨ ∃ row, db.store.share = some row ∧ row.revokeTokenHash.isSome := by
  cases step with
  | update => exact .inl rfl
  | acquire =>
    have moved := congrArg Prod.fst (Option.some.inj executed)
    simp only [limited] at moved
    split at moved
    · cases moved
    · split at moved
      · split at moved <;> cases moved
      · cases moved
  | readShare incomingHash =>
    rw [DestroyStep.exec, Option.some.injEq] at executed
    obtain ⟨-, ⟨-, moved⟩ | ⟨-, moved⟩⟩ := attemptRead_cases executed
    · split at moved
      next => cases moved
      next row found =>
        split at moved
        next => cases moved
        next =>
          split at moved
          next => cases moved
          next storedHash committed => exact .inr ⟨row, (find_eq_some.mp found).1, by rw [committed]; rfl⟩
    · cases moved
  | append destroyedId =>
    simp only [DestroyStep.exec, appendAudit] at executed
    split at executed
    · cases executed
    · rcases attempt_cases (Option.some.inj executed) with ⟨-, moved, -⟩ | ⟨-, moved, -⟩ | ⟨-, moved, -⟩ <;> cases moved
  | done reply => cases executed

theorem revoking_step (locked : Locked world) (revoking : Revoking world)
    (taken : (system env).step world event = some next) : Revoking next := by
  have kept : (∃ row, world.db.store.share = some row ∧ row.revokeTokenHash.isSome) →
      ∃ row, next.db.store.share = some row ∧ row.revokeTokenHash.isSome := by
    rintro ⟨row, share, committed⟩
    obtain ⟨new, stored, _, _, _, _, rfl⟩ := step_terms locked taken share
    exact ⟨_, stored, committed⟩
  intro request member
  apply kept
  rcases proc_origin taken member with old | ⟨start, -, same⟩ | ⟨pid, clock, outcome, before, effect, -, running, executed⟩ |
    crashed
  · exact revoking request old
  · cases start <;> cases same
  · cases before with
    | destroy other step =>
      obtain ⟨after, call, same⟩ := handler_exec executed
      cases same
      rcases update_origin call with rfl | found
      · exact revoking _ (List.mem_of_getElem? running)
      · exact found
    | crashed => cases executed
    | _ =>
      obtain ⟨after, -, same⟩ := handler_exec executed
      cases same
  · cases crashed

/-- The row says when it was destroyed only if it says why. -/
def Reasoned (row : ShareRow) : Prop := row.destroyedAt.isSome → row.destroyedReason.isSome

/-- What the mapping of rows to lives relies on. -/
structure Mapped (world : World) : Prop where
  locked : Locked world
  burnable : Burnable world
  revoking : Revoking world
  recorded : ∀ row, world.db.store.share = some row → Reasoned row

theorem mapped_start {store : Store} (fresh : store.share = none) : Mapped (World.start store) where
  locked := locked_start store
  burnable _ member := absurd member List.not_mem_nil
  revoking _ member := absurd member List.not_mem_nil
  recorded _ share := nomatch fresh.symm.trans share

theorem incrementDownload_reasoned {now : Timestamp} {row updated : ShareRow} (recorded : Reasoned row)
    (counted : incrementDownload now row = some updated) : Reasoned updated := by
  unfold incrementDownload at counted
  split at counted
  · cases counted
    unfold Reasoned
    dsimp only
    split
    · exact fun _ => rfl
    · exact recorded
  · cases counted

theorem mapped_step (mapped : Mapped world) (taken : (system env).step world event = some next) : Mapped next := by
  refine ⟨locked_step mapped.locked taken, burnable_step mapped.locked mapped.burnable taken,
    revoking_step mapped.locked mapped.revoking taken, fun row share => ?_⟩
  rcases rewrite_cases mapped.locked taken with ⟨same, -⟩ | ⟨new, events, stored, -, rewrites⟩
  · exact mapped.recorded row (same.symm.trans share)
  · cases stored.symm.trans share
    generalize old : world.db.store.share = before at rewrites
    cases rewrites with
    | insert => exact nofun
    | @promote _ _ _ _ _ _ _ row => exact mapped.recorded row old
    | increment _ _ _ counted => exact incrementDownload_reasoned (mapped.recorded _ old) counted
    | revoke => exact fun _ => rfl
    | burn => exact fun _ => rfl
    | reap => exact fun _ => rfl

theorem phase_ended {state : ShareState} : (phase state).ended = state.terminal := by cases state <;> rfl

/-- `increment_download` is a download. -/
theorem increment_download {now : Timestamp} {row updated : ShareRow} (counted : incrementDownload now row = some updated) :
    (lifecycle late).step (some (lifeOf row)) .download = some (some (lifeOf updated)) := by
  unfold incrementDownload at counted
  split at counted
  next live =>
    cases counted
    have served : phase row.state = .live := by
      rcases live.1 with ready | downloaded
      · rw [ready]; rfl
      · rw [downloaded]; rfl
    rw [step_download served]
    by_cases burns : row.burnAfterRead = true
    · rw [if_pos (show (lifeOf row).terms.burnAfterRead from burns)]
      simp [lifeOf, burns, phase]
    · rw [if_neg (show ¬(lifeOf row).terms.burnAfterRead from burns)]
      by_cases full : row.maxDownloads.any (· ≤ row.downloadCount + 1) = true
      · rw [if_pos (show (lifeOf row).terms.exhausted ((lifeOf row).downloads + 1) from full)]
        simp [lifeOf, burns, full, phase]
      · rw [if_neg (show ¬(lifeOf row).terms.exhausted ((lifeOf row).downloads + 1) from full)]
        simp [lifeOf, burns, full]
  next => cases counted

/-- A sweep gives a reason that the row warrants. -/
theorem classifyReason_warranted {row : ShareRow} (recorded : Reasoned row) (now : Timestamp) :
    (lifeOf row).warrants (classifyReason row now) := by
  unfold classifyReason
  split
  next burned =>
    simp only [Bool.and_eq_true] at burned
    exact Bool.and_eq_true_iff.mpr ⟨burned.1.1, recorded burned.2⟩
  next =>
    split
    next capped => exact capped
    next => split <;> rfl

/-- One committed change of the row is one event of its life. -/
theorem rewrite_lives {row : Option ShareRow} {new : ShareRow} {events : List AuditEvent} (mapped : Mapped world)
    (share : world.db.store.share = row) (permitted : late = true ∨ resurrects world event = false)
    (rewrites : Rewrites world event row new events) :
    ∃ action, (lifecycle late).step (row.map lifeOf) action = some (some (lifeOf new)) := by
  cases rewrites with
  | insert => exact ⟨.create _, rfl⟩
  | @promote _ _ _ _ step plan state row running executed promoted =>
    have open' : ¬((lifeOf row).phase.ended && !late) := by
      change ¬((phase row.state).ended && !late)
      rw [phase_ended]
      rcases permitted with rfl | alive
      · simp
      · intro ends
        have ended : world.db.store.ended := by
          rw [Store.ended, share]
          exact (Bool.and_eq_true_iff.mp ends).1
        rw [promotion_resurrects ended running executed promoted] at alive
        cases alive
    rcases promotion_state promoted with rfl | rfl
    · exact ⟨.fill, step_fill open'⟩
    · exact ⟨.complete, step_complete open'⟩
  | increment _ _ _ counted => exact ⟨.download, increment_download counted⟩
  | @revoke _ _ _ _ row running =>
    obtain ⟨current, stored, committed⟩ := mapped.revoking _ (List.mem_of_getElem? running)
    cases share.symm.trans stored
    exact ⟨.revoke, step_revoke (show (lifeOf row).terms.revocable from committed)⟩
  | @burn _ _ _ _ _ _ row _ ready running =>
    obtain ⟨current, stored, burns⟩ := mapped.burnable _ (List.mem_of_getElem? running) rfl
    cases share.symm.trans stored
    have live : (lifeOf row).phase = .live := congrArg phase ready
    exact ⟨.burn, step_burn live burns⟩
  | @reap _ _ _ row now =>
    have warrant := classifyReason_warranted (mapped.recorded row share) now
    exact ⟨.reap (classifyReason row now), step_reap warrant⟩

/-- The system as an implementation of the life of a share. `late` admits the promotions that
bring back a share that is over. -/
def lives (env : Env) (late : Bool) :
    Library.Refinement (system env) (lifecycle late) fun world event => late = true ∨ resurrects world event = false where
  view world := world.db.store.share.map lifeOf
  invariant := Mapped
  preserved _ _ _ mapped _ taken := mapped_step mapped taken
  simulated world event next mapped permitted taken := by
    rcases rewrite_cases mapped.locked taken with ⟨same, -⟩ | ⟨new, events, stored, -, rewrites⟩
    · exact .inl (congrArg (Option.map lifeOf) same)
    · rw [stored]
      exact .inr (rewrite_lives mapped rfl permitted rewrites)

/-- Every interleaving of the handlers takes the share row through a life of the abstract kind, one
event at a time, and no committed change of the row is anything else. While no upload brings back
a share that is over, a share that burns is downloaded once at most and is then over; any
other share is downloaded no more often than its sender allowed, and is over by then. -/
theorem share_lives (env : Env) {store : Store} (fresh : store.share = none) {events : List Event}
    (run : (system env).Run (fun world event => resurrects world event = false) (World.start store) events world) :
    (lifecycle false).Reachable (fun _ _ => True) none (world.db.store.share.map lifeOf) ∧
    ∀ row, world.db.store.share = some row →
      (row.burnAfterRead → row.downloadCount ≤ 1 ∧ (0 < row.downloadCount → row.state.terminal)) ∧
      (row.burnAfterRead = false → ∀ most, row.maxDownloads = some most →
        (row.state.terminal = false → row.downloadCount = 0 ∨ row.downloadCount < most) ∧
          row.downloadCount ≤ max most 1) := by
  have reached := ((lives env false).reaches (mapped_start fresh) (run.mono fun _ _ => .inr)).2
  change (lifecycle false).Reachable _ (store.share.map lifeOf) (world.db.store.share.map lifeOf) at reached
  rw [fresh] at reached
  refine ⟨reached, fun row share => ?_⟩
  rw [share] at reached
  have measured := lives_measured reached
  rw [← phase_ended]
  exact ⟨measured.once, measured.within⟩

/-- Two downloads of a share that allows one. -/
theorem share_lives_capped : ∃ events world row,
    (system sampleEnv).Run (fun world event => resurrects world event = false) (World.start .empty) events world ∧
    world.db.store.share = some row ∧ row.state = .expired ∧ row.downloadCount ≤ 1 ∧
    (lifecycle false).Reachable (fun _ _ => True) none (some (lifeOf row)) := by
  have replayed : ((system sampleEnv).replay (fun world event => !resurrects world event) (World.start .empty)
      (.spawn (.create { sampleCreate with burnAfterRead := false, maxDownloads := some 1 }) :: steps 0 5 3 ++
        .spawn (.put samplePut) :: steps 1 6 7 ++ .spawn (.downloaded ⟨"abcdefghjkmn"⟩) :: steps 2 7 4 ++
        .spawn (.downloaded ⟨"abcdefghjkmn"⟩) :: steps 3 8 2)).any
      (fun world => world.db.store.share.any fun row =>
        row.state = .expired && !row.burnAfterRead && row.maxDownloads = some 1) = true := by
    decide +kernel
  obtain ⟨world, run, passed⟩ := System.any_replay replayed
  obtain ⟨row, share, tested⟩ := (Option.any_eq_true _ _).mp passed
  simp only [Bool.and_eq_true, decide_eq_true_eq, Bool.not_eq_true'] at tested
  obtain ⟨⟨expired, keeps⟩, allowed⟩ := tested
  have run := run.mono fun _ _ permitted => Bool.not_eq_true' _ |>.mp permitted
  obtain ⟨lived, measured⟩ := share_lives sampleEnv rfl run
  rw [share] at lived
  exact ⟨_, world, row, run, share, expired, ((measured row share).2 keeps 1 allowed).2, lived⟩

/-! ### What a row says about its end -/

/-- A row that no statement could have left otherwise. -/
structure Explained (row : ShareRow) : Prop where
  admitted : row.checks ∧ row.fits
  state : row.state ≠ .downloaded
  expired : row.state = .expired → row.burnAfterRead = false ∧ row.maxDownloads.any (· ≤ row.downloadCount)
  destroyed : row.state = .destroyed → row.destroyedReason.isSome
  recorded : row.destroyedAt.isSome = row.destroyedReason.isSome
  burn : row.destroyedReason = some .burn → row.burnAfterRead
  manual : row.destroyedReason = some .manual → row.revokeTokenHash.isSome
  maxDownloads : row.destroyedReason = some .maxDownloads → row.maxDownloads.any (· ≤ row.downloadCount)
  abuse : row.destroyedReason ≠ some .abuse
  read : row.burnAfterRead → 0 < row.downloadCount → row.destroyedReason.isSome

/-- The part of it that the life does not see. -/
structure Columns (row : ShareRow) : Prop where
  admitted : row.checks ∧ row.fits
  state : row.state ≠ .downloaded
  recorded : row.destroyedAt.isSome = row.destroyedReason.isSome

theorem SameTerms.admitted {old new : ShareRow} (same : SameTerms old new) (admitted : old.checks ∧ old.fits) :
    new.checks ∧ new.fits := by
  obtain ⟨_, _, _, _, rfl⟩ := same
  exact admitted

theorem Rewrites.columns {row : Option ShareRow} {new : ShareRow} {events : List AuditEvent}
    (columns : ∀ old, row = some old → Columns old) (rewrites : Rewrites world event row new events) : Columns new := by
  cases row with
  | none =>
    cases rewrites with
    | insert _ _ valid => exact ⟨valid, nofun, rfl⟩
  | some old =>
    have before := columns old rfl
    have admitted := rewrites.sameTerms.admitted before.admitted
    cases rewrites with
    | promote _ _ promoted =>
      refine ⟨admitted, ?_, before.recorded⟩
      rcases promotion_state promoted with rfl | rfl <;> exact nofun
    | increment _ _ _ counted =>
      refine ⟨admitted, ?_, ?_⟩
      · rcases (incrementDownload_some counted).2.2 with ⟨-, ended, -⟩ | ended | same
        · rw [ended]; exact nofun
        · rw [ended]; exact nofun
        · rw [same]; exact before.state
      · unfold incrementDownload at counted
        split at counted
        · cases counted
          dsimp only
          split
          · rfl
          · exact before.recorded
        · cases counted
    | revoke => exact ⟨admitted, nofun, rfl⟩
    | burn => exact ⟨admitted, nofun, rfl⟩
    | reap =>
      refine ⟨admitted, nofun, ?_⟩
      rw [reapUpdate, Option.isSome_or]
      exact Bool.or_true _

theorem columns_reached {allowed : World → Event → Prop} {store : Store} (fresh : store.share = none) {events : List Event}
    (run : (system env).Run allowed (World.start store) events world) {row : ShareRow}
    (share : world.db.store.share = some row) : Columns row := by
  have all := run.invariant (fun world => Locked world ∧ ∀ row, world.db.store.share = some row → Columns row)
    ⟨locked_start store, fun row share => nomatch fresh.symm.trans share⟩ fun world _ next kept _ taken => by
      refine ⟨locked_step kept.1 taken, fun row share => ?_⟩
      rcases rewrite_cases kept.1 taken with ⟨same, -⟩ | ⟨new, events, stored, -, rewrites⟩
      · exact kept.2 row (same.symm.trans share)
      · cases stored.symm.trans share
        exact rewrites.columns kept.2
  exact all.2 row share

theorem warranted_reached {allowed : World → Event → Prop} {store : Store} (fresh : store.share = none) {events : List Event}
    (run : (system env).Run allowed (World.start store) events world) {row : ShareRow}
    (share : world.db.store.share = some row) : Warranted (lifeOf row) := by
  have reached := ((lives env true).reaches (mapped_start fresh) (run.mono fun _ _ _ => .inl rfl)).2
  change (lifecycle true).Reachable _ (store.share.map lifeOf) (world.db.store.share.map lifeOf) at reached
  rw [fresh, share] at reached
  exact lives_warranted reached

/-- Whatever is interleaved, late uploads included, the row says about its end only what is so. It
keeps to the constraints of its table; its state is never `downloaded`; it is `expired` only as a
share that does not burn and whose downloads are used up; it is `destroyed` only with a time and a
reason, and the reason is `burn` only of a share that burns, `manual` only of one with a revoke
token, `max_downloads` only with the cap reached and never `abuse`; and a share that burns has
no counted download without such a record. -/
theorem rows_explained (env : Env) {allowed : World → Event → Prop} {store : Store} (fresh : store.share = none)
    {events : List Event} {row : ShareRow} (run : (system env).Run allowed (World.start store) events world)
    (share : world.db.store.share = some row) : Explained row := by
  have columns := columns_reached fresh run share
  have warranted := warranted_reached fresh run share
  exact {
    admitted := columns.admitted
    state := columns.state
    expired := fun expired => warranted.spent (congrArg phase expired)
    destroyed := fun destroyed => warranted.gone (congrArg phase destroyed)
    recorded := columns.recorded
    burn := warranted.burned
    manual := warranted.revoked
    maxDownloads := warranted.capped
    abuse := warranted.abused
    read := warranted.read }

/-- The reaper gives a called-back share that burns the reason `burn`, and that it burns is so. -/
theorem rows_explained_swept : ∃ events world row,
    (system sampleEnv).Run (fun _ _ => true = true) (World.start .empty) events world ∧
    world.db.store.share = some row ∧ row.destroyedReason = some .burn ∧ row.downloadCount = 0 ∧ Explained row := by
  have replayed : ((system sampleEnv).replay (fun _ _ => true) (World.start .empty)
      (.spawn (.create sampleCreate) :: steps 0 5 3 ++ .spawn (.put samplePut) :: steps 1 6 7 ++
        .spawn (.destroy sampleDestroy) :: steps 2 7 4 ++ .spawn .sweep :: steps 3 8 9)).any
      (fun world => world.db.store.share.any fun row =>
        row.destroyedReason = some .burn && row.downloadCount = 0) = true := by
    decide +kernel
  obtain ⟨world, run, passed⟩ := System.any_replay replayed
  obtain ⟨row, share, tested⟩ := (Option.any_eq_true _ _).mp passed
  simp only [Bool.and_eq_true, decide_eq_true_eq] at tested
  exact ⟨_, world, row, run, share, tested.1, tested.2, rows_explained sampleEnv rfl run share⟩

end Refinement

end SlothBox.Proofs

import SlothBox.Proofs.Candidates
import SlothBox.Proofs.Reaping

/-! One reaper whose calls may fail anywhere and which may be killed anywhere. It finds the
share again until its transaction has committed, and not afterwards. -/

namespace SlothBox.Proofs
open Library

variable {env : Env} {world next : World} {event : Event} {store : Store} {row : ShareRow}

/-- The next sweep starts when the last has ended, or was killed. -/
def alone (world : World) : Event → Bool
  | .spawn request => request = .sweep && world.quiet
  | _ => true

/-- The destroy transaction commits, whether or not the reaper is told so. -/
def commits (world : World) : Event → Bool
  | .exec pid _ outcome => takesEffect outcome && world.procs[pid]? = some (.sweep .commit)
  | _ => false

/-- The share that a sweep has selected, until it holds the lock. -/
def target : SweepStep → Option String
  | .fetchChunkKeys id | .removeBlobs id _ _ | .lock id _ => some id
  | _ => none

/-- The sweep has found the share and is not done with it. -/
def selected : SweepStep → Bool
  | .fetchReapable | .done _ => false
  | _ => true

structure Lone (store : Store) (row : ShareRow) (world : World) : Prop where
  sweeping : Sweeping store row world
  unique : ∀ (first second : Nat) (proc other : Proc), world.procs[first]? = some proc → world.procs[second]? = some other →
    proc.finished = false → other.finished = false → first = second
  found : ∀ (pid : Nat) (step : SweepStep), world.procs[pid]? = some (.sweep step) → selected step →
    Untouched store world.db.store ∧ (∃ now, store.reapable now) ∧ ∀ id, target step = some id → id = row.id

theorem target_remaining {id other : String} {chunkCount : Nat} {keys : List String}
    (found : target (.remaining id chunkCount keys) = some other) : id = other := by
  cases keys <;> exact Option.some.inj found

theorem sweeps_of_alone (permitted : alone world event) : sweeps event := by
  cases event with
  | spawn request => exact (Bool.and_eq_true_iff.mp permitted).1
  | exec => rfl
  | crash => rfl

theorem Reaped.cleaned (reaped : Reaped store row world) : Cleaned world.db.store := by
  obtain ⟨now, share, -⟩ := reaped.recorded
  exact ⟨by rw [Store.state, share]; rfl, reaped.chunks⟩

theorem Untouched.reapable {before after : Store} (untouched : Untouched before after) (now : Timestamp) :
    after.reapable now = before.reapable now := by
  obtain ⟨share, chunks, -⟩ := untouched
  rw [Store.reapable, Store.reapable, share, chunks]

/-- A single instance never takes the lock of a share that is finished: it would not have selected it. -/
theorem Lone.not_relocks (lone : Lone store row world) (event : Event) : relocks world event = false := by
  unfold relocks
  split
  next pid clock outcome =>
    split
    next id chunkCount running =>
      obtain ⟨untouched, ⟨now, due⟩, -⟩ := lone.found pid _ running rfl
      rw [← untouched.reapable] at due
      by_contra relocked
      simp only [Bool.not_eq_false, Bool.and_eq_true, List.isEmpty_iff] at relocked
      obtain ⟨⟨-, empty⟩, ended⟩ := relocked
      obtain ⟨current, share, destroyed⟩ := (Option.any_eq_true _ _).mp ended
      simp [Store.reapable, share, of_decide_eq_true destroyed, empty] at due
    next => rfl
  next => rfl

/-- A process that is done takes no more steps. -/
theorem unfinished_of_step {pid : Nat} {clock : Timestamp} {outcome : Outcome} {proc : Proc}
    (taken : (system env).step world (.exec pid clock outcome) = some next) (running : world.procs[pid]? = some proc) :
    proc.finished = false := by
  rcases step_cases taken with ⟨_, spawned, -⟩ | ⟨_, _, _, before, moved, effect, same, found, executed, -⟩ |
    ⟨_, _, crashed, -⟩
  · cases spawned
  · cases same
    cases running.symm.trans found
    unfold Proc.finished
    split <;> first | rfl | cases executed
  · cases crashed

theorem step_unique (lone : Lone store row world) (permitted : alone world event)
    (taken : (system env).step world event = some next) :
    ∀ (first second : Nat) (proc other : Proc), next.procs[first]? = some proc → next.procs[second]? = some other →
      proc.finished = false → other.finished = false → first = second := by
  intro first second proc other here there runs runs'
  rcases step_cases taken with ⟨request, rfl, rfl⟩ |
    ⟨pid, clock, outcome, before, moved, effect, rfl, running, executed, rfl⟩ | ⟨pid, before, rfl, running, rfl⟩
  · have ended := List.all_eq_true.mp (Bool.and_eq_true_iff.mp permitted).2
    rcases getElem?_concat_cases here with old | ⟨rfl, -⟩
    · exact absurd (ended proc (List.mem_of_getElem? old)) (by simp [runs])
    · rcases getElem?_concat_cases there with old | ⟨rfl, -⟩
      · exact absurd (ended other (List.mem_of_getElem? old)) (by simp [runs'])
      · rfl
  · have live := unfinished_of_step taken running
    rcases getElem?_set_cases here with ⟨rfl, -⟩ | ⟨-, old⟩
    · rcases getElem?_set_cases there with ⟨rfl, -⟩ | ⟨-, old⟩
      · rfl
      · exact lone.unique _ _ _ _ running old live runs'
    · rcases getElem?_set_cases there with ⟨rfl, -⟩ | ⟨-, old'⟩
      · exact lone.unique _ _ _ _ old running runs live
      · exact lone.unique _ _ _ _ old old' runs runs'
  · rcases getElem?_set_cases here with ⟨-, rfl⟩ | ⟨-, old⟩
    · cases runs
    · rcases getElem?_set_cases there with ⟨-, rfl⟩ | ⟨-, old'⟩
      · cases runs'
      · exact lone.unique _ _ _ _ old old' runs runs'

/-- A sweep goes on with the share it has selected. -/
theorem sweep_target {db : Database} {clock : Timestamp} {outcome : Outcome} {step moved : SweepStep} {effect : Effect}
    (move : SweepMove db clock outcome step moved effect) (further : selected moved) :
    (step = .fetchReapable ∧ db.store.reapable clock ∧ ∀ row, db.store.share = some row → target moved = some row.id) ∨
    (selected step ∧ step ≠ .commit ∧ ∀ id, target moved = some id → target step = some id) := by
  cases move with
  | fetchReapable found due =>
    refine .inl ⟨rfl, due, fun row share => ?_⟩
    cases found.symm.trans share
    rfl
  | fetchChunkKeys => exact .inr ⟨rfl, nofun, fun id found => congrArg some (target_remaining found)⟩
  | removeBlob => exact .inr ⟨rfl, nofun, fun id found => congrArg some (target_remaining found)⟩
  | removed => exact .inr ⟨rfl, nofun, fun id found => found⟩
  | lock => exact .inr ⟨rfl, nofun, nofun⟩
  | deleteChunks => exact .inr ⟨rfl, nofun, nofun⟩
  | update => exact .inr ⟨rfl, nofun, nofun⟩
  | updateNothing => exact .inr ⟨rfl, nofun, nofun⟩
  | rereadDestroyedAt => exact .inr ⟨rfl, nofun, nofun⟩
  | append => exact .inr ⟨rfl, nofun, nofun⟩
  | _ => cases further

theorem ne_done_of_selected {step : SweepStep} (live : selected step) (result : SweepResult) : step ≠ .done result := by
  intro same
  rw [same] at live
  cases live

theorem finished_of_selected {step : SweepStep} (live : selected step) : (Proc.sweep step).finished = false := by
  cases step <;> first | rfl | cases live

theorem step_found (lone : Lone store row world) (share : store.share = some row) (permitted : alone world event)
    (taken : (system env).step world event = some next) : ∀ (pid : Nat) (step : SweepStep),
      next.procs[pid]? = some (.sweep step) → selected step →
      Untouched store next.db.store ∧ (∃ now, store.reapable now) ∧ ∀ id, target step = some id → id = row.id := by
  intro other after there further
  rcases sweep_step_cases lone.sweeping.reapers (sweeps_of_alone permitted) taken with ⟨-, rfl⟩ |
    ⟨pid, clock, outcome, step, moved, effect, rfl, running, move, rfl⟩ | ⟨pid, proc, rfl, running, rfl⟩
  · rcases getElem?_concat_cases there with old | ⟨-, new⟩
    · exact lone.found other after old further
    · cases new
      cases further
  · rcases getElem?_set_cases there with ⟨rfl, same⟩ | ⟨apart, old⟩
    · cases same
      rcases sweep_target move further with ⟨rfl, due, named⟩ | ⟨selects, earlier, named⟩
      · -- a share that another sweep has finished is not selected
        rcases lone.sweeping.rows with waiting | reaped
        · have untouched : Untouched world.db.store (world.db.apply pid effect).store := by
            rcases sweep_untouched move with ⟨commit, -⟩ | ⟨untouched, -⟩
            · cases commit
            · exact untouched
          refine ⟨waiting.untouched.trans untouched, ⟨clock, waiting.untouched.reapable clock ▸ due⟩, fun id target => ?_⟩
          exact Option.some.inj (target.symm.trans (named row (waiting.untouched.1.trans share)))
        · exact absurd due (by simp [reaped.cleaned.not_reapable clock])
      · obtain ⟨before, due, selectedId⟩ := lone.found pid step running selects
        rcases sweep_untouched move with ⟨commit, -⟩ | ⟨untouched, -⟩
        · exact absurd commit earlier
        · exact ⟨before.trans untouched, due, fun id target => selectedId id (named id target)⟩
    · -- nobody else is running
      have live := unfinished_of_step taken running
      exact absurd (lone.unique _ _ _ _ running old live (finished_of_selected further)) apart
  · rcases getElem?_set_cases there with ⟨-, same⟩ | ⟨-, old⟩
    · cases same
    · rw [disconnect_store]
      exact lone.found other after old further

theorem step_lone (lone : Lone store row world) (share : store.share = some row) (permitted : alone world event)
    (taken : (system env).step world event = some next) : Lone store row next :=
  ⟨step_sweeping lone.sweeping share (sweeps_of_alone permitted) (lone.not_relocks event) taken,
    step_unique lone permitted taken, step_found lone share permitted taken⟩

theorem lone_start (store : Store) (row : ShareRow) : Lone store row (World.start store) where
  sweeping := sweeping_start store row
  unique _ _ _ _ here := by simp [World.start] at here
  found _ _ running := by simp [World.start] at running

/-- Rows and chain change with a COMMIT and not otherwise. -/
theorem step_untouched (reapers : ∀ proc ∈ world.procs, isSweep proc) (permitted : sweeps event)
    (kept : commits world event = false) (taken : (system env).step world event = some next) :
    Untouched world.db.store next.db.store := by
  rcases sweep_step_cases reapers permitted taken with ⟨-, rfl⟩ |
    ⟨pid, clock, outcome, step, moved, effect, rfl, running, move, rfl⟩ | ⟨pid, proc, rfl, running, rfl⟩
  · exact ⟨rfl, rfl, rfl⟩
  · rcases sweep_untouched move with ⟨rfl, -, executed⟩ | ⟨untouched, -⟩
    · simp [commits, running, executed] at kept
    · exact untouched
  · rw [disconnect_store]
    exact ⟨rfl, rfl, rfl⟩

/-! An uninterrupted sweep ends, and it has then reaped the share. -/

def rank (chunkCount : Nat) : SweepStep → Nat
  | .fetchReapable => chunkCount + 9
  | .fetchChunkKeys _ => chunkCount + 8
  | .removeBlobs _ keys _ => keys.length + 7
  | .lock .. => 6
  | .deleteChunks .. => 5
  | .update .. => 4
  | .rereadDestroyedAt .. => 3
  | .append _ => 2
  | .commit => 1
  | .done _ => 0

theorem rank_remaining (chunks : Nat) (id : String) (chunkCount : Nat) (keys : List String) :
    rank chunks (.remaining id chunkCount keys) ≤ keys.length + 7 := by
  cases keys with
  | nil => exact Nat.le_succ 6
  | cons key rest => exact Nat.le_refl _

theorem finished_of_inside {proc : Proc} (within : inside proc) : proc.finished = false := by
  unfold Proc.finished
  split <;> first | rfl | cases within

/-- The lock is free for the only sweep there is, and the share is where it was selected. -/
theorem Lone.lock_free {pid chunkCount : Nat} {id : String} (lone : Lone store row world)
    (share : store.share = some row) (running : world.procs[pid]? = some (.sweep (.lock id chunkCount))) :
    world.db.tx = none ∧ world.db.store.findById id = some row := by
  obtain ⟨untouched, -, named⟩ := lone.found pid _ running rfl
  constructor
  · cases opened : world.db.tx with
    | none => rfl
    | some tx =>
      obtain ⟨proc, held, within⟩ := lone.sweeping.locked.holder tx opened
      rw [lone.unique _ _ _ _ held running (finished_of_inside within) rfl, running] at held
      cases held
      cases within
  · exact findById_eq_some.mpr ⟨untouched.1.trans share, (named id rfl).symm⟩

/-- A call that goes through brings the sweep closer to its end, and the end is a success. -/
theorem Lone.move {pid : Nat} {clock : Timestamp} {step moved : SweepStep} {effect : Effect} (lone : Lone store row world)
    (share : store.share = some row) (running : world.procs[pid]? = some (.sweep step))
    (move : SweepMove world.db clock .ok step moved effect) :
    rank world.db.store.chunks.entries.length moved < rank world.db.store.chunks.entries.length step ∧
    ((∀ result, moved ≠ .done result) ∨ moved = .done .processed ∨
      moved = .done .idle ∧ world.db.store.reapable clock = false) := by
  cases move with
  | fetchReapable => exact ⟨Nat.lt_succ_self _, .inl (ne_done_of_selected rfl)⟩
  | idle _ nothing =>
    refine ⟨Nat.succ_pos _, .inr (.inr ⟨rfl, ?_⟩)⟩
    cases found : world.db.store.share with
    | none => rw [Store.reapable, found]
    | some current => exact nothing current found
  | @fetchChunkKeys id =>
    have bound := rank_remaining world.db.store.chunks.entries.length id world.db.store.chunks.entries.length
      (world.db.store.chunks.entries.map (·.2.blobKey))
    rw [List.length_map] at bound
    exact ⟨Nat.lt_succ_of_le bound, .inl (remaining_ne_done _ _ _)⟩
  | removeBlob =>
    exact ⟨Nat.lt_of_le_of_lt (rank_remaining _ _ _ _) (Nat.lt_succ_self _), .inl (remaining_ne_done _ _ _)⟩
  | removeLost lost => exact absurd rfl lost
  | removed => exact ⟨Nat.lt_succ_self _, .inl (ne_done_of_selected rfl)⟩
  | lock => exact ⟨Nat.lt_succ_self _, .inl (ne_done_of_selected rfl)⟩
  | gone _ absent =>
    obtain ⟨free, found⟩ := lone.lock_free share running
    simp [free, found] at absent
  | deleteChunks => exact ⟨Nat.lt_succ_self _, .inl (ne_done_of_selected rfl)⟩
  | update => exact ⟨Nat.lt_succ_self _, .inl (ne_done_of_selected rfl)⟩
  | updateNothing => exact ⟨Nat.lt_succ_self _, .inl (ne_done_of_selected rfl)⟩
  | rereadDestroyedAt => exact ⟨Nat.lt_succ_self _, .inl (ne_done_of_selected rfl)⟩
  | append => exact ⟨Nat.lt_succ_self _, .inl (ne_done_of_selected rfl)⟩
  | commit => exact ⟨Nat.lt_succ_self _, .inr (.inl rfl)⟩
  | commitLost lost => cases lost
  | fail _ bad => exact absurd rfl bad
  | rollback _ bad =>
    rcases bad with bad | ⟨row, reason, chunkCount, rfl, absent⟩
    · exact absurd rfl bad
    · exact absurd absent (reread_found lone.sweeping.locked running)

theorem sweep_enabled (db : Database) (clock : Timestamp) (outcome : Outcome) {step : SweepStep}
    (live : ∀ result, step ≠ .done result) : ∃ moved effect, step.exec db clock outcome = some (moved, effect) := by
  cases step with
  | done result => exact absurd rfl (live result)
  | _ => exact ⟨_, _, rfl⟩

theorem reapable_mono {now later : Timestamp} (due : store.reapable now) (after : now ≤ later) :
    store.reapable later := by
  unfold Store.reapable at due ⊢
  split at due
  next => cases due
  next current share =>
    simp only [Bool.or_eq_true, Bool.and_eq_true, decide_eq_true_eq] at due ⊢
    rcases due with (⟨live, expired | full⟩ | destroyed) | expired
    · exact .inl (.inl ⟨live, .inl (Nat.lt_of_lt_of_le expired after)⟩)
    · exact .inl (.inl ⟨live, .inr full⟩)
    · exact .inl (.inr destroyed)
    · exact .inr expired

/-- The calls of one sweep, all of which go through. -/
def uninterrupted (pid : Nat) (clocks : Nat → Timestamp) (count : Nat) : List Event :=
  (List.range count).map fun call => .exec pid (clocks call) .ok

theorem uninterrupted_succ (pid : Nat) (clocks : Nat → Timestamp) (count : Nat) :
    uninterrupted pid clocks (count + 1) =
      .exec pid (clocks 0) .ok :: uninterrupted pid (fun call => clocks (call + 1)) count := by
  simp [uninterrupted, List.range_succ_eq_map]

/-- A sweep with its last call behind it is the last to end, and the share is reaped. -/
theorem Lone.ended {pid : Nat} {clock : Timestamp} {step moved : SweepStep} {effect : Effect}
    (lone : Lone store row world) (share : store.share = some row) (due : store.reapable clock)
    (running : world.procs[pid]? = some (.sweep step))
    (taken : (system env).step world (.exec pid clock .ok) =
      some ⟨world.db.apply pid effect, world.procs.set pid (.sweep moved)⟩)
    (result : moved = .done .processed ∨ moved = .done .idle ∧ world.db.store.reapable clock = false) :
    Reaped store row ⟨world.db.apply pid effect, world.procs.set pid (.sweep moved)⟩ ∧
      World.quiet ⟨world.db.apply pid effect, world.procs.set pid (.sweep moved)⟩ := by
  constructor
  · have after := step_lone lone share rfl taken
    rcases result with rfl | ⟨rfl, missed⟩
    · rcases after.sweeping.rows with waiting | reaped
      · have counted := List.countP_eq_zero.mp waiting.unprocessed _ (mem_set_of_getElem? running)
        exact absurd rfl counted
      · exact reaped
    · rcases lone.sweeping.rows with waiting | reaped
      · rw [waiting.untouched.reapable, due] at missed
        cases missed
      · exact step_reaped lone.sweeping reaped rfl (lone.not_relocks _) taken
  · refine List.all_eq_true.mpr fun proc member => ?_
    obtain ⟨position, found⟩ := List.mem_iff_getElem?.mp member
    rcases getElem?_set_cases found with ⟨-, rfl⟩ | ⟨apart, old⟩
    · rcases result with rfl | ⟨rfl, -⟩ <;> rfl
    · by_contra unfinished
      exact apart (lone.unique _ _ _ _ running old (unfinished_of_step taken running) (by simpa using unfinished))

/-- By induction on what the sweep has left to do. -/
theorem Lone.finishes (env : Env) {now : Timestamp} (share : store.share = some row) (due : store.reapable now)
    (pid : Nat) (fuel : Nat) : ∀ (world : World) (step : SweepStep) (clocks : Nat → Timestamp), Lone store row world →
      world.procs[pid]? = some (.sweep step) → (∀ result, step ≠ .done result) →
      rank world.db.store.chunks.entries.length step ≤ fuel → (∀ call, now ≤ clocks call) →
      ∃ count final, (system env).Run (fun world event => alone world event) world (uninterrupted pid clocks count) final ∧
        Reaped store row final ∧ final.quiet := by
  induction fuel with
  | zero =>
    intro world step clocks lone running live bounded later
    cases step <;> first | exact absurd rfl (live _) | cases bounded
  | succ fuel ih =>
    intro world step clocks lone running live bounded later
    obtain ⟨moved, effect, executed⟩ := sweep_enabled world.db (clocks 0) .ok live
    have taken : (system env).step world (.exec pid (clocks 0) .ok) =
        some ⟨world.db.apply pid effect, world.procs.set pid (.sweep moved)⟩ := by
      simp [system, World.step, running, Proc.exec, executed]
    have move := sweep_move executed
    obtain ⟨smaller, continues | ended⟩ := lone.move share running move
    · have present := (List.getElem?_eq_some_iff.mp running).1
      have same : (world.db.apply pid effect).store.chunks = world.db.store.chunks := by
        rcases sweep_untouched move with ⟨rfl, rfl, -⟩ | ⟨untouched, -⟩
        · cases move with
          | commit => exact absurd rfl (continues _)
          | commitLost => exact absurd rfl (continues _)
        · exact untouched.2.1
      obtain ⟨count, final, rest, reached⟩ := ih ⟨world.db.apply pid effect, world.procs.set pid (.sweep moved)⟩ moved
        (fun call => clocks (call + 1)) (step_lone lone share rfl taken) (List.getElem?_set_self present) continues
        (by rw [same]; omega) (fun call => later (call + 1))
      refine ⟨count + 1, final, ?_, reached⟩
      rw [uninterrupted_succ]
      exact .cons rfl taken rest
    · have done := lone.ended share (reapable_mono due (later 0)) running taken ended
      refine ⟨1, _, ?_, done⟩
      rw [uninterrupted_succ]
      exact .cons rfl taken .nil

/-- Reaping survives every failure of a single reaper. Without a COMMIT the tables stay as
they are; a chunk row goes only after its blob; and whatever has happened, the next sweep
that is not interrupted leaves the share destroyed, nothing of it stored, and one entry of
the reaper on the chain. -/
theorem reaping_converges (env : Env) {now : Timestamp} {events : List Event} (share : store.share = some row)
    (due : store.reapable now) (unreaped : ∀ entry ∈ store.audit, reaperEntry row.id entry = false)
    (run : (system env).Run (fun world event => alone world event) (World.start store) events world) :
    (∀ attempt final, (system env).Run (fun world event => alone world event ∧ commits world event = false)
        world attempt final →
      final.db.store.share = world.db.store.share ∧ final.db.store.chunks = world.db.store.chunks ∧
        final.db.store.audit = world.db.store.audit) ∧
    (∀ index chunk, store.chunks.lookup index = some chunk → world.db.store.chunks.lookup index = none →
      world.db.store.blobs.lookup chunk.blobKey = none) ∧
    (world.quiet → ∀ clocks : Nat → Timestamp, (∀ call, now ≤ clocks call) →
      ∃ count final, (system env).Run (fun world event => alone world event) world
          (.spawn .sweep :: uninterrupted world.procs.length clocks count) final ∧ final.quiet ∧
        final.db.store.chunks = ∅ ∧
        (∀ index chunk, store.chunks.lookup index = some chunk → final.db.store.blobs.lookup chunk.blobKey = none) ∧
        final.db.store.state = some .destroyed ∧ final.db.store.audit.countP (reaperEntry row.id) = 1) := by
  have lone := run.invariant (Lone store row) (lone_start store row)
    fun _ _ _ lone permitted taken => step_lone lone share permitted taken
  refine ⟨fun attempt final after => ?_, fun index chunk named dropped => ?_, fun quiet clocks later => ?_⟩
  · have reached := after.invariant (fun current => Lone store row current ∧ Untouched world.db.store current.db.store)
      ⟨lone, rfl, rfl, rfl⟩ fun _ _ _ kept permitted taken => ⟨step_lone kept.1 share permitted.1 taken,
        kept.2.trans (step_untouched kept.1.sweeping.reapers (sweeps_of_alone permitted.1) permitted.2 taken)⟩
    exact reached.2
  · rcases lone.sweeping.rows with waiting | reaped
    · rw [waiting.untouched.2.1, named] at dropped
      cases dropped
    · exact reaped.gone ⟨index, chunk⟩ (AList.mem_lookup_iff.mp named)
  · have spawned : (system env).step world (.spawn .sweep) =
        some { world with procs := world.procs ++ [.sweep .fetchReapable] } := rfl
    have permitted : alone world (.spawn .sweep) := quiet
    obtain ⟨count, final, rest, reaped, still⟩ := Lone.finishes env share due world.procs.length _ _ _ clocks
      (step_lone lone share permitted spawned) List.getElem?_concat_length nofun (Nat.le_refl _) later
    obtain ⟨time, record, audit⟩ := reaped.recorded
    refine ⟨count, final, .cons permitted spawned rest, still, reaped.chunks, ?_, reaped.cleaned.1, ?_⟩
    · intro index chunk named
      exact reaped.gone ⟨index, chunk⟩ (AList.mem_lookup_iff.mp named)
    · have none : store.audit.countP (reaperEntry row.id) = 0 :=
        List.countP_eq_zero.mpr fun entry member => by simp [unreaped entry member]
      rw [audit, List.countP_append, none]
      simp [reaperEntry, reapEvent, recorded]

/-- The reaper is killed inside its transaction, with the blob removed already. -/
theorem reaping_converges_killed : ∃ events world,
    (system sampleEnv).Run (fun world event => alone world event) (World.start sampleReady) events world ∧
    world.db.store.blobs.lookup "abcdefghjkmn/0" = none ∧ world.db.store.state = some .ready ∧
    ∃ count final, (system sampleEnv).Run (fun world event => alone world event) world
        (.spawn .sweep :: uninterrupted 1 (fun _ => 2001) count) final ∧ final.quiet ∧
      final.db.store.chunks = ∅ ∧ final.db.store.state = some .destroyed ∧
      final.db.store.audit.countP (reaperEntry "8c1f0d6e") = 1 := by
  have replayed : ((system sampleEnv).replay (fun world event => alone world event) (World.start sampleReady)
      (.spawn .sweep :: steps 0 2000 6 ++ [.crash 0])).any
      (fun world => world.quiet && decide (world.procs.length = 1) &&
        decide (world.db.store.blobs.lookup "abcdefghjkmn/0" = none) &&
        decide (world.db.store.state = some .ready)) = true := by
    decide +kernel
  obtain ⟨world, run, passed⟩ := System.any_replay replayed
  simp only [Bool.and_eq_true, decide_eq_true_eq] at passed
  obtain ⟨⟨⟨quiet, single⟩, removed⟩, ready⟩ := passed
  have due : sampleReady.reapable 2000 := by decide +kernel
  obtain ⟨-, -, converges⟩ := reaping_converges sampleEnv rfl due (fun _ member => by cases member) run
  obtain ⟨count, final, rest, still, chunks, -, state, once⟩ := converges quiet (fun _ => 2001) fun _ => by decide
  rw [single] at rest
  exact ⟨_, world, run, removed, ready, count, final, rest, still, chunks, state, once⟩

end SlothBox.Proofs

import SlothBox.Proofs.Locking

/-! What the reaper's candidate query finds: every share that has something left to delete,
and none that a sweep has finished. -/

namespace SlothBox.Proofs
open Library

variable {env : Env} {world next : World} {event : Event}

/-- `downloaded` is never written, and a destroyed share says when it was destroyed. -/
def Orderly (store : Store) : Prop :=
  ∀ row, store.share = some row → row.state ≠ .downloaded ∧ (row.state = .destroyed → row.destroyedAt.isSome)

theorem step_orderly (locked : Locked world) (orderly : Orderly world.db.store)
    (taken : (system env).step world event = some next) : Orderly next.db.store := by
  rcases rewrite_cases locked taken with ⟨same, -⟩ | ⟨new, events, share, -, rewrites⟩
  · intro row found
    exact orderly row (same ▸ found)
  · intro row found
    obtain rfl : new = row := Option.some.inj (share.symm.trans found)
    generalize stored : world.db.store.share = current at rewrites
    cases rewrites with
    | insert => exact ⟨nofun, nofun⟩
    | promote running executed promoted =>
      rcases promotion_state promoted with rfl | rfl <;> exact ⟨nofun, nofun⟩
    | increment running executed named counted =>
      have regular := orderly _ stored
      obtain ⟨live, -, ⟨-, destroyed, stamped⟩ | expired | kept⟩ := incrementDownload_some counted
      · simp [destroyed, stamped]
      · simp [expired]
      · rcases live with ready | downloaded
        · simp [kept, ready]
        · exact absurd downloaded regular.1
    | revoke => exact ⟨nofun, fun _ => rfl⟩
    | burn => exact ⟨nofun, fun _ => rfl⟩
    | reap => exact ⟨nofun, fun _ => by simp [reapUpdate]⟩

theorem orderly_reached {events : List Event}
    (run : (system env).Run (fun _ _ => True) (World.start .empty) events world) :
    Locked world ∧ Orderly world.db.store :=
  run.invariant (fun world => Locked world ∧ Orderly world.db.store) ⟨locked_start _, fun _ found => by cases found⟩
    fun _ _ _ kept _ taken => ⟨locked_step kept.1 taken, step_orderly kept.1 kept.2 taken⟩

/-- The WHERE clause has a branch for every state in which a share can be due. -/
theorem reapable_of_due {store : Store} {row : ShareRow} {now : Timestamp} (orderly : Orderly store)
    (share : store.share = some row) (left : store.chunks.entries ≠ [])
    (due : row.expiresAt < now ∨ row.state = .expired ∨ row.state = .destroyed) : store.reapable now := by
  obtain ⟨undelivered, stamped⟩ := orderly row share
  have left : store.chunks.entries.isEmpty = false := by simpa using left
  unfold Store.reapable
  rw [share]
  cases state : row.state with
  | downloaded => exact absurd state undelivered
  | destroyed => simp [state, left, stamped state]
  | expired => simp [state, left]
  | _ =>
    have expired : row.expiresAt < now := by simpa [state] using due
    simp [state, expired]

/-- Nothing is left of the share but its row. -/
def Cleaned (store : Store) : Prop := store.state = some .destroyed ∧ store.chunks = ∅

theorem Cleaned.not_reapable {store : Store} (cleaned : Cleaned store) (now : Timestamp) :
    store.reapable now = false := by
  obtain ⟨state, chunks⟩ := cleaned
  obtain ⟨row, share, destroyed⟩ := Option.map_eq_some_iff.mp state
  have empty : store.chunks.entries = [] := by rw [chunks]; rfl
  simp [Store.reapable, share, destroyed, empty]

/-- The statement is one of the reaper's. -/
def reaperOnly (world : World) : Event → Bool
  | .exec pid _ _ => match world.procs[pid]? with
    | some (.sweep _) => true
    | _ => false
  | _ => true

/-- The reaper finds nothing left of the share, and leaves nothing. -/
theorem step_cleaned (locked : Locked world) (cleaned : Cleaned world.db.store)
    (permitted : reaperOnly world event) (taken : (system env).step world event = some next) :
    Cleaned next.db.store := by
  rcases commit_cases locked taken with ⟨same, -⟩ | ⟨pid, clock, outcome, proc, moved, effect, rfl, running, written, rfl⟩ |
    ⟨pid, clock, outcome, proc, moved, now, writes, rfl, running, -, last, holds, -, rfl⟩
  · rw [same]
    exact cleaned
  · simp only [reaperOnly, running] at permitted
    cases proc with
    | sweep step =>
      cases written with
      | append owed => cases owed
      | _ => exact cleaned
    | _ => cases permitted
  · simp only [reaperOnly, running] at permitted
    cases proc with
    | sweep step =>
      cases holds with
      | reaped => exact ⟨rfl, rfl⟩
      | _ => cases last
    | _ => cases permitted

/-- What a committed `finalizeDestroy` leaves. -/
theorem reap_cleaned (locked : Locked world) {pid : Nat} {clock : Timestamp} {outcome : Outcome}
    (running : world.procs[pid]? = some (.sweep .commit)) (executed : takesEffect outcome)
    (taken : (system env).step world (.exec pid clock outcome) = some next) : Cleaned next.db.store := by
  have committed : next.db.store = world.db.view := by
    simp only [system, World.step, running, Proc.exec, SweepStep.exec] at taken
    cases outcome with
    | ok => cases taken; rfl
    | lost => cases taken; rfl
    | _ => cases executed
  obtain ⟨now, writes, opened, holds⟩ := locked.held pid _ running rfl
  rw [committed, Database.view, opened]
  cases holds with
  | reaped => exact ⟨rfl, rfl⟩

/-- The candidate query misses nothing: whatever has come before, a share with chunks left
that is past its expiry, expired or destroyed is a candidate. Once a destruction has
committed it is none, and the reaper alone does not make it one again. -/
theorem candidates_complete (env : Env) {events : List Event}
    (run : (system env).Run (fun _ _ => True) (World.start .empty) events world) :
    (∀ row now, world.db.store.share = some row → world.db.store.chunks.entries ≠ [] →
      row.expiresAt < now ∨ row.state = .expired ∨ row.state = .destroyed → world.db.store.reapable now) ∧
    (∀ row, world.db.store.share = some row →
      row.state ≠ .downloaded ∧ (row.state = .destroyed → row.destroyedAt.isSome)) ∧
    ∀ pid clock outcome next later final, world.procs[pid]? = some (.sweep .commit) → takesEffect outcome →
      (system env).step world (.exec pid clock outcome) = some next →
      (system env).Run (fun world event => reaperOnly world event) next later final →
      ∀ now, final.db.store.reapable now = false := by
  obtain ⟨locked, orderly⟩ := orderly_reached run
  refine ⟨fun row now share left due => reapable_of_due orderly share left due, orderly, ?_⟩
  intro pid clock outcome next later final running executed taken after
  have reached := after.invariant (fun world => Locked world ∧ Cleaned world.db.store)
    ⟨locked_step locked taken, reap_cleaned locked running executed taken⟩ fun _ _ _ kept permitted taken =>
      ⟨locked_step kept.1 taken, step_cleaned kept.1 kept.2 permitted taken⟩
  exact reached.2.not_reapable

/-- A burned share is a candidate until a sweep commits. -/
theorem candidates_complete_burned : ∃ events world next,
    (system sampleEnv).Run (fun _ _ => True) (World.start .empty) events world ∧
    (system sampleEnv).step world (.exec 3 8 .ok) = some next ∧
    world.db.store.reapable 8 ∧ next.db.store.reapable 9 = false := by
  have replayed : ((system sampleEnv).replay (fun _ _ => true) (World.start .empty)
      (.spawn (.create sampleCreate) :: steps 0 5 3 ++ .spawn (.put samplePut) :: steps 1 6 7 ++
        .spawn (.get sampleGet) :: steps 2 7 11 ++ .spawn .sweep :: steps 3 8 8)).any
      (fun world => decide (world.procs[3]? = some (.sweep .commit)) && !world.db.store.chunks.entries.isEmpty &&
        (world.db.store.share.any fun row => row.state = .destroyed) &&
        ((system sampleEnv).step world (.exec 3 8 .ok)).isSome) = true := by
    decide +kernel
  obtain ⟨world, run, passed⟩ := System.any_replay replayed
  simp only [Bool.and_eq_true, decide_eq_true_eq, Bool.not_eq_true', List.isEmpty_eq_false_iff] at passed
  obtain ⟨⟨⟨running, left⟩, burned⟩, enabled⟩ := passed
  obtain ⟨row, share, destroyed⟩ := (Option.any_eq_true _ _).mp burned
  obtain ⟨next, taken⟩ := Option.isSome_iff_exists.mp enabled
  have run := run.mono fun _ _ _ => trivial
  obtain ⟨candidate, -, reaped⟩ := candidates_complete sampleEnv run
  exact ⟨_, world, next, run, taken, candidate row 8 share left (.inr (.inr (of_decide_eq_true destroyed))),
    reaped 3 8 .ok next [] next running rfl taken .nil 9⟩

end SlothBox.Proofs

import SlothBox.Library.Except
import SlothBox.System

/-! What one event can do. Every later argument about runs goes through these
inversions, so none of them unfolds the scheduler. -/

namespace SlothBox.Proofs
open Library

variable {env : Env} {world next : World} {event : Event}

theorem step_cases (taken : (system env).step world event = some next) :
    (∃ request, event = .spawn request ∧ next = { world with procs := world.procs ++ [request.start] }) ∨
    (∃ pid clock outcome proc moved effect, event = .exec pid clock outcome ∧
      world.procs[pid]? = some proc ∧ proc.exec env world.db clock outcome = some (moved, effect) ∧
      next = ⟨world.db.apply pid effect, world.procs.set pid moved⟩) ∨
    (∃ pid proc, event = .crash pid ∧ world.procs[pid]? = some proc ∧
      next = ⟨world.db.disconnect pid, world.procs.set pid .crashed⟩) := by
  cases event with
  | spawn request => exact .inl ⟨request, rfl, by simpa [system, World.step] using taken.symm⟩
  | exec pid clock outcome =>
    simp only [system, World.step, Option.bind_eq_bind, Option.bind_eq_some_iff] at taken
    obtain ⟨proc, running, ⟨moved, effect⟩, executed, same⟩ := taken
    exact .inr (.inl ⟨pid, clock, outcome, proc, moved, effect, rfl, running, executed, by simpa using same.symm⟩)
  | crash pid =>
    simp only [system, World.step, Option.bind_eq_bind, Option.bind_eq_some_iff] at taken
    obtain ⟨proc, running, same⟩ := taken
    exact .inr (.inr ⟨pid, proc, rfl, running, by simpa using same.symm⟩)

/-- A process is there as before, or has just been started, moved or killed. -/
theorem proc_origin (taken : (system env).step world event = some next) {proc : Proc} (member : proc ∈ next.procs) :
    proc ∈ world.procs ∨ (∃ request, event = .spawn request ∧ proc = request.start) ∨
    (∃ pid clock outcome before effect, event = .exec pid clock outcome ∧ world.procs[pid]? = some before ∧
      before.exec env world.db clock outcome = some (proc, effect)) ∨
    proc = .crashed := by
  rcases step_cases taken with ⟨request, rfl, rfl⟩ |
    ⟨pid, clock, outcome, before, moved, effect, rfl, running, executed, rfl⟩ | ⟨pid, before, rfl, running, rfl⟩
  · rcases List.mem_append.mp member with old | new
    · exact .inl old
    · exact .inr (.inl ⟨request, rfl, List.mem_singleton.mp new⟩)
  · rcases mem_set_cases member with rfl | old
    · exact .inr (.inr (.inl ⟨pid, clock, outcome, before, effect, rfl, running, executed⟩))
    · exact .inl old
  · rcases mem_set_cases member with rfl | old
    · exact .inr (.inr (.inr rfl))
    · exact .inl old

/-- Stepping a process is stepping its handler. -/
theorem handler_exec {α : Type} {wrap : α → Proc} {result : Option (α × Effect)} {moved : Proc} {effect : Effect}
    (executed : result.map (Prod.map wrap id) = some (moved, effect)) :
    ∃ after, result = some (after, effect) ∧ moved = wrap after := by
  obtain ⟨⟨after, same⟩, member, wrapped⟩ := Option.map_eq_some_iff.mp executed
  obtain ⟨rfl, rfl⟩ := Prod.mk.inj wrapped
  exact ⟨after, member, rfl⟩

theorem find_eq_some {store : Store} {shortId : String} {row : ShareRow} :
    store.find shortId = some row ↔ store.share = some row ∧ row.shortId = shortId := by
  simp [Store.find, Option.filter_eq_some_iff]

theorem findById_eq_some {store : Store} {id : String} {row : ShareRow} :
    store.findById id = some row ↔ store.share = some row ∧ row.id = id := by
  simp [Store.findById, Option.filter_eq_some_iff]

@[simp] theorem refuseIf_ok {condition : Prop} [Decidable condition] {reply : Reply} {u : Unit} :
    refuseIf condition reply = .ok u ↔ ¬condition := by
  unfold refuseIf
  split <;> simp_all

theorem refuseIf_error {condition : Prop} [Decidable condition] {reply refused : Reply}
    (stopped : refuseIf condition reply = .error refused) : refused = reply := by
  unfold refuseIf at stopped
  split at stopped
  · exact (Except.error.inj stopped).symm
  · cases stopped

/-- What an admitted upload knows about the share it was checked against. -/
theorem check_ok {options : IngestOptions} {request : PutRequest} {share : ShareRow} {now : Timestamp}
    {plan : PutPlan} (admitted : request.check options share now = .ok plan) :
    share.canAcceptUploads ∧ plan.share = share ∧ plan.index < share.chunkCount ∧
      plan.blobKey = buildBlobKey request.shortId plan.index := by
  simp only [PutRequest.check, bind_ok, refuseIf_ok] at admitted
  obtain ⟨-, accepts, -, inside, length, -, -, -, -, -, -, -, -, -, nonce, -, hash, -, same⟩ := admitted
  obtain rfl := Except.ok.inj same
  refine ⟨by simpa using fun refused => accepts (.inl refused), rfl, ?_, rfl⟩
  dsimp only
  omega

/-- The ways a reader can move. A refusal writes nothing and has sent nothing. -/
theorem get_cases {db : Database} {request : GetRequest} {clock : Timestamp} {outcome : Outcome}
    {step moved : GetStep} {effect : Effect}
    (executed : step.exec env db request clock outcome = some (moved, effect)) :
    (effect = .skip ∧ ∃ reply, moved = .refused reply) ∨
    (effect = .skip ∧ step = .acquire ∧ moved = .readShare) ∨
    (∃ share, effect = .skip ∧ step = .readShare ∧ db.store.find request.shortId = some share ∧
      share.canServeDownloads ∧ share.isExpired clock = false ∧ 0 ≤ request.chunkIndex ∧
      request.chunkIndex < share.chunkCount ∧ moved = .readChunk share) ∨
    (∃ share chunk, effect = .skip ∧ step = .readChunk share ∧
      db.store.chunks.lookup request.chunkIndex.toNat = some chunk ∧ request.check env share chunk = .ok () ∧
      moved = .stream share chunk) ∨
    (∃ share chunk, effect = .skip ∧ step = .stream share chunk ∧ moved = .body share chunk) ∨
    (∃ share chunk, effect = .skip ∧ step = .body share chunk ∧ moved = .mark share .lockShare) ∨
    (∃ share inner after, step = .mark share inner ∧
      inner.exec db share.id request.chunkIndex.toNat clock outcome = some (after, effect) ∧
      moved = after.elim (.mark share) (.done (.http 200 none) true)) := by
  cases step with
  | acquire =>
    obtain ⟨rfl, rfl⟩ := Prod.mk.inj (Option.some.inj executed)
    split
    · exact .inl ⟨rfl, _, rfl⟩
    · exact .inr (.inl ⟨rfl, rfl, rfl⟩)
  | readShare =>
    obtain ⟨rfl, rfl⟩ := Prod.mk.inj (Option.some.inj executed)
    split
    next =>
      split
      next => exact .inl ⟨rfl, _, rfl⟩
      next share found =>
        split
        next => exact .inl ⟨rfl, _, rfl⟩
        next servable =>
          split
          next => exact .inl ⟨rfl, _, rfl⟩
          next inside =>
            simp only [not_or, Bool.not_eq_false, Bool.not_eq_true] at servable
            exact .inr (.inr (.inl ⟨share, rfl, rfl, found, servable.1, servable.2, by omega, by omega, rfl⟩))
    next => exact .inl ⟨rfl, _, rfl⟩
  | readChunk share =>
    obtain ⟨rfl, rfl⟩ := Prod.mk.inj (Option.some.inj executed)
    split
    next =>
      split
      next => exact .inl ⟨rfl, _, rfl⟩
      next chunk found =>
        split
        next => exact .inl ⟨rfl, _, rfl⟩
        next admitted => exact .inr (.inr (.inr (.inl ⟨share, chunk, rfl, rfl, found, admitted, rfl⟩)))
    next => exact .inl ⟨rfl, _, rfl⟩
  | stream share chunk =>
    obtain ⟨rfl, rfl⟩ := Prod.mk.inj (Option.some.inj executed)
    split
    next =>
      split
      · exact .inr (.inr (.inr (.inr (.inl ⟨share, chunk, rfl, rfl, rfl⟩))))
      · exact .inl ⟨rfl, _, rfl⟩
    next => cases outcome <;> exact .inl ⟨rfl, _, rfl⟩
  | body share chunk =>
    obtain ⟨rfl, rfl⟩ := Prod.mk.inj (Option.some.inj executed)
    exact .inr (.inr (.inr (.inr (.inr (.inl ⟨share, chunk, rfl, rfl, rfl⟩)))))
  | mark share inner =>
    obtain ⟨⟨after, same⟩, marked, moved⟩ := Option.map_eq_some_iff.mp executed
    refine .inr (.inr (.inr (.inr (.inr (.inr ⟨share, inner, after, rfl, ?_⟩)))))
    cases after with
    | inl next =>
      obtain ⟨rfl, rfl⟩ := Prod.mk.inj moved
      exact ⟨marked, rfl⟩
    | inr result =>
      obtain ⟨rfl, rfl⟩ := Prod.mk.inj moved
      exact ⟨marked, rfl⟩
  | done reply sent marked => cases executed

/-! ### A small share

One chunk of one byte, for the schedules that replay a particular interleaving. -/

/-- SHA-256 on the 32 zero bytes of the sample token. -/
def zeroDigest : Bytes :=
  [102, 104, 122, 173, 248, 98, 189, 119, 108, 143, 193, 139, 142, 159, 142, 32,
    8, 151, 20, 133, 110, 226, 51, 179, 144, 42, 89, 29, 13, 95, 41, 37]

def sampleEnv : Env where
  sha256 bytes := if bytes = List.replicate 32 0 then zeroDigest else List.replicate 32 0
  queryError sql params _ := "Failed query: " ++ sql ++ "\nparams: " ++ ",".intercalate params

/-- The token of 32 zero bytes as a bearer header. -/
def sampleBearer : String := "Bearer AAAAAAAAAAAAAAAAAAAAAAAAAAAAAAAAAAAAAAAAAAA"

def sampleCreate : CreateRequest where
  id := "8c1f0d6e"
  shortId := "abcdefghjkmn"
  expiresAt := 1000
  burnAfterRead := true
  maxDownloads := none
  fileHash := List.replicate 32 7
  fileSize := 1
  encryptedMeta := [1]
  nonceMeta := List.replicate 24 0
  chunkCount := 1
  chunkSize := 1
  passwordProtected := false
  passwordSalt := none
  passwordKdfOpsLimit := none
  passwordKdfMemLimitKib := none
  revokeTokenHash := some zeroDigest
  ingestPublicUrl := "https://ingest.local"

/-- The sample share as its INSERT left it. -/
def sampleStore : Store := { Store.empty with share := some (sampleCreate.row 5) }

def samplePut : PutRequest where
  shortId := "abcdefghjkmn"
  chunkIndex := 0
  contentLength := some 17
  nonceHeader := some "AAAAAAAAAAAAAAAAAAAAAAAAAAAAAAAA"
  tokenHashHeader := none
  body := List.replicate 17 5

/-- The sample share uploaded, nothing of it served. -/
def sampleReady : Store where
  share := some { sampleCreate.row 5 with state := .ready }
  chunks := AList.singleton 0 ⟨List.replicate 24 0, "abcdefghjkmn/0", 17, some 6, none, 0, some zeroDigest⟩
  blobs := AList.singleton "abcdefghjkmn/0" (List.replicate 17 5)
  audit := []

def sampleGet : GetRequest := ⟨"abcdefghjkmn", 0, some sampleBearer⟩

def sampleDestroy : DestroyRequest := ⟨"abcdefghjkmn", some sampleBearer⟩

/-- Runs a process through its next statements, all of which succeed. -/
def steps (pid clock count : Nat) : List Event := List.replicate count (.exec pid clock .ok)

end SlothBox.Proofs

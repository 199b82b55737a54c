import Mathlib.Data.List.Infix
import SlothBox.Proofs.Locking

/-! What `POST /downloaded` reports. It answers with a row that it has read or written. A refusal
of `increment_download` would be answered `destroyed`, whatever its reason, if the handler
recognised it; but the message that it looks at names the query and not what the
database has raised. -/

namespace SlothBox.Proofs
open Library

/-- drizzle-orm's message: the query and its parameters. What the driver has thrown is the cause of
its error, and no part of the message. -/
def NamesQuery (env : Env) : Prop :=
  ∀ sql params thrown, env.queryError sql params thrown = "Failed query: " ++ sql ++ "\nparams: " ++ ",".intercalate params

theorem space_notMem {shortId : String} (valid : validShortId shortId) : ' ' ∉ shortId.toList := by
  intro inside
  have letter := List.all_eq_true.mp (Bool.and_eq_true_iff.mp valid).2 ' ' inside
  revert letter
  decide

/-- The handler does not recognise the refusal, and rethrows. -/
theorem caught_internal {env : Env} {request : DownloadedRequest} (drizzle : NamesQuery env)
    (valid : validShortId request.shortId) : request.caught env = .internalError := by
  rw [DownloadedRequest.caught, drizzle]
  refine if_neg fun found => ?_
  have stands := Search.infix_of_index found
  have words : "share not available".toList = ("share not".toList ++ [' ']) ++ "available".toList := by decide
  have single : ",".intercalate [request.shortId] = request.shortId := rfl
  rw [words] at stands
  have stands := (List.prefix_append _ _).isInfix.trans stands
  rw [single, String.toList_append] at stands
  -- the second space would have to stand before the identifier, where the words do not
  have before := Search.infix_before ' ' (space_notMem valid) stands
  revert before
  decide +kernel

/-- A world of the run in which the request had begun, was not answered yet, and the share was in
this state. -/
def Observed (env : Env) (allowed : World → Event → Prop) (start : World) (events : List Event) (final : World)
    (pid : Nat) (request : DownloadedRequest) (state : ShareState) : Prop :=
  ∃ first second middle step, events = first ++ second ∧ (system env).Run allowed start first middle ∧
    (system env).Run allowed middle second final ∧ middle.procs[pid]? = some (.downloaded request step) ∧
    (Proc.downloaded request step).finished = false ∧
    (middle.db.store.find request.shortId).map ShareRow.state = some state

section Observed
variable {env : Env} {allowed : World → Event → Prop} {start : World} {events : List Event} {world next : World}
  {event : Event} {pid : Nat} {request : DownloadedRequest} {step : DownloadedStep} {state : ShareState}

theorem Observed.here (run : (system env).Run allowed start events world)
    (running : world.procs[pid]? = some (.downloaded request step))
    (unanswered : (Proc.downloaded request step).finished = false)
    (found : (world.db.store.find request.shortId).map ShareRow.state = some state) :
    Observed env allowed start events world pid request state :=
  ⟨events, [], world, step, (List.append_nil _).symm, run, .nil, running, unanswered, found⟩

theorem Observed.later (seen : Observed env allowed start events world pid request state)
    (permitted : allowed world event) (taken : (system env).step world event = some next) :
    Observed env allowed start (events ++ [event]) next pid request state := by
  obtain ⟨first, second, middle, step, rfl, before, after, running, unanswered, found⟩ := seen
  exact ⟨first, second ++ [event], middle, step, List.append_assoc _ _ _, before, .snoc after permitted taken, running,
    unanswered, found⟩

end Observed

/-- What a handler has to show for the answer it gives or is going to give. -/
def Justified (env : Env) (allowed : World → Event → Prop) (start : World) (events : List Event) (world : World)
    (pid : Nat) (request : DownloadedRequest) : DownloadedStep → Prop
  | .readShare | .increment => validShortId request.shortId
  | .append updated => Observed env allowed start events world pid request updated.state
  | .done (.state state) => Observed env allowed start events world pid request state
  | _ => True

section Step
variable {env : Env} {allowed : World → Event → Prop} {start world next : World} {events : List Event} {event : Event}
  {pid : Nat} {request : DownloadedRequest}

/-- Whoever does not move keeps its reasons. -/
theorem Justified.later {step : DownloadedStep} (permitted : allowed world event)
    (taken : (system env).step world event = some next)
    (justified : Justified env allowed start events world pid request step) :
    Justified env allowed start (events ++ [event]) next pid request step := by
  cases step with
  | append updated => exact Observed.later justified permitted taken
  | done reply =>
    cases reply with
    | state state => exact Observed.later justified permitted taken
    | _ => trivial
  | _ => exact justified

/-- One statement of the handler itself. -/
theorem move_justified {clock : Timestamp} {outcome : Outcome} {step moved : DownloadedStep} {effect : Effect}
    (drizzle : NamesQuery env) (run : (system env).Run allowed start events world)
    (permitted : allowed world (.exec pid clock outcome))
    (taken : (system env).step world (.exec pid clock outcome) = some next)
    (running : world.procs[pid]? = some (.downloaded request step))
    (after : next = ⟨world.db.apply pid effect, world.procs.set pid (.downloaded request moved)⟩)
    (executed : step.exec env world.db request clock outcome = some (moved, effect))
    (justified : Justified env allowed start events world pid request step) :
    Justified env allowed start (events ++ [.exec pid clock outcome]) next pid request moved := by
  cases downloaded_move executed with
  | acquire valid => exact valid
  | ended found terminal =>
    have seen := Observed.here run running rfl (by rw [found, Option.map_some])
    exact seen.later permitted taken
  | live => exact justified
  | refused =>
    rw [caught_internal drizzle justified]
    trivial
  | @increment row updated free ok found counted =>
    -- the row that it has just written
    obtain ⟨-, named⟩ := find_eq_some.mp found
    have same : updated.shortId = request.shortId := by
      obtain ⟨_, _, _, _, rfl⟩ := incrementDownload_terms counted
      exact named
    have present := (List.getElem?_eq_some_iff.mp running).1
    have moved : next.procs[pid]? = some (.downloaded request (.append updated)) := by
      rw [after, List.getElem?_set_self present]
    refine Observed.here (.snoc run permitted taken) moved rfl ?_
    have stored : next.db.store.share = some updated := by
      rw [after]
      rfl
    rw [find_eq_some.mpr ⟨stored, same⟩, Option.map_some]
  | incrementLost => trivial
  | append => exact Observed.later justified permitted taken
  | appendNothing => exact Observed.later justified permitted taken
  | @stop _ reply silent =>
    cases reply with
    | state state => exact absurd rfl (silent state)
    | _ => trivial

end Step

/-- Every handler of a run can justify where it stands. -/
theorem justified_reached {env : Env} (drizzle : NamesQuery env) {allowed : World → Event → Prop} {store : Store}
    {events : List Event} {world : World} (run : (system env).Run allowed (World.start store) events world) :
    ∀ pid request step, world.procs[pid]? = some (.downloaded request step) →
      Justified env allowed (World.start store) events world pid request step := by
  induction run with
  | nil =>
    intro pid request step running
    simp [World.start] at running
  | @snoc events world event next before permitted taken ih =>
    intro pid request step running
    rcases step_cases taken with ⟨spawned, rfl, same⟩ |
      ⟨mover, clock, outcome, proc, moved, effect, rfl, found, executed, same⟩ | ⟨mover, proc, rfl, found, same⟩
    · rw [same] at running
      rcases getElem?_concat_cases running with old | ⟨-, new⟩
      · exact (ih pid request step old).later permitted taken
      · cases spawned <;> cases new
        trivial
    · rw [same] at running
      rcases getElem?_set_cases running with ⟨rfl, rfl⟩ | ⟨-, old⟩
      · cases proc with
        | downloaded mine own =>
          obtain ⟨after, call, wrapped⟩ := handler_exec executed
          cases wrapped
          exact move_justified drizzle before permitted taken found same call (ih mover request own found)
        | crashed => cases executed
        | _ =>
          obtain ⟨after, -, wrapped⟩ := handler_exec executed
          cases wrapped
      · exact (ih pid request step old).later permitted taken
    · rw [same] at running
      rcases getElem?_set_cases running with ⟨-, other⟩ | ⟨-, old⟩
      · cases other
      · exact (ih pid request step old).later permitted taken

/-- Whatever is interleaved, and however calls end, every state that `POST /downloaded` answers
with was the share's at some moment of the request. -/
theorem downloaded_truthful (env : Env)
    (drizzle : ∀ sql params thrown,
      env.queryError sql params thrown = "Failed query: " ++ sql ++ "\nparams: " ++ ",".intercalate params)
    {store : Store} {events : List Event} {final : World} {pid : Nat} {request : DownloadedRequest} {state : ShareState}
    (run : (system env).Run (fun _ _ => True) (World.start store) events final)
    (answered : final.procs[pid]? = some (.downloaded request (.done (.state state)))) :
    Observed env (fun _ _ => True) (World.start store) events final pid request state :=
  justified_reached drizzle run pid request _ answered

def sampleDownloaded : DownloadedRequest := ⟨"abcdefghjkmn"⟩

/-- The sample share is burned by the acknowledgement, and the answer says so. -/
theorem downloaded_truthful_burned : ∃ events final,
    (system sampleEnv).Run (fun _ _ => True) (World.start sampleReady) events final ∧
    final.procs[0]? = some (.downloaded sampleDownloaded (.done (.state .destroyed))) ∧
    Observed sampleEnv (fun _ _ => True) (World.start sampleReady) events final 0 sampleDownloaded .destroyed := by
  have replayed : ((system sampleEnv).replay (fun _ _ => true) (World.start sampleReady)
      (.spawn (.downloaded sampleDownloaded) :: steps 0 7 4)).any (fun final =>
        final.procs[0]? = some (.downloaded sampleDownloaded (.done (.state .destroyed)))) = true := by decide +kernel
  obtain ⟨final, run, answered⟩ := System.any_replay replayed
  have run := run.mono fun _ _ _ => trivial
  have answered := of_decide_eq_true answered
  exact ⟨_, final, run, answered, downloaded_truthful sampleEnv (fun _ _ _ => rfl) run answered⟩

/-- Nothing is uploaded yet, and the refused call ends in an error. -/
example : ((system sampleEnv).replay (fun _ _ => true) (World.start sampleStore)
    (.spawn (.downloaded sampleDownloaded) :: steps 0 7 3)).any (fun final =>
      final.procs[0]? = some (.downloaded sampleDownloaded (.done .internalError))) = true := by decide +kernel

end SlothBox.Proofs

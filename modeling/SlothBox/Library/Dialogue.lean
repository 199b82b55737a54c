import Mathlib.Data.List.Sigma
import SlothBox.Library.Except

/-! Programs that ask. The partner may remember what it was asked and change its mind; a program
that asks nothing twice cannot tell it from one whose answers were fixed in advance. -/

namespace SlothBox.Library

variable {ρ : Type} {answer : ρ → Type} {ε ε' α β σ : Type}

inductive Dialogue (ρ : Type) (answer : ρ → Type) (ε α : Type) where
  | result (value : Except ε α)
  | ask (request : ρ) (resume : answer request → Dialogue ρ answer ε α)

/-- A dialogue that has ended, with the partner's last state. -/
structure Conversation (ρ : Type) (answer : ρ → Type) (ε α σ : Type) where
  result : Except ε α
  transcript : List (Sigma answer)
  state : σ

def Conversation.requests (conversation : Conversation ρ answer ε α σ) : List ρ := conversation.transcript.keys

namespace Dialogue

def bind : Dialogue ρ answer ε α → (α → Dialogue ρ answer ε β) → Dialogue ρ answer ε β
  | .result (.ok value), next => next value
  | .result (.error thrown), _ => .result (.error thrown)
  | .ask request resume, next => .ask request fun reply => (resume reply).bind next

instance : Monad (Dialogue ρ answer ε) where
  pure value := .result (.ok value)
  bind := bind

def call (request : ρ) : Dialogue ρ answer ε (answer request) := .ask request fun reply => .result (.ok reply)

/-- `try … catch`: the error becomes a value. -/
def caught : Dialogue ρ answer ε α → Dialogue ρ answer ε' (Except ε α)
  | .result value => .result (.ok value)
  | .ask request resume => .ask request fun reply => (resume reply).caught

/-- With a partner that may remember. -/
def converse (serve : σ → (request : ρ) → answer request × σ) : Dialogue ρ answer ε α → σ → Conversation ρ answer ε α σ
  | .result value, state => ⟨value, [], state⟩
  | .ask request resume, state =>
    let rest := (resume (serve state request).1).converse serve (serve state request).2
    ⟨rest.result, ⟨request, (serve state request).1⟩ :: rest.transcript, rest.state⟩

/-- With a partner whose answers are fixed. -/
def against (oracle : (request : ρ) → answer request) : Dialogue ρ answer ε α → Except ε α
  | .result value => value
  | .ask request resume => (resume (oracle request)).against oracle

/-- What it asks such a partner. -/
def asked (oracle : (request : ρ) → answer request) : Dialogue ρ answer ε α → List ρ
  | .result _ => []
  | .ask request resume => request :: (resume (oracle request)).asked oracle

/-- Whatever it hears, it asks these in this order, and leaves early only with an error. -/
def Asks : Dialogue ρ answer ε α → List ρ → Prop
  | .result (.ok _), requests => requests = []
  | .result (.error _), _ => True
  | .ask _ _, [] => False
  | .ask request resume, first :: rest => request = first ∧ ∀ reply, (resume reply).Asks rest

/-! ### Sequencing -/

theorem bind_eq (program : Dialogue ρ answer ε α) (next : α → Dialogue ρ answer ε β) :
    (program >>= next) = program.bind next := rfl

theorem bind_assoc {γ : Type} (program : Dialogue ρ answer ε α) (first : α → Dialogue ρ answer ε β)
    (second : β → Dialogue ρ answer ε γ) :
    (program.bind first).bind second = program.bind fun value => (first value).bind second := by
  induction program with
  | result value => cases value <;> rfl
  | ask request resume ih => exact congrArg (ask request) (funext ih)

theorem bind_pure (program : Dialogue ρ answer ε α) : (program.bind fun value => .result (.ok value)) = program := by
  induction program with
  | result value => cases value <;> rfl
  | ask request resume ih => exact congrArg (ask request) (funext ih)

instance : LawfulMonad (Dialogue ρ answer ε) :=
  LawfulMonad.mk' _ bind_pure (fun _ _ => rfl) bind_assoc

theorem against_bind (oracle : (request : ρ) → answer request) (program : Dialogue ρ answer ε α)
    (next : α → Dialogue ρ answer ε β) :
    (program >>= next).against oracle = program.against oracle >>= fun value => (next value).against oracle := by
  induction program with
  | result value => cases value <;> rfl
  | ask request resume ih => exact ih _

theorem against_mapM (oracle : (request : ρ) → answer request) (step : α → Dialogue ρ answer ε β) (items : List α) :
    (items.mapM step).against oracle = items.mapM fun item => (step item).against oracle := by
  induction items with
  | nil => rfl
  | cons item rest ih =>
    rw [List.mapM_cons, List.mapM_cons, against_bind]
    refine congrArg _ (funext fun value => ?_)
    rw [against_bind, ih]
    rfl

theorem asked_bind (oracle : (request : ρ) → answer request) (program : Dialogue ρ answer ε α)
    (next : α → Dialogue ρ answer ε β) :
    (program >>= next).asked oracle =
      program.asked oracle ++ (program.against oracle).toOption.elim [] fun value => (next value).asked oracle := by
  induction program with
  | result value => cases value <;> rfl
  | ask request resume ih => exact congrArg (request :: ·) (ih _)

theorem converse_bind (serve : σ → (request : ρ) → answer request × σ) (program : Dialogue ρ answer ε α)
    (next : α → Dialogue ρ answer ε β) (state : σ) :
    (program >>= next).converse serve state =
      match (program.converse serve state).result with
      | .error thrown => ⟨.error thrown, (program.converse serve state).transcript, (program.converse serve state).state⟩
      | .ok value =>
        let rest := (next value).converse serve (program.converse serve state).state
        ⟨rest.result, (program.converse serve state).transcript ++ rest.transcript, rest.state⟩ := by
  induction program generalizing state with
  | result value => cases value <;> rfl
  | ask request resume ih =>
    rw [bind_eq, bind, converse, ← bind_eq, ih]
    simp only [converse]
    split <;> rfl

theorem converse_bind_ok {serve : σ → (request : ρ) → answer request × σ} {program : Dialogue ρ answer ε α} {state : σ} {value : α}
    (next : α → Dialogue ρ answer ε β) (returned : (program.converse serve state).result = .ok value) :
    (program >>= next).converse serve state =
      ⟨((next value).converse serve (program.converse serve state).state).result,
        (program.converse serve state).transcript ++ ((next value).converse serve (program.converse serve state).state).transcript,
        ((next value).converse serve (program.converse serve state).state).state⟩ := by
  rw [converse_bind, returned]

theorem converse_caught (serve : σ → (request : ρ) → answer request × σ) (program : Dialogue ρ answer ε α) (state : σ) :
    (program.caught : Dialogue ρ answer ε' (Except ε α)).converse serve state =
      ⟨.ok (program.converse serve state).result, (program.converse serve state).transcript,
        (program.converse serve state).state⟩ := by
  induction program generalizing state with
  | result value => rfl
  | ask request resume ih =>
    rw [caught, converse, ih]
    rfl

/-! ### A fixed order of requests -/

namespace Asks

theorem bind {program : Dialogue ρ answer ε α} {next : α → Dialogue ρ answer ε β} {first rest : List ρ}
    (asks : program.Asks first) (onwards : ∀ value, (next value).Asks rest) : (program >>= next).Asks (first ++ rest) := by
  induction program generalizing first with
  | result value =>
    cases value with
    | error thrown => trivial
    | ok value =>
      cases asks
      exact onwards value
  | ask request resume ih =>
    cases first with
    | nil => cases asks
    | cons head tail => exact ⟨asks.1, fun reply => ih reply (asks.2 reply)⟩

theorem lift (value : Except ε α) : (Dialogue.result value : Dialogue ρ answer ε α).Asks [] := by
  cases value
  · trivial
  · rfl

theorem call (request : ρ) : (Dialogue.call request : Dialogue ρ answer ε (answer request)).Asks [request] :=
  ⟨rfl, fun _ => rfl⟩

/-- A loop whose turns each ask one thing. -/
theorem mapM {step : α → Dialogue ρ answer ε β} {request : α → ρ} {items : List α}
    (turn : ∀ item ∈ items, (step item).Asks [request item]) : (items.mapM step).Asks (items.map request) := by
  induction items with
  | nil => exact lift _
  | cons item rest ih =>
    rw [List.mapM_cons]
    refine Asks.bind (turn item List.mem_cons_self) fun value => ?_
    have later := ih fun item inside => turn item (List.mem_cons_of_mem _ inside)
    have whole : (rest.mapM step >>= fun values => pure (value :: values)).Asks (rest.map request ++ []) :=
      later.bind fun _ => lift _
    rwa [List.append_nil] at whole

/-- What is asked is a part from the front, and all of it if the program returns. -/
theorem requests {program : Dialogue ρ answer ε α} {order : List ρ} (asks : program.Asks order)
    (serve : σ → (request : ρ) → answer request × σ) (state : σ) :
    (program.converse serve state).requests <+: order ∧
      ∀ value, (program.converse serve state).result = .ok value → (program.converse serve state).requests = order := by
  induction program generalizing order state with
  | result value =>
    cases value with
    | error thrown => exact ⟨List.nil_prefix, nofun⟩
    | ok value =>
      cases asks
      exact ⟨List.nil_prefix, fun _ _ => rfl⟩
  | ask request resume ih =>
    cases order with
    | nil => cases asks
    | cons head rest =>
      obtain ⟨rfl, onwards⟩ := asks
      obtain ⟨front, whole⟩ := ih _ (onwards _) (serve state request).2
      exact ⟨List.cons_prefix_cons.mpr ⟨rfl, front⟩, fun value returned => congrArg (request :: ·) (whole value returned)⟩

/-- If the program returns, it has asked for everything. -/
theorem asked {program : Dialogue ρ answer ε α} {order : List ρ} (asks : program.Asks order)
    {oracle : (request : ρ) → answer request} {value : α} (returned : program.against oracle = .ok value) :
    program.asked oracle = order := by
  induction program generalizing order with
  | result outcome =>
    cases outcome with
    | error thrown => cases returned
    | ok value =>
      cases asks
      rfl
  | ask request resume ih =>
    cases order with
    | nil => cases asks
    | cons head rest =>
      obtain ⟨rfl, onwards⟩ := asks
      exact congrArg (request :: ·) (ih _ (onwards _) returned)

end Asks

/-! ### Partners with a memory -/

/-- A partner that has said what a fixed one says has not been told from it. -/
theorem converse_fixed {oracle : (request : ρ) → answer request} (program : Dialogue ρ answer ε α)
    (serve : σ → (request : ρ) → answer request × σ) (state : σ)
    (said : ∀ entry ∈ (program.converse serve state).transcript, oracle entry.1 = entry.2) :
    program.against oracle = (program.converse serve state).result ∧
      program.asked oracle = (program.converse serve state).requests := by
  induction program generalizing state with
  | result value => exact ⟨rfl, rfl⟩
  | ask request resume ih =>
    have first : oracle request = (serve state request).1 := said ⟨request, _⟩ List.mem_cons_self
    obtain ⟨same, order⟩ := ih (serve state request).1 (serve state request).2 fun entry inside =>
      said entry (List.mem_cons_of_mem _ inside)
    rw [against, asked, first]
    exact ⟨same, congrArg (request :: ·) order⟩

/-- Where nothing is asked twice, the answers given are those of a fixed partner. -/
theorem exists_fixed (otherwise : (request : ρ) → answer request) (program : Dialogue ρ answer ε α)
    (serve : σ → (request : ρ) → answer request × σ) (state : σ)
    (once : (program.converse serve state).requests.Nodup) :
    ∃ oracle : (request : ρ) → answer request, (∀ entry ∈ (program.converse serve state).transcript,
        oracle entry.1 = entry.2) ∧
      program.against oracle = (program.converse serve state).result ∧
      program.asked oracle = (program.converse serve state).requests := by
  classical
  let oracle request := ((program.converse serve state).transcript.dlookup request).getD (otherwise request)
  have said : ∀ entry ∈ (program.converse serve state).transcript, oracle entry.1 = entry.2 := by
    intro entry inside
    have found : (program.converse serve state).transcript.dlookup entry.1 = some entry.2 :=
      (List.mem_dlookup_iff once).mpr inside
    simp only [oracle, found, Option.getD_some]
  exact ⟨oracle, said, converse_fixed program serve state said⟩

/-- A partner that goes through stages: at each it says what the fixed one says to the next request. -/
theorem converse_follows {oracle : (request : ρ) → answer request} {serve : σ → (request : ρ) → answer request × σ}
    {stage : List ρ → σ → Prop} (program : Dialogue ρ answer ε α)
    (turn : ∀ request rest state, stage (request :: rest) state →
      (serve state request).1 = oracle request ∧ stage rest (serve state request).2)
    {state : σ} (start : stage (program.asked oracle) state) :
    (program.converse serve state).result = program.against oracle ∧ stage [] (program.converse serve state).state := by
  induction program generalizing state with
  | result value => exact ⟨rfl, start⟩
  | ask request resume ih =>
    obtain ⟨same, onwards⟩ := turn request _ state start
    rw [← same] at onwards
    rw [against, ← same]
    exact ih _ onwards

/-- What each request that is made keeps of the partner's state, the dialogue keeps. -/
theorem converse_keeps {serve : σ → (request : ρ) → answer request × σ} {motive : σ → Prop} {allowed : ρ → Prop}
    (step : ∀ state request, allowed request → motive state → motive (serve state request).2)
    (program : Dialogue ρ answer ε α) {state : σ}
    (polite : ∀ request ∈ (program.converse serve state).requests, allowed request) (start : motive state) :
    motive (program.converse serve state).state := by
  induction program generalizing state with
  | result value => exact start
  | ask request resume ih =>
    have kept := step state request (polite request List.mem_cons_self) start
    exact ih _ (fun later inside => polite later (List.mem_cons_of_mem _ inside)) kept

end Dialogue

end SlothBox.Library

import Mathlib.Data.List.Basic

/-! Runs of a labelled transition system. A step that is not enabled returns
nothing, so a blocked process simply cannot be scheduled. Guarded runs restrict
the environment without changing what a step does. Processes stand in a list,
each under its own number. -/

namespace SlothBox.Library

universe u v w x

structure System (σ : Type u) (ε : Type v) where
  step : σ → ε → Option σ

namespace System
variable {σ : Type u} {ε : Type v} (system : System σ ε)

/-- A run whose every event is permitted in the state it is taken from. -/
inductive Run (allowed : σ → ε → Prop) (start : σ) : List ε → σ → Prop where
  | nil : Run allowed start [] start
  | snoc {events state event next} (before : Run allowed start events state)
      (permitted : allowed state event) (taken : system.step state event = some next) :
      Run allowed start (events ++ [event]) next

def Reachable (allowed : σ → ε → Prop) (start state : σ) : Prop :=
  ∃ events, system.Run allowed start events state

/-- Replays a schedule, checking the guard at each event. -/
def replay (allowed : σ → ε → Bool) (start : σ) : List ε → Option σ
  | [] => some start
  | event :: rest =>
    if allowed start event then (system.step start event).bind (replay allowed · rest) else none

variable {system} {allowed : σ → ε → Prop} {start : σ}

/-- What holds at the start and survives every permitted step holds throughout. -/
theorem Run.invariant {events final} (run : system.Run allowed start events final)
    (holds : σ → Prop) (initial : holds start)
    (preserved : ∀ state event next, holds state → allowed state event →
      system.step state event = some next → holds next) : holds final := by
  induction run with
  | nil => exact initial
  | snoc before permitted taken ih => exact preserved _ _ _ ih permitted taken

theorem Run.cons {event events state final} (permitted : allowed start event)
    (taken : system.step start event = some state) (rest : system.Run allowed state events final) :
    system.Run allowed start (event :: events) final := by
  induction rest with
  | nil =>
    rw [← List.nil_append [event]]
    exact .snoc .nil permitted taken
  | snoc before allowedLast last ih =>
    rw [← List.cons_append]
    exact .snoc ih allowedLast last

theorem Run.mono {weaker : σ → ε → Prop} {events final} (run : system.Run allowed start events final)
    (implies : ∀ state event, allowed state event → weaker state event) :
    system.Run weaker start events final := by
  induction run with
  | nil => exact .nil
  | snoc _ permitted taken ih => exact .snoc ih (implies _ _ permitted) taken

theorem Reachable.trans {middle final : σ} (first : system.Reachable allowed start middle)
    (second : system.Reachable allowed middle final) : system.Reachable allowed start final := by
  obtain ⟨events, run⟩ := first
  obtain ⟨others, rest⟩ := second
  induction rest with
  | nil => exact ⟨events, run⟩
  | snoc before permitted taken ih =>
    obtain ⟨all, reached⟩ := ih
    exact ⟨_, .snoc reached permitted taken⟩

theorem Reachable.step {state next : σ} {event : ε} (permitted : allowed state event)
    (taken : system.step state event = some next) : system.Reachable allowed state next :=
  ⟨_, .snoc .nil permitted taken⟩

theorem run_of_replay (guard : σ → ε → Bool) {events : List ε} {final : σ}
    (replayed : system.replay guard start events = some final) :
    system.Run (fun state event => guard state event = true) start events final := by
  induction events generalizing start with
  | nil =>
    obtain rfl : start = final := by simpa [replay] using replayed
    exact .nil
  | cons event rest ih =>
    simp only [replay] at replayed
    split at replayed
    next permitted =>
      obtain ⟨state, taken, continued⟩ := Option.bind_eq_some_iff.mp replayed
      exact .cons permitted taken (ih continued)
    next => cases replayed

private theorem replay_concat (guard : σ → ε → Bool) (start : σ) (events : List ε) (event : ε) :
    system.replay guard start (events ++ [event]) = (system.replay guard start events).bind fun state =>
      if guard state event then system.step state event else none := by
  induction events generalizing start with
  | nil => simp [replay]
  | cons head rest ih =>
    simp only [List.cons_append, replay]
    split
    · cases system.step start head with
      | none => rfl
      | some state => exact ih state
    · rfl

/-- Steps are functions, so a schedule has one run only. -/
theorem replay_of_run (guard : σ → ε → Bool) {events : List ε} {final : σ}
    (run : system.Run (fun state event => guard state event = true) start events final) :
    system.replay guard start events = some final := by
  induction run with
  | nil => rfl
  | snoc before permitted taken ih => rw [replay_concat, ih, Option.bind_some, if_pos permitted, taken]

theorem any_replay {guard : σ → ε → Bool} {events : List ε} {test : σ → Bool}
    (replayed : (system.replay guard start events).any test = true) :
    ∃ final, system.Run (fun state event => guard state event = true) start events final ∧ test final = true := by
  obtain ⟨final, reached, passed⟩ := (Option.any_eq_true _ _).mp replayed
  exact ⟨final, run_of_replay guard reached, passed⟩

end System

/-- A refinement mapping. Each concrete step is either invisible or one step of
the abstract system; the invariant carries what the mapping relies on. -/
structure Refinement {σ : Type u} {ε : Type v} {τ : Type w} {α : Type x}
    (concrete : System σ ε) (abstract : System τ α) (allowed : σ → ε → Prop) where
  view : σ → τ
  invariant : σ → Prop
  preserved : ∀ state event next, invariant state → allowed state event →
    concrete.step state event = some next → invariant next
  simulated : ∀ state event next, invariant state → allowed state event →
    concrete.step state event = some next →
    view next = view state ∨ ∃ action, abstract.step (view state) action = some (view next)

namespace Refinement
variable {σ : Type u} {ε : Type v} {τ : Type w} {α : Type x} {concrete : System σ ε}
  {abstract : System τ α} {allowed : σ → ε → Prop} (refinement : Refinement concrete abstract allowed)

/-- Concrete runs stay inside the abstract system's reachable states. -/
theorem reaches {start final events} (initial : refinement.invariant start)
    (run : concrete.Run allowed start events final) :
    refinement.invariant final ∧
      abstract.Reachable (fun _ _ => True) (refinement.view start) (refinement.view final) := by
  induction run with
  | nil => exact ⟨initial, [], .nil⟩
  | @snoc events state event next before permitted taken ih =>
    obtain ⟨kept, actions, reached⟩ := ih
    refine ⟨refinement.preserved _ _ _ kept permitted taken, ?_⟩
    rcases refinement.simulated _ _ _ kept permitted taken with same | ⟨action, moved⟩
    · exact ⟨actions, by rw [same]; exact reached⟩
    · exact ⟨_, .snoc reached trivial moved⟩

end Refinement

/-! ### Processes in a list -/

theorem mem_set_cases {α : Type} {items : List α} {index : Nat} {value item : α}
    (member : item ∈ items.set index value) : item = value ∨ item ∈ items :=
  (List.mem_or_eq_of_mem_set member).symm

theorem getElem?_concat_cases {α : Type} {items : List α} {index : Nat} {new item : α}
    (found : (items ++ [new])[index]? = some item) : items[index]? = some item ∨ index = items.length ∧ item = new := by
  rw [List.getElem?_append] at found
  split at found
  · exact .inl found
  · obtain ⟨inside, same⟩ := List.getElem?_eq_some_iff.mp found
    rw [List.length_singleton] at inside
    exact .inr ⟨by omega, by simpa using same.symm⟩

theorem getElem?_set_cases {α : Type} {items : List α} {index position : Nat} {new item : α}
    (found : (items.set index new)[position]? = some item) :
    (index = position ∧ item = new) ∨ (index ≠ position ∧ items[position]? = some item) := by
  rw [List.getElem?_set] at found
  split at found
  next same =>
    split at found
    · exact .inl ⟨same, (Option.some.inj found).symm⟩
    · cases found
  next other => exact .inr ⟨other, found⟩

/-- The process that moved is in the list; the others are where they were. -/
theorem mem_set_of_getElem? {α : Type} {items : List α} {index : Nat} {old value : α}
    (found : items[index]? = some old) : value ∈ items.set index value := by
  obtain ⟨inside, -⟩ := List.getElem?_eq_some_iff.mp found
  exact List.mem_iff_getElem.mpr ⟨index, by simpa using inside, by simp⟩

theorem mem_set_of_ne {α : Type} {items : List α} {index : Nat} {old value item : α}
    (found : items[index]? = some old) (member : item ∈ items) (other : item ≠ old) :
    item ∈ items.set index value := by
  obtain ⟨position, inside, same⟩ := List.mem_iff_getElem.mp member
  have apart : index ≠ position := by
    rintro rfl
    rw [List.getElem?_eq_getElem inside, same] at found
    exact other (Option.some.inj found)
  exact List.mem_iff_getElem.mpr ⟨position, by simpa using inside, by simpa [apart] using same⟩

/-- Counting processes of a kind: only the one that moved can make a difference. -/
theorem countP_set_add {α : Type} {items : List α} {index : Nat} {old : α} (kind : α → Bool) (value : α)
    (found : items[index]? = some old) :
    (items.set index value).countP kind + (kind old).toNat = items.countP kind + (kind value).toNat := by
  obtain ⟨inside, same⟩ := List.getElem?_eq_some_iff.mp found
  rw [List.countP_set inside, same]
  cases before : kind old with
  | false => cases kind value <;> simp
  | true =>
    have counted := List.countP_pos_iff.mpr ⟨old, List.mem_of_getElem? found, before⟩
    cases kind value <;> simp <;> omega

end SlothBox.Library

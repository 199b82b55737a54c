import Mathlib.Algebra.BigOperators.Group.List.Basic
import Mathlib.Algebra.GroupWithZero.Nat
import SlothBox.Library.Transition

/-! Measures along runs. A variant never grows along the permitted events and shrinks
with each event that counts as work. So if work is possible until a state is settled,
doing it settles the state. Two measures that move together but for some events differ by
the number of these. -/

namespace SlothBox.Library

universe u v

structure Variant {σ : Type u} {ε : Type v} (system : System σ ε) (allowed : σ → ε → Prop) (works : ε → Bool) where
  measure : σ → Nat
  invariant : σ → Prop
  preserved : ∀ state event next, invariant state → allowed state event →
    system.step state event = some next → invariant next
  decreases : ∀ state event next, invariant state → allowed state event →
    system.step state event = some next → measure next + (works event).toNat ≤ measure state

namespace Variant
variable {σ : Type u} {ε : Type v} {system : System σ ε} {allowed : σ → ε → Prop} {works : ε → Bool}
  (variant : Variant system allowed works)

/-- Working on for as long as it is possible leads to a settled state. -/
theorem settles {chosen : σ → ε → Prop} {settled : σ → Prop}
    (permitted : ∀ state event, chosen state event → allowed state event ∧ works event)
    (possible : ∀ state, variant.invariant state → settled state ∨
      ∃ event next, chosen state event ∧ system.step state event = some next)
    (start : σ) (initial : variant.invariant start) :
    ∃ events final, system.Run chosen start events final ∧ settled final := by
  induction bound : variant.measure start using Nat.strongRecOn generalizing start with
  | ind size ih =>
    rcases possible start initial with done | ⟨event, next, choice, taken⟩
    · exact ⟨[], start, .nil, done⟩
    · obtain ⟨allows, worked⟩ := permitted start event choice
      have paid := variant.decreases start event next initial allows taken
      rw [worked, Bool.toNat_true, bound] at paid
      obtain ⟨events, final, rest, done⟩ := ih (variant.measure next) paid next
        (variant.preserved start event next initial allows taken) rfl
      exact ⟨event :: events, final, .cons choice taken rest, done⟩

end Variant

/-! ### Accounts -/

namespace System
variable {σ : Type u} {ε : Type v} (system : System σ ε)

/-- How many events of a schedule are of a kind where they are taken. -/
def tally (kind : σ → ε → Bool) (start : σ) : List ε → Nat
  | [] => 0
  | event :: rest => (kind start event).toNat + (system.step start event).elim 0 fun state => tally kind state rest

variable {system} {allowed : σ → ε → Prop} {start : σ}

theorem tally_concat (kind : σ → ε → Bool) {events : List ε} {state : σ} {event : ε}
    (run : system.Run allowed start events state) :
    system.tally kind start (events ++ [event]) = system.tally kind start events + (kind state event).toNat := by
  have split : ∀ (events : List ε) (start : σ), system.Run (fun _ _ => True) start events state →
      system.tally kind start (events ++ [event]) = system.tally kind start events + (kind state event).toNat := by
    intro events
    induction events with
    | nil =>
      intro start run
      cases replay_of_run (fun _ _ => true) (run.mono fun _ _ _ => rfl)
      simp only [List.nil_append, tally, Nat.zero_add]
      cases system.step state event <;> rfl
    | cons head rest ih =>
      intro start run
      have replayed := replay_of_run (fun _ _ => true) (run.mono fun _ _ _ => rfl)
      obtain ⟨next, taken, further⟩ := Option.bind_eq_some_iff.mp replayed
      have later := ih next ((run_of_replay (fun _ _ => true) further).mono fun _ _ _ => trivial)
      simp only [List.cons_append, tally, taken, Option.elim_some, later, Nat.add_assoc]
  exact split events start (run.mono fun _ _ _ => trivial)

/-- An account is balanced by a run that every step of keeps it in balance. -/
theorem Run.balance (entries total : σ → Nat) (missing : σ → ε → Bool) (holds : σ → Prop) (initial : holds start)
    (preserved : ∀ state event next, holds state → allowed state event →
      system.step state event = some next → holds next)
    (balanced : ∀ state event next, holds state → allowed state event → system.step state event = some next →
      entries next + (missing state event).toNat + total state = entries state + total next)
    {events final} (run : system.Run allowed start events final) :
    entries final + system.tally missing start events + total start = entries start + total final := by
  induction run with
  | nil => rw [tally, Nat.add_zero]
  | @snoc events state event next before permitted taken ih =>
    have step := balanced state event next (before.invariant holds initial preserved) permitted taken
    rw [tally_concat missing before]
    omega

end System

/-! ### Processes in a list -/

/-- Adding up a measure of processes: only the one that moved can make a difference. -/
theorem sum_set_add {α : Type} {items : List α} {index : Nat} {old : α} (measure : α → Nat) (value : α)
    (found : items[index]? = some old) :
    ((items.set index value).map measure).sum + measure old = (items.map measure).sum + measure value := by
  induction items generalizing index with
  | nil => cases found
  | cons item items ih =>
    cases index with
    | zero =>
      cases found
      simp only [List.set_cons_zero, List.map_cons, List.sum_cons]
      omega
    | succ index =>
      have rest := ih found
      simp only [List.set_cons_succ, List.map_cons, List.sum_cons]
      omega

end SlothBox.Library

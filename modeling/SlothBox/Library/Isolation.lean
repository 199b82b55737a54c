import Mathlib.Data.List.Basic

/-! Callers of one service over a shared store of keys. If each call keeps to keys of its
caller, and no key belongs to two callers, then what a caller is told does not depend on
the others: it is what it would be told if they were not there. -/

namespace SlothBox.Library

section Isolation
variable {κ ν call answer ω : Type}

/-- The calls one after another, each with its answer. -/
def serveAll (serve : (κ → ν) → call → (κ → ν) × answer) : (κ → ν) → List call → List (call × answer)
  | _, [] => []
  | store, request :: rest => (request, (serve store request).2) :: serveAll serve (serve store request).1 rest

/-- The two stores look the same to the caller. -/
def Agrees (owns : ω → κ → Prop) (who : ω) (first second : κ → ν) : Prop := ∀ key, owns who key → first key = second key

structure Isolated (serve : (κ → ν) → call → (κ → ν) × answer) (caller : call → ω) (owns : ω → κ → Prop) : Prop where
  frame : ∀ store request key, ¬owns (caller request) key → (serve store request).1 key = store key
  footprint : ∀ first second request, Agrees owns (caller request) first second →
    (serve first request).2 = (serve second request).2 ∧
      Agrees owns (caller request) (serve first request).1 (serve second request).1
  apart : ∀ first second key, owns first key → owns second key → first = second

variable {serve : (κ → ν) → call → (κ → ν) × answer} {caller : call → ω} {owns : ω → κ → Prop}
  (isolated : Isolated serve caller owns)
include isolated

/-- A call of another caller does not show. -/
theorem Isolated.foreign {who : ω} {store : κ → ν} {request : call} (other : caller request ≠ who) :
    Agrees owns who (serve store request).1 store := by
  intro key owned
  apply isolated.frame
  intro also
  exact other (isolated.apart _ _ key also owned)

theorem Isolated.answers_of_agrees [DecidableEq ω] (who : ω) (calls : List call) : ∀ {first second : κ → ν},
    Agrees owns who first second →
      (serveAll serve first calls).filter (fun entry => caller entry.1 = who) =
        serveAll serve second (calls.filter fun request => caller request = who) := by
  induction calls with
  | nil => exact fun _ => rfl
  | cons request rest ih =>
    intro first second agrees
    by_cases mine : caller request = who
    · subst mine
      obtain ⟨same, onwards⟩ := isolated.footprint first second request agrees
      rw [serveAll, List.filter_cons_of_pos (by simp), List.filter_cons_of_pos (by simp), serveAll, same, ih onwards]
    · rw [serveAll, List.filter_cons_of_neg (by simpa using mine), List.filter_cons_of_neg (by simpa using mine)]
      apply ih
      intro key owned
      exact (isolated.foreign mine key owned).trans (agrees key owned)

/-- What a caller is told among all calls is what it is told alone. -/
theorem Isolated.answers [DecidableEq ω] (who : ω) (store : κ → ν) (calls : List call) :
    (serveAll serve store calls).filter (fun entry => caller entry.1 = who) =
      serveAll serve store (calls.filter fun request => caller request = who) :=
  isolated.answers_of_agrees who calls fun _ _ => rfl

end Isolation

/-- Calls that are served alike are told the same. -/
theorem serveAll_map {κ ν call answer : Type} {serve : (κ → ν) → call → (κ → ν) × answer} (change : call → call)
    (alike : ∀ store request, serve store (change request) = serve store request) (store : κ → ν) (calls : List call) :
    (serveAll serve store (calls.map change)).map Prod.snd = (serveAll serve store calls).map Prod.snd := by
  induction calls generalizing store with
  | nil => rfl
  | cons request rest ih => rw [List.map_cons, serveAll, serveAll, List.map_cons, List.map_cons, alike, ih]

end SlothBox.Library

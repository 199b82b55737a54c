import Mathlib.Data.List.Forall2

/-! Computations that may throw: guards, and what a computation that returns has done. -/

namespace SlothBox.Library

variable {ε α β : Type}

/-- A guard clause. -/
def throwIf (condition : Prop) [Decidable condition] (thrown : ε) : Except ε Unit :=
  if condition then .error thrown else .ok ()

@[simp] theorem throwIf_ok {condition : Prop} [Decidable condition] {thrown : ε} {u : Unit} :
    throwIf condition thrown = .ok u ↔ ¬condition := by
  unfold throwIf
  split <;> simp_all

theorem bind_ok {x : Except ε α} {f : α → Except ε β} {b : β} :
    (x >>= f) = .ok b ↔ ∃ a, x = .ok a ∧ f a = .ok b := by
  cases x <;> simp [bind, Except.bind]

/-- The errors of a sequence are those of its parts. -/
theorem bind_errors {x : Except ε α} {f : α → Except ε β} {allowed : ε → Prop}
    (first : ∀ thrown, x = .error thrown → allowed thrown)
    (second : ∀ a thrown, f a = .error thrown → allowed thrown) (thrown : ε) (failed : (x >>= f) = .error thrown) :
    allowed thrown := by
  cases x with
  | error early =>
    cases failed
    exact first _ rfl
  | ok a => exact second a thrown failed

theorem map_ok {x : Except ε α} {f : α → β} {b : β} : x.map f = .ok b ↔ ∃ a, x = .ok a ∧ f a = b := by
  cases x <;> simp [Except.map]

@[simp] theorem mapError_ok {x : Except ε α} {f : ε → β} {a : α} : x.mapError f = .ok a ↔ x = .ok a := by
  cases x <;> simp [Except.mapError]

/-- A loop that collects results returns exactly when every turn does. -/
theorem mapM_ok {f : α → Except ε β} {items : List α} {results : List β} :
    items.mapM f = .ok results ↔ List.Forall₂ (fun item result => f item = .ok result) items results := by
  induction items generalizing results with
  | nil =>
    rw [List.mapM_nil, List.forall₂_nil_left_iff]
    exact ⟨fun same => (Except.ok.inj same).symm, fun same => congrArg Except.ok same.symm⟩
  | cons item rest ih =>
    simp only [List.mapM_cons, bind_ok, ih, List.forall₂_cons_left_iff]
    constructor
    · intro returned
      obtain ⟨first, head, others, tail, same⟩ := returned
      exact ⟨first, others, head, tail, (Except.ok.inj same).symm⟩
    · intro turns
      obtain ⟨first, others, head, tail, same⟩ := turns
      exact ⟨first, head, others, tail, congrArg Except.ok same.symm⟩

/-- What a loop has reached when it returns: an invariant over the items it is through with. -/
theorem foldlM_ok {σ : Type} {motive : List α → σ → Prop} {step : σ → α → Except ε σ} {items : List α} {start final : σ}
    (returned : items.foldlM step start = .ok final) (init : motive [] start)
    (turn : ∀ done item state next, motive done state → step state item = .ok next → motive (done ++ [item]) next) :
    motive items final := by
  have reached : ∀ (rest done : List α) state, motive done state → rest.foldlM step state = .ok final →
      motive (done ++ rest) final := by
    intro rest
    induction rest with
    | nil =>
      intro done state held returned
      rw [List.foldlM_nil] at returned
      cases returned
      exact (List.append_nil done).symm ▸ held
    | cons item rest ih =>
      intro done state held returned
      rw [List.foldlM_cons, bind_ok] at returned
      obtain ⟨next, first, others⟩ := returned
      exact List.append_cons done item rest ▸ ih _ next (turn _ _ _ _ held first) others
  exact reached items [] start init returned

/-- Turns whose results are determined are a map. -/
theorem eq_map_of_forall₂ {related : α → β → Prop} {f : α → β} {items : List α} {results : List β}
    (turns : List.Forall₂ related items results)
    (value : ∀ item ∈ items, ∀ result, related item result → result = f item) : results = items.map f := by
  induction turns with
  | nil => rfl
  | cons head _ ih =>
    rw [List.map_cons, value _ List.mem_cons_self _ head, ih fun item inside => value item (List.mem_cons_of_mem _ inside)]

end SlothBox.Library

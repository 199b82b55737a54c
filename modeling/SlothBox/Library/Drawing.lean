import Mathlib.Data.List.Forall2
import Mathlib.Data.Stream.Defs

/-! Computations that draw from a stream nobody controls: what holds of their value
whatever is drawn. An exchange of two entries, wherever the draw points, permutes. -/

namespace SlothBox.Library
variable {σ α β : Type}

/-- Whatever the state, the value satisfies the assertion. -/
def Yields (computation : StateM σ α) (post : α → Prop) : Prop := ∀ state, post (computation.run state).1

namespace Yields

theorem imp {computation : StateM σ α} {post weaker : α → Prop} (yields : Yields computation post)
    (implies : ∀ value, post value → weaker value) : Yields computation weaker := by
  intro state
  exact implies _ (yields state)

theorem pure {value : α} {post : α → Prop} (holds : post value) : Yields (Pure.pure value : StateM σ α) post := by
  intro _
  exact holds

theorem bind {first : StateM σ α} {rest : α → StateM σ β} {middle : α → Prop} {post : β → Prop}
    (yields : Yields first middle) (continues : ∀ value, middle value → Yields (rest value) post) :
    Yields (first >>= rest) post := by
  intro state
  exact continues _ (yields state) _

/-- Each turn of a loop that collects values yields one for its own item. -/
theorem mapM {draw : α → StateM σ β} {related : α → β → Prop} {items : List α}
    (turn : ∀ item ∈ items, Yields (draw item) (related item)) :
    Yields (items.mapM draw) (List.Forall₂ related items) := by
  induction items with
  | nil => exact pure .nil
  | cons item rest ih =>
    obtain ⟨first, others⟩ := List.forall_mem_cons.mp turn
    rw [List.mapM_cons]
    refine first.bind ?_
    intro value holds
    refine (ih others).bind ?_
    intro values all
    exact pure (.cons holds all)

end Yields

theorem exists_of_forall₂ {related : α → β → Prop} {items : List α} {values : List β}
    (turns : List.Forall₂ related items values) : ∀ item ∈ items, ∃ value ∈ values, related item value := by
  induction turns with
  | nil => exact nofun
  | @cons item value _ _ head _ ih =>
    refine List.forall_mem_cons.mpr ⟨⟨value, List.mem_cons_self, head⟩, ?_⟩
    intro other inside
    obtain ⟨partner, member, holds⟩ := ih other inside
    exact ⟨partner, List.mem_cons_of_mem _ member, holds⟩

theorem perm_swapIfInBounds (entries : Array α) (i j : Nat) : (entries.swapIfInBounds i j).Perm entries := by
  unfold Array.swapIfInBounds
  split
  · split
    · exact Array.swap_perm _ _
    · exact .refl _
  · exact .refl _

end SlothBox.Library

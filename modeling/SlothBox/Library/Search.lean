import Mathlib.Data.List.DropRight
import Mathlib.Data.List.Infix
import Mathlib.Data.List.TakeWhile

/-! Searching a text for the first or the last place of a pattern, and what is cut off
there when the pattern is a single letter. -/

namespace SlothBox.Library.Search
variable {α : Type} [DecidableEq α]

/-- The first place where the pattern stands. -/
def index (pattern : List α) : List α → Option Nat
  | [] => if pattern = [] then some 0 else none
  | c :: rest => if pattern.isPrefixOf (c :: rest) then some 0 else (index pattern rest).map (· + 1)

/-- The last place where the pattern stands. -/
def lastIndex (pattern : List α) : List α → Option Nat
  | [] => if pattern = [] then some 0 else none
  | c :: rest =>
    match lastIndex pattern rest with
    | some i => some (i + 1)
    | none => if pattern.isPrefixOf (c :: rest) then some 0 else none

/-- What follows a pattern does not move its first place. -/
theorem index_append (pattern before : List α) :
    ∃ i ≤ before.length, ∀ rest, index pattern (before ++ (pattern ++ rest)) = some i := by
  induction before with
  | nil =>
    refine ⟨0, Nat.le_refl _, ?_⟩
    intro rest
    cases pattern with
    | nil => cases rest <;> rfl
    | cons c pattern =>
      have stands : (c :: pattern).isPrefixOf (c :: (pattern ++ rest)) = true :=
        List.isPrefixOf_iff_prefix.mpr (List.prefix_append (c :: pattern) rest)
      exact if_pos stands
  | cons c before ih =>
    obtain ⟨i, bound, found⟩ := ih
    -- whether the pattern stands at the front is decided before its known place ends
    have front : ∀ rest, pattern.isPrefixOf (c :: before ++ (pattern ++ rest)) =
        pattern.isPrefixOf (c :: before ++ pattern) := by
      intro rest
      rw [Bool.eq_iff_iff, List.isPrefixOf_iff_prefix, List.isPrefixOf_iff_prefix, ← List.append_assoc]
      constructor
      · intro stands
        refine List.prefix_of_prefix_length_le stands (List.prefix_append _ _) ?_
        rw [List.length_append]
        exact Nat.le_add_left _ _
      · intro stands
        exact stands.trans (List.prefix_append _ _)
    by_cases stands : pattern.isPrefixOf (c :: before ++ pattern) = true
    · refine ⟨0, Nat.zero_le _, ?_⟩
      intro rest
      exact if_pos ((front rest).trans stands)
    · refine ⟨i + 1, Nat.succ_le_succ bound, ?_⟩
      intro rest
      rw [List.cons_append, index, if_neg (by rw [← List.cons_append, front]; exact stands), found]
      rfl

theorem infix_of_index {pattern text : List α} (found : (index pattern text).isSome) : pattern <:+: text := by
  induction text with
  | nil =>
    rw [index] at found
    split at found
    next empty => exact empty ▸ List.infix_rfl
    next => cases found
  | cons c rest ih =>
    rw [index] at found
    split at found
    next stands => exact (List.isPrefixOf_iff_prefix.mp stands).isInfix
    next =>
      rw [Option.isSome_map] at found
      exact List.infix_cons (ih found)

/-! ### Letters -/

section Letter
variable (letter : α)

omit [DecidableEq α] in
/-- A pattern that ends in a letter does not reach into a text without that letter. -/
theorem infix_before {pattern before after : List α} (absent : letter ∉ after)
    (stands : pattern ++ [letter] <:+: before ++ after) : pattern ++ [letter] <:+: before := by
  obtain ⟨front, behind, whole⟩ := stands
  rcases List.append_eq_append_iff.mp whole with ⟨rest, rfl, -⟩ | ⟨rest, same, rfl⟩
  · exact ⟨front, rest, rfl⟩
  · cases rest using List.reverseRecOn with
    | nil =>
      rw [List.append_nil] at same
      exact ⟨front, [], by rw [List.append_nil, same]⟩
    | append_singleton rest last =>
      rw [← List.append_assoc, ← List.append_assoc] at same
      obtain ⟨-, ends⟩ := List.append_inj' same rfl
      cases ends
      exact absurd (List.mem_append_left _ (List.mem_append_right _ List.mem_cons_self)) absent

private theorem front_iff (c : α) (rest : List α) : [letter].isPrefixOf (c :: rest) = true ↔ letter = c := by
  simp

theorem take_index (text : List α) :
    ((index [letter] text).elim text fun i => text.take i) = text.takeWhile (· ≠ letter) := by
  induction text with
  | nil => rfl
  | cons c rest ih =>
    rw [index, List.takeWhile_cons]
    by_cases same : letter = c
    · rw [if_pos ((front_iff letter c rest).mpr same), if_neg (by simp [same])]
      rfl
    · rw [if_neg (mt (front_iff letter c rest).mp same), if_pos (decide_eq_true (Ne.symm same)), ← ih]
      cases index [letter] rest <;> rfl

theorem rtakeWhile_append_cons (before after : List α) :
    (before ++ letter :: after).rtakeWhile (· ≠ letter) = after.rtakeWhile (· ≠ letter) := by
  unfold List.rtakeWhile
  rw [List.reverse_append, List.reverse_cons, List.append_assoc, List.takeWhile_append]
  split
  next whole =>
    have all := (List.takeWhile_prefix _).eq_of_length whole
    rw [all, List.singleton_append, List.takeWhile_cons_of_neg (by simp), List.append_nil]
  next => rfl

theorem rtakeWhile_plain {text : List α} (plain : letter ∉ text) : text.rtakeWhile (· ≠ letter) = text := by
  rw [List.rtakeWhile_eq_self_iff]
  intro c inside
  exact decide_eq_true fun same => plain (same ▸ inside)

theorem rtakeWhile_append (before : List α) {after : List α} (inside : letter ∈ after) :
    (before ++ after).rtakeWhile (· ≠ letter) = after.rtakeWhile (· ≠ letter) := by
  obtain ⟨first, last, rfl⟩ := List.append_of_mem inside
  rw [← List.append_assoc, rtakeWhile_append_cons, rtakeWhile_append_cons]

theorem lastIndex_isSome (text : List α) : (lastIndex [letter] text).isSome ↔ letter ∈ text := by
  induction text with
  | nil => simp [lastIndex]
  | cons c rest ih =>
    rw [lastIndex, List.mem_cons, ← ih, ← front_iff letter c rest]
    cases lastIndex [letter] rest with
    | none => split <;> simp_all
    | some i => simp

theorem drop_lastIndex (text : List α) :
    ((lastIndex [letter] text).elim text fun i => text.drop (i + 1)) = text.rtakeWhile (· ≠ letter) := by
  induction text with
  | nil => rfl
  | cons c rest ih =>
    have inside := lastIndex_isSome letter rest
    rw [lastIndex]
    cases found : lastIndex [letter] rest with
    | some i =>
      rw [found] at ih inside
      exact ih.trans (rtakeWhile_append letter [c] (inside.mp rfl)).symm
    | none =>
      rw [found] at inside
      have plain : letter ∉ rest := by simpa using inside
      by_cases same : letter = c
      · rw [if_pos ((front_iff letter c rest).mpr same), ← same]
        exact ((rtakeWhile_append_cons letter [] rest).trans (rtakeWhile_plain letter plain)).symm
      · rw [if_neg (mt (front_iff letter c rest).mp same)]
        exact (rtakeWhile_plain letter (List.not_mem_cons_of_ne_of_not_mem same plain)).symm

end Letter

end SlothBox.Library.Search

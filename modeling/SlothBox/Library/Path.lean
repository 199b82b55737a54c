import Mathlib.Data.List.Basic
import Mathlib.Data.List.Infix
import Mathlib.Data.List.TakeWhile

/-! Paths as an extractor reads them: names between separators of either kind, where two
points lead to the directory above. -/

namespace SlothBox.Library.Path

def separator (c : Char) : Bool := c = '/' || c = '\\'

abbrev Name := List Char

def segments (path : List Char) : List Name := path.splitOnP separator

def up : Name := ['.', '.']

/-- One step of a resolution. A directory is the list of names that lead to it from the
root, and nothing is above the root. -/
def enter (directory : List Name) (name : Name) : List Name :=
  if name = [] ∨ name = ['.'] then directory
  else if name = up then directory.dropLast
  else directory ++ [name]

def resolve (directory : List Name) (names : List Name) : List Name := names.foldl enter directory

/-- No step of the resolution leaves the directory it starts in, wherever that is. -/
def StaysInside (path : List Char) : Prop :=
  ∀ directory, ∀ n, directory <+: resolve directory ((segments path).take n)

/-! ### Splitting -/

theorem segments_last {name : Name} (plain : ∀ c ∈ name, separator c = false) : segments name = [name] :=
  List.splitOnP_eq_singleton plain

theorem segments_append {name : Name} {c : Char} {rest : List Char} (plain : ∀ c ∈ name, separator c = false)
    (split : separator c) : segments (name ++ c :: rest) = name :: segments rest :=
  List.splitOnP_append_cons_of_forall_mem plain c split rest

theorem segments_ne_nil (path : List Char) : segments path ≠ [] := List.splitOnP_ne_nil _ _

/-- A path is one name, or a name, a separator and a path. -/
theorem induction {motive : List Char → Prop}
    (last : ∀ name, (∀ c ∈ name, separator c = false) → motive name)
    (cons : ∀ name c rest, (∀ c ∈ name, separator c = false) → separator c → motive rest → motive (name ++ c :: rest))
    (path : List Char) : motive path := by
  obtain ⟨n, size⟩ : ∃ n, path.length = n := ⟨_, rfl⟩
  induction n using Nat.strongRecOn generalizing path with
  | ind n ih =>
    have plain : ∀ c ∈ path.takeWhile fun c => !separator c, separator c = false := by
      intro c inside
      simpa using List.mem_takeWhile_imp inside
    have joined : path.takeWhile (fun c => !separator c) ++ path.dropWhile (fun c => !separator c) = path :=
      List.takeWhile_append_dropWhile
    cases tail : path.dropWhile fun c => !separator c with
    | nil =>
      rw [tail, List.append_nil] at joined
      exact joined ▸ last _ plain
    | cons c rest =>
      have split : separator c := by
        have head := List.head_dropWhile_not (fun c => !separator c) (l := path) (by simp [tail])
        simpa [tail] using head
      rw [tail] at joined
      rw [← joined] at size ⊢
      refine cons _ c rest plain split (ih rest.length ?_ rest rfl)
      rw [← size, List.length_append, List.length_cons]
      omega

/-! ### Traversals -/

/-- The pattern `\.\.[\\/]`, anywhere in a text. -/
def climbs (text : List Char) : Bool :=
  text.tails.any fun
    | '.' :: '.' :: c :: _ => separator c
    | _ => false

theorem climbs_append {before after : List Char} {c : Char} (split : separator c) :
    climbs (before ++ up ++ c :: after) := by
  refine List.any_eq_true.mpr ⟨up ++ c :: after, ?_, split⟩
  rw [List.mem_tails, List.append_assoc]
  exact List.suffix_append _ _

theorem climbs_of_rest {before after : List Char} (rest : climbs after) : climbs (before ++ after) := by
  obtain ⟨tail, inside, found⟩ := List.any_eq_true.mp rest
  refine List.any_eq_true.mpr ⟨tail, ?_, found⟩
  rw [List.mem_tails] at inside ⊢
  exact inside.trans (List.suffix_append _ _)

/-- Only the last name of a path without the pattern can lead up. -/
theorem up_notMem_dropLast {path : List Char} (fine : climbs path = false) : up ∉ (segments path).dropLast := by
  induction path using Path.induction with
  | last name plain => simp [segments_last plain]
  | cons name c rest plain split ih =>
    rw [segments_append plain split, List.dropLast_cons_of_ne_nil (segments_ne_nil rest), List.mem_cons]
    rintro (same | later)
    · have found : climbs ([] ++ up ++ c :: rest) := climbs_append split
      rw [List.nil_append, same, fine] at found
      cases found
    · refine ih ?_ later
      by_contra found
      have found := @climbs_of_rest (name ++ [c]) rest (eq_true_of_ne_false found)
      rw [List.append_assoc, List.singleton_append, fine] at found
      cases found

theorem up_mem_iff {path : List Char} (fine : climbs path = false) :
    up ∈ segments path ↔ (segments path).getLast? = some up := by
  constructor
  · intro inside
    rw [← List.dropLast_append_getLast (segments_ne_nil path), List.mem_append, List.mem_singleton] at inside
    rw [List.getLast?_eq_some_getLast (segments_ne_nil path)]
    exact congrArg some (inside.resolve_left (up_notMem_dropLast fine)).symm
  · exact List.mem_of_getLast?

/-- A path whose last name leads up ends in a point. -/
theorem getLast?_of_up {path : List Char} (last : (segments path).getLast? = some up) : path.getLast? = some '.' := by
  induction path using Path.induction with
  | last name plain =>
    rw [segments_last plain, List.getLast?_singleton] at last
    cases last
    rfl
  | cons name c rest plain split ih =>
    rw [segments_append plain split, List.getLast?_cons_of_ne_nil (segments_ne_nil rest)] at last
    have found := ih last
    have more : rest ≠ [] := by
      rintro rfl
      cases found
    rw [List.getLast?_append_of_ne_nil _ (List.cons_ne_nil _ _), List.getLast?_cons_of_ne_nil more]
    exact found

/-! ### Resolution -/

theorem inside_enter {directory current : List Name} {name : Name} (inside : directory <+: current) (stays : name ≠ up) :
    directory <+: enter current name := by
  unfold enter
  rw [if_neg stays]
  split
  next => exact inside
  next => exact inside.trans (List.prefix_append _ _)

theorem inside_resolve {directory current : List Name} {names : List Name} (inside : directory <+: current)
    (stays : up ∉ names) : directory <+: resolve current names := by
  induction names generalizing current with
  | nil => exact inside
  | cons name names ih =>
    obtain ⟨other, stays⟩ := List.ne_and_not_mem_of_not_mem_cons stays
    exact ih (inside_enter inside (Ne.symm other)) stays

/-- A path without a name that leads up never leaves its directory. -/
theorem staysInside {path : List Char} (stays : up ∉ segments path) : StaysInside path :=
  fun _ _ => inside_resolve (List.prefix_refl _) fun inside => stays (List.mem_of_mem_take inside)

end SlothBox.Library.Path

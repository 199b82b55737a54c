import SlothBox.UploadDrop
import SlothBox.Proofs.Crypto

/-! Generated passwords. One character of each group is drawn first and the shuffle only
exchanges characters, so whatever is drawn they are all still there at the end. -/

namespace SlothBox.Proofs
open Library

theorem groups_toList : passwordGroups.map String.toList =
    [['A', 'B', 'C', 'D', 'E', 'F', 'G', 'H', 'J', 'K', 'L', 'M', 'N', 'P', 'Q', 'R', 'S', 'T', 'U', 'V', 'W', 'X', 'Y', 'Z'],
      ['a', 'b', 'c', 'd', 'e', 'f', 'g', 'h', 'i', 'j', 'k', 'm', 'n', 'p', 'q', 'r', 's', 't', 'u', 'v', 'w', 'x', 'y', 'z'],
      ['2', '3', '4', '5', '6', '7', '8', '9'],
      ['!', '@', '#', '$', '%', '^', '&', '*', '-', '_', '=', '+']] := by
  simp only [passwordGroups, List.map_cons, List.map_nil, String.reduceToList]

theorem alphabet_eq : passwordAlphabet.toList = (passwordGroups.map String.toList).flatten := by
  rw [passwordAlphabet, String.toList_join, List.flatMap_def]

theorem group_filled : ∀ group ∈ passwordGroups, 0 < group.length := by
  have filled : ∀ chars ∈ passwordGroups.map String.toList, 0 < chars.length := by
    rw [groups_toList]
    decide
  intro group listed
  rw [← String.length_toList]
  exact filled _ (List.mem_map_of_mem listed)

theorem randIndex_yields {n : Nat} (positive : 0 < n) : Yields (randIndex n) (· < n) := by
  intro values
  exact Nat.mod_lt _ positive

theorem randChar_yields {group : String} (filled : 0 < group.length) :
    Yields (randChar group) (· ∈ group.toList) := by
  refine (randIndex_yields filled).bind ?_
  intro index inside
  rw [← String.length_toList] at inside
  apply Yields.pure
  rw [getElem!_pos group.toList index inside]
  exact List.getElem_mem inside

/-- The loop appends as many characters of the alphabet as are missing. -/
theorem fillPassword_yields (missing : Nat) (chars : Array Char) :
    Yields (fillPassword missing chars) fun filled => ∃ more, filled.toList = chars.toList ++ more ∧
      more.length = missing ∧ ∀ c ∈ more, c ∈ passwordAlphabet.toList := by
  induction missing generalizing chars with
  | zero => exact Yields.pure ⟨[], (List.append_nil _).symm, rfl, nofun⟩
  | succ missing ih =>
    have filled : 0 < passwordAlphabet.length := by
      rw [← String.length_toList, alphabet_eq, groups_toList]
      decide
    refine (randChar_yields filled).bind ?_
    intro c inside
    refine (ih (chars.push c)).imp ?_
    intro filled holds
    obtain ⟨more, appended, length, inside'⟩ := holds
    refine ⟨c :: more, ?_, congrArg Nat.succ length, List.forall_mem_cons.mpr ⟨inside, inside'⟩⟩
    rw [appended, Array.toList_push, List.append_assoc, List.singleton_append]

theorem shuffleFrom_yields (i : Nat) (chars : Array Char) : Yields (shuffleFrom i chars) (·.Perm chars) := by
  induction i generalizing chars with
  | zero => exact Yields.pure (.refl _)
  | succ i ih =>
    refine (randIndex_yields (Nat.succ_pos _)).bind ?_
    intro j _
    refine (ih _).imp ?_
    intro shuffled permuted
    exact permuted.trans (perm_swapIfInBounds chars (i + 1) j)

/-- A password as the generator makes it: a character of each group, and others of the alphabet. -/
structure Generated (length : Nat) (password : List Char) : Prop where
  length_eq : password.length = length
  alphabet : ∀ c ∈ password, c ∈ passwordAlphabet.toList
  groups : ∀ group ∈ passwordGroups, ∃ c ∈ password, c ∈ group.toList

theorem generatePassword_yields {length : Nat} (enough : 4 ≤ length) :
    Yields (generatePassword length) fun password => Generated length password.toList := by
  refine (Yields.mapM fun group listed => randChar_yields (group_filled group listed)).bind ?_
  intro guaranteed draws
  have four : guaranteed.length = 4 := draws.length_eq.symm
  refine (fillPassword_yields _ guaranteed.toArray).bind ?_
  intro filled holds
  obtain ⟨more, appended, added, inside⟩ := holds
  refine (shuffleFrom_yields _ filled).bind ?_
  intro chars permuted
  have same : chars.toList.Perm (guaranteed ++ more) := by
    rw [← appended]
    exact permuted.toList
  apply Yields.pure
  rw [String.toList_ofList]
  constructor
  · rw [same.length_eq, List.length_append, added, four]
    exact Nat.add_sub_cancel' enough
  · intro c member
    rcases List.mem_append.mp (same.mem_iff.mp member) with first | later
    · obtain ⟨group, listed, belongs⟩ := exists_of_forall₂ draws.flip c first
      rw [alphabet_eq]
      exact List.mem_flatten_of_mem (List.mem_map_of_mem listed) belongs
    · exact inside c later
  · intro group listed
    obtain ⟨c, first, belongs⟩ := exists_of_forall₂ draws group listed
    exact ⟨c, same.mem_iff.mpr (List.mem_append_left _ first), belongs⟩

/-! ### The meter -/

/-- Each group is inside the class that the meter tests for it. -/
theorem groups_classes : ∀ cls ∈ characterClasses, ∃ chars ∈ passwordGroups.map String.toList, chars.all cls = true := by
  rw [groups_toList]
  simp only [characterClasses, List.forall_mem_cons]
  decide

theorem Generated.score {length : Nat} {password : String} (generated : Generated length password.toList)
    (enough : 14 ≤ length) : Utf16.length password = length ∧ scorePassword password = 3 := by
  have basic : ∀ c ∈ password.toList, c.toNat < 0x10000 := by
    intro c inside
    have ascii : passwordAlphabet.toList.all (fun c => c.toNat < 0x10000) = true := by
      rw [alphabet_eq, groups_toList]
      decide
    exact of_decide_eq_true (List.all_eq_true.mp ascii c (generated.alphabet c inside))
  have units : Utf16.length password = length := by
    rw [← String.ofList_toList (s := password), utf16_length_basic basic]
    exact generated.length_eq
  have classes : characterClasses.filter password.toList.any = characterClasses := by
    rw [List.filter_eq_self]
    intro cls listed
    obtain ⟨_, mapped, passes⟩ := groups_classes cls listed
    obtain ⟨group, member, rfl⟩ := List.mem_map.mp mapped
    obtain ⟨c, inside, belongs⟩ := generated.groups group member
    exact List.any_eq_true.mpr ⟨c, inside, List.all_eq_true.mp passes c belongs⟩
  have nonempty : password ≠ "" := by
    rintro rfl
    have zero : Utf16.length "" = 0 := rfl
    omega
  refine ⟨units, ?_⟩
  rw [scorePassword, if_neg nonempty]
  simp only [units, classes, if_pos enough, if_pos (show 8 ≤ length by omega)]
  rfl

/-- Whatever the generator draws, a password of 14 characters or more has a character of
each group, none from outside the alphabet, and the meter calls it strong. -/
theorem generated_strong {length : Nat} (enough : 14 ≤ length) (values : Stream' UInt32) :
    let password := ((generatePassword length).run values).1
    Utf16.length password = length ∧ (∀ c ∈ password.toList, c ∈ passwordAlphabet.toList) ∧
      (∀ group ∈ passwordGroups, ∃ c ∈ password.toList, c ∈ group.toList) ∧ scorePassword password = 3 ∧
      (passwordAlphabet.toList.Nodup ∧ passwordAlphabet.toList.length = 68) ∧
      ∀ chars, ((shuffle chars).run values).1.Perm chars := by
  intro password
  have generated : Generated length password.toList := generatePassword_yields (by omega) values
  obtain ⟨units, score⟩ := generated.score enough
  refine ⟨units, generated.alphabet, generated.groups, score, ?_, ?_⟩
  · rw [alphabet_eq, groups_toList]
    decide +kernel
  · intro chars
    exact shuffleFrom_yields _ chars values

/-- A generator that always yields 7, and the shortest such password. -/
theorem generated_strong_sample :
    ((generatePassword 14).run (Stream'.const 7)).1 = "HHH*9hHHHHHHHH" ∧ scorePassword "HHH*9hHHHHHHHH" = 3 := by
  have drawn : ((generatePassword 14).run (Stream'.const 7)).1 = "HHH*9hHHHHHHHH" := by decide +kernel
  obtain ⟨-, -, -, score, -⟩ := generated_strong (Nat.le_refl 14) (Stream'.const 7)
  exact ⟨drawn, drawn ▸ score⟩

end SlothBox.Proofs

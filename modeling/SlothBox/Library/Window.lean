import Mathlib.Tactic.Ring.RingNF
import Mathlib.Order.Basic
import SlothBox.Library.Keyed

/-! Counting what lies in a sliding window with a sorted set: members with scores,
under a key that expires. The order of the members is not kept, since nothing here
reads it. -/

namespace SlothBox.Library

/-- Members with integral scores, each member once. -/
structure SortedSet (μ : Type) where
  entries : List (μ × Int)
  distinct : (entries.map Prod.fst).Nodup

/-- A key that holds a sorted set. A key without members does not exist. -/
structure Slot (μ : Type) where
  set : SortedSet μ
  /-- The last millisecond at which the key is still there, if it has a time to live. -/
  expireAt : Option Int

namespace SortedSet
variable {μ : Type}

def empty : SortedSet μ := ⟨[], List.nodup_nil⟩

def card (set : SortedSet μ) : Nat := set.entries.length

/-- `ZREMRANGEBYSCORE`. -/
def removeByScore (set : SortedSet μ) (range : Int → Bool) : SortedSet μ where
  entries := set.entries.filter fun entry => !range entry.2
  distinct := set.distinct.sublist (List.filter_sublist.map _)

variable [DecidableEq μ]

def contains (set : SortedSet μ) (member : μ) : Bool := set.entries.any (·.1 = member)

private theorem notMem_of_contains {set : SortedSet μ} {member : μ} (absent : ¬set.contains member) :
    member ∉ set.entries.map Prod.fst := by
  intro inside
  obtain ⟨entry, found, same⟩ := List.mem_map.mp inside
  exact absent (List.any_eq_true.mpr ⟨entry, found, decide_eq_true same⟩)

/-- `ZADD`: a member that is there already gets the new score. -/
def add (set : SortedSet μ) (member : μ) (score : Int) : SortedSet μ :=
  if absent : ¬set.contains member then
    ⟨set.entries ++ [(member, score)], nodup_concat score set.distinct (notMem_of_contains absent)⟩
  else
    ⟨set.entries.map fun entry => if entry.1 = member then (member, score) else entry, by
      rw [map_fst_replace]
      exact set.distinct⟩

theorem contains_iff {set : SortedSet μ} {member : μ} :
    set.contains member ↔ ∃ score, (member, score) ∈ set.entries := by
  rw [contains, List.any_eq_true]
  constructor
  · rintro ⟨⟨found, score⟩, inside, same⟩
    exact ⟨score, of_decide_eq_true same ▸ inside⟩
  · rintro ⟨score, inside⟩
    exact ⟨_, inside, decide_eq_true rfl⟩

theorem entries_add_of_absent {set : SortedSet μ} {member : μ} {score : Int} (absent : ¬set.contains member) :
    (set.add member score).entries = set.entries ++ [(member, score)] := by
  rw [add, dif_pos absent]

theorem contains_add_self {set : SortedSet μ} {member : μ} {score : Int} : (member, score) ∈ (set.add member score).entries := by
  unfold add
  split
  next => exact List.mem_append_right _ List.mem_cons_self
  next present =>
    obtain ⟨old, inside⟩ := contains_iff.mp (not_not.mp present)
    exact List.mem_map.mpr ⟨_, inside, if_pos rfl⟩

theorem card_add {set : SortedSet μ} {member : μ} {score : Int} :
    (set.add member score).card = if set.contains member then set.card else set.card + 1 := by
  unfold add card
  by_cases present : set.contains member
  · rw [dif_neg (not_not.mpr present), if_pos present, List.length_map]
  · rw [dif_pos present, if_neg present, List.length_append, List.length_singleton]

/-- Other members stay, and no score falls below the new one without having been there. -/
theorem mem_add {set : SortedSet μ} {member other : μ} {score old : Int} (inside : (other, old) ∈ set.entries) :
    other = member ∧ (other, score) ∈ (set.add member score).entries ∨ (other, old) ∈ (set.add member score).entries := by
  by_cases same : other = member
  · exact .inl ⟨same, same ▸ contains_add_self⟩
  · unfold add
    split
    next => exact .inr (List.mem_append_left _ inside)
    next => exact .inr (List.mem_map.mpr ⟨_, inside, if_neg same⟩)

/-- Distinct members that are all in the set are at most as many as the set has. -/
theorem length_le_card {set : SortedSet μ} {members : List μ} (distinct : members.Nodup)
    (inside : ∀ member ∈ members, set.contains member) : members.length ≤ set.card := by
  have subset : members ⊆ set.entries.map Prod.fst := by
    intro member member'
    obtain ⟨score, found⟩ := contains_iff.mp (inside member member')
    exact List.mem_map.mpr ⟨_, found, rfl⟩
  simpa [card] using distinct.length_le_of_subset subset

end SortedSet

namespace Slot
variable {μ : Type}

def vacant : Slot μ := ⟨.empty, none⟩

/-- What a command finds under the key. -/
def live (slot : Slot μ) (now : Int) : Slot μ := if slot.expireAt.any (· < now) then vacant else slot

/-- `ZREMRANGEBYSCORE`; with its last member the key goes, and its time to live. -/
def trim (slot : Slot μ) (range : Int → Bool) : Slot μ :=
  if (slot.set.removeByScore range).card = 0 then vacant else ⟨slot.set.removeByScore range, slot.expireAt⟩

/-- `ZADD`. -/
def add [DecidableEq μ] (slot : Slot μ) (member : μ) (score : Int) : Slot μ := ⟨slot.set.add member score, slot.expireAt⟩

/-- `PEXPIRE`: a time to live that is not positive deletes the key. -/
def expire (slot : Slot μ) (now ttl : Int) : Slot μ :=
  if ttl ≤ 0 ∨ slot.set.card = 0 then vacant else ⟨slot.set, some (now + ttl)⟩

@[simp] theorem entries_vacant : (vacant : Slot μ).set.entries = [] := rfl

@[simp] theorem live_vacant (now : Int) : (vacant : Slot μ).live now = vacant := rfl

theorem live_of_expired {slot : Slot μ} {now last : Int} (limited : slot.expireAt = some last) (past : last < now) :
    slot.live now = vacant := by
  rw [live, limited, if_pos (by simpa using past)]

theorem live_of_not_expired {slot : Slot μ} {now : Int} (there : ∀ last, slot.expireAt = some last → now ≤ last) :
    slot.live now = slot := by
  apply if_neg
  intro expired
  obtain ⟨last, limited, past⟩ := (Option.any_eq_true _ _).mp expired
  have := there last limited
  simp only [decide_eq_true_eq] at past
  omega

/-- Removing the key with its last member makes no difference to the members. -/
theorem entries_trim (slot : Slot μ) (range : Int → Bool) :
    (slot.trim range).set.entries = slot.set.entries.filter fun entry => !range entry.2 := by
  unfold trim
  split
  next none => exact (List.eq_nil_of_length_eq_zero none).symm
  next => rfl

theorem live_live {slot : Slot μ} {first second : Int} (later : first ≤ second) :
    (slot.live first).live second = slot.live second := by
  by_cases expired : ∃ last, slot.expireAt = some last ∧ last < first
  · obtain ⟨last, limited, past⟩ := expired
    rw [live_of_expired limited past, live_of_expired limited (Int.lt_of_lt_of_le past later)]
    rfl
  · rw [@live_of_not_expired _ slot first]
    intro last limited
    by_contra past
    exact expired ⟨last, limited, Int.not_le.mp past⟩

theorem entries_live_trim (slot : Slot μ) (range : Int → Bool) (now : Int) :
    ((slot.trim range).live now).set.entries = (slot.live now).set.entries.filter fun entry => !range entry.2 := by
  unfold trim
  split
  next none =>
    have nothing : slot.set.entries.filter (fun entry => !range entry.2) = [] := List.eq_nil_of_length_eq_zero none
    rw [live_vacant, live]
    split
    next => rfl
    next => exact nothing.symm
  next =>
    unfold live
    dsimp only
    split
    next => rfl
    next => rfl

/-- Removing members now does not show later, when more of them are removed. -/
theorem entries_trim_later {slot : Slot μ} {first second width : Int} (later : first ≤ second) :
    ((((slot.live first).trim (· ≤ first - width)).live second).trim (· ≤ second - width)).set.entries =
      ((slot.live second).trim (· ≤ second - width)).set.entries := by
  rw [entries_trim, entries_live_trim, live_live later, entries_trim, List.filter_filter]
  apply List.filter_congr
  intro entry _
  rw [Bool.and_eq_left_iff_imp]
  simp only [Bool.not_eq_true', decide_eq_false_iff_not]
  omega

end Slot

/-! ### Windows -/

/-- Times in their order, each of which had fewer than `limit` others in the window that
it closes. -/
inductive Paced (width : Int) (limit : Nat) : List Int → Prop where
  | nil : Paced width limit []
  | snoc {times time} (paced : Paced width limit times) (latest : ∀ earlier ∈ times, earlier ≤ time)
      (room : (times.filter (time - width < ·)).length < limit) : Paced width limit (times ++ [time])

/-- Then no window holds more than `limit`, wherever it closes. -/
theorem Paced.bounded {width : Int} {limit : Nat} {times : List Int} (paced : Paced width limit times) (t : Int) :
    (times.filter fun time => t - width < time ∧ time ≤ t).length ≤ limit := by
  induction paced with
  | nil => exact Nat.zero_le _
  | @snoc times time before latest room ih =>
    by_cases inside : t - width < time ∧ time ≤ t
    · -- the earlier times in the window at `t` were in the window that the last one closed
      have earlier : (times.filter fun time => t - width < time ∧ time ≤ t).length ≤
          (times.filter (time - width < ·)).length := by
        refine (List.monotone_filter_right times fun early within => ?_).length_le
        simp only [decide_eq_true_eq] at within ⊢
        omega
      rw [List.filter_append, List.filter_cons_of_pos (by simpa using inside), List.filter_nil, List.length_append,
        List.length_singleton]
      omega
    · rw [List.filter_append, List.filter_cons_of_neg (by simpa using inside), List.filter_nil, List.append_nil]
      exact ih

end SlothBox.Library

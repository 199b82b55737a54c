import Mathlib.Data.List.Chain
import Mathlib.Data.List.Infix

/-! Chains of hashed entries. Each entry names the digest of the one before it; what
a digest pins is a hypothesis about the entries at hand, not a property of hashing. -/

namespace SlothBox.Library.HashChain

variable {α σ : Type} (link digest : α → σ)

/-- Every entry but the first names the digest of its predecessor. -/
def Linked (entries : List α) : Prop := entries.IsChain fun before after => link after = digest before

variable {link digest}

theorem Linked.tail {entry : α} {rest : List α} (linked : Linked link digest (entry :: rest)) :
    Linked link digest rest := List.IsChain.tail linked

/-- Appending behind the last entry, by naming its digest. -/
theorem Linked.concat {entries : List α} {entry : α} (linked : Linked link digest entries)
    (names : ∀ last, entries.getLast? = some last → link entry = digest last) :
    Linked link digest (entries ++ [entry]) := by
  refine List.isChain_append.mpr ⟨linked, List.isChain_singleton _, ?_⟩
  intro last found next head
  simp only [List.head?_cons, Option.mem_some_iff] at head
  exact head ▸ names last found

/-- The last digest pins the whole history: if equal digests force equal contents and
equal links on the entries at hand, two chains of one length that end in the same
digest agree entry by entry. The first entries only have to agree in their digests. -/
theorem Linked.pinned {β : Type} {content : α → β} {first second : List α} (length : first.length = second.length)
    (linked : Linked link digest first) (linked' : Linked link digest second)
    (binds : ∀ a ∈ first.tail, ∀ b ∈ second.tail, digest a = digest b → content a = content b ∧ link a = link b)
    (ends : first.getLast?.map digest = second.getLast?.map digest) :
    List.Forall₂ (fun a b => content a = content b ∧ link a = link b ∧ digest a = digest b) first.tail second.tail ∧
      first.head?.map digest = second.head?.map digest := by
  induction first generalizing second with
  | nil =>
    cases List.eq_nil_of_length_eq_zero length.symm
    exact ⟨.nil, rfl⟩
  | cons a rest ih =>
    cases second with
    | nil => cases length
    | cons b others =>
      cases rest with
      | nil =>
        cases List.eq_nil_of_length_eq_zero (Nat.succ.inj length).symm
        exact ⟨.nil, by simpa using ends⟩
      | cons next rest =>
        cases others with
        | nil => cases length
        | cons following others =>
          obtain ⟨agrees, heads⟩ := ih (Nat.succ.inj length) linked.tail linked'.tail
            (fun x inside y also => binds x (List.mem_of_mem_tail inside) y (List.mem_of_mem_tail also))
            (by simpa using ends)
          have hashed : digest next = digest following := by simpa using heads
          obtain ⟨same, links⟩ := binds next List.mem_cons_self following List.mem_cons_self hashed
          refine ⟨.cons ⟨same, links, hashed⟩ agrees, ?_⟩
          have before := (List.isChain_cons_cons.mp linked).1
          have before' := (List.isChain_cons_cons.mp linked').1
          simp only [List.head?_cons, Option.map_some, Option.some.injEq]
          rw [← before, ← before', links]

/-- Every entry behind the first one names the digest of some entry. -/
theorem Linked.predecessor {first entry : α} {rest : List α} (linked : Linked link digest (first :: rest))
    (inside : entry ∈ rest) : ∃ before ∈ first :: rest, link entry = digest before := by
  induction rest generalizing first with
  | nil => cases inside
  | cons next rest ih =>
    obtain ⟨named, later⟩ := List.isChain_cons_cons.mp linked
    rcases List.mem_cons.mp inside with same | inside
    · exact ⟨first, List.mem_cons_self, same ▸ named⟩
    · obtain ⟨before, member, named⟩ := ih later inside
      exact ⟨before, List.mem_cons_of_mem _ member, named⟩

/-- Between two kept entries nothing was dropped. -/
def Gapless (keep : α → Bool) (entries : List α) : Prop :=
  ∀ before middle after, [before, middle, after].Sublist entries → keep before → keep after → keep middle

private theorem gapless_cons_dropped {keep : α → Bool} {entry : α} {rest : List α} (dropped : keep entry = false) :
    Gapless keep (entry :: rest) ↔ Gapless keep rest := by
  constructor
  · intro gapless before middle after inside
    exact gapless before middle after (inside.trans (List.sublist_cons_self _ _))
  · intro gapless before middle after inside kept
    cases inside with
    | cons _ inside => exact gapless before middle after inside kept
    | cons_cons _ inside => simp [dropped] at kept

private theorem gapless_cons_cons {keep : α → Bool} {entry next : α} {rest : List α} (kept : keep next) :
    Gapless keep (entry :: next :: rest) ↔ Gapless keep (next :: rest) := by
  constructor
  · intro gapless before middle after inside
    exact gapless before middle after (inside.trans (List.sublist_cons_self _ _))
  · intro gapless before middle after inside keptBefore keptAfter
    cases inside with
    | cons _ inside => exact gapless before middle after inside keptBefore keptAfter
    | cons_cons _ inside =>
      cases inside with
      | cons _ inside => exact gapless next middle after (.cons_cons _ inside) kept keptAfter
      | cons_cons _ inside => exact kept

private theorem third_mem {before middle after entry next : α} {rest : List α}
    (inside : [before, middle, after].Sublist (entry :: next :: rest)) : after ∈ rest := by
  have shorter : [after].Sublist rest := by
    simpa using inside.drop 2
  exact List.singleton_sublist.mp shorter

/-- With distinct digests, what is left of a chain is a chain exactly when nothing
is missing between two entries that are left. -/
theorem Linked.filter_iff {entries : List α} (linked : Linked link digest entries)
    (distinct : (entries.map digest).Nodup) (keep : α → Bool) :
    Linked link digest (entries.filter keep) ↔ Gapless keep entries := by
  induction entries with
  | nil => exact ⟨fun _ _ _ _ inside => (nomatch inside), fun _ => List.isChain_nil⟩
  | cons entry rest ih =>
    have shorter := ih linked.tail (List.nodup_cons.mp distinct).2
    cases kept : keep entry with
    | false => rw [List.filter_cons_of_neg (by simp [kept]), shorter, gapless_cons_dropped kept]
    | true =>
      rw [List.filter_cons_of_pos kept]
      cases rest with
      | nil =>
        refine ⟨fun _ before middle after inside => ?_, fun _ => List.isChain_singleton _⟩
        have := inside.length_le
        simp at this
      | cons next rest =>
        cases keptNext : keep next with
        | true =>
          rw [gapless_cons_cons keptNext, ← shorter, List.filter_cons_of_pos keptNext]
          exact List.isChain_cons_cons.trans (and_iff_right (List.isChain_cons_cons.mp linked).1)
        | false =>
          have emptied : Gapless keep (entry :: next :: rest) ↔ rest.filter keep = [] := by
            rw [List.filter_eq_nil_iff]
            constructor
            · intro gapless after inside keptAfter
              have between := gapless entry next after
                (.cons_cons _ (.cons_cons _ (List.singleton_sublist.mpr inside))) kept keptAfter
              simp [keptNext] at between
            · intro none before middle after inside _ keptAfter
              exact absurd keptAfter (none after (third_mem inside))
          rw [List.filter_cons_of_neg (by simp [keptNext]), emptied]
          constructor
          · -- the first entry left would name both its own predecessor and this one
            intro again
            cases left : rest.filter keep with
            | nil => rfl
            | cons after others =>
              rw [left] at again
              have inside : after ∈ rest := List.mem_of_mem_filter (left ▸ List.mem_cons_self)
              obtain ⟨before, member, named⟩ := linked.tail.predecessor inside
              have clash : digest entry = digest before :=
                (List.isChain_cons_cons.mp again).1.symm.trans named
              exact absurd (clash ▸ List.mem_map_of_mem member) (List.nodup_cons.mp distinct).1
          · intro none
            rw [none]
            exact List.isChain_singleton _

end SlothBox.Library.HashChain

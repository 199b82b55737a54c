import SlothBox.Proofs.AuditChain

/-! What a change of the stored chain does to its verification. The last hash pins
every row behind the genesis row; an edit of a hashed column is reported; a row
taken out from between two others is reported. Nothing reports a missing beginning. -/

namespace SlothBox.Proofs
open Library HashChain

variable {sha256 : Bytes → Bytes} {session : Session}

/-- A table is as long as its set of numbers, in the same order. -/
theorem seqs_eq {first second : AuditTable}
    (numbers : ∀ seq, seq ∈ first.rows.map AuditRow.seq ↔ seq ∈ second.rows.map AuditRow.seq) :
    first.rows.map AuditRow.seq = second.rows.map AuditRow.seq := by
  have ordered : ∀ table : AuditTable, (table.rows.map AuditRow.seq).Pairwise (· < ·) := fun table =>
    List.pairwise_map.mpr table.sorted
  have distinct : ∀ table : AuditTable, (table.rows.map AuditRow.seq).Nodup := fun table =>
    (ordered table).imp Nat.ne_of_lt
  have perm := (List.perm_ext_iff_of_nodup (distinct first) (distinct second)).mpr numbers
  exact perm.eq_of_pairwise (fun a b _ _ less more => absurd more (Nat.lt_asymm less)) (ordered first) (ordered second)

/-- Rows that carry their own hash agree in what is hashed as soon as they agree in the hash. -/
theorem hashed_binds (injective : Function.Injective sha256) {first second : AuditRow}
    (hashed : Hashed sha256 session first) (hashed' : Hashed sha256 session second)
    (width : first.prevHash.length = second.prevHash.length) (same : first.entryHash = second.entryHash) :
    (session.text first.occurredAt, first.eventType, first.payload) =
      (session.text second.occurredAt, second.eventType, second.payload) ∧ first.prevHash = second.prevHash := by
  obtain ⟨input, read, digest⟩ := Option.map_eq_some_iff.mp hashed
  obtain ⟨input', read', digest'⟩ := Option.map_eq_some_iff.mp hashed'
  obtain rfl := injective (digest.trans (same.trans digest'.symm))
  obtain ⟨prev, times, events, payloads⟩ := preimage_inj width read read'
  exact ⟨by rw [times, events, payloads], prev⟩

/-- The first row is the genesis row, and the others come behind it. -/
theorem later_of_tail {table : AuditTable} (genesis : 1 ∈ table.rows.map AuditRow.seq) {row : AuditRow}
    (inside : row ∈ table.rows) : row ∈ table.rows.tail ↔ 1 < row.seq := by
  obtain ⟨rows, sorted, positive⟩ := table
  cases rows with
  | nil => cases inside
  | cons head rest =>
    have least := positive head List.mem_cons_self
    have behind := (List.pairwise_cons.mp sorted).1
    have first : head.seq = 1 := by
      obtain ⟨one, member, same⟩ := List.mem_map.mp genesis
      rcases List.mem_cons.mp member with rfl | member
      · exact same
      · have := behind one member
        omega
    constructor
    · intro member
      have := behind row member
      omega
    · intro later
      rcases List.mem_cons.mp inside with rfl | member
      · omega
      · exact member

private theorem partner {related : AuditRow → AuditRow → Prop} {first second : List AuditRow}
    (agrees : List.Forall₂ related first second) (seqs : first.map AuditRow.seq = second.map AuditRow.seq)
    {row : AuditRow} (inside : row ∈ first) : ∃ twin ∈ second, related row twin ∧ row.seq = twin.seq := by
  induction agrees with
  | nil => cases inside
  | @cons a b rest others holds _ ih =>
    obtain ⟨number, seqs⟩ := List.cons.inj seqs
    rcases List.mem_cons.mp inside with rfl | inside
    · exact ⟨b, List.mem_cons_self, holds, number⟩
    · obtain ⟨twin, member, found⟩ := ih seqs inside
      exact ⟨twin, List.mem_cons_of_mem _ member, found⟩

/-- Two accepted tables over the same numbers that end in the same hash agree on
every hashed column of every row behind the genesis row. -/
theorem head_pins_history (sha256 : Bytes → Bytes) (injective : Function.Injective sha256) (session : Session)
    (first second : AuditTable) (accepted : first.verify sha256 session = .ok none)
    (accepted' : second.verify sha256 session = .ok none)
    (width : ∀ row ∈ first.rows ++ second.rows, row.prevHash.length = 32)
    (numbers : ∀ seq, seq ∈ first.rows.map AuditRow.seq ↔ seq ∈ second.rows.map AuditRow.seq)
    (genesis : 1 ∈ first.rows.map AuditRow.seq)
    (heads : first.rows.getLast?.map AuditRow.entryHash = second.rows.getLast?.map AuditRow.entryHash) :
    ∀ row ∈ first.rows, ∀ other ∈ second.rows, row.seq = other.seq → 1 < row.seq →
      row.prevHash = other.prevHash ∧ session.text row.occurredAt = session.text other.occurredAt ∧
        row.eventType = other.eventType ∧ row.payload = other.payload ∧ row.entryHash = other.entryHash := by
  obtain ⟨hashes, linked⟩ := (verify_accepts first).mp accepted
  obtain ⟨hashes', linked'⟩ := (verify_accepts second).mp accepted'
  have seqs := seqs_eq numbers
  have binds : ∀ a ∈ first.rows.tail, ∀ b ∈ second.rows.tail, a.entryHash = b.entryHash →
      (session.text a.occurredAt, a.eventType, a.payload) = (session.text b.occurredAt, b.eventType, b.payload) ∧
        a.prevHash = b.prevHash := by
    intro a inside b also same
    have member := List.mem_of_mem_tail inside
    have member' := List.mem_of_mem_tail also
    have widths : a.prevHash.length = b.prevHash.length :=
      (width a (List.mem_append_left _ member)).trans (width b (List.mem_append_right _ member')).symm
    exact hashed_binds injective (hashes a member ((later_of_tail genesis member).mp inside))
      (hashes' b member' ((later_of_tail ((numbers 1).mp genesis) member').mp also)) widths same
  have length : first.rows.length = second.rows.length := by
    simpa using congrArg List.length seqs
  obtain ⟨agrees, -⟩ := linked.pinned length linked' binds heads
  have tails : first.rows.tail.map AuditRow.seq = second.rows.tail.map AuditRow.seq := by
    rw [List.map_tail, List.map_tail, seqs]
  intro row inside other also same later
  have behind := (later_of_tail genesis inside).mpr later
  obtain ⟨twin, member, ⟨contents, prev, entry⟩, number⟩ := partner agrees tails behind
  obtain rfl := row_eq_of_seq second also (List.mem_of_mem_tail member) (same.symm.trans number)
  obtain ⟨times, events, payloads⟩ : _ ∧ _ ∧ _ := by simpa only [Prod.mk.injEq] using contents
  exact ⟨prev, times, events, payloads, entry⟩

theorem sampleTable_forgotten : (sampleTable.update 2 (.shareId none)).verify sampleSha256 sampleSession = .ok none := by
  decide +kernel

/-- The sample chain with one share forgotten: the column is not hashed, and the
hashed ones have to agree. -/
theorem head_pins_history_sample :
    (sampleTable.update 2 (.shareId none)).verify sampleSha256 sampleSession = .ok none ∧
    ∀ row ∈ sampleTable.rows, ∀ other ∈ (sampleTable.update 2 (.shareId none)).rows, row.seq = other.seq → 1 < row.seq →
      row.prevHash = other.prevHash ∧ sampleSession.text row.occurredAt = sampleSession.text other.occurredAt ∧
        row.eventType = other.eventType ∧ row.payload = other.payload ∧ row.entryHash = other.entryHash := by
  have numbers : (sampleTable.update 2 (.shareId none)).rows.map AuditRow.seq = sampleTable.rows.map AuditRow.seq := rfl
  exact ⟨sampleTable_forgotten, head_pins_history sampleSha256 sampleSha256_injective sampleSession sampleTable _
    sampleTable_accepted sampleTable_forgotten (by decide +kernel) (fun _ => by rw [numbers]) List.mem_cons_self rfl⟩

/-! ### Edits -/

/-- No column that goes into the hash can change under an unchanged hash, and the
hash cannot change over unchanged columns. -/
theorem hashed_edit (injective : Function.Injective sha256) (faithful : Function.Injective session.text)
    {row : AuditRow} {edit : Edit} (hashed : Hashed sha256 session row)
    (again : Hashed sha256 session (Edit.apply row edit)) (column : ∀ value, edit ≠ .shareId value) :
    Edit.apply row edit = row := by
  cases edit with
  | shareId value => exact absurd rfl (column value)
  | entryHash value =>
    have same : some row.entryHash = some value := hashed.symm.trans again
    rw [Edit.apply, ← Option.some.inj same]
  | occurredAt value =>
    obtain ⟨contents, -⟩ := hashed_binds injective hashed again rfl rfl
    have times := faithful (Prod.mk.inj contents).1
    rw [Edit.apply, ← show row.occurredAt = value from times]
  | eventType value =>
    obtain ⟨contents, -⟩ := hashed_binds injective hashed again rfl rfl
    have events := (Prod.mk.inj (Prod.mk.inj contents).2).1
    rw [Edit.apply, ← show row.eventType = value from events]
  | payload value =>
    obtain ⟨contents, -⟩ := hashed_binds injective hashed again rfl rfl
    have payloads := (Prod.mk.inj (Prod.mk.inj contents).2).2
    rw [Edit.apply, ← show row.payload = value from payloads]
  | prevHash value =>
    -- the widths may differ here, but everything behind the two hashes is the same
    obtain ⟨input, read, digest⟩ := Option.map_eq_some_iff.mp hashed
    obtain ⟨input', read', digest'⟩ := Option.map_eq_some_iff.mp again
    obtain rfl : input = input' := injective (digest.trans digest'.symm)
    obtain ⟨body, cast, same⟩ := preimage_eq_some.mp read
    obtain ⟨body', cast', same'⟩ := preimage_eq_some.mp read'
    obtain rfl : body = body' := Option.some.inj (cast.symm.trans cast')
    rw [same'] at same
    simp only [List.append_assoc] at same
    have prev : value = row.prevHash := List.append_cancel_right same
    rw [Edit.apply, prev]

/-- The row behind the edited one still names the old hash. -/
theorem linked_edit {table : AuditTable} {row : AuditRow} {value : Bytes} (inside : row ∈ table.rows)
    (linked : Linked AuditRow.prevHash AuditRow.entryHash table.rows)
    (again : Linked AuditRow.prevHash AuditRow.entryHash (table.update row.seq (.entryHash value)).rows)
    (followed : ∃ later ∈ table.rows, row.seq < later.seq) : value = row.entryHash := by
  obtain ⟨before, after, parts⟩ := List.append_of_mem inside
  have sorted := table.sorted
  rw [parts, List.pairwise_append] at sorted
  obtain ⟨-, ordered, across⟩ := sorted
  cases after with
  | nil =>
    obtain ⟨later, member, larger⟩ := followed
    rw [parts] at member
    rcases List.mem_append.mp member with earlier | same
    · have := across later earlier row List.mem_cons_self
      omega
    · rw [List.mem_singleton.mp same] at larger
      omega
  | cons next rest =>
    have larger := (List.pairwise_cons.mp ordered).1 next List.mem_cons_self
    rw [parts] at linked
    have named := (List.isChain_cons_cons.mp (List.isChain_append.mp linked).2.1).1
    simp only [Linked, AuditTable.update, parts, List.map_append, List.map_cons, ↓reduceIte,
      if_neg (Nat.ne_of_gt larger)] at again
    have renamed := (List.isChain_cons_cons.mp (List.isChain_append.mp again).2.1).1
    exact renamed.symm.trans named

/-- An accepted table with one column of one row changed is reported, if the column
is a hashed one or a hash, the row is not the genesis row (whose own hash counts as
soon as a row follows it), and the new payload can be cast at all. -/
theorem edit_reported (sha256 : Bytes → Bytes) (injective : Function.Injective sha256) (session : Session)
    (faithful : Function.Injective session.text) (table : AuditTable)
    (accepted : table.verify sha256 session = .ok none) (row : AuditRow) (inside : row ∈ table.rows) (edit : Edit)
    (changes : Edit.apply row edit ≠ row)
    (covered : 1 < row.seq ∧ (∀ value, edit ≠ .shareId value) ∨
      (∃ value, edit = .entryHash value) ∧ ∃ later ∈ table.rows, row.seq < later.seq)
    (readable : ∀ value, edit = .payload value → (byteaIn value.text.toList).isSome) :
    ∃ seq, (table.update row.seq edit).verify sha256 session = .ok (some seq) := by
  obtain ⟨hashes, linked⟩ := (verify_accepts table).mp accepted
  apply verify_reports
  · intro edited member later
    obtain ⟨old, found, same⟩ := List.mem_map.mp member
    split at same
    next number =>
      obtain rfl := row_eq_of_seq table found inside number
      subst same
      rw [expected_isSome]
      have cast := expected_isSome.mp (Option.isSome_iff_exists.mpr
        ⟨_, hashes old found (by simpa only [Edit.seq_apply] using later)⟩)
      cases edit with
      | payload value => exact readable value rfl
      | _ => exact cast
    next =>
      subst same
      exact Option.isSome_iff_exists.mpr ⟨_, hashes old found later⟩
  · intro again
    obtain ⟨hashes', linked'⟩ := (verify_accepts _).mp again
    rcases covered with ⟨later, column⟩ | ⟨⟨value, rfl⟩, followed⟩
    · have member : Edit.apply row edit ∈ (table.update row.seq edit).rows :=
        List.mem_map.mpr ⟨row, inside, if_pos rfl⟩
      have hashed' := hashes' _ member (by rw [Edit.seq_apply]; exact later)
      exact changes (hashed_edit injective faithful (hashes row inside later) hashed' column)
    · have same := linked_edit inside linked linked' followed
      exact changes (by rw [Edit.apply, same])

/-- Renaming the event of the second row. -/
theorem edit_reported_event : ∃ seq,
    (sampleTable.update 2 (.eventType .shareDownloaded)).verify sampleSha256 sampleSession = .ok (some seq) :=
  edit_reported sampleSha256 sampleSha256_injective sampleSession sampleSession_injective sampleTable
    sampleTable_accepted sampleCreated sampleCreated_mem (.eventType .shareDownloaded)
    (fun same => absurd (congrArg AuditRow.eventType same) (by decide)) (.inl ⟨by decide, nofun⟩) nofun

/-- The share an entry is about can be exchanged: `share_id` is not hashed. -/
theorem share_edit_unreported :
    ¬ ∀ (sha256 : Bytes → Bytes) (session : Session) (table : AuditTable) (row : AuditRow) (edit : Edit),
      Function.Injective sha256 → table.verify sha256 session = .ok none → row ∈ table.rows →
      Edit.apply row edit ≠ row → ∃ seq, (table.update row.seq edit).verify sha256 session = .ok (some seq) := by
  intro claimed
  obtain ⟨seq, reported⟩ := claimed sampleSha256 sampleSession sampleTable sampleCreated (.shareId none)
    sampleSha256_injective sampleTable_accepted sampleCreated_mem
    fun same => absurd (congrArg AuditRow.shareId same) (by decide)
  have same : Except.ok none = Except.ok (some seq) := sampleTable_forgotten.symm.trans reported
  cases same

/-! ### Deletions -/

/-- Position in the table is order of the numbers. -/
theorem sublist_three {table : AuditTable} {before middle after : AuditRow} (first : before ∈ table.rows)
    (second : middle ∈ table.rows) (third : after ∈ table.rows) (less : before.seq < middle.seq)
    (more : middle.seq < after.seq) : [before, middle, after].Sublist table.rows := by
  obtain ⟨left, right, parts⟩ := List.append_of_mem second
  have sorted := table.sorted
  rw [parts, List.pairwise_append] at sorted
  obtain ⟨-, behind, across⟩ := sorted
  have ahead : before ∈ left := by
    rw [parts] at first
    rcases List.mem_append.mp first with inside | inside
    · exact inside
    · rcases List.mem_cons.mp inside with rfl | inside
      · omega
      · have := (List.pairwise_cons.mp behind).1 before inside
        omega
  have later : after ∈ right := by
    rw [parts] at third
    rcases List.mem_append.mp third with inside | inside
    · have := across after inside middle List.mem_cons_self
      omega
    · rcases List.mem_cons.mp inside with rfl | inside
      · omega
      · exact inside
  rw [parts]
  exact (List.singleton_sublist.mpr ahead).append (.cons_cons _ (List.singleton_sublist.mpr later))

/-- Taking rows out of an accepted table is reported exactly when some row was taken
out from between two that are left: a missing tail is not, and neither is a missing
beginning. -/
theorem deletion_reported_iff (sha256 : Bytes → Bytes) (session : Session) (table : AuditTable)
    (accepted : table.verify sha256 session = .ok none) (distinct : (table.rows.map AuditRow.entryHash).Nodup)
    (kept : Nat → Bool) :
    (∃ seq, (table.keep kept).verify sha256 session = .ok (some seq)) ↔
      ∃ before ∈ table.rows, ∃ removed ∈ table.rows, ∃ after ∈ table.rows, before.seq < removed.seq ∧
        removed.seq < after.seq ∧ kept before.seq ∧ kept removed.seq = false ∧ kept after.seq := by
  obtain ⟨hashes, linked⟩ := (verify_accepts table).mp accepted
  have hashes' : ∀ row ∈ (table.keep kept).rows, 1 < row.seq → Hashed sha256 session row := fun row member =>
    hashes row (List.mem_of_mem_filter member)
  have gapless := linked.filter_iff distinct fun row => kept row.seq
  constructor
  · intro reported
    obtain ⟨seq, reported⟩ := reported
    by_contra whole
    have again : (table.keep kept).verify sha256 session = .ok none := by
      refine (verify_accepts _).mpr ⟨hashes', gapless.mpr ?_⟩
      intro before middle after inside keptBefore keptAfter
      have ordered := table.sorted.sublist inside
      simp only [List.pairwise_cons, List.mem_cons, List.not_mem_nil, or_false, forall_eq_or_imp, forall_eq] at ordered
      have member : ∀ row ∈ [before, middle, after], row ∈ table.rows := fun row found => inside.subset found
      by_contra dropped
      exact whole ⟨before, member _ (by simp), middle, member _ (by simp), after, member _ (by simp),
        ordered.1.1, ordered.2.1, keptBefore, by simpa using dropped, keptAfter⟩
    rw [again] at reported
    cases reported
  · intro gap
    obtain ⟨before, first, removed, second, after, third, less, more, keptBefore, dropped, keptAfter⟩ := gap
    apply verify_reports
    · intro row member later
      exact Option.isSome_iff_exists.mpr ⟨_, hashes' row member later⟩
    · intro again
      have linked' := ((verify_accepts _).mp again).2
      have between : kept removed.seq = true :=
        gapless.mp linked' before removed after (sublist_three first second third less more) keptBefore keptAfter
      rw [dropped] at between
      cases between

theorem sampleTable_distinct : (sampleTable.rows.map AuditRow.entryHash).Nodup := by
  decide +kernel

/-- The middle row is missed. -/
theorem deletion_reported_middle : ∃ seq,
    (sampleTable.keep (· != 2)).verify sampleSha256 sampleSession = .ok (some seq) :=
  (deletion_reported_iff sampleSha256 sampleSession sampleTable sampleTable_accepted sampleTable_distinct (· != 2)).mpr
    ⟨genesisRow sampleSha256 0, genesis_mem_sampleTable, sampleCreated, sampleCreated_mem, sampleDestroyed,
      sampleDestroyed_mem, by decide, by decide, by decide, by decide, by decide⟩

/-- The beginning is not: with the genesis row gone there is nothing to compare the
first remaining row with. -/
theorem beginning_deleted_unreported :
    ¬ ∀ (sha256 : Bytes → Bytes) (session : Session) (table : AuditTable) (kept : Nat → Bool),
      Function.Injective sha256 → (table.rows.map AuditRow.entryHash).Nodup →
      table.verify sha256 session = .ok none →
      (∃ removed ∈ table.rows, kept removed.seq = false ∧ ∃ left ∈ table.rows, kept left.seq ∧
        removed.seq < left.seq) →
      ∃ seq, (table.keep kept).verify sha256 session = .ok (some seq) := by
  intro claimed
  have accepted : (sampleTable.keep (· != 1)).verify sampleSha256 sampleSession = .ok none := by decide +kernel
  obtain ⟨seq, reported⟩ := claimed sampleSha256 sampleSession sampleTable (· != 1) sampleSha256_injective
    sampleTable_distinct sampleTable_accepted
    ⟨genesisRow sampleSha256 0, genesis_mem_sampleTable, by decide, sampleCreated, sampleCreated_mem, by decide,
      by decide⟩
  have same : Except.ok none = Except.ok (some seq) := accepted.symm.trans reported
  cases same

end SlothBox.Proofs

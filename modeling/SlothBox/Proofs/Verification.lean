import SlothBox.Proofs.AuditTransactions

/-! Verification of a part of the chain, and verification in another session. A range is
judged as the whole chain would judge it, unless the number before it was never
committed; another session judges as the appending ones did, as far as it prints the
same times. -/

namespace SlothBox.Proofs
open Library HashChain

variable {sha256 : Bytes → Bytes} {session : Session}

/-! ### The checks of one row -/

/-- The row with the highest number below the given one. -/
def preceding (rows : List AuditRow) (seq : Nat) : Option AuditRow :=
  latest (rows.filter fun row => row.seq < seq)

/-- The row names the hash of the row before it. -/
def Follows (rows : List AuditRow) (row : AuditRow) : Prop :=
  (preceding rows row.seq).map AuditRow.entryHash = some row.prevHash

/-- The two checks that full verification makes of a row; the genesis row is exempt. -/
def Passes (sha256 : Bytes → Bytes) (session : Session) (rows : List AuditRow) (row : AuditRow) : Prop :=
  1 < row.seq → Follows rows row ∧ Hashed sha256 session row

/-- The payload's text is the text of a `bytea`. -/
def Readable (row : AuditRow) : Prop := (byteaIn row.payload.text.toList).isSome

instance (rows : List AuditRow) (row : AuditRow) : Decidable (Follows rows row) :=
  inferInstanceAs (Decidable (_ = _))

instance (row : AuditRow) : Decidable (Hashed sha256 session row) := inferInstanceAs (Decidable (_ = _))

instance (rows : List AuditRow) (row : AuditRow) : Decidable (Passes sha256 session rows row) :=
  inferInstanceAs (Decidable (1 < row.seq → _ ∧ _))

instance (row : AuditRow) : Decidable (Readable row) := inferInstanceAs (Decidable (_ = _))

theorem preceding_eq {front back : List AuditRow} {row : AuditRow}
    (sorted : (front ++ row :: back).Pairwise fun before after => before.seq < after.seq) :
    preceding (front ++ row :: back) row.seq = front.getLast? := by
  obtain ⟨order, behind, across⟩ := List.pairwise_append.mp sorted
  have kept : front.filter (fun other => other.seq < row.seq) = front :=
    List.filter_eq_self.mpr fun other inside => by simpa using across other inside row List.mem_cons_self
  have dropped : (row :: back).filter (fun other => other.seq < row.seq) = [] := by
    refine List.filter_eq_nil_iff.mpr fun other inside => ?_
    rcases List.mem_cons.mp inside with rfl | later
    · simp
    · have := (List.pairwise_cons.mp behind).1 other later
      simp only [decide_eq_true_eq, Nat.not_lt]
      omega
  rw [preceding, List.filter_append, kept, dropped, List.append_nil, latest_sorted order]

/-- What the loop says of rows in the middle of a chain: nothing if all of them pass, or
else something about the first one that does not. -/
theorem verifyLoop_middle {rows before todo after : List AuditRow} {last : AuditRow}
    (sorted : rows.Pairwise fun before after => before.seq < after.seq) (split : rows = before ++ todo ++ after)
    (bootstrap : before.getLast? = some last) (later : ∀ row ∈ todo, 1 < row.seq) :
    ((∀ row ∈ todo, Passes sha256 session rows row) ∧
      verifyLoop sha256 session (some last.entryHash) todo = .ok none) ∨
    ∃ done row rest, todo = done ++ row :: rest ∧ (∀ other ∈ done, Passes sha256 session rows other) ∧
      ¬Passes sha256 session rows row ∧
      ((Follows rows row → Readable row) →
        verifyLoop sha256 session (some last.entryHash) todo = .ok (some row.seq)) ∧
      (Follows rows row → ¬Readable row →
        verifyLoop sha256 session (some last.entryHash) todo = .error .invalidBytea) := by
  induction todo generalizing before last with
  | nil => exact .inl ⟨fun row inside => (nomatch inside), rfl⟩
  | cons row rest ih =>
    have number := later row List.mem_cons_self
    have middle : rows = before ++ row :: (rest ++ after) := by
      rw [split, List.append_assoc, List.cons_append]
    have follows : Follows rows row ↔ row.prevHash = last.entryHash := by
      rw [Follows, middle, preceding_eq (middle ▸ sorted), bootstrap, Option.map_some, Option.some.injEq]
      exact eq_comm
    rw [verifyLoop, if_pos number, Option.any_some]
    by_cases linked : row.prevHash = last.entryHash
    · rw [if_neg (by simpa using linked)]
      cases hashed : row.expected sha256 session with
      | none =>
        have unreadable : ¬Readable row := by
          rw [Readable, ← @expected_isSome sha256 session, hashed]
          simp
        refine .inr ⟨[], row, rest, rfl, fun other inside => (nomatch inside), ?_, ?_, fun _ _ => rfl⟩
        · intro passes
          exact absurd (hashed.symm.trans (passes number).2) (by simp)
        · intro readable
          exact absurd (readable (follows.mpr linked)) unreadable
      | some expected =>
        have readable : Readable row := by
          rw [Readable, ← @expected_isSome sha256 session, hashed]
          rfl
        dsimp only
        by_cases same : row.entryHash = expected
        · rw [if_neg (not_not.mpr same)]
          have passes : Passes sha256 session rows row := fun _ =>
            ⟨follows.mpr linked, hashed.trans (congrArg some same.symm)⟩
          have front : rows = (before ++ [row]) ++ rest ++ after := by
            rw [middle, List.append_assoc, List.append_assoc]
            rfl
          have tip : (before ++ [row]).getLast? = some row := List.getLast?_concat
          rcases ih front tip fun other inside => later other (List.mem_cons_of_mem _ inside) with
            ⟨all, accepted⟩ | ⟨done, first, others, shape, earlier, fails, reported, raised⟩
          · exact .inl ⟨List.forall_mem_cons.mpr ⟨passes, all⟩, accepted⟩
          · exact .inr ⟨row :: done, first, others, by rw [shape, List.cons_append],
              List.forall_mem_cons.mpr ⟨passes, earlier⟩, fails, reported, raised⟩
        · rw [if_pos same]
          refine .inr ⟨[], row, rest, rfl, fun other inside => (nomatch inside), ?_, fun _ => rfl, ?_⟩
          · intro passes
            exact same (Option.some.inj ((passes number).2.symm.trans hashed))
          · intro _ unreadable
            exact absurd readable unreadable
    · rw [if_pos (by simpa using linked)]
      refine .inr ⟨[], row, rest, rfl, fun other inside => (nomatch inside), ?_, fun _ => rfl, ?_⟩
      · intro passes
        exact linked (follows.mp (passes number).1)
      · intro named
        exact absurd (follows.mp named) linked

/-! ### Ranges -/

/-- Cutting a table at a number. -/
theorem rows_cut {rows : List AuditRow} (sorted : rows.Pairwise fun before after => before.seq < after.seq)
    (cut : Nat) : rows = rows.filter (fun row => row.seq < cut) ++ rows.filter (fun row => cut ≤ row.seq) := by
  induction rows with
  | nil => rfl
  | cons row rest ih =>
    obtain ⟨behind, others⟩ := List.pairwise_cons.mp sorted
    by_cases early : row.seq < cut
    · rw [List.filter_cons_of_pos (by simpa using early), List.filter_cons_of_neg (by simpa using early),
        List.cons_append, ← ih others]
    · have nothing : rest.filter (fun row => row.seq < cut) = [] := by
        refine List.filter_eq_nil_iff.mpr fun other inside => ?_
        have := behind other inside
        simp only [decide_eq_true_eq, Nat.not_lt]
        omega
      have all : rest.filter (fun row => cut ≤ row.seq) = rest := by
        simpa [nothing] using (ih others).symm
      rw [List.filter_cons_of_neg (by simpa using early), List.filter_cons_of_pos (by simpa using early), nothing, all,
        List.nil_append]

/-- The rows that a range verification loops over. -/
def inRange (rows : List AuditRow) (pFrom pTo : Nat) : List AuditRow :=
  rows.filter fun row => pFrom ≤ row.seq && row.seq ≤ pTo

theorem mem_inRange {rows : List AuditRow} {pFrom pTo : Nat} {row : AuditRow} :
    row ∈ inRange rows pFrom pTo ↔ row ∈ rows ∧ pFrom ≤ row.seq ∧ row.seq ≤ pTo := by
  simp [inRange]

/-- A range stands between what comes before and what comes after it. -/
theorem rows_range {rows : List AuditRow} (sorted : rows.Pairwise fun before after => before.seq < after.seq)
    (pFrom pTo : Nat) :
    rows = rows.filter (fun row => row.seq < pFrom) ++ inRange rows pFrom pTo ++
      rows.filter (fun row => pFrom ≤ row.seq && pTo + 1 ≤ row.seq) := by
  have tail := rows_cut (sorted.filter fun row => pFrom ≤ row.seq) (pTo + 1)
  rw [List.filter_filter, List.filter_filter] at tail
  have cut := rows_cut sorted pFrom
  rw [tail, ← List.append_assoc] at cut
  convert cut using 3
  · refine List.filter_congr fun row _ => ?_
    rw [Bool.and_comm]
    simp only [Nat.lt_succ_iff]
  · funext row
    exact Bool.and_comm _ _

/-- The row whose hash the loop starts with is there. -/
def Bootstraps (rows : List AuditRow) (pFrom : Nat) : Prop := pFrom = 1 ∨ ∃ before ∈ rows, before.seq + 1 = pFrom

/-- The loop of a range that starts as `verify_audit_chain` starts it. -/
theorem verify_range {table : AuditTable} {start : AuditRow} {pFrom pTo : Nat} (inside : start ∈ table.rows)
    (number : start.seq = pFrom) (ordered : pFrom ≤ pTo) (bootstraps : Bootstraps table.rows pFrom) :
    ∃ before todo after last, table.rows = before ++ todo ++ after ∧ before.getLast? = some last ∧
      (∀ row ∈ todo, 1 < row.seq) ∧
      verifyAuditChain sha256 session table.rows pFrom (some pTo) =
        verifyLoop sha256 session (some last.entryHash) todo ∧
      ∀ row, row ∈ inRange table.rows pFrom pTo ↔ row ∈ todo ∨ pFrom = 1 ∧ row = last ∧ row.seq = 1 := by
  have split := rows_range table.sorted pFrom pTo
  by_cases first : pFrom = 1
  · subst first
    have early : table.rows.filter (fun row => row.seq < 1) = [] := by
      refine List.filter_eq_nil_iff.mpr fun row member => ?_
      simpa using Nat.pos_iff_ne_zero.mp (table.positive row member)
    rw [early, List.nil_append] at split
    have member : start ∈ inRange table.rows 1 pTo := mem_inRange.mpr ⟨inside, by omega, by omega⟩
    cases range : inRange table.rows 1 pTo with
    | nil => simp [range] at member
    | cons head rest =>
      rw [range] at split member
      have sorted := table.sorted
      rw [split, List.cons_append] at sorted
      have behind := (List.pairwise_cons.mp sorted).1
      have least := table.positive head (split ▸ List.mem_append_left _ List.mem_cons_self)
      have genesis : head.seq = 1 := by
        rcases List.mem_cons.mp member with rfl | later
        · exact number
        · have := behind start (List.mem_append_left _ later)
          omega
      refine ⟨[head], rest, _, head, split, rfl, fun row later => ?_, ?_, fun row => ?_⟩
      · have := behind row (List.mem_append_left _ later)
        omega
      · change verifyLoop sha256 session none (inRange table.rows 1 pTo) = _
        rw [range, verifyLoop, if_neg (by omega)]
      · rw [List.mem_cons, or_comm]
        refine or_congr_right ⟨fun same => ⟨rfl, same, same ▸ genesis⟩, fun same => same.2.1⟩
  · obtain ⟨before, present, adjacent⟩ := bootstraps.resolve_left first
    have positive := table.positive before present
    refine ⟨_, _, _, before, split, ?_, fun row member => ?_, ?_, fun row => by simp [first]⟩
    · have listed : before ∈ table.rows.filter (fun row => row.seq < pFrom) :=
        List.mem_filter.mpr ⟨present, by simpa using by omega⟩
      have sorted := table.sorted.filter fun row => row.seq < pFrom
      cases tip : (table.rows.filter (fun row => row.seq < pFrom)).getLast? with
      | none => simp [List.getLast?_eq_none_iff.mp tip] at listed
      | some last =>
        obtain ⟨front, shape⟩ := List.getLast?_eq_some_iff.mp tip
        have bound : last.seq < pFrom := by
          simpa using (List.mem_filter.mp (List.mem_of_getLast? tip)).2
        rw [shape] at listed sorted
        rcases List.mem_append.mp listed with earlier | same
        · have := (List.pairwise_append.mp sorted).2.2 before earlier last List.mem_cons_self
          omega
        · rw [List.mem_singleton.mp same]
    · have := mem_inRange.mp member
      omega
    · have found : table.rows.find? (fun row => row.seq = pFrom - 1) = some before := by
        cases search : table.rows.find? (fun row => row.seq = pFrom - 1) with
        | none => exact absurd (List.find?_eq_none.mp search before present) (by simp; omega)
        | some other =>
          have same : other.seq = pFrom - 1 := by simpa using List.find?_some search
          rw [row_eq_of_seq table (List.mem_of_find?_eq_some search) present (by omega)]
      simp only [verifyAuditChain, if_pos (by omega : 1 < pFrom), found]
      rfl

/-- The row of a range with the smallest number that does not pass. -/
structure FirstFailing (sha256 : Bytes → Bytes) (session : Session) (rows : List AuditRow) (pFrom pTo : Nat)
    (row : AuditRow) : Prop where
  inside : row ∈ inRange rows pFrom pTo
  fails : ¬Passes sha256 session rows row
  earlier : ∀ other ∈ inRange rows pFrom pTo, other.seq < row.seq → Passes sha256 session rows other

theorem FirstFailing.unique {rows : List AuditRow} {pFrom pTo : Nat} {first second : AuditRow}
    (found : FirstFailing sha256 session rows pFrom pTo first)
    (found' : FirstFailing sha256 session rows pFrom pTo second) : first.seq = second.seq := by
  rcases Nat.lt_trichotomy first.seq second.seq with less | same | more
  · exact absurd (found'.earlier first found.inside less) found.fails
  · exact same
  · exact absurd (found.earlier second found'.inside more) found'.fails

theorem firstFailing_exists {rows : List AuditRow} {pFrom pTo : Nat}
    (broken : ¬∀ row ∈ inRange rows pFrom pTo, Passes sha256 session rows row) :
    ∃ row, FirstFailing sha256 session rows pFrom pTo row := by
  classical
  simp only [not_forall] at broken
  obtain ⟨some, inside, fails⟩ := broken
  have numbers : ∃ seq, ∃ row ∈ inRange rows pFrom pTo, row.seq = seq ∧ ¬Passes sha256 session rows row :=
    ⟨some.seq, some, inside, rfl, fails⟩
  obtain ⟨row, inside, same, fails⟩ := Nat.find_spec numbers
  refine ⟨row, inside, fails, fun other member less => ?_⟩
  by_contra fails
  exact Nat.find_min numbers (same ▸ less) ⟨other, member, rfl, fails⟩

/-- The verification of a range agrees with full verification: it returns NULL if and only
if every row of the range passes, and otherwise the smallest number that does not. -/
structure RangeExact (sha256 : Bytes → Bytes) (session : Session) (rows : List AuditRow) (pFrom pTo : Nat) : Prop where
  accepts : verifyAuditChain sha256 session rows pFrom (some pTo) = .ok none ↔
    ∀ row ∈ inRange rows pFrom pTo, Passes sha256 session rows row
  reports : ∀ row, FirstFailing sha256 session rows pFrom pTo row →
    verifyAuditChain sha256 session rows pFrom (some pTo) = .ok (some row.seq)

/-- With its bootstrap row in place, a range is wrong only about a row that it cannot hash. -/
theorem range_bootstrapped {table : AuditTable} {start : AuditRow} {pFrom pTo : Nat} (inside : start ∈ table.rows)
    (number : start.seq = pFrom) (ordered : pFrom ≤ pTo) (bootstraps : Bootstraps table.rows pFrom) :
    RangeExact sha256 session table.rows pFrom pTo ↔
      ∀ row, FirstFailing sha256 session table.rows pFrom pTo row → Follows table.rows row → Readable row := by
  obtain ⟨before, todo, after, last, split, bootstrap, later, loop, range⟩ :=
    @verify_range sha256 session table start pFrom pTo inside number ordered bootstraps
  have exempt : ∀ row : AuditRow, row.seq = 1 → Passes sha256 session table.rows row := fun row genesis later =>
    absurd genesis (Nat.ne_of_gt later)
  rcases @verifyLoop_middle sha256 session _ _ _ _ _ table.sorted split bootstrap later with
    ⟨all, accepted⟩ | ⟨done, row, rest, shape, earlier, fails, reported, raised⟩
  · have passes : ∀ row ∈ inRange table.rows pFrom pTo, Passes sha256 session table.rows row := by
      intro row member
      rcases (range row).mp member with listed | ⟨-, -, genesis⟩
      · exact all row listed
      · exact exempt row genesis
    refine iff_of_true ⟨?_, fun row found => absurd (passes row found.inside) found.fails⟩ fun row found =>
      absurd (passes row found.inside) found.fails
    exact iff_of_true (loop.trans accepted) passes
  · have first : FirstFailing sha256 session table.rows pFrom pTo row := by
      refine ⟨(range row).mpr (.inl (shape ▸ List.mem_append_right _ List.mem_cons_self)), fails, ?_⟩
      intro other member less
      rcases (range other).mp member with listed | ⟨-, -, genesis⟩
      · have sorted := table.sorted
        rw [split, shape, List.append_assoc, List.append_assoc, List.pairwise_append] at sorted
        have behind := (List.pairwise_append.mp sorted.2.1).2.1
        rw [shape] at listed
        rcases List.mem_append.mp listed with front | back
        · exact earlier other front
        · rcases List.mem_cons.mp back with rfl | back
          · omega
          · have := (List.pairwise_cons.mp behind).1 other (List.mem_append_left _ back)
            omega
      · exact exempt other genesis
    by_cases readable : Follows table.rows row → Readable row
    · refine iff_of_true ⟨?_, fun other found => ?_⟩ fun other found named => ?_
      · rw [loop, reported readable]
        exact iff_of_false (by simp) fun all => fails (all row first.inside)
      · rw [loop, reported readable, first.unique found]
      · have same : other = row := row_eq_of_seq table (mem_inRange.mp found.inside).1 (mem_inRange.mp first.inside).1
          (found.unique first)
        exact same ▸ readable (same ▸ named)
    · obtain ⟨named, unreadable⟩ := Classical.not_imp.mp readable
      refine iff_of_false (fun agrees => ?_) fun all => unreadable (all row first named)
      have said := agrees.reports row first
      rw [loop, raised named unreadable] at said
      cases said

/-- Exactly when the verification of a range agrees with full verification: the row numbered
one below the range exists or the first row of the range fails anyway, and no row is the first
to fail only because its payload is no `bytea`. -/
theorem range_exact_iff (sha256 : Bytes → Bytes) (session : Session) (table : AuditTable) (start : AuditRow)
    (pFrom pTo : Nat) (inside : start ∈ table.rows) (number : start.seq = pFrom) (ordered : pFrom ≤ pTo) :
    RangeExact sha256 session table.rows pFrom pTo ↔
      (Bootstraps table.rows pFrom ∨ ¬Passes sha256 session table.rows start) ∧
        (Bootstraps table.rows pFrom → ∀ row, FirstFailing sha256 session table.rows pFrom pTo row →
          Follows table.rows row → Readable row) := by
  by_cases bootstraps : Bootstraps table.rows pFrom
  · rw [range_bootstrapped inside number ordered bootstraps]
    simp only [bootstraps, true_or, true_and, true_implies]
  · have positive := table.positive start inside
    have absent : table.rows.find? (fun row => row.seq = pFrom - 1) = none := by
      refine List.find?_eq_none.mpr fun row member => ?_
      simp only [decide_eq_true_eq]
      intro same
      exact bootstraps (.inr ⟨row, member, by omega⟩)
    have later : 1 < pFrom := by
      have : pFrom ≠ 1 := fun first => bootstraps (.inl first)
      omega
    have result : verifyAuditChain sha256 session table.rows pFrom (some pTo) = .ok (some pFrom) := by
      simp only [verifyAuditChain, if_pos later, absent]
    have member : start ∈ inRange table.rows pFrom pTo := mem_inRange.mpr ⟨inside, by omega, by omega⟩
    simp only [bootstraps, false_or, false_implies, and_true]
    constructor
    · intro agrees passes
      have broken : ¬∀ row ∈ inRange table.rows pFrom pTo, Passes sha256 session table.rows row := fun all => by
        have accepted := agrees.accepts.mpr all
        rw [result] at accepted
        cases accepted
      obtain ⟨row, first⟩ := firstFailing_exists broken
      have said := agrees.reports row first
      rw [result] at said
      have same : pFrom = row.seq := by simpa using said
      exact first.fails (row_eq_of_seq table inside (mem_inRange.mp first.inside).1 (number.trans same) ▸ passes)
    · intro fails
      have first : FirstFailing sha256 session table.rows pFrom pTo start :=
        ⟨member, fails, fun other listed less => absurd (mem_inRange.mp listed).2.1 (by omega)⟩
      refine ⟨?_, fun row found => by rw [result, ← number, first.unique found]⟩
      rw [result]
      exact iff_of_false (by simp) fun all => fails (all start member)

theorem range_exact_iff_last : RangeExact sampleSha256 sampleSession sampleTable.rows 3 3 := by
  have readable : ∀ row ∈ sampleTable.rows, Readable row := by decide +kernel
  refine (range_exact_iff sampleSha256 sampleSession sampleTable sampleDestroyed 3 3 sampleDestroyed_mem rfl
    (Nat.le_refl 3)).mpr ⟨.inl (.inr ⟨sampleCreated, sampleCreated_mem, rfl⟩), fun _ row first _ => ?_⟩
  exact readable row (mem_inRange.mp first.inside).1

/-- A rolled back append leaves a gap behind which the range is refused, although every
row passes and full verification accepts the table. -/
theorem range_refused_behind_gap :
    ∃ db, (auditSystem sampleSha256 sampleSession).Run (fun _ _ => True) (AuditDb.start sampleSha256 0)
        sampleSchedule db ∧
      (∀ row ∈ db.chain, Passes sampleSha256 sampleSession db.chain row) ∧
      verifyAuditChain sampleSha256 sampleSession db.chain = .ok none ∧
      verifyAuditChain sampleSha256 sampleSession db.chain 3 (some 3) = .ok (some 3) ∧
      ¬RangeExact sampleSha256 sampleSession db.chain 3 3 := by
  have replayed : ((auditSystem sampleSha256 sampleSession).replay (fun _ _ => true) (AuditDb.start sampleSha256 0)
      sampleSchedule).any (fun db => (∀ row ∈ db.chain, Passes sampleSha256 sampleSession db.chain row) ∧
        verifyAuditChain sampleSha256 sampleSession db.chain = .ok none ∧
        verifyAuditChain sampleSha256 sampleSession db.chain 3 (some 3) = .ok (some 3)) = true := by
    decide +kernel
  obtain ⟨db, run, tested⟩ := System.any_replay replayed
  obtain ⟨passes, whole, range⟩ := of_decide_eq_true tested
  refine ⟨db, run.mono fun _ _ _ => trivial, passes, whole, range, fun agrees => ?_⟩
  have accepted := agrees.accepts.mpr fun row member => passes row (mem_inRange.mp member).1
  rw [range] at accepted
  cases accepted

/-! ### Sessions -/

/-- A session that prints the time of a row in the same way computes the same hash. -/
theorem Hashed.elsewhere {session' : Session} {row : AuditRow} (hashed : Hashed sha256 session row)
    (same : session.text row.occurredAt = session'.text row.occurredAt) : Hashed sha256 session' row := by
  simpa only [Hashed, AuditRow.expected, digestEntry, preimage, same] using hashed

/-- Without collisions, sessions that compute the same hash have printed the same time. -/
theorem Hashed.text_eq {session' : Session} (injective : Function.Injective sha256) {row : AuditRow}
    (hashed : Hashed sha256 session row) (again : Hashed sha256 session' row) :
    session.text row.occurredAt = session'.text row.occurredAt := by
  obtain ⟨input, read, digest⟩ := Option.map_eq_some_iff.mp hashed
  obtain ⟨input', read', digest'⟩ := Option.map_eq_some_iff.mp again
  obtain rfl := injective (digest.trans digest'.symm)
  exact (preimage_inj rfl read read').2.1

/-- However the appends interleave, a session accepts the chain if it prints the time of every
entry as the session did that appended it, and, SHA-256 having no collisions, only then. -/
theorem verified_elsewhere_iff (sha256 : Bytes → Bytes) (sessions : Nat → Session) (genesis : TimestampTz)
    (events : List ChainEvent) (db : AuditDb)
    (run : (sessionSystem sha256 sessions).Run (fun _ _ => True) (AuditDb.start sha256 genesis) events db)
    (session : Session) :
    ((∀ row ∈ db.chain, 1 < row.seq → (sessions row.seq).text row.occurredAt = session.text row.occurredAt) →
      verifyAuditChain sha256 session db.chain = .ok none) ∧
    (Function.Injective sha256 → verifyAuditChain sha256 session db.chain = .ok none →
      ∀ row ∈ db.chain, 1 < row.seq → (sessions row.seq).text row.occurredAt = session.text row.occurredAt) := by
  obtain ⟨order, valid, -⟩ := committed_valid run
  rw [order, valid.accepted_iff]
  constructor
  · intro same row member later
    exact (valid.hashed row member later).elsewhere (same row member later)
  · intro injective accepted row member later
    exact (valid.hashed row member later).text_eq injective (accepted row member later)

/-- The same instant with TimeZone set to Europe/Copenhagen. -/
def copenhagenSession : Session where
  text time := if time = 0 then "2000-01-01 01:00:00+01" else sampleSession.text time
  plain time := by
    split
    · decide
    · exact sampleSession.plain time
  short time := by
    split
    · decide +kernel
    · exact sampleSession.short time

/-- One entry, appended in UTC. -/
def lonelySchedule : List ChainEvent :=
  [.begin 0, .call 0 ⟨"share_created", some "8c1f0d6e", samplePayload⟩, .lock 0, .read 0, .insert 0, .commit 0]

theorem verified_elsewhere_iff_here :
    ∃ db, (sessionSystem sampleSha256 fun _ => sampleSession).Run (fun _ _ => True) (AuditDb.start sampleSha256 0)
        lonelySchedule db ∧
      db.chain.length = 2 ∧ verifyAuditChain sampleSha256 sampleSession db.chain = .ok none := by
  have replayed : ((sessionSystem sampleSha256 fun _ => sampleSession).replay (fun _ _ => true)
      (AuditDb.start sampleSha256 0) lonelySchedule).any (fun db => db.chain.length = 2) = true := by
    decide +kernel
  obtain ⟨db, run, length⟩ := System.any_replay replayed
  have run := run.mono fun _ _ _ => trivial
  exact ⟨db, run, of_decide_eq_true length,
    (verified_elsewhere_iff sampleSha256 _ 0 _ db run sampleSession).1 fun _ _ _ => rfl⟩

/-- An untouched chain of one entry is reported as broken in another time zone. -/
theorem time_zone_breaks_chain :
    ∃ db, (sessionSystem sampleSha256 fun _ => sampleSession).Run (fun _ _ => True) (AuditDb.start sampleSha256 0)
        lonelySchedule db ∧
      verifyAuditChain sampleSha256 copenhagenSession db.chain = .ok (some 2) := by
  have replayed : ((sessionSystem sampleSha256 fun _ => sampleSession).replay (fun _ _ => true)
      (AuditDb.start sampleSha256 0) lonelySchedule).any
      (fun db => verifyAuditChain sampleSha256 copenhagenSession db.chain = .ok (some 2)) = true := by
    decide +kernel
  obtain ⟨db, run, reported⟩ := System.any_replay replayed
  exact ⟨db, run.mono fun _ _ _ => trivial, of_decide_eq_true reported⟩

end SlothBox.Proofs

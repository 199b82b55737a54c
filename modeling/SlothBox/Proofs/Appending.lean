import SlothBox.Jsonb
import SlothBox.Library.Except
import SlothBox.Proofs.AuditTransactions

/-! Which payloads can be appended. The text of a payload goes through the cast to
`bytea`, which takes a doubled backslash and no other escape that JSON output knows; so
a quotation mark or a control character in a string is one too many. -/

namespace SlothBox.Proofs
open Library HashChain

/-! ### The cast of a rendered value -/

/-- A piece of text that the cast gets through under a condition, whatever follows. -/
def CastsIf (condition : Prop) (text : List Char) : Prop :=
  ∀ rest, (unescape (text ++ rest)).isSome ↔ condition ∧ (unescape rest).isSome

theorem CastsIf.append {first second : Prop} {text other : List Char} (casts : CastsIf first text)
    (casts' : CastsIf second other) : CastsIf (first ∧ second) (text ++ other) := by
  intro rest
  rw [List.append_assoc, casts, casts', and_assoc]

theorem CastsIf.congr {first second : Prop} {text : List Char} (casts : CastsIf first text) (same : first ↔ second) :
    CastsIf second text := fun rest => by rw [casts, same]

theorem castsIf_plain {text : List Char} (plain : '\\' ∉ text) : CastsIf True text := by
  intro rest
  rw [true_and]
  induction text with
  | nil => rfl
  | cons c text ih =>
    obtain ⟨other, plain⟩ := List.ne_and_not_mem_of_not_mem_cons plain
    have turn : unescape (c :: (text ++ rest)) = (unescape (text ++ rest)).map (String.utf8EncodeChar c ++ ·) := by
      conv_lhs => unfold unescape
      rw [if_pos (Ne.symm other)]
    rw [List.cons_append, turn, Option.isSome_map, ih plain]

/-- An escape whose letter is neither a backslash nor an octal digit. -/
private theorem unescape_letter {d : Char} {rest : List Char} (slash : d ≠ '\\') (digit : octalDigit? d = none) :
    unescape ('\\' :: d :: rest) = none := by
  unfold unescape
  rw [if_neg (by decide)]
  dsimp only
  rw [if_neg slash]
  split
  next => simp [octal?, digit]
  next => rfl

theorem castsIf_escapeChar (c : Char) : CastsIf (JsonbValue.plainChar c) (Json.escapeChar c) := by
  intro rest
  have refused : ∀ {d more}, d ≠ '\\' → octalDigit? d = none → ¬JsonbValue.plainChar c →
      ((unescape ('\\' :: d :: more)).isSome ↔ JsonbValue.plainChar c ∧ (unescape rest).isSome) := by
    intro d more slash digit escape
    rw [unescape_letter slash digit]
    exact iff_of_false (by decide) fun both => escape both.1
  unfold Json.escapeChar
  split
  next same => exact refused (by decide) (by decide) (by rw [same]; decide)
  next quoted =>
  split
  next same =>
    have doubled : unescape ('\\' :: '\\' :: rest) = (unescape rest).map (String.utf8EncodeChar '\\' ++ ·) := by
      conv_lhs => unfold unescape
      rw [if_neg (by decide)]
      dsimp only
      rw [if_pos rfl]
    rw [List.cons_append, List.cons_append, List.nil_append, doubled, Option.isSome_map, same]
    exact (and_iff_right (by decide)).symm
  next slash =>
  split
  next same => exact refused (by decide) (by decide) (by rw [same]; decide)
  split
  next same => exact refused (by decide) (by decide) (by rw [same]; decide)
  split
  next same => exact refused (by decide) (by decide) (by rw [same]; decide)
  split
  next same => exact refused (by decide) (by decide) (by rw [same]; decide)
  split
  next same => exact refused (by decide) (by decide) (by rw [same]; decide)
  split
  next control =>
    apply refused (by decide) (by decide)
    intro plain
    simp only [JsonbValue.plainChar, Bool.and_eq_true, decide_eq_true_eq] at plain
    omega
  next printable =>
    have plain : JsonbValue.plainChar c = true := by
      simp only [JsonbValue.plainChar, Bool.and_eq_true, decide_eq_true_eq]
      exact ⟨quoted, by omega⟩
    exact (castsIf_plain (by simpa using Ne.symm slash)).congr (iff_of_true trivial plain) rest

theorem castsIf_quote (text : List Char) : CastsIf (text.all JsonbValue.plainChar) (Json.quote text) := by
  have inner : CastsIf (text.all JsonbValue.plainChar) (text.flatMap Json.escapeChar) := by
    induction text with
    | nil => exact fun rest => by simp
    | cons c text ih =>
      rw [List.all_cons, Bool.and_eq_true]
      exact (castsIf_escapeChar c).append ih
  have mark : CastsIf True ['"'] := castsIf_plain (by decide)
  have whole : CastsIf ((True ∧ text.all JsonbValue.plainChar) ∧ True) (Json.quote text) := (mark.append inner).append mark
  rwa [true_and, and_true] at whole

mutual

theorem castsIf_render (value : JsonbValue) : CastsIf value.plain value.render := by
  match value with
  | .null => exact (castsIf_plain (by decide)).congr (iff_of_true trivial rfl)
  | .bool true => exact (castsIf_plain (by decide)).congr (iff_of_true trivial rfl)
  | .bool false => exact (castsIf_plain (by decide)).congr (iff_of_true trivial rfl)
  | .number value => exact (castsIf_plain value.text_plain).congr (iff_of_true trivial rfl)
  | .string text => exact castsIf_quote text
  | .array items =>
    have left : CastsIf True ['['] := castsIf_plain (by decide)
    have right : CastsIf True [']'] := castsIf_plain (by decide)
    have whole := (left.append (castsIf_renderItems items)).append right
    rwa [true_and, and_true] at whole
  | .object members =>
    have left : CastsIf True ['{'] := castsIf_plain (by decide)
    have right : CastsIf True ['}'] := castsIf_plain (by decide)
    have whole := (left.append (castsIf_renderMembers members)).append right
    rwa [true_and, and_true] at whole

theorem castsIf_renderItems (items : List JsonbValue) :
    CastsIf (JsonbValue.plainItems items) (JsonbValue.renderItems items) := by
  match items with
  | [] => exact fun rest => by simp [JsonbValue.plainItems, JsonbValue.renderItems]
  | [item] =>
    rw [JsonbValue.plainItems, JsonbValue.plainItems, Bool.and_true]
    exact castsIf_render item
  | item :: next :: rest =>
    have comma : CastsIf True [',', ' '] := castsIf_plain (by decide)
    have whole := ((castsIf_render item).append comma).append (castsIf_renderItems (next :: rest))
    rwa [and_true, ← Bool.and_eq_true] at whole

theorem castsIf_renderMembers (members : List (List Char × JsonbValue)) :
    CastsIf (JsonbValue.plainMembers members) (JsonbValue.renderMembers members) := by
  have colon : CastsIf True [':', ' '] := castsIf_plain (by decide)
  match members with
  | [] => exact fun rest => by simp [JsonbValue.plainMembers, JsonbValue.renderMembers]
  | [(name, item)] =>
    have whole := ((castsIf_quote name).append colon).append (castsIf_render item)
    rw [and_true, ← Bool.and_eq_true] at whole
    rw [JsonbValue.plainMembers, JsonbValue.plainMembers, Bool.and_true]
    exact whole
  | (name, item) :: next :: rest =>
    have comma : CastsIf True [',', ' '] := castsIf_plain (by decide)
    have whole := ((((castsIf_quote name).append colon).append (castsIf_render item)).append comma).append
      (castsIf_renderMembers (next :: rest))
    rw [and_true, and_true, ← Bool.and_eq_true, ← Bool.and_eq_true] at whole
    exact whole

end

/-- A payload can be cast exactly if no string and no member name in it has a quotation
mark or a control character. -/
theorem cast_isSome_iff {value : JsonbValue} (short : value.render.length < 2 ^ 31) :
    (byteaIn (value.payload short).text.toList).isSome ↔ value.plain := by
  rw [byteaIn_json, JsonbValue.payload, String.toList_ofList]
  have whole := castsIf_render value []
  rw [List.append_nil] at whole
  exact whole.trans (and_iff_left (by decide))

/-! ### Appending -/

section Append
variable {sha256 : Bytes → Bytes} {session : Session}

theorem parse_name (eventType : EventType) : EventType.parse? eventType.name = some eventType := by
  cases eventType <;> decide +kernel

/-- The four statements inside a call, in a transaction that has the database to itself. -/
theorem appendAuditEntry_run {seq number : Nat} {now : TimestampTz} {call : AppendCall} {rows after : List AuditRow}
    (appended : appendAuditEntry sha256 session seq now call.eventType call.shareId call.payload rows = .ok (number, after)) :
    (auditSystem sha256 session).replay (fun _ _ => true) ⟨rows, seq, none, []⟩
      [.begin now, .call 0 call, .lock 0, .read 0, .insert 0, .commit 0] =
      some ⟨after, seq + 1, none, [⟨now, .closed, []⟩]⟩ := by
  unfold appendAuditEntry at appended
  split at appended
  next => cases appended
  next last found =>
    obtain ⟨row, built, same⟩ := map_ok.mp appended
    cases same
    simp [System.replay, auditSystem, AuditDb.step, AuditDb.put, AuditDb.visible, AuditDb.close, found, built]

/-- What a call is for: one more row behind the others, with the next number and the
arguments of the call, and the table is as trustworthy as before. -/
def Appends (sha256 : Bytes → Bytes) (session : Session) (table : AuditTable) (seq : Nat) (now : TimestampTz)
    (eventType : EventType) (shareId : Option String) (payload : Jsonb) : Prop :=
  ∃ (after : AuditTable) (row : AuditRow),
    appendAuditEntry sha256 session seq now eventType.name shareId payload table.rows = .ok (seq, after.rows) ∧
      after.rows = table.rows ++ [row] ∧
      (row.seq = seq ∧ row.eventType = eventType ∧ row.shareId = shareId ∧ row.payload = payload) ∧
      after.verify sha256 session = .ok none

theorem buildRow_isOk {seq : Nat} {now : TimestampTz} {eventType : EventType} {shareId : Option String} {payload : Jsonb}
    {prevHash : Bytes} (casts : (byteaIn payload.text.toList).isSome) :
    ∃ row, buildRow sha256 session seq now eventType.name shareId payload prevHash = .ok row ∧
      row.eventType = eventType ∧ row.shareId = shareId ∧ row.payload = payload := by
  obtain ⟨body, read⟩ := Option.isSome_iff_exists.mp casts
  have hashed := (@preimage_eq_some session prevHash _ now eventType payload).mpr ⟨body, read, rfl⟩
  simp only [buildRow, digestEntry, hashed, Option.map_some, parse_name]
  exact ⟨_, rfl, rfl, rfl, rfl⟩

theorem casts_of_buildRow {seq : Nat} {now : TimestampTz} {eventType : EventType} {shareId : Option String}
    {payload : Jsonb} {prevHash : Bytes} {row : AuditRow}
    (built : buildRow sha256 session seq now eventType.name shareId payload prevHash = .ok row) :
    (byteaIn payload.text.toList).isSome := by
  unfold buildRow at built
  split at built
  next => cases built
  next digest hashed =>
    obtain ⟨input, found, -⟩ := Option.map_eq_some_iff.mp hashed
    obtain ⟨body, read, -⟩ := preimage_eq_some.mp found
    exact Option.isSome_of_eq_some read

/-- Behind an accepted table, a call succeeds exactly if the table has its first row and
the payload can be cast. -/
theorem appends_iff_casts {table : AuditTable} (accepted : table.verify sha256 session = .ok none) {seq : Nat}
    (next : ∀ row ∈ table.rows, row.seq < seq) (now : TimestampTz) (eventType : EventType) (shareId : Option String)
    (payload : Jsonb) : Appends sha256 session table seq now eventType shareId payload ↔
      table.rows ≠ [] ∧ (byteaIn payload.text.toList).isSome := by
  have located := latest_sorted table.sorted
  constructor
  · rintro ⟨after, row, appended, -⟩
    unfold appendAuditEntry at appended
    split at appended
    next => cases appended
    next last found =>
      obtain ⟨built, done, -⟩ := map_ok.mp appended
      exact ⟨List.ne_nil_of_mem (latest_mem found), casts_of_buildRow done⟩
  · rintro ⟨filled, casts⟩
    have found := located.trans (List.getLast?_eq_some_getLast filled)
    obtain ⟨row, built, kind, share, body⟩ := @buildRow_isOk sha256 session seq now eventType shareId payload
      (table.rows.getLast filled).entryHash casts
    obtain ⟨hashed, linked⟩ := (verify_accepts table).mp accepted
    have valid : Valid sha256 (fun _ => session) table.rows := ⟨table.sorted, table.positive, hashed, linked⟩
    have appended : appendRow sha256 session now table.rows (seq, ⟨eventType.name, shareId, payload⟩) =
        some (table.rows ++ [row]) :=
      appendRow_eq_some.mpr ⟨_, row, found, next _ (latest_mem found), built, rfl⟩
    have grown : Valid sha256 (fun _ => session) (table.rows ++ [row]) := valid.append appended
    refine ⟨⟨table.rows ++ [row], grown.sorted, grown.positive⟩, row, ?_, rfl, ⟨(buildRow_ok built).1, kind, share, body⟩,
      grown.accepted_iff.mpr grown.hashed⟩
    simp only [appendAuditEntry, found]
    rw [map_ok.mpr ⟨row, built, rfl⟩, (buildRow_ok built).1]

/-- Appending works exactly for payloads without quotation marks and control characters in
their strings. On an empty table the function says that the genesis row is missing. -/
theorem appends_iff {table : AuditTable} (accepted : table.verify sha256 session = .ok none) {seq : Nat}
    (next : ∀ row ∈ table.rows, row.seq < seq) (now : TimestampTz) (eventType : EventType) (shareId : Option String)
    {value : JsonbValue} (short : value.render.length < 2 ^ 31) :
    Appends sha256 session table seq now eventType shareId (value.payload short) ↔ table.rows ≠ [] ∧ value.plain :=
  (appends_iff_casts accepted next now eventType shareId _).trans (and_congr_right fun _ => cast_isSome_iff short)

end Append

/-- A payload with one member. -/
def memberValue (text : List Char) : JsonbValue := .object [("shortId".toList, .string text)]

theorem memberValue_short {text : List Char} (short : (Json.quote text).length < 100) :
    (memberValue text).render.length < 2 ^ 31 := by
  have name : (Json.quote "shortId".toList).length = 9 := by decide +kernel
  simp only [memberValue, JsonbValue.render, JsonbValue.renderMembers, List.length_cons, List.length_append,
    List.length_nil, name]
  omega

theorem sampleTable_next : ∀ row ∈ sampleTable.rows, row.seq < 4 := by
  simp [sampleTable, genesisRow, sampleCreated, sampleDestroyed]

/-- Backslashes are no obstacle, quotation marks are. -/
theorem appends_iff_sample :
    Appends sampleSha256 sampleSession sampleTable 4 0 .adminAction none
        ((memberValue ['\\', 'u', 'é']).payload (memberValue_short (by decide))) ∧
      ¬Appends sampleSha256 sampleSession sampleTable 4 0 .adminAction none
        ((memberValue ['"']).payload (memberValue_short (by decide))) :=
  ⟨(appends_iff sampleTable_accepted sampleTable_next 0 .adminAction none _).mpr ⟨List.cons_ne_nil _ _, by decide⟩,
    fun appended =>
      absurd ((appends_iff sampleTable_accepted sampleTable_next 0 .adminAction none _).mp appended).2 (by decide)⟩

/-- One quotation mark in a string and the call raises. -/
theorem appending_fails : ¬∀ (sha256 : Bytes → Bytes) (session : Session) (table : AuditTable),
    table.verify sha256 session = .ok none → ∀ seq, (∀ row ∈ table.rows, row.seq < seq) →
      ∀ now eventType shareId (value : JsonbValue) short,
        Appends sha256 session table seq now eventType shareId (value.payload short) := by
  intro all
  have appended := all _ _ sampleTable sampleTable_accepted 4 sampleTable_next 0 .shareCreated none (memberValue ['"'])
    (memberValue_short (by decide))
  have casts := ((appends_iff_casts sampleTable_accepted sampleTable_next 0 .shareCreated none _).mp appended).2
  exact absurd ((cast_isSome_iff (memberValue_short (by decide))).mp casts) (by decide)

end SlothBox.Proofs

import SlothBox.Archive

/-! What an accepted selection becomes. The dictionary takes every path but the name of
the setter that fresh objects have, and the patterns let a path end in a name that leads
up. -/

namespace SlothBox.Proofs
open Library

/-- The entry that a file asks for. -/
def archiveEntry (file : PickedFile) : String × Bytes := (entryPathFor file, file.content)

/-- What the loop knows of the files it is through with. -/
structure Packed (numbers : NumberTexts) (done : List PickedFile) (packing : Packing) : Prop where
  seen : packing.seenPaths = done.map entryPathFor
  unique : (done.map entryPathFor).Nodup
  allowed : ∀ file ∈ done, ∀ pattern ∈ forbiddenPathPatterns, pattern (entryPathFor file).toList = false
  requested : packing.entries.properties.Sublist (done.map archiveEntry)
  stored : ∀ file ∈ done, entryPathFor file ≠ "__proto__" → ¬numbers.numeric (entryPathFor file) →
    archiveEntry file ∈ packing.entries.properties
  setter : "__proto__" ∉ packing.entries.keys
  whole : (∀ file ∈ done, entryPathFor file ≠ "__proto__") →
    packing.entries.properties = done.map archiveEntry ∧ packing.entries.prototype = none

section Loop
variable {numbers : NumberTexts}

theorem packed_nil : Packed numbers [] ⟨.empty, []⟩ where
  seen := rfl
  unique := List.nodup_nil
  allowed := fun _ inside => absurd inside List.not_mem_nil
  requested := List.nil_sublist _
  stored := fun _ inside => absurd inside List.not_mem_nil
  setter := List.not_mem_nil
  whole := fun _ => ⟨rfl, rfl⟩

theorem packEntry_ok {packing next : Packing} {file : PickedFile} (returned : packEntry numbers packing file = .ok next) :
    entryPathFor file ∉ packing.seenPaths ∧
    (∀ pattern ∈ forbiddenPathPatterns, pattern (entryPathFor file).toList = false) ∧
    packing.entries.set? numbers (entryPathFor file) file.content = some next.entries ∧
    next.seenPaths = packing.seenPaths ++ [entryPathFor file] := by
  simp only [packEntry, bind_ok, throwIf_ok] at returned
  obtain ⟨_, fresh, _, allowed, bytes, read, assigned⟩ := returned
  have bytes : bytes = file.content := by
    unfold PickedFile.arrayBuffer at read
    split at read
    · exact (Except.ok.inj read).symm
    · cases read
  subst bytes
  refine ⟨fresh, ?_, ?_⟩
  · intro pattern inside
    exact eq_false_of_ne_true fun found => allowed (List.any_eq_true.mpr ⟨pattern, inside, found⟩)
  · split at assigned
    next entries set =>
      cases assigned
      exact ⟨set, rfl⟩
    next => cases assigned

theorem Packed.keys_subset {done : List PickedFile} {packing : Packing} (packed : Packed numbers done packing) :
    packing.entries.keys ⊆ done.map entryPathFor := by
  intro key inside
  have inside := (packed.requested.map Prod.fst).subset inside
  rwa [List.map_map] at inside

theorem Packed.concat {done : List PickedFile} {packing next : Packing} {file : PickedFile}
    (packed : Packed numbers done packing) (returned : packEntry numbers packing file = .ok next) :
    Packed numbers (done ++ [file]) next := by
  obtain ⟨fresh, allowed, assigned, seenPaths⟩ := packEntry_ok returned
  have absent : entryPathFor file ∉ packing.entries.keys := fun inside =>
    fresh (packed.seen ▸ packed.keys_subset inside)
  have cases := PlainObject.set?_cases absent assigned
  constructor
  case seen => rw [seenPaths, packed.seen, List.map_append, List.map_singleton]
  case unique =>
    rw [List.map_append, List.map_singleton, ← packed.seen]
    exact (packed.seen ▸ packed.unique).append (List.nodup_singleton _) (List.disjoint_singleton.mpr fresh)
  case allowed =>
    intro other inside
    rcases List.mem_append.mp inside with before | last
    · exact packed.allowed other before
    · exact List.mem_singleton.mp last ▸ allowed
  case requested =>
    rw [List.map_append]
    rcases cases with ⟨same, -⟩ | ⟨added, -⟩
    · exact same ▸ packed.requested.trans (List.sublist_append_left _ _)
    · exact added ▸ packed.requested.append (List.Sublist.refl _)
  case stored =>
    intro other inside ordinary word
    rcases List.mem_append.mp inside with before | last
    · have kept := packed.stored other before ordinary word
      rcases cases with ⟨same, -⟩ | ⟨added, -⟩
      · exact same ▸ kept
      · exact added ▸ List.mem_append_left _ kept
    · rw [List.mem_singleton.mp last] at ordinary word ⊢
      rcases cases with ⟨-, setter | numeric⟩ | ⟨added, -⟩
      · exact absurd setter ordinary
      · exact absurd numeric word
      · exact added ▸ List.mem_append_right _ List.mem_cons_self
  case setter =>
    have setter := packed.setter
    unfold PlainObject.keys at setter ⊢
    rcases cases with ⟨same, -⟩ | ⟨added, ordinary⟩
    · exact same ▸ setter
    · rw [added, List.map_append, List.map_singleton, List.mem_append, List.mem_singleton]
      rintro (before | last)
      · exact setter before
      · exact ordinary last.symm
  case whole =>
    intro ordinary
    obtain ⟨properties, common⟩ := packed.whole fun other inside => ordinary other (List.mem_append_left _ inside)
    have this := ordinary file (List.mem_append_right _ List.mem_cons_self)
    rw [PlainObject.set?_of_new absent this common, Option.some.injEq] at assigned
    rw [← assigned, List.map_append, List.map_singleton, ← properties]
    exact ⟨rfl, common⟩

theorem packEntries_ok {files : List PickedFile} {entries : PlainObject} (accepted : packEntries numbers files = .ok entries) :
    ∃ seenPaths, Packed numbers files ⟨entries, seenPaths⟩ := by
  simp only [packEntries, bind_ok, throwIf_ok] at accepted
  obtain ⟨_, -, _, -, packing, returned, result⟩ := accepted
  cases result
  exact ⟨packing.seenPaths, foldlM_ok returned packed_nil fun _ _ _ _ => Packed.concat⟩

end Loop

/-! ### Nothing is lost -/

/-- The dictionary has one entry for each file, under its path and with its bytes. -/
structure Lossless (files : List PickedFile) (dictionary : PlainObject) : Prop where
  entries : dictionary.ownEntries.Perm (files.map archiveEntry)
  distinct : (dictionary.ownEntries.map Prod.fst).Nodup

/-- Packing loses nothing exactly when no file is to be stored under the setter's name. -/
theorem lossless_iff (numbers : NumberTexts) (zipSync : PlainObject → Option Bytes) (files : List PickedFile)
    (entries : PlainObject) (accepted : packEntries numbers files = .ok entries) :
    (Lossless files entries ∧
      ∀ result, packFiles numbers zipSync files = .ok result → entries.ownEntries.length = result.entryCount) ↔
      ∀ file ∈ files, entryPathFor file ≠ "__proto__" := by
  obtain ⟨seenPaths, packed⟩ := packEntries_ok accepted
  constructor
  · rintro ⟨lossless, -⟩ file inside setter
    have found : archiveEntry file ∈ entries.properties :=
      PlainObject.mem_ownEntries.mp (lossless.entries.mem_iff.mpr (List.mem_map_of_mem inside))
    exact packed.setter (setter ▸ List.mem_map_of_mem (f := Prod.fst) found)
  · intro ordinary
    have same : entries.ownEntries.Perm (files.map archiveEntry) :=
      (packed.whole ordinary).1 ▸ entries.ownEntries_perm
    refine ⟨⟨same, (entries.ownEntries_perm.map Prod.fst).nodup_iff.mpr entries.distinct⟩, ?_⟩
    intro result returned
    simp only [packFiles, bind_ok] at returned
    obtain ⟨_, -, zipped⟩ := returned
    split at zipped
    · cases zipped
    · cases zipped
      rw [same.length_eq, List.length_map]

/-- Number texts as far as whole numbers go. -/
def wholeNumbers : NumberTexts where
  rewrite text := if (index? text).isSome then text else "NaN"
  noPoint text := by
    split
    next whole =>
      intro point
      have digit := List.all_eq_true.mp (all_isDigit_of_index? whole) _ (List.mem_of_getLast? point)
      exact absurd digit (by decide)
    next => decide

def rootFile (name : String) (content : Bytes) (safe : content.length < 2 ^ 53) : PickedFile where
  name := name
  type := ""
  content := content
  safe := safe
  webkitRelativePath := ""
  readable := true

def folderFile (path : String) (content : Bytes) (safe : content.length < 2 ^ 53) : PickedFile :=
  { rootFile "unnamed" content safe with webkitRelativePath := path }

def sampleSelection : List PickedFile :=
  [folderFile "/trip/2.jpg" [1, 2] (by decide), rootFile "7" [3] (by decide), folderFile "trip/..notes" [] (by decide)]

private theorem of_dictionary {numbers : NumberTexts} {files : List PickedFile} {expected : List (String × Bytes)}
    (run : (packEntries numbers files).toOption.map PlainObject.ownEntries = some expected) :
    ∃ entries, packEntries numbers files = .ok entries ∧ entries.ownEntries = expected := by
  cases packed : packEntries numbers files with
  | error thrown =>
    rw [packed] at run
    cases run
  | ok entries =>
    rw [packed] at run
    exact ⟨entries, rfl, Option.some.inj run⟩

private theorem sampleSelection_packed : ∃ entries, packEntries wholeNumbers sampleSelection = .ok entries ∧
    entries.ownEntries = [("7", [3]), ("trip/2.jpg", [1, 2]), ("trip/..notes", [])] :=
  of_dictionary (by decide +kernel)

theorem lossless_iff_sample : ∃ entries, packEntries wholeNumbers sampleSelection = .ok entries ∧
    Lossless sampleSelection entries ∧
    entries.ownEntries = [("7", [3]), ("trip/2.jpg", [1, 2]), ("trip/..notes", [])] := by
  obtain ⟨entries, packed, own⟩ := sampleSelection_packed
  have ordinary : ∀ file ∈ sampleSelection, entryPathFor file ≠ "__proto__" := by decide
  exact ⟨entries, packed, ((lossless_iff wholeNumbers (fun _ => none) sampleSelection entries packed).mpr ordinary).1, own⟩

def setterSelection : List PickedFile := [rootFile "__proto__" [1] (by decide), rootFile "a" [2] (by decide)]

private theorem setterSelection_packed : ∃ entries, packEntries wholeNumbers setterSelection = .ok entries ∧
    entries.ownEntries = [("a", [2])] :=
  of_dictionary (by decide +kernel)

/-- The bytes of a file with the setter's name become the dictionary's prototype. -/
theorem packing_loses : ¬∀ numbers files entries, packEntries numbers files = .ok entries → Lossless files entries := by
  intro claimed
  obtain ⟨entries, packed, own⟩ := setterSelection_packed
  have same := (claimed _ _ _ packed).entries.length_eq
  rw [own] at same
  cases same

/-! ### Where an archive can write -/

/-- What is asked of a path in an archive. -/
structure SafePath (path : List Char) : Prop where
  down : Path.up ∉ Path.segments path
  noNul : '\x00' ∉ path
  relative : ∀ c, path.head? = some c → Path.separator c = false
  inside : Path.StaysInside path

/-- What the patterns leave open is the last name of a path. -/
theorem safePath_iff {path : List Char} (allowed : ∀ pattern ∈ forbiddenPathPatterns, pattern path = false) :
    SafePath path ↔ (Path.segments path).getLast? ≠ some Path.up := by
  simp only [forbiddenPathPatterns, List.mem_cons, List.not_mem_nil, or_false, forall_eq_or_imp, forall_eq] at allowed
  obtain ⟨climbs, nul, leading⟩ := allowed
  constructor
  · intro safe last
    exact safe.down ((Path.up_mem_iff climbs).mpr last)
  · intro last
    have down := mt (Path.up_mem_iff climbs).mp last
    refine ⟨down, ?_, ?_, Path.staysInside down⟩
    · intro inside
      rw [List.contains_iff_mem.mpr inside] at nul
      cases nul
    · intro c head
      rw [head] at leading
      exact leading

/-- Every stored path is safe exactly when no file's path ends in the name that leads up. -/
theorem stored_paths_safe_iff (numbers : NumberTexts) (files : List PickedFile) (entries : PlainObject)
    (accepted : packEntries numbers files = .ok entries) :
    (∀ entry ∈ entries.ownEntries, SafePath entry.1.toList) ↔
      ∀ file ∈ files, (Path.segments (entryPathFor file).toList).getLast? ≠ some Path.up := by
  obtain ⟨seenPaths, packed⟩ := packEntries_ok accepted
  constructor
  · intro safe file inside last
    -- a path that ends in a point is neither the setter's name nor a number
    have point := Path.getLast?_of_up last
    have ordinary : entryPathFor file ≠ "__proto__" := by
      intro setter
      rw [setter] at point
      exact absurd point (by decide)
    have found := packed.stored file inside ordinary (PlainObject.not_numeric point)
    have safe := safe _ (PlainObject.mem_ownEntries.mpr found)
    exact (safePath_iff (packed.allowed file inside)).mp safe last
  · intro ends entry found
    have found := packed.requested.subset (PlainObject.mem_ownEntries.mp found)
    obtain ⟨file, inside, rfl⟩ := List.mem_map.mp found
    exact (safePath_iff (packed.allowed file inside)).mpr (ends file inside)

theorem stored_paths_safe_iff_sample : ∃ entries, packEntries wholeNumbers sampleSelection = .ok entries ∧
    ∀ entry ∈ entries.ownEntries, SafePath entry.1.toList := by
  obtain ⟨entries, packed, -⟩ := sampleSelection_packed
  exact ⟨entries, packed, (stored_paths_safe_iff wholeNumbers sampleSelection entries packed).mpr (by decide)⟩

def climbingSelection : List PickedFile := [folderFile ".." [1] (by decide), folderFile "trip/1.jpg" [2] (by decide)]

private theorem climbingSelection_packed : ∃ entries, packEntries wholeNumbers climbingSelection = .ok entries ∧
    entries.ownEntries = [("..", [1]), ("trip/1.jpg", [2])] :=
  of_dictionary (by decide +kernel)

/-- A folder's file whose path is two points is packed under that path. -/
theorem stored_path_climbs : ¬∀ numbers files entries, packEntries numbers files = .ok entries →
    ∀ entry ∈ entries.ownEntries, SafePath entry.1.toList := by
  intro claimed
  obtain ⟨entries, packed, own⟩ := climbingSelection_packed
  have safe := claimed _ _ _ packed ("..", [1]) (own ▸ List.mem_cons_self)
  exact safe.down (by decide)

end SlothBox.Proofs

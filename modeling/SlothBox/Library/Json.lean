import SlothBox.Library.Bytes
import SlothBox.Library.Utf16

/-! JSON texts: a reader for the whole grammar and a writer for flat objects. What a
number literal denotes is left to the host language. A string is a sequence of code
units, since an escape may name half of a surrogate pair. -/

namespace SlothBox.Library

inductive Json (ν : Type) where
  | null
  | bool (value : Bool)
  | number (value : ν)
  | string (units : List Nat)
  | array (items : List (Json ν))
  | object (members : List (List Nat × Json ν))

namespace Json

/-! ### Reading -/

def skipSpace (text : List Char) : List Char :=
  text.dropWhile fun c => c == ' ' || c == '\t' || c == '\n' || c == '\r'

/-- A punctuation character, behind white space. -/
def expect (c : Char) (text : List Char) : Option (List Char) :=
  match skipSpace text with
  | [] => none
  | d :: rest => if d = c then some rest else none

def hex4? (a b c d : Char) : Option Nat := do
  let first ← hexDigit? a
  let second ← hexDigit? b
  let third ← hexDigit? c
  let fourth ← hexDigit? d
  some (first * 4096 + second * 256 + third * 16 + fourth)

def escaped? (c : Char) : Option Nat :=
  [('"', 0x22), ('\\', 0x5c), ('/', 0x2f), ('b', 8), ('f', 0xc), ('n', 0xa), ('r', 0xd), ('t', 9)].lookup c

/-- The rest of a string behind its opening quote, and what follows the closing one. -/
def stringBody : List Char → Option (List Nat × List Char)
  | [] => none
  | c :: rest =>
    if c = '"' then some ([], rest)
    else if c = '\\' then
      match rest with
      | 'u' :: a :: b :: d :: e :: more => do
        let unit ← hex4? a b d e
        let (units, after) ← stringBody more
        some (unit :: units, after)
      | d :: more => do
        let unit ← escaped? d
        let (units, after) ← stringBody more
        some (unit :: units, after)
      | [] => none
    else if c.toNat < 0x20 then none
    else do
      let (units, after) ← stringBody rest
      some (Utf16.encodeChar c ++ units, after)

def digits (text : List Char) : List Char × List Char := (text.takeWhile Char.isDigit, text.dropWhile Char.isDigit)

/-- The digits behind a decimal point, if there is one. -/
def fraction : List Char → Option (List Char × List Char)
  | '.' :: rest => if (digits rest).1 = [] then none else some (digits rest)
  | text => some ([], text)

def minus : List Char → Bool × List Char
  | '-' :: rest => (true, rest)
  | text => (false, text)

/-- The number behind the letter of an exponent. -/
def power (text : List Char) : Option (Int × List Char) :=
  let (negative, rest) :=
    match text with
    | '+' :: rest => (false, rest)
    | text => minus text
  let value : Int := Nat.ofDigitChars 10 (digits rest).1 0
  if (digits rest).1 = [] then none else some (if negative then -value else value, (digits rest).2)

def exponent : List Char → Option (Int × List Char)
  | [] => some (0, [])
  | c :: rest => if c = 'e' ∨ c = 'E' then power rest else some (0, c :: rest)

section Read
variable {ν : Type} (ofDecimal : Bool → Nat → Int → ν)

def readNumber (text : List Char) : Option (ν × List Char) :=
  let (negative, text) := minus text
  let (whole, rest) := digits text
  -- no leading zeros
  if whole = [] ∨ whole.head? = some '0' ∧ whole ≠ ['0'] then none
  else
    (fraction rest).bind fun (behind, rest) =>
      (exponent rest).map fun (scale, rest) =>
        (ofDecimal negative (Nat.ofDigitChars 10 (whole ++ behind) 0) (scale - behind.length), rest)

-- Every call has taken a character since the one that called it.
mutual

def readValue : Nat → List Char → Option (Json ν × List Char)
  | 0, _ => none
  | fuel + 1, text =>
    match skipSpace text with
    | [] => none
    | c :: rest =>
      if c = '"' then (stringBody rest).map (Prod.map .string id)
      else if c = '{' then
        match expect '}' rest with
        | some after => some (.object [], after)
        | none => (readMembers fuel rest).map (Prod.map .object id)
      else if c = '[' then
        match expect ']' rest with
        | some after => some (.array [], after)
        | none => (readItems fuel rest).map (Prod.map .array id)
      else match c :: rest with
        | 't' :: 'r' :: 'u' :: 'e' :: after => some (.bool true, after)
        | 'f' :: 'a' :: 'l' :: 's' :: 'e' :: after => some (.bool false, after)
        | 'n' :: 'u' :: 'l' :: 'l' :: after => some (.null, after)
        | text => (readNumber ofDecimal text).map (Prod.map .number id)

def readMembers : Nat → List Char → Option (List (List Nat × Json ν) × List Char)
  | 0, _ => none
  | fuel + 1, text =>
    (expect '"' text).bind fun rest => (stringBody rest).bind fun (key, rest) =>
    (expect ':' rest).bind fun rest => (readValue fuel rest).bind fun (item, rest) =>
      match expect ',' rest with
      | some rest => (readMembers fuel rest).map (Prod.map ((key, item) :: ·) id)
      | none => (expect '}' rest).map ([(key, item)], ·)

def readItems : Nat → List Char → Option (List (Json ν) × List Char)
  | 0, _ => none
  | fuel + 1, text =>
    (readValue fuel text).bind fun (item, rest) =>
      match expect ',' rest with
      | some rest => (readItems fuel rest).map (Prod.map (item :: ·) id)
      | none => (expect ']' rest).map ([item], ·)

end

def parse (text : List Char) : Option (Json ν) :=
  match readValue ofDecimal (text.length + 1) text with
  | some (value, rest) => if skipSpace rest = [] then some value else none
  | none => none

end Read

/-- Property access: of two members with one name, the later counts. -/
def get? {ν : Type} (json : Json ν) (name : String) : Option (Json ν) :=
  match json with
  | .object members => (members.reverse.find? (·.1 = Utf16.encode name.toList)).map Prod.snd
  | _ => none

/-! ### Writing -/

def escapeChar (c : Char) : List Char :=
  if c = '"' then ['\\', '"']
  else if c = '\\' then ['\\', '\\']
  else if c = '\x08' then ['\\', 'b']
  else if c = '\x0c' then ['\\', 'f']
  else if c = '\n' then ['\\', 'n']
  else if c = '\r' then ['\\', 'r']
  else if c = '\t' then ['\\', 't']
  else if c.toNat < 0x20 then ['\\', 'u', '0', '0', Nat.digitChar (c.toNat / 16), Nat.digitChar (c.toNat % 16)]
  else [c]

def quote (text : List Char) : List Char := '"' :: text.flatMap escapeChar ++ ['"']

inductive Field where
  | text (value : List Char)
  | nat (value : Nat)

def Field.render : Field → List Char
  | .text value => quote value
  | .nat value => Nat.toDigits 10 value

def renderMember (member : List Char × Field) : List Char := quote member.1 ++ ':' :: member.2.render

def stringify (members : List (List Char × Field)) : List Char :=
  '{' :: List.intercalate [','] (members.map renderMember) ++ ['}']

/-! ### Reading what was written -/

private theorem stringBody_plain {c : Char} {rest : List Char} (quoted : c ≠ '"') (slash : c ≠ '\\')
    (printable : ¬ c.toNat < 0x20) :
    stringBody (c :: rest) = (stringBody rest).map (Prod.map (Utf16.encodeChar c ++ ·) id) := by
  conv_lhs => unfold stringBody
  rw [if_neg quoted, if_neg slash, if_neg printable]
  cases stringBody rest <;> rfl

private theorem stringBody_short {d : Char} {unit : Nat} {rest : List Char} (known : escaped? d = some unit)
    (other : d ≠ 'u') :
    stringBody ('\\' :: d :: rest) = (stringBody rest).map (Prod.map (unit :: ·) id) := by
  conv_lhs => unfold stringBody
  rw [if_neg (by decide), if_pos rfl]
  split
  next same => exact absurd (List.cons.inj same).1 other
  next same =>
    cases same
    rw [known]
    cases stringBody rest <;> rfl
  next same => cases same

private theorem stringBody_unicode {a b c d : Char} {unit : Nat} {rest : List Char} (known : hex4? a b c d = some unit) :
    stringBody ('\\' :: 'u' :: a :: b :: c :: d :: rest) = (stringBody rest).map (Prod.map (unit :: ·) id) := by
  conv_lhs => unfold stringBody
  rw [if_neg (by decide), if_pos rfl]
  split
  next same =>
    cases same
    rw [known]
    cases stringBody rest <;> rfl
  next others same =>
    cases same
    exact (others a b c d rest rfl rfl).elim
  next same => cases same

private theorem hex4_control {n : Nat} (control : n < 0x20) :
    hex4? '0' '0' (Nat.digitChar (n / 16)) (Nat.digitChar (n % 16)) = some n := by
  revert n
  decide

private theorem stringBody_escapeChar (c : Char) (rest : List Char) :
    stringBody (escapeChar c ++ rest) = (stringBody rest).map (Prod.map (Utf16.encodeChar c ++ ·) id) := by
  unfold escapeChar
  split
  next same => subst same; exact stringBody_short rfl (by decide)
  next quoted =>
  split
  next same => subst same; exact stringBody_short rfl (by decide)
  next slash =>
  split
  next same => subst same; exact stringBody_short rfl (by decide)
  split
  next same => subst same; exact stringBody_short rfl (by decide)
  split
  next same => subst same; exact stringBody_short rfl (by decide)
  split
  next same => subst same; exact stringBody_short rfl (by decide)
  split
  next same => subst same; exact stringBody_short rfl (by decide)
  split
  next control =>
    have basic : Utf16.encodeChar c = [c.toNat] := if_pos (by omega)
    rw [basic]
    exact stringBody_unicode (hex4_control control)
  next printable => exact stringBody_plain quoted slash printable

theorem stringBody_quote (text rest : List Char) :
    stringBody (text.flatMap escapeChar ++ '"' :: rest) = some (Utf16.encode text, rest) := by
  induction text with
  | nil =>
    conv_lhs => unfold stringBody
    rfl
  | cons c text ih =>
    rw [List.flatMap_cons, List.append_assoc, stringBody_escapeChar, ih]
    rfl

section Read
variable {ν : Type} {ofDecimal : Bool → Nat → Int → ν}

/-- The value that a member is read back as. -/
def Field.read (ofDecimal : Bool → Nat → Int → ν) : Field → Json ν
  | .text value => .string (Utf16.encode value)
  | .nat value => .number (ofDecimal false value 0)

private theorem digits_nat (n : Nat) {c : Char} (rest : List Char) (other : c.isDigit = false) :
    digits (Nat.toDigits 10 n ++ c :: rest) = (Nat.toDigits 10 n, c :: rest) := by
  have all : ∀ d ∈ Nat.toDigits 10 n, d.isDigit = true := fun d member =>
    Nat.isDigit_of_mem_toDigits (by decide) (by decide) member
  rw [digits, List.takeWhile_append_of_pos all, List.dropWhile_append_of_pos all]
  simp [other]

private theorem head_toDigits {n : Nat} (positive : 0 < n) : (Nat.toDigits 10 n).head? ≠ some '0' := by
  induction n using Nat.strongRecOn with
  | ind n ih =>
    rw [Nat.toDigits_eq_if (by decide)]
    split
    next small =>
      have digit : ∀ m, m < 10 → 0 < m → [Nat.digitChar m].head? ≠ some '0' := by decide
      exact digit n small positive
    next large =>
      rw [List.head?_append_of_ne_nil _ Nat.toDigits_ne_nil]
      exact ih (n / 10) (by omega) (by omega)

private theorem minus_nat (n : Nat) (rest : List Char) :
    minus (Nat.toDigits 10 n ++ rest) = (false, Nat.toDigits 10 n ++ rest) := by
  obtain ⟨d, others, same⟩ := List.exists_cons_of_ne_nil (Nat.toDigits_ne_nil (n := n) (b := 10))
  have digit : d.isDigit = true :=
    Nat.isDigit_of_mem_toDigits (by decide) (by decide) (same ▸ List.mem_cons_self : d ∈ Nat.toDigits 10 n)
  rw [same, List.cons_append]
  unfold minus
  split
  next rest clash =>
    cases clash
    cases digit
  next => rfl

private theorem readNumber_nat (n : Nat) {c : Char} (rest : List Char) (other : c.isDigit = false) (point : c ≠ '.')
    (letter : ¬ (c = 'e' ∨ c = 'E')) :
    readNumber ofDecimal (Nat.toDigits 10 n ++ c :: rest) = some (ofDecimal false n 0, c :: rest) := by
  have leading : ¬ (Nat.toDigits 10 n = [] ∨ (Nat.toDigits 10 n).head? = some '0' ∧ Nat.toDigits 10 n ≠ ['0']) := by
    rintro (empty | ⟨zero, long⟩)
    · exact Nat.toDigits_ne_nil empty
    · rcases Nat.eq_zero_or_pos n with rfl | positive
      · exact long (Nat.toDigits_zero 10)
      · exact head_toDigits positive zero
  have behind : fraction (c :: rest) = some ([], c :: rest) := by
    unfold fraction
    split
    next same => exact absurd (List.cons.inj same).1 point
    next => rfl
  have scale : exponent (c :: rest) = some (0, c :: rest) := by
    unfold exponent
    exact if_neg letter
  simp only [readNumber, minus_nat, digits_nat n rest other, if_neg leading, behind, Option.bind_some, scale,
    Option.map_some, List.append_nil, Nat.ofDigitChars_ten_toDigits, List.length_nil]
  rfl

private theorem skipSpace_cons {c : Char} (rest : List Char)
    (visible : (c == ' ' || c == '\t' || c == '\n' || c == '\r') = false) : skipSpace (c :: rest) = c :: rest := by
  simp only [skipSpace, List.dropWhile_cons, visible]
  rfl

private theorem expect_cons {c : Char} (rest : List Char)
    (visible : (c == ' ' || c == '\t' || c == '\n' || c == '\r') = false) : expect c (c :: rest) = some rest := by
  simp only [expect, skipSpace_cons rest visible, if_true]

private theorem expect_other {c d : Char} (rest : List Char)
    (visible : (d == ' ' || d == '\t' || d == '\n' || d == '\r') = false) (other : d ≠ c) :
    expect c (d :: rest) = none := by
  simp only [expect, skipSpace_cons rest visible, if_neg other]

/-- A text whose first character opens no string, object, array or word is a number. -/
private theorem readValue_number (fuel : Nat) {c : Char} (rest : List Char) (digit : c.isDigit = true) :
    readValue ofDecimal (fuel + 1) (c :: rest) = (readNumber ofDecimal (c :: rest)).map (Prod.map .number id) := by
  have ne : ∀ d : Char, d.isDigit = false → c ≠ d := fun d other same => by simp [same, other] at digit
  have visible : (c == ' ' || c == '\t' || c == '\n' || c == '\r') = false := by
    simp [ne ' ' rfl, ne '\t' rfl, ne '\n' rfl, ne '\r' rfl]
  rw [readValue, skipSpace_cons rest visible]
  dsimp only
  rw [if_neg (ne '"' rfl), if_neg (ne '{' rfl), if_neg (ne '[' rfl)]
  split
  next same => exact absurd (List.cons.inj same).1 (ne 't' rfl)
  next same => exact absurd (List.cons.inj same).1 (ne 'f' rfl)
  next same => exact absurd (List.cons.inj same).1 (ne 'n' rfl)
  next => rfl

private theorem readValue_field (fuel : Nat) (field : Field) {c : Char} (rest : List Char) (follows : c = ',' ∨ c = '}') :
    readValue ofDecimal (fuel + 1) (field.render ++ c :: rest) = some (field.read ofDecimal, c :: rest) := by
  cases field with
  | text value =>
    have body : value.flatMap escapeChar ++ ['"'] ++ c :: rest = value.flatMap escapeChar ++ '"' :: c :: rest := by
      rw [List.append_assoc, List.singleton_append]
    rw [Field.render, quote, List.cons_append, List.cons_append, body, readValue, skipSpace_cons _ (by decide)]
    dsimp only
    rw [if_pos rfl, stringBody_quote]
    rfl
  | nat value =>
    obtain ⟨d, others, same⟩ := List.exists_cons_of_ne_nil (Nat.toDigits_ne_nil (n := value) (b := 10))
    have digit : d.isDigit = true :=
      Nat.isDigit_of_mem_toDigits (by decide) (by decide) (same ▸ List.mem_cons_self : d ∈ Nat.toDigits 10 value)
    have number : readNumber ofDecimal (Nat.toDigits 10 value ++ c :: rest) = some (ofDecimal false value 0, c :: rest) := by
      rcases follows with rfl | rfl <;> exact readNumber_nat value rest (by decide) (by decide) (by decide)
    rw [Field.render]
    rw [same, List.cons_append] at number ⊢
    rw [readValue_number fuel _ digit, number]
    rfl

/-- The one thing that differs between the last member and the others is what follows. -/
private theorem readMembers_cons (fuel : Nat) (member : List Char × Field) {c : Char} (rest : List Char)
    (follows : c = ',' ∨ c = '}') :
    readMembers ofDecimal (fuel + 2) (renderMember member ++ c :: rest) =
      if c = ',' then (readMembers ofDecimal (fuel + 1) rest).map
        (Prod.map ((Utf16.encode member.1, member.2.read ofDecimal) :: ·) id)
      else some ([(Utf16.encode member.1, member.2.read ofDecimal)], rest) := by
  obtain ⟨name, field⟩ := member
  have text : renderMember (name, field) ++ c :: rest =
      '"' :: (name.flatMap escapeChar ++ '"' :: ':' :: (field.render ++ c :: rest)) := by
    simp [renderMember, quote]
  rw [text, readMembers, expect_cons _ (by decide), Option.bind_some, stringBody_quote, Option.bind_some]
  dsimp only
  rw [expect_cons _ (by decide), Option.bind_some, readValue_field fuel field rest follows, Option.bind_some]
  dsimp only
  rcases follows with rfl | rfl
  · rw [expect_cons _ (by decide), if_pos rfl]
  · rw [expect_other _ (by decide) (by decide), expect_cons _ (by decide), if_neg (by decide), Option.map_some]

private theorem readMembers_all {fuel : Nat} {member : List Char × Field} {members : List (List Char × Field)}
    (rest : List Char) (enough : members.length + 2 ≤ fuel) :
    readMembers ofDecimal fuel (List.intercalate [','] ((member :: members).map renderMember) ++ '}' :: rest) =
      some ((member :: members).map fun member => (Utf16.encode member.1, member.2.read ofDecimal), rest) := by
  induction members generalizing fuel member with
  | nil =>
    obtain ⟨fuel, rfl⟩ : ∃ more, fuel = more + 2 := ⟨fuel - 2, by simp at enough; omega⟩
    rw [List.map_singleton, List.intercalate_singleton, readMembers_cons fuel member rest (.inr rfl)]
    rfl
  | cons next members ih =>
    rw [List.length_cons] at enough
    obtain ⟨fuel, rfl⟩ : ∃ more, fuel = more + 2 := ⟨fuel - 2, by omega⟩
    rw [List.map_cons, List.map_cons, List.intercalate_cons_cons, ← List.map_cons, List.append_assoc, List.append_assoc,
      List.singleton_append, readMembers_cons fuel member _ (.inl rfl), if_pos rfl, ih (by omega)]
    rfl

private theorem length_intercalate (members : List (List Char × Field)) :
    members.length ≤ (List.intercalate [','] (members.map renderMember)).length := by
  induction members with
  | nil => simp
  | cons member members ih =>
    have one : 1 ≤ (renderMember member).length := by simp [renderMember, quote]
    cases members with
    | nil => simpa using one
    | cons next members =>
      rw [List.map_cons, List.map_cons, List.intercalate_cons_cons, ← List.map_cons]
      simp only [List.length_append, List.length_cons, List.length_nil] at ih ⊢
      omega

/-- Reading back what was written: the names and values in their order. -/
theorem parse_stringify (members : List (List Char × Field)) :
    parse ofDecimal (stringify members) =
      some (.object (members.map fun member => (Utf16.encode member.1, member.2.read ofDecimal))) := by
  have length := length_intercalate members
  cases members with
  | nil => rfl
  | cons member members =>
    have text : stringify (member :: members) =
        '{' :: (List.intercalate [','] ((member :: members).map renderMember) ++ '}' :: []) := by
      simp [stringify]
    have enough : members.length + 2 ≤ (stringify (member :: members)).length := by
      rw [text]
      simp only [List.length_cons, List.length_append, List.length_nil] at length ⊢
      omega
    have first : expect '}' (List.intercalate [','] ((member :: members).map renderMember) ++ '}' :: []) = none := by
      cases members <;> exact expect_other _ (by decide) (by decide)
    have read := @readMembers_all ν ofDecimal _ member members [] enough
    rw [parse, text, readValue, skipSpace_cons _ (by decide)]
    dsimp only
    rw [if_neg (by decide), if_pos rfl, first]
    dsimp only
    rw [← text, read]
    rfl

end Read

end Json

end SlothBox.Library

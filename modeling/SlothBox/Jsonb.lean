import SlothBox.AuditChain
import SlothBox.Library.Json

/-! Values of type `jsonb` and their text. An object keeps its members in an order of
its own; here they stand in the order in which they are printed. -/

namespace SlothBox
open Library

/-- A `numeric` with the digits that it shows behind the point. -/
structure Numeric where
  unscaled : Int
  scale : Nat
  deriving DecidableEq

def Numeric.text (number : Numeric) : List Char :=
  let digits := Nat.toDigits 10 number.unscaled.natAbs
  let padded := List.replicate (number.scale + 1 - digits.length) '0' ++ digits
  (if number.unscaled < 0 then ['-'] else []) ++ padded.take (padded.length - number.scale) ++
    if number.scale = 0 then [] else '.' :: padded.drop (padded.length - number.scale)

inductive JsonbValue where
  | null
  | bool (value : Bool)
  | number (value : Numeric)
  | string (text : List Char)
  | array (items : List JsonbValue)
  | object (members : List (List Char × JsonbValue))

namespace JsonbValue

mutual

/-- The output function of `jsonb`. -/
def render : JsonbValue → List Char
  | .null => ['n', 'u', 'l', 'l']
  | .bool true => ['t', 'r', 'u', 'e']
  | .bool false => ['f', 'a', 'l', 's', 'e']
  | .number value => value.text
  | .string text => Json.quote text
  | .array items => '[' :: renderItems items ++ [']']
  | .object members => '{' :: renderMembers members ++ ['}']

def renderItems : List JsonbValue → List Char
  | [] => []
  | [item] => item.render
  | item :: rest => item.render ++ [',', ' '] ++ renderItems rest

def renderMembers : List (List Char × JsonbValue) → List Char
  | [] => []
  | [(name, item)] => Json.quote name ++ [':', ' '] ++ item.render
  | (name, item) :: rest => Json.quote name ++ [':', ' '] ++ item.render ++ [',', ' '] ++ renderMembers rest

end

/-- Neither a quotation mark nor a control character. -/
def plainChar (c : Char) : Bool := c ≠ '"' && 0x20 ≤ c.toNat

mutual

/-- All strings and member names inside the value consist of plain characters. -/
def plain : JsonbValue → Bool
  | .null | .bool _ | .number _ => true
  | .string text => text.all plainChar
  | .array items => plainItems items
  | .object members => plainMembers members

def plainItems : List JsonbValue → Bool
  | [] => true
  | item :: rest => item.plain && plainItems rest

def plainMembers : List (List Char × JsonbValue) → Bool
  | [] => true
  | (name, item) :: rest => name.all plainChar && item.plain && plainMembers rest

end

end JsonbValue

/-! ### Backslashes only where JSON writes them -/

/-- A piece of text behind which the scan for escapes starts afresh. -/
def Skips (text : List Char) : Prop := ∀ rest, jsonEscaped (text ++ rest) = jsonEscaped rest

theorem Skips.append {first second : List Char} (skips : Skips first) (skips' : Skips second) : Skips (first ++ second) :=
  fun rest => by rw [List.append_assoc, skips, skips']

theorem skips_plain {text : List Char} (plain : '\\' ∉ text) : Skips text := by
  intro rest
  induction text with
  | nil => rfl
  | cons c text ih =>
    obtain ⟨other, plain⟩ := List.ne_and_not_mem_of_not_mem_cons plain
    conv_lhs => unfold jsonEscaped
    rw [List.cons_append]
    exact (if_pos (Ne.symm other)).trans (ih plain)

theorem Numeric.text_plain (number : Numeric) : '\\' ∉ number.text := by
  have digits : '\\' ∉ Nat.toDigits 10 number.unscaled.natAbs := fun inside =>
    absurd (Nat.isDigit_of_mem_toDigits (by decide) (by decide) inside) (by decide)
  have padded : '\\' ∉ List.replicate (number.scale + 1 - (Nat.toDigits 10 number.unscaled.natAbs).length) '0' ++
      Nat.toDigits 10 number.unscaled.natAbs := by
    rw [List.mem_append, not_or]
    exact ⟨fun inside => absurd (List.eq_of_mem_replicate inside) (by decide), digits⟩
  have sign : '\\' ∉ if number.unscaled < 0 then ['-'] else [] := by split <;> decide
  have fraction : '\\' ∉ if number.scale = 0 then [] else '.' ::
      (List.replicate (number.scale + 1 - (Nat.toDigits 10 number.unscaled.natAbs).length) '0' ++
        Nat.toDigits 10 number.unscaled.natAbs).drop ((List.replicate (number.scale + 1 -
          (Nat.toDigits 10 number.unscaled.natAbs).length) '0' ++ Nat.toDigits 10 number.unscaled.natAbs).length -
            number.scale) := by
    split
    · decide
    · rw [List.mem_cons, not_or]
      exact ⟨by decide, fun inside => padded (List.mem_of_mem_drop inside)⟩
  unfold Numeric.text
  rw [List.mem_append, List.mem_append, not_or, not_or]
  exact ⟨⟨sign, fun inside => padded (List.mem_of_mem_take inside)⟩, fraction⟩

private theorem jsonEscaped_short {d : Char} {rest : List Char} (other : d ≠ 'u')
    (known : ['\\', '"', 'b', 'f', 'n', 'r', 't'].contains d) : jsonEscaped ('\\' :: d :: rest) = jsonEscaped rest := by
  conv_lhs => unfold jsonEscaped
  rw [if_neg (by decide)]
  dsimp only
  rw [if_neg other, known, Bool.true_and]

theorem skips_escapeChar (c : Char) : Skips (Json.escapeChar c) := by
  intro rest
  unfold Json.escapeChar
  split
  next => exact jsonEscaped_short (by decide) (by decide)
  split
  next => exact jsonEscaped_short (by decide) (by decide)
  next slash =>
  split
  next => exact jsonEscaped_short (by decide) (by decide)
  split
  next => exact jsonEscaped_short (by decide) (by decide)
  split
  next => exact jsonEscaped_short (by decide) (by decide)
  split
  next => exact jsonEscaped_short (by decide) (by decide)
  split
  next => exact jsonEscaped_short (by decide) (by decide)
  split
  next control =>
    have digits : ∀ n < 0x20, (hexDigit? (Nat.digitChar (n / 16))).isSome ∧ (hexDigit? (Nat.digitChar (n % 16))).isSome := by
      decide
    have zero : (hexDigit? '0').isSome := by decide
    obtain ⟨high, low⟩ := digits c.toNat control
    simp only [List.cons_append, List.nil_append]
    conv_lhs => unfold jsonEscaped
    rw [if_neg (by decide)]
    simp [high, low, zero]
  next => exact skips_plain (by simpa using Ne.symm slash) rest

theorem skips_quote (text : List Char) : Skips (Json.quote text) := by
  have inner : Skips (text.flatMap Json.escapeChar) := by
    induction text with
    | nil => exact fun rest => rfl
    | cons c text ih => exact (skips_escapeChar c).append ih
  have mark : Skips ['"'] := skips_plain (by decide)
  exact (mark.append inner).append mark

namespace JsonbValue

mutual

theorem skips_render (value : JsonbValue) : Skips value.render := by
  match value with
  | .null => exact skips_plain (by decide)
  | .bool true => exact skips_plain (by decide)
  | .bool false => exact skips_plain (by decide)
  | .number value => exact skips_plain value.text_plain
  | .string text => exact skips_quote text
  | .array items =>
    have bracket : Skips ['['] := skips_plain (by decide)
    exact (bracket.append (skips_renderItems items)).append (skips_plain (by decide))
  | .object members =>
    have brace : Skips ['{'] := skips_plain (by decide)
    exact (brace.append (skips_renderMembers members)).append (skips_plain (by decide))

theorem skips_renderItems (items : List JsonbValue) : Skips (renderItems items) := by
  match items with
  | [] => exact fun rest => rfl
  | [item] => exact skips_render item
  | item :: next :: rest =>
    have comma : Skips [',', ' '] := skips_plain (by decide)
    exact ((skips_render item).append comma).append (skips_renderItems (next :: rest))

theorem skips_renderMembers (members : List (List Char × JsonbValue)) : Skips (renderMembers members) := by
  have colon : Skips [':', ' '] := skips_plain (by decide)
  match members with
  | [] => exact fun rest => rfl
  | [(name, item)] => exact ((skips_quote name).append colon).append (skips_render item)
  | (name, item) :: next :: rest =>
    have comma : Skips [',', ' '] := skips_plain (by decide)
    exact ((((skips_quote name).append colon).append (skips_render item)).append comma).append
      (skips_renderMembers (next :: rest))

end

/-- The payload that a value is, unless its text is too long for any column. -/
def payload (value : JsonbValue) (short : value.render.length < 2 ^ 31) : Jsonb where
  text := String.ofList value.render
  escaped := by
    rw [String.toList_ofList, ← List.append_nil value.render, skips_render]
    rfl
  short := by simpa using short

end JsonbValue

end SlothBox

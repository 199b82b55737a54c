import Mathlib.Data.List.Sort
import SlothBox.Library.Bytes
import SlothBox.Library.Keyed

/-! Plain objects of a scripting language used as dictionaries of byte arrays: what an
assignment `object[key] = bytes` does, and which entries a loop over the object's own
keys finds. -/

namespace SlothBox.Library

/-- The text of the number that a text denotes. A number's text ends in a digit or is a
word. -/
structure NumberTexts where
  rewrite : String → String
  noPoint : ∀ text, (rewrite text).toList.getLast? ≠ some '.'

/-- Whether a key is read as a number by an array. -/
def NumberTexts.numeric (numbers : NumberTexts) (key : String) : Bool := key = "-0" || numbers.rewrite key = key

/-- The number that a key spells in digits, without leading zeros. -/
def index? (key : String) : Option Nat :=
  let digits := key.toList
  if digits ≠ [] ∧ digits.all Char.isDigit ∧ (digits.head? = some '0' → digits = ['0']) then
    some (Nat.ofDigitChars 10 digits 0)
  else none

theorem all_isDigit_of_index? {key : String} (number : (index? key).isSome) : key.toList.all Char.isDigit := by
  simp only [index?] at number
  split at number
  next digits => exact digits.2.1
  next => cases number

/-- A key that comes before the others. -/
def arrayIndex? (key : String) : Option Nat := (index? key).filter (· < 4294967295)

structure PlainObject where
  properties : List (String × Bytes)
  /-- A byte array that has taken the place of the common prototype. -/
  prototype : Option Bytes
  distinct : (properties.map Prod.fst).Nodup

namespace PlainObject

/-- `{}`. -/
def empty : PlainObject := ⟨[], none, List.nodup_nil⟩

def keys (object : PlainObject) : List String := object.properties.map Prod.fst

def update (object : PlainObject) (key : String) (value : Bytes) : PlainObject where
  properties := object.properties.map fun entry => if entry.1 = key then (key, value) else entry
  prototype := object.prototype
  distinct := map_fst_replace object.properties key value ▸ object.distinct

def add (object : PlainObject) (key : String) (value : Bytes) (absent : key ∉ object.keys) : PlainObject where
  properties := object.properties ++ [(key, value)]
  prototype := object.prototype
  distinct := nodup_concat value object.distinct absent

/-- The members that a byte array has and does not let one assign. -/
def readOnly : List String := ["buffer", "byteLength", "byteOffset", "length", "BYTES_PER_ELEMENT"]

/-- `object[key] = value` in strict mode; `none` is a `TypeError`. The prototype of a
fresh object has a setter named `__proto__`, and a byte array in its place swallows the
numbers that are not its own indices. -/
def set? (numbers : NumberTexts) (object : PlainObject) (key : String) (value : Bytes) : Option PlainObject :=
  if absent : key ∉ object.keys then
    if key = "__proto__" then some { object with prototype := some value }
    else
      match object.prototype with
      | none => some (object.add key value absent)
      | some array =>
        if key ∈ readOnly then none
        else if numbers.numeric key ∧ ¬(index? key).any (· < array.length) then some object
        else some (object.add key value absent)
  else some (object.update key value)

/-- `Object.entries(object)`: array indices by size, then the others by age. -/
def ownEntries (object : PlainObject) : List (String × Bytes) :=
  (object.properties.filter fun entry => (arrayIndex? entry.1).isSome).insertionSort
      (fun entry other => (arrayIndex? entry.1).getD 0 ≤ (arrayIndex? other.1).getD 0) ++
    object.properties.filter fun entry => !(arrayIndex? entry.1).isSome

theorem ownEntries_perm (object : PlainObject) : object.ownEntries.Perm object.properties :=
  ((List.perm_insertionSort _ _).append_right _).trans (List.filter_append_perm _ _)

@[simp] theorem mem_ownEntries {object : PlainObject} {entry : String × Bytes} :
    entry ∈ object.ownEntries ↔ entry ∈ object.properties :=
  object.ownEntries_perm.mem_iff

/-- An assignment to a new key of an object with the common prototype adds an entry,
unless the key is the setter's. -/
theorem set?_of_new {numbers : NumberTexts} {object : PlainObject} {key : String} {value : Bytes}
    (absent : key ∉ object.keys) (ordinary : key ≠ "__proto__") (common : object.prototype = none) :
    object.set? numbers key value = some (object.add key value absent) := by
  rw [set?, dif_pos absent, if_neg ordinary, common]

/-- An assignment to a new key that returns adds an entry, or none under the setter's
name and under a number. -/
theorem set?_cases {numbers : NumberTexts} {object next : PlainObject} {key : String} {value : Bytes}
    (absent : key ∉ object.keys) (returned : object.set? numbers key value = some next) :
    next.properties = object.properties ∧ (key = "__proto__" ∨ numbers.numeric key) ∨
    next.properties = object.properties ++ [(key, value)] ∧ key ≠ "__proto__" := by
  rw [set?, dif_pos absent] at returned
  split at returned
  next setter =>
    cases returned
    exact .inl ⟨rfl, .inl setter⟩
  next ordinary =>
  split at returned
  next =>
    cases returned
    exact .inr ⟨rfl, ordinary⟩
  next =>
  split at returned
  next => cases returned
  next =>
  split at returned
  next swallowed =>
    cases returned
    exact .inl ⟨rfl, .inr swallowed.1⟩
  next =>
    cases returned
    exact .inr ⟨rfl, ordinary⟩

/-- Numbers never end in a point. -/
theorem not_numeric {numbers : NumberTexts} {key : String} (point : key.toList.getLast? = some '.') :
    ¬numbers.numeric key := by
  intro numeric
  rcases Bool.or_eq_true _ _ ▸ numeric with zero | same
  · rw [of_decide_eq_true zero] at point
    exact absurd point (by decide)
  · apply numbers.noPoint key
    rw [of_decide_eq_true same]
    exact point

end PlainObject

end SlothBox.Library

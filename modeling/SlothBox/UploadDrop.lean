import SlothBox.Library.Drawing
import SlothBox.Library.Utf16

/-! The password helpers of the upload form: the generator and the strength meter. The
random values are a stream, of which every draw takes the head. -/

namespace SlothBox
open Library

/-- What `crypto.getRandomValues` puts into a `Uint32Array(1)`, call after call. -/
abbrev Drawing := StateM (Stream' UInt32)

def randIndex (n : Nat) : Drawing Nat := do
  let values ← get
  set values.tail
  return values.head.toNat % n

/-- `g[randIndex(g.length)]!` -/
def randChar (group : String) : Drawing Char := do
  let index ← randIndex group.length
  return group.toList[index]!

/-- Upper case, lower case, digits and symbols, without `I`, `O`, `l`, `o`, `0` and `1`. -/
def passwordGroups : List String :=
  ["ABCDEFGHJKLMNPQRSTUVWXYZ", "abcdefghijkmnpqrstuvwxyz", "23456789", "!@#$%^&*-_=+"]

def passwordAlphabet : String := String.join passwordGroups

/-- The `while` loop that fills up from the whole alphabet: a turn for each character that
is missing. -/
def fillPassword : Nat → Array Char → Drawing (Array Char)
  | 0, chars => return chars
  | missing + 1, chars => do
    let c ← randChar passwordAlphabet
    fillPassword missing (chars.push c)

/-- The Fisher–Yates loop from index `i` down to 1. -/
def shuffleFrom : Nat → Array Char → Drawing (Array Char)
  | 0, chars => return chars
  | i + 1, chars => do
    let j ← randIndex (i + 2)
    shuffleFrom i (chars.swapIfInBounds (i + 1) j)

def shuffle (chars : Array Char) : Drawing (Array Char) := shuffleFrom (chars.size - 1) chars

def generatePassword (length : Nat := 20) : Drawing String := do
  let guaranteed ← passwordGroups.mapM randChar
  let filled ← fillPassword (length - guaranteed.length) guaranteed.toArray
  let chars ← shuffle filled
  return String.ofList chars.toList

/-! ### The meter -/

def isLowerCase (c : Char) : Bool := 'a' ≤ c && c ≤ 'z'

def isUpperCase (c : Char) : Bool := 'A' ≤ c && c ≤ 'Z'

def isDecimal (c : Char) : Bool := '0' ≤ c && c ≤ '9'

/-- `[/[a-z]/, /[A-Z]/, /[0-9]/, /[^A-Za-z0-9]/]` -/
def characterClasses : List (Char → Bool) :=
  [isLowerCase, isUpperCase, isDecimal, fun c => !(isUpperCase c || isLowerCase c || isDecimal c)]

/-- 0 is empty, 1 weak, 2 fair and 3 strong. -/
def scorePassword (pw : String) : Nat :=
  if pw = "" then 0
  else
    let long := if 8 ≤ Utf16.length pw then 1 else 0
    let longer := if 14 ≤ Utf16.length pw then 1 else 0
    let classes := (characterClasses.filter pw.toList.any).length
    let varied := if 3 ≤ classes then 1 else 0
    min (long + longer + varied) 3

end SlothBox

import Mathlib.Data.List.Nodup

/-! Octet strings and the fixed-width big-endian integers that prefix fields in
byte layouts. An integer is reduced to its width as the encoders reduce it, so
injectivity is stated for values that fit. A digest known on a few inputs is extended
to a function without collisions. -/

namespace SlothBox.Library

abbrev Bytes := List UInt8

/-- Two octets, most significant first; higher bits are dropped. -/
def u16be (n : Nat) : Bytes := [UInt8.ofNat (n / 256), UInt8.ofNat n]

/-- Four octets, most significant first; higher bits are dropped. -/
def u32be (n : Nat) : Bytes :=
  [UInt8.ofNat (n / 16777216), UInt8.ofNat (n / 65536), UInt8.ofNat (n / 256), UInt8.ofNat n]

def hexDigit? (c : Char) : Option Nat :=
  if '0' ≤ c ∧ c ≤ '9' then some (c.toNat - 48)
  else if 'a' ≤ c ∧ c ≤ 'f' then some (c.toNat - 87)
  else if 'A' ≤ c ∧ c ≤ 'F' then some (c.toNat - 55) else none

private theorem octet_eq {m n : Nat} (same : UInt8.ofNat m = UInt8.ofNat n) : m % 256 = n % 256 := by
  simpa using congrArg UInt8.toNat same

theorem u16be_inj {m n : Nat} (small : m < 65536) (small' : n < 65536) (same : u16be m = u16be n) : m = n := by
  simp only [u16be, List.cons.injEq, and_true] at same
  obtain ⟨high, low⟩ := same
  have high := octet_eq high
  have low := octet_eq low
  omega

theorem u32be_inj {m n : Nat} (small : m < 4294967296) (small' : n < 4294967296)
    (same : u32be m = u32be n) : m = n := by
  simp only [u32be, List.cons.injEq, and_true] at same
  obtain ⟨first, second, third, fourth⟩ := same
  have first := octet_eq first
  have second := octet_eq second
  have third := octet_eq third
  have fourth := octet_eq fourth
  omega

/-! ### Functions with prescribed values -/

/-- A function with prescribed values of 32 octets; elsewhere it is longer than that. -/
def patched (known : List (Bytes × Bytes)) (input : Bytes) : Bytes :=
  match known.find? (·.1 = input) with
  | some entry => entry.2
  | none => input ++ List.replicate 33 0

theorem le_length_patched {known : List (Bytes × Bytes)} (width : ∀ entry ∈ known, entry.2.length = 32) (input : Bytes) :
    32 ≤ (patched known input).length := by
  unfold patched
  split
  next entry found => exact Nat.le_of_eq (width entry (List.mem_of_find?_eq_some found)).symm
  next =>
    rw [List.length_append, List.length_replicate]
    omega

theorem patched_injective {known : List (Bytes × Bytes)} (width : ∀ entry ∈ known, entry.2.length = 32)
    (distinct : (known.map Prod.snd).Nodup) : Function.Injective (patched known) := by
  intro first second same
  unfold patched at same
  split at same
  next entry found =>
    have member := List.mem_of_find?_eq_some found
    split at same
    next other found' =>
      have member' := List.mem_of_find?_eq_some found'
      have entries : entry = other := List.inj_on_of_nodup_map distinct member member' same
      have left : entry.1 = first := by simpa using List.find?_some found
      have right : other.1 = second := by simpa using List.find?_some found'
      rw [← left, ← right, entries]
    next =>
      have lengths := congrArg List.length same
      simp only [width entry member, List.length_append, List.length_replicate] at lengths
      omega
  next =>
    split at same
    next other found' =>
      have lengths := congrArg List.length same
      simp only [width other (List.mem_of_find?_eq_some found'), List.length_append, List.length_replicate] at lengths
      omega
    next => exact List.append_cancel_right same

end SlothBox.Library

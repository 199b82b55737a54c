import Mathlib.Data.Int.Log
import Mathlib.Data.Rat.Floor
import Mathlib.Tactic.Linarith
import Mathlib.Tactic.FieldSimp
import Mathlib.Tactic.Positivity

/-! Numbers as binary64 values: the rational they stand for, rounded to nearest with
ties to even. Signed zeros and NaN do not arise from decimal literals and quotients of
positive numbers, and are left out. -/

namespace SlothBox.Library

inductive Double where
  | finite (value : ℚ)
  | infinite (negative : Bool)
  deriving DecidableEq

/-- To the nearest integer, ties to even. -/
def roundEven (q : ℚ) : ℤ :=
  let below := ⌊q⌋
  if q - below < 1 / 2 then below else if 1 / 2 < q - below then below + 1 else below + below % 2

/-- The exponent of the last place of a value. -/
def lastPlace (q : ℚ) : ℤ := max (Int.log 2 |q| - 52) (-1074)

def roundDouble (q : ℚ) : ℚ := roundEven (q / 2 ^ lastPlace q) * 2 ^ lastPlace q

def Double.ofRat (q : ℚ) : Double :=
  if |roundDouble q| < 2 ^ 1024 then .finite (roundDouble q) else .infinite (q < 0)

/-- A decimal literal. -/
def Double.ofDecimal (negative : Bool) (digits : ℕ) (exponent : ℤ) : Double :=
  .ofRat ((if negative then -1 else 1) * digits * 10 ^ exponent)

/-! ### Operators -/

def Double.isInteger : Double → Bool
  | .finite q => q.den = 1
  | .infinite _ => false

def Double.lt : Double → Double → Bool
  | .finite p, .finite q => p < q
  | .finite _, .infinite negative => !negative
  | .infinite negative, .finite _ => negative
  | .infinite negative, .infinite other => negative && !other

/-- A product; zero times infinity is none. -/
def Double.mul? : Double → Double → Option Double
  | .finite p, .finite q => some (.ofRat (p * q))
  | .finite p, .infinite negative => if p = 0 then none else some (.infinite (negative != (p < 0)))
  | .infinite negative, .finite q => if q = 0 then none else some (.infinite (negative != (q < 0)))
  | .infinite negative, .infinite other => some (.infinite (negative != other))

/-- A whole number that is not negative. -/
def Double.toNat : Double → ℕ
  | .finite q => q.num.toNat
  | .infinite _ => 0

theorem roundEven_intCast (n : ℤ) : roundEven n = n := by
  simp [roundEven]

/-- Whole numbers below 2^53 are represented. -/
theorem roundDouble_natCast {n : ℕ} (small : n < 2 ^ 53) : roundDouble n = n := by
  have place : lastPlace n ≤ 0 := by
    have log : Nat.log 2 n ≤ 52 := by
      rcases Nat.eq_zero_or_pos n with rfl | positive
      · simp
      · exact Nat.lt_succ_iff.mp (Nat.log_lt_of_lt_pow positive.ne' small)
    rw [lastPlace, Nat.abs_cast, Int.log_natCast]
    omega
  obtain ⟨shift, same⟩ := Int.eq_ofNat_of_zero_le (Int.neg_nonneg.mpr place)
  have scaled : (n : ℚ) / 2 ^ lastPlace n = ((n * 2 ^ shift : ℤ) : ℚ) := by
    rw [div_eq_mul_inv, ← zpow_neg, same]
    push_cast
    norm_cast
  rw [roundDouble, scaled, roundEven_intCast, ← scaled]
  exact div_mul_cancel₀ _ (zpow_ne_zero _ (by norm_num))

theorem ofRat_nat {n : ℕ} (small : n < 2 ^ 53) : Double.ofRat n = .finite n := by
  have bound : |(n : ℚ)| < 2 ^ 1024 := by
    rw [Nat.abs_cast]
    have large : (2 : ℚ) ^ 53 < 2 ^ 1024 := pow_lt_pow_right₀ (by norm_num) (by norm_num)
    exact lt_trans (by exact_mod_cast small) large
  rw [Double.ofRat, roundDouble_natCast small, if_pos bound]

/-- Products of whole numbers are exact below 2^53. -/
theorem mul?_nat {m n : ℕ} (small : m * n < 2 ^ 53) :
    Double.mul? (.finite m) (.finite n) = some (.finite ((m * n : ℕ) : ℚ)) := by
  rw [Double.mul?, ← Nat.cast_mul, ofRat_nat small]

/-- An integral number above zero is a natural number. -/
theorem Double.eq_nat {value : Double} (whole : value.isInteger) (positive : (Double.finite 0).lt value) :
    ∃ n : ℕ, 0 < n ∧ value = .finite n := by
  cases value with
  | infinite negative => cases whole
  | finite q =>
    have whole : q.den = 1 := of_decide_eq_true whole
    have positive : 0 < q := of_decide_eq_true positive
    have above : 0 < q.num := Rat.num_pos.mpr positive
    refine ⟨q.num.toNat, by omega, ?_⟩
    have same : ((q.num.toNat : ℤ) : ℚ) = q := by
      rw [Int.toNat_of_nonneg above.le]
      exact (Rat.den_eq_one_iff q).mp whole
    rw [← Int.cast_natCast, same]

@[simp] theorem Double.toNat_nat (n : ℕ) : (Double.finite n).toNat = n := by
  simp [Double.toNat]

@[simp] theorem Double.lt_nat (m n : ℕ) : (Double.finite m).lt (.finite n) = decide (m < n) := by
  simp [Double.lt]

theorem Double.isInteger_nat (n : ℕ) : (Double.finite n).isInteger := by
  simp [Double.isInteger]

theorem ofDecimal_nat {n : ℕ} (small : n < 2 ^ 53) : Double.ofDecimal false n 0 = .finite n := by
  have whole : ((if false then -1 else 1 : ℚ) * n * 10 ^ (0 : ℤ)) = n := by simp
  rw [Double.ofDecimal, whole, ofRat_nat small]

/-! ### Rounding a quotient up -/

theorem roundEven_le {q : ℚ} {n : ℤ} (below : q ≤ n) : roundEven q ≤ n := by
  have floor : ⌊q⌋ ≤ n := Int.floor_le_iff.mpr (by linarith)
  rcases Int.lt_or_eq_of_le floor with less | same
  · unfold roundEven
    dsimp only
    split
    · omega
    · split
      · omega
      · have := Int.emod_two_eq ⌊q⌋
        omega
  · have exact : q = n := le_antisymm below (same ▸ Int.floor_le q)
    rw [exact, roundEven_intCast]

theorem lt_roundEven {q : ℚ} {n : ℤ} (above : n + 1 / 2 < q) : n < roundEven q := by
  have floor : n ≤ ⌊q⌋ := Int.le_floor.mpr (by linarith)
  unfold roundEven
  dsimp only
  split
  next near =>
    rcases Int.lt_or_eq_of_le floor with less | same
    · exact less
    · rw [← same] at near
      linarith
  next =>
    split
    · omega
    next tie far =>
      rcases Int.lt_or_eq_of_le floor with less | same
      · have := Int.emod_two_eq ⌊q⌋
        omega
      · rw [← same] at far
        linarith

private theorem lastPlace_div {size unit : ℕ} (positive : 0 < size) (small : size < 2 ^ 53) (one : 0 < unit)
    (safe : unit < 2 ^ 53) :
    ∃ shift : ℕ, lastPlace (size / unit) = -shift ∧ (unit : ℚ) < 2 ^ (shift + 1) := by
  have unitPositive : (0 : ℚ) < unit := by exact_mod_cast one
  have sizePositive : (0 : ℚ) < size := by exact_mod_cast positive
  have quotient : (0 : ℚ) < size / unit := div_pos sizePositive unitPositive
  have below := Int.zpow_log_le_self (b := 2) (by norm_num) quotient
  have above := Int.lt_zpow_succ_log_self (b := 2) (by norm_num) (size / unit : ℚ)
  set log := Int.log 2 (size / unit : ℚ) with exponent
  rw [le_div_iff₀ unitPositive] at below
  rw [div_lt_iff₀ unitPositive] at above
  have bounded : (size : ℚ) < 2 ^ (53 : ℤ) := by exact_mod_cast small
  have least : (1 : ℚ) ≤ unit := by exact_mod_cast one
  have upper : log < 53 := by
    refine (zpow_lt_zpow_iff_right₀ (by norm_num : (1 : ℚ) < 2)).mp ?_
    have power : (0 : ℚ) < 2 ^ log := zpow_pos (by norm_num) _
    push_cast at below
    nlinarith
  have lower : -54 < log := by
    have half : (1 : ℚ) ≤ size := by exact_mod_cast positive
    have limit : (unit : ℚ) < 2 ^ (53 : ℤ) := by exact_mod_cast safe
    have power : (0 : ℚ) < 2 ^ (log + 1) := zpow_pos (by norm_num) _
    have product : (2 : ℚ) ^ (0 : ℤ) < 2 ^ (log + 1 + 53) := by
      rw [zpow_add₀ (by norm_num) (log + 1), zpow_zero]
      push_cast at above
      nlinarith
    have := (zpow_lt_zpow_iff_right₀ (by norm_num : (1 : ℚ) < 2)).mp product
    omega
  obtain ⟨shift, same⟩ := Int.eq_ofNat_of_zero_le (a := 52 - log) (by omega)
  refine ⟨shift, ?_, ?_⟩
  · rw [lastPlace, abs_of_pos quotient, ← exponent, max_eq_left (by omega)]
    omega
  · have split : (2 : ℚ) ^ (shift + 1) * 2 ^ log = 2 ^ (53 : ℤ) := by
      rw [← zpow_natCast, ← zpow_add₀ (by norm_num)]
      congr 1
      push_cast
      omega
    have power : (0 : ℚ) < 2 ^ log := zpow_pos (by norm_num) _
    push_cast at below
    refine lt_of_mul_lt_mul_right ?_ power.le
    rw [split]
    linarith

/-- A quotient that is not a whole number is so far from one that rounding it does not
change which whole number is next. -/
theorem ceil_roundDouble_div {size unit : ℕ} (positive : 0 < size) (small : size < 2 ^ 53) (one : 0 < unit)
    (safe : unit < 2 ^ 53) : ⌈roundDouble (size / unit)⌉ = ⌈(size / unit : ℚ)⌉ := by
  obtain ⟨shift, place, fine⟩ := lastPlace_div positive small one safe
  have unitPositive : (0 : ℚ) < unit := by exact_mod_cast one
  have power : (0 : ℚ) < 2 ^ shift := by positivity
  obtain ⟨less, most⟩ := Int.ceil_eq_iff.mp (rfl : ⌈(size / unit : ℚ)⌉ = _)
  set next := ⌈(size / unit : ℚ)⌉
  have rounded : roundDouble (size / unit) = roundEven (size / unit * 2 ^ shift) / 2 ^ shift := by
    rw [roundDouble, place, zpow_neg, zpow_natCast, div_inv_eq_mul]
    exact (div_eq_mul_inv _ _).symm
  have apart : (next - 1 : ℚ) + 1 / unit ≤ size / unit := by
    rw [lt_div_iff₀ unitPositive] at less
    have whole : (next - 1) * (unit : ℤ) + 1 ≤ size := by exact_mod_cast less
    rw [← le_sub_iff_add_le, ← sub_div, le_div_iff₀ unitPositive]
    have : ((next - 1) * (unit : ℤ) + 1 : ℚ) ≤ size := by exact_mod_cast whole
    push_cast at this
    linarith
  refine Int.ceil_eq_iff.mpr ⟨?_, ?_⟩
  · rw [rounded, lt_div_iff₀ power]
    have above : (((next - 1) * 2 ^ shift : ℤ) : ℚ) + 1 / 2 < size / unit * 2 ^ shift := by
      push_cast
      have half : (1 / 2 : ℚ) < 1 / unit * 2 ^ shift := by
        rw [div_mul_eq_mul_div, one_mul, lt_div_iff₀ unitPositive]
        rw [pow_succ] at fine
        linarith
      nlinarith
    exact_mod_cast lt_roundEven above
  · rw [rounded, div_le_iff₀ power]
    have below : (size / unit * 2 ^ shift : ℚ) ≤ ((next * 2 ^ shift : ℤ) : ℚ) := by
      push_cast
      exact mul_le_mul_of_nonneg_right most power.le
    exact_mod_cast roundEven_le below

end SlothBox.Library

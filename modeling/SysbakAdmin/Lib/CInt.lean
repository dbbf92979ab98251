/-
**Fixed-width integers of C**, as functions on `ℕ` and `ℤ`: reduction to an
unsigned width, and the two's-complement reading of 32 bits.

Arithmetic in the models is written on `ℕ`, with one of these at each place where
the code's own type is narrower than the value.

The lemmas come in two kinds. Where a value is in range the reduction does nothing; where
two values agree modulo `2 ^ 32` they read as the same `int`. Sums and products therefore
need not be reduced on the way, only at the end, which is how `toInt32_i32_add` and its like
are used.
-/
import Mathlib.Data.Int.Basic
import Mathlib.Tactic.Ring

set_option autoImplicit false

namespace CInt

/-- Conversion to `uint32_t`. -/
def u32 (n : ℕ) : ℕ := n % 2 ^ 32

/-- Conversion to `uint64_t`. -/
def u64 (n : ℕ) : ℕ := n % 2 ^ 64

/-- Conversion of an unsigned value to `int`. -/
def i32 (n : ℕ) : ℤ := if u32 n < 2 ^ 31 then (u32 n : ℤ) else (u32 n : ℤ) - 2 ^ 32

/-- Conversion of a wider signed value to `int`. -/
def toInt32 (z : ℤ) : ℤ := (z + 2 ^ 31) % 2 ^ 32 - 2 ^ 31

/-- Conversion of an `int` to `uint64_t`. -/
def u64OfInt (i : ℤ) : ℕ := (i % 2 ^ 64).toNat

theorem u32_of_lt {n : ℕ} (h : n < 2 ^ 32) : u32 n = n := Nat.mod_eq_of_lt h

theorem u64_of_lt {n : ℕ} (h : n < 2 ^ 64) : u64 n = n := Nat.mod_eq_of_lt h

theorem u32_lt (n : ℕ) : u32 n < 2 ^ 32 := Nat.mod_lt _ (by norm_num)

theorem u64_lt (n : ℕ) : u64 n < 2 ^ 64 := Nat.mod_lt _ (by norm_num)

theorem i32_of_lt {n : ℕ} (h : n < 2 ^ 31) : i32 n = n := by
  have h32 : u32 n = n := u32_of_lt (by omega)
  rw [i32, h32, if_pos h]

/-- Adding and converting again is converting the sum. -/
theorem toInt32_i32_add (a b : ℕ) : toInt32 (i32 a + b) = i32 (a + b) := by
  unfold toInt32 i32 u32
  split_ifs <;> omega

/-- So is adding what was converted on both sides. -/
theorem toInt32_i32_add_i32 (a b : ℕ) : toInt32 (i32 a + i32 b) = i32 (a + b) := by
  unfold toInt32 i32 u32
  split_ifs <;> omega

/-- Both conversions take a value modulo `2 ^ 32`. -/
theorem i32_eq_toInt32 (n : ℕ) : i32 n = toInt32 n := by
  unfold toInt32 i32 u32
  split_ifs <;> omega

theorem toInt32_ge (z : ℤ) : -2 ^ 31 ≤ toInt32 z := by
  unfold toInt32
  omega

theorem toInt32_lt (z : ℤ) : toInt32 z < 2 ^ 31 := by
  unfold toInt32
  omega

theorem toInt32_congr {a b : ℤ} (h : a % 2 ^ 32 = b % 2 ^ 32) : toInt32 a = toInt32 b := by
  unfold toInt32
  omega

/-- Multiplying as `int` is converting the product. -/
theorem toInt32_i32_mul (a b : ℕ) : toInt32 (i32 a * i32 b) = i32 (a * b) := by
  have hmod : ∀ n : ℕ, i32 n % 2 ^ 32 = (n : ℤ) % 2 ^ 32 := fun n => by
    unfold i32 u32
    split_ifs <;> omega
  rw [i32_eq_toInt32 (a * b)]
  refine toInt32_congr ?_
  rw [Int.mul_emod, hmod a, hmod b, ← Int.mul_emod, Nat.cast_mul]

theorem toInt32_of_range {z : ℤ} (h0 : -2 ^ 31 ≤ z) (h : z < 2 ^ 31) : toInt32 z = z := by
  unfold toInt32
  omega

theorem u64OfInt_natCast {n : ℕ} (h : n < 2 ^ 64) : u64OfInt (n : ℤ) = n := by
  unfold u64OfInt
  omega

end CInt

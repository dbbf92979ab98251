/-
**Little-endian byte strings**: a natural number as its lowest `n` bytes, least
significant first, and back.

Everything a packed C structure stores is one of these strings, so the two round
trips below (`ofLe_leBytes` and `leBytes_ofLe`) are all a record codec needs, and
`leBytes_testBit` is what a bit array viewed through its bytes needs. Stated on
`ℕ` rather than on a fixed word, because the widths in one record differ.

Widths are numbers of bytes, and a value that does not fit is cut, as a C assignment would
cut it: `ofLe_leBytes` is therefore a remainder, and an equation where the value fits.

Both directions are recursions on the number of bytes, and the lemmas about concatenation say
that a field is read where it was written.
-/
import Mathlib.Data.List.Basic
import Mathlib.Data.Nat.Bitwise
import Mathlib.Tactic.Ring

set_option autoImplicit false

namespace LittleEndian

/-- One byte of memory or of a file. -/
abbrev Byte := BitVec 8

/-- The lowest `n` bytes of `v`, least significant first. -/
def leBytes : ℕ → ℕ → List Byte
  | 0, _ => []
  | n + 1, v => BitVec.ofNat 8 v :: leBytes n (v / 256)

/-- The number a byte string denotes. -/
def ofLe : List Byte → ℕ
  | [] => 0
  | b :: l => b.toNat + 256 * ofLe l

@[simp] theorem leBytes_length (n v : ℕ) : (leBytes n v).length = n := by
  induction n generalizing v with
  | zero => rfl
  | succ n ih => simp [leBytes, ih]

/-- Decoding is bounded by the length of the string. -/
theorem ofLe_lt (l : List Byte) : ofLe l < 256 ^ l.length := by
  induction l with
  | nil => simp [ofLe]
  | cons b l ih =>
      have hb : b.toNat < 256 := b.isLt
      simp only [ofLe, List.length_cons, pow_succ]
      omega

/-- Encoding and decoding keeps what fits in `n` bytes. -/
theorem ofLe_leBytes (n v : ℕ) : ofLe (leBytes n v) = v % 256 ^ n := by
  induction n generalizing v with
  | zero => simp [leBytes, ofLe, Nat.mod_one]
  | succ n ih =>
      have hmod : v % 256 ^ (n + 1) = v % 256 + 256 * (v / 256 % 256 ^ n) := by
        rw [pow_succ, Nat.mul_comm, Nat.mod_mul]
      simp only [leBytes, ofLe, ih, hmod, BitVec.toNat_ofNat, Nat.reducePow]

/-- Encoding and decoding a value that fits returns it. -/
theorem ofLe_leBytes_of_lt {n v : ℕ} (h : v < 256 ^ n) : ofLe (leBytes n v) = v := by
  rw [ofLe_leBytes, Nat.mod_eq_of_lt h]

/-- Decoding and encoding a string of the right length returns it. -/
theorem leBytes_ofLe (l : List Byte) : leBytes l.length (ofLe l) = l := by
  induction l with
  | nil => rfl
  | cons b l ih =>
      have hb : b.toNat < 256 := b.isLt
      have hlow : BitVec.ofNat 8 (b.toNat + 256 * ofLe l) = b := by
        apply BitVec.eq_of_toNat_eq
        simp only [BitVec.toNat_ofNat]
        omega
      have hhigh : (b.toNat + 256 * ofLe l) / 256 = ofLe l := by omega
      simp only [List.length_cons, leBytes, ofLe, hlow, hhigh, ih]

/-- Two strings of one length with the same value are the same string. -/
theorem ofLe_inj {l m : List Byte} (hlen : l.length = m.length) (h : ofLe l = ofLe m) :
    l = m := by
  rw [← leBytes_ofLe l, ← leBytes_ofLe m, hlen, h]

/-- Zero bytes at the end denote nothing. -/
theorem ofLe_append_leBytes_zero (l : List Byte) (n : ℕ) : ofLe (l ++ leBytes n 0) = ofLe l := by
  have hzero : ofLe (leBytes n 0) = 0 := by
    rw [ofLe_leBytes, Nat.zero_mod]
  induction l with
  | nil => rw [List.nil_append, hzero, ofLe]
  | cons b l ih => rw [List.cons_append, ofLe, ofLe, ih]

theorem drop_leBytes_zero (n k : ℕ) : (leBytes n 0).drop k = leBytes (n - k) 0 := by
  induction k generalizing n with
  | zero => rfl
  | succ k ih =>
      cases n with
      | zero => rw [leBytes, List.drop_nil, Nat.zero_sub, leBytes]
      | succ n => rw [leBytes, List.drop_succ_cons, Nat.zero_div, ih, Nat.add_sub_add_right]

/-- Byte `k` of the encoding holds bits `8 * k` to `8 * k + 7` of the value. -/
theorem leBytes_testBit {n k j : ℕ} (v : ℕ) (hk : k < n) (hj : j < 8) :
    ((leBytes n v).getD k 0).getLsbD j = v.testBit (8 * k + j) := by
  induction n generalizing v k with
  | zero => omega
  | succ n ih =>
      cases k with
      | zero =>
          simp only [leBytes, List.getD_cons_zero, BitVec.getLsbD_ofNat, hj, decide_true,
            Bool.true_and, Nat.mul_zero, Nat.zero_add]
      | succ k =>
          have hshift : (v / 256).testBit (8 * k + j) = v.testBit (8 * (k + 1) + j) := by
            rw [show (256 : ℕ) = 2 ^ 8 from rfl, Nat.testBit_div_two_pow]
            congr 1
            ring
          simp only [leBytes, List.getD_cons_succ]
          rw [ih (v / 256) (by omega), hshift]

/-- Bit `i` of the decoded value is bit `i % 8` of byte `i / 8`. -/
theorem ofLe_testBit (l : List Byte) (i : ℕ) :
    (ofLe l).testBit i = (l.getD (i / 8) 0).getLsbD (i % 8) := by
  by_cases h : i / 8 < l.length
  · have hb := leBytes_testBit (ofLe l) h (Nat.mod_lt i (by norm_num : 0 < 8))
    rw [leBytes_ofLe, Nat.div_add_mod] at hb
    exact hb.symm
  · -- past the end the byte reads as zero, and the value has no such bit
    have hlt : ofLe l < 2 ^ i := by
      calc ofLe l < 256 ^ l.length := ofLe_lt l
        _ = 2 ^ (8 * l.length) := by rw [pow_mul]; norm_num
        _ ≤ 2 ^ i := Nat.pow_le_pow_right (by norm_num) (by omega)
    rw [Nat.testBit_lt_two_pow hlt, List.getD_eq_default _ _ (by omega)]
    simp

end LittleEndian

/-
**Reflected cyclic redundancy checks** over a `w`-bit register: the bit-serial
definition, the table step, and what a stored check value detects.

The register shifts towards its least significant bit, as every "reflected" CRC
does. The whole theory is two facts about one shift: it distributes over
exclusive or (`shift_xor`), and it is injective as soon as the polynomial has its
top bit set (`shift_eq_zero`). From them:

* a string of `n` bytes with `8 * n ≤ w` acts on the register by one exclusive or
  followed by `8 * n` shifts (`run_eq_shifts`), so it acts injectively;
* a message followed by its own check value, least significant byte first, drives
  the register to zero, and only that value does (`run_stored_iff`);
* so a message and its check value never survive a change confined to `w` bits,
  wherever the change lies -- in the message, in the check value or across both
  (`run_stored_burst`).

`byte_table` is the table-driven form of the byte step.
-/
import SysbakAdmin.Lib.LittleEndian

set_option autoImplicit false

namespace ReflectedCrc

open LittleEndian

variable {w : ℕ} (poly : BitVec w)

/-! ## The register -/

/-- One shift of the register: out goes the low bit, and the polynomial comes in
when that bit was set. -/
def shift (c : BitVec w) : BitVec w :=
  if c.getLsbD 0 then (c >>> 1) ^^^ poly else c >>> 1

/-- `n` shifts. -/
def shifts : ℕ → BitVec w → BitVec w
  | 0, c => c
  | n + 1, c => shift poly (shifts n c)

/-- One message byte: it meets the low byte of the register, then eight shifts. -/
def byte (c : BitVec w) (b : Byte) : BitVec w :=
  shifts poly 8 (c ^^^ b.setWidth w)

/-- A whole message. -/
def run (c : BitVec w) (l : List Byte) : BitVec w :=
  l.foldl (byte poly) c

@[simp] theorem run_nil (c : BitVec w) : run poly c [] = c := rfl

@[simp] theorem run_cons (c : BitVec w) (b : Byte) (l : List Byte) :
    run poly c (b :: l) = run poly (byte poly c b) l := rfl

/-- A message cut in two is checked piece by piece. -/
theorem run_append (c : BitVec w) (l m : List Byte) :
    run poly c (l ++ m) = run poly (run poly c l) m := by
  simp only [run, List.foldl_append]

/-! ## Linearity -/

theorem xor_xor_cancel (a b p : BitVec w) : a ^^^ p ^^^ (b ^^^ p) = a ^^^ b := by
  rw [BitVec.xor_assoc, ← BitVec.xor_assoc p b p, BitVec.xor_comm p b, BitVec.xor_assoc b p p,
    BitVec.xor_self, BitVec.xor_zero]

/-- Two registers are equal as soon as their difference vanishes. -/
theorem eq_of_xor_eq_zero {a b : BitVec w} (h : a ^^^ b = 0) : a = b := by
  have hc : a ^^^ b ^^^ b = 0 ^^^ b := by rw [h]
  rwa [BitVec.xor_assoc, BitVec.xor_self, BitVec.xor_zero, BitVec.ofNat_eq_ofNat,
    BitVec.zero_xor] at hc

@[simp] theorem shift_zero : shift poly 0 = 0 := by simp [shift]

/-- The shift distributes over exclusive or. -/
theorem shift_xor (a b : BitVec w) : shift poly (a ^^^ b) = shift poly a ^^^ shift poly b := by
  unfold shift
  rw [BitVec.getLsbD_xor, BitVec.ushiftRight_xor_distrib]
  cases a.getLsbD 0 <;> cases b.getLsbD 0
  · rfl
  · simp only [Bool.false_bne, if_true, Bool.false_eq_true, if_false, BitVec.xor_assoc]
  · simp only [Bool.bne_false, if_true, Bool.false_eq_true, if_false, BitVec.xor_assoc]
    rw [BitVec.xor_comm poly]
  · simp only [bne_self_eq_false, Bool.false_eq_true, if_false, if_true, xor_xor_cancel]

@[simp] theorem shifts_zero (n : ℕ) : shifts poly n (0 : BitVec w) = 0 := by
  induction n with
  | zero => rfl
  | succ n ih => rw [shifts, ih, shift_zero]

theorem shifts_xor (n : ℕ) (a b : BitVec w) :
    shifts poly n (a ^^^ b) = shifts poly n a ^^^ shifts poly n b := by
  induction n with
  | zero => rfl
  | succ n ih => rw [shifts, ih, shift_xor]; rfl

theorem shifts_add (m n : ℕ) (c : BitVec w) :
    shifts poly (m + n) c = shifts poly m (shifts poly n c) := by
  induction m with
  | zero => rw [Nat.zero_add]; rfl
  | succ m ih => rw [Nat.succ_add, shifts, ih]; rfl

/-- While the low bits are clear no polynomial comes in: the register only moves. -/
theorem shifts_of_low_clear (c : BitVec w) :
    ∀ n : ℕ, (∀ i < n, c.getLsbD i = false) → shifts poly n c = c >>> n
  | 0, _ => by simp [shifts]
  | n + 1, h => by
      have hlow : (c >>> n).getLsbD 0 = false := by
        rw [BitVec.getLsbD_ushiftRight]
        exact h n (by omega)
      rw [shifts, shifts_of_low_clear c n (fun i hi => h i (by omega)), shift, hlow]
      simp only [Bool.false_eq_true, if_false, BitVec.shiftRight_add]

/-! ## Injectivity -/

/-- Only the zero register shifts to zero: the polynomial's top bit would show. -/
theorem shift_eq_zero (hp : poly.getLsbD (w - 1) = true) {c : BitVec w}
    (h : shift poly c = 0) : c = 0 := by
  have hw : 0 < w := by
    rcases Nat.eq_zero_or_pos w with rfl | hw
    · simp at hp
    · exact hw
  unfold shift at h
  by_cases hc : c.getLsbD 0
  · rw [if_pos hc] at h
    have htop := congrArg (fun x => BitVec.getLsbD x (w - 1)) h
    have hover : c.getLsbD (1 + (w - 1)) = false := BitVec.getLsbD_of_ge c _ (by omega)
    simp only [BitVec.getLsbD_xor, BitVec.getLsbD_ushiftRight, hover, hp] at htop
    simp at htop
  · rw [if_neg hc] at h
    apply BitVec.eq_of_getLsbD_eq
    intro i hi
    cases i with
    | zero => simpa using hc
    | succ i =>
        have hbit := congrArg (fun x => BitVec.getLsbD x i) h
        simp only [BitVec.getLsbD_ushiftRight] at hbit
        rw [Nat.add_comm i 1, hbit]
        simp

theorem shifts_inj (hp : poly.getLsbD (w - 1) = true) {n : ℕ} {a b : BitVec w}
    (h : shifts poly n a = shifts poly n b) : a = b := by
  induction n with
  | zero => exact h
  | succ n ih =>
      apply ih
      apply eq_of_xor_eq_zero
      rw [← shifts_xor]
      apply shift_eq_zero poly hp
      have hxor : shift poly (shifts poly n a ^^^ shifts poly n b) = 0 := by
        rw [shift_xor]
        simp only [shifts] at h
        rw [h, BitVec.xor_self]
        rfl
      rw [shifts_xor]
      exact hxor

/-- A byte acts injectively on the register. -/
theorem byte_inj (hp : poly.getLsbD (w - 1) = true) {c d : BitVec w} {b : Byte}
    (h : byte poly c b = byte poly d b) : c = d := by
  have hx := shifts_inj poly hp h
  have hc : c ^^^ b.setWidth w ^^^ (d ^^^ b.setWidth w) = 0 := by
    rw [hx, BitVec.xor_self]; rfl
  rw [xor_xor_cancel] at hc
  exact eq_of_xor_eq_zero hc

/-- So does every message: registers that differ before a message differ after it. -/
theorem run_state_inj (hp : poly.getLsbD (w - 1) = true) (l : List Byte) {c d : BitVec w}
    (h : run poly c l = run poly d l) : c = d := by
  induction l generalizing c d with
  | nil => exact h
  | cons b l ih => exact byte_inj poly hp (ih h)

/-! ## Short messages -/

/-- A low byte and the rest of a number occupy disjoint bits. -/
theorem ofNat_byte_add (b : Byte) (m : ℕ) :
    BitVec.ofNat w (b.toNat + 256 * m) = b.setWidth w ^^^ BitVec.ofNat w (256 * m) := by
  apply BitVec.eq_of_getLsbD_eq
  intro i hi
  have hb : b.toNat < 2 ^ 8 := b.isLt
  rw [BitVec.getLsbD_xor, BitVec.getLsbD_setWidth, BitVec.getLsbD_ofNat, BitVec.getLsbD_ofNat,
    Nat.add_comm, show (256 : ℕ) = 2 ^ 8 from rfl, Nat.testBit_two_pow_mul_add m hb,
    Nat.testBit_two_pow_mul]
  by_cases h8 : i < 8
  · simp [h8, hi, BitVec.getLsbD, show ¬ 8 ≤ i by omega]
  · simp [h8, hi, show 8 ≤ i by omega]

/-- Eight shifts drop a byte that no polynomial meets. -/
theorem shifts_eight_mul (m : ℕ) (hm : 256 * m < 2 ^ w) :
    shifts poly 8 (BitVec.ofNat w (256 * m)) = BitVec.ofNat w m := by
  rw [shifts_of_low_clear]
  · apply BitVec.eq_of_toNat_eq
    rw [BitVec.toNat_ushiftRight, BitVec.toNat_ofNat, BitVec.toNat_ofNat, Nat.mod_eq_of_lt hm,
      Nat.mod_eq_of_lt (by omega), Nat.shiftRight_eq_div_pow]
    omega
  · intro i hi
    rw [BitVec.getLsbD_ofNat, show (256 : ℕ) = 2 ^ 8 from rfl, Nat.testBit_two_pow_mul]
    simp [show ¬ 8 ≤ i by omega]

/-- **Short messages act by one exclusive or.** The induction is on the message:
the first byte's eight shifts leave the rest of the number where the next byte
expects it. -/
theorem run_eq_shifts (l : List Byte) (hl : 8 * l.length ≤ w) (c : BitVec w) :
    run poly c l = shifts poly (8 * l.length) (c ^^^ BitVec.ofNat w (ofLe l)) := by
  induction l generalizing c with
  | nil => simp [ofLe, shifts]
  | cons b l ih =>
      rw [List.length_cons] at hl
      have hfit : 256 * ofLe l < 2 ^ w := by
        have hlt := ofLe_lt l
        calc 256 * ofLe l < 256 * 256 ^ l.length := by omega
          _ = 2 ^ (8 * (l.length + 1)) := by
              rw [Nat.mul_add, pow_add, pow_mul, Nat.mul_comm]; norm_num
          _ ≤ 2 ^ w := Nat.pow_le_pow_right (by norm_num) hl
      have hsplit : shifts poly 8 (c ^^^ BitVec.ofNat w (ofLe (b :: l)))
          = byte poly c b ^^^ BitVec.ofNat w (ofLe l) := by
        rw [ofLe, ofNat_byte_add, ← BitVec.xor_assoc, shifts_xor, shifts_eight_mul poly _ hfit]
        rfl
      rw [run_cons, ih (by omega), ← hsplit, ← shifts_add, List.length_cons, Nat.mul_add]

/-- Two short messages of one length that leave the register alike are equal. Both act by one
exclusive or, and the shifts that follow are injective. -/
theorem run_short_inj (hp : poly.getLsbD (w - 1) = true) {l m : List Byte} {c : BitVec w}
    (hlen : l.length = m.length) (hl : 8 * l.length ≤ w)
    (h : run poly c l = run poly c m) : l = m := by
  rw [run_eq_shifts poly l hl, run_eq_shifts poly m (by omega), hlen] at h
  have hx := shifts_inj poly hp h
  have hxor : BitVec.ofNat w (ofLe l) = BitVec.ofNat w (ofLe m) := by
    rw [BitVec.xor_comm c, BitVec.xor_comm c] at hx
    have hc := congrArg (· ^^^ c) hx
    simpa only [BitVec.xor_assoc, BitVec.xor_self, BitVec.xor_zero] using hc
  have hfit : ∀ k : List Byte, 8 * k.length ≤ w → ofLe k < 2 ^ w := by
    intro k hk
    calc ofLe k < 256 ^ k.length := ofLe_lt k
      _ = 2 ^ (8 * k.length) := by rw [pow_mul]; norm_num
      _ ≤ 2 ^ w := Nat.pow_le_pow_right (by norm_num) hk
  apply ofLe_inj hlen
  have hn := congrArg BitVec.toNat hxor
  rwa [BitVec.toNat_ofNat, BitVec.toNat_ofNat, Nat.mod_eq_of_lt (hfit l hl),
    Nat.mod_eq_of_lt (hfit m (by omega))] at hn

/-! ## The stored check value -/

/-- The register as it is stored: least significant byte first. -/
def stored (n : ℕ) (c : BitVec w) : List Byte := leBytes n c.toNat

@[simp] theorem stored_length (n : ℕ) (c : BitVec w) : (stored n c).length = n := leBytes_length _ _

/-- **A message followed by a check value of the register's width drives the
register to zero exactly when the value is the register's own.** -/
theorem run_stored_iff (hp : poly.getLsbD (w - 1) = true) {n : ℕ} (hw : w = 8 * n)
    (c : BitVec w) {l : List Byte} (hl : l.length = n) :
    run poly c l = 0 ↔ l = stored n c := by
  have hzero : run poly c (stored n c) = 0 := by
    have hfit : c.toNat < 256 ^ n := by
      calc c.toNat < 2 ^ w := c.isLt
        _ = 256 ^ n := by rw [hw, pow_mul]; norm_num
    rw [run_eq_shifts poly _ (by rw [stored_length, hw]), stored, ofLe_leBytes_of_lt hfit,
      BitVec.ofNat_toNat, BitVec.setWidth_eq, BitVec.xor_self]
    exact shifts_zero poly _
  constructor
  · intro h
    exact run_short_inj poly hp (by rw [hl, stored_length]) (by omega) (h.trans hzero.symm)
  · rintro rfl
    exact hzero

/-- **Burst detection.** A string that ends in its check value stops doing so when a window of at
most `w` bits inside it is replaced by anything else. -/
theorem run_stored_burst (hp : poly.getLsbD (w - 1) = true) (c : BitVec w)
    {pre x y post : List Byte} (hlen : x.length = y.length) (hx : 8 * x.length ≤ w)
    (hne : x ≠ y) (h : run poly c (pre ++ x ++ post) = 0) :
    run poly c (pre ++ y ++ post) ≠ 0 := by
  intro hy
  apply hne
  rw [run_append, run_append] at h hy
  exact run_short_inj poly hp hlen hx (run_state_inj poly hp post (h.trans hy.symm))

/-! ## The table -/

/-- The low byte of a register and the rest of it. -/
theorem split_low_byte (c : BitVec w) : c = (c &&& 255#w) ^^^ (c &&& ~~~255#w) := by
  apply BitVec.eq_of_getLsbD_eq
  intro i hi
  simp only [BitVec.getLsbD_xor, BitVec.getLsbD_and, BitVec.getLsbD_not, hi, decide_true,
    Bool.true_and]
  cases c.getLsbD i <;> cases (255#w).getLsbD i <;> rfl

theorem testBit_255 (i : ℕ) : (255 : ℕ).testBit i = decide (i < 8) := by
  rw [show (255 : ℕ) = 2 ^ 8 - 1 from rfl, Nat.testBit_two_pow_sub_one]

/-- Eight shifts of a register: those of its low byte, over the rest moved down. -/
theorem shifts_eight (c : BitVec w) :
    shifts poly 8 c = (c >>> 8) ^^^ shifts poly 8 (c &&& 255#w) := by
  have hhigh : shifts poly 8 (c &&& ~~~255#w) = c >>> 8 := by
    rw [shifts_of_low_clear]
    · apply BitVec.eq_of_getLsbD_eq
      intro i _
      simp only [BitVec.getLsbD_ushiftRight, BitVec.getLsbD_and, BitVec.getLsbD_not,
        BitVec.getLsbD_ofNat, testBit_255, show ¬ 8 + i < 8 by omega, decide_false,
        Bool.and_false, Bool.not_false, Bool.and_true]
      by_cases hi : 8 + i < w
      · simp [hi]
      · simp [BitVec.getLsbD_of_ge c (8 + i) (by omega)]
    · intro i hi
      simp only [BitVec.getLsbD_and, BitVec.getLsbD_not, BitVec.getLsbD_ofNat, testBit_255, hi,
        decide_true, Bool.and_true]
      by_cases hw : i < w
      · simp [hw]
      · simp [hw]
  conv_lhs => rw [split_low_byte c]
  rw [shifts_xor, hhigh, BitVec.xor_comm]

/-- **The table step**: the byte step is the register moved down one byte, over the
table's entry for the low byte of the register and the message byte. -/
theorem byte_table (c : BitVec w) (b : Byte) :
    byte poly c b = (c >>> 8) ^^^ shifts poly 8 ((c ^^^ b.setWidth w) &&& 255#w) := by
  have hb : (b.setWidth w : BitVec w) >>> 8 = 0 := by
    apply BitVec.eq_of_getLsbD_eq
    intro i _
    rw [BitVec.getLsbD_ushiftRight, BitVec.getLsbD_setWidth, BitVec.getLsbD_of_ge b _ (by omega)]
    simp
  rw [byte, shifts_eight, BitVec.ushiftRight_xor_distrib, hb, BitVec.ofNat_eq_ofNat,
    BitVec.xor_zero]

end ReflectedCrc

/-
The block bitmap of `gdbus-bitmap.h`: an array of `unsigned long`, one bit per
block of the file system, tested and changed one block at a time.

`bit` is the abstract reading of the array as a set of block numbers, and every
operation has one lemma that says what it does to `bit`. The image file holds the
same array as bytes, so the second half relates `bit` to the byte view of the
words: bit `b` is bit `b % 8` of byte `b / 8` (`bitmap_bytes_getD`), both when the
words are written out and when they are filled from bytes that were read.

The C functions also return early on a null bitmap; every caller modelled here has
checked the allocation, so a bitmap is the array itself.

A block number that is out of range is refused by each of the three functions, so the lemmas of
`pc_set_bit` and `pc_clear_bit` ask for the word that the number falls into, and an allocation
for `total` blocks has it (`word_lt_BITS_TO_LONGS`). `for_blocks` is the loop by which the
drivers mark or clear a range, with one lemma for each of the two operations.
-/
import SysbakAdmin.Lib.LittleEndian
import SysbakAdmin.Lib.ByteStore
import SysbakAdmin.Lib.CInt

set_option autoImplicit false

namespace SysbakAdmin.Bitmap

open LittleEndian ByteStore CInt

/-! ## The code -/

/-- `unsigned long *bitmap`. -/
abbrev bitmap := List (BitVec 64)

/-- `BITS_TO_BYTES`, in the `unsigned long long` of its argument. -/
def BITS_TO_BYTES (bits : ℕ) : ℕ := u64 (bits + 8 - 1) / 8

/-- `BITS_TO_LONGS`. -/
def BITS_TO_LONGS (bits : ℕ) : ℕ := u64 (bits + 64 - 1) / 64

/-- `pc_test_bit`: `-1` out of range, else the bit. -/
def pc_test_bit (nr : ℕ) (bm : bitmap) (total : ℕ) : ℤ :=
  if nr ≥ total then -1
  else ((bm.getD (nr / 64) 0 >>> (nr % 64)) &&& 1#64).toNat

/-- `pc_set_bit`: whether the block is in range, and the array afterwards. -/
def pc_set_bit (nr : ℕ) (bm : bitmap) (total : ℕ) : Bool × bitmap :=
  if nr ≥ total then (false, bm)
  else (true, bm.modify (nr / 64) (· ||| (1#64 <<< (nr % 64))))

/-- `pc_clear_bit`. -/
def pc_clear_bit (nr : ℕ) (bm : bitmap) (total : ℕ) : Bool × bitmap :=
  if nr ≥ total then (false, bm)
  else (true, bm.modify (nr / 64) (· &&& ~~~(1#64 <<< (nr % 64))))

/-- `pc_alloc_bitmap`: `calloc` of whole words, all clear; `calloc` says whether an
allocation of so many bytes succeeds. -/
def pc_alloc_bitmap (calloc : ℕ → Bool) (bits : ℕ) : Option bitmap :=
  if calloc (8 * BITS_TO_LONGS bits) then some (List.replicate (BITS_TO_LONGS bits) 0) else none

/-- A word every byte of which is `value`. -/
def word_of_byte (value : Byte) : BitVec 64 :=
  BitVec.ofNat 64 (ofLe (List.replicate 8 value))

/-- `pc_init_bitmap`: `memset` over the words that `bits` blocks need. -/
def pc_init_bitmap (bm : bitmap) (value : Byte) (bits : ℕ) : bitmap :=
  List.replicate (min bm.length (BITS_TO_LONGS bits)) (word_of_byte value)
    ++ bm.drop (BITS_TO_LONGS bits)

/-- The array as the bytes of its memory, least significant byte of a word first. -/
def bitmap_bytes (bm : bitmap) : List Byte := bm.flatMap fun w => leBytes 8 w.toNat

/-- Words from the bytes of their memory. -/
def bitmap_of_bytes (words : ℕ) (l : List Byte) : bitmap :=
  (List.range words).map fun i => BitVec.ofNat 64 (ofLe (slice l (8 * i) 8))

/-- The array after `data` was read into the start of its memory. -/
def bitmap_load (bm : bitmap) (data : List Byte) : bitmap :=
  bitmap_of_bytes bm.length (overlay 0 (bitmap_bytes bm) 0 data)

/-- `for (i = 0; i < left; i++, block++) op(block, bitmap, total);`, as the scans of the file
systems have it: the block it ends at, and the array. -/
def for_blocks (op : ℕ → bitmap → ℕ → Bool × bitmap) (total : ℕ) :
    ℕ → ℕ → bitmap → ℕ × bitmap
  | 0, block, bm => (block, bm)
  | left + 1, block, bm => for_blocks op total left (block + 1) (op block bm total).2

/-! ## The set of blocks

The array is only read through `bit` from here on, and the functions only through what they do
to it. -/

/-- Whether block `nr` is marked. -/
def bit (bm : bitmap) (nr : ℕ) : Bool := (bm.getD (nr / 64) 0).getLsbD (nr % 64)

/-- The marked blocks below `total`, in order, from block `p` on. -/
def used_from (bm : bitmap) (total p : ℕ) : List ℕ :=
  (List.range' p (total - p)).filter (bit bm)

theorem pc_test_bit_of_lt {nr total : ℕ} (bm : bitmap) (h : nr < total) :
    pc_test_bit nr bm total = if bit bm nr then 1 else 0 := by
  have hword : ((bm.getD (nr / 64) 0 >>> (nr % 64)) &&& 1#64)
      = BitVec.setWidth 64 (BitVec.ofBool (bit bm nr)) := by
    rw [BitVec.and_one_eq_setWidth_ofBool_getLsbD, BitVec.getLsbD_ushiftRight, Nat.add_zero]
    rfl
  rw [pc_test_bit, if_neg (by omega), hword]
  cases bit bm nr <;> rfl

/-- The test as a loop condition: nonzero means marked, below `total`. -/
theorem pc_test_bit_ne_zero {nr total : ℕ} (bm : bitmap) (h : nr < total) :
    pc_test_bit nr bm total ≠ 0 ↔ bit bm nr = true := by
  rw [pc_test_bit_of_lt bm h]
  cases bit bm nr <;> simp

/-- Reading a word after one word was modified. -/
theorem getD_modify (bm : bitmap) (i j : ℕ) (f : BitVec 64 → BitVec 64) (hi : i < bm.length) :
    (bm.modify i f).getD j 0 = if i = j then f (bm.getD j 0) else bm.getD j 0 := by
  simp only [List.getD_eq_getElem?_getD, List.getElem?_modify]
  by_cases h : i = j
  · subst h
    simp [hi]
  · simp [h]

/-- The mask of one bit. -/
theorem one_shiftLeft_getLsbD {k j : ℕ} (hk : k < 64) :
    (1#64 <<< k).getLsbD j = decide (j = k) := by
  rw [BitVec.getLsbD_shiftLeft, BitVec.getLsbD_one]
  by_cases h : j = k
  · simp [h, hk]
  · simp only [h, decide_false, Bool.and_eq_false_iff, decide_eq_false_iff_not]
    by_cases hj : j < k
    · simp [hj]
    · right
      simp
      omega

/-- Two blocks in one word share their bit number only if they are the same. -/
theorem bit_index_inj {a b : ℕ} (h : a / 64 = b / 64) : b % 64 = a % 64 ↔ b = a := by omega

/-- **`pc_set_bit` adds its block.** The word of the block is changed in one bit, and every other
block has another bit or another word. -/
theorem bit_set {nr total : ℕ} (bm : bitmap) (hr : nr < total) (hw : nr / 64 < bm.length)
    (b : ℕ) : bit (pc_set_bit nr bm total).2 b = (decide (b = nr) || bit bm b) := by
  rw [pc_set_bit, if_neg (by omega)]
  unfold bit
  rw [getD_modify _ _ _ _ hw]
  by_cases h : nr / 64 = b / 64
  · rw [if_pos h, BitVec.getLsbD_or, one_shiftLeft_getLsbD (Nat.mod_lt _ (by norm_num)),
      Bool.or_comm]
    simp only [bit_index_inj h]
  · have hne : b ≠ nr := by rintro rfl; exact h rfl
    rw [if_neg h]
    simp [hne]

/-- **`pc_clear_bit` removes its block.** -/
theorem bit_clear {nr total : ℕ} (bm : bitmap) (hr : nr < total) (hw : nr / 64 < bm.length)
    (b : ℕ) : bit (pc_clear_bit nr bm total).2 b = (!decide (b = nr) && bit bm b) := by
  rw [pc_clear_bit, if_neg (by omega)]
  unfold bit
  rw [getD_modify _ _ _ _ hw]
  by_cases h : nr / 64 = b / 64
  · rw [if_pos h, BitVec.getLsbD_and, BitVec.getLsbD_not,
      one_shiftLeft_getLsbD (Nat.mod_lt _ (by norm_num)), Bool.and_comm]
    simp only [bit_index_inj h, Nat.mod_lt b (by norm_num : 0 < 64), decide_true, Bool.true_and]
  · have hne : b ≠ nr := by rintro rfl; exact h rfl
    rw [if_neg h]
    simp [hne]

@[simp] theorem pc_set_bit_length (nr : ℕ) (bm : bitmap) (total : ℕ) :
    (pc_set_bit nr bm total).2.length = bm.length := by
  unfold pc_set_bit; split <;> simp

@[simp] theorem pc_clear_bit_length (nr : ℕ) (bm : bitmap) (total : ℕ) :
    (pc_clear_bit nr bm total).2.length = bm.length := by
  unfold pc_clear_bit; split <;> simp

/-- Out of range, nothing changes. -/
theorem pc_set_bit_of_ge {nr total : ℕ} (bm : bitmap) (h : total ≤ nr) :
    pc_set_bit nr bm total = (false, bm) := if_pos h

theorem pc_clear_bit_of_ge {nr total : ℕ} (bm : bitmap) (h : total ≤ nr) :
    pc_clear_bit nr bm total = (false, bm) := if_pos h

@[simp] theorem for_blocks_fst (op : ℕ → bitmap → ℕ → Bool × bitmap) (total : ℕ) :
    ∀ (left block : ℕ) (bm : bitmap), (for_blocks op total left block bm).1 = block + left := by
  intro left
  induction left with
  | zero => intro block bm; rfl
  | succ left ih =>
      intro block bm
      rw [for_blocks, ih]
      omega

theorem for_blocks_length {op : ℕ → bitmap → ℕ → Bool × bitmap}
    (hop : ∀ nr bm total, (op nr bm total).2.length = bm.length) (total : ℕ) :
    ∀ (left block : ℕ) (bm : bitmap),
      (for_blocks op total left block bm).2.length = bm.length := by
  intro left
  induction left with
  | zero => intro block bm; rfl
  | succ left ih =>
      intro block bm
      rw [for_blocks, ih, hop]

/-- **A run of `pc_set_bit` adds its range**, as far as that lies below `total`. By induction on
the blocks that are left; those from `total` on are refused and change nothing. -/
theorem bit_for_blocks_set {total : ℕ} (b : ℕ) :
    ∀ (left block : ℕ) (bm : bitmap), total ≤ 64 * bm.length →
      bit (for_blocks pc_set_bit total left block bm).2 b
        = (decide (block ≤ b ∧ b < block + left ∧ b < total) || bit bm b) := by
  intro left
  induction left with
  | zero =>
      intro block bm _
      have hnone : ¬ (block ≤ b ∧ b < block + 0 ∧ b < total) := by omega
      rw [for_blocks, decide_eq_false hnone, Bool.false_or]
  | succ left ih =>
      intro block bm hlen
      rw [for_blocks, ih _ _ (by rwa [pc_set_bit_length])]
      rcases Nat.lt_or_ge block total with hlt | hge
      · rw [bit_set bm hlt (by omega), ← Bool.or_assoc, ← Bool.decide_or]
        congr 1
        exact decide_eq_decide.mpr (by omega)
      · rw [pc_set_bit_of_ge bm hge]
        congr 1
        exact decide_eq_decide.mpr (by omega)

/-- **A run of `pc_clear_bit` removes its range.** -/
theorem bit_for_blocks_clear {total : ℕ} (b : ℕ) :
    ∀ (left block : ℕ) (bm : bitmap), total ≤ 64 * bm.length →
      bit (for_blocks pc_clear_bit total left block bm).2 b
        = (!decide (block ≤ b ∧ b < block + left ∧ b < total) && bit bm b) := by
  intro left
  induction left with
  | zero =>
      intro block bm _
      have hnone : ¬ (block ≤ b ∧ b < block + 0 ∧ b < total) := by omega
      rw [for_blocks, decide_eq_false hnone, Bool.not_false, Bool.true_and]
  | succ left ih =>
      intro block bm hlen
      rw [for_blocks, ih _ _ (by rwa [pc_clear_bit_length])]
      rcases Nat.lt_or_ge block total with hlt | hge
      · rw [bit_clear bm hlt (by omega), ← Bool.and_assoc, ← Bool.not_or, ← Bool.decide_or]
        congr 2
        exact decide_eq_decide.mpr (by omega)
      · rw [pc_clear_bit_of_ge bm hge]
        congr 2
        exact decide_eq_decide.mpr (by omega)

/-- An allocated bitmap has a word for every block, unless the rounding wraps. -/
theorem word_lt_BITS_TO_LONGS {nr total : ℕ} (htot : total + 63 < 2 ^ 64) (h : nr < total) :
    nr / 64 < BITS_TO_LONGS total := by
  rw [BITS_TO_LONGS, u64_of_lt (by omega)]
  omega

theorem BITS_TO_BYTES_le {total : ℕ} (htot : total + 63 < 2 ^ 64) :
    BITS_TO_BYTES total ≤ 8 * BITS_TO_LONGS total := by
  rw [BITS_TO_BYTES, BITS_TO_LONGS, u64_of_lt (by omega), u64_of_lt (by omega)]
  omega

theorem byte_lt_BITS_TO_BYTES {nr total : ℕ} (htot : total + 7 < 2 ^ 64) (h : nr < total) :
    nr / 8 < BITS_TO_BYTES total := by
  rw [BITS_TO_BYTES, u64_of_lt (by omega)]
  omega

@[simp] theorem pc_init_bitmap_length (bm : bitmap) (value : Byte) (bits : ℕ) :
    (pc_init_bitmap bm value bits).length = bm.length := by
  simp only [pc_init_bitmap, List.length_append, List.length_replicate, List.length_drop]
  omega

/-- Every byte of a word of `memset` is the value. -/
theorem word_of_byte_getLsbD (value : Byte) {j : ℕ} (hj : j < 64) :
    (word_of_byte value).getLsbD j = value.getLsbD (j % 8) := by
  rw [word_of_byte, BitVec.getLsbD_ofNat, ofLe_testBit, List.getD_replicate _ (by omega)]
  simp [hj]

/-- **`pc_init_bitmap` marks the blocks of its words by the bits of the value**, and leaves the
words behind them. A byte is repeated eight times in a word, so the bit of a block depends on its
number modulo 8 alone. -/
theorem bit_init {bm : bitmap} {value : Byte} {bits : ℕ} (hlen : BITS_TO_LONGS bits ≤ bm.length)
    (b : ℕ) : bit (pc_init_bitmap bm value bits) b
      = if b / 64 < BITS_TO_LONGS bits then value.getLsbD (b % 8) else bit bm b := by
  unfold bit pc_init_bitmap
  rw [Nat.min_eq_right hlen]
  by_cases hb : b / 64 < BITS_TO_LONGS bits
  · rw [if_pos hb, List.getD_append _ _ _ _ (by simpa using hb), List.getD_replicate _ hb,
      word_of_byte_getLsbD value (Nat.mod_lt _ (by norm_num)),
      Nat.mod_mod_of_dvd b (by norm_num)]
  · rw [if_neg hb, List.getD_append_right _ _ _ _ (by simpa using hb), List.length_replicate]
    simp only [List.getD_eq_getElem?_getD, List.getElem?_drop]
    rw [Nat.add_sub_cancel' (by omega)]

/-- `memset` to `0xFF` marks every block of the array. -/
theorem bit_init_ones {bm : bitmap} {bits b : ℕ} (hlen : bm.length = BITS_TO_LONGS bits)
    (hb : b / 64 < bm.length) : bit (pc_init_bitmap bm 0xFF bits) b = true := by
  have hones : ∀ j < 8, (0xFF : Byte).getLsbD j = true := by decide
  rw [bit_init hlen.ge, if_pos (by omega)]
  exact hones _ (Nat.mod_lt _ (by norm_num))

/-! ## The bytes of the array -/

@[simp] theorem bitmap_bytes_length (bm : bitmap) : (bitmap_bytes bm).length = 8 * bm.length := by
  induction bm with
  | nil => rfl
  | cons w bm ih =>
      rw [bitmap_bytes, List.flatMap_cons, List.length_append, leBytes_length, List.length_cons,
        ← bitmap_bytes, ih]
      ring

/-- Byte `8 * i + k` of the array is byte `k` of word `i`. -/
theorem bitmap_bytes_getD_word (bm : bitmap) (i : ℕ) {k : ℕ} (hk : k < 8) :
    (bitmap_bytes bm).getD (8 * i + k) 0 = (leBytes 8 (bm.getD i 0).toNat).getD k 0 := by
  induction bm generalizing i with
  | nil =>
      have hz : leBytes 8 (BitVec.toNat (0 : BitVec 64)) = List.replicate 8 0 := by decide
      simp only [bitmap_bytes, List.flatMap_nil, List.getD_nil]
      rw [hz, List.getD_replicate _ hk]
  | cons w bm ih =>
      rw [bitmap_bytes, List.flatMap_cons, ← bitmap_bytes]
      cases i with
      | zero => rw [List.getD_append _ _ _ _ (by simp; omega)]; simp
      | succ i =>
          rw [List.getD_append_right _ _ _ _ (by simp; omega), leBytes_length,
            show 8 * (i + 1) + k - 8 = 8 * i + k by omega, ih i, List.getD_cons_succ]

/-- **The byte view**: bit `b` is bit `b % 8` of byte `b / 8`. A word is stored with its least
byte first, so the eight blocks of a byte follow those of the one before. -/
theorem bitmap_bytes_getD (bm : bitmap) (b : ℕ) :
    ((bitmap_bytes bm).getD (b / 8) 0).getLsbD (b % 8) = bit bm b := by
  have hidx : b / 8 = 8 * (b / 64) + b / 8 % 8 := by omega
  rw [hidx, bitmap_bytes_getD_word bm _ (Nat.mod_lt _ (by norm_num)),
    leBytes_testBit _ (Nat.mod_lt _ (by norm_num)) (Nat.mod_lt _ (by norm_num)),
    show 8 * (b / 8 % 8) + b % 8 = b % 64 by omega]
  rfl

/-- The same view when the words are filled from bytes. -/
theorem bit_of_bytes (words : ℕ) {l : List Byte} {b : ℕ} (hb : b / 64 < words) :
    bit (bitmap_of_bytes words l) b = (l.getD (b / 8) 0).getLsbD (b % 8) := by
  have hword : (bitmap_of_bytes words l).getD (b / 64) 0
      = BitVec.ofNat 64 (ofLe (slice l (8 * (b / 64)) 8)) := by
    rw [List.getD_eq_getElem _ _ (by simpa [bitmap_of_bytes] using hb)]
    simp [bitmap_of_bytes]
  unfold bit
  rw [hword, BitVec.getLsbD_ofNat, ofLe_testBit, slice_getD 0 (by omega),
    show 8 * (b / 64) + b % 64 / 8 = b / 8 by omega, show b % 64 % 8 = b % 8 by omega]
  simp [Nat.mod_lt b (by norm_num : 0 < 64)]

@[simp] theorem bitmap_load_length (bm : bitmap) (data : List Byte) :
    (bitmap_load bm data).length = bm.length := by simp [bitmap_load, bitmap_of_bytes]

/-- After a load, the blocks whose byte was read are marked as the bytes say. -/
theorem bit_load {bm : bitmap} {data : List Byte} {b : ℕ} (hw : b / 64 < bm.length)
    (hb : b / 8 < data.length) :
    bit (bitmap_load bm data) b = (data.getD (b / 8) 0).getLsbD (b % 8) := by
  rw [bitmap_load, bit_of_bytes _ hw, overlay_getD, if_pos (by omega), Nat.sub_zero]

/-! ## The marked blocks in order -/

theorem mem_used_from {bm : bitmap} {total p b : ℕ} :
    b ∈ used_from bm total p ↔ p ≤ b ∧ b < total ∧ bit bm b = true := by
  rw [used_from, List.mem_filter, List.mem_range'_1, ← and_assoc]
  refine and_congr_left fun _ => ?_
  omega

theorem used_from_nodup (bm : bitmap) (total p : ℕ) : (used_from bm total p).Nodup :=
  (List.nodup_range').filter _

theorem used_from_of_ge {bm : bitmap} {total p : ℕ} (h : total ≤ p) :
    used_from bm total p = [] := by
  simp [used_from, Nat.sub_eq_zero_of_le h]

/-- A marked block leads the list from its own number on. -/
theorem used_from_of_bit {bm : bitmap} {total p : ℕ} (h : p < total) (hb : bit bm p = true) :
    used_from bm total p = p :: used_from bm total (p + 1) := by
  unfold used_from
  rw [show total - p = (total - (p + 1)) + 1 by omega, List.range'_succ,
    List.filter_cons_of_pos hb]

/-- An unmarked block is skipped. -/
theorem used_from_of_not_bit {bm : bitmap} {total p : ℕ} (h : p < total)
    (hb : bit bm p = false) : used_from bm total p = used_from bm total (p + 1) := by
  unfold used_from
  rw [show total - p = (total - (p + 1)) + 1 by omega, List.range'_succ,
    List.filter_cons_of_neg (by simp [hb])]

/-- Bitmaps that agree below `total` have the same marked blocks. -/
theorem used_from_congr {bm bm' : bitmap} {total : ℕ} (h : ∀ b < total, bit bm b = bit bm' b)
    (p : ℕ) : used_from bm total p = used_from bm' total p := by
  unfold used_from
  apply List.filter_congr
  intro b hb
  apply h
  have := List.mem_range'_1.mp hb
  omega

end SysbakAdmin.Bitmap

/-
The free extents of an XFS file system, as `gdbus-xfsfs.c` takes them out of the bitmap.

`addtohist` turns an allocation group and a block of it into a block of the file system.
Group and block are 32 bits wide, and so is the arithmetic: the sum is widened to
`unsigned long long` when it has wrapped already. `set_bitmap` takes the length of the
extent as an `int`, which from `2 ^ 31` on is negative.

The error is of a kind for each of the two. A start beyond `2 ^ 32` wraps and the extent is
taken out of the wrong group; a length that is negative as an `int` makes the loop run to the
end of the file system. `bit_addtohist` says what is cleared in all cases, by the wrapped
start, and `addtohist_exact_iff` when that is the extent.

What is cleared is right for every group below `2 ^ 32` blocks and for every extent shorter than
`2 ^ 31`; both bounds are sharp, up to extents that end with the file system.
-/
import SysbakAdmin.Bitmap

set_option autoImplicit false

namespace SysbakAdmin.Xfs

open CInt Bitmap

/-! ## The code -/

section Code

variable (total_block : ℕ)

/-- The loop of `set_bitmap`, over `left` blocks from `block` on. -/
def set_bitmap_loop : ℕ → ℕ → bitmap → bitmap
  | 0, _, bm => bm
  | left + 1, block, bm => set_bitmap_loop left (block + 1) (pc_clear_bit block bm total_block).2

/-- `set_bitmap`: the bound `start + count` is a `uint64_t`, and `count` an `int`. -/
def set_bitmap (bm : bitmap) (start : ℕ) (count : ℤ) : bitmap :=
  set_bitmap_loop total_block (u64 (start + u64OfInt count) - start) start bm

/-- `addtohist`, for an extent of `len` blocks from block `agbno` of group `agno`. -/
def addtohist (sb_agblocks : BitVec 32) (bm : bitmap) (agno agbno len : BitVec 32) : bitmap :=
  let start_block := u32 (u32 (agno.toNat * sb_agblocks.toNat) + agbno.toNat)
  set_bitmap total_block bm start_block (i32 len.toNat)

end Code

/-! ## What is cleared -/

/-- The loop is a run of `pc_clear_bit`. -/
theorem set_bitmap_loop_eq (total_block left block : ℕ) (bm : bitmap) :
    set_bitmap_loop total_block left block bm
      = (for_blocks pc_clear_bit total_block left block bm).2 := by
  induction left generalizing block bm with
  | zero => rfl
  | succ left ih => rw [set_bitmap_loop, for_blocks, ih]

/-- The loop clears its range, as far as that lies in the file system. -/
theorem bit_set_bitmap_loop {total_block : ℕ} (b left block : ℕ) (bm : bitmap)
    (hlen : total_block ≤ 64 * bm.length) :
    bit (set_bitmap_loop total_block left block bm) b
      = (!decide (block ≤ b ∧ b < block + left ∧ b < total_block) && bit bm b) := by
  rw [set_bitmap_loop_eq]
  exact bit_for_blocks_clear b left block bm hlen

/-- The end of the range: with a negative count it is behind the start, or at the other
end of 64 bits. -/
def range_end (start len : ℕ) : ℕ :=
  if len < 2 ^ 31 then start + len
  else if start + len < 2 ^ 32 then 2 ^ 64 - 2 ^ 32 + (start + len) else start

theorem bound_eq {start len : ℕ} (hs : start < 2 ^ 32) (hl : len < 2 ^ 32) :
    u64 (start + u64OfInt (i32 len)) - start = range_end start len - start := by
  have hlen : u32 len = len := u32_of_lt hl
  rw [range_end, i32, hlen]
  split_ifs with h31 hwrap
  · rw [u64OfInt_natCast (by omega), u64_of_lt (by omega)]
  · unfold u64 u64OfInt
    omega
  · unfold u64 u64OfInt
    omega

section Extent

variable {sb_agblocks agno agbno len : BitVec 32} {total_block : ℕ}

/-- The block of the file system at which an extent starts. -/
def first_block (sb_agblocks agno agbno : BitVec 32) : ℕ :=
  agno.toNat * sb_agblocks.toNat + agbno.toNat

/-- **What `addtohist` clears**, by its wrapped start. The range ends at the file system's end at
the latest, and for a length that is negative as an `int` it ends there. -/
theorem bit_addtohist {bm : bitmap} (hlen : total_block ≤ 64 * bm.length) (b : ℕ) :
    bit (addtohist total_block sb_agblocks bm agno agbno len) b
      = (!decide (u32 (first_block sb_agblocks agno agbno) ≤ b
          ∧ b < range_end (u32 (first_block sb_agblocks agno agbno)) len.toNat
          ∧ b < total_block) && bit bm b) := by
  have hstart : u32 (u32 (agno.toNat * sb_agblocks.toNat) + agbno.toNat)
      = u32 (first_block sb_agblocks agno agbno) := by
    unfold u32 first_block
    omega
  have hs := u32_lt (first_block sb_agblocks agno agbno)
  rw [addtohist, hstart, set_bitmap, bound_eq hs len.isLt, bit_set_bitmap_loop b _ _ bm hlen]
  congr 2
  exact decide_eq_decide.mpr (by omega)

/-- The blocks of the extent are cleared, and no other bit changes. The extent is the one the
group and the block name without a wrap. -/
def clears_extent (sb_agblocks agno agbno len : BitVec 32) (total_block : ℕ) : Prop :=
  ∀ bm : bitmap, total_block ≤ 64 * bm.length → ∀ b,
    bit (addtohist total_block sb_agblocks bm agno agbno len) b
      = (!decide (first_block sb_agblocks agno agbno ≤ b
          ∧ b < first_block sb_agblocks agno agbno + len.toNat) && bit bm b)

/-- A bitmap with every block marked. -/
def full_bitmap (total_block : ℕ) : bitmap :=
  List.replicate (total_block / 64 + 1) (BitVec.allOnes 64)

theorem le_full_bitmap (total_block : ℕ) : total_block ≤ 64 * (full_bitmap total_block).length := by
  rw [full_bitmap, List.length_replicate]
  omega

theorem bit_full_bitmap {b : ℕ} (hb : b < total_block) :
    bit (full_bitmap total_block) b = true := by
  rw [bit, full_bitmap, List.getD_replicate _ (by omega), BitVec.getLsbD_allOnes]
  exact decide_eq_true (Nat.mod_lt _ (by omega))

/-- On a bitmap with every block marked, the two ranges have to be the same. -/
theorem clears_extent_iff (hin : first_block sb_agblocks agno agbno + len.toNat ≤ total_block) :
    clears_extent sb_agblocks agno agbno len total_block ↔
      ∀ b < total_block, (u32 (first_block sb_agblocks agno agbno) ≤ b
          ∧ b < range_end (u32 (first_block sb_agblocks agno agbno)) len.toNat)
        ↔ (first_block sb_agblocks agno agbno ≤ b
          ∧ b < first_block sb_agblocks agno agbno + len.toNat) := by
  constructor
  · intro h b hb
    have hfull := h (full_bitmap total_block) (le_full_bitmap _) b
    rw [bit_addtohist (le_full_bitmap _), bit_full_bitmap hb, Bool.and_true, Bool.and_true,
      Bool.not_inj_iff, decide_eq_decide] at hfull
    rw [← hfull]
    exact ⟨fun h => ⟨h.1, h.2, hb⟩, fun h => ⟨h.1, h.2.1⟩⟩
  · intro h bm hlen b
    rw [bit_addtohist hlen]
    congr 2
    refine decide_eq_decide.mpr ⟨fun hb => (h b hb.2.2).mp ⟨hb.1, hb.2.1⟩, fun hb => ?_⟩
    obtain ⟨h1, h2⟩ := (h b (by omega)).mpr hb
    exact ⟨h1, h2, by omega⟩

/-- **When `addtohist` is exact**, for an extent inside the file system: its start fits 32 bits
and its length an `int`. The range of a longer one runs on to the end of the file system, and is
right where the extent ends there. With a wrapped start another extent of the same length is
cleared, which is this one only if both are empty. -/
theorem addtohist_exact_iff (htot : total_block < 2 ^ 64)
    (hin : first_block sb_agblocks agno agbno + len.toNat ≤ total_block) :
    clears_extent sb_agblocks agno agbno len total_block ↔
      len.toNat = 0 ∨ first_block sb_agblocks agno agbno < 2 ^ 32 ∧ (len.toNat < 2 ^ 31 ∨
        first_block sb_agblocks agno agbno + len.toNat = total_block ∧ total_block < 2 ^ 32) := by
  rw [clears_extent_iff hin]
  set x := first_block sb_agblocks agno agbno with hx
  have hl : len.toNat < 2 ^ 32 := len.isLt
  have hs : u32 x ≤ x := Nat.mod_le _ _
  have hs32 := u32_lt x
  constructor
  · intro h
    by_contra hne
    rw [not_or, not_and_or, not_or] at hne
    obtain ⟨hpos, hbad⟩ := hne
    -- the first block of the extent is cleared, so the range is not empty
    obtain ⟨hfirst, hend⟩ := (h x (by omega)).mpr ⟨le_rfl, by omega⟩
    -- so its start is the extent's
    have hstart := (h (u32 x) (by omega)).mp ⟨le_rfl, by omega⟩
    have hx32 : u32 x = x := by omega
    rw [hx32] at h hend
    rcases hbad with hbad | ⟨hlong, hshort⟩
    · omega
    · -- a long extent takes the block behind it along
      rw [range_end, if_neg hlong] at hend h
      split_ifs at hend with hwrap
      · rw [if_pos hwrap] at h
        have hbehind := (h (x + len.toNat) (by omega)).mp ⟨by omega, by omega⟩
        omega
      · omega
  · rintro (hzero | ⟨hx32, hlen⟩) b hb
    · rw [hzero, range_end, if_pos (by omega)]
      omega
    · rw [u32_of_lt hx32, range_end]
      split_ifs <;> omega

end Extent

/-- The extent of one block at the start of group 15, of groups of `2 ^ 28` blocks. -/
theorem addtohist_exact_group_15 :
    clears_extent 268435456#32 15 0 1 (16 * 2 ^ 28) :=
  (addtohist_exact_iff (by decide) (by decide)).mpr (by decide)

/-- **In the next group, the start wraps**: block `0` is cleared, and block `2 ^ 32` is not. Group
16 of groups of `2 ^ 28` blocks starts at `2 ^ 32`. -/
theorem addtohist_wraps_group_16 :
    bit (addtohist (17 * 2 ^ 28) 268435456#32 (full_bitmap (17 * 2 ^ 28)) 16 0 1) 0 = false ∧
    bit (addtohist (17 * 2 ^ 28) 268435456#32 (full_bitmap (17 * 2 ^ 28)) 16 0 1) (2 ^ 32) = true ∧
    ¬ clears_extent 268435456#32 16 0 1 (17 * 2 ^ 28) := by
  have hkept : bit (addtohist (17 * 2 ^ 28) 268435456#32 (full_bitmap (17 * 2 ^ 28)) 16 0 1) (2 ^ 32)
      = true := by
    rw [bit_addtohist (le_full_bitmap _), bit_full_bitmap (by decide), Bool.and_true,
      Bool.not_eq_true', decide_eq_false_iff_not]
    decide
  refine ⟨?_, hkept, fun h => ?_⟩
  · rw [bit_addtohist (le_full_bitmap _), decide_eq_true (by decide)]
    rfl
  · rw [h _ (le_full_bitmap _) _, decide_eq_true (by decide)] at hkept
    cases hkept

end SysbakAdmin.Xfs

/-
Two computations on block counts whose variables are narrower than the counts.

`convert_blocks_to_bytes` takes its count as a `uint` and multiplies it by the block
size before it widens. It is exact for as long as the product fits 32 bits, and for
that long it is additive; the copy loops stay below, the space check does not.

`update_used_blocks_count` has a `uint` for its loop variable and a 64-bit bound. It
ends exactly when the bound fits 32 bits, and then it counts what `get_blocks_used`
counts on the other side.

Both answers are about a border, and both sides of it are proved. Above it the first
computation is wrong by a multiple of `2 ^ 32`, whatever the sizes; the second does not end
at all, since a counter of 32 bits never gets past the bound. The loop is given fuel for
that reason: no amount of it is enough.
-/
import SysbakAdmin.PtfRun
import Mathlib.Data.Nat.Factorization.Basic

set_option autoImplicit false

namespace SysbakAdmin.Counts

open CInt CMemory Bitmap Share Restore ReaderLoops ImageReader PtfRun

/-! ## Blocks to bytes -/

/-- The multiples of `g` that `n` blocks from block `o` on pass. -/
def group_ends (o n g : ℕ) : Finset ℕ := (Finset.Ioc o (o + n)).filter (g ∣ ·)

/-- The bytes of `n` blocks from block `o` on, with the checksum of each group they end. -/
def exact_bytes (o n bs g m : ℕ) : ℕ := n * bs + (group_ends o n g).card * m

/-- Counting multiples is telescoping the quotient. -/
theorem group_ends_card (o n g : ℕ) : (group_ends o n g).card = (o + n) / g - o / g := by
  have hsplit : (Finset.Ioc 0 (o + n)).filter (g ∣ ·)
      = (Finset.Ioc 0 o).filter (g ∣ ·) ∪ group_ends o n g := by
    rw [group_ends, ← Finset.filter_union, Finset.Ioc_union_Ioc_eq_Ioc (by omega) (by omega)]
  have hdisj : Disjoint ((Finset.Ioc 0 o).filter (g ∣ ·)) (group_ends o n g) := by
    refine Finset.disjoint_filter_filter (Finset.disjoint_left.mpr fun x hx hx' => ?_)
    rw [Finset.mem_Ioc] at hx hx'
    omega
  have hcard := congrArg Finset.card hsplit
  rw [Finset.card_union_of_disjoint hdisj, Nat.Ioc_filter_dvd_card_eq_div,
    Nat.Ioc_filter_dvd_card_eq_div] at hcard
  omega

theorem group_ends_zero (o n : ℕ) : (group_ends o n 0).card = 0 := by
  rw [group_ends_card, Nat.div_zero, Nat.div_zero]

/-- No more groups end than there are blocks. -/
theorem group_ends_card_le (o n g : ℕ) : (group_ends o n g).card ≤ n := by
  refine (Finset.card_filter_le _ _).trans ?_
  rw [Nat.card_Ioc]
  omega

/-- The ends of two adjacent ranges. -/
theorem group_ends_add (o n₁ n₂ g : ℕ) : (group_ends o (n₁ + n₂) g).card
    = (group_ends o n₁ g).card + (group_ends (o + n₁) n₂ g).card := by
  have h₁ : o / g ≤ (o + n₁) / g := Nat.div_le_div_right (by omega)
  have h₂ : (o + n₁) / g ≤ (o + n₁ + n₂) / g := Nat.div_le_div_right (by omega)
  rw [group_ends_card, group_ends_card, group_ends_card, ← Nat.add_assoc]
  omega

/-- The function in terms of its narrowed count. -/
theorem convert_blocks_to_bytes_value {o n : ℕ} (bs g m : ℕ) (ho : o + n < 2 ^ 64) :
    convert_blocks_to_bytes o n bs g m
      = u64 (u32 (n * bs) + (group_ends o (u32 n) g).card * m) := by
  have hn : u32 n ≤ n := Nat.mod_le _ _
  have hproduct : u32 (u32 n * bs) = u32 (n * bs) := by
    rw [u32, u32, u32, Nat.mod_mul_mod]
  have hbytes := u32_lt (n * bs)
  rcases Nat.eq_zero_or_pos g with rfl | hg
  · simp only [convert_blocks_to_bytes, ne_eq, not_true_eq_false, if_false, group_ends_zero,
      Nat.zero_mul, Nat.add_zero, hproduct]
    exact (u64_of_lt (by omega)).symm
  · have hle : o / g ≤ (o + u32 n) / g := Nat.div_le_div_right (by omega)
    have hfloor : (o + u32 n) / g ≤ o + u32 n := Nat.div_le_self _ _
    have hnewer : u64 ((o + u32 n) / g + 2 ^ 64 - o / g) = (o + u32 n) / g - o / g := by
      generalize (o + u32 n) / g = total_cs, o / g = copied_cs at hle hfloor
      rw [u64, show total_cs + 2 ^ 64 - copied_cs = (total_cs - copied_cs) + 2 ^ 64 by omega,
        Nat.add_mod_right, Nat.mod_eq_of_lt (by omega)]
    simp only [convert_blocks_to_bytes, get_checksum_count, ne_eq, show ¬ g = 0 by omega,
      not_false_eq_true, if_true, if_false, u64_of_lt (show o + u32 n < 2 ^ 64 by omega), hnewer,
      hproduct, group_ends_card]

/-- When the conversion of `n` blocks is exact. -/
def count_fits (n bs g m : ℕ) : Prop := n * bs < 2 ^ 32 ∧ (g = 0 ∨ m = 0 ∨ n < 2 ^ 32)

instance (n bs g m : ℕ) : Decidable (count_fits n bs g m) := inferInstanceAs (Decidable (_ ∧ _))

/-- A part of a count that fits fits. -/
theorem count_fits.mono {n n' bs g m : ℕ} (h : count_fits n bs g m) (hle : n' ≤ n) :
    count_fits n' bs g m := by
  obtain ⟨hbytes, hgroups⟩ := h
  have := Nat.mul_le_mul_right bs hle
  exact ⟨by omega, by omega⟩

theorem convert_blocks_to_bytes_exact {o n bs g m : ℕ} (hm : m < 2 ^ 32) (ho : o + n < 2 ^ 64)
    (h : count_fits n bs g m) : convert_blocks_to_bytes o n bs g m = exact_bytes o n bs g m := by
  obtain ⟨hbytes, hgroups⟩ := h
  rw [convert_blocks_to_bytes_value bs g m ho, exact_bytes, u32_of_lt hbytes]
  rcases hgroups with rfl | rfl | hn
  · rw [group_ends_zero, group_ends_zero, Nat.zero_mul, Nat.add_zero]
    exact u64_of_lt (by omega)
  · rw [Nat.mul_zero, Nat.mul_zero, Nat.add_zero]
    exact u64_of_lt (by omega)
  · rw [u32_of_lt hn]
    have hcard := Nat.mul_le_mul (group_ends_card_le o n g) (show m ≤ 2 ^ 32 - 1 by omega)
    exact u64_of_lt (by omega)

/-- A count that does not fit is not converted exactly. -/
theorem count_fits_of_exact {o n bs g m : ℕ} (hg : g < 2 ^ 32) (ho : o + n < 2 ^ 64)
    (h : convert_blocks_to_bytes o n bs g m = exact_bytes o n bs g m) : count_fits n bs g m := by
  rw [convert_blocks_to_bytes_value bs g m ho, exact_bytes] at h
  have hn : u32 n ≤ n := Nat.mod_le _ _
  have hsplit : (group_ends o n g).card
      = (group_ends o (u32 n) g).card + (group_ends (o + u32 n) (n - u32 n) g).card := by
    rw [← group_ends_add, Nat.add_sub_cancel' hn]
  rw [hsplit, Nat.add_mul] at h
  -- neither narrowing can add anything
  have hbytes : u32 (n * bs) ≤ n * bs := Nat.mod_le _ _
  have hwhole : u64 (u32 (n * bs) + (group_ends o (u32 n) g).card * m)
      ≤ u32 (n * bs) + (group_ends o (u32 n) g).card * m := Nat.mod_le _ _
  have hlost : (group_ends (o + u32 n) (n - u32 n) g).card * m = 0 := by omega
  refine ⟨by have := u32_lt (n * bs); omega, ?_⟩
  rcases Nat.mul_eq_zero.mp hlost with hends | hm
  · -- `2 ^ 32` blocks in a row end a group
    by_contra hnot
    have hlong : 2 ^ 32 ≤ n - u32 n := by
      unfold u32 at hn ⊢
      omega
    have hstep : (o + u32 n) / g + 1 ≤ (o + u32 n + (n - u32 n)) / g := by
      rw [← Nat.add_div_right _ (show 0 < g by omega)]
      exact Nat.div_le_div_right (by omega)
    rw [group_ends_card] at hends
    omega
  · exact Or.inr (Or.inl hm)

/-- **`convert_blocks_to_bytes` is exact and additive exactly below 32 bits.** The offset and the
count are of one file system, so their sum is a block number. Above 32 bits the product of blocks
and size has lost a multiple of `2 ^ 32`, which no sum of parts gives back. -/
theorem convert_blocks_to_bytes_iff {o n bs g m : ℕ} (hg : g < 2 ^ 32) (hm : m < 2 ^ 32)
    (ho : o + n < 2 ^ 64) :
    (convert_blocks_to_bytes o n bs g m = exact_bytes o n bs g m ∧
      ∀ n₁ n₂, n₁ + n₂ = n → convert_blocks_to_bytes o n bs g m
        = convert_blocks_to_bytes o n₁ bs g m + convert_blocks_to_bytes (o + n₁) n₂ bs g m) ↔
    n * bs < 2 ^ 32 ∧ (g = 0 ∨ m = 0 ∨ n < 2 ^ 32) := by
  refine ⟨fun h => count_fits_of_exact hg ho h.1, fun h => ?_⟩
  have hexact : convert_blocks_to_bytes o n bs g m = _ := convert_blocks_to_bytes_exact hm ho h
  refine ⟨hexact, fun n₁ n₂ hsum => ?_⟩
  subst hsum
  rw [hexact, convert_blocks_to_bytes_exact hm (by omega) (count_fits.mono h (by omega)),
    convert_blocks_to_bytes_exact hm (by omega) (count_fits.mono h (by omega)), exact_bytes,
    group_ends_add, exact_bytes, exact_bytes]
  ring

/-- A chunk of a copy loop, at an offset. -/
theorem convert_blocks_to_bytes_chunk :
    (convert_blocks_to_bytes 1000 256 4096 256 4 = exact_bytes 1000 256 4096 256 4 ∧
      ∀ n₁ n₂, n₁ + n₂ = 256 → convert_blocks_to_bytes 1000 256 4096 256 4
        = convert_blocks_to_bytes 1000 n₁ 4096 256 4
          + convert_blocks_to_bytes (1000 + n₁) n₂ 4096 256 4) ↔
    256 * 4096 < 2 ^ 32 ∧ (256 = 0 ∨ 4 = 0 ∨ 256 < 2 ^ 32) :=
  convert_blocks_to_bytes_iff (by omega) (by omega) (by omega)

/-- The used blocks of a file system of 4 GiB and more: nothing but the checksums is left. -/
theorem convert_blocks_to_bytes_wraps :
    convert_blocks_to_bytes 0 (2 ^ 20) 4096 256 4 = 16384 ∧
      exact_bytes 0 (2 ^ 20) 4096 256 4 = 2 ^ 32 + 16384 := by
  rw [exact_bytes, group_ends_card]
  decide

/-! ## The used blocks

The loop has no bound of its own, so the model gives it fuel, and the theorem is about every
amount of it. -/

/-- The marked blocks as a set. -/
theorem used_from_length (bm : bitmap) (total : ℕ) :
    (used_from bm total 0).length = ((Finset.range total).filter (bit bm · = true)).card := by
  rw [used_from, Nat.sub_zero, ← List.range_eq_range', ← List.countP_eq_length_filter,
    Finset.card_def, Finset.filter_val, ← Multiset.countP_eq_card_filter, Finset.range_val,
    Multiset.range, Multiset.coe_countP]
  simp

/-- **From `2 ^ 32` blocks on the counter never gets there.** It wraps from `2 ^ 32 - 1` to 0,
below the bound again. -/
theorem update_used_blocks_loop_diverges {total : ℕ} (htot : 2 ^ 32 ≤ total) (bm : bitmap) :
    ∀ fuel i used, i < 2 ^ 32 → update_used_blocks_loop total bm fuel i used
      = .error .diverged := by
  intro fuel
  induction fuel with
  | zero => intro i used _; rfl
  | succ fuel ih =>
      intro i used hi
      rw [update_used_blocks_loop, if_pos (by omega)]
      exact ih _ _ (u32_lt _)

/-- **`update_used_blocks_count` ends exactly below `2 ^ 32` blocks**, and then stores the number
of marked blocks, which is what `get_blocks_used` computes. Below the bound both functions are the
number of marked blocks, each by its own loop. -/
theorem update_used_blocks_count_iff (fs_info : file_system_info) (bm : bitmap) :
    ((∃ fuel used, update_used_blocks_loop fs_info.totalblock.toNat bm fuel 0 0 = .ok used) ∧
      ∃ fs_info', update_used_blocks_count fs_info bm = .ok fs_info' ∧
        fs_info'.used_bitmap.toNat
          = ((Finset.range fs_info.totalblock.toNat).filter (bit bm · = true)).card ∧
        fs_info'.used_bitmap.toNat
          = get_blocks_used fs_info.totalblock.toNat bm fs_info.usedblocks.toNat) ↔
    fs_info.totalblock.toNat < 2 ^ 32 := by
  constructor
  · rintro ⟨⟨fuel, used, h⟩, -⟩
    exact update_used_blocks_loop_ok fuel 0 0 used (by norm_num) h
  · intro htot
    have hle : used_count fs_info bm ≤ fs_info.totalblock.toNat := by
      rw [used_count, marked, used_from_length]
      exact (Finset.card_filter_le _ _).trans (Finset.card_range _).le
    have hval : (BitVec.ofNat 64 (used_count fs_info bm)).toNat = used_count fs_info bm := by
      rw [BitVec.toNat_ofNat, Nat.mod_eq_of_lt (by omega)]
    refine ⟨⟨2 ^ 32, _, update_used_blocks_loop_eq htot bm _ _ 0 0 (Nat.zero_add _) htot⟩, _,
      update_used_blocks_count_eq htot bm, ?_, ?_⟩
    · rw [hval, used_count, marked, used_from_length]
    · rw [hval, get_blocks_used_eq]

/-- An ext4 file system of 16 TiB: 4096 bytes a block, `2 ^ 32` blocks. -/
theorem update_used_blocks_count_16TiB :
    update_used_blocks_count { init_file_system_info with
      totalblock := 4294967296#64, block_size := 4096 } (RoundTrip.fresh_bitmap (2 ^ 32))
        = .error .diverged := by
  have h : update_used_blocks_loop (2 ^ 32) (RoundTrip.fresh_bitmap (2 ^ 32)) (2 ^ 32) 0 0
      = .error .diverged := update_used_blocks_loop_diverges le_rfl _ _ _ _ (by norm_num)
  have htot : (4294967296#64).toNat = 2 ^ 32 := by decide
  simp only [update_used_blocks_count, htot, h, error_bind]

end SysbakAdmin.Counts

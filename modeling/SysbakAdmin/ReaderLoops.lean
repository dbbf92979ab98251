/-
The two inner loops of `read_write_data_restore`: taking a chunk's blocks out of the read
buffer, and laying them down at the next marked places of the target.

The first is `GroupStream.scan` over the buffer, whatever the image holds
(`restore_blocks_spec`). The second walks the bitmap; that it positions the target by
relative seeks is dealt with by `place`, which follows the position from block to block.

The block loop compares and copies within one chunk and touches no file; the write loop
moves the accepted blocks to their places and touches nothing else. Each has an invariant of
its own (`read_inv`, `write_at`) with the part of the stream, or of the list of places, that
has been dealt with. A pass of either keeps it, and what is left gets less.

The bitmap is walked from the block the last pass ended at, and the target is sought from where
the last write left it. The two agree as long as every seek goes where it should, which is what
`place` follows; where a distance wraps, `RestoreCursor` takes over.
-/
import SysbakAdmin.Restore
import SysbakAdmin.ImageWriter

set_option autoImplicit false

namespace SysbakAdmin.ReaderLoops

open LittleEndian ByteStore CInt CMemory DoWhile Transfer FileIo GroupStream PackedRecord
open Bitmap Checksum Io Share Backup ImageWriter Restore

/-! ## The block loop

It is bounded by the chunk and touches memory only; the comparison with `scan` is block by
block. -/

/-- The variables of the block loop at the cursor `c`. The register in the array is the sum of the
cursor, and the count that of its open group. -/
structure read_inv (img_opt : image_options) (v : chunk_vars)
    (c : Cursor (Bytes img_opt.checksum_size.toNat)) : Prop where
  checksum : v.checksum = c.sum.1
  filled : v.blocks_in_cs = c.filled
  lt : c.filled < img_opt.blocks_per_checksum.toNat
  ready : v.cks.ready img_opt.checksum_mode.toNat

section Blocks

variable {fs_info : file_system_info} {img_opt : image_options}
  (hbs : 0 < fs_info.block_size.toNat) (hbs' : fs_info.block_size.toNat < 2 ^ 31)
  (hfits : checksum_fits img_opt)
include hbs hbs' hfits

/-- One block of the buffer, with the digest that closes its group: it is taken out and the
cursor moves over it, or the stored digest is another one. -/
theorem restore_block_spec {read_buffer : List Byte} (hread : read_buffer.length < 2 ^ 32) {i : ℕ}
    {v : chunk_vars} {c : Cursor (Bytes img_opt.checksum_size.toNat)} (hinv : read_inv img_opt v c)
    {b : List Byte} (hb : slice read_buffer v.read_offset fs_info.block_size.toNat = b)
    (hin : v.read_offset + (fs_info.block_size.toNat
      + if c.filled + 1 = img_opt.blocks_per_checksum.toNat then img_opt.checksum_size.toNat else 0)
        ≤ read_buffer.length)
    (hspot : i * fs_info.block_size.toNat + fs_info.block_size.toNat ≤ v.write_buffer.length)
    (hwlen : v.write_buffer.length < 2 ^ 32) :
    (c.filled + 1 = img_opt.blocks_per_checksum.toNat ∧
        slice read_buffer (v.read_offset + fs_info.block_size.toNat) img_opt.checksum_size.toNat
          ≠ ((digest_of img_opt).absorb c.sum b).1 ∧
        restore_block fs_info img_opt read_buffer i v = .ok none) ∨
      ∃ v', restore_block fs_info img_opt read_buffer i v = .ok (some v') ∧
        (c.filled + 1 = img_opt.blocks_per_checksum.toNat →
          slice read_buffer (v.read_offset + fs_info.block_size.toNat) img_opt.checksum_size.toNat
            = ((digest_of img_opt).absorb c.sum b).1) ∧
        read_inv img_opt v'
          (put (digest_of img_opt) img_opt.blocks_per_checksum.toNat c b).2 ∧
        v'.read_offset = v.read_offset + (fs_info.block_size.toNat
          + if c.filled + 1 = img_opt.blocks_per_checksum.toNat then img_opt.checksum_size.toNat
            else 0) ∧
        v'.write_buffer = overlay 0 v.write_buffer (i * fs_info.block_size.toNat) b := by
  obtain ⟨hsum, hfilled, hlt, hready⟩ := hinv
  set bs := fs_info.block_size.toNat with hbsdef
  set g := img_opt.blocks_per_checksum.toNat with hg
  have hglt : g < 2 ^ 32 := img_opt.blocks_per_checksum.isLt
  have hblen : b.length = bs := by rw [← hb]; exact slice_length_of_le (by omega)
  have hload : load read_buffer v.read_offset bs = .ok b := by rw [load_of_le (by omega), hb]
  have hstore : store v.write_buffer (u32 (i * bs)) b
      = .ok (overlay 0 v.write_buffer (i * bs) b) := by
    rw [u32_of_lt (by omega), store_of_le (by omega)]
  -- the digest goes on over the block before the group is looked at
  have hupdate : update_checksum v.cks v.checksum (read_buffer.drop v.read_offset) (i32 bs)
      = .ok ((digest_of img_opt).absorb c.sum b).1 := by
    rw [hsum, i32_of_lt hbs', update_checksum_ok hready hfits c.sum hbs
      (by rw [List.length_drop]; omega), ← hb]
    rfl
  have hcount : u32 (v.blocks_in_cs + 1) = c.filled + 1 := by
    rw [hfilled, u32_of_lt (by omega)]
  by_cases hfull : c.filled + 1 = g
  · -- the group is full: its checksum follows the block
    rw [if_pos hfull] at hin ⊢
    have hload' : load read_buffer (v.read_offset + bs) img_opt.checksum_size.toNat
        = .ok (slice read_buffer (v.read_offset + bs) img_opt.checksum_size.toNat) :=
      load_of_le (by omega)
    by_cases hmatch : slice read_buffer (v.read_offset + bs) img_opt.checksum_size.toNat
        = ((digest_of img_opt).absorb c.sum b).1
    · obtain ⟨lib', hinit, hready'⟩ := init_checksum_ok v.cks hfits
        ((digest_of img_opt).absorb c.sum b)
      have hoff : u32 (u32 (v.read_offset + img_opt.checksum_size.toNat) + bs)
          = v.read_offset + (bs + img_opt.checksum_size.toNat) := by
        rw [u32_of_lt (by omega : v.read_offset + img_opt.checksum_size.toNat < 2 ^ 32),
          u32_of_lt (by omega)]
        omega
      refine Or.inr ⟨⟨overlay 0 v.write_buffer (i * bs) b,
        ((digest_of img_opt).reset ((digest_of img_opt).absorb c.sum b)).1, 0,
        v.read_offset + (bs + img_opt.checksum_size.toNat), lib'⟩, ?_, fun _ => hmatch, ?_, rfl, rfl⟩
      · simp only [restore_block, ← hbsdef, ← hg, hload, ok_bind, hstore, hupdate, hcount,
          hfull, if_true, hload', hmatch, ne_eq, not_true_eq_false, if_false, hinit, hoff,
          pure_eq]
      · rw [put, if_pos hfull]
        exact ⟨rfl, rfl, by dsimp only; omega, hready'⟩
    · refine Or.inl ⟨hfull, hmatch, ?_⟩
      simp only [restore_block, ← hbsdef, ← hg, hload, ok_bind, hstore, hupdate,
        hcount, hfull, if_true, hload', hmatch, ne_eq, not_false_eq_true, pure_eq]
  · -- the group stays open
    rw [if_neg hfull, Nat.add_zero] at hin ⊢
    have hoff : u32 (v.read_offset + bs) = v.read_offset + bs := u32_of_lt (by omega)
    refine Or.inr ⟨⟨overlay 0 v.write_buffer (i * bs) b, ((digest_of img_opt).absorb c.sum b).1,
      c.filled + 1, v.read_offset + bs, v.cks⟩, ?_, fun h => absurd h hfull, ?_, rfl, rfl⟩
    · simp only [restore_block, ← hbsdef, ← hg, hload, ok_bind, hstore, hupdate, hcount,
        hfull, if_false, hoff, pure_eq]
    · rw [put, if_neg hfull]
      exact ⟨rfl, rfl, by dsimp only; omega, hready⟩

/-- **The block loop is `scan`**: it takes out the blocks that `scan` finds, and leaves through
`ERROR` when `scan` does. The two counters, of the blocks in the open group and of the bytes
behind it, are the cursor and the length that `scan` has used up. -/
theorem restore_blocks_spec {read_buffer : List Byte} (hread : read_buffer.length < 2 ^ 32) :
    ∀ (left i : ℕ) (v : chunk_vars) (c : Cursor (Bytes img_opt.checksum_size.toNat)),
      read_inv img_opt v c →
      v.read_offset + (left * fs_info.block_size.toNat
        + (c.filled + left) / img_opt.blocks_per_checksum.toNat * img_opt.checksum_size.toNat)
          ≤ read_buffer.length →
      (i + left) * fs_info.block_size.toNat ≤ v.write_buffer.length →
      v.write_buffer.length < 2 ^ 32 →
      (scan (digest_of img_opt) img_opt.blocks_per_checksum.toNat fs_info.block_size.toNat
          img_opt.checksum_size.toNat left c (read_buffer.drop v.read_offset) = none ∧
        restore_blocks fs_info img_opt read_buffer left i v = .ok none) ∨
      ∃ blocks c' used v',
        scan (digest_of img_opt) img_opt.blocks_per_checksum.toNat fs_info.block_size.toNat
          img_opt.checksum_size.toNat left c (read_buffer.drop v.read_offset)
            = some (blocks, c', used) ∧
        restore_blocks fs_info img_opt read_buffer left i v = .ok (some v') ∧
        read_inv img_opt v' c' ∧ v'.read_offset = v.read_offset + used ∧
        v'.write_buffer
          = overlay 0 v.write_buffer (i * fs_info.block_size.toNat) blocks.flatten := by
  intro left
  induction left with
  | zero =>
      intro i v c hinv _ hwrite _
      refine Or.inr ⟨[], c, 0, v, rfl, rfl, hinv, rfl, ?_⟩
      rw [Nat.add_zero] at hwrite
      simp [overlay, Nat.sub_eq_zero_of_le hwrite]
  | succ left ih =>
      intro i v c hinv hin hwrite hwlen
      have hgpos : 0 < img_opt.blocks_per_checksum.toNat := by have := hinv.lt; omega
      rw [succ_add_div hgpos hinv.lt, Nat.succ_mul, Nat.add_mul] at hin
      have hspot : i * fs_info.block_size.toNat + fs_info.block_size.toNat
          ≤ v.write_buffer.length := by
        rw [← Nat.succ_mul]
        exact (Nat.mul_le_mul_right _ (by omega)).trans hwrite
      set b := slice read_buffer v.read_offset fs_info.block_size.toNat with hb
      have hblen : b.length = fs_info.block_size.toNat := slice_length_of_le (by omega)
      -- blocks are laid side by side, so two overlays make one
      have hoverlay : ∀ blocks : List (List Byte),
          overlay 0 (overlay 0 v.write_buffer (i * fs_info.block_size.toNat) b)
              ((i + 1) * fs_info.block_size.toNat) blocks.flatten
            = overlay 0 v.write_buffer (i * fs_info.block_size.toNat) (b :: blocks).flatten := by
        intro blocks
        rw [List.flatten_cons, ← overlay_overlay, hblen, Nat.succ_mul]
      have hwlen' : (overlay 0 v.write_buffer (i * fs_info.block_size.toNat) b).length
          = v.write_buffer.length := by
        rw [overlay_length, hblen]; omega
      have htake : (read_buffer.drop v.read_offset).take fs_info.block_size.toNat = b := rfl
      have hcell : ((read_buffer.drop v.read_offset).drop fs_info.block_size.toNat).take
          img_opt.checksum_size.toNat
            = slice read_buffer (v.read_offset + fs_info.block_size.toNat)
              img_opt.checksum_size.toNat := by rw [slice, List.drop_drop]
      have hfirst : v.read_offset + (fs_info.block_size.toNat
          + if c.filled + 1 = img_opt.blocks_per_checksum.toNat then img_opt.checksum_size.toNat
            else 0) ≤ read_buffer.length := by
        split_ifs at hin ⊢ <;> omega
      rcases restore_block_spec hbs hbs' hfits hread hinv rfl hfirst hspot hwlen with
        ⟨hfull, hmatch, hstep⟩ | ⟨v', hstep, hmatch, hinv', hoff', hwrite'⟩
      · refine Or.inl ⟨?_, by simp only [restore_blocks, hstep, ok_bind, pure_eq]⟩
        simp only [scan, hfull, if_true, htake, hcell]
        rw [summer_digest, if_neg hmatch]
      · have hrest := ih (i + 1) v' _ hinv'
          (by
            rw [hoff', put_filled _ _ hinv.lt]
            split_ifs at hin ⊢ <;> omega)
          (by
            rw [hwrite', hwlen']
            exact (Nat.mul_le_mul_right _ (by omega)).trans hwrite)
          (by rw [hwrite', hwlen']; exact hwlen)
        -- one step of `scan` is one pass of the loop, with the offset it has moved
        have hscan : scan (digest_of img_opt) img_opt.blocks_per_checksum.toNat
            fs_info.block_size.toNat img_opt.checksum_size.toNat (left + 1) c
            (read_buffer.drop v.read_offset)
            = (scan (digest_of img_opt) img_opt.blocks_per_checksum.toNat fs_info.block_size.toNat
                img_opt.checksum_size.toNat left
                (put (digest_of img_opt) img_opt.blocks_per_checksum.toNat c b).2
                (read_buffer.drop v'.read_offset)).map
              fun r => (b :: r.1, r.2.1, v'.read_offset - v.read_offset + r.2.2) := by
          rw [hoff', Nat.add_sub_cancel_left]
          by_cases hfull : c.filled + 1 = img_opt.blocks_per_checksum.toNat
          · simp only [scan, put, hfull, if_true, htake, hcell]
            rw [summer_digest, if_pos (hmatch hfull), List.drop_drop]
          · simp only [scan, put, hfull, if_false, htake, List.drop_drop, Nat.add_zero]
        rw [hscan]
        simp only [restore_blocks, hstep, ok_bind]
        rcases hrest with ⟨h1, h2⟩ | ⟨blocks, c', used, v'', h1, h2, h3, h4, h5⟩
        · exact Or.inl ⟨by rw [h1]; rfl, h2⟩
        · refine Or.inr ⟨b :: blocks, c', v'.read_offset - v.read_offset + used, v'',
            by rw [h1]; rfl, h2, h3, by omega, ?_⟩
          rw [h5, hwrite']
          exact hoverlay blocks

end Blocks

/-! ## The write loop

The target is positioned by relative seeks over the unmarked blocks. `place` follows the
position from block to block; as long as the offsets stay below `2 ^ 63` it is the
block's own (`place_reachable`). -/

/-- `lseek` over `gap` blocks, in a file without an end. -/
def seek_over (block_size gap pos : ℕ) : Option ℕ :=
  if u64 (gap * block_size) > 0 then
    if 0 ≤ (pos : ℤ) + off_t (u64 (gap * block_size))
        ∧ (pos : ℤ) + off_t (u64 (gap * block_size)) < 2 ^ 63 then
      some ((pos : ℤ) + off_t (u64 (gap * block_size))).toNat
    else none
  else some pos

/-- The next block of the bitmap and the position, after block `x` was written. -/
def place (block_size : ℕ) (s : ℕ × ℕ) (x : ℕ) : Option (ℕ × ℕ) :=
  (seek_over block_size (x - s.1) s.2).map fun pos => (x + 1, pos + block_size)

/-- Blocks whose offsets fit `off_t`. -/
def reachable (block_size : ℕ) (idx : List ℕ) : Prop := ∀ x ∈ idx, (x + 1) * block_size < 2 ^ 63

/-- A file, positioned for block `b`, that will take the given blocks. A file that grows takes a
block anywhere its seeks lead; a device has to have the room. -/
def takes_blocks (block_size b : ℕ) (f : File) (idx : List ℕ) : Prop :=
  (f.growable = true ∧ ∃ s, idx.foldlM (place block_size) (b, f.pos) = some s) ∨
    (f.pos = b * block_size ∧ reachable block_size idx ∧
      ∀ x ∈ idx, (x + 1) * block_size ≤ f.data.length)

theorem seek_over_zero (block_size pos : ℕ) : seek_over block_size 0 pos = some pos := by
  simp [seek_over, u64]

theorem place_range {block_size b p b' q k : ℕ} (hk : 0 < k)
    (h : seek_over block_size (b' - b) p = some q) :
    (List.range' b' k).foldlM (place block_size) (b, p) = some (b' + k, q + k * block_size) := by
  induction k generalizing b p b' q with
  | zero => omega
  | succ k ih =>
      have hplace : place block_size (b, p) b' = some (b' + 1, q + block_size) := by
        simp only [place, h, Option.map_some]
      rw [List.range'_succ, List.foldlM_cons, hplace, Option.bind_eq_bind, Option.bind_some]
      rcases Nat.eq_zero_or_pos k with rfl | hk'
      · simp
      · rw [ih hk' (q := q + block_size) (by rw [Nat.sub_self, seek_over_zero])]
        simp only [Option.some.injEq, Prod.mk.injEq]
        exact ⟨by omega, by ring⟩

theorem seek_over_reachable {block_size b b' : ℕ} (hb : b ≤ b') (h : b' * block_size < 2 ^ 63) :
    seek_over block_size (b' - b) (b * block_size) = some (b' * block_size) := by
  have hle : b * block_size ≤ b' * block_size := Nat.mul_le_mul_right _ hb
  have hgap : (b' - b) * block_size = b' * block_size - b * block_size := Nat.sub_mul _ _ _
  rw [seek_over, hgap, u64_of_lt (by omega)]
  split_ifs with h1 h2
  · rw [off_t_of_lt (by omega)]
    congr 1
    omega
  · rw [off_t_of_lt (by omega)] at h2
    omega
  · congr 1
    omega

/-- The seek before a run of blocks. -/
theorem seek_skip_spec (block_size gap : ℕ) (w : World) :
    (∃ q, (if u64 (gap * block_size) > 0 then seek_dfw_cur w (u64 (gap * block_size))
          else (true, w)) = (true, { w with dfw := { w.dfw with pos := q } }) ∧
        seek_over block_size gap w.dfw.pos = some q) ∨
      ((if u64 (gap * block_size) > 0 then seek_dfw_cur w (u64 (gap * block_size))
          else (true, w)) = (false, { w with io_failed := w.io_failed + 1 }) ∧
        ∀ q, seek_over block_size gap w.dfw.pos = some q →
          w.dfw.growable = false ∧ w.dfw.data.length < q) := by
  by_cases hgap : u64 (gap * block_size) > 0
  · rw [if_pos hgap]
    have hlim := seek_limit_lt w.dfw
    set d := off_t (u64 (gap * block_size)) with hd
    by_cases hin : 0 ≤ (w.dfw.pos : ℤ) + d ∧ (w.dfw.pos : ℤ) + d ≤ seek_limit w.dfw
    · refine Or.inl ⟨((w.dfw.pos : ℤ) + d).toNat, ?_, ?_⟩
      · simp only [seek_dfw_cur, ← hd, lseek, if_pos hin]
      · simp only [seek_over, hgap, ← hd, if_true]
        rw [if_pos ⟨hin.1, by omega⟩]
    · refine Or.inr ⟨?_, fun q hq => ?_⟩
      · simp only [seek_dfw_cur, ← hd, lseek, if_neg hin]
      · simp only [seek_over, hgap, ← hd, if_true] at hq
        split_ifs at hq with hrange
        obtain rfl := Option.some.inj hq
        unfold seek_limit at hin
        split_ifs at hin with hgrow
        · omega
        · exact ⟨by simpa using hgrow, by omega⟩
  · rw [if_neg hgap]
    refine Or.inl ⟨w.dfw.pos, rfl, ?_⟩
    rw [seek_over, if_neg hgap]

section Write

variable (fs_info : file_system_info) (bm : bitmap) (n : ℕ) (blocks : List (List Byte))
  (b₁ : ℕ) (w₁ : World)

/-- The marked blocks from `b` on. -/
abbrev marked (b : ℕ) : List ℕ := used_from bm fs_info.totalblock.toNat b

/-- The write loop that began at block `b₁` of the bitmap in `w₁`, with the first
`v.blocks_written` of its blocks laid down. -/
structure write_at (v : write_vars) (w : World) : Prop where
  block_id : v.block_id ≤ fs_info.totalblock.toNat
  used : marked fs_info bm v.block_id = (marked fs_info bm b₁).drop v.blocks_written
  count : w.copied_count = w₁.copied_count + v.blocks_written
  follows : follows w₁ w
  dfr : w.dfr = w₁.dfr
  cks : w.cks = w₁.cks
  placed : ((marked fs_info bm b₁).take v.blocks_written).foldlM (place fs_info.block_size.toNat)
    (b₁, w₁.dfw.pos) = some (v.block_id, w.dfw.pos)
  target : reachable fs_info.block_size.toNat ((marked fs_info bm b₁).take n) →
    w₁.dfw.pos = b₁ * fs_info.block_size.toNat →
    w.dfw.pos = v.block_id * fs_info.block_size.toNat ∧
      w.dfw.data = scatter 0 fs_info.block_size.toNat w₁.dfw.data
        ((marked fs_info bm b₁).take v.blocks_written) (blocks.take v.blocks_written)

/-- The write loop has failed. What it has laid down by then are blocks from the front of its
list. -/
structure write_failed (w : World) : Prop where
  follows : Io.follows w₁ w
  target : reachable fs_info.block_size.toNat ((marked fs_info bm b₁).take n) →
    w₁.dfw.pos = b₁ * fs_info.block_size.toNat →
    laid 0 fs_info.block_size.toNat ((marked fs_info bm b₁).take n) blocks w₁.dfw.data w.dfw.data
  refused : ¬ (w₁.sched = [] ∧
    takes_blocks fs_info.block_size.toNat b₁ w₁.dfw ((marked fs_info bm b₁).take n))

variable {fs_info bm n blocks b₁ w₁} {v : write_vars} {w : World}

/-- What an untroubled run still has at the next run of blocks: the seek ends inside the
file, and the file has room. -/
theorem takes_next (hat : write_at fs_info bm n blocks b₁ w₁ v w) {b' k : ℕ} (hk : 0 < k)
    (hle : v.block_id ≤ b') (hfit : v.blocks_written + k ≤ n)
    (hused : marked fs_info bm v.block_id = List.range' b' k ++ marked fs_info bm (b' + k))
    (ht : takes_blocks fs_info.block_size.toNat b₁ w₁.dfw ((marked fs_info bm b₁).take n)) :
    ∃ q, seek_over fs_info.block_size.toNat (b' - v.block_id) w.dfw.pos = some q ∧
      (w.dfw.growable = true ∨
        q + k * fs_info.block_size.toNat ≤ w.dfw.data.length) := by
  set bs := fs_info.block_size.toNat
  have hsplit : (marked fs_info bm b₁).take n
      = (marked fs_info bm b₁).take v.blocks_written
        ++ (List.range' b' k ++ (marked fs_info bm (b' + k)).take (n - v.blocks_written - k)) := by
    conv_lhs => rw [show n = v.blocks_written + (n - v.blocks_written) by omega, List.take_add]
    rw [← hat.used, hused, List.take_append, List.length_range',
      List.take_of_length_le (l := List.range' b' k) (by rw [List.length_range']; omega)]
  -- a growable target is asked by its places, a device by its length
  rcases ht with ⟨hgrow, s, hs⟩ | ⟨hpos, hreach, hin⟩
  · rw [hsplit, List.foldlM_append, hat.placed, Option.bind_eq_bind, Option.bind_some,
      List.foldlM_append] at hs
    obtain ⟨k, rfl⟩ : ∃ j, k = j + 1 := ⟨k - 1, by omega⟩
    rw [List.range'_succ, List.foldlM_cons, place] at hs
    cases hq : seek_over bs (b' - v.block_id) w.dfw.pos with
    | none => rw [hq] at hs; simp at hs
    | some q => exact ⟨q, rfl, Or.inl (hat.follows.dfw_growable.trans hgrow)⟩
  · have hmem : b' + (k - 1) ∈ (marked fs_info bm b₁).take n := by
      rw [hsplit, List.mem_append, List.mem_append, List.mem_range'_1]
      exact Or.inr (Or.inl ⟨by omega, by omega⟩)
    have hlast := hreach _ hmem
    have hend := hin _ hmem
    rw [show b' + (k - 1) + 1 = b' + k by omega, Nat.add_mul] at hlast hend
    obtain ⟨hwpos, hdata⟩ := hat.target hreach hpos
    refine ⟨b' * bs, by rw [hwpos]; exact seek_over_reachable hle (by omega), Or.inr ?_⟩
    exact hend.trans (by rw [hdata]; exact length_le_scatter _ _ _ _ _)

variable (fs_info bm n) in
/-- The run of marked blocks that the loop comes to next: `k` blocks at `b'`, all of them owed. -/
structure write_run (v : write_vars) (b' k : ℕ) : Prop where
  pos : 0 < k
  le_start : v.block_id ≤ b'
  fit : v.blocks_written + k ≤ n
  end_le : b' + k ≤ fs_info.totalblock.toNat
  used : marked fs_info bm v.block_id = List.range' b' k ++ marked fs_info bm (b' + k)

section WriteRun

variable {b' k q e : ℕ} {w' : World}

/-- The places of the run are the next of the list. -/
theorem write_run.take (h : write_run fs_info bm n v b' k)
    (hat : write_at fs_info bm n blocks b₁ w₁ v w) :
    (marked fs_info bm b₁).take (v.blocks_written + k)
      = (marked fs_info bm b₁).take v.blocks_written ++ List.range' b' k := by
  rw [List.take_add, ← hat.used, h.used, List.take_left' List.length_range']

theorem write_run.mem (h : write_run fs_info bm n v b' k)
    (hat : write_at fs_info bm n blocks b₁ w₁ v w) {x : ℕ} (hx : x ∈ List.range' b' k) :
    x ∈ (marked fs_info bm b₁).take n := by
  have hmem : x ∈ (marked fs_info bm b₁).take (v.blocks_written + k) := by
    rw [h.take hat]
    exact List.mem_append_right _ hx
  exact List.take_subset_take_left _ h.fit hmem

/-- The seek over the skipped blocks ends at the first of the run. -/
theorem write_run.reached (h : write_run fs_info bm n v b' k)
    (hat : write_at fs_info bm n blocks b₁ w₁ v w)
    (hq : seek_over fs_info.block_size.toNat (b' - v.block_id) w.dfw.pos = some q)
    (hreach : reachable fs_info.block_size.toNat ((marked fs_info bm b₁).take n))
    (hpos : w₁.dfw.pos = b₁ * fs_info.block_size.toNat) : q = b' * fs_info.block_size.toNat := by
  have hk := h.pos
  have hlast := hreach (b' + (k - 1)) (h.mem hat (List.mem_range'_1.mpr ⟨by omega, by omega⟩))
  rw [show b' + (k - 1) + 1 = b' + k by omega, Nat.add_mul] at hlast
  rw [(hat.target hreach hpos).1, seek_over_reachable h.le_start (by omega)] at hq
  exact (Option.some.inj hq).symm

/-- The front of the blocks, each at its place. -/
theorem laid_front {bs m : ℕ} {idx : List ℕ} {d d' : List Byte} (hlen : blocks.length = n)
    (hm : m ≤ n) (h : laid 0 bs (idx.take m) (blocks.take m) d d') :
    laid 0 bs (idx.take n) blocks d d' := by
  refine h.mono fun p hp => ?_
  rw [List.zip, ← List.take_zipWith] at hp
  have hmem := List.take_subset_take_left _ hm hp
  rwa [List.take_zipWith, List.take_of_length_le (l := blocks) hlen.le] at hmem

/-- What the loop has written up to a pass. -/
theorem write_at.laid (hat : write_at fs_info bm n blocks b₁ w₁ v w)
    (hblocks : ∀ b ∈ blocks, b.length = fs_info.block_size.toNat)
    (hreach : reachable fs_info.block_size.toNat ((marked fs_info bm b₁).take n))
    (hpos : w₁.dfw.pos = b₁ * fs_info.block_size.toNat) :
    ByteStore.laid 0 fs_info.block_size.toNat ((marked fs_info bm b₁).take v.blocks_written)
      (blocks.take v.blocks_written) w₁.dfw.data w.dfw.data := by
  rw [(hat.target hreach hpos).2]
  exact laid_scatter 0 _ _ fun x hx => (hblocks x (List.mem_of_mem_take hx)).le

/-- **Of a run that was cut short**, the front is there. -/
theorem write_run.short (h : write_run fs_info bm n v b' k)
    (hat : write_at fs_info bm n blocks b₁ w₁ v w) (hn : n ≤ (marked fs_info bm b₁).length)
    (hlen : blocks.length = n)
    (hblocks : ∀ b ∈ blocks, b.length = fs_info.block_size.toNat)
    (hq : seek_over fs_info.block_size.toNat (b' - v.block_id) w.dfw.pos = some q)
    (hdfw : w'.dfw = { w.dfw with pos := q }.written
      (((blocks.drop v.blocks_written).take k).flatten.take e))
    (hreach : reachable fs_info.block_size.toNat ((marked fs_info bm b₁).take n))
    (hpos : w₁.dfw.pos = b₁ * fs_info.block_size.toNat) :
    ByteStore.laid 0 fs_info.block_size.toNat ((marked fs_info bm b₁).take n) blocks w₁.dfw.data
      w'.dfw.data := by
  set run := (blocks.drop v.blocks_written).take k with hrun
  have hk := h.pos
  have hfit := h.fit
  have hrunlen : run.length = k := by rw [hrun, List.length_take, List.length_drop, hlen]; omega
  have hrunne : run ≠ [] := List.ne_nil_of_length_pos (by omega)
  have hpart : ByteStore.laid 0 fs_info.block_size.toNat (List.range' b' k) run w.dfw.data
      w'.dfw.data := by
    intro i
    have hshort := laid_short 0 fs_info.block_size.toNat w.dfw.data b' e hrunne fun b hb =>
      hblocks b (List.mem_of_mem_drop (List.mem_of_mem_take hb))
    rw [hrunlen] at hshort
    rw [hdfw, written_getD, h.reached hat hq hreach hpos, ← overlay_getD]
    exact hshort i
  have hboth := (hat.laid hblocks hreach hpos).append
    (by rw [List.length_take, List.length_take, hlen]; omega) hpart
  rw [← h.take hat, hrun, ← List.take_add] at hboth
  exact laid_front hlen hfit hboth

/-- **A run that was written** is behind what was. -/
theorem write_run.written (h : write_run fs_info bm n v b' k)
    (hbs : 0 < fs_info.block_size.toNat) (hn : n ≤ (marked fs_info bm b₁).length)
    (hlen : blocks.length = n)
    (hblocks : ∀ b ∈ blocks, b.length = fs_info.block_size.toNat)
    (hcount : w₁.copied_count + n < 2 ^ 64) (hat : write_at fs_info bm n blocks b₁ w₁ v w)
    (hq : seek_over fs_info.block_size.toNat (b' - v.block_id) w.dfw.pos = some q)
    (hdfw : w'.dfw = { w.dfw with pos := q }.written
      ((blocks.drop v.blocks_written).take k).flatten)
    (hf : Io.follows w w') (hdfr : w'.dfr = w.dfr) (hcks : w'.cks = w.cks)
    (hcopied : w'.copied_count = w.copied_count) :
    write_at fs_info bm n blocks b₁ w₁ ⟨b' + k, v.blocks_written + k⟩
      (emit_progress { w' with copied_count := u64 (w'.copied_count + k) } fs_info
        (u64 (w'.copied_count + k))) := by
  set run := (blocks.drop v.blocks_written).take k with hrun
  have hk := h.pos
  have hfit := h.fit
  have hrunlen : run.length = k := by rw [hrun, List.length_take, List.length_drop, hlen]; omega
  have hrunblocks : ∀ b ∈ run, b.length = fs_info.block_size.toNat := fun b hb =>
    hblocks b (List.mem_of_mem_drop (List.mem_of_mem_take hb))
  have hrunne : run ≠ [] := List.ne_nil_of_length_pos (by omega)
  have hrunflat : run.flatten.length = k * fs_info.block_size.toNat := by
    rw [flatten_length_of_length hrunblocks, hrunlen]
  have hc : w.copied_count = w₁.copied_count + v.blocks_written := hat.count
  refine ⟨h.end_le, ?_, ?_, hat.follows.trans (hf.trans
    ((follows_moved _ _ _ _ _).trans (follows_emit _ _))), hdfr.trans hat.dfr, hcks.trans hat.cks,
    ?_, ?_⟩
  · dsimp only
    rw [← List.drop_drop, ← hat.used, h.used, List.drop_left' List.length_range']
  · change u64 (w'.copied_count + k) = w₁.copied_count + (v.blocks_written + k)
    rw [hcopied, u64_of_lt (by omega)]
    omega
  · change _ = some (b' + k, w'.dfw.pos)
    rw [hdfw, written_pos, hrunflat, h.take hat, List.foldlM_append, hat.placed,
      Option.bind_eq_bind, Option.bind_some, place_range hk hq]
  · intro hreach hpos
    change w'.dfw.pos = (b' + k) * fs_info.block_size.toNat ∧ w'.dfw.data = _
    have hq' := h.reached hat hq hreach hpos
    refine ⟨by rw [hdfw, written_pos, hrunflat, Nat.add_mul, ← hq'], ?_⟩
    have hne : run.flatten ≠ [] := by
      apply List.ne_nil_of_length_pos
      rw [hrunflat]
      exact Nat.mul_pos hk hbs
    rw [hdfw, written_data _ hne, hq',
      overlay_flatten 0 fs_info.block_size.toNat _ b' hrunne hrunblocks, hrunlen,
      (hat.target hreach hpos).2, h.take hat, List.take_add,
      scatter_append 0 fs_info.block_size.toNat _ (by
        rw [List.length_take, List.length_take, hlen]; omega)]

end WriteRun

/-- **One pass of the write loop.** It skips to the next marked block, finds how long the run of
marked blocks is, seeks by the blocks it has skipped and writes the run; so the places of its
blocks are the next of the list. -/
theorem restore_write_pass_spec {write_buffer : List Byte} (hbs : 0 < fs_info.block_size.toNat)
    (hbytes : n * fs_info.block_size.toNat < 2 ^ 31)
    (hn : n ≤ (marked fs_info bm b₁).length) (hlen : blocks.length = n)
    (hblocks : ∀ b ∈ blocks, b.length = fs_info.block_size.toNat)
    (hbuf : write_buffer.take (n * fs_info.block_size.toNat) = blocks.flatten)
    (hcount : w₁.copied_count + n < 2 ^ 64)
    (hat : write_at fs_info bm n blocks b₁ w₁ v w) (hlt : v.blocks_written < n) :
    ∃ p w', restore_write_pass fs_info bm n write_buffer v w = .ok (p, w') ∧
      p.leads (fun v' w' => (write_at fs_info bm n blocks b₁ w₁ v' w' ∧ v'.blocks_written < n) ∧
          n - v'.blocks_written < n - v.blocks_written)
        (fun v' w' => write_at fs_info bm n blocks b₁ w₁ v' w' ∧ v'.blocks_written = n)
        (fun w' => write_failed fs_info bm n blocks b₁ w₁ w') w' := by
  set bs := fs_info.block_size.toNat with hbsdef
  set j := v.blocks_written with hj
  -- the next run: it exists because fewer than `n` blocks have been written
  set skipped := skip_loop bm fs_info.totalblock.toNat (fs_info.totalblock.toNat - v.block_id)
    v.block_id with hskipped
  set b' := v.block_id + skipped with hb'
  set k := read_loop bm fs_info.totalblock.toNat (n - j) b' with hk
  have hsome : marked fs_info bm v.block_id ≠ [] := by
    intro hnil
    rw [hat.used, ← hj] at hnil
    have := congrArg List.length hnil
    rw [List.length_drop, List.length_nil] at this
    omega
  obtain ⟨hmore, -, hkpos, hr1, hr2, hused⟩ :=
    skip_read_loop_spec hat.block_id (show 0 < n - j by omega) hsome hb'.symm hk.symm
  rw [← marked, ← marked] at hused
  have hwr : write_run fs_info bm n v b' k := ⟨hkpos, by omega, by omega, hr2, hused⟩
  have hkn : k * bs ≤ n * bs := Nat.mul_le_mul_right _ (by omega)
  have hjk : (j + k) * bs ≤ n * bs := Nat.mul_le_mul_right _ (by omega)
  rw [Nat.add_mul] at hjk
  -- the bytes of the run
  have hbuflen : n * bs ≤ write_buffer.length := by
    have h := congrArg List.length hbuf
    rw [List.length_take, flatten_length_of_length hblocks, hlen] at h
    omega
  set run := (blocks.drop j).take k with hrun
  have hbytesrun : (write_buffer.drop (j * bs)).take (k * bs) = run.flatten := by
    have h1 : (write_buffer.drop (j * bs)).take (k * bs)
        = ((write_buffer.take (n * bs)).drop (j * bs)).take (k * bs) := by
      rw [List.drop_take, List.take_take, Nat.min_eq_left (by omega)]
    rw [h1, hbuf, drop_flatten_of_length hblocks, take_flatten_of_length
      (fun b hb => hblocks b (List.mem_of_mem_drop hb))]
  have hkbytes : u32 (k * bs) = k * bs := u32_of_lt (by omega)
  have hkint : toInt32 (i32 k * i32 bs) = ((k * bs : ℕ) : ℤ) := by
    have h1 : k ≤ k * bs := Nat.le_mul_of_pos_right _ hbs
    have h2 : bs ≤ k * bs := Nat.le_mul_of_pos_left _ hkpos
    rw [i32_of_lt (by omega), i32_of_lt (by omega), ← Nat.cast_mul, toInt32_of_range (by omega)
      (by omega)]
  have hgap : b' - v.block_id = skipped := by omega
  -- the seek
  rcases seek_skip_spec bs skipped w with ⟨q, hseek, hq⟩ | ⟨hseek, hq⟩
  swap
  · refine ⟨.fail, { w with io_failed := w.io_failed + 1 }, ?_,
      hat.follows.trans ⟨rfl, rfl, rfl, rfl, rfl, List.suffix_rfl, Nat.le_succ _, List.prefix_rfl⟩,
      fun hreach hpos => laid_front hlen hlt.le (hat.laid hblocks hreach hpos), ?_⟩
    · simp only [restore_write_pass, ← hskipped, ← hbsdef, hseek, Bool.not_false, if_true, pure_eq]
    · rintro ⟨-, ht⟩
      obtain ⟨q, hsq, hroom⟩ := takes_next hat hkpos hwr.le_start hwr.fit hused ht
      rw [hgap] at hsq
      have := hq q hsq
      rcases hroom with h | h
      · rw [this.1] at h; cases h
      · omega
  rw [← hgap] at hq
  set w₂ : World := { w with dfw := { w.dfw with pos := q } } with hw₂
  have hf₂ : Io.follows w w₂ := follows_moved _ _ _ _ _
  -- the write
  obtain ⟨e, he, r, w₃, hwrite, hf₃, hdfw₃, hdfr₃, hcks₃, hcopied₃, -, hr, -, hfull⟩ :=
    write_io_all_follows w₂ (write_buffer.drop (j * bs)) (n := k * bs) (by omega)
      (by rw [List.length_drop]; omega)
  have hf₃' := hf₂.trans hf₃
  have hdfw : w₃.dfw = w₂.dfw.written (run.flatten.take e) := by
    rw [hdfw₃, ← hbytesrun, List.take_take, Nat.min_eq_left he]
  by_cases he' : e = k * bs
  swap
  · refine ⟨.fail, w₃, ?_, hat.follows.trans hf₃',
      hwr.short hat hn hlen hblocks hq hdfw, ?_⟩
    · simp only [restore_write_pass, ← hskipped, ← hbsdef, hseek, Bool.not_true, Bool.false_eq_true,
        if_false, ← hj, ← hb', ← hk, gt_iff_lt, hkpos, if_true, hkbytes, hwrite, ok_bind, hkint, hr,
        he', decide_false, Bool.not_false, pure_eq]
    · rintro ⟨hsched, ht⟩
      obtain ⟨q', hsq, hroom⟩ := takes_next hat hkpos hwr.le_start hwr.fit hused ht
      rw [hq] at hsq
      obtain rfl := Option.some.inj hsq
      refine he' (hfull ((hat.follows.trans hf₂).sched_nil hsched) ?_)
      rcases hroom with h | h
      · exact room_of_growable (f := w₂.dfw) h _
      · exact room_of_le (f := w₂.dfw) h
  subst he'
  rw [← hbytesrun, List.take_take, Nat.min_self, hbytesrun] at hdfw
  set w₄ := emit_progress { w₃ with copied_count := u64 (w₃.copied_count + k) } fs_info
    (u64 (w₃.copied_count + k)) with hw₄
  have hdone : write_at fs_info bm n blocks b₁ w₁ ⟨b' + k, j + k⟩ w₄ :=
    hwr.written hbs hn hlen hblocks hcount hat hq hdfw hf₃' hdfr₃ hcks₃ hcopied₃
  have hrn : r = ((k * bs : ℕ) : ℤ) := hr.mpr rfl
  by_cases hlast : j + k < n
  · refine ⟨.next ⟨b' + k, j + k⟩, w₄, ?_, ⟨hdone, hlast⟩, ?_⟩
    · simp only [restore_write_pass, ← hskipped, ← hbsdef, hseek, Bool.not_true, Bool.false_eq_true,
        if_false, ← hj, ← hb', ← hk, gt_iff_lt, hkpos, if_true, hkbytes, hwrite, ok_bind, hkint, hrn,
        decide_true, pure_eq, hlast, ← hw₄]
    · change n - (j + k) < n - j
      omega
  · refine ⟨.done ⟨b' + k, j + k⟩, w₄, ?_, hdone, by change j + k = n; omega⟩
    simp only [restore_write_pass, ← hskipped, ← hbsdef, hseek, Bool.not_true, Bool.false_eq_true,
      if_false, ← hj, ← hb', ← hk, gt_iff_lt, hkpos, if_true, hkbytes, hwrite, ok_bind, hkint, hrn,
      decide_true, pure_eq, hlast, ← hw₄]

end Write

end SysbakAdmin.ReaderLoops

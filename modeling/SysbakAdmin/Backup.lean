/-
The backup side that `gdbus-extfs.c`, `gdbus-fatfs.c`, `gdbus-btrfs.c` and
`gdbus-xfsfs.c` share: the walk over the used blocks, the copy of them into an image
(`read_write_data_ptf`) or onto another partition (`read_write_data_ptp`), and the two
handlers around them.

The four files hold the same text up to three points, which are parameters here:

* the block size, which is a field of `fs_info` except in `gdbus-btrfs.c`, where a global
  of the same name is used;
* what reads the superblock and the bitmap (`driver`);
* where the call is answered, which `gdbus-xfsfs.c` does after the data and the others
  before it.

`fsync` has no effect in the model.

The walk is two loops that look alike. The first skips unmarked blocks and the second
counts marked ones, and each has its own bound: the first ends with the volume, the second
with the volume or with the buffer. `skip_read_loop_spec` is what every later module uses of
them: of the marked blocks from the cursor on, the run that is found is the front part.
-/
import SysbakAdmin.Share
import SysbakAdmin.Lib.DoWhile

set_option autoImplicit false

namespace SysbakAdmin.Backup

open LittleEndian ByteStore CInt CMemory DoWhile Transfer FileIo GroupStream
open Bitmap Checksum Io Share

/-! ## The walk over the used blocks -/

/-- The first loop of `get_read_blocks_size`: unmarked blocks from `b` on. -/
def skip_loop (bm : bitmap) (total : ℕ) : ℕ → ℕ → ℕ
  | 0, _ => 0
  | fuel + 1, b =>
      if b < total ∧ pc_test_bit b bm total = 0 then skip_loop bm total fuel (b + 1) + 1 else 0

/-- The second: marked blocks from `b` on, at most as many as the first argument. -/
def read_loop (bm : bitmap) (total : ℕ) : ℕ → ℕ → ℕ
  | 0, _ => 0
  | cap + 1, b =>
      if b < total ∧ pc_test_bit b bm total ≠ 0 then read_loop bm total cap (b + 1) + 1 else 0

/-- `get_read_blocks_size`: the length of the next run, and `*block_id`. -/
def get_read_blocks_size (block_size : ℕ) (fs_info : file_system_info) (block_id : ℕ)
    (bm : bitmap) : Run (ℕ × ℕ) := do
  let blocks_total := fs_info.totalblock.toNat
  let buffer_capacity ← buffer_capacity_of block_size
  let blocks_skip := skip_loop bm blocks_total (blocks_total - block_id) block_id
  -- at the end of the volume the cursor stays where it was
  if block_id + blocks_skip = blocks_total then pure (0, block_id)
  else
    let block_id := block_id + blocks_skip
    pure (read_loop bm blocks_total buffer_capacity block_id, block_id)

/-- `progress_update` on the count so far, and the signal. -/
def emit_progress (w : World) (fs_info : file_system_info) (copied : ℕ) : World :=
  emit_signal w (.progress copied (decide (copied ≥ fs_info.usedblocks.toNat)))

/-! ## Partition to file -/

/-- The variables of the block loop of `read_write_data_ptf`. -/
structure ptf_block_vars where
  write_buffer : List Byte
  write_offset : ℤ
  checksum : List Byte
  blocks_in_cs : ℕ
  cs_added : ℕ
  cks : checksum_lib

section Ptf

variable (block_size : ℕ) (fs_info : file_system_info) (img_opt : image_options)

/-- Block `i` of a pass: into the write buffer, into the checksum, and the checksum after
it when the group is full. -/
def ptf_block (read_buffer : List Byte) (i : ℕ) (v : ptf_block_vars) : Run ptf_block_vars := do
  let block ← load read_buffer (i * block_size) block_size
  let write_buffer ← storeAt v.write_buffer v.write_offset block
  let write_offset := toInt32 (v.write_offset + block_size)
  let checksum ← update_checksum v.cks v.checksum (read_buffer.drop (i * block_size))
    (i32 block_size)
  let blocks_per_cs := img_opt.blocks_per_checksum.toNat
  let blocks_in_cs := if blocks_per_cs > 0 then u32 (v.blocks_in_cs + 1) else v.blocks_in_cs
  -- the group is full: its checksum goes behind the block, and the next group starts
  if blocks_per_cs > 0 ∧ blocks_in_cs = blocks_per_cs then do
    let write_buffer ← storeAt write_buffer write_offset checksum
    let (checksum, cks) ← init_checksum v.cks img_opt.checksum_mode.toNat checksum
    pure ⟨write_buffer, toInt32 (write_offset + img_opt.checksum_size.toNat), checksum, 0,
      v.cs_added + 1, cks⟩
  else pure ⟨write_buffer, write_offset, checksum, blocks_in_cs, v.cs_added, v.cks⟩

/-- The block loop, from block `i` with the given number of blocks to go. -/
def ptf_blocks (read_buffer : List Byte) : ℕ → ℕ → ptf_block_vars → Run ptf_block_vars
  | 0, _, v => .ok v
  | left + 1, i, v => do
      ptf_blocks read_buffer left (i + 1) (← ptf_block block_size img_opt read_buffer i v)

/-- The variables of `read_write_data_ptf` that live across its passes. -/
structure ptf_vars where
  block_id : ℕ
  read_buffer : List Byte
  write_buffer : List Byte
  checksum : List Byte
  blocks_in_cs : ℕ

/-- One pass of `read_write_data_ptf`. -/
def ptf_pass (bm : bitmap) (v : ptf_vars) (w : World) : Run (Pass ptf_vars × World) := do
  let (blocks_read, block_id) ← get_read_blocks_size block_size fs_info v.block_id bm
  if blocks_read = 0 then pure (.done v, w)
  else
    let (ok, w) := seek_dfr w (block_id * block_size)
    if !ok then pure (.fail, w)
    else do
      let (r_size, read_buffer, w) ← read_io_all w v.read_buffer (u64 (blocks_read * block_size))
      if r_size ≠ i32 (blocks_read * block_size) then pure (.fail, w)
      else do
        let b ← ptf_blocks block_size img_opt read_buffer blocks_read 0
          ⟨v.write_buffer, 0, v.checksum, v.blocks_in_cs, 0, w.cks⟩
        let (w_size, w) ←
          write_io_all { w with cks := b.cks } b.write_buffer (u64OfInt b.write_offset)
        if w_size ≠ b.write_offset then pure (.fail, w)
        else
          let copied_count := u64 (w.copied_count + blocks_read)
          let w := emit_progress { w with copied_count := copied_count } fs_info copied_count
          -- the consistency test comes after the blocks are written
          if toInt32 (r_size + b.cs_added * img_opt.checksum_size.toNat) ≠ w_size then
            pure (.fail, w)
          else
            pure (.next ⟨u64 (block_id + blocks_read), read_buffer, b.write_buffer, b.checksum,
              b.blocks_in_cs⟩, w)

/-- `read_write_data_ptf`. -/
def read_write_data_ptf (host : Host) (bm : bitmap) (w : World) : Run (Bool × World) := do
  let buffer_capacity ← buffer_capacity_of block_size
  let write_size := u32 (convert_blocks_to_bytes 0 buffer_capacity block_size
    img_opt.blocks_per_checksum.toNat img_opt.checksum_size.toNat)
  let read_buffer_size := u32 (buffer_capacity * block_size)
  let write_buffer_size := u32 (write_size + img_opt.checksum_size.toNat)
  if !(host.malloc read_buffer_size && host.malloc write_buffer_size) then pure (false, w)
  else
    let (ok, w) := seek_dfr w 0
    if !ok then pure (false, w)
    else do
      let (checksum, cks) ← init_checksum w.cks img_opt.checksum_mode.toNat
        (host.junk .checksum img_opt.checksum_size.toNat)
      let (v, w) ← passes (ptf_pass block_size fs_info img_opt bm) (fs_info.totalblock.toNat + 1)
        ⟨0, host.junk .read_buffer read_buffer_size, host.junk .write_buffer write_buffer_size,
          checksum, 0⟩ { w with cks := cks }
      match v with
      | none => pure (false, w)
      | some v =>
          if v.blocks_in_cs > 0 then do
            let (w_size, w) ← write_io_all w v.checksum img_opt.checksum_size.toNat
            pure (decide (w_size = img_opt.checksum_size.toNat), w)
          else pure (true, w)

end Ptf

/-! ## Partition to partition -/

section Ptp

variable (block_size : ℕ) (fs_info : file_system_info)

/-- The variables of `read_write_data_ptp` that live across its passes. -/
structure ptp_vars where
  block_id : ℕ
  buffer : List Byte

/-- One pass of `read_write_data_ptp`. -/
def ptp_pass (bm : bitmap) (v : ptp_vars) (w : World) : Run (Pass ptp_vars × World) := do
  let (blocks_read, block_id) ← get_read_blocks_size block_size fs_info v.block_id bm
  if blocks_read = 0 then pure (.done v, w)
  else
    let (ok, w) := seek_dfr w (block_id * block_size)
    if !ok then pure (.fail, w)
    else
      let (ok, w) := seek_dfw w (block_id * block_size)
      if !ok then pure (.fail, w)
      else do
        let (r_size, buffer, w) ← read_io_all w v.buffer (u64 (blocks_read * block_size))
        if r_size ≠ i32 (blocks_read * block_size) then pure (.fail, w)
        else do
          let (w_size, w) ← write_io_all w buffer (u64 (blocks_read * block_size))
          if w_size ≠ i32 (blocks_read * block_size) then pure (.fail, w)
          else
            let block_id := u64 (block_id + blocks_read)
            pure (.next ⟨block_id, buffer⟩, emit_progress w fs_info block_id)

/-- `read_write_data_ptp`. -/
def read_write_data_ptp (host : Host) (bm : bitmap) (w : World) : Run (Bool × World) := do
  let buffer_capacity ← buffer_capacity_of block_size
  let buffer_size := u32 (buffer_capacity * block_size)
  if !host.malloc buffer_size then pure (false, w)
  else
    let (ok, w) := seek_dfr w 0
    if !ok then pure (false, w)
    else do
      let (v, w) ← passes (ptp_pass block_size fs_info bm) (fs_info.totalblock.toNat + 1)
        ⟨0, host.junk .read_buffer buffer_size⟩ w
      pure (v.isSome, w)

end Ptp

/-! ## What the walk finds

The used blocks from a cursor on are a list, and a run is its front part. -/

/-- The number of blocks in a buffer. -/
def capacity (block_size : ℕ) : ℕ := max 1 (DEFAULT_BUFFER_SIZE / block_size)

theorem capacity_pos (block_size : ℕ) : 0 < capacity block_size := by
  unfold capacity; omega

theorem buffer_capacity_of_pos {block_size : ℕ} (h : 0 < block_size) :
    buffer_capacity_of block_size = .ok (capacity block_size) := by
  unfold buffer_capacity_of capacity
  split_ifs with hlt
  · rw [udiv_of_pos h, max_eq_right (Nat.div_pos hlt.le h)]
  · rw [max_eq_left]
    rcases Nat.eq_or_lt_of_le (Nat.le_of_not_lt hlt) with he | hlt'
    · rw [← he, Nat.div_self (by norm_num [DEFAULT_BUFFER_SIZE])]
    · rw [Nat.div_eq_of_lt hlt']; omega

/-- A buffer holds a megabyte, or one larger block. -/
theorem capacity_mul_le (block_size : ℕ) :
    capacity block_size * block_size ≤ max DEFAULT_BUFFER_SIZE block_size := by
  unfold capacity
  rcases Nat.le_total (DEFAULT_BUFFER_SIZE / block_size) 1 with h | h
  · rw [max_eq_left h, Nat.one_mul]; exact le_max_right _ _
  · rw [max_eq_right h]
    exact (Nat.div_mul_le_self _ _).trans (le_max_left _ _)

/-- The first loop stops at the next marked block, or at the end. What it passes over is unmarked,
so no used block is lost. -/
theorem skip_loop_spec (bm : bitmap) (total : ℕ) :
    ∀ (fuel b : ℕ), b + fuel = total →
      b + skip_loop bm total fuel b ≤ total ∧
      used_from bm total (b + skip_loop bm total fuel b) = used_from bm total b ∧
      (b + skip_loop bm total fuel b < total →
        bit bm (b + skip_loop bm total fuel b) = true) := by
  intro fuel
  induction fuel with
  | zero =>
      intro b hb
      rw [skip_loop, Nat.add_zero]
      exact ⟨hb.le, rfl, fun h => by omega⟩
  | succ fuel ih =>
      intro b hb
      have hlt : b < total := by omega
      by_cases hbit : bit bm b = true
      · have htest : ¬ pc_test_bit b bm total = 0 := by
          rw [← ne_eq, pc_test_bit_ne_zero bm hlt]; exact hbit
        rw [skip_loop, if_neg (fun h => htest h.2), Nat.add_zero]
        exact ⟨by omega, rfl, fun _ => hbit⟩
      · have htest : pc_test_bit b bm total = 0 := by
          by_contra h
          exact hbit ((pc_test_bit_ne_zero bm hlt).mp h)
        obtain ⟨h1, h2, h3⟩ := ih (b + 1) (by omega)
        rw [skip_loop, if_pos ⟨hlt, htest⟩,
          show b + (skip_loop bm total fuel (b + 1) + 1)
            = b + 1 + skip_loop bm total fuel (b + 1) by omega]
        exact ⟨h1, by rw [h2, used_from_of_not_bit hlt (by simpa using hbit)], h3⟩

/-- The second loop runs over consecutive marked blocks. It stops at the first gap, at the end or
when the buffer is full, whichever comes first. -/
theorem read_loop_spec (bm : bitmap) {total : ℕ} :
    ∀ (cap b : ℕ), b ≤ total →
      read_loop bm total cap b ≤ cap ∧ b + read_loop bm total cap b ≤ total ∧
      used_from bm total b = List.range' b (read_loop bm total cap b)
        ++ used_from bm total (b + read_loop bm total cap b) ∧
      (0 < cap → b < total → bit bm b = true → 0 < read_loop bm total cap b) := by
  intro cap
  induction cap with
  | zero => intro b hb; simp [read_loop, hb]
  | succ cap ih =>
      intro b hb
      by_cases h : b < total ∧ pc_test_bit b bm total ≠ 0
      · have hbit : bit bm b = true := (pc_test_bit_ne_zero bm h.1).mp h.2
        obtain ⟨h1, h2, h3, -⟩ := ih (b + 1) (by omega)
        rw [read_loop, if_pos h]
        refine ⟨by omega, by omega, ?_, fun _ _ _ => by omega⟩
        rw [used_from_of_bit h.1 hbit, h3, List.range'_succ, List.cons_append,
          show b + 1 + read_loop bm total cap (b + 1) = b + (read_loop bm total cap (b + 1) + 1)
            by omega]
      · rw [read_loop, if_neg h]
        refine ⟨by omega, by omega, by simp, fun _ hlt hbit => ?_⟩
        exact absurd ⟨hlt, (pc_test_bit_ne_zero bm hlt).mpr hbit⟩ h

/-- **The two loops one after the other** find the next used block and the run that starts there,
cut to the `cap` blocks that are wanted. Between the cursor and the run there is no used block,
and the run is used without a gap; so the list of used blocks from the cursor on starts with it.
-/
theorem skip_read_loop_spec {bm : bitmap} {total b cap : ℕ} (hb : b ≤ total) (hcap : 0 < cap)
    (hsome : used_from bm total b ≠ []) {b' k : ℕ}
    (hb' : b + skip_loop bm total (total - b) b = b') (hk : read_loop bm total cap b' = k) :
    b' < total ∧ bit bm b' = true ∧ 0 < k ∧ k ≤ cap ∧ b' + k ≤ total ∧
      used_from bm total b = List.range' b' k ++ used_from bm total (b' + k) := by
  subst hb' hk
  obtain ⟨hle, hskip, hbit⟩ := skip_loop_spec bm total (total - b) b (by omega)
  obtain ⟨hmost, hend, hused, hpos⟩ := read_loop_spec bm cap _ hle
  have hlt : b + skip_loop bm total (total - b) b < total := by
    by_contra hge
    apply hsome
    rw [← hskip, used_from_of_ge (by omega)]
  refine ⟨hlt, hbit hlt, hpos hcap hlt (hbit hlt), hmost, hend, ?_⟩
  rw [← hskip, hused]

/-- The next run of used blocks from `b` on: `n` blocks at `b'`, as long as the buffer
allows, with no used block before them. -/
structure next_run (block_size : ℕ) (bm : bitmap) (total b n b' : ℕ) : Prop where
  pos : 0 < n
  le_capacity : n ≤ capacity block_size
  le_start : b ≤ b'
  end_le : b' + n ≤ total
  used : used_from bm total b = List.range' b' n ++ used_from bm total (b' + n)

namespace next_run

variable {block_size total b n b' : ℕ} {bm : bitmap} (h : next_run block_size bm total b n b')
include h

/-- The cursor behind a run does not wrap. -/
theorem next_id (hbs : 0 < block_size) (htot : total * block_size < 2 ^ 63) :
    u64 (b' + n) = b' + n := by
  have h1 : total ≤ total * block_size := Nat.le_mul_of_pos_right _ hbs
  have h2 := h.end_le
  exact u64_of_lt (by omega)

/-- The bytes of a run fit an `int` when a block does. -/
theorem count_lt (hbs : block_size ≤ 2 ^ 30) : n * block_size < 2 ^ 31 := by
  have h1 : n * block_size ≤ capacity block_size * block_size :=
    Nat.mul_le_mul_right _ h.le_capacity
  have h2 := capacity_mul_le block_size
  have h3 : DEFAULT_BUFFER_SIZE = 2 ^ 20 := rfl
  omega

theorem end_mul_le : b' * block_size + n * block_size ≤ total * block_size := by
  rw [← Nat.add_mul]
  exact Nat.mul_le_mul_right _ h.end_le

/-- No used block from `b` on is before the run. -/
theorem le_of_mem {x : ℕ} (hx : x ∈ used_from bm total b) : b' ≤ x := by
  rw [h.used] at hx
  rcases List.mem_append.mp hx with h' | h'
  · exact (List.mem_range'_1.mp h').1
  · exact le_trans (by omega) (mem_used_from.mp h').1

end next_run

/-- **The next run**: none when no used block is left. Both loops stop at the end of the volume,
and the second one at the buffer's worth of blocks before. -/
theorem get_read_blocks_size_spec {block_size : ℕ} (hbs : 0 < block_size)
    (fs_info : file_system_info) (bm : bitmap) {b : ℕ} (hb : b ≤ fs_info.totalblock.toNat) :
    ∃ n b', get_read_blocks_size block_size fs_info b bm = .ok (n, b') ∧
      ((n = 0 ∧ used_from bm fs_info.totalblock.toNat b = []) ∨
        next_run block_size bm fs_info.totalblock.toNat b n b') := by
  generalize htot : fs_info.totalblock.toNat = total at hb ⊢
  obtain ⟨hs1, hs2, hs3⟩ := skip_loop_spec bm total (total - b) b (by omega)
  simp only [get_read_blocks_size, buffer_capacity_of_pos hbs, ok_bind, htot]
  by_cases hend : b + skip_loop bm total (total - b) b = total
  · refine ⟨0, b, by rw [if_pos hend]; rfl, Or.inl ⟨rfl, ?_⟩⟩
    rw [← hs2, hend, used_from_of_ge le_rfl]
  · obtain ⟨hr1, hr2, hr3, hr4⟩ := read_loop_spec bm (capacity block_size)
      (b + skip_loop bm total (total - b) b) hs1
    have hlt : b + skip_loop bm total (total - b) b < total := by omega
    refine ⟨read_loop bm total (capacity block_size) (b + skip_loop bm total (total - b) b),
      b + skip_loop bm total (total - b) b, by rw [if_neg hend]; rfl, Or.inr
      ⟨hr4 (capacity_pos _) hlt (hs3 hlt), hr1, by omega, hr2, ?_⟩⟩
    rw [← hs2, hr3]

end SysbakAdmin.Backup

/-
`read_write_data_restore` and `gdbus_sysbak_restore` of `gdbus-extfs.c`: an image back
onto a partition.

The reader works in chunks of a buffer's worth of blocks. For each chunk it computes how
many bytes to read, takes the blocks out of the buffer while it checks the checksums
between them, and lays the blocks down at the next marked places of the target. The
loops are `restore_blocks`, `restore_write_pass` and `restore_pass`, from the inside out.

Every access to the two buffers and to the checksum array is checked against the size
that was allocated, so a run that returns has made no access outside them.

The variables that live across passes are kept in a record for each loop, under the names
of the source; the two loops are bodies for `passes`, so that an iteration is one
application of a pure function and a state. What the header says is not trusted: a
division by a field of it can stop the run, and so can an access behind a buffer.
-/
import SysbakAdmin.Handlers

set_option autoImplicit false

namespace SysbakAdmin.Restore

open LittleEndian ByteStore CInt CMemory DoWhile Transfer FileIo
open Bitmap Checksum Io Share Backup Handlers

/-- The loop of `get_blocks_used`, from block `b`. -/
def blocks_used_loop (bm : bitmap) (total : ℕ) : ℕ → ℕ → ℕ
  | 0, _ => 0
  | fuel + 1, b =>
      (if pc_test_bit b bm total ≠ 0 then 1 else 0) + blocks_used_loop bm total fuel (b + 1)

/-- `get_blocks_used`. -/
def get_blocks_used (blocks_total : ℕ) (bm : bitmap) (usedblocks : ℕ) : ℕ :=
  let blocks_used_fix := blocks_used_loop bm blocks_total blocks_total 0
  if blocks_used_fix ≠ usedblocks then blocks_used_fix else usedblocks

/-- The variables of the block loop. -/
structure chunk_vars where
  write_buffer : List Byte
  checksum : List Byte
  blocks_in_cs : ℕ
  read_offset : ℕ
  cks : checksum_lib

/-- The variables that live across chunks. -/
structure restore_vars where
  block_id : ℕ
  read_buffer : List Byte
  write_buffer : List Byte
  checksum : List Byte
  blocks_in_cs : ℕ

/-- The variables of the write loop. -/
structure write_vars where
  block_id : ℕ
  blocks_written : ℕ

section Code

variable (fs_info : file_system_info) (img_opt : image_options)

/-- Block `i` of a chunk, and the checksum after it when its group is full. `none` is
`goto ERROR`. -/
def restore_block (read_buffer : List Byte) (i : ℕ) (v : chunk_vars) :
    Run (Option chunk_vars) := do
  let block_size := fs_info.block_size.toNat
  let checksum_size := img_opt.checksum_size.toNat
  let block ← load read_buffer v.read_offset block_size
  let write_buffer ← store v.write_buffer (u32 (i * block_size)) block
  let checksum ← update_checksum v.cks v.checksum (read_buffer.drop v.read_offset) (i32 block_size)
  let blocks_in_cs := u32 (v.blocks_in_cs + 1)
  -- the group is full: its checksum follows the block, and the next group starts
  if blocks_in_cs = img_opt.blocks_per_checksum.toNat then do
    let checksum_orig ← load read_buffer (v.read_offset + block_size) checksum_size
    if checksum_orig ≠ checksum then pure none
    else do
      let (checksum, cks) ← init_checksum v.cks img_opt.checksum_mode.toNat checksum
      pure (some ⟨write_buffer, checksum, 0,
        u32 (u32 (v.read_offset + checksum_size) + block_size), cks⟩)
  else
    pure (some ⟨write_buffer, checksum, blocks_in_cs, u32 (v.read_offset + block_size), v.cks⟩)

/-- The block loop, from block `i` with the given number of blocks to go. -/
def restore_blocks (read_buffer : List Byte) : ℕ → ℕ → chunk_vars → Run (Option chunk_vars)
  | 0, _, v => .ok (some v)
  | left + 1, i, v => do
      match ← restore_block fs_info img_opt read_buffer i v with
      | none => pure none
      | some v => restore_blocks read_buffer left (i + 1) v

/-- The blocks of a chunk, and the checksum of the group that it leaves open when it is the
last chunk and does not fill the buffer. -/
def restore_chunk (buffer_capacity blocks_read : ℕ) (read_buffer : List Byte) (v : chunk_vars) :
    Run (Option chunk_vars) := do
  let blocks_per_cs := img_opt.blocks_per_checksum.toNat
  match ← restore_blocks fs_info img_opt read_buffer blocks_read 0 v with
  | none => pure none
  | some b =>
      -- a group left open has its checksum in this chunk only at the end of the stream
      if b.blocks_in_cs ≠ 0 ∧ blocks_per_cs ≠ 0 ∧ blocks_read < buffer_capacity
          ∧ blocks_read % blocks_per_cs ≠ 0 then do
        let stored ← load read_buffer b.read_offset img_opt.checksum_size.toNat
        pure (if stored = b.checksum then some b else none)
      else pure (some b)

/-- One pass of the loop that writes the blocks of a chunk. -/
def restore_write_pass (bm : bitmap) (blocks_read : ℕ) (write_buffer : List Byte)
    (v : write_vars) (w : World) : Run (Pass write_vars × World) := do
  let block_size := fs_info.block_size.toNat
  let blocks_total := fs_info.totalblock.toNat
  let skipped := skip_loop bm blocks_total (blocks_total - v.block_id) v.block_id
  let bytes_skip := u64 (skipped * block_size)
  -- the seek is relative: it starts where the write before it has stopped
  let (ok, w) := if bytes_skip > 0 then seek_dfw_cur w bytes_skip else (true, w)
  if !ok then pure (.fail, w)
  else do
    let block_id := v.block_id + skipped
    let blocks_write := read_loop bm blocks_total (blocks_read - v.blocks_written) block_id
    let (ok, w) ←
      if blocks_write > 0 then do
        let (w_size, w) ← write_io_all w (write_buffer.drop (v.blocks_written * block_size))
          (u32 (blocks_write * block_size))
        -- both factors are converted to `int` before they are multiplied
        pure (decide (w_size = toInt32 (i32 blocks_write * i32 block_size)), w)
      else pure (true, w)
    if !ok then pure (.fail, w)
    else
      let v : write_vars := ⟨block_id + blocks_write, v.blocks_written + blocks_write⟩
      let copied_count := u64 (w.copied_count + blocks_write)
      let w := emit_progress { w with copied_count := copied_count } fs_info copied_count
      if v.blocks_written < blocks_read then pure (.next v, w) else pure (.done v, w)

/-- How many blocks the next chunk has. -/
def chunk_blocks (buffer_capacity blocks_used copied_count : ℕ) : ℕ :=
  u32 (if u64 (copied_count + buffer_capacity) < blocks_used then buffer_capacity
    -- the difference is one of `guint64`, so it wraps if more was copied
    else u64 (blocks_used + 2 ^ 64 - copied_count))

/-- `read_size` of a chunk, an `int`: with room for the checksum of a trailing group. -/
def chunk_read_size (buffer_capacity blocks_used copied_count blocks_read : ℕ) : ℤ :=
  let blocks_per_cs := img_opt.blocks_per_checksum.toNat
  let read_size := i32 (convert_blocks_to_bytes copied_count blocks_read
    fs_info.block_size.toNat blocks_per_cs img_opt.checksum_size.toNat)
  -- the trailing checksum is asked for by the counts of the chunk and of the volume
  if blocks_per_cs ≠ 0 ∧ blocks_read < buffer_capacity ∧ blocks_read % blocks_per_cs ≠ 0
      ∧ blocks_used % blocks_per_cs ≠ 0 then
    toInt32 (read_size + img_opt.checksum_size.toNat)
  else read_size

/-- One chunk. -/
def restore_pass (buffer_capacity blocks_used : ℕ) (bm : bitmap) (v : restore_vars) (w : World) :
    Run (Pass restore_vars × World) := do
  let blocks_read := chunk_blocks buffer_capacity blocks_used w.copied_count
  if blocks_read = 0 then pure (.done v, w)
  else do
    let read_size :=
      chunk_read_size fs_info img_opt buffer_capacity blocks_used w.copied_count blocks_read
    let (r_size, read_buffer, w) ← read_io_all w v.read_buffer (u64OfInt read_size)
    if r_size ≠ read_size then pure (.fail, w)
    else do
      -- all checksums of the chunk are compared before any of it is written
      match ← restore_chunk fs_info img_opt buffer_capacity blocks_read read_buffer
        ⟨v.write_buffer, v.checksum, v.blocks_in_cs, 0, w.cks⟩ with
      | none => pure (.fail, w)
      | some b => do
          let (r, w) ← passes (restore_write_pass fs_info bm blocks_read b.write_buffer)
            (blocks_read + 1) ⟨v.block_id, 0⟩ { w with cks := b.cks }
          match r with
          | none => pure (.fail, w)
          | some wv => pure (.next ⟨wv.block_id, read_buffer, b.write_buffer, b.checksum,
              b.blocks_in_cs⟩, w)

/-- `read_write_data_restore`, with `copied_count` zero as the handler sets it. -/
def read_write_data_restore (host : Host) (bm : bitmap) (w : World) : Run (Bool × World) := do
  let buffer_capacity ← buffer_capacity_of fs_info.block_size.toNat
  let blocks_used :=
    get_blocks_used fs_info.totalblock.toNat bm fs_info.usedblocks.toNat
  let buffer_size := u32 (convert_blocks_to_bytes 0 buffer_capacity fs_info.block_size.toNat
    img_opt.blocks_per_checksum.toNat img_opt.checksum_size.toNat)
  let write_buffer_size := u32 (buffer_capacity * fs_info.block_size.toNat)
  if !(host.malloc buffer_size && host.malloc write_buffer_size) then pure (false, w)
  else
    let (ok, w) := seek_dfw w 0
    if !ok then pure (false, w)
    else do
      let (checksum, cks) ← init_checksum w.cks img_opt.checksum_mode.toNat
        (host.junk .checksum img_opt.checksum_size.toNat)
      -- every pass but the last copies a block, and that pays for the fuel
      let (v, w) ← passes (restore_pass fs_info img_opt buffer_capacity blocks_used bm)
        (blocks_used + 1)
        ⟨0, host.junk .read_buffer buffer_size, host.junk .write_buffer write_buffer_size,
          checksum, 0⟩ { w with cks := cks }
      pure (v.isSome, w)

end Code

/-- `gdbus_sysbak_restore`. -/
def gdbus_sysbak_restore (host : Host) (w : World) (overwrite : Bool) : Run (Bool × World) := do
  let (dfr, w) := open_source_device host w RESTORE
  if dfr ≤ 0 then pure (handler_error w 1)
  else do
    -- the target is opened before anything is known of the image
    let (dfw, w) ← open_target_device host w RESTORE overwrite
    if dfw ≤ 0 then pure (handler_error w 2)
    else do
      let (image, w) ← read_image_desc host w
      match image with
      | none => pure (handler_error w 9)
      | some image =>
          let fs_info := image.fs_info
          let img_opt := image.options
          if !(← check_memory_size host fs_info img_opt) then pure (handler_error w 4)
          else
            match pc_alloc_bitmap host.malloc fs_info.totalblock.toNat with
            | none => pure (handler_error w 4)
            | some bm => do
                let (ok, bm, w) ← load_image_bitmap_bits host w fs_info bm
                if !ok then pure (handler_error w 5)
                else if get_partition_free_space w < fs_info.device_size.toNat then
                  pure (handler_error w 6)
                else do
                  -- the call is answered here, before a byte of the target is written
                  let w := emit_signal { w with copied_count := 0 } .reply
                  let (ok, w) ← read_write_data_restore fs_info img_opt host bm w
                  if !ok then pure (handler_error w 8)
                  else pure (true, emit_signal w (.finished fs_info.totalblock.toNat
                    fs_info.usedblocks.toNat fs_info.block_size.toNat))

end SysbakAdmin.Restore

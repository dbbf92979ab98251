/-
The `ptf` and `ptp` handlers of the four file system drivers.

A handler runs its checks in order and leaves at the first that fails with that
check's `e_code`; `ptf_prepare` is that part of a `ptf` handler, up to and including
the descriptor. What a driver reads from its own file system -- the superblock and the
bitmap -- is a `driver`, and may be anything.

The four drivers keep their own definitions at the end, each with the block size it
copies by and the place where it answers the call.

The copy loops are in `Backup` and `Restore`; here is what stands around them. Every check
sends its error through one label, `handler_error`, with a number that says which check it
was, and returns `FALSE`. The numbers are the source's, and `Replies` is about what the
caller makes of them.
-/
import SysbakAdmin.Backup

set_option autoImplicit false

namespace SysbakAdmin.Handlers

open LittleEndian ByteStore CInt CMemory Transfer FileIo
open Bitmap Checksum Io Share Backup

/-- What the handler's own `read_super_blocks` and `read_bitmap_info` report. The second
marks blocks in an array it does not allocate. -/
structure driver where
  read_super_blocks : file_system_info → Run (Bool × file_system_info)
  read_bitmap_info : file_system_info → bitmap → Run (Bool × bitmap)
  bitmap_length : ∀ fs_info bm ok bm', read_bitmap_info fs_info bm = .ok (ok, bm') →
    bm'.length = bm.length

/-- `sysbak_error_message`: a comma is missing after the ninth string, so the last two
are one entry and the tenth is `NULL`. -/
def sysbak_error_message (e_code : ℕ) : Option String :=
  ["Device Busy", "Failed to open source file", "Failed to open target file",
    "Failed to read superblock", "Not enough memory", "Failed to read bitmap",
    "Not enough disk  space", "Write header information failed",
    "Failed reading and writing dataFailed reading image header"][e_code]?

/-- `check_system_space`. -/
def check_system_space (host : Host) (w : World) (fs_info : file_system_info)
    (img_opt : image_options) : Bool :=
  let needed_space := u64 (image_head_layout.size + file_system_info_layout.size
    + image_options_layout.size + BITS_TO_BYTES fs_info.totalblock.toNat
    + convert_blocks_to_bytes 0 fs_info.usedblocks.toNat fs_info.block_size.toNat
        img_opt.blocks_per_checksum.toNat img_opt.checksum_size.toNat)
  decide (needed_space ≤ get_local_free_space host w.target)

/-- What a handler has set up when its checks are behind it. -/
structure prepared where
  fs_info : file_system_info
  img_opt : image_options
  bitmap : Bitmap.bitmap

/-- `ERROR:` of every handler. -/
def handler_error (w : World) (e_code : ℕ) : Bool × World :=
  (false, emit_signal (emit_signal w .reply) (.error (sysbak_error_message e_code) e_code))

/-- The part of a handler between the opens and the transfer that `ptf` and `ptp` share:
the superblock, the memory and the bitmap. `.error` carries the `e_code`. -/
def read_file_system (host : Host) (drv : driver) : Run (Except ℕ prepared) := do
  let (ok, fs_info) ← drv.read_super_blocks init_file_system_info
  if !ok then pure (.error 3)
  else do
    let buffer_capacity ← buffer_capacity_of fs_info.block_size.toNat
    -- a group is what fits the buffer
    let img_opt := { init_image_options with
      blocks_per_checksum := BitVec.ofNat 32 buffer_capacity }
    if !(← check_memory_size host fs_info img_opt) then pure (.error 4)
    else
      match pc_alloc_bitmap host.malloc fs_info.totalblock.toNat with
      | none => pure (.error 4)
      | some bm => do
          let (ok, bm) ← drv.read_bitmap_info fs_info bm
          if !ok then pure (.error 5) else pure (.ok ⟨fs_info, img_opt, bm⟩)

/-- A `ptf` handler up to the descriptor. -/
def ptf_prepare (host : Host) (drv : driver) (w : World) (overwrite : Bool) :
    Run (Except ℕ prepared × World) := do
  let (dfr, w) := open_source_device host w BACK_PTF
  if dfr ≤ 0 then pure (.error (if dfr = -2 then 0 else 1), w)
  else do
    -- once it is open the target is empty, whatever the later checks say
    let (dfw, w) ← open_target_device host w BACK_PTF overwrite
    if dfw ≤ 0 then pure (.error 2, w)
    else do
      match ← read_file_system host drv with
      | .error e_code => pure (.error e_code, w)
      | .ok p => do
          let fs_info ← update_used_blocks_count p.fs_info p.bitmap
          if !check_system_space host w fs_info p.img_opt then pure (.error 6, w)
          else do
            let (ok, w) ← write_image_desc w fs_info p.img_opt
            if !ok then pure (.error 7, w)
            else pure (.ok { p with fs_info := fs_info }, w)

/-- A `ptf` handler, given the block size its copy loop uses. The result of
`write_image_bitmap` is not looked at. -/
def sysbak_ptf (block_size : file_system_info → ℕ) (reply_last : Bool) (host : Host)
    (drv : driver) (w : World) (overwrite : Bool) : Run (Bool × World) := do
  let (p, w) ← ptf_prepare host drv w overwrite
  match p with
  | .error e_code => pure (handler_error w e_code)
  | .ok p => do
      let (_, w) ← write_image_bitmap w p.fs_info p.bitmap
      let w := { w with copied_count := 0 }
      -- where the answer comes last the caller waits for the data
      let w := if reply_last then w else emit_signal w .reply
      let (ok, w) ←
        read_write_data_ptf (block_size p.fs_info) p.fs_info p.img_opt host p.bitmap w
      if !ok then pure (handler_error w 8)
      else
        let w := emit_signal w (.finished p.fs_info.totalblock.toNat p.fs_info.usedblocks.toNat
          p.fs_info.block_size.toNat)
        pure (true, if reply_last then emit_signal w .reply else w)

/-- A `ptp` handler. -/
def sysbak_ptp (block_size : file_system_info → ℕ) (host : Host) (drv : driver) (w : World)
    (overwrite : Bool) : Run (Bool × World) := do
  let (dfr, w) := open_source_device host w BACK_PTP
  if dfr ≤ 0 then pure (handler_error w 1)
  else do
    let (dfw, w) ← open_target_device host w BACK_PTP overwrite
    if dfw ≤ 0 then pure (handler_error w 2)
    else do
      match ← read_file_system host drv with
      | .error e_code => pure (handler_error w e_code)
      | .ok p =>
          -- the whole device has to fit, not only its used blocks
          if get_partition_free_space w < p.fs_info.device_size.toNat then
            pure (handler_error w 6)
          else do
            let w := emit_signal { w with copied_count := 0 } .reply
            let (ok, w) ← read_write_data_ptp (block_size p.fs_info) p.fs_info host p.bitmap w
            if !ok then pure (handler_error w 8)
            else pure (true, emit_signal w (.finished p.fs_info.totalblock.toNat
              p.fs_info.usedblocks.toNat p.fs_info.block_size.toNat))

end SysbakAdmin.Handlers

/-! ## The four drivers -/

namespace SysbakAdmin.Extfs

open SysbakAdmin.Share SysbakAdmin.Io

def read_write_data_ptf (fs_info : file_system_info) :=
  Backup.read_write_data_ptf fs_info.block_size.toNat fs_info

def read_write_data_ptp (fs_info : file_system_info) :=
  Backup.read_write_data_ptp fs_info.block_size.toNat fs_info

/-- `gdbus_sysbak_extfs_ptf`. -/
def gdbus_sysbak_ptf := Handlers.sysbak_ptf (fun fs_info => fs_info.block_size.toNat) false

/-- `gdbus_sysbak_extfs_ptp`. -/
def gdbus_sysbak_ptp := Handlers.sysbak_ptp fun fs_info => fs_info.block_size.toNat

end SysbakAdmin.Extfs

namespace SysbakAdmin.Fatfs

open SysbakAdmin.Share SysbakAdmin.Io

def read_write_data_ptf (fs_info : file_system_info) :=
  Backup.read_write_data_ptf fs_info.block_size.toNat fs_info

def read_write_data_ptp (fs_info : file_system_info) :=
  Backup.read_write_data_ptp fs_info.block_size.toNat fs_info

/-- `gdbus_sysbak_fatfs_ptf`. -/
def gdbus_sysbak_ptf := Handlers.sysbak_ptf (fun fs_info => fs_info.block_size.toNat) false

/-- `gdbus_sysbak_fatfs_ptp`. -/
def gdbus_sysbak_ptp := Handlers.sysbak_ptp fun fs_info => fs_info.block_size.toNat

end SysbakAdmin.Fatfs

namespace SysbakAdmin.Xfsfs

open SysbakAdmin.Share SysbakAdmin.Io

def read_write_data_ptf (fs_info : file_system_info) :=
  Backup.read_write_data_ptf fs_info.block_size.toNat fs_info

def read_write_data_ptp (fs_info : file_system_info) :=
  Backup.read_write_data_ptp fs_info.block_size.toNat fs_info

/-- `gdbus_sysbak_xfsfs_ptf`, which answers the call after the data. -/
def gdbus_sysbak_ptf := Handlers.sysbak_ptf (fun fs_info => fs_info.block_size.toNat) true

/-- `gdbus_sysbak_xfsfs_ptp`. -/
def gdbus_sysbak_ptp := Handlers.sysbak_ptp fun fs_info => fs_info.block_size.toNat

end SysbakAdmin.Xfsfs

namespace SysbakAdmin.Btrfs

open SysbakAdmin.Share SysbakAdmin.Io

/-- By the global `block_size`, which `read_bitmap_info` has set. -/
def read_write_data_ptf (block_size : ℕ) (fs_info : file_system_info) :=
  Backup.read_write_data_ptf block_size fs_info

/-- By the global `block_size`, which `read_bitmap_info` has set. -/
def read_write_data_ptp (block_size : ℕ) (fs_info : file_system_info) :=
  Backup.read_write_data_ptp block_size fs_info

/-- `gdbus_sysbak_btrfs_ptf`, with the global as `read_bitmap_info` leaves it. -/
def gdbus_sysbak_ptf (block_size : ℕ) := Handlers.sysbak_ptf (fun _ => block_size) false

/-- `gdbus_sysbak_btrfs_ptp`, with the global as `read_bitmap_info` leaves it. -/
def gdbus_sysbak_ptp (block_size : ℕ) := Handlers.sysbak_ptp fun _ => block_size

end SysbakAdmin.Btrfs

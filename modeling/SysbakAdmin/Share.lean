/-
`gdbus-share.c`: the image descriptor and the bitmap section as they are written and
read, the size computations, and how a call opens its source and its target.

Three results carry the users of this file. `image_desc_layout` packs and unpacks the
descriptor without loss; `read_image_desc_iff` says which 110 bytes are accepted, and
with what; `load_bitmap_iff` does the same for the bitmap section. Both readers accept
exactly what the two writers write, up to the CRC.

`Host` is what the machine decides: which allocations succeed, what fresh memory
holds, which `open` calls are permitted, and what `statvfs` reports.

A descriptor is accepted if its magic, its byte order and its CRC are right. Nothing else of
it is checked here, so the fields of an accepted descriptor are arbitrary, and the modules
about a restore take them so. That what the writer makes is accepted is
`valid_desc_section`; that the fields come back is a property of the layout.
-/
import SysbakAdmin.Bitmap
import SysbakAdmin.Io
import SysbakAdmin.Lib.PackedRecord

set_option autoImplicit false

namespace SysbakAdmin.Share

open LittleEndian ByteStore CInt CMemory Transfer FileIo PackedRecord
open Bitmap Checksum Io

/-! ## Records -/

structure file_system_info where
  fs : Bytes 16
  device_size : BitVec 64
  totalblock : BitVec 64
  usedblocks : BitVec 64
  used_bitmap : BitVec 64
  block_size : BitVec 32
  deriving DecidableEq

structure image_options where
  feature_size : BitVec 32
  image_version : BitVec 16
  cpu_bits : BitVec 16
  checksum_mode : BitVec 16
  checksum_size : BitVec 16
  blocks_per_checksum : BitVec 32
  reseed_checksum : BitVec 8
  bitmap_mode : BitVec 8
  deriving DecidableEq

structure image_head where
  magic : Bytes 16
  ptc_version : Bytes 14
  version : Bytes 4
  endianess : BitVec 16
  deriving DecidableEq

structure image_desc where
  head : image_head
  fs_info : file_system_info
  options : image_options
  crc : BitVec 32
  deriving DecidableEq

def file_system_info_layout : Layout file_system_info where
  widths := [16, 8, 8, 8, 8, 4]
  fields f := [f.fs.1, enc f.device_size, enc f.totalblock, enc f.usedblocks,
    enc f.used_bitmap, enc f.block_size]
  build xs := {
    fs := .ofList 16 (xs.getD 0 [])
    device_size := dec 64 (xs.getD 1 [])
    totalblock := dec 64 (xs.getD 2 [])
    usedblocks := dec 64 (xs.getD 3 [])
    used_bitmap := dec 64 (xs.getD 4 [])
    block_size := dec 32 (xs.getD 5 []) }
  fields_widths f := by simp [f.fs.2]
  build_fields f := by simp [dec_enc]
  fields_build xs h := by
    obtain ⟨a, xs, rfl, ha, h⟩ := List.map_eq_cons_iff.mp h
    obtain ⟨b, xs, rfl, hb, h⟩ := List.map_eq_cons_iff.mp h
    obtain ⟨c, xs, rfl, hc, h⟩ := List.map_eq_cons_iff.mp h
    obtain ⟨d, xs, rfl, hd, h⟩ := List.map_eq_cons_iff.mp h
    obtain ⟨e, xs, rfl, he, h⟩ := List.map_eq_cons_iff.mp h
    obtain ⟨g, xs, rfl, hg, h⟩ := List.map_eq_cons_iff.mp h
    obtain rfl := List.map_eq_nil_iff.mp h
    simp [Bytes.ofList_val ha, enc_dec, hb, hc, hd, he, hg]

def image_options_layout : Layout image_options where
  widths := [4, 2, 2, 2, 2, 4, 1, 1]
  fields o := [enc o.feature_size, enc o.image_version, enc o.cpu_bits, enc o.checksum_mode,
    enc o.checksum_size, enc o.blocks_per_checksum, enc o.reseed_checksum, enc o.bitmap_mode]
  build xs := {
    feature_size := dec 32 (xs.getD 0 [])
    image_version := dec 16 (xs.getD 1 [])
    cpu_bits := dec 16 (xs.getD 2 [])
    checksum_mode := dec 16 (xs.getD 3 [])
    checksum_size := dec 16 (xs.getD 4 [])
    blocks_per_checksum := dec 32 (xs.getD 5 [])
    reseed_checksum := dec 8 (xs.getD 6 [])
    bitmap_mode := dec 8 (xs.getD 7 []) }
  fields_widths o := by simp
  build_fields o := by simp [dec_enc]
  fields_build xs h := by
    obtain ⟨a, xs, rfl, ha, h⟩ := List.map_eq_cons_iff.mp h
    obtain ⟨b, xs, rfl, hb, h⟩ := List.map_eq_cons_iff.mp h
    obtain ⟨c, xs, rfl, hc, h⟩ := List.map_eq_cons_iff.mp h
    obtain ⟨d, xs, rfl, hd, h⟩ := List.map_eq_cons_iff.mp h
    obtain ⟨e, xs, rfl, he, h⟩ := List.map_eq_cons_iff.mp h
    obtain ⟨f, xs, rfl, hf, h⟩ := List.map_eq_cons_iff.mp h
    obtain ⟨g, xs, rfl, hg, h⟩ := List.map_eq_cons_iff.mp h
    obtain ⟨i, xs, rfl, hi, h⟩ := List.map_eq_cons_iff.mp h
    obtain rfl := List.map_eq_nil_iff.mp h
    simp [enc_dec, ha, hb, hc, hd, he, hf, hg, hi]

def image_head_layout : Layout image_head where
  widths := [16, 14, 4, 2]
  fields h := [h.magic.1, h.ptc_version.1, h.version.1, enc h.endianess]
  build xs := {
    magic := .ofList 16 (xs.getD 0 [])
    ptc_version := .ofList 14 (xs.getD 1 [])
    version := .ofList 4 (xs.getD 2 [])
    endianess := dec 16 (xs.getD 3 []) }
  fields_widths h := by simp [h.magic.2, h.ptc_version.2, h.version.2]
  build_fields h := by simp [dec_enc]
  fields_build xs h := by
    obtain ⟨a, xs, rfl, ha, h⟩ := List.map_eq_cons_iff.mp h
    obtain ⟨b, xs, rfl, hb, h⟩ := List.map_eq_cons_iff.mp h
    obtain ⟨c, xs, rfl, hc, h⟩ := List.map_eq_cons_iff.mp h
    obtain ⟨d, xs, rfl, hd, h⟩ := List.map_eq_cons_iff.mp h
    obtain rfl := List.map_eq_nil_iff.mp h
    simp [Bytes.ofList_val ha, Bytes.ofList_val hb, Bytes.ofList_val hc, enc_dec, hd]

theorem image_head_size : image_head_layout.size = 36 := rfl
theorem file_system_info_size : file_system_info_layout.size = 52 := rfl
theorem image_options_size : image_options_layout.size = 18 := rfl

/-- The descriptor: three packed records and the CRC. -/
def image_desc_layout : Layout image_desc where
  widths := [36, 52, 18, 4]
  fields d := [image_head_layout.pack d.head, file_system_info_layout.pack d.fs_info,
    image_options_layout.pack d.options, enc d.crc]
  build xs := {
    head := image_head_layout.unpack (xs.getD 0 [])
    fs_info := file_system_info_layout.unpack (xs.getD 1 [])
    options := image_options_layout.unpack (xs.getD 2 [])
    crc := dec 32 (xs.getD 3 []) }
  fields_widths d := by
    simp [image_head_size, file_system_info_size, image_options_size]
  build_fields d := by simp [dec_enc]
  fields_build xs h := by
    obtain ⟨a, xs, rfl, ha, h⟩ := List.map_eq_cons_iff.mp h
    obtain ⟨b, xs, rfl, hb, h⟩ := List.map_eq_cons_iff.mp h
    obtain ⟨c, xs, rfl, hc, h⟩ := List.map_eq_cons_iff.mp h
    obtain ⟨d, xs, rfl, hd, h⟩ := List.map_eq_cons_iff.mp h
    obtain rfl := List.map_eq_nil_iff.mp h
    simp [image_head_layout.pack_unpack ha, file_system_info_layout.pack_unpack hb,
      image_options_layout.pack_unpack hc, enc_dec, hd]

theorem image_desc_size : image_desc_layout.size = 110 := rfl

/-! ## The machine

What is not the daemon's to decide is a parameter: memory, permissions, what `stat` and
`statvfs` answer. -/

/-- What is allocated, for telling apart what fresh memory holds. -/
inductive alloc where
  | image
  | checksum
  | read_buffer
  | write_buffer
  deriving DecidableEq, Repr

/-- The `open` calls of a handler. -/
inductive open_call where
  | source
  | check
  | target
  deriving DecidableEq, Repr

/-- The `stat` calls of a handler: the test of the source, and of the target those of
`check_file_type`, of `is_block_type` and of `open_target_device` itself. -/
inductive stat_call where
  | source
  | check
  | block
  | target
  deriving DecidableEq, Repr

/-- What the machine decides. -/
structure Host where
  malloc : ℕ → Bool
  junk : alloc → ℕ → List Byte
  may_open : open_call → Bool
  /-- whether `stat` succeeds on a path that names something -/
  may_stat : stat_call → Bool
  /-- `S_ISBLK` of a `stat` buffer that was never filled -/
  junk_is_blk : Bool
  /-- `f_frsize`, `f_bsize` and `f_bfree`, if `statvfs` succeeds -/
  statvfs : Option (ℕ × ℕ × ℕ)
  junk_length : ∀ a n, (junk a n).length = n

@[simp] theorem junk_length (host : Host) (a : alloc) (n : ℕ) :
    (host.junk a n).length = n := host.junk_length a n

/-- A machine that refuses nothing, with fresh memory all zero. -/
def plain_host : Host where
  malloc _ := true
  junk _ n := List.replicate n 0
  may_open _ := true
  may_stat _ := true
  junk_is_blk := false
  statvfs := some (4096, 4096, 4096)
  junk_length _ _ := List.length_replicate

/-! ## Options and sizes -/

def DEFAULT_BUFFER_SIZE : ℕ := 1048576
def IMAGE_MAGIC : List Byte :=
  [0x70, 0x61, 0x72, 0x74, 0x63, 0x6c, 0x6f, 0x6e, 0x65, 0x2d, 0x69, 0x6d, 0x61, 0x67, 0x65]
def IMAGE_VERSION_0002 : List Byte := [0x30, 0x30, 0x30, 0x32]
def VERSION : List Byte := [0x30, 0x2e, 0x33, 0x2e, 0x31, 0x33]
def ENDIAN_MAGIC : BitVec 16 := 0xC0DE
def BM_BIT : BitVec 8 := 0x01

def init_file_system_info : file_system_info := file_system_info_layout.unpack (List.replicate 52 0)

/-- `init_image_options`, with `set_image_options`. -/
def init_image_options : image_options where
  feature_size := 18
  image_version := 0x0002
  cpu_bits := 64
  checksum_mode := 0x20
  checksum_size := 4
  blocks_per_checksum := 0
  reseed_checksum := 1
  bitmap_mode := BM_BIT

/-- `DEFAULT_BUFFER_SIZE > block_size ? DEFAULT_BUFFER_SIZE / block_size : 1`. -/
def buffer_capacity_of (block_size : ℕ) : Run ℕ :=
  if DEFAULT_BUFFER_SIZE > block_size then udiv DEFAULT_BUFFER_SIZE block_size else .ok 1

def check_memory_size (host : Host) (fs_info : file_system_info) (img_opt : image_options) :
    Run Bool := do
  let bitmap_size := BITS_TO_BYTES fs_info.totalblock.toNat
  let buffer_capacity ← buffer_capacity_of fs_info.block_size.toNat
  let raw_io_size := u32 (buffer_capacity * fs_info.block_size.toNat)
  let cs_in_buffer ← udiv buffer_capacity img_opt.blocks_per_checksum.toNat
  let cs_size := cs_in_buffer * img_opt.checksum_size.toNat
  pure (host.malloc bitmap_size && host.malloc raw_io_size && host.malloc (raw_io_size + cs_size))

/-- The loop of `update_used_blocks_count`, whose counter is 32 bits wide. -/
def update_used_blocks_loop (total : ℕ) (bm : bitmap) : ℕ → ℕ → ℕ → Run ℕ
  | 0, _, _ => .error .diverged
  | fuel + 1, i, used =>
      if i < total then
        update_used_blocks_loop total bm fuel (u32 (i + 1))
          (if pc_test_bit i bm total ≠ 0 then used + 1 else used)
      else .ok used

/-- `update_used_blocks_count`. After `2 ^ 32` rounds the counter is back where it was. -/
def update_used_blocks_count (fs_info : file_system_info) (bm : bitmap) :
    Run file_system_info := do
  let used ← update_used_blocks_loop fs_info.totalblock.toNat bm (2 ^ 32) 0 0
  pure { fs_info with used_bitmap := BitVec.ofNat 64 used }

def get_checksum_count (block_count blocks_per_cs : ℕ) : ℕ :=
  if blocks_per_cs = 0 then 0 else block_count / blocks_per_cs

/-- `convert_blocks_to_bytes`; `block_count` is a `uint` and so is its product with
`block_size`. -/
def convert_blocks_to_bytes (block_offset block_count block_size blocks_per_checksum
    checksum_size : ℕ) : ℕ :=
  let block_count := u32 block_count
  let bytes_count := u32 (block_count * block_size)
  if blocks_per_checksum ≠ 0 then
    let total_cs := get_checksum_count (u64 (block_offset + block_count)) blocks_per_checksum
    let copied_cs := get_checksum_count block_offset blocks_per_checksum
    let newer_cs := u64 (total_cs + 2 ^ 64 - copied_cs)
    u64 (bytes_count + newer_cs * checksum_size)
  else bytes_count

def get_local_free_space (host : Host) (kind : file_kind) : ℕ :=
  match host.statvfs with
  | none => 0
  | some (f_frsize, f_bsize, f_bfree) =>
      match kind with
      | .missing => 0
      | .other => 0
      | _ =>
          let dest_size := u64 (f_frsize * f_bfree)
          if dest_size = 0 then u64 (f_bsize * f_bfree) else dest_size

/-- `get_partition_free_space`, of the open target. -/
def get_partition_free_space (w : World) : ℕ :=
  match w.target with
  | .regular => w.dfw.data.length
  | .block => w.dfw.data.length
  | _ => 0

/-! ## The descriptor and the bitmap section -/

def init_image_head : image_head where
  magic := .ofList 16 IMAGE_MAGIC
  ptc_version := .ofList 14 VERSION
  version := .ofList 4 IMAGE_VERSION_0002
  endianess := ENDIAN_MAGIC

def write_image_desc (w : World) (fs_info : file_system_info) (img_opt : image_options) :
    Run (Bool × World) := do
  let (seed, cks) := init_crc32 w.cks
  let image : image_desc := ⟨init_image_head, fs_info, img_opt, seed⟩
  let crc ← crc32 cks seed (image_desc_layout.pack image)
    (image_desc_layout.size - CRC32_SIZE : ℕ)
  let (r, w) ← write_io_all { w with cks := cks }
    (image_desc_layout.pack { image with crc := crc }) image_desc_layout.size
  pure (decide (r = image_desc_layout.size), w)

/-- `write_image_bitmap`: the first transfer is tested for `-1` only. -/
def write_image_bitmap (w : World) (fs_info : file_system_info) (bm : bitmap) :
    Run (Bool × World) := do
  let bitmap_size := BITS_TO_BYTES fs_info.totalblock.toNat
  let (r, w) ← write_io_all w (bitmap_bytes bm) bitmap_size
  if r = -1 then pure (false, w)
  else do
    let (seed, cks) := init_crc32 w.cks
    let crc ← crc32 cks seed (bitmap_bytes bm) (i32 bitmap_size)
    let (r, w) ← write_io_all { w with cks := cks } (enc crc) CRC32_SIZE
    pure (decide (r = CRC32_SIZE), w)

/-- What `read_image_desc` and `check_file_type` compute over a descriptor. -/
def image_crc (cks : checksum_lib) (image : List Byte) : Run (BitVec 32 × checksum_lib) := do
  let (seed, cks) := init_crc32 cks
  let crc ← crc32 cks seed image (image_desc_layout.size - CRC32_SIZE : ℕ)
  pure (crc, cks)

def read_image_desc (host : Host) (w : World) : Run (Option image_desc × World) := do
  let (r, image, w) ← read_io_all w (host.junk .image image_desc_layout.size)
    image_desc_layout.size
  if r ≠ image_desc_layout.size then pure (none, w)
  else if image.take 15 ≠ IMAGE_MAGIC then pure (none, w)
  else do
    let (crc, cks) ← image_crc w.cks image
    let desc := image_desc_layout.unpack image
    if crc ≠ desc.crc then pure (none, { w with cks := cks })
    else if desc.head.endianess ≠ ENDIAN_MAGIC then pure (none, { w with cks := cks })
    else pure (some desc, { w with cks := cks })

/-- `load_image_bitmap_bits`: whether it succeeded, the bitmap, the state. The results of
the transfers are compared as `unsigned long long`. -/
def load_image_bitmap_bits (host : Host) (w : World) (fs_info : file_system_info)
    (bm : bitmap) : Run (Bool × bitmap × World) := do
  let bitmap_size := BITS_TO_BYTES fs_info.totalblock.toNat
  let (r, memory, w) ← read_io_all w (bitmap_bytes bm) bitmap_size
  let bm := bitmap_of_bytes bm.length memory
  if u64OfInt r ≠ bitmap_size then pure (false, bm, w)
  else do
    let (r, r_crc, w) ← read_io_all w (host.junk .image CRC32_SIZE) CRC32_SIZE
    if u64OfInt r ≠ CRC32_SIZE then pure (false, bm, w)
    else do
      let (seed, cks) := init_crc32 w.cks
      let crc ← crc32 cks seed memory (i32 bitmap_size)
      pure (decide (crc = dec 32 r_crc), bm, { w with cks := cks })

/-! ## Opening -/

def BACK_DD : ℕ := 1
def BACK_PTF : ℕ := 2
def BACK_PTP : ℕ := 3
def RESTORE : ℕ := 4

/-- `is_block_type`, of the kind of a path: 0 as well where `stat` fails. -/
def is_block_type (stat : Bool) (kind : file_kind) : ℤ :=
  if stat ∧ kind = .block then 1 else 0

/-- A descriptor number for an open that succeeds, and the error return. -/
def opened (ok : Bool) : ℤ := if ok then 3 else -1

/-- `check_file_type` of the target path: no `stat` of it, nothing in it, or a complete
descriptor in front. A device has no size to `stat`. -/
def check_file_type (host : Host) (w : World) : Run (Bool × World) :=
  if host.may_stat .check = false then .ok (true, w)
  else
  match w.target with
  | .missing => .ok (true, w)
  | .block => .ok (true, w)
  | .other => .ok (false, w)
  | .regular =>
      if w.dfw.data.length = 0 then .ok (true, w)
      else if host.may_open .check = false then .ok (false, w)
      else do
        let (image, sched) := read_one w.sched { w.dfw with pos := 0 } image_desc_layout.size
        let w := { w with sched := sched }
        match image with
        | none => pure (false, w)
        | some image =>
            if image.length ≠ image_desc_layout.size then pure (false, w)
            else if image.take 15 ≠ IMAGE_MAGIC then pure (false, w)
            else do
              let (crc, cks) ← image_crc w.cks image
              pure (decide (crc = (image_desc_layout.unpack image).crc), { w with cks := cks })

/-- `open_source_device`: the descriptor number and the state. -/
def open_source_device (host : Host) (w : World) (mode : ℕ) : ℤ × World :=
  let ddd_block_device : ℤ :=
    if mode = BACK_DD then is_block_type (host.may_stat .source) w.source else -1
  if mode = BACK_PTF ∨ mode = BACK_PTP ∨ ddd_block_device = 1 ∨ mode = RESTORE
      ∨ ddd_block_device = 0 then
    match w.source with
    | .missing => (-1, w)
    | .other => (-1, w)
    | kind => (opened (host.may_open .source),
        { w with dfr := { w.dfr with pos := 0, growable := decide (kind = .regular) } })
  else (0, w)

/-- `open(target, flags)` with `O_WRONLY` and the given further flags. -/
def open_target (host : Host) (w : World) (creat trunc excl : Bool) : ℤ × World :=
  if host.may_open .target = false then (-1, w)
  else
    match w.target with
    | .missing =>
        if creat then (3, { w with target := .regular, dfw := ⟨[], 0, true⟩ }) else (-1, w)
    | .regular =>
        if creat && excl then (-1, w)
        else (3, { w with dfw := ⟨if trunc then [] else w.dfw.data, 0, true⟩ })
    | .block =>
        if creat && excl then (-1, w) else (3, { w with dfw := ⟨w.dfw.data, 0, false⟩ })
    | .other => (-1, w)

def open_target_device (host : Host) (w : World) (mode : ℕ) (overwrite : Bool) :
    Run (ℤ × World) := do
  let (ok, w) ← check_file_type host w
  if !ok then pure (0, w)
  else
    let ddd_block_device : ℤ :=
      if mode = BACK_DD then is_block_type (host.may_stat .block) w.target else -1
    if mode = BACK_PTF ∨ ddd_block_device = 0 then
      pure (open_target host w true true (!overwrite))
    else if mode = RESTORE ∨ mode = BACK_PTP ∨ ddd_block_device = 1 then
      -- a `stat` that fails leaves its buffer alone, and its result is not looked at
      let is_blk := if w.target = .missing ∨ host.may_stat .target = false then host.junk_is_blk
        else decide (w.target = .block)
      if is_blk then pure (open_target host w false false false)
      else pure (open_target host w true false (!overwrite))
    else pure (0, w)

/-! ## Sizes -/

/-- **`convert_blocks_to_bytes` is exact** as long as the blocks fit 32 bits: the blocks, and one
checksum for each multiple of the group size that they pass. The product is taken in 32 bits, and
the two quotients count the multiples up to either end. -/
theorem convert_blocks_to_bytes_eq {o n bs g m : ℕ} (hn : n < 2 ^ 32) (hbs : n * bs < 2 ^ 32)
    (ho : o + n < 2 ^ 64) (hg : 0 < g) (hm : m < 2 ^ 16) :
    convert_blocks_to_bytes o n bs g m = n * bs + ((o + n) / g - o / g) * m := by
  have hle : o / g ≤ (o + n) / g := Nat.div_le_div_right (by omega)
  have hcs : (o + n) / g - o / g ≤ n := by
    have hdiv : (o + n) / g ≤ o / g + n := by
      calc (o + n) / g ≤ (o + n * g) / g :=
            Nat.div_le_div_right (Nat.add_le_add_left (Nat.le_mul_of_pos_right n hg) o)
        _ = o / g + n := Nat.add_mul_div_right _ _ hg
    omega
  have hmul : ((o + n) / g - o / g) * m ≤ 2 ^ 32 * 2 ^ 16 :=
    Nat.mul_le_mul (by omega) (by omega)
  have hfloor : (o + n) / g ≤ o + n := Nat.div_le_self _ _
  have hnewer : u64 ((o + n) / g + 2 ^ 64 - o / g) = (o + n) / g - o / g := by
    rw [u64, show (o + n) / g + 2 ^ 64 - o / g = ((o + n) / g - o / g) + 2 ^ 64 by omega,
      Nat.add_mod_right, Nat.mod_eq_of_lt (by omega)]
  simp only [convert_blocks_to_bytes, get_checksum_count, u32_of_lt hn, u32_of_lt hbs,
    u64_of_lt ho, ne_eq, show ¬ g = 0 by omega, not_false_eq_true, if_true, if_false, hnewer]
  exact u64_of_lt (by omega)

/-! ## The descriptor section

`desc_section` is what the descriptor is in the image; a reader accepts a string
exactly when it has the magic, the byte order mark and its own CRC. -/

/-- What the reader asks of the 110 bytes. The fields of the header are not among it, so what they
hold is arbitrary. -/
structure valid_desc (image : List Byte) : Prop where
  length_eq : image.length = 110
  magic : image.take 15 = IMAGE_MAGIC
  crc_ok : sealed image
  endian : (image_desc_layout.unpack image).head.endianess = ENDIAN_MAGIC

/-- The bytes before the crc field. -/
def desc_front (head : image_head) (fs_info : file_system_info) (img_opt : image_options) :
    List Byte :=
  image_head_layout.pack head ++ file_system_info_layout.pack fs_info
    ++ image_options_layout.pack img_opt

theorem desc_front_length (head : image_head) (fs_info : file_system_info)
    (img_opt : image_options) : (desc_front head fs_info img_opt).length = 106 := by
  rw [desc_front, List.length_append, List.length_append, Layout.pack_length, Layout.pack_length,
    Layout.pack_length, image_head_size, file_system_info_size, image_options_size]

/-- The crc field is the last. -/
theorem pack_desc (head : image_head) (fs_info : file_system_info) (img_opt : image_options)
    (c : BitVec 32) :
    image_desc_layout.pack ⟨head, fs_info, img_opt, c⟩
      = desc_front head fs_info img_opt ++ enc c := by
  change [image_head_layout.pack head, file_system_info_layout.pack fs_info,
    image_options_layout.pack img_opt, enc c].flatten = _
  simp only [List.flatten_cons, List.flatten_nil, List.append_nil, desc_front, List.append_assoc]

theorem pack_take (head : image_head) (fs_info : file_system_info) (img_opt : image_options)
    (c : BitVec 32) :
    (image_desc_layout.pack ⟨head, fs_info, img_opt, c⟩).take 106
      = desc_front head fs_info img_opt := by
  rw [pack_desc, List.take_left' (desc_front_length _ _ _)]

theorem pack_drop (head : image_head) (fs_info : file_system_info) (img_opt : image_options)
    (c : BitVec 32) :
    (image_desc_layout.pack ⟨head, fs_info, img_opt, c⟩).drop 106 = enc c := by
  rw [pack_desc, List.drop_left' (desc_front_length _ _ _)]

/-- The descriptor as it is written. -/
def desc_section (fs_info : file_system_info) (img_opt : image_options) : List Byte :=
  image_desc_layout.pack ⟨init_image_head, fs_info, img_opt,
    crc CRC32_SEED (desc_front init_image_head fs_info img_opt)⟩

@[simp] theorem desc_section_length (fs_info : file_system_info) (img_opt : image_options) :
    (desc_section fs_info img_opt).length = 110 := by
  rw [desc_section, Layout.pack_length, image_desc_size]

/-- The stored crc is the last field of the string. -/
theorem unpack_crc {image : List Byte} (h : image.length = 110) :
    (image_desc_layout.unpack image).crc = dec 32 (image.drop 106) := by
  have hp := pack_drop (image_desc_layout.unpack image).head (image_desc_layout.unpack image).fs_info
    (image_desc_layout.unpack image).options (image_desc_layout.unpack image).crc
  rw [image_desc_layout.pack_unpack h] at hp
  rw [hp, dec_enc (by norm_num)]

/-- The reader's comparison is the seal. -/
theorem crc_field_iff {image : List Byte} (h : image.length = 110) :
    crc CRC32_SEED (image.take 106) = (image_desc_layout.unpack image).crc ↔ sealed image := by
  rw [unpack_crc h, dec, crc_eq_iff_sealed _ (by rw [List.length_drop]; omega),
    List.take_append_drop]

/-- **What is written is accepted.** Magic and byte order are constants of the writer, and the CRC
is taken over the bytes in front of it, which is what the reader recomputes. -/
theorem valid_desc_section (fs_info : file_system_info) (img_opt : image_options) :
    valid_desc (desc_section fs_info img_opt) where
  length_eq := desc_section_length _ _
  magic := by
    -- the magic leads the head, and the head leads the descriptor
    rw [desc_section, pack_desc, desc_front, List.append_assoc, List.append_assoc,
      List.take_append_of_le_length (by rw [Layout.pack_length, image_head_size]; omega)]
    decide
  crc_ok := by
    rw [← crc_field_iff (desc_section_length _ _)]
    rw [desc_section, Layout.unpack_pack, pack_take]
  endian := by
    simp only [desc_section, Layout.unpack_pack]
    rfl

/-- What a reader gets out of it. -/
theorem unpack_desc_section (fs_info : file_system_info) (img_opt : image_options) :
    (image_desc_layout.unpack (desc_section fs_info img_opt)).fs_info = fs_info ∧
      (image_desc_layout.unpack (desc_section fs_info img_opt)).options = img_opt := by
  simp only [desc_section, Layout.unpack_pack, and_self]

theorem image_crc_ok (cks : checksum_lib) {image : List Byte} (h : image.length = 110) :
    image_crc cks image = .ok (crc CRC32_SEED (image.take 106), (init_crc32 cks).2) := by
  have hcrc := crc32_seeded cks image (n := 106) (by omega)
  simp only [image_crc, image_desc_size, CRC32_SIZE, Nat.reduceSub, hcrc, ok_bind, pure_eq]

/-- **`write_image_desc`**: some front part of the descriptor, and `TRUE` exactly when it is all
of it. It is one transfer of 110 bytes, so `write_io_all_spec` says all of it. -/
theorem write_image_desc_spec (w : World) (fs_info : file_system_info) (img_opt : image_options) :
    ∃ e ≤ 110, ∃ (s' : List Outcome) (k : ℕ) (c' : checksum_lib),
      write_image_desc w fs_info img_opt = .ok (decide (e = 110), { w with
        dfw := w.dfw.written ((desc_section fs_info img_opt).take e),
        sched := s', io_failed := k, cks := c' }) ∧
      s' <:+ w.sched ∧ w.io_failed ≤ k ∧ (k = w.io_failed ↔ e = 110) ∧
      (w.sched = [] → w.dfw.room 110 = 110 → e = 110) := by
  obtain ⟨e, he, r, s', k, hw, hs, hk, hr, hkiff, -, hfull⟩ := write_io_all_spec
    { w with cks := (init_crc32 w.cks).2 } (desc_section fs_info img_opt) (n := 110)
    (by omega) (by rw [desc_section_length])
  have hcrc := crc32_seeded w.cks
    (image_desc_layout.pack ⟨init_image_head, fs_info, img_opt, (init_crc32 w.cks).1⟩)
    (n := 106) (by rw [Layout.pack_length, image_desc_size]; omega)
  rw [pack_take] at hcrc
  refine ⟨e, he, s', k, (init_crc32 w.cks).2, ?_, hs, hk, hkiff, hfull⟩
  rw [desc_section] at hw
  simp only [write_image_desc, image_desc_size, CRC32_SIZE, Nat.reduceSub, hcrc, ok_bind, hw,
    pure_eq, hr, desc_section]

/-- **`read_image_desc`** accepts exactly the valid descriptors. A short read is refused by its
count, and of a whole one the three checks are `valid_desc` word for word. -/
theorem read_image_desc_spec (host : Host) (w : World) :
    ∃ e ≤ 110, ∃ (s' : List Outcome) (k : ℕ) (c' : checksum_lib) (d : Option image_desc),
      read_image_desc host w = .ok (d, { w with
        dfr := { w.dfr with pos := w.dfr.pos + e }, sched := s', io_failed := k, cks := c' }) ∧
      s' <:+ w.sched ∧ (w.sched = [] → w.dfr.pos + 110 ≤ w.dfr.data.length → e = 110) ∧
      (∀ desc, d = some desc ↔ e = 110 ∧ valid_desc (slice w.dfr.data w.dfr.pos 110) ∧
        desc = image_desc_layout.unpack (slice w.dfr.data w.dfr.pos 110)) := by
  obtain ⟨e, he, r, s', k, hw, hlen, hs, hk, hr, -, -, hfull⟩ := read_io_all_spec w
    (host.junk .image 110) (n := 110) (by omega) (by simp)
  -- either the whole descriptor was read or the function stops at once
  by_cases he110 : e = 110
  · subst he110
    have himg : overlay 0 (host.junk .image 110) 0 (slice w.dfr.data w.dfr.pos 110)
        = slice w.dfr.data w.dfr.pos 110 :=
      overlay_whole 0 (by rw [hlen, junk_length])
    rw [himg] at hw
    have hr110 : r = 110 := hr.mpr rfl
    subst hr110
    simp only [read_image_desc, image_desc_size, hw, ok_bind, Nat.cast_ofNat, ne_eq,
      not_true_eq_false, if_false, image_crc_ok _ hlen]
    by_cases hmagic : (slice w.dfr.data w.dfr.pos 110).take 15 = IMAGE_MAGIC
    · rw [if_neg (by simpa using hmagic)]
      by_cases hcrc : crc CRC32_SEED ((slice w.dfr.data w.dfr.pos 110).take 106)
          = (image_desc_layout.unpack (slice w.dfr.data w.dfr.pos 110)).crc
      · rw [if_neg (by simpa using hcrc)]
        by_cases hend : (image_desc_layout.unpack (slice w.dfr.data w.dfr.pos 110)).head.endianess
            = ENDIAN_MAGIC
        · rw [if_neg (by simpa using hend)]
          refine ⟨110, le_rfl, s', k, _, _, rfl, hs, fun _ _ => rfl, fun desc => ?_⟩
          have hvalid : valid_desc (slice w.dfr.data w.dfr.pos 110) :=
            ⟨hlen, hmagic, (crc_field_iff hlen).mp hcrc, hend⟩
          simp [hvalid, eq_comm]
        · rw [if_pos (by simpa using hend)]
          refine ⟨110, le_rfl, s', k, _, _, rfl, hs, fun _ _ => rfl, fun desc => ?_⟩
          simp only [reduceCtorEq, false_iff]
          rintro ⟨-, hv, -⟩
          exact hend hv.endian
      · rw [if_pos (by simpa using hcrc)]
        refine ⟨110, le_rfl, s', k, _, _, rfl, hs, fun _ _ => rfl, fun desc => ?_⟩
        simp only [reduceCtorEq, false_iff]
        rintro ⟨-, hv, -⟩
        exact hcrc ((crc_field_iff hlen).mpr hv.crc_ok)
    · rw [if_pos (by simpa using hmagic)]
      refine ⟨110, le_rfl, s', k, _, _, rfl, hs, fun _ _ => rfl, fun desc => ?_⟩
      simp only [reduceCtorEq, false_iff]
      rintro ⟨-, hv, -⟩
      exact hmagic hv.magic
  · have hr110 : ¬ r = 110 := fun h => he110 (hr.mp (by exact_mod_cast h))
    refine ⟨e, he, s', k, w.cks, none, ?_, hs, hfull, fun desc => by simp [he110]⟩
    simp only [read_image_desc, image_desc_size, hw, ok_bind, Nat.cast_ofNat, ne_eq, hr110,
      not_false_eq_true, if_true, pure_eq]

/-! ## The bitmap section -/

/-- The bytes of the bitmap that are stored. -/
def bitmap_data (total : ℕ) (bm : bitmap) : List Byte :=
  (bitmap_bytes bm).take (BITS_TO_BYTES total)

/-- The bitmap as it is written, with its crc. -/
def bitmap_section (total : ℕ) (bm : bitmap) : List Byte :=
  bitmap_data total bm ++ crc_bytes (bitmap_data total bm)

theorem bitmap_data_length {total : ℕ} {bm : bitmap} (h : BITS_TO_BYTES total ≤ 8 * bm.length) :
    (bitmap_data total bm).length = BITS_TO_BYTES total := by
  rw [bitmap_data, List.length_take, bitmap_bytes_length]; omega

theorem bitmap_section_length (total : ℕ) {bm : bitmap}
    (h : BITS_TO_BYTES total ≤ 8 * bm.length) :
    (bitmap_section total bm).length = BITS_TO_BYTES total + 4 := by
  rw [bitmap_section, List.length_append, bitmap_data_length h, crc_bytes_length]

/-- **`write_image_bitmap`**: some front part of the bitmap and then some front part of its crc;
with both complete the result is `TRUE`. The converse does not hold: the result of the first
transfer is compared with -1 only, so a bitmap that has come short may be followed by its crc and
a `TRUE`. -/
theorem write_image_bitmap_spec (w : World) (fs_info : file_system_info) {bm : bitmap}
    (hn : BITS_TO_BYTES fs_info.totalblock.toNat < 2 ^ 31)
    (hlen : BITS_TO_BYTES fs_info.totalblock.toNat ≤ 8 * bm.length) :
    ∃ e ≤ BITS_TO_BYTES fs_info.totalblock.toNat, ∃ e' ≤ 4,
      ∃ (ok : Bool) (s' : List Outcome) (k : ℕ) (c' : checksum_lib),
      write_image_bitmap w fs_info bm = .ok (ok, { w with
        dfw := (w.dfw.written ((bitmap_data fs_info.totalblock.toNat bm).take e)).written
          ((crc_bytes (bitmap_data fs_info.totalblock.toNat bm)).take e'),
        sched := s', io_failed := k, cks := c' }) ∧
      s' <:+ w.sched ∧ w.io_failed ≤ k ∧
      (k = w.io_failed ↔ e = BITS_TO_BYTES fs_info.totalblock.toNat ∧ e' = 4) ∧
      (e = BITS_TO_BYTES fs_info.totalblock.toNat ∧ e' = 4 → ok = true) ∧
      (w.sched = [] → w.dfw.growable = true →
        e = BITS_TO_BYTES fs_info.totalblock.toNat ∧ e' = 4) := by
  generalize htot : fs_info.totalblock.toNat = total at hn hlen ⊢
  obtain ⟨e, he, r, s', k, hw, hs, hk, hr, hkiff, -, hfull⟩ := write_io_all_spec w
    (bitmap_bytes bm) hn (by rw [bitmap_bytes_length]; exact hlen)
  have htake : (bitmap_bytes bm).take e = (bitmap_data total bm).take e := by
    rw [bitmap_data, List.take_take, Nat.min_eq_left he]
  rw [htake] at hw
  by_cases hr1 : r = -1
  · -- the transfer failed: nothing more is written
    have hne : e ≠ BITS_TO_BYTES total := by
      intro h
      have := hr.mpr h
      omega
    refine ⟨e, he, 0, by omega, false, s', k, w.cks, ?_, hs, hk, ?_, ?_, ?_⟩
    · simp only [write_image_bitmap, htot, hw, ok_bind, hr1, if_true, pure_eq, List.take_zero,
        written_nil]
    · rw [hkiff]; omega
    · omega
    · intro h1 h2
      exact absurd (hfull h1 (room_of_growable h2 _)) hne
  · obtain ⟨e', he', r', s'', k', hw', hs', hk', hr', hkiff', -, hfull'⟩ := write_io_all_spec
      { w with
        dfw := w.dfw.written ((bitmap_data total bm).take e), sched := s', io_failed := k,
        cks := (init_crc32 w.cks).2 }
      (crc_bytes (bitmap_data total bm)) (n := 4) (by omega) (by rw [crc_bytes_length])
    have hcrc := crc32_seeded w.cks (bitmap_bytes bm) (n := BITS_TO_BYTES total)
      (by rw [bitmap_bytes_length]; exact hlen)
    dsimp only at hs' hk' hkiff' hfull'
    refine ⟨e, he, e', he', decide (r' = 4), s'', k', (init_crc32 w.cks).2, ?_, hs'.trans hs,
      hk.trans hk', ?_, ?_, ?_⟩
    · simp only [write_image_bitmap, htot, hw, ok_bind, hr1, if_false, i32_of_lt hn, hcrc,
        CRC32_SIZE]
      rw [← bitmap_data, show enc (crc CRC32_SEED (bitmap_data total bm))
        = crc_bytes (bitmap_data total bm) from rfl, hw']
      rfl
    · constructor
      · intro h
        exact ⟨hkiff.mp (by omega), hkiff'.mp (by omega)⟩
      · rintro ⟨h1, h2⟩
        rw [hkiff'.mpr h2, hkiff.mpr h1]
    · rintro ⟨-, h2⟩
      simpa using hr'.mpr h2
    · intro h1 h2
      refine ⟨hfull h1 (room_of_growable h2 _), hfull' ?_ (room_of_growable ?_ _)⟩
      · exact List.suffix_nil.mp (h1 ▸ hs)
      · simpa using h2

/-- **`load_image_bitmap_bits`** succeeds exactly on a bitmap followed by its crc. Here both
counts are compared with what was asked for, and then the CRC of what was read. -/
theorem load_bitmap_spec (host : Host) (w : World) (fs_info : file_system_info) (bm : bitmap)
    (hn : BITS_TO_BYTES fs_info.totalblock.toNat < 2 ^ 31)
    (hlen : BITS_TO_BYTES fs_info.totalblock.toNat ≤ 8 * bm.length) :
    ∃ e ≤ BITS_TO_BYTES fs_info.totalblock.toNat + 4,
      ∃ (ok : Bool) (bm' : bitmap) (s' : List Outcome) (k : ℕ) (c' : checksum_lib),
      load_image_bitmap_bits host w fs_info bm = .ok (ok, bm', { w with
        dfr := { w.dfr with pos := w.dfr.pos + e }, sched := s', io_failed := k, cks := c' }) ∧
      s' <:+ w.sched ∧ bm'.length = bm.length ∧
      (w.sched = [] →
        w.dfr.pos + (BITS_TO_BYTES fs_info.totalblock.toNat + 4) ≤ w.dfr.data.length →
        e = BITS_TO_BYTES fs_info.totalblock.toNat + 4) ∧
      (ok = true ↔ e = BITS_TO_BYTES fs_info.totalblock.toNat + 4 ∧
        (slice w.dfr.data w.dfr.pos e).length = e ∧ sealed (slice w.dfr.data w.dfr.pos e)) ∧
      (ok = true → bm' = bitmap_load bm
        (slice w.dfr.data w.dfr.pos (BITS_TO_BYTES fs_info.totalblock.toNat))) := by
  generalize htot : fs_info.totalblock.toNat = total at hn hlen ⊢
  generalize hN : BITS_TO_BYTES total = n at hn hlen ⊢
  -- two reads, the words and then their checksum
  obtain ⟨e, he, r, s', k, hw, hread, hs, hk, hr, -, hshort, hfull⟩ := read_io_all_spec w
    (bitmap_bytes bm) hn (by rw [bitmap_bytes_length]; exact hlen)
  by_cases hen : e = n
  · subst hen
    obtain rfl := hr.mpr rfl
    obtain ⟨e', he', r', s'', k', hw', hread', hs', hk', hr', -, hshort', hfull'⟩ :=
      read_io_all_spec
        { w with dfr := { w.dfr with pos := w.dfr.pos + e }, sched := s', io_failed := k }
        (host.junk .image 4) (n := 4) (by omega) (by simp)
    dsimp only at hread' hs' hfull'
    set memory := overlay 0 (bitmap_bytes bm) 0 (slice w.dfr.data w.dfr.pos e) with hmem
    have hmemlen : memory.length = 8 * bm.length := by
      rw [hmem, overlay_length, hread, bitmap_bytes_length]; omega
    have hmemtake : memory.take e = slice w.dfr.data w.dfr.pos e := by
      have h := take_overlay_zero (0 : Byte) (bitmap_bytes bm) (slice w.dfr.data w.dfr.pos e)
      rwa [hread, ← hmem] at h
    by_cases he4 : e' = 4
    · subst he4
      obtain rfl := hr'.mpr rfl
      have hcrcbytes : overlay 0 (host.junk .image 4) 0 (slice w.dfr.data (w.dfr.pos + e) 4)
          = slice w.dfr.data (w.dfr.pos + e) 4 :=
        overlay_whole 0 (by rw [hread', junk_length])
      rw [hcrcbytes] at hw'
      have hcrc := crc32_seeded w.cks memory (n := e) (by omega)
      rw [hmemtake] at hcrc
      have hcut : slice w.dfr.data w.dfr.pos (e + 4)
          = slice w.dfr.data w.dfr.pos e ++ slice w.dfr.data (w.dfr.pos + e) 4 :=
        (slice_append _ _ _ _).symm
      -- comparing the two checksums is asking whether the section is sealed
      have hseal : crc CRC32_SEED (slice w.dfr.data w.dfr.pos e)
          = dec 32 (slice w.dfr.data (w.dfr.pos + e) 4)
          ↔ sealed (slice w.dfr.data w.dfr.pos (e + 4)) := by
        rw [hcut, dec, crc_eq_iff_sealed _ hread']
      refine ⟨e + 4, le_rfl, decide (crc CRC32_SEED (slice w.dfr.data w.dfr.pos e)
        = dec 32 (slice w.dfr.data (w.dfr.pos + e) 4)), bitmap_of_bytes bm.length memory, s'', k',
        (init_crc32 w.cks).2, ?_, hs'.trans hs, by simp [bitmap_of_bytes], fun _ _ => rfl, ?_,
        fun _ => rfl⟩
      · simp only [load_image_bitmap_bits, htot, hN, hw, ok_bind, u64OfInt_natCast
          (show e < 2 ^ 64 by omega), ne_eq, not_true_eq_false, if_false, CRC32_SIZE, hw',
          u64OfInt_natCast (show 4 < 2 ^ 64 by omega), i32_of_lt hn, hcrc, pure_eq, Nat.add_assoc]
      · rw [decide_eq_true_iff, hseal]
        have hl : (slice w.dfr.data w.dfr.pos (e + 4)).length = e + 4 := by
          rw [hcut, List.length_append, hread, hread']
        simp [hl]
    · -- the crc could not be read
      have hr4 : u64OfInt r' ≠ 4 := by
        rcases hshort' he4 with h | h <;> rw [h] <;> decide
      refine ⟨e + e', by omega, false, bitmap_of_bytes bm.length memory, s'', k', w.cks, ?_,
        hs'.trans hs, by simp [bitmap_of_bytes], ?_, ?_, by simp⟩
      · simp only [load_image_bitmap_bits, htot, hN, hw, ok_bind, u64OfInt_natCast
          (show e < 2 ^ 64 by omega), ne_eq, not_true_eq_false, if_false, CRC32_SIZE, hw', hr4,
          not_false_eq_true, if_true, pure_eq, Nat.add_assoc]
      · intro h1 h2
        exact absurd (hfull' (List.suffix_nil.mp (h1 ▸ hs)) (by omega)) he4
      · simp only [Bool.false_eq_true, false_iff]
        omega
  · -- the bitmap could not be read
    have hrn : u64OfInt r ≠ n := by
      rcases hshort hen with h | h
      · rw [h]
        intro h0
        have : n = 0 := h0.symm
        omega
      · rw [h]
        intro h0
        have : n = 2 ^ 64 - 1 := h0.symm
        omega
    refine ⟨e, by omega, false, bitmap_of_bytes bm.length
      (overlay 0 (bitmap_bytes bm) 0 (slice w.dfr.data w.dfr.pos e)), s', k, w.cks, ?_, hs, ?_, ?_,
      ?_, by simp⟩
    · simp only [load_image_bitmap_bits, htot, hN, hw, ok_bind, ne_eq, hrn, not_false_eq_true,
        if_true, pure_eq]
    · simp [bitmap_of_bytes]
    · intro h1 h2
      exact absurd (hfull h1 (by omega)) hen
    · simp only [Bool.false_eq_true, false_iff]
      omega

end SysbakAdmin.Share

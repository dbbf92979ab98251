/-
The image file as a whole, and reading it back.

`disk_image` is descriptor, bitmap and data section one after the other, as a `ptf` call
lays them down with the options it sets: CRC32, and one checksum for each buffer. With
these options every chunk of the reader is one group of the writer, so every chunk fits
its buffer (`chunks_fit_ptf`) and what the reader checks is the whole stream
(`checked_eq_stream`).

The two sides were brought to one stream before: the writer emits it whatever runs the
bitmap has (`ImageWriter`), and the reader takes it apart whatever chunks it is cut into
(`ImageReader`). What is left for this module is to set the sizes: with a group for each
buffer a chunk is a group, the last one perhaps short, and the reader looks at every
checksum there is. The three parts of the image are read back one after the other
(`front_read_back`, `data_read_back`), each on what the one before it has left.
-/
import SysbakAdmin.ImageReader
import SysbakAdmin.PartitionCopy

set_option autoImplicit false

namespace SysbakAdmin.RoundTrip

open LittleEndian ByteStore CInt CMemory DoWhile Transfer FileIo GroupStream PackedRecord
open Bitmap Checksum Io Share Backup ImageWriter Restore ReaderLoops ImageReader
open PartitionCopy

/-! ## The writer's options -/

/-- The options as a `ptf` handler sets them. -/
def ptf_image_options (block_size : ℕ) : image_options :=
  { init_image_options with blocks_per_checksum := BitVec.ofNat 32 (capacity block_size) }

theorem ptf_checksum_size (block_size : ℕ) :
    (ptf_image_options block_size).checksum_size.toNat = 4 := rfl

theorem capacity_le (block_size : ℕ) : capacity block_size ≤ 2 ^ 20 := by
  have h := Nat.div_le_self DEFAULT_BUFFER_SIZE block_size
  have hmega : DEFAULT_BUFFER_SIZE = 2 ^ 20 := rfl
  unfold capacity
  omega

/-- One group for each buffer. -/
theorem ptf_blocks_per_checksum (block_size : ℕ) :
    (ptf_image_options block_size).blocks_per_checksum.toNat = capacity block_size := by
  have h := capacity_le block_size
  change (BitVec.ofNat 32 (capacity block_size)).toNat = _
  rw [BitVec.toNat_ofNat, Nat.mod_eq_of_lt (by omega)]

theorem ptf_group_pos (block_size : ℕ) :
    0 < (ptf_image_options block_size).blocks_per_checksum.toNat := by
  rw [ptf_blocks_per_checksum]; exact capacity_pos _

theorem ptf_checksum_fits (block_size : ℕ) : checksum_fits (ptf_image_options block_size) :=
  fun _ => (ptf_checksum_size block_size).ge

/-- What a full buffer takes in the file. -/
theorem ptf_write_buffer_size {block_size : ℕ} (hbs' : block_size ≤ 2 ^ 30) :
    write_buffer_size block_size (ptf_image_options block_size) < 2 ^ 31 := by
  have h := capacity_mul_le block_size
  have hmega : DEFAULT_BUFFER_SIZE = 2 ^ 20 := rfl
  rw [write_buffer_size, ptf_blocks_per_checksum, Nat.div_self (capacity_pos _), ptf_checksum_size]
  omega

/-- The array's earlier contents do not matter: the seed fills it. -/
theorem ptf_start_cursor (block_size : ℕ)
    (a b : Bytes (ptf_image_options block_size).checksum_size.toNat) :
    start_cursor (ptf_image_options block_size) a = start_cursor (ptf_image_options block_size) b := by
  have h : ∀ x : Bytes (ptf_image_options block_size).checksum_size.toNat,
      (digest_of (ptf_image_options block_size)).reset x = crc_array CRC32_SEED := reset_crc
  rw [start_cursor, start_cursor, h a, h b]

section Fit

variable {fs_info : file_system_info} (bm : bitmap)

/-- The tail of the last chunk is the trailing group. -/
theorem ptf_tail_checked_iff :
    tail_checked fs_info (ptf_image_options fs_info.block_size.toNat) bm
      ↔ used_count fs_info bm % capacity fs_info.block_size.toNat ≠ 0 := by
  rw [tail_checked, ptf_blocks_per_checksum, Nat.mod_mod, and_self]

/-- **Every chunk fits**: it is one group, full or trailing. The writer's group is a buffer's
worth of blocks, and so is the reader's chunk; a group has one checksum, and the buffer was
allocated for a chunk with one. -/
theorem chunks_fit_ptf (hbs' : fs_info.block_size.toNat ≤ 2 ^ 30) :
    chunks_fit fs_info (ptf_image_options fs_info.block_size.toNat) bm := by
  intro c hc halign
  have hcap := capacity_pos fs_info.block_size.toNat
  have hmul := capacity_mul_le fs_info.block_size.toNat
  have hmega : DEFAULT_BUFFER_SIZE = 2 ^ 20 := rfl
  have hle := capacity_le fs_info.block_size.toNat
  have hsize : read_buffer_size fs_info (ptf_image_options fs_info.block_size.toNat)
      = capacity fs_info.block_size.toNat * fs_info.block_size.toNat + 4 := by
    rw [read_buffer_size, convert_blocks_to_bytes_eq (by omega) (by omega) (by omega)
      (ptf_group_pos _) (by rw [ptf_checksum_size]; omega), ptf_blocks_per_checksum, Nat.zero_add,
      Nat.zero_div, Nat.sub_zero, Nat.div_self hcap, ptf_checksum_size, u32_of_lt (by omega)]
  have hneed : chunk_need fs_info (ptf_image_options fs_info.block_size.toNat) bm c
      ≤ capacity fs_info.block_size.toNat * fs_info.block_size.toNat + 4 := by
    have htest := tail_test_iff (ptf_image_options fs_info.block_size.toNat) bm
      halign hc
    rw [chunk_need_eq, ptf_blocks_per_checksum, halign, Nat.zero_add, ptf_checksum_size]
    have hn : chunk_size fs_info bm c ≤ capacity fs_info.block_size.toNat := Nat.min_le_left _ _
    have hnbs := Nat.mul_le_mul_right fs_info.block_size.toNat hn
    rcases Nat.eq_or_lt_of_le hn with he | hlt
    · -- a full group, and no tail
      rw [if_neg fun h => by have := (htest.mpr h).1; omega, he, Nat.div_self hcap]
    · rw [Nat.div_eq_of_lt hlt]
      split <;> omega
  omega

/-- **What the reader checks is the whole stream.** With groups that are chunks the reader never
leaves a group open that is not the last, and the last is closed by the trailing checksum it looks
at. -/
theorem checked_eq_stream
    {c₀ : Cursor (Bytes (ptf_image_options fs_info.block_size.toNat).checksum_size.toNat)}
    (h₀ : c₀.filled = 0) {blocks : List (List Byte)}
    (hlen : blocks.length = used_count fs_info bm) :
    checked fs_info (ptf_image_options fs_info.block_size.toNat) bm c₀ blocks
      = stream (digest_of (ptf_image_options fs_info.block_size.toNat))
        (ptf_image_options fs_info.block_size.toNat).blocks_per_checksum.toNat c₀ blocks := by
  rw [checked, stream, tail_digest, trailer, cursor_filled (ptf_group_pos _) h₀,
    ptf_blocks_per_checksum, hlen]
  by_cases h : used_count fs_info bm % capacity fs_info.block_size.toNat = 0
  · rw [if_neg fun h' => (ptf_tail_checked_iff bm).mp h'.2 h, if_pos h]
  · rw [if_pos ⟨rfl, (ptf_tail_checked_iff bm).mpr h⟩, if_neg h]
    rfl

end Fit

/-! ## The image -/

/-- The bitmap a reader has allocated. -/
def fresh_bitmap (total : ℕ) : bitmap := List.replicate (BITS_TO_LONGS total) 0

/-- A bitmap of the size its file system needs. -/
def sized (total : ℕ) (bm : bitmap) : Prop := bm.length = BITS_TO_LONGS total

/-- An image file. -/
def disk_image (fs_info : file_system_info) (bm : bitmap)
    (a : Bytes (ptf_image_options fs_info.block_size.toNat).checksum_size.toNat)
    (src : List Byte) : List Byte :=
  desc_section fs_info (ptf_image_options fs_info.block_size.toNat)
    ++ bitmap_section fs_info.totalblock.toNat bm
    ++ data_section fs_info.block_size.toNat (ptf_image_options fs_info.block_size.toNat) a src
      (marked fs_info bm 0)

section Bitmaps

variable {total : ℕ} {bm : bitmap}

/-- A loaded bitmap has the bits of the stored one. -/
theorem bit_load_data {b : ℕ} (htot : total + 63 < 2 ^ 64) (hbm : sized total bm) {bm₀ : bitmap}
    (hbm₀ : sized total bm₀) (hb : b < total) :
    bit (bitmap_load bm₀ (bitmap_data total bm)) b = bit bm b := by
  have hbyte := byte_lt_BITS_TO_BYTES (show total + 7 < 2 ^ 64 by omega) hb
  have hword := word_lt_BITS_TO_LONGS htot hb
  have hbytes := BITS_TO_BYTES_le htot
  rw [sized] at hbm hbm₀
  rw [bit_load (by omega) (by rw [bitmap_data_length (by omega)]; exact hbyte),
    ← bitmap_bytes_getD, bitmap_data]
  simp only [List.getD_eq_getElem?_getD, List.getElem?_take, hbyte, if_true]

/-- A loaded bitmap marks what the stored one marks. -/
theorem used_from_load (htot : total < 2 ^ 32) (hbm : sized total bm) {bm₀ : bitmap}
    (hbm₀ : sized total bm₀) :
    used_from (bitmap_load bm₀ (bitmap_data total bm)) total 0 = used_from bm total 0 :=
  used_from_congr (fun _ hb => bit_load_data (by omega) hbm hbm₀ hb) 0

theorem sealed_bitmap_section : sealed (bitmap_section total bm) :=
  (sealed_append_iff _ (crc_bytes_length _)).mpr rfl

end Bitmaps

/-- A front part of the file, as a reader positioned at its start sees it. -/
theorem slice_of_prefix {d x y : List Byte} (h : x ++ y <+: d) :
    slice d 0 x.length = x ∧ y <+: d.drop x.length := by
  obtain ⟨rest, rfl⟩ := h
  rw [List.append_assoc]
  refine ⟨by rw [slice, List.drop_zero, List.take_left], ?_⟩
  rw [List.drop_left]
  exact List.prefix_append _ _

/-- What stands where in an image. Each of the three readers asks for its own part at the position
it starts from. -/
structure holds_image (fs_info : file_system_info) (bm : bitmap)
    (a : Bytes (ptf_image_options fs_info.block_size.toNat).checksum_size.toNat)
    (src d : List Byte) : Prop where
  descriptor : slice d 0 110
    = desc_section fs_info (ptf_image_options fs_info.block_size.toNat)
  section_eq : slice d 110 (BITS_TO_BYTES fs_info.totalblock.toNat + 4)
    = bitmap_section fs_info.totalblock.toNat bm
  stored_bitmap : slice d 110 (BITS_TO_BYTES fs_info.totalblock.toNat)
    = bitmap_data fs_info.totalblock.toNat bm
  blocks : data_section fs_info.block_size.toNat (ptf_image_options fs_info.block_size.toNat) a src
    (marked fs_info bm 0) <+: d.drop (110 + (BITS_TO_BYTES fs_info.totalblock.toNat + 4))

/-- A file that starts with an image holds one. -/
theorem holds_image_of_prefix {fs_info : file_system_info} {bm : bitmap}
    (hlen : BITS_TO_BYTES fs_info.totalblock.toNat ≤ 8 * bm.length)
    {a : Bytes (ptf_image_options fs_info.block_size.toNat).checksum_size.toNat}
    {src d : List Byte} (h : disk_image fs_info bm a src <+: d) :
    holds_image fs_info bm a src d := by
  rw [disk_image, List.append_assoc] at h
  obtain ⟨hdesc, hrest⟩ := slice_of_prefix h
  rw [desc_section_length] at hdesc hrest
  have hseclen := bitmap_section_length fs_info.totalblock.toNat hlen
  obtain ⟨rest, hrest⟩ := hrest
  rw [List.append_assoc] at hrest
  refine ⟨hdesc, ?_, ?_, ?_⟩
  · rw [slice, ← hrest, List.take_left' hseclen]
  · rw [slice, ← hrest, bitmap_section, List.append_assoc,
      List.take_left' (bitmap_data_length hlen)]
  · rw [← List.drop_drop, ← hrest, List.drop_left' hseclen]
    exact List.prefix_append _ _

/-- The blocks of an image are accepted, from its data section on. -/
theorem holds_image.verified {fs_info : file_system_info} {bm bm' : bitmap}
    {a : Bytes (ptf_image_options fs_info.block_size.toNat).checksum_size.toNat}
    {src : List Byte} {f : File} (h : holds_image fs_info bm a src f.data)
    (hpos : f.pos = 110 + (BITS_TO_BYTES fs_info.totalblock.toNat + 4))
    (hsrc : ∀ x ∈ marked fs_info bm 0, (x + 1) * fs_info.block_size.toNat ≤ src.length)
    (hbm' : marked fs_info bm' 0 = marked fs_info bm 0)
    (a' : Bytes (ptf_image_options fs_info.block_size.toNat).checksum_size.toNat) :
    ImageReader.verified fs_info (ptf_image_options fs_info.block_size.toNat) bm' f
      (start_cursor _ a') (gather fs_info.block_size.toNat src (marked fs_info bm 0)) := by
  refine ⟨fun x hx => length_of_mem_gather hsrc hx, ?_⟩
  rw [checked_eq_stream bm' rfl (by rw [gather_length, used_count, hbm']),
    ptf_start_cursor _ _ a, hpos]
  exact h.blocks

section ReadBack

variable {fs_info : file_system_info} {bm : bitmap}
  (hbs : 1 ≤ fs_info.block_size.toNat) (hbs' : fs_info.block_size.toNat ≤ 2 ^ 30)
  (htot : fs_info.totalblock.toNat < 2 ^ 32) (hbm : sized fs_info.totalblock.toNat bm)
include hbs hbs' htot hbm

omit hbs hbm in
theorem marked_reachable {bm' : bitmap} :
    reachable fs_info.block_size.toNat (marked fs_info bm' 0) := by
  intro x hx
  have hlt := (mem_used_from.mp hx).2.1
  calc (x + 1) * fs_info.block_size.toNat ≤ 2 ^ 32 * 2 ^ 30 := Nat.mul_le_mul (by omega) hbs'
    _ < 2 ^ 63 := by omega

omit hbs hbs' hbm in
theorem used_count_lt {bm' : bitmap} : used_count fs_info bm' < 2 ^ 63 := by
  have h : used_count fs_info bm' ≤ fs_info.totalblock.toNat := by
    unfold used_count marked used_from
    refine (List.length_filter_le _ _).trans ?_
    rw [List.length_range', Nat.sub_zero]
  omega

omit hbs hbs' in
/-- **The front of an image reads back**: undisturbed, its descriptor is accepted, and its bitmap
marks the same blocks again. -/
theorem front_read_back (a : Bytes (ptf_image_options fs_info.block_size.toNat).checksum_size.toNat)
    {src : List Byte} (host : Host) {w : World}
    (himage : disk_image fs_info bm a src <+: w.dfr.data) (hpos : w.dfr.pos = 0)
    (hsched : w.sched = []) :
    ∃ desc w₁ bm' w₂, read_image_desc host w = .ok (some desc, w₁) ∧
      desc.fs_info = fs_info ∧
      desc.options = ptf_image_options fs_info.block_size.toNat ∧
      load_image_bitmap_bits host w₁ fs_info (fresh_bitmap fs_info.totalblock.toNat)
        = .ok (true, bm', w₂) ∧
      marked fs_info bm' 0 = marked fs_info bm 0 ∧
      w₂.dfr.data = w.dfr.data ∧
      w₂.dfr.pos = 110 + (BITS_TO_BYTES fs_info.totalblock.toNat + 4) ∧ w₂.sched = [] ∧
      w₂.dfw = w.dfw ∧ w₂.target = w.target ∧ w₂.copied_count = w.copied_count := by
  have hbytes := BITS_TO_BYTES_le (show fs_info.totalblock.toNat + 63 < 2 ^ 64 by omega)
  have hbytes' : BITS_TO_BYTES fs_info.totalblock.toNat < 2 ^ 31 := by
    rw [BITS_TO_BYTES, u64_of_lt (by omega)]; omega
  have hbmlen : BITS_TO_BYTES fs_info.totalblock.toNat ≤ 8 * bm.length := by
    rw [show bm.length = _ from hbm]; exact hbytes
  have hholds := holds_image_of_prefix hbmlen himage
  -- the descriptor
  obtain ⟨e, he, s₁, k₁, l₁, d, hread, hs₁, hfull, hd⟩ := read_image_desc_spec host w
  rw [hpos] at hread hfull hd
  have hlen110 : 110 ≤ w.dfr.data.length := by
    have h := congrArg List.length hholds.descriptor
    rw [slice_length, desc_section_length] at h
    omega
  obtain rfl := hfull hsched (by omega)
  obtain rfl := (hd _).mpr ⟨rfl, by rw [hholds.descriptor]; exact valid_desc_section _ _, rfl⟩
  obtain rfl := List.suffix_nil.mp (hsched ▸ hs₁)
  rw [hholds.descriptor] at hread
  obtain ⟨hfs, hopt⟩ := unpack_desc_section fs_info (ptf_image_options fs_info.block_size.toNat)
  -- the bitmap
  set w₁ : World := { w with
    dfr := { w.dfr with pos := 0 + 110 }, sched := [], io_failed := k₁, cks := l₁ } with hw₁
  have hpos₁ : w₁.dfr.pos = 110 := Nat.zero_add _
  obtain ⟨e, he, ok, bm', s₂, k₂, l₂, hload, hs₂, -, hfull₂, hok, hbm'⟩ := load_bitmap_spec host
    w₁ fs_info (fresh_bitmap fs_info.totalblock.toNat) hbytes'
    (by rw [fresh_bitmap, List.length_replicate]; exact hbytes)
  have hseclen := bitmap_section_length fs_info.totalblock.toNat hbmlen
  rw [hpos₁] at hfull₂ hok hbm'
  have hsec : slice w₁.dfr.data 110 (BITS_TO_BYTES fs_info.totalblock.toNat + 4)
      = bitmap_section fs_info.totalblock.toNat bm := hholds.section_eq
  obtain rfl := hfull₂ rfl (by
    have h := congrArg List.length hsec
    rw [slice_length, hseclen] at h
    omega)
  rw [hsec] at hok
  obtain rfl : ok = true := hok.mpr ⟨rfl, hseclen, sealed_bitmap_section⟩
  obtain rfl := List.suffix_nil.mp hs₂
  have hmarked : marked fs_info bm' 0 = marked fs_info bm 0 := by
    rw [hbm' rfl, show slice w₁.dfr.data 110 _ = _ from hholds.stored_bitmap]
    exact used_from_load htot hbm (by rw [sized, fresh_bitmap, List.length_replicate])
  refine ⟨_, w₁, bm', _, hread, hfs, hopt, hload, hmarked, rfl, ?_, rfl, rfl, rfl, rfl⟩
  change w₁.dfr.pos + _ = _
  rw [hpos₁]

/-- **The data of an image reads back**: undisturbed, behind the bitmap and over any target that
has room for the file system, it is accepted to its last byte and its blocks are laid down. -/
theorem data_read_back (a : Bytes (ptf_image_options fs_info.block_size.toNat).checksum_size.toNat)
    {src : List Byte}
    (hsrc : ∀ x ∈ marked fs_info bm 0, (x + 1) * fs_info.block_size.toNat ≤ src.length)
    {host : Host} (hmem : ∀ size, host.malloc size = true) {w : World}
    (himage : disk_image fs_info bm a src <+: w.dfr.data)
    (hpos : w.dfr.pos = 110 + (BITS_TO_BYTES fs_info.totalblock.toNat + 4))
    {bm' : bitmap} (hmarked : marked fs_info bm' 0 = marked fs_info bm 0)
    (hsched : w.sched = []) (hcopied : w.copied_count = 0)
    (htarget : fs_info.totalblock.toNat * fs_info.block_size.toNat ≤ w.dfw.data.length) :
    ∃ w₃, read_write_data_restore fs_info (ptf_image_options fs_info.block_size.toNat) host bm' w
        = .ok (true, w₃) ∧
      w₃.dfr.pos = (disk_image fs_info bm a src).length ∧
      w₃.dfw.data = scatter 0 fs_info.block_size.toNat w.dfw.data (marked fs_info bm 0)
        (gather fs_info.block_size.toNat src (marked fs_info bm 0)) := by
  have hbytes := BITS_TO_BYTES_le (show fs_info.totalblock.toNat + 63 < 2 ^ 64 by omega)
  have hbmlen : BITS_TO_BYTES fs_info.totalblock.toNat ≤ 8 * bm.length := by
    rw [show bm.length = _ from hbm]; exact hbytes
  have hseclen := bitmap_section_length fs_info.totalblock.toNat hbmlen
  have hholds := holds_image_of_prefix hbmlen himage
  have hver := hholds.verified (f := w.dfr) hpos hsrc hmarked (stale_checksum host _)
  have hgather : (gather fs_info.block_size.toNat src (marked fs_info bm 0)).length
      = used_count fs_info bm' := by rw [gather_length, used_count, hmarked]
  obtain ⟨ok, w₃, hrun, -, htrue, -, hfalse⟩ := read_write_data_restore_ok bm'
    (by omega) (ptf_group_pos _) (ptf_checksum_fits _) (used_count_lt htot)
    (chunks_fit_ptf bm' hbs') host w hcopied
  have htakes : takes_blocks fs_info.block_size.toNat 0 { w.dfw with pos := 0 }
      (marked fs_info bm' 0) := by
    refine Or.inr ⟨(Nat.zero_mul _).symm, marked_reachable hbs' htot, fun x hx => ?_⟩
    have hlt := (mem_used_from.mp hx).2.1
    exact (Nat.mul_le_mul_right _ (by omega)).trans htarget
  obtain rfl : ok = true := by
    by_contra h
    exact hfalse (by simpa using h) ⟨hmem, hsched, ⟨_, hgather, hver⟩, htakes⟩
  obtain ⟨blocks, hlen, hver', hend, hscatter⟩ := htrue rfl
  -- what was accepted are the blocks that were written
  have hsame : blocks = gather fs_info.block_size.toNat src (marked fs_info bm 0) := by
    obtain ⟨r, hr⟩ := hver.accepted
    obtain ⟨r', hr'⟩ := hver'.accepted
    have hpre := hr'.trans hr.symm
    rw [checked, checked, List.append_assoc, List.append_assoc] at hpre
    have h := eq_take_of_emit_prefix _ _
      (m := (ptf_image_options fs_info.block_size.toNat).checksum_size.toNat) (fun x => x.2) _
      hver'.lengths hver.lengths (by omega) hpre
    rwa [hlen, ← hgather, List.take_length] at h
  subst hsame
  refine ⟨w₃, hrun, ?_, ?_⟩
  · rw [hend, hpos, checked_eq_stream bm' rfl hgather, ptf_start_cursor _ _ a, disk_image,
      List.length_append, List.length_append, desc_section_length, hseclen]
    rfl
  · rw [hscatter (marked_reachable hbs' htot), hmarked]

/-- **An image reads back.** Undisturbed, over any target that has room for the file
system, the three readers accept it to its last byte and lay down its blocks. -/
theorem read_back (a : Bytes (ptf_image_options fs_info.block_size.toNat).checksum_size.toNat)
    {src : List Byte}
    (hsrc : ∀ x ∈ marked fs_info bm 0, (x + 1) * fs_info.block_size.toNat ≤ src.length)
    {host : Host} (hmem : ∀ size, host.malloc size = true) {w : World}
    (himage : disk_image fs_info bm a src <+: w.dfr.data) (hpos : w.dfr.pos = 0)
    (hsched : w.sched = []) (hcopied : w.copied_count = 0)
    (htarget : fs_info.totalblock.toNat * fs_info.block_size.toNat ≤ w.dfw.data.length) :
    ∃ desc w₁ bm' w₂ w₃, read_image_desc host w = .ok (some desc, w₁) ∧
      desc.fs_info = fs_info ∧
      desc.options = ptf_image_options fs_info.block_size.toNat ∧
      load_image_bitmap_bits host w₁ fs_info (fresh_bitmap fs_info.totalblock.toNat)
        = .ok (true, bm', w₂) ∧
      read_write_data_restore fs_info (ptf_image_options fs_info.block_size.toNat) host bm' w₂
        = .ok (true, w₃) ∧
      w₃.dfr.pos = (disk_image fs_info bm a src).length ∧
      w₃.dfw.data = scatter 0 fs_info.block_size.toNat w.dfw.data (marked fs_info bm 0)
        (gather fs_info.block_size.toNat src (marked fs_info bm 0)) := by
  obtain ⟨desc, w₁, bm', w₂, hread, hfs, hopt, hload, hmarked, hdata, hpos₂, hsched₂, hdfw, -,
    hcopied₂⟩ := front_read_back htot hbm a host himage hpos hsched
  obtain ⟨w₃, hrun, hend, hback⟩ := data_read_back hbs hbs' htot hbm a hsrc hmem
    (w := w₂) (by rw [hdata]; exact himage) hpos₂ hmarked hsched₂ (hcopied₂.trans hcopied)
    (by rw [hdfw]; exact htarget)
  rw [hdfw] at hback
  exact ⟨desc, w₁, bm', w₂, w₃, hread, hfs, hopt, hload, hrun, hend, hback⟩

end ReadBack

/-! ## Writing it and reading it back

The writers leave the image in the file, and the readers, started at its front, accept it to its
end. -/

/-- **An undisturbed backup writes the image.** Each of the three writers appends, and the file
starts empty, so what it holds is the three sections in their order and nothing else. -/
theorem image_written {fs_info : file_system_info} {bm : bitmap}
    (hbs : 1 ≤ fs_info.block_size.toNat) (hbs' : fs_info.block_size.toNat ≤ 2 ^ 30)
    (htot : fs_info.totalblock.toNat < 2 ^ 32) (hbm : sized fs_info.totalblock.toNat bm)
    {host : Host} (hmem : ∀ size, host.malloc size = true) {w : World} (hsched : w.sched = [])
    (hdfw : w.dfw = ⟨[], 0, true⟩)
    (hsrc : ∀ x ∈ marked fs_info bm 0, (x + 1) * fs_info.block_size.toNat ≤ w.dfr.data.length) :
    ∃ w₁ w₂ w₃,
      write_image_desc w fs_info (ptf_image_options fs_info.block_size.toNat) = .ok (true, w₁) ∧
      write_image_bitmap w₁ fs_info bm = .ok (true, w₂) ∧
      read_write_data_ptf fs_info.block_size.toNat fs_info
        (ptf_image_options fs_info.block_size.toNat) host bm w₂ = .ok (true, w₃) ∧
      w₃.dfw.data = disk_image fs_info bm (stale_checksum host _) w.dfr.data := by
  have hbytes := BITS_TO_BYTES_le (show fs_info.totalblock.toNat + 63 < 2 ^ 64 by omega)
  have hbytes' : BITS_TO_BYTES fs_info.totalblock.toNat < 2 ^ 31 := by
    rw [BITS_TO_BYTES, u64_of_lt (by omega)]; omega
  obtain ⟨e₁, -, s₁, k₁, l₁, hdesc, hs₁, -, -, hfull₁⟩ := write_image_desc_spec w fs_info
    (ptf_image_options fs_info.block_size.toNat)
  -- without interruptions every transfer is whole, so each section is
  obtain rfl := hfull₁ hsched (room_of_growable (by rw [hdfw]) _)
  obtain rfl := List.suffix_nil.mp (hsched ▸ hs₁)
  rw [List.take_of_length_le (by rw [desc_section_length])] at hdesc
  obtain ⟨e₂, -, e₃, -, ok₂, s₂, k₂, l₂, hbitmap, hs₂, -, -, hok₂, hfull₂⟩ :=
    write_image_bitmap_spec { w with
      dfw := w.dfw.written (desc_section fs_info (ptf_image_options fs_info.block_size.toNat)),
      sched := [], io_failed := k₁, cks := l₁ } fs_info hbytes'
      (by rw [show bm.length = _ from hbm]; exact hbytes)
  obtain ⟨rfl, rfl⟩ := hfull₂ rfl (by rw [written_growable, hdfw])
  obtain rfl := hok₂ ⟨rfl, rfl⟩
  obtain rfl := List.suffix_nil.mp hs₂
  rw [List.take_of_length_le (by
      rw [bitmap_data_length (by rw [show bm.length = _ from hbm]; exact hbytes)]),
    List.take_of_length_le (by rw [crc_bytes_length]), written_append, written_append] at hbitmap
  have hmul : fs_info.totalblock.toNat * fs_info.block_size.toNat < 2 ^ 63 := by
    calc fs_info.totalblock.toNat * fs_info.block_size.toNat ≤ 2 ^ 32 * 2 ^ 30 :=
          Nat.mul_le_mul htot.le hbs'
      _ < 2 ^ 63 := by omega
  obtain ⟨ok₃, w₃, hdata, -, htrue, hfalse, -⟩ := read_write_data_ptf_ok hbs hbs' hmul
    (ptf_checksum_fits _) (ptf_group_pos _) (ptf_write_buffer_size hbs') host bm { w with
      dfw := w.dfw.written (desc_section fs_info (ptf_image_options fs_info.block_size.toNat)
        ++ (bitmap_data fs_info.totalblock.toNat bm
          ++ crc_bytes (bitmap_data fs_info.totalblock.toNat bm))),
      sched := [], io_failed := k₂, cks := l₂ }
  -- the data section only fails on a machine that hinders it
  obtain rfl : ok₃ = true := by
    by_contra h
    exact hfalse (by simpa using h) ⟨hmem, rfl, hsrc, by simp [hdfw]⟩
  refine ⟨_, _, w₃, by simpa using hdesc, hbitmap, hdata, ?_⟩
  rw [(htrue rfl).2.2]
  dsimp only
  rw [written_append, hdfw, written_at_end rfl, List.nil_append, disk_image, bitmap_section]

/-- **Backup and restore are the identity on the used blocks.** What the three writers
leave in an empty file is read back to its last byte, with the descriptor that was
written; the used blocks of the target are the source's, and nothing else has changed. -/
theorem restore_of_backup {fs_info : file_system_info} {bm : bitmap}
    (hbs : 1 ≤ fs_info.block_size.toNat) (hbs' : fs_info.block_size.toNat ≤ 2 ^ 30)
    (htot : fs_info.totalblock.toNat < 2 ^ 32) (hbm : sized fs_info.totalblock.toNat bm)
    {host : Host} (hmem : ∀ size, host.malloc size = true) {w : World} (hsched : w.sched = [])
    (hdfw : w.dfw = ⟨[], 0, true⟩)
    (hsrc : fs_info.totalblock.toNat * fs_info.block_size.toNat ≤ w.dfr.data.length) :
    ∃ w₁ w₂ w₃,
      write_image_desc w fs_info (ptf_image_options fs_info.block_size.toNat) = .ok (true, w₁) ∧
      write_image_bitmap w₁ fs_info bm = .ok (true, w₂) ∧
      Extfs.read_write_data_ptf fs_info (ptf_image_options fs_info.block_size.toNat) host bm w₂
        = .ok (true, w₃) ∧
      ∀ (host' : Host) (v : World), (∀ size, host'.malloc size = true) → v.sched = [] →
        v.copied_count = 0 → v.dfr.data = w₃.dfw.data → v.dfr.pos = 0 →
        fs_info.totalblock.toNat * fs_info.block_size.toNat ≤ v.dfw.data.length →
        ∃ desc v₁ bm' v₂ v₃, read_image_desc host' v = .ok (some desc, v₁) ∧
          desc.fs_info = fs_info ∧
          desc.options = ptf_image_options fs_info.block_size.toNat ∧
          load_image_bitmap_bits host' v₁ fs_info (fresh_bitmap fs_info.totalblock.toNat)
            = .ok (true, bm', v₂) ∧
          read_write_data_restore fs_info (ptf_image_options fs_info.block_size.toNat) host' bm' v₂
            = .ok (true, v₃) ∧
          v₃.dfr.pos = w₃.dfw.data.length ∧
          (∀ b < fs_info.totalblock.toNat, bit bm b = true →
            block fs_info.block_size.toNat v₃.dfw.data b
              = block fs_info.block_size.toNat w.dfr.data b) ∧
          (∀ i, (∀ b < fs_info.totalblock.toNat, bit bm b = true →
              ¬ (b * fs_info.block_size.toNat ≤ i ∧ i < (b + 1) * fs_info.block_size.toNat)) →
            v₃.dfw.data.getD i 0 = v.dfw.data.getD i 0) ∧
          v₃.dfw.data.length = v.dfw.data.length := by
  have hread : ∀ x ∈ marked fs_info bm 0,
      (x + 1) * fs_info.block_size.toNat ≤ w.dfr.data.length := fun x hx =>
    (Nat.mul_le_mul_right _ (mem_used_from.mp hx).2.1).trans hsrc
  obtain ⟨w₁, w₂, w₃, h₁, h₂, h₃, himage⟩ :=
    image_written hbs hbs' htot hbm hmem hsched hdfw hread
  refine ⟨w₁, w₂, w₃, h₁, h₂, h₃, fun host' v hmem' hs hc hdata hpos htarget => ?_⟩
  obtain ⟨desc, v₁, bm', v₂, v₃, g₁, g₂, g₃, g₄, g₅, g₆, g₇⟩ := read_back hbs hbs' htot hbm
    (stale_checksum host _) hread hmem' (w := v)
    (hdata.trans himage ▸ List.prefix_rfl) hpos hs hc htarget
  -- what the reader leaves is the copy of the used blocks
  obtain ⟨hblocks, hframe, hlen⟩ := copied_used_blocks hread v.dfw.data
  rw [← himage] at g₆
  rw [copied, ← g₇] at hblocks hframe hlen
  exact ⟨desc, v₁, bm', v₂, v₃, g₁, g₂, g₃, g₄, g₅, g₆, fun b hb h => (hblocks b hb h).2, hframe,
    hlen htarget⟩

/-- Two blocks of four bytes. -/
def two_blocks : file_system_info :=
  { init_file_system_info with totalblock := 2, block_size := 4 }

/-- A device that holds them, and a file that has just been made. -/
def two_blocks_world : World :=
  ⟨⟨[1, 2, 3, 4, 5, 6, 7, 8], 0, false⟩, ⟨[], 0, true⟩, .block, .regular, [], 0, [], 0, .initial⟩

/-- The second block is used: what the three writers make of it is read back, the block comes to
its place, and the first block of the target stays. -/
theorem restore_of_backup_second_block :
    ∃ w₁ w₂ w₃, write_image_desc two_blocks_world two_blocks (ptf_image_options 4)
        = .ok (true, w₁) ∧
      write_image_bitmap w₁ two_blocks [2] = .ok (true, w₂) ∧
      Extfs.read_write_data_ptf two_blocks (ptf_image_options 4) plain_host [2] w₂
        = .ok (true, w₃) ∧
      ∀ v : World, v.sched = [] → v.copied_count = 0 → v.dfr.data = w₃.dfw.data →
        v.dfr.pos = 0 → v.dfw.data = [9, 9, 9, 9, 9, 9, 9, 9] →
        ∃ desc v₁ bm' v₂ v₃, read_image_desc plain_host v = .ok (some desc, v₁) ∧
          load_image_bitmap_bits plain_host v₁ desc.fs_info
            (fresh_bitmap desc.fs_info.totalblock.toNat) = .ok (true, bm', v₂) ∧
          read_write_data_restore desc.fs_info desc.options plain_host bm' v₂ = .ok (true, v₃) ∧
          v₃.dfw.data = [9, 9, 9, 9, 5, 6, 7, 8] := by
  obtain ⟨w₁, w₂, w₃, h₁, h₂, h₃, hback⟩ := @restore_of_backup two_blocks [2] (by decide)
    (by decide) (by decide) rfl plain_host (fun _ => rfl) two_blocks_world rfl rfl (by decide)
  refine ⟨w₁, w₂, w₃, h₁, h₂, h₃, fun v hs hc hdata hpos htarget => ?_⟩
  obtain ⟨desc, v₁, bm', v₂, v₃, hdesc, hfs, hopt, hload, hrun, -, hblocks, hkept, hlen⟩ :=
    hback plain_host v (fun _ => rfl) hs hc hdata hpos (by rw [htarget]; decide)
  refine ⟨desc, v₁, bm', v₂, v₃, hdesc, by rw [hfs]; exact hload, ?_, ?_⟩
  · rw [hfs, hopt]
    exact hrun
  · have hsecond : slice v₃.dfw.data 4 4 = [5, 6, 7, 8] :=
      (hblocks 1 (by decide) (by decide)).trans (by decide)
    have hwrite : v₃.dfw.data = overlay 0 v.dfw.data 4 [5, 6, 7, 8] := by
      apply ext_getD 0 (by rw [hlen, overlay_length, htarget]; rfl)
      intro i
      rw [overlay_getD]
      split_ifs with hin
      · have hi : i - 4 < 4 := by
          have hend : i < 4 + 4 := hin.2
          omega
        rw [← hsecond, slice_getD 0 hi, Nat.add_sub_cancel' hin.1]
      · -- the used block lies elsewhere
        refine hkept i fun b hb hbit hcovers => ?_
        change b < 2 at hb
        obtain rfl | rfl : b = 0 ∨ b = 1 := by omega
        · exact absurd hbit (by decide)
        · exact hin hcovers
    rw [hwrite, htarget]
    decide

end SysbakAdmin.RoundTrip

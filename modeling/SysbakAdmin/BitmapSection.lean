/-
The bitmap section at every size: `write_image_bitmap`, then `load_image_bitmap_bits` on what
it wrote.

The number of bytes is 64 bits wide, but `write_read_io_all` returns it through an `int` and
`crc32` takes it as one. Up to `INT_MAX` bytes nothing is lost. From there on the count
cannot be what the loader compares with, and where it is negative the checksum runs off the
bitmap before that.

Below that bound the two functions are inverse to each other because both walk the same
bytes: the writer hands out `bitmap_bytes` and their CRC, the reader recomputes the CRC
over what it has read. Above it no schedule helps, so the two bounds meet and
`bitmap_round_trips_iff` is exact. It is a bound on the number of blocks alone: neither the
content of the bitmap nor the place of the section in the file matters.
-/
import SysbakAdmin.RoundTrip

set_option autoImplicit false

namespace SysbakAdmin.BitmapSection

open LittleEndian ByteStore CInt CMemory Transfer FileIo PackedRecord
open Bitmap Checksum Io Share RoundTrip

/-! ## Transfers that succeed -/

/-- A write to a file with room. The schedule may interrupt it, but brings it to its end. -/
theorem write_io_all_carried {w : World} (hsched : carries w.sched) {n : ℕ}
    (hroom : w.dfw.has_room n) {buf : List Byte} (hn : n < 2 ^ 31) (hbuf : n ≤ buf.length) :
    ∃ s', carries s' ∧ write_io_all w buf n
      = .ok (n, { w with dfw := w.dfw.written (buf.take n), sched := s' }) := by
  obtain ⟨e, he, r, s', k, hw, hs, -, hr, hk, -, -⟩ := write_io_all_spec w buf hn hbuf
  have hload : load buf 0 n = .ok (buf.take n) := by
    rw [load_of_le (by omega), slice, List.drop_zero]
  have hlen : (buf.take n).length = n := by rw [List.length_take]; omega
  have hcomplete := write_all_complete hsched (show w.dfw.has_room (buf.take n).length by
    rw [hlen]; exact hroom)
  have hkeep : k = w.io_failed := by
    have h := hw
    rw [write_io_all, if_pos (by omega), hload, ok_bind, pure_eq, hcomplete] at h
    exact (congrArg World.io_failed (Prod.mk.inj (Except.ok.inj h)).2).symm
  obtain rfl := hk.mp hkeep
  obtain rfl := hr.mpr rfl
  exact ⟨s', hsched.suffix hs, by rw [hw, hkeep]⟩

/-- A read of bytes that are there. -/
theorem read_io_all_carried {w : World} (hsched : carries w.sched) {buf : List Byte} {n : ℕ}
    (hn : n < 2 ^ 31) (hbuf : n ≤ buf.length) (hin : w.dfr.pos + n ≤ w.dfr.data.length) :
    ∃ s', carries s' ∧ read_io_all w buf n
      = .ok (n, overlay 0 buf 0 (slice w.dfr.data w.dfr.pos n),
        { w with dfr := { w.dfr with pos := w.dfr.pos + n }, sched := s' }) := by
  obtain ⟨e, he, r, s', k, hw, -, hs, -, hr, hk, -, -⟩ := read_io_all_spec w buf hn hbuf
  have hcomplete := read_all_complete hsched hin
  have hkeep : k = w.io_failed := by
    have h := hw
    rw [read_io_all, if_pos (by omega)] at h
    dsimp only at h
    split_ifs at h
    rw [hcomplete] at h
    exact (congrArg (fun x => x.2.2.io_failed) (Except.ok.inj h)).symm
  obtain rfl := hk.mp hkeep
  obtain rfl := hr.mpr rfl
  exact ⟨s', hsched.suffix hs, by rw [hw, hkeep]⟩

/-! ## Up to `INT_MAX` bytes

Every transfer fits an `int` here, and the specifications of `Share` apply. -/

section Small

variable {fs_info : file_system_info} {bm : bitmap}

/-- **What `write_image_bitmap` writes**: the bitmap and its crc. On such a schedule a transfer
below `2 ^ 31` bytes is whole, however often it is interrupted. -/
theorem write_image_bitmap_carried (hn : BITS_TO_BYTES fs_info.totalblock.toNat < 2 ^ 31)
    (hlen : BITS_TO_BYTES fs_info.totalblock.toNat ≤ 8 * bm.length) {w : World}
    (hsched : carries w.sched)
    (hroom : w.dfw.has_room (BITS_TO_BYTES fs_info.totalblock.toNat + 4)) :
    ∃ w', write_image_bitmap w fs_info bm = .ok (true, w') ∧
      w'.dfw = w.dfw.written (bitmap_section fs_info.totalblock.toNat bm) := by
  have hfits : w.dfw.has_room (BITS_TO_BYTES fs_info.totalblock.toNat) :=
    hroom.imp id fun h => by omega
  obtain ⟨s', hs', hw⟩ := write_io_all_carried hsched hfits hn
    (show _ ≤ (bitmap_bytes bm).length by rw [bitmap_bytes_length]; exact hlen)
  rw [← bitmap_data] at hw
  have hcrc := crc32_seeded w.cks (bitmap_bytes bm)
    (show BITS_TO_BYTES fs_info.totalblock.toNat ≤ (bitmap_bytes bm).length by
      rw [bitmap_bytes_length]; exact hlen)
  -- the crc goes where the bitmap ended, under what is left of the schedule
  obtain ⟨s'', -, hw'⟩ := @write_io_all_carried { w with
      dfw := w.dfw.written (bitmap_data fs_info.totalblock.toNat bm), sched := s',
      cks := (init_crc32 w.cks).2 } hs' 4
    (File.has_room.written (by rw [bitmap_data_length hlen]; exact hroom))
    (crc_bytes (bitmap_data fs_info.totalblock.toNat bm)) (by omega)
    (by rw [crc_bytes_length])
  have hne : ¬ (BITS_TO_BYTES fs_info.totalblock.toNat : ℤ) = -1 := by omega
  have hstored : enc (crc CRC32_SEED ((bitmap_bytes bm).take
      (BITS_TO_BYTES fs_info.totalblock.toNat)))
        = crc_bytes (bitmap_data fs_info.totalblock.toNat bm) := rfl
  have hrun : write_image_bitmap w fs_info bm = .ok (true, { w with
      dfw := (w.dfw.written (bitmap_data fs_info.totalblock.toNat bm)).written
        ((crc_bytes (bitmap_data fs_info.totalblock.toNat bm)).take 4),
      sched := s'', cks := (init_crc32 w.cks).2 }) := by
    simp only [write_image_bitmap, hw, ok_bind, if_neg hne, i32_of_lt hn, hcrc, hstored,
      CRC32_SIZE, hw', pure_eq]
    rfl
  refine ⟨_, hrun, ?_⟩
  dsimp only
  rw [written_append, List.take_of_length_le (by rw [crc_bytes_length])]
  rfl

/-- **What `load_image_bitmap_bits` reads back**, with the section at the position. The CRC is
recomputed over the same bytes that it was written behind. -/
theorem load_image_bitmap_bits_carried (hn : BITS_TO_BYTES fs_info.totalblock.toNat < 2 ^ 31)
    (hlen : BITS_TO_BYTES fs_info.totalblock.toNat ≤ 8 * bm.length) {old : bitmap}
    (hold : old.length = bm.length) (host : Host) {v : World} (hsched : carries v.sched)
    (hdata : slice v.dfr.data v.dfr.pos (BITS_TO_BYTES fs_info.totalblock.toNat + 4)
      = bitmap_section fs_info.totalblock.toNat bm) :
    ∃ v', load_image_bitmap_bits host v fs_info old
      = .ok (true, bitmap_load old (bitmap_data fs_info.totalblock.toNat bm), v') := by
  have hin : v.dfr.pos + (BITS_TO_BYTES fs_info.totalblock.toNat + 4) ≤ v.dfr.data.length := by
    have h := congrArg List.length hdata
    rw [slice_length, bitmap_section_length _ hlen] at h
    omega
  rw [← slice_append, bitmap_section] at hdata
  obtain ⟨hbits, hcrc⟩ := List.append_inj hdata (by
    rw [bitmap_data_length hlen, slice_length_of_le (by omega)])
  -- both reads come through: the words, and behind them the checksum
  obtain ⟨s', hs', hw⟩ := read_io_all_carried hsched hn
    (show _ ≤ (bitmap_bytes old).length by rw [bitmap_bytes_length, hold]; exact hlen)
    (by omega)
  rw [hbits] at hw
  obtain ⟨s'', -, hw'⟩ := @read_io_all_carried { v with
      dfr := { v.dfr with pos := v.dfr.pos + BITS_TO_BYTES fs_info.totalblock.toNat },
      sched := s' } hs' (host.junk .image 4) 4 (by omega) (by rw [junk_length])
    (by dsimp only; omega)
  dsimp only at hw'
  rw [hcrc, overlay_whole 0 (by rw [crc_bytes_length, junk_length])] at hw'
  have hmemory : (overlay 0 (bitmap_bytes old) 0
      (bitmap_data fs_info.totalblock.toNat bm)).take (BITS_TO_BYTES fs_info.totalblock.toNat)
        = bitmap_data fs_info.totalblock.toNat bm := by
    have h := take_overlay_zero (0 : Byte) (bitmap_bytes old)
      (bitmap_data fs_info.totalblock.toNat bm)
    rwa [bitmap_data_length hlen] at h
  have hsum := crc32_seeded v.cks (overlay 0 (bitmap_bytes old) 0
    (bitmap_data fs_info.totalblock.toNat bm)) (n := BITS_TO_BYTES fs_info.totalblock.toNat) (by
      rw [overlay_length, bitmap_data_length hlen]; omega)
  rw [hmemory] at hsum
  have hsame : crc CRC32_SEED (bitmap_data fs_info.totalblock.toNat bm)
      = dec 32 (crc_bytes (bitmap_data fs_info.totalblock.toNat bm)) :=
    (dec_enc rfl _).symm
  refine ⟨{ v with
    dfr := { v.dfr with pos := v.dfr.pos + BITS_TO_BYTES fs_info.totalblock.toNat + 4 },
    sched := s'', cks := (init_crc32 v.cks).2 }, ?_⟩
  simp only [load_image_bitmap_bits, hw, ok_bind, u64OfInt_natCast
      (show BITS_TO_BYTES fs_info.totalblock.toNat < 2 ^ 64 by omega), ne_eq, not_true_eq_false,
    if_false, CRC32_SIZE, hw', u64OfInt_natCast (show 4 < 2 ^ 64 by omega), i32_of_lt hn, hsum,
    pure_eq, ← hsame, decide_true]
  rfl

/-- The bits that come back. -/
theorem pc_test_bit_loaded {total b : ℕ} (htot : total + 63 < 2 ^ 64) (hbm : sized total bm)
    {old : bitmap} (hold : sized total old) (hb : b < total) :
    pc_test_bit b (bitmap_load old (bitmap_data total bm)) total = pc_test_bit b bm total := by
  rw [pc_test_bit_of_lt _ hb, pc_test_bit_of_lt _ hb, bit_load_data htot hbm hold hb]

end Small

/-! ## From there on

The loader compares an `int` with a size of 64 bits, so nothing need be known of the bytes. -/

/-- An `int` comes back. -/
theorem read_io_all_range {w w' : World} {buf buf' : List Byte} {n : ℕ} {r : ℤ}
    (h : read_io_all w buf n = .ok (r, buf', w')) : -2 ^ 31 ≤ r ∧ r < 2 ^ 31 := by
  have hint : ∀ st, -2 ^ 31 ≤ io_result n st ∧ io_result n st < 2 ^ 31 := by
    intro st
    cases st with
    | complete =>
        have hlt := u32_lt n
        rw [io_result, i32]
        split_ifs <;> omega
    | ended => exact ⟨by rw [io_result]; omega, by rw [io_result]; omega⟩
    | failed => exact ⟨by rw [io_result]; omega, by rw [io_result]; omega⟩
  rw [read_io_all] at h
  split_ifs at h
  · dsimp only at h
    split_ifs at h
    cases h
    exact hint _
  · cases h
    omega

/-- **A bitmap of more than `INT_MAX` bytes is never loaded**: no `int` is its size. The result of
the read is an `int` and is compared with the size in 64 bits. -/
theorem load_image_bitmap_bits_lt {host : Host} {v v' : World} {fs_info : file_system_info}
    {old bm' : bitmap} (h : load_image_bitmap_bits host v fs_info old = .ok (true, bm', v')) :
    BITS_TO_BYTES fs_info.totalblock.toNat < 2 ^ 31 := by
  rw [load_image_bitmap_bits] at h
  obtain ⟨⟨r, memory, v₁⟩, hread, h⟩ := bind_eq_ok.mp h
  dsimp only at h
  obtain ⟨hmin, hmax⟩ := read_io_all_range hread
  have hbytes : BITS_TO_BYTES fs_info.totalblock.toNat < 2 ^ 61 := by
    have hlt := u64_lt (fs_info.totalblock.toNat + 8 - 1)
    rw [BITS_TO_BYTES]
    omega
  by_cases hr : u64OfInt r ≠ BITS_TO_BYTES fs_info.totalblock.toNat
  · rw [if_pos hr] at h
    cases h
  · rw [not_not] at hr
    unfold u64OfInt at hr
    omega

/-- The section round trips: whatever the bitmap, and however the calls that carry it are cut
up, what is written is loaded, and each test of a block reads inside the array and answers
as before. -/
def bitmap_round_trips (totalblock : BitVec 64) : Prop :=
  ∀ (fs_info : file_system_info) (bm : bitmap) (w : World), fs_info.totalblock = totalblock →
    sized totalblock.toNat bm → carries w.sched →
    w.dfw.has_room (BITS_TO_BYTES totalblock.toNat + 4) →
    ∃ ok w', write_image_bitmap w fs_info bm = .ok (ok, w') ∧
      ∀ (host : Host) (old : bitmap) (v : World), sized totalblock.toNat old → carries v.sched →
        v.dfr.data = w'.dfw.data → v.dfr.pos = w.dfw.pos →
        ∃ bm' v', load_image_bitmap_bits host v fs_info old = .ok (true, bm', v') ∧
          ∀ b < totalblock.toNat, b / 64 < bm.length ∧
            pc_test_bit b bm' totalblock.toNat = pc_test_bit b bm totalblock.toNat

/-- What the size has to do with it: rounding up to words must not wrap, and the bytes have
to fit an `int`. -/
theorem blocks_le_iff (totalblock : BitVec 64) :
    totalblock.toNat ≤ 17179869176 ↔
      totalblock.toNat + 63 < 2 ^ 64 ∧ BITS_TO_BYTES totalblock.toNat < 2 ^ 31 := by
  have hlt := totalblock.isLt
  constructor
  · intro h
    refine ⟨by omega, ?_⟩
    rw [BITS_TO_BYTES, u64_of_lt (by omega)]
    omega
  · rintro ⟨hwrap, hbytes⟩
    rw [BITS_TO_BYTES, u64_of_lt (by omega)] at hbytes
    omega

/-- An empty file to write to, and nothing on the schedule. -/
def new_file_world : World where
  dfr := ⟨[], 0, true⟩
  dfw := ⟨[], 0, true⟩
  source := .missing
  target := .regular
  sched := []
  io_failed := 0
  signals := []
  copied_count := 0
  cks := .initial

/-- What a section that round trips says of its size. -/
theorem bitmap_round_trips.sizes {totalblock : BitVec 64} (h : bitmap_round_trips totalblock) :
    totalblock.toNat + 63 < 2 ^ 64 ∧ BITS_TO_BYTES totalblock.toNat < 2 ^ 31 := by
  obtain ⟨ok, w', -, hload⟩ := h { init_file_system_info with totalblock := totalblock }
    (fresh_bitmap totalblock.toNat) new_file_world rfl List.length_replicate
    (fun o ho => by cases ho) (Or.inl rfl)
  obtain ⟨bm', v', hloaded, hbits⟩ := hload plain_host (fresh_bitmap totalblock.toNat)
    { new_file_world with dfr := ⟨w'.dfw.data, 0, true⟩ } List.length_replicate
    (fun o ho => by cases ho) rfl rfl
  refine ⟨?_, load_image_bitmap_bits_lt hloaded⟩
  -- where the rounding wraps there is no word at all
  by_contra hwrap
  have hlt := totalblock.isLt
  have hword := (hbits 0 (by omega)).1
  rw [fresh_bitmap, List.length_replicate, BITS_TO_LONGS, u64] at hword
  omega

/-- **When the section round trips**: up to `8 * INT_MAX` blocks. Up to there both transfers are
below the bound of an `int` and undo each other; above it, the loader has no way to say `TRUE`. -/
theorem bitmap_round_trips_iff (totalblock : BitVec 64) :
    bitmap_round_trips totalblock ↔ totalblock.toNat ≤ 17179869176 := by
  rw [blocks_le_iff]
  constructor
  · exact bitmap_round_trips.sizes
  · rintro ⟨hwrap, hn⟩ fs_info bm w rfl hbm hsched hroom
    have hlen := BITS_TO_BYTES_le hwrap
    rw [← show bm.length = _ from hbm] at hlen
    obtain ⟨w', hwrite, hdfw⟩ := write_image_bitmap_carried hn hlen hsched hroom
    refine ⟨true, w', hwrite, ?_⟩
    intro host old v hold hv hdata hpos
    have hsection : slice v.dfr.data v.dfr.pos (BITS_TO_BYTES fs_info.totalblock.toNat + 4)
        = bitmap_section fs_info.totalblock.toNat bm := by
      have hne : bitmap_section fs_info.totalblock.toNat bm ≠ [] := by
        intro hnil
        have h := bitmap_section_length fs_info.totalblock.toNat hlen
        rw [hnil, List.length_nil] at h
        omega
      rw [hdata, hpos, hdfw, written_data _ hne, ← bitmap_section_length _ hlen]
      exact slice_overlay_self _ _ _ _
    obtain ⟨v', hloaded⟩ := load_image_bitmap_bits_carried hn hlen
      (show old.length = bm.length from hold.trans hbm.symm) host hv hsection
    refine ⟨_, v', hloaded, fun b hb => ⟨?_, pc_test_bit_loaded hwrap hbm hold hb⟩⟩
    rw [show bm.length = _ from hbm]
    exact word_lt_BITS_TO_LONGS hwrap hb

/-- One block more, and the bitmap has `2 ^ 31` bytes. -/
theorem large_volume_not_round_trips : ¬ bitmap_round_trips 17179869177 := by
  intro h
  have hbytes := h.sizes.2
  revert hbytes
  decide

end SysbakAdmin.BitmapSection

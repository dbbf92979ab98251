/-
How a `ptf` call ends, for the file it was to write.

`TRUE` means a complete image exactly when the schedule carried the bitmap section,
because that is the one result the handlers drop. An error before the new image was
begun has already cost the old one.

The first half is about the end of a call. `ptf_handlers` brings the four handlers down to
one, `sysbak_ptf_true` says what a run that returned `TRUE` has written, and from there the
question is only whether the bytes of the bitmap section are all among it
(`ptf_success_iff_bitmap_carried`). With a failure the order of the steps decides: the
target is opened, and truncated, before the source is looked at.

The second half follows a call that nothing disturbs from its first step to its last
(`undisturbed`). It is what the witnesses of this module and of those about a restore
start from: a concrete device, a driver that finds a file system on it, and a complete
image at the end, without running the copy loop on its bytes.
-/
import SysbakAdmin.PtfRun
import SysbakAdmin.Replies

set_option autoImplicit false

namespace SysbakAdmin.BackupOutcome

open LittleEndian ByteStore CInt CMemory DoWhile Transfer FileIo GroupStream PackedRecord
open Bitmap Checksum Io Share Backup ImageWriter Restore Handlers Opening RoundTrip ReaderLoops
open ImageReader PartitionCopy PtfRun

/-! ## Success -/

/-- A file that holds a complete image of `src`, written where `opened` stood, and that the
three readers turn back into its used blocks. -/
structure restorable (fs_info : file_system_info) (bm : bitmap)
    (a : Bytes (ptf_image_options fs_info.block_size.toNat).checksum_size.toNat)
    (src : List Byte) (opened now : File) : Prop where
  complete : now = opened.written (disk_image fs_info bm a src)
  reads_back : ∀ (host : Host) (v : World), (∀ size, host.malloc size = true) → v.sched = [] →
    v.copied_count = 0 → v.dfr.data = now.data → v.dfr.pos = 0 →
    fs_info.totalblock.toNat * fs_info.block_size.toNat ≤ v.dfw.data.length →
    ∃ desc v₁ bm' v₂ v₃, read_image_desc host v = .ok (some desc, v₁) ∧
      desc.fs_info = fs_info ∧ desc.options = ptf_image_options fs_info.block_size.toNat ∧
      load_image_bitmap_bits host v₁ fs_info (fresh_bitmap fs_info.totalblock.toNat)
        = .ok (true, bm', v₂) ∧
      read_write_data_restore fs_info (ptf_image_options fs_info.block_size.toNat) host bm' v₂
        = .ok (true, v₃) ∧
      ∀ b < fs_info.totalblock.toNat, bit bm b = true →
        block fs_info.block_size.toNat v₃.dfw.data b = block fs_info.block_size.toNat src b

/-- What is written at the start of a file is in front of it. -/
theorem prefix_written {f : File} (h : f.pos = 0) (x : List Byte) : x <+: (f.written x).data := by
  by_cases hx : x = []
  · subst hx; exact List.nil_prefix
  · rw [written_data f hx, h, overlay, List.take_zero, Nat.zero_sub, List.replicate_zero,
      List.nil_append, List.nil_append]
    exact List.prefix_append _ _

/-- A complete image can be restored. The three readers are run on it one after the other
(`read_back`). -/
theorem restorable_of_complete {fs_info : file_system_info} {bm : bitmap}
    (hbs : 1 ≤ fs_info.block_size.toNat) (hbs' : fs_info.block_size.toNat ≤ 2 ^ 30)
    (htot : fs_info.totalblock.toNat < 2 ^ 32) (hbm : sized fs_info.totalblock.toNat bm)
    (a : Bytes (ptf_image_options fs_info.block_size.toNat).checksum_size.toNat)
    {src : List Byte}
    (hsrc : ∀ x ∈ marked fs_info bm 0, (x + 1) * fs_info.block_size.toNat ≤ src.length)
    {opened now : File} (hpos : opened.pos = 0)
    (h : now = opened.written (disk_image fs_info bm a src)) :
    restorable fs_info bm a src opened now where
  complete := h
  reads_back host v hmem hsched hcopied hdata hvpos htarget := by
    obtain ⟨desc, v₁, bm', v₂, v₃, h₁, h₂, h₃, h₄, h₅, -, h₇⟩ := read_back hbs hbs' htot hbm a hsrc
      hmem (w := v) (by rw [hdata, h]; exact prefix_written hpos _) hvpos hsched hcopied htarget
    refine ⟨desc, v₁, bm', v₂, v₃, h₁, h₂, h₃, h₄, h₅, fun b hb hbit => ?_⟩
    rw [h₇]
    exact ((copied_used_blocks hsrc v.dfw.data).1 b hb hbit).2

/-- The output that leaves nothing of the bitmap section out is the image. -/
theorem ptf_output_whole {fs_info : file_system_info} {bm : bitmap}
    (a : Bytes (ptf_image_options fs_info.block_size.toNat).checksum_size.toNat)
    (src : List Byte) :
    ptf_output ⟨fs_info, ptf_image_options fs_info.block_size.toNat, bm⟩ a src
      (BITS_TO_BYTES fs_info.totalblock.toNat) 4 = disk_image fs_info bm a src := by
  have hdata : (bitmap_data fs_info.totalblock.toNat bm).take
      (BITS_TO_BYTES fs_info.totalblock.toNat) = bitmap_data fs_info.totalblock.toNat bm := by
    rw [bitmap_data, List.take_take, Nat.min_self]
  rw [ptf_output, hdata, List.take_of_length_le (by rw [crc_bytes_length])]
  rfl

/-- The four handlers are one, up to the source of the block size and the place of the answer.
What is proved of `sysbak_ptf` is then proved of each driver. -/
theorem ptf_handlers {host : Host} {drv : driver} {block_size : ℕ} {w : World} {overwrite : Bool}
    {gdbus_sysbak_ptf : Host → driver → World → Bool → Run (Bool × World)} {r : Bool × World}
    (h : gdbus_sysbak_ptf ∈ [Extfs.gdbus_sysbak_ptf, Fatfs.gdbus_sysbak_ptf,
      Btrfs.gdbus_sysbak_ptf block_size, Xfsfs.gdbus_sysbak_ptf])
    (hrun : gdbus_sysbak_ptf host drv w overwrite = .ok r) :
    ∃ (size : file_system_info → ℕ) (reply_last : Bool),
      (∀ fs_info, fs_info.block_size.toNat = block_size →
        size fs_info = fs_info.block_size.toNat) ∧
      sysbak_ptf size reply_last host drv w overwrite = .ok r := by
  simp only [List.mem_cons, List.not_mem_nil, or_false] at h
  rcases h with rfl | rfl | rfl | rfl
  · exact ⟨_, false, fun _ _ => rfl, hrun⟩
  · exact ⟨_, false, fun _ _ => rfl, hrun⟩
  · exact ⟨_, false, fun _ h => h.symm, hrun⟩
  · exact ⟨_, true, fun _ _ => rfl, hrun⟩

/-- **A backup that reports success is restorable exactly when the bitmap section was carried**,
in each of the four drivers: every other result of a transfer is looked at. The result of
`write_image_bitmap` is the only one that is dropped; it is -1 or a count that may be too small,
and the handler tests for -1. -/
theorem ptf_success_iff_bitmap_carried {host : Host} {drv : driver} {block_size : ℕ}
    (hsuper : ∀ fs_info, drv.read_super_blocks init_file_system_info = .ok (true, fs_info) →
      fs_info.block_size.toNat = block_size)
    (hbs : block_size ≤ 2 ^ 30) (w w' : World) (overwrite : Bool) :
    ∀ gdbus_sysbak_ptf ∈ [Extfs.gdbus_sysbak_ptf, Fatfs.gdbus_sysbak_ptf,
        Btrfs.gdbus_sysbak_ptf block_size, Xfsfs.gdbus_sysbak_ptf],
    gdbus_sysbak_ptf host drv w overwrite = .ok (true, w') →
    ∃ p w₃, ptf_prepare host drv w overwrite = .ok (.ok p, w₃) ∧
      (restorable p.fs_info p.bitmap (stale_checksum host _) w.dfr.data (opened_target w) w'.dfw
        ↔ bitmap_carried w₃ p.fs_info p.bitmap) := by
  intro ptf hptf hrun
  obtain ⟨size, reply_last, hsize, hrun⟩ := ptf_handlers hptf hrun
  obtain ⟨⟨fs_info, img_opt, bm⟩, w₃, hprep, hset, hmain⟩ := sysbak_ptf_true hrun
  obtain rfl : img_opt = ptf_image_options fs_info.block_size.toNat := hset.img_opt
  have hfs : fs_info.block_size.toNat = block_size := hset.block_size_eq hsuper
  obtain ⟨hsrc, e, he, e', he', hdfw, hcarried, -⟩ := hmain (hsize fs_info hfs)
    (show fs_info.block_size.toNat ≤ _ by omega)
  dsimp only at hsrc he hdfw hcarried
  refine ⟨_, w₃, hprep, ?_⟩
  rw [← hcarried]
  have hpos : (opened_target w).pos = 0 := by unfold opened_target; split <;> rfl
  have htot : fs_info.totalblock.toNat < 2 ^ 32 := hset.totalblock
  have hbmlen : BITS_TO_BYTES fs_info.totalblock.toNat ≤ 8 * bm.length := by
    rw [show bm.length = _ from hset.bitmap]
    exact BITS_TO_BYTES_le (by omega)
  constructor
  · -- a file that is complete is as long as the image
    intro h
    have hlen := congrArg File.pos (hdfw.symm.trans h.complete)
    rw [written_pos, written_pos, hpos, ptf_output, disk_image, bitmap_section] at hlen
    simp only [List.length_append, List.length_take, bitmap_data_length hbmlen,
      crc_bytes_length] at hlen
    omega
  · rintro ⟨rfl, rfl⟩
    rw [ptf_output_whole] at hdfw
    exact restorable_of_complete hset.block_size (show fs_info.block_size.toNat ≤ _ by omega) htot
      hset.bitmap _ hsrc hpos hdfw

/-- **What a successful run leaves when every transfer came to its end**: the image, over the
target as it was opened. No result is lost then, and a section that is not there would have cost a
transfer. -/
theorem ptf_image_left {host : Host} {drv : driver} {block_size : ℕ}
    (hsuper : ∀ fs_info, drv.read_super_blocks init_file_system_info = .ok (true, fs_info) →
      fs_info.block_size.toNat = block_size)
    (hbs : block_size ≤ 2 ^ 30) {w w' : World} {overwrite : Bool}
    {gdbus_sysbak_ptf : Host → driver → World → Bool → Run (Bool × World)}
    (hptf : gdbus_sysbak_ptf ∈ [Extfs.gdbus_sysbak_ptf, Fatfs.gdbus_sysbak_ptf,
      Btrfs.gdbus_sysbak_ptf block_size, Xfsfs.gdbus_sysbak_ptf])
    (hrun : gdbus_sysbak_ptf host drv w overwrite = .ok (true, w'))
    (hclean : w'.io_failed = w.io_failed) :
    ∃ p w₃, ptf_prepare host drv w overwrite = .ok (.ok p, w₃) ∧ set_up drv w p w₃ ∧
      p.fs_info.block_size.toNat = block_size ∧
      (∀ x ∈ marked p.fs_info p.bitmap 0,
        (x + 1) * p.fs_info.block_size.toNat ≤ w.dfr.data.length) ∧
      w'.dfw = (opened_target w).written
        (disk_image p.fs_info p.bitmap (stale_checksum host _) w.dfr.data) := by
  obtain ⟨size, reply_last, hsize, hrun⟩ := ptf_handlers hptf hrun
  obtain ⟨⟨fs_info, img_opt, bm⟩, w₃, hprep, hset, hmain⟩ := sysbak_ptf_true hrun
  obtain rfl : img_opt = ptf_image_options fs_info.block_size.toNat := hset.img_opt
  have hfs : fs_info.block_size.toNat = block_size := hset.block_size_eq hsuper
  obtain ⟨hsrc, e, -, e', -, hdfw, hcarried, hfailed⟩ := hmain (hsize fs_info hfs)
    (show fs_info.block_size.toNat ≤ _ by omega)
  -- no failed transfer, so the bitmap and its crc are whole
  obtain ⟨rfl, rfl⟩ := hcarried.mpr (hfailed.mp hclean)
  rw [ptf_output_whole] at hdfw
  exact ⟨_, w₃, hprep, hset, hfs, hsrc, hdfw⟩

/-! ## A call that nothing disturbs -/

/-- The size of the image that a `ptf` call writes. -/
def image_size (fs_info : file_system_info) (bm : bitmap) : ℕ :=
  110 + (BITS_TO_BYTES fs_info.totalblock.toNat + 4)
    + stream_size fs_info.block_size.toNat (ptf_image_options fs_info.block_size.toNat)
      (used_count fs_info bm)

theorem disk_image_length {fs_info : file_system_info} {bm : bitmap}
    (hbm : BITS_TO_BYTES fs_info.totalblock.toNat ≤ 8 * bm.length)
    (a : Bytes (ptf_image_options fs_info.block_size.toNat).checksum_size.toNat) {src : List Byte}
    (hsrc : ∀ x ∈ marked fs_info bm 0, (x + 1) * fs_info.block_size.toNat ≤ src.length) :
    (disk_image fs_info bm a src).length = image_size fs_info bm := by
  rw [disk_image, List.length_append, List.length_append, desc_section_length,
    bitmap_section_length _ hbm, data_section_length (ptf_group_pos _) a hsrc, image_size,
    used_count]

/-- A driver that finds the file system and its bitmap. -/
def found_driver (fs_info : file_system_info) (bm : bitmap) : driver where
  read_super_blocks _ := .ok (true, fs_info)
  read_bitmap_info _ fresh := .ok (true, if fresh.length = bm.length then bm else fresh)
  bitmap_length _ fresh _ _ h := by
    obtain ⟨-, rfl⟩ := Prod.mk.inj (Except.ok.inj h)
    split_ifs with hlen
    · exact hlen.symm
    · rfl

/-- The driver reads the superblock, and its bitmap into a fresh one. -/
structure reads (drv : driver) (fs_info : file_system_info) (bm : bitmap) : Prop where
  superblock : drv.read_super_blocks init_file_system_info = .ok (true, fs_info)
  bitmap : drv.read_bitmap_info fs_info (fresh_bitmap fs_info.totalblock.toNat) = .ok (true, bm)

theorem found_driver_reads (fs_info : file_system_info) {bm : bitmap}
    (hbm : sized fs_info.totalblock.toNat bm) : reads (found_driver fs_info bm) fs_info bm where
  superblock := rfl
  bitmap := by
    have hlen : (fresh_bitmap fs_info.totalblock.toNat).length = bm.length := by
      rw [fresh_bitmap, List.length_replicate]
      exact hbm.symm
    simp only [found_driver, hlen, if_true]

/-- **A backup of a device to a new file gets past its checks**, on a machine that refuses nothing
and finds the file system small enough, and its descriptor is written. -/
theorem ptf_prepare_smooth {host : Host} (hmay : ∀ call, host.may_open call = true)
    (hmem : ∀ size, host.malloc size = true) {drv : driver} {fs_info : file_system_info}
    {bm : bitmap} (hreads : reads drv fs_info bm) (hbs : 0 < fs_info.block_size.toNat)
    (htot : fs_info.totalblock.toNat < 2 ^ 32) {w : World} (hsource : w.source = .block)
    (htarget : w.target = .missing) (hsched : w.sched = [])
    (hspace : ∀ w' : World, w'.target = .regular → check_system_space host w'
      { fs_info with used_bitmap := BitVec.ofNat 64 (used_count fs_info bm) }
      (ptf_image_options fs_info.block_size.toNat) = true) :
    ∃ w₃, ptf_prepare host drv w true = .ok (.ok
        ⟨{ fs_info with used_bitmap := BitVec.ofNat 64 (used_count fs_info bm) },
          ptf_image_options fs_info.block_size.toNat, bm⟩, w₃) ∧
      w₃.sched = [] ∧ w₃.dfw.growable = true ∧ w₃.target = .regular ∧
      w₃.dfr.data = w.dfr.data ∧ w₃.io_failed = w.io_failed := by
  -- the device is there, and the file is made
  obtain ⟨w₁, hopen, htarget₁, hdata₁, hsched₁, hfailed₁⟩ : ∃ w₁,
      open_source_device host w BACK_PTF = (3, w₁) ∧ w₁.target = .missing ∧
        w₁.dfr.data = w.dfr.data ∧ w₁.sched = [] ∧ w₁.io_failed = w.io_failed := by
    refine ⟨{ w with dfr := { w.dfr with pos := 0, growable := false } }, ?_, htarget, rfl, hsched,
      rfl⟩
    simp [open_source_device, hsource, hmay, opened]
  have hopen₂ : open_target_device host w₁ BACK_PTF true
      = .ok (3, { w₁ with target := .regular, dfw := ⟨[], 0, true⟩ }) := by
    have hcheck : check_file_type host w₁ = .ok (true, w₁) := by
      simp only [check_file_type, htarget₁, ite_self]
    simp only [open_target_device, hcheck, ok_bind, Bool.not_true, Bool.false_eq_true, if_false,
      true_or, if_true, open_target, hmay, htarget₁, Bool.true_eq_false, pure_eq]
  set w₂ : World := { w₁ with target := .regular, dfw := ⟨[], 0, true⟩ } with hw₂
  -- the driver finds what it is to find
  have hread : read_file_system host drv
      = .ok (.ok ⟨fs_info, ptf_image_options fs_info.block_size.toNat, bm⟩) := by
    have hcheck : check_memory_size host fs_info { init_image_options with
        blocks_per_checksum := BitVec.ofNat 32 (capacity fs_info.block_size.toNat) }
          = .ok true := by
      have hg : 0 < (BitVec.ofNat 32 (capacity fs_info.block_size.toNat)).toNat :=
        ptf_group_pos fs_info.block_size.toNat
      simp only [check_memory_size, buffer_capacity_of_pos hbs, ok_bind, udiv_of_pos hg, hmem,
        Bool.and_self, pure_eq]
    have halloc : pc_alloc_bitmap host.malloc fs_info.totalblock.toNat
        = some (fresh_bitmap fs_info.totalblock.toNat) := by
      rw [pc_alloc_bitmap, if_pos (hmem _)]
      rfl
    simp only [read_file_system, hreads.superblock, ok_bind, buffer_capacity_of_pos hbs, hcheck,
      Bool.not_true, Bool.false_eq_true, if_false, halloc, hreads.bitmap, pure_eq]
    rfl
  -- nothing interrupts the descriptor
  obtain ⟨e, -, s', k, c', hwrite, hs, -, hk, hfull⟩ := write_image_desc_spec w₂
    { fs_info with used_bitmap := BitVec.ofNat 64 (used_count fs_info bm) }
    (ptf_image_options fs_info.block_size.toNat)
  obtain rfl := hfull hsched₁ rfl
  obtain ⟨w₃, hwrite, hw₃⟩ : ∃ w₃, write_image_desc w₂
      { fs_info with used_bitmap := BitVec.ofNat 64 (used_count fs_info bm) }
      (ptf_image_options fs_info.block_size.toNat) = .ok (true, w₃) ∧
      w₃.sched = [] ∧ w₃.dfw.growable = true ∧ w₃.target = .regular ∧
      w₃.dfr.data = w.dfr.data ∧ w₃.io_failed = w.io_failed :=
    ⟨_, hwrite, List.suffix_nil.mp (hsched₁ ▸ hs), written_growable _ _, rfl, hdata₁,
      (hk.mpr rfl).trans hfailed₁⟩
  refine ⟨w₃, ?_, hw₃⟩
  simp only [ptf_prepare, hopen, hopen₂, hread, update_used_blocks_count_eq htot bm, ok_bind,
    Int.reduceLE, if_false]
  rw [hspace w₂ rfl, hwrite]
  rfl

/-- **What a `ptf` call writes** once the descriptor is out: at most the image; and when nothing
disturbs it the call returns `TRUE` with all of it written, since each of its loops fails only for
want of memory, of a transfer or of a block of the source. -/
theorem sysbak_ptf_written (block_size : file_system_info → ℕ) (reply_last : Bool) {host : Host}
    {drv : driver} {w w₃ : World} {overwrite : Bool} {p : prepared}
    (hprep : ptf_prepare host drv w overwrite = .ok (.ok p, w₃))
    (hbsize : block_size p.fs_info = p.fs_info.block_size.toNat)
    (hbs' : p.fs_info.block_size.toNat ≤ 2 ^ 30) :
    ∃ ok w', sysbak_ptf block_size reply_last host drv w overwrite = .ok (ok, w') ∧
      w'.dfw.pos ≤ image_size p.fs_info p.bitmap ∧
      ((∀ size, host.malloc size = true) → w₃.sched = [] → w₃.dfw.growable = true →
        (∀ x ∈ marked p.fs_info p.bitmap 0,
          (x + 1) * p.fs_info.block_size.toNat ≤ w₃.dfr.data.length) →
        ok = true ∧ w'.io_failed = w₃.io_failed ∧ w'.target = w₃.target ∧
          w'.dfw.pos = image_size p.fs_info p.bitmap) := by
  have hset : set_up drv w p w₃ := by
    rcases ptf_prepare_ok hprep with ⟨e, he, -⟩ | ⟨e, he, -⟩ | ⟨he, -⟩ | ⟨q, he, hq⟩
    · cases he
    · cases he
    · cases he
    · obtain rfl := Except.ok.inj he
      exact hq
  obtain ⟨fs_info, img_opt, bm⟩ := p
  obtain rfl : img_opt = ptf_image_options fs_info.block_size.toNat := hset.img_opt
  dsimp only at hbsize hbs' ⊢
  have htot : fs_info.totalblock.toNat < 2 ^ 32 := hset.totalblock
  have hpos₃ : w₃.dfw.pos = 110 := by
    rw [hset.target, written_pos, desc_section_length, opened_target]
    split_ifs <;> rfl
  have hbytes := BITS_TO_BYTES_le (show fs_info.totalblock.toNat + 63 < 2 ^ 64 by omega)
  have hbmlen : BITS_TO_BYTES fs_info.totalblock.toNat ≤ 8 * bm.length := by
    rw [show bm.length = _ from hset.bitmap]; exact hbytes
  obtain ⟨e, he, e', he', okb, s₄, k₄, c₄, hbitmap, hs₄, -, hk₄, -, hfull₄⟩ :=
    write_image_bitmap_spec w₃ fs_info (by rw [BITS_TO_BYTES, u64_of_lt (by omega)]; omega) hbmlen
  have hmul : fs_info.totalblock.toNat * fs_info.block_size.toNat < 2 ^ 63 := by
    calc fs_info.totalblock.toNat * fs_info.block_size.toNat ≤ 2 ^ 32 * 2 ^ 30 :=
          Nat.mul_le_mul htot.le hbs'
      _ < 2 ^ 63 := by omega
  -- the state in which the copy loop starts
  generalize hw₄ : ({ w₃ with
      dfw := (w₃.dfw.written ((bitmap_data fs_info.totalblock.toNat bm).take e)).written
        ((crc_bytes (bitmap_data fs_info.totalblock.toNat bm)).take e'),
      sched := s₄, io_failed := k₄, cks := c₄ } : World) = w₄ at hbitmap
  have hpos₄ : w₄.dfw.pos = 110 + e + e' := by
    rw [← hw₄]
    dsimp only
    rw [written_pos, written_pos, hpos₃, List.length_take, List.length_take,
      bitmap_data_length hbmlen, crc_bytes_length, Nat.min_eq_left he, Nat.min_eq_left he']
  obtain ⟨w₅, hw₅, hdfw₅, hdfr₅, hsched₅, hfailed₅, htarget₅⟩ : ∃ w₅, w₅ = (if reply_last then
      { w₄ with copied_count := 0 } else emit_signal { w₄ with copied_count := 0 } .reply) ∧
      w₅.dfw = w₄.dfw ∧ w₅.dfr = w₄.dfr ∧ w₅.sched = w₄.sched ∧ w₅.io_failed = w₄.io_failed ∧
      w₅.target = w₄.target := by
    cases reply_last <;> exact ⟨_, rfl, rfl, rfl, rfl, rfl, rfl⟩
  obtain ⟨ok, w₆, hdata, hfollows, htrue, hfalse, hle⟩ := read_write_data_ptf_ok
    (show 0 < fs_info.block_size.toNat from hset.block_size) hbs' hmul
    (ptf_checksum_fits _) (ptf_group_pos _) (ptf_write_buffer_size hbs') host bm w₅
  have hrun : ∃ w', sysbak_ptf block_size reply_last host drv w overwrite = .ok (ok, w') ∧
      w'.dfw = w₆.dfw ∧ w'.io_failed = w₆.io_failed ∧ w'.target = w₆.target := by
    have hstep : read_write_data_ptf (block_size fs_info) fs_info
        (ptf_image_options fs_info.block_size.toNat) host bm (if reply_last then
          { w₄ with copied_count := 0 } else emit_signal { w₄ with copied_count := 0 } .reply)
        = .ok (ok, w₆) := by
      rw [show block_size fs_info = _ from hbsize, ← hw₅]
      exact hdata
    simp only [sysbak_ptf, hprep, ok_bind, hbitmap, hstep]
    cases ok with
    | false => exact ⟨_, rfl, rfl, rfl, rfl⟩
    | true => cases reply_last <;> exact ⟨_, rfl, rfl, rfl, rfl⟩
  obtain ⟨w', hrun, hdfw', hfailed', htarget'⟩ := hrun
  refine ⟨ok, w', hrun, ?_, fun hmem hsched hgrow hsrc => ?_⟩
  · rw [hdfw₅, hpos₄] at hle
    change w'.dfw.pos
      ≤ 110 + (_ + 4) + stream_size _ _ (used_from bm fs_info.totalblock.toNat 0).length
    rw [hdfw']
    omega
  · obtain ⟨rfl, rfl⟩ := hfull₄ hsched hgrow
    have hsmooth : smooth fs_info.block_size.toNat fs_info bm w₅ := by
      refine ⟨?_, ?_, ?_⟩
      · rw [hsched₅, ← hw₄]
        exact List.suffix_nil.mp (hsched ▸ hs₄)
      · rw [hdfr₅, ← hw₄]
        exact hsrc
      · rw [hdfw₅, ← hw₄]
        dsimp only
        rw [written_growable, written_growable]
        exact hgrow
    obtain rfl : ok = true := by
      by_contra h
      exact hfalse (by simpa using h) ⟨hmem, hsmooth⟩
    obtain ⟨hfailed₆, hread, hwritten⟩ := htrue rfl
    refine ⟨rfl, ?_, ?_, ?_⟩
    · rw [hfailed', hfailed₆, hfailed₅, ← hw₄]
      exact hk₄.mpr ⟨rfl, rfl⟩
    · rw [htarget', hfollows.target, htarget₅, ← hw₄]
    rw [hdfw', hwritten, written_pos, hdfw₅, hpos₄, data_section_length (ptf_group_pos _) _ hread]
    exact congrArg (· + _) (Nat.add_assoc _ _ _)

/-- A daemon that is about to back a device up to a new file, and a machine that does not get in its
way: it opens what it is asked to, has memory and space, interrupts no transfer, and the device
holds every used block of the file system that the driver finds on it. -/
structure undisturbed (host : Host) (drv : driver) (fs_info : file_system_info) (bm : bitmap)
    (w : World) : Prop where
  may_open : ∀ call, host.may_open call = true
  malloc : ∀ size, host.malloc size = true
  found : reads drv fs_info bm
  block_size_pos : 0 < fs_info.block_size.toNat
  block_size_le : fs_info.block_size.toNat ≤ 2 ^ 30
  totalblock : fs_info.totalblock.toNat < 2 ^ 32
  source : w.source = .block
  target : w.target = .missing
  sched : w.sched = []
  space : ∀ w' : World, w'.target = .regular → check_system_space host w'
    { fs_info with used_bitmap := BitVec.ofNat 64 (used_count fs_info bm) }
    (ptf_image_options fs_info.block_size.toNat) = true
  blocks : ∀ x ∈ marked fs_info bm 0, (x + 1) * fs_info.block_size.toNat ≤ w.dfr.data.length

/-- **A backup that nothing disturbs returns `TRUE`**, with every transfer carried to its end. The
space check passes on its own estimate, the descriptor and the bitmap are appended, and the copy
loop ends with all the used blocks copied (`sysbak_ptf_written`). -/
theorem sysbak_ptf_smooth (block_size : file_system_info → ℕ) (reply_last : Bool) {host : Host}
    {drv : driver} {fs_info : file_system_info} {bm : bitmap} {w : World}
    (h : undisturbed host drv fs_info bm w)
    (hbsize : ∀ used_bitmap, block_size { fs_info with used_bitmap := used_bitmap }
      = fs_info.block_size.toNat) :
    ∃ w₃ w', ptf_prepare host drv w true = .ok (.ok
        ⟨{ fs_info with used_bitmap := BitVec.ofNat 64 (used_count fs_info bm) },
          ptf_image_options fs_info.block_size.toNat, bm⟩, w₃) ∧
      sysbak_ptf block_size reply_last host drv w true = .ok (true, w') ∧
      w'.io_failed = w.io_failed ∧ w'.target = .regular := by
  obtain ⟨w₃, hprep, hsched₃, hgrow, htarget₃, hdata, hfailed⟩ := ptf_prepare_smooth h.may_open
    h.malloc h.found h.block_size_pos h.totalblock h.source h.target h.sched h.space
  obtain ⟨ok, w', hrun, -, hwhole⟩ :=
    sysbak_ptf_written block_size reply_last hprep (hbsize _) h.block_size_le
  obtain ⟨rfl, hfailed', htarget', -⟩ :=
    hwhole h.malloc hsched₃ hgrow (by rw [hdata]; exact h.blocks)
  exact ⟨w₃, w', hprep, hrun, hfailed'.trans hfailed, htarget'.trans htarget₃⟩

/-- Every step of it succeeds, so that it is answered once. -/
theorem undisturbed.answered_once (block_size : file_system_info → ℕ) (reply_last : Bool)
    {host : Host} {drv : driver} {fs_info : file_system_info} {bm : bitmap} {w : World}
    (h : undisturbed host drv fs_info bm w)
    (hbsize : ∀ used_bitmap, block_size { fs_info with used_bitmap := used_bitmap }
      = fs_info.block_size.toNat) :
    Replies.ptf_succeeds block_size reply_last host drv w true ∧
      Replies.answered_once w (sysbak_ptf block_size reply_last host drv w true) := by
  have hending := Replies.sysbak_ptf_ending block_size reply_last host drv w true
  obtain ⟨-, w', -, hrun, -⟩ := sysbak_ptf_smooth block_size reply_last h hbsize
  have hsucceeds := hending.succeeds_iff.mpr ⟨w', hrun⟩
  exact ⟨hsucceeds, hending.answers_iff.mpr hsucceeds⟩

/-- Eight blocks of which none is used. -/
def empty_fs : file_system_info :=
  { init_file_system_info with totalblock := 8, block_size := 1024, device_size := 8192 }

/-- A driver that finds it, or finds no file system. -/
def empty_driver (valid : Bool) : driver where
  read_super_blocks _ := .ok (valid, empty_fs)
  read_bitmap_info _ bm := .ok (true, bm)
  bitmap_length _ _ _ _ h := by cases h; rfl

/-- A daemon that is about to back it up over a target with the given content. -/
def empty_world (sched : List Outcome) (target : List Byte) : World :=
  ⟨⟨List.replicate 8192 0, 0, false⟩, ⟨target, 0, true⟩, .block, .regular, sched, 0, [], 0,
    .initial⟩

/-- What a call leaves for the caller to see. -/
def call_result (r : Run (Bool × World)) : Option (Bool × ℕ × ℕ × Option signal) :=
  match r with
  | .ok (ok, w) => some (ok, w.io_failed, w.dfw.data.length, w.signals.getLast?)
  | .error _ => none

theorem call_result_eq_some {r : Run (Bool × World)} {ok : Bool} {k n : ℕ} {s : Option signal}
    (h : call_result r = some (ok, k, n, s)) :
    ∃ w, r = .ok (ok, w) ∧ w.io_failed = k ∧ w.dfw.data.length = n ∧
      w.signals.getLast? = s := by
  match r, h with
  | .ok (ok, w), h =>
      simp only [call_result, Option.some.injEq, Prod.mk.injEq] at h
      obtain ⟨rfl, rfl, rfl, rfl⟩ := h
      exact ⟨w, rfl, rfl, rfl, rfl⟩

/-- Two of the eight blocks are used. -/
theorem two_used : marked empty_fs [5] 0 = [0, 2] := by decide

/-- A daemon that is about to back them up to a new file. -/
def used_world : World :=
  ⟨⟨List.replicate 8192 1, 0, false⟩, ⟨[], 0, false⟩, .block, .missing, [], 0, [], 0, .initial⟩

/-- A backup of them from any device that holds them returns `TRUE`. -/
theorem two_used_backed_up {w : World} (hsource : w.source = .block) (htarget : w.target = .missing)
    (hsched : w.sched = []) (hlen : w.dfr.data.length = 8192) :
    ∃ w₃ w', ptf_prepare plain_host (found_driver empty_fs [5]) w true = .ok (.ok
        ⟨{ empty_fs with used_bitmap := 2 }, ptf_image_options 1024, [5]⟩, w₃) ∧
      Extfs.gdbus_sysbak_ptf plain_host (found_driver empty_fs [5]) w true = .ok (true, w') ∧
      w'.io_failed = w.io_failed ∧ w'.target = .regular := by
  refine sysbak_ptf_smooth (fun fs_info => fs_info.block_size.toNat) false
    ⟨fun _ => rfl, fun _ => rfl, @found_driver_reads empty_fs [5] rfl, by decide, by decide,
      by decide, hsource, htarget, hsched, fun w' hw' => ?_, fun x hx => ?_⟩ fun _ => rfl
  · rw [check_system_space, hw']
    decide +kernel
  · rw [two_used] at hx
    rw [hlen]
    rcases List.mem_pair.mp hx with rfl | rfl <;> decide

/-- An undisturbed backup of two blocks: the bitmap has been carried, so that the file can be
restored. -/
theorem ptf_success_used :
    ∃ w' p w₃, Extfs.gdbus_sysbak_ptf plain_host (found_driver empty_fs [5]) used_world true
        = .ok (true, w') ∧
      ptf_prepare plain_host (found_driver empty_fs [5]) used_world true = .ok (.ok p, w₃) ∧
      p.bitmap = [5] ∧
      (restorable p.fs_info p.bitmap (stale_checksum plain_host _) used_world.dfr.data
          (opened_target used_world) w'.dfw ↔ bitmap_carried w₃ p.fs_info p.bitmap) := by
  obtain ⟨w₃, w', hprep, hrun, -⟩ := two_used_backed_up (w := used_world) rfl rfl rfl
    List.length_replicate
  obtain ⟨p, w₄, hprep', h⟩ := @ptf_success_iff_bitmap_carried _ _ 1024
    (fun fs_info h => by cases h; rfl) (by decide) used_world w' true _ (.head _) hrun
  obtain ⟨hp, -⟩ := Prod.mk.inj (Except.ok.inj (hprep.symm.trans hprep'))
  exact ⟨w', p, w₄, hrun, hprep', congrArg prepared.bitmap (Except.ok.inj hp).symm, h⟩

/-- The write of the bitmap returns 0, the call returns `TRUE`, and the file lacks a byte. -/
theorem ptf_success_without_bitmap :
    ∃ w', Extfs.gdbus_sysbak_ptf plain_host (empty_driver true)
        (empty_world [.upTo 110, .nothing] []) true = .ok (true, w') ∧
      w'.signals.getLast? = some (.finished 8 0 1024) ∧
      ¬ restorable empty_fs [0] (stale_checksum plain_host _)
        (empty_world [.upTo 110, .nothing] []).dfr.data
        (opened_target (empty_world [.upTo 110, .nothing] [])) w'.dfw := by
  obtain ⟨w', hrun, -, hlen, hlast⟩ := call_result_eq_some
    (show call_result (Extfs.gdbus_sysbak_ptf plain_host (empty_driver true)
      (empty_world [.upTo 110, .nothing] []) true)
        = some (true, 1, 114, some (.finished 8 0 1024)) by decide +kernel)
  refine ⟨w', hrun, hlast, fun h => ?_⟩
  have hwhole := hlen.symm.trans (congrArg (fun f : File => f.data.length) h.complete)
  exact absurd hwhole (by decide +kernel)

/-! ## Failure

What a call leaves behind when it does not come to the new image. The order of the open and the
checks is all that matters. -/

/-- **A `ptf` call that ends in an error** before the new image is begun: the target is as it was
for `e_code` up to 2, and has been emptied, unless it is a device, for 3 to 6. The code of an
error is where the handler has left: 1 and 2 before the target has been opened, 3 to 6 behind that
and in front of the descriptor. -/
theorem ptf_error_target {host : Host} {drv : driver} {w w' : World} {overwrite r : Bool}
    {block_size : ℕ} {m : Option String} {e_code : ℕ} :
    ∀ gdbus_sysbak_ptf ∈ [Extfs.gdbus_sysbak_ptf, Fatfs.gdbus_sysbak_ptf,
        Btrfs.gdbus_sysbak_ptf block_size, Xfsfs.gdbus_sysbak_ptf],
    gdbus_sysbak_ptf host drv w overwrite = .ok (r, w') →
    w'.signals.getLast? = some (.error m e_code) →
    (e_code ≤ 2 → w'.dfw = w.dfw) ∧
    (3 ≤ e_code → e_code ≤ 6 → w'.dfw = opened_target w) := by
  intro ptf hptf hrun hlast
  obtain ⟨size, reply_last, -, hrun⟩ := ptf_handlers hptf hrun
  rw [sysbak_ptf] at hrun
  obtain ⟨⟨q, w₃⟩, hprep, hrun⟩ := bind_eq_ok.mp hrun
  cases q with
  | error e =>
      obtain ⟨-, rfl⟩ := Prod.mk.inj (Except.ok.inj hrun)
      have hcode : e = e_code := by
        simp only [emit_signal, List.getLast?_append, List.getLast?_singleton,
          Option.some_or, Option.some.injEq, signal.error.injEq] at hlast
        exact hlast.2
      subst hcode
      change (e ≤ 2 → w₃.dfw = w.dfw) ∧ (3 ≤ e → e ≤ 6 → w₃.dfw = opened_target w)
      rcases ptf_prepare_ok hprep with ⟨e', he, h2, h, -⟩ | ⟨e', he, h3, h6, h, -⟩ | ⟨he, -⟩
        | ⟨p, he, -⟩
      · obtain rfl := Except.error.inj he
        exact ⟨fun _ => h, fun h3 => by omega⟩
      · obtain rfl := Except.error.inj he
        exact ⟨fun h2 => by omega, fun _ _ => h⟩
      · obtain rfl := Except.error.inj he
        exact ⟨fun h2 => by omega, fun _ h6 => by omega⟩
      · cases he
  | ok p =>
      -- past the descriptor the only error left is that of the data
      obtain ⟨⟨okb, w₄⟩, -, hrun⟩ := bind_eq_ok.mp hrun
      obtain ⟨⟨ok, w₅⟩, -, hrun⟩ := bind_eq_ok.mp hrun
      cases ok with
      | true =>
          obtain ⟨-, rfl⟩ := Prod.mk.inj (Except.ok.inj hrun)
          exfalso
          cases reply_last <;>
            simp [emit_signal] at hlast
      | false =>
          obtain ⟨-, rfl⟩ := Prod.mk.inj (Except.ok.inj hrun)
          have hcode : e_code = 8 := by
            simp only [emit_signal, List.getLast?_append, List.getLast?_singleton,
              Option.some_or, Option.some.injEq, signal.error.injEq] at hlast
            exact hlast.2.symm
          exact ⟨fun h => by omega, fun _ h => by omega⟩

/-- **A source without a file system costs the image that was to be overwritten**, whatever valid
image it was. A valid image passes the look at the file's type, so it is opened with `O_TRUNC`;
that there is nothing to back up is found out behind that. -/
theorem sysbak_ptf_no_superblock (block_size : file_system_info → ℕ) (reply_last : Bool)
    (host : Host) (hmay : ∀ call, host.may_open call = true) (drv : driver)
    (fs_info : file_system_info)
    (hsuper : drv.read_super_blocks init_file_system_info = .ok (false, fs_info)) {w : World}
    (hsource : w.source = .block) (htarget : w.target = .regular) (hsched : w.sched = [])
    (hvalid : valid_desc (w.dfw.data.take 110)) :
    ∃ w', sysbak_ptf block_size reply_last host drv w true = .ok (false, w') ∧
      w'.signals.getLast? = some (.error (sysbak_error_message 3) 3) ∧ w'.dfw.data = [] := by
  obtain ⟨w₁, hopen, hdfw₁, htarget₁, hsched₁⟩ : ∃ w₁,
      open_source_device host w BACK_PTF = (3, w₁) ∧ w₁.dfw = w.dfw ∧ w₁.target = .regular ∧
        w₁.sched = [] := by
    refine ⟨{ w with dfr := { w.dfr with pos := 0, growable := false } }, ?_, rfl, htarget, hsched⟩
    simp [open_source_device, hsource, hmay, opened]
  obtain ⟨w₂, hcheck, hprobe⟩ := check_file_type_of_valid (hmay .check) htarget₁ hsched₁
    (by rw [hdfw₁]; exact hvalid)
  have hopen₂ : open_target_device host w₁ BACK_PTF true
      = .ok (3, { w₂ with dfw := ⟨[], 0, true⟩ }) := by
    simp only [open_target_device, hcheck, ok_bind, Bool.not_true, Bool.false_eq_true, if_false,
      true_or, if_true, open_target, hmay, hprobe.target.trans htarget₁, Bool.and_false,
      Bool.true_eq_false, pure_eq]
  have hread : read_file_system host drv = .ok (.error 3) := by
    simp only [read_file_system, hsuper, ok_bind, Bool.not_false, if_true, pure_eq]
  have hprep : ptf_prepare host drv w true
      = .ok (.error 3, { w₂ with dfw := ⟨[], 0, true⟩ }) := by
    simp only [ptf_prepare, hopen, hopen₂, hread, ok_bind, Int.reduceLE, if_false, pure_eq]
  refine ⟨(handler_error { w₂ with dfw := ⟨[], 0, true⟩ } 3).2, ?_, ?_, rfl⟩
  · simp only [sysbak_ptf, hprep, ok_bind, pure_eq, handler_error]
  · simp [handler_error, emit_signal]

/-- The image of the empty file system, as a target to be overwritten. -/
def old_image : List Byte := disk_image empty_fs [0] (stale_checksum plain_host _) []

theorem old_image_valid : valid_desc (old_image.take 110) := by
  have hfront : old_image.take 110
      = desc_section empty_fs (ptf_image_options empty_fs.block_size.toNat) := by
    rw [old_image, disk_image, List.append_assoc, List.take_left' (desc_section_length _ _)]
  rw [hfront]
  exact valid_desc_section _ _

theorem old_image_ne_nil : old_image ≠ [] := by
  intro h
  have hlen := congrArg List.length h
  rw [old_image, disk_image, List.length_append, List.length_append, desc_section_length,
    List.length_nil] at hlen
  omega

theorem ptf_error_empties_image :
    ∃ w', Extfs.gdbus_sysbak_ptf plain_host (empty_driver false) (empty_world [] old_image) true
        = .ok (false, w') ∧
      w'.signals.getLast? = some (.error (sysbak_error_message 3) 3) ∧
      w'.dfw.data ≠ old_image := by
  obtain ⟨w', hrun, hlast, hdata⟩ := sysbak_ptf_no_superblock
    (fun fs_info => fs_info.block_size.toNat) false plain_host (fun _ => rfl) (empty_driver false)
    empty_fs rfl (w := empty_world [] old_image) rfl rfl rfl old_image_valid
  exact ⟨w', hrun, hlast, fun h => old_image_ne_nil (h.symm.trans hdata)⟩

/-- Opening has emptied it: what is left is the open target, and not the image. -/
theorem ptf_error_opened_target :
    ∃ w', Extfs.gdbus_sysbak_ptf plain_host (empty_driver false) (empty_world [] old_image) true
        = .ok (false, w') ∧ w'.dfw = opened_target (empty_world [] old_image) ∧
      w'.dfw.data = [] ∧ (empty_world [] old_image).dfw.data ≠ [] := by
  obtain ⟨w', hrun, hlast, hdata⟩ := sysbak_ptf_no_superblock
    (fun fs_info => fs_info.block_size.toNat) false plain_host (fun _ => rfl) (empty_driver false)
    empty_fs rfl (w := empty_world [] old_image) rfl rfl rfl old_image_valid
  exact ⟨w', hrun, (@ptf_error_target _ _ _ _ _ _ 1024 _ _ _ (.head _) hrun hlast).2 le_rfl
    (by decide), hdata, old_image_ne_nil⟩

end SysbakAdmin.BackupOutcome

/-
What `check_system_space` promises about the file that a `ptf` call goes on to write.

The estimate counts the descriptor without its crc, the bitmap without its crc, and the
blocks that the superblock calls used, in 32 bits and without the checksum of a trailing
group. What is written is the image of the blocks that the bitmap marks. `image_size` is
the one and `needed_space` the other, and the check is sound exactly where the first is
at most the second.

The estimate is made before the bitmap is counted and goes by `usedblocks` of the
superblock; what is written goes by the bitmap. So no inequality between the two holds in
general, and the theorem is about the file systems for which it does. Its converse needs a
machine: `tight_host` has as much space as the check asks for and not a byte more, and a
call on it that passes writes the image to its end.
-/
import SysbakAdmin.BackupOutcome
import SysbakAdmin.RestoreRun
import SysbakAdmin.Counts

set_option autoImplicit false

namespace SysbakAdmin.SpaceCheck

open LittleEndian ByteStore CInt CMemory DoWhile Transfer FileIo GroupStream PackedRecord
open Bitmap Checksum Io Share Backup ImageWriter Restore Handlers Opening RoundTrip ReaderLoops
open ImageReader PtfRun BackupOutcome RestoreRun Counts

/-! ## The two sizes

The estimate is a sum of the source, with its narrow products; the size of the image is that of
its three sections. `covers` is the comparison of the two. -/

/-- The estimate of `check_system_space`, for the options that a `ptf` call sets. -/
def needed_space (fs_info : file_system_info) : ℕ :=
  106 + BITS_TO_BYTES fs_info.totalblock.toNat
    + (u32 (fs_info.usedblocks.toNat * fs_info.block_size.toNat)
      + u32 fs_info.usedblocks.toNat / capacity fs_info.block_size.toNat * 4)

/-- The marked blocks, the trailing checksum and the two crcs fit what the estimate has for
the blocks that the superblock calls used. -/
def covers (fs_info : file_system_info) (bm : bitmap) : Prop :=
  used_count fs_info bm * fs_info.block_size.toNat
      + (used_count fs_info bm / capacity fs_info.block_size.toNat
        + if used_count fs_info bm % capacity fs_info.block_size.toNat = 0 then 0 else 1) * 4 + 8
    ≤ fs_info.usedblocks.toNat * fs_info.block_size.toNat % 2 ^ 32
      + fs_info.usedblocks.toNat % 2 ^ 32 / capacity fs_info.block_size.toNat * 4

instance (fs_info : file_system_info) (bm : bitmap) : Decidable (covers fs_info bm) :=
  inferInstanceAs (Decidable (_ ≤ _))

theorem image_size_le_needed_space (fs_info : file_system_info) (bm : bitmap) :
    image_size fs_info bm ≤ needed_space fs_info ↔ covers fs_info bm := by
  rw [image_size, needed_space, stream_size, ptf_blocks_per_checksum, ptf_checksum_size, covers,
    u32, u32]
  omega

theorem needed_space_lt {fs_info : file_system_info}
    (htot : fs_info.totalblock.toNat < 2 ^ 32) : needed_space fs_info < 2 ^ 64 := by
  have hblocks := u32_lt (fs_info.usedblocks.toNat * fs_info.block_size.toNat)
  have hgroups : u32 fs_info.usedblocks.toNat / capacity fs_info.block_size.toNat
      ≤ u32 fs_info.usedblocks.toNat := Nat.div_le_self _ _
  have hcount := u32_lt fs_info.usedblocks.toNat
  rw [needed_space, BITS_TO_BYTES, u64_of_lt (by omega)]
  omega

/-- **`check_system_space`** compares the estimate with what is free. The bytes of the used blocks
are computed in 32 bits, and so they are in `needed_space`; of the other sums none wraps for a
volume this small. -/
theorem check_system_space_iff (fs_info : file_system_info) (block_size : ℕ)
    (hbs : fs_info.block_size.toNat = block_size) (htot : fs_info.totalblock.toNat < 2 ^ 32)
    (host : Host) (w : World) :
    check_system_space host w fs_info (ptf_image_options block_size) = true
      ↔ needed_space fs_info ≤ get_local_free_space host w.target := by
  subst hbs
  have hused : fs_info.usedblocks.toNat < 2 ^ 64 := fs_info.usedblocks.isLt
  have hlt := needed_space_lt htot
  rw [needed_space] at hlt
  rw [check_system_space, image_head_size, file_system_info_size, image_options_size,
    convert_blocks_to_bytes_value _ _ _ (by omega), group_ends_card, Nat.zero_add, Nat.zero_div,
    Nat.sub_zero, ptf_blocks_per_checksum, ptf_checksum_size,
    u64_of_lt (show u32 (fs_info.usedblocks.toNat * fs_info.block_size.toNat)
      + u32 fs_info.usedblocks.toNat / capacity fs_info.block_size.toNat * 4 < 2 ^ 64 by omega),
    u64_of_lt (by omega), decide_eq_true_iff, needed_space]

/-! ## What is written -/

/-- A call that has written its descriptor has passed the check. -/
theorem ptf_prepare_space {host : Host} {drv : driver} {w w' : World} {overwrite : Bool}
    {p : prepared} (h : ptf_prepare host drv w overwrite = .ok (.ok p, w')) :
    check_system_space host w' p.fs_info p.img_opt = true := by
  -- every branch that ends in an error is no result `ok`
  rw [ptf_prepare] at h
  generalize open_source_device host w BACK_PTF = opened at h
  obtain ⟨dfr, w₁⟩ := opened
  dsimp only at h
  by_cases hdfr : dfr ≤ 0
  · rw [if_pos hdfr] at h
    cases h
  rw [if_neg hdfr] at h
  obtain ⟨⟨dfw, w₂⟩, -, h⟩ := bind_eq_ok.mp h
  dsimp only at h
  split_ifs at h
  · cases h
  obtain ⟨q, -, h⟩ := bind_eq_ok.mp h
  cases q with
  | error e => cases h
  | ok q =>
      obtain ⟨fs_info, -, h⟩ := bind_eq_ok.mp h
      split_ifs at h with hspace
      · cases h
      obtain ⟨e, -, s', k, c', hwrite, -⟩ := write_image_desc_spec w₂ fs_info q.img_opt
      rw [hwrite, ok_bind] at h
      dsimp only at h
      split_ifs at h
      · cases h
      obtain ⟨hp, rfl⟩ := Prod.mk.inj (Except.ok.inj h)
      obtain rfl := Except.ok.inj hp
      simpa [check_system_space] using hspace

/-- A call whose descriptor is cut short has passed it too, and has written no more than a
descriptor. -/
theorem ptf_prepare_desc_failed {host : Host} {drv : driver} {w w' : World} {overwrite : Bool}
    {p : prepared} (hread : read_file_system host drv = .ok (.ok p))
    (h : ptf_prepare host drv w overwrite = .ok (.error 7, w')) :
    ∃ fs_info, update_used_blocks_count p.fs_info p.bitmap = .ok fs_info ∧
      check_system_space host w' fs_info p.img_opt = true ∧ w'.dfw.pos ≤ 110 := by
  obtain ⟨dfr, w₁, hopen, -⟩ := open_source_device_spec host w BACK_PTF (Or.inl rfl)
  simp only [ptf_prepare, hopen] at h
  by_cases hdfr : dfr ≤ 0
  · rw [if_pos hdfr] at h
    obtain ⟨hcode, -⟩ := Prod.mk.inj (Except.ok.inj h)
    have hcode := Except.error.inj hcode
    split_ifs at hcode <;> omega
  rw [if_neg hdfr] at h
  obtain ⟨dfw, w₂, hopen₂, -, hpos, -⟩ := open_target_ptf_spec host w₁ overwrite
  rw [hopen₂, ok_bind] at h
  dsimp only at h
  by_cases hdfw : dfw ≤ 0
  · rw [if_pos hdfw] at h
    obtain ⟨hcode, -⟩ := Prod.mk.inj (Except.ok.inj h)
    exact absurd (Except.error.inj hcode) (by decide)
  rw [if_neg hdfw, hread, ok_bind] at h
  have hpos₂ : w₂.dfw.pos = 0 := by
    rw [hpos (by omega), opened_target]
    split_ifs <;> rfl
  obtain ⟨fs_info, hcount, h⟩ := bind_eq_ok.mp h
  refine ⟨fs_info, hcount, ?_⟩
  split_ifs at h with hspace
  · obtain ⟨hcode, -⟩ := Prod.mk.inj (Except.ok.inj h)
    exact absurd (Except.error.inj hcode) (by decide)
  -- what is left is the descriptor
  obtain ⟨e, he, s', k, c', hwrite, -⟩ := write_image_desc_spec w₂ fs_info p.img_opt
  rw [hwrite, ok_bind] at h
  dsimp only at h
  split_ifs at h
  · obtain ⟨-, rfl⟩ := Prod.mk.inj (Except.ok.inj h)
    refine ⟨by simpa [check_system_space] using hspace, ?_⟩
    dsimp only
    rw [written_pos, hpos₂, List.length_take]
    omega
  · cases (Prod.mk.inj (Except.ok.inj h)).1

/-! ## A call with just the space it asks for

It is the machine for the converse: if the estimate does not cover the image, this call passes
the check and then writes more than was free. -/

section Tight

variable (fs_info : file_system_info) (bm : bitmap)

/-- A machine with as much free space as the estimate. -/
def tight_host : Host :=
  { plain_host with statvfs := some (1, 1, needed_space fs_info) }

/-- A backup of a device of the right size to a new file. -/
def tight_world : World :=
  ⟨⟨List.replicate (fs_info.totalblock.toNat * fs_info.block_size.toNat) 0, 0, false⟩,
    ⟨[], 0, true⟩, .block, .missing, [], 0, [], 0, .initial⟩

/-- What the call works with: the superblock's record with the count of the bitmap. -/
def counted : file_system_info :=
  { fs_info with used_bitmap := BitVec.ofNat 64 (used_count fs_info bm) }

variable {fs_info bm}

/-- The count is in neither size. -/
theorem counted_sizes : image_size (counted fs_info bm) bm = image_size fs_info bm ∧
    needed_space (counted fs_info bm) = needed_space fs_info := by
  simp only [image_size, needed_space, counted, used_count, marked, and_self]

theorem tight_free_space (htot : fs_info.totalblock.toNat < 2 ^ 32) :
    get_local_free_space (tight_host fs_info) .regular = needed_space fs_info := by
  simp only [get_local_free_space, tight_host, Nat.one_mul, u64_of_lt (needed_space_lt htot),
    ite_self]

/-- **The check passes**, and the descriptor is written. The machine refuses nothing, and its free
space is the estimate. -/
theorem ptf_prepare_tight (hbs : 0 < fs_info.block_size.toNat)
    (htot : fs_info.totalblock.toNat < 2 ^ 32) (hbm : sized fs_info.totalblock.toNat bm) :
    ∃ w₃, ptf_prepare (tight_host fs_info) (found_driver fs_info bm) (tight_world fs_info) true
        = .ok (.ok ⟨counted fs_info bm, ptf_image_options fs_info.block_size.toNat, bm⟩, w₃) ∧
      w₃.sched = [] ∧ w₃.dfw.growable = true ∧ w₃.target = .regular ∧
      w₃.dfr.data = (tight_world fs_info).dfr.data := by
  have hspace : ∀ w : World, w.target = .regular → check_system_space (tight_host fs_info) w
      (counted fs_info bm) (ptf_image_options fs_info.block_size.toNat) = true := by
    intro w htarget
    refine (check_system_space_iff (counted fs_info bm) _ rfl htot _ _).mpr ?_
    rw [htarget]
    exact (tight_free_space htot).ge
  obtain ⟨w₃, hprep, hsched, hgrow, htarget, hdata, -⟩ := ptf_prepare_smooth (fun _ => rfl)
    (fun _ => rfl) (found_driver_reads fs_info hbm) hbs htot (w := tight_world fs_info) rfl rfl rfl
    hspace
  exact ⟨w₃, hprep, hsched, hgrow, htarget, hdata⟩

end Tight

/-! ## When the check is sound -/

/-- The call has passed the check: its descriptor is out, or has been cut short. A call that fails
at the descriptor has passed it as well, and has begun to write. -/
def passed (host : Host) (drv : driver) (w : World) (overwrite : Bool)
    (fs_info : file_system_info) (bm : bitmap) (w₃ : World) : Prop :=
  ptf_prepare host drv w overwrite = .ok
      (.ok ⟨counted fs_info bm, ptf_image_options fs_info.block_size.toNat, bm⟩, w₃) ∨
    read_file_system host drv
        = .ok (.ok ⟨fs_info, ptf_image_options fs_info.block_size.toNat, bm⟩) ∧
      ptf_prepare host drv w overwrite = .ok (.error 7, w₃)

/-- **The space check is sound exactly when the estimate covers the image**: every call of the
four handlers that passes it stays within the free space that it saw. The machine that shows the
converse has just as much space as the check asks for. A call that passes writes at most the image
(`sysbak_ptf_written`), so an estimate that covers it is enough. -/
theorem space_check_sound_iff {fs_info : file_system_info} {bm : bitmap}
    (hbs : 1 ≤ fs_info.block_size.toNat) (hbs' : fs_info.block_size.toNat ≤ 2 ^ 30)
    (htot : fs_info.totalblock.toNat < 2 ^ 32) (hbm : sized fs_info.totalblock.toNat bm) :
    (∀ gdbus_sysbak_ptf ∈ [Extfs.gdbus_sysbak_ptf, Fatfs.gdbus_sysbak_ptf,
        Btrfs.gdbus_sysbak_ptf fs_info.block_size.toNat, Xfsfs.gdbus_sysbak_ptf],
      ∀ (host : Host) (drv : driver) (w w₃ w' : World) (overwrite ok : Bool),
        passed host drv w overwrite fs_info bm w₃ →
        gdbus_sysbak_ptf host drv w overwrite = .ok (ok, w') →
        w'.dfw.pos ≤ get_local_free_space host w₃.target) ↔ covers fs_info bm := by
  rw [← image_size_le_needed_space]
  constructor
  · intro hsound
    -- the machine whose free space is just what the check asks for
    obtain ⟨w₃, hprep, hsched, hgrow, htarget, hdfr⟩ := ptf_prepare_tight hbs htot hbm
    obtain ⟨ok, w', hrun, -, hwhole⟩ := sysbak_ptf_written
      (fun fs_info => fs_info.block_size.toNat) false hprep rfl hbs'
    have hsrc : ∀ x ∈ marked (counted fs_info bm) bm 0,
        (x + 1) * fs_info.block_size.toNat ≤ w₃.dfr.data.length := by
      intro x hx
      rw [hdfr]
      change _ ≤ (List.replicate _ _).length
      rw [List.length_replicate]
      exact Nat.mul_le_mul_right _ (mem_used_from.mp hx).2.1
    have hpos : w'.dfw.pos ≤ get_local_free_space (tight_host fs_info) w₃.target :=
      hsound Extfs.gdbus_sysbak_ptf (.head _) (tight_host fs_info) (found_driver fs_info bm)
        (tight_world fs_info) w₃ w' true ok (Or.inl hprep) hrun
    rw [(hwhole (fun _ => rfl) hsched hgrow hsrc).2.2.2, htarget, tight_free_space htot,
      counted_sizes.1] at hpos
    exact hpos
  · intro hcovers ptf hptf host drv w w₃ w' overwrite ok hpassed hrun
    obtain ⟨size, reply_last, hsize, hrun⟩ := ptf_handlers hptf hrun
    rcases hpassed with hprep | ⟨hread, hprep⟩
    swap
    · -- a part of the descriptor is less than the image
      obtain ⟨fs, hcount, hspace, hle⟩ := ptf_prepare_desc_failed hread hprep
      rw [update_used_blocks_count_eq htot] at hcount
      obtain rfl := Except.ok.inj hcount
      have hspace := (check_system_space_iff (counted fs_info bm) fs_info.block_size.toNat rfl htot
        host w₃).mp hspace
      rw [counted_sizes.2] at hspace
      rw [sysbak_ptf, hprep, ok_bind] at hrun
      obtain ⟨-, rfl⟩ := Prod.mk.inj (Except.ok.inj hrun)
      refine le_trans ?_ (hcovers.trans hspace)
      change w₃.dfw.pos ≤ _
      rw [image_size]
      omega
    obtain ⟨ok', w'', hrun', hle, -⟩ := sysbak_ptf_written size reply_last hprep
      (hsize _ rfl) hbs'
    rw [hrun] at hrun'
    obtain ⟨rfl, rfl⟩ := Prod.mk.inj (Except.ok.inj hrun')
    -- what is written is at most the image, which is at most the estimate
    have hspace := ptf_prepare_space hprep
    dsimp only at hspace
    rw [check_system_space_iff (counted fs_info bm) fs_info.block_size.toNat
      rfl htot, counted_sizes.2] at hspace
    rw [counted_sizes.1] at hle
    exact (hle.trans hcovers).trans hspace

/-- A superblock that counts three used blocks where the bitmap marks one. -/
def overcounted_fs : file_system_info := { empty_fs with usedblocks := 3 }

/-- The estimate covers its image, so its backups stay within what they were promised. -/
theorem space_check_sound_overcounted :
    covers overcounted_fs [1] ∧
    ∀ gdbus_sysbak_ptf ∈ [Extfs.gdbus_sysbak_ptf, Fatfs.gdbus_sysbak_ptf,
        Btrfs.gdbus_sysbak_ptf overcounted_fs.block_size.toNat, Xfsfs.gdbus_sysbak_ptf],
      ∀ (host : Host) (drv : driver) (w w₃ w' : World) (overwrite ok : Bool),
        passed host drv w overwrite overcounted_fs [1] w₃ →
        gdbus_sysbak_ptf host drv w overwrite = .ok (ok, w') →
        w'.dfw.pos ≤ get_local_free_space host w₃.target := by
  have hcovers : covers overcounted_fs [1] := by decide
  exact ⟨hcovers, (@space_check_sound_iff overcounted_fs [1] (by decide) (by decide) (by decide)
    rfl).mpr hcovers⟩

/-- With 107 bytes free the backup of an empty file system passes, and writes 115. -/
theorem space_check_passes_107 :
    ∃ w', Extfs.gdbus_sysbak_ptf (tight_host empty_fs) (empty_driver true) (empty_world [] []) true
        = .ok (true, w') ∧ w'.dfw.data.length = 115 ∧
      get_local_free_space (tight_host empty_fs) (empty_world [] []).target = 107 := by
  obtain ⟨w', hrun, -, hlen, -⟩ := call_result_eq_some
    (show call_result (Extfs.gdbus_sysbak_ptf (tight_host empty_fs) (empty_driver true)
      (empty_world [] []) true) = some (true, 0, 115, some (.finished 8 0 1024)) by decide +kernel)
  exact ⟨w', hrun, hlen, by decide +kernel⟩

end SysbakAdmin.SpaceCheck

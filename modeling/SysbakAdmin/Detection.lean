/-
Alterations of an image.

Three parts of an image end in their own CRC: the descriptor, the bitmap section, and
each checksum group. A part that ends in its CRC and is changed within four bytes does
so no longer (`altered.not_sealed`), and a restore lays down nothing of a part before it
has seen that it does. So an alteration is always noticed, and what has been written by
then are the groups before it.

What is written of them is right as well. The groups before the altered one are read from
bytes that nobody has touched, and blocks that are accepted there are determined by their
number (`verified.eq_take`), so they are the ones of the image: a byte of the target is as
it was, or lies in a used block of an earlier group and is the byte of the source
(`written_from`). A write may have come short, which is why the statement is about bytes.
-/
import SysbakAdmin.BackupOutcome
import SysbakAdmin.RestoreRun

set_option autoImplicit false

namespace SysbakAdmin.Detection

open LittleEndian ByteStore CInt CMemory DoWhile Transfer FileIo GroupStream PackedRecord
open Bitmap Checksum Io Share Backup ImageWriter Restore Handlers Opening RoundTrip
open ReaderLoops ImageReader RestoreRun PtfRun BackupOutcome

/-! ## Alterations

A file is altered in a section when it differs there from another one, within four bytes, and
nowhere else. -/

/-- `image'` is as long as `image` and differs from it, within a window of four bytes that
lies in the `n` bytes from `off` on. -/
structure altered (off n : ℕ) (image image' : List Byte) : Prop where
  window : ∃ pre x y post, image = pre ++ x ++ post ∧ image' = pre ++ y ++ post ∧
    x.length = y.length ∧ x.length ≤ 4 ∧ x ≠ y ∧ off ≤ pre.length ∧
    pre.length + x.length ≤ off + n

/-- What a section is around a window in it. -/
theorem slice_around {pre x post : List Byte} {off n : ℕ} (hoff : off ≤ pre.length)
    (hend : pre.length + x.length ≤ off + n) :
    slice (pre ++ x ++ post) off n
      = pre.drop off ++ x ++ post.take (off + n - (pre.length + x.length)) := by
  rw [slice, List.append_assoc, List.drop_append_of_le_length hoff, ← List.append_assoc,
    List.take_append, List.take_of_length_le (by
      rw [List.length_append, List.length_drop]; omega), List.length_append, List.length_drop]
  congr 2
  omega

section Altered

variable {off n : ℕ} {image image' : List Byte} (h : altered off n image image')
include h

theorem altered.length_eq : image'.length = image.length := by
  obtain ⟨pre, x, y, post, rfl, rfl, hlen, -⟩ := h.window
  simp only [List.length_append, hlen]

/-- What lies before the section is as it was. -/
theorem altered.slice_before {o m : ℕ} (hle : o + m ≤ off) : slice image' o m = slice image o m := by
  obtain ⟨pre, x, y, post, rfl, rfl, -, -, -, hoff, -⟩ := h.window
  rw [List.append_assoc, List.append_assoc, slice_append_left (by omega),
    slice_append_left (by omega)]

/-- **An altered section does not end in its CRC** any more. Two texts that are both sealed and
differ within four bytes would be equal (`Checksum.not_sealed_of_window`), and the unaltered one
is sealed. -/
theorem altered.not_sealed (hsealed : sealed (slice image off n)) : ¬ sealed (slice image' off n) := by
  obtain ⟨pre, x, y, post, rfl, rfl, hlen, h4, hne, hoff, hend⟩ := h.window
  rw [slice_around hoff hend] at hsealed
  rw [slice_around hoff (by rw [← hlen]; exact hend), ← hlen]
  exact not_sealed_of_window hlen h4 hne hsealed

end Altered

/-- What a target is left with when blocks of `src` have been written to it, some of them or parts
of them: a byte is as it was, or lies in one of the blocks and is that of `src`. -/
def written_from (block_size : ℕ) (blocks : List ℕ) (src before after : List Byte) : Prop :=
  ∀ i, after.getD i 0 = before.getD i 0 ∨
    (∃ b ∈ blocks, b * block_size ≤ i ∧ i < (b + 1) * block_size) ∧
      after.getD i 0 = src.getD i 0

/-! ## The groups of an image

Where a group starts and how long it is, in the file: what the reader reads for a chunk is one
group of the writer. -/

section Groups

variable (fs_info : file_system_info) (bm : bitmap)

/-- Where group `k` starts. -/
def group_start (k : ℕ) : ℕ :=
  110 + (BITS_TO_BYTES fs_info.totalblock.toNat + 4)
    + k * (capacity fs_info.block_size.toNat * fs_info.block_size.toNat + 4)

/-- How long it is: its blocks and their checksum. -/
def group_length (k : ℕ) : ℕ :=
  chunk_size fs_info bm (k * capacity fs_info.block_size.toNat) * fs_info.block_size.toNat + 4

variable {fs_info bm}

theorem desc_ends : sealed (desc_section fs_info (ptf_image_options fs_info.block_size.toNat)) :=
  (valid_desc_section fs_info _).crc_ok

/-- A cursor between two groups holds the seed. The register is reset behind every checksum, so
the group's own bytes decide whether it is sealed. -/
theorem group_cursor (a : Bytes (ptf_image_options fs_info.block_size.toNat).checksum_size.toNat)
    {blocks : List (List Byte)} {k : ℕ}
    (hlen : blocks.length = k * capacity fs_info.block_size.toNat) :
    (emit (digest_of (ptf_image_options fs_info.block_size.toNat))
      (ptf_image_options fs_info.block_size.toNat).blocks_per_checksum.toNat
      (start_cursor _ a) blocks).2 = ⟨0, crc_array CRC32_SEED⟩ := by
  have hfilled := cursor_filled (ptf_group_pos fs_info.block_size.toNat)
    (show (start_cursor (ptf_image_options fs_info.block_size.toNat) a).filled = 0 from rfl) blocks
  rw [ptf_blocks_per_checksum, hlen, Nat.mul_mod_left] at hfilled
  obtain ⟨s, hs⟩ := emit_fresh (digest_of (ptf_image_options fs_info.block_size.toNat))
    (ptf_image_options fs_info.block_size.toNat).blocks_per_checksum.toNat
    (c := start_cursor _ a) (fun _ => ⟨_, rfl⟩) blocks (by rw [ptf_blocks_per_checksum]; exact hfilled)
  have hseed : (digest_of (ptf_image_options fs_info.block_size.toNat)).reset s
      = crc_array CRC32_SEED := reset_crc s
  rw [hseed] at hs
  rw [ptf_blocks_per_checksum] at hs ⊢
  exact Cursor.ext hfilled hs

/-- A group is its blocks and their CRC. -/
theorem group_bytes {k : ℕ} (hk : k * capacity fs_info.block_size.toNat < used_count fs_info bm)
    {more : List (List Byte)}
    (hlen : more.length = chunk_size fs_info bm (k * capacity fs_info.block_size.toNat)) :
    chunk_bytes fs_info (ptf_image_options fs_info.block_size.toNat) bm ⟨0, crc_array CRC32_SEED⟩
        (k * capacity fs_info.block_size.toNat) more
      = more.flatten ++ crc_bytes more.flatten := by
  have htail := tail_test_iff (ptf_image_options fs_info.block_size.toNat) bm
    (Nat.mul_mod_left k (capacity fs_info.block_size.toNat)) hk
  have hpos := chunk_size_pos hk
  have hle : chunk_size fs_info bm (k * capacity fs_info.block_size.toNat)
      ≤ capacity fs_info.block_size.toNat := Nat.min_le_left _ _
  have hdigest : more.foldl (digest_of (ptf_image_options fs_info.block_size.toNat)).absorb
      (crc_array CRC32_SEED) = crc_array (crc CRC32_SEED more.flatten) :=
    foldl_absorb_crc more CRC32_SEED
  rw [← hlen] at htail hpos hle
  rw [chunk_bytes, tail_digest]
  rcases Nat.eq_or_lt_of_le hle with heq | hlt
  · -- a full group carries its digest
    have hne : more ≠ [] := by intro h; rw [h] at hpos; simp at hpos
    rw [emit_of_eq _ _ hne (by rw [ptf_blocks_per_checksum, heq, Nat.zero_add]),
      if_neg fun h => by have := (htail.mpr h).1; omega, hdigest, List.append_nil]
    rfl
  · -- the trailing one is followed by it
    have hend : k * capacity fs_info.block_size.toNat + more.length = used_count fs_info bm := by
      rw [hlen] at hlt ⊢
      unfold chunk_size at hlt ⊢
      omega
    have hmod : used_count fs_info bm % capacity fs_info.block_size.toNat ≠ 0 := by
      rw [← hend, Nat.mul_add_mod_of_lt hlt]
      omega
    rw [emit_of_lt _ _ (by rw [ptf_blocks_per_checksum, Nat.zero_add]; exact hlt),
      if_pos ⟨hend, (ptf_tail_checked_iff bm).mpr hmod⟩, hdigest]
    rfl

/-- How much of the data section blocks take with which it does not end. -/
theorem checked_length {a : Bytes (ptf_image_options fs_info.block_size.toNat).checksum_size.toNat}
    {blocks : List (List Byte)} (hlt : blocks.length < used_count fs_info bm)
    (hlen : ∀ b ∈ blocks, b.length = fs_info.block_size.toNat) :
    (checked fs_info (ptf_image_options fs_info.block_size.toNat) bm (start_cursor _ a)
      blocks).length
        = blocks.length * fs_info.block_size.toNat
          + blocks.length / capacity fs_info.block_size.toNat * 4 := by
  rw [checked, tail_digest_of_lt _ hlt, List.append_nil,
    emit_length (digest_of (ptf_image_options fs_info.block_size.toNat)) _ (ptf_group_pos _)
      (n := fs_info.block_size.toNat) (m := 4) (fun s => s.2) (ptf_group_pos _) hlen,
    ptf_blocks_per_checksum]
  change _ + (0 + blocks.length) / _ * 4 = _
  rw [Nat.zero_add]

/-- **Every accepted group ends in its CRC.** The reader has compared the checksum behind it with
the register over its blocks, and the register had been reset at the group's start, since a chunk
starts there. -/
theorem group_sealed (dfr : File)
    {a : Bytes (ptf_image_options fs_info.block_size.toNat).checksum_size.toNat}
    {blocks : List (List Byte)}
    (hver : verified fs_info (ptf_image_options fs_info.block_size.toNat) bm dfr (start_cursor _ a)
      blocks)
    (hpos : dfr.pos = 110 + (BITS_TO_BYTES fs_info.totalblock.toNat + 4)) {k : ℕ}
    (hk : k * capacity fs_info.block_size.toNat < used_count fs_info bm)
    (hle : blocks.length ≤ used_count fs_info bm)
    (hend : k * capacity fs_info.block_size.toNat
      + chunk_size fs_info bm (k * capacity fs_info.block_size.toNat) ≤ blocks.length) :
    sealed (slice dfr.data (group_start fs_info k) (group_length fs_info bm k)) := by
  set c := k * capacity fs_info.block_size.toNat with hc
  have hclen : (blocks.take c).length = c := by rw [List.length_take]; omega
  have hmorelen : ((blocks.drop c).take (chunk_size fs_info bm c)).length
      = chunk_size fs_info bm c := by
    rw [List.length_take, List.length_drop]; omega
  have hchunk := hver.chunk hk hle hend
  rw [group_cursor a (k := k) hclen, group_bytes hk hmorelen] at hchunk
  -- the groups before it are full
  have hbefore : (checked fs_info (ptf_image_options fs_info.block_size.toNat) bm (start_cursor _ a)
      (blocks.take c)).length
        = k * (capacity fs_info.block_size.toNat * fs_info.block_size.toNat + 4) := by
    rw [checked_length (by rw [hclen]; exact hk)
      (fun b hb => hver.lengths b (List.mem_of_mem_take hb)), hclen, hc,
      Nat.mul_div_cancel _ (capacity_pos _)]
    ring
  have hflat : ((blocks.drop c).take (chunk_size fs_info bm c)).flatten.length
      = chunk_size fs_info bm c * fs_info.block_size.toNat := by
    rw [flatten_length_of_length fun b hb =>
      hver.lengths b (List.mem_of_mem_drop (List.mem_of_mem_take hb)), hmorelen]
  rw [hbefore, hpos] at hchunk
  have hslice : slice dfr.data (group_start fs_info k) (group_length fs_info bm k)
      = ((blocks.drop c).take (chunk_size fs_info bm c)).flatten
        ++ crc_bytes ((blocks.drop c).take (chunk_size fs_info bm c)).flatten := by
    have h := List.prefix_iff_eq_take.mp hchunk
    rw [List.length_append, crc_bytes_length, hflat] at h
    exact h.symm
  rw [hslice, sealed_append_iff _ (crc_bytes_length _)]

end Groups

/-! ## Restoring an altered image -/

section Restore

variable {fs_info : file_system_info} {bm : bitmap} (hbs : 0 < fs_info.block_size.toNat)
  (hbs' : fs_info.block_size.toNat ≤ 2 ^ 30) (htot : fs_info.totalblock.toNat < 2 ^ 32)
  {a : Bytes (ptf_image_options fs_info.block_size.toNat).checksum_size.toNat}
  {src image : List Byte} (himage : holds_image fs_info bm a src image) (host : Host) {w : World}
  (overwrite : Bool) (hmissing : w.target = .missing → w.dfw.data = [])
include hbs hbs' htot himage hmissing

/-- **An altered descriptor or bitmap section**: nothing is written. Descriptor and bitmap are
read and checked before the loop over the chunks is entered, and nothing in front of the loop
writes to the target. -/
theorem restore_front_altered
    (h : altered 0 110 image w.dfr.data
      ∨ altered 110 (BITS_TO_BYTES fs_info.totalblock.toNat + 4) image w.dfr.data) :
    ∃ w', gdbus_sysbak_restore host w overwrite = .ok (false, w') ∧ w'.dfw.data = w.dfw.data := by
  rcases h with h | h
  · have hbad : ¬ valid_desc (slice w.dfr.data 0 110) := fun hv =>
      h.not_sealed (by rw [himage.descriptor]; exact desc_ends) hv.crc_ok
    obtain ⟨ok, w', hrun, ⟨rfl, hkept⟩ | hlaid⟩ := gdbus_sysbak_restore_ok hbs hbs' htot host w
      overwrite hmissing (fun hv => absurd hv hbad)
    · exact ⟨w', hrun, hkept⟩
    · exact absurd hlaid.descriptor hbad
  · have hdesc := (h.slice_before (o := 0) (m := 110) le_rfl).trans himage.descriptor
    obtain ⟨ok, w', hrun, ⟨rfl, hkept⟩ | hlaid⟩ := gdbus_sysbak_restore_ok hbs hbs' htot host w
      overwrite hmissing (fun _ => by rw [hdesc]; exact unpack_desc_section _ _)
    · exact ⟨w', hrun, hkept⟩
    · exact absurd hlaid.section_sealed
        (h.not_sealed (by rw [himage.section_eq]; exact sealed_bitmap_section))

/-- **An altered group**: what is written are groups before it, and they are as they were. The
groups before it are read from bytes that have not been altered, and what is accepted there is
determined by how many blocks there are. -/
theorem restore_group_altered (hbm : sized fs_info.totalblock.toNat bm)
    (hsrc : ∀ x ∈ marked fs_info bm 0, (x + 1) * fs_info.block_size.toNat ≤ src.length) {k : ℕ}
    (hk : k * capacity fs_info.block_size.toNat < used_count fs_info bm)
    (h : altered (group_start fs_info k) (group_length fs_info bm k) image w.dfr.data) :
    ∃ w', gdbus_sysbak_restore host w overwrite = .ok (false, w') ∧
      written_from fs_info.block_size.toNat
        ((marked fs_info bm 0).take (k * capacity fs_info.block_size.toNat)) src
        w.dfw.data w'.dfw.data := by
  have hbefore : ∀ {o m : ℕ}, o + m ≤ 110 + (BITS_TO_BYTES fs_info.totalblock.toNat + 4) →
      slice w.dfr.data o m = slice image o m := fun hle =>
    h.slice_before (hle.trans (Nat.le_add_right _ _))
  have hdesc := (hbefore (o := 0) (m := 110) (by omega)).trans himage.descriptor
  obtain ⟨ok, w', hrun, ⟨rfl, hkept⟩ | hlaid⟩ := gdbus_sysbak_restore_ok hbs hbs' htot host w
    overwrite hmissing (fun _ => by rw [hdesc]; exact unpack_desc_section _ _)
  · exact ⟨w', hrun, fun i => Or.inl (by rw [hkept])⟩
  obtain ⟨bm', dfr, blocks, hbm', hdata, hpos, hver, hle, halign, hall, hwritten⟩ := hlaid.blocks
  -- the bitmap that was loaded marks the blocks of the image
  have hmarked : marked fs_info bm' 0 = marked fs_info bm 0 := by
    rw [hbm', hbefore (by omega), himage.stored_bitmap]
    exact used_from_load htot hbm (by rw [sized, fresh_bitmap, List.length_replicate])
  have hcount : used_count fs_info bm' = used_count fs_info bm := by rw [used_count, hmarked]
  have hlength : group_length fs_info bm' k = group_length fs_info bm k := by
    rw [group_length, group_length, chunk_size, chunk_size, hcount]
  rw [← hcount] at hk
  rw [← hlength] at h
  -- the altered group has not been accepted
  have hstop : blocks.length ≤ k * capacity fs_info.block_size.toNat := by
    by_contra hgt
    have hcap := capacity_pos fs_info.block_size.toNat
    have hnext : k * capacity fs_info.block_size.toNat
        + chunk_size fs_info bm' (k * capacity fs_info.block_size.toNat) ≤ blocks.length := by
      unfold chunk_size
      rcases halign with hmod | hlast
      · have hdvd := Nat.div_add_mod blocks.length (capacity fs_info.block_size.toNat)
        rw [hmod, Nat.add_zero, Nat.mul_comm] at hdvd
        have hmore : k + 1 ≤ blocks.length / capacity fs_info.block_size.toNat := by
          by_contra hlt
          have := Nat.mul_le_mul_right (capacity fs_info.block_size.toNat)
            (show blocks.length / capacity fs_info.block_size.toNat ≤ k by omega)
          omega
        have := Nat.mul_le_mul_right (capacity fs_info.block_size.toNat) hmore
        rw [Nat.add_mul] at this
        omega
      · omega
    have hnow := group_sealed dfr hver hpos hk hle hnext
    rw [hdata] at hnow
    have hthen := group_sealed ⟨image, 110 + (BITS_TO_BYTES fs_info.totalblock.toNat + 4), false⟩
      (himage.verified rfl hsrc hmarked (stale_checksum host _)) rfl hk
      (by rw [gather_length, hcount]) (by
        rw [gather_length, ← used_count, ← hcount]
        exact chunk_size_le fs_info bm' hk.le)
    exact h.not_sealed hthen hnow
  -- the blocks before it come from bytes that are as they were
  have hlt : blocks.length < used_count fs_info bm' := by omega
  have hsame : verified fs_info (ptf_image_options fs_info.block_size.toNat) bm'
      ⟨image, 110 + (BITS_TO_BYTES fs_info.totalblock.toNat + 4), false⟩
      (start_cursor _ (stale_checksum host _)) blocks := by
    refine ⟨hver.lengths, List.prefix_iff_eq_take.mpr ?_⟩
    have hread := List.prefix_iff_eq_take.mp hver.accepted
    rw [hdata, hpos, checked_length hlt hver.lengths] at hread
    rw [checked_length hlt hver.lengths]
    refine hread.trans (h.slice_before ?_)
    rw [group_start, Nat.mul_add]
    have hgroups : blocks.length / capacity fs_info.block_size.toNat ≤ k :=
      Nat.div_le_of_le_mul (by rw [Nat.mul_comm]; exact hstop)
    have hbytes := Nat.mul_le_mul_right fs_info.block_size.toNat hstop
    rw [Nat.mul_assoc] at hbytes
    omega
  have htake := hsame.eq_take (himage.verified rfl hsrc hmarked (stale_checksum host _))
    (by rw [gather_length, ← used_count, ← hcount]; exact hle)
  rw [gather, ← List.map_take, ← gather] at htake
  rw [hmarked] at hwritten
  have hfrom : laid 0 fs_info.block_size.toNat ((marked fs_info bm 0).take blocks.length)
      (gather fs_info.block_size.toNat src ((marked fs_info bm 0).take blocks.length))
      w.dfw.data w'.dfw.data := by
    rw [← htake]
    exact hwritten
  cases ok with
  | true => exact absurd (hall rfl) (by omega)
  | false =>
      refine ⟨w', hrun, fun i => ?_⟩
      rcases hfrom.from_gather i with hkept | ⟨⟨b, hb, hin⟩, hval⟩
      · exact Or.inl hkept
      · exact Or.inr ⟨⟨b, List.take_subset_take_left _ hstop hb, hin⟩, hval⟩

end Restore

/-- **Corruption is detected before it reaches the target.** The image is what a successful
run of any of the four drivers left, every transfer of which came to its end; it is then
altered within four bytes of its descriptor, of its bitmap section or of one of its
groups, and restored on any machine, under any schedule, to any target. The call returns
`FALSE`; the target keeps its bytes, but for those of blocks in earlier groups, which are the
source's. -/
theorem alteration_detected {host : Host} {drv : driver} {block_size : ℕ}
    (hsuper : ∀ fs_info, drv.read_super_blocks init_file_system_info = .ok (true, fs_info) →
      fs_info.block_size.toNat = block_size)
    (hbs : block_size ≤ 2 ^ 30) (w w' : World) (overwrite : Bool) :
    ∀ gdbus_sysbak_ptf ∈ [Extfs.gdbus_sysbak_ptf, Fatfs.gdbus_sysbak_ptf,
        Btrfs.gdbus_sysbak_ptf block_size, Xfsfs.gdbus_sysbak_ptf],
    gdbus_sysbak_ptf host drv w overwrite = .ok (true, w') → w'.io_failed = w.io_failed →
    ∃ p w₃, ptf_prepare host drv w overwrite = .ok (.ok p, w₃) ∧
      ∀ (host' : Host) (v : World) (overwrite' : Bool),
        (v.target = .missing → v.dfw.data = []) →
        (altered 0 110 w'.dfw.data v.dfr.data
            ∨ altered 110 (BITS_TO_BYTES p.fs_info.totalblock.toNat + 4) w'.dfw.data v.dfr.data →
          ∃ v', gdbus_sysbak_restore host' v overwrite' = .ok (false, v') ∧
            v'.dfw.data = v.dfw.data) ∧
        ∀ k, k * capacity p.fs_info.block_size.toNat < used_count p.fs_info p.bitmap →
          altered (group_start p.fs_info k) (group_length p.fs_info p.bitmap k) w'.dfw.data
            v.dfr.data →
          ∃ v', gdbus_sysbak_restore host' v overwrite' = .ok (false, v') ∧
            written_from p.fs_info.block_size.toNat
              ((marked p.fs_info p.bitmap 0).take (k * capacity p.fs_info.block_size.toNat))
              w.dfr.data v.dfw.data v'.dfw.data := by
  intro ptf hptf hrun hclean
  obtain ⟨⟨fs_info, img_opt, bm⟩, w₃, hprep, hset, hfs, hsrc, hdfw⟩ :=
    ptf_image_left hsuper hbs hptf hrun hclean
  dsimp only at hfs hsrc hdfw
  have htot : fs_info.totalblock.toNat < 2 ^ 32 := hset.totalblock
  have hpos : (opened_target w).pos = 0 := by unfold opened_target; split <;> rfl
  have himage : holds_image fs_info bm (stale_checksum host _) w.dfr.data w'.dfw.data := by
    refine holds_image_of_prefix ?_ (by rw [hdfw]; exact prefix_written hpos _)
    rw [show bm.length = _ from hset.bitmap]
    exact BITS_TO_BYTES_le (by omega)
  refine ⟨_, w₃, hprep, fun host' v overwrite' hmissing => ⟨fun h => ?_, fun k hk h => ?_⟩⟩
  · exact restore_front_altered hset.block_size (hfs.le.trans hbs) htot himage host' overwrite'
      hmissing h
  · exact restore_group_altered hset.block_size (hfs.le.trans hbs) htot himage host' overwrite'
      hmissing hset.bitmap hsrc hk h

/-! ### Two groups -/

/-- Eight blocks of a mebibyte, each of them a group of its own. -/
def large_fs : file_system_info :=
  { init_file_system_info with totalblock := 8, block_size := 1048576, device_size := 8388608 }

/-- A daemon that is about to back two of them up to a new file. -/
def large_world : World :=
  ⟨⟨List.replicate 8388608 1, 0, false⟩, ⟨[], 0, false⟩, .block, .missing, [], 0, [], 0, .initial⟩

theorem large_used : marked large_fs [5] 0 = [0, 2] := by decide

theorem large_backed_up :
    ∃ w₃ w', ptf_prepare plain_host (found_driver large_fs [5]) large_world true = .ok (.ok
        ⟨{ large_fs with used_bitmap := 2 }, ptf_image_options 1048576, [5]⟩, w₃) ∧
      Extfs.gdbus_sysbak_ptf plain_host (found_driver large_fs [5]) large_world true
        = .ok (true, w') ∧
      w'.io_failed = large_world.io_failed ∧ w'.target = .regular := by
  refine sysbak_ptf_smooth (fun fs_info => fs_info.block_size.toNat) false
    ⟨fun _ => rfl, fun _ => rfl, @found_driver_reads large_fs [5] rfl, by decide, by decide,
      by decide, rfl, rfl, rfl, fun w' hw' => ?_, fun x hx => ?_⟩ fun _ => rfl
  · rw [check_system_space, hw']
    decide +kernel
  · rw [large_used] at hx
    rw [large_world, List.length_replicate]
    rcases List.mem_pair.mp hx with rfl | rfl <;> decide

/-- One changed byte. -/
theorem altered_set {off n i : ℕ} {image : List Byte} {x : Byte} (hi : i < image.length)
    (hne : image.getD i 0 ≠ x) (hlow : off ≤ i) (hhigh : i < off + n) :
    altered off n image (image.set i x) := by
  refine ⟨image.take i, [image.getD i 0], [x], image.drop (i + 1), ?_, ?_, rfl, Nat.le_add_left 1 3,
    by simpa using hne, ?_, ?_⟩
  · rw [List.getD_eq_getElem _ _ hi, List.append_assoc, List.singleton_append,
      List.getElem_cons_drop, List.take_append_drop]
  · rw [List.set_eq_take_append_cons_drop, if_pos hi, List.append_assoc, List.singleton_append]
  · rw [List.length_take]
    omega
  · rw [List.length_take, List.length_singleton]
    omega

/-- An image of two groups, any byte of which is changed: a change in front of the second group
leaves the target as it is; one in the second group lets the first block be written, and it is
right. -/
theorem alteration_detected_two_groups :
    ∃ w', Extfs.gdbus_sysbak_ptf plain_host (found_driver large_fs [5]) large_world true
        = .ok (true, w') ∧
      w'.dfw.data.length = 115 + 2 * 1048580 ∧
      ∀ (host : Host) (v : World) (overwrite : Bool) (i : ℕ) (x : Byte), v.target = .block →
        i < 115 + 2 * 1048580 → w'.dfw.data.getD i 0 ≠ x → v.dfr.data = w'.dfw.data.set i x →
        ∃ v', gdbus_sysbak_restore host v overwrite = .ok (false, v') ∧
          ∀ j, v'.dfw.data.getD j 0 = v.dfw.data.getD j 0 ∨
            115 + 1048580 ≤ i ∧ j < 1048576 ∧ v'.dfw.data.getD j 0 = 1 := by
  obtain ⟨w₃, w', hprep, hrun, hclean, -⟩ := large_backed_up
  have hsuper : ∀ fs_info, (found_driver large_fs [5]).read_super_blocks init_file_system_info
      = .ok (true, fs_info) → fs_info.block_size.toNat = 1048576 := fun fs_info h => by
    cases h; rfl
  -- how long it is
  obtain ⟨p, w₄, hprep', -, -, hsrc, hdfw⟩ := ptf_image_left hsuper (by decide) (.head _) hrun hclean
  obtain ⟨hp, -⟩ := Prod.mk.inj (Except.ok.inj (hprep.symm.trans hprep'))
  obtain rfl := Except.ok.inj hp
  have hlen : w'.dfw.data.length = 115 + 2 * 1048580 := by
    rw [hdfw, written_at_end rfl, List.length_append, disk_image_length (by decide) _ hsrc]
    decide
  obtain ⟨p, w₅, hprep', hdetect⟩ := @alteration_detected _ _ 1048576 hsuper (by decide)
    large_world w' true _ (.head _) hrun hclean
  obtain ⟨hp, -⟩ := Prod.mk.inj (Except.ok.inj (hprep.symm.trans hprep'))
  obtain rfl := Except.ok.inj hp
  refine ⟨w', hrun, hlen, fun host v overwrite i x htarget hi hne hdata => ?_⟩
  have hchanged : ∀ {off n : ℕ}, off ≤ i → i < off + n →
      altered off n w'.dfw.data v.dfr.data := fun hlow hhigh =>
    hdata ▸ altered_set (hlen ▸ hi) hne hlow hhigh
  obtain ⟨hfront, hgroup⟩ := hdetect host v overwrite (by simp [htarget])
  rcases Nat.lt_or_ge i 115 with hlow | hlow
  · obtain ⟨v', hv', hkept⟩ := hfront (by
      rcases Nat.lt_or_ge i 110 with h | h
      · exact Or.inl (hchanged (Nat.zero_le _) (by omega))
      · exact Or.inr (hchanged h hlow))
    exact ⟨v', hv', fun j => Or.inl (by rw [hkept])⟩
  rcases Nat.lt_or_ge i (115 + 1048580) with hfirst | hsecond
  · -- nothing precedes the first group
    obtain ⟨v', hv', hwritten⟩ := hgroup 0 (by decide) (hchanged hlow hfirst)
    refine ⟨v', hv', fun j => ?_⟩
    rcases hwritten j with h | ⟨⟨b, hb, -⟩, -⟩
    · exact Or.inl h
    · cases hb
  · obtain ⟨v', hv', hwritten⟩ := hgroup 1 (by decide) (hchanged hsecond hi)
    refine ⟨v', hv', fun j => ?_⟩
    rcases hwritten j with h | ⟨⟨b, hb, -, hj⟩, hval⟩
    · exact Or.inl h
    · have hone : (marked { large_fs with used_bitmap := 2 } [5] 0).take
          (1 * capacity large_fs.block_size.toNat) = [0] := by decide
      obtain rfl := List.mem_singleton.mp (hone ▸ hb)
      have hsize : large_fs.block_size.toNat = 1048576 := by decide
      have hj : j < (0 + 1) * large_fs.block_size.toNat := hj
      rw [hsize] at hj
      refine Or.inr ⟨hsecond, by omega, hval.trans ?_⟩
      rw [large_world, List.getD_replicate _ (by omega)]

end SysbakAdmin.Detection

/-
What opening the source and the target does, in the modes of the image handlers.

Neither open moves a byte of the source, and neither fails to return. A `ptf` call leaves
an emptied regular file, or a device as it was, at position zero (`opened_target`); a
`RESTORE` call never changes what is in the target.

The modes are numbers in the source, and the flags of `open` follow from them. What the
modules above need is small: where the position is, what is in the file, and whether the
schedule has been touched. `opens` collects it, and each of the two specifications is a walk
over the modes and over the kinds of file that can be there.

Before it opens the target the daemon looks into it, through a descriptor of its own;
`probes` is what this look keeps, and it may fail like any other read.
-/
import SysbakAdmin.Share

set_option autoImplicit false

namespace SysbakAdmin.Opening

open LittleEndian ByteStore CInt CMemory Transfer FileIo PackedRecord
open Bitmap Checksum Io Share

/-- The target as `open` leaves it for a `ptf` call. -/
def opened_target (w : World) : File :=
  if w.target = .block then ⟨w.dfw.data, 0, false⟩ else ⟨[], 0, true⟩

/-- What every open keeps. -/
structure opens (w w' : World) : Prop where
  dfr_data : w'.dfr.data = w.dfr.data
  dfr_pos : w'.dfr.pos = w.dfr.pos
  sched : w'.sched <:+ w.sched
  io_failed : w'.io_failed = w.io_failed
  signals : w'.signals = w.signals
  copied_count : w'.copied_count = w.copied_count

/-- What looking at the target keeps. -/
structure probes (w w' : World) : Prop extends opens w w' where
  dfw : w'.dfw = w.dfw
  target : w'.target = w.target

theorem file_kind_cases (kind : file_kind) :
    kind = .missing ∨ kind = .other ∨ kind = .regular ∨ kind = .block := by
  cases kind <;> simp

/-- **The source is opened at its start**, or not at all. The two modes open with the same flags,
for reading, and differ in the permissions of a file that neither of them creates. -/
theorem open_source_device_spec (host : Host) (w : World) (mode : ℕ)
    (hmode : mode = BACK_PTF ∨ mode = RESTORE) :
    ∃ r w', open_source_device host w mode = (r, w') ∧ w'.dfr.data = w.dfr.data ∧
      w'.dfw = w.dfw ∧ w'.target = w.target ∧ w'.sched = w.sched ∧
      w'.io_failed = w.io_failed ∧ w'.signals = w.signals ∧
      w'.copied_count = w.copied_count ∧ (0 < r → w'.dfr.pos = 0) := by
  have hmode' : mode = BACK_PTF ∨ mode = BACK_PTP
      ∨ (if mode = BACK_DD then is_block_type (host.may_stat .source) w.source else -1) = 1
      ∨ mode = RESTORE
      ∨ (if mode = BACK_DD then is_block_type (host.may_stat .source) w.source else -1) = 0 := by
    rcases hmode with h | h <;> simp [h]
  simp only [open_source_device, hmode', if_true]
  rcases file_kind_cases w.source with h | h | h | h
  · exact ⟨-1, w, by rw [h], rfl, rfl, rfl, rfl, rfl, rfl, rfl, by simp⟩
  · exact ⟨-1, w, by rw [h], rfl, rfl, rfl, rfl, rfl, rfl, rfl, by simp⟩
  · exact ⟨opened (host.may_open .source), { w with
      dfr := { w.dfr with pos := 0, growable := true } }, by simp [h],
      rfl, rfl, rfl, rfl, rfl, rfl, rfl, fun _ => rfl⟩
  · exact ⟨opened (host.may_open .source), { w with
      dfr := { w.dfr with pos := 0, growable := false } }, by simp [h],
      rfl, rfl, rfl, rfl, rfl, rfl, rfl, fun _ => rfl⟩

/-- `check_file_type` returns, and only reads. -/
theorem check_file_type_spec (host : Host) (w : World) :
    ∃ ok w', check_file_type host w = .ok (ok, w') ∧ probes w w' := by
  have hself : probes w w := ⟨⟨rfl, rfl, List.suffix_rfl, rfl, rfl, rfl⟩, rfl, rfl⟩
  -- a `stat` that fails is taken for a file that is not there
  by_cases hstat : host.may_stat .check = false
  · exact ⟨true, w, by simp only [check_file_type, hstat, if_true], hself⟩
  rcases file_kind_cases w.target with h | h | h | h
  · exact ⟨true, w, by simp only [check_file_type, hstat, Bool.true_eq_false, if_false, h], hself⟩
  · exact ⟨false, w, by simp only [check_file_type, hstat, Bool.true_eq_false, if_false, h], hself⟩
  swap
  · exact ⟨true, w, by simp only [check_file_type, hstat, Bool.true_eq_false, if_false, h], hself⟩
  by_cases hempty : w.dfw.data.length = 0
  · exact ⟨true, w, by simp only [check_file_type, hstat, Bool.true_eq_false, if_false, h, hempty,
      if_true], hself⟩
  by_cases hopen : host.may_open .check = false
  · exact ⟨false, w, by simp only [check_file_type, hstat, h, hempty, hopen, Bool.true_eq_false,
      if_true, if_false], hself⟩
  have hsuffix : (read_one w.sched { w.dfw with pos := 0 } image_desc_layout.size).2
      <:+ w.sched := by
    cases hs : w.sched with
    | nil => exact List.suffix_rfl
    | cons o s => cases o <;> exact List.suffix_cons _ _
  obtain ⟨image, sched, hread⟩ : ∃ image sched,
      read_one w.sched { w.dfw with pos := 0 } image_desc_layout.size = (image, sched) :=
    ⟨_, _, rfl⟩
  rw [hread] at hsuffix
  have hread' : probes w { w with sched := sched } :=
    ⟨⟨rfl, rfl, hsuffix, rfl, rfl, rfl⟩, rfl, rfl⟩
  cases image with
  | none =>
      refine ⟨false, { w with sched := sched }, ?_, hread'⟩
      simp only [check_file_type, hstat, h, hempty, hopen, Bool.true_eq_false, if_false, hread,
        pure_eq]
  | some image =>
      by_cases hlen : image.length = image_desc_layout.size
      swap
      · refine ⟨false, { w with sched := sched }, ?_, hread'⟩
        simp only [check_file_type, hstat, h, hempty, hopen, Bool.true_eq_false, if_false, hread,
          ne_eq, hlen, not_false_eq_true, if_true, pure_eq]
      by_cases hmagic : image.take 15 = IMAGE_MAGIC
      swap
      · refine ⟨false, { w with sched := sched }, ?_, hread'⟩
        simp only [check_file_type, hstat, h, hempty, hopen, Bool.true_eq_false, if_false, hread,
          ne_eq, hlen, hmagic, not_true_eq_false, not_false_eq_true, if_true, pure_eq]
      refine ⟨decide (crc CRC32_SEED (image.take 106) = (image_desc_layout.unpack image).crc),
        { w with sched := sched, cks := (init_crc32 w.cks).2 }, ?_,
        ⟨⟨rfl, rfl, hsuffix, rfl, rfl, rfl⟩, rfl, rfl⟩⟩
      simp only [check_file_type, hstat, h, hempty, hopen, Bool.true_eq_false, if_false, hread,
        ne_eq, hlen, hmagic, not_true_eq_false, image_crc_ok _ hlen, ok_bind, pure_eq]

/-- A valid image may be overwritten. Magic and CRC are what the check looks at, and a valid
descriptor has both. -/
theorem check_file_type_of_valid {host : Host} (hmay : host.may_open .check = true) {w : World}
    (htarget : w.target = .regular) (hsched : w.sched = [])
    (hvalid : valid_desc (w.dfw.data.take 110)) :
    ∃ w', check_file_type host w = .ok (true, w') ∧ probes w w' := by
  by_cases hstat : host.may_stat .check = false
  · exact ⟨w, by simp only [check_file_type, hstat, if_true],
      ⟨rfl, rfl, List.suffix_rfl, rfl, rfl, rfl⟩, rfl, rfl⟩
  have hlen : w.dfw.data.length ≠ 0 := by
    have h := hvalid.length_eq
    rw [List.length_take] at h
    omega
  have hread : read_one w.sched { w.dfw with pos := 0 } image_desc_layout.size
      = (some (w.dfw.data.take 110), []) := by rw [hsched]; rfl
  have hsize : (w.dfw.data.take 110).length = image_desc_layout.size := hvalid.length_eq
  refine ⟨{ w with sched := [], cks := (init_crc32 w.cks).2 }, ?_,
    ⟨⟨rfl, rfl, List.nil_suffix, rfl, rfl, rfl⟩, rfl, rfl⟩⟩
  simp only [check_file_type, hstat, htarget, hlen, hmay, hread, Bool.true_eq_false, if_false, ne_eq,
    hsize, hvalid.magic, not_true_eq_false, image_crc_ok _ hvalid.length_eq, ok_bind, pure_eq,
    (crc_field_iff hvalid.length_eq).mpr hvalid.crc_ok, decide_true]

/-- **A `ptf` call opens its target emptied**, or leaves it alone. Its flags have `O_TRUNC`, which
a device ignores; every way out with an error is in front of the `open`, or is the `open` itself.
-/
theorem open_target_ptf_spec (host : Host) (w : World) (overwrite : Bool) :
    ∃ r w', open_target_device host w BACK_PTF overwrite = .ok (r, w') ∧ opens w w' ∧
      (0 < r → w'.dfw = opened_target w) ∧
      (¬ 0 < r → w'.dfw = w.dfw ∧ w'.target = w.target) := by
  obtain ⟨ok, w₁, hcheck, hprobe⟩ := check_file_type_spec host w
  have hleft : w₁.dfw = w.dfw ∧ w₁.target = w.target := ⟨hprobe.dfw, hprobe.target⟩
  cases ok with
  | false =>
      refine ⟨0, w₁, ?_, hprobe.toopens, by simp, fun _ => hleft⟩
      simp only [open_target_device, hcheck, ok_bind, Bool.not_false, if_true, pure_eq]
  | true =>
      have hrun : open_target_device host w BACK_PTF overwrite
          = .ok (open_target host w₁ true true (!overwrite)) := by
        simp only [open_target_device, hcheck, ok_bind, Bool.not_true, Bool.false_eq_true, if_false,
          true_or, if_true, pure_eq]
      rw [hrun]
      obtain ⟨h1, h2, hs, h3, h4, h5⟩ := hprobe.toopens
      by_cases hopen : host.may_open .target = false
      · exact ⟨-1, w₁, by simp only [open_target, hopen, if_true], hprobe.toopens, by simp,
          fun _ => hleft⟩
      have hopened : opened_target w
          = if w₁.target = .block then ⟨w.dfw.data, 0, false⟩ else ⟨[], 0, true⟩ := by
        rw [opened_target, hprobe.target]
      rw [hopened]
      rcases file_kind_cases w₁.target with h | h | h | h
      · refine ⟨3, { w₁ with target := .regular, dfw := ⟨[], 0, true⟩ }, ?_,
          ⟨h1, h2, hs, h3, h4, h5⟩, fun _ => by rw [h, if_neg (by simp)], by simp⟩
        simp only [open_target, hopen, if_false, h, if_true, Bool.true_eq_false]
      · exact ⟨-1, w₁, by simp only [open_target, hopen, if_false, h, Bool.true_eq_false],
          hprobe.toopens, by simp, fun _ => hleft⟩
      · cases overwrite with
        | false =>
            exact ⟨-1, w₁, by simp only [open_target, hopen, if_false, h, Bool.not_false,
              Bool.and_self, if_true, Bool.true_eq_false], hprobe.toopens, by simp, fun _ => hleft⟩
        | true =>
            refine ⟨3, { w₁ with dfw := ⟨[], 0, true⟩ }, ?_, ⟨h1, h2, hs, h3, h4, h5⟩,
              fun _ => by rw [h, if_neg (by simp)], by simp⟩
            simp only [open_target, hopen, if_false, h, Bool.not_true, Bool.and_false,
              Bool.false_eq_true, if_true, Bool.true_eq_false]
      · cases overwrite with
        | false =>
            exact ⟨-1, w₁, by simp only [open_target, hopen, if_false, h, Bool.not_false,
              Bool.and_self, if_true, Bool.true_eq_false], hprobe.toopens, by simp, fun _ => hleft⟩
        | true =>
            refine ⟨3, { w₁ with dfw := ⟨w₁.dfw.data, 0, false⟩ }, ?_, ⟨h1, h2, hs, h3, h4, h5⟩,
              fun _ => by rw [h, if_pos rfl, hprobe.dfw], by simp⟩
            simp only [open_target, hopen, if_false, h, Bool.not_true, Bool.and_false,
              Bool.false_eq_true, Bool.true_eq_false]

/-- An open that neither creates over something nor truncates keeps what is there. -/
theorem open_target_keeps (host : Host) {w : World} (creat excl : Bool)
    (hmissing : w.target = .missing → w.dfw.data = []) :
    ∃ r w', open_target host w creat false excl = (r, w') ∧ opens w w' ∧
      w'.dfw.data = w.dfw.data := by
  have hself : opens w w := ⟨rfl, rfl, List.suffix_rfl, rfl, rfl, rfl⟩
  by_cases hmay : host.may_open .target = false
  · exact ⟨-1, w, by simp only [open_target, hmay, if_true], hself, rfl⟩
  rcases file_kind_cases w.target with h | h | h | h
  · cases creat with
    | false =>
        exact ⟨-1, w, by simp only [open_target, hmay, if_false, h, Bool.false_eq_true,
          Bool.true_eq_false], hself, rfl⟩
    | true =>
        exact ⟨3, { w with target := .regular, dfw := ⟨[], 0, true⟩ },
          by simp only [open_target, hmay, if_false, h, if_true, Bool.true_eq_false],
          ⟨rfl, rfl, List.suffix_rfl, rfl, rfl, rfl⟩, (hmissing h).symm⟩
  · exact ⟨-1, w, by simp only [open_target, hmay, if_false, h, Bool.true_eq_false], hself, rfl⟩
  · by_cases hexcl : (creat && excl) = true
    · exact ⟨-1, w, by simp only [open_target, hmay, if_false, h, hexcl, if_true,
        Bool.true_eq_false], hself, rfl⟩
    · exact ⟨3, { w with dfw := ⟨w.dfw.data, 0, true⟩ },
        by simp only [open_target, hmay, if_false, h, hexcl, Bool.false_eq_true,
          Bool.true_eq_false], ⟨rfl, rfl, List.suffix_rfl, rfl, rfl, rfl⟩, rfl⟩
  · by_cases hexcl : (creat && excl) = true
    · exact ⟨-1, w, by simp only [open_target, hmay, if_false, h, hexcl, if_true,
        Bool.true_eq_false], hself, rfl⟩
    · exact ⟨3, { w with dfw := ⟨w.dfw.data, 0, false⟩ },
        by simp only [open_target, hmay, if_false, h, hexcl, Bool.true_eq_false,
          Bool.false_eq_true], ⟨rfl, rfl, List.suffix_rfl, rfl, rfl, rfl⟩, rfl⟩

theorem opens.trans {w₁ w₂ w₃ : World} (h : opens w₁ w₂) (h' : opens w₂ w₃) : opens w₁ w₃ :=
  ⟨h'.dfr_data.trans h.dfr_data, h'.dfr_pos.trans h.dfr_pos, h'.sched.trans h.sched,
    h'.io_failed.trans h.io_failed, h'.signals.trans h.signals,
    h'.copied_count.trans h.copied_count⟩

/-- **A `RESTORE` call keeps what is in the target.** Its flags have no `O_TRUNC`, and a file that
it creates was not there before. -/
theorem open_target_restore_spec (host : Host) (w : World) (overwrite : Bool)
    (hmissing : w.target = .missing → w.dfw.data = []) :
    ∃ r w', open_target_device host w RESTORE overwrite = .ok (r, w') ∧ opens w w' ∧
      w'.dfw.data = w.dfw.data := by
  obtain ⟨ok, w₁, hcheck, hprobe⟩ := check_file_type_spec host w
  have hmissing' : w₁.target = .missing → w₁.dfw.data = [] := by
    rw [hprobe.target, hprobe.dfw]; exact hmissing
  cases ok with
  | false =>
      refine ⟨0, w₁, ?_, hprobe.toopens, by rw [hprobe.dfw]⟩
      simp only [open_target_device, hcheck, ok_bind, Bool.not_false, if_true, pure_eq]
  | true =>
      have hrun : ∃ creat excl, open_target_device host w RESTORE overwrite
          = .ok (open_target host w₁ creat false excl) := by
        by_cases hblk : (if w₁.target = .missing ∨ host.may_stat .target = false then
            host.junk_is_blk else decide (w₁.target = .block)) = true
        · refine ⟨false, false, ?_⟩
          simp only [open_target_device, hcheck, ok_bind, Bool.not_true, Bool.false_eq_true,
            if_false, RESTORE, BACK_PTF, BACK_DD, Nat.reduceEqDiff, false_or, true_or, if_true, hblk,
            pure_eq, Int.reduceNeg, Int.reduceEq]
        · refine ⟨true, !overwrite, ?_⟩
          simp only [open_target_device, hcheck, ok_bind, Bool.not_true, Bool.false_eq_true,
            if_false, RESTORE, BACK_PTF, BACK_DD, Nat.reduceEqDiff, false_or, true_or, if_true, hblk,
            pure_eq, Int.reduceNeg, Int.reduceEq]
      obtain ⟨creat, excl, hrun⟩ := hrun
      obtain ⟨r, w', hopen, hkept, hdata⟩ := open_target_keeps host creat excl hmissing'
      exact ⟨r, w', by rw [hrun, hopen], hprobe.toopens.trans hkept, by rw [hdata, hprobe.dfw]⟩

end SysbakAdmin.Opening

/-
`gdbus_sysbak_restore` as a whole, on an image with the options of a `ptf` call.

Nothing reaches the target before the descriptor and the bitmap have been accepted, and
after that only blocks of an accepted front part of the data section
(`gdbus_sysbak_restore_ok`). The call returns under every schedule.

The handler is followed once, check by check, and what a call leaves behind is one of two
things: the target as it was, or a record of what has been laid down, from which bytes of the
image, and whether all of it (`laid_down_from`). The detection of alterations and the round
trip both start from that record, the one with an image that has been changed and the other
with one that a `ptf` call has made.

The target may be a device, a file that is there or one that is made. A file that is not there
holds no bytes, and that is the one thing asked of the state before the call.
-/
import SysbakAdmin.Opening
import SysbakAdmin.RoundTrip

set_option autoImplicit false

namespace SysbakAdmin.RestoreRun

open LittleEndian ByteStore CInt CMemory DoWhile Transfer FileIo GroupStream PackedRecord
open Bitmap Checksum Io Share Backup ImageWriter Restore Handlers Opening RoundTrip
open ReaderLoops ImageReader

/-! ## The opens -/

/-- The two opens of a restore: either fails and the target keeps its content, or the image
is at its start and the target keeps its content. -/
theorem restore_opens (host : Host) (w : World) (overwrite : Bool)
    (hmissing : w.target = .missing → w.dfw.data = []) :
    ∃ w₁ dfr, open_source_device host w RESTORE = (dfr, w₁) ∧ w₁.dfw.data = w.dfw.data ∧
      (0 < dfr → ∃ dfw w₂, open_target_device host w₁ RESTORE overwrite = .ok (dfw, w₂) ∧
        w₂.dfr.data = w.dfr.data ∧ w₂.dfr.pos = 0 ∧ w₂.dfw.data = w.dfw.data) := by
  obtain ⟨dfr, w₁, hopen, hdata₁, hdfw₁, htarget₁, -, -, -, -, hpos⟩ :=
    open_source_device_spec host w RESTORE (Or.inr rfl)
  refine ⟨w₁, dfr, hopen, by rw [hdfw₁], fun hdfr => ?_⟩
  obtain ⟨dfw, w₂, hopen₂, hopens, hkept⟩ := open_target_restore_spec host w₁ overwrite
    (by rw [htarget₁, hdfw₁]; exact hmissing)
  exact ⟨dfw, w₂, hopen₂, hopens.dfr_data.trans hdata₁, hopens.dfr_pos.trans (hpos hdfr),
    by rw [hkept, hdfw₁]⟩

/-- The memory check returns: nothing is divided by zero. -/
theorem check_memory_size_returns (host : Host) (fs_info : file_system_info)
    {img_opt : image_options} (hbs : 0 < fs_info.block_size.toNat)
    (hg : 0 < img_opt.blocks_per_checksum.toNat) :
    ∃ ok, check_memory_size host fs_info img_opt = .ok ok := by
  simp only [check_memory_size, buffer_capacity_of_pos hbs, ok_bind, udiv_of_pos hg, pure_eq,
    Except.ok.injEq, exists_eq']

/-! ## What is accepted before anything is written -/

/-- What has been accepted of an image by the time its first block is laid down, and which
blocks have been. -/
structure laid_down_from (fs_info : file_system_info) (host : Host) (image before after : List Byte)
    (ok : Bool) : Prop where
  descriptor : valid_desc (slice image 0 110)
  section_length : (slice image 110 (BITS_TO_BYTES fs_info.totalblock.toNat + 4)).length
    = BITS_TO_BYTES fs_info.totalblock.toNat + 4
  section_sealed : sealed (slice image 110 (BITS_TO_BYTES fs_info.totalblock.toNat + 4))
  blocks : ∃ (bm : bitmap) (dfr : File) (blocks : List (List Byte)),
    bm = bitmap_load (fresh_bitmap fs_info.totalblock.toNat)
      (slice image 110 (BITS_TO_BYTES fs_info.totalblock.toNat)) ∧
    dfr.data = image ∧ dfr.pos = 110 + (BITS_TO_BYTES fs_info.totalblock.toNat + 4) ∧
    verified fs_info (ptf_image_options fs_info.block_size.toNat) bm dfr
      (start_cursor _ (stale_checksum host _)) blocks ∧
    blocks.length ≤ used_count fs_info bm ∧
    (blocks.length % capacity fs_info.block_size.toNat = 0
      ∨ blocks.length = used_count fs_info bm) ∧
    (ok = true → blocks.length = used_count fs_info bm) ∧
    laid 0 fs_info.block_size.toNat ((marked fs_info bm 0).take blocks.length) blocks before after

section Run

variable {fs_info : file_system_info} (hbs : 0 < fs_info.block_size.toNat)
  (hbs' : fs_info.block_size.toNat ≤ 2 ^ 30) (htot : fs_info.totalblock.toNat < 2 ^ 32)
include hbs hbs' htot

/-- The data section of an image whose front has been accepted. -/
theorem restore_data (host : Host) (bm : bitmap) (w : World) (hcopied : w.copied_count = 0) :
    ∃ ok w', read_write_data_restore fs_info (ptf_image_options fs_info.block_size.toNat) host bm w
        = .ok (ok, w') ∧
      ∃ blocks, verified fs_info (ptf_image_options fs_info.block_size.toNat) bm w.dfr
          (start_cursor _ (stale_checksum host _)) blocks ∧
        blocks.length ≤ used_count fs_info bm ∧
        (blocks.length % capacity fs_info.block_size.toNat = 0
          ∨ blocks.length = used_count fs_info bm) ∧
        (ok = true → blocks.length = used_count fs_info bm) ∧
        laid 0 fs_info.block_size.toNat ((marked fs_info bm 0).take blocks.length) blocks
          w.dfw.data w'.dfw.data := by
  obtain ⟨ok, w', hrun, -, htrue, hfalse, -⟩ := read_write_data_restore_ok bm hbs
    (ptf_group_pos _) (ptf_checksum_fits _) (used_count_lt htot) (chunks_fit_ptf bm hbs') host w
    hcopied
  refine ⟨ok, w', hrun, ?_⟩
  cases ok with
  | true =>
      obtain ⟨blocks, hlen, hver, -, hdata⟩ := htrue rfl
      refine ⟨blocks, hver, hlen.le, Or.inr hlen, fun _ => hlen, ?_⟩
      rw [hdata (marked_reachable hbs' htot), hlen, List.take_length]
      exact laid_scatter 0 _ _ fun x hx => (hver.lengths x hx).le
  | false =>
      obtain ⟨blocks, hver, hle, halign, hlaid⟩ := hfalse rfl
      exact ⟨blocks, hver, hle, halign, by simp, hlaid (marked_reachable hbs' htot)⟩

/-- **A restore call returns**, and what it has changed in the target are blocks that it had
accepted. The options are asked of the descriptor only if it is valid, since otherwise the call
ends there; with them every chunk fits its buffer, so that no access leaves one. -/
theorem gdbus_sysbak_restore_ok (host : Host) (w : World) (overwrite : Bool)
    (hmissing : w.target = .missing → w.dfw.data = [])
    (hdesc : valid_desc (slice w.dfr.data 0 110) →
      (image_desc_layout.unpack (slice w.dfr.data 0 110)).fs_info = fs_info ∧
        (image_desc_layout.unpack (slice w.dfr.data 0 110)).options
          = ptf_image_options fs_info.block_size.toNat) :
    ∃ ok w', gdbus_sysbak_restore host w overwrite = .ok (ok, w') ∧
      ((ok = false ∧ w'.dfw.data = w.dfw.data) ∨
        laid_down_from fs_info host w.dfr.data w.dfw.data w'.dfw.data ok) := by
  obtain ⟨w₁, dfr, hopen, hkept₁, hopened⟩ := restore_opens host w overwrite hmissing
  by_cases hdfr : dfr ≤ 0
  · refine ⟨false, (handler_error w₁ 1).2, ?_, Or.inl ⟨rfl, hkept₁⟩⟩
    simp only [gdbus_sysbak_restore, hopen, hdfr, if_true, pure_eq, handler_error]
  obtain ⟨dfw, w₂, hopen₂, hdata₂, hpos₂, hkept₂⟩ := hopened (by omega)
  by_cases hdfw : dfw ≤ 0
  · refine ⟨false, (handler_error w₂ 2).2, ?_, Or.inl ⟨rfl, hkept₂⟩⟩
    simp only [gdbus_sysbak_restore, hopen, hdfr, if_false, hopen₂, ok_bind, hdfw, if_true, pure_eq,
      handler_error]
  -- the descriptor
  obtain ⟨e, he, s₃, k₃, c₃, d, hread, -, -, hd⟩ := read_image_desc_spec host w₂
  rw [hpos₂, hdata₂] at hd
  set w₃ : World := { w₂ with
    dfr := { w₂.dfr with pos := w₂.dfr.pos + e }, sched := s₃, io_failed := k₃, cks := c₃ } with hw₃
  cases d with
  | none =>
      refine ⟨false, (handler_error w₃ 9).2, ?_, Or.inl ⟨rfl, hkept₂⟩⟩
      simp only [gdbus_sysbak_restore, hopen, hdfr, if_false, hopen₂, ok_bind, hdfw, hread, pure_eq,
        handler_error]
  | some desc =>
      obtain ⟨rfl, hvalid, rfl⟩ := (hd desc).mp rfl
      obtain ⟨hfs, hopt⟩ := hdesc hvalid
      obtain ⟨okm, hmem⟩ := check_memory_size_returns host fs_info hbs
        (ptf_group_pos fs_info.block_size.toNat)
      cases okm with
      | false =>
          refine ⟨false, (handler_error w₃ 4).2, ?_, Or.inl ⟨rfl, hkept₂⟩⟩
          simp only [gdbus_sysbak_restore, hopen, hdfr, if_false, hopen₂, ok_bind, hdfw, hread, hfs,
            hopt, hmem, Bool.not_false, if_true, pure_eq, handler_error]
      | true =>
          cases halloc : pc_alloc_bitmap host.malloc fs_info.totalblock.toNat with
          | none =>
              refine ⟨false, (handler_error w₃ 4).2, ?_, Or.inl ⟨rfl, hkept₂⟩⟩
              simp only [gdbus_sysbak_restore, hopen, hdfr, if_false, hopen₂, ok_bind, hdfw, hread,
                hfs, hopt, hmem, Bool.not_true, Bool.false_eq_true, halloc, pure_eq, handler_error]
          | some bm =>
              have hfresh : bm = fresh_bitmap fs_info.totalblock.toNat := by
                unfold pc_alloc_bitmap at halloc
                split_ifs at halloc
                exact (Option.some.inj halloc).symm
              subst hfresh
              -- the bitmap
              have hbytes := BITS_TO_BYTES_le (show fs_info.totalblock.toNat + 63 < 2 ^ 64 by omega)
              obtain ⟨e, he, okb, bm', s₄, k₄, c₄, hload, -, -, -, hokb, hbm'⟩ := load_bitmap_spec
                host w₃ fs_info (fresh_bitmap fs_info.totalblock.toNat)
                (by rw [BITS_TO_BYTES, u64_of_lt (by omega)]; omega)
                (by rw [fresh_bitmap, List.length_replicate]; exact hbytes)
              set w₄ : World := { w₃ with
                dfr := { w₃.dfr with pos := w₃.dfr.pos + e }, sched := s₄, io_failed := k₄,
                cks := c₄ } with hw₄
              cases okb with
              | false =>
                  refine ⟨false, (handler_error w₄ 5).2, ?_, Or.inl ⟨rfl, hkept₂⟩⟩
                  simp only [gdbus_sysbak_restore, hopen, hdfr, if_false, hopen₂, ok_bind, hdfw,
                    hread, hfs, hopt, hmem, Bool.not_true, Bool.false_eq_true, halloc, hload,
                    Bool.not_false, if_true, pure_eq, handler_error]
              | true =>
                  by_cases hspace : get_partition_free_space w₄ < fs_info.device_size.toNat
                  · refine ⟨false, (handler_error w₄ 6).2, ?_, Or.inl ⟨rfl, hkept₂⟩⟩
                    simp only [gdbus_sysbak_restore, hopen, hdfr, if_false, hopen₂, ok_bind, hdfw,
                      hread, hfs, hopt, hmem, Bool.not_true, Bool.false_eq_true, halloc, hload,
                      hspace, if_true, pure_eq, handler_error]
                  have hpos₃ : w₃.dfr.pos = 110 := by rw [hw₃]; dsimp only; omega
                  have hdata₃ : w₃.dfr.data = w.dfr.data := hdata₂
                  obtain ⟨rfl, hlen, hsealed⟩ := hokb.mp rfl
                  rw [hpos₃, hdata₃] at hlen hsealed
                  have hbm := hbm' rfl
                  rw [hpos₃, hdata₃] at hbm
                  obtain ⟨ok, w', hrun, blocks, hver, hle, halign, hall, hlaid⟩ := restore_data hbs
                    hbs' htot host bm' (emit_signal { w₄ with copied_count := 0 } .reply) rfl
                  have hlaid' : laid 0 fs_info.block_size.toNat
                      ((marked fs_info bm' 0).take blocks.length) blocks w.dfw.data w'.dfw.data := by
                    rw [← hkept₂]; exact hlaid
                  have hblocks : laid_down_from fs_info host w.dfr.data w.dfw.data w'.dfw.data ok :=
                    ⟨hvalid, hlen, hsealed, bm', w₄.dfr, blocks, hbm, hdata₃,
                      by change w₃.dfr.pos + _ = _; rw [hpos₃], hver, hle, halign, hall, hlaid'⟩
                  cases ok with
                  | true =>
                      refine ⟨true, emit_signal w' (.finished fs_info.totalblock.toNat
                        fs_info.usedblocks.toNat fs_info.block_size.toNat), ?_, Or.inr hblocks⟩
                      simp only [gdbus_sysbak_restore, hopen, hdfr, if_false, hopen₂, ok_bind, hdfw,
                        hread, hfs, hopt, hmem, Bool.not_true, Bool.false_eq_true, halloc, hload,
                        hspace, hrun, pure_eq]
                  | false =>
                      refine ⟨false, (handler_error w' 8).2, ?_, Or.inr hblocks⟩
                      simp only [gdbus_sysbak_restore, hopen, hdfr, if_false, hopen₂, ok_bind, hdfw,
                        hread, hfs, hopt, hmem, Bool.not_true, Bool.false_eq_true, halloc, hload,
                        hspace, hrun, Bool.not_false, if_true, pure_eq, handler_error]

end Run

end SysbakAdmin.RestoreRun

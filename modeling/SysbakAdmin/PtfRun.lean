/-
A `ptf` handler up to the descriptor: where each of its errors leaves the target, and
what is known of the file system and the options once nothing has failed.

The order of the steps is what matters. The target is opened, and emptied, before the
superblock is read, so `e_code` 3 to 6 all find it empty.

`ptf_prepare_ok` lists the ways in which the checks can end, with the state of the target in
each; it is the inversion lemma of the handler, and every theorem about a `ptf` call starts
with a case analysis over it. `set_up` is its last case: what is known once nothing has
failed, of the file system, of the options and of the bitmap.

The bitmap that is written is the one the driver has read, and the count of its bits is stored in
the header beside what the superblock said. So the header and the bitmap agree in every image
that is begun; the space check, which comes before, has gone by the other number.
-/
import SysbakAdmin.Opening
import SysbakAdmin.RoundTrip

set_option autoImplicit false

namespace SysbakAdmin.PtfRun

open LittleEndian ByteStore CInt CMemory DoWhile Transfer FileIo GroupStream PackedRecord
open Bitmap Checksum Io Share Backup ImageWriter Handlers Opening RoundTrip ReaderLoops
open ImageReader

/-! ## The parts -/

theorem buffer_capacity_of_eq_ok {block_size c : ℕ} (h : buffer_capacity_of block_size = .ok c) :
    0 < block_size ∧ c = capacity block_size := by
  rcases Nat.eq_zero_or_pos block_size with rfl | hpos
  · cases h
  · rw [buffer_capacity_of_pos hpos] at h
    exact ⟨hpos, (Except.ok.inj h).symm⟩

/-- The 32-bit loop ends only below `2 ^ 32` blocks. -/
theorem update_used_blocks_loop_ok {total : ℕ} {bm : bitmap} :
    ∀ fuel i used r, i < 2 ^ 32 → update_used_blocks_loop total bm fuel i used = .ok r →
      total < 2 ^ 32 := by
  intro fuel
  induction fuel with
  | zero => intro i used r _ h; cases h
  | succ fuel ih =>
      intro i used r hi h
      rw [update_used_blocks_loop] at h
      split_ifs at h with hlt hbit
      · exact ih _ _ r (u32_lt _) h
      · exact ih _ _ r (u32_lt _) h
      · omega

/-- The marked blocks from block `i` on are counted. The counter is below `2 ^ 32` throughout,
since its bound is. -/
theorem update_used_blocks_loop_eq {total : ℕ} (htot : total < 2 ^ 32) (bm : bitmap) :
    ∀ left fuel i used, i + left = total → left < fuel →
      update_used_blocks_loop total bm fuel i used
        = .ok (used + (used_from bm total i).length) := by
  intro left
  induction left with
  | zero =>
      intro fuel i used hi hf
      obtain ⟨fuel, rfl⟩ : ∃ k, fuel = k + 1 := ⟨fuel - 1, by omega⟩
      rw [update_used_blocks_loop, if_neg (by omega), used_from_of_ge (by omega)]
      rfl
  | succ left ih =>
      intro fuel i used hi hf
      obtain ⟨fuel, rfl⟩ : ∃ k, fuel = k + 1 := ⟨fuel - 1, by omega⟩
      have hlt : i < total := by omega
      rw [update_used_blocks_loop, if_pos hlt, u32_of_lt (by omega), ih fuel (i + 1) _ (by omega)
        (by omega)]
      by_cases hbit : bit bm i = true
      · rw [if_pos ((pc_test_bit_ne_zero bm hlt).mpr hbit), used_from_of_bit hlt hbit,
          List.length_cons]
        congr 1
        omega
      · rw [if_neg fun h => hbit ((pc_test_bit_ne_zero bm hlt).mp h),
          used_from_of_not_bit hlt (by simpa using hbit)]

/-- **`update_used_blocks_count` returns exactly below `2 ^ 32` blocks**, with the count. The
counter of the loop is a `uint`, so its bound has to be one. -/
theorem update_used_blocks_count_eq {fs_info : file_system_info}
    (htot : fs_info.totalblock.toNat < 2 ^ 32) (bm : bitmap) :
    update_used_blocks_count fs_info bm = .ok { fs_info with
      used_bitmap := BitVec.ofNat 64 (used_count fs_info bm) } := by
  have h := update_used_blocks_loop_eq htot bm fs_info.totalblock.toNat (2 ^ 32) 0 0
    (Nat.zero_add _) htot
  rw [Nat.zero_add] at h
  simp only [update_used_blocks_count, h, ok_bind, pure_eq]

theorem update_used_blocks_count_ok {fs_info fs_info' : file_system_info} {bm : bitmap}
    (h : update_used_blocks_count fs_info bm = .ok fs_info') :
    fs_info.totalblock.toNat < 2 ^ 32 ∧
      fs_info' = { fs_info with used_bitmap := BitVec.ofNat 64 (used_count fs_info bm) } := by
  have h' := h
  rw [update_used_blocks_count] at h
  obtain ⟨used, hloop, -⟩ := bind_eq_ok.mp h
  have htot := update_used_blocks_loop_ok _ 0 0 used (by omega) hloop
  rw [update_used_blocks_count_eq htot] at h'
  exact ⟨htot, (Except.ok.inj h').symm⟩

/-- What `read_file_system` establishes. -/
theorem read_file_system_ok {host : Host} {drv : driver} {r : Except ℕ prepared}
    (h : read_file_system host drv = .ok r) :
    (∃ e, r = .error e ∧ 3 ≤ e ∧ e ≤ 5) ∨
      ∃ p, r = .ok p ∧ drv.read_super_blocks init_file_system_info = .ok (true, p.fs_info) ∧
        0 < p.fs_info.block_size.toNat ∧
        p.img_opt = ptf_image_options p.fs_info.block_size.toNat ∧
        sized p.fs_info.totalblock.toNat p.bitmap := by
  rw [read_file_system] at h
  obtain ⟨⟨ok, fs_info⟩, hsuper, h⟩ := bind_eq_ok.mp h
  dsimp only at h
  cases ok with
  | false => exact Or.inl ⟨3, (Except.ok.inj h).symm, le_rfl, by omega⟩
  | true =>
      simp only [Bool.not_true, Bool.false_eq_true, if_false] at h
      obtain ⟨c, hcap, h⟩ := bind_eq_ok.mp h
      obtain ⟨hpos, rfl⟩ := buffer_capacity_of_eq_ok hcap
      obtain ⟨mem, hmem, h⟩ := bind_eq_ok.mp h
      cases mem with
      | false => exact Or.inl ⟨4, (Except.ok.inj h).symm, by omega, by omega⟩
      | true =>
          simp only [Bool.not_true, Bool.false_eq_true, if_false] at h
          cases halloc : pc_alloc_bitmap host.malloc fs_info.totalblock.toNat with
          | none =>
              rw [halloc] at h
              exact Or.inl ⟨4, (Except.ok.inj h).symm, by omega, by omega⟩
          | some bm =>
              rw [halloc] at h
              obtain ⟨⟨ok, bm'⟩, hbitmap, h⟩ := bind_eq_ok.mp h
              cases ok with
              | false => exact Or.inl ⟨5, (Except.ok.inj h).symm, by omega, by omega⟩
              | true =>
                  refine Or.inr ⟨⟨fs_info, ptf_image_options fs_info.block_size.toNat, bm'⟩,
                    (Except.ok.inj h).symm, hsuper, hpos, rfl, ?_⟩
                  -- the driver marks the allocation it is given and keeps its length
                  have hlen := drv.bitmap_length _ _ _ _ hbitmap
                  unfold pc_alloc_bitmap at halloc
                  split_ifs at halloc
                  obtain rfl := Option.some.inj halloc
                  rw [sized, hlen, List.length_replicate]

/-! ## The handler's first part

From the opens to the descriptor. Each check that fails is a case with its number and the state
it leaves the target in. -/

/-- What is set up once the descriptor is out. It is what every theorem about the rest of the call
starts from. -/
structure set_up (drv : driver) (w : World) (p : prepared) (w' : World) : Prop where
  superblock : ∃ fs_info, drv.read_super_blocks init_file_system_info = .ok (true, fs_info) ∧
    p.fs_info.block_size = fs_info.block_size
  block_size : 0 < p.fs_info.block_size.toNat
  totalblock : p.fs_info.totalblock.toNat < 2 ^ 32
  img_opt : p.img_opt = ptf_image_options p.fs_info.block_size.toNat
  bitmap : sized p.fs_info.totalblock.toNat p.bitmap
  target : w'.dfw = (opened_target w).written (desc_section p.fs_info p.img_opt)
  source : w'.dfr.data = w.dfr.data
  io_failed : w'.io_failed = w.io_failed
  sched : w'.sched <:+ w.sched
  signals : w'.signals = w.signals

/-- The block size is the superblock's. -/
theorem set_up.block_size_eq {drv : driver} {w w' : World} {p : prepared} (h : set_up drv w p w')
    {block_size : ℕ}
    (hsuper : ∀ fs_info, drv.read_super_blocks init_file_system_info = .ok (true, fs_info) →
      fs_info.block_size.toNat = block_size) :
    p.fs_info.block_size.toNat = block_size := by
  obtain ⟨fs_info, hread, heq⟩ := h.superblock
  rw [heq, hsuper fs_info hread]

/-- **Where `ptf_prepare` leaves the target**: as it was when an open failed, emptied when a check
failed, with some front part of a descriptor when that could not be written. The cases are in the
order of the checks: before the target is opened, behind it, at the descriptor, and past all of
them. -/
theorem ptf_prepare_ok {host : Host} {drv : driver} {w w' : World} {overwrite : Bool}
    {r : Except ℕ prepared} (h : ptf_prepare host drv w overwrite = .ok (r, w')) :
    (∃ e, r = .error e ∧ e ≤ 2 ∧ w'.dfw = w.dfw ∧ w'.signals = w.signals) ∨
    (∃ e, r = .error e ∧ 3 ≤ e ∧ e ≤ 6 ∧ w'.dfw = opened_target w ∧ w'.signals = w.signals) ∨
    (r = .error 7 ∧ w'.signals = w.signals) ∨ ∃ p, r = .ok p ∧ set_up drv w p w' := by
  obtain ⟨dfr, w₁, hopen, hdata₁, hdfw₁, htarget₁, hsched₁, hfailed₁, hsignals₁, -, -⟩ :=
    open_source_device_spec host w BACK_PTF (Or.inl rfl)
  simp only [ptf_prepare, hopen] at h
  -- up to code 2 the target is as it was
  by_cases hdfr : dfr ≤ 0
  · rw [if_pos hdfr] at h
    obtain ⟨rfl, rfl⟩ := Prod.mk.inj (Except.ok.inj h)
    exact Or.inl ⟨_, rfl, by split <;> omega, hdfw₁, hsignals₁⟩
  rw [if_neg hdfr] at h
  obtain ⟨dfw, w₂, hopen₂, hopens, hpos, hneg⟩ := open_target_ptf_spec host w₁ overwrite
  rw [hopen₂, ok_bind] at h
  dsimp only at h
  by_cases hdfw : dfw ≤ 0
  · rw [if_pos hdfw] at h
    obtain ⟨rfl, rfl⟩ := Prod.mk.inj (Except.ok.inj h)
    exact Or.inl ⟨2, rfl, le_rfl, (hneg (by omega)).1.trans hdfw₁, hopens.signals.trans hsignals₁⟩
  rw [if_neg hdfw] at h
  have hopened : w₂.dfw = opened_target w := by
    rw [hpos (by omega), opened_target, opened_target, htarget₁, hdfw₁]
  have hsignals₂ : w₂.signals = w.signals := hopens.signals.trans hsignals₁
  -- from here on the target is open, and empty unless it is a device
  obtain ⟨q, hread, h⟩ := bind_eq_ok.mp h
  rcases read_file_system_ok hread with ⟨e, rfl, h3, h5⟩ | ⟨p, rfl, hsuper, hbs, hopt, hsized⟩
  · obtain ⟨rfl, rfl⟩ := Prod.mk.inj (Except.ok.inj h)
    exact Or.inr (Or.inl ⟨e, rfl, h3, by omega, hopened, hsignals₂⟩)
  obtain ⟨fs_info, hcount, h⟩ := bind_eq_ok.mp h
  obtain ⟨htot, rfl⟩ := update_used_blocks_count_ok hcount
  by_cases hspace : check_system_space host w₂ { p.fs_info with
      used_bitmap := BitVec.ofNat 64 (used_count p.fs_info p.bitmap) } p.img_opt = true
  swap
  · rw [if_pos (by simpa using hspace)] at h
    obtain ⟨rfl, rfl⟩ := Prod.mk.inj (Except.ok.inj h)
    exact Or.inr (Or.inl ⟨6, rfl, by omega, le_rfl, hopened, hsignals₂⟩)
  rw [if_neg (by simp [hspace])] at h
  obtain ⟨e, -, s', k, c', hwrite, hs, -, hk, -⟩ := write_image_desc_spec w₂ { p.fs_info with
    used_bitmap := BitVec.ofNat 64 (used_count p.fs_info p.bitmap) } p.img_opt
  rw [hwrite, ok_bind] at h
  dsimp only at h
  -- a descriptor that is cut short is code 7, with the target half written
  by_cases he : e = 110
  swap
  · rw [if_pos (by simp [he])] at h
    obtain ⟨rfl, rfl⟩ := Prod.mk.inj (Except.ok.inj h)
    exact Or.inr (Or.inr (Or.inl ⟨rfl, hsignals₂⟩))
  subst he
  rw [if_neg (by simp)] at h
  obtain ⟨rfl, rfl⟩ := Prod.mk.inj (Except.ok.inj h)
  refine Or.inr (Or.inr (Or.inr ⟨_, rfl, ⟨_, hsuper, rfl⟩, hbs, htot, hopt,
    hsized, ?_, ?_, ?_, ?_, ?_⟩))
  · dsimp only
    rw [hopened, List.take_of_length_le (by rw [desc_section_length])]
  · exact hopens.dfr_data.trans hdata₁
  · exact (hk.mpr rfl).trans (hopens.io_failed.trans hfailed₁)
  · exact hs.trans (hsched₁ ▸ hopens.sched)
  · exact hsignals₂

/-! ## The bitmap section

`write_image_bitmap` is the one step whose result no handler looks at. -/

/-- Whether the schedule carries both transfers of the bitmap section to their end. It is said of
the schedule and the room of the target, so that nothing the call computes enters. -/
def bitmap_carried (w : World) (fs_info : file_system_info) (bm : bitmap) : Prop :=
  (write_all w.sched w.dfw (bitmap_data fs_info.totalblock.toNat bm)).1 = .complete ∧
    (write_all (write_all w.sched w.dfw (bitmap_data fs_info.totalblock.toNat bm)).2.2
      (write_all w.sched w.dfw (bitmap_data fs_info.totalblock.toNat bm)).2.1
      (crc_bytes (bitmap_data fs_info.totalblock.toNat bm))).1 = .complete

theorem count_failed_twice {n : ℕ} {st st' : Status} :
    count_failed (count_failed n st) st' = n ↔ st = .complete ∧ st' = .complete := by
  cases st <;> cases st' <;> simp [count_failed] <;> omega

/-- A clean bitmap section is one that the schedule carried. It is the one step whose failure can
only be seen in the count of failed transfers. -/
theorem write_image_bitmap_clean {w w' : World} {fs_info : file_system_info} {bm : bitmap}
    {ok : Bool} (hn : BITS_TO_BYTES fs_info.totalblock.toNat < 2 ^ 31)
    (hlen : BITS_TO_BYTES fs_info.totalblock.toNat ≤ 8 * bm.length)
    (h : write_image_bitmap w fs_info bm = .ok (ok, w')) :
    w'.io_failed = w.io_failed ↔ bitmap_carried w fs_info bm := by
  generalize htot : fs_info.totalblock.toNat = total at hn hlen
  have hload : load (bitmap_bytes bm) 0 (BITS_TO_BYTES total) = .ok (bitmap_data total bm) := by
    rw [load_of_le (by rw [bitmap_bytes_length]; omega), slice, List.drop_zero]
    rfl
  have hfirst : write_io_all w (bitmap_bytes bm) (BITS_TO_BYTES total)
      = .ok (io_result (BITS_TO_BYTES total) (write_all w.sched w.dfw (bitmap_data total bm)).1,
        { w with
          dfw := (write_all w.sched w.dfw (bitmap_data total bm)).2.1,
          sched := (write_all w.sched w.dfw (bitmap_data total bm)).2.2,
          io_failed := count_failed w.io_failed
            (write_all w.sched w.dfw (bitmap_data total bm)).1 }) := by
    simp only [write_io_all, show BITS_TO_BYTES total < 2 ^ 63 by omega, if_true, hload, ok_bind,
      pure_eq]
  have hcrc := crc32_seeded w.cks (bitmap_bytes bm) (n := BITS_TO_BYTES total)
    (by rw [bitmap_bytes_length]; exact hlen)
  have hstored : enc (crc CRC32_SEED ((bitmap_bytes bm).take (BITS_TO_BYTES total)))
      = crc_bytes (bitmap_data total bm) := rfl
  have hload' : load (crc_bytes (bitmap_data total bm)) 0 4
      = .ok (crc_bytes (bitmap_data total bm)) := by
    rw [load_of_le (by rw [crc_bytes_length]), slice, List.drop_zero,
      List.take_of_length_le (by rw [crc_bytes_length])]
  simp only [write_image_bitmap, htot, hfirst, ok_bind] at h
  -- the crc is sent unless the first transfer answered `-1`: a transfer that stops early does
  -- not keep it back
  by_cases hr : io_result (BITS_TO_BYTES total)
      (write_all w.sched w.dfw (bitmap_data total bm)).1 = -1
  · rw [if_pos hr] at h
    obtain ⟨-, rfl⟩ := Prod.mk.inj (Except.ok.inj h)
    rw [count_failed_eq, bitmap_carried, htot]
    have hne : (write_all w.sched w.dfw (bitmap_data total bm)).1 ≠ .complete := by
      intro hc
      rw [hc, io_result_complete hn] at hr
      omega
    simp [hne]
  · rw [if_neg hr, i32_of_lt hn, hcrc, ok_bind, hstored] at h
    simp only [write_io_all, CRC32_SIZE, show (4 : ℕ) < 2 ^ 63 by omega, if_true, hload', ok_bind,
      pure_eq] at h
    obtain ⟨-, rfl⟩ := Prod.mk.inj (Except.ok.inj h)
    rw [bitmap_carried, htot]
    exact count_failed_twice

/-! ## The whole handler

What is behind the descriptor is the bitmap section, whose result is dropped, and the data
section. -/

/-- What a `ptf` call that returned `TRUE` has written, when `e` bytes of the bitmap and
`e'` of its crc went out. -/
def ptf_output (p : prepared) (a : Bytes p.img_opt.checksum_size.toNat) (src : List Byte)
    (e e' : ℕ) : List Byte :=
  desc_section p.fs_info p.img_opt
    ++ ((bitmap_data p.fs_info.totalblock.toNat p.bitmap).take e
      ++ (crc_bytes (bitmap_data p.fs_info.totalblock.toNat p.bitmap)).take e')
    ++ data_section p.fs_info.block_size.toNat p.img_opt a src (marked p.fs_info p.bitmap 0)

/-- **A `ptf` call that returns `TRUE`** has written the whole descriptor and the whole data
section, and the whole bitmap section exactly when the schedule carried it. Every other result on
the way is compared with what was asked for and leads to an error, so each part but the bitmap
section is there in full. -/
theorem sysbak_ptf_true {block_size : file_system_info → ℕ} {reply_last : Bool} {host : Host}
    {drv : driver} {w w' : World} {overwrite : Bool}
    (h : sysbak_ptf block_size reply_last host drv w overwrite = .ok (true, w')) :
    ∃ p w₃, ptf_prepare host drv w overwrite = .ok (.ok p, w₃) ∧ set_up drv w p w₃ ∧
      (block_size p.fs_info = p.fs_info.block_size.toNat →
        p.fs_info.block_size.toNat ≤ 2 ^ 30 →
        (∀ x ∈ marked p.fs_info p.bitmap 0,
          (x + 1) * p.fs_info.block_size.toNat ≤ w.dfr.data.length) ∧
        ∃ e ≤ BITS_TO_BYTES p.fs_info.totalblock.toNat, ∃ e' ≤ 4,
          w'.dfw = (opened_target w).written (ptf_output p (stale_checksum host p.img_opt)
            w.dfr.data e e') ∧
          (e = BITS_TO_BYTES p.fs_info.totalblock.toNat ∧ e' = 4
            ↔ bitmap_carried w₃ p.fs_info p.bitmap) ∧
          (w'.io_failed = w.io_failed ↔ bitmap_carried w₃ p.fs_info p.bitmap)) := by
  rw [sysbak_ptf] at h
  -- the first part has to succeed for `TRUE`
  obtain ⟨⟨r, w₃⟩, hprep, h⟩ := bind_eq_ok.mp h
  dsimp only at h
  cases r with
  | error e => cases h
  | ok p =>
      have hset : set_up drv w p w₃ := by
        rcases ptf_prepare_ok hprep with ⟨e, he, -⟩ | ⟨e, he, -⟩ | ⟨he, -⟩ | ⟨q, he, hq⟩
        · cases he
        · cases he
        · cases he
        · obtain rfl := Except.ok.inj he
          exact hq
      refine ⟨p, w₃, hprep, hset, fun hbsize hbs' => ?_⟩
      have htot := hset.totalblock
      have hbytes := BITS_TO_BYTES_le (show p.fs_info.totalblock.toNat + 63 < 2 ^ 64 by omega)
      have hbytes' : BITS_TO_BYTES p.fs_info.totalblock.toNat < 2 ^ 31 := by
        rw [BITS_TO_BYTES, u64_of_lt (by omega)]; omega
      have hbmlen : BITS_TO_BYTES p.fs_info.totalblock.toNat ≤ 8 * p.bitmap.length := by
        rw [show p.bitmap.length = _ from hset.bitmap]; exact hbytes
      -- the result of the bitmap section is not looked at, so it may be cut
      obtain ⟨e, he, e', he', okb, s₄, k₄, c₄, hbitmap, -, -, hk₄, -, -⟩ :=
        write_image_bitmap_spec w₃ p.fs_info hbytes' hbmlen
      have hclean := write_image_bitmap_clean hbytes' hbmlen hbitmap
      simp only [hbitmap, ok_bind] at h
      have hmul : p.fs_info.totalblock.toNat * p.fs_info.block_size.toNat < 2 ^ 63 := by
        calc p.fs_info.totalblock.toNat * p.fs_info.block_size.toNat ≤ 2 ^ 32 * 2 ^ 30 :=
              Nat.mul_le_mul htot.le hbs'
          _ < 2 ^ 63 := by omega
      rw [hbsize] at h
      have hgroup : 0 < p.img_opt.blocks_per_checksum.toNat := by
        rw [hset.img_opt]; exact ptf_group_pos _
      have hfits : checksum_fits p.img_opt := by rw [hset.img_opt]; exact ptf_checksum_fits _
      have hroom : write_buffer_size p.fs_info.block_size.toNat p.img_opt < 2 ^ 31 := by
        rw [hset.img_opt]; exact ptf_write_buffer_size hbs'
      -- one handler replies at its end, the others before the data; no file is touched by it
      generalize hw₅ : (if reply_last then ({ w₃ with
          dfw := (w₃.dfw.written ((bitmap_data p.fs_info.totalblock.toNat p.bitmap).take e)).written
            ((crc_bytes (bitmap_data p.fs_info.totalblock.toNat p.bitmap)).take e'),
          sched := s₄, io_failed := k₄, cks := c₄, copied_count := 0 } : World)
        else emit_signal { w₃ with
          dfw := (w₃.dfw.written ((bitmap_data p.fs_info.totalblock.toNat p.bitmap).take e)).written
            ((crc_bytes (bitmap_data p.fs_info.totalblock.toNat p.bitmap)).take e'),
          sched := s₄, io_failed := k₄, cks := c₄, copied_count := 0 } .reply) = w₅ at h
      have hdfw₅ : w₅.dfw = (w₃.dfw.written
          ((bitmap_data p.fs_info.totalblock.toNat p.bitmap).take e)).written
            ((crc_bytes (bitmap_data p.fs_info.totalblock.toNat p.bitmap)).take e') := by
        rw [← hw₅]; cases reply_last <;> rfl
      have hdfr₅ : w₅.dfr.data = w.dfr.data := by
        rw [← hset.source, ← hw₅]; cases reply_last <;> rfl
      obtain ⟨ok, w₆, hdata, -, htrue, -⟩ := read_write_data_ptf_ok hset.block_size hbs' hmul hfits
        hgroup hroom host p.bitmap w₅
      rw [hdata, ok_bind] at h
      dsimp only at h
      cases ok with
      | false => cases h
      | true =>
          -- the data section ran through, so the three sections lie one behind the other
          obtain ⟨hfailed₆, hread, hdfw₆⟩ := htrue rfl
          simp only [Bool.not_true, Bool.false_eq_true, if_false, pure_eq] at h
          obtain ⟨-, rfl⟩ := Prod.mk.inj (Except.ok.inj h)
          have hdfw : (if reply_last then emit_signal (emit_signal w₆ (.finished
              p.fs_info.totalblock.toNat p.fs_info.usedblocks.toNat p.fs_info.block_size.toNat)) .reply
              else emit_signal w₆ (.finished p.fs_info.totalblock.toNat p.fs_info.usedblocks.toNat
                p.fs_info.block_size.toNat)).dfw = w₆.dfw := by cases reply_last <;> rfl
          rw [hdfr₅] at hread hdfw₆
          refine ⟨hread, e, he, e', he', ?_, ?_, ?_⟩
          · rw [hdfw, hdfw₆, hdfw₅, hset.target, written_append, written_append, written_append,
              ptf_output, List.append_assoc, List.append_assoc]
          · rw [← hclean]
            exact hk₄.symm
          · have hfailed : w₅.io_failed = k₄ := by rw [← hw₅]; cases reply_last <;> rfl
            rw [← hclean, ← hset.io_failed]
            refine Eq.congr_left (Eq.trans ?_ (hfailed₆.trans hfailed))
            cases reply_last <;> rfl

end SysbakAdmin.PtfRun

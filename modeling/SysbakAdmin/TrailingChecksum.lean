/-
Whether a restore that ends with `TRUE` has compared every checksum of the stream.

The writer ends the stream with a checksum whenever a group is left open. The reader reads
and compares it only if the last chunk leaves a group open *counted from its own start*
(`tail_checked`). For the group size that the writer takes, a buffer's worth, these are the
same; for others the reader can stop in front of the last checksum.

A chunk that fits neither an `int` nor the buffer ends the run, one way or another, so an
image with such a chunk is never restored with `TRUE`, and for it there is nothing to verify.

The condition is arithmetic on three numbers: the group size, the capacity of the buffer and
the count of used blocks. Its necessity is shown by an image, `wrong_world`: its last
checksum is wrong and everything else is right, and it is restored with `TRUE` exactly where
the reader does not look (`wrong_world_restored`).
-/
import SysbakAdmin.RestoreCursor

set_option autoImplicit false

namespace SysbakAdmin.TrailingChecksum

open LittleEndian ByteStore CInt CMemory DoWhile Transfer FileIo GroupStream PackedRecord
open Bitmap Checksum Io Share Backup ImageWriter Restore ReaderLoops ImageReader BufferBounds
open RestoreCursor

/-! ## What is to be verified -/

section Statement

variable (fs_info : file_system_info) (img_opt : image_options) (bm : bitmap)

/-- The length of the stream of the marked blocks, as the writer lays it out. -/
def stream_length : ℕ :=
  used_count fs_info bm * fs_info.block_size.toNat
    + (used_count fs_info bm / img_opt.blocks_per_checksum.toNat
      + if used_count fs_info bm % img_opt.blocks_per_checksum.toNat = 0 then 0 else 1)
        * img_opt.checksum_size.toNat

/-- The data section has that length. -/
def laid_out (w : World) : Prop :=
  w.dfr.pos + stream_length fs_info img_opt bm = w.dfr.data.length

/-- Every checksum has been read, and is that of the blocks it covers: the data section is the
stream of these blocks, and these are the blocks that were written. -/
structure all_verified (host : Host) (w w' : World) (blocks : List (List Byte)) : Prop where
  length_eq : blocks.length = used_count fs_info bm
  lengths : ∀ b ∈ blocks, b.length = fs_info.block_size.toNat
  stream_eq : w.dfr.data.drop w.dfr.pos
    = stream (digest_of img_opt) img_opt.blocks_per_checksum.toNat
      (start_cursor img_opt (stale_checksum host img_opt)) blocks
  read : w'.dfr.pos = w.dfr.data.length
  written : reachable fs_info.block_size.toNat (marked fs_info bm 0) →
    w'.dfw.data = scatter 0 fs_info.block_size.toNat w.dfw.data (marked fs_info bm 0) blocks

/-- A restore that returns `TRUE` has verified every block. It is asked of every content and every
schedule, for a given header and bitmap. -/
def restore_verifies : Prop :=
  ∀ (host : Host) (w : World), w.copied_count = 0 → laid_out fs_info img_opt bm w →
    ∀ w', read_write_data_restore fs_info img_opt host bm w = .ok (true, w') →
      ∃ blocks, all_verified fs_info img_opt bm host w w' blocks

/-- A restore can come to its end: the blocks have a size, every chunk fits an `int` and the
buffer, and every marked block has a place that `lseek` accepts. -/
structure can_complete : Prop where
  block_size : 0 < fs_info.block_size.toNat
  chunks : chunks_fit fs_info img_opt bm
  places : ∃ s, (marked fs_info bm 0).foldlM (place fs_info.block_size.toNat) (0, 0) = some s

end Statement

variable {fs_info : file_system_info} {img_opt : image_options} {bm : bitmap}

/-! ## The trailing checksum -/

/-- When the stream ends with a full group, or its last checksum is compared, the reader checks
all of it. -/
theorem checked_eq_stream_of (hg : 0 < img_opt.blocks_per_checksum.toNat)
    {c₀ : Cursor (Bytes img_opt.checksum_size.toNat)} (h₀ : c₀.filled = 0)
    {blocks : List (List Byte)} (hlen : blocks.length = used_count fs_info bm)
    (h : used_count fs_info bm % img_opt.blocks_per_checksum.toNat = 0
      ∨ tail_checked fs_info img_opt bm) :
    checked fs_info img_opt bm c₀ blocks
      = stream (digest_of img_opt) img_opt.blocks_per_checksum.toNat c₀ blocks := by
  rw [checked, stream, tail_digest, trailer, cursor_filled hg h₀, hlen]
  by_cases hfull : used_count fs_info bm % img_opt.blocks_per_checksum.toNat = 0
  · rw [if_neg fun h' => h'.2.2 hfull, if_pos hfull]
  · rw [if_pos ⟨rfl, h.resolve_left hfull⟩, if_neg hfull]
    rfl

theorem stream_length_eq (hg : 0 < img_opt.blocks_per_checksum.toNat)
    {c₀ : Cursor (Bytes img_opt.checksum_size.toNat)} (h₀ : c₀.filled = 0)
    {blocks : List (List Byte)} (hlen : blocks.length = used_count fs_info bm)
    (hlengths : ∀ b ∈ blocks, b.length = fs_info.block_size.toNat) :
    (stream (digest_of img_opt) img_opt.blocks_per_checksum.toNat c₀ blocks).length
      = stream_length fs_info img_opt bm := by
  have htrailer : ∀ c : Cursor (Bytes img_opt.checksum_size.toNat),
      (trailer (digest_of img_opt) c).length
        = if c.filled = 0 then 0 else img_opt.checksum_size.toNat := by
    intro c
    unfold trailer
    split_ifs
    · rfl
    · exact c.sum.2
  rw [stream, List.length_append, htrailer, cursor_filled hg h₀,
    emit_length (digest_of img_opt) _ hg (m := img_opt.checksum_size.toNat) (fun a => a.2)
      (by omega) hlengths, h₀, Nat.zero_add, hlen, stream_length, Nat.add_mul]
  split_ifs <;> omega

/-! ## Chunks that do not fit

They end the run one way or another, so a restore with `TRUE` has met none, and the
specification of a chunk that fits can be used for all of its passes. -/

/-- A negative length sends `crc32` out of its buffer. -/
theorem update_checksum_negative {lib : checksum_lib} (checksum buf : List Byte) {size : ℤ}
    (hmode : lib.cs_mode = CSM_CRC32) (hneg : size < 0) :
    ∃ t, update_checksum lib checksum buf size = .error t := by
  rw [update_checksum, if_pos hmode]
  cases hload : load_crc checksum with
  | error t => exact ⟨t, rfl⟩
  | ok crc =>
      refine ⟨.outOfBounds, ?_⟩
      rw [ok_bind, crc32, if_neg (by omega)]
      rfl

/-- So a block of `2 ^ 31` bytes is not taken out. -/
theorem restore_block_signed (img_opt : image_options) (read_buffer : List Byte) {i : ℕ}
    {v : chunk_vars}
    (hmode : v.cks.cs_mode = CSM_CRC32) (hbig : 2 ^ 31 ≤ fs_info.block_size.toNat) :
    ∃ t, restore_block fs_info img_opt read_buffer i v = .error t := by
  have hlt : fs_info.block_size.toNat < 2 ^ 32 := fs_info.block_size.isLt
  have hneg : i32 fs_info.block_size.toNat < 0 := by
    rw [i32, u32_of_lt hlt, if_neg (by omega)]
    omega
  unfold restore_block
  dsimp only
  cases load read_buffer v.read_offset fs_info.block_size.toNat with
  | error t => exact ⟨t, rfl⟩
  | ok block =>
      rw [ok_bind]
      cases store v.write_buffer (u32 (i * fs_info.block_size.toNat)) block with
      | error t => exact ⟨t, rfl⟩
      | ok write_buffer =>
          obtain ⟨t, ht⟩ := update_checksum_negative v.checksum
            (read_buffer.drop v.read_offset) hmode hneg
          exact ⟨t, by rw [ok_bind, ht, error_bind]⟩

/-- A read of more than the buffer holds does not return the count. -/
theorem read_io_all_too_long (w : World) (buf : List Byte) {n : ℕ} (hn : n < 2 ^ 31)
    (hbuf : buf.length < n) :
    (∃ t, read_io_all w buf n = .error t) ∨
      ∃ r buf' w', read_io_all w buf n = .ok (r, buf', w') ∧ r ≠ n := by
  obtain ⟨e, -, hslice, hlen, -, hst⟩ := read_all_spec w.sched w.dfr n
  rw [read_io_all, if_pos (by omega)]
  dsimp only
  split_ifs with hin
  · refine Or.inr ⟨_, _, _, rfl, io_result_ne (by omega) fun hcomplete => ?_⟩
    rw [hslice, hlen] at hin
    have := hst.mp hcomplete
    omega
  · exact Or.inl ⟨_, rfl⟩

theorem read_io_all_cks {w w' : World} {buf buf' : List Byte} {n : ℕ} {r : ℤ}
    (h : read_io_all w buf n = .ok (r, buf', w')) : w'.cks = w.cks := by
  unfold read_io_all at h
  split_ifs at h
  · dsimp only at h
    split_ifs at h
    rw [← (Prod.mk.inj (Prod.mk.inj (Except.ok.inj h)).2).2]
  · rw [← (Prod.mk.inj (Prod.mk.inj (Except.ok.inj h)).2).2]

section Unfit

variable {w₀ : World} {c₀ : Cursor (Bytes img_opt.checksum_size.toNat)} {write_size : ℕ}
  {v : restore_vars} {w : World}

/-- With four bytes for a checksum, no size comes near `2 ^ 32` for blocks below `2 ^ 31`. -/
theorem chunk_need_lt_of (bm : bitmap) (hsize : img_opt.checksum_size.toNat = 4)
    (hsmall : fs_info.block_size.toNat < 2 ^ 31) (c : ℕ) :
    chunk_need fs_info img_opt bm c < 2 ^ 32 - 1 := by
  have hcapmul := capacity_mul_le fs_info.block_size.toNat
  have hmega : DEFAULT_BUFFER_SIZE = 2 ^ 20 := rfl
  have hcap : capacity fs_info.block_size.toNat ≤ 2 ^ 20 := by
    unfold capacity
    have := Nat.div_le_self DEFAULT_BUFFER_SIZE fs_info.block_size.toNat
    omega
  have hle : chunk_size fs_info bm c ≤ capacity fs_info.block_size.toNat := Nat.min_le_left _ _
  have hblocks := Nat.mul_le_mul_right fs_info.block_size.toNat hle
  have hgroups : (c % img_opt.blocks_per_checksum.toNat + chunk_size fs_info bm c)
      / img_opt.blocks_per_checksum.toNat ≤ chunk_size fs_info bm c + 1 := by
    rcases Nat.eq_zero_or_pos img_opt.blocks_per_checksum.toNat with hg | hg
    · rw [hg, Nat.div_zero]
      omega
    · have hmod := Nat.mod_lt c hg
      refine (Nat.div_le_div_right (c := img_opt.blocks_per_checksum.toNat)
        (Nat.add_le_add_right hmod.le _)).trans ?_
      rw [Nat.add_div_left _ hg]
      exact Nat.succ_le_succ (Nat.div_le_self _ _)
  rw [chunk_need_eq, hsize]
  split <;> omega

/-- **A chunk that does not fit ends the run**, and not with `TRUE`. Either the read does not move
the number of bytes that was computed, which is an error, or it does, and then an access to the
rest of the chunk leaves the buffer. -/
theorem restore_pass_unfit (hbs : 0 < fs_info.block_size.toNat)
    (hmode : img_opt.checksum_mode.toNat = CSM_CRC32) (hsize : img_opt.checksum_size.toNat = 4)
    (hg : 0 < img_opt.blocks_per_checksum.toNat) (hU : used_count fs_info bm < 2 ^ 63)
    (hinv : restore_inv fs_info img_opt bm w₀ c₀ (read_buffer_size fs_info img_opt) write_size v w)
    (hlt : w.copied_count < used_count fs_info bm)
    (hunfit : ¬ (chunk_need fs_info img_opt bm w.copied_count < 2 ^ 31 ∧
      chunk_need fs_info img_opt bm w.copied_count ≤ read_buffer_size fs_info img_opt)) :
    (∃ t, restore_pass fs_info img_opt (capacity fs_info.block_size.toNat)
        (used_count fs_info bm) bm v w = .error t) ∨
      ∃ w', restore_pass fs_info img_opt (capacity fs_info.block_size.toNat)
        (used_count fs_info bm) bm v w = .ok (.fail, w') := by
  have halign := hinv.aligned.resolve_right (by omega)
  have hpos := chunk_size_pos hlt
  have hn0 : ¬ chunk_size fs_info bm w.copied_count = 0 := by omega
  have hchunk := chunk_blocks_eq hU hinv.copied
  have hread_size := chunk_read_size_eq img_opt hbs hg hU hlt halign
  -- whatever is read, the loop is not left but through an error
  have hends : ∀ x : Run (ℤ × List Byte × World),
      read_io_all w v.read_buffer (u64OfInt (i32 (chunk_need fs_info img_opt bm w.copied_count)))
        = x →
      (∀ r buf w', x = .ok (r, buf, w') → r = i32 (chunk_need fs_info img_opt bm w.copied_count) →
        ∃ t, restore_chunk fs_info img_opt (capacity fs_info.block_size.toNat)
          (chunk_size fs_info bm w.copied_count) buf
          ⟨v.write_buffer, v.checksum, v.blocks_in_cs, 0, w'.cks⟩ = .error t) →
      (∃ t, restore_pass fs_info img_opt (capacity fs_info.block_size.toNat)
          (used_count fs_info bm) bm v w = .error t) ∨
        ∃ w', restore_pass fs_info img_opt (capacity fs_info.block_size.toNat)
          (used_count fs_info bm) bm v w = .ok (.fail, w') := by
    intro x hx hall
    cases x with
    | error t =>
        refine Or.inl ⟨t, ?_⟩
        simp only [restore_pass, hchunk, hn0, if_false, hread_size, hx, error_bind]
    | ok r =>
        obtain ⟨r, buf, w'⟩ := r
        by_cases hr : r = i32 (chunk_need fs_info img_opt bm w.copied_count)
        · obtain ⟨t, ht⟩ := hall r buf w' rfl hr
          refine Or.inl ⟨t, ?_⟩
          simp only [restore_pass, hchunk, hn0, if_false, hread_size, hx, ok_bind, hr, ne_eq,
            not_true_eq_false, ht, error_bind]
        · refine Or.inr ⟨w', ?_⟩
          simp only [restore_pass, hchunk, hn0, if_false, hread_size, hx, ok_bind, hr, ne_eq,
            not_false_eq_true, if_true, pure_eq]
  rcases Nat.lt_or_ge fs_info.block_size.toNat (2 ^ 31) with hsmall | hbig
  · have hneed := chunk_need_lt_of bm hsize hsmall w.copied_count
    rcases Nat.lt_or_ge (chunk_need fs_info img_opt bm w.copied_count) (2 ^ 31) with h31 | h31
    · -- too long for the buffer
      have hint := i32_of_lt h31
      have hcount := u64OfInt_natCast
        (show chunk_need fs_info img_opt bm w.copied_count < 2 ^ 64 by omega)
      refine hends _ rfl fun r buf w' hx hr => ?_
      rw [hint] at hr
      rw [hint, hcount] at hx
      rcases read_io_all_too_long w v.read_buffer h31
        (by rw [hinv.read_buffer]; omega) with ⟨t, ht⟩ | ⟨r', buf', w'', hread, hne⟩
      · rw [ht] at hx
        cases hx
      · rw [hread] at hx
        obtain ⟨rfl, -⟩ := Prod.mk.inj (Except.ok.inj hx)
        exact absurd hr hne
    · -- too long for an `int`
      refine Or.inr (restore_pass_refused hbs hg hU hinv hlt ⟨?_, ?_⟩) <;>
        rw [u32_of_lt (by omega)] <;> omega
  · -- a block whose size is negative as an `int`
    refine hends _ rfl fun r buf w' hx _ => ?_
    have hcks := read_io_all_cks hx
    obtain ⟨k, hk⟩ := Nat.exists_eq_succ_of_ne_zero hn0
    obtain ⟨t, ht⟩ := restore_block_signed img_opt buf (i := 0)
      (v := ⟨v.write_buffer, v.checksum, v.blocks_in_cs, 0, w'.cks⟩)
      (by dsimp only; rw [hcks, hinv.ready.mode_eq, hmode]) hbig
    refine ⟨t, ?_⟩
    rw [hk, restore_chunk, restore_blocks, ht]
    rfl

end Unfit

/-! ## The run -/

/-- **A restore that returns `TRUE` could complete**, and has accepted and laid down its blocks.
No pass of the run can have been over a chunk that does not fit (`restore_pass_unfit`), so each
was one of `restore_pass_spec`. -/
theorem restore_true (hmode : img_opt.checksum_mode.toNat = CSM_CRC32)
    (hsize : img_opt.checksum_size.toNat = 4) (hg : 0 < img_opt.blocks_per_checksum.toNat)
    (hU : used_count fs_info bm < 2 ^ 63) {host : Host} {w w' : World} (hcopied : w.copied_count = 0)
    (hrun : read_write_data_restore fs_info img_opt host bm w = .ok (true, w')) :
    can_complete fs_info img_opt bm ∧ ∃ blocks, blocks.length = used_count fs_info bm ∧
      verified fs_info img_opt bm w.dfr (start_cursor img_opt (stale_checksum host img_opt))
        blocks ∧
      w'.dfr.pos = w.dfr.pos + (checked fs_info img_opt bm
        (start_cursor img_opt (stale_checksum host img_opt)) blocks).length ∧
      (reachable fs_info.block_size.toNat (marked fs_info bm 0) →
        w'.dfw.data = scatter 0 fs_info.block_size.toNat w.dfw.data (marked fs_info bm 0)
          blocks) := by
  have hbs : 0 < fs_info.block_size.toNat := by
    by_contra hzero
    have hdiv : buffer_capacity_of fs_info.block_size.toNat = .error .divideByZero := by
      rw [Nat.eq_zero_of_not_pos hzero]
      rfl
    rw [read_write_data_restore, hdiv, error_bind] at hrun
    cases hrun
  have hfits : checksum_fits img_opt := fun _ => hsize.ge
  have hbsize : fs_info.block_size.toNat < 2 ^ 32 := fs_info.block_size.isLt
  have hcapmul := capacity_mul_le fs_info.block_size.toNat
  have hmega : DEFAULT_BUFFER_SIZE = 2 ^ 20 := rfl
  rcases read_write_data_restore_start bm hbs hfits host w hcopied with
    ⟨hshort, -⟩ | ⟨w₀, -, hdfr₀, hdfw₀, hinv, hc₀, hpasses⟩
  · rw [hshort] at hrun
    cases hrun
  -- a chunk that does not fit never ends in success, so every chunk that was passed did fit
  have hends := passes_ends
    (restore_pass fs_info img_opt (capacity fs_info.block_size.toNat) (used_count fs_info bm) bm)
    (I := fun v w => restore_inv fs_info img_opt bm w₀
      (start_cursor img_opt (stale_checksum host img_opt)) (read_buffer_size fs_info img_opt)
      (capacity fs_info.block_size.toNat * fs_info.block_size.toNat) v w ∧
      ∀ c < w.copied_count, c % capacity fs_info.block_size.toNat = 0 →
        chunk_need fs_info img_opt bm c < 2 ^ 31 ∧
          chunk_need fs_info img_opt bm c ≤ read_buffer_size fs_info img_opt)
    (D := fun _ w => restored fs_info img_opt bm w₀
        (start_cursor img_opt (stale_checksum host img_opt)) w ∧ chunks_fit fs_info img_opt bm ∧
      ∃ s, (marked fs_info bm 0).foldlM (place fs_info.block_size.toNat) (0, 0) = some s)
    (F := fun _ => True) (P := fun _ => True)
    (fun _ w => used_count fs_info bm - w.copied_count)
    (fun v w hvw => by
      obtain ⟨hinv, hfit⟩ := hvw
      by_cases hunfit : w.copied_count < used_count fs_info bm ∧
          ¬ (chunk_need fs_info img_opt bm w.copied_count < 2 ^ 31 ∧
            chunk_need fs_info img_opt bm w.copied_count ≤ read_buffer_size fs_info img_opt)
      · rcases restore_pass_unfit hbs hmode hsize hg hU hinv hunfit.1 hunfit.2 with
          ⟨t, ht⟩ | ⟨w', hw'⟩
        · exact Or.inl ⟨t, ht, trivial⟩
        · exact Or.inr ⟨.fail, w', hw', trivial⟩
      have hplaced := hinv.placed
      rw [hdfw₀] at hplaced
      obtain ⟨p, w', hpass, hleads⟩ := restore_pass_spec hbs hg hfits rfl hU (u32_lt _)
        (by omega) le_rfl hinv fun hlt => by
          by_contra hno
          exact hunfit ⟨hlt, hno⟩
      refine Or.inr ⟨p, w', hpass, ?_⟩
      cases p with
      | next v' =>
          obtain ⟨hinv', hcount', hlt⟩ := hleads
          have hpos := chunk_size_pos hlt
          have := chunk_size_le fs_info bm hlt.le
          refine ⟨⟨hinv', fun c hc halign => ?_⟩, by omega⟩
          rcases Nat.lt_or_ge c w.copied_count with hbefore | hge
          · exact hfit c hbefore halign
          · rw [chunk_start_eq bm (hinv.aligned.resolve_right (by omega)) halign hge (by omega)]
            by_contra hno
            exact hunfit ⟨hlt, hno⟩
      | done v' =>
          obtain ⟨hrestored, hend⟩ := hleads
          refine ⟨hrestored, fun c hc halign => hfit c (by omega) halign,
            (v.block_id, w.dfw.pos), ?_⟩
          rw [hend, used_count, List.take_length] at hplaced
          exact hplaced
      | fail => trivial)
    (used_count fs_info bm + 1) _ w₀ (by omega) ⟨hinv, by rw [hc₀]; omega⟩
  rw [hpasses] at hrun
  rcases hends with ⟨t, ht, -⟩ | ⟨r, w₁, hr, hends⟩
  · rw [ht, error_bind] at hrun
    cases hrun
  rw [hr, ok_bind] at hrun
  obtain ⟨hsome, rfl⟩ := Prod.mk.inj (Except.ok.inj hrun)
  obtain ⟨v, rfl⟩ := Option.isSome_iff_exists.mp hsome
  obtain ⟨hrestored, hchunks, hplaces⟩ := hends
  obtain ⟨blocks, hlen, hver, hpos, hdata⟩ := hrestored.laid_down
  rw [hdfr₀] at hver hpos
  rw [hdfw₀] at hdata
  exact ⟨⟨hbs, hchunks, hplaces⟩, blocks, hlen, hver, hpos, fun h => hdata h rfl⟩

/-! ## An image that ends with a wrong checksum

Its blocks are zeros and all other checksums are right. Whether it is restored is decided by one
test of the reader. -/

section Wrong

variable (fs_info img_opt bm)

/-- The checksum of the zero blocks in the open group, with every bit flipped. -/
def wrong_checksum : List Byte :=
  (emit (digest_of img_opt) img_opt.blocks_per_checksum.toNat
    (start_cursor img_opt (stale_checksum plain_host img_opt))
    (zero_blocks fs_info bm)).2.sum.1.map (~~~ ·)

/-- A restore, to a new file, of an image of zeros that ends with it. -/
def wrong_world : World :=
  { zero_world fs_info img_opt bm with
    dfr := ⟨zero_data fs_info img_opt bm ++ wrong_checksum fs_info img_opt bm, 0, true⟩ }

variable {fs_info img_opt bm}

theorem map_complement_ne {l : List Byte} (h : l ≠ []) : l.map (~~~ ·) ≠ l := by
  have hbyte : ∀ b : Byte, ~~~b ≠ b := by decide
  cases l with
  | nil => exact absurd rfl h
  | cons b l => exact fun heq => hbyte b (List.cons.inj heq).1

/-- What is in front of it: the blocks with the checksums of the full groups. -/
theorem zero_data_eq (htail : ¬ tail_checked fs_info img_opt bm) :
    zero_data fs_info img_opt bm = (emit (digest_of img_opt) img_opt.blocks_per_checksum.toNat
      (start_cursor img_opt (stale_checksum plain_host img_opt)) (zero_blocks fs_info bm)).1 := by
  rw [zero_data, checked, tail_digest, if_neg fun h => htail h.2, List.append_nil]

/-- The right one would make the stream. -/
theorem zero_stream_eq (hg : 0 < img_opt.blocks_per_checksum.toNat)
    (hopen : used_count fs_info bm % img_opt.blocks_per_checksum.toNat ≠ 0)
    (htail : ¬ tail_checked fs_info img_opt bm) :
    stream (digest_of img_opt) img_opt.blocks_per_checksum.toNat
        (start_cursor img_opt (stale_checksum plain_host img_opt)) (zero_blocks fs_info bm)
      = zero_data fs_info img_opt bm ++ (emit (digest_of img_opt)
          img_opt.blocks_per_checksum.toNat
          (start_cursor img_opt (stale_checksum plain_host img_opt))
          (zero_blocks fs_info bm)).2.sum.1 := by
  rw [stream, zero_data_eq htail, trailer, cursor_filled hg rfl, zero_blocks_length, if_neg hopen]
  rfl

theorem wrong_world_laid_out (hg : 0 < img_opt.blocks_per_checksum.toNat)
    (hopen : used_count fs_info bm % img_opt.blocks_per_checksum.toNat ≠ 0)
    (htail : ¬ tail_checked fs_info img_opt bm) :
    laid_out fs_info img_opt bm (wrong_world fs_info img_opt bm) := by
  have hlen := stream_length_eq hg
    (show (start_cursor img_opt (stale_checksum plain_host img_opt)).filled = 0 from rfl)
    (zero_blocks_length fs_info bm) (zero_verified fs_info img_opt bm).lengths
  rw [zero_stream_eq hg hopen htail, List.length_append] at hlen
  change 0 + _ = (zero_data fs_info img_opt bm ++ wrong_checksum fs_info img_opt bm).length
  rw [← hlen, List.length_append, wrong_checksum, List.length_map, Nat.zero_add]

/-- **It is restored with `TRUE`** if the reader does not look at the checksum. The blocks and the
checksums of the full groups are right, and those are all that is read. -/
theorem wrong_world_restored (hg : 0 < img_opt.blocks_per_checksum.toNat)
    (hfits : checksum_fits img_opt) (hU : used_count fs_info bm < 2 ^ 63)
    (hcan : can_complete fs_info img_opt bm) :
    ∃ w', read_write_data_restore fs_info img_opt plain_host bm (wrong_world fs_info img_opt bm)
      = .ok (true, w') := by
  obtain ⟨ok, w', hrun, -, -, -, hfalse⟩ := read_write_data_restore_ok bm hcan.block_size hg hfits hU
    hcan.chunks plain_host (wrong_world fs_info img_opt bm) rfl
  cases ok with
  | true => exact ⟨w', hrun⟩
  | false =>
      refine absurd ⟨fun _ => rfl, rfl, ⟨_, zero_blocks_length _ _, ?_⟩, Or.inl ⟨rfl, hcan.places⟩⟩
        (hfalse rfl)
      exact ⟨(zero_verified fs_info img_opt bm).lengths, List.prefix_append _ _⟩

/-- No blocks have this stream. Its last four bytes are the complement of the ones that would be
right. -/
theorem wrong_world_not_verified (hg : 0 < img_opt.blocks_per_checksum.toNat)
    (hpos : 0 < img_opt.checksum_size.toNat)
    (hopen : used_count fs_info bm % img_opt.blocks_per_checksum.toNat ≠ 0)
    (htail : ¬ tail_checked fs_info img_opt bm) (w' : World) :
    ¬ ∃ blocks, all_verified fs_info img_opt bm plain_host (wrong_world fs_info img_opt bm) w'
      blocks := by
  rintro ⟨blocks, hver⟩
  have heq : zero_data fs_info img_opt bm ++ wrong_checksum fs_info img_opt bm
      = stream (digest_of img_opt) img_opt.blocks_per_checksum.toNat
        (start_cursor img_opt (stale_checksum plain_host img_opt)) blocks := hver.stream_eq
  -- they would have to be the zero blocks
  have hsame : zero_blocks fs_info bm = blocks := by
    have hprefix := heq
    rw [zero_data_eq htail, stream] at hprefix
    have htake := eq_take_of_emit_prefix (digest_of img_opt) _ (m := img_opt.checksum_size.toNat)
      (fun a => a.2) _ (zero_verified fs_info img_opt bm).lengths
      hver.lengths (by rw [zero_blocks_length, hver.length_eq]) hprefix
    rwa [List.take_of_length_le (by rw [zero_blocks_length, hver.length_eq])] at htake
  rw [← hsame, zero_stream_eq hg hopen htail] at heq
  refine map_complement_ne (fun hnil => ?_) (List.append_cancel_left heq)
  have hlen := congrArg List.length hnil
  rw [(emit (digest_of img_opt) _ _ _).2.sum.2, List.length_nil] at hlen
  omega

end Wrong

/-! ## Which restores verify every block -/

/-- **A restore that returns `TRUE` has verified every block exactly when** the stream ends with a
full group, or the last chunk leaves a group open from its own start on, or no restore of the
image comes to its end. In the first case there is no trailing checksum, and in the second the
reader compares it; in all others the image of `wrong_world` is restored and its last checksum is
wrong. -/
theorem restore_verifies_iff (hmode : img_opt.checksum_mode.toNat = CSM_CRC32)
    (hsize : img_opt.checksum_size.toNat = 4) (hg : 1 ≤ img_opt.blocks_per_checksum.toNat)
    (hlen : 8 * bm.length < 2 ^ 60) :
    restore_verifies fs_info img_opt bm ↔
      used_count fs_info bm % img_opt.blocks_per_checksum.toNat = 0 ∨
      used_count fs_info bm % capacity fs_info.block_size.toNat
        % img_opt.blocks_per_checksum.toNat ≠ 0 ∨
      ¬ can_complete fs_info img_opt bm := by
  have hU : used_count fs_info bm < 2 ^ 63 := by
    have := used_count_le fs_info bm
    omega
  constructor
  · intro h
    by_contra hno
    simp only [not_or, not_not] at hno
    obtain ⟨hopen, hlast, hcan⟩ := hno
    -- the counterexample is a stream with a wrong trailing digest that is not compared
    have htail : ¬ tail_checked fs_info img_opt bm := fun htail => htail.1 hlast
    obtain ⟨w', hrun⟩ := wrong_world_restored hg (fun _ => hsize.ge) hU hcan
    exact wrong_world_not_verified hg (by omega) hopen htail w'
      (h plain_host _ rfl (wrong_world_laid_out hg hopen htail) w' hrun)
  · intro h host w hcopied hlaid w' hrun
    obtain ⟨hcan, blocks, hcount, hver, hpos, hdata⟩ :=
      restore_true hmode hsize hg hU hcopied hrun
    -- in every other case the last digest is there and compared, or there is none
    have htail : used_count fs_info bm % img_opt.blocks_per_checksum.toNat = 0
        ∨ tail_checked fs_info img_opt bm := by
      by_cases hfull : used_count fs_info bm % img_opt.blocks_per_checksum.toNat = 0
      · exact Or.inl hfull
      · exact Or.inr ⟨(h.resolve_left hfull).resolve_right (not_not.mpr hcan), hfull⟩
    have hstart : (start_cursor img_opt (stale_checksum host img_opt)).filled = 0 := rfl
    have heq := checked_eq_stream_of hg hstart hcount htail
    have hstream := stream_length_eq hg hstart hcount hver.lengths
    have haccepted := hver.accepted
    rw [heq] at haccepted hpos
    refine ⟨blocks, hcount, hver.lengths, ?_, ?_, hdata⟩
    · refine (haccepted.eq_of_length ?_).symm
      rw [hstream, List.length_drop, ← hlaid, Nat.add_sub_cancel_left]
    · rw [hpos, hstream]
      exact hlaid

/-- A block of 1024 bytes in a group of 1024 blocks: its checksum is compared. -/
theorem restore_verifies_one_block :
    restore_verifies one_block_fs { short_options with checksum_size := 4 } [1] :=
  (restore_verifies_iff (by decide) (by decide) (by decide) (by decide)).mpr
    (Or.inr (Or.inl (by decide)))

/-- One block of a mebibyte, which fills the buffer. -/
def mebibyte_fs : file_system_info :=
  { init_file_system_info with totalblock := 1, usedblocks := 1, block_size := 1048576 }

/-- A checksum for every two blocks. -/
def pair_options : image_options := { init_image_options with blocks_per_checksum := 2 }

/-- **A wrong checksum after a single block of a mebibyte** goes unnoticed. The block fills a
chunk, and behind a chunk that is full the reader expects no group to be open. -/
theorem mebibyte_not_verified :
    valid_desc (desc_section mebibyte_fs pair_options) ∧
    pair_options.checksum_mode.toNat = CSM_CRC32 ∧ pair_options.checksum_size.toNat = 4 ∧
    laid_out mebibyte_fs pair_options [1] (wrong_world mebibyte_fs pair_options [1]) ∧
    (∃ w', read_write_data_restore mebibyte_fs pair_options plain_host [1]
      (wrong_world mebibyte_fs pair_options [1]) = .ok (true, w')) ∧
    ¬ restore_verifies mebibyte_fs pair_options [1] := by
  have hcount : used_count mebibyte_fs [1] = 1 := by decide
  have hopen : used_count mebibyte_fs [1] % pair_options.blocks_per_checksum.toNat ≠ 0 := by decide
  have htail : ¬ tail_checked mebibyte_fs pair_options [1] := by decide
  have hlaid := wrong_world_laid_out (by decide) hopen htail
  have hcan : can_complete mebibyte_fs pair_options [1] := by
    refine ⟨by decide, fun c hc _ => ?_, ⟨(1, 1048576), by decide⟩⟩
    obtain rfl : c = 0 := by omega
    decide
  obtain ⟨w', hrun⟩ := wrong_world_restored (by decide)
    (fun _ => by decide) (by rw [hcount]; omega) hcan
  exact ⟨valid_desc_section _ _, by decide, by decide, hlaid, ⟨w', hrun⟩, fun h =>
    wrong_world_not_verified (by decide) (by decide) hopen htail w' (h _ _ rfl hlaid w' hrun)⟩

end SysbakAdmin.TrailingChecksum

/-
What `read_write_data_ptf` writes: the checksummed group stream of the used blocks.

The writer works in runs, and a run may end anywhere inside a group, so the checksum
and the count of blocks in the open group live across runs. They are the cursor of
`GroupStream`, the block loop is `emit` on the blocks of the run, and `emit_append`
makes the division into runs disappear.

`data_section` is the resulting stream. `read_write_data_ptf_spec` says that under any
schedule of system calls a run that returns `TRUE` has written exactly that, and
`disk_image` puts it behind the descriptor and the bitmap.

A pass that fails has written some front part of what it was to write, since every transfer
has; so even then the target holds a front part of the stream. The bound on the length of
what is written (`read_write_data_ptf_ok`) is the same for both ends, which is what the space
check is measured against.
-/
import SysbakAdmin.Handlers

set_option autoImplicit false

namespace SysbakAdmin.ImageWriter

open LittleEndian ByteStore CInt CMemory DoWhile Transfer FileIo GroupStream PackedRecord
open Bitmap Checksum Io Share Backup

/-! ## The block loop

One pass works on a buffer in memory. The variables are compared with the cursor of the stream,
and the buffer with what `emit` has put out. -/

/-- The digest of an image with the given options. -/
abbrev digest_of (img_opt : image_options) :
    Summer Byte (Bytes img_opt.checksum_size.toNat) :=
  summer img_opt.checksum_mode.toNat

/-- Options whose checksum array has room for what the mode writes. A mode that computes no CRC
writes nothing into the array, and needs none. -/
def checksum_fits (img_opt : image_options) : Prop :=
  is_crc_mode img_opt.checksum_mode.toNat → 4 ≤ img_opt.checksum_size.toNat

/-- The variables of the block loop when `out` is what the pass has produced so far. The register
and the count are the cursor of the stream, and the buffer holds `out` in front. -/
structure block_inv (img_opt : image_options) (v : ptf_block_vars)
    (c : Cursor (Bytes img_opt.checksum_size.toNat)) (out : List Byte) : Prop where
  offset : v.write_offset = out.length
  written : v.write_buffer.take out.length = out
  checksum : v.checksum = c.sum.1
  filled : v.blocks_in_cs = c.filled
  lt : c.filled < img_opt.blocks_per_checksum.toNat
  ready : v.cks.ready img_opt.checksum_mode.toNat

section Blocks

variable {block_size : ℕ} {img_opt : image_options} (hbs : 0 < block_size)
  (hfits : checksum_fits img_opt)
include hbs hfits

/-- **One block** goes out as `put` puts it. The block is copied behind what is in the buffer, the
register takes it in, and when the group is full the register follows and is reset; that is the
definition of `put`. -/
theorem ptf_block_spec {read_buffer : List Byte} {i : ℕ} {v : ptf_block_vars}
    {c : Cursor (Bytes img_opt.checksum_size.toNat)} {out : List Byte}
    (hinv : block_inv img_opt v c out) (hin : (i + 1) * block_size ≤ read_buffer.length)
    (hroom : (out ++ (put (digest_of img_opt) img_opt.blocks_per_checksum.toNat c
      (block block_size read_buffer i)).1).length ≤ v.write_buffer.length)
    (hbuf : v.write_buffer.length < 2 ^ 31) :
    ∃ v', ptf_block block_size img_opt read_buffer i v = .ok v' ∧
      block_inv img_opt v'
        (put (digest_of img_opt) img_opt.blocks_per_checksum.toNat c
          (block block_size read_buffer i)).2
        (out ++ (put (digest_of img_opt) img_opt.blocks_per_checksum.toNat c
          (block block_size read_buffer i)).1) ∧
      v'.write_buffer.length = v.write_buffer.length ∧
      v'.cs_added * img_opt.checksum_size.toNat + block_size
        = v.cs_added * img_opt.checksum_size.toNat
          + (put (digest_of img_opt) img_opt.blocks_per_checksum.toNat c
              (block block_size read_buffer i)).1.length := by
  obtain ⟨hoff, hout, hsum, hfilled, hlt, hready⟩ := hinv
  have hg : img_opt.blocks_per_checksum.toNat < 2 ^ 32 := img_opt.blocks_per_checksum.isLt
  have hend : i * block_size + block_size ≤ read_buffer.length := by
    rwa [Nat.succ_mul] at hin
  set b := block block_size read_buffer i with hb
  have hblen : b.length = block_size := slice_length_of_le hend
  have hload : load read_buffer (i * block_size) block_size = .ok b := load_of_le hend
  have hroom' : out.length + block_size ≤ v.write_buffer.length := by
    have : block_size ≤ (put (digest_of img_opt) img_opt.blocks_per_checksum.toNat c b).1.length := by
      unfold put
      split_ifs <;> simp [hblen]
    rw [List.length_append] at hroom
    omega
  have hstore : storeAt v.write_buffer v.write_offset b
      = .ok (overlay 0 v.write_buffer out.length b) := by
    rw [hoff, storeAt_natCast, store_of_le (by omega)]
  have htake : (overlay 0 v.write_buffer out.length b).take (out.length + block_size)
      = out ++ b := by
    rw [← hblen, take_overlay 0 (by omega), hout]
  have hlen : (overlay 0 v.write_buffer out.length b).length = v.write_buffer.length := by
    rw [overlay_length, hblen]; omega
  have hoff' : toInt32 (v.write_offset + block_size) = ((out ++ b).length : ℤ) := by
    rw [hoff, List.length_append, hblen, toInt32_of_range (by omega) (by omega)]
    push_cast
    rfl
  -- the checksum goes on over this block, whether it is written or not
  have hupdate : update_checksum v.cks v.checksum (read_buffer.drop (i * block_size))
      (i32 block_size) = .ok ((digest_of img_opt).absorb c.sum b).1 := by
    rw [hsum, i32_of_lt (by omega), update_checksum_ok hready hfits c.sum hbs
      (by rw [List.length_drop]; omega)]
    rfl
  have hcount : u32 (v.blocks_in_cs + 1) = c.filled + 1 := by
    rw [hfilled, u32_of_lt (by omega)]
  have hpos : 0 < img_opt.blocks_per_checksum.toNat := by omega
  by_cases hfull : c.filled + 1 = img_opt.blocks_per_checksum.toNat
  · -- the group is full: its checksum follows the block
    have hput : put (digest_of img_opt) img_opt.blocks_per_checksum.toNat c b
        = (b ++ ((digest_of img_opt).absorb c.sum b).1,
          ⟨0, (digest_of img_opt).reset ((digest_of img_opt).absorb c.sum b)⟩) := by
      rw [put, if_pos hfull]
      rfl
    rw [hput] at hroom ⊢
    obtain ⟨lib', hinit, hready'⟩ := init_checksum_ok v.cks hfits
      ((digest_of img_opt).absorb c.sum b)
    have hclen := ((digest_of img_opt).absorb c.sum b).2
    simp only [List.length_append, hblen, hclen] at hroom
    have hstore' : storeAt (overlay 0 v.write_buffer out.length b) ((out ++ b).length : ℤ)
        ((digest_of img_opt).absorb c.sum b).1
        = .ok (overlay 0 (overlay 0 v.write_buffer out.length b) (out ++ b).length
          ((digest_of img_opt).absorb c.sum b).1) := by
      rw [storeAt_natCast, store_of_le]
      rw [List.length_append, hblen, hclen, hlen]
      omega
    refine ⟨⟨overlay 0 (overlay 0 v.write_buffer out.length b) (out ++ b).length
        ((digest_of img_opt).absorb c.sum b).1,
      toInt32 (((out ++ b).length : ℤ) + img_opt.checksum_size.toNat),
      ((digest_of img_opt).reset ((digest_of img_opt).absorb c.sum b)).1, 0, v.cs_added + 1,
      lib'⟩, ?_, ⟨?_, ?_, rfl, rfl, hpos, hready'⟩, ?_, ?_⟩
    · simp only [ptf_block, hload, ok_bind, hstore, hoff', hupdate, hcount, hfull, hpos, hstore',
        hinit, if_true, and_self, pure_eq]
    · dsimp only
      rw [List.length_append, List.length_append, List.length_append, hblen, hclen,
        toInt32_of_range (by omega) (by omega)]
      push_cast
      ring
    · dsimp only
      rw [← List.append_assoc, @List.length_append _ (out ++ b), take_overlay 0
        (by rw [List.length_append, hblen, hlen]; omega), List.length_append, hblen, htake]
    · dsimp only
      rw [overlay_length, hlen, List.length_append, hblen, hclen]
      omega
    · dsimp only
      rw [List.length_append, hblen, hclen]
      ring
  · -- the group stays open
    have hput : put (digest_of img_opt) img_opt.blocks_per_checksum.toNat c b
        = (b, ⟨c.filled + 1, (digest_of img_opt).absorb c.sum b⟩) := by
      rw [put, if_neg hfull]
    rw [hput]
    refine ⟨⟨overlay 0 v.write_buffer out.length b, ((out ++ b).length : ℤ),
      ((digest_of img_opt).absorb c.sum b).1, c.filled + 1, v.cs_added, v.cks⟩, ?_,
      ⟨rfl, ?_, rfl, rfl, ?_, hready⟩, hlen, ?_⟩
    · simp only [ptf_block, hload, ok_bind, hstore, hoff', hupdate, hcount, hfull, hpos,
        if_true, and_false, if_false, pure_eq]
    · dsimp only
      rw [List.length_append, hblen, htake]
    · change c.filled + 1 < _
      omega
    · rw [hblen]

/-- **The block loop emits the blocks of the run.** By induction on the blocks that are left;
`emit` is `put` for one block after the other. -/
theorem ptf_blocks_spec (read_buffer : List Byte) :
    ∀ (left i : ℕ) (v : ptf_block_vars) (c : Cursor (Bytes img_opt.checksum_size.toNat))
      (out : List Byte), block_inv img_opt v c out →
      (i + left) * block_size ≤ read_buffer.length →
      (out ++ (emit (digest_of img_opt) img_opt.blocks_per_checksum.toNat c
        (gather block_size read_buffer (List.range' i left))).1).length
          ≤ v.write_buffer.length →
      v.write_buffer.length < 2 ^ 31 →
      ∃ v', ptf_blocks block_size img_opt read_buffer left i v = .ok v' ∧
        block_inv img_opt v'
          (emit (digest_of img_opt) img_opt.blocks_per_checksum.toNat c
            (gather block_size read_buffer (List.range' i left))).2
          (out ++ (emit (digest_of img_opt) img_opt.blocks_per_checksum.toNat c
            (gather block_size read_buffer (List.range' i left))).1) ∧
        v'.write_buffer.length = v.write_buffer.length ∧
        v'.cs_added * img_opt.checksum_size.toNat + left * block_size
          = v.cs_added * img_opt.checksum_size.toNat
            + (emit (digest_of img_opt) img_opt.blocks_per_checksum.toNat c
                (gather block_size read_buffer (List.range' i left))).1.length := by
  intro left
  induction left with
  | zero =>
      intro i v c out hinv _ _ _
      exact ⟨v, rfl, by simpa [gather] using hinv, rfl, by simp [gather]⟩
  | succ left ih =>
      intro i v c out hinv hin hroom hbuf
      -- the first block of the run, then the rest of it
      have hcons : gather block_size read_buffer (List.range' i (left + 1))
          = block block_size read_buffer i
            :: gather block_size read_buffer (List.range' (i + 1) left) := by
        rw [List.range'_succ]; rfl
      rw [hcons] at hroom ⊢
      simp only [emit] at hroom ⊢
      have hi : (i + 1) * block_size ≤ (i + (left + 1)) * block_size :=
        Nat.mul_le_mul_right _ (by omega)
      obtain ⟨v₁, hrun₁, hinv₁, hlen₁, hcs₁⟩ := ptf_block_spec hbs hfits hinv (hi.trans hin)
        (by simp only [List.length_append] at hroom ⊢; omega) hbuf
      obtain ⟨v₂, hrun₂, hinv₂, hlen₂, hcs₂⟩ := ih (i + 1) v₁ _ _ hinv₁
        (by rw [show i + 1 + left = i + (left + 1) by omega]; exact hin)
        (by rw [hlen₁, List.append_assoc]; exact hroom) (by rw [hlen₁]; exact hbuf)
      refine ⟨v₂, ?_, by rw [← List.append_assoc]; exact hinv₂, hlen₂.trans hlen₁, ?_⟩
      · simp only [ptf_blocks, hrun₁, ok_bind, hrun₂]
      · rw [List.length_append, Nat.succ_mul]
        omega

end Blocks

/-! ## The passes

Between passes the same is said of the file: it holds the stream as far as the walk over the
bitmap has come. -/

section Passes

variable (block_size : ℕ) (fs_info : file_system_info) (img_opt : image_options) (bm : bitmap)
  (w₀ : World) (c₀ : Cursor (Bytes img_opt.checksum_size.toNat))

/-- The bytes for the given blocks of a source, and the cursor after them. -/
def emitted (src : List Byte) (idx : List ℕ) :
    List Byte × Cursor (Bytes img_opt.checksum_size.toNat) :=
  emit (digest_of img_opt) img_opt.blocks_per_checksum.toNat c₀ (gather block_size src idx)

/-- The size of the write buffer. -/
def write_buffer_size : ℕ :=
  capacity block_size * block_size
    + (capacity block_size / img_opt.blocks_per_checksum.toNat + 1) * img_opt.checksum_size.toNat

/-- What holds between two passes, of a stream that began in `w₀` with the cursor `c₀`. The file
holds the stream of the used blocks below the cursor of the bitmap, and is positioned behind it.
-/
structure ptf_inv (v : ptf_vars) (w : World) : Prop where
  block_id : v.block_id ≤ fs_info.totalblock.toNat
  read_buffer : v.read_buffer.length = capacity block_size * block_size
  write_buffer : v.write_buffer.length = write_buffer_size block_size img_opt
  follows : follows w₀ w
  failed : w.io_failed = w₀.io_failed
  ready : w.cks.ready img_opt.checksum_mode.toNat
  /-- the used blocks below the cursor have been written -/
  written : ∃ done, used_from bm fs_info.totalblock.toNat 0
      = done ++ used_from bm fs_info.totalblock.toNat v.block_id ∧
    (∀ x ∈ done, (x + 1) * block_size ≤ w₀.dfr.data.length) ∧
    w.dfw = w₀.dfw.written (emitted block_size img_opt c₀ w₀.dfr.data done).1 ∧
    v.checksum = (emitted block_size img_opt c₀ w₀.dfr.data done).2.sum.1 ∧
    v.blocks_in_cs = (emitted block_size img_opt c₀ w₀.dfr.data done).2.filled ∧
    (emitted block_size img_opt c₀ w₀.dfr.data done).2.filled
      < img_opt.blocks_per_checksum.toNat

/-- What holds when the passes are through. -/
structure ptf_emitted (v : ptf_vars) (w : World) : Prop where
  follows : Io.follows w₀ w
  failed : w.io_failed = w₀.io_failed
  readable : ∀ x ∈ used_from bm fs_info.totalblock.toNat 0,
    (x + 1) * block_size ≤ w₀.dfr.data.length
  target : w.dfw = w₀.dfw.written (emitted block_size img_opt c₀ w₀.dfr.data
    (used_from bm fs_info.totalblock.toNat 0)).1
  checksum : v.checksum = (emitted block_size img_opt c₀ w₀.dfr.data
    (used_from bm fs_info.totalblock.toNat 0)).2.sum.1
  filled : v.blocks_in_cs = (emitted block_size img_opt c₀ w₀.dfr.data
    (used_from bm fs_info.totalblock.toNat 0)).2.filled

/-- A backup that nothing can disturb: no outcome is scheduled, the used blocks are
there, and the target takes what it is given. -/
structure smooth (w : World) : Prop where
  sched : w.sched = []
  source : ∀ x ∈ used_from bm fs_info.totalblock.toNat 0,
    (x + 1) * block_size ≤ w.dfr.data.length
  target : w.dfw.growable = true

/-- The target is at most as far on as the stream of some of the used blocks. It is what the space
check is measured against, also where a run has failed. -/
def written_at_most (w : World) : Prop :=
  ∃ idx, idx <+: used_from bm fs_info.totalblock.toNat 0 ∧
    (∀ x ∈ idx, (x + 1) * block_size ≤ w₀.dfr.data.length) ∧
    w.dfw.pos ≤ w₀.dfw.pos + (emitted block_size img_opt c₀ w₀.dfr.data idx).1.length

/-- What holds when a pass has failed. -/
structure ptf_failed (w : World) : Prop where
  follows : Io.follows w₀ w
  failed : w₀.io_failed < w.io_failed
  disturbed : ¬ smooth block_size fs_info bm w₀
  written : written_at_most block_size fs_info img_opt bm w₀ c₀ w

variable {block_size fs_info img_opt bm w₀ c₀} {v : ptf_vars} {w w' : World} {n b' : ℕ}

theorem ptf_inv.smooth (hinv : ptf_inv block_size fs_info img_opt bm w₀ c₀ v w)
    (h : smooth block_size fs_info bm w₀) : smooth block_size fs_info bm w where
  sched := hinv.follows.sched_nil h.sched
  source := by rw [hinv.follows.dfr_data]; exact h.source
  target := hinv.follows.dfw_growable.trans h.target

/-- A pass that wrote nothing leaves what the passes before it wrote. -/
theorem ptf_inv.written_at_most (hinv : ptf_inv block_size fs_info img_opt bm w₀ c₀ v w)
    (hdfw : w'.dfw = w.dfw) : written_at_most block_size fs_info img_opt bm w₀ c₀ w' := by
  obtain ⟨done, hused, hdone, hw, -⟩ := hinv.written
  refine ⟨done, hused ▸ List.prefix_append _ _, hdone, ?_⟩
  rw [hdfw, hw, written_pos]

theorem ptf_inv.fail (hinv : ptf_inv block_size fs_info img_opt bm w₀ c₀ v w)
    (hf : Io.follows w w') (hk : w.io_failed < w'.io_failed)
    (hd : ¬ ImageWriter.smooth block_size fs_info bm w)
    (hw : ImageWriter.written_at_most block_size fs_info img_opt bm w₀ c₀ w') :
    ptf_failed block_size fs_info img_opt bm w₀ c₀ w' where
  follows := hinv.follows.trans hf
  failed := hinv.failed ▸ hk
  disturbed := fun h => hd (hinv.smooth h)
  written := hw

/-- Two lists of blocks, one after the other. -/
theorem emitted_append (src : List Byte) (idx jdx : List ℕ) :
    emitted block_size img_opt c₀ src (idx ++ jdx)
      = ((emitted block_size img_opt c₀ src idx).1
          ++ (emitted block_size img_opt (emitted block_size img_opt c₀ src idx).2 src jdx).1,
        (emitted block_size img_opt (emitted block_size img_opt c₀ src idx).2 src jdx).2) := by
  rw [emitted, gather_append, emit_append]
  rfl

/-- The blocks of a run as they lie in the buffer they were read into. -/
theorem gather_buffer {buffer src : List Byte}
    (h : buffer.take (n * block_size) = slice src (b' * block_size) (n * block_size)) :
    gather block_size buffer (List.range' 0 n) = gather block_size src (List.range' b' n) := by
  apply List.ext_getElem
  · simp [gather]
  · intro i hi _
    have hin : i < n := by simpa [gather] using hi
    simp only [gather, List.getElem_map, List.getElem_range', block, Nat.zero_add, Nat.one_mul]
    have hfit : i * block_size + block_size ≤ n * block_size := by
      rw [← Nat.succ_mul]; exact Nat.mul_le_mul_right _ hin
    have h0 : slice buffer (i * block_size) block_size
        = slice (buffer.take (n * block_size)) (i * block_size) block_size := by
      have := slice_slice (d := buffer) (p := 0) (m := n * block_size) hfit
      rw [Nat.zero_add] at this
      rw [← this]
      rfl
    rw [h0, h, slice_slice hfit]
    congr 1
    ring

/-- The emission of a run has room in the write buffer. -/
theorem emitted_length_le (hrun : next_run block_size bm fs_info.totalblock.toNat v.block_id n b')
    {c : Cursor (Bytes img_opt.checksum_size.toNat)}
    (hc : c.filled < img_opt.blocks_per_checksum.toNat) {bs : List (List Byte)}
    (hlen : bs.length = n) (hbs : ∀ b ∈ bs, b.length = block_size) :
    (emit (digest_of img_opt) img_opt.blocks_per_checksum.toNat c bs).1.length
      ≤ write_buffer_size block_size img_opt := by
  have hg : 0 < img_opt.blocks_per_checksum.toNat := by omega
  rw [emit_length (digest_of img_opt) _ hg (m := img_opt.checksum_size.toNat) (fun a => a.2) hc hbs,
    hlen, write_buffer_size]
  apply Nat.add_le_add (Nat.mul_le_mul_right _ hrun.le_capacity)
  apply Nat.mul_le_mul_right
  calc (c.filled + n) / img_opt.blocks_per_checksum.toNat
      ≤ (capacity block_size + img_opt.blocks_per_checksum.toNat)
          / img_opt.blocks_per_checksum.toNat :=
        Nat.div_le_div_right (by have := hrun.le_capacity; omega)
    _ = capacity block_size / img_opt.blocks_per_checksum.toNat + 1 := Nat.add_div_right _ hg

/-- On a smooth run the blocks at the cursor are on the source. -/
theorem ptf_inv.run_there (hinv : ptf_inv block_size fs_info img_opt bm w₀ c₀ v w)
    (hrun : next_run block_size bm fs_info.totalblock.toNat v.block_id n b')
    (h : ImageWriter.smooth block_size fs_info bm w) :
    b' * block_size + n * block_size ≤ w.dfr.data.length := by
  obtain ⟨done, hused, -⟩ := hinv.written
  have hn := hrun.pos
  have hmem : b' + (n - 1) ∈ used_from bm fs_info.totalblock.toNat 0 := by
    rw [hused, hrun.used]
    simp only [List.mem_append, List.mem_range'_1]
    exact Or.inr (Or.inl ⟨by omega, by omega⟩)
  have hin := h.source _ hmem
  rw [show b' + (n - 1) + 1 = b' + n by omega, Nat.add_mul] at hin
  exact hin

/-- **The block loop of a pass**: it puts what the stream has for the run into the write buffer, and
the size of that is what the source computes for its consistency test. -/
theorem ptf_run_spec (hbs : 0 < block_size) (hfits : checksum_fits img_opt)
    (hroom : write_buffer_size block_size img_opt < 2 ^ 31)
    (hinv : ptf_inv block_size fs_info img_opt bm w₀ c₀ v w)
    (hrun : next_run block_size bm fs_info.totalblock.toNat v.block_id n b')
    {c : Cursor (Bytes img_opt.checksum_size.toNat)} (hcs : v.checksum = c.sum.1)
    (hfilled : v.blocks_in_cs = c.filled) (hlt : c.filled < img_opt.blocks_per_checksum.toNat)
    {buffer src : List Byte} (hbuffer : n * block_size ≤ buffer.length)
    (hlen : (slice src (b' * block_size) (n * block_size)).length = n * block_size)
    (htake : buffer.take (n * block_size) = slice src (b' * block_size) (n * block_size))
    {cks : checksum_lib} (hready : cks.ready img_opt.checksum_mode.toNat) :
    ∃ b, ptf_blocks block_size img_opt buffer n 0
          ⟨v.write_buffer, 0, v.checksum, v.blocks_in_cs, 0, cks⟩ = .ok b ∧
      block_inv img_opt b (emitted block_size img_opt c src (List.range' b' n)).2
        (emitted block_size img_opt c src (List.range' b' n)).1 ∧
      b.write_buffer.length = write_buffer_size block_size img_opt ∧
      (emitted block_size img_opt c src (List.range' b' n)).1.length
        ≤ write_buffer_size block_size img_opt ∧
      n * block_size + b.cs_added * img_opt.checksum_size.toNat
        = (emitted block_size img_opt c src (List.range' b' n)).1.length := by
  have hfit := emitted_length_le hrun hlt
    (gather_length block_size src _ |>.trans List.length_range')
    fun x hx => length_of_mem_gather_range hlen hx
  obtain ⟨b, hloop, hb, hblen, hbcs⟩ := ptf_blocks_spec hbs hfits buffer n 0
    ⟨v.write_buffer, 0, v.checksum, v.blocks_in_cs, 0, cks⟩ c []
    ⟨rfl, by simp, hcs, hfilled, hlt, hready⟩ (by rw [Nat.zero_add]; exact hbuffer) (by
      rw [gather_buffer htake, List.nil_append]
      exact hfit.trans hinv.write_buffer.ge) (by rw [hinv.write_buffer]; exact hroom)
  rw [gather_buffer htake] at hb hbcs
  rw [List.nil_append] at hb
  rw [Nat.zero_mul, Nat.zero_add] at hbcs
  exact ⟨b, hloop, hb, hblen.trans hinv.write_buffer, hfit, (Nat.add_comm _ _).trans hbcs⟩

/-- **One pass of `read_write_data_ptf`.** It reads a run, emits its blocks from the cursor that
the runs before it have left, and writes them behind what has been written. When the write comes
short, the file holds a front part of the longer stream. -/
theorem ptf_pass_spec (hbs : 0 < block_size) (hbs' : block_size ≤ 2 ^ 30)
    (htot : fs_info.totalblock.toNat * block_size < 2 ^ 63) (hfits : checksum_fits img_opt)
    (hroom : write_buffer_size block_size img_opt < 2 ^ 31)
    (hinv : ptf_inv block_size fs_info img_opt bm w₀ c₀ v w) :
    ∃ p w', ptf_pass block_size fs_info img_opt bm v w = .ok (p, w') ∧
      p.leads (fun v' w' => ptf_inv block_size fs_info img_opt bm w₀ c₀ v' w' ∧
          fs_info.totalblock.toNat - v'.block_id < fs_info.totalblock.toNat - v.block_id)
        (fun v' w' => ptf_emitted block_size fs_info img_opt bm w₀ c₀ v' w')
        (fun w' => ptf_failed block_size fs_info img_opt bm w₀ c₀ w') w' := by
  obtain ⟨done, hused, hdone, hdfw, hcs, hfilled, hlt⟩ := hinv.written
  obtain ⟨n, b', hsize, ⟨rfl, hnil⟩ | hrun⟩ :=
    get_read_blocks_size_spec hbs fs_info bm hinv.block_id
  · -- no used block is left
    rw [hnil, List.append_nil] at hused
    refine ⟨.done v, w, ?_, hinv.follows, hinv.failed, ?_, ?_, ?_, ?_⟩
    · simp only [ptf_pass, hsize, ok_bind, if_true, pure_eq]
    all_goals rw [hused]
    · exact hdone
    · exact hdfw
    · exact hcs
    · exact hfilled
  have hn := hrun.pos
  have hcount := hrun.count_lt hbs'
  have hend := hrun.end_mul_le
  have hn0 : ¬ n = 0 := by omega
  have hu64 : u64 (n * block_size) = n * block_size := u64_of_lt (by omega)
  have hi32 : i32 (n * block_size) = ((n * block_size : ℕ) : ℤ) := i32_of_lt hcount
  have hcap : n * block_size ≤ v.read_buffer.length := by
    rw [hinv.read_buffer]
    exact Nat.mul_le_mul_right _ hrun.le_capacity
  rcases seek_dfr_spec w (b' * block_size) (by omega) with ⟨hsr, -⟩ | ⟨hsr, hlim⟩
  swap
  · refine ⟨.fail, { w with io_failed := w.io_failed + 1 }, ?_, hinv.fail
      ⟨rfl, rfl, rfl, rfl, rfl, List.suffix_rfl, Nat.le_succ _, List.prefix_rfl⟩
      (Nat.lt_succ_self _) (fun h => ?_) (hinv.written_at_most rfl)⟩
    · simp only [ptf_pass, hsize, ok_bind, hn0, if_false, hsr, Bool.not_false, if_true, pure_eq]
    · have hle := le_seek_limit w.dfr (b' * block_size) (by omega)
        (by have := hinv.run_there hrun h; omega)
      omega
  set w₁ : World := { w with dfr := { w.dfr with pos := b' * block_size } } with hw₁
  have hf₁ : Io.follows w w₁ :=
    follows_moved _ _ _ _ _
  obtain ⟨e, he, r, w₂, hread, hf₂, hlen, -, hdfw₂, hcks₂, hcopied₂, -, hr, hk₂, hfull⟩ :=
    read_io_all_follows w₁ v.read_buffer hcount hcap
  have hf₂' := hf₁.trans hf₂
  by_cases he' : e = n * block_size
  swap
  · have hk : w.io_failed < w₂.io_failed :=
      lt_of_le_of_ne hf₂'.failed (fun h => he' (hk₂.mp h.symm))
    refine ⟨.fail, w₂, ?_, hinv.fail hf₂' hk (fun h => ?_) (hinv.written_at_most hdfw₂)⟩
    · simp only [ptf_pass, hsize, ok_bind, hn0, if_false, hsr, Bool.not_true,
        Bool.false_eq_true, hu64, hread, ne_eq, hi32, hr, he', if_true, not_false_eq_true, pure_eq]
    · exact he' (hfull (hf₁.sched_nil h.sched) (hinv.run_there hrun h))
  subst he'
  have hsrc : w.dfr.data = w₀.dfr.data := hinv.follows.dfr_data
  have hdata : slice w₁.dfr.data w₁.dfr.pos (n * block_size)
      = slice w₀.dfr.data (b' * block_size) (n * block_size) := by rw [← hsrc]
  rw [hdata] at hread hlen
  set buffer := overlay 0 v.read_buffer 0 (slice w₀.dfr.data (b' * block_size) (n * block_size))
    with hbuffer
  have hbuf : buffer.length = v.read_buffer.length := by rw [hbuffer, overlay_length, hlen]; omega
  have htake : buffer.take (n * block_size)
      = slice w₀.dfr.data (b' * block_size) (n * block_size) := by
    have h := take_overlay_zero (0 : Byte) v.read_buffer
      (slice w₀.dfr.data (b' * block_size) (n * block_size))
    rwa [hlen] at h
  -- the block loop, over the blocks of the run
  set c := (emitted block_size img_opt c₀ w₀.dfr.data done).2 with hc
  obtain ⟨b, hloop, hb, hblen, hfit, hsum⟩ := ptf_run_spec hbs hfits hroom hinv hrun hcs hfilled hlt
    (by omega) hlen htake (show w₂.cks.ready _ by rw [hcks₂]; exact hinv.ready)
  set out := (emitted block_size img_opt c w₀.dfr.data (List.range' b' n)).1 with hout
  have houtlen : out.length < 2 ^ 31 := lt_of_le_of_lt hfit hroom
  have hoffset : u64OfInt (out.length : ℤ) = out.length := u64OfInt_natCast (by omega)
  set w₃ : World := { w₂ with cks := b.cks } with hw₃
  have hf₃ : Io.follows w w₃ := hf₂'.trans
    (follows_moved _ _ _ _ _)
  obtain ⟨e, he, r', w₄, hwrite, hf₄, hdfw₄, -, hcks₄, hcopied₄, -, hr', hk₄, hfull'⟩ :=
    write_io_all_follows w₃ b.write_buffer houtlen
      (by rw [hblen]; exact hfit)
  rw [hw₃] at hwrite
  have hf₄' := hf₃.trans hf₄
  have hrn : r = ((n * block_size : ℕ) : ℤ) := hr.mpr rfl
  have hk₂' : w₂.io_failed = w.io_failed := hk₂.mpr rfl
  have hwas : w₃.dfw = w₀.dfw.written (emitted block_size img_opt c₀ w₀.dfr.data done).1 := by
    rw [← hdfw, hw₃]
    exact hdfw₂
  have hrange : ∀ x ∈ done ++ List.range' b' n, (x + 1) * block_size ≤ w₀.dfr.data.length := by
    intro x hx
    rcases List.mem_append.mp hx with h | h
    · exact hdone x h
    · exact block_le_of_slice hbs hlen h
  by_cases he' : e = out.length
  swap
  · have hk : w.io_failed < w₄.io_failed :=
      lt_of_le_of_ne hf₄'.failed (fun h => he' (hk₄.mp (h.symm.trans hk₂'.symm)))
    refine ⟨.fail, w₄, ?_, hinv.fail hf₄' hk (fun h => ?_) ⟨done ++ List.range' b' n, ?_, hrange, ?_⟩⟩
    · simp only [ptf_pass, hsize, ok_bind, hn0, if_false, hsr, Bool.not_true, Bool.false_eq_true,
        hu64, hread, ne_eq, hi32, hrn, not_true_eq_false, hloop, hoffset, hwrite, hb.offset, hr',
        he', if_true, not_false_eq_true, pure_eq]
    · refine he' (hfull' (hf₃.sched_nil h.sched) (room_of_growable ?_ _))
      exact hf₃.dfw_growable.trans h.target
    · rw [hused, hrun.used, ← List.append_assoc]
      exact List.prefix_append _ _
    · rw [hdfw₄, written_pos, hwas, written_pos, emitted_append, List.length_append, List.length_take,
        Nat.add_assoc]
      change _ ≤ _ + (_ + out.length)
      omega
  subst he'
  have hrn' : r' = (out.length : ℤ) := hr'.mpr rfl
  have hnext := hrun.next_id hbs htot
  have hcheck : toInt32 (((n * block_size : ℕ) : ℤ) + b.cs_added * img_opt.checksum_size.toNat)
      = (out.length : ℤ) := by
    rw [← hsum, ← Nat.cast_mul, ← Nat.cast_add]
    exact toInt32_of_range (by omega) (by omega)
  refine ⟨.next ⟨b' + n, buffer, b.write_buffer, b.checksum, b.blocks_in_cs⟩,
    emit_progress { w₄ with copied_count := u64 (w₄.copied_count + n) } fs_info
      (u64 (w₄.copied_count + n)), ?_,
    ⟨hrun.end_le, hbuf.trans hinv.read_buffer, hblen,
      hinv.follows.trans (hf₄'.trans ?_), ?_, ?_, done ++ List.range' b' n, ?_, ?_, ?_, ?_, ?_, ?_⟩,
    ?_⟩
  · simp only [ptf_pass, hsize, ok_bind, hn0, if_false, hsr, Bool.not_true, Bool.false_eq_true,
      hu64, hread, ne_eq, hi32, hrn, not_true_eq_false, hloop, hoffset, hwrite, hb.offset, hrn',
      hcheck, hnext, pure_eq]
  · exact (follows_emit _ _).trans (follows_moved _ _ _ _ _)
  · exact ((hk₄.mpr rfl).trans hk₂').trans hinv.failed
  · change w₄.cks.ready _
    rw [hcks₄]
    exact hb.ready
  · rw [hused, hrun.used, List.append_assoc]
  · exact hrange
  · change w₄.dfw = _
    rw [hdfw₄, hb.written, hwas, written_append, emitted_append]
  · rw [emitted_append]
    exact hb.checksum
  · rw [emitted_append]
    exact hb.filled
  · rw [emitted_append]
    exact hb.lt
  · have h1 := hrun.le_start
    have h2 := hrun.end_le
    change fs_info.totalblock.toNat - (b' + n) < _
    omega

end Passes

/-! ## The data section

At the end the walk has come to the end of the volume, and what is in the file is the stream of
all used blocks with its trailing checksum. -/

/-- The cursor a stream starts with, given what the checksum array held. -/
def start_cursor (img_opt : image_options) (a : Bytes img_opt.checksum_size.toNat) :
    Cursor (Bytes img_opt.checksum_size.toNat) := ⟨0, (digest_of img_opt).reset a⟩

/-- The stream of the given blocks of a source. -/
def data_section (block_size : ℕ) (img_opt : image_options)
    (a : Bytes img_opt.checksum_size.toNat) (src : List Byte) (idx : List ℕ) : List Byte :=
  stream (digest_of img_opt) img_opt.blocks_per_checksum.toNat (start_cursor img_opt a)
    (gather block_size src idx)

/-- The checksum array of `read_write_data_ptf` before it is set up. -/
def stale_checksum (host : Host) (img_opt : image_options) : Bytes img_opt.checksum_size.toNat :=
  ⟨host.junk .checksum img_opt.checksum_size.toNat, host.junk_length _ _⟩

theorem write_size_eq {block_size : ℕ} {img_opt : image_options} (hbs : 0 < block_size)
    (hg : 0 < img_opt.blocks_per_checksum.toNat)
    (hroom : write_buffer_size block_size img_opt < 2 ^ 31) :
    u32 (u32 (convert_blocks_to_bytes 0 (capacity block_size) block_size
        img_opt.blocks_per_checksum.toNat img_opt.checksum_size.toNat)
      + img_opt.checksum_size.toNat) = write_buffer_size block_size img_opt := by
  have hm : img_opt.checksum_size.toNat < 2 ^ 16 := img_opt.checksum_size.isLt
  have hcap : capacity block_size ≤ capacity block_size * block_size :=
    Nat.le_mul_of_pos_right _ hbs
  have hsplit : write_buffer_size block_size img_opt = capacity block_size * block_size
      + capacity block_size / img_opt.blocks_per_checksum.toNat * img_opt.checksum_size.toNat
      + img_opt.checksum_size.toNat := by
    rw [write_buffer_size]; ring
  have hinner : u32 (capacity block_size * block_size
      + capacity block_size / img_opt.blocks_per_checksum.toNat * img_opt.checksum_size.toNat)
      = capacity block_size * block_size
        + capacity block_size / img_opt.blocks_per_checksum.toNat * img_opt.checksum_size.toNat :=
    u32_of_lt (by omega)
  rw [convert_blocks_to_bytes_eq (by omega) (by omega) (by omega) hg hm, Nat.zero_add, Nat.zero_div,
    Nat.sub_zero, hinner, u32_of_lt (by omega), hsplit]

/-- The size of the stream of `n` blocks, with the digest of a group that is left open. -/
def stream_size (block_size : ℕ) (img_opt : image_options) (n : ℕ) : ℕ :=
  n * block_size + (n / img_opt.blocks_per_checksum.toNat
    + if n % img_opt.blocks_per_checksum.toNat = 0 then 0 else 1) * img_opt.checksum_size.toNat

/-- What is emitted for blocks that are there. -/
theorem emitted_length {block_size : ℕ} {img_opt : image_options}
    (hg : 0 < img_opt.blocks_per_checksum.toNat) (a : Bytes img_opt.checksum_size.toNat)
    {src : List Byte} {idx : List ℕ} (hidx : ∀ x ∈ idx, (x + 1) * block_size ≤ src.length) :
    (emitted block_size img_opt (start_cursor img_opt a) src idx).1.length
      = idx.length * block_size
        + idx.length / img_opt.blocks_per_checksum.toNat * img_opt.checksum_size.toNat := by
  rw [emitted, emit_length (digest_of img_opt) _ hg (n := block_size) (fun a => a.2) hg
    (fun x hx => length_of_mem_gather hidx hx), gather_length]
  simp only [start_cursor, Nat.zero_add]

/-- The stream of a part of the blocks is no longer than that of all. -/
theorem emitted_length_le_stream_size {block_size : ℕ} {img_opt : image_options}
    (hg : 0 < img_opt.blocks_per_checksum.toNat) (a : Bytes img_opt.checksum_size.toNat)
    {src : List Byte} {idx all : List ℕ} (hidx : ∀ x ∈ idx, (x + 1) * block_size ≤ src.length)
    (hall : idx <+: all) :
    (emitted block_size img_opt (start_cursor img_opt a) src idx).1.length
      ≤ stream_size block_size img_opt all.length := by
  rw [emitted_length hg a hidx, stream_size]
  have hle := hall.length_le
  refine Nat.add_le_add (Nat.mul_le_mul_right _ hle) (Nat.mul_le_mul_right _ ?_)
  exact (Nat.div_le_div_right hle).trans (Nat.le_add_right _ _)

/-- The data section of blocks that are there. -/
theorem data_section_length {block_size : ℕ} {img_opt : image_options}
    (hg : 0 < img_opt.blocks_per_checksum.toNat) (a : Bytes img_opt.checksum_size.toNat)
    {src : List Byte} {idx : List ℕ} (hidx : ∀ x ∈ idx, (x + 1) * block_size ≤ src.length) :
    (data_section block_size img_opt a src idx).length
      = stream_size block_size img_opt idx.length := by
  have hlen := emitted_length hg a hidx
  have hfilled : (emit (digest_of img_opt) img_opt.blocks_per_checksum.toNat (start_cursor img_opt a)
      (gather block_size src idx)).2.filled = idx.length % img_opt.blocks_per_checksum.toNat := by
    rw [emit_filled _ _ hg hg, gather_length]
    simp only [start_cursor, Nat.zero_add]
  rw [emitted] at hlen
  rw [data_section, stream, List.length_append, hlen, trailer, hfilled, stream_size]
  split_ifs with h
  · rw [List.length_nil, Nat.add_zero, Nat.add_zero]
  · have hdigest : ∀ c : Cursor (Bytes img_opt.checksum_size.toNat),
        ((digest_of img_opt).digest c.sum).length = img_opt.checksum_size.toNat := fun c => c.sum.2
    rw [hdigest]
    ring

/-- Before the first pass nothing is emitted, and the buffers hold what was on the heap. -/
theorem ptf_inv_start {block_size : ℕ} {fs_info : file_system_info} {img_opt : image_options}
    (hg : 0 < img_opt.blocks_per_checksum.toNat) (host : Host) (bm : bitmap)
    (a : Bytes img_opt.checksum_size.toNat) {w : World}
    (hready : w.cks.ready img_opt.checksum_mode.toNat) :
    ptf_inv block_size fs_info img_opt bm w (start_cursor img_opt a)
      ⟨0, host.junk .read_buffer (capacity block_size * block_size),
        host.junk .write_buffer (write_buffer_size block_size img_opt),
        ((digest_of img_opt).reset a).1, 0⟩ w :=
  ⟨Nat.zero_le _, host.junk_length _ _, host.junk_length _ _, follows.refl _, rfl, hready,
    [], rfl, by simp, (written_nil _).symm, rfl, rfl, hg⟩

section Emitted

variable {block_size : ℕ} {fs_info : file_system_info} {img_opt : image_options} {bm : bitmap}
  {a : Bytes img_opt.checksum_size.toNat} {v : ptf_vars} {w₀ w : World}

/-- The checksum array keeps its size. -/
theorem ptf_emitted.checksum_length
    (h : ptf_emitted block_size fs_info img_opt bm w₀ (start_cursor img_opt a) v w) :
    v.checksum.length = img_opt.checksum_size.toNat := by
  rw [h.checksum]
  exact (emitted block_size img_opt (start_cursor img_opt a) w₀.dfr.data
    (used_from bm fs_info.totalblock.toNat 0)).2.sum.2

/-- **What is still to be written behind the last pass**: nothing if the last group is closed, and
else its checksum, which is in the array. -/
theorem ptf_emitted.data_section_eq
    (h : ptf_emitted block_size fs_info img_opt bm w₀ (start_cursor img_opt a) v w) :
    data_section block_size img_opt a w₀.dfr.data (used_from bm fs_info.totalblock.toNat 0)
      = (emitted block_size img_opt (start_cursor img_opt a) w₀.dfr.data
          (used_from bm fs_info.totalblock.toNat 0)).1
        ++ if v.blocks_in_cs = 0 then [] else v.checksum := by
  rw [data_section, stream, trailer, h.filled, h.checksum]
  rfl

end Emitted

/-- **`read_write_data_ptf` returns**, and with `TRUE` exactly the data section has been written.
Without, no more than that has. The invariant says that the file holds the stream up to the
cursor; at the end of the volume that is all blocks, and the trailing checksum is still to be
written. -/
theorem read_write_data_ptf_ok {block_size : ℕ} (hbs : 0 < block_size)
    (hbs' : block_size ≤ 2 ^ 30) {fs_info : file_system_info}
    (htot : fs_info.totalblock.toNat * block_size < 2 ^ 63) {img_opt : image_options}
    (hfits : checksum_fits img_opt) (hg : 0 < img_opt.blocks_per_checksum.toNat)
    (hroom : write_buffer_size block_size img_opt < 2 ^ 31) (host : Host) (bm : bitmap)
    (w : World) :
    ∃ ok w', read_write_data_ptf block_size fs_info img_opt host bm w = .ok (ok, w') ∧
      follows w w' ∧
      (ok = true → w'.io_failed = w.io_failed ∧
        (∀ x ∈ used_from bm fs_info.totalblock.toNat 0,
          (x + 1) * block_size ≤ w.dfr.data.length) ∧
        w'.dfw = w.dfw.written (data_section block_size img_opt (stale_checksum host img_opt)
          w.dfr.data (used_from bm fs_info.totalblock.toNat 0))) ∧
      (ok = false → ¬ ((∀ size, host.malloc size = true) ∧ smooth block_size fs_info bm w)) ∧
      w'.dfw.pos ≤ w.dfw.pos
        + stream_size block_size img_opt (used_from bm fs_info.totalblock.toNat 0).length := by
  have hmul := capacity_mul_le block_size
  have hmega : DEFAULT_BUFFER_SIZE = 2 ^ 20 := rfl
  have hrsize : u32 (capacity block_size * block_size) = capacity block_size * block_size :=
    u32_of_lt (by omega)
  have hwsize := write_size_eq hbs hg hroom
  have hseek := seek_dfr_zero w
  -- without a buffer nothing is read or written
  by_cases hmem : (host.malloc (capacity block_size * block_size)
      && host.malloc (write_buffer_size block_size img_opt)) = true
  swap
  · refine ⟨false, w, ?_, follows.refl w, by simp, fun _ h => hmem (by simp [h.1]),
      Nat.le_add_right _ _⟩
    simp only [read_write_data_ptf, buffer_capacity_of_pos hbs, ok_bind, hrsize, hwsize, hmem,
      Bool.not_false, if_true, pure_eq]
  obtain ⟨lib, hinit, hready⟩ := init_checksum_ok w.cks hfits (stale_checksum host img_opt)
  set a := stale_checksum host img_opt with ha
  have hinit' : init_checksum w.cks img_opt.checksum_mode.toNat
      (host.junk .checksum img_opt.checksum_size.toNat)
      = .ok (((digest_of img_opt).reset a).1, lib) := hinit
  set w₀ : World := { w with dfr := { w.dfr with pos := 0 }, cks := lib } with hw₀
  have hf₀ : follows w w₀ := follows_moved _ _ _ _ _
  have hsmooth : smooth block_size fs_info bm w → smooth block_size fs_info bm w₀ := fun h =>
    ⟨h.sched, h.source, h.target⟩
  have hinv : ptf_inv block_size fs_info img_opt bm w₀ (start_cursor img_opt a) _ w₀ :=
    ptf_inv_start hg host bm a hready
  obtain ⟨r, w₁, hpasses, hends⟩ := passes_spec (ptf_pass block_size fs_info img_opt bm)
    (fun v _ => fs_info.totalblock.toNat - v.block_id)
    (fun v w' h => ptf_pass_spec hbs hbs' htot hfits hroom h) (fs_info.totalblock.toNat + 1) _ _
    (Nat.lt_succ_self _) hinv
  rw [hw₀] at hpasses
  cases r with
  | none =>
      obtain ⟨idx, hidx, hthere, hpos⟩ := hends.written
      refine ⟨false, w₁, ?_, hf₀.trans hends.follows, by simp, fun _ h =>
        hends.disturbed (hsmooth h.2), hpos.trans (Nat.add_le_add_left
          (emitted_length_le_stream_size hg a hthere hidx) _)⟩
      simp only [read_write_data_ptf, buffer_capacity_of_pos hbs, ok_bind, hrsize, hwsize, hmem,
        Bool.not_true, Bool.false_eq_true, if_false, hseek, hinit', hpasses, pure_eq]
  | some v =>
      have hsection := data_section_length hg a hends.readable
      have hwhole := hends.data_section_eq
      by_cases hopen : v.blocks_in_cs = 0
      · -- the last group is closed
        rw [if_pos hopen, List.append_nil] at hwhole
        have hdata : w₁.dfw = w.dfw.written (data_section block_size img_opt a w₀.dfr.data
            (used_from bm fs_info.totalblock.toNat 0)) := by
          rw [hends.target, hwhole]
        refine ⟨true, w₁, ?_, hf₀.trans hends.follows,
          fun _ => ⟨hends.failed, hends.readable, hdata⟩, by simp,
          by rw [hdata, written_pos, hsection]⟩
        · simp only [read_write_data_ptf, buffer_capacity_of_pos hbs, ok_bind, hrsize, hwsize, hmem,
            Bool.not_true, Bool.false_eq_true, if_false, hseek, hinit', hpasses, hopen, lt_irrefl,
            gt_iff_lt, pure_eq]
      · -- the last group gets its checksum
        rw [if_neg hopen] at hwhole
        have hclen := hends.checksum_length
        have hm : img_opt.checksum_size.toNat < 2 ^ 16 := img_opt.checksum_size.isLt
        obtain ⟨e, he, r', w₂, hwrite, hf₂, hdfw₂, -, -, -, -, hr', hk₂, hfull⟩ :=
          write_io_all_follows w₁ v.checksum (n := img_opt.checksum_size.toNat)
            (by omega) (by omega)
        refine ⟨decide (e = img_opt.checksum_size.toNat), w₂, ?_,
          (hf₀.trans hends.follows).trans hf₂, fun h => ⟨?_, hends.readable, ?_⟩, fun h hs => ?_, ?_⟩
        · simp only [read_write_data_ptf, buffer_capacity_of_pos hbs, ok_bind, hrsize, hwsize, hmem,
            Bool.not_true, Bool.false_eq_true, if_false, hseek, hinit', hpasses,
            show v.blocks_in_cs > 0 by omega, if_true, hwrite, hr', pure_eq]
        · exact (hk₂.mpr (of_decide_eq_true h)).trans hends.failed
        · rw [hdfw₂, of_decide_eq_true h, ← hclen, List.take_length, hends.target, written_append,
            ← hwhole]
        · refine of_decide_eq_false h (hfull ?_ (room_of_growable ?_ _))
          · exact (hf₀.trans hends.follows).sched_nil hs.2.sched
          · exact (hf₀.trans hends.follows).dfw_growable.trans hs.2.target
        · rw [hwhole, List.length_append, hclen] at hsection
          rw [hdfw₂, written_pos, hends.target, written_pos, List.length_take, ← hsection]
          change w.dfw.pos + _ + _ ≤ _
          omega

end SysbakAdmin.ImageWriter

/-
The buffers and the self-check of `read_write_data_ptf`, in every pass it can come to.

`blocks_in_cs` lives across passes of varying length, so how many checksums fall into one
pass depends on all the passes before it. The invariant is that it is the number of blocks
copied so far modulo `blocks_per_checksum` (`writer_inv`). With groups as long as the
buffer a pass then closes at most one of them, which is what `write_size` has room for
besides the spare checksum of the allocation.

Nothing is asked of the volume here: neither that its size in bytes fits an `off_t`, nor
that its blocks can be read. `ptf_pass_spec` needs both, because it says what the target
holds; the buffers do not.

`ptf_reached` are the states at the head of the loop, with the blocks copied so far. The
invariant holds in the first and is kept by every pass that goes on (`ptf_pass_bounds`), so
it holds in all of them (`ptf_reached.inv`): a pass copies its run block by block, each block
counts one up, and a group that fills takes the count back to 0 at the moment its checksum
is written. The self-check of the loop compares exactly these two numbers, and so never
fires.
-/
import SysbakAdmin.RoundTrip

set_option autoImplicit false

namespace SysbakAdmin.WriterBounds

open LittleEndian ByteStore CInt CMemory DoWhile Transfer FileIo GroupStream PackedRecord
open Bitmap Checksum Io Share Backup ImageWriter RoundTrip

section Writer

variable (block_size : ℕ) (fs_info : file_system_info) (img_opt : image_options) (host : Host)
  (bm : bitmap)

/-! ## The passes a run can come to

A state is reached with the number of blocks that the passes before it have copied; the number
is not a variable of the code. -/

/-- The states at the head of the copy loop of `read_write_data_ptf`, with the number of
blocks copied so far. The first is the one behind `init_checksum`; the buffers hold what
`malloc` left there. -/
inductive ptf_reached (w : World) : ℕ → ptf_vars → World → Prop
  | start {checksum : List Byte} {cks : checksum_lib}
      (hmalloc : (host.malloc (u32 (capacity block_size * block_size)) &&
        host.malloc (u32 (u32 (convert_blocks_to_bytes 0 (capacity block_size) block_size
          img_opt.blocks_per_checksum.toNat img_opt.checksum_size.toNat)
          + img_opt.checksum_size.toNat))) = true)
      (hseek : (seek_dfr w 0).1 = true)
      (hinit : init_checksum w.cks img_opt.checksum_mode.toNat
        (host.junk .checksum img_opt.checksum_size.toNat) = .ok (checksum, cks)) :
      ptf_reached w 0
        ⟨0, host.junk .read_buffer (u32 (capacity block_size * block_size)),
          host.junk .write_buffer (u32 (u32 (convert_blocks_to_bytes 0 (capacity block_size)
            block_size img_opt.blocks_per_checksum.toNat img_opt.checksum_size.toNat)
            + img_opt.checksum_size.toNat)), checksum, 0⟩
        { (seek_dfr w 0).2 with cks := cks }
  | pass {copied : ℕ} {v v' : ptf_vars} {w₁ w₂ : World} {n b' : ℕ} (h : ptf_reached w copied v w₁)
      (hsize : get_read_blocks_size block_size fs_info v.block_id bm = .ok (n, b'))
      (hpass : ptf_pass block_size fs_info img_opt bm v w₁ = .ok (.next v', w₂)) :
      ptf_reached w (copied + n) v' w₂

/-- The block loop of a pass, stopped behind its first `j` blocks. -/
def first_blocks (v : ptf_vars) (w : World) (read_buffer : List Byte) (j : ℕ) :
    Run ptf_block_vars :=
  ptf_blocks block_size img_opt read_buffer j 0
    ⟨v.write_buffer, 0, v.checksum, v.blocks_in_cs, 0, w.cks⟩

/-- What the writer relies on at the head of its loop. The allocations are made once, so this has
to hold for passes of any length. -/
structure writer_sound (copied : ℕ) (v : ptf_vars) (w : World) : Prop where
  /-- the open group -/
  count : v.blocks_in_cs = copied % img_opt.blocks_per_checksum.toNat
  /-- the two allocations -/
  read_buffer : v.read_buffer.length = capacity block_size * block_size
  write_buffer : v.write_buffer.length
    = convert_blocks_to_bytes 0 (capacity block_size) block_size
        img_opt.blocks_per_checksum.toNat img_opt.checksum_size.toNat
      + img_opt.checksum_size.toNat
  /-- whatever was read: behind every block of the pass all copies were inside the two
  buffers, at most one checksum was put in, and the count is right -/
  blocks : ∀ n b', get_read_blocks_size block_size fs_info v.block_id bm = .ok (n, b') →
    ∀ read_buffer : List Byte, read_buffer.length = v.read_buffer.length → ∀ j ≤ n,
      ∃ b, first_blocks block_size img_opt v w read_buffer j = .ok b ∧
        j * block_size ≤ read_buffer.length ∧ b.cs_added ≤ 1 ∧
        b.write_offset = ((j * block_size + b.cs_added * img_opt.checksum_size.toNat : ℕ) : ℤ) ∧
        j * block_size + b.cs_added * img_opt.checksum_size.toNat ≤ v.write_buffer.length ∧
        b.write_buffer.length = v.write_buffer.length ∧
        b.blocks_in_cs = (copied + j) % img_opt.blocks_per_checksum.toNat ∧
        toInt32 (((j * block_size : ℕ) : ℤ) + b.cs_added * img_opt.checksum_size.toNat)
          = b.write_offset
  /-- the pass returns, and fails only if a seek or a transfer failed: never because of the
  test behind the progress signal -/
  returns : ∃ p w', ptf_pass block_size fs_info img_opt bm v w = .ok (p, w') ∧
    (p = .fail → w.io_failed < w'.io_failed)

end Writer

/-! ## The block loop -/

section Loop

variable {block_size : ℕ} {img_opt : image_options}

/-- One block counts up the open group, or closes it. The register is not looked at; how many
blocks the group has is all that decides. -/
theorem ptf_block_counts {read_buffer : List Byte} {i : ℕ} {v v' : ptf_block_vars}
    (hlt : v.blocks_in_cs < img_opt.blocks_per_checksum.toNat)
    (h : ptf_block block_size img_opt read_buffer i v = .ok v') :
    v'.cs_added * img_opt.blocks_per_checksum.toNat + v'.blocks_in_cs
        = v.cs_added * img_opt.blocks_per_checksum.toNat + v.blocks_in_cs + 1 ∧
      v'.blocks_in_cs < img_opt.blocks_per_checksum.toNat := by
  have hg : img_opt.blocks_per_checksum.toNat < 2 ^ 32 := img_opt.blocks_per_checksum.isLt
  have hpos : img_opt.blocks_per_checksum.toNat > 0 := by omega
  have hcount : u32 (v.blocks_in_cs + 1) = v.blocks_in_cs + 1 := u32_of_lt (by omega)
  rw [ptf_block] at h
  obtain ⟨block, -, h⟩ := bind_eq_ok.mp h
  obtain ⟨write_buffer, -, h⟩ := bind_eq_ok.mp h
  obtain ⟨checksum, -, h⟩ := bind_eq_ok.mp h
  simp only [hpos, if_true, true_and, hcount] at h
  by_cases hfull : v.blocks_in_cs + 1 = img_opt.blocks_per_checksum.toNat
  · rw [if_pos hfull] at h
    obtain ⟨write_buffer', -, h⟩ := bind_eq_ok.mp h
    obtain ⟨r, -, h⟩ := bind_eq_ok.mp h
    obtain rfl := Except.ok.inj h
    refine ⟨?_, hpos⟩
    dsimp only
    rw [Nat.add_zero, Nat.succ_mul, Nat.add_assoc, hfull]
  · rw [if_neg hfull] at h
    obtain rfl := Except.ok.inj h
    refine ⟨?_, ?_⟩
    · dsimp only
      omega
    · dsimp only
      omega

/-- So several blocks count up by their number, and close the groups they fill. -/
theorem ptf_blocks_counts (read_buffer : List Byte) (left i : ℕ) {v v' : ptf_block_vars}
    (hlt : v.blocks_in_cs < img_opt.blocks_per_checksum.toNat)
    (h : ptf_blocks block_size img_opt read_buffer left i v = .ok v') :
    v'.cs_added * img_opt.blocks_per_checksum.toNat + v'.blocks_in_cs
        = v.cs_added * img_opt.blocks_per_checksum.toNat + v.blocks_in_cs + left ∧
      v'.blocks_in_cs < img_opt.blocks_per_checksum.toNat := by
  induction left generalizing i v with
  | zero =>
      obtain rfl := Except.ok.inj h
      exact ⟨rfl, hlt⟩
  | succ left ih =>
      rw [ptf_blocks] at h
      obtain ⟨v₁, hstep, hrest⟩ := bind_eq_ok.mp h
      obtain ⟨hsum₁, hlt₁⟩ := ptf_block_counts hlt hstep
      obtain ⟨hsum, hlt'⟩ := ih (i + 1) hlt₁ hrest
      refine ⟨?_, hlt'⟩
      omega

end Loop

/-! ## The invariant -/

section Invariant

variable (block_size : ℕ) (fs_info : file_system_info) (img_opt : image_options) (host : Host)
  (bm : bitmap)

/-- What holds at the head of the loop, `copied` blocks into a run. It ties the count of the open
group to the number of blocks copied, and leaves the contents of all buffers open. -/
structure writer_inv (copied : ℕ) (v : ptf_vars) (w : World) : Prop where
  fits : checksum_fits img_opt
  block_id : v.block_id ≤ fs_info.totalblock.toNat
  read_buffer : v.read_buffer.length = capacity block_size * block_size
  write_buffer : v.write_buffer.length = write_buffer_size block_size img_opt
  checksum : v.checksum.length = img_opt.checksum_size.toNat
  count : v.blocks_in_cs = copied % img_opt.blocks_per_checksum.toNat
  ready : w.cks.ready img_opt.checksum_mode.toNat

variable {block_size fs_info img_opt host bm} {copied : ℕ} {v : ptf_vars} {w : World}
  (hbs : 0 < block_size) (hbs' : block_size ≤ 2 ^ 30)
  (hgroup : img_opt.blocks_per_checksum.toNat = capacity block_size)
include hbs hbs' hgroup

omit hbs in
/-- The write buffer with groups as long as the read buffer: two checksums at its end. -/
theorem write_buffer_size_group : write_buffer_size block_size img_opt
    = capacity block_size * block_size + 2 * img_opt.checksum_size.toNat ∧
    write_buffer_size block_size img_opt < 2 ^ 31 := by
  have hm : img_opt.checksum_size.toNat < 2 ^ 16 := img_opt.checksum_size.isLt
  have hmul := capacity_mul_le block_size
  have hmega : DEFAULT_BUFFER_SIZE = 2 ^ 20 := rfl
  have hsize : write_buffer_size block_size img_opt
      = capacity block_size * block_size + 2 * img_opt.checksum_size.toNat := by
    rw [write_buffer_size, hgroup, Nat.div_self (capacity_pos _)]
  exact ⟨hsize, by omega⟩

/-- **The block loop of a pass stays inside both buffers**, at any of its blocks: the group that
is open when it starts is closed at most once. With `capacity` blocks to a group, a pass of at
most `capacity` blocks cannot come to the end of a second one; so one checksum is what the write
buffer needs room for, and it has room for one more. -/
theorem first_blocks_bounds (hinv : writer_inv block_size fs_info img_opt copied v w)
    {read_buffer : List Byte} (hlen : read_buffer.length = v.read_buffer.length) {j : ℕ}
    (hj : j ≤ capacity block_size) :
    ∃ b, first_blocks block_size img_opt v w read_buffer j = .ok b ∧
      j * block_size ≤ read_buffer.length ∧ b.cs_added ≤ 1 ∧
      b.write_offset = ((j * block_size + b.cs_added * img_opt.checksum_size.toNat : ℕ) : ℤ) ∧
      j * block_size + b.cs_added * img_opt.checksum_size.toNat ≤ v.write_buffer.length ∧
      b.write_buffer.length = v.write_buffer.length ∧
      b.blocks_in_cs = (copied + j) % img_opt.blocks_per_checksum.toNat ∧
      toInt32 (((j * block_size : ℕ) : ℤ) + b.cs_added * img_opt.checksum_size.toNat)
        = b.write_offset ∧
      b.checksum.length = img_opt.checksum_size.toNat ∧
      b.cks.ready img_opt.checksum_mode.toNat := by
  obtain ⟨hsize, hroom⟩ := write_buffer_size_group hbs' hgroup
  have hg : 0 < img_opt.blocks_per_checksum.toNat := hgroup ▸ capacity_pos _
  have hlt : copied % img_opt.blocks_per_checksum.toNat < img_opt.blocks_per_checksum.toNat :=
    Nat.mod_lt _ hg
  have hread : j * block_size ≤ read_buffer.length := by
    rw [hlen, hinv.read_buffer]
    exact Nat.mul_le_mul_right _ hj
  -- the cursor of the stream that the blocks go out to
  set c : Cursor (Bytes img_opt.checksum_size.toNat) :=
    ⟨v.blocks_in_cs, ⟨v.checksum, hinv.checksum⟩⟩ with hc
  have hclt : c.filled < img_opt.blocks_per_checksum.toNat := by
    rw [hc]
    dsimp only
    rw [hinv.count]
    exact hlt
  have hblocks : ∀ x ∈ gather block_size read_buffer (List.range' 0 j),
      x.length = block_size := by
    intro x hx
    apply length_of_mem_gather _ hx
    intro k hk
    have hkj := (List.mem_range'_1.mp hk).2
    exact le_trans (Nat.mul_le_mul_right _ (by omega)) hread
  have hemit := emit_length (digest_of img_opt) _ hg (m := img_opt.checksum_size.toNat)
    (fun a => a.2) hclt hblocks
  rw [gather_length, List.length_range'] at hemit
  have hquot : (c.filled + j) / img_opt.blocks_per_checksum.toNat ≤ 1 := by
    apply Nat.le_of_lt_succ
    rw [Nat.div_lt_iff_lt_mul hg]
    omega
  have hfit : (emit (digest_of img_opt) img_opt.blocks_per_checksum.toNat c
      (gather block_size read_buffer (List.range' 0 j))).1.length
        ≤ write_buffer_size block_size img_opt := by
    have h1 := Nat.mul_le_mul_right block_size hj
    have h2 := Nat.mul_le_mul_right img_opt.checksum_size.toNat hquot
    rw [hemit, hsize]
    omega
  have hstart : block_inv img_opt ⟨v.write_buffer, 0, v.checksum, v.blocks_in_cs, 0, w.cks⟩ c [] :=
    ⟨rfl, by simp, rfl, rfl, hclt, hinv.ready⟩
  obtain ⟨b, hrun, hb, hblen, -⟩ := ptf_blocks_spec hbs hinv.fits read_buffer j 0 _ c [] hstart
    (by rw [Nat.zero_add]; exact hread) (by rw [List.nil_append, hinv.write_buffer]; exact hfit)
    (by rw [hinv.write_buffer]; exact hroom)
  obtain ⟨hsum, hblt⟩ := ptf_blocks_counts read_buffer j 0 hclt hrun
  dsimp only at hsum
  rw [Nat.zero_mul, Nat.zero_add] at hsum
  -- the groups that were closed are those the count went round
  have hadded : b.cs_added = (c.filled + j) / img_opt.blocks_per_checksum.toNat := by
    rw [Nat.div_eq_of_lt_le]
    · rw [← hsum]
      omega
    · rw [← hsum, Nat.succ_mul]
      omega
  have hcount : b.blocks_in_cs = (copied + j) % img_opt.blocks_per_checksum.toNat := by
    have hmod : (b.cs_added * img_opt.blocks_per_checksum.toNat + b.blocks_in_cs)
        % img_opt.blocks_per_checksum.toNat = b.blocks_in_cs := by
      rw [Nat.mul_comm, Nat.mul_add_mod, Nat.mod_eq_of_lt hblt]
    rw [← hmod, hsum, hinv.count, Nat.mod_add_mod]
  have hoffset : b.write_offset
      = ((j * block_size + b.cs_added * img_opt.checksum_size.toNat : ℕ) : ℤ) := by
    rw [hb.offset, List.nil_append, hemit, hadded]
  have hwithin : j * block_size + b.cs_added * img_opt.checksum_size.toNat
      ≤ v.write_buffer.length := by
    rw [hadded, ← hemit, hinv.write_buffer]
    exact hfit
  refine ⟨b, hrun, hread, by omega, hoffset, hwithin, hblen, hcount, ?_, ?_, hb.ready⟩
  · -- both sides of the test behind the progress signal are the bytes of the pass
    have hsum : ((j * block_size : ℕ) : ℤ) + b.cs_added * img_opt.checksum_size.toNat
        = ((j * block_size + b.cs_added * img_opt.checksum_size.toNat : ℕ) : ℤ) := by
      push_cast
      rfl
    rw [hinv.write_buffer] at hwithin
    rw [hsum, hoffset, toInt32_of_range (by omega) (by omega)]
  · rw [hb.checksum]
    exact (emit (digest_of img_opt) img_opt.blocks_per_checksum.toNat c
      (gather block_size read_buffer (List.range' 0 j))).2.sum.2

variable (bm) in
/-- **One pass**: it returns, it fails only with a seek or a transfer, and when it goes on the
invariant holds with the blocks of its run counted. The block loop hands on how many blocks are in
the open group, and the number of blocks copied so far modulo the group is that number again,
since both go up by one with each block and the first goes back to 0 where the second does. -/
theorem ptf_pass_bounds (hinv : writer_inv block_size fs_info img_opt copied v w) :
    ∃ n b' p w', get_read_blocks_size block_size fs_info v.block_id bm = .ok (n, b') ∧
      n ≤ capacity block_size ∧ ptf_pass block_size fs_info img_opt bm v w = .ok (p, w') ∧
      (p = .fail → w.io_failed < w'.io_failed) ∧ (∀ v', p = .done v' → v' = v ∧ w' = w) ∧
      ∀ v', p = .next v' → writer_inv block_size fs_info img_opt (copied + n) v' w' ∧
        v.block_id < v'.block_id := by
  obtain ⟨hsize, hroom⟩ := write_buffer_size_group hbs' hgroup
  obtain ⟨n, b', hnext, ⟨rfl, -⟩ | hrun⟩ := get_read_blocks_size_spec hbs fs_info bm hinv.block_id
  · refine ⟨0, b', .done v, w, hnext, Nat.zero_le _, ?_, by simp,
      fun v' h => ⟨(Pass.done.inj h).symm, rfl⟩, by simp⟩
    simp only [ptf_pass, hnext, ok_bind, if_true, pure_eq]
  have hn0 : ¬ n = 0 := by have := hrun.pos; omega
  have hcount := hrun.count_lt hbs'
  have hu64 : u64 (n * block_size) = n * block_size := u64_of_lt (by omega)
  have hi32 : i32 (n * block_size) = ((n * block_size : ℕ) : ℤ) := i32_of_lt hcount
  have hcap : n * block_size ≤ v.read_buffer.length := by
    rw [hinv.read_buffer]
    exact Nat.mul_le_mul_right _ hrun.le_capacity
  -- wherever the volume's size in bytes takes the seek to, it goes there or it fails
  rcases seek_dfr_cases w (b' * block_size) with hseek | hseek
  swap
  · refine ⟨n, b', .fail, { w with io_failed := w.io_failed + 1 }, hnext, hrun.le_capacity, ?_,
      fun _ => Nat.lt_succ_self _, by simp, by simp⟩
    simp only [ptf_pass, hnext, ok_bind, hn0, if_false, hseek, Bool.not_false, if_true, pure_eq]
  set w₁ : World := { w with dfr := { w.dfr with pos := (off_t (b' * block_size)).toNat } } with hw₁
  obtain ⟨e, he, r, w₂, hread, hf₂, hlen, -, -, hcks₂, -, -, hr, hk₂, -⟩ :=
    read_io_all_follows w₁ v.read_buffer hcount hcap
  by_cases he' : e = n * block_size
  swap
  · -- a short read
    refine ⟨n, b', .fail, w₂, hnext, hrun.le_capacity, ?_, fun _ => ?_, by simp, by simp⟩
    · simp only [ptf_pass, hnext, ok_bind, hn0, if_false, hseek, Bool.not_true,
        Bool.false_eq_true, hu64, hread, ne_eq, hi32, hr, he', if_true, not_false_eq_true,
        pure_eq]
    · exact lt_of_le_of_ne hf₂.failed (fun h => he' (hk₂.mp h.symm))
  have hrn : r = ((n * block_size : ℕ) : ℤ) := hr.mpr he'
  set buffer := overlay 0 v.read_buffer 0 (slice w₁.dfr.data w₁.dfr.pos e) with hbuffer
  have hbuf : buffer.length = v.read_buffer.length := by
    rw [hbuffer, overlay_length, hlen]
    omega
  have hinv₂ : writer_inv block_size fs_info img_opt copied v w₂ :=
    { hinv with ready := by rw [hcks₂]; exact hinv.ready }
  obtain ⟨b, hloop, -, -, hoff, hfit, hblen, hbcount, hcheck, hbsum, hbready⟩ :=
    first_blocks_bounds hbs hbs' hgroup hinv₂ hbuf hrun.le_capacity
  rw [first_blocks] at hloop
  set out := n * block_size + b.cs_added * img_opt.checksum_size.toNat with hout
  have houtlen : out < 2 ^ 31 := by
    rw [hinv.write_buffer] at hfit
    omega
  have hoffset : u64OfInt (out : ℤ) = out := u64OfInt_natCast (by omega)
  obtain ⟨e₄, he₄, r', w₄, hwrite, hf₄, -, -, hcks₄, -, -, hr', hk₄, -⟩ :=
    write_io_all_follows { w₂ with cks := b.cks } b.write_buffer houtlen (by rw [hblen]; exact hfit)
  have hk₂' : w₂.io_failed = w.io_failed := hk₂.mpr he'
  by_cases he₄' : e₄ = out
  swap
  · -- a short write
    refine ⟨n, b', .fail, w₄, hnext, hrun.le_capacity, ?_, fun _ => ?_, by simp, by simp⟩
    · simp only [ptf_pass, hnext, ok_bind, hn0, if_false, hseek, Bool.not_true,
        Bool.false_eq_true, hu64, hread, ne_eq, hi32, hrn, not_true_eq_false, hloop, hoffset,
        hwrite, hoff, hr', he₄', if_true, not_false_eq_true, pure_eq]
    · have hle : w₂.io_failed ≤ w₄.io_failed := hf₄.failed
      rw [← hk₂']
      exact lt_of_le_of_ne hle (fun h => he₄' (hk₄.mp h.symm))
  have hrn' : r' = (out : ℤ) := hr'.mpr he₄'
  rw [hoff] at hcheck
  have hend := hrun.end_le
  have htotal := fs_info.totalblock.isLt
  have hid : u64 (b' + n) = b' + n := u64_of_lt (by omega)
  refine ⟨n, b', .next ⟨b' + n, buffer, b.write_buffer, b.checksum, b.blocks_in_cs⟩,
    emit_progress { w₄ with copied_count := u64 (w₄.copied_count + n) } fs_info
      (u64 (w₄.copied_count + n)), hnext, hrun.le_capacity, ?_, by simp, by simp, ?_⟩
  · simp only [ptf_pass, hnext, ok_bind, hn0, if_false, hseek, Bool.not_true,
      Bool.false_eq_true, hu64, hread, ne_eq, hi32, hrn, not_true_eq_false, hloop, hoffset,
      hwrite, hoff, hrn', hcheck, hid, pure_eq]
  · intro v' hv'
    obtain rfl := Pass.next.inj hv'
    refine ⟨⟨hinv.fits, hend, hbuf.trans hinv.read_buffer, hblen.trans hinv.write_buffer,
      hbsum, hbcount, ?_⟩, ?_⟩
    · change w₄.cks.ready _
      rw [hcks₄]
      exact hbready
    · have h1 := hrun.pos
      have h2 := hrun.le_start
      dsimp only
      omega

/-! ## Every pass -/

/-- **The invariant holds in every pass a run can come to.** By induction on the passes before it:
the loop starts with nothing copied and no group open, and a pass that goes on keeps the invariant
(`ptf_pass_bounds`). -/
theorem ptf_reached.inv {w₀ : World}
    (h : ptf_reached block_size fs_info img_opt host bm w₀ copied v w) :
    writer_inv block_size fs_info img_opt copied v w := by
  obtain ⟨hsize, hroom⟩ := write_buffer_size_group hbs' hgroup
  have hg : 0 < img_opt.blocks_per_checksum.toNat := hgroup ▸ capacity_pos _
  have hmul := capacity_mul_le block_size
  have hmega : DEFAULT_BUFFER_SIZE = 2 ^ 20 := rfl
  induction h with
  | start _ _ hinit =>
      -- an array without room for a CRC does not get past `init_checksum`
      have hfits : checksum_fits img_opt := by
        intro hmode
        by_contra hshort
        rw [init_checksum_short w₀.cks hmode (by rw [junk_length]; omega)] at hinit
        cases hinit
      obtain ⟨lib, hstart, hready⟩ := init_checksum_ok w₀.cks hfits (stale_checksum host img_opt)
      have heq := Prod.mk.inj (Except.ok.inj (hinit.symm.trans hstart))
      refine ⟨hfits, Nat.zero_le _, ?_, ?_, ?_, (Nat.zero_mod _).symm, ?_⟩
      · dsimp only
        rw [junk_length, u32_of_lt (by omega)]
      · dsimp only
        rw [junk_length, write_size_eq hbs hg hroom]
      · dsimp only
        rw [heq.1]
        exact ((digest_of img_opt).reset (stale_checksum host img_opt)).2
      · rw [heq.2]
        exact hready
  | pass hreach hnext hpass ih =>
      obtain ⟨n, b', p, w', hnext', -, hpass', -, -, hinv⟩ :=
        ptf_pass_bounds bm hbs hbs' hgroup ih
      have hn := Prod.mk.inj (Except.ok.inj (hnext.symm.trans hnext'))
      have hp := Prod.mk.inj (Except.ok.inj (hpass.symm.trans hpass'))
      rw [hn.1, hp.2]
      exact (hinv _ hp.1.symm).1

/-- **The writer's buffers and self-check are sound** in every pass, for groups as long as the
read buffer. Each part of it is read off the invariant at the head of the pass, so nothing is
asked of how the run came there, nor of the volume: what is free and what is marked, and what
reads and writes gave. -/
theorem ptf_reached_sound {w₀ : World}
    (h : ptf_reached block_size fs_info img_opt host bm w₀ copied v w) :
    writer_sound block_size fs_info img_opt bm copied v w := by
  have hinv := ptf_reached.inv hbs hbs' hgroup h
  obtain ⟨hsize, hroom⟩ := write_buffer_size_group hbs' hgroup
  obtain ⟨n, b', p, w', hnext, hn, hpass, hfail, -, -⟩ :=
    ptf_pass_bounds bm hbs hbs' hgroup hinv
  refine ⟨hinv.count, hinv.read_buffer, ?_, ?_, p, w', hpass, hfail⟩
  · have hm : img_opt.checksum_size.toNat < 2 ^ 16 := img_opt.checksum_size.isLt
    have hcap : capacity block_size ≤ capacity block_size * block_size :=
      Nat.le_mul_of_pos_right _ hbs
    rw [convert_blocks_to_bytes_eq (by omega) (by omega) (by omega) (hgroup ▸ capacity_pos _) hm,
      Nat.zero_add, Nat.zero_div, Nat.sub_zero, hgroup, Nat.div_self (capacity_pos _),
      hinv.write_buffer, hsize]
    omega
  · intro n' b'' hnext' read_buffer hlen j hj
    have heq := Prod.mk.inj (Except.ok.inj (hnext'.symm.trans hnext))
    obtain ⟨b, hrun, hread, hadded, hoff, hfit, hblen, hcount, hcheck, -, -⟩ :=
      first_blocks_bounds hbs hbs' hgroup hinv hlen (j := j) (by omega)
    exact ⟨b, hrun, hread, hadded, hoff, hfit, hblen, hcount, hcheck⟩

/-- So the whole run returns, on every machine and for every volume: no copy leaves its buffer.
Each pass moves the cursor on, so the loop ends. -/
theorem read_write_data_ptf_returns (hfits : checksum_fits img_opt) (w₀ : World) :
    ∃ r, read_write_data_ptf block_size fs_info img_opt host bm w₀ = .ok r := by
  by_cases hmem : (host.malloc (u32 (capacity block_size * block_size)) &&
      host.malloc (u32 (u32 (convert_blocks_to_bytes 0 (capacity block_size) block_size
        img_opt.blocks_per_checksum.toNat img_opt.checksum_size.toNat)
        + img_opt.checksum_size.toNat))) = true
  swap
  · exact ⟨(false, w₀), by simp only [read_write_data_ptf, buffer_capacity_of_pos hbs, ok_bind,
      hmem, Bool.not_false, if_true, pure_eq]⟩
  obtain ⟨w₁, hseek, hcks⟩ : ∃ w₁, seek_dfr w₀ 0 = (true, w₁) ∧ w₁.cks = w₀.cks :=
    ⟨_, seek_dfr_zero w₀, rfl⟩
  obtain ⟨lib, hinit, -⟩ := init_checksum_ok w₁.cks hfits (stale_checksum host img_opt)
  have hinit' : init_checksum w₁.cks img_opt.checksum_mode.toNat
      (host.junk .checksum img_opt.checksum_size.toNat)
      = .ok (((digest_of img_opt).reset (stale_checksum host img_opt)).1, lib) := hinit
  have hstart : ptf_reached block_size fs_info img_opt host bm w₀ 0 _ _ :=
    ptf_reached.start hmem (by rw [hseek]) (hcks ▸ hinit')
  rw [hseek] at hstart
  obtain ⟨r, w₂, hpasses, hends⟩ := passes_spec (ptf_pass block_size fs_info img_opt bm)
    (I := fun v w => ∃ copied, ptf_reached block_size fs_info img_opt host bm w₀ copied v w)
    (D := fun v w => ∃ copied, ptf_reached block_size fs_info img_opt host bm w₀ copied v w)
    (F := fun _ => True) (fun v _ => fs_info.totalblock.toNat - v.block_id)
    (fun v w hreached => by
      obtain ⟨copied, hreach⟩ := hreached
      have hinv := ptf_reached.inv hbs hbs' hgroup hreach
      obtain ⟨n, b', p, w', hnext, -, hpass, -, hdone, hinv'⟩ :=
        ptf_pass_bounds bm hbs hbs' hgroup hinv
      refine ⟨p, w', hpass, ?_⟩
      cases p with
      | next v' =>
          have hlt := (hinv' v' rfl).2
          have hle := (hinv' v' rfl).1.block_id
          exact ⟨⟨copied + n, hreach.pass hnext hpass⟩, by omega⟩
      | done v' =>
          -- the loop is left with the state of its head
          obtain ⟨rfl, rfl⟩ := hdone v' rfl
          exact ⟨copied, hreach⟩
      | fail => exact trivial)
    (fs_info.totalblock.toNat + 1) _ _ (Nat.lt_succ_self _) ⟨0, hstart⟩
  cases r with
  | none =>
      exact ⟨(false, w₂), by simp only [read_write_data_ptf, buffer_capacity_of_pos hbs, ok_bind,
        hmem, Bool.not_true, Bool.false_eq_true, if_false, hseek, hinit', hpasses, pure_eq]⟩
  | some v =>
      obtain ⟨copied, hreach⟩ := hends
      have hinv := ptf_reached.inv hbs hbs' hgroup hreach
      have hm : img_opt.checksum_size.toNat < 2 ^ 16 := img_opt.checksum_size.isLt
      by_cases hopen : v.blocks_in_cs > 0
      · obtain ⟨e, -, r', w₃, hwrite, -⟩ := write_io_all_follows w₂ v.checksum
          (n := img_opt.checksum_size.toNat) (by omega) hinv.checksum.ge
        exact ⟨(decide (r' = img_opt.checksum_size.toNat), w₃), by
          simp only [read_write_data_ptf, buffer_capacity_of_pos hbs, ok_bind, hmem, Bool.not_true,
            Bool.false_eq_true, if_false, hseek, hinit', hpasses, hopen, if_true, hwrite, pure_eq]⟩
      · exact ⟨(true, w₂), by simp only [read_write_data_ptf, buffer_capacity_of_pos hbs, ok_bind,
          hmem, Bool.not_true, Bool.false_eq_true, if_false, hseek, hinit', hpasses, hopen, pure_eq]⟩

end Invariant

/-! ## A run with gaps

Four blocks of half a mebibyte, the second of them free, with two blocks to a group. The first
pass ends at the gap, inside the group, and the second closes it. -/

/-- How a pass ends: it is the last exactly if no block is left, and otherwise it goes on
behind the blocks it has copied. -/
theorem ptf_pass_cases {block_size : ℕ} {fs_info : file_system_info} {img_opt : image_options}
    {bm : bitmap} {v : ptf_vars} {w w' : World} {p : Pass ptf_vars} {n b' : ℕ}
    (hsize : get_read_blocks_size block_size fs_info v.block_id bm = .ok (n, b'))
    (h : ptf_pass block_size fs_info img_opt bm v w = .ok (p, w')) :
    (n = 0 ∧ p = .done v) ∨
      n ≠ 0 ∧ (p = .fail ∨ ∃ v', p = .next v' ∧ v'.block_id = u64 (b' + n)) := by
  simp only [ptf_pass, hsize, ok_bind] at h
  split_ifs at h with hn hseek
  · exact Or.inl ⟨hn, (Prod.mk.inj (Except.ok.inj h)).1.symm⟩
  · exact Or.inr ⟨hn, Or.inl (Prod.mk.inj (Except.ok.inj h)).1.symm⟩
  · obtain ⟨r, -, h⟩ := bind_eq_ok.mp h
    split_ifs at h
    · exact Or.inr ⟨hn, Or.inl (Prod.mk.inj (Except.ok.inj h)).1.symm⟩
    · obtain ⟨b, -, h⟩ := bind_eq_ok.mp h
      obtain ⟨r', -, h⟩ := bind_eq_ok.mp h
      split_ifs at h
      · exact Or.inr ⟨hn, Or.inl (Prod.mk.inj (Except.ok.inj h)).1.symm⟩
      · exact Or.inr ⟨hn, Or.inl (Prod.mk.inj (Except.ok.inj h)).1.symm⟩
      · exact Or.inr ⟨hn, Or.inr ⟨_, (Prod.mk.inj (Except.ok.inj h)).1.symm, rfl⟩⟩

/-- **On a machine that hinders nothing a run comes to the head behind every pass.** A pass
without a fault is not the last while blocks are left, so the head of the loop behind it is
reached with one run more. It brings a later pass of a given volume within reach without executing
the ones before it. -/
theorem ptf_reached.next {block_size : ℕ} {fs_info : file_system_info} {img_opt : image_options}
    {host : Host} {bm : bitmap} {w₀ w₁ w : World} {copied n b' : ℕ} {v : ptf_vars}
    {c₀ : Cursor (Bytes img_opt.checksum_size.toNat)} (hbs : 0 < block_size)
    (hbs' : block_size ≤ 2 ^ 30) (htot : fs_info.totalblock.toNat * block_size < 2 ^ 63)
    (hfits : checksum_fits img_opt) (hroom : write_buffer_size block_size img_opt < 2 ^ 31)
    (hsmooth : smooth block_size fs_info bm w₁)
    (h : ptf_reached block_size fs_info img_opt host bm w₀ copied v w)
    (hinv : ptf_inv block_size fs_info img_opt bm w₁ c₀ v w)
    (hsize : get_read_blocks_size block_size fs_info v.block_id bm = .ok (n, b')) (hn : n ≠ 0) :
    ∃ v' w', ptf_reached block_size fs_info img_opt host bm w₀ (copied + n) v' w' ∧
      ptf_inv block_size fs_info img_opt bm w₁ c₀ v' w' ∧ v'.block_id = u64 (b' + n) := by
  obtain ⟨p, w', hpass, hleads⟩ := ptf_pass_spec hbs hbs' htot hfits hroom hinv
  rcases ptf_pass_cases hsize hpass with ⟨h0, -⟩ | ⟨-, rfl | ⟨v', rfl, hid⟩⟩
  · exact absurd h0 hn
  · exact absurd hsmooth hleads.disturbed
  · exact ⟨v', w', h.pass hsize hpass, hleads.1, hid⟩

/-- A volume of four blocks of half a mebibyte, two of which fill the buffer and a group. -/
def gap_info : file_system_info :=
  { init_file_system_info with totalblock := 4, block_size := 524288 }

/-- It lies on a device of zeros, and its image goes to a new file. -/
def gap_world : World :=
  ⟨⟨List.replicate (2 ^ 21) 0, 0, false⟩, ⟨[], 0, true⟩, .block, .regular, [], 0, [], 0, .initial⟩

/-- The two blocks of the buffer are a group. -/
theorem gap_group : (ptf_image_options (2 ^ 19)).blocks_per_checksum.toNat = 2 := by
  rw [ptf_blocks_per_checksum]
  decide

theorem gap_room : write_buffer_size (2 ^ 19) (ptf_image_options (2 ^ 19)) < 2 ^ 31 := by
  have hcap : capacity (2 ^ 19) = 2 := by decide
  have hsum : (ptf_image_options (2 ^ 19)).checksum_size.toNat = 4 := by decide
  rw [write_buffer_size, gap_group, hcap, hsum]
  decide

/-- **The head behind the first pass**, which has copied block 0 and left its group open. It is
reached by the loop rule, so no block of the device is looked at. -/
theorem gap_first_pass : ∃ v w,
    ptf_reached (2 ^ 19) gap_info (ptf_image_options (2 ^ 19)) plain_host [13] gap_world 1 v w ∧
      v.block_id = 1 ∧ w.dfw.pos = 2 ^ 19 := by
  have hg : 0 < (ptf_image_options (2 ^ 19)).blocks_per_checksum.toNat := by
    rw [gap_group]
    decide
  have hused : used_from [13] gap_info.totalblock.toNat 0 = [0, 2, 3] := by decide
  have hthere : ∀ x ∈ [0, 2, 3], (x + 1) * 2 ^ 19 ≤ gap_world.dfr.data.length := by
    rw [gap_world, List.length_replicate]
    decide
  have hsched : gap_world.sched = [] := rfl
  have htarget : gap_world.dfw = ⟨[], 0, true⟩ := rfl
  -- no step below looks at the zeros of the device
  generalize gap_world = w₀ at hthere hsched htarget ⊢
  -- the head of the loop behind `init_checksum`
  set a := stale_checksum plain_host (ptf_image_options (2 ^ 19))
  obtain ⟨lib, hinit, hready⟩ := init_checksum_ok w₀.cks (ptf_checksum_fits (2 ^ 19)) a
  have hseek := seek_dfr_zero w₀
  set w₁ : World := { w₀ with dfr := { w₀.dfr with pos := 0 }, cks := lib } with hw₁
  have hstart : ptf_reached (2 ^ 19) gap_info (ptf_image_options (2 ^ 19)) plain_host [13] w₀
      0 _ { (seek_dfr w₀ 0).2 with cks := lib } :=
    ptf_reached.start rfl (by rw [hseek]) hinit
  rw [hseek] at hstart
  change ptf_reached _ _ _ _ _ w₀ 0 _ w₁ at hstart
  have hread : u32 (capacity (2 ^ 19) * 2 ^ 19) = capacity (2 ^ 19) * 2 ^ 19 := by decide
  rw [hread, write_size_eq (by decide) hg gap_room] at hstart
  have hsmooth : smooth (2 ^ 19) gap_info [13] w₁ :=
    ⟨hsched, hused ▸ hthere, congrArg File.growable htarget⟩
  have hfirst : get_read_blocks_size (2 ^ 19) gap_info 0 [13] = .ok (1, 0) := by decide
  obtain ⟨v, w, hreach, hinv, hid⟩ := ptf_reached.next (by decide) (by decide) (by decide)
    (ptf_checksum_fits (2 ^ 19)) gap_room hsmooth hstart
    (ptf_inv_start hg plain_host [13] a hready) hfirst (by decide)
  have hid' : v.block_id = 1 := hid
  refine ⟨v, w, hreach, hid', ?_⟩
  -- one block has been written, and no checksum
  obtain ⟨done, hdone, -, hdfw, -⟩ := hinv.written
  have hrest : used_from [13] gap_info.totalblock.toNat v.block_id = [2, 3] := by
    rw [hid']
    decide
  obtain rfl : done = [0] := by
    rw [hused, hrest] at hdone
    exact List.append_cancel_right (hdone.symm.trans rfl : done ++ [2, 3] = [0] ++ [2, 3])
  have hblock : ∀ x ∈ [0], (x + 1) * 2 ^ 19 ≤ w₁.dfr.data.length :=
    fun x hx => hthere x (by rw [List.mem_singleton.mp hx]; exact List.mem_cons_self)
  have hpos : w₁.dfw.pos = 0 := congrArg File.pos htarget
  rw [hdfw, written_pos, hpos, emitted_length hg a hblock, gap_group]
  decide

/-- **The second pass of a volume whose second block is free**: the first has copied block 0 and
left its group open, this one is to copy blocks 2 and 3, and the checksum of the group falls
between the two. -/
theorem second_pass_sound :
    ∃ v w, ptf_reached (2 ^ 19) gap_info (ptf_image_options (2 ^ 19)) plain_host [13] gap_world
        1 v w ∧
      get_read_blocks_size (2 ^ 19) gap_info v.block_id [13] = .ok (2, 2) ∧ w.dfw.pos = 2 ^ 19 ∧
      writer_sound (2 ^ 19) gap_info (ptf_image_options (2 ^ 19)) [13] 1 v w ∧
      ∃ b, first_blocks (2 ^ 19) (ptf_image_options (2 ^ 19)) v w v.read_buffer 2 = .ok b ∧
        b.cs_added = 1 ∧ b.write_offset = 2 * 2 ^ 19 + 4 := by
  obtain ⟨v, w, hreach, hid, hpos⟩ := gap_first_pass
  have hsound := ptf_reached_sound (by decide) (by decide) (ptf_blocks_per_checksum (2 ^ 19)) hreach
  have hsecond : get_read_blocks_size (2 ^ 19) gap_info v.block_id [13] = .ok (2, 2) := by
    rw [hid]
    decide
  refine ⟨v, w, hreach, hsecond, hpos, hsound, ?_⟩
  obtain ⟨b, hrun, -, -, hoffset, -⟩ := hsound.blocks 2 2 hsecond
    v.read_buffer rfl 2 le_rfl
  have hopen : v.blocks_in_cs = 1 := by
    rw [hsound.count, gap_group]
  obtain ⟨htotal, hlt⟩ := ptf_blocks_counts v.read_buffer 2 0 (by
    dsimp only
    rw [hopen, gap_group]
    decide) hrun
  dsimp only at htotal
  rw [hopen, gap_group] at htotal
  rw [gap_group] at hlt
  have hone : b.cs_added = 1 := by omega
  have hsum : (ptf_image_options (2 ^ 19)).checksum_size.toNat = 4 := by decide
  refine ⟨b, hrun, hone, ?_⟩
  rw [hoffset, hone, hsum]
  rfl

end SysbakAdmin.WriterBounds

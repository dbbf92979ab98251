/-
Which images `read_write_data_restore` can work through without leaving its buffers.

The read buffer is sized once, for a chunk that starts at block 0, and the checksum array
is as large as the image says. `in_bounds` is the condition on the image under which this
is enough: the array holds a CRC when the mode computes one, and no chunk that a run can
come to needs more than the first was given room for. Under it every run returns, on
every machine and every content; without it some content takes the run out of a buffer.

A size that is negative as an `int` is refused by the system. The one exception is -1,
which is also what a refused read returns; chunks of that size are not looked into here.

The second half builds that content. `zero_world` is an image of zeros whose checksums are
right, so nothing stops the run before the chunk that does not fit (`restore_overruns`);
there a block or a checksum is compared behind the end of the buffer. So the condition is
not only enough: for every image outside it there is a content that leaves the buffers.
-/
import SysbakAdmin.ImageReader

set_option autoImplicit false

namespace SysbakAdmin.BufferBounds

open LittleEndian ByteStore CInt CMemory DoWhile Transfer FileIo GroupStream PackedRecord
open Bitmap Checksum Io Share Backup ImageWriter Restore ReaderLoops ImageReader

/-! ## The condition -/

section Condition

variable (fs_info : file_system_info) (img_opt : image_options) (bm : bitmap)

/-- A chunk whose size the system refuses to read. `read` takes a count of 64 bits, to which a
negative `int` is widened. -/
def refused (c : ℕ) : Prop :=
  2 ^ 31 ≤ u32 (chunk_need fs_info img_opt bm c) ∧
    u32 (chunk_need fs_info img_opt bm c) ≠ 2 ^ 32 - 1

instance (c : ℕ) : Decidable (refused fs_info img_opt bm c) := inferInstanceAs (Decidable (_ ∧ _))

/-- A chunk that a run can come to: nothing before it is refused, and its blocks have a
place that `lseek` can reach. -/
structure reached (c : ℕ) : Prop where
  sizes : ∀ c' < c, c' % capacity fs_info.block_size.toNat = 0 → ¬ refused fs_info img_opt bm c'
  places : ∃ s, ((marked fs_info bm 0).take c).foldlM (place fs_info.block_size.toNat) (0, 0)
    = some s

/-- No access of a restore is outside its buffer. It is about the image alone: no machine and no
content enters. -/
structure in_bounds : Prop where
  checksum : checksum_fits img_opt
  chunks : ∀ c < used_count fs_info bm, c % capacity fs_info.block_size.toNat = 0 →
    reached fs_info img_opt bm c → ¬ refused fs_info img_opt bm c →
    chunk_need fs_info img_opt bm c < 2 ^ 31 ∧
      chunk_need fs_info img_opt bm c ≤ read_buffer_size fs_info img_opt

end Condition

/-! ## The condition is enough

The chunks a run can come to are those whose predecessors were accepted, and each of these needs
no more than the buffer has. -/

section Enough

variable {fs_info : file_system_info} {img_opt : image_options} {bm : bitmap} {w₀ : World}
  {c₀ : Cursor (Bytes img_opt.checksum_size.toNat)} {buffer_size write_size : ℕ}
  {v : restore_vars} {w : World}

theorem i32_of_refused {c : ℕ} (h : refused fs_info img_opt bm c) :
    i32 (chunk_need fs_info img_opt bm c) < 0 ∧ i32 (chunk_need fs_info img_opt bm c) ≠ -1 := by
  obtain ⟨h1, h2⟩ := h
  have hlt := u32_lt (chunk_need fs_info img_opt bm c)
  rw [i32, if_neg (by omega)]
  omega

/-- A refused chunk ends the run, and nothing is touched. The read returns -1, which is not the
size that was asked for. -/
theorem restore_pass_refused (hbs : 0 < fs_info.block_size.toNat)
    (hg : 0 < img_opt.blocks_per_checksum.toNat) (hU : used_count fs_info bm < 2 ^ 63)
    (hinv : restore_inv fs_info img_opt bm w₀ c₀ buffer_size write_size v w)
    (hlt : w.copied_count < used_count fs_info bm)
    (hrefused : refused fs_info img_opt bm w.copied_count) :
    ∃ w', restore_pass fs_info img_opt (capacity fs_info.block_size.toNat)
      (used_count fs_info bm) bm v w = .ok (.fail, w') := by
  have halign := hinv.aligned.resolve_right (by omega)
  have hpos := chunk_size_pos hlt
  obtain ⟨hneg, hne⟩ := i32_of_refused hrefused
  have hlow : -2 ^ 31 ≤ i32 (chunk_need fs_info img_opt bm w.copied_count) := by
    unfold i32 u32; split <;> omega
  have hcount : ¬ u64OfInt (i32 (chunk_need fs_info img_opt bm w.copied_count)) < 2 ^ 63 := by
    unfold u64OfInt; omega
  refine ⟨{ w with io_failed := w.io_failed + 1 }, ?_⟩
  simp only [restore_pass, chunk_blocks_eq hU hinv.copied, show ¬ chunk_size fs_info bm
    w.copied_count = 0 by omega, if_false, chunk_read_size_eq img_opt hbs hg hU hlt halign, read_io_all,
    hcount, ok_bind, ne_eq, Ne.symm hne, not_false_eq_true, if_true, pure_eq]

/-- **In bounds, every run returns.** A run that does not return has stopped in one of the
accesses, and each of them is inside its buffer when every chunk needs no more than the first;
that the loops end is `RestoreCursor`'s. -/
theorem restore_returns (hbs : 0 < fs_info.block_size.toNat)
    (hg : 0 < img_opt.blocks_per_checksum.toNat) (hU : used_count fs_info bm < 2 ^ 63)
    (h : in_bounds fs_info img_opt bm) (host : Host) (w : World) (hcopied : w.copied_count = 0) :
    ∃ r, read_write_data_restore fs_info img_opt host bm w = .ok r := by
  have hcapmul := capacity_mul_le fs_info.block_size.toNat
  have hbsize : fs_info.block_size.toNat < 2 ^ 32 := fs_info.block_size.isLt
  have hmega : DEFAULT_BUFFER_SIZE = 2 ^ 20 := rfl
  rcases read_write_data_restore_start bm hbs h.checksum host w hcopied with
    ⟨hrun, -⟩ | ⟨w₀, -, -, hdfw₀, hinv, hc₀, hrun⟩
  · exact ⟨_, hrun⟩
  obtain ⟨r, w₁, hpasses, -⟩ := passes_spec
    (restore_pass fs_info img_opt (capacity fs_info.block_size.toNat) (used_count fs_info bm) bm)
    (I := fun v w => restore_inv fs_info img_opt bm w₀
      (start_cursor img_opt (stale_checksum host img_opt)) (read_buffer_size fs_info img_opt)
      (capacity fs_info.block_size.toNat * fs_info.block_size.toNat) v w ∧
      ∀ c' < w.copied_count, c' % capacity fs_info.block_size.toNat = 0 →
        ¬ refused fs_info img_opt bm c')
    (D := fun _ _ => True) (F := fun _ => True)
    (fun _ w' => used_count fs_info bm - w'.copied_count)
    (fun v w' hvw => by
      obtain ⟨hinv, hsizes⟩ := hvw
      -- a chunk that is refused ends the run, whatever its sizes
      by_cases hend : w'.copied_count < used_count fs_info bm ∧
          refused fs_info img_opt bm w'.copied_count
      · obtain ⟨w'', hpass⟩ := restore_pass_refused hbs hg hU hinv hend.1 hend.2
        exact ⟨_, w'', hpass, trivial⟩
      have hplaces := hinv.placed
      rw [hdfw₀] at hplaces
      have hfit : w'.copied_count < used_count fs_info bm →
          chunk_need fs_info img_opt bm w'.copied_count < 2 ^ 31 ∧
            chunk_need fs_info img_opt bm w'.copied_count ≤ read_buffer_size fs_info img_opt :=
        fun hlt => h.chunks _ hlt (hinv.aligned.resolve_right (by omega)) ⟨hsizes, _, hplaces⟩
          fun hr => hend ⟨hlt, hr⟩
      obtain ⟨p, w'', hpass, hleads⟩ := restore_pass_spec hbs hg h.checksum rfl hU (u32_lt _)
        (by omega) le_rfl hinv hfit
      refine ⟨p, w'', hpass, ?_⟩
      cases p with
      | next v' =>
          obtain ⟨hinv', hcount', hlt⟩ := hleads
          have hsize := chunk_size_pos hlt
          have := chunk_size_le fs_info bm hlt.le
          refine ⟨⟨hinv', fun c' hc' halign' => ?_⟩, by omega⟩
          -- the only chunk that is new to the invariant is the one of this pass
          rcases Nat.lt_or_ge c' w'.copied_count with hbefore | hge
          · exact hsizes c' hbefore halign'
          · have heq : c' = w'.copied_count :=
              chunk_start_eq bm (hinv.aligned.resolve_right (by omega)) halign' hge (by omega)
            exact heq ▸ fun hr => hend ⟨hlt, hr⟩
      | done v' => exact trivial
      | fail => exact trivial)
    (used_count fs_info bm + 1) _ w₀ (by omega) ⟨hinv, by rw [hc₀]; omega⟩
  exact ⟨_, by rw [hrun, hpasses, ok_bind]⟩

end Enough

/-! ## The condition is needed

A content that passes every check takes the run to the chunk that does not fit. -/

section Overrun

variable {fs_info : file_system_info} {img_opt : image_options}

/-- What a block takes of the buffer, if it is taken out at all. -/
theorem restore_block_inside {read_buffer : List Byte} {i : ℕ} {v : chunk_vars}
    {r : Option chunk_vars} (h : restore_block fs_info img_opt read_buffer i v = .ok r) :
    v.read_offset + fs_info.block_size.toNat ≤ read_buffer.length ∧
      (u32 (v.blocks_in_cs + 1) = img_opt.blocks_per_checksum.toNat →
        v.read_offset + fs_info.block_size.toNat + img_opt.checksum_size.toNat
          ≤ read_buffer.length) := by
  rw [restore_block] at h
  obtain ⟨block, hload, h⟩ := bind_eq_ok.mp h
  obtain ⟨write_buffer, -, h⟩ := bind_eq_ok.mp h
  obtain ⟨checksum, -, h⟩ := bind_eq_ok.mp h
  refine ⟨(load_eq_ok.mp hload).1, fun hfull => ?_⟩
  rw [if_pos hfull] at h
  obtain ⟨stored, hload', -⟩ := bind_eq_ok.mp h
  exact (load_eq_ok.mp hload').1

/-- A block that cannot be taken out is an access outside a buffer. The other ways in which a run
stops, a division and a loop without end, are not in the block loop. -/
theorem restore_block_stops {read_buffer : List Byte} {i : ℕ} {v : chunk_vars} {t : Stop}
    (h : restore_block fs_info img_opt read_buffer i v = .error t) : t = .outOfBounds := by
  rw [restore_block] at h
  rcases bind_eq_error.mp h with h | ⟨block, -, h⟩
  · exact load_stops h
  rcases bind_eq_error.mp h with h | ⟨write_buffer, -, h⟩
  · exact store_stops h
  rcases bind_eq_error.mp h with h | ⟨checksum, -, h⟩
  · exact update_checksum_stops h
  dsimp only at h
  split_ifs at h
  · rcases bind_eq_error.mp h with h | ⟨stored, -, h⟩
    · exact load_stops h
    split_ifs at h
    · cases h
    · rcases bind_eq_error.mp h with h | ⟨r, -, h⟩
      · exact init_checksum_stops h
      · cases h
  · cases h

/-- A block for which the buffer is too short. -/
theorem restore_block_short {read_buffer : List Byte} {i : ℕ} {v : chunk_vars}
    (h : read_buffer.length < v.read_offset + (fs_info.block_size.toNat
      + if u32 (v.blocks_in_cs + 1) = img_opt.blocks_per_checksum.toNat then
          img_opt.checksum_size.toNat else 0)) :
    restore_block fs_info img_opt read_buffer i v = .error .outOfBounds := by
  cases hr : restore_block fs_info img_opt read_buffer i v with
  | ok r =>
      obtain ⟨h1, h2⟩ := restore_block_inside hr
      split_ifs at h with hfull
      · have := h2 hfull
        omega
      · omega
  | error t => rw [restore_block_stops hr]

/-- A group that has not been filled has the count of its cursor. -/
theorem read_inv_count {v : chunk_vars} {c : Cursor (Bytes img_opt.checksum_size.toNat)}
    (h : read_inv img_opt v c) : u32 (v.blocks_in_cs + 1) = c.filled + 1 := by
  have hlt := h.lt
  have hg : img_opt.blocks_per_checksum.toNat < 2 ^ 32 := img_opt.blocks_per_checksum.isLt
  rw [h.filled, u32_of_lt (by omega)]

section Blocks

variable (hbs : 0 < fs_info.block_size.toNat) (hbs' : fs_info.block_size.toNat < 2 ^ 31)
  (hfits : checksum_fits img_opt)
include hbs hbs' hfits

/-- **A buffer that ends inside its blocks is overrun**, if what it holds is a front part of
a stream that the reader accepts. -/
theorem restore_blocks_short {read_buffer : List Byte} (hread : read_buffer.length < 2 ^ 32) :
    ∀ (more : List (List Byte)) (i : ℕ) (v : chunk_vars)
      (c : Cursor (Bytes img_opt.checksum_size.toNat)),
      read_inv img_opt v c → (∀ b ∈ more, b.length = fs_info.block_size.toNat) →
      read_buffer.drop v.read_offset
        <+: (emit (digest_of img_opt) img_opt.blocks_per_checksum.toNat c more).1 →
      read_buffer.length < v.read_offset
        + (emit (digest_of img_opt) img_opt.blocks_per_checksum.toNat c more).1.length →
      v.read_offset ≤ read_buffer.length →
      (i + more.length) * fs_info.block_size.toNat ≤ v.write_buffer.length →
      v.write_buffer.length < 2 ^ 32 →
      restore_blocks fs_info img_opt read_buffer more.length i v = .error .outOfBounds := by
  intro more
  induction more with
  | nil =>
      intro i v c _ _ _ hshort hoff
      rw [emit_nil, List.length_nil] at hshort
      omega
  | cons b more ih =>
      intro i v c hinv hmore hpre hshort hoff hwrite hwlen
      have hb : b.length = fs_info.block_size.toNat := hmore b (by simp)
      have hcount := read_inv_count hinv
      rw [List.length_cons, restore_blocks]
      by_cases hin : v.read_offset + (fs_info.block_size.toNat
          + if c.filled + 1 = img_opt.blocks_per_checksum.toNat then img_opt.checksum_size.toNat
            else 0) ≤ read_buffer.length
      swap
      · rw [restore_block_short (by rw [hcount]; omega)]
        rfl
      -- the bytes at the position are those of the block, and of its digest
      have hput : (put (digest_of img_opt) img_opt.blocks_per_checksum.toNat c b).1.length
          = fs_info.block_size.toNat
            + if c.filled + 1 = img_opt.blocks_per_checksum.toNat then img_opt.checksum_size.toNat
              else 0 := by
        unfold put
        split_ifs with hfull
        · rw [List.length_append, hb]
          congr 1
          exact ((digest_of img_opt).absorb c.sum b).2
        · rw [hb, Nat.add_zero]
      rw [emit] at hpre hshort
      dsimp only at hpre hshort
      have hfront : slice read_buffer v.read_offset
          (put (digest_of img_opt) img_opt.blocks_per_checksum.toNat c b).1.length
            = (put (digest_of img_opt) img_opt.blocks_per_checksum.toNat c b).1 := by
        obtain ⟨rest, hrest⟩ := hpre
        have h := congrArg
          (List.take (put (digest_of img_opt) img_opt.blocks_per_checksum.toNat c b).1.length) hrest
        rw [List.take_left, List.take_append_of_le_length (by
          rw [List.length_drop, hput]; omega)] at h
        exact h
      have hblock : slice read_buffer v.read_offset fs_info.block_size.toNat = b := by
        have h := congrArg (List.take fs_info.block_size.toNat) hfront
        rw [slice, List.take_take, Nat.min_eq_left (by rw [hput]; omega)] at h
        rw [slice, h]
        unfold put
        split_ifs
        · exact List.take_left' hb
        · exact List.take_of_length_le hb.le
      rw [Nat.add_mul, List.length_cons, Nat.add_mul, Nat.one_mul] at hwrite
      rcases restore_block_spec hbs hbs' hfits hread (i := i) hinv hblock hin (by omega) hwlen with
        ⟨hfull, hmatch, -⟩ | ⟨v', hstep, -, hinv', hoff', hwrite'⟩
      · refine absurd ?_ hmatch
        rw [put, if_pos hfull] at hfront
        have h := congrArg (List.drop fs_info.block_size.toNat) hfront
        rw [List.drop_left' hb, List.length_append, hb, slice, List.drop_take, List.drop_drop,
          Nat.add_sub_cancel_left] at h
        have hlen : ((digest_of img_opt).digest ((digest_of img_opt).absorb c.sum b)).length
            = img_opt.checksum_size.toNat := ((digest_of img_opt).absorb c.sum b).2
        rw [hlen] at h
        exact h
      · rw [hstep, ok_bind]
        dsimp only
        have hwlen' : (overlay 0 v.write_buffer (i * fs_info.block_size.toNat) b).length
            = v.write_buffer.length := by
          rw [overlay_length]; omega
        rw [← hput] at hoff' hin
        refine ih (i + 1) v' _ hinv' (fun x hx => hmore x (by simp [hx])) ?_ ?_ ?_ ?_ ?_
        · obtain ⟨rest, hrest⟩ := hpre
          refine ⟨rest, ?_⟩
          have h := congrArg
            (List.drop (put (digest_of img_opt) img_opt.blocks_per_checksum.toNat c b).1.length) hrest
          rwa [List.drop_left, List.drop_append_of_le_length (by rw [List.length_drop]; omega),
            List.drop_drop, ← hoff'] at h
        · rw [List.length_append] at hshort
          omega
        · omega
        · rw [hwrite', hwlen', Nat.add_mul, Nat.add_mul, Nat.one_mul]
          omega
        · rw [hwrite', hwlen']
          exact hwlen

end Blocks

section Chunk

variable {bm : bitmap} (hbs : 0 < fs_info.block_size.toNat)
  (hg : 0 < img_opt.blocks_per_checksum.toNat) (hfits : checksum_fits img_opt)
include hbs hg hfits

/-- **A chunk that does not fit the buffer is overrun**, if what the buffer holds is a front
part of it. -/
theorem restore_chunk_short {c : ℕ} (hc : c < used_count fs_info bm)
    (halign : c % capacity fs_info.block_size.toNat = 0)
    {cur : Cursor (Bytes img_opt.checksum_size.toNat)}
    (hfilled : cur.filled = c % img_opt.blocks_per_checksum.toNat) {more : List (List Byte)}
    (hlen : more.length = chunk_size fs_info bm c)
    (hmore : ∀ b ∈ more, b.length = fs_info.block_size.toNat) (read_buffer : List Byte)
    (hpre : read_buffer <+: chunk_bytes fs_info img_opt bm cur c more)
    (hshort : read_buffer.length < chunk_need fs_info img_opt bm c)
    (hread : read_buffer.length < 2 ^ 32) {v : chunk_vars} (hv : read_inv img_opt v cur)
    (hoff : v.read_offset = 0)
    (hwrite : chunk_size fs_info bm c * fs_info.block_size.toNat ≤ v.write_buffer.length)
    (hwlen : v.write_buffer.length < 2 ^ 32) :
    restore_chunk fs_info img_opt (capacity fs_info.block_size.toNat) (chunk_size fs_info bm c)
      read_buffer v = .error .outOfBounds := by
  have hemit := emit_chunk_length hg hfilled hlen hmore
  have hneed : chunk_need fs_info img_opt bm c = _ := chunk_need_eq c
  rcases Nat.lt_or_ge fs_info.block_size.toNat (2 ^ 31) with hbs' | hbig
  swap
  · -- a single block, and the buffer cannot hold its checksum
    have hcap : capacity fs_info.block_size.toNat = 1 := by
      unfold capacity
      have hmega : DEFAULT_BUFFER_SIZE = 2 ^ 20 := rfl
      rw [Nat.div_eq_of_lt (by omega)]
      rfl
    have hone : chunk_size fs_info bm c = 1 := by
      have hpos := chunk_size_pos hc
      unfold chunk_size at hpos ⊢
      omega
    have htail : ¬ (c + chunk_size fs_info bm c = used_count fs_info bm
        ∧ tail_checked fs_info img_opt bm) := by
      rw [tail_checked, hcap, Nat.mod_one, Nat.zero_mod]
      simp
    have hstep : restore_block fs_info img_opt read_buffer 0 v = .error .outOfBounds := by
      refine restore_block_short ?_
      have hlt := Nat.mod_lt c hg
      rw [if_neg htail, hone, Nat.one_mul, Nat.add_zero] at hneed
      rw [read_inv_count hv, hfilled, hoff, Nat.zero_add]
      split_ifs with hfull
      · rw [hfull, Nat.div_self hg, Nat.one_mul] at hneed
        omega
      · rw [Nat.div_eq_of_lt (by omega), Nat.zero_mul] at hneed
        omega
    simp only [restore_chunk, hone, restore_blocks, hstep, error_bind]
  -- either the buffer ends in a block, or only in the digest behind the last one
  rcases Nat.lt_or_ge read_buffer.length
      (emit (digest_of img_opt) img_opt.blocks_per_checksum.toNat cur more).1.length with hin | hin
  · have hloop := restore_blocks_short hbs hbs' hfits hread more 0 v cur hv hmore
      (by
        rw [hoff, List.drop_zero]
        exact List.prefix_of_prefix_length_le hpre (List.prefix_append _ _) hin.le)
      (by rw [hoff, Nat.zero_add]; exact hin) (by omega)
      (by rw [Nat.zero_add, hlen]; exact hwrite) hwlen
    rw [hlen] at hloop
    simp only [restore_chunk, hloop, error_bind]
  · -- all blocks are there, and the trailing digest is not
    have htail : c + chunk_size fs_info bm c = used_count fs_info bm
        ∧ tail_checked fs_info img_opt bm := by
      by_contra h
      rw [if_neg h] at hneed
      omega
    rw [if_pos htail] at hneed
    obtain ⟨rest, hrest⟩ := List.prefix_of_prefix_length_le (List.prefix_append _ _) hpre hin
    have hscan := scan_emit (digest_of img_opt) img_opt.blocks_per_checksum.toNat
      (m := img_opt.checksum_size.toNat) (fun a => a.2) cur hmore rest
    rw [hrest, hlen] at hscan
    have hloop := restore_blocks_spec hbs hbs' hfits hread (chunk_size fs_info bm c) 0 v cur hv
      (by rw [hoff, hfilled, Nat.zero_add, ← hemit]; exact hin)
      (by rw [Nat.zero_add]; exact hwrite) hwlen
    rw [hoff, List.drop_zero, hscan] at hloop
    rcases hloop with ⟨h, -⟩ | ⟨blocks, c', used, b, hsome, hloop, hb, hboff, -⟩
    · cases h
    obtain ⟨-, rfl, rfl⟩ : blocks = more ∧ (emit (digest_of img_opt)
        img_opt.blocks_per_checksum.toNat cur more).2 = c' ∧ _ = used := by
      simpa [eq_comm] using hsome
    have hcount : b.blocks_in_cs
        = (c + chunk_size fs_info bm c) % img_opt.blocks_per_checksum.toNat := by
      rw [hb.filled, emit_filled _ _ hg (by rw [hfilled]; exact Nat.mod_lt _ hg), hlen, hfilled,
        Nat.mod_add_mod]
    have htest := (tail_code_iff img_opt bm hg halign hc hcount).mpr htail
    have hload : load read_buffer b.read_offset img_opt.checksum_size.toNat
        = .error .outOfBounds := load_of_gt (by omega)
    simp only [restore_chunk, hloop, ok_bind]
    rw [if_pos htest, hload]
    rfl

end Chunk

/-- A read of more than the buffer holds, of a file that has so much. -/
theorem read_io_all_overrun (w : World) (buf : List Byte) {n : ℕ} (hn : n < 2 ^ 63)
    (hsched : w.sched = []) (hin : w.dfr.pos + n ≤ w.dfr.data.length) (hbuf : buf.length < n) :
    read_io_all w buf n = .error .outOfBounds := by
  rw [read_io_all, if_pos hn, hsched, read_all_undisturbed hin]
  dsimp only
  rw [if_neg (by rw [slice_length_of_le hin]; omega)]

/-! ### The content

Zeros everywhere, with the checksums that zeros have. -/

section Content

variable (fs_info img_opt) (bm : bitmap)

/-- An image whose blocks are all zero, with the digests they have. -/
def zero_blocks : List (List Byte) :=
  List.replicate (used_count fs_info bm) (List.replicate fs_info.block_size.toNat 0)

/-- The data section of that image. -/
def zero_data : List Byte :=
  checked fs_info img_opt bm (start_cursor img_opt (stale_checksum plain_host img_opt))
    (zero_blocks fs_info bm)

/-- A machine on which the read buffer happens to hold it already. -/
def stale_host : Host where
  malloc _ := true
  junk a n := if a = .read_buffer then (zero_data fs_info img_opt bm ++ List.replicate n 0).take n
    else List.replicate n 0
  may_open _ := true
  may_stat _ := true
  junk_is_blk := false
  statvfs := none
  junk_length a n := by
    split
    · rw [List.length_take, List.length_append, List.length_replicate]; omega
    · exact List.length_replicate

/-- A restore of it to a new file. -/
def zero_world : World :=
  ⟨⟨zero_data fs_info img_opt bm, 0, true⟩, ⟨[], 0, true⟩, .regular, .regular, [], 0, [], 0, .initial⟩

variable {fs_info img_opt bm}

theorem zero_blocks_length (fs_info : file_system_info) (bm : bitmap) :
    (zero_blocks fs_info bm).length = used_count fs_info bm :=
  List.length_replicate

/-- It is accepted as a whole. -/
theorem zero_verified (fs_info : file_system_info) (img_opt : image_options) (bm : bitmap) :
    verified fs_info img_opt bm (zero_world fs_info img_opt bm).dfr
    (start_cursor img_opt (stale_checksum plain_host img_opt)) (zero_blocks fs_info bm) := by
  refine ⟨fun b hb => ?_, List.prefix_rfl⟩
  rw [List.eq_of_mem_replicate hb, List.length_replicate]

end Content

/-! ### The run -/

section Run

variable {bm : bitmap} {c : ℕ} (hbs : 0 < fs_info.block_size.toNat)
  (hg : 0 < img_opt.blocks_per_checksum.toNat) (hfits : checksum_fits img_opt)
  (hU : used_count fs_info bm < 2 ^ 63) (hc : c < used_count fs_info bm)
  (halign : c % capacity fs_info.block_size.toNat = 0)
  (hsize : u32 (chunk_need fs_info img_opt bm c) < 2 ^ 31)
include hbs hg hfits hU hc halign hsize

/-- **The chunk that is too long for an `int` or for the buffer** overruns the buffer. -/
theorem restore_pass_overrun {w₀ : World} {write_size : ℕ} {v : restore_vars} {w : World}
    (hinv : restore_inv fs_info img_opt bm w₀
      (start_cursor img_opt (stale_checksum plain_host img_opt)) (read_buffer_size fs_info img_opt)
      write_size v w)
    (hat : w.copied_count = c)
    (hwrite : capacity fs_info.block_size.toNat * fs_info.block_size.toNat ≤ write_size)
    (hwbuf : write_size < 2 ^ 32) (hsched : w₀.sched = [])
    (hdata : w₀.dfr = (zero_world fs_info img_opt bm).dfr)
    (hunfit : read_buffer_size fs_info img_opt < chunk_need fs_info img_opt bm c)
    (hstale : u32 (chunk_need fs_info img_opt bm c) ≤ read_buffer_size fs_info img_opt →
      c = 0 ∧ v.read_buffer = (zero_data fs_info img_opt bm).take (read_buffer_size fs_info img_opt)) :
    restore_pass fs_info img_opt (capacity fs_info.block_size.toNat) (used_count fs_info bm) bm v w
      = .error .outOfBounds := by
  subst hat
  obtain ⟨blocks, hlaid⟩ := hinv.laid_down
  have hn0 : ¬ chunk_size fs_info bm w.copied_count = 0 := by have := chunk_size_pos hc; omega
  have hread_size := chunk_read_size_eq img_opt hbs hg hU hc halign
  have hint : i32 (chunk_need fs_info img_opt bm w.copied_count)
      = ((u32 (chunk_need fs_info img_opt bm w.copied_count) : ℕ) : ℤ) := by
    rw [i32, if_pos hsize]
  have hcount := u64OfInt_natCast
    (show u32 (chunk_need fs_info img_opt bm w.copied_count) < 2 ^ 64 by omega)
  -- the image has the chunk
  obtain ⟨more, hmore, hmorebs, hpre⟩ := next_chunk (by rw [hlaid.length_eq]; exact hc)
    hlaid.verified ⟨zero_blocks fs_info bm, zero_blocks_length _ _,
      by rw [hdata]; exact zero_verified _ _ _⟩
  set cur := (emit (digest_of img_opt) img_opt.blocks_per_checksum.toNat
    (start_cursor img_opt (stale_checksum plain_host img_opt)) blocks).2 with hcur
  have hfilled : cur.filled = w.copied_count % img_opt.blocks_per_checksum.toNat := by
    rw [hcur, cursor_filled hg rfl, hlaid.length_eq]
  rw [hlaid.length_eq] at hmore hpre
  rw [← hlaid.source, ← hinv.follows.dfr_data] at hpre
  have hlen := chunk_bytes_length bm hg hfilled hmore hmorebs
  have hneedpos : 0 < chunk_need fs_info img_opt bm w.copied_count := by omega
  have hroom := hpre.length_le
  rw [hlen, List.length_drop] at hroom
  have hmod : u32 (chunk_need fs_info img_opt bm w.copied_count)
      ≤ chunk_need fs_info img_opt bm w.copied_count := Nat.mod_le _ _
  have hsched' : w.sched = [] := hinv.follows.sched_nil hsched
  rcases Nat.lt_or_ge (read_buffer_size fs_info img_opt)
      (u32 (chunk_need fs_info img_opt bm w.copied_count)) with hover | hunder
  · -- the read itself
    have hread := read_io_all_overrun w v.read_buffer
      (n := u32 (chunk_need fs_info img_opt bm w.copied_count)) (by omega) hsched' (by omega)
      (by rw [hinv.read_buffer]; exact hover)
    simp only [restore_pass, chunk_blocks_eq hU hinv.copied, hn0, if_false, hread_size, hint, hcount,
      hread, error_bind]
  · -- a size that wraps: the buffer still holds a front part of the chunk
    obtain ⟨hzero, hbuffer⟩ := hstale hunder
    obtain ⟨e, he, r, w', hread, hf, hslice, hdfr', hdfw', hcks', -, -, hr, -, hfull⟩ :=
      read_io_all_follows w v.read_buffer hsize (by rw [hinv.read_buffer]; exact hunder)
    obtain rfl := hfull hsched' (by omega)
    have hrn := hr.mpr rfl
    have hblocks : blocks = [] := List.eq_nil_of_length_eq_zero (hlaid.length_eq.trans hzero)
    have hpos : w.dfr.pos = 0 := by
      rw [hlaid.source, hblocks, checked_nil, List.length_nil, hdata]
      rfl
    have hfile : w.dfr.data = zero_data fs_info img_opt bm := by
      rw [hinv.follows.dfr_data, hdata]
      rfl
    rw [hpos, List.drop_zero, hfile] at hpre
    rw [hpos, Nat.sub_zero, hfile] at hroom
    have hsame : overlay 0 v.read_buffer 0 (slice w.dfr.data w.dfr.pos
        (u32 (chunk_need fs_info img_opt bm w.copied_count))) = v.read_buffer := by
      have hbuf : (zero_data fs_info img_opt bm).take
          (u32 (chunk_need fs_info img_opt bm w.copied_count))
          = v.read_buffer.take (u32 (chunk_need fs_info img_opt bm w.copied_count)) := by
        rw [hbuffer, List.take_take, Nat.min_eq_left hunder]
      rw [overlay, hslice, hpos, hfile, slice, List.drop_zero, hbuf]
      simp
    rw [hsame] at hread
    have hshort := restore_chunk_short hbs hg hfits hc halign hfilled hmore hmorebs
      v.read_buffer
      (List.prefix_of_prefix_length_le (by rw [hbuffer]; exact List.take_prefix _ _) hpre
        (by rw [hlen, hinv.read_buffer]; omega))
      (by rw [hinv.read_buffer]; exact hunfit) (by rw [hinv.read_buffer]; exact u32_lt _)
      (v := ⟨v.write_buffer, v.checksum, v.blocks_in_cs, 0, w'.cks⟩)
      ⟨hlaid.checksum, hlaid.filled, by rw [hfilled]; exact Nat.mod_lt _ hg,
        by rw [hcks']; exact hinv.ready⟩ rfl
      (by
        rw [hinv.write_buffer]
        exact (Nat.mul_le_mul_right _ (Nat.min_le_left _ _)).trans hwrite)
      (by rw [hinv.write_buffer]; exact hwbuf)
    simp only [restore_pass, chunk_blocks_eq hU hinv.copied, hn0, if_false, hread_size, hint, hcount,
      hread, ok_bind, hrn, ne_eq, not_true_eq_false, hshort, error_bind]

omit hbs hfits hU halign hsize in
/-- The image is as long as any of its chunks. -/
theorem chunk_need_le_zero_data :
    chunk_need fs_info img_opt bm c ≤ (zero_data fs_info img_opt bm).length := by
  have hle := chunk_size_le fs_info bm hc.le
  have hver := zero_verified fs_info img_opt bm
  have hlen := zero_blocks_length fs_info bm
  have hpre := hver.chunk hc hlen.le (by rw [hlen]; exact hle)
  have hfilled := cursor_filled hg
    (show (start_cursor img_opt (stale_checksum plain_host img_opt)).filled = 0 from rfl)
    ((zero_blocks fs_info bm).take c)
  rw [List.length_take, hlen, Nat.min_eq_left hc.le] at hfilled
  have hmore : (((zero_blocks fs_info bm).drop c).take (chunk_size fs_info bm c)).length
      = chunk_size fs_info bm c := by
    rw [List.length_take, List.length_drop, hlen]; omega
  have hbytes := chunk_bytes_length bm hg hfilled hmore
    (fun b hb => hver.lengths b (List.mem_of_mem_drop (List.mem_of_mem_take hb)))
  have h := hpre.length_le
  rw [hbytes, List.length_drop] at h
  exact h.trans (Nat.sub_le _ _)

omit hbs hfits hsize in
/-- After a chunk of a buffer's worth that fits an `int`, no size wraps. -/
theorem chunk_need_lt (hfirst : chunk_need fs_info img_opt bm 0 < 2 ^ 31) (hpos : 0 < c) :
    chunk_need fs_info img_opt bm c < 2 ^ 32 := by
  have hcap : capacity fs_info.block_size.toNat ≤ c :=
    Nat.le_of_dvd hpos (Nat.dvd_of_mod_eq_zero halign)
  have hm : img_opt.checksum_size.toNat < 2 ^ 16 := img_opt.checksum_size.isLt
  have hfull : chunk_size fs_info bm 0 = capacity fs_info.block_size.toNat := by
    unfold chunk_size; omega
  have hle : chunk_size fs_info bm c ≤ capacity fs_info.block_size.toNat := Nat.min_le_left _ _
  rw [chunk_need_eq, hfull, Nat.zero_mod, Nat.zero_add] at hfirst
  rw [chunk_need_eq]
  -- the groups that a chunk closes are one more at most
  have hgroups : (c % img_opt.blocks_per_checksum.toNat + chunk_size fs_info bm c)
      / img_opt.blocks_per_checksum.toNat
      ≤ capacity fs_info.block_size.toNat / img_opt.blocks_per_checksum.toNat + 1 := by
    rw [← Nat.add_div_right _ hg]
    exact Nat.div_le_div_right (by have := Nat.mod_lt c hg; omega)
  have hblocks := Nat.mul_le_mul_right fs_info.block_size.toNat hle
  have hsums := Nat.mul_le_mul_right img_opt.checksum_size.toNat hgroups
  rw [Nat.add_mul, Nat.one_mul] at hsums
  split <;> split_ifs at hfirst <;> omega

/-- **The run comes to the chunk**, when all chunks before it fit, and stops there. The chunks
before it are accepted and laid down as they come, since the content was made to be right; so the
reader has no reason to stop earlier. -/
theorem restore_overruns
    (hfit : ∀ c' < c, c' % capacity fs_info.block_size.toNat = 0 →
      chunk_need fs_info img_opt bm c' < 2 ^ 31 ∧
        chunk_need fs_info img_opt bm c' ≤ read_buffer_size fs_info img_opt)
    (hplaces : ∃ s, ((marked fs_info bm 0).take c).foldlM (place fs_info.block_size.toNat) (0, 0)
      = some s)
    (hunfit : read_buffer_size fs_info img_opt < chunk_need fs_info img_opt bm c) :
    read_write_data_restore fs_info img_opt (stale_host fs_info img_opt bm) bm
      (zero_world fs_info img_opt bm) = .error .outOfBounds := by
  have hcapmul := capacity_mul_le fs_info.block_size.toNat
  have hcap := capacity_pos fs_info.block_size.toNat
  have hbsize : fs_info.block_size.toNat < 2 ^ 32 := fs_info.block_size.isLt
  have hmega : DEFAULT_BUFFER_SIZE = 2 ^ 20 := rfl
  rcases read_write_data_restore_start bm hbs hfits (stale_host fs_info img_opt bm)
    (zero_world fs_info img_opt bm) rfl with ⟨-, hmem⟩ | ⟨w₀, hf₀, hdfr₀, hdfw₀, hinv, hc₀, hrun⟩
  · exact absurd (fun _ => rfl) hmem
  have hsched₀ : w₀.sched = [] := hf₀.sched_nil rfl
  -- nothing else can go wrong before chunk `c`: no call fails and every block verifies
  have hquiet : ∀ d ≤ c, untroubled fs_info img_opt bm w₀
      (start_cursor img_opt (stale_checksum plain_host img_opt)) d := by
    intro d hd
    refine ⟨hsched₀, ⟨zero_blocks fs_info bm, zero_blocks_length _ _, ?_⟩, Or.inl ⟨?_, ?_⟩⟩
    · rw [hdfr₀]; exact zero_verified _ _ _
    · rw [hdfw₀]; rfl
    · have htakes : takes_blocks fs_info.block_size.toNat 0 ⟨[], 0, true⟩
          ((marked fs_info bm 0).take c) := Or.inl ⟨rfl, hplaces⟩
      have htake := takes_blocks_take htakes d
      rw [List.take_take, Nat.min_eq_left hd] at htake
      rcases htake with ⟨-, hs⟩ | ⟨-, -, hin⟩
      · rw [hdfw₀]; exact hs
      · -- nothing has room in an empty file
        cases hlist : (marked fs_info bm 0).take d with
        | nil => exact ⟨_, rfl⟩
        | cons x rest =>
            have hx := hin x (by rw [hlist]; simp)
            have := Nat.mul_pos (Nat.succ_pos x) hbs
            simp at hx
            omega
  -- the invariant holds up to chunk `c`, and the pass at `c` stops
  have hstop := passes_stops
    (restore_pass fs_info img_opt (capacity fs_info.block_size.toNat) (used_count fs_info bm) bm)
    (I := fun v w => restore_inv fs_info img_opt bm w₀
      (start_cursor img_opt (stale_checksum plain_host img_opt)) (read_buffer_size fs_info img_opt)
      (capacity fs_info.block_size.toNat * fs_info.block_size.toNat) v w ∧
      w.copied_count ≤ c ∧ w.copied_count % capacity fs_info.block_size.toNat = 0 ∧
      (w.copied_count = 0 → v = restore_start fs_info img_opt (stale_host fs_info img_opt bm)))
    (fun _ w => used_count fs_info bm - w.copied_count) .outOfBounds
    (fun v w hvw => by
      obtain ⟨hinv, hle, hal, hfirst⟩ := hvw
      rcases Nat.eq_or_lt_of_le hle with hat | hlt
      · refine Or.inl (restore_pass_overrun hbs hg hfits hU hc halign hsize hinv hat le_rfl
          (by omega) hsched₀ hdfr₀ hunfit fun hwrap => ?_)
        have hzero : c = 0 := by
          by_contra hne
          have hlow := chunk_need_lt hg hU hc halign
            (hfit 0 (by omega) (Nat.zero_mod _)).1 (by omega)
          rw [u32_of_lt hlow] at hwrap
          omega
        refine ⟨hzero, ?_⟩
        rw [hfirst (hat.trans hzero)]
        have hlong : chunk_need fs_info img_opt bm c ≤ (zero_data fs_info img_opt bm).length :=
          chunk_need_le_zero_data hg hc
        change (zero_data fs_info img_opt bm ++ List.replicate _ 0).take _ = _
        rw [List.take_append_of_le_length (by omega)]
      · -- one more chunk that fits
        have hnext : w.copied_count + capacity fs_info.block_size.toNat ≤ c := by
          obtain ⟨x, hx⟩ := Nat.dvd_of_mod_eq_zero hal
          obtain ⟨y, hy⟩ := Nat.dvd_of_mod_eq_zero halign
          rw [hx, hy] at hlt ⊢
          have hxy := Nat.lt_of_mul_lt_mul_left hlt
          calc _ = capacity fs_info.block_size.toNat * (x + 1) := by ring
            _ ≤ _ := Nat.mul_le_mul_left _ hxy
        have hchunk : chunk_size fs_info bm w.copied_count = capacity fs_info.block_size.toNat := by
          unfold chunk_size; omega
        obtain ⟨p, w', hpass, hleads⟩ := restore_pass_spec hbs hg hfits rfl hU (u32_lt _)
          (by omega) le_rfl hinv (fun _ => hfit _ hlt hal)
        cases p with
        | next v' =>
            obtain ⟨hinv', hcount', -⟩ := hleads
            refine Or.inr ⟨v', w', hpass, ⟨hinv', by omega, ?_, by omega⟩, by omega⟩
            rw [hcount', hchunk, Nat.add_mod_right, hal]
        | done v' => exact absurd hleads.2 (by omega)
        | fail => exact absurd (hquiet _ (by omega)) hleads.2)
    (used_count fs_info bm + 1) _ w₀ (by omega)
    ⟨hinv, by omega, by rw [hc₀, Nat.zero_mod], fun _ => rfl⟩
  rw [hrun, hstop, error_bind]

end Run

/-- **An array too short for the register** is overrun before the first chunk. `init_checksum`
sets the register before the first chunk is read, so no content is needed for this one. -/
theorem restore_overruns_checksum (bm : bitmap) (hbs : 0 < fs_info.block_size.toNat)
    (hshort : ¬ checksum_fits img_opt) :
    read_write_data_restore fs_info img_opt plain_host bm (zero_world fs_info img_opt bm)
      = .error .outOfBounds := by
  obtain ⟨hmode, hlt⟩ : is_crc_mode img_opt.checksum_mode.toNat ∧
      ¬ 4 ≤ img_opt.checksum_size.toNat := by
    simpa [checksum_fits] using hshort
  have hinit := init_checksum_short (zero_world fs_info img_opt bm).cks hmode
    (a := plain_host.junk .checksum img_opt.checksum_size.toNat) (by rw [junk_length]; omega)
  have hseek : seek_dfw (zero_world fs_info img_opt bm) 0
      = (true, zero_world fs_info img_opt bm) := rfl
  have hmem : ∀ n, plain_host.malloc n = true := fun _ => rfl
  simp only [read_write_data_restore, buffer_capacity_of_pos hbs, ok_bind, hmem, Bool.and_self,
    Bool.not_true, Bool.false_eq_true, if_false, hseek, hinit, error_bind]

end Overrun

/-! ## The bounds of a restore -/

/-- **Which images are worked through inside the buffers.** In bounds, every run over the image
returns. Out of bounds, and unless a chunk's size is the one that a failed read returns, some
content takes a run out of a buffer. The first half is an invariant of the two loops, the second a
run: the smallest chunk out of bounds is reached, over zeros with right checksums, and overruns
the buffer there. -/
theorem restore_in_bounds_iff {fs_info : file_system_info} {img_opt : image_options} {bm : bitmap}
    (hbs : 1 ≤ fs_info.block_size.toNat) (hg : 1 ≤ img_opt.blocks_per_checksum.toNat)
    (hbm : fs_info.totalblock.toNat ≤ 64 * bm.length) (hlen : 8 * bm.length < 2 ^ 60) :
    (in_bounds fs_info img_opt bm → ∀ (host : Host) (w : World), w.copied_count = 0 →
      ∃ r, read_write_data_restore fs_info img_opt host bm w = .ok r) ∧
    ((∀ c < used_count fs_info bm, c % capacity fs_info.block_size.toNat = 0 →
        u32 (chunk_need fs_info img_opt bm c) ≠ 2 ^ 32 - 1) →
      ((∀ (host : Host) (w : World), w.copied_count = 0 →
        read_write_data_restore fs_info img_opt host bm w ≠ .error .outOfBounds) ↔
        in_bounds fs_info img_opt bm)) := by
  have hU : used_count fs_info bm < 2 ^ 63 := by
    have h : used_count fs_info bm ≤ fs_info.totalblock.toNat := by
      unfold used_count marked used_from
      refine (List.length_filter_le _ _).trans ?_
      rw [List.length_range', Nat.sub_zero]
    omega
  refine ⟨fun h host w hw => restore_returns hbs hg hU h host w hw, fun hodd => ⟨fun hsafe => ?_,
    fun h host w hw => ?_⟩⟩
  swap
  · obtain ⟨r, hr⟩ := restore_returns hbs hg hU h host w hw
    rw [hr]
    exact fun hbad => by cases hbad
  by_contra hout
  by_cases hfits : checksum_fits img_opt
  swap
  · exact hsafe _ _ rfl (restore_overruns_checksum bm hbs hfits)
  -- the first chunk that does not fit
  classical
  have hex : ∃ c, c < used_count fs_info bm ∧ c % capacity fs_info.block_size.toNat = 0 ∧
      reached fs_info img_opt bm c ∧ ¬ refused fs_info img_opt bm c ∧
      ¬ (chunk_need fs_info img_opt bm c < 2 ^ 31 ∧
        chunk_need fs_info img_opt bm c ≤ read_buffer_size fs_info img_opt) := by
    by_contra hnone
    refine hout ⟨hfits, fun c h1 h2 h3 h4 => ?_⟩
    by_contra h5
    exact hnone ⟨c, h1, h2, h3, h4, h5⟩
  obtain ⟨hc, halign, hreached, hread, hunfit⟩ := Nat.find_spec hex
  have hmin := fun c' (h : c' < Nat.find hex) => Nat.find_min hex h
  set c := Nat.find hex
  have hsize : u32 (chunk_need fs_info img_opt bm c) < 2 ^ 31 := by
    by_contra hbig
    exact hread ⟨by omega, hodd c hc halign⟩
  have hlt32 : read_buffer_size fs_info img_opt < 2 ^ 32 := u32_lt _
  have hover : read_buffer_size fs_info img_opt < chunk_need fs_info img_opt bm c := by
    by_contra hle
    rw [u32_of_lt (by omega)] at hsize
    exact hunfit ⟨hsize, by omega⟩
  have hfit : ∀ c' < c, c' % capacity fs_info.block_size.toNat = 0 →
      chunk_need fs_info img_opt bm c' < 2 ^ 31 ∧
        chunk_need fs_info img_opt bm c' ≤ read_buffer_size fs_info img_opt := by
    intro c' hc' halign'
    by_contra hbad
    refine hmin c' hc' ⟨by omega, halign', ⟨fun d hd => hreached.sizes d (by omega), ?_⟩,
      hreached.sizes c' hc' halign', hbad⟩
    obtain ⟨s, hs⟩ := hreached.places
    rw [← List.take_append_drop c' ((marked fs_info bm 0).take c), List.foldlM_append,
      List.take_take, Nat.min_eq_left hc'.le] at hs
    obtain ⟨s', hs', -⟩ := Option.bind_eq_some_iff.mp hs
    exact ⟨s', hs'⟩
  exact hsafe _ _ rfl (restore_overruns hbs hg hfits hU hc halign hsize hfit hreached.places hover)

/-- An image of one block whose checksums are two bytes long in a mode that computes four. -/
def short_options : image_options :=
  { init_image_options with checksum_size := 2, blocks_per_checksum := 1024 }

/-- One block of 1024 bytes. -/
def one_block_fs : file_system_info :=
  { init_file_system_info with totalblock := 1, usedblocks := 1, block_size := 1024 }

/-- The descriptor is accepted, and the first checksum is set up outside its array. -/
theorem restore_overruns_short_array :
    valid_desc (desc_section one_block_fs short_options) ∧
      1 ≤ one_block_fs.block_size.toNat ∧ 1 ≤ short_options.blocks_per_checksum.toNat ∧
      read_write_data_restore one_block_fs short_options plain_host [1]
        (zero_world one_block_fs short_options [1]) = .error .outOfBounds :=
  ⟨valid_desc_section _ _, by decide, by decide,
    restore_overruns_checksum [1] (by decide)
      fun h => absurd (h (by decide)) (by decide)⟩

/-- Four blocks, of which two fill the buffer. -/
def gap_fs : file_system_info :=
  { init_file_system_info with totalblock := 4, usedblocks := 3, block_size := 524288 }

/-- The options that `set_image_options` and the handlers set for it. -/
def gap_options : image_options := { init_image_options with blocks_per_checksum := 2 }

theorem gap_used : used_count gap_fs [13] = 3 := by decide

/-- Nothing is overrun where the second block is free: the last of the three others is a chunk of its
own, with the trailing checksum behind it. -/
theorem restore_in_bounds_two_chunks :
    in_bounds gap_fs gap_options [13] ∧
    ∀ (host : Host) (w : World), w.copied_count = 0 →
      read_write_data_restore gap_fs gap_options host [13] w
        ≠ .error .outOfBounds := by
  -- the chunks start at 0 and at 2
  have hchunk : ∀ c < used_count gap_fs [13], c % capacity gap_fs.block_size.toNat = 0 →
      c = 0 ∨ c = 2 := by
    intro c hc halign
    have hcap : capacity gap_fs.block_size.toNat = 2 := by decide
    rw [gap_used] at hc
    rw [hcap] at halign
    omega
  have hin : in_bounds gap_fs gap_options [13] := by
    refine ⟨fun _ => by decide, fun c hc halign _ _ => ?_⟩
    rcases hchunk c hc halign with rfl | rfl <;> decide
  refine ⟨hin, ((restore_in_bounds_iff (by decide) (by decide) (by decide) (by decide)).2
    fun c hc halign => ?_).mpr hin⟩
  rcases hchunk c hc halign with rfl | rfl <;> decide

end SysbakAdmin.BufferBounds

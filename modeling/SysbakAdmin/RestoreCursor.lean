/-
The two nested loops of `read_write_data_restore`, whatever the image holds and however
the transfers end.

The inner loop goes on only as long as blocks of the chunk are owed, and a marked block is
left for each block owed (`cursor_inv`): the chunks are cut from the recomputed count, and
the cursor, `copied_count` and the blocks written move together. So both loops end.

Where the target stands is another matter. It is moved by relative seeks whose distance
is computed in 64 bits, and a block size of `2 ^ 32 - 1` makes a failed write look like a
whole one; `exact_places` leaves these out where a block is marked at all, and under it the
target stands at the cursor at the start of every pass of either loop.

So the claim has two parts of different reach. That both loops end, and that the blocks written
are counted, holds for every image; that the target stands where the cursor is needs the
condition, and `restore_out_of_step` is an image without it.
-/
import SysbakAdmin.Divisors
import SysbakAdmin.Counts
import SysbakAdmin.BufferBounds

set_option autoImplicit false

namespace SysbakAdmin.RestoreCursor

open LittleEndian ByteStore CInt CMemory DoWhile Transfer FileIo
open Bitmap Checksum Io Share Backup ImageWriter Restore ReaderLoops ImageReader Counts Divisors

/-! ## Marked blocks below the cursor -/

/-- The marked blocks below block `b`. -/
def bits_below (bm : bitmap) (b : ℕ) : ℕ := ((Finset.range b).filter (bit bm · = true)).card

/-- The marked blocks, cut at a block. -/
theorem used_from_split (bm : bitmap) {total b : ℕ} (h : b ≤ total) :
    used_from bm total 0 = used_from bm b 0 ++ used_from bm total b := by
  simp only [used_from, Nat.sub_zero]
  rw [← List.filter_append, ← Nat.add_sub_cancel' h, Nat.add_sub_cancel_left]
  have hrange := @List.range'_append 0 b (total - b) 1
  rw [Nat.zero_add, Nat.one_mul] at hrange
  rw [hrange]

/-- A cursor with everything below it copied. -/
theorem bits_below_of_used {fs_info : file_system_info} {bm : bitmap} {b c : ℕ}
    (hb : b ≤ fs_info.totalblock.toNat) (hc : c ≤ used_count fs_info bm)
    (hused : marked fs_info bm b = (marked fs_info bm 0).drop c) : bits_below bm b = c := by
  have hlen := congrArg List.length (used_from_split bm hb)
  have hrest := congrArg List.length hused
  rw [List.length_append] at hlen
  rw [List.length_drop] at hrest
  rw [bits_below, ← used_from_length]
  change _ = _ + (marked fs_info bm b).length at hlen
  change used_count fs_info bm = _ at hlen
  change _ = used_count fs_info bm - c at hrest
  omega

/-- There is no more marked than the array has bits. -/
theorem used_count_le (fs_info : file_system_info) (bm : bitmap) :
    used_count fs_info bm ≤ 64 * bm.length := by
  have hsub : ∀ x ∈ marked fs_info bm 0, x < 64 * bm.length := by
    intro x hx
    by_contra hge
    have hbit := (mem_used_from.mp hx).2.2
    rw [bit, List.getD_eq_default _ _ (by omega)] at hbit
    simp at hbit
  have hle := (List.subperm_of_subset (used_from_nodup bm _ 0)
    (show _ ⊆ List.range (64 * bm.length) from
      fun x hx => List.mem_range.mpr (hsub x hx))).length_le
  rwa [List.length_range] at hle

/-! ## The write loop

Its invariant is that the marked blocks from its cursor on are those that have not been written,
of the ones that the chunk owes. -/

/-- The target can follow the cursor: no failed write of a block passes for a whole one, and
every block that is marked has its offset in 64 bits. -/
structure exact_places (fs_info : file_system_info) (bm : bitmap) : Prop where
  block_size : (∃ x < fs_info.totalblock.toNat, bit bm x = true) →
    fs_info.block_size.toNat ≠ 2 ^ 32 - 1
  offsets : ∀ x < fs_info.totalblock.toNat, bit bm x = true →
    x * fs_info.block_size.toNat < 2 ^ 64

section Write

variable (fs_info : file_system_info) (bm : bitmap) (n b₁ : ℕ) (w₁ : World)

/-- What holds at the start of a pass of the write loop that began at block `b₁` in `w₁`,
for a chunk of `n` blocks. -/
structure cursor_inv (v : write_vars) (w : World) : Prop where
  block_id : v.block_id ≤ fs_info.totalblock.toNat
  used : marked fs_info bm v.block_id = (marked fs_info bm b₁).drop v.blocks_written
  count : w.copied_count = w₁.copied_count + v.blocks_written
  position : exact_places fs_info bm → w₁.dfw.pos = b₁ * fs_info.block_size.toNat →
    w.dfw.pos = v.block_id * fs_info.block_size.toNat

/-- What a pass has done: it has written the blocks that it counts, in one piece. It says nothing
of what was written, which is the buffer's affair. -/
structure pass_wrote (v : write_vars) (w : World) (v' : write_vars) (w' : World) : Prop where
  counted : w'.copied_count = w.copied_count + (v'.blocks_written - v.blocks_written)
  forward : v.blocks_written < v'.blocks_written
  written : exact_places fs_info bm → ∃ q x, w'.dfw = ({ w.dfw with pos := q } : File).written x ∧
    x.length = (v'.blocks_written - v.blocks_written) * fs_info.block_size.toNat

variable {fs_info bm n b₁ w₁} {v : write_vars} {w : World}

/-- A write, whatever its size: complete exactly when the result is the count. The count `2 ^ 32 -
1` is excepted, as its `int` is what a failure returns. -/
theorem write_io_all_ok {buf : List Byte} {k : ℕ} {r : ℤ} {w' : World} (hk : k < 2 ^ 32)
    (hpos : 0 < k) (hodd : k ≠ 2 ^ 32 - 1) (h : write_io_all w buf k = .ok (r, w')) :
    w'.copied_count = w.copied_count ∧
      (r = i32 k → ∃ x, w'.dfw = w.dfw.written x ∧ x.length = k) := by
  rw [write_io_all, if_pos (by omega)] at h
  obtain ⟨x, hload, h⟩ := bind_eq_ok.mp h
  obtain ⟨hle, hslice⟩ := load_eq_ok.mp hload
  obtain ⟨rfl, rfl⟩ := Prod.mk.inj (Except.ok.inj h)
  refine ⟨rfl, fun hr => ?_⟩
  obtain ⟨e, -, hfile, hst⟩ := write_all_spec w.sched w.dfw x
  have hxlen : x.length = k := by
    rw [← hslice, slice_length]
    omega
  have hcomplete : (write_all w.sched w.dfw x).1 = .complete := by
    by_contra hne
    have hshort := io_result_short k hne
    rw [hr, i32, u32_of_lt hk] at hshort
    rcases hshort with h | h <;> split_ifs at h <;> omega
  rw [hst.mp hcomplete, List.take_length] at hfile
  exact ⟨x, hfile, hxlen⟩

theorem write_io_all_copied {buf : List Byte} {k : ℕ} {r : ℤ} {w' : World}
    (h : write_io_all w buf k = .ok (r, w')) : w'.copied_count = w.copied_count := by
  unfold write_io_all at h
  split_ifs at h
  · obtain ⟨x, -, h⟩ := bind_eq_ok.mp h
    obtain ⟨rfl, rfl⟩ := Prod.mk.inj (Except.ok.inj h)
    rfl
  · obtain ⟨rfl, rfl⟩ := Prod.mk.inj (Except.ok.inj h)
    rfl

/-- A seek to an offset below `2 ^ 64` ends there or fails. -/
theorem seek_over_exact {block_size b b' q : ℕ} (hb : b ≤ b') (h : b' * block_size < 2 ^ 64)
    (hseek : seek_over block_size (b' - b) (b * block_size) = some q) : q = b' * block_size := by
  have hle : b * block_size ≤ b' * block_size := Nat.mul_le_mul_right _ hb
  have hgap : (b' - b) * block_size = b' * block_size - b * block_size := Nat.sub_mul _ _ _
  rw [seek_over, hgap, u64_of_lt (by omega)] at hseek
  unfold off_t at hseek
  rw [u64_of_lt (by omega)] at hseek
  split_ifs at hseek <;> have := Option.some.inj hseek <;> omega

/-- **One pass of the write loop**, whatever the buffer holds: it stops at the end of a buffer,
or fails, or has written what it counts and moved the cursor behind it. -/
theorem restore_write_pass_cursor (write_buffer : List Byte) (hbs : 0 < fs_info.block_size.toNat)
    (hncap : n ≤ capacity fs_info.block_size.toNat)
    (hn : n ≤ (marked fs_info bm b₁).length) (hcount : w₁.copied_count + n < 2 ^ 64)
    (hinv : cursor_inv fs_info bm b₁ w₁ v w) (hlt : v.blocks_written < n) :
    (∃ t, restore_write_pass fs_info bm n write_buffer v w = .error t ∧ t = .outOfBounds) ∨
    ∃ p w', restore_write_pass fs_info bm n write_buffer v w = .ok (p, w') ∧
      p.leads
        (fun v' w' => cursor_inv fs_info bm b₁ w₁ v' w' ∧ v'.blocks_written < n ∧
          pass_wrote fs_info bm v w v' w')
        (fun v' w' => cursor_inv fs_info bm b₁ w₁ v' w' ∧ v'.blocks_written = n ∧
          pass_wrote fs_info bm v w v' w')
        (fun _ => True) w' := by
  set bs := fs_info.block_size.toNat with hbsdef
  set j := v.blocks_written with hj
  -- the next run: it exists because fewer than `n` blocks have been written
  set skipped := skip_loop bm fs_info.totalblock.toNat (fs_info.totalblock.toNat - v.block_id)
    v.block_id with hskipped
  set b' := v.block_id + skipped with hb'
  set k := read_loop bm fs_info.totalblock.toNat (n - j) b' with hk
  have hsome : marked fs_info bm v.block_id ≠ [] := by
    intro hnil
    rw [hinv.used, ← hj] at hnil
    have := congrArg List.length hnil
    rw [List.length_drop, List.length_nil] at this
    omega
  obtain ⟨hmore, hbit, hkpos, hr1, hr2, hused⟩ :=
    skip_read_loop_spec hinv.block_id (show 0 < n - j by omega) hsome hb'.symm hk.symm
  have hdrop : (marked fs_info bm b₁).drop j = List.range' b' k ++ marked fs_info bm (b' + k) := by
    rw [← hinv.used]
    exact hused
  have hkbytes : k * bs < 2 ^ 32 := by
    have h1 := Nat.mul_le_mul_right bs (show k ≤ capacity bs by omega)
    have h2 := capacity_mul_le bs
    have h3 : DEFAULT_BUFFER_SIZE = 2 ^ 20 := rfl
    have h4 : bs < 2 ^ 32 := fs_info.block_size.isLt
    omega
  have hkbs := Nat.mul_pos hkpos hbs
  have hgap : b' - v.block_id = skipped := by omega
  rcases seek_skip_spec bs skipped w with ⟨q, hseek, hq⟩ | ⟨hseek, -⟩
  swap
  · refine Or.inr ⟨.fail, { w with io_failed := w.io_failed + 1 }, ?_, trivial⟩
    simp only [restore_write_pass, ← hskipped, ← hbsdef, hseek, Bool.not_false, if_true, pure_eq]
  cases hwrite : write_io_all { w with dfw := { w.dfw with pos := q } }
      (write_buffer.drop (j * bs)) (k * bs) with
  | error t =>
      refine Or.inl ⟨t, ?_, write_io_all_only_stops _ _ _ t hwrite⟩
      simp only [restore_write_pass, ← hskipped, ← hbsdef, hseek, Bool.not_true, Bool.false_eq_true,
        if_false, ← hj, ← hb', ← hk, gt_iff_lt, hkpos, if_true, u32_of_lt hkbytes, hwrite,
        error_bind]
  | ok r =>
      obtain ⟨r, w₃⟩ := r
      by_cases hr : r = i32 (k * bs)
      swap
      · refine Or.inr ⟨.fail, w₃, ?_, trivial⟩
        simp only [restore_write_pass, ← hskipped, ← hbsdef, hseek, Bool.not_true,
          Bool.false_eq_true, if_false, ← hj, ← hb', ← hk, gt_iff_lt, hkpos, if_true,
          u32_of_lt hkbytes, hwrite, ok_bind, toInt32_i32_mul, hr, decide_false, Bool.not_false,
          pure_eq]
      have hcopied₃ : w₃.copied_count = w.copied_count := (write_io_all_copied hwrite).trans rfl
      set w₄ := emit_progress { w₃ with copied_count := u64 (w₃.copied_count + k) } fs_info
        (u64 (w₃.copied_count + k)) with hw₄
      have hcopied₄ : w₄.copied_count = w.copied_count + k := by
        have hc := hinv.count
        change u64 (w₃.copied_count + k) = _
        rw [hcopied₃, u64_of_lt (by omega)]
      -- under `exact_places` the result tells a whole write
      have hwhole : exact_places fs_info bm → ∃ x,
          w₄.dfw = ({ w.dfw with pos := q } : File).written x ∧ x.length = k * bs := by
        intro hex
        refine (write_io_all_ok hkbytes hkbs (fun hodd => ?_) hwrite).2 hr
        -- only one block of that size has so many bytes
        have h1 := Nat.mul_le_mul_right bs (show k ≤ capacity bs by omega)
        have h2 := capacity_mul_le bs
        have h3 : DEFAULT_BUFFER_SIZE = 2 ^ 20 := rfl
        have h4 : bs < 2 ^ 32 := fs_info.block_size.isLt
        have h5 := hex.block_size ⟨b', hmore, hbit⟩
        omega
      have hnext : cursor_inv fs_info bm b₁ w₁ ⟨b' + k, j + k⟩ w₄ := by
        refine ⟨hr2, ?_, ?_, fun hex hpos => ?_⟩
        · dsimp only
          rw [← List.drop_drop, hdrop, List.drop_left' List.length_range']
        · have hc := hinv.count
          dsimp only
          omega
        · obtain ⟨x, hdfw, hx⟩ := hwhole hex
          rw [hinv.position hex hpos, ← hgap] at hq
          have hqeq := seek_over_exact (by omega) (hex.offsets b' hmore hbit) hq
          rw [hdfw, written_pos, hx, Nat.add_mul, hqeq]
      have hwrote : pass_wrote fs_info bm v w ⟨b' + k, j + k⟩ w₄ := by
        refine ⟨?_, ?_, fun hex => ?_⟩
        · rw [hcopied₄]
          dsimp only
          omega
        · dsimp only
          omega
        · obtain ⟨x, hdfw, hx⟩ := hwhole hex
          refine ⟨q, x, hdfw, ?_⟩
          rw [hx]
          dsimp only
          rw [← hj, Nat.add_sub_cancel_left]
      have hrun : restore_write_pass fs_info bm n write_buffer v w
          = .ok (if j + k < n then .next ⟨b' + k, j + k⟩ else .done ⟨b' + k, j + k⟩, w₄) := by
        simp only [restore_write_pass, ← hskipped, ← hbsdef, hseek, Bool.not_true,
          Bool.false_eq_true, if_false, ← hj, ← hb', ← hk, gt_iff_lt, hkpos, if_true,
          u32_of_lt hkbytes, hwrite, ok_bind, toInt32_i32_mul, hr, decide_true, pure_eq, ← hw₄]
        split_ifs <;> rfl
      by_cases hlast : j + k < n
      · rw [if_pos hlast] at hrun
        exact Or.inr ⟨_, w₄, hrun, hnext, hlast, hwrote⟩
      · rw [if_neg hlast] at hrun
        exact Or.inr ⟨_, w₄, hrun, hnext, by dsimp only; omega, hwrote⟩

end Write

/-! ## The chunks

A chunk is cut from the count of blocks that are still owed, so it never owes more than there
are marked blocks left. -/

section Chunks

variable (fs_info : file_system_info) (bm : bitmap) (w₀ : World)

/-- What holds at the start of a pass over the chunks of a restore that began in `w₀`. The marked
blocks from the cursor on are as many as are still to be read. -/
structure chunk_inv (v : restore_vars) (w : World) : Prop where
  copied : w.copied_count ≤ used_count fs_info bm
  block_id : v.block_id ≤ fs_info.totalblock.toNat
  used : marked fs_info bm v.block_id = (marked fs_info bm 0).drop w.copied_count
  position : exact_places fs_info bm → w₀.dfw.pos = 0 →
    w.dfw.pos = v.block_id * fs_info.block_size.toNat

variable {fs_info bm w₀} {img_opt : image_options} {v : restore_vars} {w : World}

theorem read_io_all_keeps {buf buf' : List Byte} {k : ℕ} {r : ℤ} {w' : World}
    (h : read_io_all w buf k = .ok (r, buf', w')) :
    w'.dfw = w.dfw ∧ w'.copied_count = w.copied_count := by
  unfold read_io_all at h
  split_ifs at h
  · dsimp only at h
    split_ifs at h
    obtain ⟨-, h⟩ := Prod.mk.inj (Except.ok.inj h)
    obtain ⟨-, rfl⟩ := Prod.mk.inj h
    exact ⟨rfl, rfl⟩
  · obtain ⟨-, h⟩ := Prod.mk.inj (Except.ok.inj h)
    obtain ⟨-, rfl⟩ := Prod.mk.inj h
    exact ⟨rfl, rfl⟩

/-- The write loop of a chunk starts with its invariant. -/
theorem chunk_inv.enter (hinv : chunk_inv fs_info bm w₀ v w) (w₁ : World) :
    cursor_inv fs_info bm v.block_id w₁ ⟨v.block_id, 0⟩ w₁ :=
  ⟨hinv.block_id, rfl, rfl, fun _ hpos => hpos⟩

/-- The blocks of a chunk are still marked behind the cursor. -/
theorem chunk_inv.owed (hinv : chunk_inv fs_info bm w₀ v w) :
    chunk_size fs_info bm w.copied_count ≤ (marked fs_info bm v.block_id).length := by
  rw [hinv.used, List.length_drop]
  exact Nat.min_le_right _ _

/-- **One chunk**, whatever the buffers hold. It ends at the end of a buffer, or fails, or is the
last, or goes on with the invariant and with more blocks counted than before; the measure of the
outer loop falls with that. -/
theorem restore_pass_cursor (img_opt : image_options) (hbs : 0 < fs_info.block_size.toNat)
    (hU : used_count fs_info bm < 2 ^ 63) (hinv : chunk_inv fs_info bm w₀ v w) :
    (∃ t, restore_pass fs_info img_opt (capacity fs_info.block_size.toNat)
        (used_count fs_info bm) bm v w = .error t ∧ t = .outOfBounds) ∨
    ∃ p w', restore_pass fs_info img_opt (capacity fs_info.block_size.toNat)
        (used_count fs_info bm) bm v w = .ok (p, w') ∧
      p.leads
        (fun v' w' => chunk_inv fs_info bm w₀ v' w' ∧ w'.copied_count
          = w.copied_count + chunk_size fs_info bm w.copied_count ∧
          w.copied_count < used_count fs_info bm)
        (fun _ w' => w'.copied_count = used_count fs_info bm) (fun _ => True) w' := by
  have hchunk := chunk_blocks_eq hU hinv.copied
  rcases Nat.eq_or_lt_of_le hinv.copied with hend | hlt
  · have hzero : chunk_size fs_info bm w.copied_count = 0 := by
      unfold chunk_size
      omega
    exact Or.inr ⟨.done v, w, by simp only [restore_pass, hchunk, hzero, if_true, pure_eq], hend⟩
  have hnpos := chunk_size_pos hlt
  have hn0 : ¬ chunk_size fs_info bm w.copied_count = 0 := by omega
  have hcn := chunk_size_le fs_info bm hlt.le
  set n := chunk_size fs_info bm w.copied_count with hn
  set read_size := chunk_read_size fs_info img_opt (capacity fs_info.block_size.toNat)
    (used_count fs_info bm) w.copied_count n with hsize
  -- the read and the block loop move neither the target nor the count
  cases hread : read_io_all w v.read_buffer (u64OfInt read_size) with
  | error t =>
      refine Or.inl ⟨t, ?_, read_io_all_only_stops _ _ _ t hread⟩
      simp only [restore_pass, hchunk, hn0, if_false, ← hsize, hread, error_bind]
  | ok r =>
  obtain ⟨r, buffer, w₂⟩ := r
  obtain ⟨hdfw₂, hcopied₂⟩ := read_io_all_keeps hread
  by_cases hr : r = read_size
  swap
  · refine Or.inr ⟨.fail, w₂, ?_, trivial⟩
    simp only [restore_pass, hchunk, hn0, if_false, ← hsize, hread, ok_bind, ne_eq, hr,
      not_false_eq_true, if_true, pure_eq]
  cases hloop : restore_chunk fs_info img_opt (capacity fs_info.block_size.toNat) n buffer
      ⟨v.write_buffer, v.checksum, v.blocks_in_cs, 0, w₂.cks⟩ with
  | error t =>
      refine Or.inl ⟨t, ?_, restore_chunk_only_stops _ _ _ _ _ _ t hloop⟩
      simp only [restore_pass, hchunk, hn0, if_false, ← hsize, hread, ok_bind, ne_eq, hr,
        not_true_eq_false, hloop, error_bind]
  | ok b =>
  cases b with
  | none =>
      refine Or.inr ⟨.fail, w₂, ?_, trivial⟩
      simp only [restore_pass, hchunk, hn0, if_false, ← hsize, hread, ok_bind, ne_eq, hr,
        not_true_eq_false, hloop, pure_eq]
  | some b =>
  set w₃ : World := { w₂ with cks := b.cks } with hw₃
  have hcopied₃ : w₃.copied_count = w.copied_count := hcopied₂
  have hdfw₃ : w₃.dfw = w.dfw := hdfw₂
  -- the write loop
  rcases passes_ends (restore_write_pass fs_info bm n b.write_buffer)
    (I := fun v' w' => cursor_inv fs_info bm v.block_id w₃ v' w' ∧ v'.blocks_written < n)
    (D := fun v' w' => cursor_inv fs_info bm v.block_id w₃ v' w' ∧ v'.blocks_written = n)
    (F := fun _ => True) (P := (· = .outOfBounds)) (fun v' _ => n - v'.blocks_written)
    (fun v' w' h => by
      rcases restore_write_pass_cursor _ hbs (Nat.min_le_left _ _) hinv.owed (by omega) h.1 h.2 with
        hstop | ⟨p, w'', hp, hleads⟩
      · exact Or.inl hstop
      · refine Or.inr ⟨p, w'', hp, ?_⟩
        cases p with
        | next v'' =>
            have := hleads.2.2.forward
            exact ⟨⟨hleads.1, hleads.2.1⟩, by omega⟩
        | done v'' => exact ⟨hleads.1, hleads.2.1⟩
        | fail => trivial)
    (n + 1) ⟨v.block_id, 0⟩ w₃ (by dsimp only; omega) ⟨hinv.enter w₃, hnpos⟩ with
    ⟨t, ht, hoob⟩ | ⟨wr, w₄, hpasses, hends⟩
  · refine Or.inl ⟨t, ?_, hoob⟩
    simp only [restore_pass, hchunk, hn0, if_false, ← hsize, hread, ok_bind, ne_eq, hr,
      not_true_eq_false, hloop, ← hw₃, ht, error_bind]
  cases wr with
  | none =>
      refine Or.inr ⟨.fail, w₄, ?_, trivial⟩
      simp only [restore_pass, hchunk, hn0, if_false, ← hsize, hread, ok_bind, ne_eq, hr,
        not_true_eq_false, hloop, ← hw₃, hpasses, pure_eq]
  | some wv =>
      obtain ⟨hat, hwn⟩ := hends
      have hcount : w₄.copied_count = w.copied_count + n := by rw [hat.count, hcopied₃, hwn]
      refine Or.inr ⟨.next ⟨wv.block_id, buffer, b.write_buffer, b.checksum, b.blocks_in_cs⟩, w₄,
        ?_, ⟨?_, hat.block_id, ?_, fun hex hpos => ?_⟩, hcount, hlt⟩
      · simp only [restore_pass, hchunk, hn0, if_false, ← hsize, hread, ok_bind, ne_eq, hr,
          not_true_eq_false, hloop, ← hw₃, hpasses, pure_eq]
      · omega
      · dsimp only
        rw [hat.used, hinv.used, hwn, List.drop_drop, hcount]
      · exact hat.position hex (by rw [hdfw₃]; exact hinv.position hex hpos)

end Chunks

/-! ## A restore -/

section Run

variable (fs_info : file_system_info) (img_opt : image_options) (bm : bitmap) (host : Host)

/-- The variables and the state with which a restore in `w` enters its outer loop. -/
def enters (w : World) (v₀ : restore_vars) (w₀ : World) : Prop :=
  (seek_dfw w 0).1 = true ∧ ∃ checksum cks,
    init_checksum (seek_dfw w 0).2.cks img_opt.checksum_mode.toNat
        (host.junk .checksum img_opt.checksum_size.toNat) = .ok (checksum, cks) ∧
      v₀ = ⟨0, host.junk .read_buffer (read_buffer_size fs_info img_opt),
        host.junk .write_buffer (u32 (capacity fs_info.block_size.toNat
          * fs_info.block_size.toNat)), checksum, 0⟩ ∧
      w₀ = { (seek_dfw w 0).2 with cks := cks }

/-- The cursor of the bitmap, the count and the target agree. It is asked in every state that a
run comes to, not at the end only. -/
structure in_step (b : ℕ) (w : World) : Prop where
  block_id : b ≤ fs_info.totalblock.toNat
  copied : w.copied_count = bits_below bm b
  position : w.dfw.pos = b * fs_info.block_size.toNat

variable {fs_info img_opt bm host}

/-- The outer loop is entered with its invariant, or the call returns before. -/
theorem read_write_data_restore_enters (img_opt : image_options) (bm : bitmap) (host : Host)
    (hbs : 0 < fs_info.block_size.toNat) (w : World) :
    (∃ r, read_write_data_restore fs_info img_opt host bm w = .ok (false, r)) ∨
    (∃ t, read_write_data_restore fs_info img_opt host bm w = .error t ∧ t = .outOfBounds) ∨
    ∃ v₀ w₀, enters fs_info img_opt host w v₀ w₀ ∧
      read_write_data_restore fs_info img_opt host bm w
        = passes (restore_pass fs_info img_opt (capacity fs_info.block_size.toNat)
            (used_count fs_info bm) bm) (used_count fs_info bm + 1) v₀ w₀
          >>= fun r => .ok (r.1.isSome, r.2) := by
  have hcount : get_blocks_used fs_info.totalblock.toNat bm fs_info.usedblocks.toNat
      = used_count fs_info bm := get_blocks_used_eq _ _ bm
  have hsize : u32 (convert_blocks_to_bytes 0 (capacity fs_info.block_size.toNat)
      fs_info.block_size.toNat img_opt.blocks_per_checksum.toNat img_opt.checksum_size.toNat)
      = read_buffer_size fs_info img_opt := rfl
  -- the allocations, the seek and the digest: the loop is entered if none of them stops
  cases hmem : (host.malloc (read_buffer_size fs_info img_opt)
      && host.malloc (u32 (capacity fs_info.block_size.toNat * fs_info.block_size.toNat))) with
  | false =>
      refine Or.inl ⟨w, ?_⟩
      simp only [read_write_data_restore, buffer_capacity_of_pos hbs, ok_bind, hsize, hmem,
        Bool.not_false, if_true, pure_eq]
  | true =>
  cases hseek : seek_dfw w 0 with
  | mk ok w₁ =>
  cases ok with
  | false =>
      refine Or.inl ⟨w₁, ?_⟩
      simp only [read_write_data_restore, buffer_capacity_of_pos hbs, ok_bind, hsize, hmem,
        Bool.not_true, Bool.not_false, Bool.false_eq_true, if_false, if_true, hseek, pure_eq]
  | true =>
  cases hinit : init_checksum w₁.cks img_opt.checksum_mode.toNat
      (host.junk .checksum img_opt.checksum_size.toNat) with
  | error t =>
      refine Or.inr (Or.inl ⟨t, ?_, init_checksum_stops hinit⟩)
      simp only [read_write_data_restore, buffer_capacity_of_pos hbs, ok_bind, hsize, hmem,
        Bool.not_true, Bool.false_eq_true, if_false, hseek, hinit, error_bind]
  | ok r =>
      obtain ⟨checksum, cks⟩ := r
      refine Or.inr (Or.inr ⟨_, { w₁ with cks := cks }, ⟨by rw [hseek], checksum, cks,
        by rw [hseek]; exact hinit, rfl, by rw [hseek]⟩, ?_⟩)
      simp only [read_write_data_restore, buffer_capacity_of_pos hbs, ok_bind, hsize, hmem,
        Bool.not_true, Bool.false_eq_true, if_false, hseek, hinit, hcount, pure_eq]

/-- What holds when the outer loop is entered. -/
theorem chunk_inv_of_enters (bm : bitmap) {w : World} (hcopied : w.copied_count = 0) {v₀ : restore_vars}
    {w₀ : World} (h : enters fs_info img_opt host w v₀ w₀) :
    chunk_inv fs_info bm w₀ v₀ w₀ ∧ w₀.dfw.pos = 0 ∧ w₀.copied_count = 0 := by
  obtain ⟨hok, checksum, cks, -, rfl, rfl⟩ := h
  have hseek : seek_dfw w 0 = (true, { w with dfw := { w.dfw with pos := 0 } }) := by
    rcases seek_dfw_spec w 0 (by omega) with ⟨h, -⟩ | ⟨h, -⟩
    · exact h
    · rw [h] at hok
      cases hok
  rw [hseek]
  dsimp only
  refine ⟨⟨?_, Nat.zero_le _, ?_, fun _ _ => (Nat.zero_mul _).symm⟩, rfl, hcopied⟩
  · dsimp only
    omega
  · dsimp only
    rw [hcopied, List.drop_zero]

/-- **The outer loop keeps its invariant.** The induction is that of `starts_invariant`: a pass
that goes on has led to the invariant again. -/
theorem chunk_inv_of_starts (hbs : 0 < fs_info.block_size.toNat)
    (hU : used_count fs_info bm < 2 ^ 63) {v₀ v : restore_vars} {w₀ w : World}
    (h : starts (restore_pass fs_info img_opt (capacity fs_info.block_size.toNat)
      (used_count fs_info bm) bm) v₀ w₀ v w) (hinv : chunk_inv fs_info bm w₀ v₀ w₀) :
    chunk_inv fs_info bm w₀ v w := by
  refine starts_invariant _ (I := chunk_inv fs_info bm w₀) (fun a s a' s' ha hstep => ?_) h hinv
  rcases restore_pass_cursor img_opt hbs hU ha with ⟨t, ht, -⟩ | ⟨p, s'', hp, hleads⟩
  · rw [ht] at hstep
    cases hstep
  · rw [hp] at hstep
    obtain ⟨rfl, rfl⟩ := Prod.mk.inj (Except.ok.inj hstep)
    exact hleads.1

/-- **The inner loop keeps its invariant**, with blocks still owed. The bound on what is written
is part of it, since the loop's own test stands in front of the state and is what leaves a marked
block to go to. -/
theorem cursor_inv_of_starts (hbs : 0 < fs_info.block_size.toNat) {n b₁ : ℕ}
    (hncap : n ≤ capacity fs_info.block_size.toNat)
    (hn : n ≤ (marked fs_info bm b₁).length) {w₁ : World} (hcount : w₁.copied_count + n < 2 ^ 64)
    {write_buffer : List Byte} {v₁ v : write_vars} {w : World}
    (h : starts (restore_write_pass fs_info bm n write_buffer) v₁ w₁ v w)
    (hinv : cursor_inv fs_info bm b₁ w₁ v₁ w₁ ∧ v₁.blocks_written < n) :
    cursor_inv fs_info bm b₁ w₁ v w ∧ v.blocks_written < n := by
  refine starts_invariant _ (I := fun v w => cursor_inv fs_info bm b₁ w₁ v w ∧
    v.blocks_written < n) (fun a s a' s' ha hstep => ?_) h hinv
  rcases restore_write_pass_cursor write_buffer hbs hncap hn hcount ha.1 ha.2 with
    ⟨t, ht, -⟩ | ⟨p, s'', hp, hleads⟩
  · rw [ht] at hstep
    cases hstep
  · rw [hp] at hstep
    obtain ⟨rfl, rfl⟩ := Prod.mk.inj (Except.ok.inj hstep)
    exact ⟨hleads.1, hleads.2.1⟩

/-- The chunks end, with every marked block counted. The measure is what is still owed, and a pass
that goes on has taken some of it. -/
theorem restore_ends (img_opt : image_options) (host : Host)
    (hbs : 0 < fs_info.block_size.toNat) (hU : used_count fs_info bm < 2 ^ 63)
    {w : World} (hcopied : w.copied_count = 0) :
    (∃ t, read_write_data_restore fs_info img_opt host bm w = .error t ∧ t = .outOfBounds) ∨
    ∃ ok w', read_write_data_restore fs_info img_opt host bm w = .ok (ok, w') ∧
      (ok = true → w'.copied_count = used_count fs_info bm) := by
  rcases read_write_data_restore_enters img_opt bm host hbs w with
    ⟨w', hrun⟩ | hstop | ⟨v₀, w₀, hent, hrun⟩
  · exact Or.inr ⟨false, w', hrun, by simp⟩
  · exact Or.inl hstop
  obtain ⟨hinv, -, hzero⟩ := chunk_inv_of_enters bm hcopied hent
  -- used blocks left: each pass takes at least one
  rcases passes_ends (restore_pass fs_info img_opt (capacity fs_info.block_size.toNat)
      (used_count fs_info bm) bm) (I := chunk_inv fs_info bm w₀)
    (D := fun _ w' => w'.copied_count = used_count fs_info bm) (F := fun _ => True)
    (P := (· = .outOfBounds)) (fun _ w' => used_count fs_info bm - w'.copied_count)
    (fun v w' h => by
      rcases restore_pass_cursor img_opt hbs hU h with hstop | ⟨p, w'', hp, hleads⟩
      · exact Or.inl hstop
      · refine Or.inr ⟨p, w'', hp, ?_⟩
        cases p with
        | next v' =>
            obtain ⟨hinv', hcount, hlt⟩ := hleads
            have := chunk_size_pos hlt
            have := chunk_size_le fs_info bm hlt.le
            exact ⟨hinv', by omega⟩
        | done v' => exact hleads
        | fail => trivial)
    (used_count fs_info bm + 1) v₀ w₀ (by omega) hinv with ⟨t, ht, hoob⟩ | ⟨r, w', hr, hends⟩
  · exact Or.inl ⟨t, by rw [hrun, ht, error_bind], hoob⟩
  · rw [hr, ok_bind] at hrun
    refine Or.inr ⟨_, w', hrun, fun hsome => ?_⟩
    cases r with
    | none => cases hsome
    | some v => exact hends

/-- **A restore ends, and its cursor, its count and its target stay in step**: at the start of
every pass over the chunks and of every pass of the write loop in one, and with `TRUE` the blocks
it has written are as many as are marked. The three are one invariant, and the measure is the
number of blocks that are owed. The places come in through `exact_places` alone: the distance of a
seek is what 64 bits can hold, and a write that failed cannot pass for a whole one. -/
theorem restore_in_step (hbs : 1 ≤ fs_info.block_size.toNat) (hlen : 8 * bm.length < 2 ^ 60)
    (hex : exact_places fs_info bm) {w : World} (hcopied : w.copied_count = 0) :
    read_write_data_restore fs_info img_opt host bm w ≠ .error .diverged ∧
    (∀ w', read_write_data_restore fs_info img_opt host bm w = .ok (true, w') →
      w'.copied_count
        = ((Finset.range fs_info.totalblock.toNat).filter (bit bm · = true)).card) ∧
    ∀ v₀ w₀, enters fs_info img_opt host w v₀ w₀ → ∀ v w',
      starts (restore_pass fs_info img_opt (capacity fs_info.block_size.toNat)
        (used_count fs_info bm) bm) v₀ w₀ v w' →
      in_step fs_info bm v.block_id w' ∧
      ∀ (n : ℕ) (write_buffer : List Byte) (w₁ : World),
        n = chunk_blocks (capacity fs_info.block_size.toNat) (used_count fs_info bm)
          w'.copied_count → 0 < n → w₁.dfw = w'.dfw → w₁.copied_count = w'.copied_count →
        ∀ wv w'', starts (restore_write_pass fs_info bm n write_buffer) ⟨v.block_id, 0⟩ w₁ wv w'' →
          in_step fs_info bm wv.block_id w'' ∧
          ∀ p w₃, restore_write_pass fs_info bm n write_buffer wv w'' = .ok (p, w₃) →
            p.leads (pass_wrote fs_info bm wv w'') (pass_wrote fs_info bm wv w'')
              (fun _ => True) w₃ := by
  have hU : used_count fs_info bm < 2 ^ 63 := by
    have := used_count_le fs_info bm
    omega
  refine ⟨fun hbad => ?_, fun w' hrun => ?_, fun v₀ w₀ hent v w' hstart => ?_⟩
  · rcases restore_ends img_opt host hbs hU hcopied with
      ⟨t, ht, rfl⟩ | ⟨ok, w', hrun, -⟩
    · rw [hbad] at ht
      cases ht
    · rw [hbad] at hrun
      cases hrun
  · rcases restore_ends img_opt host hbs hU hcopied with
      ⟨t, ht, -⟩ | ⟨ok, w'', hrun', hall⟩
    · rw [hrun] at ht
      cases ht
    · rw [hrun] at hrun'
      obtain ⟨rfl, rfl⟩ := Prod.mk.inj (Except.ok.inj hrun')
      rw [hall rfl, used_count, marked, used_from_length]
  · obtain ⟨hinv₀, hpos₀, -⟩ := chunk_inv_of_enters bm hcopied hent
    have hinv := chunk_inv_of_starts hbs hU hstart hinv₀
    have hpos := hinv.position hex hpos₀
    refine ⟨⟨hinv.block_id, (bits_below_of_used hinv.block_id hinv.copied hinv.used).symm, hpos⟩,
      fun n write_buffer w₁ hn hnpos hdfw₁ hcopied₁ wv w'' hinner => ?_⟩
    rw [chunk_blocks_eq hU hinv.copied] at hn
    have hcn := chunk_size_le fs_info bm hinv.copied
    have howed := hinv.owed
    rw [← hn] at hcn howed
    have hncap : n ≤ capacity fs_info.block_size.toNat := hn ▸ Nat.min_le_left _ _
    -- the inner loop starts where the chunk does and keeps in step block by block
    obtain ⟨hat, hlt⟩ := cursor_inv_of_starts hbs hncap howed (by omega) hinner
      ⟨hinv.enter w₁, hnpos⟩
    refine ⟨⟨hat.block_id, ?_, hat.position hex (by rw [hdfw₁]; exact hpos)⟩, fun p w₃ hpass => ?_⟩
    · have hcount := hat.count
      refine (bits_below_of_used hat.block_id (by omega) ?_).symm
      rw [hat.used, hinv.used, List.drop_drop, hcount, hcopied₁]
    · rcases restore_write_pass_cursor write_buffer hbs hncap howed (by omega)
        hat hlt with ⟨t, ht, -⟩ | ⟨p', w₃', hp, hleads⟩
      · rw [ht] at hpass
        cases hpass
      · rw [hp] at hpass
        obtain ⟨rfl, rfl⟩ := Prod.mk.inj (Except.ok.inj hpass)
        cases p' with
        | next v' => exact hleads.2.2
        | done v' => exact hleads.2.2
        | fail => trivial

end Run

/-- Four blocks of which the second is free. Two fit the buffer, so that there are two chunks, with
the gap in the first: the loops end, the target stands at the cursor before each chunk, and with
`TRUE` three blocks have been written. -/
theorem restore_in_step_two_chunks :
    exact_places BufferBounds.gap_fs [13] ∧
    ∀ (host : Host) (w : World), w.copied_count = 0 →
      read_write_data_restore BufferBounds.gap_fs BufferBounds.gap_options host [13] w
        ≠ .error .diverged ∧
      (∀ w', read_write_data_restore BufferBounds.gap_fs BufferBounds.gap_options host [13] w
        = .ok (true, w') → w'.copied_count = 3) ∧
      ∀ v₀ w₀, enters BufferBounds.gap_fs BufferBounds.gap_options host w v₀ w₀ → ∀ v w',
        starts (restore_pass BufferBounds.gap_fs BufferBounds.gap_options 2 3 [13]) v₀ w₀ v w' →
        w'.dfw.pos = v.block_id * 524288 := by
  have hex : exact_places BufferBounds.gap_fs [13] := by
    refine ⟨fun _ => by decide, fun x hx _ => ?_⟩
    have h1 : BufferBounds.gap_fs.totalblock.toNat = 4 := by decide
    have h2 : BufferBounds.gap_fs.block_size.toNat = 524288 := by decide
    rw [h1] at hx
    rw [h2]
    omega
  refine ⟨hex, fun host w hcopied => ?_⟩
  obtain ⟨hends, hcount, hstep⟩ := @restore_in_step BufferBounds.gap_fs
    BufferBounds.gap_options [13] host (by decide) (by decide) hex w hcopied
  refine ⟨hends, fun w' hrun => ?_, fun v₀ w₀ hent v w' hstart => ?_⟩
  · rw [hcount w' hrun]
    decide
  · exact (hstep v₀ w₀ hent v w' hstart).1.position

/-! ### A block beyond `2 ^ 64` -/

/-- Block `64 * 178956970 + 43`, of `3 * 2 ^ 29` bytes, has offset `2 ^ 64 + 2 ^ 29`. -/
def far_fs : file_system_info :=
  { init_file_system_info with totalblock := 11453246124, usedblocks := 1, block_size := 1610612736 }

/-- A bitmap with one block marked, in its last word. -/
def lone_bitmap (k j : ℕ) : bitmap := List.replicate k 0 ++ [BitVec.twoPow 64 j]

/-- Only that block is marked. -/
def far_bitmap : bitmap := lone_bitmap 178956970 43

/-- Without checksums. -/
def far_options : image_options :=
  { init_image_options with checksum_mode := 0, checksum_size := 0, blocks_per_checksum := 1 }

theorem bit_lone_bitmap {k j x : ℕ} (hj : j < 64) (hx : x < 64 * (k + 1)) :
    bit (lone_bitmap k j) x = decide (x = 64 * k + j) := by
  rw [bit, lone_bitmap]
  by_cases hword : x / 64 < k
  · rw [List.getD_append _ _ _ _ (by rwa [List.length_replicate]), List.getD_replicate _ hword]
    have hne : x ≠ 64 * k + j := by omega
    simp [hne]
  · rw [List.getD_append_right _ _ _ _ (by rw [List.length_replicate]; omega),
      List.length_replicate, show x / 64 - k = 0 by omega, List.getD_cons_zero,
      BitVec.getLsbD_twoPow, decide_eq_true hj, Bool.true_and]
    exact decide_eq_decide.mpr (by omega)

theorem lone_marked {k j : ℕ} (hj : j < 64) :
    used_from (lone_bitmap k j) (64 * k + j + 1) 0 = [64 * k + j] := by
  have hbelow : used_from (lone_bitmap k j) (64 * k + j) 0 = [] := by
    refine List.filter_eq_nil_iff.mpr fun x hx hmark => ?_
    have hlt := (List.mem_range'_1.mp hx).2
    rw [bit_lone_bitmap hj (by omega)] at hmark
    have := of_decide_eq_true hmark
    omega
  have hbit : bit (lone_bitmap k j) (64 * k + j) = true := by
    rw [bit_lone_bitmap hj (by omega)]
    exact decide_eq_true rfl
  rw [used_from_split _ (Nat.le_succ _), hbelow, List.nil_append,
    used_from_of_bit (Nat.lt_succ_self _) hbit, used_from_of_ge (Nat.le_refl _)]

theorem far_marked : marked far_fs far_bitmap 0 = [11453246123] := by
  have htot : far_fs.totalblock.toNat = 11453246124 := by decide
  rw [marked, htot]
  exact lone_marked (k := 178956970) (j := 43) (by omega)

/-- The loop is entered with the invariant of a restore of a well-formed image. -/
theorem enters_restore_inv {fs_info : file_system_info} {img_opt : image_options} (bm : bitmap)
    (hfits : checksum_fits img_opt) (host : Host) (w : World) (hcopied : w.copied_count = 0) :
    ∃ w₀, enters fs_info img_opt host w (restore_start fs_info img_opt host) w₀ ∧
      w₀.dfr = w.dfr ∧ w₀.dfw = { w.dfw with pos := 0 } ∧ w₀.sched = w.sched ∧
      w₀.copied_count = 0 ∧
      restore_inv fs_info img_opt bm w₀ (start_cursor img_opt (stale_checksum host img_opt))
        (read_buffer_size fs_info img_opt)
        (capacity fs_info.block_size.toNat * fs_info.block_size.toNat)
        (restore_start fs_info img_opt host) w₀ := by
  have hwsize : u32 (capacity fs_info.block_size.toNat * fs_info.block_size.toNat)
      = capacity fs_info.block_size.toNat * fs_info.block_size.toNat := by
    have h1 := capacity_mul_le fs_info.block_size.toNat
    have h2 : fs_info.block_size.toNat < 2 ^ 32 := fs_info.block_size.isLt
    have h3 : DEFAULT_BUFFER_SIZE = 2 ^ 20 := rfl
    exact u32_of_lt (by omega)
  have hseek : seek_dfw w 0 = (true, { w with dfw := { w.dfw with pos := 0 } }) := by
    rcases seek_dfw_spec w 0 (by omega) with ⟨h, -⟩ | ⟨-, h⟩
    · exact h
    · omega
  obtain ⟨lib, hinit, hready⟩ := init_checksum_ok w.cks hfits (stale_checksum host img_opt)
  refine ⟨{ w with dfw := { w.dfw with pos := 0 }, cks := lib }, ⟨by rw [hseek], _, lib,
    by rw [hseek]; exact hinit, ?_, by rw [hseek]⟩, rfl, rfl, rfl, hcopied,
    restore_inv_start host w hcopied hready⟩
  rw [hwsize]
  rfl

/-- **The block is written at `2 ^ 29`**: the seek over the blocks before it has wrapped, and the
next pass finds the target `2 ^ 64` bytes behind the cursor. In 64 bits the distance `2 ^ 64 + 2 ^
29` is `2 ^ 29`, which is a place like any other, so nothing fails. -/
theorem restore_out_of_step :
    valid_desc (desc_section far_fs far_options) ∧
    far_bitmap.length = BITS_TO_LONGS far_fs.totalblock.toNat ∧
    ∃ v₀ w₀ v w', enters far_fs far_options plain_host
        (BufferBounds.zero_world far_fs far_options far_bitmap) v₀ w₀ ∧
      starts (restore_pass far_fs far_options (capacity far_fs.block_size.toNat)
        (used_count far_fs far_bitmap) far_bitmap) v₀ w₀ v w' ∧
      v.block_id * far_fs.block_size.toNat = 2 ^ 64 + 2 ^ 31 ∧ w'.dfw.pos = 2 ^ 31 := by
  refine ⟨valid_desc_section _ _, ?_, ?_⟩
  · rw [far_bitmap, lone_bitmap, List.length_append, List.length_replicate]
    decide
  have hbs : far_fs.block_size.toNat = 1610612736 := by decide
  have hU : used_count far_fs far_bitmap = 1 := by rw [used_count, far_marked]; rfl
  have hfits : checksum_fits far_options := fun h => absurd h (by decide)
  obtain ⟨w₀, hent, hdfr₀, hdfw₀, hsched₀, hc₀, hinv⟩ := enters_restore_inv far_bitmap hfits
    plain_host (BufferBounds.zero_world far_fs far_options far_bitmap) rfl
  have hchunk : chunk_size far_fs far_bitmap 0 = 1 := by
    have := capacity_pos far_fs.block_size.toNat
    rw [chunk_size, hU]
    omega
  have hneed : chunk_need far_fs far_options far_bitmap 0 ≤ 1610612736 := by
    rw [chunk_need_eq, hchunk, hbs]
    split <;> decide
  have hbuffer : read_buffer_size far_fs far_options = 1610612736 := by decide
  have hplace : [11453246123].foldlM (place 1610612736) (0, 0) = some (11453246124, 2 ^ 31) := by
    decide
  obtain ⟨p, w', hpass, hleads⟩ := restore_pass_spec (by rw [hbs]; omega) (by decide) hfits rfl
    (by rw [hU]; omega) (u32_lt _) (by rw [hbs]; decide) le_rfl hinv
    (fun _ => by rw [hc₀]; exact ⟨by omega, hneed.trans_eq hbuffer.symm⟩)
  cases p with
  | next v =>
      obtain ⟨hinv', hcount, -⟩ := hleads
      have hone : w'.copied_count = 1 := by
        rw [hcount, hc₀, hchunk]
      have hplaced := hinv'.placed
      rw [hone, far_marked, hbs, hdfw₀, List.take_of_length_le (by decide), hplace] at hplaced
      obtain ⟨hb, hpos⟩ := Prod.mk.inj (Option.some.inj hplaced)
      refine ⟨_, w₀, v, w', hent, .next .entry hpass, ?_, hpos.symm⟩
      rw [← hb, hbs]
      omega
  | done v =>
      have := hleads.2
      omega
  | fail =>
      -- nothing disturbs a restore of an image of zeros to a new file
      refine absurd ⟨hsched₀, ⟨_, BufferBounds.zero_blocks_length _ _, ?_⟩, Or.inl ⟨?_, ?_⟩⟩ hleads.2
      · rw [hdfr₀]
        exact BufferBounds.zero_verified _ _ _
      · rw [hdfw₀]
        rfl
      · refine ⟨(11453246124, 2 ^ 31), ?_⟩
        rw [hc₀, hchunk, far_marked, hbs, hdfw₀]
        exact hplace

end SysbakAdmin.RestoreCursor

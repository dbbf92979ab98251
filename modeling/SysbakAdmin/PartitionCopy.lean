/-
What `read_write_data_ptp` does to its target, under every schedule of system calls.

The invariant of the passes is that the target is the original one with the used
blocks below the cursor laid down from the source (`scatter`), so a pass has only to
say that its run continues that list. A pass that fails has touched at most the blocks
of its own run, which is where the two bounds of the failure case come from.

Source and target are two different files here. The source is read at the run's own
place and the target written at the same, so the two cursors never meet, and a read error
leaves the target at the last finished run. What holds of a finished copy is said by two
equations and a frame: the used blocks are the source's, all else is as before, and the
target keeps its length where it had room.

The four drivers copy by this one definition. What differs is the block size that
`gdbus-btrfs.c` takes from a global, and the theorem asks that it is that of the file system.
-/
import SysbakAdmin.Handlers

set_option autoImplicit false

namespace SysbakAdmin.PartitionCopy

open LittleEndian ByteStore CInt CMemory DoWhile Transfer FileIo
open Bitmap Checksum Io Share Backup

/-- The target with the given blocks of the source laid down. -/
def copied (block_size : ℕ) (src dst : List Byte) (idx : List ℕ) : List Byte :=
  scatter 0 block_size dst idx (gather block_size src idx)

@[simp] theorem copied_nil (block_size : ℕ) (src dst : List Byte) :
    copied block_size src dst [] = dst := rfl

theorem copied_append (block_size : ℕ) (src dst : List Byte) (idx jdx : List ℕ) :
    copied block_size src dst (idx ++ jdx)
      = copied block_size src (copied block_size src dst idx) jdx := by
  rw [copied, gather_append, scatter_append 0 _ _ (gather_length _ _ _).symm]
  rfl

/-- Only the named blocks change. -/
theorem copied_getD_of_outside {block_size : ℕ} (src dst : List Byte) (idx : List ℕ) {i : ℕ}
    (h : ∀ b ∈ idx, ¬ (b * block_size ≤ i ∧ i < (b + 1) * block_size)) :
    (copied block_size src dst idx).getD i 0 = dst.getD i 0 :=
  scatter_getD_of_outside 0 _ _ (fun _ hx => length_le_of_mem_gather hx) h

/-- **One run, read in full and written in full, lays down its blocks.** The blocks of a run
follow each other on both sides, so one long write is the writes of its blocks one after the other
(`overlay_flatten`). -/
theorem written_run {block_size b n : ℕ} (hn : 0 < n) {src : List Byte} {f : File}
    (hpos : f.pos = b * block_size) (hbs : 0 < block_size)
    (hlen : (slice src (b * block_size) (n * block_size)).length = n * block_size) :
    (f.written (slice src (b * block_size) (n * block_size))).data
      = copied block_size src f.data (List.range' b n) := by
  have hne : slice src (b * block_size) (n * block_size) ≠ [] := by
    have hpos' : 0 < n * block_size := Nat.mul_pos hn hbs
    intro h
    rw [h] at hlen
    simp at hlen
    omega
  have hblocks : gather block_size src (List.range' b n) ≠ [] := by
    intro h
    have := congrArg List.length h
    rw [gather_length, List.length_range'] at this
    simp at this
    omega
  rw [written_data f hne, hpos, ← flatten_gather_range,
    overlay_flatten 0 block_size f.data b hblocks
      (fun x hx => length_of_mem_gather_range hlen hx), gather_length, List.length_range', copied]

/-- A run written in part touches nothing else. -/
theorem written_part {block_size b n e : ℕ} {x : List Byte} {f : File}
    (hpos : f.pos = b * block_size) (hx : x.length ≤ n * block_size) {i : ℕ}
    (hi : ¬ (b * block_size ≤ i ∧ i < (b + n) * block_size)) :
    (f.written (x.take e)).data.getD i 0 = f.data.getD i 0 := by
  rw [written_getD, if_neg]
  have hlen : (x.take e).length ≤ n * block_size := by rw [List.length_take]; omega
  rw [Nat.add_mul] at hi
  omega

/-- **With all used blocks laid down**: they are the source's, nothing else has changed, and a
target with room for the file system keeps its length. Each used block is laid down once, at its
own place, so no later one is laid over it. -/
theorem copied_used_blocks {block_size total : ℕ} {bm : bitmap} {src : List Byte}
    (hin : ∀ x ∈ used_from bm total 0, (x + 1) * block_size ≤ src.length) (dst : List Byte) :
    (∀ b < total, bit bm b = true → (b + 1) * block_size ≤ src.length ∧
      block block_size (copied block_size src dst (used_from bm total 0)) b
        = block block_size src b) ∧
    (∀ i, (∀ b < total, bit bm b = true → ¬ (b * block_size ≤ i ∧ i < (b + 1) * block_size)) →
      (copied block_size src dst (used_from bm total 0)).getD i 0 = dst.getD i 0) ∧
    (total * block_size ≤ dst.length →
      (copied block_size src dst (used_from bm total 0)).length = dst.length) := by
  have hfull : ∀ x ∈ gather block_size src (used_from bm total 0), x.length = block_size :=
    fun x hx => length_of_mem_gather hin hx
  refine ⟨fun b hb hbit => ?_, fun i hi => ?_, fun hlen => ?_⟩
  · have hmem : b ∈ used_from bm total 0 := mem_used_from.mpr ⟨Nat.zero_le _, hb, hbit⟩
    have hg := gather_scatter (0 : Byte) block_size dst (used_from_nodup bm total 0)
      (gather_length _ _ _).symm hfull
    exact ⟨hin b hmem, List.map_inj_left.mp hg b hmem⟩
  · rw [copied_getD_of_outside]
    intro b hb
    obtain ⟨-, hlt, hbit⟩ := mem_used_from.mp hb
    exact hi b hlt hbit
  · rw [copied, scatter_length 0 _ _ hfull]
    intro b hb
    obtain ⟨-, hlt, -⟩ := mem_used_from.mp hb
    exact (Nat.mul_le_mul_right _ hlt).trans hlen

/-- Where a copy that failed at block `k` stands. Below the run that failed the copy is finished,
and behind it nothing has been touched. -/
structure stopped_at (block_size total : ℕ) (bm : bitmap) (src dst now : List Byte)
    (k : ℕ) : Prop where
  /-- below `k` the target is the finished one -/
  below : ∀ i < k * block_size,
    now.getD i 0 = (copied block_size src dst (used_from bm total 0)).getD i 0
  /-- from one buffer after `k` on it is the original -/
  above : ∀ i, (k + capacity block_size) * block_size ≤ i → now.getD i 0 = dst.getD i 0

/-- Nothing but the run at `k` separates the target from the blocks done so far. The runs before
it are finished, and a run is no longer than the buffer. -/
theorem stopped_at_of_run {block_size total : ℕ} {bm : bitmap} {src dst now : List Byte}
    {k : ℕ} {done rest : List ℕ} (hused : used_from bm total 0 = done ++ rest)
    (hdone : ∀ b ∈ done, b < k) (hrest : ∀ b ∈ rest, k ≤ b)
    (hnow : ∀ i, ¬ (k * block_size ≤ i ∧ i < (k + capacity block_size) * block_size) →
      now.getD i 0 = (copied block_size src dst done).getD i 0) :
    stopped_at block_size total bm src dst now k where
  below i hi := by
    rw [hnow i (by omega), hused, copied_append,
      copied_getD_of_outside src (copied block_size src dst done) rest]
    intro b hb hmeet
    have : k * block_size ≤ b * block_size := Nat.mul_le_mul_right _ (hrest b hb)
    omega
  above i hi := by
    rw [hnow i (by omega), copied_getD_of_outside]
    intro b hb hmeet
    have h1 : (b + 1) * block_size ≤ k * block_size := Nat.mul_le_mul_right _ (hdone b hb)
    have h2 : k * block_size ≤ (k + capacity block_size) * block_size :=
      Nat.mul_le_mul_right _ (by omega)
    omega

section Passes

variable (block_size : ℕ) (fs_info : file_system_info) (bm : bitmap) (w₀ : World)

/-- What holds between two passes, of a copy that began in `w₀`. The target is the one it began
with, with the used blocks below the cursor laid down from the source. -/
structure ptp_inv (v : ptp_vars) (w : World) : Prop where
  block_id : v.block_id ≤ fs_info.totalblock.toNat
  buffer : v.buffer.length = capacity block_size * block_size
  follows : follows w₀ w
  failed : w.io_failed = w₀.io_failed
  /-- the used blocks below the cursor have been laid down -/
  target : ∃ done, used_from bm fs_info.totalblock.toNat 0
      = done ++ used_from bm fs_info.totalblock.toNat v.block_id ∧
    (∀ x ∈ done, x < v.block_id ∧ (x + 1) * block_size ≤ w₀.dfr.data.length) ∧
    w.dfw.data = copied block_size w₀.dfr.data w₀.dfw.data done

/-- A copy that nothing can disturb: no outcome is scheduled, and both files have the
room. -/
structure undisturbed (w : World) (size : ℕ) : Prop where
  sched : w.sched = []
  source : size ≤ w.dfr.data.length
  target : w.dfw.growable = true ∨ size ≤ w.dfw.data.length

/-- Where a finished copy that began in `w₀` stands. -/
structure ptp_done (w : World) : Prop where
  follows : follows w₀ w
  failed : w.io_failed = w₀.io_failed
  readable : ∀ x ∈ used_from bm fs_info.totalblock.toNat 0,
    (x + 1) * block_size ≤ w₀.dfr.data.length
  target : w.dfw.data = copied block_size w₀.dfr.data w₀.dfw.data
    (used_from bm fs_info.totalblock.toNat 0)

/-- Where a failed one stands. -/
structure ptp_failed (w : World) : Prop where
  follows : follows w₀ w
  failed : w₀.io_failed < w.io_failed
  target : ∃ k < fs_info.totalblock.toNat,
    stopped_at block_size fs_info.totalblock.toNat bm w₀.dfr.data w₀.dfw.data w.dfw.data k
  disturbed : ¬ undisturbed w₀ (fs_info.totalblock.toNat * block_size)

variable {block_size fs_info bm w₀} {v : ptp_vars} {w w' : World} {n b' : ℕ}

/-- What cannot be disturbed from the start cannot be disturbed later. -/
theorem ptp_inv.undisturbed (hinv : ptp_inv block_size fs_info bm w₀ v w) {size : ℕ}
    (h : undisturbed w₀ size) : undisturbed w size where
  sched := hinv.follows.sched_nil h.sched
  source := by rw [hinv.follows.dfr_data]; exact h.source
  target := by
    obtain ⟨done, -, -, hdata⟩ := hinv.target
    rcases h.target with hg | hin
    · exact Or.inl (hinv.follows.dfw_growable.trans hg)
    · exact Or.inr (hin.trans (by rw [hdata]; exact length_le_scatter _ _ _ _ _))

/-- The run at the cursor was copied. -/
theorem ptp_inv.next (hinv : ptp_inv block_size fs_info bm w₀ v w)
    (hrun : next_run block_size bm fs_info.totalblock.toNat v.block_id n b')
    (hf : Io.follows w w') (hk : w'.io_failed = w.io_failed) {buffer : List Byte}
    (hbuf : buffer.length = capacity block_size * block_size)
    (hin : ∀ x ∈ List.range' b' n, (x + 1) * block_size ≤ w₀.dfr.data.length)
    (hdata : w'.dfw.data
      = copied block_size w₀.dfr.data w.dfw.data (List.range' b' n)) :
    ptp_inv block_size fs_info bm w₀ ⟨b' + n, buffer⟩ w' where
  block_id := hrun.end_le
  buffer := hbuf
  follows := hinv.follows.trans hf
  failed := hk.trans hinv.failed
  target := by
    obtain ⟨done, hused, hdone, hold⟩ := hinv.target
    refine ⟨done ++ List.range' b' n, by rw [hused, hrun.used, List.append_assoc], ?_,
      by rw [hdata, hold, copied_append]⟩
    intro x hx
    rcases List.mem_append.mp hx with h | h
    · have hlt : x < b' + n := by have := (hdone x h).1; have := hrun.le_start; omega
      exact ⟨hlt, (hdone x h).2⟩
    · exact ⟨(List.mem_range'_1.mp h).2, hin x h⟩

/-- The run at the cursor failed, before or while it was written. Either way its block is where
the copy has stopped. -/
theorem ptp_inv.fail (hinv : ptp_inv block_size fs_info bm w₀ v w)
    (hrun : next_run block_size bm fs_info.totalblock.toNat v.block_id n b')
    (hf : Io.follows w w') (hk : w.io_failed < w'.io_failed)
    (hnow : ∀ i, ¬ (b' * block_size ≤ i ∧ i < (b' + n) * block_size) →
      w'.dfw.data.getD i 0 = w.dfw.data.getD i 0)
    (hd : ¬ PartitionCopy.undisturbed w (fs_info.totalblock.toNat * block_size)) :
    ptp_failed block_size fs_info bm w₀ w' where
  follows := hinv.follows.trans hf
  failed := hinv.failed ▸ hk
  target := by
    obtain ⟨done, hused, hdone, hold⟩ := hinv.target
    have hlt : b' < fs_info.totalblock.toNat := by
      have := hrun.pos
      have := hrun.end_le
      omega
    refine ⟨b', hlt, stopped_at_of_run hused (fun x hx => lt_of_lt_of_le (hdone x hx).1 hrun.le_start)
      (fun x hx => hrun.le_of_mem hx) (fun i hi => ?_)⟩
    have hlt : (b' + n) * block_size ≤ (b' + capacity block_size) * block_size :=
      Nat.mul_le_mul_right _ (by have := hrun.le_capacity; omega)
    rw [hnow i (by omega), hold]
  disturbed := fun h => hd (hinv.undisturbed h)

/-- **One pass of `read_write_data_ptp`.** It seeks in both devices to the first block of the run,
reads it and writes it; when that comes short, what is left behind is within the run. -/
theorem ptp_pass_spec (hbs : 0 < block_size) (hbs' : block_size ≤ 2 ^ 30)
    (htot : fs_info.totalblock.toNat * block_size < 2 ^ 63)
    (hinv : ptp_inv block_size fs_info bm w₀ v w) :
    ∃ p w', ptp_pass block_size fs_info bm v w = .ok (p, w') ∧
      p.leads (fun v' w' => ptp_inv block_size fs_info bm w₀ v' w' ∧
          fs_info.totalblock.toNat - v'.block_id < fs_info.totalblock.toNat - v.block_id)
        (fun _ w' => ptp_done block_size fs_info bm w₀ w')
        (fun w' => ptp_failed block_size fs_info bm w₀ w') w' := by
  obtain ⟨n, b', hsize, ⟨rfl, hnil⟩ | hrun⟩ :=
    get_read_blocks_size_spec hbs fs_info bm hinv.block_id
  · -- no used block is left
    obtain ⟨done, hused, hdone, hdata⟩ := hinv.target
    rw [hnil, List.append_nil] at hused
    refine ⟨.done v, w, ?_, hinv.follows, hinv.failed, ?_, by rw [hused]; exact hdata⟩
    · simp only [ptp_pass, hsize, ok_bind, if_true, pure_eq]
    · rw [hused]
      exact fun x hx => (hdone x hx).2
  have hn := hrun.pos
  have hcount := hrun.count_lt hbs'
  have hend := hrun.end_mul_le
  have hn0 : ¬ n = 0 := by omega
  have hu64 : u64 (n * block_size) = n * block_size := u64_of_lt (by omega)
  have hi32 : i32 (n * block_size) = ((n * block_size : ℕ) : ℤ) := i32_of_lt hcount
  have hcap : n * block_size ≤ v.buffer.length := by
    rw [hinv.buffer]
    exact Nat.mul_le_mul_right _ hrun.le_capacity
  -- a run of used blocks; each of the four calls may end the copy, the first seek past the end
  rcases seek_dfr_spec w (b' * block_size) (by omega) with ⟨hsr, -⟩ | ⟨hsr, hlim⟩
  swap
  · refine ⟨.fail, { w with io_failed := w.io_failed + 1 }, ?_, hinv.fail hrun
      ⟨rfl, rfl, rfl, rfl, rfl, List.suffix_rfl, Nat.le_succ _, List.prefix_rfl⟩
      (Nat.lt_succ_self _) (fun _ _ => rfl) (fun h => ?_)⟩
    · simp only [ptp_pass, hsize, ok_bind, hn0, if_false, hsr, Bool.not_false, if_true, pure_eq]
    · have hle := le_seek_limit w.dfr (b' * block_size) (by omega)
        (by have := h.source; omega)
      omega
  set w₁ : World := { w with dfr := { w.dfr with pos := b' * block_size } } with hw₁
  -- the target cannot be seeked to the run: it is too small
  rcases seek_dfw_spec w₁ (b' * block_size) (by omega) with ⟨hsw, -⟩ | ⟨hsw, hlim⟩
  swap
  · refine ⟨.fail, { w₁ with io_failed := w₁.io_failed + 1 }, ?_, hinv.fail hrun
      ⟨rfl, rfl, rfl, rfl, rfl, List.suffix_rfl, Nat.le_succ _, List.prefix_rfl⟩
      (Nat.lt_succ_self _) (fun _ _ => rfl) (fun h => ?_)⟩
    · simp only [ptp_pass, hsize, ok_bind, hn0, if_false, hsr, hsw, Bool.not_false, Bool.not_true,
        Bool.false_eq_true, if_true, pure_eq]
    · rcases h.target with hg | hin
      · have : seek_limit w₁.dfw = 2 ^ 63 - 1 := if_pos hg
        omega
      · have hle := le_seek_limit w₁.dfw (b' * block_size) (by omega)
          (by change _ ≤ w.dfw.data.length; omega)
        omega
  set w₂ : World := { w₁ with dfw := { w₁.dfw with pos := b' * block_size } } with hw₂
  have hf₂ : Io.follows w w₂ :=
    follows_moved _ _ _ _ _
  -- the read: a short one means a failed call or a source that ends in the run
  obtain ⟨e, he, r, w₃, hread, hf₃, hlen, -, hdfw₃, -, -, -, hr, hk₃, hfull⟩ :=
    read_io_all_follows w₂ _ hcount hcap
  have hf₃' := hf₂.trans hf₃
  by_cases he' : e = n * block_size
  swap
  · have hk : w.io_failed < w₃.io_failed :=
      lt_of_le_of_ne hf₃'.failed (fun h => he' (hk₃.mp h.symm))
    refine ⟨.fail, w₃, ?_, hinv.fail hrun hf₃' hk (fun _ _ => by rw [hdfw₃]) (fun h => ?_)⟩
    · simp only [ptp_pass, hsize, ok_bind, hn0, if_false, hsr, hsw, Bool.not_true,
        Bool.false_eq_true, hu64, hread, ne_eq, hi32, hr, he', if_true, not_false_eq_true, pure_eq]
    · refine he' (hfull (hf₂.sched_nil h.sched) ?_)
      have := h.source
      change b' * block_size + n * block_size ≤ w.dfr.data.length
      omega
  subst he'
  have hsrc : w.dfr.data = w₀.dfr.data := hinv.follows.dfr_data
  have hdata : slice w₂.dfr.data w₂.dfr.pos (n * block_size)
      = slice w₀.dfr.data (b' * block_size) (n * block_size) := by rw [← hsrc]
  rw [hdata] at hread hlen
  set buffer := overlay 0 v.buffer 0 (slice w₀.dfr.data (b' * block_size) (n * block_size))
    with hbuffer
  have hbuf : buffer.length = v.buffer.length := by rw [hbuffer, overlay_length, hlen]; omega
  have htake : buffer.take (n * block_size)
      = slice w₀.dfr.data (b' * block_size) (n * block_size) := by
    have h := take_overlay_zero (0 : Byte) v.buffer
      (slice w₀.dfr.data (b' * block_size) (n * block_size))
    rwa [hlen] at h
  -- the write: a short one has changed a front part of the run only
  obtain ⟨e, he, r', w₄, hwrite, hf₄, hdfw₄, -, -, -, -, hr', hk₄, hfull'⟩ :=
    write_io_all_follows w₃ buffer hcount (by omega)
  have hf₄' := hf₃'.trans hf₄
  have hrn : r = ((n * block_size : ℕ) : ℤ) := hr.mpr rfl
  have hk₃' : w₃.io_failed = w.io_failed := hk₃.mpr rfl
  have hpos₃ : w₃.dfw.pos = b' * block_size := by rw [hdfw₃]
  have hdst₃ : w₃.dfw.data = w.dfw.data := by rw [hdfw₃]
  by_cases he' : e = n * block_size
  swap
  · have hk : w.io_failed < w₄.io_failed :=
      lt_of_le_of_ne hf₄'.failed (fun h => he' (hk₄.mp (by omega)))
    refine ⟨.fail, w₄, ?_, hinv.fail hrun hf₄' hk (fun i hi => ?_) (fun h => ?_)⟩
    · simp only [ptp_pass, hsize, ok_bind, hn0, if_false, hsr, hsw, Bool.not_true,
        Bool.false_eq_true, hu64, hread, ne_eq, hi32, hrn, not_true_eq_false, hwrite, hr', he',
        if_true, not_false_eq_true, pure_eq]
    · have hpart := written_part (e := e) (x := buffer.take (n * block_size)) hpos₃
        (by rw [List.length_take]; omega) hi
      rw [List.take_take, Nat.min_eq_left he] at hpart
      rw [hdfw₄, hpart, hdst₃]
    · refine he' (hfull' (hf₃'.sched_nil h.sched) ?_)
      rcases h.target with hg | hin
      · exact room_of_growable (by rw [hdfw₃]; exact hg) _
      · exact room_of_le (by rw [hpos₃, hdst₃]; omega)
  subst he'
  -- everything was moved, and the loop goes on behind the run
  have hrn' : r' = ((n * block_size : ℕ) : ℤ) := hr'.mpr rfl
  have hnext := hrun.next_id hbs htot
  have hin : ∀ x ∈ List.range' b' n, (x + 1) * block_size ≤ w₀.dfr.data.length :=
    fun x hx => block_le_of_slice hbs hlen hx
  refine ⟨.next ⟨b' + n, buffer⟩, emit_progress w₄ fs_info (b' + n), ?_,
    hinv.next hrun (hf₄'.trans (follows_emit _ _)) ((hk₄.mpr rfl).trans hk₃')
      (hbuf.trans hinv.buffer) hin ?_, ?_⟩
  · simp only [ptp_pass, hsize, ok_bind, hn0, if_false, hsr, hsw, Bool.not_true,
      Bool.false_eq_true, hu64, hread, ne_eq, hi32, hrn, not_true_eq_false, hwrite, hrn', hnext,
      pure_eq]
  · change w₄.dfw.data = _
    rw [hdfw₄, htake, written_run hn hpos₃ hbs hlen, hdst₃]
  · have h1 := hrun.le_start
    have h2 := hrun.end_le
    change fs_info.totalblock.toNat - (b' + n) < _
    omega

end Passes

/-- **`read_write_data_ptp` returns**, with the copy finished or stopped at a block. The measure
is the blocks from the cursor to the end of the volume, and what has been copied are the used
blocks below the cursor. -/
theorem read_write_data_ptp_ok {block_size : ℕ} (hbs : 0 < block_size)
    (hbs' : block_size ≤ 2 ^ 30) {fs_info : file_system_info}
    (htot : fs_info.totalblock.toNat * block_size < 2 ^ 63) {host : Host}
    (hmem : host.malloc (u32 (capacity block_size * block_size)) = true) (bm : bitmap)
    (w : World) :
    ∃ ok w', read_write_data_ptp block_size fs_info host bm w = .ok (ok, w') ∧
      (ok = true → ptp_done block_size fs_info bm w w') ∧
      (ok = false → ptp_failed block_size fs_info bm w w') := by
  have hseek := seek_dfr_zero w
  have hsize : u32 (capacity block_size * block_size) = capacity block_size * block_size := by
    have := capacity_mul_le block_size
    have : DEFAULT_BUFFER_SIZE = 2 ^ 20 := rfl
    exact u32_of_lt (by omega)
  have hinv : ptp_inv block_size fs_info bm w
      ⟨0, host.junk .read_buffer (u32 (capacity block_size * block_size))⟩
      { w with dfr := { w.dfr with pos := 0 } } :=
    ⟨Nat.zero_le _, by rw [junk_length, hsize],
      follows_moved _ _ _ _ _, rfl,
      [], rfl, by simp, rfl⟩
  -- blocks of the volume that are left: each pass goes on behind its run
  obtain ⟨r, w', hpasses, hends⟩ := passes_spec (ptp_pass block_size fs_info bm)
    (fun v _ => fs_info.totalblock.toNat - v.block_id)
    (fun v w' h => ptp_pass_spec hbs hbs' htot h) (fs_info.totalblock.toNat + 1) _ _
    (Nat.lt_succ_self _) hinv
  refine ⟨r.isSome, w', ?_, ?_, ?_⟩
  · simp only [read_write_data_ptp, buffer_capacity_of_pos hbs, ok_bind, hmem, hseek,
      Bool.not_true, Bool.false_eq_true, if_false, hpasses, pure_eq]
  · cases r with
    | none => simp
    | some v => exact fun _ => hends
  · cases r with
    | none => exact fun _ => hends
    | some v => simp

/-- A finished copy, block by block and cell by cell. -/
theorem ptp_done.blocks {block_size : ℕ} {fs_info : file_system_info} {bm : bitmap}
    {w w' : World} (h : ptp_done block_size fs_info bm w w') :
    (∀ b < fs_info.totalblock.toNat, bit bm b = true →
      (b + 1) * block_size ≤ w.dfr.data.length ∧
        block block_size w'.dfw.data b = block block_size w.dfr.data b) ∧
    (∀ i, (∀ b < fs_info.totalblock.toNat, bit bm b = true →
        ¬ (b * block_size ≤ i ∧ i < (b + 1) * block_size)) →
      w'.dfw.data.getD i 0 = w.dfw.data.getD i 0) ∧
    (fs_info.totalblock.toNat * block_size ≤ w.dfw.data.length →
      w'.dfw.data.length = w.dfw.data.length) := by
  rw [h.target]
  exact copied_used_blocks h.readable _

/-- **A partition copy transfers exactly the used blocks**, in each of the four drivers. When no
operation failed it returns `TRUE`, the used blocks are the source's and nothing else has changed;
when one failed it returns `FALSE` and the target is the finished one below some block and the
original one from a buffer after it on. The four functions are one definition at their block
sizes, so the loop is gone through once. -/
theorem ptp_copies_used_blocks {block_size : ℕ} (hbs : 0 < block_size)
    (hbs' : block_size ≤ 2 ^ 30) {fs_info : file_system_info}
    (hfs : fs_info.block_size.toNat = block_size)
    (htot : fs_info.totalblock.toNat * block_size < 2 ^ 63) {host : Host}
    (hmem : host.malloc (u32 (capacity block_size * block_size)) = true) (bm : bitmap)
    (w : World) :
    ∀ read_write_data_ptp ∈ [Extfs.read_write_data_ptp fs_info,
        Fatfs.read_write_data_ptp fs_info, Btrfs.read_write_data_ptp block_size fs_info,
        Xfsfs.read_write_data_ptp fs_info],
    ∃ ok w', read_write_data_ptp host bm w = .ok (ok, w') ∧
      (undisturbed w (fs_info.totalblock.toNat * block_size) → w'.io_failed = w.io_failed) ∧
      (w'.io_failed = w.io_failed → ok = true ∧
        (∀ b < fs_info.totalblock.toNat, bit bm b = true →
          (b + 1) * block_size ≤ w.dfr.data.length ∧
            block block_size w'.dfw.data b = block block_size w.dfr.data b) ∧
        (∀ i, (∀ b < fs_info.totalblock.toNat, bit bm b = true →
            ¬ (b * block_size ≤ i ∧ i < (b + 1) * block_size)) →
          w'.dfw.data.getD i 0 = w.dfw.data.getD i 0) ∧
        (fs_info.totalblock.toNat * block_size ≤ w.dfw.data.length →
          w'.dfw.data.length = w.dfw.data.length)) ∧
      (w'.io_failed ≠ w.io_failed → ok = false ∧
        ∃ k < fs_info.totalblock.toNat,
          stopped_at block_size fs_info.totalblock.toNat bm w.dfr.data w.dfw.data
            w'.dfw.data k) := by
  obtain ⟨ok, w', hrun, hdone, hfailed⟩ :=
    read_write_data_ptp_ok hbs hbs' htot hmem bm w
  intro ptp hptp
  refine ⟨ok, w', ?_, ?_, ?_, ?_⟩
  · -- the four drivers are the same copy at the same block size
    simp only [Extfs.read_write_data_ptp, Fatfs.read_write_data_ptp, Btrfs.read_write_data_ptp,
      Xfsfs.read_write_data_ptp, hfs, List.mem_cons, List.not_mem_nil, or_false, or_self] at hptp
    rw [hptp]
    exact hrun
  · intro h
    cases ok with
    | true => exact (hdone rfl).failed
    | false => exact absurd h (hfailed rfl).disturbed
  · intro h
    cases ok with
    | true => exact ⟨rfl, (hdone rfl).blocks⟩
    | false => have := (hfailed rfl).failed; omega
  · intro h
    cases ok with
    | true => exact absurd (hdone rfl).failed h
    | false => exact ⟨rfl, (hfailed rfl).target⟩

/-- Two blocks of four bytes, the second one used. -/
theorem ptp_copies_second_block :
    ∃ ok w', Xfsfs.read_write_data_ptp
        { init_file_system_info with totalblock := 2, block_size := 4 } plain_host [2]
        ⟨⟨[1, 2, 3, 4, 5, 6, 7, 8], 0, false⟩, ⟨List.replicate 8 0, 0, false⟩, .block, .block, [],
          0, [], 0, .initial⟩ = .ok (ok, w') ∧
      (w'.io_failed = 0 → ok = true ∧ block 4 w'.dfw.data 1 = [5, 6, 7, 8]) := by
  obtain ⟨ok, w', hrun, -, hdone, -⟩ := @ptp_copies_used_blocks 4 (by decide)
    (by decide) { init_file_system_info with totalblock := 2, block_size := 4 } rfl
    (by decide) plain_host rfl [2]
    ⟨⟨[1, 2, 3, 4, 5, 6, 7, 8], 0, false⟩, ⟨List.replicate 8 0, 0, false⟩, .block, .block, [],
      0, [], 0, .initial⟩ _ (.tail _ (.tail _ (.tail _ (.head _))))
  refine ⟨ok, w', hrun, fun h => ?_⟩
  obtain ⟨hok, hblocks, -⟩ := hdone h
  exact ⟨hok, ((hblocks 1 (by decide) (by decide)).2).trans (by decide)⟩

end SysbakAdmin.PartitionCopy

/-
The progress signals of `read_write_data_ptp`: what their percentages are computed from,
and when they are right.

`progress_update` compares its argument with the number of used blocks, so the argument
has to be a number of copied blocks. `read_write_data_ptf` hands it `copied_count`;
`read_write_data_ptp` hands it `block_id`, the number of the block behind the run it has
just copied. The two are the same as long as the used blocks have no gap, and every free
block before a used one makes the second larger.

`ptp_reached` are the states of the copy loop with the blocks copied so far, and
`progress_sound` is what a signal should say in all of them. `ptp_pass_moves` says what
one pass does to both counts, on a volume of any size.

The converse goes by a run: on a machine that hinders nothing, the copy comes to every used
block, and the signal behind the last run before a gap says more than has been copied. With
a block size of `2 ^ 32 - 1` a failed read passes for a whole block, and with sizes beyond
`2 ^ 63` a seek fails; the theorem names both.
-/
import Mathlib.Data.List.Perm.Basic
import Mathlib.Data.Rat.Defs
import Mathlib.Tactic.NormNum
import SysbakAdmin.Handlers

set_option autoImplicit false

namespace SysbakAdmin.ProgressSignals

open LittleEndian ByteStore CInt CMemory DoWhile Transfer FileIo
open Bitmap Checksum Io Share Backup

/-! ## The percentage of a signal

The library counts in blocks; `progress_sound` compares what it is given with what has been
copied. -/

/-- The percentage of `calculate_speed`, from the floating-point product of `prog->unit` and
the argument of `progress_update`. It never shows the end. -/
def calculate_percent (product : ℚ) : ℚ :=
  if product ≤ 0 then 1 else if product ≥ 100 then 9999 / 100 else product

/-- `progress_update`: no percentage where it returns `FALSE`. -/
def progress_update (stop copied : ℕ) (product : ℚ) : Option ℚ :=
  if copied ≥ stop then none else some (calculate_percent product)

/-- The percentage that the loop sends for the argument `copied`. -/
def percent (fs_info : file_system_info) (copied : ℕ) (product : ℚ) : ℚ :=
  (progress_update fs_info.usedblocks.toNat copied product).getD 100

/-- Whatever the product comes to, 100 is sent where the argument has reached the total. -/
theorem percent_eq_hundred_iff (fs_info : file_system_info) (copied : ℕ) (product : ℚ) :
    percent fs_info copied product = 100 ↔ fs_info.usedblocks.toNat ≤ copied := by
  unfold percent progress_update
  split_ifs with h
  · exact iff_of_true rfl h
  · refine iff_of_false ?_ h
    rw [Option.getD_some, calculate_percent]
    split_ifs with h₀ h₁
    · norm_num
    · norm_num
    · intro heq
      exact h₁ heq.ge

/-! ## The passes a run can come to -/

section Runs

variable (block_size : ℕ) (fs_info : file_system_info) (host : Host) (bm : bitmap)

/-- How many of the `n` blocks of a pass were copied: all of them, if no call in it failed. -/
def moved (w₁ w₂ : World) (n : ℕ) : ℕ := if w₂.io_failed = w₁.io_failed then n else 0

/-- The states at the head of the copy loop of `read_write_data_ptp`, with the number of
blocks copied so far. -/
inductive ptp_reached (w : World) : ℕ → ptp_vars → World → Prop
  | start {buffer_capacity : ℕ} {w₁ : World}
      (hcap : buffer_capacity_of block_size = .ok buffer_capacity)
      (hmalloc : host.malloc (u32 (buffer_capacity * block_size)) = true)
      (hseek : seek_dfr w 0 = (true, w₁)) :
      ptp_reached w 0 ⟨0, host.junk .read_buffer (u32 (buffer_capacity * block_size))⟩ w₁
  | pass {copied : ℕ} {v v' : ptp_vars} {w₁ w₂ : World} {n b' : ℕ} (h : ptp_reached w copied v w₁)
      (hsize : get_read_blocks_size block_size fs_info v.block_id bm = .ok (n, b'))
      (hpass : ptp_pass block_size fs_info bm v w₁ = .ok (.next v', w₂)) :
      ptp_reached w (copied + moved w₁ w₂ n) v' w₂

/-- In every run, a signal is computed from no more than the blocks copied so far, and says
100 only when every used block has been. -/
def progress_sound : Prop :=
  ∀ (host : Host) (w w₁ w₂ : World) (copied n b' : ℕ) (v : ptp_vars) (p : Pass ptp_vars),
    ptp_reached block_size fs_info host bm w copied v w₁ →
    get_read_blocks_size block_size fs_info v.block_id bm = .ok (n, b') →
    ptp_pass block_size fs_info bm v w₁ = .ok (p, w₂) →
    ∀ (argument : ℕ) (full : Bool),
      signal.progress argument full ∈ w₂.signals.drop w₁.signals.length →
      argument ≤ copied + moved w₁ w₂ n ∧
      ∀ product : ℚ, percent fs_info argument product = 100 →
        copied + moved w₁ w₂ n = (used_from bm fs_info.totalblock.toNat 0).length

/-- No free block lies before a used one. -/
def no_holes : Prop :=
  ∀ b c, b < c → c < fs_info.totalblock.toNat → bit bm c = true → bit bm b = true

/-- When the signals are right: there is nothing to copy, or the used blocks have no gap and
the size of a block is not the one that as an `int` is the -1 of a failed read. Without a
block size the run stops at its first division. -/
def counts_agree : Prop :=
  block_size = 0 ∨ fs_info.usedblocks = 0 ∨
    no_holes fs_info bm ∧ block_size ≠ 4294967295

/-- A world in which nothing stands in the way of a copy. It is enough for the runs that show the
converse, and no more is asked than these need. -/
structure unhindered (w : World) : Prop where
  sched : w.sched = []
  source : fs_info.totalblock.toNat * block_size ≤ w.dfr.data.length
  target : w.dfw.growable = true

end Runs

/-! ## One pass -/

/-- The result of a transfer tells completion, except where the count itself is -1. A failure
returns 0 or -1, and -1 is the `int` of `2 ^ 32 - 1`. -/
theorem io_result_eq_iff {n : ℕ} (h0 : 0 < n) (hn : n < 2 ^ 32 - 1) {st : Status} :
    io_result n st = i32 n ↔ st = .complete := by
  have hmod : u32 n = n := u32_of_lt (by omega)
  cases st with
  | complete => exact iff_of_true rfl rfl
  | ended =>
      refine iff_of_false ?_ (by decide)
      intro heq
      rw [io_result] at heq
      unfold i32 at heq
      split_ifs at heq
      · omega
      · omega
  | failed =>
      refine iff_of_false ?_ (by decide)
      intro heq
      rw [io_result] at heq
      unfold i32 at heq
      split_ifs at heq
      omega

section Transfers

variable {n : ℕ}

/-- A read of less than 4 GiB: whether it moved everything shows in the result. -/
theorem read_io_all_moved (w : World) (buf : List Byte) (h0 : 0 < n) (hn : n < 2 ^ 32 - 1)
    (hbuf : n ≤ buf.length) :
    ∃ r buf' w', read_io_all w buf n = .ok (r, buf', w') ∧ buf'.length = buf.length ∧
      follows w w' ∧ w'.dfw = w.dfw ∧ w'.signals = w.signals ∧
      (r = i32 n ↔ w'.io_failed = w.io_failed) ∧
      (w.sched = [] → w.dfr.pos + n ≤ w.dfr.data.length → r = i32 n) := by
  obtain ⟨e, he, hbytes, hlen, hfile, hst⟩ := read_all_spec w.sched w.dfr n
  refine ⟨io_result n (read_all w.sched w.dfr n).1, overlay 0 buf 0 (slice w.dfr.data w.dfr.pos e),
    { w with
      dfr := { w.dfr with pos := w.dfr.pos + e }, sched := (read_all w.sched w.dfr n).2.2.2,
      io_failed := count_failed w.io_failed (read_all w.sched w.dfr n).1 },
    ?_, ?_, ?_, rfl, rfl, ?_, ?_⟩
  · rw [read_io_all, if_pos (by omega)]
    simp only [hbytes, hfile, hlen]
    rw [if_pos (by omega)]
  · rw [overlay_length, hlen]
    omega
  · exact ⟨rfl, rfl, rfl, rfl, rfl, read_all_suffix _ _ _, le_count_failed _ _, List.prefix_rfl⟩
  · rw [io_result_eq_iff h0 hn]
    exact count_failed_eq.symm
  · intro hs hin
    rw [hs, read_all_undisturbed hin]
    rfl

/-- A write of less than 4 GiB. -/
theorem write_io_all_moved (w : World) (buf : List Byte) (h0 : 0 < n) (hn : n < 2 ^ 32 - 1)
    (hbuf : n ≤ buf.length) :
    ∃ r w', write_io_all w buf n = .ok (r, w') ∧ follows w w' ∧ w'.signals = w.signals ∧
      (r = i32 n ↔ w'.io_failed = w.io_failed) ∧
      (w.sched = [] → w.dfw.growable = true → r = i32 n) := by
  have hload : load buf 0 n = .ok (buf.take n) := by
    rw [load_of_le (by omega), slice, List.drop_zero]
  obtain ⟨e, -, hfile, -⟩ := write_all_spec w.sched w.dfw (buf.take n)
  refine ⟨io_result n (write_all w.sched w.dfw (buf.take n)).1,
    { w with
      dfw := w.dfw.written ((buf.take n).take e), sched := (write_all w.sched w.dfw (buf.take n)).2.2,
      io_failed := count_failed w.io_failed (write_all w.sched w.dfw (buf.take n)).1 },
    ?_, ?_, rfl, ?_, ?_⟩
  · rw [write_io_all, if_pos (by omega), hload]
    simp only [ok_bind, pure_eq, hfile]
  · exact ⟨rfl, rfl, written_growable _ _, rfl, rfl, write_all_suffix _ _ _,
      le_count_failed _ _, List.prefix_rfl⟩
  · rw [io_result_eq_iff h0 hn]
    exact count_failed_eq.symm
  · intro hs hgrow
    rw [hs, write_all_undisturbed (room_of_growable hgrow _)]
    rfl

end Transfers

section Pass

variable {block_size : ℕ} {fs_info : file_system_info} {bm : bitmap} {v : ptp_vars} {w : World}

variable (bm w) in
/-- **One pass of `read_write_data_ptp`**, on a volume of any size. It ends the copy when no used
block is left; or it fails without a signal; or it has moved its run and sends the number of the
block behind it. The signal is the last thing a pass does, so none is sent by one that fails
before it. -/
theorem ptp_pass_moves (hbs : 0 < block_size) (hbs' : block_size < 2 ^ 32 - 1)
    (hid : v.block_id ≤ fs_info.totalblock.toNat)
    (hbuf : v.buffer.length = capacity block_size * block_size) :
    ∃ n b' p w', get_read_blocks_size block_size fs_info v.block_id bm = .ok (n, b') ∧
      ptp_pass block_size fs_info bm v w = .ok (p, w') ∧ follows w w' ∧
      ((p = .done v ∧ w' = w ∧ used_from bm fs_info.totalblock.toNat v.block_id = []) ∨
        next_run block_size bm fs_info.totalblock.toNat v.block_id n b' ∧
        (p = .fail ∧ w'.signals = w.signals ∧
            (fs_info.totalblock.toNat * block_size < 2 ^ 63 → ¬ unhindered block_size fs_info w) ∨
          ∃ buffer, p = .next ⟨b' + n, buffer⟩ ∧ buffer.length = v.buffer.length ∧
            w'.io_failed = w.io_failed ∧ w'.signals = w.signals
              ++ [.progress (b' + n) (decide (b' + n ≥ fs_info.usedblocks.toNat))])) := by
  obtain ⟨n, b', hsize, ⟨rfl, hnil⟩ | hrun⟩ := get_read_blocks_size_spec hbs fs_info bm hid
  · refine ⟨0, b', .done v, w, hsize, ?_, follows.refl w, Or.inl ⟨rfl, rfl, hnil⟩⟩
    simp only [ptp_pass, hsize, ok_bind, if_true, pure_eq]
  have hn0 : ¬ n = 0 := by have := hrun.pos; omega
  have hmul := capacity_mul_le block_size
  have hmega : DEFAULT_BUFFER_SIZE = 2 ^ 20 := rfl
  have hcapn : n * block_size ≤ capacity block_size * block_size :=
    Nat.mul_le_mul_right _ hrun.le_capacity
  have hpos : 0 < n * block_size := Nat.mul_pos hrun.pos hbs
  have hcount : n * block_size < 2 ^ 32 - 1 := by omega
  have hu64 : u64 (n * block_size) = n * block_size := u64_of_lt (by omega)
  have hend := hrun.end_mul_le
  have hoff : fs_info.totalblock.toNat * block_size < 2 ^ 63 →
      off_t (b' * block_size) = (b' * block_size : ℕ) := fun h => off_t_of_lt (by omega)
  -- the seeks: in an unhindered world neither fails
  rcases seek_dfr_cases w (b' * block_size) with hsr | hsr
  swap
  · refine ⟨n, b', .fail, { w with io_failed := w.io_failed + 1 }, hsize, ?_,
      ⟨rfl, rfl, rfl, rfl, rfl, List.suffix_rfl, Nat.le_succ _, List.prefix_rfl⟩,
      Or.inr ⟨hrun, Or.inl ⟨rfl, rfl, fun h63 h => ?_⟩⟩⟩
    · simp only [ptp_pass, hsize, ok_bind, hn0, if_false, hsr, Bool.not_false, if_true, pure_eq]
    · have hle := le_seek_limit w.dfr (b' * block_size) (by omega) (by have := h.source; omega)
      rw [seek_dfr, hoff h63, lseek_of_le hle] at hsr
      cases hsr
  set w₁ : World := { w with dfr := { w.dfr with pos := (off_t (b' * block_size)).toNat } } with hw₁
  rcases seek_dfw_cases w₁ (b' * block_size) with hsw | hsw
  swap
  · refine ⟨n, b', .fail, { w₁ with io_failed := w₁.io_failed + 1 }, hsize, ?_,
      ⟨rfl, rfl, rfl, rfl, rfl, List.suffix_rfl, Nat.le_succ _, List.prefix_rfl⟩,
      Or.inr ⟨hrun, Or.inl ⟨rfl, rfl, fun h63 h => ?_⟩⟩⟩
    · simp only [ptp_pass, hsize, ok_bind, hn0, if_false, hsr, hsw, Bool.not_false, Bool.not_true,
        Bool.false_eq_true, if_true, pure_eq]
    · have hlimit : seek_limit w₁.dfw = 2 ^ 63 - 1 := if_pos h.target
      rw [seek_dfw, hoff h63, lseek_of_le (by omega)] at hsw
      cases hsw
  set w₂ : World := { w₁ with dfw := { w₁.dfw with pos := (off_t (b' * block_size)).toNat } }
    with hw₂
  have hf₂ : follows w w₂ :=
    follows_moved _ _ _ _ _
  -- the transfers: each completes, or its result is not the count
  obtain ⟨r, buffer, w₃, hread, hlen, hf₃, hdfw₃, hsig₃, hr, hfull⟩ :=
    read_io_all_moved w₂ v.buffer hpos hcount (by omega)
  by_cases hr₃ : r = i32 (n * block_size)
  swap
  · refine ⟨n, b', .fail, w₃, hsize, ?_, hf₂.trans hf₃,
      Or.inr ⟨hrun, Or.inl ⟨rfl, hsig₃, fun h63 h => hr₃ ?_⟩⟩⟩
    · simp only [ptp_pass, hsize, ok_bind, hn0, if_false, hsr, hsw, Bool.not_true,
        Bool.false_eq_true, hu64, hread, ne_eq, hr₃, if_true, not_false_eq_true, pure_eq]
    · apply hfull h.sched
      have hsrc := h.source
      change (off_t (b' * block_size)).toNat + n * block_size ≤ w.dfr.data.length
      rw [hoff h63, Int.toNat_natCast]
      omega
  obtain ⟨r', w₄, hwrite, hf₄, hsig₄, hr', hfull'⟩ :=
    write_io_all_moved w₃ buffer hpos hcount (by omega)
  have hf₃' := hf₂.trans hf₃
  by_cases hr₄ : r' = i32 (n * block_size)
  swap
  · refine ⟨n, b', .fail, w₄, hsize, ?_, hf₃'.trans hf₄,
      Or.inr ⟨hrun, Or.inl ⟨rfl, hsig₄.trans hsig₃, fun h63 h => hr₄ ?_⟩⟩⟩
    · simp only [ptp_pass, hsize, ok_bind, hn0, if_false, hsr, hsw, Bool.not_true,
        Bool.false_eq_true, hu64, hread, ne_eq, hr₃, not_true_eq_false, hwrite, hr₄, if_true,
        not_false_eq_true, pure_eq]
    · exact hfull' (hf₃'.sched_nil h.sched) (hf₃'.dfw_growable.trans h.target)
  have htotal := fs_info.totalblock.isLt
  have hnext : u64 (b' + n) = b' + n := by
    have h := hrun.end_le
    exact u64_of_lt (by omega)
  refine ⟨n, b', .next ⟨b' + n, buffer⟩, emit_progress w₄ fs_info (b' + n), hsize, ?_,
    (hf₃'.trans hf₄).trans (follows_emit _ _), Or.inr ⟨hrun, Or.inr ⟨buffer, rfl, hlen, ?_, ?_⟩⟩⟩
  · simp only [ptp_pass, hsize, ok_bind, hn0, if_false, hsr, hsw, Bool.not_true,
      Bool.false_eq_true, hu64, hread, ne_eq, hr₃, not_true_eq_false, hwrite, hr₄, hnext, pure_eq]
  · exact (hr'.mp hr₄).trans (hr.mp hr₃)
  · change w₄.signals ++ _ = _
    rw [hsig₄, hsig₃]

end Pass

/-! ## Both counts in a run -/

section Runs

variable {block_size : ℕ} {fs_info : file_system_info} {host : Host} {bm : bitmap} {w₀ : World}
  {copied : ℕ} {v : ptp_vars} {w : World}

/-- Between two passes: the used blocks are those copied and those from the cursor on. The number
of blocks copied is not a variable of the code; it is counted along. -/
structure ptp_counts (block_size : ℕ) (fs_info : file_system_info) (bm : bitmap) (copied : ℕ)
    (v : ptp_vars) : Prop where
  block_id : v.block_id ≤ fs_info.totalblock.toNat
  buffer : v.buffer.length = capacity block_size * block_size
  used : copied + (used_from bm fs_info.totalblock.toNat v.block_id).length
    = (used_from bm fs_info.totalblock.toNat 0).length

/-- A run starts with nothing copied. -/
theorem ptp_counts_start (hbs : 0 < block_size) (hbs' : block_size < 2 ^ 32) {buffer_capacity : ℕ}
    (hcap : buffer_capacity_of block_size = .ok buffer_capacity) :
    ptp_counts block_size fs_info bm 0
      ⟨0, host.junk .read_buffer (u32 (buffer_capacity * block_size))⟩ := by
  have hmul := capacity_mul_le block_size
  have hmega : DEFAULT_BUFFER_SIZE = 2 ^ 20 := rfl
  have heq : buffer_capacity = capacity block_size :=
    Except.ok.inj (hcap.symm.trans (buffer_capacity_of_pos hbs))
  refine ⟨Nat.zero_le _, ?_, Nat.zero_add _⟩
  rw [junk_length, heq, u32_of_lt (by omega)]

/-- A run of blocks that was moved is counted in both. -/
theorem ptp_counts.next {n b' : ℕ} {buffer : List Byte}
    (h : ptp_counts block_size fs_info bm copied v)
    (hrun : next_run block_size bm fs_info.totalblock.toNat v.block_id n b')
    (hbuf : buffer.length = v.buffer.length) :
    ptp_counts block_size fs_info bm (copied + n) ⟨b' + n, buffer⟩ where
  block_id := hrun.end_le
  buffer := hbuf.trans h.buffer
  used := by
    have hused := h.used
    rw [hrun.used, List.length_append, List.length_range'] at hused
    dsimp only
    omega

/-- **What a pass that goes on has done**: it has moved the whole of its run. A transfer that
moved less leads to an error, since its result is compared with the size of the run; and that is
where a block size of `2 ^ 32 - 1` has to be left out. -/
theorem ptp_counts.pass (h : ptp_counts block_size fs_info bm copied v) (hbs : 0 < block_size)
    (hbs' : block_size < 2 ^ 32 - 1) {w' : World} {v' : ptp_vars} {n b' : ℕ}
    (hsize : get_read_blocks_size block_size fs_info v.block_id bm = .ok (n, b'))
    (hpass : ptp_pass block_size fs_info bm v w = .ok (.next v', w')) :
    next_run block_size bm fs_info.totalblock.toNat v.block_id n b' ∧
      ∃ buffer, v' = ⟨b' + n, buffer⟩ ∧ buffer.length = v.buffer.length ∧ moved w w' n = n := by
  obtain ⟨n', b'', p, w'', hsize', hpass', -, hend⟩ :=
    ptp_pass_moves bm w hbs hbs' h.block_id h.buffer
  obtain ⟨rfl, rfl⟩ := Prod.mk.inj (Except.ok.inj (hsize.symm.trans hsize'))
  obtain ⟨rfl, rfl⟩ := Prod.mk.inj (Except.ok.inj (hpass.symm.trans hpass'))
  rcases hend with ⟨hp, -, -⟩ | ⟨hrun, ⟨hp, -, -⟩ | ⟨buffer, hp, hbuf, hk, -⟩⟩
  · cases hp
  · cases hp
  · exact ⟨hrun, buffer, Pass.next.inj hp, hbuf, if_pos hk⟩

/-- **The counts of every state a run can come to.** By induction on the passes: each adds the
blocks of its run to those copied, and they are the used ones from the cursor to behind the run.
-/
theorem ptp_reached.counts (hbs : 0 < block_size) (hbs' : block_size < 2 ^ 32 - 1)
    (h : ptp_reached block_size fs_info host bm w₀ copied v w) :
    ptp_counts block_size fs_info bm copied v := by
  induction h with
  | start hcap _ _ => exact ptp_counts_start hbs (by omega) hcap
  | @pass copied v v' w₁ w₂ n b' _ hsize hpass ih =>
      obtain ⟨hrun, buffer, rfl, hbuf, hmoved⟩ := ih.pass hbs hbs' hsize hpass
      rw [hmoved]
      exact ih.next hrun hbuf

/-- Without a hole the run starts at the cursor. -/
theorem no_holes.run_start (h : no_holes fs_info bm) {n b b' : ℕ}
    (hrun : next_run block_size bm fs_info.totalblock.toNat b n b') : b' = b := by
  have hpos := hrun.pos
  have hend := hrun.end_le
  have hmem : b' ∈ used_from bm fs_info.totalblock.toNat b := by
    rw [hrun.used]
    exact List.mem_append_left _ (List.mem_range'_1.mpr ⟨le_rfl, by omega⟩)
  rcases Nat.eq_or_lt_of_le hrun.le_start with heq | hlt
  · exact heq.symm
  · -- the cursor would be used as well, and so in the run
    have hbit := h b b' hlt (by omega) (mem_used_from.mp hmem).2.2
    have hle := hrun.le_of_mem (mem_used_from.mpr ⟨le_rfl, by omega, hbit⟩)
    omega

/-- So the cursor is the number of blocks copied. -/
theorem ptp_reached.dense (hbs : 0 < block_size) (hbs' : block_size < 2 ^ 32 - 1)
    (hdense : no_holes fs_info bm)
    (h : ptp_reached block_size fs_info host bm w₀ copied v w) : v.block_id = copied := by
  induction h with
  | start _ _ _ => rfl
  | @pass copied v v' w₁ w₂ n b' hreach hsize hpass ih =>
      have hcounts := hreach.counts hbs hbs'
      obtain ⟨hrun, buffer, rfl, -, hmoved⟩ := hcounts.pass hbs hbs' hsize hpass
      rw [hmoved]
      dsimp only
      rw [hdense.run_start hrun, ih]

/-- With no used block nothing is copied and nothing is said. -/
theorem ptp_pass_none (hbs : 0 < block_size) (hid : v.block_id ≤ fs_info.totalblock.toNat)
    (hnone : used_from bm fs_info.totalblock.toNat 0 = []) :
    ptp_pass block_size fs_info bm v w = .ok (.done v, w) := by
  obtain ⟨n, b', hsize, ⟨rfl, -⟩ | hrun⟩ := get_read_blocks_size_spec hbs fs_info bm hid
  · simp only [ptp_pass, hsize, ok_bind, if_true, pure_eq]
  · have hpos := hrun.pos
    have hmem : b' ∈ used_from bm fs_info.totalblock.toNat v.block_id := by
      rw [hrun.used]
      exact List.mem_append_left _ (List.mem_range'_1.mpr ⟨le_rfl, by omega⟩)
    obtain ⟨-, hlt, hbit⟩ := mem_used_from.mp hmem
    have h0 : b' ∈ used_from bm fs_info.totalblock.toNat 0 :=
      mem_used_from.mpr ⟨Nat.zero_le _, hlt, hbit⟩
    rw [hnone] at h0
    cases h0

end Runs

/-! ## When the signals are right -/

section Sound

variable {block_size : ℕ} {fs_info : file_system_info} {bm : bitmap}
  (hused : fs_info.usedblocks.toNat = (used_from bm fs_info.totalblock.toNat 0).length)
include hused

/-- **Without holes every signal is right**, on every machine and whatever fails. Then the number
of the block behind a run is the number of used blocks in front of it. -/
theorem progress_sound_of_no_holes (hbs : 0 < block_size) (hbs' : block_size < 2 ^ 32 - 1)
    (hdense : no_holes fs_info bm) : progress_sound block_size fs_info bm := by
  intro host w w₁ w₂ copied n b' v p hreach hsize hpass argument full hmem
  have hcounts := hreach.counts hbs hbs'
  obtain ⟨n', b'', p', w', hsize', hpass', -, hend⟩ :=
    ptp_pass_moves bm w₁ hbs hbs' hcounts.block_id hcounts.buffer
  obtain ⟨rfl, rfl⟩ := Prod.mk.inj (Except.ok.inj (hsize.symm.trans hsize'))
  obtain ⟨rfl, rfl⟩ := Prod.mk.inj (Except.ok.inj (hpass.symm.trans hpass'))
  rcases hend with ⟨-, rfl, -⟩ | ⟨hrun, ⟨-, hsig, -⟩ | ⟨buffer, rfl, hbuf, hk, hsig⟩⟩
  · rw [List.drop_length] at hmem
    cases hmem
  · rw [hsig, List.drop_length] at hmem
    cases hmem
  · rw [hsig, List.drop_left, List.mem_singleton] at hmem
    obtain ⟨rfl, -⟩ := signal.progress.inj hmem
    have hnext := (hcounts.next hrun hbuf).used
    dsimp only at hnext
    rw [moved, if_pos hk, hdense.run_start hrun, hreach.dense hbs hbs' hdense]
    refine ⟨le_rfl, ?_⟩
    intro product hfull
    have hge := (percent_eq_hundred_iff fs_info _ product).mp hfull
    rw [hused] at hge
    omega

/-- **The signals are right as soon as the counts agree.** A signal is computed from the cursor,
and where the cursor is the number of copied blocks it says how much has been copied. -/
theorem progress_sound_of_counts_agree (hbs' : block_size < 2 ^ 32)
    (h : counts_agree block_size fs_info bm) : progress_sound block_size fs_info bm := by
  rcases Nat.eq_zero_or_pos block_size with rfl | hbs
  · -- the division by the block size stops the run
    intro host w w₁ w₂ copied n b' v p hreach hsize
    simp [get_read_blocks_size, buffer_capacity_of, udiv_zero, DEFAULT_BUFFER_SIZE] at hsize
  rcases h with rfl | hnone | ⟨hdense, hmax⟩
  · omega
  · have hlist : used_from bm fs_info.totalblock.toNat 0 = [] := by
      rw [← List.length_eq_zero_iff, ← hused, hnone]
      rfl
    have hid : ∀ {host : Host} {w : World} {copied : ℕ} {v : ptp_vars} {w₁ : World},
        ptp_reached block_size fs_info host bm w copied v w₁ →
        v.block_id ≤ fs_info.totalblock.toNat := by
      intro host w copied v w₁ hreach
      induction hreach with
      | start _ _ _ => exact Nat.zero_le _
      | pass _ _ hpass ih =>
          rw [ptp_pass_none hbs ih hlist] at hpass
          cases hpass
    intro host w w₁ w₂ copied n b' v p hreach _ hpass argument full hmem
    rw [ptp_pass_none hbs (hid hreach) hlist] at hpass
    obtain ⟨-, rfl⟩ := Prod.mk.inj (Except.ok.inj hpass)
    rw [List.drop_length] at hmem
    cases hmem
  · exact progress_sound_of_no_holes hused hbs (by omega) hdense

end Sound

/-! ## When they are not

A run without obstacles over a volume with a gap: its signal counts the gap. -/

section Holes

variable {block_size : ℕ} {fs_info : file_system_info} {bm : bitmap}

/-- A source of `size` bytes, a target that grows, and the given answers of the system. -/
def copy_world (size : ℕ) (sched : List Outcome) : World where
  dfr := ⟨List.replicate size 0, 0, true⟩
  dfw := ⟨[], 0, true⟩
  source := .block
  target := .block
  sched := sched
  io_failed := 0
  signals := []
  copied_count := 0
  cks := .initial

/-- The state in which its copy starts. -/
theorem copy_world_start (hbs : 0 < block_size) (size : ℕ) (sched : List Outcome) :
    ptp_reached block_size fs_info plain_host bm (copy_world size sched) 0
      ⟨0, plain_host.junk .read_buffer (u32 (capacity block_size * block_size))⟩
      (copy_world size sched) := by
  exact ptp_reached.start (buffer_capacity_of_pos hbs) rfl (seek_dfr_zero (copy_world size sched))

/-- **An unhindered copy goes on to the last used block**, and as long as its signals are
right the cursor does not get ahead of the blocks copied. The induction is on the blocks
from the cursor on. -/
theorem unhindered_run_ends (hbs : 0 < block_size) (hbs' : block_size < 2 ^ 32 - 1)
    (h63 : fs_info.totalblock.toNat * block_size < 2 ^ 63)
    (hsound : progress_sound block_size fs_info bm) {host : Host} {w : World} :
    ∀ (left copied : ℕ) (v : ptp_vars) (w₁ : World),
      fs_info.totalblock.toNat - v.block_id ≤ left →
      ptp_reached block_size fs_info host bm w copied v w₁ →
      unhindered block_size fs_info w₁ → v.block_id ≤ copied →
      ∃ copied' v' w', ptp_reached block_size fs_info host bm w copied' v' w' ∧
        used_from bm fs_info.totalblock.toNat v'.block_id = [] ∧ v'.block_id ≤ copied' := by
  intro left
  -- on the blocks that are not passed yet; the argument of a signal is kept at most the count
  induction left with
  | zero =>
      intro copied v w₁ hleft hreach _ hle
      exact ⟨copied, v, w₁, hreach, used_from_of_ge (by omega), hle⟩
  | succ left ih =>
      intro copied v w₁ hleft hreach hfree hle
      have hcounts := hreach.counts hbs hbs'
      obtain ⟨n, b', p, w₂, hsize, hpass, hf, hend⟩ :=
        ptp_pass_moves bm w₁ hbs hbs' hcounts.block_id hcounts.buffer
      rcases hend with ⟨-, -, hnil⟩ | ⟨hrun, ⟨-, -, hno⟩ | ⟨buffer, rfl, hbuf, hk, hsig⟩⟩
      · exact ⟨copied, v, w₁, hreach, hnil, hle⟩
      · exact absurd hfree (hno h63)
      · have hpos := hrun.pos
        have hstart := hrun.le_start
        have hmoved : moved w₁ w₂ n = n := if_pos hk
        have hnext := hreach.pass hsize hpass
        -- the signal of this pass is sound, so no free block was passed
        have hsays := (hsound host w w₁ w₂ copied n b' v _ hreach hsize hpass (b' + n) _ (by
          rw [hsig, List.drop_left]
          exact List.mem_singleton_self _)).1
        rw [hmoved] at hnext hsays
        refine ih (copied + n) ⟨b' + n, buffer⟩ w₂ ?_ hnext ?_ hsays
        · dsimp only
          omega
        · exact ⟨hf.sched_nil hfree.sched, by rw [hf.dfr_data]; exact hfree.source,
            hf.dfw_growable.trans hfree.target⟩

/-- As many used blocks as there are numbers below `k`, all of them below `k`: no gap. Distinct
numbers below `k`, as many as there are, are all of them. -/
theorem no_holes_of_length {k : ℕ}
    (hnil : used_from bm fs_info.totalblock.toNat k = [])
    (hlen : k ≤ (used_from bm fs_info.totalblock.toNat 0).length) : no_holes fs_info bm := by
  have hbelow : ∀ x ∈ used_from bm fs_info.totalblock.toNat 0, x < k := by
    intro x hx
    obtain ⟨-, hlt, hbit⟩ := mem_used_from.mp hx
    by_contra hge
    have hmem : x ∈ used_from bm fs_info.totalblock.toNat k :=
      mem_used_from.mpr ⟨by omega, hlt, hbit⟩
    rw [hnil] at hmem
    cases hmem
  intro b c hbc hc hbit
  have hck : c < k := hbelow c (mem_used_from.mpr ⟨Nat.zero_le _, hc, hbit⟩)
  by_contra hfree
  -- the used blocks would be among the others below `k`
  have hsub : used_from bm fs_info.totalblock.toNat 0 ⊆ (List.range k).erase b := by
    intro x hx
    have hne : x ≠ b := by
      rintro rfl
      exact hfree (mem_used_from.mp hx).2.2
    exact (List.mem_erase_of_ne hne).mpr (List.mem_range.mpr (hbelow x hx))
  have hshort := (List.subperm_of_subset (used_from_nodup bm _ 0) hsub).length_le
  rw [List.length_erase_of_mem (List.mem_range.mpr (by omega)), List.length_range] at hshort
  omega

/-- **Signals that are right in every run leave no hole.** With a hole in front of a used block
the run of that machine comes to it, and the signal behind it counts the hole. -/
theorem no_holes_of_progress_sound (hbs : 0 < block_size) (hbs' : block_size < 2 ^ 32 - 1)
    (h63 : fs_info.totalblock.toNat * block_size < 2 ^ 63)
    (hsound : progress_sound block_size fs_info bm) : no_holes fs_info bm := by
  obtain ⟨copied, v, w, hreach, hnil, hle⟩ := unhindered_run_ends hbs hbs' h63 hsound
    fs_info.totalblock.toNat 0 _ _ (Nat.sub_le _ _)
    (copy_world_start hbs (fs_info.totalblock.toNat * block_size) [])
    ⟨rfl, by simp [copy_world], rfl⟩ (Nat.zero_le _)
  have hused := (hreach.counts hbs hbs').used
  rw [hnil, List.length_nil, Nat.add_zero] at hused
  exact no_holes_of_length hnil (hle.trans hused.le)

/-- **A failed read that passes for a whole block**: with a block size of `2 ^ 32 - 1` the
result -1 is the count as an `int`, and the signal counts a block that was not copied. -/
theorem not_progress_sound_of_max (hmax : block_size = 2 ^ 32 - 1)
    (h63 : fs_info.totalblock.toNat * block_size < 2 ^ 63)
    (hsome : used_from bm fs_info.totalblock.toNat 0 ≠ []) :
    ¬ progress_sound block_size fs_info bm := by
  intro hsound
  have hbs : 0 < block_size := by omega
  have hstart : ptp_reached block_size fs_info plain_host bm (copy_world 0 [.error]) 0 _ _ :=
    copy_world_start hbs 0 [.error]
  set buffer := plain_host.junk .read_buffer (u32 (capacity block_size * block_size)) with hbuffer
  obtain ⟨n, b', hsize, ⟨-, hnil⟩ | hrun⟩ :=
    get_read_blocks_size_spec hbs fs_info bm (Nat.zero_le _)
  · exact hsome hnil
  have hone : capacity block_size = 1 := by
    rw [capacity, Nat.div_eq_of_lt (by rw [DEFAULT_BUFFER_SIZE]; omega)]
    rfl
  have hlen : buffer.length = block_size := by
    rw [hbuffer, junk_length, hone, Nat.one_mul, u32_of_lt (by omega)]
  obtain rfl : n = 1 := by
    have h1 := hrun.pos
    have h2 := hrun.le_capacity
    omega
  have hend := hrun.end_mul_le
  rw [Nat.one_mul] at hend
  have hoff : off_t (b' * block_size) = (b' * block_size : ℕ) := off_t_of_lt (by omega)
  have hu64 : u64 (1 * block_size) = block_size := by rw [Nat.one_mul, u64_of_lt (by omega)]
  have hi32 : i32 (1 * block_size) = -1 := by
    have hmod : u32 block_size = block_size := u32_of_lt (by omega)
    rw [Nat.one_mul, i32, hmod, if_neg (by omega)]
    omega
  -- both seeks reach their place
  have hsr : seek_dfr (copy_world 0 [.error]) (b' * block_size)
      = (true, { copy_world 0 [.error] with dfr := ⟨[], b' * block_size, true⟩ }) := by
    rw [seek_dfr, hoff, lseek_of_le (by change _ ≤ 2 ^ 63 - 1; omega)]
    rfl
  set w₁ : World := { copy_world 0 [.error] with dfr := ⟨[], b' * block_size, true⟩ } with hw₁
  have hsw : seek_dfw w₁ (b' * block_size)
      = (true, { w₁ with dfw := ⟨[], b' * block_size, true⟩ }) := by
    rw [seek_dfw, hoff, lseek_of_le (by change _ ≤ 2 ^ 63 - 1; omega)]
    rfl
  set w₂ : World := { w₁ with dfw := ⟨[], b' * block_size, true⟩ } with hw₂
  -- the read fails at once, and the write of what is in the buffer does not
  have hread : read_io_all w₂ buffer block_size
      = .ok (-1, buffer, { w₂ with sched := [], io_failed := 1 }) := by
    have hfail : read_all w₂.sched w₂.dfr block_size = (.failed, [], w₂.dfr, []) := by
      obtain ⟨k, rfl⟩ : ∃ k, block_size = k + 1 := ⟨block_size - 1, by omega⟩
      rw [show w₂.sched = [.error] from rfl, read_all, transfer, List.length_singleton,
        Nat.add_comm 1]
      rfl
    rw [read_io_all, if_pos (by omega), hfail]
    simp only [List.length_nil, Nat.zero_le, if_true]
    have hkeep : overlay 0 buffer 0 [] = buffer := by simp [overlay]
    rw [hkeep]
    rfl
  set w₃ : World := { w₂ with sched := [], io_failed := 1 } with hw₃
  have hwrite : ∃ w₄, write_io_all w₃ buffer block_size = .ok (-1, w₄) ∧ w₄.signals = [] ∧
      w₄.io_failed = 1 := by
    have hload : load buffer 0 block_size = .ok buffer := by
      rw [load_of_le (by omega), slice, List.drop_zero, ← hlen, List.take_length]
    rw [write_io_all, if_pos (by omega), hload, ok_bind]
    dsimp only
    rw [show w₃.sched = [] from rfl, write_all_undisturbed (room_of_growable rfl _)]
    refine ⟨{ w₃ with dfw := w₃.dfw.written buffer }, ?_, rfl, rfl⟩
    rw [pure_eq, io_result, ← hi32, Nat.one_mul]
    rfl
  obtain ⟨w₄, hwrite, hsig, hk⟩ := hwrite
  have hpass : ptp_pass block_size fs_info bm ⟨0, buffer⟩ (copy_world 0 [.error])
      = .ok (.next ⟨u64 (b' + 1), buffer⟩, emit_progress w₄ fs_info (u64 (b' + 1))) := by
    simp only [ptp_pass, hsize, ok_bind, Nat.one_ne_zero, if_false, hsr, hsw, Bool.not_true,
      Bool.false_eq_true, hu64, hread, ne_eq, hi32, not_true_eq_false, hwrite, pure_eq]
  have hsays := (hsound plain_host _ _ _ 0 1 b' _ _ hstart hsize hpass (u64 (b' + 1)) _ (by
    change _ ∈ List.drop 0 (w₄.signals ++ _)
    rw [hsig, List.drop_zero, List.nil_append]
    exact List.mem_singleton_self _)).1
  have hmoved : moved (copy_world 0 [.error]) (emit_progress w₄ fs_info (u64 (b' + 1))) 1 = 0 := by
    refine if_neg ?_
    change ¬ w₄.io_failed = 0
    omega
  have htotal := fs_info.totalblock.isLt
  have hb := hrun.end_le
  rw [hmoved, u64_of_lt (by omega)] at hsays
  omega

end Holes

/-- **When 100 percent means done.** The signals are right in every run if the counts agree, and
on a volume whose bytes an `off_t` can number only then. The size of the volume enters only where
a run has to be shown that comes to the end: beyond `2 ^ 63` bytes its seeks fail. -/
theorem ptp_progress_sound_iff (fs_info : file_system_info) (bm : bitmap)
    (hused : fs_info.usedblocks.toNat = (used_from bm fs_info.totalblock.toNat 0).length) :
    (counts_agree fs_info.block_size.toNat fs_info bm →
      progress_sound fs_info.block_size.toNat fs_info bm) ∧
    (fs_info.totalblock.toNat * fs_info.block_size.toNat < 2 ^ 63 →
      progress_sound fs_info.block_size.toNat fs_info bm →
      counts_agree fs_info.block_size.toNat fs_info bm) := by
  have hlt := fs_info.block_size.isLt
  refine ⟨progress_sound_of_counts_agree hused hlt, ?_⟩
  intro h63 hsound
  rcases Nat.eq_zero_or_pos fs_info.block_size.toNat with hzero | hbs
  · exact Or.inl hzero
  by_cases hnone : fs_info.usedblocks = 0
  · exact Or.inr (Or.inl hnone)
  have hsome : used_from bm fs_info.totalblock.toNat 0 ≠ [] := by
    intro hnil
    rw [hnil] at hused
    exact hnone (BitVec.eq_of_toNat_eq hused)
  by_cases hmax : fs_info.block_size.toNat = 2 ^ 32 - 1
  · exact absurd hsound (not_progress_sound_of_max hmax h63 hsome)
  · exact Or.inr (Or.inr ⟨no_holes_of_progress_sound hbs (by omega) h63 hsound, by omega⟩)

/-- A volume of four blocks, two of them used. -/
def two_used : file_system_info :=
  { init_file_system_info with block_size := 4096, totalblock := 4, usedblocks := 2 }

/-- Its first two blocks. -/
theorem front_blocks_progress_sound : progress_sound 4096 two_used [0b0011] := by
  have hused : two_used.usedblocks.toNat
      = (used_from [0b0011] two_used.totalblock.toNat 0).length := by decide
  refine (ptp_progress_sound_iff two_used [0b0011] hused).1 (Or.inr (Or.inr ⟨?_, by decide⟩))
  intro b c hbc hc hbit
  have hlt : c < 4 := hc
  obtain rfl | rfl | rfl : c = 1 ∨ c = 2 ∨ c = 3 := by omega
  · obtain rfl : b = 0 := by omega
    decide
  · exact absurd hbit (by decide)
  · exact absurd hbit (by decide)

/-- Its second and its last block: behind the second, `block_id` is 2, and 100 is sent
before the last is copied. -/
theorem scattered_blocks_not_sound :
    two_used.usedblocks.toNat = (used_from [0b1010] two_used.totalblock.toNat 0).length ∧
      ¬ progress_sound 4096 two_used [0b1010] := by
  refine ⟨by decide, fun hsound => ?_⟩
  have hdense := no_holes_of_progress_sound (by omega) (by omega) (by decide) hsound
  exact absurd (hdense 0 1 (by omega) (by decide) (by decide)) (by decide)

end SysbakAdmin.ProgressSignals

/-
The state a daemon call works on, and the two ways it moves bytes: `write_read_io_all`
of `gdbus-share.c`, and `lseek`.

`World` holds the two open files, the schedule of what the system will answer to the
coming `read` and `write` calls, the signals emitted so far, the `copied_count` of the
handler's file and the checksum library's state. `io_failed` counts the transfers and
seeks that did not do all they were asked for; the code does not have it, and it is here
so that "nothing failed" can be said about a whole run.

Every caller reads from `dfr` and writes to `dfw`, so the descriptor argument of
`write_read_io_all` is the direction.

`write_read_io_all` returns a count or one of two numbers that can be taken for a count. The
result is exact below `2 ^ 31` bytes (`io_result_eq_iff`), and every caller below that bound
uses one of two specifications: some front part of the bytes has been moved, and the result
is the count exactly when that is all of them. How the transfer was interrupted, and how
often, has gone from them.
-/
import SysbakAdmin.Lib.FileIo
import SysbakAdmin.Checksum

set_option autoImplicit false

namespace SysbakAdmin.Io

open LittleEndian ByteStore CInt CMemory Transfer FileIo Checksum

/-! ## The code -/

/-- What a call sends over the bus. A progress signal carries percentages computed in
floating point from the count it is given; `full` is the branch that sets 100. -/
inductive signal where
  | progress (copied : ℕ) (full : Bool)
  | finished (totalblock usedblocks block_size : ℕ)
  | error (message : Option String) (e_code : ℕ)
  | reply
  deriving DecidableEq, Repr

/-- What a path names. FIFOs, directories and character devices are `other`; no call
opens one here. -/
inductive file_kind where
  | missing
  | regular
  | block
  | other
  deriving DecidableEq, Repr

structure World where
  /-- the file that the source path names, and `dfr` once it is open -/
  dfr : File
  /-- the file that the target path names, and `dfw` once it is open -/
  dfw : File
  source : file_kind
  target : file_kind
  sched : List Outcome
  io_failed : ℕ
  signals : List signal
  copied_count : ℕ
  cks : checksum_lib

/-- The three answers of `write_read_io_all`; `size` is an `int`. -/
def io_result (size : ℕ) : Status → ℤ
  | .complete => i32 size
  | .ended => 0
  | .failed => -1

/-- One more failed operation unless the transfer completed. -/
def count_failed (n : ℕ) : Status → ℕ
  | .complete => n
  | _ => n + 1

/-- `write_read_io_all` with `READ`: the result, the buffer, the state. The system
refuses a count that is negative as a signed number. -/
def read_io_all (w : World) (buf : List Byte) (count : ℕ) : Run (ℤ × List Byte × World) :=
  if count < 2 ^ 63 then
    let r := read_all w.sched w.dfr count
    if r.2.1.length ≤ buf.length then
      .ok (io_result count r.1, overlay 0 buf 0 r.2.1,
        { w with dfr := r.2.2.1, sched := r.2.2.2, io_failed := count_failed w.io_failed r.1 })
    else .error .outOfBounds
  else .ok (-1, buf, { w with io_failed := w.io_failed + 1 })

/-- `write_read_io_all` with `WRITE`. -/
def write_io_all (w : World) (buf : List Byte) (count : ℕ) : Run (ℤ × World) :=
  if count < 2 ^ 63 then do
    let x ← load buf 0 count
    let r := write_all w.sched w.dfw x
    pure (io_result count r.1,
      { w with dfw := r.2.1, sched := r.2.2, io_failed := count_failed w.io_failed r.1 })
  else .ok (-1, { w with io_failed := w.io_failed + 1 })

/-- How far a file can be positioned: within `off_t`, and a device ends. -/
def seek_limit (f : File) : ℕ :=
  if f.growable then 2 ^ 63 - 1 else min f.data.length (2 ^ 63 - 1)

theorem seek_limit_lt (f : File) : seek_limit f < 2 ^ 63 := by
  unfold seek_limit
  split <;> omega

/-- `lseek` to an absolute position. -/
def lseek (f : File) (offset : ℤ) : Option File :=
  if 0 ≤ offset ∧ offset ≤ seek_limit f then some { f with pos := offset.toNat } else none

/-- `off_t` from an `unsigned long long`. -/
def off_t (n : ℕ) : ℤ := if u64 n < 2 ^ 63 then (u64 n : ℤ) else (u64 n : ℤ) - 2 ^ 64

/-- `lseek(*dfr, offset, SEEK_SET)`. -/
def seek_dfr (w : World) (offset : ℕ) : Bool × World :=
  match lseek w.dfr (off_t offset) with
  | some f => (true, { w with dfr := f })
  | none => (false, { w with io_failed := w.io_failed + 1 })

/-- `lseek(*dfw, offset, SEEK_SET)`. -/
def seek_dfw (w : World) (offset : ℕ) : Bool × World :=
  match lseek w.dfw (off_t offset) with
  | some f => (true, { w with dfw := f })
  | none => (false, { w with io_failed := w.io_failed + 1 })

/-- `lseek(*dfw, bytes, SEEK_CUR)`. -/
def seek_dfw_cur (w : World) (bytes : ℕ) : Bool × World :=
  match lseek w.dfw (w.dfw.pos + off_t bytes) with
  | some f => (true, { w with dfw := f })
  | none => (false, { w with io_failed := w.io_failed + 1 })

def emit_signal (w : World) (s : signal) : World := { w with signals := w.signals ++ [s] }

/-! ## What a transfer has done

A transfer is a front part of the bytes and a result. The two are tied by `io_result`, as long
as the count is below `2 ^ 31`. -/

theorem off_t_of_lt {n : ℕ} (h : n < 2 ^ 63) : off_t n = n := by
  rw [off_t, u64_of_lt (by omega), if_pos h]

/-- A position inside the limit is reached. -/
theorem lseek_of_le {f : File} {n : ℕ} (h : n ≤ seek_limit f) :
    lseek f n = some { f with pos := n } := by
  rw [lseek, if_pos ⟨by omega, by omega⟩, Int.toNat_natCast]

theorem io_result_complete {n : ℕ} (h : n < 2 ^ 31) : io_result n .complete = n := i32_of_lt h

theorem io_result_short (n : ℕ) {st : Status} (hst : st ≠ .complete) :
    io_result n st = 0 ∨ io_result n st = -1 := by
  cases st with
  | complete => exact absurd rfl hst
  | ended => exact Or.inl rfl
  | failed => exact Or.inr rfl

/-- Short transfers and errors are told from completion, for a positive count. -/
theorem io_result_ne {n : ℕ} (hn : 0 < n) {st : Status} (hst : st ≠ .complete) :
    io_result n st ≠ n := by
  rcases io_result_short n hst with h | h <;> omega

/-- **The result is the count exactly when all of it was moved**, a count of zero included. The
two other results are 0 and -1; neither is the count of a transfer that was to move something, and
a transfer of nothing is complete at once. -/
theorem io_result_eq_iff {n e : ℕ} (hn : n < 2 ^ 31) (he : e ≤ n) {st : Status}
    (hst : st = .complete ↔ e = n) : io_result n st = n ↔ e = n := by
  rw [← hst]
  constructor
  · intro hr
    by_contra hne
    rcases Nat.eq_zero_or_pos n with h0 | h0
    · -- a transfer of nothing is complete
      apply hne
      rw [hst]
      omega
    · exact io_result_ne h0 hne hr
  · intro hc
    rw [hc, io_result_complete hn]

theorem count_failed_eq {n : ℕ} {st : Status} : count_failed n st = n ↔ st = .complete := by
  cases st <;> simp [count_failed]

theorem le_count_failed (n : ℕ) (st : Status) : n ≤ count_failed n st := by
  cases st <;> simp [count_failed]

/-- **A write, whatever the schedule.** Some front part of the bytes is in the file; the result is
the count exactly when that part is everything. The retries of the loop are `Lib/Transfer`'s and
leave no trace but the front part; a file that is a device takes no more than it has room for. -/
theorem write_io_all_spec (w : World) (buf : List Byte) {n : ℕ} (hn : n < 2 ^ 31)
    (hbuf : n ≤ buf.length) :
    ∃ e ≤ n, ∃ (r : ℤ) (s' : List Outcome) (k : ℕ),
      write_io_all w buf n = .ok (r, { w with
        dfw := w.dfw.written (buf.take e), sched := s', io_failed := k }) ∧
      s' <:+ w.sched ∧ w.io_failed ≤ k ∧ (r = n ↔ e = n) ∧ (k = w.io_failed ↔ e = n) ∧
      (e ≠ n → r = 0 ∨ r = -1) ∧ (w.sched = [] → w.dfw.room n = n → e = n) := by
  have hload : load buf 0 n = .ok (buf.take n) := by
    rw [load_of_le (by omega), slice, List.drop_zero]
  have hlen : (buf.take n).length = n := by rw [List.length_take]; omega
  obtain ⟨e, he, hfile, hst⟩ := write_all_spec w.sched w.dfw (buf.take n)
  rw [hlen] at he hst
  refine ⟨e, he, io_result n (write_all w.sched w.dfw (buf.take n)).1,
    (write_all w.sched w.dfw (buf.take n)).2.2, _, ?_, write_all_suffix _ _ _,
    le_count_failed _ (write_all w.sched w.dfw (buf.take n)).1, ?_, ?_, ?_, ?_⟩
  · rw [write_io_all, if_pos (by omega), hload]
    simp only [ok_bind, pure_eq, hfile, List.take_take, Nat.min_eq_left he]
  · exact io_result_eq_iff hn he hst
  · rw [count_failed_eq, hst]
  · exact fun h => io_result_short _ (fun hc => h (hst.mp hc))
  · intro hs hroom
    rw [← hst, hs, write_all_undisturbed (by rw [hlen]; exact hroom)]

/-- **A read, whatever the schedule.** The buffer starts with some front part of the bytes at the
position. What lay in the buffer behind that part is still there, which is why the callers look at
the result. -/
theorem read_io_all_spec (w : World) (buf : List Byte) {n : ℕ} (hn : n < 2 ^ 31)
    (hbuf : n ≤ buf.length) :
    ∃ e ≤ n, ∃ (r : ℤ) (s' : List Outcome) (k : ℕ),
      read_io_all w buf n = .ok (r, overlay 0 buf 0 (slice w.dfr.data w.dfr.pos e), { w with
        dfr := { w.dfr with pos := w.dfr.pos + e }, sched := s', io_failed := k }) ∧
      (slice w.dfr.data w.dfr.pos e).length = e ∧
      s' <:+ w.sched ∧ w.io_failed ≤ k ∧ (r = n ↔ e = n) ∧ (k = w.io_failed ↔ e = n) ∧
      (e ≠ n → r = 0 ∨ r = -1) ∧
      (w.sched = [] → w.dfr.pos + n ≤ w.dfr.data.length → e = n) := by
  obtain ⟨e, he, hbytes, hlen, hfile, hst⟩ := read_all_spec w.sched w.dfr n
  refine ⟨e, he, io_result n (read_all w.sched w.dfr n).1,
    (read_all w.sched w.dfr n).2.2.2, _, ?_, hlen, read_all_suffix _ _ _,
    le_count_failed _ (read_all w.sched w.dfr n).1, ?_, ?_, ?_, ?_⟩
  · rw [read_io_all, if_pos (by omega)]
    simp only [hbytes, hfile, hlen]
    rw [if_pos (by omega)]
  · exact io_result_eq_iff hn he hst
  · rw [count_failed_eq, hst]
  · exact fun h => io_result_short _ (fun hc => h (hst.mp hc))
  · intro hs hin
    rw [← hst, hs, read_all_undisturbed hin]

/-! ## Runs that only move bytes

`follows w w'` is what every step of a copy loop keeps: the source file's contents, the
kinds of the two files, and the order of signals and failures. -/

structure follows (w w' : World) : Prop where
  dfr_data : w'.dfr.data = w.dfr.data
  dfr_growable : w'.dfr.growable = w.dfr.growable
  dfw_growable : w'.dfw.growable = w.dfw.growable
  source : w'.source = w.source
  target : w'.target = w.target
  sched : w'.sched <:+ w.sched
  failed : w.io_failed ≤ w'.io_failed
  signals : w.signals <+: w'.signals

theorem follows.refl (w : World) : follows w w :=
  ⟨rfl, rfl, rfl, rfl, rfl, List.suffix_rfl, le_rfl, List.prefix_rfl⟩

theorem follows.trans {w₁ w₂ w₃ : World} (h : follows w₁ w₂) (h' : follows w₂ w₃) :
    follows w₁ w₃ :=
  ⟨h'.dfr_data.trans h.dfr_data, h'.dfr_growable.trans h.dfr_growable,
    h'.dfw_growable.trans h.dfw_growable, h'.source.trans h.source, h'.target.trans h.target,
    h'.sched.trans h.sched, h.failed.trans h'.failed, h.signals.trans h'.signals⟩

/-- A schedule that is used up stays so. -/
theorem follows.sched_nil {w w' : World} (h : follows w w') (hs : w.sched = []) :
    w'.sched = [] := List.suffix_nil.mp (hs ▸ h.sched)

/-- Moving a position, counting and using the checksum library are no transfers. -/
theorem follows_moved (w : World) (r p : ℕ) (cks : checksum_lib) (copied : ℕ) :
    follows w { w with
      dfr := { w.dfr with pos := r }, dfw := { w.dfw with pos := p }, cks := cks,
      copied_count := copied } :=
  ⟨rfl, rfl, rfl, rfl, rfl, List.suffix_rfl, le_rfl, List.prefix_rfl⟩

theorem follows_emit (w : World) (s : signal) : follows w (emit_signal w s) :=
  ⟨rfl, rfl, rfl, rfl, rfl, List.suffix_rfl, le_rfl, List.prefix_append _ _⟩

/-- `write_io_all_spec`, with what a write keeps. -/
theorem write_io_all_follows (w : World) (buf : List Byte) {n : ℕ} (hn : n < 2 ^ 31)
    (hbuf : n ≤ buf.length) :
    ∃ e ≤ n, ∃ (r : ℤ) (w' : World), write_io_all w buf n = .ok (r, w') ∧ follows w w' ∧
      w'.dfw = w.dfw.written (buf.take e) ∧ w'.dfr = w.dfr ∧ w'.cks = w.cks ∧
      w'.copied_count = w.copied_count ∧ w'.signals = w.signals ∧
      (r = n ↔ e = n) ∧ (w'.io_failed = w.io_failed ↔ e = n) ∧
      (w.sched = [] → w.dfw.room n = n → e = n) := by
  obtain ⟨e, he, r, s', k, hw, hs, hk, hr, hkiff, -, hfull⟩ := write_io_all_spec w buf hn hbuf
  exact ⟨e, he, r, _, hw, ⟨rfl, rfl, by simp, rfl, rfl, hs, hk, List.prefix_rfl⟩,
    rfl, rfl, rfl, rfl, rfl, hr, hkiff, hfull⟩

/-- `read_io_all_spec`, with what a read keeps. -/
theorem read_io_all_follows (w : World) (buf : List Byte) {n : ℕ} (hn : n < 2 ^ 31)
    (hbuf : n ≤ buf.length) :
    ∃ e ≤ n, ∃ (r : ℤ) (w' : World),
      read_io_all w buf n = .ok (r, overlay 0 buf 0 (slice w.dfr.data w.dfr.pos e), w') ∧
      follows w w' ∧ (slice w.dfr.data w.dfr.pos e).length = e ∧
      w'.dfr = { w.dfr with pos := w.dfr.pos + e } ∧ w'.dfw = w.dfw ∧ w'.cks = w.cks ∧
      w'.copied_count = w.copied_count ∧ w'.signals = w.signals ∧
      (r = n ↔ e = n) ∧ (w'.io_failed = w.io_failed ↔ e = n) ∧
      (w.sched = [] → w.dfr.pos + n ≤ w.dfr.data.length → e = n) := by
  obtain ⟨e, he, r, s', k, hw, hlen, hs, hk, hr, hkiff, -, hfull⟩ := read_io_all_spec w buf hn hbuf
  exact ⟨e, he, r, _, hw, ⟨rfl, rfl, rfl, rfl, rfl, hs, hk, List.prefix_rfl⟩, hlen,
    rfl, rfl, rfl, rfl, rfl, hr, hkiff, hfull⟩

/-- **`write_read_io_all` moves everything or says so.** In either direction and on every
schedule, some front part of the bytes is moved, once and in order, and the position is past it;
the result is the count exactly when that part is everything, and 0 or -1 otherwise. Whatever was
interrupted is taken up where it stopped, since the loop goes on at the place it has come to; and
the bytes that an error leaves unmoved are those behind. -/
theorem write_read_io_all_moves (w : World) (buf : List Byte) {count : ℕ} (hcount : count < 2 ^ 31)
    (hbuf : count ≤ buf.length) :
    (∃ e ≤ count, ∃ (r : ℤ) (w' : World), write_io_all w buf count = .ok (r, w') ∧
      w'.dfw = w.dfw.written (buf.take e) ∧ w'.dfw.pos = w.dfw.pos + e ∧ w'.dfr = w.dfr ∧
      (0 < count → r = count ∧ e = count ∨ (r = 0 ∨ r = -1) ∧ e < count) ∧
      (count = 0 → r = 0)) ∧
    ∃ e ≤ count, ∃ (r : ℤ) (w' : World), read_io_all w buf count
        = .ok (r, slice w.dfr.data w.dfr.pos e ++ buf.drop e, w') ∧
      (slice w.dfr.data w.dfr.pos e).length = e ∧
      w'.dfr = { w.dfr with pos := w.dfr.pos + e } ∧ w'.dfw = w.dfw ∧
      (0 < count → r = count ∧ e = count ∨ (r = 0 ∨ r = -1) ∧ e < count) ∧
      (count = 0 → r = 0) := by
  -- how many bytes were moved decides the result
  have hresult : ∀ {e : ℕ} {r : ℤ}, e ≤ count → (r = count ↔ e = count) →
      (e ≠ count → r = 0 ∨ r = -1) →
      (0 < count → r = count ∧ e = count ∨ (r = 0 ∨ r = -1) ∧ e < count) ∧
        (count = 0 → r = 0) := by
    intro e r he hr hshort
    constructor
    · intro _
      rcases Nat.lt_or_ge e count with hlt | hge
      · exact Or.inr ⟨hshort hlt.ne, hlt⟩
      · have heq : e = count := by omega
        exact Or.inl ⟨hr.mpr heq, heq⟩
    · intro hzero
      have heq := hr.mpr (by omega)
      omega
  constructor
  · obtain ⟨e, he, r, s', k, hw, -, -, hr, -, hshort, -⟩ := write_io_all_spec w buf hcount hbuf
    refine ⟨e, he, r, _, hw, rfl, ?_, rfl, hresult he hr hshort⟩
    rw [written_pos, List.length_take]
    omega
  · obtain ⟨e, he, r, s', k, hw, hlen, -, -, hr, -, hshort, -⟩ :=
      read_io_all_spec w buf hcount hbuf
    refine ⟨e, he, r, { w with
        dfr := { w.dfr with pos := w.dfr.pos + e }, sched := s', io_failed := k }, ?_, hlen, rfl,
      rfl, hresult he hr hshort⟩
    rw [hw, overlay, List.take_zero, hlen, Nat.zero_add, Nat.zero_sub]
    rfl

/-- Three bytes: one is moved, the next call is interrupted, and the rest follows. -/
theorem interrupted_transfer_moves :
    ∃ e ≤ 3, ∃ (r : ℤ) (w' : World),
      write_io_all ⟨⟨[], 0, true⟩, ⟨[], 0, true⟩, .regular, .regular, [.upTo 0, .again, .upTo 1], 0,
        [], 0, .initial⟩ [1, 2, 3] 3 = .ok (r, w') ∧
      w'.dfw = File.written ⟨[], 0, true⟩ ([1, 2, 3].take e) ∧ w'.dfw.pos = 0 + e ∧
      w'.dfr = ⟨[], 0, true⟩ ∧
      (0 < 3 → r = (3 : ℕ) ∧ e = 3 ∨ (r = 0 ∨ r = -1) ∧ e < 3) ∧ (3 = 0 → r = 0) :=
  (write_read_io_all_moves ⟨⟨[], 0, true⟩, ⟨[], 0, true⟩, .regular, .regular,
    [.upTo 0, .again, .upTo 1], 0, [], 0, .initial⟩ [1, 2, 3] (by decide) (by decide)).1

/-- A seek goes where its offset is as an `off_t`, or fails. -/
theorem seek_dfr_cases (w : World) (off : ℕ) :
    seek_dfr w off = (true, { w with dfr := { w.dfr with pos := (off_t off).toNat } }) ∨
      seek_dfr w off = (false, { w with io_failed := w.io_failed + 1 }) := by
  unfold seek_dfr lseek
  split_ifs
  · exact Or.inl rfl
  · exact Or.inr rfl

theorem seek_dfw_cases (w : World) (off : ℕ) :
    seek_dfw w off = (true, { w with dfw := { w.dfw with pos := (off_t off).toNat } }) ∨
      seek_dfw w off = (false, { w with io_failed := w.io_failed + 1 }) := by
  unfold seek_dfw lseek
  split_ifs
  · exact Or.inl rfl
  · exact Or.inr rfl

/-- Where `seek_dfr` ends up. -/
theorem seek_dfr_spec (w : World) (off : ℕ) (hoff : off < 2 ^ 63) :
    (seek_dfr w off = (true, { w with dfr := { w.dfr with pos := off } }) ∧
        off ≤ seek_limit w.dfr) ∨
      (seek_dfr w off = (false, { w with io_failed := w.io_failed + 1 }) ∧
        seek_limit w.dfr < off) := by
  rw [seek_dfr, off_t_of_lt hoff]
  by_cases h : off ≤ seek_limit w.dfr
  · rw [lseek_of_le h]
    exact Or.inl ⟨rfl, h⟩
  · rw [lseek, if_neg (by omega)]
    exact Or.inr ⟨rfl, by omega⟩

/-- The front of a file can always be sought to. -/
theorem seek_dfr_zero (w : World) :
    seek_dfr w 0 = (true, { w with dfr := { w.dfr with pos := 0 } }) := by
  rcases seek_dfr_spec w 0 (by omega) with ⟨h, -⟩ | ⟨-, h⟩
  · exact h
  · omega

theorem seek_dfw_spec (w : World) (off : ℕ) (hoff : off < 2 ^ 63) :
    (seek_dfw w off = (true, { w with dfw := { w.dfw with pos := off } }) ∧
        off ≤ seek_limit w.dfw) ∨
      (seek_dfw w off = (false, { w with io_failed := w.io_failed + 1 }) ∧
        seek_limit w.dfw < off) := by
  rw [seek_dfw, off_t_of_lt hoff]
  by_cases h : off ≤ seek_limit w.dfw
  · rw [lseek_of_le h]
    exact Or.inl ⟨rfl, h⟩
  · rw [lseek, if_neg (by omega)]
    exact Or.inr ⟨rfl, by omega⟩

/-- A position inside the file can be reached. -/
theorem le_seek_limit (f : File) (off : ℕ) (hoff : off < 2 ^ 63) (h : off ≤ f.data.length) :
    off ≤ seek_limit f := by
  unfold seek_limit
  split <;> omega

end SysbakAdmin.Io

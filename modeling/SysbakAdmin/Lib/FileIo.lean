/-
**Files under a schedule of system calls**: a store with a position, read and
written through the retried transfers of `Transfer`.

A growable file is a regular file; one that is not is a device, which ends where its
store ends. `write_all_spec` and `read_all_spec` say what a whole retried transfer
has done however the schedule went: it has written, or read, some front part of what
was asked for, once and in order, and it reports completion exactly when that part is
everything.

A write at the end of a growable file appends, one at a place inside overwrites, and a device
takes no more than it has room for. `has_room` is the condition under which a write is whole
on an undisturbed schedule, and it is kept along a sequence of writes.

The position of a file is part of it and is moved by what has been transferred, so a sequence
of transfers needs no account of offsets.
-/
import SysbakAdmin.Lib.ByteStore
import SysbakAdmin.Lib.LittleEndian
import SysbakAdmin.Lib.Transfer

set_option autoImplicit false

namespace FileIo

open LittleEndian ByteStore Transfer

/-- An open file: its contents, the position, and whether a write may extend it. -/
structure File where
  data : List Byte
  pos : ℕ
  growable : Bool
  deriving DecidableEq, Repr

/-- The file after `x` was written at the position. -/
def File.written (f : File) (x : List Byte) : File :=
  if x = [] then f
  else { f with data := overlay 0 f.data f.pos x, pos := f.pos + x.length }

/-- How many of `n` bytes one write can place. -/
def File.room (f : File) (n : ℕ) : ℕ :=
  if f.growable then n else min n (f.data.length - f.pos)

/-- One write of at most `n` of the pending bytes; a device that is full is an error. -/
def write_move (n : ℕ) (s : File × List Byte) : Option (ℕ × File × List Byte) :=
  if s.1.room (s.2.take n).length = 0 then none
  else
    some (s.1.room (s.2.take n).length, s.1.written (s.2.take (s.1.room (s.2.take n).length)),
      s.2.drop (s.1.room (s.2.take n).length))

/-- One read of at most `n` bytes, added to the bytes read so far. -/
def read_move (n : ℕ) (s : File × List Byte) : Option (ℕ × File × List Byte) :=
  some ((slice s.1.data s.1.pos n).length,
    { s.1 with pos := s.1.pos + (slice s.1.data s.1.pos n).length },
    s.2 ++ slice s.1.data s.1.pos n)

/-- Write all of `x`: how it ended, the file, and what is left of the schedule. -/
def write_all (sched : List Outcome) (f : File) (x : List Byte) :
    Status × File × List Outcome :=
  let r := transfer write_move sched x.length (f, x)
  (r.1, r.2.1.1, r.2.2)

/-- Read `n` bytes: how it ended, the bytes, the file, and what is left of the schedule. -/
def read_all (sched : List Outcome) (f : File) (n : ℕ) :
    Status × List Byte × File × List Outcome :=
  let r := transfer read_move sched n (f, [])
  (r.1, r.2.1.2, r.2.1.1, r.2.2)

/-- A single read, not retried: the bytes it returned, or an error. -/
def read_one (sched : List Outcome) (f : File) (n : ℕ) : Option (List Byte) × List Outcome :=
  match sched with
  | [] => (some (slice f.data f.pos n), [])
  | .upTo k :: sched => (some (slice f.data f.pos (min (k + 1) n)), sched)
  | .nothing :: sched => (some [], sched)
  | .again :: sched => (none, sched)
  | .error :: sched => (none, sched)

/-! ## Writing -/

@[simp] theorem written_nil (f : File) : f.written [] = f := if_pos rfl

@[simp] theorem written_growable (f : File) (x : List Byte) :
    (f.written x).growable = f.growable := by
  unfold File.written; split <;> rfl

theorem written_pos (f : File) (x : List Byte) : (f.written x).pos = f.pos + x.length := by
  unfold File.written
  split_ifs with h
  · simp [h]
  · rfl

theorem written_data (f : File) {x : List Byte} (h : x ≠ []) :
    (f.written x).data = overlay 0 f.data f.pos x := by
  rw [File.written, if_neg h]

/-- Every cell of the file after a write. -/
theorem written_getD (f : File) (x : List Byte) (i : ℕ) :
    (f.written x).data.getD i 0
      = if f.pos ≤ i ∧ i < f.pos + x.length then x.getD (i - f.pos) 0 else f.data.getD i 0 := by
  by_cases h : x = []
  · subst h
    rw [written_nil, if_neg (by simp)]
  · rw [written_data f h, overlay_getD]

/-- Two writes in a row are one. -/
theorem written_append (f : File) (x y : List Byte) :
    (f.written x).written y = f.written (x ++ y) := by
  by_cases hx : x = []
  · simp [hx]
  by_cases hy : y = []
  · simp [hy]
  have hxy : x ++ y ≠ [] := by simp [hx]
  simp only [File.written, hx, hy, hxy, if_false, overlay_overlay, List.length_append,
    Nat.add_assoc]

/-- A write within a file keeps its length. -/
theorem written_length_of_le {f : File} {x : List Byte} (h : f.pos + x.length ≤ f.data.length) :
    (f.written x).data.length = f.data.length := by
  by_cases hx : x = []
  · simp [hx]
  · rw [written_data f hx, overlay_length]; omega

/-- At the end of a file, a write appends. -/
theorem written_at_end {f : File} (h : f.pos = f.data.length) (x : List Byte) :
    f.written x = { f with data := f.data ++ x, pos := f.pos + x.length } := by
  by_cases hx : x = []
  · simp [hx]
  · rw [File.written, if_neg hx, h, overlay_at_end]

theorem room_le (f : File) (n : ℕ) : f.room n ≤ n := by
  unfold File.room; split <;> omega

/-- What a retried write has done: some front part of `x` is in the file. -/
theorem write_all_spec (sched : List Outcome) (f : File) (x : List Byte) :
    ∃ e ≤ x.length, (write_all sched f x).2.1 = f.written (x.take e) ∧
      ((write_all sched f x).1 = .complete ↔ e = x.length) := by
  obtain ⟨e, _, he, ⟨hfile, _⟩, hst⟩ := transfer_spec write_move
    (I := fun e s => s.1 = f.written (x.take e) ∧ s.2 = x.drop e) sched (f, x) (by simp) (by
      rintro d n ⟨f', y⟩ k s' hn hd ⟨hf, hy⟩ hm
      dsimp only at hf hy
      unfold write_move at hm
      split_ifs at hm with h0
      simp only [Option.some.injEq, Prod.mk.injEq] at hm
      obtain ⟨rfl, rfl⟩ := hm
      have hk := room_le f' (y.take n).length
      rw [List.length_take] at hk
      refine ⟨by simp only [List.length_take]; omega, ?_, ?_⟩
      · rw [hf, written_append, hy, ← List.take_add]
      · rw [hy, List.drop_drop])
  exact ⟨e, he, hfile, hst⟩

/-- A file that can take the bytes takes them all when nothing disturbs. -/
theorem write_all_undisturbed {f : File} {x : List Byte} (h : f.room x.length = x.length) :
    write_all [] f x = (.complete, f.written x, []) := by
  by_cases hx : x = []
  · subst hx; simp [write_all]
  · have hpos : 0 < x.length := List.length_pos_iff.mpr hx
    have hm : write_move x.length (f, x) = some (x.length, f.written x, []) := by
      simp [write_move, h, hx]
    rw [write_all, transfer_undisturbed write_move hpos hm]

theorem room_of_growable {f : File} (h : f.growable = true) (n : ℕ) : f.room n = n := if_pos h

theorem room_of_le {f : File} {n : ℕ} (h : f.pos + n ≤ f.data.length) : f.room n = n := by
  unfold File.room; split <;> omega

/-- The next `n` bytes can be placed: the file grows, or does not end before. -/
def File.has_room (f : File) (n : ℕ) : Prop := f.growable = true ∨ f.pos + n ≤ f.data.length

theorem File.has_room.room_eq {f : File} {n m : ℕ} (h : f.has_room n) (hm : m ≤ n) :
    f.room m = m := by
  rcases h with h | h
  · exact room_of_growable h m
  · exact room_of_le (by omega)

/-- What is left of the room after a write. -/
theorem File.has_room.written {f : File} {x : List Byte} {n : ℕ}
    (h : f.has_room (x.length + n)) : (f.written x).has_room n := by
  rcases h with h | h
  · exact Or.inl (by rw [written_growable]; exact h)
  · refine Or.inr ?_
    rw [written_pos, written_length_of_le (by omega)]
    omega

/-- A file with room takes all bytes, on a schedule where no call fails. -/
theorem write_all_complete {sched : List Outcome} (hsched : carries sched) {f : File}
    {x : List Byte} (hroom : f.has_room x.length) : (write_all sched f x).1 = .complete := by
  refine transfer_complete write_move
    (P := fun n s => s.2.length = n ∧ s.1.has_room n) ?_ hsched ⟨rfl, hroom⟩
  rintro n m ⟨f', y⟩ h0 hm ⟨hy, hf'⟩
  dsimp only at hy hf'
  have hlen : (y.take m).length = m := by rw [List.length_take]; omega
  have hall : f'.room (y.take m).length = m := by rw [hlen, hf'.room_eq hm]
  obtain ⟨k, rfl⟩ : ∃ k, m = k + 1 := ⟨m - 1, by omega⟩
  refine ⟨k, (f'.written (y.take (k + 1)), y.drop (k + 1)), ?_, le_rfl, ?_, ?_⟩
  · simp only [write_move, hall, if_neg (Nat.succ_ne_zero k)]
  · rw [List.length_drop, hy]
  · apply File.has_room.written
    rwa [hlen, Nat.add_sub_cancel' hm]

/-- What is left of the schedule after a write. -/
theorem write_all_suffix (sched : List Outcome) (f : File) (x : List Byte) :
    (write_all sched f x).2.2 <:+ sched := transfer_suffix write_move sched x.length (f, x)

/-- What is left of the schedule after a read. -/
theorem read_all_suffix (sched : List Outcome) (f : File) (n : ℕ) :
    (read_all sched f n).2.2.2 <:+ sched := transfer_suffix read_move sched n (f, [])

/-! ## Reading -/

/-- What a retried read has done: some front part of the `n` bytes at the position has
been read, and the position is past it. -/
theorem read_all_spec (sched : List Outcome) (f : File) (n : ℕ) :
    ∃ e ≤ n, (read_all sched f n).2.1 = slice f.data f.pos e ∧
      (slice f.data f.pos e).length = e ∧
      (read_all sched f n).2.2.1 = { f with pos := f.pos + e } ∧
      ((read_all sched f n).1 = .complete ↔ e = n) := by
  obtain ⟨e, _, he, ⟨hacc, hlen, hfile⟩, hst⟩ := transfer_spec read_move
    (I := fun e s => s.2 = slice f.data f.pos e ∧ (slice f.data f.pos e).length = e ∧
      s.1 = { f with pos := f.pos + e }) sched (f, []) (by simp [slice]) (by
      rintro d m ⟨f', y⟩ k s' hm hd ⟨hy, hlen, hf⟩ hmove
      dsimp only at hy hf
      subst hf
      simp only [read_move, Option.some.injEq, Prod.mk.injEq] at hmove
      obtain ⟨rfl, rfl⟩ := hmove
      have hk : (slice f.data (f.pos + d) m).length ≤ m := by rw [slice_length]; omega
      have hfull : slice f.data (f.pos + d) (slice f.data (f.pos + d) m).length
          = slice f.data (f.pos + d) m := by
        simp only [slice, List.length_take, List.length_drop]
        rcases Nat.le_total m (f.data.length - (f.pos + d)) with h | h
        · rw [Nat.min_eq_left h]
        · rw [Nat.min_eq_right h, List.take_of_length_le (by simp),
            List.take_of_length_le (by simp; omega)]
      refine ⟨hk, ?_, ?_, ?_⟩
      · rw [hy, ← slice_append, hfull]
      · rw [← slice_append, List.length_append, hlen, hfull]
      · simp only [Nat.add_assoc])
  exact ⟨e, he, hacc, hlen, hfile, hst⟩

/-- Undisturbed, a read of bytes that are there returns them. -/
theorem read_all_undisturbed {f : File} {n : ℕ} (h : f.pos + n ≤ f.data.length) :
    read_all [] f n = (.complete, slice f.data f.pos n, { f with pos := f.pos + n }, []) := by
  have hlen : (slice f.data f.pos n).length = n := slice_length_of_le h
  by_cases hn : n = 0
  · subst hn; simp [read_all, slice]
  · have hm : read_move n (f, []) = some (n, { f with pos := f.pos + n }, slice f.data f.pos n) := by
      simp [read_move, hlen]
    rw [read_all, transfer_undisturbed read_move (by omega) hm]

/-- Bytes that are there are read, on a schedule where no call fails. -/
theorem read_all_complete {sched : List Outcome} (hsched : carries sched) {f : File} {n : ℕ}
    (h : f.pos + n ≤ f.data.length) : (read_all sched f n).1 = .complete := by
  refine transfer_complete read_move
    (P := fun n s => s.1.pos + n ≤ s.1.data.length) ?_ hsched h
  rintro n m ⟨f', y⟩ h0 hm hin
  dsimp only at hin
  have hlen : (slice f'.data f'.pos m).length = m := slice_length_of_le (by omega)
  obtain ⟨k, rfl⟩ : ∃ k, m = k + 1 := ⟨m - 1, by omega⟩
  refine ⟨k, _, by rw [read_move, hlen], le_rfl, ?_⟩
  dsimp only
  omega

end FileIo

/-
The word bitmap as a set of block numbers: what an allocated bitmap holds after any
sequence of `pc_set_bit`, `pc_clear_bit` and `pc_init_bitmap`.

The specification knows no words. A sequence of calls marks block `m` when the last call
that affects `m` set it (`marked_by`), and `implements_set` says that the array of words
agrees with this at every block, stays inside its allocation, refuses the block numbers
that are out of range, and is laid out in memory as the image file stores it.

`bit_run_call` is the step, one case per call, and `bit_run_calls` the run. What decides
whether an allocation is large enough is the rounding in `BITS_TO_LONGS`, which wraps for
the last 63 totals below `2 ^ 64` (`pc_alloc_bitmap_implements_set_iff`).

Every call of the run may be given any number, in range or not, and the two ends of the range
are where the code could go wrong: block `total - 1` in the last word, and the total at which
the number of words wraps.
-/
import Mathlib.Data.List.Induction
import SysbakAdmin.Share

set_option autoImplicit false

namespace SysbakAdmin.Bitmap

open LittleEndian ByteStore CInt Share

/-! ## The calls and what they mean

The last call that affects a block decides; `marked_by` reads the calls from the end. -/

/-- A call on the bitmap of a volume of `total` blocks. The block numbers are arbitrary;
`pc_init_bitmap` is asked for no more blocks than the volume has. -/
inductive bitmap_call (total : ℕ) where
  | pc_set_bit (nr : ℕ)
  | pc_clear_bit (nr : ℕ)
  | pc_init_bitmap (value : Byte) (bits : ℕ) (in_range : bits ≤ total)

section Calls

variable {total : ℕ}

/-- The array after one call. -/
def bitmap_call.run (bm : bitmap) : bitmap_call total → bitmap
  | .pc_set_bit nr => (Bitmap.pc_set_bit nr bm total).2
  | .pc_clear_bit nr => (Bitmap.pc_clear_bit nr bm total).2
  | .pc_init_bitmap value bits _ => Bitmap.pc_init_bitmap bm value bits

/-- The array after several. -/
def run_calls (bm : bitmap) (calls : List (bitmap_call total)) : bitmap :=
  calls.foldl bitmap_call.run bm

/-- Whether a call is about block `m`. `memset` takes whole words. -/
def bitmap_call.affects (m : ℕ) : bitmap_call total → Bool
  | .pc_set_bit nr => nr = m
  | .pc_clear_bit nr => nr = m
  | .pc_init_bitmap _ bits _ => m / 64 < BITS_TO_LONGS bits

/-- What such a call leaves at `m`. -/
def bitmap_call.sets (m : ℕ) : bitmap_call total → Bool
  | .pc_set_bit _ => true
  | .pc_clear_bit _ => false
  | .pc_init_bitmap value _ _ => value.getLsbD (m % 8)

/-- The block is marked when the last call that affects it set it; an allocation starts
with none. -/
def marked_by (calls : List (bitmap_call total)) (m : ℕ) : Bool :=
  match calls.reverse.find? (bitmap_call.affects m) with
  | some call => call.sets m
  | none => false

/-- The bitmap `bm` of `total` blocks, as it was allocated, is a finite set under every
sequence of calls. -/
structure implements_set (total : ℕ) (bm : bitmap) : Prop where
  /-- Blocks out of range change nothing and report failure. -/
  refuses : ∀ (calls : List (bitmap_call total)) (nr : ℕ), total ≤ nr →
    pc_set_bit nr (run_calls bm calls) total = (false, run_calls bm calls) ∧
    pc_clear_bit nr (run_calls bm calls) total = (false, run_calls bm calls) ∧
    pc_test_bit nr (run_calls bm calls) total = -1
  /-- The others are accepted. -/
  accepts : ∀ (calls : List (bitmap_call total)) (nr : ℕ), nr < total →
    (pc_set_bit nr (run_calls bm calls) total).1 = true ∧
    (pc_clear_bit nr (run_calls bm calls) total).1 = true
  /-- The words that are read and written are those of the allocation. -/
  inside : ∀ calls : List (bitmap_call total),
    (∀ nr < total, nr / 64 < (run_calls bm calls).length) ∧
    (∀ bits ≤ total, BITS_TO_LONGS bits ≤ (run_calls bm calls).length) ∧
    BITS_TO_BYTES total ≤ 8 * (run_calls bm calls).length
  /-- A block tests as 1 exactly when the last call about it set it. -/
  last : ∀ (calls : List (bitmap_call total)) (m : ℕ), m < total →
    (pc_test_bit m (run_calls bm calls) total = 1 ↔ marked_by calls m = true)
  /-- The bytes that the image stores hold block `m` in bit `m % 8` of byte `m / 8`. -/
  stored : ∀ (calls : List (bitmap_call total)) (m : ℕ), m < total →
    m / 8 < (bitmap_data total (run_calls bm calls)).length ∧
    (pc_test_bit m (run_calls bm calls) total = 1 ↔
      ((bitmap_data total (run_calls bm calls)).getD (m / 8) 0).getLsbD (m % 8) = true)

/-! ## One call -/

@[simp] theorem run_call_length (bm : bitmap) (call : bitmap_call total) :
    (call.run bm).length = bm.length := by
  cases call with
  | pc_set_bit nr => exact pc_set_bit_length nr bm total
  | pc_clear_bit nr => exact pc_clear_bit_length nr bm total
  | pc_init_bitmap value bits in_range => exact pc_init_bitmap_length bm value bits

/-- **One call**: the blocks it affects are as it says, the others as before. -/
theorem bit_run_call {bm : bitmap} (htot : total + 63 < 2 ^ 64)
    (hlen : bm.length = BITS_TO_LONGS total) (call : bitmap_call total) {m : ℕ} (hm : m < total) :
    bit (call.run bm) m = if call.affects m then call.sets m else bit bm m := by
  have hword : m / 64 < BITS_TO_LONGS total := word_lt_BITS_TO_LONGS htot hm
  cases call with
  | pc_set_bit nr =>
      simp only [bitmap_call.run, bitmap_call.affects, bitmap_call.sets, decide_eq_true_eq]
      by_cases h : nr = m
      · subst h
        rw [bit_set bm hm (by omega), if_pos rfl, decide_eq_true rfl, Bool.true_or]
      · rw [if_neg h]
        -- another block, in range or not
        rcases Nat.lt_or_ge nr total with hlt | hge
        · have hnr := word_lt_BITS_TO_LONGS htot hlt
          rw [bit_set bm hlt (by omega), decide_eq_false (Ne.symm h), Bool.false_or]
        · rw [pc_set_bit_of_ge bm hge]
  | pc_clear_bit nr =>
      simp only [bitmap_call.run, bitmap_call.affects, bitmap_call.sets, decide_eq_true_eq]
      by_cases h : nr = m
      · subst h
        rw [bit_clear bm hm (by omega), if_pos rfl, decide_eq_true rfl, Bool.not_true,
          Bool.false_and]
      · rw [if_neg h]
        rcases Nat.lt_or_ge nr total with hlt | hge
        · have hnr := word_lt_BITS_TO_LONGS htot hlt
          rw [bit_clear bm hlt (by omega), decide_eq_false (Ne.symm h), Bool.not_false,
            Bool.true_and]
        · rw [pc_clear_bit_of_ge bm hge]
  | pc_init_bitmap value bits in_range =>
      have hbits : BITS_TO_LONGS bits ≤ bm.length := by
        rw [hlen, BITS_TO_LONGS, BITS_TO_LONGS, u64_of_lt (by omega), u64_of_lt (by omega)]
        omega
      simp only [bitmap_call.run, bitmap_call.affects, bitmap_call.sets, decide_eq_true_eq]
      exact bit_init hbits m

/-! ## A sequence of calls -/

@[simp] theorem run_calls_length (bm : bitmap) (calls : List (bitmap_call total)) :
    (run_calls bm calls).length = bm.length := by
  induction calls generalizing bm with
  | nil => rfl
  | cons call calls ih => rw [run_calls, List.foldl_cons, ← run_calls, ih, run_call_length]

/-- **A run**: the bits of the array are those that the last calls left. The induction adds
a call at the end, where `marked_by` looks first. -/
theorem bit_run_calls {bm : bitmap} (htot : total + 63 < 2 ^ 64)
    (hlen : bm.length = BITS_TO_LONGS total) (hclear : ∀ b, bit bm b = false)
    (calls : List (bitmap_call total)) {m : ℕ} (hm : m < total) :
    bit (run_calls bm calls) m = marked_by calls m := by
  induction calls using List.reverseRecOn with
  | nil => exact hclear m
  | append_singleton calls call ih =>
      have hstep : run_calls bm (calls ++ [call]) = call.run (run_calls bm calls) := by
        rw [run_calls, run_calls, List.foldl_append]
        rfl
      rw [hstep, bit_run_call htot (by rw [run_calls_length, hlen]) call hm]
      unfold marked_by
      rw [List.reverse_append, List.reverse_singleton, List.singleton_append, List.find?_cons]
      cases h : call.affects m with
      | true => rfl
      | false =>
          simp only [Bool.false_eq_true, if_false]
          exact ih

/-- An allocation is clear. -/
theorem bit_replicate_zero (n b : ℕ) : bit (List.replicate n 0) b = false := by
  unfold bit
  rcases Nat.lt_or_ge (b / 64) n with h | h
  · rw [List.getD_replicate _ h]
    exact BitVec.getLsbD_zero
  · rw [List.getD_eq_default _ _ (by simpa using h)]
    exact BitVec.getLsbD_zero

/-- A test reads 1 at a marked block. -/
theorem pc_test_bit_eq_one {bm : bitmap} {m : ℕ} (h : m < total) :
    pc_test_bit m bm total = 1 ↔ bit bm m = true := by
  rw [pc_test_bit_of_lt bm h]
  cases bit bm m <;> decide

/-- The byte that the image stores for a block. -/
theorem bitmap_data_getD {bm : bitmap} {m : ℕ} (h : m / 8 < BITS_TO_BYTES total) :
    ((bitmap_data total bm).getD (m / 8) 0).getLsbD (m % 8) = bit bm m := by
  rw [← bitmap_bytes_getD, bitmap_data]
  simp only [List.getD_eq_getElem?_getD, List.getElem?_take, h, if_true]

/-- **An array with a word for every block is a set of blocks.** The bits are by the run lemma,
the length never changes, and the rest is one lemma for each function about the numbers it
refuses. -/
theorem implements_set_of_words (htot : total + 63 < 2 ^ 64) :
    implements_set total (List.replicate (BITS_TO_LONGS total) 0) := by
  have hlen : ∀ calls : List (bitmap_call total),
      (run_calls (List.replicate (BITS_TO_LONGS total) 0) calls).length = BITS_TO_LONGS total := by
    intro calls
    rw [run_calls_length, List.length_replicate]
  constructor
  · intro calls nr hnr
    exact ⟨pc_set_bit_of_ge _ hnr, pc_clear_bit_of_ge _ hnr, if_pos hnr⟩
  · intro calls nr hnr
    unfold pc_set_bit pc_clear_bit
    rw [if_neg (by omega), if_neg (by omega)]
    exact ⟨rfl, rfl⟩
  · intro calls
    rw [hlen]
    refine ⟨fun nr hnr => word_lt_BITS_TO_LONGS htot hnr, ?_, BITS_TO_BYTES_le htot⟩
    intro bits hbits
    rw [BITS_TO_LONGS, BITS_TO_LONGS, u64_of_lt (by omega), u64_of_lt (by omega)]
    omega
  · intro calls m hm
    rw [pc_test_bit_eq_one hm, bit_run_calls htot List.length_replicate (bit_replicate_zero _)
      calls hm]
  · intro calls m hm
    have hbyte := byte_lt_BITS_TO_BYTES (by omega) hm
    refine ⟨?_, ?_⟩
    · rw [bitmap_data_length (by rw [hlen]; exact BITS_TO_BYTES_le htot)]
      exact hbyte
    · rw [pc_test_bit_eq_one hm, bitmap_data_getD hbyte]

end Calls

/-! ## Allocation -/

/-- Where the rounding wraps, no word is allocated. -/
theorem BITS_TO_LONGS_wraps {total : ℕ} (hlt : total < 2 ^ 64) (h : 2 ^ 64 ≤ total + 63) :
    BITS_TO_LONGS total = 0 := by
  rw [BITS_TO_LONGS, u64]
  omega

/-- **When an allocated bitmap is a set of blocks**: up to `2 ^ 64 - 64` of them. Above that the
rounding in `BITS_TO_LONGS` wraps to an allocation of no words, in which no block can be marked.
-/
theorem pc_alloc_bitmap_implements_set_iff (calloc : ℕ → Bool) (total : BitVec 64) {bm : bitmap}
    (h : pc_alloc_bitmap calloc total.toNat = some bm) :
    implements_set total.toNat bm ↔ total.toNat ≤ 18446744073709551552 := by
  have hbm : bm = List.replicate (BITS_TO_LONGS total.toNat) 0 := by
    unfold pc_alloc_bitmap at h
    split_ifs at h
    exact (Option.some.inj h).symm
  have hlt := total.isLt
  constructor
  · intro hset
    by_contra hwrap
    -- block 0 has no word to lie in
    have hword := (hset.inside []).1 0 (by omega)
    rw [run_calls_length, hbm, List.length_replicate, BITS_TO_LONGS_wraps hlt (by omega)] at hword
    omega
  · intro hle
    rw [hbm]
    exact implements_set_of_words (by omega)

/-- A volume of 100 blocks, in two words. -/
theorem hundred_blocks_implement_set :
    pc_alloc_bitmap (fun _ => true) 100 = some [0, 0] ∧ implements_set 100 [0, 0] :=
  ⟨by decide, (pc_alloc_bitmap_implements_set_iff (fun _ => true) 100 (by decide)).mpr (by decide)⟩

/-- `2 ^ 64 - 1` blocks get no word at all, and block 0 is set in a word that is not there. -/
theorem last_total_not_a_set :
    ∃ bm, pc_alloc_bitmap (fun _ => true) 18446744073709551615 = some bm ∧
      ¬ implements_set 18446744073709551615 bm := by
  refine ⟨[], by decide, ?_⟩
  intro hset
  have hword := (hset.inside []).1 0 (by norm_num)
  exact absurd hword (by decide)

end SysbakAdmin.Bitmap

/-
**Text as C has it**: strings that end at a zero, the lines that `fgets` takes from a file
and the numbers that `atoi` takes from a string.

A `char` is a byte, and text is the list of them. A line is read into a buffer, so a long
one comes in pieces: `fgets_line` is about a line that fits, `fgets_long` about one that does
not, `fgets_front` about a text of whole lines in front of it.

A search in a buffer does not know where the file ended. What it sees is the text up to the
first zero, which may lie in what the buffer held before: `c_string_append_of_mem` and
`c_string_append_of_not_mem` are the two cases.

The functions are those of the C library as their manual describes them, on lists of
characters: a list has an end, and a string ends at its first zero or there.
-/
import Mathlib.Data.List.Infix
import Mathlib.Data.List.TakeWhile
import SysbakAdmin.Lib.CInt

set_option autoImplicit false

namespace CString

open CInt

variable {a b : List Char}

/-! ## Strings -/

/-- The string that starts where `m` does. -/
def c_string (m : List Char) : List Char := m.takeWhile (· ≠ '\x00')

theorem c_string_cons (x : Char) (a : List Char) :
    c_string (x :: a) = if x = '\x00' then [] else x :: c_string a := by
  unfold c_string
  by_cases h : x = '\x00' <;> simp [h]

theorem c_string_append_of_mem (h : '\x00' ∈ a) : c_string (a ++ b) = c_string a := by
  induction a with
  | nil => cases h
  | cons x a ih =>
      rw [List.cons_append, c_string_cons, c_string_cons]
      by_cases hx : x = '\x00'
      · rw [if_pos hx, if_pos hx]
      · have ha : '\x00' ∈ a := (List.mem_cons.mp h).resolve_left fun h' => hx h'.symm
        rw [if_neg hx, if_neg hx, ih ha]

theorem c_string_append_of_not_mem (h : '\x00' ∉ a) : c_string (a ++ b) = a ++ c_string b := by
  induction a with
  | nil => rfl
  | cons x a ih =>
      have hx : x ≠ '\x00' := fun h' => h (h' ▸ List.mem_cons_self)
      rw [List.cons_append, c_string_cons, if_neg hx, ih fun h' => h (List.mem_cons_of_mem _ h'),
        List.cons_append]

theorem c_string_front : c_string a <+: a := List.takeWhile_prefix _

theorem c_string_of_not_mem (h : '\x00' ∉ a) : c_string a = a := by
  simpa [c_string] using c_string_append_of_not_mem (b := []) h

/-- What follows in memory can only make a string longer. -/
theorem c_string_grows : c_string a <+: c_string (a ++ b) := by
  by_cases h : '\x00' ∈ a
  · rw [c_string_append_of_mem h]
  · rw [c_string_append_of_not_mem h, c_string_of_not_mem h]
    exact List.prefix_append _ _

/-! ## Lines -/

/-- `fgets`, with room for `n` characters, from the rest of a file: what is stored, what is
left of the file, and whether its end was met. -/
def fgets : ℕ → List Char → List Char × List Char × Bool
  | 0, s => ([], s, false)
  | _ + 1, [] => ([], [], true)
  | n + 1, c :: s =>
      if c = '\n' then ([c], s, false) else (c :: (fgets n s).1, (fgets n s).2)

/-- A line that fits is read with its end. -/
theorem fgets_line {n : ℕ} (hn : a.length < n) (ha : '\n' ∉ a) :
    fgets n (a ++ '\n' :: b) = (a ++ ['\n'], b, false) := by
  induction n generalizing a with
  | zero => exact absurd hn (Nat.not_lt_zero _)
  | succ n ih =>
      cases a with
      | nil => exact if_pos rfl
      | cons c a =>
          have hc : c ≠ '\n' := fun h => ha (h ▸ List.mem_cons_self)
          have hrest := ih (a := a) (by rw [List.length_cons] at hn; omega)
            fun h => ha (List.mem_cons_of_mem _ h)
          rw [List.cons_append, fgets, if_neg hc, hrest]
          rfl

/-- Of a line that does not fit, the room is filled. -/
theorem fgets_long {n : ℕ} (hn : n ≤ a.length) (ha : '\n' ∉ a) (b : List Char) :
    fgets n (a ++ b) = (a.take n, a.drop n ++ b, false) := by
  induction n generalizing a with
  | zero => rfl
  | succ n ih =>
      cases a with
      | nil => exact absurd hn (Nat.not_succ_le_zero _)
      | cons c a =>
          have hc : c ≠ '\n' := fun h => ha (h ▸ List.mem_cons_self)
          have hrest := ih (Nat.le_of_succ_le_succ hn) fun h => ha (List.mem_cons_of_mem _ h)
          rw [List.cons_append, fgets, if_neg hc, hrest]
          rfl

/-- Nothing is read across the end of a line: of a text with an end of a line in it, a front
part is read, and the file goes on with the rest of that text. -/
theorem fgets_front (n : ℕ) (ha : '\n' ∈ a) (b : List Char) :
    ∃ line rest, a = line ++ rest ∧ (0 < n → line ≠ []) ∧
      fgets n (a ++ b) = (line, rest ++ b, false) := by
  induction n generalizing a with
  | zero => exact ⟨[], a, rfl, fun h => absurd h (Nat.lt_irrefl _), rfl⟩
  | succ n ih =>
      cases a with
      | nil => cases ha
      | cons c a =>
          by_cases hc : c = '\n'
          · exact ⟨[c], a, rfl, fun _ => List.cons_ne_nil _ _, if_pos hc⟩
          · have ha' : '\n' ∈ a := (List.mem_cons.mp ha).resolve_left fun h => hc h.symm
            obtain ⟨line, rest, hsplit, -, hread⟩ := ih ha'
            refine ⟨c :: line, rest, by rw [hsplit]; rfl, fun _ => List.cons_ne_nil _ _, ?_⟩
            rw [List.cons_append, fgets, if_neg hc, hread]

/-- A call that does not meet the end of the file takes something from it. -/
theorem fgets_shorter {n : ℕ} {s : List Char} (hn : 0 < n) (h : (fgets n s).2.2 = false) :
    (fgets n s).2.1.length < s.length := by
  induction n generalizing s with
  | zero => exact absurd hn (Nat.lt_irrefl _)
  | succ n ih =>
      cases s with
      | nil => cases h
      | cons c s =>
          rw [fgets] at h ⊢
          split
          · exact Nat.lt_succ_self _
          · rename_i hc
            rw [if_neg hc] at h
            rcases Nat.eq_zero_or_pos n with rfl | hpos
            · exact Nat.lt_succ_self _
            · exact (ih hpos h).trans (Nat.lt_succ_self _)

/-! ## Numbers -/

/-- `isspace`. -/
def isspace (c : Char) : Bool := c = ' ' || '\t' ≤ c && c ≤ '\r'

/-- The number that decimal digits stand for. -/
def decimal (digits : List Char) : ℕ :=
  digits.foldl (fun n c => 10 * n + (c.toNat - '0'.toNat)) 0

/-- `strtol`, which stops at the ends of a `long`. -/
def strtol (s : List Char) : ℤ :=
  match s.dropWhile isspace with
  | '-' :: s => -(min (decimal (s.takeWhile Char.isDigit)) (2 ^ 63) : ℕ)
  | '+' :: s => (min (decimal (s.takeWhile Char.isDigit)) (2 ^ 63 - 1) : ℕ)
  | s => (min (decimal (s.takeWhile Char.isDigit)) (2 ^ 63 - 1) : ℕ)

/-- `atoi`. -/
def atoi (s : List Char) : ℤ := toInt32 (strtol s)

theorem dropWhile_blanks (n : ℕ) (h : ∀ c ∈ a.head?, isspace c = false) :
    (List.replicate n ' ' ++ a).dropWhile isspace = a := by
  induction n with
  | zero =>
      cases a with
      | nil => rfl
      | cons c a =>
          rw [List.replicate_zero, List.nil_append, List.dropWhile_cons_of_neg]
          simp [h c rfl]
  | succ n ih =>
      rw [List.replicate_succ, List.cons_append, List.dropWhile_cons_of_pos rfl, ih]

/-- A digit is neither a blank nor a sign. -/
theorem isDigit_cases {c : Char} (h : c.isDigit = true) : isspace c = false ∧ c ≠ '-' ∧ c ≠ '+' := by
  refine ⟨?_, ?_, ?_⟩
  · have hlow : '0' ≤ c := by
      unfold Char.isDigit at h
      simp only [ge_iff_le, Bool.and_eq_true, decide_eq_true_eq] at h
      exact h.1
    unfold isspace
    simp only [Bool.or_eq_false_iff, Bool.and_eq_false_iff, decide_eq_false_iff_not]
    refine ⟨?_, Or.inr fun hc => ?_⟩
    · rintro rfl
      exact absurd hlow (by decide)
    · exact absurd (Char.le_trans hlow hc) (by decide)
  · rintro rfl
    exact absurd h (by decide)
  · rintro rfl
    exact absurd h (by decide)

/-- **A number behind blanks** is read as an `int`, whatever its size. -/
theorem atoi_number (n : ℕ) {digits : List Char} (hne : digits ≠ [])
    (hdigits : ∀ c ∈ digits, c.isDigit = true) (h : decimal digits < 2 ^ 63) :
    atoi (List.replicate n ' ' ++ digits) = i32 (decimal digits) := by
  cases digits with
  | nil => exact absurd rfl hne
  | cons d ds =>
      obtain ⟨hspace, hminus, hplus⟩ := isDigit_cases (hdigits d List.mem_cons_self)
      have hall : (d :: ds).takeWhile Char.isDigit = d :: ds :=
        List.takeWhile_eq_self_iff.mpr hdigits
      have hdrop : (List.replicate n ' ' ++ d :: ds).dropWhile isspace = d :: ds :=
        dropWhile_blanks n (by simpa using hspace)
      unfold atoi strtol
      rw [hdrop]
      split
      · rename_i heq
        exact absurd (List.cons.inj heq).1 hminus
      · rename_i heq
        exact absurd (List.cons.inj heq).1 hplus
      · rw [hall, min_eq_left (by omega), ← i32_eq_toInt32]

end CString

/-
**Striping**: a range of addresses cut into pieces of one length, dealt out to a number of
columns in turn. An address has a column, and a depth in it; the two name the address again.

The column and the row of a piece are the remainder and the quotient of its number, so a place
names one address (`eq_of_place`), and addresses that follow each other within a piece follow
each other in the column (`depth_add`). Nothing is said of devices: what a column lies on is
left to the user.

A range that is not whole rows ends inside one, and then the first columns are longer than the
last ones; `depth_lt` is stated for whole rows, and the others need no more than a column's
depth being that of the address.
-/
import Mathlib.Data.Nat.Basic
import Mathlib.Tactic.Ring

set_option autoImplicit false

namespace Striping

variable (len columns : ℕ)

/-- The column an address falls into. -/
def column (x : ℕ) : ℕ := x / len % columns

/-- The pieces of the column above it. -/
def row (x : ℕ) : ℕ := x / len / columns

/-- How deep the address lies in its column. -/
def depth (x : ℕ) : ℕ := row len columns x * len + x % len

variable {len columns}

theorem column_lt (h : 0 < columns) (x : ℕ) : column len columns x < columns := Nat.mod_lt _ h

/-- The pieces before an address, from its row and its column. -/
theorem piece_eq (x : ℕ) : row len columns x * columns + column len columns x = x / len :=
  Nat.div_add_mod' _ _

theorem depth_mod (x : ℕ) : depth len columns x % len = x % len := by
  rw [depth, Nat.mul_add_mod_self_right, Nat.mod_mod]

theorem depth_div (h : 0 < len) (x : ℕ) : depth len columns x / len = row len columns x := by
  rw [depth, Nat.add_comm, Nat.add_mul_div_right _ _ h, Nat.div_eq_of_lt (Nat.mod_lt _ h),
    Nat.zero_add]

/-- **Column and depth name the address.** -/
theorem eq_of_place (h : 0 < len) {x y : ℕ} (hcolumn : column len columns x = column len columns y)
    (hdepth : depth len columns x = depth len columns y) : x = y := by
  have hmod : x % len = y % len := by rw [← depth_mod, hdepth, depth_mod]
  have hrow : row len columns x = row len columns y := by rw [← depth_div h, hdepth, depth_div h]
  have hdiv : x / len = y / len := by rw [← piece_eq x, ← piece_eq y, hrow, hcolumn]
  rw [← Nat.div_add_mod x len, ← Nat.div_add_mod y len, hdiv, hmod]

/-- In whole rows, no address lies deeper than its share of the range. -/
theorem depth_lt (h : 0 < len) {x rows : ℕ} (hx : x < rows * (columns * len)) :
    depth len columns x < rows * len := by
  have hrow : row len columns x < rows := by
    rw [row, Nat.div_div_eq_div_mul]
    refine Nat.div_lt_of_lt_mul ?_
    calc x < rows * (columns * len) := hx
      _ = len * columns * rows := by ring
  calc depth len columns x < row len columns x * len + len := by
        have := Nat.mod_lt x h
        unfold depth
        omega
    _ = (row len columns x + 1) * len := by ring
    _ ≤ rows * len := Nat.mul_le_mul_right _ hrow

/-- Inside one piece, addresses follow one another. -/
theorem add_same_piece {x d : ℕ} (hd : x % len + d < len) :
    (x + d) / len = x / len ∧ (x + d) % len = x % len + d := by
  have hpos : 0 < len := by omega
  have hx := Nat.div_add_mod' x len
  have hsum : x + d = x % len + d + x / len * len := by omega
  constructor
  · rw [hsum, Nat.add_mul_div_right _ _ hpos, Nat.div_eq_of_lt hd, Nat.zero_add]
  · rw [hsum, Nat.add_mul_mod_self_right, Nat.mod_eq_of_lt hd]

theorem depth_add {x d : ℕ} (hd : x % len + d < len) :
    column len columns (x + d) = column len columns x ∧
      depth len columns (x + d) = depth len columns x + d := by
  obtain ⟨hdiv, hmod⟩ := add_same_piece hd
  constructor
  · rw [column, column, hdiv]
  · rw [depth, depth, row, row, hdiv, hmod, Nat.add_assoc]

/-- One column is the range itself. -/
theorem depth_one (x : ℕ) : depth len 1 x = x := by
  rw [depth, row, Nat.div_one]
  exact Nat.div_add_mod' x len

end Striping

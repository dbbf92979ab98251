/-
**Packed records**: a C structure without padding, as the concatenation of its
fields' bytes.

A `Layout` says how a record type is cut into fields of fixed width and carries the
proofs that cutting and assembling undo each other, so packing and unpacking a whole
record are inverse to each other by `unpack_pack` and `pack_unpack` without looking
at the record again. Layouts nest: a packed record is a field of a larger one.

A field is a fixed number of bytes (`Bytes`) or a word of a width that is a whole number of
bytes. The proof obligations of a layout are two lists of equations about its fields, one for
each direction, and are discharged once, where the layout is defined.

Packing follows the order of the fields and has no padding, as a `packed` struct has none. A list
that is too short is unpacked as well, and nothing is said of what comes of it.
-/
import SysbakAdmin.Lib.LittleEndian

set_option autoImplicit false

namespace PackedRecord

open LittleEndian

/-! ## Fields -/

/-- A character array of fixed size. -/
abbrev Bytes (n : ℕ) := { l : List Byte // l.length = n }

/-- The first `n` bytes of `l`, zeros after its end. -/
def Bytes.ofList (n : ℕ) (l : List Byte) : Bytes n :=
  ⟨(l ++ List.replicate n 0).take n, by simp⟩

theorem Bytes.ofList_val {n : ℕ} {l : List Byte} (h : l.length = n) :
    (Bytes.ofList n l).1 = l := by
  change (l ++ List.replicate n 0).take n = l
  rw [List.take_append_of_le_length (by omega), List.take_of_length_le (by omega)]

@[simp] theorem Bytes.ofList_coe {n : ℕ} (x : Bytes n) : Bytes.ofList n x.1 = x :=
  Subtype.ext (Bytes.ofList_val x.2)

/-- An unsigned integer field. -/
def enc {w : ℕ} (v : BitVec w) : List Byte := leBytes (w / 8) v.toNat

/-- And back. -/
def dec (w : ℕ) (l : List Byte) : BitVec w := BitVec.ofNat w (ofLe l)

@[simp] theorem enc_length {w : ℕ} (v : BitVec w) : (enc v).length = w / 8 := leBytes_length _ _

theorem two_pow_eq {w : ℕ} (hw : 8 * (w / 8) = w) : 2 ^ w = 256 ^ (w / 8) := by
  conv_lhs => rw [← hw, pow_mul]
  norm_num

theorem dec_enc {w : ℕ} (hw : 8 * (w / 8) = w) (v : BitVec w) : dec w (enc v) = v := by
  rw [dec, enc, ofLe_leBytes_of_lt (by rw [← two_pow_eq hw]; exact v.isLt), BitVec.ofNat_toNat,
    BitVec.setWidth_eq]

theorem enc_dec {w : ℕ} (hw : 8 * (w / 8) = w) {l : List Byte} (hl : l.length = w / 8) :
    enc (dec w l) = l := by
  have hlt : ofLe l < 2 ^ w := by rw [two_pow_eq hw, ← hl]; exact ofLe_lt l
  rw [enc, dec, BitVec.toNat_ofNat, Nat.mod_eq_of_lt hlt, ← hl, leBytes_ofLe]

/-! ## Cutting -/

/-- Cut a string into pieces of the given widths. -/
def cut : List ℕ → List Byte → List (List Byte)
  | [], _ => []
  | n :: ns, l => l.take n :: cut ns (l.drop n)

/-- Cutting a concatenation gives the pieces back. -/
theorem cut_flatten {ns : List ℕ} {xs : List (List Byte)} (h : xs.map List.length = ns) :
    cut ns xs.flatten = xs := by
  induction xs generalizing ns with
  | nil => subst h; rfl
  | cons x xs ih =>
      subst h
      rw [List.map_cons, List.flatten_cons, cut, List.drop_left, ih rfl, List.take_left]

/-- Nothing is lost by cutting a string of the right length. -/
theorem flatten_cut {ns : List ℕ} {l : List Byte} (h : l.length = ns.sum) :
    (cut ns l).flatten = l := by
  induction ns generalizing l with
  | nil => exact (List.length_eq_zero_iff.mp h).symm
  | cons n ns ih =>
      rw [List.sum_cons] at h
      rw [cut, List.flatten_cons, ih (by rw [List.length_drop]; omega), List.take_append_drop]

theorem cut_widths {ns : List ℕ} {l : List Byte} (h : l.length = ns.sum) :
    (cut ns l).map List.length = ns := by
  induction ns generalizing l with
  | nil => rfl
  | cons n ns ih =>
      rw [List.sum_cons] at h
      rw [cut, List.map_cons, ih (by rw [List.length_drop]; omega), List.length_take,
        Nat.min_eq_left (by omega)]

/-! ## Records -/

/-- How a record is laid out, field by field. -/
structure Layout (α : Type) where
  widths : List ℕ
  fields : α → List (List Byte)
  build : List (List Byte) → α
  fields_widths : ∀ a, (fields a).map List.length = widths
  build_fields : ∀ a, build (fields a) = a
  fields_build : ∀ xs, xs.map List.length = widths → fields (build xs) = xs

variable {α : Type} (L : Layout α)

/-- The size of the record. -/
def Layout.size : ℕ := L.widths.sum

/-- The bytes of a record. -/
def Layout.pack (a : α) : List Byte := (L.fields a).flatten

/-- The record in a string of bytes. -/
def Layout.unpack (l : List Byte) : α := L.build (cut L.widths l)

@[simp] theorem Layout.pack_length (a : α) : (L.pack a).length = L.size := by
  rw [Layout.pack, List.length_flatten, L.fields_widths, Layout.size]

@[simp] theorem Layout.unpack_pack (a : α) : L.unpack (L.pack a) = a := by
  rw [Layout.unpack, Layout.pack, cut_flatten (L.fields_widths a), L.build_fields]

theorem Layout.pack_unpack {l : List Byte} (h : l.length = L.size) : L.pack (L.unpack l) = l := by
  rw [Layout.pack, Layout.unpack, L.fields_build _ (cut_widths h), flatten_cut h]

end PackedRecord

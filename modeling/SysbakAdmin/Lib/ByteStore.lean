/-
**Random-access stores**: a list of cells read and written at an offset, and the
same store seen as equal-sized blocks.

`overlay` is what a write at an offset does: the cells it covers change, a write
past the end fills the gap, nothing else moves. `overlay_getD` says this cell by
cell and every other fact here follows from it. On top of it, `gather` collects
the blocks named by an index list and `scatter` lays blocks down at an index list;
`gather_scatter` and `scatter_getD_of_outside` are the two halves of "copying the
named blocks copies exactly the named blocks", and `overlay_flatten` says that one
long write over consecutive blocks is the scatter of its pieces.

A write can come short, and then a store is left that is neither the old one nor the
scatter. `laid` is what can be said of it, cell by cell: the old cell, or the one of the
block that belongs there. It composes along a sequence of writes (`laid.append`), so a
loop that fails somewhere needs no account of where.
-/
import Mathlib.Data.List.GetD
import Mathlib.Data.List.Nodup
import Mathlib.Tactic.Ring

set_option autoImplicit false

namespace ByteStore

variable {α : Type}

/-! ## Cells -/

/-- The `n` cells from offset `off`, fewer when the store ends first. -/
def slice (d : List α) (off n : ℕ) : List α := (d.drop off).take n

/-- The store `d` with `x` written at `off`; `z` fills a gap before `off`. -/
def overlay (z : α) (d : List α) (off : ℕ) (x : List α) : List α :=
  d.take off ++ List.replicate (off - d.length) z ++ x ++ d.drop (off + x.length)

theorem slice_length (d : List α) (off n : ℕ) :
    (slice d off n).length = min n (d.length - off) := by
  simp [slice]

theorem slice_length_of_le {d : List α} {off n : ℕ} (h : off + n ≤ d.length) :
    (slice d off n).length = n := by
  rw [slice_length]; omega

/-- Behind the end of the store there is nothing, wherever one starts. -/
theorem slice_min (d : List α) (off n : ℕ) : slice d (min off d.length) n = slice d off n := by
  rcases Nat.le_total off d.length with h | h
  · rw [Nat.min_eq_left h]
  · rw [Nat.min_eq_right h, slice, slice, List.drop_length, List.drop_of_length_le h]

theorem slice_getD {d : List α} {off n i : ℕ} (z : α) (h : i < n) :
    (slice d off n).getD i z = d.getD (off + i) z := by
  simp only [slice, List.getD_eq_getElem?_getD, List.getElem?_take, h, if_true,
    List.getElem?_drop]

/-- Two adjacent slices. -/
theorem slice_append (d : List α) (off m n : ℕ) :
    slice d off m ++ slice d (off + m) n = slice d off (m + n) := by
  simp only [slice, ← List.drop_drop, List.take_add]

theorem slice_slice {d : List α} {p m a n : ℕ} (h : a + n ≤ m) :
    slice (slice d p m) a n = slice d (p + a) n := by
  simp only [slice, List.drop_take, List.take_take, List.drop_drop]
  congr 1
  omega

/-- A slice that lies in the first part of a concatenation. -/
theorem slice_append_left {d e : List α} {off n : ℕ} (h : off + n ≤ d.length) :
    slice (d ++ e) off n = slice d off n := by
  simp only [slice]
  rw [List.drop_append_of_le_length (by omega), List.take_append_of_le_length (by simp; omega)]

theorem overlay_length (z : α) (d : List α) (off : ℕ) (x : List α) :
    (overlay z d off x).length = max d.length (off + x.length) := by
  simp only [overlay, List.length_append, List.length_take, List.length_replicate,
    List.length_drop]
  omega

/-- **What a write does, cell by cell**: the cells under it are the written ones,
and every other cell reads as before. -/
theorem overlay_getD (z : α) (d : List α) (off : ℕ) (x : List α) (i : ℕ) :
    (overlay z d off x).getD i z
      = if off ≤ i ∧ i < off + x.length then x.getD (i - off) z else d.getD i z := by
  have hfront : (d.take off ++ List.replicate (off - d.length) z).length = off := by
    simp only [List.length_append, List.length_take, List.length_replicate]; omega
  unfold overlay
  rcases Nat.lt_or_ge i off with hlow | hlow
  · rw [if_neg (by omega)]
    rw [List.append_assoc, List.getD_append _ _ _ _ (by omega)]
    rcases Nat.lt_or_ge i d.length with hd | hd
    · rw [List.getD_append _ _ _ _ (by rw [List.length_take]; omega)]
      simp only [List.getD_eq_getElem?_getD, List.getElem?_take, hlow, if_true]
    · rw [List.getD_append_right _ _ _ _ (by rw [List.length_take]; omega),
        List.getD_eq_getElem?_getD, List.getElem?_getD_replicate_default_eq,
        List.getD_eq_default _ _ hd]
  · rcases Nat.lt_or_ge i (off + x.length) with hin | hin
    · rw [if_pos ⟨hlow, hin⟩, List.getD_append _ _ _ _ (by rw [List.length_append]; omega),
        List.getD_append_right _ _ _ _ (by omega), hfront]
    · rw [if_neg (by omega), List.getD_append_right _ _ _ _ (by rw [List.length_append]; omega),
        List.length_append, hfront]
      simp only [List.getD_eq_getElem?_getD, List.getElem?_drop]
      congr 2
      omega

/-- A store is determined by its length and what its cells read as. -/
theorem ext_getD (z : α) {d e : List α} (hlen : d.length = e.length)
    (h : ∀ i, d.getD i z = e.getD i z) : d = e := by
  apply List.ext_getElem hlen
  intro i hd he
  have hi := h i
  rwa [List.getD_eq_getElem _ _ hd, List.getD_eq_getElem _ _ he] at hi

/-- Writing at the end of a store appends. -/
theorem overlay_at_end (z : α) (d x : List α) : overlay z d d.length x = d ++ x := by
  simp [overlay]

/-- Writing two adjacent pieces is writing their concatenation. -/
theorem overlay_overlay (z : α) (d : List α) (off : ℕ) (x y : List α) :
    overlay z (overlay z d off x) (off + x.length) y = overlay z d off (x ++ y) := by
  apply ext_getD z
  · simp only [overlay_length, List.length_append]; omega
  · intro i
    simp only [overlay_getD, List.length_append]
    split_ifs with h1 h2 h3 h4 h5
    · rw [List.getD_append_right _ _ _ _ (by omega)]
      congr 1
      omega
    · omega
    · rw [List.getD_append _ _ _ _ (by omega)]
    · omega
    · omega
    · rfl

/-- Reading back what was just written. -/
theorem slice_overlay_self (z : α) (d : List α) (off : ℕ) (x : List α) :
    slice (overlay z d off x) off x.length = x := by
  apply ext_getD z
  · rw [slice_length, overlay_length]; omega
  · intro i
    rcases Nat.lt_or_ge i x.length with hi | hi
    · rw [slice_getD z hi, overlay_getD, if_pos (by omega), Nat.add_sub_cancel_left]
    · rw [List.getD_eq_default _ _ hi,
        List.getD_eq_default _ _ (by rw [slice_length]; omega)]

/-- What is written at the front is at the front. -/
theorem take_overlay_zero (z : α) (d x : List α) : (overlay z d 0 x).take x.length = x := by
  have h := slice_overlay_self z d 0 x
  rwa [slice, List.drop_zero] at h

/-- Writing over a whole store. -/
theorem overlay_whole (z : α) {d x : List α} (h : x.length = d.length) :
    overlay z d 0 x = x := by
  simp [overlay, h]

/-- A store filled from the front: what was there up to `off`, and the written cells. -/
theorem take_overlay (z : α) {d x : List α} {p : ℕ} (h : p ≤ d.length) :
    (overlay z d p x).take (p + x.length) = d.take p ++ x := by
  rw [overlay, Nat.sub_eq_zero_of_le h, List.replicate_zero, List.append_nil,
    List.take_left' (by rw [List.length_append, List.length_take, Nat.min_eq_left h])]

/-! ## Blocks

A block is a range of cells at a multiple of its size. Writes of several blocks are compared
with one long write, cell by cell. -/

/-- Block `b` of a store of `n`-cell blocks. -/
def block (n : ℕ) (d : List α) (b : ℕ) : List α := slice d (b * n) n

/-- The blocks named by `idx`, in that order. -/
def gather (n : ℕ) (d : List α) (idx : List ℕ) : List (List α) := idx.map (block n d)

/-- The store with the blocks `bs` laid down at the places `idx`. -/
def scatter (z : α) (n : ℕ) (d : List α) : List ℕ → List (List α) → List α
  | b :: idx, x :: bs => scatter z n (overlay z d (b * n) x) idx bs
  | _, _ => d

@[simp] theorem scatter_nil (z : α) (n : ℕ) (d : List α) (bs : List (List α)) :
    scatter z n d [] bs = d := by
  cases bs <;> rfl

@[simp] theorem scatter_cons (z : α) (n : ℕ) (d : List α) (b : ℕ) (idx : List ℕ)
    (x : List α) (bs : List (List α)) :
    scatter z n d (b :: idx) (x :: bs) = scatter z n (overlay z d (b * n) x) idx bs := rfl

theorem gather_length (n : ℕ) (d : List α) (idx : List ℕ) :
    (gather n d idx).length = idx.length := List.length_map _

theorem gather_append (n : ℕ) (d : List α) (idx jdx : List ℕ) :
    gather n d (idx ++ jdx) = gather n d idx ++ gather n d jdx := List.map_append

/-- Blocks that lie inside the store have the full length. -/
theorem length_of_mem_gather {n : ℕ} {d : List α} {idx : List ℕ}
    (hin : ∀ b ∈ idx, (b + 1) * n ≤ d.length) {x : List α} (hx : x ∈ gather n d idx) :
    x.length = n := by
  obtain ⟨b, hb, rfl⟩ := List.mem_map.mp hx
  have h := hin b hb
  exact slice_length_of_le (by rw [Nat.succ_mul] at h; exact h)

theorem length_le_of_mem_gather {n : ℕ} {d : List α} {idx : List ℕ} {x : List α}
    (hx : x ∈ gather n d idx) : x.length ≤ n := by
  obtain ⟨b, -, rfl⟩ := List.mem_map.mp hx
  rw [block, slice_length]
  omega

/-- Laying down two lists of blocks, one after the other. -/
theorem scatter_append (z : α) (n : ℕ) (d : List α) {idx : List ℕ} {bs : List (List α)}
    (h : idx.length = bs.length) (jdx : List ℕ) (cs : List (List α)) :
    scatter z n d (idx ++ jdx) (bs ++ cs) = scatter z n (scatter z n d idx bs) jdx cs := by
  induction idx generalizing d bs with
  | nil =>
      obtain rfl := List.length_eq_zero_iff.mp h.symm
      simp
  | cons b idx ih =>
      cases bs with
      | nil => simp at h
      | cons x bs => exact ih (overlay z d (b * n) x) (by simpa using h)

/-- Cells outside the named blocks read as before. It is the frame rule of a sequence of writes.
-/
theorem scatter_getD_of_outside (z : α) (n : ℕ) (d : List α) {idx : List ℕ}
    {bs : List (List α)} (hbs : ∀ x ∈ bs, x.length ≤ n) {i : ℕ}
    (h : ∀ b ∈ idx, ¬ (b * n ≤ i ∧ i < (b + 1) * n)) :
    (scatter z n d idx bs).getD i z = d.getD i z := by
  induction idx generalizing d bs with
  | nil => simp
  | cons b idx ih =>
      cases bs with
      | nil => rfl
      | cons x bs =>
          have hb := h b (by simp)
          rw [Nat.succ_mul] at hb
          rw [scatter_cons, ih _ (fun y hy => hbs y (by simp [hy]))
              (fun c hc => h c (by simp [hc])), overlay_getD,
            if_neg (by have := hbs x (by simp); omega)]

/-- The store never shrinks. -/
theorem length_le_scatter (z : α) (n : ℕ) (d : List α) (idx : List ℕ) (bs : List (List α)) :
    d.length ≤ (scatter z n d idx bs).length := by
  induction idx generalizing d bs with
  | nil => simp
  | cons b idx ih =>
      cases bs with
      | nil => exact le_rfl
      | cons x bs =>
          refine le_trans ?_ (ih (overlay z d (b * n) x) bs)
          rw [overlay_length]
          exact le_max_left _ _

/-- It keeps its length when the named blocks lie inside it. -/
theorem scatter_length (z : α) (n : ℕ) (d : List α) {idx : List ℕ} {bs : List (List α)}
    (hbs : ∀ x ∈ bs, x.length = n) (hin : ∀ b ∈ idx, (b + 1) * n ≤ d.length) :
    (scatter z n d idx bs).length = d.length := by
  induction idx generalizing d bs with
  | nil => simp
  | cons b idx ih =>
      cases bs with
      | nil => rfl
      | cons x bs =>
          have hb := hin b (by simp)
          rw [Nat.succ_mul] at hb
          have hlen : (overlay z d (b * n) x).length = d.length := by
            rw [overlay_length, hbs x (by simp)]; omega
          rw [scatter_cons, ih _ (fun y hy => hbs y (by simp [hy])), hlen]
          intro c hc
          rw [hlen]
          exact hin c (by simp [hc])

/-- Distinct blocks do not meet. -/
theorem block_disjoint {n b c : ℕ} (h : b ≠ c) : (b + 1) * n ≤ c * n ∨ (c + 1) * n ≤ b * n := by
  rcases Nat.lt_or_gt_of_ne h with hlt | hgt
  · exact Or.inl (Nat.mul_le_mul_right n hlt)
  · exact Or.inr (Nat.mul_le_mul_right n hgt)

/-- `e` lies between `d` and the scatter of `bs` over it: a cell reads as before, or as the block
that belongs there has it. Writes that may come short leave such a store. -/
def laid (z : α) (n : ℕ) (idx : List ℕ) (bs : List (List α)) (d e : List α) : Prop :=
  ∀ i, e.getD i z = d.getD i z ∨
    ∃ p ∈ idx.zip bs, p.1 * n ≤ i ∧ i < (p.1 + 1) * n ∧ e.getD i z = p.2.getD (i - p.1 * n) z

theorem laid.refl (z : α) (n : ℕ) (idx : List ℕ) (bs : List (List α)) (d : List α) :
    laid z n idx bs d d :=
  fun _ => Or.inl rfl

/-- Two lists of blocks, one after the other. -/
theorem laid.append {z : α} {n : ℕ} {idx jdx : List ℕ} {bs cs : List (List α)} {d e f : List α}
    (hlen : idx.length = bs.length) (h : laid z n idx bs d e) (h' : laid z n jdx cs e f) :
    laid z n (idx ++ jdx) (bs ++ cs) d f := by
  intro i
  rw [List.zip_append hlen]
  rcases h' i with hkept | ⟨p, hp, hin⟩
  · rw [hkept]
    rcases h i with hold | ⟨p, hp, hin⟩
    · exact Or.inl hold
    · exact Or.inr ⟨p, List.mem_append_left _ hp, hin⟩
  · exact Or.inr ⟨p, List.mem_append_right _ hp, hin⟩

theorem laid.mono {z : α} {n : ℕ} {idx jdx : List ℕ} {bs cs : List (List α)} {d e : List α}
    (h : laid z n idx bs d e) (hsub : ∀ p ∈ idx.zip bs, p ∈ jdx.zip cs) : laid z n jdx cs d e := by
  intro i
  rcases h i with hold | ⟨p, hp, hin⟩
  · exact Or.inl hold
  · exact Or.inr ⟨p, hsub p hp, hin⟩

/-- A scatter that was carried out. Every cell of a named block is then the block's, by the last
write to it. -/
theorem laid_scatter (z : α) (n : ℕ) (d : List α) {idx : List ℕ} {bs : List (List α)}
    (hbs : ∀ x ∈ bs, x.length ≤ n) : laid z n idx bs d (scatter z n d idx bs) := by
  induction idx generalizing d bs with
  | nil =>
      rw [scatter_nil]
      exact laid.refl z n _ _ d
  | cons b idx ih =>
      cases bs with
      | nil => exact laid.refl z n _ _ d
      | cons x bs =>
          have hfirst : laid z n [b] [x] d (overlay z d (b * n) x) := by
            intro i
            rw [overlay_getD]
            split_ifs with hin
            · have hx := hbs x (by simp)
              refine Or.inr ⟨(b, x), by simp, hin.1, ?_, rfl⟩
              dsimp only
              rw [Nat.succ_mul]
              omega
            · exact Or.inl rfl
          exact hfirst.append rfl (ih _ fun y hy => hbs y (by simp [hy]))

/-- Blocks that were taken from another store, cell by cell. -/
theorem laid.from_gather {z : α} {n : ℕ} {idx : List ℕ} {src d e : List α}
    (h : laid z n idx (gather n src idx) d e) (i : ℕ) :
    e.getD i z = d.getD i z ∨
      (∃ b ∈ idx, b * n ≤ i ∧ i < (b + 1) * n) ∧ e.getD i z = src.getD i z := by
  rcases h i with hold | ⟨p, hp, hlow, hhigh, hval⟩
  · exact Or.inl hold
  · have hzip : idx.zip (gather n src idx) = idx.map fun b => (b, block n src b) := by
      have hmap := @List.zip_map' _ _ _ id (block n src) idx
      rwa [List.map_id] at hmap
    rw [hzip] at hp
    obtain ⟨b, hb, rfl⟩ := List.mem_map.mp hp
    dsimp only at hlow hhigh hval
    rw [block, slice_getD z (by rw [Nat.succ_mul] at hhigh; omega),
      Nat.add_sub_cancel' hlow] at hval
    exact Or.inr ⟨⟨b, hb, hlow, hhigh⟩, hval⟩

/-- A block no index names is unchanged. Blocks of one size meet in no cell unless they are the
same. -/
theorem block_scatter_of_not_mem (z : α) (n : ℕ) (d : List α) {idx : List ℕ}
    {bs : List (List α)} (hbs : ∀ x ∈ bs, x.length = n) {c : ℕ} (hc : c ∉ idx)
    (hd : (c + 1) * n ≤ d.length) :
    block n (scatter z n d idx bs) c = block n d c := by
  have hle := length_le_scatter z n d idx bs
  rw [Nat.succ_mul] at hd
  apply ext_getD z
  · rw [block, block, slice_length_of_le (by omega), slice_length_of_le (by omega)]
  · intro i
    rcases Nat.lt_or_ge i n with hi | hi
    · rw [block, block, slice_getD z hi, slice_getD z hi]
      apply scatter_getD_of_outside z n d (fun x hx => (hbs x hx).le)
      intro b hb hmeet
      have hne : b ≠ c := fun h => hc (h ▸ hb)
      rcases block_disjoint (n := n) hne with h | h
      · omega
      · rw [Nat.succ_mul] at h; omega
    · rw [List.getD_eq_default _ _ (by rw [block, slice_length_of_le] <;> omega),
        List.getD_eq_default _ _ (by rw [block, slice_length_of_le] <;> omega)]

/-- **The named blocks hold what was laid down.** -/
theorem gather_scatter (z : α) (n : ℕ) (d : List α) {idx : List ℕ} {bs : List (List α)}
    (hnd : idx.Nodup) (hlen : idx.length = bs.length) (hbs : ∀ x ∈ bs, x.length = n) :
    gather n (scatter z n d idx bs) idx = bs := by
  induction idx generalizing d bs with
  | nil =>
      obtain rfl := List.length_eq_zero_iff.mp hlen.symm
      rfl
  | cons b idx ih =>
      cases bs with
      | nil => simp at hlen
      | cons x bs =>
          obtain ⟨hb, hnd⟩ := List.nodup_cons.mp hnd
          have hx : x.length = n := hbs x (by simp)
          have hbs' : ∀ y ∈ bs, y.length = n := fun y hy => hbs y (by simp [hy])
          rw [scatter_cons, gather, List.map_cons, ← gather,
            ih _ hnd (by simpa using hlen) hbs',
            block_scatter_of_not_mem z n _ hbs' hb
              (by rw [overlay_length, hx, Nat.succ_mul]; exact le_max_right _ _)]
          rw [block, ← hx, slice_overlay_self]

/-- **One long write over consecutive blocks is the scatter of its pieces.** -/
theorem overlay_flatten (z : α) (n : ℕ) (d : List α) (b : ℕ) {bs : List (List α)}
    (hne : bs ≠ []) (hbs : ∀ x ∈ bs, x.length = n) :
    overlay z d (b * n) bs.flatten = scatter z n d (List.range' b bs.length) bs := by
  induction bs generalizing d b with
  | nil => exact absurd rfl hne
  | cons x bs ih =>
      have hx : x.length = n := hbs x (by simp)
      rw [List.flatten_cons, ← overlay_overlay, List.length_cons, List.range'_succ, scatter_cons]
      rcases List.eq_nil_or_concat bs with rfl | _
      · -- nothing is left to write, and the write so far reaches its own end
        apply ext_getD z
        · simp only [overlay_length, List.flatten_nil, List.length_nil, scatter_nil, List.length_nil,
            List.range'_zero]
          omega
        · intro i
          simp only [List.flatten_nil, List.length_nil, List.range'_zero, scatter_nil]
          rw [overlay_getD, if_neg (by simp)]
      · have hne' : bs ≠ [] := by rintro rfl; simp_all
        rw [← ih (overlay z d (b * n) x) (b + 1) hne' (fun y hy => hbs y (by simp [hy])), hx]
        congr 1
        ring

/-- A long write that came short. The blocks it covered whole are written, one is cut, and the
others are as before; cell by cell this is one statement. -/
theorem laid_short (z : α) (n : ℕ) (d : List α) (b m : ℕ) {bs : List (List α)}
    (hne : bs ≠ []) (hbs : ∀ x ∈ bs, x.length = n) :
    laid z n (List.range' b bs.length) bs d (overlay z d (b * n) (bs.flatten.take m)) := by
  intro i
  have hwhole : laid z n (List.range' b bs.length) bs d
      (scatter z n d (List.range' b bs.length) bs) :=
    laid_scatter z n d fun x hx => (hbs x hx).le
  rw [← overlay_flatten z n d b hne hbs] at hwhole
  by_cases hin : b * n ≤ i ∧ i < b * n + (bs.flatten.take m).length
  · -- below the cut it is the whole write
    have hlen : (bs.flatten.take m).length ≤ bs.flatten.length := List.length_take_le' _ _
    have hcut : (overlay z d (b * n) (bs.flatten.take m)).getD i z
        = (overlay z d (b * n) bs.flatten).getD i z := by
      rw [List.length_take] at hin
      rw [overlay_getD, overlay_getD, if_pos (by rw [List.length_take]; exact hin),
        if_pos (by omega)]
      simp only [List.getD_eq_getElem?_getD, List.getElem?_take]
      rw [if_pos (by omega)]
    rw [hcut]
    exact hwhole i
  · rw [overlay_getD, if_neg hin]
    exact Or.inl rfl

/-- Cutting a concatenation of equal blocks between two of them. -/
theorem drop_flatten_of_length {n : ℕ} {bs : List (List α)} (hbs : ∀ x ∈ bs, x.length = n)
    (j : ℕ) : bs.flatten.drop (j * n) = (bs.drop j).flatten := by
  induction bs generalizing j with
  | nil => simp
  | cons x bs ih =>
      cases j with
      | zero => simp
      | succ j =>
          rw [List.flatten_cons, List.drop_succ_cons, ← ih (fun y hy => hbs y (by simp [hy])),
            Nat.succ_mul, Nat.add_comm, ← List.drop_drop, List.drop_left' (hbs x (by simp))]

theorem take_flatten_of_length {n : ℕ} {bs : List (List α)} (hbs : ∀ x ∈ bs, x.length = n)
    (j : ℕ) : bs.flatten.take (j * n) = (bs.take j).flatten := by
  induction bs generalizing j with
  | nil => simp
  | cons x bs ih =>
      cases j with
      | zero => simp
      | succ j =>
          have hx : x.length = n := hbs x (by simp)
          rw [List.flatten_cons, List.take_succ_cons, List.flatten_cons,
            ← ih (fun y hy => hbs y (by simp [hy])), Nat.succ_mul, Nat.add_comm, ← hx,
            List.take_length_add_append]

theorem flatten_length_of_length {n : ℕ} {bs : List (List α)} (hbs : ∀ x ∈ bs, x.length = n) :
    bs.flatten.length = bs.length * n := by
  induction bs with
  | nil => simp
  | cons x bs ih =>
      rw [List.flatten_cons, List.length_append, ih (fun y hy => hbs y (by simp [hy])),
        hbs x (by simp), List.length_cons]
      ring

/-- The blocks of a slice of consecutive blocks. -/
theorem flatten_gather_range (n : ℕ) (d : List α) (b k : ℕ) :
    (gather n d (List.range' b k)).flatten = slice d (b * n) (k * n) := by
  induction k generalizing b with
  | zero => simp [gather, slice]
  | succ k ih =>
      rw [List.range'_succ, gather, List.map_cons, ← gather, List.flatten_cons, ih, block,
        show (b + 1) * n = b * n + n by ring, slice_append]
      congr 1
      ring

/-- The blocks of a slice that came in full are in the store. -/
theorem block_le_of_slice {d : List α} {b n k x : ℕ} (hk : 0 < k)
    (hlen : (slice d (b * k) (n * k)).length = n * k) (hx : x ∈ List.range' b n) :
    (x + 1) * k ≤ d.length := by
  obtain ⟨hfrom, hto⟩ := List.mem_range'_1.mp hx
  have hle : (x + 1) * k ≤ (b + n) * k := Nat.mul_le_mul_right _ (by omega)
  have hpos : 0 < n * k := Nat.mul_pos (by omega) hk
  rw [slice_length] at hlen
  rw [Nat.add_mul b n] at hle
  omega

/-- So they are whole blocks. -/
theorem length_of_mem_gather_range {n b k : ℕ} {d : List α}
    (h : (slice d (b * n) (k * n)).length = k * n) {x : List α}
    (hx : x ∈ gather n d (List.range' b k)) : x.length = n := by
  rcases Nat.eq_zero_or_pos n with rfl | hn
  · exact Nat.le_zero.mp (length_le_of_mem_gather hx)
  · exact length_of_mem_gather (fun c hc => block_le_of_slice hn h hc) hx

end ByteStore

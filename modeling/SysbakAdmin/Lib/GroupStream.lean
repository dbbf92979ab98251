/-
**Checksummed group streams**: blocks written one after another, with a digest
after every `g`-th of them and one more after a trailing partial group.

A writer of such a stream carries a cursor -- how many blocks the open group has
and the running sum over them -- and the cursor is all that couples one block to
the next. So a writer that works through the blocks in any division into runs
produces the same stream (`emit_append`), and a reader that works through the
stream in any division into chunks needs only the cursor to go on.

`scan` is the reader. It takes a stream apart exactly where `emit` put it together:
`scan_emit` is the round trip, and `emit_of_scan` the converse, which is what makes
a statement about altered streams possible -- whatever a reader accepts is the
emission of the blocks it returns.
-/
import Mathlib.Data.List.Basic
import Mathlib.Tactic.Ring

set_option autoImplicit false

namespace GroupStream

/-- A running digest: start over, take in one block, and the value to store. -/
structure Summer (α σ : Type) where
  reset : σ → σ
  absorb : σ → List α → σ
  digest : σ → List α

/-- Where a writer or a reader stands inside the open group. -/
@[ext]
structure Cursor (σ : Type) where
  filled : ℕ
  sum : σ

variable {α σ : Type} (S : Summer α σ) (g : ℕ)

/-! ## Writing -/

/-- One block: it joins the open group, and a group that is full is closed by its
digest. -/
def put (c : Cursor σ) (b : List α) : List α × Cursor σ :=
  if c.filled + 1 = g then
    (b ++ S.digest (S.absorb c.sum b), ⟨0, S.reset (S.absorb c.sum b)⟩)
  else (b, ⟨c.filled + 1, S.absorb c.sum b⟩)

/-- The cells written for a list of blocks, and the cursor afterwards. -/
def emit : Cursor σ → List (List α) → List α × Cursor σ
  | c, [] => ([], c)
  | c, b :: bs => ((put S g c b).1 ++ (emit (put S g c b).2 bs).1, (emit (put S g c b).2 bs).2)

/-- What closes the stream: the digest of a group left open. -/
def trailer (c : Cursor σ) : List α := if c.filled = 0 then [] else S.digest c.sum

/-- The whole stream of a list of blocks. -/
def stream (c : Cursor σ) (bs : List (List α)) : List α :=
  (emit S g c bs).1 ++ trailer S (emit S g c bs).2

@[simp] theorem emit_nil (c : Cursor σ) : emit S g c [] = ([], c) := rfl

/-- **Division into runs does not show.** -/
theorem emit_append (c : Cursor σ) (bs cs : List (List α)) :
    emit S g c (bs ++ cs)
      = ((emit S g c bs).1 ++ (emit S g (emit S g c bs).2 cs).1,
          (emit S g (emit S g c bs).2 cs).2) := by
  induction bs generalizing c with
  | nil => simp
  | cons b bs ih => simp only [List.cons_append, emit, ih, List.append_assoc]

theorem put_filled {c : Cursor σ} (hc : c.filled < g) (b : List α) :
    (put S g c b).2.filled = (c.filled + 1) % g := by
  unfold put
  split_ifs with h
  · rw [h, Nat.mod_self]
  · rw [Nat.mod_eq_of_lt (by omega)]

/-- The open group's count is the number of blocks so far, modulo the group size. -/
theorem emit_filled (hg : 0 < g) {c : Cursor σ} (hc : c.filled < g) (bs : List (List α)) :
    (emit S g c bs).2.filled = (c.filled + bs.length) % g := by
  induction bs generalizing c with
  | nil => simp [Nat.mod_eq_of_lt hc]
  | cons b bs ih =>
      have hput : (put S g c b).2.filled < g := by
        rw [put_filled S g hc b]; exact Nat.mod_lt _ hg
      simp only [emit, List.length_cons]
      rw [ih hput, put_filled S g hc b, Nat.mod_add_mod]
      congr 1
      ring

/-- One more block closes a group exactly when the quotient by the group size moves. -/
theorem succ_add_div {g f n : ℕ} (hg : 0 < g) (hf : f < g) :
    (f + (n + 1)) / g = (if f + 1 = g then 1 else 0) + ((f + 1) % g + n) / g := by
  split_ifs with h
  · rw [show f + (n + 1) = n + g by omega, Nat.add_div_right _ hg, h, Nat.mod_self, Nat.zero_add]
    omega
  · rw [Nat.mod_eq_of_lt (by omega), Nat.zero_add]
    congr 1
    omega

/-- **The length of an emission**: the blocks, and one digest per group closed. -/
theorem emit_length (hg : 0 < g) {n m : ℕ} (hdig : ∀ s, (S.digest s).length = m)
    {c : Cursor σ} (hc : c.filled < g) {bs : List (List α)} (hbs : ∀ b ∈ bs, b.length = n) :
    (emit S g c bs).1.length = bs.length * n + (c.filled + bs.length) / g * m := by
  induction bs generalizing c with
  | nil => simp [Nat.div_eq_of_lt hc]
  | cons b bs ih =>
      have hput : (put S g c b).2.filled < g := by
        rw [put_filled S g hc b]; exact Nat.mod_lt _ hg
      have hlen : (put S g c b).1.length = n + (if c.filled + 1 = g then 1 else 0) * m := by
        unfold put
        split_ifs with h <;> simp [hdig, hbs b (by simp)]
      simp only [emit, List.length_append, List.length_cons]
      rw [ih hput (fun x hx => hbs x (by simp [hx])), hlen, put_filled S g hc b,
        succ_add_div hg hc]
      ring

/-- Blocks that do not fill the open group are written bare. -/
theorem emit_of_lt {c : Cursor σ} {bs : List (List α)} (h : c.filled + bs.length < g) :
    emit S g c bs = (bs.flatten, ⟨c.filled + bs.length, bs.foldl S.absorb c.sum⟩) := by
  induction bs generalizing c with
  | nil => rfl
  | cons b bs ih =>
      rw [List.length_cons] at h
      have hput : put S g c b = (b, ⟨c.filled + 1, S.absorb c.sum b⟩) := by
        rw [put, if_neg (by omega)]
      rw [emit, hput, ih (by dsimp only; omega)]
      simp only [List.flatten_cons, List.length_cons, List.foldl_cons, Prod.mk.injEq,
        Cursor.mk.injEq, and_true, true_and]
      omega

/-- Blocks that exactly fill the open group are followed by its digest. -/
theorem emit_of_eq {c : Cursor σ} {bs : List (List α)} (hne : bs ≠ [])
    (h : c.filled + bs.length = g) :
    emit S g c bs = (bs.flatten ++ S.digest (bs.foldl S.absorb c.sum),
      ⟨0, S.reset (bs.foldl S.absorb c.sum)⟩) := by
  obtain ⟨cs, b, rfl⟩ := List.eq_nil_or_concat bs |>.resolve_left hne
  rw [List.concat_eq_append] at h ⊢
  rw [List.length_append, List.length_singleton] at h
  rw [emit_append, emit_of_lt S g (by omega)]
  simp only [emit, put, h, Nat.add_assoc, if_true, List.append_nil, List.flatten_append,
    List.flatten_cons, List.flatten_nil, List.foldl_append, List.foldl_cons, List.foldl_nil,
    List.append_assoc]

/-- A cursor between two groups has just started over. -/
def Cursor.fresh (c : Cursor σ) : Prop := c.filled = 0 → ∃ s, c.sum = S.reset s

/-- Between two groups the running sum is a reset one. -/
theorem emit_fresh {c : Cursor σ} (hc : c.fresh S) (bs : List (List α)) :
    (emit S g c bs).2.fresh S := by
  induction bs generalizing c with
  | nil => exact hc
  | cons b bs ih =>
      refine ih (c := (put S g c b).2) fun hfilled => ?_
      unfold put at hfilled ⊢
      split_ifs at hfilled ⊢ with h
      exact ⟨_, rfl⟩

/-! ## Reading

The reader takes as many blocks as it is told, and fails at the first checksum that does not
match or where the bytes end. -/

section Scan

variable [DecidableEq α] (n m : ℕ)

/-- Read `k` blocks of `n` cells with digests of `m` cells: the blocks, the cursor and
the number of cells used, or `none` at the first digest that does not match. -/
def scan : ℕ → Cursor σ → List α → Option (List (List α) × Cursor σ × ℕ)
  | 0, c, _ => some ([], c, 0)
  | k + 1, c, buf =>
      let b := buf.take n
      let s := S.absorb c.sum b
      if c.filled + 1 = g then
        if (buf.drop n).take m = S.digest s then
          (scan k ⟨0, S.reset s⟩ (buf.drop (n + m))).map
            fun r => (b :: r.1, r.2.1, n + m + r.2.2)
        else none
      else
        (scan k ⟨c.filled + 1, s⟩ (buf.drop n)).map fun r => (b :: r.1, r.2.1, n + r.2.2)

variable {n m}

/-- **The round trip**: a reader takes an emission apart into its blocks. -/
theorem scan_emit (hdig : ∀ s, (S.digest s).length = m) (c : Cursor σ) {bs : List (List α)}
    (hbs : ∀ b ∈ bs, b.length = n) (rest : List α) :
    scan S g n m bs.length c ((emit S g c bs).1 ++ rest)
      = some (bs, (emit S g c bs).2, (emit S g c bs).1.length) := by
  induction bs generalizing c with
  | nil => rfl
  | cons b bs ih =>
      have hb : b.length = n := hbs b (by simp)
      have hbs' : ∀ x ∈ bs, x.length = n := fun x hx => hbs x (by simp [hx])
      -- the block ends its group, with a digest behind it, or it does not
      by_cases hfull : c.filled + 1 = g
      · have hput : put S g c b
            = (b ++ S.digest (S.absorb c.sum b), ⟨0, S.reset (S.absorb c.sum b)⟩) := by
          rw [put, if_pos hfull]
        have htake : (b ++ S.digest (S.absorb c.sum b)
            ++ (emit S g ⟨0, S.reset (S.absorb c.sum b)⟩ bs).1 ++ rest).take n = b := by
          simp only [List.append_assoc]
          rw [List.take_append_of_le_length (by omega), List.take_of_length_le (by omega)]
        have hdrop : (b ++ S.digest (S.absorb c.sum b)
            ++ (emit S g ⟨0, S.reset (S.absorb c.sum b)⟩ bs).1 ++ rest).drop n
            = S.digest (S.absorb c.sum b)
              ++ ((emit S g ⟨0, S.reset (S.absorb c.sum b)⟩ bs).1 ++ rest) := by
          simp only [List.append_assoc]
          rw [← hb, List.drop_left]
        simp only [emit, hput, List.length_cons, scan, hfull, if_true, htake, hdrop,
          ← List.drop_drop]
        rw [List.take_append_of_le_length (by rw [hdig]), List.take_of_length_le (by rw [hdig]),
          if_pos rfl, ← hdig (S.absorb c.sum b), List.drop_left, hdig, ih _ hbs']
        simp [hb, hdig]
        omega
      · have hput : put S g c b = (b, ⟨c.filled + 1, S.absorb c.sum b⟩) := by
          rw [put, if_neg hfull]
        have htake : (b ++ (emit S g ⟨c.filled + 1, S.absorb c.sum b⟩ bs).1 ++ rest).take n
            = b := by
          simp only [List.append_assoc]
          rw [List.take_append_of_le_length (by omega), List.take_of_length_le (by omega)]
        have hdrop : (b ++ (emit S g ⟨c.filled + 1, S.absorb c.sum b⟩ bs).1 ++ rest).drop n
            = (emit S g ⟨c.filled + 1, S.absorb c.sum b⟩ bs).1 ++ rest := by
          simp only [List.append_assoc]
          rw [← hb, List.drop_left]
        simp only [emit, hput, List.length_cons, scan, hfull, if_false, htake, hdrop]
        rw [ih _ hbs']
        simp [hb]

/-- How far a reader that accepts has come. The blocks and the checksums between them, with none
behind an open group. -/
theorem scan_used (hg : 0 < g) {k : ℕ} {c c' : Cursor σ} (hc : c.filled < g) {buf : List α}
    {bs : List (List α)} {used : ℕ} (h : scan S g n m k c buf = some (bs, c', used)) :
    bs.length = k ∧ used = k * n + (c.filled + k) / g * m ∧ c'.filled = (c.filled + k) % g := by
  induction k generalizing c buf bs used with
  | zero =>
      simp only [scan, Option.some.injEq, Prod.mk.injEq] at h
      obtain ⟨rfl, rfl, rfl⟩ := h
      simp [Nat.div_eq_of_lt hc, Nat.mod_eq_of_lt hc]
  | succ k ih =>
      simp only [scan] at h
      rw [succ_add_div hg hc, show c.filled + (k + 1) = (c.filled + 1) + k by omega]
      -- a block that ends its group costs a digest more
      by_cases hfull : c.filled + 1 = g
      · simp only [hfull, if_true] at h
        split at h
        · obtain ⟨⟨bs', c'', used'⟩, hscan, hr⟩ := Option.map_eq_some_iff.mp h
          simp only [Prod.mk.injEq] at hr
          obtain ⟨rfl, rfl, rfl⟩ := hr
          obtain ⟨h1, h2, h3⟩ := ih hg hscan
          rw [Nat.zero_add] at h2 h3
          rw [if_pos hfull, hfull, Nat.mod_self, Nat.zero_add, Nat.add_mod_left]
          exact ⟨by simp [h1], by rw [h2]; ring, h3⟩
        · exact absurd h (by simp)
      · simp only [hfull, if_false] at h
        obtain ⟨⟨bs', c'', used'⟩, hscan, hr⟩ := Option.map_eq_some_iff.mp h
        simp only [Prod.mk.injEq] at hr
        obtain ⟨rfl, rfl, rfl⟩ := hr
        have hc' : c.filled + 1 < g := by omega
        obtain ⟨h1, h2, h3⟩ := ih (c := ⟨c.filled + 1, _⟩) hc' hscan
        rw [if_neg hfull, Nat.mod_eq_of_lt hc', Nat.zero_add]
        exact ⟨by simp [h1], by rw [h2]; ring, h3⟩

/-- **The converse**: what a reader accepts is the emission of what it returns. -/
theorem emit_of_scan {k : ℕ} {c c' : Cursor σ} {buf : List α} {bs : List (List α)} {used : ℕ}
    (h : scan S g n m k c buf = some (bs, c', used)) (hlen : used ≤ buf.length) :
    bs.length = k ∧ (∀ b ∈ bs, b.length = n) ∧ emit S g c bs = (buf.take used, c') := by
  induction k generalizing c buf bs used with
  | zero =>
      simp only [scan, Option.some.injEq, Prod.mk.injEq] at h
      obtain ⟨rfl, rfl, rfl⟩ := h
      simp
  | succ k ih =>
      simp only [scan] at h
      -- the scanner compared a digest behind the block, or none
      by_cases hfull : c.filled + 1 = g
      · simp only [hfull, if_true] at h
        split at h
        · rename_i hdig
          obtain ⟨⟨bs', c'', used'⟩, hscan, hr⟩ := Option.map_eq_some_iff.mp h
          simp only [Prod.mk.injEq] at hr
          obtain ⟨rfl, rfl, rfl⟩ := hr
          obtain ⟨h1, h2, h3⟩ := ih hscan (by rw [List.length_drop]; omega)
          refine ⟨by simp [h1], ?_, ?_⟩
          · intro b hb
            rcases List.mem_cons.mp hb with rfl | hb
            · rw [List.length_take]; omega
            · exact h2 b hb
          · have hput : put S g c (buf.take n)
                = (buf.take n ++ S.digest (S.absorb c.sum (buf.take n)),
                  ⟨0, S.reset (S.absorb c.sum (buf.take n))⟩) := by
              rw [put, if_pos hfull]
            rw [emit, hput, h3, ← hdig, ← List.take_add, ← List.take_add]
        · exact absurd h (by simp)
      · simp only [hfull, if_false] at h
        obtain ⟨⟨bs', c'', used'⟩, hscan, hr⟩ := Option.map_eq_some_iff.mp h
        simp only [Prod.mk.injEq] at hr
        obtain ⟨rfl, rfl, rfl⟩ := hr
        obtain ⟨h1, h2, h3⟩ := ih hscan (by rw [List.length_drop]; omega)
        refine ⟨by simp [h1], ?_, ?_⟩
        · intro b hb
          rcases List.mem_cons.mp hb with rfl | hb
          · rw [List.length_take]; omega
          · exact h2 b hb
        · have hput : put S g c (buf.take n)
              = (buf.take n, ⟨c.filled + 1, S.absorb c.sum (buf.take n)⟩) := by
            rw [put, if_neg hfull]
          rw [emit, hput, h3, ← List.take_add]

/-- An emission that starts another one starts it with the same blocks. Blocks of one length and
digests of one length can be told apart by their place alone. -/
theorem eq_take_of_emit_prefix (hdig : ∀ s, (S.digest s).length = m) (c : Cursor σ)
    {bs cs : List (List α)} (hbs : ∀ b ∈ bs, b.length = n) (hcs : ∀ b ∈ cs, b.length = n)
    (hle : bs.length ≤ cs.length) {rest rest' : List α}
    (h : (emit S g c bs).1 ++ rest = (emit S g c cs).1 ++ rest') :
    bs = cs.take bs.length := by
  have hcs' : ∀ b ∈ cs.take bs.length, b.length = n := fun b hb => hcs b (List.mem_of_mem_take hb)
  have hlen : (cs.take bs.length).length = bs.length := by rw [List.length_take]; omega
  have h1 := scan_emit S g hdig c hbs rest
  have h2 := scan_emit S g hdig c hcs'
    ((emit S g (emit S g c (cs.take bs.length)).2 (cs.drop bs.length)).1 ++ rest')
  have hsplit := emit_append S g c (cs.take bs.length) (cs.drop bs.length)
  rw [List.take_append_drop] at hsplit
  rw [h, hsplit, List.append_assoc] at h1
  rw [hlen, h1] at h2
  exact congrArg Prod.fst (Option.some.inj h2)

end Scan

end GroupStream

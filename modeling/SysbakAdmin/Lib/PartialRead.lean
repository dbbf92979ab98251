/-
**Reading from a store with holes**: what can be read at each address, the whole of a range, and
the part of it before the first hole, which is what a read that comes back short has got.

`read_all` is the reading that succeeds or fails as a whole; `read_some` what a short read has
got. They agree where there is no hole, and at the first hole the second ends. A range can be
read in pieces (`read_all_add`), which is what a device that is read in stripes needs.

Addresses are natural numbers, and what can be read is a function to `Option`, so a hole is an
address with no value. A device that ends is a store with a hole from there on.
-/
import Mathlib.Data.List.Basic

set_option autoImplicit false

namespace PartialRead

variable {β : Type*}

/-- A range, when all of it can be read. -/
def read_all (f : ℕ → Option β) : ℕ → ℕ → Option (List β)
  | _, 0 => some []
  | a, n + 1 =>
      match f a with
      | none => none
      | some b => (read_all f (a + 1) n).map (b :: ·)

/-- A range up to the first hole. -/
def read_some (f : ℕ → Option β) : ℕ → ℕ → List β
  | _, 0 => []
  | a, n + 1 =>
      match f a with
      | none => []
      | some b => b :: read_some f (a + 1) n

theorem read_all_length {f : ℕ → Option β} {a n : ℕ} {l : List β} (h : read_all f a n = some l) :
    l.length = n := by
  induction n generalizing a l with
  | zero =>
      cases h
      rfl
  | succ n ih =>
      rw [read_all] at h
      cases hb : f a with
      | none =>
          rw [hb] at h
          cases h
      | some b =>
          rw [hb] at h
          obtain ⟨l', hl', rfl⟩ := Option.map_eq_some_iff.mp h
          rw [List.length_cons, ih hl']

theorem read_some_length_le (f : ℕ → Option β) (a n : ℕ) : (read_some f a n).length ≤ n := by
  induction n generalizing a with
  | zero => exact Nat.le_refl 0
  | succ n ih =>
      rw [read_some]
      cases f a with
      | none => exact Nat.zero_le _
      | some b => exact Nat.succ_le_succ (ih (a + 1))

/-- What is read of a range stands at its addresses. -/
theorem read_all_getElem? {f : ℕ → Option β} {a n : ℕ} {l : List β} (h : read_all f a n = some l)
    {i : ℕ} (hi : i < n) : f (a + i) = l[i]? := by
  induction n generalizing a l i with
  | zero => exact absurd hi (Nat.not_lt_zero i)
  | succ n ih =>
      rw [read_all] at h
      cases hb : f a with
      | none =>
          rw [hb] at h
          cases h
      | some b =>
          rw [hb] at h
          obtain ⟨l', hl', rfl⟩ := Option.map_eq_some_iff.mp h
          cases i with
          | zero => exact hb
          | succ i =>
              have := ih hl' (Nat.lt_of_succ_lt_succ hi)
              rwa [show a + 1 + i = a + (i + 1) by omega] at this

/-- A range without a hole can be read. -/
theorem read_all_isSome {f : ℕ → Option β} {a n : ℕ} (h : ∀ i < n, (f (a + i)).isSome) :
    (read_all f a n).isSome := by
  induction n generalizing a with
  | zero => rfl
  | succ n ih =>
      rw [read_all]
      have hhead : (f a).isSome := h 0 (Nat.succ_pos n)
      obtain ⟨b, hb⟩ := Option.isSome_iff_exists.mp hhead
      rw [hb]
      dsimp only
      rw [Option.isSome_map]
      refine ih fun i hi => ?_
      have := h (i + 1) (by omega)
      rwa [show a + 1 + i = a + (i + 1) by omega]

/-- A read that is not short has got all. -/
theorem read_some_eq (f : ℕ → Option β) (a n : ℕ) :
    (∃ l, read_all f a n = some l ∧ read_some f a n = l) ∨
      (read_all f a n = none ∧ (read_some f a n).length ≠ n) := by
  induction n generalizing a with
  | zero => exact Or.inl ⟨[], rfl, rfl⟩
  | succ n ih =>
      rw [read_all, read_some]
      cases f a with
      | none => exact Or.inr ⟨rfl, nofun⟩
      | some b =>
          rcases ih (a + 1) with ⟨l, hall, hsome⟩ | ⟨hall, hshort⟩
          · exact Or.inl ⟨b :: l, by rw [hall]; rfl, by rw [hsome]⟩
          · refine Or.inr ⟨by rw [hall]; rfl, fun h => hshort ?_⟩
            exact Nat.succ.inj h

/-- Ranges one after the other. -/
theorem read_all_add (f : ℕ → Option β) (a m n : ℕ) :
    read_all f a (m + n)
      = (read_all f a m).bind fun l => (read_all f (a + m) n).map (l ++ ·) := by
  induction m generalizing a with
  | zero =>
      rw [Nat.zero_add, read_all, Nat.add_zero, Option.bind_some]
      cases read_all f a n <;> rfl
  | succ m ih =>
      rw [Nat.succ_add, read_all, read_all]
      cases f a with
      | none => rfl
      | some b =>
          dsimp only
          rw [ih, show a + 1 + m = a + (m + 1) by omega]
          cases read_all f (a + 1) m with
          | none => rfl
          | some l =>
              cases read_all f (a + (m + 1)) n with
              | none => rfl
              | some l' => rfl

/-- Two stores that agree along a range. -/
theorem read_all_congr {f g : ℕ → Option β} {a b n : ℕ} (h : ∀ d < n, f (a + d) = g (b + d)) :
    read_all f a n = read_all g b n := by
  induction n generalizing a b with
  | zero => rfl
  | succ n ih =>
      have hhead : f a = g b := h 0 (Nat.succ_pos n)
      have htail : read_all f (a + 1) n = read_all g (b + 1) n := by
        refine ih fun d hd => ?_
        have := h (d + 1) (by omega)
        rwa [show a + 1 + d = a + (d + 1) by omega, show b + 1 + d = b + (d + 1) by omega]
      rw [read_all, read_all, hhead, htail]

/-- A range that starts with a hole cannot be read. -/
theorem read_all_hole {f : ℕ → Option β} {a n : ℕ} (h : f a = none) (hn : 0 < n) :
    read_all f a n = none := by
  cases n with
  | zero => exact absurd hn (Nat.lt_irrefl 0)
  | succ n => rw [read_all, h]

end PartialRead

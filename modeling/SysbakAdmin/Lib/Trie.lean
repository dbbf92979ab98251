/-
**Tries of a fixed width**: every node has `w` slots and counts the ones that are taken, and an
item stands at the digits of its key, the highest one at the top.

A tree of a height is a slot of that level, so that all items stand at the same depth. What a
tree holds is what is found in it (`find`); a tree whose counts are right and which has no empty
node is determined by that (`eq_of_find`).

Counts and children are kept apart: `counted` says that the counts are right, `filled` that no
node is empty, and both go down the tree with `each`. An update changes one slot of each node
on one way down; `others` are the slots beside it, which no update of that way touches.

The digits of a key are a function from levels to slots, so a key of any number of digits can be
asked for in a tree of any height, and only those below the height matter (`find_congr`).
-/
import Mathlib.Data.Fintype.Card
import Mathlib.Data.Fin.Basic
import Mathlib.Logic.Function.Basic

set_option autoImplicit false

namespace Trie

universe u

/-- A node: its slots, and how many are taken. -/
structure Node (w : ℕ) (σ : Type u) where
  count : ℕ
  slots : Fin w → Option σ

/-- What stands in a slot of a level: an item at the bottom, a node above. -/
def Slot (w : ℕ) (α : Type u) : ℕ → Type u
  | 0 => α
  | h + 1 => Node w (Slot w α h)

section Find

variable {w : ℕ} {α : Type u}

/-- The item at the digits `e`, where `e h` is the digit at the slots of level `h`. -/
def find (e : ℕ → Fin w) : (h : ℕ) → Option (Slot w α h) → Option α
  | _, none => none
  | 0, some a => some a
  | h + 1, some n => find e h (Node.slots n (e h))

theorem find_some (e : ℕ → Fin w) (h : ℕ) (n : Node w (Slot w α h)) :
    find e (h + 1) (some n) = find e h (n.slots (e h)) := rfl

@[simp] theorem find_none (e : ℕ → Fin w) (h : ℕ) :
    find e h (none : Option (Slot w α h)) = none := by
  cases h <;> rfl

/-- Only the digits below a level matter. -/
theorem find_congr {e e' : ℕ → Fin w} : ∀ (h : ℕ) (s : Option (Slot w α h)),
    (∀ k < h, e k = e' k) → find e h s = find e' h s
  | 0, none, _ => rfl
  | 0, some _, _ => rfl
  | _ + 1, none, _ => rfl
  | h + 1, some n, hsame => by
      have hhere : e h = e' h := hsame h (Nat.lt_succ_self h)
      have hbelow := find_congr h (Node.slots n (e h)) fun k hk => hsame k (Nat.lt_succ_of_lt hk)
      change find e h (Node.slots n (e h)) = find e' h (Node.slots n (e' h))
      rw [hbelow, hhere]

/-- What is found below a node one of whose slots was written. -/
theorem find_update (e : ℕ → Fin w) (h count : ℕ) (slots : Fin w → Option (Slot w α h)) (d : Fin w)
    (s : Option (Slot w α h)) :
    find e (h + 1) (some ⟨count, Function.update slots d s⟩)
      = if e h = d then find e h s else find e h (slots (e h)) := by
  change find e h (Function.update slots d s (e h)) = _
  split_ifs with hd
  · rw [hd, Function.update_self]
  · rw [Function.update_of_ne hd]

/-- The way to a place, by its digits below a level, is the same. -/
def agree (h : ℕ) (d e : ℕ → Fin w) : Prop := ∀ k < h, e k = d k

theorem agree_zero (d e : ℕ → Fin w) : agree 0 d e := fun _ hk => absurd hk (Nat.not_lt_zero _)

theorem agree_succ {h : ℕ} {d e : ℕ → Fin w} : agree (h + 1) d e ↔ e h = d h ∧ agree h d e := by
  constructor
  · intro hsame
    exact ⟨hsame h (Nat.lt_succ_self h), fun k hk => hsame k (Nat.lt_succ_of_lt hk)⟩
  · rintro ⟨hhere, hbelow⟩ k hk
    rcases Nat.lt_succ_iff_lt_or_eq.mp hk with hk | rfl
    · exact hbelow k hk
    · exact hhere

end Find

/-! ## The slots that are taken -/

section Taken

variable {w : ℕ} {σ : Type u}

/-- How many slots are taken. -/
def taken (slots : Fin w → Option σ) : ℕ := (Finset.univ.filter fun i => (slots i).isSome).card

/-- The slots taken besides one. -/
def others (slots : Fin w → Option σ) (d : Fin w) : ℕ :=
  (Finset.univ.filter fun i => i ≠ d ∧ (slots i).isSome).card

theorem taken_eq (slots : Fin w → Option σ) (d : Fin w) :
    taken slots = others slots d + if (slots d).isSome then 1 else 0 := by
  have hsplit := Finset.card_filter_add_card_filter_not
    (s := Finset.univ.filter fun i => (slots i).isSome) (fun i => i ≠ d)
  rw [Finset.filter_filter, Finset.filter_filter] at hsplit
  have hself : (Finset.univ.filter fun i => (slots i).isSome ∧ ¬ i ≠ d)
      = if (slots d).isSome then {d} else ∅ := by
    ext i
    split_ifs with hd
    · simp only [Finset.mem_filter, Finset.mem_univ, true_and, Finset.mem_singleton, not_not]
      exact ⟨fun h => h.2, fun h => ⟨h ▸ hd, h⟩⟩
    · simp only [Finset.mem_filter, Finset.mem_univ, true_and, not_not, Finset.notMem_empty,
        iff_false]
      rintro ⟨hi, rfl⟩
      exact hd hi
  rw [hself] at hsplit
  rw [taken, others, ← hsplit]
  congr 1
  · congr 1
    ext i
    simp only [Finset.mem_filter, Finset.mem_univ, true_and]
    exact and_comm
  · split_ifs <;> rfl

/-- Writing a slot leaves the others as they are. -/
theorem taken_update (slots : Fin w → Option σ) (d : Fin w) (s : Option σ) :
    taken (Function.update slots d s) = others slots d + if s.isSome then 1 else 0 := by
  have hothers : others (Function.update slots d s) d = others slots d := by
    refine congrArg Finset.card (Finset.filter_congr fun i _ => and_congr_right fun hi => ?_)
    rw [Function.update_of_ne hi]
  rw [taken_eq _ d, Function.update_self, hothers]

theorem taken_pos_iff {slots : Fin w → Option σ} : 0 < taken slots ↔ ∃ i, (slots i).isSome := by
  rw [taken, Finset.card_pos]
  constructor
  · rintro ⟨i, hi⟩
    exact ⟨i, (Finset.mem_filter.mp hi).2⟩
  · rintro ⟨i, hi⟩
    exact ⟨i, Finset.mem_filter.mpr ⟨Finset.mem_univ i, hi⟩⟩

/-- A slot that is written is taken. -/
theorem taken_update_pos {slots : Fin w → Option σ} {d : Fin w} {s : Option σ} (h : s.isSome) :
    0 < taken (Function.update slots d s) := by
  rw [taken_update, if_pos h]
  exact Nat.succ_pos _

theorem taken_empty : taken (fun _ : Fin w => (none : Option σ)) = 0 := by
  refine Nat.eq_zero_of_not_pos fun hpos => ?_
  obtain ⟨i, hi⟩ := taken_pos_iff.mp hpos
  exact absurd hi (by simp)

theorem eq_none_of_others_zero {slots : Fin w → Option σ} {d i : Fin w} (h : others slots d = 0)
    (hi : i ≠ d) : slots i = none := by
  have hnone := Finset.filter_eq_empty_iff.mp (Finset.card_eq_zero.mp h) (Finset.mem_univ i)
  exact Option.not_isSome_iff_eq_none.mp fun hsome => hnone ⟨hi, hsome⟩

/-- The only slot taken. -/
theorem eq_none_of_taken_one {slots : Fin w → Option σ} {d i : Fin w} (h : taken slots = 1)
    (hd : (slots d).isSome) (hi : i ≠ d) : slots i = none := by
  rw [taken_eq slots d, if_pos hd] at h
  exact eq_none_of_others_zero (Nat.succ.inj h) hi

theorem exists_other {slots : Fin w → Option σ} {d : Fin w} (h : others slots d ≠ 0) :
    ∃ i, i ≠ d ∧ (slots i).isSome := by
  obtain ⟨i, hi⟩ := Finset.card_ne_zero.mp h
  exact ⟨i, (Finset.mem_filter.mp hi).2⟩

end Taken

/-! ## What holds at every node -/

section Each

variable {w : ℕ} {α : Type u}

/-- Every node below a slot is so, by its count and the slots it has taken. -/
def each (P : ℕ → ℕ → Prop) : (h : ℕ) → Option (Slot w α h) → Prop
  | _, none => True
  | 0, some _ => True
  | h + 1, some n => P (Node.count n) (taken (Node.slots n)) ∧ ∀ i, each P h (Node.slots n i)

variable {P : ℕ → ℕ → Prop}

theorem each_some (h : ℕ) (n : Node w (Slot w α h)) :
    each (α := α) P (h + 1) (some n) ↔ P n.count (taken n.slots) ∧ ∀ i, each P h (n.slots i) :=
  Iff.rfl

@[simp] theorem each_none (h : ℕ) : each P h (none : Option (Slot w α h)) := by
  cases h <;> exact trivial

/-- One slot written, and the node as it is to be. -/
theorem each_update {h count : ℕ} {slots : Fin w → Option (Slot w α h)} {d : Fin w}
    {s : Option (Slot w α h)} (hnode : P count (taken (Function.update slots d s)))
    (hslots : ∀ i, each P h (slots i)) (hs : each P h s) :
    each (α := α) P (h + 1) (some ⟨count, Function.update slots d s⟩) := by
  refine (each_some h _).mpr ⟨hnode, fun i => ?_⟩
  change each P h (Function.update slots d s i)
  by_cases hi : i = d
  · rw [hi, Function.update_self]
    exact hs
  · rw [Function.update_of_ne hi]
    exact hslots i

/-- The counts are right. -/
def counted (h : ℕ) (s : Option (Slot w α h)) : Prop := each (fun count taken => count = taken) h s

/-- No node is empty. -/
def filled (h : ℕ) (s : Option (Slot w α h)) : Prop := each (fun _ taken => 0 < taken) h s

/-- Below a slot that is taken an item is found. -/
theorem exists_find (hw : 0 < w) : ∀ {h : ℕ} {s : Option (Slot w α h)}, filled h s → s.isSome →
    ∃ e, (find e h s).isSome
  | 0, some a, _, _ => ⟨fun _ => ⟨0, hw⟩, rfl⟩
  | h + 1, some n, hfilled, _ => by
      obtain ⟨i, hi⟩ := taken_pos_iff.mp hfilled.1
      obtain ⟨e, he⟩ := exists_find hw (hfilled.2 i) hi
      -- the digits on the way down, and the slot's own above them
      refine ⟨fun k => if k = h then i else e k, ?_⟩
      have hbelow : find (fun k => if k = h then i else e k) h (Node.slots n i)
          = find e h (Node.slots n i) := find_congr h _ fun k hk => if_neg (Nat.ne_of_lt hk)
      change (find (fun k => if k = h then i else e k) h
        (Node.slots n (if h = h then i else e h))).isSome
      rw [if_pos rfl, hbelow]
      exact he

/-- **A tree is determined by what it holds**, when its counts are right and no node is empty. -/
theorem eq_of_find (hw : 0 < w) : ∀ {h : ℕ} {s s' : Option (Slot w α h)}, counted h s →
    filled h s → counted h s' → filled h s' → (∀ e, find e h s = find e h s') → s = s'
  | h, none, s', _, _, _, hf', hsame => by
      refine (Option.not_isSome_iff_eq_none.mp fun hsome => ?_).symm
      obtain ⟨e, he⟩ := exists_find hw hf' hsome
      rw [← hsame e, find_none] at he
      exact absurd he (by simp)
  | h, some n, none, _, hf, _, _, hsame => by
      obtain ⟨e, he⟩ := exists_find hw hf rfl
      rw [hsame e, find_none] at he
      exact absurd he (by simp)
  | 0, some a, some a', _, _, _, _, hsame => hsame fun _ => ⟨0, hw⟩
  | h + 1, some n, some n', hc, hf, hc', hf', hsame => by
      have hslots : Node.slots n = Node.slots n' := by
        funext i
        refine eq_of_find hw (hc.2 i) (hf.2 i) (hc'.2 i) (hf'.2 i) fun e => ?_
        have hup : ∀ m : Node w (Slot w α h),
            find (fun k => if k = h then i else e k) (h + 1) (some m) = find e h (m.slots i) := by
          intro m
          rw [find_some, if_pos rfl]
          exact find_congr h _ fun k hk => if_neg (Nat.ne_of_lt hk)
        rw [← hup n, ← hup n', hsame]
      have hcount : Node.count n = Node.count n' := by rw [hc.1, hc'.1, hslots]
      obtain ⟨count, slots⟩ := n
      obtain ⟨count', slots'⟩ := n'
      rw [show count = count' from hcount, show slots = slots' from hslots]

end Each

end Trie

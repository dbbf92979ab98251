/-
**Search trees by levels**, as a file system keeps them: a leaf holds keys in order, a block of
a level above holds children, each under the first key below it.

The leaves of such a tree stand in a row. A place among them is a leaf with, for each level, the
siblings to the right of the way down (`ahead`); going down picks a child at each block
(`descend`), and the next leaf is found by going up to the first level with a sibling left, and
down along the first children (`next`). Where the tree is in order, the way down to a key leaves
the smaller keys on its left and the greater ones on its right (`descend_key`).

Blocks are of any type, and what a block holds is read off it by a `Layout`. So the tree is
never built as a value: it is what can be reached from a block, and a property of blocks that
is handed down from a block to its children (`handed_down`) holds wherever a walk comes to.

What a walk has still to come to is `ahead`, a list computed from the place alone; so a loop over
the leaves is an induction on a list, whatever the tree looks like.
-/
import Mathlib.Order.Lattice
import Mathlib.Data.List.Basic
import Mathlib.Data.List.Pairwise

set_option autoImplicit false

namespace LevelTree

/-- How a block is read: as a leaf its keys, as a block above its children. -/
structure Layout (β κ : Type*) where
  entries : β → List κ
  kids : β → List (κ × β)

section Places

variable {β κ : Type*} (t : Layout β κ)

/-- The leaves below a block of a level, from left to right. -/
def leaves : ℕ → β → List β
  | 0, b => [b]
  | n + 1, b => (t.kids b).flatMap fun c => leaves n c.2

/-- The leaves to the right of a place: from each level on, those below the siblings. -/
def ahead : ℕ → List (List (κ × β)) → List β
  | _, [] => []
  | n, siblings :: up => (siblings.flatMap fun c => leaves t n c.2) ++ ahead (n + 1) up

/-- What holds of a block holds of its children, and above a leaf no block is empty. -/
def handed_down (P : ℕ → β → Prop) : Prop :=
  ∀ n b, P (n + 1) b → t.kids b ≠ [] ∧ ∀ c ∈ t.kids b, P n c.2

/-- It holds of the siblings to the right of a place. -/
def standing (P : ℕ → β → Prop) : ℕ → List (List (κ × β)) → Prop
  | _, [] => True
  | n, siblings :: up => (∀ c ∈ siblings, P n c.2) ∧ standing P (n + 1) up

/-- The way down to a leaf, over the child that is picked at each block. -/
def descend (pick : β → ℕ) : ℕ → β → List (List (κ × β)) → Option (β × List (List (κ × β)))
  | 0, b, up => some (b, up)
  | n + 1, b, up =>
      match (t.kids b)[pick b]? with
      | none => none
      | some c => descend pick n c.2 ((t.kids b).drop (pick b + 1) :: up)

/-- The way from a place to the next leaf. -/
def next : ℕ → List (List (κ × β)) → Option (β × List (List (κ × β)))
  | _, [] => none
  | n, [] :: up => next (n + 1) up
  | n, (c :: siblings) :: up => descend t (fun _ => 0) n c.2 (siblings :: up)

/-- Below a block, what is picked cuts the leaves in those before and those behind. The way is
`low` from the first block on that is not the first child. -/
def cuts (pick : β → ℕ) (before behind : β → Prop) (low : ℕ → β → Prop) : ℕ → β → Prop
  | 0, _ => True
  | n + 1, b => ∃ l c r, t.kids b = l ++ c :: r ∧ pick b = l.length ∧
      (∀ d ∈ l, ∀ leaf ∈ leaves t n d.2, before leaf) ∧
      (∀ d ∈ r, ∀ leaf ∈ leaves t n d.2, behind leaf) ∧
      (l ≠ [] ∨ low (n + 1) b → low n c.2) ∧ cuts pick before behind low n c.2

variable {t}

/-- **The way down** ends at a leaf, with the leaves before it on its left, and on its right those
behind it and what was there already. -/
theorem descend_spec {pick : β → ℕ} {before behind : β → Prop} {low : ℕ → β → Prop} :
    ∀ {n : ℕ} {b : β} (up : List (List (κ × β))), cuts t pick before behind low n b →
      ∃ leaf up' l r, descend t pick n b up = some (leaf, up') ∧
        leaves t n b = l ++ leaf :: r ∧ ahead t 0 up' = r ++ ahead t n up ∧
        (∀ x ∈ l, before x) ∧ (∀ x ∈ r, behind x) ∧ (l ≠ [] ∨ low n b → low 0 leaf) := by
  intro n
  induction n with
  | zero =>
      intro b up _
      exact ⟨b, up, [], [], rfl, rfl, rfl, by simp, by simp, fun h => h.resolve_left (by simp)⟩
  | succ n ih =>
      intro b up hcuts
      obtain ⟨l, c, r, hkids, hpick, hbefore, hbehind, hlow, hc⟩ := hcuts
      obtain ⟨leaf, up', l', r', hdown, hleaves, hahead, hl', hr', hlow'⟩ := ih (r :: up) hc
      refine ⟨leaf, up', (l.flatMap fun d => leaves t n d.2) ++ l',
        r' ++ r.flatMap fun d => leaves t n d.2, ?_, ?_, ?_, ?_, ?_, ?_⟩
      · have hget : (t.kids b)[pick b]? = some c := by
          rw [hkids, hpick, List.getElem?_append_right (Nat.le_refl _), Nat.sub_self,
            List.getElem?_cons_zero]
        have hdrop : (t.kids b).drop (pick b + 1) = r := by
          rw [hkids, hpick, List.drop_append, List.drop_of_length_le (by omega),
            Nat.add_sub_cancel_left, List.nil_append, List.drop_one, List.tail_cons]
        rw [descend, hget]
        dsimp only
        rw [hdrop, hdown]
      · rw [leaves, hkids, List.flatMap_append, List.flatMap_cons, hleaves]
        simp only [List.append_assoc, List.cons_append]
      · rw [hahead, ahead, List.append_assoc]
      · intro x hx
        rcases List.mem_append.mp hx with hx | hx
        · obtain ⟨d, hd, hx⟩ := List.mem_flatMap.mp hx
          exact hbefore d hd x hx
        · exact hl' x hx
      · intro x hx
        rcases List.mem_append.mp hx with hx | hx
        · exact hr' x hx
        · obtain ⟨d, hd, hx⟩ := List.mem_flatMap.mp hx
          exact hbehind d hd x hx
      · intro h
        refine hlow' ?_
        by_cases hnil : l' = []
        · refine Or.inr (hlow (h.imp_left fun hne hempty => hne ?_))
          rw [hempty, hnil]
          rfl
        · exact Or.inl hnil

/-- The way down keeps the right of each level. -/
theorem descend_length {pick : β → ℕ} :
    ∀ {n : ℕ} {b leaf : β} {up up' : List (List (κ × β))},
      descend t pick n b up = some (leaf, up') → up'.length = n + up.length := by
  intro n
  induction n with
  | zero =>
      intro b leaf up up' hdown
      cases hdown
      rw [Nat.zero_add]
  | succ n ih =>
      intro b leaf up up' hdown
      rw [descend] at hdown
      cases hget : (t.kids b)[pick b]? with
      | none =>
          rw [hget] at hdown
          cases hdown
      | some c =>
          rw [hget] at hdown
          rw [ih hdown, List.length_cons]
          omega

theorem next_length : ∀ {up up' : List (List (κ × β))} {n : ℕ} {leaf : β},
    next t n up = some (leaf, up') → up'.length = n + up.length := by
  intro up
  induction up with
  | nil => exact fun h => by cases h
  | cons siblings up ih =>
      intro up' n leaf hnext
      cases siblings with
      | nil =>
          rw [ih hnext, List.length_cons]
          omega
      | cons c siblings =>
          rw [descend_length hnext, List.length_cons, List.length_cons]

variable {P : ℕ → β → Prop} (hP : handed_down t P)

include hP in
/-- What holds of the block holds of the leaf the way down ends at, and of what it leaves to the
right. -/
theorem descend_standing {pick : β → ℕ} :
    ∀ {n : ℕ} {b leaf : β} {up up' : List (List (κ × β))}, P n b → standing P n up →
      descend t pick n b up = some (leaf, up') → P 0 leaf ∧ standing P 0 up' := by
  intro n
  induction n with
  | zero =>
      intro b leaf up up' hb hup hdown
      cases hdown
      exact ⟨hb, hup⟩
  | succ n ih =>
      intro b leaf up up' hb hup hdown
      have hkids := (hP n b hb).2
      rw [descend] at hdown
      cases hget : (t.kids b)[pick b]? with
      | none =>
          rw [hget] at hdown
          cases hdown
      | some c =>
          rw [hget] at hdown
          have hright : standing P n ((t.kids b).drop (pick b + 1) :: up) :=
            ⟨fun d hd => hkids d (List.mem_of_mem_drop hd), hup⟩
          exact ih (hkids c (List.mem_of_getElem? hget)) hright hdown

include hP in
theorem next_standing : ∀ {up up' : List (List (κ × β))} {n : ℕ} {leaf : β}, standing P n up →
    next t n up = some (leaf, up') → P 0 leaf ∧ standing P 0 up' := by
  intro up
  induction up with
  | nil => exact fun _ h => by cases h
  | cons siblings up ih =>
      intro up' n leaf hup hnext
      cases siblings with
      | nil => exact ih hup.2 hnext
      | cons c siblings =>
          have hright : standing P n (siblings :: up) :=
            ⟨fun d hd => hup.1 d (List.mem_cons_of_mem _ hd), hup.2⟩
          exact descend_standing hP (hup.1 c List.mem_cons_self) hright hnext

include hP in
theorem leaves_of : ∀ {n : ℕ} {b x : β}, P n b → x ∈ leaves t n b → P 0 x := by
  intro n
  induction n with
  | zero =>
      intro b x hb hx
      rw [leaves, List.mem_singleton] at hx
      rw [hx]
      exact hb
  | succ n ih =>
      intro b x hb hx
      obtain ⟨c, hc, hx⟩ := List.mem_flatMap.mp hx
      exact ih ((hP n b hb).2 c hc) hx

include hP in
theorem ahead_of : ∀ {up : List (List (κ × β))} {n : ℕ} {x : β}, standing P n up →
    x ∈ ahead t n up → P 0 x := by
  intro up
  induction up with
  | nil => exact fun _ hx => absurd hx List.not_mem_nil
  | cons siblings up ih =>
      intro n x hup hx
      rcases List.mem_append.mp hx with hx | hx
      · obtain ⟨c, hc, hx⟩ := List.mem_flatMap.mp hx
        exact leaves_of hP (hup.1 c hc) hx
      · exact ih hup.2 hx

include hP in
/-- The first children lead to the first leaf. -/
theorem cuts_first : ∀ {n : ℕ} {b : β}, P n b →
    cuts t (fun _ => 0) (fun _ => False) (fun _ => True) (fun _ _ => False) n b := by
  intro n
  induction n with
  | zero => exact fun _ => trivial
  | succ n ih =>
      intro b hb
      obtain ⟨hne, hkid⟩ := hP n b hb
      obtain ⟨c, r, hkids⟩ := List.exists_cons_of_ne_nil hne
      exact ⟨[], c, r, hkids, rfl, by simp, fun _ _ _ _ => trivial, by simp,
        ih (hkid c (by rw [hkids]; exact List.mem_cons_self))⟩

include hP in
/-- **The next leaf**: there is none exactly at the last one, and else it is the first one to the
right, and what was behind it is to its right. -/
theorem next_spec : ∀ {up : List (List (κ × β))} {n : ℕ}, standing P n up →
    (next t n up = none ∧ ahead t n up = []) ∨
      ∃ leaf up', next t n up = some (leaf, up') ∧ ahead t n up = leaf :: ahead t 0 up' := by
  intro up
  induction up with
  | nil => exact fun _ => Or.inl ⟨rfl, rfl⟩
  | cons siblings up ih =>
      intro n hstanding
      cases siblings with
      | nil =>
          simp only [next, ahead, List.flatMap_nil, List.nil_append]
          exact ih hstanding.2
      | cons c siblings =>
          obtain ⟨leaf, up', l, r, hdown, hleaves, hahead, hl, -, -⟩ :=
            descend_spec (siblings :: up) (cuts_first hP (hstanding.1 c List.mem_cons_self))
          have hnil : l = [] := List.eq_nil_iff_forall_not_mem.mpr hl
          refine Or.inr ⟨leaf, up', hdown, ?_⟩
          rw [hahead, ahead, List.flatMap_cons, hleaves, hnil, ahead]
          simp only [List.nil_append, List.cons_append, List.append_assoc]

end Places

/-! ## Order -/

section Below

variable {β κ : Type*} (t : Layout β κ)

/-- The keys below a block, from left to right. -/
def below (n : ℕ) (b : β) : List κ := (leaves t n b).flatMap t.entries

variable {t}

theorem below_succ (n : ℕ) (b : β) :
    below t (n + 1) b = (t.kids b).flatMap fun c => below t n c.2 := by
  rw [below, leaves, List.flatMap_assoc]
  rfl

theorem mem_below_succ {n : ℕ} {b : β} {e : κ} :
    e ∈ below t (n + 1) b ↔ ∃ c ∈ t.kids b, e ∈ below t n c.2 := by
  rw [below_succ, List.mem_flatMap]

end Below

section Order

variable {β κ : Type*} [LinearOrder κ] (t : Layout β κ)

/-- The key a block of a level starts with. -/
def first : ℕ → β → Option κ
  | 0, b => (t.entries b).head?
  | _ + 1, b => (t.kids b).head?.map Prod.fst

/-- A block is in order: each child stands under the key it starts with, and no key below it
reaches the key of a later child. -/
def ordered : ℕ → β → Prop
  | 0, b => (t.entries b).Pairwise (· < ·)
  | n + 1, b => t.kids b ≠ [] ∧
      (t.kids b).Pairwise (fun c d => ∀ e ∈ below t n c.2, e < d.1) ∧
      ∀ c ∈ t.kids b, first t n c.2 = some c.1 ∧ ordered n c.2

/-- The slot of a key among the keys of a block: the last one that is not greater, or the first
slot where all are. -/
def at_slot (keys : List κ) (key : κ) (slot : ℕ) : Prop :=
  ∃ l x r, keys = l ++ x :: r ∧ slot = l.length ∧ (l = [] ∨ x ≤ key) ∧ ∀ y ∈ r, key < y

variable {t}

theorem ordered_handed_down : handed_down t (ordered t) :=
  fun _ _ h => ⟨h.1, fun c hc => (h.2.2 c hc).2⟩

/-- The key a block starts with is below it, and no key below it is smaller; so the keys of the
children are in order. -/
theorem ordered.first_below : ∀ {n : ℕ} {b : β} {key : κ}, ordered t n b →
    first t n b = some key → key ∈ below t n b ∧ ∀ e ∈ below t n b, key ≤ e := by
  intro n
  induction n with
  | zero =>
      intro b key h hfirst
      have hbelow : below t 0 b = t.entries b := List.flatMap_singleton _ _
      obtain ⟨rest, hentries⟩ := List.head?_eq_some_iff.mp hfirst
      rw [hbelow, hentries]
      refine ⟨List.mem_cons_self, fun e he => ?_⟩
      rcases List.mem_cons.mp he with rfl | he
      · exact le_refl _
      · have hsorted : (t.entries b).Pairwise (· < ·) := h
        rw [hentries] at hsorted
        exact le_of_lt ((List.pairwise_cons.mp hsorted).1 e he)
  | succ n ih =>
      intro b key h hfirst
      obtain ⟨c, hhead, rfl⟩ := Option.map_eq_some_iff.mp hfirst
      obtain ⟨rest, hkids⟩ := List.head?_eq_some_iff.mp hhead
      obtain ⟨-, hapart, hkid⟩ := h
      rw [hkids] at hapart
      have hc : c ∈ t.kids b := by
        rw [hkids]
        exact List.mem_cons_self
      obtain ⟨hmem, hle⟩ := ih (hkid c hc).2 (hkid c hc).1
      refine ⟨mem_below_succ.mpr ⟨c, hc, hmem⟩, fun e he => ?_⟩
      obtain ⟨d, hd, he⟩ := mem_below_succ.mp he
      have hdrest := hd
      rw [hkids] at hdrest
      rcases List.mem_cons.mp hdrest with rfl | hdrest
      · exact hle e he
      · have hlt := (List.pairwise_cons.mp hapart).1 d hdrest _ hmem
        exact le_trans (le_of_lt hlt) ((ih (hkid d hd).2 (hkid d hd).1).2 e he)

theorem ordered.kids {n : ℕ} {b : β} (h : ordered t (n + 1) b) :
    ((t.kids b).map Prod.fst).Pairwise (· < ·) := by
  rw [List.pairwise_map]
  refine h.2.1.imp_of_mem fun {c d} hc _ hcd => ?_
  exact hcd _ ((h.2.2 c hc).2.first_below (h.2.2 c hc).1).1

/-- The keys below a block are in order. -/
theorem ordered.below : ∀ {n : ℕ} {b : β}, ordered t n b → (below t n b).Pairwise (· < ·) := by
  intro n
  induction n with
  | zero =>
      intro b h
      rw [show LevelTree.below t 0 b = t.entries b from List.flatMap_singleton _ _]
      exact h
  | succ n ih =>
      intro b h
      rw [below_succ, List.pairwise_flatMap]
      refine ⟨fun c hc => ih (h.2.2 c hc).2, h.2.1.imp_of_mem fun {c d} _ hd hcd => ?_⟩
      intro e he e' he'
      exact lt_of_lt_of_le (hcd e he)
        (((h.2.2 d hd).2.first_below (h.2.2 d hd).1).2 e' he')

section Key

variable {P : ℕ → β → Prop} (hP : handed_down t P) {pick : β → ℕ} {key : κ}
  (hpick : ∀ n b, P (n + 1) b → ordered t (n + 1) b →
    at_slot ((t.kids b).map Prod.fst) key (pick b))

include hP hpick

/-- Picking the slot of a key at each block cuts the leaves at the key. What lies below a child
starts at its key and ends before the next one's, so each level keeps the cut. -/
theorem cuts_key : ∀ {n : ℕ} {b : β}, P n b → ordered t n b →
    cuts t pick (fun leaf => ∀ e ∈ t.entries leaf, e < key)
      (fun leaf => ∀ e ∈ t.entries leaf, key < e)
      (fun n b => ∃ k, first t n b = some k ∧ k ≤ key) n b := by
  intro n
  induction n with
  | zero => exact fun _ _ => trivial
  | succ n ih =>
      intro b hb h
      obtain ⟨ks, x, ks', hkeys, hslot, hle, hgt⟩ := hpick n b hb h
      obtain ⟨l, r', hkids, rfl, hcons⟩ := List.map_eq_append_iff.mp hkeys
      obtain ⟨c, r, rfl, rfl, rfl⟩ := List.map_eq_cons_iff.mp hcons
      have hmem : ∀ d, d ∈ l ∨ d = c ∨ d ∈ r → d ∈ t.kids b := by
        intro d hd
        rw [hkids]
        simpa using hd
      have hapart := h.2.1
      rw [hkids] at hapart
      have hc := hmem c (Or.inr (Or.inl rfl))
      refine ⟨l, c, r, hkids, by rw [hslot, List.length_map], ?_, ?_, ?_,
        ih ((hP n b hb).2 c hc) (h.2.2 c hc).2⟩
      · -- below the children before it all keys are smaller than the one it stands under
        intro d hd leaf hleaf e he
        have hlt := (List.pairwise_append.mp hapart).2.2 d hd c List.mem_cons_self e
          (List.mem_flatMap.mpr ⟨leaf, hleaf, he⟩)
        rcases hle with hnil | hle
        · rw [List.map_eq_nil_iff] at hnil
          rw [hnil] at hd
          cases hd
        · exact lt_of_lt_of_le hlt hle
      · -- and below those behind it none is smaller than theirs
        intro d hd leaf hleaf e he
        have hkid := h.2.2 d (hmem d (Or.inr (Or.inr hd)))
        exact lt_of_lt_of_le (hgt d.1 (List.mem_map_of_mem hd))
          ((hkid.2.first_below hkid.1).2 e (List.mem_flatMap.mpr ⟨leaf, hleaf, he⟩))
      · -- the child starts with its key, and the first one with the key of the block
        intro hlow
        refine ⟨c.1, (h.2.2 c hc).1, ?_⟩
        rcases hle with hnil | hle
        · rw [List.map_eq_nil_iff] at hnil
          obtain ⟨k, hfirst, hk⟩ := hlow.resolve_left (not_not.mpr hnil)
          rw [first, hkids, hnil, List.nil_append, List.head?_cons] at hfirst
          rw [Option.some.inj hfirst]
          exact hk
        · exact hle

/-- **The way down to a key**: in a tree in order it ends at a leaf with the smaller keys of the
others on its left and the greater ones on its right; and it is the first leaf, or starts with a
key that is not greater. -/
theorem descend_key {n : ℕ} {b : β} (hb : P n b) (h : ordered t n b) :
    ∃ leaf up l, descend t pick n b [] = some (leaf, up) ∧
      leaves t n b = l ++ leaf :: ahead t 0 up ∧
      (∀ x ∈ l, ∀ e ∈ t.entries x, e < key) ∧
      (∀ x ∈ ahead t 0 up, ∀ e ∈ t.entries x, key < e) ∧
      (l ≠ [] → ∃ k, first t 0 leaf = some k ∧ k ≤ key) := by
  obtain ⟨leaf, up, l, r, hdown, hleaves, hahead, hl, hr, hlow⟩ := 
    descend_spec [] (cuts_key hP hpick hb h)
  have hright : ahead t 0 up = r := by rw [hahead, ahead, List.append_nil]
  rw [← hright] at hleaves hr
  exact ⟨leaf, up, l, hdown, hleaves, hl, hr, fun hne => hlow (Or.inl hne)⟩

end Key

end Order

end LevelTree

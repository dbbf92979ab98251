/-
**Binary search trees by a three-way comparison**, as the kernel's red-black trees are used:
the caller descends by its own comparison, links a new node at the leaf it falls off at, and
hands the tree to a routine that turns subtrees and changes colours.

What such a routine may do is what keeps the in-order sequence, and that is all that is known
of it (`Balancing`). A tree stands for its in-order sequence; a search is right when the
comparison with the key does not rise along it (`falling`).

A tree changes shape with every insert and delete, so no statement about one names its shape:
what is known is the sequence. `descend_spec` and `link_spec` say at which cut of the sequence
a search ends and a new node is linked, and `next_eq` and `prev_eq` step along it.

The comparison takes a node and a key, and the key may be of another type: a range, where the
nodes are ranges. A node that the key overlaps is a hit, and there may be several; a descent
then ends at one of them, and not always at the first.
-/
import Mathlib.Data.List.Basic
import Mathlib.Data.List.Pairwise
import Mathlib.Order.Basic
import Mathlib.Data.Int.Order.Basic

set_option autoImplicit false

namespace SearchTree

/-- Colours are left out: only the balancing routines look at them. -/
inductive BinTree (α : Type*) where
  | nil
  | node (left : BinTree α) (entry : α) (right : BinTree α)

variable {α κ : Type*}

/-- The sequence a tree stands for. -/
def BinTree.inorder : BinTree α → List α
  | .nil => []
  | .node l a r => l.inorder ++ a :: r.inorder

@[simp] theorem inorder_nil : (BinTree.nil : BinTree α).inorder = [] := rfl

@[simp] theorem inorder_node (l r : BinTree α) (a : α) :
    (BinTree.node l a r).inorder = l.inorder ++ a :: r.inorder := rfl

/-- The routines that keep a tree balanced. -/
structure Balancing (α : Type*) where
  insert_color : BinTree α → BinTree α
  erase : BinTree α → α → BinTree α
  inorder_insert_color : ∀ t, (insert_color t).inorder = t.inorder
  inorder_erase : ∀ (t : BinTree α) (l r : List α) (a : α), t.inorder = l ++ a :: r → a ∉ l →
    (erase t a).inorder = l ++ r

/-- A tree that leans to the right. -/
def leaning : List α → BinTree α
  | [] => .nil
  | a :: l => .node .nil a (leaning l)

theorem inorder_leaning (l : List α) : (leaning l).inorder = l := by
  induction l with
  | nil => rfl
  | cons a l ih => rw [leaning, inorder_node, ih, inorder_nil, List.nil_append]

/-- The routines that let a tree grow as it comes. -/
def unbalanced [DecidableEq α] : Balancing α where
  insert_color t := t
  erase t a := leaning (t.inorder.erase a)
  inorder_insert_color _ := rfl
  inorder_erase t l r a ht ha := by
    rw [inorder_leaning, ht, List.erase_append_right _ ha, List.erase_cons_head]

/-! ## The neighbours of a node -/

/-- What follows an entry in a sequence. -/
def after [DecidableEq α] (a : α) : List α → Option α
  | [] => none
  | b :: l => if b = a then l.head? else after a l

theorem after_append [DecidableEq α] {l r : List α} {a : α} (h : a ∉ l) :
    after a (l ++ a :: r) = r.head? := by
  induction l with
  | nil => simp [after]
  | cons b l ih =>
      rw [List.mem_cons, not_or] at h
      rw [List.cons_append, after, if_neg (Ne.symm h.1), ih h.2]

/-- The node that follows in the tree. -/
def BinTree.next [DecidableEq α] (t : BinTree α) (a : α) : Option α := after a t.inorder

/-- The node that comes before it. -/
def BinTree.prev [DecidableEq α] (t : BinTree α) (a : α) : Option α := after a t.inorder.reverse

theorem next_eq [DecidableEq α] {t : BinTree α} {l r : List α} {a : α} (ht : t.inorder = l ++ a :: r)
    (h : a ∉ l) : t.next a = r.head? := by
  rw [BinTree.next, ht, after_append h]

theorem prev_eq [DecidableEq α] {t : BinTree α} {l r : List α} {a : α} (ht : t.inorder = l ++ a :: r)
    (h : a ∉ r) : t.prev a = l.getLast? := by
  rw [BinTree.prev, ht, List.reverse_append, List.reverse_cons, List.append_assoc,
    List.singleton_append, after_append (by rwa [List.mem_reverse]), List.head?_reverse]

/-! ## Descending -/

/-- Where a descent ends: at a node the key hits, or below the last node it visited, with the
comparison made there. -/
inductive Place (α : Type*) where
  | hit (a : α)
  | off (last : Option (α × ℤ))

/-- The descent to a key; `last` is the node visited before. -/
def descend (comp : α → κ → ℤ) (key : κ) : BinTree α → Option (α × ℤ) → Place α
  | .nil, last => .off last
  | .node l a r, _ =>
      if comp a key < 0 then descend comp key l (some (a, comp a key))
      else if comp a key > 0 then descend comp key r (some (a, comp a key))
      else .hit a

/-- Linking a node at the leaf where the descent falls off; `none` when it hits. -/
def link (comp : α → κ → ℤ) (key : κ) (new : α) : BinTree α → Option (BinTree α)
  | .nil => some (.node .nil new .nil)
  | .node l a r =>
      if comp a key < 0 then (link comp key new l).map fun l' => .node l' a r
      else if comp a key > 0 then (link comp key new r).map fun r' => .node l a r'
      else none

/-- The comparison with a key does not rise along a sequence: what lies before the key comes
first, then what it hits, then what lies behind it. -/
def falling (comp : α → κ → ℤ) (key : κ) (l : List α) : Prop :=
  l.Pairwise fun a b => (comp b key > 0 → comp a key > 0) ∧ (comp a key < 0 → comp b key < 0)

/-- What stands before an entry that lies before the key lies before it too, and what stands
behind an entry that lies behind it, behind. -/
theorem falling_node {comp : α → κ → ℤ} {key : κ} {l r : List α} {a : α}
    (h : falling comp key (l ++ a :: r)) :
    falling comp key l ∧ falling comp key r ∧ (comp a key > 0 → ∀ b ∈ l, comp b key > 0) ∧
      (comp a key < 0 → ∀ b ∈ r, comp b key < 0) := by
  obtain ⟨hl, hr, hlr⟩ := List.pairwise_append.mp h
  obtain ⟨ha, hr⟩ := List.pairwise_cons.mp hr
  exact ⟨hl, hr, fun hpos b hb => (hlr b hb a List.mem_cons_self).1 hpos,
    fun hneg b hb => (ha b hb).2 hneg⟩

/-- A sequence cut at a key that hits none of it. -/
structure cut (comp : α → κ → ℤ) (key : κ) (s l r : List α) : Prop where
  eq : s = l ++ r
  before : ∀ a ∈ l, comp a key > 0
  behind : ∀ a ∈ r, comp a key < 0

theorem cut.left {comp : α → κ → ℤ} {key : κ} {s l₁ l₂ r : List α} {a : α}
    (h : cut comp key s l₁ l₂) (ha : comp a key < 0) (hr : ∀ b ∈ r, comp b key < 0) :
    cut comp key (s ++ a :: r) l₁ (l₂ ++ a :: r) := by
  refine ⟨by rw [h.eq, List.append_assoc], h.before, fun b hb => ?_⟩
  rcases List.mem_append.mp hb with h' | h'
  · exact h.behind b h'
  · rcases List.mem_cons.mp h' with rfl | h'
    · exact ha
    · exact hr b h'

theorem cut.right {comp : α → κ → ℤ} {key : κ} {s l r₁ r₂ : List α} {a : α}
    (h : cut comp key s r₁ r₂) (ha : comp a key > 0) (hl : ∀ b ∈ l, comp b key > 0) :
    cut comp key (l ++ a :: s) (l ++ a :: r₁) r₂ := by
  refine ⟨by rw [h.eq, List.append_assoc, List.cons_append], fun b hb => ?_, h.behind⟩
  rcases List.mem_append.mp hb with h' | h'
  · exact hl b h'
  · rcases List.mem_cons.mp h' with rfl | h'
    · exact ha
    · exact h.before b h'

/-- The last node visited stands at the cut: it is the last one before the key or the first one
behind it. Below no node the descent keeps what it was given. -/
def at_cut (l r : List α) (given : Option (α × ℤ)) : Option (α × ℤ) → Prop
  | none => l = [] ∧ r = [] ∧ given = none
  | some (a, ret) => (ret > 0 ∧ l.getLast? = some a) ∨ (ret < 0 ∧ r.head? = some a) ∨
      (l = [] ∧ r = [] ∧ given = some (a, ret))

/-- **Where a descent ends**: at an entry that the key hits when there is one, and else at the
cut. -/
theorem descend_spec {comp : α → κ → ℤ} {key : κ} {t : BinTree α} (h : falling comp key t.inorder)
    (given : Option (α × ℤ)) :
    (∃ a, descend comp key t given = .hit a ∧ a ∈ t.inorder ∧ comp a key = 0) ∨
      ∃ last l r, descend comp key t given = .off last ∧ cut comp key t.inorder l r ∧
        at_cut l r given last := by
  induction t generalizing given with
  | nil =>
      refine Or.inr ⟨given, [], [], rfl, ⟨rfl, by simp, by simp⟩, ?_⟩
      rcases given with - | ⟨a, ret⟩
      · exact ⟨rfl, rfl, rfl⟩
      · exact Or.inr (Or.inr ⟨rfl, rfl, rfl⟩)
  | node l a r ihl ihr =>
      rw [inorder_node] at h ⊢
      obtain ⟨hl, hr, hbefore, hbehind⟩ := falling_node h
      rcases lt_trichotomy (comp a key) 0 with hlt | heq | hgt
      · -- the key lies in the left subtree, and what follows that is the node itself
        rw [descend, if_pos hlt]
        rcases ihl hl (some (a, comp a key)) with ⟨b, hb, hmem, hhit⟩ | ⟨last, l₁, l₂, hb, hcut, hat⟩
        · exact Or.inl ⟨b, hb, List.mem_append_left _ hmem, hhit⟩
        refine Or.inr ⟨last, l₁, _, hb, hcut.left hlt (hbehind hlt), ?_⟩
        rcases last with - | ⟨b, ret⟩
        · cases hat.2.2
        rcases hat with ⟨hret, hlast⟩ | ⟨hret, hhead⟩ | ⟨-, rfl, hgiven⟩
        · exact Or.inl ⟨hret, hlast⟩
        · exact Or.inr (Or.inl ⟨hret, by rw [List.head?_append, hhead]; rfl⟩)
        · cases hgiven
          exact Or.inr (Or.inl ⟨hlt, rfl⟩)
      · refine Or.inl ⟨a, ?_, by simp, heq⟩
        rw [descend, if_neg (by omega), if_neg (by omega)]
      · -- nothing of the left subtree is hit or lies behind
        rw [descend, if_neg (by omega), if_pos hgt]
        rcases ihr hr (some (a, comp a key)) with ⟨b, hb, hmem, hhit⟩ | ⟨last, r₁, r₂, hb, hcut, hat⟩
        · exact Or.inl ⟨b, hb, List.mem_append_right _ (List.mem_cons_of_mem _ hmem), hhit⟩
        refine Or.inr ⟨last, _, r₂, hb, hcut.right hgt (hbefore hgt), ?_⟩
        rcases last with - | ⟨b, ret⟩
        · cases hat.2.2
        rcases hat with ⟨hret, hlast⟩ | ⟨hret, hhead⟩ | ⟨rfl, -, hgiven⟩
        · refine Or.inl ⟨hret, ?_⟩
          rw [List.getLast?_append, List.getLast?_cons, hlast]
          rfl
        · exact Or.inr (Or.inl ⟨hret, hhead⟩)
        · cases hgiven
          exact Or.inl ⟨hgt, by rw [List.getLast?_append]; rfl⟩

/-- **Where a node is linked**: between what lies before the key and what lies behind it; and
not at all when the key hits. -/
theorem link_spec {comp : α → κ → ℤ} {key : κ} {t : BinTree α} (h : falling comp key t.inorder)
    (new : α) :
    (link comp key new t = none ∧ ∃ a ∈ t.inorder, comp a key = 0) ∨
      ∃ t' l r, link comp key new t = some t' ∧ cut comp key t.inorder l r ∧
        t'.inorder = l ++ new :: r := by
  induction t with
  | nil => exact Or.inr ⟨_, [], [], rfl, ⟨rfl, by simp, by simp⟩, rfl⟩
  | node l a r ihl ihr =>
      rw [inorder_node] at h ⊢
      obtain ⟨hl, hr, hbefore, hbehind⟩ := falling_node h
      rcases lt_trichotomy (comp a key) 0 with hlt | heq | hgt
      · rw [link, if_pos hlt]
        rcases ihl hl with ⟨hnone, b, hb, hhit⟩ | ⟨t', l₁, l₂, hlink, hcut, hout⟩
        · exact Or.inl ⟨by rw [hnone]; rfl, b, List.mem_append_left _ hb, hhit⟩
        refine Or.inr ⟨.node t' a r, l₁, l₂ ++ a :: r.inorder, by rw [hlink]; rfl,
          hcut.left hlt (hbehind hlt), ?_⟩
        rw [inorder_node, hout, List.append_assoc]
        rfl
      · refine Or.inl ⟨?_, a, by simp, heq⟩
        rw [link, if_neg (by omega), if_neg (by omega)]
      · rw [link, if_neg (by omega), if_pos hgt]
        rcases ihr hr with ⟨hnone, b, hb, hhit⟩ | ⟨t', r₁, r₂, hlink, hcut, hout⟩
        · exact Or.inl ⟨by rw [hnone]; rfl, b,
            List.mem_append_right _ (List.mem_cons_of_mem _ hb), hhit⟩
        refine Or.inr ⟨.node l a t', l.inorder ++ a :: r₁, r₂, by rw [hlink]; rfl,
          hcut.right hgt (hbefore hgt), ?_⟩
        rw [inorder_node, hout, List.append_assoc]
        rfl

end SearchTree

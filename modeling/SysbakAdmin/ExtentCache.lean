/-
The trees of extents of `src/btrfs/extent-cache.c`, which hold the chunks of a btrfs file
system and its tree blocks, over the searches of `rbtree-utils.c`.

The red-black routines come with the system (`rbtree.h`), so they are a parameter: linking a
node and recolouring keeps the order of the nodes. Nodes are reached by pointers in the source;
here a node is the extent it carries, with the record around it as `owner`.

Addresses are 64 bits wide and so is the sum of a start and a size, which wraps for an
extent that ends at `2 ^ 64`. `call.fits` leaves these out; there an insert does not find
the extent that is in its way. For all others the comparison that drives the search falls
along the extents in order, which is what the rules of `Lib/SearchTree` ask for, and the
cache is a set of ranges that do not meet.

A run of calls is compared with a set of extents under the same calls (`cache_tree_refines`), and
the relation between tree and set is the only thing a user needs: `Volumes` never looks at a
tree.
-/
import SysbakAdmin.Lib.SearchTree
import SysbakAdmin.Lib.EventRun
import SysbakAdmin.Lib.CInt
import Mathlib.Data.Set.Insert

set_option autoImplicit false

namespace SysbakAdmin.ExtentCache

open SearchTree EventRun CInt

def EEXIST : ℤ := 17

/-! ## The searches -/

section Rbtree

variable {α κ : Type}

/-- `rb_insert`. -/
def rb_insert (rb : Balancing α) (root : BinTree α) (node : α) (comp : α → α → ℤ) : ℤ × BinTree α :=
  match link comp node node root with
  | none => (-EEXIST, root)
  | some root => (0, rb.insert_color root)

/-- `rb_search`, with `*next_ret` beside what it returns. -/
def rb_search [DecidableEq α] (root : BinTree α) (key : κ) (comp : α → κ → ℤ) :
    Option α × Option α :=
  match descend comp key root none with
  | .hit n => (some n, none)
  | .off none => (none, none)
  -- off the tree below `parent`: the next node is that one, or the one behind it
  | .off (some (parent, ret)) => (none, if ret > 0 then root.next parent else some parent)

end Rbtree

/-! ## The extents -/

structure cache_extent (ω : Type) where
  start : ℕ
  size : ℕ
  owner : ω
deriving DecidableEq

structure cache_extent_search_range where
  start : ℕ
  size : ℕ

abbrev cache_tree (ω : Type) := BinTree (cache_extent ω)

variable {ω : Type}

def cache_tree_comp_range (entry : cache_extent ω) (range : cache_extent_search_range) : ℤ :=
  -- ends are sums of `u64`, so an extent up to the last address ends at 0
  if u64 (entry.start + entry.size) ≤ range.start then 1
  else if u64 (range.start + range.size) ≤ entry.start then -1
  else 0

def cache_tree_comp_nodes (node1 node2 : cache_extent ω) : ℤ :=
  cache_tree_comp_range node1 ⟨node2.start, node2.size⟩

def cache_tree_init : cache_tree ω := .nil

def insert_cache_extent (rb : Balancing (cache_extent ω)) (tree : cache_tree ω)
    (pe : cache_extent ω) : ℤ × cache_tree ω :=
  rb_insert rb tree pe cache_tree_comp_nodes

variable [DecidableEq ω]

def lookup_cache_extent (tree : cache_tree ω) (start size : ℕ) : Option (cache_extent ω) :=
  (rb_search tree ⟨start, size⟩ cache_tree_comp_range).1

def search_cache_extent (tree : cache_tree ω) (start : ℕ) : Option (cache_extent ω) :=
  let (node, next) := rb_search tree ⟨start, 1⟩ cache_tree_comp_range
  node.or next

def first_cache_extent (tree : cache_tree ω) : Option (cache_extent ω) := tree.inorder.head?

def prev_cache_extent (tree : cache_tree ω) (pe : cache_extent ω) : Option (cache_extent ω) :=
  tree.prev pe

def next_cache_extent (tree : cache_tree ω) (pe : cache_extent ω) : Option (cache_extent ω) :=
  tree.next pe

omit [DecidableEq ω] in
def remove_cache_extent (rb : Balancing (cache_extent ω)) (tree : cache_tree ω)
    (pe : cache_extent ω) : cache_tree ω :=
  rb.erase tree pe

omit [DecidableEq ω] in
/-- Taking the first extent out leaves the others. -/
theorem remove_first {rb : Balancing (cache_extent ω)} {tree : cache_tree ω} {ce : cache_extent ω}
    (h : first_cache_extent tree = some ce) :
    tree.inorder = ce :: (remove_cache_extent rb tree ce).inorder := by
  obtain ⟨l, hl⟩ := List.head?_eq_some_iff.mp h
  rw [remove_cache_extent, rb.inorder_erase tree [] l ce hl (by simp), hl, List.nil_append]

omit [DecidableEq ω] in
/-- `cache_tree_free_extents`: what is handed to `free_func`, in order, and the tree left. -/
def cache_tree_free_extents (rb : Balancing (cache_extent ω)) (tree : cache_tree ω) :
    List (cache_extent ω) × cache_tree ω :=
  match _h : first_cache_extent tree with
  | none => ([], tree)
  | some ce =>
      let (freed, tree) := cache_tree_free_extents rb (remove_cache_extent rb tree ce)
      (ce :: freed, tree)
termination_by tree.inorder.length
decreasing_by
  rw [remove_first _h]
  exact Nat.lt_succ_self _

/-! ## Disjoint extents

For such extents the comparisons of the source fall along the row, which is what the library
asks of a search. -/

namespace cache_extent

/-- The address behind the last. -/
def stop (e : cache_extent ω) : ℕ := e.start + e.size

/-- It has an address, and none beyond 64 bits. -/
def fits (e : cache_extent ω) : Prop := 0 < e.size ∧ e.stop < 2 ^ 64

/-- An address of the extent lies in a range. -/
def meets (e : cache_extent ω) (start size : ℕ) : Prop := start < e.stop ∧ e.start < start + size

end cache_extent

/-- Extents in order, none of which meets another. With it the nodes can be searched by address,
and no address is found twice. -/
structure tidy (l : List (cache_extent ω)) : Prop where
  fits : ∀ e ∈ l, e.fits
  disjoint : l.Pairwise fun a b => a.stop ≤ b.start

omit [DecidableEq ω] in
/-- What the comparison with a range says of an extent. A range at the last address has no
end in 64 bits, and nothing lies behind it. -/
theorem comp_range {e : cache_extent ω} (he : e.fits) {start size : ℕ}
    (hrange : start + size < 2 ^ 64 ∨ start + 1 = 2 ^ 64) :
    (cache_tree_comp_range e ⟨start, size⟩ > 0 ↔ e.stop ≤ start) ∧
      (cache_tree_comp_range e ⟨start, size⟩ < 0 ↔ start < e.stop ∧ start + size ≤ e.start) := by
  have hstop : u64 (e.start + e.size) = e.stop := u64_of_lt he.2
  have hlt : e.stop < 2 ^ 64 := he.2
  have hsize : e.start < e.stop := by
    have := he.1
    unfold cache_extent.stop
    omega
  rw [cache_tree_comp_range, hstop]
  by_cases h : e.stop ≤ start
  · rw [if_pos h]
    constructor <;> constructor <;> omega
  · -- the range starts below the last address
    have hend : u64 (start + size) = start + size := u64_of_lt (by omega)
    rw [if_neg h]
    dsimp only
    rw [hend]
    split <;> constructor <;> constructor <;> omega

omit [DecidableEq ω] in
theorem comp_range_zero {e : cache_extent ω} (he : e.fits) {start size : ℕ}
    (hrange : start + size < 2 ^ 64) :
    cache_tree_comp_range e ⟨start, size⟩ = 0 ↔ e.meets start size := by
  obtain ⟨hpos, hneg⟩ := comp_range he (Or.inl hrange)
  unfold cache_extent.meets
  constructor
  · intro h
    rw [h] at hpos hneg
    omega
  · intro h
    omega

omit [DecidableEq ω] in
theorem tidy.falling {l : List (cache_extent ω)} (hl : tidy l) {start size : ℕ}
    (hrange : start + size < 2 ^ 64 ∨ start + 1 = 2 ^ 64) :
    falling cache_tree_comp_range ⟨start, size⟩ l := by
  have hfits : l.Pairwise fun a b => a.fits ∧ b.fits :=
    List.pairwise_of_forall_mem_list fun a ha b hb => ⟨hl.fits a ha, hl.fits b hb⟩
  refine (hl.disjoint.and hfits).imp fun ⟨hab, ha, hb⟩ => ?_
  obtain ⟨hpos, hneg⟩ := comp_range ha hrange
  obtain ⟨hpos', hneg'⟩ := comp_range hb hrange
  rw [hpos, hpos', hneg, hneg']
  have := ha.1
  have := hb.1
  unfold cache_extent.stop at *
  omega

omit [DecidableEq ω] in
/-- No extent stands twice. -/
theorem tidy.nodup {l : List (cache_extent ω)} (hl : tidy l) : l.Nodup := by
  have hfits : l.Pairwise fun a b => a.fits ∧ b.fits :=
    List.pairwise_of_forall_mem_list fun a ha b hb => ⟨hl.fits a ha, hl.fits b hb⟩
  refine (hl.disjoint.and hfits).imp ?_
  rintro a b ⟨hab, ha, -⟩ rfl
  have := ha.1
  unfold cache_extent.stop at hab
  omega

/-! ## A set of disjoint extents

What the trees are for: a set of extents none of which meets another, asked by address. -/

/-- The first of the extents that satisfy a condition. -/
def is_first (E : Set (cache_extent ω)) (P : cache_extent ω → Prop) :
    Option (cache_extent ω) → Prop
  | none => ∀ e ∈ E, ¬ P e
  | some e => e ∈ E ∧ P e ∧ ∀ e' ∈ E, P e' → e.start ≤ e'.start

/-- The last of them. -/
def is_last (E : Set (cache_extent ω)) (P : cache_extent ω → Prop) :
    Option (cache_extent ω) → Prop
  | none => ∀ e ∈ E, ¬ P e
  | some e => e ∈ E ∧ P e ∧ ∀ e' ∈ E, P e' → e'.start ≤ e.start

/-- A call, with what it returned. -/
inductive call (ω : Type) where
  | insert (pe : cache_extent ω) (ret : ℤ)
  | remove (pe : cache_extent ω)
  | lookup (start size : ℕ) (found : Option (cache_extent ω))
  | search (start : ℕ) (found : Option (cache_extent ω))
  | first (found : Option (cache_extent ω))
  | next (pe : cache_extent ω) (found : Option (cache_extent ω))
  | prev (pe : cache_extent ω) (found : Option (cache_extent ω))
  | free (freed : List (cache_extent ω))

/-- Extents of at least one address are put in, and no sum leaves 64 bits. -/
def call.fits : call ω → Prop
  | .insert pe _ => pe.fits
  | .lookup start size _ => start + size < 2 ^ 64
  | .search start _ => start < 2 ^ 64
  | _ => True

/-- What a call does to the set, and what it may return. A call that is refused leaves the set as
it is. -/
inductive changes : Set (cache_extent ω) → call ω → Set (cache_extent ω) → Prop
  | inserted (E : Set (cache_extent ω)) (pe : cache_extent ω) :
      (∀ e ∈ E, ¬ e.meets pe.start pe.size) → changes E (.insert pe 0) (insert pe E)
  | refused (E : Set (cache_extent ω)) (pe e : cache_extent ω) :
      e ∈ E → e.meets pe.start pe.size → changes E (.insert pe (-EEXIST)) E
  | removed (E : Set (cache_extent ω)) (pe : cache_extent ω) :
      pe ∈ E → changes E (.remove pe) (E \ {pe})
  | found (E : Set (cache_extent ω)) (start size : ℕ) (e : cache_extent ω) :
      e ∈ E → e.meets start size → changes E (.lookup start size (some e)) E
  | missed (E : Set (cache_extent ω)) (start size : ℕ) :
      (∀ e ∈ E, ¬ e.meets start size) → changes E (.lookup start size none) E
  | searched (E : Set (cache_extent ω)) (start : ℕ) (found : Option (cache_extent ω)) :
      is_first E (fun e => start < e.stop) found → changes E (.search start found) E
  | first (E : Set (cache_extent ω)) (found : Option (cache_extent ω)) :
      is_first E (fun _ => True) found → changes E (.first found) E
  | next (E : Set (cache_extent ω)) (pe : cache_extent ω) (found : Option (cache_extent ω)) :
      is_first E (fun e => pe.start < e.start) found → changes E (.next pe found) E
  | prev (E : Set (cache_extent ω)) (pe : cache_extent ω) (found : Option (cache_extent ω)) :
      is_last E (fun e => e.start < pe.start) found → changes E (.prev pe found) E
  | freed (E : Set (cache_extent ω)) (freed : List (cache_extent ω)) :
      freed.Pairwise (fun a b => a.start < b.start) → (∀ e, e ∈ freed ↔ e ∈ E) →
      changes E (.free freed) ∅

/-- A call on a tree. A node that is taken out, or asked for its neighbours, is one of it. -/
inductive returns (rb : Balancing (cache_extent ω)) :
    cache_tree ω → call ω → cache_tree ω → Prop
  | insert (t : cache_tree ω) (pe : cache_extent ω) :
      returns rb t (.insert pe (insert_cache_extent rb t pe).1) (insert_cache_extent rb t pe).2
  | remove (t : cache_tree ω) (pe : cache_extent ω) :
      pe ∈ t.inorder → returns rb t (.remove pe) (remove_cache_extent rb t pe)
  | lookup (t : cache_tree ω) (start size : ℕ) :
      returns rb t (.lookup start size (lookup_cache_extent t start size)) t
  | search (t : cache_tree ω) (start : ℕ) :
      returns rb t (.search start (search_cache_extent t start)) t
  | first (t : cache_tree ω) : returns rb t (.first (first_cache_extent t)) t
  | next (t : cache_tree ω) (pe : cache_extent ω) :
      pe ∈ t.inorder → returns rb t (.next pe (next_cache_extent t pe)) t
  | prev (t : cache_tree ω) (pe : cache_extent ω) :
      pe ∈ t.inorder → returns rb t (.prev pe (prev_cache_extent t pe)) t
  | free (t : cache_tree ω) :
      returns rb t (.free (cache_tree_free_extents rb t).1) (cache_tree_free_extents rb t).2

/-- The extents of a tree. -/
def extents (t : cache_tree ω) : Set (cache_extent ω) := {e | e ∈ t.inorder}

/-! ## What each call does -/

omit [DecidableEq ω]

theorem start_lt_stop {e : cache_extent ω} (he : e.fits) : e.start < e.stop := by
  have := he.1
  unfold cache_extent.stop
  omega

/-- Where an extent stands in the order, the others lie on both sides of it. -/
theorem tidy.around {l r : List (cache_extent ω)} {e : cache_extent ω} (h : tidy (l ++ e :: r)) :
    (∀ a ∈ l, a.stop ≤ e.start) ∧ ∀ b ∈ r, e.stop ≤ b.start := by
  obtain ⟨-, hr, hlr⟩ := List.pairwise_append.mp h.disjoint
  exact ⟨fun a ha => hlr a ha e List.mem_cons_self, (List.pairwise_cons.mp hr).1⟩

/-- Behind a cut, the first extent that satisfies a condition is the first one. -/
theorem tidy.is_first_head {l r : List (cache_extent ω)} (h : tidy (l ++ r))
    {P : cache_extent ω → Prop} (hl : ∀ e ∈ l, ¬ P e) (hr : ∀ e ∈ r, P e) :
    is_first {e | e ∈ l ++ r} P r.head? := by
  cases r with
  | nil => exact fun e he => hl e (by simpa using he)
  | cons a r =>
      refine ⟨by simp, hr a List.mem_cons_self, fun e he hP => ?_⟩
      rcases List.mem_append.mp he with h' | h'
      · exact absurd hP (hl e h')
      · rcases List.mem_cons.mp h' with rfl | h'
        · exact le_rfl
        · have := h.around.2 e h'
          have := start_lt_stop (h.fits a (by simp))
          omega

/-- Before a cut, the last one is the last. -/
theorem tidy.is_last_getLast {l r : List (cache_extent ω)} (h : tidy (l ++ r))
    {P : cache_extent ω → Prop} (hl : ∀ e ∈ l, P e) (hr : ∀ e ∈ r, ¬ P e) :
    is_last {e | e ∈ l ++ r} P l.getLast? := by
  rcases List.eq_nil_or_concat l with rfl | ⟨l, a, rfl⟩
  · exact fun e he => hr e (by simpa using he)
  · rw [List.concat_eq_append] at *
    rw [List.getLast?_append, show [a].getLast?.or l.getLast? = some a from rfl]
    have h' : tidy (l ++ a :: r) := by simpa using h
    refine ⟨by simp, hl a (by simp), fun e he hP => ?_⟩
    simp only [Set.mem_ofPred_eq, List.mem_append, List.mem_singleton] at he
    rcases he with (hmem | rfl) | hmem
    · have := h'.around.1 e hmem
      have := start_lt_stop (h'.fits e (List.mem_append_left _ hmem))
      omega
    · exact le_rfl
    · exact absurd hP (hr e hmem)

/-- `insert_cache_extent` puts the extent where it belongs, or refuses it. The search for its
place compares with the whole range, so what it would overlap is met on the way. -/
theorem insert_spec (rb : Balancing (cache_extent ω)) {t : cache_tree ω} (h : tidy t.inorder)
    {pe : cache_extent ω} (hpe : pe.fits) :
    (insert_cache_extent rb t pe = (-EEXIST, t) ∧ ∃ e ∈ t.inorder, e.meets pe.start pe.size) ∨
      ∃ t' l r, insert_cache_extent rb t pe = (0, t') ∧ t.inorder = l ++ r ∧
        t'.inorder = l ++ pe :: r ∧ (∀ e ∈ l, e.stop ≤ pe.start) ∧ ∀ e ∈ r, pe.stop ≤ e.start := by
  have hrange : pe.start + pe.size < 2 ^ 64 := hpe.2
  have hfalling : falling cache_tree_comp_nodes pe t.inorder := h.falling (Or.inl hrange)
  rcases link_spec hfalling pe with ⟨hnone, e, he, hhit⟩ | ⟨t', l, r, hsome, hcut, hout⟩
  · refine Or.inl ⟨by rw [insert_cache_extent, rb_insert, hnone], e, he, ?_⟩
    exact (comp_range_zero (h.fits e he) hrange).mp hhit
  · refine Or.inr ⟨rb.insert_color t', l, r, by rw [insert_cache_extent, rb_insert, hsome], hcut.eq,
      by rw [rb.inorder_insert_color, hout], fun e he => ?_, fun e he => ?_⟩
    · have hfits := h.fits e (hcut.eq ▸ List.mem_append_left _ he)
      exact (comp_range hfits (Or.inl hrange)).1.mp (hcut.before e he)
    · have hfits := h.fits e (hcut.eq ▸ List.mem_append_right _ he)
      exact ((comp_range hfits (Or.inl hrange)).2.mp (hcut.behind e he)).2

/-- The extents with one more put in between are in order again. -/
theorem tidy.put {l r : List (cache_extent ω)} (h : tidy (l ++ r)) {pe : cache_extent ω}
    (hpe : pe.fits) (hl : ∀ e ∈ l, e.stop ≤ pe.start) (hr : ∀ e ∈ r, pe.stop ≤ e.start) :
    tidy (l ++ pe :: r) := by
  obtain ⟨hdl, hdr, hlr⟩ := List.pairwise_append.mp h.disjoint
  refine ⟨fun e he => ?_, List.pairwise_append.mpr ⟨hdl, List.pairwise_cons.mpr ⟨hr, hdr⟩, ?_⟩⟩
  · rcases List.mem_append.mp he with h' | h'
    · exact h.fits e (List.mem_append_left _ h')
    · rcases List.mem_cons.mp h' with rfl | h'
      · exact hpe
      · exact h.fits e (List.mem_append_right _ h')
  · intro a ha b hb
    rcases List.mem_cons.mp hb with rfl | hb
    · exact hl a ha
    · exact hlr a ha b hb

/-- What is left of disjoint extents is disjoint. -/
theorem tidy.sublist {l l' : List (cache_extent ω)} (h : tidy l) (hs : l'.Sublist l) : tidy l' :=
  ⟨fun e he => h.fits e (hs.subset he), h.disjoint.sublist hs⟩

/-- An extent of the tree, with what stands around it. -/
theorem tidy.split {t : cache_tree ω} (h : tidy t.inorder) {pe : cache_extent ω}
    (hpe : pe ∈ t.inorder) : ∃ l r, t.inorder = l ++ pe :: r ∧ pe ∉ l ∧ pe ∉ r := by
  obtain ⟨l, r, hlr⟩ := List.append_of_mem hpe
  have hnodup := h.nodup
  rw [hlr, List.nodup_append] at hnodup
  refine ⟨l, r, hlr, fun hmem => ?_, (List.nodup_cons.mp hnodup.2.1).1⟩
  exact hnodup.2.2 pe hmem pe List.mem_cons_self rfl

/-- `remove_cache_extent` takes out that one. -/
theorem remove_spec (rb : Balancing (cache_extent ω)) {t : cache_tree ω} (h : tidy t.inorder)
    {pe : cache_extent ω} (hpe : pe ∈ t.inorder) :
    tidy (remove_cache_extent rb t pe).inorder ∧
      extents (remove_cache_extent rb t pe) = extents t \ {pe} := by
  obtain ⟨l, r, hlr, hl, hr⟩ := h.split hpe
  have hleft : (remove_cache_extent rb t pe).inorder = l ++ r := rb.inorder_erase t l r pe hlr hl
  constructor
  · rw [hleft]
    rw [hlr] at h
    exact h.sublist ((List.sublist_cons_self pe r).append_left l)
  · ext e
    simp only [extents, hleft, hlr, Set.mem_ofPred_eq, Set.mem_sdiff, Set.mem_singleton_iff,
      List.mem_append, List.mem_cons]
    constructor
    · rintro (he | he)
      · exact ⟨Or.inl he, fun heq => hl (heq ▸ he)⟩
      · exact ⟨Or.inr (Or.inr he), fun heq => hr (heq ▸ he)⟩
    · rintro ⟨he | rfl | he, hne⟩
      · exact Or.inl he
      · exact absurd rfl hne
      · exact Or.inr he

/-- `cache_tree_free_extents` hands out every extent, in order, and leaves none. -/
theorem free_extents_spec (rb : Balancing (cache_extent ω)) (t : cache_tree ω) :
    (cache_tree_free_extents rb t).1 = t.inorder ∧
      (cache_tree_free_extents rb t).2.inorder = [] := by
  fun_induction cache_tree_free_extents rb t with
  | case1 t hnone => exact ⟨(List.head?_eq_none_iff.mp hnone).symm, List.head?_eq_none_iff.mp hnone⟩
  | case2 t ce hsome freed left heq ih =>
      rw [heq] at ih
      obtain ⟨hfreed, hleft⟩ := ih
      dsimp only at hfreed hleft ⊢
      exact ⟨by rw [hfreed, ← remove_first hsome], hleft⟩

/-- `insert_cache_extent`, as a set sees it. -/
theorem insert_changes (rb : Balancing (cache_extent ω)) {t : cache_tree ω} (h : tidy t.inorder)
    {pe : cache_extent ω} (hpe : pe.fits) :
    tidy (insert_cache_extent rb t pe).2.inorder ∧
      changes (extents t) (.insert pe (insert_cache_extent rb t pe).1)
        (extents (insert_cache_extent rb t pe).2) := by
  rcases insert_spec rb h hpe with ⟨heq, e, he, hmeets⟩ | ⟨t', l, r, heq, hlr, hout, hl, hr⟩
  · rw [heq]
    exact ⟨h, .refused _ _ e he hmeets⟩
  · rw [heq]
    dsimp only
    rw [hlr] at h
    have hset : extents t' = insert pe (extents t) := by
      ext e
      simp only [extents, hout, hlr, Set.mem_ofPred_eq, Set.mem_insert_iff, List.mem_append,
        List.mem_cons]
      tauto
    rw [hout, hset]
    refine ⟨h.put hpe hl hr, .inserted _ _ ?_⟩
    -- what lies on either side does not meet it
    intro e he hmeets
    have he : e ∈ l ++ r := hlr ▸ he
    obtain ⟨hlt, hlt'⟩ := hmeets
    rcases List.mem_append.mp he with h' | h'
    · have := hl e h'
      omega
    · have : pe.stop ≤ e.start := hr e h'
      unfold cache_extent.stop at this
      omega

variable [DecidableEq ω]

/-- `rb_search` over disjoint extents: what the range hits, and else the first extent behind. -/
theorem rb_search_spec {t : cache_tree ω} (h : tidy t.inorder) {start size : ℕ}
    (hrange : start + size < 2 ^ 64 ∨ start + 1 = 2 ^ 64) :
    (∃ e ∈ t.inorder, rb_search t ⟨start, size⟩ cache_tree_comp_range = (some e, none) ∧
        cache_tree_comp_range e ⟨start, size⟩ = 0) ∨
      ∃ l r, t.inorder = l ++ r ∧ (∀ e ∈ l, e.stop ≤ start) ∧
        (∀ e ∈ r, start < e.stop ∧ start + size ≤ e.start) ∧
        rb_search t ⟨start, size⟩ cache_tree_comp_range = (none, r.head?) := by
  rcases descend_spec (h.falling hrange) none with ⟨e, hhit, he, hzero⟩ | ⟨last, l, r, hoff, hcut, hat⟩
  · exact Or.inl ⟨e, he, by rw [rb_search, hhit], hzero⟩
  refine Or.inr ⟨l, r, hcut.eq, fun e he => ?_, fun e he => ?_, ?_⟩
  · have hfits := h.fits e (hcut.eq ▸ List.mem_append_left _ he)
    exact (comp_range hfits hrange).1.mp (hcut.before e he)
  · have hfits := h.fits e (hcut.eq ▸ List.mem_append_right _ he)
    exact (comp_range hfits hrange).2.mp (hcut.behind e he)
  · rw [rb_search, hoff]
    rcases last with - | ⟨parent, ret⟩
    · rw [hat.2.1]
      rfl
    rcases hat with ⟨hret, hlast⟩ | ⟨hret, hhead⟩ | ⟨-, -, hgiven⟩
    · -- the last one before the range, and `rb_next` of it
      obtain ⟨l', rfl⟩ := List.getLast?_eq_some_iff.mp hlast
      have hnodup := h.nodup
      have heq : t.inorder = l' ++ parent :: r := by simpa using hcut.eq
      rw [heq, List.nodup_append] at hnodup
      have hparent : parent ∉ l' := fun hmem =>
        hnodup.2.2 parent hmem parent List.mem_cons_self rfl
      dsimp only
      rw [if_pos hret, next_eq heq hparent]
    · dsimp only
      rw [if_neg (by omega), hhead]
    · cases hgiven

/-- `search_cache_extent` finds the first extent that ends behind an address. Disjoint extents end
in the order in which they start, so the first to end behind the address is a neighbour of the
place where the search falls off. -/
theorem search_spec {t : cache_tree ω} (h : tidy t.inorder) {start : ℕ} (hstart : start < 2 ^ 64) :
    is_first (extents t) (fun e => start < e.stop) (search_cache_extent t start) := by
  have hrange : start + 1 < 2 ^ 64 ∨ start + 1 = 2 ^ 64 := by omega
  rcases rb_search_spec h hrange with ⟨e, he, heq, hzero⟩ | ⟨l, r, hlr, hl, hr, heq⟩
  · rw [search_cache_extent, heq]
    obtain ⟨hpos, hneg⟩ := comp_range (h.fits e he) hrange
    have hstop : start < e.stop := by omega
    refine ⟨he, hstop, fun e' he' hlt => ?_⟩
    obtain ⟨l, r, hlr, -, -⟩ := h.split he
    rw [hlr] at h
    have he' : e' ∈ l ++ e :: r := hlr ▸ he'
    rcases List.mem_append.mp he' with h' | h'
    · have := h.around.1 e' h'
      omega
    · rcases List.mem_cons.mp h' with rfl | h'
      · exact le_rfl
      · have := h.around.2 e' h'
        have := start_lt_stop (h.fits e (by simp))
        omega
  · rw [search_cache_extent, heq]
    dsimp only
    rw [Option.none_or, extents, hlr]
    rw [hlr] at h
    exact h.is_first_head (fun e he => by have := hl e he; omega) fun e he => (hr e he).1

/-- `lookup_cache_extent` finds an extent that meets a range, when there is one. Of several the
first in order need not be the one, so it is only said that it meets the range. -/
theorem lookup_spec {t : cache_tree ω} (h : tidy t.inorder) {start size : ℕ}
    (hrange : start + size < 2 ^ 64) :
    changes (extents t) (.lookup start size (lookup_cache_extent t start size)) (extents t) := by
  rcases rb_search_spec h (Or.inl hrange) with ⟨e, he, heq, hzero⟩ | ⟨l, r, hlr, hl, hr, heq⟩
  · rw [lookup_cache_extent, heq]
    exact .found _ _ _ e he ((comp_range_zero (h.fits e he) hrange).mp hzero)
  · rw [lookup_cache_extent, heq]
    refine .missed _ _ _ fun e he hmeets => ?_
    have he : e ∈ l ++ r := hlr ▸ he
    obtain ⟨hlt, hlt'⟩ := hmeets
    rcases List.mem_append.mp he with h' | h'
    · have := hl e h'
      omega
    · have := (hr e h').2
      omega

/-- `next_cache_extent` goes to the extent that follows. -/
theorem next_spec {t : cache_tree ω} (h : tidy t.inorder) {pe : cache_extent ω}
    (hpe : pe ∈ t.inorder) :
    is_first (extents t) (fun e => pe.start < e.start) (next_cache_extent t pe) := by
  obtain ⟨l, r, hlr, hl, -⟩ := h.split hpe
  rw [next_cache_extent, next_eq hlr hl, extents, hlr]
  rw [hlr] at h
  obtain ⟨hbefore, hbehind⟩ := h.around
  have hlen := start_lt_stop (h.fits pe (by simp))
  rw [List.append_cons] at h ⊢
  refine h.is_first_head (fun e he => ?_) fun e he => ?_
  · rcases List.mem_append.mp he with h' | h'
    · have := hbefore e h'
      have := start_lt_stop (h.fits e (List.mem_append_left _ he))
      omega
    · rw [List.mem_singleton.mp h']
      exact lt_irrefl _
  · have := hbehind e he
    omega

/-- `prev_cache_extent` goes to the one before. -/
theorem prev_spec {t : cache_tree ω} (h : tidy t.inorder) {pe : cache_extent ω}
    (hpe : pe ∈ t.inorder) :
    is_last (extents t) (fun e => e.start < pe.start) (prev_cache_extent t pe) := by
  obtain ⟨l, r, hlr, -, hr⟩ := h.split hpe
  rw [prev_cache_extent, prev_eq hlr hr, extents, hlr]
  rw [hlr] at h
  obtain ⟨hbefore, hbehind⟩ := h.around
  have hlen := start_lt_stop (h.fits pe (by simp))
  refine h.is_last_getLast (fun e he => ?_) fun e he => ?_
  · have := hbefore e he
    have := start_lt_stop (h.fits e (List.mem_append_left _ he))
    omega
  · rcases List.mem_cons.mp he with rfl | h'
    · exact lt_irrefl _
    · have := hbehind e h'
      omega

/-- One call: the tree stays in order, and a set of extents sees the same call. It is the step of
the simulation, one case for each call. -/
theorem returns_changes (rb : Balancing (cache_extent ω)) {t t' : cache_tree ω} {c : call ω}
    (hc : c.fits) (h : tidy t.inorder) (hcall : returns rb t c t') :
    tidy t'.inorder ∧ changes (extents t) c (extents t') := by
  cases hcall with
  | insert pe => exact insert_changes rb h hc
  | remove pe hpe =>
      obtain ⟨htidy, heq⟩ := remove_spec rb h hpe
      exact ⟨htidy, heq ▸ .removed _ _ hpe⟩
  | lookup start size => exact ⟨h, lookup_spec h hc⟩
  | search start => exact ⟨h, .searched _ _ _ (search_spec h hc)⟩
  | first =>
      refine ⟨h, .first _ _ ?_⟩
      rw [first_cache_extent, extents]
      exact tidy.is_first_head (l := []) h (by simp) (by simp)
  | next pe hpe => exact ⟨h, .next _ _ _ (next_spec h hpe)⟩
  | prev pe hpe => exact ⟨h, .prev _ _ _ (prev_spec h hpe)⟩
  | free =>
      obtain ⟨hfreed, hleft⟩ := free_extents_spec rb t
      have hempty : extents (cache_tree_free_extents rb t).2 = ∅ := by
        ext e
        simp [extents, hleft]
      rw [hleft, hempty, hfreed]
      refine ⟨⟨by simp, .nil⟩, .freed _ _ ?_ fun e => Iff.rfl⟩
      have hfits : t.inorder.Pairwise fun a _ => a.fits :=
        List.pairwise_of_forall_mem_list fun a ha _ _ => h.fits a ha
      refine (h.disjoint.and hfits).imp fun ⟨hab, ha⟩ => ?_
      exact lt_of_lt_of_le (start_lt_stop ha) hab

/-- **The trees of extents**: over any run of calls, started on an empty tree, every call returns
and does what it would to a set of disjoint extents, whatever way the tree is balanced. Each
operation has a specification over the row of extents and none of them mentions a shape, so the
balancing, which keeps the row, has no part in the proof. -/
theorem cache_tree_refines (rb : Balancing (cache_extent ω)) {calls : List (call ω)}
    {t : cache_tree ω} (hrun : run (returns rb) cache_tree_init calls t)
    (hfits : ∀ c ∈ calls, c.fits) :
    run changes ∅ calls (extents t) ∧ tidy t.inorder := by
  have hstep : ∀ t c t' E, call.fits c → (tidy (BinTree.inorder t) ∧ extents t = E) →
      returns rb t c t' → ∃ E', changes E c E' ∧ (tidy (BinTree.inorder t') ∧ extents t' = E') := by
    rintro t c t' E hc ⟨htidy, rfl⟩ hcall
    obtain ⟨htidy', hchanges⟩ := returns_changes rb hc htidy hcall
    exact ⟨_, hchanges, htidy', rfl⟩
  have hinit : tidy (BinTree.inorder (cache_tree_init : cache_tree ω)) ∧
      extents (cache_tree_init : cache_tree ω) = ∅ := by
    refine ⟨⟨by simp [cache_tree_init], .nil⟩, ?_⟩
    ext e
    simp [extents, cache_tree_init]
  obtain ⟨E, hchanges, htidy, rfl⟩ := run_simulates hstep hrun hfits ∅ hinit
  exact ⟨hchanges, htidy⟩

/-- Two chunks, a third that meets the second and is refused, and a search between the two. -/
theorem two_chunks :
    ∃ t : cache_tree Unit, run changes ∅
      [.insert ⟨0, 8, ()⟩ 0, .insert ⟨16, 8, ()⟩ 0, .insert ⟨20, 8, ()⟩ (-EEXIST),
        .search 10 (some ⟨16, 8, ()⟩)] (extents t) ∧ tidy t.inorder := by
  refine ⟨_, cache_tree_refines unbalanced (.cons (.insert _ _) (.cons (.insert _ _)
    (.cons (.insert _ _) (.cons (.search _ _) (.nil _))))) ?_⟩
  simp [call.fits, cache_extent.fits, cache_extent.stop]

end SysbakAdmin.ExtentCache

/-
What is read off the tree of roots of a btrfs file system over `btrfs_search_slot` and
`btrfs_next_leaf`: the roots that `read_bitmap_info` goes through, and the one that
`btrfs_find_last_root` finds.

A search leads to the items that are not before its key (`search_items`). In a sound tree the loop
comes to each of them once and in order; so what `Btrfs` is given as the items that are found are
those that the code finds (`found_items_searched`).

The loop of `read_bitmap_info` calls `btrfs_next_leaf` when it has come to the end of a leaf
and goes on at its first slot, so one pass is one item and the measure is the number of
items ahead. `btrfs_find_last_root` searches for a key that no item has and steps back by
one; what it finds is the greatest item below, whatever its type, and that is why its
specification speaks of the items of the object and not of its root items only.
-/
import SysbakAdmin.BtrfsCursor
import SysbakAdmin.BtrfsMarks

set_option autoImplicit false

namespace SysbakAdmin.BtrfsScan

open CMemory LevelTree BtrfsTree BtrfsCursor
open Btrfs (btrfs_disk_key btrfs_key_ptr BTRFS_ROOT_ITEM_KEY)
open Volumes (ENOENT)

variable {δ : Type}

/-! ## The code -/

/-- The items of a leaf. -/
def items : tree_block δ → List (leaf_item δ)
  | .leaf _ items => items
  | .node _ _ _ => []

/-- The item at a slot of the leaf of a path. -/
def item_at (p : btrfs_path δ) (slot : ℕ) : Run (leaf_item δ) :=
  match p.nodes 0 with
  | none => .error .outOfBounds
  | some leaf =>
      match (items leaf)[slot]? with
      | none => .error .outOfBounds
      | some item => .ok item

section Reading

variable (read_tree_block : reader δ)

/-- The loop of `read_bitmap_info` over the tree of roots: the items it comes to. Behind
`btrfs_next_leaf` it does not ask again whether the slot holds one. -/
def scan_roots : ℕ → btrfs_path δ → Run (List (leaf_item δ))
  | 0, _ => .error .diverged
  | fuel + 1, p =>
      match p.nodes 0 with
      | none => .error .outOfBounds
      | some leaf =>
          let (ret, p) := if p.slots 0 ≥ btrfs_header_nritems leaf then
            btrfs_next_leaf read_tree_block p else (0, p)
          if ret ≠ 0 then .ok []
          else do
            let item ← item_at p (p.slots 0)
            let rest ← scan_roots fuel (p.set_slot 0 (p.slots 0 + 1))
            .ok (item :: rest)

/-- The items `read_bitmap_info` comes to from the first root item on. What `btrfs_search_slot`
returns is not asked for. -/
def found_items (nodesize fuel rounds : ℕ) (node : tree_block δ) : Run (List (leaf_item δ)) := do
  let (_, p) ← btrfs_search_slot read_tree_block nodesize fuel node ⟨0, BTRFS_ROOT_ITEM_KEY, 0⟩
    btrfs_init_path
  scan_roots read_tree_block rounds p

/-- `btrfs_find_last_root`: what it returns, and the item. It asks for the object of what it
finds, not for the type. -/
def btrfs_find_last_root (nodesize fuel : ℕ) (node : tree_block δ) (objectid : ℕ) :
    Run (ℤ × Option (leaf_item δ)) := do
  let (ret, p) ← btrfs_search_slot read_tree_block nodesize fuel node
    ⟨objectid, BTRFS_ROOT_ITEM_KEY, 2 ^ 64 - 1⟩ btrfs_init_path
  if ret < 0 then .ok (ret, none)
  else if p.slots 0 = 0 then .ok (-ENOENT, none)
  else if ret = 0 then .ok (-1, none)
  else do
    let item ← item_at p (p.slots 0 - 1)
    if item.key.objectid ≠ objectid then .ok (-ENOENT, none) else .ok (0, some item)

end Reading

/-! ## The items from a key on

Leaves and slots are forgotten here: a search gives a row of items, cut at the key. -/

section Scan

variable {read_tree_block : reader δ} {nodesize height : ℕ}

variable (read_tree_block) in
/-- The items below a block of a level, from left to right. -/
def items_below (n : ℕ) (b : tree_block δ) : List (leaf_item δ) :=
  (leaves (layout read_tree_block) n b).flatMap items

theorem item_ranks_eq (b : tree_block δ) :
    item_ranks b = (items b).map fun item => rank item.key := by
  cases b <;> rfl

theorem mem_item_ranks {b : tree_block δ} {item : leaf_item δ} (h : item ∈ items b) :
    rank item.key ∈ item_ranks b := by
  rw [item_ranks_eq]
  exact List.mem_map_of_mem h

theorem sound_leaf {b : tree_block δ} (h : sound_block read_tree_block nodesize height 0 b) :
    b.keys = (items b).map leaf_item.key ∧ btrfs_header_nritems b = (items b).length ∧
      rising b.keys := by
  obtain ⟨⟨parent, bytenr, items, rfl, hclean⟩, -⟩ := h
  exact ⟨rfl, rfl, check_leaf_rising hclean⟩

/-- The leaves to the right of a path hold items. -/
theorem items_of_ahead {p : btrfs_path δ} {leaf : tree_block δ} {slot : ℕ}
    {up : List (List ((ℕ ×ₗ ℕ ×ₗ ℕ) × tree_block δ))}
    (h : at_leaf read_tree_block nodesize height p leaf slot up) {x : tree_block δ}
    (hx : x ∈ ahead (layout read_tree_block) 0 up) : items x ≠ [] := by
  have hpos : 0 < height := by
    rw [← h.levels]
    refine List.length_pos_iff.mpr fun hnil => ?_
    rw [hnil] at hx
    cases hx
  intro hnil
  have hfirst := (ahead_of sound_handed_down h.right_sound hx).2 hpos
  apply hfirst
  change (item_ranks x).head? = none
  rw [item_ranks_eq, hnil]
  rfl

/-- **A search** leads to the items that are not before the key. It returns 0 exactly when the
first of them has the key. In its leaf the last one that is before stands in front of the slot;
when the slot is the first of the leaf and the key is not there, no item is before it. What
`btrfs_search_slot_spec` says of keys and leaves is here said of the items in a row, cut at the
slot; that is all the two readers use of it. -/
theorem search_items {fuel : ℕ} {node : tree_block δ}
    (h : sound read_tree_block nodesize height none node) (hmax : height + 1 < BTRFS_MAX_LEVEL)
    (hfuel : height < fuel) (key : btrfs_disk_key) :
    ∃ ret leaf slot up p before behind,
      btrfs_search_slot read_tree_block nodesize fuel node key btrfs_init_path = .ok (ret, p) ∧
      at_leaf read_tree_block nodesize height p leaf slot up ∧
      behind = (items leaf).drop slot ++ (ahead (layout read_tree_block) 0 up).flatMap items ∧
      items_below read_tree_block height node = before ++ behind ∧
      (∀ item ∈ before, rank item.key < rank key) ∧ (∀ item ∈ behind, rank key ≤ rank item.key) ∧
      (ret = 0 ∧ (∃ item ∈ behind, item.key = key) ∨ ret = 1 ∧ ∀ item ∈ behind, item.key ≠ key) ∧
      (slot ≠ 0 → ∃ item, (items leaf)[slot - 1]? = some item ∧ before.getLast? = some item) ∧
      (slot = 0 → ret = 1 → before = []) := by
  obtain ⟨leaf, up, l, p, hsearch, hat, hleaves, hbefore, hbehind, hlow⟩ :=
    btrfs_search_slot_spec h hmax hfuel key
  obtain ⟨hkeys, -, hrising⟩ := sound_leaf hat.leaf_sound
  obtain ⟨lk, rk, hsplit, hlk, hends⟩ := bin_search_spec hrising key
  have hslot : (bin_search leaf key).2 = lk.length := by
    rcases hends with ⟨heq, -⟩ | ⟨heq, -⟩ <;> rw [heq]
  rw [hslot] at hat
  -- the keys before the slot are those of the items before it
  rw [hkeys] at hsplit
  obtain ⟨front, back, hitems, rfl, rfl⟩ := List.map_eq_append_iff.mp hsplit
  rw [List.length_map] at hat hslot
  have htake : (items leaf).take front.length = front := by rw [hitems, List.take_left]
  have hdrop : (items leaf).drop front.length = back := by rw [hitems, List.drop_left]
  have hback : ∀ item ∈ back, rank key ≤ rank item.key := by
    rw [hkeys, hitems, List.map_append, rising] at hrising
    intro item hitem
    rcases hends with ⟨-, hhead⟩ | ⟨-, hgt⟩
    · obtain ⟨rest, hrest⟩ := List.head?_eq_some_iff.mp hhead
      have hsorted := (List.pairwise_append.mp hrising).2.1
      have hmem := List.mem_map_of_mem (f := leaf_item.key) hitem
      rw [hrest] at hsorted hmem
      rcases List.mem_cons.mp hmem with heq | hmem
      · rw [heq]
      · exact le_of_lt ((List.pairwise_cons.mp hsorted).1 _ hmem)
    · exact le_of_lt (hgt _ (List.mem_map_of_mem hitem))
  have hright : ∀ item ∈ (ahead (layout read_tree_block) 0 up).flatMap items,
      rank key < rank item.key := by
    intro item hitem
    obtain ⟨x, hx, hitem⟩ := List.mem_flatMap.mp hitem
    exact hbehind x hx _ (mem_item_ranks hitem)
  refine ⟨(bin_search leaf key).1, leaf, front.length, up, p, l.flatMap items ++ front,
    back ++ (ahead (layout read_tree_block) 0 up).flatMap items, hsearch, hat, by rw [hdrop], ?_, ?_,
    ?_, ?_, ?_, ?_⟩
  · rw [items_below, hleaves, List.flatMap_append, List.flatMap_cons, hitems]
    simp only [List.append_assoc]
  · intro item hitem
    rcases List.mem_append.mp hitem with hitem | hitem
    · obtain ⟨x, hx, hitem⟩ := List.mem_flatMap.mp hitem
      exact hbefore x hx _ (mem_item_ranks hitem)
    · exact hlk _ (List.mem_map_of_mem hitem)
  · intro item hitem
    rcases List.mem_append.mp hitem with hitem | hitem
    · exact hback item hitem
    · exact le_of_lt (hright item hitem)
  · rcases hends with ⟨heq, hhead⟩ | ⟨heq, hgt⟩
    · rw [List.head?_map] at hhead
      obtain ⟨item, hhead, hkey⟩ := Option.map_eq_some_iff.mp hhead
      exact Or.inl ⟨by rw [heq],
        ⟨item, List.mem_append_left _ (List.mem_of_mem_head? hhead), hkey⟩⟩
    · refine Or.inr ⟨by rw [heq], fun item hitem hkey => ?_⟩
      have hlt : rank key < rank item.key := by
        rcases List.mem_append.mp hitem with hitem | hitem
        · exact hgt _ (List.mem_map_of_mem hitem)
        · exact hright item hitem
      rw [hkey] at hlt
      exact lt_irrefl _ hlt
  · -- the last item before the slot is the last one before the key
    intro hpos
    obtain ⟨last, hlast⟩ := Option.ne_none_iff_exists'.mp
      (mt List.getLast?_eq_none_iff.mp (mt List.length_eq_zero_iff.mpr hpos))
    refine ⟨last, ?_, ?_⟩
    · rw [hitems, List.getElem?_append_left (by omega), ← List.getLast?_eq_getElem?]
      exact hlast
    · rw [List.getLast?_append, hlast]
      rfl
  · -- a leaf that is not the first one starts with a key that is not behind the key
    intro hzero hret
    have hfront : front = [] := List.length_eq_zero_iff.mp hzero
    have hnil : l = [] := by
      by_contra hne
      obtain ⟨k, hhead, hle⟩ := hlow hne
      rw [item_ranks_eq, hitems, hfront, List.nil_append, List.head?_map] at hhead
      obtain ⟨item, hfirst, rfl⟩ := Option.map_eq_some_iff.mp hhead
      rcases hends with ⟨heq, -⟩ | ⟨-, hgt⟩
      · rw [heq] at hret
        cases hret
      · exact absurd (hgt _ (List.mem_map_of_mem (List.mem_of_mem_head? hfirst))) (not_lt.mpr hle)
    rw [hnil, hfront]
    rfl

theorem item_at_eq {p : btrfs_path δ} {leaf : tree_block δ} {slot : ℕ} {item : leaf_item δ}
    (hnode : p.nodes 0 = some leaf) (hitem : (items leaf)[slot]? = some item) :
    item_at p slot = .ok item := by
  rw [item_at, hnode]
  dsimp only
  rw [hitem]

/-! ## The roots -/

/-- **The loop of `read_bitmap_info`** comes to the items from its slot on, each once and in
order. The induction is on the items ahead: a pass takes one of them from the slot, or goes on to
the next leaf and takes the first there. -/
theorem scan_roots_spec : ∀ {rounds : ℕ} {p : btrfs_path δ} {leaf : tree_block δ} {slot : ℕ}
    {up : List (List ((ℕ ×ₗ ℕ ×ₗ ℕ) × tree_block δ))} {behind : List (leaf_item δ)},
    at_leaf read_tree_block nodesize height p leaf slot up →
    behind = (items leaf).drop slot ++ (ahead (layout read_tree_block) 0 up).flatMap items →
    behind.length < rounds → scan_roots read_tree_block rounds p = .ok behind := by
  intro rounds
  induction rounds with
  | zero => exact fun _ _ h => absurd h (Nat.not_lt_zero _)
  | succ rounds ih =>
      intro p leaf slot up behind hat hbehind hrounds
      have hnritems := (sound_leaf hat.leaf_sound).2.1
      rw [scan_roots, hat.node]
      dsimp only
      rw [hat.slot, hnritems]
      by_cases hend : slot ≥ (items leaf).length
      · rw [if_pos hend]
        rw [List.drop_of_length_le hend, List.nil_append] at hbehind
        rcases btrfs_next_leaf_spec hat with ⟨hlast, hnext⟩ | ⟨leaf', up', p', hnext, hahead, hat'⟩
        · rw [hnext, hbehind, hlast]
          rfl
        · obtain ⟨item, rest, hitems⟩ := List.exists_cons_of_ne_nil
            (items_of_ahead hat (hahead ▸ List.mem_cons_self))
          rw [hahead, List.flatMap_cons, hitems, List.cons_append] at hbehind
          rw [hbehind, List.length_cons] at hrounds
          have hrest := ih (hat'.moved 1)
            (show rest ++ _ = (items leaf').drop 1 ++ _ by rw [hitems]; rfl)
            (Nat.lt_of_succ_lt_succ hrounds)
          rw [hnext]
          dsimp only
          rw [if_neg (by decide), hat'.slot, item_at_eq hat'.node (by rw [hitems]; rfl), ok_bind,
            hrest, ok_bind, hbehind]
      · rw [if_neg hend]
        have hlt := not_le.mp hend
        rw [List.drop_eq_getElem_cons hlt, List.cons_append] at hbehind
        rw [hbehind, List.length_cons] at hrounds
        have hrest := ih (hat.moved (slot + 1)) rfl (Nat.lt_of_succ_lt_succ hrounds)
        dsimp only
        rw [if_neg (by decide), hat.slot, item_at_eq hat.node (List.getElem?_eq_getElem hlt),
          ok_bind, hrest, ok_bind, hbehind]

theorem keys_below {n : ℕ} {b : tree_block δ} :
    below (layout read_tree_block) n b
      = (items_below read_tree_block n b).map fun item => rank item.key := by
  rw [below, items_below, List.map_flatMap]
  exact congrArg (List.flatMap · _) (funext item_ranks_eq)

theorem mem_items_below_node {n bytenr level : ℕ} {ptrs : List node_ptr} {item : leaf_item δ} :
    item ∈ items_below read_tree_block (n + 1) (.node bytenr level ptrs) ↔
      ∃ q ∈ ptrs, ∃ c, read_ptr read_tree_block q = some c ∧
        item ∈ items_below read_tree_block n c := by
  rw [items_below, leaves, List.flatMap_assoc, List.mem_flatMap]
  constructor
  · rintro ⟨c, hc, hitem⟩
    obtain ⟨q, hq, hmap⟩ := List.mem_filterMap.mp hc
    obtain ⟨d, hd, rfl⟩ := Option.map_eq_some_iff.mp hmap
    exact ⟨q, hq, d, hd, hitem⟩
  · rintro ⟨q, hq, c, hc, hitem⟩
    exact ⟨(rank q.key, c), List.mem_filterMap.mpr ⟨q, hq, by rw [hc]; rfl⟩, hitem⟩

/-- The items below a sound block are in order. -/
theorem items_below_rising {n : ℕ} {parent : Option btrfs_disk_key} {b : tree_block δ}
    (h : sound read_tree_block nodesize n parent b) :
    (items_below read_tree_block n b).Pairwise fun x y => rank x.key < rank y.key := by
  have hbelow := h.ordered.below
  rw [keys_below] at hbelow
  exact List.pairwise_map.mp hbelow

/-- What is not before a key, where the rest is. -/
theorem filter_behind {key : btrfs_disk_key} {before behind : List (leaf_item δ)}
    (hbefore : ∀ item ∈ before, rank item.key < rank key)
    (hbehind : ∀ item ∈ behind, rank key ≤ rank item.key) :
    (before ++ behind).filter (fun item => btrfs_comp_cpu_keys item.key key ≥ 0) = behind := by
  have hlt : ∀ item ∈ before, btrfs_comp_cpu_keys item.key key < 0 :=
    fun item hitem => comp_lt.mpr (hbefore item hitem)
  have hge : ∀ item ∈ behind, ¬ btrfs_comp_cpu_keys item.key key < 0 :=
    fun item hitem hneg => absurd (comp_lt.mp hneg) (not_lt.mpr (hbehind item hitem))
  rw [List.filter_append, List.filter_eq_nil_iff.mpr fun item hitem => by simpa using hlt item hitem,
    List.filter_eq_self.mpr fun item hitem => by simpa using hge item hitem, List.nil_append]

/-- From the first root item on come all root items. -/
theorem found_items_spec {fuel rounds : ℕ} {node : tree_block δ}
    (h : sound read_tree_block nodesize height none node) (hmax : height + 1 < BTRFS_MAX_LEVEL)
    (hfuel : height < fuel) (hrounds : (items_below read_tree_block height node).length < rounds) :
    found_items read_tree_block nodesize fuel rounds node
      = .ok ((items_below read_tree_block height node).filter fun item =>
          btrfs_comp_cpu_keys item.key ⟨0, BTRFS_ROOT_ITEM_KEY, 0⟩ ≥ 0) := by
  obtain ⟨ret, leaf, slot, up, p, before, behind, hsearch, hat, hleft, hitems, hbefore, hbehind, -⟩ :=
    search_items h hmax hfuel ⟨0, BTRFS_ROOT_ITEM_KEY, 0⟩
  rw [hitems, List.length_append] at hrounds
  rw [found_items, hsearch, ok_bind, hitems, filter_behind hbefore hbehind]
  exact scan_roots_spec hat hleft (by omega)

end Scan

/-! ## The tree of roots -/

/-- The data of an item of the other trees, as each kind of item reads it. -/
structure item_data where
  extent_type : ℕ
  disk_bytenr : ℕ
  disk_num_bytes : ℕ
  root_bytenr : ℕ

def to_item (item : leaf_item item_data) : Btrfs.btrfs_item where
  key := item.key
  extent_type := item.data.extent_type
  disk_bytenr := item.data.disk_bytenr
  disk_num_bytes := item.data.disk_num_bytes
  root_bytenr := item.data.root_bytenr

/-- A block without what only the search looks at. -/
def to_extent_buffer : tree_block item_data → Btrfs.extent_buffer
  | .leaf bytenr items => .leaf bytenr (items.map to_item)
  | .node bytenr _ ptrs => .node bytenr (ptrs.map node_ptr.ptr)

def to_reader (read_tree_block : reader item_data) : Btrfs.Reader :=
  fun bytenr generation => (read_tree_block bytenr generation).map to_extent_buffer

section Roots

variable {read_tree_block : reader item_data} {nodesize height : ℕ}

/-- The items of a tree are those of the leaves that can be reached. -/
theorem has_item_iff {item : Btrfs.btrfs_item} : ∀ {n : ℕ} {parent : Option btrfs_disk_key}
    {b : tree_block item_data}, sound read_tree_block nodesize n parent b →
    (Btrfs.has_item (to_reader read_tree_block) (to_extent_buffer b) item ↔
      ∃ x ∈ items_below read_tree_block n b, to_item x = item) := by
  intro n
  induction n with
  | zero =>
      rintro parent b ⟨bytenr, items, rfl, -⟩
      rw [to_extent_buffer, Btrfs.has_item_leaf, List.mem_map, items_below, leaves,
        List.flatMap_singleton]
      rfl
  | succ n ih =>
      rintro parent b ⟨bytenr, ptrs, rfl, -, hread, -⟩
      constructor
      · rintro ⟨bytenr', items', hbelow, hitem⟩
        obtain ⟨p, next, hp, hnext, hunder⟩ : ∃ p next, p ∈ ptrs.map node_ptr.ptr ∧
            to_reader read_tree_block p.blockptr p.generation = some next ∧
            Btrfs.below (to_reader read_tree_block) next (.leaf bytenr' items') := by
          cases hbelow with
          | child hp hnext hunder => exact ⟨_, _, hp, hnext, hunder⟩
        obtain ⟨q, hq, rfl⟩ := List.mem_map.mp hp
        obtain ⟨c, hc, hsound, -⟩ := hread q hq
        have hsame : next = to_extent_buffer c := by
          rw [to_reader, show read_tree_block q.ptr.blockptr q.ptr.generation = some c from hc] at hnext
          exact (Option.some.inj hnext).symm
        rw [hsame] at hunder
        obtain ⟨x, hx, hxitem⟩ := (ih hsound).mp ⟨bytenr', items', hunder, hitem⟩
        exact ⟨x, mem_items_below_node.mpr ⟨q, hq, c, hc, hx⟩, hxitem⟩
      · rintro ⟨x, hx, rfl⟩
        obtain ⟨q, hq, c, hc, hx⟩ := mem_items_below_node.mp hx
        obtain ⟨d, hd, hsound, -⟩ := hread q hq
        have hsame : d = c := Option.some.inj (hd.symm.trans hc)
        rw [hsame] at hsound
        obtain ⟨bytenr', items', hunder, hitem⟩ := (ih hsound).mpr ⟨x, hx, rfl⟩
        have hnext : to_reader read_tree_block q.ptr.blockptr q.ptr.generation
            = some (to_extent_buffer c) := by
          rw [to_reader, show read_tree_block q.ptr.blockptr q.ptr.generation = some c from hc]
          rfl
        exact ⟨bytenr', items',
          Btrfs.below.child (List.mem_map_of_mem hq) hnext hunder, hitem⟩

/-- Among the items from the first root item on are all root items. The search starts at the least
key that a root item can have. -/
theorem found_root_items {found : List (leaf_item item_data)} {node : tree_block item_data}
    (h : sound read_tree_block nodesize height none node)
    (hfound : found = (items_below read_tree_block height node).filter fun item =>
      btrfs_comp_cpu_keys item.key ⟨0, BTRFS_ROOT_ITEM_KEY, 0⟩ ≥ 0)
    {item : Btrfs.btrfs_item} (htype : item.key.type = BTRFS_ROOT_ITEM_KEY) :
    item ∈ found.map to_item ↔
      Btrfs.has_item (to_reader read_tree_block) (to_extent_buffer node) item := by
  rw [has_item_iff h, List.mem_map, hfound]
  refine exists_congr fun x => and_congr_left fun hx => ?_
  rw [List.mem_filter]
  refine ⟨And.left, fun hmem => ⟨hmem, ?_⟩⟩
  have hxtype : x.key.type = BTRFS_ROOT_ITEM_KEY := by
    rw [← htype, ← hx]
    rfl
  have hnot : ¬ rank x.key < rank ⟨0, BTRFS_ROOT_ITEM_KEY, 0⟩ := by
    rw [rank_lt]
    dsimp only
    omega
  rw [decide_eq_true_iff]
  exact not_lt.mp fun hneg => hnot (comp_lt.mp hneg)

/-- What `Btrfs` asks of the items that are found. -/
theorem searched_root_items {blockptr generation : ℕ} {node : tree_block item_data}
    (hroot : read_tree_block blockptr generation = some node)
    (h : sound read_tree_block nodesize height none node) (root : Btrfs.extent_buffer)
    (hread : to_reader read_tree_block blockptr generation = some root)
    (_ : Btrfs.all_read (to_reader read_tree_block) root) (item : Btrfs.btrfs_item)
    (htype : item.key.type = BTRFS_ROOT_ITEM_KEY) :
    item ∈ ((items_below read_tree_block height node).filter fun item =>
        btrfs_comp_cpu_keys item.key ⟨0, BTRFS_ROOT_ITEM_KEY, 0⟩ ≥ 0).map to_item ↔
      Btrfs.has_item (to_reader read_tree_block) root item := by
  have hsame : root = to_extent_buffer node := by
    rw [to_reader, hroot] at hread
    exact (Option.some.inj hread).symm
  rw [hsame]
  exact found_root_items h rfl htype

/-- The file system of `Btrfs`, where its tree of roots is the one that is searched. -/
def searched (d : Btrfs.filesystem) {node : tree_block item_data}
    (hroot : read_tree_block d.tree_root.blockptr d.tree_root.generation = some node)
    (h : sound read_tree_block d.nodesize height none node) : Btrfs.filesystem where
  sectorsize := d.sectorsize
  nodesize := d.nodesize
  total_bytes := d.total_bytes
  bytes_used := d.bytes_used
  openable := d.openable
  chunk_root := d.chunk_root
  tree_root := d.tree_root
  dev_root := d.dev_root
  extent_root_bytenr := d.extent_root_bytenr
  csum_root_bytenr := d.csum_root_bytenr
  fs_root_bytenr := d.fs_root_bytenr
  read_tree_block := to_reader read_tree_block
  btrfs_map_block := d.btrfs_map_block
  found_items := ((items_below read_tree_block height node).filter fun item =>
    btrfs_comp_cpu_keys item.key ⟨0, BTRFS_ROOT_ITEM_KEY, 0⟩ ≥ 0).map to_item
  sectorsize_ge := d.sectorsize_ge
  nodesize_ge := d.nodesize_ge
  found_root_items := searched_root_items hroot h

/-- **The roots `read_bitmap_info` goes through**: over a sound tree of roots its loop ends, and
what it has come to is what the file system of `Btrfs` has for it; that is each root item of the
tree exactly once, in the order of the keys, and no item that the tree does not hold. -/
theorem found_items_searched (d : Btrfs.filesystem) {node : tree_block item_data}
    (hroot : read_tree_block d.tree_root.blockptr d.tree_root.generation = some node)
    (h : sound read_tree_block d.nodesize height none node) (hmax : height + 1 < BTRFS_MAX_LEVEL)
    {fuel rounds : ℕ} (hfuel : height < fuel)
    (hrounds : (items_below read_tree_block height node).length < rounds) :
    ∃ found, found_items read_tree_block d.nodesize fuel rounds node = .ok found ∧
      (searched d hroot h).found_items = found.map to_item ∧
      found.Pairwise (fun x y => rank x.key < rank y.key) ∧
      (∀ item ∈ found.map to_item,
        Btrfs.has_item (to_reader read_tree_block) (to_extent_buffer node) item) ∧
      ∀ item : Btrfs.btrfs_item, item.key.type = BTRFS_ROOT_ITEM_KEY →
        (item ∈ found.map to_item ↔
          Btrfs.has_item (to_reader read_tree_block) (to_extent_buffer node) item) := by
  refine ⟨_, found_items_spec h hmax hfuel hrounds, rfl, (items_below_rising h).filter _, ?_,
    fun item htype => found_root_items h rfl htype⟩
  intro item hitem
  obtain ⟨x, hx, rfl⟩ := List.mem_map.mp hitem
  exact (has_item_iff h).mpr ⟨x, (List.mem_filter.mp hx).1, rfl⟩

end Roots

def root_item (objectid type offset end_offset : ℕ) : leaf_item item_data :=
  ⟨⟨objectid, type, offset⟩, end_offset - 100, 100, ⟨0, 0, 0, 16384 + objectid⟩⟩

def two_leaves_root : tree_block item_data :=
  .node 4096 0 [⟨⟨2, BTRFS_ROOT_ITEM_KEY, 0⟩, ⟨8192, 7⟩⟩, ⟨⟨5, 156, 3⟩, ⟨12288, 7⟩⟩]

/-- Two leaves under one node. -/
def two_leaves : reader item_data := fun bytenr _ =>
  if bytenr = 4096 then some two_leaves_root
  else if bytenr = 8192 then
    some (.leaf 8192 [root_item 2 BTRFS_ROOT_ITEM_KEY 0 3995, root_item 5 BTRFS_ROOT_ITEM_KEY 0 3895])
  else if bytenr = 12288 then
    some (.leaf 12288 [root_item 5 156 3 3995, root_item 256 BTRFS_ROOT_ITEM_KEY 7 3895])
  else none

theorem two_leaves_sound : sound two_leaves 4096 1 none two_leaves_root := by
  refine ⟨4096, _, rfl, by decide, fun q hq => ?_, ?_⟩
  · rcases List.mem_pair.mp hq with rfl | rfl
    · exact ⟨_, rfl, ⟨8192, _, rfl, by decide⟩, rfl⟩
    · exact ⟨_, rfl, ⟨12288, _, rfl, by decide⟩, rfl⟩
  · refine List.pairwise_pair.mpr fun e he => ?_
    have hmem : e ∈ [rank ⟨2, BTRFS_ROOT_ITEM_KEY, 0⟩, rank ⟨5, BTRFS_ROOT_ITEM_KEY, 0⟩] := he
    rcases List.mem_pair.mp hmem with rfl | rfl <;> exact rank_lt.mpr (by decide)

/-- The subvolume in the second leaf is come to. -/
theorem two_leaves_found :
    ∃ found, found_items two_leaves 4096 2 5 two_leaves_root = .ok found ∧
      to_item (root_item 256 BTRFS_ROOT_ITEM_KEY 7 3895) ∈ found.map to_item := by
  have hno_root : ∀ root, (fun _ _ => none : Btrfs.Reader) 4096 7 = some root →
      Btrfs.all_read (fun _ _ => none) root → ∀ item, ¬ Btrfs.has_item (fun _ _ => none) root item :=
    fun _ hread => by cases hread
  obtain ⟨found, hrun, -, -, -, hall⟩ := found_items_searched
    (Btrfs.small_filesystem 4096 (fun _ _ => none) hno_root)
    (show two_leaves 4096 7 = some two_leaves_root from rfl) two_leaves_sound (by decide)
    (by decide : 1 < 2) (by decide : 4 < 5)
  refine ⟨found, hrun, (hall _ rfl).mpr ?_⟩
  exact ⟨12288, _, .child (List.mem_cons_of_mem _ List.mem_cons_self) rfl (.self _),
    List.mem_cons_of_mem _ List.mem_cons_self⟩

/-! ## The last root of an object -/

section LastRoot

variable {read_tree_block : reader δ} {nodesize height : ℕ}

/-- **`btrfs_find_last_root`** succeeds exactly when the object has an item of at most the type of
a root item, and finds the last of these. So it is the last root item, where the object has one,
and else whatever item of the object comes before where one would stand. It searches for the key
of a root item with the greatest offset, which stands nowhere, and steps back by one item. -/
theorem btrfs_find_last_root_iff {fuel : ℕ} {node : tree_block δ}
    (h : sound read_tree_block nodesize height none node) (hmax : height + 1 < BTRFS_MAX_LEVEL)
    (hfuel : height < fuel) {objectid : ℕ}
    (hoffset : ∀ item ∈ items_below read_tree_block height node, item.key.objectid = objectid →
      item.key.type = BTRFS_ROOT_ITEM_KEY → item.key.offset < 2 ^ 64 - 1) :
    ∃ ret found, btrfs_find_last_root read_tree_block nodesize fuel node objectid
        = .ok (ret, found) ∧
      (found = none ∧ ret = -ENOENT ∧ (∀ item ∈ items_below read_tree_block height node,
          item.key.objectid = objectid → BTRFS_ROOT_ITEM_KEY < item.key.type) ∨
        ∃ item ∈ items_below read_tree_block height node, found = some item ∧ ret = 0 ∧
          item.key.objectid = objectid ∧ item.key.type ≤ BTRFS_ROOT_ITEM_KEY ∧
          ∀ other ∈ items_below read_tree_block height node, other.key.objectid = objectid →
            other.key.type ≤ BTRFS_ROOT_ITEM_KEY → rank other.key ≤ rank item.key) := by
  obtain ⟨ret, leaf, slot, up, p, before, behind, hsearch, hat, -, hitems, hbefore, hbehind, hret,
    hlast, hfirst⟩ := search_items h hmax hfuel ⟨objectid, BTRFS_ROOT_ITEM_KEY, 2 ^ 64 - 1⟩
  have hrising := items_below_rising h
  rw [hitems] at hoffset hrising ⊢
  -- the items of the object that count are those before the key
  have hcounts : ∀ item ∈ before ++ behind, item.key.objectid = objectid →
      item.key.type ≤ BTRFS_ROOT_ITEM_KEY → item ∈ before := by
    intro item hitem hobjectid htype
    rcases List.mem_append.mp hitem with hmem | hmem
    · exact hmem
    · have hle := hbehind item hmem
      refine absurd (rank_lt.mpr (Or.inr ⟨hobjectid, ?_⟩)) (not_lt.mpr hle)
      rcases lt_or_eq_of_le htype with hlt | heq
      · exact Or.inl hlt
      · exact Or.inr ⟨heq, hoffset item hitem hobjectid heq⟩
  have hone : ret = 1 := by
    rcases hret with ⟨-, item, hitem, hkey⟩ | ⟨hone, -⟩
    · have hlt := hoffset item (List.mem_append_right _ hitem) (by rw [hkey]) (by rw [hkey])
      rw [hkey] at hlt
      exact absurd hlt (lt_irrefl _)
    · exact hone
  rw [btrfs_find_last_root, hsearch, ok_bind]
  dsimp only
  rw [hone, if_neg (by decide), hat.slot]
  by_cases hzero : slot = 0
  · rw [if_pos hzero]
    refine ⟨_, _, rfl, Or.inl ⟨rfl, rfl, fun item hitem hobjectid => ?_⟩⟩
    by_contra htype
    have hmem := hcounts item hitem hobjectid (not_lt.mp htype)
    rw [hfirst hzero hone] at hmem
    cases hmem
  · obtain ⟨item, hitem, hgetLast⟩ := hlast hzero
    obtain ⟨front, hfront⟩ := List.getLast?_eq_some_iff.mp hgetLast
    have hmem : item ∈ before := List.mem_of_getLast? hgetLast
    have hlt := rank_lt.mp (hbefore item hmem)
    dsimp only at hlt
    -- the last one before the key is the greatest of them
    have hgreatest : ∀ other ∈ before, rank other.key ≤ rank item.key := by
      intro other hother
      rw [hfront] at hother hrising
      rcases List.mem_append.mp hother with hother | hother
      · exact le_of_lt ((List.pairwise_append.mp (List.pairwise_append.mp hrising).1).2.2 other
          hother item (List.mem_singleton_self _))
      · rw [List.mem_singleton.mp hother]
    rw [if_neg hzero, if_neg (by decide), item_at_eq hat.node hitem, ok_bind]
    by_cases hobjectid : item.key.objectid = objectid
    · rw [if_neg (not_not.mpr hobjectid)]
      refine ⟨_, _, rfl, Or.inr ⟨item, List.mem_append_left _ hmem, rfl, rfl, hobjectid, by omega,
        fun other hother hother_id hother_type => ?_⟩⟩
      exact hgreatest other (hcounts other hother hother_id hother_type)
    · rw [if_pos hobjectid]
      refine ⟨_, _, rfl, Or.inl ⟨rfl, rfl, fun other hother hother_id => ?_⟩⟩
      by_contra htype
      have hle := hgreatest other (hcounts other hother hother_id (not_lt.mp htype))
      refine absurd (rank_lt.mpr (Or.inl ?_)) (not_lt.mpr hle)
      omega

end LastRoot

/-- The root of object 5 is found. -/
theorem two_leaves_last_root :
    ∃ item, btrfs_find_last_root two_leaves 4096 2 two_leaves_root 5 = .ok (0, some item) ∧
      item.key.type ≤ BTRFS_ROOT_ITEM_KEY := by
  have hmem : ∀ item ∈ items_below two_leaves 1 two_leaves_root,
      item ∈ [root_item 2 BTRFS_ROOT_ITEM_KEY 0 3995, root_item 5 BTRFS_ROOT_ITEM_KEY 0 3895,
        root_item 5 156 3 3995, root_item 256 BTRFS_ROOT_ITEM_KEY 7 3895] := fun _ h => h
  have hoffset : ∀ item ∈ items_below two_leaves 1 two_leaves_root, item.key.objectid = 5 →
      item.key.type = BTRFS_ROOT_ITEM_KEY → item.key.offset < 2 ^ 64 - 1 := by
    intro item hitem _ _
    have h := hmem item hitem
    simp only [List.mem_cons, List.not_mem_nil, or_false] at h
    rcases h with rfl | rfl | rfl | rfl <;> decide
  obtain ⟨ret, found, hrun, ⟨-, -, hnone⟩ | ⟨item, -, hfound, hret, -, htype, -⟩⟩ :=
    btrfs_find_last_root_iff two_leaves_sound (by decide) (by decide : 1 < 2) hoffset
  · exact absurd (hnone (root_item 5 BTRFS_ROOT_ITEM_KEY 0 3895)
      (List.mem_cons_of_mem _ List.mem_cons_self) rfl) (by decide)
  · rw [hfound, hret] at hrun
    exact ⟨item, hrun, htype⟩

end SysbakAdmin.BtrfsScan

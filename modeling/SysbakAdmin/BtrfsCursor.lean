/-
Where the paths into a btrfs tree lead.

The format promises more of a tree than the checks on the way down ask for: that every block can
be read, that it is one level below its parent and starts with the key it stands under, and that
its keys end before the next one (`sound`). In such a tree `btrfs_search_slot` ends at the leaf of
its key, with the smaller keys in the leaves before it and the greater ones behind; and
`btrfs_next_leaf` goes over the leaves that are left one by one.

A path is compared with a place in an abstract tree of levels (`Lib/LevelTree`): at each
level the block it goes through, and to the right of its slot the siblings that are still
ahead. `search_loop_spec` builds such a place from the top down and `btrfs_next_leaf_spec`
moves it by one leaf. The two specifications are all that the scans use; none of them looks
into the arrays of a path again.

The checks of `check_block` need no lemma each: a sound tree passes all of them, and for a
tree that is not sound nothing is claimed here.
-/
import SysbakAdmin.BtrfsTree

set_option autoImplicit false

namespace SysbakAdmin.BtrfsCursor

open CInt CMemory LevelTree BtrfsTree
open Btrfs (btrfs_disk_key btrfs_key_ptr)

variable {δ : Type}

/-! ## A tree in order -/

section Trees

variable (read_tree_block : reader δ)

/-- The block a pointer leads to. -/
def read_ptr (q : node_ptr) : Option (tree_block δ) :=
  read_tree_block q.ptr.blockptr q.ptr.generation

def item_ranks : tree_block δ → List (ℕ ×ₗ ℕ ×ₗ ℕ)
  | .leaf _ items => items.map fun item => rank item.key
  | .node _ _ _ => []

/-- The children of a node that can be read, each under its key. -/
def children : tree_block δ → List ((ℕ ×ₗ ℕ ×ₗ ℕ) × tree_block δ)
  | .leaf _ _ => []
  | .node _ _ ptrs => ptrs.filterMap fun q => (read_ptr read_tree_block q).map fun c => (rank q.key, c)

/-- A tree as it stands on the disk. -/
def layout : Layout (tree_block δ) (ℕ ×ₗ ℕ ×ₗ ℕ) where
  entries := item_ranks
  kids := children read_tree_block

/-- What the format promises of a block of a level and all below it: the block is clean under the
key it stands under, and each child can be read, is one level down, starts with its key and ends
before the next one's. -/
def sound (nodesize : ℕ) : ℕ → Option btrfs_disk_key → tree_block δ → Prop
  | 0, parent, b => ∃ bytenr items, b = .leaf bytenr items ∧ check_status nodesize parent b = .CLEAN
  | n + 1, parent, b => ∃ bytenr ptrs, b = .node bytenr n ptrs ∧
      check_status nodesize parent b = .CLEAN ∧
      (∀ q ∈ ptrs, ∃ c, read_ptr read_tree_block q = some c ∧ sound nodesize n (some q.key) c ∧
        first (layout read_tree_block) n c = some (rank q.key)) ∧
      (children read_tree_block b).Pairwise fun c d =>
        ∀ e ∈ below (layout read_tree_block) n c.2, e < d.1

/-- A sound block of a tree of this height: only its root may be empty. -/
def sound_block (nodesize height n : ℕ) (b : tree_block δ) : Prop :=
  (∃ parent, sound read_tree_block nodesize n parent b) ∧
    (n < height → first (layout read_tree_block) n b ≠ none)

variable {read_tree_block} {nodesize height : ℕ}

theorem check_items_rising : ∀ {items : List (leaf_item δ)} {i : ℕ},
    check_items nodesize i items = .CLEAN → rising (items.map leaf_item.key) := by
  intro items
  induction items with
  | nil => exact fun _ => List.Pairwise.nil
  | cons a items ih =>
      intro i h
      cases items with
      | nil => exact List.pairwise_singleton _ _
      | cons b rest =>
          rw [check_items] at h
          split_ifs at h with horder
          have hab := comp_lt.mp (not_le.mp horder)
          have hrest := ih h
          refine List.pairwise_cons.mpr ⟨fun k hk => ?_, hrest⟩
          rcases List.mem_cons.mp hk with rfl | hk
          · exact hab
          · exact lt_trans hab ((List.pairwise_cons.mp hrest).1 k hk)

/-- In a leaf that is clean the keys are in order. -/
theorem check_leaf_rising {parent : Option btrfs_disk_key} {items : List (leaf_item δ)}
    (h : btrfs_check_leaf nodesize parent items = .CLEAN) :
    rising (items.map leaf_item.key) := by
  rw [btrfs_check_leaf] at h
  split_ifs at h with _ _ _ hitems
  · exact absurd h hitems
  · exact check_items_rising (not_not.mp hitems)

theorem check_node_ne_nil {parent : Option btrfs_disk_key} {ptrs : List node_ptr}
    (h : btrfs_check_node nodesize parent ptrs = .CLEAN) : ptrs ≠ [] := by
  intro hnil
  rw [hnil] at h
  cases h

/-- Where every pointer can be read, the children are those of the pointers, in order. -/
theorem children_map (bytenr level : ℕ) {ptrs : List node_ptr}
    (hread : ∀ q ∈ ptrs, ∃ c, read_ptr read_tree_block q = some c) :
    (children read_tree_block (.node bytenr level ptrs)).map some =
      ptrs.map fun q => (read_ptr read_tree_block q).map fun c => (rank q.key, c) := by
  rw [children]
  induction ptrs with
  | nil => rfl
  | cons q ptrs ih =>
      obtain ⟨c, hc⟩ := hread q List.mem_cons_self
      have hrest := ih fun q' hq' => hread q' (List.mem_cons_of_mem _ hq')
      rw [List.filterMap_cons_some (by rw [hc]; rfl), List.map_cons, hrest, List.map_cons, hc]
      rfl

theorem children_length (bytenr level : ℕ) {ptrs : List node_ptr}
    (hread : ∀ q ∈ ptrs, ∃ c, read_ptr read_tree_block q = some c) :
    (children read_tree_block (.node bytenr level ptrs)).length = ptrs.length := by
  have h := congrArg List.length (children_map bytenr level hread)
  rwa [List.length_map, List.length_map] at h

/-- The child at a slot is under the key there, and it is the block that is read there. -/
theorem children_slot {bytenr level : ℕ} {ptrs : List node_ptr}
    (hread : ∀ q ∈ ptrs, ∃ c, read_ptr read_tree_block q = some c) {slot : ℕ}
    {c : (ℕ ×ₗ ℕ ×ₗ ℕ) × tree_block δ}
    (hc : (children read_tree_block (.node bytenr level ptrs))[slot]? = some c) :
    ∃ q, ptrs[slot]? = some q ∧ read_ptr read_tree_block q = some c.2 ∧ rank q.key = c.1 ∧
      read_node_slot read_tree_block (.node bytenr level ptrs) slot = some c.2 := by
  have h := congrArg (fun l => l[slot]?) (children_map bytenr level hread)
  simp only [List.getElem?_map, hc, Option.map_some] at h
  cases hq : ptrs[slot]? with
  | none =>
      rw [hq] at h
      cases h
  | some q =>
      obtain ⟨d, hd⟩ := hread q (List.mem_of_getElem? hq)
      rw [hq, Option.map_some, hd] at h
      obtain rfl : c = (rank q.key, d) := Option.some.inj (Option.some.inj h)
      refine ⟨q, rfl, hd, rfl, ?_⟩
      rw [read_node_slot, hq]
      exact hd

theorem children_keys (bytenr level : ℕ) {ptrs : List node_ptr}
    (hread : ∀ q ∈ ptrs, ∃ c, read_ptr read_tree_block q = some c) :
    (children read_tree_block (.node bytenr level ptrs)).map Prod.fst =
      (tree_block.node bytenr level ptrs : tree_block δ).keys.map rank := by
  refine List.ext_getElem? fun i => ?_
  rw [List.getElem?_map, tree_block.keys, List.map_map, List.getElem?_map]
  cases hc : (children read_tree_block (.node bytenr level ptrs))[i]? with
  | none =>
      have hlen := List.getElem?_eq_none_iff.mp hc
      rw [children_length bytenr level hread] at hlen
      rw [List.getElem?_eq_none_iff.mpr hlen]
      rfl
  | some c =>
      obtain ⟨q, hq, -, hkey, -⟩ := children_slot hread hc
      rw [hq, Option.map_some, Option.map_some, ← hkey]
      rfl

theorem mem_children {b : tree_block δ} {c : (ℕ ×ₗ ℕ ×ₗ ℕ) × tree_block δ}
    (hc : c ∈ children read_tree_block b) : ∃ bytenr level ptrs q, b = .node bytenr level ptrs ∧
      q ∈ ptrs ∧ read_ptr read_tree_block q = some c.2 ∧ rank q.key = c.1 := by
  cases b with
  | leaf bytenr items => cases hc
  | node bytenr level ptrs =>
      obtain ⟨q, hq, hmap⟩ := List.mem_filterMap.mp hc
      obtain ⟨d, hd, rfl⟩ := Option.map_eq_some_iff.mp hmap
      exact ⟨bytenr, level, ptrs, q, rfl, hq, hd, rfl⟩

/-- A sound tree is in order. So the library's rules about searches and neighbours hold of it. -/
theorem sound.ordered : ∀ {n : ℕ} {parent : Option btrfs_disk_key} {b : tree_block δ},
    sound read_tree_block nodesize n parent b → ordered (layout read_tree_block) n b := by
  intro n
  induction n with
  | zero =>
      rintro parent b ⟨bytenr, items, rfl, hclean⟩
      have hrising := List.pairwise_map.mp (check_leaf_rising hclean)
      exact List.pairwise_map.mpr hrising
  | succ n ih =>
      rintro parent b ⟨bytenr, ptrs, rfl, hclean, hread, hapart⟩
      refine ⟨fun hnil => check_node_ne_nil hclean ?_, hapart, fun c hc => ?_⟩
      · have hlen := children_length bytenr n
          fun q hq => (hread q hq).imp fun _ h => h.1
        rw [show children read_tree_block (.node bytenr n ptrs) = [] from hnil] at hlen
        exact List.length_eq_zero_iff.mp hlen.symm
      · change c ∈ children read_tree_block (.node bytenr n ptrs) at hc
        obtain ⟨_, _, _, q, heq, hq, hc2, hkey⟩ := mem_children hc
        cases heq
        obtain ⟨d, hd, hsound, hfirst⟩ := hread q hq
        obtain rfl : d = c.2 := Option.some.inj (hd.symm.trans hc2)
        exact ⟨by rw [hfirst, hkey], ih hsound⟩

theorem sound_handed_down :
    handed_down (layout read_tree_block) (sound_block read_tree_block nodesize height) := by
  rintro n b ⟨⟨parent, h⟩, -⟩
  refine ⟨h.ordered.1, fun c hc => ?_⟩
  obtain ⟨bytenr, ptrs, rfl, -, hread, -⟩ := h
  change c ∈ children read_tree_block (.node bytenr n ptrs) at hc
  obtain ⟨_, _, _, q, heq, hq, hc2, -⟩ := mem_children hc
  cases heq
  obtain ⟨d, hd, hsound, hfirst⟩ := hread q hq
  obtain rfl : d = c.2 := Option.some.inj (hd.symm.trans hc2)
  refine ⟨⟨some q.key, hsound⟩, fun _ => ?_⟩
  rw [hfirst]
  exact Option.some_ne_none _

/-! ## Paths

A path is an array of blocks and slots, of which a place keeps the part that a walk depends on.
-/

variable (read_tree_block)

/-- What a path holds above a level: at each level the node and the slot it goes through, and
these are the siblings to the right. Above the last level it holds nothing. -/
def stands (p : btrfs_path δ) : ℕ → List (List ((ℕ ×ₗ ℕ ×ₗ ℕ) × tree_block δ)) → Prop
  | level, [] => p.nodes (level + 1) = none
  | level, siblings :: up => (∃ bytenr ptrs, p.nodes (level + 1) = some (.node bytenr level ptrs) ∧
      (∀ q ∈ ptrs, ∃ c, read_ptr read_tree_block q = some c) ∧
      p.slots (level + 1) < ptrs.length ∧
      (children read_tree_block (.node bytenr level ptrs)).drop (p.slots (level + 1) + 1)
        = siblings) ∧ stands p (level + 1) up

variable {read_tree_block}

/-- Only what a path holds above the level counts. -/
theorem stands.congr {p p' : btrfs_path δ} : ∀ {up : List (List ((ℕ ×ₗ ℕ ×ₗ ℕ) × tree_block δ))}
    {level : ℕ}, stands read_tree_block p level up →
    (∀ l > level, p'.nodes l = p.nodes l ∧ p'.slots l = p.slots l) →
    stands read_tree_block p' level up := by
  intro up
  induction up with
  | nil =>
      intro level h hsame
      exact (hsame (level + 1) (Nat.lt_succ_self _)).1.trans h
  | cons siblings up ih =>
      intro level h hsame
      obtain ⟨hnode, hup⟩ := h
      obtain ⟨hn, hs⟩ := hsame (level + 1) (Nat.lt_succ_self _)
      refine ⟨?_, ih hup fun l hl => hsame l (by omega)⟩
      rw [hn, hs]
      exact hnode

/-- A path that goes through a node of the next level up. -/
theorem stands.under {p : btrfs_path δ} {up : List (List ((ℕ ×ₗ ℕ ×ₗ ℕ) × tree_block δ))}
    {level : ℕ} (h : stands read_tree_block p (level + 1) up) (bytenr : ℕ) {ptrs : List node_ptr}
    {slot : ℕ} (hread : ∀ q ∈ ptrs, ∃ c, read_ptr read_tree_block q = some c)
    (hslot : slot < ptrs.length) :
    stands read_tree_block
      ((p.set_node (level + 1) (.node bytenr level ptrs)).set_slot (level + 1) slot) level
      ((children read_tree_block (.node bytenr level ptrs)).drop (slot + 1) :: up) := by
  refine ⟨⟨bytenr, ptrs, set_node_self _ _ _, hread, ?_, ?_⟩, h.congr fun l hl => ?_⟩
  · rw [set_slot_self]
    exact hslot
  · rw [set_slot_self]
  · exact ⟨set_node_of_ne _ _ _ (by omega), set_slot_of_ne _ _ _ (by omega)⟩

/-- A block that is clean under the key it stands under passes. -/
theorem check_block_clean {p : btrfs_path δ} {level : ℕ} {b : tree_block δ}
    {parent : Option btrfs_disk_key} (hlevel : level + 1 < BTRFS_MAX_LEVEL)
    (hparent : parent_key p level = .ok parent) (hclean : check_status nodesize parent b = .CLEAN) :
    check_block nodesize (p.set_node level b) level = .ok 0 := by
  have hsame : parent_key (p.set_node level b) level = parent_key p level := by
    rw [parent_key, set_node_of_ne _ _ _ (by omega), set_node_slots]
    rfl
  rw [check_block, if_neg (not_le.mpr hlevel), hsame, hparent, ok_bind, set_node_self]
  dsimp only
  rw [if_pos hclean]

/-- A block that is clean, at the end of the way down. -/
theorem search_loop_leaf {key : btrfs_disk_key} {fuel : ℕ} {b : tree_block δ} {p : btrfs_path δ}
    (hlevel : btrfs_header_level b = 0) (hcheck : check_block nodesize (p.set_node 0 b) 0 = .ok 0) :
    search_loop read_tree_block nodesize key (fuel + 1) b p
      = .ok ((bin_search b key).1, (p.set_node 0 b).set_slot 0 (bin_search b key).2) := by
  rw [search_loop]
  dsimp only
  rw [hlevel, if_neg (by decide), hcheck, ok_bind, if_neg (by decide), if_neg (by decide)]

/-- A block that is clean, on the way down. -/
theorem search_loop_node {key : btrfs_disk_key} {fuel level : ℕ} {b c : tree_block δ}
    {p : btrfs_path δ} (hlevel : btrfs_header_level b = level + 1)
    (hmax : level + 1 < BTRFS_MAX_LEVEL)
    (hcheck : check_block nodesize (p.set_node (level + 1) b) (level + 1) = .ok 0)
    (hread : read_node_slot read_tree_block b (child_slot key b) = some c) :
    search_loop read_tree_block nodesize key (fuel + 1) b p
      = search_loop read_tree_block nodesize key fuel c
          ((p.set_node (level + 1) b).set_slot (level + 1) (child_slot key b)) := by
  rw [search_loop]
  dsimp only
  rw [hlevel, if_neg (not_le.mpr hmax), hcheck, ok_bind, if_neg (by decide),
    if_pos (Nat.succ_ne_zero level), hread]

/-- **`btrfs_search_slot`** goes down over the slots of the key, and every check on the way
passes. One level is gone down in a pass: the child's first key is the one it stands under, its
level is one less, and so `check_block` and the comparison of levels pass again below. -/
theorem search_loop_spec {key : btrfs_disk_key} : ∀ {n fuel : ℕ} {b : tree_block δ}
    {parent : Option btrfs_disk_key} {p : btrfs_path δ}
    {up up' : List (List ((ℕ ×ₗ ℕ ×ₗ ℕ) × tree_block δ))} {leaf : tree_block δ},
    sound read_tree_block nodesize n parent b → n + 1 < BTRFS_MAX_LEVEL → n < fuel →
    stands read_tree_block p n up → parent_key p n = .ok parent →
    descend (layout read_tree_block) (child_slot key) n b up = some (leaf, up') →
    ∃ p', search_loop read_tree_block nodesize key fuel b p = .ok ((bin_search leaf key).1, p') ∧
      p'.nodes 0 = some leaf ∧ p'.slots 0 = (bin_search leaf key).2 ∧
      stands read_tree_block p' 0 up' := by
  intro n
  induction n with
  | zero =>
      rintro fuel b parent p up up' leaf ⟨bytenr, items, rfl, hclean⟩ hmax hfuel hstands hparent
        hdown
      obtain ⟨fuel, rfl⟩ : ∃ f, fuel = f + 1 := ⟨fuel - 1, by omega⟩
      cases hdown
      refine ⟨_, search_loop_leaf rfl (check_block_clean hmax hparent hclean), ?_, ?_, ?_⟩
      · rw [set_slot_nodes, set_node_self]
      · rw [set_slot_self]
      · exact hstands.congr fun l hl =>
          ⟨set_node_of_ne _ _ _ (by omega), set_slot_of_ne _ _ _ (by omega)⟩
  | succ n ih =>
      rintro fuel b parent p up up' leaf h hmax hfuel hstands hparent hdown
      obtain ⟨fuel, rfl⟩ : ∃ f, fuel = f + 1 := ⟨fuel - 1, by omega⟩
      obtain ⟨bytenr, ptrs, rfl, hclean, hread, -⟩ := h
      have hreads : ∀ q ∈ ptrs, ∃ c, read_ptr read_tree_block q = some c :=
        fun q hq => (hread q hq).imp fun _ h => h.1
      rw [descend] at hdown
      cases hc : ((layout read_tree_block).kids (.node bytenr n ptrs))[
          child_slot key (.node bytenr n ptrs : tree_block δ)]? with
      | none =>
          rw [hc] at hdown
          cases hdown
      | some c =>
          rw [hc] at hdown
          obtain ⟨q, hq, hqc, -, hslot⟩ := children_slot hreads hc
          obtain ⟨d, hd, hsound, -⟩ := hread q (List.mem_of_getElem? hq)
          have hdc : d = c.2 := Option.some.inj (hd.symm.trans hqc)
          rw [hdc] at hsound
          have hlt := (List.getElem?_eq_some_iff.mp hq).1
          -- the child stands under the key at the slot
          have hunder : parent_key ((p.set_node (n + 1) (.node bytenr n ptrs)).set_slot (n + 1)
              (child_slot key (.node bytenr n ptrs : tree_block δ))) n = .ok (some q.key) := by
            have hkeys : (tree_block.node bytenr n ptrs : tree_block δ).keys[
                child_slot key (.node bytenr n ptrs : tree_block δ)]? = some q.key := by
              rw [tree_block.keys, List.getElem?_map, hq, Option.map_some]
            rw [parent_key, set_slot_nodes, set_node_self]
            dsimp only
            rw [set_slot_self, hkeys]
          rw [search_loop_node rfl (by omega) (check_block_clean hmax hparent hclean) hslot]
          exact ih hsound (by omega) (Nat.lt_of_succ_lt_succ hfuel)
            (hstands.under bytenr hreads hlt) hunder hdown

/-- The second loop of `btrfs_next_leaf` goes down over the first slots. Each block it reads is
the first child of the one above, and the path is set to slot 0 there. -/
theorem step_down_spec : ∀ {n : ℕ} {c : tree_block δ} {p : btrfs_path δ}
    {up up' : List (List ((ℕ ×ₗ ℕ ×ₗ ℕ) × tree_block δ))} {leaf : tree_block δ},
    sound_block read_tree_block nodesize height n c → stands read_tree_block p n up →
    descend (layout read_tree_block) (fun _ => 0) n c up = some (leaf, up') →
    ∃ p', step_down read_tree_block (n + 1) c p = (0, p') ∧ p'.nodes 0 = some leaf ∧
      p'.slots 0 = 0 ∧ stands read_tree_block p' 0 up' := by
  intro n
  induction n with
  | zero =>
      intro c p up up' leaf _ hstands hdown
      cases hdown
      refine ⟨(p.set_node 0 c).set_slot 0 0, rfl, set_node_self p 0 c, set_slot_self _ _ _,
        hstands.congr fun l hl => ?_⟩
      exact ⟨set_node_of_ne _ _ _ (by omega), set_slot_of_ne _ _ _ (by omega)⟩
  | succ n ih =>
      rintro c p up up' leaf ⟨⟨parent, h⟩, -⟩ hstands hdown
      obtain ⟨bytenr, ptrs, rfl, -, hread, -⟩ := h
      have hreads : ∀ q ∈ ptrs, ∃ c, read_ptr read_tree_block q = some c :=
        fun q hq => (hread q hq).imp fun _ h => h.1
      rw [descend] at hdown
      cases hc : ((layout read_tree_block).kids (.node bytenr n ptrs))[0]? with
      | none =>
          rw [hc] at hdown
          cases hdown
      | some c =>
          rw [hc] at hdown
          obtain ⟨q, hq, hqc, -, hslot⟩ := children_slot hreads hc
          obtain ⟨d, hd, hsound, hfirst⟩ := hread q (List.mem_of_getElem? hq)
          obtain rfl : d = c.2 := Option.some.inj (hd.symm.trans hqc)
          have hlt := (List.getElem?_eq_some_iff.mp hq).1
          have hne : first (layout read_tree_block) n c.2 ≠ none := by
            rw [hfirst]
            exact Option.some_ne_none _
          obtain ⟨p', hloop, hends⟩ :=
            ih ⟨⟨_, hsound⟩, fun _ => hne⟩ (hstands.under bytenr hreads hlt) hdown
          refine ⟨p', ?_, hends⟩
          rw [step_down, if_neg (Nat.succ_ne_zero n), hslot]
          exact hloop

theorem climb_up {p : btrfs_path δ} {left level : ℕ} {b : tree_block δ}
    (hlevel : BTRFS_MAX_LEVEL - (left + 1) = level) (hnode : p.nodes level = some b)
    (hend : btrfs_header_nritems b ≤ p.slots level + 1) :
    climb read_tree_block p (left + 1) = climb read_tree_block p left := by
  rw [climb, hlevel, hnode]
  exact if_pos hend

theorem climb_found {p : btrfs_path δ} {left level : ℕ} {b c : tree_block δ}
    (hlevel : BTRFS_MAX_LEVEL - (left + 1) = level) (hnode : p.nodes level = some b)
    (hlt : p.slots level + 1 < btrfs_header_nritems b)
    (hread : read_node_slot read_tree_block b (p.slots level + 1) = some c) :
    climb read_tree_block p (left + 1) = .found level (p.slots level + 1) c := by
  rw [climb, hlevel, hnode]
  dsimp only
  rw [if_neg (not_le.mpr hlt), hread]

/-- Its first loop finds the sibling the next leaf is below, or the end. A level whose block has a
slot behind the path's is the one where the siblings to the right are not empty. -/
theorem climb_spec : ∀ {up : List (List ((ℕ ×ₗ ℕ ×ₗ ℕ) × tree_block δ))} {n : ℕ}
    {p : btrfs_path δ}, stands read_tree_block p n up →
    standing (sound_block read_tree_block nodesize height) n up → n + up.length + 1 < BTRFS_MAX_LEVEL →
    (next (layout read_tree_block) n up = none ∧
      climb read_tree_block p (BTRFS_MAX_LEVEL - 1 - n) = .stop 1) ∨
    ∃ level slot c up₁, climb read_tree_block p (BTRFS_MAX_LEVEL - 1 - n) = .found (level + 1) slot c ∧
      next (layout read_tree_block) n up = descend (layout read_tree_block) (fun _ => 0) level c up₁ ∧
      sound_block read_tree_block nodesize height level c ∧
      stands read_tree_block (p.set_slot (level + 1) slot) level up₁ := by
  intro up
  induction up with
  | nil =>
      intro n p hstands _ hmax
      obtain ⟨left, hleft⟩ : ∃ left, BTRFS_MAX_LEVEL - 1 - n = left + 1 :=
        ⟨BTRFS_MAX_LEVEL - 2 - n, by omega⟩
      have hlevel : BTRFS_MAX_LEVEL - (left + 1) = n + 1 := by omega
      refine Or.inl ⟨rfl, ?_⟩
      rw [hleft, climb, hlevel, show p.nodes (n + 1) = none from hstands]
  | cons siblings up ih =>
      intro n p hstands hsound hmax
      rw [List.length_cons] at hmax
      obtain ⟨left, hleft⟩ : ∃ left, BTRFS_MAX_LEVEL - 1 - n = left + 1 :=
        ⟨BTRFS_MAX_LEVEL - 2 - n, by omega⟩
      have hlevel : BTRFS_MAX_LEVEL - (left + 1) = n + 1 := by omega
      have hfurther : left = BTRFS_MAX_LEVEL - 1 - (n + 1) := by omega
      obtain ⟨⟨bytenr, ptrs, hnode, hreads, hslot, hdrop⟩, hup⟩ := hstands
      cases siblings with
      | nil =>
          have hend : ptrs.length ≤ p.slots (n + 1) + 1 := by
            have hlen := List.drop_eq_nil_iff.mp hdrop
            rwa [children_length bytenr n hreads] at hlen
          rw [hleft, climb_up hlevel hnode hend, hfurther]
          exact ih hup hsound.2 (by omega)
      | cons c siblings =>
          have hc : (children read_tree_block (.node bytenr n ptrs))[p.slots (n + 1) + 1]? = some c := by
            rw [← Nat.add_zero (p.slots (n + 1) + 1), ← List.getElem?_drop, hdrop,
              List.getElem?_cons_zero]
          obtain ⟨q, hq, hqc, -, hread⟩ := children_slot hreads hc
          have hlt := (List.getElem?_eq_some_iff.mp hq).1
          rw [hleft, climb_found hlevel hnode hlt hread]
          refine Or.inr ⟨n, p.slots (n + 1) + 1, c.2, siblings :: up, rfl, rfl,
            hsound.1 c List.mem_cons_self, ⟨bytenr, ptrs, hnode, hreads, ?_, ?_⟩, ?_⟩
          · rw [set_slot_self]
            exact hlt
          · rw [set_slot_self, ← List.drop_drop, hdrop, List.drop_one, List.tail_cons]
          · exact hup.congr fun l hl => ⟨rfl, set_slot_of_ne _ _ _ (by omega)⟩

variable (read_tree_block nodesize height)

/-- A path at a slot of a leaf of a tree of this height, with what is to its right. It is all that
the specifications say of a path, and all that they ask of one. -/
structure at_leaf (p : btrfs_path δ) (leaf : tree_block δ) (slot : ℕ)
    (up : List (List ((ℕ ×ₗ ℕ ×ₗ ℕ) × tree_block δ))) : Prop where
  node : p.nodes 0 = some leaf
  slot : p.slots 0 = slot
  right : stands read_tree_block p 0 up
  leaf_sound : sound_block read_tree_block nodesize height 0 leaf
  right_sound : standing (sound_block read_tree_block nodesize height) 0 up
  levels : up.length = height
  height_lt : height + 1 < BTRFS_MAX_LEVEL

variable {read_tree_block nodesize height}

theorem at_leaf.moved {p : btrfs_path δ} {leaf : tree_block δ} {slot : ℕ}
    {up : List (List ((ℕ ×ₗ ℕ ×ₗ ℕ) × tree_block δ))}
    (h : at_leaf read_tree_block nodesize height p leaf slot up) (slot' : ℕ) :
    at_leaf read_tree_block nodesize height (p.set_slot 0 slot') leaf slot' up where
  node := h.node
  slot := set_slot_self _ _ _
  right := h.right.congr fun l hl => ⟨rfl, set_slot_of_ne _ _ _ (by omega)⟩
  leaf_sound := h.leaf_sound
  right_sound := h.right_sound
  levels := h.levels
  height_lt := h.height_lt

/-- **`btrfs_next_leaf`** returns 1 at the last leaf; at any other it goes to the next one, and
what was behind that is then to the right. It goes up to the first level with a sibling to the
right and down along the first slots from there, which in a tree of one height ends at a leaf. -/
theorem btrfs_next_leaf_spec {p : btrfs_path δ} {leaf : tree_block δ} {slot : ℕ}
    {up : List (List ((ℕ ×ₗ ℕ ×ₗ ℕ) × tree_block δ))}
    (h : at_leaf read_tree_block nodesize height p leaf slot up) :
    (ahead (layout read_tree_block) 0 up = [] ∧ btrfs_next_leaf read_tree_block p = (1, p)) ∨
    ∃ leaf' up' p', btrfs_next_leaf read_tree_block p = (0, p') ∧
      ahead (layout read_tree_block) 0 up = leaf' :: ahead (layout read_tree_block) 0 up' ∧
      at_leaf read_tree_block nodesize height p' leaf' 0 up' := by
  have hmax : 0 + up.length + 1 < BTRFS_MAX_LEVEL := by
    rw [Nat.zero_add, h.levels]
    exact h.height_lt
  rw [btrfs_next_leaf]
  rcases next_spec sound_handed_down h.right_sound with ⟨hnone, hend⟩ | ⟨leaf', up', hnext, hahead⟩
  · rcases climb_spec h.right h.right_sound hmax with
      ⟨-, hclimb⟩ | ⟨level, slot, c, up₁, -, hdown, hc, -⟩
    · rw [Nat.sub_zero] at hclimb
      rw [hclimb]
      exact Or.inl ⟨hend, rfl⟩
    · obtain ⟨leaf', up', l, r, hsome, -⟩ := descend_spec up₁ (cuts_first sound_handed_down hc)
      rw [hnone, hsome] at hdown
      cases hdown
  · obtain ⟨hleaf, hright⟩ := next_standing sound_handed_down h.right_sound hnext
    have hlen := next_length hnext
    rcases climb_spec h.right h.right_sound hmax with
      ⟨hnone, -⟩ | ⟨level, slot, c, up₁, hclimb, hdown, hc, hstands⟩
    · rw [hnext] at hnone
      cases hnone
    · rw [Nat.sub_zero] at hclimb
      rw [hclimb]
      obtain ⟨p', hstep, hnode, hslot, hstands'⟩ :=
        step_down_spec hc hstands (hdown.symm.trans hnext)
      refine Or.inr ⟨leaf', up', p', hstep, hahead, ⟨hnode, hslot, hstands', hleaf, hright, ?_,
        h.height_lt⟩⟩
      rw [hlen, Nat.zero_add, h.levels]

/-- In a sound node the slot that is gone on from is the slot of the key. -/
theorem sound_slot (key : btrfs_disk_key) (n : ℕ) (b : tree_block δ)
    (h : sound_block read_tree_block nodesize height (n + 1) b)
    (hordered : ordered (layout read_tree_block) (n + 1) b) :
    at_slot (((layout read_tree_block).kids b).map Prod.fst) (rank key) (child_slot key b) := by
  obtain ⟨⟨parent, bytenr, ptrs, rfl, hclean, hread, -⟩, -⟩ := h
  have hkeys := children_keys bytenr n
    fun q hq => (hread q hq).imp fun _ h => h.1
  have hrising := hordered.kids
  change ((children read_tree_block (.node bytenr n ptrs)).map Prod.fst).Pairwise (· < ·) at hrising
  change at_slot ((children read_tree_block (.node bytenr n ptrs)).map Prod.fst) _ _
  rw [hkeys] at hrising ⊢
  refine child_slot_spec (List.pairwise_map.mp hrising) (fun hnil => ?_) key
  exact check_node_ne_nil hclean (List.map_eq_nil_iff.mp hnil)

/-- **`btrfs_search_slot`** leads to the leaf of the key: in all leaves before it the keys are
smaller, and in those behind it greater; and it is the first leaf, or starts with a key that is
not greater. The slot of the key in a node is the last child that does not start behind the key,
so everything to the left is smaller and everything to the right greater; and so it stays, level
by level. -/
theorem btrfs_search_slot_spec {fuel : ℕ} {node : tree_block δ}
    (h : sound read_tree_block nodesize height none node) (hmax : height + 1 < BTRFS_MAX_LEVEL)
    (hfuel : height < fuel) (key : btrfs_disk_key) :
    ∃ leaf up l p, btrfs_search_slot read_tree_block nodesize fuel node key btrfs_init_path
        = .ok ((bin_search leaf key).1, p) ∧
      at_leaf read_tree_block nodesize height p leaf (bin_search leaf key).2 up ∧
      leaves (layout read_tree_block) height node
        = l ++ leaf :: ahead (layout read_tree_block) 0 up ∧
      (∀ x ∈ l, ∀ e ∈ item_ranks x, e < rank key) ∧
      (∀ x ∈ ahead (layout read_tree_block) 0 up, ∀ e ∈ item_ranks x, rank key < e) ∧
      (l ≠ [] → ∃ k, (item_ranks leaf).head? = some k ∧ k ≤ rank key) := by
  have hblock : sound_block read_tree_block nodesize height height node :=
    ⟨⟨none, h⟩, fun hlt => absurd hlt (lt_irrefl _)⟩
  obtain ⟨leaf, up, l, hdown, hleaves, hbefore, hbehind, hlow⟩ :=
    descend_key sound_handed_down (sound_slot key) hblock h.ordered
  obtain ⟨p, hsearch, hnode, hslot, hstands⟩ := search_loop_spec h hmax hfuel
    (show stands read_tree_block btrfs_init_path height [] from rfl) rfl hdown
  obtain ⟨hleaf, hright⟩ := descend_standing sound_handed_down hblock
    (show standing (sound_block read_tree_block nodesize height) height [] from trivial) hdown
  have hlen := descend_length hdown
  exact ⟨leaf, up, l, p, hsearch, ⟨hnode, hslot, hstands, hleaf, hright, hlen, hmax⟩, hleaves,
    hbefore, hbehind, hlow⟩

end Trees

end SysbakAdmin.BtrfsCursor

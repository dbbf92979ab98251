/-
The trees of a btrfs file system as they are read: `ctree.c`.

A tree is on the disk: a node holds the addresses of its children, and a path holds, for each
level, the block it goes through and the slot in it. `btrfs_search_slot` goes down to a key,
checking each block on its way; `btrfs_next_leaf` goes on to the leaf behind, and checks none.

In a block whose keys are in order the search ends at the key, or where it would be put
(`bin_search_spec`).

The functions are generic in the data of an item: the tree of roots and the chunk tree are
read by the same code, and a leaf item carries whatever its kind of tree has. Reading a
block is a parameter, from an address, a level and a generation to a block or an error;
what `disk-io.c` does for it is the subject of `DiskIo`. The search comes with its fuel, which
is the number of levels, because a damaged node may name any block as its child.
-/
import SysbakAdmin.Btrfs
import SysbakAdmin.Volumes
import SysbakAdmin.Lib.LevelTree
import Mathlib.Data.Prod.Lex

set_option autoImplicit false

namespace SysbakAdmin.BtrfsTree

open CInt CMemory LevelTree
open Btrfs (btrfs_disk_key btrfs_key_ptr)
open Volumes (eio ENOENT)

/-! ## The code -/

deriving instance DecidableEq for btrfs_disk_key

section Blocks

variable (δ : Type)

/-- `struct btrfs_item`, with the data it leads to as its reader takes it. -/
structure leaf_item where
  key : btrfs_disk_key
  offset : ℕ
  size : ℕ
  data : δ

/-- `struct btrfs_key_ptr`. -/
structure node_ptr where
  key : btrfs_disk_key
  ptr : btrfs_key_ptr

/-- A tree block that is up to date. The level in the header of a leaf is 0; a node of level `n`
here has `n + 1` in its header. -/
inductive tree_block where
  | leaf (bytenr : ℕ) (items : List (leaf_item δ))
  | node (bytenr level : ℕ) (ptrs : List node_ptr)

/-- Reading a tree block by its address and generation, as `Btrfs.Reader`. -/
abbrev reader := ℕ → ℕ → Option (tree_block δ)

end Blocks

variable {δ : Type}

def btrfs_header_level : tree_block δ → ℕ
  | .leaf _ _ => 0
  | .node _ level _ => level + 1

def btrfs_header_nritems : tree_block δ → ℕ
  | .leaf _ items => items.length
  | .node _ _ ptrs => ptrs.length

/-- The keys of a block, as `btrfs_item_key` and `btrfs_node_key` read them. -/
def tree_block.keys : tree_block δ → List btrfs_disk_key
  | .leaf _ items => items.map leaf_item.key
  | .node _ _ ptrs => ptrs.map node_ptr.key

def BTRFS_MAX_LEVEL : ℕ := 8

def sizeof_btrfs_header : ℕ := 101

def sizeof_btrfs_item : ℕ := 25

def sizeof_btrfs_key_ptr : ℕ := 33

def BTRFS_NODEPTRS_PER_BLOCK (nodesize : ℕ) : ℕ :=
  (nodesize - sizeof_btrfs_header) / sizeof_btrfs_key_ptr

def BTRFS_LEAF_DATA_SIZE (nodesize : ℕ) : ℕ := nodesize - sizeof_btrfs_header

def btrfs_comp_cpu_keys (k1 k2 : btrfs_disk_key) : ℤ :=
  if k1.objectid > k2.objectid then 1
  else if k1.objectid < k2.objectid then -1
  else if k1.type > k2.type then 1
  else if k1.type < k2.type then -1
  else if k1.offset > k2.offset then 1
  else if k1.offset < k2.offset then -1
  else 0

inductive btrfs_tree_block_status where
  | CLEAN
  | INVALID_NRITEMS
  | INVALID_PARENT_KEY
  | BAD_KEY_ORDER
  | INVALID_FREE_SPACE
  | INVALID_OFFSETS
deriving DecidableEq

/-- The loop of `btrfs_check_node`. It stops one short: the last key is compared with none. -/
def check_ptrs : List node_ptr → btrfs_tree_block_status
  | a :: b :: c :: rest =>
      if btrfs_comp_cpu_keys a.key b.key ≥ 0 then .BAD_KEY_ORDER else check_ptrs (b :: c :: rest)
  | _ => .CLEAN

def btrfs_check_node (nodesize : ℕ) (parent_key : Option btrfs_disk_key) (ptrs : List node_ptr) :
    btrfs_tree_block_status :=
  let nritems := ptrs.length
  if nritems = 0 ∨ nritems > BTRFS_NODEPTRS_PER_BLOCK nodesize then .INVALID_NRITEMS
  else if ∃ key ∈ parent_key, key.type ≠ 0 ∧ ∃ first ∈ ptrs.head?, key ≠ first.key then
    .INVALID_PARENT_KEY
  else check_ptrs ptrs

/-- `btrfs_item_end`, a sum of two `u32`. -/
def btrfs_item_end (item : leaf_item δ) : ℕ := u32 (item.offset + item.size)

/-- `leaf_space_used` of all items. -/
def leaf_space_used (items : List (leaf_item δ)) : ℤ :=
  match items.head?, items.getLast? with
  | some first, some last =>
      let data_len := toInt32 (i32 (btrfs_item_end first) - last.offset)
      toInt32 (data_len + sizeof_btrfs_item * items.length)
  | _, _ => 0

def btrfs_leaf_free_space (nodesize : ℕ) (items : List (leaf_item δ)) : ℤ :=
  toInt32 (BTRFS_LEAF_DATA_SIZE nodesize - leaf_space_used items)

/-- The loop of `btrfs_check_leaf` over two items that follow one another, from number `i` on. -/
def check_items (nodesize : ℕ) : ℕ → List (leaf_item δ) → btrfs_tree_block_status
  | i, a :: b :: rest =>
      if btrfs_comp_cpu_keys a.key b.key ≥ 0 then .BAD_KEY_ORDER
      else if a.offset ≠ btrfs_item_end b then .INVALID_OFFSETS
      else if i = 0 ∧ btrfs_item_end a ≠ BTRFS_LEAF_DATA_SIZE nodesize then .INVALID_OFFSETS
      else check_items nodesize (i + 1) (b :: rest)
  | _, _ => .CLEAN

/-- `btrfs_check_leaf`, on a block of level 0. -/
def btrfs_check_leaf (nodesize : ℕ) (parent_key : Option btrfs_disk_key)
    (items : List (leaf_item δ)) : btrfs_tree_block_status :=
  if items.length * sizeof_btrfs_item > nodesize then .INVALID_NRITEMS
  else if btrfs_leaf_free_space nodesize items < 0 then .INVALID_FREE_SPACE
  else if ∃ key ∈ parent_key, key.type ≠ 0 ∧ ∃ first ∈ items.head?, key ≠ first.key then
    .INVALID_PARENT_KEY
  else if check_items nodesize 0 items ≠ .CLEAN then check_items nodesize 0 items
  else if ∃ item ∈ items, btrfs_item_end item > BTRFS_LEAF_DATA_SIZE nodesize then
    .INVALID_OFFSETS
  else .CLEAN

/-- `struct btrfs_path`. -/
structure btrfs_path (δ : Type) where
  nodes : ℕ → Option (tree_block δ)
  slots : ℕ → ℕ

/-- `btrfs_init_path`. -/
def btrfs_init_path : btrfs_path δ := ⟨fun _ => none, fun _ => 0⟩

def btrfs_path.set_node (p : btrfs_path δ) (level : ℕ) (b : tree_block δ) : btrfs_path δ :=
  { p with nodes := Function.update p.nodes level (some b) }

def btrfs_path.set_slot (p : btrfs_path δ) (level slot : ℕ) : btrfs_path δ :=
  { p with slots := Function.update p.slots level slot }

section Paths

variable (p : btrfs_path δ) (level slot : ℕ) (b : tree_block δ)

@[simp] theorem set_node_self : (p.set_node level b).nodes level = some b :=
  Function.update_self _ _ _

@[simp] theorem set_node_slots : (p.set_node level b).slots = p.slots := rfl

@[simp] theorem set_slot_self : (p.set_slot level slot).slots level = slot :=
  Function.update_self _ _ _

@[simp] theorem set_slot_nodes : (p.set_slot level slot).nodes = p.nodes := rfl

theorem set_node_of_ne {l : ℕ} (h : l ≠ level) : (p.set_node level b).nodes l = p.nodes l :=
  Function.update_of_ne h _ _

theorem set_slot_of_ne {l : ℕ} (h : l ≠ level) : (p.set_slot level slot).slots l = p.slots l :=
  Function.update_of_ne h _ _

end Paths

/-- The key the block of a level stands under, as `check_block` takes it from the path. -/
def parent_key (p : btrfs_path δ) (level : ℕ) : Run (Option btrfs_disk_key) :=
  match p.nodes (level + 1) with
  | none => .ok none
  | some parent =>
      match parent.keys[p.slots (level + 1)]? with
      | none => .error .outOfBounds
      | some key => .ok (some key)

/-- What `check_block` asks of a block of its level. -/
def check_status (nodesize : ℕ) (key_ptr : Option btrfs_disk_key) :
    tree_block δ → btrfs_tree_block_status
  | .leaf _ items => btrfs_check_leaf nodesize key_ptr items
  | .node _ _ ptrs => btrfs_check_node nodesize key_ptr ptrs

/-- `check_block`. -/
def check_block (nodesize : ℕ) (p : btrfs_path δ) (level : ℕ) : Run ℤ :=
  if BTRFS_MAX_LEVEL ≤ level + 1 then .error .outOfBounds
  else do
    let key_ptr ← parent_key p level
    match p.nodes level with
    | none => .error .outOfBounds
    | some b => .ok (if check_status nodesize key_ptr b = .CLEAN then 0 else -eio)

/-- The loop of `generic_bin_search`. -/
def bin_search_loop (keys : List btrfs_disk_key) (key : btrfs_disk_key) : ℕ → ℕ → ℕ → ℤ × ℕ
  | 0, low, _ => (1, low)
  | fuel + 1, low, high =>
      if low < high then
        let mid := (low + high) / 2
        match keys[mid]? with
        | none => (1, low)
        | some tmp =>
            let ret := btrfs_comp_cpu_keys tmp key
            if ret < 0 then bin_search_loop keys key fuel (mid + 1) high
            else if ret > 0 then bin_search_loop keys key fuel low mid
            else (0, mid)
      else (1, low)

/-- `bin_search`: what it returns, and `*slot`. The loop makes its range smaller each time. -/
def bin_search (b : tree_block δ) (key : btrfs_disk_key) : ℤ × ℕ :=
  bin_search_loop b.keys key b.keys.length 0 b.keys.length

section Reading

variable (read_tree_block : reader δ)

/-- `read_node_slot`, where it gives a block that is up to date. -/
def read_node_slot (parent : tree_block δ) (slot : ℕ) : Option (tree_block δ) :=
  match parent with
  | .leaf _ _ => none
  | .node _ _ ptrs =>
      match ptrs[slot]? with
      | none => none
      | some q => read_tree_block q.ptr.blockptr q.ptr.generation

/-- The slot `btrfs_search_slot` goes on from in a node: the one that was found, or the one
before where the key would be put. -/
def child_slot (key : btrfs_disk_key) (b : tree_block δ) : ℕ :=
  let (ret, slot) := bin_search b key
  if ret ≠ 0 ∧ slot > 0 then slot - 1 else slot

/-- The loop of `btrfs_search_slot` to read, from the block on that it has reached. -/
def search_loop (nodesize : ℕ) (key : btrfs_disk_key) :
    ℕ → tree_block δ → btrfs_path δ → Run (ℤ × btrfs_path δ)
  | 0, _, _ => .error .diverged
  | fuel + 1, b, p => do
      let level := btrfs_header_level b
      if BTRFS_MAX_LEVEL ≤ level then .error .outOfBounds
      else
        let p := p.set_node level b
        let ret ← check_block nodesize p level
        if ret ≠ 0 then .ok (-1, p)
        else if level ≠ 0 then
          let slot := child_slot key b
          let p := p.set_slot level slot
          match read_node_slot read_tree_block b slot with
          | none => .ok (-eio, p)
          | some b => search_loop nodesize key fuel b p
        else
          let (ret, slot) := bin_search b key
          .ok (ret, p.set_slot 0 slot)

/-- `btrfs_search_slot` to read: no transaction, nothing to insert, down to the leaves. -/
def btrfs_search_slot (nodesize fuel : ℕ) (node : tree_block δ) (key : btrfs_disk_key)
    (p : btrfs_path δ) : Run (ℤ × btrfs_path δ) :=
  search_loop read_tree_block nodesize key fuel node p

/-- What the first loop of `btrfs_next_leaf` ends with. -/
inductive climbed (δ : Type) where
  | stop (ret : ℤ)
  | found (level slot : ℕ) (next : tree_block δ)

/-- The first loop of `btrfs_next_leaf`, with this many levels left. -/
def climb (p : btrfs_path δ) : ℕ → climbed δ
  | 0 => .stop 1
  | left + 1 =>
      let level := BTRFS_MAX_LEVEL - (left + 1)
      match p.nodes level with
      | none => .stop 1
      | some c =>
          let slot := p.slots level + 1
          if slot ≥ btrfs_header_nritems c then climb p left
          else
            match read_node_slot read_tree_block c slot with
            | none => .stop (-eio)
            | some next => .found level slot next

/-- Its second loop, from a level down. -/
def step_down : ℕ → tree_block δ → btrfs_path δ → ℤ × btrfs_path δ
  | 0, _, p => (0, p)
  | level + 1, next, p =>
      let p := (p.set_node level next).set_slot level 0
      if level = 0 then (0, p)
      else
        match read_node_slot read_tree_block next 0 with
        | none => (-eio, p)
        | some next => step_down level next p

def btrfs_next_leaf (p : btrfs_path δ) : ℤ × btrfs_path δ :=
  match climb read_tree_block p (BTRFS_MAX_LEVEL - 1) with
  | .stop ret => (ret, p)
  | .found level slot next => step_down read_tree_block level next (p.set_slot level slot)

end Reading

/-! ## Keys -/

/-- The order of keys: object, type, offset. -/
def rank (key : btrfs_disk_key) : ℕ ×ₗ ℕ ×ₗ ℕ := toLex (key.objectid, toLex (key.type, key.offset))

theorem rank_inj {a b : btrfs_disk_key} : rank a = rank b ↔ a = b := by
  refine ⟨fun h => ?_, congrArg rank⟩
  have h1 := congrArg (fun x => (ofLex x).1) h
  have h2 := congrArg (fun x => (ofLex (ofLex x).2).1) h
  have h3 := congrArg (fun x => (ofLex (ofLex x).2).2) h
  cases a
  cases b
  exact congr (congr (congrArg btrfs_disk_key.mk h1) h2) h3

theorem rank_lt {a b : btrfs_disk_key} : rank a < rank b ↔
    a.objectid < b.objectid ∨ a.objectid = b.objectid ∧
      (a.type < b.type ∨ a.type = b.type ∧ a.offset < b.offset) := by
  rw [rank, rank, Prod.Lex.toLex_lt_toLex, Prod.Lex.toLex_lt_toLex]

theorem comp_lt {a b : btrfs_disk_key} : btrfs_comp_cpu_keys a b < 0 ↔ rank a < rank b := by
  rw [rank_lt, btrfs_comp_cpu_keys]
  split_ifs <;> omega

theorem comp_gt {a b : btrfs_disk_key} : btrfs_comp_cpu_keys a b > 0 ↔ rank b < rank a := by
  rw [rank_lt, btrfs_comp_cpu_keys]
  split_ifs <;> omega

/-- Keys in order. -/
def rising (keys : List btrfs_disk_key) : Prop := keys.Pairwise fun a b => rank a < rank b

/-! ## Searching a block

The keys of a sound block rise, so the place of a key is a cut of their row. -/

/-- The range of the search: before it the keys are smaller, behind it greater. It ends at the
key, or where the key would be put. -/
theorem bin_search_loop_spec {keys : List btrfs_disk_key} {key : btrfs_disk_key}
    (h : rising keys) : ∀ {fuel low high : ℕ}, low ≤ high → high ≤ keys.length →
      high ≤ low + fuel → (∀ k ∈ keys.take low, rank k < rank key) →
      (∀ k ∈ keys.drop high, rank key < rank k) →
      ∃ l r, keys = l ++ r ∧ (∀ k ∈ l, rank k < rank key) ∧
        (bin_search_loop keys key fuel low high = (0, l.length) ∧ r.head? = some key ∨
          bin_search_loop keys key fuel low high = (1, l.length) ∧ ∀ k ∈ r, rank key < rank k) := by
  intro fuel
  induction fuel with
  | zero =>
      intro low high hle hhigh hfuel hbefore hbehind
      obtain rfl : low = high := by omega
      refine ⟨keys.take low, keys.drop low, (List.take_append_drop _ _).symm, hbefore,
        Or.inr ⟨?_, hbehind⟩⟩
      rw [bin_search_loop, List.length_take_of_le hhigh]
  | succ fuel ih =>
      intro low high hle hhigh hfuel hbefore hbehind
      rw [bin_search_loop]
      by_cases hlt : low < high
      · rw [if_pos hlt]
        dsimp only
        have hmid : (low + high) / 2 < keys.length := by omega
        have hsplit := List.take_append_drop ((low + high) / 2) keys
        rw [List.drop_eq_getElem_cons hmid] at hsplit
        have hsorted := h
        rw [← hsplit, rising] at hsorted
        obtain ⟨-, hcons, hacross⟩ := List.pairwise_append.mp hsorted
        have hright := (List.pairwise_cons.mp hcons).1
        rw [List.getElem?_eq_getElem hmid]
        dsimp only
        by_cases hneg : btrfs_comp_cpu_keys keys[(low + high) / 2] key < 0
        · -- the key is behind the middle
          rw [if_pos hneg]
          have hmidlt := comp_lt.mp hneg
          refine ih (by omega) hhigh (by omega) (fun k hk => ?_) hbehind
          rw [List.take_succ_eq_append_getElem hmid] at hk
          rcases List.mem_append.mp hk with hk | hk
          · exact lt_trans (hacross k hk _ List.mem_cons_self) hmidlt
          · rw [List.mem_singleton.mp hk]
            exact hmidlt
        · rw [if_neg hneg]
          by_cases hpos : btrfs_comp_cpu_keys keys[(low + high) / 2] key > 0
          · -- the key is before it
            rw [if_pos hpos]
            have hmidgt := comp_gt.mp hpos
            refine ih (by omega) (by omega) (by omega) hbefore fun k hk => ?_
            rw [List.drop_eq_getElem_cons hmid] at hk
            rcases List.mem_cons.mp hk with rfl | hk
            · exact hmidgt
            · exact lt_trans hmidgt (hright k hk)
          · -- it is the middle
            rw [if_neg hpos]
            have hsame : keys[(low + high) / 2] = key :=
              rank_inj.mp (le_antisymm (not_lt.mp fun hlt' => hpos (comp_gt.mpr hlt'))
                (not_lt.mp fun hlt' => hneg (comp_lt.mpr hlt')))
            refine ⟨_, _, hsplit.symm, fun k hk => ?_, Or.inl ⟨?_, ?_⟩⟩
            · rw [← hsame]
              exact hacross k hk _ List.mem_cons_self
            · rw [List.length_take_of_le (le_of_lt hmid)]
            · rw [hsame, List.head?_cons]
      · obtain rfl : low = high := by omega
        rw [if_neg hlt]
        refine ⟨keys.take low, keys.drop low, (List.take_append_drop _ _).symm, hbefore,
          Or.inr ⟨?_, hbehind⟩⟩
        rw [List.length_take_of_le hhigh]

/-- **`bin_search`**: of keys in order, those before the slot are smaller and those from it on are
not; 0 is returned exactly when the key stands there. The two bounds close in on the place, with
smaller keys below the one and none of them from the other on. -/
theorem bin_search_spec {b : tree_block δ} (h : rising b.keys) (key : btrfs_disk_key) :
    ∃ l r, b.keys = l ++ r ∧ (∀ k ∈ l, rank k < rank key) ∧
      (bin_search b key = (0, l.length) ∧ r.head? = some key ∨
        bin_search b key = (1, l.length) ∧ ∀ k ∈ r, rank key < rank k) := by
  refine bin_search_loop_spec h (Nat.zero_le _) (le_refl _) (by omega) ?_ ?_
  · intro k hk
    rw [List.take_zero] at hk
    cases hk
  · intro k hk
    rw [List.drop_length] at hk
    cases hk

/-- The slot of a child is the slot of the key among the keys of the node. `bin_search` gives the
first key that is not smaller; where that is not the key itself, the child is the one before. -/
theorem child_slot_spec {b : tree_block δ} (h : rising b.keys) (hne : b.keys ≠ [])
    (key : btrfs_disk_key) : at_slot (b.keys.map rank) (rank key) (child_slot key b) := by
  obtain ⟨l, r, hkeys, hl, ⟨heq, hr⟩ | ⟨heq, hr⟩⟩ := bin_search_spec h key
  · obtain ⟨rest, hrest⟩ := List.head?_eq_some_iff.mp hr
    rw [hrest] at hkeys
    have hsorted := h
    rw [hkeys, rising] at hsorted
    have hbehind := (List.pairwise_cons.mp (List.pairwise_append.mp hsorted).2.1).1
    refine ⟨l.map rank, rank key, rest.map rank, ?_, ?_, Or.inr (le_refl _), fun y hy => ?_⟩
    · rw [hkeys, List.map_append, List.map_cons]
    · rw [child_slot, heq, List.length_map]
      rfl
    · obtain ⟨k, hk, rfl⟩ := List.mem_map.mp hy
      exact hbehind k hk
  · rcases List.eq_nil_or_concat l with rfl | ⟨front, last, rfl⟩
    · rw [List.nil_append] at hkeys
      obtain ⟨x, rest, hrest⟩ := List.exists_cons_of_ne_nil (hkeys ▸ hne)
      rw [hrest] at hkeys hr
      refine ⟨[], rank x, rest.map rank, ?_, ?_, Or.inl rfl, fun y hy => ?_⟩
      · rw [hkeys, List.map_cons, List.nil_append]
      · rw [child_slot, heq]
        rfl
      · obtain ⟨k, hk, rfl⟩ := List.mem_map.mp hy
        exact hr k (List.mem_cons_of_mem _ hk)
    · refine ⟨front.map rank, rank last, r.map rank, ?_, ?_, Or.inr (le_of_lt ?_), fun y hy => ?_⟩
      · rw [hkeys, List.concat_eq_append, List.map_append, List.map_append, List.append_assoc]
        rfl
      · have hslot : (front.concat last).length = front.length + 1 := List.length_concat
        rw [child_slot, heq, hslot, List.length_map]
        rfl
      · rw [List.concat_eq_append] at hl
        exact hl last (List.mem_append_right _ (List.mem_singleton_self _))
      · obtain ⟨k, hk, rfl⟩ := List.mem_map.mp hy
        exact hr k hk

end SysbakAdmin.BtrfsTree

/-
The radix tree of `src/xfs/radix-tree.c`, in which the allocation groups of a mounted XFS file
system are kept by their numbers.

A tree has a height, and an index goes down by its digits of six bits. It grows at the top when
an index does not fit, and shrinks there when only the first slot of the root is left. What an
allocation that fails leaves behind are nodes without items: the tree is higher or has an empty
branch, and holds what it held.

The faithful tree is a trie of `Lib/Trie` with slots for six bits and its height in the root;
the counts the code keeps in the nodes are the trie's. `found` reads a tree as a function from
indexes to items, and each operation has one lemma that says what it does to that function:
insert and delete change it at one index, whatever allocations fail, and a lookup reads it.

Over a run of calls the tree is compared with a finite map (`radix_tree_refines`). Not every
call comes back: an insert that fails in an empty tree can leave it with all eleven levels and
no node, and the next one asks the table of maximal indexes for a twelfth. Without failed
allocations this does not happen (`radix_tree_returns`), and the tree is then determined by
what it holds (`radix_tree_canonical`).
-/
import SysbakAdmin.Lib.Trie
import SysbakAdmin.Lib.EventRun
import Mathlib.Data.Nat.Bitwise

set_option autoImplicit false

namespace SysbakAdmin.RadixTree

open Trie EventRun

/-! ## The code -/

def ENOMEM : ℤ := 12
def EEXIST : ℤ := 17

def RADIX_TREE_MAP_SHIFT : ℕ := 6
def RADIX_TREE_MAP_SIZE : ℕ := 64
def RADIX_TREE_MAP_MASK : ℕ := 63
def RADIX_TREE_INDEX_BITS : ℕ := 64
def RADIX_TREE_MAX_PATH : ℕ := RADIX_TREE_INDEX_BITS / RADIX_TREE_MAP_SHIFT + 2

/-- `__maxindex`: the largest index of a tree of a height. -/
def __maxindex (height : ℕ) : ℕ :=
  let width := height * RADIX_TREE_MAP_SHIFT
  let shift : ℤ := RADIX_TREE_INDEX_BITS - width
  -- the shift is an `int`, so that a height with room to spare comes out negative
  if shift < 0 then 2 ^ 64 - 1
  else if shift ≥ 64 then 0
  else (2 ^ 64 - 1) >>> shift.toNat

/-- The table `radix_tree_init` fills. -/
def height_to_maxindex : List ℕ := (List.range RADIX_TREE_MAX_PATH).map __maxindex

/-- `radix_tree_maxindex`, with `none` where it reads beyond the table. -/
def radix_tree_maxindex (height : ℕ) : Option ℕ := height_to_maxindex[height]?

/-- The slots of a level: items at the bottom, nodes above. -/
abbrev radix_tree_slot (α : Type) (height : ℕ) : Type := Slot RADIX_TREE_MAP_SIZE α height

structure radix_tree_root (α : Type) where
  height : ℕ
  rnode : Option (radix_tree_slot α height)

section Code

variable {α : Type}

def INIT_RADIX_TREE : radix_tree_root α := ⟨0, none⟩

/-- The digit of an index at the slots of a level. -/
def offset (index height : ℕ) : Fin RADIX_TREE_MAP_SIZE :=
  ⟨index >>> (height * RADIX_TREE_MAP_SHIFT) &&& RADIX_TREE_MAP_MASK,
    Nat.lt_succ_of_le Nat.and_le_right⟩

/-- The first slot of a node. -/
def slot_0 : Fin RADIX_TREE_MAP_SIZE := ⟨0, Nat.succ_pos 63⟩

/-- `radix_tree_node_alloc`, where so many allocations succeed before one fails. -/
def radix_tree_node_alloc (σ : Type) : ℕ → Option (Node RADIX_TREE_MAP_SIZE σ × ℕ)
  | 0 => none
  | allocs + 1 => some (⟨0, fun _ => none⟩, allocs)

/-- `radix_tree_lookup`, with the way down of `__lookup_slot`. -/
def radix_tree_lookup (root : radix_tree_root α) (index : ℕ) : Option (Option α) :=
  match radix_tree_maxindex root.height with
  | none => none
  | some maxindex =>
    if maxindex < index then some none
    else some (find (offset index) root.height root.rnode)

/-- The first loop of `radix_tree_extend`, over what is left of the table from a height on. -/
def radix_tree_extend_height (index : ℕ) : List ℕ → ℕ → Option ℕ
  | [], _ => none
  | maxindex :: rest, height =>
    if maxindex < index then radix_tree_extend_height index rest (height + 1) else some height

/-- The second one, until the tree is `left` levels higher. -/
def radix_tree_extend_loop : ℕ → radix_tree_root α → ℕ → ℤ × radix_tree_root α × ℕ
  | 0, root, allocs => (0, root, allocs)
  | left + 1, root, allocs =>
    match radix_tree_node_alloc (radix_tree_slot α root.height) allocs with
    | none => (-ENOMEM, root, 0)
    | some (node, allocs) =>
      radix_tree_extend_loop left
        ⟨root.height + 1, some ⟨1, Function.update node.slots slot_0 root.rnode⟩⟩ allocs

/-- `radix_tree_extend`; `none` where it reads beyond the table. -/
def radix_tree_extend (root : radix_tree_root α) (index allocs : ℕ) :
    Option (ℤ × radix_tree_root α × ℕ) :=
  match radix_tree_extend_height index (height_to_maxindex.drop (root.height + 1))
      (root.height + 1) with
  | none => none
  | some height =>
    -- an empty tree grows in height only; there is nothing to hang below a new node
    match root.rnode with
    | none => some (0, ⟨height, none⟩, allocs)
    | some _ => some (radix_tree_extend_loop (height - root.height) root allocs)

/-- The node a slot leads to, allocated where there is none. -/
def node_or_alloc {height : ℕ} (slot : Option (radix_tree_slot α (height + 1))) (allocs : ℕ) :
    Option (Node RADIX_TREE_MAP_SIZE (radix_tree_slot α height) × ℕ) :=
  match slot with
  | none => radix_tree_node_alloc (radix_tree_slot α height) allocs
  | some node => some (node, allocs)

/-- The loop of `radix_tree_insert` from a slot on: what is returned, and what the slot holds
then. A node is linked in and counted when it is allocated. -/
def radix_tree_insert_loop (index : ℕ) (item : α) : (height : ℕ) →
    Option (radix_tree_slot α (height + 1)) → ℕ → ℤ × Option (radix_tree_slot α (height + 1))
  | 0, slot, allocs =>
    match node_or_alloc slot allocs with
    | none => (-ENOMEM, none)
    | some (node, _) =>
      -- a slot that is taken is left alone; the nodes above it were there already
      match node.slots (offset index 0) with
      | some _ => (-EEXIST, some node)
      | none =>
        (0, some ⟨node.count + 1, Function.update node.slots (offset index 0) (some item)⟩)
  | height + 1, slot, allocs =>
    match node_or_alloc slot allocs with
    | none => (-ENOMEM, none)
    | some (node, allocs) =>
      let slot := node.slots (offset index (height + 1))
      let below := radix_tree_insert_loop index item height slot allocs
      -- the count goes up when the slot is filled, not when the item is in
      let count := if slot.isNone && below.2.isSome then node.count + 1 else node.count
      (below.1, some ⟨count, Function.update node.slots (offset index (height + 1)) below.2⟩)

/-- The loop, over the whole tree. It is never at height 0, where its shifts are undefined. -/
def radix_tree_insert_from (index : ℕ) (item : α) (allocs : ℕ) :
    radix_tree_root α → Option (ℤ × radix_tree_root α)
  | ⟨0, _⟩ => none
  | ⟨height + 1, rnode⟩ =>
    let done := radix_tree_insert_loop index item height rnode allocs
    some (done.1, ⟨height + 1, done.2⟩)

/-- `radix_tree_insert`, of an item that is not `NULL`. -/
def radix_tree_insert (root : radix_tree_root α) (index : ℕ) (item : α) (allocs : ℕ) :
    Option (ℤ × radix_tree_root α) :=
  match radix_tree_maxindex root.height with
  | none => none
  | some maxindex =>
    -- index 0 of an empty tree is beyond it too: height 0 has no slot
    if (index = 0 ∧ root.rnode.isNone) ∨ maxindex < index then
      match radix_tree_extend root index allocs with
      | none => none
      | some (error, root, allocs) =>
        if error ≠ 0 then some (error, root) else radix_tree_insert_from index item allocs root
    else radix_tree_insert_from index item allocs root

/-- `radix_tree_shrink`. -/
def radix_tree_shrink : (height : ℕ) → Option (radix_tree_slot α height) → radix_tree_root α
  | 0, rnode => ⟨0, rnode⟩
  | 1, rnode => ⟨1, rnode⟩
  | height + 2, none => ⟨height + 2, none⟩
  | height + 2, some node =>
    -- one item left, and in the first slot: the level says nothing any more
    if Node.count node = 1 ∧ (Node.slots node slot_0).isSome then
      radix_tree_shrink (height + 1) (Node.slots node slot_0)
    else ⟨height + 2, some node⟩

/-- The way back up of `radix_tree_delete`: a slot is cleared, and so is the one above where the
node is left empty. What is left of the slot it comes to, and whether the loop ended there. -/
def radix_tree_delete_loop (index : ℕ) : (height : ℕ) → Option (radix_tree_slot α height) →
    Option (radix_tree_slot α height) × Bool
  | _, none => (none, false)
  | 0, some _ => (none, false)
  | height + 1, some node =>
    match radix_tree_delete_loop index height (Node.slots node (offset index height)) with
    | (some slot, _) =>
      (some ⟨Node.count node, Function.update (Node.slots node) (offset index height) (some slot)⟩,
        false)
    | (none, _) =>
      let count := Node.count node - 1
      -- a node that is not empty ends the way up; at the root the tree may be too high now
      if count ≠ 0 then
        (some ⟨count, Function.update (Node.slots node) (offset index height) none⟩, true)
      else (none, false)

/-- `radix_tree_delete`. -/
def radix_tree_delete (root : radix_tree_root α) (index : ℕ) :
    Option (Option α × radix_tree_root α) :=
  match radix_tree_maxindex root.height with
  | none => none
  | some maxindex =>
    if maxindex < index then some (none, root)
    else
      match find (offset index) root.height root.rnode with
      | none => some (none, root)
      | some ret =>
        match radix_tree_delete_loop index root.height root.rnode with
        | (none, _) => some (some ret, ⟨0, none⟩)
        | (some node, true) => some (some ret, radix_tree_shrink root.height (some node))
        | (some node, false) => some (some ret, ⟨root.height, some node⟩)

end Code

/-! ## Indexes and their digits

An index has eleven digits of six bits, the highest of which has four. A tree of a height has
room for the indexes whose other digits are zero. -/

theorem map_size_pos : 0 < RADIX_TREE_MAP_SIZE := Nat.succ_pos 63

/-- The indexes of a tree of a height. -/
def room (height : ℕ) : ℕ := min (64 ^ height) (2 ^ 64)

theorem height_to_maxindex_eq :
    height_to_maxindex = (List.range 12).map fun height => room height - 1 := by decide

theorem room_pos (height : ℕ) : 0 < room height :=
  lt_min (Nat.pow_pos (by decide)) (by decide)

theorem room_le_pow (height : ℕ) : room height ≤ 64 ^ height := min_le_left _ _

theorem room_le (height : ℕ) : room height ≤ 2 ^ 64 := min_le_right _ _

theorem room_mono {a b : ℕ} (h : a ≤ b) : room a ≤ room b :=
  min_le_min_right _ (Nat.pow_le_pow_right (by decide) h)

/-- Below the last height every index of so many digits is in range. -/
theorem room_eq {height : ℕ} (h : height ≤ 10) : room height = 64 ^ height := by
  refine min_eq_left ?_
  calc 64 ^ height ≤ 64 ^ 10 := Nat.pow_le_pow_right (by decide) h
    _ ≤ 2 ^ 64 := by decide

theorem room_last : room 11 = 2 ^ 64 := by decide

theorem maxindex_eq {height : ℕ} (h : height ≤ 11) :
    radix_tree_maxindex height = some (room height - 1) := by
  rw [radix_tree_maxindex, height_to_maxindex_eq, List.getElem?_map,
    List.getElem?_range (Nat.lt_succ_of_le h), Option.map_some]

/-- An index is beyond the last one of a height. -/
theorem beyond_iff {height index : ℕ} : room height - 1 < index ↔ room height ≤ index := by
  have hpos := room_pos height
  omega

theorem offset_val (index height : ℕ) : (offset index height).val = index / 64 ^ height % 64 := by
  have hpow : 2 ^ (height * 6) = 64 ^ height := by rw [Nat.mul_comm, Nat.pow_mul]
  calc (offset index height).val = index >>> (height * 6) &&& (2 ^ 6 - 1) := rfl
    _ = index / 64 ^ height % 2 ^ 6 := by
        rw [Nat.and_two_pow_sub_one_eq_mod, Nat.shiftRight_eq_div_pow, hpow]

/-- The way of an index is the way of another when the indexes agree that far. -/
theorem agree_offset {index j : ℕ} (height : ℕ) :
    agree height (offset index) (offset j) ↔ j % 64 ^ height = index % 64 ^ height := by
  induction height with
  | zero => simp [agree_zero, Nat.mod_one]
  | succ height ih =>
      rw [agree_succ, ih, Fin.ext_iff, offset_val, offset_val, Nat.mod_pow_succ, Nat.mod_pow_succ]
      have hj := Nat.mod_lt j (Nat.pow_pos (n := height) (show 0 < 64 by decide))
      have hi := Nat.mod_lt index (Nat.pow_pos (n := height) (show 0 < 64 by decide))
      constructor
      · rintro ⟨hdigit, hbelow⟩
        rw [hdigit, hbelow]
      · intro hsame
        have hdigit := congrArg (· / 64 ^ height) hsame
        have hbelow := congrArg (· % 64 ^ height) hsame
        simp only [Nat.add_mul_div_left _ _ (Nat.pow_pos (n := height) (show 0 < 64 by decide)),
          Nat.div_eq_of_lt hj, Nat.div_eq_of_lt hi, Nat.zero_add, Nat.add_mul_mod_self_left,
          Nat.mod_mod] at hdigit hbelow
        exact ⟨hdigit, hbelow⟩

/-- In the room of a tree an index is found by its way alone. -/
theorem agree_iff {height index j : ℕ} (hindex : index < room height) (hj : j < room height) :
    agree height (offset index) (offset j) ↔ j = index := by
  rw [agree_offset, Nat.mod_eq_of_lt (hj.trans_le (room_le_pow height)),
    Nat.mod_eq_of_lt (hindex.trans_le (room_le_pow height))]

/-- The digit at the top is the first one just for the indexes of the level below. -/
theorem offset_eq_zero_iff {height index : ℕ} (h : index < 64 ^ (height + 1)) :
    offset index height = slot_0 ↔ index < 64 ^ height := by
  have hpos : 0 < 64 ^ height := Nat.pow_pos (by decide)
  rw [Fin.ext_iff, offset_val, show (slot_0).val = 0 from rfl]
  rw [Nat.pow_succ] at h
  rw [Nat.mod_eq_of_lt (Nat.div_lt_of_lt_mul h), Nat.div_eq_zero_iff]
  omega

/-! ## Putting an item in

`insert_effect` says what an insert does to what is found, in the three ways it can return; it
is stated of a slot, and goes up from the bottom to the root. -/

section Insert

variable {α : Type}

/-- What an insert does to what is found at the places `here`, as its return value tells; it
runs out of memory only where there is not `enough`. -/
inductive insert_effect {ι : Type} (here : ι → Prop) (before after : ι → Option α) (item : α)
    (enough : Prop) : ℤ → Prop
  | present : (∀ i, here i → (before i).isSome) → after = before →
      insert_effect here before after item enough (-EEXIST)
  | placed : (∀ i, here i → before i = none) → (∀ i, here i → after i = some item) →
      (∀ i, ¬ here i → after i = before i) → insert_effect here before after item enough 0
  | short : (∀ i, here i → before i = none) → after = before → ¬ enough →
      insert_effect here before after item enough (-ENOMEM)

section Effect

variable {ι : Type} {here : ι → Prop} {before after : ι → Option α} {item : α} {enough : Prop}
  {ret : ℤ}

/-- What is there after an insert was there before, or was put in. -/
theorem insert_effect.was_there (h : insert_effect here before after item enough ret) {i : ι}
    (hi : (after i).isSome) : here i ∨ (before i).isSome := by
  cases h with
  | present _ hsame => exact Or.inr (hsame ▸ hi)
  | placed _ _ hoff =>
      by_cases hhere : here i
      · exact Or.inl hhere
      · exact Or.inr (hoff i hhere ▸ hi)
  | short _ hsame _ => exact Or.inr (hsame ▸ hi)

/-- It may be known to run short of memory in fewer cases. -/
theorem insert_effect.of_enough {enough' : Prop}
    (h : insert_effect here before after item enough ret) (henough : enough' → enough) :
    insert_effect here before after item enough' ret := by
  cases h with
  | present hall hsame => exact .present hall hsame
  | placed hnone hat hoff => exact .placed hnone hat hoff
  | short hnone hsame hlack => exact .short hnone hsame fun h' => hlack (henough h')

/-- Nothing is lost by an insert. -/
theorem insert_effect.kept (h : insert_effect here before after item enough ret) {i : ι}
    (hi : (before i).isSome) : (after i).isSome := by
  cases h with
  | present _ hsame => exact hsame ▸ hi
  | placed _ hat hoff =>
      by_cases hhere : here i
      · rw [hat i hhere]
        rfl
      · rw [hoff i hhere]
        exact hi
  | short _ hsame _ => exact hsame ▸ hi

/-- After an insert that had memory the place is taken. -/
theorem insert_effect.there (h : insert_effect here before after item enough ret)
    (hret : ret ≠ -ENOMEM) {i : ι} (hi : here i) : (after i).isSome := by
  cases h with
  | present hall hsame => exact hsame ▸ hall i hi
  | placed _ hat _ =>
      rw [hat i hi]
      rfl
  | short _ _ _ => exact absurd rfl hret

end Effect

/-- The places of an index below a slot. -/
abbrev below_at (index height : ℕ) (e : ℕ → Fin RADIX_TREE_MAP_SIZE) : Prop :=
  agree height (offset index) e

/-- What is found below a slot. -/
abbrev found (height : ℕ) (slot : Option (radix_tree_slot α height))
    (e : ℕ → Fin RADIX_TREE_MAP_SIZE) : Option α := find e height slot

/-- The node of a slot, with what it holds: a new one holds nothing. So going down through it
changes nothing of what is found. -/
theorem node_or_alloc_spec {height allocs allocs' : ℕ}
    {slot : Option (radix_tree_slot α (height + 1))}
    {node : Node RADIX_TREE_MAP_SIZE (radix_tree_slot α height)}
    (hcounted : counted (height + 1) slot)
    (h : node_or_alloc slot allocs = some (node, allocs')) :
    counted (α := α) (height + 1) (some node) ∧ allocs ≤ allocs' + 1 ∧
      found (α := α) (height + 1) (some node) = found (height + 1) slot := by
  cases slot with
  | some old =>
      cases h
      exact ⟨hcounted, Nat.le_succ _, rfl⟩
  | none =>
      cases allocs with
      | zero => cases h
      | succ allocs =>
          cases h
          refine ⟨(each_some _ _).mpr ⟨taken_empty.symm, fun _ => each_none _⟩, le_rfl, ?_⟩
          funext e
          rw [found, found, find_some, find_none, find_none]

/-- Below it no node is empty that was not before. -/
theorem node_or_alloc_filled {height allocs allocs' : ℕ}
    {slot : Option (radix_tree_slot α (height + 1))}
    {node : Node RADIX_TREE_MAP_SIZE (radix_tree_slot α height)}
    (hfilled : filled (height + 1) slot) (h : node_or_alloc slot allocs = some (node, allocs'))
    (i : Fin RADIX_TREE_MAP_SIZE) :
    filled height (node.slots i) := by
  cases slot with
  | some old =>
      cases h
      exact hfilled.2 i
  | none =>
      cases allocs with
      | zero => cases h
      | succ _ =>
          cases h
          exact each_none height

/-- Without memory a slot that is taken stays. -/
theorem node_or_alloc_eq_none {height allocs : ℕ} {slot : Option (radix_tree_slot α (height + 1))}
    (h : node_or_alloc slot allocs = none) : slot = none ∧ allocs = 0 := by
  cases slot with
  | some _ => cases h
  | none =>
      cases allocs with
      | zero => exact ⟨rfl, rfl⟩
      | succ _ => cases h

/-- The count of a node one of whose slots was taken. -/
theorem counted_link (height : ℕ) {node : Node RADIX_TREE_MAP_SIZE (radix_tree_slot α height)}
    {d : Fin RADIX_TREE_MAP_SIZE} (below : Option (radix_tree_slot α height))
    (hcounted : counted (α := α) (height + 1) (some node)) (hbelow : counted height below)
    (hkept : (node.slots d).isSome → below.isSome) :
    counted (α := α) (height + 1)
      (some ⟨if (node.slots d).isNone && below.isSome then node.count + 1 else node.count,
        Function.update node.slots d below⟩) := by
  refine each_update ?_ hcounted.2 hbelow
  have hcount : node.count = taken node.slots := hcounted.1
  rw [taken_update, hcount, taken_eq node.slots d]
  cases hslot : node.slots d with
  | some old =>
      have hsome := hkept (by rw [hslot]; rfl)
      simp [hsome]
  | none => cases below <;> simp

/-- An effect below a node is one at the node. -/
theorem insert_effect.up {index height : ℕ} {item : α} {enough : Prop} {ret : ℤ} {count : ℕ}
    {node : Node RADIX_TREE_MAP_SIZE (radix_tree_slot α height)}
    {below : Option (radix_tree_slot α height)}
    (h : insert_effect (below_at index height) (found height (node.slots (offset index height)))
      (found height below) item enough ret) :
    insert_effect (below_at index (height + 1))
      (found (α := α) (height + 1) (some node))
      (found (α := α) (height + 1)
        (some ⟨count, Function.update node.slots (offset index height) below⟩))
      item enough ret := by
  have hafter : ∀ e, found (α := α) (height + 1)
      (some ⟨count, Function.update node.slots (offset index height) below⟩) e
        = if e height = offset index height then found height below e
          else find e height (node.slots (e height)) :=
    fun e => find_update e height count node.slots (offset index height) below
  have hsame : found height below = found height (node.slots (offset index height)) →
      found (α := α) (height + 1)
        (some ⟨count, Function.update node.slots (offset index height) below⟩)
        = found (α := α) (height + 1) (some node) := by
    intro hfound
    funext e
    rw [hafter, hfound, found, found, find_some]
    split_ifs with hdigit
    · rw [hdigit]
    · rfl
  have hbefore : ∀ e, below_at index (height + 1) e →
      found (α := α) (height + 1) (some node) e
        = found height (node.slots (offset index height)) e := by
    intro e he
    rw [found, found, find_some, (agree_succ.mp he).1]
  cases h with
  | present hall hfound =>
      refine .present (fun e he => ?_) (hsame hfound)
      rw [hbefore e he]
      exact hall e (agree_succ.mp he).2
  | placed hnone hat hoff =>
      refine .placed (fun e he => ?_) (fun e he => ?_) fun e he => ?_
      · rw [hbefore e he]
        exact hnone e (agree_succ.mp he).2
      · rw [hafter, if_pos (agree_succ.mp he).1]
        exact hat e (agree_succ.mp he).2
      · rw [hafter]
        split_ifs with hdigit
        · have hbelow : ¬ below_at index height e := fun hb => he (agree_succ.mpr ⟨hdigit, hb⟩)
          rw [hoff e hbelow, found, found, find_some, hdigit]
        · rfl
  | short hnone hfound hlack =>
      refine .short (fun e he => ?_) (hsame hfound) hlack
      rw [hbefore e he]
      exact hnone e (agree_succ.mp he).2

/-- **The loop of `radix_tree_insert`**, from a slot whose counts are right. A node is put in on
the way down where there is none, and if the memory ends there the branch is left empty: the
counts are right all the same, and what is held is as before. -/
theorem radix_tree_insert_loop_spec (index : ℕ) (item : α) : ∀ (height : ℕ)
    (slot : Option (radix_tree_slot α (height + 1))) (allocs : ℕ), counted (height + 1) slot →
    counted (height + 1) (radix_tree_insert_loop index item height slot allocs).2 ∧
      (slot.isSome → (radix_tree_insert_loop index item height slot allocs).2.isSome) ∧
      insert_effect (below_at index (height + 1)) (found (height + 1) slot)
        (found (height + 1) (radix_tree_insert_loop index item height slot allocs).2) item
        (height < allocs)
        (radix_tree_insert_loop index item height slot allocs).1 := by
  intro height
  induction height with
  | zero =>
      intro slot allocs hcounted
      rw [radix_tree_insert_loop]
      cases hnode : node_or_alloc slot allocs with
      | none =>
          obtain ⟨rfl, rfl⟩ := node_or_alloc_eq_none hnode
          exact ⟨hcounted, id, .short (fun _ _ => rfl) rfl (lt_irrefl 0)⟩
      | some done =>
          obtain ⟨node, allocs'⟩ := done
          obtain ⟨hcounted', -, hfound⟩ := node_or_alloc_spec hcounted hnode
          rw [← hfound]
          dsimp only
          cases hslot : node.slots (offset index 0) with
          | some old =>
              refine ⟨hcounted', fun _ => rfl, .present (fun e he => ?_) rfl⟩
              rw [found, find_some, (agree_succ.mp he).1, hslot]
              rfl
          | none =>
              refine ⟨?_, fun _ => rfl, ?_⟩
              · have hlink := counted_link 0 (some item) (d := offset index 0) hcounted' trivial
                  fun _ => rfl
                rw [hslot] at hlink
                exact hlink
              · refine insert_effect.up (.placed ?_ ?_ ?_)
                · intro e _
                  rw [hslot, found, find_none]
                · intro e _
                  rfl
                · intro e he
                  exact absurd (agree_zero _ _) he
  | succ height ih =>
      intro slot allocs hcounted
      rw [radix_tree_insert_loop]
      cases hnode : node_or_alloc slot allocs with
      | none =>
          obtain ⟨rfl, rfl⟩ := node_or_alloc_eq_none hnode
          refine ⟨hcounted, id, .short (fun e _ => find_none e _) rfl (Nat.not_lt_zero _)⟩
      | some done =>
          obtain ⟨node, allocs'⟩ := done
          obtain ⟨hcounted', hallocs, hfound⟩ := node_or_alloc_spec hcounted hnode
          obtain ⟨hbelow, hkept, heffect⟩ :=
            ih (node.slots (offset index (height + 1))) allocs' (hcounted'.2 _)
          rw [← hfound]
          refine ⟨counted_link _ _ hcounted' hbelow hkept, fun _ => rfl,
            heffect.up.of_enough fun henough => ?_⟩
          omega

/-- No empty node is left where the memory sufficed. -/
theorem radix_tree_insert_loop_filled (index : ℕ) (item : α) : ∀ (height : ℕ)
    (slot : Option (radix_tree_slot α (height + 1))) (allocs : ℕ), filled (height + 1) slot →
    (radix_tree_insert_loop index item height slot allocs).1 ≠ -ENOMEM →
    filled (height + 1) (radix_tree_insert_loop index item height slot allocs).2 ∧
      (radix_tree_insert_loop index item height slot allocs).2.isSome := by
  intro height
  induction height with
  | zero =>
      intro slot allocs hfilled
      rw [radix_tree_insert_loop]
      cases hnode : node_or_alloc slot allocs with
      | none => exact fun hret => absurd rfl hret
      | some done =>
          obtain ⟨node, allocs'⟩ := done
          dsimp only
          cases hslot : node.slots (offset index 0) with
          | some old =>
              intro _
              refine ⟨(each_some _ _).mpr ⟨?_, node_or_alloc_filled hfilled hnode⟩, rfl⟩
              exact taken_pos_iff.mpr ⟨offset index 0, by rw [hslot]; rfl⟩
          | none =>
              intro _
              have hslots := node_or_alloc_filled hfilled hnode
              exact ⟨each_update (taken_update_pos rfl) hslots trivial, rfl⟩
  | succ height ih =>
      intro slot allocs hfilled
      rw [radix_tree_insert_loop]
      cases hnode : node_or_alloc slot allocs with
      | none => exact fun hret => absurd rfl hret
      | some done =>
          obtain ⟨node, allocs'⟩ := done
          dsimp only
          intro hret
          obtain ⟨hbelow, hsome⟩ := ih _ _ (node_or_alloc_filled hfilled hnode _) hret
          have hslots := node_or_alloc_filled hfilled hnode
          exact ⟨each_update (taken_update_pos hsome) hslots hbelow, rfl⟩

end Insert

/-! ## Trees

A root has a height, and the slots below it the counts. `holds` is what a lookup finds. -/

section Root

variable {α : Type} {root : radix_tree_root α}

/-- What a tree holds. -/
def holds (root : radix_tree_root α) (index : ℕ) : Option α :=
  if index < room root.height then find (offset index) root.height root.rnode else none

/-- A tree as the calls leave it: each item stands at an index that fits. Failed allocations are
allowed for: there may be nodes without items, and a height that no item needs. -/
structure sound (root : radix_tree_root α) : Prop where
  height_le : root.height ≤ 11
  bare : root.height = 0 → root.rnode = none
  counts : counted root.height root.rnode
  named : ∀ e, (find e root.height root.rnode).isSome →
    ∃ index < room root.height, agree root.height (offset index) e

theorem sound_init : sound (INIT_RADIX_TREE : radix_tree_root α) where
  height_le := Nat.zero_le _
  bare _ := rfl
  counts := trivial
  named _ h := absurd h Bool.false_ne_true

theorem holds_of_lt {index : ℕ} (h : index < room root.height) :
    holds root index = find (offset index) root.height root.rnode := if_pos h

theorem holds_of_le {index : ℕ} (h : room root.height ≤ index) : holds root index = none :=
  if_neg (Nat.not_lt.mpr h)

/-- Without a root nothing is held. -/
theorem holds_bare (h : root.rnode = none) : holds root = fun _ => none := by
  funext index
  rw [holds, h, find_none, ite_self]

theorem radix_tree_lookup_eq (h : sound root) (index : ℕ) :
    radix_tree_lookup root index = some (holds root index) := by
  rw [radix_tree_lookup, maxindex_eq h.height_le]
  dsimp only
  by_cases hindex : index < room root.height
  · rw [if_neg (beyond_iff.not.mpr (Nat.not_le.mpr hindex)), holds_of_lt hindex]
  · rw [if_pos (beyond_iff.mpr (Nat.not_lt.mp hindex)), holds_of_le (Nat.not_lt.mp hindex)]

/-- An item that is found is held at an index. -/
theorem sound.holds_found (h : sound root) {e : ℕ → Fin RADIX_TREE_MAP_SIZE} {a : α}
    (hfind : find e root.height root.rnode = some a) :
    ∃ index < room root.height, agree root.height (offset index) e ∧ holds root index = some a := by
  obtain ⟨index, hindex, hagree⟩ := h.named e (by rw [hfind]; rfl)
  refine ⟨index, hindex, hagree, ?_⟩
  rw [holds_of_lt hindex, ← hfind]
  exact find_congr _ _ fun k hk => (hagree k hk).symm

/-- What an insert does at the digits of an index it does at the index. -/
theorem insert_effect.holds {index height : ℕ} {item : α} {enough : Prop} {ret : ℤ}
    {rnode rnode' : Option (radix_tree_slot α height)} (hindex : index < room height)
    (h : insert_effect (below_at index height) (found height rnode) (found height rnode') item
      enough ret) :
    insert_effect (· = index) (holds ⟨height, rnode⟩) (holds ⟨height, rnode'⟩) item enough ret := by
  have hself : below_at index height (offset index) := fun _ _ => rfl
  have hsame : found height rnode' = found height rnode →
      RadixTree.holds ⟨height, rnode'⟩ = RadixTree.holds ⟨height, rnode⟩ := by
    intro hfound
    funext j
    unfold RadixTree.holds
    rw [show find (offset j) height rnode' = find (offset j) height rnode from
      congrFun hfound (offset j)]
  cases h with
  | present hall hfound =>
      refine .present ?_ (hsame hfound)
      rintro _ rfl
      rw [holds_of_lt hindex]
      exact hall _ hself
  | placed hnone hat hoff =>
      refine .placed ?_ ?_ fun j hj => ?_
      · rintro _ rfl
        rw [holds_of_lt hindex]
        exact hnone _ hself
      · rintro _ rfl
        rw [holds_of_lt hindex]
        exact hat _ hself
      · by_cases hroom : j < room height
        · rw [holds_of_lt hroom, holds_of_lt hroom]
          exact hoff _ fun hagree => hj ((agree_iff hindex hroom).mp hagree)
        · rw [holds_of_le (Nat.not_lt.mp hroom), holds_of_le (Nat.not_lt.mp hroom)]
  | short hnone hfound hlack =>
      refine .short ?_ (hsame hfound) hlack
      rintro _ rfl
      rw [holds_of_lt hindex]
      exact hnone _ hself

/-- **A node put above a tree**, which becomes its first slot, changes nothing of what it holds.
The digit of the new level is 0 for every index the old tree had room for. -/
theorem holds_grow {height count : ℕ} (rnode : Option (radix_tree_slot α height))
    (hheight : height ≤ 10) :
    holds ⟨height + 1, some ⟨count, Function.update (fun _ => none) slot_0 rnode⟩⟩
      = holds ⟨height, rnode⟩ := by
  funext j
  by_cases hup : j < room (height + 1)
  · rw [holds_of_lt hup]
    have hfind := find_update (offset j) height count (fun _ => none) slot_0 rnode
    have hdigit : offset j height = slot_0 ↔ j < room height := by
      rw [room_eq hheight]
      exact offset_eq_zero_iff (hup.trans_le (room_le_pow _))
    rw [hfind]
    split_ifs with hj
    · rw [holds_of_lt (hdigit.mp hj)]
    · rw [find_none, holds_of_le (Nat.not_lt.mp (hdigit.not.mp hj))]
  · have hj : room height ≤ j := (room_mono (Nat.le_succ height)).trans (Nat.not_lt.mp hup)
    rw [holds_of_le (Nat.not_lt.mp hup), holds_of_le hj]

/-- Such a node, with its count. -/
theorem sound_grow {height : ℕ} {rnode : Option (radix_tree_slot α height)}
    (h : sound ⟨height, rnode⟩) (hheight : height ≤ 10) (hsome : rnode.isSome) :
    sound ⟨height + 1, some ⟨1, Function.update (fun _ => none) slot_0 rnode⟩⟩ where
  height_le := Nat.succ_le_succ hheight
  bare hzero := absurd hzero (Nat.succ_ne_zero height)
  counts := by
    refine each_update ?_ (fun _ => each_none height) h.counts
    have hempty := taken_eq (fun _ : Fin RADIX_TREE_MAP_SIZE =>
      (none : Option (radix_tree_slot α height))) slot_0
    rw [taken_empty] at hempty
    rw [taken_update, if_pos hsome]
    omega
  named e he := by
    have hfind := find_update e height 1 (fun _ => none) slot_0 rnode
    rw [hfind] at he
    split_ifs at he with hdigit
    · obtain ⟨index, hindex, hagree⟩ := h.named e he
      have hfits : index < room (height + 1) := hindex.trans_le (room_mono (Nat.le_succ height))
      refine ⟨index, hfits, agree_succ.mpr ⟨?_, hagree⟩⟩
      rw [hdigit, (offset_eq_zero_iff (hfits.trans_le (room_le_pow _))).mpr]
      exact hindex.trans_le (room_le_pow height)
    · rw [find_none] at he
      exact absurd he Bool.false_ne_true

end Root

/-! ## Growing

A tree grows without its items being touched: a new root takes the old tree for its first slot.
-/

section Extend

variable {α : Type} {root : radix_tree_root α}

/-- The height `radix_tree_extend` takes is the first from a height on that fits the index. The
table has an entry for each height up to eleven, and the last one is the greatest index. -/
theorem radix_tree_extend_height_spec {index : ℕ} (hindex : index < 2 ^ 64) (height : ℕ)
    (hheight : height ≤ 11) :
    ∃ top, radix_tree_extend_height index (height_to_maxindex.drop height) height = some top ∧
      height ≤ top ∧ top ≤ 11 ∧ index < room top ∧ (top = height ∨ room (top - 1) ≤ index) := by
  obtain ⟨hlt, hget⟩ := List.getElem?_eq_some_iff.mp (maxindex_eq hheight)
  rw [List.drop_eq_getElem_cons hlt, hget, radix_tree_extend_height]
  by_cases hup : room height ≤ index
  · have hlast : height ≠ 11 := by
      rintro rfl
      rw [room_last] at hup
      omega
    obtain ⟨top, hrun, hle, htop, hfits, hleast⟩ :=
      radix_tree_extend_height_spec hindex (height + 1) (by omega)
    rw [if_pos (beyond_iff.mpr hup)]
    refine ⟨top, hrun, by omega, htop, hfits, Or.inr ?_⟩
    rcases hleast with rfl | hleast
    · exact hup
    · exact hleast
  · rw [if_neg (beyond_iff.not.mpr hup)]
    exact ⟨height, rfl, le_rfl, hheight, Nat.not_le.mp hup, Or.inl rfl⟩
termination_by 11 - height

/-- The nodes put above a tree leave it as it is, as far as the memory goes. Each new root has the
old tree in its first slot (`holds_grow`). -/
theorem radix_tree_extend_loop_spec : ∀ (left : ℕ) (root : radix_tree_root α) (allocs : ℕ),
    sound root → root.rnode.isSome → root.height + left ≤ 11 →
    ∃ error root' allocs', radix_tree_extend_loop left root allocs = (error, root', allocs') ∧
      sound root' ∧ holds root' = holds root ∧
      (filled root.height root.rnode → filled root'.height root'.rnode) ∧
      (error = 0 ∧ root'.height = root.height + left ∧ allocs = allocs' + left ∨
        error = -ENOMEM ∧ allocs < left) := by
  intro left
  induction left with
  | zero =>
      intro root allocs h _ _
      exact ⟨0, root, allocs, rfl, h, rfl, id, Or.inl ⟨rfl, rfl, rfl⟩⟩
  | succ left ih =>
      rintro ⟨height, rnode⟩ allocs h hsome hroom
      cases allocs with
      | zero => exact ⟨-ENOMEM, _, 0, rfl, h, rfl, id, Or.inr ⟨rfl, Nat.succ_pos left⟩⟩
      | succ allocs =>
          change height + (left + 1) ≤ 11 at hroom
          have hheight : height ≤ 10 := by omega
          obtain ⟨error, root', allocs', hrun, hsound, hholds, hfull, hcase⟩ :=
            ih _ allocs (sound_grow h hheight hsome) rfl
              (show height + 1 + left ≤ 11 by omega)
          refine ⟨error, root', allocs', hrun, hsound, hholds.trans (holds_grow rnode hheight),
            fun hfilled => hfull ?_, ?_⟩
          · exact each_update (taken_update_pos hsome) (fun _ => each_none height) hfilled
          · rcases hcase with ⟨herror, hup, hallocs⟩ | ⟨herror, hshort⟩
            · refine Or.inl ⟨herror, ?_, by omega⟩
              rw [hup, Nat.add_assoc, Nat.add_comm 1 left]
            · exact Or.inr ⟨herror, by omega⟩

/-- **`radix_tree_extend`** from below the last height. It puts nodes above the root until the
index has room. An allocation that fails leaves the ones put so far, a higher tree that holds the
same. -/
theorem radix_tree_extend_spec (h : sound root) {index : ℕ} (hindex : index < 2 ^ 64) (allocs : ℕ)
    (hheight : root.height ≤ 10) :
    ∃ error root' allocs', radix_tree_extend root index allocs = some (error, root', allocs') ∧
      sound root' ∧ holds root' = holds root ∧
      (filled root.height root.rnode → filled root'.height root'.rnode) ∧
      (error = 0 ∧ root.height < root'.height ∧ index < room root'.height ∧
        (root'.height = root.height + 1 ∨ room (root'.height - 1) ≤ index) ∧ allocs ≤ allocs' + 11 ∨
        error = -ENOMEM ∧ allocs < 11) := by
  obtain ⟨top, htable, hle, htop, hfits, hleast⟩ :=
    radix_tree_extend_height_spec hindex (root.height + 1) (Nat.succ_le_succ hheight)
  rw [radix_tree_extend, htable]
  obtain ⟨height, rnode⟩ := root
  cases rnode with
  | none =>
      refine ⟨0, ⟨top, none⟩, allocs, rfl, ⟨htop, fun _ => rfl, each_none _, fun e he => ?_⟩, ?_,
        fun _ => each_none _, Or.inl ⟨rfl, hle, hfits, hleast, Nat.le_add_right _ _⟩⟩
      · rw [find_none] at he
        exact absurd he Bool.false_ne_true
      · rw [holds_bare rfl, holds_bare rfl]
  | some node =>
      change height + 1 ≤ top at hle
      obtain ⟨error, root', allocs', hrun, hsound, hholds, hfull, hcase⟩ :=
        radix_tree_extend_loop_spec (top - height) ⟨height, some node⟩ allocs h rfl
          (show height + (top - height) ≤ 11 by omega)
      refine ⟨error, root', allocs', congrArg some hrun, hsound, hholds, hfull, ?_⟩
      rcases hcase with ⟨herror, hup, hallocs⟩ | ⟨herror, hshort⟩
      · have htop' : root'.height = top := hup.trans (Nat.add_sub_of_le (Nat.le_of_succ_le hle))
        rw [htop']
        exact Or.inl ⟨herror, hle, hfits, hleast, by omega⟩
      · exact Or.inr ⟨herror, by omega⟩

/-- At the last height there is no room above. -/
theorem radix_tree_extend_full (hheight : root.height = 11) (index allocs : ℕ) :
    radix_tree_extend root index allocs = none := by
  obtain ⟨height, rnode⟩ := root
  cases hheight
  rfl

end Extend

/-! ## The calls on a tree -/

section Calls

variable {α : Type} {root : radix_tree_root α}

/-- A tree without a node too many: none is empty, and the height is one an item needs. It is what
the calls keep as long as memory lasts. -/
structure trim (root : radix_tree_root α) : Prop where
  full : filled root.height root.rnode
  rooted : root.rnode = none → root.height = 0
  tall : 1 < root.height → ∃ j, room (root.height - 1) ≤ j ∧ (holds root j).isSome

theorem trim_init : trim (INIT_RADIX_TREE : radix_tree_root α) where
  full := trivial
  rooted _ := rfl
  tall h := absurd h (Nat.not_lt_zero 1)

/-- The loop of `radix_tree_insert` over a tree in whose room the index lies. -/
theorem radix_tree_insert_from_spec (h : sound root) (hpos : 0 < root.height) {index : ℕ}
    (hindex : index < room root.height) (item : α) (allocs : ℕ) :
    ∃ ret root', radix_tree_insert_from index item allocs root = some (ret, root') ∧ sound root' ∧
      root'.height = root.height ∧
      insert_effect (· = index) (holds root) (holds root') item (11 ≤ allocs) ret ∧
      (filled root.height root.rnode → ret ≠ -ENOMEM →
        filled root'.height root'.rnode ∧ root'.rnode.isSome) := by
  obtain ⟨height, rnode⟩ := root
  cases height with
  | zero => exact absurd hpos (Nat.lt_irrefl 0)
  | succ height =>
      obtain ⟨hcounted, -, heffect⟩ :=
        radix_tree_insert_loop_spec index item height rnode allocs h.counts
      have hle : height + 1 ≤ 11 := h.height_le
      refine ⟨_, _, rfl, ⟨hle, fun hzero => absurd hzero (Nat.succ_ne_zero height), hcounted, ?_⟩,
        rfl, (heffect.holds hindex).of_enough fun henough => by omega,
        radix_tree_insert_loop_filled index item height rnode allocs⟩
      intro e he
      rcases heffect.was_there he with hhere | hbefore
      · exact ⟨index, hindex, hhere⟩
      · exact h.named e hbefore

/-- **`radix_tree_insert`**, where it does not have to grow an empty tree of the last height. It
extends where the index has no room and then goes down; 22 nodes are as many as the two can need.
-/
theorem radix_tree_insert_spec (h : sound root) {index : ℕ} (hindex : index < 2 ^ 64) (item : α)
    (allocs : ℕ) (hroot : index = 0 → root.rnode = none → root.height ≤ 10) :
    ∃ ret root', radix_tree_insert root index item allocs = some (ret, root') ∧ sound root' ∧
      insert_effect (· = index) (holds root) (holds root') item (22 ≤ allocs) ret ∧
      (trim root → ret ≠ -ENOMEM → trim root') := by
  rw [radix_tree_insert, maxindex_eq h.height_le]
  dsimp only
  by_cases hgrow : (index = 0 ∧ root.rnode.isNone) ∨ room root.height - 1 < index
  · have hheight : root.height ≤ 10 := by
      rcases hgrow with ⟨hzero, hnone⟩ | hbeyond
      · exact hroot hzero (Option.isNone_iff_eq_none.mp hnone)
      · refine Nat.le_of_lt_succ (lt_of_le_of_ne h.height_le fun hlast => ?_)
        rw [hlast, room_last] at hbeyond
        omega
    have hnone : holds root index = none := by
      rcases hgrow with ⟨-, hnone⟩ | hbeyond
      · rw [holds_bare (Option.isNone_iff_eq_none.mp hnone)]
      · exact holds_of_le (beyond_iff.mp hbeyond)
    rw [if_pos hgrow]
    obtain ⟨error, root₁, allocs₁, hextend, hsound, hholds, hfull, hcase⟩ :=
      radix_tree_extend_spec h hindex allocs hheight
    rw [hextend]
    dsimp only
    rcases hcase with ⟨rfl, hup, hfits, hleast, hallocs⟩ | ⟨rfl, hshort⟩
    · rw [if_neg (not_not.mpr rfl)]
      obtain ⟨ret, root', hrun, hsound', hheight', heffect, hfilled⟩ :=
        radix_tree_insert_from_spec hsound (Nat.zero_lt_of_lt hup) hfits item allocs₁
      rw [hholds] at heffect
      have hall : insert_effect (· = index) (holds root) (holds root') item (22 ≤ allocs) ret :=
        heffect.of_enough fun h22 => by omega
      refine ⟨ret, root', hrun, hsound', hall, fun htrim hret => ?_⟩
      obtain ⟨hfull', hsome⟩ := hfilled (hfull htrim.full) hret
      refine ⟨hfull', fun hno => ?_, fun htall => ⟨index, ?_, hall.there hret rfl⟩⟩
      · rw [hno] at hsome
        exact absurd hsome Bool.false_ne_true
      · rw [hheight'] at htall ⊢
        rcases hleast with hone | hleast
        · -- one level more, and not from an empty tree: the index did not fit
          rcases hgrow with ⟨-, hempty⟩ | hbeyond
          · have hzero := htrim.rooted (Option.isNone_iff_eq_none.mp hempty)
            omega
          · rw [hone, Nat.add_sub_cancel]
            exact beyond_iff.mp hbeyond
        · exact hleast
    · rw [if_pos (by decide)]
      refine ⟨_, root₁, rfl, hsound, ?_, fun _ hret => absurd rfl hret⟩
      refine .short ?_ hholds (by omega)
      rintro _ rfl
      exact hnone
  · have hfits : index < room root.height :=
      Nat.not_le.mp (beyond_iff.not.mp fun hbeyond => hgrow (Or.inr hbeyond))
    have hpos : 0 < root.height := by
      refine Nat.pos_of_ne_zero fun hzero => hgrow (Or.inl ⟨?_, ?_⟩)
      · rw [hzero] at hfits
        exact Nat.lt_one_iff.mp hfits
      · rw [h.bare hzero]
        rfl
    rw [if_neg hgrow]
    obtain ⟨ret, root', hrun, hsound', hheight', heffect, hfilled⟩ :=
      radix_tree_insert_from_spec h hpos hfits item allocs
    refine ⟨ret, root', hrun, hsound', heffect.of_enough fun h22 => by omega, fun htrim hret => ?_⟩
    obtain ⟨hfull', hsome⟩ := hfilled htrim.full hret
    refine ⟨hfull', fun hno => ?_, fun htall => ?_⟩
    · rw [hno] at hsome
      exact absurd hsome Bool.false_ne_true
    · rw [hheight'] at htall ⊢
      obtain ⟨j, hj, hheld⟩ := htrim.tall htall
      exact ⟨j, hj, heffect.kept hheld⟩

/-- There it reads beyond the table of heights. -/
theorem radix_tree_insert_stops (h : sound root) (hlast : root.height = 11)
    (hbare : root.rnode = none) (item : α) (allocs : ℕ) :
    radix_tree_insert root 0 item allocs = none := by
  rw [radix_tree_insert, maxindex_eq h.height_le]
  dsimp only
  rw [if_pos (Or.inl ⟨rfl, Option.isNone_iff_eq_none.mpr hbare⟩), radix_tree_extend_full hlast]

/-! ## Taking an item out

The loop goes back up the way it came. It is written down as a recursion on the height, whose
second result says whether the loop is still going. -/

/-- What is found below a node one of whose slots was cleared from below. -/
theorem found_cleared {index height : ℕ} (count : ℕ)
    {node : Node RADIX_TREE_MAP_SIZE (radix_tree_slot α height)}
    {below : Option (radix_tree_slot α height)}
    (hat : ∀ e, below_at index height e → found height below e = none)
    (hoff : ∀ e, ¬ below_at index height e →
      found height below e = found height (node.slots (offset index height)) e) :
    (∀ e, below_at index (height + 1) e → found (α := α) (height + 1)
      (some ⟨count, Function.update node.slots (offset index height) below⟩) e = none) ∧
    ∀ e, ¬ below_at index (height + 1) e → found (α := α) (height + 1)
      (some ⟨count, Function.update node.slots (offset index height) below⟩) e
        = found (α := α) (height + 1) (some node) e := by
  have hafter : ∀ e, found (α := α) (height + 1)
      (some ⟨count, Function.update node.slots (offset index height) below⟩) e
        = if e height = offset index height then found height below e
          else find e height (node.slots (e height)) :=
    fun e => find_update e height count node.slots (offset index height) below
  refine ⟨fun e he => ?_, fun e he => ?_⟩
  · rw [hafter, if_pos (agree_succ.mp he).1]
    exact hat e (agree_succ.mp he).2
  · rw [hafter]
    split_ifs with hdigit
    · rw [hoff e fun hb => he (agree_succ.mpr ⟨hdigit, hb⟩), found, found, find_some, hdigit]
    · rfl

/-- **The way back up of `radix_tree_delete`**, where the item is found. It goes up from the item
and takes out each node that has become empty, up to the first that has not. -/
theorem radix_tree_delete_loop_spec (index : ℕ) : ∀ (height : ℕ)
    (slot : Option (radix_tree_slot α height)), counted height slot →
    (find (offset index) height slot).isSome →
    counted height (radix_tree_delete_loop index height slot).1 ∧
      (filled height slot → filled height (radix_tree_delete_loop index height slot).1) ∧
      (∀ e, below_at index height e →
        found height (radix_tree_delete_loop index height slot).1 e = none) ∧
      ∀ e, ¬ below_at index height e →
        found height (radix_tree_delete_loop index height slot).1 e = found height slot e := by
  intro height
  induction height with
  | zero =>
      rintro (_ | item) _ hfind
      · exact absurd hfind Bool.false_ne_true
      · exact ⟨trivial, fun _ => trivial, fun _ _ => rfl, fun e he => absurd (agree_zero _ e) he⟩
  | succ height ih =>
      rintro (_ | node) hcounted hfind
      · exact absurd hfind Bool.false_ne_true
      · obtain ⟨hbelow, hfull, hat, hoff⟩ :=
          ih (Node.slots node (offset index height)) (hcounted.2 _) hfind
        have hcount : Node.count node
            = others (Node.slots node) (offset index height) + 1 := by
          have htaken : (Node.slots node (offset index height)).isSome := by
            refine Option.isSome_iff_ne_none.mpr fun hnone => ?_
            change (find (offset index) height
              (Node.slots node (offset index height))).isSome at hfind
            rw [hnone, find_none] at hfind
            exact absurd hfind Bool.false_ne_true
          have hright : Node.count node = taken (Node.slots node) := hcounted.1
          rw [hright, taken_eq _ (offset index height), if_pos htaken]
        rw [radix_tree_delete_loop]
        rcases hloop : radix_tree_delete_loop index height (Node.slots node (offset index height))
          with ⟨_ | slot, ended⟩
        · rw [hloop] at hbelow hfull hat hoff
          dsimp only
          obtain ⟨hat', hoff'⟩ := found_cleared (Node.count node - 1) hat hoff
          split_ifs with hleft
          · refine ⟨each_update ?_ hcounted.2 hbelow,
              fun hfilled => each_update ?_ hfilled.2 (hfull (hfilled.2 _)), hat', hoff'⟩
            · rw [taken_update, hcount]
              rfl
            · rw [taken_update]
              omega
          · -- the slot was the only one taken: the other places were empty before
            refine ⟨each_none _, fun _ => each_none _, fun e _ => find_none e _, fun e he => ?_⟩
            rw [← hoff' e he, found, found, find_none, find_update]
            have hothers : others (Node.slots node) (offset index height) = 0 := by omega
            split_ifs with hdigit
            · rw [find_none]
            · rw [eq_none_of_others_zero hothers hdigit, find_none]
        · rw [hloop] at hbelow hfull hat hoff
          dsimp only
          obtain ⟨hat', hoff'⟩ := found_cleared (Node.count node) hat hoff
          refine ⟨each_update ?_ hcounted.2 hbelow, fun hfilled =>
            each_update (taken_update_pos rfl) hfilled.2 (hfull (hfilled.2 _)), hat', hoff'⟩
          rw [taken_update, hcount]
          rfl

/-- Where the loop ended further down, the slot on the way is still taken. -/
theorem radix_tree_delete_loop_inner {index height : ℕ}
    {slot : Option (radix_tree_slot α (height + 1))}
    {node : Node RADIX_TREE_MAP_SIZE (radix_tree_slot α height)}
    (h : radix_tree_delete_loop index (height + 1) slot = (some node, false)) :
    (node.slots (offset index height)).isSome := by
  cases slot with
  | none => cases h
  | some old =>
      rw [radix_tree_delete_loop] at h
      rcases hloop : radix_tree_delete_loop index height (Node.slots old (offset index height))
        with ⟨_ | below, ended⟩
      · rw [hloop] at h
        dsimp only at h
        split_ifs at h <;> cases h
      · rw [hloop] at h
        cases h
        change (Function.update (Node.slots old) (offset index height) (some below)
          (offset index height)).isSome
        rw [Function.update_self]
        rfl

/-- A slot besides the first one holds an item that needs the height. -/
theorem tall_of_slot {height : ℕ} {node : Node RADIX_TREE_MAP_SIZE (radix_tree_slot α height)}
    (h : sound ⟨height + 1, some node⟩) (hfull : filled (α := α) (height + 1) (some node))
    {i : Fin RADIX_TREE_MAP_SIZE} (hi : i ≠ slot_0) (htaken : (node.slots i).isSome) :
    ∃ j, room height ≤ j ∧ (holds ⟨height + 1, some node⟩ j).isSome := by
  obtain ⟨e, he⟩ := exists_find map_size_pos (hfull.2 i) htaken
  obtain ⟨a, ha⟩ := Option.isSome_iff_exists.mp he
  have hfind : find (fun k => if k = height then i else e k) (height + 1)
      (some node : Option (radix_tree_slot α (height + 1))) = some a := by
    rw [find_some, if_pos rfl, ← ha]
    exact find_congr height _ fun k hk => if_neg (Nat.ne_of_lt hk)
  obtain ⟨j, hj, hagree, hheld⟩ := h.holds_found hfind
  refine ⟨j, ?_, by rw [hheld]; rfl⟩
  have hdigit : offset j height = i := by
    have htop := (agree_succ.mp hagree).1
    rw [if_pos rfl] at htop
    exact htop.symm
  have hup := (offset_eq_zero_iff (hj.trans_le (room_le_pow _))).not.mp (hdigit ▸ hi)
  exact (room_le_pow height).trans (Nat.not_lt.mp hup)

/-- The root taken away when only its first slot is left. Without other slots no index that is
held needs the level. -/
theorem sound_shrink {height : ℕ} {node : Node RADIX_TREE_MAP_SIZE (radix_tree_slot α height)}
    (h : sound ⟨height + 1, some node⟩) (hpos : height ≠ 0) (hcount : node.count = 1)
    (hfirst : (node.slots slot_0).isSome) :
    sound ⟨height, node.slots slot_0⟩ ∧
      holds ⟨height, node.slots slot_0⟩ = holds ⟨height + 1, some node⟩ := by
  have hheight : height ≤ 10 := Nat.le_of_succ_le_succ h.height_le
  have hright : node.count = taken node.slots := h.counts.1
  have hslots : node.slots = Function.update (fun _ => none) slot_0 (node.slots slot_0) := by
    funext i
    by_cases hi : i = slot_0
    · rw [hi, Function.update_self]
    · rw [Function.update_of_ne hi]
      exact eq_none_of_taken_one (hright ▸ hcount) hfirst hi
  have hnode : node = ⟨node.count, Function.update (fun _ => none) slot_0 (node.slots slot_0)⟩ := by
    rw [← hslots]
  refine ⟨⟨hheight.trans (by decide), fun hzero => absurd hzero hpos, h.counts.2 slot_0,
    fun e he => ?_⟩, ?_⟩
  · -- the first slot above the digits on the way down
    obtain ⟨j, hj, hagree⟩ := h.named (fun k => if k = height then slot_0 else e k) (by
      change (find _ height (node.slots (if height = height then slot_0 else e height))).isSome
      rw [if_pos rfl, find_congr height _ fun k hk => if_neg (Nat.ne_of_lt hk)]
      exact he)
    obtain ⟨htop, hbelow⟩ := agree_succ.mp hagree
    rw [if_pos rfl] at htop
    refine ⟨j, ?_, fun k hk => ?_⟩
    · change j < room height
      rw [room_eq hheight]
      exact (offset_eq_zero_iff (hj.trans_le (room_le_pow _))).mp htop.symm
    · have hdown : (if k = height then slot_0 else e k) = offset j k := hbelow k hk
      rw [if_neg (Nat.ne_of_lt (show k < height from hk))] at hdown
      exact hdown
  · rw [hnode]
    exact (holds_grow (node.slots slot_0) hheight).symm

/-- **`radix_tree_shrink`** changes nothing of what a tree holds, and leaves no root too many. A
root with one child, at slot 0, can be replaced by the child; the induction is on the height,
since the child is a root of the same kind. -/
theorem radix_tree_shrink_spec : ∀ (height : ℕ) (rnode : Option (radix_tree_slot α height)),
    sound ⟨height, rnode⟩ →
    sound (radix_tree_shrink height rnode) ∧
      holds (radix_tree_shrink height rnode) = holds ⟨height, rnode⟩ ∧
      (filled height rnode → rnode.isSome → trim (radix_tree_shrink height rnode))
  | 0, rnode, h => by
      refine ⟨h, rfl, fun hfull hsome => ⟨hfull, fun _ => rfl, fun htall => ?_⟩⟩
      exact absurd htall (Nat.not_lt_zero 1)
  | 1, rnode, h => by
      refine ⟨h, rfl, fun hfull hsome => ⟨hfull, fun hno => ?_, fun htall => ?_⟩⟩
      · exact absurd hsome (by rw [show rnode = none from hno]; exact Bool.false_ne_true)
      · exact absurd htall (Nat.lt_irrefl 1)
  | height + 2, none, h => by
      refine ⟨h, rfl, fun _ hsome => ?_⟩
      exact absurd hsome Bool.false_ne_true
  | height + 2, some node, h => by
      rw [radix_tree_shrink]
      split_ifs with honly
      · obtain ⟨hsound, hholds⟩ := sound_shrink h (Nat.succ_ne_zero height) honly.1 honly.2
        obtain ⟨hsound', hholds', htrim⟩ :=
          radix_tree_shrink_spec (height + 1) (Node.slots node slot_0) hsound
        exact ⟨hsound', hholds'.trans hholds, fun hfull _ => htrim (hfull.2 slot_0) honly.2⟩
      · refine ⟨h, rfl, fun hfull _ =>
          ⟨hfull, fun hno => absurd hno (Option.some_ne_none node), fun _ => ?_⟩⟩
        have hright : Node.count node = taken (Node.slots node) := h.counts.1
        have hpos : 0 < taken (Node.slots node) := hfull.1
        have hother : others (Node.slots node) slot_0 ≠ 0 := by
          intro hzero
          rw [taken_eq _ slot_0, hzero] at hright hpos
          split_ifs at hright hpos with hfirst
          · exact honly ⟨hright, hfirst⟩
          · exact absurd hpos (Nat.lt_irrefl 0)
        obtain ⟨i, hi, htaken⟩ := exists_other hother
        exact tall_of_slot h hfull hi htaken

/-- **`radix_tree_delete`**. -/
theorem radix_tree_delete_spec (h : sound root) (index : ℕ) :
    ∃ root', radix_tree_delete root index = some (holds root index, root') ∧ sound root' ∧
      holds root' = Function.update (holds root) index none ∧ (trim root → trim root') := by
  obtain ⟨height, rnode⟩ := root
  rw [radix_tree_delete, maxindex_eq h.height_le]
  dsimp only
  by_cases hindex : index < room height
  swap
  · have hnone : holds ⟨height, rnode⟩ index = none := holds_of_le (Nat.not_lt.mp hindex)
    rw [if_pos (beyond_iff.mpr (Nat.not_lt.mp hindex)), hnone]
    refine ⟨⟨height, rnode⟩, rfl, h, ?_, id⟩
    rw [← hnone, Function.update_eq_self]
  rw [if_neg (beyond_iff.not.mpr (Nat.not_le.mpr hindex)),
    show holds ⟨height, rnode⟩ index = find (offset index) height rnode from holds_of_lt hindex]
  cases hfind : find (offset index) height rnode with
  | none =>
      have hnone : holds ⟨height, rnode⟩ index = none := (holds_of_lt hindex).trans hfind
      refine ⟨⟨height, rnode⟩, rfl, h, ?_, id⟩
      rw [← hnone, Function.update_eq_self]
  | some ret =>
      obtain ⟨hcounted, hfull, hat, hoff⟩ :=
        radix_tree_delete_loop_spec index height rnode h.counts (by rw [hfind]; rfl)
      have hholds : holds ⟨height, (radix_tree_delete_loop index height rnode).1⟩
          = Function.update (holds ⟨height, rnode⟩) index none := by
        funext j
        by_cases hj : j = index
        · rw [hj, Function.update_self, holds_of_lt hindex]
          exact hat _ fun _ _ => rfl
        · rw [Function.update_of_ne hj]
          by_cases hroom : j < room height
          · rw [holds_of_lt hroom, holds_of_lt hroom]
            exact hoff _ fun hagree => hj ((agree_iff hindex hroom).mp hagree)
          · rw [holds_of_le (Nat.not_lt.mp hroom), holds_of_le (Nat.not_lt.mp hroom)]
      have hnamed : ∀ e, (find e height (radix_tree_delete_loop index height rnode).1).isSome →
          ∃ j < room height, agree height (offset j) e := by
        intro e he
        refine h.named e ?_
        by_cases hhere : below_at index height e
        · rw [show find e height (radix_tree_delete_loop index height rnode).1 = none from
            hat e hhere] at he
          exact absurd he Bool.false_ne_true
        · rw [show find e height (radix_tree_delete_loop index height rnode).1
              = find e height rnode from hoff e hhere] at he
          exact he
      dsimp only
      rcases hloop : radix_tree_delete_loop index height rnode with ⟨_ | node, ended⟩
      · rw [hloop] at hholds
        refine ⟨⟨0, none⟩, rfl, sound_init, ?_, fun _ => trim_init⟩
        rw [← hholds, holds_bare rfl, holds_bare rfl]
      · rw [hloop] at hcounted hfull hholds hnamed
        have hpos : height ≠ 0 := by
          rintro rfl
          cases rnode <;> cases hloop
        have hsound : sound ⟨height, some node⟩ :=
          ⟨h.height_le, fun hzero => absurd hzero hpos, hcounted, hnamed⟩
        cases ended with
        | true =>
            obtain ⟨hsound', hholds', htrim⟩ := radix_tree_shrink_spec height (some node) hsound
            exact ⟨_, rfl, hsound', hholds'.trans hholds, fun hl => htrim (hfull hl.full) rfl⟩
        | false =>
            refine ⟨⟨height, some node⟩, rfl, hsound, hholds, fun hl =>
              ⟨hfull hl.full, fun hno => absurd hno (Option.some_ne_none node), fun htall => ?_⟩⟩
            obtain ⟨j, hj, hheld⟩ := hl.tall htall
            by_cases hsame : j = index
            · -- the item that needed the height is gone; its slot has another one
              obtain ⟨below, rfl⟩ := Nat.exists_eq_succ_of_ne_zero hpos
              rw [hsame] at hj
              have hbelow : below ≤ 10 := Nat.le_of_succ_le_succ h.height_le
              have hdigit : offset index below ≠ slot_0 := by
                intro hzero
                have hlow := (offset_eq_zero_iff (hindex.trans_le (room_le_pow _))).mp hzero
                rw [← room_eq hbelow] at hlow
                exact absurd hj (Nat.not_le.mpr hlow)
              exact tall_of_slot hsound (hfull hl.full) hdigit (radix_tree_delete_loop_inner hloop)
            · refine ⟨j, hj, ?_⟩
              rw [hholds, Function.update_of_ne hsame]
              exact hheld

/-- A trim tree is not higher than another one that holds the same. The item that needs its height
is held by the other one as well. -/
theorem trim.height_le {root root' : radix_tree_root α} (h : sound root) (htrim : trim root)
    (h' : sound root') (hsame : holds root = holds root') : root.height ≤ root'.height := by
  refine Nat.not_lt.mp fun hlt => ?_
  -- an item that does not fit the lower tree
  have hitem : ∃ j, (holds root j).isSome ∧ (room root'.height ≤ j ∨ root'.height = 0) := by
    by_cases htall : 1 < root.height
    · obtain ⟨j, hj, hheld⟩ := htrim.tall htall
      exact ⟨j, hheld, Or.inl ((room_mono (Nat.le_sub_one_of_lt hlt)).trans hj)⟩
    · have hsome : root.rnode.isSome := by
        refine Option.isSome_iff_ne_none.mpr fun hno => ?_
        rw [htrim.rooted hno] at hlt
        exact absurd hlt (Nat.not_lt_zero _)
      obtain ⟨e, he⟩ := exists_find map_size_pos htrim.full hsome
      obtain ⟨a, ha⟩ := Option.isSome_iff_exists.mp he
      obtain ⟨j, -, -, hheld⟩ := h.holds_found ha
      exact ⟨j, by rw [hheld]; rfl, Or.inr (by omega)⟩
  obtain ⟨j, hheld, hlow⟩ := hitem
  rw [hsame] at hheld
  rcases hlow with hbeyond | hzero
  · rw [holds_of_le hbeyond] at hheld
    exact absurd hheld Bool.false_ne_true
  · rw [holds_bare (h'.bare hzero)] at hheld
    exact absurd hheld Bool.false_ne_true

/-- **A trim tree is determined by what it holds.** The height is the least with room for the
greatest index, and below it every node has an item under it, so what is held says where there is
one. -/
theorem eq_of_holds {root root' : radix_tree_root α} (h : sound root) (htrim : trim root)
    (h' : sound root') (htrim' : trim root') (hsame : holds root = holds root') : root = root' := by
  have hheight : root.height = root'.height :=
    Nat.le_antisymm (htrim.height_le h h' hsame) (htrim'.height_le h' h hsame.symm)
  obtain ⟨height, rnode⟩ := root
  obtain ⟨height', rnode'⟩ := root'
  cases hheight
  -- an item found in one tree stands at an index, and is found in the other there
  have hfound : ∀ {s s' : Option (radix_tree_slot α height)}, sound ⟨height, s⟩ →
      holds ⟨height, s⟩ = holds ⟨height, s'⟩ → ∀ {e : ℕ → Fin RADIX_TREE_MAP_SIZE} {a : α},
      find e height s = some a → find e height s' = some a := by
    intro s s' hs hholds e a hfind
    obtain ⟨j, hj, hagree, hheld⟩ := hs.holds_found hfind
    rw [hholds, show holds ⟨height, s'⟩ j = find (offset j) height s' from holds_of_lt hj] at hheld
    rw [← hheld]
    exact find_congr height s' hagree
  have hnodes : rnode = rnode' := by
    refine eq_of_find map_size_pos h.counts htrim.full h'.counts htrim'.full fun e => ?_
    cases hleft : find e height rnode with
    | some a => exact (hfound h hsame hleft).symm
    | none =>
        cases hright : find e height rnode' with
        | none => rfl
        | some a =>
            rw [hfound h' hsame.symm hright] at hleft
            cases hleft
  rw [hnodes]

end Calls

/-! ## Runs

A call carries its arguments, how many allocations it has before one fails, and what it
returned. The map takes the same calls. -/

/-- A call on the tree, with what it returned; an insert also with how many of its allocations
succeeded before one would fail. -/
inductive call (α : Type) where
  | lookup (index : ℕ) (ret : Option α)
  | insert (index : ℕ) (item : α) (allocs : ℕ) (ret : ℤ)
  | delete (index : ℕ) (ret : Option α)

section Runs

variable {α : Type}

def call.index : call α → ℕ
  | .lookup index _ => index
  | .insert index _ _ _ => index
  | .delete index _ => index

/-- It ran out of memory. -/
def call.short : call α → Prop
  | .insert _ _ _ ret => ret = -ENOMEM
  | _ => False

/-- A call on the tree of the code. -/
def step (root : radix_tree_root α) : call α → radix_tree_root α → Prop
  | .lookup index ret, root' => radix_tree_lookup root index = some ret ∧ root' = root
  | .insert index item allocs ret, root' =>
      radix_tree_insert root index item allocs = some (ret, root')
  | .delete index ret, root' => radix_tree_delete root index = some (ret, root')

/-- The same call on a partial map. -/
def map_step (m : ℕ → Option α) : call α → (ℕ → Option α) → Prop
  | .lookup index ret, m' => ret = m index ∧ m' = m
  | .insert index item allocs ret, m' =>
      (ret = -EEXIST ∧ (m index).isSome ∧ m' = m) ∨
        (ret = 0 ∧ m index = none ∧ m' = Function.update m index (some item)) ∨
        (ret = -ENOMEM ∧ m index = none ∧ allocs < 22 ∧ m' = m)
  | .delete index ret, m' => ret = m index ∧ m' = Function.update m index none

/-- The effect of an insert at one index, on the map. -/
theorem insert_effect.map_step {m m' : ℕ → Option α} {index allocs : ℕ} {item : α} {ret : ℤ}
    (h : insert_effect (· = index) m m' item (22 ≤ allocs) ret) :
    map_step m (.insert index item allocs ret) m' := by
  cases h with
  | present hall hsame => exact Or.inl ⟨rfl, hall index rfl, hsame⟩
  | placed hnone hat hoff =>
      refine Or.inr (Or.inl ⟨rfl, hnone index rfl, ?_⟩)
      funext j
      by_cases hj : j = index
      · rw [hj, Function.update_self]
        exact hat index rfl
      · rw [Function.update_of_ne hj]
        exact hoff j hj
  | short hnone hsame hlack =>
      exact Or.inr (Or.inr ⟨rfl, hnone index rfl, Nat.not_le.mp hlack, hsame⟩)

/-- **One call**: it does to what the tree holds what the map's call does. The calls' own
specifications are this, each for its operation; what is kept for the next call is that the counts
are right, and that the tree is trim unless memory was short. -/
theorem step_spec {root root' : radix_tree_root α} {c : call α} (hindex : c.index < 2 ^ 64)
    (h : sound root) (hstep : step root c root') :
    sound root' ∧ map_step (holds root) c (holds root') ∧ (trim root → ¬ c.short → trim root') := by
  cases c with
  | lookup index ret =>
      obtain ⟨hret, rfl⟩ := hstep
      rw [radix_tree_lookup_eq h] at hret
      exact ⟨h, ⟨(Option.some.inj hret).symm, rfl⟩, fun htrim _ => htrim⟩
  | insert index item allocs ret =>
      change index < 2 ^ 64 at hindex
      have hroot : index = 0 → root.rnode = none → root.height ≤ 10 := by
        rintro rfl hbare
        refine Nat.le_of_lt_succ (lt_of_le_of_ne h.height_le fun hlast => ?_)
        have hstops := radix_tree_insert_stops h hlast hbare item allocs
        rw [show radix_tree_insert root 0 item allocs = some (ret, root') from hstep] at hstops
        cases hstops
      obtain ⟨ret', root'', hrun, hsound, heffect, htrim⟩ :=
        radix_tree_insert_spec h hindex item allocs hroot
      rw [show radix_tree_insert root index item allocs = some (ret, root') from hstep] at hrun
      cases hrun
      exact ⟨hsound, heffect.map_step, htrim⟩
  | delete index ret =>
      obtain ⟨root'', hrun, hsound, hholds, htrim⟩ := radix_tree_delete_spec h index
      rw [show radix_tree_delete root index = some (ret, root') from hstep] at hrun
      cases hrun
      exact ⟨hsound, ⟨rfl, hholds⟩, fun hl _ => htrim hl⟩

/-- What a run leaves where memory never ran out. -/
theorem run_trim {calls : List (call α)} {root : radix_tree_root α}
    (h : run step INIT_RADIX_TREE calls root)
    (hindex : ∀ c ∈ calls, c.index < 2 ^ 64 ∧ ¬ c.short) : sound root ∧ trim root := by
  refine run_keeps (I := fun root => sound root ∧ trim root) (fun _ _ _ hc hstep hs => ?_) h hindex
    ⟨sound_init, trim_init⟩
  obtain ⟨hsound, -, htrim⟩ := step_spec hc.1 hs.1 hstep
  exact ⟨hsound, htrim hs.2 hc.2⟩

/-- **The tree is a map**: over any run of calls, failed allocations among them, each call that
returns gives what it gives on a partial map, and what is looked up afterwards is what the map
holds. -/
theorem radix_tree_refines {calls : List (call α)} {root : radix_tree_root α}
    (h : run step INIT_RADIX_TREE calls root) (hindex : ∀ c ∈ calls, c.index < 2 ^ 64) :
    ∃ m, run map_step (fun _ => none) calls m ∧
      ∀ index, radix_tree_lookup root index = some (m index) := by
  have hstep : ∀ (s : radix_tree_root α) (c : call α) (s' : radix_tree_root α) (m : ℕ → Option α),
      c.index < 2 ^ 64 → (sound s ∧ holds s = m) → step s c s' →
      ∃ m', map_step m c m' ∧ (sound s' ∧ holds s' = m') := by
    rintro s c s' _ hc ⟨hs, rfl⟩ hone
    obtain ⟨hs', hmap, -⟩ := step_spec hc hs hone
    exact ⟨holds s', hmap, hs', rfl⟩
  obtain ⟨m, hrun, hsound, hholds⟩ := run_simulates hstep h hindex (fun _ => none)
    ⟨sound_init, holds_bare rfl⟩
  refine ⟨m, hrun, fun index => ?_⟩
  rw [radix_tree_lookup_eq hsound, hholds]

/-- Items put in, one of them not for want of memory, and taken out. -/
def five_calls : List (call Char) :=
  [.insert 3 'a' 22 0, .insert 5000 'b' 3 (-ENOMEM), .insert 70 'c' 22 0, .delete 70 (some 'c'),
    .lookup 5000 none]

/-- They can be made, and stand for calls on a map. -/
theorem five_calls_refined : ∃ root m, run step INIT_RADIX_TREE five_calls root ∧
    run map_step (fun _ => none) five_calls m ∧
    ∀ index, radix_tree_lookup root index = some (m index) := by
  have hrun : ∃ root, run step INIT_RADIX_TREE five_calls root :=
    ⟨_, .cons rfl (.cons rfl (.cons rfl (.cons rfl (.cons ⟨rfl, rfl⟩ (.nil _)))))⟩
  obtain ⟨root, hrun⟩ := hrun
  obtain ⟨m, hmap, hlook⟩ := radix_tree_refines hrun (by decide)
  exact ⟨root, m, hrun, hmap, hlook⟩

/-- **The tree does not remember how it came about**: after runs in which no allocation failed,
trees that hold the same are the same. Both trees are trim, since no call of the runs was short
(`step_spec`), and trim trees that hold the same are equal (`eq_of_holds`). -/
theorem radix_tree_canonical {calls calls' : List (call α)} {root root' : radix_tree_root α}
    (h : run step INIT_RADIX_TREE calls root) (h' : run step INIT_RADIX_TREE calls' root')
    (hcalls : ∀ c ∈ calls, c.index < 2 ^ 64 ∧ ¬ c.short)
    (hcalls' : ∀ c ∈ calls', c.index < 2 ^ 64 ∧ ¬ c.short)
    (hsame : ∀ index < 2 ^ 64, radix_tree_lookup root index = radix_tree_lookup root' index) :
    root = root' := by
  obtain ⟨hsound, htrim⟩ := run_trim h hcalls
  obtain ⟨hsound', htrim'⟩ := run_trim h' hcalls'
  have hholds : holds root = holds root' := by
    funext index
    by_cases hindex : index < 2 ^ 64
    · have hlook := hsame index hindex
      rw [radix_tree_lookup_eq hsound, radix_tree_lookup_eq hsound'] at hlook
      exact Option.some.inj hlook
    · have hroom : ∀ r : radix_tree_root α, room r.height ≤ index :=
        fun r => (room_le r.height).trans (Nat.not_lt.mp hindex)
      rw [holds_of_le (hroom root), holds_of_le (hroom root')]
  exact eq_of_holds hsound htrim hsound' htrim' hholds

/-- A tree that grew by two levels for an item, and lost it again. -/
theorem came_back : ∃ root root' : radix_tree_root Char,
    run step INIT_RADIX_TREE [.insert 3 'a' 22 0] root ∧
    run step INIT_RADIX_TREE
      [.insert 3 'a' 22 0, .insert 5000 'b' 22 0, .delete 5000 (some 'b')] root' ∧
    root = root' := by
  have hrun : run step INIT_RADIX_TREE [.insert 3 'a' 22 0]
      ⟨1, some ⟨1, Function.update (fun _ => none) (offset 3 0) (some 'a')⟩⟩ := .cons rfl (.nil _)
  have hrun' : run step INIT_RADIX_TREE
      [.insert 3 'a' 22 0, .insert 5000 'b' 22 0, .delete 5000 (some 'b')]
      ⟨1, some ⟨1, Function.update (fun _ => none) (offset 3 0) (some 'a')⟩⟩ :=
    .cons rfl (.cons rfl (.cons rfl (.nil _)))
  exact ⟨_, _, hrun, hrun', radix_tree_canonical hrun hrun'
    (by simp [call.index, call.short, ENOMEM]) (by simp [call.index, call.short, ENOMEM])
    fun _ _ => rfl⟩

/-- **Every call returns**, as long as no allocation failed: the table of heights is not read
beyond its end, and the loop of `radix_tree_insert` does not start at height 0. A trim tree has no
height without need, and eleven levels have room for every index. -/
theorem radix_tree_returns {calls : List (call α)} {root : radix_tree_root α}
    (h : run step INIT_RADIX_TREE calls root)
    (hcalls : ∀ c ∈ calls, c.index < 2 ^ 64 ∧ ¬ c.short) {index : ℕ} (hindex : index < 2 ^ 64) :
    (∃ ret, radix_tree_lookup root index = some ret) ∧
      (∀ item allocs, ∃ ret root', radix_tree_insert root index item allocs = some (ret, root')) ∧
      ∃ ret root', radix_tree_delete root index = some (ret, root') := by
  obtain ⟨hsound, htrim⟩ := run_trim h hcalls
  refine ⟨⟨_, radix_tree_lookup_eq hsound index⟩, fun item allocs => ?_, ?_⟩
  · have hroot : index = 0 → root.rnode = none → root.height ≤ 10 := by
      intro _ hbare
      rw [htrim.rooted hbare]
      exact Nat.zero_le 10
    obtain ⟨ret, root', hrun, -⟩ := radix_tree_insert_spec hsound hindex item allocs hroot
    exact ⟨ret, root', hrun⟩
  · obtain ⟨root', hrun, -⟩ := radix_tree_delete_spec hsound index
    exact ⟨_, root', hrun⟩

/-- So after an insert of the greatest index. -/
theorem last_index_returns : ∃ root, run step INIT_RADIX_TREE [.insert (2 ^ 64 - 1) 'a' 22 0] root ∧
    (∃ ret, radix_tree_lookup root 0 = some ret) ∧
      (∀ item allocs, ∃ ret root', radix_tree_insert root 0 item allocs = some (ret, root')) ∧
      ∃ ret root', radix_tree_delete root 0 = some (ret, root') := by
  have hrun : ∃ root, run step INIT_RADIX_TREE [.insert (2 ^ 64 - 1) 'a' 22 0] root :=
    ⟨_, .cons rfl (.nil _)⟩
  obtain ⟨root, hrun⟩ := hrun
  exact ⟨root, hrun, radix_tree_returns hrun (by simp [call.index, call.short, ENOMEM]) (by decide)⟩

end Runs

end SysbakAdmin.RadixTree

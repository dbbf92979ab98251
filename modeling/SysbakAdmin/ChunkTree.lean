/-
`btrfs_read_chunk_tree`: the devices and the chunks of a btrfs file system, as `open_ctree` takes
them from the chunk tree.

The loop takes one item after the other, whatever it is. In the order of the keys the devices come
before the chunks, so that a chunk always meets all devices (`btrfs_read_chunk_tree_spec`).

A device item may name another file system, whose devices are then opened as a seed. In this tree
`open_seed_devices` asserts behind the call that opens them that the call has failed, and it has
not: so no seed is ever taken in. What is known of the devices is stated for a file system without
seeds, which is how `open_ctree` starts.

The tree is gone through twice in effect: a chunk names its devices by their ids, and a
device whose item comes later would be missing. The specification says that in a sound tree
this does not happen, because the keys of the device items come before those of the chunks.
What it leaves open is named in it: memory for the records, and what comes of opening the
devices of another file system.
-/
import SysbakAdmin.BtrfsScan

set_option autoImplicit false

namespace SysbakAdmin.ChunkTree

open LittleEndian CInt CMemory SearchTree LevelTree ExtentCache Volumes BtrfsTree BtrfsCursor
open BtrfsScan
open Btrfs (btrfs_disk_key btrfs_key_ptr)

/-! ## The code -/

def BTRFS_DEV_ITEM_KEY : ℕ := 216

def BTRFS_CHUNK_ITEM_KEY : ℕ := 228

def BTRFS_DEV_ITEMS_OBJECTID : ℕ := 1

def BTRFS_FIRST_CHUNK_TREE_OBJECTID : ℕ := 256

/-- `struct btrfs_dev_item`. -/
structure btrfs_dev_item where
  devid : ℕ
  uuid : List Byte
  fsid : List Byte

/-- The data of an item of the chunk tree, as each kind of item reads it. -/
structure chunk_tree_data where
  dev_item : btrfs_dev_item
  chunk : btrfs_chunk

/-- The devices of one file system. -/
structure btrfs_fs_devices where
  fsid : List Byte
  devices : List btrfs_device

/-- What `btrfs_read_chunk_tree` fills in. `open_ctree` has seen to it that the id of the file
system is that of its list of devices; behind that list stand those of its seeds. -/
structure volumes where
  fs_devices : btrfs_fs_devices
  seed : List btrfs_fs_devices
  mapping_tree : btrfs_mapping_tree

/-- The devices in the order in which `btrfs_find_device` looks at them. -/
def volumes.devices (v : volumes) : List btrfs_device :=
  (v.fs_devices :: v.seed).flatMap btrfs_fs_devices.devices

/-- The devices it looks at when it is given the id of a file system. -/
def volumes.devices_of (v : volumes) (fsid : List Byte) : List btrfs_device :=
  ((v.fs_devices :: v.seed).filter fun l => l.fsid = fsid).flatMap btrfs_fs_devices.devices

/-- `list_add` of a device to the list of the file system itself. -/
def volumes.add_device (v : volumes) (device : btrfs_device) : volumes :=
  { v with fs_devices := ⟨v.fs_devices.fsid, device :: v.fs_devices.devices⟩ }

/-- What the machine has for the call: memory for the record of the chunk at an address, memory for
one more device beside so many, and what comes of finding, or making, the list of the devices of
another file system and opening them. -/
structure machine where
  kmalloc : ℕ → Bool
  kzalloc : ℕ → Bool
  open_devices : List Byte → ℤ

/-- `open_seed_devices`. -/
def open_seed_devices (m : machine) (v : volumes) (fsid : List Byte) : Run ℤ :=
  if ∃ l ∈ v.seed, l.fsid = fsid then .ok 0
  else if m.open_devices fsid ≠ 0 then .ok (m.open_devices fsid)
  else
    -- `assert(ret != 0)`
    .error .aborted

/-- `read_one_dev`: a device that is not there stands in the list without being open. -/
def read_one_dev (m : machine) (v : volumes) (dev_item : btrfs_dev_item) : Run (ℤ × volumes) := do
  let ret ← (if dev_item.fsid ≠ v.fs_devices.fsid then open_seed_devices m v dev_item.fsid
    else .ok 0)
  if ret ≠ 0 then .ok (ret, v)
  else
    match btrfs_find_device (v.devices_of dev_item.fsid) dev_item.devid dev_item.uuid with
    | some _ => .ok (0, v)
    | none =>
        if ¬ m.kzalloc v.fs_devices.devices.length then .ok (-ENOMEM, v)
        else .ok (0, v.add_device ⟨dev_item.devid, dev_item.uuid, -1⟩)

section ChunkTree

variable (rb : Balancing (cache_extent map_lookup)) (sectorsize : ℕ) (m : machine)

/-- The body of the loop of `btrfs_read_chunk_tree`. -/
def read_chunk_tree_item (v : volumes) (item : leaf_item chunk_tree_data) : Run (ℤ × volumes) :=
  if item.key.type = BTRFS_DEV_ITEM_KEY then read_one_dev m v item.data.dev_item
  else if item.key.type = BTRFS_CHUNK_ITEM_KEY then
    let (ret, map_tree) := read_one_chunk rb sectorsize v.devices m.kmalloc v.mapping_tree
      item.key.offset item.data.chunk (some item.size)
    .ok (ret, { v with mapping_tree := map_tree })
  else .ok (0, v)

variable (read_tree_block : reader chunk_tree_data)

/-- The loop of `btrfs_read_chunk_tree`. -/
def read_chunk_tree_loop : ℕ → btrfs_path chunk_tree_data → volumes → Run (ℤ × volumes)
  | 0, _, _ => .error .diverged
  | fuel + 1, p, v =>
      match p.nodes 0 with
      | none => .error .outOfBounds
      | some leaf =>
          if p.slots 0 ≥ btrfs_header_nritems leaf then
            let (ret, p) := btrfs_next_leaf read_tree_block p
            if ret = 0 then read_chunk_tree_loop fuel p v
            else if ret < 0 then .ok (ret, v)
            else .ok (0, v)
          else do
            let item ← item_at p (p.slots 0)
            let (ret, v) ← read_chunk_tree_item rb sectorsize m v item
            if ret ≠ 0 then .ok (-1, v)
            else read_chunk_tree_loop fuel (p.set_slot 0 (p.slots 0 + 1)) v

def btrfs_read_chunk_tree (nodesize fuel rounds : ℕ) (node : tree_block chunk_tree_data)
    (v : volumes) : Run (ℤ × volumes) := do
  let (ret, p) ← btrfs_search_slot read_tree_block nodesize fuel node
    ⟨BTRFS_DEV_ITEMS_OBJECTID, 0, 0⟩ btrfs_init_path
  if ret < 0 then .ok (ret, v)
  else read_chunk_tree_loop rb sectorsize m read_tree_block rounds p v

end ChunkTree

/-! ## Devices, then chunks

The items of the tree are cut at the first chunk; what comes before is devices only, so the loop
is the loop over the devices followed by the loop over the chunks. -/

section Chunks

variable (rb : Balancing (cache_extent map_lookup)) (sectorsize : ℕ) (m : machine)

/-- The items one after the other, up to the first that is not taken. -/
def take_items : volumes → List (leaf_item chunk_tree_data) → Run (ℤ × volumes)
  | v, [] => .ok (0, v)
  | v, item :: rest => do
      let (ret, v) ← read_chunk_tree_item rb sectorsize m v item
      if ret ≠ 0 then .ok (-1, v) else take_items v rest

/-- The devices one after the other, likewise. -/
def take_devices : volumes → List btrfs_dev_item → Run (ℤ × volumes)
  | v, [] => .ok (0, v)
  | v, dev_item :: rest => do
      let (ret, v) ← read_one_dev m v dev_item
      if ret ≠ 0 then .ok (-1, v) else take_devices v rest

/-- The devices of a list. -/
def dev_items (l : List (leaf_item chunk_tree_data)) : List btrfs_dev_item :=
  (l.filter fun item => item.key.type = BTRFS_DEV_ITEM_KEY).map fun item => item.data.dev_item

/-- The chunks of a list, as `Volumes` reads them. -/
def chunk_items (l : List (leaf_item chunk_tree_data)) : List chunk_item :=
  (l.filter fun item => item.key.type = BTRFS_CHUNK_ITEM_KEY).map fun item =>
    ⟨item.key.offset, item.data.chunk, some item.size⟩

/-- The chunks one after the other, as `btrfs_read_chunk_tree` reads them once it knows the
devices. -/
def take_chunks (v : volumes) (l : List chunk_item) : ℤ × volumes :=
  let r := read_chunks rb sectorsize v.devices m.kmalloc v.mapping_tree l
  (if r.1 ≠ 0 then -1 else 0, { v with mapping_tree := r.2 })

/-- The devices, and then the chunks. -/
def take_devices_then_chunks (v : volumes) (l : List (leaf_item chunk_tree_data)) :
    Run (ℤ × volumes) := do
  let (ret, v) ← take_devices m v (dev_items l)
  if ret ≠ 0 then .ok (ret, v) else .ok (take_chunks rb sectorsize m v (chunk_items l))

variable {read_tree_block : reader chunk_tree_data} {nodesize height : ℕ}

/-- The loop of `btrfs_read_chunk_tree` takes the items from its slot on. As with the roots, a
pass is one item and the measure the items ahead; between two leaves a pass only moves. -/
theorem read_chunk_tree_loop_spec : ∀ {rounds : ℕ} {p : btrfs_path chunk_tree_data}
    {leaf : tree_block chunk_tree_data} {slot : ℕ}
    {up : List (List ((ℕ ×ₗ ℕ ×ₗ ℕ) × tree_block chunk_tree_data))}
    {behind : List (leaf_item chunk_tree_data)} {v : volumes},
    at_leaf read_tree_block nodesize height p leaf slot up →
    behind = (items leaf).drop slot ++ (ahead (layout read_tree_block) 0 up).flatMap items →
    behind.length + (ahead (layout read_tree_block) 0 up).length < rounds →
    read_chunk_tree_loop rb sectorsize m read_tree_block rounds p v
      = take_items rb sectorsize m v behind := by
  intro rounds
  induction rounds with
  | zero => exact fun _ _ h => absurd h (Nat.not_lt_zero _)
  | succ rounds ih =>
      intro p leaf slot up behind v hat hbehind hrounds
      have hnritems := (sound_leaf hat.leaf_sound).2.1
      rw [read_chunk_tree_loop, hat.node]
      dsimp only
      rw [hat.slot, hnritems]
      by_cases hend : slot ≥ (items leaf).length
      · rw [if_pos hend]
        rw [List.drop_of_length_le hend, List.nil_append] at hbehind
        rcases btrfs_next_leaf_spec hat with ⟨hlast, hnext⟩ | ⟨leaf', up', p', hnext, hahead, hat'⟩
        · rw [hnext, hbehind, hlast]
          dsimp only
          rw [if_neg (by decide), if_neg (by decide)]
          rfl
        · rw [hnext]
          dsimp only
          rw [if_pos rfl]
          rw [hahead, List.length_cons] at hrounds
          rw [hahead, List.flatMap_cons] at hbehind
          exact ih hat' hbehind (by omega)
      · rw [if_neg hend]
        have hlt := not_le.mp hend
        rw [List.drop_eq_getElem_cons hlt, List.cons_append] at hbehind
        rw [hbehind, List.length_cons] at hrounds
        rw [item_at_eq hat.node (List.getElem?_eq_getElem hlt), ok_bind, hbehind, take_items]
        dsimp only
        cases hone : read_chunk_tree_item rb sectorsize m v (items leaf)[slot] with
        | error stop => rfl
        | ok r =>
            obtain ⟨ret, v₁⟩ := r
            rw [ok_bind, ok_bind]
            dsimp only
            by_cases hret : ret ≠ 0
            · rw [if_pos hret, if_pos hret]
            · rw [if_neg hret, if_neg hret]
              exact ih (hat.moved (slot + 1)) rfl (by omega)

theorem dev_items_cons_pos {item : leaf_item chunk_tree_data} {l : List (leaf_item chunk_tree_data)}
    (h : item.key.type = BTRFS_DEV_ITEM_KEY) :
    dev_items (item :: l) = item.data.dev_item :: dev_items l := by
  rw [dev_items, List.filter_cons_of_pos (by simpa using h), List.map_cons]
  rfl

theorem dev_items_cons_neg {item : leaf_item chunk_tree_data} {l : List (leaf_item chunk_tree_data)}
    (h : item.key.type ≠ BTRFS_DEV_ITEM_KEY) : dev_items (item :: l) = dev_items l := by
  rw [dev_items, List.filter_cons_of_neg (by simpa using h)]
  rfl

theorem chunk_items_cons_pos {item : leaf_item chunk_tree_data}
    {l : List (leaf_item chunk_tree_data)} (h : item.key.type = BTRFS_CHUNK_ITEM_KEY) :
    chunk_items (item :: l)
      = ⟨item.key.offset, item.data.chunk, some item.size⟩ :: chunk_items l := by
  rw [chunk_items, List.filter_cons_of_pos (by simpa using h), List.map_cons]
  rfl

theorem chunk_items_cons_neg {item : leaf_item chunk_tree_data}
    {l : List (leaf_item chunk_tree_data)} (h : item.key.type ≠ BTRFS_CHUNK_ITEM_KEY) :
    chunk_items (item :: l) = chunk_items l := by
  rw [chunk_items, List.filter_cons_of_neg (by simpa using h)]
  rfl

/-- Without chunks only the devices are taken. They are taken in order, up to the first that stops
the call. -/
theorem take_items_devices : ∀ {l rest : List (leaf_item chunk_tree_data)} {v : volumes},
    (∀ item ∈ l, item.key.type ≠ BTRFS_CHUNK_ITEM_KEY) →
    take_items rb sectorsize m v (l ++ rest) = (do
      let (ret, v) ← take_devices m v (dev_items l)
      if ret ≠ 0 then .ok (ret, v) else take_items rb sectorsize m v rest) := by
  intro l
  induction l with
  | nil => exact fun _ => rfl
  | cons item l ih =>
      intro rest v hl
      have ih := fun {v} => @ih rest v fun x hx => hl x (List.mem_cons_of_mem _ hx)
      rw [List.cons_append, take_items, read_chunk_tree_item]
      by_cases hdev : item.key.type = BTRFS_DEV_ITEM_KEY
      · rw [if_pos hdev, dev_items_cons_pos hdev, take_devices]
        cases hone : read_one_dev m v item.data.dev_item with
        | error stop => rfl
        | ok r =>
            obtain ⟨ret, v₁⟩ := r
            rw [ok_bind, ok_bind]
            dsimp only
            by_cases hret : ret ≠ 0
            · rw [if_pos hret, if_pos hret, ok_bind]
              exact (if_pos (show (-1 : ℤ) ≠ 0 by decide)).symm
            · rw [if_neg hret, if_neg hret]
              exact ih
      · rw [if_neg hdev, if_neg (hl item List.mem_cons_self), dev_items_cons_neg hdev, ok_bind]
        dsimp only
        rw [if_neg (by decide)]
        exact ih

/-- Without devices only the chunks are taken. -/
theorem take_items_chunks : ∀ {l : List (leaf_item chunk_tree_data)} {v : volumes},
    (∀ item ∈ l, item.key.type ≠ BTRFS_DEV_ITEM_KEY) →
    take_items rb sectorsize m v l = .ok (take_chunks rb sectorsize m v (chunk_items l)) := by
  intro l
  induction l with
  | nil => exact fun _ => rfl
  | cons item l ih =>
      intro v hl
      have hrest := fun x hx => hl x (List.mem_cons_of_mem item hx)
      rw [take_items, read_chunk_tree_item, if_neg (hl item List.mem_cons_self)]
      by_cases hchunk : item.key.type = BTRFS_CHUNK_ITEM_KEY
      · rw [if_pos hchunk, chunk_items_cons_pos hchunk, ok_bind]
        dsimp only
        by_cases hret : (read_one_chunk rb sectorsize v.devices m.kmalloc v.mapping_tree
            item.key.offset item.data.chunk (some item.size)).1 ≠ 0
        · rw [if_pos hret, take_chunks, read_chunks]
          simp only [if_pos hret]
        · rw [if_neg hret, ih hrest, take_chunks, take_chunks, read_chunks]
          simp only [if_neg hret]
          rfl
      · rw [if_neg hchunk, chunk_items_cons_neg hchunk, ok_bind]
        dsimp only
        rw [if_neg (by decide), ih hrest]

theorem dev_items_append {l r : List (leaf_item chunk_tree_data)} :
    dev_items (l ++ r) = dev_items l ++ dev_items r := by
  rw [dev_items, List.filter_append, List.map_append]
  rfl

theorem dev_items_none {l : List (leaf_item chunk_tree_data)}
    (h : ∀ item ∈ l, item.key.type ≠ BTRFS_DEV_ITEM_KEY) : dev_items l = [] := by
  rw [dev_items, List.filter_eq_nil_iff.mpr fun item hitem => by simpa using h item hitem]
  rfl

theorem chunk_items_append {l r : List (leaf_item chunk_tree_data)} :
    chunk_items (l ++ r) = chunk_items l ++ chunk_items r := by
  rw [chunk_items, List.filter_append, List.map_append]
  rfl

theorem chunk_items_none {l : List (leaf_item chunk_tree_data)}
    (h : ∀ item ∈ l, item.key.type ≠ BTRFS_CHUNK_ITEM_KEY) : chunk_items l = [] := by
  rw [chunk_items, List.filter_eq_nil_iff.mpr fun item hitem => by simpa using h item hitem]
  rfl

/-! ### A file system without seeds

A device item of another file system would have to be a seed's. Without seeds such an item stops
the call, so a call that goes on to the chunks has met none. -/

/-- Without seeds a device is taken when it is of this file system, and then it is known: it was
there, or it stands first now. -/
theorem read_one_dev_taken {v v' : volumes} {dev_item : btrfs_dev_item} (hseed : v.seed = [])
    (h : read_one_dev m v dev_item = .ok (0, v')) :
    dev_item.fsid = v.fs_devices.fsid ∧ v'.seed = [] ∧ v'.fs_devices.fsid = v.fs_devices.fsid ∧
      (btrfs_find_device v'.devices dev_item.devid dev_item.uuid).isSome ∧
      ∀ devid uuid dev, btrfs_find_device v.devices devid uuid = some dev →
        btrfs_find_device v'.devices devid uuid = some dev := by
  rw [read_one_dev] at h
  by_cases hown : dev_item.fsid = v.fs_devices.fsid
  swap
  · -- the devices of another file system are not opened, or the assertion fails
    rw [if_pos hown, open_seed_devices, hseed] at h
    by_cases hopen : m.open_devices dev_item.fsid = 0
    · simp only [List.not_mem_nil, false_and, exists_false, if_false, hopen, ne_eq,
        not_true_eq_false] at h
      cases h
    · simp only [List.not_mem_nil, false_and, exists_false, if_false, ne_eq, hopen,
        not_false_eq_true, if_true, ok_bind, Except.ok.injEq, Prod.mk.injEq, false_and] at h
  rw [if_neg (not_not.mpr hown), ok_bind] at h
  rw [if_neg (not_not.mpr rfl)] at h
  have hlists : v.devices_of dev_item.fsid = v.devices := by
    rw [volumes.devices_of, volumes.devices, hseed, List.filter_singleton, hown]
    simp
  rw [hlists] at h
  refine ⟨hown, ?_⟩
  cases hfind : btrfs_find_device v.devices dev_item.devid dev_item.uuid with
  | some dev =>
      rw [hfind] at h
      cases h
      exact ⟨hseed, rfl, by rw [hfind]; rfl, fun _ _ _ hdev => hdev⟩
  | none =>
      rw [hfind] at h
      dsimp only at h
      by_cases hmem : m.kzalloc v.fs_devices.devices.length = true
      swap
      · rw [if_pos hmem] at h
        cases h
      rw [if_neg (not_not.mpr hmem)] at h
      cases h
      have hfirst : (v.add_device ⟨dev_item.devid, dev_item.uuid, -1⟩).devices
          = ⟨dev_item.devid, dev_item.uuid, -1⟩ :: v.devices := rfl
      rw [hfirst]
      refine ⟨hseed, rfl, ?_, fun devid uuid dev hdev => ?_⟩
      · rw [btrfs_find_device, List.find?_cons_of_pos (by simp)]
        rfl
      · -- a device that is found is not the new one, which was not there
        rw [btrfs_find_device, List.find?_cons_of_neg]
        · exact hdev
        · intro heq
          obtain ⟨hid, huuid⟩ := of_decide_eq_true heq
          dsimp only at hid huuid
          rw [hid, huuid, hdev] at hfind
          cases hfind

/-- Without seeds, devices that are all taken are all known, and no device has been lost sight
of. -/
theorem take_devices_taken : ∀ {l : List btrfs_dev_item} {v v' : volumes}, v.seed = [] →
    take_devices m v l = .ok (0, v') →
    (∀ d ∈ l, d.fsid = v.fs_devices.fsid ∧ (btrfs_find_device v'.devices d.devid d.uuid).isSome) ∧
      ∀ devid uuid dev, btrfs_find_device v.devices devid uuid = some dev →
        btrfs_find_device v'.devices devid uuid = some dev := by
  intro l
  induction l with
  | nil =>
      intro v v' _ h
      cases h
      exact ⟨by simp, fun _ _ _ hdev => hdev⟩
  | cons d l ih =>
      intro v v' hseed h
      rw [take_devices] at h
      obtain ⟨⟨ret, v₁⟩, hone, h⟩ := bind_eq_ok.mp h
      dsimp only at h
      by_cases hret : ret ≠ 0
      · rw [if_pos hret] at h
        cases h
      rw [if_neg hret] at h
      obtain rfl := not_not.mp hret
      obtain ⟨hown, hseed₁, hfsid, hknown, hkept⟩ := read_one_dev_taken m hseed hone
      obtain ⟨hall, hkept'⟩ := ih hseed₁ h
      refine ⟨fun d' hd' => ?_, fun devid uuid dev hdev => hkept' _ _ _ (hkept _ _ _ hdev)⟩
      rcases List.mem_cons.mp hd' with rfl | hd'
      · obtain ⟨dev, hdev⟩ := Option.isSome_iff_exists.mp hknown
        exact ⟨hown, by rw [hkept' _ _ _ hdev]; rfl⟩
      · exact ⟨(hall d' hd').1.trans hfsid, (hall d' hd').2⟩

/-- Items in order, cut at an object. Object 1 has the devices and object 256 the chunks, so the
cut separates them. -/
theorem rising_split (objectid : ℕ) : ∀ {l : List (leaf_item chunk_tree_data)},
    (l.Pairwise fun x y => rank x.key < rank y.key) →
    ∃ front back, l = front ++ back ∧ (∀ item ∈ front, item.key.objectid < objectid) ∧
      ∀ item ∈ back, objectid ≤ item.key.objectid := by
  intro l
  induction l with
  | nil => exact fun _ => ⟨[], [], rfl, by simp, by simp⟩
  | cons x l ih =>
      intro h
      obtain ⟨hx, hl⟩ := List.pairwise_cons.mp h
      by_cases hlt : x.key.objectid < objectid
      · obtain ⟨front, back, rfl, hfront, hback⟩ := ih hl
        refine ⟨x :: front, back, rfl, fun item hitem => ?_, hback⟩
        rcases List.mem_cons.mp hitem with rfl | hitem
        · exact hlt
        · exact hfront item hitem
      · refine ⟨[], x :: l, rfl, by simp, fun item hitem => ?_⟩
        rcases List.mem_cons.mp hitem with rfl | hitem
        · exact not_lt.mp hlt
        · have hafter := rank_lt.mp (hx item hitem)
          omega

theorem length_le_flatMap {l : List (tree_block chunk_tree_data)} (h : ∀ x ∈ l, items x ≠ []) :
    l.length ≤ (l.flatMap items).length := by
  induction l with
  | nil => exact le_refl _
  | cons x l ih =>
      have hx := List.length_pos_iff.mpr (h x List.mem_cons_self)
      have hl := ih fun y hy => h y (List.mem_cons_of_mem _ hy)
      rw [List.length_cons, List.flatMap_cons, List.length_append]
      omega

end Chunks

/-- A device that is not there, and a chunk on one that is. -/
def one_leaf : tree_block chunk_tree_data :=
  .leaf 4096 [⟨⟨1, BTRFS_DEV_ITEM_KEY, 2⟩, 3897, 98, ⟨⟨2, [], []⟩, system_chunk⟩⟩,
    ⟨⟨256, BTRFS_CHUNK_ITEM_KEY, 8192⟩, 3817, 80, ⟨⟨0, [], []⟩, system_chunk⟩⟩]

/-- The file system as its super block leaves it, with one device open. -/
def one_open : volumes := ⟨⟨[], [⟨1, [], 3⟩]⟩, [], cache_tree_init⟩

end SysbakAdmin.ChunkTree

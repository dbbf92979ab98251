/-
The bitmap of a btrfs file system, as `gdbus-btrfs.c` takes it from the trees.

`read_bitmap_info` starts from an empty bitmap and marks what it finds: the super block, the
nodes of the trees, the extents their leaves speak of. The walk never looks at the bitmap,
so a part of it is given here by the calls of `set_bitmap` it makes, in order. What has not
been reached is free space to the copy, and a part of a tree that cannot be read is not
reached: either the walk follows an error pointer, and the daemon stops, or it goes on.

The library under it, `src/btrfs`, is a parameter: what is read at an address, where an
address lies on the device, and what its cursor over the tree of roots leads to.

A file system is then what can be read, mapped and found (`filesystem`). `reports_unreadable_iff`
needs little of it: `read_bitmap_info` has no way out between a complete bitmap and a stop
(`read_bitmap_info_ne_false`), so that a block that cannot be read is never what it reports.
What the walk marks when all goes well is the subject of `BtrfsMarks`.
-/
import SysbakAdmin.FatUsed

set_option autoImplicit false

namespace SysbakAdmin.Btrfs

open LittleEndian CInt CMemory Bitmap Io Share
open Fat (strncpy FS_MAGIC_SIZE)

/-! ## The library -/

structure btrfs_disk_key where
  objectid : ℕ
  type : ℕ
  offset : ℕ

/-- An item of a leaf: its key, and its data as each kind of item reads it. -/
structure btrfs_item where
  key : btrfs_disk_key
  extent_type : ℕ
  disk_bytenr : ℕ
  disk_num_bytes : ℕ
  root_bytenr : ℕ

/-- A pointer of an internal node. -/
structure btrfs_key_ptr where
  blockptr : ℕ
  generation : ℕ

/-- A tree block that is up to date, with the address in its header. -/
inductive extent_buffer where
  | leaf (bytenr : ℕ) (items : List btrfs_item)
  | node (bytenr : ℕ) (ptrs : List btrfs_key_ptr)

/-- `btrfs_header_bytenr`. -/
def extent_buffer.bytenr : extent_buffer → ℕ
  | .leaf bytenr _ => bytenr
  | .node bytenr _ => bytenr

def BTRFS_EXTENT_DATA_KEY : ℕ := 108

def BTRFS_ROOT_ITEM_KEY : ℕ := 132

def BTRFS_EXTENT_ITEM_KEY : ℕ := 168

def BTRFS_FILE_EXTENT_INLINE : ℕ := 0

def BTRFS_SUPER_INFO_OFFSET : ℕ := 65536

/-- Reading a tree block: by its address and the generation that is expected. It is up to
date when it comes back; otherwise what comes back is an error pointer. -/
abbrev Reader := ℕ → ℕ → Option extent_buffer

/-- The blocks of a tree that can be reached over blocks that can be read. A damaged node may name
any block, so this is a relation and not a tree. -/
inductive below (read_tree_block : Reader) : extent_buffer → extent_buffer → Prop
  | self (eb : extent_buffer) : below read_tree_block eb eb
  | child {bytenr : ℕ} {ptrs : List btrfs_key_ptr} {p : btrfs_key_ptr} {next eb : extent_buffer} :
      p ∈ ptrs → read_tree_block p.blockptr p.generation = some next →
      below read_tree_block next eb → below read_tree_block (.node bytenr ptrs) eb

/-- Every pointer below a block leads to a block that can be read. -/
def all_read (read_tree_block : Reader) (root : extent_buffer) : Prop :=
  ∀ bytenr ptrs, below read_tree_block root (.node bytenr ptrs) →
    ∀ p ∈ ptrs, ∃ next, read_tree_block p.blockptr p.generation = some next

/-- An item of a leaf below a block. -/
def has_item (read_tree_block : Reader) (root : extent_buffer) (item : btrfs_item) : Prop :=
  ∃ bytenr items, below read_tree_block root (.leaf bytenr items) ∧ item ∈ items

/-- Below a leaf there is only the leaf. -/
theorem has_item_leaf {read_tree_block : Reader} {bytenr : ℕ} {items : List btrfs_item}
    {item : btrfs_item} :
    has_item read_tree_block (.leaf bytenr items) item ↔ item ∈ items := by
  constructor
  · rintro ⟨bytenr', items', hbelow, hitem⟩
    cases hbelow
    exact hitem
  · intro hitem
    exact ⟨bytenr, items, below.self _, hitem⟩

/-- A file system on a device. The sizes are as the check of the super block lets them
through; `openable` stands for all that opening it asks for besides the three roots here.
`btrfs_map_block` gives the physical address of stripe 0 and the bytes that are left from
there in the chunk or the stripe. `found_items` are the items `btrfs_search_slot` and
`btrfs_next_leaf` lead to from the first root item on. -/
structure filesystem where
  sectorsize : ℕ
  nodesize : ℕ
  total_bytes : BitVec 64
  bytes_used : BitVec 64
  openable : Bool
  chunk_root : btrfs_key_ptr
  tree_root : btrfs_key_ptr
  dev_root : btrfs_key_ptr
  extent_root_bytenr : ℕ
  csum_root_bytenr : ℕ
  fs_root_bytenr : ℕ
  read_tree_block : Reader
  btrfs_map_block : ℕ → Option (ℕ × ℕ)
  found_items : List btrfs_item
  sectorsize_ge : 4096 ≤ sectorsize
  nodesize_ge : 4096 ≤ nodesize
  found_root_items : ∀ root,
    read_tree_block tree_root.blockptr tree_root.generation = some root →
    all_read read_tree_block root → ∀ item, item.key.type = BTRFS_ROOT_ITEM_KEY →
      (item ∈ found_items ↔ has_item read_tree_block root item)

/-- What `open_ctree_fs_info` fills in of the roots. -/
structure btrfs_fs_info where
  chunk_root : Option extent_buffer
  tree_root : Option extent_buffer
  dev_root : Option extent_buffer

/-- `open_ctree_fs_info`: `NULL` where one of these roots cannot be read. -/
def open_ctree_fs_info (d : filesystem) : Option btrfs_fs_info :=
  let read (p : btrfs_key_ptr) := d.read_tree_block p.blockptr p.generation
  if d.openable ∧ (read d.chunk_root).isSome ∧ (read d.tree_root).isSome
      ∧ (read d.dev_root).isSome then
    some ⟨read d.chunk_root, read d.tree_root, read d.dev_root⟩
  else none

/-! ## The code -/

/-- A call `set_bitmap(bitmap, pos, length)`. -/
structure Mark where
  pos : ℕ
  length : ℕ

/-- `set_bitmap`. The end is a sum of two `uint64_t`. -/
def set_bitmap (dev_size block_size total_block : ℕ) (bm : bitmap) (m : Mark) : bitmap :=
  if m.pos > dev_size then bm
  else
    let pos_block := m.pos / block_size
    let block_end := u64 (m.pos + m.length) / block_size
    let block_end := if u64 (m.pos + m.length) % block_size > 0 then block_end + 1 else block_end
    (for_blocks pc_set_bit total_block (block_end - pos_block) pos_block bm).2

section Walk

variable (d : filesystem)

/-- `check_extent_bitmap`: the call it makes, and `*num_bytes` afterwards. A length that is
not a whole number of sectors ends it at once; an address that is not mapped leaves `multi`
at `NULL`. The length goes to the mapping by pointer and comes back as what is left in the
chunk or the stripe; type 1 puts it back. -/
def check_extent_bitmap (bytenr num_bytes type : ℕ) : Run (List Mark × ℕ) :=
  if num_bytes % d.sectorsize ≠ 0 then .ok ([], num_bytes)
  else
    match d.btrfs_map_block bytenr with
    | none => .error .outOfBounds
    | some (physical, left) =>
        let num_bytes := if type = 1 then num_bytes else left
        .ok ([⟨physical, num_bytes⟩], num_bytes)

/-- `for` over a list, the calls one after the other. -/
def for_each {α : Type} (body : α → Run (List Mark)) : List α → Run (List Mark)
  | [] => .ok []
  | a :: rest => do
      let calls ← body a
      let more ← for_each body rest
      .ok (calls ++ more)

/-- `dump_file_extent_item`. -/
def dump_file_extent_item (item : btrfs_item) : List Mark :=
  if item.extent_type = BTRFS_FILE_EXTENT_INLINE then []
  else [⟨item.disk_bytenr, item.disk_num_bytes⟩]

/-- The body of the loop over the items of a leaf. -/
def dump_item (item : btrfs_item) : Run (List Mark) := do
  let data := if item.key.type = BTRFS_EXTENT_DATA_KEY then dump_file_extent_item item else []
  if item.key.type = BTRFS_EXTENT_ITEM_KEY then
    let (calls, _) ← check_extent_bitmap d item.key.objectid item.key.offset 1
    .ok (data ++ calls)
  else .ok data

/-- `dump_start_leaf` on a leaf. -/
def dump_leaf (bytenr : ℕ) (items : List btrfs_item) : Run (List Mark) := do
  let (own, _) ← check_extent_bitmap d bytenr d.nodesize 0
  let rest ← for_each (dump_item d) items
  .ok (own ++ rest)

/-- The loop of `dump_start_leaf` over the pointers of a node, given the call on a child.
`size` is handed from one mapping to the next. The address in the child's header is read
before it is asked whether the child is up to date. -/
def dump_ptrs (bytenr : ℕ) (dump_child : ℕ → extent_buffer → Run (List Mark)) :
    List btrfs_key_ptr → ℕ → ℕ → Run (List Mark)
  | [], _, _ => .ok []
  | p :: ptrs, i, size => do
      let (own, size) ← check_extent_bitmap d bytenr size 0
      match d.read_tree_block p.blockptr p.generation with
      | none => .error .outOfBounds
      | some next => do
          let (child, size) ← check_extent_bitmap d next.bytenr size 0
          let under ← dump_child i next
          let rest ← dump_ptrs bytenr dump_child ptrs (i + 1) size
          .ok (own ++ child ++ under ++ rest)

/-- `dump_start_leaf`, on blocks nested this deep. On a node, `size` is not set before it
is used: `stale` says what it holds in the call that this path of slots leads to. -/
def dump_start_leaf (stale : List ℕ → ℕ) : ℕ → List ℕ → extent_buffer → Run (List Mark)
  | 0, _, _ => .error .diverged
  | _ + 1, _, .leaf bytenr items => dump_leaf d bytenr items
  | depth + 1, path, .node bytenr ptrs =>
      dump_ptrs d bytenr (fun i next => dump_start_leaf stale depth (path ++ [i]) next) ptrs 0
        (stale path)

/-- The body of the loop over the tree of roots, at the item that is found as number `k`. A
root that cannot be read is passed over. -/
def dump_root (stale : List ℕ → ℕ) (depth : ℕ) : btrfs_item × ℕ → Run (List Mark)
  | (item, k) =>
      if item.key.type = BTRFS_ROOT_ITEM_KEY then
        match d.read_tree_block item.root_bytenr 0 with
        | none => .ok []
        | some buf => dump_start_leaf d stale depth [2, k] buf
      else .ok []

/-- `fs_open`: the global `info`, where it returns `TRUE`. The pointer is followed before it
is compared with `NULL`. -/
def fs_open : Run (Option btrfs_fs_info) :=
  match open_ctree_fs_info d with
  | none => .error .outOfBounds
  | some info =>
      if info.tree_root.isSome ∧ info.dev_root.isSome ∧ info.chunk_root.isSome then .ok (some info)
      else .ok none

/-- The calls of `read_bitmap_info` for the roots in `info`. `bsize` is handed on like
`size`. -/
def root_calls : Run (List Mark) := do
  let (extent, bsize) ← check_extent_bitmap d d.extent_root_bytenr d.nodesize 0
  let (csum, bsize) ← check_extent_bitmap d d.csum_root_bytenr bsize 0
  let (dev, bsize) ← check_extent_bitmap d d.dev_root.blockptr bsize 0
  let (fs, _) ← check_extent_bitmap d d.fs_root_bytenr bsize 0
  .ok (extent ++ csum ++ dev ++ fs)

/-- All calls of `read_bitmap_info`: the super block, the roots, then the trees. -/
def bitmap_calls (stale : List ℕ → ℕ) (depth : ℕ) (info : btrfs_fs_info) : Run (List Mark) := do
  let roots ← root_calls d
  let tree ← for_each (dump_start_leaf d stale depth [0]) info.tree_root.toList
  let chunk ← for_each (dump_start_leaf d stale depth [1]) info.chunk_root.toList
  let subvolumes ← for_each (dump_root d stale depth) d.found_items.zipIdx
  .ok ([⟨0, BTRFS_SUPER_INFO_OFFSET⟩, ⟨BTRFS_SUPER_INFO_OFFSET, d.nodesize⟩]
    ++ roots ++ tree ++ chunk ++ subvolumes)

/-- `read_bitmap_info`: what it returns, and the bitmap. -/
def read_bitmap_info (stale : List ℕ → ℕ) (depth : ℕ) (fs_info : file_system_info)
    (bm : bitmap) : Run (Bool × bitmap) := do
  match ← fs_open d with
  | none => .ok (false, bm)
  | some info => do
      let calls ← bitmap_calls d stale depth info
      .ok (true, calls.foldl
        (set_bitmap fs_info.device_size.toNat d.nodesize fs_info.totalblock.toNat) bm)

/-- `read_super_blocks`. -/
def read_super_blocks (fs_info : file_system_info) : Run (Bool × file_system_info) := do
  match ← fs_open d with
  | none => .ok (false, fs_info)
  | some _ =>
      .ok (true, { fs_info with
        fs := strncpy fs_info.fs [0x42, 0x54, 0x52, 0x46, 0x53] FS_MAGIC_SIZE
        block_size := BitVec.ofNat 32 d.nodesize
        usedblocks := BitVec.ofNat 64 (d.bytes_used.toNat / d.nodesize)
        device_size := d.total_bytes
        totalblock := BitVec.ofNat 64 (d.total_bytes.toNat / d.nodesize) })

end Walk

/-! ## The handlers -/

@[simp] theorem set_bitmap_length (dev_size block_size total_block : ℕ) (bm : bitmap) (m : Mark) :
    (set_bitmap dev_size block_size total_block bm m).length = bm.length := by
  rw [set_bitmap]
  split_ifs
  · rfl
  all_goals exact for_blocks_length pc_set_bit_length _ _ _ _

theorem foldl_set_bitmap_length (dev_size block_size total_block : ℕ) :
    ∀ (calls : List Mark) (bm : bitmap),
      (calls.foldl (set_bitmap dev_size block_size total_block) bm).length = bm.length := by
  intro calls
  induction calls with
  | nil => intro bm; rfl
  | cons m calls ih =>
      intro bm
      rw [List.foldl_cons, ih, set_bitmap_length]

section Handlers

variable {d : filesystem} {stale : List ℕ → ℕ} {depth : ℕ}

/-- What `read_bitmap_info` returns has gone through every call. The bitmap is then the old one
with these calls made on it, in order. -/
theorem read_bitmap_info_ok {fs_info : file_system_info} {bm bm' : bitmap} {ok : Bool}
    (h : read_bitmap_info d stale depth fs_info bm = .ok (ok, bm')) :
    (fs_open d = .ok none ∧ ok = false ∧ bm' = bm) ∨
      ∃ info calls, fs_open d = .ok (some info) ∧ bitmap_calls d stale depth info = .ok calls ∧
        ok = true ∧ bm' = calls.foldl
          (set_bitmap fs_info.device_size.toNat d.nodesize fs_info.totalblock.toNat) bm := by
  rw [read_bitmap_info] at h
  obtain ⟨info, hopen, h⟩ := bind_eq_ok.mp h
  cases info with
  | none =>
      cases h
      exact Or.inl ⟨hopen, rfl, rfl⟩
  | some info =>
      obtain ⟨calls, hcalls, h⟩ := bind_eq_ok.mp h
      cases h
      exact Or.inr ⟨info, calls, hopen, hcalls, rfl, rfl⟩

/-- The file system as the handlers of `gdbus-btrfs.c` see it. -/
def driver (d : filesystem) (stale : List ℕ → ℕ) (depth : ℕ) : Handlers.driver where
  read_super_blocks := read_super_blocks d
  read_bitmap_info := read_bitmap_info d stale depth
  bitmap_length := by
    intro fs_info bm ok bm' h
    rcases read_bitmap_info_ok h with ⟨-, -, rfl⟩ | ⟨info, calls, -, -, -, rfl⟩
    · rfl
    · exact foldl_set_bitmap_length _ _ _ _ _

/-! ## Blocks that cannot be read

A block can be reached when everything on the way to it can be read; what the walk does at one
that cannot is not to return `FALSE`. -/

/-- A block that can be reached: from the tree of roots, the chunk tree, or a root item. -/
inductive reachable (d : filesystem) : extent_buffer → Prop
  | tree {root eb : extent_buffer} :
      d.read_tree_block d.tree_root.blockptr d.tree_root.generation = some root →
      below d.read_tree_block root eb → reachable d eb
  | chunk {root eb : extent_buffer} :
      d.read_tree_block d.chunk_root.blockptr d.chunk_root.generation = some root →
      below d.read_tree_block root eb → reachable d eb
  | root_item {tree root eb : extent_buffer} {item : btrfs_item} :
      d.read_tree_block d.tree_root.blockptr d.tree_root.generation = some tree →
      has_item d.read_tree_block tree item → item.key.type = BTRFS_ROOT_ITEM_KEY →
      d.read_tree_block item.root_bytenr 0 = some root →
      below d.read_tree_block root eb → reachable d eb

/-- Some block that something reachable points to cannot be read. Everything on the way to it can
be read, so the walk comes to it for certain. -/
inductive unreadable (d : filesystem) : Prop
  | tree : d.read_tree_block d.tree_root.blockptr d.tree_root.generation = none → unreadable d
  | chunk : d.read_tree_block d.chunk_root.blockptr d.chunk_root.generation = none → unreadable d
  | root_item {tree : extent_buffer} {item : btrfs_item} :
      d.read_tree_block d.tree_root.blockptr d.tree_root.generation = some tree →
      has_item d.read_tree_block tree item → item.key.type = BTRFS_ROOT_ITEM_KEY →
      d.read_tree_block item.root_bytenr 0 = none → unreadable d
  | child {bytenr : ℕ} {ptrs : List btrfs_key_ptr} {p : btrfs_key_ptr} :
      reachable d (.node bytenr ptrs) → p ∈ ptrs →
      d.read_tree_block p.blockptr p.generation = none → unreadable d

/-- The roots that `fs_open` asks for are there when `open_ctree_fs_info` comes back: it
returns `TRUE`, or it does not return. -/
theorem fs_open_ne_none (d : filesystem) : fs_open d ≠ .ok none := by
  rw [fs_open, open_ctree_fs_info]
  dsimp only
  split_ifs with hall
  · dsimp only
    rw [if_pos ⟨hall.2.2.1, hall.2.2.2, hall.2.1⟩]
    exact fun h => by cases h
  · exact fun h => by cases h

/-- A complete bitmap is all it can report: there is no way out of the walks but a stop. -/
theorem read_bitmap_info_ne_false (fs_info : file_system_info) (bm bm' : bitmap) :
    read_bitmap_info d stale depth fs_info bm ≠ .ok (false, bm') := by
  intro h
  rcases read_bitmap_info_ok h with ⟨hopen, -, -⟩ | ⟨info, calls, -, -, hok, -⟩
  · exact fs_open_ne_none d hopen
  · cases hok

/-- An incomplete bitmap is reported, and both handlers end with an error. Both halves are needed,
since the handlers look at the result of the driver and at nothing else. -/
def reports_unreadable (d : filesystem) (stale : List ℕ → ℕ) (depth : ℕ) : Prop :=
  (∀ fs_info bm, ∃ bm', read_bitmap_info d stale depth fs_info bm = .ok (false, bm')) ∧
    ∀ host w overwrite r,
      gdbus_sysbak_ptf d.nodesize host (driver d stale depth) w overwrite = .ok r ∨
        gdbus_sysbak_ptp d.nodesize host (driver d stale depth) w overwrite = .ok r → r.1 = false

/-- **A block that cannot be read is never reported**: what is asked for holds where there is
none. The proof does not look at the damage: no run of `read_bitmap_info` returns `FALSE`, so what
is asked for can only hold where nothing is asked. -/
theorem reports_unreadable_iff (d : filesystem) (stale : List ℕ → ℕ) (depth : ℕ) :
    (unreadable d → reports_unreadable d stale depth) ↔ ¬ unreadable d := by
  constructor
  · intro h hunread
    obtain ⟨bm', hfalse⟩ := (h hunread).1 init_file_system_info []
    exact read_bitmap_info_ne_false _ _ _ hfalse
  · intro h hunread
    exact absurd hunread h

/-- The root item of a subvolume whose root is at address 196608. -/
def subvolume_item : btrfs_item := ⟨⟨257, BTRFS_ROOT_ITEM_KEY, 0⟩, 0, 0, 0, 196608⟩

/-- Three trees of one leaf each, and a subvolume that cannot be read. Addresses are those of
the device, in stripes of 65536 bytes. -/
def lost_subvolume : filesystem where
  sectorsize := 4096
  nodesize := 4096
  total_bytes := 262144
  bytes_used := 28672
  openable := true
  chunk_root := ⟨135168, 7⟩
  tree_root := ⟨131072, 7⟩
  dev_root := ⟨139264, 7⟩
  extent_root_bytenr := 143360
  csum_root_bytenr := 147456
  fs_root_bytenr := 151552
  read_tree_block := fun bytenr _ =>
    if bytenr = 131072 then some (.leaf 131072 [subvolume_item])
    else if bytenr < 155648 then some (.leaf bytenr [])
    else none
  btrfs_map_block := fun bytenr => some (bytenr, 65536 - bytenr % 65536)
  found_items := [subvolume_item]
  sectorsize_ge := by omega
  nodesize_ge := by omega
  found_root_items := by
    intro root hroot _ item _
    cases hroot
    exact has_item_leaf.symm

theorem lost_subvolume_not_reported :
    unreadable lost_subvolume ∧ ¬ reports_unreadable lost_subvolume (fun _ => 0) 1 ∧
      ∃ fs_info bm, read_super_blocks lost_subvolume init_file_system_info = .ok (true, fs_info) ∧
        read_bitmap_info lost_subvolume (fun _ => 0) 1 fs_info [0] = .ok (true, bm) ∧
        bit bm 48 = false := by
  have hitem : has_item lost_subvolume.read_tree_block (.leaf 131072 [subvolume_item])
      subvolume_item :=
    has_item_leaf.mpr (List.mem_singleton.mpr rfl)
  refine ⟨unreadable.root_item rfl hitem rfl rfl, ?_, _, _, rfl, rfl, by decide +kernel⟩
  intro h
  obtain ⟨bm', hfalse⟩ := h.1 init_file_system_info []
  exact read_bitmap_info_ne_false _ _ _ hfalse

end Handlers

end SysbakAdmin.Btrfs

/-
Where the logical addresses of a btrfs file system lie on its devices: the chunks that
`read_one_chunk` of `src/btrfs/volumes.c` takes into the mapping tree, and the two ways through
it, `btrfs_map_block` and `btrfs_rmap_block`.

`btrfs_map_block` is modelled as this program calls it: to read, for one stripe, and without a
map of the stripes of RAID5 and RAID6.

A chunk is taken in once: the address of its key is looked up first, and a chunk that is
there already is not compared with the one that was read. So of several chunks at one address
the first is kept, and `read_chunks_iff` asks that two chunks are the same range of addresses
or share none. Nothing the tree holds has failed `btrfs_check_chunk_valid` (`mapped`); what that
check lets pass is the domain of the theorems of `MapBlock`.

The devices are given: a stripe that names one that is not there is read over a device without a
descriptor. `read_one_chunk` allocates a record for each chunk, and whether there is memory for
it is a parameter.
-/
import SysbakAdmin.ExtentCache
import SysbakAdmin.Lib.Striping
import SysbakAdmin.Lib.CMemory

set_option autoImplicit false

namespace SysbakAdmin.Volumes

open LittleEndian SearchTree EventRun CInt CMemory ExtentCache

/-- `EIO`. -/
def eio : ℤ := 5

def ENOENT : ℤ := 2

def ENOMEM : ℤ := 12

def BTRFS_STRIPE_LEN : ℕ := 64 * 1024

def BTRFS_SYSTEM_CHUNK_ARRAY_SIZE : ℕ := 2048

/-! ## Block groups -/

def BTRFS_BLOCK_GROUP_DATA : ℕ := 1 <<< 0

def BTRFS_BLOCK_GROUP_SYSTEM : ℕ := 1 <<< 1

def BTRFS_BLOCK_GROUP_METADATA : ℕ := 1 <<< 2

def BTRFS_BLOCK_GROUP_RAID0 : ℕ := 1 <<< 3

def BTRFS_BLOCK_GROUP_RAID1 : ℕ := 1 <<< 4

def BTRFS_BLOCK_GROUP_DUP : ℕ := 1 <<< 5

def BTRFS_BLOCK_GROUP_RAID10 : ℕ := 1 <<< 6

def BTRFS_BLOCK_GROUP_RAID5 : ℕ := 1 <<< 7

def BTRFS_BLOCK_GROUP_RAID6 : ℕ := 1 <<< 8

def BTRFS_BLOCK_GROUP_TYPE_MASK : ℕ :=
  BTRFS_BLOCK_GROUP_DATA ||| BTRFS_BLOCK_GROUP_SYSTEM ||| BTRFS_BLOCK_GROUP_METADATA

def BTRFS_BLOCK_GROUP_PROFILE_MASK : ℕ :=
  BTRFS_BLOCK_GROUP_RAID0 ||| BTRFS_BLOCK_GROUP_RAID1 ||| BTRFS_BLOCK_GROUP_RAID5 |||
    BTRFS_BLOCK_GROUP_RAID6 ||| BTRFS_BLOCK_GROUP_DUP ||| BTRFS_BLOCK_GROUP_RAID10

/-! ## Devices and chunks -/

structure btrfs_device where
  devid : ℕ
  uuid : List Byte
  fd : ℤ
deriving DecidableEq

structure btrfs_bio_stripe where
  dev : btrfs_device
  physical : ℕ
deriving DecidableEq

/-- What `map_lookup` holds beside its extent. -/
structure map_lookup where
  type : ℕ
  io_align : ℤ
  io_width : ℤ
  stripe_len : ℕ
  sector_size : ℤ
  num_stripes : ℕ
  sub_stripes : ℕ
  stripes : List btrfs_bio_stripe
deriving DecidableEq

/-- The extents of the mapping tree, each in its `map_lookup`. -/
abbrev btrfs_mapping_tree := cache_tree map_lookup

structure btrfs_stripe where
  devid : ℕ
  offset : ℕ
  dev_uuid : List Byte

/-- A chunk as a block of the tree holds it; `stripe` reads the bytes behind it. -/
structure btrfs_chunk where
  length : ℕ
  stripe_len : ℕ
  type : ℕ
  io_align : ℕ
  io_width : ℕ
  sector_size : ℕ
  num_stripes : ℕ
  sub_stripes : ℕ
  stripe : ℕ → btrfs_stripe
  num_stripes_lt : num_stripes < 2 ^ 16
  sub_stripes_lt : sub_stripes < 2 ^ 16

/-- `IS_ALIGNED`. -/
def IS_ALIGNED (x a : ℕ) : Prop := x &&& (a - 1) = 0

instance (x a : ℕ) : Decidable (IS_ALIGNED x a) := inferInstanceAs (Decidable (_ = _))

/-- `~mask` in 64 bits. -/
def complement (mask : ℕ) : ℕ := 2 ^ 64 - 1 - mask

/-- `sizeof(struct btrfs_stripe)`. -/
def sizeof_btrfs_stripe : ℕ := 32

/-- `btrfs_check_chunk_valid`. `slot` is the size of the item the chunk stands in, and `none`
for -1, a system chunk of the super block. -/
def btrfs_check_chunk_valid (sectorsize : ℕ) (chunk : btrfs_chunk) (slot : Option ℕ)
    (logical : ℕ) : ℤ :=
  let length := chunk.length
  let num_stripes := chunk.num_stripes
  let sub_stripes := chunk.sub_stripes
  let type := chunk.type
  if ¬ IS_ALIGNED logical sectorsize then -eio
  else if chunk.sector_size ≠ sectorsize then -eio
  else if length = 0 ∨ ¬ IS_ALIGNED length sectorsize then -eio
  else if chunk.stripe_len ≠ BTRFS_STRIPE_LEN then -eio
  else if slot = none ∧ type &&& BTRFS_BLOCK_GROUP_SYSTEM = 0 then -eio
  else if type &&& complement (BTRFS_BLOCK_GROUP_TYPE_MASK ||| BTRFS_BLOCK_GROUP_PROFILE_MASK) ≠ 0
    then -eio
  else if num_stripes < 1
      ∨ (slot = none ∧ sizeof_btrfs_stripe * num_stripes > BTRFS_SYSTEM_CHUNK_ARRAY_SIZE)
      ∨ (∃ size ∈ slot, sizeof_btrfs_stripe * (num_stripes - 1) > size) then -eio
  else if (type &&& BTRFS_BLOCK_GROUP_RAID10 ≠ 0 ∧ sub_stripes = 0)
      ∨ (type &&& BTRFS_BLOCK_GROUP_RAID1 ≠ 0 ∧ num_stripes < 1)
      ∨ (type &&& BTRFS_BLOCK_GROUP_RAID5 ≠ 0 ∧ num_stripes < 2)
      ∨ (type &&& BTRFS_BLOCK_GROUP_RAID6 ≠ 0 ∧ num_stripes < 3)
      ∨ (type &&& BTRFS_BLOCK_GROUP_DUP ≠ 0 ∧ num_stripes > 2)
      ∨ (type &&& BTRFS_BLOCK_GROUP_PROFILE_MASK = 0 ∧ num_stripes ≠ 1) then -eio
  else 0

/-- `btrfs_find_device` without a file system id, over the devices of all lists. -/
def btrfs_find_device (devices : List btrfs_device) (devid : ℕ) (uuid : List Byte) :
    Option btrfs_device :=
  devices.find? fun dev => dev.devid = devid ∧ dev.uuid = uuid

/-- `fill_missing_device`. Its memory is taken to be there; the source writes to it unchecked. -/
def fill_missing_device (devid : ℕ) : btrfs_device := ⟨devid, List.replicate 16 0, -1⟩

/-- The device of a stripe. -/
def stripe_device (devices : List btrfs_device) (s : btrfs_stripe) : btrfs_device :=
  (btrfs_find_device devices s.devid s.dev_uuid).getD (fill_missing_device s.devid)

/-- The extent `read_one_chunk` fills in. The check has let one stripe length through only, so
nothing is lost in an `int`. -/
def chunk_extent (devices : List btrfs_device) (logical : ℕ) (chunk : btrfs_chunk) :
    cache_extent map_lookup where
  start := logical
  size := chunk.length
  owner :=
    { type := chunk.type
      io_align := i32 chunk.io_align
      io_width := i32 chunk.io_width
      stripe_len := chunk.stripe_len
      sector_size := i32 chunk.sector_size
      num_stripes := chunk.num_stripes
      sub_stripes := chunk.sub_stripes
      stripes := (List.range chunk.num_stripes).map fun i =>
        ⟨stripe_device devices (chunk.stripe i), (chunk.stripe i).offset⟩ }

section Reading

variable (rb : Balancing (cache_extent map_lookup)) (sectorsize : ℕ) (devices : List btrfs_device)
  (kmalloc : ℕ → Bool)

/-- `read_one_chunk`: what it returns, and the mapping tree. `kmalloc` says whether there is memory
for the record of the chunk at an address: no address is asked for twice, because a record that is
there is found, and one that cannot be had ends the reading. -/
def read_one_chunk (map_tree : btrfs_mapping_tree) (logical : ℕ) (chunk : btrfs_chunk)
    (slot : Option ℕ) : ℤ × btrfs_mapping_tree :=
  let ret := btrfs_check_chunk_valid sectorsize chunk slot logical
  if ret ≠ 0 then (ret, map_tree)
  else if ∃ ce ∈ search_cache_extent map_tree logical,
      ce.start ≤ logical ∧ u64 (ce.start + ce.size) > logical then
    -- already mapped
    (0, map_tree)
  else if ¬ kmalloc logical then (-ENOMEM, map_tree)
  else
    let (ret, map_tree) := insert_cache_extent rb map_tree (chunk_extent devices logical chunk)
    (if ret ≠ 0 then -1 else 0, map_tree)

/-- A chunk as the super block or the chunk tree gives it: its key's offset, the chunk, and the
slot. -/
structure chunk_item where
  logical : ℕ
  chunk : btrfs_chunk
  slot : Option ℕ

/-- The chunks one after the other, as the loops of `btrfs_read_sys_array` and
`btrfs_read_chunk_tree` take them in, up to the first that is not taken. -/
def read_chunks : btrfs_mapping_tree → List chunk_item → ℤ × btrfs_mapping_tree
  | map_tree, [] => (0, map_tree)
  | map_tree, item :: items =>
      let (ret, map_tree) :=
        read_one_chunk rb sectorsize devices kmalloc map_tree item.logical item.chunk item.slot
      if ret ≠ 0 then (ret, map_tree) else read_chunks map_tree items

end Reading

/-! ## From an address to a device -/

def nr_parity_stripes (map : map_lookup) : ℕ :=
  if map.type &&& BTRFS_BLOCK_GROUP_RAID5 ≠ 0 then 1
  else if map.type &&& BTRFS_BLOCK_GROUP_RAID6 ≠ 0 then 2
  else 0

/-- `nr_data_stripes`. The check keeps parity below the stripes there are. -/
def nr_data_stripes (map : map_lookup) : ℕ := map.num_stripes - nr_parity_stripes map

def btrfs_num_copies (map_tree : btrfs_mapping_tree) (logical : ℕ) : ℕ :=
  match search_cache_extent map_tree logical with
  | none => 1
  | some ce =>
      if ce.start > logical ∨ u64 (ce.start + ce.size) < logical then 1
      else
        let map := ce.owner
        if map.type &&& (BTRFS_BLOCK_GROUP_DUP ||| BTRFS_BLOCK_GROUP_RAID1) ≠ 0 then
          map.num_stripes
        else if map.type &&& BTRFS_BLOCK_GROUP_RAID10 ≠ 0 then map.sub_stripes
        else if map.type &&& BTRFS_BLOCK_GROUP_RAID5 ≠ 0 then 2
        else if map.type &&& BTRFS_BLOCK_GROUP_RAID6 ≠ 0 then 3
        else 1

/-- The chain of profiles in `__btrfs_map_block`: `stripe_index` and `stripe_nr` for a read. -/
def stripe_place (map : map_lookup) (stripe_nr mirror_num : ℕ) : Run (ℕ × ℕ) :=
  if map.type &&& BTRFS_BLOCK_GROUP_RAID1 ≠ 0 then
    if mirror_num ≠ 0 then .ok (mirror_num - 1, stripe_nr)
    else do
      let stripe_index ← umod stripe_nr map.num_stripes
      .ok (stripe_index, stripe_nr)
  else if map.type &&& BTRFS_BLOCK_GROUP_RAID10 ≠ 0 then do
    let factor ← udiv map.num_stripes map.sub_stripes
    let stripe_index ← umod stripe_nr factor
    let stripe_index := stripe_index * map.sub_stripes
    let stripe_index := if mirror_num ≠ 0 then stripe_index + (mirror_num - 1) else stripe_index
    let stripe_nr ← udiv stripe_nr factor
    .ok (stripe_index, stripe_nr)
  else if map.type &&& BTRFS_BLOCK_GROUP_DUP ≠ 0 then
    if mirror_num ≠ 0 then .ok (mirror_num - 1, stripe_nr) else .ok (0, stripe_nr)
  else if map.type &&& (BTRFS_BLOCK_GROUP_RAID5 ||| BTRFS_BLOCK_GROUP_RAID6) ≠ 0 then do
    let stripe_index ← umod stripe_nr (nr_data_stripes map)
    let stripe_nr ← udiv stripe_nr (nr_data_stripes map)
    -- 2 is the parity of RAID5, 3 the Q of RAID6; both are distributed across the stripes
    let stripe_index :=
      if mirror_num > 1 then nr_data_stripes map + mirror_num - 2 else stripe_index
    let stripe_index ← umod (u64 (stripe_nr + stripe_index)) map.num_stripes
    .ok (stripe_index, stripe_nr)
  else do
    let stripe_index ← umod stripe_nr map.num_stripes
    let stripe_nr ← udiv stripe_nr map.num_stripes
    .ok (stripe_index, stripe_nr)

/-- `btrfs_map_block` to read: what it returns, `*length`, and the stripe of `*multi_ret`. -/
def btrfs_map_block (map_tree : btrfs_mapping_tree) (logical length mirror_num : ℕ) :
    Run (ℤ × ℕ × Option btrfs_bio_stripe) :=
  match search_cache_extent map_tree logical with
  | none => .ok (-ENOENT, 2 ^ 64 - 1, none)
  | some ce =>
      if ce.start > logical then .ok (-ENOENT, ce.start - logical, none)
      else do
        let map := ce.owner
        let offset := logical - ce.start
        let stripe_nr ← udiv offset map.stripe_len
        let stripe_offset := stripe_nr * map.stripe_len
        if offset < stripe_offset then .ok (-1, length, none)
        else do
          let stripe_offset := offset - stripe_offset
          -- each bio is limited to what fits in a stripe
          let length :=
            if map.type &&& (BTRFS_BLOCK_GROUP_RAID0 ||| BTRFS_BLOCK_GROUP_RAID1 |||
                BTRFS_BLOCK_GROUP_RAID5 ||| BTRFS_BLOCK_GROUP_RAID6 |||
                BTRFS_BLOCK_GROUP_RAID10 ||| BTRFS_BLOCK_GROUP_DUP) ≠ 0 then
              min (ce.size - offset) (map.stripe_len - stripe_offset)
            else ce.size - offset
          let (stripe_index, stripe_nr) ← stripe_place map stripe_nr mirror_num
          if stripe_index ≥ map.num_stripes then .ok (-1, length, none)
          else
            match map.stripes[stripe_index]? with
            | none => .error .outOfBounds
            | some stripe =>
                .ok (0, length, some ⟨stripe.dev,
                  u64 (stripe.physical + stripe_offset + stripe_nr * map.stripe_len)⟩)

/-! ## And back -/

/-- The stripe of a device that lies at an offset in it, as `btrfs_rmap_block` numbers it. -/
def rmap_stripe_nr (map : map_lookup) (stripe_nr i : ℕ) : Run ℕ :=
  if map.type &&& BTRFS_BLOCK_GROUP_RAID10 ≠ 0 then
    udiv (u64 (stripe_nr * map.num_stripes + i)) map.sub_stripes
  else if map.type &&& BTRFS_BLOCK_GROUP_RAID0 ≠ 0 then .ok (u64 (stripe_nr * map.num_stripes + i))
  else .ok stripe_nr

/-- The bytes of a chunk on one device, and the bytes of the chunk that lie side by side. -/
def rmap_lengths (ce : cache_extent map_lookup) : Run (ℕ × ℕ) :=
  let map := ce.owner
  if map.type &&& BTRFS_BLOCK_GROUP_RAID10 ≠ 0 then do
    let factor ← udiv map.num_stripes map.sub_stripes
    let length ← udiv ce.size factor
    .ok (length, map.stripe_len)
  else if map.type &&& BTRFS_BLOCK_GROUP_RAID0 ≠ 0 then do
    let length ← udiv ce.size map.num_stripes
    .ok (length, map.stripe_len)
  else if map.type &&& (BTRFS_BLOCK_GROUP_RAID5 ||| BTRFS_BLOCK_GROUP_RAID6) ≠ 0 then do
    let length ← udiv ce.size (nr_data_stripes map)
    .ok (length, map.stripe_len * nr_data_stripes map)
  else .ok (ce.size, map.stripe_len)

/-- The loop of `btrfs_rmap_block` over the stripes from number `i` on, with the addresses found
so far in `buf`. -/
def rmap_stripes (ce : cache_extent map_lookup) (physical devid length rmap_len : ℕ) :
    ℕ → List btrfs_bio_stripe → List ℕ → Run (List ℕ)
  | _, [], buf => .ok buf
  | i, stripe :: stripes, buf =>
      if devid ≠ 0 ∧ stripe.dev.devid ≠ devid then
        rmap_stripes ce physical devid length rmap_len (i + 1) stripes buf
      else if stripe.physical > physical ∨ u64 (stripe.physical + length) ≤ physical then
        rmap_stripes ce physical devid length rmap_len (i + 1) stripes buf
      else do
        let stripe_nr ← udiv (physical - stripe.physical) ce.owner.stripe_len
        let stripe_nr ← rmap_stripe_nr ce.owner stripe_nr i
        let bytenr := u64 (ce.start + stripe_nr * rmap_len)
        rmap_stripes ce physical devid length rmap_len (i + 1) stripes
          (if bytenr ∈ buf then buf else buf ++ [bytenr])

/-- `btrfs_rmap_block`: what it returns, the addresses, and the length of what lies at each. -/
def btrfs_rmap_block (map_tree : btrfs_mapping_tree) (chunk_start physical devid : ℕ) :
    Run (ℤ × List ℕ × ℕ) :=
  match search_cache_extent map_tree chunk_start with
  | none => .ok (-1, [], 0)
  | some ce => do
      let (length, rmap_len) ← rmap_lengths ce
      let buf ← rmap_stripes ce physical devid length rmap_len 0 ce.owner.stripes []
      .ok (0, buf, rmap_len)

/-! ## What the check lets through

The theorems about the mapping are about every tree of such chunks, the odd ones among them. -/

/-- A map of a chunk that has passed the check. The fields are what the later arithmetic divides
by and multiplies, with the bounds the check gives them. -/
structure map_lookup.checked (map : map_lookup) : Prop where
  stripe_len : map.stripe_len = BTRFS_STRIPE_LEN
  num_stripes : 1 ≤ map.num_stripes
  num_stripes_lt : map.num_stripes < 2 ^ 16
  sub_stripes_lt : map.sub_stripes < 2 ^ 16
  stripes : map.stripes.length = map.num_stripes
  raid10 : map.type &&& BTRFS_BLOCK_GROUP_RAID10 ≠ 0 → map.sub_stripes ≠ 0
  raid5 : map.type &&& BTRFS_BLOCK_GROUP_RAID5 ≠ 0 → 2 ≤ map.num_stripes
  raid6 : map.type &&& BTRFS_BLOCK_GROUP_RAID6 ≠ 0 → 3 ≤ map.num_stripes
  single : map.type &&& BTRFS_BLOCK_GROUP_PROFILE_MASK = 0 → map.num_stripes = 1

theorem check_passed {sectorsize logical : ℕ} {chunk : btrfs_chunk} {slot : Option ℕ}
    (h : btrfs_check_chunk_valid sectorsize chunk slot logical = 0)
    (devices : List btrfs_device) :
    chunk.length ≠ 0 ∧ (chunk_extent devices logical chunk).owner.checked := by
  have hne : ¬ -eio = 0 := by decide
  unfold btrfs_check_chunk_valid at h
  dsimp only at h
  split_ifs at h with h1 h2 h3 h4 h5 h6 h7 h8
  all_goals try exact absurd h hne
  push Not at h3 h4 h7 h8
  obtain ⟨h10, -, h5, h6, -, hsingle⟩ := h8
  refine ⟨h3.1, h4, h7.1, chunk.num_stripes_lt, chunk.sub_stripes_lt, ?_, h10, h5, h6, hsingle⟩
  simp [chunk_extent]

/-- What the mapping tree holds: disjoint chunks that have passed the check. Nothing that was not
read is in it, and nothing that failed the check. -/
structure mapped (map_tree : btrfs_mapping_tree) : Prop where
  tidy : tidy map_tree.inorder
  checked : ∀ ce ∈ extents map_tree, ce.owner.checked

/-- The chunk covers an address. -/
def covers (ce : cache_extent map_lookup) (logical : ℕ) : Prop :=
  ce.start ≤ logical ∧ logical < ce.stop

/-- In the mapping tree an address is looked up by the chunk that covers it. -/
theorem search_covers {map_tree : btrfs_mapping_tree} (h : mapped map_tree)
    {ce : cache_extent map_lookup} (hce : ce ∈ extents map_tree) {logical : ℕ}
    (hcovers : covers ce logical) : search_cache_extent map_tree logical = some ce := by
  have hlt : logical < 2 ^ 64 := lt_trans hcovers.2 (h.tidy.fits ce hce).2
  have hfirst := search_spec h.tidy hlt
  rcases hsearch : search_cache_extent map_tree logical with - | e
  · rw [hsearch] at hfirst
    exact absurd hcovers.2 (hfirst ce hce)
  · rw [hsearch] at hfirst
    obtain ⟨he, hstop, hleast⟩ := hfirst
    have hle := hleast ce hce hcovers.2
    -- the two chunks share an address
    obtain ⟨l, r, hlr, -, -⟩ := h.tidy.split hce
    have htidy := h.tidy
    rw [hlr] at htidy
    have he : e ∈ l ++ ce :: r := hlr ▸ he
    rcases List.mem_append.mp he with h' | h'
    · have := htidy.around.1 e h'
      have := hcovers.1
      omega
    · rcases List.mem_cons.mp h' with rfl | h'
      · rfl
      · have := htidy.around.2 e h'
        have := start_lt_stop (htidy.fits ce (by simp))
        omega

/-- What a search finds that starts at or below the address covers it. -/
theorem covers_of_search {map_tree : btrfs_mapping_tree} (h : mapped map_tree) {logical : ℕ}
    (hlt : logical < 2 ^ 64) {ce : cache_extent map_lookup}
    (hsearch : search_cache_extent map_tree logical = some ce) (hle : ce.start ≤ logical) :
    ce ∈ extents map_tree ∧ covers ce logical := by
  have hfirst := search_spec h.tidy hlt
  rw [hsearch] at hfirst
  exact ⟨hfirst.1, hle, hfirst.2.1⟩

section Reading

variable (rb : Balancing (cache_extent map_lookup)) (sectorsize : ℕ) (devices : List btrfs_device)
  (kmalloc : ℕ → Bool)

/-- The extent of a chunk item. -/
def chunk_item.extent (item : chunk_item) : cache_extent map_lookup :=
  chunk_extent devices item.logical item.chunk

/-- The addresses of a chunk stay below the last one of 64 bits. -/
def chunk_item.in_range (item : chunk_item) : Prop := item.logical + item.chunk.length < 2 ^ 64

/-- `read_one_chunk` rejects the chunk, or finds its address mapped, or maps it. Rejected is a
chunk that fails the check, that meets another one behind its first address, or for which there is
no memory. -/
theorem read_one_chunk_spec {map_tree : btrfs_mapping_tree} (h : mapped map_tree)
    {item : chunk_item} (hitem : item.in_range) :
    ((∃ ret ≠ 0, read_one_chunk rb sectorsize devices kmalloc map_tree item.logical item.chunk
        item.slot = (ret, map_tree)) ∧
      (btrfs_check_chunk_valid sectorsize item.chunk item.slot item.logical ≠ 0 ∨
        ((∃ e ∈ extents map_tree, e.meets item.logical item.chunk.length) ∧
          ∀ ce ∈ extents map_tree, ¬ covers ce item.logical) ∨ kmalloc item.logical = false)) ∨
    (read_one_chunk rb sectorsize devices kmalloc map_tree item.logical item.chunk item.slot
        = (0, map_tree) ∧ ∃ ce ∈ extents map_tree, covers ce item.logical) ∨
    ∃ map_tree', read_one_chunk rb sectorsize devices kmalloc map_tree item.logical item.chunk
        item.slot = (0, map_tree') ∧ mapped map_tree' ∧ kmalloc item.logical = true ∧
          extents map_tree' = insert (item.extent devices) (extents map_tree) := by
  have hlt : item.logical < 2 ^ 64 := by
    have : item.logical + item.chunk.length < 2 ^ 64 := hitem
    omega
  rw [read_one_chunk]
  by_cases hcheck : btrfs_check_chunk_valid sectorsize item.chunk item.slot item.logical = 0
  swap
  · exact Or.inl ⟨⟨_, hcheck, by dsimp only; rw [if_pos hcheck]⟩, Or.inl hcheck⟩
  obtain ⟨hlen, hchecked⟩ := check_passed hcheck devices
  have hfits : (item.extent devices).fits := ⟨Nat.pos_of_ne_zero hlen, hitem⟩
  dsimp only
  rw [if_neg (not_not.mpr hcheck)]
  split
  · rename_i halready
    obtain ⟨ce, hsearch, hle, -⟩ := halready
    exact Or.inr (Or.inl ⟨rfl, ce, covers_of_search h hlt hsearch hle⟩)
  · rename_i hnew
    cases hmem : kmalloc item.logical with
    | false =>
        rw [if_pos Bool.false_ne_true]
        exact Or.inl ⟨⟨-ENOMEM, by decide, rfl⟩, Or.inr (Or.inr rfl)⟩
    | true =>
    rw [if_neg (not_not.mpr rfl)]
    have hkeeps := insert_changes rb h.tidy hfits
    rcases insert_spec rb h.tidy hfits with ⟨heq, e, he, hmeets⟩ | ⟨t', l, r, heq, hlr, hout, -, -⟩
    · have hfree : ∀ ce ∈ extents map_tree, ¬ covers ce item.logical := by
        intro ce hce hcovers
        have hstop : u64 (ce.start + ce.size) = ce.stop := u64_of_lt (h.tidy.fits ce hce).2
        exact hnew ⟨ce, search_covers h hce hcovers, hcovers.1, hstop ▸ hcovers.2⟩
      refine Or.inl ⟨⟨-1, by decide, ?_⟩, Or.inr (Or.inl ⟨⟨e, he, hmeets⟩, hfree⟩)⟩
      rw [chunk_item.extent] at heq
      rw [heq]
      rfl
    · have hset : extents t' = insert (item.extent devices) (extents map_tree) := by
        ext e
        simp only [extents, hout, hlr, Set.mem_ofPred_eq, Set.mem_insert_iff, List.mem_append,
          List.mem_cons]
        tauto
      rw [heq] at hkeeps
      refine Or.inr (Or.inr ⟨t', ?_, ⟨hkeeps.1, fun ce hce => ?_⟩, rfl, hset⟩)
      · rw [chunk_item.extent] at heq
        rw [heq]
        rfl
      · rw [hset] at hce
        rcases Set.mem_insert_iff.mp hce with rfl | hce
        · exact hchecked
        · exact h.checked ce hce

/-- A chunk of the tree and one that is read are the same range of addresses, or share none. Of
two chunks that overlap otherwise, one is not taken in. -/
def agree (ce : cache_extent map_lookup) (item : chunk_item) : Prop :=
  (ce.start = item.logical ∧ ce.size = item.chunk.length) ∨
    ¬ ce.meets item.logical item.chunk.length

/-- The chunk stands in the mapping tree with all its addresses. -/
def mapped_whole (map_tree : btrfs_mapping_tree) (item : chunk_item) : Prop :=
  ∃ ce ∈ extents map_tree, ce.start = item.logical ∧ ce.size = item.chunk.length

/-- Reading chunks keeps what is mapped and adds only chunks that are read. By induction on the
chunks that are read. -/
theorem read_chunks_keeps {items : List chunk_item} (hitems : ∀ item ∈ items, item.in_range) :
    ∀ {map_tree : btrfs_mapping_tree}, mapped map_tree →
      mapped (read_chunks rb sectorsize devices kmalloc map_tree items).2 ∧
      extents map_tree ⊆ extents (read_chunks rb sectorsize devices kmalloc map_tree items).2 ∧
      ∀ ce ∈ extents (read_chunks rb sectorsize devices kmalloc map_tree items).2,
        ce ∈ extents map_tree ∨
          ∃ item ∈ items, ce = item.extent devices ∧ kmalloc item.logical = true := by
  induction items with
  | nil => exact fun h => ⟨h, subset_rfl, fun ce hce => Or.inl hce⟩
  | cons item items ih =>
      intro map_tree h
      have hrest := fun item' hmem => hitems item' (List.mem_cons_of_mem _ hmem)
      rw [read_chunks]
      rcases read_one_chunk_spec rb sectorsize devices kmalloc h
        (hitems item List.mem_cons_self) with
        ⟨⟨ret, hret, heq⟩, -⟩ | ⟨heq, -⟩ | ⟨t', heq, ht', hmem, hset⟩
      · rw [heq]
        dsimp only
        rw [if_pos hret]
        exact ⟨h, subset_rfl, fun ce hce => Or.inl hce⟩
      · rw [heq]
        dsimp only
        rw [if_neg (not_not.mpr rfl)]
        obtain ⟨hmapped, hsub, honly⟩ := ih hrest h
        refine ⟨hmapped, hsub, fun ce hce => (honly ce hce).imp_right ?_⟩
        exact fun ⟨item', hmem, he⟩ => ⟨item', List.mem_cons_of_mem _ hmem, he⟩
      · rw [heq]
        dsimp only
        rw [if_neg (not_not.mpr rfl)]
        obtain ⟨hmapped, hsub, honly⟩ := ih hrest ht'
        rw [hset] at hsub honly
        refine ⟨hmapped, fun ce hce => hsub (Set.mem_insert_of_mem _ hce), fun ce hce => ?_⟩
        rcases honly ce hce with hin | ⟨item', hmem, he⟩
        · rcases Set.mem_insert_iff.mp hin with rfl | hin
          · exact Or.inr ⟨item, List.mem_cons_self, rfl, hmem⟩
          · exact Or.inl hin
        · exact Or.inr ⟨item', List.mem_cons_of_mem _ hmem, he⟩

/-- Chunks that pass the check and agree are all taken in, where there is memory. A chunk that is
skipped is there already, whole, since any two agree. -/
theorem read_chunks_takes {items : List chunk_item} (hitems : ∀ item ∈ items, item.in_range)
    (hcheck : ∀ item ∈ items,
      btrfs_check_chunk_valid sectorsize item.chunk item.slot item.logical = 0)
    (hmem : ∀ item ∈ items, kmalloc item.logical = true)
    (hagree : ∀ a ∈ items, ∀ b ∈ items, agree (a.extent devices) b) :
    ∀ {map_tree : btrfs_mapping_tree}, mapped map_tree →
      (∀ ce ∈ extents map_tree, ∀ item ∈ items, agree ce item) →
      (read_chunks rb sectorsize devices kmalloc map_tree items).1 = 0 ∧
        ∀ item ∈ items,
          mapped_whole (read_chunks rb sectorsize devices kmalloc map_tree items).2 item := by
  induction items with
  | nil => exact fun _ _ => ⟨rfl, by simp⟩
  | cons item items ih =>
      intro map_tree h hold
      have hrest := fun item' hmem => hitems item' (List.mem_cons_of_mem _ hmem)
      have hself : item ∈ item :: items := List.mem_cons_self
      have hone := hcheck item hself
      have hlen : item.chunk.length ≠ 0 := (check_passed hone devices).1
      have ih := @ih hrest (fun item' hmem => hcheck item' (List.mem_cons_of_mem _ hmem))
        (fun item' hin => hmem item' (List.mem_cons_of_mem _ hin))
        fun a ha b hb => hagree a (List.mem_cons_of_mem _ ha) b (List.mem_cons_of_mem _ hb)
      -- a chunk that covers the address is the same range
      have hsame : ∀ ce ∈ extents map_tree, covers ce item.logical →
          ce.start = item.logical ∧ ce.size = item.chunk.length := by
        intro ce hce hcovers
        refine (hold ce hce item hself).resolve_right fun hnot => hnot ⟨hcovers.2, ?_⟩
        have := hcovers.1
        omega
      rw [read_chunks]
      rcases read_one_chunk_spec rb sectorsize devices kmalloc h (hitems item hself) with
        ⟨-, hbad | ⟨⟨e, he, hmeets⟩, hfree⟩ | hlack⟩ | ⟨heq, ce, hce, hcovers⟩ |
        ⟨t', heq, ht', -, hset⟩
      · exact absurd hone hbad
      · -- it meets one of the same range, which would have been found
        obtain ⟨hstart, hsize⟩ := (hold e he item hself).resolve_right (not_not.mpr hmeets)
        refine absurd ⟨hstart.le, ?_⟩ (hfree e he)
        rw [cache_extent.stop, hstart, hsize]
        omega
      · rw [hmem item hself] at hlack
        cases hlack
      · rw [heq]
        dsimp only
        rw [if_neg (not_not.mpr rfl)]
        obtain ⟨hret, hwhole⟩ := ih h fun ce hce item' hmem =>
          hold ce hce item' (List.mem_cons_of_mem _ hmem)
        refine ⟨hret, fun item' hmem => ?_⟩
        rcases List.mem_cons.mp hmem with rfl | hmem
        · have hsub := (read_chunks_keeps rb sectorsize devices kmalloc hrest h).2.1
          exact ⟨ce, hsub hce, hsame ce hce hcovers⟩
        · exact hwhole item' hmem
      · rw [heq]
        dsimp only
        rw [if_neg (not_not.mpr rfl)]
        obtain ⟨hret, hwhole⟩ := ih ht' (fun ce hce item' hmem => by
          rw [hset] at hce
          rcases Set.mem_insert_iff.mp hce with rfl | hce
          · exact hagree item hself item' (List.mem_cons_of_mem _ hmem)
          · exact hold ce hce item' (List.mem_cons_of_mem _ hmem))
        refine ⟨hret, fun item' hmem => ?_⟩
        rcases List.mem_cons.mp hmem with rfl | hmem
        · have hsub := (read_chunks_keeps rb sectorsize devices kmalloc hrest ht').2.1
          refine ⟨item'.extent devices, hsub ?_, rfl, rfl⟩
          rw [hset]
          exact Set.mem_insert _ _
        · exact hwhole item' hmem

/-- A chunk that does not pass the check ends the reading. -/
theorem read_chunks_checked {items : List chunk_item} :
    ∀ {map_tree : btrfs_mapping_tree},
      (read_chunks rb sectorsize devices kmalloc map_tree items).1 = 0 →
      ∀ item ∈ items, btrfs_check_chunk_valid sectorsize item.chunk item.slot item.logical = 0 := by
  induction items with
  | nil => simp
  | cons item items ih =>
      intro map_tree h
      rw [read_chunks] at h
      by_cases hone : (read_one_chunk rb sectorsize devices kmalloc map_tree item.logical item.chunk
        item.slot).1 = 0
      swap
      · dsimp only at h
        rw [if_pos hone] at h
        exact absurd h hone
      dsimp only at h
      rw [if_neg (not_not.mpr hone)] at h
      intro item' hmem
      rcases List.mem_cons.mp hmem with rfl | hmem
      · by_contra hbad
        rw [read_one_chunk] at hone
        dsimp only at hone
        rw [if_pos hbad] at hone
        exact hbad hone
      · exact ih h item' hmem

theorem mapped_init : mapped cache_tree_init :=
  ⟨⟨by simp [cache_tree_init], .nil⟩, by simp [cache_tree_init, extents]⟩

end Reading

/-- A system chunk on one device. -/
def system_chunk : btrfs_chunk :=
  ⟨4096, 65536, BTRFS_BLOCK_GROUP_SYSTEM, 65536, 65536, 4096, 1, 1, fun _ => ⟨1, 65536, []⟩,
    by decide, by decide⟩

end SysbakAdmin.Volumes

/-
The extents of a btrfs file system in the bitmap: over a file system whose addresses are mapped
by its chunks, whether the bytes of a file land in blocks that are copied.

`check_extent_bitmap` maps the first byte of an extent and marks the whole length from there on
the device. That is where the bytes lie when the chunk is one column.

A copied block is then as good as the bytes in it: the address of a byte and the address of
the extent's first byte lie in one chunk, the mapping takes both to the same column at the
same distance, and the range that is marked covers the distance. With several columns the
distance on the device is another one, so the statement asks for one (`in_a_row`).

Of the parameter `filesystem` of `Btrfs` only the mapping is filled in here (`maps`); what is
read at an address stays open, so the theorem is about every file system whose chunks passed
the check.
-/
import SysbakAdmin.BtrfsMarks
import SysbakAdmin.MapBlock

set_option autoImplicit false

namespace SysbakAdmin.BtrfsExtents

open CInt CMemory Bitmap Share ExtentCache Volumes MapBlock Striping Btrfs

/-- What `check_extent_bitmap` reads off the mapping: the place of stripe 0, and `*length`. -/
def read_place (map_tree : btrfs_mapping_tree) (bytenr : ℕ) : Option (ℕ × ℕ) :=
  match Volumes.btrfs_map_block map_tree bytenr 0 0 with
  | .ok (0, length, some stripe) => some (stripe.physical, length)
  | _ => none

/-- The addresses of a file system are mapped by these chunks. It ties the parameter of `Btrfs` to
the mapping that `Volumes` reads off the device. -/
def maps (d : filesystem) (map_tree : btrfs_mapping_tree) : Prop :=
  ∀ bytenr < 2 ^ 64, d.btrfs_map_block bytenr = read_place map_tree bytenr

/-- The chunk lies on the device byte after byte: `SINGLE`, and the first copy of `DUP`. -/
def in_a_row (map : map_lookup) : Prop :=
  columns map = 1 ∧ (profile_of map = .dup ∨ profile_of map = .plain)

/-- Its bytes follow one another from its first stripe on. -/
theorem in_a_row_place {map_tree : btrfs_mapping_tree} (h : mapped map_tree)
    (hout : laid_out map_tree) {ce : cache_extent map_lookup} (hce : ce ∈ extents map_tree)
    (hrow : in_a_row ce.owner) :
    ∃ s ∈ ce.owner.stripes, ∀ logical, covers ce logical → ∀ length, ∃ n,
      Volumes.btrfs_map_block map_tree logical length 0
        = .ok (0, n, some ⟨s.dev, s.physical + (logical - ce.start)⟩) := by
  have hchecked := h.checked ce hce
  have hzero : ∀ offset, place_index ce.owner offset 0 = 0 := by
    intro offset
    rw [place_index, disk, hrow.1]
    rcases hrow.2 with hprofile | hprofile
    · rw [hprofile]
    · rw [hprofile]
      exact Nat.mod_one _
  have hpos : 0 < ce.owner.stripes.length := by
    have := hchecked.num_stripes
    rw [hchecked.stripes]
    omega
  refine ⟨ce.owner.stripes[0], List.getElem_mem hpos, fun logical hcovers length => ?_⟩
  have hdepth := depth_lt_share h hout hce hcovers
  have hinside := hout.inside ce hce _ (List.getElem_mem hpos)
  refine ⟨bio_length ce (logical - ce.start), ?_⟩
  rw [map_block_eq h hce hcovers length (by decide), if_neg (by rw [hrow.1]; decide),
    dif_pos (by rw [hzero]; exact hpos)]
  simp only [hzero]
  rw [u64_of_lt (by omega), hrow.1, depth_one]

/-- One chunk on one device, at the addresses it has there. -/
def single : cache_extent map_lookup where
  start := 65536
  size := 196608
  owner :=
    { type := BTRFS_BLOCK_GROUP_DATA
      io_align := 65536
      io_width := 65536
      stripe_len := 65536
      sector_size := 4096
      num_stripes := 1
      sub_stripes := 1
      stripes := [⟨⟨1, [], 3⟩, 65536⟩] }

def single_tree : btrfs_mapping_tree := .node .nil single .nil

theorem mem_single_tree {ce : cache_extent map_lookup} : ce ∈ extents single_tree ↔ ce = single :=
  List.mem_singleton

theorem single_mapped : mapped single_tree := by
  refine ⟨⟨fun e he => ?_, List.pairwise_singleton _ _⟩, fun ce hce => ?_⟩
  · rw [mem_single_tree.mp he]
    exact ⟨by decide, by decide⟩
  · rw [mem_single_tree.mp hce]
    exact ⟨rfl, by decide, by decide, by decide, rfl, by decide, by decide, by decide, by decide⟩

theorem single_laid_out : laid_out single_tree where
  columns ce hce := by
    rw [mem_single_tree.mp hce]
    decide
  whole ce hce := by
    rw [mem_single_tree.mp hce]
    exact ⟨3, by decide⟩
  inside ce hce s hs := by
    rw [mem_single_tree.mp hce] at hs ⊢
    rw [List.mem_singleton.mp hs]
    decide
  apart ce hce ce' hce' i s i' s' hs hs' _ := by
    rw [mem_single_tree.mp hce] at hs ⊢
    rw [mem_single_tree.mp hce'] at hs' ⊢
    refine Or.inl ⟨rfl, ?_⟩
    have hi := (List.getElem?_eq_some_iff.mp hs).1
    have hi' := (List.getElem?_eq_some_iff.mp hs').1
    simp only [single, List.length_singleton] at hi hi'
    omega

/-- The item of an extent of one sector. -/
def sector_item : btrfs_item := ⟨⟨155648, BTRFS_EXTENT_ITEM_KEY, 4096⟩, 0, 0, 0, 0⟩

/-- A tree of one leaf with that item; the other blocks are empty leaves. -/
def one_extent : Reader := fun bytenr _ =>
  some (.leaf bytenr (if bytenr = 131072 then [sector_item] else []))

theorem one_extent_below {bytenr : ℕ} {items : List btrfs_item} {eb : extent_buffer}
    (h : below one_extent (.leaf bytenr items) eb) : eb = .leaf bytenr items := by
  cases h
  rfl

/-- Its tree of roots holds no root item. -/
theorem one_extent_root_items (root : extent_buffer) (hroot : one_extent 131072 7 = some root)
    (_ : all_read one_extent root) (item : btrfs_item)
    (htype : item.key.type = BTRFS_ROOT_ITEM_KEY) :
    item ∈ ([] : List btrfs_item) ↔ has_item one_extent root item := by
  refine iff_of_false List.not_mem_nil fun hitem => ?_
  cases hroot
  have hsame : item = sector_item := List.mem_singleton.mp (has_item_leaf.mp hitem)
  rw [hsame] at htype
  exact absurd htype (by decide)

def extent_filesystem : filesystem where
  sectorsize := 4096
  nodesize := 4096
  total_bytes := 262144
  bytes_used := 28672
  openable := true
  chunk_root := ⟨135168, 7⟩
  tree_root := ⟨131072, 7⟩
  dev_root := ⟨139264, 7⟩
  extent_root_bytenr := 143360
  csum_root_bytenr := 147456
  fs_root_bytenr := 151552
  read_tree_block := one_extent
  btrfs_map_block := read_place single_tree
  found_items := []
  sectorsize_ge := leaf_filesystem.sectorsize_ge
  nodesize_ge := leaf_filesystem.nodesize_ge
  found_root_items := one_extent_root_items

end SysbakAdmin.BtrfsExtents

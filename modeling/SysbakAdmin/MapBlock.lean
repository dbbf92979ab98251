/-
What `btrfs_map_block` and `btrfs_rmap_block` of `src/btrfs/volumes.c` do over the chunks of a
mapping tree: where the mapping stops, what lies at the places it names, and the way back.

A profile deals the stripes of a chunk out to columns, a row after the other; a column lies on
one device, or on several that hold the same. So the places of a chunk are those of a striped
range.

`stripe_place_eq` brings the chain of profiles to the three numbers of `Lib/Striping`, for
each profile by its own arithmetic: the column of the stripe, the copy that is asked for,
and the rotation of RAID5 and RAID6. Everything after that is about places: two addresses
in one place are one (`map_block_apart`), and a place leads back to the stripe of its address
(`rmap_map_block`).

What the check of a chunk leaves open stands in the statements. RAID10 with fewer stripes
than copies passes it and has no column, and two profiles in one chunk pass it as well;
where a theorem needs the chunk to be of one profile, or its length to be whole stripes, it
says so.
-/
import SysbakAdmin.Volumes
import Mathlib.Data.Nat.ModEq

set_option autoImplicit false

namespace SysbakAdmin.MapBlock

open CInt CMemory ExtentCache Volumes Striping

/-! ## Profiles -/

/-- The branches of `__btrfs_map_block`. -/
inductive profile where
  | raid1
  | raid10
  | dup
  | parity
  | plain
deriving DecidableEq

/-- The branch that is taken. -/
def profile_of (map : map_lookup) : profile :=
  if map.type &&& BTRFS_BLOCK_GROUP_RAID1 ≠ 0 then .raid1
  else if map.type &&& BTRFS_BLOCK_GROUP_RAID10 ≠ 0 then .raid10
  else if map.type &&& BTRFS_BLOCK_GROUP_DUP ≠ 0 then .dup
  else if map.type &&& (BTRFS_BLOCK_GROUP_RAID5 ||| BTRFS_BLOCK_GROUP_RAID6) ≠ 0 then .parity
  else .plain

/-- The columns the stripes of a chunk are dealt out to. -/
def columns (map : map_lookup) : ℕ :=
  match profile_of map with
  | .raid1 => 1
  | .dup => 1
  | .raid10 => map.num_stripes / map.sub_stripes
  | .parity => nr_data_stripes map
  | .plain => map.num_stripes

/-- The entry of `stripes` that a copy of a stripe lies on, from its row and its column. -/
def disk (map : map_lookup) (row column mirror_num : ℕ) : ℕ :=
  match profile_of map with
  | .raid1 => if mirror_num ≠ 0 then mirror_num - 1 else row % map.num_stripes
  | .raid10 => column * map.sub_stripes + (mirror_num - 1)
  | .dup => mirror_num - 1
  | .parity => (row + if mirror_num > 1 then nr_data_stripes map + mirror_num - 2 else column)
      % map.num_stripes
  | .plain => column

theorem and_or_ne_zero (x a b : ℕ) : x &&& (a ||| b) ≠ 0 ↔ x &&& a ≠ 0 ∨ x &&& b ≠ 0 := by
  rw [Nat.and_or_distrib_left, Ne, Nat.or_eq_zero_iff]
  tauto

variable {map : map_lookup}

/-- A checked map has data stripes beside the parity. -/
theorem nr_data_stripes_pos (h : map.checked) : 0 < nr_data_stripes map := by
  have h1 := h.num_stripes
  unfold nr_data_stripes nr_parity_stripes
  split_ifs with h5 h6
  · have := h.raid5 h5
    omega
  · have := h.raid6 h6
    omega
  · omega

theorem nr_data_stripes_le (map : map_lookup) : nr_data_stripes map ≤ map.num_stripes := by
  unfold nr_data_stripes
  omega

/-- A checked map has a column, unless it is a RAID10 with fewer stripes than copies. There the
number of columns is a quotient that comes to 0. -/
theorem columns_eq_zero (h : map.checked) :
    columns map = 0 ↔ profile_of map = .raid10 ∧ map.num_stripes < map.sub_stripes := by
  have h1 := h.num_stripes
  have h2 := nr_data_stripes_pos h
  unfold columns
  rcases hprofile : profile_of map
  · simp
  · dsimp only
    rw [Nat.div_eq_zero_iff]
    have hsub : map.sub_stripes ≠ 0 := by
      refine h.raid10 ?_
      unfold profile_of at hprofile
      split_ifs at hprofile
      assumption
    simp [hsub]
  · simp
  · dsimp only
    constructor
    · intro h0
      omega
    · rintro ⟨h0, -⟩
      cases h0
  · dsimp only
    constructor
    · intro h0
      omega
    · rintro ⟨h0, -⟩
      cases h0

/-- **The chain of profiles** gives the stripe that lies in the column and the row of the address,
or stops at a division by no column. In each branch of the source the quotient and the remainder
by the number of columns are taken, and column and copy then make the number of a stripe; `disk`
is that number for all of them. -/
theorem stripe_place_eq (h : map.checked) {stripe_nr : ℕ} (hnr : stripe_nr < 2 ^ 63)
    {mirror_num : ℕ} (hmirror : mirror_num < 2 ^ 32) :
    stripe_place map stripe_nr mirror_num =
      if columns map = 0 then .error .divideByZero
      else .ok (disk map (stripe_nr / columns map) (stripe_nr % columns map) mirror_num,
        stripe_nr / columns map) := by
  have h1 := h.num_stripes
  have hlt := h.num_stripes_lt
  have h2 := nr_data_stripes_pos h
  have hle := nr_data_stripes_le map
  unfold stripe_place disk columns profile_of umod udiv
  by_cases hr1 : map.type &&& BTRFS_BLOCK_GROUP_RAID1 ≠ 0
  · simp only [if_pos hr1]
    rw [if_neg (by omega : ¬ map.num_stripes = 0)]
    by_cases hm : mirror_num ≠ 0
    · simp [hm]
    · simp [hm]
  simp only [if_neg hr1]
  by_cases hr10 : map.type &&& BTRFS_BLOCK_GROUP_RAID10 ≠ 0
  · have hsub := h.raid10 hr10
    simp only [if_pos hr10, if_neg hsub, ok_bind]
    by_cases hzero : map.num_stripes / map.sub_stripes = 0
    · simp [hzero]
    · by_cases hm : mirror_num = 0
      · simp [hzero, hm]
      · simp [hzero, hm]
  simp only [if_neg hr10]
  by_cases hdup : map.type &&& BTRFS_BLOCK_GROUP_DUP ≠ 0
  · simp only [if_pos hdup]
    by_cases hm : mirror_num = 0
    · simp [hm]
    · simp [hm]
  simp only [if_neg hdup]
  by_cases hpar : map.type &&& (BTRFS_BLOCK_GROUP_RAID5 ||| BTRFS_BLOCK_GROUP_RAID6) ≠ 0
  · simp only [if_pos hpar, if_neg h2.ne', if_neg (by omega : ¬ map.num_stripes = 0), ok_bind]
    have hdiv : stripe_nr / nr_data_stripes map ≤ stripe_nr := Nat.div_le_self _ _
    have hmod : stripe_nr % nr_data_stripes map < nr_data_stripes map := Nat.mod_lt _ h2
    have hu : u64 (stripe_nr / nr_data_stripes map +
        if mirror_num > 1 then nr_data_stripes map + mirror_num - 2
        else stripe_nr % nr_data_stripes map) =
        stripe_nr / nr_data_stripes map +
        if mirror_num > 1 then nr_data_stripes map + mirror_num - 2
        else stripe_nr % nr_data_stripes map := by
      refine u64_of_lt ?_
      split <;> omega
    rw [hu]
  · simp only [if_neg hpar, if_neg (by omega : ¬ map.num_stripes = 0), ok_bind]

/-- The copies there are of a stripe. -/
def copies (map : map_lookup) : ℕ :=
  match profile_of map with
  | .raid1 => map.num_stripes
  | .raid10 => map.sub_stripes
  | .dup => map.num_stripes
  | .parity => if map.type &&& BTRFS_BLOCK_GROUP_RAID5 ≠ 0 then 2 else 3
  | .plain => 1

/-- Every copy lies on a stripe there is. So the array of stripes is not read beyond its end. -/
theorem disk_lt (h : map.checked) (hcol : columns map ≠ 0) (row : ℕ) {column mirror_num : ℕ}
    (hcolumn : column < columns map) (hmirror : mirror_num ≤ copies map) :
    disk map row column mirror_num < map.num_stripes := by
  have h1 := h.num_stripes
  unfold disk
  unfold columns at hcolumn hcol
  unfold copies at hmirror
  rcases hprofile : profile_of map <;> simp only [hprofile] at hmirror hcolumn hcol ⊢
  · split
    · omega
    · exact Nat.mod_lt _ (by omega)
  · have hsub : 0 < map.sub_stripes := by
      rcases Nat.eq_zero_or_pos map.sub_stripes with h0 | h0
      · rw [h0, Nat.div_zero] at hcol
        exact absurd rfl hcol
      · exact h0
    calc column * map.sub_stripes + (mirror_num - 1)
        < column * map.sub_stripes + map.sub_stripes := by omega
      _ = (column + 1) * map.sub_stripes := by ring
      _ ≤ map.num_stripes / map.sub_stripes * map.sub_stripes := Nat.mul_le_mul_right _ hcolumn
      _ ≤ map.num_stripes := Nat.div_mul_le_self _ _
  · omega
  · exact Nat.mod_lt _ (by omega)
  · exact hcolumn

/-! ## What lies at a place

Here the mapping is an equation (`map_block_eq`), and everything that is said of it afterwards,
that it stops, refuses or follows on, is read off that. -/

/-- The bytes of `*length`: what is left of the chunk, or of the stripe. -/
def bio_length (ce : cache_extent map_lookup) (offset : ℕ) : ℕ :=
  if ce.owner.type &&& BTRFS_BLOCK_GROUP_PROFILE_MASK ≠ 0 then
    min (ce.size - offset) (ce.owner.stripe_len - offset % ce.owner.stripe_len)
  else ce.size - offset

/-- The entry of `stripes` an offset of a chunk is read from. -/
def place_index (map : map_lookup) (offset mirror_num : ℕ) : ℕ :=
  disk map (row map.stripe_len (columns map) offset) (column map.stripe_len (columns map) offset)
    mirror_num

/-- The mapping of an address that a chunk covers. All that comes after, about places and lengths,
starts from this equation. -/
theorem map_block_eq {map_tree : Volumes.btrfs_mapping_tree} (h : mapped map_tree)
    {ce : cache_extent map_lookup} (hce : ce ∈ extents map_tree) {logical : ℕ}
    (hcovers : covers ce logical) (length : ℕ) {mirror_num : ℕ} (hmirror : mirror_num < 2 ^ 32) :
    btrfs_map_block map_tree logical length mirror_num =
      if columns ce.owner = 0 then .error .divideByZero
      else if h : place_index ce.owner (logical - ce.start) mirror_num < ce.owner.stripes.length then
        .ok (0, bio_length ce (logical - ce.start),
          some ⟨ce.owner.stripes[place_index ce.owner (logical - ce.start) mirror_num].dev,
            u64 (ce.owner.stripes[place_index ce.owner (logical - ce.start) mirror_num].physical
              + depth ce.owner.stripe_len (columns ce.owner) (logical - ce.start))⟩)
      else .ok (-1, bio_length ce (logical - ce.start), none) := by
  have hchecked := h.checked ce hce
  have hlen : ce.owner.stripe_len = 65536 := hchecked.stripe_len
  have hlt : logical < 2 ^ 64 := lt_trans hcovers.2 (h.tidy.fits ce hce).2
  have hnr : (logical - ce.start) / 65536 < 2 ^ 63 := by omega
  have hoff : ∀ x : ℕ, x - x / 65536 * 65536 = x % 65536 := by omega
  unfold btrfs_map_block
  rw [search_covers h hce hcovers]
  dsimp only
  rw [if_neg (not_lt.mpr hcovers.1), udiv, if_neg (by omega), ok_bind,
    if_neg (not_lt.mpr (Nat.div_mul_le_self _ _)), hlen, stripe_place_eq hchecked hnr hmirror]
  by_cases hcol : columns ce.owner = 0
  · rw [if_pos hcol, if_pos hcol]
    rfl
  · rw [if_neg hcol, if_neg hcol, ok_bind]
    have hindex : disk ce.owner ((logical - ce.start) / 65536 / columns ce.owner)
        ((logical - ce.start) / 65536 % columns ce.owner) mirror_num
          = place_index ce.owner (logical - ce.start) mirror_num := by
      rw [place_index, hlen]
      rfl
    have hbio : (if ce.owner.type &&& (BTRFS_BLOCK_GROUP_RAID0 ||| BTRFS_BLOCK_GROUP_RAID1 |||
          BTRFS_BLOCK_GROUP_RAID5 ||| BTRFS_BLOCK_GROUP_RAID6 ||| BTRFS_BLOCK_GROUP_RAID10 |||
          BTRFS_BLOCK_GROUP_DUP) ≠ 0 then
        min (ce.size - (logical - ce.start))
          (65536 - (logical - ce.start - (logical - ce.start) / 65536 * 65536))
      else ce.size - (logical - ce.start)) = bio_length ce (logical - ce.start) := by
      rw [hoff, bio_length, hlen]
      rfl
    have hdepth : ∀ physical : ℕ,
        physical + (logical - ce.start - (logical - ce.start) / 65536 * 65536)
          + (logical - ce.start) / 65536 / columns ce.owner * 65536
        = physical + depth 65536 (columns ce.owner) (logical - ce.start) := by
      intro physical
      rw [hoff, Nat.add_assoc, Nat.add_comm ((logical - ce.start) % 65536)]
      rfl
    dsimp only
    rw [hbio, hindex, ← hchecked.stripes]
    split_ifs with h1 h2 h2
    · omega
    · rfl
    · rw [List.getElem?_eq_getElem h2]
      dsimp only
      rw [hdepth]
    · omega

/-- A profile is one of the bits of the mask. -/
theorem profile_mask (type : ℕ) : type &&& BTRFS_BLOCK_GROUP_PROFILE_MASK ≠ 0 ↔
    type &&& BTRFS_BLOCK_GROUP_RAID0 ≠ 0 ∨ type &&& BTRFS_BLOCK_GROUP_RAID1 ≠ 0 ∨
      type &&& (BTRFS_BLOCK_GROUP_RAID5 ||| BTRFS_BLOCK_GROUP_RAID6) ≠ 0 ∨
      type &&& BTRFS_BLOCK_GROUP_DUP ≠ 0 ∨ type &&& BTRFS_BLOCK_GROUP_RAID10 ≠ 0 := by
  unfold BTRFS_BLOCK_GROUP_PROFILE_MASK
  simp only [and_or_ne_zero]
  tauto

/-- Without one, a chunk is one stripe in one column. -/
theorem columns_single (h : map.checked) (hsingle : map.type &&& BTRFS_BLOCK_GROUP_PROFILE_MASK = 0) :
    profile_of map = .plain ∧ columns map = 1 := by
  have hnot := (not_congr (profile_mask map.type)).mp (not_not.mpr hsingle)
  push Not at hnot
  obtain ⟨-, h1, hpar, hdup, h10⟩ := hnot
  have hplain : profile_of map = .plain := by
    unfold profile_of
    rw [if_neg (not_not.mpr h1), if_neg (not_not.mpr h10), if_neg (not_not.mpr hdup),
      if_neg (not_not.mpr hpar)]
  exact ⟨hplain, by rw [columns, hplain]; exact h.single hsingle⟩

/-- Inside `*length`, places follow one another. -/
theorem place_add {ce : cache_extent map_lookup} (h : ce.owner.checked) {offset d : ℕ}
    (hd : d < bio_length ce offset) (mirror_num : ℕ) :
    place_index ce.owner (offset + d) mirror_num = place_index ce.owner offset mirror_num ∧
      depth ce.owner.stripe_len (columns ce.owner) (offset + d)
        = depth ce.owner.stripe_len (columns ce.owner) offset + d ∧
      bio_length ce (offset + d) = bio_length ce offset - d := by
  have hlen : ce.owner.stripe_len = 65536 := h.stripe_len
  by_cases hprofile : ce.owner.type &&& BTRFS_BLOCK_GROUP_PROFILE_MASK ≠ 0
  · -- the length ends at the end of the stripe
    rw [bio_length, if_pos hprofile] at hd
    have hpiece : offset % ce.owner.stripe_len + d < ce.owner.stripe_len := by
      have := Nat.mod_lt offset (by omega : 0 < ce.owner.stripe_len)
      omega
    obtain ⟨hdiv, hmod⟩ := add_same_piece hpiece
    refine ⟨?_, (depth_add hpiece).2, ?_⟩
    · rw [place_index, place_index, row, row, column, column, hdiv]
    · rw [bio_length, if_pos hprofile, bio_length, if_pos hprofile, hmod]
      omega
  · obtain ⟨hplain, hone⟩ := columns_single h (not_not.mp hprofile)
    refine ⟨?_, ?_, ?_⟩
    · rw [place_index, place_index, disk, disk, hplain, hone]
      dsimp only
      rw [column, column, Nat.mod_one, Nat.mod_one]
    · rw [hone, depth_one, depth_one]
    · rw [bio_length, if_neg hprofile, bio_length, if_neg hprofile]
      omega

/-- The length is not zero and stays in the chunk. -/
theorem bio_length_pos {ce : cache_extent map_lookup} (h : ce.owner.checked) {offset : ℕ}
    (hoffset : offset < ce.size) :
    0 < bio_length ce offset ∧ offset + bio_length ce offset ≤ ce.size := by
  have hlen : ce.owner.stripe_len = 65536 := h.stripe_len
  have hmod := Nat.mod_lt offset (by omega : 0 < ce.owner.stripe_len)
  unfold bio_length
  split <;> omega

/-- An address in no chunk is refused. -/
theorem map_block_free {map_tree : btrfs_mapping_tree} (h : mapped map_tree) {logical : ℕ}
    (hlogical : logical < 2 ^ 64) (length mirror_num : ℕ)
    (hfree : ∀ ce ∈ extents map_tree, ¬ covers ce logical) :
    ∃ left, btrfs_map_block map_tree logical length mirror_num = .ok (-ENOENT, left, none) := by
  unfold btrfs_map_block
  rcases hsearch : search_cache_extent map_tree logical with - | ce
  · exact ⟨_, rfl⟩
  · dsimp only
    by_cases hle : ce.start ≤ logical
    · obtain ⟨hce, hcovers⟩ := covers_of_search h hlogical hsearch hle
      exact absurd hcovers (hfree ce hce)
    · exact ⟨_, by rw [if_pos (not_le.mp hle)]⟩

/-- What a mapping that returns 0 has found. -/
theorem map_block_ok {map_tree : btrfs_mapping_tree} (h : mapped map_tree) {logical : ℕ}
    (hlogical : logical < 2 ^ 64) {length mirror_num n : ℕ} {place : btrfs_bio_stripe}
    (hmirror : mirror_num < 2 ^ 32)
    (hmap : btrfs_map_block map_tree logical length mirror_num = .ok (0, n, some place)) :
    ∃ ce ∈ extents map_tree, covers ce logical ∧ ∃ s,
      ce.owner.stripes[place_index ce.owner (logical - ce.start) mirror_num]? = some s ∧
      place = ⟨s.dev, u64 (s.physical
        + depth ce.owner.stripe_len (columns ce.owner) (logical - ce.start))⟩ := by
  by_cases hfree : ∀ ce ∈ extents map_tree, ¬ covers ce logical
  · obtain ⟨left, heq⟩ := map_block_free h hlogical length mirror_num hfree
    rw [heq] at hmap
    cases hmap
  push Not at hfree
  obtain ⟨ce, hce, hcovers⟩ := hfree
  refine ⟨ce, hce, hcovers, ?_⟩
  rw [map_block_eq h hce hcovers length hmirror] at hmap
  split_ifs at hmap with hcol hindex
  · obtain ⟨-, hmap⟩ := Prod.mk.inj (Except.ok.inj hmap)
    obtain ⟨-, hmap⟩ := Prod.mk.inj hmap
    exact ⟨_, List.getElem?_eq_getElem hindex, (Option.some.inj hmap).symm⟩
  · have := (Prod.mk.inj (Except.ok.inj hmap)).1
    omega

/-- Along the length that comes with a place, the places follow one another. -/
theorem map_block_run {map_tree : btrfs_mapping_tree} (h : mapped map_tree) {logical : ℕ}
    (hlogical : logical < 2 ^ 64) {length mirror_num n : ℕ} {place : btrfs_bio_stripe}
    (hmirror : mirror_num < 2 ^ 32)
    (hmap : btrfs_map_block map_tree logical length mirror_num = .ok (0, n, some place)) :
    0 < n ∧ place.physical < 2 ^ 64 ∧ ∀ d < n, ∀ length',
      btrfs_map_block map_tree (logical + d) length' mirror_num
        = .ok (0, n - d, some ⟨place.dev, u64 (place.physical + d)⟩) := by
  obtain ⟨ce, hce, hcovers, s, hs, rfl⟩ := map_block_ok h hlogical hmirror hmap
  have hchecked := h.checked ce hce
  have hle := hcovers.1
  have hlt : logical < ce.start + ce.size := hcovers.2
  obtain ⟨hindex, rfl⟩ := List.getElem?_eq_some_iff.mp hs
  have hcol : columns ce.owner ≠ 0 := by
    intro h0
    rw [map_block_eq h hce hcovers length hmirror, if_pos h0] at hmap
    cases hmap
  obtain rfl : bio_length ce (logical - ce.start) = n := by
    rw [map_block_eq h hce hcovers length hmirror, if_neg hcol, dif_pos hindex] at hmap
    exact (Prod.mk.inj (Prod.mk.inj (Except.ok.inj hmap)).2).1
  obtain ⟨hpos, hinside⟩ := bio_length_pos hchecked (show logical - ce.start < ce.size by omega)
  refine ⟨hpos, u64_lt _, fun d hd length' => ?_⟩
  obtain ⟨hsame, hdepth, hleft⟩ := place_add hchecked hd mirror_num
  have hcovers' : covers ce (logical + d) := by
    refine ⟨by omega, ?_⟩
    unfold cache_extent.stop
    omega
  rw [map_block_eq h hce hcovers' length' hmirror, if_neg hcol,
    show logical + d - ce.start = logical - ce.start + d by omega]
  simp only [hsame, hdepth, hleft]
  rw [dif_pos hindex]
  simp only [u64, Nat.mod_add_mod, Nat.add_assoc]

/-- A RAID10 that has fewer stripes than it keeps copies of each: the check asks for one stripe
only. -/
def short (map : map_lookup) : Prop :=
  profile_of map = .raid10 ∧ map.num_stripes < map.sub_stripes

/-- A chunk that is striped over two devices. -/
def striped : cache_extent map_lookup where
  start := 65536
  size := 262144
  owner :=
    { type := BTRFS_BLOCK_GROUP_DATA ||| BTRFS_BLOCK_GROUP_RAID0
      io_align := 65536
      io_width := 65536
      stripe_len := 65536
      sector_size := 4096
      num_stripes := 2
      sub_stripes := 1
      stripes := [⟨⟨1, [], 3⟩, 1048576⟩, ⟨⟨2, [], 4⟩, 2097152⟩] }

def striped_tree : btrfs_mapping_tree := .node .nil striped .nil

theorem mem_striped_tree {ce : cache_extent map_lookup} : ce ∈ extents striped_tree ↔ ce = striped :=
  List.mem_singleton

theorem striped_mapped : mapped striped_tree := by
  refine ⟨⟨fun e he => ?_, List.pairwise_singleton _ _⟩, fun ce hce => ?_⟩
  · rw [mem_striped_tree.mp he]
    exact ⟨by decide, by decide⟩
  · rw [mem_striped_tree.mp hce]
    exact ⟨rfl, by decide, by decide, by decide, rfl, by decide, by decide, by decide, by decide⟩

/-- **What a read is told**: the mapping stops, at a division by zero, exactly for an address in
a chunk of RAID10 with fewer stripes than copies. An address in no chunk is refused. Any other,
for every copy there is, is given a place and a length that stays in its chunk, and along that
length the places follow one another. -/
theorem map_block_reads {map_tree : btrfs_mapping_tree} (h : mapped map_tree) {logical : ℕ}
    (hlogical : logical < 2 ^ 64) (length : ℕ) {mirror_num : ℕ} (hmirror : mirror_num < 2 ^ 32) :
    ((∃ stop, btrfs_map_block map_tree logical length mirror_num = .error stop) ↔
      ∃ ce ∈ extents map_tree, covers ce logical ∧ short ce.owner) ∧
    ((∀ ce ∈ extents map_tree, ¬ covers ce logical) →
      ∃ left, btrfs_map_block map_tree logical length mirror_num = .ok (-ENOENT, left, none)) ∧
    ∀ ce ∈ extents map_tree, covers ce logical → ¬ short ce.owner → mirror_num ≤ copies ce.owner →
      ∃ n dev physical, 0 < n ∧ logical + n ≤ ce.stop ∧
        ∀ d < n, ∀ length', btrfs_map_block map_tree (logical + d) length' mirror_num
          = .ok (0, n - d, some ⟨dev, u64 (physical + d)⟩) := by
  refine ⟨⟨?_, ?_⟩, map_block_free h hlogical length mirror_num, ?_⟩
  · rintro ⟨stop, hstop⟩
    by_contra hno
    push Not at hno
    by_cases hfree : ∀ ce ∈ extents map_tree, ¬ covers ce logical
    · obtain ⟨left, heq⟩ := map_block_free h hlogical length mirror_num hfree
      rw [heq] at hstop
      cases hstop
    · push Not at hfree
      obtain ⟨ce, hce, hcovers⟩ := hfree
      have hcol : columns ce.owner ≠ 0 :=
        fun h0 => hno ce hce hcovers ((columns_eq_zero (h.checked ce hce)).mp h0)
      rw [map_block_eq h hce hcovers length hmirror, if_neg hcol] at hstop
      split at hstop <;> cases hstop
  · rintro ⟨ce, hce, hcovers, hshort⟩
    have hcol := (columns_eq_zero (h.checked ce hce)).mpr hshort
    exact ⟨_, by rw [map_block_eq h hce hcovers length hmirror, if_pos hcol]⟩
  · intro ce hce hcovers hshort hcopies
    have hchecked := h.checked ce hce
    have hcol : columns ce.owner ≠ 0 := fun h0 => hshort ((columns_eq_zero hchecked).mp h0)
    have hindex : place_index ce.owner (logical - ce.start) mirror_num < ce.owner.stripes.length := by
      rw [hchecked.stripes]
      exact disk_lt hchecked hcol _ (column_lt (Nat.pos_of_ne_zero hcol) _) hcopies
    have hmap := map_block_eq h hce hcovers length hmirror
    rw [if_neg hcol, dif_pos hindex] at hmap
    obtain ⟨hpos, -, hrun⟩ := map_block_run h hlogical hmirror hmap
    refine ⟨_, _, _, hpos, ?_, hrun⟩
    have h1 := hcovers.1
    have h2 : logical < ce.start + ce.size := hcovers.2
    have := (bio_length_pos hchecked (show logical - ce.start < ce.size by omega)).2
    unfold cache_extent.stop
    omega

/-- The first byte of the second stripe, and the bytes behind it. -/
theorem striped_reads :
    ∃ n dev physical, 0 < n ∧ 131072 + n ≤ striped.stop ∧
      ∀ d < n, ∀ length, btrfs_map_block striped_tree (131072 + d) length 0
        = .ok (0, n - d, some ⟨dev, u64 (physical + d)⟩) :=
  (map_block_reads striped_mapped (by decide : 131072 < 2 ^ 64) 0 (by decide : 0 < 2 ^ 32)).2.2
    striped (mem_striped_tree.mpr rfl) ⟨by decide, by decide⟩ (fun h => absurd h.1 (by decide))
    (by decide)

/-! ## No place twice

Inside a chunk it is a property of striping and of the rotation; between chunks it is asked of
the file system, whose chunks lie apart on their devices. -/

/-- The bytes of a chunk on each of its stripes. -/
def share (ce : cache_extent map_lookup) : ℕ := ce.size / columns ce.owner

/-- What the device extents of a file system promise: a chunk is whole rows of stripes, its
stripes lie inside the addresses of a device, and no two of the tree share a byte of one. -/
structure laid_out (map_tree : btrfs_mapping_tree) : Prop where
  columns : ∀ ce ∈ extents map_tree, columns ce.owner ≠ 0
  whole : ∀ ce ∈ extents map_tree,
    ∃ rows, ce.size = rows * (MapBlock.columns ce.owner * ce.owner.stripe_len)
  inside : ∀ ce ∈ extents map_tree, ∀ s ∈ ce.owner.stripes, s.physical + share ce < 2 ^ 64
  apart : ∀ ce ∈ extents map_tree, ∀ ce' ∈ extents map_tree,
    ∀ (i : ℕ) (s : btrfs_bio_stripe) (i' : ℕ) (s' : btrfs_bio_stripe),
    ce.owner.stripes[i]? = some s → ce'.owner.stripes[i']? = some s' → s.dev = s'.dev →
      (ce = ce' ∧ i = i') ∨ s.physical + share ce ≤ s'.physical ∨
        s'.physical + share ce' ≤ s.physical

theorem striped_laid_out : laid_out striped_tree where
  columns ce hce := by
    rw [mem_striped_tree.mp hce]
    decide
  whole ce hce := by
    rw [mem_striped_tree.mp hce]
    exact ⟨2, by decide⟩
  inside ce hce s hs := by
    rw [mem_striped_tree.mp hce] at hs ⊢
    rcases List.mem_pair.mp hs with rfl | rfl <;> decide
  apart ce hce ce' hce' i s i' s' hs hs' hdev := by
    rw [mem_striped_tree.mp hce] at hs ⊢
    rw [mem_striped_tree.mp hce'] at hs' ⊢
    refine Or.inl ⟨rfl, ?_⟩
    rcases i with - | - | i <;> rcases i' with - | - | i' <;> cases hs <;> cases hs' <;>
      first | rfl | cases hdev

/-- A copy that holds the bytes of the address: any but the parity. A parity stripe can be asked
for by a number as well, and is read from a place that it shares with no address. -/
def data_copy (map : map_lookup) (mirror_num : ℕ) : Prop :=
  mirror_num ≤ copies map ∧ (profile_of map = .parity → mirror_num ≤ 1)

/-- In a row, no two columns have a copy on one stripe. The rotation of RAID5 and RAID6 permutes
the stripes of a row. -/
theorem disk_inj {row column column' mirror mirror' : ℕ}
    (hcolumn : column < columns map) (hcolumn' : column' < columns map)
    (hm : data_copy map mirror) (hm' : data_copy map mirror')
    (heq : disk map row column mirror = disk map row column' mirror') : column = column' := by
  obtain ⟨hcopies, hparity⟩ := hm
  obtain ⟨hcopies', hparity'⟩ := hm'
  unfold disk at heq
  unfold columns at hcolumn hcolumn'
  unfold copies at hcopies hcopies'
  rcases hprofile : profile_of map <;>
    simp only [hprofile] at heq hcolumn hcolumn' hcopies hcopies' hparity hparity'
  · omega
  · -- the copies of a column stand side by side
    have hsub : 0 < map.sub_stripes := by
      rcases Nat.eq_zero_or_pos map.sub_stripes with h0 | h0
      · rw [h0, Nat.div_zero] at hcolumn
        omega
      · exact h0
    have hcol : ∀ c m, m ≤ map.sub_stripes → (c * map.sub_stripes + (m - 1)) / map.sub_stripes = c := by
      intro c m hm
      rw [Nat.add_comm, Nat.add_mul_div_right _ _ hsub, Nat.div_eq_of_lt (by omega), Nat.zero_add]
    rw [← hcol column mirror hcopies, ← hcol column' mirror' hcopies', heq]
  · omega
  · rw [if_neg (by have := hparity trivial; omega), if_neg (by have := hparity' trivial; omega)] at heq
    have hle := nr_data_stripes_le map
    have hmod : column ≡ column' [MOD map.num_stripes] := Nat.ModEq.add_left_cancel' row heq
    exact Nat.ModEq.eq_of_lt_of_lt hmod (by omega) (by omega)
  · exact heq

/-- The places of a chunk lie in the share of their stripe. -/
theorem depth_lt_share {map_tree : btrfs_mapping_tree} (h : mapped map_tree)
    (hout : laid_out map_tree) {ce : cache_extent map_lookup} (hce : ce ∈ extents map_tree)
    {logical : ℕ} (hcovers : covers ce logical) :
    depth ce.owner.stripe_len (columns ce.owner) (logical - ce.start) < share ce := by
  have hpos : 0 < ce.owner.stripe_len := by
    have : ce.owner.stripe_len = 65536 := (h.checked ce hce).stripe_len
    omega
  obtain ⟨rows, hrows⟩ := hout.whole ce hce
  have hsize : logical - ce.start < ce.size := by
    have h1 := hcovers.1
    have h2 : logical < ce.start + ce.size := hcovers.2
    omega
  have hshare : share ce = rows * ce.owner.stripe_len := by
    rw [share, hrows, show rows * (columns ce.owner * ce.owner.stripe_len)
      = rows * ce.owner.stripe_len * columns ce.owner by ring]
    exact Nat.mul_div_cancel _ (Nat.pos_of_ne_zero (hout.columns ce hce))
  rw [hshare]
  exact depth_lt hpos (hrows ▸ hsize)

/-- **No two addresses are read from one place**: over all chunks of a file system, whichever
copies are asked for, parity aside, one place on a device belongs to one address. Two addresses of
one chunk are one if their columns and their places in the column are (`Lib/Striping`), and the
places of two chunks are kept apart by `laid_out`. -/
theorem map_block_apart {map_tree : btrfs_mapping_tree} (h : mapped map_tree)
    (hout : laid_out map_tree) {logical logical' length length' mirror mirror' n n' : ℕ}
    {place : btrfs_bio_stripe} (hlogical : logical < 2 ^ 64) (hlogical' : logical' < 2 ^ 64)
    (hmirror : mirror < 2 ^ 32) (hmirror' : mirror' < 2 ^ 32)
    (hdata : ∀ ce ∈ extents map_tree, covers ce logical → data_copy ce.owner mirror)
    (hdata' : ∀ ce ∈ extents map_tree, covers ce logical' → data_copy ce.owner mirror')
    (hmap : btrfs_map_block map_tree logical length mirror = .ok (0, n, some place))
    (hmap' : btrfs_map_block map_tree logical' length' mirror' = .ok (0, n', some place)) :
    logical = logical' := by
  obtain ⟨ce, hce, hcovers, s, hs, hplace⟩ := map_block_ok h hlogical hmirror hmap
  obtain ⟨ce', hce', hcovers', s', hs', hplace'⟩ := map_block_ok h hlogical' hmirror' hmap'
  have hdepth := depth_lt_share h hout hce hcovers
  have hdepth' := depth_lt_share h hout hce' hcovers'
  have hinside := hout.inside ce hce s (List.mem_of_getElem? hs)
  have hinside' := hout.inside ce' hce' s' (List.mem_of_getElem? hs')
  rw [u64_of_lt (by omega)] at hplace hplace'
  obtain ⟨hdev, hphysical⟩ := btrfs_bio_stripe.mk.inj (hplace.symm.trans hplace')
  -- two stripes that share a byte are one
  rcases hout.apart ce hce ce' hce' _ s _ s' hs hs' hdev with ⟨rfl, hindex⟩ | hbefore | hbehind
  · rw [← hindex, hs] at hs'
    obtain rfl := Option.some.inj hs'
    have hchecked := h.checked ce hce
    have hpos : 0 < ce.owner.stripe_len := by
      have : ce.owner.stripe_len = 65536 := hchecked.stripe_len
      omega
    have hcol := Nat.pos_of_ne_zero (hout.columns ce hce)
    have hsame : depth ce.owner.stripe_len (columns ce.owner) (logical - ce.start)
        = depth ce.owner.stripe_len (columns ce.owner) (logical' - ce.start) := by omega
    have hrow : row ce.owner.stripe_len (columns ce.owner) (logical - ce.start)
        = row ce.owner.stripe_len (columns ce.owner) (logical' - ce.start) := by
      rw [← depth_div hpos, hsame, depth_div hpos]
    rw [place_index, place_index, hrow] at hindex
    have hcolumn := disk_inj (column_lt hcol _) (column_lt hcol _)
      (hdata ce hce hcovers) (hdata' ce hce' hcovers') hindex
    have := eq_of_place hpos hcolumn hsame
    have := hcovers.1
    have := hcovers'.1
    omega
  · omega
  · omega

/-- The two ways to ask for the one copy there is. -/
theorem striped_apart :
    ∃ place, btrfs_map_block striped_tree 131072 0 0 = .ok (0, 65536, some place) ∧
      btrfs_map_block striped_tree 131072 0 1 = .ok (0, 65536, some place) ∧
      (131072 : ℕ) = 131072 := by
  have hzero : btrfs_map_block striped_tree 131072 0 0
      = .ok (0, 65536, some ⟨⟨2, [], 4⟩, 2097152⟩) := by decide +kernel
  have hone : btrfs_map_block striped_tree 131072 0 1
      = .ok (0, 65536, some ⟨⟨2, [], 4⟩, 2097152⟩) := by decide +kernel
  have hdata : ∀ mirror ≤ 1, ∀ ce ∈ extents striped_tree, covers ce 131072 →
      data_copy ce.owner mirror := by
    intro mirror hmirror ce hce _
    rw [mem_striped_tree.mp hce]
    exact ⟨hmirror, fun _ => hmirror⟩
  exact ⟨_, hzero, hone, map_block_apart striped_mapped striped_laid_out (by decide) (by decide)
    (by decide) (by decide) (hdata 0 (by decide)) (hdata 1 le_rfl) hzero hone⟩

/-! ## The way back

A place is in one stripe, at one depth; row and column give the number of the stripe in the
chunk, from which the source computes the address by the same profile. -/

/-- At most one profile bit is set. The check of a chunk does not ask it. -/
def one_profile (map : map_lookup) : Prop :=
  map.type &&& BTRFS_BLOCK_GROUP_PROFILE_MASK ∈
    [0, BTRFS_BLOCK_GROUP_RAID0, BTRFS_BLOCK_GROUP_RAID1, BTRFS_BLOCK_GROUP_DUP,
      BTRFS_BLOCK_GROUP_RAID10, BTRFS_BLOCK_GROUP_RAID5, BTRFS_BLOCK_GROUP_RAID6]

/-- The bits of the mask are all that a test for profiles sees. -/
theorem and_flag (type flag : ℕ) (hflag : BTRFS_BLOCK_GROUP_PROFILE_MASK &&& flag = flag) :
    type &&& flag = type &&& BTRFS_BLOCK_GROUP_PROFILE_MASK &&& flag := by
  rw [Nat.and_assoc, hflag]

/-- What one profile is to both directions of the mapping. -/
theorem one_profile_cases (h : map.checked) (hone : one_profile map) :
    (profile_of map = .raid10 ∧ map.type &&& BTRFS_BLOCK_GROUP_RAID10 ≠ 0) ∨
    (profile_of map = .plain ∧ map.type &&& BTRFS_BLOCK_GROUP_RAID10 = 0 ∧
      map.type &&& BTRFS_BLOCK_GROUP_RAID0 ≠ 0) ∨
    (profile_of map = .parity ∧ map.type &&& BTRFS_BLOCK_GROUP_RAID10 = 0 ∧
      map.type &&& BTRFS_BLOCK_GROUP_RAID0 = 0 ∧
      map.type &&& (BTRFS_BLOCK_GROUP_RAID5 ||| BTRFS_BLOCK_GROUP_RAID6) ≠ 0) ∨
    (columns map = 1 ∧ profile_of map ≠ .raid10 ∧ profile_of map ≠ .parity ∧
      map.type &&& BTRFS_BLOCK_GROUP_RAID10 = 0 ∧ map.type &&& BTRFS_BLOCK_GROUP_RAID0 = 0 ∧
      map.type &&& (BTRFS_BLOCK_GROUP_RAID5 ||| BTRFS_BLOCK_GROUP_RAID6) = 0) := by
  have h0 := and_flag map.type BTRFS_BLOCK_GROUP_RAID0 (by decide)
  have h1 := and_flag map.type BTRFS_BLOCK_GROUP_RAID1 (by decide)
  have h10 := and_flag map.type BTRFS_BLOCK_GROUP_RAID10 (by decide)
  have hd := and_flag map.type BTRFS_BLOCK_GROUP_DUP (by decide)
  have hp := and_flag map.type (BTRFS_BLOCK_GROUP_RAID5 ||| BTRFS_BLOCK_GROUP_RAID6)
    (by decide)
  by_cases hsingle : map.type &&& BTRFS_BLOCK_GROUP_PROFILE_MASK = 0
  · obtain ⟨hplain, hcol⟩ := columns_single h hsingle
    rw [hsingle, Nat.zero_and] at h0 h10 hp
    refine Or.inr (Or.inr (Or.inr ⟨hcol, ?_, ?_, h10, h0, hp⟩)) <;> rw [hplain] <;> decide
  simp only [one_profile, List.mem_cons, List.not_mem_nil, or_false] at hone
  rw [profile_of, columns, profile_of, h0, h1, h10, hd, hp]
  rcases hone with heq | heq | heq | heq | heq | heq | heq
  · exact absurd heq hsingle
  all_goals rw [heq]
  · exact Or.inr (Or.inl (by decide))
  · exact Or.inr (Or.inr (Or.inr ⟨rfl, by decide⟩))
  · exact Or.inr (Or.inr (Or.inr ⟨rfl, by decide⟩))
  · exact Or.inl (by decide)
  · exact Or.inr (Or.inr (Or.inl (by decide)))
  · exact Or.inr (Or.inr (Or.inl (by decide)))

/-- What `btrfs_num_copies` tells a reader is the number of copies that the mapping has: the two
test the profiles in another order, which one profile does not show. -/
theorem num_copies_eq {map_tree : btrfs_mapping_tree} (h : mapped map_tree)
    {ce : cache_extent map_lookup} (hce : ce ∈ extents map_tree) (hone : one_profile ce.owner)
    {logical : ℕ} (hcovers : covers ce logical) :
    btrfs_num_copies map_tree logical = copies ce.owner := by
  have hinside : ¬ (ce.start > logical ∨ u64 (ce.start + ce.size) < logical) := by
    have hstop : u64 (ce.start + ce.size) = ce.stop := u64_of_lt (h.tidy.fits ce hce).2
    rw [hstop]
    exact not_or.mpr ⟨not_lt.mpr hcovers.1, not_lt.mpr hcovers.2.le⟩
  rw [btrfs_num_copies, search_covers h hce hcovers]
  dsimp only
  rw [if_neg hinside, copies, profile_of,
    and_flag ce.owner.type (BTRFS_BLOCK_GROUP_DUP ||| BTRFS_BLOCK_GROUP_RAID1) (by decide),
    and_flag ce.owner.type BTRFS_BLOCK_GROUP_RAID1 (by decide),
    and_flag ce.owner.type BTRFS_BLOCK_GROUP_RAID10 (by decide),
    and_flag ce.owner.type BTRFS_BLOCK_GROUP_DUP (by decide),
    and_flag ce.owner.type (BTRFS_BLOCK_GROUP_RAID5 ||| BTRFS_BLOCK_GROUP_RAID6) (by decide),
    and_flag ce.owner.type BTRFS_BLOCK_GROUP_RAID5 (by decide),
    and_flag ce.owner.type BTRFS_BLOCK_GROUP_RAID6 (by decide)]
  simp only [one_profile, List.mem_cons, List.not_mem_nil, or_false] at hone
  rcases hone with heq | heq | heq | heq | heq | heq | heq <;> rw [heq] <;> rfl

/-- The bytes that lie side by side at one address of `btrfs_rmap_block`: a stripe, or the data
of a whole row where there is parity. -/
def side_by_side (map : map_lookup) : ℕ :=
  if profile_of map = .parity then map.stripe_len * nr_data_stripes map else map.stripe_len

/-- The number of the bytes side by side, from the row and the column of a stripe. -/
def rmap_number (map : map_lookup) (row column : ℕ) : ℕ :=
  if profile_of map = .parity then row else row * columns map + column

theorem rmap_lengths_eq {ce : cache_extent map_lookup} (h : ce.owner.checked)
    (hone : one_profile ce.owner) (hcol : columns ce.owner ≠ 0) :
    rmap_lengths ce = .ok (share ce, side_by_side ce.owner) := by
  have h1 := h.num_stripes
  have hdata := nr_data_stripes_pos h
  unfold rmap_lengths share side_by_side
  dsimp only
  rcases one_profile_cases h hone with ⟨hprofile, h10⟩ | ⟨hprofile, h10, h0⟩ | ⟨hprofile, h10, h0, hp⟩ |
    ⟨hcolumns, -, hprofile, h10, h0, hp⟩
  · have hfactor : ce.owner.num_stripes / ce.owner.sub_stripes ≠ 0 := by
      rw [columns, hprofile] at hcol
      exact hcol
    rw [if_pos h10, udiv, if_neg (h.raid10 h10), ok_bind, udiv, if_neg hfactor, ok_bind, columns,
      hprofile]
    rfl
  · rw [if_neg (not_not.mpr h10), if_pos h0, udiv, if_neg (by omega), ok_bind, columns, hprofile]
    rfl
  · rw [if_neg (not_not.mpr h10), if_neg (not_not.mpr h0), if_pos hp, udiv, if_neg hdata.ne', ok_bind,
      columns, hprofile]
    rfl
  · rw [if_neg (not_not.mpr h10), if_neg (not_not.mpr h0), if_neg (not_not.mpr hp), hcolumns,
      Nat.div_one, if_neg hprofile]

/-- The number `btrfs_rmap_block` gives a stripe, from its row and its column. -/
theorem rmap_stripe_nr_eq (h : map.checked) (hone : one_profile map)
    (hwhole : map.num_stripes % map.sub_stripes = 0 ∨ profile_of map ≠ .raid10)
    {row column mirror : ℕ} (hpiece : row * columns map + column + 1 ≤ 2 ^ 48)
    (hcolumn : column < columns map) (hcopies : mirror ≤ copies map) :
    rmap_stripe_nr map row (disk map row column mirror) = .ok (rmap_number map row column) := by
  have hlt := h.num_stripes_lt
  unfold rmap_stripe_nr rmap_number
  rcases one_profile_cases h hone with ⟨hprofile, h10⟩ | ⟨hprofile, h10, h0⟩ | ⟨hprofile, h10, h0, hp⟩ |
    ⟨hcolumns, -, hprofile, h10, h0, hp⟩
  · have hsub : 0 < map.sub_stripes := Nat.pos_of_ne_zero (h.raid10 h10)
    have hcopies : mirror ≤ map.sub_stripes := by
      rw [copies, hprofile] at hcopies
      exact hcopies
    have hcolumns : columns map * map.sub_stripes = map.num_stripes := by
      rw [columns, hprofile]
      exact Nat.div_mul_cancel (Nat.dvd_of_mod_eq_zero (hwhole.resolve_right (not_not.mpr hprofile)))
    have hcol : 1 ≤ columns map := by omega
    have hle : map.sub_stripes ≤ map.num_stripes := by
      rw [← hcolumns]
      exact Nat.le_mul_of_pos_left _ hcol
    -- the copies of a stripe stand side by side, and rows follow one another
    have hsum : row * map.num_stripes + disk map row column mirror
        = mirror - 1 + (row * columns map + column) * map.sub_stripes := by
      rw [disk, hprofile, ← hcolumns]
      ring
    have hbound : (row * columns map + column + 1) * map.sub_stripes ≤ 2 ^ 48 * 2 ^ 16 :=
      Nat.mul_le_mul hpiece (by omega)
    rw [Nat.add_one_mul] at hbound
    rw [if_pos h10, udiv, if_neg (by omega), hsum, u64_of_lt (by omega),
      Nat.add_mul_div_right _ _ hsub, Nat.div_eq_of_lt (by omega), Nat.zero_add,
      if_neg (by rw [hprofile]; decide)]
  · have hcolumns : columns map = map.num_stripes := by rw [columns, hprofile]
    rw [hcolumns] at hpiece ⊢
    rw [if_neg (not_not.mpr h10), if_pos h0, disk, hprofile,
      if_neg (by decide : ¬ profile.plain = profile.parity), u64_of_lt (by dsimp only; omega)]
  · rw [if_neg (not_not.mpr h10), if_neg (not_not.mpr h0), if_pos hprofile]
  · rw [if_neg (not_not.mpr h10), if_neg (not_not.mpr h0), if_neg hprofile, hcolumns]
    rw [hcolumns] at hcolumn
    congr 1
    omega

theorem rmap_stripe_nr_ok (h : map.checked) (stripe_nr i : ℕ) :
    ∃ nr, rmap_stripe_nr map stripe_nr i = .ok nr := by
  unfold rmap_stripe_nr
  split_ifs with h10
  · exact ⟨_, by rw [udiv, if_neg (h.raid10 h10)]⟩
  · exact ⟨_, rfl⟩
  · exact ⟨_, rfl⟩

/-- A place lies on a stripe, the entry of `stripes` with number `i`; `nr` is the number that
`btrfs_rmap_block` gives it there. -/
structure lies_on (ce : cache_extent map_lookup) (physical devid length i : ℕ)
    (s : btrfs_bio_stripe) (nr : ℕ) : Prop where
  dev : s.dev.devid = devid
  low : s.physical ≤ physical
  high : physical < u64 (s.physical + length)
  number : rmap_stripe_nr ce.owner ((physical - s.physical) / ce.owner.stripe_len) i = .ok nr

/-- The loop over the stripes keeps what it has found, and finds the address of every stripe
that the place lies on. -/
theorem rmap_stripes_finds {ce : cache_extent map_lookup} (h : ce.owner.checked)
    (physical devid length rmap_len : ℕ) (stripes : List btrfs_bio_stripe) :
    ∀ (i : ℕ) (buf : List ℕ), ∃ buf',
      rmap_stripes ce physical devid length rmap_len i stripes buf = .ok buf' ∧
      (∀ a ∈ buf, a ∈ buf') ∧
      ∀ (j : ℕ) (s : btrfs_bio_stripe) (nr : ℕ), stripes[j]? = some s →
        lies_on ce physical devid length (i + j) s nr → u64 (ce.start + nr * rmap_len) ∈ buf' := by
  induction stripes with
  | nil => exact fun i buf => ⟨buf, rfl, fun a ha => ha, by simp⟩
  | cons stripe stripes ih =>
      intro i buf
      -- the address of a later stripe is found by the rest of the loop
      have hrest : ∀ buf₁, (∀ a ∈ buf, a ∈ buf₁) →
          (∀ nr, lies_on ce physical devid length i stripe nr →
            u64 (ce.start + nr * rmap_len) ∈ buf₁) →
          ∃ buf', rmap_stripes ce physical devid length rmap_len (i + 1) stripes buf₁ = .ok buf' ∧
            (∀ a ∈ buf, a ∈ buf') ∧
            ∀ (j : ℕ) (s : btrfs_bio_stripe) (nr : ℕ), (stripe :: stripes)[j]? = some s →
              lies_on ce physical devid length (i + j) s nr →
                u64 (ce.start + nr * rmap_len) ∈ buf' := by
        intro buf₁ hkeep hown
        obtain ⟨buf', heq, hkept, hfound⟩ := ih (i + 1) buf₁
        refine ⟨buf', heq, fun a ha => hkept a (hkeep a ha), ?_⟩
        intro j s nr hs hon
        cases j with
        | zero =>
            obtain rfl : stripe = s := Option.some.inj hs
            exact hkept _ (hown nr hon)
        | succ j =>
            refine hfound j s nr hs ?_
            rwa [Nat.add_assoc, Nat.add_comm 1 j]
      rw [rmap_stripes]
      split_ifs with hdev hout
      · exact hrest buf (fun a ha => ha) fun nr hon => absurd hon.dev hdev.2
      · refine hrest buf (fun a ha => ha) fun nr hon => ?_
        have := hon.low
        have := hon.high
        rcases hout with h' | h' <;> omega
      · obtain ⟨nr, hnr⟩ :=
          rmap_stripe_nr_ok h ((physical - stripe.physical) / ce.owner.stripe_len) i
        have hlen : ce.owner.stripe_len = 65536 := h.stripe_len
        rw [udiv, if_neg (by omega), ok_bind, hnr, ok_bind]
        dsimp only
        refine hrest _ (fun a ha => ?_) fun nr' hon => ?_
        · split
          · exact ha
          · exact List.mem_append_left _ ha
        · obtain rfl : nr = nr' := Except.ok.inj (hnr.symm.trans hon.number)
          split
          · assumption
          · exact List.mem_append_right _ (List.mem_singleton.mpr rfl)

/-- The address that is found holds the one it came from in the bytes side by side. -/
theorem side_by_side_holds (h : map.checked) (hcol : columns map ≠ 0) (offset : ℕ) :
    rmap_number map (row map.stripe_len (columns map) offset)
        (column map.stripe_len (columns map) offset) * side_by_side map ≤ offset ∧
      offset < rmap_number map (row map.stripe_len (columns map) offset)
        (column map.stripe_len (columns map) offset) * side_by_side map + side_by_side map := by
  have hlen : map.stripe_len = 65536 := h.stripe_len
  have hpos : 0 < map.stripe_len := by omega
  have hpiece : row map.stripe_len (columns map) offset * columns map
      + column map.stripe_len (columns map) offset = offset / map.stripe_len := piece_eq offset
  have hdiv := Nat.div_add_mod' offset map.stripe_len
  have hmod := Nat.mod_lt offset hpos
  unfold side_by_side rmap_number
  by_cases hprofile : profile_of map = .parity
  · rw [if_pos hprofile, if_pos hprofile]
    have hdata : columns map = nr_data_stripes map := by rw [columns, hprofile]
    have hcolumn : column map.stripe_len (columns map) offset < columns map :=
      column_lt (Nat.pos_of_ne_zero hcol) offset
    rw [← hdata]
    have hlow : row map.stripe_len (columns map) offset * columns map * map.stripe_len
        ≤ offset / map.stripe_len * map.stripe_len := by
      refine Nat.mul_le_mul_right _ ?_
      omega
    have hhigh : (offset / map.stripe_len + 1) * map.stripe_len
        ≤ (row map.stripe_len (columns map) offset * columns map + columns map)
          * map.stripe_len := by
      refine Nat.mul_le_mul_right _ ?_
      omega
    rw [Nat.add_one_mul] at hhigh
    constructor
    · calc _ = row map.stripe_len (columns map) offset * columns map * map.stripe_len := by ring
        _ ≤ offset := by omega
    · calc offset < (row map.stripe_len (columns map) offset * columns map + columns map)
            * map.stripe_len := by omega
        _ = _ := by ring
  · rw [if_neg hprofile, if_neg hprofile, hpiece]
    constructor <;> omega

/-- **There and back**: from the place that any copy of an address is read from, parity included,
`btrfs_rmap_block` finds an address whose stripe, or row where there is parity, holds the address
it came from. The place gives the row by a division, the stripe at the place gives the column, and
the number that is put together from the two is that of the stripe the address came from. -/
theorem rmap_map_block {map_tree : btrfs_mapping_tree} (h : mapped map_tree)
    (hout : laid_out map_tree) {ce : cache_extent map_lookup} (hce : ce ∈ extents map_tree)
    (hone : one_profile ce.owner)
    (hwhole : ce.owner.num_stripes % ce.owner.sub_stripes = 0 ∨ profile_of ce.owner ≠ .raid10)
    {logical length mirror n : ℕ} {place : btrfs_bio_stripe} (hcovers : covers ce logical)
    (hmirror : mirror < 2 ^ 32) (hcopies : mirror ≤ copies ce.owner)
    (hmap : btrfs_map_block map_tree logical length mirror = .ok (0, n, some place)) :
    ∃ addresses len,
      btrfs_rmap_block map_tree ce.start place.physical place.dev.devid = .ok (0, addresses, len) ∧
        ∃ a ∈ addresses, a ≤ logical ∧ logical < a + len := by
  have hchecked := h.checked ce hce
  have hcol := hout.columns ce hce
  have hlen : ce.owner.stripe_len = 65536 := hchecked.stripe_len
  have hpos : 0 < ce.owner.stripe_len := by omega
  have hlogical : logical < 2 ^ 64 := lt_trans hcovers.2 (h.tidy.fits ce hce).2
  have hstart : covers ce ce.start := ⟨le_rfl, start_lt_stop (h.tidy.fits ce hce)⟩
  obtain ⟨ce', hce', hcovers', s, hs, rfl⟩ := map_block_ok h hlogical hmirror hmap
  obtain rfl : ce = ce' := by
    have heq := search_covers h hce hcovers
    rw [search_covers h hce' hcovers'] at heq
    exact (Option.some.inj heq).symm
  have hdepth := depth_lt_share h hout hce hcovers
  have hinside := hout.inside ce hce s (List.mem_of_getElem? hs)
  have hle := hcovers.1
  obtain ⟨hlow, hhigh⟩ := side_by_side_holds hchecked hcol (logical - ce.start)
  obtain ⟨buf, hbuf, -, hfound⟩ := rmap_stripes_finds hchecked (s.physical
    + depth ce.owner.stripe_len (columns ce.owner) (logical - ce.start)) s.dev.devid (share ce)
    (side_by_side ce.owner) ce.owner.stripes 0 []
  -- the number of the stripe, from the depth of the place
  have hpiece : row ce.owner.stripe_len (columns ce.owner) (logical - ce.start) * columns ce.owner
      + column ce.owner.stripe_len (columns ce.owner) (logical - ce.start) + 1 ≤ 2 ^ 48 := by
    rw [piece_eq, hlen]
    omega
  have hnr := rmap_stripe_nr_eq hchecked hone hwhole hpiece
    (column_lt (Nat.pos_of_ne_zero hcol) _) hcopies
  have hon := hfound _ s _ hs ⟨rfl, by omega, by rw [u64_of_lt hinside]; omega, by
    rw [Nat.add_sub_cancel_left, depth_div hpos, Nat.zero_add]
    exact hnr⟩
  refine ⟨buf, side_by_side ce.owner, ?_, _, hon, ?_⟩
  · dsimp only
    rw [btrfs_rmap_block, search_covers h hce hstart, u64_of_lt (by omega)]
    dsimp only
    rw [rmap_lengths_eq hchecked hone hcol, ok_bind]
    dsimp only
    rw [hbuf, ok_bind]
  · rw [u64_of_lt (by omega)]
    constructor <;> omega

/-- An address in its second stripe, and the way back. -/
theorem striped_there_and_back :
    ∃ addresses len, btrfs_rmap_block striped_tree 65536 2097157 2 = .ok (0, addresses, len) ∧
      ∃ a ∈ addresses, a ≤ 131077 ∧ 131077 < a + len :=
  rmap_map_block striped_mapped striped_laid_out (mem_striped_tree.mpr rfl)
    (by unfold one_profile; decide) (Or.inl rfl)
    (show covers striped 131077 from ⟨by decide, by decide⟩) (by decide)
    (show 0 ≤ copies striped.owner by decide)
    (show btrfs_map_block striped_tree 131077 0 0
      = .ok (0, 65531, some ⟨⟨2, [], 4⟩, 2097157⟩) by decide +kernel)

end SysbakAdmin.MapBlock

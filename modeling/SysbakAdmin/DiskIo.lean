/-
Reading a tree block of a btrfs file system, as `src/btrfs/disk-io.c` does it: the bytes from
their places on the devices, the checks, and one copy after the other until one passes.

The block is given as it comes from `btrfs_find_create_tree_block`: its address, its length, and
the bytes that are in it, which are zero in a new one. The list of blocks to be written again
(`recow_ebs`) is left out: nothing of this program writes a tree block.

`read_whole_eb` cuts a block at the borders of the stripes, and each cut is a read of its
own that may fail or come short. `read_whole_eb_reads` says that no cut shows: the bytes are
those the mapping names one by one. `read_tree_block_fs_info_spec` then needs no more than
whether a copy is readable and whether it passes: the loop over the copies keeps the best
generation so far, asks for the next number, and ends within one round for each copy and
two more.
-/
import SysbakAdmin.MapBlock
import SysbakAdmin.Crc32c
import SysbakAdmin.Lib.PartialRead

set_option autoImplicit false

namespace SysbakAdmin.DiskIo

open LittleEndian ByteStore CInt CMemory ExtentCache Volumes MapBlock Crc32c PartialRead

def BTRFS_SUPER_INFO_OFFSET : ℕ := 64 * 1024

def BTRFS_CSUM_SIZE : ℕ := 32

def BTRFS_FSID_SIZE : ℕ := 16

def BTRFS_MAX_LEVEL : ℕ := 8

/-- What can be read of each open file: no file goes beyond the offsets of `pread`. -/
structure disks where
  content : ℤ → ℕ → Option Byte
  content_end : ∀ fd offset, 2 ^ 63 ≤ offset → content fd offset = none

structure btrfs_fs_info where
  mapping_tree : btrfs_mapping_tree
  devices : List btrfs_device
  /-- `fsid` of `fs_devices` and of its seeds. -/
  fsids : List (List Byte)
  nodesize : ℕ
  on_restoring : Bool
  suppress_check_block_errors : Bool
  ignore_fsid_mismatch : Bool

/-! ## The header -/

def btrfs_header_fsid (data : List Byte) : List Byte := slice data 32 BTRFS_FSID_SIZE

def btrfs_header_bytenr (data : List Byte) : ℕ := ofLe (slice data 48 8)

def btrfs_header_generation (data : List Byte) : ℕ := ofLe (slice data 80 8)

def btrfs_header_nritems (data : List Byte) : ℕ := ofLe (slice data 96 4)

def btrfs_header_level (data : List Byte) : ℕ := ofLe (slice data 100 1)

/-- `sizeof(struct btrfs_header)`. -/
def sizeof_btrfs_header : ℕ := 101

def sizeof_btrfs_item : ℕ := 25

def sizeof_btrfs_key_ptr : ℕ := 33

def max_nritems (level nodesize : ℕ) : ℕ :=
  if level = 0 then (nodesize - sizeof_btrfs_header) / sizeof_btrfs_item
  else (nodesize - sizeof_btrfs_header) / sizeof_btrfs_key_ptr

def BTRFS_BAD_BYTENR : ℤ := -1

def BTRFS_BAD_FSID : ℤ := -2

def BTRFS_BAD_LEVEL : ℤ := -3

def BTRFS_BAD_NRITEMS : ℤ := -4

/-- `btrfs_csum_final`. -/
def btrfs_csum_final (crc : BitVec 32) : List Byte := leBytes 4 (~~~crc).toNat

/-- The sum of a block: of what stands behind the room for it. -/
def tree_block_csum (data : List Byte) : List Byte :=
  btrfs_csum_final (crc32c_le (~~~0) (data.drop BTRFS_CSUM_SIZE))

/-- `__csum_tree_block_size` to verify. The sums of a file system that opens have 4 bytes. -/
def verify_tree_block_csum (data : List Byte) (silent : Bool) : ℤ :=
  if slice data 0 4 ≠ tree_block_csum data then if silent then 0 else 1 else 0

/-- `__csum_tree_block_size` to set: the block with its sum. -/
def set_tree_block_csum (data : List Byte) : List Byte := overlay 0 data 0 (tree_block_csum data)

section Reading

variable (k : disks) (info : btrfs_fs_info)

def csum_tree_block_fs_info (data : List Byte) : ℤ :=
  verify_tree_block_csum data info.suppress_check_block_errors

def check_tree_block (start : ℕ) (data : List Byte) : ℤ :=
  if start ≠ btrfs_header_bytenr data then BTRFS_BAD_BYTENR
  else if btrfs_header_level data ≥ BTRFS_MAX_LEVEL then BTRFS_BAD_LEVEL
  else if btrfs_header_nritems data > max_nritems (btrfs_header_level data) info.nodesize then
    BTRFS_BAD_NRITEMS
  -- only a leaf may be empty
  else if btrfs_header_nritems data = 0 ∧ btrfs_header_level data ≠ 0 then BTRFS_BAD_NRITEMS
  else if ∃ fsid ∈ info.fsids, info.ignore_fsid_mismatch ∨ btrfs_header_fsid data = fsid then 0
  else BTRFS_BAD_FSID

/-- `verify_parent_transid` on a block that is not up to date: what it returns, and whether it
sets `EXTENT_BAD_TRANSID`. -/
def verify_parent_transid (data : List Byte) (parent_transid : ℕ) (ignore : Bool) : ℤ × Bool :=
  if parent_transid = 0 ∨ btrfs_header_generation data = parent_transid then (0, false)
  else if ignore then (0, true)
  else (1, false)

/-- `read_extent_from_disk`: what it returns, and the bytes of the block. A read that fails has
read nothing; like a short one it is not 0. -/
def read_extent_from_disk (fd : ℤ) (dev_bytenr : ℕ) (data : List Byte) (offset len : ℕ) :
    ℤ × List Byte :=
  let bytes := read_some (k.content fd) dev_bytenr len
  (if bytes.length ≠ len then -eio else 0, overlay 0 data offset bytes)

/-- Where `read_whole_eb` reads next: a file, an offset in it, and `read_len`; `none` for the
return with `-EIO`. -/
def next_read (start offset bytes_left mirror : ℕ) : Run (Option (ℤ × ℕ × ℕ)) :=
  if ¬ info.on_restoring ∧ start ≠ BTRFS_SUPER_INFO_OFFSET then do
    let (ret, read_len, multi) ←
      btrfs_map_block info.mapping_tree (u64 (start + offset)) bytes_left mirror
    if ret ≠ 0 then .ok none
    else
      match multi with
      | none => .error .outOfBounds
      | some stripe =>
          if stripe.dev.fd ≤ 0 then .ok none
          else .ok (some (stripe.dev.fd, stripe.physical, read_len))
  else
    -- the super block is at its own address of device 1, and so is every block of a restore
    match info.devices.find? fun device => device.devid = 1 with
    | none => .error .outOfBounds
    | some device => .ok (some (device.fd, start, bytes_left))

/-- The loop of `read_whole_eb`. -/
def read_whole_eb_loop (start mirror : ℕ) : ℕ → ℕ → ℕ → List Byte → Run (ℤ × List Byte)
  | 0, _, _, _ => .error .diverged
  | fuel + 1, offset, bytes_left, data =>
      if bytes_left = 0 then .ok (0, data)
      else do
        match ← next_read info start offset bytes_left mirror with
        | none => .ok (-eio, data)
        | some (fd, dev_bytenr, read_len) =>
            -- the mapping may give more than is left of the block
            let read_len := if read_len > bytes_left then bytes_left else read_len
            let (ret, data) := read_extent_from_disk k fd dev_bytenr data offset read_len
            if ret ≠ 0 then .ok (-eio, data)
            else read_whole_eb_loop start mirror fuel (offset + read_len) (bytes_left - read_len) data

/-- `read_whole_eb`: what it returns, and the bytes of the block. -/
def read_whole_eb (fuel start : ℕ) (data : List Byte) (mirror : ℕ) : Run (ℤ × List Byte) :=
  read_whole_eb_loop k info start mirror fuel 0 data.length data

/-- One round of the loop of `read_tree_block_fs_info`: whether the block passes, its bytes, and
whether `EXTENT_BAD_TRANSID` is set. -/
def try_mirror (fuel start parent_transid mirror_num : ℕ) (ignore : Bool) (data : List Byte) :
    Run (Bool × List Byte × Bool) := do
  let (ret, data) ← read_whole_eb k info fuel start data mirror_num
  if ret = 0 ∧ csum_tree_block_fs_info info data = 0 ∧ check_tree_block info start data = 0 then
    let (ret, bad_transid) := verify_parent_transid data parent_transid ignore
    .ok (ret = 0, data, bad_transid)
  else .ok (false, data, false)

/-- The loop of `read_tree_block_fs_info`: the bytes of the block that is returned and whether
`EXTENT_BAD_TRANSID` is set, and `none` for the error pointer. -/
def read_tree_block_loop (fuel start parent_transid : ℕ) :
    ℕ → ℕ → ℕ → ℕ → Bool → List Byte → Run (Option (List Byte × Bool))
  | 0, _, _, _, _, _ => .error .diverged
  | rounds + 1, mirror_num, good_mirror, best_transid, ignore, data => do
      let (passed, data, bad_transid) ←
        try_mirror k info fuel start parent_transid mirror_num ignore data
      if passed then .ok (some (data, bad_transid))
      else if ignore then .ok none
      else
        let num_copies := btrfs_num_copies info.mapping_tree start
        -- the only copy is read once more, and its generation is let through
        if num_copies = 1 then
          read_tree_block_loop fuel start parent_transid rounds mirror_num good_mirror best_transid
            true data
        else
          -- the copy of the highest generation so far
          let better := btrfs_header_generation data > best_transid ∧ mirror_num ≠ 0
          let best_transid := if better then btrfs_header_generation data else best_transid
          let good_mirror := if better then mirror_num else good_mirror
          let mirror_num := mirror_num + 1
          -- all copies have been asked for: the best of them again
          if mirror_num > num_copies then
            read_tree_block_loop fuel start parent_transid rounds good_mirror good_mirror
              best_transid true data
          else
            read_tree_block_loop fuel start parent_transid rounds mirror_num good_mirror
              best_transid false data

/-- `read_tree_block_fs_info`, on a block that is not up to date. -/
def read_tree_block_fs_info (rounds fuel start : ℕ) (data : List Byte) (parent_transid : ℕ) :
    Run (Option (List Byte × Bool)) :=
  read_tree_block_loop k info fuel start parent_transid rounds 0 0 0 false data

end Reading

/-! ## The sum of a block

The first 32 bytes of a block are room for the sum, of which CRC-32C takes four; it is computed
over what is behind the room. -/

theorem tree_block_csum_length (data : List Byte) : (tree_block_csum data).length = 4 :=
  leBytes_length _ _

theorem verify_eq_zero (data : List Byte) :
    verify_tree_block_csum data false = 0 ↔ slice data 0 4 = tree_block_csum data := by
  unfold verify_tree_block_csum
  by_cases heq : slice data 0 4 = tree_block_csum data
  · rw [if_neg (not_not.mpr heq)]
    exact iff_of_true rfl heq
  · rw [if_pos heq]
    exact iff_of_false (by decide) heq

/-- Two blocks with one sum have one CRC behind the room for it. -/
theorem tree_block_csum_inj {data other : List Byte}
    (h : tree_block_csum data = tree_block_csum other) :
    crc32c_le (~~~0) (data.drop BTRFS_CSUM_SIZE) = crc32c_le (~~~0) (other.drop BTRFS_CSUM_SIZE) := by
  have hval := congrArg ofLe h
  unfold tree_block_csum btrfs_csum_final at hval
  have hlt : ∀ c : BitVec 32, c.toNat < 256 ^ 4 := fun c => c.isLt
  rw [ofLe_leBytes_of_lt (hlt _), ofLe_leBytes_of_lt (hlt _)] at hval
  have hnot := congrArg (fun c : BitVec 32 => ~~~c) (BitVec.eq_of_toNat_eq hval)
  simpa using hnot

/-- What stands behind a change. -/
theorem drop_behind {n : ℕ} {pre x post : List Byte} (h : pre.length + x.length ≤ n) :
    (pre ++ x ++ post).drop n = post.drop (n - (pre.length + x.length)) := by
  rw [List.drop_append, List.length_append,
    List.drop_of_length_le (by rw [List.length_append]; exact h), List.nil_append]

/-- A block that is given its sum passes: the room for the sum is not summed. -/
theorem verify_set (data : List Byte) :
    verify_tree_block_csum (set_tree_block_csum data) false = 0 := by
  have hset : set_tree_block_csum data = tree_block_csum data ++ data.drop 4 := by
    simp [set_tree_block_csum, overlay, tree_block_csum_length]
  have hbehind : (set_tree_block_csum data).drop BTRFS_CSUM_SIZE = data.drop BTRFS_CSUM_SIZE := by
    rw [hset, BTRFS_CSUM_SIZE, List.drop_append, tree_block_csum_length, List.drop_drop,
      List.drop_of_length_le (by rw [tree_block_csum_length]; decide), List.nil_append]
  rw [verify_eq_zero, tree_block_csum, hbehind, hset, slice, List.drop_zero,
    List.take_left' (tree_block_csum_length data)]
  rfl

/-- **What the sum of a tree block is good for**: the table of the source computes the CRC bit by
bit; a block that is given its sum passes; one that passes no longer does when up to 4 bytes in a
row are changed, in the sum or behind the room for it; and what stands in the rest of that room
makes no difference. The third part is a property of the CRC, that of a burst no longer than its
register; the fourth comes from the sum being 4 bytes where there is room for 32. -/
theorem csum_tree_block_detects :
    (∀ (crc : BitVec 32) (data : List Byte), crc32c_le crc data = ReflectedCrc.run poly crc data) ∧
    (∀ data, verify_tree_block_csum (set_tree_block_csum data) false = 0) ∧
    ∀ pre x y post : List Byte, verify_tree_block_csum (pre ++ x ++ post) false = 0 →
      x.length = y.length → x ≠ y →
      (x.length ≤ 4 → pre.length + x.length ≤ 4 ∨ BTRFS_CSUM_SIZE ≤ pre.length →
        verify_tree_block_csum (pre ++ y ++ post) false ≠ 0) ∧
      (4 ≤ pre.length → pre.length + x.length ≤ BTRFS_CSUM_SIZE →
        verify_tree_block_csum (pre ++ y ++ post) false = 0) := by
  refine ⟨crc32c_le_eq, verify_set, fun pre x y post hpasses hlen hne => ?_⟩
  simp only [ne_eq, verify_eq_zero] at hpasses ⊢
  refine ⟨fun hx hwhere hother => ?_, fun hlow hhigh => ?_⟩
  · rcases hwhere with hfront | hbehind
    · -- the sum that is stored is another, the one that is computed is not
      have hsame : tree_block_csum (pre ++ x ++ post) = tree_block_csum (pre ++ y ++ post) := by
        rw [tree_block_csum, tree_block_csum, drop_behind (by rw [BTRFS_CSUM_SIZE]; omega),
          drop_behind (by rw [BTRFS_CSUM_SIZE]; omega), hlen]
      have hslice : slice (pre ++ x ++ post) 0 4 = slice (pre ++ y ++ post) 0 4 := by
        rw [hpasses, hother, hsame]
      rw [slice, slice, List.drop_zero, List.drop_zero] at hslice
      have hcut := congrArg (List.take (pre.length + x.length)) hslice
      rw [List.take_take, List.take_take, Nat.min_eq_left hfront,
        List.take_left' List.length_append,
        List.take_left' (by rw [List.length_append, hlen])] at hcut
      exact hne (List.append_cancel_left hcut)
    · -- the one that is computed is another
      have hslice : slice (pre ++ x ++ post) 0 4 = slice (pre ++ y ++ post) 0 4 := by
        have h4 : 4 ≤ pre.length := le_trans (by decide) hbehind
        rw [slice, slice, List.drop_zero, List.drop_zero, List.append_assoc, List.append_assoc,
          List.take_append_of_le_length h4, List.take_append_of_le_length h4]
      have hcrc := tree_block_csum_inj (hpasses.symm.trans (hslice.trans hother))
      rw [crc32c_le_eq, crc32c_le_eq, List.append_assoc, List.append_assoc,
        List.drop_append_of_le_length hbehind, List.drop_append_of_le_length hbehind,
        ReflectedCrc.run_append, ReflectedCrc.run_append, ReflectedCrc.run_append,
        ReflectedCrc.run_append] at hcrc
      have hstate := ReflectedCrc.run_state_inj poly poly_top post hcrc
      exact hne (ReflectedCrc.run_short_inj poly poly_top hlen (by omega) hstate)
  · have hslice : slice (pre ++ x ++ post) 0 4 = slice (pre ++ y ++ post) 0 4 := by
      rw [slice, slice, List.drop_zero, List.drop_zero, List.append_assoc, List.append_assoc,
        List.take_append_of_le_length hlow, List.take_append_of_le_length hlow]
    have hsame : tree_block_csum (pre ++ x ++ post) = tree_block_csum (pre ++ y ++ post) := by
      rw [tree_block_csum, tree_block_csum, drop_behind hhigh, drop_behind (by omega), hlen]
    rw [← hslice, hpasses, hsame]

/-- A block of zeros, with its sum, in which a byte turns to 1. -/
theorem zeros_changed :
    verify_tree_block_csum ((set_tree_block_csum (List.replicate 36 0)).take 32 ++ [1] ++ [0, 0, 0])
      false ≠ 0 := by
  have hpasses : verify_tree_block_csum
      ((set_tree_block_csum (List.replicate 36 0)).take 32 ++ [0] ++ [0, 0, 0]) false = 0 := by
    decide +kernel
  exact (csum_tree_block_detects.2.2 _ _ _ _ hpasses
    (show [(0 : Byte)].length = [(1 : Byte)].length from rfl) (by decide)).1 (by decide)
    (Or.inr (by decide +kernel))

/-! ## The bytes of a copy

`byte_at` is what the mapping says of a single address. A read of many is compared with it byte
by byte, so that it does not matter where the reads are cut. -/

section Copies

variable {k : disks} {info : btrfs_fs_info}

/-- The byte of an address on one of its copies: where its place can be read. -/
def byte_at (k : disks) (info : btrfs_fs_info) (mirror logical : ℕ) : Option Byte :=
  match btrfs_map_block info.mapping_tree logical 0 mirror with
  | .ok (0, _, some stripe) =>
      if stripe.dev.fd ≤ 0 then none else k.content stripe.dev.fd stripe.physical
  | _ => none

/-- A copy of a block: its bytes, when all of them can be read. -/
def copy (k : disks) (info : btrfs_fs_info) (start len mirror : ℕ) : Option (List Byte) :=
  read_all (byte_at k info mirror) start len

/-- The chunks of the file system as they come from the chunk tree, none of them a RAID10 that
stops the mapping. -/
structure readable (info : btrfs_fs_info) : Prop where
  mapped : mapped info.mapping_tree
  not_short : ∀ ce ∈ extents info.mapping_tree, ¬ short ce.owner

/-- The mapping of an address refuses it or finds its place, whatever `*length` was. The one way
in which a mapping stops is excluded by `readable`. -/
theorem map_block_returns (h : readable info) {logical : ℕ} (hlogical : logical < 2 ^ 64)
    {mirror : ℕ} (hmirror : mirror < 2 ^ 32) :
    (∃ ret ≠ 0, ∀ length, ∃ left,
      btrfs_map_block info.mapping_tree logical length mirror = .ok (ret, left, none)) ∨
    ∃ n place, ∀ length,
      btrfs_map_block info.mapping_tree logical length mirror = .ok (0, n, some place) := by
  by_cases hfree : ∀ ce ∈ extents info.mapping_tree, ¬ covers ce logical
  · exact Or.inl ⟨-ENOENT, by decide,
      fun length => map_block_free h.mapped hlogical length mirror hfree⟩
  · push Not at hfree
    obtain ⟨ce, hce, hcovers⟩ := hfree
    have hcol : columns ce.owner ≠ 0 :=
      fun h0 => h.not_short ce hce ((columns_eq_zero (h.mapped.checked ce hce)).mp h0)
    -- in a chunk it is the number of the copy that decides
    by_cases hindex : place_index ce.owner (logical - ce.start) mirror < ce.owner.stripes.length
    · have hmap := fun length => map_block_eq h.mapped hce hcovers length hmirror
      simp only [if_neg hcol, dif_pos hindex] at hmap
      exact Or.inr ⟨_, _, hmap⟩
    · have hmap := fun length => map_block_eq h.mapped hce hcovers length hmirror
      simp only [if_neg hcol, dif_neg hindex] at hmap
      exact Or.inl ⟨-1, by decide, fun length => ⟨_, hmap length⟩⟩

/-- The next read gets bytes of the copy, or there are none. How many is what the mapping says;
the loop cuts it to what is left. -/
theorem next_read_spec (h : readable info) (hrestoring : info.on_restoring = false)
    {start offset mirror : ℕ} (hsuper : start ≠ BTRFS_SUPER_INFO_OFFSET)
    (hstart : start + offset < 2 ^ 64) (hmirror : mirror < 2 ^ 32) (bytes_left : ℕ) :
    (next_read info start offset bytes_left mirror = .ok none ∧
        byte_at k info mirror (start + offset) = none) ∨
      ∃ fd dev_bytenr n, next_read info start offset bytes_left mirror
          = .ok (some (fd, dev_bytenr, n)) ∧ 0 < n ∧ dev_bytenr < 2 ^ 64 ∧
        ∀ d < n, byte_at k info mirror (start + offset + d)
          = k.content fd (u64 (dev_bytenr + d)) := by
  have hbranch : ¬ info.on_restoring ∧ start ≠ BTRFS_SUPER_INFO_OFFSET :=
    ⟨by rw [hrestoring]; exact Bool.false_ne_true, hsuper⟩
  rw [next_read, if_pos hbranch, u64_of_lt hstart, byte_at]
  rcases map_block_returns h hstart hmirror with ⟨ret, hret, hmap⟩ | ⟨n, place, hmap⟩
  · obtain ⟨left, heq⟩ := hmap bytes_left
    obtain ⟨left', heq'⟩ := hmap 0
    refine Or.inl ⟨?_, ?_⟩
    · rw [heq, ok_bind]
      exact if_pos hret
    · rw [heq']
      split
      · rename_i hcase
        exact absurd (Prod.mk.inj (Except.ok.inj hcase)).1 hret
      · rfl
  · rw [hmap bytes_left, ok_bind]
    dsimp only
    rw [if_neg (not_not.mpr rfl)]
    obtain ⟨hpos, hphysical, hrun⟩ := map_block_run h.mapped hstart hmirror (hmap 0)
    by_cases hfd : place.dev.fd ≤ 0
    · refine Or.inl ⟨if_pos hfd, ?_⟩
      rw [hmap 0]
      exact if_pos hfd
    · refine Or.inr ⟨place.dev.fd, place.physical, n, if_neg hfd, hpos, hphysical, fun d hd => ?_⟩
      rw [byte_at, hrun d hd 0]
      exact if_neg hfd

/-- The bytes that one read brings in, when it is not longer than what the mapping gave. -/
theorem read_piece {start mirror dev_bytenr n m : ℕ} {f : ℤ} (hdev : dev_bytenr < 2 ^ 64)
    (hm : m ≤ n) (hpos : 0 < m) (hlong : m ≤ 2 ^ 63)
    (hbytes : ∀ d < n, byte_at k info mirror (start + d) = k.content f (u64 (dev_bytenr + d))) :
    read_all (byte_at k info mirror) start m = read_all (k.content f) dev_bytenr m := by
  by_cases hfits : dev_bytenr + m ≤ 2 ^ 64
  · refine read_all_congr fun d hd => ?_
    rw [hbytes d (by omega), u64_of_lt (by omega)]
  · -- there are no such offsets in a file
    have hend : k.content f dev_bytenr = none := k.content_end f dev_bytenr (by omega)
    have hfirst := hbytes 0 (by omega)
    rw [Nat.add_zero, Nat.add_zero, u64_of_lt hdev, hend] at hfirst
    rw [read_all_hole hfirst hpos, read_all_hole hend hpos]

/-- The loop of `read_whole_eb` reads the rest of the copy, or fails on it. By induction on the
bytes that are left; each read takes some. -/
theorem read_whole_eb_loop_spec (h : readable info) (hrestoring : info.on_restoring = false)
    {start mirror : ℕ} (hsuper : start ≠ BTRFS_SUPER_INFO_OFFSET) (hmirror : mirror < 2 ^ 32) :
    ∀ (fuel offset bytes_left : ℕ) (data : List Byte), bytes_left < fuel →
      offset + bytes_left = data.length → start + data.length ≤ 2 ^ 64 → data.length ≤ 2 ^ 63 →
      match read_all (byte_at k info mirror) (start + offset) bytes_left with
      | some bytes => read_whole_eb_loop k info start mirror fuel offset bytes_left data
          = .ok (0, data.take offset ++ bytes)
      | none => ∃ data', data'.length = data.length ∧
          read_whole_eb_loop k info start mirror fuel offset bytes_left data = .ok (-eio, data') := by
  intro fuel
  induction fuel with
  | zero => intro offset bytes_left data hfuel; omega
  | succ fuel ih =>
      intro offset bytes_left data hfuel hlen hstart hlong
      rw [read_whole_eb_loop]
      by_cases hzero : bytes_left = 0
      · rw [if_pos hzero, hzero, read_all]
        dsimp only
        rw [List.append_nil, List.take_of_length_le (by omega)]
      rw [if_neg hzero]
      -- a hole at the next byte is a hole of the copy
      rcases next_read_spec (k := k) h hrestoring hsuper (show start + offset < 2 ^ 64 by omega) hmirror
        bytes_left with ⟨hnext, hhole⟩ | ⟨fd, dev_bytenr, n, hnext, hn, hdev, hbytes⟩
      · rw [read_all_hole hhole (Nat.pos_of_ne_zero hzero), hnext]
        exact ⟨data, rfl, rfl⟩
      rw [hnext, ok_bind]
      dsimp only
      -- what is asked for is cut to what is left
      generalize hm : (if n > bytes_left then bytes_left else n) = m
      have hmn : m ≤ n ∧ m ≤ bytes_left ∧ 0 < m := by
        rw [← hm]
        split <;> omega
      obtain ⟨hmn, hml, hmpos⟩ := hmn
      have hpiece := read_piece hdev hmn hmpos (by omega) hbytes
      rw [show bytes_left = m + (bytes_left - m) by omega, read_all_add, hpiece,
        show m + (bytes_left - m) - m = bytes_left - m by omega]
      rw [read_extent_from_disk]
      rcases read_some_eq (k.content fd) dev_bytenr m with ⟨l, hall, hsome⟩ | ⟨hall, hshort⟩
      · -- all of it came, and the loop goes on behind it
        have hl := read_all_length hall
        rw [hall, hsome, Option.bind_some]
        dsimp only
        rw [if_neg (not_not.mpr hl), if_neg (not_not.mpr rfl)]
        have hlen' : (overlay 0 data offset l).length = data.length := by
          rw [overlay_length]
          omega
        have hrest := ih (offset + m) (bytes_left - m) (overlay 0 data offset l) (by omega)
          (by omega) (by omega) (by omega)
        rw [← Nat.add_assoc] at hrest
        rw [← hl, take_overlay 0 (by omega : offset ≤ data.length), hl] at hrest
        cases hcopy : read_all (byte_at k info mirror) (start + offset + m) (bytes_left - m) with
        | none =>
            rw [hcopy] at hrest
            obtain ⟨data', hdata', heq⟩ := hrest
            exact ⟨data', hdata'.trans hlen', heq⟩
        | some bytes =>
            rw [hcopy] at hrest
            dsimp only [Option.map_some]
            rw [hrest, List.append_assoc]
      · rw [hall]
        dsimp only [Option.bind_none]
        rw [if_pos hshort, if_pos (by decide)]
        refine ⟨_, ?_, rfl⟩
        have := read_some_length_le (k.content fd) dev_bytenr m
        rw [overlay_length]
        omega


/-- `read_whole_eb` reads the copy that is asked for, or fails where it has a hole. -/
theorem read_whole_eb_spec (h : readable info) (hrestoring : info.on_restoring = false)
    {start mirror : ℕ} (hsuper : start ≠ BTRFS_SUPER_INFO_OFFSET) (hmirror : mirror < 2 ^ 32)
    {fuel : ℕ} {data : List Byte} (hfuel : data.length < fuel) (hstart : start + data.length ≤ 2 ^ 64)
    (hlong : data.length ≤ 2 ^ 63) :
    match copy k info start data.length mirror with
    | some bytes => read_whole_eb k info fuel start data mirror = .ok (0, bytes)
    | none => ∃ data', data'.length = data.length ∧
        read_whole_eb k info fuel start data mirror = .ok (-eio, data') := by
  have hloop := read_whole_eb_loop_spec (k := k) h hrestoring hsuper hmirror fuel 0 data.length data
    hfuel (Nat.zero_add _) hstart hlong
  rw [Nat.add_zero] at hloop
  rw [copy]
  unfold read_whole_eb
  cases hcopy : read_all (byte_at k info mirror) start data.length with
  | none =>
      rw [hcopy] at hloop
      exact hloop
  | some bytes =>
      rw [hcopy] at hloop
      dsimp only at hloop ⊢
      rw [hloop, List.take_zero, List.nil_append]

/-- A file system over two devices, of which the second cannot be read. -/
def half_open : btrfs_fs_info where
  mapping_tree := striped_tree
  devices := [⟨1, [], 3⟩, ⟨2, [], 4⟩]
  fsids := []
  nodesize := 4096
  on_restoring := false
  suppress_check_block_errors := false
  ignore_fsid_mismatch := false

theorem half_open_readable : readable half_open where
  mapped := striped_mapped
  not_short ce hce hshort := by
    rw [mem_striped_tree.mp hce] at hshort
    exact absurd hshort.1 (by decide)

def first_disk : disks where
  content fd offset := if fd = 3 ∧ offset < 2 ^ 22 then some 0 else none
  content_end fd offset h := if_neg (by omega)

/-- The bytes pass the checks of a block at its address. -/
def valid (info : btrfs_fs_info) (start : ℕ) (bytes : List Byte) : Prop :=
  csum_tree_block_fs_info info bytes = 0 ∧ check_tree_block info start bytes = 0

/-- The generation is the one that is asked for. -/
def current (parent_transid : ℕ) (bytes : List Byte) : Prop :=
  parent_transid = 0 ∨ btrfs_header_generation bytes = parent_transid

/-- The copy is a valid block of that generation. -/
def good (k : disks) (info : btrfs_fs_info) (start len parent_transid mirror : ℕ)
    (bytes : List Byte) : Prop :=
  copy k info start len mirror = some bytes ∧ valid info start bytes ∧ current parent_transid bytes

/-- The copies that are asked for: the one there is, or number 0 and each of them. -/
def tried (info : btrfs_fs_info) (start mirror : ℕ) : Prop :=
  if btrfs_num_copies info.mapping_tree start = 1 then mirror = 0
  else mirror ≤ btrfs_num_copies info.mapping_tree start

/-- What a caller is given: a good copy, the first that was asked for; a valid copy of another
generation that is marked so, when there is no good one; or an error, when there is no good
one. -/
def outcome (k : disks) (info : btrfs_fs_info) (start len parent_transid : ℕ) :
    Option (List Byte × Bool) → Prop
  | some (bytes, false) => ∃ mirror, tried info start mirror ∧
      good k info start len parent_transid mirror bytes ∧
      ∀ earlier < mirror, ∀ other, ¬ good k info start len parent_transid earlier other
  | some (bytes, true) => (∃ mirror, tried info start mirror ∧
        copy k info start len mirror = some bytes ∧ valid info start bytes) ∧
      ¬ current parent_transid bytes ∧
      ∀ mirror, tried info start mirror →
        ∀ other, ¬ good k info start len parent_transid mirror other
  | none => ∀ mirror, tried info start mirror →
      ∀ other, ¬ good k info start len parent_transid mirror other

section Rounds

variable (h : readable info) (hrestoring : info.on_restoring = false) {start : ℕ}
  (hsuper : start ≠ BTRFS_SUPER_INFO_OFFSET) {fuel len : ℕ} (hfuel : len < fuel)
  (hstart : start + len ≤ 2 ^ 64) (hlong : len ≤ 2 ^ 63) (parent_transid : ℕ)

include h hrestoring hsuper hfuel hstart hlong

/-- A round passes with a valid copy of the generation, or of another one that is let through,
and fails with any other. -/
theorem try_mirror_spec {mirror : ℕ} (hmirror : mirror < 2 ^ 32) (ignore : Bool) {data : List Byte}
    (hlen : data.length = len) :
    (∃ bytes, try_mirror k info fuel start parent_transid mirror ignore data
        = .ok (true, bytes, false) ∧ good k info start len parent_transid mirror bytes) ∨
    (∃ bytes, ignore = true ∧ try_mirror k info fuel start parent_transid mirror ignore data
        = .ok (true, bytes, true) ∧ copy k info start len mirror = some bytes ∧
          valid info start bytes ∧ ¬ current parent_transid bytes) ∨
    ∃ data', data'.length = len ∧ try_mirror k info fuel start parent_transid mirror ignore data
        = .ok (false, data', false) ∧
      ∀ bytes, ¬ good k info start len parent_transid mirror bytes := by
  subst hlen
  have hread := read_whole_eb_spec (k := k) h hrestoring hsuper hmirror hfuel hstart hlong
  unfold try_mirror
  cases hcopy : copy k info start data.length mirror with
  | none =>
      rw [hcopy] at hread
      obtain ⟨data', hdata', heq⟩ := hread
      refine Or.inr (Or.inr ⟨data', hdata', ?_, fun bytes hgood => ?_⟩)
      · rw [heq, ok_bind]
        exact if_neg fun hall => absurd hall.1 (by decide)
      · rw [good, hcopy] at hgood
        cases hgood.1
  | some bytes =>
      rw [hcopy] at hread
      dsimp only at hread
      rw [hread, ok_bind]
      dsimp only
      -- all bytes came: the checks decide, and after them the generation
      by_cases hvalid : valid info start bytes
      swap
      · refine Or.inr (Or.inr ⟨bytes, read_all_length hcopy, if_neg fun hall => hvalid hall.2, ?_⟩)
        intro other hgood
        obtain rfl : bytes = other := Option.some.inj (hcopy.symm.trans hgood.1)
        exact hvalid hgood.2.1
      rw [if_pos ⟨rfl, hvalid⟩, verify_parent_transid]
      by_cases hcurrent : parent_transid = 0 ∨ btrfs_header_generation bytes = parent_transid
      · exact Or.inl ⟨bytes, by rw [if_pos hcurrent]; rfl, hcopy, hvalid, hcurrent⟩
      rw [if_neg hcurrent]
      cases ignore with
      | true => exact Or.inr (Or.inl ⟨bytes, rfl, rfl, rfl, hvalid, hcurrent⟩)
      | false =>
          refine Or.inr (Or.inr ⟨bytes, read_all_length hcopy, rfl, fun other hgood => ?_⟩)
          obtain rfl : bytes = other := Option.some.inj (hcopy.symm.trans hgood.1)
          exact hcurrent hgood.2.2

/-- The last round, with any generation let through. -/
theorem last_round {mirror : ℕ} (hmirror : mirror < 2 ^ 32) (htried : tried info start mirror)
    (hnone : ∀ m, tried info start m → ∀ other, ¬ good k info start len parent_transid m other)
    (rounds good_mirror best_transid : ℕ) {data : List Byte} (hlen : data.length = len) :
    ∃ r, read_tree_block_loop k info fuel start parent_transid (rounds + 1) mirror good_mirror
        best_transid true data = .ok r ∧ outcome k info start len parent_transid r := by
  rw [read_tree_block_loop]
  rcases try_mirror_spec h hrestoring hsuper hfuel hstart hlong parent_transid hmirror true hlen with
    ⟨bytes, heq, hgood⟩ | ⟨bytes, -, heq, hcopy, hvalid, hold⟩ | ⟨data', -, heq, -⟩
  · exact absurd hgood (hnone mirror htried bytes)
  · rw [heq]
    exact ⟨some (bytes, true), rfl, ⟨mirror, htried, hcopy, hvalid⟩, hold, hnone⟩
  · rw [heq]
    exact ⟨none, rfl, hnone⟩

/-- The rounds over the copies, when there is more than one. The induction is on the rounds that
are left. The mirror number goes up by one in each, and the best generation so far is that of a
copy that was tried. -/
theorem rounds_spec (hcopies : btrfs_num_copies info.mapping_tree start ≠ 1)
    (hlt : btrfs_num_copies info.mapping_tree start < 2 ^ 32) :
    ∀ (rounds mirror good_mirror best_transid : ℕ) (data : List Byte), data.length = len →
      mirror ≤ btrfs_num_copies info.mapping_tree start →
      good_mirror ≤ btrfs_num_copies info.mapping_tree start →
      btrfs_num_copies info.mapping_tree start + 2 ≤ rounds + mirror →
      (∀ earlier < mirror, ∀ other, ¬ good k info start len parent_transid earlier other) →
      ∃ r, read_tree_block_loop k info fuel start parent_transid rounds mirror good_mirror
          best_transid false data = .ok r ∧ outcome k info start len parent_transid r := by
  have htried : ∀ m, tried info start m ↔ m ≤ btrfs_num_copies info.mapping_tree start := by
    intro m
    rw [tried, if_neg hcopies]
  intro rounds
  induction rounds with
  | zero => intro mirror _ _ data hlen hmirror; omega
  | succ rounds ih =>
      intro mirror good_mirror best_transid data hlen hmirror hgood_mirror hrounds hearlier
      rw [read_tree_block_loop]
      rcases try_mirror_spec (k := k) h hrestoring hsuper hfuel hstart hlong
        parent_transid (lt_of_le_of_lt hmirror hlt) false hlen with
        ⟨bytes, heq, hgood⟩ | ⟨bytes, hfalse, -⟩ | ⟨data', hlen', heq, hbad⟩
      · rw [heq]
        exact ⟨some (bytes, false), rfl, mirror, (htried mirror).mpr hmirror, hgood, hearlier⟩
      · cases hfalse
      · have hearlier' : ∀ earlier < mirror + 1, ∀ other,
            ¬ good k info start len parent_transid earlier other := by
          intro earlier hlt other
          rcases Nat.lt_succ_iff_lt_or_eq.mp hlt with h' | rfl
          · exact hearlier earlier h' other
          · exact hbad other
        rw [heq, ok_bind]
        dsimp only
        rw [if_neg Bool.false_ne_true, if_neg Bool.false_ne_true, if_neg hcopies]
        -- the best copy so far is one that was asked for
        generalize hm : (if btrfs_header_generation data' > best_transid ∧ mirror ≠ 0 then mirror
          else good_mirror) = good_mirror'
        have hgood_mirror' : good_mirror' ≤ btrfs_num_copies info.mapping_tree start := by
          rw [← hm]
          split <;> assumption
        split
        · -- all of them have been asked for
          obtain ⟨rounds, rfl⟩ : ∃ r, rounds = r + 1 := ⟨rounds - 1, by omega⟩
          refine last_round h hrestoring hsuper hfuel hstart hlong parent_transid (by omega)
            ((htried _).mpr hgood_mirror') (fun m hm => hearlier' m ?_) _ _ _ hlen'
          have := (htried m).mp hm
          omega
        · exact ih _ _ _ _ hlen' (by omega) hgood_mirror' (by omega) hearlier'

end Rounds

/-- What is asked for is a number of copies that an `int` holds. -/
theorem num_copies_lt (h : readable info) {start : ℕ} (hstart : start < 2 ^ 64) :
    btrfs_num_copies info.mapping_tree start < 2 ^ 32 := by
  unfold btrfs_num_copies
  cases hsearch : search_cache_extent info.mapping_tree start with
  | none => exact (by decide : 1 < 2 ^ 32)
  | some ce =>
      dsimp only
      by_cases hle : ce.start ≤ start
      · obtain ⟨hce, -⟩ := covers_of_search h.mapped hstart hsearch hle
        have h1 := (h.mapped.checked ce hce).num_stripes_lt
        have h2 := (h.mapped.checked ce hce).sub_stripes_lt
        split_ifs <;> omega
      · rw [if_pos (Or.inl (not_le.mp hle))]
        decide

end Copies

end SysbakAdmin.DiskIo

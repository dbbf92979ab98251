/-
The free-space scan of one XFS allocation group, as `gdbus-xfsfs.c` makes it.

`scan_ag` walks the free list of the group and then its by-block free-space btree, and
tells `addtohist` of every free extent. `scan_sbtree` and `scanfunc_bno` call each other,
the second through a pointer; what ends them is a level that comes off the disk, is counted
down in the one and compared with 0 in the other. The scan is given the number of frames
it may have on the stack, and `tooDeep` says that they did not do.

A tree on the disk is described by what it holds (`holds`): a leaf its records, a node one
subtree for each pointer, all of one height. The walk of such a tree is an induction on that
description, and the height in the group's header has to be the tree's. Without it nothing
bounds the recursion but the level, which wraps at `INT_MIN`; the last theorem says for
which headers the frames are enough.
-/
import SysbakAdmin.Lib.CInt
import Mathlib.Data.List.Basic
import Mathlib.Data.List.Nodup
import Mathlib.Data.Nat.ModEq

set_option autoImplicit false

namespace SysbakAdmin.Xfs

open CInt

/-! ## What is on the disk -/

/-- A record of a leaf: a free extent of the group. -/
structure xfs_alloc_rec where
  ar_startblock : BitVec 32
  ar_blockcount : BitVec 32
  deriving DecidableEq

/-- A block of the btree, in the byte order of the host. Records and pointers lie over one
another; which of them is read is up to the level the scan has counted down to, and not to
the block's own. -/
structure xfs_btree_block where
  bb_magic : BitVec 32
  bb_level : BitVec 16
  bb_numrecs : BitVec 16
  rp : ℕ → xfs_alloc_rec
  pp : ℕ → BitVec 32

/-- The header of a group's free space. Of the roots and levels, those of the tree by
block. -/
structure xfs_agf where
  agf_seqno : BitVec 32
  agf_roots_bno : BitVec 32
  agf_levels_bno : BitVec 32
  agf_flfirst : BitVec 32
  agf_fllast : BitVec 32
  agf_flcount : BitVec 32

/-- A mounted file system: its sector size, which the mount has checked, and what reading
it gives. A block for which there is no memory has no data. -/
structure xfs_mount where
  sb_sectsize : ℕ
  hascrc : Bool
  agf : BitVec 32 → xfs_agf
  agfl_bno : BitVec 32 → ℕ → BitVec 32
  agblock : BitVec 32 → BitVec 32 → Option xfs_btree_block
  min_sectsize : 512 ≤ sb_sectsize
  max_sectsize : sb_sectsize ≤ 32768

def XFS_ABTB_MAGIC : BitVec 32 := 0x41425442

def XFS_ABTB_CRC_MAGIC : BitVec 32 := 0x41423342

/-- `XFS_AGFL_SIZE`: the entries of a free list, after its header where there is one. -/
def XFS_AGFL_SIZE (mp : xfs_mount) : ℕ := (mp.sb_sectsize - if mp.hascrc then 36 else 0) / 4

/-- The list is never empty, and an `unsigned int` counts its entries: neither the
subtraction nor `++i` wraps. -/
theorem XFS_AGFL_SIZE_bounds (mp : xfs_mount) :
    119 ≤ XFS_AGFL_SIZE mp ∧ XFS_AGFL_SIZE mp ≤ 8192 := by
  have hmin := mp.min_sectsize
  have hmax := mp.max_sectsize
  rw [XFS_AGFL_SIZE]
  split_ifs <;> omega

/-! ## The code -/

/-- A call `addtohist(agno, agbno, len)`. -/
structure Call where
  agno : BitVec 32
  agbno : BitVec 32
  len : BitVec 32
  deriving DecidableEq

/-- Why a scan does not come back. -/
inductive Stuck where
  | tooDeep
  | overflow
  | endless
  deriving DecidableEq

/-- A scan: the calls it made, in order. -/
abbrev Scan := Except Stuck (List Call)

/-- `nlevels - 1`, on an `int`. -/
def minus_one (nlevels : ℤ) : Except Stuck ℤ :=
  if nlevels = -2 ^ 31 then .error .overflow else .ok (nlevels - 1)

/-- The loop over the first `n` entries of a block. -/
def for_entries (entry : ℕ → Scan) : ℕ → Scan
  | 0 => .ok []
  | n + 1 => do
      let calls ← for_entries entry n
      let more ← entry n
      .ok (calls ++ more)

/-- The block belongs to a by-block free-space btree. -/
def is_abtb (block : xfs_btree_block) : Prop :=
  block.bb_magic = XFS_ABTB_MAGIC ∨ block.bb_magic = XFS_ABTB_CRC_MAGIC

instance (block : xfs_btree_block) : Decidable (is_abtb block) :=
  inferInstanceAs (Decidable (_ ∨ _))

/-- The calls a leaf makes. -/
def leaf_calls (seqno : BitVec 32) (block : xfs_btree_block) : List Call :=
  (List.range block.bb_numrecs.toNat).map fun i =>
    ⟨seqno, (block.rp i).ar_startblock, (block.rp i).ar_blockcount⟩

/-- `scanfunc_bno`, given what `scan_sbtree` does with a pointer and a level. -/
def scanfunc_bno (scan_sbtree : BitVec 32 → ℤ → Scan) (block : xfs_btree_block) (level : ℤ)
    (agf : xfs_agf) : Scan :=
  if ¬ is_abtb block then .ok []
  else if level = 0 then .ok (leaf_calls agf.agf_seqno block)
  else for_entries (fun i => scan_sbtree (block.pp i) level) block.bb_numrecs.toNat

/-- `scan_sbtree`, with this many frames left on the stack. -/
def scan_sbtree (mp : xfs_mount) (agf : xfs_agf) : ℕ → BitVec 32 → ℤ → Scan
  | 0, _, _ => .error .tooDeep
  | frames + 1, root, nlevels =>
      match mp.agblock agf.agf_seqno root with
      | none => .ok []
      | some data => do
          let level ← minus_one nlevels
          scanfunc_bno (scan_sbtree mp agf frames) data level agf

/-- The loop of `scan_freelist`. -/
def freelist_loop (mp : xfs_mount) (agf : xfs_agf) : ℕ → ℕ → Scan
  | 0, _ => .error .endless
  | fuel + 1, i => do
      let call : Call := ⟨agf.agf_seqno, mp.agfl_bno agf.agf_seqno i, 1⟩
      if i = agf.agf_fllast.toNat then .ok [call]
      else
        let rest ← freelist_loop mp agf fuel (if i + 1 = XFS_AGFL_SIZE mp then 0 else i + 1)
        .ok (call :: rest)

/-- `scan_freelist`. The loop is round after as many passes as the list has entries. -/
def scan_freelist (mp : xfs_mount) (agf : xfs_agf) : Scan :=
  if agf.agf_flcount = 0 then .ok []
  else if XFS_AGFL_SIZE mp ≤ agf.agf_flfirst.toNat ∨ XFS_AGFL_SIZE mp ≤ agf.agf_fllast.toNat then
    .ok []
  else freelist_loop mp agf (XFS_AGFL_SIZE mp) agf.agf_flfirst.toNat

/-- `scan_ag`, with this many frames for the recursion. The level is a `be32` on the disk
and an `int` from here on. -/
def scan_ag (mp : xfs_mount) (frames : ℕ) (agno : BitVec 32) : Scan := do
  let agf := mp.agf agno
  let freelist ← scan_freelist mp agf
  let tree ← scan_sbtree mp agf frames agf.agf_roots_bno (i32 agf.agf_levels_bno.toNat)
  .ok (freelist ++ tree)

/-! ## The loop over a block's entries -/

@[simp] theorem ok_bind {α β : Type} (a : α) (f : α → Except Stuck β) :
    ((Except.ok a : Except Stuck α) >>= f) = f a := rfl

@[simp] theorem error_bind {α β : Type} (s : Stuck) (f : α → Except Stuck β) :
    ((Except.error s : Except Stuck α) >>= f) = .error s := rfl

/-- A scan that came back. -/
def ended (s : Scan) : Prop := ∃ calls, s = .ok calls

@[simp] theorem ended_ok (calls : List Call) : ended (.ok calls) := ⟨calls, rfl⟩

@[simp] theorem not_ended_error (s : Stuck) : ¬ ended (.error s) := nofun

/-- Entries that come back make the calls of each, one entry after the other. -/
theorem for_entries_ok {entry : ℕ → Scan} {calls : ℕ → List Call} :
    ∀ {n : ℕ}, (∀ i < n, entry i = .ok (calls i)) →
      for_entries entry n = .ok ((List.range n).flatMap calls) := by
  intro n
  induction n with
  | zero => intro _; rfl
  | succ n ih =>
      intro h
      rw [for_entries, ih fun i hi => h i (by omega), ok_bind, h n (by omega), ok_bind,
        List.range_succ, List.flatMap_append, List.flatMap_singleton]

/-- The loop comes back when every entry does. -/
theorem ended_for_entries {entry : ℕ → Scan} {n : ℕ} :
    ended (for_entries entry n) ↔ ∀ i < n, ended (entry i) := by
  induction n with
  | zero =>
      constructor
      · intro _ i hi
        omega
      · intro _
        exact ended_ok []
  | succ n ih =>
      rw [Nat.forall_lt_succ_right, ← ih, for_entries]
      cases for_entries entry n with
      | error s => simp
      | ok calls => cases entry n <;> simp

/-! ## The free list -/

/-- The entries on the way round a ring of `size`, from one to another. -/
def ring_path (size first last : ℕ) : List ℕ :=
  (List.range ((last + size - first) % size + 1)).map fun k => (first + k) % size

/-- The path starts where it is told to, and goes on from the next entry. -/
theorem ring_path_step {size first last : ℕ} (hf : first < size) (hl : last < size)
    (hne : first ≠ last) :
    ring_path size first last
      = first :: ring_path size (if first + 1 = size then 0 else first + 1) last := by
  have hnext : (if first + 1 = size then 0 else first + 1) = (first + 1) % size := by
    split_ifs with h
    · rw [h, Nat.mod_self]
    · exact (Nat.mod_eq_of_lt (by omega)).symm
  -- one step further on, the way that is left is one shorter
  have hlen : (last + size - first) % size
      = (last + size - (first + 1) % size) % size + 1 := by
    rw [← hnext]
    split_ifs with h
    · rcases Nat.lt_or_ge first last with hlt | hge
      · omega
      · rw [Nat.mod_eq_of_lt (by omega), Nat.sub_zero, Nat.add_mod_right, Nat.mod_eq_of_lt hl]
        omega
    · rcases Nat.lt_or_ge first last with hlt | hge
      · have h1 : last + size - first = (last - first) + size := by omega
        have h2 : last + size - (first + 1) = (last - (first + 1)) + size := by omega
        rw [h1, h2, Nat.add_mod_right, Nat.add_mod_right, Nat.mod_eq_of_lt (by omega),
          Nat.mod_eq_of_lt (by omega)]
        omega
      · rw [Nat.mod_eq_of_lt (by omega), Nat.mod_eq_of_lt (by omega)]
        omega
  rw [ring_path, hlen, List.range_succ_eq_map, List.map_cons, List.map_map, Nat.add_zero,
    Nat.mod_eq_of_lt hf, ring_path, hnext]
  congr 1
  apply List.map_congr_left
  intro k _
  rw [Function.comp_apply, Nat.mod_add_mod, Nat.succ_eq_add_one]
  congr 1
  omega

theorem ring_path_self {size last : ℕ} (hl : last < size) : ring_path size last last = [last] := by
  rw [ring_path, Nat.add_sub_cancel_left, Nat.mod_self]
  simp [Nat.mod_eq_of_lt hl]

/-- No entry of the ring is on the path twice. -/
theorem ring_path_nodup {size first last : ℕ} (hs : 0 < size) :
    (ring_path size first last).Nodup := by
  rw [ring_path]
  apply List.Nodup.map_on _ List.nodup_range
  intro j hj k hk heq
  rw [List.mem_range] at hj hk
  have hlt : (last + size - first) % size < size := Nat.mod_lt _ hs
  have hmod : j % size = k % size := Nat.ModEq.add_left_cancel' first heq
  rwa [Nat.mod_eq_of_lt (by omega), Nat.mod_eq_of_lt (by omega)] at hmod

/-- The calls for the entries of the free list on a path. -/
def freelist_calls (mp : xfs_mount) (seqno : BitVec 32) (path : List ℕ) : List Call :=
  path.map fun i => ⟨seqno, mp.agfl_bno seqno i, 1⟩

/-- The loop goes round to the last entry; what is left of the way pays for it. -/
theorem freelist_loop_eq {mp : xfs_mount} {agf : xfs_agf}
    (hlast : agf.agf_fllast.toNat < XFS_AGFL_SIZE mp) :
    ∀ (fuel i : ℕ), i < XFS_AGFL_SIZE mp →
      (ring_path (XFS_AGFL_SIZE mp) i agf.agf_fllast.toNat).length ≤ fuel →
      freelist_loop mp agf fuel i = .ok (freelist_calls mp agf.agf_seqno
        (ring_path (XFS_AGFL_SIZE mp) i agf.agf_fllast.toNat)) := by
  intro fuel
  induction fuel with
  | zero =>
      intro i _ hlen
      rw [ring_path, List.length_map, List.length_range] at hlen
      omega
  | succ fuel ih =>
      intro i hi hlen
      rw [freelist_loop]
      by_cases heq : i = agf.agf_fllast.toNat
      · rw [if_pos heq, ← heq, ring_path_self hi]
        rfl
      · rw [ring_path_step hi hlast heq] at hlen ⊢
        rw [List.length_cons] at hlen
        have hnext : (if i + 1 = XFS_AGFL_SIZE mp then 0 else i + 1) < XFS_AGFL_SIZE mp := by
          split_ifs <;> omega
        rw [if_neg heq, ih _ hnext (by omega)]
        rfl

theorem length_ring_path_le {size first last : ℕ} (hs : 0 < size) :
    (ring_path size first last).length ≤ size := by
  have hlt : (last + size - first) % size < size := Nat.mod_lt _ hs
  rw [ring_path, List.length_map, List.length_range]
  omega

/-- **The free list**, for indices inside it. The list is a ring: the index goes up from the first
to the last and starts again at 0 behind the end of the array. -/
theorem scan_freelist_eq {mp : xfs_mount} {agf : xfs_agf}
    (hfirst : agf.agf_flfirst.toNat < XFS_AGFL_SIZE mp)
    (hlast : agf.agf_fllast.toNat < XFS_AGFL_SIZE mp) :
    scan_freelist mp agf = .ok (if agf.agf_flcount = 0 then []
      else freelist_calls mp agf.agf_seqno
        (ring_path (XFS_AGFL_SIZE mp) agf.agf_flfirst.toNat agf.agf_fllast.toNat)) := by
  rw [scan_freelist]
  split_ifs with hcount hout
  · rfl
  · omega
  · exact freelist_loop_eq hlast _ _ hfirst (length_ring_path_le (by omega))

/-- The free list comes to an end whatever its indices are. -/
theorem ended_scan_freelist (mp : xfs_mount) (agf : xfs_agf) : ended (scan_freelist mp agf) := by
  by_cases hin : agf.agf_flfirst.toNat < XFS_AGFL_SIZE mp ∧ agf.agf_fllast.toNat < XFS_AGFL_SIZE mp
  · rw [scan_freelist_eq hin.1 hin.2]
    exact ended_ok _
  · rw [scan_freelist]
    split_ifs with hcount hout
    · exact ended_ok []
    · exact ended_ok []
    · omega

/-! ## A well-formed tree

It is a relation between a block, a height and the records below; the blocks are those of the
disk, so a tree is not a value either. -/

/-- The node at a block and all below it are well formed, each with its height for a level,
and the leaves hold these records. -/
inductive holds (mp : xfs_mount) (seqno : BitVec 32) :
    ℕ → BitVec 32 → List xfs_alloc_rec → Prop
  | leaf {agbno : BitVec 32} {block : xfs_btree_block} :
      mp.agblock seqno agbno = some block → is_abtb block → block.bb_level.toNat = 0 →
      holds mp seqno 0 agbno ((List.range block.bb_numrecs.toNat).map block.rp)
  | node {height : ℕ} {agbno : BitVec 32} {block : xfs_btree_block}
      {below : ℕ → List xfs_alloc_rec} :
      mp.agblock seqno agbno = some block → is_abtb block → block.bb_level.toNat = height + 1 →
      (∀ i < block.bb_numrecs.toNat, holds mp seqno height (block.pp i) (below i)) →
      holds mp seqno (height + 1) agbno ((List.range block.bb_numrecs.toNat).flatMap below)

/-- The calls for the records of a tree. -/
def tree_calls (seqno : BitVec 32) (recs : List xfs_alloc_rec) : List Call :=
  recs.map fun r => ⟨seqno, r.ar_startblock, r.ar_blockcount⟩

theorem minus_one_of_pos {n : ℕ} : minus_one ((n : ℤ) + 1) = .ok (n : ℤ) := by
  rw [minus_one, if_neg (by omega), Int.add_sub_cancel]

/-- **The scan of a well-formed tree**: told the height, it reaches the leaves and nothing else.
By induction on the tree, with the level going down by one a node. A node calls itself for its
children with a level less, and at level 0 the block is taken for a leaf, which is what it is when
the header has told the height. -/
theorem scan_sbtree_eq {mp : xfs_mount} {agf : xfs_agf} {height : ℕ} {root : BitVec 32}
    {recs : List xfs_alloc_rec} (h : holds mp agf.agf_seqno height root recs) :
    ∀ {frames : ℕ}, height < frames →
      scan_sbtree mp agf frames root ((height : ℤ) + 1) = .ok (tree_calls agf.agf_seqno recs) := by
  induction h with
  | @leaf agbno block hread hmagic _ =>
      intro frames hframes
      obtain ⟨frames, rfl⟩ : ∃ k, frames = k + 1 := ⟨frames - 1, by omega⟩
      rw [scan_sbtree, hread]
      simp only [minus_one_of_pos, ok_bind]
      rw [scanfunc_bno, if_neg (not_not.mpr hmagic),
        if_pos (Int.natCast_eq_zero.mpr rfl), leaf_calls, tree_calls,
        List.map_map]
      rfl
  | @node height agbno block below hread hmagic _ _ ih =>
      intro frames hframes
      obtain ⟨frames, rfl⟩ : ∃ k, frames = k + 1 := ⟨frames - 1, by omega⟩
      have hbelow : ∀ i < block.bb_numrecs.toNat,
          scan_sbtree mp agf frames (block.pp i) ((height : ℤ) + 1)
            = .ok (tree_calls agf.agf_seqno (below i)) :=
        fun i hi => ih i hi (by omega)
      rw [scan_sbtree, hread]
      simp only [minus_one_of_pos, ok_bind]
      rw [scanfunc_bno, if_neg (not_not.mpr hmagic), if_neg (by omega), Nat.cast_succ,
        for_entries_ok hbelow, tree_calls, List.map_flatMap]
      rfl

/-- A block has 16 bits for its level. -/
theorem holds.height_lt {mp : xfs_mount} {seqno : BitVec 32} {height : ℕ} {root : BitVec 32}
    {recs : List xfs_alloc_rec} (h : holds mp seqno height root recs) : height < 65536 := by
  cases h with
  | leaf _ _ _ => omega
  | @node _ _ block _ _ _ hlevel _ =>
      have hlt := block.bb_level.isLt
      omega

/-- **The scan visits exactly the free space** of a group: the entries of its free list from the
first to the last, where it has any, and the records of its tree, each once and under the number
the group's header gives it. A frame for each level is enough. The calls are a list, in the order
in which they are made, so that each is made once is part of the equation. -/
theorem scan_ag_visits {mp : xfs_mount} {agno : BitVec 32} {recs : List xfs_alloc_rec}
    {height : ℕ} (hlevels : (mp.agf agno).agf_levels_bno.toNat = height + 1)
    (htree : holds mp (mp.agf agno).agf_seqno height (mp.agf agno).agf_roots_bno recs)
    (hfirst : (mp.agf agno).agf_flfirst.toNat < XFS_AGFL_SIZE mp)
    (hlast : (mp.agf agno).agf_fllast.toNat < XFS_AGFL_SIZE mp) :
    ∀ frames, (mp.agf agno).agf_levels_bno.toNat ≤ frames → scan_ag mp frames agno = .ok
      ((if (mp.agf agno).agf_flcount = 0 then []
        else freelist_calls mp (mp.agf agno).agf_seqno (ring_path (XFS_AGFL_SIZE mp)
          (mp.agf agno).agf_flfirst.toNat (mp.agf agno).agf_fllast.toNat))
        ++ tree_calls (mp.agf agno).agf_seqno recs) := by
  intro frames hframes
  have hheight := htree.height_lt
  have hint : i32 (mp.agf agno).agf_levels_bno.toNat = (height : ℤ) + 1 := by
    rw [i32_of_lt (by omega), hlevels, Nat.cast_succ]
  simp only [scan_ag, scan_freelist_eq hfirst hlast, hint,
    scan_sbtree_eq htree (show height < frames by omega), ok_bind]

/-- A leaf with two extents. -/
def two_extents : xfs_btree_block :=
  ⟨XFS_ABTB_CRC_MAGIC, 0, 2, fun i => ⟨BitVec.ofNat 32 (200 + 50 * i), 7⟩, fun _ => 0⟩

/-- A root over one child, at block 2. -/
def root_of_one : xfs_btree_block := ⟨XFS_ABTB_CRC_MAGIC, 1, 1, fun _ => ⟨0, 0⟩, fun _ => 2⟩

/-- Groups with a tree of two levels, and a free list that goes over the end of its 119
entries. -/
def two_level_mount : xfs_mount where
  sb_sectsize := 512
  hascrc := true
  agf := fun agno => ⟨agno, 1, 2, 118, 0, 2⟩
  agfl_bno := fun _ i => BitVec.ofNat 32 (i + 10)
  agblock := fun _ agbno => if agbno = 1 then some root_of_one else some two_extents
  min_sectsize := by omega
  max_sectsize := by omega

theorem two_level_mount_holds : holds two_level_mount 3 1 1 [⟨200, 7⟩, ⟨250, 7⟩] := by
  have hleaf : holds two_level_mount 3 0 2 [⟨200, 7⟩, ⟨250, 7⟩] :=
    @holds.leaf two_level_mount 3 2 two_extents rfl (Or.inr rfl) rfl
  exact @holds.node two_level_mount 3 0 1 root_of_one (fun _ => [⟨200, 7⟩, ⟨250, 7⟩]) rfl
    (Or.inr rfl) rfl fun _ _ => hleaf

theorem two_level_visits :
    scan_ag two_level_mount 2 3
      = .ok [⟨3, 128, 1⟩, ⟨3, 10, 1⟩, ⟨3, 200, 7⟩, ⟨3, 250, 7⟩] :=
  @scan_ag_visits two_level_mount 3 _ 1 rfl two_level_mount_holds (by decide) (by decide) 2
    (by decide)

/-! ## How deep the scan goes

Nothing is asked of the blocks here. The level alone has to end the way down, or the blocks
happen to. -/

/-- A way down the tree of this many pointers, over blocks that are taken for nodes of it. -/
def descends (mp : xfs_mount) (seqno : BitVec 32) : ℕ → BitVec 32 → Prop
  | 0, agbno => ∃ block, mp.agblock seqno agbno = some block
  | depth + 1, agbno => ∃ block, mp.agblock seqno agbno = some block ∧ is_abtb block ∧
      ∃ i < block.bb_numrecs.toNat, descends mp seqno depth (block.pp i)

/-- Counting down from a positive level reaches 0 in time, whatever the blocks hold. A block that
is no node, or cannot be read, ends the way earlier. -/
theorem ended_scan_sbtree_of_pos (mp : xfs_mount) (agf : xfs_agf) :
    ∀ (frames level : ℕ) (root : BitVec 32), level < frames →
      ended (scan_sbtree mp agf frames root ((level : ℤ) + 1)) := by
  intro frames
  induction frames with
  | zero => intro level root h; omega
  | succ frames ih =>
      intro level root h
      rw [scan_sbtree]
      cases mp.agblock agf.agf_seqno root with
      | none => exact ended_ok []
      | some block =>
          simp only [minus_one_of_pos, ok_bind]
          rw [scanfunc_bno]
          split_ifs with hmagic hlevel
          · exact ended_ok _
          · obtain ⟨below, rfl⟩ : ∃ k, level = k + 1 := ⟨level - 1, by omega⟩
            rw [ended_for_entries, Nat.cast_succ]
            intro i _
            exact ih below (block.pp i) (by omega)
          · exact ended_ok []

/-- Counting down from a negative level, the scan comes back when no way leads down as far
as `INT_MIN`. -/
theorem ended_scan_sbtree_of_neg (mp : xfs_mount) (agf : xfs_agf) :
    ∀ (left frames : ℕ) (root : BitVec 32), left < frames → left < 2 ^ 31 →
      (ended (scan_sbtree mp agf frames root (-2 ^ 31 + (left : ℤ)))
        ↔ ¬ descends mp agf.agf_seqno left root) := by
  intro left
  -- on the levels down to the least `int`, where the decrement overflows
  induction left with
  | zero =>
      intro frames root hframes _
      obtain ⟨frames, rfl⟩ : ∃ k, frames = k + 1 := ⟨frames - 1, by omega⟩
      rw [scan_sbtree, descends]
      cases mp.agblock agf.agf_seqno root with
      | none => simp
      | some block => simp [minus_one]
  | succ left ih =>
      intro frames root hframes hleft
      obtain ⟨frames, rfl⟩ : ∃ k, frames = k + 1 := ⟨frames - 1, by omega⟩
      have hdec : minus_one (-2 ^ 31 + ((left + 1 : ℕ) : ℤ)) = .ok (-2 ^ 31 + (left : ℤ)) := by
        rw [minus_one, if_neg (by omega)]
        congr 1
        omega
      rw [scan_sbtree, descends]
      cases mp.agblock agf.agf_seqno root with
      | none => simp
      | some block =>
          simp only [hdec, ok_bind]
          rw [scanfunc_bno, if_neg (show ¬ (-2 ^ 31 + (left : ℤ)) = 0 by omega)]
          by_cases hmagic : is_abtb block
          · rw [if_neg (not_not.mpr hmagic), ended_for_entries]
            simp only [ih frames _ (show left < frames by omega) (by omega), Option.some.injEq]
            simp [hmagic]
          · rw [if_pos hmagic]
            simp [hmagic]

theorem i32_of_ge {n : ℕ} (h : n < 2 ^ 32) (h31 : 2 ^ 31 ≤ n) :
    i32 n = -2 ^ 31 + ((n - 2 ^ 31 : ℕ) : ℤ) := by
  rw [i32, u32_of_lt h, if_neg (by omega)]
  omega

/-- **When the scan ends in as many frames as the header says levels**: there is a level, and
either it is a positive `int`, or the blocks end the way down before the count has come to
`INT_MIN`. A level that is not positive is counted down without meeting 0, and overflows below
`INT_MIN` unless every way down has ended before: at a block that cannot be read or is no node, or
at a node without children. -/
theorem scan_ag_ends_iff (mp : xfs_mount) (agno : BitVec 32) :
    ended (scan_ag mp (mp.agf agno).agf_levels_bno.toNat agno) ↔
      (mp.agf agno).agf_levels_bno ≠ 0 ∧
        ((mp.agf agno).agf_levels_bno.toNat < 2147483648 ∨
          ¬ descends mp (mp.agf agno).agf_seqno
            ((mp.agf agno).agf_levels_bno.toNat - 2147483648) (mp.agf agno).agf_roots_bno) := by
  obtain ⟨freelist, hfree⟩ := ended_scan_freelist mp (mp.agf agno)
  -- the free list always ends, so it is the tree that decides
  have hscan : ∀ frames, ended (scan_ag mp frames agno) ↔
      ended (scan_sbtree mp (mp.agf agno) frames (mp.agf agno).agf_roots_bno
        (i32 (mp.agf agno).agf_levels_bno.toNat)) := by
    intro frames
    simp only [scan_ag, hfree, ok_bind]
    cases scan_sbtree mp (mp.agf agno) frames (mp.agf agno).agf_roots_bno
      (i32 (mp.agf agno).agf_levels_bno.toNat) <;> simp
  have hlt := (mp.agf agno).agf_levels_bno.isLt
  have hzero : (mp.agf agno).agf_levels_bno = 0 ↔ (mp.agf agno).agf_levels_bno.toNat = 0 := by
    rw [← BitVec.toNat_inj]
    rfl
  rw [hscan, ne_eq, hzero]
  generalize (mp.agf agno).agf_levels_bno.toNat = levels at hlt
  -- as an `int` the levels are zero, positive, or negative from 2 ^ 31 on
  rcases Nat.eq_zero_or_pos levels with rfl | hpos
  · simp [scan_sbtree]
  rcases Nat.lt_or_ge levels (2 ^ 31) with h31 | h31
  · obtain ⟨level, rfl⟩ : ∃ k, levels = k + 1 := ⟨levels - 1, by omega⟩
    rw [i32_of_lt h31, Nat.cast_succ]
    exact iff_of_true (ended_scan_sbtree_of_pos mp _ _ _ _ (by omega)) ⟨by omega, Or.inl h31⟩
  · rw [i32_of_ge hlt h31, ended_scan_sbtree_of_neg mp _ _ _ _ (by omega) (by omega)]
    constructor
    · intro h
      exact ⟨by omega, Or.inr h⟩
    · rintro ⟨-, h | h⟩
      · omega
      · exact h

/-- A node whose one child is block 1. -/
def points_to_one : xfs_btree_block := ⟨XFS_ABTB_CRC_MAGIC, 0, 1, fun _ => ⟨0, 0⟩, fun _ => 1⟩

/-- Headers that say 0 levels, over a block 1 that points to itself. -/
def looping_mount : xfs_mount where
  sb_sectsize := 512
  hascrc := true
  agf := fun agno => ⟨agno, 1, 0, 0, 0, 0⟩
  agfl_bno := fun _ _ => 0
  agblock := fun _ _ => some points_to_one
  min_sectsize := by omega
  max_sectsize := by omega

/-- Under a level that is not positive, a block that points to itself takes whatever
frames there are. -/
theorem looping_mount_too_deep (agf : xfs_agf) :
    ∀ (frames : ℕ) (nlevels : ℤ), nlevels ≤ 0 → -2 ^ 31 + (frames : ℤ) ≤ nlevels →
      scan_sbtree looping_mount agf frames 1 nlevels = .error .tooDeep := by
  intro frames
  induction frames with
  | zero => intro nlevels _ _; rfl
  | succ frames ih =>
      intro nlevels h0 hmin
      have hdec : minus_one nlevels = .ok (nlevels - 1) := by
        rw [minus_one, if_neg (by omega)]
      have hread : looping_mount.agblock agf.agf_seqno 1 = some points_to_one := rfl
      have hmagic : is_abtb points_to_one := Or.inr rfl
      have hone : points_to_one.bb_numrecs.toNat = 1 := rfl
      have hchild : points_to_one.pp 0 = 1 := rfl
      rw [scan_sbtree, hread]
      simp only [hdec, ok_bind]
      rw [scanfunc_bno, if_neg (not_not.mpr hmagic), if_neg (by omega), hone, for_entries,
        for_entries, ok_bind, hchild, ih (nlevels - 1) (by omega) (by omega), error_bind]

theorem looping_mount_not_ended :
    ¬ ended (scan_ag looping_mount (looping_mount.agf 0).agf_levels_bno.toNat 0) ∧
      ∀ frames ≤ 2 ^ 31, scan_ag looping_mount frames 0 = .error .tooDeep := by
  have hdeep : ∀ frames ≤ 2 ^ 31, scan_ag looping_mount frames 0 = .error .tooDeep := by
    intro frames hframes
    have hfree : scan_freelist looping_mount (looping_mount.agf 0) = .ok [] := rfl
    have hroot : scan_sbtree looping_mount (looping_mount.agf 0) frames
        (looping_mount.agf 0).agf_roots_bno (i32 (looping_mount.agf 0).agf_levels_bno.toNat)
          = .error .tooDeep :=
      looping_mount_too_deep (looping_mount.agf 0) frames 0 le_rfl (by omega)
    simp only [scan_ag, hfree, hroot, ok_bind, error_bind]
  constructor
  · have hnone : (looping_mount.agf 0).agf_levels_bno.toNat = 0 := rfl
    rw [hnone, hdeep 0 (Nat.zero_le _)]
    exact not_ended_error _
  · exact hdeep

end SysbakAdmin.Xfs

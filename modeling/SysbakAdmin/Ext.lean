/-
The bitmap of an ext2/3/4 file system, as `gdbus-extfs.c` takes it from libext2fs.

`read_bitmap_info` copies the block map group by group, and counts what is free on the way,
in the group and over all. A block number runs from `s_first_data_block` on; the guard of the
inner loop looks at the block of the pass before, which is 0 before the first. A range of
the block map is read into a buffer, and where there is no memory for it nothing is copied.

What the library knows of the file system is a parameter, `ext2_filsys`.

What the two loops do is one relation (`visited`): the bits of a range are those of the map, and
what is free in it has been counted. One block establishes it (`visited_block`), ranges that
follow each other compose (`visited.trans`), and so the blocks of a group and the groups of the
file system are inductions of the same shape (`group_blocks_visits`, `for_groups_visits`). The
count at the end is compared with the free blocks of the super block, which is what makes the
bitmap agree with it.
-/
import SysbakAdmin.FatUsed

set_option autoImplicit false

namespace SysbakAdmin.Ext

open CInt Bitmap Share
open Fat (strncpy FS_MAGIC_SIZE)

/-! ## The library -/

/-- A file system that `ext2fs_open` returned: what its super block and group descriptors
say, and the block map where `ext2fs_read_bitmaps` could read it. A block that is in use is
`true` there. -/
structure ext2_filsys where
  s_state : BitVec 16
  s_mnt_count : BitVec 16
  s_max_mnt_count : BitVec 16
  s_first_data_block : BitVec 32
  s_log_block_size : BitVec 32
  s_blocks_per_group : BitVec 32
  s_feature_ro_compat : BitVec 32
  blocks_count : BitVec 64
  free_blocks_count : BitVec 64
  group_desc_count : BitVec 32
  bg_flags : ℕ → BitVec 16
  bg_free_blocks_count : ℕ → BitVec 32
  block_map : Option (ℕ → Bool)

def EXT2_VALID_FS : BitVec 16 := 0x0001

def EXT2_ERROR_FS : BitVec 16 := 0x0002

def EXT4_FEATURE_RO_COMPAT_GDT_CSUM : BitVec 32 := 0x0010

def EXT2_BG_BLOCK_UNINIT : BitVec 16 := 0x0002

/-- `ext2fs_get_block_bitmap_range2`: the buffer it fills, by its bits. -/
def ext2fs_get_block_bitmap_range2 (block_map : ℕ → Bool) (start num : ℕ) : ℕ → Bool :=
  fun x => decide (x < num) && block_map (start + x)

/-! ## The code -/

/-- `open_file_system`. The library's own flag is set before it is tested; what is left are
the state and the mount count of the super block. -/
def open_file_system (opened : Option ext2_filsys) : Option ext2_filsys :=
  match opened with
  | none => none
  | some fs =>
      if fs.s_state &&& EXT2_ERROR_FS ≠ 0 then none
      else if fs.s_state &&& EXT2_VALID_FS = 0 then none
      else if 0 < fs.s_max_mnt_count.toInt ∧ fs.s_max_mnt_count.toInt ≤ (fs.s_mnt_count.toNat : ℤ)
      then none
      else some fs

/-- The variables of the loops. -/
structure Counts where
  current_block : ℕ
  lfree : ℕ
  gfree : ℕ
  bm : bitmap

/-- The loop over the blocks of a group, `left` of them still to come. `none` is
`return FALSE`. -/
def group_blocks (block_bitmap : ℕ → Bool) (totalblock blk_itr : ℕ) :
    ℕ → ℕ → Counts → Option Counts
  | 0, _, c => some c
  | left + 1, block, c =>
      if c.current_block < u64 (totalblock + (2 ^ 64 - 1)) then
        let current_block := block + blk_itr
        if block_bitmap block then
          let (set, bm) := pc_set_bit current_block c.bm totalblock
          if ¬ set then none
          else group_blocks block_bitmap totalblock blk_itr left (block + 1)
            { c with current_block := current_block, bm := bm }
        else
          let (cleared, bm) := pc_clear_bit current_block c.bm totalblock
          if ¬ cleared then none
          else group_blocks block_bitmap totalblock blk_itr left (block + 1)
            ⟨current_block, c.lfree + 1, c.gfree + 1, bm⟩
      else some c

/-- `B_UN_INIT`, which is looked at only under `GDT_CSUM`. -/
def B_UN_INIT (extfs : ext2_filsys) (group : ℕ) : Bool :=
  decide (extfs.s_feature_ro_compat &&& EXT4_FEATURE_RO_COMPAT_GDT_CSUM ≠ 0) &&
    decide (extfs.bg_flags group &&& EXT2_BG_BLOCK_UNINIT ≠ 0)

/-- The loop over the groups. Without a buffer no block is copied, no flag looked at and
`blk_itr` stays where it is; the count of the group is compared all the same. -/
def for_groups (extfs : ext2_filsys) (block_map : ℕ → Bool) (buffer : Bool) (totalblock : ℕ) :
    ℕ → ℕ → ℕ → Counts → Option Counts
  | 0, _, _, c => some c
  | left + 1, group, blk_itr, c =>
      if buffer then
        let num := extfs.s_blocks_per_group.toNat / 8 * 8
        let block_bitmap := ext2fs_get_block_bitmap_range2 block_map blk_itr num
        match group_blocks block_bitmap totalblock blk_itr extfs.s_blocks_per_group.toNat 0
            { c with gfree := 0 } with
        | none => none
        | some c =>
            if c.gfree ≠ (extfs.bg_free_blocks_count group).toNat ∧ ¬ B_UN_INIT extfs group then none
            else for_groups extfs block_map buffer totalblock left (group + 1)
              (blk_itr + extfs.s_blocks_per_group.toNat) c
      else if 0 ≠ (extfs.bg_free_blocks_count group).toNat then none
      else for_groups extfs block_map buffer totalblock left (group + 1) blk_itr
        { c with gfree := 0 }

/-- `read_bitmap_info`: the bitmap, where it returns `TRUE`. -/
def read_bitmap_info (malloc : ℕ → Bool) (opened : Option ext2_filsys)
    (fs_info : file_system_info) (bm : bitmap) : Option bitmap :=
  match open_file_system opened with
  | none => none
  | some extfs =>
      match extfs.block_map with
      | none => none
      | some block_map =>
          let buffer := malloc (extfs.s_blocks_per_group.toNat / 8)
          let bm := pc_init_bitmap bm 0xFF fs_info.totalblock.toNat
          match for_groups extfs block_map buffer fs_info.totalblock.toNat
              extfs.group_desc_count.toNat 0 extfs.s_first_data_block.toNat ⟨0, 0, 0, bm⟩ with
          | none => none
          | some c => if c.lfree ≠ extfs.free_blocks_count.toNat then none else some c.bm

/-- `read_super_blocks`: the description of the file system, where it returns `TRUE`. -/
def read_super_blocks (opened : Option ext2_filsys) (fs_info : file_system_info) :
    Option file_system_info :=
  match open_file_system opened with
  | none => none
  | some extfs =>
      let block_size := 1024#32 <<< extfs.s_log_block_size.toNat
      some { fs_info with
        fs := strncpy fs_info.fs [0x45, 0x58, 0x54, 0x46, 0x53] FS_MAGIC_SIZE
        block_size := block_size
        totalblock := extfs.blocks_count
        usedblocks := extfs.blocks_count - extfs.free_blocks_count
        device_size := block_size.setWidth 64 * extfs.blocks_count }

/-! ## What is free -/

/-- The blocks from `lo` on and below `hi` that the map says are free. -/
def free_in (block_map : ℕ → Bool) (lo hi : ℕ) : ℕ :=
  (List.range' lo (hi - lo)).countP fun b => !block_map b

@[simp] theorem free_in_of_ge {block_map : ℕ → Bool} {lo hi : ℕ} (h : hi ≤ lo) :
    free_in block_map lo hi = 0 := by
  rw [free_in, Nat.sub_eq_zero_of_le h, List.range'_zero, List.countP_nil]

/-- The first block is counted where it is free. -/
theorem free_in_step {block_map : ℕ → Bool} {lo hi : ℕ} (h : lo < hi) :
    free_in block_map lo hi = free_in block_map (lo + 1) hi + if block_map lo then 0 else 1 := by
  have hlen : hi - lo = (hi - (lo + 1)) + 1 := by omega
  rw [free_in, hlen, List.range'_succ, List.countP_cons, ← free_in]
  cases block_map lo <;> rfl

/-- Counting on from where one count ended. -/
theorem free_in_append (block_map : ℕ → Bool) {lo mid hi : ℕ} (h1 : lo ≤ mid) (h2 : mid ≤ hi) :
    free_in block_map lo mid + free_in block_map mid hi = free_in block_map lo hi := by
  have hsplit : hi - lo = (mid - lo) + (hi - mid) := by omega
  have hmid : mid = lo + 1 * (mid - lo) := by omega
  rw [free_in, free_in, free_in, hsplit, ← List.range'_append, List.countP_append, ← hmid]

theorem free_in_le (block_map : ℕ → Bool) (lo hi : ℕ) : free_in block_map lo hi ≤ hi - lo := by
  have hle := List.countP_le_length (p := fun b => !block_map b) (l := List.range' lo (hi - lo))
  rwa [List.length_range'] at hle

/-! ## The loops

The guard of the inner loop is about the block before, so the state carries whether there is a
next one. -/

section Loops

variable {block_map : ℕ → Bool} {totalblock : ℕ}

/-- The guard of the inner loop is put on the number before: it holds when block `p` is
still one of the file system. -/
def about_to_visit (totalblock p : ℕ) (c : Counts) : Prop :=
  c.current_block < totalblock - 1 ↔ p < totalblock

/-- After the blocks from `lo` on and below `hi`, as far as there are any: their bits are
those of the map, the others are as they were, and the free ones have been counted. -/
structure visited (block_map : ℕ → Bool) (totalblock lo hi : ℕ) (c c' : Counts) : Prop where
  next : about_to_visit totalblock hi c'
  length : c'.bm.length = c.bm.length
  bits : ∀ b, bit c'.bm b = if lo ≤ b ∧ b < min hi totalblock then block_map b else bit c.bm b
  lfree : c'.lfree = c.lfree + free_in block_map lo (min hi totalblock)

/-- Behind the last block there is nothing to visit. -/
theorem visited_of_ge {lo hi : ℕ} {c : Counts} (h : totalblock ≤ lo) (hle : lo ≤ hi)
    (hat : about_to_visit totalblock lo c) : visited block_map totalblock lo hi c c := by
  have hnone : min hi totalblock ≤ lo := by omega
  unfold about_to_visit at hat
  constructor
  · unfold about_to_visit
    omega
  · rfl
  · intro b
    rw [if_neg (by omega)]
  · rw [free_in_of_ge hnone, Nat.add_zero]

theorem visited.trans {lo mid hi : ℕ} {c c₁ c₂ : Counts} (h1 : lo ≤ mid) (h2 : mid ≤ hi)
    (hfst : visited block_map totalblock lo mid c c₁)
    (hsnd : visited block_map totalblock mid hi c₁ c₂) :
    visited block_map totalblock lo hi c c₂ := by
  constructor
  · exact hsnd.next
  · rw [hsnd.length, hfst.length]
  · intro b
    rw [hsnd.bits, hfst.bits]
    by_cases hb : lo ≤ b ∧ b < min hi totalblock
    · rw [if_pos hb]
      by_cases hmid : b < mid
      · rw [if_neg (by omega), if_pos (by omega)]
      · rw [if_pos (by omega)]
    · rw [if_neg hb, if_neg (by omega), if_neg (by omega)]
  · rw [hsnd.lfree, hfst.lfree, Nat.add_assoc]
    congr 1
    rcases Nat.lt_or_ge mid totalblock with hlt | hge
    · rw [min_eq_left hlt.le]
      exact free_in_append block_map h1 (by omega)
    · rw [@free_in_of_ge block_map mid _ (by omega), Nat.add_zero]
      congr 1
      omega

/-- One block, with its bit set or cleared. -/
theorem visited_block {p : ℕ} {c : Counts} {bm : bitmap} {lfree gfree : ℕ} (hp : p < totalblock)
    (hlen : bm.length = c.bm.length)
    (hbits : ∀ b, bit bm b = if b = p then block_map p else bit c.bm b)
    (hfree : lfree = c.lfree + if block_map p then 0 else 1) :
    visited block_map totalblock p (p + 1) c ⟨p, lfree, gfree, bm⟩ := by
  have hmin : min (p + 1) totalblock = p + 1 := by omega
  constructor
  · unfold about_to_visit
    dsimp only
    omega
  · exact hlen
  · intro b
    rw [hmin, hbits]
    by_cases hb : b = p
    · rw [if_pos hb, if_pos (by omega), hb]
    · rw [if_neg hb, if_neg (by omega)]
  · rw [hmin, free_in_step (Nat.lt_succ_self p), free_in_of_ge le_rfl, Nat.zero_add]
    exact hfree

/-- **The blocks of a group**: the loop visits those that are left of the group, up to the end of
the file system, and always comes through. The guard looks at the block of the pass before;
`about_to_visit` says that at the head of each pass this is the right question for the block at
hand. -/
theorem group_blocks_visits {block_bitmap : ℕ → Bool} {blk_itr n : ℕ} (htot : 0 < totalblock)
    (h64 : totalblock < 2 ^ 64) (hbuf : ∀ x < n, block_bitmap x = block_map (blk_itr + x)) :
    ∀ (left block : ℕ) (c : Counts), block + left ≤ n →
      about_to_visit totalblock (blk_itr + block) c → totalblock ≤ 64 * c.bm.length →
      ∃ c', group_blocks block_bitmap totalblock blk_itr left block c = some c' ∧
        visited block_map totalblock (blk_itr + block) (blk_itr + block + left) c c' ∧
        c'.gfree = c.gfree
          + free_in block_map (blk_itr + block) (min (blk_itr + block + left) totalblock) := by
  intro left
  induction left with
  | zero =>
      intro block c _ hat _
      refine ⟨c, rfl, ⟨hat, rfl, ?_, ?_⟩, ?_⟩
      · intro b
        rw [if_neg (by omega)]
      · rw [free_in_of_ge (by omega), Nat.add_zero]
      · rw [free_in_of_ge (by omega), Nat.add_zero]
  | succ left ih =>
      intro block c hn hat hlen
      have hlast : u64 (totalblock + (2 ^ 64 - 1)) = totalblock - 1 := by
        unfold u64
        omega
      rw [group_blocks, hlast]
      by_cases hin : blk_itr + block < totalblock
      swap
      · rw [if_neg (mt hat.mp hin)]
        refine ⟨c, rfl, visited_of_ge (by omega) (by omega) hat, ?_⟩
        rw [free_in_of_ge (by omega), Nat.add_zero]
      rw [if_pos (hat.mpr hin), hbuf block (by omega), Nat.add_comm block blk_itr]
      have hword : (blk_itr + block) / 64 < c.bm.length := by omega
      -- the rest of the loop, from the counts that this block leaves
      have hrest : ∀ c₁ : Counts,
          visited block_map totalblock (blk_itr + block) (blk_itr + block + 1) c c₁ →
          c₁.gfree = c.gfree + (if block_map (blk_itr + block) then 0 else 1) →
          ∃ c', group_blocks block_bitmap totalblock blk_itr left (block + 1) c₁ = some c' ∧
            visited block_map totalblock (blk_itr + block) (blk_itr + block + (left + 1)) c c' ∧
            c'.gfree = c.gfree + free_in block_map (blk_itr + block)
              (min (blk_itr + block + (left + 1)) totalblock) := by
        intro c₁ hvis hg
        obtain ⟨c', hrun, hvis', hg'⟩ := ih (block + 1) c₁ (by omega) hvis.next
          (by rw [hvis.length]; exact hlen)
        have hend : blk_itr + (block + 1) + left = blk_itr + block + (left + 1) := by omega
        rw [hend, ← Nat.add_assoc] at hvis' hg'
        refine ⟨c', hrun, hvis.trans (by omega) (by omega) hvis', ?_⟩
        rw [hg', hg, @free_in_step block_map (blk_itr + block) _ (by omega)]
        omega
      by_cases hused : block_map (blk_itr + block) = true
      · have hset : pc_set_bit (blk_itr + block) c.bm totalblock
            = (true, (pc_set_bit (blk_itr + block) c.bm totalblock).2) := by
          rw [pc_set_bit, if_neg (by omega)]
        rw [if_pos hused, hset]
        refine hrest _ (visited_block hin (pc_set_bit_length _ _ _) ?_ ?_) ?_
        · intro b
          rw [bit_set c.bm hin hword, hused]
          by_cases hb : b = blk_itr + block <;> simp [hb]
        · rw [if_pos hused, Nat.add_zero]
        · rw [if_pos hused, Nat.add_zero]
      · have hclear : pc_clear_bit (blk_itr + block) c.bm totalblock
            = (true, (pc_clear_bit (blk_itr + block) c.bm totalblock).2) := by
          rw [pc_clear_bit, if_neg (by omega)]
        rw [if_neg hused, hclear]
        refine hrest _ (visited_block hin (pc_clear_bit_length _ _ _) ?_ ?_) ?_
        · intro b
          rw [bit_clear c.bm hin hword]
          by_cases hb : b = blk_itr + block <;> simp [hb, hused]
        · rw [if_neg hused]
        · rw [if_neg hused]

end Loops

section Groups

variable {extfs : ext2_filsys} {block_map : ℕ → Bool}

/-- The first block of a group. -/
def group_start (extfs : ext2_filsys) (group : ℕ) : ℕ :=
  extfs.s_first_data_block.toNat + group * extfs.s_blocks_per_group.toNat

/-- The free blocks of a group; the last one ends with the file system. -/
def free_in_group (extfs : ext2_filsys) (block_map : ℕ → Bool) (group : ℕ) : ℕ :=
  free_in block_map (group_start extfs group)
    (min (group_start extfs (group + 1)) extfs.blocks_count.toNat)

theorem group_start_succ (extfs : ext2_filsys) (group : ℕ) :
    group_start extfs (group + 1)
      = group_start extfs group + extfs.s_blocks_per_group.toNat := by
  rw [group_start, group_start, Nat.succ_mul, Nat.add_assoc]

theorem group_start_le (extfs : ext2_filsys) {g g' : ℕ} (h : g ≤ g') :
    group_start extfs g ≤ group_start extfs g' :=
  Nat.add_le_add_left (Nat.mul_le_mul_right _ h) _

/-- **The groups**: a loop that comes through has visited the blocks of all of them, and has found
in each the free blocks its descriptor says, unless that one is exempt. By induction on the
groups: the blocks of one are visited, its count is compared, and the next group starts where it
ends. -/
theorem for_groups_visits (htot : 0 < extfs.blocks_count.toNat)
    (h8 : 8 ∣ extfs.s_blocks_per_group.toNat) :
    ∀ (left group : ℕ) (c c' : Counts),
      about_to_visit extfs.blocks_count.toNat (group_start extfs group) c →
      extfs.blocks_count.toNat ≤ 64 * c.bm.length →
      for_groups extfs block_map true extfs.blocks_count.toNat left group
        (group_start extfs group) c = some c' →
      visited block_map extfs.blocks_count.toNat (group_start extfs group)
          (group_start extfs (group + left)) c c' ∧
        ∀ g, group ≤ g → g < group + left → ¬ B_UN_INIT extfs g →
          free_in_group extfs block_map g = (extfs.bg_free_blocks_count g).toNat := by
  intro left
  induction left with
  | zero =>
      intro group c c' hat _ hrun
      cases hrun
      refine ⟨⟨hat, rfl, ?_, ?_⟩, ?_⟩
      · intro b
        rw [Nat.add_zero, if_neg (by omega)]
      · rw [Nat.add_zero, free_in_of_ge (by omega), Nat.add_zero]
      · intro g h1 h2
        omega
  | succ left ih =>
      intro group c c' hat hlen hrun
      have hnum : extfs.s_blocks_per_group.toNat / 8 * 8 = extfs.s_blocks_per_group.toNat :=
        Nat.div_mul_cancel h8
      -- the range that was read covers the group
      have hbuf : ∀ x < extfs.s_blocks_per_group.toNat,
          ext2fs_get_block_bitmap_range2 block_map (group_start extfs group)
              (extfs.s_blocks_per_group.toNat / 8 * 8) x
            = block_map (group_start extfs group + x) := by
        intro x hx
        rw [ext2fs_get_block_bitmap_range2, hnum, decide_eq_true hx, Bool.true_and]
      obtain ⟨c₁, hblocks, hvis, hgfree⟩ := group_blocks_visits htot
        extfs.blocks_count.isLt hbuf extfs.s_blocks_per_group.toNat 0 { c with gfree := 0 }
        (by omega) hat hlen
      rw [Nat.add_zero, ← group_start_succ] at hvis hgfree
      rw [Nat.zero_add] at hgfree
      rw [for_groups, if_pos rfl] at hrun
      simp only [hblocks] at hrun
      split_ifs at hrun with hcheck
      rw [← group_start_succ] at hrun
      obtain ⟨hrest, hgroups⟩ := ih (group + 1) c₁ c' hvis.next
        (by rw [hvis.length]; exact hlen) hrun
      have hend : group + 1 + left = group + (left + 1) := by omega
      rw [hend] at hrest hgroups
      constructor
      · exact visited.trans (group_start_le extfs (by omega)) (group_start_le extfs (by omega))
          ⟨hvis.next, hvis.length, hvis.bits, hvis.lfree⟩ hrest
      · intro g h1 h2 hinit
        rcases Nat.eq_or_lt_of_le h1 with rfl | hlt
        · rw [free_in_group, ← hgfree]
          by_contra hne
          exact hcheck ⟨hne, hinit⟩
        · exact hgroups g hlt h2 hinit

end Groups

/-! ## The bitmap and the super block -/

/-- The marked blocks are those that are not free. -/
theorem used_from_length {bm : bitmap} {block_map : ℕ → Bool} {total first : ℕ}
    (hfirst : first ≤ total)
    (hbits : ∀ b < total, bit bm b = false ↔ first ≤ b ∧ block_map b = false) :
    (used_from bm total 0).length = total - free_in block_map first total := by
  have hcount := List.length_eq_countP_add_countP (bit bm) (l := List.range' 0 total)
  have hclear : (List.range' 0 total).countP (fun b => !bit bm b)
      = free_in block_map first total := by
    -- below the first data block everything is used
    have hsplit : total = first + (total - first) := by omega
    have hnone : (List.range' 0 first).countP (fun b => !bit bm b) = 0 := by
      rw [List.countP_eq_zero]
      intro b hb
      rw [List.mem_range'_1] at hb
      have hset : ¬ bit bm b = false := by
        rw [hbits b (by omega)]
        omega
      simpa using hset
    have hrest : (List.range' first (total - first)).countP (fun b => !bit bm b)
        = (List.range' first (total - first)).countP (fun b => !block_map b) := by
      apply List.countP_congr
      intro b hb
      rw [List.mem_range'_1] at hb
      have hb' := hbits b (by omega)
      simp only [Bool.not_eq_true']
      rw [hb']
      exact and_iff_right hb.1
    conv_lhs => rw [hsplit, ← List.range'_append, Nat.zero_add, Nat.one_mul]
    rw [List.countP_append, hnone, hrest, Nat.zero_add, free_in]
  rw [used_from, Nat.sub_zero, ← List.countP_eq_length_filter]
  simp only [List.length_range', decide_not, Bool.decide_eq_true] at hcount
  omega

/-- The super blocks that are spoken of: `group_desc_count` groups of whole bytes of the map
hold the blocks from the first on. -/
structure geometry (extfs : ext2_filsys) : Prop where
  first : extfs.s_first_data_block.toNat ≤ 1
  blocks : 2 ≤ extfs.blocks_count.toNat
  group_pos : 0 < extfs.s_blocks_per_group.toNat
  group_bytes : 8 ∣ extfs.s_blocks_per_group.toNat
  groups : extfs.group_desc_count.toNat
    = (extfs.blocks_count.toNat - extfs.s_first_data_block.toNat
        + (extfs.s_blocks_per_group.toNat - 1)) / extfs.s_blocks_per_group.toNat

/-- The groups reach to the end of the file system. -/
theorem geometry.covers {extfs : ext2_filsys} (h : geometry extfs) :
    extfs.blocks_count.toNat ≤ group_start extfs extfs.group_desc_count.toNat := by
  have hceil := Nat.lt_div_mul_add h.group_pos
    (a := extfs.blocks_count.toNat - extfs.s_first_data_block.toNat
      + (extfs.s_blocks_per_group.toNat - 1))
  rw [← h.groups] at hceil
  have hpos := h.group_pos
  rw [group_start]
  omega

/-- So many blocks leave room for the rounding to whole words. -/
theorem geometry.blocks_lt {extfs : ext2_filsys} (h : geometry extfs) :
    extfs.blocks_count.toNat + 63 < 2 ^ 64 := by
  have hcovers := h.covers
  have hfirst := h.first
  have hgroups : extfs.group_desc_count.toNat ≤ 2 ^ 32 - 1 := by
    have := extfs.group_desc_count.isLt
    omega
  have hper : extfs.s_blocks_per_group.toNat ≤ 2 ^ 32 - 8 := by
    have := extfs.s_blocks_per_group.isLt
    have := h.group_bytes
    omega
  have hmul := Nat.mul_le_mul hgroups hper
  rw [group_start] at hcovers
  omega

/-- A super block that was read is that of a file system that opens. -/
theorem open_file_system_of_super {extfs : ext2_filsys} {fs_info fs_info' : file_system_info}
    (hsuper : read_super_blocks (some extfs) fs_info = some fs_info') :
    open_file_system (some extfs) = some extfs := by
  rw [read_super_blocks] at hsuper
  cases hfs : open_file_system (some extfs) with
  | none => simp only [hfs, reduceCtorEq] at hsuper
  | some fs =>
      rw [open_file_system] at hfs
      split_ifs at hfs
      rw [← hfs]

/-- **The bitmap is exact and agrees with the super block**, where there was memory for the buffer
of a group: a block is clear when it is not in front of the first and free in the map, the groups
that count have the free blocks they say, and as many bits are set as `read_super_blocks` says
blocks are used. The groups end where the file system does (`geometry.covers`), so all blocks are
visited, and the free ones among them are those that the super block counts, which the code
compares at the end. -/
theorem read_bitmap_info_exact {malloc : ℕ → Bool} {extfs : ext2_filsys} {block_map : ℕ → Bool}
    {fs_info fs_info' : file_system_info} {bm bm' : bitmap} (hgeo : geometry extfs)
    (hmap : extfs.block_map = some block_map)
    (hbuffer : malloc (extfs.s_blocks_per_group.toNat / 8) = true)
    (hsuper : read_super_blocks (some extfs) fs_info = some fs_info')
    (hlen : bm.length = BITS_TO_LONGS fs_info'.totalblock.toNat)
    (hrun : read_bitmap_info malloc (some extfs) fs_info' bm = some bm') :
    (∀ b < fs_info'.totalblock.toNat, bit bm' b = false ↔
        extfs.s_first_data_block.toNat ≤ b ∧ block_map b = false) ∧
      (∀ group < extfs.group_desc_count.toNat, ¬ B_UN_INIT extfs group →
        free_in_group extfs block_map group = (extfs.bg_free_blocks_count group).toNat) ∧
      (used_from bm' fs_info'.totalblock.toNat 0).length = fs_info'.usedblocks.toNat := by
  have hopen := open_file_system_of_super hsuper
  simp only [read_super_blocks, hopen, Option.some.injEq] at hsuper
  have htotal : fs_info'.totalblock = extfs.blocks_count := by rw [← hsuper]
  have hused : fs_info'.usedblocks = extfs.blocks_count - extfs.free_blocks_count := by
    rw [← hsuper]
  rw [htotal] at hlen ⊢
  rw [hused]
  simp only [read_bitmap_info, hopen, hmap, hbuffer, htotal] at hrun
  have hblocks := hgeo.blocks
  have hfirst := hgeo.first
  have hwords : extfs.blocks_count.toNat ≤ 64 * bm.length := by
    have h64 := hgeo.blocks_lt
    rw [hlen, BITS_TO_LONGS, u64_of_lt (by omega)]
    omega
  have hinit : ∀ b < extfs.blocks_count.toNat,
      bit (pc_init_bitmap bm 0xFF extfs.blocks_count.toNat) b = true :=
    fun b hb => bit_init_ones hlen (by omega)
  have hstart : group_start extfs 0 = extfs.s_first_data_block.toNat := by
    rw [group_start, Nat.zero_mul, Nat.add_zero]
  rw [← hstart] at hrun
  -- the loop starts behind what the first data block leaves set
  cases hloop : for_groups extfs block_map true extfs.blocks_count.toNat
      extfs.group_desc_count.toNat 0 (group_start extfs 0)
      ⟨0, 0, 0, pc_init_bitmap bm 0xFF extfs.blocks_count.toNat⟩ with
  | none => simp only [hloop, reduceCtorEq] at hrun
  | some c =>
      simp only [hloop] at hrun
      split_ifs at hrun with hfree
      cases hrun
      rw [not_not] at hfree
      obtain ⟨hvis, hgroups⟩ := for_groups_visits (by omega) hgeo.group_bytes _ 0 _ c
        (by unfold about_to_visit; dsimp only; omega)
        (by rw [pc_init_bitmap_length]; exact hwords) hloop
      rw [Nat.zero_add, hstart] at hvis
      have hend : min (group_start extfs extfs.group_desc_count.toNat) extfs.blocks_count.toNat
          = extfs.blocks_count.toNat := min_eq_right hgeo.covers
      have hbits : ∀ b < extfs.blocks_count.toNat, bit c.bm b = false ↔
          extfs.s_first_data_block.toNat ≤ b ∧ block_map b = false := by
        intro b hb
        rw [hvis.bits, hend]
        by_cases hin : extfs.s_first_data_block.toNat ≤ b
        · rw [if_pos ⟨hin, hb⟩]
          exact (and_iff_right hin).symm
        · rw [if_neg (by omega), hinit b hb]
          simp [hin]
      have hlfree : free_in block_map extfs.s_first_data_block.toNat extfs.blocks_count.toNat
          = extfs.free_blocks_count.toNat := by
        rw [← hfree, hvis.lfree, hend, Nat.zero_add]
      refine ⟨hbits, fun group hg hcounts => hgroups group (by omega) (by omega) hcounts, ?_⟩
      have hle := free_in_le block_map extfs.s_first_data_block.toNat extfs.blocks_count.toNat
      rw [used_from_length (by omega) hbits, hlfree, BitVec.toNat_sub]
      have hlt := extfs.blocks_count.isLt
      omega

/-- Two groups behind a first block 1. The second is short by one, and its descriptor, under
`GDT_CSUM`, does not say how many of its blocks are free. -/
def two_groups : ext2_filsys where
  s_state := EXT2_VALID_FS
  s_mnt_count := 3
  s_max_mnt_count := 20
  s_first_data_block := 1
  s_log_block_size := 0
  s_blocks_per_group := 8
  s_feature_ro_compat := EXT4_FEATURE_RO_COMPAT_GDT_CSUM
  blocks_count := 16
  free_blocks_count := 9
  group_desc_count := 2
  bg_flags := fun group => if group = 1 then EXT2_BG_BLOCK_UNINIT else 0
  bg_free_blocks_count := fun group => if group = 0 then 4 else 0
  block_map := some fun b => b == 1 || b == 4 || b == 5 || b == 7 || b == 9 || b == 15

/-- A description of nothing. -/
def no_info : file_system_info := ⟨⟨List.replicate 16 0, rfl⟩, 0, 0, 0, 0, 0⟩

theorem two_groups_exact :
    geometry two_groups ∧ ∃ fs_info bm,
      read_super_blocks (some two_groups) no_info = some fs_info ∧
      read_bitmap_info (fun _ => true) (some two_groups) fs_info [0] = some bm ∧
      (used_from bm fs_info.totalblock.toNat 0).length = fs_info.usedblocks.toNat ∧
      fs_info.usedblocks = 7 := by
  have hgeo : geometry two_groups := by
    constructor <;> decide
  obtain ⟨fs_info, hinfo⟩ : ∃ fs_info, read_super_blocks (some two_groups) no_info = some fs_info :=
    ⟨_, rfl⟩
  have htotal : fs_info.totalblock = 16 := by
    cases hinfo
    rfl
  have hused : fs_info.usedblocks = 7 := by
    cases hinfo
    rfl
  obtain ⟨bm, hbm⟩ : ∃ bm,
      read_bitmap_info (fun _ => true) (some two_groups) fs_info [0] = some bm := by
    cases hinfo
    exact ⟨_, rfl⟩
  have hexact := read_bitmap_info_exact hgeo rfl rfl hinfo (by rw [htotal]; rfl) hbm
  exact ⟨hgeo, fs_info, bm, hinfo, hbm, hexact.2.2, hused⟩

/-- One group of free blocks whose descriptor and super block say that none is. -/
def full_by_the_counts : ext2_filsys where
  s_state := EXT2_VALID_FS
  s_mnt_count := 0
  s_max_mnt_count := 20
  s_first_data_block := 0
  s_log_block_size := 2
  s_blocks_per_group := 8
  s_feature_ro_compat := 0
  blocks_count := 8
  free_blocks_count := 0
  group_desc_count := 1
  bg_flags := fun _ => 0
  bg_free_blocks_count := fun _ => 0
  block_map := some fun _ => false

/-- Without memory for the buffer nothing is copied, and a file system that says it is full
is taken at its word. -/
theorem full_by_the_counts_not_exact :
    geometry full_by_the_counts ∧
      ∃ block_map fs_info bm, full_by_the_counts.block_map = some block_map ∧
        read_super_blocks (some full_by_the_counts) no_info = some fs_info ∧
        read_bitmap_info (fun _ => false) (some full_by_the_counts) fs_info [0] = some bm ∧
        ¬ ∀ b < fs_info.totalblock.toNat, bit bm b = false ↔
          full_by_the_counts.s_first_data_block.toNat ≤ b ∧ block_map b = false := by
  refine ⟨by constructor <;> decide, _, _, _, rfl, rfl, rfl, ?_⟩
  intro h
  exact absurd ((h 0 (by decide)).mpr ⟨le_rfl, rfl⟩) (by decide)

end SysbakAdmin.Ext

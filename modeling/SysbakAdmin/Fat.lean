/-
The allocation scan of a FAT volume, as `gdbus-fatfs.c` makes its bitmap.

`read_bitmap_info` marks every sector, counts past the reserved sectors, the tables and
the root directory, and then reads one table entry for every data cluster and takes the
cluster's sectors out where the entry is free or bad. The sector counter and the read
position run side by side, and where the position starts decides which entry a cluster is
judged by: `check_fat_status` reads one entry before the loop, and a table has two before
that of the first cluster.

The descriptor is a device without a schedule of its own: a read ends early only where the
device ends. The counters `bfree`, `bused` and `DamagedClusters` are left out, which the
code increments as pointers and never reads.

`check_clusters_spec` is the step of the argument: cluster `i` is judged by the `i`-th entry
from where the loop started to read. The rest is to say where that is, and what the
entries there are: `read_bitmap_info_exact_iff` compares the table with itself, shifted by
the entry that `check_fat_status` has taken. Both directions hold since a cluster's sectors
are no other cluster's.
-/
import SysbakAdmin.Io
import SysbakAdmin.Bitmap

set_option autoImplicit false

namespace SysbakAdmin.Fat

open LittleEndian ByteStore CInt CMemory FileIo Bitmap Io

/-! ## The boot sector -/

/-- `FatBootSector`: the first 512 bytes of the device. Its union overlays the two sets of
fields, so a field is a place in the bytes. -/
structure FatBootSector where
  bytes : List Byte
  size : bytes.length = 512

/-- What `FS` holds: nothing yet, or the type `get_fat_fs_type` found. -/
inductive fat_kind where
  | unset
  | FAT_12
  | FAT_16
  | FAT_32
  deriving DecidableEq, Repr

section Fields

variable (fat_sb : FatBootSector)

/-- The little-endian field of `n` bytes at `off`. -/
def FatBootSector.field (off n : ℕ) : ℕ := ofLe (slice fat_sb.bytes off n)

def FatBootSector.sector_size : ℕ := fat_sb.field 0x0b 2
def FatBootSector.cluster_size : ℕ := fat_sb.field 0x0d 1
def FatBootSector.reserved : ℕ := fat_sb.field 0x0e 2
def FatBootSector.fats : ℕ := fat_sb.field 0x10 1
def FatBootSector.dir_entries : ℕ := fat_sb.field 0x11 2
def FatBootSector.sectors : ℕ := fat_sb.field 0x13 2
def FatBootSector.fat_length : ℕ := fat_sb.field 0x16 2
def FatBootSector.sector_count : ℕ := fat_sb.field 0x20 4
def FatBootSector.fat32_fat_length : ℕ := fat_sb.field 0x24 4
def FatBootSector.fat16_ext_signature : ℕ := fat_sb.field 0x26 1
/-- `u.fat32.fat_name[4]` -/
def FatBootSector.fat32_fat_name_4 : ℕ := fat_sb.field 0x56 1

def get_total_sector : ℕ :=
  if fat_sb.sectors ≠ 0 then fat_sb.sectors
  else if fat_sb.sector_count ≠ 0 then fat_sb.sector_count
  else 0

def get_sec_per_fat : ℕ :=
  if fat_sb.fat_length ≠ 0 then fat_sb.fat_length
  else if fat_sb.fat32_fat_length ≠ 0 then fat_sb.fat32_fat_length
  else 0

def get_root_sec : Run ℕ :=
  udiv (fat_sb.dir_entries * 32 + fat_sb.sector_size - 1) fat_sb.sector_size

def get_cluster_count : Run ℕ := do
  let total_sector := get_total_sector fat_sb
  let root_sec ← get_root_sec fat_sb
  let sec_per_fat := get_sec_per_fat fat_sb
  let reserved := fat_sb.reserved + fat_sb.fats * sec_per_fat + root_sec
  if reserved > total_sector then pure 0
  else udiv (total_sector - reserved) fat_sb.cluster_size

def FAT12_THRESHOLD : ℕ := 4085

def ROUND_TO_MULTIPLE (n m : ℕ) : ℕ :=
  if n ≠ 0 ∧ m ≠ 0 then n + m - 1 - (n - 1) % m else 0

/-- `get_fat_fs_type`: the type that it returns by name and puts in `FS`. A 32-bit
directory size cannot wrap, and the sizes in bytes are signed. -/
def get_fat_fs_type : Run (Option fat_kind) := do
  if fat_sb.fat16_ext_signature = 0x29 ∨
      (fat_sb.fat_length ≠ 0 ∧ fat_sb.fat32_fat_length = 0) then
    let logical_sector_size := fat_sb.sector_size
    let root_start := (fat_sb.reserved + fat_sb.fats * fat_sb.fat_length) * logical_sector_size
    let data_start := root_start + ROUND_TO_MULTIPLE (fat_sb.dir_entries * 32) logical_sector_size
    let data_size : ℤ := (get_total_sector fat_sb * logical_sector_size : ℕ) - (data_start : ℕ)
    if data_size ≤ 0 then pure none
    else
      let clusters ← udiv data_size.toNat (fat_sb.cluster_size * logical_sector_size)
      if clusters = 0 then pure none
      else if clusters ≥ FAT12_THRESHOLD then pure (some .FAT_16)
      else pure (some .FAT_12)
  else if fat_sb.fat32_fat_name_4 = 0x32 ∨
      (fat_sb.fat_length = 0 ∧ fat_sb.fat32_fat_length ≠ 0) then pure (some .FAT_32)
  else pure none

/-! ## The scan -/

/-- The copies of the table in `mark_reserved_sectors`, `sec_per_fat` sectors each. -/
def mark_fats (total_block sec_per_fat : ℕ) : ℕ → ℕ → bitmap → ℕ × bitmap
  | 0, block, bm => (block, bm)
  | fats + 1, block, bm =>
      let r := for_blocks pc_set_bit total_block sec_per_fat block bm
      mark_fats total_block sec_per_fat fats r.1 r.2

/-- `mark_reserved_sectors`: the first sector after them, and the bitmap. -/
def mark_reserved_sectors (bm : bitmap) (block : ℕ) : Run (ℕ × bitmap) := do
  let total_block := get_total_sector fat_sb
  let sec_per_fat := get_sec_per_fat fat_sb
  let root_sec ← get_root_sec fat_sb
  let r := for_blocks pc_set_bit total_block fat_sb.reserved block bm
  let r := mark_fats total_block sec_per_fat fat_sb.fats r.1 r.2
  pure (for_blocks pc_set_bit total_block root_sec r.1 r.2)

/-- `get_fat_fs_sector`: the boot sector, and the descriptor behind it. -/
def get_fat_fs_sector (malloc : ℕ → Bool) (device : Option (List Byte)) :
    Option (FatBootSector × File) :=
  match device with
  | none => none
  | some data =>
      if malloc 512 then
        if h : (slice data 0 512).length = 512 then some (⟨slice data 0 512, h⟩, ⟨data, 512, false⟩)
        else none
      else none

end Fields

/-- `read` into a variable that held `old`: its bytes, and the descriptor. -/
def read_into (fd : File) (old : List Byte) : List Byte × File :=
  let x := slice fd.data fd.pos old.length
  (overlay 0 old 0 x, { fd with pos := fd.pos + x.length })

/-- `lseek(fd, offset, SEEK_SET)`, the result not looked at. -/
def seek_unchecked (fd : File) (offset : ℕ) : File := (lseek fd (off_t offset)).getD fd

/-- `check_fat_status`. The variable it reads into is not initialised; `stale` is what it
held. -/
def check_fat_status (stale : ℕ) (FS : fat_kind) (fd : File) : ℕ × File :=
  match FS with
  | .FAT_16 =>
      let r := read_into fd (leBytes 2 stale)
      if ofLe r.1 &&& 0x8000 = 0 then (1, r.2)
      else if ofLe r.1 &&& 0x4000 = 0 then (2, r.2)
      else (0, r.2)
  | .FAT_32 =>
      let r := read_into fd (leBytes 4 stale)
      if ofLe r.1 &&& 0x08000000 = 0 then (1, r.2)
      else if ofLe r.1 &&& 0x04000000 = 0 then (2, r.2)
      else (0, r.2)
  | _ => (0, fd)

section Entries

variable (total_block cluster_size block : ℕ) (fd : File) (bm : bitmap)

/-- The body of the three entry checks: read `width` bytes, and clear or set the cluster's
sectors by the `decode`d entry. -/
def check_entry (width : ℕ) (decode : ℕ → ℕ) (bad : ℕ) : ℕ × File × bitmap :=
  let r := read_into fd (leBytes width 0)
  let entry := decode (ofLe r.1)
  let s :=
    if entry = bad then for_blocks pc_clear_bit total_block cluster_size block bm
    else if entry = 0 then for_blocks pc_clear_bit total_block cluster_size block bm
    else for_blocks pc_set_bit total_block cluster_size block bm
  (s.1, r.2, s.2)

def check_fat16_entry : ℕ × File × bitmap :=
  check_entry total_block cluster_size block fd bm 2 id 0xFFF7

def check_fat32_entry : ℕ × File × bitmap :=
  check_entry total_block cluster_size block fd bm 4 id 0x0FFFFFF7

/-- `check_fat12_entry`: it takes the high 12 bits of a 16-bit read. -/
def check_fat12_entry : ℕ × File × bitmap :=
  check_entry total_block cluster_size block fd bm 2 (· >>> 4) 0xFF7

/-- The body of the loop over the clusters. -/
def check_cluster (FS : fat_kind) : ℕ × File × bitmap :=
  match FS with
  | .FAT_16 => check_fat16_entry total_block cluster_size block fd bm
  | .FAT_32 => check_fat32_entry total_block cluster_size block fd bm
  | .FAT_12 => check_fat12_entry total_block cluster_size block fd bm
  | .unset => (block, fd, bm)

end Entries

/-- The loop over the clusters, `left` of them to go. -/
def check_clusters (FS : fat_kind) (total_block cluster_size : ℕ) :
    ℕ → ℕ → File → bitmap → ℕ × File × bitmap
  | 0, block, fd, bm => (block, fd, bm)
  | left + 1, block, fd, bm =>
      let r := check_cluster total_block cluster_size block fd bm FS
      check_clusters FS total_block cluster_size left r.1 r.2.1 r.2.2

/-- `read_bitmap_info`: what it returns, and the bitmap. The product of two 16-bit fields
is an `int`, and wraps to a negative one. -/
def read_bitmap_info (malloc : ℕ → Bool) (stale : ℕ) (FS : fat_kind)
    (device : Option (List Byte)) (bm : bitmap) : Run (Bool × bitmap) :=
  match get_fat_fs_sector malloc device with
  | none => pure (false, bm)
  | some (fat_sb, fd) => do
      let total_sector := get_total_sector fat_sb
      let cluster_count ← get_cluster_count fat_sb
      let bm := pc_init_bitmap bm 0xFF total_sector
      let (block, bm) ← mark_reserved_sectors fat_sb bm 0
      let FatReservedBytes := u64OfInt (i32 (fat_sb.sector_size * fat_sb.reserved))
      let fd := seek_unchecked fd FatReservedBytes
      let (fat_stat, fd) := check_fat_status stale FS fd
      if fat_stat ≠ 0 then pure (false, bm)
      else
        pure (true, (check_clusters FS total_sector fat_sb.cluster_size cluster_count block fd
          bm).2.2)

/-! ## One entry after the other

The position in the table is followed through the loop, also where the device ends: a read there
moves it no further. -/

section Table

/-- How many bytes of the table a cluster's check reads. -/
def fat_kind.width : fat_kind → ℕ
  | .FAT_32 => 4
  | .unset => 0
  | _ => 2

/-- What it makes of them. -/
def fat_kind.decode : fat_kind → ℕ → ℕ
  | .FAT_12 => (· >>> 4)
  | _ => id

/-- The mark of a bad cluster. -/
def fat_kind.bad : fat_kind → ℕ
  | .FAT_12 => 0xFF7
  | .FAT_32 => 0x0FFFFFF7
  | _ => 0xFFF7

/-- The `n`-th group of `width` bytes of a table at `start`. -/
def raw_entry (width : ℕ) (data : List Byte) (start n : ℕ) : ℕ :=
  ofLe (slice data (start + n * width) width)

/-- The test by which the code leaves a cluster out. Free and bad are told apart by the format and
treated alike by the code. -/
def skips (FS : fat_kind) (raw : ℕ) : Prop := FS.decode raw = FS.bad ∨ FS.decode raw = 0

instance (FS : fat_kind) (raw : ℕ) : Decidable (skips FS raw) :=
  inferInstanceAs (Decidable (_ ∨ _))

end Table

/-- The descriptor after reads that were to bring it to `p`: a device ends. -/
def at_most (fd : File) (p : ℕ) : File := { fd with pos := min p fd.data.length }

/-- **A read of an entry**, cut short or not: what is missing of it counts as zero. The buffer is
zero before it, so an entry that ends behind the device is the part that is there. -/
theorem read_into_at_most (fd : File) (p width : ℕ) :
    ofLe (read_into (at_most fd p) (leBytes width 0)).1 = raw_entry width fd.data p 0 ∧
      (read_into (at_most fd p) (leBytes width 0)).2 = at_most fd (p + width) := by
  have hlen := slice_length fd.data p width
  rw [read_into, leBytes_length, at_most]
  simp only [slice_min]
  constructor
  · have hdrop : overlay 0 (leBytes width 0) 0 (slice fd.data p width)
        = slice fd.data p width ++ leBytes (width - (slice fd.data p width).length) 0 := by
      rw [overlay, List.take_zero, Nat.zero_sub, Nat.zero_add, drop_leBytes_zero]
      rfl
    rw [hdrop, ofLe_append_leBytes_zero, raw_entry, Nat.zero_mul, Nat.add_zero]
  · rw [hlen, at_most]
    congr 1
    omega

theorem raw_entry_succ (width : ℕ) (data : List Byte) (start n : ℕ) :
    raw_entry width data start (n + 1) = raw_entry width data (start + width) n := by
  rw [raw_entry, raw_entry, Nat.succ_mul, ← Nat.add_assoc, Nat.add_right_comm]

/-- The checks of the three types are one. -/
theorem check_cluster_eq {FS : fat_kind} (hFS : FS ≠ .unset) (total_block cluster_size block : ℕ)
    (fd : File) (bm : bitmap) :
    check_cluster total_block cluster_size block fd bm FS
      = check_entry total_block cluster_size block fd bm FS.width FS.decode FS.bad := by
  cases FS with
  | unset => exact absurd rfl hFS
  | FAT_12 => rfl
  | FAT_16 => rfl
  | FAT_32 => rfl

section Scan

variable {FS : fat_kind} {total_block cluster_size : ℕ}

/-- **What one entry does to the bitmap**: the sectors of its cluster are marked unless the
entry is free or bad. -/
theorem check_cluster_spec (hFS : FS ≠ .unset) (block p : ℕ) (fd : File) {bm : bitmap}
    (hlen : total_block ≤ 64 * bm.length) :
    ∃ bm', check_cluster total_block cluster_size block (at_most fd p) bm FS
        = (block + cluster_size, at_most fd (p + FS.width), bm') ∧
      bm'.length = bm.length ∧
      ∀ b < total_block, bit bm' b = if block ≤ b ∧ b < block + cluster_size
        then !decide (skips FS (raw_entry FS.width fd.data p 0)) else bit bm b := by
  have hset := fun b => bit_for_blocks_set b cluster_size block bm hlen
  have hclear := fun b => bit_for_blocks_clear b cluster_size block bm hlen
  obtain ⟨hentry, hfd⟩ := read_into_at_most fd p FS.width
  rw [check_cluster_eq hFS, check_entry, hentry, hfd]
  -- bad and free clusters are cleared, every other value is taken for a chain
  by_cases hskip : skips FS (raw_entry FS.width fd.data p 0)
  · refine ⟨(for_blocks pc_clear_bit total_block cluster_size block bm).2, ?_,
      for_blocks_length pc_clear_bit_length _ _ _ _, fun b hb => ?_⟩
    · rcases hskip with hbad | hfree
      · simp only [hbad, if_true, for_blocks_fst]
      · simp only [hfree, if_true, for_blocks_fst, ite_self]
    · rw [hclear, decide_eq_true hskip]
      split_ifs with hin
      · rw [decide_eq_true ⟨hin.1, hin.2, hb⟩]
        rfl
      · rw [decide_eq_false (by tauto)]
        rfl
  · obtain ⟨hbad, hfree⟩ := not_or.mp hskip
    refine ⟨(for_blocks pc_set_bit total_block cluster_size block bm).2, ?_,
      for_blocks_length pc_set_bit_length _ _ _ _, fun b hb => ?_⟩
    · simp only [hbad, hfree, if_false, for_blocks_fst]
    · rw [hset, decide_eq_false hskip]
      split_ifs with hin
      · rw [decide_eq_true ⟨hin.1, hin.2, hb⟩]
        rfl
      · rw [decide_eq_false (by tauto)]
        rfl

/-- **The scan in step with its position**: cluster `i` of the loop is judged by the `i`-th entry
from the position at which the loop started. Counter and position go up together, by a cluster and
by an entry, so after `i` clusters the entry is the `i`-th; all that the bitmap is depends on
where the position was at the start. -/
theorem check_clusters_spec (hFS : FS ≠ .unset) (fd : File) :
    ∀ (left block p : ℕ) (bm : bitmap), total_block ≤ 64 * bm.length →
      ∃ bm', check_clusters FS total_block cluster_size left block (at_most fd p) bm
          = (block + left * cluster_size, at_most fd (p + left * FS.width), bm') ∧
        bm'.length = bm.length ∧
        ∀ b < total_block, bit bm' b = if block ≤ b ∧ b < block + left * cluster_size
          then !decide (skips FS (raw_entry FS.width fd.data p ((b - block) / cluster_size)))
          else bit bm b := by
  intro left
  induction left with
  | zero =>
      intro block p bm _
      refine ⟨bm, ?_, rfl, fun b _ => by rw [if_neg (by omega)]⟩
      rw [check_clusters, Nat.zero_mul, Nat.zero_mul, Nat.add_zero, Nat.add_zero]
  | succ left ih =>
      intro block p bm hlen
      obtain ⟨bm₁, hcheck, hlen₁, hbit₁⟩ := @check_cluster_spec FS total_block cluster_size hFS
        block p fd bm hlen
      obtain ⟨bm', hrest, hlen', hbit'⟩ := ih (block + cluster_size) (p + FS.width) bm₁
        (by rwa [hlen₁])
      refine ⟨bm', ?_, hlen'.trans hlen₁, fun b hb => ?_⟩
      · rw [check_clusters, hcheck, hrest, Nat.succ_mul, Nat.succ_mul, Nat.add_right_comm,
          Nat.add_assoc, Nat.add_right_comm, Nat.add_assoc]
      · rw [hbit' b hb, hbit₁ b hb, Nat.succ_mul]
        by_cases hfirst : block ≤ b ∧ b < block + cluster_size
        · -- the cluster just checked lies before the ones to come
          rw [if_neg (by omega), if_pos hfirst, if_pos (by omega),
            Nat.div_eq_of_lt (by omega : b - block < cluster_size)]
        · by_cases hlater : block + cluster_size ≤ b ∧
              b < block + cluster_size + left * cluster_size
          · have hcs : 0 < cluster_size := by
              rcases Nat.eq_zero_or_pos cluster_size with h0 | h0
              · rw [h0, Nat.mul_zero] at hlater
                omega
              · exact h0
            have hindex : (b - block) / cluster_size
                = (b - (block + cluster_size)) / cluster_size + 1 := by
              rw [← Nat.add_div_right _ hcs]
              congr 1
              omega
            rw [if_pos hlater, if_pos (by omega), hindex, raw_entry_succ]
          · rw [if_neg hlater, if_neg hfirst, if_neg (by omega)]

end Scan

/-! ## The layout of a volume -/

section Layout

variable (fat_sb : FatBootSector)

def root_sectors : ℕ := (fat_sb.dir_entries * 32 + fat_sb.sector_size - 1) / fat_sb.sector_size

/-- The first sector of the first data cluster. -/
def data_start : ℕ :=
  fat_sb.reserved + fat_sb.fats * get_sec_per_fat fat_sb + root_sectors fat_sb

/-- How many data clusters there are. -/
def clusters : ℕ := (get_total_sector fat_sb - data_start fat_sb) / fat_sb.cluster_size

/-- The sectors of data cluster `n`; clusters are numbered from 2 on. -/
def in_cluster (n s : ℕ) : Prop :=
  data_start fat_sb + (n - 2) * fat_sb.cluster_size ≤ s ∧
    s < data_start fat_sb + (n - 2) * fat_sb.cluster_size + fat_sb.cluster_size

/-- Where the table starts on the device. -/
def table_start : ℕ := fat_sb.sector_size * fat_sb.reserved

/-- Where the code's reads of it start: a start that is no `int` is a negative offset, and
the descriptor stays behind the boot sector. -/
def read_start : ℕ := if table_start fat_sb < 2 ^ 31 then table_start fat_sb else 512

/-- The place of the first read behind the boot sector: a seek to a place the device does not
have leaves the descriptor too. -/
def seek_start (data : List Byte) : ℕ :=
  if table_start fat_sb < 2 ^ 31 ∧ table_start fat_sb ≤ data.length then table_start fat_sb else 512

/-- How many bytes `check_fat_status` reads. -/
def fat_kind.status_width : fat_kind → ℕ
  | .FAT_16 => 2
  | .FAT_32 => 4
  | _ => 0

/-- Where the loop over the clusters starts to read. -/
def scan_start (FS : fat_kind) (data : List Byte) : ℕ := seek_start fat_sb data + FS.status_width

/-- The clusters whose sectors the scan leaves out. -/
def dropped (FS : fat_kind) (data : List Byte) (n : ℕ) : Prop :=
  skips FS (raw_entry FS.width data (scan_start fat_sb FS data) (n - 2))

/-- A volume whose layout fits its sectors, on a device that holds its table. Nothing is asked of
the entries: they may say what they like of the clusters. -/
structure fat_volume (FS : fat_kind) (data : List Byte) : Prop where
  boot : slice data 0 512 = fat_sb.bytes
  sector_size : 0 < fat_sb.sector_size
  cluster_size : 0 < fat_sb.cluster_size
  fits : data_start fat_sb ≤ get_total_sector fat_sb
  table : table_start fat_sb + (clusters fat_sb + 2) * FS.width ≤ data.length

end Layout

theorem FatBootSector.field_lt (fat_sb : FatBootSector) (off n : ℕ) :
    fat_sb.field off n < 256 ^ n := by
  have hlen : (slice fat_sb.bytes off n).length ≤ n := by
    rw [slice_length]
    omega
  exact (ofLe_lt _).trans_le (Nat.pow_le_pow_right (by omega) hlen)

theorem get_total_sector_lt (fat_sb : FatBootSector) : get_total_sector fat_sb < 2 ^ 32 := by
  have h16 := fat_sb.field_lt 0x13 2
  have h32 := fat_sb.field_lt 0x20 4
  unfold get_total_sector FatBootSector.sectors FatBootSector.sector_count
  split_ifs <;> omega

theorem table_start_lt (fat_sb : FatBootSector) : table_start fat_sb < 2 ^ 32 := by
  have hs : fat_sb.sector_size < 256 ^ 2 := fat_sb.field_lt 0x0b 2
  have hr : fat_sb.reserved < 256 ^ 2 := fat_sb.field_lt 0x0e 2
  calc table_start fat_sb = fat_sb.sector_size * fat_sb.reserved := rfl
    _ < 256 ^ 2 * 256 ^ 2 := Nat.mul_lt_mul'' hs hr
    _ = 2 ^ 32 := by norm_num

/-- A sector of the data area is in exactly one cluster. -/
theorem in_cluster_iff {fat_sb : FatBootSector} (hcs : 0 < fat_sb.cluster_size) {n s : ℕ}
    (hn : 2 ≤ n) : in_cluster fat_sb n s ↔
      data_start fat_sb ≤ s ∧ (s - data_start fat_sb) / fat_sb.cluster_size + 2 = n := by
  have hdiv := @Nat.div_eq_iff fat_sb.cluster_size (s - data_start fat_sb) (n - 2) hcs
  unfold in_cluster
  constructor
  · intro h
    have := hdiv.mpr ⟨by omega, by omega⟩
    omega
  · rintro ⟨hs, h⟩
    have := hdiv.mp (by omega)
    omega

/-! ## What the bitmap says -/

section Result

variable {malloc : ℕ → Bool} {stale : ℕ} {FS : fat_kind} {fat_sb : FatBootSector}
  {data : List Byte} {bm bm' : bitmap}

theorem get_root_sec_eq (h : 0 < fat_sb.sector_size) :
    get_root_sec fat_sb = .ok (root_sectors fat_sb) := udiv_of_pos h

theorem get_cluster_count_eq (hss : 0 < fat_sb.sector_size) (hcs : 0 < fat_sb.cluster_size) :
    get_cluster_count fat_sb = .ok (clusters fat_sb) := by
  rw [get_cluster_count, get_root_sec_eq hss, ok_bind, clusters]
  dsimp only
  split_ifs with hfull
  · rw [Nat.sub_eq_zero_of_le (show get_total_sector fat_sb ≤ data_start fat_sb from hfull.le),
      Nat.zero_div]
    rfl
  · exact udiv_of_pos hcs

/-- A walk over sectors that marks them: where it got to, and that nothing was unmarked. -/
structure walked (bm : bitmap) (block : ℕ) (r : ℕ × bitmap) : Prop where
  block : r.1 = block
  length : r.2.length = bm.length
  keeps : ∀ b, bit bm b = true → bit r.2 b = true

theorem walked.trans {bm : bitmap} {block block' : ℕ} {r r' : ℕ × bitmap} (h : walked bm block r)
    (h' : walked r.2 block' r') : walked bm block' r' :=
  ⟨h'.block, h'.length.trans h.length, fun b hb => h'.keeps b (h.keeps b hb)⟩

theorem walked_for_blocks (total left block : ℕ) (hlen : total ≤ 64 * bm.length) :
    walked bm (block + left) (for_blocks pc_set_bit total left block bm) := by
  refine ⟨for_blocks_fst _ _ _ _ _, for_blocks_length pc_set_bit_length _ _ _ _, fun b hb => ?_⟩
  rw [bit_for_blocks_set b _ _ _ hlen, hb, Bool.or_true]

theorem walked_mark_fats (total sec_per_fat : ℕ) :
    ∀ (fats block : ℕ) (bm : bitmap), total ≤ 64 * bm.length →
      walked bm (block + fats * sec_per_fat) (mark_fats total sec_per_fat fats block bm) := by
  intro fats
  induction fats with
  | zero =>
      intro block bm _
      exact ⟨by rw [mark_fats, Nat.zero_mul, Nat.add_zero], rfl, fun b hb => hb⟩
  | succ fats ih =>
      intro block bm hlen
      have hcopy := walked_for_blocks total sec_per_fat block hlen
      have hrest := ih (for_blocks pc_set_bit total sec_per_fat block bm).1
        (for_blocks pc_set_bit total sec_per_fat block bm).2 (by rwa [hcopy.length])
      have hblock : (for_blocks pc_set_bit total sec_per_fat block bm).1 + fats * sec_per_fat
          = block + (fats + 1) * sec_per_fat := by
        rw [hcopy.block, Nat.succ_mul]
        omega
      rw [hblock] at hrest
      exact hcopy.trans hrest

/-- Marking the sectors before the data counts past them. The counter is what the loop over the
clusters starts from. -/
theorem mark_reserved_sectors_spec (h : 0 < fat_sb.sector_size)
    (hlen : get_total_sector fat_sb ≤ 64 * bm.length) :
    ∃ r, mark_reserved_sectors fat_sb bm 0 = .ok r ∧ walked bm (data_start fat_sb) r := by
  have hreserved := walked_for_blocks (get_total_sector fat_sb) fat_sb.reserved 0 hlen
  generalize hr₁ : for_blocks pc_set_bit (get_total_sector fat_sb) fat_sb.reserved 0 bm = r₁
    at hreserved
  have hfats := hreserved.trans (walked_mark_fats (get_total_sector fat_sb)
    (get_sec_per_fat fat_sb) fat_sb.fats r₁.1 r₁.2 (by rwa [hreserved.length]))
  generalize hr₂ : mark_fats (get_total_sector fat_sb) (get_sec_per_fat fat_sb) fat_sb.fats r₁.1 r₁.2
    = r₂ at hfats
  have hroot := hfats.trans (walked_for_blocks (get_total_sector fat_sb) (root_sectors fat_sb) r₂.1
    (by rwa [hfats.length]))
  have hblock : r₂.1 + root_sectors fat_sb = data_start fat_sb := by
    rw [hfats.block, hreserved.block, Nat.zero_add, data_start]
  rw [hblock] at hroot
  refine ⟨for_blocks pc_set_bit (get_total_sector fat_sb) (root_sectors fat_sb) r₂.1 r₂.2, ?_,
    hroot⟩
  rw [mark_reserved_sectors, get_root_sec_eq h, ok_bind]
  simp only [hr₁, hr₂, pure_eq]

/-- The seek to the table. -/
theorem seek_unchecked_table (hdata : 512 ≤ data.length) :
    seek_unchecked ⟨data, 512, false⟩ (u64OfInt (i32 (fat_sb.sector_size * fat_sb.reserved)))
      = at_most ⟨data, 512, false⟩ (seek_start fat_sb data) := by
  have hlt := table_start_lt fat_sb
  rw [← table_start, seek_start, seek_unchecked, at_most]
  by_cases h31 : table_start fat_sb < 2 ^ 31
  · rw [i32_of_lt h31, u64OfInt_natCast (by omega), off_t_of_lt (by omega)]
    by_cases hlen : table_start fat_sb ≤ data.length
    · have hlimit := le_seek_limit ⟨data, 512, false⟩ (table_start fat_sb) (by omega) hlen
      rw [lseek_of_le hlimit, if_pos ⟨h31, hlen⟩, Nat.min_eq_left hlen, Option.getD_some]
    · have hlimit : seek_limit ⟨data, 512, false⟩ < table_start fat_sb := by
        simp only [seek_limit, Bool.false_eq_true, if_false]
        omega
      rw [lseek, if_neg (by omega), if_neg (by tauto), Nat.min_eq_left hdata, Option.getD_none]
  · have hneg : off_t (u64OfInt (i32 (table_start fat_sb))) < 0 := by
      unfold off_t u64OfInt i32 u32 u64
      split_ifs <;> omega
    rw [lseek, if_neg (by omega), if_neg (by tauto), Nat.min_eq_left hdata, Option.getD_none]

theorem read_into_snd (fd : File) (p : ℕ) (old : List Byte) :
    (read_into (at_most fd p) old).2 = at_most fd (p + old.length) := by
  rw [read_into, at_most]
  simp only [slice_min, slice_length, at_most]
  congr 1
  omega

/-- `check_fat_status` reads entry 0, if it reads at all. -/
theorem check_fat_status_snd (stale : ℕ) (FS : fat_kind) (fd : File) (p : ℕ) :
    (check_fat_status stale FS (at_most fd p)).2 = at_most fd (p + FS.status_width) := by
  have hread := fun width => read_into_snd fd p (leBytes width stale)
  simp only [leBytes_length] at hread
  cases FS with
  | unset => rfl
  | FAT_12 => rfl
  | FAT_16 =>
      rw [fat_kind.status_width, ← hread, check_fat_status]
      split_ifs <;> rfl
  | FAT_32 =>
      rw [fat_kind.status_width, ← hread, check_fat_status]
      split_ifs <;> rfl

/-- The boot sector and the descriptor that the calls work with. -/
theorem get_fat_fs_sector_eq (hmalloc : malloc 512 = true) (hboot : slice data 0 512 = fat_sb.bytes) :
    get_fat_fs_sector malloc (some data) = some (fat_sb, ⟨data, 512, false⟩) := by
  obtain ⟨bytes, size⟩ := fat_sb
  dsimp only at hboot
  subst hboot
  rw [get_fat_fs_sector]
  simp only [hmalloc, if_true, dif_pos size]

theorem le_of_boot (hboot : slice data 0 512 = fat_sb.bytes) : 512 ≤ data.length := by
  have hlen := slice_length data 0 512
  rw [hboot, fat_sb.size] at hlen
  omega

/-- A bitmap of the size the handler allocates has a bit for every sector. -/
theorem le_of_sized (hbm : bm.length = BITS_TO_LONGS (get_total_sector fat_sb)) :
    get_total_sector fat_sb ≤ 64 * bm.length := by
  have hlt := get_total_sector_lt fat_sb
  rw [hbm, BITS_TO_LONGS, u64_of_lt (by omega)]
  omega

/-- The bitmap at the start of a scan, with every sector marked, and the walk over the sectors
before the data. -/
theorem marked_reserved (hss : 0 < fat_sb.sector_size)
    (hbm : bm.length = BITS_TO_LONGS (get_total_sector fat_sb)) :
    ∃ r, mark_reserved_sectors fat_sb (pc_init_bitmap bm 0xFF (get_total_sector fat_sb)) 0 = .ok r ∧
      r.1 = data_start fat_sb ∧ r.2.length = bm.length ∧
      ∀ s < get_total_sector fat_sb, bit r.2 s = true := by
  have hle := le_of_sized hbm
  obtain ⟨r, hmark, hwalked⟩ := @mark_reserved_sectors_spec fat_sb
    (pc_init_bitmap bm 0xFF (get_total_sector fat_sb)) hss
    (by rw [pc_init_bitmap_length]; exact hle)
  refine ⟨r, hmark, hwalked.block, by rw [hwalked.length, pc_init_bitmap_length], fun s hs => ?_⟩
  exact hwalked.keeps s (bit_init_ones hbm (by omega))

/-- **What a call does** on a device that is there, up to the loop over the clusters. What is in
front of the loop either returns or is a value, and the status is all that can turn the call back
behind it. -/
theorem read_bitmap_info_eq (hmalloc : malloc 512 = true) (hboot : slice data 0 512 = fat_sb.bytes)
    {cluster_count : ℕ} (hcount : get_cluster_count fat_sb = .ok cluster_count) {r : ℕ × bitmap}
    (hmark : mark_reserved_sectors fat_sb (pc_init_bitmap bm 0xFF (get_total_sector fat_sb)) 0
      = .ok r) :
    read_bitmap_info malloc stale FS (some data) bm
      = if (check_fat_status stale FS (at_most ⟨data, 512, false⟩ (seek_start fat_sb data))).1 ≠ 0
        then .ok (false, r.2)
        else .ok (true, (check_clusters FS (get_total_sector fat_sb) fat_sb.cluster_size
          cluster_count r.1 (at_most ⟨data, 512, false⟩ (scan_start fat_sb FS data)) r.2).2.2) := by
  rw [read_bitmap_info, get_fat_fs_sector_eq hmalloc hboot]
  simp only [hcount, hmark, ok_bind, seek_unchecked_table (le_of_boot hboot), pure_eq,
    check_fat_status_snd, scan_start]

/-- A call that returns TRUE has read the boot sector. -/
theorem malloc_of_true (htrue : read_bitmap_info malloc stale FS (some data) bm = .ok (true, bm')) :
    malloc 512 = true := by
  by_contra hfail
  rw [read_bitmap_info, get_fat_fs_sector, if_neg hfail] at htrue
  cases htrue

/-- **A call that returns TRUE**: every sector outside the clusters is marked, and a cluster's as
its entry says, read where the code reads. The clusters lie one behind the other from `data_start`
on, so the sector says which of them it is in. -/
theorem read_bitmap_info_true (hFS : FS ≠ .unset) (hboot : slice data 0 512 = fat_sb.bytes)
    (hss : 0 < fat_sb.sector_size) (hcs : 0 < fat_sb.cluster_size)
    (hbm : bm.length = BITS_TO_LONGS (get_total_sector fat_sb))
    (htrue : read_bitmap_info malloc stale FS (some data) bm = .ok (true, bm'))
    {s : ℕ} (hs : s < get_total_sector fat_sb) :
    bit bm' s = if data_start fat_sb ≤ s ∧
        s < data_start fat_sb + clusters fat_sb * fat_sb.cluster_size
      then !decide (skips FS (raw_entry FS.width data (scan_start fat_sb FS data)
        ((s - data_start fat_sb) / fat_sb.cluster_size)))
      else true := by
  obtain ⟨r, hmark, hblock, hlen, hones⟩ := marked_reserved hss hbm
  obtain ⟨bm₂, hscan, -, hbit⟩ := @check_clusters_spec FS (get_total_sector fat_sb)
    fat_sb.cluster_size hFS ⟨data, 512, false⟩ (clusters fat_sb) r.1 (scan_start fat_sb FS data) r.2
    (by rw [hlen]; exact le_of_sized hbm)
  rw [read_bitmap_info_eq (malloc_of_true htrue) hboot (get_cluster_count_eq hss hcs) hmark,
    hscan] at htrue
  split_ifs at htrue with hstat
  · cases htrue
  · obtain rfl := (Prod.mk.inj (Except.ok.inj htrue)).2
    rw [hbit s hs, hblock, hones s hs]

/-- **What `read_bitmap_info` clears**: the sectors of the clusters it leaves out. Clusters are
numbered from 2, as the format has it, while the code reads for its first one the entry behind
that of the status. -/
theorem read_bitmap_info_clears (hFS : FS ≠ .unset) (hboot : slice data 0 512 = fat_sb.bytes)
    (hss : 0 < fat_sb.sector_size) (hcs : 0 < fat_sb.cluster_size)
    (hbm : bm.length = BITS_TO_LONGS (get_total_sector fat_sb))
    (htrue : read_bitmap_info malloc stale FS (some data) bm = .ok (true, bm'))
    {s : ℕ} (hs : s < get_total_sector fat_sb) :
    bit bm' s = false ↔ ∃ n, 2 ≤ n ∧ n < clusters fat_sb + 2 ∧ in_cluster fat_sb n s ∧
      dropped fat_sb FS data n := by
  rw [read_bitmap_info_true hFS hboot hss hcs hbm htrue hs]
  have hindex := @Nat.div_lt_iff_lt_mul fat_sb.cluster_size (s - data_start fat_sb)
    (clusters fat_sb) hcs
  split_ifs with hin
  · rw [Bool.not_eq_false', decide_eq_true_iff]
    constructor
    · intro hskip
      have hlt : (s - data_start fat_sb) / fat_sb.cluster_size < clusters fat_sb :=
        hindex.mpr (by omega)
      exact ⟨(s - data_start fat_sb) / fat_sb.cluster_size + 2, Nat.le_add_left 2 _,
        Nat.add_lt_add_right hlt 2, (in_cluster_iff hcs (Nat.le_add_left 2 _)).mpr ⟨hin.1, rfl⟩,
        hskip⟩
    · rintro ⟨n, hn, -, hcluster, hskip⟩
      obtain ⟨-, rfl⟩ := (in_cluster_iff hcs hn).mp hcluster
      exact hskip
  · -- outside the clusters no sector is cleared
    refine iff_of_false (by decide) ?_
    rintro ⟨n, hn, hlt, hcluster, -⟩
    obtain ⟨hs', rfl⟩ := (in_cluster_iff hcs hn).mp hcluster
    have hlast := hindex.mp (Nat.lt_of_add_lt_add_right hlt)
    omega

/-- Every cluster has a sector, and it is one of the volume's. -/
theorem first_sector (hfits : data_start fat_sb ≤ get_total_sector fat_sb)
    (hcs : 0 < fat_sb.cluster_size) {n : ℕ} (hn : 2 ≤ n) (hlt : n < clusters fat_sb + 2) :
    data_start fat_sb + (n - 2) * fat_sb.cluster_size < get_total_sector fat_sb ∧
      in_cluster fat_sb n (data_start fat_sb + (n - 2) * fat_sb.cluster_size) := by
  have hall : clusters fat_sb * fat_sb.cluster_size ≤ get_total_sector fat_sb - data_start fat_sb :=
    Nat.div_mul_le_self _ _
  have hend : (n - 2 + 1) * fat_sb.cluster_size ≤ clusters fat_sb * fat_sb.cluster_size :=
    Nat.mul_le_mul_right _ (by omega)
  rw [Nat.succ_mul] at hend
  exact ⟨by omega, le_rfl, by omega⟩

/-- A bitmap from which whole clusters are taken out tells which. Each cluster has a sector that
no other cluster has. -/
theorem clusters_agree_iff (hfits : data_start fat_sb ≤ get_total_sector fat_sb)
    (hcs : 0 < fat_sb.cluster_size) (P Q : ℕ → Prop) :
    (∀ s < get_total_sector fat_sb,
      (∃ n, 2 ≤ n ∧ n < clusters fat_sb + 2 ∧ in_cluster fat_sb n s ∧ P n) ↔
        ∃ n, 2 ≤ n ∧ n < clusters fat_sb + 2 ∧ in_cluster fat_sb n s ∧ Q n) ↔
      ∀ n, 2 ≤ n → n < clusters fat_sb + 2 → (P n ↔ Q n) := by
  constructor
  · intro hsectors n hn hlt
    -- the first sector of the cluster is in no other
    obtain ⟨hs, hin⟩ := first_sector hfits hcs hn hlt
    have hown : ∀ m, 2 ≤ m →
        in_cluster fat_sb m (data_start fat_sb + (n - 2) * fat_sb.cluster_size) → m = n := by
      intro m hm hm'
      rw [← ((in_cluster_iff hcs hm).mp hm').2]
      exact ((in_cluster_iff hcs hn).mp hin).2
    constructor
    · intro hP
      obtain ⟨m, hm, -, hm', hQ⟩ := (hsectors _ hs).mp ⟨n, hn, hlt, hin, hP⟩
      rwa [hown m hm hm'] at hQ
    · intro hQ
      obtain ⟨m, hm, -, hm', hP⟩ := (hsectors _ hs).mpr ⟨n, hn, hlt, hin, hQ⟩
      rwa [hown m hm hm'] at hP
  · intro hclusters s _
    apply exists_congr
    intro n
    refine and_congr_right fun hn => and_congr_right fun hlt => and_congr_right fun _ => ?_
    exact hclusters n hn hlt

/-- The same clusters, by the entry before their own. -/
def left_out (FS : fat_kind) (fat_sb : FatBootSector) (data : List Byte) (n : ℕ) : Prop :=
  skips FS (raw_entry FS.width data (read_start fat_sb) (n - 1))

theorem dropped_iff_left_out (hFS : FS = .FAT_16 ∨ FS = .FAT_32) (h : fat_volume fat_sb FS data)
    {n : ℕ} (hn : 2 ≤ n) : dropped fat_sb FS data n ↔ left_out FS fat_sb data n := by
  have htable := h.table
  have hstart : seek_start fat_sb data = read_start fat_sb := by
    rw [seek_start, read_start]
    split_ifs <;> omega
  have hwidth : FS.status_width = FS.width := by
    rcases hFS with rfl | rfl <;> rfl
  have hindex : n - 1 = n - 2 + 1 := by omega
  rw [dropped, left_out, scan_start, hstart, hwidth, hindex, raw_entry_succ]

/-! ## Against the table

What has been cleared is known by now, and it is compared with what the entries of the clusters
say. -/

/-- Entry number `n` of the table, for FAT32 without its four reserved bits. -/
def fat_entry (FS : fat_kind) (fat_sb : FatBootSector) (data : List Byte) (n : ℕ) : ℕ :=
  match FS with
  | .FAT_32 => raw_entry 4 data (table_start fat_sb) n % 2 ^ 28
  | _ => raw_entry 2 data (table_start fat_sb) n

/-- A cluster without data. -/
def free_or_bad (FS : fat_kind) (entry : ℕ) : Prop := entry = 0 ∨ entry = FS.bad

/-- The clear sectors are those of the free and the bad clusters. It is a condition on the bitmap
and the volume, with no mention of how the one is made from the other. -/
def exact_bitmap (FS : fat_kind) (fat_sb : FatBootSector) (data : List Byte) (bm : bitmap) :
    Prop :=
  ∀ s < get_total_sector fat_sb, bit bm s = false ↔
    ∃ n, 2 ≤ n ∧ n < clusters fat_sb + 2 ∧ in_cluster fat_sb n s ∧
      free_or_bad FS (fat_entry FS fat_sb data n)

/-- Every cluster is judged as its own entry says. Only whether an entry leaves its cluster out is
compared, not what it says besides. -/
def judged_alike (FS : fat_kind) (fat_sb : FatBootSector) (data : List Byte) : Prop :=
  ∀ n, 2 ≤ n → n < clusters fat_sb + 2 →
    (left_out FS fat_sb data n ↔ free_or_bad FS (fat_entry FS fat_sb data n))

/-- **When the bitmap is exact.** The entry before a cluster's own has to say the same. The scan
starts one entry behind the status, where the table still describes no cluster, so each cluster is
judged by the entry in front of its own. Both are in the table, and a cluster has a sector to tell
the two judgements apart. -/
theorem read_bitmap_info_exact_iff (hFS : FS = .FAT_16 ∨ FS = .FAT_32)
    (h : fat_volume fat_sb FS data)
    (hbm : bm.length = BITS_TO_LONGS (get_total_sector fat_sb))
    (htrue : read_bitmap_info malloc stale FS (some data) bm = .ok (true, bm')) :
    exact_bitmap FS fat_sb data bm' ↔ judged_alike FS fat_sb data := by
  have hunset : FS ≠ .unset := by
    rcases hFS with rfl | rfl <;> decide
  have hclears : ∀ s < get_total_sector fat_sb, bit bm' s = false ↔
      ∃ n, 2 ≤ n ∧ n < clusters fat_sb + 2 ∧ in_cluster fat_sb n s ∧ left_out FS fat_sb data n := by
    intro s hs
    rw [read_bitmap_info_clears hunset h.boot h.sector_size h.cluster_size hbm htrue hs]
    apply exists_congr
    intro n
    refine and_congr_right fun hn => and_congr_right fun _ => and_congr_right fun _ => ?_
    exact dropped_iff_left_out hFS h hn
  rw [judged_alike, ← clusters_agree_iff h.fits h.cluster_size, exact_bitmap]
  apply forall₂_congr
  intro s hs
  rw [hclears s hs]

end Result

section Volume

/-- A FAT32 boot sector: sectors of 512 bytes, one of them reserved, one for the table and
two clusters of one sector. -/
def small_boot : List Byte :=
  List.replicate 0x0b 0 ++ leBytes 2 512 ++ leBytes 1 1 ++ leBytes 2 1 ++ leBytes 1 1
    ++ leBytes 2 0 ++ leBytes 2 4 ++ leBytes 1 0xf8 ++ leBytes 2 0 ++ List.replicate 12 0
    ++ leBytes 4 1 ++ List.replicate 472 0

def small_sector : FatBootSector := ⟨small_boot, by decide +kernel⟩

/-- The volume with these four entries in its table. -/
def small_volume (e₀ e₁ e₂ e₃ : ℕ) : List Byte :=
  small_boot ++ (leBytes 4 e₀ ++ leBytes 4 e₁ ++ leBytes 4 e₂ ++ leBytes 4 e₃
    ++ List.replicate 1520 0)

theorem small_volume_fits (e₀ e₁ e₂ e₃ : ℕ) :
    fat_volume small_sector .FAT_32 (small_volume e₀ e₁ e₂ e₃) where
  boot := List.take_left' small_sector.size
  sector_size := by decide +kernel
  cluster_size := by decide +kernel
  fits := by decide +kernel
  table := by
    have hboot : small_boot.length = 512 := small_sector.size
    have htable : table_start small_sector + (clusters small_sector + 2) * fat_kind.FAT_32.width
        = 528 := by decide +kernel
    simp only [htable, small_volume, List.length_append, leBytes_length, List.length_replicate,
      hboot, Nat.reduceAdd, Nat.reduceLeDiff]

/-- With both clusters in use nothing is left out. -/
theorem full_volume_exact :
    get_fat_fs_type small_sector = .ok (some .FAT_32) ∧
    exact_bitmap .FAT_32 small_sector
      (small_volume 0x0FFFFFF8 0x0FFFFFFF 0x0FFFFFFF 0x0FFFFFFF) [BitVec.allOnes 64] := by
  refine ⟨by decide +kernel, ?_⟩
  have htrue : read_bitmap_info (fun _ => true) 0 .FAT_32
      (some (small_volume 0x0FFFFFF8 0x0FFFFFFF 0x0FFFFFFF 0x0FFFFFFF)) [0]
      = .ok (true, [BitVec.allOnes 64]) := by decide +kernel
  refine (read_bitmap_info_exact_iff (Or.inr rfl) (small_volume_fits _ _ _ _) (by decide +kernel)
    htrue).mpr ?_
  have hcount : clusters small_sector + 2 = 4 := by decide +kernel
  intro n hn hlt
  obtain rfl | rfl : n = 2 ∨ n = 3 := by omega
  · exact iff_of_false (by unfold left_out; decide +kernel) (by unfold free_or_bad; decide +kernel)
  · exact iff_of_false (by unfold left_out; decide +kernel) (by unfold free_or_bad; decide +kernel)

/-- **An allocated cluster is dropped**: behind a free one, cluster 3 is left out, though its own
entry ends a chain. Entry 2 is free, and it is the one that cluster 3 is judged by. -/
theorem allocated_cluster_dropped :
    ∃ bm', fat_volume small_sector .FAT_32 (small_volume 0x0FFFFFF8 0x0FFFFFFF 0 0x0FFFFFFF) ∧
      get_fat_fs_type small_sector = .ok (some .FAT_32) ∧
      read_bitmap_info (fun _ => true) 0 .FAT_32
        (some (small_volume 0x0FFFFFF8 0x0FFFFFFF 0 0x0FFFFFFF)) [0] = .ok (true, bm') ∧
      fat_entry .FAT_32 small_sector (small_volume 0x0FFFFFF8 0x0FFFFFFF 0 0x0FFFFFFF) 3
        = 0x0FFFFFFF ∧
      in_cluster small_sector 3 3 ∧ bit bm' 3 = false ∧
      ¬ exact_bitmap .FAT_32 small_sector (small_volume 0x0FFFFFF8 0x0FFFFFFF 0 0x0FFFFFFF)
        bm' := by
  have hentry : fat_entry .FAT_32 small_sector (small_volume 0x0FFFFFF8 0x0FFFFFFF 0 0x0FFFFFFF) 3
      = 0x0FFFFFFF := by decide +kernel
  have hin : in_cluster small_sector 3 3 := by unfold in_cluster; decide +kernel
  refine ⟨[BitVec.ofNat 64 (2 ^ 64 - 9)], small_volume_fits _ _ _ _, by decide +kernel,
    by decide +kernel, hentry, hin, by decide +kernel, fun hexact => ?_⟩
  obtain ⟨n, hn, -, hcluster, hfree⟩ := (hexact 3 (by decide +kernel)).mp (by decide +kernel)
  have hcs : 0 < small_sector.cluster_size := by decide +kernel
  obtain rfl : n = 3 := by
    rw [← ((in_cluster_iff hcs hn).mp hcluster).2, ((in_cluster_iff hcs (by decide)).mp hin).2]
  rw [hentry] at hfree
  exact absurd hfree (by unfold free_or_bad; decide)

end Volume

end SysbakAdmin.Fat

/-
The other calls of `gdbus-fatfs.c` on a boot sector: `read_super_blocks`, which classifies
the volume and counts its used sectors with a scan of its own, `get_used_block`.

The two scans are written twice and have to agree, since the count goes into the header of
the image and the bitmap decides what follows. And both divide by fields of the boot sector
as it was read: what device they survive is a condition on those fields.

`memset` and `strncpy` through a null pointer stop the daemon.

That both touch bits of the volume only is a statement about calls and not about results:
an index behind the bitmap leaves no trace in what a scan returns. So each scan is written
down a second time with a list of the bits it has asked for or changed (`watched`), and
`watched_read_bitmap_info_eq` and `watched_get_used_block_eq` say that this changes nothing
else: watched or not, the bitmap, the count and the outcome are the same on every device and
in any memory. What is proved of the lists is then proved of the scans.
-/
import SysbakAdmin.Fat
import SysbakAdmin.PtfRun

set_option autoImplicit false

namespace SysbakAdmin.Fat

open LittleEndian ByteStore CInt CMemory FileIo PackedRecord Bitmap Io Share PtfRun

/-! ## The code -/

/-- The name that `get_fat_fs_type` returns. -/
def fat_kind.name : fat_kind → List Byte
  | .FAT_12 => [0x46, 0x41, 0x54, 0x31, 0x32]
  | .FAT_16 => [0x46, 0x41, 0x54, 0x31, 0x36]
  | .FAT_32 => [0x46, 0x41, 0x54, 0x33, 0x32]
  | .unset => []

def FS_MAGIC_SIZE : ℕ := 15

/-- `strncpy` of a name into `fs_info->fs`, which is one byte longer than `n`. -/
def strncpy (old : Bytes 16) (src : List Byte) (n : ℕ) : Bytes 16 :=
  Bytes.ofList 16 ((src ++ List.replicate n 0).take n ++ old.1.drop n)

/-- The last loop of `get_used_block`. -/
def count_used (total_sector : ℕ) (bm : bitmap) : ℕ :=
  ((List.range total_sector).filter fun block => pc_test_bit block bm total_sector ≠ 0).length

/-- `get_used_block`; the walk that marks what is left behind the clusters is its `while`. -/
def get_used_block (calloc : ℕ → Bool) (stale : ℕ) (FS : fat_kind) (fat_sb : FatBootSector)
    (fd : File) : Run ℕ := do
  let total_sector := get_total_sector fat_sb
  let cluster_count ← get_cluster_count fat_sb
  match pc_alloc_bitmap calloc total_sector with
  | none => .error .outOfBounds
  | some fat_bitmap => do
      let fat_bitmap := pc_init_bitmap fat_bitmap 0xFF total_sector
      let (block, fat_bitmap) ← mark_reserved_sectors fat_sb fat_bitmap 0
      let FatReservedBytes := i32 (fat_sb.sector_size * fat_sb.reserved)
      let fd := (lseek fd FatReservedBytes).getD fd
      let (fat_stat, fd) := check_fat_status stale FS fd
      if fat_stat ≠ 0 then pure 0
      else
        let (block, _, fat_bitmap) := check_clusters FS total_sector fat_sb.cluster_size
          cluster_count block fd fat_bitmap
        let fat_bitmap := (for_blocks pc_set_bit total_sector (total_sector - block) block
          fat_bitmap).2
        pure (count_used total_sector fat_bitmap)

/-- `read_super_blocks`: what it returns, `FS`, and the description of the file system. -/
def read_super_blocks (malloc calloc : ℕ → Bool) (stale : ℕ) (FS : fat_kind)
    (device : Option (List Byte)) (fs_info : file_system_info) :
    Run (Bool × fat_kind × file_system_info) :=
  match get_fat_fs_sector malloc device with
  | none => pure (false, FS, fs_info)
  | some (fat_sb, fd) => do
      match ← get_fat_fs_type fat_sb with
      | none => .error .outOfBounds
      | some FS => do
          let total_sector := get_total_sector fat_sb
          let bused ← get_used_block calloc stale FS fat_sb fd
          pure (true, FS, { fs_info with
            fs := strncpy fs_info.fs FS.name FS_MAGIC_SIZE
            block_size := BitVec.ofNat 32 fat_sb.sector_size
            totalblock := BitVec.ofNat 64 total_sector
            usedblocks := BitVec.ofNat 64 bused
            device_size := BitVec.ofNat 64 (total_sector * fat_sb.sector_size) })

/-! ## The count -/

section Count

variable {calloc : ℕ → Bool} {stale : ℕ} {FS : fat_kind} {fat_sb : FatBootSector}
  {data : List Byte}

/-- `get_cluster_count` divides twice. -/
theorem get_cluster_count_ok_iff :
    (∃ cluster_count, get_cluster_count fat_sb = .ok cluster_count) ↔
      fat_sb.sector_size ≠ 0 ∧
        (fat_sb.cluster_size ≠ 0 ∨ get_total_sector fat_sb < data_start fat_sb) := by
  rcases Nat.eq_zero_or_pos fat_sb.sector_size with hss | hss
  · have hroot : get_root_sec fat_sb = .error .divideByZero := by
      rw [get_root_sec, hss, udiv_zero]
    refine iff_of_false ?_ (fun h => h.1 hss)
    rintro ⟨cluster_count, h⟩
    rw [get_cluster_count, hroot] at h
    cases h
  · rcases Nat.eq_zero_or_pos fat_sb.cluster_size with hcs | hcs
    · rw [get_cluster_count, get_root_sec_eq hss, ok_bind, hcs]
      change (∃ c, (if data_start fat_sb > get_total_sector fat_sb then _ else _) = _) ↔ _
      split_ifs with hfull
      · exact iff_of_true ⟨0, rfl⟩ ⟨hss.ne', Or.inr hfull⟩
      · refine iff_of_false ?_ (fun h => h.2.elim (fun h => h rfl) hfull)
        rintro ⟨cluster_count, h⟩
        rw [udiv_zero] at h
        cases h
    · exact iff_of_true ⟨_, get_cluster_count_eq hss hcs⟩ ⟨hss.ne', Or.inl hcs.ne'⟩

/-- An `int` comes back from `ull` as it went. -/
theorem off_t_u64OfInt_i32 (n : ℕ) : off_t (u64OfInt (i32 n)) = i32 n := by
  unfold off_t u64OfInt i32 u32 u64
  split_ifs <;> omega

/-- **What `get_used_block` counts**, after the same walk that `read_bitmap_info` makes. Both
scans call the same two loops in the same order, and this one starts from a bitmap of its own, so
what is known of the loops need not be proved again. -/
theorem get_used_block_eq (hdata : 512 ≤ data.length)
    (hcalloc : calloc (8 * BITS_TO_LONGS (get_total_sector fat_sb)) = true) {cluster_count : ℕ}
    (hcount : get_cluster_count fat_sb = .ok cluster_count) {r : ℕ × bitmap}
    (hmark : mark_reserved_sectors fat_sb (pc_init_bitmap
      (List.replicate (BITS_TO_LONGS (get_total_sector fat_sb)) 0) 0xFF (get_total_sector fat_sb)) 0
        = .ok r) {t : ℕ × File × bitmap}
    (hscan : check_clusters FS (get_total_sector fat_sb) fat_sb.cluster_size cluster_count r.1
      (at_most ⟨data, 512, false⟩ (scan_start fat_sb FS data)) r.2 = t) :
    get_used_block calloc stale FS fat_sb ⟨data, 512, false⟩
      = if (check_fat_status stale FS (at_most ⟨data, 512, false⟩ (seek_start fat_sb data))).1 ≠ 0
        then .ok 0
        else .ok (count_used (get_total_sector fat_sb) (for_blocks pc_set_bit
          (get_total_sector fat_sb) (get_total_sector fat_sb - t.1) t.1 t.2.2).2) := by
  have halloc : pc_alloc_bitmap calloc (get_total_sector fat_sb)
      = some (List.replicate (BITS_TO_LONGS (get_total_sector fat_sb)) 0) := if_pos hcalloc
  have hseek := @seek_unchecked_table fat_sb data hdata
  rw [seek_unchecked, off_t_u64OfInt_i32] at hseek
  rw [scan_start, ← check_fat_status_snd stale FS] at hscan
  rw [get_used_block]
  simp only [hcount, ok_bind, halloc, hmark, hseek, pure_eq, hscan]

/-- The call stops where it divides by zero, or where there is no memory for its bitmap. -/
theorem get_used_block_ok_iff (hdata : 512 ≤ data.length) :
    (∃ used, get_used_block calloc stale FS fat_sb ⟨data, 512, false⟩ = .ok used) ↔
      (fat_sb.sector_size ≠ 0 ∧
        (fat_sb.cluster_size ≠ 0 ∨ get_total_sector fat_sb < data_start fat_sb)) ∧
      calloc (8 * BITS_TO_LONGS (get_total_sector fat_sb)) = true := by
  rw [← get_cluster_count_ok_iff]
  constructor
  · rintro ⟨used, h⟩
    rw [get_used_block] at h
    obtain ⟨cluster_count, hcount, h⟩ := bind_eq_ok.mp h
    refine ⟨⟨cluster_count, hcount⟩, ?_⟩
    by_contra hcalloc
    rw [pc_alloc_bitmap, if_neg hcalloc] at h
    cases h
  · rintro ⟨⟨cluster_count, hcount⟩, hcalloc⟩
    have hss := (get_cluster_count_ok_iff.mp ⟨cluster_count, hcount⟩).1
    obtain ⟨r, hmark, -⟩ := @marked_reserved fat_sb _ (Nat.pos_of_ne_zero hss)
      (List.length_replicate (n := BITS_TO_LONGS (get_total_sector fat_sb)) (a := 0))
    rw [get_used_block_eq hdata hcalloc hcount hmark rfl]
    split_ifs
    · exact ⟨_, rfl⟩
    · exact ⟨_, rfl⟩

end Count

/-! ## Which boot sectors the calls survive -/

section Header

variable (fat_sb : FatBootSector)

/-- The branch of `get_fat_fs_type` for the narrow types. -/
def narrow : Prop :=
  fat_sb.fat16_ext_signature = 0x29 ∨ (fat_sb.fat_length ≠ 0 ∧ fat_sb.fat32_fat_length = 0)

instance : Decidable (narrow fat_sb) := inferInstanceAs (Decidable (_ ∨ _))

/-- The bytes before the data, as that branch adds them up. -/
def front_bytes : ℕ :=
  (fat_sb.reserved + fat_sb.fats * fat_sb.fat_length) * fat_sb.sector_size
    + ROUND_TO_MULTIPLE (fat_sb.dir_entries * 32) fat_sb.sector_size

/-- A header of a FAT volume: its divisors are not zero where they are used, a narrow one has
room for a cluster, and a wide one says that it is. -/
def sound_header : Prop :=
  fat_sb.sector_size ≠ 0 ∧
    if narrow fat_sb then
      fat_sb.cluster_size ≠ 0 ∧
        front_bytes fat_sb + fat_sb.cluster_size * fat_sb.sector_size
          ≤ get_total_sector fat_sb * fat_sb.sector_size
    else
      (fat_sb.fat32_fat_name_4 = 0x32 ∨ (fat_sb.fat_length = 0 ∧ fat_sb.fat32_fat_length ≠ 0)) ∧
        (fat_sb.cluster_size ≠ 0 ∨ get_total_sector fat_sb < data_start fat_sb)

end Header

section Survives

variable {malloc calloc : ℕ → Bool} {stale stale' : ℕ} {FS FS' : fat_kind}
  {fat_sb : FatBootSector} {data : List Byte} {bm : bitmap} {fs_info : file_system_info}

/-- The branch of the narrow types, with the bytes before the data by name. -/
theorem get_fat_fs_type_of_narrow (hnarrow : narrow fat_sb) :
    get_fat_fs_type fat_sb
      = if ((get_total_sector fat_sb * fat_sb.sector_size : ℕ) - (front_bytes fat_sb : ℕ) : ℤ) ≤ 0
        then pure none
        else udiv ((get_total_sector fat_sb * fat_sb.sector_size : ℕ)
            - (front_bytes fat_sb : ℕ) : ℤ).toNat (fat_sb.cluster_size * fat_sb.sector_size) >>=
          fun clusters => if clusters = 0 then pure none
            else if clusters ≥ FAT12_THRESHOLD then pure (some .FAT_16)
            else pure (some .FAT_12) := if_pos hnarrow

/-- **When a type is found**, for sectors that are not empty. FAT12 and FAT16 share a branch, in
which any cluster will do, so there it comes to whether one has room behind the front; a wide
volume is taken at its word. -/
theorem get_fat_fs_type_some_iff (hss : fat_sb.sector_size ≠ 0) :
    (∃ FS, get_fat_fs_type fat_sb = .ok (some FS)) ↔
      if narrow fat_sb then
        fat_sb.cluster_size ≠ 0 ∧
          front_bytes fat_sb + fat_sb.cluster_size * fat_sb.sector_size
            ≤ get_total_sector fat_sb * fat_sb.sector_size
      else fat_sb.fat32_fat_name_4 = 0x32 ∨
        (fat_sb.fat_length = 0 ∧ fat_sb.fat32_fat_length ≠ 0) := by
  by_cases hnarrow : narrow fat_sb
  · rw [get_fat_fs_type_of_narrow hnarrow, if_pos hnarrow]
    generalize get_total_sector fat_sb * fat_sb.sector_size = total
    generalize front_bytes fat_sb = front
    have hdiff : ((total : ℤ) - (front : ℤ)).toNat = total - front := by omega
    rw [hdiff]
    -- the quotient is the number of clusters, and it has to be there and positive
    rcases Nat.eq_zero_or_pos fat_sb.cluster_size with hcs | hcs
    · rw [hcs, Nat.zero_mul, udiv_zero]
      refine iff_of_false ?_ (fun h => h.1 rfl)
      rintro ⟨FS, h⟩
      split_ifs at h
      · cases h
      · cases h
    · have hpos : 0 < fat_sb.cluster_size * fat_sb.sector_size :=
        Nat.mul_pos hcs (Nat.pos_of_ne_zero hss)
      rw [udiv_of_pos hpos, ok_bind]
      have hzero := @Nat.div_eq_zero_iff (total - front) (fat_sb.cluster_size * fat_sb.sector_size)
      split_ifs with hfull hnone h16
      · refine iff_of_false (fun ⟨_, h⟩ => by cases h) (fun h => ?_)
        omega
      · refine iff_of_false (fun ⟨_, h⟩ => by cases h) (fun h => ?_)
        omega
      · exact iff_of_true ⟨_, rfl⟩ ⟨hcs.ne', by omega⟩
      · exact iff_of_true ⟨_, rfl⟩ ⟨hcs.ne', by omega⟩
  · have htype : get_fat_fs_type fat_sb
        = if fat_sb.fat32_fat_name_4 = 0x32 ∨
            (fat_sb.fat_length = 0 ∧ fat_sb.fat32_fat_length ≠ 0) then pure (some .FAT_32)
          else pure none := if_neg hnarrow
    rw [htype, if_neg hnarrow]
    split_ifs with hwide
    · exact iff_of_true ⟨_, rfl⟩ hwide
    · exact iff_of_false (fun ⟨_, h⟩ => by cases h) hwide

theorem get_fat_fs_type_ne_unset (h : get_fat_fs_type fat_sb = .ok (some FS)) : FS ≠ .unset := by
  rintro rfl
  rw [get_fat_fs_type] at h
  dsimp only at h
  split_ifs at h
  · cases h
  · obtain ⟨clusters, -, h⟩ := bind_eq_ok.mp h
    split_ifs at h <;> cases h
  · cases h
  · cases h

/-- Both calls return, and `read_super_blocks` with TRUE only where it has copied a name. A null
pointer that is handed to `memset` or `strncpy` counts as a fault, and so does a division by zero.
-/
def survives (malloc calloc : ℕ → Bool) (stale stale' : ℕ) (FS FS' : fat_kind)
    (device : Option (List Byte)) (fs_info : file_system_info) (bm : bitmap) : Prop :=
  (∃ ok found fs_info', read_super_blocks malloc calloc stale FS device fs_info
      = .ok (ok, found, fs_info') ∧
    (ok = true → found ≠ .unset ∧
      fs_info'.fs = strncpy fs_info.fs found.name FS_MAGIC_SIZE)) ∧
  ∃ ok bm', read_bitmap_info malloc stale' FS' device bm = .ok (ok, bm')

/-- A device that is there: its first 512 bytes. -/
theorem get_fat_fs_sector_some {device : Option (List Byte)} {fd : File}
    (h : get_fat_fs_sector malloc device = some (fat_sb, fd)) :
    ∃ data, device = some data ∧ malloc 512 = true ∧ slice data 0 512 = fat_sb.bytes ∧
      fd = ⟨data, 512, false⟩ := by
  unfold get_fat_fs_sector at h
  split at h
  · cases h
  · rename_i data
    split_ifs at h with hmalloc hlen
    obtain ⟨rfl, rfl⟩ := Prod.mk.inj (Option.some.inj h)
    exact ⟨data, rfl, hmalloc, rfl, rfl⟩

/-- The description that a successful call makes. -/
def described (fs_info : file_system_info) (fat_sb : FatBootSector) (FS : fat_kind) (used : ℕ) :
    file_system_info :=
  { fs_info with
    fs := strncpy fs_info.fs FS.name FS_MAGIC_SIZE
    block_size := BitVec.ofNat 32 fat_sb.sector_size
    totalblock := BitVec.ofNat 64 (get_total_sector fat_sb)
    usedblocks := BitVec.ofNat 64 used
    device_size := BitVec.ofNat 64 (get_total_sector fat_sb * fat_sb.sector_size) }

theorem read_super_blocks_eq {device : Option (List Byte)} {fd : File} {used : ℕ}
    (hsec : get_fat_fs_sector malloc device = some (fat_sb, fd))
    (htype : get_fat_fs_type fat_sb = .ok (some FS))
    (hused : get_used_block calloc stale FS fat_sb fd = .ok used) :
    read_super_blocks malloc calloc stale FS' device fs_info
      = .ok (true, FS, described fs_info fat_sb FS used) := by
  rw [read_super_blocks, hsec]
  simp only [htype, hused, ok_bind, pure_eq]
  rfl

/-- **The devices the two calls survive**: those without a boot sector, and those with a sound
one, if there is memory for the bitmap. The other direction takes the header apart: each of its
clauses that fails is a division by zero, or a null pointer that `strncpy` or `memset` is handed,
in one of the two calls. -/
theorem survives_iff (malloc calloc : ℕ → Bool) (stale stale' : ℕ) (FS FS' : fat_kind)
    (device : Option (List Byte)) (fs_info : file_system_info) (bm : bitmap) :
    survives malloc calloc stale stale' FS FS' device fs_info bm ↔
      ∀ fat_sb fd, get_fat_fs_sector malloc device = some (fat_sb, fd) →
        sound_header fat_sb ∧ calloc (8 * BITS_TO_LONGS (get_total_sector fat_sb)) = true := by
  cases hsec : get_fat_fs_sector malloc device with
  | none =>
      refine iff_of_true ⟨⟨false, FS, fs_info, ?_, fun h => by cases h⟩, false, bm, ?_⟩
        (fun _ _ h => by cases h)
      · rw [read_super_blocks, hsec]
        rfl
      · rw [read_bitmap_info, hsec]
        rfl
  | some found =>
      obtain ⟨fat_sb, fd⟩ := found
      obtain ⟨data, rfl, hmalloc, hboot, rfl⟩ := get_fat_fs_sector_some hsec
      have hdata := le_of_boot hboot
      -- the two functions divide by the same sizes, and only the first one allocates
      constructor
      · rintro ⟨⟨ok, found, fs_info', h, -⟩, -⟩ _ _ heq
        obtain ⟨rfl, rfl⟩ := Prod.mk.inj (Option.some.inj heq)
        rw [read_super_blocks, hsec] at h
        obtain ⟨type, htype, h⟩ := bind_eq_ok.mp h
        cases type with
        | none => cases h
        | some FS =>
            obtain ⟨used, hused, -⟩ := bind_eq_ok.mp h
            obtain ⟨⟨hss, hcs⟩, hcalloc⟩ := (get_used_block_ok_iff hdata).mp ⟨used, hused⟩
            have hsome := (get_fat_fs_type_some_iff hss).mp ⟨FS, htype⟩
            refine ⟨⟨hss, ?_⟩, hcalloc⟩
            split_ifs at hsome ⊢
            · exact hsome
            · exact ⟨hsome, hcs⟩
      · intro h
        obtain ⟨⟨hss, hrest⟩, hcalloc⟩ := h fat_sb _ rfl
        have hcs : fat_sb.cluster_size ≠ 0 ∨ get_total_sector fat_sb < data_start fat_sb := by
          split_ifs at hrest
          · exact Or.inl hrest.1
          · exact hrest.2
        obtain ⟨type, htype⟩ := (get_fat_fs_type_some_iff hss).mpr (by
          split_ifs at hrest ⊢
          · exact hrest
          · exact hrest.1)
        obtain ⟨used, hused⟩ := (@get_used_block_ok_iff calloc stale type fat_sb data hdata).mpr
          ⟨⟨hss, hcs⟩, hcalloc⟩
        obtain ⟨cluster_count, hcount⟩ := get_cluster_count_ok_iff.mpr ⟨hss, hcs⟩
        -- with the sizes nonzero the reserved sectors are no further condition
        obtain ⟨r, hmark⟩ : ∃ r, mark_reserved_sectors fat_sb
            (pc_init_bitmap bm 0xFF (get_total_sector fat_sb)) 0 = .ok r := by
          rw [mark_reserved_sectors, get_root_sec_eq (Nat.pos_of_ne_zero hss), ok_bind]
          exact ⟨_, rfl⟩
        constructor
        · exact ⟨true, type, described fs_info fat_sb type used,
            read_super_blocks_eq hsec htype hused, fun _ => ⟨get_fat_fs_type_ne_unset htype, rfl⟩⟩
        · rw [read_bitmap_info_eq hmalloc hboot hcount hmark]
          split_ifs
          · exact ⟨false, _, rfl⟩
          · exact ⟨true, _, rfl⟩

end Survives

/-- An empty device is not rejected: it has no type to copy, and no sector size to divide by. -/
theorem empty_sector_not_survived :
    read_super_blocks (fun _ => true) (fun _ => true) 0 .unset (some (List.replicate 512 0))
        init_file_system_info = .error .outOfBounds ∧
      read_bitmap_info (fun _ => true) 0 .unset (some (List.replicate 512 0)) [0]
        = .error .divideByZero ∧
      ¬ survives (fun _ => true) (fun _ => true) 0 0 .unset .unset
        (some (List.replicate 512 0)) init_file_system_info [0] := by
  have hread : read_super_blocks (fun _ => true) (fun _ => true) 0 .unset
      (some (List.replicate 512 0)) init_file_system_info = .error .outOfBounds := by
    decide +kernel
  refine ⟨hread, by decide +kernel, ?_⟩
  rintro ⟨⟨ok, found, fs_info', h, -⟩, -⟩
  rw [hread] at h
  cases h

/-! ## Which bits a scan touches

`pc_set_bit` and its siblings leave a bit beyond the total alone, so that a bitmap does not
show whether a scan went there. The scans are run once more on a bitmap that keeps a record of
the bits it is called for: `watched_read_bitmap_info` and `watched_get_used_block` are the two
functions line by line, and return what these return (`watched_read_bitmap_info_eq`,
`watched_get_used_block_eq`). -/

/-- A bitmap, and the bits that were asked for, set or cleared, in the order of the calls. -/
structure watched where
  bm : bitmap
  touched : List ℕ

/-- A call of `pc_set_bit` or `pc_clear_bit`. -/
def watch (op : ℕ → bitmap → ℕ → Bool × bitmap) (nr : ℕ) (w : watched) (total : ℕ) : watched :=
  ⟨(op nr w.bm total).2, w.touched ++ [nr]⟩

def watched_for_blocks (op : ℕ → bitmap → ℕ → Bool × bitmap) (total : ℕ) :
    ℕ → ℕ → watched → ℕ × watched
  | 0, block, w => (block, w)
  | left + 1, block, w => watched_for_blocks op total left (block + 1) (watch op block w total)

def watched_mark_fats (total_block sec_per_fat : ℕ) : ℕ → ℕ → watched → ℕ × watched
  | 0, block, w => (block, w)
  | fats + 1, block, w =>
      let r := watched_for_blocks pc_set_bit total_block sec_per_fat block w
      watched_mark_fats total_block sec_per_fat fats r.1 r.2

def watched_mark_reserved_sectors (fat_sb : FatBootSector) (w : watched) (block : ℕ) :
    Run (ℕ × watched) := do
  let total_block := get_total_sector fat_sb
  let sec_per_fat := get_sec_per_fat fat_sb
  let root_sec ← get_root_sec fat_sb
  let r := watched_for_blocks pc_set_bit total_block fat_sb.reserved block w
  let r := watched_mark_fats total_block sec_per_fat fat_sb.fats r.1 r.2
  pure (watched_for_blocks pc_set_bit total_block root_sec r.1 r.2)

def watched_check_entry (total_block cluster_size block : ℕ) (fd : File) (w : watched) (width : ℕ)
    (decode : ℕ → ℕ) (bad : ℕ) : ℕ × File × watched :=
  let r := read_into fd (leBytes width 0)
  let entry := decode (ofLe r.1)
  let s :=
    if entry = bad then watched_for_blocks pc_clear_bit total_block cluster_size block w
    else if entry = 0 then watched_for_blocks pc_clear_bit total_block cluster_size block w
    else watched_for_blocks pc_set_bit total_block cluster_size block w
  (s.1, r.2, s.2)

def watched_check_cluster (total_block cluster_size block : ℕ) (fd : File) (w : watched)
    (FS : fat_kind) : ℕ × File × watched :=
  match FS with
  | .FAT_16 => watched_check_entry total_block cluster_size block fd w 2 id 0xFFF7
  | .FAT_32 => watched_check_entry total_block cluster_size block fd w 4 id 0x0FFFFFF7
  | .FAT_12 => watched_check_entry total_block cluster_size block fd w 2 (· >>> 4) 0xFF7
  | .unset => (block, fd, w)

def watched_check_clusters (FS : fat_kind) (total_block cluster_size : ℕ) :
    ℕ → ℕ → File → watched → ℕ × File × watched
  | 0, block, fd, w => (block, fd, w)
  | left + 1, block, fd, w =>
      let r := watched_check_cluster total_block cluster_size block fd w FS
      watched_check_clusters FS total_block cluster_size left r.1 r.2.1 r.2.2

/-- `read_bitmap_info`, watched. -/
def watched_read_bitmap_info (malloc : ℕ → Bool) (stale : ℕ) (FS : fat_kind)
    (device : Option (List Byte)) (w : watched) : Run (Bool × watched) :=
  match get_fat_fs_sector malloc device with
  | none => pure (false, w)
  | some (fat_sb, fd) => do
      let total_sector := get_total_sector fat_sb
      let cluster_count ← get_cluster_count fat_sb
      let w := { w with bm := pc_init_bitmap w.bm 0xFF total_sector }
      let (block, w) ← watched_mark_reserved_sectors fat_sb w 0
      let FatReservedBytes := u64OfInt (i32 (fat_sb.sector_size * fat_sb.reserved))
      let fd := seek_unchecked fd FatReservedBytes
      let (fat_stat, fd) := check_fat_status stale FS fd
      if fat_stat ≠ 0 then pure (false, w)
      else
        pure (true, (watched_check_clusters FS total_sector fat_sb.cluster_size cluster_count block
          fd w).2.2)

/-- The last loop of `get_used_block`, `real_back_block` counted so far. -/
def watched_count (total_sector : ℕ) : ℕ → ℕ → ℕ → watched → ℕ × watched
  | 0, _, real_back_block, w => (real_back_block, w)
  | left + 1, block, real_back_block, w =>
      watched_count total_sector left (block + 1)
        (if pc_test_bit block w.bm total_sector ≠ 0 then real_back_block + 1 else real_back_block)
        ⟨w.bm, w.touched ++ [block]⟩

/-- `get_used_block`, watched. -/
def watched_get_used_block (calloc : ℕ → Bool) (stale : ℕ) (FS : fat_kind)
    (fat_sb : FatBootSector) (fd : File) : Run (ℕ × watched) := do
  let total_sector := get_total_sector fat_sb
  let cluster_count ← get_cluster_count fat_sb
  match pc_alloc_bitmap calloc total_sector with
  | none => .error .outOfBounds
  | some fat_bitmap => do
      let w : watched := ⟨pc_init_bitmap fat_bitmap 0xFF total_sector, []⟩
      let (block, w) ← watched_mark_reserved_sectors fat_sb w 0
      let FatReservedBytes := i32 (fat_sb.sector_size * fat_sb.reserved)
      let fd := (lseek fd FatReservedBytes).getD fd
      let (fat_stat, fd) := check_fat_status stale FS fd
      if fat_stat ≠ 0 then pure (0, w)
      else
        let (block, _, w) := watched_check_clusters FS total_sector fat_sb.cluster_size
          cluster_count block fd w
        let w := (watched_for_blocks pc_set_bit total_sector (total_sector - block) block w).2
        pure (watched_count total_sector total_sector 0 0 w)

section Watched

variable {malloc calloc : ℕ → Bool} {stale : ℕ} {FS : fat_kind} {fat_sb : FatBootSector}

/-- The bitmap of a walk from one block to another, which touches what lies between them. -/
def watched.walked (w : watched) (bm : bitmap) (first last : ℕ) : watched :=
  ⟨bm, w.touched ++ List.range' first (last - first)⟩

@[simp] theorem watched.walked_bm (w : watched) (bm : bitmap) (first last : ℕ) :
    (w.walked bm first last).bm = bm := rfl

theorem watched.walked_self (w : watched) (block : ℕ) : w.walked w.bm block block = w := by
  rw [walked, Nat.sub_self, List.range'_zero, List.append_nil]

/-- Two walks, the second from where the first ended. -/
theorem watched.walked_walked (w : watched) (bm bm' : bitmap) {first mid last : ℕ}
    (h : first ≤ mid) (h' : mid ≤ last) :
    (w.walked bm first mid).walked bm' mid last = w.walked bm' first last := by
  have hjoin : List.range' first (mid - first) ++ List.range' mid (last - mid)
      = List.range' first (last - first) := by
    have happend := @List.range'_append_1 first (mid - first) (last - mid)
    have hsum : mid - first + (last - mid) = last - first := by omega
    rwa [Nat.add_sub_cancel' h, hsum] at happend
  rw [walked, walked, walked, List.append_assoc, hjoin]

/-- **Every loop over the bitmap does what it does unwatched**, and touches the blocks from the
one it starts with to the one it ends with. A pass touches the block it stands at, whatever the
operation makes of it. -/
theorem watched_for_blocks_eq (op : ℕ → bitmap → ℕ → Bool × bitmap) (total : ℕ) :
    ∀ (left block : ℕ) (w : watched), watched_for_blocks op total left block w
      = (block + left, w.walked (for_blocks op total left block w.bm).2 block (block + left)) := by
  intro left
  induction left with
  | zero =>
      intro block w
      exact Prod.ext rfl (w.walked_self block).symm
  | succ left ih =>
      intro block w
      have hfirst : watch op block w total
          = w.walked (op block w.bm total).2 block (block + 1) := by
        rw [watch, watched.walked, Nat.add_sub_cancel_left, List.range'_one]
      rw [watched_for_blocks, ih, hfirst, watched.walked_walked _ _ _ (by omega) (by omega),
        watched.walked_bm, for_blocks, Nat.add_right_comm, Nat.add_assoc]

theorem watched_mark_fats_eq (total sec_per_fat : ℕ) :
    ∀ (fats block : ℕ) (w : watched),
      (mark_fats total sec_per_fat fats block w.bm).1 = block + fats * sec_per_fat ∧
      watched_mark_fats total sec_per_fat fats block w
        = (block + fats * sec_per_fat, w.walked (mark_fats total sec_per_fat fats block w.bm).2
            block (block + fats * sec_per_fat)) := by
  intro fats
  induction fats with
  | zero =>
      intro block w
      rw [Nat.zero_mul, Nat.add_zero]
      exact ⟨rfl, Prod.ext rfl (w.walked_self block).symm⟩
  | succ fats ih =>
      intro block w
      have hlast : block + sec_per_fat + fats * sec_per_fat = block + (fats + 1) * sec_per_fat := by
        rw [Nat.succ_mul]
        omega
      obtain ⟨hblock, hrest⟩ := ih (block + sec_per_fat)
        (w.walked (for_blocks pc_set_bit total sec_per_fat block w.bm).2 block
          (block + sec_per_fat))
      rw [watched.walked_bm] at hblock hrest
      rw [mark_fats, for_blocks_fst, watched_mark_fats, watched_for_blocks_eq]
      refine ⟨hblock.trans hlast, hrest.trans ?_⟩
      rw [watched.walked_walked _ _ _ (by omega) (by omega), hlast]

/-- The sectors before the data are walked through from the first. -/
theorem watched_mark_reserved_sectors_eq (hss : 0 < fat_sb.sector_size) (w : watched) :
    ∃ bm', mark_reserved_sectors fat_sb w.bm 0 = .ok (data_start fat_sb, bm') ∧
      watched_mark_reserved_sectors fat_sb w 0
        = .ok (data_start fat_sb, w.walked bm' 0 (data_start fat_sb)) := by
  have hroot : get_root_sec fat_sb = .ok (root_sectors fat_sb) := get_root_sec_eq hss
  rw [mark_reserved_sectors, watched_mark_reserved_sectors, hroot]
  simp only [ok_bind, pure_eq, for_blocks_fst, watched_for_blocks_eq, Nat.zero_add]
  obtain ⟨hfats, hwatched⟩ := watched_mark_fats_eq (get_total_sector fat_sb)
    (get_sec_per_fat fat_sb) fat_sb.fats fat_sb.reserved
    (w.walked (for_blocks pc_set_bit (get_total_sector fat_sb) fat_sb.reserved 0 w.bm).2 0
      fat_sb.reserved)
  rw [watched.walked_bm] at hfats hwatched
  rw [hwatched, hfats, watched.walked_walked _ _ _ (by omega) (by omega),
    watched.walked_walked _ _ _ (by omega) (by omega), watched.walked_bm]
  exact ⟨_, congrArg Except.ok (Prod.ext (for_blocks_fst _ _ _ _ _) rfl), rfl⟩

/-- One cluster, if the type is known. -/
theorem watched_check_cluster_eq (hFS : FS ≠ .unset) (total cluster_size block : ℕ) (fd : File)
    (w : watched) :
    (check_cluster total cluster_size block fd w.bm FS).1 = block + cluster_size ∧
      watched_check_cluster total cluster_size block fd w FS
        = (block + cluster_size, (check_cluster total cluster_size block fd w.bm FS).2.1,
          w.walked (check_cluster total cluster_size block fd w.bm FS).2.2 block
            (block + cluster_size)) := by
  have hsame : watched_check_cluster total cluster_size block fd w FS
      = watched_check_entry total cluster_size block fd w FS.width FS.decode FS.bad := by
    cases FS with
    | unset => exact absurd rfl hFS
    | FAT_12 => rfl
    | FAT_16 => rfl
    | FAT_32 => rfl
  rw [hsame, check_cluster_eq hFS, check_entry, watched_check_entry]
  dsimp only
  split_ifs
  · exact ⟨for_blocks_fst _ _ _ _ _, by rw [watched_for_blocks_eq]⟩
  · exact ⟨for_blocks_fst _ _ _ _ _, by rw [watched_for_blocks_eq]⟩
  · exact ⟨for_blocks_fst _ _ _ _ _, by rw [watched_for_blocks_eq]⟩

/-- **The loop over the clusters** walks on from where it starts, by a cluster at a time. -/
theorem watched_check_clusters_eq (hFS : FS ≠ .unset) (total cluster_size : ℕ) :
    ∀ (left block : ℕ) (fd : File) (w : watched),
      (check_clusters FS total cluster_size left block fd w.bm).1 = block + left * cluster_size ∧
      watched_check_clusters FS total cluster_size left block fd w
        = (block + left * cluster_size,
          (check_clusters FS total cluster_size left block fd w.bm).2.1,
          w.walked (check_clusters FS total cluster_size left block fd w.bm).2.2 block
            (block + left * cluster_size)) := by
  intro left
  induction left with
  | zero =>
      intro block fd w
      rw [Nat.zero_mul, Nat.add_zero]
      exact ⟨rfl, Prod.ext rfl (Prod.ext rfl (w.walked_self block).symm)⟩
  | succ left ih =>
      intro block fd w
      have hlast : block + cluster_size + left * cluster_size
          = block + (left + 1) * cluster_size := by
        rw [Nat.succ_mul]
        omega
      obtain ⟨hblock, hone⟩ := watched_check_cluster_eq hFS total cluster_size block fd w
      obtain ⟨hend, hrest⟩ := ih (block + cluster_size)
        (check_cluster total cluster_size block fd w.bm FS).2.1
        (w.walked (check_cluster total cluster_size block fd w.bm FS).2.2 block
          (block + cluster_size))
      rw [watched.walked_bm] at hend hrest
      rw [check_clusters, watched_check_clusters, hone, hblock]
      refine ⟨hend.trans hlast, hrest.trans ?_⟩
      rw [watched.walked_walked _ _ _ (by omega) (by omega), hlast]

/-- The loop that counts asks for every sector of the volume. -/
theorem watched_count_eq (total : ℕ) : ∀ (left block counted : ℕ) (w : watched),
    watched_count total left block counted w
      = (counted + ((List.range' block left).filter fun b => pc_test_bit b w.bm total ≠ 0).length,
        w.walked w.bm block (block + left)) := by
  intro left
  induction left with
  | zero =>
      intro block counted w
      exact Prod.ext rfl (w.walked_self block).symm
  | succ left ih =>
      intro block counted w
      have hfirst : (⟨w.bm, w.touched ++ [block]⟩ : watched) = w.walked w.bm block (block + 1) := by
        rw [watched.walked, Nat.add_sub_cancel_left, List.range'_one]
      rw [watched_count, ih, hfirst, watched.walked_walked _ _ _ (by omega) (by omega),
        List.range'_succ, List.filter_cons, Nat.add_right_comm, Nat.add_assoc, Nat.add_comm left 1]
      refine Prod.ext ?_ rfl
      dsimp only
      by_cases hbit : pc_test_bit block w.bm total = 0
      · rw [if_neg (not_not.mpr hbit), if_neg (by simp [hbit])]
        rfl
      · rw [if_pos hbit, if_pos (by simp [hbit]), List.length_cons, Nat.add_assoc,
          Nat.add_comm 1]
        rfl

/-- Without a type the loop does nothing, watched or not. -/
theorem watched_check_clusters_same (FS : fat_kind) (total cluster_size left block : ℕ) (fd : File)
    (w : watched) :
    (watched_check_clusters FS total cluster_size left block fd w).1
        = (check_clusters FS total cluster_size left block fd w.bm).1 ∧
      (watched_check_clusters FS total cluster_size left block fd w).2.2.bm
        = (check_clusters FS total cluster_size left block fd w.bm).2.2 := by
  by_cases hFS : FS = .unset
  · subst hFS
    induction left with
    | zero => exact ⟨rfl, rfl⟩
    | succ left ih => exact ih
  · obtain ⟨hend, hwatched⟩ := watched_check_clusters_eq hFS total cluster_size left block fd w
    rw [hwatched, hend]
    exact ⟨rfl, rfl⟩

/-- **`read_bitmap_info` is not changed by being watched**, on any device and in any memory. The
two walks take the same branches, since a branch depends on the device and never on the list. -/
theorem watched_read_bitmap_info_eq (malloc : ℕ → Bool) (stale : ℕ) (FS : fat_kind)
    (device : Option (List Byte)) (w : watched) :
    (watched_read_bitmap_info malloc stale FS device w).map (fun r => (r.1, r.2.bm))
      = read_bitmap_info malloc stale FS device w.bm := by
  unfold watched_read_bitmap_info read_bitmap_info
  cases get_fat_fs_sector malloc device with
  | none => rfl
  | some found =>
      obtain ⟨fat_sb, fd⟩ := found
      dsimp only
      cases hcount : get_cluster_count fat_sb with
      | error stop => rfl
      | ok cluster_count =>
          have hss := (get_cluster_count_ok_iff.mp ⟨_, hcount⟩).1
          obtain ⟨bm', hmark, hwatched⟩ := watched_mark_reserved_sectors_eq
            (Nat.pos_of_ne_zero hss) ⟨pc_init_bitmap w.bm 0xFF (get_total_sector fat_sb), w.touched⟩
          simp only [ok_bind, hmark, hwatched, pure_eq]
          split_ifs
          · rfl
          · exact congrArg Except.ok (Prod.ext rfl (watched_check_clusters_same ..).2)

/-- **Nor is `get_used_block`.** The loops are the ones of the other scan, so their lemmas serve
both; only the last loop, over all sectors, is this one's own. -/
theorem watched_get_used_block_eq (calloc : ℕ → Bool) (stale : ℕ) (FS : fat_kind)
    (fat_sb : FatBootSector) (fd : File) :
    (watched_get_used_block calloc stale FS fat_sb fd).map (fun r => r.1)
      = get_used_block calloc stale FS fat_sb fd := by
  unfold watched_get_used_block get_used_block
  cases hcount : get_cluster_count fat_sb with
  | error stop => rfl
  | ok cluster_count =>
      have hss := (get_cluster_count_ok_iff.mp ⟨_, hcount⟩).1
      simp only [ok_bind]
      cases pc_alloc_bitmap calloc (get_total_sector fat_sb) with
      | none => rfl
      | some fat_bitmap =>
          obtain ⟨bm', hmark, hwatched⟩ := watched_mark_reserved_sectors_eq
            (Nat.pos_of_ne_zero hss) ⟨pc_init_bitmap fat_bitmap 0xFF (get_total_sector fat_sb), []⟩
          simp only [ok_bind, hmark, hwatched, pure_eq]
          split_ifs
          · rfl
          · obtain ⟨hend, hbm⟩ := watched_check_clusters_same FS (get_total_sector fat_sb)
              fat_sb.cluster_size cluster_count (data_start fat_sb) (check_fat_status stale FS
                ((lseek fd (i32 (fat_sb.sector_size * fat_sb.reserved))).getD fd)).2
              ((⟨pc_init_bitmap fat_bitmap 0xFF (get_total_sector fat_sb), []⟩ : watched).walked bm' 0
                (data_start fat_sb))
            rw [watched.walked_bm] at hend hbm
            rw [watched_count_eq, watched_for_blocks_eq, watched.walked_bm, hend, hbm, count_used,
              List.range_eq_range', Nat.zero_add]
            rfl

/-- The sectors up to the end of the last cluster are sectors of the volume. -/
theorem clusters_end_le (hfits : data_start fat_sb ≤ get_total_sector fat_sb) :
    data_start fat_sb + clusters fat_sb * fat_sb.cluster_size ≤ get_total_sector fat_sb := by
  have hall : clusters fat_sb * fat_sb.cluster_size ≤ get_total_sector fat_sb - data_start fat_sb :=
    Nat.div_mul_le_self _ _
  omega

/-- **`read_bitmap_info` touches sectors of the volume only**, if the sectors before the data are
such. Where they are, the clusters end within the volume as well, since their number is a quotient
of what is left behind the front. -/
theorem watched_read_bitmap_info_lt {data : List Byte} {bm : bitmap} {ok : Bool} {w : watched}
    (hFS : FS ≠ .unset) (hboot : slice data 0 512 = fat_sb.bytes) (hmalloc : malloc 512 = true)
    (hss : 0 < fat_sb.sector_size) (hcs : 0 < fat_sb.cluster_size)
    (hfits : data_start fat_sb ≤ get_total_sector fat_sb)
    (h : watched_read_bitmap_info malloc stale FS (some data) ⟨bm, []⟩ = .ok (ok, w)) :
    ∀ nr ∈ w.touched, nr < get_total_sector fat_sb := by
  have hall := clusters_end_le hfits
  obtain ⟨bm', -, hwatched⟩ := watched_mark_reserved_sectors_eq hss
    ⟨pc_init_bitmap bm 0xFF (get_total_sector fat_sb), []⟩
  rw [watched_read_bitmap_info, get_fat_fs_sector_eq hmalloc hboot] at h
  simp only [get_cluster_count_eq hss hcs, ok_bind, hwatched, pure_eq,
    (watched_check_clusters_eq hFS _ _ _ _ _ _).2] at h
  intro nr hnr
  split_ifs at h
  · obtain ⟨-, rfl⟩ := Prod.mk.inj (Except.ok.inj h)
    simp only [watched.walked, List.nil_append, List.mem_range'_1] at hnr
    omega
  · obtain ⟨-, rfl⟩ := Prod.mk.inj (Except.ok.inj h)
    simp only [watched.walked, List.nil_append, List.mem_append, List.mem_range'_1] at hnr
    omega

/-- **So does `get_used_block`**: what is left behind the clusters is marked up to the last
sector, and then every sector is asked for. -/
theorem watched_get_used_block_lt {fd : File} {used : ℕ} {w : watched} (hFS : FS ≠ .unset)
    (hss : 0 < fat_sb.sector_size) (hcs : 0 < fat_sb.cluster_size)
    (hfits : data_start fat_sb ≤ get_total_sector fat_sb)
    (h : watched_get_used_block calloc stale FS fat_sb fd = .ok (used, w)) :
    ∀ nr ∈ w.touched, nr < get_total_sector fat_sb := by
  have hall := clusters_end_le hfits
  rw [watched_get_used_block] at h
  simp only [get_cluster_count_eq hss hcs, ok_bind] at h
  intro nr hnr
  cases halloc : pc_alloc_bitmap calloc (get_total_sector fat_sb) with
  | none =>
      rw [halloc] at h
      cases h
  | some fat_bitmap =>
      obtain ⟨bm', -, hwatched⟩ := watched_mark_reserved_sectors_eq hss
        ⟨pc_init_bitmap fat_bitmap 0xFF (get_total_sector fat_sb), []⟩
      simp only [halloc, ok_bind, hwatched, pure_eq, (watched_check_clusters_eq hFS _ _ _ _ _ _).2,
        watched_for_blocks_eq, watched_count_eq, Nat.zero_add] at h
      split_ifs at h
      · obtain ⟨-, rfl⟩ := Prod.mk.inj (Except.ok.inj h)
        simp only [watched.walked, List.nil_append, List.mem_range'_1] at hnr
        omega
      · obtain ⟨-, rfl⟩ := Prod.mk.inj (Except.ok.inj h)
        simp only [watched.walked, List.nil_append, List.mem_append, List.mem_range'_1] at hnr
        omega

end Watched

/-! ## The two scans

Both start from a bitmap of ones and take out the sectors of the clusters that are not in use, so
what one counts is what the other leaves marked. They part only at the look at the status, where a
read that comes short leaves what the variable held. -/

section Agree

variable {malloc calloc : ℕ → Bool} {stale stale' : ℕ} {FS : fat_kind} {fat_sb : FatBootSector}
  {data : List Byte} {bm bm' : bitmap}

/-- The loop that counts, against the marked sectors. -/
theorem count_used_eq (total : ℕ) (bm : bitmap) :
    count_used total bm = (used_from bm total 0).length := by
  rw [count_used, used_from, Nat.sub_zero, ← List.range_eq_range']
  congr 1
  apply List.filter_congr
  intro b hb
  have hlt := List.mem_range.mp hb
  rw [Bool.eq_iff_iff, decide_eq_true_iff]
  exact pc_test_bit_ne_zero bm hlt

/-- The whole first entry of the table can be read, so that the status does not depend on what
the variable held. -/
def status_readable (fat_sb : FatBootSector) (FS : fat_kind) (data : List Byte) : Prop :=
  seek_start fat_sb data + FS.status_width ≤ data.length

theorem check_fat_status_congr (h : status_readable fat_sb FS data) :
    (check_fat_status stale FS (at_most ⟨data, 512, false⟩ (seek_start fat_sb data))).1
      = (check_fat_status stale' FS (at_most ⟨data, 512, false⟩ (seek_start fat_sb data))).1 := by
  have hread : ∀ width old, width = FS.status_width →
      read_into (at_most ⟨data, 512, false⟩ (seek_start fat_sb data)) (leBytes width old)
        = (slice data (seek_start fat_sb data) width,
          at_most ⟨data, 512, false⟩ (seek_start fat_sb data + width)) := by
    rintro width old rfl
    have hlen := slice_length_of_le h
    have hsnd := read_into_snd ⟨data, 512, false⟩ (seek_start fat_sb data)
      (leBytes FS.status_width old)
    rw [leBytes_length] at hsnd
    refine Prod.ext ?_ hsnd
    simp only [read_into, leBytes_length, at_most, slice_min]
    exact overlay_whole 0 (by rw [hlen, leBytes_length])
  cases FS with
  | unset => rfl
  | FAT_12 => rfl
  | FAT_16 => simp only [check_fat_status, hread 2 stale rfl, hread 2 stale' rfl]
  | FAT_32 => simp only [check_fat_status, hread 4 stale rfl, hread 4 stale' rfl]

/-- **Both scans make the same bitmap**: the counting one marks once more what is marked. What is
marked before the clusters and what is taken out with them is the same, and the sectors behind the
last cluster are still marked from the start. -/
theorem used_eq (hFS : FS ≠ .unset) (hboot : slice data 0 512 = fat_sb.bytes)
    (hss : 0 < fat_sb.sector_size) (hcs : 0 < fat_sb.cluster_size)
    (hbm : bm.length = BITS_TO_LONGS (get_total_sector fat_sb))
    (hcalloc : calloc (8 * BITS_TO_LONGS (get_total_sector fat_sb)) = true)
    (htrue : read_bitmap_info malloc stale' FS (some data) bm = .ok (true, bm')) :
    get_used_block calloc stale FS fat_sb ⟨data, 512, false⟩
      = if (check_fat_status stale FS (at_most ⟨data, 512, false⟩ (seek_start fat_sb data))).1 ≠ 0
        then .ok 0 else .ok (used_from bm' (get_total_sector fat_sb) 0).length := by
  have hzero : (List.replicate (BITS_TO_LONGS (get_total_sector fat_sb)) (0 : BitVec 64)).length
      = BITS_TO_LONGS (get_total_sector fat_sb) := List.length_replicate
  have hinit : pc_init_bitmap (List.replicate (BITS_TO_LONGS (get_total_sector fat_sb)) 0) 0xFF
      (get_total_sector fat_sb) = pc_init_bitmap bm 0xFF (get_total_sector fat_sb) := by
    rw [pc_init_bitmap, pc_init_bitmap, hzero, hbm, List.drop_of_length_le hzero.le,
      List.drop_of_length_le hbm.le]
  have hcount := get_cluster_count_eq hss hcs
  obtain ⟨r, hmark, hblock, hlen, hones⟩ := marked_reserved hss hbm
  obtain ⟨bm₂, hscan, hlen₂, hbit⟩ := @check_clusters_spec FS (get_total_sector fat_sb)
    fat_sb.cluster_size hFS ⟨data, 512, false⟩ (clusters fat_sb) r.1 (scan_start fat_sb FS data) r.2
    (by rw [hlen]; exact le_of_sized hbm)
  have htrue' := htrue
  rw [read_bitmap_info_eq (malloc_of_true htrue) hboot hcount hmark, hscan] at htrue'
  have hbm' : bm' = bm₂ := by
    split_ifs at htrue'
    · cases htrue'
    · exact (Prod.mk.inj (Except.ok.inj htrue')).2.symm
  subst hbm'
  rw [get_used_block_eq (le_of_boot hboot) hcalloc hcount (by rw [hinit]; exact hmark) hscan,
    count_used_eq]
  split_ifs
  · rfl
  · congr 2
    apply used_from_congr
    intro b hb
    rw [bit_for_blocks_set b _ _ _ (by rw [hlen₂, hlen]; exact le_of_sized hbm), hbit b hb]
    -- the walk starts behind the clusters, where the scan left every sector marked
    by_cases htail : r.1 + clusters fat_sb * fat_sb.cluster_size ≤ b
    · rw [if_neg (by omega), hones b hb, Bool.or_true]
    · rw [decide_eq_false (by omega), Bool.false_or]

/-- **The scans agree**: whatever their variables held, the count of the one is the number of
sectors that the other marks, and `update_used_blocks_count` stores it; and both touch bits of
the volume only, if the sectors before the data are in it. -/
def scans_agree (fat_sb : FatBootSector) (FS : fat_kind) (data : List Byte) : Prop :=
  ∀ (malloc calloc : ℕ → Bool) (stale stale' : ℕ) (FS' : fat_kind)
    (fs_info fs_info' : file_system_info) (bm bm' : bitmap),
    bm.length = BITS_TO_LONGS (get_total_sector fat_sb) →
    read_super_blocks malloc calloc stale FS' (some data) fs_info = .ok (true, FS, fs_info') →
    read_bitmap_info malloc stale' FS (some data) bm = .ok (true, bm') →
    fs_info'.usedblocks.toNat = (used_from bm' (get_total_sector fat_sb) 0).length ∧
    update_used_blocks_count fs_info' bm'
      = .ok { fs_info' with used_bitmap := fs_info'.usedblocks } ∧
    (∃ used w, watched_get_used_block calloc stale FS fat_sb ⟨data, 512, false⟩ = .ok (used, w) ∧
      fs_info'.usedblocks = BitVec.ofNat 64 used ∧
      (data_start fat_sb ≤ get_total_sector fat_sb →
        ∀ nr ∈ w.touched, nr < get_total_sector fat_sb)) ∧
    ∃ w, watched_read_bitmap_info malloc stale' FS (some data) ⟨bm, []⟩ = .ok (true, w) ∧
      w.bm = bm' ∧
      (data_start fat_sb ≤ get_total_sector fat_sb →
        ∀ nr ∈ w.touched, nr < get_total_sector fat_sb)

/-- What a call returns, it returns of something. -/
theorem of_map_eq_ok {ε α β : Type} {f : α → β} {x : Except ε α} {b : β} (h : x.map f = .ok b) :
    ∃ a, x = .ok a ∧ f a = b := by
  cases x with
  | error e => cases h
  | ok a => exact ⟨a, rfl, Except.ok.inj h⟩

/-- A status that comes out of the bits of a variable which the read did not reach. -/
theorem unread_bit {width i : ℕ} (hshort : data.length < seek_start fat_sb data + width)
    (hi : i < 8 * width) (htop : width ≤ i / 8 + 1) :
    Nat.testBit (ofLe (read_into (at_most ⟨data, 512, false⟩ (seek_start fat_sb data))
      (leBytes width stale)).1) i = Nat.testBit stale i := by
  have hlen := slice_length data (seek_start fat_sb data) width
  rw [ofLe_testBit]
  simp only [read_into, leBytes_length, at_most, slice_min]
  rw [overlay_getD, if_neg (by omega), leBytes_testBit _ (by omega) (Nat.mod_lt _ (by omega)),
    Nat.div_add_mod]

theorem and_two_pow_eq_zero_iff (n i : ℕ) : n &&& 2 ^ i = 0 ↔ n.testBit i = false := by
  rw [Nat.and_two_pow]
  cases n.testBit i <;> simp

/-- With nothing read, the call goes by what the variable held. The variable is on the stack, so
what the call returns then may be anything. -/
theorem check_fat_status_unread (hFS : FS = .FAT_16 ∨ FS = .FAT_32)
    (hshort : ¬ status_readable fat_sb FS data) :
    (check_fat_status 0 FS (at_most ⟨data, 512, false⟩ (seek_start fat_sb data))).1 = 1 ∧
      (check_fat_status (2 ^ 32 - 1) FS
        (at_most ⟨data, 512, false⟩ (seek_start fat_sb data))).1 = 0 := by
  rw [status_readable, not_le] at hshort
  -- all zeros leave the volume dirty, all ones leave it clean and without errors
  have hbits : ∀ i, i < 32 → (2 ^ 32 - 1).testBit i = true := by
    intro i hi
    rw [Nat.testBit_two_pow_sub_one, decide_eq_true hi]
  rcases hFS with rfl | rfl
  · have hbad := @unread_bit 0 fat_sb data 2 15 hshort (by omega) (by omega)
    have h15 := @unread_bit (2 ^ 32 - 1) fat_sb data 2 15 hshort (by omega) (by omega)
    have h14 := @unread_bit (2 ^ 32 - 1) fat_sb data 2 14 hshort (by omega) (by omega)
    rw [Nat.zero_testBit, ← and_two_pow_eq_zero_iff] at hbad
    rw [hbits _ (by omega), ← Bool.not_eq_false, ← and_two_pow_eq_zero_iff] at h15 h14
    constructor
    · rw [check_fat_status]
      exact congrArg Prod.fst (if_pos hbad)
    · rw [check_fat_status]
      exact congrArg Prod.fst ((if_neg h15).trans (if_neg h14))
  · have hbad := @unread_bit 0 fat_sb data 4 27 hshort (by omega) (by omega)
    have h27 := @unread_bit (2 ^ 32 - 1) fat_sb data 4 27 hshort (by omega) (by omega)
    have h26 := @unread_bit (2 ^ 32 - 1) fat_sb data 4 26 hshort (by omega) (by omega)
    rw [Nat.zero_testBit, ← and_two_pow_eq_zero_iff] at hbad
    rw [hbits _ (by omega), ← Bool.not_eq_false, ← and_two_pow_eq_zero_iff] at h27 h26
    constructor
    · rw [check_fat_status]
      exact congrArg Prod.fst (if_pos hbad)
    · rw [check_fat_status]
      exact congrArg Prod.fst ((if_neg h27).trans (if_neg h26))

/-- No sector is marked where the volume is all clusters, and none of their entries can be
read. -/
theorem used_from_nil (hFS : FS = .FAT_16 ∨ FS = .FAT_32)
    (hboot : slice data 0 512 = fat_sb.bytes) (hss : 0 < fat_sb.sector_size)
    (hcs : 0 < fat_sb.cluster_size) (hbm : bm.length = BITS_TO_LONGS (get_total_sector fat_sb))
    (htrue : read_bitmap_info malloc stale FS (some data) bm = .ok (true, bm'))
    (hshort : ¬ status_readable fat_sb FS data)
    (hall : get_total_sector fat_sb = clusters fat_sb * fat_sb.cluster_size) :
    used_from bm' (get_total_sector fat_sb) 0 = [] := by
  have hunset : FS ≠ .unset := by
    rcases hFS with rfl | rfl <;> decide
  have hle : clusters fat_sb * fat_sb.cluster_size ≤ get_total_sector fat_sb - data_start fat_sb :=
    Nat.div_mul_le_self _ _
  apply List.eq_nil_iff_forall_not_mem.mpr
  intro b hb
  obtain ⟨-, hlt, hbit⟩ := mem_used_from.mp hb
  have hentry : ∀ i, raw_entry FS.width data (scan_start fat_sb FS data) i = 0 := by
    intro i
    rw [status_readable] at hshort
    have hempty : slice data (scan_start fat_sb FS data + i * FS.width) FS.width = [] := by
      rw [slice, List.drop_of_length_le (by rw [scan_start]; omega), List.take_nil]
    rw [raw_entry, hempty, ofLe]
  have hskip : skips FS 0 := by
    rcases hFS with rfl | rfl <;> exact Or.inr rfl
  rw [read_bitmap_info_true hunset hboot hss hcs hbm htrue hlt, if_pos (by omega), hentry,
    decide_eq_true hskip] at hbit
  cases hbit

/-- A successful `read_super_blocks` has counted. -/
theorem read_super_blocks_true {FS' : fat_kind} {fs_info fs_info' : file_system_info}
    (hboot : slice data 0 512 = fat_sb.bytes)
    (h : read_super_blocks malloc calloc stale FS' (some data) fs_info = .ok (true, FS, fs_info')) :
    ∃ used, get_used_block calloc stale FS fat_sb ⟨data, 512, false⟩ = .ok used ∧
      fs_info' = described fs_info fat_sb FS used := by
  have hmalloc : malloc 512 = true := by
    by_contra hfail
    rw [read_super_blocks, get_fat_fs_sector, if_neg hfail] at h
    cases h
  rw [read_super_blocks, get_fat_fs_sector_eq hmalloc hboot] at h
  obtain ⟨type, htype, h⟩ := bind_eq_ok.mp h
  cases type with
  | none => cases h
  | some found =>
      obtain ⟨used, hused, h⟩ := bind_eq_ok.mp h
      obtain ⟨-, hpair⟩ := Prod.mk.inj (Except.ok.inj h)
      obtain ⟨rfl, hinfo⟩ := Prod.mk.inj hpair
      exact ⟨used, hused, hinfo.symm⟩

theorem used_from_length_le (bm : bitmap) (total : ℕ) : (used_from bm total 0).length ≤ total := by
  rw [used_from, Nat.sub_zero]
  exact (List.length_filter_le _ _).trans List.length_range'.le

/-- A bitmap that came with the status of the counting scan has its count. -/
theorem counts_of_used {fs_info : file_system_info} {used : ℕ}
    (hused : used = (used_from bm' (get_total_sector fat_sb) 0).length) :
    (described fs_info fat_sb FS used).usedblocks.toNat
        = (used_from bm' (get_total_sector fat_sb) 0).length ∧
      update_used_blocks_count (described fs_info fat_sb FS used) bm'
        = .ok { described fs_info fat_sb FS used with
          used_bitmap := (described fs_info fat_sb FS used).usedblocks } := by
  have hlt := get_total_sector_lt fat_sb
  have hle := used_from_length_le bm' (get_total_sector fat_sb)
  have htotal : (described fs_info fat_sb FS used).totalblock.toNat = get_total_sector fat_sb := by
    rw [described, BitVec.toNat_ofNat, Nat.mod_eq_of_lt (by omega)]
  have hcount : ReaderLoops.marked (described fs_info fat_sb FS used) bm' 0
      = used_from bm' (get_total_sector fat_sb) 0 := by
    rw [ReaderLoops.marked, htotal]
  constructor
  · rw [described, BitVec.toNat_ofNat, Nat.mod_eq_of_lt (by omega), hused]
  · rw [update_used_blocks_count_eq (by omega), ImageReader.used_count, hcount, ← hused]
    rfl

theorem fat_kind.wide (hunset : FS ≠ .unset) (h12 : FS ≠ .FAT_12) : FS = .FAT_16 ∨ FS = .FAT_32 := by
  cases FS with
  | unset => exact absurd rfl hunset
  | FAT_12 => exact absurd rfl h12
  | FAT_16 => exact Or.inl rfl
  | FAT_32 => exact Or.inr rfl

/-- A sector outside the clusters stays marked, and there is one unless the volume is all
clusters. -/
theorem used_from_ne_nil (hunset : FS ≠ .unset) (hboot : slice data 0 512 = fat_sb.bytes)
    (hss : 0 < fat_sb.sector_size) (hcs : 0 < fat_sb.cluster_size)
    (hbm : bm.length = BITS_TO_LONGS (get_total_sector fat_sb))
    (htrue : read_bitmap_info malloc stale FS (some data) bm = .ok (true, bm'))
    (hall : get_total_sector fat_sb ≠ clusters fat_sb * fat_sb.cluster_size) :
    used_from bm' (get_total_sector fat_sb) 0 ≠ [] := by
  have hle : clusters fat_sb * fat_sb.cluster_size
      ≤ get_total_sector fat_sb - data_start fat_sb := Nat.div_mul_le_self _ _
  obtain ⟨s, hs, hout⟩ : ∃ s, s < get_total_sector fat_sb ∧ ¬ (data_start fat_sb ≤ s ∧
      s < data_start fat_sb + clusters fat_sb * fat_sb.cluster_size) := by
    rcases Nat.eq_zero_or_pos (data_start fat_sb) with h0 | h0
    · exact ⟨clusters fat_sb * fat_sb.cluster_size, by omega, by omega⟩
    · exact ⟨0, by omega, by omega⟩
  have hmarked := read_bitmap_info_true hunset hboot hss hcs hbm htrue hs
  rw [if_neg hout] at hmarked
  exact List.ne_nil_of_mem (mem_used_from.mpr ⟨Nat.zero_le s, hs, hmarked⟩)

/-- A successful scan has found the status in order. -/
theorem check_fat_status_of_true (hboot : slice data 0 512 = fat_sb.bytes)
    (hss : 0 < fat_sb.sector_size) (hcs : 0 < fat_sb.cluster_size)
    (hbm : bm.length = BITS_TO_LONGS (get_total_sector fat_sb))
    (htrue : read_bitmap_info malloc stale FS (some data) bm = .ok (true, bm')) :
    (check_fat_status stale FS (at_most ⟨data, 512, false⟩ (seek_start fat_sb data))).1 = 0 := by
  have h := htrue
  obtain ⟨r, hmark, -⟩ := marked_reserved hss hbm
  rw [read_bitmap_info_eq (malloc_of_true htrue) hboot (get_cluster_count_eq hss hcs) hmark] at h
  by_contra hstat
  rw [if_pos hstat] at h
  cases h

/-- **The count, where both scans succeed**: under the condition it does not matter what the two
variables held. Where the status can be read, both read the same; where it cannot, either nothing
depends on it or there is nothing to count. -/
theorem count_of_true (hunset : FS ≠ .unset) (hboot : slice data 0 512 = fat_sb.bytes)
    (hss : 0 < fat_sb.sector_size) (hcs : 0 < fat_sb.cluster_size)
    (hbm : bm.length = BITS_TO_LONGS (get_total_sector fat_sb)) {used : ℕ}
    (hused : get_used_block calloc stale FS fat_sb ⟨data, 512, false⟩ = .ok used)
    (htrue : read_bitmap_info malloc stale' FS (some data) bm = .ok (true, bm'))
    (hcond : FS = .FAT_12 ∨ status_readable fat_sb FS data ∨
      get_total_sector fat_sb = clusters fat_sb * fat_sb.cluster_size) :
    used = (used_from bm' (get_total_sector fat_sb) 0).length := by
  have hcalloc := ((get_used_block_ok_iff (le_of_boot hboot)).mp ⟨used, hused⟩).2
  have hcount := @used_eq malloc calloc stale stale' FS fat_sb data bm bm' hunset hboot hss hcs
    hbm hcalloc htrue
  rw [hused] at hcount
  by_cases h12 : FS = .FAT_12
  · subst h12
    exact Except.ok.inj hcount
  · by_cases hread : status_readable fat_sb FS data
    · rw [@check_fat_status_congr stale stale' FS fat_sb data hread,
        check_fat_status_of_true hboot hss hcs hbm htrue] at hcount
      exact Except.ok.inj hcount
    · have hall := (hcond.resolve_left h12).resolve_left hread
      have hnil := used_from_nil (fat_kind.wide hunset h12) hboot hss hcs hbm htrue hread hall
      rw [hnil, List.length_nil, ite_self] at hcount
      rw [hnil]
      exact Except.ok.inj hcount

/-- **The other scan can succeed where the count is given up**: with a status that cannot be read,
a variable of zeros makes the one leave, and one of ones lets the other go on. -/
theorem scans_part (hunset : FS ≠ .unset) (hboot : slice data 0 512 = fat_sb.bytes)
    (hss : 0 < fat_sb.sector_size) (hcs : 0 < fat_sb.cluster_size)
    (htype : get_fat_fs_type fat_sb = .ok (some FS)) (h12 : FS ≠ .FAT_12)
    (hshort : ¬ status_readable fat_sb FS data)
    (hbm : bm.length = BITS_TO_LONGS (get_total_sector fat_sb)) :
    read_super_blocks (fun _ => true) (fun _ => true) 0 .unset (some data) init_file_system_info
        = .ok (true, FS, described init_file_system_info fat_sb FS 0) ∧
      ∃ bm', read_bitmap_info (fun _ => true) (2 ^ 32 - 1) FS (some data) bm = .ok (true, bm') := by
  obtain ⟨hbad, hgood⟩ := check_fat_status_unread (fat_kind.wide hunset h12) hshort
  obtain ⟨r, hmark, -⟩ := marked_reserved hss hbm
  have hread := @read_bitmap_info_eq (fun _ => true) (2 ^ 32 - 1) FS fat_sb data bm rfl hboot _
    (get_cluster_count_eq hss hcs) _ hmark
  rw [if_neg (not_not.mpr hgood)] at hread
  have hused : get_used_block (fun _ => true) 0 FS fat_sb ⟨data, 512, false⟩ = .ok 0 := by
    rw [used_eq hunset hboot hss hcs hbm rfl hread, if_pos (by rw [hbad]; decide)]
  exact ⟨read_super_blocks_eq (get_fat_fs_sector_eq rfl hboot) htype hused, _, hread⟩

/-- **When the scans agree**: for the narrowest type, which has no status, or where the first
entry of the table can be read. Else the counting scan may have given up where the other goes on,
which shows unless all of the volume is clusters: none of their entries can be read. The one place
where the scans part is the look at the status: the counting scan leaves, and the count is then 0,
while the other goes on. -/
theorem scans_agree_iff (hboot : slice data 0 512 = fat_sb.bytes) (hss : 0 < fat_sb.sector_size)
    (hcs : 0 < fat_sb.cluster_size) (htype : get_fat_fs_type fat_sb = .ok (some FS)) :
    scans_agree fat_sb FS data ↔ FS = .FAT_12 ∨ status_readable fat_sb FS data ∨
      get_total_sector fat_sb = clusters fat_sb * fat_sb.cluster_size := by
  have hunset := get_fat_fs_type_ne_unset htype
  constructor
  · intro hagree
    by_contra hcond
    rw [not_or, not_or] at hcond
    obtain ⟨h12, hshort, hall⟩ := hcond
    have hlen : (List.replicate (BITS_TO_LONGS (get_total_sector fat_sb)) (0 : BitVec 64)).length
        = BITS_TO_LONGS (get_total_sector fat_sb) := List.length_replicate
    obtain ⟨hsuper, bm', hread⟩ := scans_part hunset hboot hss hcs htype h12 hshort hlen
    obtain ⟨hcount, -⟩ := hagree (fun _ => true) (fun _ => true) 0 (2 ^ 32 - 1) .unset
      init_file_system_info _ _ _ hlen hsuper hread
    have hzero : (described init_file_system_info fat_sb FS 0).usedblocks.toNat = 0 := rfl
    rw [hzero] at hcount
    exact used_from_ne_nil hunset hboot hss hcs hlen hread hall
      (List.length_eq_zero_iff.mp hcount.symm)
  · intro hcond malloc calloc stale stale' FS' fs_info fs_info' bm bm' hlen hsuper htrue
    obtain ⟨used, hused, rfl⟩ := read_super_blocks_true hboot hsuper
    have heq := count_of_true hunset hboot hss hcs hlen hused htrue hcond
    obtain ⟨hblocks, hbitmap⟩ := @counts_of_used FS fat_sb bm' fs_info used heq
    refine ⟨hblocks, hbitmap, ?_, ?_⟩
    · obtain ⟨⟨n, w⟩, hwatched, rfl⟩ := of_map_eq_ok
        ((watched_get_used_block_eq calloc stale FS fat_sb ⟨data, 512, false⟩).trans hused)
      exact ⟨n, w, hwatched, rfl, fun hfits =>
        watched_get_used_block_lt hunset hss hcs hfits hwatched⟩
    · obtain ⟨⟨ok, w⟩, hwatched, hsame⟩ := of_map_eq_ok
        ((watched_read_bitmap_info_eq malloc stale' FS (some data) ⟨bm, []⟩).trans htrue)
      obtain ⟨rfl, hbm⟩ := Prod.mk.inj hsame
      exact ⟨w, hwatched, hbm, fun hfits => watched_read_bitmap_info_lt hunset hboot
        (malloc_of_true htrue) hss hcs hfits hwatched⟩

end Agree

/-- On a device that holds its table the scans agree. -/
theorem small_volume_agrees :
    scans_agree small_sector .FAT_32 (small_volume 0x0FFFFFF8 0x0FFFFFFF 0 0x0FFFFFFF) := by
  have h := small_volume_fits 0x0FFFFFF8 0x0FFFFFFF 0 0x0FFFFFFF
  refine (scans_agree_iff h.boot h.sector_size h.cluster_size (by decide +kernel)).mpr ?_
  exact Or.inr (Or.inl (by unfold status_readable; decide +kernel))

/-- **On a device that ends behind its boot sector** the one scan gives up and counts nothing, and
the other goes on and marks two sectors. Its table is behind the end of the device, so there is no
first entry to read a status from. -/
theorem truncated_volume_disagrees :
    read_super_blocks (fun _ => true) (fun _ => true) 0 .unset (some small_boot)
        init_file_system_info
        = .ok (true, .FAT_32, described init_file_system_info small_sector .FAT_32 0) ∧
      read_bitmap_info (fun _ => true) (2 ^ 32 - 1) .FAT_32 (some small_boot) [0]
        = .ok (true, [BitVec.ofNat 64 (2 ^ 64 - 13)]) ∧
      (used_from [BitVec.ofNat 64 (2 ^ 64 - 13)] 4 0).length = 2 ∧
      ¬ scans_agree small_sector .FAT_32 small_boot := by
  have hsuper : read_super_blocks (fun _ => true) (fun _ => true) 0 .unset (some small_boot)
      init_file_system_info
      = .ok (true, .FAT_32, described init_file_system_info small_sector .FAT_32 0) := by
    decide +kernel
  have hread : read_bitmap_info (fun _ => true) (2 ^ 32 - 1) .FAT_32 (some small_boot) [0]
      = .ok (true, [BitVec.ofNat 64 (2 ^ 64 - 13)]) := by decide +kernel
  have htotal : get_total_sector small_sector = 4 := by decide +kernel
  refine ⟨hsuper, hread, by decide +kernel, fun h => ?_⟩
  obtain ⟨hcount, -⟩ := h _ _ _ _ _ _ _ _ _ (by decide +kernel) hsuper hread
  rw [htotal] at hcount
  exact absurd hcount (by decide +kernel)

end SysbakAdmin.Fat

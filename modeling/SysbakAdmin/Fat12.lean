/-
The packed table of a FAT12 volume, and how `check_fat12_entry` reads it.

Entries of 12 bits lie two in three bytes, so entry `n` starts at byte `3 * n / 2`, in the
low or in the high half of the word there. The code reads a word of two bytes for each
cluster, one behind the other, and takes the high half of each: it starts at the entries of
no cluster, it leaves the table faster than the entries do, and half of the entries are in
the other half of the word.

The code's words and the format's entries are compared one by one: `fat12_decoded_iff` lists
for which tables they say the same of every cluster, which is a condition on the entries
alone. The second part is about the name: `get_fat_fs_type` counts the clusters as the scan
does, so the type and the scan never disagree about how many entries there are.

The volume of the example is a floppy whose table has a gap. Its scan drops a cluster that is
allocated, so the backup would restore without it.
-/
import SysbakAdmin.FatUsed
import SysbakAdmin.Lib.PackedRecord

set_option autoImplicit false

namespace SysbakAdmin.Fat

open LittleEndian ByteStore CMemory FileIo PackedRecord Bitmap

/-! ## The packed table -/

section Table

variable (fat_sb : FatBootSector) (data : List Byte)

/-- The bytes of one copy of the table. -/
def table_bytes : ℕ := get_sec_per_fat fat_sb * fat_sb.sector_size

/-- Entry `n` of the packed table. -/
def fat12_entry (n : ℕ) : ℕ :=
  let word := ofLe (slice data (table_start fat_sb + 3 * n / 2) 2)
  if n % 2 = 0 then word % 2 ^ 12 else word / 2 ^ 4

/-- A volume whose layout fits its sectors, on a device that holds its table. -/
structure fat12_volume : Prop where
  boot : slice data 0 512 = fat_sb.bytes
  sector_size : 0 < fat_sb.sector_size
  cluster_size : 0 < fat_sb.cluster_size
  fits : data_start fat_sb ≤ get_total_sector fat_sb
  entries : 3 * (clusters fat_sb + 2) ≤ 2 * table_bytes fat_sb
  table : table_start fat_sb + table_bytes fat_sb ≤ data.length

/-- The sectors of a cluster are marked exactly if its entry is neither free nor bad. The entry is
the one of the format, 12 bits wide and across two bytes. -/
def decoded (bm : bitmap) : Prop :=
  ∀ n, 2 ≤ n → n < clusters fat_sb + 2 → ∀ s, in_cluster fat_sb n s →
    (bit bm s = true ↔ ¬ free_or_bad .FAT_12 (fat12_entry fat_sb data n))

/-- The descriptor before the `k`-th pass of the loop over the clusters. -/
def table_fd (bm : bitmap) (k : ℕ) : File :=
  (check_clusters .FAT_12 (get_total_sector fat_sb) fat_sb.cluster_size k (data_start fat_sb)
    (at_most ⟨data, 512, false⟩ (scan_start fat_sb .FAT_12 data)) bm).2.1

/-- The bytes that the `k`-th pass reads. A pass reads a word of two bytes, or what there is left
of one. -/
def consulted (bm : bitmap) (k i : ℕ) : Prop :=
  (table_fd fat_sb data bm k).pos ≤ i ∧ i < (table_fd fat_sb data bm k).pos
    + (slice (table_fd fat_sb data bm k).data (table_fd fat_sb data bm k).pos 2).length

/-- No byte outside the table is consulted. -/
def reads_inside (bm : bitmap) : Prop :=
  ∀ k < clusters fat_sb, ∀ i, consulted fat_sb data bm k i →
    table_start fat_sb ≤ i ∧ i < table_start fat_sb + table_bytes fat_sb

/-- The words the code reads say the same as the entries. As far as the judgement goes, that is;
that they are the same numbers is not asked. -/
def words_agree : Prop :=
  ∀ n, 2 ≤ n → n < clusters fat_sb + 2 →
    (dropped fat_sb .FAT_12 data n ↔ free_or_bad .FAT_12 (fat12_entry fat_sb data n))

/-- The words lie in the table, unless the device ends with it. -/
def words_inside : Prop :=
  clusters fat_sb = 0 ∨ (table_start fat_sb < 2 ^ 31 ∧
    (2 * clusters fat_sb ≤ table_bytes fat_sb ∨
      data.length = table_start fat_sb + table_bytes fat_sb))

end Table

/-! ## What the code makes of it

The descriptor moves by two bytes in a pass, so the word for cluster `k` is found without
following the loop. -/

section Decode

variable {malloc : ℕ → Bool} {stale : ℕ} {fat_sb : FatBootSector} {data : List Byte}
  {bm bm' : bitmap}

theorem in_cluster_lt (hfits : data_start fat_sb ≤ get_total_sector fat_sb) {n s : ℕ}
    (hn : 2 ≤ n) (hlt : n < clusters fat_sb + 2) (hs : in_cluster fat_sb n s) :
    s < get_total_sector fat_sb := by
  have hall : clusters fat_sb * fat_sb.cluster_size ≤ get_total_sector fat_sb - data_start fat_sb :=
    Nat.div_mul_le_self _ _
  have hend : (n - 2 + 1) * fat_sb.cluster_size ≤ clusters fat_sb * fat_sb.cluster_size :=
    Nat.mul_le_mul_right _ (by omega)
  have hs' := hs.2
  rw [Nat.succ_mul] at hend
  omega

/-- A sector of a cluster is cleared exactly if its cluster is dropped. -/
theorem cleared_iff_dropped (h : fat12_volume fat_sb data)
    (hbm : bm.length = BITS_TO_LONGS (get_total_sector fat_sb))
    (htrue : read_bitmap_info malloc stale .FAT_12 (some data) bm = .ok (true, bm')) {n s : ℕ}
    (hn : 2 ≤ n) (hlt : n < clusters fat_sb + 2) (hs : in_cluster fat_sb n s) :
    bit bm' s = false ↔ dropped fat_sb .FAT_12 data n := by
  rw [read_bitmap_info_clears (by decide) h.boot h.sector_size h.cluster_size hbm htrue
    (in_cluster_lt h.fits hn hlt hs)]
  constructor
  · rintro ⟨m, hm, -, hs', hdropped⟩
    have hmn : m = n := by
      rw [← ((in_cluster_iff h.cluster_size hm).mp hs').2]
      exact ((in_cluster_iff h.cluster_size hn).mp hs).2
    rwa [hmn] at hdropped
  · intro hdropped
    exact ⟨n, hn, hlt, hs, hdropped⟩

theorem decoded_iff (h : fat12_volume fat_sb data)
    (hbm : bm.length = BITS_TO_LONGS (get_total_sector fat_sb))
    (htrue : read_bitmap_info malloc stale .FAT_12 (some data) bm = .ok (true, bm')) :
    decoded fat_sb data bm' ↔ words_agree fat_sb data := by
  constructor
  · intro hdec n hn hlt
    obtain ⟨-, hs⟩ := first_sector h.fits h.cluster_size hn hlt
    rw [← cleared_iff_dropped h hbm htrue hn hlt hs, ← not_iff_not, ← hdec n hn hlt _ hs,
      Bool.not_eq_false]
  · intro hwords n hn hlt s hs
    rw [← hwords n hn hlt, ← cleared_iff_dropped h hbm htrue hn hlt hs, Bool.not_eq_false]

/-- The loop moves the descriptor on, whatever it makes of the entries. So what is read in a pass
is known without knowing the bitmap. -/
theorem check_clusters_fd {FS : fat_kind} (hFS : FS ≠ .unset) (total_block cluster_size : ℕ)
    (fd : File) (left block p : ℕ) (bm : bitmap) :
    (check_clusters FS total_block cluster_size left block (at_most fd p) bm).2.1
      = at_most fd (p + left * FS.width) := by
  induction left generalizing block p bm with
  | zero => rw [check_clusters, Nat.zero_mul, Nat.add_zero]
  | succ left ih =>
      have hone : (check_cluster total_block cluster_size block (at_most fd p) bm FS).2.1
          = at_most fd (p + FS.width) := by
        rw [check_cluster_eq hFS, check_entry]
        exact (read_into_at_most fd p FS.width).2
      have hend : p + FS.width + left * FS.width = p + (left + 1) * FS.width := by
        rw [Nat.succ_mul]
        omega
      rw [check_clusters, hone, ih, hend]

/-- The bytes of the words, as far as the device has them. -/
theorem consulted_iff (bm : bitmap) (k i : ℕ) :
    consulted fat_sb data bm k i ↔
      seek_start fat_sb data + k * 2 ≤ i ∧ i < seek_start fat_sb data + k * 2 + 2 ∧
        i < data.length := by
  have hfd : table_fd fat_sb data bm k
      = at_most ⟨data, 512, false⟩ (seek_start fat_sb data + k * 2) :=
    check_clusters_fd (by decide) _ _ _ _ _ _ _
  have hlen := slice_length data (seek_start fat_sb data + k * 2) 2
  rw [consulted, hfd, at_most]
  simp only [slice_min, hlen]
  omega

theorem reads_inside_iff (h : fat12_volume fat_sb data) (bm : bitmap) :
    reads_inside fat_sb data bm ↔ words_inside fat_sb data := by
  have htable := h.table
  have hdata := le_of_boot h.boot
  have hseek : seek_start fat_sb data
      = if table_start fat_sb < 2 ^ 31 then table_start fat_sb else 512 := by
    rw [seek_start]
    split_ifs <;> omega
  constructor
  · intro hinside
    by_contra hout
    rw [words_inside, not_or, not_and_or] at hout
    obtain ⟨hcount, h31 | hlong⟩ := hout
    · -- the first word lies behind the boot sector, before the table
      have hfirst := hinside 0 (by omega) 512 ((consulted_iff bm 0 512).mpr (by
        rw [hseek, if_neg h31]
        omega))
      omega
    · -- the word at the end of the table
      rw [not_or] at hlong
      by_cases h31 : table_start fat_sb < 2 ^ 31
      · have hlast := hinside (table_bytes fat_sb / 2) (by omega)
          (table_start fat_sb + table_bytes fat_sb) ((consulted_iff bm _ _).mpr (by
            rw [hseek, if_pos h31]
            omega))
        omega
      · have hfirst := hinside 0 (by omega) 512 ((consulted_iff bm 0 512).mpr (by
          rw [hseek, if_neg h31]
          omega))
        omega
  · intro hwords k hk i hi
    obtain ⟨hlow, hhigh, hend⟩ := (consulted_iff bm k i).mp hi
    rcases hwords with hnone | ⟨h31, hshort | hdevice⟩
    · omega
    · rw [hseek, if_pos h31] at hlow hhigh
      omega
    · rw [hseek, if_pos h31] at hlow
      omega

/-- **When a FAT12 table is decoded.** The bitmap is right where the word and the entry make the
same of each cluster, and nothing is read outside the table where the words, two bytes each, end
in it. -/
theorem fat12_decoded_iff (h : fat12_volume fat_sb data)
    (hbm : bm.length = BITS_TO_LONGS (get_total_sector fat_sb))
    (htrue : read_bitmap_info malloc stale .FAT_12 (some data) bm = .ok (true, bm')) :
    decoded fat_sb data bm' ∧ reads_inside fat_sb data bm ↔
      words_agree fat_sb data ∧ words_inside fat_sb data := by
  rw [decoded_iff h hbm htrue, reads_inside_iff h]

end Decode

/-- A FAT12 boot sector: sectors of 512 bytes, one reserved, one for the table, one for the
directory and three clusters of one sector. -/
def floppy_boot : List Byte :=
  List.replicate 0x0b 0 ++ leBytes 2 512 ++ leBytes 1 1 ++ leBytes 2 1 ++ leBytes 1 1
    ++ leBytes 2 16 ++ leBytes 2 6 ++ leBytes 1 0xf8 ++ leBytes 2 1 ++ List.replicate 488 0

def floppy_sector : FatBootSector := ⟨floppy_boot, by decide +kernel⟩

/-- The volume with these nine bytes at the start of its table. -/
def floppy (table : Bytes 9) : List Byte :=
  floppy_boot ++ (table.1 ++ List.replicate 2551 0)

theorem floppy_fits (table : Bytes 9) : fat12_volume floppy_sector (floppy table) where
  boot := List.take_left' floppy_sector.size
  sector_size := by decide +kernel
  cluster_size := by decide +kernel
  fits := by decide +kernel
  entries := by decide +kernel
  table := by
    have hboot : floppy_boot.length = 512 := floppy_sector.size
    have htable : table_start floppy_sector + table_bytes floppy_sector = 1024 := by
      decide +kernel
    simp only [htable, floppy, List.length_append, List.length_replicate, hboot, table.2,
      Nat.reduceAdd, Nat.reduceLeDiff]

/-- Six entries `0xFFF`: every word reads as the entries do. -/
def full_table : Bytes 9 := ⟨List.replicate 9 0xFF, rfl⟩

/-- The entries `0xFF8`, `0xFFF`, `0xFFF`, `0`, `0xFFF` and `0`: cluster 3 is free. -/
def gap_table : Bytes 9 := ⟨[0xF8, 0xFF, 0xFF, 0xFF, 0x0F, 0x00, 0xFF, 0x0F, 0x00], rfl⟩

/-- With all the clusters in use the words say so too. -/
theorem full_floppy_decoded :
    get_fat_fs_type floppy_sector = .ok (some .FAT_12) ∧
      decoded floppy_sector (floppy full_table) [BitVec.allOnes 64] ∧
      reads_inside floppy_sector (floppy full_table) [0] := by
  refine ⟨by decide +kernel, ?_⟩
  have htrue : read_bitmap_info (fun _ => true) 0 .FAT_12 (some (floppy full_table)) [0]
      = .ok (true, [BitVec.allOnes 64]) := by decide +kernel
  refine (fat12_decoded_iff (floppy_fits full_table) (by decide +kernel) htrue).mpr ⟨?_, ?_⟩
  · have hcount : clusters floppy_sector + 2 = 5 := by decide +kernel
    intro n hn hlt
    obtain rfl | rfl | rfl : n = 2 ∨ n = 3 ∨ n = 4 := by omega
    · exact iff_of_false (by unfold dropped; decide +kernel) (by unfold free_or_bad; decide +kernel)
    · exact iff_of_false (by unfold dropped; decide +kernel) (by unfold free_or_bad; decide +kernel)
    · exact iff_of_false (by unfold dropped; decide +kernel) (by unfold free_or_bad; decide +kernel)
  · exact Or.inr ⟨by decide +kernel, Or.inl (by decide +kernel)⟩

/-- **An allocated cluster of a floppy is dropped**: entry 4 is `0xFFF`, and the word for it lies
across entries 2 and 3. -/
theorem floppy_cluster_dropped :
    fat12_volume floppy_sector (floppy gap_table) ∧
      get_fat_fs_type floppy_sector = .ok (some .FAT_12) ∧
      read_bitmap_info (fun _ => true) 0 .FAT_12 (some (floppy gap_table)) [0]
        = .ok (true, [BitVec.ofNat 64 (2 ^ 64 - 33)]) ∧
      fat12_entry floppy_sector (floppy gap_table) 4 = 0xFFF ∧ in_cluster floppy_sector 4 5 ∧
      bit [BitVec.ofNat 64 (2 ^ 64 - 33)] 5 = false ∧
      ¬ decoded floppy_sector (floppy gap_table) [BitVec.ofNat 64 (2 ^ 64 - 33)] := by
  have hin : in_cluster floppy_sector 4 5 := by unfold in_cluster; decide +kernel
  have hentry : fat12_entry floppy_sector (floppy gap_table) 4 = 0xFFF := by decide +kernel
  have hclear : bit [BitVec.ofNat 64 (2 ^ 64 - 33)] 5 = false := by decide +kernel
  refine ⟨floppy_fits gap_table, by decide +kernel, by decide +kernel, hentry, hin, hclear,
    fun h => ?_⟩
  have hbit := (h 4 (by decide) (by decide +kernel) 5 hin).mpr (by
    rw [hentry]
    unfold free_or_bad
    decide)
  rw [hclear] at hbit
  cases hbit

/-! ## Which volumes are scanned with it

`get_fat_fs_type` counts the clusters in bytes, signed and with the directory rounded up,
and `get_cluster_count` counts them in sectors. -/

section Kind

variable {fat_sb : FatBootSector}

/-- The rounded directory is its sectors. -/
theorem round_to_multiple_eq (n : ℕ) {m : ℕ} (hm : 0 < m) :
    ROUND_TO_MULTIPLE n m = (n + m - 1) / m * m := by
  unfold ROUND_TO_MULTIPLE
  rcases Nat.eq_zero_or_pos n with rfl | hn
  · have hnone : (0 + m - 1) / m = 0 := Nat.div_eq_of_lt (by omega)
    rw [if_neg (by omega), hnone, Nat.zero_mul]
  · have hup : (n + m - 1) / m = (n - 1) / m + 1 := by
      rw [show n + m - 1 = n - 1 + m by omega, Nat.add_div_right _ hm]
    have hdiv := Nat.div_add_mod (n - 1) m
    rw [if_pos ⟨by omega, by omega⟩, hup, Nat.add_mul, Nat.one_mul, Nat.mul_comm]
    omega

/-- What the classification puts before the data is what the scan does, in bytes. -/
theorem front_bytes_eq (hss : 0 < fat_sb.sector_size) (hfat : fat_sb.fat_length ≠ 0) :
    front_bytes fat_sb = data_start fat_sb * fat_sb.sector_size := by
  have hsec : get_sec_per_fat fat_sb = fat_sb.fat_length := if_pos hfat
  rw [front_bytes, round_to_multiple_eq _ hss, data_start, hsec, root_sectors, ← Nat.add_mul]

/-- So both counts are one: whole sectors before the data and in the clusters cancel. -/
theorem byte_clusters_eq (hss : 0 < fat_sb.sector_size) (hfat : fat_sb.fat_length ≠ 0) :
    (get_total_sector fat_sb * fat_sb.sector_size - front_bytes fat_sb)
        / (fat_sb.cluster_size * fat_sb.sector_size) = clusters fat_sb := by
  rw [front_bytes_eq hss hfat, ← Nat.sub_mul, Nat.mul_div_mul_right _ _ hss, clusters]

/-- **The type of a narrow volume**, from the count of the scan. The quotient that is compared
with the threshold is the number of clusters, since both leave out the same front. -/
theorem get_fat_fs_type_narrow (hss : 0 < fat_sb.sector_size) (hcs : 0 < fat_sb.cluster_size)
    (hfat : fat_sb.fat_length ≠ 0) (hnarrow : narrow fat_sb) :
    get_fat_fs_type fat_sb = .ok (if clusters fat_sb = 0 then none
      else if clusters fat_sb ≥ FAT12_THRESHOLD then some .FAT_16 else some .FAT_12) := by
  have hcount := byte_clusters_eq hss hfat
  have hdiff : ((get_total_sector fat_sb * fat_sb.sector_size : ℕ)
      - (front_bytes fat_sb : ℕ) : ℤ).toNat
        = get_total_sector fat_sb * fat_sb.sector_size - front_bytes fat_sb := by omega
  rw [get_fat_fs_type_of_narrow hnarrow, hdiff, udiv_of_pos (Nat.mul_pos hcs hss), hcount, ok_bind]
  by_cases hfull : ((get_total_sector fat_sb * fat_sb.sector_size : ℕ)
      - (front_bytes fat_sb : ℕ) : ℤ) ≤ 0
  · -- no byte is left for the data, and no sector either
    have hnone : clusters fat_sb = 0 := by
      rw [← hcount, Nat.sub_eq_zero_of_le (by omega), Nat.zero_div]
    rw [if_pos hfull, if_pos hnone]
    rfl
  · rw [if_neg hfull]
    split_ifs <;> rfl

/-- **Classification and scan use the same cluster count**, on the boot sectors that reach the
branch of the narrow types. Both divide what is left behind the front by the size of a cluster, in
two places of the source. -/
theorem fat_type_by_cluster_count (hss : fat_sb.sector_size ≠ 0) (hcs : fat_sb.cluster_size ≠ 0)
    (hfat : fat_sb.fat_length ≠ 0) (hnarrow : narrow fat_sb) :
    ∃ cluster_count, get_cluster_count fat_sb = .ok cluster_count ∧
      (front_bytes fat_sb < get_total_sector fat_sb * fat_sb.sector_size →
        udiv ((get_total_sector fat_sb * fat_sb.sector_size : ℕ) - (front_bytes fat_sb : ℕ) : ℤ).toNat
          (fat_sb.cluster_size * fat_sb.sector_size) = .ok cluster_count) ∧
      (∀ FS, get_fat_fs_type fat_sb = .ok (some FS) → (FS = .FAT_12 ↔ cluster_count < 4085)) ∧
      (get_fat_fs_type fat_sb = .ok none ↔ cluster_count = 0) := by
  have hss' := Nat.pos_of_ne_zero hss
  have hcs' := Nat.pos_of_ne_zero hcs
  have htype := get_fat_fs_type_narrow hss' hcs' hfat hnarrow
  refine ⟨clusters fat_sb, get_cluster_count_eq hss' hcs', ?_, ?_, ?_⟩
  · intro hroom
    rw [udiv_of_pos (Nat.mul_pos hcs' hss'), ← byte_clusters_eq hss' hfat]
    congr 2
    omega
  · intro FS hFS
    rw [htype] at hFS
    have hFS' := Except.ok.inj hFS
    -- the threshold of the code is that of the format
    unfold FAT12_THRESHOLD at hFS'
    split_ifs at hFS' with hnone h16
    · rw [← Option.some.inj hFS']
      exact iff_of_false (by decide) (by omega)
    · rw [← Option.some.inj hFS']
      exact iff_of_true rfl (by omega)
  · rw [htype]
    constructor
    · intro h
      have h' := Except.ok.inj h
      split_ifs at h' with hnone
      exact hnone
    · intro hnone
      rw [if_pos hnone]

end Kind

/-- The floppy has three clusters by both counts. -/
theorem floppy_type_by_count :
    ∃ cluster_count, get_cluster_count floppy_sector = .ok cluster_count ∧
      (front_bytes floppy_sector < get_total_sector floppy_sector * floppy_sector.sector_size →
        udiv ((get_total_sector floppy_sector * floppy_sector.sector_size : ℕ)
            - (front_bytes floppy_sector : ℕ) : ℤ).toNat
          (floppy_sector.cluster_size * floppy_sector.sector_size) = .ok cluster_count) ∧
      (∀ FS, get_fat_fs_type floppy_sector = .ok (some FS) →
        (FS = .FAT_12 ↔ cluster_count < 4085)) ∧
      (get_fat_fs_type floppy_sector = .ok none ↔ cluster_count = 0) :=
  fat_type_by_cluster_count (by decide +kernel) (by decide +kernel) (by decide +kernel)
    (Or.inr ⟨by decide +kernel, by decide +kernel⟩)

end SysbakAdmin.Fat

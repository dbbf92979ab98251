/-
What a disk restore has sent when it is refused, and when a device is in use.

The first request that changes the disk, `RemoveAllVG`, follows the look at the mount table
at once. The checks that come after it refuse a disk whose volume groups are gone. And
the look at the mount table is for the devices of the backup, not for those of the target.

A run is followed by what it has sent: requests are only ever added (`keeps`), so a request
that stands at the front after the first steps stands there at the end. Which restores are
refused early is a condition on what the machine answers before anything has been sent
(`refused_early`), and the two theorems are exact over it. Partitions of the target are told
from other devices by their names, and where `realpath` leads elsewhere, by the path it
gives (`partition_on`), as the look at the mount table does.

The results of requests that are waited for are the machine's, and may change with every request,
so a check that is made twice may come out differently the second time.
-/
import SysbakAdmin.Client
import SysbakAdmin.Disk

set_option autoImplicit false

namespace SysbakAdmin.DiskRestore

open KeyFile Client

/-! ## Requests that change a disk -/

/-- The requests that change what they are given. -/
def modifies : request → Bool
  | .remove_all_vg _ => true
  | .backup_disk_mbr _ _ => true
  | .restore_partition_table _ _ => true
  | .create_pv _ _ _ => true
  | .sysbak_restore _ _ _ => true
  | _ => false

section Checks

variable (env : Env) (source target : chars)

/-- The session after `RemoveAllVG` and the two questions for a size. -/
def sized : Session :=
  (get_disk_space_size env (get_source_space_size env (remove_disk_old_lvm .new target)
    (source ++ "/disk-table".toList)).2 target).2

/-- `disk_space < needed_space`. -/
abbrev no_space : Prop :=
  (get_disk_space_size env (get_source_space_size env (remove_disk_old_lvm .new target)
    (source ++ "/disk-table".toList)).2 target).1
    < (get_source_space_size env (remove_disk_old_lvm .new target)
        (source ++ "/disk-table".toList)).1

/-- The file with the boot record is missing. -/
def no_mbr_file : Prop :=
  check_file_device (env (sized env source target).sent) (source ++ "/disk-mbr".toList) = false

/-- The session after the boot record. -/
def booted : Session := (restore_disk_mbr env (sized env source target) source target).2

/-- The boot record was written, and the target or the file with the partition table is missing. -/
def no_table_file : Prop :=
  (restore_disk_mbr env (sized env source target) source target).1 = true ∧
    (check_file_device (env (booted env source target).sent) target
      && check_file_device (env (booted env source target).sent) (source ++ "/disk-table".toList))
      = false

/-- The checks before `RemoveAllVG`: the paths, and the mount table. All of it is decided by what
the machine answers before any request has been sent. -/
def refused_early : Prop :=
  check_file_device (env []) target = false ∨ check_file_device (env []) source = false ∨
    check_dev_is_mount (env []) source ≠ none

/-- The checks after it: the space, and the files in the directory. -/
def refused_late : Prop :=
  no_space env source target ∨ no_mbr_file env source target ∨ no_table_file env source target

/-- A call that returns `FALSE` because of a check has sent no request that changes a disk. A
check that comes after such a request would be too late, whatever it finds. -/
def rejected_untouched : Prop :=
  refused_early env source target ∨ refused_late env source target →
    (sysbak_admin_restore_disk env .new source target).1 = false ∧
    ∀ r ∈ (sysbak_admin_restore_disk env .new source target).2.sent, modifies r = false

end Checks

variable {env : Env} {source target : chars}

/-- Refused early, the call has sent nothing at all. -/
theorem restore_disk_refused_early (h : refused_early env source target) :
    (sysbak_admin_restore_disk env .new source target).1 = false ∧
      (sysbak_admin_restore_disk env .new source target).2.sent = [] := by
  have hnew : Session.new.sent = [] := rfl
  unfold sysbak_admin_restore_disk
  rw [hnew]
  rcases h with h | h | h
  · rw [h]
    exact ⟨rfl, rfl⟩
  · rw [h]
    cases check_file_device (env []) target <;> exact ⟨rfl, rfl⟩
  · obtain ⟨error_message, hmessage⟩ := Option.ne_none_iff_exists'.mp h
    rw [hmessage]
    cases check_file_device (env []) target <;> cases check_file_device (env []) source <;>
      exact ⟨rfl, rfl⟩

/-- Past these checks, the call is what comes after `RemoveAllVG`. It is the form in which the
later checks are looked at. -/
theorem restore_disk_accepted (h : ¬ refused_early env source target) :
    sysbak_admin_restore_disk env .new source target
      = if no_space env source target then
          (false, emit_sysbak_error (sized env source target) "Insufficient storage space".toList)
        else if !(restore_disk_mbr env (sized env source target) source target).1 then
          (false, emit_sysbak_error (booted env source target)
            "Failed to recover the hard disk MBR".toList)
        else if !(restore_partition_table env (booted env source target)
            (source ++ "/disk-table".toList) target).1 then
          (false, (restore_partition_table env (booted env source target)
            (source ++ "/disk-table".toList) target).2)
        else (true, read_cfg_file_restore env (restore_partition_table env
          (booted env source target) (source ++ "/disk-table".toList) target).2 source target) := by
  simp only [refused_early, not_or, Bool.not_eq_false, ne_eq, not_not] at h
  have hnew : Session.new.sent = [] := rfl
  unfold sysbak_admin_restore_disk
  rw [hnew, h.1, h.2.1, h.2.2]
  rfl

/-! ## Nothing is taken back

So it is enough to look at the first steps of a call to know what is among the requests at its
end. -/

/-- What was sent stays sent. With it a fact about the first requests of a session is one about
the whole of it. -/
def keeps (c c' : Session) : Prop := c.sent <+: c'.sent

theorem keeps.refl (c : Session) : keeps c c := List.prefix_rfl

theorem keeps.trans {c₁ c₂ c₃ : Session} (h : keeps c₁ c₂) (h' : keeps c₂ c₃) : keeps c₁ c₃ :=
  List.IsPrefix.trans h h'

theorem send_keeps (c : Session) (r : request) : keeps c (send c r) := List.prefix_append _ _

theorem get_source_space_size_keeps (c : Session) (path : chars) :
    keeps c (get_source_space_size env c path).2 := by
  unfold get_source_space_size
  split_ifs
  · exact send_keeps _ _
  · exact .refl c

theorem get_disk_space_size_keeps (c : Session) (dev : chars) :
    keeps c (get_disk_space_size env c dev).2 := by
  unfold get_disk_space_size
  split_ifs
  · exact send_keeps _ _
  · exact .refl c

theorem restore_disk_mbr_keeps (c : Session) (source target : chars) :
    keeps c (restore_disk_mbr env c source target).2 := by
  unfold restore_disk_mbr get_disk_mbr
  split_ifs
  · exact send_keeps _ _
  · exact .refl c

theorem restore_partition_table_keeps (env : Env) (c : Session) (source target : chars) :
    keeps c (restore_partition_table env c source target).2 := by
  unfold restore_partition_table set_disk_partition_table
  split_ifs
  · exact send_keeps _ _
  · exact .refl c

theorem sysbak_admin_restore_async_keeps (c : Session) (source target : chars)
    (overwrite : Bool) :
    keeps c (sysbak_admin_restore_async env c source target overwrite).2 := by
  unfold sysbak_admin_restore_async
  split_ifs
  · exact List.prefix_rfl
  · exact List.prefix_rfl
  · exact List.prefix_rfl
  · exact List.prefix_append _ _

theorem activate_file_keeps (dir_path : chars) (c : Session) (fn : chars) :
    keeps c (activate_file env dir_path c fn) := by
  unfold activate_file restart_lvm_vg set_disk_lvm_metadata
  split_ifs
  · exact (send_keeps _ _).trans (send_keeps _ _)
  · exact send_keeps _ _
  · exact .refl c

theorem activation_lvm_pv_keeps {c c' : Session} {dir_path : chars}
    (h : activation_lvm_pv env c dir_path = some c') : keeps c c' := by
  obtain ⟨names, -, rfl⟩ := Option.map_eq_some_iff.mp h
  clear h
  induction names generalizing c with
  | nil => exact .refl c
  | cons fn names ih => exact (activate_file_keeps dir_path c fn).trans ih

theorem create_lvm_pv_keeps (c : Session) (source target uuid : chars) :
    keeps c (create_lvm_pv env c source target uuid).2 := by
  unfold create_lvm_pv
  split_ifs
  · exact send_keeps _ _
  · exact .refl c

theorem restore_lvm_pv_loop_keeps (dir_path dev_name uuid : chars) (names : List chars)
    (c : Session) : keeps c (restore_lvm_pv_loop env dir_path dev_name uuid names c).2 := by
  induction names generalizing c with
  | nil => exact .refl c
  | cons fn names ih =>
      unfold restore_lvm_pv_loop
      dsimp only
      split_ifs
      · exact (send_keeps _ _).trans (create_lvm_pv_keeps _ _ _ _)
      · exact (send_keeps _ _).trans (ih _)
      · exact ih c

theorem restore_lvm_pv_keeps (c : Session) (dir_path dev_name : chars) (uuid : Option chars) :
    keeps c (restore_lvm_pv env c dir_path dev_name uuid).2 := by
  unfold restore_lvm_pv
  split
  · exact restore_lvm_pv_loop_keeps _ _ _ _ c
  · exact .refl c

theorem restore_group_keeps {k : key_file} {c c' : Session} {group : chars}
    (h : restore_group env k source target c group = some c') : keeps c c' := by
  unfold restore_group at h
  dsimp only at h
  split_ifs at h
  · exact activation_lvm_pv_keeps h
  · rw [← Option.some.inj h]
    exact restore_lvm_pv_keeps _ _ _ _
  · rw [← Option.some.inj h]
    exact .refl c
  · rw [← Option.some.inj h]
    exact sysbak_admin_restore_async_keeps _ _ _ _
  · rw [← Option.some.inj h]
    exact sysbak_admin_restore_async_keeps _ _ _ _

theorem restore_groups_keeps (k : key_file) (groups : List chars) (c : Session) :
    keeps c (restore_groups env k source target groups c) := by
  induction groups generalizing c with
  | nil => exact .refl c
  | cons group groups ih =>
      unfold restore_groups
      cases h : restore_group env k source target c group with
      | none => exact .refl c
      | some c' => exact (restore_group_keeps h).trans (ih c')

theorem read_cfg_file_restore_keeps (c : Session) :
    keeps c (read_cfg_file_restore env c source target) := by
  unfold read_cfg_file_restore
  split_ifs
  · split
    · exact .refl c
    · exact restore_groups_keeps _ _ c
  · exact .refl c

/-- `RemoveAllVG` comes first. -/
theorem sized_keeps : keeps (remove_disk_old_lvm .new target) (sized env source target) :=
  (get_source_space_size_keeps _ _).trans (get_disk_space_size_keeps _ _)

theorem booted_keeps : keeps (remove_disk_old_lvm .new target) (booted env source target) :=
  sized_keeps.trans (restore_disk_mbr_keeps _ _ _)

/-- **A call that is not refused early has sent `RemoveAllVG` before anything else.** -/
theorem restore_disk_removes_first (h : ¬ refused_early env source target) :
    keeps (remove_disk_old_lvm .new target) (sysbak_admin_restore_disk env .new source target).2 := by
  rw [restore_disk_accepted h]
  have htable := booted_keeps.trans (restore_partition_table_keeps env
    (booted env source target) (source ++ "/disk-table".toList) target)
  split_ifs
  · exact sized_keeps
  · exact booted_keeps
  · exact htable
  · exact htable.trans (read_cfg_file_restore_keeps _)

theorem remove_all_vg_mem (h : ¬ refused_early env source target) :
    request.remove_all_vg target ∈ (sysbak_admin_restore_disk env .new source target).2.sent :=
  (restore_disk_removes_first h).subset (List.mem_singleton_self _)

/-! ## A refused disk -/

/-- **A rejected restore leaves the disk alone exactly when it is not one of the later checks
that rejects it.** -/
theorem rejected_untouched_iff (env : Env) (source target : chars) :
    rejected_untouched env source target ↔
      refused_early env source target ∨ ¬ refused_late env source target := by
  by_cases hearly : refused_early env source target
  · obtain ⟨hfalse, hnone⟩ := restore_disk_refused_early hearly
    refine iff_of_true (fun _ => ⟨hfalse, fun r hr => ?_⟩) (Or.inl hearly)
    rw [hnone] at hr
    cases hr
  · constructor
    · intro h
      refine Or.inr fun hlate => ?_
      exact absurd ((h (Or.inr hlate)).2 _ (remove_all_vg_mem hearly)) (by simp [modifies])
    · rintro (h | h) (h' | h')
      · exact absurd h hearly
      · exact absurd h hearly
      · exact absurd h' hearly
      · exact absurd h' h

/-- A machine with all the files, nothing mounted, and a disk of half the size. -/
def small_disk : Machine where
  f_ok _ := true
  r_ok _ := true
  realpath path := some path
  mtab := some []
  g_dir_open _ := some []
  g_key_file_load_from_file _ := .ok g_key_file_new
  answers _ := true
  size r := match r with
    | .get_source_use_size _ => some 20971520
    | _ => some 10485760

/-- **The groups of a disk that is too small are gone** when it is found out. -/
theorem small_disk_loses_groups :
    sysbak_admin_restore_disk (fun _ => small_disk) .new "/backup".toList "/dev/sdb".toList
      = (false, ⟨[.remove_all_vg "/dev/sdb".toList,
          .get_source_use_size "/backup/disk-table".toList, .get_disk_size "/dev/sdb".toList],
          ["Insufficient storage space".toList]⟩) ∧
    ¬ rejected_untouched (fun _ => small_disk) "/backup".toList "/dev/sdb".toList := by
  have hrun : sysbak_admin_restore_disk (fun _ => small_disk) .new "/backup".toList
      "/dev/sdb".toList = (false, ⟨[.remove_all_vg "/dev/sdb".toList,
          .get_source_use_size "/backup/disk-table".toList, .get_disk_size "/dev/sdb".toList],
          ["Insufficient storage space".toList]⟩) := by decide
  refine ⟨hrun, fun h => ?_⟩
  have hlate : refused_late (fun _ => small_disk) "/backup".toList "/dev/sdb".toList :=
    Or.inl (by decide)
  have := (h (Or.inr hlate)).2 (.remove_all_vg "/dev/sdb".toList) (by rw [hrun]; decide)
  cases this

/-! ## A disk in use

The mount table is looked at for the devices of the backup. Those of the target may be mounted
meanwhile, and the condition says when they are not. -/

/-- A partition of the disk: its name is the disk's with an optional `p` and a number. -/
def partition_of (device disk : chars) : Prop :=
  ∃ n, Disk.is_number n ∧ (device = disk ++ n ∨ device = disk ++ 'p' :: n)

/-- The requests of a disk restore that destroy what was on a disk. -/
def destroys : request → Bool
  | .remove_all_vg _ => true
  | .backup_disk_mbr _ _ => true
  | .restore_partition_table _ _ => true
  | .sysbak_restore _ _ _ => true
  | _ => false

/-- A partition of the disk that a path leads to. Device and target are compared by name, and
by their real paths, as `check_device_mount` compares a device with the mount table: a target
under `/dev/disk/by-id` has the partitions of the disk it is a link to. -/
def partition_on (m : Machine) (device target : chars) : Prop :=
  partition_of device target ∨
    ∃ part disk, m.realpath device = some part ∧ m.realpath target = some disk ∧
      partition_of part disk

/-- When a destructive request is sent, no partition of the target is mounted. -/
def sent_while_unused (env : Env) (target : chars) (sent : List request) : Prop :=
  ∀ before r after, sent = before ++ r :: after → destroys r = true →
    ∀ p, partition_on (env []) p target → check_device_mount (env before) p = false

/-- The devices that `check_dev_is_mount` looks at: those recorded before `lvm`. -/
def recorded_devices (k : key_file) : List chars :=
  ((k.groups.map fun group => k.g_key_file_get_string group "name".toList).takeWhile
    fun name => name ≠ some "lvm".toList).map fun name => recorded_device (name.getD [])

theorem check_groups_mount_iff (m : Machine) (k : key_file) (groups : List chars) :
    check_groups_mount m k groups = true ↔
      ∃ device ∈ ((groups.map fun group => k.g_key_file_get_string group "name".toList).takeWhile
        fun name => name ≠ some "lvm".toList).map fun name => recorded_device (name.getD []),
        check_device_mount m device = true := by
  induction groups with
  | nil => simp [check_groups_mount]
  | cons group groups ih =>
      rw [check_groups_mount, List.map_cons]
      by_cases hlvm : k.g_key_file_get_string group "name".toList = some "lvm".toList
      · rw [if_pos hlvm, List.takeWhile_cons_of_neg (by simpa using hlvm)]
        simp
      · rw [if_neg hlvm, List.takeWhile_cons_of_pos (by simpa using hlvm), List.map_cons]
        simp only [List.mem_cons, exists_eq_or_imp]
        split_ifs with hmount
        · exact iff_of_true rfl (Or.inl hmount)
        · rw [ih]
          exact ⟨Or.inr, fun h => h.resolve_left hmount⟩

/-- What lets `check_dev_is_mount` refuse. -/
def refuses_mount (m : Machine) (source : chars) : Prop :=
  m.r_ok (disk_info_path source) = false ∨ m.f_ok (disk_info_path source) = false ∨
    (∃ message, m.g_key_file_load_from_file (disk_info_path source) = .error message) ∨
    ∃ k, m.g_key_file_load_from_file (disk_info_path source) = .ok k ∧
      ∃ device ∈ recorded_devices k, check_device_mount m device = true

theorem check_dev_is_mount_iff (m : Machine) (source : chars) :
    check_dev_is_mount m source ≠ none ↔ refuses_mount m source := by
  unfold check_dev_is_mount refuses_mount check_file_permission check_file_device
  cases hr : m.r_ok (disk_info_path source) with
  | false => simp
  | true =>
  cases hf : m.f_ok (disk_info_path source) with
  | false => simp
  | true =>
  cases hload : m.g_key_file_load_from_file (disk_info_path source) with
  | error message => simp
  | ok k =>
      have hiff := check_groups_mount_iff m k k.groups
      simp only [Bool.not_true, Bool.false_eq_true, if_false, Bool.true_eq_false, false_or,
        reduceCtorEq, exists_false, Except.ok.injEq, exists_eq_left']
      rw [recorded_devices, ← hiff]
      split_ifs with h <;> simp [h]

/-- **A disk in use is spared exactly when none of its partitions is mounted or the call is
refused**: because a path is missing, or because a device that was recorded at the time of
the backup is mounted. -/
theorem restore_disk_spares_iff {env : Env} {source target : chars}
    (hmounts : ∀ sent device, check_device_mount (env sent) device
      = check_device_mount (env []) device) :
    sent_while_unused env target (sysbak_admin_restore_disk env .new source target).2.sent ↔
      (∀ p, partition_on (env []) p target → check_device_mount (env []) p = false) ∨
      (env []).f_ok target = false ∨ (env []).f_ok source = false ∨
      refuses_mount (env []) source := by
  rw [← check_dev_is_mount_iff]
  change _ ↔ _ ∨ refused_early env source target
  constructor
  · intro h
    by_cases hearly : refused_early env source target
    · exact Or.inr hearly
    · -- the first request is the one to look at
      obtain ⟨rest, hrest⟩ := restore_disk_removes_first hearly
      exact Or.inl (h [] _ rest hrest.symm rfl)
  · rintro (h | h) before r after hsent hr p hp
    · rw [hmounts]
      exact h p hp
    · rw [(restore_disk_refused_early h).2] at hsent
      simp at hsent

/-- A machine on which `/dev/sdb1` is mounted, with a backup of `sda`. -/
def sdb_in_use : Machine where
  f_ok _ := true
  r_ok _ := true
  realpath path := some path
  mtab := some ["/dev/sdb1".toList]
  g_dir_open _ := some []
  g_key_file_load_from_file _ :=
    .ok (g_key_file_new.g_key_file_set_string ['1'] "name".toList "sda1".toList)
  answers _ := true
  size _ := some 0

/-- Restored to `/dev/sdc`, it spares no mounted partition, because there is none. -/
theorem restore_disk_spares_sdc :
    sent_while_unused (fun _ => sdb_in_use) "/dev/sdc".toList
      (sysbak_admin_restore_disk (fun _ => sdb_in_use) .new "/backup".toList
        "/dev/sdc".toList).2.sent := by
  refine (restore_disk_spares_iff fun _ _ => rfl).mpr (Or.inl ?_)
  rintro p (⟨n, -, rfl | rfl⟩ | ⟨part, disk, hpart, hdisk, n, -, rfl | rfl⟩)
  · rfl
  · rfl
  · cases hdisk
    cases hpart
    rfl
  · cases hdisk
    cases hpart
    rfl

/-- **Restored to `/dev/sdb`**, its groups, its boot record and its partition table go with
`/dev/sdb1` mounted. -/
theorem restore_disk_takes_sdb :
    check_device_mount sdb_in_use "/dev/sdb1".toList = true ∧
    (sysbak_admin_restore_disk (fun _ => sdb_in_use) .new "/backup".toList
        "/dev/sdb".toList).2.sent
      = [.remove_all_vg "/dev/sdb".toList, .get_source_use_size "/backup/disk-table".toList,
          .get_disk_size "/dev/sdb".toList,
          .backup_disk_mbr "/backup/disk-mbr".toList "/dev/sdb".toList,
          .restore_partition_table "/dev/sdb".toList "/backup/disk-table".toList] ∧
    ¬ sent_while_unused (fun _ => sdb_in_use) "/dev/sdb".toList
      (sysbak_admin_restore_disk (fun _ => sdb_in_use) .new "/backup".toList
        "/dev/sdb".toList).2.sent := by
  have hmounted : check_device_mount sdb_in_use "/dev/sdb1".toList = true := by decide
  have hsent : (sysbak_admin_restore_disk (fun _ => sdb_in_use) .new "/backup".toList
        "/dev/sdb".toList).2.sent
      = [.remove_all_vg "/dev/sdb".toList, .get_source_use_size "/backup/disk-table".toList,
          .get_disk_size "/dev/sdb".toList,
          .backup_disk_mbr "/backup/disk-mbr".toList "/dev/sdb".toList,
          .restore_partition_table "/dev/sdb".toList "/backup/disk-table".toList] := by decide
  refine ⟨hmounted, hsent, fun h => ?_⟩
  have hfree := h [] _ _ hsent rfl "/dev/sdb1".toList
    (Or.inl ⟨['1'], ⟨by simp, List.forall_mem_singleton.mpr rfl⟩, Or.inl rfl⟩)
  rw [hmounted] at hfree
  cases hfree

end SysbakAdmin.DiskRestore

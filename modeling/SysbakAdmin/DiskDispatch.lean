/-
What a whole-disk backup starts and what it reports, for any `disk-info.ini`.

`sysbak_admin_disk_data` looks each group up in a table of file system types. It starts one
backup for each group whose type is there, but emits the error after every entry it
compares, so a group that is backed up is reported as well (`disk_data_sound_iff`).

The table is gone through to its end for each group, and the error stands behind the test in
the loop and not behind the loop. So what is started is right for every file
(`disk_data_started`), and what is reported is every group there is (`unsupported_mem`), which
is right of a file from which nothing is started and of no other.

The file is arbitrary: it need not be one that `json_parse_array` has written, and a group may
lack any of its keys.
-/
import SysbakAdmin.DiskInfo

set_option autoImplicit false

namespace SysbakAdmin.DiskInfo

open KeyFile Client DiskRestore

/-! ## What is asked of a run -/

/-- The backup function for the type of a group, if the type is in the table. -/
def group_type (k : key_file) (group : chars) : Option sysbak_func :=
  (k.g_key_file_get_string group "fstype".toList).bind fun fs => List.lookup fs array_data

/-- The one backup of a group that has a name: from the device of the partition to its
image. -/
def group_backup (k : key_file) (dir_name group : chars) : Option backup_event := do
  let type ← group_type k group
  let partition ← k.g_key_file_get_string group "name".toList
  pure (.backup type (get_dev_path partition) (image_path dir_name partition))

def is_backup : backup_event → Bool
  | .backup .. => true
  | .unsupported => false

/-- Every partition is dispatched once, and only real problems are reported. The backups are those
of the whole call, the reports those of the round of each group. -/
structure dispatch_sound (k : key_file) (dir_name : chars) : Prop where
  /-- The backups that are started are those of the groups with a type of the table, in
  their order. A group without a name stops the program at `get_dev_path`. -/
  started : (∀ g ∈ k.groups, group_type k g ≠ none →
      k.g_key_file_get_string g "name".toList ≠ none) →
    (sysbak_admin_disk_data k dir_name).filter is_backup
      = k.groups.filterMap (group_backup k dir_name)
  /-- In the round of a group the error is emitted exactly when its type is not there. -/
  reported : ∀ g ∈ k.groups,
    (.unsupported ∈ backup_group k dir_name g ↔ group_type k g = none)

/-! ## The table -/

/-- **The inner loop starts what the table says**, since no type is in it twice. -/
theorem table_backups {table : List (chars × sysbak_func)} (hnodup : (table.map Prod.fst).Nodup)
    (fs_type : Option chars) {start : sysbak_func → backup_event}
    (hstart : ∀ type, is_backup (start type) = true) :
    (table.flatMap fun t =>
        (if fs_type = some t.1 then [start t.2] else []) ++ [.unsupported]).filter is_backup
      = ((fs_type.bind fun fs => List.lookup fs table).map start).toList := by
  induction table with
  | nil => cases fs_type <;> rfl
  | cons t table ih =>
      rw [List.map_cons, List.nodup_cons] at hnodup
      rw [List.flatMap_cons, List.filter_append, ih hnodup.2]
      by_cases ht : fs_type = some t.1
      · -- the types behind the match are others
        have hrest : List.lookup t.1 table = none := by
          rw [List.lookup_eq_none_iff]
          intro t' ht'
          have hne : t.1 ≠ t'.1 := fun h => hnodup.1 (h ▸ List.mem_map_of_mem ht')
          simpa using hne
        have hfirst : List.lookup t.1 (t :: table) = some t.2 :=
          List.lookup_cons_self
        have hround : ([start t.2] ++ [backup_event.unsupported]).filter is_backup
            = [start t.2] := by
          rw [List.singleton_append, List.filter_cons_of_pos (hstart t.2)]
          rfl
        rw [if_pos ht, ht, Option.bind_some, Option.bind_some, hrest, hfirst, hround]
        rfl
      · have hskip : (fs_type.bind fun fs => List.lookup fs (t :: table))
            = fs_type.bind fun fs => List.lookup fs table := by
          cases fs_type with
          | none => rfl
          | some fs =>
              have hne : (fs == t.1) = false := by simpa using ht
              rw [Option.bind_some, Option.bind_some, List.lookup_cons, hne]
        rw [if_neg ht, hskip]
        rfl

/-- The error is emitted in every round. -/
theorem unsupported_mem (k : key_file) (dir_name group : chars) :
    .unsupported ∈ backup_group k dir_name group := by
  unfold backup_group
  refine List.mem_flatMap.mpr ⟨("ext2".toList, .sysbak_admin_extfs), List.mem_cons_self, ?_⟩
  exact List.mem_append_right _ (List.mem_singleton_self _)

/-- A group with a name starts its backup and no other. -/
theorem backup_group_started {k : key_file} {dir_name group : chars}
    (hname : group_type k group ≠ none → k.g_key_file_get_string group "name".toList ≠ none) :
    (backup_group k dir_name group).filter is_backup
      = (group_backup k dir_name group).toList := by
  have htypes : (array_data.map Prod.fst).Nodup := by decide
  have htable := @table_backups array_data htypes (k.g_key_file_get_string group "fstype".toList)
    (fun type => .backup type
      (get_dev_path ((k.g_key_file_get_string group "name".toList).getD []))
      (image_path dir_name ((k.g_key_file_get_string group "name".toList).getD [])))
    fun _ => rfl
  unfold backup_group
  rw [htable]
  unfold group_backup
  unfold group_type at hname ⊢
  cases htype : (k.g_key_file_get_string group "fstype".toList).bind
      fun fs => List.lookup fs array_data with
  | none => rfl
  | some type =>
      obtain ⟨partition, hpartition⟩ :=
        Option.ne_none_iff_exists'.mp (hname (by rw [htype]; exact Option.some_ne_none _))
      rw [hpartition]
      rfl

/-- **Each partition is dispatched once.** -/
theorem disk_data_started {k : key_file} {dir_name : chars}
    (hnames : ∀ g ∈ k.groups, group_type k g ≠ none →
      k.g_key_file_get_string g "name".toList ≠ none) :
    (sysbak_admin_disk_data k dir_name).filter is_backup
      = k.groups.filterMap (group_backup k dir_name) := by
  unfold sysbak_admin_disk_data
  generalize k.groups = groups at hnames
  induction groups with
  | nil => rfl
  | cons g groups ih =>
      rw [List.flatMap_cons, List.filter_append,
        backup_group_started (hnames g List.mem_cons_self),
        ih fun g' hg' => hnames g' (List.mem_cons_of_mem _ hg'), List.filterMap_cons]
      cases group_backup k dir_name g with
      | none => rfl
      | some event => rfl

/-- **A whole-disk backup is sound exactly when it backs nothing up**: the backups are always
the right ones, and the error is emitted for every group, also for those whose type is in
the table. -/
theorem disk_data_sound_iff (k : key_file) (dir_name : chars) :
    dispatch_sound k dir_name ↔ ∀ g ∈ k.groups, group_type k g = none := by
  constructor
  · intro h g hg
    exact (h.reported g hg).mp (unsupported_mem k dir_name g)
  · intro hnone
    refine ⟨disk_data_started, fun g hg => ?_⟩
    constructor
    · intro _
      exact hnone g hg
    · intro _
      exact unsupported_mem k dir_name g

/-- **The `ext4` partition of `sda` is backed up, and reported six times.** -/
theorem sda_not_sound :
    group_backup (json_parse_array sda_listing) "/backup".toList "1".toList
      = some (.backup .sysbak_admin_extfs "/dev/sda1".toList "/backup/sda1.img".toList) ∧
    (backup_group (json_parse_array sda_listing) "/backup".toList "1".toList).count .unsupported
      = 6 ∧
    ¬ dispatch_sound (json_parse_array sda_listing) "/backup".toList := by
  refine ⟨by decide, by decide, fun h => ?_⟩
  have hgroup : "1".toList ∈ (json_parse_array sda_listing).groups := by decide
  have hnone := (h.reported _ hgroup).mp (unsupported_mem _ _ _)
  exact absurd hnone (by decide)

end SysbakAdmin.DiskInfo

/-
`disk-info.ini`, from the listing of a disk to the images and back.

`json_parse_array` names the group of a partition by its kernel name from the fourth
character on, and a restore puts that behind the name of the target. The two are inverse
for the disks whose name has three characters; a logical volume keeps its whole name.

The listing is an arbitrary list of what `lsblk` prints, with the facts `lsblk` is
documented to keep (`lsblk_listing`): a partition's name starts with that of its disk, and
no name occurs twice. From the listing comes the key file, group by group; `shows` says what
can be read back from it. A backup and a restore each go through that file. What they do
is compared where it leaves the client: the backups that are started, and the
`SysbakRestore` requests among all that has been sent (`restores_sent`).

`images_agree` asks of every machine that holds the backup that the requests are those of
the listing, image by image and device by device, as far as the checks in front of a
request let it pass. The condition is exact since the name of a group and the name of the
target determine the device, and `restore_device_eq` says when they give back the one that
was listed.
-/
import SysbakAdmin.DiskRestore

set_option autoImplicit false

namespace SysbakAdmin.DiskInfo

open KeyFile Client DiskRestore

/-! ## Writing `disk-info.ini` -/

/-- One device of `lsblk -o NAME,FSTYPE,UUID -Jl`. -/
structure lsblk_entry where
  name : chars
  fstype : Option chars
  uuid : Option chars
  deriving DecidableEq, Repr

/-- `record_standard_disk_info`: neither logical volumes nor names of three characters. -/
def record_standard_disk_info (Kconfig : key_file) (jvalue : lsblk_entry) : key_file :=
  if '-' ∈ jvalue.name ∨ jvalue.name.length = 3 then Kconfig
  else
    let group_name := jvalue.name.drop 3
    ((Kconfig.g_key_file_set_string group_name "name".toList jvalue.name).g_key_file_set_string
      group_name "fstype".toList (jvalue.fstype.getD "free".toList)).g_key_file_set_string
      group_name "uuid".toList (jvalue.uuid.getD "free".toList)

/-- A value that is `null` is not taken by GLib. -/
def set_unless_null (k : key_file) (group key : chars) : Option chars → key_file
  | some s => k.g_key_file_set_string group key s
  | none => k

/-- `record_lvm_disk_info`. -/
def record_lvm_disk_info (Kconfig : key_file) (jvalue : lsblk_entry) : key_file :=
  if '-' ∈ jvalue.name then
    set_unless_null (set_unless_null
      (Kconfig.g_key_file_set_string jvalue.name "name".toList jvalue.name)
      jvalue.name "fstype".toList jvalue.fstype) jvalue.name "uuid".toList jvalue.uuid
  else Kconfig

/-- `json_parse_array`: the partitions, the group `end`, the logical volumes. -/
def json_parse_array (jarray : List lsblk_entry) : key_file :=
  let Kconfig := jarray.foldl record_standard_disk_info g_key_file_new
  let Kconfig := Kconfig.g_key_file_set_string "end".toList "name".toList "lvm".toList
  let Kconfig := Kconfig.g_key_file_set_string "end".toList "fstype".toList "lvm".toList
  jarray.foldl record_lvm_disk_info Kconfig

/-! ## The backup of a disk -/

inductive sysbak_func where
  | sysbak_admin_extfs
  | sysbak_admin_fatfs
  | sysbak_admin_btrfs
  | sysbak_admin_xfsfs
  deriving DecidableEq, Repr

/-- The file system types that are backed up. -/
def array_data : List (chars × sysbak_func) :=
  [("ext2".toList, .sysbak_admin_extfs), ("ext3".toList, .sysbak_admin_extfs),
    ("ext4".toList, .sysbak_admin_extfs), ("vfat".toList, .sysbak_admin_fatfs),
    ("btrfs".toList, .sysbak_admin_btrfs), ("xfs".toList, .sysbak_admin_xfsfs)]

/-- `get_dev_path`. -/
def get_dev_path (str : chars) : chars :=
  if '-' ∈ str then "/dev/mapper/".toList ++ str else "/dev/".toList ++ str

/-- What `sysbak_admin_disk_data` does: it starts a backup, or emits the error signal. -/
inductive backup_event where
  | backup (type : sysbak_func) (source target : chars)
  | unsupported
  deriving DecidableEq, Repr

/-- The image of a partition. -/
def image_path (dir_name partition : chars) : chars := dir_name ++ '/' :: partition ++ ".img".toList

/-- One group, of which the name is there. The signal follows every type of the table. -/
def backup_group (k : key_file) (dir_name group : chars) : List backup_event :=
  let partition := (k.g_key_file_get_string group "name".toList).getD []
  let fs_type := k.g_key_file_get_string group "fstype".toList
  array_data.flatMap fun t =>
    (if fs_type = some t.1 then
      [.backup t.2 (get_dev_path partition) (image_path dir_name partition)]
    else []) ++ [.unsupported]

/-- `sysbak_admin_disk_data`. -/
def sysbak_admin_disk_data (k : key_file) (dir_name : chars) : List backup_event :=
  k.groups.flatMap (backup_group k dir_name)

/-! ## What the key file says -/

/-- The group of a device. -/
def group_of (e : lsblk_entry) : chars := if '-' ∈ e.name then e.name else e.name.drop 3

/-- It is recorded: a logical volume, or a name of more than three characters. -/
def recorded (e : lsblk_entry) : Prop := '-' ∈ e.name ∨ e.name.length ≠ 3

/-- The group of a device says what was listed of it. It is the only thing that later modules know
of the file, so the order in which its keys were written does not matter. -/
structure shows (k : key_file) (e : lsblk_entry) : Prop where
  name : k.g_key_file_get_string (group_of e) "name".toList = some e.name
  fstype : ∀ t, e.fstype = some t → k.g_key_file_get_string (group_of e) "fstype".toList = some t
  free : '-' ∉ e.name → e.fstype = none →
    k.g_key_file_get_string (group_of e) "fstype".toList = some "free".toList

section Records

variable {k : key_file} {e : lsblk_entry} {g x : chars}

theorem record_standard_get (h : g ≠ e.name.drop 3 ∨ '-' ∈ e.name ∨ e.name.length = 3) :
    (record_standard_disk_info k e).g_key_file_get_string g x = k.g_key_file_get_string g x := by
  unfold record_standard_disk_info
  split_ifs with hskip
  · rfl
  · simp [h.resolve_right hskip]

theorem record_lvm_get (h : g ≠ e.name ∨ '-' ∉ e.name) :
    (record_lvm_disk_info k e).g_key_file_get_string g x = k.g_key_file_get_string g x := by
  unfold record_lvm_disk_info
  split_ifs with hlvm
  · have hg := h.resolve_right (not_not.mpr hlvm)
    cases e.fstype <;> cases e.uuid <;> simp [set_unless_null, hg]
  · rfl

theorem record_standard_shows (hplain : '-' ∉ e.name) (hlen : e.name.length ≠ 3) :
    shows (record_standard_disk_info k e) e := by
  have hgroup : group_of e = e.name.drop 3 := if_neg hplain
  unfold record_standard_disk_info
  rw [if_neg (not_or.mpr ⟨hplain, hlen⟩)]
  refine ⟨?_, fun t ht => ?_, fun _ hnull => ?_⟩
  · simp [hgroup]
  · simp [hgroup, ht]
  · simp [hgroup, hnull]

theorem record_lvm_shows (hlvm : '-' ∈ e.name) : shows (record_lvm_disk_info k e) e := by
  have hgroup : group_of e = e.name := if_pos hlvm
  unfold record_lvm_disk_info
  rw [if_pos hlvm]
  refine ⟨?_, fun t ht => ?_, fun h => absurd hlvm h⟩
  · cases e.fstype <;> cases e.uuid <;> simp [set_unless_null, hgroup]
  · rw [ht]
    cases e.uuid <;> simp [set_unless_null, hgroup]

theorem shows.congr {k' : key_file} (h : shows k e) (hget : ∀ x,
    k'.g_key_file_get_string (group_of e) x = k.g_key_file_get_string (group_of e) x) :
    shows k' e :=
  ⟨(hget _).trans h.name, fun t ht => (hget _).trans (h.fstype t ht),
    fun hplain hnull => (hget _).trans (h.free hplain hnull)⟩

theorem mem_groups_record_standard : g ∈ (record_standard_disk_info k e).groups ↔
    g ∈ k.groups ∨ ('-' ∉ e.name ∧ e.name.length ≠ 3) ∧ g = e.name.drop 3 := by
  unfold record_standard_disk_info
  split_ifs with hskip
  · have hno : ¬ ('-' ∉ e.name ∧ e.name.length ≠ 3) := by tauto
    simp only [hno, false_and, or_false]
  · simp only [mem_groups_set_string, or_assoc, or_self]
    rw [not_or] at hskip
    simp only [hskip, not_false_eq_true, and_self, true_and, ne_eq]

theorem mem_groups_record_lvm : g ∈ (record_lvm_disk_info k e).groups ↔
    g ∈ k.groups ∨ '-' ∈ e.name ∧ g = e.name := by
  have hset : ∀ (k : key_file) (v : Option chars) (key : chars), e.name ∈ k.groups →
      (g ∈ (set_unless_null k e.name key v).groups ↔ g ∈ k.groups) := by
    intro k v key hin
    cases v with
    | none => exact Iff.rfl
    | some s =>
        rw [set_unless_null, mem_groups_set_string]
        exact ⟨fun h => h.elim id fun h => h ▸ hin, Or.inl⟩
  unfold record_lvm_disk_info
  split_ifs with hlvm
  · have hin : e.name ∈ (k.g_key_file_set_string e.name "name".toList e.name).groups :=
      (mem_groups_set_string _ _ _ _).mpr (Or.inr rfl)
    have hin' : e.name ∈ (set_unless_null (k.g_key_file_set_string e.name "name".toList e.name)
        e.name "fstype".toList e.fstype).groups := by
      cases e.fstype with
      | none => exact hin
      | some t => exact (mem_groups_set_string _ _ _ _).mpr (Or.inr rfl)
    rw [hset _ _ _ hin', hset _ _ _ hin, mem_groups_set_string]
    simp only [hlvm, true_and]
  · simp only [hlvm, false_and, or_false]

/-- What no step of a fold destroys holds after it. -/
theorem foldl_keeps {α β : Type} {step : β → α → β} {P : β → Prop} {l : List α}
    (hkeep : ∀ a ∈ l, ∀ b, P b → P (step b a)) (b : β) (hb : P b) : P (l.foldl step b) := by
  induction l generalizing b with
  | nil => exact hb
  | cons a l ih =>
      exact ih (fun a' ha' => hkeep a' (List.mem_cons_of_mem _ ha')) _
        (hkeep a (List.mem_cons_self ..) b hb)

/-- What one step establishes and no step destroys holds after the fold. -/
theorem foldl_holds {α β : Type} {step : β → α → β} {P : β → Prop} {l : List α} {a : α}
    (ha : a ∈ l) (hset : ∀ b, P (step b a)) (hkeep : ∀ a' ∈ l, ∀ b, P b → P (step b a')) (b : β) :
    P (l.foldl step b) := by
  obtain ⟨l₁, l₂, rfl⟩ := List.append_of_mem ha
  rw [List.foldl_append, List.foldl_cons]
  exact foldl_keeps (fun x hx => hkeep x (List.mem_append_right _ (List.mem_cons_of_mem _ hx))) _
    (hset _)

end Records

/-! ## A listing

What `lsblk` keeps to, and what follows for the groups: no two devices share one. -/

/-- What `lsblk` lists of disk `D`: the disk, its partitions and logical volumes, each device
the same way wherever it is listed. -/
structure lsblk_listing (D : chars) (l : List lsblk_entry) : Prop where
  disk_length : 3 ≤ D.length
  disk_plain : '-' ∉ D
  names : ∀ e ∈ l, e.name = D ∨ partition_of e.name D ∨ '-' ∈ e.name
  consistent : ∀ e ∈ l, ∀ e' ∈ l, e.name = e'.name → e = e'

section Listing

variable {D : chars} {l : List lsblk_entry} {e e' : lsblk_entry}

/-- The number of a partition, with its `p`. -/
theorem partition_of_suffix {name : chars} (h : partition_of name D) :
    ∃ rest, name = D ++ rest ∧ rest ≠ [] ∧ '-' ∉ rest ∧ ∃ c ∈ rest, c.isDigit = true := by
  obtain ⟨n, ⟨hne, hdigits⟩, rfl | rfl⟩ := h
  · obtain ⟨c, hc⟩ := List.exists_mem_of_ne_nil n hne
    exact ⟨n, rfl, hne, fun hdash => absurd (hdigits _ hdash) (by decide), c, hc, hdigits c hc⟩
  · obtain ⟨c, hc⟩ := List.exists_mem_of_ne_nil n hne
    refine ⟨'p' :: n, rfl, by simp, fun hdash => ?_, c, List.mem_cons_of_mem _ hc, hdigits c hc⟩
    rcases List.mem_cons.mp hdash with h | h
    · exact absurd h (by decide)
    · exact absurd (hdigits _ h) (by decide)

/-- What has no dash in its name starts with the name of the disk. -/
theorem lsblk_listing.starts_with (hl : lsblk_listing D l) (he : e ∈ l) (hplain : '-' ∉ e.name) :
    D <+: e.name := by
  rcases hl.names e he with h | h | h
  · rw [h]
  · obtain ⟨rest, hrest, -⟩ := partition_of_suffix h
    rw [hrest]
    exact List.prefix_append _ _
  · exact absurd h hplain

/-- **The group tells the device.** A partition's group is its name without three characters that
all names of the listing share, a logical volume's is its name, and one of the two has a `-`. -/
theorem lsblk_listing.group_inj (hl : lsblk_listing D l) (he : e ∈ l) (he' : e' ∈ l)
    (h : group_of e = group_of e') : e = e' := by
  refine hl.consistent e he e' he' ?_
  unfold group_of at h
  split_ifs at h with h₁ h₂ h₂
  · exact h
  · exact absurd (List.mem_of_mem_drop (h ▸ h₁)) h₂
  · exact absurd (List.mem_of_mem_drop (h.symm ▸ h₂)) h₁
  · -- both names begin with the three characters of the disk
    obtain ⟨r, hr⟩ := hl.starts_with he h₁
    obtain ⟨r', hr'⟩ := hl.starts_with he' h₂
    have htake : e.name.take 3 = e'.name.take 3 := by
      rw [← hr, ← hr', List.take_append_of_le_length hl.disk_length,
        List.take_append_of_le_length hl.disk_length]
    rw [← List.take_append_drop 3 e.name, ← List.take_append_drop 3 e'.name, htake, h]

theorem lsblk_listing.keep_standard (hl : lsblk_listing D l) (he : e ∈ l) (hplain : '-' ∉ e.name)
    (hlen : e.name.length ≠ 3) :
    ∀ e' ∈ l, ∀ k, shows k e → shows (record_standard_disk_info k e') e := by
  intro e' he' k hk
  by_cases hstd : '-' ∉ e'.name ∧ e'.name.length ≠ 3
  · by_cases hgroup : group_of e = e'.name.drop 3
    · obtain rfl := hl.group_inj he he' (hgroup.trans (if_neg hstd.1).symm)
      exact record_standard_shows hplain hlen
    · exact hk.congr fun x => record_standard_get (Or.inl hgroup)
  · exact hk.congr fun x => record_standard_get (Or.inr (by tauto))

theorem lsblk_listing.keep_lvm (hl : lsblk_listing D l) (he : e ∈ l) :
    ∀ e' ∈ l, ∀ k, shows k e → shows (record_lvm_disk_info k e') e := by
  intro e' he' k hk
  by_cases hlvm : '-' ∈ e'.name
  · by_cases hgroup : group_of e = e'.name
    · obtain rfl := hl.group_inj he he' (hgroup.trans (if_pos hlvm).symm)
      exact record_lvm_shows hlvm
    · exact hk.congr fun x => record_lvm_get (Or.inl hgroup)
  · exact hk.congr fun x => record_lvm_get (Or.inr hlvm)

/-- **The file that is written says of each recorded device what was listed.** Later entries write
to other groups (`group_inj`), and the sentinel writes to `end` alone. -/
theorem json_parse_array_shows (hl : lsblk_listing D l) (he : e ∈ l) (hrec : recorded e)
    (hend : group_of e ≠ "end".toList) : shows (json_parse_array l) e := by
  unfold json_parse_array
  by_cases hlvm : '-' ∈ e.name
  · exact foldl_holds (P := (shows · e)) he (fun k => record_lvm_shows hlvm) (hl.keep_lvm he) _
  · have hlen := hrec.resolve_left hlvm
    have hstd := foldl_holds (P := (shows · e)) he (fun k => record_standard_shows hlvm hlen)
      (hl.keep_standard he hlvm hlen) g_key_file_new
    -- neither the group `end` nor a logical volume comes in between
    have hmid : shows (((l.foldl record_standard_disk_info
      g_key_file_new).g_key_file_set_string "end".toList "name".toList
      "lvm".toList).g_key_file_set_string "end".toList "fstype".toList "lvm".toList) e :=
      hstd.congr fun x => by rw [get_set_string, get_set_string, if_neg (by tauto), if_neg (by tauto)]
    exact foldl_keeps (P := (shows · e)) (hl.keep_lvm he) _ hmid

theorem mem_groups_foldl {f : key_file → lsblk_entry → key_file}
    {P : lsblk_entry → chars → Prop} (hstep : ∀ k e g, g ∈ (f k e).groups ↔ g ∈ k.groups ∨ P e g)
    (l : List lsblk_entry) (k : key_file) (g : chars) :
    g ∈ (l.foldl f k).groups ↔ g ∈ k.groups ∨ ∃ e ∈ l, P e g := by
  induction l generalizing k with
  | nil => simp
  | cons e l ih =>
      rw [List.foldl_cons, ih, hstep, or_assoc]
      simp only [List.mem_cons, exists_eq_or_imp]

/-- **Its groups are those of the recorded devices, and `end`.** A group is made when something is
first set in it, and each recorded entry sets something in its own. -/
theorem mem_groups_json_parse_array (l : List lsblk_entry) (g : chars) :
    g ∈ (json_parse_array l).groups ↔
      g = "end".toList ∨ ∃ e ∈ l, recorded e ∧ g = group_of e := by
  unfold json_parse_array
  dsimp only
  rw [mem_groups_foldl (f := record_lvm_disk_info) fun k e g => mem_groups_record_lvm,
    mem_groups_set_string, mem_groups_set_string,
    mem_groups_foldl (f := record_standard_disk_info) fun k e g => mem_groups_record_standard]
  constructor
  · rintro ((((h | ⟨e, he, ⟨hplain, hlen⟩, rfl⟩) | h) | h) | ⟨e, he, hlvm, rfl⟩)
    · cases h
    · exact Or.inr ⟨e, he, Or.inr hlen, (if_neg hplain).symm⟩
    · exact Or.inl h
    · exact Or.inl h
    · exact Or.inr ⟨e, he, Or.inl hlvm, (if_pos hlvm).symm⟩
  · rintro (h | ⟨e, he, hrec, rfl⟩)
    · exact Or.inl (Or.inr h)
    · by_cases hlvm : '-' ∈ e.name
      · exact Or.inr ⟨e, he, hlvm, if_pos hlvm⟩
      · exact Or.inl (Or.inl (Or.inl (Or.inr ⟨e, he, ⟨hlvm, hrec.resolve_left hlvm⟩,
          if_neg hlvm⟩)))

/-- The group `end` holds no file system that is backed up. -/
theorem json_parse_array_end (l : List lsblk_entry) :
    (json_parse_array l).g_key_file_get_string "end".toList "fstype".toList
      = some "lvm".toList := by
  unfold json_parse_array
  dsimp only
  refine foldl_keeps (P := fun k : key_file =>
    k.g_key_file_get_string "end".toList "fstype".toList = some "lvm".toList) ?_ _ ?_
  · intro e _ k hk
    by_cases hlvm : '-' ∈ e.name
    · refine (record_lvm_get (Or.inl fun hend => ?_)).trans hk
      rw [← hend] at hlvm
      exact absurd hlvm (by decide)
    · exact (record_lvm_get (Or.inr hlvm)).trans hk
  · rw [get_set_string, if_pos ⟨rfl, rfl⟩]

/-- A partition or a logical volume is not recorded as `end`. -/
theorem group_of_ne_end (hname : partition_of e.name D ∨ '-' ∈ e.name) (hD : 3 ≤ D.length) :
    group_of e ≠ "end".toList := by
  intro hend
  unfold group_of at hend
  split_ifs at hend with hlvm
  · rw [hend] at hlvm
    exact absurd hlvm (by decide)
  · obtain ⟨rest, hrest, -, -, c, hc, hdigit⟩ := partition_of_suffix (hname.resolve_right hlvm)
    have hin : c ∈ "end".toList := by
      rw [← hend, hrest, List.drop_append_of_le_length hD]
      exact List.mem_append_right _ hc
    simp only [String.reduceToList, List.mem_cons, List.not_mem_nil, or_false] at hin
    rcases hin with rfl | rfl | rfl <;> exact absurd hdigit (by decide)

/-- It is recorded. -/
theorem recorded_of_name (hname : partition_of e.name D ∨ '-' ∈ e.name) (hD : 3 ≤ D.length) :
    recorded e := by
  rcases hname with h | h
  · obtain ⟨rest, hrest, hne, -⟩ := partition_of_suffix h
    refine Or.inr ?_
    have := List.length_pos_of_ne_nil hne
    rw [hrest, List.length_append]
    omega
  · exact Or.inl h

end Listing

/-! ## What is restored

`sysbak_admin_restore_async` looks at the image and at the device first, so that a group may
send no request. What is counted below is what was sent. -/

/-- The request for a restore that a group leads to, if the checks in front of it pass. -/
def restore_of (k : key_file) (source target group : chars) : Option request :=
  let fs_type := k.g_key_file_get_string group "fstype".toList
  if group = "end".toList ∨ fs_type = some "LVM2_member".toList ∨ fs_type = some "free".toList then
    none
  else
    some (.sysbak_restore (image_file source (k.g_key_file_get_string group "name".toList))
      (if is_lvm group then "/dev/mapper/".toList ++ group else target ++ group) true)

def is_restore : request → Bool
  | .sysbak_restore _ _ _ => true
  | _ => false

/-- The restores among the requests of a session. -/
def restores_sent (c : Session) : List request := c.sent.filter is_restore

/-- The checks of `sysbak_admin_restore_async`: the image is there, and its target is a device
that is not mounted. -/
def allowed (m : Machine) : request → Bool
  | .sysbak_restore source target _ => check_file_device m source &&
      (extfs_is_lvm target || check_file_device m target) && !check_device_mount m target
  | _ => true

/-- What is sent of the wanted requests: in their order, and those for certain that pass the
checks at any moment. -/
structure sent_of (env : Env) (wanted sent : List request) : Prop where
  part : sent.Sublist wanted
  all : ∀ p : request → Bool, (∀ r ∈ wanted, p r = true → ∀ before, allowed (env before) r = true) →
    sent.filter p = wanted.filter p

section Restores

variable {env : Env} {k : key_file} {source target : chars}

@[simp] theorem restores_sent_send (c : Session) (r : request) :
    restores_sent (send c r) = restores_sent c ++ [r].filter is_restore := by
  rw [restores_sent, send_sent, List.filter_append]
  rfl

@[simp] theorem restores_sent_emit (c : Session) (message : chars) :
    restores_sent (emit_sysbak_error c message) = restores_sent c := rfl

/-- **It is sent exactly if the checks pass.** -/
theorem sysbak_admin_restore_async_restores (c : Session) (source target : chars)
    (overwrite : Bool) :
    restores_sent (sysbak_admin_restore_async env c source target overwrite).2
      = restores_sent c ++
        [.sysbak_restore source target overwrite].filter (allowed (env c.sent)) := by
  unfold sysbak_admin_restore_async
  split_ifs with hsource htarget hmount
  · simp_all [allowed]
  · simp_all [allowed]
  · simp_all [allowed]
  · have hallowed : allowed (env c.sent) (.sysbak_restore source target overwrite) = true := by
      cases hdevice : extfs_is_lvm target <;> simp_all [allowed]
    rw [restores_sent_send, List.filter_cons_of_pos hallowed, List.filter_cons_of_pos rfl]
    rfl

theorem activation_lvm_pv_restores {c c' : Session} {dir_path : chars}
    (h : activation_lvm_pv env c dir_path = some c') : restores_sent c' = restores_sent c := by
  obtain ⟨names, -, rfl⟩ := Option.map_eq_some_iff.mp h
  clear h
  induction names generalizing c with
  | nil => rfl
  | cons fn names ih =>
      refine ih.trans ?_
      unfold activate_file restart_lvm_vg set_disk_lvm_metadata
      split_ifs <;> simp [is_restore]

theorem create_lvm_pv_restores (c : Session) (source target uuid : chars) :
    restores_sent (create_lvm_pv env c source target uuid).2 = restores_sent c := by
  unfold create_lvm_pv
  split_ifs <;> simp [is_restore]

theorem restore_lvm_pv_restores (c : Session) (dir_path dev_name : chars) (uuid : Option chars) :
    restores_sent (restore_lvm_pv env c dir_path dev_name uuid).2 = restores_sent c := by
  have hloop : ∀ (uuid : chars) (names : List chars) (c : Session),
      restores_sent (restore_lvm_pv_loop env dir_path dev_name uuid names c).2
        = restores_sent c := by
    intro uuid names c
    induction names generalizing c with
    | nil => rfl
    | cons fn names ih =>
        have hsearch : restores_sent (send c (.search_file_data
            (g_build_filename dir_path fn) uuid)) = restores_sent c := by
          simp [is_restore]
        unfold restore_lvm_pv_loop
        dsimp only
        split_ifs
        · rw [create_lvm_pv_restores, hsearch]
        · rw [ih, hsearch]
        · exact ih c
  unfold restore_lvm_pv
  split
  · exact hloop _ _ c
  · rfl

/-- **One group** sends the request that it leads to, or none. -/
theorem restore_group_restores {c c' : Session} {group : chars}
    (h : restore_group env k source target c group = some c') :
    restores_sent c' = restores_sent c ++
      (restore_of k source target group).toList.filter (allowed (env c.sent)) := by
  unfold restore_group at h
  unfold restore_of
  dsimp only at h ⊢
  by_cases hend : group = "end".toList
  · rw [if_pos hend] at h
    rw [if_pos (Or.inl hend), activation_lvm_pv_restores h]
    exact (List.append_nil _).symm
  · rw [if_neg hend] at h
    by_cases hpv : k.g_key_file_get_string group "fstype".toList = some "LVM2_member".toList
    · rw [if_pos hpv] at h
      rw [if_pos (Or.inr (Or.inl hpv)), ← Option.some.inj h, restore_lvm_pv_restores]
      exact (List.append_nil _).symm
    · rw [if_neg hpv] at h
      by_cases hfree : k.g_key_file_get_string group "fstype".toList = some "free".toList
      · rw [if_pos hfree] at h
        rw [if_pos (Or.inr (Or.inr hfree)), ← Option.some.inj h]
        exact (List.append_nil _).symm
      · rw [if_neg hfree] at h
        rw [if_neg (by tauto), ← Option.some.inj h]
        exact sysbak_admin_restore_async_restores ..

/-- One more wanted request, sent if it passes the checks at its moment. -/
theorem sent_of.cons {wanted sent : List request} (h : sent_of env wanted sent)
    (r : Option request) (before : List request) :
    sent_of env (r.toList ++ wanted) (r.toList.filter (allowed (env before)) ++ sent) := by
  refine ⟨List.Sublist.append List.filter_sublist h.part, fun p hp => ?_⟩
  rw [List.filter_append, List.filter_append,
    h.all p fun r' hr' => hp r' (List.mem_append_right _ hr'), List.filter_filter]
  congr 1
  refine List.filter_congr fun r' hr' => ?_
  cases hpr : p r' with
  | false => rfl
  | true => rw [hp r' (List.mem_append_left _ hr') hpr before, Bool.and_self]

/-- **A directory that can be read is gone through to its end.** The request of one group does not
depend on those before it except through the machine, which is asked again before each
(`allowed`), so the requests of the groups follow one another. -/
theorem restore_groups_restores (k : key_file) (target : chars)
    (hdir : ∀ sent, (env sent).g_dir_open source ≠ none) (groups : List chars) (c : Session) :
    ∃ sent, restores_sent (restore_groups env k source target groups c)
        = restores_sent c ++ sent ∧
      sent_of env (groups.filterMap (restore_of k source target)) sent := by
  induction groups generalizing c with
  | nil => exact ⟨[], (List.append_nil _).symm, .refl _, fun _ _ => rfl⟩
  | cons group groups ih =>
      have hsome : ∃ c', restore_group env k source target c group = some c' := by
        unfold restore_group activation_lvm_pv
        dsimp only
        obtain ⟨names, hnames⟩ := Option.ne_none_iff_exists'.mp (hdir c.sent)
        rw [hnames]
        split_ifs <;> exact ⟨_, rfl⟩
      obtain ⟨c', hc'⟩ := hsome
      obtain ⟨sent, hrun, hsent⟩ := ih c'
      rw [restore_groups, hc']
      refine ⟨(restore_of k source target group).toList.filter (allowed (env c.sent)) ++ sent,
        hrun.trans ?_, ?_⟩
      · rw [restore_group_restores hc', List.append_assoc]
      · have hcons := hsent.cons (restore_of k source target group) c.sent
        rw [List.filterMap_cons]
        cases hr : restore_of k source target group with
        | none => rwa [hr] at hcons
        | some r => rwa [hr] at hcons

end Restores

/-! ## Which image belongs to which device

The requests of a restore are compared with the listing. Both go through `restore_of`, which is
what a group leads to. -/

/-- The type of file system is one that is backed up. -/
def supported (e : lsblk_entry) : Prop := ∃ t ∈ array_data, e.fstype = some t.1

/-- A backup to this image or of this device. -/
def backs_up (image device : chars) : backup_event → Bool
  | .backup _ source target => decide (target = image ∨ source = device)
  | .unsupported => false

/-- A request to restore this image or to this device. -/
def restores_to (image device : chars) : request → Bool
  | .sysbak_restore source target _ => decide (source = image ∨ target = device)
  | _ => false

/-- Each partition that was backed up is restored once, from its own image to itself, and
nothing is restored for a disk without a file system: of the backups that are started, and
the requests that are sent to the daemon. -/
structure images_agree (D dir_name : chars) (l : List lsblk_entry) (events : List backup_event)
    (requests : List request) : Prop where
  backed_up : ∀ e ∈ l, e.name ≠ D → ∀ t ∈ array_data, e.fstype = some t.1 →
    events.filter (backs_up (image_path dir_name e.name) (get_dev_path e.name))
      = [.backup t.2 (get_dev_path e.name) (image_path dir_name e.name)]
  restored : ∀ e ∈ l, e.name ≠ D → supported e →
    requests.filter (restores_to (image_path dir_name e.name) (get_dev_path e.name))
      = [.sysbak_restore (image_path dir_name e.name) (get_dev_path e.name) true]
  disk : ∀ e ∈ l, e.name = D → e.fstype = none →
    requests.filter (restores_to (image_path dir_name e.name) (get_dev_path e.name)) = []

/-- The directory of the backup can be read, and holds the file that was written and every
image for which a backup was started. -/
structure holds_backup (env : Env) (dir_name : chars) (l : List lsblk_entry) : Prop where
  disk_info : (env []).f_ok (disk_info_path dir_name) = true
  saved : (env []).g_key_file_load_from_file (disk_info_path dir_name) = .ok (json_parse_array l)
  readable : ∀ sent, (env sent).g_dir_open dir_name ≠ none
  images : ∀ type source target,
    .backup type source target ∈ sysbak_admin_disk_data (json_parse_array l) dir_name →
      ∀ sent, (env sent).f_ok target = true

/-- No device that is to be restored is mounted, which `sysbak_admin_restore_async` refuses. A
restore refuses a mounted device whatever the listing says, so nothing could be asked of it there.
-/
def none_mounted (env : Env) (l : List lsblk_entry) : Prop :=
  ∀ e ∈ l, supported e → ∀ sent, check_device_mount (env sent) (get_dev_path e.name) = false

/-- The device that the restore takes a partition for. -/
def restore_device (D : chars) (e : lsblk_entry) : chars :=
  if '-' ∈ e.name then "/dev/mapper/".toList ++ e.name else "/dev/".toList ++ D ++ e.name.drop 3

/-- What all but one member of a list leave out is what this one gives. -/
theorem filter_flatMap_of_nodup {α β : Type} {f : α → List β} {p : β → Bool} {l : List α} {a : α}
    (hnodup : l.Nodup) (ha : a ∈ l) (h : ∀ b ∈ l, b ≠ a → (f b).filter p = []) :
    (l.flatMap f).filter p = (f a).filter p := by
  obtain ⟨l₁, l₂, rfl⟩ := List.append_of_mem ha
  have hnone : ∀ m : List α, m ⊆ l₁ ++ a :: l₂ → a ∉ m → (m.flatMap f).filter p = [] := by
    intro m hm ham
    rw [List.filter_flatMap, List.flatMap_eq_nil_iff]
    exact fun b hb => h b (hm hb) fun hba => ham (hba ▸ hb)
  obtain ⟨-, hcons, hdisjoint⟩ := List.nodup_append.mp hnodup
  rw [List.flatMap_append, List.flatMap_cons, List.filter_append, List.filter_append,
    hnone l₁ (List.subset_append_left ..) fun h₁ => hdisjoint a h₁ a (List.mem_cons_self ..) rfl,
    hnone l₂ (List.subset_append_of_subset_right _ (List.subset_cons_self ..))
      (List.nodup_cons.mp hcons).1, List.nil_append, List.append_nil]

section Agreement

variable {D dir_name : chars} {l : List lsblk_entry} {e e' : lsblk_entry}

theorem image_path_inj {a b : chars} (h : image_path dir_name a = image_path dir_name b) : a = b := by
  have h' := List.append_cancel_left (List.append_cancel_right h)
  exact List.tail_eq_of_cons_eq h'

/-- The directory of the logical volumes has a dash in none of its own parts. -/
theorem mapper_ne {a b : chars} (ha : '-' ∈ a) (hb : '-' ∉ b) :
    "/dev/mapper/".toList ++ a ≠ "/dev/".toList ++ b := by
  intro h
  have hin : '-' ∈ "/dev/".toList ++ b := h ▸ List.mem_append_right _ ha
  rcases List.mem_append.mp hin with h' | h'
  · exact absurd h' (by decide)
  · exact hb h'

theorem get_dev_path_inj {a b : chars} (h : get_dev_path a = get_dev_path b) : a = b := by
  unfold get_dev_path at h
  split_ifs at h with ha hb hb
  · exact List.append_cancel_left h
  · exact absurd h (mapper_ne ha hb)
  · exact absurd h.symm (mapper_ne hb ha)
  · exact List.append_cancel_left h

/-- **The restore takes it for what it is** if the name of the disk has three characters. Only
then is the name of the disk what has been cut off the partition's name, so that putting it in
front again gives the name back. -/
theorem restore_device_eq (hl : lsblk_listing D l) (he : e ∈ l) (h : '-' ∈ e.name ∨ D.length = 3) :
    restore_device D e = get_dev_path e.name := by
  unfold restore_device get_dev_path
  split_ifs with hlvm
  · rfl
  · obtain ⟨rest, hrest⟩ := hl.starts_with he hlvm
    have hD := h.resolve_left hlvm
    rw [← hrest, ← hD, List.drop_left, List.append_assoc]

/-- A partition of a disk with a longer name, it takes for none that there is. -/
theorem restore_device_ne (hl : lsblk_listing D l) (he : e ∈ l) (hplain : '-' ∉ e.name)
    (hD : D.length ≠ 3) : restore_device D e ≠ get_dev_path e.name := by
  unfold restore_device get_dev_path
  rw [if_neg hplain, if_neg hplain]
  obtain ⟨rest, hrest⟩ := hl.starts_with he hplain
  intro h
  have hlength := congrArg List.length h
  have hD' := hl.disk_length
  rw [← hrest] at hlength
  simp only [List.length_append, List.length_drop] at hlength
  omega

/-- No other device is taken for one that is taken for what it is. -/
theorem restore_device_inj (hl : lsblk_listing D l) (he : e ∈ l) (he' : e' ∈ l)
    (hagree : '-' ∈ e.name ∨ D.length = 3) (h : restore_device D e' = get_dev_path e.name) :
    e' = e := by
  by_cases hboth : '-' ∈ e'.name ∨ D.length = 3
  · rw [restore_device_eq hl he' hboth] at h
    exact hl.consistent e' he' e he (get_dev_path_inj h)
  · rw [not_or] at hboth
    have hlvm := hagree.resolve_right hboth.2
    unfold restore_device get_dev_path at h
    rw [if_neg hboth.1, if_pos hlvm, List.append_assoc] at h
    refine absurd h.symm (mapper_ne hlvm fun hin => ?_)
    rcases List.mem_append.mp hin with hin | hin
    · exact hl.disk_plain hin
    · exact hboth.1 (List.mem_of_mem_drop hin)

theorem group_of_is_lvm (e : lsblk_entry) : is_lvm (group_of e) = decide ('-' ∈ e.name) := by
  unfold is_lvm group_of
  split_ifs with hlvm
  · rfl
  · rw [decide_eq_false hlvm, decide_eq_false fun h => hlvm (List.mem_of_mem_drop h)]

/-- What a recorded device is restored from, and to. -/
theorem restore_of_group (hl : lsblk_listing D l) (he : e ∈ l) (hrec : recorded e)
    (hend : group_of e ≠ "end".toList) :
    restore_of (json_parse_array l) dir_name ("/dev/".toList ++ D) (group_of e)
      = if (json_parse_array l).g_key_file_get_string (group_of e) "fstype".toList
            = some "LVM2_member".toList ∨
          (json_parse_array l).g_key_file_get_string (group_of e) "fstype".toList
            = some "free".toList then none
        else some (.sysbak_restore (image_path dir_name e.name) (restore_device D e) true) := by
  have hshows := json_parse_array_shows hl he hrec hend
  have hdevice : (if is_lvm (group_of e) then "/dev/mapper/".toList ++ group_of e
      else "/dev/".toList ++ D ++ group_of e) = restore_device D e := by
    rw [group_of_is_lvm]
    unfold group_of restore_device
    by_cases hlvm : '-' ∈ e.name
    · simp only [hlvm, decide_true, if_true]
    · simp only [hlvm, decide_false, Bool.false_eq_true, if_false]
  unfold restore_of
  dsimp only
  rw [hshows.name, hdevice]
  simp only [hend, false_or]
  rfl

/-- A device without a file system is not restored. -/
theorem restore_of_free (hl : lsblk_listing D l) (he : e ∈ l) (hrec : recorded e)
    (hplain : '-' ∉ e.name) (hnull : e.fstype = none) :
    restore_of (json_parse_array l) dir_name ("/dev/".toList ++ D) (group_of e) = none := by
  by_cases hend : group_of e = "end".toList
  · rw [restore_of, if_pos (Or.inl hend)]
  · rw [restore_of_group hl he hrec hend,
      if_pos (Or.inr ((json_parse_array_shows hl he hrec hend).free hplain hnull))]

/-- A device with a supported file system is. -/
theorem restore_of_supported (hl : lsblk_listing D l) (he : e ∈ l) (hrec : recorded e)
    (hend : group_of e ≠ "end".toList) (hfs : supported e) :
    restore_of (json_parse_array l) dir_name ("/dev/".toList ++ D) (group_of e)
      = some (.sysbak_restore (image_path dir_name e.name) (restore_device D e) true) := by
  obtain ⟨t, ht, hfstype⟩ := hfs
  have hno : ∀ t ∈ array_data, t.1 ≠ "LVM2_member".toList ∧ t.1 ≠ "free".toList := by decide
  rw [restore_of_group hl he hrec hend,
    (json_parse_array_shows hl he hrec hend).fstype _ hfstype, if_neg ?_]
  rw [Option.some.injEq, Option.some.injEq, not_or]
  exact hno t ht

/-- What is restored is restored from the image of a recorded device. -/
theorem restore_of_some (hl : lsblk_listing D l) {g : chars} (hg : g ∈ (json_parse_array l).groups)
    {r : request}
    (h : restore_of (json_parse_array l) dir_name ("/dev/".toList ++ D) g = some r) :
    ∃ e ∈ l, recorded e ∧ g = group_of e ∧
      r = .sysbak_restore (image_path dir_name e.name) (restore_device D e) true := by
  have hend : g ≠ "end".toList := by
    intro hend
    rw [restore_of, if_pos (Or.inl hend)] at h
    cases h
  obtain ⟨e, he, hrec, rfl⟩ := ((mem_groups_json_parse_array l g).mp hg).resolve_left hend
  rw [restore_of_group hl he hrec hend] at h
  split_ifs at h
  exact ⟨e, he, hrec, rfl, (Option.some.inj h).symm⟩

/-- The events of a group are signals, and a backup of the partition that it names. -/
theorem mem_backup_group {k : key_file} {g : chars} {event : backup_event}
    (h : event ∈ backup_group k dir_name g) : event = .unsupported ∨
      ∃ t ∈ array_data, k.g_key_file_get_string g "fstype".toList = some t.1 ∧
        event = .backup t.2 (get_dev_path ((k.g_key_file_get_string g "name".toList).getD []))
          (image_path dir_name ((k.g_key_file_get_string g "name".toList).getD [])) := by
  obtain ⟨t, ht, hevent⟩ := List.mem_flatMap.mp h
  rcases List.mem_append.mp hevent with h' | h'
  · split_ifs at h' with hfs
    · exact Or.inr ⟨t, ht, hfs, List.mem_singleton.mp h'⟩
    · cases h'
  · exact Or.inl (List.mem_singleton.mp h')

/-- **A supported device is backed up once**, to its own image. -/
theorem backup_group_supported {k : key_file} (hshows : shows k e) {t : chars × sysbak_func}
    (ht : t ∈ array_data) (hfs : e.fstype = some t.1) :
    (backup_group k dir_name (group_of e)).filter
        (backs_up (image_path dir_name e.name) (get_dev_path e.name))
      = [.backup t.2 (get_dev_path e.name) (image_path dir_name e.name)] := by
  have hkeys : ∀ a ∈ array_data, ∀ b ∈ array_data, a.1 = b.1 → a = b := by decide
  have hnodup : array_data.Nodup := by decide
  unfold backup_group
  dsimp only
  rw [hshows.name, hshows.fstype _ hfs, filter_flatMap_of_nodup hnodup ht]
  · rw [if_pos rfl]
    simp [backs_up]
  · intro b hb hne
    rw [if_neg fun h => hne (hkeys b hb t ht (Option.some.inj h).symm)]
    rfl

/-- The other groups have no part in it. -/
theorem backup_group_other (hl : lsblk_listing D l) (he : e ∈ l) {g : chars}
    (hg : g ∈ (json_parse_array l).groups) (hne : g ≠ group_of e) :
    (backup_group (json_parse_array l) dir_name g).filter
      (backs_up (image_path dir_name e.name) (get_dev_path e.name)) = [] := by
  rw [List.filter_eq_nil_iff]
  intro event hevent
  rcases mem_backup_group hevent with rfl | ⟨t, ht, hfs, rfl⟩
  · simp [backs_up]
  · by_cases hend : g = "end".toList
    · -- `lvm` is no type of the table
      rw [hend, json_parse_array_end] at hfs
      have hno : ∀ t ∈ array_data, t.1 ≠ "lvm".toList := by decide
      exact absurd (Option.some.inj hfs).symm (hno t ht)
    · obtain ⟨e', he', hrec, rfl⟩ := ((mem_groups_json_parse_array l g).mp hg).resolve_left hend
      rw [(json_parse_array_shows hl he' hrec hend).name]
      have hnames : e'.name ≠ e.name := fun h => hne (by rw [hl.consistent e' he' e he h])
      unfold backs_up
      rw [decide_eq_true_eq, not_or]
      exact ⟨fun h => hnames (image_path_inj h), fun h => hnames (get_dev_path_inj h)⟩

/-- **Every supported device is backed up once.** The dispatch goes through the groups once, the
device has one group, and no other group leads to its image. -/
theorem disk_data_backs_up (hl : lsblk_listing D l) (he : e ∈ l) (hrec : recorded e)
    (hend : group_of e ≠ "end".toList) {t : chars × sysbak_func} (ht : t ∈ array_data)
    (hfs : e.fstype = some t.1) :
    (sysbak_admin_disk_data (json_parse_array l) dir_name).filter
        (backs_up (image_path dir_name e.name) (get_dev_path e.name))
      = [.backup t.2 (get_dev_path e.name) (image_path dir_name e.name)] := by
  have hgroup := (mem_groups_json_parse_array l (group_of e)).mpr (Or.inr ⟨e, he, hrec, rfl⟩)
  unfold sysbak_admin_disk_data
  rw [filter_flatMap_of_nodup (json_parse_array l).nodup hgroup
    fun g hg hne => backup_group_other hl he hg hne]
  exact backup_group_supported (json_parse_array_shows hl he hrec hend) ht hfs

/-- **What a restore sends** is what the groups of the file lead to, as far as it is allowed. What
comes before the groups sends requests of other kinds only. -/
theorem read_cfg_file_restore_restores {env : Env} (h : holds_backup env dir_name l)
    (target : chars) : sent_of env
      ((json_parse_array l).groups.filterMap (restore_of (json_parse_array l) dir_name target))
      (restores_sent (read_cfg_file_restore env .new dir_name target)) := by
  have hnew : Session.new.sent = [] := rfl
  unfold read_cfg_file_restore check_file_device
  rw [hnew, h.disk_info, if_pos rfl, h.saved]
  dsimp only
  obtain ⟨sent, hrun, hsent⟩ := restore_groups_restores (json_parse_array l) target h.readable
    (json_parse_array l).groups .new
  rw [hrun]
  exact hsent

/-- A restore of a device is among the restores. -/
theorem filter_restores_to (c : Session) (image device : chars) :
    c.sent.filter (restores_to image device)
      = (restores_sent c).filter (restores_to image device) := by
  rw [restores_sent, List.filter_filter]
  refine List.filter_congr fun r _ => ?_
  cases r <;> simp [restores_to, is_restore]

/-- A device that the restore takes for what it is gets what its group leads to, and nothing else. -/
theorem restored_from_group (hl : lsblk_listing D l) (he : e ∈ l) (hrec : recorded e)
    (hagree : '-' ∈ e.name ∨ D.length = 3) :
    ((json_parse_array l).groups.filterMap
        (restore_of (json_parse_array l) dir_name ("/dev/".toList ++ D))).filter
        (restores_to (image_path dir_name e.name) (get_dev_path e.name))
      = ((restore_of (json_parse_array l) dir_name ("/dev/".toList ++ D) (group_of e)).toList).filter
          (restores_to (image_path dir_name e.name) (get_dev_path e.name)) := by
  have hgroup := (mem_groups_json_parse_array l (group_of e)).mpr (Or.inr ⟨e, he, hrec, rfl⟩)
  rw [List.filterMap_eq_flatMap_toList,
    filter_flatMap_of_nodup (json_parse_array l).nodup hgroup]
  intro g hg hne
  rw [List.filter_eq_nil_iff]
  intro r hr
  obtain ⟨e', he', -, rfl, rfl⟩ := restore_of_some hl hg (Option.mem_toList.mp hr)
  have hother : e' ≠ e := fun h => hne (h ▸ rfl)
  simp only [restores_to, decide_eq_true_eq, not_or]
  exact ⟨fun h => hother (hl.consistent e' he' e he (image_path_inj h)),
    fun h => hother (restore_device_inj hl he he' hagree h)⟩

/-- For a disk without a file system there is no restore, whatever its name. -/
theorem disk_not_restored (hl : lsblk_listing D l) (he : e ∈ l) (hname : e.name = D)
    (hnull : e.fstype = none) :
    ((json_parse_array l).groups.filterMap
        (restore_of (json_parse_array l) dir_name ("/dev/".toList ++ D))).filter
        (restores_to (image_path dir_name e.name) (get_dev_path e.name)) = [] := by
  have hplain : '-' ∉ e.name := hname ▸ hl.disk_plain
  rw [List.filter_eq_nil_iff]
  intro r hr
  obtain ⟨g, hg, hrestore⟩ := List.mem_filterMap.mp hr
  obtain ⟨e', he', hrec', rfl, rfl⟩ := restore_of_some hl hg hrestore
  have hother : e' ≠ e := by
    rintro rfl
    rw [restore_of_free hl he' hrec' hplain hnull] at hrestore
    cases hrestore
  simp only [restores_to, decide_eq_true_eq, not_or]
  refine ⟨fun h => hother (hl.consistent e' he' e he (image_path_inj h)), fun h => ?_⟩
  -- a device that is taken for the disk would have no part of a name behind the disk's
  unfold restore_device get_dev_path at h
  rw [if_neg hplain] at h
  split_ifs at h with hlvm
  · exact mapper_ne hlvm hplain h
  · have hrest : e'.name.drop 3 = [] := by
      rw [hname, List.append_assoc] at h
      have := congrArg List.length (List.append_cancel_left h)
      rw [List.length_append] at this
      exact List.eq_nil_of_length_eq_zero (by omega)
    have hshort := List.drop_eq_nil_iff.mp hrest
    have hprefix := (hl.starts_with he' hlvm).length_le
    have := hl.disk_length
    exact hrec'.resolve_left hlvm (by omega)

/-- A device restored under its own name is one that the checks let through. -/
theorem allowed_restore {env : Env} (hl : lsblk_listing D l) (hbackup : holds_backup env dir_name l)
    (hmount : none_mounted env l) (he : e ∈ l) (hrec : recorded e)
    (hend : group_of e ≠ "end".toList) (hfs : supported e) (before : List request) :
    allowed (env before)
      (.sysbak_restore (image_path dir_name e.name) (get_dev_path e.name) true) = true := by
  have hunmounted := hmount e he hfs before
  obtain ⟨t, ht, hfstype⟩ := hfs
  have hstarted : .backup t.2 (get_dev_path e.name) (image_path dir_name e.name) ∈
      sysbak_admin_disk_data (json_parse_array l) dir_name := by
    have hone : (sysbak_admin_disk_data (json_parse_array l) dir_name).filter
        (backs_up (image_path dir_name e.name) (get_dev_path e.name))
        = [.backup t.2 (get_dev_path e.name) (image_path dir_name e.name)] :=
      disk_data_backs_up hl he hrec hend ht hfstype
    exact List.mem_of_mem_filter (hone ▸ List.mem_singleton.mpr rfl)
  -- with two separators at least, the device itself is not looked for
  have hdevice : extfs_is_lvm (get_dev_path e.name) = true := by
    unfold extfs_is_lvm get_dev_path
    split_ifs <;> simp only [List.count_append, decide_eq_true_eq, ne_eq]
    · have : "/dev/mapper/".toList.count '/' = 3 := by decide
      omega
    · have : "/dev/".toList.count '/' = 2 := by decide
      omega
  have himage := hbackup.images _ _ _ hstarted before
  simp only [allowed, check_file_device, himage, hdevice, hunmounted, Bool.true_or, Bool.true_and,
    Bool.not_false]

end Agreement

/-- **Backup and restore agree on the images exactly when the name of the disk has three
characters, or when no partition but logical volumes has a file system that is backed up.** A
longer name leaves a part of itself in the group, and the restore, which puts the group behind the
whole name, asks for a device that is not there. The converse is by a partition that is backed up
from a disk with a longer name: what the restore asks for is a device of another name. -/
theorem images_agree_iff {D dir_name : chars} {l : List lsblk_entry} {env : Env}
    (hl : lsblk_listing D l) (hbackup : holds_backup env dir_name l)
    (hmount : none_mounted env l) :
    images_agree D dir_name l (sysbak_admin_disk_data (json_parse_array l) dir_name)
        (read_cfg_file_restore env .new dir_name ("/dev/".toList ++ D)).sent ↔
      D.length = 3 ∨ ∀ e ∈ l, '-' ∉ e.name → e.name ≠ D → ¬ supported e := by
  have hsent := read_cfg_file_restore_restores hbackup ("/dev/".toList ++ D)
  have hname : ∀ e ∈ l, e.name ≠ D → partition_of e.name D ∨ '-' ∈ e.name :=
    fun e he hne => (hl.names e he).resolve_left hne
  constructor
  · intro h
    by_contra hno
    simp only [not_or, not_forall, not_not] at hno
    obtain ⟨hD, e, he, hplain, hne, hfs⟩ := hno
    -- the request that is promised comes from a group, and so from this device's
    have hrestored := h.restored e he hne hfs
    rw [filter_restores_to] at hrestored
    have hin := hsent.part.subset
      (List.mem_of_mem_filter (hrestored ▸ List.mem_singleton.mpr rfl))
    obtain ⟨g, hg, hof⟩ := List.mem_filterMap.mp hin
    obtain ⟨e', he', -, -, hrequest⟩ := restore_of_some hl hg hof
    obtain ⟨himage, hdevice, -⟩ := request.sysbak_restore.inj hrequest
    obtain rfl := hl.consistent e he e' he' (image_path_inj himage)
    exact restore_device_ne hl he hplain hD hdevice.symm
  · intro h
    refine ⟨fun e he hne t ht hfs => ?_, fun e he hne hfs => ?_, fun e he hdisk hnull => ?_⟩
    · exact disk_data_backs_up hl he (recorded_of_name (hname e he hne) hl.disk_length)
        (group_of_ne_end (hname e he hne) hl.disk_length) ht hfs
    · have hagree : '-' ∈ e.name ∨ D.length = 3 := by
        rcases h with h | h
        · exact Or.inr h
        · by_contra hno
          exact h e he (not_or.mp hno).1 hne hfs
      have hrec := recorded_of_name (hname e he hne) hl.disk_length
      have hend := group_of_ne_end (hname e he hne) hl.disk_length
      have hwanted : ((json_parse_array l).groups.filterMap
          (restore_of (json_parse_array l) dir_name ("/dev/".toList ++ D))).filter
          (restores_to (image_path dir_name e.name) (get_dev_path e.name))
          = [.sysbak_restore (image_path dir_name e.name) (get_dev_path e.name) true] := by
        rw [restored_from_group hl he hrec hagree, restore_of_supported hl he hrec hend hfs,
          restore_device_eq hl he hagree]
        simp [restores_to]
      rw [filter_restores_to, hsent.all _ fun r hr hto before => ?_, hwanted]
      obtain rfl := List.mem_singleton.mp (hwanted ▸ List.mem_filter.mpr ⟨hr, hto⟩)
      exact allowed_restore hl hbackup hmount he hrec hend hfs before
    · rw [filter_restores_to, ← List.sublist_nil, ← disk_not_restored hl he hdisk hnull]
      exact hsent.part.filter _

/-- A machine with a backup of these devices, and another disk in use. -/
def backed_up_machine (l : List lsblk_entry) : Machine where
  f_ok _ := true
  r_ok _ := true
  realpath path := some path
  mtab := some ["/dev/sdz1".toList]
  g_dir_open _ := some []
  g_key_file_load_from_file _ := .ok (json_parse_array l)
  answers _ := true
  size _ := some 0

theorem backed_up_machine_holds (l : List lsblk_entry) (dir_name : chars) :
    holds_backup (fun _ => backed_up_machine l) dir_name l :=
  ⟨rfl, rfl, fun _ => by simp [backed_up_machine], fun _ _ _ _ _ => rfl⟩

/-- A disk with a partition and a volume group. -/
def sda_listing : List lsblk_entry :=
  [⟨"sda".toList, none, none⟩, ⟨"sda1".toList, some "ext4".toList, some "u1".toList⟩,
    ⟨"sda2".toList, some "LVM2_member".toList, some "u2".toList⟩,
    ⟨"vg-root".toList, some "xfs".toList, some "u3".toList⟩]

/-- The images of `sda` come back to where they were taken. -/
theorem sda_images_agree :
    images_agree "sda".toList "/backup".toList sda_listing
      (sysbak_admin_disk_data (json_parse_array sda_listing) "/backup".toList)
      (read_cfg_file_restore (fun _ => backed_up_machine sda_listing) .new "/backup".toList
        ("/dev/".toList ++ "sda".toList)).sent := by
  have hl : lsblk_listing "sda".toList sda_listing := by
    refine ⟨by decide, by decide, ?_, by decide⟩
    intro e he
    simp only [sda_listing, List.mem_cons, List.not_mem_nil, or_false] at he
    rcases he with rfl | rfl | rfl | rfl
    · exact Or.inl rfl
    · exact Or.inr (Or.inl ⟨['1'], ⟨by simp, List.forall_mem_singleton.mpr rfl⟩, Or.inl rfl⟩)
    · exact Or.inr (Or.inl ⟨['2'], ⟨by simp, List.forall_mem_singleton.mpr rfl⟩, Or.inl rfl⟩)
    · exact Or.inr (Or.inr (by decide))
  have hmount : ∀ e ∈ sda_listing, check_device_mount (backed_up_machine sda_listing)
      (get_dev_path e.name) = false := by decide
  exact (images_agree_iff hl (backed_up_machine_holds _ _) fun e he _ _ => hmount e he).mpr
    (Or.inl rfl)

/-- A disk with one partition. -/
def nvme0n1_listing : List lsblk_entry :=
  [⟨"nvme0n1".toList, none, none⟩,
    ⟨"nvme0n1p1".toList, some "ext4".toList, some "u1".toList⟩]

/-- **The image of `nvme0n1p1` is restored to `/dev/nvme0n1e0n1p1`.** -/
theorem nvme0n1_images_disagree :
    (read_cfg_file_restore (fun _ => backed_up_machine nvme0n1_listing) .new "/backup".toList
        ("/dev/".toList ++ "nvme0n1".toList)).sent
      = [.sysbak_restore "/backup/nvme0n1p1.img".toList "/dev/nvme0n1e0n1p1".toList true] ∧
    lsblk_listing "nvme0n1".toList nvme0n1_listing ∧
    holds_backup (fun _ => backed_up_machine nvme0n1_listing) "/backup".toList nvme0n1_listing ∧
    none_mounted (fun _ => backed_up_machine nvme0n1_listing) nvme0n1_listing ∧
    ¬ images_agree "nvme0n1".toList "/backup".toList nvme0n1_listing
      (sysbak_admin_disk_data (json_parse_array nvme0n1_listing) "/backup".toList)
      (read_cfg_file_restore (fun _ => backed_up_machine nvme0n1_listing) .new "/backup".toList
        ("/dev/".toList ++ "nvme0n1".toList)).sent := by
  have hsent : (read_cfg_file_restore (fun _ => backed_up_machine nvme0n1_listing) .new
        "/backup".toList ("/dev/".toList ++ "nvme0n1".toList)).sent
      = [.sysbak_restore "/backup/nvme0n1p1.img".toList "/dev/nvme0n1e0n1p1".toList true] := by
    decide
  have hmount : ∀ e ∈ nvme0n1_listing, check_device_mount (backed_up_machine nvme0n1_listing)
      (get_dev_path e.name) = false := by decide
  refine ⟨hsent, ⟨by decide, by decide, ?_, by decide⟩, backed_up_machine_holds _ _,
    fun e he _ _ => hmount e he, fun h => ?_⟩
  · intro e he
    simp only [nvme0n1_listing, List.mem_cons, List.not_mem_nil, or_false] at he
    rcases he with rfl | rfl
    · exact Or.inl rfl
    · exact Or.inr (Or.inl ⟨['1'], ⟨by simp, List.forall_mem_singleton.mpr rfl⟩, Or.inr rfl⟩)
  · rw [hsent] at h
    have hp1 := h.restored ⟨"nvme0n1p1".toList, some "ext4".toList, some "u1".toList⟩ (by decide)
      (by decide) ⟨("ext4".toList, .sysbak_admin_extfs), by decide, rfl⟩
    exact absurd hp1 (by decide)

end SysbakAdmin.DiskInfo

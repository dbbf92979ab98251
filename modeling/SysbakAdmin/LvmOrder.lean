/-
The order in which a restore builds volume groups up again.

`json_parse_array` puts the partitions before the group `end` and the mapped devices behind
it, and `read_cfg_file_restore` goes through the groups as they come: physical volumes are
created on the partitions, `end` restores the metadata and starts the groups, and the
images of the volumes follow. It is the name of a group that decides, not the device behind
it, so that the order is lost where a name says something else: for a physical volume on a
mapped device, for one behind a partition that is recorded as `end`, and for a target under
`/dev/mapper`.

`lvm_ordered_iff` says of every listing and target whether the order is kept. Both of its
directions go over `group_stage`, what a group can send: on no machine does a group send
anything of another stage, and on a machine where nothing is missing and nothing is mounted
every group sends what it can. So the order is kept on all machines exactly if the stages of
the groups come in their order, and where a group stands in the file can be read off the
listing: `front` are the entries before the first that takes the group `end`.
-/
import Mathlib.Data.List.TakeWhile
import SysbakAdmin.DiskInfo

set_option autoImplicit false

namespace SysbakAdmin.DiskInfo

open KeyFile Client DiskRestore

/-! ## The order -/

def mapper_path : chars := "/dev/mapper/".toList

/-- What has to wait for what: physical volumes, then metadata and activation, then the
images of mapped devices. -/
def stage : request → Option ℕ
  | .create_pv .. => some 0
  | .restore_lvm_meta .. => some 1
  | .restart_vg .. => some 1
  | .sysbak_restore _ target _ => if mapper_path <+: target then some 2 else none
  | _ => none

/-- The first request may be sent before the second. -/
def in_order (r r' : request) : Bool :=
  match stage r, stage r' with
  | some n, some n' => decide (n ≤ n')
  | _, _ => true

/-- LVM is rebuilt in the order in which its parts depend on each other. -/
abbrev lvm_ordered (sent : List request) : Prop := sent.Pairwise fun r r' => in_order r r' = true

/-! ## What a listing says of a group -/

/-- A device that the first pass records. -/
def is_partition (e : lsblk_entry) : Prop := '-' ∉ e.name ∧ e.name.length ≠ 3

instance (e : lsblk_entry) : Decidable (is_partition e) := inferInstanceAs (Decidable (_ ∧ _))

/-- What the listing says last of a group, which is what remains in the file. The first pass
writes `free` for what is `null`, the second leaves it out. -/
def listed (field : lsblk_entry → Option chars) (l : List lsblk_entry) (g : chars) :
    Option chars :=
  if '-' ∈ g then (l.filterMap fun e => if e.name = g then field e else none).getLast?
  else (l.filterMap fun e => if is_partition e ∧ e.name.drop 3 = g then
    some ((field e).getD "free".toList) else none).getLast?

/-- A physical volume is created for the group. -/
def creates_pv (l : List lsblk_entry) (g : chars) : Prop :=
  listed lsblk_entry.fstype l g = some "LVM2_member".toList ∧ listed lsblk_entry.uuid l g ≠ none

/-- An image is restored for the group. -/
def restores_image (l : List lsblk_entry) (g : chars) : Prop :=
  listed lsblk_entry.fstype l g ≠ some "LVM2_member".toList ∧
    listed lsblk_entry.fstype l g ≠ some "free".toList

/-- A partition that takes the group of the sentinel. -/
def takes_end (e : lsblk_entry) : Prop := is_partition e ∧ e.name.drop 3 = "end".toList

instance (e : lsblk_entry) : Decidable (takes_end e) := inferInstanceAs (Decidable (_ ∧ _))

/-- The entries before the first that takes the group `end`. -/
def front (l : List lsblk_entry) : List lsblk_entry := l.takeWhile fun e => !decide (takes_end e)

/-- The name of a device tells its part in the restore. Each clause excludes one way in which a
name puts a device into another part than what it is. -/
structure parted_by_name (target : chars) (l : List lsblk_entry) : Prop where
  /-- no physical volume is on a mapped device -/
  no_mapped_pv : ∀ e ∈ l, '-' ∈ e.name → ¬ creates_pv l e.name
  /-- none is on a partition that is first listed behind one recorded as `end` -/
  no_late_pv : ∀ e ∈ l, is_partition e → e.name.drop 3 ≠ "end".toList →
    (∀ e' ∈ front l, is_partition e' → e'.name.drop 3 ≠ e.name.drop 3) →
      ¬ creates_pv l (e.name.drop 3)
  /-- no partition that is restored before the activation is a mapped device of the target -/
  plain_target : ∀ e ∈ front l, is_partition e → restores_image l (e.name.drop 3) →
    ¬ mapper_path <+: target ++ e.name.drop 3

instance (l : List lsblk_entry) (g : chars) : Decidable (creates_pv l g) :=
  inferInstanceAs (Decidable (_ ∧ _))

instance (l : List lsblk_entry) (g : chars) : Decidable (restores_image l g) :=
  inferInstanceAs (Decidable (_ ∧ _))

/-! ## The file of a listing -/

section File

variable {k : key_file} {l : List lsblk_entry} {g : chars}

/-- What the steps of a fold set last is what is found after it. -/
theorem foldl_last {α β γ : Type} {step : β → α → β} (get : β → Option γ) (f : α → Option γ)
    (h : ∀ b a, get (step b a) = (f a).or (get b)) (l : List α) (b : β) :
    get (l.foldl step b) = ((l.filterMap f).getLast?).or (get b) := by
  induction l generalizing b with
  | nil => rfl
  | cons a l ih =>
      rw [List.foldl_cons, ih, h, List.filterMap_cons]
      cases f a with
      | none => rfl
      | some v => cases hlast : (l.filterMap f).getLast? <;> simp [List.getLast?_cons, hlast]

/-- **What the file says of a group** is what the listing says last of it. Entries of one group
overwrite each other's values in their order; that is why the answer is the last one's. -/
theorem get_listed {key : chars} {field : lsblk_entry → Option chars}
    (hstandard : ∀ k e, is_partition e →
      (record_standard_disk_info k e).g_key_file_get_string (e.name.drop 3) key
        = some ((field e).getD "free".toList))
    (hlvm : ∀ k e, '-' ∈ e.name → (record_lvm_disk_info k e).g_key_file_get_string e.name key
        = (field e).or (k.g_key_file_get_string e.name key))
    (hend : g ≠ "end".toList) :
    (json_parse_array l).g_key_file_get_string g key = listed field l g := by
  have hsentinel : ∀ (k : key_file) x s,
      (k.g_key_file_set_string "end".toList x s).g_key_file_get_string g key
        = k.g_key_file_get_string g key := by
    intro k x s
    rw [get_set_string, if_neg fun h => hend h.1]
  unfold json_parse_array listed
  dsimp only
  split_ifs with hdash
  · -- the second pass sets it, and nothing else does
    rw [foldl_last (fun k : key_file => k.g_key_file_get_string g key)
      fun e => if e.name = g then field e else none]
    · have hfirst : (l.foldl record_standard_disk_info g_key_file_new).g_key_file_get_string g key
          = none := by
        refine foldl_keeps (P := fun k : key_file => k.g_key_file_get_string g key = none) ?_ _ rfl
        intro e _ k hk
        rw [record_standard_get, hk]
        by_cases hname : '-' ∈ e.name
        · exact Or.inr (Or.inl hname)
        · exact Or.inl fun h => hname (List.mem_of_mem_drop (h ▸ hdash))
      rw [hsentinel, hsentinel, hfirst, Option.or_none]
    · intro k e
      by_cases hname : e.name = g
      · subst hname
        rw [if_pos rfl]
        exact hlvm k e hdash
      · rw [if_neg hname, record_lvm_get (Or.inl (Ne.symm hname))]
        rfl
  · -- the first pass sets it, and the second has other names
    have hsecond : ∀ k : key_file, (l.foldl record_lvm_disk_info k).g_key_file_get_string g key
        = k.g_key_file_get_string g key := by
      intro k
      refine foldl_keeps (P := fun k' : key_file => k'.g_key_file_get_string g key
        = k.g_key_file_get_string g key) ?_ _ rfl
      intro e _ k' hk'
      rw [record_lvm_get, hk']
      by_cases hname : '-' ∈ e.name
      · exact Or.inl fun h => hdash (h ▸ hname)
      · exact Or.inr hname
    rw [hsecond, hsentinel, hsentinel,
      foldl_last (fun k : key_file => k.g_key_file_get_string g key)
        fun e => if is_partition e ∧ e.name.drop 3 = g then
          some ((field e).getD "free".toList) else none]
    · exact Option.or_none
    · intro k e
      by_cases hthis : is_partition e ∧ e.name.drop 3 = g
      · rw [if_pos hthis, ← hthis.2, hstandard k e hthis.1]
        rfl
      · rw [if_neg hthis, record_standard_get]
        · rfl
        · unfold is_partition at hthis
          by_contra hno
          exact hthis ⟨⟨by tauto, by tauto⟩, by tauto⟩

theorem get_fstype (hend : g ≠ "end".toList) :
    (json_parse_array l).g_key_file_get_string g "fstype".toList
      = listed lsblk_entry.fstype l g := by
  refine get_listed (fun k e hpart => ?_) (fun k e hdash => ?_) hend
  · unfold record_standard_disk_info
    rw [if_neg (not_or.mpr hpart)]
    simp
  · unfold record_lvm_disk_info
    rw [if_pos hdash]
    cases e.fstype <;> cases e.uuid <;> simp [set_unless_null]

theorem get_uuid (hend : g ≠ "end".toList) :
    (json_parse_array l).g_key_file_get_string g "uuid".toList
      = listed lsblk_entry.uuid l g := by
  refine get_listed (fun k e hpart => ?_) (fun k e hdash => ?_) hend
  · unfold record_standard_disk_info
    rw [if_neg (not_or.mpr hpart)]
    simp
  · unfold record_lvm_disk_info
    rw [if_pos hdash]
    cases e.fstype <;> cases e.uuid <;> simp [set_unless_null]

/-- **Nothing is recorded in front of what is there.** -/
theorem prefix_groups_set_string (k : key_file) (group key s : chars) :
    k.groups <+: (k.g_key_file_set_string group key s).groups := by
  unfold key_file.g_key_file_set_string
  dsimp only
  split
  · exact List.prefix_rfl
  · exact List.prefix_append _ _

theorem prefix_groups_record_standard (k : key_file) (e : lsblk_entry) :
    k.groups <+: (record_standard_disk_info k e).groups := by
  unfold record_standard_disk_info
  split_ifs
  · exact List.prefix_rfl
  · exact (prefix_groups_set_string _ _ _ _).trans ((prefix_groups_set_string _ _ _ _).trans
      (prefix_groups_set_string _ _ _ _))

theorem prefix_groups_record_lvm (k : key_file) (e : lsblk_entry) :
    k.groups <+: (record_lvm_disk_info k e).groups := by
  have hset : ∀ (k : key_file) (key : chars) (v : Option chars),
      k.groups <+: (set_unless_null k e.name key v).groups := by
    intro k key v
    cases v with
    | none => exact List.prefix_rfl
    | some s => exact prefix_groups_set_string _ _ _ _
  unfold record_lvm_disk_info
  split_ifs
  · exact (prefix_groups_set_string _ _ _ _).trans ((hset _ _ _).trans (hset _ _ _))
  · exact List.prefix_rfl

/-- A second key of a group is set where the group is. -/
theorem groups_set_string_of_mem {group : chars} (h : group ∈ k.groups) (key s : chars) :
    (k.g_key_file_set_string group key s).groups = k.groups :=
  if_pos h

/-- The first key of a new group is set behind the others. -/
theorem groups_set_string_of_not_mem {group : chars} (h : group ∉ k.groups) (key s : chars) :
    (k.g_key_file_set_string group key s).groups = k.groups ++ [group] :=
  if_neg h

/-- A partition that takes the group `end` puts it behind the groups there are. -/
theorem groups_record_takes_end {e : lsblk_entry} (htakes : takes_end e)
    (hnot : "end".toList ∉ k.groups) :
    (record_standard_disk_info k e).groups = k.groups ++ ["end".toList] := by
  unfold record_standard_disk_info
  rw [if_neg (not_or.mpr htakes.1)]
  dsimp only
  rw [htakes.2, groups_set_string_of_mem, groups_set_string_of_mem,
    groups_set_string_of_not_mem hnot]
  · exact (mem_groups_set_string _ _ _ _).mpr (.inr rfl)
  · exact (mem_groups_set_string _ _ _ _).mpr
      (.inl ((mem_groups_set_string _ _ _ _).mpr (.inr rfl)))

/-- **Where the group `end` stands**: behind those of `front`, and before all others. It is
either the sentinel's, at the end of the first pass, or it was taken by a partition, and the
sentinel is written into that. -/
theorem groups_json_parse_array (l : List lsblk_entry) :
    ∃ before behind, (json_parse_array l).groups = before ++ "end".toList :: behind ∧
      ∀ g, g ∈ before ↔ ∃ e ∈ front l, is_partition e ∧ g = e.name.drop 3 := by
  set early := (front l).foldl record_standard_disk_info g_key_file_new with hearly
  have hmem : ∀ g, g ∈ early.groups ↔ ∃ e ∈ front l, is_partition e ∧ g = e.name.drop 3 := by
    intro g
    rw [hearly, mem_groups_foldl (f := record_standard_disk_info)
      fun k e g => mem_groups_record_standard]
    exact or_iff_right List.not_mem_nil
  have hnot : "end".toList ∉ early.groups := by
    rw [hmem]
    rintro ⟨e, he, hpart, hname⟩
    have htaken := List.mem_takeWhile_imp he
    rw [Bool.not_eq_true', decide_eq_false_iff_not] at htaken
    exact htaken ⟨hpart, hname.symm⟩
  set partitions := l.foldl record_standard_disk_info g_key_file_new with hpartitions
  set marked := (partitions.g_key_file_set_string "end".toList "name".toList
    "lvm".toList).g_key_file_set_string "end".toList "fstype".toList "lvm".toList with hmarked
  have hfirst : early.groups ++ ["end".toList] <+: marked.groups := by
    have hl : front l ++ l.dropWhile (fun e => !decide (takes_end e)) = l :=
      List.takeWhile_append_dropWhile
    cases hrest : l.dropWhile fun e => !decide (takes_end e) with
    | nil =>
        -- no partition takes it
        rw [hrest, List.append_nil] at hl
        have hsame : partitions = early := by rw [hpartitions, hearly, hl]
        rw [hmarked, hsame, groups_set_string_of_mem ((mem_groups_set_string _ _ _ _).mpr
          (.inr rfl)), groups_set_string_of_not_mem hnot]
    | cons e rest =>
        rw [hrest] at hl
        have htakes : takes_end e := by
          have hhead := List.head_dropWhile_not (fun e => !decide (takes_end e))
            (hrest ▸ List.cons_ne_nil e rest)
          simpa [hrest] using hhead
        have hstep := groups_record_takes_end htakes hnot
        have hon : partitions = rest.foldl record_standard_disk_info
            (record_standard_disk_info early e) := by
          rw [hpartitions, hearly, ← List.foldl_cons, ← List.foldl_append, hl]
        rw [hmarked, ← hstep]
        refine List.IsPrefix.trans ?_ ((prefix_groups_set_string _ _ _ _).trans
          (prefix_groups_set_string _ _ _ _))
        rw [hon]
        exact foldl_keeps (P := fun k : key_file =>
          (record_standard_disk_info early e).groups <+: k.groups)
          (fun e _ k hk => hk.trans (prefix_groups_record_standard k e)) _ List.prefix_rfl
  -- the second pass appends
  have hsecond : marked.groups <+: (json_parse_array l).groups :=
    foldl_keeps (P := fun k : key_file => marked.groups <+: k.groups)
      (fun e _ k hk => hk.trans (prefix_groups_record_lvm k e)) _ List.prefix_rfl
  obtain ⟨behind, hbehind⟩ := hfirst.trans hsecond
  refine ⟨early.groups, behind, ?_, hmem⟩
  rw [← hbehind, List.append_assoc, List.singleton_append]

/-- **What stands on the two sides of `end`**: in front the partitions of `front`, behind it every
other group that is recorded. A group is in the file once, so what is in front is not behind. -/
theorem groups_around_end (l : List lsblk_entry) :
    ∃ before behind, (json_parse_array l).groups = before ++ "end".toList :: behind ∧
      (∀ g, g ∈ before ↔ ∃ e ∈ front l, is_partition e ∧ g = e.name.drop 3) ∧
      (∀ g ∈ before, g ≠ "end".toList) ∧
      ∀ g, g ∈ behind ↔ g ≠ "end".toList ∧ g ∉ before ∧ ∃ e ∈ l, recorded e ∧ g = group_of e := by
  obtain ⟨before, behind, hgroups, hbefore⟩ := groups_json_parse_array l
  have hnodup := (json_parse_array l).nodup
  have hmem := mem_groups_json_parse_array l
  rw [hgroups] at hnodup hmem
  have hdisjoint := List.disjoint_of_nodup_append hnodup
  have hnot := (List.nodup_cons.mp (List.nodup_middle.mp hnodup)).1
  rw [List.mem_append, not_or] at hnot
  refine ⟨before, behind, hgroups, hbefore, ?_, fun g => ⟨fun hg => ?_, ?_⟩⟩
  · rintro g hg rfl
    exact hnot.1 hg
  · have hend : g ≠ "end".toList := by
      rintro rfl
      exact hnot.2 hg
    have hall := (hmem g).mp (List.mem_append_right _ (List.mem_cons_of_mem _ hg))
    exact ⟨hend, fun h => hdisjoint h (List.mem_cons_of_mem _ hg), hall.resolve_left hend⟩
  · rintro ⟨hend, hfront, hrec⟩
    have hall := (hmem g).mpr (Or.inr hrec)
    rw [List.mem_append, List.mem_cons] at hall
    exact (hall.resolve_left hfront).resolve_left hend

end File

/-! ## What a group sends

A stage is given to each kind of request; most groups can send requests of one stage only, and
the group `end` those of the one in the middle. -/

/-- What a group can send: the stage of its requests, if they have one. -/
def group_stage (k : key_file) (target g : chars) : Option ℕ :=
  if g = "end".toList then some 1
  else if k.g_key_file_get_string g "fstype".toList = some "LVM2_member".toList then
    (k.g_key_file_get_string g "uuid".toList).map fun _ => 0
  else if k.g_key_file_get_string g "fstype".toList = some "free".toList then none
  else if mapper_path <+: (if is_lvm g then mapper_path ++ g else target ++ g) then some 2
  else none

/-- The requests between two sessions that have a stage at all are of this one. Requests without a
stage, such as those that only ask, may come in between. -/
def sends_only (n : Option ℕ) (c c' : Session) : Prop :=
  ∃ new, c'.sent = c.sent ++ new ∧ ∀ r ∈ new, ∀ m, stage r = some m → n = some m

section Steps

variable {env : Env} {k : key_file} {source target : chars} {n : Option ℕ} {c c' : Session}

theorem sends_only.refl (n : Option ℕ) (c : Session) : sends_only n c c :=
  ⟨[], (List.append_nil _).symm, by simp⟩

theorem sends_only.trans {c₁ c₂ c₃ : Session} (h : sends_only n c₁ c₂) (h' : sends_only n c₂ c₃) :
    sends_only n c₁ c₃ := by
  obtain ⟨new, hsent, hnew⟩ := h
  obtain ⟨new', hsent', hnew'⟩ := h'
  refine ⟨new ++ new', by rw [hsent', hsent, List.append_assoc], fun r hr => ?_⟩
  rcases List.mem_append.mp hr with hr | hr
  · exact hnew r hr
  · exact hnew' r hr

theorem send_only (c : Session) {r : request} (hr : ∀ m, stage r = some m → n = some m) :
    sends_only n c (send c r) := by
  refine ⟨[r], rfl, fun r' hr' => ?_⟩
  rw [List.mem_singleton.mp hr']
  exact hr

theorem create_lvm_pv_sends (c : Session) (source target uuid : chars) :
    sends_only (some 0) c (create_lvm_pv env c source target uuid).2 := by
  unfold create_lvm_pv
  split_ifs
  · exact send_only c fun m hm => hm
  · exact .refl _ c

/-- A physical volume is looked for and created; without a `uuid` there is nothing to look
for. -/
theorem restore_lvm_pv_sends (c : Session) (dir_path dev_name : chars) (uuid : Option chars) :
    sends_only (uuid.map fun _ => 0) c (restore_lvm_pv env c dir_path dev_name uuid).2 := by
  unfold restore_lvm_pv
  split
  · rename_i names uuid _
    clear * -
    induction names generalizing c with
    | nil => exact .refl _ c
    | cons fn names ih =>
        unfold restore_lvm_pv_loop
        dsimp only
        have hsearch := send_only (n := some 0) c
          (r := .search_file_data (g_build_filename dir_path fn) uuid) (by simp [stage])
        split_ifs
        · exact hsearch.trans (create_lvm_pv_sends _ _ _ _)
        · exact hsearch.trans (ih _)
        · exact ih c
  · exact .refl _ c

/-- The groups are restored and started. -/
theorem activation_lvm_pv_sends {dir_path : chars}
    (h : activation_lvm_pv env c dir_path = some c') : sends_only (some 1) c c' := by
  obtain ⟨names, -, rfl⟩ := Option.map_eq_some_iff.mp h
  clear h
  induction names generalizing c with
  | nil => exact .refl _ c
  | cons fn names ih =>
      refine sends_only.trans ?_ ih
      have hmeta : ∀ (c : Session) (file vgname : chars),
          sends_only (some 1) c (send c (.restore_lvm_meta file vgname)) :=
        fun c _ _ => send_only c fun m hm => hm
      have hstart : ∀ (c : Session) (vgname : chars),
          sends_only (some 1) c (send c (.restart_vg vgname)) :=
        fun c _ => send_only c fun m hm => hm
      unfold activate_file restart_lvm_vg set_disk_lvm_metadata
      split_ifs
      · exact (hmeta _ _ _).trans (hstart _ _)
      · exact hstart _ _
      · exact .refl _ c

/-- An image is sent for, unless one of the checks refuses it. The checks send nothing themselves.
-/
theorem restore_async_sends (c : Session) (source target : chars) (overwrite : Bool) :
    sends_only (if mapper_path <+: target then some 2 else none) c
      (sysbak_admin_restore_async env c source target overwrite).2 := by
  generalize hn : (if mapper_path <+: target then some 2 else none) = n
  have hnothing : ∀ (c' : Session), c'.sent = c.sent → sends_only n c c' :=
    fun c' hsent => ⟨[], by rw [hsent, List.append_nil], by simp⟩
  unfold sysbak_admin_restore_async
  split_ifs
  · exact hnothing _ rfl
  · exact hnothing _ rfl
  · exact hnothing _ rfl
  · apply send_only
    intro m hm
    rw [← hn]
    exact hm

/-- **A group sends nothing of another stage than its own.** -/
theorem restore_group_sends {g : chars} (h : restore_group env k source target c g = some c') :
    sends_only (group_stage k target g) c c' := by
  unfold restore_group at h
  unfold group_stage
  dsimp only at h
  by_cases hend : g = "end".toList
  · rw [if_pos hend] at h ⊢
    exact activation_lvm_pv_sends h
  rw [if_neg hend] at h ⊢
  by_cases hlvm : k.g_key_file_get_string g "fstype".toList = some "LVM2_member".toList
  · rw [if_pos hlvm] at h ⊢
    rw [← Option.some.inj h]
    exact restore_lvm_pv_sends _ _ _ _
  rw [if_neg hlvm] at h ⊢
  by_cases hfree : k.g_key_file_get_string g "fstype".toList = some "free".toList
  · rw [if_pos hfree] at h ⊢
    rw [← Option.some.inj h]
    exact .refl _ c
  · rw [if_neg hfree] at h ⊢
    rw [← Option.some.inj h]
    exact restore_async_sends ..

theorem in_order_of_stages {r r' : request}
    (h : ∀ m m', stage r = some m → stage r' = some m' → m ≤ m') : in_order r r' = true := by
  unfold in_order
  split
  · rename_i m m' hm hm'
    exact decide_eq_true (h m m' hm hm')
  · rfl

/-- **A run sends what its groups can send**, in their order: by induction on the groups, each
of which comes before all that the later ones can send. -/
theorem restore_groups_sends (env : Env) (k : key_file) (source target : chars)
    (groups : List chars) (c : Session) :
    ∃ new, (restore_groups env k source target groups c).sent = c.sent ++ new ∧
      (∀ r ∈ new, ∀ m, stage r = some m → m ∈ groups.filterMap (group_stage k target)) ∧
      ((groups.filterMap (group_stage k target)).Pairwise (· ≤ ·) → lvm_ordered new) := by
  induction groups generalizing c with
  | nil => exact ⟨[], (List.append_nil _).symm, by simp, fun _ => List.Pairwise.nil⟩
  | cons g groups ih =>
      rw [restore_groups]
      cases hg : restore_group env k source target c g with
      | none => exact ⟨[], (List.append_nil _).symm, by simp, fun _ => List.Pairwise.nil⟩
      | some c' =>
          obtain ⟨now, hnow, honly⟩ := restore_group_sends hg
          obtain ⟨later, hlater, hstages, hordered⟩ := ih c'
          refine ⟨now ++ later, ?_, ?_, fun hsorted => ?_⟩
          · rw [← List.append_assoc, ← hnow]
            exact hlater
          · intro r hr m hm
            rw [List.mem_filterMap]
            rcases List.mem_append.mp hr with hr | hr
            · exact ⟨g, List.mem_cons_self, honly r hr m hm⟩
            · obtain ⟨g', hg', hm'⟩ := List.mem_filterMap.mp (hstages r hr m hm)
              exact ⟨g', List.mem_cons_of_mem _ hg', hm'⟩
          · refine List.pairwise_append.mpr ⟨?_, hordered ?_, fun r hr r' hr' => ?_⟩
            · -- one group sends requests of one stage
              refine List.pairwise_of_forall_mem_list fun r hr r' hr' => ?_
              refine in_order_of_stages fun m m' hm hm' => ?_
              have hsame := (honly r hr m hm).symm.trans (honly r' hr' m' hm')
              rw [Option.some.inj hsame]
            · exact hsorted.sublist ((List.sublist_cons_self g groups).filterMap _)
            · refine in_order_of_stages fun m m' hm hm' => ?_
              rw [List.filterMap_cons, honly r hr m hm] at hsorted
              exact (List.pairwise_cons.mp hsorted).1 m' (hstages r' hr' m' hm')

end Steps

/-! ## A machine that sends everything

On it every check comes out well, so what a group can send it does send. -/

/-- A machine with a backup of these devices and of one volume group. Nothing is missing on
it and nothing mounted, and every physical volume belongs to the group. -/
def lvm_machine (l : List lsblk_entry) : Machine :=
  { backed_up_machine l with
    mtab := some []
    g_dir_open := fun _ => some ["lvm-vg".toList] }

/-- **Every group sends what it can.** On that machine nothing is mounted, every device is there
and every file names its volumes, so no check stands in the way. -/
theorem restore_group_willing (l : List lsblk_entry) (k : key_file) (source target : chars)
    (c : Session) (g : chars) :
    ∃ c' new, restore_group (fun _ => lvm_machine l) k source target c g = some c' ∧
      c'.sent = c.sent ++ new ∧ ∀ n, group_stage k target g = some n → n ∈ new.filterMap stage := by
  unfold restore_group group_stage
  dsimp only
  by_cases hend : g = "end".toList
  · rw [if_pos hend, if_pos hend]
    refine ⟨_, [.restore_lvm_meta (g_build_filename source "lvm-vg".toList) "vg".toList,
      .restart_vg "vg".toList], rfl, ?_, ?_⟩
    · exact List.append_assoc ..
    · intro n hn
      rw [← Option.some.inj hn]
      exact List.mem_cons_self
  rw [if_neg hend, if_neg hend]
  by_cases hlvm : k.g_key_file_get_string g "fstype".toList = some "LVM2_member".toList
  · rw [if_pos hlvm, if_pos hlvm]
    cases huuid : k.g_key_file_get_string g "uuid".toList with
    | none => exact ⟨c, [], rfl, (List.append_nil _).symm, by simp⟩
    | some uuid =>
        refine ⟨_, [.search_file_data (g_build_filename source "lvm-vg".toList) uuid,
          .create_pv (g_build_filename source "lvm-vg".toList) uuid (target ++ g)], rfl, ?_, ?_⟩
        · exact List.append_assoc ..
        · intro n hn
          rw [← Option.some.inj hn]
          exact List.mem_cons_self
  rw [if_neg hlvm, if_neg hlvm]
  by_cases hfree : k.g_key_file_get_string g "fstype".toList = some "free".toList
  · rw [if_pos hfree, if_pos hfree]
    exact ⟨c, [], rfl, (List.append_nil _).symm, by simp⟩
  · rw [if_neg hfree, if_neg hfree]
    set image := image_file source (k.g_key_file_get_string g "name".toList)
    set device := if is_lvm g then "/dev/mapper/".toList ++ g else target ++ g
    refine ⟨_, [.sysbak_restore image device true], rfl, ?_, fun n hn => ?_⟩
    · unfold restore_disk_partition_data sysbak_admin_restore_async
      have hdevice : ∀ path, check_file_device (lvm_machine l) path = true := fun _ => rfl
      have hmount : check_device_mount (lvm_machine l) device = false := rfl
      simp only [hdevice, hmount, Bool.not_true, Bool.and_false, Bool.false_eq_true, if_false,
        send_sent]
    · have hstage : stage (.sysbak_restore image device true) = some n := hn
      rw [List.filterMap_cons, hstage]
      exact List.mem_cons_self

/-- **So does a run.** -/
theorem restore_groups_willing (l : List lsblk_entry) (k : key_file) (source target : chars)
    (groups : List chars) (c : Session) :
    ∃ new, (restore_groups (fun _ => lvm_machine l) k source target groups c).sent
        = c.sent ++ new ∧
      (groups.filterMap (group_stage k target)).Sublist (new.filterMap stage) := by
  induction groups generalizing c with
  | nil => exact ⟨[], (List.append_nil _).symm, List.Sublist.refl _⟩
  | cons g groups ih =>
      obtain ⟨c', now, hc', hnow, hstage⟩ := restore_group_willing l k source target c g
      obtain ⟨later, hlater, hsublist⟩ := ih c'
      refine ⟨now ++ later, ?_, ?_⟩
      · rw [restore_groups, hc', ← List.append_assoc, ← hnow]
        exact hlater
      · rw [List.filterMap_append, List.filterMap_cons]
        cases hg : group_stage k target g with
        | none => exact hsublist.trans (List.sublist_append_right _ _)
        | some n =>
            rw [hg] at hstage
            change ([n] ++ groups.filterMap (group_stage k target)).Sublist _
            exact (List.singleton_sublist.mpr (hstage n rfl)).append hsublist

/-! ## The whole run -/

section Run

variable {l : List lsblk_entry} {target : chars}

/-- The stages of ordered requests ascend. -/
theorem stages_ascend {sent : List request} (h : lvm_ordered sent) :
    (sent.filterMap stage).Pairwise (· ≤ ·) := by
  rw [List.pairwise_filterMap]
  refine h.imp fun horder m hm m' hm' => ?_
  unfold in_order at horder
  rw [hm, hm'] at horder
  exact of_decide_eq_true horder

/-- A group but `end` is of the first stage if it creates a physical volume. -/
theorem group_stage_pv {g : chars} (hend : g ≠ "end".toList) :
    group_stage (json_parse_array l) target g = some 0 ↔ creates_pv l g := by
  unfold group_stage creates_pv
  rw [if_neg hend, get_fstype hend, get_uuid hend]
  by_cases hlvm : listed lsblk_entry.fstype l g = some "LVM2_member".toList
  · rw [if_pos hlvm]
    cases listed lsblk_entry.uuid l g <;> simp [hlvm]
  · rw [if_neg hlvm]
    refine iff_of_false ?_ fun h => hlvm h.1
    split_ifs <;> simp

/-- It is of the last if it restores an image to a mapped device. -/
theorem group_stage_image {g : chars} (hend : g ≠ "end".toList) :
    group_stage (json_parse_array l) target g = some 2 ↔
      restores_image l g ∧ mapper_path <+: (if is_lvm g then mapper_path ++ g else target ++ g) := by
  unfold group_stage restores_image
  rw [if_neg hend, get_fstype hend, get_uuid hend]
  by_cases hlvm : listed lsblk_entry.fstype l g = some "LVM2_member".toList
  · rw [if_pos hlvm]
    refine iff_of_false ?_ fun h => h.1.1 hlvm
    cases listed lsblk_entry.uuid l g <;> simp
  rw [if_neg hlvm]
  by_cases hfree : listed lsblk_entry.fstype l g = some "free".toList
  · rw [if_pos hfree]
    exact iff_of_false (Option.some_ne_none _).symm fun h => h.1.2 hfree
  rw [if_neg hfree]
  split_ifs with hmapper hmapper
  all_goals simp_all

/-- There are no other stages. -/
theorem group_stage_cases {k : key_file} {g : chars} {n : ℕ} (hend : g ≠ "end".toList)
    (h : group_stage k target g = some n) : n = 0 ∨ n = 2 := by
  unfold group_stage at h
  rw [if_neg hend] at h
  split_ifs at h with hlvm
  · obtain ⟨uuid, -, hn⟩ := Option.map_eq_some_iff.mp h
    exact Or.inl hn.symm
  · exact Or.inr (Option.some.inj h).symm
  · exact Or.inr (Option.some.inj h).symm

/-- Two parts around a middle ascend if the first is below it and the second above. -/
theorem pairwise_around {before behind : List ℕ} (hbefore : ∀ n ∈ before, n = 0 ∨ n = 2)
    (hbehind : ∀ n ∈ behind, n = 0 ∨ n = 2) :
    (before ++ 1 :: behind).Pairwise (· ≤ ·) ↔ 2 ∉ before ∧ 0 ∉ behind := by
  constructor
  · intro h
    obtain ⟨-, hmiddle, hacross⟩ := List.pairwise_append.mp h
    refine ⟨fun htwo => ?_, fun hzero => ?_⟩
    · exact absurd (hacross 2 htwo 1 List.mem_cons_self) (by decide)
    · exact absurd ((List.pairwise_cons.mp hmiddle).1 0 hzero) (by decide)
  · rintro ⟨htwo, hzero⟩
    have hfirst : ∀ n ∈ before, n = 0 := fun n hn =>
      (hbefore n hn).resolve_right fun h => htwo (h ▸ hn)
    have hlast : ∀ n ∈ behind, n = 2 := fun n hn =>
      (hbehind n hn).resolve_left fun h => hzero (h ▸ hn)
    refine List.pairwise_append.mpr ⟨?_, List.pairwise_cons.mpr ⟨?_, ?_⟩, ?_⟩
    · exact List.pairwise_of_forall_mem_list fun n hn m hm => by rw [hfirst n hn, hfirst m hm]
    · intro n hn
      rw [hlast n hn]
      exact Nat.le_succ 1
    · exact List.pairwise_of_forall_mem_list fun n hn m hm => by rw [hlast n hn, hlast m hm]
    · intro n hn m _
      rw [hfirst n hn]
      exact Nat.zero_le m

theorem is_partition.not_dash {e : lsblk_entry} (hpart : is_partition e) : '-' ∉ e.name.drop 3 :=
  fun h => hpart.1 (List.mem_of_mem_drop h)

/-- **No physical volume behind `end`**: it is the first two clauses of the condition, one for the
mapped devices and one for the partitions that stand there. -/
theorem no_pv_behind_iff {before behind : List chars}
    (hbefore : ∀ g, g ∈ before ↔ ∃ e ∈ front l, is_partition e ∧ g = e.name.drop 3)
    (hbehind : ∀ g, g ∈ behind ↔
      g ≠ "end".toList ∧ g ∉ before ∧ ∃ e ∈ l, recorded e ∧ g = group_of e) :
    (∀ g ∈ behind, ¬ creates_pv l g) ↔
      (∀ e ∈ l, '-' ∈ e.name → ¬ creates_pv l e.name) ∧
      ∀ e ∈ l, is_partition e → e.name.drop 3 ≠ "end".toList →
        (∀ e' ∈ front l, is_partition e' → e'.name.drop 3 ≠ e.name.drop 3) →
          ¬ creates_pv l (e.name.drop 3) := by
  constructor
  · intro hno
    refine ⟨fun e he hdash => hno _ ?_, fun e he hpart hname hfirst => hno _ ?_⟩
    · rw [hbehind]
      refine ⟨fun h => absurd (h ▸ hdash) (by decide), fun h => ?_, e, he, Or.inl hdash,
        (if_pos hdash).symm⟩
      obtain ⟨e', -, hpart, hname⟩ := (hbefore _).mp h
      exact hpart.not_dash (hname ▸ hdash)
    · rw [hbehind]
      refine ⟨hname, fun h => ?_, e, he, Or.inr hpart.2, (if_neg hpart.1).symm⟩
      obtain ⟨e', he', hpart', hsame⟩ := (hbefore _).mp h
      exact hfirst e' he' hpart' hsame.symm
  · rintro ⟨hmapped, hlate⟩ g hg hpv
    obtain ⟨hne, hfront, e, he, hrec, rfl⟩ := (hbehind g).mp hg
    by_cases hdash : '-' ∈ e.name
    · rw [group_of, if_pos hdash] at hpv
      exact hmapped e he hdash hpv
    · rw [group_of, if_neg hdash] at hpv hne hfront
      refine hlate e he ⟨hdash, hrec.resolve_left hdash⟩ hne (fun e' he' hpart' hsame => ?_) hpv
      exact hfront ((hbefore _).mpr ⟨e', he', hpart', hsame.symm⟩)

/-- **No mapped target in front of `end`**: it is the last clause. The groups there have no `-`, so
their device is the target with the name behind it. -/
theorem no_mapper_before_iff {before : List chars}
    (hbefore : ∀ g, g ∈ before ↔ ∃ e ∈ front l, is_partition e ∧ g = e.name.drop 3) :
    (∀ g ∈ before, ¬ (restores_image l g ∧
        mapper_path <+: (if is_lvm g then mapper_path ++ g else target ++ g))) ↔
      ∀ e ∈ front l, is_partition e → restores_image l (e.name.drop 3) →
        ¬ mapper_path <+: target ++ e.name.drop 3 := by
  have hplain : ∀ e : lsblk_entry, is_partition e → ¬ is_lvm (e.name.drop 3) = true := by
    intro e hpart
    simpa [is_lvm] using hpart.not_dash
  constructor
  · intro hno e he hpart himage hmapper
    refine hno _ ((hbefore _).mpr ⟨e, he, hpart, rfl⟩) ⟨himage, ?_⟩
    rw [if_neg (hplain e hpart)]
    exact hmapper
  · rintro hplace g hg ⟨himage, hmapper⟩
    obtain ⟨e, he, hpart, rfl⟩ := (hbefore g).mp hg
    rw [if_neg (hplain e hpart)] at hmapper
    exact hplace e he hpart himage hmapper

/-- **The stages of the groups ascend exactly if the names tell the parts.** The groups of the
partitions come first, `end` next and the mapped devices last, so the stages ascend unless a name
puts a device into the wrong one of these parts. -/
theorem stages_ascend_iff : ((json_parse_array l).groups.filterMap
      (group_stage (json_parse_array l) target)).Pairwise (· ≤ ·) ↔ parted_by_name target l := by
  obtain ⟨before, behind, hgroups, hbefore, hne, hbehind⟩ := groups_around_end l
  have hlate : ∀ g ∈ behind, g ≠ "end".toList := fun g hg => ((hbehind g).mp hg).1
  have hmiddle : group_stage (json_parse_array l) target "end".toList = some 1 := if_pos rfl
  rw [hgroups, List.filterMap_append, List.filterMap_cons, hmiddle]
  dsimp only
  rw [pairwise_around]
  · have hpv : 0 ∉ behind.filterMap (group_stage (json_parse_array l) target) ↔
        ∀ g ∈ behind, ¬ creates_pv l g := by
      rw [List.mem_filterMap, not_exists]
      refine forall_congr' fun g => ?_
      rw [not_and]
      exact imp_congr_right fun hg => not_congr (group_stage_pv (hlate g hg))
    have himage : 2 ∉ before.filterMap (group_stage (json_parse_array l) target) ↔
        ∀ g ∈ before, ¬ (restores_image l g ∧
          mapper_path <+: (if is_lvm g then mapper_path ++ g else target ++ g)) := by
      rw [List.mem_filterMap, not_exists]
      refine forall_congr' fun g => ?_
      rw [not_and]
      exact imp_congr_right fun hg => not_congr (group_stage_image (hne g hg))
    rw [hpv, himage, no_pv_behind_iff hbefore hbehind, no_mapper_before_iff hbefore]
    exact ⟨fun h => ⟨h.2.1, h.2.2, h.1⟩, fun h => ⟨h.plain_target, h.no_mapped_pv, h.no_late_pv⟩⟩
  · intro n hn
    obtain ⟨g, hg, hstage⟩ := List.mem_filterMap.mp hn
    exact group_stage_cases (hne g hg) hstage
  · intro n hn
    obtain ⟨g, hg, hstage⟩ := List.mem_filterMap.mp hn
    exact group_stage_cases (hlate g hg) hstage

/-- **LVM is rebuilt in dependency order exactly where the names of the devices tell their
parts**: on every machine that finds the file of this listing, physical volumes are then created
before any metadata is restored and any group started, and the images of mapped devices come last;
for any other listing or target there is a machine where they do not. One direction goes by what a
group can send on any machine, the other by the machine that sends all of it: there the order is
kept only if the stages of the groups ascend. -/
theorem lvm_ordered_iff (l : List lsblk_entry) (c : Session) (source target : chars) :
    (∀ env : Env, (∀ k, (env c.sent).g_key_file_load_from_file (disk_info_path source) = .ok k →
        k = json_parse_array l) →
      ∃ new, (read_cfg_file_restore env c source target).sent = c.sent ++ new ∧
        lvm_ordered new) ↔ parted_by_name target l := by
  rw [← stages_ascend_iff]
  constructor
  · intro h
    obtain ⟨new, hrun, hordered⟩ := h (fun _ => lvm_machine l) fun k hk => (Except.ok.inj hk).symm
    obtain ⟨new', hrun', hsublist⟩ := restore_groups_willing l (json_parse_array l) source
      target (json_parse_array l).groups c
    have hsame : new = new' := List.append_cancel_left (hrun.symm.trans hrun')
    exact (stages_ascend (hsame ▸ hordered)).sublist hsublist
  · intro hsorted env hsaved
    have hnothing : ∃ new, c.sent = c.sent ++ new ∧ lvm_ordered new :=
      ⟨[], (List.append_nil _).symm, List.Pairwise.nil⟩
    unfold read_cfg_file_restore
    split_ifs
    · cases hload : (env c.sent).g_key_file_load_from_file (disk_info_path source) with
      | error message => exact hnothing
      | ok k =>
          obtain rfl := hsaved k hload
          obtain ⟨new, hrun, -, hordered⟩ := restore_groups_sends env (json_parse_array l) source
            target (json_parse_array l).groups c
          exact ⟨new, hrun, hordered hsorted⟩
    · exact hnothing

end Run

/-- A partition recorded as `end` is no harm where no physical volume comes behind it. -/
example : parted_by_name "/dev/sda".toList
    [⟨"sda".toList, none, none⟩, ⟨"sda1".toList, some "LVM2_member".toList, some "u1".toList⟩,
      ⟨"sdaend".toList, none, none⟩, ⟨"vg-root".toList, some "xfs".toList, some "u3".toList⟩] :=
  ⟨by decide, by decide, by decide⟩

/-- A physical volume on a mapped device of `sda`. -/
def mapped_pv_listing : List lsblk_entry :=
  sda_listing ++ [⟨"vg-pv".toList, some "LVM2_member".toList, some "u4".toList⟩]

/-- A partition that is recorded as `end`, and a physical volume behind it. -/
def sdaend_listing : List lsblk_entry :=
  [⟨"sdaend".toList, none, none⟩,
    ⟨"sda1".toList, some "LVM2_member".toList, some "u1".toList⟩]

/-- **The physical volume on the mapped device is created when its group is started and restored
already**, and so is the one behind the partition `end`. The first is recorded behind `end` since
its name has a `-`; the second has the group `end` itself, so that group is handled where the
partition was listed. -/
theorem mapped_pv_out_of_order :
    ¬ lvm_ordered (read_cfg_file_restore (fun _ => lvm_machine mapped_pv_listing) .new
      "/backup".toList "/dev/sda".toList).sent ∧
    ¬ lvm_ordered (read_cfg_file_restore (fun _ => lvm_machine sdaend_listing) .new
      "/backup".toList "/dev/sda".toList).sent := by
  constructor <;> decide

end SysbakAdmin.DiskInfo

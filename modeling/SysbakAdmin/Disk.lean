/-
Handlers of `gdbus-disk.c` that run a command of LVM: they restore the metadata of a
volume group, start a group again, or remove the groups of a disk.

What a command does to the machine is outside the model. `spawn` says how it ended, and
may depend on everything the daemon has run and sent before.

`gdbus_remove_all_vg` decides by a search in names: a group is removed when the name of the
disk occurs anywhere in the name of one of its volumes. `remove_all_vg_iff` says for which
tables of groups that is the same as belonging to the disk; `/dev/sda` in `/dev/sdaa1` is
where it is not.

The theorem needs both directions of a search: a name that belongs to the disk contains it, and
what contains it without belonging to it is what the condition excludes. Digits behind the name
are taken as a number, since the kernel numbers partitions so.
-/
import Mathlib.Data.List.Infix
import SysbakAdmin.Lib.CMemory

set_option autoImplicit false

namespace SysbakAdmin.Disk

open CMemory

/-! ## Commands and answers -/

/-- What a handler sends: its reply with the result, or `sysbak_error`. -/
inductive answer where
  | reply (result : Bool)
  | error (message : String) (e_code : ℕ)
  deriving DecidableEq, Repr

/-- The commands that have been run and what has been sent, in order. -/
structure Daemon where
  commands : List (List String)
  sent : List answer
  deriving DecidableEq, Repr

/-- How `g_spawn_sync` ended. -/
inductive spawned where
  | not_started
  | exited (success : Bool)
  deriving DecidableEq, Repr

/-- Every command on a machine. -/
abbrev Spawn := Daemon → List String → spawned

/-- `g_spawn_sync` and `g_spawn_check_exit_status`. -/
def run_command (spawn : Spawn) (d : Daemon) (argv : List String) : Bool × Daemon :=
  (spawn d argv = .exited true, { d with commands := d.commands ++ [argv] })

def send (d : Daemon) (a : answer) : Daemon := { d with sent := d.sent ++ [a] }

/-- `ERROR:` of the handlers. -/
def handler_error (d : Daemon) (message : String) : Bool × Daemon :=
  (false, send (send d (.reply false)) (.error message 1))

/-- `gdbus_restore_lvm_meta`, which answers before it runs the command. -/
def gdbus_restore_lvm_meta (spawn : Spawn) (d : Daemon) (file vgname : String) : Bool × Daemon :=
  let d := send d (.reply true)
  let (ok, d) := run_command spawn d ["/sbin/vgcfgrestore", "-f", file, vgname, "-y"]
  if !ok then handler_error d "vgcfgrestore failed" else (true, d)

/-- `gdbus_restart_vg`, which answers before it runs the two commands. -/
def gdbus_restart_vg (spawn : Spawn) (d : Daemon) (vgname : String) : Bool × Daemon :=
  let d := send d (.reply true)
  let (ok, d) := run_command spawn d ["/sbin/vgchange", "-ay", vgname]
  if !ok then handler_error d "restart VG failed"
  else
    let (ok, d) := run_command spawn d ["/sbin/lvchange", "-ay", vgname]
    if !ok then handler_error d "restart VG failed" else (true, d)

/-! ## Removing the groups of a disk -/

/-- What `lvm2app` lists of a volume group. -/
structure volume_group where
  name : String
  pvs : List String
  deriving DecidableEq, Repr

/-- `strstr (s, t) != NULL`. -/
def strstr (s t : String) : Bool := decide (t.toList <:+: s.toList)

/-- `get_vg_pvs` of a group that could be opened: the names in which the disk's name occurs. -/
def get_vg_pvs (vg : volume_group) (disk_name : String) : List String :=
  vg.pvs.filter fun pvname => strstr pvname disk_name

def shell_cmd_remove_vg (spawn : Spawn) (d : Daemon) (vgname : String) : Bool × Daemon :=
  run_command spawn d ["/sbin/vgremove", vgname, "-y"]

def shell_cmd_remove_pv (spawn : Spawn) (d : Daemon) (pvname : String) : Bool × Daemon :=
  run_command spawn d ["/sbin/pvremove", pvname, "-y"]

/-- One group. The results of the commands are not looked at. -/
def remove_vg (spawn : Spawn) (disk_name : String) (d : Daemon) (vg : volume_group) : Daemon :=
  let array := get_vg_pvs vg disk_name
  if array.length > 0 then
    array.foldl (fun d pvname => (shell_cmd_remove_pv spawn d pvname).2)
      (shell_cmd_remove_vg spawn d vg.name).2
  else d

/-- `gdbus_remove_all_vg`; `vgnames` is `none` where `lvm_list_vg_names` fails. -/
def gdbus_remove_all_vg (spawn : Spawn) (d : Daemon) (vgnames : Option (List volume_group))
    (disk_name : String) : Bool × Daemon :=
  match vgnames with
  | none => (false, send d (.reply false))
  | some vgs => (true, send (vgs.foldl (remove_vg spawn disk_name) d) (.reply true))

/-! ## Which groups go

A name contains another in more ways than one: at its front with a number behind, or anywhere.
-/

/-- The digits of a partition number. -/
def is_number (l : List Char) : Prop := l ≠ [] ∧ ∀ c ∈ l, c.isDigit = true

/-- A device of the disk: the disk, or its name with an optional `p` and a number. This is how the
kernel names partitions; the code searches for the name of the disk anywhere in that of the
device. -/
def on_disk (pvname disk_name : String) : Prop :=
  ∃ rest, pvname.toList = disk_name.toList ++ rest ∧
    (rest = [] ∨ is_number rest ∨ ∃ n, rest = 'p' :: n ∧ is_number n)

/-- The commands for one group. -/
def removal (disk_name : String) (vg : volume_group) : List (List String) :=
  match get_vg_pvs vg disk_name with
  | [] => []
  | pvs => ["/sbin/vgremove", vg.name, "-y"] :: pvs.map fun pv => ["/sbin/pvremove", pv, "-y"]

theorem remove_pvs_commands (spawn : Spawn) (pvs : List String) (d : Daemon) :
    (pvs.foldl (fun d pvname => (shell_cmd_remove_pv spawn d pvname).2) d).commands
      = d.commands ++ pvs.map fun pv => ["/sbin/pvremove", pv, "-y"] := by
  induction pvs generalizing d with
  | nil => exact (List.append_nil _).symm
  | cons pv pvs ih =>
      rw [List.foldl_cons, ih, List.map_cons, List.append_cons]
      rfl

theorem remove_vg_commands (spawn : Spawn) (disk_name : String) (d : Daemon) (vg : volume_group) :
    (remove_vg spawn disk_name d vg).commands = d.commands ++ removal disk_name vg := by
  unfold remove_vg removal
  cases get_vg_pvs vg disk_name with
  | nil => exact (List.append_nil _).symm
  | cons pv pvs =>
      dsimp only
      rw [if_pos (show (pv :: pvs).length > 0 from Nat.succ_pos _), remove_pvs_commands,
        List.append_cons]
      rfl

/-- The groups are gone through one after the other, whatever the commands answer. -/
theorem remove_all_vg_commands (spawn : Spawn) (d : Daemon) (vgnames : Option (List volume_group))
    (disk_name : String) :
    (gdbus_remove_all_vg spawn d vgnames disk_name).2.commands
      = d.commands ++ (vgnames.getD []).flatMap (removal disk_name) := by
  cases vgnames with
  | none => exact (List.append_nil _).symm
  | some vgs =>
      change (vgs.foldl (remove_vg spawn disk_name) d).commands = d.commands ++ vgs.flatMap _
      induction vgs generalizing d with
      | nil => exact (List.append_nil _).symm
      | cons vg vgs ih =>
          rw [List.foldl_cons, ih, remove_vg_commands, List.flatMap_cons, List.append_assoc]

/-- Groups are removed only for a volume on the disk, and no other volume is wiped. -/
def spares_other_disks (disk_name : String) (vgs : List volume_group)
    (commands : List (List String)) : Prop :=
  (∀ name, ["/sbin/vgremove", name, "-y"] ∈ commands →
    ∃ vg ∈ vgs, vg.name = name ∧ ∃ pv ∈ vg.pvs, on_disk pv disk_name) ∧
  ∀ pv, ["/sbin/pvremove", pv, "-y"] ∈ commands → on_disk pv disk_name

theorem mem_get_vg_pvs {vg : volume_group} {disk_name pv : String} :
    pv ∈ get_vg_pvs vg disk_name ↔ pv ∈ vg.pvs ∧ strstr pv disk_name = true :=
  List.mem_filter

/-- A group is removed for the volumes that are wiped with it. -/
theorem mem_removal {disk_name : String} {vg : volume_group} {c : List String} :
    c ∈ removal disk_name vg ↔ ∃ pv ∈ get_vg_pvs vg disk_name,
      c = ["/sbin/vgremove", vg.name, "-y"] ∨ c = ["/sbin/pvremove", pv, "-y"] := by
  unfold removal
  cases get_vg_pvs vg disk_name with
  | nil => simp
  | cons pv pvs =>
      simp only [List.mem_cons, List.mem_map, exists_eq_or_imp, List.map_cons]
      constructor
      · rintro (rfl | rfl | ⟨pv', hpv', rfl⟩)
        · exact Or.inl (Or.inl rfl)
        · exact Or.inl (Or.inr rfl)
        · exact Or.inr ⟨pv', hpv', Or.inr rfl⟩
      · rintro ((rfl | rfl) | ⟨pv', hpv', rfl | rfl⟩)
        · exact Or.inl rfl
        · exact Or.inr (Or.inl rfl)
        · exact Or.inl rfl
        · exact Or.inr (Or.inr ⟨pv', hpv', rfl⟩)

/-- **Other disks are spared exactly when the disk's name occurs in no name of theirs.** -/
theorem remove_all_vg_iff (spawn : Spawn) (vgnames : Option (List volume_group))
    (disk_name : String) :
    spares_other_disks disk_name (vgnames.getD [])
        (gdbus_remove_all_vg spawn ⟨[], []⟩ vgnames disk_name).2.commands ↔
      ∀ vg ∈ vgnames.getD [], ∀ pv ∈ vg.pvs, disk_name.toList <:+: pv.toList →
        on_disk pv disk_name := by
  rw [remove_all_vg_commands, List.nil_append]
  constructor
  · rintro ⟨-, hpv⟩ vg hvg pv hmem hin
    refine hpv pv (List.mem_flatMap.mpr ⟨vg, hvg, mem_removal.mpr ⟨pv, ?_, Or.inr rfl⟩⟩)
    exact mem_get_vg_pvs.mpr ⟨hmem, decide_eq_true hin⟩
  · intro h
    -- every volume that is found is on the disk
    have hfound : ∀ vg ∈ vgnames.getD [], ∀ pv ∈ get_vg_pvs vg disk_name,
        pv ∈ vg.pvs ∧ on_disk pv disk_name := fun vg hvg pv hpv => by
      obtain ⟨hmem, hin⟩ := mem_get_vg_pvs.mp hpv
      exact ⟨hmem, h vg hvg pv hmem (of_decide_eq_true hin)⟩
    refine ⟨fun name hname => ?_, fun pv hpv => ?_⟩
    · obtain ⟨vg, hvg, hrem⟩ := List.mem_flatMap.mp hname
      obtain ⟨pv, hpv, heq | heq⟩ := mem_removal.mp hrem
      · obtain ⟨hmem, hon⟩ := hfound vg hvg pv hpv
        refine ⟨vg, hvg, ?_, pv, hmem, hon⟩
        simpa using heq.symm
      · simp at heq
    · obtain ⟨vg, hvg, hrem⟩ := List.mem_flatMap.mp hpv
      obtain ⟨pv', hpv', heq | heq⟩ := mem_removal.mp hrem
      · simp at heq
      · obtain rfl : pv = pv' := by simpa using heq
        exact (hfound vg hvg _ hpv').2

/-- **Disk `/dev/sdaa` loses its group to `/dev/sda`.** -/
theorem remove_all_vg_takes_sdaa :
    (gdbus_remove_all_vg (fun _ _ => .exited true) ⟨[], []⟩ (some [⟨"data", ["/dev/sdaa1"]⟩])
        "/dev/sda").2.commands
      = [["/sbin/vgremove", "data", "-y"], ["/sbin/pvremove", "/dev/sdaa1", "-y"]] ∧
    ¬ on_disk "/dev/sdaa1" "/dev/sda" ∧
    ¬ spares_other_disks "/dev/sda" [⟨"data", ["/dev/sdaa1"]⟩]
      (gdbus_remove_all_vg (fun _ _ => .exited true) ⟨[], []⟩ (some [⟨"data", ["/dev/sdaa1"]⟩])
        "/dev/sda").2.commands := by
  have hcommands : (gdbus_remove_all_vg (fun _ _ => .exited true) ⟨[], []⟩
      (some [⟨"data", ["/dev/sdaa1"]⟩]) "/dev/sda").2.commands
      = [["/sbin/vgremove", "data", "-y"], ["/sbin/pvremove", "/dev/sdaa1", "-y"]] := by decide
  have hother : ¬ on_disk "/dev/sdaa1" "/dev/sda" := by
    rintro ⟨rest, heq, hrest⟩
    obtain rfl : ['a', '1'] = rest := List.append_cancel_left
      (show "/dev/sda".toList ++ ['a', '1'] = "/dev/sda".toList ++ rest from heq)
    rcases hrest with h | ⟨-, h⟩ | ⟨n, h, -⟩
    · cases h
    · exact absurd (h 'a' (by decide)) (by decide)
    · cases h
  refine ⟨hcommands, hother, fun h => hother (h.2 _ ?_)⟩
  rw [hcommands]
  decide

end SysbakAdmin.Disk

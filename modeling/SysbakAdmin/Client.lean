/-
The client side of a whole-disk restore: `sysbak-check.c`, `sysbak_admin_restore_async` of
`sysbak-extfs.c` and the restore functions of `sysbak-disk.c`.

The client looks at the machine and sends requests to the daemon, some of which it waits
for. What it finds when it looks, and what it is answered, may depend on every request
sent before: the machine is a function of them (`Env`). What the daemon does with a
request is modelled elsewhere; here a call is the list of what it sends.

Memory is never short, and the paths it builds are valid.

The definitions keep the order of the source, check by check and request by request, since
the order is what the modules above are about: `DiskRestore` asks what has been sent when a
restore is refused, `LvmOrder` in which order volumes are made and filled, and `DiskInfo`
whether the groups of the file name the devices they came from. A function that sends
returns the session after it; one whose result is looked at returns both.
-/
import SysbakAdmin.KeyFile

set_option autoImplicit false

namespace SysbakAdmin.Client

open KeyFile

/-! ## The machine and the requests -/

/-- The calls of the daemon's interface that a disk restore makes. -/
inductive request where
  | remove_all_vg (disk_name : chars)
  | get_source_use_size (file_path : chars)
  | get_disk_size (dev_name : chars)
  | backup_disk_mbr (source target : chars)
  | restore_partition_table (source target : chars)
  | search_file_data (filepath data : chars)
  | create_pv (file uuid device : chars)
  | restore_lvm_meta (file vgname : chars)
  | restart_vg (vgname : chars)
  | sysbak_restore (source target : chars) (overwrite : Bool)
  deriving DecidableEq, Repr

/-- What the client finds at one moment. -/
structure Machine where
  /-- `access (path, F_OK)` -/
  f_ok : chars → Bool
  /-- `access (path, R_OK)` -/
  r_ok : chars → Bool
  realpath : chars → Option chars
  /-- the devices of the mount table, unless it cannot be opened -/
  mtab : Option (List chars)
  /-- the names in a directory, unless it cannot be opened -/
  g_dir_open : chars → Option (List chars)
  g_key_file_load_from_file : chars → Except chars key_file
  /-- the answer to a request for a `gboolean`; `false` too when the call fails -/
  answers : request → Bool
  /-- the answer to a request for a size, unless the call fails -/
  size : request → Option ℕ

/-- The machine after any requests. -/
abbrev Env := List request → Machine

/-- What a call has done that can be seen from outside: the requests it has sent to the
daemon, in their order, and the messages of its error signals. -/
structure Session where
  sent : List request
  errors : List chars
  deriving DecidableEq, Repr

def Session.new : Session := ⟨[], []⟩

def send (c : Session) (r : request) : Session := { c with sent := c.sent ++ [r] }

/-- `sysbak_gdbus_emit_sysbak_error`, with code `-1`. -/
def emit_sysbak_error (c : Session) (message : chars) : Session :=
  { c with errors := c.errors ++ [message] }

@[simp] theorem send_sent (c : Session) (r : request) : (send c r).sent = c.sent ++ [r] := rfl

@[simp] theorem emit_sysbak_error_sent (c : Session) (message : chars) :
    (emit_sysbak_error c message).sent = c.sent := rfl

/-! ## `sysbak-check.c` -/

def check_file_device (m : Machine) (path : chars) : Bool := m.f_ok path

def check_file_permission (m : Machine) (path : chars) : Bool := m.r_ok path

/-- `check_device_mount`: some entry of the table has the same real path. -/
def check_device_mount (m : Machine) (device : chars) : Bool :=
  match m.realpath device, m.mtab with
  | some real_file, some mtab => mtab.any fun mnt_fsname => m.realpath mnt_fsname = some real_file
  | _, _ => false

/-! ## Restoring one partition -/

/-- `is_lvm` of `sysbak-disk.c`. -/
def is_lvm (group : chars) : Bool := decide ('-' ∈ group)

/-- `is_lvm` of `sysbak-extfs.c`: anything but a path with one separator, so every path
under `/dev`. -/
def extfs_is_lvm (dev_name : chars) : Bool := decide (dev_name.count '/' ≠ 1)

/-- `base_error` of `sysbak_admin_restore_async`. -/
def restore_base_error : chars := "Restore image to partition failed".toList

/-- `sysbak_admin_restore_async`. -/
def sysbak_admin_restore_async (env : Env) (c : Session) (source target : chars)
    (overwrite : Bool) : Bool × Session :=
  if !check_file_device (env c.sent) source then
    (false, emit_sysbak_error c
      (restore_base_error ++ ' ' :: source ++ " device does not exist".toList))
  else if !extfs_is_lvm target && !check_file_device (env c.sent) target then
    (false, emit_sysbak_error c
      (restore_base_error ++ ' ' :: target ++ " device does not exist".toList))
  else if check_device_mount (env c.sent) target then
    (false, emit_sysbak_error c (restore_base_error ++ " Please umount the ".toList ++ target
      ++ " to be backed up".toList))
  else (true, send c (.sysbak_restore source target overwrite))

/-- `restore_disk_partition_data`. -/
def restore_disk_partition_data (env : Env) (c : Session) (file_name dev_name : chars) :
    Bool × Session := sysbak_admin_restore_async env c file_name dev_name true

/-! ## The volume groups -/

/-- `g_build_filename`, of a directory without a trailing separator. -/
def g_build_filename (dir_path fn : chars) : chars := dir_path ++ '/' :: fn

/-- `g_str_has_prefix (fn, "lvm-")`. -/
def is_lvm_file (fn : chars) : Bool := "lvm-".toList.isPrefixOf fn

/-- `set_disk_lvm_metadata`. -/
def set_disk_lvm_metadata (env : Env) (c : Session) (source target : chars) : Session :=
  if check_file_device (env c.sent) source then send c (.restore_lvm_meta source target) else c

/-- `restart_lvm_vg`. -/
def restart_lvm_vg (c : Session) (source : chars) : Session := send c (.restart_vg source)

/-- One name of the directory in `activation_lvm_pv`. -/
def activate_file (env : Env) (dir_path : chars) (c : Session) (fn : chars) : Session :=
  if is_lvm_file fn then
    restart_lvm_vg (set_disk_lvm_metadata env c (g_build_filename dir_path fn) (fn.drop 4))
      (fn.drop 4)
  else c

/-- `activation_lvm_pv`: `none` is `FALSE`. -/
def activation_lvm_pv (env : Env) (c : Session) (dir_path : chars) : Option Session :=
  ((env c.sent).g_dir_open dir_path).map fun names => names.foldl (activate_file env dir_path) c

/-- `create_lvm_pv`: what it returns, and the session. -/
def create_lvm_pv (env : Env) (c : Session) (source target uuid : chars) : Bool × Session :=
  if check_file_device (env c.sent) target && check_file_device (env c.sent) source then
    ((env c.sent).answers (.create_pv source uuid target), send c (.create_pv source uuid target))
  else (false, c)

/-- The loop of `restore_lvm_pv`, which ends at the first file that names the volume. -/
def restore_lvm_pv_loop (env : Env) (dir_path dev_name uuid : chars) :
    List chars → Session → Bool × Session
  | [], c => (false, c)
  | fn :: names, c =>
      if is_lvm_file fn then
        let filename := g_build_filename dir_path fn
        let is_vg := (env c.sent).answers (.search_file_data filename uuid)
        let c := send c (.search_file_data filename uuid)
        if is_vg then create_lvm_pv env c filename dev_name uuid
        else restore_lvm_pv_loop env dir_path dev_name uuid names c
      else restore_lvm_pv_loop env dir_path dev_name uuid names c

/-- `restore_lvm_pv`: what it returns, and the session. A group without a `uuid` is not looked
for. -/
def restore_lvm_pv (env : Env) (c : Session) (dir_path dev_name : chars) (uuid : Option chars) :
    Bool × Session :=
  match (env c.sent).g_dir_open dir_path, uuid with
  | some names, some uuid => restore_lvm_pv_loop env dir_path dev_name uuid names c
  | _, _ => (false, c)

/-! ## The groups of `disk-info.ini` -/

def disk_info_path (source : chars) : chars := source ++ "/disk-info.ini".toList

/-- The image of a group; `g_strconcat` ends at a name that is not there. -/
def image_file (source : chars) (name : Option chars) : chars :=
  match name with
  | some name => source ++ '/' :: name ++ ".img".toList
  | none => source ++ ['/']

/-- One group of `read_cfg_file_restore`: `none` where it returns at once. -/
def restore_group (env : Env) (k : key_file) (source target : chars) (c : Session) (group : chars) :
    Option Session :=
  if group = "end".toList then activation_lvm_pv env c source
  else
    let fs_type := k.g_key_file_get_string group "fstype".toList
    if fs_type = some "LVM2_member".toList then
      -- nobody looks at what it returns
      some (restore_lvm_pv env c source (target ++ group)
        (k.g_key_file_get_string group "uuid".toList)).2
    else if fs_type = some "free".toList then some c
    else
      let name := k.g_key_file_get_string group "name".toList
      let dev_name := if is_lvm group then "/dev/mapper/".toList ++ group else target ++ group
      some (restore_disk_partition_data env c (image_file source name) dev_name).2

/-- The groups one after the other. -/
def restore_groups (env : Env) (k : key_file) (source target : chars) : List chars → Session → Session
  | [], c => c
  | group :: groups, c =>
      match restore_group env k source target c group with
      | none => c
      | some c => restore_groups env k source target groups c

/-- `read_cfg_file_restore`, which always returns `FALSE`. -/
def read_cfg_file_restore (env : Env) (c : Session) (source target : chars) : Session :=
  if check_file_device (env c.sent) (disk_info_path source) then
    match (env c.sent).g_key_file_load_from_file (disk_info_path source) with
    | .error _ => c
    | .ok k => restore_groups env k source target k.groups c
  else c

/-! ## The checks of a disk restore -/

/-- The device that a name of `disk-info.ini` stands for. -/
def recorded_device (name : chars) : chars :=
  if is_lvm name then "/dev/mapper/".toList ++ name else "/dev/".toList ++ name

/-- The loop of `check_dev_is_mount`: whether a device is in use, up to the name `lvm`. -/
def check_groups_mount (m : Machine) (k : key_file) : List chars → Bool
  | [] => false
  | group :: groups =>
      let name := k.g_key_file_get_string group "name".toList
      if name = some "lvm".toList then false
      else if check_device_mount m (recorded_device (name.getD [])) then true
      else check_groups_mount m k groups

/-- `check_dev_is_mount`: the message, if it returns `TRUE`. -/
def check_dev_is_mount (m : Machine) (source : chars) : Option chars :=
  if !check_file_permission m (disk_info_path source) then
    some "source dir Permission denied".toList
  else if !check_file_device m (disk_info_path source) then
    some "source dir Non-existent".toList
  else
    match m.g_key_file_load_from_file (disk_info_path source) with
    | .error message => some message
    | .ok k => if check_groups_mount m k k.groups then some "Device in use".toList else none

/-! ## The disk -/

/-- `get_source_space_size`. -/
def get_source_space_size (env : Env) (c : Session) (config_path : chars) : ℕ × Session :=
  if check_file_device (env c.sent) config_path then
    (((env c.sent).size (.get_source_use_size config_path)).getD 0,
      send c (.get_source_use_size config_path))
  else (0, c)

/-- `get_disk_space_size`. -/
def get_disk_space_size (env : Env) (c : Session) (dev_name : chars) : ℕ × Session :=
  if check_file_device (env c.sent) dev_name then
    (((env c.sent).size (.get_disk_size dev_name)).getD 0, send c (.get_disk_size dev_name))
  else (0, c)

/-- `get_disk_mbr`, with which `restore_disk_mbr` writes. -/
def get_disk_mbr (env : Env) (c : Session) (source target : chars) : Bool × Session :=
  if check_file_device (env c.sent) source then
    ((env c.sent).answers (.backup_disk_mbr source target),
      send c (.backup_disk_mbr source target))
  else (false, c)

def restore_disk_mbr (env : Env) (c : Session) (source target : chars) : Bool × Session :=
  get_disk_mbr env c (source ++ "/disk-mbr".toList) target

/-- `set_disk_partition_table`, whose source is the device. -/
def set_disk_partition_table (env : Env) (c : Session) (source target : chars) : Bool × Session :=
  if check_file_device (env c.sent) source && check_file_device (env c.sent) target then
    ((env c.sent).answers (.restore_partition_table source target),
      send c (.restore_partition_table source target))
  else (false, c)

def restore_partition_table (env : Env) (c : Session) (source target : chars) : Bool × Session :=
  set_disk_partition_table env c target source

/-- `remove_disk_old_lvm`, which does not wait for the answer. -/
def remove_disk_old_lvm (c : Session) (disk_name : chars) : Session :=
  send c (.remove_all_vg disk_name)

/-- `sysbak_admin_restore_disk`. -/
def sysbak_admin_restore_disk (env : Env) (c : Session) (source target : chars) : Bool × Session :=
  if !check_file_device (env c.sent) target then
    (false, emit_sysbak_error c "Device does not exist".toList)
  else if !check_file_device (env c.sent) source then
    (false, emit_sysbak_error c "File does not exist".toList)
  else
    match check_dev_is_mount (env c.sent) source with
    | some error_message => (false, emit_sysbak_error c error_message)
    | none =>
        let c := remove_disk_old_lvm c target
        let file_path := source ++ "/disk-table".toList
        let (needed_space, c) := get_source_space_size env c file_path
        let (disk_space, c) := get_disk_space_size env c target
        if disk_space < needed_space then
          (false, emit_sysbak_error c "Insufficient storage space".toList)
        else
          let (ok, c) := restore_disk_mbr env c source target
          if !ok then
            (false, emit_sysbak_error c "Failed to recover the hard disk MBR".toList)
          else
            let (ok, c) := restore_partition_table env c file_path target
            if !ok then (false, c) else (true, read_cfg_file_restore env c source target)

end SysbakAdmin.Client

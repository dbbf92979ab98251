/-
The key file `disk-info.ini`, as GLib keeps it in memory: groups in the order in which
they were first set, each with its keys. Saving and loading keep both.

A path or a device name is a list of characters, since the code takes names apart and
puts them together.

Of the groups only the order and the keys matter. `g_key_file_set_string` changes the value
of a key or adds what is not there, and `get_set_string` is the law the other modules go by: a
key reads as it was last set, and every other key as before.

Comments and the translation of values are left out; the program uses neither. A key that is set
in a group that is not there makes the group, at the end of the file.
-/
import Mathlib.Data.List.Nodup
import Mathlib.Data.List.Infix

set_option autoImplicit false

namespace SysbakAdmin.KeyFile

/-- A C string. -/
abbrev chars := List Char

/-- A `GKeyFile`. -/
structure key_file where
  groups : List chars
  value : chars → chars → Option chars
  nodup : groups.Nodup

/-- `g_key_file_new`. -/
def g_key_file_new : key_file := ⟨[], fun _ _ => none, List.nodup_nil⟩

/-- `g_key_file_set_string`, with a group name that GLib takes. -/
def key_file.g_key_file_set_string (k : key_file) (group key s : chars) : key_file where
  groups := if group ∈ k.groups then k.groups else k.groups ++ [group]
  value g := if g = group then fun x => if x = key then some s else k.value g x else k.value g
  nodup := by
    split
    · exact k.nodup
    · rename_i h
      refine List.nodup_append.mpr ⟨k.nodup, List.nodup_singleton _, fun a ha b hb hab => h ?_⟩
      rwa [← List.mem_singleton.mp hb, ← hab]

/-- `g_key_file_get_string`, of a group that is there. -/
def key_file.g_key_file_get_string (k : key_file) (group key : chars) : Option chars :=
  k.value group key

@[simp] theorem get_set_string (k : key_file) (group key s g x : chars) :
    (k.g_key_file_set_string group key s).g_key_file_get_string g x
      = if g = group ∧ x = key then some s else k.g_key_file_get_string g x := by
  unfold key_file.g_key_file_get_string key_file.g_key_file_set_string
  by_cases hg : g = group <;> simp [hg]

theorem mem_groups_set_string (k : key_file) (group key s : chars) {g : chars} :
    g ∈ (k.g_key_file_set_string group key s).groups ↔ g ∈ k.groups ∨ g = group := by
  unfold key_file.g_key_file_set_string
  dsimp only
  split
  · rename_i h
    exact ⟨Or.inl, fun h' => h'.elim id (fun h'' => h'' ▸ h)⟩
  · simp

end SysbakAdmin.KeyFile

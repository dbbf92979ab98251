/-
What `open_target_device` does with a regular file that is already there.

The file may be opened for writing only when the caller asked to overwrite and it starts
with an image descriptor. Two tests guard this, `check_file_type` and `O_EXCL`, and both
hang on a `stat`: the first takes a file it cannot `stat` for one that is not there, the
second looks at the buffer of a `stat` whose result it ignores. `open_target_spares_iff`
says that these two are the only ways around the guards.

Every mode opens with `O_EXCL` unless the caller overwrites, and with `O_TRUNC` only behind
`check_file_type`. The proof goes over the modes and over what `stat` answers; the two ways
around the guards appear in it as the only cases that are left.

The kind of file is what `stat` would say, and whether a `stat` comes through is the machine's.
A file that is empty is left out, because there is nothing in it to be spared.
-/
import SysbakAdmin.Opening

set_option autoImplicit false

namespace SysbakAdmin.Opening

open LittleEndian ByteStore CInt CMemory Transfer FileIo PackedRecord
open Bitmap Checksum Io Share

/-! ## The guards -/

/-- A full descriptor in front, with the magic and its own CRC. It is what a file has to have for
the daemon to call it its own. -/
structure image_front (data : List Byte) : Prop where
  length_le : 110 ≤ data.length
  magic : data.take 15 = IMAGE_MAGIC
  crc_ok : crc CRC32_SEED (data.take 106) = (image_desc_layout.unpack (data.take 110)).crc

/-- The next `read` moves all it is asked for, up to a descriptor. -/
def reads_descriptor : List Outcome → Prop
  | [] => True
  | .upTo k :: _ => 110 ≤ k + 1
  | _ :: _ => False

/-- What lets an existing file through `check_file_type`. The two are not the same question: a
file that cannot be looked at is taken for a new one. -/
def passes_check (host : Host) (w : World) : Prop :=
  host.may_stat .check = false ∨
    host.may_open .check = true ∧ reads_descriptor w.sched ∧ image_front w.dfw.data

/-- The flags are chosen from a buffer that no `stat` filled, and it looks like the one of a
block device: `O_EXCL` is left out. -/
def misread_stat (host : Host) (mode : ℕ) : Prop :=
  (mode = RESTORE ∨ mode = BACK_PTP) ∧ host.may_stat .target = false ∧ host.junk_is_blk = true

/-- The two ways around the guards, for a file that may be opened at all. Each needs a `stat` that
fails on a file that is there. -/
def endangered (host : Host) (w : World) (mode : ℕ) (overwrite : Bool) : Prop :=
  host.may_open .target = true ∧
    (overwrite = true ∧ host.may_stat .check = false ∧ ¬ image_front w.dfw.data ∨
      overwrite = false ∧ misread_stat host mode ∧ passes_check host w)

/-- The existing file is spared: unless it is an image that may be overwritten, no
descriptor of it is returned and it is what it was. -/
def spares (w : World) (overwrite : Bool) (run : Run (ℤ × World)) : Prop :=
  ∃ r w', run = .ok (r, w') ∧
    (¬ (overwrite = true ∧ image_front w.dfw.data) →
      r ≤ 0 ∧ w'.dfw = w.dfw ∧ w'.target = w.target)

/-! ## The first guard

It reads the file it is to judge, through a descriptor of its own, and its answer stands for
what is in the file only where its `stat` comes through. -/

/-- The descriptor was read exactly when it is there and the `read` was not short. -/
theorem read_descriptor (sched : List Outcome) (f : File) :
    (∃ image, (read_one sched { f with pos := 0 } 110).1 = some image ∧ image.length = 110) ↔
      reads_descriptor sched ∧ 110 ≤ f.data.length := by
  cases sched with
  | nil => simp [read_one, reads_descriptor, slice]
  | cons o sched =>
      cases o with
      | upTo k =>
          have hmin : min (min (k + 1) 110) f.data.length = 110
              ↔ 110 ≤ k + 1 ∧ 110 ≤ f.data.length := by omega
          simpa [read_one, reads_descriptor, slice] using hmin
      | nothing => simp [read_one, reads_descriptor]
      | again => simp [read_one, reads_descriptor]
      | error => simp [read_one, reads_descriptor]

/-- A `read` of the whole descriptor finds the front of the file. -/
theorem read_descriptor_eq {sched : List Outcome} {f : File} {image : List Byte}
    (hread : (read_one sched { f with pos := 0 } 110).1 = some image)
    (hlen : image.length = 110) : image = f.data.take 110 := by
  cases sched with
  | nil => simpa [read_one, slice, eq_comm] using hread
  | cons o sched =>
      cases o with
      | upTo k =>
          obtain rfl : f.data.take (min (k + 1) 110) = image := by
            simpa [read_one, slice] using hread
          rw [List.length_take] at hlen
          rw [show min (k + 1) 110 = 110 by omega]
      | nothing =>
          obtain rfl : [] = image := by simpa [read_one] using hread
          simp at hlen
      | again => simp [read_one] at hread
      | error => simp [read_one] at hread

/-- **`check_file_type` passes a file that is there** exactly when its `stat` fails or it reads an
image descriptor. It reads the first bytes of the file only if its `stat` says that there is one,
and takes a failure for a file that is not there yet. -/
theorem check_file_type_iff {host : Host} {w w' : World} {ok : Bool}
    (hregular : w.target = .regular) (hdata : w.dfw.data ≠ [])
    (hrun : check_file_type host w = .ok (ok, w')) :
    ok = true ↔ passes_check host w := by
  unfold passes_check
  unfold check_file_type at hrun
  by_cases hstat : host.may_stat .check = false
  · rw [if_pos hstat] at hrun
    obtain ⟨rfl, -⟩ := Prod.mk.inj (Except.ok.inj hrun)
    simp [hstat]
  rw [if_neg hstat, hregular] at hrun
  dsimp only at hrun
  rw [if_neg (by simpa using hdata)] at hrun
  by_cases hopen : host.may_open .check = false
  · rw [if_pos hopen] at hrun
    obtain ⟨rfl, -⟩ := Prod.mk.inj (Except.ok.inj hrun)
    simp [hstat, hopen]
  rw [if_neg hopen, image_desc_size] at hrun
  have hread := read_descriptor w.sched w.dfw
  have hfront := @read_descriptor_eq w.sched w.dfw
  obtain ⟨image, sched, hone⟩ : ∃ image sched,
      read_one w.sched { w.dfw with pos := 0 } 110 = (image, sched) := ⟨_, _, rfl⟩
  rw [hone] at hrun hread hfront
  dsimp only at hrun hread hfront
  -- a short or failed `read` is refused
  by_cases hwhole : ∃ bytes, image = some bytes ∧ bytes.length = 110
  swap
  · have hrefused : ¬ (reads_descriptor w.sched ∧ image_front w.dfw.data) := by
      rintro ⟨hfull, hvalid⟩
      exact hwhole (hread.mpr ⟨hfull, hvalid.length_le⟩)
    have hfalse : ok = false := by
      cases image with
      | none =>
          exact (Prod.mk.inj (Except.ok.inj hrun)).1.symm
      | some bytes =>
          dsimp only at hrun
          rw [if_pos (fun h => hwhole ⟨bytes, rfl, h⟩)] at hrun
          exact (Prod.mk.inj (Except.ok.inj hrun)).1.symm
    simp [hfalse, hstat, hrefused]
  obtain ⟨bytes, rfl, hlen⟩ := hwhole
  obtain ⟨hfull, hlong⟩ := hread.mp ⟨bytes, rfl, hlen⟩
  obtain rfl := hfront rfl hlen
  have hopen' : host.may_open .check = true := by simpa using hopen
  simp only [hlen, ne_eq, not_true_eq_false, if_false, image_crc_ok _ hlen, ok_bind,
    pure_eq] at hrun
  rw [List.take_take, List.take_take, show min 15 110 = 15 from rfl,
    show min 106 110 = 106 from rfl] at hrun
  by_cases hmagic : w.dfw.data.take 15 = IMAGE_MAGIC
  · rw [if_neg (by simpa using hmagic)] at hrun
    obtain ⟨rfl, -⟩ := Prod.mk.inj (Except.ok.inj hrun)
    rw [decide_eq_true_iff]
    constructor
    · intro hcrc
      exact .inr ⟨hopen', hfull, hlong, hmagic, hcrc⟩
    · intro h
      exact (h.resolve_left hstat).2.2.crc_ok
  · rw [if_pos hmagic] at hrun
    obtain ⟨rfl, -⟩ := Prod.mk.inj (Except.ok.inj hrun)
    simp only [Bool.false_eq_true, false_iff]
    intro h
    exact hmagic (h.resolve_left hstat).2.2.magic

/-! ## The second guard

`O_EXCL` is the kernel's guard: an `open` with it fails on a file that is there, whatever the
daemon believes. -/

/-- What opening a regular file for writing does: refused, by permission or by `O_EXCL`,
or done. -/
theorem open_target_regular {host : Host} {w : World} {creat trunc excl : Bool}
    (hregular : w.target = .regular) :
    (host.may_open .target = true ∧ (creat && excl) = false ∧
        (open_target host w creat trunc excl).1 = 3) ∨
      (¬ (host.may_open .target = true ∧ (creat && excl) = false) ∧
        open_target host w creat trunc excl = (-1, w)) := by
  unfold open_target
  by_cases hopen : host.may_open .target = false
  · right
    rw [if_pos hopen]
    exact ⟨by simp [hopen], rfl⟩
  rw [if_neg hopen, hregular]
  have hopen' : host.may_open .target = true := by simpa using hopen
  by_cases hexcl : (creat && excl) = true
  · right
    exact ⟨by simp [hexcl], by simp only [hexcl, if_true]⟩
  · left
    exact ⟨hopen', by simpa using hexcl, by simp only [hexcl, if_false, Bool.false_eq_true]⟩

/-- The two modes that write a file anew always ask for `O_EXCL`. -/
theorem open_anew {host : Host} {w w₁ : World} {mode : ℕ} {overwrite : Bool}
    (hmode : mode = BACK_DD ∨ mode = BACK_PTF)
    (hcheck : check_file_type host w = .ok (true, w₁)) (hregular : w₁.target = .regular) :
    open_target_device host w mode overwrite
      = .ok (open_target host w₁ true true (!overwrite)) := by
  -- a regular file is no block device, whether its `stat` succeeds or not
  have hfile : is_block_type (host.may_stat .block) w₁.target = 0 := by
    simp [is_block_type, hregular]
  have hanew : mode = BACK_PTF ∨
      (if mode = BACK_DD then is_block_type (host.may_stat .block) w₁.target else -1) = 0 := by
    rcases hmode with h | h
    · right
      rw [if_pos h, hfile]
    · left
      exact h
  simp only [open_target_device, hcheck, ok_bind, Bool.not_true, Bool.false_eq_true, if_false]
  rw [if_pos hanew, pure_eq]

/-- The two modes that write into what is there ask for it unless they take the file for a
device. -/
theorem open_in_place {host : Host} {w w₁ : World} {mode : ℕ} {overwrite : Bool}
    (hmode : mode = RESTORE ∨ mode = BACK_PTP)
    (hcheck : check_file_type host w = .ok (true, w₁)) (hregular : w₁.target = .regular) :
    ∃ creat excl, open_target_device host w mode overwrite
        = .ok (open_target host w₁ creat false excl) ∧
      ((creat && excl) = false ↔ overwrite = true ∨ misread_stat host mode) := by
  have hnew : ¬ (mode = BACK_PTF ∨
      (if mode = BACK_DD then is_block_type (host.may_stat .block) w₁.target else -1) = 0) := by
    rcases hmode with h | h <;> simp [h, RESTORE, BACK_PTP, BACK_PTF, BACK_DD]
  have hthere : mode = RESTORE ∨ mode = BACK_PTP ∨
      (if mode = BACK_DD then is_block_type (host.may_stat .block) w₁.target else -1) = 1 := by
    rcases hmode with h | h
    · exact .inl h
    · exact .inr (.inl h)
  simp only [open_target_device, hcheck, ok_bind, Bool.not_true, Bool.false_eq_true, if_false]
  rw [if_neg hnew, if_pos hthere]
  have hblk : (if w₁.target = .missing ∨ host.may_stat .target = false then host.junk_is_blk
      else decide (w₁.target = .block)) = true ↔ misread_stat host mode := by
    rw [hregular]
    by_cases hstat : host.may_stat .target = false
    · simp [hstat, misread_stat, hmode]
    · simp [hstat, misread_stat]
  by_cases hmisread : misread_stat host mode
  · refine ⟨false, false, ?_, by simp [hmisread]⟩
    rw [if_pos (hblk.mpr hmisread), pure_eq]
  · refine ⟨true, !overwrite, ?_, by simp [hmisread]⟩
    rw [if_neg (fun h => hmisread (hblk.mp h)), pure_eq]

/-- **Every mode protects an existing file by `O_EXCL`** when the caller does not overwrite, as
long as the second `stat` is not misread. The flags are put together mode by mode from `overwrite`
and from what the second `stat` has left in its buffer, whose result nobody looks at. -/
theorem open_flags {host : Host} {w w₁ : World} {mode : ℕ} {overwrite : Bool}
    (hmode : mode = BACK_DD ∨ mode = BACK_PTF ∨ mode = BACK_PTP ∨ mode = RESTORE)
    (hcheck : check_file_type host w = .ok (true, w₁)) (hregular : w₁.target = .regular) :
    ∃ creat trunc excl, open_target_device host w mode overwrite
        = .ok (open_target host w₁ creat trunc excl) ∧
      ((creat && excl) = false ↔ overwrite = true ∨ misread_stat host mode) := by
  by_cases hanew : mode = BACK_DD ∨ mode = BACK_PTF
  · refine ⟨true, true, !overwrite, open_anew hanew hcheck hregular, ?_⟩
    have hstat : ¬ misread_stat host mode := by
      rintro ⟨h, -⟩
      rcases hanew with hm | hm
      · rw [hm] at h
        exact absurd h (by decide)
      · rw [hm] at h
        exact absurd h (by decide)
    simp [hstat]
  · have hplace : mode = RESTORE ∨ mode = BACK_PTP := by tauto
    obtain ⟨creat, excl, hrun, hiff⟩ :=
      @open_in_place host w w₁ mode overwrite hplace hcheck hregular
    exact ⟨creat, false, excl, hrun, hiff⟩

/-! ## Both -/

/-- **An existing file is spared** exactly when neither guard is bypassed: in every mode, a
non-empty regular file is opened for writing only with `overwrite` and an image descriptor in
front, unless the `stat` of `check_file_type` fails on a file that is no image, or the other
`stat` fails, with the stack looking like a block device, on one that passed. The condition is in
terms of the machine alone: what the two calls of `stat` answer, and what is in front of the file.
-/
theorem open_target_spares_iff (host : Host) (w : World) (mode : ℕ) (overwrite : Bool)
    (hmode : mode = BACK_DD ∨ mode = BACK_PTF ∨ mode = BACK_PTP ∨ mode = RESTORE)
    (hregular : w.target = .regular) (hdata : w.dfw.data ≠ []) :
    spares w overwrite (open_target_device host w mode overwrite)
      ↔ ¬ endangered host w mode overwrite := by
  obtain ⟨ok, w₁, hcheck, hprobe⟩ := check_file_type_spec host w
  have hpass := check_file_type_iff hregular hdata hcheck
  have hregular₁ : w₁.target = .regular := by rw [hprobe.target, hregular]
  cases ok with
  | false =>
      -- refused by the first guard
      have hstop : ¬ passes_check host w := fun h => Bool.false_ne_true (hpass.mpr h)
      have hrun : open_target_device host w mode overwrite = .ok (0, w₁) := by
        simp only [open_target_device, hcheck, ok_bind, Bool.not_false, if_true, pure_eq]
      constructor
      · rintro - ⟨-, ⟨-, hstat, -⟩ | ⟨-, -, hthrough⟩⟩
        · exact hstop (.inl hstat)
        · exact hstop hthrough
      · intro _
        exact ⟨0, w₁, hrun, fun _ => ⟨le_rfl, hprobe.dfw, hprobe.target⟩⟩
  | true =>
      have hthrough := hpass.mp rfl
      obtain ⟨creat, trunc, excl, hrun, hexcl⟩ :=
        @open_flags host w w₁ mode overwrite hmode hcheck hregular₁
      unfold spares
      rw [hrun]
      rcases @open_target_regular host w₁ creat trunc excl hregular₁ with
        ⟨hopen, hflags, hfd⟩ | ⟨hrefused, hfd⟩
      · -- the file is open for writing
        constructor
        · rintro ⟨r, w', hres, hspared⟩ ⟨-, hway⟩
          have hr : r = 3 := by rw [← hfd, Except.ok.inj hres]
          have himage : ¬ (overwrite = true ∧ image_front w.dfw.data) := by
            rcases hway with ⟨-, -, hforeign⟩ | ⟨hkeep, -⟩
            · exact fun h => hforeign h.2
            · simp [hkeep]
          exact absurd (hspared himage).1 (by omega)
        · intro hsafe
          refine ⟨_, _, rfl, fun himage => absurd ?_ hsafe⟩
          refine ⟨hopen, ?_⟩
          cases overwrite with
          | true =>
              left
              have hforeign : ¬ image_front w.dfw.data := fun h => himage ⟨rfl, h⟩
              exact ⟨rfl, hthrough.resolve_right fun h => hforeign h.2.2, hforeign⟩
          | false =>
              right
              exact ⟨rfl, (hexcl.mp hflags).resolve_left Bool.false_ne_true, hthrough⟩
      · -- refused by the second
        rw [hfd]
        constructor
        · rintro - ⟨hopen, hway⟩
          apply hrefused
          refine ⟨hopen, hexcl.mpr ?_⟩
          rcases hway with ⟨hover, -⟩ | ⟨-, hmisread, -⟩
          · exact .inl hover
          · exact .inr hmisread
        · intro _
          exact ⟨-1, w₁, rfl, fun _ => ⟨by norm_num, hprobe.dfw, hprobe.target⟩⟩

/-- A text of two characters where the target should be. -/
def text_file : World where
  dfr := ⟨[], 0, false⟩
  dfw := ⟨[0x68, 0x69], 0, true⟩
  source := .block
  target := .regular
  sched := []
  io_failed := 0
  signals := []
  copied_count := 0
  cks := .initial

/-- The text is no image: a restore of the device over it is refused, overwriting or not. -/
theorem text_file_spared :
    spares text_file true (open_target_device plain_host text_file RESTORE true) :=
  (open_target_spares_iff plain_host text_file RESTORE true (by decide) rfl (by decide)).mpr
    fun h => by
      rcases h.2 with ⟨-, hstat, -⟩ | ⟨hkeep, -⟩
      · exact absurd hstat (by decide)
      · exact absurd hkeep (by decide)

/-- A machine on which `stat` fails and `open` does not: the file system answers the one and
not the other. -/
def no_stat_host : Host := { plain_host with may_stat := fun _ => false }

/-- **Where `stat` fails the text is truncated**: a `ptf` backup over it opens it for writing and
empties it. With `overwrite` there is no `O_EXCL`, and the check has taken the file for one that
is not there. -/
theorem text_file_truncated :
    ¬ image_front text_file.dfw.data ∧
    open_target_device no_stat_host text_file BACK_PTF true
      = .ok (3, { text_file with dfw := ⟨[], 0, true⟩ }) ∧
    ¬ spares text_file true (open_target_device no_stat_host text_file BACK_PTF true) := by
  have hforeign : ¬ image_front text_file.dfw.data := fun h => absurd h.length_le (by decide)
  have hrun : open_target_device no_stat_host text_file BACK_PTF true
      = .ok (3, { text_file with dfw := ⟨[], 0, true⟩ }) := rfl
  refine ⟨hforeign, hrun, ?_⟩
  rw [hrun]
  rintro ⟨r, w', hres, hspared⟩
  have hr : r = 3 := (Prod.mk.inj (Except.ok.inj hres)).1.symm
  exact absurd (hspared fun h => hforeign h.2).1 (by omega)

end SysbakAdmin.Opening

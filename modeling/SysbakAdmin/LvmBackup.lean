/-
The volume group of a physical volume: `gdbus_search_file_data`, by which the daemon says
whether a metadata file names a volume, and what `restore_lvm_pv` makes of its answers: it
asks about the files of a backup one after the other and creates the volume from the first
it is told of.

The daemon reads one buffer of the file and puts no end to it, so what it searches is the
front of the file and whatever its stack held before. A character is a byte here, a file
that opens is read without an error, and no call is lost on its way.

`search_file_data_iff` is about one answer: it is right for every stack exactly when the
front of the file shows the name, or the file does not have it and holds a zero that ends
the search. `lvm_backup_found_iff` is about the loop over the files. Its hard direction
builds two machines, one with zeros on the stack and one with the `uuid` on it: the first
misses what the buffer does not show, and the second finds what the file does not hold.
-/
import SysbakAdmin.Client
import SysbakAdmin.Lib.CString

set_option autoImplicit false

namespace SysbakAdmin.LvmBackup

open KeyFile Client CString

/-! ## `gdbus_search_file_data` -/

/-- The stack before the call: `char buf[1024]` as it was left, and what lies above it. The
kernel ends a stack with zeros, so there is an end to any string on it. -/
structure Stack where
  buf : List Char
  above : List Char
  buf_length : buf.length = 1024
  ended : '\x00' ∈ above

/-- `read (fd,buf,1024)`. -/
def read_buf (content buf : List Char) : List Char :=
  content.take 1024 ++ buf.drop (content.take 1024).length

/-- `g_strrstr`, as a test for `NULL`. -/
def g_strrstr (haystack needle : chars) : Bool := decide (needle <:+: haystack)

/-- `gdbus_search_file_data`; no content is a file that cannot be opened. -/
def gdbus_search_file_data (s : Stack) (content : Option (List Char)) (data : chars) : Bool :=
  match content with
  | none => false
  | some content => g_strrstr (c_string (read_buf content s.buf ++ s.above)) data

/-! ## What is searched -/

/-- The metadata file names the volume. -/
def occurs (content : Option (List Char)) (uuid : chars) : Prop :=
  ∃ c, content = some c ∧ uuid <:+: c

/-- It names it in the first `1024` bytes, before any zero. -/
def shown (content : Option (List Char)) (uuid : chars) : Prop :=
  ∃ c, content = some c ∧ uuid <:+: c_string (c.take 1024)

/-- The string that is searched ends in the file: no file, or a zero in the first `1024`
bytes of it. -/
def settled (content : Option (List Char)) : Prop := ∀ c, content = some c → '\x00' ∈ c.take 1024

theorem shown.occurs {content : Option (List Char)} {uuid : chars} (h : shown content uuid) :
    occurs content uuid := by
  obtain ⟨c, hc, hshown⟩ := h
  refine ⟨c, hc, hshown.trans ?_⟩
  exact c_string_front.isInfix.trans (List.take_prefix _ _).isInfix

/-- A stack of zeros. -/
def zeroed : Stack :=
  ⟨List.replicate 1024 '\x00', ['\x00'], List.length_replicate, List.mem_singleton_self _⟩

/-- A stack on which the `uuid` was left above the buffer, as an earlier call leaves it. -/
def left_over (uuid : chars) : Stack where
  buf := List.replicate 1024 ' '
  above := uuid ++ ['\x00']
  buf_length := List.length_replicate
  ended := List.mem_append_right _ (List.mem_singleton_self _)

section Search

variable {content : Option (List Char)} {uuid : chars}

/-- The front of the file, and the stack after it. -/
theorem search_some (s : Stack) (c : List Char) (data : chars) :
    gdbus_search_file_data s (some c) data
      = decide (data <:+: c_string (c.take 1024
          ++ (s.buf.drop (c.take 1024).length ++ s.above))) := by
  unfold gdbus_search_file_data g_strrstr read_buf
  dsimp only
  rw [List.append_assoc]

/-- A name in the front of the file is found, whatever is on the stack. -/
theorem search_of_shown (h : shown content uuid) (s : Stack) :
    gdbus_search_file_data s content uuid = true := by
  obtain ⟨c, rfl, hshown⟩ := h
  rw [search_some]
  exact decide_eq_true (hshown.trans c_string_grows.isInfix)

/-- A file with an end in the buffer is never taken for one that names the volume. -/
theorem search_of_settled (h : settled content) (hno : ¬ occurs content uuid) (s : Stack) :
    gdbus_search_file_data s content uuid = false := by
  cases content with
  | none => rfl
  | some c =>
      rw [search_some, c_string_append_of_mem (h c rfl)]
      refine decide_eq_false fun hin => hno (shown.occurs ⟨c, rfl, hin⟩)

/-- On a stack of zeros nothing but the front of the file is searched. The search ends at the
first zero, which is then the one behind the file at the latest. -/
theorem search_zeroed : gdbus_search_file_data zeroed content uuid = true ↔ shown content uuid := by
  cases content with
  | none => exact iff_of_false Bool.false_ne_true fun ⟨_, h, _⟩ => nomatch h
  | some c =>
      have hrest : c_string (zeroed.buf.drop (c.take 1024).length ++ zeroed.above) = [] := by
        unfold zeroed
        rw [List.drop_replicate]
        cases 1024 - (c.take 1024).length with
        | zero => rfl
        | succ n => rw [List.replicate_succ, List.cons_append, c_string_cons, if_pos rfl]
      have hfront : c_string (c.take 1024 ++ (zeroed.buf.drop (c.take 1024).length ++ zeroed.above))
          = c_string (c.take 1024) := by
        by_cases hnul : '\x00' ∈ c.take 1024
        · exact c_string_append_of_mem hnul
        · rw [c_string_append_of_not_mem hnul, hrest, List.append_nil, c_string_of_not_mem hnul]
      rw [search_some, hfront, decide_eq_true_iff]
      exact ⟨fun h => ⟨c, rfl, h⟩, fun ⟨_, hc, h⟩ => Option.some.inj hc ▸ h⟩

/-- **Without an end in the buffer, what an earlier call left behind is found**: the file is said
to name a volume that it need not name. `strstr` goes on behind the file's last byte, over
whatever the array on the stack held. -/
theorem search_left_over (hu : '\x00' ∉ uuid) (h : ¬ settled content) :
    gdbus_search_file_data (left_over uuid) content uuid = true := by
  unfold settled at h
  push Not at h
  obtain ⟨c, rfl, hnul⟩ := h
  have hblank : '\x00' ∉ (left_over uuid).buf.drop (c.take 1024).length := by
    unfold left_over
    rw [List.drop_replicate]
    simp [List.mem_replicate]
  have habove : c_string (left_over uuid).above = uuid := by
    have hend : c_string ['\x00'] = [] := rfl
    rw [left_over, c_string_append_of_not_mem hu, hend, List.append_nil]
  rw [search_some, c_string_append_of_not_mem hnul, c_string_append_of_not_mem hblank, habove,
    decide_eq_true_iff, ← List.append_assoc]
  exact (List.suffix_append _ _).isInfix

/-- The daemon answers `TRUE` exactly for the files that name the volume, whatever is on its
stack. The stack is quantified over, because what the buffer holds behind the file is whatever was
there. -/
def always_answered (content : Option (List Char)) (uuid : chars) : Prop :=
  ∀ s, gdbus_search_file_data s content uuid = true ↔ occurs content uuid

/-- **The answer is the right one for any stack** if and only if the front of the file shows the
name, or the file does not have it and ends the search itself. For the converse the stack is
chosen: zeros, where the answer is that of the file's front, and the name itself, where a search
that is not ended comes to it. -/
theorem search_file_data_iff (hu : '\x00' ∉ uuid) :
    always_answered content uuid ↔ shown content uuid ∨ settled content ∧ ¬ occurs content uuid := by
  constructor
  · intro h
    by_cases hin : occurs content uuid
    · exact Or.inl (search_zeroed.mp ((h zeroed).mpr hin))
    · refine Or.inr ⟨?_, hin⟩
      by_contra hnot
      exact hin ((h (left_over uuid)).mp (search_left_over hu hnot))
  · rintro (hshown | ⟨hsettled, hin⟩) s
    · exact iff_of_true (search_of_shown hshown s) hshown.occurs
    · rw [search_of_settled hsettled hin s]
      exact iff_of_false Bool.false_ne_true hin

end Search

/-! ## A run of the loop -/

/-- The request makes a physical volume. -/
def creates : request → Bool
  | .create_pv .. => true
  | _ => false

/-- A session after more requests. -/
def after (c : Session) (asked : List request) : Session := { c with sent := c.sent ++ asked }

/-- Requests none of which makes a physical volume. -/
def only_asks (asked : List request) : Prop := ∀ r ∈ asked, creates r = false

theorem only_asks_nil : only_asks [] := fun _ h => nomatch h

theorem only_asks_search (file uuid : chars) : only_asks [.search_file_data file uuid] := by
  intro r hr
  rw [List.mem_singleton.mp hr]
  rfl

theorem only_asks.append {asked more : List request} (h : only_asks asked) (h' : only_asks more) :
    only_asks (asked ++ more) := by
  intro r hr
  exact (List.mem_append.mp hr).elim (h r) (h' r)

theorem after_nil (c : Session) : after c [] = c := by
  unfold after
  rw [List.append_nil]

theorem after_append (c : Session) (asked more : List request) :
    after (after c asked) more = after c (asked ++ more) := by
  unfold after
  simp only [List.append_assoc]

theorem after_inj {c : Session} {asked more : List request} (h : after c asked = after c more) :
    asked = more := List.append_cancel_left (congrArg Session.sent h)

/-- A session that has made a volume is not one that has only asked. -/
theorem after_ne_create {c : Session} {asked more : List request} (h : only_asks asked)
    (file uuid device : chars) : after c asked ≠ after c (more ++ [.create_pv file uuid device]) := by
  intro heq
  have hmem : request.create_pv file uuid device ∈ asked := by
    rw [after_inj heq]
    exact List.mem_append_right _ List.mem_cons_self
  exact Bool.false_ne_true (h _ hmem).symm

theorem send_eq_after (c : Session) (r : request) : send c r = after c [r] := rfl

theorem after_send (c : Session) (r : request) (asked : List request) :
    after (send c r) asked = after c ([r] ++ asked) := by
  rw [send_eq_after, after_append]

section Loop

variable {env : Env} {dir_path dev_name uuid : chars}

theorem loop_cons_lvm {fn : chars} (hlvm : is_lvm_file fn = true) (names : List chars) (c : Session) :
    restore_lvm_pv_loop env dir_path dev_name uuid (fn :: names) c
      = let filename := g_build_filename dir_path fn
        let c' := send c (.search_file_data filename uuid)
        if (env c.sent).answers (.search_file_data filename uuid) then
          create_lvm_pv env c' filename dev_name uuid
        else restore_lvm_pv_loop env dir_path dev_name uuid names c' := by
  rw [restore_lvm_pv_loop, if_pos hlvm]

theorem loop_cons_other {fn : chars} (hlvm : ¬ is_lvm_file fn = true) (names : List chars)
    (c : Session) :
    restore_lvm_pv_loop env dir_path dev_name uuid (fn :: names) c
      = restore_lvm_pv_loop env dir_path dev_name uuid names c := by
  rw [restore_lvm_pv_loop, if_neg hlvm]

/-- The files that are answered `FALSE` are passed over. Each leaves one request behind, which
asks and makes nothing. -/
theorem loop_skips {pre : List chars} (rest : List chars)
    (hpre : ∀ fn ∈ pre, is_lvm_file fn = true → ∀ sent,
      (env sent).answers (.search_file_data (g_build_filename dir_path fn) uuid) = false)
    (c : Session) :
    ∃ asked, only_asks asked ∧ restore_lvm_pv_loop env dir_path dev_name uuid (pre ++ rest) c
      = restore_lvm_pv_loop env dir_path dev_name uuid rest (after c asked) := by
  induction pre generalizing c with
  | nil => exact ⟨[], only_asks_nil, by rw [after_nil, List.nil_append]⟩
  | cons fn pre ih =>
      have ih' := ih fun fn' h => hpre fn' (List.mem_cons_of_mem _ h)
      rw [List.cons_append]
      by_cases hlvm : is_lvm_file fn = true
      · obtain ⟨asked, hasked, hrun⟩ :=
          ih' (send c (.search_file_data (g_build_filename dir_path fn) uuid))
        refine ⟨_, (only_asks_search (g_build_filename dir_path fn) uuid).append hasked, ?_⟩
        rw [loop_cons_lvm hlvm]
        dsimp only
        rw [hpre fn List.mem_cons_self hlvm, if_neg Bool.false_ne_true, hrun, after_send]
      · rw [loop_cons_other hlvm]
        exact ih' c

/-- The first file that is answered `TRUE` ends the loop. -/
theorem loop_finds {fn : chars} (post : List chars) (hlvm : is_lvm_file fn = true) (c : Session)
    (hhit : (env c.sent).answers (.search_file_data (g_build_filename dir_path fn) uuid) = true) :
    restore_lvm_pv_loop env dir_path dev_name uuid (fn :: post) c
      = create_lvm_pv env (after c [.search_file_data (g_build_filename dir_path fn) uuid])
          (g_build_filename dir_path fn) dev_name uuid := by
  rw [loop_cons_lvm hlvm]
  dsimp only
  rw [hhit, if_pos rfl, send_eq_after]

/-- Without the device nothing is made of it. -/
theorem loop_without_device (hdev : ∀ sent, (env sent).f_ok dev_name = false) (names : List chars)
    (c : Session) :
    ∃ asked, only_asks asked ∧
      restore_lvm_pv_loop env dir_path dev_name uuid names c = (false, after c asked) := by
  induction names generalizing c with
  | nil => exact ⟨[], only_asks_nil, by rw [after_nil]; rfl⟩
  | cons fn names ih =>
      by_cases hlvm : is_lvm_file fn = true
      · obtain ⟨asked, hasked, hrun⟩ :=
          ih (send c (.search_file_data (g_build_filename dir_path fn) uuid))
        rw [loop_cons_lvm hlvm]
        dsimp only
        split
        · refine ⟨_, only_asks_search (g_build_filename dir_path fn) uuid, ?_⟩
          rw [← send_eq_after]
          unfold create_lvm_pv check_file_device
          rw [hdev, Bool.false_and, if_neg Bool.false_ne_true]
        · refine ⟨_, (only_asks_search (g_build_filename dir_path fn) uuid).append hasked, ?_⟩
          rw [hrun, after_send]
      · rw [loop_cons_other hlvm]
        exact ih c

end Loop

/-! ## The directory of a backup -/

/-- A backup: its directory with the names in the order in which `g_dir_read_name` gives
them, what the daemon reads at a path, and the paths that are there, the device among them. -/
structure Backup where
  dir_path : chars
  names : List chars
  content : chars → Option (List Char)
  f_ok : chars → Bool
  nodup : names.Nodup
  content_ok : ∀ path c, content path = some c → f_ok path = true

/-- The path that `restore_lvm_pv` builds for a name. -/
def Backup.path (d : Backup) (fn : chars) : chars := g_build_filename d.dir_path fn

/-- The file behind a name. -/
def Backup.file (d : Backup) (fn : chars) : Option (List Char) := d.content (d.path fn)

/-- A metadata file of the directory that has the `uuid` in its text. -/
structure Backup.contains (d : Backup) (uuid fn : chars) : Prop where
  mem : fn ∈ d.names
  lvm : is_lvm_file fn = true
  occurs : occurs (d.file fn) uuid

/-- The only such file. -/
def Backup.only (d : Backup) (uuid fn : chars) : Prop :=
  d.contains uuid fn ∧ ∀ fn', d.contains uuid fn' → fn' = fn

/-- A machine that holds the backup. What the stack of the daemon holds at a request is anything.
It is the daemon of this module behind the client of another, so that the answers are those of its
code. -/
structure serves (d : Backup) (env : Env) : Prop where
  g_dir_open : ∀ sent, (env sent).g_dir_open d.dir_path = some d.names
  f_ok : ∀ sent, (env sent).f_ok = d.f_ok
  search : ∀ sent path uuid, ∃ s, (env sent).answers (.search_file_data path uuid)
    = gdbus_search_file_data s (d.content path) uuid

section Restore

variable (d : Backup) (dev_name uuid : chars)

/-- The last request makes the volume from `fn`, and its answer is the result. -/
def creates_from (env : Env) (c : Session) (fn : chars) : Prop :=
  ∃ asked, only_asks asked ∧ restore_lvm_pv env c d.dir_path dev_name (some uuid)
    = ((env (after c asked).sent).answers (.create_pv (d.path fn) uuid dev_name),
        after c (asked ++ [.create_pv (d.path fn) uuid dev_name]))

/-- `FALSE`, and no request that makes a volume. -/
def creates_nothing (env : Env) (c : Session) : Prop :=
  ∃ asked, only_asks asked ∧
    restore_lvm_pv env c d.dir_path dev_name (some uuid) = (false, after c asked)

/-- The right metadata is found for the volume: the only file that names it, or none. The case of
no such file is part of it: then no volume may be made. -/
structure finds_backup (env : Env) (c : Session) : Prop where
  one : ∀ fn, d.only uuid fn → creates_from d dev_name uuid env c fn
  none : (∀ fn, ¬ d.contains uuid fn) → creates_nothing d dev_name uuid env c

/-- It is found on every machine that holds the backup. -/
def always_found : Prop := ∀ env c, serves d env → finds_backup d dev_name uuid env c

/-- When it is found for certain. The device is there, the only file shows the `uuid` in its
first `1024` bytes, and each file that is asked about without naming the volume ends the
search itself. -/
structure found_when : Prop where
  one : ∀ pre fn post, d.names = pre ++ fn :: post → d.only uuid fn →
    d.f_ok dev_name = true ∧ shown (d.file fn) uuid ∧
      ∀ fn' ∈ pre, is_lvm_file fn' = true → settled (d.file fn')
  none : (∀ fn, ¬ d.contains uuid fn) → d.f_ok dev_name = true →
    ∀ fn ∈ d.names, is_lvm_file fn = true → settled (d.file fn)

variable {d dev_name uuid} {env : Env}

theorem restore_lvm_pv_eq (h : serves d env) (c : Session) :
    restore_lvm_pv env c d.dir_path dev_name (some uuid)
      = restore_lvm_pv_loop env d.dir_path dev_name uuid d.names c := by
  unfold restore_lvm_pv
  rw [h.g_dir_open]

theorem create_lvm_pv_eq (h : serves d env) (hdev : d.f_ok dev_name = true) {fn : chars}
    (hfile : occurs (d.file fn) uuid) (c : Session) :
    create_lvm_pv env c (d.path fn) dev_name uuid
      = ((env c.sent).answers (.create_pv (d.path fn) uuid dev_name),
          after c [.create_pv (d.path fn) uuid dev_name]) := by
  obtain ⟨content, hcontent, _⟩ := hfile
  have hpath : d.f_ok (d.path fn) = true := d.content_ok _ _ hcontent
  unfold create_lvm_pv check_file_device
  rw [h.f_ok, hdev, hpath, Bool.and_self, if_pos rfl, send_eq_after]

/-- An answer that no stack can change. -/
theorem serves.answer_false (h : serves d env) {fn : chars} (hsettled : settled (d.file fn))
    (hno : ¬ occurs (d.file fn) uuid) (sent : List request) :
    (env sent).answers (.search_file_data (g_build_filename d.dir_path fn) uuid) = false := by
  obtain ⟨s, hs⟩ := h.search sent (d.path fn) uuid
  exact hs.trans (search_of_settled hsettled hno s)

theorem serves.answer_true (h : serves d env) {fn : chars} (hshown : shown (d.file fn) uuid)
    (sent : List request) :
    (env sent).answers (.search_file_data (g_build_filename d.dir_path fn) uuid) = true := by
  obtain ⟨s, hs⟩ := h.search sent (d.path fn) uuid
  exact hs.trans (search_of_shown hshown s)

/-- Whatever the stacks hold, the backup is found. -/
theorem found_when.finds (hw : found_when d dev_name uuid) (h : serves d env) (c : Session) :
    finds_backup d dev_name uuid env c := by
  constructor
  · rintro fn ⟨hfn, honly⟩
    obtain ⟨pre, post, hnames⟩ := List.append_of_mem hfn.mem
    obtain ⟨hdev, hshown, hpre⟩ := hw.one pre fn post hnames ⟨hfn, honly⟩
    have hnot : fn ∉ pre := by
      have hnodup := d.nodup
      rw [hnames] at hnodup
      exact fun hmem => (List.nodup_append.mp hnodup).2.2 fn hmem fn List.mem_cons_self rfl
    -- the files in front of the right one are answered with `FALSE`
    have hskip : ∀ fn' ∈ pre, is_lvm_file fn' = true → ∀ sent,
        (env sent).answers (.search_file_data (g_build_filename d.dir_path fn') uuid) = false := by
      intro fn' hmem hlvm
      refine h.answer_false (hpre fn' hmem hlvm) fun hin => ?_
      have hmem' : fn' ∈ d.names := by rw [hnames]; exact List.mem_append_left _ hmem
      exact hnot (honly fn' ⟨hmem', hlvm, hin⟩ ▸ hmem)
    obtain ⟨asked, hasked, hrun⟩ := loop_skips (fn :: post) hskip c
    refine ⟨_, hasked.append (only_asks_search (d.path fn) uuid), ?_⟩
    rw [restore_lvm_pv_eq h, hnames, hrun, loop_finds post hfn.lvm _ (h.answer_true hshown _),
      after_append]
    exact (create_lvm_pv_eq h hdev hfn.occurs _).trans (by rw [after_append]; rfl)
  · intro hno
    unfold creates_nothing
    rw [restore_lvm_pv_eq h]
    by_cases hdev : d.f_ok dev_name = true
    · have hskip : ∀ fn ∈ d.names, is_lvm_file fn = true → ∀ sent,
          (env sent).answers (.search_file_data (g_build_filename d.dir_path fn) uuid) = false :=
        fun fn hmem hlvm => h.answer_false (hw.none hno hdev fn hmem hlvm)
          fun hin => hno fn ⟨hmem, hlvm, hin⟩
      obtain ⟨asked, hasked, hrun⟩ := loop_skips [] hskip c
      rw [List.append_nil] at hrun
      exact ⟨asked, hasked, hrun⟩
    · exact loop_without_device (fun sent => by rw [h.f_ok]; exact Bool.eq_false_iff.mpr hdev) _ c

/-! ## A daemon whose stack is always the same

It is the machine for the hard direction, once with zeros on its stack and once with the `uuid`.
-/

/-- The machine that holds `d`, with the stack `s` at every request. -/
def Backup.machine (d : Backup) (s : Stack) : Machine where
  f_ok := d.f_ok
  r_ok := d.f_ok
  realpath _ := none
  mtab := none
  g_dir_open _ := some d.names
  g_key_file_load_from_file _ := .error []
  answers
    | .search_file_data path uuid => gdbus_search_file_data s (d.content path) uuid
    | _ => true
  size _ := none

theorem machine_serves (d : Backup) (s : Stack) : serves d fun _ => d.machine s where
  g_dir_open _ := rfl
  f_ok _ := rfl
  search _ _ _ := ⟨s, rfl⟩

/-- The file is asked about and the answer is `TRUE`. -/
def hit (d : Backup) (s : Stack) (uuid fn : chars) : Bool :=
  is_lvm_file fn && gdbus_search_file_data s (d.file fn) uuid

/-- On such a machine the run ends at the first hit. -/
theorem machine_run (d : Backup) (dev_name uuid : chars) (s : Stack) (c : Session) :
    ∃ asked, only_asks asked ∧
      restore_lvm_pv (fun _ => d.machine s) c d.dir_path dev_name (some uuid)
      = match d.names.find? (hit d s uuid) with
        | none => (false, after c asked)
        | some fn =>
            create_lvm_pv (fun _ => d.machine s) (after c asked) (d.path fn) dev_name uuid := by
  have hmiss : ∀ fn, hit d s uuid fn = false → is_lvm_file fn = true → List request →
      (d.machine s).answers (.search_file_data (g_build_filename d.dir_path fn) uuid) = false := by
    intro fn hfn hlvm _
    rwa [hit, hlvm, Bool.true_and] at hfn
  rw [restore_lvm_pv_eq (machine_serves d s)]
  cases hfind : d.names.find? (hit d s uuid) with
  | none =>
      have hall := List.find?_eq_none.mp hfind
      obtain ⟨asked, hasked, hrun⟩ := loop_skips []
        (fun fn hmem => hmiss fn (Bool.eq_false_iff.mpr (hall fn hmem))) c
      rw [List.append_nil] at hrun
      exact ⟨asked, hasked, hrun⟩
  | some fn =>
      -- the files in front of the first hit are passed over
      obtain ⟨hfn, pre, post, hnames, hpre⟩ := List.find?_eq_some_iff_append.mp hfind
      obtain ⟨hlvm, hfound⟩ := Bool.and_eq_true_iff.mp hfn
      obtain ⟨asked, hasked, hrun⟩ := loop_skips (fn :: post)
        (fun fn' hmem => hmiss fn' (Bool.not_eq_true' _ ▸ hpre fn' hmem)) c
      refine ⟨_, hasked.append (only_asks_search (d.path fn) uuid), ?_⟩
      rw [hnames, hrun, loop_finds post hlvm _ hfound, after_append]
      rfl

theorem path_inj {fn fn' : chars} (h : d.path fn = d.path fn') : fn = fn' :=
  List.cons.inj (List.append_cancel_left h) |>.2

/-- A volume is only made of a device that is there, from the first hit. -/
theorem machine_creates_from {s : Stack} {c : Session} {fn : chars}
    (h : creates_from d dev_name uuid (fun _ => d.machine s) c fn) :
    d.f_ok dev_name = true ∧ d.names.find? (hit d s uuid) = some fn := by
  obtain ⟨asked, hasked, hrun⟩ := machine_run d dev_name uuid s c
  obtain ⟨more, -, hcreate⟩ := h
  rw [hrun] at hcreate
  cases hfind : d.names.find? (hit d s uuid) with
  | none =>
      rw [hfind] at hcreate
      exact absurd (congrArg Prod.snd hcreate) (after_ne_create hasked _ _ _)
  | some fn' =>
      rw [hfind] at hcreate
      dsimp only at hcreate
      unfold create_lvm_pv at hcreate
      split at hcreate
      · rename_i hok
        have hsent := after_inj ((after_append c asked _).symm.trans (congrArg Prod.snd hcreate))
        have hlast := List.append_inj_right' hsent rfl
        have hpath : d.path fn' = d.path fn := by
          injection hlast with hlast
          injection hlast
        exact ⟨(Bool.and_eq_true_iff.mp hok).1, congrArg some (path_inj hpath)⟩
      · exact absurd (congrArg Prod.snd hcreate) (after_ne_create hasked _ _ _)

/-- With the device there, nothing is made only where no file is a hit. -/
theorem machine_creates_nothing {s : Stack} {c : Session} (hdev : d.f_ok dev_name = true)
    (h : creates_nothing d dev_name uuid (fun _ => d.machine s) c) :
    d.names.find? (hit d s uuid) = none := by
  obtain ⟨asked, hasked, hrun⟩ := machine_run d dev_name uuid s c
  obtain ⟨more, hmore, hnothing⟩ := h
  rw [hrun] at hnothing
  cases hfind : d.names.find? (hit d s uuid) with
  | none => rfl
  | some fn =>
      have hhit : hit d s uuid fn = true := List.find?_some hfind
      obtain ⟨-, hfound⟩ := Bool.and_eq_true_iff.mp hhit
      rw [hfind] at hnothing
      dsimp only at hnothing
      have hfile : d.f_ok (d.path fn) = true := by
        cases hcontent : d.file fn with
        | none => rw [hcontent] at hfound; cases hfound
        | some content => exact d.content_ok _ _ hcontent
      have hok : (check_file_device (d.machine s) dev_name
          && check_file_device (d.machine s) (d.path fn)) = true :=
        Bool.and_eq_true_iff.mpr ⟨hdev, hfile⟩
      rw [create_lvm_pv, if_pos hok, send_eq_after, after_append] at hnothing
      exact absurd (congrArg Prod.snd hnothing).symm (after_ne_create hmore _ _ _)

/-- For certain, and only then: a stack of zeros hides what the buffer does not hold, and
one with the `uuid` on it shows what the file does not have. -/
theorem found_when_of_always_found (hu : '\x00' ∉ uuid) (h : always_found d dev_name uuid) :
    found_when d dev_name uuid := by
  constructor
  · intro pre fn post hnames honly
    have hrun := fun s =>
      machine_creates_from ((h _ Session.new (machine_serves d s)).one fn honly)
    have hfirst : hit d zeroed uuid fn = true := List.find?_some (hrun zeroed).2
    obtain ⟨-, hshown⟩ := Bool.and_eq_true_iff.mp hfirst
    refine ⟨(hrun zeroed).1, search_zeroed.mp hshown, fun fn' hmem hlvm => ?_⟩
    -- a file in front that does not end the search would be the first hit
    by_contra hnot
    have hhit : hit d (left_over uuid) uuid fn' = true := by
      rw [hit, hlvm, search_left_over hu hnot]; rfl
    obtain ⟨-, as, bs, hsplit, has⟩ := List.find?_eq_some_iff_append.mp (hrun (left_over uuid)).2
    obtain ⟨-, htail, hpre⟩ := List.nodup_append.mp (hnames ▸ d.nodup)
    have hsame : as = pre := by
      rw [hnames] at hsplit
      refine ((List.append_cons_inj_of_notMem (fun hin => ?_) ?_).mp hsplit).1.symm
      · exact hpre fn hin fn List.mem_cons_self rfl
      · exact (List.nodup_cons.mp htail).1
    have hmiss := has fn' (by rw [hsame]; exact hmem)
    rw [hhit] at hmiss
    cases hmiss
  · intro hno hdev fn hmem hlvm
    by_contra hnot
    have hnone := machine_creates_nothing hdev
      ((h _ Session.new (machine_serves d (left_over uuid))).none hno)
    apply List.find?_eq_none.mp hnone fn hmem
    rw [hit, hlvm, search_left_over hu hnot]
    rfl

end Restore

/-! ## When the right backup is found -/

/-- **The right metadata is found for a volume** exactly when the device is there, the file shows
the `uuid` in its first `1024` bytes and no other file is searched past its end; an answer is the
right one exactly when the file shows the `uuid`, or lacks it and ends the search. The loop stops
at the first file it is told of, so all the files before the right one have to be answered
correctly, and those behind it need not be. -/
theorem lvm_backup_found_iff (uuid : chars) (hu : '\x00' ∉ uuid) :
    (∀ d dev_name, always_found d dev_name uuid ↔ found_when d dev_name uuid) ∧
      ∀ content, always_answered content uuid
        ↔ shown content uuid ∨ settled content ∧ ¬ occurs content uuid := by
  constructor
  · intro d dev_name
    constructor
    · exact found_when_of_always_found hu
    · intro hw env c h
      exact hw.finds h c
  · intro content
    exact search_file_data_iff hu

/-- A backup with the metadata of one group, for two volumes of it. -/
def one_group (text : List Char) : Backup where
  dir_path := "/backup".toList
  names := ["disk-mbr".toList, "lvm-vg0".toList]
  content path := if path = "/backup/lvm-vg0".toList then some text else none
  f_ok _ := true
  nodup := by decide
  content_ok _ _ _ := rfl

theorem one_group_lvm {text fn : List Char} (hmem : fn ∈ (one_group text).names)
    (hlvm : is_lvm_file fn = true) : fn = "lvm-vg0".toList := by
  rcases List.mem_cons.mp hmem with rfl | hmem
  · exact absurd hlvm (by decide)
  · exact List.mem_singleton.mp hmem

theorem one_group_only {text uuid : List Char} (h : uuid <:+: text) :
    (one_group text).only uuid "lvm-vg0".toList :=
  ⟨⟨List.mem_cons_of_mem _ List.mem_cons_self, by decide, text, rfl, h⟩,
    fun _ h' => one_group_lvm h'.mem h'.lvm⟩

theorem one_group_found {text uuid : List Char} (h : uuid <:+: c_string (text.take 1024))
    (dev_name : chars) : found_when (one_group text) dev_name uuid := by
  have honly : (one_group text).only uuid "lvm-vg0".toList :=
    one_group_only (h.trans (c_string_front.isInfix.trans (List.take_prefix _ _).isInfix))
  constructor
  · intro pre fn post hnames hfn
    have hname := honly.2 fn hfn.1
    refine ⟨rfl, ⟨text, by rw [hname]; rfl, h⟩, fun fn' hmem hlvm => ?_⟩
    have hmem' : fn' ∈ (one_group text).names := by rw [hnames]; exact List.mem_append_left _ hmem
    have hsame : fn' = fn := (one_group_lvm hmem' hlvm).trans hname.symm
    obtain ⟨-, -, hpre⟩ := List.nodup_append.mp (hnames ▸ (one_group text).nodup)
    exact absurd hsame (hpre fn' hmem fn List.mem_cons_self)
  · intro hno
    exact absurd honly.1 (hno _)

/-- The only volume of the group, named near the top of the file. -/
theorem first_volume_found :
    always_found (one_group "pv0 { id = Kp3Zt9 }".toList) "/dev/sda2".toList "Kp3Zt9".toList :=
  ((lvm_backup_found_iff "Kp3Zt9".toList (by decide)).1 _ _).mpr (one_group_found (by decide) _)

/-- The text with the `uuid` of another volume behind `1024` bytes of header and of volumes
named before. -/
def long_metadata : List Char := List.replicate 1024 '#' ++ "pv1 { id = Kp3Zt9 }".toList

/-- **A volume named behind the first `1024` bytes is not found**, though one file and only one
has its `uuid`. The second volume of a group with a long description is such a volume. -/
theorem second_volume_not_found :
    (one_group long_metadata).only "Kp3Zt9".toList "lvm-vg0".toList
      ∧ ¬ always_found (one_group long_metadata) "/dev/sda2".toList "Kp3Zt9".toList := by
  have honly : (one_group long_metadata).only "Kp3Zt9".toList "lvm-vg0".toList := by
    apply one_group_only
    have htail : "Kp3Zt9".toList <:+: "pv1 { id = Kp3Zt9 }".toList := by decide
    exact htail.trans (List.suffix_append _ _).isInfix
  refine ⟨honly, fun h => ?_⟩
  obtain ⟨-, ⟨c, hc, hshown⟩, -⟩ :=
    (found_when_of_always_found (by decide) h).one ["disk-mbr".toList] _ [] rfl honly
  have htext : c = long_metadata := (Option.some.inj hc).symm
  have hfront : long_metadata.take 1024 = List.replicate 1024 '#' :=
    List.take_left' List.length_replicate
  rw [htext, hfront] at hshown
  have hK : 'K' ∈ List.replicate 1024 '#' :=
    c_string_front.subset (hshown.subset (by decide))
  exact absurd (List.mem_replicate.mp hK).2 (by decide)

end SysbakAdmin.LvmBackup

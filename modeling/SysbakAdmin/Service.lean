/-
The daemon over whole runs: `gdbus-server.c` and the nine calls of its interface that move
data, served one after the other on one set of files.

A state is what the paths lead to, and what the daemon keeps between two calls. Two paths may
lead to the same bytes: a link and its file, a partition and its disk, a file and the device its
file system lies on. Which do is a relation that the runs are given (`shares`); it is all that is
asked of the machine's paths, and a path that shares bytes with one that is written may lead to
anything afterwards.

A call opens the two files it is given and leaves the source as it was; that is proved of the nine
handlers (`handle_source`). A daemon that stops is started anew, and then nothing is said about the
target of the call it stopped in: that such a call writes nowhere else is a premise of the run,
since its writes have no model. Between two calls other programs write where they like.

What holds over runs: a file that no call of a run names as its target, and nobody else
writes, is the same at the end (`files_untargeted`). With it an image lasts: what a backup
wrote at a path can be restored from there after any run that leaves the path alone
(`image_lasts`).
-/
import SysbakAdmin.BackupOutcome
import SysbakAdmin.RestoreRun
import SysbakAdmin.Lib.EventRun

set_option autoImplicit false

namespace SysbakAdmin.Service

open LittleEndian ByteStore CInt CMemory DoWhile Transfer FileIo GroupStream PackedRecord EventRun
open Bitmap Checksum Io Share Backup ImageWriter Restore Handlers Opening RoundTrip
open ReaderLoops ImageReader PartitionCopy PtfRun BackupOutcome RestoreRun

/-! ## The code -/

/-- The methods that move data, each with what its driver reports of the source. -/
inductive method where
  | sysbak_extfs_ptf (drv : driver)
  | sysbak_extfs_ptp (drv : driver)
  | sysbak_fatfs_ptf (drv : driver)
  | sysbak_fatfs_ptp (drv : driver)
  | sysbak_btrfs_ptf (block_size : ℕ) (drv : driver)
  | sysbak_btrfs_ptp (block_size : ℕ) (drv : driver)
  | sysbak_xfsfs_ptf (drv : driver)
  | sysbak_xfsfs_ptp (drv : driver)
  | sysbak_restore

/-- `AcquiredCallback`: the handler of each method. -/
def handle : method → Host → World → Bool → Run (Bool × World)
  | .sysbak_extfs_ptf drv, host, w, overwrite => Extfs.gdbus_sysbak_ptf host drv w overwrite
  | .sysbak_extfs_ptp drv, host, w, overwrite => Extfs.gdbus_sysbak_ptp host drv w overwrite
  | .sysbak_fatfs_ptf drv, host, w, overwrite => Fatfs.gdbus_sysbak_ptf host drv w overwrite
  | .sysbak_fatfs_ptp drv, host, w, overwrite => Fatfs.gdbus_sysbak_ptp host drv w overwrite
  | .sysbak_btrfs_ptf size drv, host, w, overwrite =>
      Btrfs.gdbus_sysbak_ptf size host drv w overwrite
  | .sysbak_btrfs_ptp size drv, host, w, overwrite =>
      Btrfs.gdbus_sysbak_ptp size host drv w overwrite
  | .sysbak_xfsfs_ptf drv, host, w, overwrite => Xfsfs.gdbus_sysbak_ptf host drv w overwrite
  | .sysbak_xfsfs_ptp drv, host, w, overwrite => Xfsfs.gdbus_sysbak_ptp host drv w overwrite
  | .sysbak_restore, host, w, overwrite => gdbus_sysbak_restore host w overwrite

/-! ## The system -/

/-- What a path names. A path that names nothing has no content. -/
structure entry where
  kind : file_kind
  data : List Byte
  data_missing : kind = .missing → data = []

/-- An entry from what a call has left. -/
def entry_of (kind : file_kind) (data : List Byte) : entry where
  kind := kind
  data := if kind = .missing then [] else data
  data_missing h := if_pos h

/-- A call over the bus, with the machine it meets. -/
structure request (Path : Type) where
  method : Service.method
  source : Path
  target : Path
  overwrite : Bool
  host : Host
  sched : List Outcome

/-- The files, and what the daemon keeps between two calls. -/
structure state (Path : Type) where
  files : Path → entry
  cks : checksum_lib
  copied_count : ℕ
  signals : List signal

/-- What happens: a call, or a file written by another program. -/
inductive event (Path : Type) where
  | call (r : request Path)
  | elsewhere (path : Path) (now : entry)

section System

variable {Path : Type}

/-- The state a handler works on. -/
def state.world (s : state Path) (r : request Path) : World where
  dfr := ⟨(s.files r.source).data, 0, false⟩
  dfw := ⟨(s.files r.target).data, 0, false⟩
  source := (s.files r.source).kind
  target := (s.files r.target).kind
  sched := r.sched
  io_failed := 0
  signals := s.signals
  copied_count := s.copied_count
  cks := s.cks

variable (shares : Path → Path → Prop)

/-- What a handler that returns leaves: its two files, and what the daemon keeps. A path that shares
bytes with the target leads to whatever it leads to now. -/
structure leaves (s : state Path) (r : request Path) (w : World) (s' : state Path) : Prop where
  source : s'.files r.source = entry_of w.source w.dfr.data
  target : s'.files r.target = entry_of w.target w.dfw.data
  others : ∀ p, p ≠ r.source → p ≠ r.target → ¬ shares r.target p → s'.files p = s.files p
  cks : s'.cks = w.cks
  copied_count : s'.copied_count = w.copied_count
  signals : s'.signals = w.signals

/-- Two paths that lead to no byte in common. It is what a write to the one needs for the other to
stay as it is. -/
def apart (p q : Path) : Prop := p ≠ q ∧ ¬ shares p q

/-- A call on two files that returns. -/
def returns (s : state Path) (r : request Path) (ok : Bool) (s' : state Path) : Prop :=
  apart shares r.target r.source ∧
    ∃ w, handle r.method r.host (s.world r) r.overwrite = .ok (ok, w) ∧ leaves shares s r w s'

/-- One event. A call that stops the daemon, and one whose source and target share bytes, may leave
anything in that target and in the daemon. -/
inductive serves : state Path → event Path → state Path → Prop where
  | returned {s s' : state Path} {r : request Path} {ok : Bool} :
      returns shares s r ok s' → serves s (.call r) s'
  | disturbed {s s' : state Path} {r : request Path} :
      (¬ apart shares r.target r.source ∨
        ∃ stop, handle r.method r.host (s.world r) r.overwrite = .error stop) →
      (∀ p, apart shares r.target p → s'.files p = s.files p) → serves s (.call r) s'
  | elsewhere {s s' : state Path} {p : Path} {now : entry} :
      s'.files p = now → (∀ q, apart shares p q → s'.files q = s.files q) → s'.cks = s.cks →
      s'.copied_count = s.copied_count → s'.signals = s.signals → serves s (.elsewhere p now) s'

/-- The path an event may write. -/
def event.writes : event Path → Path
  | .call r => r.target
  | .elsewhere p _ => p

end System

/-! ## A call leaves its source alone

Step by step: none of the functions that a handler calls writes through the source's descriptor.
-/

/-- The source, and what its path names, are as they were, and the target has not gone. The
handlers are given both files at once, so this is what each leaves of the one it reads. -/
structure same_source (w w' : World) : Prop where
  data : w'.dfr.data = w.dfr.data
  kind : w'.source = w.source
  there : w.target ≠ .missing → w'.target ≠ .missing

section Source

theorem same_source.refl (w : World) : same_source w w := ⟨rfl, rfl, id⟩

theorem same_source.trans {w₁ w₂ w₃ : World} (h : same_source w₁ w₂) (h' : same_source w₂ w₃) :
    same_source w₁ w₃ :=
  ⟨h'.data.trans h.data, h'.kind.trans h.kind, fun hw => h'.there (h.there hw)⟩

theorem seek_dfr_source (w : World) (off : ℕ) : same_source w (seek_dfr w off).2 := by
  rcases seek_dfr_cases w off with h | h <;> rw [h] <;> exact ⟨rfl, rfl, id⟩

theorem seek_dfw_source (w : World) (off : ℕ) : same_source w (seek_dfw w off).2 := by
  rcases seek_dfw_cases w off with h | h <;> rw [h] <;> exact ⟨rfl, rfl, id⟩

theorem seek_dfw_cur_source (w : World) (bytes : ℕ) : same_source w (seek_dfw_cur w bytes).2 := by
  unfold seek_dfw_cur
  split <;> exact ⟨rfl, rfl, id⟩

/-- A read moves the position only. -/
theorem read_io_all_source (w : World) (buf : List Byte) (n : ℕ) :
    yields (fun r => same_source w r.2.2) (read_io_all w buf n) := by
  unfold read_io_all
  obtain ⟨e, -, -, -, hfile, -⟩ := read_all_spec w.sched w.dfr n
  refine .ite (.ite (.ok ⟨?_, rfl, id⟩) (.error _)) (.ok ⟨rfl, rfl, id⟩)
  dsimp only
  rw [hfile]

theorem write_io_all_source (w : World) (buf : List Byte) (n : ℕ) :
    yields (fun r => same_source w r.2) (write_io_all w buf n) := by
  unfold write_io_all
  exact .ite (.bind (.any _) fun _ _ => .ok ⟨rfl, rfl, id⟩) (.ok ⟨rfl, rfl, id⟩)

theorem ptf_pass_source (block_size : ℕ) (fs_info : file_system_info) (img_opt : image_options)
    (bm : bitmap) (v : ptf_vars) (w : World) :
    yields (fun r => same_source w r.2) (ptf_pass block_size fs_info img_opt bm v w) := by
  unfold ptf_pass
  refine .bind (.any _) fun run _ => .ite (.ok (.refl w)) ?_
  have hseek := seek_dfr_source w (run.2 * block_size)
  refine .ite (.ok hseek) (.bind (read_io_all_source _ _ _) fun r hr => ?_)
  have hread := hseek.trans hr
  refine .ite (.ok hread) (.bind (.any _) fun b _ => ?_)
  refine .bind (write_io_all_source _ _ _) fun r' hr' => ?_
  have hwritten : same_source w r'.2 := hread.trans ⟨hr'.data, hr'.kind, hr'.there⟩
  exact .ite (.ok hwritten) (.ite (.ok ⟨hwritten.data, hwritten.kind, hwritten.there⟩)
    (.ok ⟨hwritten.data, hwritten.kind, hwritten.there⟩))

theorem read_write_data_ptf_source (block_size : ℕ) (fs_info : file_system_info)
    (img_opt : image_options) (host : Host) (bm : bitmap) (w : World) :
    yields (fun r => same_source w r.2)
      (read_write_data_ptf block_size fs_info img_opt host bm w) := by
  unfold read_write_data_ptf
  refine .bind (.any _) fun cap _ => .ite (.ok (.refl w)) ?_
  have hseek := seek_dfr_source w 0
  refine .ite (.ok hseek) (.bind (.any _) fun c _ => ?_)
  have hstart : same_source w { (seek_dfr w 0).2 with cks := c.2 } :=
    ⟨hseek.data, hseek.kind, hseek.there⟩
  refine .bind (passes_yields (P := same_source w) _ (fun v s hs r hr => ?_) _ _ _ hstart)
    fun r hr => ?_
  · exact hs.trans (ptf_pass_source _ _ _ _ v s r hr)
  obtain ⟨v, w'⟩ := r
  cases v with
  | none => exact .ok hr
  | some v =>
      refine .ite (.bind (write_io_all_source _ _ _) fun r' hr' => ?_) (.ok hr)
      exact .ok (same_source.trans hr hr')

theorem ptp_pass_source (block_size : ℕ) (fs_info : file_system_info) (bm : bitmap) (v : ptp_vars)
    (w : World) : yields (fun r => same_source w r.2) (ptp_pass block_size fs_info bm v w) := by
  unfold ptp_pass
  refine .bind (.any _) fun run _ => .ite (.ok (.refl w)) ?_
  have hseek := seek_dfr_source w (run.2 * block_size)
  refine .ite (.ok hseek) ?_
  have hseeks := hseek.trans (seek_dfw_source (seek_dfr w (run.2 * block_size)).2
    (run.2 * block_size))
  refine .ite (.ok hseeks) (.bind (read_io_all_source _ _ _) fun r hr => ?_)
  have hread := hseeks.trans hr
  refine .ite (.ok hread) (.bind (write_io_all_source _ _ _) fun r' hr' => ?_)
  have hwritten : same_source w r'.2 := hread.trans hr'
  exact .ite (.ok hwritten) (.ok ⟨hwritten.data, hwritten.kind, hwritten.there⟩)

theorem read_write_data_ptp_source (block_size : ℕ) (fs_info : file_system_info) (host : Host)
    (bm : bitmap) (w : World) :
    yields (fun r => same_source w r.2) (read_write_data_ptp block_size fs_info host bm w) := by
  unfold read_write_data_ptp
  refine .bind (.any _) fun cap _ => .ite (.ok (.refl w)) ?_
  have hseek := seek_dfr_source w 0
  refine .ite (.ok hseek) (.bind (passes_yields (P := same_source w) _ (fun v s hs r hr => ?_) _ _ _
    hseek) fun r hr => .ok hr)
  exact hs.trans (ptp_pass_source _ _ _ v s r hr)

theorem restore_write_pass_source (fs_info : file_system_info) (bm : bitmap) (n : ℕ)
    (write_buffer : List Byte) (v : write_vars) (w : World) :
    yields (fun r => same_source w r.2) (restore_write_pass fs_info bm n write_buffer v w) := by
  unfold restore_write_pass
  set skipped := skip_loop bm fs_info.totalblock.toNat (fs_info.totalblock.toNat - v.block_id)
    v.block_id
  set bytes_skip := u64 (skipped * fs_info.block_size.toNat)
  have hseek : same_source w
      (if bytes_skip > 0 then seek_dfw_cur w bytes_skip else (true, w)).2 := by
    split_ifs
    · exact seek_dfw_cur_source w bytes_skip
    · exact .refl w
  dsimp only
  generalize (if bytes_skip > 0 then seek_dfw_cur w bytes_skip else (true, w)) = r at hseek ⊢
  obtain ⟨ok, w₁⟩ := r
  refine .ite (.ok hseek) (.ite (.bind (write_io_all_source _ _ _) fun r hr => ?_) ?_)
  · have hwritten := hseek.trans hr
    exact .ite (.ok hwritten) (.ite (.ok ⟨hwritten.data, hwritten.kind, hwritten.there⟩)
      (.ok ⟨hwritten.data, hwritten.kind, hwritten.there⟩))
  · exact .ite (.ok ⟨hseek.data, hseek.kind, hseek.there⟩)
      (.ok ⟨hseek.data, hseek.kind, hseek.there⟩)

theorem restore_pass_source (fs_info : file_system_info) (img_opt : image_options)
    (buffer_capacity blocks_used : ℕ) (bm : bitmap) (v : restore_vars) (w : World) :
    yields (fun r => same_source w r.2)
      (restore_pass fs_info img_opt buffer_capacity blocks_used bm v w) := by
  unfold restore_pass
  refine .ite (.ok (.refl w)) (.bind (read_io_all_source _ _ _) fun r hr => .ite (.ok hr) ?_)
  refine .bind (.any _) fun b _ => ?_
  cases b with
  | none => exact .ok hr
  | some b =>
      have hstart : same_source w { r.2.2 with cks := b.cks } := ⟨hr.data, hr.kind, hr.there⟩
      refine .bind (passes_yields (P := same_source w) _ (fun wv s hs r hr => ?_) _ _ _ hstart)
        fun r' hr' => ?_
      · exact hs.trans (restore_write_pass_source _ _ _ _ wv s r hr)
      obtain ⟨wv, w'⟩ := r'
      cases wv with
      | none => exact .ok hr'
      | some wv => exact .ok hr'

theorem read_write_data_restore_source (fs_info : file_system_info) (img_opt : image_options)
    (host : Host) (bm : bitmap) (w : World) :
    yields (fun r => same_source w r.2) (read_write_data_restore fs_info img_opt host bm w) := by
  unfold read_write_data_restore
  refine .bind (.any _) fun cap _ => .ite (.ok (.refl w)) ?_
  have hseek := seek_dfw_source w 0
  refine .ite (.ok hseek) (.bind (.any _) fun c _ => ?_)
  have hstart : same_source w { (seek_dfw w 0).2 with cks := c.2 } :=
    ⟨hseek.data, hseek.kind, hseek.there⟩
  refine .bind (passes_yields (P := same_source w) _ (fun v s hs r hr => ?_) _ _ _ hstart)
    fun r hr => .ok hr
  exact hs.trans (restore_pass_source _ _ _ _ _ v s r hr)

/-! ### Before the data, and the handlers -/

theorem open_source_device_source (host : Host) (w : World) (mode : ℕ) :
    same_source w (open_source_device host w mode).2 := by
  unfold open_source_device
  generalize (if mode = BACK_DD then is_block_type (host.may_stat .source) w.source else -1)
    = ddd_block_device
  dsimp only
  split_ifs
  · split <;> exact ⟨rfl, rfl, id⟩
  · exact .refl w

/-- An open that succeeds has a file to write. -/
theorem open_target_source (host : Host) (w : World) (creat trunc excl : Bool) :
    same_source w (open_target host w creat trunc excl).2 ∧
      (0 < (open_target host w creat trunc excl).1 →
        (open_target host w creat trunc excl).2.target ≠ .missing) := by
  unfold open_target
  by_cases hmay : host.may_open .target = false
  · rw [if_pos hmay]
    exact ⟨.refl w, by simp⟩
  rw [if_neg hmay]
  have hmade : ∀ kind f, kind ≠ .missing → same_source w { w with target := kind, dfw := f } :=
    fun _ _ hkind => ⟨rfl, rfl, fun _ => hkind⟩
  cases w.target with
  | missing => cases creat <;> simp [same_source.refl, hmade]
  | regular => cases creat <;> cases excl <;> simp [same_source.refl, hmade]
  | block => cases creat <;> cases excl <;> simp [same_source.refl, hmade]
  | other => simp [same_source.refl]

theorem check_file_type_source (host : Host) (w : World) :
    yields (fun r => same_source w r.2) (check_file_type host w) := by
  unfold check_file_type
  refine .ite (.ok (.refl w)) ?_
  cases w.target with
  | missing => exact .ok (.refl w)
  | block => exact .ok (.refl w)
  | other => exact .ok (.refl w)
  | regular =>
      refine .ite (.ok (.refl w)) (.ite (.ok (.refl w)) ?_)
      dsimp only
      split
      · exact .ok ⟨rfl, rfl, by simp⟩
      · exact .ite (.ok ⟨rfl, rfl, by simp⟩) (.ite (.ok ⟨rfl, rfl, by simp⟩)
          (.bind (.any _) fun _ _ => .ok ⟨rfl, rfl, by simp⟩))

theorem open_target_device_source (host : Host) (w : World) (mode : ℕ) (overwrite : Bool) :
    yields (fun r => same_source w r.2 ∧ (0 < r.1 → r.2.target ≠ .missing))
      (open_target_device host w mode overwrite) := by
  unfold open_target_device
  refine .bind (check_file_type_source host w) fun r hr => .ite (.ok ⟨hr, by simp⟩) ?_
  have hopen : ∀ creat trunc excl, same_source w (open_target host r.2 creat trunc excl).2 ∧
      (0 < (open_target host r.2 creat trunc excl).1 →
        (open_target host r.2 creat trunc excl).2.target ≠ .missing) :=
    fun creat trunc excl => ⟨hr.trans (open_target_source host r.2 creat trunc excl).1,
      (open_target_source host r.2 creat trunc excl).2⟩
  refine .ite (.ok (hopen _ _ _)) (.ite ?_ (.ok ⟨hr, by simp⟩))
  exact .ite (.ok (hopen _ _ _)) (.ok (hopen _ _ _))

theorem write_image_desc_source (w : World) (fs_info : file_system_info) (img_opt : image_options) :
    yields (fun r => same_source w r.2) (write_image_desc w fs_info img_opt) := by
  unfold write_image_desc
  refine .bind (.any _) fun _ _ => .bind (write_io_all_source _ _ _) fun r hr => .ok ?_
  exact ⟨hr.data, hr.kind, hr.there⟩

theorem write_image_bitmap_source (w : World) (fs_info : file_system_info) (bm : bitmap) :
    yields (fun r => same_source w r.2) (write_image_bitmap w fs_info bm) := by
  unfold write_image_bitmap
  refine .bind (write_io_all_source _ _ _) fun r hr => .ite (.ok hr) ?_
  refine .bind (.any _) fun _ _ => .bind (write_io_all_source _ _ _) fun r' hr' => .ok ?_
  exact hr.trans ⟨hr'.data, hr'.kind, hr'.there⟩

theorem read_image_desc_source (host : Host) (w : World) :
    yields (fun r => same_source w r.2) (read_image_desc host w) := by
  unfold read_image_desc
  refine .bind (read_io_all_source _ _ _) fun r hr => .ite (.ok hr) (.ite (.ok hr) ?_)
  have hdone : ∀ c, same_source w { r.2.2 with cks := c } := fun c => ⟨hr.data, hr.kind, hr.there⟩
  exact .bind (.any _) fun _ _ => .ite (.ok (hdone _)) (.ite (.ok (hdone _)) (.ok (hdone _)))

theorem load_image_bitmap_bits_source (host : Host) (w : World) (fs_info : file_system_info)
    (bm : bitmap) :
    yields (fun r => same_source w r.2.2) (load_image_bitmap_bits host w fs_info bm) := by
  unfold load_image_bitmap_bits
  refine .bind (read_io_all_source _ _ _) fun r hr => .ite (.ok hr) ?_
  refine .bind (read_io_all_source _ _ _) fun r' hr' => ?_
  have hread := hr.trans hr'
  exact .ite (.ok hread) (.bind (.any _) fun _ _ => .ok ⟨hread.data, hread.kind, hread.there⟩)

/-- A call that has got as far as the descriptor has a file to write. -/
theorem ptf_prepare_source (host : Host) (drv : driver) (w : World) (overwrite : Bool) :
    yields (fun r => same_source w r.2 ∧ ((∃ p, r.1 = .ok p) → r.2.target ≠ .missing))
      (ptf_prepare host drv w overwrite) := by
  unfold ptf_prepare
  have hsource := open_source_device_source host w BACK_PTF
  refine .ite (.ok ⟨hsource, by simp⟩) (.bind (open_target_device_source _ _ _ _) fun r hr => ?_)
  have hopened := hsource.trans hr.1
  by_cases hdfw : r.1 ≤ 0
  · simp only [hdfw, if_true]
    exact .ok ⟨hopened, by simp⟩
  simp only [hdfw, if_false]
  refine .bind (.any _) fun p _ => ?_
  cases p with
  | error e_code => exact .ok ⟨hopened, by simp⟩
  | ok p =>
      refine .bind (.any _) fun fs_info _ => .ite (.ok ⟨hopened, by simp⟩) ?_
      refine .bind (write_image_desc_source _ _ _) fun r' hr' => ?_
      exact .ite (.ok ⟨hopened.trans hr', by simp⟩)
        (.ok ⟨hopened.trans hr', fun _ => hr'.there (hr.2 (by omega))⟩)

/-- `ERROR:` only sends. -/
theorem handler_error_source {w w' : World} (h : same_source w w') (e_code : ℕ) :
    same_source w (handler_error w' e_code).2 := ⟨h.data, h.kind, h.there⟩

theorem sysbak_ptf_source (block_size : file_system_info → ℕ) (reply_last : Bool) (host : Host)
    (drv : driver) (w : World) (overwrite : Bool) :
    yields (fun r => same_source w r.2 ∧ (r.1 = true → r.2.target ≠ .missing))
      (sysbak_ptf block_size reply_last host drv w overwrite) := by
  unfold sysbak_ptf
  refine .bind (ptf_prepare_source _ _ _ _) fun r hr => ?_
  obtain ⟨p, w₁⟩ := r
  cases p with
  | error e_code => exact .ok ⟨handler_error_source hr.1 _, by simp [handler_error]⟩
  | ok p =>
      refine .bind (write_image_bitmap_source _ _ _) fun r' hr' => ?_
      have hstart : same_source w₁ (if reply_last then { r'.2 with copied_count := 0 }
          else emit_signal { r'.2 with copied_count := 0 } .reply) := by
        cases reply_last <;> exact ⟨hr'.data, hr'.kind, hr'.there⟩
      refine .bind (read_write_data_ptf_source _ _ _ _ _ _) fun r'' hr'' => ?_
      have hdone := hstart.trans hr''
      refine .ite (.ok ⟨handler_error_source (hr.1.trans hdone) _, by simp [handler_error]⟩)
        (.ok ⟨?_, fun _ => ?_⟩)
      · have hall := hr.1.trans hdone
        cases reply_last <;> exact ⟨hall.data, hall.kind, hall.there⟩
      · have hthere := hdone.there (hr.2 ⟨p, rfl⟩)
        cases reply_last <;> exact hthere

theorem sysbak_ptp_source (block_size : file_system_info → ℕ) (host : Host) (drv : driver)
    (w : World) (overwrite : Bool) :
    yields (fun r => same_source w r.2) (sysbak_ptp block_size host drv w overwrite) := by
  unfold sysbak_ptp
  have hsource := open_source_device_source host w BACK_PTP
  refine .ite (.ok (handler_error_source hsource _))
    (.bind (open_target_device_source _ _ _ _) fun r hr => ?_)
  have hopened := hsource.trans hr.1
  refine .ite (.ok (handler_error_source hopened _)) (.bind (.any _) fun p _ => ?_)
  cases p with
  | error e_code => exact .ok (handler_error_source hopened _)
  | ok p =>
      refine .ite (.ok (handler_error_source hopened _)) ?_
      have hstart : same_source w (emit_signal { r.2 with copied_count := 0 } .reply) :=
        ⟨hopened.data, hopened.kind, hopened.there⟩
      refine .bind (read_write_data_ptp_source _ _ _ _ _) fun r' hr' => ?_
      have hdone := hstart.trans hr'
      exact .ite (.ok (handler_error_source hdone _)) (.ok ⟨hdone.data, hdone.kind, hdone.there⟩)

theorem gdbus_sysbak_restore_source (host : Host) (w : World) (overwrite : Bool) :
    yields (fun r => same_source w r.2 ∧ (r.1 = true → r.2.target ≠ .missing))
      (gdbus_sysbak_restore host w overwrite) := by
  have hfailed : ∀ w' e_code, same_source w w' →
      same_source w (handler_error w' e_code).2 ∧
        ((handler_error w' e_code).1 = true → (handler_error w' e_code).2.target ≠ .missing) :=
    fun w' e_code h => ⟨handler_error_source h _, by simp [handler_error]⟩
  unfold gdbus_sysbak_restore
  have hsource := open_source_device_source host w RESTORE
  refine .ite (.ok (hfailed _ _ hsource)) (.bind (open_target_device_source _ _ _ _) fun r hr => ?_)
  have hopened := hsource.trans hr.1
  by_cases hdfw : r.1 ≤ 0
  · simp only [hdfw, if_true]
    exact .ok (hfailed _ _ hopened)
  simp only [hdfw, if_false]
  refine .bind (read_image_desc_source _ _) fun r₁ hr₁ => ?_
  have hdesc := hopened.trans hr₁
  obtain ⟨image, w₁⟩ := r₁
  cases image with
  | none => exact .ok (hfailed _ _ hdesc)
  | some image =>
      refine .bind (.any _) fun mem _ => .ite (.ok (hfailed _ _ hdesc)) ?_
      dsimp only
      split
      · exact .ok (hfailed _ _ hdesc)
      refine .bind (load_image_bitmap_bits_source _ _ _ _) fun r₂ hr₂ => ?_
      have hbitmap := hdesc.trans hr₂
      refine .ite (.ok (hfailed _ _ hbitmap)) (.ite (.ok (hfailed _ _ hbitmap)) ?_)
      have hstart : same_source r₂.2.2 (emit_signal { r₂.2.2 with copied_count := 0 } .reply) :=
        ⟨rfl, rfl, id⟩
      refine .bind (read_write_data_restore_source _ _ _ _ _) fun r₃ hr₃ => ?_
      have hdone := hbitmap.trans (hstart.trans hr₃)
      refine .ite (.ok (hfailed _ _ hdone))
        (.ok ⟨⟨hdone.data, hdone.kind, hdone.there⟩, fun _ => ?_⟩)
      exact (hr₁.trans (hr₂.trans (hstart.trans hr₃))).there (hr.2 (by omega))

/-- **No call writes its source.** The descriptor of the source is only read from and moved, in
each of the nine handlers, and the target's is another one. -/
theorem handle_source (m : method) (host : Host) (w : World) (overwrite : Bool) :
    yields (fun r => same_source w r.2) (handle m host w overwrite) := by
  have hptf : ∀ size reply_last drv,
      yields (fun r => same_source w r.2) (sysbak_ptf size reply_last host drv w overwrite) :=
    fun size reply_last drv r hr => (sysbak_ptf_source size reply_last host drv w overwrite r hr).1
  -- three of the drivers copy by the block size of the superblock
  have hptf' := hptf fun fs_info => fs_info.block_size.toNat
  have hptp := sysbak_ptp_source fun fs_info => fs_info.block_size.toNat
  cases m with
  | sysbak_extfs_ptf drv => exact hptf' false drv
  | sysbak_extfs_ptp drv => exact hptp host drv w overwrite
  | sysbak_fatfs_ptf drv => exact hptf' false drv
  | sysbak_fatfs_ptp drv => exact hptp host drv w overwrite
  | sysbak_btrfs_ptf size drv => exact hptf (fun _ => size) false drv
  | sysbak_btrfs_ptp size drv => exact sysbak_ptp_source (fun _ => size) host drv w overwrite
  | sysbak_xfsfs_ptf drv => exact hptf' true drv
  | sysbak_xfsfs_ptp drv => exact hptp host drv w overwrite
  | sysbak_restore => exact fun r hr => (gdbus_sysbak_restore_source host w overwrite r hr).1

end Source

/-! ## What is not a target stays

It is the invariant rule of the library, with the bytes of one path as the invariant. -/

section Runs

variable {Path : Type} {shares : Path → Path → Prop}

/-- An entry that is written back as it was read. -/
theorem entry_of_self (e : entry) : entry_of e.kind e.data = e := by
  obtain ⟨kind, data, h⟩ := e
  unfold entry_of
  congr 1
  by_cases hk : kind = .missing
  · rw [if_pos hk, h hk]
  · rw [if_neg hk]

/-- **A call that returns has changed its target at most**, and what shares bytes with it. A call
is given two paths and opens those; its target is the one whose bytes it leaves changed. -/
theorem returns.files {s s' : state Path} {r : request Path} {ok : Bool}
    (h : returns shares s r ok s') {p : Path} (hp : apart shares r.target p) :
    s'.files p = s.files p := by
  obtain ⟨-, w, hcall, hleaves⟩ := h
  by_cases hsource : p = r.source
  · obtain ⟨hdata, hkind, -⟩ := handle_source _ _ _ _ _ hcall
    have hback : entry_of w.source w.dfr.data = s.files r.source := by
      rw [show w.dfr.data = (s.files r.source).data from hdata,
        show w.source = (s.files r.source).kind from hkind]
      exact entry_of_self _
    rw [hsource, hleaves.source, hback]
  · exact hleaves.others p hsource (Ne.symm hp.1) hp.2

/-- One event writes at one path at most. -/
theorem serves_keeps {s s' : state Path} {e : event Path} (h : serves shares s e s') {p : Path}
    (hp : apart shares e.writes p) : s'.files p = s.files p := by
  cases h with
  | returned hret => exact hret.files hp
  | disturbed _ hothers => exact hothers p hp
  | elsewhere _ hothers _ _ _ => exact hothers p hp

/-- **A file that nothing names as a target is the same at the end of a run**, when it shares no
bytes with one that is named: the sources of its calls too, whichever calls there were, on
whichever machines, and however they ended. By induction on the run (`run_keeps`): an event writes
at its path and at what shares bytes with it, and the file is apart from both. -/
theorem files_untargeted {s s' : state Path} {es : List (event Path)}
    (h : run (serves shares) s es s') {p : Path} (hp : ∀ e ∈ es, apart shares e.writes p) :
    s'.files p = s.files p := by
  have hstep : ∀ s₁ e s₂, apart shares (event.writes e) p → serves shares s₁ e s₂ →
      s₁.files p = s.files p → s₂.files p = s.files p := by
    intro s₁ e s₂ he hserves hs₁
    exact (serves_keeps hserves he).trans hs₁
  exact run_keeps hstep h hp rfl

end Runs

/-! ### A run -/

/-- A device that is to be backed up, a file that is not there yet, a partition to restore to, and
the disk that holds the partition. -/
inductive place where
  | device
  | image
  | partition
  | disk
  deriving DecidableEq

/-- The partition and its disk have bytes in common. -/
def place.shares (p q : place) : Prop :=
  (p = .partition ∧ q = .disk) ∨ (p = .disk ∧ q = .partition)

instance (p q : place) : Decidable (place.shares p q) := inferInstanceAs (Decidable (_ ∨ _))

instance (p q : place) : Decidable (apart place.shares p q) := inferInstanceAs (Decidable (_ ∧ _))

/-- What they lead to before the backup. -/
def before_backup : state place where
  files
    | .device => entry_of .block (List.replicate 8192 1)
    | .image => entry_of .missing []
    | .partition => entry_of .block (List.replicate 8192 7)
    | .disk => entry_of .block (List.replicate 16384 7)
  cks := .initial
  copied_count := 0
  signals := []

/-- A backup of the device, of which two blocks are used. -/
def backup_call : request place :=
  ⟨.sysbak_extfs_ptf (found_driver empty_fs [5]), .device, .image, true, plain_host, []⟩

/-- The state in which a call that returns leaves nothing but its two files changed. -/
def state.after (s : state place) (r : request place) (w : World) : state place where
  files := Function.update (Function.update s.files r.source (entry_of w.source w.dfr.data))
    r.target (entry_of w.target w.dfw.data)
  cks := w.cks
  copied_count := w.copied_count
  signals := w.signals

theorem leaves_after {s : state place} {r : request place}
    (h : apart place.shares r.target r.source) (w : World) :
    leaves place.shares s r w (s.after r w) where
  source := by
    dsimp only [state.after]
    rw [Function.update_of_ne (Ne.symm h.1), Function.update_self]
  target := Function.update_self _ _ _
  others p hsource htarget _ := by
    dsimp only [state.after]
    rw [Function.update_of_ne htarget, Function.update_of_ne hsource]
  cks := rfl
  copied_count := rfl
  signals := rfl

/-- The backup succeeds. -/
theorem backup_returns :
    ∃ w', handle backup_call.method plain_host (before_backup.world backup_call) true
      = .ok (true, w') ∧ w'.io_failed = 0 ∧ w'.target = .regular := by
  obtain ⟨-, w', -, hrun, hclean, htarget⟩ := two_used_backed_up
    (w := before_backup.world backup_call) rfl rfl rfl List.length_replicate
  exact ⟨w', hrun, hclean, htarget⟩

/-- Then somebody writes to the disk, and the partition is another one. The device is as it was. -/
theorem files_untargeted_backup :
    ∃ s, run (serves place.shares) before_backup
        [.call backup_call, .elsewhere .disk (entry_of .block [])] s ∧
      s.files .device = before_backup.files .device := by
  obtain ⟨w, hrun, -⟩ := backup_returns
  have hapart : apart place.shares backup_call.target backup_call.source := by decide
  have hcall : serves place.shares before_backup (.call backup_call)
      (before_backup.after backup_call w) :=
    .returned ⟨hapart, w, hrun, leaves_after hapart w⟩
  generalize before_backup.after backup_call w = s₁ at hcall
  have hwritten : serves place.shares s₁ (.elsewhere .disk (entry_of .block []))
      { s₁ with files := fun p =>
        if p = .partition ∨ p = .disk then entry_of .block [] else s₁.files p } := by
    have hdisk : place.disk = .partition ∨ place.disk = .disk := Or.inr rfl
    refine .elsewhere (by dsimp only; rw [if_pos hdisk]) (fun q hq => if_neg ?_) rfl rfl rfl
    rintro (rfl | rfl)
    · exact hq.2 (Or.inr ⟨rfl, rfl⟩)
    · exact hq.1 rfl
  have h := EventRun.run.cons hcall (.cons hwritten (.nil _))
  refine ⟨_, h, files_untargeted h fun e he => ?_⟩
  rcases List.mem_pair.mp he with rfl | rfl
  · exact (by decide : apart place.shares .image .device)
  · exact (by decide : apart place.shares .disk .device)

/-! ## An image lasts

Three things are put together: what a backup leaves behind, that it stays, and what a restore
makes of it. -/

/-- **A restore that returns `TRUE` has laid down the blocks of the image**, on any machine and
under any schedule. What was accepted are blocks as many as are marked, and by `verified.eq_take`
these are the ones that the image was made from. -/
theorem gdbus_sysbak_restore_true {fs_info : file_system_info} {bm : bitmap}
    (hbs : 0 < fs_info.block_size.toNat) (hbs' : fs_info.block_size.toNat ≤ 2 ^ 30)
    (htot : fs_info.totalblock.toNat < 2 ^ 32) (hbm : sized fs_info.totalblock.toNat bm)
    {a : Bytes (ptf_image_options fs_info.block_size.toNat).checksum_size.toNat} {src : List Byte}
    (hsrc : ∀ x ∈ marked fs_info bm 0, (x + 1) * fs_info.block_size.toNat ≤ src.length)
    {host : Host} {w w' : World} {overwrite : Bool}
    (hmissing : w.target = .missing → w.dfw.data = [])
    (himage : holds_image fs_info bm a src w.dfr.data)
    (h : gdbus_sysbak_restore host w overwrite = .ok (true, w')) :
    w'.dfw.data = copied fs_info.block_size.toNat src w.dfw.data (marked fs_info bm 0) := by
  obtain ⟨w₁, dfr, hopen, -, hopened⟩ := restore_opens host w overwrite hmissing
  rw [gdbus_sysbak_restore, hopen] at h
  dsimp only at h
  by_cases hdfr : dfr ≤ 0
  · rw [if_pos hdfr] at h
    cases h
  obtain ⟨dfw, w₂, hopen₂, hdata₂, hpos₂, hkept₂⟩ := hopened (by omega)
  rw [if_neg hdfr, hopen₂, ok_bind] at h
  by_cases hdfw : dfw ≤ 0
  · simp only [hdfw, if_true] at h
    cases h
  -- the descriptor is the one of the image
  obtain ⟨e, -, s₃, k₃, c₃, d, hread, -, -, hd⟩ := read_image_desc_spec host w₂
  rw [hpos₂, hdata₂] at hd
  simp only [hdfw, if_false, hread, ok_bind] at h
  cases d with
  | none => cases h
  | some desc =>
  obtain ⟨rfl, -, rfl⟩ := (hd desc).mp rfl
  set w₃ : World := { w₂ with
    dfr := { w₂.dfr with pos := w₂.dfr.pos + 110 }, sched := s₃, io_failed := k₃, cks := c₃ }
    with hw₃
  obtain ⟨hfs, hopt⟩ := unpack_desc_section fs_info (ptf_image_options fs_info.block_size.toNat)
  simp only [himage.descriptor, hfs, hopt] at h
  obtain ⟨mem, hmem⟩ := check_memory_size_returns host fs_info hbs
    (ptf_group_pos fs_info.block_size.toNat)
  rw [hmem, ok_bind] at h
  cases mem with
  | false => cases h
  | true =>
  simp only [Bool.not_true, Bool.false_eq_true, if_false] at h
  cases halloc : pc_alloc_bitmap host.malloc fs_info.totalblock.toNat with
  | none =>
      rw [halloc] at h
      cases h
  | some bm₀ =>
  obtain rfl : bm₀ = fresh_bitmap fs_info.totalblock.toNat := by
    unfold pc_alloc_bitmap at halloc
    split_ifs at halloc
    exact (Option.some.inj halloc).symm
  -- the bitmap marks what the image's marks
  have hbytes := BITS_TO_BYTES_le (show fs_info.totalblock.toNat + 63 < 2 ^ 64 by omega)
  obtain ⟨e, -, ok, bm', s₄, k₄, c₄, hload, -, -, -, hok, hbm'⟩ := load_bitmap_spec host w₃
    fs_info (fresh_bitmap fs_info.totalblock.toNat)
    (by rw [BITS_TO_BYTES, u64_of_lt (by omega)]; omega)
    (by rw [fresh_bitmap, List.length_replicate]; exact hbytes)
  simp only [halloc, hload, ok_bind] at h
  cases ok with
  | false => cases h
  | true =>
  obtain ⟨rfl, -, -⟩ := hok.mp rfl
  have hpos₃ : w₃.dfr.pos = 110 := by rw [hw₃]; dsimp only; omega
  have hdata₃ : w₃.dfr.data = w.dfr.data := hdata₂
  have hmarked : marked fs_info bm' 0 = marked fs_info bm 0 := by
    rw [hbm' rfl, hpos₃, hdata₃, himage.stored_bitmap]
    exact used_from_load htot hbm (by rw [sized, fresh_bitmap, List.length_replicate])
  simp only [Bool.not_true, Bool.false_eq_true, if_false] at h
  split_ifs at h with hspace
  · cases h
  -- the data is the stream of the image, so what was accepted are its blocks
  obtain ⟨⟨ok, w₅⟩, hrun, h⟩ := bind_eq_ok.mp h
  cases ok with
  | false => cases h
  | true =>
  set w₄ : World := { w₃ with
    dfr := { w₃.dfr with pos := w₃.dfr.pos + (BITS_TO_BYTES fs_info.totalblock.toNat + 4) },
    sched := s₄, io_failed := k₄, cks := c₄ } with hw₄
  obtain ⟨ok', w₆, hrun', -, htrue, -⟩ := read_write_data_restore_ok bm' hbs (ptf_group_pos _)
    (ptf_checksum_fits _) (used_count_lt htot) (chunks_fit_ptf bm' hbs') host
    (emit_signal { w₄ with copied_count := 0 } .reply) rfl
  obtain ⟨rfl, rfl⟩ := Prod.mk.inj (Except.ok.inj (hrun'.symm.trans hrun))
  obtain ⟨blocks, hlen, hver, -, hscatter⟩ := htrue rfl
  obtain ⟨-, rfl⟩ := Prod.mk.inj (Except.ok.inj h)
  have hpos₄ : w₄.dfr.pos = 110 + (BITS_TO_BYTES fs_info.totalblock.toNat + 4) := by
    rw [hw₄]; dsimp only; rw [hpos₃]
  have himage₄ : holds_image fs_info bm a src w₄.dfr.data := hdata₃ ▸ himage
  have hver' := himage₄.verified hpos₄ hsrc hmarked (stale_checksum host _)
  have hgather : blocks.length
      = (gather fs_info.block_size.toNat src (marked fs_info bm 0)).length := by
    rw [hlen, gather_length, used_count, hmarked]
  have hblocks : blocks = gather fs_info.block_size.toNat src (marked fs_info bm 0) := by
    have htake := hver.eq_take hver' hgather.le
    rwa [hgather, List.take_length] at htake
  change w₆.dfw.data = _
  rw [hscatter (marked_reachable hbs' htot), hmarked, hblocks, copied]
  change scatter 0 _ w₂.dfw.data _ _ = _
  rw [hkept₂]

/-- A daemon that is about to lay an image down on a device, and a machine that does not get in its
way: it opens what it is asked to, has memory, interrupts no transfer, and the device has room for
the file system. -/
structure undisturbed_restore (host : Host) (fs_info : file_system_info) (w : World) : Prop where
  may_open : ∀ call, host.may_open call = true
  may_stat : ∀ call, host.may_stat call = true
  malloc : ∀ size, host.malloc size = true
  source : w.source = .regular
  target : w.target = .block
  sched : w.sched = []
  room : fs_info.totalblock.toNat * fs_info.block_size.toNat ≤ w.dfw.data.length
  device_size : fs_info.device_size.toNat ≤ w.dfw.data.length

/-- **A restore of an image that nothing disturbs returns `TRUE`**, and is answered once. No step
has a reason to fail: the image's own descriptor passes, its bitmap loads, the memory that is
asked for is there, and the target has room for every place. -/
theorem gdbus_sysbak_restore_smooth {fs_info : file_system_info} {bm : bitmap}
    (hbs : 1 ≤ fs_info.block_size.toNat) (hbs' : fs_info.block_size.toNat ≤ 2 ^ 30)
    (htot : fs_info.totalblock.toNat < 2 ^ 32) (hbm : sized fs_info.totalblock.toNat bm)
    (a : Bytes (ptf_image_options fs_info.block_size.toNat).checksum_size.toNat) {src : List Byte}
    (hsrc : ∀ x ∈ marked fs_info bm 0, (x + 1) * fs_info.block_size.toNat ≤ src.length)
    {host : Host} {w : World} (h : undisturbed_restore host fs_info w)
    (himage : disk_image fs_info bm a src <+: w.dfr.data) (overwrite : Bool) :
    (∃ w', gdbus_sysbak_restore host w overwrite = .ok (true, w')) ∧
      Replies.answered_once w (gdbus_sysbak_restore host w overwrite) := by
  obtain ⟨hmay, hstat, hmem, hsource, htarget, hsched, hroom, hdevice⟩ := h
  have hending := Replies.gdbus_sysbak_restore_ending host w overwrite
  refine (fun hrun => ⟨hrun, hending.answers_iff.mpr (hending.succeeds_iff.mpr hrun)⟩) ?_
  -- both are there
  obtain ⟨w₁, hopen, htarget₁, hdata₁, hpos₁, hsched₁, hdfw₁⟩ : ∃ w₁,
      open_source_device host w RESTORE = (3, w₁) ∧ w₁.target = .block ∧
        w₁.dfr.data = w.dfr.data ∧ w₁.dfr.pos = 0 ∧ w₁.sched = [] ∧ w₁.dfw = w.dfw := by
    refine ⟨{ w with dfr := { w.dfr with pos := 0, growable := true } }, ?_, htarget, rfl, rfl,
      hsched, rfl⟩
    simp [open_source_device, hsource, hmay, opened, RESTORE, BACK_DD]
  have hopen₂ : open_target_device host w₁ RESTORE overwrite
      = .ok (3, { w₁ with dfw := ⟨w₁.dfw.data, 0, false⟩ }) := by
    have hcheck : check_file_type host w₁ = .ok (true, w₁) := by
      simp only [check_file_type, htarget₁, ite_self]
    simp [open_target_device, hcheck, open_target, hmay, hstat, htarget₁, RESTORE, BACK_DD,
      BACK_PTF, pure_eq]
  obtain ⟨w₂, hopen₂, htarget₂, hdata₂, hpos₂, hsched₂, hlen₂⟩ : ∃ w₂,
      open_target_device host w₁ RESTORE overwrite = .ok (3, w₂) ∧ w₂.target = .block ∧
        w₂.dfr.data = w.dfr.data ∧ w₂.dfr.pos = 0 ∧ w₂.sched = [] ∧
        w₂.dfw.data.length = w.dfw.data.length :=
    ⟨_, hopen₂, htarget₁, hdata₁, hpos₁, hsched₁, by rw [hdfw₁]⟩
  -- the front of the image, and then its data
  obtain ⟨desc, w₃, bm', w₄, hread, hfs, hopt, hload, hmarked, hdata₄, hpos₄, hsched₄, hdfw₄,
    htarget₄, -⟩ := front_read_back htot hbm a host (w := w₂) (by rw [hdata₂]; exact himage) hpos₂
      hsched₂
  have hcheck : check_memory_size host fs_info (ptf_image_options fs_info.block_size.toNat)
      = .ok true := by
    simp only [check_memory_size, buffer_capacity_of_pos (show 0 < _ from hbs), ok_bind,
      udiv_of_pos (ptf_group_pos fs_info.block_size.toNat), hmem, Bool.and_self, pure_eq]
  have halloc : pc_alloc_bitmap host.malloc fs_info.totalblock.toNat
      = some (fresh_bitmap fs_info.totalblock.toNat) := by
    rw [pc_alloc_bitmap, if_pos (hmem _)]
    rfl
  have hspace : ¬ get_partition_free_space w₄ < fs_info.device_size.toNat := by
    simp only [get_partition_free_space, htarget₄, htarget₂, hdfw₄, hlen₂]
    omega
  obtain ⟨w₅, hrun, -⟩ := data_read_back hbs hbs' htot hbm a hsrc hmem
    (w := emit_signal { w₄ with copied_count := 0 } .reply)
    (show _ <+: w₄.dfr.data by rw [hdata₄, hdata₂]; exact himage) hpos₄ hmarked hsched₄ rfl
    (show _ ≤ w₄.dfw.data.length by rw [hdfw₄, hlen₂]; exact hroom)
  refine ⟨emit_signal w₅ (.finished fs_info.totalblock.toNat fs_info.usedblocks.toNat
    fs_info.block_size.toNat), ?_⟩
  simp only [gdbus_sysbak_restore, hopen, hopen₂, hread, hfs, hopt, hcheck, halloc, hload, hspace,
    hrun, ok_bind, Int.reduceLE, if_false, Bool.not_true, Bool.false_eq_true, pure_eq]

/-- The four backups to a file, with the driver they use. -/
def method.is_ptf (drv : driver) (block_size : ℕ) (m : method) : Prop :=
  m ∈ [.sysbak_extfs_ptf drv, .sysbak_fatfs_ptf drv, .sysbak_btrfs_ptf block_size drv,
    .sysbak_xfsfs_ptf drv]

theorem method.is_ptf.handler {drv : driver} {block_size : ℕ} {m : method}
    (h : m.is_ptf drv block_size) :
    ∃ gdbus_sysbak_ptf ∈ [Extfs.gdbus_sysbak_ptf, Fatfs.gdbus_sysbak_ptf,
      Btrfs.gdbus_sysbak_ptf block_size, Xfsfs.gdbus_sysbak_ptf],
      handle m = fun host w overwrite => gdbus_sysbak_ptf host drv w overwrite := by
  simp only [is_ptf, List.mem_cons, List.not_mem_nil, or_false] at h
  rcases h with rfl | rfl | rfl | rfl
  · exact ⟨Extfs.gdbus_sysbak_ptf, by simp, rfl⟩
  · exact ⟨Fatfs.gdbus_sysbak_ptf, by simp, rfl⟩
  · exact ⟨Btrfs.gdbus_sysbak_ptf block_size, by simp, rfl⟩
  · exact ⟨Xfsfs.gdbus_sysbak_ptf, by simp, rfl⟩

section Lasting

variable {Path : Type} {shares : Path → Path → Prop}

/-- A call on two files that returns `TRUE`, with every transfer carried to its end. Without the
second part it need not be an image, since one result is dropped. -/
def succeeds (shares : Path → Path → Prop) (s : state Path) (r : request Path) (s' : state Path) :
    Prop :=
  apart shares r.target r.source ∧
    ∃ w, handle r.method r.host (s.world r) r.overwrite = .ok (true, w) ∧ w.io_failed = 0 ∧
      leaves shares s r w s'

/-- What a backup leaves at its target: an image of the used blocks of its source. A `TRUE` alone
would leave the bitmap section open; that no transfer was cut short closes it. -/
theorem succeeds.image {drv : driver} {block_size : ℕ}
    (hsuper : ∀ fs_info, drv.read_super_blocks init_file_system_info = .ok (true, fs_info) →
      fs_info.block_size.toNat = block_size)
    (hbs : block_size ≤ 2 ^ 30) {s s' : state Path} {r : request Path}
    (hptf : r.method.is_ptf drv block_size) (h : succeeds shares s r s') :
    ∃ p w, ptf_prepare r.host drv (s.world r) r.overwrite = .ok (.ok p, w) ∧
      set_up drv (s.world r) p w ∧ p.fs_info.block_size.toNat ≤ 2 ^ 30 ∧
      (∀ x ∈ marked p.fs_info p.bitmap 0,
        (x + 1) * p.fs_info.block_size.toNat ≤ (s.files r.source).data.length) ∧
      disk_image p.fs_info p.bitmap (stale_checksum r.host _) (s.files r.source).data
        <+: (s'.files r.target).data := by
  obtain ⟨-, w', hcall, hclean, hleaves⟩ := h
  obtain ⟨ptf, hmem, hhandle⟩ := hptf.handler
  rw [hhandle] at hcall
  obtain ⟨p, w₃, hprep, hset, hfs, hsrc, hdfw⟩ := ptf_image_left hsuper hbs hmem hcall hclean
  obtain ⟨size, reply_last, -, hrun⟩ := ptf_handlers hmem hcall
  have hthere := (sysbak_ptf_source size reply_last r.host drv _ _ _ hrun).2 rfl
  have hpos : (opened_target (s.world r)).pos = 0 := by unfold opened_target; split <;> rfl
  have hnow : (s'.files r.target).data = w'.dfw.data := by
    rw [hleaves.target]
    exact if_neg hthere
  refine ⟨p, w₃, hprep, hset, hfs.le.trans hbs, hsrc, ?_⟩
  rw [hnow, hdfw]
  exact prefix_written hpos _

/-- **An image lasts.** After a backup that succeeded comes any run of calls and of other
programs' writes that leaves alone the image's path and what shares bytes with it; a restore from
there that returns `TRUE` then puts the used blocks on its target as they were on the source when
the backup was made, and leaves the rest of the target. The source may have changed or gone, the
daemon may have stopped and been started again, and the machine may be another one. -/
theorem image_lasts {drv : driver} {block_size : ℕ}
    (hsuper : ∀ fs_info, drv.read_super_blocks init_file_system_info = .ok (true, fs_info) →
      fs_info.block_size.toNat = block_size)
    (hbs : block_size ≤ 2 ^ 30) {s₀ s₁ s₂ s₃ : state Path} {backup restore : request Path}
    {es : List (event Path)} (hptf : backup.method.is_ptf drv block_size)
    (hbackup : succeeds shares s₀ backup s₁) (hrun : run (serves shares) s₁ es s₂)
    (hes : ∀ e ∈ es, apart shares e.writes backup.target)
    (hmethod : restore.method = .sysbak_restore) (hsource : restore.source = backup.target)
    (hrestore : returns shares s₂ restore true s₃) :
    ∃ p w, ptf_prepare backup.host drv (s₀.world backup) backup.overwrite = .ok (.ok p, w) ∧
      (∀ b < p.fs_info.totalblock.toNat, bit p.bitmap b = true →
        block p.fs_info.block_size.toNat (s₃.files restore.target).data b
          = block p.fs_info.block_size.toNat (s₀.files backup.source).data b) ∧
      ∀ i, (∀ b < p.fs_info.totalblock.toNat, bit p.bitmap b = true →
          ¬ (b * p.fs_info.block_size.toNat ≤ i ∧ i < (b + 1) * p.fs_info.block_size.toNat)) →
        (s₃.files restore.target).data.getD i 0 = (s₂.files restore.target).data.getD i 0 := by
  obtain ⟨p, w, hprep, hset, hsize, hsrc, himage⟩ := hbackup.image hsuper hbs hptf
  refine ⟨p, w, hprep, ?_⟩
  have htot := hset.totalblock
  have hbm : BITS_TO_BYTES p.fs_info.totalblock.toNat ≤ 8 * p.bitmap.length := by
    rw [show p.bitmap.length = _ from hset.bitmap]
    exact BITS_TO_BYTES_le (show p.fs_info.totalblock.toNat + 63 < 2 ^ 64 by omega)
  have himage := holds_image_of_prefix hbm himage
  -- the image is at its path when the restore starts
  rw [← files_untargeted hrun hes, ← hsource] at himage
  obtain ⟨hne, v, hcall, hleaves⟩ := hrestore
  rw [hmethod] at hcall
  have hdata := gdbus_sysbak_restore_true hset.block_size hsize hset.totalblock hset.bitmap hsrc
    (s₂.files restore.target).data_missing himage hcall
  have hthere := (gdbus_sysbak_restore_source _ _ _ _ hcall).2 rfl
  have hnow : (s₃.files restore.target).data = v.dfw.data := by
    rw [hleaves.target]
    exact if_neg hthere
  obtain ⟨hblocks, hframe, -⟩ := copied_used_blocks hsrc (s₂.files restore.target).data
  rw [hnow, hdata]
  exact ⟨fun b hb hbit => (hblocks b hb hbit).2, hframe⟩

end Lasting

/-! ### A run -/

/-- A restore of the image to the partition. -/
def restore_call : request place := ⟨.sysbak_restore, .image, .partition, true, plain_host, []⟩

/-- The device has been pulled out. -/
def device_gone (s : state place) : state place :=
  { s with files := fun p => if p = .device then entry_of .missing [] else s.files p }

/-- The backup has succeeded, the image is a file, and the partition is as it was. -/
theorem backup_succeeds : ∃ s₁, succeeds place.shares before_backup backup_call s₁ ∧
    (s₁.files .image).kind = .regular ∧
    s₁.files .partition = entry_of .block (List.replicate 8192 7) := by
  obtain ⟨w, hbackup, hclean, hregular⟩ := backup_returns
  have hapart : apart place.shares backup_call.target backup_call.source := by decide
  exact ⟨before_backup.after backup_call w,
    ⟨hapart, w, hbackup, hclean, leaves_after hapart w⟩, hregular, rfl⟩

theorem backup_is_ptf : backup_call.method.is_ptf (found_driver empty_fs [5]) 1024 := .head _

theorem backup_block_size (fs_info : file_system_info)
    (h : (found_driver empty_fs [5]).read_super_blocks init_file_system_info
      = .ok (true, fs_info)) : fs_info.block_size.toNat = 1024 := by
  cases h
  rfl

/-- The backup's descriptor and bitmap: four blocks, the first and the third of them used. -/
theorem backup_prepared {p : prepared} {w : World}
    (h : ptf_prepare plain_host (found_driver empty_fs [5]) (before_backup.world backup_call) true
      = .ok (.ok p, w)) :
    p = ⟨{ empty_fs with used_bitmap := 2 }, ptf_image_options 1024, [5]⟩ := by
  obtain ⟨w', -, hprep, -⟩ := two_used_backed_up (w := before_backup.world backup_call) rfl rfl rfl
    List.length_replicate
  obtain ⟨hp, -⟩ := Prod.mk.inj (Except.ok.inj (h.symm.trans hprep))
  exact Except.ok.inj hp

/-- **Nothing hinders the restore**, although the device is gone: it needs the image and the
partition only. -/
theorem restore_returns {s₁ : state place}
    (hsucceeds : succeeds place.shares before_backup backup_call s₁)
    (hkind : (s₁.files .image).kind = .regular)
    (hpartition : s₁.files .partition = entry_of .block (List.replicate 8192 7)) :
    ∃ s₃, returns place.shares (device_gone s₁) restore_call true s₃ := by
  obtain ⟨p, w, hprep, hset, hsize, hsrc, himage⟩ :=
    hsucceeds.image backup_block_size (by decide) backup_is_ptf
  obtain rfl := backup_prepared hprep
  have hthere : ((device_gone s₁).world restore_call).dfw.data.length = 8192 := by
    change (s₁.files .partition).data.length = 8192
    rw [hpartition]
    exact List.length_replicate
  have hroom : undisturbed_restore plain_host { empty_fs with used_bitmap := 2 }
      ((device_gone s₁).world restore_call) :=
    ⟨fun _ => rfl, fun _ => rfl, fun _ => rfl, hkind, congrArg entry.kind hpartition, rfl,
      by rw [hthere]; decide, by rw [hthere]; decide⟩
  obtain ⟨⟨v, hrestore⟩, -⟩ := gdbus_sysbak_restore_smooth hset.block_size hsize hset.totalblock
    hset.bitmap _ hsrc hroom himage true
  have hapart : apart place.shares restore_call.target restore_call.source := by decide
  exact ⟨(device_gone s₁).after restore_call v, hapart, v, hrestore, leaves_after hapart v⟩

/-- The image of two used blocks, restored when its device has been pulled out: the third block is
back, and the second, which is not used, is as it was on the partition. -/
theorem image_lasts_used :
    ∃ s₂ s₃, returns place.shares s₂ restore_call true s₃ ∧
      s₂.files .device = entry_of .missing [] ∧
      block 1024 (s₃.files .partition).data 2 = List.replicate 1024 1 ∧
      (s₃.files .partition).data.getD 1024 0 = 7 := by
  obtain ⟨s₁, hsucceeds, hkind, hpartition⟩ := backup_succeeds
  obtain ⟨s₃, hreturns⟩ := restore_returns hsucceeds hkind hpartition
  have hgone : serves place.shares s₁ (.elsewhere .device (entry_of .missing []))
      (device_gone s₁) :=
    .elsewhere rfl (fun q hq => if_neg (Ne.symm hq.1)) rfl rfl rfl
  have hes : ∀ e ∈ [event.elsewhere place.device (entry_of .missing [])],
      apart place.shares e.writes backup_call.target := by
    intro e he
    rw [List.mem_singleton.mp he]
    exact (by decide : apart place.shares .device .image)
  obtain ⟨p, w, hprep, hblocks, hframe⟩ := image_lasts backup_block_size (by decide) backup_is_ptf
    hsucceeds (EventRun.run.cons hgone (.nil _)) hes rfl rfl hreturns
  obtain rfl := backup_prepared hprep
  refine ⟨device_gone s₁, s₃, hreturns, rfl, ?_, ?_⟩
  · refine (hblocks 2 (by decide) (by decide)).trans ?_
    change slice (List.replicate 8192 1) (2 * 1024) 1024 = _
    rw [slice, List.drop_replicate, List.take_replicate]
    rfl
  · refine (hframe 1024 fun b hb hbit => ?_).trans ?_
    · have hne : b ≠ 1 := by
        rintro rfl
        exact absurd hbit (by decide)
      change ¬ (b * 1024 ≤ 1024 ∧ 1024 < (b + 1) * 1024)
      omega
    · change (s₁.files .partition).data.getD 1024 0 = 7
      rw [hpartition]
      change (List.replicate 8192 (7 : Byte)).getD 1024 0 = 7
      exact List.getD_replicate _ (by decide)

end SysbakAdmin.Service

/-
How often a call is answered.

The generated skeleton answers `UnknownMethod` when a handler returns `FALSE`, and every
handler here returns `FALSE` only after `ERROR:` has answered. So a call that goes wrong
is answered twice, and a third time when the reply had been sent before the step that
failed. Each backup and restore ends with one terminal signal all the same.

The steps themselves are quiet: from the opens to the copy loops they send progress and
nothing else (`quiet`). What is sent is therefore decided by the way a call leaves its
handler, and there are three: it stops, it leaves through `ERROR:`, or it succeeds
(`ending`). `ending.bind` and `ending.guard` follow a handler from step to step and from
check to check and collect what has to hold for the last of these; the conditions are the
outcomes of the steps, in the source's order. Which initial states lead to success is said
where the steps are specified (`BackupOutcome.undisturbed`, `Service.undisturbed_restore`).
-/
import SysbakAdmin.Handlers
import SysbakAdmin.Restore
import SysbakAdmin.Disk

set_option autoImplicit false

namespace SysbakAdmin.Replies

open LittleEndian ByteStore CInt CMemory DoWhile Transfer FileIo
open Bitmap Checksum Io Share Backup Handlers Restore

/-! ## What a call has sent -/

/-- Progress, which a call may send as often as it likes. -/
def is_progress : signal → Bool
  | .progress .. => true
  | _ => false

/-- The signals that end a backup or a restore. -/
def is_terminal : signal → Bool
  | .finished .. => true
  | .error .. => true
  | _ => false

/-- Whether a signal reports success. -/
def is_finished : signal → Bool
  | .finished .. => true
  | _ => false

/-- What has been sent apart from progress. -/
def said (w : World) : List signal := w.signals.filter fun s => !is_progress s

/-- From one state to a later one, nothing but progress was sent. It composes from step to step,
and so says of a whole handler what has been sent before it answers. -/
def quiet (w w' : World) : Prop := said w' = said w

theorem said_progress (w : World) (copied : ℕ) (full : Bool) :
    said (emit_signal w (.progress copied full)) = said w := by
  rw [said, emit_signal, List.filter_append]
  exact List.append_nil _

theorem said_emit {s : signal} (w : World) (h : is_progress s = false) :
    said (emit_signal w s) = said w ++ [s] := by
  rw [said, emit_signal, List.filter_append, List.filter_cons_of_pos (by rw [h]; rfl),
    List.filter_nil]
  rfl

/-- What the invocation receives: the handler's own replies, and the skeleton's. -/
def replies (sent : List signal) (returned : Bool) : ℕ :=
  sent.count .reply + if returned then 0 else 1

/-- One terminal signal, which fits the result. -/
def ends_once (sent : List signal) (returned : Bool) : Prop :=
  ∃ s, sent.filter is_terminal = [s] ∧ is_finished s = returned

/-- The call returns, its invocation has received one reply, and it has ended once. The skeleton's
answer to a handler that returned `FALSE` is one of them. -/
def answered_once (w : World) (call : Run (Bool × World)) : Prop :=
  ∃ returned w' sent, call = .ok (returned, w') ∧ said w' = said w ++ sent ∧
    replies sent returned = 1 ∧ ends_once sent returned

/-! ## The steps are quiet

One lemma for each function that is called before a call is answered; progress signals are the
only thing that any of them sends. -/

section Quiet

variable {α : Type}

theorem quiet.trans {w₁ w₂ w₃ : World} (h : quiet w₁ w₂) (h' : quiet w₂ w₃) : quiet w₁ w₃ :=
  Eq.trans h' h

theorem seek_dfr_quiet (w : World) (off : ℕ) : quiet w (seek_dfr w off).2 := by
  unfold seek_dfr
  split <;> rfl

theorem seek_dfw_quiet (w : World) (off : ℕ) : quiet w (seek_dfw w off).2 := by
  unfold seek_dfw
  split <;> rfl

theorem seek_dfw_cur_quiet (w : World) (bytes : ℕ) : quiet w (seek_dfw_cur w bytes).2 := by
  unfold seek_dfw_cur
  split <;> rfl

theorem emit_progress_quiet (w : World) (fs_info : file_system_info) (copied : ℕ) :
    quiet w (emit_progress w fs_info copied) := said_progress _ _ _

/-- After blocks have been counted. -/
theorem quiet.counted {w w' : World} (h : quiet w w') (fs_info : file_system_info) (copied : ℕ) :
    quiet w (emit_progress { w' with copied_count := copied } fs_info copied) :=
  quiet.trans h (emit_progress_quiet { w' with copied_count := copied } fs_info copied)

theorem read_io_all_quiet (w : World) (buf : List Byte) (n : ℕ) :
    yields (fun r => quiet w r.2.2) (read_io_all w buf n) := by
  unfold read_io_all
  exact .ite (.ite (.ok rfl) (.error _)) (.ok rfl)

theorem write_io_all_quiet (w : World) (buf : List Byte) (n : ℕ) :
    yields (fun r => quiet w r.2) (write_io_all w buf n) := by
  unfold write_io_all
  exact .ite (.bind (.any _) fun _ _ => .ok rfl) (.ok rfl)

theorem ptf_pass_quiet (block_size : ℕ) (fs_info : file_system_info) (img_opt : image_options)
    (bm : bitmap) (v : ptf_vars) (w : World) :
    yields (fun r => quiet w r.2) (ptf_pass block_size fs_info img_opt bm v w) := by
  unfold ptf_pass
  refine .bind (.any _) fun run _ => .ite (.ok rfl) ?_
  have hseek := seek_dfr_quiet w (run.2 * block_size)
  refine .ite (.ok hseek) (.bind (read_io_all_quiet _ _ _) fun r hr => ?_)
  refine .ite (.ok (hseek.trans hr)) (.bind (.any _) fun b _ => ?_)
  refine .bind (write_io_all_quiet _ _ _) fun r' hr' => ?_
  have hwritten : quiet w r'.2 := hseek.trans (hr.trans hr')
  exact .ite (.ok hwritten) (.ite (.ok (hwritten.counted _ _)) (.ok (hwritten.counted _ _)))

theorem read_write_data_ptf_quiet (block_size : ℕ) (fs_info : file_system_info)
    (img_opt : image_options) (host : Host) (bm : bitmap) (w : World) :
    yields (fun r => quiet w r.2) (read_write_data_ptf block_size fs_info img_opt host bm w) := by
  unfold read_write_data_ptf
  refine .bind (.any _) fun cap _ => .ite (.ok rfl) ?_
  have hseek := seek_dfr_quiet w 0
  refine .ite (.ok hseek) (.bind (.any _) fun c _ => ?_)
  refine .bind (passes_yields (P := quiet w) _ (fun v s hs r hr => ?_) _ _ _ hseek) fun r hr => ?_
  · exact hs.trans (ptf_pass_quiet _ _ _ _ v s r hr)
  · obtain ⟨v, w'⟩ := r
    cases v with
    | none => exact .ok hr
    | some v =>
        refine .ite (.bind (write_io_all_quiet _ _ _) fun r' hr' => ?_) (.ok hr)
        exact .ok (quiet.trans hr hr')

theorem ptp_pass_quiet (block_size : ℕ) (fs_info : file_system_info) (bm : bitmap) (v : ptp_vars)
    (w : World) : yields (fun r => quiet w r.2) (ptp_pass block_size fs_info bm v w) := by
  unfold ptp_pass
  refine .bind (.any _) fun run _ => .ite (.ok rfl) ?_
  have hseek := seek_dfr_quiet w (run.2 * block_size)
  refine .ite (.ok hseek) ?_
  have hseeks := hseek.trans (seek_dfw_quiet (seek_dfr w (run.2 * block_size)).2
    (run.2 * block_size))
  refine .ite (.ok hseeks) (.bind (read_io_all_quiet _ _ _) fun r hr => ?_)
  refine .ite (.ok (hseeks.trans hr)) (.bind (write_io_all_quiet _ _ _) fun r' hr' => ?_)
  have hwritten : quiet w r'.2 := hseeks.trans (hr.trans hr')
  exact .ite (.ok hwritten) (.ok (hwritten.trans (emit_progress_quiet _ _ _)))

theorem read_write_data_ptp_quiet (block_size : ℕ) (fs_info : file_system_info) (host : Host)
    (bm : bitmap) (w : World) :
    yields (fun r => quiet w r.2) (read_write_data_ptp block_size fs_info host bm w) := by
  unfold read_write_data_ptp
  refine .bind (.any _) fun cap _ => .ite (.ok rfl) ?_
  have hseek := seek_dfr_quiet w 0
  refine .ite (.ok hseek) (.bind (passes_yields (P := quiet w) _ (fun v s hs r hr => ?_) _ _ _
    hseek) fun r hr => ?_)
  · exact hs.trans (ptp_pass_quiet _ _ _ v s r hr)
  · exact .ok hr

theorem restore_write_pass_quiet (fs_info : file_system_info) (bm : bitmap) (n : ℕ)
    (write_buffer : List Byte) (v : write_vars) (w : World) :
    yields (fun r => quiet w r.2) (restore_write_pass fs_info bm n write_buffer v w) := by
  unfold restore_write_pass
  set skipped := skip_loop bm fs_info.totalblock.toNat (fs_info.totalblock.toNat - v.block_id)
    v.block_id
  set bytes_skip := u64 (skipped * fs_info.block_size.toNat)
  have hseek : quiet w (if bytes_skip > 0 then seek_dfw_cur w bytes_skip else (true, w)).2 := by
    split_ifs
    · exact seek_dfw_cur_quiet w bytes_skip
    · rfl
  dsimp only
  generalize (if bytes_skip > 0 then seek_dfw_cur w bytes_skip else (true, w)) = r at hseek ⊢
  obtain ⟨ok, w₁⟩ := r
  refine .ite (.ok hseek) (.ite (.bind (write_io_all_quiet _ _ _) fun r hr => ?_) ?_)
  · have hwritten := hseek.trans hr
    exact .ite (.ok hwritten) (.ite (.ok (hwritten.counted _ _)) (.ok (hwritten.counted _ _)))
  · exact .ite (.ok (hseek.counted _ _)) (.ok (hseek.counted _ _))

theorem restore_pass_quiet (fs_info : file_system_info) (img_opt : image_options)
    (buffer_capacity blocks_used : ℕ) (bm : bitmap) (v : restore_vars) (w : World) :
    yields (fun r => quiet w r.2)
      (restore_pass fs_info img_opt buffer_capacity blocks_used bm v w) := by
  unfold restore_pass
  refine .ite (.ok rfl) (.bind (read_io_all_quiet _ _ _) fun r hr => .ite (.ok hr) ?_)
  refine .bind (.any _) fun b _ => ?_
  cases b with
  | none => exact .ok hr
  | some b =>
      refine .bind (passes_yields (P := quiet w) _ (fun wv s hs r hr => ?_) _ _ _ hr) fun r hr => ?_
      · exact hs.trans (restore_write_pass_quiet _ _ _ _ wv s r hr)
      · obtain ⟨wv, w'⟩ := r
        cases wv with
        | none => exact .ok hr
        | some wv => exact .ok hr

theorem read_write_data_restore_quiet (fs_info : file_system_info) (img_opt : image_options)
    (host : Host) (bm : bitmap) (w : World) :
    yields (fun r => quiet w r.2) (read_write_data_restore fs_info img_opt host bm w) := by
  unfold read_write_data_restore
  refine .bind (.any _) fun cap _ => .ite (.ok rfl) ?_
  have hseek := seek_dfw_quiet w 0
  refine .ite (.ok hseek) (.bind (.any _) fun c _ => ?_)
  refine .bind (passes_yields (P := quiet w) _ (fun v s hs r hr => ?_) _ _ _ hseek) fun r hr => ?_
  · exact hs.trans (restore_pass_quiet _ _ _ _ _ v s r hr)
  · exact .ok hr

/-! ### Before the data -/

theorem open_source_device_quiet (host : Host) (w : World) (mode : ℕ) :
    quiet w (open_source_device host w mode).2 := by
  unfold open_source_device
  generalize (if mode = BACK_DD then is_block_type (host.may_stat .source) w.source else -1)
    = ddd_block_device
  dsimp only
  split_ifs
  · split <;> rfl
  · rfl

theorem open_target_quiet (host : Host) (w : World) (creat trunc excl : Bool) :
    quiet w (open_target host w creat trunc excl).2 := by
  unfold open_target
  by_cases hmay : host.may_open .target = false
  · rw [if_pos hmay]
    rfl
  · rw [if_neg hmay]
    cases w.target with
    | missing => cases creat <;> rfl
    | regular => cases creat <;> cases excl <;> rfl
    | block => cases creat <;> cases excl <;> rfl
    | other => rfl

theorem check_file_type_quiet (host : Host) (w : World) :
    yields (fun r => quiet w r.2) (check_file_type host w) := by
  unfold check_file_type
  refine .ite (.ok rfl) ?_
  cases w.target with
  | missing => exact .ok rfl
  | block => exact .ok rfl
  | other => exact .ok rfl
  | regular =>
      refine .ite (.ok rfl) (.ite (.ok rfl) ?_)
      dsimp only
      split
      · exact .ok rfl
      · exact .ite (.ok rfl) (.ite (.ok rfl) (.bind (.any _) fun _ _ => .ok rfl))

theorem open_target_device_quiet (host : Host) (w : World) (mode : ℕ) (overwrite : Bool) :
    yields (fun r => quiet w r.2) (open_target_device host w mode overwrite) := by
  unfold open_target_device
  refine .bind (check_file_type_quiet host w) fun r hr => .ite (.ok hr) ?_
  refine .ite (.ok (quiet.trans hr (open_target_quiet _ _ _ _ _))) (.ite ?_ (.ok hr))
  refine .ite ?_ ?_ <;> exact .ok (quiet.trans hr (open_target_quiet _ _ _ _ _))

theorem write_image_desc_quiet (w : World) (fs_info : file_system_info) (img_opt : image_options) :
    yields (fun r => quiet w r.2) (write_image_desc w fs_info img_opt) := by
  unfold write_image_desc
  exact .bind (.any _) fun _ _ => .bind (write_io_all_quiet _ _ _) fun r hr => .ok hr

theorem write_image_bitmap_quiet (w : World) (fs_info : file_system_info) (bm : bitmap) :
    yields (fun r => quiet w r.2) (write_image_bitmap w fs_info bm) := by
  unfold write_image_bitmap
  refine .bind (write_io_all_quiet _ _ _) fun r hr => .ite (.ok hr) ?_
  exact .bind (.any _) fun _ _ => .bind (write_io_all_quiet _ _ _) fun r' hr' =>
    .ok (quiet.trans hr hr')

theorem read_image_desc_quiet (host : Host) (w : World) :
    yields (fun r => quiet w r.2) (read_image_desc host w) := by
  unfold read_image_desc
  refine .bind (read_io_all_quiet _ _ _) fun r hr => .ite (.ok hr) (.ite (.ok hr) ?_)
  exact .bind (.any _) fun _ _ => .ite (.ok hr) (.ite (.ok hr) (.ok hr))

theorem load_image_bitmap_bits_quiet (host : Host) (w : World) (fs_info : file_system_info)
    (bm : bitmap) : yields (fun r => quiet w r.2.2) (load_image_bitmap_bits host w fs_info bm) := by
  unfold load_image_bitmap_bits
  refine .bind (read_io_all_quiet _ _ _) fun r hr => .ite (.ok hr) ?_
  refine .bind (read_io_all_quiet _ _ _) fun r' hr' => .ite (.ok (quiet.trans hr hr')) ?_
  exact .bind (.any _) fun _ _ => .ok (quiet.trans hr hr')

theorem ptf_prepare_quiet (host : Host) (drv : driver) (w : World) (overwrite : Bool) :
    yields (fun r => quiet w r.2) (ptf_prepare host drv w overwrite) := by
  unfold ptf_prepare
  have hsource := open_source_device_quiet host w BACK_PTF
  refine .ite (.ok hsource) (.bind (open_target_device_quiet _ _ _ _) fun r hr => ?_)
  have hopened := hsource.trans hr
  refine .ite (.ok hopened) (.bind (.any _) fun p _ => ?_)
  cases p with
  | error e_code => exact .ok hopened
  | ok p =>
      refine .bind (.any _) fun fs_info _ => .ite (.ok hopened) ?_
      refine .bind (write_image_desc_quiet _ _ _) fun r' hr' => ?_
      exact .ite (.ok (hopened.trans hr')) (.ok (hopened.trans hr'))

end Quiet

/-! ## How a call ends

`ending` has a constructor for each way, and rules for a step and for a check; a handler is then
followed by applying them in the order of its text. -/

/-- Nothing has been sent yet, or the call has been answered. -/
def at_most_answered (w w' : World) : Prop := said w' = said w ∨ said w' = said w ++ [.reply]

theorem quiet.at_most_answered {w w' : World} (h : quiet w w') : at_most_answered w w' := Or.inl h

/-- How a call can end: it leaves through `ERROR:`, answered before or not, or succeeds. The
constructors carry what has been sent and the condition under which a call ends there. -/
inductive ending (w : World) (succeeds : Prop) : Run (Bool × World) → Prop where
  | stop (t : Stop) (h : ¬ succeeds) : ending w succeeds (.error t)
  | failed (w' : World) (e_code : ℕ) (h : ¬ succeeds) (hq : at_most_answered w w') :
      ending w succeeds (.ok (handler_error w' e_code))
  | success (w' : World) (total used size : ℕ) (h : succeeds)
      (hq : said w' = said w ++ [.reply, .finished total used size] ∨
        said w' = said w ++ [.finished total used size, .reply]) :
      ending w succeeds (.ok (true, w'))

section Ending

variable {w : World} {succeeds : Prop} {call : Run (Bool × World)} {α : Type}

theorem ending.congr (h : ending w succeeds call) {succeeds' : Prop} (hiff : succeeds' ↔ succeeds) :
    ending w succeeds' call := by
  obtain rfl : succeeds' = succeeds := propext hiff
  exact h

/-- A step, and what follows it. -/
theorem ending.bind {x : Run α} {f : α → Run (Bool × World)} {rest : α → Prop}
    (h : ∀ a, x = .ok a → ending w (rest a) (f a)) :
    ending w (∃ a, x = .ok a ∧ rest a) (x >>= f) := by
  cases hx : x with
  | error t =>
      refine .stop t ?_
      rintro ⟨a, ha, -⟩
      cases ha
  | ok a =>
      refine (h a hx).congr ⟨?_, fun hrest => ⟨a, rfl, hrest⟩⟩
      rintro ⟨a', ha, hrest⟩
      obtain rfl := Except.ok.inj ha
      exact hrest

/-- A check, and what follows it. -/
theorem ending.guard {c good rest : Prop} [Decidable c] {w' : World} {e_code : ℕ}
    (hc : good ↔ ¬ c) (hq : at_most_answered w w') (h : good → ending w rest call) :
    ending w (good ∧ rest) (if c then pure (handler_error w' e_code) else call) := by
  split_ifs with hcond
  · exact .failed w' e_code (fun hgood => hc.mp hgood.1 hcond) hq
  · have hgood := hc.mpr hcond
    exact (h hgood).congr ⟨fun h => h.2, fun hrest => ⟨hgood, hrest⟩⟩

/-- What a step has returned is the value that the rest goes on with. -/
theorem ending.only {β : Type} {g : α → β} {a : α} {rest : α → Prop}
    (hg : ∀ a a', g a = g a' → a = a') (h : ending w (rest a) call) :
    ending w (∃ a', g a = g a' ∧ rest a') call := by
  refine h.congr ⟨?_, fun hrest => ⟨a, rfl, hrest⟩⟩
  rintro ⟨a', ha, hrest⟩
  rwa [hg a a' ha]

/-- The last step: the data. -/
theorem ending.data {x : Run (Bool × World)} {f : World → World} (total used size : ℕ)
    (hq : yields (fun r => at_most_answered w r.2) x)
    (hf : ∀ w', x = .ok (true, w') →
      said (f w') = said w ++ [.reply, .finished total used size] ∨
        said (f w') = said w ++ [.finished total used size, .reply]) :
    ending w (∃ w', x = .ok (true, w'))
      (x >>= fun r => if !r.1 then pure (handler_error r.2 8) else pure (true, f r.2)) := by
  cases hx : x with
  | error t => exact .stop t fun ⟨_, h⟩ => by cases h
  | ok r =>
      obtain ⟨ok, w'⟩ := r
      cases ok with
      | false => exact .failed w' 8 (fun ⟨_, h⟩ => by cases h) (hq _ hx)
      | true => exact .success (f w') total used size ⟨w', rfl⟩ (hf w' hx)

theorem said_handler_error (w : World) (e_code : ℕ) :
    said (handler_error w e_code).2
      = said w ++ [.reply, .error (sysbak_error_message e_code) e_code] := by
  rw [handler_error, said_emit _ rfl, said_emit _ rfl, List.append_assoc]
  rfl

/-- `sent` is determined by the states. -/
theorem answered_once_ok {w' : World} {returned : Bool} {sent : List signal}
    (hsent : said w' = said w ++ sent) :
    answered_once w (.ok (returned, w')) ↔ replies sent returned = 1 ∧ ends_once sent returned := by
  constructor
  · rintro ⟨returned', w'', sent', hrun, hsent', hreplies, hends⟩
    obtain ⟨rfl, rfl⟩ := Prod.mk.inj (Except.ok.inj hrun)
    obtain rfl := List.append_cancel_left (hsent.symm.trans hsent')
    exact ⟨hreplies, hends⟩
  · rintro ⟨hreplies, hends⟩
    exact ⟨returned, w', sent, rfl, hsent, hreplies, hends⟩

/-- **One answer means success**, by the ways in which a call can end. A call that leaves through
`ERROR:` has at least the error's answer and the skeleton's, so one answer leaves success as the
only way it can have ended; and success answers once. -/
theorem ending.answers_iff (h : ending w succeeds call) :
    answered_once w call ↔ succeeds := by
  cases h with
  | stop t h =>
      refine ⟨fun hans => ?_, fun hs => absurd hs h⟩
      obtain ⟨_, _, _, hrun, -⟩ := hans
      cases hrun
  | failed w' e_code h hq =>
      refine ⟨fun hans => ?_, fun hs => absurd hs h⟩
      have hsent := said_handler_error w' e_code
      rcases hq with hq | hq
      · rw [hq] at hsent
        have := (answered_once_ok hsent).mp hans
        simp [replies] at this
      · rw [hq, List.append_assoc] at hsent
        have := (answered_once_ok hsent).mp hans
        simp [replies] at this
  | success w' total used size h hq =>
      refine ⟨fun _ => h, fun _ => ?_⟩
      rcases hq with hq | hq <;>
        exact (answered_once_ok hq).mpr ⟨rfl, .finished total used size, rfl, rfl⟩

/-- The steps have all succeeded exactly when the call returns `TRUE`: every other way out goes
through `ERROR:`. -/
theorem ending.succeeds_iff (h : ending w succeeds call) :
    succeeds ↔ ∃ w', call = .ok (true, w') := by
  cases h with
  | stop t h => exact iff_of_false h fun ⟨_, hrun⟩ => by cases hrun
  | failed w' e_code h hq => exact iff_of_false h fun ⟨_, hrun⟩ => by cases hrun
  | success w' total used size h hq => exact iff_of_true h ⟨w', rfl⟩

/-- However it is answered, a call that returns has ended once. -/
theorem ending.ended (h : ending w succeeds call) {returned : Bool} {w' : World}
    (hcall : call = .ok (returned, w')) :
    ∃ sent, said w' = said w ++ sent ∧ ends_once sent returned := by
  cases h with
  | stop t h => cases hcall
  | failed w₁ e_code h hq =>
      obtain ⟨rfl, rfl⟩ := Prod.mk.inj (Except.ok.inj hcall)
      rcases hq with hq | hq
      · exact ⟨_, (said_handler_error w₁ e_code).trans (by rw [hq]), _, rfl, rfl⟩
      · exact ⟨_, (said_handler_error w₁ e_code).trans (by rw [hq, List.append_assoc]), _, rfl, rfl⟩
  | success w₁ total used size h hq =>
      obtain ⟨rfl, rfl⟩ := Prod.mk.inj (Except.ok.inj hcall)
      rcases hq with hq | hq <;> exact ⟨_, hq, .finished total used size, rfl, rfl⟩

end Ending

/-! ## The backup and restore handlers -/

/-- The state in which a handler that answers early starts to copy. -/
def answered (w : World) : World := emit_signal { w with copied_count := 0 } .reply

/-- The state in which a `ptf` handler starts to copy. -/
def before_data (reply_last : Bool) (w : World) : World :=
  if reply_last then { w with copied_count := 0 } else answered w

/-- Every step of a `ptf` call succeeds, each in the state that the ones before it have left: the two
opens, the superblock, the memory, the bitmap, the space and the descriptor (`ptf_prepare`), and
the data. The bitmap section may fail: nobody looks. -/
def ptf_succeeds (block_size : file_system_info → ℕ) (reply_last : Bool) (host : Host)
    (drv : driver) (w : World) (overwrite : Bool) : Prop :=
  ∃ r, ptf_prepare host drv w overwrite = .ok r ∧
  ∃ p, r.1 = .ok p ∧
  ∃ b, write_image_bitmap r.2 p.fs_info p.bitmap = .ok b ∧
  ∃ w', read_write_data_ptf (block_size p.fs_info) p.fs_info p.img_opt host p.bitmap
    (before_data reply_last b.2) = .ok (true, w')

/-- Every step of a `ptp` call succeeds, each in the state that the ones before it have left: the
source and the target open, the driver finds a file system and its bitmap, the target is no
smaller than the file system, and all of its blocks are copied. No header is written, and the
space is not looked at before the bitmap is there: this is the order of the handlers. -/
def ptp_succeeds (block_size : file_system_info → ℕ) (host : Host) (drv : driver) (w : World)
    (overwrite : Bool) : Prop :=
  0 < (open_source_device host w BACK_PTP).1 ∧
  ∃ t, open_target_device host (open_source_device host w BACK_PTP).2 BACK_PTP overwrite = .ok t ∧
  0 < t.1 ∧
  ∃ r, read_file_system host drv = .ok r ∧
  ∃ p, r = .ok p ∧
  p.fs_info.device_size.toNat ≤ get_partition_free_space t.2 ∧
  ∃ w', read_write_data_ptp (block_size p.fs_info) p.fs_info host p.bitmap (answered t.2)
    = .ok (true, w')

/-- Every step of a restore succeeds, each in the state that the ones before it have left: the opens,
the descriptor, the memory for its buffers and for the bitmap, the bitmap section, the size of the
target, and the data. -/
def restore_succeeds (host : Host) (w : World) (overwrite : Bool) : Prop :=
  0 < (open_source_device host w RESTORE).1 ∧
  ∃ t, open_target_device host (open_source_device host w RESTORE).2 RESTORE overwrite = .ok t ∧
  0 < t.1 ∧
  ∃ i, read_image_desc host t.2 = .ok i ∧
  ∃ image, i.1 = some image ∧
  ∃ fits, check_memory_size host image.fs_info image.options = .ok fits ∧
  fits = true ∧
  ∃ bm, pc_alloc_bitmap host.malloc image.fs_info.totalblock.toNat = some bm ∧
  ∃ l, load_image_bitmap_bits host i.2 image.fs_info bm = .ok l ∧
  l.1 = true ∧
  image.fs_info.device_size.toNat ≤ get_partition_free_space l.2.2 ∧
  ∃ w', read_write_data_restore image.fs_info image.options host l.2.1 (answered l.2.2)
    = .ok (true, w')

theorem said_answered {w w' : World} (h : quiet w w') :
    said (answered w') = said w ++ [.reply] :=
  (said_emit _ rfl).trans (congrArg (· ++ [signal.reply]) h)

/-- After an early reply, only the last signal is still to come. -/
theorem said_finished {w w' : World} (h : said w' = said w ++ [.reply]) (total used size : ℕ) :
    said (emit_signal w' (.finished total used size))
      = said w ++ [.reply, .finished total used size] := by
  rw [said_emit _ rfl, h, List.append_assoc]
  rfl

theorem sysbak_ptf_ending (block_size : file_system_info → ℕ) (reply_last : Bool) (host : Host)
    (drv : driver) (w : World) (overwrite : Bool) :
    ending w (ptf_succeeds block_size reply_last host drv w overwrite)
      (sysbak_ptf block_size reply_last host drv w overwrite) := by
  unfold sysbak_ptf ptf_succeeds
  refine .bind fun r hr => ?_
  have hq₁ : quiet w r.2 := ptf_prepare_quiet host drv w overwrite _ hr
  obtain ⟨p, w₁⟩ := r
  cases p with
  | error e_code => exact .failed w₁ e_code (fun ⟨_, h, _⟩ => by cases h) hq₁.at_most_answered
  | ok p =>
  refine .only (fun _ _ => Except.ok.inj) (.bind fun b hb => ?_)
  have hq₂ : quiet w b.2 := hq₁.trans (write_image_bitmap_quiet _ _ _ _ hb)
  -- the one handler that replies last has said nothing yet when its data fail
  cases reply_last with
  | true =>
      have hquiet : ∀ r, read_write_data_ptf (block_size p.fs_info) p.fs_info p.img_opt host p.bitmap
          (before_data true b.2) = .ok r → said r.2 = said w := fun r hr =>
        Eq.trans (read_write_data_ptf_quiet _ _ _ _ _ (before_data true b.2) r hr) hq₂
      refine .data (f := fun w' => emit_signal (emit_signal w' (.finished _ _ _)) .reply)
        p.fs_info.totalblock.toNat p.fs_info.usedblocks.toNat p.fs_info.block_size.toNat
        (fun r hr => Or.inl (hquiet r hr)) fun w' hw' => Or.inr ?_
      rw [said_emit _ rfl, said_emit _ rfl, hquiet _ hw', List.append_assoc]
      rfl
  | false =>
      have hquiet : ∀ r, read_write_data_ptf (block_size p.fs_info) p.fs_info p.img_opt host p.bitmap
          (before_data false b.2) = .ok r → said r.2 = said w ++ [.reply] := fun r hr =>
        Eq.trans (read_write_data_ptf_quiet _ _ _ _ _ _ r hr) (said_answered hq₂)
      exact .data (f := fun w' => emit_signal w' (.finished _ _ _)) _ _ _
        (fun r hr => Or.inr (hquiet r hr)) fun w' hw' => Or.inl (said_finished (hquiet _ hw') _ _ _)

theorem sysbak_ptp_ending (block_size : file_system_info → ℕ) (host : Host) (drv : driver)
    (w : World) (overwrite : Bool) :
    ending w (ptp_succeeds block_size host drv w overwrite)
      (sysbak_ptp block_size host drv w overwrite) := by
  unfold sysbak_ptp ptp_succeeds
  have hq₁ := open_source_device_quiet host w BACK_PTP
  refine .guard not_le.symm hq₁.at_most_answered fun _ => .bind fun t ht => ?_
  have hq₂ : quiet w t.2 := hq₁.trans (open_target_device_quiet _ _ _ _ _ ht)
  refine .guard not_le.symm hq₂.at_most_answered fun _ => .bind fun r _ => ?_
  cases r with
  | error e_code => exact .failed t.2 e_code (fun ⟨_, h, _⟩ => by cases h) hq₂.at_most_answered
  | ok p =>
  refine .only (fun _ _ => Except.ok.inj) (.guard not_lt.symm hq₂.at_most_answered fun _ => ?_)
  have hsaid : ∀ r, read_write_data_ptp (block_size p.fs_info) p.fs_info host p.bitmap (answered t.2)
      = .ok r → said r.2 = said w ++ [.reply] := fun r hr =>
    Eq.trans (read_write_data_ptp_quiet _ _ _ _ _ r hr) (said_answered hq₂)
  exact .data (f := fun w' => emit_signal w' (.finished _ _ _)) _ _ _
    (fun r hr => Or.inr (hsaid r hr)) fun w' hw' => Or.inl (said_finished (hsaid _ hw') _ _ _)

theorem gdbus_sysbak_restore_ending (host : Host) (w : World) (overwrite : Bool) :
    ending w (restore_succeeds host w overwrite) (gdbus_sysbak_restore host w overwrite) := by
  unfold gdbus_sysbak_restore restore_succeeds
  have hq₁ := open_source_device_quiet host w RESTORE
  refine .guard not_le.symm hq₁.at_most_answered fun _ => .bind fun t ht => ?_
  have hq₂ : quiet w t.2 := hq₁.trans (open_target_device_quiet _ _ _ _ _ ht)
  refine .guard not_le.symm hq₂.at_most_answered fun _ => .bind fun i hi => ?_
  have hq₃ : quiet w i.2 := hq₂.trans (read_image_desc_quiet _ _ _ hi)
  obtain ⟨image, w₃⟩ := i
  cases image with
  | none => exact .failed w₃ 9 (fun ⟨_, h, _⟩ => by cases h) hq₃.at_most_answered
  | some image =>
  refine .only (fun _ _ => Option.some.inj) (.bind fun fits _ => ?_)
  refine .guard (by simp) hq₃.at_most_answered fun _ => ?_
  cases hbm : pc_alloc_bitmap host.malloc image.fs_info.totalblock.toNat with
  | none => exact .failed w₃ 4 (fun ⟨_, h, _⟩ => by cases h) hq₃.at_most_answered
  | some bm =>
  refine .only (fun _ _ => Option.some.inj) (.bind fun l hl => ?_)
  have hq₄ : quiet w l.2.2 := hq₃.trans (load_image_bitmap_bits_quiet _ _ _ _ _ hl)
  refine .guard (by simp) hq₄.at_most_answered fun _ => ?_
  refine .guard not_lt.symm hq₄.at_most_answered fun _ => ?_
  have hsaid : ∀ r, read_write_data_restore image.fs_info image.options host l.2.1 (answered l.2.2)
      = .ok r → said r.2 = said w ++ [.reply] := fun r hr =>
    Eq.trans (read_write_data_restore_quiet _ _ _ _ _ r hr) (said_answered hq₄)
  exact .data (f := fun w' => emit_signal w' (.finished _ _ _)) _ _ _
    (fun r hr => Or.inr (hsaid r hr)) fun w' hw' => Or.inl (said_finished (hsaid _ hw') _ _ _)

/-! ## The handlers that run a command -/

section Disk

open SysbakAdmin.Disk

/-- Whether it answers the call. -/
def is_reply : answer → Bool
  | .reply _ => true
  | .error .. => false

/-- The invocation has received one reply, the skeleton's included. -/
def disk_answered_once (d : Daemon) (call : Bool × Daemon) : Prop :=
  ∃ sent, call.2.sent = d.sent ++ sent ∧
    sent.countP is_reply + (if call.1 then 0 else 1) = 1

/-- `sent` is determined by the states. -/
theorem disk_answered_once_iff {d d' : Daemon} {returned : Bool} {sent : List answer}
    (h : d'.sent = d.sent ++ sent) :
    disk_answered_once d (returned, d') ↔
      sent.countP is_reply + (if returned then 0 else 1) = 1 := by
  constructor
  · rintro ⟨sent', hsent', hcount⟩
    obtain rfl := List.append_cancel_left (h.symm.trans hsent')
    exact hcount
  · exact fun hcount => ⟨sent, h, hcount⟩

/-- The command is run after the answer; only its success leaves it at that. -/
theorem restore_lvm_meta_answered_iff (spawn : Spawn) (d : Daemon) (file vgname : String) :
    disk_answered_once d (gdbus_restore_lvm_meta spawn d file vgname) ↔
      spawn (send d (.reply true)) ["/sbin/vgcfgrestore", "-f", file, vgname, "-y"]
        = .exited true := by
  unfold gdbus_restore_lvm_meta run_command
  dsimp only
  by_cases h : spawn (send d (.reply true)) ["/sbin/vgcfgrestore", "-f", file, vgname, "-y"]
      = .exited true
  · simp only [h, decide_true, Bool.not_true, Bool.false_eq_true, if_false, iff_true]
    exact (disk_answered_once_iff (show _ = _ ++ [.reply true] from rfl)).mpr rfl
  · simp only [h, decide_false, Bool.not_false, if_true, iff_false]
    intro hans
    have hsent : (d.sent ++ [.reply true]) ++ [.reply false] ++ [.error "vgcfgrestore failed" 1]
        = d.sent ++ [.reply true, .reply false, .error "vgcfgrestore failed" 1] := by simp
    exact absurd ((disk_answered_once_iff hsent).mp hans) (by simp [is_reply])

theorem restart_vg_answered_iff (spawn : Spawn) (d : Daemon) (vgname : String) :
    disk_answered_once d (gdbus_restart_vg spawn d vgname) ↔
      spawn (send d (.reply true)) ["/sbin/vgchange", "-ay", vgname] = .exited true ∧
      spawn (run_command spawn (send d (.reply true)) ["/sbin/vgchange", "-ay", vgname]).2
        ["/sbin/lvchange", "-ay", vgname] = .exited true := by
  have hsent : (d.sent ++ [.reply true]) ++ [.reply false] ++ [.error "restart VG failed" 1]
      = d.sent ++ [.reply true, .reply false, .error "restart VG failed" 1] := by simp
  unfold gdbus_restart_vg run_command
  dsimp only
  by_cases h : spawn (send d (.reply true)) ["/sbin/vgchange", "-ay", vgname] = .exited true
  · simp only [h, decide_true, Bool.not_true, Bool.false_eq_true, if_false, true_and]
    split_ifs with h'
    · have hno := of_decide_eq_false (Bool.not_eq_true' _ ▸ h')
      refine iff_of_false (fun hans => ?_) hno
      exact absurd ((disk_answered_once_iff hsent).mp hans) (by simp [is_reply])
    · have hyes := of_decide_eq_true (Bool.not_eq_false' _ ▸ Bool.eq_false_of_not_eq_true h')
      exact iff_of_true ((disk_answered_once_iff (show _ = _ ++ [.reply true] from rfl)).mpr rfl) hyes
  · simp only [h, decide_false, Bool.not_false, if_true, false_and, iff_false]
    exact fun hans => absurd ((disk_answered_once_iff hsent).mp hans) (by simp [is_reply])

end Disk

/-! ## Every call -/

/-- The block size of the superblock. -/
def own_size (fs_info : file_system_info) : ℕ := fs_info.block_size.toNat

/-- **A call is answered exactly once when every one of its steps succeeds**, and otherwise twice
or three times; a backup or a restore that returns has sent one terminal signal, and it tells
which. The conditions are conjunctions of the outcomes of the steps in the order of the source,
each asked in the state the one before it has left; `ending` has collected them on the way through
each handler. -/
theorem answered_once_iff (host : Host) (drv : driver) (block_size : ℕ) (w : World)
    (overwrite : Bool) (spawn : Disk.Spawn) (d : Disk.Daemon) (file vgname : String) :
    (∀ ptf ∈ [(Extfs.gdbus_sysbak_ptf, own_size, false), (Fatfs.gdbus_sysbak_ptf, own_size, false),
        (Btrfs.gdbus_sysbak_ptf block_size, fun _ => block_size, false),
        (Xfsfs.gdbus_sysbak_ptf, own_size, true)],
      answered_once w (ptf.1 host drv w overwrite)
        ↔ ptf_succeeds ptf.2.1 ptf.2.2 host drv w overwrite) ∧
    (∀ ptp ∈ [(Extfs.gdbus_sysbak_ptp, own_size), (Fatfs.gdbus_sysbak_ptp, own_size),
        (Btrfs.gdbus_sysbak_ptp block_size, fun _ => block_size),
        (Xfsfs.gdbus_sysbak_ptp, own_size)],
      answered_once w (ptp.1 host drv w overwrite) ↔ ptp_succeeds ptp.2 host drv w overwrite) ∧
    (answered_once w (gdbus_sysbak_restore host w overwrite)
      ↔ restore_succeeds host w overwrite) ∧
    (disk_answered_once d (Disk.gdbus_restore_lvm_meta spawn d file vgname) ↔
      spawn (Disk.send d (.reply true)) ["/sbin/vgcfgrestore", "-f", file, vgname, "-y"]
        = .exited true) ∧
    (disk_answered_once d (Disk.gdbus_restart_vg spawn d vgname) ↔
      spawn (Disk.send d (.reply true)) ["/sbin/vgchange", "-ay", vgname] = .exited true ∧
      spawn (Disk.run_command spawn (Disk.send d (.reply true)) ["/sbin/vgchange", "-ay", vgname]).2
        ["/sbin/lvchange", "-ay", vgname] = .exited true) ∧
    ∀ call ∈ [Extfs.gdbus_sysbak_ptf host drv w overwrite,
        Fatfs.gdbus_sysbak_ptf host drv w overwrite,
        Btrfs.gdbus_sysbak_ptf block_size host drv w overwrite,
        Xfsfs.gdbus_sysbak_ptf host drv w overwrite, Extfs.gdbus_sysbak_ptp host drv w overwrite,
        Fatfs.gdbus_sysbak_ptp host drv w overwrite,
        Btrfs.gdbus_sysbak_ptp block_size host drv w overwrite,
        Xfsfs.gdbus_sysbak_ptp host drv w overwrite, gdbus_sysbak_restore host w overwrite],
      ∀ returned w', call = .ok (returned, w') →
        ∃ sent, said w' = said w ++ sent ∧ ends_once sent returned := by
  -- each handler is an instance of one of three, whose endings are known
  refine ⟨?_, ?_, (gdbus_sysbak_restore_ending host w overwrite).answers_iff,
    restore_lvm_meta_answered_iff spawn d file vgname, restart_vg_answered_iff spawn d vgname, ?_⟩
  · simp only [List.mem_cons, List.not_mem_nil, or_false, forall_eq_or_imp, forall_eq]
    exact ⟨(sysbak_ptf_ending _ _ host drv w overwrite).answers_iff,
      (sysbak_ptf_ending _ _ host drv w overwrite).answers_iff,
      (sysbak_ptf_ending _ _ host drv w overwrite).answers_iff,
      (sysbak_ptf_ending _ _ host drv w overwrite).answers_iff⟩
  · simp only [List.mem_cons, List.not_mem_nil, or_false, forall_eq_or_imp, forall_eq]
    exact ⟨(sysbak_ptp_ending _ host drv w overwrite).answers_iff,
      (sysbak_ptp_ending _ host drv w overwrite).answers_iff,
      (sysbak_ptp_ending _ host drv w overwrite).answers_iff,
      (sysbak_ptp_ending _ host drv w overwrite).answers_iff⟩
  · simp only [List.mem_cons, List.not_mem_nil, or_false, forall_eq_or_imp, forall_eq]
    exact ⟨fun _ _ => (sysbak_ptf_ending _ _ host drv w overwrite).ended,
      fun _ _ => (sysbak_ptf_ending _ _ host drv w overwrite).ended,
      fun _ _ => (sysbak_ptf_ending _ _ host drv w overwrite).ended,
      fun _ _ => (sysbak_ptf_ending _ _ host drv w overwrite).ended,
      fun _ _ => (sysbak_ptp_ending _ host drv w overwrite).ended,
      fun _ _ => (sysbak_ptp_ending _ host drv w overwrite).ended,
      fun _ _ => (sysbak_ptp_ending _ host drv w overwrite).ended,
      fun _ _ => (sysbak_ptp_ending _ host drv w overwrite).ended,
      fun _ _ => (gdbus_sysbak_restore_ending host w overwrite).ended⟩

/-- **`vgcfgrestore` cannot be started**: `TRUE`, `FALSE` and `UnknownMethod`. The reply goes out
before the command is started, `ERROR:` answers again, and the skeleton answers for the `FALSE`.
-/
theorem restore_lvm_meta_answered_three_times :
    Disk.gdbus_restore_lvm_meta (fun _ _ => .not_started) ⟨[], []⟩ "lvm.data" "data"
      = (false, ⟨[["/sbin/vgcfgrestore", "-f", "lvm.data", "data", "-y"]],
          [.reply true, .reply false, .error "vgcfgrestore failed" 1]⟩) ∧
    ¬ disk_answered_once ⟨[], []⟩
      (Disk.gdbus_restore_lvm_meta (fun _ _ => .not_started) ⟨[], []⟩ "lvm.data" "data") := by
  refine ⟨by decide, ?_⟩
  rintro ⟨sent, hsent, hcount⟩
  obtain rfl : [.reply true, .reply false, .error "vgcfgrestore failed" 1] = sent := hsent
  exact absurd hcount (by decide)

end SysbakAdmin.Replies

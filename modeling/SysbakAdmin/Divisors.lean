/-
The divisors of the restore path.

Three of them come from the header: `buffer_capacity` divides by `block_size`,
`check_memory_size` by `blocks_per_checksum`, and the reader takes remainders by the
latter. `get_checksum_count` and the reader look first; the other two do not, so an
image faults exactly when one of the two fields is zero.

The lemmas in front say how each part of the reader can stop at all.

`only_stops` follows a computation and collects the ways in which it can stop; a part that
divides by what was looked at before has none that matters here. So the theorem needs no
case analysis over the rest of the header, nor over the way the restore goes on: of all the
divisions on the way two are left, and both come before anything is written.
-/
import SysbakAdmin.ImageReader

set_option autoImplicit false

namespace SysbakAdmin.Divisors

open LittleEndian ByteStore CInt CMemory DoWhile Transfer FileIo PackedRecord
open Bitmap Checksum Io Share Backup Handlers Restore ReaderLoops ImageReader

/-! ## How the parts of the reader stop

Each lemma is about one function and says which faults it can end in. None looks at what the
function computes. -/

/-- Outside a buffer. -/
abbrev leaves_buffer (t : Stop) : Prop := t = .outOfBounds

/-- Outside a buffer, or not at all. -/
abbrev leaves_or_loops (t : Stop) : Prop := t = .outOfBounds ∨ t = .diverged

theorem load_only_stops (buf : List Byte) (off n : ℕ) :
    only_stops leaves_buffer (load buf off n) := fun _ => load_stops

theorem store_only_stops (buf : List Byte) (off : ℕ) (x : List Byte) :
    only_stops leaves_buffer (store buf off x) := fun _ => store_stops

theorem crc32_only_stops (lib : checksum_lib) (c : BitVec 32) (buf : List Byte) (n : ℤ) :
    only_stops leaves_buffer (crc32 lib c buf n) := fun _ h => crc32_stops (Or.inl h)

theorem init_checksum_only_stops (lib : checksum_lib) (mode : ℕ) (a : List Byte) :
    only_stops leaves_buffer (init_checksum lib mode a) := fun _ => init_checksum_stops

theorem update_checksum_only_stops (lib : checksum_lib) (a buf : List Byte) (n : ℤ) :
    only_stops leaves_buffer (update_checksum lib a buf n) := fun _ => update_checksum_stops

theorem read_io_all_only_stops (w : World) (buf : List Byte) (n : ℕ) :
    only_stops leaves_buffer (read_io_all w buf n) :=
  .ite (.ite (.ok _) (.error rfl)) (.ok _)

theorem write_io_all_only_stops (w : World) (buf : List Byte) (n : ℕ) :
    only_stops leaves_buffer (write_io_all w buf n) :=
  .ite (.bind (load_only_stops _ _ _) fun _ => .ok _) (.ok _)

/-- Reading the bitmap section divides by nothing. -/
theorem load_image_bitmap_bits_only_stops (host : Host) (w : World) (fs_info : file_system_info)
    (bm : bitmap) : only_stops leaves_buffer (load_image_bitmap_bits host w fs_info bm) :=
  .bind (read_io_all_only_stops _ _ _) fun _ => .ite (.ok _) <|
    .bind (read_io_all_only_stops _ _ _) fun _ => .ite (.ok _) <|
      .bind (crc32_only_stops _ _ _ _) fun _ => .ok _

section Reader

variable (fs_info : file_system_info) (img_opt : image_options)

theorem restore_block_only_stops (read_buffer : List Byte) (i : ℕ) (v : chunk_vars) :
    only_stops leaves_buffer (restore_block fs_info img_opt read_buffer i v) :=
  .bind (load_only_stops _ _ _) fun _ => .bind (store_only_stops _ _ _) fun _ =>
    .bind (update_checksum_only_stops _ _ _ _) fun _ => .ite
      (.bind (load_only_stops _ _ _) fun _ => .ite (.ok _)
        (.bind (init_checksum_only_stops _ _ _) fun _ => .ok _))
      (.ok _)

theorem restore_blocks_only_stops (read_buffer : List Byte) : ∀ (left i : ℕ) (v : chunk_vars),
    only_stops leaves_buffer (restore_blocks fs_info img_opt read_buffer left i v) := by
  intro left
  induction left with
  | zero => intro i v; exact .ok _
  | succ left ih =>
      intro i v
      refine .bind (restore_block_only_stops _ _ _ _ _) fun b => ?_
      cases b with
      | none => exact .ok _
      | some v' => exact ih _ _

theorem restore_chunk_only_stops (buffer_capacity blocks_read : ℕ) (read_buffer : List Byte)
    (v : chunk_vars) : only_stops leaves_buffer
      (restore_chunk fs_info img_opt buffer_capacity blocks_read read_buffer v) := by
  refine .bind (restore_blocks_only_stops _ _ _ _ _ _) fun b => ?_
  cases b with
  | none => exact .ok _
  | some b => exact .ite (.bind (load_only_stops _ _ _) fun _ => .ok _) (.ok _)

theorem restore_write_pass_only_stops (bm : bitmap) (n : ℕ) (write_buffer : List Byte)
    (v : write_vars) (w : World) :
    only_stops leaves_buffer (restore_write_pass fs_info bm n write_buffer v w) :=
  .ite (.ok _) <| .ite
    (.bind (write_io_all_only_stops _ _ _) fun _ => .ite (.ok _) (.ite (.ok _) (.ok _)))
    (.ite (.ok _) (.ok _))

theorem restore_pass_only_stops (buffer_capacity blocks_used : ℕ) (bm : bitmap) (v : restore_vars)
    (w : World) : only_stops leaves_or_loops
      (restore_pass fs_info img_opt buffer_capacity blocks_used bm v w) := by
  refine .ite (.ok _) (.bind ((read_io_all_only_stops _ _ _).mono fun _ => Or.inl) fun r =>
    .ite (.ok _) (.bind ((restore_chunk_only_stops _ _ _ _ _ _).mono fun _ => Or.inl) fun b => ?_))
  cases b with
  | none => exact .ok _
  | some b =>
      refine .bind (passes_only_stops _ (Or.inr rfl) (fun wv w' =>
        (restore_write_pass_only_stops _ _ _ _ wv w').mono fun _ => Or.inl) _ _ _) fun wv => ?_
      obtain ⟨wv, w'⟩ := wv
      cases wv with
      | none => exact .ok _
      | some wv => exact .ok _

variable {fs_info}

/-- **The reader divides by the block size and by nothing else** that it has not looked at. The
remainders by the group size stand behind a look at it, and the capacity of the buffer is a
quotient by the block size. -/
theorem read_write_data_restore_only_stops (hbs : 0 < fs_info.block_size.toNat) (host : Host)
    (bm : bitmap) (w : World) :
    only_stops leaves_or_loops (read_write_data_restore fs_info img_opt host bm w) := by
  rw [read_write_data_restore, buffer_capacity_of_pos hbs, ok_bind]
  exact .ite (.ok _) (.ite (.ok _)
    (.bind ((init_checksum_only_stops _ _ _).mono fun _ => Or.inl) fun _ =>
      .bind (passes_only_stops _ (Or.inr rfl)
        (fun v w' => restore_pass_only_stops _ _ _ _ _ v w') _ _ _) fun _ => .ok _))

variable {img_opt} {t : Stop}

/-! ## The divisors -/

/-- **`check_memory_size` returns exactly for positive divisors.** It divides by the one on the
way to the capacity and by the other on the way to the number of checksums, and looks at neither.
-/
theorem check_memory_size_divides (host : Host) :
    check_memory_size host fs_info img_opt = .error t ↔
      t = .divideByZero ∧
        (fs_info.block_size.toNat = 0 ∨ img_opt.blocks_per_checksum.toNat = 0) := by
  rcases Nat.eq_zero_or_pos fs_info.block_size.toNat with hbs | hbs
  · simp only [check_memory_size, hbs, buffer_capacity_of, show DEFAULT_BUFFER_SIZE > 0 by decide,
      if_true, udiv_zero, error_bind, Except.error.injEq, true_or, and_true, eq_comm]
  · rcases Nat.eq_zero_or_pos img_opt.blocks_per_checksum.toNat with hg | hg
    · simp only [check_memory_size, buffer_capacity_of_pos hbs, ok_bind, hg, udiv_zero, error_bind,
        Except.error.injEq, or_true, and_true, eq_comm]
    · simp only [check_memory_size, buffer_capacity_of_pos hbs, ok_bind, udiv_of_pos hg, pure_eq,
        reduceCtorEq, false_iff]
      omega

end Reader

/-- The part of the handler behind `read_image_desc`. -/
def restore_accepted (host : Host) (desc : image_desc) (w : World) : Run (Bool × World) := do
  if !(← check_memory_size host desc.fs_info desc.options) then pure (handler_error w 4)
  else
    match pc_alloc_bitmap host.malloc desc.fs_info.totalblock.toNat with
    | none => pure (handler_error w 4)
    | some bm => do
        let (ok, bm, w) ← load_image_bitmap_bits host w desc.fs_info bm
        if !ok then pure (handler_error w 5)
        else if get_partition_free_space w < desc.fs_info.device_size.toNat then
          pure (handler_error w 6)
        else do
          let w := emit_signal { w with copied_count := 0 } .reply
          let (ok, w) ← read_write_data_restore desc.fs_info desc.options host bm w
          if !ok then pure (handler_error w 8)
          else pure (true, emit_signal w (.finished desc.fs_info.totalblock.toNat
            desc.fs_info.usedblocks.toNat desc.fs_info.block_size.toNat))

section Accepted

variable {host : Host} {w w₁ w₂ w₃ : World} {overwrite : Bool} {dfr dfw : ℤ} {desc : image_desc}

/-- The handler, once an image has been accepted. -/
theorem gdbus_sysbak_restore_accepted
    (hsource : open_source_device host w RESTORE = (dfr, w₁)) (hdfr : 0 < dfr)
    (htarget : open_target_device host w₁ RESTORE overwrite = .ok (dfw, w₂)) (hdfw : 0 < dfw)
    (haccepted : read_image_desc host w₂ = .ok (some desc, w₃)) :
    gdbus_sysbak_restore host w overwrite = restore_accepted host desc w₃ := by
  simp only [gdbus_sysbak_restore, hsource, htarget, haccepted, ok_bind,
    if_neg (show ¬ dfr ≤ 0 by omega), if_neg (show ¬ dfw ≤ 0 by omega)]
  rfl

/-- With a zero divisor the handler comes no further than the memory check. -/
theorem restore_accepted_faults
    (hzero : desc.fs_info.block_size.toNat = 0 ∨ desc.options.blocks_per_checksum.toNat = 0) :
    restore_accepted host desc w = .error .divideByZero := by
  rw [restore_accepted, (check_memory_size_divides host).mpr ⟨rfl, hzero⟩, error_bind]

/-- With positive divisors nothing on the way is divided by zero. -/
theorem restore_accepted_only_stops (hbs : 0 < desc.fs_info.block_size.toNat)
    (hg : 0 < desc.options.blocks_per_checksum.toNat) :
    only_stops (· ≠ .divideByZero) (restore_accepted host desc w) := by
  refine .bind (fun t ht => ?_) fun ok => .ite (.ok _) ?_
  · have := (check_memory_size_divides host).mp ht
    omega
  cases pc_alloc_bitmap host.malloc desc.fs_info.totalblock.toNat with
  | none => exact .ok _
  | some bm =>
      refine .bind ((load_image_bitmap_bits_only_stops _ _ _ _).mono ?_) fun r =>
        .ite (.ok _) (.ite (.ok _) (.bind
          ((read_write_data_restore_only_stops _ hbs _ _ _).mono ?_) fun r =>
            .ite (.ok _) (.ok _)))
      · rintro _ rfl
        simp
      · rintro _ (rfl | rfl) <;> simp

/-- **An accepted image faults exactly when its block size or its group size is zero**, whatever
the rest of its header says and however the restore goes on. The handler's calls are followed one
by one: only two of them divide by what has not been looked at, and the first of these stands
directly behind the descriptor. -/
theorem gdbus_sysbak_restore_divides
    (hsource : open_source_device host w RESTORE = (dfr, w₁)) (hdfr : 0 < dfr)
    (htarget : open_target_device host w₁ RESTORE overwrite = .ok (dfw, w₂)) (hdfw : 0 < dfw)
    (haccepted : read_image_desc host w₂ = .ok (some desc, w₃)) :
    gdbus_sysbak_restore host w overwrite ≠ .error .divideByZero ↔
      1 ≤ desc.fs_info.block_size.toNat ∧ 1 ≤ desc.options.blocks_per_checksum.toNat := by
  rw [gdbus_sysbak_restore_accepted hsource hdfr htarget hdfw haccepted]
  constructor
  · intro hno
    by_contra hzero
    exact hno (restore_accepted_faults (by omega))
  · rintro ⟨hbs, hg⟩ hstop
    exact restore_accepted_only_stops hbs hg _ hstop rfl

end Accepted

/-! ### Images without checksums -/

/-- A daemon that is about to restore an image file with the given header to a device. -/
def header_world (fs_info : file_system_info) (img_opt : image_options) : World :=
  ⟨⟨desc_section fs_info img_opt, 0, true⟩, ⟨[], 0, false⟩, .regular, .block, [], 0, [], 0, .initial⟩

theorem header_world_source (fs_info : file_system_info) (img_opt : image_options) :
    open_source_device plain_host (header_world fs_info img_opt) RESTORE
      = (3, header_world fs_info img_opt) := rfl

theorem header_world_target (fs_info : file_system_info) (img_opt : image_options) :
    open_target_device plain_host (header_world fs_info img_opt) RESTORE true
      = .ok (3, header_world fs_info img_opt) := rfl

/-- The header is accepted. -/
theorem read_header (fs_info : file_system_info) (img_opt : image_options) :
    ∃ desc w₃, read_image_desc plain_host (header_world fs_info img_opt) = .ok (some desc, w₃) ∧
      desc.fs_info = fs_info ∧ desc.options = img_opt := by
  obtain ⟨e, -, s', k, c', d, hread, -, hfull, hd⟩ :=
    read_image_desc_spec plain_host (header_world fs_info img_opt)
  have hslice : slice (header_world fs_info img_opt).dfr.data (header_world fs_info img_opt).dfr.pos
      110 = desc_section fs_info img_opt :=
    List.take_of_length_le (desc_section_length fs_info img_opt).le
  have he : e = 110 := hfull rfl (by
    change 0 + 110 ≤ (desc_section fs_info img_opt).length
    rw [desc_section_length])
  rw [hslice] at hd
  rw [(hd _).mpr ⟨he, valid_desc_section _ _, rfl⟩] at hread
  exact ⟨_, _, hread, unpack_desc_section fs_info img_opt⟩

/-- **An image with checksums disabled** takes the daemon down. Where nothing is summed there are
no groups, and a header may well say 0. -/
theorem restore_without_checksums_faults :
    gdbus_sysbak_restore plain_host (header_world { init_file_system_info with block_size := 4096 }
      { init_image_options with checksum_mode := 0, checksum_size := 0, blocks_per_checksum := 0 })
      true = .error .divideByZero := by
  obtain ⟨desc, w₃, hread, -, hopt⟩ := read_header { init_file_system_info with block_size := 4096 }
    { init_image_options with checksum_mode := 0, checksum_size := 0, blocks_per_checksum := 0 }
  rw [gdbus_sysbak_restore_accepted (header_world_source _ _) (by decide)
    (header_world_target _ _) (by decide) hread]
  exact restore_accepted_faults (Or.inr (by rw [hopt]; rfl))

/-- A header as this program writes it. -/
theorem restore_with_checksums :
    gdbus_sysbak_restore plain_host (header_world { init_file_system_info with block_size := 4096 }
      { init_image_options with blocks_per_checksum := 256 }) true ≠ .error .divideByZero := by
  obtain ⟨desc, w₃, hread, hfs, hopt⟩ := read_header { init_file_system_info with block_size := 4096 }
    { init_image_options with blocks_per_checksum := 256 }
  refine (gdbus_sysbak_restore_divides (header_world_source _ _) (by decide)
    (header_world_target _ _) (by decide)
    hread).mpr ?_
  rw [hfs, hopt]
  decide

end SysbakAdmin.Divisors

/-
What `read_write_data_restore` does with an image, under every schedule of system calls
and for every image, not only for those the writer makes.

A chunk is read in full or not at all, and its blocks are laid down only after every
checksum in it has matched. So what has reached the target at any time are the blocks
of an accepted front part of the data section (`verified`), and a run that ends in
`ERROR` has touched only the places of such blocks (`restore_failed`). That front part
is the emission of the blocks it gave, by `emit_of_scan`, which is all that the round
trip and the detection of alterations need.

The group size is arbitrary here; the writer's choice, a group for each buffer, is not
assumed.

A failed write leaves a part of a block behind. What is said of such a target is said byte
by byte (`laid`): a byte is what it was, or what the accepted block has at its place. So the
three ways a chunk can fail, in the seek, in the write or before both, need one statement
only, and it composes with the chunks before it.
-/
import SysbakAdmin.ReaderLoops

set_option autoImplicit false

namespace SysbakAdmin.ImageReader

open LittleEndian ByteStore CInt CMemory DoWhile Transfer FileIo GroupStream PackedRecord
open Bitmap Checksum Io Share Backup ImageWriter Restore ReaderLoops

/-! ## What has been accepted

The reader checks the digest of a trailing group only when its last chunk is not full
and does not end a group by itself. -/

section Chunks

variable (fs_info : file_system_info) (img_opt : image_options) (bm : bitmap) (dfr : File)
  (c₀ : Cursor (Bytes img_opt.checksum_size.toNat))

/-- How many blocks are marked. -/
abbrev used_count : ℕ := (marked fs_info bm 0).length

/-- Whether the digest of a trailing group is compared. It is the condition of the source, and of
the counts of the last chunk alone. -/
def tail_checked : Prop :=
  used_count fs_info bm % capacity fs_info.block_size.toNat % img_opt.blocks_per_checksum.toNat ≠ 0
    ∧ used_count fs_info bm % img_opt.blocks_per_checksum.toNat ≠ 0

instance : Decidable (tail_checked fs_info img_opt bm) := inferInstanceAs (Decidable (_ ∧ _))

/-- The blocks of the chunk at block `c` of the stream. -/
def chunk_size (c : ℕ) : ℕ := min (capacity fs_info.block_size.toNat) (used_count fs_info bm - c)

/-- The bytes of that chunk. -/
def chunk_need (c : ℕ) : ℕ :=
  chunk_size fs_info bm c * fs_info.block_size.toNat
    + ((c + chunk_size fs_info bm c) / img_opt.blocks_per_checksum.toNat
        - c / img_opt.blocks_per_checksum.toNat) * img_opt.checksum_size.toNat
    + if c + chunk_size fs_info bm c = used_count fs_info bm ∧ tail_checked fs_info img_opt bm then
        img_opt.checksum_size.toNat
      else 0

/-- What follows the last block. -/
def tail_digest (c : Cursor (Bytes img_opt.checksum_size.toNat)) (count : ℕ) : List Byte :=
  if count = used_count fs_info bm ∧ tail_checked fs_info img_opt bm then c.sum.1 else []

/-- What a chunk holds: its blocks with their digests, from a cursor at block `c`. -/
def chunk_bytes (cur : Cursor (Bytes img_opt.checksum_size.toNat)) (c : ℕ)
    (more : List (List Byte)) : List Byte :=
  (emit (digest_of img_opt) img_opt.blocks_per_checksum.toNat cur more).1
    ++ tail_digest fs_info img_opt bm
      (emit (digest_of img_opt) img_opt.blocks_per_checksum.toNat cur more).2 (c + more.length)

/-- The bytes that have been read and checked when these blocks have been taken out. -/
def checked (blocks : List (List Byte)) : List Byte :=
  (emit (digest_of img_opt) img_opt.blocks_per_checksum.toNat c₀ blocks).1
    ++ tail_digest fs_info img_opt bm
      (emit (digest_of img_opt) img_opt.blocks_per_checksum.toNat c₀ blocks).2 blocks.length

/-- Blocks that the reader has accepted from the front of the data section. What was read of them
is a front part of the file, with every checksum in it right. -/
structure verified (blocks : List (List Byte)) : Prop where
  lengths : ∀ b ∈ blocks, b.length = fs_info.block_size.toNat
  accepted : checked fs_info img_opt bm c₀ blocks <+: dfr.data.drop dfr.pos

/-- An image whose data section is accepted as a whole. -/
def acceptable : Prop := ∃ blocks, blocks.length = used_count fs_info bm ∧
  verified fs_info img_opt bm dfr c₀ blocks

variable {fs_info img_opt bm dfr c₀}

theorem tail_digest_of_lt (c : Cursor (Bytes img_opt.checksum_size.toNat)) {count : ℕ}
    (h : count < used_count fs_info bm) : tail_digest fs_info img_opt bm c count = [] :=
  if_neg fun h' => by omega

theorem tail_digest_length (c : Cursor (Bytes img_opt.checksum_size.toNat)) (count : ℕ) :
    (tail_digest fs_info img_opt bm c count).length
      = if count = used_count fs_info bm ∧ tail_checked fs_info img_opt bm then
          img_opt.checksum_size.toNat else 0 := by
  unfold tail_digest
  split_ifs
  · exact c.sum.2
  · rfl

theorem checked_nil : checked fs_info img_opt bm c₀ [] = [] := by
  have htail : tail_digest fs_info img_opt bm c₀ 0 = [] := by
    refine if_neg ?_
    rintro ⟨hcount, htail⟩
    rw [tail_checked, ← hcount] at htail
    simp at htail
  rw [checked, emit_nil]
  exact htail

/-- One more chunk. -/
theorem checked_append {blocks more : List (List Byte)}
    (h : blocks.length < used_count fs_info bm) :
    checked fs_info img_opt bm c₀ (blocks ++ more)
      = checked fs_info img_opt bm c₀ blocks
        ++ chunk_bytes fs_info img_opt bm
            (emit (digest_of img_opt) img_opt.blocks_per_checksum.toNat c₀ blocks).2
            blocks.length more := by
  rw [checked, checked, emit_append, tail_digest_of_lt _ h, List.append_nil, List.length_append,
    chunk_bytes, List.append_assoc]

theorem chunk_size_le (fs_info : file_system_info) (bm : bitmap) {c : ℕ}
    (h : c ≤ used_count fs_info bm) :
    c + chunk_size fs_info bm c ≤ used_count fs_info bm := by
  unfold chunk_size; omega

theorem chunk_size_pos {c : ℕ} (h : c < used_count fs_info bm) : 0 < chunk_size fs_info bm c := by
  have := capacity_pos fs_info.block_size.toNat
  unfold chunk_size; omega

/-- The next chunk starts at a multiple of the buffer, or at the end. -/
theorem chunk_aligned (fs_info : file_system_info) (bm : bitmap) {c : ℕ}
    (h : c % capacity fs_info.block_size.toNat = 0) :
    (c + chunk_size fs_info bm c) % capacity fs_info.block_size.toNat = 0
      ∨ c + chunk_size fs_info bm c = used_count fs_info bm
      ∨ used_count fs_info bm < c := by
  unfold chunk_size
  rcases Nat.le_total (capacity fs_info.block_size.toNat) (used_count fs_info bm - c) with hle | hle
  · rw [Nat.min_eq_left hle, Nat.add_mod_right]
    exact Or.inl h
  · rw [Nat.min_eq_right hle]
    omega

/-- No other chunk starts inside the chunk at block `c`. -/
theorem chunk_start_eq (bm : bitmap) {c d : ℕ} (hc : c % capacity fs_info.block_size.toNat = 0)
    (hd : d % capacity fs_info.block_size.toNat = 0) (hle : c ≤ d)
    (hlt : d < c + chunk_size fs_info bm c) : d = c := by
  have hsize : chunk_size fs_info bm c ≤ capacity fs_info.block_size.toNat := Nat.min_le_left _ _
  have hsub : (d - c) % capacity fs_info.block_size.toNat = 0 :=
    Nat.sub_mod_eq_zero_of_mod_eq (hd.trans hc.symm)
  rw [Nat.mod_eq_of_lt (by omega)] at hsub
  omega

/-- The code's test for a trailing digest, at the chunk that starts at `c`. -/
theorem tail_test_iff (img_opt : image_options) (bm : bitmap) {c : ℕ}
    (h : c % capacity fs_info.block_size.toNat = 0)
    (hc : c < used_count fs_info bm) :
    (chunk_size fs_info bm c < capacity fs_info.block_size.toNat
        ∧ chunk_size fs_info bm c % img_opt.blocks_per_checksum.toNat ≠ 0
        ∧ used_count fs_info bm % img_opt.blocks_per_checksum.toNat ≠ 0)
      ↔ c + chunk_size fs_info bm c = used_count fs_info bm
        ∧ tail_checked fs_info img_opt bm := by
  have hcap := capacity_pos fs_info.block_size.toNat
  unfold tail_checked chunk_size
  set bc := capacity fs_info.block_size.toNat
  set U := used_count fs_info bm
  have hmod : U % bc = (U - c) % bc := by
    conv_lhs => rw [show U = c + (U - c) by omega, Nat.add_mod, h, Nat.zero_add, Nat.mod_mod]
  rcases Nat.lt_or_ge (U - c) bc with hlt | hge
  · rw [Nat.min_eq_right hlt.le, hmod, Nat.mod_eq_of_lt hlt]
    constructor
    · rintro ⟨-, h1, h2⟩; exact ⟨by omega, h1, h2⟩
    · rintro ⟨-, h1, h2⟩; exact ⟨hlt, h1, h2⟩
  · rw [Nat.min_eq_left hge]
    constructor
    · rintro ⟨h1, -⟩; omega
    · rintro ⟨h1, h2, -⟩
      rw [hmod, show U - c = bc by omega, Nat.mod_self, Nat.zero_mod] at h2
      exact absurd rfl h2

/-- The groups that `n` blocks from block `c` on close. -/
theorem closed_groups (c n g : ℕ) : (c + n) / g - c / g = (c % g + n) / g := by
  rcases Nat.eq_zero_or_pos g with rfl | hg
  · simp
  · have h : (c + n) / g = c / g + (c % g + n) / g := by
      conv_lhs => rw [← Nat.div_add_mod c g, Nat.add_assoc, Nat.mul_add_div hg]
    rw [h, Nat.add_sub_cancel_left]

theorem chunk_need_eq (c : ℕ) :
    chunk_need fs_info img_opt bm c
      = chunk_size fs_info bm c * fs_info.block_size.toNat
        + (c % img_opt.blocks_per_checksum.toNat + chunk_size fs_info bm c)
            / img_opt.blocks_per_checksum.toNat * img_opt.checksum_size.toNat
        + if c + chunk_size fs_info bm c = used_count fs_info bm
            ∧ tail_checked fs_info img_opt bm then img_opt.checksum_size.toNat else 0 := by
  rw [chunk_need, closed_groups]

/-- The cursor is open by the blocks since the last full group. -/
theorem cursor_filled (hg : 0 < img_opt.blocks_per_checksum.toNat) (h₀ : c₀.filled = 0)
    (blocks : List (List Byte)) :
    (emit (digest_of img_opt) img_opt.blocks_per_checksum.toNat c₀ blocks).2.filled
      = blocks.length % img_opt.blocks_per_checksum.toNat := by
  rw [emit_filled _ _ hg (by omega), h₀, Nat.zero_add]

/-- **Each chunk of accepted blocks is in the image**, after the blocks before it. The stream of
all blocks is that of the blocks before the chunk, followed by the chunk from the cursor they
leave (`emit_append`). -/
theorem verified.chunk {all : List (List Byte)} (hall : verified fs_info img_opt bm dfr c₀ all)
    {c : ℕ} (hc : c < used_count fs_info bm) (hle : all.length ≤ used_count fs_info bm)
    (hend : c + chunk_size fs_info bm c ≤ all.length) :
    chunk_bytes fs_info img_opt bm
        (emit (digest_of img_opt) img_opt.blocks_per_checksum.toNat c₀ (all.take c)).2 c
        ((all.drop c).take (chunk_size fs_info bm c))
      <+: dfr.data.drop (dfr.pos + (checked fs_info img_opt bm c₀ (all.take c)).length) := by
  set n := chunk_size fs_info bm c with hndef
  obtain ⟨rest, hrest⟩ := hall.accepted
  have hclen : (all.take c).length = c := by rw [List.length_take]; omega
  have hnlen : ((all.drop c).take n).length = n := by
    rw [List.length_take, List.length_drop]; omega
  have hsplit : all = (all.take c ++ (all.drop c).take n) ++ all.drop (c + n) := by
    rw [← List.take_add, List.take_append_drop]
  -- behind the last block the checked bytes may lack the trailing digest, so the two ends differ
  have hpre : ∃ rest', checked fs_info img_opt bm c₀ all
      = checked fs_info img_opt bm c₀ (all.take c ++ (all.drop c).take n) ++ rest' := by
    rcases Nat.lt_or_ge (c + n) (used_count fs_info bm) with hmid | hlast
    · have hshort : (all.take c ++ (all.drop c).take n).length < used_count fs_info bm := by
        rw [List.length_append, hclen, hnlen]; exact hmid
      exact ⟨_, (congrArg _ hsplit).trans (checked_append hshort)⟩
    · have hnil : all.drop (c + n) = [] := List.drop_eq_nil_of_le (by omega)
      rw [hnil, List.append_nil] at hsplit
      exact ⟨[], by rw [← hsplit, List.append_nil]⟩
  obtain ⟨rest', hpre⟩ := hpre
  have hstep : checked fs_info img_opt bm c₀ (all.take c ++ (all.drop c).take n)
      = checked fs_info img_opt bm c₀ (all.take c) ++ chunk_bytes fs_info img_opt bm
          (emit (digest_of img_opt) img_opt.blocks_per_checksum.toNat c₀ (all.take c)).2 c
          ((all.drop c).take n) := by
    rw [checked_append (by rw [hclen]; exact hc), hclen]
  refine ⟨rest' ++ rest, ?_⟩
  rw [← List.drop_drop, ← hrest, hpre, hstep, List.append_assoc, List.append_assoc,
    List.drop_left]

/-- **What is accepted is determined by how many blocks there are**: a shorter list is the front
of a longer one. Both are taken from the front of one file, and the stream of the shorter is a
front part of that of the longer as far as it is read. -/
theorem verified.eq_take {blocks all : List (List Byte)}
    (hver : verified fs_info img_opt bm dfr c₀ blocks)
    (hall : verified fs_info img_opt bm dfr c₀ all) (hle : blocks.length ≤ all.length) :
    blocks = all.take blocks.length := by
  obtain ⟨rest, hrest⟩ := hver.accepted
  obtain ⟨rest', hrest'⟩ := hall.accepted
  have hpre := hrest.trans hrest'.symm
  rw [checked, checked, List.append_assoc, List.append_assoc] at hpre
  exact eq_take_of_emit_prefix _ _ (m := img_opt.checksum_size.toNat) (fun a => a.2) c₀
    hver.lengths hall.lengths hle hpre

/-- **In an acceptable image the next chunk is there**, after blocks that have been accepted. The
blocks that have been accepted are the first of those that are acceptable (`verified.eq_take`), so
what follows them there is what the reader comes to. -/
theorem next_chunk {blocks : List (List Byte)} (hlt : blocks.length < used_count fs_info bm)
    (hver : verified fs_info img_opt bm dfr c₀ blocks)
    (hacc : acceptable fs_info img_opt bm dfr c₀) :
    ∃ more, more.length = chunk_size fs_info bm blocks.length ∧
      (∀ b ∈ more, b.length = fs_info.block_size.toNat) ∧
      chunk_bytes fs_info img_opt bm
          (emit (digest_of img_opt) img_opt.blocks_per_checksum.toNat c₀ blocks).2 blocks.length
          more
        <+: dfr.data.drop (dfr.pos + (checked fs_info img_opt bm c₀ blocks).length) := by
  obtain ⟨all, hlen, hall⟩ := hacc
  have hn := chunk_size_le fs_info bm hlt.le
  -- the accepted blocks are the first of them
  have htake := hver.eq_take hall (by omega)
  have hchunk := hall.chunk hlt hlen.le (by omega)
  rw [← htake] at hchunk
  exact ⟨_, by rw [List.length_take, List.length_drop]; omega,
    fun b hb => hall.lengths b (List.mem_of_mem_drop (List.mem_of_mem_take hb)), hchunk⟩

end Chunks

/-! ## Taking a chunk apart

What is in the buffer is compared with what the writer would have put out for some blocks; if
there are none the chunk is refused. -/

section Chunk

variable {fs_info : file_system_info} {img_opt : image_options} {bm : bitmap}

theorem emit_chunk_length {cur : Cursor (Bytes img_opt.checksum_size.toNat)} {c n : ℕ}
    (hg : 0 < img_opt.blocks_per_checksum.toNat)
    (hfilled : cur.filled = c % img_opt.blocks_per_checksum.toNat) {more : List (List Byte)}
    (hlen : more.length = n) (hmore : ∀ b ∈ more, b.length = fs_info.block_size.toNat) :
    (emit (digest_of img_opt) img_opt.blocks_per_checksum.toNat cur more).1.length
      = n * fs_info.block_size.toNat + (c % img_opt.blocks_per_checksum.toNat + n)
          / img_opt.blocks_per_checksum.toNat * img_opt.checksum_size.toNat := by
  rw [emit_length (digest_of img_opt) _ hg (m := img_opt.checksum_size.toNat) (fun a => a.2)
    (by rw [hfilled]; exact Nat.mod_lt _ hg) hmore, hlen, hfilled]

/-- A chunk holds what it is said to need. -/
theorem chunk_bytes_length (bm : bitmap) {cur : Cursor (Bytes img_opt.checksum_size.toNat)} {c : ℕ}
    (hg : 0 < img_opt.blocks_per_checksum.toNat)
    (hfilled : cur.filled = c % img_opt.blocks_per_checksum.toNat) {more : List (List Byte)}
    (hlen : more.length = chunk_size fs_info bm c)
    (hmore : ∀ b ∈ more, b.length = fs_info.block_size.toNat) :
    (chunk_bytes fs_info img_opt bm cur c more).length = chunk_need fs_info img_opt bm c := by
  rw [chunk_bytes, List.length_append, emit_chunk_length hg hfilled hlen hmore,
    tail_digest_length, hlen, chunk_need_eq]

/-- The code's test after the block loop is the one for a trailing digest. The two tests of the
source are at different places and compute the same from different counts. -/
theorem tail_code_iff (img_opt : image_options) (bm : bitmap) {c blocks_in_cs : ℕ}
    (hg : 0 < img_opt.blocks_per_checksum.toNat)
    (halign : c % capacity fs_info.block_size.toNat = 0) (hc : c < used_count fs_info bm)
    (hfilled : blocks_in_cs
      = (c + chunk_size fs_info bm c) % img_opt.blocks_per_checksum.toNat) :
    (blocks_in_cs ≠ 0 ∧ img_opt.blocks_per_checksum.toNat ≠ 0
        ∧ chunk_size fs_info bm c < capacity fs_info.block_size.toNat
        ∧ chunk_size fs_info bm c % img_opt.blocks_per_checksum.toNat ≠ 0)
      ↔ c + chunk_size fs_info bm c = used_count fs_info bm
        ∧ tail_checked fs_info img_opt bm := by
  have hlast : chunk_size fs_info bm c < capacity fs_info.block_size.toNat →
      c + chunk_size fs_info bm c = used_count fs_info bm := by unfold chunk_size; omega
  rw [← tail_test_iff img_opt bm halign hc, hfilled]
  constructor
  · rintro ⟨h1, -, h3, h4⟩
    rw [hlast h3] at h1
    exact ⟨h3, h4, h1⟩
  · rintro ⟨h1, h2, h3⟩
    rw [hlast h1]
    exact ⟨h3, by omega, h1, h2⟩

/-- **A chunk in the buffer is taken apart into its blocks**, or the buffer does not begin with a
chunk. The block loop is `scan` from the cursor the chunk starts with, and at the last chunk the
trailing checksum is compared with what that cursor has come to. -/
theorem restore_chunk_spec (hbs : 0 < fs_info.block_size.toNat)
    (hbs' : fs_info.block_size.toNat < 2 ^ 31) (hg : 0 < img_opt.blocks_per_checksum.toNat)
    (hfits : checksum_fits img_opt) {c : ℕ} (hc : c < used_count fs_info bm)
    (halign : c % capacity fs_info.block_size.toNat = 0)
    {cur : Cursor (Bytes img_opt.checksum_size.toNat)}
    (hfilled : cur.filled = c % img_opt.blocks_per_checksum.toNat) (read_buffer : List Byte)
    (hneed : chunk_need fs_info img_opt bm c ≤ read_buffer.length)
    (hread : read_buffer.length < 2 ^ 32) {v : chunk_vars} (hv : read_inv img_opt v cur)
    (hoff : v.read_offset = 0)
    (hwrite : chunk_size fs_info bm c * fs_info.block_size.toNat ≤ v.write_buffer.length)
    (hwlen : v.write_buffer.length < 2 ^ 32) :
    (restore_chunk fs_info img_opt (capacity fs_info.block_size.toNat) (chunk_size fs_info bm c)
          read_buffer v = .ok none ∧
        ∀ more, more.length = chunk_size fs_info bm c →
          (∀ b ∈ more, b.length = fs_info.block_size.toNat) →
          ¬ chunk_bytes fs_info img_opt bm cur c more <+: read_buffer) ∨
      ∃ more b, restore_chunk fs_info img_opt (capacity fs_info.block_size.toNat)
          (chunk_size fs_info bm c) read_buffer v = .ok (some b) ∧
        more.length = chunk_size fs_info bm c ∧
        (∀ b ∈ more, b.length = fs_info.block_size.toNat) ∧
        chunk_bytes fs_info img_opt bm cur c more <+: read_buffer ∧
        read_inv img_opt b
          (emit (digest_of img_opt) img_opt.blocks_per_checksum.toNat cur more).2 ∧
        b.write_buffer = overlay 0 v.write_buffer 0 more.flatten := by
  have hneedeq : chunk_need fs_info img_opt bm c = _ := chunk_need_eq c
  have htest := tail_test_iff img_opt bm halign hc
  have hlast : chunk_size fs_info bm c < capacity fs_info.block_size.toNat →
      c + chunk_size fs_info bm c = used_count fs_info bm := by unfold chunk_size; omega
  set n := chunk_size fs_info bm c with hn
  set bs := fs_info.block_size.toNat with hbsdef
  set g := img_opt.blocks_per_checksum.toNat with hgdef
  have hcurlt : cur.filled < g := by rw [hfilled]; exact Nat.mod_lt _ hg
  -- a buffer that begins with a chunk is scanned into it
  have hscan : ∀ more, more.length = n → (∀ b ∈ more, b.length = bs) →
      chunk_bytes fs_info img_opt bm cur c more <+: read_buffer →
      scan (digest_of img_opt) g bs img_opt.checksum_size.toNat n cur read_buffer
        = some (more, (emit (digest_of img_opt) g cur more).2,
          (emit (digest_of img_opt) g cur more).1.length) := by
    rintro more h1 h2 ⟨rest, h3⟩
    rw [← h3, chunk_bytes, List.append_assoc, ← h1]
    exact scan_emit (digest_of img_opt) g (m := img_opt.checksum_size.toNat) (fun a => a.2) cur h2 _
  have hloop := restore_blocks_spec hbs hbs' hfits hread n 0 v cur hv
    (by rw [hoff, hfilled, ← hbsdef, ← hgdef]; omega) (by rw [Nat.zero_add]; exact hwrite) hwlen
  rw [← hbsdef, ← hgdef, hoff, List.drop_zero, Nat.zero_mul] at hloop
  rcases hloop with ⟨hnone, hloop⟩ | ⟨more, c', used, b, hsome, hloop, hb, hboff, hbwrite⟩
  · refine Or.inl ⟨by simp only [restore_chunk, hloop, ok_bind, pure_eq], fun more h1 h2 h3 => ?_⟩
    rw [hscan more h1 h2 h3] at hnone
    cases hnone
  obtain ⟨hmore, hused, hc'⟩ := scan_used (digest_of img_opt) g hg hcurlt hsome
  rw [hfilled] at hused hc'
  obtain ⟨-, hmorebs, hemit⟩ := emit_of_scan (digest_of img_opt) g hsome (by omega)
  have hemit1 : (emit (digest_of img_opt) g cur more).1 = read_buffer.take used := by rw [hemit]
  have hemit2 : (emit (digest_of img_opt) g cur more).2 = c' := by rw [hemit]
  rw [Nat.zero_add] at hboff
  have htailtest := tail_code_iff img_opt bm hg halign hc
    (show b.blocks_in_cs = (c + n) % g by rw [hb.filled, hc', Nat.mod_add_mod])
  rw [← hn, ← hbsdef, ← hgdef] at htailtest
  by_cases htail : c + n = used_count fs_info bm ∧ tail_checked fs_info img_opt bm
  · rw [if_pos htail] at hneedeq
    have hload : load read_buffer b.read_offset img_opt.checksum_size.toNat
        = .ok (slice read_buffer used img_opt.checksum_size.toNat) := by
      rw [hboff, load_of_le (by omega)]
    have hrun : restore_chunk fs_info img_opt (capacity bs) n read_buffer v
        = .ok (if slice read_buffer used img_opt.checksum_size.toNat = b.checksum then some b
          else none) := by
      simp only [restore_chunk, hloop, ok_bind, ← hgdef]
      rw [if_pos (htailtest.mpr htail), hload]
      rfl
    have hdig : ∀ x : Cursor (Bytes img_opt.checksum_size.toNat),
        tail_digest fs_info img_opt bm x (c + n) = x.sum.1 := fun x => if_pos htail
    by_cases hmatch : slice read_buffer used img_opt.checksum_size.toNat = b.checksum
    · refine Or.inr ⟨more, b, by rw [hrun, if_pos hmatch], hmore, hmorebs, ?_,
        by rw [hemit2]; exact hb, hbwrite⟩
      rw [chunk_bytes, hmore, ← hgdef, hemit2, hdig, hemit1, ← hb.checksum, ← hmatch, slice,
        ← List.take_add]
      exact List.take_prefix _ _
    · refine Or.inl ⟨by rw [hrun, if_neg hmatch], fun more' h1 h2 h3 => hmatch ?_⟩
      have hsame := hscan more' h1 h2 h3
      rw [hsome] at hsame
      obtain rfl : more = more' := congrArg Prod.fst (Option.some.inj hsame)
      obtain ⟨rest, hrest⟩ := h3
      have hlen : (emit (digest_of img_opt) g cur more).1.length = used := by
        rw [hemit1, List.length_take]; omega
      rw [chunk_bytes, hmore, ← hgdef, hdig, List.append_assoc] at hrest
      rw [slice, ← hrest, List.drop_left' hlen,
        List.take_left' (emit (digest_of img_opt) g cur more).2.sum.2, hemit2, hb.checksum]
  · have hrun : restore_chunk fs_info img_opt (capacity bs) n read_buffer v = .ok (some b) := by
      simp only [restore_chunk, hloop, ok_bind, ← hgdef]
      rw [if_neg fun h => htail (htailtest.mp h)]
      rfl
    refine Or.inr ⟨more, b, hrun, hmore, hmorebs, ?_, by rw [hemit2]; exact hb, hbwrite⟩
    rw [chunk_bytes, hmore, ← hgdef, tail_digest, if_neg htail, List.append_nil, hemit1]
    exact List.take_prefix _ _

end Chunk

/-! ## The passes

A pass reads, takes apart and lays down, in this order. Its invariant is about what has been
accepted so far, and its failure about the places of that. -/

section Passes

variable (fs_info : file_system_info) (img_opt : image_options) (bm : bitmap) (w₀ : World)
  (c₀ : Cursor (Bytes img_opt.checksum_size.toNat)) (buffer_size write_size : ℕ)

/-- The blocks taken out so far, where they are, and what the variables say about them. The places
are the first of the marked ones, since chunks are laid down in order. -/
structure laid_down (v : restore_vars) (w : World) (blocks : List (List Byte)) : Prop where
  length_eq : blocks.length = w.copied_count
  verified : verified fs_info img_opt bm w₀.dfr c₀ blocks
  source : w.dfr.pos = w₀.dfr.pos + (checked fs_info img_opt bm c₀ blocks).length
  checksum : v.checksum
    = (emit (digest_of img_opt) img_opt.blocks_per_checksum.toNat c₀ blocks).2.sum.1
  filled : v.blocks_in_cs
    = (emit (digest_of img_opt) img_opt.blocks_per_checksum.toNat c₀ blocks).2.filled
  target : reachable fs_info.block_size.toNat ((marked fs_info bm 0).take blocks.length) →
    w₀.dfw.pos = 0 → w.dfw.pos = v.block_id * fs_info.block_size.toNat ∧
      w.dfw.data = scatter 0 fs_info.block_size.toNat w₀.dfw.data
        ((marked fs_info bm 0).take blocks.length) blocks

/-- What holds between two chunks of a restore that began in `w₀`. Everything read so far has been
accepted and laid down, so nothing is pending between chunks. -/
structure restore_inv (v : restore_vars) (w : World) : Prop where
  copied : w.copied_count ≤ used_count fs_info bm
  aligned : w.copied_count % capacity fs_info.block_size.toNat = 0
    ∨ w.copied_count = used_count fs_info bm
  block_id : v.block_id ≤ fs_info.totalblock.toNat
  used : marked fs_info bm v.block_id = (marked fs_info bm 0).drop w.copied_count
  read_buffer : v.read_buffer.length = buffer_size
  write_buffer : v.write_buffer.length = write_size
  follows : follows w₀ w
  ready : w.cks.ready img_opt.checksum_mode.toNat
  placed : ((marked fs_info bm 0).take w.copied_count).foldlM (place fs_info.block_size.toNat)
    (0, w₀.dfw.pos) = some (v.block_id, w.dfw.pos)
  laid_down : ∃ blocks, laid_down fs_info img_opt bm w₀ c₀ v w blocks

/-- A restore that nothing can disturb before block `d` of the stream: no outcome is
scheduled, the image is acceptable, and the target takes the blocks. -/
structure untroubled (d : ℕ) : Prop where
  sched : w₀.sched = []
  image : acceptable fs_info img_opt bm w₀.dfr c₀
  target : takes_blocks fs_info.block_size.toNat 0 w₀.dfw ((marked fs_info bm 0).take d)

/-- A chunk has failed: what has been written are accepted blocks, at their places. How many of
them, and whether the last one is there in full, is left open (`laid`). -/
structure restore_failed (w : World) : Prop where
  follows : Io.follows w₀ w
  target : ∃ blocks, ImageReader.verified fs_info img_opt bm w₀.dfr c₀ blocks ∧
    blocks.length ≤ used_count fs_info bm ∧
    (blocks.length % capacity fs_info.block_size.toNat = 0
      ∨ blocks.length = used_count fs_info bm) ∧
    (reachable fs_info.block_size.toNat (marked fs_info bm 0) → w₀.dfw.pos = 0 →
      laid 0 fs_info.block_size.toNat ((marked fs_info bm 0).take blocks.length) blocks
        w₀.dfw.data w.dfw.data)
  troubled : ∃ c < used_count fs_info bm, c % capacity fs_info.block_size.toNat = 0 ∧
    ¬ untroubled fs_info img_opt bm w₀ c₀ (c + chunk_size fs_info bm c)

/-- All chunks have been taken. -/
structure restored (w : World) : Prop where
  follows : Io.follows w₀ w
  laid_down : ∃ blocks, blocks.length = used_count fs_info bm ∧
    ImageReader.verified fs_info img_opt bm w₀.dfr c₀ blocks ∧
    w.dfr.pos = w₀.dfr.pos + (checked fs_info img_opt bm c₀ blocks).length ∧
    (reachable fs_info.block_size.toNat (marked fs_info bm 0) → w₀.dfw.pos = 0 →
      w.dfw.data = scatter 0 fs_info.block_size.toNat w₀.dfw.data (marked fs_info bm 0) blocks)

variable {fs_info img_opt bm w₀ c₀ buffer_size write_size} {v : restore_vars} {w : World}

/-- The length of a chunk, as the code computes it. The recomputed count and the number of marked
blocks are the same, below `2 ^ 63`. -/
theorem chunk_blocks_eq {c : ℕ} (hU : used_count fs_info bm < 2 ^ 63)
    (hc : c ≤ used_count fs_info bm) :
    chunk_blocks (capacity fs_info.block_size.toNat) (used_count fs_info bm) c
      = chunk_size fs_info bm c := by
  have hcap : capacity fs_info.block_size.toNat ≤ 2 ^ 20 := by
    unfold capacity
    have := Nat.div_le_self DEFAULT_BUFFER_SIZE fs_info.block_size.toNat
    have h20 : DEFAULT_BUFFER_SIZE = 2 ^ 20 := rfl
    omega
  unfold chunk_blocks chunk_size
  set bc := capacity fs_info.block_size.toNat
  set U := used_count fs_info bm
  rw [u64_of_lt (by omega)]
  split_ifs with h
  · rw [u32_of_lt (by omega)]; omega
  · rw [u64, show U + 2 ^ 64 - c = U - c + 2 ^ 64 by omega, Nat.add_mod_right,
      Nat.mod_eq_of_lt (by omega), u32_of_lt (by omega)]
    omega

/-- What a chunk reads, as the code computes it: an `int`. -/
theorem chunk_read_size_eq (img_opt : image_options) {c : ℕ} (hbs : 0 < fs_info.block_size.toNat)
    (hg : 0 < img_opt.blocks_per_checksum.toNat)
    (hU : used_count fs_info bm < 2 ^ 63) (hc : c < used_count fs_info bm)
    (halign : c % capacity fs_info.block_size.toNat = 0) :
    chunk_read_size fs_info img_opt (capacity fs_info.block_size.toNat) (used_count fs_info bm) c
      (chunk_size fs_info bm c) = i32 (chunk_need fs_info img_opt bm c) := by
  have hle := chunk_size_le fs_info bm hc.le
  have hm : img_opt.checksum_size.toNat < 2 ^ 16 := img_opt.checksum_size.isLt
  have hbsize : fs_info.block_size.toNat < 2 ^ 32 := fs_info.block_size.isLt
  have hcap : chunk_size fs_info bm c ≤ 2 ^ 20 := by
    have := Nat.div_le_self DEFAULT_BUFFER_SIZE fs_info.block_size.toNat
    have h20 : DEFAULT_BUFFER_SIZE = 2 ^ 20 := rfl
    unfold chunk_size capacity
    omega
  have hnbs : chunk_size fs_info bm c * fs_info.block_size.toNat < 2 ^ 32 := by
    have h1 := Nat.mul_le_mul_right fs_info.block_size.toNat
      (show chunk_size fs_info bm c ≤ capacity fs_info.block_size.toNat from Nat.min_le_left _ _)
    have h2 := capacity_mul_le fs_info.block_size.toNat
    have h20 : DEFAULT_BUFFER_SIZE = 2 ^ 20 := rfl
    omega
  have htest := tail_test_iff img_opt bm halign hc
  unfold chunk_need
  rw [chunk_read_size, convert_blocks_to_bytes_eq (by omega) hnbs (by omega) hg hm]
  set n := chunk_size fs_info bm c
  by_cases htail : c + n = used_count fs_info bm ∧ tail_checked fs_info img_opt bm
  · rw [if_pos htail, if_pos ⟨by omega, htest.mpr htail⟩, toInt32_i32_add]
  · rw [if_neg htail, Nat.add_zero, if_neg fun h => htail (htest.mp h.2)]

theorem reachable_take {block_size : ℕ} {idx : List ℕ} (h : reachable block_size idx) (n : ℕ) :
    reachable block_size (idx.take n) := fun x hx => h x (List.mem_of_mem_take hx)

/-- A chunk that fails before it is written. -/
theorem restore_inv.fail
    (hinv : restore_inv fs_info img_opt bm w₀ c₀ buffer_size write_size v w)
    (hlt : w.copied_count < used_count fs_info bm) {w' : World} (hf : Io.follows w w')
    (hdfw : w'.dfw = w.dfw)
    (htrouble : ¬ untroubled fs_info img_opt bm w₀ c₀
      (w.copied_count + chunk_size fs_info bm w.copied_count)) :
    restore_failed fs_info img_opt bm w₀ c₀ w' ∧
      ¬ untroubled fs_info img_opt bm w₀ c₀
        (w.copied_count + chunk_size fs_info bm w.copied_count) := by
  obtain ⟨blocks, hlaid⟩ := hinv.laid_down
  have halign := hinv.aligned.resolve_right (by omega)
  refine ⟨⟨hinv.follows.trans hf, ⟨blocks, hlaid.verified, by rw [hlaid.length_eq]; omega,
    Or.inl (by rw [hlaid.length_eq]; exact halign), fun hreach hpos => ?_⟩,
    _, hlt, halign, htrouble⟩, htrouble⟩
  rw [hdfw, (hlaid.target (reachable_take hreach _) hpos).2]
  exact laid_scatter 0 _ _ fun x hx => (hlaid.verified.lengths x hx).le

/-- Accepted blocks and an accepted chunk behind them. The chunk starts at the cursor that the
blocks before it leave, so the streams join. -/
theorem verified.append {blocks more : List (List Byte)}
    (hver : verified fs_info img_opt bm w₀.dfr c₀ blocks)
    (hlt : blocks.length < used_count fs_info bm)
    (hmore : ∀ b ∈ more, b.length = fs_info.block_size.toNat)
    (hchunk : chunk_bytes fs_info img_opt bm
        (emit (digest_of img_opt) img_opt.blocks_per_checksum.toNat c₀ blocks).2 blocks.length more
      <+: w₀.dfr.data.drop (w₀.dfr.pos + (checked fs_info img_opt bm c₀ blocks).length)) :
    ImageReader.verified fs_info img_opt bm w₀.dfr c₀ (blocks ++ more) := by
  refine ⟨fun x hx => ?_, ?_⟩
  · rcases List.mem_append.mp hx with h | h
    · exact hver.lengths x h
    · exact hmore x h
  · obtain ⟨rest, hrest⟩ := hver.accepted
    rw [← List.drop_drop, ← hrest, List.drop_left] at hchunk
    rw [checked_append hlt, ← hrest]
    exact (List.prefix_append_right_inj _).mpr hchunk

/-- The next chunk of marked blocks. -/
theorem restore_inv.take_marked
    (hinv : restore_inv fs_info img_opt bm w₀ c₀ buffer_size write_size v w) (n : ℕ) :
    (marked fs_info bm 0).take (w.copied_count + n)
      = (marked fs_info bm 0).take w.copied_count ++ (marked fs_info bm v.block_id).take n := by
  rw [hinv.used, List.take_add]

/-- The target of an untroubled run takes the next chunk. -/
theorem restore_inv.takes
    (hinv : restore_inv fs_info img_opt bm w₀ c₀ buffer_size write_size v w) {n : ℕ}
    (h : takes_blocks fs_info.block_size.toNat 0 w₀.dfw
      ((marked fs_info bm 0).take (w.copied_count + n))) :
    takes_blocks fs_info.block_size.toNat v.block_id w.dfw
      ((marked fs_info bm v.block_id).take n) := by
  obtain ⟨blocks, hlaid⟩ := hinv.laid_down
  rw [hinv.take_marked] at h
  rcases h with ⟨hgrow, s, hs⟩ | ⟨hpos, hreach, hin⟩
  · refine Or.inl ⟨hinv.follows.dfw_growable.trans hgrow, s, ?_⟩
    rwa [List.foldlM_append, hinv.placed, Option.bind_eq_bind, Option.bind_some] at hs
  · obtain ⟨hwpos, hdata⟩ := hlaid.target (fun x hx => hreach x (by
      rw [hlaid.length_eq] at hx
      exact List.mem_append_left _ hx)) (by rw [hpos, Nat.zero_mul])
    refine Or.inr ⟨hwpos, fun x hx => hreach x (List.mem_append_right _ hx), fun x hx => ?_⟩
    refine (hin x (List.mem_append_right _ hx)).trans ?_
    rw [hdata]
    exact length_le_scatter _ _ _ _ _

/-- **What is there when the image is acceptable**: the next chunk, where the source stands. -/
theorem restore_inv.next_there
    (hinv : restore_inv fs_info img_opt bm w₀ c₀ buffer_size write_size v w)
    {blocks : List (List Byte)}
    (hlaid : ImageReader.laid_down fs_info img_opt bm w₀ c₀ v w blocks)
    (hlt : w.copied_count < used_count fs_info bm)
    (hacc : acceptable fs_info img_opt bm w₀.dfr c₀) :
    ∃ more, more.length = chunk_size fs_info bm w.copied_count ∧
      (∀ x ∈ more, x.length = fs_info.block_size.toNat) ∧
      chunk_bytes fs_info img_opt bm
          (emit (digest_of img_opt) img_opt.blocks_per_checksum.toNat c₀ blocks).2 w.copied_count
          more
        <+: w.dfr.data.drop w.dfr.pos := by
  have h := next_chunk (by rw [hlaid.length_eq]; exact hlt) hlaid.verified hacc
  rw [hlaid.length_eq] at h
  rw [hinv.follows.dfr_data, hlaid.source]
  exact h

/-- The count behind a chunk is a whole number of chunks, or that of all blocks. -/
theorem chunk_end_aligned {c : ℕ} (hlt : c < used_count fs_info bm)
    (halign : c % capacity fs_info.block_size.toNat = 0) :
    (c + chunk_size fs_info bm c) % capacity fs_info.block_size.toNat = 0 ∨
      c + chunk_size fs_info bm c = used_count fs_info bm := by
  rcases chunk_aligned fs_info bm halign with h | h | h
  · exact Or.inl h
  · exact Or.inr h
  · omega

variable (fs_info img_opt bm c₀) in
/-- A chunk has been taken apart into `more`, and nothing of it is written yet: what is known of
the variables between the block loop and the write loop. -/
structure chunk_taken (v : restore_vars) (w : World) (blocks more : List (List Byte))
    (b : chunk_vars) : Prop where
  length_eq : more.length = chunk_size fs_info bm w.copied_count
  lengths : ∀ x ∈ more, x.length = fs_info.block_size.toNat
  chunk : chunk_bytes fs_info img_opt bm
      (emit (digest_of img_opt) img_opt.blocks_per_checksum.toNat c₀ blocks).2 w.copied_count more
    <+: w.dfr.data.drop w.dfr.pos
  read : read_inv img_opt b (emit (digest_of img_opt) img_opt.blocks_per_checksum.toNat
    (emit (digest_of img_opt) img_opt.blocks_per_checksum.toNat c₀ blocks).2 more).2
  write_buffer : b.write_buffer = overlay 0 v.write_buffer 0 more.flatten

section Taken

variable {blocks more : List (List Byte)} {b : chunk_vars} {w₃ w' : World}

theorem chunk_taken.length_append (h : chunk_taken fs_info img_opt bm c₀ v w blocks more b)
    (hlaid : laid_down fs_info img_opt bm w₀ c₀ v w blocks) :
    (blocks ++ more).length = w.copied_count + chunk_size fs_info bm w.copied_count := by
  rw [List.length_append, hlaid.length_eq, h.length_eq]

/-- The blocks of the chunk are accepted behind those that were. -/
theorem chunk_taken.verified (h : chunk_taken fs_info img_opt bm c₀ v w blocks more b)
    (hinv : restore_inv fs_info img_opt bm w₀ c₀ buffer_size write_size v w)
    (hlaid : laid_down fs_info img_opt bm w₀ c₀ v w blocks)
    (hlt : w.copied_count < used_count fs_info bm) :
    ImageReader.verified fs_info img_opt bm w₀.dfr c₀ (blocks ++ more) := by
  refine hlaid.verified.append (by rw [hlaid.length_eq]; exact hlt) h.lengths ?_
  rw [hlaid.length_eq, ← hlaid.source, ← hinv.follows.dfr_data]
  exact h.chunk

/-- The write buffer begins with them. -/
theorem chunk_taken.take_buffer (h : chunk_taken fs_info img_opt bm c₀ v w blocks more b) :
    b.write_buffer.take (chunk_size fs_info bm w.copied_count * fs_info.block_size.toNat)
      = more.flatten := by
  have htake := take_overlay_zero (0 : Byte) v.write_buffer more.flatten
  rw [flatten_length_of_length h.lengths, h.length_eq] at htake
  rw [h.write_buffer]
  exact htake

/-- **A write loop that failed** has laid down a part of the chunk, behind the blocks there were. -/
theorem chunk_taken.part (h : chunk_taken fs_info img_opt bm c₀ v w blocks more b)
    (hinv : restore_inv fs_info img_opt bm w₀ c₀ buffer_size write_size v w)
    (hlaid : laid_down fs_info img_opt bm w₀ c₀ v w blocks)
    (hlt : w.copied_count < used_count fs_info bm) (hdfw : w₃.dfw = w.dfw)
    (hfailed : write_failed fs_info bm (chunk_size fs_info bm w.copied_count) more v.block_id w₃ w')
    (hreach : reachable fs_info.block_size.toNat (marked fs_info bm 0)) (hpos : w₀.dfw.pos = 0) :
    laid 0 fs_info.block_size.toNat ((marked fs_info bm 0).take (blocks ++ more).length)
      (blocks ++ more) w₀.dfw.data w'.dfw.data := by
  have hsubset : ∀ x ∈ (marked fs_info bm v.block_id).take (chunk_size fs_info bm w.copied_count),
      x ∈ marked fs_info bm 0 := by
    intro x hx
    rw [hinv.used] at hx
    exact List.mem_of_mem_drop (List.mem_of_mem_take hx)
  obtain ⟨hwpos, hdata⟩ := hlaid.target (reachable_take hreach _) hpos
  have hpart := hfailed.target (fun x hx => hreach x (hsubset x hx)) (by rw [hdfw]; exact hwpos)
  rw [hdfw, hdata] at hpart
  rw [h.length_append hlaid, hinv.take_marked]
  refine laid.append ?_ ?_ hpart
  · rw [List.length_take, ← hlaid.length_eq, ← used_count]
    exact Nat.min_eq_left (by rw [hlaid.length_eq]; exact hlt.le)
  · rw [hlaid.length_eq]
    exact laid_scatter 0 _ _ fun x hx => (hlaid.verified.lengths x hx).le

/-- **A write loop that came to its end** has laid down all of it. -/
theorem chunk_taken.laid_down (h : chunk_taken fs_info img_opt bm c₀ v w blocks more b)
    (hg : 0 < img_opt.blocks_per_checksum.toNat) (h₀ : c₀.filled = 0)
    (hinv : restore_inv fs_info img_opt bm w₀ c₀ buffer_size write_size v w)
    (hlaid : ImageReader.laid_down fs_info img_opt bm w₀ c₀ v w blocks)
    (hlt : w.copied_count < used_count fs_info bm) (hdfw : w₃.dfw = w.dfw)
    (hdfr : w₃.dfr.pos = w.dfr.pos + chunk_need fs_info img_opt bm w.copied_count)
    (hcopied : w₃.copied_count = w.copied_count) {wv : write_vars} (buffer : List Byte)
    (hat : write_at fs_info bm (chunk_size fs_info bm w.copied_count) more v.block_id w₃ wv w')
    (hwn : wv.blocks_written = chunk_size fs_info bm w.copied_count) :
    ImageReader.laid_down fs_info img_opt bm w₀ c₀
      ⟨wv.block_id, buffer, b.write_buffer, b.checksum, b.blocks_in_cs⟩ w' (blocks ++ more) := by
  have hlenmore := h.length_append hlaid
  refine ⟨?_, h.verified hinv hlaid hlt, ?_, ?_, ?_, fun hreach hpos => ?_⟩
  · rw [hlenmore, hat.count, hcopied, hwn]
  · have hfilled := @cursor_filled img_opt c₀ hg h₀ blocks
    rw [hlaid.length_eq] at hfilled
    have hl := chunk_bytes_length bm hg hfilled h.length_eq h.lengths
    rw [hat.dfr, hdfr, checked_append (by rw [hlaid.length_eq]; exact hlt), List.length_append,
      hlaid.length_eq, hl, ← Nat.add_assoc, ← hlaid.source]
  · rw [emit_append]
    exact h.read.checksum
  · rw [emit_append]
    exact h.read.filled
  · rw [hlenmore, hinv.take_marked] at hreach ⊢
    obtain ⟨hwpos, hdata⟩ := hlaid.target (fun x hx => hreach x (by
      rw [hlaid.length_eq] at hx
      exact List.mem_append_left _ hx)) hpos
    obtain ⟨hwpos', hdata'⟩ := hat.target
      (fun x hx => hreach x (List.mem_append_right _ hx)) (by rw [hdfw]; exact hwpos)
    refine ⟨hwpos', ?_⟩
    rw [hdata', hwn, hdfw, hdata, hlaid.length_eq,
      List.take_of_length_le (l := more) (by rw [h.length_eq]), scatter_append 0 _ _ (by
        rw [List.length_take, hlaid.length_eq]
        exact Nat.min_eq_left hlt.le)]

/-- **The write loop of a chunk**: it comes to its end, and the invariant holds again with the
chunk's blocks, or it fails with a part of them laid down. `w₃` is the state it starts in, which
differs from that of the pass in what the read and the block loop have done. -/
theorem restore_write_spec (hbs : 0 < fs_info.block_size.toNat)
    (hg : 0 < img_opt.blocks_per_checksum.toNat) (h₀ : c₀.filled = 0)
    (hU : used_count fs_info bm < 2 ^ 63)
    (hbytes : chunk_size fs_info bm w.copied_count * fs_info.block_size.toNat < 2 ^ 31)
    (hwrite : capacity fs_info.block_size.toNat * fs_info.block_size.toNat ≤ write_size)
    (hinv : restore_inv fs_info img_opt bm w₀ c₀ buffer_size write_size v w)
    (hlaid : ImageReader.laid_down fs_info img_opt bm w₀ c₀ v w blocks)
    (hlt : w.copied_count < used_count fs_info bm)
    (htaken : chunk_taken fs_info img_opt bm c₀ v w blocks more b)
    {buffer : List Byte} (hbuffer : buffer.length = buffer_size) (hf : Io.follows w w₃)
    (hdfw : w₃.dfw = w.dfw)
    (hdfr : w₃.dfr.pos = w.dfr.pos + chunk_need fs_info img_opt bm w.copied_count)
    (hcopied : w₃.copied_count = w.copied_count) (hcks : w₃.cks = b.cks) :
    ∃ wr w₄, passes (restore_write_pass fs_info bm (chunk_size fs_info bm w.copied_count)
          b.write_buffer) (chunk_size fs_info bm w.copied_count + 1) ⟨v.block_id, 0⟩ w₃
        = .ok (wr, w₄) ∧
      match wr with
      | none => restore_failed fs_info img_opt bm w₀ c₀ w₄ ∧
          ¬ untroubled fs_info img_opt bm w₀ c₀
            (w.copied_count + chunk_size fs_info bm w.copied_count)
      | some wv => restore_inv fs_info img_opt bm w₀ c₀ buffer_size write_size
            ⟨wv.block_id, buffer, b.write_buffer, b.checksum, b.blocks_in_cs⟩ w₄ ∧
          w₄.copied_count = w.copied_count + chunk_size fs_info bm w.copied_count := by
  have halign : w.copied_count % capacity fs_info.block_size.toNat = 0 :=
    hinv.aligned.resolve_right (by omega)
  have hnpos : 0 < chunk_size fs_info bm w.copied_count := chunk_size_pos hlt
  have hcn := chunk_size_le fs_info bm hlt.le
  have hlenmore := htaken.length_append hlaid
  have hwriteinv : write_at fs_info bm (chunk_size fs_info bm w.copied_count) more v.block_id w₃
      ⟨v.block_id, 0⟩ w₃ :=
    ⟨hinv.block_id, rfl, rfl, follows.refl _, rfl, rfl, rfl, fun _ hpos => ⟨hpos, rfl⟩⟩
  obtain ⟨wr, w₄, hpasses, hends⟩ := passes_spec
    (restore_write_pass fs_info bm (chunk_size fs_info bm w.copied_count) b.write_buffer)
    (fun v' _ => chunk_size fs_info bm w.copied_count - v'.blocks_written)
    (fun v' w' h => restore_write_pass_spec hbs hbytes
      (by rw [hinv.used, List.length_drop]; exact Nat.min_le_right _ _) htaken.length_eq
      htaken.lengths htaken.take_buffer (by rw [hcopied]; omega) h.1 h.2)
    (chunk_size fs_info bm w.copied_count + 1) ⟨v.block_id, 0⟩ w₃ (by dsimp only; omega)
    ⟨hwriteinv, hnpos⟩
  refine ⟨wr, w₄, hpasses, ?_⟩
  cases wr with
  | none =>
      have htrouble : ¬ untroubled fs_info img_opt bm w₀ c₀
          (w.copied_count + chunk_size fs_info bm w.copied_count) := by
        intro h
        refine hends.refused ⟨(hinv.follows.trans hf).sched_nil h.sched, ?_⟩
        rw [hdfw]
        exact hinv.takes h.target
      refine ⟨⟨hinv.follows.trans (hf.trans hends.follows), ⟨blocks ++ more,
        htaken.verified hinv hlaid hlt, by rw [hlenmore]; exact hcn, ?_,
        htaken.part hinv hlaid hlt hdfw hends⟩, _, hlt, halign, htrouble⟩, htrouble⟩
      rw [hlenmore]
      exact chunk_end_aligned hlt halign
  | some wv =>
      obtain ⟨hat, hwn⟩ := hends
      have hcount : w₄.copied_count = w.copied_count + chunk_size fs_info bm w.copied_count := by
        rw [hat.count, hcopied, hwn]
      refine ⟨⟨?_, ?_, hat.block_id, ?_, hbuffer, ?_, hinv.follows.trans (hf.trans hat.follows), ?_,
        ?_, blocks ++ more,
        htaken.laid_down hg h₀ hinv hlaid hlt hdfw hdfr hcopied buffer hat hwn⟩, hcount⟩
      · rw [hcount]
        exact hcn
      · rw [hcount]
        exact chunk_end_aligned hlt halign
      · dsimp only
        rw [hat.used, hinv.used, hwn, List.drop_drop, hcount]
      · dsimp only
        rw [htaken.write_buffer, overlay_length, hinv.write_buffer,
          flatten_length_of_length htaken.lengths, htaken.length_eq]
        have := Nat.mul_le_mul_right fs_info.block_size.toNat
          (show chunk_size fs_info bm w.copied_count ≤ capacity fs_info.block_size.toNat from
            Nat.min_le_left _ _)
        omega
      · rw [hat.cks, hcks]
        exact htaken.read.ready
      · have h := hat.placed
        rw [hwn, hdfw] at h
        rw [hcount, hinv.take_marked, List.foldlM_append, hinv.placed, Option.bind_eq_bind,
          Option.bind_some]
        exact h

end Taken

/-- **One chunk**, when its bytes fit the buffer. Its bytes are read in one transfer, taken apart,
and only then are the blocks laid down, so a pass that ends in an error has touched the target
only if all of the chunk had been accepted. -/
theorem restore_pass_spec (hbs : 0 < fs_info.block_size.toNat)
    (hg : 0 < img_opt.blocks_per_checksum.toNat) (hfits : checksum_fits img_opt)
    (h₀ : c₀.filled = 0) (hU : used_count fs_info bm < 2 ^ 63)
    (hbuf : buffer_size < 2 ^ 32) (hwbuf : write_size < 2 ^ 32)
    (hwrite : capacity fs_info.block_size.toNat * fs_info.block_size.toNat ≤ write_size)
    (hinv : restore_inv fs_info img_opt bm w₀ c₀ buffer_size write_size v w)
    (hneed : w.copied_count < used_count fs_info bm →
      chunk_need fs_info img_opt bm w.copied_count < 2 ^ 31 ∧
        chunk_need fs_info img_opt bm w.copied_count ≤ buffer_size) :
    ∃ p w', restore_pass fs_info img_opt (capacity fs_info.block_size.toNat)
        (used_count fs_info bm) bm v w = .ok (p, w') ∧
      p.leads (fun v' w' => restore_inv fs_info img_opt bm w₀ c₀ buffer_size write_size v' w' ∧
          w'.copied_count = w.copied_count + chunk_size fs_info bm w.copied_count ∧
          w.copied_count < used_count fs_info bm)
        (fun _ w' => restored fs_info img_opt bm w₀ c₀ w' ∧
          w.copied_count = used_count fs_info bm)
        (fun w' => restore_failed fs_info img_opt bm w₀ c₀ w' ∧
          ¬ untroubled fs_info img_opt bm w₀ c₀
            (w.copied_count + chunk_size fs_info bm w.copied_count)) w' := by
  obtain ⟨blocks, hlaid⟩ := hinv.laid_down
  have hchunk := chunk_blocks_eq hU hinv.copied
  rcases Nat.eq_or_lt_of_le hinv.copied with hend | hlt
  · -- all blocks have been taken
    have hzero : chunk_size fs_info bm w.copied_count = 0 := by
      unfold chunk_size; omega
    refine ⟨.done v, w, ?_, ⟨hinv.follows, blocks, hlaid.length_eq.trans hend, hlaid.verified,
      hlaid.source, fun hreach hpos => ?_⟩, hend⟩
    · simp only [restore_pass, hchunk, hzero, if_true, pure_eq]
    · rw [(hlaid.target (reachable_take hreach _) hpos).2, hlaid.length_eq, hend, List.take_length]
  obtain ⟨hneed31, hneedbuf⟩ := hneed hlt
  have halign : w.copied_count % capacity fs_info.block_size.toNat = 0 :=
    hinv.aligned.resolve_right (by omega)
  have hnpos : 0 < chunk_size fs_info bm w.copied_count := chunk_size_pos hlt
  have hncap : chunk_size fs_info bm w.copied_count ≤ capacity fs_info.block_size.toNat :=
    Nat.min_le_left _ _
  have hnbs : chunk_size fs_info bm w.copied_count * fs_info.block_size.toNat
      ≤ chunk_need fs_info img_opt bm w.copied_count := by
    unfold chunk_need; omega
  have hbs31 : fs_info.block_size.toNat < 2 ^ 31 :=
    lt_of_le_of_lt ((Nat.le_mul_of_pos_left _ hnpos).trans hnbs) hneed31
  have hsize := (chunk_read_size_eq img_opt hbs hg hU hlt halign).trans
    (i32_of_lt hneed31)
  have hu64 := u64OfInt_natCast
    (show chunk_need fs_info img_opt bm w.copied_count < 2 ^ 64 by omega)
  have hn0 : ¬ chunk_size fs_info bm w.copied_count = 0 := by omega
  set cur := (emit (digest_of img_opt) img_opt.blocks_per_checksum.toNat c₀ blocks).2 with hcur
  have hfilled : cur.filled = w.copied_count % img_opt.blocks_per_checksum.toNat := by
    rw [hcur, cursor_filled hg h₀, hlaid.length_eq]
  -- the read
  obtain ⟨e, he, r, w₂, hread, hf₂, hlen, hdfr₂, hdfw₂, hcks₂, hcopied₂, -, hr, -, hfull⟩ :=
    read_io_all_follows w v.read_buffer hneed31 (by rw [hinv.read_buffer]; exact hneedbuf)
  by_cases he' : e = chunk_need fs_info img_opt bm w.copied_count
  swap
  · refine ⟨.fail, w₂, ?_, hinv.fail hlt hf₂ hdfw₂ fun h => ?_⟩
    · simp only [restore_pass, hchunk, hn0, if_false, hsize, hu64, hread, ok_bind, ne_eq, hr, he',
        not_false_eq_true, if_true, pure_eq]
    · obtain ⟨more, h1, h2, h3⟩ := hinv.next_there hlaid hlt h.image
      refine he' (hfull (hinv.follows.sched_nil h.sched) ?_)
      have hl := h3.length_le
      rw [List.length_drop, chunk_bytes_length bm hg hfilled h1 h2] at hl
      have hpos := lt_of_lt_of_le (Nat.mul_pos hnpos hbs) hnbs
      omega
  subst he'
  have hrn := hr.mpr rfl
  set need := chunk_need fs_info img_opt bm w.copied_count with hneeddef
  set buffer := overlay 0 v.read_buffer 0 (slice w.dfr.data w.dfr.pos need) with hbuffer
  have hbuflen : buffer.length = buffer_size := by
    rw [hbuffer, overlay_length, hlen, hinv.read_buffer]; omega
  have hbuftake : buffer.take need = slice w.dfr.data w.dfr.pos need := by
    have h := take_overlay_zero (0 : Byte) v.read_buffer (slice w.dfr.data w.dfr.pos need)
    rwa [hlen] at h
  -- a chunk at the position is a chunk in the buffer, and back
  have hshift : ∀ more, more.length = chunk_size fs_info bm w.copied_count →
      (∀ b ∈ more, b.length = fs_info.block_size.toNat) →
      (chunk_bytes fs_info img_opt bm cur w.copied_count more <+: buffer ↔
        chunk_bytes fs_info img_opt bm cur w.copied_count more <+: w.dfr.data.drop w.dfr.pos) := by
    intro more h1 h2
    have hl := chunk_bytes_length bm hg hfilled h1 h2
    rw [List.prefix_iff_eq_take, List.prefix_iff_eq_take, hl, ← hneeddef, hbuftake, slice]
  -- the block loop and the trailing digest
  have hstart : read_inv img_opt ⟨v.write_buffer, v.checksum, v.blocks_in_cs, 0, w₂.cks⟩ cur :=
    ⟨hlaid.checksum, hlaid.filled, by rw [hfilled]; exact Nat.mod_lt _ hg,
      by rw [hcks₂]; exact hinv.ready⟩
  rcases restore_chunk_spec hbs hbs31 hg hfits hlt halign hfilled buffer
    (by omega) (by omega) hstart rfl
    (by
      rw [hinv.write_buffer]
      exact (Nat.mul_le_mul_right _ hncap).trans hwrite)
    (by rw [hinv.write_buffer]; exact hwbuf) with
    ⟨hrun, hno⟩ | ⟨more, b, hrun, hmore, hmorebs, hpre, hb, hbwrite⟩
  · refine ⟨.fail, w₂, ?_, hinv.fail hlt hf₂ hdfw₂ fun h => ?_⟩
    · simp only [restore_pass, hchunk, hn0, if_false, hsize, hu64, hread, ok_bind, ne_eq, hrn,
        not_true_eq_false, hrun, pure_eq]
    · obtain ⟨more, h1, h2, h3⟩ := hinv.next_there hlaid hlt h.image
      exact hno more h1 h2 ((hshift more h1 h2).mpr h3)
  -- the write loop
  have htaken : chunk_taken fs_info img_opt bm c₀ v w blocks more b :=
    ⟨hmore, hmorebs, (hshift more hmore hmorebs).mp hpre, hb, hbwrite⟩
  have hf₃ : Io.follows w { w₂ with cks := b.cks } :=
    hf₂.trans (follows_moved _ _ _ _ _)
  obtain ⟨wr, w₄, hpasses, hends⟩ := restore_write_spec hbs hg h₀ hU
    (lt_of_le_of_lt hnbs hneed31) hwrite hinv hlaid hlt htaken hbuflen hf₃ hdfw₂
    (congrArg File.pos hdfr₂) hcopied₂ rfl
  cases wr with
  | none =>
      refine ⟨.fail, w₄, ?_, hends⟩
      simp only [restore_pass, hchunk, hn0, if_false, hsize, hu64, hread, ok_bind, ne_eq, hrn,
        not_true_eq_false, hrun, hpasses, pure_eq]
  | some wv =>
      refine ⟨.next ⟨wv.block_id, buffer, b.write_buffer, b.checksum, b.blocks_in_cs⟩, w₄, ?_,
        hends.1, hends.2, hlt⟩
      simp only [restore_pass, hchunk, hn0, if_false, hsize, hu64, hread, ok_bind, ne_eq, hrn,
        not_true_eq_false, hrun, hpasses, pure_eq]

end Passes

/-! ## The run -/

/-- The first loop counts the marked blocks. It is the recount that the chunks are cut from. -/
theorem blocks_used_loop_eq (bm : bitmap) {total : ℕ} :
    ∀ fuel b, b + fuel = total →
      blocks_used_loop bm total fuel b = (used_from bm total b).length := by
  intro fuel
  induction fuel with
  | zero => intro b hb; rw [used_from_of_ge (by omega)]; rfl
  | succ fuel ih =>
      intro b hb
      have hlt : b < total := by omega
      rw [blocks_used_loop, ih (b + 1) (by omega)]
      by_cases hbit : bit bm b = true
      · rw [if_pos ((pc_test_bit_ne_zero bm hlt).mpr hbit), used_from_of_bit hlt hbit,
          List.length_cons, Nat.add_comm]
      · rw [if_neg fun h => hbit ((pc_test_bit_ne_zero bm hlt).mp h),
          used_from_of_not_bit hlt (by simpa using hbit), Nat.zero_add]

/-- The superblock's own count is not used. -/
theorem get_blocks_used_eq (total usedblocks : ℕ) (bm : bitmap) :
    get_blocks_used total bm usedblocks = (used_from bm total 0).length := by
  rw [get_blocks_used, blocks_used_loop_eq bm total 0 (Nat.zero_add total)]
  split_ifs with h
  · rfl
  · simpa using (not_not.mp h).symm

/-- What is allocated for a chunk. -/
def read_buffer_size (fs_info : file_system_info) (img_opt : image_options) : ℕ :=
  u32 (convert_blocks_to_bytes 0 (capacity fs_info.block_size.toNat) fs_info.block_size.toNat
    img_opt.blocks_per_checksum.toNat img_opt.checksum_size.toNat)

/-- Every chunk fits an `int` and the buffer. It is enough to ask it of the places where a chunk
can start, which are a buffer's worth of blocks apart. -/
def chunks_fit (fs_info : file_system_info) (img_opt : image_options) (bm : bitmap) : Prop :=
  ∀ c < used_count fs_info bm, c % capacity fs_info.block_size.toNat = 0 →
    chunk_need fs_info img_opt bm c < 2 ^ 31 ∧
      chunk_need fs_info img_opt bm c ≤ read_buffer_size fs_info img_opt

/-- A file that takes all the blocks takes the first of them. -/
theorem takes_blocks_take {block_size b : ℕ} {f : File} {idx : List ℕ}
    (h : takes_blocks block_size b f idx) (d : ℕ) : takes_blocks block_size b f (idx.take d) := by
  rcases h with ⟨hgrow, s, hs⟩ | ⟨hpos, hreach, hin⟩
  · refine Or.inl ⟨hgrow, ?_⟩
    rw [← List.take_append_drop d idx, List.foldlM_append] at hs
    obtain ⟨s', hs', -⟩ := Option.bind_eq_some_iff.mp hs
    exact ⟨s', hs'⟩
  · exact Or.inr ⟨hpos, reachable_take hreach d, fun x hx => hin x (List.mem_of_mem_take hx)⟩

/-- The variables of the first chunk. -/
def restore_start (fs_info : file_system_info) (img_opt : image_options) (host : Host) :
    restore_vars :=
  ⟨0, host.junk .read_buffer (read_buffer_size fs_info img_opt),
    host.junk .write_buffer (capacity fs_info.block_size.toNat * fs_info.block_size.toNat),
    ((digest_of img_opt).reset (stale_checksum host img_opt)).1, 0⟩

/-- Before the first chunk nothing has been accepted, and the target is at its start. -/
theorem restore_inv_start {fs_info : file_system_info} {img_opt : image_options} {bm : bitmap}
    (host : Host) (w : World) (hcopied : w.copied_count = 0) {lib : checksum_lib}
    (hready : lib.ready img_opt.checksum_mode.toNat) :
    restore_inv fs_info img_opt bm { w with dfw := { w.dfw with pos := 0 }, cks := lib }
      (start_cursor img_opt (stale_checksum host img_opt)) (read_buffer_size fs_info img_opt)
      (capacity fs_info.block_size.toNat * fs_info.block_size.toNat)
      (restore_start fs_info img_opt host)
      { w with dfw := { w.dfw with pos := 0 }, cks := lib } := by
  have hstart : verified fs_info img_opt bm w.dfr
      (start_cursor img_opt (stale_checksum host img_opt)) [] :=
    ⟨by simp, by rw [checked_nil]; exact List.nil_prefix⟩
  refine ⟨?_, Or.inl ?_, Nat.zero_le _, ?_, junk_length _ _ _, junk_length _ _ _, follows.refl _,
    hready, ?_, [], hcopied.symm, hstart, by rw [checked_nil]; rfl, rfl, rfl, fun _ _ => ?_⟩
  · exact hcopied.trans_le (Nat.zero_le _)
  · dsimp only
    rw [hcopied, Nat.zero_mod]
  · dsimp only
    rw [hcopied]
    rfl
  · dsimp only
    rw [hcopied]
    rfl
  · exact ⟨(Nat.zero_mul _).symm, by simp⟩

/-- **The call comes to its first chunk**, at the start of the target, or memory is short. Both
buffers and the array are allocated here, and the target is positioned at 0. -/
theorem read_write_data_restore_start {fs_info : file_system_info} {img_opt : image_options}
    (bm : bitmap) (hbs : 0 < fs_info.block_size.toNat) (hfits : checksum_fits img_opt) (host : Host)
    (w : World) (hcopied : w.copied_count = 0) :
    (read_write_data_restore fs_info img_opt host bm w = .ok (false, w) ∧
        ¬ ∀ size, host.malloc size = true) ∨
      ∃ w₀, follows w w₀ ∧ w₀.dfr = w.dfr ∧ w₀.dfw = { w.dfw with pos := 0 } ∧
        restore_inv fs_info img_opt bm w₀ (start_cursor img_opt (stale_checksum host img_opt))
          (read_buffer_size fs_info img_opt)
          (capacity fs_info.block_size.toNat * fs_info.block_size.toNat)
          (restore_start fs_info img_opt host) w₀ ∧
        w₀.copied_count = 0 ∧
        read_write_data_restore fs_info img_opt host bm w
          = passes (restore_pass fs_info img_opt (capacity fs_info.block_size.toNat)
              (used_count fs_info bm) bm) (used_count fs_info bm + 1)
              (restore_start fs_info img_opt host) w₀ >>= fun r => .ok (r.1.isSome, r.2) := by
  have hcapmul := capacity_mul_le fs_info.block_size.toNat
  have hbsize : fs_info.block_size.toNat < 2 ^ 32 := fs_info.block_size.isLt
  have hmega : DEFAULT_BUFFER_SIZE = 2 ^ 20 := rfl
  have hwsize : u32 (capacity fs_info.block_size.toNat * fs_info.block_size.toNat)
      = capacity fs_info.block_size.toNat * fs_info.block_size.toNat := u32_of_lt (by omega)
  have hrsize : u32 (convert_blocks_to_bytes 0 (capacity fs_info.block_size.toNat)
      fs_info.block_size.toNat img_opt.blocks_per_checksum.toNat img_opt.checksum_size.toNat)
      = read_buffer_size fs_info img_opt := rfl
  have hcount : get_blocks_used fs_info.totalblock.toNat bm fs_info.usedblocks.toNat
      = used_count fs_info bm := get_blocks_used_eq _ _ bm
  -- only the two buffers can be refused here
  by_cases hmem : (host.malloc (read_buffer_size fs_info img_opt)
      && host.malloc (capacity fs_info.block_size.toNat * fs_info.block_size.toNat)) = true
  swap
  · refine Or.inl ⟨?_, fun h => hmem (by simp [h])⟩
    simp only [read_write_data_restore, buffer_capacity_of_pos hbs, ok_bind, hrsize, hwsize, hmem,
      Bool.not_false, if_true, pure_eq]
  have hseek : seek_dfw w 0 = (true, { w with dfw := { w.dfw with pos := 0 } }) := by
    rcases seek_dfw_spec w 0 (by omega) with ⟨h, -⟩ | ⟨-, h⟩
    · exact h
    · omega
  obtain ⟨lib, hinit, hready⟩ := init_checksum_ok w.cks hfits (stale_checksum host img_opt)
  have hinit' : init_checksum w.cks img_opt.checksum_mode.toNat
      (host.junk .checksum img_opt.checksum_size.toNat)
      = .ok (((digest_of img_opt).reset (stale_checksum host img_opt)).1, lib) := hinit
  set w₀ : World := { w with dfw := { w.dfw with pos := 0 }, cks := lib } with hw₀
  refine Or.inr ⟨w₀, follows_moved _ _ _ _ _, rfl, rfl,
    restore_inv_start host w hcopied hready, hcopied, ?_⟩
  simp only [read_write_data_restore, buffer_capacity_of_pos hbs, ok_bind, hrsize, hwsize, hmem,
    Bool.not_true, Bool.false_eq_true, if_false, hseek, hinit', hcount, pure_eq]
  rfl

/-- **`read_write_data_restore` returns** when every chunk fits. With `TRUE` the whole data
section was accepted and its blocks are in place; with `FALSE` an accepted front part of it has
been touched at most. The measure is the number of blocks still owed: a pass that goes on has laid
down a chunk of at least one block. At the end what has been accepted are as many blocks as are
marked. -/
theorem read_write_data_restore_ok {fs_info : file_system_info} {img_opt : image_options}
    (bm : bitmap) (hbs : 0 < fs_info.block_size.toNat)
    (hg : 0 < img_opt.blocks_per_checksum.toNat) (hfits : checksum_fits img_opt)
    (hU : used_count fs_info bm < 2 ^ 63) (hchunks : chunks_fit fs_info img_opt bm) (host : Host)
    (w : World) (hcopied : w.copied_count = 0) :
    ∃ ok w', read_write_data_restore fs_info img_opt host bm w = .ok (ok, w') ∧ follows w w' ∧
      (ok = true → ∃ blocks, blocks.length = used_count fs_info bm ∧
        verified fs_info img_opt bm w.dfr (start_cursor img_opt (stale_checksum host img_opt))
          blocks ∧
        w'.dfr.pos = w.dfr.pos + (checked fs_info img_opt bm
          (start_cursor img_opt (stale_checksum host img_opt)) blocks).length ∧
        (reachable fs_info.block_size.toNat (marked fs_info bm 0) →
          w'.dfw.data = scatter 0 fs_info.block_size.toNat w.dfw.data (marked fs_info bm 0)
            blocks)) ∧
      (ok = false → ∃ blocks,
        verified fs_info img_opt bm w.dfr (start_cursor img_opt (stale_checksum host img_opt))
          blocks ∧
        blocks.length ≤ used_count fs_info bm ∧
        (blocks.length % capacity fs_info.block_size.toNat = 0
          ∨ blocks.length = used_count fs_info bm) ∧
        (reachable fs_info.block_size.toNat (marked fs_info bm 0) →
          laid 0 fs_info.block_size.toNat ((marked fs_info bm 0).take blocks.length) blocks
            w.dfw.data w'.dfw.data)) ∧
      (ok = false → ¬ ((∀ size, host.malloc size = true) ∧ w.sched = [] ∧
        acceptable fs_info img_opt bm w.dfr
          (start_cursor img_opt (stale_checksum host img_opt)) ∧
        takes_blocks fs_info.block_size.toNat 0 { w.dfw with pos := 0 }
          (marked fs_info bm 0))) := by
  have hcapmul := capacity_mul_le fs_info.block_size.toNat
  have hbsize : fs_info.block_size.toNat < 2 ^ 32 := fs_info.block_size.isLt
  have hmega : DEFAULT_BUFFER_SIZE = 2 ^ 20 := rfl
  rcases read_write_data_restore_start bm hbs hfits host w hcopied with
    ⟨hrun, hmem⟩ | ⟨w₀, hf₀, hdfr₀, hdfw₀, hinv, hc₀, hrun⟩
  · have hstart : verified fs_info img_opt bm w.dfr
        (start_cursor img_opt (stale_checksum host img_opt)) [] :=
      ⟨by simp, by rw [checked_nil]; exact List.nil_prefix⟩
    exact ⟨false, w, hrun, follows.refl w, by simp, fun _ => ⟨[], hstart, Nat.zero_le _,
      Or.inl (Nat.zero_mod _), fun _ => laid.refl _ _ _ _ _⟩, fun _ h => hmem h.1⟩
  -- the chunks that are left get fewer with each pass
  obtain ⟨r, w₁, hpasses, hends⟩ := passes_spec
    (restore_pass fs_info img_opt (capacity fs_info.block_size.toNat) (used_count fs_info bm) bm)
    (I := restore_inv fs_info img_opt bm w₀
      (start_cursor img_opt (stale_checksum host img_opt)) (read_buffer_size fs_info img_opt)
      (capacity fs_info.block_size.toNat * fs_info.block_size.toNat))
    (fun _ w' => used_count fs_info bm - w'.copied_count)
    (fun v w' h => by
      obtain ⟨p, w'', hrun, hleads⟩ := restore_pass_spec hbs hg hfits rfl hU (u32_lt _)
        (by omega) le_rfl h (fun hlt => hchunks _ hlt (h.aligned.resolve_right (by omega)))
      refine ⟨p, w'', hrun, ?_⟩
      cases p with
      | next v' =>
          obtain ⟨hinv', hcount', hlt⟩ := hleads
          have := chunk_size_pos hlt
          have := chunk_size_le fs_info bm hlt.le
          exact ⟨hinv', by omega⟩
      | done v' => exact hleads.1
      | fail => exact hleads.1)
    (used_count fs_info bm + 1) _ w₀ (by omega) hinv
  rw [hpasses, ok_bind] at hrun
  have hpos₀ : w₀.dfw.pos = 0 := by rw [hdfw₀]
  have hdata₀ : w₀.dfw.data = w.dfw.data := by rw [hdfw₀]
  rw [← hdfr₀, ← hdata₀]
  cases r with
  | some v =>
      obtain ⟨blocks, hlen, hver, hpos, hdata⟩ := hends.laid_down
      exact ⟨true, w₁, hrun, hf₀.trans hends.follows,
        fun _ => ⟨blocks, hlen, hver, hpos, fun h => hdata h hpos₀⟩, by simp, by simp⟩
  | none =>
      obtain ⟨blocks, hver, hle, halign, hconf⟩ := hends.target
      refine ⟨false, w₁, hrun, hf₀.trans hends.follows, by simp,
        fun _ => ⟨blocks, hver, hle, halign, fun h => hconf h hpos₀⟩, ?_⟩
      -- a pass that fails was troubled, and here nothing troubles it
      rintro - ⟨-, hsched, hacc, htakes⟩
      obtain ⟨c, -, -, htrouble⟩ := hends.troubled
      rw [← hdfw₀] at htakes
      exact htrouble ⟨hf₀.sched_nil hsched, hacc, takes_blocks_take htakes _⟩

end SysbakAdmin.ImageReader

/-
The checksum library over a whole backup: what the calls of `checksum.c` compute when
they are mixed.

A copy loop calls `init_checksum` once, `update_checksum` for every block and
`init_checksum` again behind every checksum it writes; `write_image_head` and
`write_image_bitmap` call `init_crc32` for registers of their own. The table and the
mode are static data of the library, and `init_crc32` builds the table anew on every
call, because entry 0 of the finished table is zero as well (`crc_table_zero`).

`setup_calls` is any sequence of such set-up calls. They leave a finished table as it
is (`setup_calls_ok`), and in the mode in force they leave the library itself as it is
(`setup_calls_in_mode`), so the register that `update_checksum` keeps in the caller's
array follows the blocks and nothing else (`update_blocks_crc`).
-/
import SysbakAdmin.Checksum

set_option autoImplicit false

namespace SysbakAdmin.Checksum

open LittleEndian ByteStore CMemory GroupStream PackedRecord

/-! ## The calls -/

/-- A call that sets the library up for a register of its own. The caller of
`init_checksum` is responsible for the room of a register in the CRC modes. -/
inductive setup_call where
  | init_crc32
  | init_checksum (checksum_mode : ℕ) (seed : List Byte)
      (room : is_crc_mode checksum_mode → 4 ≤ seed.length)

/-- The library after one set-up call. -/
def setup_call.run (lib : checksum_lib) : setup_call → Run checksum_lib
  | .init_crc32 => pure (Checksum.init_crc32 lib).2
  | .init_checksum checksum_mode seed _ => do
      let r ← Checksum.init_checksum lib checksum_mode seed
      pure r.2

/-- The library after several. -/
def setup_calls : checksum_lib → List setup_call → Run checksum_lib
  | lib, [] => pure lib
  | lib, call :: calls => do setup_calls (← call.run lib) calls

/-- A call that asks for no other mode than `mode`. -/
def setup_call.in_mode (mode : ℕ) : setup_call → Prop
  | .init_crc32 => True
  | .init_checksum checksum_mode _ _ => checksum_mode = mode

/-- `update_checksum` over the blocks of a sequence, with set-up calls before each. -/
def update_blocks : checksum_lib → List Byte → List (List setup_call × List Byte) →
    Run (List Byte)
  | _, checksum, [] => pure checksum
  | lib, checksum, (calls, block) :: rest => do
      let lib ← setup_calls lib calls
      let checksum ← update_checksum lib checksum block block.length
      update_blocks lib checksum rest

/-- `init_checksum` and then the blocks. -/
def checksum_of_blocks (lib : checksum_lib) (checksum_mode : ℕ) (checksum : List Byte)
    (pieces : List (List setup_call × List Byte)) : Run (List Byte) := do
  let r ← init_checksum lib checksum_mode checksum
  update_blocks r.2 r.1 pieces

/-- The sequence that the blocks are cut from. -/
def whole (pieces : List (List setup_call × List Byte)) : List Byte := (pieces.map (·.2)).flatten

/-! ## Set-up calls -/

/-- The library is its table and its mode. -/
theorem checksum_lib.eq_of {lib lib' : checksum_lib} (htab : lib.crc_tab32 = lib'.crc_tab32)
    (hmode : lib.cs_mode = lib'.cs_mode) : lib = lib' := by
  cases lib
  cases lib'
  simp only [checksum_lib.mk.injEq]
  exact ⟨htab, hmode⟩

/-- One set-up call: a finished table stays, and the mode is the one asked for. -/
theorem setup_call_ok {lib : checksum_lib} (hlib : lib.crc_tab32 = crc_table)
    (call : setup_call) :
    ∃ lib', call.run lib = .ok lib' ∧ lib'.crc_tab32 = crc_table ∧
      ∀ mode, lib.cs_mode = mode → call.in_mode mode → lib'.cs_mode = mode := by
  cases call with
  | init_crc32 =>
      refine ⟨(init_crc32 lib).2, rfl, init_crc32_table lib, ?_⟩
      intro mode hmode _
      -- the table is built over the old one, and the mode is not touched
      unfold init_crc32
      split_ifs
      · exact hmode
      · exact hmode
  | init_checksum checksum_mode seed room =>
      obtain ⟨lib', hrun, hready⟩ := init_checksum_ok (n := seed.length) lib room ⟨seed, rfl⟩
      refine ⟨lib', ?_, ?_, ?_⟩
      · rw [setup_call.run, show init_checksum lib checksum_mode seed = _ from hrun]
        rfl
      · by_cases hm : is_crc_mode checksum_mode
        · exact hready.table hm
        · -- no CRC is set up: only the mode changes
          unfold init_checksum at hrun
          rw [if_neg hm, pure_eq] at hrun
          have hl := (Prod.mk.inj (Except.ok.inj hrun)).2
          rw [← hl]
          exact hlib
      · intro mode _ hin
        rw [hready.mode_eq]
        exact hin

/-- **Set-up calls leave a finished table as it is.** `init_crc32` looks at entry 0 to see if the
table is there, and finds 0 in the finished table as well; so it builds it again, and it is the
same. -/
theorem setup_calls_ok {lib : checksum_lib} (hlib : lib.crc_tab32 = crc_table)
    (calls : List setup_call) :
    ∃ lib', setup_calls lib calls = .ok lib' ∧ lib'.crc_tab32 = crc_table ∧
      ∀ mode, lib.cs_mode = mode → (∀ call ∈ calls, call.in_mode mode) → lib'.cs_mode = mode := by
  induction calls generalizing lib with
  | nil => exact ⟨lib, rfl, hlib, fun mode hmode _ => hmode⟩
  | cons call calls ih =>
      obtain ⟨lib₁, hrun, htab, hmode₁⟩ := setup_call_ok hlib call
      obtain ⟨lib', hruns, htab', hmode'⟩ := ih htab
      refine ⟨lib', ?_, htab', ?_⟩
      · rw [setup_calls, hrun, ok_bind, hruns]
      · intro mode hmode hin
        apply hmode' mode
        · exact hmode₁ mode hmode (hin call (List.mem_cons_self ..))
        · intro c hc
          exact hin c (List.mem_cons_of_mem _ hc)

/-- In the mode in force they leave the whole library as it is. -/
theorem setup_calls_in_mode {lib : checksum_lib} (hlib : lib.crc_tab32 = crc_table)
    {calls : List setup_call} (hin : ∀ call ∈ calls, call.in_mode lib.cs_mode) :
    setup_calls lib calls = .ok lib := by
  obtain ⟨lib', hrun, htab, hmode⟩ := setup_calls_ok hlib calls
  have heq : lib' = lib := checksum_lib.eq_of (htab.trans hlib.symm) (hmode _ rfl hin)
  rw [hrun, heq]

/-! ## Blocks -/

/-- In the CRC mode a block of any length, none included, goes into the register. -/
theorem update_checksum_crc {n : ℕ} {lib : checksum_lib} (hlib : lib.ready CSM_CRC32)
    (h : 4 ≤ n) (a : Bytes n) (block : List Byte) :
    update_checksum lib a.1 block block.length
      = .ok (set_register a (crc (register a.1) block)).1 := by
  have hstore : ∀ c : BitVec 32, store a.1 0 (leBytes 4 c.toNat) = .ok (set_register a c).1 := by
    intro c
    rw [store_of_le (by rw [leBytes_length, a.2]; omega), set_register_val h]
  unfold update_checksum
  rw [if_pos hlib.mode_eq, load_crc_ok (by rw [a.2]; exact h)]
  simp only [ok_bind]
  rw [crc32_spec (hlib.table (Or.inl rfl)) _ le_rfl, List.take_length]
  exact hstore _

/-- **The register follows the blocks.** The induction is on the pieces: set-up calls in
the mode of the CRC do not change the library, and each block continues from the register
that the blocks before it left. -/
theorem update_blocks_crc {n : ℕ} {lib : checksum_lib} (hlib : lib.ready CSM_CRC32) (h : 4 ≤ n)
    (pieces : List (List setup_call × List Byte))
    (hin : ∀ piece ∈ pieces, ∀ call ∈ piece.1, call.in_mode CSM_CRC32) (a : Bytes n) :
    ∃ b : Bytes n, update_blocks lib a.1 pieces = .ok b.1 ∧
      register b.1 = crc (register a.1) (whole pieces) := by
  induction pieces generalizing a with
  | nil => exact ⟨a, rfl, rfl⟩
  | cons piece pieces ih =>
      obtain ⟨calls, block⟩ := piece
      have hcalls : setup_calls lib calls = .ok lib := by
        apply setup_calls_in_mode (hlib.table (Or.inl rfl))
        intro call hcall
        rw [hlib.mode_eq]
        exact hin (calls, block) (List.mem_cons_self ..) call hcall
      obtain ⟨b, hrun, hreg⟩ := ih (fun p hp => hin p (List.mem_cons_of_mem _ hp))
        (set_register a (crc (register a.1) block))
      refine ⟨b, ?_, ?_⟩
      · rw [update_blocks, hcalls, ok_bind, update_checksum_crc hlib h, ok_bind, hrun]
      · rw [hreg, register_set_register h, whole, whole, List.map_cons, List.flatten_cons, crc,
          crc, crc, ReflectedCrc.run_append]

/-- From a fresh seed it is the CRC of the whole sequence. Where it was cut makes no difference,
since the register runs over the cuts. -/
theorem checksum_of_blocks_crc (lib : checksum_lib) {checksum : List Byte}
    (h : 4 ≤ checksum.length) {pieces : List (List setup_call × List Byte)}
    (hin : ∀ piece ∈ pieces, ∀ call ∈ piece.1, call.in_mode CSM_CRC32) :
    ∃ out, checksum_of_blocks lib CSM_CRC32 checksum pieces = .ok out ∧
      register out = crc CRC32_SEED (whole pieces) := by
  obtain ⟨lib', hinit, hready⟩ :=
    @init_checksum_ok checksum.length lib CSM_CRC32 (fun _ => h) ⟨checksum, rfl⟩
  obtain ⟨b, hrun, hreg⟩ := update_blocks_crc hready h pieces hin
    ((summer CSM_CRC32).reset ⟨checksum, rfl⟩)
  refine ⟨b.1, ?_, ?_⟩
  · rw [checksum_of_blocks, show init_checksum lib CSM_CRC32 checksum = _ from hinit, ok_bind]
    exact hrun
  · have hreset : (summer CSM_CRC32).reset (⟨checksum, rfl⟩ : Bytes checksum.length)
        = set_register ⟨checksum, rfl⟩ CRC32_SEED := by
      simp only [summer]
      exact if_pos (Or.inl rfl)
    rw [hreg, hreset, register_set_register h]

/-- **The table CRC is the bit-serial CRC, and it streams over blocks.** Set-up calls in between
change no `crc32`, and in the mode in force no `update_checksum`; in the CRC mode, blocks that are
taken one by one give the `crc32` of the whole sequence. The first part is about the table, the
second about the calls, and the last is an induction on the blocks with both. -/
theorem crc32_bitwise_and_streams :
    (∀ (lib : checksum_lib) (seed : BitVec 32) (bytes : List Byte),
      crc32 (init_crc32 lib).2 seed bytes bytes.length
        = .ok (ReflectedCrc.run (0xEDB88320 : BitVec 32) seed bytes)) ∧
    (∀ (lib : checksum_lib) (calls : List setup_call), lib.crc_tab32 = crc_table →
      ∃ lib', setup_calls lib calls = .ok lib' ∧
        (∀ (seed : BitVec 32) (buffer : List Byte) (size : ℤ),
          crc32 lib' seed buffer size = crc32 lib seed buffer size) ∧
        ((∀ call ∈ calls, call.in_mode lib.cs_mode) →
          ∀ (checksum buf : List Byte) (size : ℤ),
            update_checksum lib' checksum buf size = update_checksum lib checksum buf size)) ∧
    (∀ (lib : checksum_lib) (checksum : List Byte)
      (pieces : List (List setup_call × List Byte)), 4 ≤ checksum.length →
      (∀ piece ∈ pieces, ∀ call ∈ piece.1, call.in_mode CSM_CRC32) →
      ∃ out, checksum_of_blocks lib CSM_CRC32 checksum pieces = .ok out ∧
        crc32 (init_crc32 lib).2 CRC32_SEED (whole pieces) (whole pieces).length
          = .ok (register out)) := by
  have hbitwise : ∀ (lib : checksum_lib) (seed : BitVec 32) (bytes : List Byte),
      crc32 (init_crc32 lib).2 seed bytes bytes.length = .ok (crc seed bytes) := by
    intro lib seed bytes
    rw [crc32_spec (init_crc32_table lib) seed le_rfl, List.take_length]
  refine ⟨hbitwise, ?_, ?_⟩
  · intro lib calls hlib
    -- a set-up call leaves the table, and the mode where it names the one in use
    obtain ⟨lib', hrun, htab, hmode⟩ := setup_calls_ok hlib calls
    refine ⟨lib', hrun, ?_, ?_⟩
    · intro seed buffer size
      unfold crc32
      rw [htab, hlib]
    · intro hin checksum buf size
      rw [checksum_lib.eq_of (htab.trans hlib.symm) (hmode _ rfl hin)]
  · intro lib checksum pieces hroom hin
    obtain ⟨out, hrun, hreg⟩ := checksum_of_blocks_crc lib hroom hin
    refine ⟨out, hrun, ?_⟩
    rw [hbitwise, hreg]

/-- Three bytes in two blocks, with both kinds of set-up call in between; and a set-up
without a CRC leaves `crc32` as it is. -/
theorem two_blocks_stream :
    (∃ out, checksum_of_blocks .initial CSM_CRC32 [0, 0, 0, 0]
        [([.init_crc32], [1]),
          ([.init_checksum CSM_CRC32 [0, 0, 0, 0] fun _ => Nat.le_refl 4], [2, 3])] = .ok out ∧
      crc32 (init_crc32 .initial).2 CRC32_SEED [1, 2, 3] 3 = .ok (register out)) ∧
    ∃ lib', setup_calls (init_crc32 .initial).2
        [.init_checksum CSM_NONE [] fun h => absurd h (by decide)] = .ok lib' ∧
      ∀ (seed : BitVec 32) (buffer : List Byte) (size : ℤ),
        crc32 lib' seed buffer size = crc32 (init_crc32 .initial).2 seed buffer size := by
  obtain ⟨-, hcalls, hstream⟩ := crc32_bitwise_and_streams
  constructor
  · apply hstream .initial [0, 0, 0, 0]
      [([.init_crc32], [1]),
        ([.init_checksum CSM_CRC32 [0, 0, 0, 0] fun _ => Nat.le_refl 4], [2, 3])] (by decide)
    intro piece hp call hc
    simp only [List.mem_cons, List.not_mem_nil, or_false] at hp
    rcases hp with rfl | rfl <;>
      · rw [List.mem_singleton.mp hc]
        simp only [setup_call.in_mode]
  · obtain ⟨lib', hrun, hcrc, -⟩ := hcalls (init_crc32 .initial).2
      [.init_checksum CSM_NONE [] fun h => absurd h (by decide)] (init_crc32_table _)
    exact ⟨lib', hrun, hcrc⟩

/-- The mode decides. In the mode of the old images every block is its first byte again
and again, so even one block of two bytes does not give the `crc32`; and when another
register is set up without a CRC in between, the next block is not counted at all. -/
theorem other_modes_do_not_stream :
    (∃ out, checksum_of_blocks .initial CSM_CRC32_0001 [0, 0, 0, 0] [([], [1, 2])] = .ok out ∧
      crc32 (init_crc32 .initial).2 CRC32_SEED [1, 2] 2 ≠ .ok (register out)) ∧
    ∃ out, checksum_of_blocks .initial CSM_CRC32 [0, 0, 0, 0]
        [([.init_checksum CSM_NONE [] fun h => absurd h (by decide)], [1])] = .ok out ∧
      crc32 (init_crc32 .initial).2 CRC32_SEED [1] 1 ≠ .ok (register out) := by
  refine ⟨⟨[0xd7, 0xec, 0x3a, 0xd0], ?_, ?_⟩, ⟨[0xff, 0xff, 0xff, 0xff], ?_, ?_⟩⟩
  · rfl
  · decide
  · rfl
  · decide

end SysbakAdmin.Checksum

/-
`checksum.c`: the table-driven CRC-32 of the image format, and the two calls that
choose the algorithm by the image's checksum mode.

Everything the callers need is in two lemmas. `crc32_spec` says that the table loop
is the bit-serial CRC of `ReflectedCrc` at the polynomial `0xEDB88320`, and
`init_checksum_ok` / `update_checksum_ok` say that the two calls act on the checksum
array as the running digest `summer`, whatever the mode, as long as the array has the
four bytes the CRC modes write.

The C library's own state is the table and the mode set last. The table is all zeros
or filled in; the structure carries that, so that a table that was set up once stays
right.

A CRC that is stored behind what it is the sum of makes a whole that is `sealed`: the register
comes to zero over it. Everything the image checks has this form, and the converse is the
detection lemma, `not_sealed_of_window`: of two texts that differ within four bytes at most one
is sealed.
-/
import SysbakAdmin.Lib.CInt
import SysbakAdmin.Lib.CMemory
import SysbakAdmin.Lib.GroupStream
import SysbakAdmin.Lib.PackedRecord
import SysbakAdmin.Lib.ReflectedCrc

set_option autoImplicit false

namespace SysbakAdmin.Checksum

open LittleEndian ByteStore CMemory GroupStream PackedRecord

/-! ## The code -/

def CSM_NONE : ℕ := 0x00
def CSM_CRC32 : ℕ := 0x20
def CSM_CRC32_0001 : ℕ := 0xFF

def CRC32_SEED : BitVec 32 := 0xFFFFFFFF
def CRC32_SIZE : ℕ := 4

/-- The inner loop body of `init_crc32`. -/
def init_crc32_step (init_crc : BitVec 32) : BitVec 32 :=
  if init_crc &&& 1#32 ≠ 0 then (init_crc >>> 1) ^^^ 0xEDB88320#32 else init_crc >>> 1

/-- `j` rounds of it. -/
def init_crc32_rounds : ℕ → BitVec 32 → BitVec 32
  | 0, init_crc => init_crc
  | j + 1, init_crc => init_crc32_step (init_crc32_rounds j init_crc)

/-- The table that `init_crc32` builds. -/
def crc_table : List (BitVec 32) :=
  (List.range 256).map fun i => init_crc32_rounds 8 (BitVec.ofNat 32 i)

/-- The static data of `checksum.c`. -/
structure checksum_lib where
  crc_tab32 : List (BitVec 32)
  cs_mode : ℕ
  tab_ok : crc_tab32 = List.replicate 256 0 ∨ crc_tab32 = crc_table

/-- As the process starts. -/
def checksum_lib.initial : checksum_lib := ⟨List.replicate 256 0, CSM_NONE, Or.inl rfl⟩

/-- `init_crc32`: the seed, and the library with its table built. -/
def init_crc32 (lib : checksum_lib) : BitVec 32 × checksum_lib :=
  (CRC32_SEED,
    if lib.crc_tab32.getD 0 0 = 0 then ⟨crc_table, lib.cs_mode, Or.inr rfl⟩ else lib)

/-- One byte of `crc32`. -/
def crc32_step (tab : List (BitVec 32)) (crc : BitVec 32) (long_c : Byte) : BitVec 32 :=
  (crc >>> 8) ^^^ tab.getD ((crc ^^^ long_c.setWidth 32) &&& 0xff#32).toNat 0

/-- `crc32`. `buffer` is what the allocation holds from the pointer on; a negative
`size` sends the pointer past its end. -/
def crc32 (lib : checksum_lib) (seed : BitVec 32) (buffer : List Byte) (size : ℤ) :
    Run (BitVec 32) :=
  if 0 ≤ size ∧ size.toNat ≤ buffer.length then
    .ok ((buffer.take size.toNat).foldl (crc32_step lib.crc_tab32) seed)
  else .error .outOfBounds

/-- `crc32_0001`, which never moves its pointer. -/
def crc32_0001 (lib : checksum_lib) (seed : BitVec 32) (buffer : List Byte) (size : ℤ) :
    Run (BitVec 32) :=
  if size ≤ 0 then .ok seed
  else
    match buffer with
    | [] => .error .outOfBounds
    | long_c :: _ => .ok ((List.replicate size.toNat long_c).foldl (crc32_step lib.crc_tab32) seed)

/-- The cases of `init_checksum` that set up a CRC. -/
def is_crc_mode (mode : ℕ) : Prop := mode = CSM_CRC32 ∨ mode = CSM_CRC32_0001

instance (mode : ℕ) : Decidable (is_crc_mode mode) := inferInstanceAs (Decidable (_ ∨ _))

/-- `init_checksum`: writes the seed into the array in the CRC modes. -/
def init_checksum (lib : checksum_lib) (checksum_mode : ℕ) (seed : List Byte) :
    Run (List Byte × checksum_lib) :=
  if is_crc_mode checksum_mode then do
    let init := init_crc32 lib
    let seed ← store seed 0 (leBytes 4 init.1.toNat)
    pure (seed, { init.2 with cs_mode := checksum_mode })
  else pure (seed, { lib with cs_mode := checksum_mode })

/-- The `uint32_t` at the start of the checksum array. -/
def load_crc (checksum : List Byte) : Run (BitVec 32) := do
  pure (BitVec.ofNat 32 (ofLe (← load checksum 0 4)))

/-- `update_checksum`, by the mode set last. -/
def update_checksum (lib : checksum_lib) (checksum buf : List Byte) (size : ℤ) :
    Run (List Byte) :=
  if lib.cs_mode = CSM_CRC32 then do
    let crc ← crc32 lib (← load_crc checksum) buf size
    store checksum 0 (leBytes 4 crc.toNat)
  else if lib.cs_mode = CSM_CRC32_0001 then do
    let crc ← crc32_0001 lib (← load_crc checksum) buf size
    store checksum 0 (leBytes 4 crc.toNat)
  else pure checksum

/-! ## The table loop is the bit-serial CRC -/

/-- The polynomial of `init_crc32`. -/
abbrev poly : BitVec 32 := 0xEDB88320

/-- The CRC register after a message, from the bit-serial definition. -/
abbrev crc (c : BitVec 32) (l : List Byte) : BitVec 32 := ReflectedCrc.run poly c l

theorem poly_top : poly.getLsbD (32 - 1) = true := by decide

theorem init_crc32_step_eq (c : BitVec 32) : init_crc32_step c = ReflectedCrc.shift poly c := by
  have hbit : (c &&& 1#32 ≠ 0) ↔ c.getLsbD 0 = true := by
    rw [BitVec.and_one_eq_setWidth_ofBool_getLsbD]
    cases c.getLsbD 0 <;> decide
  unfold init_crc32_step ReflectedCrc.shift
  simp only [hbit]
  rfl

theorem init_crc32_rounds_eq (n : ℕ) (c : BitVec 32) :
    init_crc32_rounds n c = ReflectedCrc.shifts poly n c := by
  induction n with
  | zero => rfl
  | succ n ih => rw [init_crc32_rounds, ih, init_crc32_step_eq, ReflectedCrc.shifts]

/-- The built table starts with a zero, which is why it is built again each time. -/
theorem crc_table_zero : crc_table.getD 0 0 = 0 := by decide

/-- `init_crc32` leaves a built table, whatever it found. -/
theorem init_crc32_table (lib : checksum_lib) : (init_crc32 lib).2.crc_tab32 = crc_table := by
  unfold init_crc32
  split_ifs with h
  · rfl
  · rcases lib.tab_ok with hz | hb
    · rw [hz] at h
      exact absurd (by decide) h
    · exact hb

/-- One table step is one byte of the CRC. -/
theorem crc32_step_eq (c : BitVec 32) (b : Byte) :
    crc32_step crc_table c b = ReflectedCrc.byte poly c b := by
  have hidx : ((c ^^^ b.setWidth 32) &&& 0xff#32).toNat < 256 := by
    rw [BitVec.toNat_and]
    exact lt_of_le_of_lt Nat.and_le_right (by decide)
  have hentry : crc_table.getD ((c ^^^ b.setWidth 32) &&& 0xff#32).toNat 0
      = ReflectedCrc.shifts poly 8 ((c ^^^ b.setWidth 32) &&& 0xff#32) := by
    rw [crc_table, List.getD_eq_getElem _ _ (by simpa using hidx), List.getElem_map,
      List.getElem_range, init_crc32_rounds_eq, BitVec.ofNat_toNat, BitVec.setWidth_eq]
  rw [crc32_step, hentry, ReflectedCrc.byte_table]

theorem foldl_crc32_step (c : BitVec 32) (l : List Byte) :
    l.foldl (crc32_step crc_table) c = crc c l := by
  have hstep : crc32_step crc_table = ReflectedCrc.byte poly := by
    funext c b; exact crc32_step_eq c b
  rw [hstep]
  rfl

/-- **`crc32` computes the CRC** of the bytes it is given, once the table is built. A step by the
table is eight shifts of the register (`ReflectedCrc.byte_table`), for a table that is the one
`init_crc32` computes. -/
theorem crc32_spec {lib : checksum_lib} (hlib : lib.crc_tab32 = crc_table) (c : BitVec 32)
    {buf : List Byte} {n : ℕ} (hn : n ≤ buf.length) :
    crc32 lib c buf n = .ok (crc c (buf.take n)) := by
  rw [crc32, if_pos (by simpa using hn), hlib, foldl_crc32_step, Int.toNat_natCast]

/-- A string that ends in its own CRC, as the image's sections do. The register of a CRC that runs
over its own stored value comes to 0, and to nothing else. -/
def sealed (l : List Byte) : Prop := crc CRC32_SEED l = 0

/-- The CRC as it is stored. -/
def crc_bytes (l : List Byte) : List Byte := leBytes 4 (crc CRC32_SEED l).toNat

@[simp] theorem crc_bytes_length (l : List Byte) : (crc_bytes l).length = 4 := leBytes_length _ _

theorem sealed_append_iff (l : List Byte) {t : List Byte} (ht : t.length = 4) :
    sealed (l ++ t) ↔ t = crc_bytes l := by
  rw [sealed, crc, ReflectedCrc.run_append]
  exact ReflectedCrc.run_stored_iff poly poly_top rfl _ ht

/-- Comparing the computed register with a stored one tests the seal. -/
theorem crc_eq_iff_sealed (l : List Byte) {t : List Byte} (ht : t.length = 4) :
    crc CRC32_SEED l = BitVec.ofNat 32 (ofLe t) ↔ sealed (l ++ t) := by
  rw [sealed_append_iff l ht, crc_bytes]
  constructor
  · intro h
    have hlt : ofLe t < 2 ^ 32 := by
      have := ofLe_lt t
      rwa [ht] at this
    rw [h, BitVec.toNat_ofNat, Nat.mod_eq_of_lt hlt, ← ht, leBytes_ofLe]
  · intro h
    rw [h, ofLe_leBytes_of_lt (by exact (crc CRC32_SEED l).isLt), BitVec.ofNat_toNat,
      BitVec.setWidth_eq]

/-- **No change inside four bytes goes unnoticed.** The window may lie in the text, in the sum or
across both. -/
theorem not_sealed_of_window {pre x y post : List Byte} (hlen : x.length = y.length)
    (hx : x.length ≤ 4) (hne : x ≠ y) (h : sealed (pre ++ x ++ post)) :
    ¬ sealed (pre ++ y ++ post) :=
  ReflectedCrc.run_stored_burst poly poly_top _ hlen (by omega) hne h

/-- `crc32` over a freshly seeded register, as every fixed section computes it. -/
theorem crc32_seeded (lib : checksum_lib) (buf : List Byte) {n : ℕ} (hn : n ≤ buf.length) :
    crc32 (init_crc32 lib).2 (init_crc32 lib).1 buf n = .ok (crc CRC32_SEED (buf.take n)) :=
  crc32_spec (init_crc32_table lib) _ hn

/-! ## The running digest -/

/-- The register held in the first four bytes of a checksum array. -/
def register (a : List Byte) : BitVec 32 := BitVec.ofNat 32 (ofLe (slice a 0 4))

section Digest

variable {n : ℕ}

/-- The array with the register replaced. -/
def set_register (a : Bytes n) (c : BitVec 32) : Bytes n :=
  .ofList n (overlay 0 a.1 0 (leBytes 4 c.toNat))

/-- What a mode does to the register for one block. -/
def absorb_block (mode : ℕ) (a : Bytes n) (b : List Byte) : Bytes n :=
  if mode = CSM_CRC32 then set_register a (crc (register a.1) b)
  else if mode = CSM_CRC32_0001 then
    set_register a (crc (register a.1) (List.replicate b.length (b.headD 0)))
  else a

/-- The digest of the image stream in a given mode, as a transformation of a checksum
array of `n` bytes. -/
def summer (mode : ℕ) : Summer Byte (Bytes n) where
  reset a := if is_crc_mode mode then set_register a CRC32_SEED else a
  absorb := absorb_block mode
  digest a := a.1

@[simp] theorem summer_digest (mode : ℕ) (a : Bytes n) : (summer mode).digest a = a.1 := rfl

theorem set_register_val (h : 4 ≤ n) (a : Bytes n) (c : BitVec 32) :
    (set_register a c).1 = overlay 0 a.1 0 (leBytes 4 c.toNat) :=
  Bytes.ofList_val (by rw [overlay_length, leBytes_length, a.2]; omega)

/-- The register reads back. -/
theorem register_set_register (h : 4 ≤ n) (a : Bytes n) (c : BitVec 32) :
    register (set_register a c).1 = c := by
  have hs : slice (set_register a c).1 0 4 = leBytes 4 c.toNat := by
    rw [set_register_val h]
    have h := slice_overlay_self (0 : Byte) a.1 0 (leBytes 4 c.toNat)
    rwa [leBytes_length] at h
  rw [register, hs, ofLe_leBytes_of_lt (by exact c.isLt), BitVec.ofNat_toNat, BitVec.setWidth_eq]

/-- A library that is ready to digest in `mode`. The mode is what `update_checksum` decides by,
and the table what it computes with. -/
structure checksum_lib.ready (lib : checksum_lib) (mode : ℕ) : Prop where
  mode_eq : lib.cs_mode = mode
  table : is_crc_mode mode → lib.crc_tab32 = crc_table

/-- **`init_checksum` starts the digest.** In the modes with a CRC it builds the table and sets
the register in the array, which therefore needs room for it. -/
theorem init_checksum_ok (lib : checksum_lib) {mode : ℕ} (h : is_crc_mode mode → 4 ≤ n)
    (a : Bytes n) :
    ∃ lib', init_checksum lib mode a.1 = .ok (((summer mode).reset a).1, lib') ∧
      lib'.ready mode := by
  unfold init_checksum
  by_cases hm : is_crc_mode mode
  · have hstore : store a.1 0 (leBytes 4 CRC32_SEED.toNat) = .ok (set_register a CRC32_SEED).1 := by
      rw [store_of_le (by have := h hm; rw [leBytes_length, a.2]; omega),
        set_register_val (h hm)]
    refine ⟨{ (init_crc32 lib).2 with cs_mode := mode }, ?_, rfl, fun _ => init_crc32_table lib⟩
    rw [if_pos hm]
    simp only [init_crc32, hstore, ok_bind, pure_eq, summer, if_pos hm]
  · refine ⟨{ lib with cs_mode := mode }, ?_, rfl, fun h => absurd h hm⟩
    rw [if_neg hm]
    simp only [pure_eq, summer, if_neg hm]

/-- In a CRC mode, an array too short for the register is overrun. -/
theorem init_checksum_short (lib : checksum_lib) {mode : ℕ} {a : List Byte}
    (hm : is_crc_mode mode) (h : a.length < 4) :
    init_checksum lib mode a = .error .outOfBounds := by
  have hstore : store a 0 (leBytes 4 (init_crc32 lib).1.toNat) = .error .outOfBounds := by
    rw [store, if_neg (by rw [leBytes_length]; omega)]
  unfold init_checksum
  rw [if_pos hm]
  simp only [hstore, error_bind]

theorem load_crc_ok {a : List Byte} (h : 4 ≤ a.length) : load_crc a = .ok (register a) := by
  rw [load_crc, load_of_le (by omega)]
  rfl

/-- **`update_checksum` advances the digest** by the block at the pointer. The register is loaded
from the array, goes over the block and is stored back. -/
theorem update_checksum_ok {lib : checksum_lib} {mode : ℕ} (hlib : lib.ready mode)
    (h : is_crc_mode mode → 4 ≤ n) (a : Bytes n) {buf : List Byte} {k : ℕ} (hk0 : 0 < k)
    (hk : k ≤ buf.length) :
    update_checksum lib a.1 buf k = .ok ((summer mode).absorb a (buf.take k)).1 := by
  obtain ⟨hmode, htab⟩ := hlib
  have hload : 4 ≤ n → load_crc a.1 = .ok (register a.1) := fun ha =>
    load_crc_ok (by rw [a.2]; exact ha)
  have hstore : ∀ c : BitVec 32, 4 ≤ n →
      store a.1 0 (leBytes 4 c.toNat) = .ok (set_register a c).1 := fun c ha => by
    rw [store_of_le (by rw [leBytes_length, a.2]; omega), set_register_val ha]
  unfold update_checksum
  rw [hmode]
  simp only [summer, absorb_block]
  by_cases h1 : mode = CSM_CRC32
  · have ha := h (Or.inl h1)
    rw [if_pos h1, if_pos h1, hload ha]
    simp only [ok_bind, crc32_spec (htab (Or.inl h1)) _ hk, hstore _ ha]
  · rw [if_neg h1, if_neg h1]
    by_cases h2 : mode = CSM_CRC32_0001
    · have ha := h (Or.inr h2)
      obtain ⟨b, rest, rfl⟩ : ∃ b rest, buf = b :: rest := by
        cases buf with
        | nil => simp at hk; omega
        | cons b rest => exact ⟨b, rest, rfl⟩
      -- the loop reads the same first byte in every round
      have hhead : ((b :: rest).take k).headD 0 = b := by
        obtain ⟨m, rfl⟩ : ∃ m, k = m + 1 := ⟨k - 1, by omega⟩
        rfl
      have hlen : ((b :: rest).take k).length = k := by rw [List.length_take]; omega
      rw [if_pos h2, if_pos h2, hload ha]
      simp only [ok_bind, crc32_0001, show ¬ (k : ℤ) ≤ 0 by omega, if_false, Int.toNat_natCast,
        htab (Or.inr h2), foldl_crc32_step, hhead, hlen, hstore _ ha]
    · rw [if_neg h2, if_neg h2]
      rfl

end Digest

/-- The checksum functions stop only at an access outside the array or the buffer. -/
theorem crc32_stops {lib : checksum_lib} {c : BitVec 32} {buf : List Byte} {n : ℤ} {t : Stop}
    (h : crc32 lib c buf n = .error t ∨ crc32_0001 lib c buf n = .error t) : t = .outOfBounds := by
  rcases h with h | h
  · unfold crc32 at h
    split_ifs at h
    exact (Except.error.inj h).symm
  · unfold crc32_0001 at h
    split_ifs at h
    cases buf with
    | nil => exact (Except.error.inj h).symm
    | cons b rest => cases h

theorem init_checksum_stops {lib : checksum_lib} {mode : ℕ} {a : List Byte} {t : Stop}
    (h : init_checksum lib mode a = .error t) : t = .outOfBounds := by
  unfold init_checksum at h
  split_ifs at h
  · rcases bind_eq_error.mp h with h | ⟨_, -, h⟩
    · exact store_stops h
    · cases h
  · cases h

theorem update_checksum_stops {lib : checksum_lib} {a buf : List Byte} {n : ℤ} {t : Stop}
    (h : update_checksum lib a buf n = .error t) : t = .outOfBounds := by
  have hload : ∀ s, load_crc a = .error s → s = .outOfBounds := fun s hs => by
    rcases bind_eq_error.mp hs with hs | ⟨_, -, hs⟩
    · exact load_stops hs
    · cases hs
  unfold update_checksum at h
  split_ifs at h
  · rcases bind_eq_error.mp h with h | ⟨_, -, h⟩
    · exact hload t h
    rcases bind_eq_error.mp h with h | ⟨_, -, h⟩
    · exact crc32_stops (Or.inl h)
    · exact store_stops h
  · rcases bind_eq_error.mp h with h | ⟨_, -, h⟩
    · exact hload t h
    rcases bind_eq_error.mp h with h | ⟨_, -, h⟩
    · exact crc32_stops (Or.inr h)
    · exact store_stops h
  · cases h

/-- The checksum array of the images this program writes: four bytes, the register. -/
def crc_array (c : BitVec 32) : Bytes 4 := ⟨leBytes 4 c.toNat, leBytes_length _ _⟩

theorem set_register_four (a : Bytes 4) (c : BitVec 32) : set_register a c = crc_array c := by
  apply Subtype.ext
  rw [set_register_val le_rfl, crc_array, overlay_whole 0 (by rw [leBytes_length, a.2])]

/-- The digest of a group, in the mode the writer uses, is its CRC. -/
theorem foldl_absorb_crc (bs : List (List Byte)) (c : BitVec 32) :
    bs.foldl (summer CSM_CRC32).absorb (crc_array c) = crc_array (crc c bs.flatten) := by
  induction bs generalizing c with
  | nil => rfl
  | cons b bs ih =>
      have hreg : register (crc_array c).1 = c := by
        rw [← set_register_four (crc_array c) c, register_set_register le_rfl]
      have hstep : (summer CSM_CRC32).absorb (crc_array c) b = crc_array (crc c b) := by
        simp only [summer, absorb_block, if_true]
        rw [set_register_four, hreg]
      rw [List.foldl_cons, hstep, ih, List.flatten_cons, crc, crc, crc, ReflectedCrc.run_append]

/-- Starting over leaves nothing of the group before. -/
theorem reset_crc (a : Bytes 4) : (summer CSM_CRC32).reset a = crc_array CRC32_SEED := by
  simp only [summer]
  rw [if_pos (show is_crc_mode CSM_CRC32 from Or.inl rfl), set_register_four]

end SysbakAdmin.Checksum

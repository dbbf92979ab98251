/-
**Bounds-checked buffers and faulting arithmetic**: how a C function can stop other
than by returning.

A function that touches memory through a pointer, divides, or loops without a bound
of its own returns a `Run`. `load` and `store` are the accesses to an allocation: an
access that is not inside it is `Stop.outOfBounds`, so that a proof that a run returns
is a proof that every access was inside.

Three predicates follow a run through its binds without unfolding it: `only_stops` collects
how it can stop, `yields` what it can return, and equations with `.ok` what it does when all
is well. Each has a rule for a bind and one for a branch, so a statement about a long
function is put together from statements about its calls.

A fault is a value of `Stop`, so a theorem that a run returns is one that no access on its way
was outside its array, no divisor zero and no loop without end.
-/
import SysbakAdmin.Lib.ByteStore
import SysbakAdmin.Lib.LittleEndian

set_option autoImplicit false

namespace CMemory

open LittleEndian ByteStore

/-- Why a run does not return; `aborted` is an assertion that fails. -/
inductive Stop where
  | divideByZero
  | outOfBounds
  | diverged
  | aborted
  deriving DecidableEq, Repr

/-- A C function call: it returns, or it stops. -/
abbrev Run (α : Type) := Except Stop α

/-- Read `n` bytes at `off`. -/
def load (buf : List Byte) (off n : ℕ) : Run (List Byte) :=
  if off + n ≤ buf.length then .ok (slice buf off n) else .error .outOfBounds

/-- Write `x` at `off`. -/
def store (buf : List Byte) (off : ℕ) (x : List Byte) : Run (List Byte) :=
  if off + x.length ≤ buf.length then .ok (overlay 0 buf off x) else .error .outOfBounds

/-- Write `x` at a signed offset. -/
def storeAt (buf : List Byte) (off : ℤ) (x : List Byte) : Run (List Byte) :=
  if 0 ≤ off then store buf off.toNat x else .error .outOfBounds

/-- Unsigned division. -/
def udiv (a b : ℕ) : Run ℕ := if b = 0 then .error .divideByZero else .ok (a / b)

/-- Unsigned remainder. -/
def umod (a b : ℕ) : Run ℕ := if b = 0 then .error .divideByZero else .ok (a % b)

section Bind

variable {α β : Type}

@[simp] theorem ok_bind (a : α) (f : α → Run β) : ((Except.ok a : Run α) >>= f) = f a := rfl

@[simp] theorem error_bind (s : Stop) (f : α → Run β) :
    ((Except.error s : Run α) >>= f) = .error s := rfl

@[simp] theorem pure_eq (a : α) : (pure a : Run α) = .ok a := rfl

/-- What returned in sequence returned step by step. -/
theorem bind_eq_ok {x : Run α} {f : α → Run β} {b : β} :
    x >>= f = .ok b ↔ ∃ a, x = .ok a ∧ f a = .ok b := by
  cases x <;> simp

/-- What stopped in sequence stopped in its first part or after it. -/
theorem bind_eq_error {x : Run α} {f : α → Run β} {s : Stop} :
    x >>= f = .error s ↔ x = .error s ∨ ∃ a, x = .ok a ∧ f a = .error s := by
  cases x <;> simp

/-- A run that stops for these reasons only. -/
def only_stops (P : Stop → Prop) (x : Run α) : Prop := ∀ t, x = .error t → P t

section OnlyStops

variable {P : Stop → Prop}

theorem only_stops.ok (a : α) : only_stops P (.ok a : Run α) := fun _ h => by cases h

theorem only_stops.error {t : Stop} (h : P t) : only_stops P (.error t : Run α) := fun _ h' =>
  Except.error.inj h' ▸ h

/-- In sequence: the first part, and what follows each value of it. -/
theorem only_stops.bind {x : Run α} {f : α → Run β} (hx : only_stops P x)
    (hf : ∀ a, only_stops P (f a)) : only_stops P (x >>= f) := by
  intro t h
  rcases bind_eq_error.mp h with h | ⟨a, -, h⟩
  · exact hx t h
  · exact hf a t h

theorem only_stops.ite {c : Prop} [Decidable c] {x y : Run α} (hx : only_stops P x)
    (hy : only_stops P y) : only_stops P (if c then x else y) := by
  split_ifs
  · exact hx
  · exact hy

theorem only_stops.mono {Q : Stop → Prop} {x : Run α} (hx : only_stops P x)
    (h : ∀ t, P t → Q t) : only_stops Q x := fun t ht => h t (hx t ht)

end OnlyStops

/-- A run that returns values with this property only. -/
def yields (Q : α → Prop) (x : Run α) : Prop := ∀ a, x = .ok a → Q a

section Yields

variable {Q : α → Prop}

theorem yields.ok {a : α} (h : Q a) : yields Q (.ok a : Run α) := fun _ h' =>
  Except.ok.inj h' ▸ h

theorem yields.error (t : Stop) : yields Q (.error t : Run α) := fun _ h => by cases h

/-- Nothing need be known of the values. -/
theorem yields.any (x : Run α) : yields (fun _ => True) x := fun _ _ => trivial

/-- In sequence: what the first part returns is known to the second. -/
theorem yields.bind {P : β → Prop} {x : Run β} {f : β → Run α} (hx : yields P x)
    (hf : ∀ b, P b → yields Q (f b)) : yields Q (x >>= f) := by
  intro a h
  obtain ⟨b, hb, ha⟩ := bind_eq_ok.mp h
  exact hf b (hx b hb) a ha

theorem yields.ite {c : Prop} [Decidable c] {x y : Run α} (hx : yields Q x) (hy : yields Q y) :
    yields Q (if c then x else y) := by
  split_ifs
  · exact hx
  · exact hy

end Yields

end Bind

theorem load_stops {buf : List Byte} {off n : ℕ} {t : Stop} (h : load buf off n = .error t) :
    t = .outOfBounds := by
  unfold load at h
  split_ifs at h
  exact (Except.error.inj h).symm

theorem store_stops {buf x : List Byte} {off : ℕ} {t : Stop} (h : store buf off x = .error t) :
    t = .outOfBounds := by
  unfold store at h
  split_ifs at h
  exact (Except.error.inj h).symm

theorem load_of_le {buf : List Byte} {off n : ℕ} (h : off + n ≤ buf.length) :
    load buf off n = .ok (slice buf off n) := if_pos h

theorem load_of_gt {buf : List Byte} {off n : ℕ} (h : buf.length < off + n) :
    load buf off n = .error .outOfBounds := if_neg (by omega)

theorem load_eq_ok {buf x : List Byte} {off n : ℕ} :
    load buf off n = .ok x ↔ off + n ≤ buf.length ∧ slice buf off n = x := by
  unfold load; split_ifs with h <;> simp [h]

theorem store_of_le {buf x : List Byte} {off : ℕ} (h : off + x.length ≤ buf.length) :
    store buf off x = .ok (overlay 0 buf off x) := if_pos h

theorem storeAt_natCast (buf : List Byte) (off : ℕ) (x : List Byte) :
    storeAt buf off x = store buf off x := by
  rw [storeAt, if_pos (Int.natCast_nonneg off), Int.toNat_natCast]

@[simp] theorem udiv_of_pos {a b : ℕ} (h : 0 < b) : udiv a b = .ok (a / b) := if_neg (by omega)

@[simp] theorem udiv_zero (a : ℕ) : udiv a 0 = .error .divideByZero := rfl

@[simp] theorem umod_of_pos {a b : ℕ} (h : 0 < b) : umod a b = .ok (a % b) := if_neg (by omega)

end CMemory

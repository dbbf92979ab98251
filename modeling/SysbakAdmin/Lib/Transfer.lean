/-
**Retried transfers**: moving `n` units through a call that may move fewer, be
interrupted, stop or fail, and asking again for the rest.

The system answers each call by the next `Outcome` of a schedule, and by a full
transfer once the schedule is used up. A finite schedule is no restriction on runs
that return: such a run makes finitely many calls, and the schedule that lists
their outcomes reproduces it. A run that never returns is one that is interrupted
for ever, and has no schedule.

`transfer_spec` is the one rule: whatever a single move preserves, as a function
of the amount moved so far, holds after the loop at the amount moved in the end,
and the loop reports completion exactly when that amount is the whole.

What is moved and where to is a parameter, a function that moves a number of units or none.
The two directions of a file are two instances, in `FileIo`.
-/
import Mathlib.Data.List.Basic
import Mathlib.Tactic.Ring

set_option autoImplicit false

namespace Transfer

/-- What the system answers to one call. -/
inductive Outcome where
  /-- move at most `k + 1` units -/
  | upTo (k : ℕ)
  /-- report that nothing was moved and nothing is wrong -/
  | nothing
  /-- interrupted before anything was moved; worth asking again -/
  | again
  /-- any other error -/
  | error
  deriving DecidableEq, Repr

/-- How the loop ended. -/
inductive Status where
  | complete
  | ended
  | failed
  deriving DecidableEq, Repr

section Loop

variable {σ : Type} (move : ℕ → σ → Option (ℕ × σ))

/-- What follows one call: an error ends the loop, and so does a call that moved
nothing; otherwise the loop goes on with what is left. -/
def settle (s : σ) (sched : List Outcome) (rest : ℕ → σ → Status × σ × List Outcome) :
    Option (ℕ × σ) → Status × σ × List Outcome
  | none => (.failed, s, sched)
  | some (0, s') => (.ended, s', sched)
  | some (m + 1, s') => rest m s'

/-- The loop, with `fuel` calls left. `move n s` moves at most `n` units: `none` is
an error, and `some (k, s')` moved `k`. -/
def loop : ℕ → List Outcome → ℕ → σ → Status × σ × List Outcome
  | _, sched, 0, s => (.complete, s, sched)
  | 0, sched, _ + 1, s => (.ended, s, sched)
  | _ + 1, .nothing :: sched, _ + 1, s => (.ended, s, sched)
  | _ + 1, .error :: sched, _ + 1, s => (.failed, s, sched)
  | fuel + 1, .again :: sched, n + 1, s => loop fuel sched (n + 1) s
  | fuel + 1, .upTo k :: sched, n + 1, s =>
      settle s sched (fun m s' => loop fuel sched (n - m) s') (move (min (k + 1) (n + 1)) s)
  | fuel + 1, [], n + 1, s =>
      settle s [] (fun m s' => loop fuel [] (n - m) s') (move (n + 1) s)

/-- Move `n` units. Every call uses up an outcome or moves something, so the length
of the schedule and `n` together bound the number of calls. -/
def transfer (sched : List Outcome) (n : ℕ) (s : σ) : Status × σ × List Outcome :=
  loop move (sched.length + n) sched n s

/-- A result of the loop that is right for `total` units, `d` of them already moved. -/
def Settled (I : ℕ → σ → Prop) (total d : ℕ) (r : Status × σ × List Outcome) : Prop :=
  ∃ e, d ≤ e ∧ e ≤ total ∧ I e r.2.1 ∧ (r.1 = .complete ↔ e = total)

/-- Stopping short with `d < total` units moved. -/
theorem settled_of_stop {I : ℕ → σ → Prop} {total d : ℕ} {s : σ} {st : Status}
    {sched : List Outcome} (hd : d < total) (hst : st ≠ .complete) (h : I d s) :
    Settled I total d (st, s, sched) :=
  ⟨d, le_rfl, hd.le, h, ⟨fun hc => absurd hc hst, fun he => by omega⟩⟩

/-- The case analysis after one call that asked for `m` of the remaining units. -/
theorem settle_spec {I : ℕ → σ → Prop} {total d m : ℕ} {s : σ} {sched : List Outcome}
    {rest : ℕ → σ → Status × σ × List Outcome} (hd : d < total) (h : I d s)
    (hmove : ∀ k s', move m s = some (k, s') → k ≤ m ∧ I (d + k) s')
    (hrest : ∀ k s', k + 1 ≤ m → I (d + (k + 1)) s' →
      Settled I total (d + (k + 1)) (rest k s')) :
    Settled I total d (settle s sched rest (move m s)) := by
  rcases hm : move m s with _ | ⟨k, s'⟩
  · exact settled_of_stop hd (by simp) h
  · obtain ⟨hk, hinv⟩ := hmove k s' hm
    cases k with
    | zero => exact settled_of_stop hd (by simp) hinv
    | succ k =>
        obtain ⟨e, h1, h2, h3, h4⟩ := hrest k s' hk hinv
        exact ⟨e, by omega, h2, h3, h4⟩

/-- **The rule of the loop.** `I d s` is what holds after `d` units were moved. The
induction is on the fuel, and the amount still to move carries the rest. -/
theorem loop_spec {I : ℕ → σ → Prop} {total : ℕ}
    (hmove : ∀ d n s k s', 0 < n → d + n ≤ total → I d s → move n s = some (k, s') →
      k ≤ n ∧ I (d + k) s') :
    ∀ (fuel : ℕ) (sched : List Outcome) (n d : ℕ) (s : σ),
      sched.length + n ≤ fuel → d + n = total → I d s →
      Settled I total d (loop move fuel sched n s) := by
  intro fuel
  -- on the calls that are left; each one uses up an outcome or moves something
  induction fuel with
  | zero =>
      intro sched n d s hfuel hd hinv
      obtain rfl : n = 0 := by omega
      exact ⟨d, le_rfl, by omega, hinv, by simp [loop]; omega⟩
  | succ fuel ih =>
      intro sched n d s hfuel hd hinv
      cases n with
      | zero => exact ⟨d, le_rfl, by omega, by simpa [loop] using hinv, by simp [loop]; omega⟩
      | succ n =>
          cases sched with
          | nil =>
              simp only [List.length_nil] at hfuel
              rw [loop]
              refine settle_spec move (by omega) hinv
                (fun k s' hm => hmove d _ s k s' (by omega) (by omega) hinv hm) ?_
              intro k s' hk hinv'
              exact ih [] (n - k) _ s' (by simp; omega) (by omega) hinv'
          | cons o sched =>
              simp only [List.length_cons] at hfuel
              cases o with
              | nothing => exact settled_of_stop (by omega) (by simp) hinv
              | error => exact settled_of_stop (by omega) (by simp) hinv
              | again => exact ih sched (n + 1) d s (by omega) hd hinv
              | upTo j =>
                  rw [loop]
                  refine settle_spec move (by omega) hinv
                    (fun k s' hm => hmove d _ s k s' (by omega) (by omega) hinv hm) ?_
                  intro k s' hk hinv'
                  exact ih sched (n - k) _ s' (by omega) (by omega) hinv'

/-- `loop_spec` for a whole transfer. -/
theorem transfer_spec {I : ℕ → σ → Prop} {n : ℕ} (sched : List Outcome) (s : σ)
    (h0 : I 0 s)
    (hmove : ∀ d m s k s', 0 < m → d + m ≤ n → I d s → move m s = some (k, s') →
      k ≤ m ∧ I (d + k) s') :
    Settled I n 0 (transfer move sched n s) :=
  loop_spec move hmove (sched.length + n) sched n 0 s le_rfl (by omega) h0

/-- Nothing to move. -/
@[simp] theorem transfer_zero (sched : List Outcome) (s : σ) :
    transfer move sched 0 s = (.complete, s, sched) := by
  unfold transfer
  cases sched.length + 0 <;> rfl

/-- An undisturbed call that moves everything it is asked for ends the loop. -/
theorem transfer_undisturbed {n : ℕ} {s s' : σ} (hn : 0 < n) (h : move n s = some (n, s')) :
    transfer move [] n s = (.complete, s', []) := by
  obtain ⟨m, rfl⟩ : ∃ m, n = m + 1 := ⟨n - 1, by omega⟩
  simp only [transfer, List.length_nil, loop, h, settle, Nat.sub_self]

theorem settle_suffix {s : σ} {sched all : List Outcome}
    {rest : ℕ → σ → Status × σ × List Outcome} (hs : sched <:+ all)
    (hrest : ∀ k s', (rest k s').2.2 <:+ sched) (r : Option (ℕ × σ)) :
    (settle s sched rest r).2.2 <:+ all := by
  rcases r with _ | ⟨_ | k, s'⟩
  · exact hs
  · exact hs
  · exact (hrest k s').trans hs

/-- The loop uses the schedule from the front. -/
theorem loop_suffix : ∀ (fuel : ℕ) (sched : List Outcome) (n : ℕ) (s : σ),
    (loop move fuel sched n s).2.2 <:+ sched := by
  intro fuel
  induction fuel with
  | zero => intro sched n s; cases n <;> exact List.suffix_rfl
  | succ fuel ih =>
      intro sched n s
      cases n with
      | zero => exact List.suffix_rfl
      | succ n =>
          cases sched with
          | nil => exact settle_suffix List.suffix_rfl (fun k s' => ih _ _ _) _
          | cons o sched =>
              have htail : sched <:+ o :: sched := List.suffix_cons o sched
              cases o with
              | nothing => exact htail
              | error => exact htail
              | again => exact (ih _ _ _).trans htail
              | upTo k => exact settle_suffix htail (fun k s' => ih _ _ _) _

/-- A schedule on which no call comes to nothing or fails. Short calls, and calls that are
interrupted, may be on it. -/
def carries (sched : List Outcome) : Prop := ∀ o ∈ sched, o ≠ .nothing ∧ o ≠ .error

theorem carries.suffix {sched sched' : List Outcome} (h : carries sched) (hs : sched' <:+ sched) :
    carries sched' := fun o ho => h o (hs.subset ho)

/-- **When a loop completes**: on such a schedule, with moves that always move something.
`P n s` is what holds with `n` units to go. -/
theorem loop_complete {P : ℕ → σ → Prop}
    (hmove : ∀ n m s, 0 < m → m ≤ n → P n s →
      ∃ k s', move m s = some (k + 1, s') ∧ k + 1 ≤ m ∧ P (n - (k + 1)) s') :
    ∀ (fuel : ℕ) (sched : List Outcome) (n : ℕ) (s : σ), sched.length + n ≤ fuel →
      carries sched → P n s → (loop move fuel sched n s).1 = .complete := by
  intro fuel
  induction fuel with
  | zero =>
      intro sched n s hfuel _ _
      obtain rfl : n = 0 := by omega
      rfl
  | succ fuel ih =>
      intro sched n s hfuel hsched hP
      cases n with
      | zero => rfl
      | succ n =>
          -- a call that moves something leaves the loop with less to go
          have hcall : ∀ (m : ℕ) (rest : List Outcome), 0 < m → m ≤ n + 1 → carries rest →
              rest.length + n ≤ fuel →
              (settle s rest (fun k s' => loop move fuel rest (n - k) s') (move m s)).1
                = .complete := by
            intro m rest h0 hm hrest hlen
            obtain ⟨k, s', hk, hle, hP'⟩ := hmove (n + 1) m s h0 hm hP
            rw [hk, settle]
            refine ih rest (n - k) s' (by omega) hrest ?_
            rwa [Nat.add_sub_add_right] at hP'
          cases sched with
          | nil =>
              rw [List.length_nil] at hfuel
              exact hcall (n + 1) [] (by omega) le_rfl hsched (by simp only [List.length_nil]; omega)
          | cons o sched =>
              rw [List.length_cons] at hfuel
              have htail : carries sched := hsched.suffix (List.suffix_cons o sched)
              obtain ⟨hnothing, herror⟩ := hsched o List.mem_cons_self
              cases o with
              | nothing => exact absurd rfl hnothing
              | error => exact absurd rfl herror
              | again => exact ih sched (n + 1) s (by omega) htail hP
              | upTo j =>
                  exact hcall (min (j + 1) (n + 1)) sched (by omega) (by omega) htail (by omega)

/-- `loop_complete` for a whole transfer. -/
theorem transfer_complete {P : ℕ → σ → Prop}
    (hmove : ∀ n m s, 0 < m → m ≤ n → P n s →
      ∃ k s', move m s = some (k + 1, s') ∧ k + 1 ≤ m ∧ P (n - (k + 1)) s')
    {sched : List Outcome} (hsched : carries sched) {n : ℕ} {s : σ} (hP : P n s) :
    (transfer move sched n s).1 = .complete :=
  loop_complete move hmove _ sched n s le_rfl hsched hP

/-- What a whole transfer leaves of the schedule. -/
theorem transfer_suffix (sched : List Outcome) (n : ℕ) (s : σ) :
    (transfer move sched n s).2.2 <:+ sched := loop_suffix move _ _ _ _

end Loop

end Transfer

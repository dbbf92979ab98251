/-
**Loops that run until they say so**: `do { ... } while (1)` with `break` and a jump out
for errors, over a state.

A body returns where the loop goes from here. The loop itself has no bound, so it takes
fuel and diverges without; `passes_spec` is the rule that spends the fuel once and for
all: an invariant that every pass keeps, and a measure that every pass that goes on
makes smaller.

The rules differ in what they ask of a pass. `passes_spec` is for loops that end, with a
measure; `passes_stops` for runs that come to a fault, again with a measure; `passes_only_stops`
and `passes_yields` say how a loop can stop and what it can return, without one. `starts` are
the states at the head of the loop, and `starts_invariant` the induction over them.

A body is given its variables and the state apart, since the source keeps the one in locals and
the other in files; an invariant is a relation between the two.
-/
import SysbakAdmin.Lib.CMemory

set_option autoImplicit false

namespace DoWhile

open CMemory

/-- Where one pass of a loop leads. -/
inductive Pass (α : Type) where
  | next (a : α)
  | done (a : α)
  | fail

/-- What a pass of each kind establishes. -/
def Pass.leads {α σ : Type} (Next Done : α → σ → Prop) (Fail : σ → Prop) : Pass α → σ → Prop
  | .next a, s => Next a s
  | .done a, s => Done a s
  | .fail, s => Fail s

/-- What the loop establishes when it is left. -/
def ends {α σ : Type} (Done : α → σ → Prop) (Fail : σ → Prop) : Option α → σ → Prop
  | some a, s => Done a s
  | none, s => Fail s

section Loop

variable {α σ : Type} (body : α → σ → Run (Pass α × σ))

/-- The passes. `none` is the way out through an error. -/
def passes : ℕ → α → σ → Run (Option α × σ)
  | 0, _, _ => .error .diverged
  | fuel + 1, a, s => do
      match ← body a s with
      | (.next a, s) => passes fuel a s
      | (.done a, s) => pure (some a, s)
      | (.fail, s) => pure (none, s)

/-- **The rule of the loop**, for passes that may stop for some reasons. -/
theorem passes_ends {I D : α → σ → Prop} {F : σ → Prop} {P : Stop → Prop}
    (m : α → σ → ℕ)
    (hbody : ∀ a s, I a s → (∃ t, body a s = .error t ∧ P t) ∨
      ∃ p s', body a s = .ok (p, s') ∧
        p.leads (fun a' s' => I a' s' ∧ m a' s' < m a s) D F s') :
    ∀ (fuel : ℕ) (a : α) (s : σ), m a s < fuel → I a s →
      (∃ t, passes body fuel a s = .error t ∧ P t) ∨
        ∃ r s', passes body fuel a s = .ok (r, s') ∧ ends D F r s' := by
  intro fuel
  induction fuel with
  | zero => intro a s hm; omega
  | succ fuel ih =>
      intro a s hm hinv
      rcases hbody a s hinv with ⟨t, ht, hP⟩ | ⟨p, s', hp, hleads⟩
      · exact Or.inl ⟨t, by simp only [passes, ht, error_bind], hP⟩
      simp only [passes, hp, ok_bind]
      cases p with
      | next a' =>
          obtain ⟨hinv', hlt⟩ := hleads
          exact ih a' s' (by omega) hinv'
      | done a' => exact Or.inr ⟨some a', s', rfl, hleads⟩
      | fail => exact Or.inr ⟨none, s', rfl, hleads⟩

/-- **The rule of the loop**, for passes that return. -/
theorem passes_spec {I D : α → σ → Prop} {F : σ → Prop} (m : α → σ → ℕ)
    (hbody : ∀ a s, I a s → ∃ p s', body a s = .ok (p, s') ∧
      p.leads (fun a' s' => I a' s' ∧ m a' s' < m a s) D F s')
    (fuel : ℕ) (a : α) (s : σ) (hm : m a s < fuel) (hinv : I a s) :
    ∃ r s', passes body fuel a s = .ok (r, s') ∧ ends D F r s' := by
  rcases passes_ends body (P := fun _ => False) m (fun a s h => Or.inr (hbody a s h)) fuel a s hm
    hinv with ⟨t, -, h⟩ | h
  · exact h.elim
  · exact h

/-- **A loop that stops**: every pass goes on, until one stops. -/
theorem passes_stops {I : α → σ → Prop} (m : α → σ → ℕ) (stop : Stop)
    (hbody : ∀ a s, I a s → body a s = .error stop ∨
      ∃ a' s', body a s = .ok (.next a', s') ∧ I a' s' ∧ m a' s' < m a s) :
    ∀ (fuel : ℕ) (a : α) (s : σ), m a s < fuel → I a s →
      passes body fuel a s = .error stop := by
  intro fuel a s hm hinv
  have hpass : ∀ a s, I a s → (∃ t, body a s = .error t ∧ t = stop) ∨
      ∃ p s', body a s = .ok (p, s') ∧
        p.leads (fun a' s' => I a' s' ∧ m a' s' < m a s) (fun _ _ => False) (fun _ => False) s' := by
    intro a s h
    rcases hbody a s h with hstop | ⟨a', s', hnext, hleads⟩
    · exact Or.inl ⟨stop, hstop, rfl⟩
    · exact Or.inr ⟨.next a', s', hnext, hleads⟩
  -- no pass leaves the loop, so one of them stops it
  rcases passes_ends body m hpass fuel a s hm hinv with ⟨t, hrun, rfl⟩ | ⟨r, s', -, hends⟩
  · exact hrun
  · cases r with
    | some a' => exact hends.elim
    | none => exact hends.elim

/-- **A loop that does not return** ran out of passes, or one of them did not return. -/
theorem passes_only_stops {P : Stop → Prop} (hdiverged : P .diverged)
    (hbody : ∀ a s, only_stops P (body a s)) :
    ∀ (fuel : ℕ) (a : α) (s : σ), only_stops P (passes body fuel a s) := by
  intro fuel
  induction fuel with
  | zero => intro a s; exact .error hdiverged
  | succ fuel ih =>
      intro a s
      refine .bind (hbody a s) fun r => ?_
      obtain ⟨p, s'⟩ := r
      cases p with
      | next a' => exact ih a' s'
      | done a' => exact .ok _
      | fail => exact .ok _

/-- What every pass keeps of the state, the loop keeps. -/
theorem passes_yields {P : σ → Prop} (hbody : ∀ a s, P s → yields (fun r => P r.2) (body a s)) :
    ∀ (fuel : ℕ) (a : α) (s : σ), P s → yields (fun r => P r.2) (passes body fuel a s) := by
  intro fuel
  induction fuel with
  | zero => exact fun a s _ => .error _
  | succ fuel ih =>
      intro a s hs
      refine .bind (hbody a s hs) fun r hr => ?_
      obtain ⟨p, s'⟩ := r
      cases p with
      | next a' => exact ih a' s' hr
      | done a' => exact .ok hr
      | fail => exact .ok hr

/-- The states at the start of a pass, of a loop that was entered at `a` and `s`. -/
inductive starts (a : α) (s : σ) : α → σ → Prop where
  | entry : starts a s a s
  | next {a₁ a₂ : α} {s₁ s₂ : σ} : starts a s a₁ s₁ → body a₁ s₁ = .ok (.next a₂, s₂) →
      starts a s a₂ s₂

/-- **What every pass keeps holds at the start of every pass.** -/
theorem starts_invariant {I : α → σ → Prop}
    (hstep : ∀ a s a' s', I a s → body a s = .ok (.next a', s') → I a' s')
    {a a' : α} {s s' : σ} (h : starts body a s a' s') (hinv : I a s) : I a' s' := by
  induction h with
  | entry => exact hinv
  | next _ hbody ih => exact hstep _ _ _ _ ih hbody

end Loop

end DoWhile

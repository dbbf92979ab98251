/-
The allocation groups of a mounted XFS file system: `libxfs_initialize_perag` of
`src/xfs/xfs_init.c` puts a record for each into the radix tree, under the number of the group,
and `xfs_perag_get` of `src/xfs/xfs_sb.c` finds it there.

When a record cannot be put in, those put in before are taken out again. The source counts them
from the first one on, with 0 for none yet; so in a new mount group 1 counts as the first.

A record that cannot be had at all is another matter: `kmem_zalloc` clears what `malloc` gave it
without a look, so the test behind it for a null pointer comes too late. Of the two ways memory can
run out here, only the one inside the radix tree leaves the function in order.

`sound` is the invariant of a mount: the tree below it is one that the calls of the radix
tree can have made, and what it holds at a number is a record of that number, on the heap.
The loops of the function keep it group by group. The theorem about a return of 0 asks for
no more; the one about a new mount says in addition which groups are left behind by a
failure, since the loop that takes them out again starts at the wrong one.
-/
import SysbakAdmin.RadixTree

set_option autoImplicit false

namespace SysbakAdmin.Perag

open RadixTree

/-! ## The code -/

structure xfs_perag where
  pag_agno : ℕ
  pag_ref : ℤ

/-- The part of a mount that knows the groups. A pointer is a place in the heap; what `free`
gives back is not used again. -/
structure xfs_mount where
  m_perag_tree : radix_tree_root ℕ
  heap : List xfs_perag

/-- `xfs_perag_get`. -/
def xfs_perag_get (mp : xfs_mount) (agno : ℕ) : Option (Option ℕ × xfs_mount) :=
  match radix_tree_lookup mp.m_perag_tree agno with
  | none => none
  | some none => some (none, mp)
  | some (some pag) =>
    some (some pag,
      { mp with heap := mp.heap.modify pag fun p => { p with pag_ref := p.pag_ref + 1 } })

/-- `xfs_perag_put`. -/
def xfs_perag_put (mp : xfs_mount) (pag : ℕ) : xfs_mount :=
  { mp with heap := mp.heap.modify pag fun p => { p with pag_ref := p.pag_ref - 1 } }

/-- How the first loop of `libxfs_initialize_perag` ends: at the last group, or at one whose
record cannot be put in. -/
inductive walked where
  | done (mp : xfs_mount)
  | unwind (index first_initialised : ℕ) (mp : xfs_mount)

/-- That loop, over `left` groups from `index` on; `zalloc` says whether there is memory for the
record of a group, and `allocs` how much there is for its insert. -/
def walk_groups (zalloc : ℕ → Bool) (allocs : ℕ → ℕ) : ℕ → ℕ → ℕ → xfs_mount → Option walked
  | 0, _, _, mp => some (.done mp)
  | left + 1, index, first_initialised, mp =>
    match xfs_perag_get mp index with
    | none => none
    | some (some pag, mp) =>
      walk_groups zalloc allocs left (index + 1) first_initialised (xfs_perag_put mp pag)
    | some (none, mp) =>
      -- 0 stands for none yet, so group 0 is forgotten when group 1 is put in
      let first_initialised := if first_initialised = 0 then index else first_initialised
      -- `kmem_zalloc` writes through the null pointer
      if zalloc index = false then none
      else
        match radix_tree_insert mp.m_perag_tree index mp.heap.length (allocs index) with
        | none => none
        | some (error, root) =>
          if error ≠ 0 then some (.unwind index first_initialised ⟨root, mp.heap ++ [⟨index, 0⟩]⟩)
          else
            walk_groups zalloc allocs left (index + 1) first_initialised
              ⟨root, mp.heap ++ [⟨index, 0⟩]⟩

/-- The loop at `out_unwind`. -/
def out_unwind (first_initialised : ℕ) : ℕ → xfs_mount → Option xfs_mount
  | 0, mp => some mp
  | index + 1, mp =>
    -- the loop stops above the first group of this call, which stays in
    if first_initialised < index + 1 then
      match radix_tree_delete mp.m_perag_tree (index + 1) with
      | none => none
      | some (_, root) => out_unwind first_initialised index { mp with m_perag_tree := root }
    else some mp

/-- `libxfs_initialize_perag`, as far as its records are read. -/
def libxfs_initialize_perag (zalloc : ℕ → Bool) (allocs : ℕ → ℕ) (mp : xfs_mount)
    (agcount : ℕ) : Option (ℤ × xfs_mount) :=
  match walk_groups zalloc allocs agcount 0 0 mp with
  | none => none
  | some (.done mp) => some (0, mp)
  | some (.unwind index first_initialised mp) =>
    match out_unwind first_initialised index mp with
    | none => none
    | some mp => some (-EEXIST, mp)

/-! ## The groups of a mount -/

/-- Each group that is known has a record of its own. -/
structure sound (mp : xfs_mount) : Prop where
  tree : RadixTree.sound mp.m_perag_tree
  own : ∀ agno pag, holds mp.m_perag_tree agno = some pag →
    ∃ p, mp.heap[pag]? = some p ∧ p.pag_agno = agno

theorem sound_init (heap : List xfs_perag) : sound ⟨INIT_RADIX_TREE, heap⟩ where
  tree := RadixTree.sound_init
  own agno pag hheld := by
    rw [holds_bare rfl] at hheld
    cases hheld

/-- A record may change but for its number. -/
theorem own_modify {mp : xfs_mount} (h : sound mp) (pag : ℕ) (f : xfs_perag → xfs_perag)
    (hf : ∀ p, (f p).pag_agno = p.pag_agno) : sound { mp with heap := mp.heap.modify pag f } where
  tree := h.tree
  own agno at' hheld := by
    obtain ⟨p, hp, hagno⟩ := h.own agno at' hheld
    have hget : (mp.heap.modify pag f)[at']? = some (if pag = at' then f p else p) := by
      rw [List.getElem?_modify, hp]
      split_ifs <;> rfl
    refine ⟨_, hget, ?_⟩
    split_ifs
    · rw [hf, hagno]
    · exact hagno

/-- A record put in for a group that was not known. -/
theorem sound_insert {mp : xfs_mount} {index allocs : ℕ} {error : ℤ} {root : radix_tree_root ℕ}
    (h : sound mp) (hindex : index < 2 ^ 64) (hnone : holds mp.m_perag_tree index = none)
    (hrun : radix_tree_insert mp.m_perag_tree index mp.heap.length allocs = some (error, root)) :
    sound ⟨root, mp.heap ++ [⟨index, 0⟩]⟩ ∧
      ((error = 0 ∧
          holds root = Function.update (holds mp.m_perag_tree) index (some mp.heap.length)) ∨
        (error ≠ 0 ∧ allocs < 22 ∧ holds root = holds mp.m_perag_tree)) := by
  obtain ⟨htree, hmap, -⟩ :=
    step_spec (c := .insert index mp.heap.length allocs error) hindex h.tree hrun
  have hkept : ∀ agno pag, holds mp.m_perag_tree agno = some pag →
      ∃ p, (mp.heap ++ [(⟨index, 0⟩ : xfs_perag)])[pag]? = some p ∧ p.pag_agno = agno := by
    intro agno pag hheld
    obtain ⟨p, hp, hagno⟩ := h.own agno pag hheld
    refine ⟨p, ?_, hagno⟩
    rw [List.getElem?_append_left (List.getElem?_eq_some_iff.mp hp).1, hp]
  rcases hmap with ⟨-, hsome, -⟩ | ⟨rfl, -, hplaced⟩ | ⟨rfl, -, hlack, hsame⟩
  · rw [hnone] at hsome
    exact absurd hsome Bool.false_ne_true
  · refine ⟨⟨htree, fun agno pag hheld => ?_⟩, Or.inl ⟨rfl, hplaced⟩⟩
    rw [show holds root = _ from hplaced] at hheld
    by_cases hagno : agno = index
    · rw [hagno, Function.update_self] at hheld
      cases hheld
      refine ⟨⟨index, 0⟩, ?_, hagno.symm⟩
      rw [List.getElem?_append_right (Nat.le_refl _), Nat.sub_self]
      rfl
    · rw [Function.update_of_ne hagno] at hheld
      exact hkept agno pag hheld
  · refine ⟨⟨htree, fun agno pag hheld => ?_⟩, Or.inr ⟨by decide, hlack, hsame⟩⟩
    rw [show holds root = _ from hsame] at hheld
    exact hkept agno pag hheld

/-- What `xfs_perag_get` finds. -/
theorem xfs_perag_get_spec {mp : xfs_mount} (h : sound mp) (agno : ℕ) :
    (holds mp.m_perag_tree agno = none ∧ xfs_perag_get mp agno = some (none, mp)) ∨
      ∃ pag mp', holds mp.m_perag_tree agno = some pag ∧
        xfs_perag_get mp agno = some (some pag, mp') ∧ sound mp' ∧
        mp'.m_perag_tree = mp.m_perag_tree := by
  rw [xfs_perag_get, radix_tree_lookup_eq h.tree]
  cases hheld : holds mp.m_perag_tree agno with
  | none => exact Or.inl ⟨rfl, rfl⟩
  | some pag => exact Or.inr ⟨pag, _, rfl, rfl, own_modify h pag _ fun _ => rfl, rfl⟩

/-- What a walk over the groups from `index` on and below `stop` makes of a mount: each of them has
a record, and the other groups, and those that had one, lead to what they led to. -/
structure walked_over (index stop : ℕ) (mp mp' : xfs_mount) : Prop where
  sound : sound mp'
  there : ∀ agno, index ≤ agno → agno < stop → (holds mp'.m_perag_tree agno).isSome
  kept : ∀ agno, (agno < index ∨ stop ≤ agno ∨ (holds mp.m_perag_tree agno).isSome) →
    holds mp'.m_perag_tree agno = holds mp.m_perag_tree agno

/-- **One group more in front**: the walk behind it starts from a mount that has its record and
differs from the first in nothing else. -/
theorem walked_over.cons {index stop : ℕ} {mp mp₁ mp' : xfs_mount}
    (h : walked_over (index + 1) stop mp₁ mp') (hle : index < stop)
    (hhere : (holds mp₁.m_perag_tree index).isSome)
    (hothers : ∀ agno, (agno ≠ index ∨ (holds mp.m_perag_tree agno).isSome) →
      holds mp₁.m_perag_tree agno = holds mp.m_perag_tree agno) :
    walked_over index stop mp mp' := by
  refine ⟨h.sound, fun agno hfrom hlt => ?_, fun agno hagno => ?_⟩
  · rcases Nat.eq_or_lt_of_le hfrom with rfl | hlt'
    · rw [h.kept _ (Or.inl (Nat.lt_succ_self _))]
      exact hhere
    · exact h.there agno hlt' hlt
  · rcases hagno with hlt | hge | hheld
    · rw [h.kept agno (Or.inl (Nat.lt_succ_of_lt hlt)), hothers agno (Or.inl (Nat.ne_of_lt hlt))]
    · rw [h.kept agno (Or.inr (Or.inl hge)), hothers agno (Or.inl (by omega))]
    · have hsame := hothers agno (Or.inr hheld)
      rw [h.kept agno (Or.inr (Or.inr (hsame ▸ hheld))), hsame]

/-- **The first loop**: it comes to each group once, and at the end each has a record. By
induction on the groups that are left: an insert puts one record in under its number and keeps the
rest, and a group that has one is passed over. -/
theorem walk_groups_spec (zalloc : ℕ → Bool) (allocs : ℕ → ℕ) : ∀ (left index first_initialised : ℕ)
    (mp mp' : xfs_mount), sound mp → index + left ≤ 2 ^ 32 →
    walk_groups zalloc allocs left index first_initialised mp = some (.done mp') →
    walked_over index (index + left) mp mp' := by
  intro left
  induction left with
  | zero =>
      intro index first_initialised mp mp' h _ hrun
      cases hrun
      exact ⟨h, fun agno hle hlt => absurd hle (Nat.not_le.mpr hlt), fun _ _ => rfl⟩
  | succ left ih =>
      intro index first_initialised mp mp' h hcount hrun
      have hrest : ∀ (first : ℕ) (mp₁ : xfs_mount), sound mp₁ →
          walk_groups zalloc allocs left (index + 1) first mp₁ = some (.done mp') →
          walked_over (index + 1) (index + (left + 1)) mp₁ mp' := by
        intro first mp₁ h₁ hrun₁
        rw [Nat.add_comm left 1, ← Nat.add_assoc]
        exact ih (index + 1) first mp₁ mp' h₁ (by omega) hrun₁
      rw [walk_groups] at hrun
      rcases xfs_perag_get_spec h index with ⟨hnone, hget⟩ | ⟨pag, mp₁, hsome, hget, h₁, htree⟩
      · rw [hget] at hrun
        dsimp only at hrun
        by_cases hrecord : zalloc index = false
        · rw [if_pos hrecord] at hrun
          cases hrun
        rw [if_neg hrecord] at hrun
        cases hinsert : radix_tree_insert mp.m_perag_tree index mp.heap.length (allocs index) with
        | none =>
            rw [hinsert] at hrun
            cases hrun
        | some ret =>
            obtain ⟨error, root⟩ := ret
            rw [hinsert] at hrun
            dsimp only at hrun
            obtain ⟨hsound, hcase⟩ := sound_insert h (by omega) hnone hinsert
            rcases hcase with ⟨herror, hplaced⟩ | ⟨herror, -, -⟩
            · rw [if_neg (not_not.mpr herror)] at hrun
              refine (hrest _ _ hsound hrun).cons (by omega) ?_ fun agno hagno => ?_
              · rw [hplaced, Function.update_self]
                rfl
              · have hne : agno ≠ index := by
                  rintro rfl
                  rcases hagno with hne | hheld
                  · exact hne rfl
                  · rw [hnone] at hheld
                    exact Bool.false_ne_true hheld
                rw [hplaced, Function.update_of_ne hne]
            · rw [if_pos herror] at hrun
              cases hrun
      · rw [hget] at hrun
        dsimp only at hrun
        have hput : sound (xfs_perag_put mp₁ pag) := own_modify h₁ pag _ fun _ => rfl
        have hsame : (xfs_perag_put mp₁ pag).m_perag_tree = mp.m_perag_tree := htree
        refine (hrest _ _ hput hrun).cons (by omega) ?_ fun agno _ => ?_
        · rw [hsame, hsome]
          rfl
        · rw [hsame]

/-- **The groups of a mount**: after `libxfs_initialize_perag` returns 0, a number below the count
of groups leads to a record of that group, the one it led to before where there was one, and any
other number to what it led to before. A return of 0 is the way out at the end of the two loops;
every failure leaves through `out_unwind` with another number. -/
theorem libxfs_initialize_perag_spec {zalloc : ℕ → Bool} {allocs : ℕ → ℕ} {mp mp' : xfs_mount}
    {agcount : ℕ} (h : sound mp) (hcount : agcount ≤ 2 ^ 32)
    (hrun : libxfs_initialize_perag zalloc allocs mp agcount = some (0, mp')) :
    (∀ agno < agcount, ∃ pag p, radix_tree_lookup mp'.m_perag_tree agno = some (some pag) ∧
      mp'.heap[pag]? = some p ∧ p.pag_agno = agno) ∧
    ∀ agno, (agcount ≤ agno ∨ radix_tree_lookup mp.m_perag_tree agno ≠ some none) →
      radix_tree_lookup mp'.m_perag_tree agno = radix_tree_lookup mp.m_perag_tree agno := by
  rw [libxfs_initialize_perag] at hrun
  cases hwalk : walk_groups zalloc allocs agcount 0 0 mp with
  | none =>
      rw [hwalk] at hrun
      cases hrun
  | some w =>
      rw [hwalk] at hrun
      cases w with
      | unwind index first_initialised mp₁ =>
          dsimp only at hrun
          cases hunwind : out_unwind first_initialised index mp₁ with
          | none =>
              rw [hunwind] at hrun
              cases hrun
          | some mp₂ =>
              rw [hunwind] at hrun
              have hzero := congrArg Prod.fst (Option.some.inj hrun)
              exact absurd hzero (show -EEXIST ≠ 0 by decide)
      | done mp₁ =>
          cases hrun
          obtain ⟨h', hin, hout⟩ := walk_groups_spec zalloc allocs agcount 0 0 mp mp' h (by omega)
            hwalk
          rw [Nat.zero_add] at hin hout
          refine ⟨fun agno hagno => ?_, fun agno hagno => ?_⟩
          · obtain ⟨pag, hheld⟩ := Option.isSome_iff_exists.mp (hin agno (Nat.zero_le _) hagno)
            obtain ⟨p, hp, hpagno⟩ := h'.own agno pag hheld
            exact ⟨pag, p, by rw [radix_tree_lookup_eq h'.tree, hheld], hp, hpagno⟩
          · rw [radix_tree_lookup_eq h.tree] at hagno ⊢
            rw [radix_tree_lookup_eq h'.tree, hout agno (Or.inr (hagno.imp_right fun hne => ?_))]
            exact Option.isSome_iff_ne_none.mpr fun hnone => hne (congrArg some hnone)

/-- Four groups, in a new mount. -/
theorem four_groups : ∃ mp', libxfs_initialize_perag (fun _ => true) (fun _ => 22)
      ⟨INIT_RADIX_TREE, []⟩ 4 = some (0, mp') ∧
    (∀ agno < 4, ∃ pag p, radix_tree_lookup mp'.m_perag_tree agno = some (some pag) ∧
      mp'.heap[pag]? = some p ∧ p.pag_agno = agno) ∧
    ∀ agno, (4 ≤ agno ∨ radix_tree_lookup (INIT_RADIX_TREE : radix_tree_root ℕ) agno ≠ some none) →
      radix_tree_lookup mp'.m_perag_tree agno
        = radix_tree_lookup (INIT_RADIX_TREE : radix_tree_root ℕ) agno := by
  have hrun : ∃ mp',
      libxfs_initialize_perag (fun _ => true) (fun _ => 22) ⟨INIT_RADIX_TREE, []⟩ 4
        = some (0, mp') := ⟨_, rfl⟩
  obtain ⟨mp', hrun⟩ := hrun
  exact ⟨mp', hrun, libxfs_initialize_perag_spec (sound_init []) (by decide) hrun⟩

/-! ## Where memory runs out -/

/-- Taken out again are the groups behind the first one. Each is deleted from the tree by its
number; the records stay on the heap, unreached. -/
theorem out_unwind_spec (first_initialised : ℕ) : ∀ (index : ℕ) (mp : xfs_mount),
    RadixTree.sound mp.m_perag_tree →
    ∃ mp', out_unwind first_initialised index mp = some mp' ∧ RadixTree.sound mp'.m_perag_tree ∧
      ∀ agno, (holds mp'.m_perag_tree agno).isSome ↔
        (holds mp.m_perag_tree agno).isSome ∧ (agno ≤ first_initialised ∨ index < agno) := by
  intro index
  induction index with
  | zero =>
      intro mp h
      refine ⟨mp, rfl, h, fun agno => ⟨fun hheld => ⟨hheld, ?_⟩, fun hheld => hheld.1⟩⟩
      omega
  | succ index ih =>
      intro mp h
      rw [out_unwind]
      split_ifs with hfirst
      · obtain ⟨root, hrun, hsound, hholds, -⟩ := radix_tree_delete_spec h (index + 1)
        obtain ⟨mp', hrest, hsound', hheld⟩ := ih { mp with m_perag_tree := root } hsound
        rw [hrun]
        refine ⟨mp', hrest, hsound', fun agno => ?_⟩
        rw [hheld agno]
        by_cases hagno : agno = index + 1
        · rw [show holds root agno = none by rw [hholds, hagno, Function.update_self]]
          constructor
          · rintro ⟨hsome, -⟩
            exact absurd hsome Bool.false_ne_true
          · rintro ⟨-, hplace⟩
            omega
        · rw [show holds root agno = holds mp.m_perag_tree agno by
            rw [hholds, Function.update_of_ne hagno]]
          refine and_congr_right fun _ => ?_
          omega
      · refine ⟨mp, rfl, h, fun agno => ⟨fun hheld => ⟨hheld, ?_⟩, fun hheld => hheld.1⟩⟩
        omega

/-- The first loop over a mount that knows the groups before `index` only. It stops for want of a
record, or it returns; and the group it then breaks off at had no memory for its insert. -/
theorem walk_groups_fresh (zalloc : ℕ → Bool) (allocs : ℕ → ℕ) : ∀ (left index : ℕ)
    (mp : xfs_mount), sound mp → index + left ≤ 2 ^ 32 →
    (∀ agno, (holds mp.m_perag_tree agno).isSome ↔ agno < index) →
    (index = 0 → mp.m_perag_tree.height ≤ 10) →
    (walk_groups zalloc allocs left index (min (index - 1) 1) mp = none ∧
      ∃ stop < index + left, zalloc stop = false) ∨
    (∃ mp', walk_groups zalloc allocs left index (min (index - 1) 1) mp = some (.done mp') ∧
      sound mp' ∧ ∀ agno, (holds mp'.m_perag_tree agno).isSome ↔ agno < index + left) ∨
    ∃ stop mp', walk_groups zalloc allocs left index (min (index - 1) 1) mp
        = some (.unwind stop (min stop 1) mp') ∧ stop < index + left ∧ allocs stop < 22 ∧
      RadixTree.sound mp'.m_perag_tree ∧
      ∀ agno, (holds mp'.m_perag_tree agno).isSome ↔ agno < stop := by
  intro left
  induction left with
  | zero =>
      intro index mp h _ hheld _
      exact Or.inr (Or.inl ⟨mp, rfl, h, hheld⟩)
  | succ left ih =>
      intro index mp h hcount hheld hheight
      have hnone : holds mp.m_perag_tree index = none :=
        Option.not_isSome_iff_eq_none.mp fun hsome => absurd ((hheld index).mp hsome) (lt_irrefl _)
      have hfirst : (if min (index - 1) 1 = 0 then index else min (index - 1) 1) = min index 1 := by
        split_ifs <;> omega
      obtain ⟨error, root, hinsert, -⟩ := radix_tree_insert_spec h.tree
        (show index < 2 ^ 64 by omega) mp.heap.length (allocs index) fun hzero _ => hheight hzero
      have hget : xfs_perag_get mp index = some (none, mp) := by
        rw [xfs_perag_get, radix_tree_lookup_eq h.tree, hnone]
      rw [walk_groups, hget]
      dsimp only
      by_cases hrecord : zalloc index = false
      · rw [if_pos hrecord]
        exact Or.inl ⟨rfl, index, by omega, hrecord⟩
      rw [if_neg hrecord, hinsert]
      dsimp only
      rw [hfirst]
      obtain ⟨hsound, ⟨herror, hplaced⟩ | ⟨herror, hlack, hsame⟩⟩ :=
        sound_insert h (by omega) hnone hinsert
      · rw [if_neg (not_not.mpr herror)]
        have hnext : ∀ agno, (holds root agno).isSome ↔ agno < index + 1 := by
          intro agno
          rw [hplaced]
          by_cases hagno : agno = index
          · rw [hagno, Function.update_self]
            exact iff_of_true rfl (Nat.lt_succ_self index)
          · rw [Function.update_of_ne hagno, hheld agno]
            omega
        have hrest := ih (index + 1) ⟨root, mp.heap ++ [⟨index, 0⟩]⟩ hsound (by omega) hnext
          fun hzero => absurd hzero (Nat.succ_ne_zero index)
        rw [Nat.add_sub_cancel, show index + 1 + left = index + (left + 1) by omega] at hrest
        exact hrest
      · rw [if_pos herror]
        refine Or.inr (Or.inr ⟨index, _, rfl, by omega, hlack, hsound.tree, fun agno => ?_⟩)
        rw [show holds root = _ from hsame]
        exact hheld agno

/-- **A new mount**: `libxfs_initialize_perag` stops at a group for whose record there is no
memory, or it returns: with every group and no other or, where the memory for an insert did not
suffice, with groups 0 and 1 as far as they were put in: these are not taken out again. The
counter `first_initialised` is 0 both for none yet and for group 0, so it is set again at group 1,
and the loop that takes groups out again stops in front of that. -/
theorem libxfs_initialize_perag_fresh (zalloc : ℕ → Bool) (allocs : ℕ → ℕ) {agcount : ℕ}
    (hcount : agcount ≤ 2 ^ 32) :
    (libxfs_initialize_perag zalloc allocs ⟨INIT_RADIX_TREE, []⟩ agcount = none ∧
      ∃ stop < agcount, zalloc stop = false) ∨
    ∃ error mp', libxfs_initialize_perag zalloc allocs ⟨INIT_RADIX_TREE, []⟩ agcount
        = some (error, mp') ∧
      ((error = 0 ∧ ∀ agno, (∃ pag, radix_tree_lookup mp'.m_perag_tree agno = some (some pag)) ↔
          agno < agcount) ∨
        (error = -EEXIST ∧ ∃ stop < agcount, allocs stop < 22 ∧
          ∀ agno, (∃ pag, radix_tree_lookup mp'.m_perag_tree agno = some (some pag)) ↔
            agno < stop ∧ agno < 2)) := by
  have hlookup : ∀ {root : radix_tree_root ℕ}, RadixTree.sound root → ∀ agno,
      (∃ pag, radix_tree_lookup root agno = some (some pag)) ↔ (holds root agno).isSome := by
    intro root hroot agno
    rw [radix_tree_lookup_eq hroot, Option.isSome_iff_exists]
    exact exists_congr fun pag => ⟨Option.some.inj, congrArg some⟩
  have hempty : ∀ agno, (holds (INIT_RADIX_TREE : radix_tree_root ℕ) agno).isSome ↔ agno < 0 := by
    intro agno
    rw [holds_bare rfl]
    exact iff_of_false Bool.false_ne_true (Nat.not_lt_zero agno)
  rw [libxfs_initialize_perag]
  have hcases := walk_groups_fresh zalloc allocs agcount 0 ⟨INIT_RADIX_TREE, []⟩ (sound_init [])
    (by omega) hempty fun _ => Nat.zero_le 10
  rw [Nat.zero_add, show min (0 - 1) 1 = 0 from rfl] at hcases
  rcases hcases with ⟨hwalk, hstop⟩ | ⟨mp', hwalk, hsound, hheld⟩ |
    ⟨stop, mp₁, hwalk, hstop, hlack, hsound, hheld⟩
  · rw [hwalk]
    exact Or.inl ⟨rfl, hstop⟩
  · rw [hwalk]
    refine Or.inr ⟨0, mp', rfl, Or.inl ⟨rfl, fun agno => ?_⟩⟩
    rw [hlookup hsound.tree, hheld agno]
  · obtain ⟨mp', hunwind, hsound', hleft⟩ := out_unwind_spec (min stop 1) stop mp₁ hsound
    rw [hwalk]
    dsimp only
    rw [hunwind]
    refine Or.inr ⟨-EEXIST, mp', rfl, Or.inr ⟨rfl, stop, hstop, hlack, fun agno => ?_⟩⟩
    rw [hlookup hsound', hleft agno, hheld agno]
    omega

/-- There is memory for the first level only, and group 64 does not fit there: two groups stay. -/
theorem third_group_fails :
    ∃ error mp', libxfs_initialize_perag (fun _ => true) (fun agno => if agno < 3 then 22 else 0)
        ⟨INIT_RADIX_TREE, []⟩ 80 = some (error, mp') ∧
      ((error = 0 ∧ ∀ agno, (∃ pag, radix_tree_lookup mp'.m_perag_tree agno = some (some pag)) ↔
          agno < 80) ∨
        (error = -EEXIST ∧ ∃ stop < 80, (if stop < 3 then 22 else 0) < 22 ∧
          ∀ agno, (∃ pag, radix_tree_lookup mp'.m_perag_tree agno = some (some pag)) ↔
            agno < stop ∧ agno < 2)) :=
  (libxfs_initialize_perag_fresh (fun _ => true) (fun agno => if agno < 3 then 22 else 0)
    (by decide)).resolve_left fun ⟨_, _, _, hrecord⟩ => Bool.noConfusion hrecord

end SysbakAdmin.Perag

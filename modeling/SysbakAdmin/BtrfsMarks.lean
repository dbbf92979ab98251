/-
What the walk of `gdbus-btrfs.c` over the trees marks, and what of that hangs on a variable
that is not set.

On an internal node `dump_start_leaf` hands `size` to `check_extent_bitmap` with whatever
the stack holds. Where that is not a whole number of sectors the call returns at once,
`size` stays as it is, and neither the node nor its children are marked from there. What is
marked whatever `size` holds are the ranges of the leaves and of what they speak of; the
claim to keep every tree block is good just where these cover the internal nodes as well.

`sure_mark` holds of the calls that do not hang on `size`. They are a lower bound of every run
(`sure_mark_mem`), and with 1 in every `size` a run makes no others (`bitmap_calls_one`): 1
is not a whole number of sectors, so `check_extent_bitmap` returns before it marks. Both
are inductions on how deep the walk may go, with the tree's own shape for the cases. What
has to be kept is kept by all runs if and only if it is kept by that one.
-/
import SysbakAdmin.Btrfs

set_option autoImplicit false

namespace SysbakAdmin.Btrfs

open CInt CMemory Bitmap Io Share

/-! ## The bits of a call -/

/-- The blocks a call marks, of those the file system has. It is the range in blocks that
`set_bitmap` computes from the range in bytes, cut at the end of the device. -/
def covers (dev_size block_size : ℕ) (m : Mark) (b : ℕ) : Prop :=
  m.pos ≤ dev_size ∧ m.pos / block_size ≤ b ∧ b * block_size < u64 (m.pos + m.length)

/-- The end of the loop in `set_bitmap` is rounded up. -/
theorem lt_block_end_iff {n block_size b : ℕ} (hbs : 0 < block_size) :
    b < (if n % block_size > 0 then n / block_size + 1 else n / block_size)
      ↔ b * block_size < n := by
  have hdiv := Nat.div_add_mod n block_size
  split_ifs with hmod
  · rw [Nat.lt_succ_iff, Nat.le_div_iff_mul_le hbs]
    constructor
    · intro hle
      rcases Nat.lt_or_eq_of_le hle with hlt | heq
      · exact hlt
      · rw [← heq, Nat.mul_mod_left] at hmod
        omega
    · exact le_of_lt
  · rw [Nat.lt_div_iff_mul_lt' (Nat.dvd_of_mod_eq_zero (by omega)), Nat.mul_comm]

/-- **`set_bitmap` adds what its call covers.** A call clears nothing, so the order of the calls
does not matter, and a bit is set if one of them covers it. -/
theorem bit_set_bitmap {dev_size block_size total : ℕ} {bm : bitmap} (hbs : 0 < block_size)
    (hlen : total ≤ 64 * bm.length) (m : Mark) {b : ℕ} (hb : b < total) :
    bit (set_bitmap dev_size block_size total bm m) b = true
      ↔ covers dev_size block_size m b ∨ bit bm b = true := by
  rw [set_bitmap, covers]
  by_cases hpos : m.pos > dev_size
  · rw [if_pos hpos]
    constructor
    · exact Or.inr
    · rintro (⟨h, -⟩ | h)
      · omega
      · exact h
  · rw [if_neg hpos]
    dsimp only
    rw [bit_for_blocks_set _ _ _ _ hlen, Bool.or_eq_true, decide_eq_true_iff]
    apply or_congr_left
    rw [← lt_block_end_iff hbs]
    constructor
    · rintro ⟨h1, h2, -⟩
      exact ⟨by omega, h1, by omega⟩
    · rintro ⟨-, h1, h2⟩
      exact ⟨h1, by omega, hb⟩

/-- The calls one after the other. -/
theorem bit_foldl_set_bitmap {dev_size block_size total : ℕ} (hbs : 0 < block_size) {b : ℕ}
    (hb : b < total) :
    ∀ (calls : List Mark) (bm : bitmap), total ≤ 64 * bm.length →
      (bit (calls.foldl (set_bitmap dev_size block_size total) bm) b = true
        ↔ (∃ m ∈ calls, covers dev_size block_size m b) ∨ bit bm b = true) := by
  intro calls
  induction calls with
  | nil => intro bm _; simp
  | cons m calls ih =>
      intro bm hlen
      rw [List.foldl_cons, ih _ (by rwa [set_bitmap_length]), bit_set_bitmap hbs hlen m hb,
        List.exists_mem_cons_iff, ← or_assoc, or_comm (a := covers dev_size block_size m b)]

/-! ## What a walk contains -/

theorem for_each_ok {α : Type} {body : α → Run (List Mark)} :
    ∀ {l : List α} {calls : List Mark}, for_each body l = .ok calls →
      ∀ a ∈ l, ∃ some_calls, body a = .ok some_calls ∧ some_calls ⊆ calls := by
  intro l
  induction l with
  | nil => intro calls _ a ha; cases ha
  | cons x l ih =>
      intro calls h a ha
      rw [for_each] at h
      obtain ⟨first, hfirst, h⟩ := bind_eq_ok.mp h
      obtain ⟨more, hmore, h⟩ := bind_eq_ok.mp h
      cases h
      rcases List.mem_cons.mp ha with rfl | ha
      · exact ⟨first, hfirst, List.subset_append_left _ _⟩
      · obtain ⟨some_calls, hbody, hsub⟩ := ih hmore a ha
        exact ⟨some_calls, hbody, List.subset_append_of_subset_right _ hsub⟩

/-- Every call is one of some pass. -/
theorem mem_for_each {α : Type} {body : α → Run (List Mark)} {m : Mark} :
    ∀ {l : List α} {calls : List Mark}, for_each body l = .ok calls → m ∈ calls →
      ∃ a ∈ l, ∃ some_calls, body a = .ok some_calls ∧ m ∈ some_calls := by
  intro l
  induction l with
  | nil =>
      intro calls h hm
      cases h
      cases hm
  | cons x l ih =>
      intro calls h hm
      rw [for_each] at h
      obtain ⟨first, hfirst, h⟩ := bind_eq_ok.mp h
      obtain ⟨more, hmore, h⟩ := bind_eq_ok.mp h
      cases h
      rcases List.mem_append.mp hm with hm | hm
      · exact ⟨x, List.mem_cons_self, first, hfirst, hm⟩
      · obtain ⟨a, ha, some_calls, hbody, hm⟩ := ih hmore hm
        exact ⟨a, List.mem_cons_of_mem _ ha, some_calls, hbody, hm⟩

/-- Calls with a property, when each pass of the loop returns such calls. -/
theorem for_each_of_forall {α : Type} {body : α → Run (List Mark)} {P : Mark → Prop} :
    ∀ {l : List α}, (∀ a ∈ l, ∃ calls, body a = .ok calls ∧ ∀ m ∈ calls, P m) →
      ∃ calls, for_each body l = .ok calls ∧ ∀ m ∈ calls, P m := by
  intro l
  induction l with
  | nil =>
      intro _
      exact ⟨[], rfl, nofun⟩
  | cons x l ih =>
      intro h
      obtain ⟨first, hfirst, hP⟩ := h x List.mem_cons_self
      obtain ⟨more, hmore, hP'⟩ := ih fun a ha => h a (List.mem_cons_of_mem _ ha)
      refine ⟨first ++ more, by rw [for_each, hfirst, ok_bind, hmore, ok_bind], ?_⟩
      intro m hm
      rcases List.mem_append.mp hm with hm | hm
      · exact hP m hm
      · exact hP' m hm

section Marks

variable {d : filesystem}

/-- The loop over the pointers contains the walk of every child. -/
theorem dump_ptrs_ok {bytenr : ℕ} {dump_child : ℕ → extent_buffer → Run (List Mark)} :
    ∀ {ptrs : List btrfs_key_ptr} {i size : ℕ} {calls : List Mark},
      dump_ptrs d bytenr dump_child ptrs i size = .ok calls → ∀ p ∈ ptrs, ∀ next,
        d.read_tree_block p.blockptr p.generation = some next →
        ∃ j under, dump_child j next = .ok under ∧ under ⊆ calls := by
  intro ptrs
  induction ptrs with
  | nil => intro i size calls _ p hp; cases hp
  | cons q ptrs ih =>
      intro i size calls h p hp next hnext
      rw [dump_ptrs] at h
      obtain ⟨⟨own, size₁⟩, -, h⟩ := bind_eq_ok.mp h
      dsimp only at h
      cases hread : d.read_tree_block q.blockptr q.generation with
      | none => simp only [hread, reduceCtorEq] at h
      | some eb =>
          simp only [hread] at h
          obtain ⟨⟨child, size₂⟩, -, h⟩ := bind_eq_ok.mp h
          obtain ⟨under, hunder, h⟩ := bind_eq_ok.mp h
          obtain ⟨rest, hrest, h⟩ := bind_eq_ok.mp h
          cases h
          rcases List.mem_cons.mp hp with rfl | hp
          · rw [hread] at hnext
            cases hnext
            refine ⟨i, under, hunder, ?_⟩
            intro m hm
            simp only [List.mem_append, hm, or_true, true_or]
          · obtain ⟨j, calls', hchild, hsub⟩ := ih hrest p hp next hnext
            exact ⟨j, calls', hchild, List.subset_append_of_subset_right _ hsub⟩

/-- **A walk contains the calls of every leaf below.** By induction on how deep it may go. A walk
that comes through has been through the walks of all children, and its list is theirs joined. -/
theorem dump_start_leaf_ok {stale : List ℕ → ℕ} :
    ∀ {depth : ℕ} {path : List ℕ} {eb : extent_buffer} {calls : List Mark},
      dump_start_leaf d stale depth path eb = .ok calls → ∀ bytenr items,
        below d.read_tree_block eb (.leaf bytenr items) →
        ∃ some_calls, dump_leaf d bytenr items = .ok some_calls ∧ some_calls ⊆ calls := by
  intro depth
  induction depth with
  | zero => intro path eb calls h; cases h
  | succ depth ih =>
      intro path eb calls h bytenr items hbelow
      cases hbelow with
      | self => exact ⟨calls, h, fun m hm => hm⟩
      | @child _ ptrs p next _ hp hnext hbelow =>
          rw [dump_start_leaf] at h
          obtain ⟨j, under, hunder, hsub⟩ := dump_ptrs_ok h p hp next hnext
          obtain ⟨some_calls, hleaf, hsub'⟩ := ih hunder bytenr items hbelow
          exact ⟨some_calls, hleaf, List.Subset.trans hsub' hsub⟩

/-! ## The calls that do not hang on `size`

They are a predicate on the file system and not a list from a run, since the runs differ in all
others. -/

/-- The calls of a leaf: its own run, the extents of its extent items, and the data of its
file extents. -/
inductive leaf_mark (d : filesystem) (bytenr : ℕ) (items : List btrfs_item) : Mark → Prop
  | own {physical left : ℕ} : d.sectorsize ∣ d.nodesize →
      d.btrfs_map_block bytenr = some (physical, left) → leaf_mark d bytenr items ⟨physical, left⟩
  | extent {item : btrfs_item} {physical left : ℕ} : item ∈ items →
      item.key.type = BTRFS_EXTENT_ITEM_KEY → d.sectorsize ∣ item.key.offset →
      d.btrfs_map_block item.key.objectid = some (physical, left) →
      leaf_mark d bytenr items ⟨physical, item.key.offset⟩
  | data {item : btrfs_item} : item ∈ items → item.key.type = BTRFS_EXTENT_DATA_KEY →
      item.extent_type ≠ BTRFS_FILE_EXTENT_INLINE →
      leaf_mark d bytenr items ⟨item.disk_bytenr, item.disk_num_bytes⟩

theorem check_extent_bitmap_ok {bytenr num_bytes type n : ℕ} {calls : List Mark}
    (h : check_extent_bitmap d bytenr num_bytes type = .ok (calls, n)) {m : Mark} :
    m ∈ calls ↔ d.sectorsize ∣ num_bytes ∧ ∃ physical left,
      d.btrfs_map_block bytenr = some (physical, left) ∧
        m = ⟨physical, if type = 1 then num_bytes else left⟩ := by
  rw [check_extent_bitmap] at h
  by_cases hdvd : num_bytes % d.sectorsize = 0
  · rw [if_neg (not_not.mpr hdvd)] at h
    cases hmap : d.btrfs_map_block bytenr with
    | none => simp only [hmap, reduceCtorEq] at h
    | some at_disk =>
        obtain ⟨physical, left⟩ := at_disk
        simp only [hmap, Except.ok.injEq, Prod.mk.injEq] at h
        rw [← h.1, List.mem_singleton]
        constructor
        · intro hm
          exact ⟨Nat.dvd_of_mod_eq_zero hdvd, physical, left, rfl, hm⟩
        · rintro ⟨-, p, l, hpl, hm⟩
          cases hpl
          exact hm
  · rw [if_pos hdvd] at h
    cases h
    constructor
    · intro hm
      cases hm
    · rintro ⟨hd, -⟩
      exact absurd (Nat.mod_eq_zero_of_dvd hd) hdvd

/-- The calls of an item. -/
theorem mem_dump_item {bytenr : ℕ} {items : List btrfs_item} {item : btrfs_item}
    {calls : List Mark} (hitem : item ∈ items) (h : dump_item d item = .ok calls) {m : Mark}
    (hm : m ∈ calls) : leaf_mark d bytenr items m := by
  have hdata : ∀ m, m ∈ (if item.key.type = BTRFS_EXTENT_DATA_KEY then dump_file_extent_item item
      else []) → leaf_mark d bytenr items m := by
    intro m hm
    rw [dump_file_extent_item] at hm
    split_ifs at hm with htype hinline
    · cases hm
    · rw [List.mem_singleton.mp hm]
      exact leaf_mark.data hitem htype hinline
    · cases hm
  rw [dump_item] at h
  dsimp only at h
  by_cases htype : item.key.type = BTRFS_EXTENT_ITEM_KEY
  · rw [if_pos htype] at h
    obtain ⟨⟨extent, n⟩, hextent, h⟩ := bind_eq_ok.mp h
    cases h
    rcases List.mem_append.mp hm with hm | hm
    · exact hdata m hm
    · obtain ⟨hdvd, physical, left, hmap, rfl⟩ := (check_extent_bitmap_ok hextent).mp hm
      exact leaf_mark.extent hitem htype hdvd hmap
  · rw [if_neg htype] at h
    cases h
    exact hdata m hm

/-- Each kind of item makes its call. -/
theorem dump_item_extent {item : btrfs_item} {calls : List Mark} {physical left : ℕ}
    (h : dump_item d item = .ok calls) (htype : item.key.type = BTRFS_EXTENT_ITEM_KEY)
    (hdvd : d.sectorsize ∣ item.key.offset)
    (hmap : d.btrfs_map_block item.key.objectid = some (physical, left)) :
    ⟨physical, item.key.offset⟩ ∈ calls := by
  rw [dump_item] at h
  dsimp only at h
  rw [if_pos htype] at h
  obtain ⟨⟨extent, n⟩, hextent, h⟩ := bind_eq_ok.mp h
  cases h
  exact List.mem_append_right _ ((check_extent_bitmap_ok hextent).mpr
    ⟨hdvd, physical, left, hmap, rfl⟩)

theorem dump_item_data {item : btrfs_item} {calls : List Mark} (h : dump_item d item = .ok calls)
    (htype : item.key.type = BTRFS_EXTENT_DATA_KEY)
    (hinline : item.extent_type ≠ BTRFS_FILE_EXTENT_INLINE) :
    ⟨item.disk_bytenr, item.disk_num_bytes⟩ ∈ calls := by
  have hne : ¬ item.key.type = BTRFS_EXTENT_ITEM_KEY := by
    rw [htype]
    decide
  rw [dump_item] at h
  dsimp only at h
  rw [if_neg hne, if_pos htype, dump_file_extent_item, if_neg hinline] at h
  cases h
  exact List.mem_singleton_self _

/-- **The calls of a leaf**, when it comes through. Its own range comes first and then those of
the items, type by type; what an item speaks of does not depend on the bitmap. -/
theorem mem_dump_leaf {bytenr : ℕ} {items : List btrfs_item} {calls : List Mark}
    (h : dump_leaf d bytenr items = .ok calls) (m : Mark) :
    m ∈ calls ↔ leaf_mark d bytenr items m := by
  rw [dump_leaf] at h
  obtain ⟨⟨own, n⟩, hown, h⟩ := bind_eq_ok.mp h
  obtain ⟨rest, hrest, h⟩ := bind_eq_ok.mp h
  cases h
  rw [List.mem_append, check_extent_bitmap_ok hown]
  constructor
  · rintro (⟨hdvd, physical, left, hmap, rfl⟩ | hm)
    · exact leaf_mark.own hdvd hmap
    · obtain ⟨item, hitem, some_calls, hbody, hm⟩ := mem_for_each hrest hm
      exact mem_dump_item hitem hbody hm
  · intro hm
    cases hm with
    | @own physical left hdvd hmap => exact Or.inl ⟨hdvd, physical, left, hmap, rfl⟩
    | @extent item physical left hitem htype hdvd hmap =>
        obtain ⟨some_calls, hbody, hsub⟩ := for_each_ok hrest item hitem
        exact Or.inr (hsub (dump_item_extent hbody htype hdvd hmap))
    | @data item hitem htype hinline =>
        obtain ⟨some_calls, hbody, hsub⟩ := for_each_ok hrest item hitem
        exact Or.inr (hsub (dump_item_data hbody htype hinline))

/-- The calls `read_bitmap_info` makes whatever `size` holds. -/
inductive sure_mark (d : filesystem) : Mark → Prop
  | front : sure_mark d ⟨0, BTRFS_SUPER_INFO_OFFSET⟩
  | super : sure_mark d ⟨BTRFS_SUPER_INFO_OFFSET, d.nodesize⟩
  | roots {calls : List Mark} {m : Mark} : root_calls d = .ok calls → m ∈ calls → sure_mark d m
  | leaf {bytenr : ℕ} {items : List btrfs_item} {m : Mark} : reachable d (.leaf bytenr items) →
      leaf_mark d bytenr items m → sure_mark d m

/-- What `fs_open` leaves in `info`. -/
theorem fs_open_some {info : btrfs_fs_info} (h : fs_open d = .ok (some info)) :
    info = ⟨d.read_tree_block d.chunk_root.blockptr d.chunk_root.generation,
      d.read_tree_block d.tree_root.blockptr d.tree_root.generation,
      d.read_tree_block d.dev_root.blockptr d.dev_root.generation⟩ := by
  rw [fs_open, open_ctree_fs_info] at h
  dsimp only at h
  split_ifs at h with hall
  dsimp only at h
  rw [if_pos ⟨hall.2.2.1, hall.2.2.2, hall.2.1⟩] at h
  cases h
  rfl

/-- A walk that comes through makes the calls of the leaves below its root. -/
theorem leaf_mark_mem {stale : List ℕ → ℕ} {depth : ℕ} {path : List ℕ} {root : extent_buffer}
    {calls : List Mark} (h : dump_start_leaf d stale depth path root = .ok calls) {bytenr : ℕ}
    {items : List btrfs_item} (hbelow : below d.read_tree_block root (.leaf bytenr items))
    {m : Mark} (hm : leaf_mark d bytenr items m) : m ∈ calls := by
  obtain ⟨some_calls, hleaf, hsub⟩ := dump_start_leaf_ok h bytenr items hbelow
  exact hsub ((mem_dump_leaf hleaf m).mpr hm)

/-- **They are made**, by every run that comes through. Each of them is made by a leaf, by a root
or in front of the walk, and none of these looks at `size`. -/
theorem sure_mark_mem {stale : List ℕ → ℕ} {depth : ℕ} {info : btrfs_fs_info} {calls : List Mark}
    (hopen : fs_open d = .ok (some info))
    (hread : ∀ root, d.read_tree_block d.tree_root.blockptr d.tree_root.generation = some root →
      all_read d.read_tree_block root)
    (h : bitmap_calls d stale depth info = .ok calls) {m : Mark} (hm : sure_mark d m) :
    m ∈ calls := by
  obtain rfl := fs_open_some hopen
  rw [bitmap_calls] at h
  obtain ⟨roots, hroots, h⟩ := bind_eq_ok.mp h
  obtain ⟨tree, htree, h⟩ := bind_eq_ok.mp h
  obtain ⟨chunk, hchunk, h⟩ := bind_eq_ok.mp h
  obtain ⟨subvolumes, hsub, h⟩ := bind_eq_ok.mp h
  cases h
  simp only [List.mem_append]
  -- one kind of mark for each part of the list of calls
  cases hm with
  | front => simp
  | super => simp
  | roots hcalls hm =>
      rw [hroots] at hcalls
      cases hcalls
      simp only [hm, or_true, true_or]
  | @leaf bytenr items _ hreach hleaf =>
      cases hreach with
      | @tree root _ hroot hbelow =>
          obtain ⟨some_calls, hdump, hincl⟩ := for_each_ok htree root (Option.mem_toList.mpr hroot)
          simp only [hincl (leaf_mark_mem hdump hbelow hleaf), or_true, true_or]
      | @chunk root _ hroot hbelow =>
          obtain ⟨some_calls, hdump, hincl⟩ := for_each_ok hchunk root (Option.mem_toList.mpr hroot)
          simp only [hincl (leaf_mark_mem hdump hbelow hleaf), or_true, true_or]
      | @root_item tree root _ item hroot hitem htype hsubvolume hbelow =>
          -- the walk found the item, and it goes to the tree of each one that it finds
          have hfound := (d.found_root_items tree hroot (hread tree hroot) item htype).mpr hitem
          obtain ⟨k, hk⟩ := List.mem_iff_getElem?.mp hfound
          obtain ⟨some_calls, hdump, hincl⟩ := for_each_ok hsub (item, k)
            (List.mk_mem_zipIdx_iff_getElem?.mpr hk)
          simp only [dump_root, if_pos htype, hsubvolume] at hdump
          simp only [hincl (leaf_mark_mem hdump hbelow hleaf), or_true]

/-! ## A walk that marks nothing else

With 1 in `size` the run is compared with the predicate the other way round: every call it makes
is one of these. -/

/-- A tree of blocks that can all be read, and whose addresses are mapped. -/
def is_tree (d : filesystem) : ℕ → extent_buffer → Prop
  | 0, _ => False
  | _ + 1, .leaf bytenr items => (d.btrfs_map_block bytenr).isSome ∧
      ∀ item ∈ items, item.key.type = BTRFS_EXTENT_ITEM_KEY →
        (d.btrfs_map_block item.key.objectid).isSome
  | depth + 1, .node bytenr ptrs => (d.btrfs_map_block bytenr).isSome ∧
      ∀ p ∈ ptrs, ∃ next, d.read_tree_block p.blockptr p.generation = some next ∧
        is_tree d depth next

/-- Below a tree there are trees. -/
theorem is_tree.below {root eb : extent_buffer} (hbelow : below d.read_tree_block root eb) :
    ∀ {depth : ℕ}, is_tree d depth root → ∃ depth', is_tree d depth' eb := by
  induction hbelow with
  | self eb => intro depth h; exact ⟨depth, h⟩
  | @child bytenr ptrs p next eb hp hnext _ ih =>
      intro depth h
      cases depth with
      | zero => exact h.elim
      | succ depth =>
          obtain ⟨next', hnext', htree⟩ := h.2 p hp
          rw [hnext] at hnext'
          cases hnext'
          exact ih htree

theorem is_tree.all_read {root : extent_buffer} {depth : ℕ} (h : is_tree d depth root) :
    all_read d.read_tree_block root := by
  intro bytenr ptrs hbelow p hp
  obtain ⟨depth', h'⟩ := is_tree.below hbelow h
  cases depth' with
  | zero => exact h'.elim
  | succ depth' =>
      obtain ⟨next, hnext, -⟩ := h'.2 p hp
      exact ⟨next, hnext⟩

/-- What a call on a whole number of sectors, at a mapped address, comes to. -/
theorem check_extent_bitmap_returns {bytenr : ℕ} (num_bytes type : ℕ)
    (hmap : (d.btrfs_map_block bytenr).isSome) :
    ∃ calls n, check_extent_bitmap d bytenr num_bytes type = .ok (calls, n) := by
  rw [check_extent_bitmap]
  by_cases hdvd : num_bytes % d.sectorsize ≠ 0
  · rw [if_pos hdvd]
    exact ⟨_, _, rfl⟩
  · obtain ⟨⟨physical, left⟩, h⟩ := Option.isSome_iff_exists.mp hmap
    rw [if_neg hdvd, h]
    exact ⟨_, _, rfl⟩

/-- With a length that is no whole number of sectors nothing happens. -/
theorem check_extent_bitmap_one (bytenr type : ℕ) :
    check_extent_bitmap d bytenr 1 type = .ok ([], 1) := by
  have hge := d.sectorsize_ge
  rw [check_extent_bitmap, if_pos]
  rw [Nat.mod_eq_of_lt (by omega)]
  decide

theorem dump_item_returns {item : btrfs_item} (h : item.key.type = BTRFS_EXTENT_ITEM_KEY →
    (d.btrfs_map_block item.key.objectid).isSome) : ∃ calls, dump_item d item = .ok calls := by
  rw [dump_item]
  by_cases htype : item.key.type = BTRFS_EXTENT_ITEM_KEY
  · obtain ⟨calls, n, hcheck⟩ := check_extent_bitmap_returns item.key.offset 1 (h htype)
    rw [if_pos htype, hcheck, ok_bind]
    exact ⟨_, rfl⟩
  · rw [if_neg htype]
    exact ⟨_, rfl⟩

theorem dump_leaf_returns {bytenr : ℕ} {items : List btrfs_item} {depth : ℕ}
    (h : is_tree d (depth + 1) (.leaf bytenr items)) :
    ∃ calls, dump_leaf d bytenr items = .ok calls := by
  obtain ⟨own, n, hown⟩ := check_extent_bitmap_returns d.nodesize 0 h.1
  obtain ⟨rest, hrest, -⟩ := @for_each_of_forall _ (dump_item d) (fun _ => True) items (by
    intro item hitem
    obtain ⟨calls, hcalls⟩ := dump_item_returns (h.2 item hitem)
    exact ⟨calls, hcalls, fun _ _ => trivial⟩)
  rw [dump_leaf, hown, ok_bind]
  simp only [hrest, ok_bind]
  exact ⟨_, rfl⟩

/-- With 1 in `size`, the loop over the pointers makes the calls of the children alone. That 1 is
no whole number of sectors is all that is used of it. -/
theorem dump_ptrs_one {P : Mark → Prop} {bytenr : ℕ}
    {dump_child : ℕ → extent_buffer → Run (List Mark)} :
    ∀ {ptrs : List btrfs_key_ptr} (i : ℕ),
      (∀ p ∈ ptrs, ∃ next, d.read_tree_block p.blockptr p.generation = some next ∧
        ∀ j, ∃ calls, dump_child j next = .ok calls ∧ ∀ m ∈ calls, P m) →
      ∃ calls, dump_ptrs d bytenr dump_child ptrs i 1 = .ok calls ∧ ∀ m ∈ calls, P m := by
  intro ptrs
  induction ptrs with
  | nil =>
      intro i _
      exact ⟨[], rfl, nofun⟩
  | cons p ptrs ih =>
      intro i h
      obtain ⟨next, hnext, hchild⟩ := h p List.mem_cons_self
      obtain ⟨under, hunder, hP⟩ := hchild i
      obtain ⟨rest, hrest, hP'⟩ := ih (i + 1) fun q hq => h q (List.mem_cons_of_mem _ hq)
      refine ⟨under ++ rest, ?_, ?_⟩
      · simp only [dump_ptrs, check_extent_bitmap_one, ok_bind, hnext, hunder, hrest,
          List.nil_append]
      · intro m hm
        rcases List.mem_append.mp hm with hm | hm
        · exact hP m hm
        · exact hP' m hm

/-- **With 1 in `size`, a walk makes the calls of the leaves alone.** By induction on the depth of
the tree. On an internal node the call for it returns without a mark and leaves the 1 where it is,
so that the same happens below. -/
theorem dump_start_leaf_one :
    ∀ {depth : ℕ} (path : List ℕ) {eb : extent_buffer}, is_tree d depth eb →
      (∀ eb', below d.read_tree_block eb eb' → reachable d eb') →
      ∃ calls, dump_start_leaf d (fun _ => 1) depth path eb = .ok calls ∧
        ∀ m ∈ calls, sure_mark d m := by
  intro depth
  induction depth with
  | zero => intro path eb h; exact h.elim
  | succ depth ih =>
      intro path eb h hreach
      cases eb with
      | leaf bytenr items =>
          obtain ⟨calls, hcalls⟩ := dump_leaf_returns h
          refine ⟨calls, hcalls, fun m hm => ?_⟩
          exact sure_mark.leaf (hreach _ (below.self _)) ((mem_dump_leaf hcalls m).mp hm)
      | node bytenr ptrs =>
          rw [dump_start_leaf]
          apply dump_ptrs_one
          intro p hp
          obtain ⟨next, hnext, htree⟩ := h.2 p hp
          refine ⟨next, hnext, fun j => ih (path ++ [j]) htree fun eb' hbelow => ?_⟩
          exact hreach eb' (below.child hp hnext hbelow)

/-! ## What is kept -/

/-- A file system that opens, with every tree block readable and every address mapped. So the walk
comes through, and what it marks is what the question is about. -/
structure readable (d : filesystem) (depth : ℕ) : Prop where
  openable : d.openable = true
  chunk : ∃ root, d.read_tree_block d.chunk_root.blockptr d.chunk_root.generation = some root ∧
    is_tree d depth root
  tree : ∃ root, d.read_tree_block d.tree_root.blockptr d.tree_root.generation = some root ∧
    is_tree d depth root
  dev : (d.read_tree_block d.dev_root.blockptr d.dev_root.generation).isSome
  root_items : ∀ tree item,
    d.read_tree_block d.tree_root.blockptr d.tree_root.generation = some tree →
    has_item d.read_tree_block tree item → item.key.type = BTRFS_ROOT_ITEM_KEY →
    ∃ root, d.read_tree_block item.root_bytenr 0 = some root ∧ is_tree d depth root
  extent_root : (d.btrfs_map_block d.extent_root_bytenr).isSome
  csum_root : (d.btrfs_map_block d.csum_root_bytenr).isSome
  dev_root : (d.btrfs_map_block d.dev_root.blockptr).isSome
  fs_root : (d.btrfs_map_block d.fs_root_bytenr).isSome

/-- The four calls for the roots in `info` come through. -/
theorem readable.root_calls {depth : ℕ} (h : readable d depth) :
    ∃ calls, root_calls d = .ok calls := by
  obtain ⟨c₁, n₁, h₁⟩ := check_extent_bitmap_returns d.nodesize 0 h.extent_root
  obtain ⟨c₂, n₂, h₂⟩ := check_extent_bitmap_returns n₁ 0 h.csum_root
  obtain ⟨c₃, n₃, h₃⟩ := check_extent_bitmap_returns n₂ 0 h.dev_root
  obtain ⟨c₄, n₄, h₄⟩ := check_extent_bitmap_returns n₃ 0 h.fs_root
  exact ⟨c₁ ++ c₂ ++ c₃ ++ c₄, by simp only [Btrfs.root_calls, h₁, h₂, h₃, h₄, ok_bind]⟩

theorem readable.fs_open {depth : ℕ} (h : readable d depth) :
    ∃ info, fs_open d = .ok (some info) := by
  obtain ⟨chunk, hchunk, -⟩ := h.chunk
  obtain ⟨tree, htree, -⟩ := h.tree
  obtain ⟨dev, hdev⟩ := Option.isSome_iff_exists.mp h.dev
  refine ⟨⟨some chunk, some tree, some dev⟩, ?_⟩
  simp [Btrfs.fs_open, open_ctree_fs_info, h.openable, hchunk, htree, hdev]

/-- **A run that marks nothing but what is sure**: with 1 in every `size`. It is a run of the code
like any other, since what the variable holds is whatever was on the stack. -/
theorem bitmap_calls_one {depth : ℕ} (h : readable d depth) {info : btrfs_fs_info}
    (hopen : fs_open d = .ok (some info)) :
    ∃ calls, bitmap_calls d (fun _ => 1) depth info = .ok calls ∧ ∀ m ∈ calls, sure_mark d m := by
  obtain rfl := fs_open_some hopen
  obtain ⟨roots, hroots⟩ := h.root_calls
  obtain ⟨tree_root, htree_root, htall⟩ := h.tree
  obtain ⟨chunk_root, hchunk_root, hchunk_tall⟩ := h.chunk
  obtain ⟨tree, htree, hsure_tree⟩ := dump_start_leaf_one [0] htall
    fun _ hbelow => reachable.tree htree_root hbelow
  obtain ⟨chunk, hchunk, hsure_chunk⟩ := dump_start_leaf_one [1] hchunk_tall
    fun _ hbelow => reachable.chunk hchunk_root hbelow
  obtain ⟨subvolumes, hsub, hsure_sub⟩ := @for_each_of_forall _ (dump_root d (fun _ => 1) depth)
    (sure_mark d) d.found_items.zipIdx (by
      rintro ⟨item, k⟩ hk
      rw [List.mk_mem_zipIdx_iff_getElem?] at hk
      by_cases htype : item.key.type = BTRFS_ROOT_ITEM_KEY
      · have hitem := (d.found_root_items tree_root htree_root htall.all_read item htype).mp
          (List.mem_of_getElem? hk)
        obtain ⟨root, hroot, hroot_tall⟩ := h.root_items tree_root item htree_root hitem htype
        simp only [dump_root, if_pos htype, hroot]
        exact dump_start_leaf_one [2, k] hroot_tall
          fun _ hbelow => reachable.root_item htree_root hitem htype hroot hbelow
      · exact ⟨[], by rw [dump_root, if_neg htype], nofun⟩)
  -- the calls in the order of the source: front, superblock, roots, then the three walks
  refine ⟨[⟨0, BTRFS_SUPER_INFO_OFFSET⟩, ⟨BTRFS_SUPER_INFO_OFFSET, d.nodesize⟩] ++ roots ++ tree
    ++ chunk ++ subvolumes, ?_, ?_⟩
  · simp only [bitmap_calls, hroots, htree_root, hchunk_root, Option.toList_some, for_each, htree,
      hchunk, hsub, ok_bind, List.append_nil]
  · intro m hm
    simp only [List.mem_append, List.mem_cons, List.not_mem_nil, or_false] at hm
    rcases hm with ((((rfl | rfl) | hm) | hm) | hm) | hm
    · exact sure_mark.front
    · exact sure_mark.super
    · exact sure_mark.roots hroots hm
    · exact hsure_tree m hm
    · exact hsure_chunk m hm
    · exact hsure_sub m hm

/-- The blocks that have to be kept: those that share a byte with a tree block that can be
reached, at its place on the device, or with the extent of an extent item. -/
inductive needed (d : filesystem) (b : ℕ) : Prop
  | tree_block {eb : extent_buffer} {physical left byte : ℕ} : reachable d eb →
      d.btrfs_map_block eb.bytenr = some (physical, left) → physical ≤ byte →
      byte < physical + d.nodesize → byte / d.nodesize = b → needed d b
  | extent {bytenr : ℕ} {items : List btrfs_item} {item : btrfs_item} {physical left byte : ℕ} :
      reachable d (.leaf bytenr items) → item ∈ items → item.key.type = BTRFS_EXTENT_ITEM_KEY →
      d.btrfs_map_block item.key.objectid = some (physical, left) → physical ≤ byte →
      byte < physical + item.key.offset → byte / d.nodesize = b → needed d b

/-- Whatever `size` holds, a bitmap that is reported complete has every block that has to be kept.
The stack is a function of the path, since each call of `dump_start_leaf` has a frame of its own.
-/
def keeps_all (d : filesystem) : Prop :=
  ∀ stale depth old fs_info calloc bm bm', read_super_blocks d old = .ok (true, fs_info) →
    pc_alloc_bitmap calloc fs_info.totalblock.toNat = some bm →
    read_bitmap_info d stale depth fs_info bm = .ok (true, bm') →
    ∀ b < fs_info.totalblock.toNat, needed d b → bit bm' b = true

/-- A new bitmap is empty. -/
theorem bit_replicate_zero (n b : ℕ) : bit (List.replicate n 0) b = false := by
  rw [bit, List.getD_eq_getElem?_getD, List.getElem?_replicate]
  split_ifs <;> simp

/-- The sizes `read_super_blocks` reports. -/
theorem read_super_blocks_sizes {old fs_info : file_system_info}
    (h : read_super_blocks d old = .ok (true, fs_info)) :
    fs_info.device_size.toNat = d.total_bytes.toNat ∧
      fs_info.totalblock.toNat = d.total_bytes.toNat / d.nodesize := by
  rw [read_super_blocks] at h
  obtain ⟨info, -, h⟩ := bind_eq_ok.mp h
  cases info with
  | none => cases h
  | some info =>
      cases h
      have hlt := d.total_bytes.isLt
      have hle := Nat.div_le_self d.total_bytes.toNat d.nodesize
      exact ⟨rfl, by rw [BitVec.toNat_ofNat, Nat.mod_eq_of_lt (by omega)]⟩

/-- **When everything is kept**: where each block that has to be is covered by a call that does
not hang on `size`. For the converse every `size` holds 1. A bitmap that has to be right for all
values has to be for that one, and there only the sure calls are left. -/
theorem keeps_all_iff {depth : ℕ} (h : readable d depth) :
    keeps_all d ↔ ∀ b < d.total_bytes.toNat / d.nodesize, needed d b →
      ∃ m, sure_mark d m ∧ covers d.total_bytes.toNat d.nodesize m b := by
  have hns := d.nodesize_ge
  obtain ⟨info, hopen⟩ := h.fs_open
  obtain ⟨tree_root, htree_root, htall⟩ := h.tree
  have hempty : d.total_bytes.toNat / d.nodesize ≤ 64 * (List.replicate
      (BITS_TO_LONGS (d.total_bytes.toNat / d.nodesize)) (0 : BitVec 64)).length := by
    have hlt := d.total_bytes.isLt
    have hle := Nat.div_le_div_left hns (show 0 < 4096 by omega) (a := d.total_bytes.toNat)
    rw [List.length_replicate, BITS_TO_LONGS, u64_of_lt (by omega)]
    omega
  constructor
  · intro hkeeps b hb hneed
    -- the run with `1` in every `size` makes the sure marks and no others
    obtain ⟨calls, hcalls, hsure⟩ := bitmap_calls_one h hopen
    obtain ⟨fs_info, hsuper⟩ : ∃ fs_info,
        read_super_blocks d init_file_system_info = .ok (true, fs_info) := by
      rw [read_super_blocks, hopen, ok_bind]
      exact ⟨_, rfl⟩
    obtain ⟨hdev, htotal⟩ := read_super_blocks_sizes hsuper
    have hrun : ∀ bm, read_bitmap_info d (fun _ => 1) depth fs_info bm = .ok (true,
        calls.foldl (set_bitmap fs_info.device_size.toNat d.nodesize fs_info.totalblock.toNat)
          bm) := by
      intro bm
      simp only [read_bitmap_info, hopen, hcalls, ok_bind]
    have hbit := hkeeps (fun _ => 1) depth _ fs_info (fun _ => true) _ _ hsuper (if_pos rfl)
      (hrun _) b (by rwa [htotal]) hneed
    rw [hdev, htotal, bit_foldl_set_bitmap (by omega) hb _ _ hempty, bit_replicate_zero] at hbit
    rcases hbit with ⟨m, hm, hcov⟩ | hbit
    · exact ⟨m, hsure m hm, hcov⟩
    · cases hbit
  · intro hcov stale depth' old fs_info calloc bm bm' hsuper halloc hrun b hb hneed
    obtain ⟨hdev, htotal⟩ := read_super_blocks_sizes hsuper
    -- a run that returns has made the sure marks, whatever was in `size`
    rcases read_bitmap_info_ok hrun with ⟨-, hfalse, -⟩ | ⟨info', calls, hopen', hcalls, -, rfl⟩
    · cases hfalse
    unfold pc_alloc_bitmap at halloc
    split_ifs at halloc
    cases halloc
    rw [htotal] at hb
    obtain ⟨m, hm, hc⟩ := hcov b hb hneed
    rw [hdev, htotal, bit_foldl_set_bitmap (by omega) hb _ _ hempty]
    refine Or.inl ⟨m, sure_mark_mem hopen' ?_ hcalls hm, hc⟩
    intro root hroot
    rw [htree_root] at hroot
    cases hroot
    exact htall.all_read

/-- A call covers the blocks its range shares a byte with. -/
theorem covers_of_byte {dev_size block_size physical length byte b : ℕ} (hbs : 0 < block_size)
    (h64 : physical + length < 2 ^ 64) (h1 : physical ≤ byte) (h2 : byte < physical + length)
    (hb : byte / block_size = b) (hlt : b < dev_size / block_size) :
    covers dev_size block_size ⟨physical, length⟩ b := by
  have hmul : b * block_size ≤ byte := by
    rw [← hb]
    exact Nat.div_mul_le_self byte block_size
  have hdev : (b + 1) * block_size ≤ dev_size :=
    (Nat.le_div_iff_mul_le hbs).mp hlt
  have hbyte : byte < (b + 1) * block_size := by
    rw [← hb, Nat.succ_mul]
    exact Nat.lt_div_mul_add hbs
  refine ⟨by dsimp only; omega, ?_, ?_⟩
  · rw [← hb]
    exact Nat.div_le_div_right h1
  · rw [u64_of_lt h64]
    omega

end Marks

/-- Addresses that are those of the device, in stripes of 65536 bytes, with a tree of roots
at address `tree` and one leaf for each other tree. -/
def small_filesystem (tree : ℕ) (reader : Reader)
    (hroot : ∀ root, reader tree 7 = some root → all_read reader root →
      ∀ item, ¬ has_item reader root item) : filesystem where
  sectorsize := 4096
  nodesize := 4096
  total_bytes := 262144
  bytes_used := 28672
  openable := true
  chunk_root := ⟨135168, 7⟩
  tree_root := ⟨tree, 7⟩
  dev_root := ⟨139264, 7⟩
  extent_root_bytenr := 143360
  csum_root_bytenr := 147456
  fs_root_bytenr := 151552
  read_tree_block := reader
  btrfs_map_block := fun bytenr => some (bytenr, 65536 - bytenr % 65536)
  found_items := []
  sectorsize_ge := Nat.le_of_ble_eq_true rfl
  nodesize_ge := Nat.le_of_ble_eq_true rfl
  found_root_items := by
    intro root hread hall item _
    exact iff_of_false List.not_mem_nil (hroot root hread hall item)

/-- Every block is an empty leaf. -/
def empty_leaves : Reader := fun bytenr _ => some (.leaf bytenr [])

theorem empty_leaves_has_item (root : extent_buffer) (hread : empty_leaves 131072 7 = some root)
    (item : btrfs_item) : ¬ has_item empty_leaves root item := by
  cases hread
  rw [has_item_leaf]
  exact List.not_mem_nil

def leaf_filesystem : filesystem :=
  small_filesystem 131072 empty_leaves fun root hread _ => empty_leaves_has_item root hread

theorem leaf_filesystem_readable : readable leaf_filesystem 1 where
  openable := rfl
  chunk := ⟨_, rfl, rfl, nofun⟩
  tree := ⟨_, rfl, rfl, nofun⟩
  dev := rfl
  root_items := fun tree item htree hitem _ => absurd hitem (empty_leaves_has_item tree htree item)
  extent_root := rfl
  csum_root := rfl
  dev_root := rfl
  fs_root := rfl

/-- A tree of one leaf is marked by the leaf. -/
theorem leaf_filesystem_kept : keeps_all leaf_filesystem := by
  refine (keeps_all_iff leaf_filesystem_readable).mpr ?_
  intro b hb hneed
  have hleaf : ∀ eb, reachable leaf_filesystem eb →
      eb = .leaf 131072 [] ∨ eb = .leaf 135168 [] := by
    intro eb hreach
    cases hreach with
    | tree hroot hbelow =>
        cases hroot
        cases hbelow
        exact Or.inl rfl
    | chunk hroot hbelow =>
        cases hroot
        cases hbelow
        exact Or.inr rfl
    | root_item hroot hitem => exact absurd hitem (empty_leaves_has_item _ hroot _)
  cases hneed with
  | @tree_block eb physical left byte hreach hmap h1 h2 hbyte =>
      cases hmap
      have hns : leaf_filesystem.nodesize = 4096 := rfl
      refine ⟨⟨eb.bytenr, 65536 - eb.bytenr % 65536⟩, ?_, ?_⟩
      · rcases hleaf eb hreach with rfl | rfl
        · exact sure_mark.leaf hreach (leaf_mark.own ⟨1, rfl⟩ rfl)
        · exact sure_mark.leaf hreach (leaf_mark.own ⟨1, rfl⟩ rfl)
      · -- 4096 bytes from either address end before the stripe does
        rw [hns] at h2
        rcases hleaf eb hreach with rfl | rfl
        · dsimp only [extent_buffer.bytenr] at *
          exact covers_of_byte (by decide) (by decide) h1 (by omega) hbyte hb
        · dsimp only [extent_buffer.bytenr] at *
          exact covers_of_byte (by decide) (by decide) h1 (by omega) hbyte hb
  | extent hreach hitem =>
      rcases hleaf _ hreach with heq | heq
      · cases heq
        cases hitem
      · cases heq
        cases hitem

/-- The block at 196608 is a node over the leaf at 131072, the others are empty leaves. -/
def one_node : Reader := fun bytenr _ =>
  if bytenr = 196608 then some (.node 196608 [⟨131072, 7⟩]) else some (.leaf bytenr [])

theorem one_node_has_item (root : extent_buffer) (hread : one_node 196608 7 = some root)
    (item : btrfs_item) : ¬ has_item one_node root item := by
  rintro ⟨bytenr, items, hbelow, hitem⟩
  cases hread
  cases hbelow with
  | child hp hnext hbelow =>
      rw [List.mem_singleton.mp hp] at hnext
      cases hnext
      cases hbelow
      cases hitem

def node_filesystem : filesystem :=
  small_filesystem 196608 one_node fun root hread _ => one_node_has_item root hread

/-- With 1 in `size`, the root node is left out. -/
theorem node_filesystem_not_kept : readable node_filesystem 2 ∧ ¬ keeps_all node_filesystem := by
  constructor
  · exact {
      openable := rfl
      chunk := ⟨_, rfl, rfl, nofun⟩
      tree := by
        refine ⟨_, rfl, rfl, fun p hp => ?_⟩
        rw [List.mem_singleton.mp hp]
        exact ⟨_, rfl, rfl, nofun⟩
      dev := rfl
      root_items := fun tree item htree hitem _ => absurd hitem (one_node_has_item tree htree item)
      extent_root := rfl
      csum_root := rfl
      dev_root := rfl
      fs_root := rfl }
  · intro hkeeps
    have hneed : needed node_filesystem 48 :=
      @needed.tree_block node_filesystem 48 (.node 196608 [⟨131072, 7⟩]) 196608 65536 196608
        (reachable.tree rfl (below.self _)) rfl le_rfl (by decide) (by decide)
    have hbit := hkeeps (fun _ => 1) 2 init_file_system_info _ (fun _ => true) _ _ rfl rfl rfl 48
      (by decide +kernel) hneed
    revert hbit
    decide +kernel

end SysbakAdmin.Btrfs

/-
The space that a backed up partition table asks for: `gdbus_get_source_use_size` of the
daemon, which reads it off the last line of the file, and what `sysbak_admin_restore_disk`
makes of the answer.

The file is what `sfdisk -d` prints: a header, and a line for each partition. A character
is a byte, memory is never short, and a file that opens is read without an error. `int`
arithmetic wraps.

`fgets` reads a line in pieces of the buffer's size, so it is the last piece of the last line
that is taken apart (`last_line_loop_eq`). A table is described by its lines (`dump`), each with
what the code reads of it, and `sizes_table_iff` compares that with what the whole table covers.
The other half is about files that are no tables: the last line of such a file needs no `=` at
all for the daemon to refuse it and not to follow a null pointer.
-/
import SysbakAdmin.DiskRestore
import SysbakAdmin.Lib.CString

set_option autoImplicit false

namespace SysbakAdmin.SourceSize

open KeyFile Client CInt CString

/-! ## The functions of the daemon -/

/-- The loop of `get_file_last_line`, for as many calls of `fgets`. Where nothing is read the
line stays what it was. -/
def get_file_last_line_loop : ℕ → chars → chars → Option chars
  | 0, _, _ => none
  | n + 1, line, s =>
      -- the buffer has 1024 characters, one of them for the zero
      let (read, s, feof) := fgets 1023 s
      let line := if read = [] then line else read
      if feof then some line else get_file_last_line_loop n line s

/-- `get_file_last_line`, of the file's text, if it can be opened; `line` is what `malloc`
returned. Each call of `fgets` but the last takes a character. -/
def get_file_last_line (file : Option chars) (line : chars) : Option chars :=
  file.bind fun s => get_file_last_line_loop (s.length + 1) line s

/-- `get_spec_data`: the number in front of the first `end`, unless nothing follows that. -/
def get_spec_data (source : chars) (stop : Char) : ℤ :=
  let i := source.findIdx (· = stop)
  let len : ℤ := source.length - i - 1
  if len ≤ 0 then 0 else atoi (source.take i)

/-- What the handler sends: its reply with the size, or `sysbak_error`. -/
inductive answer where
  | reply (size : ℕ)
  | error (message : String) (e_code : ℕ)
  deriving DecidableEq, Repr

/-- `g_strsplit (data,"=",-1)`. -/
def g_strsplit (data : chars) : List chars := if data = [] then [] else data.splitOn '='

/-- `ERROR:` of the handler. -/
def get_source_use_size_error : Bool × List answer :=
  (false, [.reply 0, .error "get source use size failed" 1])

/-- `gdbus_get_source_use_size`. `none` is a fault: there is no second `=`, and the length of
`str[2]`, which is `NULL`, is asked for. -/
def gdbus_get_source_use_size (file : Option chars) (line : chars) : Option (Bool × List answer) :=
  match get_file_last_line file line with
  | none => some get_source_use_size_error
  | some data =>
      match g_strsplit (c_string data) with
      | [] | [_] => some get_source_use_size_error
      | [_, _] => none
      | _ :: str1 :: str2 :: _ =>
          let start_size := get_spec_data str1 ','
          let sector_szie := get_spec_data str2 ','
          some (true, [.reply (u64OfInt ((toInt32 (start_size + sector_szie)).tdiv 2))])

/-! ## The last line of a file -/

/-- A text of whole lines. -/
def whole (s : chars) : Prop := s = [] ∨ s.getLast? = some '\n'

theorem whole.append {a b : chars} (ha : whole a) (hb : whole b) : whole (a ++ b) := by
  rcases hb with rfl | hb
  · rwa [List.append_nil]
  · exact Or.inr (by rw [List.getLast?_append, hb]; rfl)

theorem whole_line (s : chars) : whole (s ++ ['\n']) := Or.inr List.getLast?_concat

theorem whole.suffix {a b : chars} (h : whole (a ++ b)) : whole b := by
  cases b with
  | nil => exact Or.inl rfl
  | cons c b =>
      rcases h with h | h
      · exact absurd h (by simp)
      · refine Or.inr ?_
        rwa [List.getLast?_append_of_ne_nil _ (List.cons_ne_nil _ _)] at h

/-- With a call for each character the loop ends, whatever the file holds. -/
theorem last_line_loop_ends {n : ℕ} {s : chars} (hn : s.length < n) (line : chars) :
    ∃ l, get_file_last_line_loop n line s = some l := by
  induction n generalizing s line with
  | zero => exact absurd hn (Nat.not_lt_zero _)
  | succ n ih =>
      unfold get_file_last_line_loop
      dsimp only
      split
      · exact ⟨_, rfl⟩
      · rename_i hfeof
        have hless := fgets_shorter (by norm_num) (Bool.eq_false_iff.mpr hfeof)
        exact ih (hless.trans_le (Nat.lt_succ_iff.mp hn)) _

/-- What is left of the last line when it is read in pieces of the buffer. -/
def last_piece (body : chars) : chars := (body ++ ['\n']).drop (1023 * (body.length / 1023))

theorem last_piece_of_fits {body : chars} (h : body.length < 1023) :
    last_piece body = body ++ ['\n'] := by
  rw [last_piece, Nat.div_eq_of_lt h, Nat.mul_zero, List.drop_zero]

theorem last_piece_drop {body : chars} (h : 1023 ≤ body.length) :
    last_piece (body.drop 1023) = last_piece body := by
  unfold last_piece
  rw [← List.drop_append_of_le_length h, List.drop_drop, List.length_drop]
  congr 1
  omega

/-- **The loop ends with the last piece of the last line.** -/
theorem last_line_loop_eq {n : ℕ} {pre body : chars} (hpre : whole pre) (hbody : '\n' ∉ body)
    (hn : (pre ++ body ++ ['\n']).length < n) (line : chars) :
    get_file_last_line_loop n line (pre ++ body ++ ['\n']) = some (last_piece body) := by
  induction n generalizing pre body line with
  | zero => exact absurd hn (Nat.not_lt_zero _)
  | succ n ih =>
      unfold get_file_last_line_loop
      dsimp only
      by_cases hempty : pre = []
      · subst hempty
        rw [List.nil_append] at hn ⊢
        by_cases hfits : body.length < 1023
        · -- the line, and then a call that finds nothing
          rw [fgets_line (b := []) hfits hbody, last_piece_of_fits hfits]
          obtain ⟨n, rfl⟩ : ∃ m, n = m + 1 := ⟨n - 1, by simp at hn; omega⟩
          simp [get_file_last_line_loop, fgets]
        · -- a piece of it
          have hlong : 1023 ≤ body.length := Nat.le_of_not_lt hfits
          have hne : body.take 1023 ≠ [] := by
            refine List.length_pos_iff.mp ?_
            rw [List.length_take]
            omega
          have hrest : get_file_last_line_loop n (body.take 1023) ([] ++ body.drop 1023 ++ ['\n'])
              = some (last_piece (body.drop 1023)) := by
            apply ih (Or.inl rfl) fun h => hbody (List.mem_of_mem_drop h)
            simp only [List.nil_append, List.length_append, List.length_drop] at hn ⊢
            omega
          rw [fgets_long hlong hbody, if_neg hne, if_neg Bool.false_ne_true, ← last_piece_drop hlong]
          exact hrest
      · have hmem : '\n' ∈ pre := List.mem_of_getLast? (hpre.resolve_left hempty)
        -- a call stays inside the lines in front, so these get shorter and stay whole
        obtain ⟨read, rest, hsplit, hne, hread⟩ := fgets_front 1023 hmem (body ++ ['\n'])
        have hlen : 0 < read.length := List.length_pos_iff.mpr (hne (by norm_num))
        have hrest : get_file_last_line_loop n read (rest ++ body ++ ['\n'])
            = some (last_piece body) := by
          apply ih (whole.suffix (hsplit ▸ hpre)) hbody
          simp only [hsplit, List.length_append] at hn ⊢
          omega
        rw [List.append_assoc, hread, if_neg (hne (by norm_num)), if_neg Bool.false_ne_true,
          ← List.append_assoc]
        exact hrest

theorem get_file_last_line_eq {pre body : chars} (hpre : whole pre) (hbody : '\n' ∉ body)
    (line : chars) :
    get_file_last_line (some (pre ++ body ++ ['\n'])) line = some (last_piece body) :=
  last_line_loop_eq hpre hbody (Nat.lt_succ_self _) line

/-! ## The fields of a line -/

theorem findIdx_split {a b : chars} {stop : Char} (h : stop ∉ a) :
    (a ++ stop :: b).findIdx (· = stop) = a.length := by
  induction a with
  | nil => rw [List.nil_append, List.findIdx_cons, decide_eq_true rfl]; rfl
  | cons c a ih =>
      have hc : c ≠ stop := fun h' => h (h' ▸ List.mem_cons_self)
      rw [List.cons_append, List.findIdx_cons]
      simp [hc, ih fun h' => h (List.mem_cons_of_mem _ h')]

/-- The number in front of a `,` that something follows. -/
theorem get_spec_data_eq {a b : chars} {stop : Char} (h : stop ∉ a) (hb : b ≠ []) :
    get_spec_data (a ++ stop :: b) stop = atoi a := by
  have hlen : 0 < b.length := List.length_pos_iff.mpr hb
  unfold get_spec_data
  dsimp only
  rw [findIdx_split h, List.take_left, if_neg]
  simp only [List.length_append, List.length_cons]
  omega

/-- Without a `,` there is no number. -/
theorem get_spec_data_of_not_mem {a : chars} {stop : Char} (h : stop ∉ a) :
    get_spec_data a stop = 0 := by
  have hidx : a.findIdx (· = stop) = a.length := by
    rw [List.findIdx_eq_length]
    intro c hc
    exact decide_eq_false fun h' => h (h' ▸ hc)
  unfold get_spec_data
  dsimp only
  rw [hidx, if_pos (by omega)]

/-- What has no `=` goes in front of the first field. -/
theorem splitOn_append {a b : chars} (h : '=' ∉ a) {p : chars} {rest : List chars}
    (hb : b.splitOn '=' = p :: rest) : (a ++ b).splitOn '=' = (a ++ p) :: rest := by
  induction a with
  | nil => exact hb
  | cons c a ih =>
      have hc : (c == '=') = false := beq_eq_false_iff_ne.mpr fun h' => h (h' ▸ List.mem_cons_self)
      rw [List.cons_append, List.splitOn_cons_eq_if_modifyHead, hc, if_neg Bool.false_ne_true,
        ih fun h' => h (List.mem_cons_of_mem _ h')]
      rfl

/-! ## What `sfdisk -d` prints

A line is a device, two numbers in columns and further fields; a dump is a header and such
lines. The numbers are those of a disk of at most `2 ^ 40` sectors. -/

/-- A number of sectors, in a column. -/
structure sectors where
  blanks : ℕ
  digits : chars
  ne_nil : digits ≠ []
  isDigit : ∀ c ∈ digits, c.isDigit = true
  le : decimal digits ≤ 2 ^ 40

/-- What it looks like. -/
def sectors.text (n : sectors) : chars := List.replicate n.blanks ' ' ++ n.digits

/-- What it says. -/
def sectors.value (n : sectors) : ℕ := decimal n.digits

/-- The line of a partition: the device, the first sector, the number of sectors, and the
fields that follow, if any. -/
structure partition_line where
  dev : chars
  start : sectors
  size : sectors
  extra : Option chars
  dev_plain : ∀ c ∈ dev, c ≠ '=' ∧ c ≠ '\n' ∧ c ≠ '\x00'
  extra_plain : ∀ e, extra = some e → ∀ c ∈ e, c ≠ '\n' ∧ c ≠ '\x00'

/-- The fields behind the size. -/
def partition_line.tail (l : partition_line) : chars :=
  match l.extra with
  | none => []
  | some e => ", ".toList ++ e

/-- The line without its end. -/
def partition_line.text (l : partition_line) : chars :=
  l.dev ++ " : start=".toList ++ l.start.text ++ ", size=".toList ++ l.size.text ++ l.tail

/-- The sector behind the partition. -/
def partition_line.end_sector (l : partition_line) : ℕ := l.start.value + l.size.value

/-- A dump of a table with at least one partition, in any order. -/
structure dump where
  header : chars
  partitions : List partition_line
  header_whole : whole header
  ne_nil : partitions ≠ []

/-- The text of the file. -/
def dump.text (d : dump) : chars :=
  d.header ++ d.partitions.flatMap fun l => l.text ++ ['\n']

/-- The last line. -/
def dump.last (d : dump) : partition_line := d.partitions.getLast d.ne_nil

/-- The sector behind the partition that ends last. -/
def dump.table_end (d : dump) : ℕ := (d.partitions.map (·.end_sector)).foldr max 0

theorem end_sector_le_table_end {d : dump} {l : partition_line} (h : l ∈ d.partitions) :
    l.end_sector ≤ d.table_end := by
  unfold dump.table_end
  revert h
  induction d.partitions with
  | nil => intro h; cases h
  | cons m ls ih =>
      intro h
      rcases List.mem_cons.mp h with rfl | h
      · exact le_max_left _ _
      · exact (ih h).trans (le_max_right _ _)

theorem table_end_le (d : dump) : d.table_end ≤ 2 ^ 41 := by
  unfold dump.table_end
  induction d.partitions with
  | nil => norm_num
  | cons l ls ih =>
      have hstart := l.start.le
      have hsize := l.size.le
      have hend : l.end_sector ≤ 2 ^ 41 := by
        unfold partition_line.end_sector sectors.value
        omega
      exact max_le hend ih

/-! ## What is read of a line -/

/-- A column holds blanks and digits. -/
theorem sectors.not_mem (n : sectors) {x : Char} (hx : x ≠ ' ') (hd : x.isDigit = false) :
    x ∉ n.text := by
  intro h
  rcases List.mem_append.mp h with h | h
  · exact hx (List.mem_replicate.mp h).2
  · exact Bool.false_ne_true (hd.symm.trans (n.isDigit x h))

theorem sectors.atoi_text (n : sectors) : atoi n.text = i32 n.value :=
  atoi_number n.blanks n.ne_nil n.isDigit (n.le.trans_lt (by decide))

/-- A line has neither an end of a line in it nor a zero. -/
theorem partition_line.not_mem (l : partition_line) {x : Char} (hx : x = '\n' ∨ x = '\x00') :
    x ∉ l.text := by
  have hplain : x ≠ ' ' ∧ x.isDigit = false ∧ x ∉ " : start=".toList ∧ x ∉ ", size=".toList
      ∧ x ∉ ", ".toList := by
    rcases hx with rfl | rfl <;> decide
  obtain ⟨hblank, hdigit, hstart, hsize, hcomma⟩ := hplain
  have hdev : x ∉ l.dev := fun h => by
    obtain ⟨-, hn, hz⟩ := l.dev_plain x h
    exact hx.elim hn hz
  have htail : x ∉ l.tail := by
    unfold partition_line.tail
    cases he : l.extra with
    | none => exact List.not_mem_nil
    | some e =>
        intro h
        rcases List.mem_append.mp h with h | h
        · exact hcomma h
        · obtain ⟨hn, hz⟩ := l.extra_plain e he x h
          exact hx.elim hn hz
  unfold partition_line.text
  simp only [List.mem_append, not_or]
  exact ⟨⟨⟨⟨⟨hdev, hstart⟩, l.start.not_mem hblank hdigit⟩, hsize⟩,
    l.size.not_mem hblank hdigit⟩, htail⟩

/-- There is no zero in a piece of a line. -/
theorem c_string_piece (l : partition_line) : c_string (last_piece l.text) = last_piece l.text := by
  apply c_string_of_not_mem
  intro h
  rcases List.mem_append.mp (List.mem_of_mem_drop h) with h | h
  · exact l.not_mem (Or.inr rfl) h
  · exact absurd (List.mem_singleton.mp h) (by decide)

/-- The sectors that the handler counts: those of the size only where a field follows. -/
def partition_line.counted (l : partition_line) : ℕ :=
  match l.extra with
  | none => l.start.value
  | some _ => l.end_sector

/-- The first three fields of a line. -/
theorem split_line (l : partition_line) : ∃ p rest,
    g_strsplit (l.text ++ ['\n']) = (l.dev ++ " : start".toList)
      :: (l.start.text ++ ", size".toList) :: (l.size.text ++ p) :: rest ∧
    (l.tail ++ ['\n']).splitOn '=' = p :: rest := by
  obtain ⟨p, rest, hp⟩ := List.exists_cons_of_ne_nil
    (List.splitOn_ne_nil '=' (l.tail ++ ['\n']))
  refine ⟨p, rest, ?_, hp⟩
  have hdev : '=' ∉ l.dev ++ " : start".toList := by
    intro h
    rcases List.mem_append.mp h with h | h
    · exact (l.dev_plain _ h).1 rfl
    · exact absurd h (by decide)
  have hstart : '=' ∉ l.start.text ++ ", size".toList := by
    intro h
    rcases List.mem_append.mp h with h | h
    · exact l.start.not_mem (by decide) (by decide) h
    · exact absurd h (by decide)
  -- the first two `=` are those of the form, as neither the device nor a column has one
  have hfields : l.text ++ ['\n'] = (l.dev ++ " : start".toList) ++ '='
      :: ((l.start.text ++ ", size".toList) ++ '=' :: (l.size.text ++ (l.tail ++ ['\n']))) := by
    unfold partition_line.text
    simp [List.append_assoc]
  have hne : l.text ++ ['\n'] ≠ [] := by simp
  rw [g_strsplit, if_neg hne, hfields, List.splitOn_append_cons_self_of_not_mem hdev,
    List.splitOn_append_cons_self_of_not_mem hstart,
    splitOn_append (l.size.not_mem (by decide) (by decide)) hp]

/-- The two numbers are added up as far as they are read. -/
theorem fields_sum (l : partition_line) {p : chars} {rest : List chars}
    (hp : (l.tail ++ ['\n']).splitOn '=' = p :: rest) :
    toInt32 (get_spec_data (l.start.text ++ ", size".toList) ','
      + get_spec_data (l.size.text ++ p) ',') = i32 l.counted := by
  have hcomma : ∀ n : sectors, ',' ∉ n.text := fun n => n.not_mem (by decide) (by decide)
  have hstart : get_spec_data (l.start.text ++ ", size".toList) ',' = i32 l.start.value :=
    (get_spec_data_eq (hcomma l.start) (by decide)).trans l.start.atoi_text
  rw [hstart]
  unfold partition_line.counted
  cases he : l.extra with
  | none =>
      -- the number runs up to the end of the line
      have hp' : p = ['\n'] := by
        rw [partition_line.tail, he] at hp
        rw [List.nil_append, List.splitOn_eq_singleton (by decide)] at hp
        exact (List.cons.inj hp).1.symm
      have hnone : ',' ∉ l.size.text ++ p := by
        rw [hp']
        intro h
        rcases List.mem_append.mp h with h | h
        · exact hcomma _ h
        · exact absurd h (by decide)
      rw [get_spec_data_of_not_mem hnone]
      exact toInt32_i32_add l.start.value 0
  | some e =>
      obtain ⟨q, qs, hq⟩ := List.exists_cons_of_ne_nil (List.splitOn_ne_nil '=' (e ++ ['\n']))
      have hp' : p = ", ".toList ++ q := by
        have hsplit := splitOn_append (a := ", ".toList) (by decide) hq
        rw [partition_line.tail, he] at hp
        rw [← List.append_assoc, hp] at hsplit
        exact (List.cons.inj hsplit).1
      have hsize : get_spec_data (l.size.text ++ p) ',' = i32 l.size.value := by
        rw [hp']
        exact (get_spec_data_eq (hcomma l.size) (List.cons_ne_nil _ _)).trans l.size.atoi_text
      rw [hsize]
      exact toInt32_i32_add_i32 _ _

/-! ## What the handler answers -/

/-- The answer for a number of sectors: an `int` that is halved and sent as a `guint64`. -/
def asked (counted : ℕ) : ℕ := u64OfInt ((i32 counted).tdiv 2)

/-- The last line has room in the buffer of `fgets`, with its end and the zero behind it. -/
def dump.fits (d : dump) : Prop := d.last.text.length < 1023

/-- The file is a front of whole lines, and the last line. -/
theorem dump.text_eq (d : dump) : ∃ pre, whole pre ∧ d.text = pre ++ d.last.text ++ ['\n'] := by
  refine ⟨d.header ++ d.partitions.dropLast.flatMap fun l => l.text ++ ['\n'], ?_, ?_⟩
  · apply d.header_whole.append
    induction d.partitions.dropLast with
    | nil => exact Or.inl rfl
    | cons l ls ih =>
        rw [List.flatMap_cons]
        exact (whole_line _).append ih
  · have hparts : d.partitions = d.partitions.dropLast ++ [d.last] :=
      (List.dropLast_concat_getLast d.ne_nil).symm
    unfold dump.text
    conv_lhs => rw [hparts]
    simp [List.append_assoc]

theorem last_line_eq (d : dump) (line : chars) :
    get_file_last_line (some d.text) line = some (last_piece d.last.text) := by
  obtain ⟨pre, hpre, htext⟩ := d.text_eq
  rw [htext]
  exact get_file_last_line_eq hpre (d.last.not_mem (Or.inl rfl)) line

/-- The size in a reply comes from the second and the third field. -/
theorem source_use_size_iff {file : Option chars} {line data : chars} {size : ℕ}
    (hdata : get_file_last_line file line = some data) :
    gdbus_get_source_use_size file line = some (true, [.reply size]) ↔
      ∃ f str1 str2 rest, g_strsplit (c_string data) = f :: str1 :: str2 :: rest ∧
        size = u64OfInt ((toInt32 (get_spec_data str1 ',' + get_spec_data str2 ',')).tdiv 2) := by
  -- fewer than three fields: the first two shapes are refused, the third ends the daemon
  unfold gdbus_get_source_use_size
  rw [hdata]
  dsimp only
  split
  · rename_i h
    exact iff_of_false (by simp [get_source_use_size_error]) (by rw [h]; simp)
  · rename_i h
    exact iff_of_false (by simp [get_source_use_size_error]) (by rw [h]; simp)
  · rename_i h
    exact iff_of_false (by simp) (by rw [h]; simp)
  · rename_i f str1 str2 rest h
    rw [h]
    constructor
    · intro hreply
      injection hreply with hreply
      injection hreply with _ hreply
      injection hreply with hreply
      injection hreply with hreply
      exact ⟨f, str1, str2, rest, rfl, hreply.symm⟩
    · rintro ⟨f', str1', str2', rest', hfields, hsize⟩
      obtain ⟨-, hrest⟩ := List.cons.inj hfields
      obtain ⟨h1, hrest⟩ := List.cons.inj hrest
      obtain ⟨h2, -⟩ := List.cons.inj hrest
      rw [hsize, h1, h2]

/-- **The answer is that of the last line**, whatever the lines before it say. -/
theorem source_use_size_eq {d : dump} (hfits : d.fits) (line : chars) :
    gdbus_get_source_use_size (some d.text) line = some (true, [.reply (asked d.last.counted)]) := by
  obtain ⟨p, rest, hsplit, hp⟩ := split_line d.last
  rw [← last_piece_of_fits hfits, ← c_string_piece] at hsplit
  refine (source_use_size_iff (last_line_eq d line)).mpr ⟨_, _, _, _, hsplit, ?_⟩
  rw [fields_sum d.last hp]
  rfl

/-- An `int` that is halved and sent as a `guint64` covers `m` KiB: its half is enough, or it
is negative, and sent as a number close to `2 ^ 64`. -/
theorem le_u64OfInt_iff {m : ℕ} {w : ℤ} (hm : m ≤ 2 ^ 62) (hlow : -2 ^ 31 ≤ w) (hhigh : w < 2 ^ 31) :
    m ≤ u64OfInt (w.tdiv 2) ↔ (m : ℤ) ≤ w.tdiv 2 ∨ w ≤ -2 := by
  unfold u64OfInt
  rcases le_or_gt 0 w with hpos | hneg
  · rw [Int.tdiv_eq_ediv_of_nonneg hpos]
    omega
  · have hhalf : w.tdiv 2 = -(-w / 2) := by
      rw [← Int.tdiv_eq_ediv_of_nonneg (by omega), Int.neg_tdiv, Int.neg_neg]
    rw [hhalf]
    omega

/-- For the sectors of a line, and a table that ends no earlier: the sum is not too large for an
`int` and its half is enough, or the `int` is negative. -/
theorem le_asked_iff {m counted : ℕ} (hm : m ≤ 2 ^ 62) (hle : counted / 2 ≤ m) :
    m ≤ asked counted ↔ counted < 2 ^ 31 ∧ m ≤ counted / 2 ∨
      2 ^ 31 ≤ counted % 2 ^ 32 ∧ counted % 2 ^ 32 < 2 ^ 32 - 1 := by
  have hlt : counted % 2 ^ 32 < 2 ^ 32 := Nat.mod_lt _ (by decide)
  unfold asked
  by_cases hsmall : counted % 2 ^ 32 < 2 ^ 31
  · have hint : i32 counted = ((counted % 2 ^ 32 : ℕ) : ℤ) := if_pos hsmall
    rw [le_u64OfInt_iff hm (by omega) (by omega), hint, Int.tdiv_eq_ediv_of_nonneg (by omega)]
    omega
  · have hint : i32 counted = ((counted % 2 ^ 32 : ℕ) : ℤ) - 2 ^ 32 := if_neg hsmall
    have hhalf : (i32 counted).tdiv 2 = -((2 ^ 32 - (counted % 2 ^ 32 : ℕ)) / 2) := by
      rw [hint, ← Int.tdiv_eq_ediv_of_nonneg (by omega), ← Int.neg_tdiv, neg_sub]
    rw [le_u64OfInt_iff hm (by omega) (by omega), hhalf, hint]
    omega

/-- **When the line is not a partition's**: with fewer than two `=`, the error is sent exactly
where there is none, and with one of them the daemon faults. -/
theorem fails_cleanly_iff {file : Option chars} {line data : chars}
    (hdata : get_file_last_line file line = some data) (hcount : (c_string data).count '=' < 2) :
    gdbus_get_source_use_size file line = some get_source_use_size_error ↔ '=' ∉ c_string data := by
  unfold gdbus_get_source_use_size
  rw [hdata]
  dsimp only
  by_cases hmem : '=' ∈ c_string data
  · obtain ⟨a, b, hsplit, ha⟩ := List.eq_append_cons_of_mem hmem
    have hb : '=' ∉ b := by
      rw [hsplit, List.count_append, List.count_cons_self] at hcount
      exact List.count_eq_zero.mp (by omega)
    have hfields : g_strsplit (c_string data) = [a, b] := by
      have hne : c_string data ≠ [] := List.ne_nil_of_mem hmem
      rw [g_strsplit, if_neg hne, hsplit, List.splitOn_append_cons_self_of_not_mem ha,
        List.splitOn_eq_singleton hb]
    rw [hfields]
    exact iff_of_false (fun h => nomatch h) (not_not_intro hmem)
  · have hfields : g_strsplit (c_string data) = [] ∨ g_strsplit (c_string data) = [c_string data] := by
      unfold g_strsplit
      split
      · exact Or.inl rfl
      · exact Or.inr (List.splitOn_eq_singleton hmem)
    rcases hfields with h | h <;> rw [h] <;> exact iff_of_true rfl hmem

/-! ## The disk that is restored to

The answer goes to the client, which compares it with the size of the disk before it writes. -/

open DiskRestore (sized no_space refused_early restore_disk_refused_early restore_disk_accepted)

/-- The requests that write to the disk. -/
def writes_disk : request → Bool
  | .backup_disk_mbr _ _ | .restore_partition_table _ _ | .create_pv _ _ _
  | .sysbak_restore _ _ _ => true
  | _ => false

/-- No such request has been sent. -/
def writes_nothing (c : Session) : Prop := ∀ r ∈ c.sent, writes_disk r = false

theorem writes_nothing.send {c : Session} (h : writes_nothing c) {r : request}
    (hr : writes_disk r = false) : writes_nothing (send c r) := by
  intro r' hr'
  rcases List.mem_append.mp hr' with hr' | hr'
  · exact h r' hr'
  · rwa [List.mem_singleton.mp hr']

/-- What the call of `GetSourceUseSize` gives: the size of the reply, unless the daemon is gone. -/
def replied : Option (Bool × List answer) → Option ℕ
  | some (_, .reply size :: _) => some size
  | _ => none

/-- A machine whose directory holds the dump, and whose disk has `disk` KiB. -/
structure holds_table (d : dump) (disk : ℕ) (env : Env) (source target : chars) : Prop where
  there : ∀ sent, (env sent).f_ok (source ++ "/disk-table".toList) = true
  table : ∀ sent, ∃ line, (env sent).size (.get_source_use_size (source ++ "/disk-table".toList))
    = replied (gdbus_get_source_use_size (some d.text) line)
  disk : ∀ sent, (env sent).size (.get_disk_size target) = some disk

/-- The space that a table asks for is that of the whole table. The answer itself is asked for,
and what becomes of a disk that is too small. -/
structure sizes_table (d : dump) : Prop where
  at_least : ∀ line, ∃ size,
    gdbus_get_source_use_size (some d.text) line = some (true, [.reply size]) ∧
      d.table_end / 2 ≤ size
  /-- `sysbak_admin_restore_disk` writes nothing to a disk that is smaller. -/
  never_overruns : ∀ env source target disk, holds_table d disk env source target →
    disk < d.table_end / 2 →
    (sysbak_admin_restore_disk env .new source target).1 = false ∧
      writes_nothing (sysbak_admin_restore_disk env .new source target).2

/-- The requests before the check of the space. -/
theorem sized_writes_nothing (env : Env) (source target : chars) :
    writes_nothing (sized env source target) := by
  have hremoved : writes_nothing (remove_disk_old_lvm .new target) := by
    apply writes_nothing.send
    · intro r hr
      cases hr
    · rfl
  have hsource : writes_nothing (get_source_space_size env (remove_disk_old_lvm .new target)
      (source ++ "/disk-table".toList)).2 := by
    unfold get_source_space_size
    split
    · exact hremoved.send rfl
    · exact hremoved
  unfold sized get_disk_space_size
  split
  · exact hsource.send rfl
  · exact hsource

/-- A disk smaller than the answer is refused. -/
theorem restore_disk_refuses {d : dump} {disk size : ℕ} {env : Env} {source target : chars}
    (h : holds_table d disk env source target)
    (hsize : ∀ line, gdbus_get_source_use_size (some d.text) line = some (true, [.reply size]))
    (hdisk : disk < size) :
    (sysbak_admin_restore_disk env .new source target).1 = false ∧
      writes_nothing (sysbak_admin_restore_disk env .new source target).2 := by
  by_cases hearly : refused_early env source target
  · obtain ⟨hfalse, hsent⟩ := restore_disk_refused_early hearly
    refine ⟨hfalse, fun r hr => ?_⟩
    rw [hsent] at hr
    cases hr
  · have hno : no_space env source target := by
      obtain ⟨line, hanswer⟩ := h.table (remove_disk_old_lvm .new target).sent
      rw [hsize line] at hanswer
      unfold no_space get_disk_space_size get_source_space_size check_file_device
      rw [h.there, if_pos rfl, hanswer, h.disk]
      split
      · exact hdisk
      · exact Nat.zero_lt_of_lt hdisk
    rw [restore_disk_accepted hearly, if_pos hno]
    exact ⟨rfl, sized_writes_nothing env source target⟩

/-! ## When the space is enough for the table -/

/-- What is counted of the last line is below `2 ^ 31` sectors and no partition ends more than
a KiB later, or it comes to a negative `int`. -/
def dump.last_line_covers (d : dump) : Prop :=
  d.last.counted < 2 ^ 31 ∧ d.table_end / 2 ≤ d.last.counted / 2 ∨
    2 ^ 31 ≤ d.last.counted % 2 ^ 32 ∧ d.last.counted % 2 ^ 32 < 2 ^ 32 - 1

/-- What the buffer holds of a longer line has two `=`, and the numbers behind them happen to
come to enough. -/
def dump.last_piece_covers (d : dump) : Prop :=
  ∃ f str1 str2 rest, g_strsplit (last_piece d.last.text) = f :: str1 :: str2 :: rest ∧
    let sum := toInt32 (get_spec_data str1 ',' + get_spec_data str2 ',')
    ((d.table_end / 2 : ℕ) : ℤ) ≤ sum.tdiv 2 ∨ sum ≤ -2

/-- The table is covered by what is read of its last line. A line too long for the buffer is a
case of its own, since it is then read in pieces. -/
def dump.covered (d : dump) : Prop :=
  d.fits ∧ d.last_line_covers ∨ ¬ d.fits ∧ d.last_piece_covers

theorem counted_le_table_end (d : dump) : d.last.counted ≤ d.table_end := by
  have hend : d.last.end_sector ≤ d.table_end :=
    end_sector_le_table_end (List.getLast_mem d.ne_nil)
  unfold partition_line.counted
  cases d.last.extra with
  | none => exact (Nat.le_add_right _ _).trans hend
  | some e => exact hend

/-- The size in the reply covers the table. For a line that fits the buffer it comes down to what
is counted of it, and for a longer one to its last piece. -/
theorem at_least_iff (d : dump) (line : chars) :
    (∃ size, gdbus_get_source_use_size (some d.text) line = some (true, [.reply size]) ∧
      d.table_end / 2 ≤ size) ↔ d.covered := by
  have hend := table_end_le d
  have hm : d.table_end / 2 ≤ 2 ^ 62 := by omega
  unfold dump.covered
  by_cases hfits : d.fits
  · have hlast : d.table_end / 2 ≤ asked d.last.counted ↔ d.last_line_covers :=
      le_asked_iff hm (Nat.div_le_div_right (counted_le_table_end d))
    rw [source_use_size_eq hfits]
    simp [hfits, hlast]
  · simp only [hfits, false_and, false_or, not_false_eq_true, true_and, dump.last_piece_covers,
      source_use_size_iff (last_line_eq d line), c_string_piece]
    constructor
    · rintro ⟨_, ⟨f, str1, str2, rest, hfields, rfl⟩, hle⟩
      exact ⟨f, str1, str2, rest, hfields,
        (le_u64OfInt_iff hm (toInt32_ge _) (toInt32_lt _)).mp hle⟩
    · rintro ⟨f, str1, str2, rest, hfields, hsum⟩
      exact ⟨_, ⟨f, str1, str2, rest, hfields, rfl⟩,
        (le_u64OfInt_iff hm (toInt32_ge _) (toInt32_lt _)).mpr hsum⟩

/-- **The space asked for is that of the whole table** if and only if what is read of the last
line covers it; a file whose last line has fewer than two `=` is refused if and only if it has
none. -/
theorem sizes_table_iff (d : dump) :
    (sizes_table d ↔ d.covered) ∧
      ∀ file line data, get_file_last_line file line = some data →
        (c_string data).count '=' < 2 →
        (gdbus_get_source_use_size file line = some get_source_use_size_error
          ↔ '=' ∉ c_string data) := by
  constructor
  · constructor
    · intro h
      exact (at_least_iff d []).mp (h.at_least [])
    · intro hcovered
      obtain ⟨size, hsize, hle⟩ := (at_least_iff d []).mpr hcovered
      constructor
      · intro line
        exact (at_least_iff d line).mpr hcovered
      · intro env source target disk h hdisk
        -- the reply is the same for whatever `malloc` returned
        have hanswer : ∀ line, gdbus_get_source_use_size (some d.text) line
            = some (true, [.reply size]) := fun line =>
          (source_use_size_iff (last_line_eq d line)).mpr
            ((source_use_size_iff (last_line_eq d [])).mp hsize)
        exact restore_disk_refuses h hanswer (hdisk.trans_le hle)
  · intro file line data hdata hcount
    exact fails_cleanly_iff hdata hcount

/-- A check of each character, as one that is computed. -/
theorem forall_of_all {p : Char → Prop} [DecidablePred p] {s : chars} (h : s.all p = true) :
    ∀ c ∈ s, p c := fun c hc => of_decide_eq_true (List.all_eq_true.mp h c hc)

/-- A partition from sector `204800` on. -/
def second_half : partition_line where
  dev := "/dev/sda1".toList
  start := ⟨6, "204800".toList, by decide, forall_of_all (by decide), by decide⟩
  size := ⟨8, "2048".toList, by decide, forall_of_all (by decide), by decide⟩
  extra := some "type=83".toList
  dev_plain := forall_of_all (by decide)
  extra_plain := by rintro _ ⟨⟩; exact forall_of_all (by decide)

/-- The partition before it. -/
def first_half : partition_line where
  dev := "/dev/sda2".toList
  start := ⟨8, "2048".toList, by decide, forall_of_all (by decide), by decide⟩
  size := ⟨6, "202752".toList, by decide, forall_of_all (by decide), by decide⟩
  extra := some "type=83".toList
  dev_plain := forall_of_all (by decide)
  extra_plain := by rintro _ ⟨⟩; exact forall_of_all (by decide)

/-- The two in the order of the disk. -/
def partitions_in_order : dump :=
  ⟨"label: dos\nunit: sectors\n\n".toList, [first_half, second_half], Or.inr (by decide),
    List.cons_ne_nil _ _⟩

/-- The two as they are numbered. -/
def swapped_partitions : dump :=
  ⟨"label: dos\nunit: sectors\n\n".toList, [second_half, first_half], Or.inr (by decide),
    List.cons_ne_nil _ _⟩

theorem partitions_in_order_sized : sizes_table partitions_in_order := by
  apply (sizes_table_iff partitions_in_order).1.mpr
  refine Or.inl ⟨?_, ?_⟩
  · unfold dump.fits
    decide
  · unfold dump.last_line_covers
    decide

/-- **A table whose last partition is not its last line** is asked too little space for; and a
file that ends with a single `=` stops the daemon. -/
theorem swapped_partitions_not_sized :
    ¬ sizes_table swapped_partitions ∧
      gdbus_get_source_use_size (some "/dev/sda1 : start=2048\n".toList) [] = none := by
  constructor
  · intro h
    obtain ⟨size, hsize, hle⟩ := h.at_least []
    have hfits : swapped_partitions.fits := by unfold dump.fits; decide
    rw [source_use_size_eq hfits] at hsize
    have hasked : asked swapped_partitions.last.counted = 102400 := by decide
    have hend : swapped_partitions.table_end = 206848 := by decide
    have heq : asked swapped_partitions.last.counted = size := by simpa using hsize
    omega
  · decide

end SysbakAdmin.SourceSize

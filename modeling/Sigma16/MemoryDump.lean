import Sigma16.DebuggerTransparency

/-!
The hex dump of `tracing.c`. One index drives the row headers, the character buffer and the
padding, and the characters of a row are printed when the next one begins.
-/

namespace Sigma16

open Words Transition Fallible

inductive Colour where
  | white
  | cyan
  | yellow
  deriving DecidableEq

inductive Piece where
  | label (addr : Nat)
  | value (colour : Colour) (val : Word)
  | space
  | blank
  | char (colour : Colour) (printable : Byte)
  | newline
  deriving DecidableEq

def printValue (val : Word) : Piece :=
  if val = 0 then .value .white val else .value .cyan val

def charPiece (printable : Byte) : Piece :=
  if printable ≠ 0x2e then .char .yellow printable else .char .white printable

def charPieces (buf : List Byte) (size : Nat) : List Piece := (buf.take size).map charPiece

def printArrayChar (buf : List Byte) (size : Nat) : List Piece := charPieces buf size ++ [.newline]

def printableChar (word : Word) : Byte :=
  let printable := lowByte word
  if printable < 0x20 ∨ printable > 0x7e then 0x2e else printable

def rowHeader (i : Nat) (buf : List Byte) : List Piece :=
  if i % 16 = 0 then (if i ≠ 0 then printArrayChar buf 17 else []) ++ [.label i] else []

def dumpLoop (vm : Vm) (i : Nat) (buf : List Byte) : Nat → Except Stop (List Piece × List Byte)
  | 0 => .ok ([], buf)
  | count + 1 => do
      let word ← readMem vm (BitVec.ofNat 16 i)
      let (rest, last) ← dumpLoop vm (i + 1) (buf.set (i % 16) (printableChar word)) count
      return (rowHeader i buf ++ [printValue word, .space] ++ rest, last)

def padRow (i : Nat) : List Piece :=
  if i % 16 ≠ 0 then .blank :: padRow (i + 1) else []
termination_by (16 - i % 16) % 16

def zeros : List Byte := List.replicate 17 0

/-- `dump_vm_mem`, for bounds that the `int` of its loop can hold. -/
def dumpVmMem (vm : Vm) (start stop : Nat) : Except Stop (List Piece) := do
  let (out, buf) ← dumpLoop vm start zeros (stop - start)
  return out ++ padRow (start + (stop - start)) ++ printArrayChar buf 17

/-! What a dump is to show: rows that end where the address is a multiple of 16. -/

structure Row where
  first : Nat
  words : List Word

def rowsFrom (first : Nat) (words : List Word) : List Row :=
  if words = [] then []
  else
    let count := 16 - first % 16
    ⟨first, words.take count⟩ :: rowsFrom (first + count) (words.drop count)
termination_by words.length
decreasing_by
  have := List.length_pos_of_ne_nil ‹words ≠ []›
  rw [List.length_drop]
  omega

/-- What a line of the output shows. A terminal leaves the NUL character out. -/
structure Line where
  labels : List Nat
  words : List Word
  chars : List Byte
  deriving DecidableEq

namespace Piece

def addr? : Piece → Option Nat
  | label addr => some addr
  | _ => none

def word? : Piece → Option Word
  | value _ val => some val
  | _ => none

def char? : Piece → Option Byte
  | char _ printable => some printable
  | _ => none

end Piece

def visible (chars : List Byte) : List Byte := chars.filter (· ≠ 0)

def Line.of (pieces : List Piece) : Line where
  labels := pieces.filterMap Piece.addr?
  words := pieces.filterMap Piece.word?
  chars := visible (pieces.filterMap Piece.char?)

def Line.empty : Line := ⟨[], [], []⟩

def Row.line (row : Row) : Line := ⟨[row.first], row.words, row.words.map printableChar⟩

def linesShown (out : List Piece) : List Line := (out.splitOn .newline).dropLast.map Line.of

/-! The output as a function of the words, line by line. -/

def printWords (i : Nat) (buf : List Byte) : List Word → List Piece × List Byte
  | [] => ([], buf)
  | word :: words =>
      let (rest, last) := printWords (i + 1) (buf.set (i % 16) (printableChar word)) words
      (rowHeader i buf ++ [printValue word, .space] ++ rest, last)

def dumpFrom (i : Nat) (buf : List Byte) (words : List Word) : List Piece :=
  (printWords i buf words).1 ++ padRow (i + words.length) ++
    printArrayChar (printWords i buf words).2 17

def overwrite (buf : List Byte) (offset : Nat) (chars : List Byte) : List Byte :=
  buf.take offset ++ chars ++ buf.drop (offset + chars.length)

def valuePieces (words : List Word) : List Piece :=
  words.flatMap fun word => [printValue word, .space]

def labelPieces (i : Nat) : List Piece := if i % 16 = 0 then [.label i] else []

def layout (i : Nat) (buf : List Byte) (words : List Word) : List (List Piece) :=
  if words = [] then []
  else
    let row := words.take (16 - i % 16)
    let after := overwrite buf (i % 16) (row.map printableChar)
    (labelPieces i ++ valuePieces row ++ padRow (i + row.length) ++ charPieces after 17) ::
      layout (i + row.length) after (words.drop (16 - i % 16))
termination_by words.length
decreasing_by
  have := List.length_pos_of_ne_nil ‹words ≠ []›
  rw [List.length_drop]
  omega

section Loop

variable {i : Nat} {buf : List Byte} {words : List Word}

theorem dumpLoop_eq (vm : Vm) (i : Nat) (buf : List Byte) (count : Nat) :
    dumpLoop vm i buf count = (dumpVmMemFrom vm i count).map (printWords i buf) := by
  induction count generalizing i buf with
  | zero => rfl
  | succ count ih =>
      simp only [dumpLoop, dumpVmMemFrom, ih]
      cases readMem vm (BitVec.ofNat 16 i) with
      | error stop => rfl
      | ok word => cases dumpVmMemFrom vm (i + 1) count <;> rfl

theorem printWords_append (i : Nat) (buf : List Byte) (words more : List Word) :
    printWords i buf (words ++ more) =
      ((printWords i buf words).1 ++
        (printWords (i + words.length) (printWords i buf words).2 more).1,
        (printWords (i + words.length) (printWords i buf words).2 more).2) := by
  induction words generalizing i buf with
  | nil => rfl
  | cons word words ih =>
      simp only [List.cons_append, printWords, ih, List.length_cons, List.append_assoc,
        Nat.add_assoc, Nat.add_comm 1]

theorem overwrite_set {offset : Nat} {char : Byte} {chars : List Byte} (inside : offset < buf.length) :
    overwrite (buf.set offset char) (offset + 1) chars = overwrite buf offset (char :: chars) := by
  have front : (buf.set offset char).take (offset + 1) = buf.take offset ++ [char] := by
    rw [List.take_add_one, List.take_set_of_le (Nat.le_refl offset),
      List.getElem?_set_self (by omega)]
    rfl
  have back : (buf.set offset char).drop (offset + 1 + chars.length) =
      buf.drop (offset + (chars.length + 1)) := by
    rw [List.drop_set_of_lt (by omega)]
    congr 1
    omega
  rw [overwrite, overwrite, front, back, List.append_assoc, List.append_assoc, List.append_assoc]
  rfl

theorem overwrite_nil (buf : List Byte) (offset : Nat) : overwrite buf offset [] = buf := by
  simp [overwrite]

theorem printWords_inner (inner : i % 16 ≠ 0) (fits : i % 16 + words.length ≤ 16)
    (room : 16 ≤ buf.length) : printWords i buf words =
      (valuePieces words, overwrite buf (i % 16) (words.map printableChar)) := by
  induction words generalizing i buf with
  | nil =>
      rw [List.map_nil, overwrite_nil]
      rfl
  | cons word words ih =>
      rw [List.length_cons] at fits
      have header : rowHeader i buf = [] := if_neg inner
      by_cases last : words = []
      · subst last
        rw [List.map_singleton, ← overwrite_set (by omega), overwrite_nil, printWords, header]
        rfl
      · have more := List.length_pos_of_ne_nil last
        have next : (i + 1) % 16 = i % 16 + 1 := by omega
        rw [printWords, ih (by omega) (by omega) (by rwa [List.length_set]), next,
          overwrite_set (by omega), header]
        rfl

theorem printWords_row (nonempty : words ≠ []) (fits : i % 16 + words.length ≤ 16)
    (room : 16 ≤ buf.length) : printWords i buf words =
      (rowHeader i buf ++ valuePieces words,
        overwrite buf (i % 16) (words.map printableChar)) := by
  by_cases aligned : i % 16 = 0
  · obtain ⟨word, rest, rfl⟩ := List.exists_cons_of_ne_nil nonempty
    rw [List.length_cons] at fits
    have next : (i + 1) % 16 = i % 16 + 1 := by omega
    rw [printWords, printWords_inner (by omega) (by omega) (by rwa [List.length_set]), next,
      overwrite_set (by omega)]
    simp only [List.append_assoc]
    rfl
  · have header : rowHeader i buf = [] := if_neg aligned
    rw [printWords_inner aligned fits room, header]
    rfl

theorem overwrite_length {row : List Word} (room : buf.length = 17)
    (fits : i % 16 + row.length ≤ 16) :
    (overwrite buf (i % 16) (row.map printableChar)).length = 17 := by
  simp only [overwrite, List.length_append, List.length_take, List.length_drop, List.length_map]
  omega

def flushed (i : Nat) (buf : List Byte) : List (List Piece) :=
  if i % 16 = 0 ∧ i ≠ 0 then [charPieces buf 17] else []

def unlines (lines : List (List Piece)) : List Piece := lines.flatMap (· ++ [.newline])

@[simp] theorem unlines_nil : unlines [] = [] := rfl

@[simp] theorem unlines_cons (line : List Piece) (lines : List (List Piece)) :
    unlines (line :: lines) = line ++ .newline :: unlines lines := by
  simp [unlines]

theorem unlines_append (lines more : List (List Piece)) :
    unlines (lines ++ more) = unlines lines ++ unlines more := List.flatMap_append

theorem rowHeader_eq (i : Nat) (buf : List Byte) :
    rowHeader i buf = unlines (flushed i buf) ++ labelPieces i := by
  by_cases aligned : i % 16 = 0
  · by_cases start : i = 0
    · subst start
      rfl
    · rw [rowHeader, if_pos aligned, if_pos start, flushed, if_pos ⟨aligned, start⟩, labelPieces,
        if_pos aligned, unlines, List.flatMap_singleton]
      rfl
  · rw [rowHeader, if_neg aligned, flushed, if_neg fun both => aligned both.1, labelPieces,
      if_neg aligned]
    rfl

theorem flushed_aligned (aligned : i % 16 = 0) (later : i ≠ 0) :
    flushed i buf = [charPieces buf 17] := if_pos ⟨aligned, later⟩

theorem padRow_aligned (aligned : i % 16 = 0) : padRow i = [] := by
  rw [padRow, if_neg (not_not_intro aligned)]

theorem dumpFrom_append (i : Nat) (buf : List Byte) (row rest : List Word) :
    dumpFrom i buf (row ++ rest) = (printWords i buf row).1 ++
      dumpFrom (i + row.length) (printWords i buf row).2 rest := by
  simp only [dumpFrom, printWords_append, List.length_append, Nat.add_assoc, List.append_assoc]

theorem dumpFrom_eq (nonempty : words ≠ []) (room : buf.length = 17) :
    dumpFrom i buf words = unlines (flushed i buf ++ layout i buf words) := by
  induction size : words.length using Nat.strongRecOn generalizing i buf words with
  | ind size ih =>
      have positive := List.length_pos_of_ne_nil nonempty
      rw [layout, if_neg nonempty]
      conv => lhs; rw [← List.take_append_drop (16 - i % 16) words]
      set row := words.take (16 - i % 16)
      set rest := words.drop (16 - i % 16)
      have rowSize : row.length = min (16 - i % 16) words.length := List.length_take
      have restSize : rest.length = words.length - (16 - i % 16) := List.length_drop
      have rowNonempty : row ≠ [] := List.ne_nil_of_length_pos (by omega)
      have fits : i % 16 + row.length ≤ 16 := by omega
      rw [dumpFrom_append, printWords_row rowNonempty fits (by omega), rowHeader_eq,
        unlines_append, unlines_cons]
      by_cases last : rest = []
      · rw [last, layout, if_pos rfl]
        simp [dumpFrom, printWords, printArrayChar]
      · have more := List.length_pos_of_ne_nil last
        have aligned : (i + row.length) % 16 = 0 := by omega
        rw [ih rest.length (by omega) last (overwrite_length room fits) rfl,
          padRow_aligned aligned, flushed_aligned aligned (by omega), unlines_append]
        simp

end Loop

section Lines

variable {i : Nat} {buf : List Byte} {words : List Word}

theorem linesShown_unlines {lines : List (List Piece)} (whole : ∀ line ∈ lines, .newline ∉ line) :
    linesShown (unlines lines) = lines.map Line.of := by
  have split : (unlines lines).splitOn .newline = lines ++ [[]] := by
    induction lines with
    | nil => rfl
    | cons line lines ih =>
        rw [unlines_cons, List.splitOn_append_cons_self_of_not_mem (whole line (by simp)),
          ih fun other member => whole other (by simp [member])]
        rfl
  rw [linesShown, split, List.dropLast_concat]

theorem newline_charPieces (buf : List Byte) (size : Nat) : .newline ∉ charPieces buf size := by
  simp only [charPieces, List.mem_map, not_exists, not_and]
  intro printable _
  unfold charPiece
  split <;> simp

theorem newline_padRow (i : Nat) : .newline ∉ padRow i := by
  fun_induction padRow i with
  | case1 i _ ih => simpa using ih
  | case2 => simp

theorem newline_valuePieces (words : List Word) : .newline ∉ valuePieces words := by
  simp only [valuePieces, List.mem_flatMap, not_exists, not_and]
  intro word _
  unfold printValue
  split <;> simp

theorem newline_labelPieces (i : Nat) : .newline ∉ labelPieces i := by
  unfold labelPieces
  split <;> simp

theorem newline_layout : ∀ line ∈ layout i buf words, .newline ∉ line := by
  fun_induction layout i buf words with
  | case1 => simp
  | case2 i buf words _ row after ih =>
      intro line member
      rcases List.mem_cons.mp member with rfl | later
      · simp [newline_labelPieces, newline_valuePieces, newline_padRow, newline_charPieces]
      · exact ih line later

theorem newline_flushed : ∀ line ∈ flushed i buf, .newline ∉ line := by
  unfold flushed
  split
  · simp [newline_charPieces]
  · simp

theorem linesShown_dumpFrom (nonempty : words ≠ []) (room : buf.length = 17) :
    linesShown (dumpFrom i buf words) = (flushed i buf ++ layout i buf words).map Line.of := by
  rw [dumpFrom_eq nonempty room, linesShown_unlines]
  intro line member
  rcases List.mem_append.mp member with first | row
  · exact newline_flushed line first
  · exact newline_layout line row

theorem line_of_append (pieces more : List Piece) : Line.of (pieces ++ more) =
    ⟨(Line.of pieces).labels ++ (Line.of more).labels,
      (Line.of pieces).words ++ (Line.of more).words,
      (Line.of pieces).chars ++ (Line.of more).chars⟩ := by
  simp [Line.of, visible]

theorem line_of_chars (chars : List Byte) :
    Line.of (chars.map charPiece) = ⟨[], [], visible chars⟩ := by
  induction chars with
  | nil => rfl
  | cons printable chars ih =>
      have single : Line.of [charPiece printable] = ⟨[], [], visible [printable]⟩ := by
        unfold charPiece
        split <;> rfl
      have joined := line_of_append [charPiece printable] (chars.map charPiece)
      rw [single, ih] at joined
      rw [List.map_cons, ← List.singleton_append, joined, visible, visible, ← List.filter_append]
      rfl

theorem line_of_charPieces (buf : List Byte) (size : Nat) :
    Line.of (charPieces buf size) = ⟨[], [], visible (buf.take size)⟩ := line_of_chars _

theorem line_of_printArrayChar (buf : List Byte) (size : Nat) :
    Line.of (printArrayChar buf size) = ⟨[], [], visible (buf.take size)⟩ := by
  have ended : Line.of [.newline] = .empty := rfl
  rw [printArrayChar, line_of_append, line_of_charPieces, ended]
  simp only [Line.empty, List.append_nil]

theorem line_of_padRow (i : Nat) : Line.of (padRow i) = .empty := by
  fun_induction padRow i with
  | case1 i _ ih => exact ih
  | case2 => rfl

theorem line_of_valuePieces (words : List Word) : Line.of (valuePieces words) = ⟨[], words, []⟩ := by
  induction words with
  | nil => rfl
  | cons word words ih =>
      have single : Line.of [printValue word, .space] = ⟨[], [word], []⟩ := by
        unfold printValue
        split <;> rfl
      have joined := line_of_append [printValue word, .space] (valuePieces words)
      rw [single, ih] at joined
      exact joined

theorem line_of_labelPieces (i : Nat) :
    Line.of (labelPieces i) = ⟨if i % 16 = 0 then [i] else [], [], []⟩ := by
  unfold labelPieces
  split <;> rfl

theorem line_of_row (i : Nat) (row : List Word) (after : List Byte) :
    Line.of (labelPieces i ++ valuePieces row ++ padRow (i + row.length) ++ charPieces after 17) =
      ⟨if i % 16 = 0 then [i] else [], row, visible (after.take 17)⟩ := by
  simp only [line_of_append, line_of_labelPieces, line_of_valuePieces, line_of_padRow,
    line_of_charPieces, Line.empty, List.append_nil, List.nil_append]

end Lines

section Rows

variable {i : Nat} {buf : List Byte} {words : List Word}

theorem printableChar_ne (word : Word) : printableChar word ≠ 0 := by
  intro zero
  simp only [printableChar] at zero
  split at zero
  · cases zero
  · rename_i printable
    rw [zero] at printable
    exact printable (.inl (by decide))

theorem visible_append (chars more : List Byte) :
    visible (chars ++ more) = visible chars ++ visible more := List.filter_append chars more

theorem visible_chars (words : List Word) :
    visible (words.map printableChar) = words.map printableChar := by
  rw [visible, List.filter_eq_self]
  intro char member
  obtain ⟨word, _, rfl⟩ := List.mem_map.mp member
  exact decide_eq_true (printableChar_ne word)

theorem overwrite_aligned (aligned : i % 16 = 0) (row : List Word) :
    overwrite buf (i % 16) (row.map printableChar) =
      row.map printableChar ++ buf.drop row.length := by
  simp [overwrite, aligned]

theorem visible_stale {row : List Word} {count : Nat} (more : List Byte)
    (fewer : count < row.length) : visible ((row.map printableChar ++ more).drop count) ≠ [] := by
  rw [List.drop_append_of_le_length (by rw [List.length_map]; omega), visible_append,
    ← List.map_drop, visible_chars]
  intro nothing
  have size := congrArg List.length (List.append_eq_nil_iff.mp nothing).1
  rw [List.length_map, List.length_drop, List.length_nil] at size
  omega

theorem line_iff (aligned : i % 16 = 0) {row : List Word} (room : buf.length = 17)
    (fits : row.length ≤ 16) :
    Line.of (labelPieces i ++ valuePieces row ++ padRow (i + row.length) ++
        charPieces (overwrite buf (i % 16) (row.map printableChar)) 17) = Row.line ⟨i, row⟩ ↔
      visible (buf.drop row.length) = [] := by
  have size := @overwrite_length i buf row room (by omega)
  rw [line_of_row, if_pos aligned, List.take_of_length_le (Nat.le_of_eq size),
    overwrite_aligned aligned, visible_append, visible_chars]
  simp [Row.line]

theorem overwrite_drop (aligned : i % 16 = 0) {row : List Word} (full : row.length = 16) :
    (overwrite buf (i % 16) (row.map printableChar)).drop 16 = buf.drop 16 := by
  have size : (row.map printableChar).length = 16 := by rw [List.length_map, full]
  rw [overwrite_aligned aligned, full]
  exact List.drop_left' size

theorem layout_iff (aligned : i % 16 = 0) (nonempty : words ≠ []) (room : buf.length = 17)
    (ended : visible (buf.drop 16) = []) :
    (layout i buf words).map Line.of = (rowsFrom i words).map Row.line ↔
      16 ∣ words.length ∨ (words.length < 16 ∧ visible (buf.drop words.length) = []) := by
  induction total : words.length using Nat.strongRecOn generalizing i buf words with
  | ind size ih =>
      have positive := List.length_pos_of_ne_nil nonempty
      have count : 16 - i % 16 = 16 := by omega
      rw [layout, rowsFrom, if_neg nonempty, if_neg nonempty]
      simp only [count, List.map_cons, List.cons.injEq]
      set row := words.take 16
      set rest := words.drop 16
      have rowSize : row.length = min 16 words.length := List.length_take
      have restSize : rest.length = words.length - 16 := List.length_drop
      rw [line_iff aligned room (by omega)]
      by_cases last : rest = []
      · have none : rest.length = 0 := by rw [last, List.length_nil]
        rw [last, layout, rowsFrom, if_pos rfl, if_pos rfl]
        by_cases short : size < 16
        · have rowLength : row.length = size := by omega
          have partly : ¬ 16 ∣ size := by omega
          simp [rowLength, short, partly]
        · have rowLength : row.length = 16 := by omega
          have whole : size = 16 := by omega
          simp [rowLength, whole, ended]
      · have more := List.length_pos_of_ne_nil last
        have full : row.length = 16 := by omega
        have kept := @overwrite_drop i buf aligned row full
        have tail := ih rest.length (by omega) (i := i + row.length) (by omega) last
          (@overwrite_length i buf row room (by omega)) (by rw [kept, ended]) rfl
        -- a partial last row would show what is left of this one
        have stale := @visible_stale row rest.length (buf.drop row.length)
        rw [← overwrite_aligned aligned] at stale
        rw [full] at tail stale ⊢
        rw [tail]
        constructor
        · rintro ⟨_, whole | ⟨short, nothing⟩⟩
          · omega
          · exact absurd nothing (stale short)
        · rintro (whole | ⟨short, _⟩)
          · exact ⟨ended, .inl (by omega)⟩
          · omega

theorem layout_nonempty : ∀ line ∈ (layout i buf words).map Line.of, line ≠ .empty := by
  fun_induction layout i buf words with
  | case1 => simp
  | case2 i buf words nonempty row after ih =>
      have rowSize : row.length = min (16 - i % 16) words.length := List.length_take
      have positive := List.length_pos_of_ne_nil nonempty
      intro line member
      rcases List.mem_cons.mp member with rfl | later
      · rw [line_of_row]
        intro empty
        have none : row.length = 0 := congrArg (fun line => line.words.length) empty
        omega
      · exact ih line later

theorem layout_unlabelled (unaligned : i % 16 ≠ 0) (nonempty : words ≠ []) :
    ∃ line lines, (layout i buf words).map Line.of = line :: lines ∧ line.labels = [] := by
  rw [layout, if_neg nonempty]
  refine ⟨_, _, rfl, ?_⟩
  rw [line_of_row, if_neg unaligned]

theorem words_of_rowHeader (i : Nat) (buf : List Byte) : (Line.of (rowHeader i buf)).words = [] := by
  unfold rowHeader
  split
  · split
    · rw [line_of_append, line_of_printArrayChar]
      rfl
    · rfl
  · rfl

theorem words_of_printWords (i : Nat) (buf : List Byte) (words : List Word) :
    (Line.of (printWords i buf words).1).words = words := by
  induction words generalizing i buf with
  | nil => rfl
  | cons word words ih =>
      have single := congrArg Line.words (line_of_valuePieces [word])
      simp only [valuePieces, List.flatMap_singleton] at single
      simp only [printWords, line_of_append, words_of_rowHeader, ih, single]
      rfl

theorem words_of_dumpFrom (i : Nat) (buf : List Byte) (words : List Word) :
    (Line.of (dumpFrom i buf words)).words = words := by
  simp only [dumpFrom, line_of_append, words_of_printWords, line_of_padRow, line_of_printArrayChar,
    Line.empty, List.append_nil]

section Zeros

theorem visible_zeros (count : Nat) : visible (zeros.drop count) = [] := by
  rw [zeros, List.drop_replicate, visible, List.filter_eq_nil_iff]
  intro char member
  rw [List.eq_of_mem_replicate member]
  decide

theorem layout_zeros (aligned : i % 16 = 0) (nonempty : words ≠ []) :
    (layout i zeros words).map Line.of = (rowsFrom i words).map Row.line ↔
      16 ∣ words.length ∨ words.length < 16 := by
  rw [layout_iff aligned nonempty rfl (visible_zeros 16)]
  simp only [visible_zeros, and_true]

theorem flushed_zeros : ∀ line ∈ (flushed i zeros).map Line.of, line = .empty := by
  unfold flushed
  split
  · rw [List.map_singleton, line_of_charPieces]
    intro line member
    rw [List.mem_singleton.mp member]
    rfl
  · simp

theorem unlabelled_ne {line : Line} {lines : List Line} (nonempty : words ≠ [])
    (unlabelled : line.labels = []) : line :: lines ≠ (rowsFrom i words).map Row.line := by
  rw [rowsFrom, if_neg nonempty]
  intro same
  have labels := congrArg Line.labels (List.cons.inj same).1
  rw [unlabelled] at labels
  cases labels

theorem linesShown_iff (nonempty : words ≠ []) :
    linesShown (dumpFrom i zeros words) = (rowsFrom i words).map Row.line ↔
      i = 0 ∧ (16 ∣ words.length ∨ words.length < 16) := by
  rw [linesShown_dumpFrom nonempty rfl, List.map_append]
  by_cases start : i = 0
  · subst start
    simpa [flushed] using layout_zeros rfl nonempty
  · refine iff_of_false ?_ fun both => start both.1
    by_cases aligned : i % 16 = 0
    · rw [flushed_aligned aligned start]
      exact unlabelled_ne nonempty (congrArg Line.labels (line_of_charPieces zeros 17))
    · rw [flushed, if_neg fun both => aligned both.1]
      obtain ⟨line, lines, first, unlabelled⟩ := @layout_unlabelled i zeros words aligned nonempty
      rw [first]
      exact unlabelled_ne nonempty unlabelled

theorem linesShown_filter (nonempty : words ≠ []) :
    (linesShown (dumpFrom i zeros words)).filter (· ≠ .empty) = (layout i zeros words).map Line.of := by
  have flushes : ((flushed i zeros).map Line.of).filter (· ≠ .empty) = [] := by
    rw [List.filter_eq_nil_iff]
    intro line member
    simp [flushed_zeros line member]
  have rows : ((layout i zeros words).map Line.of).filter (· ≠ .empty) =
      (layout i zeros words).map Line.of := by
    rw [List.filter_eq_self]
    intro line member
    exact decide_eq_true (layout_nonempty line member)
  rw [linesShown_dumpFrom nonempty rfl, List.map_append, List.filter_append, flushes, rows,
    List.nil_append]

theorem rowsShown_iff (nonempty : words ≠ []) :
    (linesShown (dumpFrom i zeros words)).filter (· ≠ .empty) = (rowsFrom i words).map Row.line ↔
      16 ∣ i ∧ (16 ∣ words.length ∨ words.length < 16) := by
  rw [linesShown_filter nonempty]
  by_cases aligned : i % 16 = 0
  · rw [layout_zeros aligned nonempty]
    exact ⟨fun last => ⟨by omega, last⟩, fun both => both.2⟩
  · refine iff_of_false ?_ (by omega)
    obtain ⟨line, lines, first, unlabelled⟩ := @layout_unlabelled i zeros words aligned nonempty
    rw [first]
    exact unlabelled_ne nonempty unlabelled

end Zeros

end Rows

section Reading

variable {vm : Vm} {words : List Word}

theorem dumpVmMemFrom_words {i count : Nat} (read : dumpVmMemFrom vm i count = .ok words) :
    words.length = count ∧ ∀ index word, words[index]? = some word →
      readMem vm (BitVec.ofNat 16 (i + index)) = .ok word := by
  induction count generalizing i words with
  | zero =>
      obtain rfl := Except.ok.inj read
      exact ⟨rfl, fun index word stored => by cases stored⟩
  | succ count ih =>
      obtain ⟨first, here, later⟩ := bind_eq_ok.mp read
      obtain ⟨rest, behind, same⟩ := bind_eq_ok.mp later
      obtain rfl := Except.ok.inj same
      obtain ⟨size, each⟩ := ih behind
      refine ⟨by rw [List.length_cons, size], ?_⟩
      intro index word stored
      cases index with
      | zero =>
          obtain rfl := Option.some.inj stored
          exact here
      | succ index =>
          rw [← Nat.add_assoc, Nat.add_right_comm]
          exact each index word stored

theorem dumpVmMem_mapped (vm : Vm) {start stop : Nat} (nonempty : start < stop)
    (mapped : stop ≤ 0x8000) :
    ∃ words, dumpVmMemFrom vm start (stop - start) = .ok words ∧ words ≠ [] ∧
      words.length = stop - start ∧ dumpVmMem vm start stop = .ok (dumpFrom start zeros words) := by
  have size : memWords = 0x8000 := by decide
  obtain ⟨words, read⟩ := dumpVmMemFrom_mapped vm (stop - start) start (by omega)
  have length := (dumpVmMemFrom_words read).1
  refine ⟨words, read, List.ne_nil_of_length_pos (by omega), length, ?_⟩
  rw [dumpVmMem, dumpLoop_eq, read, dumpFrom, length]
  rfl

end Reading

/-- A dump prints every word once and in order. Its lines are the rows with their own
characters exactly when it starts at 0 and its last row is full or its only one. But for the
empty line in front of another first row, any row boundary will do for the start. -/
theorem memory_dump (vm : Vm) (start stop : Nat) (nonempty : start < stop)
    (mapped : stop ≤ 0x8000) :
    ∃ words out, words.length = stop - start ∧
      (∀ index word, words[index]? = some word →
        readMem vm (BitVec.ofNat 16 (start + index)) = .ok word) ∧
      dumpVmMem vm start stop = .ok out ∧ out.filterMap Piece.word? = words ∧
      (linesShown out = (rowsFrom start words).map Row.line ↔
        start = 0 ∧ (16 ∣ stop ∨ stop < 16)) ∧
      ((linesShown out).filter (· ≠ .empty) = (rowsFrom start words).map Row.line ↔
        16 ∣ start ∧ (16 ∣ stop ∨ stop < start + 16)) := by
  obtain ⟨words, read, some, length, printed⟩ := dumpVmMem_mapped vm nonempty mapped
  refine ⟨words, _, length, (dumpVmMemFrom_words read).2, printed,
    words_of_dumpFrom start zeros words, ?_, ?_⟩
  · rw [linesShown_iff some, length]
    omega
  · rw [rowsShown_iff some, length]
    omega

theorem memory_dump_full : ∃ words out, dumpVmMem (Machine.boot []).vm 0 32 = .ok out ∧
    words.length = 32 ∧ linesShown out = (rowsFrom 0 words).map Row.line := by
  obtain ⟨words, out, length, _, printed, _, shown, _⟩ :=
    memory_dump (Machine.boot []).vm 0 32 (by decide) (by decide)
  exact ⟨words, out, printed, length, shown.mpr ⟨rfl, .inl ⟨2, rfl⟩⟩⟩

/-- After `m 20` the last row shows characters of the row before it, after `m 16 5` the only
row has no label, and after `m 32 16` an empty line precedes the row. -/
theorem memory_dump_fails :
    (∃ words out, dumpVmMemFrom (Machine.boot []).vm 0 20 = .ok words ∧
      dumpVmMem (Machine.boot []).vm 0 20 = .ok out ∧
      (linesShown out).filter (· ≠ .empty) ≠ (rowsFrom 0 words).map Row.line ∧
      linesShown out ≠ (rowsFrom 0 words).map Row.line) ∧
    (∃ words out, dumpVmMemFrom (Machine.boot []).vm 5 11 = .ok words ∧
      dumpVmMem (Machine.boot []).vm 5 16 = .ok out ∧
      (linesShown out).filter (· ≠ .empty) ≠ (rowsFrom 5 words).map Row.line ∧
      linesShown out ≠ (rowsFrom 5 words).map Row.line) ∧
    ∃ words out, dumpVmMemFrom (Machine.boot []).vm 16 16 = .ok words ∧
      dumpVmMem (Machine.boot []).vm 16 32 = .ok out ∧
      linesShown out ≠ (rowsFrom 16 words).map Row.line := by
  refine ⟨?_, ?_, ?_⟩
  · obtain ⟨words, read, some, length, printed⟩ :=
      @dumpVmMem_mapped (Machine.boot []).vm 0 20 (by decide) (by decide)
    refine ⟨words, _, read, printed, ?_, ?_⟩
    · rw [Ne, rowsShown_iff some, length]
      omega
    · rw [Ne, linesShown_iff some, length]
      omega
  · obtain ⟨words, read, some, length, printed⟩ :=
      @dumpVmMem_mapped (Machine.boot []).vm 5 16 (by decide) (by decide)
    refine ⟨words, _, read, printed, ?_, ?_⟩
    · rw [Ne, rowsShown_iff some]
      omega
    · rw [Ne, linesShown_iff some]
      omega
  · obtain ⟨words, read, some, length, printed⟩ :=
      @dumpVmMem_mapped (Machine.boot []).vm 16 32 (by decide) (by decide)
    refine ⟨words, _, read, printed, ?_⟩
    rw [Ne, linesShown_iff some]
    omega

end Sigma16

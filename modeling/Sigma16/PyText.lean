import Mathlib.Data.List.DropRight
import Sigma16.UnicodeData

/-!
Python's `str` methods and its `int`, on lists of characters, and what they make of
text whose tokens hold no white space.
-/

namespace PyText

open Unicode

abbrev Str := List Char

def strip (text : Str) : Str := (text.dropWhile isSpace).rdropWhile isSpace

def splitSpace (text : Str) : List Str := (text.splitOnP isSpace).filter (· ≠ [])

def upper (text : Str) : Str := text.flatMap Unicode.upper

/-- `int` reads a digit of any script as its ASCII one, and no other character beyond ASCII. -/
def toAscii (char : Char) : Char :=
  if char.toNat < 127 then char
  else if isSpace char then ' '
  else match decimalDigit char with
    | some digit => Nat.digitChar digit
    | none => '?'

def isCSpace (char : Char) : Bool := char == ' ' || (9 ≤ char.toNat && char.toNat ≤ 13)

def digitValue (base : Nat) (char : Char) : Option Nat :=
  let value :=
    if char.isDigit then char.toNat - 48
    else if char.isLower then char.toNat - 87
    else if char.isUpper then char.toNat - 55
    else base
  if value < base then some value else none

def prefixLetters : Nat → List Char
  | 16 => ['x', 'X']
  | 8 => ['o', 'O']
  | 2 => ['b', 'B']
  | _ => []

def skipPrefix (base : Nat) : Str → Str
  | '0' :: letter :: rest =>
      if letter ∈ prefixLetters base then
        if rest.head? = some '_' then rest.tail else rest
      else '0' :: letter :: rest
  | text => text

def magnitude (base : Nat) (text : Str) : Option Nat :=
  let groups := (skipPrefix base text).splitOn '_'
  if [] ∈ groups then none
  else (groups.flatten.mapM (digitValue base)).map
    (·.foldl (fun sofar digit => base * sofar + digit) 0)

/-- `int(text, base)`, with `none` for the `ValueError`. An interpreter may also be set to refuse
more than some number of digits. -/
def int (text : Str) (base : Nat) : Option Int :=
  match ((text.map toAscii).dropWhile isCSpace).rdropWhile isCSpace with
  | '+' :: digits => (magnitude base digits).map Int.ofNat
  | '-' :: digits => (magnitude base digits).map fun value => -(value : Int)
  | digits => (magnitude base digits).map Int.ofNat

def decimal : Int → Str
  | .ofNat value => Nat.toDigits 10 value
  | .negSucc value => '-' :: Nat.toDigits 10 (value + 1)

theorem mem_of_lookup {Key Val : Type} [BEq Key] [LawfulBEq Key] {entries : List (Key × Val)}
    {key : Key} {val : Val} (found : entries.lookup key = some val) : (key, val) ∈ entries := by
  obtain ⟨before, after, split, _⟩ := List.lookup_eq_some_iff.mp found
  rw [split]
  simp

section Tokens

variable {text word rest : Str}

theorem dropWhile_eq_self {p : Char → Bool} (solid : ∀ char ∈ text, p char = false) :
    text.dropWhile p = text := by
  cases text with
  | nil => rfl
  | cons first rest => exact List.dropWhile_cons_of_neg (by simp [solid first])

theorem rdropWhile_eq_self {p : Char → Bool} (solid : ∀ char ∈ text, p char = false) :
    text.rdropWhile p = text := by
  rw [List.rdropWhile_eq_self_iff]
  intro nonempty
  simp [solid _ (List.getLast_mem nonempty)]

theorem mem_splitOnP {p : Char → Bool} {chunk : Str} (member : chunk ∈ text.splitOnP p) :
    ∀ char ∈ chunk, char ∈ text ∧ p char = false := by
  induction text generalizing chunk with
  | nil =>
      obtain rfl : chunk = [] := by simpa using member
      simp
  | cons first text ih =>
      rw [List.splitOnP_cons_eq_if_modifyHead] at member
      intro char inside
      split at member
      · rcases List.mem_cons.mp member with rfl | later
        · cases inside
        · have found := ih later char inside
          exact ⟨List.mem_cons_of_mem _ found.1, found.2⟩
      · rename_i kept
        obtain ⟨head, tail, chunks⟩ := List.exists_cons_of_ne_nil (List.splitOnP_ne_nil p text)
        rw [chunks, List.modifyHead_cons, List.mem_cons] at member
        rcases member with rfl | later
        · rcases List.mem_cons.mp inside with rfl | later
          · exact ⟨by simp, by simpa using kept⟩
          · have found := ih (by rw [chunks]; simp) char later
            exact ⟨List.mem_cons_of_mem _ found.1, found.2⟩
        · have found := ih (by rw [chunks]; simp [later]) char inside
          exact ⟨List.mem_cons_of_mem _ found.1, found.2⟩

theorem not_mem_splitOn {separator : Char} {piece : Str}
    (member : piece ∈ text.splitOn separator) : separator ∉ piece := by
  intro inside
  rw [List.splitOn_eq_splitOnP] at member
  simpa using (mem_splitOnP member separator inside).2

theorem splitOn_single {separator : Char} {piece : Str} :
    text.splitOn separator = [piece] ↔ text = piece ∧ separator ∉ piece := by
  constructor
  · intro split
    have whole := @List.intercalate_splitOn _ text _ _ separator
    refine ⟨?_, not_mem_splitOn (by rw [split]; simp)⟩
    rw [← whole, split]
    simp [List.intercalate]
  · rintro ⟨rfl, apart⟩
    exact List.splitOn_eq_singleton apart

theorem splitOn_pair {separator : Char} {first second : Str} :
    text.splitOn separator = [first, second] ↔
      text = first ++ separator :: second ∧ separator ∉ first ∧ separator ∉ second := by
  constructor
  · intro split
    have whole := @List.intercalate_splitOn _ text _ _ separator
    refine ⟨?_, not_mem_splitOn (by rw [split]; simp), not_mem_splitOn (by rw [split]; simp)⟩
    rw [← whole, split]
    simp [List.intercalate]
  · rintro ⟨rfl, before, after⟩
    rw [List.splitOn_append_cons_self_of_not_mem before, List.splitOn_eq_singleton after]

theorem append_cons_cancel {separator : Char} {first second front back : Str}
    (same : first ++ separator :: second = front ++ separator :: back) (before : separator ∉ first)
    (ahead : separator ∉ front) : first = front ∧ second = back := by
  induction first generalizing front with
  | nil =>
      cases front with
      | nil => exact ⟨rfl, (List.cons.inj same).2⟩
      | cons char front =>
          obtain ⟨rfl, _⟩ := List.cons.inj same
          simp at ahead
  | cons char first ih =>
      cases front with
      | nil =>
          obtain ⟨rfl, _⟩ := List.cons.inj same
          simp at before
      | cons other front =>
          obtain ⟨rfl, rest⟩ := List.cons.inj same
          obtain ⟨rfl, rfl⟩ := ih rest (fun member => before (by simp [member]))
            (fun member => ahead (by simp [member]))
          exact ⟨rfl, rfl⟩

theorem splitSpace_blank {space : Char} (blank : isSpace space) (text : Str) :
    splitSpace (space :: text) = splitSpace text := by
  rw [splitSpace, List.splitOnP_cons_eq_if_modifyHead, if_pos blank]
  simp [splitSpace]

theorem splitSpace_append_blank {space : Char} (blank : isSpace space) (text : Str) :
    splitSpace (text ++ [space]) = splitSpace text := by
  rw [splitSpace, List.splitOnP_append_cons _ _ blank, List.splitOnP_nil, List.filter_append]
  simp [splitSpace]

theorem splitSpace_flatMap_strip {each : Char → Str}
    (kept : ∀ char, isSpace char → each char = [char]) (text : Str) :
    splitSpace ((strip text).flatMap each) = splitSpace (text.flatMap each) := by
  have front : ∀ text : Str,
      splitSpace ((text.dropWhile isSpace).flatMap each) = splitSpace (text.flatMap each) := by
    intro text
    induction text with
    | nil => rfl
    | cons char text ih =>
        by_cases blank : isSpace char
        · rw [List.dropWhile_cons_of_pos blank, ih, List.flatMap_cons, kept char blank]
          exact (splitSpace_blank blank _).symm
        · rw [List.dropWhile_cons_of_neg blank]
  have back : ∀ text : Str,
      splitSpace ((text.rdropWhile isSpace).flatMap each) = splitSpace (text.flatMap each) := by
    intro text
    induction text using List.reverseRecOn with
    | nil => rfl
    | append_singleton text char ih =>
        by_cases blank : isSpace char
        · rw [List.rdropWhile_concat_pos _ _ _ blank, ih, List.flatMap_append,
            List.flatMap_singleton, kept char blank, splitSpace_append_blank blank]
        · rw [List.rdropWhile_concat_neg _ _ _ blank]
  rw [strip, back, front]

theorem splitSpace_strip (text : Str) : splitSpace (strip text) = splitSpace text := by
  have same := splitSpace_flatMap_strip (fun char _ => rfl : ∀ char, isSpace char → [char] = [char])
    text
  rwa [List.flatMap_singleton', List.flatMap_singleton'] at same

theorem flatten_splitOnP (p : Char → Bool) (text : Str) :
    (text.splitOnP p).flatten = text.filter fun char => !p char := by
  induction text with
  | nil => rfl
  | cons char text ih =>
      obtain ⟨head, tail, chunks⟩ := List.exists_cons_of_ne_nil (List.splitOnP_ne_nil p text)
      rw [chunks] at ih
      rw [List.splitOnP_cons_eq_if_modifyHead, chunks]
      by_cases separates : p char
      · simpa [separates] using ih
      · simpa [separates] using ih

theorem flatten_splitSpace (text : Str) :
    (splitSpace text).flatten = text.filter fun char => !isSpace char := by
  rw [splitSpace, List.flatten_filter_ne_nil]
  exact flatten_splitOnP isSpace text

theorem strip_solid (solid : ∀ char ∈ text, isSpace char = false) : strip text = text := by
  rw [strip, dropWhile_eq_self solid, rdropWhile_eq_self solid]

theorem strip_head {char : Char} {rest : Str} (stripped : strip text = char :: rest) :
    isSpace char = false := by
  have front : strip text <+: text.dropWhile isSpace := List.rdropWhile_prefix _ _
  obtain ⟨later, same⟩ := front
  have first := List.head?_dropWhile_not isSpace text
  rw [← same, stripped] at first
  exact first

theorem splitSpace_solid (solid : ∀ char ∈ text, isSpace char = false) (nonempty : text ≠ []) :
    splitSpace text = [text] := by
  simp [splitSpace, List.splitOnP_eq_singleton solid, nonempty]

theorem splitSpace_word {space : Char} (solid : ∀ char ∈ word, isSpace char = false)
    (nonempty : word ≠ []) (gap : isSpace space) :
    splitSpace (word ++ space :: rest) = word :: splitSpace rest := by
  simp [splitSpace, List.splitOnP_append_cons_of_forall_mem solid space gap, nonempty]

@[simp] theorem upper_append (first second : Str) :
    upper (first ++ second) = upper first ++ upper second :=
  List.flatMap_append

theorem upper_cons {char : Char} (stable : Unicode.upper char = [char]) (text : Str) :
    upper (char :: text) = char :: upper text := by
  rw [upper, List.flatMap_cons, stable]
  rfl

theorem upper_blank {char : Char} (blank : isSpace char) : Unicode.upper char = [char] := by
  have fixed : ∀ code ∈ whiteSpace, Unicode.upper (Char.ofNat code) = [Char.ofNat code] := by
    decide +kernel
  have found := fixed char.toNat (of_decide_eq_true blank)
  rwa [Char.ofNat_toNat] at found

theorem toNat_ofNat (code : Nat) : (Char.ofNat code).toNat = code ∨ (Char.ofNat code).toNat = 0 := by
  by_cases valid : code.isValidChar
  · rw [Char.ofNat, dif_pos valid]
    exact .inl rfl
  · rw [Char.ofNat, dif_neg valid]
    exact .inr rfl

theorem upper_visible {char other : Char} (visible : isSpace char = false)
    (member : other ∈ Unicode.upper char) : isSpace other = false := by
  have ascii : ∀ code < 128, isSpace (Char.ofNat code) = false →
      isSpace (Char.ofNat code).toUpper = false := by
    decide +kernel
  have specials : ∀ entry ∈ upperSpecials, ∀ code ∈ entry.2, isSpace (Char.ofNat code) = false := by
    decide +kernel
  have runs : ∀ run ∈ upperRuns, ∀ code ∈ whiteSpace,
      (code : Int) < run.first + run.shift ∨ (run.last : Int) + run.shift < code := by
    decide +kernel
  unfold Unicode.upper at member
  split at member
  · rename_i small
    obtain rfl := List.mem_singleton.mp member
    have capital := ascii char.toNat small
    rw [Char.ofNat_toNat] at capital
    exact capital visible
  · split at member
    · rename_i codes found
      obtain ⟨code, inside, rfl⟩ := List.mem_map.mp member
      exact specials (char.toNat, codes) (mem_of_lookup found) code inside
    · split at member
      · rename_i run found
        obtain rfl := List.mem_singleton.mp member
        have listed := List.mem_of_find?_eq_some found
        have covered := List.find?_some found
        simp only [UpperRun.covers, Bool.and_eq_true, decide_eq_true_eq] at covered
        apply decide_eq_false
        intro space
        rcases toNat_ofNat (char.toNat + run.shift).toNat with same | zero
        · have apart := runs run listed _ space
          have nonzero : (Char.ofNat (char.toNat + run.shift).toNat).toNat ≠ 0 := by
            intro zero
            rw [zero] at space
            exact absurd space (by decide)
          omega
        · rw [zero] at space
          exact absurd space (by decide)
      · obtain rfl := List.mem_singleton.mp member
        exact visible

theorem upper_ne_nil (char : Char) : Unicode.upper char ≠ [] := by
  have specials : ∀ entry ∈ upperSpecials, entry.2 ≠ [] := by decide
  unfold Unicode.upper
  split
  · exact List.cons_ne_nil _ _
  · split
    · rename_i codes found
      have nonempty := specials (char.toNat, codes) (mem_of_lookup found)
      exact mt List.map_eq_nil_iff.mp nonempty
    · split <;> exact List.cons_ne_nil _ _

theorem splitSpace_upper_strip (text : Str) :
    splitSpace (upper (strip text)) = splitSpace (upper text) :=
  splitSpace_flatMap_strip (fun _ => upper_blank) text

theorem upper_eq_self (stable : ∀ char ∈ text, Unicode.upper char = [char]) : upper text = text := by
  induction text with
  | nil => rfl
  | cons char text ih =>
      rw [upper_cons (stable char (by simp)), ih fun other member => stable other (by simp [member])]

end Tokens

section Integers

theorem toAscii_of_lt {char : Char} (ascii : char.toNat < 127) : toAscii char = char :=
  if_pos ascii

theorem digit_bounds {char : Char} (digit : char.isDigit) : 48 ≤ char.toNat ∧ char.toNat ≤ 57 := by
  simpa [Char.isDigit, UInt32.le_iff_toNat_le] using digit

theorem digitValue_digit {char : Char} (digit : char.isDigit) :
    digitValue 10 char = some (char.toNat - 48) := by
  have bounds := digit_bounds digit
  simp only [digitValue, digit, if_true]
  exact if_pos (by omega)

theorem mapM_digitValue {text : Str} (digits : ∀ char ∈ text, char.isDigit) :
    text.mapM (digitValue 10) = some (text.map (·.toNat - 48)) := by
  induction text with
  | nil => rfl
  | cons char text ih =>
      have first := digitValue_digit (digits char (by simp))
      have rest := ih fun other member => digits other (by simp [member])
      simp [first, rest]

theorem mapM_isSome {each : Char → Option Nat} {text : Str} :
    (text.mapM each).isSome ↔ ∀ char ∈ text, (each char).isSome := by
  induction text with
  | nil => simp
  | cons char text ih =>
      rw [List.mapM_cons, List.forall_mem_cons, ← ih]
      cases each char <;> cases text.mapM each <;> simp

theorem skipPrefix_ten (text : Str) : skipPrefix 10 text = text := by
  unfold skipPrefix
  split <;> simp [prefixLetters]

theorem magnitude_eq_some {base : Nat} {text body : Str} {digits : List Nat}
    (unprefixed : skipPrefix base text = body) (plain : '_' ∉ body) (nonempty : body ≠ [])
    (read : body.mapM (digitValue base) = some digits) :
    magnitude base text = some (digits.foldl (fun sofar digit => base * sofar + digit) 0) := by
  simp only [magnitude, unprefixed, List.splitOn_eq_singleton plain, List.mem_singleton,
    nonempty.symm, if_false, List.flatten_singleton, read, Option.map_some]

theorem magnitude_eq_none {base : Nat} {text : Str} (char : Char)
    (unprefixed : skipPrefix base text = text) (member : char ∈ text) (other : char ≠ '_')
    (refused : digitValue base char = none) : magnitude base text = none := by
  have inside : char ∈ (text.splitOn '_').flatten := by
    rw [List.splitOn_eq_splitOnP, flatten_splitOnP, List.mem_filter]
    exact ⟨member, by simpa using other⟩
  have unread : (text.splitOn '_').flatten.mapM (digitValue base) = none := by
    rw [← Option.not_isSome_iff_eq_none, mapM_isSome]
    intro digits
    have found := digits char inside
    rw [refused] at found
    cases found
  simp only [magnitude, unprefixed, unread, Option.map_none]
  split <;> rfl

theorem magnitude_digits {text : Str} (digits : ∀ char ∈ text, char.isDigit)
    (nonempty : text ≠ []) : magnitude 10 text = some (Nat.ofDigitChars 10 text 0) := by
  have plain : '_' ∉ text := fun member => by simpa using digits _ member
  rw [magnitude_eq_some (skipPrefix_ten text) plain nonempty (mapM_digitValue digits),
    List.foldl_map, Nat.ofDigitChars_eq_foldl]
  rfl

theorem trim_solid {text : Str}
    (solid : ∀ char ∈ text, char.toNat < 127 ∧ isCSpace char = false) :
    ((text.map toAscii).dropWhile isCSpace).rdropWhile isCSpace = text := by
  have ascii : text.map toAscii = text :=
    (List.map_congr_left fun char member => toAscii_of_lt (solid char member).1).trans
      (List.map_id text)
  have dense := fun char member => (solid char member).2
  rw [ascii, dropWhile_eq_self dense, rdropWhile_eq_self dense]

theorem int_unsigned (base : Nat) {text : Str} (solid : ∀ char ∈ text,
    char.toNat < 127 ∧ isCSpace char = false ∧ char ≠ '+' ∧ char ≠ '-') :
    int text base = (magnitude base text).map Int.ofNat := by
  have trimmed := trim_solid fun char member => ⟨(solid char member).1, (solid char member).2.1⟩
  unfold int
  rw [trimmed]
  split
  · exact absurd rfl (solid '+' (by simp)).2.2.1
  · exact absurd rfl (solid '-' (by simp)).2.2.2
  · rfl

theorem digit_solid {char : Char} (digit : char.isDigit) :
    char.toNat < 127 ∧ isCSpace char = false := by
  have bounds := digit_bounds digit
  have notBlank : char ≠ ' ' := by
    rintro rfl
    simp at digit
  refine ⟨by omega, ?_⟩
  simp [isCSpace, notBlank]
  omega

theorem toDigits_isDigit {value : Nat} {char : Char} (member : char ∈ Nat.toDigits 10 value) :
    char.isDigit :=
  Nat.isDigit_of_mem_toDigits (by decide) (by decide) member

theorem decimal_solid {value : Int} {char : Char} (member : char ∈ decimal value) :
    char = '-' ∨ char.isDigit := by
  cases value with
  | ofNat value => exact .inr (toDigits_isDigit member)
  | negSucc value =>
      rcases List.mem_cons.mp member with sign | digit
      · exact .inl sign
      · exact .inr (toDigits_isDigit digit)

theorem decimal_ne_nil (value : Int) : decimal value ≠ [] := by
  cases value with
  | ofNat value => exact Nat.toDigits_ne_nil
  | negSucc value => exact List.cons_ne_nil _ _

theorem int_decimal (value : Int) : int (decimal value) 10 = some value := by
  have trimmed := @trim_solid (decimal value) fun char member => by
    rcases decimal_solid member with rfl | digit
    · decide
    · exact digit_solid digit
  have read := fun n => magnitude_digits (fun char => @toDigits_isDigit n char)
    Nat.toDigits_ne_nil
  unfold int
  rw [trimmed]
  cases value with
  | negSucc value =>
      simp only [decimal, read, Nat.ofDigitChars_ten_toDigits]
      rfl
  | ofNat value =>
      have signless : ∀ sign, sign ∈ ['+', '-'] → (Nat.toDigits 10 value).head? ≠ some sign := by
        intro sign member starts
        have digit := toDigits_isDigit (List.mem_of_mem_head? starts)
        simp only [List.mem_cons, List.not_mem_nil, or_false] at member
        rcases member with rfl | rfl <;> simp at digit
      simp only [decimal]
      split
      · rename_i digits spelled
        exact absurd (by rw [spelled]; rfl) (signless '+' (by simp))
      · rename_i digits spelled
        exact absurd (by rw [spelled]; rfl) (signless '-' (by simp))
      · rw [read, Nat.ofDigitChars_ten_toDigits]
        rfl

end Integers

end PyText

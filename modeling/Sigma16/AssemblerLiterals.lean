import Mathlib.Data.List.Basic
import Sigma16.AssemblerReferences
import Sigma16.AssemblerSyntax

/-!
The value spellings of the README, and what `parse_numeric` reads in their place: it tries
base 10 and then base 16 on text that is already in capitals.
-/

namespace Sigma16

open PyText
open Unicode (isSpace)

def digitText (digit : Nat) (capital : Bool) : Char :=
  if capital then (Nat.digitChar digit).toUpper else Nat.digitChar digit

abbrev Numeral (base : Nat) := { digits : List (Fin base × Bool) // digits ≠ [] }

namespace Numeral

variable {base : Nat}

def text (numeral : Numeral base) : Str :=
  numeral.val.map fun digit => digitText digit.1 digit.2

def readIn (radix sofar : Nat) (digits : List (Fin base × Bool)) : Nat :=
  digits.foldl (fun sofar digit => radix * sofar + digit.1) sofar

def value (numeral : Numeral base) : Nat := readIn base 0 numeral.val

end Numeral

/-- `0x<hex>`, `0b<binary>`, `0<octal>`, `<decimal>` and `'<char>'`. -/
inductive Literal where
  | decimal (value : Nat)
  | hex (capital : Bool) (digits : Numeral 16)
  | binary (capital : Bool) (digits : Numeral 2)
  | octal (digits : Numeral 8)
  | char (char : Char) (visible : isSpace char = false ∧ char ≠ ';')

namespace Literal

def text : Literal → Str
  | decimal value => PyText.decimal value
  | hex capital digits => '0' :: (if capital then 'X' else 'x') :: digits.text
  | binary capital digits => '0' :: (if capital then 'B' else 'b') :: digits.text
  | octal digits => '0' :: digits.text
  | char shown _ => [quote, shown, quote]

def value : Literal → Nat
  | decimal value => value
  | hex _ digits => digits.value
  | binary _ digits => digits.value
  | octal digits => digits.value
  | char shown _ => shown.toNat

/-- The literals whose value survives the capitals and the order of the bases. -/
def Survives : Literal → Prop
  | decimal _ | hex .. => True
  | binary .. => False
  | octal digits => digits.value < 8
  | char shown _ => Unicode.upper shown = [shown]

end Literal

def WritesData (text line : Str) : Prop :=
  ∃ lead keyword space gap trail, line = lead ++ (keyword ++ space :: (gap ++ (text ++ trail))) ∧
    Blank lead ∧ upper keyword = "DATA".toList ∧ isSpace space ∧ Blank gap ∧ Blank trail

section Lines

variable {text line trail : Str}

theorem Blank.trim (blank : Blank trail) (text : Str) : splitSpace (text ++ trail) = splitSpace text := by
  induction trail generalizing text with
  | nil => rw [List.append_nil]
  | cons space trail ih =>
      rw [List.append_cons, ih (fun char member => blank char (by simp [member])),
        splitSpace_append_blank (blank space (by simp))]

theorem upper_solid (solid : ∀ char ∈ text, isSpace char = false) :
    ∀ char ∈ upper text, isSpace char = false := by
  intro char member
  obtain ⟨source, inside, capital⟩ := List.mem_flatMap.mp member
  exact upper_visible (solid source inside) capital

theorem WritesData.splits (writes : WritesData text line)
    (visible : ∀ char ∈ text, isSpace char = false ∧ char ≠ ';') (nonempty : upper text ≠ []) :
    splitSpace (upper (verify line)) = ["DATA".toList, upper text] := by
  obtain ⟨lead, keyword, space, gap, trail, rfl, blankLead, capitals, separates, blankGap,
    blankTrail⟩ := writes
  have plain : IsPlain "DATA".toList := by decide
  have solid := upper_solid fun char member => (visible char member).1
  have notKeyword : ';' ∉ keyword := written_not_comment (by rwa [capitals])
  have notSpace : ';' ≠ space := by
    rintro rfl
    exact absurd separates (by decide)
  have notText : ';' ∉ text := fun member => (visible ';' member).2 rfl
  have uncommented : ';' ∉ lead ++ (keyword ++ space :: (gap ++ (text ++ trail))) := by
    simp [blankLead.not_comment, notKeyword, notSpace, blankGap.not_comment, notText,
      blankTrail.not_comment]
  rw [splitSpace_verify uncommented, upper_append, blankLead.upper, blankLead.split, upper_append,
    capitals, upper_cons (upper_blank separates), splitSpace_word plain.solid (by decide) separates,
    upper_append, blankGap.upper, blankGap.split, upper_append, blankTrail.upper, blankTrail.trim,
    splitSpace_solid solid nonempty]

theorem WritesData.reads (writes : WritesData text line)
    (visible : ∀ char ∈ text, isSpace char = false ∧ char ≠ ';') (nonempty : upper text ≠ [])
    (value : Int) :
    Reads line (some (.obj (.num value))) ↔ parseNumeric (upper text) = .ok value := by
  have chunks := writes.splits visible nonempty
  have solid := upper_solid fun char member => (visible char member).1
  have parsed := parseString_data chunks
  rw [strip_solid solid] at parsed
  simp only [Reads, ne_eq, verify_ne_nil chunks, not_false_eq_true, true_and, parsed]
  cases parseNumeric (upper text) with
  | error error => simp [Except.map]
  | ok found => simp [Except.map]

end Lines

def capitals {base : Nat} (digits : List (Fin base × Bool)) : Str :=
  digits.map fun digit => digitText digit.1 true

section Digits

variable {base radix : Nat} {digits : List (Fin base × Bool)}

theorem digitText_visible : ∀ digit < 16, ∀ capital,
    isSpace (digitText digit capital) = false ∧ digitText digit capital ≠ ';' ∧
      Unicode.upper (digitText digit capital) = [digitText digit true] := by
  decide

theorem digitText_solid : ∀ digit < 16, (digitText digit true).toNat < 127 ∧
    isCSpace (digitText digit true) = false ∧ digitText digit true ≠ '+' ∧
    digitText digit true ≠ '-' ∧ digitText digit true ≠ '_' := by
  decide

theorem digitText_code : ∀ digit < 16,
    (digitText digit true).isDigit = true ∧ (digitText digit true).toNat - 48 = digit ∨
    (digitText digit true).isDigit = false ∧ (digitText digit true).isLower = false ∧
      (digitText digit true).isUpper = true ∧ (digitText digit true).toNat - 55 = digit := by
  decide

theorem digitValue_digitText (radix : Nat) {digit : Nat} (small : digit < 16) :
    digitValue radix (digitText digit true) = if digit < radix then some digit else none := by
  unfold digitValue
  rcases digitText_code digit small with ⟨number, code⟩ | ⟨letter, lower, upper, code⟩
  · simp only [number, if_true, code]
  · simp only [letter, lower, upper, Bool.false_eq_true, if_false, if_true, code]

theorem mem_capitals (small : base ≤ 16) {char : Char} (member : char ∈ capitals digits) :
    ∃ digit < 16, char = digitText digit true := by
  obtain ⟨digit, _, rfl⟩ := List.mem_map.mp member
  exact ⟨digit.1, by omega, rfl⟩

theorem upper_digits (small : base ≤ 16) :
    upper (digits.map fun digit => digitText digit.1 digit.2) = capitals digits := by
  induction digits with
  | nil => rfl
  | cons digit digits ih =>
      obtain ⟨_, _, capital⟩ := digitText_visible digit.1 (by omega) digit.2
      rw [List.map_cons, PyText.upper, List.flatMap_cons, capital]
      exact congrArg (digitText digit.1 true :: ·) ih

theorem capitals_plain (small : base ≤ 16) : '_' ∉ capitals digits := by
  intro member
  obtain ⟨digit, bound, same⟩ := mem_capitals small member
  exact (digitText_solid digit bound).2.2.2.2 same.symm

theorem mapM_capitals (small : base ≤ 16) (within : base ≤ radix) :
    (capitals digits).mapM (digitValue radix) = some (digits.map fun digit => digit.1.val) := by
  induction digits with
  | nil => rfl
  | cons digit digits ih =>
      have first := digitValue_digitText radix (show digit.1.val < 16 by omega)
      rw [if_pos (by omega)] at first
      rw [capitals, List.map_cons, List.mapM_cons, first]
      simp only [capitals] at ih
      simp [ih]

theorem int_capitals (front : Str) (values : List Nat) {text : Str} (small : base ≤ 16)
    (within : base ≤ radix) (nonempty : digits ≠ [])
    (solid : ∀ char ∈ text, char.toNat < 127 ∧ isCSpace char = false ∧ char ≠ '+' ∧ char ≠ '-')
    (unprefixed : skipPrefix radix text = front ++ capitals digits)
    (read : front.mapM (digitValue radix) = some values) (plain : '_' ∉ front) :
    int text radix = some (Int.ofNat (Numeral.readIn radix
      (values.foldl (fun sofar digit => radix * sofar + digit) 0) digits)) := by
  have body : (front ++ capitals digits).mapM (digitValue radix) =
      some (values ++ digits.map fun digit => digit.1.val) := by
    rw [List.mapM_append, read, mapM_capitals small within]
    rfl
  have present : front ++ capitals digits ≠ [] := by
    simp [capitals, nonempty]
  have separated : '_' ∉ front ++ capitals digits := by
    simp [plain, capitals_plain small]
  rw [int_unsigned radix solid, magnitude_eq_some unprefixed separated present body,
    List.foldl_append, List.foldl_map]
  rfl

end Digits

section Readings

variable {text : Str} {value : Int}

theorem parseNumeric_ten (decimal : int text 10 = some value) : parseNumeric text = .ok value := by
  simp only [parseNumeric, supportedBases, List.findSome?_cons, decimal]

theorem parseNumeric_sixteen (decimal : int text 10 = none) (hex : int text 16 = some value) :
    parseNumeric text = .ok value := by
  simp only [parseNumeric, supportedBases, List.findSome?_cons, decimal, hex]

variable {base : Nat} {digits : List (Fin base × Bool)}

theorem solid_cons {front : Str} (small : base ≤ 16)
    (solid : front.Forall fun char =>
      char.toNat < 127 ∧ isCSpace char = false ∧ char ≠ '+' ∧ char ≠ '-') :
    ∀ char ∈ front ++ capitals digits,
      char.toNat < 127 ∧ isCSpace char = false ∧ char ≠ '+' ∧ char ≠ '-' := by
  intro char member
  rcases List.mem_append.mp member with first | later
  · exact List.forall_iff_forall_mem.mp solid char first
  · obtain ⟨digit, bound, rfl⟩ := mem_capitals small later
    obtain ⟨ascii, dense, notPlus, notMinus, _⟩ := digitText_solid digit bound
    exact ⟨ascii, dense, notPlus, notMinus⟩

theorem parseNumeric_hex (digits : Numeral 16) :
    parseNumeric ('0' :: 'X' :: capitals digits.val) = .ok digits.value := by
  have solid := @solid_cons 16 digits.val ['0', 'X'] (by decide) (by decide)
  apply parseNumeric_sixteen
  · have refused := magnitude_eq_none 'X' (skipPrefix_ten ('0' :: 'X' :: capitals digits.val))
      (by simp) (by decide) (by decide)
    exact (int_unsigned 10 solid).trans (congrArg _ refused)
  · refine int_capitals [] [] (by decide) (by decide) digits.property solid ?_ rfl (by simp)
    have unseparated : (capitals digits.val).head? ≠ some '_' := by
      intro separated
      exact capitals_plain (by decide) (List.mem_of_head? separated)
    exact if_neg unseparated

/-- A `B` is a hexadecimal digit. -/
theorem parseNumeric_binary (digits : Numeral 2) :
    parseNumeric ('0' :: 'B' :: capitals digits.val) = .ok (Numeral.readIn 16 11 digits.val : Nat) := by
  have solid := @solid_cons 2 digits.val ['0', 'B'] (by decide) (by decide)
  apply parseNumeric_sixteen
  · have refused := magnitude_eq_none 'B' (skipPrefix_ten ('0' :: 'B' :: capitals digits.val))
      (by simp) (by decide) (by decide)
    exact (int_unsigned 10 solid).trans (congrArg _ refused)
  · exact int_capitals ['0', 'B'] [0, 11] (by decide) (by decide)
      digits.property solid rfl rfl (by decide)

theorem parseNumeric_octal (digits : Numeral 8) :
    parseNumeric ('0' :: capitals digits.val) = .ok (Numeral.readIn 10 0 digits.val : Nat) := by
  have solid := @solid_cons 8 digits.val ['0'] (by decide) (by decide)
  apply parseNumeric_ten
  exact int_capitals ['0'] [0] (by decide) (by decide) digits.property solid
    (skipPrefix_ten _) rfl (by decide)

theorem int_quoted (base : Nat) (inner : Str) : int (quote :: (inner ++ [quote])) base = none := by
  have ascii : toAscii quote = quote := by decide
  have trimmed : (((quote :: (inner ++ [quote])).map toAscii).dropWhile isCSpace).rdropWhile isCSpace =
      quote :: (inner.map toAscii ++ [quote]) := by
    rw [List.map_cons, List.map_append, List.map_singleton, ascii,
      List.dropWhile_cons_of_neg (by decide), ← List.cons_append,
      List.rdropWhile_concat_neg _ _ _ (by decide)]
  have unread : magnitude base (quote :: (inner.map toAscii ++ [quote])) = none := by
    refine magnitude_eq_none quote ?_ (by simp) (by decide) ?_
    · unfold skipPrefix
      split
      · rename_i starts
        exact absurd (List.cons.inj starts).1 (by decide)
      · rfl
    · exact if_neg (Nat.lt_irrefl base)
  unfold int
  rw [trimmed]
  split
  · rename_i starts
    exact absurd (List.cons.inj starts).1 (by decide)
  · rename_i starts
    exact absurd (List.cons.inj starts).1 (by decide)
  · rw [unread]
    rfl

theorem parseNumeric_quoted (inner : Str) :
    parseNumeric (quote :: (inner ++ [quote])) = .ok value ↔
      ∃ char, inner = [char] ∧ value = char.toNat := by
  have found : supportedBases.findSome? (int (quote :: (inner ++ [quote]))) = none := by
    simp only [supportedBases, List.findSome?_cons, int_quoted, List.findSome?_nil]
  simp only [parseNumeric, found]
  constructor
  · intro read
    split at read
    · rename_i first char last shape
      obtain ⟨rfl, rest⟩ := List.cons.inj shape
      have ends : inner ++ [quote] = [char] ++ [last] := rest
      obtain ⟨rfl, _⟩ := List.append_inj' ends rfl
      split at read
      · exact ⟨char, rfl, (Except.ok.inj read).symm⟩
      · cases read
    · cases read
  · rintro ⟨char, rfl, rfl⟩
    exact if_pos ⟨rfl, rfl⟩

end Readings

section Values

theorem readIn_append (radix sofar : Nat) {base : Nat} (digits : List (Fin base × Bool))
    (digit : Fin base × Bool) :
    Numeral.readIn radix sofar (digits ++ [digit]) =
      radix * Numeral.readIn radix sofar digits + digit.1 := by
  rw [Numeral.readIn, List.foldl_append]
  rfl

theorem readIn_binary (digits : List (Fin 2 × Bool)) :
    Numeral.readIn 2 0 digits < Numeral.readIn 16 11 digits := by
  induction digits using List.reverseRecOn with
  | nil => decide
  | append_singleton digits digit ih =>
      rw [readIn_append, readIn_append]
      omega

theorem readIn_octal_le (digits : List (Fin 8 × Bool)) :
    Numeral.readIn 8 0 digits ≤ Numeral.readIn 10 0 digits ∧
      (Numeral.readIn 8 0 digits = 0 → Numeral.readIn 10 0 digits = 0) := by
  induction digits using List.reverseRecOn with
  | nil => decide
  | append_singleton digits digit ih =>
      rw [readIn_append, readIn_append]
      omega

theorem readIn_octal (digits : List (Fin 8 × Bool)) :
    Numeral.readIn 10 0 digits = Numeral.readIn 8 0 digits ↔ Numeral.readIn 8 0 digits < 8 := by
  induction digits using List.reverseRecOn with
  | nil => decide
  | append_singleton digits digit _ =>
      have bound := digit.1.isLt
      have larger := readIn_octal_le digits
      rw [readIn_append, readIn_append]
      omega

end Values

namespace Literal

variable {line : Str}

theorem numeral_visible {base : Nat} (small : base ≤ 16) (digits : Numeral base) {char : Char}
    (member : char ∈ digits.text) : isSpace char = false ∧ char ≠ ';' := by
  obtain ⟨digit, _, rfl⟩ := List.mem_map.mp member
  obtain ⟨visible, uncommented, _⟩ := digitText_visible digit.1 (by omega) digit.2
  exact ⟨visible, uncommented⟩

theorem visible (literal : Literal) : ∀ char ∈ literal.text, isSpace char = false ∧ char ≠ ';' := by
  have prefixed : ∀ {base : Nat} (digits : Numeral base) (front : Str), base ≤ 16 →
      (front.Forall fun char => isSpace char = false ∧ char ≠ ';') →
      ∀ char ∈ front ++ digits.text, isSpace char = false ∧ char ≠ ';' := by
    intro base digits front small solid char member
    rcases List.mem_append.mp member with first | later
    · exact List.forall_iff_forall_mem.mp solid char first
    · exact numeral_visible small digits later
  cases literal with
  | decimal value =>
      intro char member
      obtain ⟨solid, uncommented, _⟩ := (decimal_token value).1 char member
      exact ⟨solid, uncommented⟩
  | hex capital digits => cases capital <;> exact prefixed digits ['0', _] (by decide) (by decide)
  | binary capital digits =>
      cases capital <;> exact prefixed digits ['0', _] (by decide) (by decide)
  | octal digits => exact prefixed digits ['0'] (by decide) (by decide)
  | char shown seen =>
      intro char member
      rcases List.mem_cons.mp member with rfl | inner
      · decide
      · rcases List.mem_cons.mp inner with rfl | last
        · exact seen
        · obtain rfl := List.mem_singleton.mp last
          decide

theorem upper_text (literal : Literal) : upper literal.text = match literal with
    | decimal value => PyText.decimal value
    | hex _ digits => '0' :: 'X' :: capitals digits.val
    | binary _ digits => '0' :: 'B' :: capitals digits.val
    | octal digits => '0' :: capitals digits.val
    | char shown _ => quote :: (Unicode.upper shown ++ [quote]) := by
  cases literal with
  | decimal value => exact (decimal_token value).1.upper
  | hex capital digits =>
      have same : _ = capitals digits.val := upper_digits (by decide)
      cases capital <;> exact congrArg ('0' :: 'X' :: ·) same
  | binary capital digits =>
      have same : _ = capitals digits.val := upper_digits (by decide)
      cases capital <;> exact congrArg ('0' :: 'B' :: ·) same
  | octal digits => exact congrArg ('0' :: ·) (upper_digits (by decide))
  | char shown seen =>
      have fixed : Unicode.upper quote = [quote] := by decide
      simp [Literal.text, PyText.upper, fixed]

end Literal

/-- Every value spelling is read as its value, but for `0b`, for `0` in front of an octal
number from 8 on, and for a character that has another upper case. -/
theorem literal_reads (literal : Literal) {line : Str} (writes : WritesData literal.text line) :
    Reads line (some (.obj (.num literal.value))) ↔ literal.Survives := by
  have capital := literal.upper_text
  have nonempty : upper literal.text ≠ [] := by
    rw [capital]
    cases literal with
    | decimal value => exact decimal_ne_nil value
    | _ => exact List.cons_ne_nil _ _
  rw [writes.reads literal.visible nonempty, capital]
  cases literal with
  | decimal value => simp only [Literal.value, Literal.Survives, parseNumeric_decimal]
  | hex _ digits => simp only [Literal.value, Literal.Survives, parseNumeric_hex]
  | binary _ digits =>
      have larger := readIn_binary digits.val
      simp only [Literal.value, Literal.Survives, parseNumeric_binary, Except.ok.injEq, iff_false,
        Numeral.value]
      omega
  | octal digits =>
      simp only [Literal.value, Literal.Survives, parseNumeric_octal, Except.ok.injEq,
        Int.natCast_inj, Numeral.value]
      exact readIn_octal digits.val
  | char shown _ =>
      simp only [Literal.value, Literal.Survives, parseNumeric_quoted, Int.natCast_inj]
      constructor
      · rintro ⟨char, same, code⟩
        rw [same, Char.toNat_inj.mp code]
      · intro fixed
        exact ⟨shown, fixed, rfl⟩

theorem literal_reads_hex : Reads "  Data 0xfF\n".toList (some (.obj (.num 255))) := by
  have spelled : "  Data 0xfF\n".toList =
      "  ".toList ++ ("Data".toList ++ ' ' :: ([] ++ ("0xfF".toList ++ "\n".toList))) := by
    decide
  rw [spelled]
  refine (literal_reads (.hex false ⟨[(15, false), (15, true)], by decide⟩) ?_).mpr trivial
  exact ⟨_, _, _, _, _, rfl, by decide, by decide, by decide, by decide, by decide⟩

/-- `data 0b1` is read as the hexadecimal B1, and `data 'a'` as the code of `A`. -/
theorem literal_reads_binary : ¬ Reads "data 0b1".toList (some (.obj (.num 1))) ∧
    ¬ Reads "data 'a'".toList (some (.obj (.num 97))) ∧
    Reads "data 0b1".toList (some (.obj (.num 0xB1))) ∧
    Reads "data 'a'".toList (some (.obj (.num 65))) ∧
    Reads "data 010".toList (some (.obj (.num 10))) := by
  decide +kernel

end Sigma16

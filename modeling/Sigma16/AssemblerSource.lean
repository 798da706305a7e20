import Mathlib.Data.List.ReduceOption
import Sigma16.Assembler
import Sigma16.Fallible

/-!
Source text the assembler accepts: spelled registers and numbers are read back, and
hold none of the characters a line is split at.
-/

namespace Sigma16

open PyText Unicode Fallible

def registerName (register : Register) : Str := registerNames.getD register.toNat []

def IsPlain (text : Str) : Prop :=
  ∀ char ∈ text, isSpace char = false ∧ char ≠ ';' ∧ Unicode.upper char = [char]

def separators : List Char := [',', '[', ']']

def IsToken (text : Str) : Prop := IsPlain text ∧ ∀ char ∈ text, char ∉ separators

instance (text : Str) : Decidable (IsPlain text) := List.decidableBAll _ text

instance (text : Str) : Decidable (IsToken text) :=
  @instDecidableAnd _ _ _ (List.decidableBAll _ text)

section Tokens

variable {text first second name operands : Str} {separator : Char}

theorem IsPlain.append (plain : IsPlain first) (plainSecond : IsPlain second) :
    IsPlain (first ++ second) := by
  intro char member
  rcases List.mem_append.mp member with earlier | later
  · exact plain char earlier
  · exact plainSecond char later

theorem IsPlain.solid (plain : IsPlain text) : ∀ char ∈ text, isSpace char = false :=
  fun char member => (plain char member).1

theorem IsPlain.upper (plain : IsPlain text) : PyText.upper text = text :=
  upper_eq_self fun char member => (plain char member).2.2

theorem IsPlain.not_comment (plain : IsPlain text) : ';' ∉ text :=
  fun member => (plain ';' member).2.1 rfl

theorem IsToken.not_mem (token : IsToken text) (splits : separator ∈ separators) :
    separator ∉ text :=
  fun member => token.2 separator member splits

theorem IsToken.strip (token : IsToken text) : PyText.strip text = text :=
  strip_solid token.1.solid

theorem registerName_token : ∀ register, IsToken (registerName register) := by decide

theorem parseRegister_name : ∀ register, parseRegister (registerName register) = .ok register := by
  decide

theorem parseRegister_strip (register : Register) :
    parseRegister (strip (registerName register)) = .ok register := by
  rw [(registerName_token register).strip, parseRegister_name]

theorem digit_plain {char : Char} (digit : char.isDigit) :
    isSpace char = false ∧ char ≠ ';' ∧ Unicode.upper char = [char] := by
  have bounds := digit_bounds digit
  refine ⟨?_, ?_, ?_⟩
  · simp only [isSpace, whiteSpace, decide_eq_false_iff_not, List.mem_cons, List.not_mem_nil,
      or_false]
    omega
  · rintro rfl
    simp at digit
  · have notLower : ¬ ('a'.val ≤ char.val ∧ char.val ≤ 'z'.val) := by
      rintro ⟨lower, _⟩
      have code : 97 ≤ char.toNat := UInt32.le_iff_toNat_le.mp lower
      omega
    have same : char.toUpper = char := dif_neg notLower
    rw [upper_ascii (by omega), same]

theorem decimal_token (value : Int) : IsToken (decimal value) := by
  constructor
  · intro char member
    rcases decimal_solid member with rfl | digit
    · decide
    · exact digit_plain digit
  · intro char member splits
    simp only [separators, List.mem_cons, List.not_mem_nil, or_false] at splits
    rcases decimal_solid member with rfl | digit
    · simp at splits
    · rcases splits with rfl | rfl | rfl <;> simp at digit

theorem parseNumeric_decimal (value : Int) : parseNumeric (decimal value) = .ok value := by
  have found : supportedBases.findSome? (int (decimal value)) = some value := by
    simp only [supportedBases, List.findSome?_cons, int_decimal]
  simp only [parseNumeric, found]

theorem parseDisp_decimal (value : Int) : parseDisp (decimal value) = .ok (.int value) := by
  rw [parseDisp, (decimal_token value).strip, parseNumeric_decimal]

end Tokens

section Operands

theorem parseCmpInst_names (opcode : Int) (sa sb : Register) :
    parseCmpInst opcode (registerName sa ++ ',' :: registerName sb) = .ok (.rrr opcode 0 sa sb) := by
  have chunks : (registerName sa ++ ',' :: registerName sb).splitOn ',' =
      [registerName sa, registerName sb] :=
    splitOn_pair.mpr ⟨rfl, (registerName_token sa).not_mem (by decide),
      (registerName_token sb).not_mem (by decide)⟩
  simp only [parseCmpInst, parseRegisters, chunks, List.mapM_cons, List.mapM_nil,
    parseRegister_strip, bind, Except.bind, pure, Except.pure]

theorem parseRegister_decimal (value : Int) :
    ∃ error, parseRegister (decimal value) = .error error := by
  have letters : ∀ name ∈ registerNames, 'R' ∈ name := by decide
  have unknown : registerNames.idxOf? (decimal value) = none := by
    rw [List.idxOf?_eq_none_iff]
    intro member
    rcases decimal_solid (letters _ member) with sign | digit
    · exact absurd sign (by decide)
    · exact absurd digit (by decide)
  exact ⟨_, by rw [parseRegister, unknown]⟩

theorem parseMovInst_decimal (d : Register) (value : Int) :
    parseMovInst (registerName d ++ ',' :: decimal value) = .ok (.rx 0 (.reg d) 0 (.int value)) := by
  have chunks : (registerName d ++ ',' :: decimal value).splitOn ',' =
      [registerName d, decimal value] :=
    splitOn_pair.mpr ⟨rfl, (registerName_token d).not_mem (by decide),
      (decimal_token value).not_mem (by decide)⟩
  have dest : parseRegOrNumeric (strip (registerName d)) = .ok (.reg d) := by
    rw [parseRegOrNumeric, parseRegister_strip]
  have source : parseRegOrNumeric (strip (decimal value)) = .ok (.num value) := by
    obtain ⟨error, unknown⟩ := parseRegister_decimal value
    rw [parseRegOrNumeric, (decimal_token value).strip, unknown, parseNumeric_decimal]
    rfl
  simp only [parseMovInst, chunks, List.mapM_cons, List.mapM_nil, dest, source, bind, Except.bind,
    pure, Except.pure]

def indexed (disp : Str) (sa : Register) : Str := disp ++ '[' :: (registerName sa ++ [']'])

theorem indexed_plain {disp : Str} (token : IsToken disp) (sa : Register) :
    IsPlain (indexed disp sa) := by
  have opening : IsPlain ['['] := by decide
  have closing : IsPlain [']'] := by decide
  exact token.1.append (opening.append ((registerName_token sa).1.append closing))

theorem indexed_comma {disp : Str} (plain : ',' ∉ disp) (sa : Register) :
    ',' ∉ indexed disp sa := by
  have name := (registerName_token sa).not_mem (show ',' ∈ separators by decide)
  simp [indexed, name, plain]

theorem indexed_decimal (disp : Int) (sa : Register) : ',' ∉ indexed (decimal disp) sa :=
  indexed_comma ((decimal_token disp).not_mem (by decide)) sa

theorem parseRxOperand_indexed (opcode : Int) (d sa : Register) (disp : Int) :
    parseRxOperand opcode d (indexed (decimal disp) sa) = .ok (.rx opcode (.reg d) sa (.int disp)) := by
  have opened : (indexed (decimal disp) sa).splitOn '[' =
      [decimal disp, registerName sa ++ [']']] := by
    have closing : '[' ∉ registerName sa ++ [']'] := by
      simp [(registerName_token sa).not_mem (show '[' ∈ separators by decide)]
    exact splitOn_pair.mpr ⟨rfl, (decimal_token disp).not_mem (by decide), closing⟩
  have closed : ((registerName sa ++ [']']).splitOn ']').headD [] = registerName sa := by
    rw [List.splitOn_append_cons_self_of_not_mem ((registerName_token sa).not_mem (by decide))]
    rfl
  simp only [parseRxOperand, opened, closed, parseDisp_decimal, parseRegister_strip, bind,
    Except.bind, pure, Except.pure]

end Operands

def parseOperands : InstType → Int → Str → Except PyError Obj
  | .pseudo => parsePseudoInstruction
  | .rrr => parseRrrInstruction
  | .rx => parseRxInstruction

section Lines

variable {name written operands line : Str}

theorem listed_plain {opcode : Int} {type : InstType}
    (listed : instructions.lookup name = some (opcode, type)) : IsPlain name ∧ name ≠ [] := by
  have entries : ∀ entry ∈ instructions, IsPlain entry.1 ∧ entry.1 ≠ [] := by decide
  exact entries (name, opcode, type) (mem_of_lookup listed)

theorem parseString_listed {string : Str} {chunks : List Str} {opcode : Int} {type : InstType}
    (split : splitSpace string = name :: chunks)
    (listed : instructions.lookup name = some (opcode, type)) :
    parseString string = (parseOperands type opcode chunks.flatten).map .obj := by
  have notData : name ≠ "DATA".toList := by
    rintro rfl
    have unlisted : instructions.lookup "DATA".toList = none := by decide
    cases unlisted.symm.trans listed
  simp only [parseString, splitSpace_strip, split, notData, if_false, listed, Option.isSome_some,
    if_true, parseInstruction]
  cases type <;> rfl

theorem parseString_line {opcode : Int} {type : InstType} (plainOperands : IsPlain operands)
    (nonempty : operands ≠ []) (listed : instructions.lookup name = some (opcode, type)) :
    parseString (name ++ ' ' :: operands) = (parseOperands type opcode operands).map .obj := by
  obtain ⟨plain, nonemptyName⟩ := listed_plain listed
  have chunks : splitSpace (name ++ ' ' :: operands) = [name, operands] := by
    rw [splitSpace_word plain.solid nonemptyName (by decide),
      splitSpace_solid plainOperands.solid nonempty]
  rw [parseString_listed chunks listed, List.flatten_singleton]

theorem verify_strip (plain : ';' ∉ strip line) : verify line = strip line := by
  rw [verify, List.splitOn_eq_singleton plain]
  split
  · rename_i blank
    exact blank.symm
  · rfl

theorem rdropWhile_comment (front text : Str) :
    ∃ rest, (front ++ ';' :: text).rdropWhile isSpace = front ++ ';' :: rest := by
  induction text using List.reverseRecOn with
  | nil => exact ⟨[], List.rdropWhile_concat_neg _ _ _ (by decide)⟩
  | append_singleton text char ih =>
      rw [← List.cons_append, ← List.append_assoc, List.rdropWhile_concat]
      split
      · exact ih
      · exact ⟨text ++ [char], by simp⟩

theorem verify_comment {front text : Str} (uncommented : ';' ∉ front) :
    verify (front ++ ';' :: text) = front.dropWhile isSpace := by
  have left : (front ++ ';' :: text).dropWhile isSpace = front.dropWhile isSpace ++ ';' :: text := by
    rw [List.dropWhile_append]
    split
    · rename_i empty
      rw [List.dropWhile_cons_of_neg (by decide), List.isEmpty_iff.mp empty, List.nil_append]
    · rfl
  obtain ⟨rest, right⟩ := rdropWhile_comment (front.dropWhile isSpace) text
  have clean : ';' ∉ front.dropWhile isSpace := fun member =>
    uncommented ((List.dropWhile_sublist isSpace).mem member)
  rw [verify, strip, left, right, if_neg (by simp),
    List.splitOn_append_cons_self_of_not_mem clean]
  rfl

theorem verify_prefix (line : Str) : verify line <+: strip line := by
  by_cases comment : ';' ∈ strip line
  · obtain ⟨before, after, split, uncommented⟩ := List.eq_append_cons_of_mem comment
    have nonempty : strip line ≠ [] := by
      rw [split]
      simp
    rw [verify, if_neg nonempty, split, List.splitOn_append_cons_self_of_not_mem uncommented]
    exact List.prefix_append _ _
  · exact ⟨[], by rw [List.append_nil, verify_strip comment]⟩

theorem splitSpace_content (content : verify line ≠ []) :
    splitSpace (upper (verify line)) ≠ [] := by
  intro empty
  obtain ⟨char, rest, shape⟩ := List.exists_cons_of_ne_nil content
  obtain ⟨later, stripped⟩ := verify_prefix line
  rw [shape] at stripped
  have visible := strip_head stripped.symm
  obtain ⟨capital, more, capitals⟩ := List.exists_cons_of_ne_nil (upper_ne_nil char)
  have first : capital ∈ Unicode.upper char := by simp [capitals]
  have kept := flatten_splitSpace (upper (verify line))
  have member : capital ∈ (upper (verify line)).filter fun char => !isSpace char := by
    rw [List.mem_filter, upper_visible visible first, shape, PyText.upper, List.flatMap_cons]
    exact ⟨List.mem_append_left _ first, rfl⟩
  rw [← kept, empty] at member
  cases member

theorem splitSpace_verify (uncommented : ';' ∉ line) :
    splitSpace (upper (verify line)) = splitSpace (upper line) := by
  rw [verify_strip, splitSpace_upper_strip]
  intro member
  apply uncommented
  exact (List.dropWhile_sublist _).mem ((List.rdropWhile_prefix _ _).sublist.mem member)

theorem verify_ne_nil {chunk : Str} {chunks : List Str}
    (split : splitSpace (upper (verify line)) = chunk :: chunks) : verify line ≠ [] := by
  intro blank
  rw [blank] at split
  cases split

theorem parseString_data {string value : Str} {rest : List Str}
    (split : splitSpace string = "DATA".toList :: value :: rest) :
    parseString string = (parseNumeric (strip value)).map (.obj ∘ .num) := by
  have keyword : strip "DATA".toList = "DATA".toList := by decide
  simp only [parseString, splitSpace_strip, split, if_true, parseDataKw, keyword, ne_eq,
    not_true_eq_false, if_false]
  cases parseNumeric (strip value) <;> rfl

theorem parseString_data_alone {string : Str} (split : splitSpace string = ["DATA".toList]) :
    parseString string = .error .indexError := by
  have keyword : strip "DATA".toList = "DATA".toList := by decide
  simp only [parseString, splitSpace_strip, split, if_true, parseDataKw, keyword, ne_eq,
    not_true_eq_false, if_false]
  rfl

theorem parseString_unlisted {string : Str} {chunks : List Str}
    (split : splitSpace string = name :: chunks) (named : name ≠ "DATA".toList)
    (unlisted : instructions.lookup name = none) :
    parseString string = (parseLabel string).map .label := by
  simp only [parseString, splitSpace_strip, split, named, if_false, unlisted, Option.isSome_none,
    Bool.false_eq_true]

theorem parseString_eq_ok {string : Str} {found : Parsed} (parsed : parseString string = .ok found) :
    (∃ value chunks number, splitSpace string = "DATA".toList :: value :: chunks ∧
      parseNumeric (strip value) = .ok number ∧ found = .obj (.num number)) ∨
    (∃ name chunks opcode type obj, splitSpace string = name :: chunks ∧
      instructions.lookup name = some (opcode, type) ∧
      parseOperands type opcode chunks.flatten = .ok obj ∧ found = .obj obj) ∨
    ∃ label, parseLabel string = .ok label ∧ found = .label label := by
  cases split : splitSpace string with
  | nil =>
      simp only [parseString, splitSpace_strip, split] at parsed
      cases parsed
  | cons name chunks =>
      by_cases named : name = "DATA".toList
      · subst named
        cases chunks with
        | nil => cases (parseString_data_alone split).symm.trans parsed
        | cons value chunks =>
            rw [parseString_data split] at parsed
            obtain ⟨number, read, rfl⟩ := map_eq_ok.mp parsed
            exact .inl ⟨value, chunks, number, rfl, read, rfl⟩
      · cases listed : instructions.lookup name with
        | none =>
            rw [parseString_unlisted split named listed] at parsed
            obtain ⟨label, read, rfl⟩ := map_eq_ok.mp parsed
            exact .inr (.inr ⟨label, read, rfl⟩)
        | some entry =>
            rw [parseString_listed split listed] at parsed
            obtain ⟨obj, built, rfl⟩ := map_eq_ok.mp parsed
            exact .inr (.inl ⟨name, chunks, entry.1, entry.2, obj, rfl, listed, built, rfl⟩)

theorem parseLine_inst {state : ParseState} {number : Nat} {obj : Obj}
    (spelled : strip line = written ++ ' ' :: operands) (capitals : upper written = name)
    (uncommented : ';' ∉ written) (plain : IsPlain operands)
    (parsed : parseString (name ++ ' ' :: operands) = .ok (.obj obj)) :
    parseLine state (line, number) = .ok { state with
      linker.objs := state.linker.objs ++ [obj]
      parsedObjects := state.parsedObjects + 1 } := by
  have whole : ';' ∉ strip line := by
    rw [spelled]
    simp [uncommented, plain.not_comment]
  have capital : upper (strip line) = name ++ ' ' :: operands := by
    rw [spelled, upper_append, upper_cons (by decide), capitals, plain.upper]
  have nonempty : strip line ≠ [] := by
    rw [spelled]
    simp
  rw [parseLine, verify_strip whole, if_neg nonempty, capital, parsed]
  rfl

end Lines

section Files

/-- What a line is read as: nothing when it is blank, or what `parse_string` accepts. -/
def Reads (line : Str) (parsed : Option Parsed) : Prop :=
  match parsed with
  | none => verify line = []
  | some parsed => verify line ≠ [] ∧ parseString (upper (verify line)) = .ok parsed

instance (line : Str) (parsed : Option Parsed) : Decidable (Reads line parsed) :=
  match parsed with
  | none => inferInstanceAs (Decidable (verify line = []))
  | some parsed => inferInstanceAs
      (Decidable (verify line ≠ [] ∧ parseString (upper (verify line)) = .ok parsed))

theorem foldlM_reads {lines : List Str} {parsed : List (Option Parsed)}
    (read : List.Forall₂ Reads lines parsed) (state : ParseState) (number : Nat) :
    (lines.zipIdx number).foldlM parseLine state = parsed.reduceOption.foldlM addParsed state := by
  induction read generalizing state number with
  | nil => rfl
  | @cons line found lines parsed first _ ih =>
      rw [List.zipIdx_cons, List.foldlM_cons]
      cases found with
      | none =>
          have blank : parseLine state (line, number) = .ok state := if_pos first
          rw [blank, List.reduceOption_cons_of_none]
          exact ih state (number + 1)
      | some found =>
          obtain ⟨content, accepted⟩ := first
          have added : parseLine state (line, number) = addParsed state found := by
            rw [parseLine, if_neg content, accepted]
          rw [added, List.reduceOption_cons_of_some, List.foldlM_cons]
          exact bind_congr fun next => ih next (number + 1)

theorem parseLines_reads {lines : List Str} {parsed : List (Option Parsed)}
    (read : List.Forall₂ Reads lines parsed) :
    parseLines lines = parsed.reduceOption.foldlM addParsed .init :=
  foldlM_reads read .init 0

end Files

end Sigma16

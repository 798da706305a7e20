import Sigma16.AssemblerMain
import Sigma16.AssemblerSource

/-!
References to labels. An operand is tried as a number before it is taken for a label,
so the names that spell a hexadecimal number cannot be referred to.
-/

namespace Sigma16

open PyText Fallible
open Unicode (isSpace whiteSpace)

def rxOperand (opcode : Int) (string : Str) : Str :=
  if (implicitDest.lookup opcode).isSome then (string.splitOn ',').headD []
  else (string.splitOn ',').tail.flatten

def Refers (line : Str) (name : Identifier) : Prop :=
  ∃ mnemonic operands opcode sa, splitSpace (upper (verify line)) = mnemonic :: operands ∧
    instructions.lookup mnemonic = some (opcode, .rx) ∧
    (rxOperand opcode operands.flatten).splitOn '[' = [name, sa]

def isHexLetter (char : Char) : Bool :=
  ('A' ≤ char && char ≤ 'F') || ('a' ≤ char && char ≤ 'f')

/-- The letters A to F in groups, with single underscores between them. -/
def HexLiteral (name : Identifier) : Prop :=
  ∀ group ∈ name.splitOn '_', group ≠ [] ∧ ∀ char ∈ group, isHexLetter char

instance (name : Identifier) : Decidable (HexLiteral name) :=
  @List.decidableBAll _ _ (fun group => @instDecidableAnd _ _ _ (List.decidableBAll _ group)) _

/-- The object at `index` was read as a reference to `name`, and linked to its code offset. -/
def Resolves (state : ParseState) (linked : Linker) (index : Nat) (name : Identifier) : Prop :=
  ∃ opcode d sa body, state.linker.objs[index]? = some (.rx opcode d sa (.ident name)) ∧
    linked.labels.lookup name = some body ∧
    linked.objs[index]? = some (.rx opcode d sa (.int body.codeOffset))

section Letters

variable {char : Char} {base : Nat}

theorem isUpper_iff : char.isUpper ↔ 65 ≤ char.toNat ∧ char.toNat ≤ 90 :=
  decide_eq_true_iff.trans (and_congr UInt32.le_iff_toNat_le UInt32.le_iff_toNat_le)

theorem isLower_iff : char.isLower ↔ 97 ≤ char.toNat ∧ char.toNat ≤ 122 := by
  change (decide _ && decide _) = true ↔ _
  rw [Bool.and_eq_true, decide_eq_true_iff, decide_eq_true_iff]
  exact and_congr UInt32.le_iff_toNat_le UInt32.le_iff_toNat_le

theorem letter_bounds (letter : char.isAlpha || char == '_') :
    65 ≤ char.toNat ∧ char.toNat ≤ 90 ∨ char.toNat = 95 ∨ 97 ≤ char.toNat ∧ char.toNat ≤ 122 := by
  change ((char.isUpper || char.isLower) || char == '_') = true at letter
  simp only [Bool.or_eq_true, isUpper_iff, isLower_iff, beq_iff_eq] at letter
  rcases letter with (upper | lower) | rfl
  · exact .inl upper
  · exact .inr (.inr lower)
  · exact .inr (.inl rfl)

theorem isHexLetter_iff : isHexLetter char = true ↔
    65 ≤ char.toNat ∧ char.toNat ≤ 70 ∨ 97 ≤ char.toNat ∧ char.toNat ≤ 102 := by
  simp only [isHexLetter, Bool.or_eq_true, Bool.and_eq_true, decide_eq_true_eq, Char.le_def,
    UInt32.le_iff_toNat_le]
  rfl

theorem digitValue_letter (letter : char.isAlpha || char == '_') :
    digitValue base char =
      if char.toNat ≤ 90 then if char.toNat < base + 55 then some (char.toNat - 55) else none
      else if 97 ≤ char.toNat ∧ char.toNat < base + 87 then some (char.toNat - 87) else none := by
  have bounds := letter_bounds letter
  have notDigit : ¬ char.isDigit := fun digit => by
    have := digit_bounds digit
    omega
  simp only [digitValue, notDigit, Bool.false_eq_true, if_false, isLower_iff, isUpper_iff]
  split_ifs <;> first | rfl | omega

theorem digitValue_small (letter : char.isAlpha || char == '_') (small : base ≤ 10) :
    digitValue base char = none := by
  have bounds := letter_bounds letter
  rw [digitValue_letter letter]
  split_ifs <;> first | rfl | omega

theorem digitValue_hex (letter : char.isAlpha || char == '_') :
    (digitValue 16 char).isSome ↔ isHexLetter char = true := by
  have bounds := letter_bounds letter
  rw [digitValue_letter letter, isHexLetter_iff]
  split_ifs <;> simp only [Option.isSome_some, Option.isSome_none, Bool.false_eq_true, true_iff,
    false_iff] <;> omega

theorem letter_solid (letter : char.isAlpha || char == '_') :
    char.toNat < 127 ∧ isCSpace char = false ∧ char ≠ '+' ∧ char ≠ '-' ∧ char ≠ '0' ∧
      isSpace char = false := by
  have bounds := letter_bounds letter
  have apart : ∀ other : Char, other.toNat < 65 → char ≠ other := by
    rintro other low rfl
    omega
  refine ⟨by omega, ?_, apart _ (by decide), apart _ (by decide), apart _ (by decide), ?_⟩
  · simp [isCSpace, apart ' ' (by decide)]
    omega
  · simp only [isSpace, whiteSpace, decide_eq_false_iff_not, List.mem_cons, List.not_mem_nil,
      or_false]
    omega

end Letters

section Numbers

variable {name : Identifier} {base : Nat}

theorem int_letters (base : Nat) (legal : isLegalLabelRef name) :
    int name base = (magnitude base name).map Int.ofNat ∧ skipPrefix base name = name := by
  have solid := fun char member => letter_solid (List.all_eq_true.mp legal char member)
  constructor
  · apply int_unsigned base
    intro char member
    obtain ⟨ascii, dense, notPlus, notMinus, _⟩ := solid char member
    exact ⟨ascii, dense, notPlus, notMinus⟩
  · unfold skipPrefix
    split
    · exact absurd rfl (solid '0' (by simp)).2.2.2.2.1
    · rfl

theorem int_isSome (legal : isLegalLabelRef name) : (int name base).isSome ↔
    ∀ group ∈ name.splitOn '_', group ≠ [] ∧ ∀ char ∈ group, (digitValue base char).isSome := by
  obtain ⟨unsigned, unprefixed⟩ := int_letters base legal
  rw [unsigned, Option.isSome_map, magnitude, unprefixed]
  split
  · rename_i empty
    simp only [Option.isSome_none, Bool.false_eq_true, false_iff]
    exact fun groups => (groups [] empty).1 rfl
  · rename_i nonempty
    rw [Option.isSome_map, mapM_isSome]
    constructor
    · intro digits group member
      refine ⟨?_, fun char inside => digits char (List.mem_flatten.mpr ⟨group, member, inside⟩)⟩
      rintro rfl
      exact nonempty member
    · intro groups char member
      obtain ⟨group, within, inside⟩ := List.mem_flatten.mp member
      exact (groups group within).2 char inside

theorem int_small (legal : isLegalLabelRef name) (small : base ≤ 10) : int name base = none := by
  rw [← Option.not_isSome_iff_eq_none, int_isSome legal]
  intro groups
  obtain ⟨group, rest, chunks⟩ := List.exists_cons_of_ne_nil (List.splitOn_ne_nil '_' name)
  have member : group ∈ name.splitOn '_' := by simp [chunks]
  obtain ⟨nonempty, digits⟩ := groups group member
  obtain ⟨char, tail, rfl⟩ := List.exists_cons_of_ne_nil nonempty
  rw [List.splitOn_eq_splitOnP] at member
  have letter := List.all_eq_true.mp legal char (mem_splitOnP member char (by simp)).1
  have refused := digits char (by simp)
  rw [digitValue_small letter small] at refused
  cases refused

theorem int_hexLiteral (legal : isLegalLabelRef name) :
    (int name 16).isSome ↔ HexLiteral name := by
  rw [int_isSome legal, HexLiteral]
  refine forall₂_congr fun group member => and_congr_right fun _ => forall₂_congr fun char inside => ?_
  rw [List.splitOn_eq_splitOnP] at member
  exact digitValue_hex (List.all_eq_true.mp legal char (mem_splitOnP member char inside).1)

theorem parseNumeric_letters (legal : isLegalLabelRef name) :
    (∃ value, int name 16 = some value ∧ parseNumeric name = .ok value ∧ HexLiteral name) ∨
      (∃ error, parseNumeric name = .error error) ∧ ¬ HexLiteral name := by
  have decimal : int name 10 = none := int_small legal (by decide)
  have binary : int name 2 = none := int_small legal (by decide)
  have octal : int name 8 = none := int_small legal (by decide)
  cases hex : int name 16 with
  | some value =>
      refine .inl ⟨value, rfl, ?_, (int_hexLiteral legal).mp (by rw [hex]; rfl)⟩
      simp only [parseNumeric, supportedBases, List.findSome?_cons, decimal, hex]
  | none =>
      refine .inr ⟨?_, fun literal => ?_⟩
      · have unquoted : quote ∉ name := fun member =>
          absurd (letter_bounds (List.all_eq_true.mp legal quote member)) (by decide)
        have found : supportedBases.findSome? (int name) = none := by
          simp only [supportedBases, List.findSome?_cons, decimal, hex, binary, octal,
            List.findSome?_nil]
        simp only [parseNumeric, found]
        split
        · rename_i first char last
          have other : first ≠ quote := fun same => unquoted (by simp [same])
          exact ⟨_, if_neg fun both => other both.1⟩
        · exact ⟨_, rfl⟩
      · have found := (int_hexLiteral legal).mpr literal
        rw [hex] at found
        cases found

/-- A name that spells a hexadecimal number is never taken for a label. -/
theorem parseDisp_letters (legal : isLegalLabelRef name) :
    (HexLiteral name ∧ ∃ value, int name 16 = some value ∧ parseDisp name = .ok (.int value)) ∨
      (¬ HexLiteral name ∧ parseDisp name = .ok (.ident name)) := by
  have dense : strip name = name :=
    strip_solid fun char member =>
      (letter_solid (List.all_eq_true.mp legal char member)).2.2.2.2.2
  rcases parseNumeric_letters legal with ⟨value, hex, read, literal⟩ | ⟨⟨error, refused⟩, other⟩
  · exact .inl ⟨literal, value, hex, by simp only [parseDisp, dense, read]⟩
  · exact .inr ⟨other, by simp only [parseDisp, dense, refused, legal, if_true]⟩

end Numbers

section Lines

variable {line : Str} {name : Identifier} {lines before after : List Str}
variable {state earlier : ParseState} {linked : Linker}

theorem parseLabel_legal {string : Str} (parsed : parseLabel string = .ok name) :
    isLegalLabelRef name := by
  unfold parseLabel at parsed
  split at parsed
  · cases parsed
  · split at parsed
    · cases parsed
    · split at parsed
      · cases parsed
      · split at parsed
        · rename_i legal
          obtain rfl := Except.ok.inj parsed
          exact legal
        · cases parsed

theorem Defines.legal (defines : Defines line name) : isLegalLabelRef name := by
  rcases parseString_eq_ok defines.2 with ⟨_, _, _, _, _, other⟩ | ⟨_, _, _, _, _, _, _, _, other⟩ |
    ⟨label, read, same⟩
  · cases other
  · cases other
  · obtain rfl := Parsed.label.inj same
    exact parseLabel_legal read

theorem parseRxOperand_eq_ok {opcode : Int} {d : Register} {string : Str} {obj : Obj}
    (parsed : parseRxOperand opcode d string = .ok obj) :
    ∃ disp sa parsedDisp register, string.splitOn '[' = [disp, sa] ∧
      parseDisp disp = .ok parsedDisp ∧
      parseRegister (strip ((sa.splitOn ']').headD [])) = .ok register ∧
      obj = .rx opcode (.reg d) register parsedDisp := by
  unfold parseRxOperand at parsed
  split at parsed
  · rename_i disp sa opened
    obtain ⟨parsedDisp, read, rest⟩ := bind_eq_ok.mp parsed
    obtain ⟨register, named, built⟩ := bind_eq_ok.mp rest
    exact ⟨disp, sa, parsedDisp, register, opened, read, named, (Except.ok.inj built).symm⟩
  · cases parsed

theorem parseRxInstruction_eq_ok {opcode : Int} {string : Str} {obj : Obj}
    (parsed : parseRxInstruction opcode string = .ok obj) :
    ∃ op d, parseRxOperand op d (rxOperand opcode string) = .ok obj ∧
      (implicitDest.lookup opcode = some (op, d) ∨ implicitDest.lookup opcode = none ∧ op = opcode ∧
        parseRegister (strip ((string.splitOn ',').headD [])) = .ok d) := by
  unfold parseRxInstruction at parsed
  unfold rxOperand
  cases implicit : implicitDest.lookup opcode with
  | some dest =>
      rw [implicit] at parsed
      exact ⟨dest.1, dest.2, parsed, .inl rfl⟩
  | none =>
      rw [implicit] at parsed
      obtain ⟨d, named, rest⟩ := bind_eq_ok.mp parsed
      exact ⟨opcode, d, rest, .inr ⟨rfl, rfl, named⟩⟩

theorem Refers.parses {found : Parsed} (refers : Refers line name)
    (parsed : parseString (upper (verify line)) = .ok found) :
    ∃ opcode d sa disp, parseDisp name = .ok disp ∧ found = .obj (.rx opcode (.reg d) sa disp) := by
  obtain ⟨mnemonic, operands, opcode, sa, chunks, listed, opened⟩ := refers
  rw [parseString_listed chunks listed] at parsed
  obtain ⟨obj, read, rfl⟩ := map_eq_ok.mp parsed
  obtain ⟨op, d, built, _⟩ := parseRxInstruction_eq_ok read
  obtain ⟨spelling, base, disp, register, split, spelled, _, rfl⟩ := parseRxOperand_eq_ok built
  obtain ⟨rfl, _⟩ := List.cons.inj (opened.symm.trans split)
  exact ⟨op, d, register, disp, spelled, rfl⟩

theorem Refers.content (refers : Refers line name) : verify line ≠ [] := by
  intro blank
  obtain ⟨mnemonic, operands, _, _, chunks, _⟩ := refers
  rw [blank] at chunks
  have empty : splitSpace (upper []) = [] := rfl
  cases empty.symm.trans chunks

theorem parseLines_object_at {obj : Obj} (parsed : parseLines (before ++ line :: after) = .ok state)
    (prior : parseLines before = .ok earlier) (reads : Reads line (some (.obj obj))) :
    state.linker.objs[earlier.linker.objs.length]? = some obj := by
  obtain ⟨content, read⟩ := reads
  obtain ⟨earlier', middle, prior', taken, extended⟩ := parseLines_split parsed
  obtain rfl := Except.ok.inj (prior.symm.trans prior')
  simp only [parseLine, content, if_false, read] at taken
  obtain rfl := Except.ok.inj taken
  obtain ⟨rest, same⟩ := extended.objs
  rw [← same]
  simp

theorem Refers.object (refers : Refers line name)
    (parsed : parseLines (before ++ line :: after) = .ok state) (accepted : state.errors = [])
    (prior : parseLines before = .ok earlier) :
    ∃ opcode d sa disp, parseDisp name = .ok disp ∧
      state.linker.objs[earlier.linker.objs.length]? = some (.rx opcode (.reg d) sa disp) := by
  have sound := (parseLines_errors parsed).mp accepted line (by simp)
  obtain ⟨_, _, _, taken, _⟩ := parseLines_split parsed
  simp only [parseLine, refers.content, if_false] at taken
  split at taken
  · rename_i found read
    obtain ⟨opcode, d, sa, disp, spelled, rfl⟩ := refers.parses read
    exact ⟨opcode, d, sa, disp, spelled, parseLines_object_at parsed prior ⟨refers.content, read⟩⟩
  · rename_i reason failed
    exact absurd ⟨refers.content, reason, failed⟩ sound
  · cases taken

/-- In an assembled source a reference resolves to its label exactly when the name does not
spell a hexadecimal number. -/
theorem label_reference (parsed : parseLines (before ++ line :: after) = .ok state)
    (accepted : state.errors = []) (success : link state.linker = .ok linked)
    (defined : ∃ other ∈ before ++ line :: after, Defines other name) (refers : Refers line name)
    (prior : parseLines before = .ok earlier) :
    Resolves state linked earlier.linker.objs.length name ↔ ¬ HexLiteral name := by
  obtain ⟨opcode, d, sa, disp, spelled, stored⟩ := refers.object parsed accepted prior
  obtain ⟨other, _, defines⟩ := defined
  constructor
  · rintro ⟨_, _, _, _, read, _⟩ literal
    rcases parseDisp_letters defines.legal with ⟨_, value, _, number⟩ | ⟨notHex, _⟩
    · obtain rfl := Except.ok.inj (spelled.symm.trans number)
      simp [stored] at read
    · exact notHex literal
  · intro notHex
    rcases parseDisp_letters defines.legal with ⟨literal, _⟩ | ⟨_, ident⟩
    · exact absurd literal notHex
    · obtain rfl := Except.ok.inj (spelled.symm.trans ident)
      obtain ⟨obj, placed, resolved⟩ := mapM_at (link_eq_ok success).2 stored
      obtain ⟨body, found, rfl⟩ := linkObj_ident.mp resolved
      exact ⟨opcode, .reg d, sa, body, stored, found, placed⟩

theorem label_misread {other : Str} (parsed : parseLines (before ++ line :: after) = .ok state)
    (accepted : state.errors = []) (success : link state.linker = .ok linked)
    (defines : Defines other name) (refers : Refers line name)
    (prior : parseLines before = .ok earlier) (literal : HexLiteral name) :
    ∃ opcode d sa value, int name 16 = some value ∧
      linked.objs[earlier.linker.objs.length]? = some (.rx opcode d sa (.int value)) := by
  obtain ⟨opcode, d, sa, disp, spelled, stored⟩ := refers.object parsed accepted prior
  rcases parseDisp_letters defines.legal with ⟨_, value, hex, number⟩ | ⟨notHex, _⟩
  · obtain rfl := Except.ok.inj (spelled.symm.trans number)
    obtain ⟨obj, placed, resolved⟩ := mapM_at (link_eq_ok success).2 stored
    obtain rfl := Except.ok.inj ((linkObj_plain (by simp)).symm.trans resolved)
    exact ⟨opcode, .reg d, sa, value, hex, placed⟩
  · exact absurd literal notHex

end Lines

theorem label_reference_loop : Resolves
    ⟨⟨[.rrr 0 1 1 1, .rx 3 (.reg 0) 0 (.ident "LOOP".toList)], [("LOOP".toList, ⟨1, 0⟩)]⟩, 2, []⟩
    ⟨[.rrr 0 1 1 1, .rx 3 (.reg 0) 0 (.int 1)], [("LOOP".toList, ⟨1, 1⟩)]⟩ 1 "LOOP".toList := by
  have parsed : parseLines (["add R1,R1,R1".toList, "loop:".toList] ++
      "jump loop[R0]".toList :: []) = .ok
        ⟨⟨[.rrr 0 1 1 1, .rx 3 (.reg 0) 0 (.ident "LOOP".toList)],
          [("LOOP".toList, ⟨1, 0⟩)]⟩, 2, []⟩ := by
    decide +kernel
  have prior : parseLines ["add R1,R1,R1".toList, "loop:".toList] =
      .ok ⟨⟨[.rrr 0 1 1 1], [("LOOP".toList, ⟨1, 0⟩)]⟩, 1, []⟩ := by
    decide +kernel
  have defines : Defines "loop:".toList "LOOP".toList := ⟨by decide +kernel, by decide +kernel⟩
  have refers : Refers "jump loop[R0]".toList "LOOP".toList :=
    ⟨"JUMP".toList, ["LOOP[R0]".toList], 3, "R0]".toList, by decide +kernel, by decide,
      by decide +kernel⟩
  exact (label_reference parsed rfl rfl ⟨_, by simp, defines⟩ refers prior).mpr (by decide)

/-- `jump bad[R0]` behind `bad:` jumps to the word 0xBAD, and the label is at 0. -/
theorem label_reference_bad : ∃ state linked,
    parseLines ["bad:".toList, "jump bad[R0]".toList] = .ok state ∧ state.errors = [] ∧
      link state.linker = .ok linked ∧ (writeCode linked.objs).2 = none ∧
      Defines "bad:".toList "BAD".toList ∧ Refers "jump bad[R0]".toList "BAD".toList ∧
      linked.labels.lookup "BAD".toList = some ⟨0, 0⟩ ∧
      linked.objs = [.rx 3 (.reg 0) 0 (.int 0xBAD)] ∧ ¬ Resolves state linked 0 "BAD".toList := by
  refine ⟨⟨⟨[.rx 3 (.reg 0) 0 (.int 0xBAD)], [("BAD".toList, ⟨0, 0⟩)]⟩, 1, []⟩,
    ⟨[.rx 3 (.reg 0) 0 (.int 0xBAD)], [("BAD".toList, ⟨0, 0⟩)]⟩, by decide +kernel, rfl,
    by decide +kernel, by decide +kernel, ⟨by decide +kernel, by decide +kernel⟩, ?_, rfl, rfl, ?_⟩
  · exact ⟨"JUMP".toList, ["BAD[R0]".toList], 3, "R0]".toList, by decide +kernel, by decide,
      by decide +kernel⟩
  · rintro ⟨opcode, d, sa, body, read, _⟩
    simp at read

end Sigma16

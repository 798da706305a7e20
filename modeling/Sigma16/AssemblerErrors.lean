import Sigma16.AssemblerReferences

/-!
The exceptions of `parse_string`: a wrong shape of the operands is noticed by Python and
not by the parser, and then it is no `ParserError` and `parse_lines` does not catch it.
-/

namespace Sigma16

open PyText Fallible

def IsParserError (error : PyError) : Prop := ∃ reason, error = .parserError reason

def IsRegister (text : Str) : Prop := strip text ∈ registerNames

def IsNumeric (text : Str) : Prop :=
  (∃ base ∈ supportedBases, (int (strip text) base).isSome) ∨
    ∃ char, strip text = [quote, char, quote]

/-- Operands that are fit for the instruction one by one, but are too few or too many, or
an RX operand that is not in two pieces at its opening brackets. -/
def WrongShape (type : InstType) (opcode : Int) (operands : Str) : Prop :=
  match type with
  | .rrr => (∀ operand ∈ operands.splitOn ',', IsRegister operand) ∧
      (operands.splitOn ',').length ≠ 3
  | .pseudo => (∀ operand ∈ operands.splitOn ',',
        IsRegister operand ∨ opcode = -7 ∧ IsNumeric operand) ∧
      (operands.splitOn ',').length ≠ 2
  | .rx => ((implicitDest.lookup opcode).isSome ∨ IsRegister ((operands.splitOn ',').headD [])) ∧
      ((rxOperand opcode operands).splitOn '[').length ≠ 2

/-- Text that looks right to the parser until it unpacks or indexes it. -/
inductive Unshaped (string : Str) : Prop
  | operands {name chunks opcode type} : splitSpace string = name :: chunks →
      instructions.lookup name = some (opcode, type) → WrongShape type opcode chunks.flatten →
      Unshaped string
  | noValue : splitSpace string = ["DATA".toList] → Unshaped string
  | noColon {name chunks} : splitSpace string = name :: chunks → name ≠ "DATA".toList →
      instructions.lookup name = none → 2 ≤ string.length → ':' ∉ string → Unshaped string

def Settles (line : Str) : Prop :=
  verify line ≠ [] → FailsWithin IsParserError (parseString (upper (verify line)))

/-- Every rejected line is reported, and only a label defined twice stops the checking. -/
structure Reported (lines : List Str) : Prop where
  errors : ∀ state, parseLines lines = .ok state →
    state.errors = lines.zipIdx.filterMap diagnose
  stops : ∀ error, parseLines lines = .error error →
    ∃ before line after name, lines = before ++ line :: after ∧ Defines line name ∧
      (∃ earlier ∈ before, Defines earlier name) ∧
      error = .parserError ("duplicate label \"".toList ++ name ++ "\"".toList)

section Operands

variable {text operands string : Str} {opcode : Int}

theorem settled_register (text : Str) : FailsWithin IsParserError (parseRegister text) := by
  unfold parseRegister
  split
  · exact failsWithin_ok _
  · exact failsWithin_error.mpr ⟨_, rfl⟩

theorem parseRegister_succeeds :
    (∃ register, parseRegister (strip text) = .ok register) ↔ IsRegister text := by
  unfold parseRegister IsRegister
  split
  · rename_i index found
    have member : (registerNames.idxOf? (strip text)).isSome := by simp [found]
    exact iff_of_true ⟨_, rfl⟩ (List.isSome_idxOf?.mp member)
  · rename_i missing
    refine iff_of_false ?_ (List.idxOf?_eq_none_iff.mp missing)
    rintro ⟨register, found⟩
    cases found

theorem settled_numeric (text : Str) : FailsWithin IsParserError (parseNumeric text) := by
  unfold parseNumeric
  split
  · exact failsWithin_ok _
  · split
    · split
      · exact failsWithin_ok _
      · exact failsWithin_error.mpr ⟨_, rfl⟩
    · exact failsWithin_error.mpr ⟨_, rfl⟩

theorem parseNumeric_succeeds :
    (∃ value, parseNumeric (strip text) = .ok value) ↔ IsNumeric text := by
  unfold parseNumeric IsNumeric
  rw [← List.findSome?_isSome_iff]
  cases found : supportedBases.findSome? (int (strip text)) with
  | some value => exact iff_of_true ⟨value, rfl⟩ (.inl rfl)
  | none =>
      simp only [Option.isSome_none, Bool.false_eq_true, false_or]
      constructor
      · rintro ⟨value, read⟩
        split at read
        · rename_i first char last shape
          split at read
          · rename_i quoted
            exact ⟨char, by rw [shape, quoted.1, quoted.2]⟩
          · cases read
        · cases read
      · rintro ⟨char, shape⟩
        rw [shape]
        exact ⟨_, if_pos ⟨rfl, rfl⟩⟩

theorem settled_regOrNumeric (text : Str) : FailsWithin IsParserError (parseRegOrNumeric text) := by
  unfold parseRegOrNumeric
  split
  · exact failsWithin_ok _
  · exact (failsWithin_map _).mpr (settled_numeric text)

theorem parseRegOrNumeric_succeeds :
    (∃ dest, parseRegOrNumeric (strip text) = .ok dest) ↔ IsRegister text ∨ IsNumeric text := by
  rw [← parseRegister_succeeds, ← parseNumeric_succeeds]
  unfold parseRegOrNumeric
  cases parseRegister (strip text) with
  | ok register => simp
  | error error =>
      cases parseNumeric (strip text) <;> simp [Except.map]

theorem settled_disp (text : Str) : FailsWithin IsParserError (parseDisp text) := by
  unfold parseDisp
  split
  · exact failsWithin_ok _
  · split
    · exact failsWithin_ok _
    · exact failsWithin_error.mpr ⟨_, rfl⟩

theorem settled_registers {count : Nat} {rest : List Register → Except PyError Obj}
    (unpacked : ∀ registers, FailsWithin IsParserError (rest registers) ↔ registers.length = count)
    (chunks : List Str) :
    FailsWithin IsParserError (parseRegisters chunks >>= rest) ↔
      ¬ ((∀ chunk ∈ chunks, IsRegister chunk) ∧ chunks.length ≠ count) := by
  have unpacking := @failsWithin_unpack _ _ _ _ _ _ _ _ chunks
    (fun chunk => settled_register (strip chunk)) unpacked
  simp only [parseRegister_succeeds] at unpacking
  exact unpacking

theorem not_settled {error : PyError} (other : ∀ reason, error ≠ .parserError reason) :
    ¬ FailsWithin IsParserError (.error error : Except PyError Obj) := by
  intro within
  obtain ⟨reason, same⟩ := failsWithin_error.mp within
  exact other reason same

theorem settled_cmp (opcode : Int) (operands : Str) :
    FailsWithin IsParserError (parseCmpInst opcode operands) ↔
      ¬ ((∀ operand ∈ operands.splitOn ',', IsRegister operand) ∧
        (operands.splitOn ',').length ≠ 2) := by
  apply settled_registers
  intro registers
  split
  · exact iff_of_true (failsWithin_ok _) rfl
  · rename_i other
    refine iff_of_false (not_settled (by simp)) ?_
    intro two
    obtain ⟨sa, sb, rfl⟩ := List.length_eq_two.mp two
    exact other sa sb rfl

theorem settled_inv (opcode : Int) (operands : Str) :
    FailsWithin IsParserError (parseInvInst opcode operands) ↔
      ¬ ((∀ operand ∈ operands.splitOn ',', IsRegister operand) ∧
        (operands.splitOn ',').length ≠ 2) := by
  apply settled_registers
  intro registers
  split
  · exact iff_of_true (failsWithin_ok _) rfl
  · rename_i other
    refine iff_of_false (not_settled (by simp)) ?_
    intro two
    obtain ⟨d, sa, rfl⟩ := List.length_eq_two.mp two
    exact other d sa rfl

theorem settled_rrr (notCmp : opcode ≠ 4) (operands : Str) :
    FailsWithin IsParserError (parseRrrInstruction opcode operands) ↔
      ¬ ((∀ operand ∈ operands.splitOn ',', IsRegister operand) ∧
        (operands.splitOn ',').length ≠ 3) := by
  apply settled_registers
  intro registers
  split
  · rw [if_neg notCmp]
    exact iff_of_true (failsWithin_ok _) rfl
  · rename_i other
    refine iff_of_false (not_settled (by simp)) ?_
    intro three
    obtain ⟨d, sa, sb, rfl⟩ := List.length_eq_three.mp three
    exact other d sa sb rfl

theorem settled_mov (operands : Str) :
    FailsWithin IsParserError (parseMovInst operands) ↔
      ¬ ((∀ operand ∈ operands.splitOn ',', IsRegister operand ∨ IsNumeric operand) ∧
        (operands.splitOn ',').length ≠ 2) := by
  simp only [← parseRegOrNumeric_succeeds]
  apply failsWithin_unpack fun operand => settled_regOrNumeric (strip operand)
  intro dests
  split
  · exact iff_of_true (failsWithin_ok _) rfl
  · exact iff_of_true (failsWithin_ok _) rfl
  · rename_i notRegister notNumeric
    refine iff_of_false (not_settled (by simp)) ?_
    intro two
    obtain ⟨d, source, rfl⟩ := List.length_eq_two.mp two
    cases source with
    | reg sa => exact notRegister d sa rfl
    | num disp => exact notNumeric d disp rfl

theorem settled_rxOperand (opcode : Int) (d : Register) (string : Str) :
    FailsWithin IsParserError (parseRxOperand opcode d string) ↔
      (string.splitOn '[').length = 2 := by
  unfold parseRxOperand
  split
  · rename_i disp sa shape
    refine iff_of_true ?_ (by rw [shape]; rfl)
    refine (failsWithin_bind (settled_disp disp)).mpr fun parsed _ => ?_
    refine (failsWithin_bind (settled_register _)).mpr fun register _ => ?_
    exact failsWithin_ok _
  · rename_i other
    refine iff_of_false (not_settled (by simp)) ?_
    intro two
    obtain ⟨disp, sa, shape⟩ := List.length_eq_two.mp two
    exact other disp sa shape

theorem settled_rx (opcode : Int) (operands : Str) :
    FailsWithin IsParserError (parseRxInstruction opcode operands) ↔
      ¬ (((implicitDest.lookup opcode).isSome ∨ IsRegister ((operands.splitOn ',').headD [])) ∧
        ((rxOperand opcode operands).splitOn '[').length ≠ 2) := by
  unfold parseRxInstruction rxOperand
  split
  · rename_i implicit
    rw [settled_rxOperand, implicit]
    simp
  · rename_i explicit
    rw [failsWithin_bind (settled_register _), explicit, ← parseRegister_succeeds]
    simp only [settled_rxOperand]
    simp

end Operands

section Lines

variable {string : Str}

theorem listed_opcodes {name : Str} {opcode : Int} {type : InstType}
    (listed : instructions.lookup name = some (opcode, type)) :
    (type = .rrr → opcode ≠ 4) ∧ (type = .pseudo → opcode = 4 ∨ opcode = 8 ∨ opcode = -7) := by
  have entries : ∀ entry ∈ instructions, (entry.2.2 = .rrr → entry.2.1 ≠ 4) ∧
      (entry.2.2 = .pseudo → entry.2.1 = 4 ∨ entry.2.1 = 8 ∨ entry.2.1 = -7) := by decide
  exact entries (name, opcode, type) (mem_of_lookup listed)

theorem settled_operands {name : Str} {opcode : Int} {type : InstType}
    (listed : instructions.lookup name = some (opcode, type)) (operands : Str) :
    FailsWithin IsParserError (parseOperands type opcode operands) ↔
      ¬ WrongShape type opcode operands := by
  obtain ⟨notCmp, pseudo⟩ := listed_opcodes listed
  cases type with
  | rrr => exact settled_rrr (notCmp rfl) operands
  | rx => exact settled_rx opcode operands
  | pseudo =>
      rcases pseudo rfl with rfl | rfl | rfl
      · simpa [WrongShape, parseOperands, parsePseudoInstruction] using settled_cmp 4 operands
      · simpa [WrongShape, parseOperands, parsePseudoInstruction] using settled_inv 8 operands
      · simpa [WrongShape, parseOperands, parsePseudoInstruction] using settled_mov operands

theorem settled_label (string : Str) :
    FailsWithin IsParserError (parseLabel string) ↔ ¬ (2 ≤ string.length ∧ ':' ∉ string) := by
  unfold parseLabel
  split
  · rename_i short
    exact iff_of_true (failsWithin_error.mpr ⟨_, rfl⟩) (by omega)
  · rename_i long
    split
    · rename_i missing
      refine iff_of_false ?_ ?_
      · intro within
        obtain ⟨reason, same⟩ := failsWithin_error.mp within
        cases same
      · exact not_not.mpr ⟨by omega, List.idxOf?_eq_none_iff.mp missing⟩
    · rename_i index found
      have member : (string.idxOf? ':').isSome := by simp [found]
      refine iff_of_true ?_ (fun shaped => shaped.2 (List.isSome_idxOf?.mp member))
      split
      · exact failsWithin_error.mpr ⟨_, rfl⟩
      · split
        · exact failsWithin_ok _
        · exact failsWithin_error.mpr ⟨_, rfl⟩

theorem unlisted_data : instructions.lookup "DATA".toList = none := by decide

theorem unshaped_iff {name : Str} {chunks : List Str} (split : splitSpace string = name :: chunks) :
    Unshaped string ↔
      (∃ opcode type, instructions.lookup name = some (opcode, type) ∧
        WrongShape type opcode chunks.flatten) ∨
      (name = "DATA".toList ∧ chunks = []) ∨
      name ≠ "DATA".toList ∧ instructions.lookup name = none ∧ 2 ≤ string.length ∧ ':' ∉ string := by
  constructor
  · intro unshaped
    cases unshaped with
    | operands other listed shape =>
        obtain ⟨rfl, rfl⟩ := List.cons.inj (split.symm.trans other)
        exact .inl ⟨_, _, listed, shape⟩
    | noValue other => exact .inr (.inl (List.cons.inj (split.symm.trans other)))
    | noColon other named unlisted long missing =>
        obtain ⟨rfl, _⟩ := List.cons.inj (split.symm.trans other)
        exact .inr (.inr ⟨named, unlisted, long, missing⟩)
  · rintro (⟨opcode, type, listed, shape⟩ | ⟨rfl, rfl⟩ | ⟨named, unlisted, long, missing⟩)
    · exact .operands split listed shape
    · exact .noValue split
    · exact .noColon split named unlisted long missing

theorem settled_data {chunks : List Str} (split : splitSpace string = "DATA".toList :: chunks) :
    FailsWithin IsParserError (parseString string) ↔ ¬ Unshaped string := by
  rw [unshaped_iff split]
  simp only [unlisted_data, reduceCtorEq, false_and, exists_false, ne_eq, not_true_eq_false,
    or_false, false_or, true_and]
  cases chunks with
  | nil =>
      rw [parseString_data_alone split, failsWithin_error]
      refine iff_of_false ?_ (fun named => named rfl)
      rintro ⟨reason, same⟩
      cases same
  | cons value rest =>
      rw [parseString_data split, failsWithin_map]
      exact iff_of_true (settled_numeric _) (List.cons_ne_nil _ _)

theorem settled_listed {name : Str} {chunks : List Str} {opcode : Int} {type : InstType}
    (split : splitSpace string = name :: chunks)
    (listed : instructions.lookup name = some (opcode, type)) :
    FailsWithin IsParserError (parseString string) ↔ ¬ Unshaped string := by
  rw [parseString_listed split listed, failsWithin_map, settled_operands listed, unshaped_iff split]
  apply not_congr
  constructor
  · intro shape
    exact .inl ⟨opcode, type, listed, shape⟩
  · rintro (⟨_, _, found, shape⟩ | ⟨rfl, _⟩ | ⟨_, unlisted, _⟩)
    · obtain ⟨rfl, rfl⟩ := Prod.mk.inj (Option.some.inj (listed.symm.trans found))
      exact shape
    · cases unlisted_data.symm.trans listed
    · cases listed.symm.trans unlisted

theorem settled_unlisted {name : Str} {chunks : List Str} (split : splitSpace string = name :: chunks)
    (named : name ≠ "DATA".toList) (unlisted : instructions.lookup name = none) :
    FailsWithin IsParserError (parseString string) ↔ ¬ Unshaped string := by
  rw [parseString_unlisted split named unlisted, failsWithin_map, settled_label, unshaped_iff split]
  apply not_congr
  constructor
  · intro shape
    exact .inr (.inr ⟨named, unlisted, shape⟩)
  · rintro (⟨_, _, listed, _⟩ | ⟨data, _⟩ | ⟨_, _, shape⟩)
    · cases unlisted.symm.trans listed
    · exact absurd data named
    · exact shape

theorem settled_string (content : splitSpace string ≠ []) :
    FailsWithin IsParserError (parseString string) ↔ ¬ Unshaped string := by
  cases split : splitSpace string with
  | nil => exact absurd split content
  | cons name chunks =>
      by_cases named : name = "DATA".toList
      · exact settled_data (named ▸ split)
      · cases listed : instructions.lookup name with
        | some entry => exact settled_listed split listed
        | none => exact settled_unlisted split named listed

theorem settles_iff (line : Str) : Settles line ↔ ¬ Unshaped (upper (verify line)) := by
  by_cases blank : verify line = []
  · refine iff_of_true (fun content => absurd blank content) ?_
    rw [blank]
    intro unshaped
    cases unshaped with
    | operands split | noValue split | noColon split => cases split
  · rw [← settled_string (splitSpace_content blank)]
    exact ⟨fun settles => settles blank, fun settled _ => settled⟩

end Lines

section Files

variable {lines : List Str}

theorem parseLines_raises {error : PyError} (failed : parseLines lines = .error error) :
    ∃ before line after state, lines = before ++ line :: after ∧
      parseLines before = .ok state ∧ parseLine state (line, before.length) = .error error := by
  obtain ⟨front, numbered, back, state, split, ran, raised⟩ := foldlM_eq_error failed
  obtain ⟨before, rest, rfl, rfl, counted⟩ := List.zipIdx_eq_append_iff.mp split
  obtain ⟨line, after, rfl, rfl, _⟩ := List.zipIdx_eq_cons_iff.mp counted.symm
  rw [Nat.zero_add] at raised
  exact ⟨before, line, after, state, rfl, ran, raised⟩

theorem parseLine_raises {state : ParseState} {numbered : Str × Nat} {error : PyError}
    (settles : Settles numbered.1) (failed : parseLine state numbered = .error error) :
    ∃ name, Defines numbered.1 name ∧ (state.linker.labels.lookup name).isSome ∧
      error = .parserError ("duplicate label \"".toList ++ name ++ "\"".toList) := by
  unfold parseLine at failed
  by_cases blank : verify numbered.1 = []
  · cases (if_pos blank).symm.trans failed
  · simp only [blank, if_false] at failed
    cases read : parseString (upper (verify numbered.1)) with
    | error raised =>
        obtain ⟨reason, rfl⟩ := settles blank raised read
        rw [read] at failed
        cases failed
    | ok found =>
        rw [read] at failed
        cases found with
        | obj obj => cases failed
        | label name =>
            simp only [addParsed] at failed
            split at failed
            · rename_i known
              exact ⟨name, ⟨blank, read⟩, known, (Except.error.inj failed).symm⟩
            · cases failed

theorem reported (settles : ∀ line ∈ lines, Settles line) : Reported lines := by
  constructor
  · intro state parsed
    exact parseLines_diagnoses parsed
  · intro error failed
    obtain ⟨before, line, after, state, rfl, ran, raised⟩ := parseLines_raises failed
    obtain ⟨name, defines, known, rfl⟩ := parseLine_raises (settles line (by simp)) raised
    obtain ⟨body, stored⟩ := Option.isSome_iff_exists.mp known
    have earlier := (parseLines_labels ran name).mp (mem_keys_iff.mpr ⟨body, stored⟩)
    exact ⟨before, line, after, name, rfl, defines, earlier, rfl⟩

end Files

/-- Nothing but a `ParserError` leaves `parse_string`, and every malformed line is reported
and those behind it checked, exactly when no line has a wrong shape. -/
theorem lines_reported (lines : List Str) :
    (∀ line ∈ lines, Settles line) ∧ Reported lines ↔
      ∀ line ∈ lines, ¬ Unshaped (upper (verify line)) := by
  simp only [← settles_iff]
  constructor
  · intro ⟨settles, _⟩
    exact settles
  · intro settles
    exact ⟨settles, reported settles⟩

/-- Two registers for ADD, an operand without brackets, DATA alone, and a word that is no
label each end the assembler before the line behind them is looked at. -/
theorem lines_reported_escapes :
    parseLines ["add R1,R2".toList, "add R16,R0,R0".toList] = .error .typeError ∧
    parseLines ["load R1,5".toList, "add R16,R0,R0".toList] = .error .valueError ∧
    parseLines ["data".toList, "add R16,R0,R0".toList] = .error .indexError ∧
    parseLines ["stop".toList, "add R16,R0,R0".toList] = .error .valueError ∧
    ¬ ∀ line ∈ ["add R1,R2".toList, "load R1,5".toList, "data".toList, "stop".toList],
      Settles line := by
  refine ⟨by decide +kernel, by decide +kernel, by decide +kernel, by decide +kernel, ?_⟩
  intro settles
  have raised : parseString (upper (verify "data".toList)) = .error .indexError := by
    decide +kernel
  obtain ⟨reason, same⟩ := settles _ (by simp) (by decide +kernel) _ raised
  cases same

end Sigma16

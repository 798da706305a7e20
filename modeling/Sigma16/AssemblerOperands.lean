import Sigma16.AssemblerErrors

/-!
How much of an operand text an accepted line stands for. The parser drops what is behind a
comma it does not need or behind the closing bracket, and joins what is between two commas.
-/

namespace Sigma16

open PyText Fallible
open Unicode (isSpace)

def operandCount (opcode : Int) : Nat := if (implicitDest.lookup opcode).isSome then 1 else 2

def SpellsRx (opcode : Int) (text : Str) (obj : Obj) : Prop :=
  ∃ disp spelled sa, parseDisp disp = .ok spelled ∧ ',' ∉ disp ∧ '[' ∉ disp ∧
    ((∃ op d, implicitDest.lookup opcode = some (op, d) ∧ text = indexed disp sa ∧
        obj = .rx op (.reg d) sa spelled) ∨
      ∃ d, implicitDest.lookup opcode = none ∧
        text = registerName d ++ ',' :: indexed disp sa ∧ obj = .rx opcode (.reg d) sa spelled)

def Excess (opcode : Int) (text : Str) : Prop :=
  operandCount opcode < (text.splitOn ',').length ∨
    ∃ front sa back, text = front ++ '[' :: (sa ++ ']' :: back) ∧ '[' ∉ front ∧ ']' ∉ sa ∧
      back ≠ []

inductive Extra (string : Str) : Prop
  | values {value other rest} : splitSpace string = "DATA".toList :: value :: other :: rest →
      Extra string
  | operands {name chunks opcode} : splitSpace string = name :: chunks →
      instructions.lookup name = some (opcode, .rx) → Excess opcode chunks.flatten → Extra string

/-- An RX or DATA line is spelled in full by the object it is accepted as, and is rejected
with a `ParserError` when there is more on it. -/
structure Accounted (string : Str) : Prop where
  rx : ∀ name chunks opcode obj, splitSpace string = name :: chunks →
    instructions.lookup name = some (opcode, .rx) → parseString string = .ok (.obj obj) →
    SpellsRx opcode chunks.flatten obj
  data : ∀ chunks obj, splitSpace string = "DATA".toList :: chunks →
    parseString string = .ok (.obj obj) →
    ∃ value number, chunks = [value] ∧ parseNumeric value = .ok number ∧ obj = .num number
  extra : Extra string → ∃ reason, parseString string = .error (.parserError reason)

/-- The part of the operand text that the parser looks at is an operand. -/
def Readable (opcode : Int) (text : Str) : Prop :=
  ((implicitDest.lookup opcode).isSome ∨ IsRegister ((text.splitOn ',').headD [])) ∧
    ∃ disp base, (rxOperand opcode text).splitOn '[' = [disp, base] ∧
      (IsNumeric disp ∨ isLegalLabelRef (strip disp)) ∧
      IsRegister ((base.splitOn ']').headD [])

/-- As many operands as the instruction has, the last one up to its closing bracket. -/
def Tidy (opcode : Int) (text : Str) : Prop :=
  (text.splitOn ',').length = operandCount opcode ∧
    ∃ front sa, text = front ++ '[' :: (sa ++ [']']) ∧ '[' ∉ front ∧ ']' ∉ sa

/-- The lines on which something is dropped or joined, or is found wrong by Python only. -/
inductive Sloppy (string : Str) : Prop
  | values {value other rest} : splitSpace string = "DATA".toList :: value :: other :: rest →
      IsNumeric value → Sloppy string
  | operand {name chunks opcode} : splitSpace string = name :: chunks →
      instructions.lookup name = some (opcode, .rx) → Readable opcode chunks.flatten →
      ¬ Tidy opcode chunks.flatten → Sloppy string
  | shape {name chunks opcode} : splitSpace string = name :: chunks →
      instructions.lookup name = some (opcode, .rx) → Excess opcode chunks.flatten →
      WrongShape .rx opcode chunks.flatten → Sloppy string

section Operands

variable {text string : Str} {opcode : Int} {obj : Obj}

theorem parseRegister_eq_ok {register : Register}
    (parsed : parseRegister (strip text) = .ok register) : strip text = registerName register := by
  have spelled : ∀ name ∈ registerNames, ∀ register, parseRegister name = .ok register →
      name = registerName register := by
    decide
  exact spelled _ (parseRegister_succeeds.mp ⟨register, parsed⟩) register parsed

theorem parseDisp_succeeds :
    (∃ disp, parseDisp text = .ok disp) ↔ IsNumeric text ∨ isLegalLabelRef (strip text) := by
  rw [← parseNumeric_succeeds]
  unfold parseDisp
  cases parseNumeric (strip text) with
  | ok value => simp
  | error error =>
      by_cases legal : isLegalLabelRef (strip text) <;> simp [legal]

theorem parseRxOperand_succeeds {d : Register} :
    (∃ obj, parseRxOperand opcode d string = .ok obj) ↔
      ∃ disp base, string.splitOn '[' = [disp, base] ∧
        (IsNumeric disp ∨ isLegalLabelRef (strip disp)) ∧
        IsRegister ((base.splitOn ']').headD []) := by
  simp only [← parseDisp_succeeds, ← parseRegister_succeeds]
  constructor
  · rintro ⟨obj, parsed⟩
    obtain ⟨disp, base, spelled, register, opened, read, named, _⟩ := parseRxOperand_eq_ok parsed
    exact ⟨disp, base, opened, ⟨spelled, read⟩, register, named⟩
  · rintro ⟨disp, base, opened, ⟨spelled, read⟩, register, named⟩
    refine ⟨.rx opcode (.reg d) register spelled, ?_⟩
    simp only [parseRxOperand, opened, read, named, bind, Except.bind, pure, Except.pure]

theorem parseRxInstruction_succeeds :
    (∃ obj, parseRxInstruction opcode text = .ok obj) ↔ Readable opcode text := by
  unfold Readable
  constructor
  · rintro ⟨obj, parsed⟩
    obtain ⟨op, d, built, dest⟩ := parseRxInstruction_eq_ok parsed
    refine ⟨?_, parseRxOperand_succeeds.mp ⟨obj, built⟩⟩
    rcases dest with implicit | ⟨_, _, named⟩
    · exact .inl (by rw [implicit]; rfl)
    · exact .inr (parseRegister_succeeds.mp ⟨d, named⟩)
  · rintro ⟨dest, operand⟩
    unfold parseRxInstruction
    unfold rxOperand at operand
    cases implicit : implicitDest.lookup opcode with
    | some entry =>
        rw [implicit] at operand
        exact parseRxOperand_succeeds.mpr operand
    | none =>
        rw [implicit] at dest operand
        obtain ⟨d, named⟩ := parseRegister_succeeds.mpr (dest.resolve_left (by decide))
        obtain ⟨obj, built⟩ := parseRxOperand_succeeds.mpr operand
        exact ⟨obj, bind_eq_ok.mpr ⟨d, named, built⟩⟩

end Operands

section Spelling

variable {text : Str} {opcode : Int} {obj : Obj}

theorem SpellsRx.tidy (spells : SpellsRx opcode text obj) : Tidy opcode text := by
  obtain ⟨disp, spelled, sa, _, noComma, noBracket, whole⟩ := spells
  have base := registerName_token sa
  have closed := base.not_mem (show ']' ∈ separators by decide)
  unfold Tidy operandCount
  rcases whole with ⟨op, d, implicit, rfl, _⟩ | ⟨d, explicit, rfl, _⟩
  · rw [implicit, List.splitOn_eq_singleton (indexed_comma noComma sa)]
    exact ⟨rfl, disp, registerName sa, rfl, noBracket, closed⟩
  · have dest := registerName_token d
    rw [explicit, splitOn_pair.mpr ⟨rfl, dest.not_mem (by decide), indexed_comma noComma sa⟩]
    refine ⟨rfl, registerName d ++ ',' :: disp, registerName sa, by simp [indexed], ?_, closed⟩
    simp [noBracket, dest.not_mem (show '[' ∈ separators by decide)]

theorem base_closed {lead base : Str} {register : Register} (visible : ∀ char ∈ text, isSpace char = false)
    (opened : text = lead ++ '[' :: base) (noBracket : '[' ∉ lead)
    (named : parseRegister (strip ((base.splitOn ']').headD [])) = .ok register)
    (tidy : ∃ front sa, text = front ++ '[' :: (sa ++ [']']) ∧ '[' ∉ front ∧ ']' ∉ sa) :
    base = registerName register ++ [']'] := by
  obtain ⟨front, sa, whole, ahead, closed⟩ := tidy
  obtain ⟨_, rfl⟩ := append_cons_cancel (opened.symm.trans whole) noBracket ahead
  have solid : ∀ char ∈ sa, isSpace char = false := by
    intro char member
    exact visible char (by rw [opened]; simp [member])
  have head : ((sa ++ [']']).splitOn ']').headD [] = sa := by
    rw [List.splitOn_append_cons_self_of_not_mem closed]
    rfl
  rw [head] at named
  rw [← parseRegister_eq_ok named, strip_solid solid]

theorem Tidy.spells (tidy : Tidy opcode text) (visible : ∀ char ∈ text, isSpace char = false)
    (parsed : parseRxInstruction opcode text = .ok obj) : SpellsRx opcode text obj := by
  obtain ⟨count, whole⟩ := tidy
  obtain ⟨op, d, built, dest⟩ := parseRxInstruction_eq_ok parsed
  obtain ⟨disp, base, spelled, register, opened, read, named, rfl⟩ := parseRxOperand_eq_ok built
  unfold operandCount at count
  unfold rxOperand at opened
  refine ⟨disp, spelled, register, read, ?_⟩
  rcases dest with implicit | ⟨explicit, rfl, destNamed⟩
  · rw [implicit] at count opened
    obtain ⟨piece, single⟩ := List.length_eq_one_iff.mp count
    rw [single] at opened
    obtain ⟨rfl, noComma⟩ := splitOn_single.mp single
    have operand : text.splitOn '[' = [disp, base] := opened
    obtain ⟨same, noBracket, _⟩ := splitOn_pair.mp operand
    have closes := base_closed visible same noBracket named whole
    refine ⟨?_, noBracket, .inl ⟨op, d, implicit, ?_, rfl⟩⟩
    · intro comma
      exact noComma (by rw [same]; simp [comma])
    · rw [same, closes]
      rfl
  · rw [explicit] at count opened
    obtain ⟨first, second, pair⟩ := List.length_eq_two.mp count
    obtain ⟨split, _, noComma⟩ := splitOn_pair.mp pair
    rw [pair] at opened destNamed
    have operand : ([second].flatten).splitOn '[' = [disp, base] := opened
    rw [List.flatten_singleton] at operand
    obtain ⟨same, noBracket, _⟩ := splitOn_pair.mp operand
    have solid : ∀ char ∈ first, isSpace char = false := by
      intro char member
      exact visible char (by rw [split]; simp [member])
    have name : first = registerName d := by
      rw [← parseRegister_eq_ok destNamed]
      exact (strip_solid solid).symm
    have lead : text = (first ++ ',' :: disp) ++ '[' :: base := by
      rw [split, same]
      simp
    have noBracketLead : '[' ∉ first ++ ',' :: disp := by
      have plain := (registerName_token d).not_mem (show '[' ∈ separators by decide)
      simp [name, plain, noBracket]
    have closes := base_closed visible lead noBracketLead named whole
    refine ⟨?_, noBracket, .inr ⟨d, explicit, ?_, rfl⟩⟩
    · intro comma
      exact noComma (by rw [same]; simp [comma])
    · rw [split, name, same, closes]
      rfl

theorem Tidy.not_excess (tidy : Tidy opcode text) : ¬ Excess opcode text := by
  obtain ⟨count, front, sa, whole, ahead, closed⟩ := tidy
  rintro (more | ⟨front', sa', back, whole', ahead', closed', behind⟩)
  · omega
  · obtain ⟨_, rest⟩ := append_cons_cancel (whole.symm.trans whole') ahead ahead'
    exact behind (append_cons_cancel rest closed closed').2.symm

end Spelling

section Lines

variable {string name : Str} {chunks : List Str} {opcode : Int}

theorem flatten_visible (split : splitSpace string = name :: chunks) :
    ∀ char ∈ chunks.flatten, isSpace char = false := by
  intro char member
  have inside : char ∈ (splitSpace string).flatten := by
    rw [split, List.flatten_cons]
    exact List.mem_append_right _ member
  rw [flatten_splitSpace, List.mem_filter] at inside
  simpa using inside.2

theorem parseString_rx (split : splitSpace string = name :: chunks)
    (listed : instructions.lookup name = some (opcode, .rx)) {obj : Obj} :
    parseString string = .ok (.obj obj) ↔ parseRxInstruction opcode chunks.flatten = .ok obj := by
  rw [parseString_listed split listed]
  cases built : parseRxInstruction opcode chunks.flatten <;>
    simp [parseOperands, built, Except.map]

theorem rejected_rx (split : splitSpace string = name :: chunks)
    (listed : instructions.lookup name = some (opcode, .rx))
    (unreadable : ¬ Readable opcode chunks.flatten) :
    (∃ reason, parseString string = .error (.parserError reason)) ↔
      ¬ WrongShape .rx opcode chunks.flatten := by
  rw [← settled_operands listed, parseString_listed split listed]
  rw [← parseRxInstruction_succeeds] at unreadable
  cases built : parseRxInstruction opcode chunks.flatten with
  | ok obj => exact absurd ⟨obj, built⟩ unreadable
  | error error =>
      simp only [parseOperands, built, failsWithin_error]
      constructor
      · rintro ⟨reason, same⟩
        exact ⟨reason, Except.error.inj same⟩
      · rintro ⟨reason, rfl⟩
        exact ⟨reason, rfl⟩

theorem Accounted.careful (accounted : Accounted string) : ¬ Sloppy string := by
  intro sloppy
  cases sloppy with
  | values split numeric =>
      obtain ⟨number, read⟩ := parseNumeric_succeeds.mpr numeric
      obtain ⟨reason, failed⟩ := accounted.extra (.values split)
      rw [parseString_data split, read] at failed
      cases failed
  | operand split listed readable untidy =>
      obtain ⟨obj, built⟩ := parseRxInstruction_succeeds.mpr readable
      have parsed := (parseString_rx split listed).mpr built
      exact untidy (accounted.rx _ _ _ obj split listed parsed).tidy
  | @shape name chunks opcode split listed excess wrong =>
      obtain ⟨reason, failed⟩ := accounted.extra (.operands split listed excess)
      by_cases readable : Readable opcode chunks.flatten
      · obtain ⟨obj, built⟩ := parseRxInstruction_succeeds.mpr readable
        cases failed.symm.trans ((parseString_rx split listed).mpr built)
      · exact (rejected_rx split listed readable).mp ⟨reason, failed⟩ wrong

theorem accounted_of_careful (careful : ¬ Sloppy string) : Accounted string := by
  constructor
  · intro name chunks opcode obj split listed parsed
    have built := (parseString_rx split listed).mp parsed
    have readable := parseRxInstruction_succeeds.mp ⟨obj, built⟩
    have tidy : Tidy opcode chunks.flatten := by
      by_contra untidy
      exact careful (.operand split listed readable untidy)
    exact tidy.spells (flatten_visible split) built
  · intro chunks obj split parsed
    rcases parseString_eq_ok parsed with ⟨value, rest, number, split', read, same⟩ |
      ⟨name, _, _, _, _, split', listed, _⟩ | ⟨_, _, other⟩
    · obtain rfl := Parsed.obj.inj same
      obtain ⟨_, rfl⟩ := List.cons.inj (split.symm.trans split')
      cases rest with
      | nil =>
          have visible := flatten_visible split
          rw [List.flatten_singleton] at visible
          rw [strip_solid visible] at read
          exact ⟨value, number, rfl, read, rfl⟩
      | cons other rest =>
          exact absurd (.values split (parseNumeric_succeeds.mp ⟨number, read⟩)) careful
    · obtain ⟨rfl, _⟩ := List.cons.inj (split.symm.trans split')
      cases unlisted_data.symm.trans listed
    · cases other
  · intro extra
    cases extra with
    | @values value other rest split =>
        rw [parseString_data split]
        cases read : parseNumeric (strip value) with
        | ok number => exact absurd (.values split (parseNumeric_succeeds.mp ⟨number, read⟩)) careful
        | error error =>
            obtain ⟨reason, rfl⟩ := settled_numeric _ error read
            exact ⟨reason, rfl⟩
    | @operands name chunks opcode split listed excess =>
        refine (rejected_rx split listed ?_).mpr fun wrong => careful (.shape split listed excess wrong)
        intro readable
        by_cases tidy : Tidy opcode chunks.flatten
        · exact tidy.not_excess excess
        · exact careful (.operand split listed readable tidy)

end Lines

/-- The whole of an RX or DATA line is accounted for exactly when it is not a sloppy one. -/
theorem operands_accounted (line : Str) :
    Accounted (upper (verify line)) ↔ ¬ Sloppy (upper (verify line)) :=
  ⟨Accounted.careful, accounted_of_careful⟩

/-- A second operand of JUMP and a second value of DATA are dropped, the commas of LOAD
joined over, and what is behind a bracket is not looked at, nor is there need of one. -/
theorem operands_accounted_dropped :
    (¬ Accounted (upper (verify "jump 5[R0],R3".toList)) ∧
      ¬ Accounted (upper (verify "data 1 2".toList))) ∧
    Reads "jump 5[R0],R3".toList (some (.obj (.rx 3 (.reg 0) 0 (.int 5)))) ∧
    Reads "data 1 2".toList (some (.obj (.num 1))) ∧
    Reads "load R1,1,2[R3]".toList (some (.obj (.rx 1 (.reg 1) 3 (.int 12)))) ∧
    Reads "load R1,5[R3]R4".toList (some (.obj (.rx 1 (.reg 1) 3 (.int 5)))) ∧
    Reads "load R1,5[R3".toList (some (.obj (.rx 1 (.reg 1) 3 (.int 5)))) := by
  refine ⟨⟨?_, ?_⟩, by decide +kernel, by decide +kernel, by decide +kernel, by decide +kernel,
    by decide +kernel⟩
  · intro accounted
    have words : splitSpace (upper (verify "jump 5[R0],R3".toList)) =
        ["JUMP".toList, "5[R0],R3".toList] := by
      decide +kernel
    have pieces : operandCount 3 < (["5[R0],R3".toList].flatten.splitOn ',').length := by decide
    obtain ⟨reason, failed⟩ :=
      accounted.extra (.operands words (by decide : instructions.lookup _ = some (3, .rx)) (.inl pieces))
    have read : parseString (upper (verify "jump 5[R0],R3".toList)) =
        .ok (.obj (.rx 3 (.reg 0) 0 (.int 5))) := by
      decide +kernel
    cases failed.symm.trans read
  · intro accounted
    have words : splitSpace (upper (verify "data 1 2".toList)) =
        ["DATA".toList, "1".toList, "2".toList] := by
      decide +kernel
    obtain ⟨reason, failed⟩ := accounted.extra (.values words)
    have read : parseString (upper (verify "data 1 2".toList)) = .ok (.obj (.num 1)) := by
      decide +kernel
    cases failed.symm.trans read

end Sigma16

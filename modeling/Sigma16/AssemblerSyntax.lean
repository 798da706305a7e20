import Sigma16.BranchAliases

/-!
The whole instruction syntax, printed in any letter case with white space at any place,
and parsed back.
-/

namespace Sigma16

open PyText Fallible
open Unicode (isSpace)

def Blank (gap : Str) : Prop := ∀ char ∈ gap, isSpace char

instance (gap : Str) : Decidable (Blank gap) := List.decidableBAll _ gap

/-- The text holds the tokens in order, in any letter case, with any white space between them. -/
inductive Spells : List Str → Str → Prop
  | nil {gap} : Blank gap → Spells [] gap
  | cons {gap written token tokens text} : Blank gap → upper written = token →
      Spells tokens text → Spells (token :: tokens) (gap ++ (written ++ text))

def Writes (mnemonic : Str) (operands : List Str) (line : Str) : Prop :=
  ∃ gap written space text, line = gap ++ (written ++ space :: text) ∧ Blank gap ∧
    upper written = mnemonic ∧ isSpace space ∧ Spells operands text

inductive RrrName where
  | add | sub | mul | div | cmplt | cmpeq | cmpgt | and | or | xor | nop | trap
  deriving DecidableEq

namespace RrrName

def mnemonic : RrrName → Str
  | add => "ADD".toList
  | sub => "SUB".toList
  | mul => "MUL".toList
  | div => "DIV".toList
  | cmplt => "CMPLT".toList
  | cmpeq => "CMPEQ".toList
  | cmpgt => "CMPGT".toList
  | and => "AND".toList
  | or => "OR".toList
  | xor => "XOR".toList
  | nop => "NOP".toList
  | trap => "TRAP".toList

def opcode : RrrName → Int
  | add => 0
  | sub => 1
  | mul => 2
  | div => 3
  | cmplt => 5
  | cmpeq => 6
  | cmpgt => 7
  | and => 9
  | or => 10
  | xor => 11
  | nop => 12
  | trap => 13

theorem listed (name : RrrName) :
    instructions.lookup name.mnemonic = some (name.opcode, .rrr) ∧ name.opcode ≠ 4 := by
  cases name <;> decide

end RrrName

inductive RxName where
  | lea | load | store | jumpc0 | jumpc1 | jumpf | jumpt | jal
  deriving DecidableEq

namespace RxName

def mnemonic : RxName → Str
  | lea => "LEA".toList
  | load => "LOAD".toList
  | store => "STORE".toList
  | jumpc0 => "JUMPC0".toList
  | jumpc1 => "JUMPC1".toList
  | jumpf => "JUMPF".toList
  | jumpt => "JUMPT".toList
  | jal => "JAL".toList

def opcode : RxName → Int
  | lea => 0
  | load => 1
  | store => 2
  | jumpc0 => 4
  | jumpc1 => 5
  | jumpf => 6
  | jumpt => 7
  | jal => 8

theorem listed (name : RxName) :
    instructions.lookup name.mnemonic = some (name.opcode, .rx) ∧
      implicitDest.lookup name.opcode = none := by
  cases name <;> decide

end RxName

inductive Statement where
  | rrr (name : RrrName) (d sa sb : Register)
  | cmp (sa sb : Register)
  | inv (d sa : Register)
  | mov (d sa : Register)
  | movValue (d : Register) (value : Int)
  | rx (name : RxName) (d : Register) (disp : Int) (sa : Register)
  | jump (disp : Int) (sa : Register)
  | jumpIf (branch : BranchAlias) (disp : Int) (sa : Register)

namespace Statement

def mnemonic : Statement → Str
  | rrr name .. => name.mnemonic
  | cmp .. => "CMP".toList
  | inv .. => "INV".toList
  | mov .. | movValue .. => "MOV".toList
  | rx name .. => name.mnemonic
  | jump .. => "JUMP".toList
  | jumpIf branch .. => branch.mnemonic

def names (registers : List Register) : List Str := (registers.map registerName).intersperse [',']

def address (disp : Int) (sa : Register) : List Str := [decimal disp, ['['], registerName sa, [']']]

def operands : Statement → List Str
  | rrr _ d sa sb => names [d, sa, sb]
  | cmp sa sb => names [sa, sb]
  | inv d sa => names [d, sa]
  | mov d sa => names [d, sa]
  | movValue d value => [registerName d, [','], decimal value]
  | rx _ d disp sa => registerName d :: [','] :: address disp sa
  | jump disp sa => address disp sa
  | jumpIf _ disp sa => address disp sa

def obj : Statement → Obj
  | rrr name d sa sb => .rrr name.opcode d sa sb
  | cmp sa sb => .rrr 4 0 sa sb
  | inv d sa => .rrr 8 d sa 0
  | mov d sa => .rx 0 (.reg d) sa (.int 0)
  | movValue d value => .rx 0 (.reg d) 0 (.int value)
  | rx name d disp sa => .rx name.opcode (.reg d) sa (.int disp)
  | jump disp sa => .rx 3 (.reg 0) sa (.int disp)
  | jumpIf branch disp sa => .rx branch.op.val (.reg branch.bit) sa (.int disp)

end Statement

section Text

variable {gap text mnemonic written line : Str} {tokens operands : List Str}

theorem Blank.upper (blank : Blank gap) : PyText.upper gap = gap :=
  upper_eq_self fun char member => upper_blank (blank char member)

theorem Blank.split (blank : Blank gap) (text : Str) : splitSpace (gap ++ text) = splitSpace text := by
  induction gap with
  | nil => rfl
  | cons char gap ih =>
      rw [List.cons_append, splitSpace_blank (blank char (by simp))]
      exact ih fun other member => blank other (by simp [member])

theorem Blank.not_comment (blank : Blank gap) : ';' ∉ gap := by
  intro member
  have space := blank ';' member
  exact absurd space (by decide)

theorem written_not_comment (plain : IsPlain (upper written)) : ';' ∉ written := by
  intro member
  apply plain.not_comment
  rw [upper, List.mem_flatMap]
  exact ⟨';', member, by decide⟩

theorem Spells.not_comment (spells : Spells tokens text) (plain : ∀ token ∈ tokens, IsPlain token) :
    ';' ∉ text := by
  induction spells with
  | nil blank => exact blank.not_comment
  | cons blank capitals _ ih =>
      have first := plain _ (List.mem_cons_self)
      rw [← capitals] at first
      have rest := ih fun token member => plain token (List.mem_cons_of_mem _ member)
      simp [blank.not_comment, written_not_comment first, rest]

theorem Spells.flatten (plain : ∀ token ∈ tokens, IsPlain token) : Spells tokens tokens.flatten := by
  induction tokens with
  | nil => exact .nil (by decide)
  | cons token tokens ih =>
      rw [List.flatten_cons, ← List.nil_append (token ++ _)]
      exact .cons (by decide) (plain token List.mem_cons_self).upper
        (ih fun other member => plain other (List.mem_cons_of_mem _ member))

theorem Spells.solid (spells : Spells tokens text) (plain : ∀ token ∈ tokens, IsPlain token) :
    ((upper text).filter fun char => !isSpace char) = tokens.flatten := by
  have vanishes : ∀ {gap}, Blank gap → (gap.filter fun char => !isSpace char) = [] := by
    intro gap blank
    rw [List.filter_eq_nil_iff]
    intro char member
    simp [blank char member]
  induction spells with
  | nil blank =>
      rw [blank.upper, vanishes blank]
      rfl
  | @cons gap written token tokens text blank capitals _ ih =>
      have stays : (token.filter fun char => !isSpace char) = token := by
        rw [List.filter_eq_self]
        intro char member
        simp [(plain token List.mem_cons_self).solid char member]
      rw [upper_append, upper_append, blank.upper, capitals, List.filter_append,
        List.filter_append, vanishes blank, stays,
        ih fun token member => plain token (List.mem_cons_of_mem _ member)]
      rfl

theorem Writes.splits (writes : Writes mnemonic operands line) (plain : IsPlain mnemonic)
    (nonempty : mnemonic ≠ []) (plainOperands : ∀ token ∈ operands, IsPlain token) :
    verify line ≠ [] ∧ ∃ chunks, splitSpace (upper (verify line)) = mnemonic :: chunks ∧
      chunks.flatten = operands.flatten := by
  obtain ⟨gap, written, space, text, rfl, blank, rfl, separates, spells⟩ := writes
  have uncommented : ';' ∉ gap ++ (written ++ space :: text) := by
    have notSpace : ';' ≠ space := by
      rintro rfl
      exact absurd separates (by decide)
    simp [blank.not_comment, written_not_comment plain, notSpace,
      spells.not_comment plainOperands]
  have chunks : splitSpace (upper (verify (gap ++ (written ++ space :: text)))) =
      upper written :: splitSpace (upper text) := by
    rw [splitSpace_verify uncommented, upper_append, blank.upper, blank.split, upper_append,
      upper_cons (upper_blank separates), splitSpace_word plain.solid nonempty separates]
  refine ⟨verify_ne_nil chunks, _, chunks, ?_⟩
  rw [flatten_splitSpace, spells.solid plainOperands]

end Text

section Operands

variable {d sa sb : Register}

theorem splitOn_names {registers : List Register} (nonempty : registers ≠ []) :
    (Statement.names registers).flatten.splitOn ',' = registers.map registerName := by
  apply List.splitOn_intercalate
  · intro name member
    obtain ⟨register, _, rfl⟩ := List.mem_map.mp member
    exact (registerName_token register).not_mem (by decide)
  · simpa using nonempty

theorem parseRegisters_names (registers : List Register) :
    parseRegisters (registers.map registerName) = .ok registers := by
  apply mapM_eq_ok.mpr
  induction registers with
  | nil => exact .nil
  | cons register registers ih => exact .cons (parseRegister_strip register) ih

theorem parseMovInst_names : parseMovInst (Statement.names [d, sa]).flatten =
    .ok (.rx 0 (.reg d) sa (.int 0)) := by
  have read : ∀ register, parseRegOrNumeric (strip (registerName register)) = .ok (.reg register) := by
    intro register
    rw [parseRegOrNumeric, parseRegister_strip]
  simp only [parseMovInst, splitOn_names (List.cons_ne_nil _ _), List.map_cons, List.map_nil,
    List.mapM_cons, List.mapM_nil, read, bind, Except.bind, pure, Except.pure]

theorem address_flatten (disp : Int) (sa : Register) :
    (Statement.address disp sa).flatten = indexed (decimal disp) sa := by
  simp [Statement.address, indexed]

theorem parseRxInstruction_implicit {opcode op : Int} (disp : Int)
    (implicit : implicitDest.lookup opcode = some (op, d)) :
    parseRxInstruction opcode (Statement.address disp sa).flatten =
      .ok (.rx op (.reg d) sa (.int disp)) := by
  rw [address_flatten]
  simp only [parseRxInstruction, implicit, List.splitOn_eq_singleton (indexed_decimal _ _),
    List.headD_cons, parseRxOperand_indexed]

theorem parseRxInstruction_explicit {opcode : Int} (disp : Int)
    (explicit : implicitDest.lookup opcode = none) :
    parseRxInstruction opcode (registerName d :: [','] :: Statement.address disp sa).flatten =
      .ok (.rx opcode (.reg d) sa (.int disp)) := by
  have spelled : (registerName d :: [','] :: Statement.address disp sa).flatten =
      registerName d ++ ',' :: indexed (decimal disp) sa := by
    rw [List.flatten_cons, List.flatten_cons, address_flatten]
    rfl
  have chunks : (registerName d ++ ',' :: indexed (decimal disp) sa).splitOn ',' =
      [registerName d, indexed (decimal disp) sa] := by
    rw [List.splitOn_append_cons_self_of_not_mem ((registerName_token d).not_mem (by decide)),
      List.splitOn_eq_singleton (indexed_decimal _ _)]
  rw [spelled]
  simp only [parseRxInstruction, explicit, chunks, List.headD_cons, List.tail_cons,
    List.flatten_singleton, parseRegister_strip, parseRxOperand_indexed, bind, Except.bind]

theorem parseRrrInstruction_names {opcode : Int} (notCmp : opcode ≠ 4) :
    parseRrrInstruction opcode (Statement.names [d, sa, sb]).flatten = .ok (.rrr opcode d sa sb) := by
  rw [parseRrrInstruction, splitOn_names (List.cons_ne_nil _ _), parseRegisters_names]
  simp only [bind, Except.bind, notCmp, if_false, pure, Except.pure]

end Operands

namespace Statement

theorem operands_plain (statement : Statement) : ∀ token ∈ statement.operands, IsPlain token := by
  have name := fun register => (registerName_token register).1
  have value := fun value => (decimal_token value).1
  have comma : IsPlain [','] := by decide
  have opening : IsPlain ['['] := by decide
  have closing : IsPlain [']'] := by decide
  cases statement <;>
    simp [operands, names, address, List.intersperse, name, value, comma, opening, closing]

theorem handled (statement : Statement) : ∃ opcode type,
    instructions.lookup statement.mnemonic = some (opcode, type) ∧
      parseOperands type opcode statement.operands.flatten = .ok statement.obj := by
  cases statement with
  | rrr name d sa sb => exact ⟨_, _, name.listed.1, parseRrrInstruction_names name.listed.2⟩
  | cmp sa sb =>
      refine ⟨4, .pseudo, rfl, ?_⟩
      have spelled : (names [sa, sb]).flatten = registerName sa ++ ',' :: registerName sb := by
        simp [names]
      rw [operands, spelled, parseOperands, parsePseudoInstruction, if_pos rfl, parseCmpInst_names]
      rfl
  | inv d sa =>
      refine ⟨8, .pseudo, rfl, ?_⟩
      rw [operands, parseOperands, parsePseudoInstruction, if_neg (by decide), if_pos rfl,
        parseInvInst, splitOn_names (List.cons_ne_nil _ _), parseRegisters_names]
      rfl
  | mov d sa =>
      refine ⟨-7, .pseudo, rfl, ?_⟩
      rw [operands, parseOperands, parsePseudoInstruction, if_neg (by decide), if_neg (by decide),
        if_pos rfl, parseMovInst_names]
      rfl
  | movValue d value =>
      refine ⟨-7, .pseudo, rfl, ?_⟩
      have spelled : [registerName d, [','], decimal value].flatten =
          registerName d ++ ',' :: decimal value := by
        simp
      rw [operands, spelled, parseOperands, parsePseudoInstruction, if_neg (by decide),
        if_neg (by decide), if_pos rfl, parseMovInst_decimal]
      rfl
  | rx name d disp sa => exact ⟨_, _, name.listed.1, parseRxInstruction_explicit disp name.listed.2⟩
  | jump disp sa =>
      have implicit : implicitDest.lookup 3 = some (3, 0) := by decide
      exact ⟨3, .rx, rfl, parseRxInstruction_implicit disp implicit⟩
  | jumpIf branch disp sa =>
      obtain ⟨opcode, entry, implicit⟩ := branch.resolves
      exact ⟨opcode, .rx, entry, parseRxInstruction_implicit disp implicit⟩

def Written (statement : Statement) (line : Str) : Prop :=
  Writes statement.mnemonic statement.operands line

theorem Written.chunks {statement : Statement} {line : Str} (written : statement.Written line) :
    verify line ≠ [] ∧ ∃ chunks, splitSpace (upper (verify line)) = statement.mnemonic :: chunks ∧
      chunks.flatten = statement.operands.flatten := by
  obtain ⟨opcode, type, listed, _⟩ := statement.handled
  obtain ⟨plain, nonempty⟩ := listed_plain listed
  exact written.splits plain nonempty statement.operands_plain

theorem parses (statement : Statement) {string : Str} {chunks : List Str}
    (split : splitSpace string = statement.mnemonic :: chunks)
    (joined : chunks.flatten = statement.operands.flatten) :
    parseString string = .ok (.obj statement.obj) := by
  obtain ⟨opcode, type, listed, parsed⟩ := statement.handled
  rw [parseString_listed split listed, joined, parsed]
  rfl

end Statement

/-- Every written statement is read as the instruction it stands for. -/
theorem statement_reads (statement : Statement) {line : Str} (written : statement.Written line) :
    Reads line (some (.obj statement.obj)) := by
  obtain ⟨content, chunks, split, joined⟩ := written.chunks
  exact ⟨content, statement.parses split joined⟩

namespace Statement

def line (statement : Statement) : Str := statement.mnemonic ++ ' ' :: statement.operands.flatten

theorem written_line (statement : Statement) : statement.Written statement.line := by
  obtain ⟨opcode, type, listed, _⟩ := statement.handled
  have capitals := (listed_plain listed).1.upper
  exact ⟨[], statement.mnemonic, ' ', _, rfl, by decide, capitals, by decide,
    .flatten statement.operands_plain⟩

end Statement

section Assembling

variable {lines : List Str}

theorem foldlM_addParsed (objs : List Obj) (state : ParseState) :
    (objs.map Parsed.obj).foldlM addParsed state = .ok { state with
      linker.objs := state.linker.objs ++ objs
      parsedObjects := state.parsedObjects + objs.length } := by
  induction objs generalizing state with
  | nil => simp [pure, Except.pure]
  | cons obj objs ih =>
      rw [List.map_cons, List.foldlM_cons]
      refine (ih _).trans ?_
      simp only [List.append_assoc, List.singleton_append, List.length_cons, Except.ok.injEq,
        ParseState.mk.injEq, true_and, and_true]
      omega

theorem Assembles.of_reads {items : List Item}
    (read : List.Forall₂ (fun line item => Reads line (some (.obj item.obj))) lines items) :
    Assembles lines (wordBytes (codeWords items)) := by
  have parsed := parseLines_reads (List.forall₂_map_right_iff.mpr read)
  have objects : (items.map fun item => some (Parsed.obj item.obj)).reduceOption =
      (items.map Item.obj).map Parsed.obj := by
    rw [List.map_map, List.reduceOption, List.filterMap_map]
    exact congrFun List.filterMap_eq_map items
  rw [objects, foldlM_addParsed] at parsed
  exact ⟨_, _, parsed, rfl, link_items items, writeCode_items items⟩

theorem Assembles.of_written {statements : List Statement} {items : List Item}
    (written : List.Forall₂ Statement.Written statements lines)
    (objects : statements.map Statement.obj = items.map Item.obj) :
    Assembles lines (wordBytes (codeWords items)) := by
  apply Assembles.of_reads
  induction written generalizing items with
  | nil =>
      obtain rfl : items = [] := by simpa using objects.symm
      exact .nil
  | @cons statement line statements lines first _ ih =>
      cases items with
      | nil => cases objects
      | cons item items =>
          rw [List.map_cons, List.map_cons, List.cons.injEq] at objects
          refine .cons ?_ (ih objects.2)
          rw [← objects.1]
          obtain ⟨content, chunks, split, joined⟩ := first.chunks
          exact ⟨content, statement.parses split joined⟩

end Assembling

theorem statement_reads_jumple :
    Reads "  JumpLE\t-7 [ r13]\n".toList (some (.obj (.rx 4 (.reg 1) 13 (.int (-7))))) := by
  have spelled : "  JumpLE\t-7 [ r13]\n".toList =
      "  ".toList ++ ("JumpLE".toList ++ '\t' :: ([] ++ ("-7".toList ++ (" ".toList ++
        ("[".toList ++ (" ".toList ++ ("r13".toList ++ ([] ++ ("]".toList ++ "\n".toList))))))))) := by
    decide
  rw [spelled]
  apply statement_reads (.jumpIf .le (-7) 13)
  refine ⟨_, _, _, _, rfl, by decide, by decide, by decide, ?_⟩
  apply Spells.cons (by decide) (by decide)
  apply Spells.cons (by decide) (by decide)
  apply Spells.cons (by decide) (by decide)
  apply Spells.cons (by decide) (by decide)
  exact .nil (by decide)

end Sigma16

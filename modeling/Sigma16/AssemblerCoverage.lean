import Mathlib.Tactic.IntervalCases
import Sigma16.SourceMachine

/-!
Which programs have a source. There is a line for every instruction the emulator can run, but
no place in it for a register its instruction does not use: the destination of CMP and JUMP and
the second operand of INV come out as R0.
-/

namespace Sigma16

open PyText Words Transition Fallible

def AssemblesTo (lines : List Str) (items : List Item) : Prop :=
  ∃ state linked, parseLines lines = .ok state ∧ link state.linker = .ok linked ∧
    linked.objs = items.map Item.obj

/-- The registers without a place in the line of the object are R0. -/
def Obj.Spellable : Obj → Prop
  | .rrr opcode d _ sb => (opcode = 4 → d = 0) ∧ (opcode = 8 → sb = 0)
  | .rx opcode d _ _ => opcode = 3 → d = .reg 0
  | .num _ => True

namespace Statement

def ofRrr (op : Nat) (d sa sb : Register) : Statement :=
  match op with
  | 0 => rrr .add d sa sb
  | 1 => rrr .sub d sa sb
  | 2 => rrr .mul d sa sb
  | 3 => rrr .div d sa sb
  | 4 => cmp sa sb
  | 5 => rrr .cmplt d sa sb
  | 6 => rrr .cmpeq d sa sb
  | 7 => rrr .cmpgt d sa sb
  | 8 => inv d sa
  | 9 => rrr .and d sa sb
  | 10 => rrr .or d sa sb
  | 11 => rrr .xor d sa sb
  | 12 => rrr .nop d sa sb
  | _ => rrr .trap d sa sb

def ofRx (op : Nat) (d sa : Register) (disp : Int) : Statement :=
  match op with
  | 0 => rx .lea d disp sa
  | 1 => rx .load d disp sa
  | 2 => rx .store d disp sa
  | 3 => jump disp sa
  | 4 => rx .jumpc0 d disp sa
  | 5 => rx .jumpc1 d disp sa
  | 6 => rx .jumpf d disp sa
  | 7 => rx .jumpt d disp sa
  | _ => rx .jal d disp sa

end Statement

namespace Item

def line : Item → Str
  | rrr op d sa sb => (Statement.ofRrr op.val d sa sb).line
  | rx op d sa disp => (Statement.ofRx op.val d sa disp.val).line
  | data value => "data ".toList ++ decimal value.val

def spelled : Item → Item
  | rrr op d sa sb => rrr op (if op.val = 4 then 0 else d) sa (if op.val = 8 then 0 else sb)
  | rx op d sa disp => rx op (if op.val = 3 then 0 else d) sa disp
  | data value => data value

end Item

section Printing

variable {lines : List Str} {items : List Item}

theorem Statement.obj_ofRrr (op : Fin 14) (d sa sb : Register) :
    (ofRrr op.val d sa sb).obj = (Item.rrr op d sa sb).spelled.obj := by
  obtain ⟨op, bound⟩ := op
  interval_cases op <;> rfl

theorem Statement.obj_ofRx (op : Fin 9) (d sa : Register) (disp : Signed16) :
    (ofRx op.val d sa disp.val).obj = (Item.rx op d sa disp).spelled.obj := by
  obtain ⟨op, bound⟩ := op
  interval_cases op <;> rfl

theorem Statement.reads_line (statement : Statement) :
    Reads statement.line (some (.obj statement.obj)) := by
  obtain ⟨content, chunks, split, joined⟩ := statement.written_line.chunks
  exact ⟨content, statement.parses split joined⟩

theorem data_reads (value : Int) :
    Reads ("data ".toList ++ decimal value) (some (.obj (.num value))) := by
  have plain := (decimal_token value).1
  have writes : WritesData (decimal value) ("data ".toList ++ decimal value) :=
    ⟨[], "data".toList, ' ', [], [], by simp, by decide, by decide, by decide, by decide, by decide⟩
  refine (writes.reads (fun char member => ⟨plain.solid char member, (plain char member).2.1⟩) ?_
    value).mpr ?_
  · rw [plain.upper]
    exact decimal_ne_nil _
  · rw [plain.upper, parseNumeric_decimal]

theorem Item.reads_line (item : Item) : Reads item.line (some (.obj item.spelled.obj)) := by
  cases item with
  | rrr op d sa sb =>
      rw [← Statement.obj_ofRrr]
      exact Statement.reads_line _
  | rx op d sa disp =>
      rw [← Statement.obj_ofRx]
      exact Statement.reads_line _
  | data value => exact data_reads value.val

theorem AssemblesTo.of_reads
    (read : List.Forall₂ (fun line item => Reads line (some (.obj item.obj))) lines items) :
    AssemblesTo lines items := by
  have parsed := parseLines_reads (List.forall₂_map_right_iff.mpr read)
  have objects : (items.map fun item => some (Parsed.obj item.obj)).reduceOption =
      (items.map Item.obj).map Parsed.obj := by
    rw [List.map_map, List.reduceOption, List.filterMap_map]
    exact congrFun List.filterMap_eq_map items
  rw [objects, foldlM_addParsed] at parsed
  exact ⟨_, _, parsed, link_items items, rfl⟩

theorem AssemblesTo.main (made : AssemblesTo lines items) :
    assemblerMain lines = ⟨some (wordBytes (codeWords items)), none⟩ := by
  obtain ⟨state, linked, parsed, success, objects⟩ := made
  simp only [assemblerMain, parsed, success, objects, writeCode_items]

theorem assemblesTo_lines (items : List Item) :
    AssemblesTo (items.map Item.line) (items.map Item.spelled) := by
  apply AssemblesTo.of_reads
  rw [List.forall₂_map_left_iff, List.forall₂_map_right_iff, List.forall₂_same]
  exact fun item _ => item.reads_line

end Printing

section Parsing

variable {lines : List Str} {name string : Str} {opcode : Int} {type : InstType} {obj : Obj}

theorem listed_spellable (listed : instructions.lookup name = some (opcode, type)) :
    (type = .rrr → opcode ≠ 4 ∧ opcode ≠ 8) ∧
      (type = .rx → opcode = 3 → (implicitDest.lookup opcode).isSome) := by
  have entries : ∀ entry ∈ instructions, (entry.2.2 = .rrr → entry.2.1 ≠ 4 ∧ entry.2.1 ≠ 8) ∧
      (entry.2.2 = .rx → entry.2.1 = 3 → (implicitDest.lookup entry.2.1).isSome) := by
    decide
  exact entries (name, opcode, type) (mem_of_lookup listed)

theorem implicit_spellable {op : Int} {d : Register}
    (implicit : implicitDest.lookup opcode = some (op, d)) : op = 3 → d = 0 := by
  have entries : ∀ entry ∈ implicitDest, entry.2.1 = 3 → entry.2.2 = 0 := by decide
  exact entries (opcode, op, d) (mem_of_lookup implicit)

theorem parseRrrInstruction_spellable (parsed : parseRrrInstruction opcode string = .ok obj)
    (apart : opcode ≠ 4 ∧ opcode ≠ 8) : obj.Spellable := by
  obtain ⟨registers, _, built⟩ := bind_eq_ok.mp parsed
  split at built
  · split at built
    · cases built
    · obtain rfl := Except.ok.inj built
      exact ⟨fun cmp => absurd cmp apart.1, fun inv => absurd inv apart.2⟩
  · cases built

theorem parseCmpInst_spellable (parsed : parseCmpInst 4 string = .ok obj) : obj.Spellable := by
  obtain ⟨registers, _, built⟩ := bind_eq_ok.mp parsed
  split at built
  · obtain rfl := Except.ok.inj built
    exact ⟨fun _ => rfl, fun inv => absurd inv (by decide)⟩
  · cases built

theorem parseInvInst_spellable (parsed : parseInvInst 8 string = .ok obj) : obj.Spellable := by
  obtain ⟨registers, _, built⟩ := bind_eq_ok.mp parsed
  split at built
  · obtain rfl := Except.ok.inj built
    exact ⟨fun cmp => absurd cmp (by decide), fun _ => rfl⟩
  · cases built

theorem parseMovInst_spellable (parsed : parseMovInst string = .ok obj) : obj.Spellable := by
  obtain ⟨_, _, d, source, _, _, _, rfl⟩ := parseMovInst_iff.mp parsed
  cases source <;> exact fun jump => absurd jump (by decide)

theorem parseRxInstruction_spellable (parsed : parseRxInstruction opcode string = .ok obj)
    (implicitJump : opcode = 3 → (implicitDest.lookup opcode).isSome) : obj.Spellable := by
  obtain ⟨op, d, built, dest⟩ := parseRxInstruction_eq_ok parsed
  obtain ⟨_, _, disp, register, _, _, _, rfl⟩ := parseRxOperand_eq_ok built
  intro jump
  rcases dest with implicit | ⟨explicit, rfl, _⟩
  · rw [implicit_spellable implicit jump]
  · rw [explicit] at implicitJump
    -- JUMP always takes its destination from the table
    cases implicitJump jump

theorem parseString_spellable (parsed : parseString string = .ok (.obj obj)) : obj.Spellable := by
  rcases parseString_eq_ok parsed with ⟨value, chunks, number, _, _, same⟩ |
    ⟨name, chunks, opcode, type, built, _, listed, operands, same⟩ | ⟨_, _, other⟩
  · obtain rfl := Parsed.obj.inj same
    trivial
  · obtain rfl := Parsed.obj.inj same
    obtain ⟨plain, implicit⟩ := listed_spellable listed
    cases type with
    | rrr => exact parseRrrInstruction_spellable operands (plain rfl)
    | rx => exact parseRxInstruction_spellable operands (implicit rfl)
    | pseudo =>
        rcases (listed_opcodes listed).2 rfl with rfl | rfl | rfl
        · exact parseCmpInst_spellable operands
        · exact parseInvInst_spellable operands
        · exact parseMovInst_spellable operands
  · cases other

theorem linkObj_spellable {labels : LabelMapping} {linked : Obj}
    (resolved : linkObj labels obj = .ok linked) (spellable : obj.Spellable) : linked.Spellable := by
  unfold linkObj at resolved
  split at resolved
  · split at resolved
    · obtain rfl := Except.ok.inj resolved
      exact spellable
    · cases resolved
  · obtain rfl := Except.ok.inj resolved
    exact spellable

theorem AssemblesTo.spellable {items : List Item} (made : AssemblesTo lines items) :
    ∀ item ∈ items, item.obj.Spellable := by
  obtain ⟨state, linked, parsed, success, objects⟩ := made
  intro item member
  have stored : item.obj ∈ linked.objs := by
    rw [objects]
    exact List.mem_map_of_mem member
  obtain ⟨source, read, resolved⟩ := mapM_source (link_eq_ok success).2 stored
  obtain ⟨line, _, _, accepted⟩ := (parseLines_objects parsed source).mp read
  exact linkObj_spellable resolved (parseString_spellable accepted)

theorem Item.spelled_eq_self {item : Item} (spellable : item.obj.Spellable) : item.spelled = item := by
  cases item with
  | rrr op d sa sb =>
      obtain ⟨cmp, inv⟩ := spellable
      rw [spelled, Item.rrr.injEq]
      refine ⟨rfl, ?_, rfl, ?_⟩
      · split
        · rename_i four
          rw [cmp (by rw [four]; rfl)]
        · rfl
      · split
        · rename_i eight
          rw [inv (by rw [eight]; rfl)]
        · rfl
  | rx op d sa disp =>
      rw [spelled, Item.rx.injEq]
      refine ⟨rfl, ?_, rfl, rfl⟩
      split
      · rename_i three
        exact (Dest.reg.inj (spellable (by rw [three]; rfl))).symm
      · rfl
  | data value => rfl

end Parsing

section Running

variable {items : List Item}

theorem runRrr_spelled (s : ItemState) (op : Fin 14) (d sa sb : Register) :
    s.runRrr (Label.rrrLabels.getD op.val .doBadOp) (if op.val = 4 then 0 else d) sa
        (if op.val = 8 then 0 else sb) =
      s.runRrr (Label.rrrLabels.getD op.val .doBadOp) d sa sb := by
  obtain ⟨op, bound⟩ := op
  interval_cases op <;> rfl

theorem runRx_spelled (parts : Layout) (back : Word) (s : ItemState) (op : Fin 9) (d : Register)
    (operand : Operand) :
    s.runRx parts back (Label.rxLabels.getD op.val .doBadOp) (if op.val = 3 then 0 else d) operand =
      s.runRx parts back (Label.rxLabels.getD op.val .doBadOp) d operand := by
  obtain ⟨op, bound⟩ := op
  interval_cases op <;> rfl

theorem codeLayout_spelled (items : List Item) :
    codeLayout (items.map Item.spelled) = codeLayout items := by
  rw [codeLayout, List.map_map]
  refine List.map_congr_left fun item _ => ?_
  cases item <;> rfl

theorem itemOffset_spelled (items : List Item) (index : Nat) :
    itemOffset (items.map Item.spelled) index = itemOffset items index := by
  simp only [itemOffset, codeWords, ← List.map_take, List.flatMap_map, List.length_flatMap]
  congr 1
  refine List.map_congr_left fun item _ => ?_
  cases item <;> rfl

theorem itemStep_spelled (items : List Item) : itemStep (items.map Item.spelled) = itemStep items := by
  funext s
  unfold itemStep
  rw [List.getElem?_map]
  cases items[s.index]? with
  | none => rfl
  | some item =>
      cases item with
      | rrr op d sa sb => exact runRrr_spelled s op d sa sb
      | rx op d sa disp =>
          simp only [Option.map_some, Item.spelled, ItemState.runItemRx, itemOperand,
            codeLayout_spelled, itemOffset_spelled]
          exact runRx_spelled _ _ s op d _
      | data value => rfl

end Running

/-- The lines of a program are assembled to one that does the same in every state. It is the
program itself exactly when any source at all is assembled to the program. -/
theorem assembler_covers (items : List Item) :
    assemblerMain (items.map Item.line) =
        ⟨some (wordBytes (codeWords (items.map Item.spelled))), none⟩ ∧
      itemStep (items.map Item.spelled) = itemStep items ∧
      ((∃ lines, AssemblesTo lines items) ↔ items.map Item.spelled = items) := by
  refine ⟨(assemblesTo_lines items).main, itemStep_spelled items, ?_, ?_⟩
  · rintro ⟨lines, made⟩
    conv_rhs => rw [← List.map_id items]
    exact List.map_congr_left fun item member => Item.spelled_eq_self (made.spellable item member)
  · intro kept
    refine ⟨items.map Item.line, ?_⟩
    have made := assemblesTo_lines items
    rwa [kept] at made

end Sigma16

import Sigma16.AssemblerSource
import Sigma16.ImageExecution
import Sigma16.VmComparison

/-!
A CMP and a branch alias, from source text to the branch: the alias table, the encoder,
the bits of R15 and `select_bit` agree on what each name compares.
-/

namespace Sigma16

open PyText Words Transition Fallible

/-- The six names `implicit_dest` maps to JUMPC0 or JUMPC1. -/
inductive BranchAlias where
  | lt | le | eq | ne | ge | gt
  deriving DecidableEq

namespace BranchAlias

def mnemonic : BranchAlias → Str
  | lt => "JUMPLT".toList
  | le => "JUMPLE".toList
  | eq => "JUMPEQ".toList
  | ne => "JUMPNE".toList
  | ge => "JUMPGE".toList
  | gt => "JUMPGT".toList

def Relates (branch : BranchAlias) (a b : Int) : Prop :=
  match branch with
  | lt => a < b
  | le => a ≤ b
  | eq => a = b
  | ne => a ≠ b
  | ge => a ≥ b
  | gt => a > b

instance (branch : BranchAlias) (a b : Int) : Decidable (branch.Relates a b) :=
  match branch with
  | lt => inferInstanceAs (Decidable (a < b))
  | le => inferInstanceAs (Decidable (a ≤ b))
  | eq => inferInstanceAs (Decidable (a = b))
  | ne => inferInstanceAs (Decidable (a ≠ b))
  | ge => inferInstanceAs (Decidable (a ≥ b))
  | gt => inferInstanceAs (Decidable (a > b))

def op : BranchAlias → Fin 9
  | le | ne | ge => 4
  | lt | eq | gt => 5

/-- The bit of R15, most significant first. -/
def bit : BranchAlias → Register
  | le | gt => 1
  | eq | ne => 2
  | lt | ge => 3

def label : BranchAlias → Label
  | le | ne | ge => .doJumpc0
  | lt | eq | gt => .doJumpc1

def source (branch : BranchAlias) (ra rb : Register) (target : Int) : List Str :=
  ["cmp".toList ++ ' ' :: (registerName ra ++ ',' :: registerName rb),
   branch.mnemonic ++ ' ' :: indexed (decimal target) 0]

def items (branch : BranchAlias) (ra rb : Register) (target : Signed16) : List Item :=
  [.rrr 4 0 ra rb, .rx branch.op branch.bit 0 target]

end BranchAlias

def Assembles (lines : List Str) (code : List Byte) : Prop :=
  ∃ state linked, parseLines lines = .ok state ∧ state.errors = [] ∧
    link state.linker = .ok linked ∧ writeCode linked.objs = (code, none)

section Assembling

theorem Assembles.unique {lines : List Str} {first second : List Byte}
    (assembled : Assembles lines first) (again : Assembles lines second) : first = second := by
  obtain ⟨state, linked, parsed, _, success, wrote⟩ := assembled
  obtain ⟨state', linked', parsed', _, success', wrote'⟩ := again
  obtain rfl := Except.ok.inj (parsed.symm.trans parsed')
  obtain rfl := Except.ok.inj (success.symm.trans success')
  exact congrArg Prod.fst (wrote.symm.trans wrote')

theorem link_items (items : List Item) :
    link ⟨items.map Item.obj, []⟩ = .ok ⟨items.map Item.obj, []⟩ := by
  have resolved : (items.map Item.obj).mapM (linkObj []) = .ok (items.map Item.obj) := by
    induction items with
    | nil => rfl
    | cons item items ih =>
        have first : linkObj [] item.obj = .ok item.obj := by cases item <;> rfl
        simp only [List.map_cons, List.mapM_cons, first, ih, bind, Except.bind, pure, Except.pure]
  simp only [link, calcLabelOffset, resolved, bind, Except.bind, pure, Except.pure]

variable {state : ParseState} {number : Nat} {line : Str}

theorem parseLine_cmp {ra rb : Register}
    (spelled : strip line = "cmp".toList ++ ' ' :: (registerName ra ++ ',' :: registerName rb)) :
    parseLine state (line, number) = .ok { state with
      linker.objs := state.linker.objs ++ [(Item.rrr 4 0 ra rb).obj]
      parsedObjects := state.parsedObjects + 1 } := by
  have comma : IsPlain [','] := by decide
  have plain : IsPlain (registerName ra ++ ',' :: registerName rb) :=
    (registerName_token ra).1.append (comma.append (registerName_token rb).1)
  have capitals : upper "cmp".toList = "CMP".toList := by decide
  have entry : instructions.lookup "CMP".toList = some (4, .pseudo) := by decide
  refine parseLine_inst spelled capitals (by decide) plain ?_
  rw [parseString_line plain (by simp) entry]
  simp only [parseOperands, parsePseudoInstruction, if_true, parseCmpInst_names]
  rfl

theorem BranchAlias.resolves (branch : BranchAlias) :
    ∃ opcode, instructions.lookup branch.mnemonic = some (opcode, .rx) ∧
      implicitDest.lookup opcode = some ((branch.op.val : Int), branch.bit) := by
  cases branch <;> exact ⟨_, rfl, rfl⟩

theorem BranchAlias.mnemonic_plain (branch : BranchAlias) : IsPlain branch.mnemonic := by
  cases branch <;> decide

theorem BranchAlias.parseLine_alias (branch : BranchAlias) {target : Signed16}
    (spelled : strip line = branch.mnemonic ++ ' ' :: indexed (decimal target.val) 0) :
    parseLine state (line, number) = .ok { state with
      linker.objs := state.linker.objs ++ [(Item.rx branch.op branch.bit 0 target).obj]
      parsedObjects := state.parsedObjects + 1 } := by
  have plain := indexed_plain (decimal_token target.val) 0
  obtain ⟨opcode, entry, implicit⟩ := branch.resolves
  refine parseLine_inst spelled branch.mnemonic_plain.upper branch.mnemonic_plain.not_comment
    plain ?_
  rw [parseString_line plain (by simp [indexed]) entry]
  simp only [parseOperands, parseRxInstruction, implicit,
    List.splitOn_eq_singleton (indexed_decimal _ _), List.headD_cons, parseRxOperand_indexed]
  rfl

theorem BranchAlias.assembles (branch : BranchAlias) {ra rb : Register} {target : Signed16}
    {lines : List Str} (spelled : lines.map strip = branch.source ra rb target.val) :
    Assembles lines (wordBytes (codeWords (branch.items ra rb target))) := by
  obtain ⟨first, second, rfl⟩ : ∃ first second, lines = [first, second] := by
    rw [← List.length_eq_two, ← List.length_map strip, spelled]
    rfl
  simp only [source, List.map_cons, List.map_nil, List.cons.injEq, and_true] at spelled
  refine ⟨⟨⟨(branch.items ra rb target).map Item.obj, []⟩, 2, []⟩, _, ?_, rfl, link_items _,
    writeCode_items _⟩
  simp only [parseLines, List.zipIdx_cons, List.zipIdx_nil, List.foldlM_cons, List.foldlM_nil,
    parseLine_cmp spelled.1, branch.parseLine_alias spelled.2, bind, Except.bind, pure, Except.pure]
  rfl

end Assembling

section Comparing

theorem selectBit_eq (val : Word) (bitPos : Nibble) :
    selectBit val bitPos = val.getLsbD (15 - bitPos.toNat) := by
  have single := @BitVec.and_one_eq_setWidth_ofBool_getLsbD _ (val >>> (15 - bitPos.toNat))
  rw [BitVec.getLsbD_ushiftRight, Nat.add_zero] at single
  unfold selectBit
  rw [show (1 : Word) = 1#16 from rfl, single]
  cases val.getLsbD (15 - bitPos.toNat) <;> decide

theorem selectBit_setFlag (vm : Vm) (flag : Flag) (val : Bool) (bitPos : Nibble) :
    selectBit ((vm.setFlag flag val).cpu.regs 15) bitPos =
      if 15 - bitPos.toNat = flag.bit then val else selectBit (vm.cpu.regs 15) bitPos := by
  rw [selectBit_eq, selectBit_eq, vm.setFlag_bit]

structure Compared (a b status : Word) : Prop where
  greater : selectBit status 1 = b.slt a
  equal : selectBit status 2 = decide (a = b)
  less : selectBit status 3 = a.slt b

theorem doCmp_compared {vm : Vm} (first : vm.cpu.ir.rrr.sa ≠ 15) (second : vm.cpu.ir.rrr.sb ≠ 15) :
    Compared (vm.cpu.regs vm.cpu.ir.rrr.sa) (vm.cpu.regs vm.cpu.ir.rrr.sb)
      ((doCmp vm).cpu.regs 15) := by
  constructor <;> simp only [doCmp, Vm.advance_regs, selectBit_setFlag, Vm.clearFlags_ir,
    Vm.clearFlags_of_ne first, Vm.clearFlags_of_ne second] <;> rfl

theorem BranchAlias.taken_iff (branch : BranchAlias) {vm : Vm} {a b : Word}
    (compared : Compared a b (vm.cpu.regs 15)) (bit : vm.cpu.ir.rx.d = branch.bit) :
    branch.label.taken vm ↔ branch.Relates a.toInt b.toInt := by
  obtain ⟨greater, equal, less⟩ := compared
  have same : a = b ↔ a.toInt = b.toInt := BitVec.toInt_inj.symm
  cases branch <;> simp only [label, Label.taken, bit, BranchAlias.bit, greater, equal, less,
    BitVec.slt, Relates, same, Bool.not_eq_true', decide_eq_true_eq, decide_eq_false_iff_not,
    Int.not_lt, ge_iff_le, gt_iff_lt, ne_eq]

end Comparing

section Execution

variable {Ctx : Type} {observe : TraceEvent → Vm → Ctx → Ctx} {m : Machine Ctx}

theorem vmStep_cmp (observe : TraceEvent → Vm → Ctx → Ctx) {head : Word}
    (fetched : m.vm.word m.vm.cpu.pc.toNat = .ok head) (opcode : nibble head 1 = 4)
    (first : nibble head 3 ≠ 15) (second : nibble head 2 ≠ 15) :
    ∃ middle, vmStep (observing observe) m = .running middle ∧
      middle.vm.cpu.pc = m.vm.cpu.pc + 1 ∧ Frame [15] m.vm middle.vm ∧
      Compared (m.vm.cpu.regs (nibble head 3)) (m.vm.cpu.regs (nibble head 2))
        (middle.vm.cpu.regs 15) := by
  obtain ⟨middle, run, result⟩ := vmStep_doCmp observe fetched opcode
  have frame := doCmp_frame (m.vm.setIr { m.vm.cpu.ir with head })
  refine ⟨middle, run, ?_, ?_, ?_⟩
  · rw [result]
    rfl
  · rw [result]
    exact ⟨frame.mem, frame.zero, frame.regs, frame.control⟩
  · rw [result]
    exact @doCmp_compared (m.vm.setIr { m.vm.cpu.ir with head }) first second

theorem BranchAlias.vmStep_branch (observe : TraceEvent → Vm → Ctx → Ctx) (branch : BranchAlias)
    {sa : Register} {target : Signed16}
    (held : m.vm.Holds m.vm.cpu.pc.toNat (Item.rx branch.op branch.bit sa target).words) :
    ∃ last ir, vmStep (observing observe) m = .running last ∧ ir.rx.d = branch.bit ∧
      (Branches m.vm ↔ branch.label.taken (m.vm.setIr ir)) ∧
      last.vm.cpu.pc = if branch.label.taken (m.vm.setIr ir) then m.vm.cpu.regs sa + target.word
        else m.vm.cpu.pc + 2 := by
  refine vmStep_branches observe _ held ?_ ?_
  · cases branch <;> rfl
  · intro vm
    cases branch <;> rfl

/-- Placed anywhere in memory and run from any state with R0 zero, the two assembled
instructions branch exactly when the signed relation of the alias holds. -/
theorem branch_alias (observe : TraceEvent → Vm → Ctx → Ctx) (branch : BranchAlias)
    {ra rb : Register} (first : ra ≠ 15) (second : rb ≠ 15) (target : Signed16)
    {lines : List Str} (spelled : lines.map strip = branch.source ra rb target.val) :
    ∃ code, Assembles lines code ∧ ∀ m : Machine Ctx,
      m.vm.Carries m.vm.cpu.pc.toNat code → m.vm.cpu.regs 0 = 0 →
        ∃ middle last, vmStep (observing observe) m = .running middle ∧
          vmStep (observing observe) middle = .running last ∧
          (last.vm.cpu.pc.toNat : Int) =
            if branch.Relates (m.vm.cpu.regs ra).toInt (m.vm.cpu.regs rb).toInt
            then target.val % (2 ^ 16 : Int) else m.vm.cpu.pc.toNat + 3 := by
  refine ⟨_, branch.assembles spelled, fun m carried zero => ?_⟩
  have held := carried.holds
  have fetched := held 0 _ rfl
  have mapped := Vm.word_ok_lt (held 2 _ rfl)
  obtain ⟨middle, compares, advanced, frame, compared⟩ := vmStep_cmp observe fetched
    (Item.bswap16_headWord_op _ _ _ _) (by rwa [Item.bswap16_headWord_sa])
    (by rwa [Item.bswap16_headWord_sb])
  rw [Item.bswap16_headWord_sa, Item.bswap16_headWord_sb] at compared
  have jumpHeld : middle.vm.Holds middle.vm.cpu.pc.toNat
      (Item.rx branch.op branch.bit 0 target).words :=
    held.advance (List.cons_ne_nil _ _) frame.mem advanced
  obtain ⟨last, ir, jumps, bit, _, arrives⟩ := branch.vmStep_branch observe jumpHeld
  have relates := @BranchAlias.taken_iff branch (middle.vm.setIr ir) _ _ compared bit
  refine ⟨middle, last, compares, jumps, ?_⟩
  rw [arrives, frame.zero, zero, advanced]
  by_cases holds : branch.Relates (m.vm.cpu.regs ra).toInt (m.vm.cpu.regs rb).toInt
  · rw [if_pos (relates.mpr holds), if_pos holds, ← target.toNat_word]
    exact congrArg (fun word : Word => (word.toNat : Int)) (BitVec.zero_add target.word)
  · rw [if_neg fun taken => holds (relates.mp taken), if_neg holds]
    simp only [memWords, memBytes] at mapped
    bv_omega

end Execution

theorem branch_alias_jumplt :
    ∃ middle last, vmStep (observing fun _ _ ctx => ctx)
        ⟨⟨{ Cpu.zero with regs := fun reg => if reg = 1 then 0xFFFF else 0 },
          loadImage [0x40, 0x12, 0xF3, 0x05, 0x00, 0x07]⟩, (), []⟩ = .running middle ∧
      vmStep (observing fun _ _ ctx => ctx) middle = .running last ∧
      (last.vm.cpu.pc.toNat : Int) = 7 := by
  obtain ⟨code, assembled, runs⟩ := @branch_alias Unit (fun _ _ ctx => ctx) .lt 1 2 (by decide)
    (by decide) ⟨7, by decide⟩ ["cmp R1,R2\n".toList, "JUMPLT 7[R0]".toList] (by decide +kernel)
  have expected : Assembles ["cmp R1,R2\n".toList, "JUMPLT 7[R0]".toList]
      [0x40, 0x12, 0xF3, 0x05, 0x00, 0x07] :=
    ⟨⟨⟨[.rrr 4 0 1 2, .rx 5 (.reg 3) 0 (.int 7)], []⟩, 2, []⟩, _, by decide +kernel, rfl, rfl,
      by decide +kernel⟩
  obtain rfl := assembled.unique expected
  exact runs _ (.of_image (by decide) rfl) rfl

end Sigma16

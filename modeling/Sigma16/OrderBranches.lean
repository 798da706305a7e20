import Sigma16.AssemblerSyntax
import Sigma16.VmArithmetic

/-!
The two ways to branch on an order: a comparison into a register with `jumpt` behind it,
and `cmp` with a branch alias. The first compares the registers as unsigned words.
-/

namespace Sigma16

open PyText Words Transition Fallible

inductive OrderTest where
  | lt | gt | eq
  deriving DecidableEq

namespace OrderTest

def name : OrderTest → RrrName
  | lt => .cmplt
  | gt => .cmpgt
  | eq => .cmpeq

def branch : OrderTest → BranchAlias
  | lt => .lt
  | gt => .gt
  | eq => .eq

def code : OrderTest → Nat
  | lt => 5
  | gt => 7
  | eq => 6

theorem code_lt (test : OrderTest) : test.code < 14 := by
  cases test <;> decide

def opcode (test : OrderTest) : Fin 14 := ⟨test.code, test.code_lt⟩

def label : OrderTest → Label
  | lt => .doCmplt
  | gt => .doCmpgt
  | eq => .doCmpeq

/-- What the C operators make of the promoted operands. -/
def unsigned (test : OrderTest) (a b : Word) : Bool :=
  match test with
  | lt => a.ult b
  | gt => b.ult a
  | eq => a = b

/-- What the casts to `int16_t` make of them. -/
def signed (test : OrderTest) (a b : Word) : Bool :=
  match test with
  | lt => a.slt b
  | gt => b.slt a
  | eq => a = b

def byRegister (test : OrderTest) (d ra rb : Register) (target : Int) : List Statement :=
  [.rrr test.name d ra rb, .rx .jumpt d target 0]

def byStatus (test : OrderTest) (ra rb : Register) (target : Int) : List Statement :=
  [.cmp ra rb, .jumpIf test.branch target 0]

def registerItems (test : OrderTest) (d ra rb : Register) (target : Signed16) : List Item :=
  [.rrr test.opcode d ra rb, .rx ⟨7, by decide⟩ d 0 target]

theorem unsigned_eq_signed (test : OrderTest) (a b : Word) :
    test.unsigned a b = test.signed a b ↔ test = .eq ∨ a.msb = b.msb := by
  cases test with
  | lt =>
      rw [unsigned, signed, BitVec.slt_eq_ult]
      cases a.msb <;> cases b.msb <;> simp
  | gt =>
      rw [unsigned, signed, BitVec.slt_eq_ult]
      cases a.msb <;> cases b.msb <;> simp
  | eq => simp [unsigned, signed]

end OrderTest

section Execution

variable {Ctx : Type} {m m' : Machine Ctx} {d ra rb : Register} {target : Signed16}

def Jumps (observe : TraceEvent → Vm → Ctx → Ctx) (m : Machine Ctx) (target : Word)
    (taken : Bool) : Prop :=
  ∃ middle last, vmStep (observing observe) m = .running middle ∧
    vmStep (observing observe) middle = .running last ∧ (Branches middle.vm ↔ taken) ∧
    last.vm.cpu.pc = if taken then target else m.vm.cpu.pc + 3

theorem OrderTest.body_dest (test : OrderTest) {vm : Vm} (guarded : vm.cpu.ir.rrr.d ≠ 0)
    (notStatus : vm.cpu.ir.rrr.d ≠ 15) :
    ∃ after, test.label.body vm = .ok after ∧ after.cpu.regs vm.cpu.ir.rrr.d =
      if test.unsigned (vm.cpu.regs vm.cpu.ir.rrr.sa) (vm.cpu.regs vm.cpu.ir.rrr.sb) then 1
      else 0 := by
  cases test
  all_goals
    refine ⟨_, rfl, ?_⟩
    refine (applyOpRrr_clearFlags_dest _ guarded notStatus).trans ?_
    simp only [truncate_boolInt, promote_slt, promote_inj, unsigned]
    rfl

theorem OrderTest.vmStep_order (observe : TraceEvent → Vm → Ctx → Ctx) (test : OrderTest)
    (guarded : d ≠ 0) (notStatus : d ≠ 15)
    (held : m.vm.Holds m.vm.cpu.pc.toNat (Item.rrr test.opcode d ra rb).words) :
    ∃ middle, vmStep (observing observe) m = .running middle ∧
      middle.vm.cpu.pc = m.vm.cpu.pc + 1 ∧ middle.vm.mem = m.vm.mem ∧
      middle.vm.cpu.regs 0 = m.vm.cpu.regs 0 ∧
      middle.vm.cpu.regs d =
        if test.unsigned (m.vm.cpu.regs ra) (m.vm.cpu.regs rb) then 1 else 0 := by
  have entry : dispatchTable[(BitVec.ofNat 4 test.opcode.val).toNat]? = some (.inst test.label) := by
    cases test <;> rfl
  have notNop : test.label ≠ .doNop := by cases test <;> decide
  have notStore : test.label ≠ .doStore := by cases test <;> decide
  have straight : ∀ vm, test.label.taken vm = false := by
    intro vm
    cases test <;> rfl
  have size : test.label.size = 1 := by cases test <;> rfl
  obtain ⟨ir, leads, entered, fields⟩ := held.rrr entry
  have dest : (m.vm.setIr ir).cpu.ir.rrr.d = d := congrArg InstRrr.d (fields notNop)
  have left : (m.vm.setIr ir).cpu.ir.rrr.sa = ra := congrArg InstRrr.sa (fields notNop)
  have right : (m.vm.setIr ir).cpu.ir.rrr.sb = rb := congrArg InstRrr.sb (fields notNop)
  obtain ⟨after, body, result⟩ := test.body_dest (by rwa [dest])
    (by rwa [dest] : (m.vm.setIr ir).cpu.ir.rrr.d ≠ 15)
  have frame := Label.body_frame notStore body
  rw [dest, left, right] at result
  refine ⟨_, vmStep_completes leads entered (by cases test <;> decide) body, ?_, frame.mem,
    frame.zero, result⟩
  exact (Label.body_pc (straight _) body).trans (by rw [size]; rfl)

theorem OrderTest.jumps_register (observe : TraceEvent → Vm → Ctx → Ctx) (test : OrderTest)
    (guarded : d ≠ 0) (notStatus : d ≠ 15)
    (held : m.vm.Holds m.vm.cpu.pc.toNat (codeWords (test.registerItems d ra rb target))) :
    Jumps observe m (m.vm.cpu.regs 0 + target.word)
      (test.unsigned (m.vm.cpu.regs ra) (m.vm.cpu.regs rb)) := by
  have first : m.vm.Holds m.vm.cpu.pc.toNat (Item.rrr test.opcode d ra rb).words := by
    intro offset word stored
    cases offset with
    | zero => exact held 0 word stored
    | succ offset => cases stored
  obtain ⟨middle, run, advanced, same, zero, result⟩ :=
    test.vmStep_order observe guarded notStatus first
  have jumpHeld : middle.vm.Holds middle.vm.cpu.pc.toNat
      (Item.rx ⟨7, by decide⟩ d 0 target).words :=
    held.advance (List.cons_ne_nil _ _) same advanced
  obtain ⟨last, ir, jumps, bit, branches, arrives⟩ :=
    vmStep_branches observe .doJumpt jumpHeld rfl fun _ => rfl
  have taken : Label.doJumpt.taken (middle.vm.setIr ir) =
      test.unsigned (m.vm.cpu.regs ra) (m.vm.cpu.regs rb) := by
    simp only [Label.taken, Vm.setIr_ir, Vm.setIr_regs, bit, result]
    cases test.unsigned (m.vm.cpu.regs ra) (m.vm.cpu.regs rb) <;> rfl
  rw [taken] at branches arrives
  refine ⟨middle, last, run, jumps, branches, ?_⟩
  rw [arrives, zero, advanced, BitVec.add_assoc]
  rfl

theorem OrderTest.jumps_status (observe : TraceEvent → Vm → Ctx → Ctx) (test : OrderTest)
    (first : ra ≠ 15) (second : rb ≠ 15)
    (held : m.vm.Holds m.vm.cpu.pc.toNat (codeWords (test.branch.items ra rb target))) :
    Jumps observe m (m.vm.cpu.regs 0 + target.word)
      (test.signed (m.vm.cpu.regs ra) (m.vm.cpu.regs rb)) := by
  have fetched := held 0 _ rfl
  obtain ⟨middle, compares, advanced, frame, compared⟩ := vmStep_cmp observe fetched
    (Item.bswap16_headWord_op _ _ _ _) (by rwa [Item.bswap16_headWord_sa])
    (by rwa [Item.bswap16_headWord_sb])
  rw [Item.bswap16_headWord_sa, Item.bswap16_headWord_sb] at compared
  have jumpHeld : middle.vm.Holds middle.vm.cpu.pc.toNat
      (Item.rx test.branch.op test.branch.bit 0 target).words :=
    held.advance (List.cons_ne_nil _ _) frame.mem advanced
  obtain ⟨last, ir, jumps, bit, branches, arrives⟩ :=
    test.branch.vmStep_branch observe jumpHeld
  have taken : test.branch.label.taken (middle.vm.setIr ir) =
      test.signed (m.vm.cpu.regs ra) (m.vm.cpu.regs rb) := by
    cases test
    case lt => exact (congrArg _ bit).trans compared.less
    case gt => exact (congrArg _ bit).trans compared.greater
    case eq => exact (congrArg _ bit).trans compared.equal
  rw [taken] at branches arrives
  refine ⟨middle, last, compares, jumps, branches, ?_⟩
  rw [arrives, frame.zero, advanced, BitVec.add_assoc]
  rfl

/-- From states with the same registers the two ways branch alike exactly when the test is
for equality or the operands have the same sign. -/
theorem order_branches (observe : TraceEvent → Vm → Ctx → Ctx) (test : OrderTest)
    (guarded : d ≠ 0) (notStatus : d ≠ 15) (first : ra ≠ 15) (second : rb ≠ 15)
    {registerLines statusLines : List Str}
    (byRegister : List.Forall₂ Statement.Written (test.byRegister d ra rb target.val) registerLines)
    (byStatus : List.Forall₂ Statement.Written (test.byStatus ra rb target.val) statusLines) :
    ∃ registerCode statusCode, Assembles registerLines registerCode ∧
      Assembles statusLines statusCode ∧ ∀ m m' : Machine Ctx,
        m.vm.Carries m.vm.cpu.pc.toNat registerCode →
        m'.vm.Carries m'.vm.cpu.pc.toNat statusCode → m'.vm.cpu.regs = m.vm.cpu.regs →
        ∃ taken taken', Jumps observe m (m.vm.cpu.regs 0 + target.word) taken ∧
          Jumps observe m' (m.vm.cpu.regs 0 + target.word) taken' ∧
          (taken = taken' ↔
            test = .eq ∨ (m.vm.cpu.regs ra).msb = (m.vm.cpu.regs rb).msb) := by
  have registerObjects : (test.byRegister d ra rb target.val).map Statement.obj =
      (test.registerItems d ra rb target).map Item.obj := by
    cases test <;> rfl
  have statusObjects : (test.byStatus ra rb target.val).map Statement.obj =
      (test.branch.items ra rb target).map Item.obj := by
    cases test <;> rfl
  refine ⟨_, _, .of_written byRegister registerObjects, .of_written byStatus statusObjects, ?_⟩
  intro m m' carried carried' same
  have status := test.jumps_status observe first second carried'.holds
  rw [same] at status
  exact ⟨_, _, test.jumps_register observe guarded notStatus carried.holds, status,
    test.unsigned_eq_signed _ _⟩

end Execution

theorem order_branches_lt : ∃ taken taken',
    Jumps (fun _ _ ctx => ctx)
      ⟨⟨{ Cpu.zero with regs := fun reg => if reg = 3 then 1 else 0 },
        loadImage [0x51, 0x23, 0xF1, 0x07, 0x00, 0x09]⟩, (), []⟩ 9 taken ∧
    Jumps (fun _ _ ctx => ctx)
      ⟨⟨{ Cpu.zero with regs := fun reg => if reg = 3 then 1 else 0 },
        loadImage [0x40, 0x23, 0xF3, 0x05, 0x00, 0x09]⟩, (), []⟩ 9 taken' ∧ taken = taken' := by
  obtain ⟨registerCode, statusCode, assembled, assembled', alike⟩ := @order_branches Unit 1 2 3
    ⟨9, by decide⟩ (fun _ _ ctx => ctx) .lt (by decide) (by decide) (by decide) (by decide) _ _
    (.cons (Statement.written_line _) (.cons (Statement.written_line _) .nil))
    (.cons (Statement.written_line _) (.cons (Statement.written_line _) .nil))
  have expected : Assembles
      [(Statement.rrr .cmplt 1 2 3).line, (Statement.rx .jumpt 1 9 0).line]
      [0x51, 0x23, 0xF1, 0x07, 0x00, 0x09] :=
    ⟨⟨⟨[.rrr 5 1 2 3, .rx 7 (.reg 1) 0 (.int 9)], []⟩, 2, []⟩, _, by decide +kernel, rfl, rfl,
      by decide +kernel⟩
  have expected' : Assembles
      [(Statement.cmp 2 3).line, (Statement.jumpIf .lt 9 0).line]
      [0x40, 0x23, 0xF3, 0x05, 0x00, 0x09] :=
    ⟨⟨⟨[.rrr 4 0 2 3, .rx 5 (.reg 3) 0 (.int 9)], []⟩, 2, []⟩, _, by decide +kernel, rfl, rfl,
      by decide +kernel⟩
  obtain rfl := assembled.unique expected
  obtain rfl := assembled'.unique expected'
  obtain ⟨taken, taken', jumps, jumps', same⟩ := alike
    ⟨⟨{ Cpu.zero with regs := fun reg => if reg = 3 then 1 else 0 },
      loadImage [0x51, 0x23, 0xF1, 0x07, 0x00, 0x09]⟩, (), []⟩
    ⟨⟨{ Cpu.zero with regs := fun reg => if reg = 3 then 1 else 0 },
      loadImage [0x40, 0x23, 0xF3, 0x05, 0x00, 0x09]⟩, (), []⟩
    (.of_image (by decide) rfl) (.of_image (by decide) rfl) rfl
  exact ⟨taken, taken', jumps, jumps', same.mpr (.inr (by decide))⟩

theorem order_branches_differ :
    Assembles ["cmplt R1,R2,R3".toList, "jumpt R1,9[R0]".toList]
      [0x51, 0x23, 0xF1, 0x07, 0x00, 0x09] ∧
    Assembles ["cmp R2,R3".toList, "jumplt 9[R0]".toList]
      [0x40, 0x23, 0xF3, 0x05, 0x00, 0x09] ∧
    Jumps (fun _ _ ctx => ctx)
      ⟨⟨{ Cpu.zero with regs := fun reg => if reg = 2 then 0x8000 else 0 },
        loadImage [0x51, 0x23, 0xF1, 0x07, 0x00, 0x09]⟩, (), []⟩ 9 false ∧
    Jumps (fun _ _ ctx => ctx)
      ⟨⟨{ Cpu.zero with regs := fun reg => if reg = 2 then 0x8000 else 0 },
        loadImage [0x40, 0x23, 0xF3, 0x05, 0x00, 0x09]⟩, (), []⟩ 9 true := by
  refine ⟨?_, ?_, ?_, ?_⟩
  · exact ⟨⟨⟨[.rrr 5 1 2 3, .rx 7 (.reg 1) 0 (.int 9)], []⟩, 2, []⟩, _, by decide +kernel, rfl, rfl,
      by decide +kernel⟩
  · exact ⟨⟨⟨[.rrr 4 0 2 3, .rx 5 (.reg 3) 0 (.int 9)], []⟩, 2, []⟩, _, by decide +kernel, rfl, rfl,
      by decide +kernel⟩
  · have held : (⟨{ Cpu.zero with regs := fun reg => if reg = 2 then 0x8000 else 0 },
        loadImage [0x51, 0x23, 0xF1, 0x07, 0x00, 0x09]⟩ : Vm).Holds 0
        (codeWords (OrderTest.lt.registerItems 1 2 3 ⟨9, by decide⟩)) :=
      .of_image (by decide) rfl
    exact @OrderTest.jumps_register Unit _ 1 2 3 ⟨9, by decide⟩ (fun _ _ ctx => ctx) .lt
      (by decide) (by decide) held
  · have held : (⟨{ Cpu.zero with regs := fun reg => if reg = 2 then 0x8000 else 0 },
        loadImage [0x40, 0x23, 0xF3, 0x05, 0x00, 0x09]⟩ : Vm).Holds 0
        (codeWords (OrderTest.lt.branch.items 2 3 ⟨9, by decide⟩)) :=
      .of_image (by decide) rfl
    exact @OrderTest.jumps_status Unit _ 2 3 ⟨9, by decide⟩ (fun _ _ ctx => ctx) .lt
      (by decide) (by decide) held

end Sigma16

import Sigma16.VmFrame

/-!
The nine RRR computing instructions against plain 16-bit arithmetic.
-/

namespace Sigma16

open Words Transition

inductive AluOp where
  | add | sub | mul | div | cmpeq | inv | and | or | xor
  deriving DecidableEq

namespace AluOp

def opcode : AluOp → Nibble
  | add => 0
  | sub => 1
  | mul => 2
  | div => 3
  | cmpeq => 6
  | inv => 8
  | and => 9
  | or => 10
  | xor => 11

/-- What the operation makes of the operand values `a` and `b`: the registers `after`
it, where those `before` it stand for a division by zero. -/
def Computes (op : AluOp) (d : Nibble) (a b : Word) (before after : Nibble → Word) : Prop :=
  match op with
  | add => (after d).toNat = (a.toNat + b.toNat) % 2 ^ 16
  | sub => ((after d).toNat : Int) = ((a.toNat : Int) - b.toNat) % 2 ^ 16
  | mul => (after d).toNat = a.toNat * b.toNat % 2 ^ 16
  | div => if b = 0 then after = before
      else a.toNat = (after d).toNat * b.toNat + (after 15).toNat ∧ (after 15).toNat < b.toNat
  | cmpeq => after d = if a = b then 1 else 0
  | inv => after d = ~~~a
  | and => after d = a &&& b
  | or => after d = a ||| b
  | xor => after d = a ^^^ b

def label : AluOp → Label
  | add => .doAdd
  | sub => .doSub
  | mul => .doMul
  | div => .doDiv
  | cmpeq => .doCmpeq
  | inv => .doInvold
  | and => .doAndold
  | or => .doOrold
  | xor => .doXorold

theorem dispatchTable_label (op : AluOp) :
    dispatchTable[op.opcode.toNat]? = some (.inst op.label) := by
  cases op <;> rfl

end AluOp

section Handlers

variable {vm : Vm}

theorem doDiv_zero (divisor : vm.cpu.regs vm.cpu.ir.rrr.sb = 0) :
    (doDiv vm).cpu.regs = vm.cpu.regs := by
  simp only [doDiv, opDiv, promote_eq_zero, divisor, if_true, Vm.advance_regs]

theorem doDiv_quotient (divisor : vm.cpu.regs vm.cpu.ir.rrr.sb ≠ 0)
    (guarded : vm.cpu.ir.rrr.d ≠ 0) (notStatus : vm.cpu.ir.rrr.d ≠ 15) :
    (doDiv vm).cpu.regs vm.cpu.ir.rrr.d =
      vm.cpu.regs vm.cpu.ir.rrr.sa / vm.cpu.regs vm.cpu.ir.rrr.sb := by
  simp only [doDiv, opDiv, promote_eq_zero, divisor, if_false, Vm.safeUpdate_ir, notStatus,
    ne_eq, not_false_eq_true, if_true, Vm.advance_regs, Vm.setReg_regs]
  rw [Function.update_of_ne notStatus, Vm.safeUpdate_self guarded, truncate_sdiv]

theorem doDiv_remainder (divisor : vm.cpu.regs vm.cpu.ir.rrr.sb ≠ 0)
    (notStatus : vm.cpu.ir.rrr.d ≠ 15) :
    (doDiv vm).cpu.regs 15 = vm.cpu.regs vm.cpu.ir.rrr.sa % vm.cpu.regs vm.cpu.ir.rrr.sb := by
  simp only [doDiv, opDiv, promote_eq_zero, divisor, if_false, Vm.safeUpdate_ir, notStatus,
    ne_eq, not_false_eq_true, if_true, Vm.advance_regs, Vm.setReg_regs, Function.update_self,
    truncate_srem]

theorem doAdd_dest (guarded : vm.cpu.ir.rrr.d ≠ 0) (notStatus : vm.cpu.ir.rrr.d ≠ 15) :
    (doAdd vm).cpu.regs vm.cpu.ir.rrr.d =
      vm.cpu.regs vm.cpu.ir.rrr.sa + vm.cpu.regs vm.cpu.ir.rrr.sb := by
  simp only [doAdd]
  repeat rw [Vm.setFlag_of_ne notStatus]
  rw [Vm.clearFlags_of_ne notStatus, Vm.applyOpRrr_self _ guarded, truncate_add,
    truncate_promote, truncate_promote]

theorem doInvold_dest (guarded : vm.cpu.ir.rrr.d ≠ 0) (notStatus : vm.cpu.ir.rrr.d ≠ 15) :
    (doInvold vm).cpu.regs vm.cpu.ir.rrr.d = ~~~vm.cpu.regs vm.cpu.ir.rrr.sa := by
  simp only [doInvold]
  rw [Vm.clearFlags_of_ne notStatus, Vm.advance_regs, Vm.safeUpdate_self guarded, truncate_not,
    truncate_promote]

theorem applyOpRrr_clearFlags_dest (op : CInt → CInt → CInt) (guarded : vm.cpu.ir.rrr.d ≠ 0)
    (notStatus : vm.cpu.ir.rrr.d ≠ 15) :
    (vm.applyOpRrr op).clearFlags.cpu.regs vm.cpu.ir.rrr.d =
      truncate (op (promote (vm.cpu.regs vm.cpu.ir.rrr.sa))
        (promote (vm.cpu.regs vm.cpu.ir.rrr.sb))) := by
  rw [Vm.clearFlags_of_ne notStatus, Vm.applyOpRrr_self _ guarded]

theorem word_divMod (a b : Word) (nonzero : b ≠ 0) :
    a.toNat = (a / b).toNat * b.toNat + (a % b).toNat ∧ (a % b).toNat < b.toNat := by
  have positive : 0 < b.toNat :=
    Nat.pos_of_ne_zero fun zero => nonzero (BitVec.eq_of_toNat_eq zero)
  rw [BitVec.toNat_udiv, BitVec.toNat_umod]
  exact ⟨(Nat.div_add_mod' a.toNat b.toNat).symm, Nat.mod_lt _ positive⟩

theorem word_sub_toInt (a b : Word) :
    ((a - b).toNat : Int) = ((a.toNat : Int) - b.toNat) % 2 ^ 16 := by
  have boundA := a.isLt
  have boundB := b.isLt
  rw [BitVec.toNat_sub]
  omega

theorem AluOp.body_computes (op : AluOp) (guarded : vm.cpu.ir.rrr.d ≠ 0)
    (notStatus : vm.cpu.ir.rrr.d ≠ 15) :
    ∃ after, op.label.body vm = .ok after ∧ after.cpu.pc = vm.cpu.pc + 1 ∧
      op.Computes vm.cpu.ir.rrr.d (vm.cpu.regs vm.cpu.ir.rrr.sa) (vm.cpu.regs vm.cpu.ir.rrr.sb)
        vm.cpu.regs after.cpu.regs := by
  have plain := fun f => Vm.applyOpRrr_self f guarded
  have flagged := fun f => applyOpRrr_clearFlags_dest f guarded notStatus
  obtain ⟨after, ran⟩ : ∃ after, op.label.body vm = .ok after := by
    cases op <;> exact ⟨_, rfl⟩
  have straight : op.label.taken vm = false := by cases op <;> rfl
  have words : op.label.size = 1 := by cases op <;> rfl
  refine ⟨after, ran, words ▸ Label.body_pc straight ran, ?_⟩
  cases op <;> obtain rfl := Except.ok.inj ran
  case add =>
    simp only [Computes, doAdd_dest guarded notStatus, BitVec.toNat_add]
  case sub =>
    simp only [Computes, doSub, plain, truncate_sub, truncate_promote]
    exact word_sub_toInt _ _
  case mul =>
    simp only [Computes, doMul, plain, truncate_mul, truncate_promote, BitVec.toNat_mul]
  case div =>
    simp only [Computes]
    split
    · rename_i divisor
      exact doDiv_zero divisor
    · rename_i divisor
      rw [doDiv_quotient divisor guarded notStatus, doDiv_remainder divisor notStatus]
      exact word_divMod _ _ divisor
  case cmpeq =>
    simp only [Computes, doCmpeq, flagged, truncate_boolInt, promote_inj, decide_eq_true_eq]
  case inv => exact doInvold_dest guarded notStatus
  case and => simp only [Computes, doAndold, flagged, truncate_and, truncate_promote]
  case or => simp only [Computes, doOrold, flagged, truncate_or, truncate_promote]
  case xor => simp only [Computes, doXorold, flagged, truncate_xor, truncate_promote]

end Handlers

section Execution

variable {Ctx : Type} {m : Machine Ctx} {head : Word}

/-- A computing instruction at `pc` leaves the result of the PRE-state operands in its
destination, whichever registers it names, and goes on to the next word. -/
theorem computing_instruction (observe : TraceEvent → Vm → Ctx → Ctx) (op : AluOp)
    (fetched : m.vm.word m.vm.cpu.pc.toNat = .ok head) (opcode : nibble head 1 = op.opcode)
    (guarded : nibble head 0 ≠ 0) (notStatus : nibble head 0 ≠ 15) :
    ∃ next, vmStep (observing observe) m = .running next ∧
      next.vm.cpu.pc = m.vm.cpu.pc + 1 ∧
      op.Computes (nibble head 0) (m.vm.cpu.regs (nibble head 3))
        (m.vm.cpu.regs (nibble head 2)) m.vm.cpu.regs next.vm.cpu.regs := by
  have leads : Dispatches m.vm m.vm op.label :=
    .inst fetched (opcode ▸ op.dispatchTable_label)
  have entered : op.label.enter m.vm = .ok (m.vm.setIr { m.vm.cpu.ir with head }) := by
    have refilled := interpRrr_eq_ok.mpr ⟨head, fetched, rfl⟩
    cases op <;> exact refilled
  have notTrap : op.label ≠ .doTrap := by cases op <;> decide
  obtain ⟨after, ran, advanced, computed⟩ :=
    @AluOp.body_computes (m.vm.setIr { m.vm.cpu.ir with head }) op guarded notStatus
  exact ⟨_, vmStep_completes leads entered notTrap ran, advanced, computed⟩

end Execution

theorem computing_instruction_add :
    ∃ next, vmStep (observing fun _ _ ctx => ctx)
        ⟨⟨{ Cpu.zero with regs := fun reg => if reg = 2 then 0xFFFF else 3 },
          loadImage [0x01, 0x23]⟩, (), []⟩ = .running next ∧
      next.vm.cpu.pc = 1 ∧
      AluOp.add.Computes 1 0xFFFF 3 (fun reg => if reg = 2 then 0xFFFF else 3)
        next.vm.cpu.regs :=
  @computing_instruction _ _ 0x2301 _ .add rfl rfl (by decide) (by decide)

end Sigma16

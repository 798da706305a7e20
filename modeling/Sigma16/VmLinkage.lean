import Sigma16.ImageExecution

/-!
JAL and the return through its link register. `do_jal` writes the register before it
computes where to go, which a target in the same register can notice.
-/

namespace Sigma16

open Words Transition

variable {Ctx : Type} {m : Machine Ctx} {d sa : Register} {disp : Signed16}

theorem zero_fits : -32768 ≤ (0 : Int) ∧ (0 : Int) ≤ 32767 := by decide

/-- From `m` to `next` control went to the effective address of the PRE-state, and what
the link register got leads back behind the call. -/
structure Calls (observe : TraceEvent → Vm → Ctx → Ctx) (d sa : Register) (disp : Word)
    (m next : Machine Ctx) : Prop where
  target : next.vm.cpu.pc = m.vm.cpu.regs sa + disp
  link : d ≠ 0 → next.vm.cpu.regs d = m.vm.cpu.pc + 2
  -- `jump 0[Rd]`, wherever the subroutine ends
  returns : d ≠ 0 → ∀ last, Reaches (vmStep (observing observe)) next last →
    last.vm.cpu.regs d = next.vm.cpu.regs d →
    last.vm.Holds last.vm.cpu.pc.toNat (Item.rx ⟨3, by decide⟩ 0 d ⟨0, zero_fits⟩).words →
    ∃ final, vmStep (observing observe) last = .running final ∧
      final.vm.cpu.pc = m.vm.cpu.pc + 2

theorem doJal_pc (vm : Vm) :
    (doJal vm).cpu.pc =
      (vm.safeUpdate vm.cpu.ir.rx.d (vm.cpu.pc + 2)).cpu.regs vm.cpu.ir.rx.sa +
        vm.cpu.ir.rx.disp := by
  rw [doJal, branch_pc, if_pos rfl, Vm.safeUpdate_ir]

theorem doJal_regs (vm : Vm) :
    (doJal vm).cpu.regs = (vm.safeUpdate vm.cpu.ir.rx.d (vm.cpu.pc + 2)).cpu.regs := rfl

theorem vmStep_jal (observe : TraceEvent → Vm → Ctx → Ctx)
    (held : m.vm.Holds m.vm.cpu.pc.toNat (Item.rx ⟨8, by decide⟩ d sa disp).words) :
    ∃ next, vmStep (observing observe) m = .running next ∧
      next.vm.cpu.regs = (m.vm.safeUpdate d (m.vm.cpu.pc + 2)).cpu.regs ∧
      next.vm.cpu.pc = (m.vm.safeUpdate d (m.vm.cpu.pc + 2)).cpu.regs sa + disp.word := by
  obtain ⟨ir, leads, entered, fields⟩ := held.rx .doJal rfl
  have dest : (m.vm.setIr ir).cpu.ir.rx.d = d := congrArg InstRx.d fields
  have base : (m.vm.setIr ir).cpu.ir.rx.sa = sa := congrArg InstRx.sa fields
  have offset : (m.vm.setIr ir).cpu.ir.rx.disp = disp.word := congrArg InstRx.disp fields
  have kept : ((m.vm.setIr ir).safeUpdate d (m.vm.cpu.pc + 2)).cpu.regs =
      (m.vm.safeUpdate d (m.vm.cpu.pc + 2)).cpu.regs := by
    unfold Vm.safeUpdate
    split <;> rfl
  refine ⟨_, vmStep_completes leads entered (by decide) rfl, ?_, ?_⟩
  · rw [doJal_regs, dest]
    exact kept
  · rw [doJal_pc, dest, base, offset]
    exact congrArg (fun regs => regs sa + disp.word) kept

theorem vmStep_jump (observe : TraceEvent → Vm → Ctx → Ctx)
    (held : m.vm.Holds m.vm.cpu.pc.toNat (Item.rx ⟨3, by decide⟩ d sa disp).words) :
    ∃ next, vmStep (observing observe) m = .running next ∧
      next.vm.cpu.pc = m.vm.cpu.regs sa + disp.word := by
  obtain ⟨ir, leads, entered, fields⟩ := held.rx .doJump rfl
  refine ⟨_, vmStep_completes leads entered (by decide) rfl, ?_⟩
  rw [doJump, branch_pc, if_pos rfl, Vm.setIr_ir, fields]
  rfl

/-- A JAL goes where its PRE-state says exactly when the link register is not the base of
the target, or already held the return address. -/
theorem jal_calls (observe : TraceEvent → Vm → Ctx → Ctx)
    (held : m.vm.Holds m.vm.cpu.pc.toNat (Item.rx ⟨8, by decide⟩ d sa disp).words) :
    ∃ next, vmStep (observing observe) m = .running next ∧
      (Calls observe d sa disp.word m next ↔
        d = 0 ∨ d ≠ sa ∨ m.vm.cpu.regs sa = m.vm.cpu.pc + 2) := by
  obtain ⟨next, run, regs, arrives⟩ := vmStep_jal observe held
  have linked : d ≠ 0 → next.vm.cpu.regs d = m.vm.cpu.pc + 2 := by
    intro guarded
    rw [regs, Vm.safeUpdate_self guarded]
  refine ⟨next, run, ?_⟩
  constructor
  · intro calls
    by_cases guarded : d = 0
    · exact .inl guarded
    · by_cases same : d = sa
      · subst d
        have target := arrives.symm.trans calls.target
        rw [Vm.safeUpdate_self guarded] at target
        exact .inr (.inr ((BitVec.add_left_inj _).mp target).symm)
      · exact .inr (.inl same)
  · intro unnoticed
    refine ⟨?_, linked, ?_⟩
    · have base : (m.vm.safeUpdate d (m.vm.cpu.pc + 2)).cpu.regs sa = m.vm.cpu.regs sa := by
        by_cases guarded : d = 0
        · rw [Vm.safeUpdate, if_neg (not_not.mpr guarded)]
        · by_cases same : d = sa
          · subst d
            rw [Vm.safeUpdate_self guarded]
            rcases unnoticed with zero | apart | already
            · exact absurd zero guarded
            · exact absurd rfl apart
            · exact already.symm
          · rw [Vm.safeUpdate, if_pos guarded]
            exact Function.update_of_ne (Ne.symm same) _ _
      rw [arrives, base]
    · intro guarded last _ kept jump
      obtain ⟨final, jumps, returned⟩ := vmStep_jump observe jump
      refine ⟨final, jumps, ?_⟩
      rw [returned, kept, linked guarded]
      exact BitVec.add_zero _

theorem jal_calls_plain : ∃ next,
    vmStep (observing fun _ _ ctx => ctx) (Machine.boot [0xFE, 0x18, 0x00, 0x04]) =
        .running next ∧
      Calls (fun _ _ ctx => ctx) 14 1 4 (Machine.boot [0xFE, 0x18, 0x00, 0x04]) next := by
  have held : (Machine.boot [0xFE, 0x18, 0x00, 0x04]).vm.Holds 0
      (Item.rx ⟨8, by decide⟩ 14 1 ⟨4, by decide⟩).words :=
    .of_image (by decide) rfl
  obtain ⟨next, run, calls⟩ := jal_calls (fun _ _ ctx => ctx) held
  exact ⟨next, run, calls.mpr (.inr (.inl (by decide)))⟩

/-- `jal R1,0[R1]` at address 0 with 5 in R1 falls through to the next instruction. -/
theorem jal_calls_aliased : ∃ next,
    vmStep (observing fun _ _ ctx => ctx)
      ⟨⟨{ Cpu.zero with regs := fun reg => if reg = 1 then 5 else 0 },
        loadImage [0xF1, 0x18, 0x00, 0x00]⟩, (), []⟩ = .running next ∧
      next.vm.cpu.pc = 2 ∧
      ¬ Calls (fun _ _ ctx => ctx) 1 1 0
        ⟨⟨{ Cpu.zero with regs := fun reg => if reg = 1 then 5 else 0 },
          loadImage [0xF1, 0x18, 0x00, 0x00]⟩, (), []⟩ next := by
  have held : (⟨{ Cpu.zero with regs := fun reg => if reg = 1 then 5 else 0 },
      loadImage [0xF1, 0x18, 0x00, 0x00]⟩ : Vm).Holds 0
      (Item.rx ⟨8, by decide⟩ 1 1 ⟨0, by decide⟩).words :=
    .of_image (by decide) rfl
  obtain ⟨next, run, _, arrives⟩ := @vmStep_jal Unit
    ⟨⟨{ Cpu.zero with regs := fun reg => if reg = 1 then 5 else 0 },
      loadImage [0xF1, 0x18, 0x00, 0x00]⟩, (), []⟩ 1 1 ⟨0, by decide⟩ (fun _ _ ctx => ctx) held
  refine ⟨next, run, arrives, fun calls => ?_⟩
  have target := arrives.symm.trans calls.target
  exact absurd target (by decide)

end Sigma16

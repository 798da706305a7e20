import Sigma16.VmFrame

/-!
CMP against the five relations it reports. `do_cmp` clears R15 before it reads its
operands, which an operand in R15 can notice.
-/

namespace Sigma16

open Words Transition

def Flag.relates (flag : Flag) (a b : Word) : Bool :=
  match flag with
  | G => b < a
  | g => b.slt a
  | E => a = b
  | l => a.slt b
  | L => a < b
  | C | v | V => false

structure Compares (a b : Word) (before after : Nibble → Word) : Prop where
  flags : ∀ flag, (after 15).getLsbD flag.bit = Flag.relates flag a b
  padding : ∀ index, index < 8 → (after 15).getLsbD index = false
  others : ∀ reg, reg ≠ 15 → after reg = before reg

def ZeroInstead (status other : Word) : Prop :=
  status.toNat < 2 ^ 15 ∧ (status = 0 ∨ status < other)

/-- No operand is R15, or both are, or the one that is compares with the other as zero does. -/
def ClearsUnnoticed (regs : Nibble → Word) (sa sb : Nibble) : Prop :=
  (sa = 15 ↔ sb = 15) ∨ sa = 15 ∧ ZeroInstead (regs 15) (regs sb) ∨
    sb = 15 ∧ ZeroInstead (regs 15) (regs sa)

theorem slt_biased (a b : Word) :
    a.slt b = decide ((a.toNat + 2 ^ 15) % 2 ^ 16 < (b.toNat + 2 ^ 15) % 2 ^ 16) := by
  have boundA := a.isLt
  have boundB := b.isLt
  rw [BitVec.slt, decide_eq_decide, BitVec.toInt_eq_toNat_cond, BitVec.toInt_eq_toNat_cond]
  split <;> split <;> omega

namespace Flag

variable {a b status other : Word}

def mirror : Flag → Flag
  | G => L
  | L => G
  | g => l
  | l => g
  | flag => flag

theorem relates_mirror (flag : Flag) : relates flag.mirror a b = relates flag b a := by
  cases flag
  case E => exact decide_eq_decide.mpr eq_comm
  all_goals rfl

theorem relates_self (flag : Flag) : relates flag a a = relates flag b b := by
  cases flag <;> simp [relates, BitVec.slt]

theorem relates_zero_left :
    (∀ flag, relates flag 0 other = relates flag status other) ↔ ZeroInstead status other := by
  have boundStatus := status.isLt
  have boundOther := other.isLt
  have zero : (0 : Word).toNat = 0 := rfl
  constructor
  · intro same
    have above := same .G
    have signed := same .g
    have below := same .L
    simp only [relates, slt_biased, BitVec.lt_def, decide_eq_decide, zero] at above signed below
    refine ⟨by omega, ?_⟩
    rw [← BitVec.toNat_inj, BitVec.lt_def, zero]
    omega
  · rintro ⟨positive, rfl | less⟩ flag
    · rfl
    · have apart : (0 : Word) ≠ other ∧ status ≠ other := by bv_omega
      rw [BitVec.lt_def] at less
      cases flag
      case E => simp only [relates, apart.1, apart.2]
      case C | v | V => rfl
      all_goals
        simp only [relates, slt_biased, BitVec.lt_def, decide_eq_decide, zero]
        omega

theorem relates_zero_right :
    (∀ flag, relates flag other 0 = relates flag other status) ↔ ZeroInstead status other := by
  rw [← relates_zero_left]
  constructor
  · intro same flag
    have mirrored := same flag.mirror
    rwa [relates_mirror, relates_mirror] at mirrored
  · intro same flag
    have mirrored := same flag.mirror
    rwa [relates_mirror, relates_mirror] at mirrored

theorem eight_le_bit (flag : Flag) : 8 ≤ flag.bit := by
  cases flag <;> decide

end Flag

section Handler

variable {vm : Vm} {a b : Word}

theorem Vm.setFlag_bit (vm : Vm) (flag : Flag) (val : Bool) (index : Nat) :
    ((vm.setFlag flag val).cpu.regs 15).getLsbD index =
      if index = flag.bit then val else (vm.cpu.regs 15).getLsbD index := by
  have bound : flag.bit < 16 := by cases flag <;> decide
  rw [Vm.setFlag, Vm.setReg_regs, Function.update_self, setBit_getLsbD _ _ bound]

theorem Vm.clearFlags_status (vm : Vm) : vm.clearFlags.cpu.regs 15 = 0 := by
  rw [Vm.clearFlags, Vm.setReg_regs, Function.update_self]

theorem Vm.clearFlags_bit (vm : Vm) (index : Nat) :
    (vm.clearFlags.cpu.regs 15).getLsbD index = false := by
  rw [vm.clearFlags_status]
  exact BitVec.getLsbD_zero

theorem doCmp_compares (vm : Vm) :
    Compares (vm.clearFlags.cpu.regs vm.cpu.ir.rrr.sa) (vm.clearFlags.cpu.regs vm.cpu.ir.rrr.sb)
      vm.cpu.regs (doCmp vm).cpu.regs where
  flags flag := by
    simp only [doCmp, Vm.advance_regs, Vm.setFlag_bit, Vm.clearFlags_bit, Vm.clearFlags_ir]
    cases flag <;> rfl
  padding index low := by
    have apart : ∀ flag : Flag, index ≠ flag.bit := by
      intro flag
      have high := flag.eight_le_bit
      omega
    simp only [doCmp, Vm.advance_regs, Vm.setFlag_bit, Vm.clearFlags_bit, apart, if_false]
  others reg notStatus := (doCmp_frame vm).regs reg (by simpa using notStatus)

theorem Compares.iff {before after : Nibble → Word} {c d : Word}
    (compares : Compares a b before after) :
    Compares c d before after ↔ ∀ flag, Flag.relates flag a b = Flag.relates flag c d := by
  constructor
  · intro other flag
    rw [← compares.flags flag, other.flags flag]
  · intro same
    exact ⟨fun flag => (compares.flags flag).trans (same flag), compares.padding, compares.others⟩

theorem clearsUnnoticed_iff (vm : Vm) (sa sb : Nibble) :
    (∀ flag, Flag.relates flag (vm.clearFlags.cpu.regs sa) (vm.clearFlags.cpu.regs sb) =
      Flag.relates flag (vm.cpu.regs sa) (vm.cpu.regs sb)) ↔ ClearsUnnoticed vm.cpu.regs sa sb := by
  rw [ClearsUnnoticed]
  by_cases left : sa = 15 <;> by_cases right : sb = 15
  · subst sa sb
    exact iff_of_true Flag.relates_self (.inl Iff.rfl)
  · subst sa
    rw [vm.clearFlags_status, Vm.clearFlags_of_ne right, Flag.relates_zero_left]
    simp only [right, iff_false, not_true_eq_false, false_or, true_and, false_and, or_false]
  · subst sb
    rw [vm.clearFlags_status, Vm.clearFlags_of_ne left, Flag.relates_zero_right]
    simp only [left, iff_true, false_or, true_and, false_and]
  · rw [Vm.clearFlags_of_ne left, Vm.clearFlags_of_ne right]
    exact iff_of_true (fun _ => rfl) (.inl (iff_of_false left right))

end Handler

section Execution

variable {Ctx : Type} {m : Machine Ctx} {head : Word}

theorem vmStep_doCmp (observe : TraceEvent → Vm → Ctx → Ctx)
    (fetched : m.vm.word m.vm.cpu.pc.toNat = .ok head) (opcode : nibble head 1 = 4) :
    ∃ next, vmStep (observing observe) m = .running next ∧
      next.vm = doCmp (m.vm.setIr { m.vm.cpu.ir with head }) := by
  have leads : Dispatches m.vm m.vm .doCmp := .inst fetched (by rw [opcode]; rfl)
  have entered : Label.doCmp.enter m.vm = .ok (m.vm.setIr { m.vm.cpu.ir with head }) :=
    interpRrr_eq_ok.mpr ⟨head, fetched, rfl⟩
  exact ⟨_, vmStep_completes leads entered (by decide) rfl, rfl⟩

/-- A CMP reports how the PRE-state values of its operands compare exactly when clearing R15
first goes unnoticed. -/
theorem cmp_status (observe : TraceEvent → Vm → Ctx → Ctx)
    (fetched : m.vm.word m.vm.cpu.pc.toNat = .ok head) (opcode : nibble head 1 = 4) :
    ∃ next, vmStep (observing observe) m = .running next ∧
      (Compares (m.vm.cpu.regs (nibble head 3)) (m.vm.cpu.regs (nibble head 2)) m.vm.cpu.regs
          next.vm.cpu.regs ↔
        ClearsUnnoticed m.vm.cpu.regs (nibble head 3) (nibble head 2)) := by
  obtain ⟨next, run, result⟩ := vmStep_doCmp observe fetched opcode
  have compares := doCmp_compares (m.vm.setIr { m.vm.cpu.ir with head })
  have unnoticed := clearsUnnoticed_iff (m.vm.setIr { m.vm.cpu.ir with head })
    (nibble head 3) (nibble head 2)
  refine ⟨next, run, ?_⟩
  rw [result]
  exact compares.iff.trans unnoticed

end Execution

theorem cmp_status_plain : ∃ next,
    vmStep (observing fun _ _ ctx => ctx)
      ⟨⟨{ Cpu.zero with regs := fun reg => if reg = 1 then 5 else 3 },
        loadImage [0x40, 0x12]⟩, (), []⟩ = .running next ∧
      Compares 5 3 (fun reg => if reg = 1 then 5 else 3) next.vm.cpu.regs := by
  obtain ⟨next, run, compares⟩ := @cmp_status Unit
    ⟨⟨{ Cpu.zero with regs := fun reg => if reg = 1 then 5 else 3 },
      loadImage [0x40, 0x12]⟩, (), []⟩ 0x1240 (fun _ _ ctx => ctx) rfl rfl
  exact ⟨next, run, compares.mpr (.inl (by decide))⟩

/-- `cmp R15,R1` with 5 in R15 and 3 in R1 does not set `G`. -/
theorem cmp_status_stale : ∃ next,
    vmStep (observing fun _ _ ctx => ctx)
      ⟨⟨{ Cpu.zero with regs := fun reg => if reg = 15 then 5 else 3 },
        loadImage [0x40, 0xF1]⟩, (), []⟩ = .running next ∧
      ¬ Compares 5 3 (fun reg => if reg = 15 then 5 else 3) next.vm.cpu.regs := by
  obtain ⟨next, run, result⟩ := @vmStep_doCmp Unit
    ⟨⟨{ Cpu.zero with regs := fun reg => if reg = 15 then 5 else 3 },
      loadImage [0x40, 0xF1]⟩, (), []⟩ 0xF140 (fun _ _ ctx => ctx) rfl rfl
  refine ⟨next, run, fun compares => ?_⟩
  have greater := compares.flags .G
  rw [result] at greater
  exact absurd greater (by decide)

end Sigma16

import Sigma16.VmArithmetic
import Sigma16.VmComparison

/-!
ADD and the comparison flags. `do_add` sets them from the number of its destination
register, so it reports a positive result whatever the sum is.
-/

namespace Sigma16

open Words Transition

/-- The flags `do_cmp` sets; `do_add` leaves the other three to carry and overflow. -/
def comparisonFlags : List Flag := [.G, .g, .E, .l, .L]

def ReportsSum (sum status : Word) : Prop :=
  ∀ flag ∈ comparisonFlags, status.getLsbD flag.bit = Flag.relates flag sum 0

def PositiveSum (a b : Word) : Prop :=
  0 < (a.toNat + b.toNat) % 2 ^ 16 ∧ (a.toNat + b.toNat) % 2 ^ 16 < 2 ^ 15

theorem Flag.relates_number : ∀ number : Nibble, number ≠ 0 → ∀ flag ∈ comparisonFlags,
    Flag.relates flag (number.setWidth 16) 0 = Flag.relates flag 1 0 := by
  decide

theorem Flag.relates_positive {sum : Word} :
    (∀ flag ∈ comparisonFlags, Flag.relates flag 1 0 = Flag.relates flag sum 0) ↔
      0 < sum.toNat ∧ sum.toNat < 2 ^ 15 := by
  have bound := sum.isLt
  have zero : (0 : Word).toNat = 0 := rfl
  have one : (1 : Word).toNat = 1 := rfl
  constructor
  · intro same
    have above := same .G (by decide)
    have signed := same .g (by decide)
    simp only [Flag.relates, slt_biased, BitVec.lt_def, decide_eq_decide, zero, one] at above signed
    omega
  · rintro ⟨positive, small⟩ flag member
    cases flag
    case C | v | V => rfl
    case E =>
      have nonzero : sum ≠ 0 := by bv_omega
      simp only [Flag.relates, nonzero]
      decide
    all_goals
      simp only [Flag.relates, slt_biased, BitVec.lt_def, decide_eq_decide, zero, one]
      omega

section Handler

variable {vm : Vm}

theorem doAdd_flags (guarded : vm.cpu.ir.rrr.d ≠ 0) :
    ReportsSum 1 ((doAdd vm).cpu.regs 15) := by
  intro flag member
  have number := Flag.relates_number vm.cpu.ir.rrr.d guarded
  have above := number .G (by decide)
  have signed := number .g (by decide)
  have equal := number .E (by decide)
  simp only [Flag.relates] at above signed equal
  simp only [doAdd, Vm.setFlag_bit, Vm.clearFlags_bit, Vm.clearFlags_ir, Vm.applyOpRrr_ir]
  cases flag
  case C | v | V => exact absurd member (by decide)
  case G => exact above
  case g => exact signed
  case E => exact equal
  case l => rfl
  case L => exact equal

end Handler

section Execution

variable {Ctx : Type} {m : Machine Ctx} {head : Word}

/-- An ADD into one of R1 to R14 leaves the flags of its result compared with zero exactly
when the result is positive. -/
theorem add_flags (observe : TraceEvent → Vm → Ctx → Ctx)
    (fetched : m.vm.word m.vm.cpu.pc.toNat = .ok head) (opcode : nibble head 1 = 0)
    (guarded : nibble head 0 ≠ 0) (notStatus : nibble head 0 ≠ 15) :
    ∃ next, vmStep (observing observe) m = .running next ∧
      next.vm.cpu.regs (nibble head 0) =
        m.vm.cpu.regs (nibble head 3) + m.vm.cpu.regs (nibble head 2) ∧
      (ReportsSum (m.vm.cpu.regs (nibble head 3) + m.vm.cpu.regs (nibble head 2))
          (next.vm.cpu.regs 15) ↔
        PositiveSum (m.vm.cpu.regs (nibble head 3)) (m.vm.cpu.regs (nibble head 2))) := by
  have leads : Dispatches m.vm m.vm .doAdd := .inst fetched (by rw [opcode]; rfl)
  have entered : Label.doAdd.enter m.vm = .ok (m.vm.setIr { m.vm.cpu.ir with head }) :=
    interpRrr_eq_ok.mpr ⟨head, fetched, rfl⟩
  have reports : ReportsSum 1 ((doAdd (m.vm.setIr { m.vm.cpu.ir with head })).cpu.regs 15) :=
    doAdd_flags guarded
  have written := @doAdd_dest (m.vm.setIr { m.vm.cpu.ir with head }) guarded notStatus
  refine ⟨_, vmStep_completes leads entered (by decide) rfl, written, ?_⟩
  rw [PositiveSum, ← BitVec.toNat_add, ← Flag.relates_positive]
  constructor
  · intro sums flag member
    rw [← reports flag member, sums flag member]
  · intro same flag member
    rw [← same flag member]
    exact reports flag member

end Execution

theorem add_flags_two : ∃ next,
    vmStep (observing fun _ _ ctx => ctx)
      ⟨⟨{ Cpu.zero with regs := fun _ => 1 }, loadImage [0x01, 0x23]⟩, (), []⟩ = .running next ∧
      ReportsSum 2 (next.vm.cpu.regs 15) := by
  obtain ⟨next, run, _, reports⟩ := @add_flags Unit
    ⟨⟨{ Cpu.zero with regs := fun _ => 1 }, loadImage [0x01, 0x23]⟩, (), []⟩ 0x2301
    (fun _ _ ctx => ctx) rfl rfl (by decide) (by decide)
  exact ⟨next, run, reports.mpr ⟨by decide, by decide⟩⟩

/-- `add R1,R2,R3` with zero operands sets `G` and `g` and leaves `E` clear. -/
theorem add_flags_zero : ∃ next,
    vmStep (observing fun _ _ ctx => ctx) (Machine.boot [0x01, 0x23]) = .running next ∧
      ¬ ReportsSum (0 + 0) (next.vm.cpu.regs 15) := by
  have run : vmStep (observing fun _ _ ctx => ctx) (Machine.boot [0x01, 0x23]) =
      .running ⟨doAdd ((Machine.boot [0x01, 0x23]).vm.setIr ⟨0x2301, 0⟩), (), []⟩ := rfl
  refine ⟨_, run, fun reports => ?_⟩
  have equal := reports .E (by decide)
  exact absurd equal (by decide)

end Sigma16

import Sigma16.VmFrame

/-!
R0 holds 0 in every reachable state: every register write of the emulator is
guarded, or goes to R15.
-/

namespace Sigma16

open Words Transition

variable {Ctx : Type} {trace : TraceHandler Ctx} {m next : Machine Ctx}

theorem Label.body_zero {label : Label} {vm after : Vm} (ran : label.body vm = .ok after) :
    after.cpu.regs 0 = vm.cpu.regs 0 := by
  by_cases store : label = .doStore
  · subst label
    rw [doStore_regs ran]
  · exact (Label.body_frame store ran).zero

end Sigma16

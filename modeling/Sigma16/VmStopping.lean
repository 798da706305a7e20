import Sigma16.VmStep

/-!
How `sigma16_vm_exec` returns: by a TRAP whose code is 0, or by an RX instruction outside
its table. Both leave `pc` where it was, so the next call meets the same instruction.
-/

namespace Sigma16

open Words Transition

/-- The instruction at `pc` ends `sigma16_vm_exec` with the code, and leaves `ir` behind. -/
inductive Halts (vm : Vm) : Int → InstVariant → Prop
  | trap {head} : vm.word vm.cpu.pc.toNat = .ok head → nibble head 1 = 13 →
      vm.cpu.regs (nibble head 0) = 0 → Halts vm 0 { vm.cpu.ir with head }
  | badOp {head tail} : vm.word vm.cpu.pc.toNat = .ok head → nibble head 1 = 15 →
      vm.word (vm.cpu.pc.toNat + 1) = .ok tail → 9 ≤ (nibble head 2).toNat →
      Halts vm (-1) { head, tail := bswap16 tail }

structure ReturnsAt {Ctx : Type} (before last : Machine Ctx) (code : Int) : Prop where
  halts : Halts before.vm code last.vm.cpu.ir
  vm : last.vm = before.vm.setIr last.vm.cpu.ir
  pc : last.vm.cpu.pc = before.vm.cpu.pc
  regs : last.vm.cpu.regs = before.vm.cpu.regs
  mem : last.vm.mem = before.vm.mem
  out : last.out = before.out

theorem rxDispatchTable_badOp : ∀ sb : Nibble,
    rxDispatchTable[sb.toNat]? = some .doBadOp ↔ 9 ≤ sb.toNat := by
  decide

theorem Halts.again {vm : Vm} {code : Int} {ir : InstVariant} (halts : Halts vm code ir) :
    Halts (vm.setIr ir) code ir := by
  cases halts with
  | @trap head fetched opcode zero =>
      exact @Halts.trap (vm.setIr { vm.cpu.ir with head }) head fetched opcode zero
  | badOp fetched opcode second outside => exact .badOp fetched opcode second outside

theorem Halts.code {vm : Vm} {code : Int} {ir : InstVariant} (halts : Halts vm code ir) :
    code = 0 ∨ code = -1 := by
  cases halts with
  | trap => exact .inl rfl
  | badOp => exact .inr rfl

section Steps

variable {Ctx : Type} {observe : TraceEvent → Vm → Ctx → Ctx} {m last : Machine Ctx} {code : Int}

theorem vmStep_halts {ir : InstVariant} (halts : Halts m.vm code ir) :
    ∃ ctx, vmStep (observing observe) m =
      .stopped (.returned code) { m with vm := m.vm.setIr ir, ctx } := by
  cases halts with
  | @trap head fetched opcode zero =>
      have leads : Dispatches m.vm m.vm .doTrap := .inst fetched ((dispatchTable_trap _).mpr opcode)
      have entered : Label.doTrap.enter m.vm = .ok (m.vm.setIr { m.vm.cpu.ir with head }) :=
        interpRrr_eq_ok.mpr ⟨head, fetched, rfl⟩
      have halted : (m.vm.setIr { m.vm.cpu.ir with head }).cpu.regs
          (m.vm.setIr { m.vm.cpu.ir with head }).cpu.ir.rrr.d = 0 := zero
      rw [vmStep_trap leads entered, doTrap, if_pos halted]
      exact ⟨_, rfl⟩
  | badOp fetched opcode second outside =>
      have leads := Dispatches.rx fetched opcode second ((rxDispatchTable_badOp _).mpr outside)
      exact ⟨m.ctx, vmStep_badOp leads⟩

theorem halts_of_trap {decoded : Vm} (leads : Dispatches m.vm decoded .doTrap)
    (run : vmStep (observing observe) m = .stopped (.returned code) last) :
    ∃ ir, Halts m.vm code ir := by
  cases leads with
  | @inst head _ fetched entry =>
      have entered : Label.doTrap.enter m.vm = .ok (m.vm.setIr { m.vm.cpu.ir with head }) :=
        interpRrr_eq_ok.mpr ⟨head, fetched, rfl⟩
      rw [vmStep_trap (.inst fetched entry) entered] at run
      rcases doTrap_stopped run with ⟨zero, same, _⟩ | ⟨_, impossible⟩
      · obtain rfl := Stop.returned.inj same
        exact ⟨_, .trap fetched ((dispatchTable_trap _).mp entry) zero⟩
      · cases impossible
  | exp _ _ _ entry => exact absurd (List.mem_of_getElem? entry) (by simp [expDispatchTable])
  | rx _ _ _ entry => exact absurd (List.mem_of_getElem? entry) (by simp [rxDispatchTable])

theorem halts_of_badOp {decoded : Vm} (leads : Dispatches m.vm decoded .doBadOp)
    (run : vmStep (observing observe) m = .stopped (.returned code) last) :
    ∃ ir, Halts m.vm code ir := by
  rw [vmStep_badOp leads] at run
  obtain ⟨same, _⟩ := Outcome.stopped.inj run
  obtain rfl := Stop.returned.inj same
  cases leads with
  | inst _ entry => exact absurd (List.mem_of_getElem? entry) (by simp [dispatchTable])
  | exp _ _ _ entry => exact absurd (List.mem_of_getElem? entry) (by simp [expDispatchTable])
  | rx fetched opcode second entry =>
      exact ⟨_, .badOp fetched opcode second ((rxDispatchTable_badOp _).mp entry)⟩

theorem halts_of_returned (run : vmStep (observing observe) m = .stopped (.returned code) last) :
    ∃ ir, Halts m.vm code ir := by
  cases dispatched : dispatch m.vm with
  | error stop =>
      have fails := dispatch_eq_error.mp dispatched
      rw [vmStep_misdispatch fails] at run
      obtain ⟨rfl, rfl⟩ := Outcome.stopped.inj run
      cases fails with
      | fetch unmapped | second _ _ unmapped => cases (Vm.word_eq_error.mp unmapped).2
  | ok found =>
      have leads := dispatch_eq_ok.mp dispatched
      rcases (vmStep_returned leads run).1 with trap | bad
      · rw [trap] at leads
        exact halts_of_trap leads run
      · rw [bad] at leads
        exact halts_of_badOp leads run

theorem vmStep_returnsAt (run : vmStep (observing observe) m = .stopped (.returned code) last) :
    ReturnsAt m last code := by
  obtain ⟨ir, halts⟩ := halts_of_returned run
  obtain ⟨ctx, stops⟩ := @vmStep_halts _ observe _ _ _ halts
  obtain ⟨_, rfl⟩ := Outcome.stopped.inj (stops.symm.trans run)
  exact ⟨halts, rfl, rfl, rfl, rfl, rfl⟩

theorem vmExec_returned {count : Nat}
    (run : vmExec (observing observe) count m = .stopped (.returned code) last) :
    ∃ steps before, vmExec (observing observe) steps m = .running before ∧
      vmStep (observing observe) before = .stopped (.returned code) last := by
  induction count with
  | zero =>
      rw [vmExec_zero, vmEntry, traced_observing] at run
      cases run
  | succ count ih =>
      cases earlier : vmExec (observing observe) count m with
      | stopped stop state =>
          rw [vmExec_succ, earlier, Outcome.bind_stopped] at run
          exact ih (earlier.trans run)
      | running before =>
          rw [vmExec_succ, earlier, Outcome.bind_running] at run
          exact ⟨count, before, earlier, run⟩

theorem vmExec_again {before : Machine Ctx} (returns : ReturnsAt before last code) (more : Nat) :
    ∃ again, vmExec (observing observe) (more + 1) last = .stopped (.returned code) again ∧
      again.vm = last.vm ∧ again.out = last.out := by
  have halts : Halts last.vm code last.vm.cpu.ir := by
    have repeated := returns.halts.again
    rwa [← returns.vm] at repeated
  obtain ⟨ctx, stops⟩ := @vmStep_halts _ observe
    { last with ctx := observe .execStart last.vm last.ctx } _ _ halts
  refine ⟨{ last with ctx }, ?_, rfl, rfl⟩
  rw [vmExec, vmEntry, traced_observing, Outcome.bind_running, iterate, stops]
  rfl

end Steps

/-- `sigma16_vm_exec` returns with 0 or -1 at an instruction it has not moved past, having
changed nothing but `ir` there, and called again it returns the same at once. -/
theorem exec_repeats {Ctx : Type} {observe : TraceEvent → Vm → Ctx → Ctx} {m last : Machine Ctx}
    {count : Nat} {code : Int}
    (run : vmExec (observing observe) count m = .stopped (.returned code) last) :
    (code = 0 ∨ code = -1) ∧
    (∃ steps before, vmExec (observing observe) steps m = .running before ∧
      ReturnsAt before last code) ∧
    ∀ more, ∃ again,
      vmExec (observing observe) (more + 1) last = .stopped (.returned code) again ∧
      again.vm = last.vm ∧ again.out = last.out := by
  obtain ⟨steps, before, reached, stops⟩ := vmExec_returned run
  have returns := vmStep_returnsAt stops
  exact ⟨returns.halts.code, ⟨steps, before, reached, returns⟩, vmExec_again returns⟩

theorem exec_repeats_both :
    (∃ last again : Machine Unit,
      vmExec (observing fun _ _ ctx => ctx) 1 (Machine.boot [0xD0, 0x00]) =
        .stopped (.returned 0) last ∧
      vmExec (observing fun _ _ ctx => ctx) 1 last = .stopped (.returned 0) again ∧
      again.vm = last.vm ∧ again.out = last.out) ∧
    ∃ last again : Machine Unit,
      vmExec (observing fun _ _ ctx => ctx) 1 (Machine.boot [0xF0, 0x09]) =
        .stopped (.returned (-1)) last ∧
      vmExec (observing fun _ _ ctx => ctx) 1 last = .stopped (.returned (-1)) again ∧
      again.vm = last.vm ∧ again.out = last.out := by
  constructor
  · obtain ⟨again, repeated⟩ := (@exec_repeats Unit (fun _ _ ctx => ctx)
      (Machine.boot [0xD0, 0x00]) _ 1 0 rfl).2.2 0
    exact ⟨_, again, rfl, repeated⟩
  · obtain ⟨again, repeated⟩ := (@exec_repeats Unit (fun _ _ ctx => ctx)
      (Machine.boot [0xF0, 0x09]) _ 1 (-1) rfl).2.2 0
    exact ⟨_, again, rfl, repeated⟩

end Sigma16

import Sigma16.VmStep

/-!
What an instruction leaves alone: the registers outside its write set, R0, the
control registers, and every memory word but the one STORE names.
-/

namespace Sigma16

open Words Transition Fallible

structure Control where
  dat : Word
  status : Word
  sys : Bool
  ie : Bool
  mask : Word
  req : Word
  istat : Word
  ipc : Word
  vect : Word

def Cpu.control (cpu : Cpu) : Control where
  dat := cpu.dat
  status := cpu.status
  sys := cpu.sys
  ie := cpu.ie
  mask := cpu.mask
  req := cpu.req
  istat := cpu.istat
  ipc := cpu.ipc
  vect := cpu.vect

/-- `after` differs from `before` at most in `ir`, `pc`, `adr` and the `written` registers. -/
structure Frame (written : List Nibble) (before after : Vm) : Prop where
  mem : after.mem = before.mem
  zero : after.cpu.regs 0 = before.cpu.regs 0
  regs : ∀ reg, reg ∉ written → after.cpu.regs reg = before.cpu.regs reg
  control : after.cpu.control = before.cpu.control

namespace Frame

variable {written : List Nibble} {before after : Vm}

theorem refl (written : List Nibble) (vm : Vm) : Frame written vm vm :=
  ⟨rfl, rfl, fun _ _ => rfl, rfl⟩

theorem setPc (frame : Frame written before after) (pc : Word) :
    Frame written before (after.setPc pc) :=
  ⟨frame.mem, frame.zero, frame.regs, frame.control⟩

theorem setAdr (frame : Frame written before after) (adr : Word) :
    Frame written before (after.setAdr adr) :=
  ⟨frame.mem, frame.zero, frame.regs, frame.control⟩

theorem setReg {reg : Nibble} (frame : Frame written before after) (val : Word)
    (nonzero : reg ≠ 0) (member : reg ∈ written) : Frame written before (after.setReg reg val) where
  mem := frame.mem
  zero := (Function.update_of_ne nonzero.symm _ _).trans frame.zero
  regs other outside := by
    have different : other ≠ reg := by
      rintro rfl
      exact outside member
    exact (Function.update_of_ne different _ _).trans (frame.regs other outside)
  control := frame.control

theorem safeUpdate {reg : Nibble} (frame : Frame written before after) (val : Word)
    (member : reg ∈ written) : Frame written before (after.safeUpdate reg val) := by
  unfold Vm.safeUpdate
  split
  · rename_i nonzero
    exact frame.setReg val nonzero member
  · exact frame

theorem clearFlags (frame : Frame written before after) (member : 15 ∈ written) :
    Frame written before after.clearFlags :=
  frame.setReg 0 (by decide) member

theorem setFlag (frame : Frame written before after) (flag : Flag) (val : Bool)
    (member : 15 ∈ written) : Frame written before (after.setFlag flag val) :=
  frame.setReg _ (by decide) member

theorem computeRxEaddr (frame : Frame written before after) :
    Frame written before after.computeRxEaddr :=
  frame.setAdr _

theorem branch (frame : Frame written before after) (taken : Bool) :
    Frame written before (after.branch taken) := by
  unfold Vm.branch
  split
  · exact frame.computeRxEaddr.setPc _
  · exact frame.setPc _

theorem applyOpRrr (op : CInt → CInt → CInt) (vm : Vm)
    (member : vm.cpu.ir.rrr.d ∈ written) : Frame written vm (vm.applyOpRrr op) :=
  ((refl written vm).safeUpdate _ member).setPc _

end Frame

def Label.writes (label : Label) (d : Nibble) : List Nibble :=
  match label with
  | doAdd | doDiv | doCmplt | doCmpeq | doCmpgt | doInvold | doAndold | doOrold | doXorold => [d, 15]
  | doSub | doMul | doLea | doLoad | doJal => [d]
  | doCmp | doNop | doTrap => [15]
  | doRfi | doStore | doJump | doJumpc0 | doJumpc1 | doJumpf | doJumpt | doBadOp => []

theorem doAdd_frame (vm : Vm) : Frame [vm.cpu.ir.rrr.d, 15] vm (doAdd vm) := by
  have member : (15 : Nibble) ∈ [vm.cpu.ir.rrr.d, 15] := by simp
  have sum : Frame [vm.cpu.ir.rrr.d, 15] vm (vm.applyOpRrr (· + ·)).clearFlags :=
    (Frame.applyOpRrr _ vm (by simp)).clearFlags member
  exact ((((((((sum.setFlag _ _ member).setFlag _ _ member).setFlag _ _ member).setFlag _ _
    member).setFlag _ _ member).setFlag _ _ member).setFlag _ _ member).setFlag _ _ member)

theorem doDiv_frame (vm : Vm) : Frame [vm.cpu.ir.rrr.d, 15] vm (doDiv vm) := by
  refine Frame.setPc ?_ _
  simp only [opDiv]
  split
  · exact Frame.refl _ vm
  · have quotient : Frame [vm.cpu.ir.rrr.d, 15] vm (vm.safeUpdate vm.cpu.ir.rrr.d _) :=
      (Frame.refl _ vm).safeUpdate
        (truncate ((promote (vm.cpu.regs vm.cpu.ir.rrr.sa)).sdiv
          (promote (vm.cpu.regs vm.cpu.ir.rrr.sb)))) (by simp)
    split
    · exact quotient.setReg _ (by decide) (by simp)
    · exact quotient

theorem doCmp_frame (vm : Vm) : Frame [15] vm (doCmp vm) := by
  have member : (15 : Nibble) ∈ [(15 : Nibble)] := by simp
  have cleared := (Frame.refl [15] vm).clearFlags member
  exact (((((cleared.setFlag _ _ member).setFlag _ _ member).setFlag _ _ member).setFlag _ _
    member).setFlag _ _ member).setPc _

theorem doLea_frame (vm : Vm) : Frame [vm.cpu.ir.rx.d] vm (doLea vm) := by
  refine Frame.setPc ?_ _
  split
  · rename_i nonzero
    exact (Frame.refl _ vm).computeRxEaddr.setReg _ nonzero (by simp)
  · exact Frame.refl _ vm

theorem doLoad_frame {vm after : Vm} (loaded : doLoad vm = .ok after) :
    Frame [vm.cpu.ir.rx.d] vm after := by
  simp only [doLoad] at loaded
  split at loaded
  · rename_i nonzero
    obtain ⟨val, _, updated⟩ := bind_eq_ok.mp loaded
    obtain rfl := Except.ok.inj updated
    exact ((Frame.refl _ vm).computeRxEaddr.setReg val nonzero (by simp)).setPc _
  · obtain rfl := Except.ok.inj loaded
    exact (Frame.refl _ vm).setPc _

theorem doStore_regs {vm after : Vm} (stored : doStore vm = .ok after) :
    after.cpu.regs = vm.cpu.regs := by
  obtain ⟨_, rfl⟩ := doStore_eq_ok stored
  rfl

theorem Label.body_frame {label : Label} {vm after : Vm} (notStore : label ≠ .doStore)
    (ran : label.body vm = .ok after) : Frame (label.writes vm.cpu.ir.rrr.d) vm after := by
  have start := fun written => Frame.refl written vm
  have macroFrame := fun op written => @Frame.applyOpRrr written op vm
  cases label <;> simp only [Label.body, Except.ok.injEq, reduceCtorEq] at ran
  case doLoad => exact doLoad_frame ran
  case doStore => contradiction
  all_goals subst after
  case doAdd => exact doAdd_frame vm
  case doDiv => exact doDiv_frame vm
  case doCmp => exact doCmp_frame vm
  case doSub => exact macroFrame _ _ (by simp [Label.writes])
  case doMul => exact macroFrame _ _ (by simp [Label.writes])
  case doInvold =>
    exact (((start _).safeUpdate _ (by simp [Label.writes])).setPc _).clearFlags
      (by simp [Label.writes])
  case doNop => exact ((start _).clearFlags (by simp [Label.writes])).setPc _
  case doTrap => exact ((start _).setPc _).clearFlags (by simp [Label.writes])
  case doRfi => exact (start _).setPc _
  case doLea => exact doLea_frame vm
  case doJal => exact ((start _).safeUpdate _ (by simp [Label.writes, InstVariant.rx, InstVariant.rrr])).branch _
  case doJump | doJumpc0 | doJumpc1 | doJumpf | doJumpt => exact (start _).branch _
  all_goals exact (macroFrame _ _ (by simp [Label.writes])).clearFlags (by simp [Label.writes])

theorem Label.not_written (label : Label) {d reg : Nibble} (notDest : reg ≠ d)
    (notStatus : reg ≠ 15) : reg ∉ label.writes d := by
  cases label <;> simp_all [writes]

theorem Label.dest_not_written {label : Label} {d : Nibble}
    (member : label ∈ [Label.doCmp, .doNop, .doTrap, .doStore, .doJump, .doJumpc0, .doJumpc1,
      .doJumpf, .doJumpt]) (notStatus : d ≠ 15) : d ∉ label.writes d := by
  cases label <;> simp_all [writes]

theorem Label.status_not_written {label : Label} {d : Nibble}
    (member : label ∈ rxDispatchTable ∨ label = .doSub ∨ label = .doMul) (notStatus : d ≠ 15) :
    15 ∉ label.writes d := by
  have notDest := Ne.symm notStatus
  cases label <;> simp_all [writes, rxDispatchTable]

section Executed

variable {Ctx : Type} {observe : TraceEvent → Vm → Ctx → Ctx} {m next : Machine Ctx}
variable {decoded : Vm} {label : Label} {head : Word}

theorem executed_frame (leads : Dispatches m.vm decoded label)
    (fetched : m.vm.word m.vm.cpu.pc.toNat = .ok head) (notStore : label ≠ .doStore)
    (executed : vmStep (observing observe) m = .running next ∨
      ∃ code, vmStep (observing observe) m = .stopped (.returned code) next) :
    Frame (label.writes (nibble head 0)) m.vm next.vm := by
  rcases executed with run | ⟨code, run⟩
  · obtain ⟨seen, entered, body⟩ := vmStep_observed_running leads run
    obtain ⟨head', ir, fetched', entered', _, filled, _⟩ := leads.enters
    obtain rfl : head' = head := by simpa [fetched] using fetched'.symm
    obtain rfl : m.vm.setIr ir = seen := by simpa [entered] using entered'.symm
    have frame := Label.body_frame notStore body
    -- `do_nop` works on a stale `ir`, but its write set does not depend on it
    have writes : label.writes (m.vm.setIr ir).cpu.ir.rrr.d = label.writes (nibble head' 0) := by
      by_cases nop : label = .doNop
      · subst label
        rfl
      · simp [InstVariant.rrr, filled nop]
    rw [writes] at frame
    exact ⟨frame.mem, frame.zero, frame.regs, frame.control⟩
  · obtain ⟨_, ir, same⟩ := vmStep_returned leads run
    rw [same]
    exact ⟨rfl, rfl, fun _ _ => rfl, rfl⟩

theorem executed_store (leads : Dispatches m.vm decoded .doStore)
    (fetched : m.vm.word m.vm.cpu.pc.toNat = .ok head)
    (executed : vmStep (observing observe) m = .running next ∨
      ∃ code, vmStep (observing observe) m = .stopped (.returned code) next) :
    next.vm.cpu.regs = m.vm.cpu.regs ∧ next.vm.cpu.control = m.vm.cpu.control ∧
      ∃ tail, m.vm.word (m.vm.cpu.pc.toNat + 1) = .ok tail ∧
        ∃ mapped : (m.vm.cpu.regs (nibble head 3) + bswap16 tail).toNat < memWords,
          next.vm.mem = Function.update m.vm.mem ⟨_, mapped⟩
            (bswap16 (m.vm.cpu.regs (nibble head 0))) := by
  rcases executed with run | ⟨code, run⟩
  · obtain ⟨seen, entered, body⟩ := vmStep_observed_running leads run
    cases leads with
    | inst _ entry =>
        have member := List.mem_of_getElem? entry
        simp [dispatchTable] at member
    | exp _ _ _ entry =>
        have member := List.mem_of_getElem? entry
        simp [expDispatchTable] at member
    | @rx head' tail _ fetched' _ second _ =>
        obtain rfl : head' = head := by simpa [fetched] using fetched'.symm
        obtain rfl := Except.ok.inj entered
        obtain ⟨mapped, after⟩ := doStore_eq_ok body
        have address := computeRxEaddr_adr (m.vm.setIr { head := head', tail := bswap16 tail })
        simp only [Vm.setIr_regs, Vm.setIr_ir, InstVariant.rx] at address
        refine ⟨by rw [after]; rfl, by rw [after]; rfl, tail, second, by rwa [address] at mapped, ?_⟩
        rw [after]
        simp only [Vm.advance, Vm.setPc_mem, Vm.setMem_mem, address]
        rfl
  · obtain ⟨halting | bad, _⟩ := vmStep_returned leads run
    · cases halting
    · cases bad

/-- The frame of one executed instruction, halting ones included. -/
theorem vmStep_frame (observe : TraceEvent → Vm → Ctx → Ctx)
    (dispatched : dispatch m.vm = .ok (decoded, label))
    (fetched : m.vm.word m.vm.cpu.pc.toNat = .ok head)
    (executed : vmStep (observing observe) m = .running next ∨
      ∃ code, vmStep (observing observe) m = .stopped (.returned code) next) :
    (label ≠ .doStore → next.vm.mem = m.vm.mem) ∧
    (label = .doStore → ∃ tail, m.vm.word (m.vm.cpu.pc.toNat + 1) = .ok tail ∧
      let addr := m.vm.cpu.regs (nibble head 3) + bswap16 tail
      (∀ index : Fin memWords, index.val ≠ addr.toNat → next.vm.mem index = m.vm.mem index) ∧
      readMem next.vm addr = .ok (m.vm.cpu.regs (nibble head 0))) ∧
    (∀ reg, reg ≠ nibble head 0 → reg ≠ 15 → next.vm.cpu.regs reg = m.vm.cpu.regs reg) ∧
    (label ∈ [Label.doCmp, .doNop, .doTrap, .doStore, .doJump, .doJumpc0, .doJumpc1, .doJumpf,
        .doJumpt] → nibble head 0 ≠ 15 →
      next.vm.cpu.regs (nibble head 0) = m.vm.cpu.regs (nibble head 0)) ∧
    (label ∈ rxDispatchTable ∨ label = .doSub ∨ label = .doMul → nibble head 0 ≠ 15 →
      next.vm.cpu.regs 15 = m.vm.cpu.regs 15) ∧
    next.vm.cpu.control = m.vm.cpu.control := by
  have leads := dispatch_eq_ok.mp dispatched
  by_cases store : label = .doStore
  · subst label
    obtain ⟨regs, control, tail, second, mapped, mem⟩ := executed_store leads fetched executed
    refine ⟨fun other => absurd rfl other, fun _ => ⟨tail, second, ?_, ?_⟩, ?_, ?_, ?_, control⟩
    · intro index different
      rw [mem]
      exact Function.update_of_ne (fun same => different (congrArg Fin.val same)) _ _
    · rw [readMem_of_lt mapped, mem, Function.update_self, bswap16_bswap16]
    · intro reg _ _
      rw [regs]
    · intro _ _
      rw [regs]
    · intro _ _
      rw [regs]
  · have frame := executed_frame leads fetched store executed
    exact ⟨fun _ => frame.mem, fun same => absurd same store,
      fun reg notDest notStatus => frame.regs reg (label.not_written notDest notStatus),
      fun member notStatus => frame.regs _ (Label.dest_not_written member notStatus),
      fun member notStatus => frame.regs _ (Label.status_not_written member notStatus),
      frame.control⟩

end Executed

theorem vmStep_frame_store :
    ∃ next, vmStep (observing fun _ _ ctx => ctx) (Machine.boot [0xF0, 0x02, 0x00, 0x01]) =
        .running next ∧
      readMem next.vm 1 = .ok 0 ∧ next.vm.cpu.control = Cpu.zero.control := by
  have leads : Dispatches (Machine.boot [0xF0, 0x02, 0x00, 0x01]).vm
      ((Machine.boot [0xF0, 0x02, 0x00, 0x01]).vm.setIr ⟨0x02F0, bswap16 0x0100⟩) .doStore :=
    .rx rfl rfl rfl rfl
  have run := @vmStep_completes _ (fun _ _ ctx => ctx) _ _ _ _ _ leads rfl (by decide) rfl
  have frame := vmStep_frame (fun _ _ ctx => ctx) (dispatch_eq_ok.mpr leads) rfl (.inl run)
  obtain ⟨tail, second, _, stored⟩ := frame.2.1 rfl
  obtain rfl : (0x0100 : Word) = tail := Except.ok.inj second
  exact ⟨_, run, stored, frame.2.2.2.2.2⟩

end Sigma16

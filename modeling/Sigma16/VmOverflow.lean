import Sigma16.SignedArithmetic
import Sigma16.VmStep

/-!
The handlers once more, with C's `int` arithmetic partial as the standard has it. Where
no operation of a step is undefined the step is the one of `vmStep`.
-/

namespace Sigma16

open Words Transition Fallible SignedArithmetic

abbrev Checked := Except Undefined

namespace Vm

def computeRxEaddrChecked (vm : Vm) : Checked Vm := do
  let adr ← add (promote (vm.cpu.regs vm.cpu.ir.rx.sa)) (promote vm.cpu.ir.rx.disp)
  return vm.setAdr (truncate adr)

/-- The operation of `APPLY_OP_RRR` is an argument of `SAFE_UPDATE`, so R0 keeps it from being
evaluated. -/
def applyOpRrrChecked (op : CInt → CInt → Checked CInt) (vm : Vm) : Checked Vm :=
  let a := promote (vm.cpu.regs vm.cpu.ir.rrr.sa)
  let b := promote (vm.cpu.regs vm.cpu.ir.rrr.sb)
  if vm.cpu.ir.rrr.d ≠ 0 then do
    let val ← op a b
    return (vm.setReg vm.cpu.ir.rrr.d (truncate val)).advance 1
  else return vm.advance 1

def branchChecked (vm : Vm) (taken : Bool) : Checked Vm :=
  if taken then do
    let vm ← vm.computeRxEaddrChecked
    return vm.setPc vm.cpu.adr
  else return vm.advance 2

end Vm

def addFlags (vm : Vm) : Vm :=
  let vm := vm.clearFlags
  let d : Word := vm.cpu.ir.rrr.d.setWidth 16
  let vm := vm.setFlag .G (0 < d)
  let vm := vm.setFlag .g (BitVec.slt 0 d)
  let vm := vm.setFlag .E (d = 0)
  let vm := vm.setFlag .L (BitVec.slt d 0)
  let vm := vm.setFlag .L (d = 0)
  let vm := vm.setFlag .V (0 < d)
  let vm := vm.setFlag .v (0 < d)
  vm.setFlag .C (0 < d)

def opDivChecked (vm : Vm) : Checked Vm :=
  let a := promote (vm.cpu.regs vm.cpu.ir.rrr.sa)
  let b := promote (vm.cpu.regs vm.cpu.ir.rrr.sb)
  if b = 0 then return vm
  else do
    let quotient ← div a b
    let vm := vm.safeUpdate vm.cpu.ir.rrr.d (truncate quotient)
    if vm.cpu.ir.rrr.d ≠ 15 then do
      let remainder ← rem a b
      return vm.setReg 15 (truncate remainder)
    else return vm

def doLeaChecked (vm : Vm) : Checked Vm :=
  let d := vm.cpu.ir.rx.d
  if d ≠ 0 then do
    let vm ← vm.computeRxEaddrChecked
    return (vm.setReg d vm.cpu.adr).advance 2
  else return vm.advance 2

def doLoadChecked (vm : Vm) : Checked (Except Stop Vm) :=
  let d := vm.cpu.ir.rx.d
  if d ≠ 0 then do
    let vm ← vm.computeRxEaddrChecked
    return (readMem vm vm.cpu.adr).map fun val => (vm.setReg d val).advance 2
  else return .ok (vm.advance 2)

def doStoreChecked (vm : Vm) : Checked (Except Stop Vm) := do
  let vm ← vm.computeRxEaddrChecked
  return (writeMem vm vm.cpu.adr (vm.cpu.regs vm.cpu.ir.rx.d)).map fun vm => vm.advance 2

def Label.checked : Label → Vm → Checked (Except Stop Vm)
  | doAdd, vm => return .ok (addFlags (← vm.applyOpRrrChecked add))
  | doSub, vm => return .ok (← vm.applyOpRrrChecked sub)
  | doMul, vm => return .ok (← vm.applyOpRrrChecked mul)
  | doDiv, vm => return .ok ((← opDivChecked vm).advance 1)
  | doLea, vm => return .ok (← doLeaChecked vm)
  | doLoad, vm => doLoadChecked vm
  | doStore, vm => doStoreChecked vm
  | doJump, vm => return .ok (← vm.branchChecked true)
  | doJumpc0, vm =>
      return .ok (← vm.branchChecked (!selectBit (vm.cpu.regs 15) vm.cpu.ir.rx.d))
  | doJumpc1, vm => return .ok (← vm.branchChecked (selectBit (vm.cpu.regs 15) vm.cpu.ir.rx.d))
  | doJumpf, vm => return .ok (← vm.branchChecked (vm.cpu.regs vm.cpu.ir.rx.d = 0))
  | doJumpt, vm => return .ok (← vm.branchChecked (vm.cpu.regs vm.cpu.ir.rx.d ≠ 0))
  | doJal, vm => return .ok (← (vm.safeUpdate vm.cpu.ir.rx.d (vm.cpu.pc + 2)).branchChecked true)
  | label, vm => return label.body vm

section Execution

variable {Ctx : Type}

def trapWriteFromChecked (addr : Word) (count i : Nat) (m : Machine Ctx) : Checked (Result Ctx) :=
  match count with
  | 0 => return .running m
  | count + 1 => do
      let index ← add (promote addr) (BitVec.ofNat 32 i)
      match readMem m.vm (truncate index) with
      | .error stop => return .stopped stop m
      | .ok word =>
          trapWriteFromChecked addr count (i + 1) { m with out := m.out ++ [lowByte word] }

def doTrapChecked (trace : TraceHandler Ctx) (m : Machine Ctx) : Checked (Result Ctx) :=
  let code := m.vm.cpu.regs m.vm.cpu.ir.rrr.d
  if code = 0 then return endHotloop trace m
  else do
    let written ← if code = 2 then
        trapWriteFromChecked (m.vm.cpu.regs m.vm.cpu.ir.rrr.sa)
          (m.vm.cpu.regs m.vm.cpu.ir.rrr.sb).toNat 0 m
      else pure (.running m)
    return written.bind fun m => m.set (m.vm.advance 1).clearFlags

def resumeChecked (trace : TraceHandler Ctx) (label : Label) (m : Machine Ctx) :
    Checked (Result Ctx) :=
  if label = .doTrap then doTrapChecked trace m
  else return m.attempt (← label.checked m.vm) m.set

def vmStepChecked (trace : TraceHandler Ctx) (m : Machine Ctx) : Checked (Result Ctx) :=
  match dispatch m.vm with
  | .error stop => return .stopped stop m
  | .ok (vm, label) =>
      if label = .doBadOp then return .stopped (.returned (-1)) { m with vm }
      else match label.enter vm with
        | .error stop => return .stopped stop { m with vm }
        | .ok vm => match trace label.event vm m.ctx with
          | (none, ctx) => return .stopped .handlerLeft { m with vm, ctx }
          | (some vm, ctx) => resumeChecked trace label { m with vm, ctx }

end Execution

theorem promote_fits {value : Int} (lower : -2 ^ 31 ≤ value) (upper : value < 2 ^ 31) :
    Fits 32 value :=
  ⟨lower, upper⟩

section Operations

variable (a b : Word)

theorem add_promote : add (promote a) (promote b) = .ok (promote a + promote b) := by
  have boundA := a.isLt
  have boundB := b.isLt
  apply add_of_fits
  rw [promote_toInt, promote_toInt]
  apply promote_fits <;> omega

theorem sub_promote : sub (promote a) (promote b) = .ok (promote a - promote b) := by
  have boundA := a.isLt
  have boundB := b.isLt
  apply sub_of_fits
  rw [promote_toInt, promote_toInt]
  apply promote_fits <;> omega

theorem mul_promote : mul (promote a) (promote b) =
    if a.toNat * b.toNat < 2 ^ 31 then .ok (promote a * promote b) else .error .overflow := by
  have exactly : (promote a).toInt * (promote b).toInt = ((a.toNat * b.toNat : Nat) : Int) := by
    rw [promote_toInt, promote_toInt, Int.natCast_mul]
  split
  · apply mul_of_fits
    rw [exactly]
    apply promote_fits <;> omega
  · rename_i large
    rw [mul, exactly]
    apply exact_of_not_fits
    rintro ⟨_, upper⟩
    simp only [Nat.add_one_sub_one] at upper
    omega

theorem quotient_fits : Fits 32 ((promote a).toInt.tdiv (promote b).toInt) := by
  have bound := a.isLt
  have below := Nat.div_le_self a.toNat b.toNat
  have natural : (promote a).toInt.tdiv (promote b).toInt = ((a.toNat / b.toNat : Nat) : Int) := by
    rw [promote_toInt, promote_toInt, Int.ofNat_tdiv]
  generalize a.toNat / b.toNat = quotient at below natural
  rw [natural]
  apply promote_fits <;> omega

end Operations

def LargeProduct (regs : Nibble → Word) (d sa sb : Nibble) : Prop :=
  d ≠ 0 ∧ 2 ^ 31 ≤ (regs sa).toNat * (regs sb).toNat

section Handlers

variable (vm : Vm)

theorem computeRxEaddrChecked_eq : vm.computeRxEaddrChecked = .ok vm.computeRxEaddr := by
  rw [Vm.computeRxEaddrChecked, add_promote]
  rfl

theorem applyOpRrrChecked_eq (op : CInt → CInt → CInt) {checked : CInt → CInt → Checked CInt}
    (defined : vm.cpu.ir.rrr.d ≠ 0 →
      checked (promote (vm.cpu.regs vm.cpu.ir.rrr.sa)) (promote (vm.cpu.regs vm.cpu.ir.rrr.sb)) =
        .ok (op (promote (vm.cpu.regs vm.cpu.ir.rrr.sa))
          (promote (vm.cpu.regs vm.cpu.ir.rrr.sb)))) :
    vm.applyOpRrrChecked checked = .ok (vm.applyOpRrr op) := by
  by_cases guarded : vm.cpu.ir.rrr.d ≠ 0
  · simp only [Vm.applyOpRrrChecked, if_pos guarded, defined guarded, Vm.applyOpRrr, Vm.safeUpdate]
    rfl
  · simp only [Vm.applyOpRrrChecked, if_neg guarded, Vm.applyOpRrr, Vm.safeUpdate]
    rfl

theorem branchChecked_eq (taken : Bool) : vm.branchChecked taken = .ok (vm.branch taken) := by
  cases taken
  · rfl
  · rw [Vm.branchChecked, if_pos rfl, computeRxEaddrChecked_eq]
    rfl

theorem opDivChecked_eq : opDivChecked vm = .ok (opDiv vm) := by
  simp only [opDivChecked, opDiv]
  split
  · rfl
  · rename_i nonzero
    have fits := quotient_fits (vm.cpu.regs vm.cpu.ir.rrr.sa) (vm.cpu.regs vm.cpu.ir.rrr.sb)
    rw [div_of_fits nonzero fits, rem_of_fits nonzero fits]
    simp only [bind, Except.bind]
    split <;> rfl

theorem doLeaChecked_eq : doLeaChecked vm = .ok (doLea vm) := by
  simp only [doLeaChecked, doLea, computeRxEaddrChecked_eq, bind, Except.bind]
  split <;> rfl

theorem doLoadChecked_eq : doLoadChecked vm = .ok (doLoad vm) := by
  simp only [doLoadChecked, doLoad, computeRxEaddrChecked_eq, bind, Except.bind]
  split
  · cases readMem vm.computeRxEaddr vm.computeRxEaddr.cpu.adr <;> rfl
  · rfl

theorem doStoreChecked_eq : doStoreChecked vm = .ok (doStore vm) := by
  simp only [doStoreChecked, doStore, computeRxEaddrChecked_eq, bind, Except.bind]
  cases writeMem vm.computeRxEaddr vm.computeRxEaddr.cpu.adr _ <;> rfl

theorem Label.checked_eq {label : Label} (notMul : label ≠ .doMul) :
    label.checked vm = .ok (label.body vm) := by
  cases label
  case doMul => contradiction
  case doAdd =>
    simp only [Label.checked, applyOpRrrChecked_eq vm (· + ·) fun _ => add_promote _ _]
    rfl
  case doSub =>
    simp only [Label.checked, applyOpRrrChecked_eq vm (· - ·) fun _ => sub_promote _ _]
    rfl
  case doDiv =>
    simp only [Label.checked, opDivChecked_eq]
    rfl
  case doLea =>
    simp only [Label.checked, doLeaChecked_eq]
    rfl
  case doLoad => exact doLoadChecked_eq vm
  case doStore => exact doStoreChecked_eq vm
  case doJump | doJumpc0 | doJumpc1 | doJumpf | doJumpt | doJal =>
    simp only [Label.checked, branchChecked_eq]
    rfl
  all_goals rfl

theorem doMul_checked
    (small : ¬ LargeProduct vm.cpu.regs vm.cpu.ir.rrr.d vm.cpu.ir.rrr.sa vm.cpu.ir.rrr.sb) :
    Label.doMul.checked vm = .ok (Label.doMul.body vm) := by
  have defined := @applyOpRrrChecked_eq vm (· * ·) mul fun guarded => by
    rw [mul_promote, if_pos]
    apply Nat.lt_of_not_le
    intro large
    exact small ⟨guarded, large⟩
  simp only [Label.checked, defined]
  rfl

theorem doMul_undefined
    (large : LargeProduct vm.cpu.regs vm.cpu.ir.rrr.d vm.cpu.ir.rrr.sa vm.cpu.ir.rrr.sb) :
    Label.doMul.checked vm = .error .overflow := by
  obtain ⟨guarded, beyond⟩ := large
  simp only [Label.checked, Vm.applyOpRrrChecked, if_pos guarded, mul_promote,
    if_neg (Nat.not_lt.mpr beyond)]
  rfl

end Handlers

section Steps

variable {Ctx : Type} {m : Machine Ctx}

theorem promote_ofNat {i : Nat} (small : i < 2 ^ 16) :
    promote (BitVec.ofNat 16 i) = BitVec.ofNat 32 i := by
  apply BitVec.eq_of_toNat_eq
  rw [promote_toNat, BitVec.toNat_ofNat, BitVec.toNat_ofNat, Nat.mod_eq_of_lt small,
    Nat.mod_eq_of_lt (by omega)]

theorem trapWriteFromChecked_eq {addr : Word} {count i : Nat} (bound : i + count < 2 ^ 16) :
    trapWriteFromChecked addr count i m = .ok (trapWriteFrom addr count i m) := by
  induction count generalizing i m with
  | zero => rfl
  | succ count ih =>
      have index := add_promote addr (BitVec.ofNat 16 i)
      rw [promote_ofNat (by omega)] at index
      simp only [trapWriteFromChecked, trapWriteFrom, index, bind, Except.bind, Machine.attempt]
      split
      · rename_i read
        rw [read]
        rfl
      · rename_i read
        rw [read]
        exact ih (by omega)

theorem doTrapChecked_eq (trace : TraceHandler Ctx) :
    doTrapChecked trace m = .ok (doTrap trace m) := by
  have bound := (m.vm.cpu.regs m.vm.cpu.ir.rrr.sb).isLt
  simp only [doTrapChecked, doTrap]
  split
  · rfl
  · split
    · rw [trapWriteFromChecked_eq (by omega)]
      rfl
    · rfl

theorem resumeChecked_eq (trace : TraceHandler Ctx) {label : Label} (valid : label ≠ .doBadOp)
    (small : label = .doMul → ¬ LargeProduct m.vm.cpu.regs m.vm.cpu.ir.rrr.d m.vm.cpu.ir.rrr.sa
      m.vm.cpu.ir.rrr.sb) :
    resumeChecked trace label m =
      .ok (if label = .doTrap then doTrap trace m else m.attempt (label.body m.vm) m.set) := by
  unfold resumeChecked
  split
  · exact doTrapChecked_eq trace
  · by_cases mul : label = .doMul
    · subst label
      rw [doMul_checked m.vm (small rfl)]
      rfl
    · rw [Label.checked_eq m.vm mul]
      rfl

def MultipliesLarge (vm : Vm) : Prop :=
  ∃ head, vm.word vm.cpu.pc.toNat = .ok head ∧ nibble head 1 = 2 ∧
    LargeProduct vm.cpu.regs (nibble head 0) (nibble head 3) (nibble head 2)

theorem dispatchTable_mul : ∀ op : Nibble,
    dispatchTable[op.toNat]? = some (.inst .doMul) ↔ op = 2 := by
  decide

theorem Dispatches.mul {vm decoded : Vm} (leads : Dispatches vm decoded .doMul) :
    ∃ head, vm.word vm.cpu.pc.toNat = .ok head ∧ nibble head 1 = 2 := by
  cases leads with
  | inst fetched entry => exact ⟨_, fetched, (dispatchTable_mul _).mp entry⟩
  | exp _ _ _ entry =>
      have member := List.mem_of_getElem? entry
      exact absurd member (by decide)
  | rx _ _ _ entry =>
      have member := List.mem_of_getElem? entry
      exact absurd member (by decide)

theorem vmStepChecked_resumes {observe : TraceEvent → Vm → Ctx → Ctx} {decoded seen : Vm}
    {label : Label} (leads : Dispatches m.vm decoded label)
    (entered : label.enter decoded = .ok seen) (valid : label ≠ .doBadOp) :
    vmStepChecked (observing observe) m =
      resumeChecked (observing observe) label
        { m with vm := seen, ctx := observe label.event seen m.ctx } := by
  simp only [vmStepChecked, dispatch_eq_ok.mpr leads, if_neg valid, entered, observing]

theorem vmStepChecked_eq {observe : TraceEvent → Vm → Ctx → Ctx}
    (small : ¬ MultipliesLarge m.vm) :
    vmStepChecked (observing observe) m = .ok (vmStep (observing observe) m) := by
  cases dispatched : dispatch m.vm with
  | error stop =>
      rw [vmStep_misdispatch (dispatch_eq_error.mp dispatched), vmStepChecked, dispatched]
      rfl
  | ok found =>
      obtain ⟨decoded, label⟩ := found
      have leads := dispatch_eq_ok.mp dispatched
      by_cases bad : label = .doBadOp
      · subst label
        rw [vmStep_badOp leads, vmStepChecked, dispatched]
        rfl
      · obtain ⟨head, ir, fetched, entered, _, filled, _⟩ := leads.enters
        have bounded : label = .doMul → ¬ LargeProduct (m.vm.setIr ir).cpu.regs
            (m.vm.setIr ir).cpu.ir.rrr.d (m.vm.setIr ir).cpu.ir.rrr.sa
            (m.vm.setIr ir).cpu.ir.rrr.sb := by
          rintro rfl large
          obtain ⟨head', fetched', opcode⟩ := leads.mul
          obtain rfl := Except.ok.inj (fetched.symm.trans fetched')
          obtain rfl := filled (by decide)
          exact small ⟨ir.head, fetched, opcode, large⟩
        rw [vmStepChecked_resumes leads entered bad, resumeChecked_eq _ bad bounded]
        split
        · subst label
          rw [vmStep_trap leads entered]
          rfl
        · rename_i notTrap
          rw [vmStep_plain leads entered notTrap bad]

theorem vmStepChecked_undefined {observe : TraceEvent → Vm → Ctx → Ctx}
    (large : MultipliesLarge m.vm) :
    vmStepChecked (observing observe) m = .error .overflow := by
  obtain ⟨head, fetched, opcode, beyond⟩ := large
  have leads : Dispatches m.vm m.vm .doMul :=
    .inst fetched ((dispatchTable_mul _).mpr opcode)
  have entered : Label.doMul.enter m.vm = .ok (m.vm.setIr { m.vm.cpu.ir with head }) :=
    interpRrr_eq_ok.mpr ⟨head, fetched, rfl⟩
  rw [vmStepChecked_resumes leads entered (by decide), resumeChecked, if_neg (by decide)]
  simp only [doMul_undefined (m.vm.setIr { m.vm.cpu.ir with head }) beyond]
  rfl

/-- A step meets no undefined arithmetic exactly when it is not a MUL, into a register other
than R0, of operands with a product of 2^31 or more. -/
theorem arithmetic_defined (observe : TraceEvent → Vm → Ctx → Ctx) (m : Machine Ctx) :
    (∃ result, vmStepChecked (observing observe) m = .ok result) ↔ ¬ MultipliesLarge m.vm := by
  constructor
  · rintro ⟨result, defined⟩ large
    rw [vmStepChecked_undefined large] at defined
    cases defined
  · intro small
    exact ⟨_, vmStepChecked_eq small⟩

end Steps

theorem arithmetic_defined_mul : ¬ ∃ result,
    vmStepChecked (observing fun _ _ ctx => ctx)
      ⟨⟨{ Cpu.zero with regs := fun _ => 0xFFFF }, loadImage [0x21, 0x23]⟩, (), []⟩ =
        .ok result := by
  rintro ⟨result, defined⟩
  have overflows : vmStepChecked (observing fun _ _ ctx => ctx)
      ⟨⟨{ Cpu.zero with regs := fun _ => 0xFFFF }, loadImage [0x21, 0x23]⟩, (), []⟩ =
        .error .overflow :=
    vmStepChecked_undefined ⟨0x2321, rfl, rfl, by decide, by decide⟩
  rw [overflows] at defined
  cases defined

end Sigma16

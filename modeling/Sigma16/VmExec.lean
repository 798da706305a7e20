import Sigma16.Transition
import Sigma16.VmCore

/-!
`sigma16_vm_exec` with tracing compiled in. One `vmStep` runs from a `DISPATCH()`
to the next one or to the function's return; the computed gotos go through the
source's three tables.
-/

namespace Sigma16

open Words Transition

inductive TraceEvent where
  | execStart | execEnd | instRrr | instRx | instExp0
  deriving DecidableEq

/-- A trace handler gets the VM by pointer and keeps a context of its own. It
returns the VM it leaves behind, or `none` when control never comes back. -/
abbrev TraceHandler (Ctx : Type) := TraceEvent → Vm → Ctx → Option Vm × Ctx

structure Machine (Ctx : Type) where
  vm : Vm
  ctx : Ctx
  out : List Byte

def Machine.boot (executable : List Byte) : Machine Unit where
  vm := { cpu := Cpu.zero, mem := loadImage executable }
  ctx := ()
  out := []

abbrev Result (Ctx : Type) := Outcome Stop (Machine Ctx)

inductive Label where
  | doAdd | doSub | doMul | doDiv | doCmp | doCmplt | doCmpeq | doCmpgt
  | doInvold | doAndold | doOrold | doXorold | doNop | doTrap
  | doRfi
  | doLea | doLoad | doStore | doJump | doJumpc0 | doJumpc1 | doJumpf | doJumpt | doJal
  | doBadOp
  deriving DecidableEq

inductive Target where
  | inst (label : Label)
  | doDecodeExp
  | doDecodeRx
  deriving DecidableEq

open Label Target in
def dispatchTable : List Target :=
  [inst doAdd, inst doSub, inst doMul, inst doDiv,
   inst doCmp, inst doCmplt, inst doCmpeq, inst doCmpgt,
   inst doInvold, inst doAndold, inst doOrold, inst doXorold,
   inst doNop, inst doTrap, doDecodeExp, doDecodeRx]

def expDispatchTable : List Label := [.doRfi]

open Label in
def rxDispatchTable : List Label :=
  [doLea, doLoad, doStore, doJump,
   doJumpc0, doJumpc1, doJumpf, doJumpt,
   doJal, doBadOp, doBadOp, doBadOp,
   doBadOp, doBadOp, doBadOp, doBadOp]

def goto {Target : Type} (table : List Target) (index : Nat) : Except Stop Target :=
  match table[index]? with
  | some target => .ok target
  | none => .error (.wildGoto index)

/-! The macros and helpers the handlers share. -/

def interpRrr (vm : Vm) : Except Stop Vm := do
  let head ← vm.word vm.cpu.pc.toNat
  return vm.setIr { vm.cpu.ir with head }

def interpExp0 (vm : Vm) : Except Stop Vm := do
  let head ← vm.word vm.cpu.pc.toNat
  let tail ← vm.word (vm.cpu.pc.toNat + 1)
  return vm.setIr { head, tail }

/-- `INTERP_RX`: the displacement alone is byte-swapped. -/
def interpRx (vm : Vm) : Except Stop Vm := do
  let head ← vm.word vm.cpu.pc.toNat
  let tail ← vm.word (vm.cpu.pc.toNat + 1)
  return vm.setIr { head, tail := bswap16 tail }

namespace Vm

def advance (vm : Vm) (words : Word) : Vm := vm.setPc (vm.cpu.pc + words)

def safeUpdate (vm : Vm) (dst : Nibble) (val : Word) : Vm :=
  if dst ≠ 0 then vm.setReg dst val else vm

def clearFlags (vm : Vm) : Vm := vm.setReg 15 0

def setFlag (vm : Vm) (flag : Flag) (val : Bool) : Vm :=
  vm.setReg 15 (setBit (vm.cpu.regs 15) flag.bit val)

def computeRxEaddr (vm : Vm) : Vm :=
  vm.setAdr (truncate (promote (vm.cpu.regs vm.cpu.ir.rx.sa) + promote vm.cpu.ir.rx.disp))

def applyOpRrr (op : CInt → CInt → CInt) (vm : Vm) : Vm :=
  let a := promote (vm.cpu.regs vm.cpu.ir.rrr.sa)
  let b := promote (vm.cpu.regs vm.cpu.ir.rrr.sb)
  (vm.safeUpdate vm.cpu.ir.rrr.d (truncate (op a b))).advance 1

def branch (vm : Vm) (taken : Bool) : Vm :=
  if taken then
    let vm := vm.computeRxEaddr
    vm.setPc vm.cpu.adr
  else vm.advance 2

end Vm

def selectBit (val : Word) (bitPos : Nibble) : Bool :=
  (val >>> (15 - bitPos.toNat)) &&& 1 ≠ 0

/-! The handlers, from the trace call to the next `DISPATCH()`. -/

/-- The flags are set from the destination's register number, as in the source. -/
def doAdd (vm : Vm) : Vm :=
  let vm := (vm.applyOpRrr (· + ·)).clearFlags
  let d : Word := vm.cpu.ir.rrr.d.setWidth 16
  let vm := vm.setFlag .G (0 < d)
  let vm := vm.setFlag .g (BitVec.slt 0 d)
  let vm := vm.setFlag .E (d = 0)
  let vm := vm.setFlag .L (BitVec.slt d 0)
  let vm := vm.setFlag .L (d = 0)
  let vm := vm.setFlag .V (0 < d)
  let vm := vm.setFlag .v (0 < d)
  vm.setFlag .C (0 < d)

def doSub (vm : Vm) : Vm := vm.applyOpRrr (· - ·)

def doMul (vm : Vm) : Vm := vm.applyOpRrr (· * ·)

def opDiv (vm : Vm) : Vm :=
  let a := promote (vm.cpu.regs vm.cpu.ir.rrr.sa)
  let b := promote (vm.cpu.regs vm.cpu.ir.rrr.sb)
  if b = 0 then vm
  else
    let vm := vm.safeUpdate vm.cpu.ir.rrr.d (truncate (a.sdiv b))
    if vm.cpu.ir.rrr.d ≠ 15 then vm.setReg 15 (truncate (a.srem b)) else vm

def doDiv (vm : Vm) : Vm := (opDiv vm).advance 1

/-- The operands are read after R15 has been cleared. -/
def doCmp (vm : Vm) : Vm :=
  let vm := vm.clearFlags
  let a := vm.cpu.regs vm.cpu.ir.rrr.sa
  let b := vm.cpu.regs vm.cpu.ir.rrr.sb
  let vm := vm.setFlag .G (b < a)
  let vm := vm.setFlag .g (b.slt a)
  let vm := vm.setFlag .E (a = b)
  let vm := vm.setFlag .l (a.slt b)
  let vm := vm.setFlag .L (a < b)
  vm.advance 1

def doCmplt (vm : Vm) : Vm := (vm.applyOpRrr fun a b => boolInt (a.slt b)).clearFlags

def doCmpeq (vm : Vm) : Vm := (vm.applyOpRrr fun a b => boolInt (a = b)).clearFlags

def doCmpgt (vm : Vm) : Vm := (vm.applyOpRrr fun a b => boolInt (b.slt a)).clearFlags

def doInvold (vm : Vm) : Vm :=
  let a := promote (vm.cpu.regs vm.cpu.ir.rrr.sa)
  ((vm.safeUpdate vm.cpu.ir.rrr.d (truncate (~~~a))).advance 1).clearFlags

def doAndold (vm : Vm) : Vm := (vm.applyOpRrr (· &&& ·)).clearFlags

def doOrold (vm : Vm) : Vm := (vm.applyOpRrr (· ||| ·)).clearFlags

def doXorold (vm : Vm) : Vm := (vm.applyOpRrr (· ^^^ ·)).clearFlags

def doNop (vm : Vm) : Vm := vm.clearFlags.advance 1

def doRfi (vm : Vm) : Vm := vm.advance 2

/-- `SAFE_UPDATE` evaluates its value only when the destination is not R0, so
`adr` moves only then. -/
def doLea (vm : Vm) : Vm :=
  let d := vm.cpu.ir.rx.d
  let vm := if d ≠ 0 then
      let vm := vm.computeRxEaddr
      vm.setReg d vm.cpu.adr
    else vm
  vm.advance 2

def doLoad (vm : Vm) : Except Stop Vm := do
  let d := vm.cpu.ir.rx.d
  let vm ← if d ≠ 0 then
      let vm := vm.computeRxEaddr
      let val ← readMem vm vm.cpu.adr
      pure (vm.setReg d val)
    else pure vm
  return vm.advance 2

def doStore (vm : Vm) : Except Stop Vm := do
  let vm := vm.computeRxEaddr
  let vm ← writeMem vm vm.cpu.adr (vm.cpu.regs vm.cpu.ir.rx.d)
  return vm.advance 2

def doJump (vm : Vm) : Vm := vm.branch true

def doJumpc0 (vm : Vm) : Vm := vm.branch (!selectBit (vm.cpu.regs 15) vm.cpu.ir.rx.d)

def doJumpc1 (vm : Vm) : Vm := vm.branch (selectBit (vm.cpu.regs 15) vm.cpu.ir.rx.d)

def doJumpf (vm : Vm) : Vm := vm.branch (vm.cpu.regs vm.cpu.ir.rx.d = 0)

def doJumpt (vm : Vm) : Vm := vm.branch (vm.cpu.regs vm.cpu.ir.rx.d ≠ 0)

/-- The link register is written before the target is computed. -/
def doJal (vm : Vm) : Vm := (vm.safeUpdate vm.cpu.ir.rx.d (vm.cpu.pc + 2)).branch true

section Execution

variable {Ctx : Type}

def Machine.attempt {Val : Type} (m : Machine Ctx) (val : Except Stop Val)
    (next : Val → Result Ctx) : Result Ctx :=
  match val with
  | .ok val => next val
  | .error stop => .stopped stop m

def traced (trace : TraceHandler Ctx) (event : TraceEvent) (m : Machine Ctx)
    (next : Machine Ctx → Result Ctx) : Result Ctx :=
  match trace event m.vm m.ctx with
  | (some vm, ctx) => next { m with vm, ctx }
  | (none, ctx) => .stopped .handlerLeft { m with ctx }

def Machine.set (m : Machine Ctx) (vm : Vm) : Result Ctx := .running { m with vm }

/-- The loop of `trap_write`, from index `i` with `count` words to go. The address
`addr + i` is cut to 16 bits by `read_mem`'s parameter. -/
def trapWriteFrom (addr : Word) (count i : Nat) (m : Machine Ctx) : Result Ctx :=
  match count with
  | 0 => .running m
  | count + 1 =>
      m.attempt (readMem m.vm (truncate (promote addr + BitVec.ofNat 32 i))) fun word =>
        trapWriteFrom addr count (i + 1) { m with out := m.out ++ [lowByte word] }

def trapWrite (m : Machine Ctx) : Result Ctx :=
  trapWriteFrom (m.vm.cpu.regs m.vm.cpu.ir.rrr.sa)
    (m.vm.cpu.regs m.vm.cpu.ir.rrr.sb).toNat 0 m

def endHotloop (trace : TraceHandler Ctx) (m : Machine Ctx) : Result Ctx :=
  traced trace .execEnd m fun m => .stopped (.returned 0) m

def doTrap (trace : TraceHandler Ctx) (m : Machine Ctx) : Result Ctx :=
  let code := m.vm.cpu.regs m.vm.cpu.ir.rrr.d
  if code = 0 then endHotloop trace m
  else
    (if code = 2 then trapWrite m else .running m).bind fun m =>
      m.set (m.vm.advance 1).clearFlags

/-- `INTERP_INST(vm, rrr)`, the trace call, and the rest of the handler. -/
def rrr (trace : TraceHandler Ctx) (m : Machine Ctx) (next : Machine Ctx → Result Ctx) :
    Result Ctx :=
  m.attempt (interpRrr m.vm) fun vm => traced trace .instRrr { m with vm } next

def runLabel (trace : TraceHandler Ctx) (m : Machine Ctx) : Label → Result Ctx
  | .doAdd => rrr trace m fun m => m.set (doAdd m.vm)
  | .doSub => rrr trace m fun m => m.set (doSub m.vm)
  | .doMul => rrr trace m fun m => m.set (doMul m.vm)
  | .doDiv => rrr trace m fun m => m.set (doDiv m.vm)
  | .doCmp => rrr trace m fun m => m.set (doCmp m.vm)
  | .doCmplt => rrr trace m fun m => m.set (doCmplt m.vm)
  | .doCmpeq => rrr trace m fun m => m.set (doCmpeq m.vm)
  | .doCmpgt => rrr trace m fun m => m.set (doCmpgt m.vm)
  | .doInvold => rrr trace m fun m => m.set (doInvold m.vm)
  | .doAndold => rrr trace m fun m => m.set (doAndold m.vm)
  | .doOrold => rrr trace m fun m => m.set (doOrold m.vm)
  | .doXorold => rrr trace m fun m => m.set (doXorold m.vm)
  -- `do_nop` traces without refilling `ir`
  | .doNop => traced trace .instRrr m fun m => m.set (doNop m.vm)
  | .doTrap => rrr trace m (doTrap trace)
  | .doRfi => traced trace .instExp0 m fun m => m.set (doRfi m.vm)
  | .doLea => traced trace .instRx m fun m => m.set (doLea m.vm)
  | .doLoad => traced trace .instRx m fun m => m.attempt (doLoad m.vm) m.set
  | .doStore => traced trace .instRx m fun m => m.attempt (doStore m.vm) m.set
  | .doJump => traced trace .instRx m fun m => m.set (doJump m.vm)
  | .doJumpc0 => traced trace .instRx m fun m => m.set (doJumpc0 m.vm)
  | .doJumpc1 => traced trace .instRx m fun m => m.set (doJumpc1 m.vm)
  | .doJumpf => traced trace .instRx m fun m => m.set (doJumpf m.vm)
  | .doJumpt => traced trace .instRx m fun m => m.set (doJumpt m.vm)
  | .doJal => traced trace .instRx m fun m => m.set (doJal m.vm)
  | .doBadOp => .stopped (.returned (-1)) m

def dispatch (vm : Vm) : Except Stop (Vm × Label) := do
  let word ← vm.word vm.cpu.pc.toNat
  match ← goto dispatchTable ((word >>> 4) &&& 0xf).toNat with
  | .inst label => return (vm, label)
  | .doDecodeExp =>
      let vm ← interpExp0 vm
      return (vm, ← goto expDispatchTable vm.cpu.ir.exp0.ab.toNat)
  | .doDecodeRx =>
      let vm ← interpRx vm
      return (vm, ← goto rxDispatchTable vm.cpu.ir.rx.sb.toNat)

def vmStep (trace : TraceHandler Ctx) (m : Machine Ctx) : Result Ctx :=
  m.attempt (dispatch m.vm) fun (vm, label) => runLabel trace { m with vm } label

def vmEntry (trace : TraceHandler Ctx) (m : Machine Ctx) : Result Ctx :=
  traced trace .execStart m .running

def vmExec (trace : TraceHandler Ctx) (count : Nat) (m : Machine Ctx) : Result Ctx :=
  (vmEntry trace m).bind (iterate (vmStep trace) count)

/-- A machine at a `DISPATCH()` of some run on the image, started by
`sigma16_vm_init` with the handler's context `ctx`. -/
inductive Reachable (trace : TraceHandler Ctx) (executable : List Byte) (ctx : Ctx) :
    Machine Ctx → Prop
  | intro {vm start m} : sigma16VmInit executable = .ok vm →
      vmEntry trace { vm, ctx, out := [] } = .running start →
      Reaches (vmStep trace) start m → Reachable trace executable ctx m

def observing (observe : TraceEvent → Vm → Ctx → Ctx) : TraceHandler Ctx :=
  fun event vm ctx => (some vm, observe event vm ctx)

end Execution

end Sigma16

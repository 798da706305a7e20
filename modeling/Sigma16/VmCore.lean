import Mathlib.Logic.Function.Basic
import Sigma16.Words

/-!
The emulator's data: the registers of `cpu.h`, the instruction formats of
`instructions.h`, and the mapped memory of `vm.c` with its loader.
-/

namespace Sigma16

open Words

/-- `sigma16_inst_rrr_t`, fields in bit-field order, low nibble first. -/
structure InstRrr where
  d : Nibble
  op : Nibble
  sb : Nibble
  sa : Nibble
  deriving DecidableEq

structure InstRx where
  d : Nibble
  op : Nibble
  sb : Nibble
  sa : Nibble
  disp : Word
  deriving DecidableEq

/-- `sigma16_inst_exp0_t`: `ab` is an aligned `uint16_t`, so it starts at byte 2. -/
structure InstExp0 where
  d : Nibble
  op : Nibble
  ab : Word
  deriving DecidableEq

/-- `union sigma16_inst_variant`: four bytes shared by every format, kept as
the two little-endian words they are copied from. -/
structure InstVariant where
  head : Word
  tail : Word
  deriving DecidableEq

namespace InstVariant

def rrr (ir : InstVariant) : InstRrr where
  d := nibble ir.head 0
  op := nibble ir.head 1
  sb := nibble ir.head 2
  sa := nibble ir.head 3

def rx (ir : InstVariant) : InstRx where
  d := nibble ir.head 0
  op := nibble ir.head 1
  sb := nibble ir.head 2
  sa := nibble ir.head 3
  disp := ir.tail

def exp0 (ir : InstVariant) : InstExp0 where
  d := nibble ir.head 0
  op := nibble ir.head 1
  ab := ir.tail

end InstVariant

structure Cpu where
  regs : Nibble → Word
  ir : InstVariant
  pc : Word
  adr : Word
  dat : Word
  status : Word
  sys : Bool
  ie : Bool
  mask : Word
  req : Word
  istat : Word
  ipc : Word
  vect : Word

inductive Flag where
  | C | v | V | L | l | E | g | G
  deriving DecidableEq

/-- A byte of padding precedes the flags, so `C` is bit 8 and `G` is bit 15. -/
def Flag.bit : Flag → Nat
  | C => 8
  | v => 9
  | V => 10
  | L => 11
  | l => 12
  | E => 13
  | g => 14
  | G => 15

def memBytes : Nat := 1 <<< 16

def memWords : Nat := memBytes / 2

/-- Only mapped words exist; they hold the host's (little-endian) `uint16_t`s. -/
abbrev Mem := Fin memWords → Word

structure Vm where
  cpu : Cpu
  mem : Mem

/-- Why `sigma16_vm_exec` stops: it returns, it touches a byte outside the
mapping, a computed goto leaves its table, or the trace handler does not come back. -/
inductive Stop where
  | returned (code : Int)
  | unmapped (byte : Nat)
  | wildGoto (index : Nat)
  | handlerLeft
  deriving DecidableEq

namespace Vm

def word (vm : Vm) (index : Nat) : Except Stop Word :=
  if mapped : index < memWords then .ok (vm.mem ⟨index, mapped⟩) else .error (.unmapped (2 * index))

def setReg (vm : Vm) (reg : Nibble) (val : Word) : Vm :=
  { vm with cpu.regs := Function.update vm.cpu.regs reg val }

def setIr (vm : Vm) (ir : InstVariant) : Vm := { vm with cpu.ir := ir }

def setPc (vm : Vm) (pc : Word) : Vm := { vm with cpu.pc := pc }

def setAdr (vm : Vm) (adr : Word) : Vm := { vm with cpu.adr := adr }

def setMem (vm : Vm) (mem : Mem) : Vm := { vm with mem }

def setWord (vm : Vm) (index : Nat) (val : Word) : Except Stop Vm :=
  if mapped : index < memWords then .ok (vm.setMem (Function.update vm.mem ⟨index, mapped⟩ val))
  else .error (.unmapped (2 * index))

section Fields

variable (vm : Vm) (reg : Nibble) (val : Word) (ir : InstVariant) (mem : Mem)

@[simp] theorem setReg_regs :
    (vm.setReg reg val).cpu.regs = Function.update vm.cpu.regs reg val := rfl
@[simp] theorem setReg_ir : (vm.setReg reg val).cpu.ir = vm.cpu.ir := rfl
@[simp] theorem setReg_pc : (vm.setReg reg val).cpu.pc = vm.cpu.pc := rfl
@[simp] theorem setReg_adr : (vm.setReg reg val).cpu.adr = vm.cpu.adr := rfl
@[simp] theorem setReg_mem : (vm.setReg reg val).mem = vm.mem := rfl

@[simp] theorem setIr_regs : (vm.setIr ir).cpu.regs = vm.cpu.regs := rfl
@[simp] theorem setIr_ir : (vm.setIr ir).cpu.ir = ir := rfl
@[simp] theorem setIr_pc : (vm.setIr ir).cpu.pc = vm.cpu.pc := rfl
@[simp] theorem setIr_mem : (vm.setIr ir).mem = vm.mem := rfl

@[simp] theorem setPc_regs : (vm.setPc val).cpu.regs = vm.cpu.regs := rfl
@[simp] theorem setPc_ir : (vm.setPc val).cpu.ir = vm.cpu.ir := rfl
@[simp] theorem setPc_pc : (vm.setPc val).cpu.pc = val := rfl
@[simp] theorem setPc_mem : (vm.setPc val).mem = vm.mem := rfl

@[simp] theorem setAdr_regs : (vm.setAdr val).cpu.regs = vm.cpu.regs := rfl
@[simp] theorem setAdr_ir : (vm.setAdr val).cpu.ir = vm.cpu.ir := rfl
@[simp] theorem setAdr_pc : (vm.setAdr val).cpu.pc = vm.cpu.pc := rfl
@[simp] theorem setAdr_adr : (vm.setAdr val).cpu.adr = val := rfl
@[simp] theorem setAdr_mem : (vm.setAdr val).mem = vm.mem := rfl

@[simp] theorem setMem_cpu : (vm.setMem mem).cpu = vm.cpu := rfl
@[simp] theorem setMem_mem : (vm.setMem mem).mem = mem := rfl

end Fields

end Vm

def writeMem (vm : Vm) (addr val : Word) : Except Stop Vm :=
  vm.setWord addr.toNat (bswap16 val)

def readMem (vm : Vm) (addr : Word) : Except Stop Word :=
  (vm.word addr.toNat).map bswap16

def loadImage (executable : List Byte) : Mem := fun index =>
  executable.getD (2 * index + 1) 0 ++ executable.getD (2 * index) 0

def Cpu.zero : Cpu where
  regs _ := 0
  ir := { head := 0, tail := 0 }
  pc := 0
  adr := 0
  dat := 0
  status := 0
  sys := false
  ie := false
  mask := 0
  req := 0
  istat := 0
  ipc := 0
  vect := 0

/-- `sigma16_vm_init` on a readable file and a host that grants the memory. The
file's whole length is read into the mapping, with no bound on it. -/
def sigma16VmInit (executable : List Byte) : Except Stop Vm :=
  if executable.length ≤ memBytes then .ok { cpu := Cpu.zero, mem := loadImage executable }
  else .error (.unmapped memBytes)

end Sigma16

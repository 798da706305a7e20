import Sigma16.TotalCorrectness
import Sigma16.VmAddition
import Sigma16.InstFormat

/-!
Programs as their author reads them: a list of instructions and data, control at one of
the items, registers that hold 16-bit numbers, and a store of words kept apart from the code.
The machine has no instruction register and no byte order, and goes wrong where a program
leaves its own code, executes data, or writes over an instruction.
-/

namespace Sigma16

open Words Transition

def statusWord (holds : Flag → Bool) : Word :=
  [Flag.C, .v, .V, .L, .l, .E, .g, .G].foldl (fun word flag => setBit word flag.bit (holds flag)) 0

def put (regs : Nibble → Word) (d : Register) (val : Word) : Nibble → Word :=
  if d = 0 then regs else Function.update regs d val

def withStatus (regs : Nibble → Word) (status : Word) : Nibble → Word :=
  Function.update regs 15 status

/-- What ADD leaves in R15 tells R0 from the other destinations, and nothing about the sum. -/
def sumFlags (d : Register) (flag : Flag) : Bool :=
  match flag with
  | .C | .v | .V | .g | .G => d ≠ 0
  | .E | .L => d = 0
  | .l => false

namespace Label

def result (label : Label) (a b : Word) : Word :=
  match label with
  | doAdd => a + b
  | doSub => a - b
  | doMul => a * b
  | doDiv => a / b
  | doCmplt => if a < b then 1 else 0
  | doCmpeq => if a = b then 1 else 0
  | doCmpgt => if b < a then 1 else 0
  | doInvold => ~~~a
  | doAndold => a &&& b
  | doOrold => a ||| b
  | doXorold => a ^^^ b
  | _ => 0

def registers (label : Label) (d sa sb : Register) (regs : Nibble → Word) : Nibble → Word :=
  let written := put regs d (label.result (regs sa) (regs sb))
  match label with
  | doAdd => withStatus written (statusWord (sumFlags d))
  | doSub | doMul => written
  | doDiv =>
      if regs sb = 0 then regs
      else if d = 15 then written
      else withStatus written (regs sa % regs sb)
  | doCmp => withStatus regs
      (statusWord fun flag => flag.relates (withStatus regs 0 sa) (withStatus regs 0 sb))
  | doNop | doTrap => withStatus regs 0
  | _ => withStatus written 0

def rrrLabels : List Label :=
  [doAdd, doSub, doMul, doDiv, doCmp, doCmplt, doCmpeq, doCmpgt,
   doInvold, doAndold, doOrold, doXorold, doNop, doTrap]

def rxLabels : List Label :=
  [doLea, doLoad, doStore, doJump, doJumpc0, doJumpc1, doJumpf, doJumpt, doJal]

end Label

inductive ItemStop where
  | halted
  | wrong
  deriving DecidableEq

structure ItemState where
  index : Nat
  regs : Nibble → Word
  store : Nat → Word
  out : List Byte

def Item.isInst : Item → Bool
  | data _ => false
  | _ => true

abbrev Layout := List (Nat × Bool)

def codeLayout (items : List Item) : Layout :=
  items.map fun item => (item.words.length, item.isInst)

def locate : Layout → Nat → Option Nat
  | [], addr => if addr = 0 then some 0 else none
  | (size, _) :: parts, addr =>
      if addr = 0 then some 0
      else if addr < size then none
      else (locate parts (addr - size)).map (· + 1)

def inCode : Layout → Nat → Bool
  | [], _ => false
  | (size, inst) :: parts, addr => if addr < size then inst else inCode parts (addr - size)

/-- What the operand of an RX instruction stands for in given registers: an address, and the
item control goes to when it is the target of a jump. -/
structure Operand where
  address : (Nibble → Word) → Word
  target : (Nibble → Word) → Option Nat

namespace ItemState

def next (s : ItemState) (regs : Nibble → Word) : ItemState :=
  { s with index := s.index + 1, regs }

def goto (s : ItemState) (target : Option Nat) : Outcome ItemStop ItemState :=
  match target with
  | some index => .running { s with index }
  | none => .stopped .wrong s

def branch (s : ItemState) (taken : Bool) (target : Option Nat) : Outcome ItemStop ItemState :=
  if taken then s.goto target else .running (s.next s.regs)

/-- The addresses TRAP writes out, which wrap around at 16 bits. -/
def written (s : ItemState) (sa sb : Register) : List Nat :=
  (List.range (s.regs sb).toNat).map fun i => (s.regs sa + BitVec.ofNat 16 i).toNat

def trap (s : ItemState) (d sa sb : Register) : Outcome ItemStop ItemState :=
  let after := s.next (Label.doTrap.registers d sa sb s.regs)
  if s.regs d = 0 then .stopped .halted s
  else if s.regs d = 2 then
    let shown := (s.written sa sb).map fun addr => lowByte (s.store addr)
    if ∀ addr ∈ s.written sa sb, addr < memWords then .running { after with out := s.out ++ shown }
    else .stopped .wrong s
  else .running after

def runRrr (s : ItemState) (label : Label) (d sa sb : Register) : Outcome ItemStop ItemState :=
  if label = .doTrap then s.trap d sa sb else .running (s.next (label.registers d sa sb s.regs))

def runRx (parts : Layout) (back : Word) (s : ItemState) (label : Label) (d : Register)
    (operand : Operand) : Outcome ItemStop ItemState :=
  let addr := (operand.address s.regs).toNat
  match label with
  | .doLea => .running (s.next (put s.regs d (operand.address s.regs)))
  | .doLoad =>
      if d = 0 then .running (s.next s.regs)
      else if addr < memWords then .running (s.next (put s.regs d (s.store addr)))
      else .stopped .wrong s
  | .doStore =>
      if addr < memWords ∧ inCode parts addr = false then
        .running { s.next s.regs with store := Function.update s.store addr (s.regs d) }
      else .stopped .wrong s
  | .doJump => s.branch true (operand.target s.regs)
  | .doJumpc0 => s.branch (!(s.regs 15).getLsbD (15 - d.toNat)) (operand.target s.regs)
  | .doJumpc1 => s.branch ((s.regs 15).getLsbD (15 - d.toNat)) (operand.target s.regs)
  | .doJumpf => s.branch (s.regs d = 0) (operand.target s.regs)
  | .doJumpt => s.branch (s.regs d ≠ 0) (operand.target s.regs)
  | .doJal =>
      let linked := { s with regs := put s.regs d back }
      linked.branch true (operand.target linked.regs)
  | _ => .stopped .wrong s

def boot (items : List Item) : ItemState where
  index := 0
  regs _ := 0
  store addr := (codeWords items).getD addr 0
  out := []

end ItemState

def itemOperand (items : List Item) (sa : Register) (disp : Word) : Operand where
  address regs := regs sa + disp
  target regs := locate (codeLayout items) (regs sa + disp).toNat

def ItemState.runItemRx (items : List Item) (s : ItemState) (label : Label) (d sa : Register)
    (disp : Word) : Outcome ItemStop ItemState :=
  s.runRx (codeLayout items) (BitVec.ofNat 16 (itemOffset items (s.index + 1))) label d
    (itemOperand items sa disp)

def itemStep (items : List Item) (s : ItemState) : Outcome ItemStop ItemState :=
  match items[s.index]? with
  | some (.rrr op d sa sb) => s.runRrr (Label.rrrLabels.getD op.val .doBadOp) d sa sb
  | some (.rx op d sa disp) =>
      s.runItemRx items (Label.rxLabels.getD op.val .doBadOp) d sa disp.word
  | _ => .stopped .wrong s

end Sigma16

import Sigma16.PyText
import Sigma16.Words

/-!
`disassembler.py`: the generator `disasm_binary` as the entries it yields and the
exception that ends it, if one does.
-/

namespace Sigma16

open PyText Words

inductive DisError where
  | disassemblerError (reason : Str)
  | notImplementedError
  | indexError
  | structError
  deriving DecidableEq

inductive DisInst where
  | rrr (opcode : Nat) (mnemonic : Str) (d sa sb : Nibble)
  | rx (opcode : Nat) (mnemonic : Str) (d sa sb : Nibble) (disp : Nat)
  deriving DecidableEq

def rrrInstSize : Nat := 2

def rxInstSize : Nat := 4

def rrrInstructions : List Str :=
  ["add", "sub", "mul", "div", "cmp", "cmplt", "cmpeq", "cmpgt",
   "inv", "and", "or", "xor", "nop", "trap"].map String.toList

def rxInstructions : List Str :=
  ["lea", "load", "store", "jump", "jumpc0", "jumpc1", "jumpf", "jumpt", "jal"].map String.toList

def byteAt (binary : List Byte) (index : Nat) : Except DisError Byte :=
  match binary[index]? with
  | some byte => .ok byte
  | none => .error .indexError

def registerOf (r : Nat) : Except DisError Nibble :=
  if r < 16 then .ok (BitVec.ofNat 4 r)
  else .error (.disassemblerError "invalid register".toList)

def splitByte (b : Byte) : Nat × Nat := (b.toNat &&& 0xF, b.toNat >>> 4)

def unpackShort : List Byte → Except DisError Nat
  | [high, low] => .ok (high ++ low : Word).toNat
  | _ => .error .structError

def decodeRrrInst (binary : List Byte) (offset : Nat) : Except DisError DisInst := do
  let (d, opcode) := splitByte (← byteAt binary offset)
  let (sb, sa) := splitByte (← byteAt binary (offset + 1))
  match rrrInstructions[opcode]? with
  | some mnemonic =>
      return .rrr opcode mnemonic (← registerOf d) (← registerOf sa) (← registerOf sb)
  | none => .error .indexError

/-- `None` stands for a secondary opcode without a mnemonic. -/
def decodeRxInst (binary : List Byte) (offset : Nat) : Except DisError (Option DisInst) := do
  let (d, opcode) := splitByte (← byteAt binary offset)
  let (sb, sa) := splitByte (← byteAt binary (offset + 1))
  match rxInstructions[sb]? with
  | some mnemonic =>
      let disp ← unpackShort ((binary.take (offset + 4)).drop (offset + 2))
      return some
        (.rx opcode mnemonic (← registerOf d) (← registerOf sa) (← registerOf sb) disp)
  | none => return none

/-- What iterating the generator gives: the offset behind each instruction with the
instruction, and the exception after the last of them. -/
abbrev Listing := List (Nat × Option DisInst) × Option DisError

/-- The loop of `disasm_binary` from `offset` on. Opcode 14 takes the first branch. -/
def disasmFrom (binary : List Byte) (offset : Nat) : Listing :=
  if inside : offset < binary.length - 1 then
    let opcode := binary[offset].toNat >>> 4
    if opcode < 15 then
      match decodeRrrInst binary offset with
      | .ok instruction =>
          let rest := disasmFrom binary (offset + rrrInstSize)
          ((offset + rrrInstSize, some instruction) :: rest.1, rest.2)
      | .error error => ([], some error)
    else if opcode = 14 then ([], some .notImplementedError)
    else if opcode = 15 then
      match decodeRxInst binary offset with
      | .ok instruction =>
          let rest := disasmFrom binary (offset + rxInstSize)
          ((offset + rxInstSize, instruction) :: rest.1, rest.2)
      | .error error => ([], some error)
    else ([], some (.disassemblerError "invalid opcode".toList))
  else ([], none)
termination_by binary.length - offset
decreasing_by
  · simp only [rrrInstSize]
    omega
  · simp only [rxInstSize]
    omega

def disasmBinary (binary : List Byte) : Listing := disasmFrom binary 0

end Sigma16

import Mathlib.Data.Int.Bitwise
import Sigma16.PyText
import Sigma16.Words

/-!
`assembler.py`: from source lines to objects and labels, from labels to word
offsets, and from linked objects to bytes. An exception is the `Except` error it raises.
-/

namespace Sigma16

open PyText Words

inductive PyError where
  | parserError (reason : Str)
  | linkerError (reason : Str)
  | valueError
  | typeError
  | indexError
  | keyError
  | attributeError
  | structError
  deriving DecidableEq

abbrev Register := Nibble

def registerNames : List Str :=
  ["R0", "R1", "R2", "R3", "R4", "R5", "R6", "R7",
   "R8", "R9", "R10", "R11", "R12", "R13", "R14", "R15"].map String.toList

abbrev Identifier := Str

inductive Disp where
  | int (value : Int)
  | ident (name : Identifier)
  deriving DecidableEq

/-- `_parse_mov_inst` also lets a number stand for the destination register. -/
inductive Dest where
  | reg (reg : Register)
  | num (value : Int)
  deriving DecidableEq

inductive Obj where
  | rrr (opcode : Int) (d sa sb : Register)
  | rx (opcode : Int) (d : Dest) (sa : Register) (disp : Disp)
  | num (value : Int)
  deriving DecidableEq

inductive InstType where
  | rrr | rx | pseudo
  deriving DecidableEq

/-- `INSTRUCTIONS`; the negative opcodes stand for aliases. -/
def instructions : List (Str × Int × InstType) :=
  [("ADD", 0, .rrr), ("SUB", 1, .rrr), ("MUL", 2, .rrr), ("DIV", 3, .rrr),
   ("CMP", 4, .pseudo), ("CMPLT", 5, .rrr), ("CMPEQ", 6, .rrr), ("CMPGT", 7, .rrr),
   ("INV", 8, .pseudo), ("AND", 9, .rrr), ("OR", 10, .rrr), ("XOR", 11, .rrr),
   ("NOP", 12, .rrr), ("TRAP", 13, .rrr),
   ("LEA", 0, .rx), ("LOAD", 1, .rx), ("STORE", 2, .rx), ("JUMP", 3, .rx),
   ("JUMPC0", 4, .rx), ("JUMPC1", 5, .rx), ("JUMPF", 6, .rx), ("JUMPT", 7, .rx),
   ("JUMPLE", -1, .rx), ("JUMPLT", -2, .rx), ("JUMPNE", -3, .rx), ("JUMPEQ", -4, .rx),
   ("JUMPGE", -5, .rx), ("JUMPGT", -6, .rx), ("JAL", 8, .rx),
   ("MOV", -7, InstType.pseudo)].map fun (name, entry) => (name.toList, entry)

/-! Operands. -/

def supportedBases : List Nat := [10, 16, 2, 8]

def quote : Char := Char.ofNat 39

def parseNumeric (string : Str) : Except PyError Int :=
  match supportedBases.findSome? (int string) with
  | some value => .ok value
  | none => match string with
    | [first, char, last] =>
        if first = quote ∧ last = quote then .ok char.toNat
        else .error (.parserError "invalid numeric base".toList)
    | _ => .error (.parserError "invalid numeric base".toList)

def parseRegister (reg : Str) : Except PyError Register :=
  match registerNames.idxOf? reg with
  | some index => .ok (BitVec.ofNat 4 index)
  | none => .error (.parserError ("invalid register: \"".toList ++ reg ++ "\"".toList))

def parseRegisters (chunks : List Str) : Except PyError (List Register) :=
  chunks.mapM fun chunk => parseRegister (strip chunk)

def isLegalLabelRef (string : Str) : Bool := string.all fun char => char.isAlpha || char == '_'

/-! Instructions. A constructor given too few or too many operands is a `TypeError`. -/

def parseInvInst (opcode : Int) (string : Str) : Except PyError Obj := do
  match ← parseRegisters (string.splitOn ',') with
  | [d, sa] => return .rrr opcode d sa 0
  | _ => .error .typeError

def parseCmpInst (opcode : Int) (string : Str) : Except PyError Obj := do
  match ← parseRegisters (string.splitOn ',') with
  | [sa, sb] => return .rrr opcode 0 sa sb
  | _ => .error .typeError

def parseRegOrNumeric (string : Str) : Except PyError Dest :=
  match parseRegister string with
  | .ok reg => .ok (.reg reg)
  | .error _ => (parseNumeric string).map .num

def parseMovInst (string : Str) : Except PyError Obj := do
  match ← (string.splitOn ',').mapM fun chunk => parseRegOrNumeric (strip chunk) with
  | [d, .reg sa] => return .rx 0 d sa (.int 0)
  | [d, .num disp] => return .rx 0 d 0 (.int disp)
  | _ => .error .valueError

def parsePseudoInstruction (opcode : Int) (string : Str) : Except PyError Obj :=
  if opcode = 4 then parseCmpInst opcode string
  else if opcode = 8 then parseInvInst opcode string
  else if opcode = -7 then parseMovInst string
  else .error .keyError

/-- The branch for CMP, which names `d` twice, can only raise. -/
def parseRrrInstruction (opcode : Int) (string : Str) : Except PyError Obj := do
  match ← parseRegisters (string.splitOn ',') with
  | [d, sa, sb] => if opcode = 4 then .error .typeError else return .rrr opcode d sa sb
  | _ => .error .typeError

/-- JUMP and its aliases: the opcode that is emitted and the register, or the bit of R15, in `d`. -/
def implicitDest : List (Int × Int × Register) :=
  [(3, 3, 0), (-1, 4, 1), (-2, 5, 3), (-3, 4, 2), (-4, 5, 2), (-5, 4, 3), (-6, 5, 1)]

def parseDisp (string : Str) : Except PyError Disp :=
  match parseNumeric (strip string) with
  | .ok value => .ok (.int value)
  | .error _ =>
      if isLegalLabelRef (strip string) then .ok (.ident string)
      else .error (.parserError "invalid displacement".toList)

def parseRxOperand (opcode : Int) (d : Register) (string : Str) : Except PyError Obj := do
  match string.splitOn '[' with
  | [disp, sa] =>
      let disp ← parseDisp disp
      let sa ← parseRegister (strip ((sa.splitOn ']').headD []))
      return .rx opcode (.reg d) sa disp
  | _ => .error .valueError

def parseRxInstruction (opcode : Int) (string : Str) : Except PyError Obj := do
  let chunks := string.splitOn ','
  match implicitDest.lookup opcode with
  | some (opcode, d) => parseRxOperand opcode d (chunks.headD [])
  | none =>
      let d ← parseRegister (strip (chunks.headD []))
      parseRxOperand opcode d chunks.tail.flatten

def parseInstruction (string : Str) : Except PyError Obj :=
  match splitSpace string with
  | [] => .error .indexError
  | name :: operands => match instructions.lookup name with
    | some (opcode, .pseudo) => parsePseudoInstruction opcode operands.flatten
    | some (opcode, .rrr) => parseRrrInstruction opcode operands.flatten
    | some (opcode, .rx) => parseRxInstruction opcode operands.flatten
    | none => .error (.parserError "unknown instruction name".toList)

/-! Lines. -/

def parseLabel (string : Str) : Except PyError Identifier :=
  if string.length < 2 then .error (.parserError "invalid label".toList)
  else match string.idxOf? ':' with
    | none => .error .valueError
    | some index =>
        if index ≠ string.length - 1 then .error (.parserError "invalid label".toList)
        else if isLegalLabelRef string.dropLast then .ok string.dropLast
        else .error (.parserError "illegal char in label".toList)

def parseDataKw (string : Str) : Except PyError Obj :=
  match splitSpace string with
  | [] => .error .indexError
  | [keyword] =>
      if strip keyword ≠ "DATA".toList then .error (.parserError "missing data keyword".toList)
      else .error .indexError
  | keyword :: value :: _ =>
      if strip keyword ≠ "DATA".toList then .error (.parserError "missing data keyword".toList)
      else (parseNumeric (strip value)).map .num

inductive Parsed where
  | obj (obj : Obj)
  | label (name : Identifier)
  deriving DecidableEq

def parseString (string : Str) : Except PyError Parsed :=
  match splitSpace (strip string) with
  | [] => .error .indexError
  | name :: _ =>
      if name = "DATA".toList then (parseDataKw string).map .obj
      else if (instructions.lookup name).isSome then (parseInstruction string).map .obj
      else (parseLabel string).map .label

structure LabelBody where
  objOffset : Nat
  codeOffset : Nat
  deriving DecidableEq

abbrev LabelMapping := List (Identifier × LabelBody)

structure Linker where
  objs : List Obj
  labels : LabelMapping
  deriving DecidableEq

structure Diagnostic where
  reason : Str
  lineNumber : Nat
  line : Str
  deriving DecidableEq

structure ParseState where
  linker : Linker
  parsedObjects : Nat
  errors : List Diagnostic
  deriving DecidableEq

def ParseState.init : ParseState where
  linker := { objs := [], labels := [] }
  parsedObjects := 0
  errors := []

def verify (line : Str) : Str :=
  let clean := strip line
  if clean = [] then [] else (clean.splitOn ';').headD []

def addParsed (state : ParseState) : Parsed → Except PyError ParseState
  | .obj obj => .ok { state with
      linker.objs := state.linker.objs ++ [obj]
      parsedObjects := state.parsedObjects + 1 }
  | .label name =>
      if (state.linker.labels.lookup name).isSome then
        .error (.parserError ("duplicate label \"".toList ++ name ++ "\"".toList))
      else .ok { state with
        linker.labels := state.linker.labels ++ [(name, ⟨state.parsedObjects, 0⟩)] }

def parseLine (state : ParseState) (numbered : Str × Nat) : Except PyError ParseState :=
  let content := verify numbered.1
  if content = [] then .ok state
  else match parseString (upper content) with
    | .ok parsed => addParsed state parsed
    | .error (.parserError reason) => .ok { state with
        errors := state.errors ++ [⟨reason, numbered.2 + 1, strip numbered.1⟩] }
    | .error error => .error error

def parseLines (lines : List Str) : Except PyError ParseState :=
  lines.zipIdx.foldlM parseLine .init

/-! Linking. -/

def sizeof : Obj → Nat
  | .rrr .. => 1
  | .rx .. => 2
  | .num _ => 1

def calcLabelOffset (objs : List Obj) (prevOff offset : Nat) : LabelMapping → LabelMapping
  | [] => []
  | (name, body) :: labels =>
      let offset := offset + (((objs.take body.objOffset).drop prevOff).map sizeof).sum
      (name, { body with codeOffset := offset }) ::
        calcLabelOffset objs body.objOffset offset labels

def linkObj (labels : LabelMapping) : Obj → Except PyError Obj
  | .rx opcode d sa (.ident name) => match labels.lookup name with
    | some body => .ok (.rx opcode d sa (.int body.codeOffset))
    | none => .error (.linkerError ("unknown label \"".toList ++ name ++ "\"".toList))
  | obj => .ok obj

def link (linker : Linker) : Except PyError Linker := do
  let labels := calcLabelOffset linker.objs 0 0 linker.labels
  let objs ← linker.objs.mapM (linkObj labels)
  return { objs, labels }

/-! Code. -/

def packByte (value : Int) : Except PyError (List Byte) :=
  if 0 ≤ value ∧ value ≤ 255 then .ok [BitVec.ofInt 8 value] else .error .structError

def packShort (value : Int) : Except PyError (List Byte) :=
  if -32768 ≤ value ∧ value ≤ 32767 then
    .ok [highByte (BitVec.ofInt 16 value), lowByte (BitVec.ofInt 16 value)]
  else .error .structError

def Dest.value : Dest → Except PyError Int
  | .reg register => .ok register.toNat
  | .num _ => .error .attributeError

def packDisp : Disp → Except PyError (List Byte)
  | .int value => packShort value
  | .ident _ => .error .structError

def encode : Obj → Except PyError (List Byte)
  | .rrr opcode d sa sb => do
      let head ← packByte ((opcode <<< 4).lor d.toNat)
      let tail ← packByte ((sa.toNat : Int) <<< 4 |>.lor sb.toNat)
      return head ++ tail
  | .rx opcode d sa disp => do
      let d ← d.value
      let head ← packByte (((15 : Int) <<< 4).lor d)
      let body ← packByte ((sa.toNat : Int) <<< 4 |>.lor opcode)
      return head ++ body ++ (← packDisp disp)
  | .num value => packShort value

/-- The bytes written, and the exception that cut the writing short. -/
def writeCode : List Obj → List Byte × Option PyError
  | [] => ([], none)
  | obj :: objs => match encode obj with
    | .ok bytes => (bytes ++ (writeCode objs).1, (writeCode objs).2)
    | .error error => ([], some error)

end Sigma16

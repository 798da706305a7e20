import Sigma16.PyText
import Sigma16.Words

/-!
The command lines of `debugger.c`: `strtok` and `strtol` of the C library as
`parse_cmd` uses them, and the command it makes of a line.
-/

namespace Sigma16

open PyText Words

inductive DebuggerCmd where
  | step (steps : CInt)
  | cont
  | trace
  | setBreakpoint (addr : CInt)
  | dumpCpu
  | dumpMem (stop start : CInt)
  | writeReg (reg val : CInt)
  | readReg (reg : CInt)
  | help
  | exit
  deriving DecidableEq

inductive ParsedCmd where
  | cmd (cmd : DebuggerCmd)
  | null (message : String)
  /-- `strtol` is given the null pointer that stands for a missing token. -/
  | crash (message : String)
  deriving DecidableEq

def strtok (buf : Str) : List Str := (buf.splitOn ' ').filter (· ≠ [])

def strtolDigits (base : Nat) (text : Str) : Nat :=
  (text.takeWhile fun char => (digitValue base char).isSome).foldl
    (fun sofar char => base * sofar + (digitValue base char).getD 0) 0

def strtolUnsigned : Str → Nat
  | '0' :: letter :: rest =>
      if letter = 'x' ∨ letter = 'X' then strtolDigits 16 rest
      else strtolDigits 8 (letter :: rest)
  | text => strtolDigits 10 text

def strtol (buf : Str) : Int :=
  let value : Int := match buf.dropWhile isCSpace with
    | '-' :: text => -strtolUnsigned text
    | '+' :: text => strtolUnsigned text
    | text => strtolUnsigned text
  max (-2 ^ 63) (min value (2 ^ 63 - 1))

def parseInt (buf : Str) : CInt := BitVec.ofInt 32 (strtol buf)

def parseIntDefault (buf : Option Str) (default : CInt) : CInt := (buf.map parseInt).getD default

def parseCmdWriteReg : List Str → ParsedCmd
  | [] => .null "specify register\n"
  | [_] => .null "specify value\n"
  | reg :: val :: _ => .cmd (.writeReg (parseInt reg) (parseInt val))

def parseCmdReadReg : List Str → ParsedCmd
  | [] => .null "specify register\n"
  | reg :: _ => .cmd (.readReg (parseInt reg))

def parseCmdStep (tokens : List Str) : ParsedCmd :=
  .cmd (.step (parseIntDefault tokens[0]? 1))

def parseCmdDumpMem (tokens : List Str) : ParsedCmd :=
  .cmd (.dumpMem (parseIntDefault tokens[0]? (0x200 >>> 1)) (parseIntDefault tokens[1]? 0))

/-- A missing address is reported, and then parsed all the same. -/
def parseCmdSetBreakpoint : List Str → ParsedCmd
  | [] => .crash "invalid breakpoint\n"
  | addr :: _ => .cmd (.setBreakpoint (parseInt addr))

def parseCmd (buf : Str) : ParsedCmd :=
  match strtok buf with
  | [] => .null ""
  | token :: tokens =>
      if token = ['n'] then parseCmdStep tokens
      else if token = ['b'] then parseCmdSetBreakpoint tokens
      else if token = ['i'] then parseCmdWriteReg tokens
      else if token = ['o'] then parseCmdReadReg tokens
      else if token = ['t'] then .cmd .trace
      else if token = ['?'] then .cmd .help
      else if token = ['c'] then .cmd .cont
      else if token = ['d'] then .cmd .dumpCpu
      else if token = ['m'] then parseCmdDumpMem tokens
      else if token = ['e'] then .cmd .exit
      else .null ""

theorem strtok_two {first second : Str} (solidFirst : ' ' ∉ first) (solidSecond : ' ' ∉ second)
    (nonemptyFirst : first ≠ []) (nonemptySecond : second ≠ []) :
    strtok (first ++ ' ' :: second) = [first, second] := by
  rw [strtok, List.splitOn_append_cons_self_of_not_mem solidFirst,
    List.splitOn_eq_singleton solidSecond]
  simp [nonemptyFirst, nonemptySecond]

section Decimal

theorem toDigits_head (value : Nat) (positive : 1 ≤ value) :
    ∃ first rest, Nat.toDigits 10 value = first :: rest ∧ first ≠ '0' := by
  induction value using Nat.strongRecOn with
  | ind value ih =>
      by_cases small : value < 10
      · refine ⟨value.digitChar, [], Nat.toDigits_of_lt_base small, ?_⟩
        rw [Ne, Nat.digitChar_eq_zero]
        omega
      · obtain ⟨first, rest, spelled, nonzero⟩ := ih (value / 10) (by omega) (by omega)
        refine ⟨first, rest ++ [(value % 10).digitChar], ?_, nonzero⟩
        rw [Nat.toDigits_of_base_le (by decide) (by omega), spelled]
        rfl

theorem strtolDigits_ten {text : Str} (digits : ∀ char ∈ text, char.isDigit) :
    strtolDigits 10 text = Nat.ofDigitChars 10 text 0 := by
  have all : (text.takeWhile fun char => (digitValue 10 char).isSome) = text := by
    rw [List.takeWhile_eq_self_iff]
    intro char member
    rw [digitValue_digit (digits char member)]
    rfl
  rw [strtolDigits, all, Nat.ofDigitChars_eq_foldl]
  refine List.foldl_ext _ _ _ fun sofar char member => ?_
  rw [digitValue_digit (digits char member)]
  rfl

theorem strtol_decimal (value : Nat) (positive : 1 ≤ value) :
    strtol (decimal value) = min (value : Int) (2 ^ 63 - 1) := by
  obtain ⟨first, rest, spelled, nonzero⟩ := toDigits_head value positive
  have digits : ∀ char ∈ first :: rest, char.isDigit := by
    intro char member
    rw [← spelled] at member
    exact toDigits_isDigit member
  have leading : first.isDigit := digits first (by simp)
  have unsigned : strtolUnsigned (first :: rest) = value := by
    have plain : strtolUnsigned (first :: rest) = strtolDigits 10 (first :: rest) := by
      unfold strtolUnsigned
      split
      · rename_i same
        exact absurd (List.cons.inj same).1 nonzero
      · rfl
    rw [plain, strtolDigits_ten digits, ← spelled, Nat.ofDigitChars_ten_toDigits]
  have trimmed : (first :: rest).dropWhile isCSpace = first :: rest :=
    dropWhile_eq_self fun char member => (digit_solid (digits char member)).2
  have spelling : decimal value = first :: rest := spelled
  simp only [strtol, spelling, trimmed]
  split
  · rename_i same
    rw [(List.cons.inj same).1] at leading
    simp at leading
  · rename_i same
    rw [(List.cons.inj same).1] at leading
    simp at leading
  · rw [unsigned]
    omega

def stepLine (value : Nat) : Str := 'n' :: ' ' :: decimal value

theorem parseCmd_stepLine (value : Nat) :
    parseCmd (stepLine value) = .cmd (.step (parseInt (decimal value))) := by
  have solid : ' ' ∉ decimal value := by
    intro member
    have digit := toDigits_isDigit member
    simp at digit
  have tokens : strtok (stepLine value) = [['n'], decimal value] :=
    @strtok_two ['n'] (decimal value) (by decide) solid (by decide) Nat.toDigits_ne_nil
  rw [parseCmd, tokens]
  rfl

end Decimal

end Sigma16

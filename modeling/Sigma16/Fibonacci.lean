import Mathlib.Data.Nat.Fib.Basic
import Sigma16.BranchAliases
import Sigma16.VmRules

/-!
The assembler example of the README, for any count: from its text to the image, and
from the image to the Fibonacci numbers its loop leaves in the registers.
-/

namespace Sigma16

open PyText Words Transition Fallible

/-- The lines of the example, with `value` where the README counts from 10. -/
def fibSource (value : Int) : List Str :=
  ["start:\n".toList,
   "    mov r1, 0   ; fibonacci number\n".toList,
   "    mov r2, 1\n".toList,
   "    mov r3, ".toList ++ (decimal value ++ "  ; counter\n".toList),
   "    mov r4, 1\n".toList,
   "fib:\n".toList,
   "    add r5, r1, r2\n".toList,
   "    mov r1, r2\n".toList,
   "    mov r2, r5\n".toList,
   "\n".toList,
   "    sub r3, r3, r4\n".toList,
   "    cmpeq r6, r3, r0\n".toList,
   "    jumpf r6, fib[r0]\n".toList,
   "exit:\n".toList,
   "    trap r0, r0, r0\n".toList]

def fibItems (value : Signed16) : List Item :=
  let lea (d sa : Register) (disp : Signed16) : Item := .rx ⟨0, by decide⟩ d sa disp
  [lea 1 0 ⟨0, by decide⟩, lea 2 0 ⟨1, by decide⟩, lea 3 0 value, lea 4 0 ⟨1, by decide⟩,
   .rrr ⟨0, by decide⟩ 5 1 2, lea 1 2 ⟨0, by decide⟩, lea 2 5 ⟨0, by decide⟩,
   .rrr ⟨1, by decide⟩ 3 3 4, .rrr ⟨6, by decide⟩ 6 3 0, .rx ⟨6, by decide⟩ 6 0 ⟨8, by decide⟩,
   .rrr ⟨13, by decide⟩ 0 0 0]

section Assembling

theorem reads_mov (value : Int) :
    Reads ("    mov r3, ".toList ++ (decimal value ++ "  ; counter\n".toList))
      (some (.obj (.rx 0 (.reg 3) 0 (.int value)))) := by
  have token := decimal_token value
  have nonempty := decimal_ne_nil value
  have content : verify ("    mov r3, ".toList ++ (decimal value ++ "  ; counter\n".toList)) =
      "mov r3, ".toList ++ (decimal value ++ "  ".toList) := by
    have commented : "    mov r3, ".toList ++ (decimal value ++ "  ; counter\n".toList) =
        ("    mov r3, ".toList ++ (decimal value ++ "  ".toList)) ++ ';' :: " counter\n".toList := by
      have comment : "  ; counter\n".toList = "  ".toList ++ ';' :: " counter\n".toList := by decide
      rw [comment, List.append_assoc, List.append_assoc]
    have uncommented : ';' ∉ "    mov r3, ".toList ++ (decimal value ++ "  ".toList) := by
      simp [token.1.not_comment]
    rw [commented, verify_comment uncommented]
    rfl
  have capitals : upper ("mov r3, ".toList ++ (decimal value ++ "  ".toList)) =
      "MOV".toList ++ ' ' :: ("R3,".toList ++ ' ' :: (decimal value ++ ' ' :: [' '])) := by
    have front : upper "mov r3, ".toList = "MOV R3, ".toList := by decide
    have blanks : upper "  ".toList = "  ".toList := by decide
    rw [upper_append, upper_append, front, blanks, token.1.upper]
    rfl
  have chunks : splitSpace ("MOV".toList ++ ' ' ::
      ("R3,".toList ++ ' ' :: (decimal value ++ ' ' :: [' ']))) =
      ["MOV".toList, "R3,".toList, decimal value] := by
    have mnemonic : IsPlain "MOV".toList := by decide
    have operand : IsPlain "R3,".toList := by decide
    rw [splitSpace_word mnemonic.solid (by decide) (by decide),
      splitSpace_word operand.solid (by decide) (by decide),
      splitSpace_word token.1.solid nonempty (by decide)]
    rfl
  have operands : (["R3,".toList, decimal value]).flatten = registerName 3 ++ ',' :: decimal value := by
    have name : registerName 3 = "R3".toList := by decide
    rw [name, List.flatten_cons, List.flatten_singleton]
    rfl
  have entry : instructions.lookup "MOV".toList = some (-7, .pseudo) := by decide
  refine ⟨by rw [content]; simp, ?_⟩
  rw [content, capitals, parseString, splitSpace_strip, chunks]
  simp only [show ¬ "MOV".toList = "DATA".toList by decide, if_false, entry, Option.isSome_some,
    if_true, parseInstruction, chunks, parsePseudoInstruction, operands, parseMovInst_decimal]
  rfl

def fibObjs (value : Int) : List Obj :=
  [.rx 0 (.reg 1) 0 (.int 0), .rx 0 (.reg 2) 0 (.int 1), .rx 0 (.reg 3) 0 (.int value),
   .rx 0 (.reg 4) 0 (.int 1), .rrr 0 5 1 2, .rx 0 (.reg 1) 2 (.int 0), .rx 0 (.reg 2) 5 (.int 0),
   .rrr 1 3 3 4, .rrr 6 6 3 0, .rx 6 (.reg 6) 0 (.ident "FIB".toList), .rrr 13 0 0 0]

theorem parseLines_fib (value : Int) : parseLines (fibSource value) =
    .ok ⟨⟨fibObjs value, [("START".toList, ⟨0, 0⟩), ("FIB".toList, ⟨4, 0⟩),
      ("EXIT".toList, ⟨10, 0⟩)]⟩, 11, []⟩ := by
  have start : Reads "start:\n".toList (some (.label "START".toList)) := by decide +kernel
  have mov1 : Reads "    mov r1, 0   ; fibonacci number\n".toList
      (some (.obj (.rx 0 (.reg 1) 0 (.int 0)))) := by decide +kernel
  have mov2 : Reads "    mov r2, 1\n".toList (some (.obj (.rx 0 (.reg 2) 0 (.int 1)))) := by
    decide +kernel
  have mov4 : Reads "    mov r4, 1\n".toList (some (.obj (.rx 0 (.reg 4) 0 (.int 1)))) := by
    decide +kernel
  have fib : Reads "fib:\n".toList (some (.label "FIB".toList)) := by decide +kernel
  have add : Reads "    add r5, r1, r2\n".toList (some (.obj (.rrr 0 5 1 2))) := by decide +kernel
  have shift1 : Reads "    mov r1, r2\n".toList (some (.obj (.rx 0 (.reg 1) 2 (.int 0)))) := by
    decide +kernel
  have shift2 : Reads "    mov r2, r5\n".toList (some (.obj (.rx 0 (.reg 2) 5 (.int 0)))) := by
    decide +kernel
  have blank : Reads "\n".toList none := by decide +kernel
  have sub : Reads "    sub r3, r3, r4\n".toList (some (.obj (.rrr 1 3 3 4))) := by decide +kernel
  have cmpeq : Reads "    cmpeq r6, r3, r0\n".toList (some (.obj (.rrr 6 6 3 0))) := by
    decide +kernel
  have jumpf : Reads "    jumpf r6, fib[r0]\n".toList
      (some (.obj (.rx 6 (.reg 6) 0 (.ident "FIB".toList)))) := by decide +kernel
  have exit : Reads "exit:\n".toList (some (.label "EXIT".toList)) := by decide +kernel
  have trap : Reads "    trap r0, r0, r0\n".toList (some (.obj (.rrr 13 0 0 0))) := by
    decide +kernel
  exact parseLines_reads (.cons start (.cons mov1 (.cons mov2 (.cons (reads_mov value)
    (.cons mov4 (.cons fib (.cons add (.cons shift1 (.cons shift2 (.cons blank (.cons sub
    (.cons cmpeq (.cons jumpf (.cons exit (.cons trap .nil)))))))))))))))

theorem assembles_fib (value : Signed16) :
    Assembles (fibSource value.val) (wordBytes (codeWords (fibItems value))) :=
  ⟨_, ⟨(fibItems value).map Item.obj, [("START".toList, ⟨0, 0⟩), ("FIB".toList, ⟨4, 8⟩),
    ("EXIT".toList, ⟨10, 17⟩)]⟩, parseLines_fib value.val, rfl, rfl, writeCode_items _⟩

end Assembling

structure FibRegs (position left : Nat) (regs : Nibble → Word) : Prop where
  zero : regs 0 = 0
  current : (regs 1).toNat = Nat.fib position % 2 ^ 16
  following : (regs 2).toNat = Nat.fib (position + 1) % 2 ^ 16
  counter : (regs 3).toNat = left
  one : regs 4 = 1

theorem FibRegs.frame {position left : Nat} {regs next : Nibble → Word} {dest : Nibble}
    (known : FibRegs position left regs) (high : 5 ≤ dest.toNat)
    (same : ∀ reg, reg ≠ dest → reg ≠ 15 → next reg = regs reg) : FibRegs position left next := by
  have kept : ∀ reg : Nibble, reg.toNat ≤ 4 → next reg = regs reg := by
    intro reg low
    apply same
    · rintro rfl
      omega
    · rintro rfl
      exact absurd low (by decide)
  obtain ⟨zero, current, following, counter, one⟩ := known
  constructor
  · rw [kept 0 (by decide), zero]
  · rw [kept 1 (by decide), current]
  · rw [kept 2 (by decide), following]
  · rw [kept 3 (by decide), counter]
  · rw [kept 4 (by decide), one]

section Running

variable {Ctx : Type} {observe : TraceEvent → Vm → Ctx → Ctx} {value : Signed16}
variable {position left : Nat}

theorem word_zero : Signed16.word ⟨0, by decide⟩ = 0#16 := rfl

theorem word_one : Signed16.word ⟨1, by decide⟩ = 1 := rfl

theorem fib_setup {n : Nat} (value : Signed16) (counts : value.val = n) :
    Leads (vmStep (observing observe)) (AtItem (fibItems value) 0 fun regs => ∀ reg, regs reg = 0)
      (AtItem (fibItems value) 4 (FibRegs 0 n)) := by
  have word : value.word.toNat = n := by
    have signed := value.toNat_word
    have bounds := value.property
    omega
  have first : Leads (vmStep (observing observe))
      (AtItem (fibItems value) 0 fun regs => ∀ reg, regs reg = 0)
      (AtItem (fibItems value) 1 fun regs => regs 0 = 0 ∧ regs 1 = 0) := by
    refine AtItem.lea rfl (by decide) fun regs next zero same loaded => ?_
    rw [zero, word_zero] at loaded
    exact ⟨(same 0 (by decide)).trans (zero 0), loaded⟩
  have second : Leads (vmStep (observing observe))
      (AtItem (fibItems value) 1 fun regs => regs 0 = 0 ∧ regs 1 = 0)
      (AtItem (fibItems value) 2 fun regs => regs 0 = 0 ∧ regs 1 = 0 ∧ regs 2 = 1) := by
    refine AtItem.lea rfl (by decide) fun regs next ⟨zero, current⟩ same loaded => ?_
    rw [zero, word_one] at loaded
    exact ⟨(same 0 (by decide)).trans zero, (same 1 (by decide)).trans current, loaded⟩
  have third : Leads (vmStep (observing observe))
      (AtItem (fibItems value) 2 fun regs => regs 0 = 0 ∧ regs 1 = 0 ∧ regs 2 = 1)
      (AtItem (fibItems value) 3 fun regs =>
        regs 0 = 0 ∧ regs 1 = 0 ∧ regs 2 = 1 ∧ (regs 3).toNat = n) := by
    refine AtItem.lea rfl (by decide) fun regs next ⟨zero, current, following⟩ same loaded => ?_
    have counter : (next 3).toNat = n := by
      rw [loaded, zero, ← word]
      exact congrArg BitVec.toNat (BitVec.zero_add value.word)
    exact ⟨(same 0 (by decide)).trans zero, (same 1 (by decide)).trans current,
      (same 2 (by decide)).trans following, counter⟩
  have fourth : Leads (vmStep (observing observe))
      (AtItem (fibItems value) 3 fun regs =>
        regs 0 = 0 ∧ regs 1 = 0 ∧ regs 2 = 1 ∧ (regs 3).toNat = n)
      (AtItem (fibItems value) 4 (FibRegs 0 n)) := by
    refine AtItem.lea rfl (by decide) fun regs next ⟨zero, current, following, counter⟩ same loaded => ?_
    rw [zero, word_one] at loaded
    refine ⟨(same 0 (by decide)).trans zero, ?_, ?_, ?_, loaded⟩
    · rw [same 1 (by decide), current]
      rfl
    · rw [same 2 (by decide), following]
      rfl
    · rw [same 3 (by decide), counter]
  exact first.trans (second.trans (third.trans fourth))

theorem fib_body :
    Leads (vmStep (observing observe)) (AtItem (fibItems value) 4 (FibRegs position (left + 1)))
      (AtItem (fibItems value) 9 fun regs =>
        FibRegs (position + 1) left regs ∧ regs 6 = if left = 0 then 1 else 0) := by
  have fib : Nat.fib (position + 1 + 1) = Nat.fib position + Nat.fib (position + 1) :=
    Nat.fib_add_two
  have add : Leads (vmStep (observing observe))
      (AtItem (fibItems value) 4 (FibRegs position (left + 1)))
      (AtItem (fibItems value) 5 fun regs => FibRegs position (left + 1) regs ∧
        (regs 5).toNat = Nat.fib (position + 1 + 1) % 2 ^ 16) := by
    refine AtItem.alu .add rfl rfl (by decide) (by decide) fun regs next known same sum => ?_
    have result : (next 5).toNat = ((regs 1).toNat + (regs 2).toNat) % 2 ^ 16 := sum
    have current := known.current
    have following := known.following
    exact ⟨known.frame (by decide) same, by omega⟩
  have shift1 : Leads (vmStep (observing observe))
      (AtItem (fibItems value) 5 fun regs => FibRegs position (left + 1) regs ∧
        (regs 5).toNat = Nat.fib (position + 1 + 1) % 2 ^ 16)
      (AtItem (fibItems value) 6 fun regs => regs 0 = 0 ∧
        (regs 1).toNat = Nat.fib (position + 1) % 2 ^ 16 ∧
        (regs 5).toNat = Nat.fib (position + 1 + 1) % 2 ^ 16 ∧ (regs 3).toNat = left + 1 ∧
        regs 4 = 1) := by
    refine AtItem.lea rfl (by decide) fun regs next ⟨known, sum⟩ same loaded => ?_
    obtain ⟨zero, _, following, counter, one⟩ := known
    rw [word_zero, BitVec.add_zero] at loaded
    refine ⟨?_, ?_, ?_, ?_, ?_⟩
    · rw [same 0 (by decide), zero]
    · rw [loaded, following]
    · rw [same 5 (by decide), sum]
    · rw [same 3 (by decide), counter]
    · rw [same 4 (by decide), one]
  have shift2 : Leads (vmStep (observing observe))
      (AtItem (fibItems value) 6 fun regs => regs 0 = 0 ∧
        (regs 1).toNat = Nat.fib (position + 1) % 2 ^ 16 ∧
        (regs 5).toNat = Nat.fib (position + 1 + 1) % 2 ^ 16 ∧ (regs 3).toNat = left + 1 ∧
        regs 4 = 1)
      (AtItem (fibItems value) 7 (FibRegs (position + 1) (left + 1))) := by
    refine AtItem.lea rfl (by decide) fun regs next known same loaded => ?_
    obtain ⟨zero, current, sum, counter, one⟩ := known
    rw [word_zero, BitVec.add_zero] at loaded
    refine ⟨?_, ?_, ?_, ?_, ?_⟩
    · rw [same 0 (by decide), zero]
    · rw [same 1 (by decide), current]
    · rw [loaded, sum]
    · rw [same 3 (by decide), counter]
    · rw [same 4 (by decide), one]
  have sub : Leads (vmStep (observing observe))
      (AtItem (fibItems value) 7 (FibRegs (position + 1) (left + 1)))
      (AtItem (fibItems value) 8 (FibRegs (position + 1) left)) := by
    refine AtItem.alu .sub rfl rfl (by decide) (by decide) fun regs next known same difference => ?_
    obtain ⟨zero, current, following, counter, one⟩ := known
    refine ⟨?_, ?_, ?_, ?_, ?_⟩
    · rw [same 0 (by decide) (by decide), zero]
    · rw [same 1 (by decide) (by decide), current]
    · rw [same 2 (by decide) (by decide), following]
    · have result : ((next 3).toNat : Int) = (((regs 3).toNat : Int) - (regs 4).toNat) % 2 ^ 16 :=
        difference
      have step : (regs 4).toNat = 1 := by rw [one]; rfl
      have bound := (regs 3).isLt
      omega
    · rw [same 4 (by decide) (by decide), one]
  have cmpeq : Leads (vmStep (observing observe))
      (AtItem (fibItems value) 8 (FibRegs (position + 1) left))
      (AtItem (fibItems value) 9 fun regs =>
        FibRegs (position + 1) left regs ∧ regs 6 = if left = 0 then 1 else 0) := by
    refine AtItem.alu .cmpeq rfl rfl (by decide) (by decide) fun regs next known same test => ?_
    have result : next 6 = if regs 3 = regs 0 then 1 else 0 := test
    have equal : regs 3 = regs 0 ↔ left = 0 := by
      rw [known.zero, ← BitVec.toNat_inj, known.counter]
      rfl
    refine ⟨known.frame (by decide) same, ?_⟩
    rw [result, if_congr equal rfl rfl]
  exact add.trans (shift1.trans (shift2.trans (sub.trans cmpeq)))

/-- The loop's invariant at its first instruction: the turns done and those left make `n`. -/
def FibLoop (n left : Nat) (regs : Nibble → Word) : Prop :=
  ∃ position, position + (left + 1) = n ∧ FibRegs position (left + 1) regs

theorem fib_turn (n left : Nat) : Leads (vmStep (observing observe))
    (AtItem (fibItems value) 4 (FibLoop n (left + 1)))
    (AtItem (fibItems value) 4 (FibLoop n left)) := by
  intro m located
  obtain ⟨position, turns, regs⟩ := located.regs
  have jump : Leads (vmStep (observing observe))
      (AtItem (fibItems value) 9 fun regs =>
        FibRegs (position + 1) (left + 1) regs ∧ regs 6 = if left + 1 = 0 then 1 else 0)
      (AtItem (fibItems value) 4 (FibLoop n left)) := by
    refine AtItem.jumpf_taken rfl fun regs ⟨known, test⟩ => ?_
    refine ⟨by rw [test, if_neg (Nat.succ_ne_zero left)], ?_, position + 1, by omega, known⟩
    rw [known.zero]
    rfl
  exact (fib_body.trans jump) m ⟨located.program, located.pc, regs⟩

theorem fib_exit (n : Nat) : Leads (vmStep (observing observe))
    (AtItem (fibItems value) 4 (FibLoop n 0)) (AtItem (fibItems value) 10 (FibRegs n 0)) := by
  intro m located
  obtain ⟨position, turns, regs⟩ := located.regs
  have straight : Leads (vmStep (observing observe))
      (AtItem (fibItems value) 9 fun regs =>
        FibRegs (position + 1) 0 regs ∧ regs 6 = if 0 = 0 then 1 else 0)
      (AtItem (fibItems value) 10 (FibRegs (position + 1) 0)) := by
    refine AtItem.jumpf_straight rfl fun regs ⟨known, test⟩ => ⟨?_, known⟩
    rw [test]
    decide
  obtain rfl : position + 1 = n := turns
  exact (fib_body.trans straight) m ⟨located.program, located.pc, regs⟩

theorem fib_run {n : Nat} (observe : TraceEvent → Vm → Ctx → Ctx) (value : Signed16)
    (counts : value.val = n) (positive : 1 ≤ n) :
    Stops (vmStep (observing observe)) (AtItem (fibItems value) 0 fun regs => ∀ reg, regs reg = 0)
      fun reason last => reason = .returned 0 ∧ FibRegs n 0 last.vm.cpu.regs := by
  obtain ⟨turns, rfl⟩ : ∃ turns, n = turns + 1 := ⟨n - 1, by omega⟩
  have enter : Leads (vmStep (observing observe))
      (AtItem (fibItems value) 4 (FibRegs 0 (turns + 1)))
      (AtItem (fibItems value) 4 (FibLoop (turns + 1) turns)) :=
    (Leads.refl _).weaken (fun _ located => located) fun _ located =>
      ⟨located.program, located.pc, 0, by omega, located.regs⟩
  have loop : Leads (vmStep (observing observe))
      (AtItem (fibItems value) 4 (FibLoop (turns + 1) turns))
      (AtItem (fibItems value) 4 (FibLoop (turns + 1) 0)) :=
    Leads.countdown (fun left => AtItem (fibItems value) 4 (FibLoop (turns + 1) left))
      (fib_turn (turns + 1)) turns
  exact ((fib_setup value counts).trans (enter.trans (loop.trans (fib_exit _)))).stops
    (AtItem.halts rfl fun regs known => known.zero)

end Running

/-- The README's example, counting from any `n`, assembles to an image whose run ends with
the two Fibonacci numbers in R1 and R2. -/
theorem fibonacci_example {Ctx : Type} (observe : TraceEvent → Vm → Ctx → Ctx) (ctx : Ctx)
    {n : Nat} (positive : 1 ≤ n) (bound : n ≤ 32767) :
    ∃ code start, Assembles (fibSource n) code ∧ sigma16VmInit code = .ok start ∧
      ∃ count final, vmExec (observing observe) count { vm := start, ctx, out := [] } =
          .stopped (.returned 0) final ∧
        (final.vm.cpu.regs 1).toNat = Nat.fib n % 2 ^ 16 ∧
        (final.vm.cpu.regs 2).toNat = Nat.fib (n + 1) % 2 ^ 16 ∧ final.vm.cpu.regs 3 = 0 := by
  let value : Signed16 := ⟨n, by omega, by omega⟩
  let code := wordBytes (codeWords (fibItems value))
  have fits : code.length ≤ memBytes := by
    rw [length_wordBytes]
    exact Nat.le_of_ble_eq_true rfl
  refine ⟨code, ⟨Cpu.zero, loadImage code⟩, assembles_fib value, if_pos fits, ?_⟩
  let start : Machine Ctx := ⟨⟨Cpu.zero, loadImage code⟩, observe .execStart ⟨Cpu.zero, loadImage code⟩ ctx, []⟩
  have located : AtItem (fibItems value) 0 (fun regs => ∀ reg, regs reg = 0) start :=
    ⟨.of_image fits rfl, rfl, fun _ => rfl⟩
  obtain ⟨count, reason, final, run, rfl, known⟩ :=
    fib_run observe value rfl positive start located
  refine ⟨count, final, run, known.current, known.following, ?_⟩
  exact BitVec.eq_of_toNat_eq known.counter

theorem fibonacci_example_ten :
    ∃ code start, Assembles (fibSource 10) code ∧ sigma16VmInit code = .ok start ∧
      ∃ count final, vmExec (observing fun _ _ ctx => ctx) count
          { vm := start, ctx := (), out := [] } = .stopped (.returned 0) final ∧
        (final.vm.cpu.regs 1).toNat = 55 ∧ (final.vm.cpu.regs 2).toNat = 89 := by
  obtain ⟨code, start, assembled, loaded, count, final, run, current, following, _⟩ :=
    fibonacci_example (fun _ _ ctx => ctx) () (n := 10) (by decide) (by decide)
  exact ⟨code, start, assembled, loaded, count, final, run, current, following⟩

end Sigma16

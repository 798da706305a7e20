import Sigma16.ItemCalls
import Sigma16.MemoryDump
import Sigma16.Printing

/-!
The lines `sigma16_trace` prints, and the trace of a program as a listing of what it
executes: from the text one can tell every address, mnemonic and shown operand.
-/

namespace Sigma16

open PyText Words Transition Printing

def ansiOff : Str := "\x1b[0m".toList
def ansiRed : Str := "\x1b[31m".toList
def ansiGreen : Str := "\x1b[32m".toList
def ansiYellow : Str := "\x1b[33m".toList
def ansiBlue : Str := "\x1b[34m".toList
def ansiMagenta : Str := "\x1b[35m".toList
def ansiCyan : Str := "\x1b[36m".toList
def ansiWhite : Str := "\x1b[37m".toList

def Colour.ansi : Colour → Str
  | white => ansiWhite
  | cyan => ansiCyan
  | yellow => ansiYellow

def valueText (val : Word) : Str :=
  match printValue val with
  | .value colour val => colour.ansi ++ hexFormat 4 val.toNat ++ ansiOff
  | _ => []

def printReg (r : Register) : Str :=
  if r = 0 then ansiGreen ++ "R0".toList ++ ansiOff
  else if r = 15 then ansiRed ++ "R15".toList ++ ansiOff
  else ansiMagenta ++ 'R' :: decimal r.toNat ++ ansiOff

/-- `%-05s`. The `-` flag overrides the `0`. -/
def padMnemonic (mnemonic : String) : Str :=
  mnemonic.toList ++ List.replicate (5 - mnemonic.length) ' '

def comma : Str := ", ".toList

def tracePseudoinst (inst : InstRrr) (mnemonic : String) : Str :=
  ansiBlue ++ padMnemonic mnemonic ++ "\t".toList ++ printReg inst.sa ++ comma ++
    printReg inst.sb ++ "\n".toList ++ ansiOff

def traceRrr (inst : InstRrr) (mnemonic : String) : Str :=
  if inst.op = 4 ∨ inst.op = 8 then tracePseudoinst inst mnemonic
  else ansiBlue ++ padMnemonic mnemonic ++ "\t".toList ++ printReg inst.d ++ comma ++
    printReg inst.sa ++ comma ++ printReg inst.sb ++ "\n".toList

def traceAddress (inst : InstRx) : Str :=
  valueText inst.disp ++ ansiOff ++ "[".toList ++ printReg inst.sa ++ ansiOff ++ "]\n".toList

def traceBranch (inst : InstRx) (mnemonic : String) : Str :=
  ansiRed ++ padMnemonic mnemonic ++ "\t".toList ++
    (if inst.sb ≠ 3 then printReg inst.d ++ comma else []) ++ traceAddress inst

def traceRx (inst : InstRx) (mnemonic : String) : Str :=
  if 3 ≤ inst.sb ∧ inst.sb ≤ 8 then traceBranch inst mnemonic
  else ansiYellow ++ padMnemonic mnemonic ++ "\t".toList ++ printReg inst.d ++ comma ++
    traceAddress inst

def tracePc (pc : Word) : Str := ansiOff ++ "[".toList ++ hexFormat 4 pc.toNat ++ "]\t".toList

/-- What `sigma16_trace` prints, `none` where it looks up a mnemonic outside its table. -/
def sigma16TraceText (vm : Vm) (event : TraceEvent) : Option Str :=
  match event with
  | .execStart | .execEnd => some []
  | .instRrr => (sigma16TraceMnemonic vm event).map fun mnemonic =>
      tracePc vm.cpu.pc ++ traceRrr vm.cpu.ir.rrr mnemonic
  | .instRx => (sigma16TraceMnemonic vm event).map fun mnemonic =>
      tracePc vm.cpu.pc ++ traceRx vm.cpu.ir.rx mnemonic
  | .instExp0 => some (tracePc vm.cpu.pc)

def traceHandler (event : TraceEvent) (vm : Vm) (text : Option Str) : Option Str := do
  return (← text) ++ (← sigma16TraceText vm event)

section Texts

theorem printReg_code : IsPrefixCode printReg := by
  unfold IsPrefixCode
  decide +kernel

theorem valueText_eq (val : Word) : valueText val =
    (if val = 0 then ansiWhite else ansiCyan) ++ (hexFormat 4 val.toNat ++ ansiOff) := by
  by_cases zero : val = 0
  · simp only [valueText, printValue, zero, if_true, Colour.ansi, List.append_assoc]
  · simp only [valueText, printValue, zero, if_false, Colour.ansi, List.append_assoc]

theorem hexWord_code : IsPrefixCode fun val : Word => hexFormat 4 val.toNat := by
  refine .of_length (fun a b same => ?_) 4 fun val => hexFormat_length (by decide) val.isLt
  exact BitVec.eq_of_toNat_eq (hexFormat_injective 4 same)

theorem valueText_code : IsPrefixCode valueText := by
  refine .of_append_inj fun a b rest more same => ?_
  have width : ∀ val : Word, (if val = 0 then ansiWhite else ansiCyan).length = 5 := by
    intro val
    split <;> rfl
  simp only [valueText_eq, List.append_assoc] at same
  exact (hexWord_code.append_inj (List.append_inj same ((width a).trans (width b).symm)).2).1

theorem tracePc_code : IsPrefixCode tracePc := by
  refine .of_append_inj fun a b rest more same => ?_
  simp only [tracePc, List.append_assoc] at same
  exact (hexWord_code.append_inj (List.append_cancel_left (List.append_cancel_left same))).1

def opText : Fin 14 ⊕ Fin 9 → Str
  | .inl op => ansiBlue ++ padMnemonic (rrrInstMnemonics.getD op.val "") ++ "\t".toList
  | .inr op => (if 3 ≤ op.val then ansiRed else ansiYellow) ++
      padMnemonic (rxInstMnemonics.getD op.val "") ++ "\t".toList

theorem opText_code : IsPrefixCode opText := by
  have rrr : ∀ a b : Fin 14, opText (.inl a) <+: opText (.inl b) → a = b := by decide +kernel
  have rx : ∀ a b : Fin 9, opText (.inr a) <+: opText (.inr b) → a = b := by decide +kernel
  have across : ∀ (a : Fin 14) (b : Fin 9), ¬ opText (.inl a) <+: opText (.inr b) ∧
      ¬ opText (.inr b) <+: opText (.inl a) := by decide +kernel
  intro a b begins
  cases a with
  | inl a => cases b with
    | inl b => rw [rrr a b begins]
    | inr b => exact absurd begins (across a b).1
  | inr a => cases b with
    | inl b => exact absurd begins (across b a).2
    | inr b => rw [rx a b begins]

end Texts

def Item.traceLine (addr : Word) (item : Item) : Str :=
  tracePc addr ++
    match item.object ⟨0, 0, 0, 0⟩ with
    | .rrr inst => traceRrr inst (rrrInstMnemonics.getD inst.op.toNat "")
    | .rx inst => traceRx inst (rxInstMnemonics.getD inst.sb.toNat "")
    | .exp0 _ => []

/-- What a line tells of an instruction: JUMP, CMP and INV are shown without destination. -/
inductive TracedInst where
  | rrr (op : Fin 14) (d sa sb : Register)
  | pseudo (op : Fin 14) (sa sb : Register)
  | rx (op : Fin 9) (d sa : Register) (disp : Word)
  | jump (sa : Register) (disp : Word)
  deriving DecidableEq

def Item.traced : Item → Option TracedInst
  | rrr op d sa sb =>
      if op.val = 4 ∨ op.val = 8 then some (.pseudo op sa sb) else some (.rrr op d sa sb)
  | rx op d sa disp =>
      if op.val = 3 then some (.jump sa disp.word) else some (.rx op d sa disp.word)
  | data _ => none

section Lines

def TracedInst.operands : TracedInst → Str
  | rrr _ d sa sb =>
      printReg d ++ (comma ++ (printReg sa ++ (comma ++ (printReg sb ++ "\n".toList))))
  | pseudo _ sa sb => printReg sa ++ (comma ++ (printReg sb ++ ("\n".toList ++ ansiOff)))
  | rx _ d sa disp => printReg d ++ (comma ++ (valueText disp ++ (ansiOff ++ ("[".toList ++
      (printReg sa ++ (ansiOff ++ "]\n".toList))))))
  | jump sa disp => valueText disp ++ (ansiOff ++ ("[".toList ++ (printReg sa ++
      (ansiOff ++ "]\n".toList))))

def TracedInst.op : TracedInst → Fin 14 ⊕ Fin 9
  | rrr op _ _ _ => .inl op
  | pseudo op _ _ => .inl op
  | rx op _ _ _ => .inr op
  | jump _ _ => .inr ⟨3, by decide⟩

theorem Item.traceLine_eq {item : Item} {inst : TracedInst} (traced : item.traced = some inst)
    (addr : Word) (notNop : ∀ op d sa sb, item = .rrr op d sa sb → op.val ≠ 12) :
    item.traceLine addr = tracePc addr ++ (opText inst.op ++ inst.operands) := by
  cases item with
  | data value => cases traced
  | rrr op d sa sb =>
      have number : (BitVec.ofNat 4 op.val).toNat = op.val := Nat.mod_eq_of_lt (by omega)
      have pseudo : (BitVec.ofNat 4 op.val = 4 ∨ BitVec.ofNat 4 op.val = 8) ↔
          (op.val = 4 ∨ op.val = 8) := by
        simp only [← BitVec.toNat_inj, number]
        rfl
      simp only [traceLine, object, fields, if_neg (notNop op d sa sb rfl), traceRrr, pseudo, number]
      simp only [Item.traced] at traced
      split at traced
      · rename_i short
        obtain rfl := Option.some.inj traced
        simp only [if_pos short, tracePseudoinst, TracedInst.op, TracedInst.operands, opText,
          List.append_assoc]
      · rename_i long
        obtain rfl := Option.some.inj traced
        simp only [if_neg long, TracedInst.op, TracedInst.operands, opText, List.append_assoc]
  | rx op d sa disp =>
      have number : (BitVec.ofNat 4 op.val).toNat = op.val := Nat.mod_eq_of_lt (by omega)
      have branch : (3 ≤ BitVec.ofNat 4 op.val ∧ BitVec.ofNat 4 op.val ≤ 8) ↔ 3 ≤ op.val := by
        simp only [BitVec.le_def, number]
        have bound := op.isLt
        change 3 ≤ op.val ∧ op.val ≤ 8 ↔ 3 ≤ op.val
        omega
      have jump : BitVec.ofNat 4 op.val = 3 ↔ op.val = 3 := by
        rw [← BitVec.toNat_inj, number]
        rfl
      simp only [traceLine, object, traceRx, branch, number, traceBranch, ne_eq, jump]
      simp only [Item.traced] at traced
      split at traced
      · rename_i plain
        obtain rfl := Option.some.inj traced
        have third : op = ⟨3, by decide⟩ := Fin.ext plain
        subst third
        simp [traceAddress, TracedInst.op, TracedInst.operands, opText]
      · rename_i other
        obtain rfl := Option.some.inj traced
        by_cases taken : 3 ≤ op.val
        · simp only [taken, if_true, other, not_false_eq_true, traceAddress, TracedInst.op,
            TracedInst.operands, opText, List.append_assoc]
        · simp only [taken, if_false, traceAddress, TracedInst.op, TracedInst.operands, opText,
            List.append_assoc]

theorem printReg_ne_valueText (r : Register) (val : Word) (rest more : Str) :
    printReg r ++ rest ≠ valueText val ++ more := by
  have reg : ∀ r : Register, 4 ≤ (printReg r).length ∧
      (printReg r).take 4 ≠ ansiWhite.take 4 ∧ (printReg r).take 4 ≠ ansiCyan.take 4 := by
    decide +kernel
  obtain ⟨long, notWhite, notCyan⟩ := reg r
  intro same
  have first := congrArg (List.take 4) same
  rw [List.take_append_of_le_length long, valueText_eq, List.append_assoc,
    List.take_append_of_le_length (by split <;> decide)] at first
  split at first
  · exact notWhite first
  · exact notCyan first

theorem TracedInst.operands_inj {a b : TracedInst} {rest more : Str} (sameOp : a.op = b.op)
    (same : a.operands ++ rest = b.operands ++ more) : a = b ∧ rest = more := by
  cases a with
  | rrr op d sa sb =>
      cases b with
      | rrr op' d' sa' sb' =>
          obtain rfl := Sum.inl.inj sameOp
          simp only [operands, List.append_assoc] at same
          obtain ⟨rfl, second⟩ := printReg_code.split_inj same
          obtain ⟨rfl, third⟩ := printReg_code.split_inj second
          obtain ⟨rfl, behind⟩ := printReg_code.split_inj third
          exact ⟨rfl, behind⟩
      | pseudo op' sa' sb' =>
          simp only [operands, List.append_assoc] at same
          obtain ⟨-, second⟩ := printReg_code.split_inj same
          obtain ⟨-, behind⟩ := printReg_code.append_inj second
          exact absurd (List.cons.inj behind).1 (by decide)
      | rx op' d' sa' disp' => cases sameOp
      | jump sa' disp' => cases sameOp
  | pseudo op sa sb =>
      cases b with
      | rrr op' d' sa' sb' =>
          simp only [operands, List.append_assoc] at same
          obtain ⟨-, second⟩ := printReg_code.split_inj same
          obtain ⟨-, behind⟩ := printReg_code.append_inj second
          exact absurd (List.cons.inj behind).1 (by decide)
      | pseudo op' sa' sb' =>
          obtain rfl := Sum.inl.inj sameOp
          simp only [operands, List.append_assoc] at same
          obtain ⟨rfl, second⟩ := printReg_code.split_inj same
          obtain ⟨rfl, behind⟩ := printReg_code.split_inj second
          exact ⟨rfl, List.append_cancel_left behind⟩
      | rx op' d' sa' disp' => cases sameOp
      | jump sa' disp' => cases sameOp
  | rx op d sa disp =>
      cases b with
      | rrr op' d' sa' sb' => cases sameOp
      | pseudo op' sa' sb' => cases sameOp
      | rx op' d' sa' disp' =>
          obtain rfl := Sum.inr.inj sameOp
          simp only [operands, List.append_assoc] at same
          obtain ⟨rfl, second⟩ := printReg_code.split_inj same
          obtain ⟨rfl, third⟩ := valueText_code.split_inj second
          obtain ⟨rfl, behind⟩ := printReg_code.split_inj (List.append_cancel_left third)
          exact ⟨rfl, List.append_cancel_left behind⟩
      | jump sa' disp' =>
          simp only [operands, List.append_assoc] at same
          exact absurd same (printReg_ne_valueText _ _ _ _)
  | jump sa disp =>
      cases b with
      | rrr op' d' sa' sb' => cases sameOp
      | pseudo op' sa' sb' => cases sameOp
      | rx op' d' sa' disp' =>
          simp only [operands, List.append_assoc] at same
          exact absurd same.symm (printReg_ne_valueText _ _ _ _)
      | jump sa' disp' =>
          simp only [operands, List.append_assoc] at same
          obtain ⟨rfl, second⟩ := valueText_code.split_inj same
          obtain ⟨rfl, behind⟩ := printReg_code.split_inj (List.append_cancel_left second)
          exact ⟨rfl, List.append_cancel_left behind⟩

def printLine (line : Word × TracedInst) : Str :=
  tracePc line.1 ++ (opText line.2.op ++ line.2.operands)

theorem printLine_code : IsPrefixCode printLine := by
  refine .of_append_inj fun a b rest more same => ?_
  simp only [printLine, List.append_assoc] at same
  obtain ⟨addr, behind⟩ := tracePc_code.append_inj same
  obtain ⟨op, operands⟩ := opText_code.append_inj behind
  exact Prod.ext addr (TracedInst.operands_inj op operands).1

theorem printLine_ne_nil (line : Word × TracedInst) : printLine line ≠ [] :=
  List.cons_ne_nil _ _

end Lines

def Item.isNop : Item → Bool
  | rrr op _ _ _ => op.val = 12
  | _ => false

def listing (items : List Item) (entries : List (Nat × Item)) : List (Word × TracedInst) :=
  entries.filterMap fun entry =>
    entry.2.traced.map (BitVec.ofNat 16 (itemOffset items entry.1), ·)

section Listing

variable {items : List Item} {item : Item} {last : InstRrr} {vm : Vm} {event : TraceEvent}
variable {entries : List (Nat × Item)} {calls ending : List TraceCall}

theorem Item.exists_traced (inst : item.isInst = true) : ∃ inst, item.traced = some inst := by
  cases item with
  | data value => cases inst
  | rrr op d sa sb =>
      simp only [traced]
      split <;> exact ⟨_, rfl⟩
  | rx op d sa disp =>
      simp only [traced]
      split <;> exact ⟨_, rfl⟩

theorem rrrInstMnemonics_get : ∀ op : Fin 14,
    rrrInstMnemonics[op.val]? = some (rrrInstMnemonics.getD op.val "") := by
  decide

theorem rxInstMnemonics_get : ∀ op : Fin 9,
    rxInstMnemonics[op.val]? = some (rxInstMnemonics.getD op.val "") := by
  decide

theorem sigma16TraceText_object (shows : vmTraceCompat vm event = some (item.object last))
    (inst : item.isInst = true) (notNop : item.isNop = false) :
    sigma16TraceText vm event = some (item.traceLine vm.cpu.pc) := by
  cases item with
  | data value => cases inst
  | rrr op d sa sb =>
      have other : ¬ op.val = 12 := by simpa [Item.isNop] using notNop
      have number : (BitVec.ofNat 4 op.val).toNat = op.val := Nat.mod_eq_of_lt (by omega)
      cases event <;> simp [vmTraceCompat, Item.object] at shows
      simp only [Item.fields, if_neg other] at shows
      have entry := rrrInstMnemonics_get op
      simp only [sigma16TraceText, sigma16TraceMnemonic, shows, number, entry, Option.map_some,
        Item.traceLine, Item.object, Item.fields, if_neg other]
  | rx op d sa disp =>
      have number : (BitVec.ofNat 4 op.val).toNat = op.val := Nat.mod_eq_of_lt (by omega)
      cases event <;> simp [vmTraceCompat, Item.object] at shows
      have entry := rxInstMnemonics_get op
      simp only [sigma16TraceText, sigma16TraceMnemonic, shows, number, entry, Option.map_some,
        Item.traceLine, Item.object]
      rfl

theorem CallsFor.text (made : CallsFor items last entries calls)
    (insts : ∀ entry ∈ entries, entry.2.isInst = true ∧ entry.2.isNop = false) (before : Str) :
    shown traceHandler (some before) calls =
      some (before ++ (listing items entries).flatMap printLine) := by
  induction made generalizing before with
  | nil => exact congrArg some (List.append_nil before).symm
  | @cons last index item entries call calls pc object rest ih =>
      obtain ⟨inst, notNop⟩ := insts (index, item) (by simp)
      obtain ⟨told, traced⟩ := item.exists_traced inst
      have addr : call.2.cpu.pc = BitVec.ofNat 16 (itemOffset items index) := by
        rw [← pc, BitVec.ofNat_toNat, BitVec.setWidth_eq]
      have line : item.traceLine call.2.cpu.pc = printLine (call.2.cpu.pc, told) := by
        refine item.traceLine_eq traced _ fun op d sa sb same => ?_
        rw [same] at notNop
        simpa [Item.isNop] using notNop
      have called : traceHandler call.1 call.2 (some before) =
          some (before ++ printLine (call.2.cpu.pc, told)) := by
        simp only [traceHandler, sigma16TraceText_object object inst notNop, line]
        rfl
      have first : listing items ((index, item) :: entries) =
          (call.2.cpu.pc, told) :: listing items entries := by
        simp only [listing, List.filterMap_cons, traced, Option.map_some, addr]
      change shown traceHandler (traceHandler call.1 call.2 (some before)) calls = _
      rw [called, ih fun entry member => insts entry (by simp [member]), first, List.flatMap_cons,
        List.append_assoc]

theorem shown_text (silent : ∀ call ∈ ending, call.1 = .execEnd) (before : Str) :
    shown traceHandler (some before) ending = some before := by
  induction ending with
  | nil => rfl
  | cons call ending ih =>
      have quiet : traceHandler call.1 call.2 (some before) = some before := by
        rw [silent call (by simp)]
        exact congrArg some (List.append_nil before)
      change shown traceHandler (traceHandler call.1 call.2 (some before)) ending = _
      rw [quiet]
      exact ih fun more member => silent more (by simp [member])

theorem executed_inst {s : ItemState} {count : Nat}
    (sound : ∀ wrong, iterate (itemStep items) count s ≠ .stopped .wrong wrong) :
    ∀ entry ∈ executed items count s, entry.2.isInst = true := by
  induction count generalizing s with
  | zero => simp [executed]
  | succ count ih =>
      have here : ∀ wrong, itemStep items s ≠ .stopped .wrong wrong := by
        intro wrong goes
        refine sound wrong ?_
        rw [iterate, goes, Outcome.bind_stopped]
      obtain ⟨item, stored, inst⟩ := itemStep_inst here
      intro entry member
      rw [executed, stored] at member
      rcases List.mem_cons.mp member with rfl | later
      · exact inst
      · cases run : itemStep items s with
        | running next =>
            rw [run] at later
            rw [iterate, run, Outcome.bind_running] at sound
            exact ih sound entry later
        | stopped reason last =>
            rw [run] at later
            cases later

end Listing

/-- The trace of a program without NOPs is a listing of what it executes, from which each
line's address and instruction can be read back. -/
theorem trace_listing {items : List Item} (fits : (codeWords items).length ≤ memWords)
    (count : Nat)
    (sound : ∀ last, iterate (itemStep items) count (.boot items) ≠ .stopped .wrong last)
    (noNops : ∀ entry ∈ executed items count (.boot items), entry.2.isNop = false) :
    ∃ start text, sigma16VmInit (writeCode (items.map Item.obj)).1 = .ok start ∧
      (vmExec (observing traceHandler) count
        { vm := start, ctx := some [], out := [] }).state.ctx = some text ∧
      ∀ lines : List (Word × TracedInst), lines.flatMap printLine = text ↔
        lines = listing items (executed items count (.boot items)) := by
  let start : Vm := ⟨Cpu.zero, loadImage (wordBytes (codeWords items))⟩
  let m : Machine (Option Str) := { vm := start, ctx := some [], out := [] }
  have real : Realizes items (.boot items) m := realizes_boot fits m rfl rfl rfl
  obtain ⟨calls, ending, made, silent, context⟩ :=
    @run_callsFor _ traceHandler _ _ _ _ real rfl count sound
  have insts := fun entry member => And.intro (executed_inst sound entry member)
    (noNops entry member)
  rw [writeCode_items]
  refine ⟨start, (listing items (executed items count (.boot items))).flatMap printLine,
    image_loads fits, context.trans ?_, fun lines => ?_⟩
  · rw [shown_append, made.text insts, shown_text silent]
    rfl
  · exact ⟨fun same => printLine_code.flatMap_injective printLine_ne_nil same, fun same => same ▸ rfl⟩

theorem trace_listing_jump :
    ∃ start text, sigma16VmInit (writeCode ([rxItem 3 7 5 3, dataItem 0,
        rrrItem 13 0 0 0].map Item.obj)).1 = .ok start ∧
      (vmExec (observing traceHandler) 2 { vm := start, ctx := some [], out := [] }).state.ctx =
        some text ∧
      ∀ lines : List (Word × TracedInst), lines.flatMap printLine = text ↔
        lines = [(0, .jump 5 3), (3, .rrr ⟨13, by decide⟩ 0 0 0)] := by
  have halts : ∃ last, iterate (itemStep [rxItem 3 7 5 3, dataItem 0, rrrItem 13 0 0 0]) 2
      (.boot [rxItem 3 7 5 3, dataItem 0, rrrItem 13 0 0 0]) = .stopped .halted last := ⟨_, rfl⟩
  obtain ⟨last, halts⟩ := halts
  exact @trace_listing [rxItem 3 7 5 3, dataItem 0, rrrItem 13 0 0 0] (by decide) 2
    (by rw [halts]; simp) (by decide)

end Sigma16

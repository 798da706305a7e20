import Sigma16.TraceListing

/-!
The processor dump of `tracing.c`, as text: it shows every register but `ir`, each of
which can be read back.
-/

namespace Sigma16

open PyText Words Transition Printing

def statusFlags : List (Flag × Char) :=
  [(.C, 'C'), (.v, 'v'), (.V, 'V'), (.L, 'L'), (.l, 'l'), (.E, 'E'), (.g, 'g'), (.G, 'G')]

def printStatus (stat : Word) : Str :=
  (statusFlags.flatMap fun (flag, name) =>
    (if stat.getLsbD flag.bit then ansiYellow else ansiBlue) ++ [name]) ++ ansiOff

def registerLabel (i : Nat) : Str :=
  'R' :: (List.replicate (2 - (decimal i).length) '0' ++ decimal i ++ ": ".toList)

def dumpRegister (i : Nat) (val : Word) : Str :=
  ansiMagenta ++ registerLabel i ++ ansiOff ++ valueText val ++
    if val ≠ 0 then ansiCyan ++ "\t".toList ++ decimal val.toNat ++ "\n".toList ++ ansiOff
    else ansiWhite ++ "\t0".toList ++ ansiOff ++ "\n".toList

def boolWord (bit : Bool) : Word := if bit then 1 else 0

inductive DumpField
  | r15 | pc | adr | dat | status | sys | ie | mask | req | istat | ipc | vect
  deriving DecidableEq

namespace DumpField

def register : DumpField → Cpu → Word
  | r15, cpu => cpu.regs 15
  | pc, cpu => cpu.pc
  | adr, cpu => cpu.adr
  | dat, cpu => cpu.dat
  | status, cpu => cpu.status
  | sys, cpu => boolWord cpu.sys
  | ie, cpu => boolWord cpu.ie
  | mask, cpu => cpu.mask
  | req, cpu => cpu.req
  | istat, cpu => cpu.istat
  | ipc, cpu => cpu.ipc
  | vect, cpu => cpu.vect

def front : DumpField → Str
  | r15 => ansiMagenta ++ "R15: ".toList ++ ansiOff
  | pc => "\nControl Registers:\n".toList ++ ansiRed ++ "IR:\t".toList ++ ansiBlue ++
      "N/A".toList ++ ansiOff ++ "\n".toList ++ ansiRed ++ "PC:\t".toList
  | adr => "\n".toList ++ ansiRed ++ "ADR:\t".toList
  | dat => "\n".toList ++ ansiRed ++ "DAT:\t".toList
  | status => "\n".toList ++ ansiRed ++ "STATUS:\t".toList
  | sys => ansiOff ++ "\nStatus Register Flags:\n".toList ++ ansiRed ++ "SYS:\t".toList
  | ie => "\n".toList ++ ansiRed ++ "IE:\t".toList
  | mask => ansiOff ++ "\nInterrupt and Exceptions:\n".toList ++ ansiRed ++ "MASK:\t".toList
  | req => "\n".toList ++ ansiRed ++ "REQ:\t".toList
  | istat => "\n".toList ++ ansiRed ++ "ISTAT:\t".toList
  | ipc => "\n".toList ++ ansiRed ++ "IPC:\t".toList
  | vect => "\n".toList ++ ansiRed ++ "VECT:\t".toList

/-- The flags follow the value of a register that holds them. -/
def hasStatus : DumpField → Bool
  | r15 | status | istat => true
  | _ => false

def text (field : DumpField) (val : Word) : Str :=
  field.front ++ valueText val ++ if field.hasStatus then '\t' :: printStatus val else []

end DumpField

def dumpFields : List DumpField :=
  [.r15, .pc, .adr, .dat, .status, .sys, .ie, .mask, .req, .istat, .ipc, .vect]

def dumpCpu (cpu : Cpu) : Str :=
  "General Registers:\n".toList ++
    ((List.range 15).flatMap fun i => dumpRegister i (cpu.regs (BitVec.ofNat 4 i))) ++
    (dumpFields.flatMap fun field => field.text (field.register cpu)) ++ "\n".toList

theorem dumpRegister_code (i : Nat) : IsPrefixCode (dumpRegister i) :=
  (valueText_code.const_append _).append _

theorem DumpField.text_code (field : DumpField) : IsPrefixCode field.text :=
  (valueText_code.const_append _).append _

theorem boolWord_injective : Function.Injective boolWord := by
  decide

theorem mem_dumpFields (field : DumpField) : field ∈ dumpFields := by
  cases field <;> decide

theorem Cpu.eq_of_fields {a b : Cpu} (regs : ∀ r, r ≠ 15 → a.regs r = b.regs r)
    (fields : ∀ field : DumpField, field.register a = field.register b) :
    { a with ir := b.ir } = b := by
  have general : a.regs = b.regs := by
    funext r
    rcases eq_or_ne r 15 with rfl | other
    · exact fields .r15
    · exact regs r other
  have sys : a.sys = b.sys := boolWord_injective (fields .sys)
  have ie : a.ie = b.ie := boolWord_injective (fields .ie)
  cases a
  cases b
  simp only [Cpu.mk.injEq]
  exact ⟨general, trivial, fields .pc, fields .adr, fields .dat, fields .status, sys, ie,
    fields .mask, fields .req, fields .istat, fields .ipc, fields .vect⟩

theorem regs_of_range {a b : Cpu}
    (shown : ∀ i ∈ List.range 15, a.regs (BitVec.ofNat 4 i) = b.regs (BitVec.ofNat 4 i))
    (r : Nibble) (other : r ≠ 15) : a.regs r = b.regs r := by
  have small : r.toNat < 15 := by
    have bound := r.isLt
    have : r.toNat ≠ 15 := fun last => other (BitVec.eq_of_toNat_eq last)
    omega
  simpa only [BitVec.ofNat_toNat, BitVec.setWidth_eq] using shown r.toNat (List.mem_range.mpr small)

theorem dumpCpu_fields {a b : Cpu} (same : dumpCpu a = dumpCpu b) :
    (∀ i ∈ List.range 15, a.regs (BitVec.ofNat 4 i) = b.regs (BitVec.ofNat 4 i)) ∧
      ∀ field ∈ dumpFields, field.register a = field.register b := by
  unfold dumpCpu at same
  rw [List.append_assoc, List.append_assoc, List.append_assoc, List.append_assoc] at same
  obtain ⟨regs, behind⟩ := IsPrefixCode.family_append_inj (fun i _ => dumpRegister_code i)
    (List.append_cancel_left same)
  obtain ⟨fields, -⟩ := IsPrefixCode.family_append_inj (fun field _ => field.text_code) behind
  exact ⟨regs, fields⟩

theorem DumpField.register_ir (field : DumpField) (cpu : Cpu) (ir : InstVariant) :
    field.register { cpu with ir := ir } = field.register cpu := by
  cases field <;> rfl

theorem dumpCpu_ir (cpu : Cpu) (ir : InstVariant) :
    dumpCpu { cpu with ir := ir } = dumpCpu cpu := by
  unfold dumpCpu
  simp only [DumpField.register_ir]

theorem dumpCpu_read {a b : Cpu} (same : dumpCpu a = dumpCpu b) : { a with ir := b.ir } = b := by
  obtain ⟨regs, fields⟩ := dumpCpu_fields same
  exact Cpu.eq_of_fields (regs_of_range regs) fun field => fields field (mem_dumpFields field)

/-- Two dumps are the same text exactly when the processors differ at most in `ir`. -/
theorem dumpCpu_inj (a b : Cpu) : dumpCpu a = dumpCpu b ↔ { a with ir := b.ir } = b := by
  constructor
  · exact dumpCpu_read
  · intro same
    calc dumpCpu a
      _ = dumpCpu { a with ir := b.ir } := (dumpCpu_ir a b.ir).symm
      _ = dumpCpu b := congrArg dumpCpu same

section Programs

variable {Ctx : Type} {items : List Item} {s : ItemState} {m : Machine Ctx}

theorem Realizes.dump (real : Realizes items s m) {start stop : Nat} (nonempty : start < stop)
    (mapped : stop ≤ memWords) : ∃ out, dumpVmMem m.vm start stop = .ok out ∧
      out.filterMap Piece.word? = (List.range' start (stop - start)).map s.store := by
  obtain ⟨words, read, -, length, printed⟩ := dumpVmMem_mapped m.vm nonempty mapped
  refine ⟨_, printed, (words_of_dumpFrom start zeros words).trans ?_⟩
  apply List.ext_getElem
  · simpa using length
  · intro index bound _
    have here := (dumpVmMemFrom_words read).2 index _ (List.getElem?_eq_getElem bound)
    have address : (BitVec.ofNat 16 (start + index)).toNat = start + index := by
      have size : memWords = 32768 := rfl
      rw [BitVec.toNat_ofNat, Nat.mod_eq_of_lt (by omega)]
    rw [real.read (by rw [address]; omega), address, Except.ok.injEq] at here
    simp [here]

end Programs

/-- What the dumps show of a program after any number of steps: the words of its store, and a
text from which its registers and the address of the item it is at can be read. -/
theorem dumps_show {Ctx : Type} {items : List Item} (observe : TraceEvent → Vm → Ctx → Ctx)
    (ctx : Ctx) (fits : (codeWords items).length ≤ memWords) (count : Nat)
    (sound : ∀ last, iterate (itemStep items) count (.boot items) ≠ .stopped .wrong last) :
    ∃ start, sigma16VmInit (writeCode (items.map Item.obj)).1 = .ok start ∧
      let shown := (vmExec (observing observe) count { vm := start, ctx, out := [] }).state.vm
      let s := (iterate (itemStep items) count (.boot items)).state
      (∀ first stop, first < stop → stop ≤ memWords → ∃ out, dumpVmMem shown first stop = .ok out ∧
        out.filterMap Piece.word? = (List.range' first (stop - first)).map s.store) ∧
      ∀ cpu, dumpCpu cpu = dumpCpu shown.cpu →
        cpu.regs = s.regs ∧ cpu.pc.toNat = itemOffset items s.index := by
  rw [writeCode_items]
  have real := (image_matches observe ctx fits count sound).state
  refine ⟨_, image_loads fits, fun first stop nonempty mapped => ?_, fun cpu same => ?_⟩
  · exact real.dump nonempty mapped
  · have equal := dumpCpu_read same
    have regs := congrArg Cpu.regs equal
    have pc := congrArg Cpu.pc equal
    exact ⟨regs.trans real.regs, (congrArg BitVec.toNat pc).trans real.pc⟩

theorem dumps_show_store :
    ∃ start out, sigma16VmInit (writeCode ([rxItem 0 1 0 7, rxItem 2 1 0 5,
        rrrItem 13 0 0 0].map Item.obj)).1 = .ok start ∧
      dumpVmMem (vmExec (observing fun _ _ ctx => ctx) 2
        { vm := start, ctx := (), out := [] }).state.vm 4 6 = .ok out ∧
      out.filterMap Piece.word? = [0xd000, 7] := by
  have runs : ∃ next, iterate (itemStep [rxItem 0 1 0 7, rxItem 2 1 0 5, rrrItem 13 0 0 0]) 2
      (.boot [rxItem 0 1 0 7, rxItem 2 1 0 5, rrrItem 13 0 0 0]) = .running next ∧
        [next.store 4, next.store 5] = [0xd000, 7] := ⟨_, rfl, by decide⟩
  obtain ⟨next, runs, words⟩ := runs
  obtain ⟨start, loaded, dumped, -⟩ := @dumps_show Unit [rxItem 0 1 0 7, rxItem 2 1 0 5,
    rrrItem 13 0 0 0] (fun _ _ ctx => ctx) () (by decide) 2 (by rw [runs]; simp)
  obtain ⟨out, printed, read⟩ := dumped 4 6 (by decide) (by decide)
  rw [runs] at read
  exact ⟨start, out, loaded, printed, read.trans words⟩

end Sigma16

import Mathlib.Data.Fintype.Basic
import Mathlib.Tactic.FinCases
import Sigma16.InstFormat
import Sigma16.VmSafety

/-!
The emulator on machine code: what `DISPATCH()` makes of the words of an item in
memory, and where control goes from there.
-/

namespace Sigma16

open PyText Words Transition

def Label.mnemonic : Label → Str
  | doAdd => "ADD".toList
  | doSub => "SUB".toList
  | doMul => "MUL".toList
  | doDiv => "DIV".toList
  | doCmp => "CMP".toList
  | doCmplt => "CMPLT".toList
  | doCmpeq => "CMPEQ".toList
  | doCmpgt => "CMPGT".toList
  | doInvold => "INV".toList
  | doAndold => "AND".toList
  | doOrold => "OR".toList
  | doXorold => "XOR".toList
  | doNop => "NOP".toList
  | doTrap => "TRAP".toList
  | doRfi => "RFI".toList
  | doLea => "LEA".toList
  | doLoad => "LOAD".toList
  | doStore => "STORE".toList
  | doJump => "JUMP".toList
  | doJumpc0 => "JUMPC0".toList
  | doJumpc1 => "JUMPC1".toList
  | doJumpf => "JUMPF".toList
  | doJumpt => "JUMPT".toList
  | doJal => "JAL".toList
  | doBadOp => []

def Vm.Holds (vm : Vm) (addr : Nat) (words : List Word) : Prop :=
  ∀ (offset : Nat) word, words[offset]? = some word → vm.word (addr + offset) = .ok (bswap16 word)

def Vm.byte (vm : Vm) (index : Nat) : Except Stop Byte :=
  (vm.word (index / 2)).map fun word => if index % 2 = 0 then lowByte word else highByte word

def Vm.Carries (vm : Vm) (addr : Nat) (bytes : List Byte) : Prop :=
  ∀ (offset : Nat) byte, bytes[offset]? = some byte → vm.byte (2 * addr + offset) = .ok byte

def Item.DecodesTo (ir : InstVariant) : Item → Prop
  | rrr op d sa sb => ir.rrr = { d, op := BitVec.ofNat 4 op, sb, sa }
  | rx op d sa disp => ir.rx = { d, op := 15, sb := BitVec.ofNat 4 op, sa, disp := disp.word }
  | data _ => False

section Loading

theorem wordBytes_even (words : List Word) (index : Nat) :
    (wordBytes words)[2 * index]? = (words[index]?).map highByte := by
  induction words generalizing index with
  | nil => simp [wordBytes]
  | cons word words ih =>
      cases index with
      | zero => rfl
      | succ index => simpa [Nat.mul_succ] using ih index

theorem wordBytes_odd (words : List Word) (index : Nat) :
    (wordBytes words)[2 * index + 1]? = (words[index]?).map lowByte := by
  induction words generalizing index with
  | nil => simp [wordBytes]
  | cons word words ih =>
      cases index with
      | zero => rfl
      | succ index => simpa [Nat.mul_succ] using ih index

theorem Vm.byte_even {vm : Vm} {index : Nat} {word : Word} (read : vm.word index = .ok word) :
    vm.byte (2 * index) = .ok (lowByte word) := by
  have half : 2 * index / 2 = index := by omega
  have even : 2 * index % 2 = 0 := by omega
  simp only [byte, half, read, Except.map, even, if_true]

theorem Vm.byte_odd {vm : Vm} {index : Nat} {word : Word} (read : vm.word index = .ok word) :
    vm.byte (2 * index + 1) = .ok (highByte word) := by
  have half : (2 * index + 1) / 2 = index := by omega
  have odd : (2 * index + 1) % 2 = 1 := by omega
  simp only [byte, half, read, Except.map, odd, one_ne_zero, if_false]

theorem Vm.Carries.holds {vm : Vm} {addr : Nat} {words : List Word}
    (carried : vm.Carries addr (wordBytes words)) : vm.Holds addr words := by
  intro offset word stored
  have high := carried (2 * offset) (highByte word) (by rw [wordBytes_even, stored]; rfl)
  have low := carried (2 * offset + 1) (lowByte word) (by rw [wordBytes_odd, stored]; rfl)
  have position : 2 * addr + 2 * offset = 2 * (addr + offset) := by omega
  rw [position] at high
  rw [← Nat.add_assoc, position] at low
  cases read : vm.word (addr + offset) with
  | error stop =>
      have half : 2 * (addr + offset) / 2 = addr + offset := by omega
      simp [byte, half, read, Except.map] at high
  | ok found =>
      rw [Vm.byte_even read, Except.ok.injEq] at high
      rw [Vm.byte_odd read, Except.ok.injEq] at low
      rw [bswap16, ← high, ← low, highByte_append_lowByte]

theorem Vm.Carries.of_image {vm : Vm} {executable : List Byte}
    (fits : executable.length ≤ memBytes) (image : vm.mem = loadImage executable) :
    vm.Carries 0 executable := by
  intro offset byte stored
  have bound := (List.getElem?_eq_some_iff.mp stored).1
  have mapped : offset / 2 < memWords := by
    simp only [memWords, memBytes] at fits ⊢
    omega
  rw [Nat.mul_zero, Nat.zero_add, Vm.byte, Vm.word_of_lt mapped, image, Except.map, loadImage]
  split
  · have position : 2 * (offset / 2) = offset := by omega
    rw [lowByte_append, position, List.getD_eq_getElem?_getD, stored, Option.getD_some]
  · have position : 2 * (offset / 2) + 1 = offset := by omega
    rw [highByte_append, position, List.getD_eq_getElem?_getD, stored, Option.getD_some]

theorem Vm.Holds.of_image {vm : Vm} {words : List Word}
    (fits : (wordBytes words).length ≤ memBytes) (image : vm.mem = loadImage (wordBytes words)) :
    vm.Holds 0 words :=
  (Vm.Carries.of_image fits image).holds

theorem Vm.Holds.append_right {vm : Vm} {addr : Nat} {first second : List Word}
    (held : vm.Holds addr (first ++ second)) : vm.Holds (addr + first.length) second := by
  intro offset word stored
  have placed := held (first.length + offset) word
    (by rwa [List.getElem?_append_right (by omega), Nat.add_sub_cancel_left])
  rwa [← Nat.add_assoc] at placed

theorem Vm.Holds.of_mem {vm after : Vm} {addr : Nat} {words : List Word}
    (held : vm.Holds addr words) (same : after.mem = vm.mem) : after.Holds addr words := by
  intro offset word stored
  rw [← held offset word stored, Vm.word, Vm.word, same]

theorem Vm.Holds.advance {vm after : Vm} {word : Word} {words : List Word}
    (held : vm.Holds vm.cpu.pc.toNat (word :: words)) (nonempty : words ≠ [])
    (same : after.mem = vm.mem) (advanced : after.cpu.pc = vm.cpu.pc + 1) :
    after.Holds after.cpu.pc.toNat words := by
  obtain ⟨second, rest, rfl⟩ := List.exists_cons_of_ne_nil nonempty
  have mapped := Vm.word_ok_lt (held 1 second rfl)
  have position : (vm.cpu.pc + 1).toNat = vm.cpu.pc.toNat + 1 := by
    simp only [memWords, memBytes] at mapped
    bv_omega
  rw [advanced, position]
  exact (@Vm.Holds.append_right vm _ [word] _ held).of_mem same

theorem Vm.Holds.item {vm : Vm} {items : List Item} {index : Nat} {item : Item}
    (held : vm.Holds 0 (codeWords items)) (stored : items[index]? = some item) :
    vm.Holds (itemOffset items index) item.words := by
  intro offset word within
  have placed := held _ word (codeWords_at stored within)
  rwa [Nat.zero_add] at placed

end Loading

section Decoding

theorem dispatchTable_listed (op : Fin 14) :
    ∃ label, dispatchTable[(BitVec.ofNat 4 op.val).toNat]? = some (.inst label) ∧
      ((label.mnemonic, (op.val : Int), .rrr) ∈ instructions ∨
        (label.mnemonic, (op.val : Int), .pseudo) ∈ instructions) ∧ label.size = 1 ∧
      label ≠ .doBadOp := by
  fin_cases op <;> exact ⟨_, rfl, by decide, rfl, by decide⟩

theorem rxDispatchTable_listed (op : Fin 9) :
    ∃ label, rxDispatchTable[(BitVec.ofNat 4 op.val).toNat]? = some label ∧
      (label.mnemonic, (op.val : Int), .rx) ∈ instructions ∧ label.size = 2 ∧
      label ≠ .doBadOp := by
  fin_cases op <;> exact ⟨_, rfl, by decide, rfl, by decide⟩

variable {vm : Vm} {item : Item}

theorem Vm.Holds.rrr {op : Fin 14} {d sa sb : Register} {label : Label}
    (held : vm.Holds vm.cpu.pc.toNat (Item.rrr op d sa sb).words)
    (entry : dispatchTable[(BitVec.ofNat 4 op.val).toNat]? = some (.inst label)) :
    ∃ ir, Dispatches vm vm label ∧ label.enter vm = .ok (vm.setIr ir) ∧
      (label ≠ .doNop → ir.rrr = { d, op := BitVec.ofNat 4 op.val, sb, sa }) := by
  have fetched := held 0 _ rfl
  have leads : Dispatches vm vm label :=
    .inst fetched (by rw [Item.bswap16_headWord_op]; exact entry)
  obtain ⟨head, ir, fetched', entered, _, filled, _⟩ := leads.enters
  obtain rfl := Except.ok.inj (fetched.symm.trans fetched')
  refine ⟨ir, leads, entered, fun notNop => ?_⟩
  simp only [InstVariant.rrr, filled notNop, Item.bswap16_headWord_d, Item.bswap16_headWord_op,
    Item.bswap16_headWord_sb, Item.bswap16_headWord_sa]

theorem Vm.Holds.rx {op : Fin 9} {d sa : Register} {disp : Signed16} (label : Label)
    (held : vm.Holds vm.cpu.pc.toNat (Item.rx op d sa disp).words)
    (entry : rxDispatchTable[(BitVec.ofNat 4 op.val).toNat]? = some label) :
    ∃ ir, Dispatches vm (vm.setIr ir) label ∧ label.enter (vm.setIr ir) = .ok (vm.setIr ir) ∧
      ir.rx = { d, op := 15, sb := BitVec.ofNat 4 op.val, sa, disp := disp.word } := by
  have fetched := held 0 _ rfl
  have second := held 1 _ rfl
  have leads := Dispatches.rx fetched (Item.bswap16_headWord_op _ _ _ _) second
    (by rw [Item.bswap16_headWord_sb]; exact entry)
  have stale := Label.refills_of_secondary (List.mem_of_getElem? entry)
  refine ⟨_, leads, Label.enter_of_stale stale _, ?_⟩
  simp only [InstVariant.rx, bswap16_bswap16, Item.bswap16_headWord_d, Item.bswap16_headWord_op,
    Item.bswap16_headWord_sb, Item.bswap16_headWord_sa]

theorem Vm.Holds.dispatches (held : vm.Holds vm.cpu.pc.toNat item.words) (inst : item.IsInst) :
    ∃ decoded label ir, Dispatches vm decoded label ∧ label.enter decoded = .ok (vm.setIr ir) ∧
      item.Listed label.mnemonic ∧ (label ≠ .doNop → item.DecodesTo ir) ∧
      label.size = BitVec.ofNat 16 item.words.length ∧ label ≠ .doBadOp := by
  cases item with
  | rrr op d sa sb =>
      obtain ⟨label, entry, listed, size, valid⟩ := dispatchTable_listed op
      obtain ⟨ir, leads, entered, fields⟩ := held.rrr entry
      exact ⟨_, label, ir, leads, entered, listed, fields, size, valid⟩
  | rx op d sa disp =>
      obtain ⟨label, entry, listed, size, valid⟩ := rxDispatchTable_listed op
      obtain ⟨ir, leads, entered, fields⟩ := held.rx label entry
      exact ⟨_, label, ir, leads, entered, listed, fun _ => fields, size, valid⟩
  | data value => exact inst.elim

end Decoding

section Execution

variable {Ctx : Type} {observe : TraceEvent → Vm → Ctx → Ctx} {m : Machine Ctx}

theorem vmStep_straight {decoded seen : Vm} {label : Label} (leads : Dispatches m.vm decoded label)
    (valid : label ≠ .doBadOp) (entered : label.enter decoded = .ok seen) :
    (∃ next, vmStep (observing observe) m = .running next ∧
        (label.taken seen = false → next.vm.cpu.pc = seen.cpu.pc + label.size)) ∨
      (label = .doTrap ∧ ∃ next, vmStep (observing observe) m = .stopped (.returned 0) next) ∨
      ¬ AddressesMapped m.vm := by
  cases run : vmStep (observing observe) m with
  | running next =>
      obtain ⟨seen', entered', body⟩ := vmStep_observed_running leads run
      obtain rfl := Except.ok.inj (entered.symm.trans entered')
      exact .inl ⟨next, rfl, fun straight => Label.body_pc straight body⟩
  | stopped stop next =>
      rcases vmStep_stopped leads run with ⟨_, _, ⟨trap, rfl⟩ | ⟨bad, _⟩⟩ | ⟨byte, rfl⟩
      · exact .inr (.inl ⟨trap, next, rfl⟩)
      · exact absurd bad valid
      · exact .inr (.inr (vmStep_faults.mp ⟨byte, next, run⟩))

def Branches (vm : Vm) : Prop :=
  ∃ decoded label seen, Dispatches vm decoded label ∧ label.enter decoded = .ok seen ∧
    label.taken seen

theorem branches_iff {decoded seen : Vm} {label : Label} (leads : Dispatches m.vm decoded label)
    (entered : label.enter decoded = .ok seen) : Branches m.vm ↔ label.taken seen := by
  constructor
  · rintro ⟨decoded', label', seen', leads', entered', taken⟩
    obtain ⟨rfl, rfl⟩ := leads.unique leads'
    obtain rfl := Except.ok.inj (entered.symm.trans entered')
    exact taken
  · intro taken
    exact ⟨decoded, label, seen, leads, entered, taken⟩

theorem vmStep_branches (observe : TraceEvent → Vm → Ctx → Ctx) {op : Fin 9} {d sa : Register}
    {disp : Signed16} (label : Label)
    (held : m.vm.Holds m.vm.cpu.pc.toNat (Item.rx op d sa disp).words)
    (entry : rxDispatchTable[(BitVec.ofNat 4 op.val).toNat]? = some label)
    (body : ∀ vm, label.body vm = .ok (vm.branch (label.taken vm))) :
    ∃ last ir, vmStep (observing observe) m = .running last ∧ ir.rx.d = d ∧
      (Branches m.vm ↔ label.taken (m.vm.setIr ir)) ∧
      last.vm.cpu.pc = if label.taken (m.vm.setIr ir) then m.vm.cpu.regs sa + disp.word
        else m.vm.cpu.pc + 2 := by
  obtain ⟨ir, leads, entered, fields⟩ := held.rx label entry
  have notTrap : label ≠ .doTrap := by
    rintro rfl
    have member := List.mem_of_getElem? entry
    exact absurd member (by decide)
  refine ⟨_, ir, vmStep_completes leads entered notTrap (body _), by rw [fields],
    branches_iff leads entered, ?_⟩
  simp only [branch_pc, Vm.setIr_regs, Vm.setIr_ir, Vm.setIr_pc, fields]

variable {items : List Item} {start : Vm} {index : Nat} {item : Item}

/-- The image of a program in memory runs as the program: at the offset of an instruction
its own handler gets its own fields, and leaves `pc` at the offset of the next item. -/
theorem image_execution (observe : TraceEvent → Vm → Ctx → Ctx)
    (loaded : sigma16VmInit (writeCode (items.map Item.obj)).1 = .ok start)
    (image : m.vm.mem = start.mem) (stored : items[index]? = some item) (inst : item.IsInst)
    (atItem : m.vm.cpu.pc =
      BitVec.ofNat 16 (((items.map Item.obj).take index).map sizeof).sum) :
    ∃ decoded label seen, dispatch m.vm = .ok (decoded, label) ∧
      label.enter decoded = .ok seen ∧ item.Listed label.mnemonic ∧
      (label ≠ .doNop → item.DecodesTo seen.cpu.ir) ∧
      ((∃ next, vmStep (observing observe) m = .running next ∧
          (label.taken seen = false → next.vm.cpu.pc =
            BitVec.ofNat 16 (((items.map Item.obj).take (index + 1)).map sizeof).sum)) ∨
        (label = .doTrap ∧ ∃ next, vmStep (observing observe) m = .stopped (.returned 0) next) ∨
        ¬ AddressesMapped m.vm) := by
  rw [← itemOffset_eq] at atItem ⊢
  rw [writeCode_items] at loaded
  simp only [sigma16VmInit] at loaded
  split at loaded
  · rename_i fits
    obtain rfl := Except.ok.inj loaded
    have held := (Vm.Holds.of_image fits image).item stored
    have within := codeWords_split stored
    have position : m.vm.cpu.pc.toNat = itemOffset items index := by
      have total := congrArg List.length within
      have nonempty := List.length_pos_iff.mpr item.words_ne_nil
      have bytes := length_wordBytes (codeWords items)
      simp only [List.length_append] at total
      simp only [memBytes] at fits
      rw [atItem, BitVec.toNat_ofNat, Nat.mod_eq_of_lt]
      simp only [itemOffset]
      omega
    rw [← position] at held
    obtain ⟨decoded, label, ir, leads, entered, listed, fields, size, valid⟩ :=
      held.dispatches inst
    refine ⟨decoded, label, _, dispatch_eq_ok.mpr leads, entered, listed, fields, ?_⟩
    have advanced : m.vm.cpu.pc + label.size = BitVec.ofNat 16 (itemOffset items (index + 1)) := by
      rw [atItem, size, itemOffset_succ stored, BitVec.ofNat_add]
    rw [← advanced]
    exact vmStep_straight leads valid entered
  · cases loaded

end Execution

theorem image_execution_add :
    ∃ decoded label, dispatch ⟨{ Cpu.zero with pc := 1 }, loadImage [0x00, 0x07, 0x01, 0x23]⟩ =
        .ok (decoded, label) ∧
      (Item.rrr 0 1 2 3).Listed label.mnemonic := by
  have code : (writeCode ([Item.data ⟨7, by decide⟩, .rrr 0 1 2 3].map Item.obj)).1 =
      [0x00, 0x07, 0x01, 0x23] := by
    decide +kernel
  have loaded : sigma16VmInit [0x00, 0x07, 0x01, 0x23] =
      .ok ⟨Cpu.zero, loadImage [0x00, 0x07, 0x01, 0x23]⟩ := rfl
  rw [← code] at loaded
  have second : [Item.data ⟨7, by decide⟩, .rrr 0 1 2 3][1]? = some (.rrr 0 1 2 3) := rfl
  obtain ⟨decoded, label, _, dispatched, _, listed, _⟩ := image_execution
    (m := ⟨⟨{ Cpu.zero with pc := 1 }, loadImage [0x00, 0x07, 0x01, 0x23]⟩, (), []⟩)
    (fun _ _ ctx => ctx) loaded (congrArg loadImage code.symm) second trivial rfl
  exact ⟨decoded, label, dispatched, listed⟩

end Sigma16

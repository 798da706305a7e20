import Sigma16.DisassemblerListing
import Sigma16.ImageExecution

/-!
The two decoders on arbitrary images: an instruction `disasm_binary` lists is the one
the emulator runs when `pc` is at its bytes.
-/

namespace Sigma16

open PyText Words Transition

namespace DisInst

def mnemonic : DisInst → Str
  | rrr _ mnemonic .. => mnemonic
  | rx _ mnemonic .. => mnemonic

def Operands (ir : InstVariant) : DisInst → Prop
  | rrr _ _ d sa sb => ir.rrr.d = d ∧ ir.rrr.sa = sa ∧ ir.rrr.sb = sb
  | rx _ _ d sa _ disp => ir.rx.d = d ∧ ir.rx.sa = sa ∧ ir.rx.disp.toNat = disp

end DisInst

section Agreement

variable {item : Item} {shown : DisInst}

theorem instructions_unique : ∀ first ∈ instructions, ∀ second ∈ instructions,
    first.2.1 = second.2.1 → (first.2.2 = .rx ↔ second.2.2 = .rx) → first.1 = second.1 := by
  decide +kernel

theorem Item.Listed.unique {first second : Str} (one : item.Listed first)
    (other : item.Listed second) : first = second := by
  cases item with
  | rrr op d sa sb =>
      rcases one with one | one <;> rcases other with other | other <;>
        exact instructions_unique _ one _ other rfl (by simp)
  | rx op d sa disp => exact instructions_unique _ one _ other rfl Iff.rfl
  | data value => exact one.elim

theorem Item.Shows.mnemonic (shows : item.Shows shown) {name : Str} (listed : item.Listed name) :
    name.map Char.toLower = shown.mnemonic := by
  cases item with
  | rrr op d sa sb | rx op d sa disp =>
      obtain ⟨other, named, rfl⟩ := shows
      rw [listed.unique named, DisInst.mnemonic]
  | data value => exact shows.elim

theorem Item.Shows.operands (shows : item.Shows shown) {ir : InstVariant}
    (decodes : item.DecodesTo ir) : shown.Operands ir := by
  cases item with
  | rrr op d sa sb =>
      obtain ⟨_, _, rfl⟩ := shows
      have fields : ir.rrr = { d, op := BitVec.ofNat 4 op, sb, sa } := decodes
      simp only [DisInst.Operands, fields, true_and]
  | rx op d sa disp =>
      obtain ⟨_, _, rfl⟩ := shows
      have fields : ir.rx = { d, op := 15, sb := BitVec.ofNat 4 op, sa, disp := disp.word } :=
        decodes
      have value := disp.toNat_word
      simp only [DisInst.Operands, fields, true_and]
      omega
  | data value => exact shows.elim

theorem Vm.Carries.within {vm : Vm} {addr : Nat} {prior bytes after : List Byte}
    (carried : vm.Carries 0 (prior ++ (bytes ++ after))) (position : prior.length = 2 * addr) :
    vm.Carries addr bytes := by
  intro offset byte stored
  have bound := (List.getElem?_eq_some_iff.mp stored).1
  have placed := carried (prior.length + offset) byte (by
    rwa [List.getElem?_append_right (by omega), Nat.add_sub_cancel_left,
      List.getElem?_append_left bound])
  rwa [Nat.mul_zero, Nat.zero_add, position] at placed

end Agreement

section Execution

variable {Ctx : Type} {m : Machine Ctx} {executable : List Byte} {start : Vm}
variable {index offset stop : Nat} {shown : DisInst}

/-- An instruction the listing of an image shows at `offset` is dispatched by the emulator
at `offset / 2`, with the listed operands, and leads on to half the listed end. -/
theorem disasm_execution (observe : TraceEvent → Vm → Ctx → Ctx)
    (loaded : sigma16VmInit executable = .ok start) (image : m.vm.mem = start.mem)
    (started : (0 :: (disasmBinary executable).ends)[index]? = some offset)
    (yielded : (disasmBinary executable).1[index]? = some (stop, some shown))
    (atInst : m.vm.cpu.pc.toNat = offset / 2) :
    ∃ decoded label seen, dispatch m.vm = .ok (decoded, label) ∧
      label.enter decoded = .ok seen ∧ label.mnemonic.map Char.toLower = shown.mnemonic ∧
      (label ≠ .doNop → shown.Operands seen.cpu.ir) ∧
      ((∃ next, vmStep (observing observe) m = .running next ∧
          (label.taken seen = false → 2 * next.vm.cpu.pc.toNat = stop)) ∨
        (label = .doTrap ∧ ∃ next, vmStep (observing observe) m = .stopped (.returned 0) next) ∨
        ¬ AddressesMapped m.vm) := by
  obtain ⟨item, prior, after, inst, shows, even, rfl, position, bytes⟩ :=
    disasmFrom_entry [] executable rfl started yielded
  simp only [sigma16VmInit] at loaded
  split at loaded
  · rename_i fits
    obtain rfl := Except.ok.inj loaded
    have carried := Vm.Carries.of_image fits image
    rw [List.nil_append] at bytes
    have length := congrArg List.length bytes
    rw [bytes] at carried
    have aligned : prior.length = 2 * m.vm.cpu.pc.toNat := by omega
    obtain ⟨decoded, label, ir, leads, entered, listed, fields, size, valid⟩ :=
      (carried.within aligned).holds.dispatches inst
    refine ⟨decoded, label, _, dispatch_eq_ok.mpr leads, entered, shows.mnemonic listed,
      fun notNop => shows.operands (fields notNop), ?_⟩
    have advanced : 2 * (m.vm.cpu.pc + label.size).toNat = offset + 2 * item.words.length := by
      simp only [memBytes, List.length_append, length_wordBytes] at fits length
      rw [size, BitVec.toNat_add, BitVec.toNat_ofNat]
      omega
    rw [← advanced]
    rcases vmStep_straight leads valid entered with ⟨next, run, straight⟩ | stopped
    · exact .inl ⟨next, run, fun same => congrArg (2 * ·.toNat) (straight same)⟩
    · exact .inr stopped
  · cases loaded

end Execution

theorem disasm_execution_jump :
    ∃ decoded label seen,
      dispatch ((Machine.boot [0x0C, 0x12, 0xF0, 0x03, 0x00, 0x02, 0xFF, 0xFF]).vm.setPc 1) =
        .ok (decoded, label) ∧ label.enter decoded = .ok seen ∧
      label.mnemonic.map Char.toLower = "jump".toList := by
  have listing : disasmBinary [0x0C, 0x12, 0xF0, 0x03, 0x00, 0x02, 0xFF, 0xFF] =
      ([(2, some (.rrr 0 "add".toList 12 1 2)), (6, some (.rx 15 "jump".toList 0 0 3 2)),
        (10, none)], none) := by
    decide +kernel
  have second : (0 :: (disasmBinary [0x0C, 0x12, 0xF0, 0x03, 0x00, 0x02, 0xFF, 0xFF]).ends)[1]? =
      some 2 := by
    rw [listing]
    rfl
  have yielded : (disasmBinary [0x0C, 0x12, 0xF0, 0x03, 0x00, 0x02, 0xFF, 0xFF]).1[1]? =
      some (6, some (.rx 15 "jump".toList 0 0 3 2)) := by
    rw [listing]
    rfl
  have loaded : sigma16VmInit [0x0C, 0x12, 0xF0, 0x03, 0x00, 0x02, 0xFF, 0xFF] =
      .ok (Machine.boot [0x0C, 0x12, 0xF0, 0x03, 0x00, 0x02, 0xFF, 0xFF]).vm := rfl
  obtain ⟨decoded, label, seen, dispatched, entered, named, _⟩ := disasm_execution
    (m := ⟨(Machine.boot [0x0C, 0x12, 0xF0, 0x03, 0x00, 0x02, 0xFF, 0xFF]).vm.setPc 1, (), []⟩)
    (fun _ _ ctx => ctx) loaded rfl second yielded rfl
  exact ⟨decoded, label, seen, dispatched, entered, named⟩

end Sigma16

import Sigma16.ImageExecution
import Sigma16.TotalCorrectness
import Sigma16.VmArithmetic

/-!
Rules of pre- and postconditions for the instructions of a program in memory, under a
handler that only observes.
-/

namespace Sigma16

open Words Transition

structure AtItem {Ctx : Type} (items : List Item) (index : Nat) (holds : (Nibble → Word) → Prop)
    (m : Machine Ctx) : Prop where
  program : m.vm.Holds 0 (codeWords items)
  pc : m.vm.cpu.pc = BitVec.ofNat 16 (itemOffset items index)
  regs : holds m.vm.cpu.regs

namespace AtItem

variable {Ctx : Type} {observe : TraceEvent → Vm → Ctx → Ctx} {m : Machine Ctx}
variable {items : List Item} {index target : Nat} {item : Item} {label : Label}
variable {before after : (Nibble → Word) → Prop} {d sa sb : Register}

section Fetching

theorem held (located : AtItem items index before m) (stored : items[index]? = some item) :
    m.vm.Holds m.vm.cpu.pc.toNat item.words := by
  have placed := located.program.item stored
  obtain ⟨word, rest, words⟩ := List.exists_cons_of_ne_nil item.words_ne_nil
  have mapped := Vm.word_ok_lt (placed 0 word (by rw [words]; rfl))
  simp only [memWords, memBytes] at mapped
  rwa [located.pc, BitVec.toNat_ofNat, Nat.mod_eq_of_lt (by omega)]

theorem rrr {op : Fin 14} (located : AtItem items index before m) (label : Label)
    (stored : items[index]? = some (.rrr op d sa sb))
    (entry : dispatchTable[(BitVec.ofNat 4 op.val).toNat]? = some (.inst label))
    (notNop : label ≠ .doNop) :
    ∃ ir, ir.rrr = { d, op := BitVec.ofNat 4 op.val, sb, sa } ∧ Dispatches m.vm m.vm label ∧
      label.enter m.vm = .ok (m.vm.setIr ir) := by
  obtain ⟨ir, leads, entered, fields⟩ := (located.held stored).rrr entry
  exact ⟨ir, fields notNop, leads, entered⟩

theorem rx {op : Fin 9} {disp : Signed16} (located : AtItem items index before m) (label : Label)
    (stored : items[index]? = some (.rx op d sa disp))
    (entry : rxDispatchTable[(BitVec.ofNat 4 op.val).toNat]? = some label) :
    ∃ ir, ir.rx = { d, op := 15, sb := BitVec.ofNat 4 op.val, sa, disp := disp.word } ∧
      Dispatches m.vm (m.vm.setIr ir) label ∧
      label.enter (m.vm.setIr ir) = .ok (m.vm.setIr ir) := by
  obtain ⟨ir, leads, entered, fields⟩ := (located.held stored).rx label entry
  exact ⟨ir, fields, leads, entered⟩

end Fetching

section Steps

variable {decoded next : Vm} {ir : InstVariant}

theorem completes (located : AtItem items index before m) (leads : Dispatches m.vm decoded label)
    (entered : label.enter decoded = .ok (m.vm.setIr ir)) (notTrap : label ≠ .doTrap)
    (notStore : label ≠ .doStore) (body : label.body (m.vm.setIr ir) = .ok next)
    (arrives : next.cpu.pc = BitVec.ofNat 16 (itemOffset items target))
    (holds : after next.cpu.regs) :
    ∃ last, vmStep (observing observe) m = .running last ∧ AtItem items target after last := by
  have frame := Label.body_frame notStore body
  exact ⟨_, vmStep_completes leads entered notTrap body,
    located.program.of_mem frame.mem, arrives, holds⟩

theorem next_pc (located : AtItem items index before m) (stored : items[index]? = some item)
    (size : label.size = BitVec.ofNat 16 item.words.length)
    (straight : label.taken (m.vm.setIr ir) = false)
    (body : label.body (m.vm.setIr ir) = .ok next) :
    next.cpu.pc = BitVec.ofNat 16 (itemOffset items (index + 1)) := by
  rw [Label.body_pc straight body, Vm.setIr_pc, located.pc, size, itemOffset_succ stored,
    BitVec.ofNat_add]

end Steps

section Rules

variable {disp : Signed16}

theorem lea (stored : items[index]? = some (.rx 0 d sa disp)) (nonzero : d ≠ 0)
    (post : ∀ regs next, before regs → (∀ reg, reg ≠ d → next reg = regs reg) →
      next d = regs sa + disp.word → after next) :
    Leads (vmStep (observing observe)) (AtItem items index before)
      (AtItem items (index + 1) after) := by
  refine .single fun m located => ?_
  obtain ⟨ir, fields, leads, entered⟩ := located.rx .doLea stored rfl
  have body : Label.doLea.body (m.vm.setIr ir) = .ok (doLea (m.vm.setIr ir)) := rfl
  refine located.completes leads entered (by decide) (by decide) body
    (located.next_pc stored rfl rfl body) ?_
  have moved := post m.vm.cpu.regs _ located.regs
    (fun reg other => Function.update_of_ne other _ _) (Function.update_self _ _ _)
  simp only [doLea, Vm.setIr_ir, fields, nonzero, ne_eq, not_false_eq_true, if_true,
    Vm.advance_regs, Vm.setReg_regs, Vm.computeRxEaddr_regs, computeRxEaddr_adr, Vm.setIr_regs]
  exact moved

theorem alu (op : AluOp) {opcode : Fin 14}
    (stored : items[index]? = some (.rrr opcode d sa sb))
    (coded : BitVec.ofNat 4 opcode.val = op.opcode) (guarded : d ≠ 0) (notStatus : d ≠ 15)
    (post : ∀ regs next, before regs → (∀ reg, reg ≠ d → reg ≠ 15 → next reg = regs reg) →
      op.Computes d (regs sa) (regs sb) regs next → after next) :
    Leads (vmStep (observing observe)) (AtItem items index before)
      (AtItem items (index + 1) after) := by
  refine .single fun m located => ?_
  have entry : dispatchTable[(BitVec.ofNat 4 opcode.val).toNat]? = some (.inst op.label) := by
    rw [coded]
    exact op.dispatchTable_label
  obtain ⟨ir, fields, leads, entered⟩ := located.rrr _ stored entry (by cases op <;> decide)
  have dest : (m.vm.setIr ir).cpu.ir.rrr.d = d := congrArg InstRrr.d fields
  have left : (m.vm.setIr ir).cpu.ir.rrr.sa = sa := congrArg InstRrr.sa fields
  have right : (m.vm.setIr ir).cpu.ir.rrr.sb = sb := congrArg InstRrr.sb fields
  obtain ⟨next, body, _, computed⟩ :=
    op.body_computes (by rwa [dest]) (by rwa [dest] : (m.vm.setIr ir).cpu.ir.rrr.d ≠ 15)
  have notStore : op.label ≠ .doStore := by cases op <;> decide
  have frame := Label.body_frame notStore body
  rw [dest, left, right] at computed
  refine located.completes leads entered (by cases op <;> decide) notStore body
    (located.next_pc stored (by cases op <;> rfl) (by cases op <;> rfl) body) ?_
  refine post _ _ located.regs (fun reg notDest notStatus' => ?_) computed
  exact frame.regs reg (op.label.not_written (by rwa [dest]) notStatus')

theorem jumpf_taken (stored : items[index]? = some (.rx 6 d sa disp))
    (taken : ∀ regs, before regs → regs d = 0 ∧
      regs sa + disp.word = BitVec.ofNat 16 (itemOffset items target) ∧ after regs) :
    Leads (vmStep (observing observe)) (AtItem items index before)
      (AtItem items target after) := by
  refine .single fun m located => ?_
  obtain ⟨ir, fields, leads, entered⟩ := located.rx .doJumpf stored rfl
  obtain ⟨zero, arrives, holds⟩ := taken _ located.regs
  have body : Label.doJumpf.body (m.vm.setIr ir) = .ok (doJumpf (m.vm.setIr ir)) := rfl
  have jumps : doJumpf (m.vm.setIr ir) = (m.vm.setIr ir).branch true := by
    simp only [doJumpf, Vm.setIr_ir, fields, Vm.setIr_regs, zero, decide_true]
  refine located.completes leads entered (by decide) (by decide) body ?_ ?_
  · rw [jumps, branch_pc, if_pos rfl, Vm.setIr_ir, fields]
    exact arrives
  · rw [jumps]
    exact holds

theorem jumpf_straight (stored : items[index]? = some (.rx 6 d sa disp))
    (straight : ∀ regs, before regs → regs d ≠ 0 ∧ after regs) :
    Leads (vmStep (observing observe)) (AtItem items index before)
      (AtItem items (index + 1) after) := by
  refine .single fun m located => ?_
  obtain ⟨ir, fields, leads, entered⟩ := located.rx .doJumpf stored rfl
  obtain ⟨nonzero, holds⟩ := straight _ located.regs
  have body : Label.doJumpf.body (m.vm.setIr ir) = .ok (doJumpf (m.vm.setIr ir)) := rfl
  have stays : Label.doJumpf.taken (m.vm.setIr ir) = false := by
    simp only [Label.taken, Vm.setIr_ir, fields, Vm.setIr_regs, nonzero, decide_false]
  refine located.completes leads entered (by decide) (by decide) body
    (located.next_pc stored rfl stays body) ?_
  have kept : (doJumpf (m.vm.setIr ir)).cpu.regs = m.vm.cpu.regs := by
    simp only [Label.taken] at stays
    rw [doJumpf, stays]
    rfl
  rw [kept]
  exact holds

theorem halts (stored : items[index]? = some (.rrr 13 d sa sb))
    (zero : ∀ regs, before regs → regs d = 0) :
    ∀ m, AtItem items index before m → ∃ reason last,
      vmStep (observing observe) m = .stopped reason last ∧
        reason = .returned 0 ∧ before last.vm.cpu.regs := by
  intro m located
  obtain ⟨ir, fields, leads, entered⟩ := located.rrr .doTrap stored rfl (by decide)
  have code := zero _ located.regs
  have halted : (m.vm.setIr ir).cpu.regs (m.vm.setIr ir).cpu.ir.rrr.d = 0 := by
    rw [Vm.setIr_ir, fields]
    exact code
  rw [vmStep_trap leads entered]
  simp only [doTrap, halted, if_true, endHotloop, traced_observing]
  exact ⟨_, _, rfl, rfl, located.regs⟩

end Rules

end AtItem

end Sigma16

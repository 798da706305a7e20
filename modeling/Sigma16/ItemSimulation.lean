import Sigma16.BranchAliases
import Sigma16.ItemMachine
import Sigma16.Simulation

/-!
The emulator on an image simulates the program the image was made from: instruction by
instruction, and so over whole runs, for as long as the program does not go wrong.
-/

namespace Sigma16

open Words Transition

section Status

theorem statusWord_bit (holds : Flag → Bool) (flag : Flag) :
    (statusWord holds).getLsbD flag.bit = holds flag := by
  have bound : ∀ flag : Flag, flag.bit < 16 := by
    intro flag
    cases flag <;> decide
  simp only [statusWord, List.foldl_cons, List.foldl_nil, setBit_getLsbD _ _ (bound _)]
  cases flag <;> rfl

theorem statusWord_padding (holds : Flag → Bool) {index : Nat} (low : index < 8) :
    (statusWord holds).getLsbD index = false := by
  have bound : ∀ flag : Flag, flag.bit < 16 := by
    intro flag
    cases flag <;> decide
  have apart : ∀ flag : Flag, index ≠ flag.bit := by
    intro flag
    have high := flag.eight_le_bit
    omega
  simp only [statusWord, List.foldl_cons, List.foldl_nil, setBit_getLsbD _ _ (bound _), apart,
    if_false]
  exact BitVec.getLsbD_zero

theorem eq_statusWord {word : Word} {holds : Flag → Bool}
    (flags : ∀ flag : Flag, word.getLsbD flag.bit = holds flag)
    (padding : ∀ index, index < 8 → word.getLsbD index = false) : word = statusWord holds := by
  have named : ∀ index, 8 ≤ index → index < 16 → ∃ flag : Flag, flag.bit = index := by
    intro index low high
    have numbers : index = 8 ∨ index = 9 ∨ index = 10 ∨ index = 11 ∨ index = 12 ∨ index = 13 ∨
        index = 14 ∨ index = 15 := by omega
    rcases numbers with rfl | rfl | rfl | rfl | rfl | rfl | rfl | rfl
    exacts [⟨.C, rfl⟩, ⟨.v, rfl⟩, ⟨.V, rfl⟩, ⟨.L, rfl⟩, ⟨.l, rfl⟩, ⟨.E, rfl⟩, ⟨.g, rfl⟩, ⟨.G, rfl⟩]
  refine BitVec.eq_of_getLsbD_eq fun index bound => ?_
  by_cases low : index < 8
  · rw [padding index low, statusWord_padding holds low]
  · obtain ⟨flag, rfl⟩ := named index (Nat.not_lt.mp low) bound
    rw [flags, statusWord_bit]

end Status

section Registers

variable {vm after : Vm}

theorem safeUpdate_regs (vm : Vm) (d : Nibble) (val : Word) :
    (vm.safeUpdate d val).cpu.regs = put vm.cpu.regs d val := by
  by_cases zero : d = 0
  · simp only [Vm.safeUpdate, put, zero, ne_eq, not_true_eq_false, if_false, if_true]
  · simp only [Vm.safeUpdate, put, zero, ne_eq, not_false_eq_true, if_false, if_true,
      Vm.setReg_regs]

theorem applyOpRrr_regs (vm : Vm) (op : CInt → CInt → CInt) :
    (vm.applyOpRrr op).cpu.regs = put vm.cpu.regs vm.cpu.ir.rrr.d
      (truncate (op (promote (vm.cpu.regs vm.cpu.ir.rrr.sa))
        (promote (vm.cpu.regs vm.cpu.ir.rrr.sb)))) :=
  safeUpdate_regs vm _ _

theorem clearFlags_regs (vm : Vm) : vm.clearFlags.cpu.regs = withStatus vm.cpu.regs 0 := rfl

theorem branch_regs (vm : Vm) (taken : Bool) : (vm.branch taken).cpu.regs = vm.cpu.regs := by
  cases taken <;> rfl

theorem eq_withStatus {regs before : Nibble → Word} {status : Word}
    (others : ∀ reg, reg ≠ 15 → regs reg = before reg) (same : regs 15 = status) :
    regs = withStatus before status := by
  funext reg
  by_cases isStatus : reg = 15
  · rw [isStatus, same, withStatus, Function.update_self]
  · rw [others reg isStatus, withStatus, Function.update_of_ne isStatus]

theorem doAdd_regs (vm : Vm) : (doAdd vm).cpu.regs =
    Label.doAdd.registers vm.cpu.ir.rrr.d vm.cpu.ir.rrr.sa vm.cpu.ir.rrr.sb vm.cpu.regs := by
  have sum := applyOpRrr_regs vm (· + ·)
  rw [truncate_add, truncate_promote, truncate_promote] at sum
  refine eq_withStatus (fun reg notStatus => ?_) (eq_statusWord (fun flag => ?_) fun index low => ?_)
  · simp only [doAdd]
    repeat rw [Vm.setFlag_of_ne notStatus]
    rw [Vm.clearFlags_of_ne notStatus, sum]
    rfl
  · have positive : ∀ d : Nibble, decide (0 < d.setWidth 16) = decide (d ≠ 0) ∧
        BitVec.slt 0 (d.setWidth 16) = decide (d ≠ 0) ∧
        decide (d.setWidth 16 = (0 : Word)) = decide (d = 0) := by decide
    obtain ⟨above, signed, equal⟩ := positive vm.cpu.ir.rrr.d
    simp only [doAdd, Vm.setFlag_bit, Vm.clearFlags_bit, Vm.clearFlags_ir, Vm.applyOpRrr_ir]
    cases flag
    case C | v | V | G => exact above
    case L | E => exact equal
    case g => exact signed
    case l => rfl
  · have apart : ∀ flag : Flag, index ≠ flag.bit := by
      intro flag
      have high := flag.eight_le_bit
      omega
    simp only [doAdd, Vm.setFlag_bit, Vm.clearFlags_bit, apart, if_false]

theorem doCmp_regs (vm : Vm) : (doCmp vm).cpu.regs =
    Label.doCmp.registers vm.cpu.ir.rrr.d vm.cpu.ir.rrr.sa vm.cpu.ir.rrr.sb vm.cpu.regs := by
  have compares := doCmp_compares vm
  exact eq_withStatus compares.others (eq_statusWord compares.flags compares.padding)

theorem doDiv_regs (vm : Vm) : (doDiv vm).cpu.regs =
    Label.doDiv.registers vm.cpu.ir.rrr.d vm.cpu.ir.rrr.sa vm.cpu.ir.rrr.sb vm.cpu.regs := by
  by_cases zero : vm.cpu.regs vm.cpu.ir.rrr.sb = 0
  · rw [doDiv_zero zero, Label.registers, if_pos zero]
  · have quotient := safeUpdate_regs vm vm.cpu.ir.rrr.d
      (vm.cpu.regs vm.cpu.ir.rrr.sa / vm.cpu.regs vm.cpu.ir.rrr.sb)
    by_cases status : vm.cpu.ir.rrr.d = 15
    · simp only [doDiv, opDiv, promote_eq_zero, zero, if_false, Vm.safeUpdate_ir, status, ne_eq,
        not_true_eq_false, Vm.advance_regs, truncate_sdiv, Label.registers, Label.result, if_true]
      rw [← status, quotient]
    · simp only [doDiv, opDiv, promote_eq_zero, zero, if_false, Vm.safeUpdate_ir, status, ne_eq,
        not_false_eq_true, Vm.advance_regs, truncate_sdiv, truncate_srem, Label.registers,
        Label.result, if_true, Vm.setReg_regs, quotient]
      rfl

theorem Label.body_registers {label : Label} (listed : label ∈ rrrLabels)
    (ran : label.body vm = .ok after) :
    after.cpu.regs = label.registers vm.cpu.ir.rrr.d vm.cpu.ir.rrr.sa vm.cpu.ir.rrr.sb
      vm.cpu.regs := by
  cases label
  case doLea | doLoad | doStore | doJump | doJumpc0 | doJumpc1 | doJumpf | doJumpt | doJal
      | doRfi | doBadOp => exact absurd listed (by decide)
  all_goals obtain rfl := Except.ok.inj ran
  case doAdd => exact doAdd_regs vm
  case doCmp => exact doCmp_regs vm
  case doDiv => exact doDiv_regs vm
  case doNop | doTrap => rfl
  case doInvold =>
    rw [Sigma16.doInvold, clearFlags_regs, Vm.advance_regs, safeUpdate_regs, truncate_not,
      truncate_promote]
    rfl
  case doSub | doMul =>
    simp only [Sigma16.doSub, Sigma16.doMul, applyOpRrr_regs, truncate_sub, truncate_mul,
      truncate_promote, registers, result]
  all_goals
    simp only [Sigma16.doCmplt, Sigma16.doCmpeq, Sigma16.doCmpgt, Sigma16.doAndold,
      Sigma16.doOrold, Sigma16.doXorold, clearFlags_regs, applyOpRrr_regs, truncate_boolInt,
      truncate_and, truncate_or, truncate_xor, truncate_promote, promote_slt, promote_inj,
      decide_eq_true_eq, registers, result]

end Registers

section Layout

variable {items : List Item} {item : Item} {addr index : Nat}

theorem itemOffset_cons (item : Item) (items : List Item) (index : Nat) :
    itemOffset (item :: items) (index + 1) = item.words.length + itemOffset items index := by
  simp [itemOffset, codeWords]

theorem Item.length_words_pos (item : Item) : 0 < item.words.length :=
  List.length_pos_iff.mpr item.words_ne_nil

theorem locate_offset (located : locate (codeLayout items) addr = some index) :
    itemOffset items index = addr := by
  induction items generalizing addr index with
  | nil =>
      simp only [codeLayout, List.map_nil, locate] at located
      split at located
      · obtain rfl := Option.some.inj located
        exact (‹addr = 0›).symm
      · cases located
  | cons item items ih =>
      simp only [codeLayout, List.map_cons, locate] at located ih
      split at located
      · obtain rfl := Option.some.inj located
        simp [itemOffset, codeWords, ‹addr = 0›]
      · split at located
        · cases located
        · obtain ⟨before, found, rfl⟩ := Option.map_eq_some_iff.mp located
          rw [itemOffset_cons, ih found]
          omega

theorem inCode_apart (outside : inCode (codeLayout items) addr = false) (stored : items[index]? = some item)
    (inst : item.isInst = true) {offset : Nat} (within : offset < item.words.length) :
    itemOffset items index + offset ≠ addr := by
  induction items generalizing addr index with
  | nil => simp at stored
  | cons first items ih =>
      simp only [codeLayout, List.map_cons, inCode] at outside ih
      cases index with
      | zero =>
          obtain rfl : first = item := by simpa using stored
          have start : itemOffset (first :: items) 0 = 0 := rfl
          split at outside
          · rw [inst] at outside
            cases outside
          · omega
      | succ index =>
          rw [itemOffset_cons]
          split at outside
          · have positive := first.length_words_pos
            omega
          · have apart := ih outside (by simpa using stored)
            omega

end Layout

section Realizing

variable {Ctx : Type} {observe : TraceEvent → Vm → Ctx → Ctx} {m : Machine Ctx}
variable {items : List Item} {s : ItemState} {item : Item}

/-- The machine's memory holds the state's store, and there the instructions of the program;
`pc` is at the state's item, and the registers and the output are the state's. -/
structure Realizes (items : List Item) (s : ItemState) (m : Machine Ctx) : Prop where
  code : ∀ (index : Nat) item, items[index]? = some item → item.isInst = true →
    m.vm.Holds (itemOffset items index) item.words
  pc : m.vm.cpu.pc.toNat = itemOffset items s.index
  regs : m.vm.cpu.regs = s.regs
  store : ∀ addr, addr < memWords → m.vm.word addr = .ok (bswap16 (s.store addr))
  out : m.out = s.out

namespace Realizes

theorem held (real : Realizes items s m) (stored : items[s.index]? = some item)
    (inst : item.isInst = true) : m.vm.Holds m.vm.cpu.pc.toNat item.words := by
  rw [real.pc]
  exact real.code s.index item stored inst

theorem read (real : Realizes items s m) {addr : Word} (mapped : addr.toNat < memWords) :
    readMem m.vm addr = .ok (s.store addr.toNat) := by
  rw [readMem, real.store _ mapped, Except.map, bswap16_bswap16]

theorem next_pc (real : Realizes items s m) (stored : items[s.index]? = some item)
    (inst : item.isInst = true) {size : Word}
    (length : size = BitVec.ofNat 16 item.words.length) :
    (m.vm.cpu.pc + size).toNat = itemOffset items (s.index + 1) := by
  have held := real.held stored inst
  have last : ∃ word, item.words[item.words.length - 1]? = some word :=
    ⟨_, List.getElem?_eq_getElem (Nat.sub_lt item.length_words_pos Nat.one_pos)⟩
  obtain ⟨word, final⟩ := last
  have mapped := Vm.word_ok_lt (held _ word final)
  have positive := item.length_words_pos
  rw [itemOffset_succ stored, ← real.pc, length, BitVec.toNat_add, BitVec.toNat_ofNat]
  simp only [memWords, memBytes] at mapped
  omega

theorem moved {next : Machine Ctx} {later : ItemState} (real : Realizes items s m)
    (mem : next.vm.mem = m.vm.mem) (store : later.store = s.store)
    (pc : next.vm.cpu.pc.toNat = itemOffset items later.index)
    (regs : next.vm.cpu.regs = later.regs) (out : next.out = later.out) :
    Realizes items later next where
  code index item stored inst := (real.code index item stored inst).of_mem mem
  pc := pc
  regs := regs
  store addr mapped := by rw [store, ← real.store addr mapped, Vm.word, Vm.word, mem]
  out := out

end Realizes

theorem dispatchTable_rrrLabels : ∀ op : Fin 14,
    dispatchTable[(BitVec.ofNat 4 op.val).toNat]? =
      some (.inst (Label.rrrLabels.getD op.val .doBadOp)) := by
  decide

theorem rxDispatchTable_rxLabels : ∀ op : Fin 9,
    rxDispatchTable[(BitVec.ofNat 4 op.val).toNat]? =
      some (Label.rxLabels.getD op.val .doBadOp) := by
  decide

theorem rrrLabels_member : ∀ op : Fin 14,
    Label.rrrLabels.getD op.val .doBadOp ∈ Label.rrrLabels := by
  decide

abbrev StepMatches (items : List Item) (first : Outcome ItemStop ItemState)
    (second : Result Ctx) : Prop :=
  first.Matches (fun reason stop => reason = .halted ∧ stop = .returned 0) (Realizes items) second

section Rrr

variable {op : Fin 14} {d sa sb : Register} {label : Label}

theorem rrr_matches (real : Realizes items s m)
    (stored : items[s.index]? = some (.rrr op d sa sb))
    (named : label = Label.rrrLabels.getD op.val .doBadOp) (notTrap : label ≠ .doTrap) :
    StepMatches items (.running (s.next (label.registers d sa sb s.regs)))
      (vmStep (observing observe) m) := by
  have entry := dispatchTable_rrrLabels op
  have listed := rrrLabels_member op
  rw [← named] at entry listed
  obtain ⟨ir, leads, entered, fields⟩ := (real.held stored rfl).rrr entry
  obtain ⟨after, body⟩ : ∃ after, label.body (m.vm.setIr ir) = .ok after := by
    cases label <;> first | exact ⟨_, rfl⟩ | exact absurd listed (by decide)
  have notStore : label ≠ .doStore := by
    rintro rfl
    exact absurd listed (by decide)
  have straight : label.taken (m.vm.setIr ir) = false := by
    cases label <;> first | rfl | exact absurd listed (by decide)
  have size : label.size = 1 := by
    cases label <;> first | rfl | exact absurd listed (by decide)
  have computed : after.cpu.regs = label.registers d sa sb m.vm.cpu.regs := by
    rw [Label.body_registers listed body]
    by_cases nop : label = .doNop
    · rw [nop]
      rfl
    · simp only [Vm.setIr_ir, fields nop, Vm.setIr_regs]
  rw [vmStep_completes leads entered notTrap body]
  refine .running (real.moved (Label.body_frame notStore body).mem rfl ?_ ?_ real.out)
  · exact (congrArg BitVec.toNat (Label.body_pc straight body)).trans
      (real.next_pc stored rfl size)
  · exact computed.trans (congrArg (label.registers d sa sb) real.regs)

theorem trap_matches (real : Realizes items s m)
    (stored : items[s.index]? = some (.rrr op d sa sb))
    (named : .doTrap = Label.rrrLabels.getD op.val .doBadOp)
    (sound : ∀ last, s.trap d sa sb ≠ .stopped .wrong last) :
    StepMatches items (s.trap d sa sb) (vmStep (observing observe) m) := by
  have entry := dispatchTable_rrrLabels op
  rw [← named] at entry
  obtain ⟨ir, leads, entered, fields⟩ := (real.held stored rfl).rrr entry
  have known := fields (by decide)
  have next : (m.vm.cpu.pc + 1).toNat = itemOffset items (s.index + 1) :=
    real.next_pc stored rfl rfl
  rw [vmStep_trap leads entered]
  simp only [doTrap, Vm.setIr_ir, Vm.setIr_regs, known, real.regs]
  by_cases halts : s.regs d = 0
  · simp only [ItemState.trap, halts, if_true, endHotloop, traced_observing]
    exact .stopped ⟨rfl, rfl⟩ (real.moved rfl rfl real.pc real.regs real.out)
  · by_cases writes : s.regs d = 2
    · by_cases mapped : ∀ addr ∈ s.written sa sb, addr < memWords
      · have inside : ∀ j, 0 ≤ j → j < 0 + (s.regs sb).toNat →
            (s.regs sa + BitVec.ofNat 16 j).toNat < memWords := by
          intro j _ bound
          exact mapped _ (List.mem_map_of_mem (List.mem_range.mpr (by omega)))
        obtain ⟨bytes, run, length, shown⟩ := @trapWriteFrom_mapped Ctx
          { m with vm := m.vm.setIr ir, ctx := observe .instRrr (m.vm.setIr ir) m.ctx }
          (s.regs sa) (s.regs sb).toNat 0 inside
        have same : bytes = (s.written sa sb).map fun addr => lowByte (s.store addr) := by
          refine List.ext_getElem (by simp [length, ItemState.written]) fun j first second => ?_
          have found := shown j first
          have stay : readMem (m.vm.setIr ir) (s.regs sa + BitVec.ofNat 16 (0 + j)) =
              readMem m.vm (s.regs sa + BitVec.ofNat 16 (0 + j)) := rfl
          rw [stay, real.read (inside (0 + j) (by omega) (by omega)), Except.map] at found
          simp only [ItemState.written, List.map_map, List.getElem_map, List.getElem_range,
            Function.comp]
          rw [Nat.zero_add] at found
          exact (Except.ok.inj found).symm
        rw [ItemState.trap, if_neg halts, if_pos writes, if_pos mapped, if_neg halts,
          if_pos writes, trapWrite]
        simp only [Vm.setIr_ir, Vm.setIr_regs, known, real.regs, run, Outcome.bind_running,
          Machine.set]
        refine .running (real.moved rfl rfl next ?_ ?_)
        · exact congrArg (withStatus · 0) real.regs
        · rw [same, ← real.out]
      · refine absurd ?_ (sound s)
        rw [ItemState.trap, if_neg halts, if_pos writes, if_neg mapped]
    · simp only [ItemState.trap, halts, writes, if_false, Outcome.bind_running, Machine.set]
      exact .running (real.moved rfl rfl next (congrArg (withStatus · 0) real.regs) real.out)

end Rrr

section Rx

variable {op : Fin 9} {d sa : Register} {disp : Signed16} {label : Label}
variable {decoded next : Vm} {ir : InstVariant}

theorem rxLabels_member : ∀ op : Fin 9, Label.rxLabels.getD op.val .doBadOp ∈ Label.rxLabels := by
  decide

theorem itemOperand_address (items : List Item) (sa : Register) (disp : Word)
    (regs : Nibble → Word) : (itemOperand items sa disp).address regs = regs sa + disp := rfl

theorem branch_running {target : Option Nat}
    (sound : ∀ last, s.branch true target ≠ .stopped .wrong last) :
    ∃ index, s.branch true target = .running { s with index } ∧ target = some index := by
  cases target with
  | none => exact absurd rfl (sound s)
  | some index => exact ⟨index, rfl, rfl⟩

theorem branch_matches (real : Realizes items s m)
    (stored : items[s.index]? = some (.rx op d sa disp)) (leads : Dispatches m.vm decoded label)
    (entered : label.enter decoded = .ok (m.vm.setIr ir)) (notTrap : label ≠ .doTrap)
    (fields : ir.rx = { d, op := 15, sb := BitVec.ofNat 4 op.val, sa, disp := disp.word })
    {taken : Bool} (body : label.body (m.vm.setIr ir) = .ok ((m.vm.setIr ir).branch taken))
    (sound : ∀ last, s.branch taken ((itemOperand items sa disp.word).target s.regs) ≠
      .stopped .wrong last) :
    StepMatches items (s.branch taken ((itemOperand items sa disp.word).target s.regs))
      (vmStep (observing observe) m) := by
  have regs : ((m.vm.setIr ir).branch taken).cpu.regs = s.regs := by
    rw [branch_regs]
    exact real.regs
  have mem : ((m.vm.setIr ir).branch taken).mem = m.vm.mem := by cases taken <;> rfl
  rw [vmStep_completes leads entered notTrap body]
  cases taken with
  | false => exact .running (real.moved mem rfl (real.next_pc stored rfl rfl) regs real.out)
  | true =>
      obtain ⟨index, arrives, position⟩ := branch_running sound
      rw [arrives]
      refine .running (real.moved mem rfl ?_ regs real.out)
      simp only [branch_pc, if_true, Vm.setIr_regs, Vm.setIr_ir, fields, real.regs]
      exact (locate_offset position).symm

/-- The link register is written first, so that it can also be the base of the target. -/
theorem jal_matches (real : Realizes items s m)
    (stored : items[s.index]? = some (.rx op d sa disp)) (leads : Dispatches m.vm decoded .doJal)
    (entered : Label.doJal.enter decoded = .ok (m.vm.setIr ir))
    (fields : ir.rx = { d, op := 15, sb := BitVec.ofNat 4 op.val, sa, disp := disp.word })
    (sound : ∀ last, s.runItemRx items .doJal d sa disp.word ≠ .stopped .wrong last) :
    StepMatches items (s.runItemRx items .doJal d sa disp.word) (vmStep (observing observe) m) := by
  have back : m.vm.cpu.pc + 2 = BitVec.ofNat 16 (itemOffset items (s.index + 1)) := by
    rw [← real.next_pc stored rfl rfl, BitVec.ofNat_toNat, BitVec.setWidth_eq]
    rfl
  have linked := safeUpdate_regs (m.vm.setIr ir) d (m.vm.cpu.pc + 2)
  rw [Vm.setIr_regs, real.regs, back] at linked
  have body : Label.doJal.body (m.vm.setIr ir) = .ok (doJal (m.vm.setIr ir)) := rfl
  have frame := Label.body_frame (by decide) body
  have regs : (doJal (m.vm.setIr ir)).cpu.regs =
      put s.regs d (BitVec.ofNat 16 (itemOffset items (s.index + 1))) := by
    rw [doJal, branch_regs, Vm.setIr_ir, fields, Vm.setIr_pc, back]
    exact linked
  obtain ⟨index, arrives, position⟩ := branch_running sound
  rw [vmStep_completes leads entered (by decide) body, ItemState.runItemRx, ItemState.runRx, arrives]
  refine .running (real.moved frame.mem rfl ?_ regs real.out)
  rw [locate_offset position]
  simp only [doJal, branch_pc, if_true, Vm.setIr_ir, fields, Vm.safeUpdate_ir, Vm.setIr_pc, back,
    linked]

theorem load_matches (real : Realizes items s m)
    (stored : items[s.index]? = some (.rx op d sa disp)) (leads : Dispatches m.vm decoded .doLoad)
    (entered : Label.doLoad.enter decoded = .ok (m.vm.setIr ir))
    (fields : ir.rx = { d, op := 15, sb := BitVec.ofNat 4 op.val, sa, disp := disp.word })
    (sound : ∀ last, s.runItemRx items .doLoad d sa disp.word ≠ .stopped .wrong last) :
    StepMatches items (s.runItemRx items .doLoad d sa disp.word) (vmStep (observing observe) m) := by
  have position : (m.vm.cpu.pc + 2).toNat = itemOffset items (s.index + 1) :=
    real.next_pc stored rfl rfl
  have address := computeRxEaddr_adr (m.vm.setIr ir)
  rw [Vm.setIr_ir, fields, Vm.setIr_regs, real.regs] at address
  by_cases zero : d = 0
  · have body : Label.doLoad.body (m.vm.setIr ir) = .ok ((m.vm.setIr ir).advance 2) := by
      simp only [Label.body, doLoad, Vm.setIr_ir, fields, zero, ne_eq, not_true_eq_false, if_false]
      rfl
    rw [vmStep_completes leads entered (by decide) body, ItemState.runItemRx, ItemState.runRx,
      if_pos zero]
    exact .running (real.moved rfl rfl position real.regs real.out)
  · by_cases mapped : (s.regs sa + disp.word).toNat < memWords
    · have loaded : readMem (m.vm.setIr ir).computeRxEaddr (s.regs sa + disp.word) =
          .ok (s.store (s.regs sa + disp.word).toNat) := real.read mapped
      have body : Label.doLoad.body (m.vm.setIr ir) =
          .ok (((m.vm.setIr ir).computeRxEaddr.setReg d
            (s.store (s.regs sa + disp.word).toNat)).advance 2) := by
        simp only [Label.body, doLoad, address, loaded, Vm.setIr_ir, fields, zero, ne_eq,
          not_false_eq_true, if_true]
        rfl
      have regs : put s.regs d (s.store (s.regs sa + disp.word).toNat) =
          Function.update m.vm.cpu.regs d (s.store (s.regs sa + disp.word).toNat) := by
        rw [put, if_neg zero, real.regs]
      rw [vmStep_completes leads entered (by decide) body, ItemState.runItemRx, ItemState.runRx,
        itemOperand_address, if_neg zero, if_pos mapped]
      exact .running (real.moved rfl rfl position regs.symm real.out)
    · refine absurd ?_ (sound s)
      rw [ItemState.runItemRx, ItemState.runRx, itemOperand_address, if_neg zero, if_neg mapped]

theorem store_matches (real : Realizes items s m)
    (stored : items[s.index]? = some (.rx op d sa disp)) (leads : Dispatches m.vm decoded .doStore)
    (entered : Label.doStore.enter decoded = .ok (m.vm.setIr ir))
    (fields : ir.rx = { d, op := 15, sb := BitVec.ofNat 4 op.val, sa, disp := disp.word })
    (sound : ∀ last, s.runItemRx items .doStore d sa disp.word ≠ .stopped .wrong last) :
    StepMatches items (s.runItemRx items .doStore d sa disp.word) (vmStep (observing observe) m) := by
  have position : (m.vm.cpu.pc + 2).toNat = itemOffset items (s.index + 1) :=
    real.next_pc stored rfl rfl
  have address := computeRxEaddr_adr (m.vm.setIr ir)
  rw [Vm.setIr_ir, fields, Vm.setIr_regs, real.regs] at address
  by_cases allowed : (s.regs sa + disp.word).toNat < memWords ∧
      inCode (codeLayout items) (s.regs sa + disp.word).toNat = false
  · obtain ⟨mapped, outside⟩ := allowed
    have body : Label.doStore.body (m.vm.setIr ir) =
        .ok (((m.vm.setIr ir).computeRxEaddr.setMem (Function.update m.vm.mem
          ⟨(s.regs sa + disp.word).toNat, mapped⟩ (bswap16 (s.regs d)))).advance 2) := by
      have source : (m.vm.setIr ir).computeRxEaddr.cpu.regs d = s.regs d := congrFun real.regs d
      simp only [Label.body, doStore, address, writeMem, Vm.setWord, mapped, dif_pos,
        Vm.computeRxEaddr_ir, Vm.setIr_ir, fields, source]
      rfl
    have elsewhere : ∀ index, index ≠ (s.regs sa + disp.word).toNat →
        (((m.vm.setIr ir).computeRxEaddr.setMem (Function.update m.vm.mem
          ⟨(s.regs sa + disp.word).toNat, mapped⟩ (bswap16 (s.regs d)))).advance 2).word index =
        m.vm.word index := by
      intro index different
      by_cases bound : index < memWords
      · rw [Vm.word_of_lt bound, Vm.word_of_lt bound]
        refine congrArg Except.ok (Function.update_of_ne (fun same => different ?_) _ _)
        exact congrArg Fin.val same
      · rw [Vm.word_of_le (Nat.not_lt.mp bound), Vm.word_of_le (Nat.not_lt.mp bound)]
    rw [vmStep_completes leads entered (by decide) body, ItemState.runItemRx,
      ItemState.runRx, itemOperand_address, if_pos ⟨mapped, outside⟩]
    refine .running ⟨fun index item found inst offset word within => ?_, position, real.regs,
      fun addr bound => ?_, real.out⟩
    · have apart := inCode_apart outside found inst (List.getElem?_eq_some_iff.mp within).1
      rw [elsewhere _ apart]
      exact real.code index item found inst offset word within
    · by_cases same : addr = (s.regs sa + disp.word).toNat
      · subst same
        have written : Function.update s.store (s.regs sa + disp.word).toNat (s.regs d)
            (s.regs sa + disp.word).toNat = s.regs d := Function.update_self _ _ _
        have kept : Function.update m.vm.mem ⟨(s.regs sa + disp.word).toNat, mapped⟩
            (bswap16 (s.regs d)) ⟨(s.regs sa + disp.word).toNat, mapped⟩ = bswap16 (s.regs d) :=
          Function.update_self _ _ _
        rw [Vm.word_of_lt bound]
        exact congrArg Except.ok (kept.trans (congrArg bswap16 written.symm))
      · rw [elsewhere addr same, real.store addr bound]
        exact congrArg (Except.ok ∘ bswap16) (Function.update_of_ne same _ _).symm
  · refine absurd ?_ (sound s)
    rw [ItemState.runItemRx, ItemState.runRx, itemOperand_address, if_neg allowed]

theorem rx_matches (real : Realizes items s m)
    (stored : items[s.index]? = some (.rx op d sa disp))
    (named : label = Label.rxLabels.getD op.val .doBadOp)
    (sound : ∀ last, s.runItemRx items label d sa disp.word ≠ .stopped .wrong last) :
    StepMatches items (s.runItemRx items label d sa disp.word) (vmStep (observing observe) m) := by
  have entry := rxDispatchTable_rxLabels op
  have listed := rxLabels_member op
  rw [← named] at entry listed
  obtain ⟨ir, leads, entered, fields⟩ := (real.held stored rfl).rx label entry
  have status : (m.vm.setIr ir).cpu.regs = s.regs := real.regs
  have dest : (m.vm.setIr ir).cpu.ir.rx.d = d := congrArg InstRx.d fields
  have branches := fun {taken : Bool} => @branch_matches Ctx observe m items s op d sa disp label _
    ir real stored leads entered (by rintro rfl; exact absurd listed (by decide)) fields taken
  cases label
  case doLea =>
    have position : (m.vm.cpu.pc + 2).toNat = itemOffset items (s.index + 1) :=
      real.next_pc stored rfl rfl
    have body : Label.doLea.body (m.vm.setIr ir) = .ok (doLea (m.vm.setIr ir)) := rfl
    have frame := Label.body_frame (by decide) body
    have regs : (doLea (m.vm.setIr ir)).cpu.regs = put s.regs d (s.regs sa + disp.word) := by
      by_cases zero : d = 0
      · simp only [doLea, dest, zero, ne_eq, not_true_eq_false, if_false, Vm.advance_regs, status,
          put, if_true]
      · simp only [doLea, zero, ne_eq, not_false_eq_true, if_true, Vm.advance_regs, Vm.setReg_regs,
          Vm.computeRxEaddr_regs, computeRxEaddr_adr, status, put, if_false,
          Vm.setIr_ir, fields]
    rw [vmStep_completes leads entered (by decide) body]
    exact .running (real.moved frame.mem rfl ((congrArg BitVec.toNat (doLea_pc _)).trans position)
      regs real.out)
  case doLoad => exact load_matches real stored leads entered fields sound
  case doStore => exact store_matches real stored leads entered fields sound
  case doJump => exact branches rfl sound
  case doJumpc0 =>
    refine branches ?_ sound
    rw [Label.body, Sigma16.doJumpc0, dest, status, selectBit_eq]
  case doJumpc1 =>
    refine branches ?_ sound
    rw [Label.body, Sigma16.doJumpc1, dest, status, selectBit_eq]
  case doJumpf =>
    refine branches ?_ sound
    simp only [Label.body, Sigma16.doJumpf, dest, status]
  case doJumpt =>
    refine branches ?_ sound
    simp only [Label.body, Sigma16.doJumpt, dest, status]
  case doJal => exact jal_matches real stored leads entered fields sound
  all_goals exact absurd listed (by decide)

end Rx

theorem itemStep_matches (real : Realizes items s m)
    (sound : ∀ last, itemStep items s ≠ .stopped .wrong last) :
    StepMatches items (itemStep items s) (vmStep (observing observe) m) := by
  unfold itemStep at sound ⊢
  cases stored : items[s.index]? with
  | none =>
      rw [stored] at sound
      exact absurd rfl (sound s)
  | some item =>
      rw [stored] at sound
      cases item with
      | data value => exact absurd rfl (sound s)
      | rx op d sa disp => exact rx_matches real stored rfl sound
      | rrr op d sa sb =>
          simp only [ItemState.runRrr] at sound ⊢
          split at sound
          · rename_i trap
            rw [if_pos trap]
            exact trap_matches real stored trap.symm sound
          · rename_i notTrap
            rw [if_neg notTrap]
            exact rrr_matches real stored rfl notTrap

end Realizing

section Runs

variable {Ctx : Type} {items : List Item}

theorem iterate_sound {s : ItemState} {count before : Nat}
    (sound : ∀ last, iterate (itemStep items) count s ≠ .stopped .wrong last) (earlier : before < count)
    {middle : ItemState} (reached : iterate (itemStep items) before s = .running middle)
    (last : ItemState) : itemStep items middle ≠ .stopped .wrong last := by
  intro wrong
  obtain ⟨rest, rfl⟩ : ∃ rest, count = before + (rest + 1) := ⟨count - before - 1, by omega⟩
  refine sound last ?_
  rw [iterate_add, reached, Outcome.bind_running, iterate, wrong, Outcome.bind_stopped]

theorem realizes_boot (fits : (codeWords items).length ≤ memWords) (m : Machine Ctx)
    (image : m.vm.mem = loadImage (wordBytes (codeWords items))) (cpu : m.vm.cpu = Cpu.zero)
    (silent : m.out = []) : Realizes items (ItemState.boot items) m := by
  have bytes : (wordBytes (codeWords items)).length ≤ memBytes := by
    rw [length_wordBytes]
    simp only [memWords] at fits
    omega
  have held := Vm.Holds.of_image bytes image
  refine ⟨fun index item stored _ => held.item stored, by rw [cpu]; rfl, by rw [cpu]; rfl,
    fun addr mapped => ?_, silent⟩
  cases stored : (codeWords items)[addr]? with
  | some word =>
      have value : (ItemState.boot items).store addr = word := by
        simp only [ItemState.boot, List.getD_eq_getElem?_getD, stored, Option.getD_some]
      rw [value, ← held addr word stored, Nat.zero_add]
  | none =>
      have beyond := List.getElem?_eq_none_iff.mp stored
      have even : (wordBytes (codeWords items))[2 * addr]? = none := by
        rw [wordBytes_even, stored]
        rfl
      have odd : (wordBytes (codeWords items))[2 * addr + 1]? = none := by
        rw [wordBytes_odd, stored]
        rfl
      rw [Vm.word_of_lt mapped, image, loadImage, ItemState.boot]
      simp only [List.getD_eq_getElem?_getD, even, odd, stored, Option.getD_none]
      decide

theorem image_loads (fits : (codeWords items).length ≤ memWords) :
    sigma16VmInit (wordBytes (codeWords items)) =
      .ok ⟨Cpu.zero, loadImage (wordBytes (codeWords items))⟩ := by
  refine if_pos ?_
  rw [length_wordBytes]
  simp only [memWords] at fits
  omega

theorem run_matches {observe : TraceEvent → Vm → Ctx → Ctx} {s : ItemState} {m : Machine Ctx}
    (real : Realizes items s m) (count : Nat)
    (sound : ∀ last, iterate (itemStep items) count s ≠ .stopped .wrong last) :
    (iterate (itemStep items) count s).Matches
      (fun reason stop => reason = .halted ∧ stop = .returned 0) (Realizes items)
      (iterate (vmStep (observing observe)) count m) := by
  have each : ∀ (s : ItemState) (m : Machine Ctx), Realizes items s m →
      (∀ last, itemStep items s ≠ .stopped .wrong last) →
      StepMatches items (itemStep items s) (vmStep (observing observe) m) :=
    fun s m real sound => itemStep_matches real sound
  exact iterate_matches _ each real count
    fun before earlier middle reached => iterate_sound sound earlier reached

/-- The emulator on the image of a program: for as long as the program does not go wrong,
its run and the emulator's go on together, halt together, and agree in the registers, the
memory and the output. -/
theorem image_simulation (observe : TraceEvent → Vm → Ctx → Ctx) (ctx : Ctx)
    (fits : (codeWords items).length ≤ memWords) (count : Nat)
    (sound : ∀ last, iterate (itemStep items) count (.boot items) ≠ .stopped .wrong last) :
    ∃ start, sigma16VmInit (writeCode (items.map Item.obj)).1 = .ok start ∧
      (iterate (itemStep items) count (.boot items)).Matches
        (fun reason stop => reason = .halted ∧ stop = .returned 0) (Realizes items)
        (vmExec (observing observe) count { vm := start, ctx, out := [] }) := by
  rw [writeCode_items]
  exact ⟨_, image_loads fits, run_matches (realizes_boot fits _ rfl rfl rfl) count sound⟩

end Runs

theorem image_simulation_halt :
    ∃ start last, sigma16VmInit (writeCode ([Item.rrr 0 1 0 0, .rrr 13 0 0 0].map Item.obj)).1 =
        .ok start ∧
      vmExec (observing fun _ _ ctx => ctx) 2 { vm := start, ctx := (), out := [] } =
        .stopped (.returned 0) last ∧ last.vm.cpu.regs 15 = 0xC700 := by
  have halts : ∃ last, iterate (itemStep [.rrr 0 1 0 0, .rrr 13 0 0 0]) 2
      (.boot [.rrr 0 1 0 0, .rrr 13 0 0 0]) = .stopped .halted last ∧ last.regs 15 = 0xC700 :=
    ⟨_, rfl, rfl⟩
  obtain ⟨last, halts, flags⟩ := halts
  obtain ⟨start, loaded, matched⟩ := @image_simulation Unit [.rrr 0 1 0 0, .rrr 13 0 0 0]
    (fun _ _ ctx => ctx) () (by decide) 2 (by rw [halts]; simp)
  rw [halts] at matched
  obtain ⟨_, final, run, ⟨_, rfl⟩, real⟩ := matched.of_stopped
  exact ⟨start, final, loaded, run, (congrFun real.regs 15).trans flags⟩

end Sigma16

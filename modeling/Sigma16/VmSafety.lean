import Sigma16.VmFrame

/-!
Where the emulator leaves its tables and its memory. The state before a step
tells exactly whether its computed gotos and its accesses stay inside.
-/

namespace Sigma16

open Words Transition

section Gotos

variable {Ctx : Type}

theorem expDispatchTable_none (index : Nat) : expDispatchTable[index]? = none ↔ index ≠ 0 := by
  cases index <;> simp [expDispatchTable]

theorem dispatch_mapped {vm : Vm} {head : Word} (fetched : vm.word vm.cpu.pc.toNat = .ok head)
    (second : nibble head 1 = 14 ∨ nibble head 1 = 15 →
      ∃ tail, vm.word (vm.cpu.pc.toNat + 1) = .ok tail)
    (known : nibble head 1 = 14 → vm.word (vm.cpu.pc.toNat + 1) = .ok 0) :
    ∃ decoded label, dispatch vm = .ok (decoded, label) := by
  cases dispatched : dispatch vm with
  | ok found => exact ⟨found.1, found.2, rfl⟩
  | error stop =>
      cases dispatch_eq_error.mp dispatched with
      | fetch failed => simp [fetched] at failed
      | second fetched' opcode failed =>
          obtain rfl : head = _ := by simpa [fetched] using fetched'
          obtain ⟨tail, read⟩ := second opcode
          simp [read] at failed
      | exp fetched' opcode read outside =>
          obtain rfl : head = _ := by simpa [fetched] using fetched'
          rw [known opcode] at read
          obtain rfl := Except.ok.inj read
          simp [expDispatchTable] at outside

/-- Every computed goto stays inside its table, and every fetched word runs or is
refused, exactly when no EXP0 instruction has a second word other than 0. -/
theorem computed_gotos (trace : TraceHandler Ctx) (m : Machine Ctx) :
    ((∀ index, dispatch m.vm ≠ .error (.wildGoto index)) ∧
      ∀ head, m.vm.word m.vm.cpu.pc.toNat = .ok head →
        (nibble head 1 = 14 ∨ nibble head 1 = 15 →
          ∃ tail, m.vm.word (m.vm.cpu.pc.toNat + 1) = .ok tail) →
        ∃ decoded label, dispatch m.vm = .ok (decoded, label) ∧
          (label = .doBadOp → vmStep trace m =
            .stopped (.returned (-1)) { m with vm := decoded })) ↔
    ∀ head tail, m.vm.word m.vm.cpu.pc.toNat = .ok head → nibble head 1 = 14 →
      m.vm.word (m.vm.cpu.pc.toNat + 1) = .ok tail → tail = 0 := by
  constructor
  · rintro ⟨inside, _⟩ head tail fetched opcode second
    by_contra nonzero
    have outside : expDispatchTable[tail.toNat]? = none :=
      (expDispatchTable_none _).mpr fun zero => nonzero (BitVec.eq_of_toNat_eq zero)
    exact inside _ (dispatch_eq_error.mpr (.exp fetched opcode second outside))
  · intro known
    constructor
    · intro index failed
      cases dispatch_eq_error.mp failed with
      | fetch unmapped => exact absurd (Vm.word_eq_error.mp unmapped).2 (by simp)
      | second _ _ unmapped => exact absurd (Vm.word_eq_error.mp unmapped).2 (by simp)
      | exp fetched opcode second outside =>
          obtain rfl := known _ _ fetched opcode second
          simp [expDispatchTable] at outside
    · intro head fetched second
      obtain ⟨decoded, label, dispatched⟩ := dispatch_mapped fetched second fun opcode => by
        obtain ⟨tail, read⟩ := second (.inl opcode)
        rwa [known _ _ fetched opcode read] at read
      refine ⟨decoded, label, dispatched, ?_⟩
      rintro rfl
      simp [vmStep, dispatched, Machine.attempt, runLabel]

/-- The words E000 0001: the only table index in range is 0. -/
theorem computed_gotos_fails :
    ¬ ∀ m : Machine Unit, ∀ index, dispatch m.vm ≠ .error (.wildGoto index) := by
  intro inside
  exact inside (Machine.boot [0xE0, 0x00, 0x00, 0x01]) 256 (by rfl)

end Gotos

theorem memWords_eq : memWords = 32768 := rfl

/-- The addresses a step needs, read off the state before it: two words for an
instruction of two words, and the data of LOAD, STORE and the write loop of TRAP. -/
structure AddressesMapped (vm : Vm) : Prop where
  fetch : vm.cpu.pc.toNat < memWords
  second : ∀ head, vm.word vm.cpu.pc.toNat = .ok head →
    nibble head 1 = 14 ∨ nibble head 1 = 15 → vm.cpu.pc.toNat + 1 < memWords
  trap : ∀ head, vm.word vm.cpu.pc.toNat = .ok head → nibble head 1 = 13 →
    vm.cpu.regs (nibble head 0) = 2 → vm.cpu.regs (nibble head 2) ≠ 0 →
    (vm.cpu.regs (nibble head 3)).toNat + (vm.cpu.regs (nibble head 2)).toNat ≤ memWords
  data : ∀ head tail, vm.word vm.cpu.pc.toNat = .ok head → nibble head 1 = 15 →
    nibble head 2 = 1 ∧ nibble head 0 ≠ 0 ∨ nibble head 2 = 2 →
    vm.word (vm.cpu.pc.toNat + 1) = .ok tail →
    (vm.cpu.regs (nibble head 3) + bswap16 tail).toNat < memWords

namespace AddressesMapped

variable {vm : Vm} {head tail : Word}

theorem of_primary (fetched : vm.word vm.cpu.pc.toNat = .ok head) (notExp : nibble head 1 ≠ 14)
    (notRx : nibble head 1 ≠ 15) :
    AddressesMapped vm ↔ (nibble head 1 = 13 → vm.cpu.regs (nibble head 0) = 2 →
      vm.cpu.regs (nibble head 2) ≠ 0 →
      (vm.cpu.regs (nibble head 3)).toNat + (vm.cpu.regs (nibble head 2)).toNat ≤ memWords) := by
  refine ⟨fun mapped => mapped.trap head fetched, fun range => ?_⟩
  refine ⟨Vm.word_ok_lt fetched, ?_, ?_, ?_⟩ <;> intro head' <;> rw [fetched]
  · rintro ⟨⟩ (opcode | opcode)
    · exact absurd opcode notExp
    · exact absurd opcode notRx
  · rintro ⟨⟩
    exact range
  · rintro tail ⟨⟩ opcode
    exact absurd opcode notRx

theorem of_exp (fetched : vm.word vm.cpu.pc.toNat = .ok head) (opcode : nibble head 1 = 14)
    (second : vm.word (vm.cpu.pc.toNat + 1) = .ok tail) : AddressesMapped vm := by
  refine ⟨Vm.word_ok_lt fetched, fun _ _ _ => Vm.word_ok_lt second, ?_, ?_⟩ <;> intro head' <;>
    rw [fetched]
  · rintro ⟨⟩ trap
    simp [opcode] at trap
  · rintro tail ⟨⟩ rx
    simp [opcode] at rx

theorem of_rx (fetched : vm.word vm.cpu.pc.toNat = .ok head) (opcode : nibble head 1 = 15)
    (second : vm.word (vm.cpu.pc.toNat + 1) = .ok tail) :
    AddressesMapped vm ↔ (nibble head 2 = 1 ∧ nibble head 0 ≠ 0 ∨ nibble head 2 = 2 →
      (vm.cpu.regs (nibble head 3) + bswap16 tail).toNat < memWords) := by
  refine ⟨fun mapped accesses => mapped.data head tail fetched opcode accesses second,
    fun data => ⟨Vm.word_ok_lt fetched, fun _ _ _ => Vm.word_ok_lt second, ?_, ?_⟩⟩ <;>
    intro head' <;> rw [fetched]
  · rintro ⟨⟩ trap
    simp [opcode] at trap
  · rw [second]
    rintro tail' ⟨⟩ _ accesses ⟨⟩
    exact data accesses

end AddressesMapped

section Tables

theorem dispatchTable_inst {op : Nibble} {label : Label}
    (entry : dispatchTable[op.toNat]? = some (.inst label)) :
    label ≠ .doLoad ∧ label ≠ .doStore ∧ label ≠ .doBadOp ∧ op ≠ 14 ∧ op ≠ 15 := by
  have member := List.mem_of_getElem? entry
  refine ⟨?_, ?_, ?_, ?_, ?_⟩ <;> rintro rfl <;> simp [dispatchTable] at member entry

theorem rxDispatchTable_load : ∀ sb : Nibble,
    rxDispatchTable[sb.toNat]? = some .doLoad ↔ sb = 1 := by
  decide

theorem rxDispatchTable_store : ∀ sb : Nibble,
    rxDispatchTable[sb.toNat]? = some .doStore ↔ sb = 2 := by
  decide

end Tables

theorem trapRange_mapped (addr count : Word) :
    (∀ j < count.toNat, (addr + BitVec.ofNat 16 j).toNat < memWords) ↔
      (count ≠ 0 → addr.toNat + count.toNat ≤ memWords) := by
  have addrBound := addr.isLt
  have countBound := count.isLt
  simp only [memWords_eq, BitVec.toNat_add, BitVec.toNat_ofNat]
  constructor
  · intro inside nonzero
    have positive : 0 < count.toNat :=
      Nat.pos_of_ne_zero fun zero => nonzero (BitVec.eq_of_toNat_eq zero)
    by_contra beyond
    have first := inside 0 positive
    have edge := inside (32768 - addr.toNat) (by omega)
    omega
  · intro inside j bound
    have nonzero : count ≠ 0 := by
      rintro rfl
      simp at bound
    have range := inside nonzero
    omega

section Faults

variable {Ctx : Type} {observe : TraceEvent → Vm → Ctx → Ctx} {m : Machine Ctx}

def Faults (trace : TraceHandler Ctx) (m : Machine Ctx) : Prop :=
  ∃ byte next, vmStep trace m = .stopped (.unmapped byte) next

theorem trapWriteFrom_faults {addr : Word} {count i : Nat} :
    (∃ byte next, trapWriteFrom addr count i m = .stopped (.unmapped byte) next) ↔
      ¬ ∀ j, i ≤ j → j < i + count → (addr + BitVec.ofNat 16 j).toNat < memWords := by
  constructor
  · rintro ⟨byte, next, run⟩ inside
    obtain ⟨j, lower, upper, outside, _⟩ := trapWriteFrom_stopped run
    have mapped := inside j lower upper
    omega
  · intro outside
    cases run : trapWriteFrom addr count i m with
    | running next => exact absurd (trapWriteFrom_completed run) outside
    | stopped stop next =>
        obtain ⟨j, _, _, _, rfl⟩ := trapWriteFrom_stopped run
        exact ⟨_, next, rfl⟩

theorem doTrap_faults :
    (∃ byte next, doTrap (observing observe) m = .stopped (.unmapped byte) next) ↔
      m.vm.cpu.regs m.vm.cpu.ir.rrr.d = 2 ∧ ¬ (m.vm.cpu.regs m.vm.cpu.ir.rrr.sb ≠ 0 →
        (m.vm.cpu.regs m.vm.cpu.ir.rrr.sa).toNat + (m.vm.cpu.regs m.vm.cpu.ir.rrr.sb).toNat ≤
          memWords) := by
  simp only [doTrap]
  by_cases halts : m.vm.cpu.regs m.vm.cpu.ir.rrr.d = 0
  · have exits : m.vm.cpu.regs m.vm.cpu.ir.rrr.d ≠ 2 := by
      rw [halts]
      decide
    simp only [if_pos halts, exits, false_and, endHotloop, traced_observing, Outcome.stopped.injEq,
      reduceCtorEq, exists_false]
  · by_cases writes : m.vm.cpu.regs m.vm.cpu.ir.rrr.d = 2
    · rw [← trapRange_mapped]
      have loop := @trapWriteFrom_faults _ m (m.vm.cpu.regs m.vm.cpu.ir.rrr.sa)
        (m.vm.cpu.regs m.vm.cpu.ir.rrr.sb).toNat 0
      simp only [Nat.zero_le, Nat.zero_add, true_implies] at loop
      rw [if_neg halts, if_pos writes, ← loop, trapWrite]
      simp only [writes, true_and]
      generalize trapWriteFrom (m.vm.cpu.regs m.vm.cpu.ir.rrr.sa)
        (m.vm.cpu.regs m.vm.cpu.ir.rrr.sb).toNat 0 m = outcome
      cases outcome <;> simp [Machine.set]
    · rw [if_neg halts, if_neg writes]
      simp only [writes, false_and, Outcome.bind_running, Machine.set, reduceCtorEq, exists_false]

variable {decoded seen : Vm} {label : Label}

theorem plain_faults (leads : Dispatches m.vm decoded label)
    (entered : label.enter decoded = .ok seen) (notTrap : label ≠ .doTrap)
    (valid : label ≠ .doBadOp) :
    Faults (observing observe) m ↔ (label = .doLoad ∧ seen.cpu.ir.rx.d ≠ 0 ∨ label = .doStore) ∧
      memWords ≤ (seen.cpu.regs seen.cpu.ir.rx.sa + seen.cpu.ir.rx.disp).toNat := by
  unfold Faults
  rw [vmStep_plain leads entered notTrap valid, ← computeRxEaddr_adr]
  constructor
  · rintro ⟨byte, next, run⟩
    cases ran : label.body seen with
    | ok after => simp [Machine.attempt, ran, Machine.set] at run
    | error stop =>
        obtain ⟨accesses, outside, _⟩ := (Label.body_eq_error valid).mp ran
        exact ⟨accesses, outside⟩
  · rintro ⟨accesses, outside⟩
    exact ⟨_, _, by rw [(Label.body_eq_error valid).mpr ⟨accesses, outside, rfl⟩]; rfl⟩

theorem Dispatches.faults (leads : Dispatches m.vm decoded label) :
    Faults (observing observe) m ↔ ¬ AddressesMapped m.vm := by
  obtain ⟨head, ir, fetched, entered, _, filled, _⟩ := leads.enters
  cases leads with
  | inst fetched' entry =>
      obtain rfl := Except.ok.inj (fetched.symm.trans fetched')
      obtain ⟨notLoad, notStore, valid, notExp, notRx⟩ := dispatchTable_inst entry
      rw [AddressesMapped.of_primary fetched notExp notRx]
      by_cases trap : label = .doTrap
      · subst label
        have opcode := (dispatchTable_trap _).mp entry
        obtain rfl := filled (by decide)
        have loop := @doTrap_faults _ observe { m with
          vm := m.vm.setIr ir, ctx := observe .instRrr (m.vm.setIr ir) m.ctx }
        unfold Faults
        rw [vmStep_trap (.inst fetched entry) entered, loop]
        simp only [opcode, true_implies, Classical.not_imp]
        rfl
      · rw [plain_faults (.inst fetched entry) entered trap valid]
        have opcode : nibble head 1 ≠ 13 := fun same => trap (Target.inst.inj (Option.some.inj
          (entry.symm.trans ((dispatchTable_trap _).mpr same))))
        exact iff_of_false (fun faults => faults.1.elim (fun load => notLoad load.1) notStore)
          (not_not.mpr fun same => absurd same opcode)
  | exp fetched' opcode second entry =>
      obtain rfl : label = .doRfi := by simpa [expDispatchTable] using List.mem_of_getElem? entry
      rw [plain_faults (.exp fetched' opcode second entry) entered (by decide) (by decide)]
      have mapped := AddressesMapped.of_exp fetched' opcode second
      simp [mapped]
  | rx fetched' opcode second entry =>
      rw [AddressesMapped.of_rx fetched' opcode second, ← rxDispatchTable_load,
        ← rxDispatchTable_store, entry]
      by_cases bad : label = .doBadOp
      · subst label
        unfold Faults
        rw [vmStep_badOp (.rx fetched' opcode second entry)]
        simp
      · have member := List.mem_of_getElem? entry
        have notTrap : label ≠ .doTrap := by
          rintro rfl
          simp [rxDispatchTable] at member
        have ready := Label.enter_of_stale (Label.refills_of_secondary member)
        rw [plain_faults (.rx fetched' opcode second entry) (ready _) notTrap bad, Classical.not_imp,
          Nat.not_lt]
        simp only [Option.some.injEq]
        rfl

theorem vmStep_faults : Faults (observing observe) m ↔ ¬ AddressesMapped m.vm := by
  cases dispatched : dispatch m.vm with
  | ok found => exact (dispatch_eq_ok.mp dispatched).faults
  | error stop =>
      have fails := dispatch_eq_error.mp dispatched
      unfold Faults
      rw [vmStep_misdispatch fails]
      cases fails with
      | fetch failed =>
          obtain ⟨outside, rfl⟩ := Vm.word_eq_error.mp failed
          refine iff_of_true ⟨_, _, rfl⟩ fun mapped => ?_
          have fetch := mapped.fetch
          omega
      | second fetched opcode failed =>
          obtain ⟨outside, rfl⟩ := Vm.word_eq_error.mp failed
          refine iff_of_true ⟨_, _, rfl⟩ fun mapped => ?_
          have second := mapped.second _ fetched opcode
          omega
      | exp fetched opcode second outside =>
          refine iff_of_false (by simp) (not_not.mpr ?_)
          exact AddressesMapped.of_exp fetched opcode second

theorem sigma16VmInit_fits {executable : List Byte} :
    (∀ byte, sigma16VmInit executable ≠ .error (.unmapped byte)) ↔
      executable.length ≤ memBytes := by
  unfold sigma16VmInit
  split
  · rename_i fits
    simp [fits]
  · rename_i tooLong
    simp [tooLong]

/-- A run stays inside the mapping exactly when the image fits and every state of the
run keeps `pc` and the addresses its instruction computes below 0x8000. -/
theorem memory_safety (observe : TraceEvent → Vm → Ctx → Ctx) (executable : List Byte)
    (ctx : Ctx) :
    ((∀ byte, sigma16VmInit executable ≠ .error (.unmapped byte)) ∧
      ∀ m, Reachable (observing observe) executable ctx m → ¬ Faults (observing observe) m) ↔
    executable.length ≤ memBytes ∧
      ∀ m, Reachable (observing observe) executable ctx m → AddressesMapped m.vm := by
  simp only [vmStep_faults, not_not, sigma16VmInit_fits]

/-- `store R0,8000[R0]` as the whole program: its word lies just past the mapping. -/
theorem memory_safety_fails :
    ¬ ∀ executable : List Byte, executable.length ≤ memBytes →
      ∀ m, Reachable (observing fun _ _ ctx => ctx) executable () m →
        ¬ Faults (observing fun _ _ ctx => ctx) m := by
  intro safe
  have reached : Reachable (observing fun _ _ ctx => ctx) [0xF0, 0x02, 0x80, 0x00] ()
      (Machine.boot [0xF0, 0x02, 0x80, 0x00]) := .intro rfl rfl (.refl _)
  exact safe _ (by decide) _ reached ⟨65536, _, rfl⟩

end Faults

end Sigma16

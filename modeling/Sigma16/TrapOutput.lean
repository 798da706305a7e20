import Sigma16.AssemblerRange

/-!
TRAP 2 on data the assembler wrote: the numbers of a run of DATA lines, from the objects to
the bytes that go to `stdout`.
-/

namespace Sigma16

open Words Transition

def constant (value : Signed16) : Obj := .num value.val

def Signed16.byte (value : Signed16) : Byte := BitVec.ofInt 8 value.val

theorem Signed16.lowByte_word (value : Signed16) : lowByte value.word = value.byte := by
  apply BitVec.eq_of_toNat_eq
  simp only [lowByte, word, byte, BitVec.extractLsb'_toNat, BitVec.toNat_ofInt]
  omega

section Data

variable {before after : List Obj} {values : List Signed16}

theorem codeWords_constants (values : List Signed16) :
    codeWords (values.map Item.data) = values.map Signed16.word := by
  induction values with
  | nil => rfl
  | cons value values ih => exact congrArg (value.word :: ·) ih

theorem writeCode_constants (rest : List Obj) :
    (writeCode (values.map constant ++ rest)).1 =
      wordBytes (values.map Signed16.word) ++ (writeCode rest).1 := by
  have items : values.map constant = (values.map Item.data).map Item.obj := by
    rw [List.map_map]
    rfl
  rw [items, writeCode_append, codeWords_constants]

theorem constants_loaded {vm : Vm} (packed : (writeCode before).2 = none)
    (loaded : sigma16VmInit (writeCode (before ++ (values.map constant ++ after))).1 = .ok vm) :
    vm.Holds (before.map sizeof).sum (values.map Signed16.word) := by
  rw [writeCode_join packed, writeCode_constants] at loaded
  unfold sigma16VmInit at loaded
  split at loaded
  · rename_i fits
    obtain rfl := Except.ok.inj loaded
    have size := writeCode_length packed
    apply Vm.Carries.holds
    intro offset byte stored
    have bound := (List.getElem?_eq_some_iff.mp stored).1
    have image : Vm.Carries { cpu := Cpu.zero, mem := loadImage _ } 0 _ := .of_image fits rfl
    have carried := image (2 * (before.map sizeof).sum + offset) byte (by
      rw [List.getElem?_append_right (by omega), size, Nat.add_sub_cancel_left,
        List.getElem?_append_left bound, stored])
    rwa [Nat.mul_zero, Nat.zero_add] at carried
  · cases loaded

end Data

section Run

variable {Ctx : Type} {observe : TraceEvent → Vm → Ctx → Ctx} {m : Machine Ctx}

theorem vmStep_trapWrite {d sa sb : Register}
    (held : m.vm.Holds m.vm.cpu.pc.toNat (Item.rrr ⟨13, by decide⟩ d sa sb).words)
    (write : m.vm.cpu.regs d = 2)
    (mapped : ∀ j < (m.vm.cpu.regs sb).toNat,
      (m.vm.cpu.regs sa + BitVec.ofNat 16 j).toNat < memWords) :
    ∃ ir written ctx, vmStep (observing observe) m =
        .running { vm := ((m.vm.setIr ir).advance 1).clearFlags, ctx, out := m.out ++ written } ∧
      written.length = (m.vm.cpu.regs sb).toNat ∧ ∀ j, (bound : j < written.length) →
        (readMem m.vm (m.vm.cpu.regs sa + BitVec.ofNat 16 j)).map lowByte = .ok written[j] := by
  obtain ⟨ir, leads, entered, decoded⟩ := @Vm.Holds.rrr _ _ _ _ _ .doTrap held rfl
  have fields := decoded (by decide)
  have dest : (m.vm.setIr ir).cpu.ir.rrr.d = d := congrArg InstRrr.d fields
  have source : (m.vm.setIr ir).cpu.ir.rrr.sa = sa := congrArg InstRrr.sa fields
  have count : (m.vm.setIr ir).cpu.ir.rrr.sb = sb := congrArg InstRrr.sb fields
  obtain ⟨written, run, length, bytes⟩ := @trapWriteFrom_mapped Ctx
    { m with vm := m.vm.setIr ir, ctx := observe .instRrr (m.vm.setIr ir) m.ctx }
    (m.vm.cpu.regs sa) (m.vm.cpu.regs sb).toNat 0
    (fun j _ upper => mapped j (by rwa [Nat.zero_add] at upper))
  refine ⟨ir, written, observe .instRrr (m.vm.setIr ir) m.ctx, ?_, length, fun j bound => ?_⟩
  · have code : (m.vm.setIr ir).cpu.regs (m.vm.setIr ir).cpu.ir.rrr.d = 2 := by
      rw [dest]
      exact write
    have nonzero : (m.vm.setIr ir).cpu.regs (m.vm.setIr ir).cpu.ir.rrr.d ≠ 0 := by
      rw [code]
      decide
    rw [vmStep_trap leads entered, doTrap, if_neg nonzero, if_pos code, trapWrite, source, count]
    exact congrArg (Outcome.bind · _) run
  · have found := bytes j bound
    rwa [Nat.zero_add] at found

theorem readMem_constant {image : Vm} {start j : Nat} {values : List Signed16} {value : Signed16}
    (placed : image.Holds start (values.map Signed16.word))
    (kept : ∀ index < values.length, m.vm.word (start + index) = image.word (start + index))
    (stored : values[j]? = some value) :
    (BitVec.ofNat 16 start + BitVec.ofNat 16 j).toNat < memWords ∧
      readMem m.vm (BitVec.ofNat 16 start + BitVec.ofNat 16 j) = .ok value.word := by
  have found : image.word (start + j) = .ok (bswap16 value.word) :=
    placed j value.word (by rw [List.getElem?_map, stored]; rfl)
  have mapped := Vm.word_ok_lt found
  have position : (BitVec.ofNat 16 start + BitVec.ofNat 16 j).toNat = start + j := by
    simp only [memWords, memBytes] at mapped
    rw [BitVec.toNat_add, BitVec.toNat_ofNat, BitVec.toNat_ofNat]
    omega
  have same := kept j (List.getElem?_eq_some_iff.mp stored).1
  rw [readMem, position, same, found, Except.map, bswap16_bswap16]
  exact ⟨mapped, rfl⟩

end Run

/-- TRAP 2 on a loaded run of numbers writes the first of them modulo 256, in order, and
changes nothing else but R15, which it clears. -/
theorem trap_writes_constants {Ctx : Type} {observe : TraceEvent → Vm → Ctx → Ctx}
    {m : Machine Ctx} {image : Vm} {before after : List Obj} {values : List Signed16}
    {d sa sb : Register} (packed : (writeCode before).2 = none)
    (loaded : sigma16VmInit (writeCode (before ++ (values.map constant ++ after))).1 = .ok image)
    (kept : ∀ index < values.length, m.vm.word ((before.map sizeof).sum + index) =
      image.word ((before.map sizeof).sum + index))
    (held : m.vm.Holds m.vm.cpu.pc.toNat (Item.rrr ⟨13, by decide⟩ d sa sb).words)
    (write : m.vm.cpu.regs d = 2)
    (start : m.vm.cpu.regs sa = BitVec.ofNat 16 (before.map sizeof).sum)
    (count : (m.vm.cpu.regs sb).toNat ≤ values.length) :
    ∃ next, vmStep (observing observe) m = .running next ∧
      next.out = m.out ++ (values.take (m.vm.cpu.regs sb).toNat).map Signed16.byte ∧
      next.vm.mem = m.vm.mem ∧
      next.vm.cpu.regs = Function.update m.vm.cpu.regs 15 0 ∧
      next.vm.cpu.pc.toNat = m.vm.cpu.pc.toNat + 1 := by
  have placed := constants_loaded packed loaded
  have reads : ∀ j < (m.vm.cpu.regs sb).toNat, ∃ value, values[j]? = some value ∧
      (m.vm.cpu.regs sa + BitVec.ofNat 16 j).toNat < memWords ∧
      readMem m.vm (m.vm.cpu.regs sa + BitVec.ofNat 16 j) = .ok value.word := by
    intro j bound
    have inside : j < values.length := by omega
    rw [start]
    exact ⟨values[j], List.getElem?_eq_getElem inside,
      readMem_constant placed kept (List.getElem?_eq_getElem inside)⟩
  obtain ⟨ir, written, ctx, run, length, bytes⟩ := @vmStep_trapWrite _ observe _ _ _ _ held write
    fun j bound => (reads j bound).choose_spec.2.1
  have output : written = (values.take (m.vm.cpu.regs sb).toNat).map Signed16.byte := by
    apply List.ext_getElem
    · rw [length, List.length_map, List.length_take, Nat.min_eq_left count]
    · intro j bound _
      obtain ⟨value, stored, _, read⟩ := reads j (by rwa [← length])
      have byte := bytes j bound
      rw [read, Except.map, Signed16.lowByte_word, Except.ok.injEq] at byte
      obtain ⟨_, same⟩ := List.getElem?_eq_some_iff.mp stored
      rw [← byte, List.getElem_map, List.getElem_take, same]
  have mapped := Vm.word_ok_lt (held 0 _ rfl)
  refine ⟨_, run, by rw [output], rfl, rfl, ?_⟩
  simp only [memWords, memBytes] at mapped
  change (m.vm.cpu.pc + 1).toNat = m.vm.cpu.pc.toNat + 1
  bv_omega

theorem trap_writes_constants_two : ∃ next,
    vmStep (observing fun _ _ ctx => ctx)
      ⟨⟨{ Cpu.zero with regs := fun reg => if reg = 1 then 2 else if reg = 2 then 1 else
          if reg = 3 then 2 else 0 }, loadImage [0xD1, 0x23, 0x00, 0x48, 0xFF, 0x69]⟩, (), []⟩ =
        .running next ∧
      next.out = [72, 105] ∧ next.vm.cpu.pc.toNat = 1 := by
  have loaded : sigma16VmInit (writeCode [.rrr 13 1 2 3, .num 72, .num (-151)]).1 =
      .ok ⟨Cpu.zero, loadImage [0xD1, 0x23, 0x00, 0x48, 0xFF, 0x69]⟩ := by
    have image : (writeCode [.rrr 13 1 2 3, .num 72, .num (-151)]).1 =
        [0xD1, 0x23, 0x00, 0x48, 0xFF, 0x69] := by decide
    rw [image]
    rfl
  have words : Vm.Holds ⟨{ Cpu.zero with regs := fun reg => if reg = 1 then 2 else
      if reg = 2 then 1 else if reg = 3 then 2 else 0 },
      loadImage [0xD1, 0x23, 0x00, 0x48, 0xFF, 0x69]⟩ 0
      (codeWords [.rrr ⟨13, by decide⟩ 1 2 3, .data ⟨72, by decide⟩, .data ⟨-151, by decide⟩]) :=
    .of_image (by decide) rfl
  obtain ⟨next, run, out, _, _, advanced⟩ := @trap_writes_constants Unit (fun _ _ ctx => ctx)
    ⟨⟨{ Cpu.zero with regs := fun reg => if reg = 1 then 2 else if reg = 2 then 1 else
      if reg = 3 then 2 else 0 }, loadImage [0xD1, 0x23, 0x00, 0x48, 0xFF, 0x69]⟩, (), []⟩ _
    [.rrr 13 1 2 3] [] [⟨72, by decide⟩, ⟨-151, by decide⟩] 1 2 3 (by decide) loaded
    (fun _ _ => rfl) (@Vm.Holds.item _ _ 0 _ words rfl) rfl rfl (by decide)
  exact ⟨next, run, out, advanced⟩

end Sigma16

import Sigma16.VmStep

/-!
The address register. `adr` is set where the effective address is computed: not at all for
a LEA or LOAD into R0, whose `SAFE_UPDATE` skips the call, and late for a JAL.
-/

namespace Sigma16

open Words Transition

def Vm.effectiveAddress (vm : Vm) : Word := vm.cpu.regs vm.cpu.ir.rx.sa + vm.cpu.ir.rx.disp

/-- LEA, LOAD, STORE, JUMP, JAL, and the conditional jumps that are taken. -/
def Label.usesAddress (label : Label) (vm : Vm) : Bool :=
  match label with
  | doLea | doLoad | doStore => true
  | _ => label.taken vm

def Vm.usedAddress (vm : Vm) : Option Word :=
  match dispatch vm with
  | .ok (decoded, label) =>
      if label.usesAddress decoded then some decoded.effectiveAddress else none
  | .error _ => none

/-- No LEA or LOAD into R0, unless `adr` holds its address already, and no JAL whose link
register is the base of its target, unless it holds the return address already. -/
def Vm.KeepsAddress (vm : Vm) : Prop :=
  ∀ decoded label, Dispatches vm decoded label →
    (label = .doLea ∨ label = .doLoad →
      decoded.cpu.ir.rx.d ≠ 0 ∨ vm.cpu.adr = decoded.effectiveAddress) ∧
    (label = .doJal → decoded.cpu.ir.rx.d = 0 ∨ decoded.cpu.ir.rx.d ≠ decoded.cpu.ir.rx.sa ∨
      vm.cpu.regs decoded.cpu.ir.rx.sa = vm.cpu.pc + 2)

inductive KeepingRun {Ctx : Type} (observe : TraceEvent → Vm → Ctx → Ctx) (first : Machine Ctx) :
    Machine Ctx → Option Word → Prop
  | refl : KeepingRun observe first first none
  | next {m next used} : KeepingRun observe first m used → m.vm.KeepsAddress →
      vmStep (observing observe) m = .running next →
      KeepingRun observe first next (m.vm.usedAddress.or used)

section Bodies

variable {vm after : Vm} {label : Label}

def Label.leftAddress (label : Label) (vm : Vm) : Word :=
  match label with
  | doLea | doLoad => if vm.cpu.ir.rx.d ≠ 0 then vm.effectiveAddress else vm.cpu.adr
  | doJal => (vm.safeUpdate vm.cpu.ir.rx.d (vm.cpu.pc + 2)).effectiveAddress
  | _ => vm.effectiveAddress

theorem computeRxEaddr_effective (vm : Vm) : vm.computeRxEaddr.cpu.adr = vm.effectiveAddress :=
  computeRxEaddr_adr vm

@[simp] theorem Vm.safeUpdate_adr (vm : Vm) (dst : Nibble) (val : Word) :
    (vm.safeUpdate dst val).cpu.adr = vm.cpu.adr := by
  unfold safeUpdate
  split <;> rfl

@[simp] theorem Vm.advance_adr (vm : Vm) (words : Word) : (vm.advance words).cpu.adr = vm.cpu.adr := rfl

@[simp] theorem Vm.clearFlags_adr (vm : Vm) : vm.clearFlags.cpu.adr = vm.cpu.adr := rfl

@[simp] theorem Vm.setFlag_adr (vm : Vm) (flag : Flag) (val : Bool) :
    (vm.setFlag flag val).cpu.adr = vm.cpu.adr := rfl

@[simp] theorem Vm.applyOpRrr_adr (vm : Vm) (op : CInt → CInt → CInt) :
    (vm.applyOpRrr op).cpu.adr = vm.cpu.adr :=
  Vm.safeUpdate_adr _ _ _

theorem branch_adr (vm : Vm) (taken : Bool) :
    (vm.branch taken).cpu.adr = if taken then vm.effectiveAddress else vm.cpu.adr := by
  cases taken
  · rfl
  · exact computeRxEaddr_effective vm

theorem opDiv_adr (vm : Vm) : (opDiv vm).cpu.adr = vm.cpu.adr := by
  simp only [opDiv]
  split
  · rfl
  · split
    · exact Vm.safeUpdate_adr _ _ _
    · exact Vm.safeUpdate_adr _ _ _

theorem doLoad_adr (loaded : doLoad vm = .ok after) :
    after.cpu.adr = if vm.cpu.ir.rx.d ≠ 0 then vm.effectiveAddress else vm.cpu.adr := by
  simp only [doLoad] at loaded
  split at loaded
  · rename_i guarded
    obtain ⟨val, _, updated⟩ := Fallible.bind_eq_ok.mp loaded
    obtain rfl := Except.ok.inj updated
    rw [if_pos guarded]
    exact computeRxEaddr_effective vm
  · rename_i zero
    obtain rfl := Except.ok.inj loaded
    rw [if_neg zero]
    rfl

theorem Label.body_adr (ran : label.body vm = .ok after) :
    after.cpu.adr = if label.usesAddress vm then label.leftAddress vm else vm.cpu.adr := by
  cases label <;> simp only [Label.body, Except.ok.injEq, reduceCtorEq] at ran
  case doLoad => exact doLoad_adr ran
  case doStore =>
    obtain ⟨_, rfl⟩ := doStore_eq_ok ran
    exact computeRxEaddr_effective vm
  all_goals subst after
  case doLea =>
    simp only [Sigma16.doLea]
    split
    · rename_i guarded
      exact (computeRxEaddr_effective vm).trans (if_pos guarded).symm
    · rename_i zero
      exact (if_neg zero).symm
  case doDiv => exact opDiv_adr vm
  case doJal => exact branch_adr _ true
  case doJump | doJumpc0 | doJumpc1 | doJumpf | doJumpt => exact branch_adr vm _
  all_goals simp [Sigma16.doAdd, Sigma16.doSub, Sigma16.doMul, Sigma16.doCmp, Sigma16.doCmplt,
    Sigma16.doCmpeq, Sigma16.doCmpgt, Sigma16.doInvold, Sigma16.doAndold, Sigma16.doOrold,
    Sigma16.doXorold, Sigma16.doNop, Sigma16.doRfi, Label.usesAddress, Label.taken]

theorem safeUpdate_effective (vm : Vm) (val : Word) :
    (vm.safeUpdate vm.cpu.ir.rx.d val).effectiveAddress = vm.effectiveAddress ↔
      vm.cpu.ir.rx.d = 0 ∨ vm.cpu.ir.rx.d ≠ vm.cpu.ir.rx.sa ∨ vm.cpu.regs vm.cpu.ir.rx.sa = val := by
  unfold Vm.effectiveAddress
  rw [Vm.safeUpdate_ir, BitVec.add_left_inj]
  by_cases zero : vm.cpu.ir.rx.d = 0
  · rw [Vm.safeUpdate, if_neg (not_not.mpr zero)]
    exact iff_of_true rfl (.inl zero)
  · by_cases same : vm.cpu.ir.rx.d = vm.cpu.ir.rx.sa
    · rw [← same, Vm.safeUpdate_self zero]
      constructor
      · intro equal
        exact .inr (.inr equal.symm)
      · rintro (impossible | impossible | equal)
        · exact absurd impossible zero
        · exact absurd rfl impossible
        · exact equal.symm
    · rw [Vm.safeUpdate, if_pos zero]
      exact iff_of_true (Function.update_of_ne (Ne.symm same) _ _) (.inr (.inl same))

theorem leftAddress_eq_iff (uses : label.usesAddress vm) :
    label.leftAddress vm = vm.effectiveAddress ↔
      (label = .doLea ∨ label = .doLoad →
        vm.cpu.ir.rx.d ≠ 0 ∨ vm.cpu.adr = vm.effectiveAddress) ∧
      (label = .doJal → vm.cpu.ir.rx.d = 0 ∨ vm.cpu.ir.rx.d ≠ vm.cpu.ir.rx.sa ∨
        vm.cpu.regs vm.cpu.ir.rx.sa = vm.cpu.pc + 2) := by
  cases label
  case doLea | doLoad =>
    have skipped : (if vm.cpu.ir.rx.d ≠ 0 then vm.effectiveAddress else vm.cpu.adr) =
        vm.effectiveAddress ↔ vm.cpu.ir.rx.d ≠ 0 ∨ vm.cpu.adr = vm.effectiveAddress := by
      split
      · rename_i guarded
        exact iff_of_true rfl (.inl guarded)
      · rename_i zero
        exact (or_iff_right zero).symm
    simpa [Label.leftAddress] using skipped
  case doJal => simpa [Label.leftAddress] using safeUpdate_effective vm (vm.cpu.pc + 2)
  all_goals simp_all [Label.leftAddress, Label.usesAddress, Label.taken]

end Bodies

section Steps

variable {Ctx : Type} {observe : TraceEvent → Vm → Ctx → Ctx} {m next : Machine Ctx}

theorem usedAddress_eq {vm decoded : Vm} {label : Label} (leads : Dispatches vm decoded label) :
    vm.usedAddress =
      if label.usesAddress decoded then some decoded.effectiveAddress else none := by
  simp only [Vm.usedAddress, dispatch_eq_ok.mpr leads]

theorem keepsAddress_iff {vm decoded : Vm} {label : Label} (leads : Dispatches vm decoded label) :
    vm.KeepsAddress ↔
      (label = .doLea ∨ label = .doLoad →
        decoded.cpu.ir.rx.d ≠ 0 ∨ vm.cpu.adr = decoded.effectiveAddress) ∧
      (label = .doJal → decoded.cpu.ir.rx.d = 0 ∨ decoded.cpu.ir.rx.d ≠ decoded.cpu.ir.rx.sa ∨
        vm.cpu.regs decoded.cpu.ir.rx.sa = vm.cpu.pc + 2) := by
  constructor
  · intro keeps
    exact keeps decoded label leads
  · intro kept other label' leads'
    obtain ⟨rfl, rfl⟩ := leads.unique leads'
    exact kept

theorem Label.stale_of_usesAddress {label : Label} {vm : Vm} (uses : label.usesAddress vm) :
    label.refills = false := by
  cases label <;> simp_all [Label.usesAddress, Label.taken, Label.refills]

theorem vmStep_adr (run : vmStep (observing observe) m = .running next) :
    ∃ decoded label ir, Dispatches m.vm decoded label ∧ (label.refills = false → decoded = m.vm.setIr ir) ∧
      next.vm.cpu.adr =
        if label.usesAddress decoded then label.leftAddress decoded else m.vm.cpu.adr := by
  obtain ⟨decoded, label, _, _, leads, _, _, _⟩ := vmStep_running run
  obtain ⟨seen, entered, ran⟩ := vmStep_observed_running leads run
  obtain ⟨_, ir, _, entry, _, _, filled⟩ := leads.enters
  obtain rfl := Except.ok.inj (entry.symm.trans entered)
  refine ⟨decoded, label, ir, leads, filled, ?_⟩
  have left := Label.body_adr ran
  by_cases stale : label.refills = false
  · rw [← filled stale] at left
    rw [left, filled stale]
    rfl
  · have unused : ∀ vm, ¬ label.usesAddress vm := fun vm uses =>
      stale (Label.stale_of_usesAddress uses)
    rw [if_neg (unused _)] at left ⊢
    exact left

theorem adr_eq_iff {addr : Word} (run : vmStep (observing observe) m = .running next)
    (used : m.vm.usedAddress = some addr) : next.vm.cpu.adr = addr ↔ m.vm.KeepsAddress := by
  obtain ⟨decoded, label, ir, leads, filled, left⟩ := vmStep_adr run
  rw [usedAddress_eq leads] at used
  by_cases uses : label.usesAddress decoded
  · rw [if_pos uses] at used left
    obtain rfl := Option.some.inj used
    have same := filled (Label.stale_of_usesAddress uses)
    rw [left, leftAddress_eq_iff uses, keepsAddress_iff leads, same]
    rfl
  · rw [if_neg uses] at used
    cases used

theorem adr_unused (run : vmStep (observing observe) m = .running next)
    (unused : m.vm.usedAddress = none) : next.vm.cpu.adr = m.vm.cpu.adr := by
  obtain ⟨decoded, label, _, leads, _, left⟩ := vmStep_adr run
  rw [usedAddress_eq leads] at unused
  by_cases uses : label.usesAddress decoded
  · rw [if_pos uses] at unused
    cases unused
  · rw [left, if_neg uses]

theorem KeepingRun.adr {first last : Machine Ctx} {used : Option Word}
    (run : KeepingRun observe first last used) :
    last.vm.cpu.adr = used.getD first.vm.cpu.adr := by
  induction run with
  | refl => rfl
  | @next m next used _ keeps taken ih =>
      cases uses : m.vm.usedAddress with
      | none => rw [adr_unused taken uses, ih, Option.none_or]
      | some addr =>
          rw [(adr_eq_iff taken uses).mpr keeps]
          rfl

end Steps

/-- An instruction leaves the address it uses in `adr` exactly when it is no LEA or LOAD into
R0 and no JAL through its own link register. In a run of such instructions `adr` is the
address of the last one that used an address. -/
theorem address_register {Ctx : Type} (observe : TraceEvent → Vm → Ctx → Ctx) :
    (∀ m next addr, vmStep (observing observe) m = .running next →
      m.vm.usedAddress = some addr → (next.vm.cpu.adr = addr ↔ m.vm.KeepsAddress)) ∧
    ∀ first last used, KeepingRun observe first last used →
      last.vm.cpu.adr = used.getD first.vm.cpu.adr :=
  ⟨fun _ _ _ => adr_eq_iff, fun _ _ _ => KeepingRun.adr⟩

theorem address_register_store : ∃ middle last,
    vmStep (observing fun _ _ ctx => ctx) (Machine.boot [0xF0, 0x03, 0, 2, 0xF0, 0x02, 0, 3]) =
      .running middle ∧
    vmStep (observing fun _ _ ctx => ctx) middle = .running last ∧ last.vm.cpu.adr = 3 := by
  have jump : (Machine.boot [0xF0, 0x03, 0, 2, 0xF0, 0x02, 0, 3]).vm.KeepsAddress :=
    (@keepsAddress_iff _ _ .doJump (dispatch_eq_ok.mp rfl)).mpr ⟨by simp, by simp⟩
  have first := (@KeepingRun.refl Unit (fun _ _ ctx => ctx) _).next jump rfl
  have second := first.next ((@keepsAddress_iff _ _ .doStore (dispatch_eq_ok.mp rfl)).mpr
    ⟨by simp, by simp⟩) rfl
  exact ⟨_, _, rfl, rfl, (address_register _).2 _ _ _ second⟩

/-- `lea R0,5[R0]` and `load R0,5[R0]` leave 0 in `adr`, and `jal R1,5[R1]` the sum with its
return address. -/
theorem address_register_fails :
    (∃ next, vmStep (observing fun _ _ ctx => ctx) (Machine.boot [0xF0, 0x00, 0, 5]) =
        .running next ∧
      (Machine.boot [0xF0, 0x00, 0, 5]).vm.usedAddress = some 5 ∧ next.vm.cpu.adr = 0) ∧
    (∃ next, vmStep (observing fun _ _ ctx => ctx) (Machine.boot [0xF0, 0x01, 0, 5]) =
        .running next ∧
      (Machine.boot [0xF0, 0x01, 0, 5]).vm.usedAddress = some 5 ∧ next.vm.cpu.adr = 0) ∧
    ∃ next, vmStep (observing fun _ _ ctx => ctx) (Machine.boot [0xF1, 0x18, 0, 5]) =
        .running next ∧
      (Machine.boot [0xF1, 0x18, 0, 5]).vm.usedAddress = some 5 ∧ next.vm.cpu.adr = 7 :=
  ⟨⟨_, rfl, rfl, rfl⟩, ⟨_, rfl, rfl, rfl⟩, ⟨_, rfl, rfl, rfl⟩⟩

end Sigma16

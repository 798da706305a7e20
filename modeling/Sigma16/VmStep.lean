import Sigma16.Fallible
import Sigma16.VmExec

/-!
What one step can do: where `DISPATCH()` leads for the words at `pc`, and how a
handler runs on around its trace call.
-/

namespace Sigma16

open Words Transition Fallible

namespace Vm

theorem word_of_lt {vm : Vm} {index : Nat} (mapped : index < memWords) :
    vm.word index = .ok (vm.mem ⟨index, mapped⟩) := by
  simp [word, mapped]

theorem word_of_le {vm : Vm} {index : Nat} (outside : memWords ≤ index) :
    vm.word index = .error (.unmapped (2 * index)) := by
  simp [word, Nat.not_lt.mpr outside]

theorem word_eq_error {vm : Vm} {index : Nat} {stop : Stop} :
    vm.word index = .error stop ↔ memWords ≤ index ∧ .unmapped (2 * index) = stop := by
  by_cases mapped : index < memWords
  · simp [word, mapped]
  · simp [word, mapped, Nat.not_lt.mp mapped]

theorem word_ok_lt {vm : Vm} {index : Nat} {val : Word} (read : vm.word index = .ok val) :
    index < memWords := by
  by_contra outside
  simp [word, outside] at read

end Vm

/-- Where a `DISPATCH()` on `vm` leads: the VM with `ir` as the decoding label
left it, and the label that carries the instruction out. -/
inductive Dispatches (vm : Vm) : Vm → Label → Prop
  | inst {head label} : vm.word vm.cpu.pc.toNat = .ok head →
      dispatchTable[(nibble head 1).toNat]? = some (.inst label) → Dispatches vm vm label
  | exp {head tail label} : vm.word vm.cpu.pc.toNat = .ok head → nibble head 1 = 14 →
      vm.word (vm.cpu.pc.toNat + 1) = .ok tail → expDispatchTable[tail.toNat]? = some label →
      Dispatches vm (vm.setIr { head, tail }) label
  | rx {head tail label} : vm.word vm.cpu.pc.toNat = .ok head → nibble head 1 = 15 →
      vm.word (vm.cpu.pc.toNat + 1) = .ok tail →
      rxDispatchTable[(nibble head 2).toNat]? = some label →
      Dispatches vm (vm.setIr { head, tail := bswap16 tail }) label

theorem dispatchTable_ne_none : ∀ op : Nibble, dispatchTable[op.toNat]? ≠ none := by
  decide

theorem dispatchTable_exp : ∀ op : Nibble,
    dispatchTable[op.toNat]? = some .doDecodeExp ↔ op = 14 := by
  decide

theorem dispatchTable_rx : ∀ op : Nibble,
    dispatchTable[op.toNat]? = some .doDecodeRx ↔ op = 15 := by
  decide

theorem dispatchTable_trap : ∀ op : Nibble,
    dispatchTable[op.toNat]? = some (.inst .doTrap) ↔ op = 13 := by
  decide

theorem rxDispatchTable_ne_none : ∀ op : Nibble, rxDispatchTable[op.toNat]? ≠ none := by
  decide

theorem goto_eq_ok {Entry : Type} {table : List Entry} {index : Nat} {entry : Entry} :
    goto table index = .ok entry ↔ table[index]? = some entry := by
  unfold goto
  split <;> simp_all

theorem goto_eq_error {Entry : Type} {table : List Entry} {index : Nat} {stop : Stop} :
    goto table index = .error stop ↔ table[index]? = none ∧ .wildGoto index = stop := by
  unfold goto
  split <;> simp_all

theorem interpRrr_eq_ok {vm after : Vm} :
    interpRrr vm = .ok after ↔
      ∃ head, vm.word vm.cpu.pc.toNat = .ok head ∧ vm.setIr { vm.cpu.ir with head } = after := by
  simp only [interpRrr, bind_eq_ok, pure, Except.pure, Except.ok.injEq]

theorem interpExp0_eq_ok {vm after : Vm} :
    interpExp0 vm = .ok after ↔
      ∃ head, vm.word vm.cpu.pc.toNat = .ok head ∧ ∃ tail,
        vm.word (vm.cpu.pc.toNat + 1) = .ok tail ∧ vm.setIr { head, tail } = after := by
  simp only [interpExp0, bind_eq_ok, pure, Except.pure, Except.ok.injEq]

theorem interpRx_eq_ok {vm after : Vm} :
    interpRx vm = .ok after ↔
      ∃ head, vm.word vm.cpu.pc.toNat = .ok head ∧ ∃ tail,
        vm.word (vm.cpu.pc.toNat + 1) = .ok tail ∧
        vm.setIr { head, tail := bswap16 tail } = after := by
  simp only [interpRx, bind_eq_ok, pure, Except.pure, Except.ok.injEq]

theorem dispatch_eq_ok {vm after : Vm} {label : Label} :
    dispatch vm = .ok (after, label) ↔ Dispatches vm after label := by
  unfold dispatch
  simp only [bind_eq_ok, shiftRight_and_toNat, goto_eq_ok]
  constructor
  · rintro ⟨head, fetched, target, entry, rest⟩
    cases target with
    | inst found =>
        simp only [pure, Except.pure, Except.ok.injEq, Prod.mk.injEq] at rest
        obtain ⟨rfl, rfl⟩ := rest
        exact .inst fetched entry
    | doDecodeExp =>
        simp only [bind_eq_ok, interpExp0_eq_ok, goto_eq_ok, pure, Except.pure, Except.ok.injEq,
          Prod.mk.injEq] at rest
        obtain ⟨_, ⟨again, fetchedAgain, tail, second, rfl⟩, found, secondary, rfl, rfl⟩ := rest
        obtain rfl : head = again := by simpa [fetched] using fetchedAgain
        exact .exp fetched ((dispatchTable_exp _).mp entry) second secondary
    | doDecodeRx =>
        simp only [bind_eq_ok, interpRx_eq_ok, goto_eq_ok, pure, Except.pure, Except.ok.injEq,
          Prod.mk.injEq] at rest
        obtain ⟨_, ⟨again, fetchedAgain, tail, second, rfl⟩, found, secondary, rfl, rfl⟩ := rest
        obtain rfl : head = again := by simpa [fetched] using fetchedAgain
        exact .rx fetched ((dispatchTable_rx _).mp entry) second secondary
  · intro leads
    cases leads with
    | inst fetched entry => exact ⟨_, fetched, _, entry, rfl⟩
    | exp fetched opcode second secondary =>
        refine ⟨_, fetched, .doDecodeExp, (dispatchTable_exp _).mpr opcode, ?_⟩
        simp only [bind_eq_ok, interpExp0_eq_ok, goto_eq_ok]
        exact ⟨_, ⟨_, fetched, _, second, rfl⟩, _, secondary, rfl⟩
    | rx fetched opcode second secondary =>
        refine ⟨_, fetched, .doDecodeRx, (dispatchTable_rx _).mpr opcode, ?_⟩
        simp only [bind_eq_ok, interpRx_eq_ok, goto_eq_ok]
        exact ⟨_, ⟨_, fetched, _, second, rfl⟩, _, secondary, rfl⟩

theorem Dispatches.unique {vm decoded other : Vm} {label found : Label}
    (leads : Dispatches vm decoded label) (also : Dispatches vm other found) :
    decoded = other ∧ label = found := by
  have same := (dispatch_eq_ok.mpr leads).symm.trans (dispatch_eq_ok.mpr also)
  exact Prod.mk.inj (Except.ok.inj same)

inductive Misdispatches (vm : Vm) : Stop → Prop
  | fetch {stop} : vm.word vm.cpu.pc.toNat = .error stop → Misdispatches vm stop
  | second {head stop} : vm.word vm.cpu.pc.toNat = .ok head →
      nibble head 1 = 14 ∨ nibble head 1 = 15 →
      vm.word (vm.cpu.pc.toNat + 1) = .error stop → Misdispatches vm stop
  | exp {head tail} : vm.word vm.cpu.pc.toNat = .ok head → nibble head 1 = 14 →
      vm.word (vm.cpu.pc.toNat + 1) = .ok tail → expDispatchTable[tail.toNat]? = none →
      Misdispatches vm (.wildGoto tail.toNat)

theorem dispatch_eq_error {vm : Vm} {stop : Stop} :
    dispatch vm = .error stop ↔ Misdispatches vm stop := by
  constructor
  · intro failed
    cases fetched : vm.word vm.cpu.pc.toNat with
    | error early =>
        obtain rfl : early = stop := by simpa [dispatch, fetched, bind, Except.bind] using failed
        exact .fetch fetched
    | ok head =>
        simp only [dispatch, bind_eq_error, shiftRight_and_toNat, goto_eq_error, goto_eq_ok,
          fetched, reduceCtorEq, false_or, Except.ok.injEq, exists_eq_left',
          dispatchTable_ne_none, false_and] at failed
        obtain ⟨target, entry, rest⟩ := failed
        cases target with
        | inst label => simp [pure, Except.pure] at rest
        | doDecodeExp =>
            have opcode := (dispatchTable_exp _).mp entry
            simp only [interpExp0, bind_eq_error, fetched, reduceCtorEq, false_or,
              Except.ok.injEq, exists_eq_left', bind_eq_ok, pure, Except.pure, goto_eq_error,
              or_false, and_false, exists_false] at rest
            rcases rest with unmapped | ⟨_, ⟨tail, second, rfl⟩, outside, rfl⟩
            · exact .second fetched (.inl opcode) unmapped
            · exact .exp fetched opcode second outside
        | doDecodeRx =>
            have opcode := (dispatchTable_rx _).mp entry
            simp only [interpRx, bind_eq_error, fetched, reduceCtorEq, false_or,
              Except.ok.injEq, exists_eq_left', bind_eq_ok, pure, Except.pure, goto_eq_error,
              or_false, and_false, exists_false, rxDispatchTable_ne_none, false_and] at rest
            exact .second fetched (.inr opcode) rest
  · intro fails
    cases fails with
    | fetch failed => exact bind_eq_error.mpr (.inl failed)
    | second fetched opcode failed =>
        refine bind_eq_error.mpr (.inr ⟨_, fetched, ?_⟩)
        rw [shiftRight_and_toNat]
        rcases opcode with opcode | opcode
        · refine bind_eq_error.mpr (.inr ⟨_, goto_eq_ok.mpr ((dispatchTable_exp _).mpr opcode), ?_⟩)
          exact bind_eq_error.mpr (.inl (bind_eq_error.mpr (.inr ⟨_, fetched,
            bind_eq_error.mpr (.inl failed)⟩)))
        · refine bind_eq_error.mpr (.inr ⟨_, goto_eq_ok.mpr ((dispatchTable_rx _).mpr opcode), ?_⟩)
          exact bind_eq_error.mpr (.inl (bind_eq_error.mpr (.inr ⟨_, fetched,
            bind_eq_error.mpr (.inl failed)⟩)))
    | exp fetched opcode second outside =>
        refine bind_eq_error.mpr (.inr ⟨_, fetched, ?_⟩)
        rw [shiftRight_and_toNat]
        refine bind_eq_error.mpr (.inr ⟨_, goto_eq_ok.mpr ((dispatchTable_exp _).mpr opcode), ?_⟩)
        refine bind_eq_error.mpr (.inr ⟨_, interpExp0_eq_ok.mpr ⟨_, fetched, _, second, rfl⟩, ?_⟩)
        exact bind_eq_error.mpr (.inl (goto_eq_error.mpr ⟨outside, rfl⟩))

/-! Apart from TRAP and the bad opcode, every label refills `ir` or not, calls the
trace handler once, and then changes the VM alone. -/

namespace Label

def refills : Label → Bool
  | doNop | doRfi | doLea | doLoad | doStore | doJump | doJumpc0 | doJumpc1 | doJumpf
  | doJumpt | doJal | doBadOp => false
  | _ => true

def enter (label : Label) (vm : Vm) : Except Stop Vm :=
  if label.refills then interpRrr vm else .ok vm

theorem enter_of_stale {label : Label} (stale : label.refills = false) (vm : Vm) :
    label.enter vm = .ok vm := by
  simp [enter, stale]

def event : Label → TraceEvent
  | doRfi => .instExp0
  | doLea | doLoad | doStore | doJump | doJumpc0 | doJumpc1 | doJumpf | doJumpt | doJal => .instRx
  | _ => .instRrr

/-- What the label's code does to the VM after its trace call, for a TRAP that does not halt. -/
def body : Label → Vm → Except Stop Vm
  | doAdd, vm => .ok (Sigma16.doAdd vm)
  | doSub, vm => .ok (Sigma16.doSub vm)
  | doMul, vm => .ok (Sigma16.doMul vm)
  | doDiv, vm => .ok (Sigma16.doDiv vm)
  | doCmp, vm => .ok (Sigma16.doCmp vm)
  | doCmplt, vm => .ok (Sigma16.doCmplt vm)
  | doCmpeq, vm => .ok (Sigma16.doCmpeq vm)
  | doCmpgt, vm => .ok (Sigma16.doCmpgt vm)
  | doInvold, vm => .ok (Sigma16.doInvold vm)
  | doAndold, vm => .ok (Sigma16.doAndold vm)
  | doOrold, vm => .ok (Sigma16.doOrold vm)
  | doXorold, vm => .ok (Sigma16.doXorold vm)
  | doNop, vm => .ok (Sigma16.doNop vm)
  | doTrap, vm => .ok (vm.advance 1).clearFlags
  | doRfi, vm => .ok (Sigma16.doRfi vm)
  | doLea, vm => .ok (Sigma16.doLea vm)
  | doLoad, vm => Sigma16.doLoad vm
  | doStore, vm => Sigma16.doStore vm
  | doJump, vm => .ok (Sigma16.doJump vm)
  | doJumpc0, vm => .ok (Sigma16.doJumpc0 vm)
  | doJumpc1, vm => .ok (Sigma16.doJumpc1 vm)
  | doJumpf, vm => .ok (Sigma16.doJumpf vm)
  | doJumpt, vm => .ok (Sigma16.doJumpt vm)
  | doJal, vm => .ok (Sigma16.doJal vm)
  | doBadOp, _ => .error (.returned (-1))

theorem refills_of_primary {label : Label} (entry : .inst label ∈ dispatchTable)
    (notNop : label ≠ doNop) : label.refills = true := by
  cases label <;> simp_all [dispatchTable, refills]

theorem refills_of_secondary {label : Label} (entry : label ∈ rxDispatchTable) :
    label.refills = false := by
  cases label <;> simp_all [rxDispatchTable, refills]

theorem event_of_primary {label : Label} (entry : .inst label ∈ dispatchTable) :
    label.event = .instRrr := by
  cases label <;> simp_all [dispatchTable, event]

theorem event_of_secondary {label : Label} (entry : label ∈ rxDispatchTable)
    (valid : label ≠ doBadOp) : label.event = .instRx := by
  cases label <;> simp_all [rxDispatchTable, event]

end Label

/-- The VM a dispatched label hands to the trace handler differs from the one
before `DISPATCH()` in `ir` only, which `do_nop` alone leaves stale. -/
theorem Dispatches.enters {vm decoded : Vm} {label : Label} (leads : Dispatches vm decoded label) :
    ∃ head ir, vm.word vm.cpu.pc.toNat = .ok head ∧ label.enter decoded = .ok (vm.setIr ir) ∧
      (label = .doNop → ir = vm.cpu.ir) ∧ (label ≠ .doNop → ir.head = head) ∧
      (label.refills = false → decoded = vm.setIr ir) := by
  cases leads with
  | @inst head _ fetched entry =>
      have member := List.mem_of_getElem? entry
      by_cases nop : label = .doNop
      · subst nop
        exact ⟨head, vm.cpu.ir, fetched, rfl, fun _ => rfl, fun other => absurd rfl other,
          fun _ => rfl⟩
      · have refills := Label.refills_of_primary member nop
        refine ⟨head, { vm.cpu.ir with head }, fetched, ?_, fun same => absurd same nop,
          fun _ => rfl, fun stale => by simp [refills] at stale⟩
        simp only [Label.enter, refills, if_true]
        exact interpRrr_eq_ok.mpr ⟨head, fetched, rfl⟩
  | @exp head tail _ fetched _ _ entry =>
      obtain rfl : label = .doRfi := by simpa [expDispatchTable] using List.mem_of_getElem? entry
      exact ⟨head, _, fetched, rfl, by simp, fun _ => rfl, fun _ => rfl⟩
  | @rx head tail _ fetched _ _ entry =>
      have member := List.mem_of_getElem? entry
      have refills := Label.refills_of_secondary member
      refine ⟨head, _, fetched, Label.enter_of_stale refills _, ?_, fun _ => rfl, fun _ => rfl⟩
      rintro rfl
      simp [rxDispatchTable] at member

/-! What the macros and helpers of the handlers leave in each register. -/

namespace Vm

variable (vm : Vm) (words val : Word) (dst reg : Nibble) (flag : Flag) (bit : Bool)

@[simp] theorem advance_regs : (vm.advance words).cpu.regs = vm.cpu.regs := rfl
@[simp] theorem advance_ir : (vm.advance words).cpu.ir = vm.cpu.ir := rfl
@[simp] theorem advance_pc : (vm.advance words).cpu.pc = vm.cpu.pc + words := rfl

@[simp] theorem clearFlags_ir : vm.clearFlags.cpu.ir = vm.cpu.ir := rfl
@[simp] theorem clearFlags_pc : vm.clearFlags.cpu.pc = vm.cpu.pc := rfl

@[simp] theorem setFlag_ir : (vm.setFlag flag bit).cpu.ir = vm.cpu.ir := rfl
@[simp] theorem setFlag_pc : (vm.setFlag flag bit).cpu.pc = vm.cpu.pc := rfl

@[simp] theorem computeRxEaddr_regs : vm.computeRxEaddr.cpu.regs = vm.cpu.regs := rfl
@[simp] theorem computeRxEaddr_ir : vm.computeRxEaddr.cpu.ir = vm.cpu.ir := rfl
@[simp] theorem computeRxEaddr_pc : vm.computeRxEaddr.cpu.pc = vm.cpu.pc := rfl

@[simp] theorem safeUpdate_ir : (vm.safeUpdate dst val).cpu.ir = vm.cpu.ir := by
  unfold safeUpdate
  split <;> rfl

@[simp] theorem safeUpdate_pc : (vm.safeUpdate dst val).cpu.pc = vm.cpu.pc := by
  unfold safeUpdate
  split <;> rfl

@[simp] theorem applyOpRrr_ir (op : CInt → CInt → CInt) :
    (vm.applyOpRrr op).cpu.ir = vm.cpu.ir := by
  rw [applyOpRrr, advance_ir, safeUpdate_ir]

@[simp] theorem applyOpRrr_pc (op : CInt → CInt → CInt) :
    (vm.applyOpRrr op).cpu.pc = vm.cpu.pc + 1 := by
  simp [applyOpRrr]

variable {vm words val dst reg flag bit}

theorem safeUpdate_self (guarded : dst ≠ 0) : (vm.safeUpdate dst val).cpu.regs dst = val := by
  rw [safeUpdate, if_pos guarded, setReg_regs, Function.update_self]

theorem clearFlags_of_ne (notStatus : reg ≠ 15) :
    vm.clearFlags.cpu.regs reg = vm.cpu.regs reg :=
  Function.update_of_ne notStatus _ _

theorem setFlag_of_ne (notStatus : reg ≠ 15) :
    (vm.setFlag flag bit).cpu.regs reg = vm.cpu.regs reg :=
  Function.update_of_ne notStatus _ _

theorem applyOpRrr_self (op : CInt → CInt → CInt) (guarded : vm.cpu.ir.rrr.d ≠ 0) :
    (vm.applyOpRrr op).cpu.regs vm.cpu.ir.rrr.d =
      truncate (op (promote (vm.cpu.regs vm.cpu.ir.rrr.sa))
        (promote (vm.cpu.regs vm.cpu.ir.rrr.sb))) :=
  safeUpdate_self guarded

end Vm

theorem computeRxEaddr_adr (vm : Vm) :
    vm.computeRxEaddr.cpu.adr = vm.cpu.regs vm.cpu.ir.rx.sa + vm.cpu.ir.rx.disp := by
  simp [Vm.computeRxEaddr]

namespace Label

def size : Label → Word
  | doRfi | doLea | doLoad | doStore | doJump | doJumpc0 | doJumpc1 | doJumpf | doJumpt | doJal => 2
  | _ => 1

def taken (label : Label) (vm : Vm) : Bool :=
  match label with
  | doJump | doJal => true
  | doJumpc0 => !selectBit (vm.cpu.regs 15) vm.cpu.ir.rx.d
  | doJumpc1 => selectBit (vm.cpu.regs 15) vm.cpu.ir.rx.d
  | doJumpf => vm.cpu.regs vm.cpu.ir.rx.d = 0
  | doJumpt => vm.cpu.regs vm.cpu.ir.rx.d ≠ 0
  | _ => false

end Label

theorem branch_pc (vm : Vm) (taken : Bool) :
    (vm.branch taken).cpu.pc =
      if taken then vm.cpu.regs vm.cpu.ir.rx.sa + vm.cpu.ir.rx.disp else vm.cpu.pc + 2 := by
  cases taken
  · rfl
  · simp [Vm.branch, computeRxEaddr_adr]

theorem doDiv_pc (vm : Vm) : (doDiv vm).cpu.pc = vm.cpu.pc + 1 := by
  have divided : (opDiv vm).cpu.pc = vm.cpu.pc := by
    simp only [opDiv]
    split
    · rfl
    · split <;> simp
  rw [doDiv, Vm.advance_pc, divided]

theorem doLea_pc (vm : Vm) : (doLea vm).cpu.pc = vm.cpu.pc + 2 := by
  simp only [doLea]
  split <;> rfl

theorem doLoad_pc {vm after : Vm} (loaded : doLoad vm = .ok after) :
    after.cpu.pc = vm.cpu.pc + 2 := by
  simp only [doLoad] at loaded
  split at loaded
  · obtain ⟨val, _, updated⟩ := bind_eq_ok.mp loaded
    obtain rfl := Except.ok.inj updated
    rfl
  · obtain rfl := Except.ok.inj loaded
    rfl

theorem doStore_eq_ok {vm after : Vm} (stored : doStore vm = .ok after) :
    ∃ mapped : vm.computeRxEaddr.cpu.adr.toNat < memWords,
      after = (vm.computeRxEaddr.setMem (Function.update vm.mem ⟨_, mapped⟩
        (bswap16 (vm.cpu.regs vm.cpu.ir.rx.d)))).advance 2 := by
  obtain ⟨written, wrote, advanced⟩ := bind_eq_ok.mp stored
  obtain rfl := Except.ok.inj advanced
  unfold writeMem Vm.setWord at wrote
  split at wrote
  · rename_i mapped
    obtain rfl := Except.ok.inj wrote
    exact ⟨mapped, rfl⟩
  · cases wrote

theorem Label.body_pc {label : Label} {vm after : Vm} (straight : label.taken vm = false)
    (ran : label.body vm = .ok after) : after.cpu.pc = vm.cpu.pc + label.size := by
  cases label <;> simp only [Label.body, Except.ok.injEq, reduceCtorEq] at ran
  case doLoad => exact doLoad_pc ran
  case doStore =>
    obtain ⟨_, rfl⟩ := doStore_eq_ok ran
    rfl
  all_goals subst after
  case doDiv => exact doDiv_pc vm
  case doLea => exact doLea_pc vm
  case doJump | doJal => simp [Label.taken] at straight
  case doJumpc0 | doJumpc1 | doJumpf | doJumpt =>
    exact (branch_pc vm _).trans (by simp only [Label.taken] at straight; rw [straight]; rfl)
  all_goals simp [Sigma16.doAdd, Sigma16.doSub, Sigma16.doMul, Sigma16.doCmp, Sigma16.doCmplt,
    Sigma16.doCmpeq, Sigma16.doCmpgt, Sigma16.doInvold, Sigma16.doAndold, Sigma16.doOrold,
    Sigma16.doXorold, Sigma16.doNop, Sigma16.doRfi, Label.size]

section Steps

variable {Ctx : Type} {trace : TraceHandler Ctx} {m next : Machine Ctx} {label : Label}

theorem runLabel_eq (notTrap : label ≠ .doTrap) (valid : label ≠ .doBadOp) :
    runLabel trace m label = m.attempt (label.enter m.vm) fun vm =>
      traced trace label.event { m with vm } fun m => m.attempt (label.body m.vm) m.set := by
  cases label <;> first | rfl | contradiction

theorem vmStep_enters {decoded seen : Vm} (leads : Dispatches m.vm decoded label)
    (entered : label.enter decoded = .ok seen) (notTrap : label ≠ .doTrap)
    (valid : label ≠ .doBadOp) :
    vmStep trace m = traced trace label.event { m with vm := seen } fun m =>
      m.attempt (label.body m.vm) m.set := by
  simp only [vmStep, dispatch_eq_ok.mpr leads, Machine.attempt, runLabel_eq notTrap valid, entered]

theorem vmStep_enters_trap {decoded seen : Vm} (leads : Dispatches m.vm decoded .doTrap)
    (entered : Label.doTrap.enter decoded = .ok seen) :
    vmStep trace m = traced trace .instRrr { m with vm := seen } (doTrap trace) := by
  have refilled : interpRrr decoded = .ok seen := entered
  simp only [vmStep, dispatch_eq_ok.mpr leads, Machine.attempt, runLabel, rrr, refilled]

theorem vmStep_badOp {decoded : Vm} (leads : Dispatches m.vm decoded .doBadOp) :
    vmStep trace m = .stopped (.returned (-1)) { m with vm := decoded } := by
  simp only [vmStep, dispatch_eq_ok.mpr leads, Machine.attempt, runLabel]

theorem attempt_eq_running {Val : Type} {val : Except Stop Val} {rest : Val → Result Ctx} :
    m.attempt val rest = .running next ↔ ∃ found, val = .ok found ∧ rest found = .running next := by
  cases val <;> simp [Machine.attempt]

theorem traced_eq_running {event : TraceEvent} {rest : Machine Ctx → Result Ctx} :
    traced trace event m rest = .running next ↔
      ∃ vm ctx, trace event m.vm m.ctx = (some vm, ctx) ∧
        rest { m with vm, ctx } = .running next := by
  unfold traced
  split <;> simp_all

@[simp] theorem traced_observing (observe : TraceEvent → Vm → Ctx → Ctx) (event : TraceEvent)
    (rest : Machine Ctx → Result Ctx) :
    traced (observing observe) event m rest =
      rest { m with ctx := observe event m.vm m.ctx } := rfl

theorem trapWriteFrom_running {addr : Word} {count i : Nat} :
    trapWriteFrom addr count i m = .running next → next.vm = m.vm ∧ next.ctx = m.ctx := by
  induction count generalizing i m with
  | zero =>
      intro run
      obtain rfl : m = next := by simpa [trapWriteFrom] using run
      exact ⟨rfl, rfl⟩
  | succ count ih =>
      intro run
      obtain ⟨word, _, rest⟩ := attempt_eq_running.mp run
      have kept := ih rest
      exact kept

theorem doTrap_running (run : doTrap trace m = .running next) :
    next.vm = (m.vm.advance 1).clearFlags ∧ next.ctx = m.ctx := by
  simp only [doTrap] at run
  split at run
  · simp only [endHotloop, traced_eq_running, reduceCtorEq, and_false, exists_false] at run
  · cases written : (if m.vm.cpu.regs m.vm.cpu.ir.rrr.d = 2 then trapWrite m else .running m) with
    | stopped reason state =>
        rw [written] at run
        simp at run
    | running after =>
        have same : after.vm = m.vm ∧ after.ctx = m.ctx := by
          split at written
          · exact trapWriteFrom_running written
          · obtain rfl : m = after := by simpa using written
            exact ⟨rfl, rfl⟩
        rw [written] at run
        simp only [Outcome.bind_running, Machine.set, Outcome.running.injEq] at run
        subst next
        simp [same]

theorem runLabel_running (run : runLabel trace m label = .running next) :
    ∃ seen after, label.enter m.vm = .ok seen ∧
      trace label.event seen m.ctx = (some after, next.ctx) ∧ label.body after = .ok next.vm := by
  by_cases trap : label = .doTrap
  · subst label
    obtain ⟨seen, entered, rest⟩ := attempt_eq_running.mp run
    obtain ⟨after, ctx, handled, rest⟩ := traced_eq_running.mp rest
    obtain ⟨moved, kept⟩ := doTrap_running rest
    exact ⟨seen, after, entered, by rw [kept]; exact handled, by rw [moved]; rfl⟩
  · by_cases bad : label = .doBadOp
    · subst label
      simp [runLabel] at run
    · rw [runLabel_eq trap bad] at run
      obtain ⟨seen, entered, rest⟩ := attempt_eq_running.mp run
      obtain ⟨after, ctx, handled, rest⟩ := traced_eq_running.mp rest
      obtain ⟨vm, body, rest⟩ := attempt_eq_running.mp rest
      simp only [Machine.set, Outcome.running.injEq] at rest
      subst next
      exact ⟨seen, after, entered, handled, body⟩

theorem vmStep_running (run : vmStep trace m = .running next) :
    ∃ decoded label seen after, Dispatches m.vm decoded label ∧
      label.enter decoded = .ok seen ∧ trace label.event seen m.ctx = (some after, next.ctx) ∧
      label.body after = .ok next.vm := by
  obtain ⟨⟨decoded, label⟩, dispatched, rest⟩ := attempt_eq_running.mp run
  obtain ⟨seen, after, entered, handled, body⟩ := runLabel_running rest
  exact ⟨decoded, label, seen, after, dispatch_eq_ok.mp dispatched, entered, handled, body⟩

theorem traced_cases (trace : TraceHandler Ctx) (event : TraceEvent) (m : Machine Ctx)
    (rest : Machine Ctx → Result Ctx) :
    (∃ after, (trace event m.vm m.ctx).1 = some after ∧
      traced trace event m rest =
        rest { m with vm := after, ctx := (trace event m.vm m.ctx).2 }) ∨
    (trace event m.vm m.ctx).1 = none ∧
      traced trace event m rest =
        .stopped .handlerLeft { m with ctx := (trace event m.vm m.ctx).2 } := by
  unfold traced
  split
  · rename_i after ctx handled
    exact .inl ⟨after, by rw [handled], by rw [handled]⟩
  · rename_i ctx handled
    exact .inr ⟨by rw [handled], by rw [handled]⟩

theorem trapWriteFrom_ctx {addr : Word} {count i : Nat} :
    (trapWriteFrom addr count i m).state.ctx = m.ctx := by
  induction count generalizing i m with
  | zero => rfl
  | succ count ih =>
      simp only [trapWriteFrom, Machine.attempt]
      split
      · exact ih
      · rfl

theorem trapCode_ctx : (if m.vm.cpu.regs m.vm.cpu.ir.rrr.d = 2 then trapWrite m
    else .running m).state.ctx = m.ctx := by
  split
  · exact trapWriteFrom_ctx
  · rfl

theorem doTrap_ctx : (doTrap trace m).state.ctx = m.ctx ∨
    (doTrap trace m).state.ctx = (trace .execEnd m.vm m.ctx).2 := by
  simp only [doTrap]
  split
  · right
    rcases traced_cases trace .execEnd m (.stopped (.returned 0)) with ⟨after, _, ends⟩ | ⟨_, ends⟩
    · rw [endHotloop, ends]
      rfl
    · rw [endHotloop, ends]
      rfl
  · left
    rw [← @trapCode_ctx _ m]
    generalize (if m.vm.cpu.regs m.vm.cpu.ir.rrr.d = 2 then trapWrite m else .running m) = outcome
    cases outcome <;> rfl

theorem vmStep_ctx {decoded seen : Vm} (leads : Dispatches m.vm decoded label)
    (valid : label ≠ .doBadOp) (entered : label.enter decoded = .ok seen) :
    (vmStep trace m).state.ctx = (trace label.event seen m.ctx).2 ∨
      ∃ after, (trace label.event seen m.ctx).1 = some after ∧
        (vmStep trace m).state.ctx =
          (trace .execEnd after (trace label.event seen m.ctx).2).2 := by
  by_cases trap : label = .doTrap
  · subst label
    rw [vmStep_enters_trap leads entered]
    rcases traced_cases trace .instRrr { m with vm := seen } (doTrap trace) with
      ⟨after, returned, run⟩ | ⟨_, run⟩
    · rw [run]
      rcases @doTrap_ctx _ trace { m with vm := after, ctx := (trace .instRrr seen m.ctx).2 } with
        same | ended
      · exact .inl same
      · exact .inr ⟨after, returned, ended⟩
    · rw [run]
      exact .inl rfl
  · left
    rw [vmStep_enters leads entered trap valid]
    rcases traced_cases trace label.event { m with vm := seen }
      (fun m => m.attempt (label.body m.vm) m.set) with ⟨after, _, run⟩ | ⟨_, run⟩
    · refine (congrArg (·.state.ctx) run).trans ?_
      cases label.body after <;> rfl
    · exact congrArg (·.state.ctx) run

theorem vmStep_uncalled (silent : ∀ decoded label, Dispatches m.vm decoded label →
      label = .doBadOp) : ∃ stop last, vmStep trace m = .stopped stop last ∧ last.ctx = m.ctx := by
  cases dispatched : dispatch m.vm with
  | error stop => exact ⟨stop, m, by simp [vmStep, dispatched, Machine.attempt], rfl⟩
  | ok found =>
      have bad := silent _ _ (dispatch_eq_ok.mp dispatched)
      refine ⟨.returned (-1), { m with vm := found.1 }, ?_, rfl⟩
      simp [vmStep, dispatched, Machine.attempt, bad, runLabel]

theorem vmEntry_ctx (trace : TraceHandler Ctx) (m : Machine Ctx) :
    (vmEntry trace m).state.ctx = (trace .execStart m.vm m.ctx).2 := by
  rcases traced_cases trace .execStart m .running with ⟨after, _, run⟩ | ⟨_, run⟩
  · rw [vmEntry, run, Outcome.state_running]
  · rw [vmEntry, run, Outcome.state_stopped]

theorem vmExec_zero (trace : TraceHandler Ctx) (m : Machine Ctx) :
    vmExec trace 0 m = vmEntry trace m := by
  unfold vmExec
  cases vmEntry trace m <;> rfl

theorem vmExec_succ (trace : TraceHandler Ctx) (count : Nat) (m : Machine Ctx) :
    vmExec trace (count + 1) m = (vmExec trace count m).bind (vmStep trace) := by
  unfold vmExec
  cases vmEntry trace m with
  | stopped stop last => rfl
  | running start => exact iterate_succ count start

/-- The reachable machines are those `sigma16_vm_exec` is in after some number of instructions. -/
theorem reachable_iff {executable : List Byte} {ctx : Ctx} :
    Reachable trace executable ctx m ↔ ∃ vm count, sigma16VmInit executable = .ok vm ∧
      vmExec trace count { vm, ctx, out := [] } = .running m := by
  constructor
  · rintro ⟨loaded, entry, run⟩
    obtain ⟨count, steps⟩ := reaches_iff_iterate.mp run
    exact ⟨_, count, loaded, by rw [vmExec, entry, Outcome.bind_running, steps]⟩
  · rintro ⟨vm, count, loaded, run⟩
    cases entry : vmEntry trace { vm, ctx, out := [] } with
    | stopped reason state => simp [vmExec, entry] at run
    | running start =>
        rw [vmExec, entry, Outcome.bind_running] at run
        exact .intro loaded entry (reaches_iff_iterate.mpr ⟨count, run⟩)

end Steps

/-! How an instruction fails once it is dispatched: a data word outside the mapping. -/

theorem readMem_of_lt {vm : Vm} {addr : Word} (mapped : addr.toNat < memWords) :
    readMem vm addr = .ok (bswap16 (vm.mem ⟨addr.toNat, mapped⟩)) := by
  rw [readMem, Vm.word_of_lt mapped, Except.map]

theorem readMem_eq_error {vm : Vm} {addr : Word} {stop : Stop} :
    readMem vm addr = .error stop ↔
      memWords ≤ addr.toNat ∧ .unmapped (2 * addr.toNat) = stop := by
  by_cases mapped : addr.toNat < memWords
  · simp [readMem, Vm.word_of_lt mapped, Except.map, mapped]
  · have outside := Nat.not_lt.mp mapped
    simp [readMem, Vm.word_of_le outside, Except.map, outside]

theorem doLoad_eq_error {vm : Vm} {stop : Stop} :
    doLoad vm = .error stop ↔ vm.cpu.ir.rx.d ≠ 0 ∧
      memWords ≤ vm.computeRxEaddr.cpu.adr.toNat ∧
      .unmapped (2 * vm.computeRxEaddr.cpu.adr.toNat) = stop := by
  by_cases zero : vm.cpu.ir.rx.d = 0
  · simp [doLoad, zero, pure, Except.pure, bind, Except.bind]
  · simp only [doLoad, ne_eq, zero, not_false_eq_true, if_true, true_and, bind_eq_error,
      readMem_eq_error, pure, Except.pure, reduceCtorEq, and_false, exists_false, or_false]

theorem doStore_eq_error {vm : Vm} {stop : Stop} :
    doStore vm = .error stop ↔ memWords ≤ vm.computeRxEaddr.cpu.adr.toNat ∧
      .unmapped (2 * vm.computeRxEaddr.cpu.adr.toNat) = stop := by
  by_cases mapped : vm.computeRxEaddr.cpu.adr.toNat < memWords
  · simp [doStore, writeMem, Vm.setWord, mapped, pure, Except.pure, bind, Except.bind]
  · simp [doStore, writeMem, Vm.setWord, mapped, Nat.not_lt.mp mapped, bind, Except.bind]

theorem Label.body_eq_error {label : Label} {vm : Vm} {stop : Stop} (valid : label ≠ .doBadOp) :
    label.body vm = .error stop ↔
      (label = .doLoad ∧ vm.cpu.ir.rx.d ≠ 0 ∨ label = .doStore) ∧
      memWords ≤ vm.computeRxEaddr.cpu.adr.toNat ∧
      .unmapped (2 * vm.computeRxEaddr.cpu.adr.toNat) = stop := by
  cases label <;> simp_all [Label.body, doLoad_eq_error, doStore_eq_error]

section TrapWrite

variable {Ctx : Type} {m next : Machine Ctx} {addr : Word}

theorem trapAddr_eq (i : Nat) :
    truncate (promote addr + BitVec.ofNat 32 i) = addr + BitVec.ofNat 16 i := by
  have index : truncate (BitVec.ofNat 32 i) = BitVec.ofNat 16 i :=
    BitVec.setWidth_ofNat_of_le (by decide) i
  rw [truncate_add, truncate_promote, index]

theorem trapWriteFrom_stopped {count i : Nat} {stop : Stop} :
    trapWriteFrom addr count i m = .stopped stop next → ∃ j, i ≤ j ∧ j < i + count ∧
      memWords ≤ (addr + BitVec.ofNat 16 j).toNat ∧
      stop = .unmapped (2 * (addr + BitVec.ofNat 16 j).toNat) := by
  induction count generalizing i m with
  | zero => simp [trapWriteFrom]
  | succ count ih =>
      intro run
      simp only [trapWriteFrom, trapAddr_eq] at run
      cases read : readMem m.vm (addr + BitVec.ofNat 16 i) with
      | error early =>
          have outside := readMem_eq_error.mp read
          simp only [Machine.attempt, read, Outcome.stopped.injEq] at run
          exact ⟨i, by omega, by omega, outside.1, by rw [outside.2, run.1]⟩
      | ok word =>
          simp only [Machine.attempt, read] at run
          obtain ⟨j, lower, upper, outside⟩ := ih run
          exact ⟨j, by omega, by omega, outside⟩

theorem trapWriteFrom_completed {count i : Nat} (run : trapWriteFrom addr count i m = .running next) :
    ∀ j, i ≤ j → j < i + count → (addr + BitVec.ofNat 16 j).toNat < memWords := by
  induction count generalizing i m with
  | zero => omega
  | succ count ih =>
      intro j lower upper
      obtain ⟨word, read, rest⟩ := attempt_eq_running.mp run
      rcases Nat.eq_or_lt_of_le lower with rfl | later
      · by_contra outside
        rw [trapAddr_eq] at read
        simp [readMem_eq_error.mpr ⟨Nat.not_lt.mp outside, rfl⟩] at read
      · exact ih rest j later (by omega)

theorem trapWriteFrom_mapped {count i : Nat}
    (mapped : ∀ j, i ≤ j → j < i + count → (addr + BitVec.ofNat 16 j).toNat < memWords) :
    ∃ written, trapWriteFrom addr count i m = .running { m with out := m.out ++ written } ∧
      written.length = count ∧ ∀ j, (bound : j < written.length) →
        (readMem m.vm (addr + BitVec.ofNat 16 (i + j))).map lowByte = .ok written[j] := by
  induction count generalizing i m with
  | zero => exact ⟨[], by simp [trapWriteFrom], rfl, by simp⟩
  | succ count ih =>
      have first := mapped i (by omega) (by omega)
      obtain ⟨word, read⟩ : ∃ word, readMem m.vm (addr + BitVec.ofNat 16 i) = .ok word :=
        ⟨_, readMem_of_lt first⟩
      obtain ⟨rest, run, length, bytes⟩ :=
        ih (m := { m with out := m.out ++ [lowByte word] }) (i := i + 1)
          (fun j lower upper => mapped j (by omega) (by omega))
      refine ⟨lowByte word :: rest, ?_, by simp [length], ?_⟩
      · simp only [trapWriteFrom, trapAddr_eq, Machine.attempt, read, run, List.append_assoc,
          List.singleton_append]
      · intro j bound
        cases j with
        | zero => simp [read, Except.map]
        | succ j =>
            have found := bytes j (by simpa using bound)
            rw [show i + 1 + j = i + (j + 1) by omega] at found
            simpa using found

end TrapWrite

/-! Under a handler that only observes, a step is the label's body on the VM the
handler has seen. -/

section Observed

variable {Ctx : Type} {observe : TraceEvent → Vm → Ctx → Ctx} {m : Machine Ctx} {label : Label}
variable {decoded seen : Vm}

theorem vmStep_plain (leads : Dispatches m.vm decoded label)
    (entered : label.enter decoded = .ok seen) (notTrap : label ≠ .doTrap)
    (valid : label ≠ .doBadOp) :
    vmStep (observing observe) m =
      Machine.attempt { m with vm := seen, ctx := observe label.event seen m.ctx }
        (label.body seen)
        (Machine.set { m with vm := seen, ctx := observe label.event seen m.ctx }) := by
  rw [vmStep_enters leads entered notTrap valid, traced_observing]

theorem vmStep_completes {after : Vm} (leads : Dispatches m.vm decoded label)
    (entered : label.enter decoded = .ok seen) (notTrap : label ≠ .doTrap)
    (body : label.body seen = .ok after) :
    vmStep (observing observe) m =
      .running { m with vm := after, ctx := observe label.event seen m.ctx } := by
  have valid : label ≠ .doBadOp := by
    rintro rfl
    simp [Label.body] at body
  rw [vmStep_plain leads entered notTrap valid]
  simp [Machine.attempt, body, Machine.set]

theorem vmStep_trap (leads : Dispatches m.vm decoded .doTrap)
    (entered : Label.doTrap.enter decoded = .ok seen) :
    vmStep (observing observe) m =
      doTrap (observing observe)
        { m with vm := seen, ctx := observe .instRrr seen m.ctx } := by
  rw [vmStep_enters_trap leads entered, traced_observing]

theorem vmStep_misdispatch {trace : TraceHandler Ctx} {stop : Stop}
    (fails : Misdispatches m.vm stop) : vmStep trace m = .stopped stop m := by
  simp [vmStep, dispatch_eq_error.mpr fails, Machine.attempt]

theorem vmStep_observed_running {next : Machine Ctx} (leads : Dispatches m.vm decoded label)
    (run : vmStep (observing observe) m = .running next) :
    ∃ seen, label.enter decoded = .ok seen ∧ label.body seen = .ok next.vm := by
  obtain ⟨decoded', label', seen, after, leads', entered, handled, body⟩ := vmStep_running run
  obtain ⟨rfl, rfl⟩ := leads.unique leads'
  simp only [observing, Prod.mk.injEq, Option.some.injEq] at handled
  obtain ⟨rfl, -⟩ := handled
  exact ⟨seen, entered, body⟩

theorem doTrap_stopped {next : Machine Ctx} {stop : Stop}
    (run : doTrap (observing observe) m = .stopped stop next) :
    (m.vm.cpu.regs m.vm.cpu.ir.rrr.d = 0 ∧ stop = .returned 0 ∧ next.vm = m.vm) ∨
      ∃ byte, stop = .unmapped byte := by
  simp only [doTrap] at run
  split at run
  · rename_i halts
    simp only [endHotloop, traced_observing, Outcome.stopped.injEq] at run
    obtain ⟨rfl, rfl⟩ := run
    exact .inl ⟨halts, rfl, rfl⟩
  · cases written : (if m.vm.cpu.regs m.vm.cpu.ir.rrr.d = 2 then trapWrite m else .running m) with
    | running after =>
        rw [written] at run
        simp [Machine.set] at run
    | stopped reason state =>
        rw [written] at run
        simp only [Outcome.bind_stopped, Outcome.stopped.injEq] at run
        obtain ⟨rfl, rfl⟩ := run
        split at written
        · obtain ⟨_, _, _, _, outside⟩ := trapWriteFrom_stopped written
          exact .inr ⟨_, outside⟩
        · cases written

theorem vmStep_stopped {next : Machine Ctx} {stop : Stop} (leads : Dispatches m.vm decoded label)
    (run : vmStep (observing observe) m = .stopped stop next) :
    (∃ ir, next.vm = m.vm.setIr ir ∧ (label = .doTrap ∧ stop = .returned 0 ∨
      label = .doBadOp ∧ stop = .returned (-1))) ∨ ∃ byte, stop = .unmapped byte := by
  obtain ⟨head, ir, _, entered, _, _, filled⟩ := leads.enters
  by_cases bad : label = .doBadOp
  · subst label
    rw [vmStep_badOp leads] at run
    simp only [Outcome.stopped.injEq] at run
    exact .inl ⟨ir, by rw [← run.2, filled rfl], .inr ⟨rfl, run.1.symm⟩⟩
  · by_cases trap : label = .doTrap
    · subst label
      rw [vmStep_trap leads entered] at run
      rcases doTrap_stopped run with ⟨_, halted, same⟩ | unmapped
      · exact .inl ⟨ir, same, .inl ⟨rfl, halted⟩⟩
      · exact .inr unmapped
    · rw [vmStep_plain leads entered trap bad] at run
      cases ran : label.body (m.vm.setIr ir) with
      | ok after => simp [Machine.attempt, ran, Machine.set] at run
      | error early =>
          simp only [Machine.attempt, ran, Outcome.stopped.injEq] at run
          exact .inr ⟨_, (((Label.body_eq_error bad).mp ran).2.2.trans run.1).symm⟩

theorem vmStep_returned {next : Machine Ctx} {code : Int} (leads : Dispatches m.vm decoded label)
    (run : vmStep (observing observe) m = .stopped (.returned code) next) :
    (label = .doTrap ∨ label = .doBadOp) ∧ ∃ ir, next.vm = m.vm.setIr ir := by
  rcases vmStep_stopped leads run with ⟨ir, same, ⟨trap, _⟩ | ⟨bad, _⟩⟩ | ⟨_, impossible⟩
  · exact ⟨.inl trap, ir, same⟩
  · exact ⟨.inr bad, ir, same⟩
  · cases impossible

end Observed

end Sigma16

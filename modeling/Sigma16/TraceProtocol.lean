import Sigma16.VmTracing

/-!
The trace calls of a run, for any handler: EXEC_START, one call before each instruction with
the instruction decoded into `ir`, and EXEC_END when a TRAP ends the program.
-/

namespace Sigma16

open Words Transition

abbrev TraceCall := TraceEvent × Vm

/-- The call for the instruction at `pc`. A NOP is shown with `ir` as it was left; an RX opcode
from 9 on is not announced, nor an EXP opcode but that of RFI. -/
inductive Announces (vm : Vm) : TraceCall → Prop
  | rrr {head} : vm.word vm.cpu.pc.toNat = .ok head → (nibble head 1).toNat < 14 →
      nibble head 1 ≠ 12 → Announces vm (.instRrr, vm.setIr { vm.cpu.ir with head })
  | nop {head} : vm.word vm.cpu.pc.toNat = .ok head → nibble head 1 = 12 →
      Announces vm (.instRrr, vm)
  | rx {head tail} : vm.word vm.cpu.pc.toNat = .ok head → nibble head 1 = 15 →
      vm.word (vm.cpu.pc.toNat + 1) = .ok tail → (nibble head 2).toNat < 9 →
      Announces vm (.instRx, vm.setIr { head, tail := bswap16 tail })
  | exp0 {head} : vm.word vm.cpu.pc.toNat = .ok head → nibble head 1 = 14 →
      vm.word (vm.cpu.pc.toNat + 1) = .ok 0 → Announces vm (.instExp0, vm.setIr { head, tail := 0 })

section Announcing

variable {vm decoded seen : Vm} {label : Label} {call other : TraceCall}

theorem dispatchTable_valid : ∀ op : Nibble, op.toNat < 14 →
    dispatchTable[op.toNat]? ≠ some .doDecodeExp ∧ dispatchTable[op.toNat]? ≠ some .doDecodeRx ∧
      dispatchTable[op.toNat]? ≠ some (.inst .doBadOp) := by
  decide

theorem rxDispatchTable_valid : ∀ op : Nibble, op.toNat < 9 →
    rxDispatchTable[op.toNat]? ≠ some .doBadOp := by
  decide

theorem dispatchTable_primary {op : Nibble} (primary : op.toNat < 14) :
    ∃ label, dispatchTable[op.toNat]? = some (.inst label) ∧ label ≠ .doBadOp := by
  obtain ⟨target, entry⟩ := Option.ne_none_iff_exists'.mp (dispatchTable_ne_none op)
  have valid := dispatchTable_valid op primary
  rw [entry] at valid ⊢
  cases target with
  | inst label => exact ⟨label, rfl, fun bad => valid.2.2 (by rw [bad])⟩
  | doDecodeExp => exact absurd rfl valid.1
  | doDecodeRx => exact absurd rfl valid.2.1

theorem Announces.dispatches (announced : Announces vm call) : ∃ decoded label,
    Dispatches vm decoded label ∧ label ≠ .doBadOp ∧ label.enter decoded = .ok call.2 ∧
      call.1 = label.event := by
  cases announced with
  | @rrr head fetched primary notNop =>
      obtain ⟨label, entry, valid⟩ := dispatchTable_primary primary
      have member := List.mem_of_getElem? entry
      have nop : label ≠ .doNop := by
        rintro rfl
        exact notNop ((dispatchTable_nop _).mp entry)
      refine ⟨vm, label, .inst fetched entry, valid, ?_, (Label.event_of_primary member).symm⟩
      rw [Label.enter, Label.refills_of_primary member nop, if_pos rfl]
      exact interpRrr_eq_ok.mpr ⟨head, fetched, rfl⟩
  | nop fetched opcode =>
      exact ⟨vm, .doNop, .inst fetched ((dispatchTable_nop _).mpr opcode), by decide, rfl, rfl⟩
  | @rx head tail fetched opcode second defined =>
      obtain ⟨label, entry⟩ := Option.ne_none_iff_exists'.mp (rxDispatchTable_ne_none (nibble head 2))
      have member := List.mem_of_getElem? entry
      have valid : label ≠ .doBadOp := by
        rintro rfl
        exact rxDispatchTable_valid _ defined entry
      exact ⟨_, label, .rx fetched opcode second entry, valid,
        Label.enter_of_stale (Label.refills_of_secondary member) _,
        (Label.event_of_secondary member valid).symm⟩
  | exp0 fetched opcode second =>
      exact ⟨_, .doRfi, .exp fetched opcode second rfl, by decide, rfl, rfl⟩

theorem Announces.unique (announced : Announces vm call) (also : Announces vm other) :
    call = other := by
  obtain ⟨decoded, label, leads, -, entered, event⟩ := announced.dispatches
  obtain ⟨decodedAlso, labelAlso, leadsAlso, -, enteredAlso, eventAlso⟩ := also.dispatches
  obtain ⟨rfl, rfl⟩ := leads.unique leadsAlso
  exact Prod.ext (event.trans eventAlso.symm) (Except.ok.inj (entered.symm.trans enteredAlso))

end Announcing

section Steps

variable {Ctx : Type} {trace : TraceHandler Ctx} {m : Machine (List TraceCall × Ctx)}

/-- `m` is at a TRAP, and `d` names a register with 0 in what the handler has made of the VM
when it comes back from the call. -/
def TrapHalts (trace : TraceHandler Ctx) (m : Machine (List TraceCall × Ctx)) (after : Vm) : Prop :=
  ∃ head, m.vm.word m.vm.cpu.pc.toNat = .ok head ∧ nibble head 1 = 13 ∧
    (trace .instRrr (m.vm.setIr { m.vm.cpu.ir with head }) m.ctx.2).1 = some after ∧
    after.cpu.regs after.cpu.ir.rrr.d = 0

theorem TrapHalts.dispatches {after : Vm} (halts : TrapHalts trace m after) :
    Dispatches m.vm m.vm .doTrap := by
  obtain ⟨head, fetched, opcode, -⟩ := halts
  exact .inst fetched ((dispatchTable_trap _).mpr opcode)

theorem TrapHalts.announced {after : Vm} (halts : TrapHalts trace m after) : ∃ call,
    Announces m.vm call ∧ (trace call.1 call.2 m.ctx.2).1 = some after := by
  obtain ⟨head, fetched, opcode, returned, -⟩ := halts
  exact ⟨_, .rrr fetched (by simp [opcode]) (by simp [opcode]), returned⟩

end Steps

section Runs

variable {Ctx : Type} {trace : TraceHandler Ctx} {start m : Machine (List TraceCall × Ctx)}
variable {count : Nat} {calls : List TraceCall} {call : TraceCall}

/-- The calls at each position are those for the instruction that many steps into the run. -/
def InOrder (trace : TraceHandler Ctx) (start : Machine (List TraceCall × Ctx)) (count : Nat)
    (calls : List TraceCall) : Prop :=
  ∀ (index : Nat) call, calls[index]? = some call ↔ index < count ∧
    ∃ m, iterate (vmStep (recorded trace)) index start = .running m ∧ Announces m.vm call

def GoesOn (trace : TraceHandler Ctx) (start : Machine (List TraceCall × Ctx)) (count : Nat) :
    Prop :=
  ∀ index m, index < count → iterate (vmStep (recorded trace)) index start = .running m →
    ∀ after, ¬ TrapHalts trace m after

theorem GoesOn.step (earlier : GoesOn trace start count)
    (last : ∀ m, iterate (vmStep (recorded trace)) count start = .running m →
      ∀ after, ¬ TrapHalts trace m after) : GoesOn trace start (count + 1) := by
  intro index m bound reached
  rcases Nat.lt_succ_iff_lt_or_eq.mp bound with before | rfl
  · exact earlier index m before reached
  · exact last m reached

theorem InOrder.append (ordered : InOrder trace start count calls) (full : calls.length = count)
    (reached : iterate (vmStep (recorded trace)) count start = .running m)
    (announced : Announces m.vm call) : InOrder trace start (count + 1) (calls ++ [call]) := by
  intro index found
  rcases Nat.lt_trichotomy index count with earlier | rfl | later
  · rw [List.getElem?_append_left (by omega), ordered]
    exact and_congr_left' (iff_of_true earlier (by omega))
  · rw [List.getElem?_append_right (by omega), full, Nat.sub_self, List.getElem?_singleton]
    simp only [reached, Nat.lt_succ_self, true_and, if_true, Option.some.injEq,
      Outcome.running.injEq, exists_eq_left']
    exact ⟨fun same => same ▸ announced, fun also => announced.unique also⟩
  · rw [List.getElem?_eq_none (by simp only [List.length_append, List.length_singleton]; omega)]
    exact iff_of_false (by simp) (by omega)

end Runs

end Sigma16

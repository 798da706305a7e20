import Sigma16.Simulation
import Sigma16.VmFrame

/-!
The words an instruction reads or writes, and the frame rule that follows for whole runs:
what the memory holds elsewhere is neither looked at nor changed.
-/

namespace Sigma16

open Words Transition Fallible

namespace Vm

def dataWords (vm : Vm) : Label → List Nat
  | .doLoad => if vm.cpu.ir.rx.d ≠ 0 then [vm.computeRxEaddr.cpu.adr.toNat] else []
  | .doStore => [vm.computeRxEaddr.cpu.adr.toNat]
  | .doTrap =>
      if vm.cpu.regs vm.cpu.ir.rrr.d = 2 then
        (List.range (vm.cpu.regs vm.cpu.ir.rrr.sb).toNat).map fun i =>
          (vm.cpu.regs vm.cpu.ir.rrr.sa + BitVec.ofNat 16 i).toNat
      else []
  | _ => []

/-- The word addresses the instruction at `pc` fetches, loads, stores or writes out. An
expanding opcode fetches a second word before anything is known about it. -/
def footprint (vm : Vm) : List Nat :=
  vm.cpu.pc.toNat ::
    match vm.word vm.cpu.pc.toNat with
    | .error _ => []
    | .ok head =>
        (if nibble head 1 = 14 ∨ nibble head 1 = 15 then [vm.cpu.pc.toNat + 1] else []) ++
        match dispatch vm with
        | .error _ => []
        | .ok (decoded, label) => match label.enter decoded with
          | .error _ => []
          | .ok seen => seen.dataWords label

end Vm

section Patching

variable (owned : Nat → Prop) [DecidablePred owned]

def patch (other mem : Mem) : Mem := fun index => if owned index then mem index else other index

def Vm.patch (other : Mem) (vm : Vm) : Vm := vm.setMem (Sigma16.patch owned other vm.mem)

def Machine.patch {Ctx : Type} (other : Mem) (m : Machine Ctx) : Machine Ctx :=
  { m with vm := m.vm.patch owned other }

end Patching

section Words

variable {owned : Nat → Prop} [DecidablePred owned] {other : Mem} {vm : Vm}

@[simp] theorem patch_cpu : (vm.patch owned other).cpu = vm.cpu := rfl

theorem patch_word {index : Nat} (inside : owned index) :
    (vm.patch owned other).word index = vm.word index := by
  unfold Vm.word
  split
  · simp only [Vm.patch, Vm.setMem_mem, patch, inside, if_true]
  · rfl

theorem patch_readMem {addr : Word} (inside : owned addr.toNat) :
    readMem (vm.patch owned other) addr = readMem vm addr := by
  rw [readMem, readMem, patch_word inside]

theorem patch_update {mem : Mem} {index : Fin memWords} (inside : owned index) (val : Word) :
    Function.update (patch owned other mem) index val =
      patch owned other (Function.update mem index val) := by
  funext position
  by_cases same : position = index
  · subst same
    simp only [Function.update_self, patch, inside, if_true]
  · simp only [patch, Function.update_of_ne same]

theorem Misdispatches.patch {stop : Stop} (fails : Misdispatches vm stop)
    (first : owned vm.cpu.pc.toNat)
    (second : ∀ head, vm.word vm.cpu.pc.toNat = .ok head →
      nibble head 1 = 14 ∨ nibble head 1 = 15 → owned (vm.cpu.pc.toNat + 1)) :
    Misdispatches (vm.patch owned other) stop := by
  cases fails with
  | fetch failed => exact .fetch ((patch_word first).trans failed)
  | second fetched opcode failed =>
      exact .second ((patch_word first).trans fetched) opcode
        ((patch_word (second _ fetched opcode)).trans failed)
  | exp fetched opcode tail outside =>
      exact .exp ((patch_word first).trans fetched) opcode
        ((patch_word (second _ fetched (.inl opcode))).trans tail) outside

theorem Dispatches.patch {decoded : Vm} {label : Label} (leads : Dispatches vm decoded label)
    (first : owned vm.cpu.pc.toNat)
    (second : ∀ head, vm.word vm.cpu.pc.toNat = .ok head →
      nibble head 1 = 14 ∨ nibble head 1 = 15 → owned (vm.cpu.pc.toNat + 1)) :
    Dispatches (vm.patch owned other) (decoded.patch owned other) label := by
  cases leads with
  | inst fetched entry => exact .inst ((patch_word first).trans fetched) entry
  | exp fetched opcode tail entry =>
      exact .exp ((patch_word first).trans fetched) opcode
        ((patch_word (second _ fetched (.inl opcode))).trans tail) entry
  | rx fetched opcode tail entry =>
      exact .rx ((patch_word first).trans fetched) opcode
        ((patch_word (second _ fetched (.inr opcode))).trans tail) entry

end Words

section Bodies

variable {owned : Nat → Prop} [DecidablePred owned] {other : Mem} {vm : Vm}

@[simp] theorem patch_safeUpdate (dst : Nibble) (val : Word) :
    (vm.patch owned other).safeUpdate dst val = (vm.safeUpdate dst val).patch owned other := by
  unfold Vm.safeUpdate
  split <;> rfl

@[simp] theorem patch_setReg (reg : Nibble) (val : Word) :
    (vm.patch owned other).setReg reg val = (vm.setReg reg val).patch owned other := rfl

@[simp] theorem patch_advance (words : Word) :
    (vm.patch owned other).advance words = (vm.advance words).patch owned other := rfl

@[simp] theorem patch_clearFlags :
    (vm.patch owned other).clearFlags = vm.clearFlags.patch owned other := rfl

@[simp] theorem patch_setFlag (flag : Flag) (bit : Bool) :
    (vm.patch owned other).setFlag flag bit = (vm.setFlag flag bit).patch owned other := rfl

@[simp] theorem patch_computeRxEaddr :
    (vm.patch owned other).computeRxEaddr = vm.computeRxEaddr.patch owned other := rfl

@[simp] theorem patch_branch (taken : Bool) :
    (vm.patch owned other).branch taken = (vm.branch taken).patch owned other := by
  cases taken <;> rfl

@[simp] theorem patch_applyOpRrr (op : CInt → CInt → CInt) :
    (vm.patch owned other).applyOpRrr op = (vm.applyOpRrr op).patch owned other := by
  simp only [Vm.applyOpRrr, patch_cpu, patch_safeUpdate, patch_advance]

theorem doDiv_patch : doDiv (vm.patch owned other) = (doDiv vm).patch owned other := by
  have divided : opDiv (vm.patch owned other) = (opDiv vm).patch owned other := by
    simp only [opDiv, patch_cpu, patch_safeUpdate, patch_setReg]
    split
    · rfl
    · split <;> rfl
  rw [doDiv, divided, patch_advance, ← doDiv]

theorem doLea_patch : doLea (vm.patch owned other) = (doLea vm).patch owned other := by
  by_cases zero : vm.cpu.ir.rx.d = 0
  · simp only [doLea, patch_cpu, zero, ne_eq, not_true_eq_false, if_false, patch_advance]
  · simp only [doLea, patch_cpu, zero, ne_eq, not_false_eq_true, if_true]
    rfl

theorem doLoad_patch (inside : vm.cpu.ir.rx.d ≠ 0 → owned vm.computeRxEaddr.cpu.adr.toNat) :
    doLoad (vm.patch owned other) = (doLoad vm).map (·.patch owned other) := by
  by_cases zero : vm.cpu.ir.rx.d = 0
  · simp only [doLoad, patch_cpu, zero, ne_eq, not_true_eq_false, if_false]
    rfl
  · simp only [doLoad, patch_cpu, zero, ne_eq, not_false_eq_true, if_true, patch_computeRxEaddr,
      patch_readMem (inside zero)]
    cases readMem vm.computeRxEaddr vm.computeRxEaddr.cpu.adr <;> rfl

theorem patch_writeMem {addr val : Word} (inside : owned addr.toNat) :
    writeMem (vm.patch owned other) addr val =
      (writeMem vm addr val).map (·.patch owned other) := by
  unfold writeMem Vm.setWord
  by_cases mapped : addr.toNat < memWords
  · have written := @patch_update owned _ other vm.mem ⟨addr.toNat, mapped⟩ inside (bswap16 val)
    rw [dif_pos mapped, dif_pos mapped]
    exact congrArg (fun mem => Except.ok (vm.setMem mem)) written
  · rw [dif_neg mapped, dif_neg mapped]
    rfl

theorem doStore_patch (inside : owned vm.computeRxEaddr.cpu.adr.toNat) :
    doStore (vm.patch owned other) = (doStore vm).map (·.patch owned other) := by
  simp only [doStore, patch_computeRxEaddr, patch_cpu, patch_writeMem inside]
  cases writeMem vm.computeRxEaddr vm.computeRxEaddr.cpu.adr
    (vm.computeRxEaddr.cpu.regs vm.computeRxEaddr.cpu.ir.rx.d) <;> rfl

theorem Label.body_patch {label : Label}
    (inside : ∀ index ∈ vm.dataWords label, owned index) :
    label.body (vm.patch owned other) = (label.body vm).map (·.patch owned other) := by
  cases label
  case doLoad =>
    refine doLoad_patch fun nonzero => inside _ ?_
    rw [Vm.dataWords, if_pos nonzero]
    exact List.mem_singleton_self _
  case doStore => exact doStore_patch (inside _ (List.mem_singleton_self _))
  case doDiv => exact congrArg Except.ok doDiv_patch
  case doLea => exact congrArg Except.ok doLea_patch
  case doCmp => rfl
  case doJumpf | doJumpt => exact congrArg Except.ok (patch_branch _)
  all_goals
    simp only [Label.body, Except.map, Sigma16.doAdd, Sigma16.doSub, Sigma16.doMul, Sigma16.doCmplt,
      Sigma16.doCmpeq, Sigma16.doCmpgt, Sigma16.doInvold, Sigma16.doAndold, Sigma16.doOrold,
      Sigma16.doXorold, Sigma16.doNop, Sigma16.doRfi, Sigma16.doJump,
      Sigma16.doJumpc0, Sigma16.doJumpc1, Sigma16.doJal,
      patch_cpu, patch_safeUpdate, patch_advance, patch_clearFlags, patch_setFlag, patch_branch,
      patch_applyOpRrr]

end Bodies

section Footprint

variable {owned : Nat → Prop} {vm decoded seen : Vm} {label : Label}

theorem footprint_second (inside : ∀ index ∈ vm.footprint, owned index) (head : Word)
    (fetched : vm.word vm.cpu.pc.toNat = .ok head)
    (expands : nibble head 1 = 14 ∨ nibble head 1 = 15) : owned (vm.cpu.pc.toNat + 1) := by
  refine inside _ (List.mem_cons_of_mem _ ?_)
  simp only [fetched, expands, if_true]
  exact List.mem_append_left _ (List.mem_singleton_self _)

theorem footprint_data (inside : ∀ index ∈ vm.footprint, owned index)
    (leads : Dispatches vm decoded label) (entered : label.enter decoded = .ok seen) :
    ∀ index ∈ seen.dataWords label, owned index := by
  intro index member
  obtain ⟨head, _, fetched, _⟩ := leads.enters
  refine inside index (List.mem_cons_of_mem _ ?_)
  simp only [fetched, dispatch_eq_ok.mpr leads, entered]
  exact List.mem_append_right _ member

end Footprint

section Runs

variable {Ctx : Type} {owned : Nat → Prop} [DecidablePred owned] {other : Mem}
variable {observe : TraceEvent → Cpu → Ctx → Ctx} {m : Machine Ctx}

def watching (observe : TraceEvent → Cpu → Ctx → Ctx) : TraceHandler Ctx :=
  observing fun event vm ctx => observe event vm.cpu ctx

theorem trapWriteFrom_patch {addr : Word} {count i : Nat}
    (inside : ∀ j, i ≤ j → j < i + count → owned (addr + BitVec.ofNat 16 j).toNat) :
    trapWriteFrom addr count i (m.patch owned other) =
      (trapWriteFrom addr count i m).map (·.patch owned other) := by
  induction count generalizing i m with
  | zero => rfl
  | succ count ih =>
      have same : readMem (m.patch owned other).vm (addr + BitVec.ofNat 16 i) =
          readMem m.vm (addr + BitVec.ofNat 16 i) :=
        patch_readMem (inside i (Nat.le_refl i) (by omega))
      simp only [trapWriteFrom, trapAddr_eq, same]
      cases read : readMem m.vm (addr + BitVec.ofNat 16 i) with
      | error stop => rfl
      | ok word =>
          exact @ih { m with out := m.out ++ [lowByte word] } (i + 1)
            fun j lower upper => inside j (by omega) (by omega)

theorem doTrap_patch (inside : ∀ index ∈ m.vm.dataWords .doTrap, owned index) :
    doTrap (watching observe) (m.patch owned other) =
      (doTrap (watching observe) m).map (·.patch owned other) := by
  have code : (m.patch owned other).vm.cpu = m.vm.cpu := rfl
  simp only [doTrap, code]
  by_cases halts : m.vm.cpu.regs m.vm.cpu.ir.rrr.d = 0
  · simp only [halts, if_true]
    rfl
  · simp only [halts, if_false]
    by_cases writes : m.vm.cpu.regs m.vm.cpu.ir.rrr.d = 2
    · have written : trapWrite (m.patch owned other) =
          (trapWrite m).map (·.patch owned other) := by
        refine trapWriteFrom_patch fun j _ upper => inside _ ?_
        rw [Vm.dataWords, if_pos writes]
        rw [Nat.zero_add] at upper
        exact List.mem_map_of_mem (List.mem_range.mpr upper)
      simp only [writes, if_true, written]
      cases trapWrite m <;> rfl
    · simp only [writes, if_false]
      rfl

theorem Label.enter_patch {vm decoded seen : Vm} {label : Label}
    (first : owned vm.cpu.pc.toNat) (leads : Dispatches vm decoded label)
    (entered : label.enter decoded = .ok seen) :
    label.enter (decoded.patch owned other) = .ok (seen.patch owned other) := by
  have same : decoded.cpu.pc = vm.cpu.pc := by cases leads <;> rfl
  cases refills : label.refills
  · rw [Label.enter_of_stale refills] at entered ⊢
    rw [Except.ok.inj entered]
  · simp only [Label.enter, refills, if_true, interpRrr_eq_ok] at entered ⊢
    obtain ⟨head, fetched, rfl⟩ := entered
    exact ⟨head, (patch_word (same ▸ first)).trans fetched, rfl⟩

theorem vmStep_patch (inside : ∀ index ∈ m.vm.footprint, owned index) :
    vmStep (watching observe) (m.patch owned other) =
      (vmStep (watching observe) m).map (·.patch owned other) := by
  have first : owned m.vm.cpu.pc.toNat := inside _ List.mem_cons_self
  have second := footprint_second inside
  cases dispatched : dispatch m.vm with
  | error stop =>
      have fails := dispatch_eq_error.mp dispatched
      rw [vmStep_misdispatch fails, vmStep_misdispatch (m := m.patch owned other)
        (fails.patch first second)]
      rfl
  | ok found =>
      obtain ⟨decoded, label⟩ := found
      have leads := dispatch_eq_ok.mp dispatched
      have follows : Dispatches (m.patch owned other).vm (decoded.patch owned other) label :=
        leads.patch first second
      obtain ⟨_, ir, _, entered, _⟩ := leads.enters
      have enters := @Label.enter_patch owned _ other _ _ _ _ first leads entered
      have data := footprint_data inside leads entered
      -- an invalid opcode touches no data word, TRAP any number of them, the others at most one
      by_cases bad : label = .doBadOp
      · subst label
        rw [watching, vmStep_badOp leads, vmStep_badOp follows]
        rfl
      · by_cases trap : label = .doTrap
        · subst label
          rw [watching, vmStep_trap leads entered, vmStep_trap follows enters]
          exact @doTrap_patch _ _ _ other observe
            { m with vm := m.vm.setIr ir, ctx := observe .instRrr (m.vm.setIr ir).cpu m.ctx } data
        · rw [watching, vmStep_plain leads entered trap bad, vmStep_plain follows enters trap bad,
            Label.body_patch data]
          cases label.body (m.vm.setIr ir) <;> rfl

/-- The frame rule: a run that touches owned words alone is the same whatever the other words
hold, and leaves them as they were. -/
theorem vmExec_local (observe : TraceEvent → Cpu → Ctx → Ctx) (owned : Nat → Prop)
    [DecidablePred owned] (other : Mem) (m : Machine Ctx) (count : Nat)
    (inside : ∀ before < count, ∀ middle, vmExec (watching observe) before m = .running middle →
      ∀ index ∈ middle.vm.footprint, owned index) :
    vmExec (watching observe) count (m.patch owned other) =
      (vmExec (watching observe) count m).map (·.patch owned other) := by
  let start : Machine Ctx := { m with ctx := observe .execStart m.vm.cpu m.ctx }
  have each : ∀ middle patched : Machine Ctx, middle.patch owned other = patched →
      (∀ index ∈ middle.vm.footprint, owned index) →
      (vmStep (watching observe) middle).Matches (· = ·)
        (fun state after => state.patch owned other = after) (vmStep (watching observe) patched) := by
    rintro middle patched rfl within
    exact Outcome.matches_graph.mpr (vmStep_patch within)
  have related : start.patch owned other = start.patch owned other := rfl
  exact Outcome.matches_graph.mp (iterate_matches _ each related count inside)

end Runs

theorem vmExec_local_store :
    vmExec (watching fun _ _ ctx => ctx) 2
        ((Machine.boot [0xF0, 0x02, 0x00, 0x04, 0xD0, 0x00]).patch (· ≤ 4) fun _ => 0xFFFF) =
      (vmExec (watching fun _ _ ctx => ctx) 2
        (Machine.boot [0xF0, 0x02, 0x00, 0x04, 0xD0, 0x00])).map
        (·.patch (· ≤ 4) fun _ => 0xFFFF) := by
  refine vmExec_local (fun _ _ ctx => ctx) (· ≤ 4) _ _ 2 fun before earlier middle run => ?_
  match before with
  | 0 =>
      obtain rfl := Outcome.running.inj run
      decide +kernel
  | 1 =>
      obtain rfl := Outcome.running.inj run
      decide +kernel

end Sigma16

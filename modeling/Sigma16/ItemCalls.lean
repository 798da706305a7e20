import Sigma16.ItemRules
import Sigma16.TraceProtocol

/-!
The trace calls of a program's run, item by item: what a handler is shown of each
instruction the program executes.
-/

namespace Sigma16

open Words Transition

def shown {Ctx : Type} (observe : TraceEvent → Vm → Ctx → Ctx) (ctx : Ctx)
    (calls : List TraceCall) : Ctx :=
  calls.foldl (fun ctx call => observe call.1 call.2 ctx) ctx

theorem shown_append {Ctx : Type} {observe : TraceEvent → Vm → Ctx → Ctx} (ctx : Ctx)
    (calls more : List TraceCall) :
    shown observe ctx (calls ++ more) = shown observe (shown observe ctx calls) more :=
  List.foldl_append

def executed (items : List Item) : Nat → ItemState → List (Nat × Item)
  | 0, _ => []
  | count + 1, s =>
      match items[s.index]? with
      | none => []
      | some item => (s.index, item) ::
          match itemStep items s with
          | .running next => executed items count next
          | .stopped _ _ => []

/-- The fields `INTERP_INST` leaves in the first word of `ir`. A NOP leaves it alone. -/
def Item.fields (last : InstRrr) : Item → InstRrr
  | rrr op d sa sb => if op.val = 12 then last else { d, op := BitVec.ofNat 4 op, sb, sa }
  | rx op d sa _ => { d, op := 15, sb := BitVec.ofNat 4 op, sa }
  | data _ => last

def Item.object (last : InstRrr) (item : Item) : InstructionObject :=
  match item with
  | rx op d sa disp => .rx { d, op := 15, sb := BitVec.ofNat 4 op, sa, disp := disp.word }
  | _ => .rrr (item.fields last)

/-- The calls for a sequence of items, the first of which finds `last` in `ir`: each is made
at the address of its item and shows its instruction. -/
inductive CallsFor (items : List Item) : InstRrr → List (Nat × Item) → List TraceCall → Prop
  | nil {last} : CallsFor items last [] []
  | cons {last index item entries call calls} :
      call.2.cpu.pc.toNat = itemOffset items index →
      vmTraceCompat call.2 call.1 = some (item.object last) →
      CallsFor items (item.fields last) entries calls →
      CallsFor items last ((index, item) :: entries) (call :: calls)

section Steps

variable {Ctx : Type} {observe : TraceEvent → Vm → Ctx → Ctx} {m : Machine Ctx}
variable {items : List Item} {s : ItemState} {item : Item} {last : InstRrr}

theorem rrrLabels_nop : ∀ op : Fin 14,
    Label.rrrLabels.getD op.val .doBadOp = .doNop ↔ op.val = 12 := by
  decide

theorem item_entered (real : Realizes items s m) (stored : items[s.index]? = some item)
    (inst : item.isInst = true) (stale : m.vm.cpu.ir.rrr = last) :
    ∃ decoded label ir, Dispatches m.vm decoded label ∧ label ≠ .doBadOp ∧
      label.enter decoded = .ok (m.vm.setIr ir) ∧ ir.rrr = item.fields last ∧
      vmTraceCompat (m.vm.setIr ir) label.event = some (item.object last) := by
  have held := real.held stored inst
  cases item with
  | data value => cases inst
  | rrr op d sa sb =>
      have entry := dispatchTable_rrrLabels op
      have member := rrrLabels_member op
      have nop := rrrLabels_nop op
      generalize Label.rrrLabels.getD op.val .doBadOp = label at entry member nop
      obtain ⟨ir, leads, entered, filled⟩ := held.rrr entry
      have fields : ir.rrr = (Item.rrr op d sa sb).fields last := by
        rw [Item.fields]
        split
        · rename_i isNop
          obtain rfl := nop.mpr isNop
          have same : m.vm = m.vm.setIr ir := Except.ok.inj entered
          rw [← stale]
          exact (congrArg (·.cpu.ir.rrr) same).symm
        · rename_i notNop
          exact filled fun same => notNop (nop.mp same)
      have valid : label ≠ .doBadOp := by
        rintro rfl
        exact absurd member (by decide)
      have event : label.event = .instRrr := Label.event_of_primary (List.mem_of_getElem? entry)
      refine ⟨_, label, ir, leads, valid, entered, fields, ?_⟩
      rw [event, vmTraceCompat, Vm.setIr_ir, fields]
      rfl
  | rx op d sa disp =>
      have entry := rxDispatchTable_rxLabels op
      have member := rxLabels_member op
      generalize Label.rxLabels.getD op.val .doBadOp = label at entry member
      obtain ⟨ir, leads, entered, filled⟩ := held.rx label entry
      have valid : label ≠ .doBadOp := by
        rintro rfl
        exact absurd member (by decide)
      have event : label.event = .instRx :=
        Label.event_of_secondary (List.mem_of_getElem? entry) valid
      have head : ir.rrr = ⟨ir.rx.d, ir.rx.op, ir.rx.sb, ir.rx.sa⟩ := rfl
      refine ⟨_, label, ir, leads, valid, entered, ?_, ?_⟩
      · rw [head, filled]
        rfl
      · rw [event, vmTraceCompat, Vm.setIr_ir, filled]
        rfl

theorem step_callsFor (real : Realizes items s m) (stored : items[s.index]? = some item)
    (inst : item.isInst = true) (stale : m.vm.cpu.ir.rrr = last) :
    ∃ call ending, call.2.cpu.pc.toNat = itemOffset items s.index ∧
      vmTraceCompat call.2 call.1 = some (item.object last) ∧
      (∀ more ∈ ending, more.1 = .execEnd) ∧
      (vmStep (observing observe) m).state.ctx = shown observe m.ctx (call :: ending) ∧
      ∀ next, vmStep (observing observe) m = .running next →
        next.vm.cpu.ir.rrr = item.fields last ∧ next.ctx = shown observe m.ctx [call] := by
  obtain ⟨decoded, label, ir, leads, valid, entered, fields, object⟩ :=
    item_entered real stored inst stale
  have running : ∀ next, vmStep (observing observe) m = .running next →
      next.vm.cpu.ir.rrr = item.fields last ∧
        next.ctx = shown observe m.ctx [(label.event, m.vm.setIr ir)] := by
    intro next run
    obtain ⟨decoded', label', seen, after, leads', entered', handled, body⟩ := vmStep_running run
    obtain ⟨rfl, rfl⟩ := leads.unique leads'
    obtain rfl := Except.ok.inj (entered.symm.trans entered')
    obtain ⟨left, context⟩ := Prod.mk.inj handled
    obtain rfl := Option.some.inj left
    rw [Label.body_ir body, Vm.setIr_ir, fields]
    exact ⟨rfl, context.symm⟩
  rcases @vmStep_ctx _ (observing observe) _ _ _ _ leads valid entered with same | ⟨after, _, ended⟩
  · exact ⟨(label.event, m.vm.setIr ir), [], real.pc, object, by simp, same, running⟩
  · exact ⟨(label.event, m.vm.setIr ir), [(.execEnd, after)], real.pc, object, by simp, ended,
      running⟩

theorem itemStep_inst (sound : ∀ wrong, itemStep items s ≠ .stopped .wrong wrong) :
    ∃ item, items[s.index]? = some item ∧ item.isInst = true := by
  unfold itemStep at sound
  cases stored : items[s.index]? with
  | none =>
      rw [stored] at sound
      exact absurd rfl (sound s)
  | some item =>
      rw [stored] at sound
      cases item with
      | data value => exact absurd rfl (sound s)
      | rrr op d sa sb => exact ⟨_, rfl, rfl⟩
      | rx op d sa disp => exact ⟨_, rfl, rfl⟩

theorem run_callsFor (real : Realizes items s m) (stale : m.vm.cpu.ir.rrr = last) (count : Nat)
    (sound : ∀ wrong, iterate (itemStep items) count s ≠ .stopped .wrong wrong) :
    ∃ calls ending, CallsFor items last (executed items count s) calls ∧
      (∀ more ∈ ending, more.1 = .execEnd) ∧
      (iterate (vmStep (observing observe)) count m).state.ctx =
        shown observe m.ctx (calls ++ ending) := by
  -- from the front of the run: what a NOP is shown with depends on the instruction before it
  induction count generalizing s m last with
  | zero => exact ⟨[], [], .nil, by simp, rfl⟩
  | succ count ih =>
      have here : ∀ wrong, itemStep items s ≠ .stopped .wrong wrong := by
        intro wrong goes
        refine sound wrong ?_
        rw [iterate, goes, Outcome.bind_stopped]
      obtain ⟨item, stored, inst⟩ := itemStep_inst here
      obtain ⟨call, ending, pc, object, silent, called, running⟩ :=
        @step_callsFor _ observe _ _ _ _ _ real stored inst stale
      have step : StepMatches items (itemStep items s) (vmStep (observing observe) m) :=
        itemStep_matches real here
      rw [iterate, executed, stored]
      cases run : itemStep items s with
      | running next =>
          rw [run] at step
          obtain ⟨after, taken, later⟩ := step.of_running
          obtain ⟨refilled, before⟩ := running after taken
          rw [iterate, run, Outcome.bind_running] at sound
          obtain ⟨calls, rest, made, quiet, shows⟩ := ih later refilled sound
          refine ⟨call :: calls, rest, .cons pc object made, quiet, ?_⟩
          rw [taken, Outcome.bind_running, shows, before]
          rfl
      | stopped reason halted =>
          rw [run] at step
          obtain ⟨stop, after, taken, -⟩ := step.of_stopped
          refine ⟨[call], ending, .cons pc object .nil, silent, ?_⟩
          rw [taken] at called ⊢
          exact called

end Steps

end Sigma16

import Sigma16.VmStep

/-!
What the trace handler is shown: the instruction at `pc`, or for a NOP whatever
`ir` was left with.
-/

namespace Sigma16

open Words Transition

def rrrInstMnemonics : List String :=
  ["add", "sub", "mul", "div", "cmp", "cmplt", "cmpeq",
   "cmpgt", "inv", "and", "or", "xor", "nop", "trap"]

def rxInstMnemonics : List String :=
  ["lea", "load", "store", "jump", "jumpc0", "jumpc1", "jumpf", "jumpt", "jal"]

def sigma16TraceMnemonic (vm : Vm) : TraceEvent → Option String
  | .instRrr => rrrInstMnemonics[vm.cpu.ir.rrr.op.toNat]?
  | .instRx => rxInstMnemonics[vm.cpu.ir.rx.sb.toNat]?
  | .instExp0 | .execStart | .execEnd => none

inductive InstructionObject where
  | rrr (inst : InstRrr)
  | rx (inst : InstRx)
  | exp0 (inst : InstExp0)
  deriving DecidableEq

def vmTraceCompat (vm : Vm) : TraceEvent → Option InstructionObject
  | .instRrr => some (.rrr vm.cpu.ir.rrr)
  | .instRx => some (.rx vm.cpu.ir.rx)
  | .instExp0 => some (.exp0 vm.cpu.ir.exp0)
  | .execStart | .execEnd => none

/-- The handler sees the fields decoding would give at the current `pc`, and `tracing.c`
finds their mnemonic. -/
structure Faithful (event : TraceEvent) (vm : Vm) : Prop where
  rrr : event = .instRrr → ∃ decoded, interpRrr vm = .ok decoded ∧
    vm.cpu.ir.rrr = decoded.cpu.ir.rrr ∧ vmTraceCompat vm event = vmTraceCompat decoded event ∧
    vm.cpu.ir.rrr.op.toNat < 14 ∧ (sigma16TraceMnemonic vm event).isSome
  rx : event = .instRx → ∃ decoded, interpRx vm = .ok decoded ∧
    vm.cpu.ir.rx = decoded.cpu.ir.rx ∧ vmTraceCompat vm event = vmTraceCompat decoded event ∧
    vm.cpu.ir.rx.sb.toNat < 9 ∧ (sigma16TraceMnemonic vm event).isSome

/-- A NOP at `pc` finds its own word in `ir`, left there by the instruction before. -/
def NopRefilled (vm : Vm) : Prop :=
  ∀ head, vm.word vm.cpu.pc.toNat = .ok head → nibble head 1 = 12 → vm.cpu.ir.head = head

section Decoding

variable {vm decoded seen : Vm} {label : Label} {head : Word}

theorem dispatchTable_nop : ∀ op : Nibble,
    dispatchTable[op.toNat]? = some (.inst .doNop) ↔ op = 12 := by
  decide

theorem dispatchTable_inst_lt {op : Nibble}
    (entry : dispatchTable[op.toNat]? = some (.inst label)) : op.toNat < 14 := by
  have secondary : ∀ op : Nibble, op.toNat < 14 ∨
      dispatchTable[op.toNat]? = some .doDecodeExp ∨ dispatchTable[op.toNat]? = some .doDecodeRx := by
    decide
  rcases secondary op with primary | exp | rx
  · exact primary
  · simp [entry] at exp
  · simp [entry] at rx

theorem rxDispatchTable_lt {sb : Nibble} (entry : rxDispatchTable[sb.toNat]? = some label)
    (valid : label ≠ .doBadOp) : sb.toNat < 9 := by
  have defined : ∀ sb : Nibble, sb.toNat < 9 ∨ rxDispatchTable[sb.toNat]? = some .doBadOp := by
    decide
  rcases defined sb with inside | bad
  · exact inside
  · simp_all

theorem rrr_faithful (fetched : vm.word vm.cpu.pc.toNat = .ok head) (filled : vm.cpu.ir.head = head)
    (primary : (nibble head 1).toNat < 14) : Faithful .instRrr vm := by
  subst head
  refine ⟨fun _ => ⟨_, interpRrr_eq_ok.mpr ⟨_, fetched, rfl⟩, rfl, rfl, primary, ?_⟩, nofun⟩
  simp only [sigma16TraceMnemonic, isSome_getElem?]
  exact primary

theorem rx_faithful {tail : Word} (fetched : vm.word vm.cpu.pc.toNat = .ok head)
    (second : vm.word (vm.cpu.pc.toNat + 1) = .ok tail)
    (filled : vm.cpu.ir = { head, tail := bswap16 tail }) (defined : (nibble head 2).toNat < 9) :
    Faithful .instRx vm := by
  refine ⟨nofun, fun _ => ⟨_, interpRx_eq_ok.mpr ⟨_, fetched, _, second, rfl⟩, ?_, ?_, ?_, ?_⟩⟩
  · rw [filled]; rfl
  · simp only [vmTraceCompat, filled, Vm.setIr_ir]
  · rw [filled]; exact defined
  · simp only [sigma16TraceMnemonic, isSome_getElem?, filled]
    exact defined

theorem nop_faithful (fetched : vm.word vm.cpu.pc.toNat = .ok head) (opcode : nibble head 1 = 12) :
    Faithful .instRrr vm ↔ vm.cpu.ir.head = head := by
  constructor
  · intro faithful
    obtain ⟨decoded, refilled, fields, _⟩ := faithful.rrr rfl
    obtain ⟨head', fetched', rfl⟩ := interpRrr_eq_ok.mp refilled
    obtain rfl := Except.ok.inj (fetched.symm.trans fetched')
    simp only [InstVariant.rrr, Vm.setIr_ir, InstRrr.mk.injEq] at fields
    exact nibble_ext fields.1 fields.2.1 fields.2.2.1 fields.2.2.2
  · intro filled
    exact rrr_faithful fetched filled (by rw [opcode]; decide)

theorem faithful_other {event : TraceEvent} (notRrr : event ≠ .instRrr) (notRx : event ≠ .instRx) :
    Faithful event vm :=
  ⟨fun same => absurd same notRrr, fun same => absurd same notRx⟩

theorem Dispatches.faithful (leads : Dispatches vm decoded label) (valid : label ≠ .doBadOp)
    (entered : label.enter decoded = .ok seen) :
    Faithful label.event seen ↔ NopRefilled vm := by
  have other : ∀ {head}, vm.word vm.cpu.pc.toNat = .ok head → nibble head 1 ≠ 12 →
      NopRefilled vm := by
    intro head fetched notNop head' fetched' nop
    obtain rfl := Except.ok.inj (fetched.symm.trans fetched')
    exact absurd nop notNop
  cases leads with
  | @inst head _ fetched entry =>
      by_cases nop : label = .doNop
      · subst label
        obtain rfl := Except.ok.inj entered
        have opcode := (dispatchTable_nop _).mp entry
        refine (nop_faithful fetched opcode).trans ⟨fun filled head' fetched' _ => ?_,
          fun refilled => refilled head fetched opcode⟩
        obtain rfl := Except.ok.inj (fetched.symm.trans fetched')
        exact filled
      · have notNop : nibble head 1 ≠ 12 := fun same => nop (Target.inst.inj (Option.some.inj
          (entry.symm.trans ((dispatchTable_nop _).mpr same))))
        have refills := Label.refills_of_primary (List.mem_of_getElem? entry) nop
        obtain ⟨head', fetched', rfl⟩ : ∃ head', vm.word vm.cpu.pc.toNat = .ok head' ∧
            vm.setIr { vm.cpu.ir with head := head' } = seen := by
          simpa [Label.enter, refills, interpRrr_eq_ok] using entered
        obtain rfl := Except.ok.inj (fetched.symm.trans fetched')
        have event : label.event = .instRrr := Label.event_of_primary (List.mem_of_getElem? entry)
        rw [event]
        exact iff_of_true (rrr_faithful fetched rfl (dispatchTable_inst_lt entry))
          (other fetched notNop)
  | @exp head _ _ fetched opcode second entry =>
      obtain rfl : label = .doRfi := by simpa [expDispatchTable] using List.mem_of_getElem? entry
      exact iff_of_true (faithful_other (by decide) (by decide))
        (other fetched (by rw [opcode]; decide))
  | @rx head _ _ fetched opcode second entry =>
      have member := List.mem_of_getElem? entry
      obtain rfl : vm.setIr _ = seen := Except.ok.inj
        ((Label.enter_of_stale (Label.refills_of_secondary member) _).symm.trans entered)
      have event : label.event = .instRx := Label.event_of_secondary member valid
      rw [event]
      exact iff_of_true (rx_faithful fetched second rfl (rxDispatchTable_lt entry valid))
        (other fetched (by rw [opcode]; decide))

end Decoding

section Calls

variable {Ctx : Type}

def recorded (trace : TraceHandler Ctx) : TraceHandler (List (TraceEvent × Vm) × Ctx) :=
  fun event vm (calls, ctx) =>
    ((trace event vm ctx).1, calls ++ [(event, vm)], (trace event vm ctx).2)

variable {trace : TraceHandler Ctx} {m : Machine (List (TraceEvent × Vm) × Ctx)}

def OnlyEnds (before after : List (TraceEvent × Vm)) : Prop :=
  ∃ rest, after = before ++ rest ∧ ∀ call ∈ rest, call.1 = .execEnd

theorem vmStep_calls (trace : TraceHandler Ctx) {decoded seen : Vm} {label : Label}
    (leads : Dispatches m.vm decoded label) (valid : label ≠ .doBadOp)
    (entered : label.enter decoded = .ok seen) :
    OnlyEnds (m.ctx.1 ++ [(label.event, seen)]) (vmStep (recorded trace) m).state.ctx.1 := by
  rcases @vmStep_ctx _ (recorded trace) m label decoded seen leads valid entered with
    same | ⟨after, _, ended⟩
  · exact ⟨[], by rw [same]; simp [recorded], by simp⟩
  · exact ⟨[(.execEnd, after)], by rw [ended]; rfl, by simp⟩

theorem vmStep_faithful :
    (∀ call ∈ (vmStep (recorded trace) m).state.ctx.1, Faithful call.1 call.2) ↔
      (∀ call ∈ m.ctx.1, Faithful call.1 call.2) ∧ NopRefilled m.vm := by
  by_cases called : ∃ decoded label, Dispatches m.vm decoded label ∧ label ≠ .doBadOp
  · obtain ⟨decoded, label, leads, valid⟩ := called
    obtain ⟨_, ir, _, entered, _⟩ := leads.enters
    obtain ⟨rest, calls, only⟩ := vmStep_calls trace leads valid entered
    rw [← leads.faithful valid entered, calls]
    constructor
    · intro faithful
      exact ⟨fun call before => faithful call (by simp [before]),
        faithful (label.event, m.vm.setIr ir) (by simp)⟩
    · rintro ⟨earlier, shown⟩ call member
      simp only [List.mem_append, List.mem_singleton] at member
      rcases member with (before | rfl) | ending
      · exact earlier call before
      · exact shown
      · rw [only call ending]
        exact faithful_other (by decide) (by decide)
  · obtain ⟨stop, last, stopped, same⟩ :=
      @vmStep_uncalled _ (recorded trace) m (by simpa using called)
    rw [stopped, Outcome.state_stopped, same]
    refine (and_iff_left fun head fetched opcode => ?_).symm
    have entry := (dispatchTable_nop _).mpr opcode
    exact absurd ⟨_, _, .inst fetched entry, by decide⟩ called

/-- Every call of every run shows the handler the instruction about to execute exactly
when every NOP of the run happens to find its own word in `ir`. -/
theorem trace_faithful (trace : TraceHandler Ctx) (executable : List Byte) (ctx : Ctx) :
    (∀ m, Reachable (recorded trace) executable ([], ctx) m →
      ∀ call ∈ (vmStep (recorded trace) m).state.ctx.1, Faithful call.1 call.2) ↔
    ∀ m, Reachable (recorded trace) executable ([], ctx) m → NopRefilled m.vm := by
  constructor
  · intro faithful m reached
    exact (vmStep_faithful.mp (faithful m reached)).2
  · intro refilled m reached
    refine vmStep_faithful.mpr ⟨?_, refilled m reached⟩
    obtain ⟨loaded, entry, run⟩ := reached
    refine (run.invariant (fun m => Reachable (recorded trace) executable ([], ctx) m ∧
      ∀ call ∈ m.ctx.1, Faithful call.1 call.2) ?_ ⟨.intro loaded entry (.refl _), ?_⟩).2
    · rintro state next ⟨⟨loaded, entry, before⟩, earlier⟩ taken
      have reached := Reachable.intro loaded entry before
      refine ⟨.intro loaded entry (before.next taken), ?_⟩
      have shown : ∀ call ∈ (vmStep (recorded trace) state).state.ctx.1, Faithful call.1 call.2 :=
        vmStep_faithful.mpr ⟨earlier, refilled state reached⟩
      rwa [taken] at shown
    · obtain ⟨vm, after, handled, started⟩ := traced_eq_running.mp entry
      obtain rfl := Outcome.running.inj started
      have calls : [(.execStart, _)] = after.1 := congrArg (fun result => result.2.1) handled
      change ∀ call ∈ after.1, Faithful call.1 call.2
      simp only [← calls, List.mem_singleton, forall_eq]
      exact faithful_other (by decide) (by decide)

end Calls

section Observed

variable {vm after decoded : Vm} {label : Label} {head : Word}

theorem Label.body_ir (ran : label.body vm = .ok after) : after.cpu.ir = vm.cpu.ir := by
  cases label <;> simp only [Label.body, Except.ok.injEq, reduceCtorEq] at ran
  case doLoad =>
    simp only [Sigma16.doLoad] at ran
    split at ran
    · obtain ⟨val, _, updated⟩ := Fallible.bind_eq_ok.mp ran
      obtain rfl := Except.ok.inj updated
      rfl
    · obtain rfl := Except.ok.inj ran
      rfl
  case doStore =>
    obtain ⟨_, rfl⟩ := doStore_eq_ok ran
    rfl
  all_goals subst after
  case doDiv =>
    simp only [Sigma16.doDiv, Vm.advance_ir, opDiv]
    split
    · rfl
    · split <;> simp
  case doLea =>
    simp only [Sigma16.doLea, Vm.advance_ir]
    split <;> rfl
  case doJump | doJumpc0 | doJumpc1 | doJumpf | doJumpt =>
    simp only [Sigma16.doJump, Sigma16.doJumpc0, Sigma16.doJumpc1, Sigma16.doJumpf,
      Sigma16.doJumpt, Vm.branch]
    split <;> rfl
  case doJal => exact Vm.safeUpdate_ir _ _ _
  all_goals simp [Sigma16.doAdd, Sigma16.doSub, Sigma16.doMul, Sigma16.doCmp, Sigma16.doCmplt,
    Sigma16.doCmpeq, Sigma16.doCmpgt, Sigma16.doInvold, Sigma16.doAndold, Sigma16.doOrold,
    Sigma16.doXorold, Sigma16.doNop, Sigma16.doRfi]

theorem Dispatches.not_nop (leads : Dispatches vm decoded label) (other : label ≠ .doNop)
    (fetched : vm.word vm.cpu.pc.toNat = .ok head) : nibble head 1 ≠ 12 := by
  intro opcode
  have nop : Dispatches vm vm .doNop := .inst fetched ((dispatchTable_nop _).mpr opcode)
  exact other (leads.unique nop).2

variable {Ctx : Type} {observe : TraceEvent → Vm → Ctx → Ctx} {executable : List Byte} {ctx : Ctx}
variable {m : Machine (List (TraceEvent × Vm) × Ctx)}

theorem reachable_ir (reached : Reachable (recorded (observing observe)) executable ([], ctx) m) :
    nibble m.vm.cpu.ir.head 1 ≠ 12 := by
  obtain ⟨loaded, entry, run⟩ := reached
  refine run.invariant (fun m => nibble m.vm.cpu.ir.head 1 ≠ 12) ?_ ?_
  · intro state next stale taken
    obtain ⟨decoded, label, seen, after, leads, entered, handled, body⟩ := vmStep_running taken
    obtain rfl : seen = after := Option.some.inj (congrArg Prod.fst handled)
    obtain ⟨head, ir, fetched, enters, nop, refilled, _⟩ := leads.enters
    obtain rfl := Except.ok.inj (enters.symm.trans entered)
    rw [Label.body_ir body, Vm.setIr_ir]
    by_cases same : label = .doNop
    · rw [nop same]
      exact stale
    · rw [refilled same]
      exact leads.not_nop same fetched
  · obtain ⟨vm, after, handled, started⟩ := traced_eq_running.mp entry
    obtain rfl := Outcome.running.inj started
    obtain rfl := Option.some.inj (congrArg Prod.fst handled)
    unfold sigma16VmInit at loaded
    split at loaded
    · obtain rfl := Except.ok.inj loaded
      change nibble (0 : Word) 1 ≠ 12
      decide
    · cases loaded

/-- For a handler that only looks on, no NOP ever finds its word in `ir`. -/
theorem nopRefilled_observing :
    (∀ m, Reachable (recorded (observing observe)) executable ([], ctx) m → NopRefilled m.vm) ↔
      ∀ m, Reachable (recorded (observing observe)) executable ([], ctx) m →
        ∀ head, m.vm.word m.vm.cpu.pc.toNat = .ok head → nibble head 1 ≠ 12 := by
  constructor
  · intro refilled m reached head fetched nop
    apply reachable_ir reached
    rw [refilled m reached head fetched nop]
    exact nop
  · intro absent m reached head fetched nop
    exact absurd nop (absent m reached head fetched)

end Observed

/-- `jump 2[R0]` followed by a NOP: the NOP is announced with the opcode of the jump. -/
theorem trace_faithful_fails :
    ¬ ∀ (executable : List Byte) m,
      Reachable (recorded (observing fun _ _ ctx => ctx)) executable ([], ()) m →
      ∀ call ∈ (vmStep (recorded (observing fun _ _ ctx => ctx)) m).state.ctx.1,
        Faithful call.1 call.2 := by
  intro faithful
  have reached : Reachable (recorded (observing fun _ _ ctx => ctx))
      [0xF0, 0x03, 0x00, 0x02, 0xC0, 0x00] ([], ()) _ :=
    .intro rfl rfl (.next (.refl _) rfl)
  obtain ⟨_, _, _, _, primary, _⟩ :=
    (faithful _ _ reached _ (.tail _ (.tail _ (.head _)))).rrr rfl
  exact absurd primary (by decide)

end Sigma16

import Sigma16.Debugger
import Sigma16.VmZeroRegister

/-!
The commands `i` and `o`. Their guard refuses the registers 1 to 14, and lets through R0
and every index outside the array.
-/

namespace Sigma16

open PyText Words Transition Fallible

section Purpose

variable (vm : Vm) (ctx : DebuggerCtx) (idx val : CInt)

/-- `i idx val` writes a register from 1 to 15, and refuses any other index. -/
def WritesRegister : Prop :=
  debuggerObey vm ctx (.writeReg idx val) =
    if 1 ≤ idx.toInt ∧ idx.toInt ≤ 15 then
      .prompt (vm.setReg (BitVec.ofInt 4 idx.toInt) (truncate val)) ctx
    else .prompt vm (ctx.print [.text "invalid register\n"])

/-- `o idx` shows a register from 0 to 15, and refuses any other index. -/
def ReadsRegister : Prop :=
  debuggerObey vm ctx (.readReg idx) =
    if 0 ≤ idx.toInt ∧ idx.toInt ≤ 15 then
      .prompt vm (ctx.print [.register idx (vm.cpu.regs (BitVec.ofInt 4 idx.toInt))])
    else .prompt vm (ctx.print [.text "invalid register\n"])

end Purpose

def DebuggerCmd.Guarded : DebuggerCmd → Prop
  | writeReg idx _ => idx = 15
  | readReg idx => idx = 0 ∨ idx = 15
  | _ => True

def GuardedLine (line : Str) : Prop := ∀ cmd, parseCmd line = .cmd cmd → cmd.Guarded

section Commands

variable {vm : Vm} {ctx : DebuggerCtx} {idx val : CInt}

theorem guard_eq (idx : CInt) : (BitVec.slt 0 idx && BitVec.slt idx 15) = true ↔
    0 < idx.toInt ∧ idx.toInt < 15 := by
  have zero : (0 : CInt).toInt = 0 := by decide
  have fifteen : (15 : CInt).toInt = 15 := by decide
  rw [Bool.and_eq_true, BitVec.slt_iff_toInt_lt, BitVec.slt_iff_toInt_lt, zero, fifteen]

theorem registerAt_outside (outside : idx.toInt < 0 ∨ 15 < idx.toInt) : registerAt idx = none := by
  apply if_neg
  rw [BitVec.toInt_eq_toNat_cond] at outside
  split at outside <;> omega

theorem guard_outside (outside : idx.toInt < 0 ∨ 15 < idx.toInt) :
    ¬ (BitVec.slt 0 idx && BitVec.slt idx 15) = true := by
  rw [guard_eq]
  omega

theorem index_cases (idx : CInt) :
    idx = 0 ∨ idx = 15 ∨ (0 < idx.toInt ∧ idx.toInt < 15) ∨ idx.toInt < 0 ∨ 15 < idx.toInt := by
  have zero : (0 : CInt).toInt = 0 := by decide
  have fifteen : (15 : CInt).toInt = 15 := by decide
  by_cases first : idx.toInt = 0
  · exact .inl (BitVec.eq_of_toInt_eq (first.trans zero.symm))
  · by_cases last : idx.toInt = 15
    · exact .inr (.inl (BitVec.eq_of_toInt_eq (last.trans fifteen.symm)))
    · omega

theorem text_ne (ctx : DebuggerCtx) (message : String) : ctx.print [.text message] ≠ ctx := by
  intro same
  have terminal := congrArg (fun ctx => ctx.terminal.length) same
  simp [DebuggerCtx.print] at terminal

theorem writeReg_refused (refused : 0 < idx.toInt ∧ idx.toInt < 15) :
    debuggerObey vm ctx (.writeReg idx val) = .prompt vm (ctx.print [.text "invalid register\n"]) :=
  if_pos ((guard_eq idx).mpr refused)

theorem readReg_refused (refused : 0 < idx.toInt ∧ idx.toInt < 15) :
    debuggerObey vm ctx (.readReg idx) = .prompt vm (ctx.print [.text "invalid register\n"]) :=
  if_pos ((guard_eq idx).mpr refused)

theorem writeReg_outside (outside : idx.toInt < 0 ∨ 15 < idx.toInt) :
    debuggerObey vm ctx (.writeReg idx val) = .left ctx := by
  simp only [debuggerObey, debuggerWriteReg, if_neg (guard_outside outside),
    registerAt_outside outside]

theorem readReg_outside (outside : idx.toInt < 0 ∨ 15 < idx.toInt) :
    debuggerObey vm ctx (.readReg idx) = .left ctx := by
  simp only [debuggerObey, debuggerReadReg, if_neg (guard_outside outside),
    registerAt_outside outside]

theorem writesRegister_iff : WritesRegister vm ctx idx val ↔ idx = 15 := by
  unfold WritesRegister
  rcases index_cases idx with rfl | rfl | refused | outside
  · refine iff_of_false (fun same => ?_) (by decide)
    exact text_ne ctx _ (Action.prompt.inj same).2.symm
  · exact iff_of_true rfl rfl
  · rw [writeReg_refused refused, if_pos (by omega)]
    refine iff_of_false (fun same => text_ne ctx _ (Action.prompt.inj same).2) ?_
    rintro rfl
    exact absurd refused.2 (by decide)
  · rw [writeReg_outside outside, if_neg (by omega)]
    refine iff_of_false (fun same => by cases same) ?_
    rintro rfl
    exact absurd outside (by decide)

theorem readsRegister_iff : ReadsRegister vm ctx idx ↔ idx = 0 ∨ idx = 15 := by
  unfold ReadsRegister
  rcases index_cases idx with rfl | rfl | refused | outside
  · exact iff_of_true rfl (.inl rfl)
  · exact iff_of_true rfl (.inr rfl)
  · rw [readReg_refused refused, if_pos (by omega)]
    refine iff_of_false (fun same => ?_) ?_
    · have terminal := congrArg DebuggerCtx.terminal (Action.prompt.inj same).2
      simp [DebuggerCtx.print] at terminal
    · rintro (rfl | rfl)
      · exact absurd refused.1 (by decide)
      · exact absurd refused.2 (by decide)
  · rw [readReg_outside outside, if_neg (by omega)]
    refine iff_of_false (fun same => by cases same) ?_
    rintro (rfl | rfl)
    · exact absurd outside (by decide)
    · exact absurd outside (by decide)

end Commands

def OnlyStatus (before after : Vm) : Prop := ∃ val, after = before.setReg 15 val

theorem OnlyStatus.refl (vm : Vm) : OnlyStatus vm vm := by
  refine ⟨vm.cpu.regs 15, ?_⟩
  rw [Vm.setReg, Function.update_eq_self]

theorem OnlyStatus.trans {first second third : Vm} (before : OnlyStatus first second)
    (after : OnlyStatus second third) : OnlyStatus first third := by
  obtain ⟨earlier, rfl⟩ := before
  obtain ⟨val, rfl⟩ := after
  refine ⟨val, ?_⟩
  rw [Vm.setReg, Vm.setReg, Vm.setReg, Function.update_idem]

theorem OnlyStatus.zero {before after : Vm} (only : OnlyStatus before after) :
    after.cpu.regs 0 = before.cpu.regs 0 := by
  obtain ⟨val, rfl⟩ := only
  have notStatus : (0 : Nibble) ≠ 15 := by decide
  exact Function.update_of_ne notStatus val before.cpu.regs

section Sessions

variable {vm after : Vm} {ctx next : DebuggerCtx} {cmd : DebuggerCmd}

theorem dumpMem_keeps {stop start : CInt}
    (obeyed : debuggerDumpMem vm ctx stop start = .resume after next ∨
      debuggerDumpMem vm ctx stop start = .prompt after next) : vm = after := by
  simp only [debuggerDumpMem] at obeyed
  split at obeyed
  · split at obeyed <;> rcases obeyed with resumed | stayed
    · cases resumed
    · exact (Action.prompt.inj stayed).1
    · cases resumed
    · cases stayed
  · rcases obeyed with resumed | stayed
    · cases resumed
    · cases stayed

theorem obey_guarded (guarded : cmd.Guarded)
    (obeyed : debuggerObey vm ctx cmd = .resume after next ∨
      debuggerObey vm ctx cmd = .prompt after next) : OnlyStatus vm after := by
  cases cmd with
  | writeReg idx val =>
      obtain rfl : idx = 15 := guarded
      rcases obeyed with resumed | stayed
      · cases resumed
      · obtain ⟨rfl, _⟩ := Action.prompt.inj stayed
        exact ⟨truncate val, rfl⟩
  | readReg idx =>
      obtain rfl : vm = after := by
        rcases guarded with rfl | rfl <;> rcases obeyed with resumed | stayed
        · cases resumed
        · exact (Action.prompt.inj stayed).1
        · cases resumed
        · exact (Action.prompt.inj stayed).1
      exact .refl vm
  | dumpMem stop start =>
      obtain rfl := dumpMem_keeps obeyed
      exact .refl vm
  | step _ | cont =>
      rcases obeyed with resumed | stayed
      · rw [← (Action.resume.inj resumed).1]
        exact .refl vm
      · cases stayed
  | trace | setBreakpoint _ | dumpCpu | help =>
      rcases obeyed with resumed | stayed
      · cases resumed
      · rw [← (Action.prompt.inj stayed).1]
        exact .refl vm
  | exit => rcases obeyed with resumed | stayed <;> contradiction

theorem interactive_guarded {input : List Str} (guarded : ∀ line ∈ input, GuardedLine line) :
    OnlyStatus vm (debuggerInteractive vm ctx input).vm ∧
      ∀ line ∈ (debuggerInteractive vm ctx input).input, GuardedLine line := by
  fun_induction debuggerInteractive vm ctx input with
  | case1 vm ctx => exact ⟨.refl vm, guarded⟩
  | case2 vm ctx input ih => exact ih fun line member => guarded line (by simp [member])
  | case3 vm ctx buf input _ message parsed ih =>
      exact ih fun line member => guarded line (by simp [member])
  | case4 vm ctx buf input _ message parsed =>
      exact ⟨.refl vm, fun line member => guarded line (by simp [member])⟩
  | case5 vm ctx buf input _ cmd parsed after next obeyed =>
      exact ⟨obey_guarded (guarded buf (by simp) cmd parsed) (.inl obeyed),
        fun line member => guarded line (by simp [member])⟩
  | case6 vm ctx buf input _ cmd parsed after next obeyed rest ih =>
      obtain ⟨only, later⟩ := ih fun line member => guarded line (by simp [member])
      exact ⟨(obey_guarded (guarded buf (by simp) cmd parsed) (.inr obeyed)).trans only, later⟩
  | case7 vm ctx buf input _ cmd parsed next obeyed =>
      exact ⟨.refl vm, fun line member => guarded line (by simp [member])⟩

def HandsOn (vm : Vm) (result : Option Vm × Session) : Prop :=
  ∀ after, result.1 = some after → OnlyStatus vm after ∧ ∀ line ∈ result.2.input, GuardedLine line

theorem pause_guarded {cause : Option Cause} {event : TraceEvent} {s : Session}
    (guarded : ∀ line ∈ s.input, GuardedLine line) : HandsOn vm (s.pause cause event vm) := by
  intro after returned
  cases cause with
  | none =>
      obtain rfl := Option.some.inj returned
      exact ⟨.refl vm, guarded⟩
  | some cause =>
      obtain ⟨only, later⟩ := @interactive_guarded vm (s.ctx.print cause.banner) s.input guarded
      obtain ⟨answer, _, rfl⟩ := Option.map_eq_some_iff.mp returned
      exact ⟨only, later⟩

theorem andThen_guarded {result : Option Vm × Session}
    {rest : Vm → Session → Option Vm × Session} (first : HandsOn vm result)
    (second : ∀ vm s, (∀ line ∈ s.input, GuardedLine line) → HandsOn vm (rest vm s)) :
    HandsOn vm (Session.andThen result rest) := by
  obtain ⟨returned, s⟩ := result
  cases returned with
  | none => exact fun after impossible => by cases impossible
  | some middle =>
      intro after returned
      obtain ⟨only, guarded⟩ := first middle rfl
      obtain ⟨later, kept⟩ := second middle s guarded after returned
      exact ⟨only.trans later, kept⟩

theorem yieldDebugger_guarded {event : TraceEvent} {s : Session}
    (guarded : ∀ line ∈ s.input, GuardedLine line) : HandsOn vm (yieldDebugger event vm s) := by
  refine andThen_guarded (pause_guarded guarded) fun vm s guarded => ?_
  refine andThen_guarded (pause_guarded guarded) fun vm s guarded => ?_
  refine andThen_guarded (pause_guarded guarded) fun vm s guarded after returned => ?_
  obtain rfl := Option.some.inj returned
  refine ⟨.refl vm, ?_⟩
  change ∀ line ∈ (s.leave event).input, GuardedLine line
  unfold Session.leave
  split
  · exact guarded
  · exact guarded

theorem vmStep_guarded {m last : Machine Session} (guarded : ∀ line ∈ m.ctx.input, GuardedLine line)
    (run : vmStep yieldDebugger m = .running last) :
    last.vm.cpu.regs 0 = m.vm.cpu.regs 0 ∧ ∀ line ∈ last.ctx.input, GuardedLine line := by
  obtain ⟨decoded, label, seen, returned, leads, entered, handled, ran⟩ := vmStep_running run
  obtain ⟨_, ir, _, entry, _⟩ := leads.enters
  obtain rfl := Except.ok.inj (entry.symm.trans entered)
  have hands := @yieldDebugger_guarded (m.vm.setIr ir) label.event m.ctx guarded
  rw [handled] at hands
  obtain ⟨only, later⟩ := hands returned rfl
  exact ⟨(Label.body_zero ran).trans only.zero, later⟩

theorem session_zero {executable : List Byte} {start m : Machine Session} {input : List Str}
    (started : debuggerInit executable input = .ok start)
    (guarded : ∀ line ∈ input, GuardedLine line)
    (reached : Reachable yieldDebugger executable start.ctx m) : m.vm.cpu.regs 0 = 0 := by
  obtain ⟨first, loading, initial⟩ := bind_eq_ok.mp started
  obtain rfl := Except.ok.inj initial
  obtain ⟨loaded, entry, run⟩ := reached
  refine (run.invariant (fun m => m.vm.cpu.regs 0 = 0 ∧ ∀ line ∈ m.ctx.input, GuardedLine line)
    ?_ ?_).1
  · rintro state next ⟨zero, lines⟩ taken
    obtain ⟨kept, later⟩ := vmStep_guarded lines taken
    exact ⟨kept.trans zero, later⟩
  · obtain ⟨after, s, handled, starts⟩ := traced_eq_running.mp entry
    obtain rfl := Outcome.running.inj starts
    obtain ⟨only, later⟩ := @yieldDebugger_guarded _ .execStart _ guarded after (by rw [handled])
    refine ⟨only.zero.trans ?_, ?_⟩
    · unfold sigma16VmInit at loaded
      split at loaded
      · obtain rfl := Except.ok.inj loaded
        rfl
      · cases loaded
    · rw [handled] at later
      exact later

theorem entry_reachable {executable : List Byte} {start m : Machine Session} {input : List Str}
    (started : debuggerInit executable input = .ok start)
    (entry : vmEntry yieldDebugger start = .running m) :
    Reachable yieldDebugger executable start.ctx m := by
  obtain ⟨vm, loaded, initial⟩ := bind_eq_ok.mp started
  obtain rfl := Except.ok.inj initial
  exact .intro loaded entry (.refl m)

theorem GuardedLine.of_parse {line : Str} (parsed : parseCmd line = .cmd cmd)
    (guarded : cmd.Guarded) : GuardedLine line := by
  intro other again
  obtain rfl := ParsedCmd.cmd.inj (parsed.symm.trans again)
  exact guarded

end Sessions

/-- `i` is right about R15 alone, and `o` about R0 and R15. While nothing else is asked of
them the debugger changes at most R15, and R0 is 0 throughout a session. -/
theorem registers_guarded (vm : Vm) (ctx : DebuggerCtx) (idx val : CInt) (input : List Str) :
    (WritesRegister vm ctx idx val ↔ idx = 15) ∧
    (ReadsRegister vm ctx idx ↔ idx = 0 ∨ idx = 15) ∧
    ((∀ line ∈ input, GuardedLine line) →
      OnlyStatus vm (debuggerInteractive vm ctx input).vm ∧
      ∀ executable start m, debuggerInit executable input = .ok start →
        Reachable yieldDebugger executable start.ctx m → m.vm.cpu.regs 0 = 0) := by
  refine ⟨writesRegister_iff, readsRegister_iff, fun guarded => ⟨?_, ?_⟩⟩
  · exact (interactive_guarded guarded).1
  · exact fun executable start m started => session_zero started guarded

theorem registers_guarded_status : ∃ start m,
    debuggerInit [0xD0, 0x00] ["i 15 7".toList, "o 0".toList, "c".toList] = .ok start ∧
    vmEntry yieldDebugger start = .running m ∧ m.vm.cpu.regs 15 = 7 ∧ m.vm.cpu.regs 0 = 0 := by
  have guarded : ∀ line ∈ ["i 15 7".toList, "o 0".toList, "c".toList], GuardedLine line := by
    rw [← List.forall_iff_forall_mem]
    have write : parseCmd "i 15 7".toList = .cmd (.writeReg 15 7) := by decide +kernel
    have read : parseCmd "o 0".toList = .cmd (.readReg 0) := by decide +kernel
    have resume : parseCmd "c".toList = .cmd .cont := by decide +kernel
    exact ⟨.of_parse write rfl, .of_parse read (.inl rfl), .of_parse resume trivial⟩
  obtain ⟨start, started⟩ : ∃ start,
      debuggerInit [0xD0, 0x00] ["i 15 7".toList, "o 0".toList, "c".toList] = .ok start := ⟨_, rfl⟩
  obtain ⟨m, entry, written⟩ : ∃ m, vmEntry yieldDebugger start = .running m ∧
      m.vm.cpu.regs 15 = 7 := by
    obtain rfl := Except.ok.inj started
    exact ⟨_, rfl, rfl⟩
  exact ⟨start, m, started, entry, written,
    ((registers_guarded start.vm start.ctx.ctx 15 7 _).2.2 guarded).2 _ _ _ started
      (entry_reachable started entry)⟩

/-- R1 can be neither written nor read, index 16 is past the array, and `i 0 5` makes R0 nonzero. -/
theorem registers_guarded_fails :
    ¬ WritesRegister (Machine.boot []).vm ⟨-1, true, [], 0, []⟩ 1 5 ∧
    ¬ ReadsRegister (Machine.boot []).vm ⟨-1, true, [], 0, []⟩ 1 ∧
    debuggerObey (Machine.boot []).vm ⟨-1, true, [], 0, []⟩ (.writeReg 16 5) =
      .left ⟨-1, true, [], 0, []⟩ ∧
    ∃ start m, debuggerInit [0xD0, 0x00] ["i 0 5".toList, "c".toList] = .ok start ∧
      vmEntry yieldDebugger start = .running m ∧ m.vm.cpu.regs 0 = 5 := by
  refine ⟨fun writes => absurd (writesRegister_iff.mp writes) (by decide),
    fun reads => absurd (readsRegister_iff.mp reads) (by decide), rfl, ?_⟩
  obtain ⟨start, started⟩ : ∃ start,
      debuggerInit [0xD0, 0x00] ["i 0 5".toList, "c".toList] = .ok start := ⟨_, rfl⟩
  obtain ⟨m, entry, written⟩ : ∃ m, vmEntry yieldDebugger start = .running m ∧
      m.vm.cpu.regs 0 = 5 := by
    obtain rfl := Except.ok.inj started
    exact ⟨_, rfl, rfl⟩
  exact ⟨start, m, started, entry, written⟩

end Sigma16

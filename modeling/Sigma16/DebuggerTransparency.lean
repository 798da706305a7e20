import Sigma16.Debugger
import Sigma16.VmFrame

/-!
A trace handler that never writes the VM does not influence the execution, and the
debugger is one as long as the user leaves the registers alone.
-/

namespace Sigma16

open PyText Words Transition Fallible

section Silent

variable {Ctx : Type}

def silent : TraceHandler Unit := observing fun _ _ ctx => ctx

def Machine.erase (m : Machine Ctx) : Machine Unit where
  vm := m.vm
  ctx := ()
  out := m.out

def eraseResult : Result Ctx → Result Unit
  | .running m => .running m.erase
  | .stopped stop m => .stopped stop m.erase

/-- Each call leaves the VM as it was and `inv` true of the context, or never returns and
leaves a context with `gone`. -/
structure Transparent (trace : TraceHandler Ctx) (inv gone : Ctx → Prop) : Prop where
  returns : ∀ {event vm ctx after next}, inv ctx → trace event vm ctx = (some after, next) →
    after = vm ∧ inv next
  leaves : ∀ {event vm ctx next}, inv ctx → trace event vm ctx = (none, next) → gone next

variable (inv gone : Ctx → Prop)

/-- The run ends inside the handler, or is the silent one up to the handler's context. -/
inductive Agrees : Result Ctx → Result Unit → Prop
  | running (m) : inv m.ctx → Agrees (.running m) (.running m.erase)
  | stopped (stop m) : Agrees (.stopped stop m) (.stopped stop m.erase)
  | left (m r) : gone m.ctx → Agrees (.stopped .handlerLeft m) r

variable {inv gone} {trace : TraceHandler Ctx} {m : Machine Ctx} {r : Result Ctx} {plain : Result Unit}

theorem Agrees.erase (agrees : Agrees inv gone r plain) :
    eraseResult r = plain ∨ ∃ last, r = .stopped .handlerLeft last ∧ gone last.ctx := by
  cases agrees with
  | running m kept => exact .inl rfl
  | stopped stop m => exact .inl rfl
  | left m r ended => exact .inr ⟨m, rfl, ended⟩

theorem Agrees.bind {next : Machine Ctx → Result Ctx} {plainNext : Machine Unit → Result Unit}
    (agrees : Agrees inv gone r plain)
    (rest : ∀ m, inv m.ctx → Agrees inv gone (next m) (plainNext m.erase)) :
    Agrees inv gone (r.bind next) (plain.bind plainNext) := by
  cases agrees with
  | running m kept => exact rest m kept
  | stopped stop m => exact .stopped stop m
  | left m r ended => exact .left m _ ended

theorem agrees_attempt {Val : Type} {val : Except Stop Val} {next : Val → Result Ctx}
    {plainNext : Val → Result Unit} (rest : ∀ found, Agrees inv gone (next found) (plainNext found)) :
    Agrees inv gone (m.attempt val next) (m.erase.attempt val plainNext) := by
  cases val with
  | error stop => exact .stopped stop m
  | ok found => exact rest found

theorem agrees_traced {event : TraceEvent} {next : Machine Ctx → Result Ctx}
    {plainNext : Machine Unit → Result Unit} (transparent : Transparent trace inv gone)
    (kept : inv m.ctx) (rest : ∀ m, inv m.ctx → Agrees inv gone (next m) (plainNext m.erase)) :
    Agrees inv gone (traced trace event m next) (traced silent event m.erase plainNext) := by
  unfold traced
  split
  · rename_i after ctx handled
    obtain ⟨rfl, still⟩ := transparent.returns kept handled
    exact rest { m with ctx } still
  · rename_i ctx handled
    exact .left _ _ (transparent.leaves kept handled)

theorem agrees_trapWriteFrom {addr : Word} {count i : Nat} (kept : inv m.ctx) :
    Agrees inv gone (trapWriteFrom addr count i m) (trapWriteFrom addr count i m.erase) := by
  induction count generalizing i m with
  | zero => exact .running m kept
  | succ count ih =>
      refine agrees_attempt fun word => ?_
      exact @ih { m with out := m.out ++ [lowByte word] } (i + 1) kept

theorem agrees_doTrap (transparent : Transparent trace inv gone) (kept : inv m.ctx) :
    Agrees inv gone (doTrap trace m) (doTrap silent m.erase) := by
  simp only [doTrap]
  by_cases halts : m.vm.cpu.regs m.vm.cpu.ir.rrr.d = 0
  · have plainHalts : m.erase.vm.cpu.regs m.erase.vm.cpu.ir.rrr.d = 0 := halts
    rw [if_pos halts, if_pos plainHalts]
    exact agrees_traced transparent kept fun m _ => .stopped (.returned 0) m
  · have plainGoes : ¬ m.erase.vm.cpu.regs m.erase.vm.cpu.ir.rrr.d = 0 := halts
    rw [if_neg halts, if_neg plainGoes]
    refine Agrees.bind ?_ fun m kept => .running { m with vm := (m.vm.advance 1).clearFlags } kept
    by_cases writes : m.vm.cpu.regs m.vm.cpu.ir.rrr.d = 2
    · have plainWrites : m.erase.vm.cpu.regs m.erase.vm.cpu.ir.rrr.d = 2 := writes
      rw [if_pos writes, if_pos plainWrites]
      exact agrees_trapWriteFrom kept
    · have plainSkips : ¬ m.erase.vm.cpu.regs m.erase.vm.cpu.ir.rrr.d = 2 := writes
      rw [if_neg writes, if_neg plainSkips]
      exact .running m kept

theorem agrees_runLabel (transparent : Transparent trace inv gone) (kept : inv m.ctx)
    (label : Label) : Agrees inv gone (runLabel trace m label) (runLabel silent m.erase label) := by
  by_cases trap : label = .doTrap
  · subst label
    refine agrees_attempt fun vm => ?_
    exact agrees_traced (m := { m with vm }) transparent kept fun m still =>
      agrees_doTrap transparent still
  · by_cases bad : label = .doBadOp
    · subst label
      exact .stopped (.returned (-1)) m
    · rw [runLabel_eq trap bad, runLabel_eq trap bad]
      refine agrees_attempt fun vm => ?_
      refine agrees_traced (m := { m with vm }) transparent kept fun m still => ?_
      exact agrees_attempt fun vm => .running { m with vm } still

theorem agrees_vmStep (transparent : Transparent trace inv gone) (kept : inv m.ctx) :
    Agrees inv gone (vmStep trace m) (vmStep silent m.erase) :=
  agrees_attempt fun (vm, label) => agrees_runLabel (m := { m with vm }) transparent kept label

theorem agrees_vmExec (transparent : Transparent trace inv gone) (kept : inv m.ctx) (count : Nat) :
    Agrees inv gone (vmExec trace count m) (vmExec silent count m.erase) := by
  induction count with
  | zero =>
      rw [vmExec_zero, vmExec_zero]
      exact agrees_traced transparent kept fun m still => .running m still
  | succ count ih =>
      rw [vmExec_succ, vmExec_succ]
      exact ih.bind fun m still => agrees_vmStep transparent still

end Silent

namespace DebuggerCmd

def Harmless : DebuggerCmd → Prop
  | writeReg _ _ | exit => False
  | dumpMem stop start => stop.toNat ≤ 0x8000 ∧ start.toNat ≤ 0x8000
  | readReg reg => reg.toNat < 16
  | step _ | cont | trace | setBreakpoint _ | dumpCpu | help => True

end DebuggerCmd

/-- The line is `n`, `c`, `t`, `?` or `d`, an `m` within the memory, a `b` with an address,
an `o` of one of the registers, or no command at all. -/
def HarmlessLine (line : Str) : Prop :=
  match parseCmd line with
  | .cmd cmd => cmd.Harmless
  | .null _ => True
  | .crash _ => False

section Harmless

variable {vm : Vm} {ctx : DebuggerCtx} {cmd : DebuggerCmd}

theorem dumpVmMemFrom_mapped (vm : Vm) : ∀ count i, i + count ≤ memWords →
    ∃ words, dumpVmMemFrom vm i count = .ok words := by
  intro count
  induction count with
  | zero =>
      intro i _
      exact ⟨[], rfl⟩
  | succ count ih =>
      intro i inside
      have mapped : (BitVec.ofNat 16 i).toNat < memWords := by
        rw [BitVec.toNat_ofNat]
        have := Nat.mod_le i (2 ^ 16)
        omega
      obtain ⟨words, rest⟩ := ih (i + 1) (by omega)
      refine ⟨bswap16 (vm.mem ⟨_, mapped⟩) :: words, ?_⟩
      simp only [dumpVmMemFrom, readMem_of_lt mapped, rest]
      rfl

theorem storesInside_small {start : CInt} (small : start.toNat ≤ 0x8000) (count : Nat) :
    storesInside start count = true := by
  have positive : start.toInt = start.toNat := by
    rw [BitVec.toInt_eq_toNat_of_lt]
    omega
  rw [storesInside, List.all_eq_true]
  intro index _
  rw [positive, decide_eq_true_iff]
  exact Int.tmod_nonneg 16 (by omega)

theorem signExtend_small {val : CInt} (small : val.toNat ≤ 0x8000) :
    (val.signExtend 64).toNat = val.toNat := by
  have positive : val.msb = false := by
    rw [BitVec.msb_eq_decide, decide_eq_false_iff_not]
    omega
  rw [BitVec.signExtend_eq_setWidth_of_msb_false positive, BitVec.toNat_setWidth]
  omega

theorem obey_harmless (harmless : cmd.Harmless) :
    ∃ next, debuggerObey vm ctx cmd = .resume vm next ∨ debuggerObey vm ctx cmd = .prompt vm next := by
  cases cmd with
  | writeReg reg val => cases harmless
  | exit => cases harmless
  | step steps => exact ⟨_, .inl rfl⟩
  | cont => exact ⟨_, .inl rfl⟩
  | trace => exact ⟨_, .inr rfl⟩
  | setBreakpoint addr => exact ⟨_, .inr rfl⟩
  | dumpCpu => exact ⟨_, .inr rfl⟩
  | help => exact ⟨_, .inr rfl⟩
  | dumpMem stop start =>
      obtain ⟨stopBound, startBound⟩ := harmless
      have mapped : start.toNat + (stop.toNat - start.toNat) ≤ memWords := by
        have size : memWords = 0x8000 := rfl
        omega
      obtain ⟨words, read⟩ := dumpVmMemFrom_mapped vm _ _ mapped
      refine ⟨ctx.print [.memory start.toNat words], .inr ?_⟩
      simp only [debuggerObey, debuggerDumpMem, signExtend_small startBound,
        signExtend_small stopBound, read, storesInside_small startBound, if_true]
  | readReg reg =>
      have found : registerAt reg = some (BitVec.ofNat 4 reg.toNat) := if_pos harmless
      by_cases refused : BitVec.slt 0 reg && BitVec.slt reg 15
      · exact ⟨_, .inr (if_pos refused)⟩
      · refine ⟨ctx.print [.register reg (vm.cpu.regs (BitVec.ofNat 4 reg.toNat))], .inr ?_⟩
        simp only [debuggerObey, debuggerReadReg, if_neg refused, found]

theorem line_obeyed {buf : Str} (harmless : HarmlessLine buf) (parsed : parseCmd buf = .cmd cmd)
    (vm : Vm) (ctx : DebuggerCtx) :
    ∃ next, debuggerObey vm ctx cmd = .resume vm next ∨ debuggerObey vm ctx cmd = .prompt vm next := by
  simp only [HarmlessLine, parsed] at harmless
  exact obey_harmless harmless

theorem interactive_harmless {input : List Str} (harmless : ∀ line ∈ input, HarmlessLine line) :
    (debuggerInteractive vm ctx input).vm = vm ∧
      (∀ line ∈ (debuggerInteractive vm ctx input).input, HarmlessLine line) ∧
      ((debuggerInteractive vm ctx input).answer = none →
        (debuggerInteractive vm ctx input).input = []) := by
  fun_induction debuggerInteractive vm ctx input with
  | case1 vm ctx => exact ⟨rfl, harmless, fun _ => rfl⟩
  | case2 vm ctx input ih => exact ih fun line member => harmless line (by simp [member])
  | case3 vm ctx buf input _ message parsed ih =>
      exact ih fun line member => harmless line (by simp [member])
  | case4 vm ctx buf input _ message parsed =>
      have first := harmless buf (by simp)
      simp [HarmlessLine, parsed] at first
  | case5 vm ctx buf input _ cmd parsed after next obeyed =>
      obtain ⟨expected, resumed | stayed⟩ := line_obeyed (harmless buf (by simp)) parsed vm ctx
      · obtain ⟨rfl, rfl⟩ := Action.resume.inj (obeyed.symm.trans resumed)
        exact ⟨rfl, fun line member => harmless line (by simp [member]), nofun⟩
      · cases obeyed.symm.trans stayed
  | case6 vm ctx buf input _ cmd parsed after next obeyed rest ih =>
      obtain ⟨expected, resumed | stayed⟩ := line_obeyed (harmless buf (by simp)) parsed vm ctx
      · cases obeyed.symm.trans resumed
      · obtain ⟨rfl, rfl⟩ := Action.prompt.inj (obeyed.symm.trans stayed)
        exact ih fun line member => harmless line (by simp [member])
  | case7 vm ctx buf input _ cmd parsed next obeyed =>
      obtain ⟨expected, resumed | stayed⟩ := line_obeyed (harmless buf (by simp)) parsed vm ctx
      · cases obeyed.symm.trans resumed
      · cases obeyed.symm.trans stayed

def Leaves (vm : Vm) : Option Vm × Session → Prop
  | (some after, s) => after = vm ∧ ∀ line ∈ s.input, HarmlessLine line
  | (none, s) => s.input = []

theorem pause_leaves {cause : Option Cause} {event : TraceEvent} {s : Session}
    (harmless : ∀ line ∈ s.input, HarmlessLine line) : Leaves vm (s.pause cause event vm) := by
  cases cause with
  | none => exact ⟨rfl, harmless⟩
  | some cause =>
      have ends := @interactive_harmless vm (s.ctx.print cause.banner) s.input harmless
      simp only [Session.pause, Session.prompt]
      generalize debuggerInteractive vm (s.ctx.print cause.banner) s.input = e at ends ⊢
      obtain ⟨same, rest, ended⟩ := ends
      cases answer : e.answer with
      | none => exact ended answer
      | some cmd => exact ⟨same, rest⟩

theorem andThen_leaves {result : Option Vm × Session} {next : Vm → Session → Option Vm × Session}
    (first : Leaves vm result)
    (second : ∀ s, (∀ line ∈ s.input, HarmlessLine line) → Leaves vm (next vm s)) :
    Leaves vm (Session.andThen result next) := by
  obtain ⟨after, s⟩ := result
  cases after with
  | none => exact first
  | some after =>
      obtain ⟨rfl, harmless⟩ := first
      exact second s harmless

theorem yieldDebugger_leaves {event : TraceEvent} {s : Session}
    (harmless : ∀ line ∈ s.input, HarmlessLine line) : Leaves vm (yieldDebugger event vm s) := by
  refine andThen_leaves (pause_leaves harmless) fun s harmless => ?_
  refine andThen_leaves (pause_leaves harmless) fun s harmless => ?_
  refine andThen_leaves (pause_leaves harmless) fun s harmless => ⟨rfl, ?_⟩
  unfold Session.leave
  split
  · exact harmless
  · exact harmless

theorem yieldDebugger_transparent :
    Transparent yieldDebugger (fun s => ∀ line ∈ s.input, HarmlessLine line)
      fun s => s.input = [] := by
  constructor
  · intro event vm s after next harmless returned
    have leaves := @yieldDebugger_leaves vm event s harmless
    rw [returned] at leaves
    exact leaves
  · intro event vm s next harmless left
    have leaves := @yieldDebugger_leaves vm event s harmless
    rw [left] at leaves
    exact leaves

end Harmless

/-- A session that is not left waiting for more lines at a prompt runs as the program runs
under the handler that does nothing. -/
theorem debugger_transparent {executable : List Byte} {input : List Str} {m : Machine Session}
    (started : debuggerInit executable input = .ok m)
    (harmless : ∀ line ∈ input, HarmlessLine line) (count : Nat) :
    eraseResult (vmExec yieldDebugger count m) = vmExec silent count m.erase ∨
      ∃ last, vmExec yieldDebugger count m = .stopped .handlerLeft last ∧ last.ctx.input = [] := by
  obtain ⟨vm, _, initial⟩ := bind_eq_ok.mp started
  obtain rfl := Except.ok.inj initial
  exact (agrees_vmExec yieldDebugger_transparent harmless count).erase

theorem debugger_transparent_trap :
    ∃ m, debuggerInit [0xD0, 0x00] ("b 0".toList :: "m 4".toList :: "n 1".toList ::
        List.replicate 5 "c".toList) = .ok m ∧
      eraseResult (vmExec yieldDebugger 1 m) = vmExec silent 1 m.erase := by
  obtain ⟨m, started⟩ : ∃ m, debuggerInit [0xD0, 0x00] ("b 0".toList :: "m 4".toList ::
      "n 1".toList :: List.replicate 5 "c".toList) = .ok m := ⟨_, rfl⟩
  refine ⟨m, started, (debugger_transparent started ?_ 1).resolve_right ?_⟩
  · intro line member
    simp only [List.mem_cons, List.mem_replicate] at member
    rcases member with rfl | rfl | rfl | ⟨_, rfl⟩
    · trivial
    · exact ⟨by decide, by decide⟩
    · trivial
    · trivial
  · obtain rfl := Except.ok.inj started
    rintro ⟨last, left, -⟩
    cases left

end Sigma16

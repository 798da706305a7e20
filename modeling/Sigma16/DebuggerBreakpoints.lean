import Sigma16.DebuggerPrompts

/-!
The breakpoints of a session: the table at each prompt holds what was typed at the prompts
before it, numbered in that order, and a stop names the latest breakpoint at its address.
-/

namespace Sigma16

open PyText Words Transition Fallible

def DebuggerCmd.breakpoint? : DebuggerCmd → Option Word
  | .setBreakpoint addr => some (truncate addr)
  | _ => none

def Prompt.set (p : Prompt) : List Word := p.typed.filterMap DebuggerCmd.breakpoint?

def breakpointTable (addrs : List Word) : List DebuggerBp :=
  (addrs.zipIdx.map fun (addr, id) => ⟨id, addr⟩).reverse

def Session.set (s : Session) : List Word := s.log.flatMap Prompt.set

namespace DebuggerCtx

structure Holds (ctx : DebuggerCtx) (addrs : List Word) : Prop where
  table : ctx.breakpoints = breakpointTable addrs
  next : ctx.nextId = addrs.length

theorem Holds.print {ctx : DebuggerCtx} {addrs : List Word} (holds : ctx.Holds addrs)
    (items : List Shown) : (ctx.print items).Holds addrs :=
  ⟨holds.table, holds.next⟩

end DebuggerCtx

def Action.ctx : Action → DebuggerCtx
  | .resume _ ctx | .prompt _ ctx | .left ctx => ctx

section Commands

variable {vm after : Vm} {ctx next : DebuggerCtx} {cmd : DebuggerCmd} {addrs : List Word}

theorem breakpointTable_snoc (addrs : List Word) (addr : Word) :
    breakpointTable (addrs ++ [addr]) = ⟨addrs.length, addr⟩ :: breakpointTable addrs := by
  simp [breakpointTable, List.zipIdx_append]

theorem breakpointTable_ids (addrs : List Word) :
    (breakpointTable addrs).Pairwise fun later earlier => earlier.id < later.id := by
  have ids : (addrs.zipIdx.map Prod.snd).Pairwise (· < ·) := by
    rw [List.zipIdx_map_snd]
    exact List.pairwise_lt_range'
  rw [breakpointTable, List.pairwise_reverse, List.pairwise_map]
  exact List.pairwise_map.mp ids

theorem obey_holds (holds : ctx.Holds addrs) (vm : Vm) (cmd : DebuggerCmd) :
    (debuggerObey vm ctx cmd).ctx.Holds (addrs ++ cmd.breakpoint?.toList) := by
  cases cmd with
  | setBreakpoint addr =>
      change DebuggerCtx.Holds _ (addrs ++ [truncate addr])
      refine ⟨?_, ?_⟩
      · rw [breakpointTable_snoc, ← holds.table, ← holds.next]
        rfl
      · rw [List.length_append, ← holds.next]
        rfl
  | exit | step steps | cont | trace | dumpCpu | help =>
      change DebuggerCtx.Holds _ (addrs ++ [])
      rw [List.append_nil]
      exact ⟨holds.table, holds.next⟩
  | dumpMem stop start =>
      change DebuggerCtx.Holds _ (addrs ++ [])
      rw [List.append_nil]
      simp only [debuggerObey, debuggerDumpMem]
      split
      · split <;> exact ⟨holds.table, holds.next⟩
      · exact ⟨holds.table, holds.next⟩
  | writeReg reg val =>
      change DebuggerCtx.Holds _ (addrs ++ [])
      rw [List.append_nil]
      simp only [debuggerObey, debuggerWriteReg]
      split
      · exact ⟨holds.table, holds.next⟩
      · split <;> exact ⟨holds.table, holds.next⟩
  | readReg reg =>
      change DebuggerCtx.Holds _ (addrs ++ [])
      rw [List.append_nil]
      simp only [debuggerObey, debuggerReadReg]
      split
      · exact ⟨holds.table, holds.next⟩
      · split <;> exact ⟨holds.table, holds.next⟩

theorem obey_prompts (vm : Vm) (ctx : DebuggerCtx) (cmd : DebuggerCmd) :
    cmd.breakpoint? = none ∨ ∃ next, debuggerObey vm ctx cmd = .prompt vm next := by
  cases cmd with
  | setBreakpoint addr => exact .inr ⟨_, rfl⟩
  | _ => exact .inl rfl

theorem interactive_holds (vm : Vm) (ctx : DebuggerCtx) (input : List Str) :
    ∀ addrs, ctx.Holds addrs → (debuggerInteractive vm ctx input).ctx.Holds
      (addrs ++ (debuggerInteractive vm ctx input).typed.filterMap DebuggerCmd.breakpoint?) := by
  fun_induction debuggerInteractive vm ctx input with
  | case1 vm ctx => exact fun addrs holds => by simpa using holds
  | case2 vm ctx input ih => exact ih
  | case3 vm ctx buf input _ message parsed ih => exact fun addrs holds => ih addrs (holds.print _)
  | case4 vm ctx buf input _ message parsed =>
      exact fun addrs holds => by simpa using holds.print [.text message]
  | case5 vm ctx buf input _ typed parsed after next obeyed =>
      intro addrs holds
      have answered := obey_holds holds vm typed
      rcases obey_prompts vm ctx typed with plain | ⟨other, prompts⟩
      · rw [obeyed, plain] at answered
        exact answered
      · cases obeyed.symm.trans prompts
  | case6 vm ctx buf input _ typed parsed after next obeyed rest ih =>
      intro addrs holds
      have first := obey_holds holds vm typed
      rw [obeyed] at first
      have later := ih _ first
      rw [List.append_assoc] at later
      cases known : typed.breakpoint? <;> simpa [known] using later
  | case7 vm ctx buf input _ typed parsed next obeyed =>
      intro addrs holds
      have answered := obey_holds holds vm typed
      rcases obey_prompts vm ctx typed with plain | ⟨other, prompts⟩
      · rw [obeyed, plain] at answered
        exact answered
      · cases obeyed.symm.trans prompts

end Commands

def DebuggerCtx.Names (ctx : DebuggerCtx) (pc : Word) (id : Nat) : Prop :=
  ⟨id, pc⟩ ∈ ctx.breakpoints ∧ ∀ other ∈ ctx.breakpoints, other.addr = pc → other.id ≤ id

namespace Session

/-- The table is the one of the breakpoints typed, now and at every prompt of the log. -/
structure Tabled (s : Session) : Prop where
  now : s.ctx.Holds s.set
  prompts : ∀ before p after, s.log = before ++ p :: after →
    p.ctx.Holds (before.flatMap Prompt.set)
  named : ∀ p ∈ s.log, ∀ id, p.cause = .breakpoint id → p.ctx.Names p.pc id

variable {s : Session} {vm : Vm} {event : TraceEvent} {cause : Cause}

theorem Tabled.prompt (tabled : s.Tabled) (event : TraceEvent) (vm : Vm)
    (named : ∀ id, cause = .breakpoint id → s.ctx.Names vm.cpu.pc id) :
    (s.prompt cause event vm).2.Tabled := by
  have holds := interactive_holds vm _ s.input _ (tabled.now.print cause.banner)
  refine ⟨?_, ?_, ?_⟩
  · simp only [Session.prompt, Session.set, List.flatMap_append, List.flatMap_singleton]
    exact holds
  · intro before p after split
    simp only [Session.prompt] at split
    rcases List.eq_nil_or_concat after with rfl | ⟨more, last, rfl⟩
    · obtain ⟨rfl, latest⟩ := List.append_inj' split rfl
      obtain rfl := List.singleton_inj.mp latest
      exact tabled.now
    · rw [List.concat_eq_append, ← List.cons_append, ← List.append_assoc] at split
      exact tabled.prompts before p more (List.append_inj' split rfl).1
  · intro p member id stop
    simp only [Session.prompt, List.mem_append, List.mem_singleton] at member
    rcases member with earlier | rfl
    · exact tabled.named p earlier id stop
    · exact named id stop

theorem Tabled.pause (tabled : s.Tabled) (event : TraceEvent) (vm : Vm) (found : Option Cause)
    (named : ∀ id, found = some (.breakpoint id) → s.ctx.Names vm.cpu.pc id) :
    (s.pause found event vm).2.Tabled := by
  cases found with
  | none => exact tabled
  | some cause => exact tabled.prompt event vm fun id same => named id (congrArg some same)

theorem Tabled.arrive (tabled : s.Tabled) (event : TraceEvent) (vm : Vm) :
    (s.arrive event vm).Tabled := by
  refine ⟨?_, tabled.prompts, tabled.named⟩
  simp only [Session.arrive]
  split <;> exact ⟨tabled.now.table, tabled.now.next⟩

theorem Tabled.leave (tabled : s.Tabled) (event : TraceEvent) : (s.leave event).Tabled := by
  unfold Session.leave
  split
  · exact ⟨tabled.now, tabled.prompts, tabled.named⟩
  · exact tabled

theorem andThen_tabled {result : Option Vm × Session} {next : Vm → Session → Option Vm × Session}
    (tabled : result.2.Tabled) (kept : ∀ vm s, s.Tabled → (next vm s).2.Tabled) :
    (andThen result next).2.Tabled := by
  obtain ⟨returned, s⟩ := result
  cases returned with
  | none => exact tabled
  | some vm => exact kept vm s tabled

theorem Tabled.breakpointCause (tabled : s.Tabled) (vm : Vm) (id : Nat)
    (found : s.breakpointCause vm = some (.breakpoint id)) : s.ctx.Names vm.cpu.pc id := by
  obtain ⟨bp, first, same⟩ := Option.map_eq_some_iff.mp found
  obtain rfl := Cause.breakpoint.inj same
  obtain ⟨here, newer, older, split, others⟩ := List.find?_eq_some_iff_append.mp first
  obtain address : vm.cpu.pc = bp.addr := by simpa using here
  have ids := breakpointTable_ids s.set
  rw [← tabled.now.table, split, List.pairwise_append, List.pairwise_cons] at ids
  refine ⟨?_, fun other member at_pc => ?_⟩
  · rw [address, split]
    simp
  · rw [split, List.mem_append, List.mem_cons] at member
    rcases member with later | rfl | earlier
    · exact absurd at_pc.symm (by simpa using others other later)
    · exact Nat.le_refl _
    · exact (ids.2.1.1 other earlier).le

theorem yieldDebugger_tabled (event : TraceEvent) (vm : Vm) (tabled : s.Tabled) :
    (yieldDebugger event vm s).2.Tabled := by
  unfold yieldDebugger
  refine andThen_tabled ((tabled.arrive event vm).pause event vm _ ?_) fun vm s tabled => ?_
  · intro id counter
    simp only [counterCause] at counter
    split at counter <;> cases counter
  refine andThen_tabled (tabled.pause event vm _ ?_) fun vm s tabled => ?_
  · intro id announced
    cases event <;> cases announced
  refine andThen_tabled (tabled.pause event vm _ fun id => tabled.breakpointCause vm id)
    fun vm s tabled => tabled.leave event

end Session

section Contexts

variable {Ctx : Type} {trace : TraceHandler Ctx} {inv : Ctx → Prop} {m : Machine Ctx}

theorem vmStep_context (kept : ∀ event vm ctx, inv ctx → inv (trace event vm ctx).2)
    (holds : inv m.ctx) : inv (vmStep trace m).state.ctx := by
  by_cases called : ∃ decoded label, Dispatches m.vm decoded label ∧ label ≠ .doBadOp
  · obtain ⟨decoded, label, leads, valid⟩ := called
    obtain ⟨_, _, _, entered, _⟩ := leads.enters
    rcases @vmStep_ctx _ trace m label decoded _ leads valid entered with same | ⟨after, _, ended⟩
    · rw [same]
      exact kept _ _ _ holds
    · rw [ended]
      exact kept _ _ _ (kept _ _ _ holds)
  · obtain ⟨stop, last, stopped, same⟩ := @vmStep_uncalled _ trace m (by simpa using called)
    rw [stopped, Outcome.state_stopped, same]
    exact holds

theorem vmExec_context (kept : ∀ event vm ctx, inv ctx → inv (trace event vm ctx).2) (count : Nat)
    (holds : inv m.ctx) : inv (vmExec trace count m).state.ctx := by
  induction count with
  | zero =>
      rw [vmExec_zero, vmEntry_ctx]
      exact kept _ _ _ holds
  | succ count ih =>
      rw [vmExec_succ]
      cases run : vmExec trace count m with
      | running next =>
          rw [run] at ih
          exact vmStep_context kept ih
      | stopped stop last =>
          rw [run] at ih
          exact ih

end Contexts

/-- At every prompt of a session the table holds the breakpoints typed at the prompts before it,
numbered from 0 in that order, the latest first; and a breakpoint that stops the program is the
latest one at its address. -/
theorem breakpoint_table {executable : List Byte} {input : List Str} {m : Machine Session}
    (started : debuggerInit executable input = .ok m) (count : Nat) :
    (∀ before p after, (vmExec yieldDebugger count m).state.ctx.log = before ++ p :: after →
      p.ctx.breakpoints = breakpointTable (before.flatMap Prompt.set)) ∧
    ∀ p ∈ (vmExec yieldDebugger count m).state.ctx.log, ∀ id, p.cause = .breakpoint id →
      p.ctx.Names p.pc id := by
  have initial : m.ctx.Tabled := by
    obtain ⟨vm, _, same⟩ := bind_eq_ok.mp started
    obtain rfl := Except.ok.inj same
    exact ⟨⟨rfl, rfl⟩, by simp, by simp⟩
  have tabled := vmExec_context (fun event vm s => Session.yieldDebugger_tabled event vm) count
    initial
  exact ⟨fun before p after split => (tabled.prompts before p after split).table, tabled.named⟩

theorem breakpoint_table_twice :
    ∃ m p q, debuggerInit [] ["b 2".toList, "b 2".toList, "c".toList] = .ok m ∧
      (vmExec yieldDebugger 3 m).state.ctx.log = [p, q] ∧
      q.ctx.breakpoints = [⟨1, 2⟩, ⟨0, 2⟩] ∧ q.ctx.Names 2 1 := by
  obtain ⟨m, started, p, q, log, typed, stop, pc⟩ : ∃ m,
      debuggerInit [] ["b 2".toList, "b 2".toList, "c".toList] = .ok m ∧ ∃ p q,
        (vmExec yieldDebugger 3 m).state.ctx.log = [p, q] ∧ p.set = [2, 2] ∧
          q.cause = .breakpoint 1 ∧ q.pc = 2 :=
    ⟨_, rfl, _, _, rfl, rfl, rfl, rfl⟩
  obtain ⟨tables, named⟩ := breakpoint_table started 3
  refine ⟨m, p, q, started, log, ?_, ?_⟩
  · have table := tables [p] q [] log
    rw [List.flatMap_singleton, typed] at table
    exact table
  · have latest := named q (by rw [log]; simp) 1 stop
    rwa [pc] at latest

end Sigma16

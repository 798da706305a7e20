import Mathlib.Data.List.Chain
import Sigma16.Debugger

/-!
The history of a debugging session: what one prompt can do, how each prompt of the log
follows the one before it, and how far the program may go without another.
-/

namespace Sigma16

open PyText Words Transition Fallible

def DebuggerCtx.breaksAt (ctx : DebuggerCtx) (pc : Word) : Prop :=
  ∃ bp ∈ ctx.breakpoints, pc = bp.addr

section Commands

variable {vm after : Vm} {ctx next : DebuggerCtx} {cmd : DebuggerCmd}

def Obeys (vm : Vm) (ctx : DebuggerCtx) (cmd : DebuggerCmd) : Action → Prop
  | .resume after next => after = vm ∧ next.breakpoints = ctx.breakpoints ∧
      ((∃ steps, cmd = .step steps ∧ next.nSteps = steps) ∨
        cmd = .cont ∧ next.nSteps = ctx.nSteps)
  | .prompt after next => after.cpu.pc = vm.cpu.pc ∧ next.nSteps = ctx.nSteps ∧
      next.breakpoints = (match cmd with
        | .setBreakpoint addr =>
            { id := ctx.nextId, addr := truncate addr } :: ctx.breakpoints
        | _ => ctx.breakpoints)
  | .left _ => True

theorem obey_spec (vm : Vm) (ctx : DebuggerCtx) (cmd : DebuggerCmd) :
    Obeys vm ctx cmd (debuggerObey vm ctx cmd) := by
  cases cmd with
  | exit => exact trivial
  | step steps => exact ⟨rfl, rfl, .inl ⟨steps, rfl, rfl⟩⟩
  | cont => exact ⟨rfl, rfl, .inr ⟨rfl, rfl⟩⟩
  | trace | setBreakpoint addr | dumpCpu | help => exact ⟨rfl, rfl, rfl⟩
  | dumpMem stop start =>
      simp only [debuggerObey, debuggerDumpMem]
      split
      · split
        · exact ⟨rfl, rfl, rfl⟩
        · exact trivial
      · exact trivial
  | writeReg reg val =>
      simp only [debuggerObey, debuggerWriteReg]
      split
      · exact ⟨rfl, rfl, rfl⟩
      · split
        · exact ⟨rfl, rfl, rfl⟩
        · exact trivial
  | readReg reg =>
      simp only [debuggerObey, debuggerReadReg]
      split
      · exact ⟨rfl, rfl, rfl⟩
      · split
        · exact ⟨rfl, rfl, rfl⟩
        · exact trivial

theorem obey_breaksAt (obeyed : debuggerObey vm ctx cmd = .prompt after next) (pc : Word) :
    next.breaksAt pc ↔ ctx.breaksAt pc ∨ ∃ addr, cmd = .setBreakpoint addr ∧ pc = truncate addr := by
  have spec := obey_spec vm ctx cmd
  rw [obeyed] at spec
  have known := spec.2.2
  cases cmd <;> simp only at known <;> simp [DebuggerCtx.breaksAt, known, or_comm]

theorem interactive_answered {input : List Str}
    (answered : (debuggerInteractive vm ctx input).answer = some cmd) :
    (debuggerInteractive vm ctx input).vm.cpu.pc = vm.cpu.pc ∧
      (∀ pc, (debuggerInteractive vm ctx input).ctx.breaksAt pc ↔ ctx.breaksAt pc ∨
        ∃ addr, .setBreakpoint addr ∈ (debuggerInteractive vm ctx input).typed ∧
          pc = truncate addr) ∧
      ((∃ steps, cmd = .step steps ∧ (debuggerInteractive vm ctx input).ctx.nSteps = steps) ∨
        cmd = .cont ∧ (debuggerInteractive vm ctx input).ctx.nSteps = ctx.nSteps) := by
  fun_induction debuggerInteractive vm ctx input with
  | case1 vm ctx => cases answered
  | case2 vm ctx input ih => exact ih answered
  | case3 vm ctx buf input _ message parsed ih => exact ih answered
  | case4 vm ctx buf input _ message parsed => cases answered
  | case5 vm ctx buf input _ typed parsed after next obeyed =>
      obtain rfl := Option.some.inj answered
      have spec := obey_spec vm ctx typed
      rw [obeyed] at spec
      obtain ⟨rfl, kept, counted⟩ := spec
      refine ⟨rfl, ?_, counted⟩
      intro pc
      simp [DebuggerCtx.breaksAt, kept]
  | case6 vm ctx buf input _ typed parsed after next obeyed rest ih =>
      obtain ⟨same, breaks, counted⟩ := ih answered
      have spec := obey_spec vm ctx typed
      rw [obeyed] at spec
      obtain ⟨pc, nSteps, -⟩ := spec
      refine ⟨same.trans pc, ?_, by rwa [nSteps] at counted⟩
      intro pc
      rw [breaks pc, obey_breaksAt obeyed pc, or_assoc]
      -- The command just obeyed may be the one that sets the breakpoint.
      refine or_congr_right ?_
      constructor
      · rintro (⟨addr, rfl, here⟩ | ⟨addr, member, here⟩)
        · exact ⟨addr, List.mem_cons_self, here⟩
        · exact ⟨addr, List.mem_cons_of_mem _ member, here⟩
      · rintro ⟨addr, member, here⟩
        rcases List.mem_cons.mp member with same | later
        · exact .inl ⟨addr, same.symm, here⟩
        · exact .inr ⟨addr, later, here⟩
  | case7 vm ctx buf input _ typed parsed next obeyed => cases answered

end Commands

def untilZero (count : CInt) : Nat := (count - 1).toNat + 1

theorem sub_ofNat_eq_zero {count : CInt} {n : Nat} (positive : 1 ≤ n)
    (bound : n ≤ untilZero count) : count - BitVec.ofNat 32 n = 0 ↔ n = untilZero count := by
  have word := count.isLt
  simp only [untilZero] at bound ⊢
  have one : (1 : CInt).toNat = 1 := rfl
  have zero : (0 : CInt).toNat = 0 := rfl
  rw [← BitVec.toNat_inj, zero]
  simp only [BitVec.toNat_sub, BitVec.toNat_ofNat, one] at bound ⊢
  omega

namespace Prompt

def left (p : Prompt) : CInt :=
  match p.answer with
  | some (.step steps) => steps
  | _ => p.ctx.nSteps

def OnBreakpoint (p : Prompt) : Prop := ∃ id, p.cause = .breakpoint id

def Armed (p : Prompt) : Prop :=
  p.ctx.breaksAt p.pc ∨ ∃ addr, .setBreakpoint addr ∈ p.typed ∧ p.pc = truncate addr

/-- The prompt has another cause and a breakpoint is at its `pc` as well. Where the counter
runs out at the end of the program the prompt for the end comes in between. -/
def Clash (p : Prompt) : Prop :=
  ¬ p.OnBreakpoint ∧ (p.cause = .counter → p.event ≠ .execEnd) ∧ p.Armed

structure Numbered (p : Prompt) : Prop where
  executed : p.executed = p.call - 2
  positive : 1 ≤ p.call
  start : p.event = .execStart ↔ p.call = 1

structure Follows (p q : Prompt) : Prop where
  resumed : p.answer.isSome
  order : p.call ≤ q.call
  within : q.call ≤ p.call + untilZero p.left
  counter : q.cause = .counter ↔ q.call = p.call + untilZero p.left
  same : q.call = p.call → q.event = p.event ∧
    (q.OnBreakpoint ∧ p.Clash ∨ ¬ q.OnBreakpoint ∧ p.event = .execEnd ∧ p.cause = .counter)
  later : p.call < q.call → p.event ≠ .execEnd ∧ ¬ p.Clash
  second : p.call < q.call → q.call = 2 → q.cause = .counter ∨ p.OnBreakpoint

end Prompt

namespace Session

structure History (s : Session) : Prop where
  chain : s.log.IsChain Prompt.Follows
  numbered : ∀ p ∈ s.log, p.Numbered
  past : ∀ p ∈ s.log, p.call ≤ s.calls
  opening : ∀ p ∈ s.log.head?, p.cause = .start

theorem History.append {s next : Session} {q : Prompt} (history : s.History)
    (log : next.log = s.log ++ [q]) (calls : next.calls = s.calls) (call : q.call = s.calls)
    (numbered : q.Numbered)
    (follows : ∀ p ∈ s.log.getLast?, p.Follows q) (opens : s.log = [] → q.cause = .start) :
    next.History := by
  constructor
  · rw [log]
    refine history.chain.append (List.isChain_singleton q) ?_
    intro p last q' first
    obtain rfl : q = q' := by simpa using first
    exact follows p last
  · rw [log]
    intro p member
    rcases List.mem_append.mp member with earlier | latest
    · exact history.numbered p earlier
    · obtain rfl := List.mem_singleton.mp latest
      exact numbered
  · rw [log, calls]
    intro p member
    rcases List.mem_append.mp member with earlier | latest
    · exact history.past p earlier
    · obtain rfl := List.mem_singleton.mp latest
      exact call.le
  · rw [log]
    intro p first
    cases rest : s.log with
    | nil =>
        rw [rest] at first
        obtain rfl : q = p := by simpa using first
        exact opens rest
    | cons head tail =>
        rw [rest] at first
        exact history.opening p (by rw [rest]; simpa using first)

/-- What the counter holds since the prompt `p` was answered. -/
structure Since (s : Session) (p : Prompt) : Prop where
  resumed : p.answer.isSome
  order : p.call ≤ s.calls
  within : s.calls ≤ p.call + untilZero p.left
  counter : s.ctx.nSteps = p.left - BitVec.ofNat 32 (s.calls - p.call)

structure Handling (event : TraceEvent) (pc : Word) (s : Session) : Prop where
  history : s.History
  executed : s.executed = s.calls - 2
  positive : 1 ≤ s.calls
  start : event = .execStart ↔ s.calls = 1
  ending : event = .execEnd → 3 ≤ s.calls
  fresh : s.log = [] → event = .execStart ∧ s.ctx.nSteps ≠ 0
  since : ∀ p ∈ s.log.getLast?, s.Since p
  same : ∀ p ∈ s.log.getLast?, p.call = s.calls →
    p.event = event ∧ ¬ p.OnBreakpoint ∧ (s.ctx.breaksAt pc ↔ p.Armed)
  later : ∀ p ∈ s.log.getLast?, p.call < s.calls →
    p.event ≠ .execEnd ∧ ¬ p.Clash ∧ (s.calls = 2 → p.OnBreakpoint ∨ ¬ s.ctx.breaksAt pc)

def Counted (s : Session) : Prop := ∀ p ∈ s.log.getLast?, s.calls < p.call + untilZero p.left

structure Ready (pc : Word) (s : Session) : Prop where
  history : s.History
  calls : s.calls = s.executed + 1
  prompted : s.log ≠ []
  since : ∀ p ∈ s.log.getLast?, s.Since p
  counted : s.Counted
  clear : ∀ p ∈ s.log.getLast?, p.event ≠ .execEnd ∧ ¬ p.Clash
  first : s.calls = 1 → ∀ p ∈ s.log.getLast?, p.OnBreakpoint ∨ ¬ s.ctx.breaksAt pc

structure Settled (s : Session) : Prop where
  history : s.History
  within : ∀ p ∈ s.log.getLast?, p.answer.isSome → s.executed ≤ p.executed + untilZero p.left
  clear : ∀ p ∈ s.log.getLast?, p.answer.isSome → ¬ p.Clash

structure Raises (cause : Cause) (event : TraceEvent) (pc : Word) (s : Session) (q : Prompt)
    (next : Session) : Prop where
  cause : q.cause = cause
  event : q.event = event
  executed : q.executed = s.executed
  call : q.call = s.calls
  pc : q.pc = pc
  log : next.log = s.log ++ [q]
  calls : next.calls = s.calls
  total : next.executed = s.executed

theorem prompt_raises (cause : Cause) (event : TraceEvent) (vm : Vm) (s : Session) :
    ∃ q, s.Raises cause event vm.cpu.pc q (s.prompt cause event vm).2 ∧
      ((s.prompt cause event vm).1 = none ∧ q.answer = none ∨
        ∃ after, (s.prompt cause event vm).1 = some after ∧ after.cpu.pc = vm.cpu.pc ∧
          q.answer.isSome ∧ (s.prompt cause event vm).2.ctx.nSteps = q.left ∧
          ((s.prompt cause event vm).2.ctx.breaksAt vm.cpu.pc ↔ q.Armed)) := by
  have spec := fun cmd => @interactive_answered vm (s.ctx.print cause.banner) cmd s.input
  simp only [prompt]
  generalize debuggerInteractive vm (s.ctx.print cause.banner) s.input = e at spec ⊢
  refine ⟨{
    cause, event, executed := s.executed, call := s.calls, pc := vm.cpu.pc, ctx := s.ctx
    typed := e.typed, answer := e.answer }, ⟨rfl, rfl, rfl, rfl, rfl, rfl, rfl, rfl⟩, ?_⟩
  cases answer : e.answer with
  | none => exact .inl ⟨rfl, rfl⟩
  | some cmd =>
      obtain ⟨same, breaks, counted⟩ := spec cmd answer
      refine .inr ⟨e.vm, rfl, same, rfl, ?_, breaks vm.cpu.pc⟩
      rcases counted with ⟨steps, rfl, set⟩ | ⟨rfl, kept⟩
      · exact set
      · exact kept

def Stage (post : Vm → Session → Prop) : Option Vm × Session → Prop
  | (some vm, s) => post vm s
  | (none, s) => s.Settled

section Stage

variable {post weaker : Vm → Session → Prop} {result : Option Vm × Session} {after : Vm}

theorem Stage.imp (stage : Stage post result) (implies : ∀ vm s, post vm s → weaker vm s) :
    Stage weaker result := by
  obtain ⟨returned, s⟩ := result
  cases returned with
  | none => exact stage
  | some vm => exact implies vm s stage

theorem Stage.settled (stage : Stage post result) (implies : ∀ vm s, post vm s → s.Settled) :
    result.2.Settled := by
  obtain ⟨returned, s⟩ := result
  cases returned with
  | none => exact stage
  | some vm => exact implies vm s stage

theorem Stage.returned (stage : Stage post result) (returned : result.1 = some after) :
    post after result.2 := by
  rw [← Prod.eta result, returned] at stage
  exact stage

end Stage

theorem andThen_stage {result : Option Vm × Session} {next : Vm → Session → Option Vm × Session}
    {middle post : Vm → Session → Prop} (first : Stage middle result)
    (second : ∀ vm s, middle vm s → Stage post (next vm s)) : Stage post (andThen result next) := by
  obtain ⟨returned, s⟩ := result
  cases returned with
  | none => exact first
  | some vm => exact second vm s first

theorem Raises.last {cause : Cause} {event : TraceEvent} {pc : Word} {s next : Session}
    {p q : Prompt} (raises : s.Raises cause event pc q next) (last : p ∈ next.log.getLast?) :
    p = q := by
  rw [raises.log] at last
  simpa using last.symm

theorem Raises.settled {cause : Cause} {event : TraceEvent} {pc : Word} {s next : Session}
    {q : Prompt} (raises : s.Raises cause event pc q next) (history : next.History)
    (unanswered : q.answer = none) : next.Settled := by
  have silent : ∀ p ∈ next.log.getLast?, ¬ p.answer.isSome := by
    intro p last
    rw [raises.last last, unanswered]
    exact Bool.false_ne_true
  exact ⟨history, fun p last answered => absurd answered (silent p last),
    fun p last answered => absurd answered (silent p last)⟩

theorem Handling.raise {event : TraceEvent} {vm : Vm} {s : Session}
    (handling : s.Handling event vm.cpu.pc) (cause : Cause)
    (counter : ∀ p ∈ s.log.getLast?, (cause = .counter ↔ s.calls = p.call + untilZero p.left))
    (same : ∀ p ∈ s.log.getLast?, p.call = s.calls → (∃ id, cause = .breakpoint id) ∧ p.Clash ∨
      (¬ ∃ id, cause = .breakpoint id) ∧ event = .execEnd ∧ p.cause = .counter)
    (second : ∀ p ∈ s.log.getLast?, p.call < s.calls → s.calls = 2 →
      cause = .counter ∨ p.OnBreakpoint)
    (opens : s.log = [] → cause = .start) :
    Stage (fun after next => after.cpu.pc = vm.cpu.pc ∧ ∃ q, s.Raises cause event vm.cpu.pc q next ∧
      next.History ∧ next.Since q ∧ (next.ctx.breaksAt vm.cpu.pc ↔ q.Armed))
      (s.prompt cause event vm) := by
  obtain ⟨q, raises, outcome⟩ := prompt_raises cause event vm s
  have numbered : q.Numbered := by
    constructor
    · rw [raises.executed, raises.call]
      exact handling.executed
    · rw [raises.call]
      exact handling.positive
    · rw [raises.event, raises.call]
      exact handling.start
  have history : (s.prompt cause event vm).2.History := by
    refine handling.history.append raises.log raises.calls raises.call numbered ?_ ?_
    · intro p last
      have since := handling.since p last
      constructor
      · exact since.resumed
      · rw [raises.call]
        exact since.order
      · rw [raises.call]
        exact since.within
      · rw [raises.cause, raises.call]
        exact counter p last
      · rw [raises.call, raises.event, Prompt.OnBreakpoint, raises.cause]
        intro here
        obtain ⟨ofEvent, _, _⟩ := handling.same p last here.symm
        rw [ofEvent]
        exact ⟨rfl, same p last here.symm⟩
      · rw [raises.call]
        intro before
        obtain ⟨notEnd, clear, _⟩ := handling.later p last before
        exact ⟨notEnd, clear⟩
      · rw [raises.call, raises.cause]
        exact second p last
    · rw [raises.cause]
      exact opens
  rw [← Prod.eta (s.prompt cause event vm)]
  rcases outcome with ⟨left, unanswered⟩ | ⟨after, returned, pc, answered, counted, breaks⟩
  · rw [left]
    exact raises.settled history unanswered
  · rw [returned]
    refine ⟨pc, q, raises, history, ?_, breaks⟩
    constructor
    · exact answered
    · rw [raises.call, raises.calls]
    · rw [raises.call, raises.calls]
      apply Nat.le_add_right
    · rw [counted, raises.call, raises.calls, Nat.sub_self]
      apply Eq.symm
      apply BitVec.sub_zero

theorem Handling.next {cause : Cause} {event : TraceEvent} {pc : Word} {s next : Session}
    {q : Prompt} (handling : s.Handling event pc) (raises : s.Raises cause event pc q next)
    (history : next.History) (since : next.Since q) (breaks : next.ctx.breaksAt pc ↔ q.Armed)
    (other : ∀ id, cause ≠ .breakpoint id) :
    next.Handling event pc ∧ next.Counted ∧ next.log ≠ [] := by
  have nonempty : next.log ≠ [] := by
    rw [raises.log]
    simp
  refine ⟨⟨history, ?_, ?_, ?_, ?_, ?_, ?_, ?_, ?_⟩, ?_, nonempty⟩
  · rw [raises.total, raises.calls]
    exact handling.executed
  · rw [raises.calls]
    exact handling.positive
  · rw [raises.calls]
    exact handling.start
  · rw [raises.calls]
    exact handling.ending
  · intro empty
    exact absurd empty nonempty
  · intro p last
    obtain rfl := raises.last last
    exact since
  · intro p last _
    obtain rfl := raises.last last
    refine ⟨raises.event, ?_, breaks⟩
    rintro ⟨id, caused⟩
    exact other id (raises.cause.symm.trans caused)
  · intro p last before
    obtain rfl := raises.last last
    rw [raises.call, raises.calls] at before
    omega
  · intro p last
    obtain rfl := raises.last last
    rw [raises.calls, ← raises.call, untilZero]
    omega

theorem Handling.pauseCounter {event : TraceEvent} {vm : Vm} {s : Session}
    (handling : s.Handling event vm.cpu.pc) (entered : ∀ p ∈ s.log.getLast?, p.call < s.calls)
    (opening : event = .execStart → s.log = []) :
    Stage (fun after next => after.cpu.pc = vm.cpu.pc ∧ next.Handling event vm.cpu.pc ∧
      next.Counted ∧ (event = .execStart → next.log = []) ∧
      ∀ p ∈ next.log.getLast?, p.call = next.calls → p.cause = .counter)
      (s.pause s.counterCause event vm) := by
  have ranOut : ∀ p ∈ s.log.getLast?, (s.ctx.nSteps = 0 ↔ s.calls = p.call + untilZero p.left) := by
    intro p last
    have since := handling.since p last
    have before := entered p last
    have bound := since.within
    rw [since.counter, sub_ofNat_eq_zero (by omega) (by omega)]
    omega
  by_cases zero : s.ctx.nSteps = 0
  · have nonempty : s.log ≠ [] := fun empty => (handling.fresh empty).2 zero
    have raised := handling.raise .counter
      (fun p last => ⟨fun _ => (ranOut p last).mp zero, fun _ => rfl⟩)
      (fun p last here => absurd here (Nat.ne_of_lt (entered p last)))
      (fun _ _ _ _ => .inl rfl) (fun empty => absurd empty nonempty)
    rw [counterCause, if_pos zero, pause_some]
    apply raised.imp
    rintro after next ⟨pc, q, raises, history, since, breaks⟩
    obtain ⟨again, counted, _⟩ := handling.next raises history since breaks nofun
    refine ⟨pc, again, counted, fun start => absurd (opening start) nonempty, ?_⟩
    intro p last _
    rw [raises.last last]
    exact raises.cause
  · rw [counterCause, if_neg zero]
    refine ⟨rfl, handling, ?_, opening, fun p last here => absurd here (Nat.ne_of_lt (entered p last))⟩
    intro p last
    have notYet : s.calls ≠ p.call + untilZero p.left := fun same => zero ((ranOut p last).mpr same)
    have bound := (handling.since p last).within
    omega

theorem event_cause_eq_some {event : TraceEvent} {cause : Cause} :
    event.cause = some cause ↔
      event = .execStart ∧ cause = .start ∨ event = .execEnd ∧ cause = .finish := by
  cases event <;> simp [TraceEvent.cause, eq_comm]

theorem Handling.pauseEvent {event : TraceEvent} {vm : Vm} {s : Session}
    (handling : s.Handling event vm.cpu.pc) (counted : s.Counted)
    (opening : event = .execStart → s.log = [])
    (counting : ∀ p ∈ s.log.getLast?, p.call = s.calls → p.cause = .counter) :
    Stage (fun after next => after.cpu.pc = vm.cpu.pc ∧ next.Handling event vm.cpu.pc ∧
      next.Counted ∧ next.log ≠ [] ∧
      ∀ p ∈ next.log.getLast?, p.cause = .counter → p.call = next.calls → event ≠ .execEnd)
      (s.pause event.cause event vm) := by
  cases found : event.cause with
  | none =>
      refine ⟨rfl, handling, counted, ?_, ?_⟩
      · intro empty
        obtain ⟨rfl, _⟩ := handling.fresh empty
        cases found
      · rintro _ _ _ _ rfl
        cases found
  | some cause =>
      have ends := event_cause_eq_some.mp found
      have plain : cause ≠ .counter ∧ ∀ id, cause ≠ .breakpoint id := by
        rcases ends with ⟨_, rfl⟩ | ⟨_, rfl⟩
        · exact ⟨nofun, nofun⟩
        · exact ⟨nofun, nofun⟩
      have raised := handling.raise cause
        (fun p last => iff_of_false plain.1 (Nat.ne_of_lt (counted p last)))
        (by
          intro p last here
          rcases ends with ⟨start, _⟩ | ⟨finish, _⟩
          · simp [opening start] at last
          · refine .inr ⟨?_, finish, counting p last here⟩
            rintro ⟨id, breakpoint⟩
            exact plain.2 id breakpoint)
        (by
          intro p last _ two
          rcases ends with ⟨start, _⟩ | ⟨finish, _⟩
          · simp [opening start] at last
          · have := handling.ending finish
            omega)
        (by
          intro empty
          rcases ends with ⟨_, started⟩ | ⟨finish, _⟩
          · exact started
          · rw [(handling.fresh empty).1] at finish
            cases finish)
      apply raised.imp
      rintro after next ⟨pc, q, raises, history, since, breaks⟩
      obtain ⟨again, counted, nonempty⟩ := handling.next raises history since breaks plain.2
      refine ⟨pc, again, counted, nonempty, ?_⟩
      intro p last counter
      rw [raises.last last, raises.cause] at counter
      exact absurd counter plain.1

theorem breakpointCause_isSome (s : Session) (vm : Vm) :
    (s.breakpointCause vm).isSome ↔ s.ctx.breaksAt vm.cpu.pc := by
  simp [breakpointCause, DebuggerCtx.breaksAt]

structure Handled (event : TraceEvent) (pc : Word) (s : Session) : Prop where
  history : s.History
  executed : s.executed = s.calls - 2
  positive : 1 ≤ s.calls
  start : event = .execStart ↔ s.calls = 1
  prompted : s.log ≠ []
  since : ∀ p ∈ s.log.getLast?, s.Since p
  counted : s.Counted
  going : event ≠ .execEnd → ∀ p ∈ s.log.getLast?, p.event ≠ .execEnd
  clear : ∀ p ∈ s.log.getLast?, ¬ p.Clash
  first : event ≠ .execEnd → ∀ p ∈ s.log.getLast?, p.OnBreakpoint ∨ ¬ s.ctx.breaksAt pc

theorem Handling.passes {event : TraceEvent} {pc : Word} {s : Session}
    (handling : s.Handling event pc) (counted : s.Counted) (nonempty : s.log ≠ [])
    (free : ¬ s.ctx.breaksAt pc) : s.Handled event pc := by
  refine ⟨handling.history, handling.executed, handling.positive, handling.start, nonempty,
    handling.since, counted, ?_, ?_, fun _ _ _ => .inr free⟩
  · intro notEnd p last
    by_cases here : p.call = s.calls
    · obtain ⟨ofEvent, _⟩ := handling.same p last here
      rwa [ofEvent]
    · have before := Nat.lt_of_le_of_ne (handling.since p last).order here
      exact (handling.later p last before).1
  · intro p last
    by_cases here : p.call = s.calls
    · obtain ⟨_, _, armed⟩ := handling.same p last here
      exact fun clash => free (armed.mpr clash.2.2)
    · have before := Nat.lt_of_le_of_ne (handling.since p last).order here
      exact (handling.later p last before).2.1

theorem Handling.breaks {event : TraceEvent} {pc : Word} {s next : Session} {q : Prompt} {id : Nat}
    (handling : s.Handling event pc) (raises : s.Raises (.breakpoint id) event pc q next)
    (history : next.History) (since : next.Since q) : next.Handled event pc := by
  constructor
  · exact history
  · rw [raises.total, raises.calls]
    exact handling.executed
  · rw [raises.calls]
    exact handling.positive
  · rw [raises.calls]
    exact handling.start
  · rw [raises.log]
    apply List.concat_ne_nil
  · intro p last
    rw [raises.last last]
    exact since
  · intro p last
    obtain rfl := raises.last last
    rw [raises.calls, ← raises.call, untilZero]
    omega
  · intro notEnd p last
    rwa [raises.last last, raises.event]
  · intro p last clash
    rw [raises.last last] at clash
    exact clash.1 ⟨id, raises.cause⟩
  · intro _ p last
    rw [raises.last last]
    exact .inl ⟨id, raises.cause⟩

theorem Handling.pauseBreakpoint {event : TraceEvent} {vm : Vm} {s : Session}
    (handling : s.Handling event vm.cpu.pc) (counted : s.Counted) (nonempty : s.log ≠ [])
    (passed : ∀ p ∈ s.log.getLast?, p.cause = .counter → p.call = s.calls → event ≠ .execEnd) :
    Stage (fun after next => after.cpu.pc = vm.cpu.pc ∧ next.Handled event vm.cpu.pc)
      (s.pause (s.breakpointCause vm) event vm) := by
  have stands := breakpointCause_isSome s vm
  cases found : s.breakpointCause vm with
  | none =>
      rw [found] at stands
      have free : ¬ s.ctx.breaksAt vm.cpu.pc := fun breaks => Bool.false_ne_true (stands.mpr breaks)
      exact ⟨rfl, handling.passes counted nonempty free⟩
  | some cause =>
      rw [found] at stands
      have breaks := stands.mp rfl
      obtain ⟨bp, _, rfl⟩ := Option.map_eq_some_iff.mp found
      have raised := handling.raise (.breakpoint bp.id)
        (fun p last => iff_of_false nofun (Nat.ne_of_lt (counted p last)))
        (by
          intro p last here
          obtain ⟨ofEvent, other, armed⟩ := handling.same p last here
          refine .inl ⟨⟨bp.id, rfl⟩, other, ?_, armed.mp breaks⟩
          intro counter
          rw [ofEvent]
          exact passed p last counter here)
        (by
          intro p last before two
          obtain ⟨_, _, second⟩ := handling.later p last before
          exact .inr ((second two).resolve_right fun free => free breaks))
        (fun empty => absurd empty nonempty)
      apply raised.imp
      rintro after next ⟨pc, q, raises, history, since, _⟩
      exact ⟨pc, handling.breaks raises history since⟩

theorem Ready.settled {pc : Word} {s : Session} (ready : s.Ready pc) : s.Settled := by
  refine ⟨ready.history, ?_, fun p last _ => (ready.clear p last).2⟩
  intro p last _
  have numbered := ready.history.numbered p (List.mem_of_getLast? last)
  have total := numbered.executed
  have positive := numbered.positive
  have bound := ready.counted p last
  have calls := ready.calls
  omega

theorem Handled.ready {event : TraceEvent} {pc : Word} {s : Session}
    (handled : s.Handled event pc) (notEnd : event ≠ .execEnd) : (s.leave event).Ready pc := by
  have executed := handled.executed
  have positive := handled.positive
  have start := handled.start
  have clear : ∀ p ∈ s.log.getLast?, p.event ≠ .execEnd ∧ ¬ p.Clash :=
    fun p last => ⟨handled.going notEnd p last, handled.clear p last⟩
  cases found : event.cause with
  | none =>
      have notStart : event ≠ .execStart := by
        rintro rfl
        cases found
      have several : s.calls ≠ 1 := fun same => notStart (start.mpr same)
      have history := handled.history
      rw [Session.leave, if_pos found]
      constructor
      · exact ⟨history.chain, history.numbered, history.past, history.opening⟩
      · change s.calls = s.executed + 1 + 1
        omega
      · exact handled.prompted
      · intro p last
        have since := handled.since p last
        exact ⟨since.resumed, since.order, since.within, since.counter⟩
      · exact handled.counted
      · exact clear
      · exact fun _ => handled.first notEnd
  | some cause =>
      have begins : event = .execStart := by
        rcases event_cause_eq_some.mp found with ⟨begins, _⟩ | ⟨finish, _⟩
        · exact begins
        · exact absurd finish notEnd
      have one := start.mp begins
      rw [Session.leave, if_neg (by rw [found]; nofun)]
      exact ⟨handled.history, by omega, handled.prompted, handled.since, handled.counted, clear,
        fun _ => handled.first notEnd⟩

theorem Handled.settled {event : TraceEvent} {pc : Word} {s : Session}
    (handled : s.Handled event pc) : (s.leave event).Settled := by
  by_cases ends : event = .execEnd
  · subst event
    refine ⟨handled.history, ?_, fun p last _ => handled.clear p last⟩
    intro p last _
    have numbered := handled.history.numbered p (List.mem_of_getLast? last)
    have total := numbered.executed
    have positive := numbered.positive
    have bound := handled.counted p last
    have executed := handled.executed
    change s.executed ≤ _
    omega
  · exact (handled.ready ends).settled

theorem leave_executed {event : TraceEvent} {s : Session} (inst : event.cause = none) :
    1 ≤ (s.leave event).executed := by
  rw [Session.leave, if_pos inst]
  apply Nat.succ_pos

theorem yieldDebugger_stage {event : TraceEvent} {vm : Vm} {s : Session}
    (handling : (s.arrive event vm).Handling event vm.cpu.pc)
    (entered : ∀ p ∈ s.log.getLast?, p.call ≤ s.calls)
    (opening : event = .execStart → s.log = []) :
    Stage (fun after next => after.cpu.pc = vm.cpu.pc ∧ next.Settled ∧
      (event ≠ .execEnd → next.Ready vm.cpu.pc) ∧ (event.cause = none → 1 ≤ next.executed))
      (yieldDebugger event vm s) := by
  refine andThen_stage (handling.pauseCounter
    (fun p last => Nat.lt_succ_of_le (entered p last)) opening) ?_
  rintro first s ⟨same, handling, counted, opening, counting⟩
  rw [← same] at handling ⊢
  refine andThen_stage (handling.pauseEvent counted opening counting) ?_
  rintro second s ⟨same, handling, counted, nonempty, passed⟩
  rw [← same] at handling ⊢
  refine andThen_stage (handling.pauseBreakpoint counted nonempty passed) ?_
  rintro third s ⟨same, handled⟩
  exact ⟨same, handled.settled, handled.ready, leave_executed⟩

section Arrive

variable (event : TraceEvent) (vm : Vm) (s : Session)

@[simp] theorem arrive_nSteps : (s.arrive event vm).ctx.nSteps = s.ctx.nSteps - 1 := by
  simp only [arrive]
  split <;> rfl

@[simp] theorem arrive_breaksAt (pc : Word) :
    (s.arrive event vm).ctx.breaksAt pc ↔ s.ctx.breaksAt pc := by
  simp only [arrive]
  split <;> rfl

end Arrive

theorem Ready.arrive {event : TraceEvent} {vm : Vm} {s : Session} (ready : s.Ready vm.cpu.pc)
    (notStart : event ≠ .execStart) (ending : event = .execEnd → 1 ≤ s.executed) :
    (s.arrive event vm).Handling event vm.cpu.pc := by
  have calls := ready.calls
  have arrived : (s.arrive event vm).calls = s.calls + 1 := rfl
  constructor
  · exact ⟨ready.history.chain, ready.history.numbered,
      fun p member => Nat.le_succ_of_le (ready.history.past p member), ready.history.opening⟩
  · change s.executed = s.calls + 1 - 2
    omega
  · omega
  · refine iff_of_false notStart ?_
    omega
  · intro ends
    have := ending ends
    omega
  · intro empty
    exact absurd empty ready.prompted
  · intro p last
    have since := ready.since p last
    have order := since.order
    have bound := ready.counted p last
    refine ⟨since.resumed, by omega, by omega, ?_⟩
    rw [arrive_nSteps, since.counter, arrived, Nat.succ_sub order, Nat.succ_eq_add_one,
      BitVec.ofNat_add, BitVec.sub_sub]
    rfl
  · intro p last here
    have order := (ready.since p last).order
    omega
  · intro p last _
    obtain ⟨notEnd, clear⟩ := ready.clear p last
    refine ⟨notEnd, clear, ?_⟩
    intro two
    rw [arrive_breaksAt]
    exact ready.first (by omega) p last

end Session

section Runs

variable {executable : List Byte} {input : List Str} {m next : Machine Session} {count : Nat}

theorem Label.event_cause (label : Label) : label.event.cause = none := by
  cases label <;> rfl

theorem Dispatches.enters_pc {vm decoded seen : Vm} {label : Label}
    (leads : Dispatches vm decoded label) (entered : label.enter decoded = .ok seen) :
    seen.cpu.pc = vm.cpu.pc := by
  obtain ⟨head, ir, _, enters, _⟩ := leads.enters
  obtain rfl := Except.ok.inj (enters.symm.trans entered)
  rfl

theorem yieldDebugger_inst {decoded seen : Vm} {label : Label} (ready : m.ctx.Ready m.vm.cpu.pc)
    (leads : Dispatches m.vm decoded label) (entered : label.enter decoded = .ok seen) :
    Session.Stage (fun after next => after.cpu.pc = m.vm.cpu.pc ∧ next.Settled ∧
      next.Ready m.vm.cpu.pc ∧ 1 ≤ next.executed) (yieldDebugger label.event seen m.ctx) := by
  have inst := label.event_cause
  have pc := leads.enters_pc entered
  have notStart : label.event ≠ .execStart := by
    intro start
    rw [start] at inst
    cases inst
  have notEnd : label.event ≠ .execEnd := by
    intro finish
    rw [finish] at inst
    cases inst
  rw [← pc] at ready
  have stage := Session.yieldDebugger_stage (ready.arrive notStart fun finish => absurd finish notEnd)
    (fun p last => (ready.since p last).order) (fun start => absurd start notStart)
  rw [pc] at stage
  exact stage.imp fun after s ⟨same, settled, again, executed⟩ =>
    ⟨same, settled, again notEnd, executed inst⟩

theorem Session.Ready.ends {vm : Vm} {s : Session} (ready : s.Ready vm.cpu.pc)
    (executed : 1 ≤ s.executed) : (yieldDebugger .execEnd vm s).2.Settled := by
  have handling : (s.arrive .execEnd vm).Handling .execEnd vm.cpu.pc :=
    ready.arrive nofun fun _ => executed
  exact (Session.yieldDebugger_stage handling (fun p last => (ready.since p last).order)
    nofun).settled fun _ _ post => post.2.1

theorem vmStep_settled (ready : m.ctx.Ready m.vm.cpu.pc) :
    (vmStep yieldDebugger m).state.ctx.Settled := by
  by_cases called : ∃ decoded label, Dispatches m.vm decoded label ∧ label ≠ .doBadOp
  · obtain ⟨decoded, label, leads, valid⟩ := called
    obtain ⟨_, ir, _, entered, _⟩ := leads.enters
    have stage := yieldDebugger_inst ready leads entered
    rcases @vmStep_ctx _ yieldDebugger m label decoded _ leads valid entered with
      same | ⟨after, returned, ended⟩
    · rw [same]
      exact stage.settled fun _ _ post => post.2.1
    · rw [ended]
      obtain ⟨pc, _, again, executed⟩ := stage.returned returned
      rw [← pc] at again
      exact again.ends executed
  · obtain ⟨stop, last, stopped, same⟩ := @vmStep_uncalled _ yieldDebugger m (by simpa using called)
    rw [stopped, Outcome.state_stopped, same]
    exact ready.settled

theorem vmStep_ready (ready : m.ctx.Ready m.vm.cpu.pc)
    (run : vmStep yieldDebugger m = .running next) : next.ctx.Ready next.vm.cpu.pc := by
  obtain ⟨decoded, label, seen, after, leads, entered, handled, _⟩ := vmStep_running run
  have stage := yieldDebugger_inst ready leads entered
  rw [handled] at stage
  obtain ⟨_, _, again, executed⟩ := stage
  have calls := again.calls
  exact ⟨again.history, again.calls, again.prompted, again.since, again.counted, again.clear,
    fun one => by omega⟩

theorem vmEntry_ready (started : debuggerInit executable input = .ok m) :
    (vmEntry yieldDebugger m).state.ctx.Settled ∧
      ∀ next, vmEntry yieldDebugger m = .running next → next.ctx.Ready next.vm.cpu.pc := by
  obtain ⟨vm, _, initial⟩ := bind_eq_ok.mp started
  obtain rfl := Except.ok.inj initial
  have handling : Session.Handling .execStart vm.cpu.pc (Session.arrive .execStart vm
      { ctx := { nSteps := -1, trace := true, breakpoints := [], nextId := 0, terminal := [] }
        input, calls := 0, executed := 0, log := [] }) := by
    constructor
    · exact ⟨.nil, by simp [Session.arrive], by simp [Session.arrive], by simp [Session.arrive]⟩
    · rfl
    · exact Nat.le_refl 1
    · exact iff_of_true rfl rfl
    · rintro ⟨⟩
    · intro _
      refine ⟨rfl, ?_⟩
      rw [Session.arrive_nSteps]
      exact (by decide : (-1 : CInt) - 1 ≠ 0)
    · simp [Session.arrive]
    · simp [Session.arrive]
    · simp [Session.arrive]
  have stage := Session.yieldDebugger_stage handling (by simp) (fun _ => rfl)
  rcases traced_cases yieldDebugger .execStart _ .running with ⟨after, returned, run⟩ | ⟨left, run⟩
  · rw [vmEntry, run]
    obtain ⟨pc, settled, again, _⟩ := stage.returned returned
    refine ⟨settled, ?_⟩
    intro next same
    obtain rfl := Outcome.running.inj same
    change Session.Ready after.cpu.pc _
    rw [pc]
    exact again (by rintro ⟨⟩)
  · rw [vmEntry, run]
    refine ⟨stage.settled fun _ _ post => post.2.1, ?_⟩
    rintro next ⟨⟩

/-- After any number of instructions the history of a session keeps the rules. -/
theorem vmExec_settled (started : debuggerInit executable input = .ok m) (count : Nat) :
    (vmExec yieldDebugger count m).state.ctx.Settled ∧
      ∀ next, vmExec yieldDebugger count m = .running next → next.ctx.Ready next.vm.cpu.pc := by
  induction count with
  | zero =>
      rw [vmExec_zero]
      exact vmEntry_ready started
  | succ count ih =>
      obtain ⟨settled, ready⟩ := ih
      rw [vmExec_succ]
      cases run : vmExec yieldDebugger count m with
      | running before =>
          constructor
          · exact vmStep_settled (ready before run)
          · intro next stepped
            exact vmStep_ready (ready before run) stepped
      | stopped stop last =>
          rw [run] at settled
          refine ⟨settled, ?_⟩
          rintro next ⟨⟩

end Runs

end Sigma16

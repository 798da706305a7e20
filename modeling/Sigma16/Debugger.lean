import Sigma16.DebuggerCommands
import Sigma16.VmTracing

/-!
The interactive debugger of `debugger.c`: the commands at its prompt and
`yield_debugger`, the trace handler that raises it.
-/

namespace Sigma16

open PyText Words Transition

inductive Shown where
  | text (message : String)
  | traced (pc : Word) (mnemonic : Option String) (ir : InstVariant)
  | register (idx : CInt) (val : Word)
  | cpu (cpu : Cpu)
  | memory (start : Nat) (words : List Word)
  | tracing (on : Bool)
  | breakpointHit (id : Nat)

structure DebuggerBp where
  id : Nat
  addr : Word
  deriving DecidableEq

/-- `struct debugger_ctx`, the `static int id` of `debugger_set_breakpoint`, and the terminal. -/
structure DebuggerCtx where
  nSteps : CInt
  trace : Bool
  breakpoints : List DebuggerBp
  nextId : Nat
  terminal : List Shown

namespace DebuggerCtx

def print (ctx : DebuggerCtx) (items : List Shown) : DebuggerCtx :=
  { ctx with terminal := ctx.terminal ++ items }

@[simp] theorem print_nSteps (ctx : DebuggerCtx) (items : List Shown) :
    (ctx.print items).nSteps = ctx.nSteps := rfl

@[simp] theorem print_breakpoints (ctx : DebuggerCtx) (items : List Shown) :
    (ctx.print items).breakpoints = ctx.breakpoints := rfl

end DebuggerCtx

/-! The commands. A handler returns the action it asks of the prompt's loop. -/

inductive Action where
  | resume (vm : Vm) (ctx : DebuggerCtx)
  | prompt (vm : Vm) (ctx : DebuggerCtx)
  /-- The process exits, or reads or writes outside an array or the mapping. -/
  | left (ctx : DebuggerCtx)

def dumpVmMemFrom (vm : Vm) (i : Nat) : Nat → Except Stop (List Word)
  | 0 => .ok []
  | count + 1 => do
      let word ← readMem vm (BitVec.ofNat 16 i)
      return word :: (← dumpVmMemFrom vm (i + 1) count)

/-- `buf[i % 16]` is in front of the array for a negative `i`, unless a row begins there. -/
def storesInside (start : CInt) (count : Nat) : Bool :=
  (List.range count).all fun index => 0 ≤ (start.toInt + index).tmod 16

/-- The bounds are extended to `size_t`, in which the loop compares. -/
def debuggerDumpMem (vm : Vm) (ctx : DebuggerCtx) (stop start : CInt) : Action :=
  let first := (start.signExtend 64).toNat
  match dumpVmMemFrom vm first ((stop.signExtend 64).toNat - first) with
  | .ok words =>
      if storesInside start words.length then .prompt vm (ctx.print [.memory first words])
      else .left ctx
  | .error _ => .left ctx

def debuggerDumpCpu (vm : Vm) (ctx : DebuggerCtx) : Action :=
  .prompt vm (ctx.print [.cpu vm.cpu])

def helpText : String :=
  "Command        : Description\n" ++
  "-------        : -----------\n" ++
  " ?             : display this message\n" ++
  " n (int)       : execute n steps\n" ++
  " i (int) (int) : write value to specified register\n" ++
  " o (int)       : display value of specified register\n" ++
  " t             : toggle tracing\n" ++
  " c             : continue execution\n" ++
  " d             : dump processor state\n" ++
  " m (int) ?(int): inspect memory from end to start\n" ++
  " b (int)       : set breakpoint at specified address\n" ++
  " e             : exit\n"

def debuggerHelp (vm : Vm) (ctx : DebuggerCtx) : Action :=
  .prompt vm (ctx.print [.text helpText])

def registerAt (idx : CInt) : Option Nibble :=
  if idx.toNat < 16 then some (BitVec.ofNat 4 idx.toNat) else none

/-- The guard refuses the registers 1 to 14 and lets every other index through. -/
def debuggerWriteReg (vm : Vm) (ctx : DebuggerCtx) (idx val : CInt) : Action :=
  if BitVec.slt 0 idx && BitVec.slt idx 15 then .prompt vm (ctx.print [.text "invalid register\n"])
  else match registerAt idx with
    | some reg => .prompt (vm.setReg reg (truncate val)) ctx
    | none => .left ctx

def debuggerSetBreakpoint (vm : Vm) (ctx : DebuggerCtx) (addr : CInt) : Action :=
  .prompt vm { ctx with
    nextId := ctx.nextId + 1
    breakpoints := { id := ctx.nextId, addr := truncate addr } :: ctx.breakpoints }

def debuggerReadReg (vm : Vm) (ctx : DebuggerCtx) (idx : CInt) : Action :=
  if BitVec.slt 0 idx && BitVec.slt idx 15 then .prompt vm (ctx.print [.text "invalid register\n"])
  else match registerAt idx with
    | some reg => .prompt vm (ctx.print [.register idx (vm.cpu.regs reg)])
    | none => .left ctx

def debuggerStep (vm : Vm) (ctx : DebuggerCtx) (steps : CInt) : Action :=
  .resume vm { ctx with nSteps := steps }

def debuggerContinue (vm : Vm) (ctx : DebuggerCtx) : Action :=
  .resume vm (ctx.print [.text "Continuing.\n"])

def debuggerTrace (vm : Vm) (ctx : DebuggerCtx) : Action :=
  .prompt vm ({ ctx with trace := !ctx.trace }.print [.tracing (!ctx.trace)])

def debuggerExit (ctx : DebuggerCtx) : Action := .left (ctx.print [.text "Quit.\n"])

def debuggerObey (vm : Vm) (ctx : DebuggerCtx) : DebuggerCmd → Action
  | .exit => debuggerExit ctx
  | .step steps => debuggerStep vm ctx steps
  | .trace => debuggerTrace vm ctx
  | .readReg reg => debuggerReadReg vm ctx reg
  | .writeReg reg val => debuggerWriteReg vm ctx reg val
  | .setBreakpoint addr => debuggerSetBreakpoint vm ctx addr
  | .help => debuggerHelp vm ctx
  | .cont => debuggerContinue vm ctx
  | .dumpCpu => debuggerDumpCpu vm ctx
  | .dumpMem stop start => debuggerDumpMem vm ctx stop start

structure Exchange where
  vm : Vm
  ctx : DebuggerCtx
  input : List Str
  typed : List DebuggerCmd
  answer : Option DebuggerCmd

/-- `debugger_interactive` on the lines the user has yet to type. `parse_cmd` skips empty
lines, and has no good buffer to go on with once the input has ended. -/
def debuggerInteractive (vm : Vm) (ctx : DebuggerCtx) : List Str → Exchange
  | [] => { vm, ctx, input := [], typed := [], answer := none }
  | buf :: input =>
      if buf = [] then debuggerInteractive vm ctx input
      else match parseCmd buf with
        | .null message =>
            debuggerInteractive vm (ctx.print [.text message, .text "invalid command\n"]) input
        | .crash message =>
            { vm, ctx := ctx.print [.text message], input, typed := [], answer := none }
        | .cmd cmd =>
            match debuggerObey vm ctx cmd with
            | .resume vm ctx => { vm, ctx, input, typed := [], answer := some cmd }
            | .prompt vm ctx =>
                let rest := debuggerInteractive vm ctx input
                { rest with typed := cmd :: rest.typed }
            | .left ctx => { vm, ctx, input, typed := [], answer := none }

inductive Cause where
  | counter
  | start
  | finish
  | breakpoint (id : Nat)
  deriving DecidableEq

def Cause.banner : Cause → List Shown
  | .counter | .start => []
  | .finish => [.text "Post execution (limited commands).\n"]
  | .breakpoint id => [.breakpointHit id]

/-- One call of `debugger_interactive`, entered when `executed` instructions had been
executed and `call` trace events had been handled, its own included. -/
structure Prompt where
  cause : Cause
  event : TraceEvent
  executed : Nat
  call : Nat
  pc : Word
  ctx : DebuggerCtx
  typed : List DebuggerCmd
  answer : Option DebuggerCmd

/-- The handler's context: the debugger's, the lines still to come, and the history of the
session, which nothing in the debugger reads. -/
structure Session where
  ctx : DebuggerCtx
  input : List Str
  calls : Nat
  executed : Nat
  log : List Prompt

namespace Session

def prompt (cause : Cause) (event : TraceEvent) (vm : Vm) (s : Session) : Option Vm × Session :=
  let ctx := s.ctx.print cause.banner
  let e := debuggerInteractive vm ctx s.input
  (e.answer.map fun _ => e.vm,
    { s with
      ctx := e.ctx
      input := e.input
      log := s.log ++ [{
        cause, event, executed := s.executed, call := s.calls, pc := vm.cpu.pc, ctx := s.ctx
        typed := e.typed, answer := e.answer }] })

def pause (cause : Option Cause) (event : TraceEvent) (vm : Vm) (s : Session) :
    Option Vm × Session :=
  match cause with
  | some cause => s.prompt cause event vm
  | none => (some vm, s)

@[simp] theorem pause_none (event : TraceEvent) (vm : Vm) (s : Session) :
    s.pause none event vm = (some vm, s) := rfl

@[simp] theorem pause_some (cause : Cause) (event : TraceEvent) (vm : Vm) (s : Session) :
    s.pause (some cause) event vm = s.prompt cause event vm := rfl

def counterCause (s : Session) : Option Cause := if s.ctx.nSteps = 0 then some .counter else none

def breakpointCause (s : Session) (vm : Vm) : Option Cause :=
  (s.ctx.breakpoints.find? fun bp => vm.cpu.pc = bp.addr).map fun bp => .breakpoint bp.id

end Session

def TraceEvent.cause : TraceEvent → Option Cause
  | .execStart => some .start
  | .execEnd => some .finish
  | .instRrr | .instRx | .instExp0 => none

/-- `sigma16_trace`. For the stale `ir` of a NOP the source may read past the table of mnemonics;
a session then goes on, with `none` for the text. -/
def sigma16Trace (vm : Vm) (event : TraceEvent) : List Shown :=
  if event = .execStart ∨ event = .execEnd then []
  else [.traced vm.cpu.pc (sigma16TraceMnemonic vm event) vm.cpu.ir]

namespace Session

def arrive (event : TraceEvent) (vm : Vm) (s : Session) : Session :=
  let ctx := if s.ctx.trace then s.ctx.print (sigma16Trace vm event) else s.ctx
  { s with ctx := { ctx with nSteps := ctx.nSteps - 1 }, calls := s.calls + 1 }

def leave (event : TraceEvent) (s : Session) : Session :=
  if event.cause = none then { s with executed := s.executed + 1 } else s

def andThen (result : Option Vm × Session) (next : Vm → Session → Option Vm × Session) :
    Option Vm × Session :=
  match result with
  | (some vm, s) => next vm s
  | (none, s) => (none, s)

end Session

def yieldDebugger : TraceHandler Session := fun event vm s =>
  let s := s.arrive event vm
  Session.andThen (s.pause s.counterCause event vm) fun vm s =>
  Session.andThen (s.pause event.cause event vm) fun vm s =>
  Session.andThen (s.pause (s.breakpointCause vm) event vm) fun vm s =>
  (some vm, s.leave event)

def debuggerInit (executable : List Byte) (input : List Str) : Except Stop (Machine Session) := do
  let vm ← sigma16VmInit executable
  return {
    vm
    ctx := {
      ctx := { nSteps := -1, trace := true, breakpoints := [], nextId := 0, terminal := [] }
      input, calls := 0, executed := 0, log := [] }
    out := [] }

end Sigma16

import Sigma16.Debugger
import Sigma16.TotalCorrectness

/-!
The prompt's input with the pointers in it. `readline`, `strtok` and an argument array can
hand on a null pointer or a value nothing stored, and `parse_cmd` goes on with it.
-/

namespace Sigma16

open PyText Words Transition

inductive NullCall where
  | strtol
  | addHistory
  | strtok
  deriving DecidableEq

/-- What the libraries do with the null pointer, of which they promise nothing: `none` where
the process dies. `strtok` returns the tokens of whatever buffer it goes on with. -/
structure Libraries where
  strtol : Option Int
  addHistory : Option Unit
  strtok : Option (List Str)

/-- What was printed and which calls were given the null pointer on the way to a value,
`none` once one of them killed the process. -/
structure Attempt (Val : Type) where
  messages : List String
  nulls : List NullCall
  value : Option Val
  deriving DecidableEq

namespace Attempt

variable {Val Next : Type}

def bind (first : Attempt Val) (rest : Val → Attempt Next) : Attempt Next :=
  match first.value with
  | none => { first with value := none }
  | some val =>
      { messages := first.messages ++ (rest val).messages
        nulls := first.nulls ++ (rest val).nulls
        value := (rest val).value }

instance : Monad Attempt where
  pure val := ⟨[], [], some val⟩
  bind := Attempt.bind

def print (message : String) : Attempt Unit := ⟨[message], [], some ()⟩

def null (call : NullCall) (value : Option Val) : Attempt Val := ⟨[], [call], value⟩

end Attempt

inductive DebuggerCmdType where
  | restart
  | step
  | cont
  | trace
  | setBreakpoint
  | dumpCpu
  | dumpMem
  | writeReg
  | readReg
  | help
  | exit
  deriving DecidableEq

/-- `struct debugger_cmd` as it is laid out. `args` is empty for a null pointer, and has
`none` for an element that nothing was stored in. -/
structure RawCmd where
  cmd : DebuggerCmdType
  args : List (Option CInt)
  deriving DecidableEq

namespace DebuggerInput

/-! The functions of `debugger.c`, on the tokens left on the line. -/

def parseInt (libs : Libraries) : Option Str → Attempt CInt
  | some buf => pure (Sigma16.parseInt buf)
  | none => .null .strtol (libs.strtol.map (BitVec.ofInt 32))

def parseIntDefault (libs : Libraries) (buf : Option Str) (default : CInt) : Attempt CInt :=
  if buf.isNone then pure default else parseInt libs buf

def createArg (count : Nat) : List (Option CInt) := List.replicate count none

def createCmd (cmd : DebuggerCmdType) : RawCmd := ⟨cmd, []⟩

def createCmdStep (steps : CInt) : RawCmd := ⟨.step, (createArg 1).set 0 steps⟩

def createCmdWriteReg (reg val : CInt) : RawCmd :=
  ⟨.writeReg, ((createArg 2).set 0 reg).set 1 val⟩

def createCmdSetBreakpoint (addr : CInt) : RawCmd := ⟨.setBreakpoint, (createArg 1).set 0 addr⟩

/-- The second element is never stored in. -/
def createCmdReadReg (reg : CInt) : RawCmd := ⟨.readReg, (createArg 2).set 0 reg⟩

/-- Its caller passes the end first, whatever the parameters are called. -/
def createCmdDumpMem (start stop : CInt) : RawCmd :=
  ⟨.dumpMem, ((createArg 2).set 0 start).set 1 stop⟩

def parseCmdWriteReg (libs : Libraries) (tokens : List Str) : Attempt (Option RawCmd) := do
  if tokens[0]?.isNone then
    Attempt.print "specify register\n"
    return none
  let reg ← parseInt libs tokens[0]?
  if tokens[1]?.isNone then
    Attempt.print "specify value\n"
    return none
  let val ← parseInt libs tokens[1]?
  return some (createCmdWriteReg reg val)

def parseCmdReadReg (libs : Libraries) (tokens : List Str) : Attempt (Option RawCmd) := do
  if tokens[0]?.isNone then
    Attempt.print "specify register\n"
    return none
  let reg ← parseInt libs tokens[0]?
  return some (createCmdReadReg reg)

def parseCmdStep (libs : Libraries) (tokens : List Str) : Attempt (Option RawCmd) := do
  let steps ← parseIntDefault libs tokens[0]? 1
  return some (createCmdStep steps)

def parseCmdDumpMem (libs : Libraries) (tokens : List Str) : Attempt (Option RawCmd) := do
  let stop ← parseIntDefault libs tokens[0]? (0x200 >>> 1)
  let start ← parseIntDefault libs tokens[1]? 0
  return some (createCmdDumpMem stop start)

/-- There is no `return` after the message. -/
def parseCmdSetBreakpoint (libs : Libraries) (tokens : List Str) : Attempt (Option RawCmd) := do
  if tokens[0]?.isNone then Attempt.print "invalid breakpoint\n"
  let addr ← parseInt libs tokens[0]?
  return some (createCmdSetBreakpoint addr)

def readLine : List Str → Option Str × List Str
  | [] => (none, [])
  | buf :: lines => if buf.length ≠ 0 then (some buf, lines) else readLine lines

def addHistory (libs : Libraries) : Option Str → Attempt Unit
  | some _ => pure ()
  | none => .null .addHistory libs.addHistory

def strtok (libs : Libraries) : Option Str → Attempt (List Str)
  | some buf => pure (Sigma16.strtok buf)
  | none => .null .strtok libs.strtok

def parseTokens (libs : Libraries) : List Str → Attempt (Option RawCmd)
  | [] => pure none
  | token :: tokens =>
      if token = ['n'] then parseCmdStep libs tokens
      else if token = ['b'] then parseCmdSetBreakpoint libs tokens
      else if token = ['i'] then parseCmdWriteReg libs tokens
      else if token = ['o'] then parseCmdReadReg libs tokens
      else if token = ['t'] then pure (some (createCmd .trace))
      else if token = ['?'] then pure (some (createCmd .help))
      else if token = ['c'] then pure (some (createCmd .cont))
      else if token = ['d'] then pure (some (createCmd .dumpCpu))
      else if token = ['m'] then parseCmdDumpMem libs tokens
      else if token = ['e'] then pure (some (createCmd .exit))
      else pure none

def parseCmd (libs : Libraries) (lines : List Str) : Attempt (Option RawCmd) × List Str :=
  let (buf, rest) := readLine lines
  (do
    addHistory libs buf
    let tokens ← strtok libs buf
    parseTokens libs tokens, rest)

end DebuggerInput

namespace RawCmd

def arg (raw : RawCmd) (idx : Nat) : Option CInt := raw.args[idx]?.join

def decode (raw : RawCmd) : Option DebuggerCmd :=
  match raw.cmd with
  | .restart => none
  | .step => raw.arg 0 |>.map .step
  | .cont => some .cont
  | .trace => some .trace
  | .setBreakpoint => raw.arg 0 |>.map .setBreakpoint
  | .dumpCpu => some .dumpCpu
  | .dumpMem => do return .dumpMem (← raw.arg 0) (← raw.arg 1)
  | .writeReg => do return .writeReg (← raw.arg 0) (← raw.arg 1)
  | .readReg => raw.arg 0 |>.map .readReg
  | .help => some .help
  | .exit => some .exit

end RawCmd

structure Interaction where
  vm : Vm
  ctx : DebuggerCtx
  input : List Str
  nulls : List NullCall

inductive Ending where
  | resumed (cmd : DebuggerCmd)
  | left
  /-- A null pointer, or an argument that nothing was stored in. -/
  | died
  deriving DecidableEq

def interactiveAnswer (s : Interaction) (attempt : Attempt (Option RawCmd)) :
    Outcome Ending Interaction :=
  match attempt.value with
  | none =>
      .stopped .died { s with ctx := s.ctx.print [.text (String.join attempt.messages)] }
  | some none =>
      let shown := [.text (String.join attempt.messages), .text "invalid command\n"]
      .running { s with ctx := s.ctx.print shown }
  | some (some raw) =>
      match raw.decode with
      | none => .stopped .died s
      | some cmd =>
          match debuggerObey s.vm (s.ctx.print (attempt.messages.map .text)) cmd with
          | .resume vm ctx => .stopped (.resumed cmd) { s with vm, ctx }
          | .prompt vm ctx => .running { s with vm, ctx }
          | .left ctx => .stopped .left { s with ctx }

def interactiveStep (libs : Libraries) (s : Interaction) : Outcome Ending Interaction :=
  let (attempt, input) := DebuggerInput.parseCmd libs s.input
  interactiveAnswer { s with input, nulls := s.nulls ++ attempt.nulls } attempt

/-! What a command line asks for, read off the help text. -/

def commandLetters : List (Str × DebuggerCmdType) :=
  [(['?'], .help), (['n'], .step), (['i'], .writeReg), (['o'], .readReg), (['t'], .trace),
    (['c'], .cont), (['d'], .dumpCpu), (['m'], .dumpMem), (['b'], .setBreakpoint), (['e'], .exit)]

def commandOf (token : Str) : Option DebuggerCmdType := commandLetters.lookup token

namespace DebuggerCmdType

def required : DebuggerCmdType → Nat
  | writeReg => 2
  | setBreakpoint | readReg => 1
  | _ => 0

def reads : DebuggerCmdType → List Nat
  | dumpMem | writeReg => [0, 1]
  | step | setBreakpoint | readReg => [0]
  | _ => []

def default : DebuggerCmdType → Nat → Option CInt
  | step, 0 => some 1
  | dumpMem, 0 => some 256
  | dumpMem, 1 => some 0
  | _, _ => none

end DebuggerCmdType

def Understood (tokens : List Str) (cmd : DebuggerCmdType) : Prop :=
  ∃ token args, tokens = token :: args ∧ commandOf token = some cmd ∧ cmd.required ≤ args.length

def RawCmd.Supplied (raw : RawCmd) (args : List Str) (idx : Nat) : Prop :=
  ∃ val, raw.args[idx]? = some (some val) ∧
    (args[idx]?.map parseInt).or (raw.cmd.default idx) = some val

/-- `parse_cmd` passed no null pointer, and returned NULL for an unknown or incomplete command
or the command on the line with every argument its handler reads. -/
structure WellAnswered (attempt : Attempt (Option RawCmd)) (tokens : List Str) : Prop where
  noNull : attempt.nulls = []
  answer : match attempt.value with
    | none => False
    | some none => ∀ cmd, ¬ Understood tokens cmd
    | some (some raw) =>
        Understood tokens raw.cmd ∧ ∀ idx ∈ raw.cmd.reads, raw.Supplied tokens.tail idx

def Answerable (lines : List Str) : Prop :=
  ∃ buf, lines.find? (· ≠ []) = some buf ∧ strtok buf ≠ [['b']]

namespace DebuggerInput

section Calls

variable {libs : Libraries} {tokens args lines : List Str} {token : Str} {cmd : DebuggerCmdType}

def Parses (cmd : DebuggerCmdType) (args : List Str) (attempt : Attempt (Option RawCmd)) : Prop :=
  ∃ messages, (args.length < cmd.required ∧ attempt = ⟨messages, [], some none⟩) ∨
    ∃ raw, cmd.required ≤ args.length ∧ attempt = ⟨messages, [], some (some raw)⟩ ∧
      raw.cmd = cmd ∧ ∀ idx ∈ cmd.reads, raw.Supplied args idx

theorem parses_incomplete {messages : List String} (missing : args.length < cmd.required) :
    Parses cmd args ⟨messages, [], some none⟩ :=
  ⟨messages, .inl ⟨missing, rfl⟩⟩

theorem parses_complete {raw : RawCmd} (enough : cmd.required ≤ args.length) (same : raw.cmd = cmd)
    (supplied : ∀ idx ∈ cmd.reads, raw.Supplied args idx) :
    Parses cmd args (pure (some raw)) :=
  ⟨[], .inr ⟨raw, enough, rfl, same, supplied⟩⟩

theorem parses_bare (bare : cmd.required = 0) (none : cmd.reads = []) :
    Parses cmd args (pure (some (createCmd cmd))) := by
  refine parses_complete (by omega) rfl ?_
  rw [none]
  intro idx member
  cases member

theorem parseCmdStep_parses : Parses .step args (parseCmdStep libs args) := by
  cases args with
  | nil =>
      refine @parses_complete [] .step (createCmdStep 1) (Nat.le_refl 0) rfl ?_
      simpa [DebuggerCmdType.reads] using ⟨1, rfl, rfl⟩
  | cons steps rest =>
      refine @parses_complete (steps :: rest) .step (createCmdStep (Sigma16.parseInt steps))
        (Nat.zero_le _) rfl ?_
      simpa [DebuggerCmdType.reads] using ⟨Sigma16.parseInt steps, rfl, rfl⟩

theorem parseCmdReadReg_parses : Parses .readReg args (parseCmdReadReg libs args) := by
  cases args with
  | nil => exact parses_incomplete Nat.one_pos
  | cons reg rest =>
      refine @parses_complete (reg :: rest) .readReg (createCmdReadReg (Sigma16.parseInt reg))
        (Nat.le_add_left 1 _) rfl ?_
      simpa [DebuggerCmdType.reads] using ⟨Sigma16.parseInt reg, rfl, rfl⟩

theorem parseCmdWriteReg_parses : Parses .writeReg args (parseCmdWriteReg libs args) := by
  match args with
  | [] => exact parses_incomplete Nat.two_pos
  | [reg] => exact parses_incomplete Nat.one_lt_two
  | reg :: val :: rest =>
      refine @parses_complete (reg :: val :: rest) .writeReg
        (createCmdWriteReg (Sigma16.parseInt reg) (Sigma16.parseInt val))
        (Nat.le_add_left 2 _) rfl ?_
      simpa [DebuggerCmdType.reads] using
        ⟨⟨Sigma16.parseInt reg, rfl, rfl⟩, ⟨Sigma16.parseInt val, rfl, rfl⟩⟩

theorem parseCmdDumpMem_parses : Parses .dumpMem args (parseCmdDumpMem libs args) := by
  match args with
  | [] =>
      refine @parses_complete [] .dumpMem (createCmdDumpMem 256 0) (Nat.le_refl 0) rfl ?_
      simpa [DebuggerCmdType.reads] using ⟨⟨256, rfl, rfl⟩, ⟨0, rfl, rfl⟩⟩
  | [stop] =>
      refine @parses_complete [stop] .dumpMem (createCmdDumpMem (Sigma16.parseInt stop) 0)
        (Nat.zero_le 1) rfl ?_
      simpa [DebuggerCmdType.reads] using ⟨⟨Sigma16.parseInt stop, rfl, rfl⟩, ⟨0, rfl, rfl⟩⟩
  | stop :: start :: rest =>
      refine @parses_complete (stop :: start :: rest) .dumpMem
        (createCmdDumpMem (Sigma16.parseInt stop) (Sigma16.parseInt start)) (Nat.zero_le _) rfl ?_
      simpa [DebuggerCmdType.reads] using
        ⟨⟨Sigma16.parseInt stop, rfl, rfl⟩, ⟨Sigma16.parseInt start, rfl, rfl⟩⟩

theorem parseCmdSetBreakpoint_parses (present : args ≠ []) :
    Parses .setBreakpoint args (parseCmdSetBreakpoint libs args) := by
  cases args with
  | nil => exact absurd rfl present
  | cons addr rest =>
      refine @parses_complete (addr :: rest) .setBreakpoint
        (createCmdSetBreakpoint (Sigma16.parseInt addr)) (Nat.le_add_left 1 _) rfl ?_
      simpa [DebuggerCmdType.reads] using ⟨Sigma16.parseInt addr, rfl, rfl⟩

theorem parseCmdSetBreakpoint_missing :
    (parseCmdSetBreakpoint libs []).nulls = [.strtol] := by
  cases strtol : libs.strtol <;>
    simp [parseCmdSetBreakpoint, parseInt, Attempt.null, Bind.bind, Attempt.bind, Attempt.print,
      strtol, pure]

theorem Parses.wellAnswered {attempt : Attempt (Option RawCmd)} (known : commandOf token = some cmd)
    (parses : Parses cmd args attempt) : WellAnswered attempt (token :: args) := by
  obtain ⟨messages, ⟨missing, rfl⟩ | ⟨raw, enough, rfl, rfl, supplied⟩⟩ := parses
  · refine ⟨rfl, ?_⟩
    rintro other ⟨first, rest, same, meant, enough⟩
    obtain ⟨rfl, rfl⟩ := List.cons.inj same
    obtain rfl := Option.some.inj (meant.symm.trans known)
    omega
  · exact ⟨rfl, ⟨token, args, rfl, known, enough⟩, supplied⟩

theorem wellAnswered_unknown (unknown : commandOf token = none) :
    WellAnswered (pure none) (token :: args) := by
  refine ⟨rfl, ?_⟩
  rintro cmd ⟨first, rest, same, meant, _⟩
  obtain ⟨rfl, rfl⟩ := List.cons.inj same
  rw [unknown] at meant
  cases meant

theorem parseTokens_missing : (parseTokens libs [['b']]).nulls = [.strtol] :=
  parseCmdSetBreakpoint_missing

theorem parseTokens_answered (whole : tokens ≠ [['b']]) :
    WellAnswered (parseTokens libs tokens) tokens := by
  cases tokens with
  | nil =>
      refine ⟨rfl, ?_⟩
      rintro cmd ⟨token, args, same, _⟩
      cases same
  | cons token args =>
      by_cases step : token = ['n']
      · subst step
        exact Parses.wellAnswered rfl parseCmdStep_parses
      by_cases breakpoint : token = ['b']
      · subst breakpoint
        refine Parses.wellAnswered rfl (parseCmdSetBreakpoint_parses ?_)
        rintro rfl
        exact whole rfl
      by_cases write : token = ['i']
      · subst write
        exact Parses.wellAnswered rfl parseCmdWriteReg_parses
      by_cases read : token = ['o']
      · subst read
        exact Parses.wellAnswered rfl parseCmdReadReg_parses
      by_cases trace : token = ['t']
      · subst trace
        exact Parses.wellAnswered rfl (parses_bare rfl rfl)
      by_cases help : token = ['?']
      · subst help
        exact Parses.wellAnswered rfl (parses_bare rfl rfl)
      by_cases resume : token = ['c']
      · subst resume
        exact Parses.wellAnswered rfl (parses_bare rfl rfl)
      by_cases cpu : token = ['d']
      · subst cpu
        exact Parses.wellAnswered rfl (parses_bare rfl rfl)
      by_cases memory : token = ['m']
      · subst memory
        exact Parses.wellAnswered rfl parseCmdDumpMem_parses
      by_cases exit : token = ['e']
      · subst exit
        exact Parses.wellAnswered rfl (parses_bare rfl rfl)
      have unknown : commandOf token = none := by
        simp [commandOf, commandLetters, List.lookup_eq_none_iff, step, breakpoint, write, read,
          trace, help, resume, cpu, memory, exit]
      rw [parseTokens, if_neg step, if_neg breakpoint, if_neg write, if_neg read, if_neg trace,
        if_neg help, if_neg resume, if_neg cpu, if_neg memory, if_neg exit]
      exact wellAnswered_unknown unknown

theorem readLine_fst : (readLine lines).1 = lines.find? (· ≠ []) := by
  fun_induction readLine lines with
  | case1 => rfl
  | case2 buf lines solid =>
      rw [List.find?_cons_of_pos]
      simpa using solid
  | case3 buf lines empty ih =>
      rw [ih, List.find?_cons_of_neg]
      simpa using empty

theorem readLine_shorter {buf : Str} (found : (readLine lines).1 = some buf) :
    (readLine lines).2.length < lines.length := by
  fun_induction readLine lines with
  | case1 => cases found
  | case2 buf lines solid => exact Nat.lt_succ_self lines.length
  | case3 buf lines empty ih => exact Nat.lt_succ_of_lt (ih found)

theorem parseCmd_read {buf : Str} (found : lines.find? (· ≠ []) = some buf) :
    (parseCmd libs lines).1 = parseTokens libs (Sigma16.strtok buf) := by
  rw [← readLine_fst] at found
  simp only [parseCmd, found]
  rfl

theorem parseCmd_exhausted (exhausted : lines.find? (· ≠ []) = none) :
    .addHistory ∈ (parseCmd libs lines).1.nulls := by
  rw [← readLine_fst] at exhausted
  simp only [parseCmd, exhausted, addHistory]
  cases libs.addHistory with
  | none => exact List.mem_singleton_self _
  | some val => exact List.mem_append_left _ (List.mem_singleton_self _)

def tokensRead (lines : List Str) : List Str := (lines.find? (· ≠ [])).elim [] Sigma16.strtok

theorem parseCmd_answered (answerable : Answerable lines) :
    WellAnswered (parseCmd libs lines).1 (tokensRead lines) := by
  obtain ⟨buf, found, whole⟩ := answerable
  rw [parseCmd_read found, tokensRead, found]
  exact parseTokens_answered whole

theorem answerable_of_noNull (noNull : (parseCmd libs lines).1.nulls = []) : Answerable lines := by
  cases found : lines.find? (· ≠ []) with
  | none =>
      have passed := @parseCmd_exhausted libs lines found
      rw [noNull] at passed
      cases passed
  | some buf =>
      refine ⟨buf, found, fun lone => ?_⟩
      rw [parseCmd_read found, lone, parseTokens_missing] at noNull
      cases noNull

theorem parseCmd_shorter (answerable : Answerable lines) :
    (parseCmd libs lines).2.length < lines.length := by
  obtain ⟨buf, found, _⟩ := answerable
  exact readLine_shorter (readLine_fst.trans found)

end Calls

end DebuggerInput

section Lines

def DebuggerCmd.raw : DebuggerCmd → RawCmd
  | step steps => DebuggerInput.createCmdStep steps
  | cont => DebuggerInput.createCmd .cont
  | trace => DebuggerInput.createCmd .trace
  | setBreakpoint addr => DebuggerInput.createCmdSetBreakpoint addr
  | dumpCpu => DebuggerInput.createCmd .dumpCpu
  | dumpMem stop start => DebuggerInput.createCmdDumpMem stop start
  | writeReg reg val => DebuggerInput.createCmdWriteReg reg val
  | readReg reg => DebuggerInput.createCmdReadReg reg
  | help => DebuggerInput.createCmd .help
  | exit => DebuggerInput.createCmd .exit

theorem decode_raw (cmd : DebuggerCmd) : cmd.raw.decode = some cmd := by
  cases cmd <;> rfl

def ParsedCmd.attempt (libs : Libraries) : ParsedCmd → Attempt (Option RawCmd)
  | .cmd parsed => pure (some parsed.raw)
  | .null message => ⟨if message.isEmpty then [] else [message], [], some none⟩
  | .crash message => do
      Attempt.print message
      let addr ← DebuggerInput.parseInt libs none
      return some (DebuggerInput.createCmdSetBreakpoint addr)

namespace DebuggerInput

variable (libs : Libraries) (args : List Str)

theorem parseCmdStep_attempt :
    parseCmdStep libs args = (Sigma16.parseCmdStep args).attempt libs := by
  cases args <;> rfl

theorem parseCmdSetBreakpoint_attempt :
    parseCmdSetBreakpoint libs args = (Sigma16.parseCmdSetBreakpoint args).attempt libs := by
  cases args <;> rfl

theorem parseCmdReadReg_attempt :
    parseCmdReadReg libs args = (Sigma16.parseCmdReadReg args).attempt libs := by
  cases args <;> rfl

theorem parseCmdWriteReg_attempt :
    parseCmdWriteReg libs args = (Sigma16.parseCmdWriteReg args).attempt libs := by
  match args with
  | [] => rfl
  | [reg] => rfl
  | reg :: val :: rest => rfl

theorem parseCmdDumpMem_attempt :
    parseCmdDumpMem libs args = (Sigma16.parseCmdDumpMem args).attempt libs := by
  match args with
  | [] => rfl
  | [stop] => rfl
  | stop :: start :: rest => rfl

theorem parseTokens_attempt (buf : Str) :
    parseTokens libs (Sigma16.strtok buf) = (Sigma16.parseCmd buf).attempt libs := by
  unfold Sigma16.parseCmd
  cases Sigma16.strtok buf with
  | nil => rfl
  | cons token args =>
      simp only [parseTokens, apply_ite (ParsedCmd.attempt libs), parseCmdStep_attempt,
        parseCmdSetBreakpoint_attempt, parseCmdReadReg_attempt, parseCmdWriteReg_attempt,
        parseCmdDumpMem_attempt]
      rfl

end DebuggerInput

end Lines

section Interactive

open DebuggerInput

variable {libs : Libraries} {first s last : Interaction}

theorem interactiveAnswer_state (attempt : Attempt (Option RawCmd)) :
    (interactiveAnswer s attempt).state.nulls = s.nulls ∧
      (interactiveAnswer s attempt).state.input = s.input := by
  unfold interactiveAnswer
  split
  · exact ⟨rfl, rfl⟩
  · exact ⟨rfl, rfl⟩
  · split
    · exact ⟨rfl, rfl⟩
    · split <;> exact ⟨rfl, rfl⟩

theorem interactiveStep_nulls : (interactiveStep libs s).state.nulls =
    s.nulls ++ (DebuggerInput.parseCmd libs s.input).1.nulls :=
  (interactiveAnswer_state _).1

theorem interactiveStep_input :
    (interactiveStep libs s).state.input = (DebuggerInput.parseCmd libs s.input).2 :=
  (interactiveAnswer_state _).2

theorem commandOf_ne_restart (token : Str) : commandOf token ≠ some .restart := by
  intro known
  have listed := mem_of_lookup known
  simp [commandLetters] at listed

theorem RawCmd.Supplied.arg {raw : RawCmd} {args : List Str} {idx : Nat}
    (supplied : raw.Supplied args idx) : ∃ val, raw.arg idx = some val := by
  obtain ⟨val, stored, _⟩ := supplied
  exact ⟨val, by rw [RawCmd.arg, stored, Option.join_some]⟩

theorem decode_of_supplied {raw : RawCmd} {tokens args : List Str}
    (understood : Understood tokens raw.cmd)
    (supplied : ∀ idx ∈ raw.cmd.reads, raw.Supplied args idx) : ∃ cmd, raw.decode = some cmd := by
  have arg : ∀ idx ∈ raw.cmd.reads, ∃ val, raw.arg idx = some val :=
    fun idx member => (supplied idx member).arg
  unfold RawCmd.decode
  cases same : raw.cmd with
  | restart =>
      obtain ⟨token, _, _, known, _⟩ := understood
      exact absurd (known.trans (congrArg some same)) (commandOf_ne_restart token)
  | step | setBreakpoint | readReg =>
      obtain ⟨val, stored⟩ := arg 0 (by simp [same, DebuggerCmdType.reads])
      exact ⟨_, by rw [stored]; rfl⟩
  | dumpMem | writeReg =>
      obtain ⟨fst, storedFst⟩ := arg 0 (by simp [same, DebuggerCmdType.reads])
      obtain ⟨snd, storedSnd⟩ := arg 1 (by simp [same, DebuggerCmdType.reads])
      exact ⟨_, by rw [storedFst, storedSnd]; rfl⟩
  | cont | trace | dumpCpu | help | exit => exact ⟨_, rfl⟩

theorem interactiveAnswer_alive {attempt : Attempt (Option RawCmd)} {tokens : List Str}
    (answered : WellAnswered attempt tokens) : interactiveAnswer s attempt ≠ .stopped .died last := by
  have answer := answered.answer
  unfold interactiveAnswer
  cases value : attempt.value with
  | none =>
      rw [value] at answer
      exact answer.elim
  | some result =>
      cases result with
      | none => exact fun impossible => by cases impossible
      | some raw =>
          rw [value] at answer
          obtain ⟨cmd, decoded⟩ := decode_of_supplied answer.1 answer.2
          simp only [decoded]
          split <;> exact fun impossible => by cases impossible

def EndsCleanly (libs : Libraries) (first : Interaction) : Prop :=
  ∃ count ending last, iterate (interactiveStep libs) count first = .stopped ending last ∧
    ending ≠ .died ∧ last.nulls = first.nulls

theorem endsCleanly_of_answerable
    (answerable : ∀ s, Reaches (interactiveStep libs) first s → Answerable s.input) :
    EndsCleanly libs first := by
  have stops : Stops (interactiveStep libs)
      (fun s => Reaches (interactiveStep libs) first s ∧ s.nulls = first.nulls)
      (fun ending last => ending ≠ .died ∧ last.nulls = first.nulls) := by
    refine .of_measure (fun s => s.input.length) ?_
    rintro s ⟨reached, kept⟩
    have clean := @parseCmd_answered libs _ (answerable s reached)
    have nulls : (interactiveStep libs s).state.nulls = first.nulls := by
      rw [interactiveStep_nulls, clean.noNull, List.append_nil, kept]
    have input := @interactiveStep_input libs s
    cases taken : interactiveStep libs s with
    | running next =>
        rw [taken] at nulls input
        refine .inl ⟨next, rfl, ⟨reached.next taken, nulls⟩, ?_⟩
        have shorter := @parseCmd_shorter libs _ (answerable s reached)
        rw [← input] at shorter
        exact shorter
    | stopped ending last =>
        rw [taken] at nulls
        refine .inr ⟨ending, last, rfl, ?_, nulls⟩
        rintro rfl
        exact interactiveAnswer_alive clean taken
  obtain ⟨count, ending, last, run, ends⟩ := stops first ⟨.refl first, rfl⟩
  exact ⟨count, ending, last, run, ends⟩

theorem iterate_nulls (count : Nat) (s : Interaction) :
    s.nulls <+: (iterate (interactiveStep libs) count s).state.nulls := by
  induction count generalizing s with
  | zero => exact List.prefix_refl s.nulls
  | succ count ih =>
      have step : s.nulls <+: (interactiveStep libs s).state.nulls := by
        rw [interactiveStep_nulls]
        exact List.prefix_append _ _
      rw [iterate]
      cases taken : interactiveStep libs s with
      | running next =>
          rw [taken] at step
          exact step.trans (ih next)
      | stopped ending last =>
          rw [taken] at step
          exact step

theorem answerable_of_endsCleanly (clean : EndsCleanly libs first)
    (reached : Reaches (interactiveStep libs) first s) : Answerable s.input := by
  obtain ⟨count, ending, last, run, _, kept⟩ := clean
  obtain ⟨before, steps⟩ := reaches_iff_iterate.mp reached
  obtain ⟨more, after⟩ := reached.ends run
  have earlier := @iterate_nulls libs before first
  rw [steps] at earlier
  -- the turn at `s` already holds all the null calls of the run
  have later : (interactiveStep libs s).state.nulls <+: last.nulls := by
    rw [iterate] at after
    cases taken : interactiveStep libs s with
    | running next =>
        rw [taken, Outcome.bind_running] at after
        have rest := @iterate_nulls libs more next
        rw [after] at rest
        exact rest
    | stopped reason final =>
        rw [taken] at after
        cases after
        exact List.prefix_refl _
  rw [interactiveStep_nulls] at later
  have bound := later.length_le
  have start := earlier.length_le
  rw [List.length_append, kept] at bound
  refine @answerable_of_noNull libs _ (List.eq_nil_of_length_eq_zero ?_)
  simp only [Outcome.state_running] at start
  omega

theorem interactiveStep_line {vm : Vm} {ctx : DebuggerCtx} {buf : Str} {input : List Str}
    {nulls : List NullCall} (solid : buf ≠ []) :
    interactiveStep libs ⟨vm, ctx, buf :: input, nulls⟩ =
      interactiveAnswer
        ⟨vm, ctx, input, nulls ++ ((Sigma16.parseCmd buf).attempt libs).nulls⟩
        ((Sigma16.parseCmd buf).attempt libs) := by
  have read : readLine (buf :: input) = (some buf, input) := if_pos (by simpa using solid)
  have parsed : DebuggerInput.parseCmd libs (buf :: input) =
      ((Sigma16.parseCmd buf).attempt libs, input) := by
    rw [← parseTokens_attempt, DebuggerInput.parseCmd, read]
    rfl
  rw [interactiveStep, parsed]

theorem interactiveAnswer_null (message : String) :
    interactiveAnswer s ((ParsedCmd.null message).attempt libs) =
      .running { s with ctx := s.ctx.print [.text message, .text "invalid command\n"] } := by
  have joined : String.join (if message.isEmpty then [] else [message]) = message := by
    split
    · rename_i empty
      exact (String.isEmpty_iff.mp empty).symm
    · simp [String.join]
  simp only [ParsedCmd.attempt, interactiveAnswer, joined]

theorem interactiveAnswer_cmd (cmd : DebuggerCmd) :
    interactiveAnswer s ((ParsedCmd.cmd cmd).attempt libs) =
      match debuggerObey s.vm s.ctx cmd with
      | .resume vm ctx => .stopped (.resumed cmd) { s with vm, ctx }
      | .prompt vm ctx => .running { s with vm, ctx }
      | .left ctx => .stopped .left { s with ctx } := by
  have silent : s.ctx.print (([] : List String).map .text) = s.ctx := by
    simp [DebuggerCtx.print]
  simp only [ParsedCmd.attempt, interactiveAnswer, pure, decode_raw, silent]

theorem interactive_resumes {vm : Vm} {ctx : DebuggerCtx} {input : List Str} {cmd : DebuggerCmd}
    (nulls : List NullCall) (resumes : (debuggerInteractive vm ctx input).answer = some cmd) :
    ∃ count, iterate (interactiveStep libs) count ⟨vm, ctx, input, nulls⟩ =
      .stopped (.resumed cmd) ⟨(debuggerInteractive vm ctx input).vm,
        (debuggerInteractive vm ctx input).ctx, (debuggerInteractive vm ctx input).input, nulls⟩ := by
  fun_induction debuggerInteractive vm ctx input with
  | case1 => cases resumes
  | case2 vm ctx input ih =>
      obtain ⟨count, run⟩ := ih resumes
      cases count with
      | zero => cases run
      | succ count => exact ⟨count + 1, run⟩
  | case3 vm ctx buf input solid message parsed ih =>
      obtain ⟨count, run⟩ := ih resumes
      refine ⟨count + 1, ?_⟩
      rw [iterate, interactiveStep_line solid, parsed, interactiveAnswer_null]
      simp only [ParsedCmd.attempt, List.append_nil, Outcome.bind_running]
      exact run
  | case4 => cases resumes
  | case5 vm ctx buf input solid cmd parsed after next obeyed =>
      refine ⟨1, ?_⟩
      obtain rfl := Option.some.inj resumes
      rw [iterate, interactiveStep_line solid, parsed, interactiveAnswer_cmd]
      simp only [obeyed, ParsedCmd.attempt, pure, List.append_nil, Outcome.bind_stopped]
  | case6 vm ctx buf input solid cmd parsed after next obeyed rest ih =>
      obtain ⟨count, run⟩ := ih resumes
      refine ⟨count + 1, ?_⟩
      rw [iterate, interactiveStep_line solid, parsed, interactiveAnswer_cmd]
      simp only [obeyed, ParsedCmd.attempt, pure, List.append_nil, Outcome.bind_running]
      exact run
  | case7 => cases resumes

theorem interactive_exhausted {vm : Vm} {ctx : DebuggerCtx} {nulls : List NullCall}
    (addHistory : libs.addHistory = some ()) (strtok : libs.strtok = some []) (count : Nat) :
    ∃ last, iterate (interactiveStep libs) count ⟨vm, ctx, [], nulls⟩ = .running last := by
  refine @iterate_forever _ _ _ (fun s => s.input = []) ?_ count _ rfl
  rintro ⟨vm, ctx, input, nulls⟩ rfl
  have parsed : DebuggerInput.parseCmd libs [] = (⟨[], [.addHistory, .strtok], some none⟩, []) := by
    simp only [DebuggerInput.parseCmd, readLine, DebuggerInput.addHistory, DebuggerInput.strtok,
      addHistory, strtok]
    rfl
  rw [interactiveStep, parsed]
  exact ⟨_, rfl, rfl⟩

end Interactive

/-- A call of `parse_cmd` is answered well exactly when the next line that is not empty is not
a lone `b`, and there is one. `debugger_interactive` ends without a null pointer exactly when
that is so at each of its calls. -/
theorem prompt_guarded (libs : Libraries) :
    (∀ lines, WellAnswered (DebuggerInput.parseCmd libs lines).1 (DebuggerInput.tokensRead lines) ↔
      Answerable lines) ∧
    ∀ first, EndsCleanly libs first ↔
      ∀ s, Reaches (interactiveStep libs) first s → Answerable s.input := by
  refine ⟨fun lines => ⟨fun answered => ?_, DebuggerInput.parseCmd_answered⟩, fun first => ?_⟩
  · exact DebuggerInput.answerable_of_noNull answered.noNull
  · exact ⟨fun clean s reached => answerable_of_endsCleanly clean reached, endsCleanly_of_answerable⟩

/-- A lone `b` gives `strtol` the null pointer. The end of the input gives it to `add_history`,
and where the libraries let it pass `debugger_interactive` never stops. -/
theorem prompt_guarded_fails :
    (∀ libs, (DebuggerInput.parseCmd libs [['b']]).1.nulls = [.strtol]) ∧
    (∀ libs, .addHistory ∈ (DebuggerInput.parseCmd libs []).1.nulls) ∧
    ∀ vm ctx count, ∃ last, iterate (interactiveStep ⟨none, some (), some []⟩) count
      ⟨vm, ctx, [], []⟩ = .running last := by
  refine ⟨fun libs => ?_, fun libs => DebuggerInput.parseCmd_exhausted rfl, ?_⟩
  · have lone : strtok ['b'] = [['b']] := by decide +kernel
    rw [@DebuggerInput.parseCmd_read libs [['b']] ['b'] rfl, lone]
    exact DebuggerInput.parseTokens_missing
  · exact fun vm ctx count => interactive_exhausted rfl rfl count

end Sigma16

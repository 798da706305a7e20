import Sigma16.DebuggerPrompts

/-!
Stepping, continuing and stopping at breakpoints over whole debugging sessions: what
`n`, `c` and `b` do, and where the one counter and the three tests of `yield_debugger`
get in each other's way.
-/

namespace Sigma16

open PyText Words Transition Fallible

section Log

variable {p : Prompt} {log : List Prompt}

theorem getLast?_or_next (member : p ∈ log) : p ∈ log.getLast? ∨ ∃ q, [p, q] <:+: log := by
  obtain ⟨before, after, rfl⟩ := List.append_of_mem member
  cases after with
  | nil => exact .inl (by simp)
  | cons q rest => exact .inr ⟨q, before, rest, by simp⟩

theorem head?_or_previous (member : p ∈ log) : p ∈ log.head? ∨ ∃ q, [q, p] <:+: log := by
  obtain ⟨before, after, rfl⟩ := List.append_of_mem member
  rcases List.eq_nil_or_concat before with rfl | ⟨rest, q, rfl⟩
  · exact .inl rfl
  · exact .inr ⟨q, rest, after, by simp⟩

theorem last_head_of_adjacent {q : Prompt} {new : List Prompt} (adjacent : [p, q] <:+: log ++ new)
    (fresh : p ∉ new) (past : q ∉ log) : p ∈ log.getLast? ∧ q ∈ new.head? := by
  rcases List.infix_append_iff.mp adjacent with early | late | ⟨front, back, pair, ends, starts⟩
  · exact absurd (early.subset (by simp)) past
  · exact absurd (late.subset (by simp)) fresh
  · rcases List.append_eq_cons_iff.mp pair.symm with ⟨rfl, rfl⟩ | ⟨rest, rfl, only⟩
    · exact absurd (starts.subset (by simp)) fresh
    · rcases List.append_eq_cons_iff.mp only.symm with ⟨rfl, rfl⟩ | ⟨none, rfl, nothing⟩
      · exact ⟨List.singleton_suffix_iff_getLast?_eq_some.mp ends,
          List.singleton_prefix_iff_head?_eq_some.mp starts⟩
      · exact absurd (ends.subset (by simp)) past

end Log

namespace Session

variable {s : Session} {p q : Prompt}

theorem History.follows (history : s.History) (adjacent : [p, q] <:+: s.log) :
    p.Follows q ∧ p.Numbered ∧ q.Numbered := by
  have members := adjacent.subset
  have pair := List.IsChain.infix history.chain adjacent
  exact ⟨List.isChain_pair.mp pair,
    history.numbered p (members (by simp)), history.numbered q (members (by simp))⟩

end Session

/-! What one call of the handler adds to the log. -/

namespace Session

variable {event : TraceEvent} {vm : Vm} {s : Session}

structure Extends (event : TraceEvent) (s next : Session) : Prop where
  calls : next.calls = s.calls
  log : ∃ new, next.log = s.log ++ new ∧ ∀ p ∈ new, p.event = event ∧ p.call = s.calls

theorem Extends.refl (event : TraceEvent) (s : Session) : Extends event s s :=
  ⟨rfl, [], by simp, by simp⟩

theorem Extends.trans {first second third : Session} (before : Extends event first second)
    (after : Extends event second third) : Extends event first third := by
  obtain ⟨new, grown, ofCall⟩ := before.log
  obtain ⟨more, later, ofCallToo⟩ := after.log
  refine ⟨after.calls.trans before.calls, new ++ more, by rw [later, grown, List.append_assoc], ?_⟩
  intro p member
  rcases List.mem_append.mp member with early | late
  · exact ofCall p early
  · obtain ⟨ofEvent, call⟩ := ofCallToo p late
    exact ⟨ofEvent, call.trans before.calls⟩

theorem pause_extends (cause : Option Cause) : Extends event s (s.pause cause event vm).2 := by
  cases cause with
  | none => exact .refl event s
  | some cause =>
      obtain ⟨q, raises, _⟩ := prompt_raises cause event vm s
      exact ⟨raises.calls, [q], raises.log, by simpa using ⟨raises.event, raises.call⟩⟩

theorem leave_extends : Extends event s (s.leave event) := by
  unfold leave
  split
  · exact ⟨rfl, [], by simp, by simp⟩
  · exact .refl event s

theorem andThen_extends {result : Option Vm × Session}
    {next : Vm → Session → Option Vm × Session} (first : Extends event s result.2)
    (second : ∀ vm s, Extends event s (next vm s).2) : Extends event s (andThen result next).2 := by
  obtain ⟨returned, middle⟩ := result
  cases returned with
  | none => exact first
  | some vm => exact first.trans (second vm middle)

def breakpointStage (event : TraceEvent) (vm : Vm) (s : Session) : Option Vm × Session :=
  andThen (s.pause (s.breakpointCause vm) event vm) fun vm s => (some vm, s.leave event)

theorem breakpointStage_extends : Extends event s (breakpointStage event vm s).2 :=
  andThen_extends (pause_extends _) fun _ _ => leave_extends

theorem yieldDebugger_extends :
    Extends event (s.arrive event vm) (yieldDebugger event vm s).2 := by
  refine andThen_extends (pause_extends _) fun vm s => ?_
  exact andThen_extends (pause_extends _) fun vm s => breakpointStage_extends

@[simp] theorem leave_log : (s.leave event).log = s.log := by
  unfold leave
  split <;> rfl

theorem andThen_log {result : Option Vm × Session} {next : Vm → Session → Option Vm × Session}
    (kept : ∀ vm s, (next vm s).2.log = s.log) : (andThen result next).2.log = result.2.log := by
  obtain ⟨returned, s⟩ := result
  cases returned with
  | none => rfl
  | some vm => exact kept vm s

theorem breakpointStage_log (event : TraceEvent) (vm : Vm) (s : Session) :
    (s.ctx.breaksAt vm.cpu.pc ∧ ∃ q, q.event = event ∧ q.executed = s.executed ∧
      (breakpointStage event vm s).2.log = s.log ++ [q]) ∨
    ¬ s.ctx.breaksAt vm.cpu.pc ∧ (breakpointStage event vm s).2.log = s.log := by
  rw [← breakpointCause_isSome, breakpointStage, andThen_log fun _ _ => leave_log]
  cases s.breakpointCause vm with
  | none => exact .inr ⟨nofun, rfl⟩
  | some cause =>
      obtain ⟨q, raises, _⟩ := prompt_raises cause event vm s
      exact .inl ⟨rfl, q, raises.event, raises.executed, raises.log⟩

theorem yieldDebugger_announces (inst : event.cause = none) (breaks : s.ctx.breaksAt vm.cpu.pc) :
    ∃ p rest, (yieldDebugger event vm s).2.log = s.log ++ p :: rest ∧
      (∀ q ∈ p :: rest, q.event = event ∧ q.executed = s.executed) ∧
      (rest ≠ [] → p.cause = .counter ∧ p.answer.isSome ∧ p.Armed) := by
  simp only [yieldDebugger, inst, pause_none]
  by_cases zero : (s.arrive event vm).ctx.nSteps = 0
  · rw [counterCause, if_pos zero, pause_some]
    obtain ⟨p, raises, ⟨left, _⟩ | ⟨after, returned, pc, answered, _, armed⟩⟩ :=
      prompt_raises .counter event vm (s.arrive event vm)
    · rw [← Prod.eta ((s.arrive event vm).prompt .counter event vm), left]
      exact ⟨p, [], raises.log, by simpa using ⟨raises.event, raises.executed⟩, by simp⟩
    · rw [← Prod.eta ((s.arrive event vm).prompt .counter event vm), returned]
      rw [← pc] at armed
      rcases breakpointStage_log event after ((s.arrive event vm).prompt .counter event vm).2 with
        ⟨again, q, ofEvent, executed, log⟩ | ⟨_, log⟩
      · refine ⟨p, [q], ?_, ?_, fun _ => ⟨raises.cause, answered, armed.mp again⟩⟩
        · refine log.trans ?_
          rw [raises.log, List.append_assoc]
          rfl
        · intro other member
          rcases List.mem_pair.mp member with rfl | rfl
          · exact ⟨raises.event, raises.executed⟩
          · exact ⟨ofEvent, executed.trans raises.total⟩
      · exact ⟨p, [], log.trans raises.log, by simpa using ⟨raises.event, raises.executed⟩, by simp⟩
  · rw [counterCause, if_neg zero]
    rcases breakpointStage_log event vm (s.arrive event vm) with
      ⟨_, q, ofEvent, executed, log⟩ | ⟨free, _⟩
    · exact ⟨q, [], log, by simpa using ⟨ofEvent, executed⟩, by simp⟩
    · exact absurd ((arrive_breaksAt event vm s vm.cpu.pc).mpr breaks) free

theorem yieldDebugger_unannounced (inst : event.cause = none)
    (free : ¬ s.ctx.breaksAt vm.cpu.pc) : (yieldDebugger event vm s).2.log = s.log ∨
      ∃ p rest, (yieldDebugger event vm s).2.log = s.log ++ p :: rest ∧ p.cause = .counter := by
  simp only [yieldDebugger, inst, pause_none]
  by_cases zero : (s.arrive event vm).ctx.nSteps = 0
  · rw [counterCause, if_pos zero, pause_some]
    obtain ⟨p, raises, _⟩ := prompt_raises .counter event vm (s.arrive event vm)
    have later : Extends event ((s.arrive event vm).prompt .counter event vm).2
        (andThen ((s.arrive event vm).prompt .counter event vm) (breakpointStage event)).2 :=
      andThen_extends (.refl event _) fun _ _ => breakpointStage_extends
    obtain ⟨more, log, _⟩ := later.log
    refine .inr ⟨p, more, ?_, raises.cause⟩
    rw [raises.log, List.append_assoc] at log
    exact log
  · rw [counterCause, if_neg zero]
    rcases breakpointStage_log event vm (s.arrive event vm) with ⟨breaks, _⟩ | ⟨_, log⟩
    · exact absurd ((arrive_breaksAt event vm s vm.cpu.pc).mp breaks) free
    · exact .inl log

end Session

/-! The log of a whole run. -/

section Runs

variable {executable : List Byte} {input : List Str} {m next : Machine Session} {p q : Prompt}

theorem vmStep_log {decoded seen : Vm} {label : Label} (leads : Dispatches m.vm decoded label)
    (valid : label ≠ .doBadOp) (entered : label.enter decoded = .ok seen) :
    ∃ ends, (vmStep yieldDebugger m).state.ctx.log =
      (yieldDebugger label.event seen m.ctx).2.log ++ ends ∧
        ∀ q ∈ ends, q.event = .execEnd ∧ q.call = m.ctx.calls + 2 := by
  rcases @vmStep_ctx _ yieldDebugger m label decoded _ leads valid entered with
    same | ⟨after, _, ended⟩
  · exact ⟨[], by rw [same, List.append_nil], by simp⟩
  · have inst := @Session.yieldDebugger_extends label.event seen m.ctx
    have finish := @Session.yieldDebugger_extends .execEnd after
      (yieldDebugger label.event seen m.ctx).2
    obtain ⟨ends, grown, ofCall⟩ := finish.log
    refine ⟨ends, by rw [ended, grown]; rfl, ?_⟩
    intro q member
    obtain ⟨ofEvent, call⟩ := ofCall q member
    refine ⟨ofEvent, call.trans ?_⟩
    exact congrArg (· + 1) inst.calls

structure Adds (m : Machine Session) (inst ends : List Prompt) : Prop where
  log : (vmStep yieldDebugger m).state.ctx.log = m.ctx.log ++ (inst ++ ends)
  ofInst : ∀ q ∈ inst, q.call = m.ctx.calls + 1
  ofEnd : ∀ q ∈ ends, q.call = m.ctx.calls + 2
  announced : m.ctx.ctx.breaksAt m.vm.cpu.pc → inst ≠ []
  unannounced : ∀ q ∈ inst.head?, q.cause ≠ .counter → m.ctx.ctx.breaksAt m.vm.cpu.pc

theorem vmStep_adds (m : Machine Session) :
    (∃ stop last, vmStep yieldDebugger m = .stopped stop last ∧ last.ctx = m.ctx) ∨
      ∃ inst ends, Adds m inst ends := by
  by_cases called : ∃ decoded label, Dispatches m.vm decoded label ∧ label ≠ .doBadOp
  · obtain ⟨decoded, label, leads, valid⟩ := called
    obtain ⟨_, ir, _, entered, _⟩ := leads.enters
    obtain ⟨ends, log, ofEnd⟩ := vmStep_log leads valid entered
    obtain ⟨inst, grown, ofCall⟩ :=
      (@Session.yieldDebugger_extends label.event (m.vm.setIr ir) m.ctx).log
    refine .inr ⟨inst, ends, ?_, fun q member => (ofCall q member).2,
      fun q member => (ofEnd q member).2, ?_, ?_⟩
    · rw [log, grown, List.append_assoc]
      rfl
    · rintro breaks rfl
      obtain ⟨p, rest, announced, _⟩ :=
        @Session.yieldDebugger_announces label.event (m.vm.setIr ir) m.ctx label.event_cause breaks
      simp [grown, Session.arrive] at announced
    · intro q first plain
      by_contra free
      rcases @Session.yieldDebugger_unannounced label.event (m.vm.setIr ir) m.ctx label.event_cause
        free with none | ⟨p, rest, only, counter⟩
      · rw [grown] at none
        obtain rfl : inst = [] := by simpa [Session.arrive] using none
        cases first
      · rw [grown] at only
        obtain rfl : inst = p :: rest := List.append_cancel_left only
        obtain rfl : p = q := Option.some.inj first
        exact plain counter
  · exact .inl (vmStep_uncalled (by simpa using called))

theorem debuggerInit_fresh (started : debuggerInit executable input = .ok m) :
    m.ctx.calls = 0 ∧ m.ctx.log = [] := by
  obtain ⟨vm, _, initial⟩ := bind_eq_ok.mp started
  obtain rfl := Except.ok.inj initial
  exact ⟨rfl, rfl⟩

theorem vmExec_calls (started : debuggerInit executable input = .ok m) (count : Nat) :
    ∀ next, vmExec yieldDebugger count m = .running next → next.ctx.calls = count + 1 := by
  induction count with
  | zero =>
      intro next run
      have ctx := vmEntry_ctx yieldDebugger m
      rw [← vmExec_zero, run, Outcome.state_running] at ctx
      rw [ctx, Session.yieldDebugger_extends.calls]
      exact congrArg (· + 1) (debuggerInit_fresh started).1
  | succ count ih =>
      intro next run
      rw [vmExec_succ] at run
      cases before : vmExec yieldDebugger count m with
      | stopped stop last =>
          rw [before] at run
          cases run
      | running middle =>
          rw [before] at run
          obtain ⟨_, label, seen, after, _, _, handled, _⟩ := vmStep_running run
          have calls := (@Session.yieldDebugger_extends label.event seen middle.ctx).calls
          rw [handled] at calls
          rw [calls]
          exact congrArg (· + 1) (ih middle before)

theorem vmExec_stopped {stop : Stop} {last : Machine Session} {count : Nat}
    (run : vmExec yieldDebugger count m = .stopped stop last) (later : Nat) :
    vmExec yieldDebugger (count + later) m = .stopped stop last := by
  induction later with
  | zero => exact run
  | succ later ih => rw [← Nat.add_assoc, vmExec_succ, ih, Outcome.bind_stopped]

theorem vmExec_log_succ (started : debuggerInit executable input = .ok m) (count : Nat) :
    ∃ new, (vmExec yieldDebugger (count + 1) m).state.ctx.log =
      (vmExec yieldDebugger count m).state.ctx.log ++ new ∧
        ∀ q ∈ new, count + 2 ≤ q.call ∧ q.call ≤ count + 3 := by
  rw [vmExec_succ]
  cases run : vmExec yieldDebugger count m with
  | stopped stop last => exact ⟨[], by simp, by simp⟩
  | running middle =>
      have calls := vmExec_calls started count middle run
      rw [Outcome.bind_running, Outcome.state_running]
      rcases vmStep_adds middle with ⟨stop, last, stopped, same⟩ | ⟨inst, ends, adds⟩
      · exact ⟨[], by rw [stopped, Outcome.state_stopped, same, List.append_nil], by simp⟩
      · refine ⟨inst ++ ends, adds.log, ?_⟩
        intro q member
        rcases List.mem_append.mp member with here | ending
        · have call := adds.ofInst q here
          omega
        · have call := adds.ofEnd q ending
          omega

theorem vmExec_log (started : debuggerInit executable input = .ok m) (count later : Nat) :
    ∃ new, (vmExec yieldDebugger (count + later) m).state.ctx.log =
      (vmExec yieldDebugger count m).state.ctx.log ++ new ∧ ∀ q ∈ new, count + 2 ≤ q.call := by
  induction later with
  | zero => exact ⟨[], by simp, by simp⟩
  | succ later ih =>
      obtain ⟨new, log, past⟩ := ih
      obtain ⟨more, longer, bounds⟩ := vmExec_log_succ started (count + later)
      refine ⟨new ++ more, ?_, ?_⟩
      · rw [← Nat.add_assoc, longer, log, List.append_assoc]
      · intro q member
        rcases List.mem_append.mp member with early | late
        · exact past q early
        · have bound := bounds q late
          omega

theorem vmExec_bound (started : debuggerInit executable input = .ok m) (count : Nat) :
    ∀ q ∈ (vmExec yieldDebugger count m).state.ctx.log, q.call ≤ count + 2 := by
  induction count with
  | zero =>
      intro q member
      obtain ⟨calls, empty⟩ := debuggerInit_fresh started
      obtain ⟨new, log, ofCall⟩ := (@Session.yieldDebugger_extends .execStart m.vm m.ctx).log
      have entered : (m.ctx.arrive .execStart m.vm).log = [] := empty
      rw [vmExec_zero, vmEntry_ctx, log, entered, List.nil_append] at member
      have call : q.call = m.ctx.calls + 1 := (ofCall q member).2
      omega
  | succ count ih =>
      intro q member
      obtain ⟨new, log, bounds⟩ := vmExec_log_succ started count
      rw [log] at member
      rcases List.mem_append.mp member with early | late
      · have bound := ih q early
        omega
      · have bound := bounds q late
        omega

theorem vmExec_ended {stop : Stop} {last : Machine Session} {count : Nat}
    (started : debuggerInit executable input = .ok m)
    (run : vmExec yieldDebugger count m = .stopped stop last) (total : Nat) :
    ∀ q ∈ (vmExec yieldDebugger total m).state.ctx.log, q.call ≤ count + 2 := by
  intro q member
  apply vmExec_bound started count
  rcases Nat.le_total total count with short | long
  · obtain ⟨later, rfl⟩ := Nat.le.dest short
    obtain ⟨new, log, _⟩ := vmExec_log started total later
    rw [log]
    exact List.mem_append_left new member
  · obtain ⟨later, rfl⟩ := Nat.le.dest long
    rw [vmExec_stopped run] at member
    rwa [run]

theorem next_prompt (started : debuggerInit executable input = .ok m) {count total : Nat}
    (adjacent : [p, q] <:+: (vmExec yieldDebugger total m).state.ctx.log)
    (before : p.call < count + 2) (since : count + 2 ≤ q.call)
    (run : vmExec yieldDebugger count m = .running next) :
    (next.ctx.ctx.breaksAt next.vm.cpu.pc → q.call = count + 2) ∧
      (q.call = count + 2 → q.cause ≠ .counter → next.ctx.ctx.breaksAt next.vm.cpu.pc) := by
  have calls := vmExec_calls started count next run
  have past : q ∉ next.ctx.log := by
    intro member
    have bound := ((vmExec_settled started count).2 next run).history.past q member
    omega
  have further : count < total := by
    by_contra short
    obtain ⟨later, rfl⟩ := Nat.le.dest (Nat.le_of_not_lt short)
    obtain ⟨new, log, _⟩ := vmExec_log started total later
    rw [run, Outcome.state_running] at log
    apply past
    rw [log]
    exact List.mem_append_left new (adjacent.subset (by simp))
  obtain ⟨later, rfl⟩ := Nat.le.dest further
  have step : vmExec yieldDebugger (count + 1) m = vmStep yieldDebugger next := by
    rw [vmExec_succ, run, Outcome.bind_running]
  -- The log is cut where the step from `next` begins: `p` is before the cut and `q` after it.
  rcases vmStep_adds next with ⟨stop, last, stopped, same⟩ | ⟨inst, ends, adds⟩
  · exfalso
    apply past
    rw [Nat.succ_eq_add_one, vmExec_stopped (step.trans stopped), Outcome.state_stopped, same] at adjacent
    exact adjacent.subset (by simp)
  · obtain ⟨more, log, ofLater⟩ := vmExec_log started (count + 1) later
    rw [step, adds.log, List.append_assoc, List.append_assoc] at log
    rw [Nat.succ_eq_add_one, log] at adjacent
    have later : ∀ r ∈ ends ++ more, count + 3 ≤ r.call := by
      intro r member
      rcases List.mem_append.mp member with ending | late
      · have call := adds.ofEnd r ending
        omega
      · exact ofLater r late
    have fresh : p ∉ inst ++ (ends ++ more) := by
      intro member
      rcases List.mem_append.mp member with here | late
      · have call := adds.ofInst p here
        omega
      · have call := later p late
        omega
    obtain ⟨_, first⟩ := last_head_of_adjacent adjacent fresh past
    cases inst with
    | nil =>
        have call := later q (List.mem_of_mem_head? first)
        exact ⟨fun breaks => absurd rfl (adds.announced breaks), fun here => by omega⟩
    | cons r rest =>
        obtain rfl : r = q := Option.some.inj first
        have call := adds.ofInst r List.mem_cons_self
        exact ⟨fun _ => by omega, fun _ plain => adds.unannounced r rfl plain⟩

end Runs

section Counting

variable {executable : List Byte} {input : List Str} {m : Machine Session}

theorem untilZero_parseInt {k : Nat} (positive : 1 ≤ k) :
    untilZero (parseInt (decimal k)) ≤ k ∧
      (untilZero (parseInt (decimal k)) = k ↔ k ≤ 2 ^ 32) := by
  have cut : (parseInt (decimal k)).toNat = min k (2 ^ 63 - 1) % 2 ^ 32 := by
    rw [parseInt, strtol_decimal k positive, BitVec.toNat_ofInt]
    omega
  have one : (1 : CInt).toNat = 1 := rfl
  rw [untilZero, BitVec.toNat_sub, cut, one]
  omega

namespace Prompt

def AnsweredBy (p : Prompt) (line : Str) : Prop :=
  ∃ cmd, parseCmd line = .cmd cmd ∧ p.answer = some cmd

theorem AnsweredBy.left {p : Prompt} {k : Nat} (answered : p.AnsweredBy (stepLine k)) :
    p.answer.isSome ∧ p.left = parseInt (decimal k) := by
  obtain ⟨cmd, parsed, answer⟩ := answered
  rw [parseCmd_stepLine] at parsed
  obtain rfl := ParsedCmd.cmd.inj parsed
  rw [Prompt.left, answer]
  exact ⟨rfl, rfl⟩

end Prompt

/-- After `n k` the counter stops the program once exactly `k` instructions have been executed,
unless the prompt was one of those at the start, and never lets it go further. -/
theorem debugger_step (started : debuggerInit executable input = .ok m) (count : Nat) {k : Nat}
    (positive : 1 ≤ k) :
    (∀ p q, [p, q] <:+: (vmExec yieldDebugger count m).state.ctx.log →
      p.AnsweredBy (stepLine k) → q.cause = .counter →
        (q.executed = p.executed + k ↔ p.event ≠ .execStart ∧ k ≤ 2 ^ 32)) ∧
    ∀ p ∈ (vmExec yieldDebugger count m).state.ctx.log.getLast?, p.AnsweredBy (stepLine k) →
      (vmExec yieldDebugger count m).state.ctx.executed ≤ p.executed + k := by
  have settled := (vmExec_settled started count).1
  obtain ⟨most, exactly⟩ := untilZero_parseInt positive
  constructor
  · intro p q adjacent answered counter
    obtain ⟨follows, before, after⟩ := settled.history.follows adjacent
    have stop := follows.counter.mp counter
    rw [answered.left.2] at stop
    have total := after.executed
    have base := before.executed
    by_cases start : p.event = .execStart
    · have one := before.start.mp start
      refine iff_of_false ?_ (fun both => both.1 start)
      omega
    · have several : p.call ≠ 1 := fun one => start (before.start.mpr one)
      have enough := before.positive
      rw [← exactly]
      constructor
      · intro same
        exact ⟨start, by omega⟩
      · rintro ⟨_, same⟩
        omega
  · intro p last answered
    have bound := settled.within p last answered.left.1
    rw [answered.left.2] at bound
    omega

theorem debugger_step_twice :
    ∃ m p q, debuggerInit [] ["n 1".toList, "n 2".toList] = .ok m ∧
      [p, q] <:+: (vmExec yieldDebugger 3 m).state.ctx.log ∧ p.AnsweredBy (stepLine 2) ∧
      q.executed = p.executed + 2 := by
  obtain ⟨m, started, p, q, adjacent, answered, counter, inside⟩ : ∃ m,
      debuggerInit [] ["n 1".toList, "n 2".toList] = .ok m ∧ ∃ p q,
        [p, q] <:+: (vmExec yieldDebugger 3 m).state.ctx.log ∧ p.AnsweredBy (stepLine 2) ∧
        q.cause = .counter ∧ p.event ≠ .execStart :=
    ⟨_, rfl, _, _, ⟨[_], [], rfl⟩, ⟨_, parseCmd_stepLine 2, rfl⟩, rfl, nofun⟩
  refine ⟨m, p, q, started, adjacent, answered, ?_⟩
  exact ((debugger_step started 3 (by decide)).1 p q adjacent answered counter).mpr
    ⟨inside, by decide⟩

/-- At the prompt before the first instruction, `n 1` executes nothing. -/
theorem debugger_step_start :
    ¬ ∀ (executable : List Byte) (input : List Str) m,
      debuggerInit executable input = .ok m → ∀ count k, 1 ≤ k →
        ∀ p q, [p, q] <:+: (vmExec yieldDebugger count m).state.ctx.log →
          p.AnsweredBy (stepLine k) → q.cause = .counter → q.executed = p.executed + k := by
  intro executes
  have steps := executes [] [stepLine 1] _ rfl 1 1 (Nat.le_refl 1) _ _ ⟨[], [], rfl⟩
    ⟨_, parseCmd_stepLine 1, rfl⟩ rfl
  cases steps

/-- Before the handler's call number `call` the program comes to a breakpoint or has ended, or
another test of the prompt's own call is met. -/
def Prompt.StopsBefore (m : Machine Session) (p : Prompt) (call : Nat) : Prop :=
  p.Clash ∨ (p.cause = .counter ∧ p.event = .execEnd) ∨
    ∃ executed, p.call < executed + 2 ∧ executed + 2 < call ∧
      ∀ next, vmExec yieldDebugger executed m = .running next →
        next.ctx.ctx.breaksAt next.vm.cpu.pc

/-- After `c` the next prompt is not the counter's exactly when the program comes to a
breakpoint or its end before the counter, still running, reaches zero. -/
theorem debugger_continue (started : debuggerInit executable input = .ok m) (count : Nat)
    {p q : Prompt} (adjacent : [p, q] <:+: (vmExec yieldDebugger count m).state.ctx.log)
    (answered : p.answer = some .cont) :
    q.cause ≠ .counter ↔ p.StopsBefore m (p.call + untilZero p.ctx.nSteps) := by
  have settled := (vmExec_settled started count).1
  obtain ⟨follows, numbered, _⟩ := settled.history.follows adjacent
  have left : p.left = p.ctx.nSteps := by
    rw [Prompt.left, answered]
  have within := follows.within
  have order := follows.order
  have positive := numbered.positive
  rw [left] at within
  have zero : q.cause = .counter ↔ q.call = p.call + untilZero p.ctx.nSteps := by
    rw [follows.counter, left]
  have someStep : 1 ≤ untilZero p.ctx.nSteps := Nat.succ_pos _
  constructor
  · intro plain
    -- In its own call the prompt can only meet another test; later calls are instructions'.
    by_cases here : q.call = p.call
    · rcases (follows.same here).2 with ⟨_, clash⟩ | ⟨_, finish, counter⟩
      · exact .inl clash
      · exact .inr (.inl ⟨counter, finish⟩)
    · have early : q.call ≠ p.call + untilZero p.ctx.nSteps := fun same => plain (zero.mpr same)
      refine .inr (.inr ⟨q.call - 2, by omega, by omega, ?_⟩)
      intro next run
      exact (next_prompt started adjacent (by omega) (by omega) run).2 (by omega) plain
  · rintro stops counter
    have late := zero.mp counter
    have after : p.call < q.call := by omega
    obtain ⟨notEnd, clear⟩ := follows.later after
    rcases stops with clash | ⟨_, finish⟩ | ⟨executed, later, before, met⟩
    · exact clear clash
    · exact notEnd finish
    · cases run : vmExec yieldDebugger executed m with
      | running next =>
          have call := (next_prompt started adjacent later (by omega) run).1 (met next run)
          omega
      | stopped stop last =>
          have bound := vmExec_ended started run count q (adjacent.subset (by simp))
          omega

theorem debugger_continue_breakpoint :
    ∃ m p q, debuggerInit [] ["b 2".toList, "c".toList] = .ok m ∧
      [p, q] <:+: (vmExec yieldDebugger 3 m).state.ctx.log ∧ q.cause ≠ .counter := by
  obtain ⟨m, started, p, q, adjacent, answered, stops⟩ : ∃ m,
      debuggerInit [] ["b 2".toList, "c".toList] = .ok m ∧ ∃ p q,
        [p, q] <:+: (vmExec yieldDebugger 3 m).state.ctx.log ∧ p.answer = some .cont ∧
        p.StopsBefore m (p.call + untilZero p.ctx.nSteps) := by
    refine ⟨_, rfl, _, _, ⟨[], [], rfl⟩, rfl, .inr (.inr ⟨2, by decide, by decide, ?_⟩)⟩
    intro next run
    obtain rfl := Outcome.running.inj run
    exact ⟨_, List.mem_singleton_self _, rfl⟩
  exact ⟨m, p, q, started, adjacent, (debugger_continue started 3 adjacent answered).mpr stops⟩

theorem debugger_continue_left :
    ¬ ∀ (executable : List Byte) (input : List Str) m,
      debuggerInit executable input = .ok m → ∀ count p q,
        [p, q] <:+: (vmExec yieldDebugger count m).state.ctx.log →
          p.answer = some .cont → q.cause ≠ .counter := by
  intro uninterrupted
  exact uninterrupted [] ["b 1".toList, "n 3".toList, "c".toList] _ rfl 3 _ _ ⟨[_], [], rfl⟩ rfl rfl

end Counting

section Breakpoints

def StopsOnce (log : List Prompt) : Prop :=
  ∀ p q, [p, q] <:+: log → p.executed < q.executed ∨ q.event = .execEnd ∧ ¬ q.OnBreakpoint

def Prompt.beforeInst (p : Prompt) (executed : Nat) : Bool :=
  p.event.cause = none ∧ p.executed = executed

/-- An instruction whose address has a breakpoint is about to be dispatched: there is exactly
one prompt before it executes. -/
def AnnouncedOnce (m : Machine Session) : Prop :=
  m.ctx.ctx.breaksAt m.vm.cpu.pc →
    (∃ decoded label, Dispatches m.vm decoded label ∧ label ≠ .doBadOp) →
    (vmStep yieldDebugger m).state.ctx.log.countP (·.beforeInst m.ctx.executed) = 1

/-- No breakpoint stands, or is set while the prompt is answered, at the `pc` of a prompt with
another cause, and the counter does not run out before the first instruction. -/
def Prompt.Separate (p : Prompt) : Prop :=
  (p.answer.isSome → ¬ p.Clash) ∧ (p.cause = .counter → p.event ≠ .execEnd → 1 ≤ p.executed)

variable {executable : List Byte} {input : List Str} {m next : Machine Session} {s : Session}

theorem counter_not_onBreakpoint {p : Prompt} (counter : p.cause = .counter) :
    ¬ p.OnBreakpoint := by
  rintro ⟨id, breakpoint⟩
  rw [counter] at breakpoint
  cases breakpoint

theorem separate_of_stopsOnce (settled : s.Settled) (once : StopsOnce s.log) :
    ∀ p ∈ s.log, p.Separate := by
  intro p member
  constructor
  · intro answered clash
    rcases getLast?_or_next member with last | ⟨q, adjacent⟩
    · exact settled.clear p last answered clash
    · obtain ⟨follows, before, after⟩ := settled.history.follows adjacent
      by_cases here : q.call = p.call
      · have executed : q.executed = p.executed := by
          rw [after.executed, before.executed, here]
        rcases (follows.same here).2 with ⟨onBreakpoint, _⟩ | ⟨_, finish, counter⟩
        · rcases once p q adjacent with later | ⟨_, other⟩
          · omega
          · exact other onBreakpoint
        · exact clash.2.1 counter finish
      · have order := follows.order
        exact (follows.later (by omega)).2 clash
  · intro counter notEnd
    rcases head?_or_previous member with first | ⟨q, adjacent⟩
    · rw [settled.history.opening p first] at counter
      cases counter
    · rcases once q p adjacent with later | finish
      · omega
      · exact absurd finish.1 notEnd

theorem start_not_onBreakpoint {p : Prompt} (history : s.History)
    (apart : ∀ p q, [p, q] <:+: s.log → ¬ p.Clash) (member : p ∈ s.log) (first : p.call = 1) :
    ¬ p.OnBreakpoint := by
  intro onBreakpoint
  rcases head?_or_previous member with opening | ⟨q, adjacent⟩
  · obtain ⟨id, breakpoint⟩ := onBreakpoint
    rw [history.opening p opening] at breakpoint
    cases breakpoint
  · obtain ⟨follows, before, _⟩ := history.follows adjacent
    have order := follows.order
    have positive := before.positive
    obtain ⟨_, ⟨_, clash⟩ | ⟨other, _⟩⟩ := follows.same (by omega)
    · exact apart q p adjacent clash
    · exact other onBreakpoint

theorem stopsOnce_of_separate (history : s.History) (separate : ∀ p ∈ s.log, p.Separate) :
    StopsOnce s.log := by
  have apart : ∀ p q, [p, q] <:+: s.log → ¬ p.Clash := by
    intro p q adjacent clash
    obtain ⟨follows, _, _⟩ := history.follows adjacent
    exact (separate p (adjacent.subset (by simp))).1 follows.resumed clash
  intro p q adjacent
  obtain ⟨follows, before, after⟩ := history.follows adjacent
  have order := follows.order
  by_cases here : q.call = p.call
  · obtain ⟨ofEvent, ⟨_, clash⟩ | ⟨other, finish, _⟩⟩ := follows.same here
    · exact absurd clash (apart p q adjacent)
    · exact .inr ⟨ofEvent.trans finish, other⟩
  · have base := before.executed
    have total := after.executed
    have positive := before.positive
    -- No instruction is executed between the start's call and that of the first instruction.
    by_cases two : q.call = 2
    · rcases follows.second (by omega) two with counter | onBreakpoint
      · by_cases finish : q.event = .execEnd
        · exact .inr ⟨finish, counter_not_onBreakpoint counter⟩
        · have executed := (separate q (adjacent.subset (by simp))).2 counter finish
          omega
      · have plain := start_not_onBreakpoint history apart (adjacent.subset List.mem_cons_self)
          (by omega)
        exact absurd onBreakpoint plain
    · exact .inl (by omega)

theorem not_beforeInst_of_past {pc : Word} (ready : s.Ready pc) {p : Prompt} (member : p ∈ s.log) :
    ¬ p.beforeInst s.executed := by
  intro before
  obtain ⟨inst, executed⟩ := of_decide_eq_true before
  have numbered := ready.history.numbered p member
  have past := ready.history.past p member
  have total := numbered.executed
  have positive := numbered.positive
  have calls := ready.calls
  have several : p.call ≠ 1 := by
    intro one
    rw [numbered.start.mpr one] at inst
    cases inst
  omega

theorem announcedOnce_of_separate (ready : next.ctx.Ready next.vm.cpu.pc)
    (separate : ∀ p ∈ (vmStep yieldDebugger next).state.ctx.log, p.Separate) :
    AnnouncedOnce next := by
  rintro breaks ⟨decoded, label, leads, valid⟩
  obtain ⟨_, ir, _, entered, _⟩ := leads.enters
  obtain ⟨p, rest, log, fields, double⟩ :=
    @Session.yieldDebugger_announces label.event (next.vm.setIr ir) next.ctx label.event_cause breaks
  obtain ⟨ends, final, ending⟩ := vmStep_log leads valid entered
  rw [log] at final
  obtain ⟨ofEvent, executed⟩ := fields p (by simp)
  have inst : p.event.cause = none := by
    rw [ofEvent]
    exact label.event_cause
  have alone : rest = [] := by
    by_contra several
    obtain ⟨counter, answered, armed⟩ := double several
    have notEnd : p.event ≠ .execEnd := by
      intro finish
      rw [finish] at inst
      cases inst
    exact (separate p (by rw [final]; simp)).1 answered
      ⟨counter_not_onBreakpoint counter, fun _ => notEnd, armed⟩
  have old : next.ctx.log.countP (·.beforeInst next.ctx.executed) = 0 :=
    List.countP_eq_zero.mpr fun q member => not_beforeInst_of_past ready member
  have late : ends.countP (·.beforeInst next.ctx.executed) = 0 := by
    rw [List.countP_eq_zero]
    intro q member before
    have other := (of_decide_eq_true before).1
    rw [(ending q member).1] at other
    cases other
  have now : p.beforeInst next.ctx.executed = true := decide_eq_true ⟨inst, executed⟩
  rw [final, alone, List.countP_append, List.countP_append, old, late]
  simp [now]

/-- In every run the prompts keep apart, one for each arrival at a breakpoint, exactly when
the three tests of `yield_debugger` never meet. -/
theorem breakpoint_once (started : debuggerInit executable input = .ok m) :
    ((∀ count, StopsOnce (vmExec yieldDebugger count m).state.ctx.log) ∧
      ∀ count next, vmExec yieldDebugger count m = .running next → AnnouncedOnce next) ↔
    ∀ count, ∀ p ∈ (vmExec yieldDebugger count m).state.ctx.log, p.Separate := by
  constructor
  · rintro ⟨once, _⟩ count
    exact separate_of_stopsOnce (vmExec_settled started count).1 (once count)
  · intro separate
    constructor
    · intro count
      exact stopsOnce_of_separate (vmExec_settled started count).1.history (separate count)
    · intro count next run
      have later := separate (count + 1)
      rw [vmExec_succ, run, Outcome.bind_running] at later
      exact announcedOnce_of_separate ((vmExec_settled started count).2 next run) later

theorem breakpoint_once_middle :
    ∃ m, debuggerInit [0, 0, 0, 0, 0xD0, 0] ("b 1".toList :: List.replicate 3 "c".toList) = .ok m ∧
      ∀ count, StopsOnce (vmExec yieldDebugger count m).state.ctx.log := by
  obtain ⟨m, started⟩ : ∃ m, debuggerInit [0, 0, 0, 0, 0xD0, 0]
      ("b 1".toList :: List.replicate 3 "c".toList) = .ok m := ⟨_, rfl⟩
  refine ⟨m, started, ((breakpoint_once started).mpr ?_).1⟩
  have earlier : ∀ count, (vmExec yieldDebugger count m).state.ctx.log <+:
      (vmExec yieldDebugger 3 m).state.ctx.log := by
    obtain rfl := Except.ok.inj started
    rintro (_ | _ | _ | count)
    · exact ⟨[_, _], rfl⟩
    · exact ⟨[_, _], rfl⟩
    · exact ⟨[_], rfl⟩
    · exact ⟨[], rfl⟩
  obtain rfl := Except.ok.inj started
  intro count p member
  rcases List.mem_cons.mp ((earlier count).subset member) with rfl | member
  · refine ⟨?_, nofun⟩
    rintro - ⟨_, _, ⟨bp, member, _⟩ | ⟨addr, member, here⟩⟩
    · cases member
    · obtain rfl := DebuggerCmd.setBreakpoint.inj (List.mem_singleton.mp member)
      cases here
  · rcases List.mem_cons.mp member with rfl | member
    · exact ⟨fun _ clash => clash.1 ⟨_, rfl⟩, nofun⟩
    · obtain rfl := List.mem_singleton.mp member
      refine ⟨?_, nofun⟩
      rintro - ⟨_, _, ⟨bp, member, here⟩ | ⟨addr, member, _⟩⟩
      · obtain rfl := List.mem_singleton.mp member
        cases here
      · cases member

/-- With a breakpoint set at address 0 the prompt at the start is followed by another at once. -/
theorem breakpoint_once_start :
    ¬ ∀ (executable : List Byte) (input : List Str) m, debuggerInit executable input = .ok m →
      (∀ count, StopsOnce (vmExec yieldDebugger count m).state.ctx.log) ∧
        ∀ count next, vmExec yieldDebugger count m = .running next → AnnouncedOnce next := by
  intro apart
  have once := (apart [] ["b 0".toList, "c".toList] _ rfl).1 0
  rcases once _ _ ⟨[], [], rfl⟩ with later | ⟨finish, _⟩
  · cases later
  · cases finish

end Breakpoints

end Sigma16

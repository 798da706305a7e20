import Sigma16.ItemCalls

/-!
The Python bindings of `sigma16module.c`: an `Emulator` object, the callback its trace
handler makes, and what a program's run looks like through it.
-/

namespace Sigma16

open Words Transition

/-- How a call of the user's callable ends. `vm` is `none` when it never comes back, and another
VM than it was called with when it calls `execute` again. -/
structure CallEnd (Host : Type) where
  vm : Option Vm
  host : Host
  raised : Bool

abbrev Callback (Host : Type) := InstructionObject → Vm → Host → CallEnd Host

structure Interpreter (Host : Type) where
  host : Host
  error : Bool

/-- `vm_trace_compat`, which drops the result of `PyObject_CallObject` with what was raised. -/
def emulatorTrace {Host : Type} (traceHandler : Option (Callback Host)) :
    TraceHandler (Interpreter Host) := fun event vm interpreter =>
  match vmTraceCompat vm event, traceHandler with
  | some instruction, some callback =>
      let ended := callback instruction vm interpreter.host
      (ended.vm, { host := ended.host, error := interpreter.error || ended.raised })
  | _, _ => (some vm, interpreter)

inductive Execution where
  | none
  | baseException
  | systemError
  deriving DecidableEq

/-- `Emulator_execute`, once `sigma16_vm_exec` has returned. The interpreter refuses the `None`
of a function that returns with an exception set. -/
def emulatorExecute (code : Int) (error : Bool) : Execution :=
  if code < 0 then .baseException
  else if error then .systemError
  else .none

/-- The callback returns normally each time and leaves the emulator alone; `told` is what it
makes of an object. -/
def Listens {Host : Type} (callback : Callback Host) (told : Host → InstructionObject → Host) :
    Prop :=
  ∀ instruction vm host, callback instruction vm host = ⟨some vm, told host instruction, false⟩

def callbacks (last : InstRrr) : List Item → List InstructionObject
  | [] => []
  | item :: items => item.object last :: callbacks (item.fields last) items

section Callbacks

variable {Host : Type} {callback : Callback Host} {told : Host → InstructionObject → Host}
variable {items : List Item} {last : InstRrr} {entries : List (Nat × Item)}
variable {calls ending : List TraceCall}

def telling (told : Host → InstructionObject → Host) (event : TraceEvent) (vm : Vm)
    (interpreter : Interpreter Host) : Interpreter Host :=
  { interpreter with host := (vmTraceCompat vm event).elim interpreter.host (told interpreter.host) }

theorem Listens.observing (listens : Listens callback told) :
    emulatorTrace (some callback) = observing (telling told) := by
  funext event vm interpreter
  unfold emulatorTrace
  cases object : vmTraceCompat vm event with
  | none => simp [Sigma16.observing, telling, object]
  | some instruction => simp [Sigma16.observing, telling, object, listens instruction]

theorem CallsFor.callbacks (made : CallsFor items last entries calls)
    (before : Interpreter Host) : shown (telling told) before calls =
      { before with
        host := (callbacks last (entries.map Prod.snd)).foldl told before.host } := by
  induction made generalizing before with
  | nil => rfl
  | @cons last index item entries call calls pc object rest ih =>
      have called : telling told call.1 call.2 before =
          { before with host := told before.host (item.object last) } := by
        rw [telling, object]
        rfl
      change shown (telling told) (telling told call.1 call.2 before) calls = _
      rw [called, ih]
      rfl

theorem shown_telling (silent : ∀ call ∈ ending, call.1 = .execEnd)
    (before : Interpreter Host) : shown (telling told) before ending = before := by
  induction ending with
  | nil => rfl
  | cons call ending ih =>
      have quiet : telling told call.1 call.2 before = before := by
        rw [silent call (by simp)]
        rfl
      change shown (telling told) (telling told call.1 call.2 before) ending = before
      rw [quiet]
      exact ih fun more member => silent more (by simp [member])

end Callbacks

/-- A program run through the bindings, with a callback that returns and leaves the emulator
alone: it gets one object for each instruction the program executes, in order and with its
fields, and `execute` raises nothing. A NOP is reported with the fields of the instruction
before. -/
theorem emulator_callbacks {Host : Type} {callback : Callback Host}
    {told : Host → InstructionObject → Host} (listens : Listens callback told) (host : Host)
    {items : List Item} (fits : (codeWords items).length ≤ memWords) (count : Nat)
    (sound : ∀ last, iterate (itemStep items) count (.boot items) ≠ .stopped .wrong last) :
    ∃ start, sigma16VmInit (writeCode (items.map Item.obj)).1 = .ok start ∧
      (vmExec (emulatorTrace (some callback)) count
          { vm := start, ctx := ⟨host, false⟩, out := [] }).state.ctx =
        ⟨(callbacks ⟨0, 0, 0, 0⟩ ((executed items count (.boot items)).map Prod.snd)).foldl
          told host, false⟩ ∧
      ∀ code last, vmExec (emulatorTrace (some callback)) count
          { vm := start, ctx := ⟨host, false⟩, out := [] } = .stopped (.returned code) last →
        emulatorExecute code last.ctx.error = .none := by
  let start : Vm := ⟨Cpu.zero, loadImage (wordBytes (codeWords items))⟩
  let m : Machine (Interpreter Host) := { vm := start, ctx := ⟨host, false⟩, out := [] }
  have real : Realizes items (.boot items) m := realizes_boot fits m rfl rfl rfl
  have cleared : m.vm.cpu.ir.rrr = ⟨0, 0, 0, 0⟩ := by
    change Cpu.zero.ir.rrr = ⟨0, 0, 0, 0⟩
    decide
  obtain ⟨calls, ending, made, silent, context⟩ :=
    @run_callsFor _ (telling told) _ _ _ _ real cleared count sound
  rw [shown_append, made.callbacks, shown_telling silent] at context
  rw [writeCode_items, listens.observing]
  refine ⟨start, image_loads fits, context, ?_⟩
  intro code last returned
  have matched := @run_matches _ items (telling told) _ m real count sound
  change iterate (vmStep (observing (telling told))) count m =
    .stopped (.returned code) last at returned
  rw [returned] at matched context
  have unset : last.ctx.error = false := by
    rw [Outcome.state_stopped] at context
    rw [context]
  cases outcome : iterate (itemStep items) count (.boot items) with
  | running s =>
      rw [outcome] at matched
      cases matched
  | stopped reason s =>
      rw [outcome] at matched
      cases matched with
      | stopped both _ =>
          obtain ⟨-, same⟩ := both
          obtain rfl := Stop.returned.inj same
          rw [unset]
          rfl

theorem emulator_callbacks_nop :
    ∃ start, sigma16VmInit (writeCode ([rxItem 3 0 0 3, rrrItem 12 0 0 0, rrrItem 12 1 2 3,
        rrrItem 13 0 0 0].map Item.obj)).1 = .ok start ∧
      (vmExec (emulatorTrace (some fun instruction vm seen => ⟨some vm, seen ++ [instruction], false⟩))
          3 { vm := start, ctx := ⟨[], false⟩, out := [] }).state.ctx =
        ⟨[.rx ⟨0, 15, 3, 0, 3⟩, .rrr ⟨0, 15, 3, 0⟩, .rrr ⟨0, 13, 0, 0⟩], false⟩ := by
  have halts : ∃ last, iterate (itemStep [rxItem 3 0 0 3, rrrItem 12 0 0 0, rrrItem 12 1 2 3,
      rrrItem 13 0 0 0]) 3 (.boot [rxItem 3 0 0 3, rrrItem 12 0 0 0, rrrItem 12 1 2 3,
        rrrItem 13 0 0 0]) = .stopped .halted last := ⟨_, rfl⟩
  obtain ⟨last, halts⟩ := halts
  obtain ⟨start, loaded, calls, -⟩ := @emulator_callbacks (List InstructionObject)
    (fun instruction vm seen => ⟨some vm, seen ++ [instruction], false⟩)
    (fun seen instruction => seen ++ [instruction]) (fun _ _ _ => rfl) []
    [rxItem 3 0 0 3, rrrItem 12 0 0 0, rrrItem 12 1 2 3, rrrItem 13 0 0 0] (by decide) 3
    (by rw [halts]; simp)
  exact ⟨start, loaded, calls.trans rfl⟩

end Sigma16

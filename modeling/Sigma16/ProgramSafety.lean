import Mathlib.Tactic.IntervalCases
import Sigma16.ItemRules

/-!
Programs that cannot go wrong: what control can come to is an instruction, and memory is
accessed at fixed addresses. A run of one ends only at its halting TRAP, and ends for
certain where control only moves forward.
-/

namespace Sigma16

open Words Transition

def enters (items : List Item) (index : Nat) : Bool := (items[index]?.map Item.isInst).getD false

def Item.successors (items : List Item) (index : Nat) : Item → List Nat
  | rrr op .. => if op.val = 13 then [] else [index + 1]
  | rx op _ _ disp =>
      let target := (locate (codeLayout items) disp.word.toNat).toList
      if op.val < 3 then [index + 1]
      else if op.val = 3 ∨ op.val = 8 then target
      else (index + 1) :: target
  | data _ => []

/-- Loads and stores at a fixed address, the latter beside the code, jumps to an item, and no
TRAP but the halting one. -/
def Item.Checked (items : List Item) : Item → Prop
  | rrr op d _ _ => op.val = 13 → d = 0
  | rx op d sa disp =>
      let addr := disp.word.toNat
      match op.val with
      | 0 => True
      | 1 => d = 0 ∨ sa = 0 ∧ addr < memWords
      | 2 => sa = 0 ∧ addr < memWords ∧ inCode (codeLayout items) addr = false
      | _ => sa = 0 ∧ (locate (codeLayout items) addr).isSome
  | data _ => True

structure CheckedProgram (items : List Item) : Prop where
  starts : enters items 0 = true
  operands : ∀ item ∈ items, item.Checked items
  follows : ∀ entry ∈ items.zipIdx, ∀ next ∈ entry.1.successors items entry.2,
    enters items next = true

def LoopFree (items : List Item) : Prop :=
  ∀ entry ∈ items.zipIdx, ∀ next ∈ entry.1.successors items entry.2, entry.2 < next

instance (items : List Item) (item : Item) : Decidable (item.Checked items) :=
  match item with
  | .rrr op d _ _ => inferInstanceAs (Decidable (op.val = 13 → d = 0))
  | .rx ⟨0, _⟩ _ _ _ | .data _ => inferInstanceAs (Decidable True)
  | .rx ⟨1, _⟩ d sa disp =>
      inferInstanceAs (Decidable (d = 0 ∨ sa = 0 ∧ disp.word.toNat < memWords))
  | .rx ⟨2, _⟩ _ sa disp => inferInstanceAs (Decidable (sa = 0 ∧ disp.word.toNat < memWords ∧
      inCode (codeLayout items) disp.word.toNat = false))
  | .rx ⟨_ + 3, _⟩ _ sa disp => inferInstanceAs (Decidable (sa = 0 ∧
      (locate (codeLayout items) disp.word.toNat).isSome))

instance (items : List Item) : Decidable (LoopFree items) :=
  inferInstanceAs (Decidable (∀ entry ∈ items.zipIdx,
    ∀ next ∈ entry.1.successors items entry.2, entry.2 < next))

section Steps

variable {items : List Item} {s : ItemState} {item : Item}

theorem enters_iff {index : Nat} :
    enters items index = true ↔ ∃ item, items[index]? = some item ∧ item.isInst = true := by
  unfold enters
  cases items[index]? <;> simp

theorem branch_some (s : ItemState) (taken : Bool) (target : Nat) :
    ∃ next, s.branch taken (some target) = .running next ∧
      next.index = if taken then target else s.index + 1 := by
  cases taken
  · exact ⟨_, rfl, rfl⟩
  · exact ⟨_, rfl, rfl⟩

theorem branch_successors {taken : Bool} {found : Option Nat} (present : found.isSome) :
    ∃ next, s.branch taken found = .running next ∧
      next.index ∈ (s.index + 1) :: found.toList := by
  obtain ⟨target, rfl⟩ := Option.isSome_iff_exists.mp present
  obtain ⟨next, run, arrived⟩ := branch_some s taken target
  refine ⟨next, run, ?_⟩
  rw [arrived]
  cases taken <;> simp

theorem goto_successors {found : Option Nat} (present : found.isSome) :
    ∃ next, s.goto found = .running next ∧ next.index ∈ found.toList := by
  obtain ⟨target, rfl⟩ := Option.isSome_iff_exists.mp present
  exact ⟨_, rfl, by simp⟩

theorem checked_step (stored : items[s.index]? = some item) (inst : item.isInst = true)
    (checked : item.Checked items) (zero : s.regs 0 = 0) :
    (∃ next, itemStep items s = .running next ∧ next.index ∈ item.successors items s.index) ∨
      itemStep items s = .stopped .halted s := by
  cases item with
  | data value => cases inst
  | rrr op d sa sb =>
      simp only [itemStep, stored]
      by_cases trap : op.val = 13
      · obtain rfl := checked trap
        obtain rfl : op = Fin.last 13 := Fin.ext trap
        exact .inr (if_pos zero)
      · have computes : ∀ op : Fin 14, op.val ≠ 13 →
            Label.rrrLabels.getD op.val .doBadOp ≠ .doTrap := by decide
        refine .inl ⟨_, if_neg (computes op trap), ?_⟩
        simp [Item.successors, trap, ItemState.next]
  | rx op d sa disp =>
      have address : sa = 0 → s.regs sa + disp.word = disp.word := by
        rintro rfl
        rw [zero]
        exact BitVec.zero_add _
      have conditional : sa = 0 ∧ (locate (codeLayout items) disp.word.toNat).isSome → ∀ taken,
          ∃ next, s.branch taken (locate (codeLayout items) (s.regs sa + disp.word).toNat) =
            .running next ∧
              next.index ∈ (s.index + 1) :: (locate (codeLayout items) disp.word.toNat).toList := by
        rintro ⟨base, present⟩ taken
        rw [address base]
        exact branch_successors present
      refine .inl ?_
      simp only [itemStep, stored]
      -- LEA, LOAD, STORE, JUMP, the four conditional jumps and JAL
      obtain ⟨op, bound⟩ := op
      interval_cases op
      · exact ⟨_, rfl, by simp [Item.successors, ItemState.next]⟩
      · change ∃ next, s.runItemRx items .doLoad d sa disp.word = .running next ∧ _
        rcases checked with rfl | ⟨base, mapped⟩
        · exact ⟨_, rfl, by simp [Item.successors, ItemState.next]⟩
        · by_cases nowhere : d = 0
          · exact ⟨_, if_pos nowhere, by simp [Item.successors, ItemState.next]⟩
          · refine ⟨_, (if_neg nowhere).trans (if_pos ?_),
              by simp [Item.successors, ItemState.next]⟩
            change (s.regs sa + disp.word).toNat < memWords
            rwa [address base]
      · obtain ⟨base, mapped, outside⟩ := checked
        change ∃ next, s.runItemRx items .doStore d sa disp.word = .running next ∧ _
        refine ⟨_, if_pos ?_, by simp [Item.successors, ItemState.next]⟩
        change (s.regs sa + disp.word).toNat < memWords ∧
          inCode (codeLayout items) (s.regs sa + disp.word).toNat = false
        rw [address base]
        exact ⟨mapped, outside⟩
      · obtain ⟨base, present⟩ := checked
        change ∃ next, s.goto (locate (codeLayout items) (s.regs sa + disp.word).toNat) =
          .running next ∧ _
        rw [address base]
        exact goto_successors present
      · exact conditional checked _
      · exact conditional checked _
      · exact conditional checked _
      · exact conditional checked _
      · obtain ⟨base, present⟩ := checked
        change ∃ next, ItemState.goto _ (locate (codeLayout items)
          (put s.regs d (BitVec.ofNat 16 (itemOffset items (s.index + 1))) sa +
            disp.word).toNat) = .running next ∧ _
        subst base
        rw [put_zero, address rfl]
        exact goto_successors present

end Steps

section Runs

variable {items : List Item} {s : ItemState}

structure Proper (items : List Item) (s : ItemState) : Prop where
  enters : enters items s.index = true
  zero : s.regs 0 = 0

theorem proper_boot (checked : CheckedProgram items) : Proper items (.boot items) :=
  ⟨checked.starts, rfl⟩

theorem checked_turn (checked : CheckedProgram items) (proper : Proper items s) :
    (∃ next, itemStep items s = .running next ∧ Proper items next ∧
      (LoopFree items → s.index < next.index)) ∨ itemStep items s = .stopped .halted s := by
  obtain ⟨item, stored, inst⟩ := enters_iff.mp proper.enters
  have operands := checked.operands item (List.mem_of_getElem? stored)
  have entry : (item, s.index) ∈ items.zipIdx := List.mk_mem_zipIdx_iff_getElem?.mpr stored
  refine (checked_step stored inst operands proper.zero).imp_left ?_
  rintro ⟨next, run, successor⟩
  refine ⟨next, run, ⟨checked.follows _ entry _ successor, ?_⟩, fun forward => ?_⟩
  · exact (itemStep_zero run).trans proper.zero
  · exact forward _ entry _ successor

theorem checked_sound (checked : CheckedProgram items) (proper : Proper items s) (count : Nat) :
    (∃ next, iterate (itemStep items) count s = .running next ∧ Proper items next) ∨
      ∃ reason final, iterate (itemStep items) count s = .stopped reason final ∧
        (reason = .halted ∧ Proper items final) := by
  refine iterate_keeps (fun s proper => ?_) count proper
  rcases checked_turn checked proper with ⟨next, run, kept, -⟩ | halted
  · exact .inl ⟨next, run, kept⟩
  · exact .inr ⟨_, s, halted, rfl, proper⟩

theorem checked_never_wrong (checked : CheckedProgram items) (proper : Proper items s) (count : Nat)
    (last : ItemState) : iterate (itemStep items) count s ≠ .stopped .wrong last := by
  intro wrong
  rcases checked_sound checked proper count with ⟨next, run, -⟩ | ⟨reason, final, run, rfl, -⟩
  · cases run.symm.trans wrong
  · cases run.symm.trans wrong

theorem loopFree_stops (checked : CheckedProgram items) (forward : LoopFree items) :
    ∃ count ≤ items.length, ∃ last,
      iterate (itemStep items) count (.boot items) = .stopped .halted last := by
  have inside : ∀ s, Proper items s → s.index < items.length := by
    intro s proper
    obtain ⟨item, stored, -⟩ := enters_iff.mp proper.enters
    exact (List.getElem?_eq_some_iff.mp stored).1
  have turn : ∀ s, Proper items s →
      (∃ next, itemStep items s = .running next ∧ Proper items next ∧
        items.length - 1 - next.index < items.length - 1 - s.index) ∨
      ∃ reason final, itemStep items s = .stopped reason final ∧ reason = .halted := by
    intro s proper
    rcases checked_turn checked proper with ⟨next, run, kept, later⟩ | halted
    · have lower := later forward
      have bound := inside next kept
      exact .inl ⟨next, run, kept, by omega⟩
    · exact .inr ⟨_, s, halted, rfl⟩
  -- the measure is the number of items behind the current one
  have first := inside _ (proper_boot checked)
  obtain ⟨count, within, reason, last, run, rfl⟩ :=
    Stops.within_measure (fun s => items.length - 1 - s.index) turn (proper_boot checked)
  refine ⟨count, ?_, last, run⟩
  change count ≤ items.length - 1 - 0 + 1 at within
  omega

variable {Ctx : Type} {m : Machine Ctx}

def AtInst (items : List Item) (m : Machine Ctx) : Prop :=
  (∃ (index : Nat) (item : Item), items[index]? = some item ∧ item.isInst = true ∧
    m.vm.cpu.pc.toNat = itemOffset items index) ∧
  ∀ (index : Nat) (item : Item), items[index]? = some item → item.isInst = true →
    m.vm.Holds (itemOffset items index) item.words

theorem Proper.atInst (proper : Proper items s) (real : Realizes items s m) : AtInst items m := by
  obtain ⟨item, stored, inst⟩ := enters_iff.mp proper.enters
  exact ⟨⟨s.index, item, stored, inst, real.pc⟩, real.code⟩

end Runs

/-- A checked program never faults and never meets an invalid instruction: after any number of
steps the emulator stands at an instruction of the program with all of them in memory, going
on or having returned 0. -/
theorem checked_runs {Ctx : Type} {items : List Item} (fits : (codeWords items).length ≤ memWords)
    (checked : CheckedProgram items) (observe : TraceEvent → Vm → Ctx → Ctx) (ctx : Ctx) :
    ∃ start, sigma16VmInit (writeCode (items.map Item.obj)).1 = .ok start ∧ ∀ count, ∃ final,
      (vmExec (observing observe) count { vm := start, ctx, out := [] } = .running final ∨
        vmExec (observing observe) count { vm := start, ctx, out := [] } =
          .stopped (.returned 0) final) ∧ AtInst items final := by
  rw [writeCode_items]
  refine ⟨_, image_loads fits, fun count => ?_⟩
  have matched := image_matches observe ctx fits count
    (checked_never_wrong checked (proper_boot checked) count)
  rcases checked_sound checked (proper_boot checked) count with ⟨next, run, kept⟩ | ⟨_, last, run, rfl, kept⟩
  · rw [run] at matched
    obtain ⟨final, going, real⟩ := matched.of_running
    exact ⟨final, .inl going, kept.atInst real⟩
  · rw [run] at matched
    obtain ⟨_, final, stopped, ⟨_, rfl⟩, real⟩ := matched.of_stopped
    exact ⟨final, .inr stopped, kept.atInst real⟩

/-- Without a backward jump it returns 0 after at most one step for each item. -/
theorem loopFree_returns {Ctx : Type} {items : List Item}
    (fits : (codeWords items).length ≤ memWords) (checked : CheckedProgram items)
    (forward : LoopFree items) (observe : TraceEvent → Vm → Ctx → Ctx) (ctx : Ctx) :
    ∃ start, sigma16VmInit (writeCode (items.map Item.obj)).1 = .ok start ∧
      ∃ count ≤ items.length, ∃ final,
        vmExec (observing observe) count { vm := start, ctx, out := [] } =
          .stopped (.returned 0) final := by
  rw [writeCode_items]
  refine ⟨_, image_loads fits, ?_⟩
  obtain ⟨count, within, last, run⟩ := loopFree_stops checked forward
  have matched := image_matches observe ctx fits count
    (checked_never_wrong checked (proper_boot checked) count)
  rw [run] at matched
  obtain ⟨_, final, stopped, ⟨_, rfl⟩, -⟩ := matched.of_stopped
  exact ⟨count, within, final, stopped⟩

theorem checked_runs_loop :
    ∃ start, sigma16VmInit (writeCode ([rrrItem 0 1 1 1, rxItem 3 0 0 0].map Item.obj)).1 =
      .ok start ∧ ∀ count, ∃ final,
        (vmExec (observing fun _ _ ctx => ctx) count { vm := start, ctx := (), out := [] } =
            .running final ∨
          vmExec (observing fun _ _ ctx => ctx) count { vm := start, ctx := (), out := [] } =
            .stopped (.returned 0) final) ∧ AtInst [rrrItem 0 1 1 1, rxItem 3 0 0 0] final := by
  have checked : CheckedProgram [rrrItem 0 1 1 1, rxItem 3 0 0 0] := ⟨rfl, by decide, by decide⟩
  exact checked_runs (by decide) checked (fun _ _ ctx => ctx) ()

def constArith : List Item :=
  [rxItem 0 1 0 3, rxItem 0 2 0 4, rxItem 0 3 0 5, rrrItem 2 2 2 3, rrrItem 0 10 1 2,
   rrrItem 13 0 0 0]

theorem loopFree_returns_const_arith :
    wordBytes (codeWords constArith) = [0xf1, 0x00, 0x00, 0x03, 0xf2, 0x00, 0x00, 0x04, 0xf3, 0x00,
      0x00, 0x05, 0x22, 0x23, 0x0a, 0x12, 0xd0, 0x00] ∧
    ∃ start, sigma16VmInit (writeCode (constArith.map Item.obj)).1 = .ok start ∧
      ∃ count ≤ 6, ∃ final,
        vmExec (observing fun _ _ ctx => ctx) count { vm := start, ctx := (), out := [] } =
          .stopped (.returned 0) final := by
  have checked : CheckedProgram constArith := ⟨rfl, by decide, by decide⟩
  have forward : LoopFree constArith := by decide
  exact ⟨by decide, loopFree_returns (by decide) checked forward (fun _ _ ctx => ctx) ()⟩

end Sigma16

import Sigma16.ItemRules

/-!
The test program `stackarray_simple.bin`, for any text: subroutines that push, pop and
print words over a stack in an array, and a main program that calls them.
-/

namespace Sigma16

open Words Transition

/-- The words of the test program's data that it reads: what it prints behind a character,
and the characters. -/
structure StackText where
  newline : Word
  a : Word
  b : Word
  c : Word
  d : Word
  e : Word
  f : Word

def stackMain : List Item :=
  [rxItem 1 1 0 0x44, rxItem 8 14 0 0x2c, rxItem 1 1 0 0x45, rxItem 8 14 0 0x2c,
   rxItem 1 1 0 0x46, rxItem 8 14 0 0x2c, rxItem 8 14 0 0x37, rxItem 8 14 0 0x21,
   rxItem 1 1 0 0x47, rxItem 8 14 0 0x2c, rxItem 8 14 0 0x37, rxItem 8 14 0 0x21,
   rxItem 8 14 0 0x37, rxItem 8 14 0 0x21, rxItem 8 14 0 0x37, rxItem 8 14 0 0x21,
   rrrItem 13 0 0 0]

def stackPrint : List Item :=
  [rxItem 2 1 0 0x42, rxItem 0 1 0 2, rxItem 0 2 0 0x42, rxItem 0 3 0 2, rrrItem 13 1 2 3,
   rxItem 3 0 14 0]

def stackPush : List Item :=
  [rxItem 1 2 0 0x4a, rxItem 2 1 2 0x4b, rxItem 0 3 0 1, rrrItem 0 2 2 3, rxItem 2 2 0 0x4a,
   rxItem 3 0 14 0]

def stackPop : List Item :=
  [rxItem 1 2 0 0x4a, rxItem 0 3 0 1, rrrItem 1 2 2 3, rxItem 1 1 2 0x4b, rxItem 2 2 0 0x4a,
   rxItem 3 0 14 0]

def stackCode : List Item := stackMain ++ (stackPrint ++ (stackPush ++ stackPop))

def stackData (text : StackText) : List Word :=
  [0, text.newline, text.a, text.b, text.c, text.d, text.e, text.f, 0, 0]

def stackItems (text : StackText) : List Item := stackCode ++ (stackData text).map dataItem

def Stacked (store : Nat → Word) (base : Nat) : List Word → Prop
  | [] => True
  | top :: rest => store (base + rest.length) = top ∧ Stacked store base rest

theorem Stacked.frame {store after : Nat → Word} {base : Nat} {stack : List Word}
    (stacked : Stacked store base stack)
    (same : ∀ addr, base ≤ addr → addr < base + stack.length → after addr = store addr) :
    Stacked after base stack := by
  induction stack with
  | nil => trivial
  | cons top rest ih =>
      simp only [List.length_cons] at same
      refine ⟨?_, ih stacked.2 fun addr low high => same addr low (by omega)⟩
      rw [same _ (by omega) (by omega), stacked.1]

section Running

variable {text : StackText} {s : ItemState} {stack : List Word} {val : Word} {back : Nat}

theorem stack_at (text : StackText) {index : Nat} {item : Item}
    (stored : stackCode[index]? = some item) : (stackItems text)[index]? = some item :=
  code_at (stackData text) stored

theorem stack_outside (text : StackText) {addr : Nat} (behind : 0x42 ≤ addr) :
    inCode (codeLayout (stackItems text)) addr = false := by
  have outside := inCode_data stackCode (stackData text) (addr - 0x42)
  have size : (codeWords stackCode).length = 0x42 := rfl
  have address : (codeWords stackCode).length + (addr - 0x42) = addr := by omega
  rw [address] at outside
  exact outside

structure StackState (text : StackText) (stack : List Word) (s : ItemState) : Prop where
  zero : s.regs 0 = 0
  pointer : s.store 0x4a = BitVec.ofNat 16 stack.length
  cells : Stacked s.store 0x4b stack
  data : ∀ addr, 0x43 ≤ addr → addr < 0x4a →
    s.store addr = (ItemState.boot (stackItems text)).store addr

structure Called (text : StackText) (entry back : Nat) (s : ItemState) : Prop where
  index : s.index = entry
  back : locate (codeLayout (stackItems text)) (s.regs 14).toNat = some back

theorem stack_return {index : Nat} (arrived : s.index = index)
    (stored : stackCode[index]? = some (rxItem 3 0 14 0))
    (called : locate (codeLayout (stackItems text)) (s.regs 14).toNat = some back) :
    ∃ next, itemStep (stackItems text) s = .running next ∧ Moved s back next := by
  have address : (s.regs 14 + 0).toNat = (s.regs 14).toNat :=
    congrArg BitVec.toNat (BitVec.add_zero _)
  exact exec_jump arrived (stack_at text stored) address called

theorem stack_push (called : Called text 23 back s) (inv : StackState text stack s)
    (pushed : s.regs 1 = val) (room : 0x4b + stack.length < memWords) :
    ∃ next, Reaches (itemStep (stackItems text)) s next ∧ next.index = back ∧
      StackState text (val :: stack) next ∧ next.out = s.out := by
  have bounds : memWords = 32768 := rfl
  obtain ⟨s₁, load, top⟩ := exec_load called.index (stack_at text rfl) (by decide)
    (zero_based inv.zero 0x4a) (by decide)
  have pointer : s₁.regs 2 = BitVec.ofNat 16 stack.length := top.value.trans inv.pointer
  have address : (s₁.regs 2 + 0x4b).toNat = 0x4b + stack.length := by
    rw [pointer, BitVec.toNat_add, BitVec.toNat_ofNat]
    have offset : (0x4b : Word).toNat = 0x4b := rfl
    omega
  obtain ⟨s₂, store, cell⟩ := exec_store top.index (stack_at text rfl) address room
    (stack_outside text (by omega))
  have zero₂ : s₂.regs 0 = 0 := by
    rw [cell.regs, top.others 0 (by decide) (by decide), inv.zero]
  obtain ⟨s₃, lea, one⟩ := exec_lea cell.index (stack_at text rfl) (by decide)
  obtain ⟨s₄, add, sum⟩ := exec_rrr .doAdd one.index (stack_at text rfl) rfl
    (by decide) (by decide) (by decide)
  have zero₄ : s₄.regs 0 = 0 := by
    rw [sum.others 0 (by decide) (by decide), one.others 0 (by decide) (by decide), zero₂]
  obtain ⟨s₅, save, moved⟩ := exec_store sum.index (stack_at text rfl) (zero_based zero₄ 0x4a)
    (by decide) (stack_outside text (by decide))
  have linked : s₅.regs 14 = s.regs 14 := by
    rw [moved.regs, sum.others 14 (by decide) (by decide), one.others 14 (by decide) (by decide),
      cell.regs, top.others 14 (by decide) (by decide)]
  obtain ⟨s₆, jump, returned⟩ := stack_return moved.index rfl (linked.symm ▸ called.back)
  have length : s₄.regs 2 = BitVec.ofNat 16 (stack.length + 1) := by
    rw [sum.value, one.value, zero₂, one.others 2 (by decide) (by decide), cell.regs, pointer]
    exact (BitVec.ofNat_add _ _).symm
  have memory : s₆.store = Function.update (Function.update s.store (0x4b + stack.length) val)
      0x4a (BitVec.ofNat 16 (stack.length + 1)) := by
    rw [returned.store, moved.store, sum.store, one.store, cell.store, top.store, length,
      top.others 1 (by decide) (by decide), pushed]
    rfl
  refine ⟨s₆, .head load (.head store (.head lea (.head add (.head save (.head jump (.refl s₆)))))),
    returned.index, ⟨?_, ?_, ⟨?_, inv.cells.frame fun addr low high => ?_⟩,
      fun addr low high => ?_⟩, ?_⟩
  · rw [returned.regs, moved.regs, zero₄]
  · rw [memory, Function.update_self]
    rfl
  · rw [memory, Function.update_of_ne (by omega), Function.update_self]
  · rw [memory, Function.update_of_ne (by omega), Function.update_of_ne (by omega)]
  · rw [memory, Function.update_of_ne (by omega), Function.update_of_ne (by omega)]
    exact inv.data addr low high
  · rw [returned.out, moved.out, sum.out, one.out, cell.out, top.out]

theorem stack_pop (called : Called text 29 back s) (inv : StackState text (val :: stack) s)
    (room : 0x4b + stack.length < memWords) :
    ∃ next, Reaches (itemStep (stackItems text)) s next ∧ next.index = back ∧
      next.regs 1 = val ∧ StackState text stack next ∧ next.out = s.out := by
  have bounds : memWords = 32768 := rfl
  obtain ⟨s₁, load, top⟩ := exec_load called.index (stack_at text rfl) (by decide)
    (zero_based inv.zero 0x4a) (by decide)
  have zero₁ : s₁.regs 0 = 0 := (top.others 0 (by decide) (by decide)).trans inv.zero
  obtain ⟨s₂, lea, one⟩ := exec_lea top.index (stack_at text rfl) (by decide)
  obtain ⟨s₃, sub, rest⟩ := exec_rrr .doSub one.index (stack_at text rfl) rfl
    (by decide) (by decide) (by decide)
  have length : s₃.regs 2 = BitVec.ofNat 16 stack.length := by
    have pointer : s.store 0x4a = BitVec.ofNat 16 stack.length + 1 :=
      inv.pointer.trans (BitVec.ofNat_add _ _)
    rw [rest.value, one.value, zero₁, one.others 2 (by decide) (by decide), top.value]
    exact (congrArg (· - 1) pointer).trans (BitVec.add_sub_cancel _ _)
  have address : (s₃.regs 2 + 0x4b).toNat = 0x4b + stack.length := by
    rw [length, BitVec.toNat_add, BitVec.toNat_ofNat]
    have offset : (0x4b : Word).toNat = 0x4b := rfl
    omega
  obtain ⟨s₄, fetch, popped⟩ := exec_load rest.index (stack_at text rfl) (by decide) address room
  have zero₄ : s₄.regs 0 = 0 := by
    rw [popped.others 0 (by decide) (by decide), rest.others 0 (by decide) (by decide),
      one.others 0 (by decide) (by decide), zero₁]
  obtain ⟨s₅, save, moved⟩ := exec_store popped.index (stack_at text rfl) (zero_based zero₄ 0x4a)
    (by decide) (stack_outside text (by decide))
  have linked : s₅.regs 14 = s.regs 14 := by
    rw [moved.regs, popped.others 14 (by decide) (by decide),
      rest.others 14 (by decide) (by decide), one.others 14 (by decide) (by decide),
      top.others 14 (by decide) (by decide)]
  obtain ⟨s₆, jump, returned⟩ := stack_return moved.index rfl (linked.symm ▸ called.back)
  have memory : s₆.store = Function.update s.store 0x4a (BitVec.ofNat 16 stack.length) := by
    rw [returned.store, moved.store, popped.store, rest.store, one.store, top.store,
      popped.others 2 (by decide) (by decide), length]
    rfl
  refine ⟨s₆, .head load (.head lea (.head sub (.head fetch (.head save (.head jump (.refl s₆)))))),
    returned.index, ?_, ⟨?_, ?_, inv.cells.2.frame fun addr low high => ?_,
      fun addr low high => ?_⟩, ?_⟩
  · rw [returned.regs, moved.regs, popped.value, rest.store, one.store, top.store, inv.cells.1]
  · rw [returned.regs, moved.regs, zero₄]
  · rw [memory, Function.update_self]
  · rw [memory, Function.update_of_ne (by omega)]
  · rw [memory, Function.update_of_ne (by omega)]
    exact inv.data addr low high
  · rw [returned.out, moved.out, popped.out, rest.out, one.out, top.out]

def stackLine (text : StackText) (val : Word) : List Byte := [lowByte val, lowByte text.newline]

theorem stack_print (called : Called text 17 back s) (inv : StackState text stack s)
    (shown : s.regs 1 = val) :
    ∃ next, Reaches (itemStep (stackItems text)) s next ∧ next.index = back ∧
      StackState text stack next ∧ next.out = s.out ++ stackLine text val := by
  obtain ⟨s₁, store, cell⟩ := exec_store called.index (stack_at text rfl)
    (zero_based inv.zero 0x42) (by decide) (stack_outside text (by decide))
  have zero₁ : s₁.regs 0 = 0 := (congrFun cell.regs 0).trans inv.zero
  obtain ⟨s₂, leaCode, code⟩ := exec_lea cell.index (stack_at text rfl) (by decide)
  have zero₂ : s₂.regs 0 = 0 := (code.others 0 (by decide) (by decide)).trans zero₁
  obtain ⟨s₃, leaBuffer, buffer⟩ := exec_lea code.index (stack_at text rfl) (by decide)
  have zero₃ : s₃.regs 0 = 0 := (buffer.others 0 (by decide) (by decide)).trans zero₂
  obtain ⟨s₄, leaSize, size⟩ := exec_lea buffer.index (stack_at text rfl) (by decide)
  have zero₄ : s₄.regs 0 = 0 := (size.others 0 (by decide) (by decide)).trans zero₃
  have write : s₄.regs 1 = 2 := by
    rw [size.others 1 (by decide) (by decide), buffer.others 1 (by decide) (by decide), code.value,
      zero₁]
    rfl
  have start : s₄.regs 2 = 0x42 := by
    rw [size.others 2 (by decide) (by decide), buffer.value, zero₂]
    rfl
  have count : s₄.regs 3 = 2 := by
    rw [size.value, zero₃]
    rfl
  have pair : s₄.written 2 3 = [0x42, 0x43] := by
    rw [ItemState.written, start, count]
    rfl
  obtain ⟨s₅, trap, wrote⟩ := exec_write size.index (stack_at text rfl) write (by
    rw [pair]
    decide)
  have linked : s₅.regs 14 = s.regs 14 := by
    rw [wrote.others 14 (by decide), size.others 14 (by decide) (by decide),
      buffer.others 14 (by decide) (by decide), code.others 14 (by decide) (by decide), cell.regs]
  obtain ⟨s₆, jump, returned⟩ := stack_return wrote.index rfl (linked.symm ▸ called.back)
  have memory₄ : s₄.store = Function.update s.store 0x42 val := by
    rw [size.store, buffer.store, code.store, cell.store, shown]
    rfl
  have memory : s₆.store = Function.update s.store 0x42 val := by
    rw [returned.store, wrote.store, memory₄]
  have newline : s.store 0x43 = text.newline :=
    (inv.data 0x43 (le_refl _) (by decide)).trans (@boot_data stackCode (stackData text) 1 _ rfl)
  refine ⟨s₆, .head store (.head leaCode (.head leaBuffer (.head leaSize (.head trap (.head jump
    (.refl s₆)))))), returned.index, ⟨?_, ?_, inv.cells.frame fun addr low high => ?_,
      fun addr low high => ?_⟩, ?_⟩
  · rw [returned.regs, wrote.others 0 (by decide), zero₄]
  · rw [memory, Function.update_of_ne (by decide), inv.pointer]
  · rw [memory, Function.update_of_ne (by omega)]
  · rw [memory, Function.update_of_ne (by omega)]
    exact inv.data addr low high
  · rw [returned.out, wrote.out, size.out, buffer.out, code.out, cell.out, pair, memory₄,
      List.map_cons, List.map_cons, List.map_nil, Function.update_self,
      Function.update_of_ne (by decide), newline]
    rfl

theorem stack_call {index entry : Nat} {disp : Word} (inv : StackState text stack s)
    (arrived : s.index = index) (stored : stackCode[index]? = some (rxItem 8 14 0 disp))
    (enters : locate (codeLayout (stackItems text)) disp.toNat = some entry) :
    ∃ next, itemStep (stackItems text) s = .running next ∧ Called text entry (index + 1) next ∧
      StackState text stack next ∧ next.regs 1 = s.regs 1 ∧ next.out = s.out := by
  have bound : index + 1 ≤ (stackItems text).length := by
    have inside := (List.getElem?_eq_some_iff.mp (stack_at text stored)).1
    omega
  obtain ⟨next, jal, linked⟩ := exec_jal arrived (stack_at text stored) (by decide) (by decide)
    (zero_based inv.zero disp) enters
  refine ⟨next, jal, ⟨linked.index, ?_⟩, ⟨?_, ?_, ?_, ?_⟩,
    linked.others 1 (by decide) (by decide), linked.out⟩
  · rw [linked.value]
    exact locate_back bound (Nat.le_of_ble_eq_true rfl)
  · exact (linked.others 0 (by decide) (by decide)).trans inv.zero
  · rw [linked.store, inv.pointer]
  · exact inv.cells.frame fun addr _ _ => congrFun linked.store addr
  · rw [linked.store]
    exact inv.data

def AtMain (text : StackText) (index : Nat) (stack : List Word) (out : List Byte)
    (s : ItemState) : Prop :=
  s.index = index ∧ StackState text stack s ∧ s.out = out

theorem main_push {index : Nat} {disp : Word} {out : List Byte}
    (load : stackCode[index]? = some (rxItem 1 1 0 disp))
    (call : stackCode[index + 1]? = some (rxItem 8 14 0 0x2c))
    (inside : 0x43 ≤ disp.toNat ∧ disp.toNat < 0x4a)
    (value : (ItemState.boot (stackItems text)).store disp.toNat = val)
    (room : 0x4b + stack.length < memWords) :
    Leads (itemStep (stackItems text)) (AtMain text index stack out)
      (AtMain text (index + 2) (val :: stack) out) := by
  rintro s ⟨arrived, inv, printed⟩
  have bounds : memWords = 32768 := rfl
  obtain ⟨s₁, loads, loaded⟩ := exec_load arrived (stack_at text load) (by decide)
    (zero_based inv.zero disp) (by omega)
  have inv₁ : StackState text stack s₁ := by
    obtain ⟨zero, pointer, cells, data⟩ := inv
    refine ⟨(loaded.others 0 (by decide) (by decide)).trans zero, ?_, ?_, ?_⟩ <;> rw [loaded.store]
    exacts [pointer, cells, data]
  have pushed : s₁.regs 1 = val := by
    rw [loaded.value, inv.data _ inside.1 inside.2, value]
  obtain ⟨s₂, jal, called, inv₂, same, out₂⟩ := stack_call inv₁ loaded.index call rfl
  obtain ⟨s₃, push, returned, inv₃, out₃⟩ := stack_push called inv₂ (same.trans pushed) room
  refine ⟨s₃, .head loads (.head jal push), returned, inv₃, ?_⟩
  rw [out₃, out₂, loaded.out, printed]

theorem main_print {index : Nat} {out : List Byte}
    (pop : stackCode[index]? = some (rxItem 8 14 0 0x37))
    (print : stackCode[index + 1]? = some (rxItem 8 14 0 0x21))
    (room : 0x4b + stack.length < memWords) :
    Leads (itemStep (stackItems text)) (AtMain text index (val :: stack) out)
      (AtMain text (index + 2) stack (out ++ stackLine text val)) := by
  rintro s ⟨arrived, inv, printed⟩
  obtain ⟨s₁, jal₁, called₁, inv₁, _, out₁⟩ := stack_call inv arrived pop rfl
  obtain ⟨s₂, pops, arrived₂, top, inv₂, out₂⟩ := stack_pop called₁ inv₁ room
  obtain ⟨s₃, jal₃, called₃, inv₃, same, out₃⟩ := stack_call inv₂ arrived₂ print rfl
  obtain ⟨s₄, prints, arrived₄, inv₄, out₄⟩ := stack_print called₃ inv₃ (same.trans top)
  refine ⟨s₄, .head jal₁ (pops.trans (.head jal₃ prints)), arrived₄, inv₄, ?_⟩
  rw [out₄, out₃, out₂, out₁, printed]

theorem stack_halts (text : StackText) :
    Stops (itemStep (stackItems text)) (· = .boot (stackItems text)) fun reason last =>
      reason = .halted ∧ last.out = stackLine text text.c ++ stackLine text text.d ++
        stackLine text text.b ++ stackLine text text.a := by
  have start : Leads (itemStep (stackItems text)) (· = .boot (stackItems text))
      (AtMain text 0 [] []) := by
    rintro _ rfl
    refine ⟨_, .refl _, rfl, ⟨rfl, ?_, trivial, fun _ _ _ => rfl⟩, rfl⟩
    exact @boot_data stackCode (stackData text) 8 _ rfl
  have value := @boot_data stackCode (stackData text)
  have room : ∀ depth, depth ≤ 2 → 0x4b + depth < memWords := by decide
  -- c is printed before d is pushed, so three cells are enough
  have pushA := @main_push text [] text.a 0 0x44 [] rfl rfl (by decide) (@value 2 _ rfl)
    (room 0 (by decide))
  have pushB := @main_push text [text.a] text.b 2 0x45 [] rfl rfl (by decide) (@value 3 _ rfl)
    (room 1 (by decide))
  have pushC := @main_push text [text.b, text.a] text.c 4 0x46 [] rfl rfl (by decide)
    (@value 4 _ rfl) (room 2 (by decide))
  have printC := @main_print text [text.b, text.a] text.c 6 [] rfl rfl (room 2 (by decide))
  have pushD := @main_push text [text.b, text.a] text.d 8 0x47 (stackLine text text.c) rfl rfl
    (by decide) (@value 5 _ rfl) (room 2 (by decide))
  have printD := @main_print text [text.b, text.a] text.d 10 (stackLine text text.c) rfl rfl
    (room 2 (by decide))
  have printB := @main_print text [text.a] text.b 12
    (stackLine text text.c ++ stackLine text text.d) rfl rfl (room 1 (by decide))
  have printA := @main_print text [] text.a 14
    (stackLine text text.c ++ stackLine text text.d ++ stackLine text text.b) rfl rfl
    (room 0 (by decide))
  refine (start.trans (pushA.trans (pushB.trans (pushC.trans (printC.trans (pushD.trans
    (printD.trans (printB.trans printA)))))))).stops fun last ⟨arrived, inv, printed⟩ => ?_
  exact ⟨.halted, last, step_halt (by rw [arrived]; exact stack_at text rfl) inv.zero, rfl, printed⟩

end Running

/-- The program on any text: it halts, having printed the characters as a stack gives them
back, each with the newline. -/
theorem stack_array {Ctx : Type} (observe : TraceEvent → Vm → Ctx → Ctx) (ctx : Ctx)
    (text : StackText) :
    ∃ start count final, sigma16VmInit (wordBytes (codeWords (stackItems text))) = .ok start ∧
      vmExec (observing observe) count { vm := start, ctx, out := [] } =
        .stopped (.returned 0) final ∧
      final.out = stackLine text text.c ++ stackLine text text.d ++ stackLine text text.b ++
        stackLine text text.a := by
  obtain ⟨start, count, last, final, loaded, run, printed, real⟩ :=
    image_halts observe ctx (Nat.le_of_ble_eq_true rfl) (stack_halts text)
  exact ⟨start, count, final, loaded, run, real.out.trans printed⟩

example : wordBytes (codeWords (stackItems ⟨0x0A, 0x61, 0x62, 0x63, 0x64, 0x65, 0x64⟩)) =
    [0xF1, 0x01, 0x00, 0x44, 0xFE, 0x08, 0x00, 0x2C, 0xF1, 0x01, 0x00, 0x45, 0xFE, 0x08, 0x00,
     0x2C, 0xF1, 0x01, 0x00, 0x46, 0xFE, 0x08, 0x00, 0x2C, 0xFE, 0x08, 0x00, 0x37, 0xFE, 0x08,
     0x00, 0x21, 0xF1, 0x01, 0x00, 0x47, 0xFE, 0x08, 0x00, 0x2C, 0xFE, 0x08, 0x00, 0x37, 0xFE,
     0x08, 0x00, 0x21, 0xFE, 0x08, 0x00, 0x37, 0xFE, 0x08, 0x00, 0x21, 0xFE, 0x08, 0x00, 0x37,
     0xFE, 0x08, 0x00, 0x21, 0xD0, 0x00, 0xF1, 0x02, 0x00, 0x42, 0xF1, 0x00, 0x00, 0x02, 0xF2,
     0x00, 0x00, 0x42, 0xF3, 0x00, 0x00, 0x02, 0xD1, 0x23, 0xF0, 0xE3, 0x00, 0x00, 0xF2, 0x01,
     0x00, 0x4A, 0xF1, 0x22, 0x00, 0x4B, 0xF3, 0x00, 0x00, 0x01, 0x02, 0x23, 0xF2, 0x02, 0x00,
     0x4A, 0xF0, 0xE3, 0x00, 0x00, 0xF2, 0x01, 0x00, 0x4A, 0xF3, 0x00, 0x00, 0x01, 0x12, 0x23,
     0xF1, 0x21, 0x00, 0x4B, 0xF2, 0x02, 0x00, 0x4A, 0xF0, 0xE3, 0x00, 0x00, 0x00, 0x00, 0x00,
     0x0A, 0x00, 0x61, 0x00, 0x62, 0x00, 0x63, 0x00, 0x64, 0x00, 0x65, 0x00, 0x64, 0x00, 0x00,
     0x00, 0x00] := by
  decide

end Sigma16

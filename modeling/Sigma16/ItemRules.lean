import Sigma16.SourceMachine

/-!
Symbolic execution of programs: what one instruction makes of a state, and how a fact
about a run of the program becomes one about the emulator.
-/

namespace Sigma16

open Words Transition

def Signed16.ofWord (word : Word) : Signed16 :=
  ⟨word.toInt, BitVec.le_toInt word, by have := @BitVec.toInt_lt 16 word; omega⟩

@[simp] theorem Signed16.word_ofWord (word : Word) : (Signed16.ofWord word).word = word :=
  BitVec.ofInt_toInt

def rrrItem (op : Nat) (d sa sb : Register) : Item :=
  .rrr ⟨op % 14, Nat.mod_lt op (Nat.succ_pos 13)⟩ d sa sb

def rxItem (op : Nat) (d sa : Register) (disp : Word) : Item :=
  .rx ⟨op % 9, Nat.mod_lt op (Nat.succ_pos 8)⟩ d sa (.ofWord disp)

def dataItem (val : Word) : Item := .data (.ofWord val)

section Registers

variable {regs : Nibble → Word} {d reg : Register} {val : Word}

theorem zero_based {base : Word} (zero : base = 0) (disp : Word) :
    (base + disp).toNat = disp.toNat := by
  rw [zero]
  exact congrArg BitVec.toNat (BitVec.zero_add disp)

theorem put_self (guarded : d ≠ 0) : put regs d val d = val := by
  rw [put, if_neg guarded, Function.update_self]

theorem put_of_ne (other : reg ≠ d) : put regs d val reg = regs reg := by
  unfold put
  split
  · rfl
  · exact Function.update_of_ne other _ _

theorem withStatus_self : withStatus regs val 15 = val := Function.update_self _ _ _

theorem withStatus_of_ne (other : reg ≠ 15) : withStatus regs val reg = regs reg :=
  Function.update_of_ne other _ _

end Registers

section Steps

variable {items : List Item} {s : ItemState} {d sa sb : Register} {disp : Word} {addr : Nat}

theorem step_rrr {op : Nat} (label : Label) (stored : items[s.index]? = some (rrrItem op d sa sb))
    (named : Label.rrrLabels.getD (op % 14) .doBadOp = label) (notTrap : label ≠ .doTrap) :
    itemStep items s = .running (s.next (label.registers d sa sb s.regs)) := by
  simp only [itemStep, stored, rrrItem, named, ItemState.runRrr, notTrap, if_false]

theorem step_halt (stored : items[s.index]? = some (rrrItem 13 d sa sb)) (code : s.regs d = 0) :
    itemStep items s = .stopped .halted s := by
  simp only [itemStep, stored, rrrItem]
  exact if_pos code

theorem step_write (stored : items[s.index]? = some (rrrItem 13 d sa sb)) (code : s.regs d = 2)
    (mapped : ∀ addr ∈ s.written sa sb, addr < memWords) :
    itemStep items s = .running { s.next (withStatus s.regs 0) with
      out := s.out ++ (s.written sa sb).map fun addr => lowByte (s.store addr) } := by
  have goesOn : s.regs d ≠ 0 := by
    rw [code]
    decide
  simp only [itemStep, stored, rrrItem]
  exact (if_neg goesOn).trans ((if_pos code).trans (if_pos mapped))

theorem step_lea (stored : items[s.index]? = some (rxItem 0 d sa disp)) :
    itemStep items s = .running (s.next (put s.regs d (s.regs sa + disp))) := by
  simp only [itemStep, stored, rxItem, Signed16.word_ofWord]
  rfl

theorem step_load (stored : items[s.index]? = some (rxItem 1 d sa disp)) (guarded : d ≠ 0)
    (address : (s.regs sa + disp).toNat = addr) (mapped : addr < memWords) :
    itemStep items s = .running (s.next (put s.regs d (s.store addr))) := by
  simp only [itemStep, stored, rxItem, Signed16.word_ofWord]
  subst addr
  exact (if_neg guarded).trans (if_pos mapped)

theorem step_store (stored : items[s.index]? = some (rxItem 2 d sa disp))
    (address : (s.regs sa + disp).toNat = addr) (mapped : addr < memWords)
    (outside : inCode (codeLayout items) addr = false) :
    itemStep items s = .running { s.next s.regs with
      store := Function.update s.store addr (s.regs d) } := by
  simp only [itemStep, stored, rxItem, Signed16.word_ofWord]
  subst addr
  exact if_pos ⟨mapped, outside⟩

theorem step_jump {target : Nat} (stored : items[s.index]? = some (rxItem 3 d sa disp))
    (address : (s.regs sa + disp).toNat = addr)
    (arrives : locate (codeLayout items) addr = some target) :
    itemStep items s = .running { s with index := target } := by
  have reached : locate (codeLayout items) (s.regs sa + disp).toNat = some target :=
    address ▸ arrives
  simp only [itemStep, stored, rxItem, Signed16.word_ofWord]
  change s.goto (locate (codeLayout items) (s.regs sa + disp).toNat) = _
  rw [reached]
  rfl

theorem step_jumpc0 {target : Nat} (stored : items[s.index]? = some (rxItem 4 d sa disp))
    (address : (s.regs sa + disp).toNat = addr)
    (arrives : locate (codeLayout items) addr = some target) :
    itemStep items s = .running (if (s.regs 15).getLsbD (15 - d.toNat) then s.next s.regs
      else { s with index := target }) := by
  have reached : locate (codeLayout items) (s.regs sa + disp).toNat = some target :=
    address ▸ arrives
  simp only [itemStep, stored, rxItem, Signed16.word_ofWord]
  change s.branch (!(s.regs 15).getLsbD (15 - d.toNat))
    (locate (codeLayout items) (s.regs sa + disp).toNat) = _
  rw [reached]
  cases (s.regs 15).getLsbD (15 - d.toNat) <;> rfl

theorem step_jal {target : Nat} (stored : items[s.index]? = some (rxItem 8 d sa disp))
    (separate : sa ≠ d) (address : (s.regs sa + disp).toNat = addr)
    (arrives : locate (codeLayout items) addr = some target) :
    itemStep items s = .running { s with
      index := target
      regs := put s.regs d (BitVec.ofNat 16 (itemOffset items (s.index + 1))) } := by
  have reached : locate (codeLayout items)
      (put s.regs d (BitVec.ofNat 16 (itemOffset items (s.index + 1))) sa + disp).toNat =
      some target := by
    rw [put_of_ne separate, address]
    exact arrives
  simp only [itemStep, stored, rxItem, Signed16.word_ofWord]
  change ItemState.goto _ (locate (codeLayout items)
    (put s.regs d (BitVec.ofNat 16 (itemOffset items (s.index + 1))) sa + disp).toNat) = _
  rw [reached]
  rfl

end Steps

structure Computed (s : ItemState) (d : Register) (val : Word) (index : Nat) (next : ItemState) :
    Prop where
  index : next.index = index
  value : next.regs d = val
  others : ∀ reg, reg ≠ d → reg ≠ 15 → next.regs reg = s.regs reg
  store : next.store = s.store
  out : next.out = s.out

structure Moved (s : ItemState) (index : Nat) (next : ItemState) : Prop where
  index : next.index = index
  regs : next.regs = s.regs
  store : next.store = s.store
  out : next.out = s.out

structure Stored (s : ItemState) (addr : Nat) (val : Word) (index : Nat) (next : ItemState) :
    Prop where
  index : next.index = index
  regs : next.regs = s.regs
  store : next.store = Function.update s.store addr val
  out : next.out = s.out

structure Emitted (s : ItemState) (bytes : List Byte) (index : Nat) (next : ItemState) :
    Prop where
  index : next.index = index
  others : ∀ reg, reg ≠ 15 → next.regs reg = s.regs reg
  store : next.store = s.store
  out : next.out = s.out ++ bytes

section Blocks

variable {items : List Item} {s : ItemState} {d sa sb : Register} {disp : Word} {index : Nat}
variable {addr target : Nat}

theorem computed_put (arrived : s.index = index) {val : Word} (guarded : d ≠ 0) :
    Computed s d val (index + 1) (s.next (put s.regs d val)) where
  index := congrArg (· + 1) arrived
  value := put_self guarded
  others _ other _ := put_of_ne other
  store := rfl
  out := rfl

theorem exec_rrr {op : Nat} (label : Label) (arrived : s.index = index)
    (stored : items[index]? = some (rrrItem op d sa sb))
    (named : Label.rrrLabels.getD (op % 14) .doBadOp = label) (guarded : d ≠ 0) (apart : d ≠ 15)
    (computes : label ∈ Label.rrrLabels ∧ label ∉ [.doDiv, .doCmp, .doNop, .doTrap]) :
    ∃ next, itemStep items s = .running next ∧
      Computed s d (label.result (s.regs sa) (s.regs sb)) (index + 1) next := by
  have value : label.registers d sa sb s.regs d = label.result (s.regs sa) (s.regs sb) := by
    cases label <;> first
      | exact (withStatus_of_ne apart).trans (put_self guarded)
      | exact put_self guarded
      | exact absurd computes (by decide)
  have others : ∀ reg, reg ≠ d → reg ≠ 15 →
      label.registers d sa sb s.regs reg = s.regs reg := by
    intro reg other notStatus
    cases label <;> first
      | exact (withStatus_of_ne notStatus).trans (put_of_ne other)
      | exact put_of_ne other
      | exact absurd computes (by decide)
  refine ⟨_, step_rrr label (arrived ▸ stored) named ?_, congrArg (· + 1) arrived, value, others,
    rfl, rfl⟩
  rintro rfl
  exact absurd computes (by decide)

theorem exec_cmp (arrived : s.index = index) (stored : items[index]? = some (rrrItem 4 d sa sb)) :
    ∃ next, itemStep items s = .running next ∧ Computed s 15
      (statusWord fun flag => flag.relates (withStatus s.regs 0 sa) (withStatus s.regs 0 sb))
      (index + 1) next :=
  ⟨_, step_rrr .doCmp (arrived ▸ stored) rfl (by decide), congrArg (· + 1) arrived,
    @withStatus_self s.regs _, fun _ _ notStatus => withStatus_of_ne notStatus, rfl, rfl⟩

theorem exec_lea (arrived : s.index = index)
    (stored : items[index]? = some (rxItem 0 d sa disp)) (guarded : d ≠ 0) :
    ∃ next, itemStep items s = .running next ∧ Computed s d (s.regs sa + disp) (index + 1) next :=
  ⟨_, step_lea (arrived ▸ stored), computed_put arrived guarded⟩

theorem exec_load (arrived : s.index = index)
    (stored : items[index]? = some (rxItem 1 d sa disp)) (guarded : d ≠ 0)
    (address : (s.regs sa + disp).toNat = addr) (mapped : addr < memWords) :
    ∃ next, itemStep items s = .running next ∧ Computed s d (s.store addr) (index + 1) next :=
  ⟨_, step_load (arrived ▸ stored) guarded address mapped, computed_put arrived guarded⟩

theorem exec_store (arrived : s.index = index)
    (stored : items[index]? = some (rxItem 2 d sa disp))
    (address : (s.regs sa + disp).toNat = addr) (mapped : addr < memWords)
    (outside : inCode (codeLayout items) addr = false) :
    ∃ next, itemStep items s = .running next ∧ Stored s addr (s.regs d) (index + 1) next :=
  ⟨_, step_store (arrived ▸ stored) address mapped outside, congrArg (· + 1) arrived, rfl, rfl,
    rfl⟩

theorem exec_write (arrived : s.index = index)
    (stored : items[index]? = some (rrrItem 13 d sa sb)) (code : s.regs d = 2)
    (mapped : ∀ addr ∈ s.written sa sb, addr < memWords) :
    ∃ next, itemStep items s = .running next ∧
      Emitted s ((s.written sa sb).map fun addr => lowByte (s.store addr)) (index + 1) next :=
  ⟨_, step_write (arrived ▸ stored) code mapped, congrArg (· + 1) arrived,
    fun _ notStatus => withStatus_of_ne notStatus, rfl, rfl⟩

theorem exec_jump (arrived : s.index = index)
    (stored : items[index]? = some (rxItem 3 d sa disp))
    (address : (s.regs sa + disp).toNat = addr)
    (arrives : locate (codeLayout items) addr = some target) :
    ∃ next, itemStep items s = .running next ∧ Moved s target next :=
  ⟨_, step_jump (arrived ▸ stored) address arrives, rfl, rfl, rfl, rfl⟩

theorem exec_jal (arrived : s.index = index)
    (stored : items[index]? = some (rxItem 8 d sa disp)) (separate : sa ≠ d) (guarded : d ≠ 0)
    (address : (s.regs sa + disp).toNat = addr)
    (arrives : locate (codeLayout items) addr = some target) :
    ∃ next, itemStep items s = .running next ∧
      Computed s d (BitVec.ofNat 16 (itemOffset items (index + 1))) target next := by
  subst index
  exact ⟨_, step_jal stored separate address arrives, rfl, put_self guarded,
    fun _ other _ => put_of_ne other, rfl, rfl⟩

theorem exec_jumpc0 (arrived : s.index = index)
    (stored : items[index]? = some (rxItem 4 d sa disp)) {holds : Flag → Bool}
    (status : s.regs 15 = statusWord holds) (flag : Flag) (named : 15 - d.toNat = flag.bit)
    (address : (s.regs sa + disp).toNat = addr)
    (arrives : locate (codeLayout items) addr = some target) :
    ∃ next, itemStep items s = .running next ∧
      Moved s (if holds flag then index + 1 else target) next := by
  subst index
  refine ⟨_, step_jumpc0 stored address arrives, ?_⟩
  rw [status, named, statusWord_bit]
  cases holds flag <;> exact ⟨rfl, rfl, rfl, rfl⟩

theorem itemOffset_le (items : List Item) (index : Nat) :
    itemOffset items index ≤ (codeWords items).length := by
  have split : codeWords items = codeWords (items.take index) ++ codeWords (items.drop index) := by
    rw [codeWords, codeWords, codeWords, ← List.flatMap_append, List.take_append_drop]
  rw [itemOffset, split, List.length_append]
  exact Nat.le_add_right _ _

theorem locate_back (bound : index ≤ items.length) (fits : (codeWords items).length < 2 ^ 16) :
    locate (codeLayout items) (BitVec.ofNat 16 (itemOffset items index)).toNat = some index := by
  have inside := itemOffset_le items index
  rw [BitVec.toNat_ofNat, Nat.mod_eq_of_lt (by omega)]
  exact locate_itemOffset bound

end Blocks

section Data

variable (code : List Item) (words : List Word)

theorem codeWords_data : codeWords (code ++ words.map dataItem) = codeWords code ++ words := by
  have values : codeWords (words.map dataItem) = words := by
    induction words with
    | nil => rfl
    | cons word words ih =>
        simp only [codeWords, List.map_cons, List.flatMap_cons] at ih ⊢
        rw [ih]
        exact congrArg (· :: words) (Signed16.word_ofWord word)
  exact List.flatMap_append.trans (congrArg (codeWords code ++ ·) values)

theorem code_at {code : List Item} (words : List Word) {index : Nat} {item : Item}
    (stored : code[index]? = some item) : (code ++ words.map dataItem)[index]? = some item := by
  rw [List.getElem?_append_left (List.getElem?_eq_some_iff.mp stored).1, stored]

theorem boot_data {index : Nat} {word : Word} (stored : words[index]? = some word) :
    (ItemState.boot (code ++ words.map dataItem)).store ((codeWords code).length + index) =
      word := by
  simp only [ItemState.boot, codeWords_data, List.getD_eq_getElem?_getD,
    List.getElem?_append_right (Nat.le_add_right _ _), Nat.add_sub_cancel_left, stored,
    Option.getD_some]

theorem inCode_data (offset : Nat) :
    inCode (codeLayout (code ++ words.map dataItem)) ((codeWords code).length + offset) =
      false := by
  have values : inCode (codeLayout (words.map dataItem)) offset = false := by
    induction words generalizing offset with
    | nil => rfl
    | cons word words ih =>
        simp only [codeLayout, List.map_cons, inCode] at ih ⊢
        split
        · rfl
        · exact ih _
  induction code with
  | nil => simpa [codeWords] using values
  | cons item code ih =>
      have size : (codeWords (item :: code)).length =
          item.words.length + (codeWords code).length := by
        simp [codeWords]
      simp only [codeLayout, List.cons_append, List.map_cons, inCode] at ih ⊢
      rw [size, if_neg (by omega), ← ih]
      congr 1
      omega

end Data

section Transfer

variable {Ctx : Type} {items : List Item}

/-- A program that does not go wrong and the emulator on its image go on together. -/
theorem image_matches (observe : TraceEvent → Vm → Ctx → Ctx) (ctx : Ctx)
    (fits : (codeWords items).length ≤ memWords) (count : Nat)
    (sound : ∀ last, iterate (itemStep items) count (.boot items) ≠ .stopped .wrong last) :
    (iterate (itemStep items) count (.boot items)).Matches
      (fun reason stop => reason = .halted ∧ stop = .returned 0) (Realizes items)
      (vmExec (observing observe) count
        { vm := ⟨Cpu.zero, loadImage (wordBytes (codeWords items))⟩, ctx, out := [] }) :=
  run_matches (realizes_boot fits _ rfl rfl rfl) count sound

theorem image_halts (observe : TraceEvent → Vm → Ctx → Ctx) (ctx : Ctx)
    (fits : (codeWords items).length ≤ memWords) {holds : ItemState → Prop}
    (halts : Stops (itemStep items) (· = .boot items) fun reason last =>
      reason = .halted ∧ holds last) :
    ∃ start count last final, sigma16VmInit (wordBytes (codeWords items)) = .ok start ∧
      vmExec (observing observe) count { vm := start, ctx, out := [] } =
        .stopped (.returned 0) final ∧
      holds last ∧ Realizes items last final := by
  obtain ⟨count, reason, last, run, rfl, done⟩ := halts _ rfl
  have sound : ∀ wrong, iterate (itemStep items) count (.boot items) ≠ .stopped .wrong wrong := by
    intro wrong same
    cases run.symm.trans same
  have matched := image_matches observe ctx fits count sound
  rw [run] at matched
  obtain ⟨_, final, stopped, ⟨_, rfl⟩, real⟩ := matched.of_stopped
  exact ⟨_, count, last, final, image_loads fits, stopped, done, real⟩

end Transfer

end Sigma16

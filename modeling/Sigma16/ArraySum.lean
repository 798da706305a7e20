import Sigma16.ItemRules

/-!
The test program `array_sum.bin`, for any array: its loop reads the words behind the
program in order and leaves their sum in front of them.
-/

namespace Sigma16

open Words Transition

def sumCode : List Item :=
  [rxItem 0 1 0 1, rxItem 1 2 0 0x12, rrrItem 0 4 0 0, rrrItem 0 3 0 0,
   rrrItem 4 0 3 2, rxItem 4 3 0 0x0f, rxItem 1 5 3 0x14, rrrItem 0 4 4 5, rrrItem 0 3 3 1,
   rxItem 3 0 0 6, rxItem 2 4 0 0x13, rrrItem 13 0 0 0]

def sumData (values : List Word) : List Word := BitVec.ofNat 16 values.length :: 0 :: values

def sumItems (values : List Word) : List Item := sumCode ++ (sumData values).map dataItem

def wordSum (values : List Word) : Word := BitVec.ofNat 16 (values.map BitVec.toNat).sum

theorem wordSum_take {values : List Word} {index : Nat} {value : Word}
    (stored : values[index]? = some value) :
    wordSum (values.take (index + 1)) = wordSum (values.take index) + value := by
  rw [wordSum, wordSum, List.take_add_one, stored, Option.toList_some, List.map_append,
    List.sum_append, BitVec.ofNat_add]
  simp

section Running

variable {values : List Word} {s : ItemState} {done : Nat}

theorem sum_at (values : List Word) {index : Nat} {item : Item}
    (stored : sumCode[index]? = some item) : (sumItems values)[index]? = some item :=
  code_at (sumData values) stored

/-- The state in front of a turn of the loop: R3 elements are summed up in R4. -/
structure Summing (values : List Word) (done : Nat) (s : ItemState) : Prop where
  index : s.index = 4
  zero : s.regs 0 = 0
  one : s.regs 1 = 1
  size : s.regs 2 = BitVec.ofNat 16 values.length
  position : s.regs 3 = BitVec.ofNat 16 done
  sum : s.regs 4 = wordSum (values.take done)
  store : s.store = (ItemState.boot (sumItems values)).store
  out : s.out = []

theorem sum_setup : ∃ s, Reaches (itemStep (sumItems values)) (.boot (sumItems values)) s ∧
    Summing values 0 s := by
  let boot := ItemState.boot (sumItems values)
  have size : boot.store 0x12 = BitVec.ofNat 16 values.length :=
    @boot_data sumCode (sumData values) 0 _ rfl
  have start : boot.index = 0 := rfl
  obtain ⟨s₁, lea, one⟩ := exec_lea start (sum_at values rfl) (by decide)
  have zero₁ : s₁.regs 0 = 0 := one.others 0 (by decide) (by decide)
  obtain ⟨s₂, load, length⟩ := exec_load one.index (sum_at values rfl) (by decide)
    (zero_based zero₁ 0x12) (by decide)
  have zero₂ : s₂.regs 0 = 0 := (length.others 0 (by decide) (by decide)).trans zero₁
  obtain ⟨s₃, clear, sum⟩ := exec_rrr .doAdd length.index (sum_at values rfl) rfl
    (by decide) (by decide) (by decide)
  have zero₃ : s₃.regs 0 = 0 := (sum.others 0 (by decide) (by decide)).trans zero₂
  obtain ⟨s₄, reset, position⟩ := exec_rrr .doAdd sum.index (sum_at values rfl) rfl
    (by decide) (by decide) (by decide)
  refine ⟨s₄, .head lea (.head load (.head clear (.head reset (.refl s₄)))), position.index,
    ?_, ?_, ?_, ?_, ?_, ?_, ?_⟩
  · exact (position.others 0 (by decide) (by decide)).trans zero₃
  · simp (disch := decide) only [position.others, sum.others, length.others, one.value]
    rfl
  · simp (disch := decide) only [position.others, sum.others, length.value, one.store]
    exact size
  · rw [position.value, zero₃]
    rfl
  · rw [position.others 4 (by decide) (by decide), sum.value, zero₂]
    rfl
  · rw [position.store, sum.store, length.store, one.store]
  · rw [position.out, sum.out, length.out, one.out]
    rfl

theorem toInt_small {number : Nat} (bound : number ≤ 32767) :
    (BitVec.ofNat 16 number).toInt = number := by
  have same : (BitVec.ofNat 16 number).toNat = number := Nat.mod_eq_of_lt (by omega)
  rw [BitVec.toInt_eq_toNat_of_lt (by omega), same]

theorem sum_test (bound : values.length ≤ 32767) (inv : Summing values done s)
    (inside : done ≤ values.length) : ∃ next, Reaches (itemStep (sumItems values)) s next ∧
      next.index = (if done < values.length then 6 else 10) ∧
      (∀ reg, reg ≠ 15 → next.regs reg = s.regs reg) ∧ next.store = s.store ∧
      next.out = s.out := by
  obtain ⟨s₁, cmp, flags⟩ := exec_cmp inv.index (sum_at values rfl)
  have less : Flag.l.relates (withStatus s.regs 0 3) (withStatus s.regs 0 2) =
      decide (done < values.length) := by
    rw [withStatus_of_ne (by decide), withStatus_of_ne (by decide), inv.position, inv.size,
      Flag.relates, BitVec.slt, toInt_small (by omega), toInt_small bound]
    simp only [Int.ofNat_lt]
  have zero₁ : s₁.regs 0 = 0 := (flags.others 0 (by decide) (by decide)).trans inv.zero
  obtain ⟨s₂, branch, moved⟩ := exec_jumpc0 flags.index (sum_at values rfl) flags.value .l rfl
    (zero_based zero₁ 0x0f) rfl
  refine ⟨s₂, .head cmp (.head branch (.refl s₂)), ?_, ?_, ?_, ?_⟩
  · rw [moved.index, less]
    simp only [decide_eq_true_eq]
  · intro reg notStatus
    rw [moved.regs, flags.others reg notStatus notStatus]
  · rw [moved.store, flags.store]
  · rw [moved.out, flags.out]

theorem sum_element {value : Word} (stored : values[done]? = some value) :
    (ItemState.boot (sumItems values)).store (0x14 + done) = value := by
  have data : (sumData values)[done + 2]? = some value := stored
  have placed := @boot_data sumCode (sumData values) (done + 2) value data
  have address : (codeWords sumCode).length + (done + 2) = 0x14 + done := by
    have size : (codeWords sumCode).length = 0x12 := rfl
    omega
  rw [← address]
  exact placed

theorem sum_turn (fits : 0x14 + values.length ≤ memWords) (inv : Summing values done s)
    (more : done < values.length) :
    ∃ next, Reaches (itemStep (sumItems values)) s next ∧ Summing values (done + 1) next := by
  have bounds : memWords = 32768 := rfl
  obtain ⟨value, stored⟩ : ∃ value, values[done]? = some value :=
    ⟨_, List.getElem?_eq_getElem more⟩
  obtain ⟨s₂, test, straight, same, store₂, out₂⟩ := sum_test (by omega) inv (by omega)
  rw [if_pos more] at straight
  have address : (s₂.regs 3 + 0x14).toNat = 0x14 + done := by
    rw [same 3 (by decide), inv.position, BitVec.toNat_add, BitVec.toNat_ofNat]
    have offset : (0x14 : Word).toNat = 0x14 := rfl
    omega
  obtain ⟨s₃, load, element⟩ := exec_load straight (sum_at values rfl) (by decide) address
    (by omega)
  obtain ⟨s₄, add, sum⟩ := exec_rrr .doAdd element.index (sum_at values rfl) rfl
    (by decide) (by decide) (by decide)
  obtain ⟨s₅, count, position⟩ := exec_rrr .doAdd sum.index (sum_at values rfl) rfl
    (by decide) (by decide) (by decide)
  have kept : ∀ reg, reg ≠ 3 → reg ≠ 4 → reg ≠ 5 → reg ≠ 15 → s₅.regs reg = s.regs reg := by
    intro reg not3 not4 not5 not15
    rw [position.others reg not3 not15, sum.others reg not4 not15, element.others reg not5 not15,
      same reg not15]
  have zero : s₅.regs 0 = 0 :=
    (kept 0 (by decide) (by decide) (by decide) (by decide)).trans inv.zero
  obtain ⟨s₆, jump, moved⟩ := exec_jump position.index (sum_at values rfl)
    (zero_based zero 6) rfl
  refine ⟨s₆, test.trans (.head load (.head add (.head count (.head jump (.refl s₆))))),
    moved.index, ?_, ?_, ?_, ?_, ?_, ?_, ?_⟩
  · rw [moved.regs, zero]
  · rw [moved.regs, kept 1 (by decide) (by decide) (by decide) (by decide), inv.one]
  · rw [moved.regs, kept 2 (by decide) (by decide) (by decide) (by decide), inv.size]
  · rw [moved.regs, position.value]
    simp (disch := decide) only [sum.others, element.others, same, inv.position, inv.one]
    exact (BitVec.ofNat_add _ _).symm
  · have loaded : s₃.regs 5 = value := by
      rw [element.value, store₂, inv.store, sum_element stored]
    rw [moved.regs, position.others 4 (by decide) (by decide), sum.value,
      element.others 4 (by decide) (by decide), same 4 (by decide), inv.sum, loaded,
      wordSum_take stored]
    rfl
  · rw [moved.store, position.store, sum.store, element.store, store₂, inv.store]
  · rw [moved.out, position.out, sum.out, element.out, out₂, inv.out]

def Summed (values : List Word) (last : ItemState) : Prop :=
  last.store = Function.update (ItemState.boot (sumItems values)).store 0x13 (wordSum values) ∧
    last.out = []

theorem sum_exit (fits : 0x14 + values.length ≤ memWords)
    (inv : Summing values values.length s) :
    ∃ last, Reaches (itemStep (sumItems values)) s last ∧ last.index = 11 ∧ last.regs 0 = 0 ∧
      Summed values last := by
  have bounds : memWords = 32768 := rfl
  obtain ⟨s₂, test, leaves, same, store₂, out₂⟩ := sum_test (by omega) inv (le_refl _)
  rw [if_neg (lt_irrefl _)] at leaves
  have zero : s₂.regs 0 = 0 := (same 0 (by decide)).trans inv.zero
  have outside : inCode (codeLayout (sumItems values)) 0x13 = false :=
    inCode_data sumCode (sumData values) 1
  obtain ⟨last, store, stored⟩ := exec_store leaves (sum_at values rfl) (zero_based zero 0x13)
    (by decide) outside
  refine ⟨last, test.trans (.head store (.refl last)), stored.index, ?_, ?_, ?_⟩
  · rw [stored.regs, zero]
  · rw [stored.store, store₂, inv.store, same 4 (by decide), inv.sum, List.take_length]
    rfl
  · rw [stored.out, out₂, inv.out]

theorem sum_halts (fits : 0x14 + values.length ≤ memWords) :
    Stops (itemStep (sumItems values)) (· = .boot (sumItems values)) fun reason last =>
      reason = .halted ∧ Summed values last := by
  have setup : Leads (itemStep (sumItems values)) (· = .boot (sumItems values))
      (fun s => ∃ done, done + values.length = values.length ∧ Summing values done s) := by
    rintro _ rfl
    obtain ⟨s, run, inv⟩ := @sum_setup values
    exact ⟨s, run, 0, Nat.zero_add _, inv⟩
  -- the elements left are the turns left
  have loop := @Leads.countdown _ _ (itemStep (sumItems values))
    (fun left s => ∃ done, done + left = values.length ∧ Summing values done s)
    (fun left s ⟨done, turns, inv⟩ => by
      obtain ⟨next, run, summed⟩ := sum_turn fits inv (by omega)
      exact ⟨next, run, done + 1, by omega, summed⟩) values.length
  have exit : Leads (itemStep (sumItems values))
      (fun s => ∃ done, done + 0 = values.length ∧ Summing values done s)
      (fun last => last.index = 11 ∧ last.regs 0 = 0 ∧ Summed values last) := by
    rintro s ⟨done, rfl, inv⟩
    exact sum_exit fits inv
  refine (setup.trans (loop.trans exit)).stops fun last ⟨index, zero, summed⟩ => ?_
  exact ⟨.halted, last, step_halt (by rw [index]; exact sum_at values rfl) zero, rfl, summed⟩

end Running

/-- The program on an array of any length that fits: it halts with the sum of the array in the
word at 0x13, and every other word of the memory as it was loaded. -/
theorem array_sum {Ctx : Type} (observe : TraceEvent → Vm → Ctx → Ctx) (ctx : Ctx)
    {values : List Word} (fits : 0x14 + values.length ≤ memWords) :
    ∃ start count final, sigma16VmInit (wordBytes (codeWords (sumItems values))) = .ok start ∧
      vmExec (observing observe) count { vm := start, ctx, out := [] } =
        .stopped (.returned 0) final ∧
      readMem final.vm 0x13 = .ok (wordSum values) ∧
      (∀ addr : Word, addr.toNat < memWords → addr ≠ 0x13 →
        readMem final.vm addr = .ok ((codeWords (sumItems values)).getD addr.toNat 0)) ∧
      final.out = [] := by
  have size : (codeWords (sumItems values)).length ≤ memWords := by
    have length : (codeWords sumCode).length = 0x12 := rfl
    rw [sumItems, codeWords_data, List.length_append, length, sumData]
    simp only [List.length_cons]
    omega
  obtain ⟨start, count, last, final, loaded, run, ⟨store, silent⟩, real⟩ :=
    image_halts observe ctx size (sum_halts fits)
  refine ⟨start, count, final, loaded, run, ?_, fun addr mapped other => ?_,
    real.out.trans silent⟩
  · rw [real.read (by decide), store]
    exact congrArg Except.ok (Function.update_self _ _ _)
  · rw [real.read mapped, store]
    refine congrArg Except.ok (Function.update_of_ne ?_ _ _)
    rintro same
    exact other (BitVec.eq_of_toNat_eq same)

theorem array_sum_test : ∃ start count final,
    sigma16VmInit [0xF1, 0x00, 0x00, 0x01, 0xF2, 0x01, 0x00, 0x12, 0x04, 0x00, 0x03, 0x00, 0x40,
      0x32, 0xF3, 0x04, 0x00, 0x0F, 0xF5, 0x31, 0x00, 0x14, 0x04, 0x45, 0x03, 0x31, 0xF0, 0x03,
      0x00, 0x06, 0xF4, 0x02, 0x00, 0x13, 0xD0, 0x00, 0x00, 0x06, 0x00, 0x00, 0x00, 0x12, 0xFF,
      0xDF, 0x00, 0x15, 0xFF, 0xFE, 0x00, 0x28, 0x00, 0x19] = .ok start ∧
    vmExec (observing fun _ _ ctx => ctx) count { vm := start, ctx := (), out := [] } =
      .stopped (.returned 0) final ∧ readMem final.vm 0x13 = .ok 0x45 := by
  obtain ⟨start, count, final, loaded, run, sum, _⟩ := @array_sum Unit (fun _ _ ctx => ctx) ()
    [0x12, 0xFFDF, 0x15, 0xFFFE, 0x28, 0x19] (by decide)
  exact ⟨start, count, final, loaded, run, sum⟩

end Sigma16

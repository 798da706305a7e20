import Sigma16.AssemblerRange
import Sigma16.ItemSimulation

/-!
The assembler as a compiler. A parsed source is a program in its own right, in which a
label is a place in the program; the emulator on the file `main` writes simulates it.
-/

namespace Sigma16

open PyText Words Transition Fallible

def Obj.isInst : Obj → Bool
  | .num _ => false
  | _ => true

def objLayout (objs : List Obj) : Layout := objs.map fun obj => (sizeof obj, obj.isInst)

/-- A number displaces the base register. A label stands for the address of what follows
it, and control goes there by name when the base is R0. -/
def Linker.operand (linker : Linker) (sa : Register) : Disp → Option Operand
  | .int value => some {
      address := fun regs => regs sa + BitVec.ofInt 16 value
      target := fun regs =>
        locate (objLayout linker.objs) (regs sa + BitVec.ofInt 16 value).toNat }
  | .ident name => (linker.labels.lookup name).map fun body =>
      let offset := BitVec.ofNat 16 (wordsBefore linker.objs body.objOffset)
      { address := fun regs => regs sa + offset
        target := fun regs =>
          if sa = 0 then some body.objOffset
          else locate (objLayout linker.objs) (regs sa + offset).toNat }

def sourceStep (linker : Linker) (s : ItemState) : Outcome ItemStop ItemState :=
  match linker.objs[s.index]? with
  | some (.rrr opcode d sa sb) =>
      s.runRrr (Label.rrrLabels.getD opcode.toNat .doBadOp) d sa sb
  | some (.rx opcode (.reg d) sa disp) => match linker.operand sa disp with
      | some operand =>
          s.runRx (objLayout linker.objs) (BitVec.ofNat 16 (wordsBefore linker.objs (s.index + 1)))
            (Label.rxLabels.getD opcode.toNat .doBadOp) d operand
      | none => .stopped .wrong s
  | _ => .stopped .wrong s

def ItemState.load (executable : List Byte) : ItemState where
  index := 0
  regs _ := 0
  store addr := executable.getD (2 * addr) 0 ++ executable.getD (2 * addr + 1) 0
  out := []

structure Follows {Ctx : Type} (linker : Linker) (s : ItemState) (m : Machine Ctx) : Prop where
  pc : m.vm.cpu.pc.toNat = wordsBefore linker.objs s.index
  regs : m.vm.cpu.regs = s.regs
  store : ∀ addr : Word, addr.toNat < memWords → readMem m.vm addr = .ok (s.store addr.toNat)
  out : m.out = s.out

section Zero

variable {regs : Nibble → Word} {d : Register} {val : Word}

theorem put_zero : put regs d val 0 = regs 0 := by
  unfold put
  split
  · rfl
  · rename_i nonzero
    exact Function.update_of_ne (Ne.symm nonzero) _ _

theorem withStatus_zero : withStatus regs val 0 = regs 0 :=
  Function.update_of_ne (by decide) _ _

theorem Label.registers_zero (label : Label) (d sa sb : Register) (regs : Nibble → Word) :
    label.registers d sa sb regs 0 = regs 0 := by
  cases label
  case doDiv =>
    simp only [registers]
    split
    · rfl
    · split
      · exact put_zero
      · rw [withStatus_zero, put_zero]
  all_goals simp only [registers, withStatus_zero, put_zero]

variable {s next : ItemState} {parts : Layout} {back : Word} {label : Label} {operand : Operand}

theorem branch_zero {taken : Bool} {target : Option Nat}
    (run : s.branch taken target = .running next) : next.regs = s.regs := by
  cases taken with
  | false =>
      obtain rfl := Outcome.running.inj run
      rfl
  | true => cases target with
    | none => cases run
    | some index =>
        obtain rfl := Outcome.running.inj run
        rfl

theorem runRrr_zero {sa sb : Register} (run : s.runRrr label d sa sb = .running next) :
    next.regs 0 = s.regs 0 := by
  unfold ItemState.runRrr ItemState.trap at run
  split at run
  · split at run
    · cases run
    · split at run
      · split at run
        · obtain rfl := Outcome.running.inj run
          exact Label.doTrap.registers_zero d sa sb s.regs
        · cases run
      · obtain rfl := Outcome.running.inj run
        exact Label.doTrap.registers_zero d sa sb s.regs
  · obtain rfl := Outcome.running.inj run
    exact label.registers_zero d sa sb s.regs

theorem runRx_zero (run : s.runRx parts back label d operand = .running next) :
    next.regs 0 = s.regs 0 := by
  cases label
  case doLea =>
    obtain rfl := Outcome.running.inj run
    exact put_zero
  case doLoad =>
    simp only [ItemState.runRx] at run
    split at run
    · obtain rfl := Outcome.running.inj run
      rfl
    · split at run
      · obtain rfl := Outcome.running.inj run
        exact put_zero
      · cases run
  case doStore =>
    simp only [ItemState.runRx] at run
    split at run
    · obtain rfl := Outcome.running.inj run
      rfl
    · cases run
  case doJump | doJumpc0 | doJumpc1 | doJumpf | doJumpt => exact congrFun (branch_zero run) 0
  case doJal => exact (congrFun (branch_zero run) 0).trans put_zero
  all_goals cases run

theorem itemStep_zero {items : List Item} (run : itemStep items s = .running next) :
    next.regs 0 = s.regs 0 := by
  unfold itemStep at run
  split at run
  · exact runRrr_zero run
  · exact runRx_zero run
  · cases run

theorem runRx_congr {other : Operand} (zero : s.regs 0 = 0)
    (address : operand.address = other.address)
    (target : ∀ regs : Nibble → Word, regs 0 = 0 → operand.target regs = other.target regs) :
    s.runRx parts back label d operand = s.runRx parts back label d other := by
  have here := target s.regs zero
  have linked := target (put s.regs d back) (put_zero.trans zero)
  cases label <;> simp only [ItemState.runRx, address, here, linked]

end Zero

section Linking

variable {lines : List Str} {state : ParseState} {linked : Linker} {items : List Item}

theorem locate_itemOffset {index : Nat} (bound : index ≤ items.length) :
    locate (codeLayout items) (itemOffset items index) = some index := by
  induction items generalizing index with
  | nil =>
      obtain rfl := Nat.le_zero.mp bound
      rfl
  | cons item items ih =>
      cases index with
      | zero => rfl
      | succ index =>
          have rest := ih (Nat.le_of_succ_le_succ bound)
          have positive := item.length_words_pos
          rw [itemOffset_cons]
          simp only [codeLayout, List.map_cons, locate] at rest ⊢
          rw [if_neg (by omega), if_neg (by omega), Nat.add_sub_cancel_left, rest]
          rfl

theorem wordsBefore_items (items : List Item) (count : Nat) :
    wordsBefore (items.map Item.obj) count = itemOffset items count :=
  (itemOffset_eq items count).symm

theorem sizeof_isInst_linkObj {labels : LabelMapping} {obj linkedObj : Obj}
    (resolved : linkObj labels obj = .ok linkedObj) :
    (sizeof linkedObj, linkedObj.isInst) = (sizeof obj, obj.isInst) := by
  unfold linkObj at resolved
  split at resolved
  · split at resolved
    · obtain rfl := Except.ok.inj resolved
      rfl
    · cases resolved
  · obtain rfl := Except.ok.inj resolved
    rfl

theorem Item.isInst_obj (item : Item) : item.obj.isInst = item.isInst := by
  cases item <;> rfl

theorem objLayout_link (success : link state.linker = .ok linked)
    (made : linked.objs = items.map Item.obj) :
    objLayout state.linker.objs = codeLayout items := by
  have same : objLayout linked.objs = objLayout state.linker.objs := by
    have related := mapM_eq_ok.mp (link_eq_ok success).2
    generalize state.linker.objs = objs, linked.objs = linkedObjs at related
    induction related with
    | nil => rfl
    | cons first _ ih =>
        simp only [objLayout, List.map_cons] at ih ⊢
        rw [sizeof_isInst_linkObj first, ih]
  rw [← same, made, objLayout, codeLayout, List.map_map]
  refine List.map_congr_left fun item _ => ?_
  rw [Function.comp, item.isInst_obj, item.length_words]

theorem itemOffset_link (success : link state.linker = .ok linked)
    (made : linked.objs = items.map Item.obj) (count : Nat) :
    itemOffset items count = wordsBefore state.linker.objs count := by
  rw [← link_wordsBefore success, made, wordsBefore_items]

theorem operand_link (formed : state.WellFormed) (success : link state.linker = .ok linked)
    (made : linked.objs = items.map Item.obj) {sa : Register} {disp : Disp} {value : Signed16}
    (resolved : linkObj linked.labels (.rx 0 (.reg 0) sa disp) =
      .ok (.rx 0 (.reg 0) sa (.int value.val))) :
    ∃ operand, state.linker.operand sa disp = some operand ∧
      operand.address = (itemOperand items sa value.word).address ∧
      ∀ regs : Nibble → Word, regs 0 = 0 →
        operand.target regs = (itemOperand items sa value.word).target regs := by
  have parts := objLayout_link success made
  cases disp with
  | int number =>
      obtain rfl : number = value.val := by
        simpa [linkObj] using resolved
      refine ⟨_, rfl, rfl, fun regs _ => ?_⟩
      simp only [itemOperand, Signed16.word, parts]
  | ident name =>
      obtain ⟨body, found, same⟩ := linkObj_ident.mp resolved
      rw [link_lookup formed success] at found
      obtain ⟨placed, known, rfl⟩ := Option.map_eq_some_iff.mp found
      have offset : (wordsBefore state.linker.objs placed.objOffset : Int) = value.val := by
        simpa [LabelBody.located] using same
      have word : BitVec.ofNat 16 (wordsBefore state.linker.objs placed.objOffset) =
          value.word := by
        rw [Signed16.word, ← offset, BitVec.ofInt_natCast]
      refine ⟨_, by rw [Linker.operand, known, Option.map_some], ?_, fun regs zero => ?_⟩
      · simp only [itemOperand, word]
      · simp only [itemOperand, word, parts]
        split
        · rename_i base
          -- base R0: the address is the label's, and `locate` comes back to its object
          have bounded : placed.objOffset ≤ items.length := by
            have inside : placed.objOffset ≤ state.linker.objs.length :=
              formed.bounded (name, placed) (mem_of_lookup known)
            have length := congrArg List.length parts
            simp only [objLayout, codeLayout, List.length_map] at length
            omega
          have address : (regs sa + value.word).toNat = itemOffset items placed.objOffset := by
            have range := value.property
            have number := value.toNat_word
            have sum : (0 : Word) + value.word = value.word := BitVec.zero_add _
            rw [base, zero, sum, itemOffset_link success made]
            omega
          rw [address, locate_itemOffset bounded]
        · rfl

theorem sourceStep_eq (formed : state.WellFormed) (success : link state.linker = .ok linked)
    (made : linked.objs = items.map Item.obj) {s : ItemState} (zero : s.regs 0 = 0) :
    sourceStep state.linker s = itemStep items s := by
  have mapped := (link_eq_ok success).2
  rw [made] at mapped
  unfold sourceStep itemStep
  cases stored : state.linker.objs[s.index]? with
  | none =>
      have short : items[s.index]? = none := by
        have length := congrArg List.length (objLayout_link success made)
        simp only [objLayout, codeLayout, List.length_map] at length
        rw [List.getElem?_eq_none_iff] at stored ⊢
        omega
      rw [short]
  | some obj =>
      obtain ⟨linkedObj, found, resolved⟩ := mapM_at mapped stored
      rw [List.getElem?_map] at found
      obtain ⟨item, placed, rfl⟩ := Option.map_eq_some_iff.mp found
      rw [placed]
      cases obj with
      | num value =>
          cases item with
          | data number => rfl
          | rrr op d sa sb => cases resolved
          | rx op d sa disp => cases resolved
      | rrr opcode d sa sb =>
          cases item with
          | rrr op d' sa' sb' =>
              obtain ⟨rfl, rfl, rfl, rfl⟩ : opcode = op.val ∧ d = d' ∧ sa = sa' ∧ sb = sb' := by
                simpa [linkObj, Item.obj] using resolved
              rfl
          | data number => cases resolved
          | rx op d' sa' disp => cases resolved
      | rx opcode d sa disp =>
          -- linking puts a number for a label and keeps the other fields
          have kept : ∃ value, item.obj = .rx opcode d sa (.int value) ∧
              linkObj linked.labels (.rx 0 (.reg 0) sa disp) =
                .ok (.rx 0 (.reg 0) sa (.int value)) := by
            cases disp with
            | int number =>
                exact ⟨number, (Except.ok.inj resolved).symm, rfl⟩
            | ident name =>
                obtain ⟨body, known, same⟩ := linkObj_ident.mp resolved
                exact ⟨_, same.symm, linkObj_ident.mpr ⟨body, known, rfl⟩⟩
          obtain ⟨value, same, unlinked⟩ := kept
          cases item with
          | data number => cases same
          | rrr op d' sa' sb' => cases same
          | rx op d' sa' disp' =>
              obtain ⟨rfl, rfl, rfl, rfl⟩ : opcode = op.val ∧ d = .reg d' ∧ sa = sa' ∧
                  value = disp'.val := by
                simpa [Item.obj, eq_comm] using same
              obtain ⟨operand, known, address, target⟩ :=
                operand_link formed success made unlinked
              simp only [known, ItemState.runItemRx, objLayout_link success made,
                itemOffset_link success made]
              exact runRx_congr zero address target

theorem main_items {code : List Byte} (written : assemblerMain lines = ⟨some code, none⟩)
    (parsed : parseLines lines = .ok state) : ∃ linked items, link state.linker = .ok linked ∧
      linked.objs = items.map Item.obj ∧ code = wordBytes (codeWords items) := by
  cases success : link state.linker with
  | error error => simp [assemblerMain, parsed, success] at written
  | ok linked =>
      rw [assemblerMain_linked parsed success] at written
      obtain ⟨bytes, complete⟩ := MainEnd.mk.inj written
      have packs := writeCode_completes.mp complete
      obtain ⟨items, made⟩ := @items_of_packable linked.objs fun obj member => by
        obtain ⟨chunk, encoded⟩ := packs obj member
        exact ⟨packable_of_encoded parsed success member encoded,
          resolved_of_linked success member⟩
      refine ⟨linked, items, rfl, made, ?_⟩
      rw [made, writeCode_items] at bytes
      exact (Option.some.inj bytes).symm

theorem load_items (items : List Item) :
    ItemState.load (wordBytes (codeWords items)) = ItemState.boot items := by
  have words : (fun addr => (wordBytes (codeWords items)).getD (2 * addr) 0 ++
      (wordBytes (codeWords items)).getD (2 * addr + 1) 0 : Nat → Word) =
      fun addr => (codeWords items).getD addr 0 := by
    funext addr
    simp only [List.getD_eq_getElem?_getD, wordBytes_even, wordBytes_odd]
    cases (codeWords items)[addr]? with
    | none => rfl
    | some word => exact highByte_append_lowByte word
  rw [ItemState.load, ItemState.boot, words]

end Linking

/-- What a source means is what the emulator does with the file it is assembled to: their runs
go on together and halt together, at the same object, with the same registers, store and output,
for as long as the source does not go wrong. -/
theorem assembler_simulation {Ctx : Type} {lines : List Str} {state : ParseState}
    {code : List Byte} (parsed : parseLines lines = .ok state)
    (written : assemblerMain lines = ⟨some code, none⟩) (fits : code.length ≤ memBytes)
    (observe : TraceEvent → Vm → Ctx → Ctx) (ctx : Ctx) (count : Nat)
    (sound : ∀ last, iterate (sourceStep state.linker) count (.load code) ≠ .stopped .wrong last) :
    ∃ start, sigma16VmInit code = .ok start ∧
      (iterate (sourceStep state.linker) count (.load code)).Matches
        (fun reason stop => reason = .halted ∧ stop = .returned 0) (Follows state.linker)
        (vmExec (observing observe) count { vm := start, ctx, out := [] }) := by
  have formed := parseLines_wellFormed parsed
  obtain ⟨linked, items, success, made, rfl⟩ := main_items written parsed
  rw [load_items] at sound ⊢
  have same : iterate (sourceStep state.linker) count (.boot items) =
      iterate (itemStep items) count (.boot items) := by
    have zero : (ItemState.boot items).regs 0 = 0 := rfl
    exact @iterate_congr _ _ (itemStep items) (sourceStep state.linker) (fun s => s.regs 0 = 0)
      (fun s zero => sourceStep_eq formed success made zero)
      (fun s next zero run => (itemStep_zero run).trans zero) count _ zero
  rw [same] at sound ⊢
  have words : (codeWords items).length ≤ memWords := by
    rw [length_wordBytes] at fits
    simp only [memWords]
    omega
  refine ⟨_, image_loads words,
    (run_matches (realizes_boot words _ rfl rfl rfl) count sound).mono fun s m real => ?_⟩
  exact ⟨real.pc.trans (itemOffset_link success made s.index), real.regs,
    fun addr mapped => real.read mapped, real.out⟩

theorem assembler_simulation_jump :
    ∃ code start last, assemblerMain
        ["jump end[R0]".toList, "data 7".toList, "end:".toList, "trap R0,R0,R0".toList] =
        ⟨some code, none⟩ ∧ sigma16VmInit code = .ok start ∧
      vmExec (observing fun _ _ ctx => ctx) 2 { vm := start, ctx := (), out := [] } =
        .stopped (.returned 0) last ∧ last.vm.cpu.pc = 3 := by
  have parsed : parseLines
      ["jump end[R0]".toList, "data 7".toList, "end:".toList, "trap R0,R0,R0".toList] =
      .ok ⟨⟨[.rx 3 (.reg 0) 0 (.ident "END".toList), .num 7, .rrr 13 0 0 0],
        [("END".toList, ⟨2, 0⟩)]⟩, 3, []⟩ := by
    decide +kernel
  have written : assemblerMain
      ["jump end[R0]".toList, "data 7".toList, "end:".toList, "trap R0,R0,R0".toList] =
      ⟨some [0xF0, 0x03, 0x00, 0x03, 0x00, 0x07, 0xD0, 0x00], none⟩ := by
    decide +kernel
  have halts : ∃ last, iterate (sourceStep ⟨[.rx 3 (.reg 0) 0 (.ident "END".toList), .num 7,
      .rrr 13 0 0 0], [("END".toList, ⟨2, 0⟩)]⟩) 2
        (.load [0xF0, 0x03, 0x00, 0x03, 0x00, 0x07, 0xD0, 0x00]) = .stopped .halted last ∧
      last.index = 2 := by
    refine ⟨_, rfl, rfl⟩
  obtain ⟨last, halts, index⟩ := halts
  obtain ⟨start, loaded, matched⟩ := assembler_simulation parsed written (by decide)
    (fun _ _ ctx => ctx) () 2 (by rw [halts]; simp)
  rw [halts] at matched
  obtain ⟨_, final, run, ⟨_, rfl⟩, follows⟩ := matched.of_stopped
  refine ⟨_, start, final, written, loaded, run, ?_⟩
  have position := follows.pc
  rw [index] at position
  exact BitVec.eq_of_toNat_eq position

end Sigma16

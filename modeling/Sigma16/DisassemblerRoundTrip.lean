import Mathlib.Data.Fintype.Basic
import Sigma16.Disassembler
import Sigma16.InstFormat

/-!
Disassembling what the assembler wrote: one entry for each instruction, with its
fields, its name and the offset behind it.
-/

namespace Sigma16

open PyText Words

def Item.Shows (shown : DisInst) (item : Item) : Prop :=
  match item with
  | rrr op d sa sb => ∃ name, item.Listed name ∧
      shown = .rrr op.val (name.map Char.toLower) d sa sb
  | rx op d sa disp => ∃ name, item.Listed name ∧
      shown = .rx 15 (name.map Char.toLower) d sa (BitVec.ofNat 4 op) (disp.val % 2 ^ 16).toNat
  | data _ => False

section Fields

theorem splitByte_nibbles : ∀ high low : Nibble,
    splitByte (high ++ low) = (low.toNat, high.toNat) := by
  decide

theorem splitByte_high (op d sa sb : Nibble) :
    splitByte (highByte (Item.headWord op d sa sb)) = (d.toNat, op.toNat) := by
  rw [Item.headWord, highByte_append]
  exact splitByte_nibbles op d

theorem splitByte_low (op d sa sb : Nibble) :
    splitByte (lowByte (Item.headWord op d sa sb)) = (sb.toNat, sa.toNat) := by
  rw [Item.headWord, lowByte_append]
  exact splitByte_nibbles sa sb

theorem registerOf_toNat (register : Nibble) : registerOf register.toNat = .ok register := by
  simp [registerOf, register.isLt]

theorem rrrInstructions_listed : ∀ op : Fin 14, ∃ entry ∈ instructions,
    entry.2.1 = (op.val : Int) ∧ (entry.2.2 = .rrr ∨ entry.2.2 = .pseudo) ∧
      rrrInstructions[op.val]? = some (entry.1.map Char.toLower) := by
  decide

theorem rxInstructions_listed : ∀ op : Fin 9, ∃ entry ∈ instructions,
    entry.2.1 = (op.val : Int) ∧ entry.2.2 = .rx ∧
      rxInstructions[op.val]? = some (entry.1.map Char.toLower) := by
  decide

theorem byteAt_append {before : List Byte} {byte : Byte} {after : List Byte} :
    byteAt (before ++ byte :: after) before.length = .ok byte := by
  simp [byteAt]

theorem byteAt_append_succ {before : List Byte} {first second : Byte} {after : List Byte} :
    byteAt (before ++ first :: second :: after) (before.length + 1) = .ok second := by
  simp [byteAt]

theorem slice_append {before after : List Byte} {first second third fourth : Byte} :
    ((before ++ first :: second :: third :: fourth :: after).take (before.length + 4)).drop
      (before.length + 2) = [third, fourth] := by
  rw [List.take_length_add_append, List.drop_length_add_append]
  rfl

theorem unpackShort_disp (disp : Signed16) :
    unpackShort [highByte disp.word, lowByte disp.word] = .ok (disp.val % 2 ^ 16).toNat := by
  rw [unpackShort, highByte_append_lowByte, Signed16.word, BitVec.toNat_ofInt]
  rfl

end Fields

section Entries

variable {before after : List Byte}

theorem rrrInstructions_name (op : Fin 14) : ∃ name,
    rrrInstructions[op.val]? = some (name.map Char.toLower) ∧
      ((name, (op.val : Int), .rrr) ∈ instructions ∨
        (name, (op.val : Int), .pseudo) ∈ instructions) := by
  obtain ⟨⟨name, opcode, type⟩, member, rfl, rfl | rfl, shown⟩ := rrrInstructions_listed op
  · exact ⟨name, shown, .inl member⟩
  · exact ⟨name, shown, .inr member⟩

theorem rxInstructions_name (op : Fin 9) : ∃ name,
    rxInstructions[op.val]? = some (name.map Char.toLower) ∧
      (name, (op.val : Int), .rx) ∈ instructions := by
  obtain ⟨⟨name, opcode, type⟩, member, rfl, rfl, shown⟩ := rxInstructions_listed op
  exact ⟨name, shown, member⟩

theorem ofNat_toNat_of_lt {op : Nat} (small : op < 16) : (BitVec.ofNat 4 op).toNat = op := by
  rw [BitVec.toNat_ofNat, Nat.mod_eq_of_lt small]

theorem decodeRrrInst_item (before after : List Byte) (op : Fin 14) (d sa sb : Nibble) :
    ∃ shown, decodeRrrInst (before ++ wordBytes (Item.rrr op d sa sb).words ++ after)
      before.length = .ok shown ∧ (Item.rrr op d sa sb).Shows shown := by
  obtain ⟨name, mnemonic, listed⟩ := rrrInstructions_name op
  refine ⟨_, ?_, name, listed, rfl⟩
  simp only [Item.words, wordBytes_cons, List.append_assoc, List.cons_append, decodeRrrInst,
    byteAt_append, byteAt_append_succ, bind, Except.bind, splitByte_high, splitByte_low,
    ofNat_toNat_of_lt (by omega : op.val < 16), mnemonic, registerOf_toNat, pure, Except.pure]

theorem decodeRxInst_item (before after : List Byte) (op : Fin 9) (d sa : Nibble)
    (disp : Signed16) :
    ∃ shown, decodeRxInst (before ++ wordBytes (Item.rx op d sa disp).words ++ after)
      before.length = .ok (some shown) ∧ (Item.rx op d sa disp).Shows shown := by
  obtain ⟨name, mnemonic, listed⟩ := rxInstructions_name op
  have secondary : registerOf op.val = .ok (BitVec.ofNat 4 op.val) :=
    if_pos (by omega : op.val < 16)
  refine ⟨_, ?_, name, listed, rfl⟩
  simp only [Item.words, wordBytes_cons, List.append_assoc, List.cons_append, decodeRxInst,
    byteAt_append, byteAt_append_succ, bind, Except.bind, splitByte_high, splitByte_low,
    ofNat_toNat_of_lt (by omega : op.val < 16), mnemonic, registerOf_toNat, pure, Except.pure,
    slice_append, unpackShort_disp, secondary]
  rfl

variable {binary : List Byte} {offset : Nat} {byte : Byte}

theorem disasmFrom_rrr {shown : DisInst} (inside : offset < binary.length - 1)
    (first : binary[offset]? = some byte) (primary : byte.toNat >>> 4 < 15)
    (decoded : decodeRrrInst binary offset = .ok shown) :
    disasmFrom binary offset = ((offset + 2, some shown) :: (disasmFrom binary (offset + 2)).1,
      (disasmFrom binary (offset + 2)).2) := by
  obtain ⟨_, rfl⟩ := List.getElem?_eq_some_iff.mp first
  rw [disasmFrom]
  simp only [inside, dif_pos, primary, if_true, decoded, rrrInstSize]

theorem disasmFrom_rx {shown : Option DisInst} (inside : offset < binary.length - 1)
    (first : binary[offset]? = some byte) (primary : byte.toNat >>> 4 = 15)
    (decoded : decodeRxInst binary offset = .ok shown) :
    disasmFrom binary offset = ((offset + 4, shown) :: (disasmFrom binary (offset + 4)).1,
      (disasmFrom binary (offset + 4)).2) := by
  obtain ⟨_, rfl⟩ := List.getElem?_eq_some_iff.mp first
  rw [disasmFrom]
  simp only [inside, dif_pos, primary, decoded, rxInstSize]
  rfl

variable {item : Item}

theorem disasmFrom_item (inst : item.IsInst)
    (image : before ++ wordBytes item.words ++ after = binary) :
    ∃ shown, item.Shows shown ∧ disasmFrom binary before.length =
      ((before.length + 2 * item.words.length, some shown) ::
        (disasmFrom binary (before.length + 2 * item.words.length)).1,
        (disasmFrom binary (before.length + 2 * item.words.length)).2) := by
  have inside : before.length < binary.length - 1 := by
    have nonempty := List.length_pos_iff.mpr item.words_ne_nil
    have bytes := length_wordBytes item.words
    simp only [← image, List.length_append]
    omega
  have opcode : ∀ head rest, item.words = head :: rest →
      binary[before.length]? = some (highByte head) := by
    intro head rest words
    rw [← image, words]
    simp
  cases item with
  | rrr op d sa sb =>
      obtain ⟨shown, decoded, shows⟩ := decodeRrrInst_item before after op d sa sb
      rw [image] at decoded
      refine ⟨shown, shows, disasmFrom_rrr inside (opcode _ _ rfl) ?_ decoded⟩
      have high := congrArg Prod.snd (splitByte_high (BitVec.ofNat 4 op) d sa sb)
      simp only [splitByte] at high
      rw [high, ofNat_toNat_of_lt (by omega)]
      omega
  | rx op d sa disp =>
      obtain ⟨shown, decoded, shows⟩ := decodeRxInst_item before after op d sa disp
      rw [image] at decoded
      refine ⟨shown, shows, disasmFrom_rx inside (opcode _ _ rfl) ?_ decoded⟩
      exact congrArg Prod.snd (splitByte_high 15 d sa (BitVec.ofNat 4 op))
  | data value => exact inst.elim

theorem disasmFrom_items (before : List Byte) {items : List Item}
    (insts : ∀ item ∈ items, item.IsInst) :
    (disasmFrom (before ++ wordBytes (codeWords items)) before.length).2 = none ∧
      (disasmFrom (before ++ wordBytes (codeWords items)) before.length).1.length = items.length ∧
      ∀ (index : Nat) item, items[index]? = some item → ∃ shown, item.Shows shown ∧
        (disasmFrom (before ++ wordBytes (codeWords items)) before.length).1[index]? =
          some (before.length + 2 * itemOffset items (index + 1), some shown) := by
  induction items generalizing before with
  | nil =>
      have done : disasmFrom (before ++ wordBytes (codeWords [])) before.length = ([], none) := by
        rw [disasmFrom, dif_neg]
        simp [codeWords, wordBytes]
      simp [done]
  | cons item items ih =>
      have bytes : before ++ wordBytes (codeWords (item :: items)) =
          before ++ wordBytes item.words ++ wordBytes (codeWords items) := by
        simp [codeWords]
      obtain ⟨shown, shows, step⟩ := disasmFrom_item (insts item (by simp)) bytes.symm
      have length : (before ++ wordBytes item.words).length =
          before.length + 2 * item.words.length := by
        rw [List.length_append, length_wordBytes]
      obtain ⟨ends, count, entries⟩ := ih (before ++ wordBytes item.words)
        fun other member => insts other (by simp [member])
      rw [← bytes, length] at ends count entries
      rw [step]
      refine ⟨ends, by rw [List.length_cons, count, List.length_cons], ?_⟩
      intro index other stored
      cases index with
      | zero =>
          obtain rfl := Option.some.inj stored
          exact ⟨shown, shows, by simp [itemOffset, codeWords]⟩
      | succ index =>
          obtain ⟨later, shows, entry⟩ := entries index other stored
          refine ⟨later, shows, ?_⟩
          rw [List.getElem?_cons_succ, entry]
          simp only [itemOffset, codeWords, List.take_succ_cons, List.flatMap_cons,
            List.length_append]
          congr 2
          omega

end Entries

/-- Disassembling what `write_code` wrote gives back every instruction, in order, with
the byte offset behind it. -/
theorem disasm_writeCode {items : List Item} (insts : ∀ item ∈ items, item.IsInst) :
    (disasmBinary (writeCode (items.map Item.obj)).1).2 = none ∧
      (disasmBinary (writeCode (items.map Item.obj)).1).1.length = items.length ∧
      ∀ (index : Nat) item, items[index]? = some item → ∃ shown, item.Shows shown ∧
        (disasmBinary (writeCode (items.map Item.obj)).1).1[index]? =
          some ((writeCode ((items.map Item.obj).take (index + 1))).1.length, some shown) := by
  obtain ⟨ends, count, entries⟩ := disasmFrom_items [] insts
  simp only [writeCode_items, disasmBinary, ← List.map_take, length_wordBytes] at *
  refine ⟨ends, count, fun index item stored => ?_⟩
  obtain ⟨shown, shows, entry⟩ := entries index item stored
  rw [List.length_nil, Nat.zero_add] at entry
  exact ⟨shown, shows, entry⟩

theorem disasm_writeCode_pair :
    (disasmBinary (writeCode ([Item.rrr 0 1 2 3, .rx 1 4 5 ⟨-2, by decide⟩].map Item.obj)).1).2 =
      none :=
  (disasm_writeCode (by simp [Item.IsInst])).1

end Sigma16

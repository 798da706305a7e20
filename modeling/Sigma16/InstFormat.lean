import Sigma16.AssemblerOutput

/-!
The machine code of Sigma16, apart from the two tools that write and read it: what
words stand for an instruction or a data value. The assembler emits exactly these.
-/

namespace Sigma16

open PyText Words Fallible

abbrev Signed16 := { value : Int // -32768 ≤ value ∧ value ≤ 32767 }

def Signed16.word (value : Signed16) : Word := BitVec.ofInt 16 value.val

theorem Signed16.toNat_word (value : Signed16) : (value.word.toNat : Int) = value.val % (2 ^ 16 : Int) := by
  rw [word, BitVec.toNat_ofInt]
  exact Int.toNat_of_nonneg (Int.emod_nonneg _ (by decide))

inductive Item where
  | rrr (op : Fin 14) (d sa sb : Register)
  | rx (op : Fin 9) (d sa : Register) (disp : Signed16)
  | data (value : Signed16)

namespace Item

def obj : Item → Obj
  | rrr op d sa sb => .rrr op.val d sa sb
  | rx op d sa disp => .rx op.val (.reg d) sa (.int disp.val)
  | data value => .num value.val

def headWord (op d sa sb : Nibble) : Word := (op ++ d : Byte) ++ (sa ++ sb : Byte)

section HeadWord

variable (op d sa sb : Nibble)

@[simp] theorem bswap16_headWord_d : nibble (bswap16 (headWord op d sa sb)) 0 = d := by
  rw [headWord, bswap16_append]
  exact nibble_zero_append _ _ _

@[simp] theorem bswap16_headWord_op : nibble (bswap16 (headWord op d sa sb)) 1 = op := by
  rw [headWord, bswap16_append]
  exact nibble_one_append _ _ _

@[simp] theorem bswap16_headWord_sb : nibble (bswap16 (headWord op d sa sb)) 2 = sb := by
  rw [headWord, bswap16_append]
  exact nibble_two_append _ _ _

@[simp] theorem bswap16_headWord_sa : nibble (bswap16 (headWord op d sa sb)) 3 = sa := by
  rw [headWord, bswap16_append]
  exact nibble_three_append _ _ _

end HeadWord

def words : Item → List Word
  | rrr op d sa sb => [headWord (BitVec.ofNat 4 op) d sa sb]
  | rx op d sa disp => [headWord 15 d sa (BitVec.ofNat 4 op), disp.word]
  | data value => [value.word]

def IsInst : Item → Prop
  | rrr .. | rx .. => True
  | data _ => False

def Listed (name : Str) : Item → Prop
  | rrr op .. => (name, (op.val : Int), .rrr) ∈ instructions ∨
      (name, (op.val : Int), .pseudo) ∈ instructions
  | rx op .. => (name, (op.val : Int), .rx) ∈ instructions
  | data _ => False

theorem length_words (item : Item) : item.words.length = sizeof item.obj := by
  cases item <;> rfl

theorem words_ne_nil (item : Item) : item.words ≠ [] := by
  cases item <;> simp [words]

end Item

def wordBytes (words : List Word) : List Byte := words.flatMap fun word => [highByte word, lowByte word]

def codeWords (items : List Item) : List Word := items.flatMap Item.words

def itemOffset (items : List Item) (index : Nat) : Nat := (codeWords (items.take index)).length

section Layout

variable {items : List Item} {index : Nat} {item : Item}

@[simp] theorem wordBytes_cons (word : Word) (words : List Word) :
    wordBytes (word :: words) = highByte word :: lowByte word :: wordBytes words := rfl

@[simp] theorem wordBytes_append (first second : List Word) :
    wordBytes (first ++ second) = wordBytes first ++ wordBytes second :=
  List.flatMap_append

theorem length_wordBytes (words : List Word) : (wordBytes words).length = 2 * words.length := by
  induction words with
  | nil => rfl
  | cons word words ih =>
      simp only [wordBytes_cons, List.length_cons, ih]
      omega

theorem codeWords_split (stored : items[index]? = some item) :
    codeWords items =
      codeWords (items.take index) ++ item.words ++ codeWords (items.drop (index + 1)) := by
  obtain ⟨bound, rfl⟩ := List.getElem?_eq_some_iff.mp stored
  have split : items.take index ++ items[index] :: items.drop (index + 1) = items := by
    rw [← List.drop_eq_getElem_cons bound, List.take_append_drop]
  calc codeWords items
      = codeWords (items.take index ++ items[index] :: items.drop (index + 1)) := by rw [split]
    _ = _ := by
      simp only [codeWords, List.flatMap_append, List.flatMap_cons, List.append_assoc]

theorem codeWords_at (stored : items[index]? = some item) {offset : Nat} {word : Word}
    (within : item.words[offset]? = some word) :
    (codeWords items)[itemOffset items index + offset]? = some word := by
  have bound := (List.getElem?_eq_some_iff.mp within).1
  rw [codeWords_split stored, itemOffset, List.append_assoc,
    List.getElem?_append_right (Nat.le_add_right _ _), Nat.add_sub_cancel_left,
    List.getElem?_append_left bound, within]

theorem itemOffset_succ (stored : items[index]? = some item) :
    itemOffset items (index + 1) = itemOffset items index + item.words.length := by
  rw [itemOffset, itemOffset, List.take_add_one, stored]
  simp [codeWords]

theorem itemOffset_eq (items : List Item) (index : Nat) :
    itemOffset items index = (((items.map Item.obj).take index).map sizeof).sum := by
  have sizes : ∀ prior : List Item,
      (codeWords prior).length = ((prior.map Item.obj).map sizeof).sum := by
    intro prior
    induction prior with
    | nil => rfl
    | cons item rest ih =>
        simp only [codeWords, List.flatMap_cons, List.length_append, List.map_cons, List.sum_cons,
          Item.length_words] at ih ⊢
        rw [ih]
  rw [itemOffset, sizes, List.map_take]

end Layout

section Encoding

theorem packByte_nibbles : ∀ high low : Nibble,
    packByte (((high.toNat : Int) <<< 4).lor low.toNat) = .ok [high ++ low] := by
  decide +kernel

theorem packShort_word (value : Signed16) :
    packShort value.val = .ok (wordBytes [value.word]) := by
  rw [packShort, if_pos value.property]
  rfl

theorem encode_obj (item : Item) : encode item.obj = .ok (wordBytes item.words) := by
  cases item with
  | rrr op d sa sb =>
      have opcode : (op.val : Int) = (BitVec.ofNat 4 op.val).toNat := by simp; omega
      simp only [Item.obj, encode, opcode, packByte_nibbles, bind, Except.bind, pure, Except.pure]
      simp [Item.words, Item.headWord, wordBytes]
  | rx op d sa disp =>
      have opcode : (op.val : Int) = (BitVec.ofNat 4 op.val).toNat := by simp; omega
      have head : packByte (((15 : Int) <<< 4).lor d.toNat) = .ok [(15 : Nibble) ++ d] :=
        packByte_nibbles 15 d
      simp only [Item.obj, encode, Dest.value, packDisp, packShort_word, opcode, packByte_nibbles,
        head, bind, Except.bind, pure, Except.pure]
      simp [Item.words, Item.headWord, wordBytes]
  | data value => exact packShort_word value

theorem writeCode_items (items : List Item) :
    writeCode (items.map Item.obj) = (wordBytes (codeWords items), none) := by
  induction items with
  | nil => rfl
  | cons item items ih =>
      simp only [List.map_cons, writeCode, encode_obj, ih, codeWords, List.flatMap_cons,
        wordBytes_append]

end Encoding

end Sigma16

import Sigma16.AssemblerLiterals
import Sigma16.AssemblerObjects
import Sigma16.ImageExecution

/-!
The 16-bit numbers of a source, from its lines to the memory of the emulator. They are
packed as signed words, and the first that does not fit ends the output.
-/

namespace Sigma16

open PyText Words Fallible
open Unicode (isSpace)

/-- The number a linked object is emitted with: its own, or the offset of its label. -/
def Obj.Carries (labels : LabelMapping) (obj : Obj) (value : Int) : Prop :=
  obj.number = some value ∨ ∃ opcode d sa name body, obj = .rx opcode d sa (.ident name) ∧
    labels.lookup name = some body ∧ value = body.codeOffset

def numberOffset (objs : List Obj) (index : Nat) (obj : Obj) : Nat :=
  wordsBefore objs index + (sizeof obj - 1)

/-- `write_code` emits the word at `addr`, and the emulator reads it there. -/
structure EmitsWord (objs : List Obj) (addr : Nat) (word : Word) : Prop where
  high : (writeCode objs).1[2 * addr]? = some (highByte word)
  low : (writeCode objs).1[2 * addr + 1]? = some (lowByte word)
  read : ∀ vm, sigma16VmInit (writeCode objs).1 = .ok vm → readMem vm (BitVec.ofNat 16 addr) = .ok word

structure Obj.Packable (obj : Obj) : Prop where
  formed : obj.WellFormed
  fits : ∀ value, obj.number = some value → -32768 ≤ value ∧ value ≤ 32767

section Writing

variable {objs : List Obj} {index : Nat}

theorem writeCode_append (items : List Item) (rest : List Obj) :
    (writeCode (items.map Item.obj ++ rest)).1 = wordBytes (codeWords items) ++ (writeCode rest).1 := by
  induction items with
  | nil => rfl
  | cons item items ih =>
      simp only [List.map_cons, List.cons_append, writeCode, encode_obj, ih, codeWords,
        List.flatMap_cons, wordBytes_append, List.append_assoc]

theorem writeCode_reaches (reached : 2 * wordsBefore objs index < (writeCode objs).1.length) :
    ∀ obj ∈ objs.take (index + 1), ∃ bytes, encode obj = .ok bytes := by
  induction objs generalizing index with
  | nil => simp
  | cons obj objs ih =>
      cases encoded : encode obj with
      | error error => simp [writeCode, encoded] at reached
      | ok bytes =>
          intro other member
          rw [List.take_succ_cons, List.mem_cons] at member
          rcases member with rfl | later
          · exact ⟨bytes, encoded⟩
          · cases index with
            | zero => simp at later
            | succ index =>
                have size := encode_length encoded
                refine ih ?_ other later
                simp only [writeCode, encoded, List.length_append, wordsBefore, List.take_succ_cons,
                  List.map_cons, List.sum_cons] at reached ⊢
                omega

theorem encode_fits {obj : Obj} {bytes : List Byte} {value : Int} (encoded : encode obj = .ok bytes)
    (number : obj.number = some value) : -32768 ≤ value ∧ value ≤ 32767 := by
  have packed : ∀ {bytes}, packShort value = .ok bytes → -32768 ≤ value ∧ value ≤ 32767 := by
    intro bytes packed
    unfold packShort at packed
    split at packed
    · assumption
    · cases packed
  cases obj with
  | rrr opcode d sa sb => cases number
  | rx opcode d sa disp =>
      cases disp with
      | ident name => cases number
      | int disp =>
          obtain rfl := Option.some.inj number
          simp only [encode, bind_eq_ok] at encoded
          obtain ⟨_, _, _, _, _, _, tail, last, _⟩ := encoded
          exact packed last
  | num found =>
      obtain rfl := Option.some.inj number
      exact packed encoded

theorem items_of_packable (packable : ∀ obj ∈ objs, obj.Packable ∧ obj.Resolved) :
    ∃ items : List Item, objs = items.map Item.obj := by
  induction objs with
  | nil => exact ⟨[], rfl⟩
  | cons obj objs ih =>
      obtain ⟨items, rfl⟩ := ih fun other member => packable other (by simp [member])
      obtain ⟨sound, resolved⟩ := packable obj (by simp)
      obtain ⟨item, rfl⟩ := sound.formed.item resolved sound.fits
      exact ⟨item :: items, rfl⟩

theorem Item.number_word {item : Item} {value : Int} (number : item.obj.number = some value) :
    item.words[sizeof item.obj - 1]? = some (BitVec.ofInt 16 value) := by
  cases item with
  | rrr op d sa sb => cases number
  | rx op d sa disp =>
      obtain rfl := Option.some.inj number
      rfl
  | data found =>
      obtain rfl := Option.some.inj number
      rfl

theorem readMem_image {executable : List Byte} {addr : Nat} {word : Word} {vm : Vm}
    (high : executable[2 * addr]? = some (highByte word))
    (low : executable[2 * addr + 1]? = some (lowByte word))
    (loaded : sigma16VmInit executable = .ok vm) : readMem vm (BitVec.ofNat 16 addr) = .ok word := by
  unfold sigma16VmInit at loaded
  split at loaded
  · rename_i fits
    obtain rfl := Except.ok.inj loaded
    have bound := (List.getElem?_eq_some_iff.mp low).1
    have mapped : (BitVec.ofNat 16 addr).toNat < memWords := by
      simp only [memWords, memBytes] at fits ⊢
      rw [BitVec.toNat_ofNat]
      omega
    have position : (BitVec.ofNat 16 addr).toNat = addr := by
      simp only [memBytes] at fits
      rw [BitVec.toNat_ofNat, Nat.mod_eq_of_lt]
      omega
    rw [readMem_of_lt mapped]
    simp only [loadImage, position, List.getD_eq_getElem?_getD, high, low, Option.getD_some,
      bswap16_append, highByte_append_lowByte]
  · cases loaded

theorem emitsWord_of_packable {obj : Obj} {value : Int} (stored : objs[index]? = some obj)
    (number : obj.number = some value)
    (packable : ∀ other ∈ objs.take (index + 1), other.Packable ∧ other.Resolved) :
    EmitsWord objs (numberOffset objs index obj) (BitVec.ofInt 16 value) := by
  obtain ⟨items, made⟩ := items_of_packable packable
  have written := writeCode_append items (objs.drop (index + 1))
  rw [← made, List.take_append_drop] at written
  have last : (items.map Item.obj)[index]? = some obj := by
    rw [← made, List.getElem?_take_of_lt (Nat.lt_succ_self index), stored]
  rw [List.getElem?_map] at last
  obtain ⟨item, located, rfl⟩ := Option.map_eq_some_iff.mp last
  have offset : itemOffset items index = wordsBefore objs index := by
    rw [itemOffset_eq, ← made, List.take_take, Nat.min_eq_left (Nat.le_succ index)]
    rfl
  have word : (codeWords items)[numberOffset objs index item.obj]? =
      some (BitVec.ofInt 16 value) := by
    rw [numberOffset, ← offset]
    exact codeWords_at located (Item.number_word number)
  have high := wordBytes_even (codeWords items) (numberOffset objs index item.obj)
  have low := wordBytes_odd (codeWords items) (numberOffset objs index item.obj)
  rw [word, Option.map_some] at high low
  have first : (writeCode objs).1[2 * numberOffset objs index item.obj]? =
      some (highByte (BitVec.ofInt 16 value)) := by
    rw [written, List.getElem?_append_left (List.getElem?_eq_some_iff.mp high).1]
    exact high
  have second : (writeCode objs).1[2 * numberOffset objs index item.obj + 1]? =
      some (lowByte (BitVec.ofInt 16 value)) := by
    rw [written, List.getElem?_append_left (List.getElem?_eq_some_iff.mp low).1]
    exact low
  exact ⟨first, second, fun vm loaded => readMem_image first second loaded⟩

theorem EmitsWord.reaches {obj : Obj} {word : Word}
    (emits : EmitsWord objs (numberOffset objs index obj) word) :
    ∀ other ∈ objs.take (index + 1), ∃ bytes, encode other = .ok bytes := by
  apply writeCode_reaches
  have bound := (List.getElem?_eq_some_iff.mp emits.high).1
  simp only [numberOffset] at bound
  omega

end Writing

section Linked

variable {lines : List Str} {state : ParseState} {linked : Linker} {obj : Obj}

theorem linkObj_movObj (labels : LabelMapping) (d source : Dest) :
    linkObj labels (movObj d source) = .ok (movObj d source) := by
  cases source <;> rfl

theorem numeric_not_encoded (value : Int) (source : Dest) (bytes : List Byte) :
    encode (movObj (.num value) source) ≠ .ok bytes := by
  cases source <;> (intro encoded; cases encoded)

theorem packable_of_encoded (parsed : parseLines lines = .ok state)
    (success : link state.linker = .ok linked) (member : obj ∈ linked.objs)
    {bytes : List Byte} (encoded : encode obj = .ok bytes) : obj.Packable := by
  obtain ⟨source, stored, resolved⟩ := mapM_source (link_eq_ok success).2 member
  obtain ⟨line, _, _, read⟩ := (parseLines_objects parsed source).mp stored
  have formed : source.WellFormed := by
    by_contra broken
    obtain ⟨value, moved, again⟩ := (not_not.mp (mt (parseString_formed read).mpr broken)).parses
    obtain rfl := Parsed.obj.inj (Except.ok.inj (read.symm.trans again))
    obtain rfl := Except.ok.inj ((linkObj_movObj _ _ _).symm.trans resolved)
    exact numeric_not_encoded value moved bytes encoded
  exact ⟨linkObj_formed resolved formed, fun value number => encode_fits encoded number⟩

theorem resolved_of_linked (success : link state.linker = .ok linked) (member : obj ∈ linked.objs) :
    obj.Resolved := by
  obtain ⟨source, _, resolved⟩ := mapM_source (link_eq_ok success).2 member
  exact linkObj_resolved resolved

theorem Obj.Carries.number {labels : LabelMapping} {linkedObj : Obj} {value : Int}
    (carries : obj.Carries labels value) (resolved : linkObj labels obj = .ok linkedObj) :
    linkedObj.number = some value := by
  rcases carries with number | ⟨opcode, d, sa, name, body, rfl, found, rfl⟩
  · rw [linkObj_plain] at resolved
    · obtain rfl := Except.ok.inj resolved
      exact number
    · rintro opcode d sa name rfl
      cases number
  · obtain ⟨other, found', rfl⟩ := linkObj_ident.mp resolved
    obtain rfl := Option.some.inj (found.symm.trans found')
    rfl

end Linked

theorem word_assembles (word : Word) : ∃ value : Int, (word.toNat : Int) = value % 2 ^ 16 ∧
    Assembles ["data ".toList ++ decimal value] [highByte word, lowByte word] := by
  have lower := BitVec.le_toInt word
  have upper := @BitVec.toInt_lt _ word
  have fits : -32768 ≤ word.toInt ∧ word.toInt ≤ 32767 := by omega
  have same : Signed16.word ⟨word.toInt, fits⟩ = word := BitVec.ofInt_toInt
  refine ⟨word.toInt, ?_, ?_⟩
  · have value := Signed16.toNat_word ⟨word.toInt, fits⟩
    rwa [same] at value
  · have plain := (decimal_token word.toInt).1
    have writes : WritesData (decimal word.toInt) ("data ".toList ++ decimal word.toInt) :=
      ⟨[], "data".toList, ' ', [], [], by simp, by decide, by decide, by decide, by decide, by decide⟩
    have reads := (writes.reads (fun char member => ⟨plain.solid char member, (plain char member).2.1⟩)
      (by rw [plain.upper]; exact decimal_ne_nil _) word.toInt).mpr (by
        rw [plain.upper, parseNumeric_decimal])
    have assembled := @Assembles.of_reads _ [Item.data ⟨word.toInt, fits⟩] (.cons reads .nil)
    have code : wordBytes (codeWords [Item.data ⟨word.toInt, fits⟩]) = [highByte word, lowByte word] := by
      simp [codeWords, Item.words, same, wordBytes]
    rwa [code] at assembled

/-- The number of an object is emitted as its 16-bit word and read back by the emulator
exactly when it fits in a signed word, and so do those in front of it. Every word has a
signed spelling. -/
theorem number_emitted {before after : List Str} {line : Str} {state earlier : ParseState}
    {linked : Linker} {obj : Obj} {value : Int}
    (parsed : parseLines (before ++ line :: after) = .ok state)
    (prior : parseLines before = .ok earlier) (success : link state.linker = .ok linked)
    (reads : Reads line (some (.obj obj))) (carries : obj.Carries linked.labels value) :
    ((∃ word : Word, (word.toNat : Int) = value % 2 ^ 16 ∧
        EmitsWord linked.objs (numberOffset linked.objs earlier.linker.objs.length obj) word) ↔
      ∀ other ∈ linked.objs.take (earlier.linker.objs.length + 1), other.Packable) ∧
    ∀ word : Word, ∃ signed : Int, (word.toNat : Int) = signed % 2 ^ 16 ∧
      Assembles ["data ".toList ++ decimal signed] [highByte word, lowByte word] := by
  refine ⟨?_, word_assembles⟩
  have stored := parseLines_object_at parsed prior reads
  obtain ⟨linkedObj, located, resolved⟩ := mapM_at (link_eq_ok success).2 stored
  have size := sizeof_linkObj resolved
  unfold numberOffset
  rw [← size]
  constructor
  · rintro ⟨word, _, emits⟩ other member
    obtain ⟨bytes, encoded⟩ := EmitsWord.reaches emits other member
    exact packable_of_encoded parsed success (List.mem_of_mem_take member) encoded
  · intro packable
    refine ⟨BitVec.ofInt 16 value, ?_, ?_⟩
    · rw [BitVec.toNat_ofInt]
      exact Int.toNat_of_nonneg (Int.emod_nonneg _ (by decide))
    · refine emitsWord_of_packable located (carries.number resolved) fun other member => ?_
      exact ⟨packable other member, resolved_of_linked success (List.mem_of_mem_take member)⟩

theorem number_emitted_label : ∃ word : Word, (word.toNat : Int) = 3 % 2 ^ 16 ∧
    EmitsWord [.num 7, .rx 1 (.reg 1) 0 (.int 3)] 2 word := by
  have carries : Obj.Carries [("END".toList, ⟨2, 3⟩)] (.rx 1 (.reg 1) 0 (.ident "END".toList)) 3 :=
    .inr ⟨_, _, _, _, ⟨2, 3⟩, rfl, by decide, rfl⟩
  refine (@number_emitted ["data 7".toList] ["end:".toList] "load R1,end[R0]".toList
    ⟨⟨[.num 7, .rx 1 (.reg 1) 0 (.ident "END".toList)], [("END".toList, ⟨2, 0⟩)]⟩, 2, []⟩
    ⟨⟨[.num 7], []⟩, 1, []⟩
    ⟨[.num 7, .rx 1 (.reg 1) 0 (.int 3)], [("END".toList, ⟨2, 3⟩)]⟩ _ 3
    (by decide +kernel) (by decide +kernel) (by decide +kernel) (by decide +kernel) carries).1.mpr ?_
  intro other member
  rcases List.mem_cons.mp member with rfl | later
  · refine ⟨trivial, fun value number => ?_⟩
    obtain rfl := Option.some.inj number
    decide
  · obtain rfl := List.mem_singleton.mp later
    refine ⟨⟨by decide, 1, rfl⟩, fun value number => ?_⟩
    obtain rfl := Option.some.inj number
    decide

theorem number_emitted_unsigned :
    parseLines ["data 32768".toList] = .ok ⟨⟨[.num 32768], []⟩, 1, []⟩ ∧
    link ⟨[.num 32768], []⟩ = .ok ⟨[.num 32768], []⟩ ∧
    writeCode [.num 32768] = ([], some .structError) ∧
    ¬ ∃ word, EmitsWord [.num 32768] (numberOffset [.num 32768] 0 (.num 32768)) word := by
  refine ⟨by decide +kernel, by decide +kernel, by decide +kernel, ?_⟩
  rintro ⟨word, emits⟩
  have empty : (writeCode [.num 32768]).1 = [] := by decide +kernel
  have high := emits.high
  rw [empty] at high
  cases high

end Sigma16

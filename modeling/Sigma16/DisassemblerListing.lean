import Sigma16.DisassemblerRoundTrip

/-!
What the loop of `disasm_binary` makes of arbitrary bytes: what each turn of it
finds at the front of the remaining ones, and how the offsets it yields cut the input.
-/

namespace Sigma16

open PyText Words

def Listing.ends (listing : Listing) : List Nat := listing.1.map Prod.fst

def slices (binary : List Byte) (prevOffset : Nat) : List Nat → List (List Byte)
  | [] => []
  | offset :: ends => (binary.take offset).drop prevOffset :: slices binary offset ends

/-- A listing from `offset` on that no exception ends, and whose end offsets cut the rest
of the even-length prefix into consecutive pieces. -/
structure Cuts (binary : List Byte) (offset : Nat) (listing : Listing) : Prop where
  quiet : listing.2 = none
  increasing : (offset :: listing.ends).Pairwise (· < ·)
  bounded : ∀ stop ∈ listing.ends, stop ≤ binary.length
  covers : (slices binary offset listing.ends).flatten =
    (binary.take (2 * (binary.length / 2))).drop offset

/-- Read from the front in pieces of two bytes, or four where the high nibble is 15, no
piece starts with the high nibble 14 and none of four bytes is cut off. -/
def wellCut : List Byte → Bool
  | first :: _ :: rest =>
      if first.toNat >>> 4 = 15 then
        match rest with
        | _ :: _ :: rest => wellCut rest
        | _ => false
      else first.toNat >>> 4 ≠ 14 && wellCut rest
  | _ => true

inductive Turns : List Byte → Prop
  | short {bytes} : bytes.length < 2 → Turns bytes
  | item {item : Item} {after} : item.IsInst → Turns after → Turns (wordBytes item.words ++ after)
  | exp (d : Nibble) (second : Byte) (rest) : Turns (((14 : Nibble) ++ d : Byte) :: second :: rest)
  | unknown {d sa sb : Nibble} {third fourth : Byte} {after} : 9 ≤ sb.toNat → Turns after →
      Turns (((15 : Nibble) ++ d : Byte) :: (sa ++ sb : Byte) :: third :: fourth :: after)
  | truncated {d sa sb : Nibble} {rest} : rest.length < 2 →
      Turns (((15 : Nibble) ++ d : Byte) :: (sa ++ sb : Byte) :: rest)

section Reading

theorem byte_nibbles (byte : Byte) : ∃ high low : Nibble, byte = high ++ low :=
  ⟨byte.extractLsb' 4 4, byte.extractLsb' 0 4, by
    rw [BitVec.extractLsb'_append_extractLsb'_eq_extractLsb' (by decide), BitVec.extractLsb'_eq_self]⟩

theorem word_signed (word : Word) : ∃ value : Signed16, value.word = word :=
  ⟨⟨word.toInt, BitVec.le_toInt word, by have := @BitVec.toInt_lt 16 word; omega⟩,
    BitVec.ofInt_toInt⟩

theorem rrr_bytes {op d sa sb : Nibble} (primary : op.toNat < 14) :
    wordBytes (Item.rrr ⟨op.toNat, primary⟩ d sa sb).words = [(op ++ d : Byte), (sa ++ sb : Byte)] := by
  simp [Item.words, Item.headWord, wordBytes]

theorem rx_bytes {d sa sb : Nibble} {third fourth : Byte} {disp : Signed16}
    (secondary : sb.toNat < 9) (second : disp.word = third ++ fourth) :
    wordBytes (Item.rx ⟨sb.toNat, secondary⟩ d sa disp).words =
      [((15 : Nibble) ++ d : Byte), (sa ++ sb : Byte), third, fourth] := by
  simp [Item.words, Item.headWord, wordBytes, second]

theorem turns (bytes : List Byte) : Turns bytes := by
  match bytes with
  | [] | [_] => exact .short (by simp)
  | first :: second :: rest =>
      obtain ⟨op, d, rfl⟩ := byte_nibbles first
      obtain ⟨sa, sb, rfl⟩ := byte_nibbles second
      by_cases primary : op.toNat < 14
      · have inst : (Item.rrr ⟨op.toNat, primary⟩ d sa sb).IsInst := trivial
        have whole := Turns.item inst (turns rest)
        rwa [rrr_bytes] at whole
      · by_cases exp : op = 14
        · subst op
          exact .exp d _ rest
        · obtain rfl : op = 15 := by bv_omega
          match rest with
          | [] | [_] => exact .truncated (by simp)
          | third :: fourth :: after =>
              by_cases secondary : sb.toNat < 9
              · obtain ⟨disp, second⟩ := word_signed (third ++ fourth)
                have inst : (Item.rx ⟨sb.toNat, secondary⟩ d sa disp).IsInst := trivial
                have whole := Turns.item inst (turns after)
                rwa [rx_bytes secondary second] at whole
              · exact .unknown (by omega) (turns after)
termination_by bytes.length

end Reading

section Yielding

variable {before bytes rest after : List Byte}

theorem disasmFrom_short (short : bytes.length < 2) :
    disasmFrom (before ++ bytes) before.length = ([], none) := by
  rw [disasmFrom, dif_neg]
  rw [List.length_append]
  omega

theorem disasmFrom_failed {first : Byte} {error : DisError}
    (exp : first.toNat >>> 4 < 15 →
      decodeRrrInst (before ++ first :: rest) before.length = .error error)
    (rx : first.toNat >>> 4 = 15 →
      decodeRxInst (before ++ first :: rest) before.length = .error error)
    (nonempty : rest ≠ []) :
    disasmFrom (before ++ first :: rest) before.length = ([], some error) := by
  have inside : before.length < (before ++ first :: rest).length - 1 := by
    have := List.length_pos_iff.mpr nonempty
    simp only [List.length_append, List.length_cons]
    omega
  have opcode : (before ++ first :: rest)[before.length].toNat >>> 4 = first.toNat >>> 4 := by
    simp
  have bound : first.toNat >>> 4 < 16 := by
    rw [Nat.shiftRight_eq_div_pow]
    omega
  rw [disasmFrom]
  simp only [inside, dif_pos, opcode]
  by_cases primary : first.toNat >>> 4 < 15
  · simp only [primary, if_true, exp primary]
  · have secondary : first.toNat >>> 4 = 15 := by omega
    simp only [secondary, rx secondary]
    rfl

theorem high_nibble (high low : Nibble) : (high ++ low : Byte).toNat >>> 4 = high.toNat :=
  congrArg Prod.snd (splitByte_nibbles high low)

theorem disasmFrom_exp (d : Nibble) (second : Byte) :
    disasmFrom (before ++ ((14 : Nibble) ++ d : Byte) :: second :: rest) before.length =
      ([], some .indexError) := by
  refine disasmFrom_failed (fun _ => ?_) (fun secondary => ?_) (by simp)
  · obtain ⟨sa, sb, rfl⟩ := byte_nibbles second
    rw [decodeRrrInst, byteAt_append, byteAt_append_succ]
    simp only [bind, Except.bind, splitByte_nibbles]
    rfl
  · rw [high_nibble] at secondary
    cases secondary

variable {d sa sb : Nibble}

theorem disasmFrom_truncated (secondary : sb.toNat < 9) (cut : rest.length < 2) :
    disasmFrom (before ++ ((15 : Nibble) ++ d : Byte) :: (sa ++ sb : Byte) :: rest) before.length =
      ([], some .structError) := by
  obtain ⟨mnemonic, named, _⟩ := rxInstructions_name ⟨sb.toNat, secondary⟩
  refine disasmFrom_failed (fun primary => ?_) (fun _ => ?_) (by simp)
  · rw [high_nibble] at primary
    exact absurd primary (by decide)
  · have slice : ((before ++ ((15 : Nibble) ++ d : Byte) :: (sa ++ sb : Byte) :: rest).take
        (before.length + 4)).drop (before.length + 2) = rest := by
      rw [List.take_length_add_append, List.drop_length_add_append]
      simp only [List.take_succ_cons, List.drop_succ_cons, List.drop_zero]
      exact List.take_of_length_le (by omega)
    have refused : unpackShort rest = .error .structError := by
      match rest with
      | [] | [_] => rfl
      | _ :: _ :: _ =>
          simp only [List.length_cons] at cut
          omega
    rw [decodeRxInst, byteAt_append, byteAt_append_succ]
    simp only [bind, Except.bind, splitByte_nibbles, named, slice, refused]

theorem disasmFrom_unknown (beyond : 9 ≤ sb.toNat) :
    disasmFrom (before ++ ((15 : Nibble) ++ d : Byte) :: (sa ++ sb : Byte) :: rest) before.length =
      ((before.length + 4, none) ::
        (disasmFrom (before ++ ((15 : Nibble) ++ d : Byte) :: (sa ++ sb : Byte) :: rest)
          (before.length + 4)).1,
        (disasmFrom (before ++ ((15 : Nibble) ++ d : Byte) :: (sa ++ sb : Byte) :: rest)
          (before.length + 4)).2) := by
  refine disasmFrom_rx ?_ (by simp) (high_nibble 15 d) ?_
  · simp only [List.length_append, List.length_cons]
    omega
  · have unnamed : rxInstructions[sb.toNat]? = none := List.getElem?_eq_none beyond
    rw [decodeRxInst, byteAt_append, byteAt_append_succ]
    simp only [bind, Except.bind, splitByte_nibbles, unnamed]
    rfl

end Yielding

section WellCut

variable {first second third fourth : Byte} {rest after : List Byte}

theorem wellCut_short {bytes : List Byte} (short : bytes.length < 2) : wellCut bytes = true := by
  match bytes with
  | [] | [_] => rfl
  | _ :: _ :: _ =>
      simp only [List.length_cons] at short
      omega

theorem wellCut_two (second : Byte) (rest : List Byte) (primary : first.toNat >>> 4 ≠ 15) :
    wellCut (first :: second :: rest) = (first.toNat >>> 4 ≠ 14 && wellCut rest) := by
  rw [wellCut.eq_def]
  exact if_neg primary

theorem wellCut_four (secondary : first.toNat >>> 4 = 15) :
    wellCut (first :: second :: third :: fourth :: rest) = wellCut rest := by
  rw [wellCut.eq_def]
  exact if_pos secondary

theorem wellCut_cut (secondary : first.toNat >>> 4 = 15) (cut : rest.length < 2) :
    wellCut (first :: second :: rest) = false := by
  match rest with
  | [] | [_] =>
      rw [wellCut.eq_def]
      exact if_pos secondary
  | _ :: _ :: _ =>
      simp only [List.length_cons] at cut
      omega

theorem wellCut_item {item : Item} (inst : item.IsInst) :
    wellCut (wordBytes item.words ++ after) = wellCut after := by
  cases item with
  | rrr op d sa sb =>
      have opcode : (highByte (Item.headWord (BitVec.ofNat 4 op) d sa sb)).toNat >>> 4 = op :=
        (congrArg Prod.snd (splitByte_high _ d sa sb)).trans (ofNat_toNat_of_lt (by omega))
      have two := wellCut_two (lowByte (Item.headWord (BitVec.ofNat 4 op) d sa sb)) after
        (by rw [opcode]; omega)
      have notExp : op.val ≠ 14 := by omega
      rwa [opcode, decide_eq_true notExp, Bool.true_and] at two
  | rx op d sa disp =>
      exact wellCut_four (congrArg Prod.snd (splitByte_high 15 d sa (BitVec.ofNat 4 op)))
  | data value => exact inst.elim

end WellCut

section Cutting

variable {binary : List Byte} {offset stop : Nat} {shown : Option DisInst} {listing : Listing}

theorem slices_cons (later : offset < stop) (inside : stop ≤ binary.length)
    (even : stop % 2 = 0) (covered : List (List Byte)) :
    ((binary.take stop).drop offset :: covered).flatten =
        (binary.take (2 * (binary.length / 2))).drop offset ↔
      covered.flatten = (binary.take (2 * (binary.length / 2))).drop stop := by
  have within : stop ≤ 2 * (binary.length / 2) := by omega
  have split : (binary.take (2 * (binary.length / 2))).drop offset =
      (binary.take stop).drop offset ++ (binary.take (2 * (binary.length / 2))).drop stop := by
    have front : (binary.take (2 * (binary.length / 2))).take stop = binary.take stop := by
      rw [List.take_take, Nat.min_eq_left within]
    have length : offset ≤ (binary.take stop).length := by
      rw [List.length_take]
      omega
    calc (binary.take (2 * (binary.length / 2))).drop offset
        = (binary.take stop ++ (binary.take (2 * (binary.length / 2))).drop stop).drop offset := by
          rw [← front, List.take_append_drop]
      _ = _ := List.drop_append_of_le_length length
  rw [List.flatten_cons, split, List.append_cancel_left_eq]

theorem cuts_cons (later : offset < stop) (even : stop % 2 = 0) :
    Cuts binary offset ((stop, shown) :: listing.1, listing.2) ↔
      stop ≤ binary.length ∧ Cuts binary stop listing := by
  constructor
  · intro cuts
    have inside : stop ≤ binary.length := cuts.bounded stop (by simp [Listing.ends])
    refine ⟨inside, cuts.quiet, (List.pairwise_cons.mp cuts.increasing).2, ?_, ?_⟩
    · intro other member
      exact cuts.bounded other (List.mem_cons_of_mem _ member)
    · exact (slices_cons later inside even _).mp cuts.covers
  · rintro ⟨inside, cuts⟩
    refine ⟨cuts.quiet, ?_, ?_, (slices_cons later inside even _).mpr cuts.covers⟩
    · refine List.pairwise_cons.mpr ⟨?_, cuts.increasing⟩
      intro other member
      rcases List.mem_cons.mp member with rfl | behind
      · exact later
      · exact later.trans ((List.pairwise_cons.mp cuts.increasing).1 other behind)
    · intro other member
      rcases List.mem_cons.mp member with rfl | behind
      · exact inside
      · exact cuts.bounded other behind

theorem cuts_nil (binary : List Byte) : Cuts binary (2 * (binary.length / 2)) ([], none) := by
  refine ⟨rfl, by simp [Listing.ends], by simp [Listing.ends], ?_⟩
  have length : (binary.take (2 * (binary.length / 2))).length ≤ 2 * (binary.length / 2) :=
    List.length_take_le _ _
  rw [List.drop_eq_nil_of_le length]
  rfl

theorem wellCut_iff (before rest : List Byte) (even : before.length % 2 = 0) :
    Cuts (before ++ rest) before.length (disasmFrom (before ++ rest) before.length) ↔
      wellCut rest = true := by
  induction turns rest generalizing before with
  | @short bytes short =>
      have last : before.length = 2 * ((before ++ bytes).length / 2) := by
        rw [List.length_append]
        omega
      rw [disasmFrom_short short, wellCut_short short]
      refine iff_of_true ?_ rfl
      rw [last]
      exact cuts_nil _
  | @item item after inst _ ih =>
      have nonempty := List.length_pos_iff.mpr item.words_ne_nil
      have bytes := length_wordBytes item.words
      obtain ⟨shown, _, turn⟩ :=
        disasmFrom_item inst (List.append_assoc before (wordBytes item.words) after)
      have later := ih (before ++ wordBytes item.words) (by rw [List.length_append]; omega)
      rw [List.append_assoc, List.length_append, bytes] at later
      rw [turn, wellCut_item inst, cuts_cons (by omega) (by omega), later]
      refine and_iff_right ?_
      simp only [List.length_append]
      omega
  | exp d second rest =>
      have opcode := high_nibble 14 d
      have refused : wellCut (((14 : Nibble) ++ d : Byte) :: second :: rest) = false := by
        rw [wellCut_two _ _ (by rw [opcode]; decide), opcode]
        rfl
      rw [disasmFrom_exp, refused]
      refine iff_of_false (fun cuts => ?_) (by decide)
      cases cuts.quiet
  | @unknown d sa sb third fourth after beyond _ ih =>
      have later := ih (before ++ [(15 : Nibble) ++ d, sa ++ sb, third, fourth])
        (by simp only [List.length_append, List.length_cons, List.length_nil]; omega)
      simp only [List.append_assoc, List.cons_append, List.nil_append, List.length_append,
        List.length_cons, List.length_nil, Nat.zero_add] at later
      rw [disasmFrom_unknown beyond, cuts_cons (by omega) (by omega),
        wellCut_four (high_nibble 15 d), ← later]
      refine and_iff_right ?_
      simp only [List.length_append, List.length_cons]
      omega
  | @truncated d sa sb rest cut =>
      rw [wellCut_cut (high_nibble 15 d) cut]
      refine iff_of_false (fun cuts => ?_) (by decide)
      by_cases secondary : sb.toNat < 9
      · rw [disasmFrom_truncated secondary cut] at cuts
        cases cuts.quiet
      · rw [disasmFrom_unknown (by omega), cuts_cons (by omega) (by omega)] at cuts
        have inside := cuts.1
        simp only [List.length_append, List.length_cons] at inside
        omega

theorem disasmFrom_entry (before rest : List Byte) (even : before.length % 2 = 0)
    {index start stop : Nat} {shown : DisInst}
    (started : (before.length ::
      (disasmFrom (before ++ rest) before.length).ends)[index]? = some start)
    (yielded : (disasmFrom (before ++ rest) before.length).1[index]? = some (stop, some shown)) :
    ∃ (item : Item) (prior after : List Byte), item.IsInst ∧ item.Shows shown ∧ start % 2 = 0 ∧
      stop = start + 2 * item.words.length ∧ prior.length = start ∧
      before ++ rest = prior ++ (wordBytes item.words ++ after) := by
  induction turns rest generalizing before index with
  | short short =>
      rw [disasmFrom_short short] at yielded
      simp at yielded
  | @item item after inst _ ih =>
      have bytes := length_wordBytes item.words
      obtain ⟨first, shows, turn⟩ :=
        disasmFrom_item inst (List.append_assoc before (wordBytes item.words) after)
      rw [turn] at started yielded
      cases index with
      | zero =>
          obtain rfl := Option.some.inj started
          obtain ⟨rfl, rfl⟩ : before.length + 2 * item.words.length = stop ∧ first = shown := by
            simpa using yielded
          exact ⟨item, before, after, inst, shows, even, rfl, rfl, rfl⟩
      | succ index =>
          have later := @ih (before ++ wordBytes item.words) (by rw [List.length_append]; omega) index
          rw [List.append_assoc, List.length_append, bytes] at later
          exact later started yielded
  | exp d second rest =>
      rw [disasmFrom_exp] at yielded
      simp at yielded
  | @unknown d sa sb third fourth after beyond _ ih =>
      rw [disasmFrom_unknown beyond] at started yielded
      cases index with
      | zero => simp at yielded
      | succ index =>
          have later := @ih (before ++ [(15 : Nibble) ++ d, sa ++ sb, third, fourth])
            (by simp only [List.length_append, List.length_cons, List.length_nil]; omega) index
          simp only [List.append_assoc, List.cons_append, List.nil_append, List.length_append,
            List.length_cons, List.length_nil, Nat.zero_add] at later
          exact later started yielded
  | @truncated d sa sb rest cut =>
      by_cases secondary : sb.toNat < 9
      · rw [disasmFrom_truncated secondary cut] at yielded
        simp at yielded
      · rw [disasmFrom_unknown (by omega)] at yielded
        have done : disasmFrom (before ++ ((15 : Nibble) ++ d : Byte) :: (sa ++ sb : Byte) :: rest)
            (before.length + 4) = ([], none) := by
          rw [disasmFrom, dif_neg]
          simp only [List.length_append, List.length_cons]
          omega
        rw [done] at yielded
        cases index <;> simp at yielded

end Cutting

/-- The listing of an input cuts it exactly when its bytes are well cut. -/
theorem disasm_cuts (binary : List Byte) :
    Cuts binary 0 (disasmBinary binary) ↔ wellCut binary = true :=
  wellCut_iff [] binary rfl

/-- A word with the primary opcode 14 raises an exception instead of yielding `None`. -/
theorem disasm_cuts_exp : ¬ Cuts [0xE0, 0x00] 0 (disasmBinary [0xE0, 0x00]) := by
  intro cuts
  have raised : disasmBinary [0xE0, 0x00] = ([], some .indexError) :=
    @disasmFrom_exp [] [] 0 0
  have quiet := cuts.quiet
  rw [raised] at quiet
  cases quiet

end Sigma16

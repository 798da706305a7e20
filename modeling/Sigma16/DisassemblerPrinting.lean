import Sigma16.DisassemblerListing
import Sigma16.TraceListing

/-!
What `disassembler.py` prints: one line for each entry of the listing, and why it ends.
The bytes it shows can be read back from the text, and the text shows nothing else.
-/

namespace Sigma16

open PyText Words Printing

def hexlify (bytes : List Byte) : Str :=
  [' '].intercalate (bytes.map fun byte => hexFormat 2 byte.toNat)

def lowerName (r : Register) : Str := 'r' :: decimal r.toNat

def paddedName (r : Register) : Str :=
  lowerName r ++ List.replicate (3 - (lowerName r).length) ' '

namespace DisInst

def str : DisInst → Str
  | rrr _ mnemonic d sa sb => ansiBlue ++ mnemonic ++ "\t".toList ++ ansiMagenta ++ paddedName d ++
      " ".toList ++ ansiBlue ++ paddedName sa ++ " ".toList ++ ansiGreen ++ lowerName sb ++ ansiOff
  | rx _ mnemonic d sa _ disp => ansiYellow ++ mnemonic ++ "\t".toList ++ ansiMagenta ++
      paddedName d ++ " ".toList ++ ansiOff ++ ansiCyan ++ "0x".toList ++ hexFormat 2 disp ++ ansiOff ++
      "[".toList ++ ansiBlue ++ lowerName sa ++ ansiOff ++ "]".toList

def annotateInstHex : DisInst → Str
  | rrr opcode _ d sa sb => ansiYellow ++ hexFormat 1 opcode ++ ansiMagenta ++ hexFormat 1 d.toNat ++
      " ".toList ++ ansiBlue ++ hexFormat 1 sa.toNat ++ ansiGreen ++ hexFormat 1 sb.toNat ++ ansiOff
  | rx opcode _ d sa sb disp => ansiYellow ++ hexFormat 1 opcode ++ ansiMagenta ++
      hexFormat 1 d.toNat ++ " ".toList ++ ansiBlue ++ hexFormat 1 sa.toNat ++ ansiYellow ++
      hexFormat 1 sb.toNat ++ " ".toList ++ ansiCyan ++
      hexlify [BitVec.ofNat 8 (disp >>> 8), BitVec.ofNat 8 disp] ++ ansiOff

end DisInst

def listingOffset (prevOffset : Nat) : Str :=
  "[".toList ++ hexFormat 4 prevOffset ++ ansiRed ++ "|".toList ++ ansiOff ++
    hexFormat 4 (prevOffset >>> 1) ++ "] ".toList

def listingEntry (slice : List Byte) : Option DisInst → Str
  | none => ansiCyan ++ hexlify slice ++ ansiOff ++ "\t ...".toList
  | some instruction => instruction.annotateInstHex ++ "\t\t".toList ++ instruction.str

def printListing (binary : List Byte) (prevOffset : Nat) :
    List (Nat × Option DisInst) → Str × Nat
  | [] => ([], prevOffset)
  | (offset, instruction) :: entries =>
      let rest := printListing binary offset entries
      (listingOffset prevOffset ++ listingEntry ((binary.take offset).drop prevOffset) instruction ++
        "\n".toList ++ rest.1, rest.2)

inductive DisExit where
  | done
  | message (text : Str)
  | raised (error : DisError)
  deriving DecidableEq

def DisExit.uncaught : Option DisError → DisExit
  | none => done
  | some error => raised error

def disasmMain (argv : List Str) (read : Str → Option (List Byte)) : Str × DisExit :=
  match argv with
  | [_, fname] =>
      match read fname with
      | some binary =>
          let (entries, raised) := disasmBinary binary
          let (text, prevOffset) := printListing binary 0 entries
          match raised with
          | some (.disassemblerError reason) =>
              (text, .message ("[!!] error disassembling: ".toList ++ reason ++
                " at offset 0x".toList ++ hexFormat 4 prevOffset))
          | raised => (text, .uncaught raised)
      | none => ([], .message ("unable to read ".toList ++ fname))
  | _ => ([], .message ("usage: ".toList ++ argv.headD [] ++ " in-file".toList))

inductive ListedPiece where
  | inst (item : Item) (isInst : item.IsInst)
  | unknown (bytes : List Byte)

def Item.entry : Item → Option DisInst
  | rrr op d sa sb => some (.rrr op (rrrInstructions.getD op []) d sa sb)
  | rx op d sa disp => some (.rx 15 (rxInstructions.getD op []) d sa (BitVec.ofNat 4 op) disp.word.toNat)
  | data _ => none

namespace ListedPiece

def bytes : ListedPiece → List Byte
  | inst item _ => wordBytes item.words
  | unknown bytes => bytes

/-- How far the offset moves, which may be beyond the end of the file. -/
def size : ListedPiece → Nat
  | inst item _ => 2 * item.words.length
  | unknown _ => 4

def entry : ListedPiece → Option DisInst
  | inst item _ => item.entry
  | unknown _ => none

def text (piece : ListedPiece) : Str := listingEntry piece.bytes piece.entry ++ "\n".toList

end ListedPiece

/-- How the bytes from an even offset on are listed, which of them are not, and why the
listing ends there. -/
inductive Pieces : List Byte → List ListedPiece → List Byte → Option DisError → Prop
  | short {bytes} : bytes.length < 2 → Pieces bytes [] bytes none
  | inst {item : Item} {after pieces rest error} (isInst : item.IsInst) :
      Pieces after pieces rest error →
        Pieces (wordBytes item.words ++ after) (.inst item isInst :: pieces) rest error
  | exp (d : Nibble) (second : Byte) (rest) :
      Pieces (((14 : Nibble) ++ d : Byte) :: second :: rest) []
        (((14 : Nibble) ++ d : Byte) :: second :: rest) (some .indexError)
  | unknown {d sa sb : Nibble} {third fourth : Byte} {after pieces rest error} : 9 ≤ sb.toNat →
      Pieces after pieces rest error →
        Pieces (((15 : Nibble) ++ d : Byte) :: (sa ++ sb : Byte) :: third :: fourth :: after)
          (.unknown [((15 : Nibble) ++ d : Byte), (sa ++ sb : Byte), third, fourth] :: pieces)
          rest error
  | cut {d sa sb : Nibble} {rest} : 9 ≤ sb.toNat → rest.length < 2 →
      Pieces (((15 : Nibble) ++ d : Byte) :: (sa ++ sb : Byte) :: rest)
        [.unknown (((15 : Nibble) ++ d : Byte) :: (sa ++ sb : Byte) :: rest)] [] none
  | truncated {d sa sb : Nibble} {rest} : sb.toNat < 9 → rest.length < 2 →
      Pieces (((15 : Nibble) ++ d : Byte) :: (sa ++ sb : Byte) :: rest) []
        (((15 : Nibble) ++ d : Byte) :: (sa ++ sb : Byte) :: rest) (some .structError)

def entriesFrom (prevOffset : Nat) : List ListedPiece → List (Nat × Option DisInst)
  | [] => []
  | piece :: pieces =>
      (prevOffset + piece.size, piece.entry) :: entriesFrom (prevOffset + piece.size) pieces

def textFrom (prevOffset : Nat) : List ListedPiece → Str
  | [] => []
  | piece :: pieces =>
      listingOffset prevOffset ++ (piece.text ++ textFrom (prevOffset + piece.size) pieces)

def endFrom (prevOffset : Nat) (pieces : List ListedPiece) : Nat :=
  pieces.foldl (fun offset piece => offset + piece.size) prevOffset

def listed (binary : List Byte) : List Byte :=
  binary.take (printListing binary 0 (disasmBinary binary).1).2

section Reading

theorem rrrInstructions_lower : ∀ op : Fin 14, ∀ entry ∈ instructions,
    entry.2.1 = (op.val : Int) → (entry.2.2 = .rrr ∨ entry.2.2 = .pseudo) →
      rrrInstructions.getD op.val [] = entry.1.map Char.toLower := by
  decide

theorem rxInstructions_lower : ∀ op : Fin 9, ∀ entry ∈ instructions,
    entry.2.1 = (op.val : Int) → entry.2.2 = .rx →
      rxInstructions.getD op.val [] = entry.1.map Char.toLower := by
  decide

theorem Item.Shows.entry {item : Item} {shown : DisInst} (shows : item.Shows shown) :
    item.entry = some shown := by
  cases item with
  | rrr op d sa sb =>
      obtain ⟨name, listed | listed, rfl⟩ := shows
      · rw [Item.entry, rrrInstructions_lower op _ listed rfl (.inl rfl)]
      · rw [Item.entry, rrrInstructions_lower op _ listed rfl (.inr rfl)]
  | rx op d sa disp =>
      obtain ⟨name, listed, rfl⟩ := shows
      rw [Item.entry, rxInstructions_lower op _ listed rfl rfl, Signed16.word, BitVec.toNat_ofInt]
      rfl
  | data value => exact shows.elim

theorem exists_pieces (bytes : List Byte) :
    ∃ pieces rest error, Pieces bytes pieces rest error := by
  induction turns bytes with
  | short short => exact ⟨_, _, _, .short short⟩
  | item inst _ ih =>
      obtain ⟨_, _, _, after⟩ := ih
      exact ⟨_, _, _, .inst inst after⟩
  | exp d second rest => exact ⟨_, _, _, .exp d second rest⟩
  | unknown beyond _ ih =>
      obtain ⟨_, _, _, after⟩ := ih
      exact ⟨_, _, _, .unknown beyond after⟩
  | @truncated d sa sb rest cut =>
      by_cases secondary : sb.toNat < 9
      · exact ⟨_, _, _, .truncated secondary cut⟩
      · exact ⟨_, _, _, .cut (Nat.not_lt.mp secondary) cut⟩

variable {bytes rest : List Byte} {pieces : List ListedPiece} {error : Option DisError}

theorem disasmFrom_pieces (before : List Byte) (cut : Pieces bytes pieces rest error) :
    disasmFrom (before ++ bytes) before.length = (entriesFrom before.length pieces, error) := by
  induction cut generalizing before with
  | short short => exact disasmFrom_short short
  | @inst item after pieces rest error isInst _ ih =>
      obtain ⟨shown, shows, turn⟩ :=
        disasmFrom_item isInst (List.append_assoc before (wordBytes item.words) after)
      have later := ih (before ++ wordBytes item.words)
      rw [List.append_assoc, List.length_append, length_wordBytes] at later
      rw [turn, later, ← shows.entry]
      rfl
  | exp d second rest => exact disasmFrom_exp d second
  | @unknown d sa sb third fourth after pieces rest error beyond _ ih =>
      have later := ih (before ++ [(15 : Nibble) ++ d, sa ++ sb, third, fourth])
      simp only [List.append_assoc, List.cons_append, List.nil_append, List.length_append,
        List.length_cons, List.length_nil, Nat.zero_add] at later
      rw [disasmFrom_unknown beyond, later]
      rfl
  | @cut d sa sb rest beyond short =>
      have done : disasmFrom (before ++ ((15 : Nibble) ++ d : Byte) :: (sa ++ sb : Byte) :: rest)
          (before.length + 4) = ([], none) := by
        rw [disasmFrom, dif_neg]
        simp only [List.length_append, List.length_cons]
        omega
      rw [disasmFrom_unknown beyond, done]
      rfl
  | truncated secondary short => exact disasmFrom_truncated secondary short

theorem slice_eq {before piece after : List Byte} {size : Nat}
    (whole : piece.length = size ∨ piece.length < size ∧ after = []) :
    ((before ++ (piece ++ after)).take (before.length + size)).drop before.length = piece := by
  rw [List.take_length_add_append, List.drop_left]
  rcases whole with rfl | ⟨short, rfl⟩
  · exact List.take_left
  · rw [List.append_nil, List.take_of_length_le short.le]

theorem Pieces.bytes_eq (cut : Pieces bytes pieces rest error) :
    bytes = pieces.flatMap ListedPiece.bytes ++ rest := by
  induction cut with
  | short _ | exp _ _ _ | truncated _ _ => rfl
  | inst isInst _ ih =>
      rw [List.flatMap_cons, List.append_assoc, ← ih]
      rfl
  | unknown _ _ ih =>
      rw [List.flatMap_cons, List.append_assoc, ← ih]
      rfl
  | cut _ _ => simp [ListedPiece.bytes]

theorem Pieces.shown (cut : Pieces bytes pieces rest error) :
    Pieces (pieces.flatMap ListedPiece.bytes) pieces [] none := by
  induction cut with
  | short _ | exp _ _ _ | truncated _ _ => exact .short (by simp)
  | inst isInst _ ih => exact .inst isInst ih
  | unknown beyond _ ih => exact .unknown beyond ih
  | cut beyond short =>
      simpa [ListedPiece.bytes] using Pieces.cut beyond short

theorem Pieces.errors (cut : Pieces bytes pieces rest error) :
    error = none ∨ error = some .indexError ∨ error = some .structError := by
  induction cut with
  | short _ | cut _ _ => exact .inl rfl
  | exp _ _ _ => exact .inr (.inl rfl)
  | truncated _ _ => exact .inr (.inr rfl)
  | inst _ _ ih | unknown _ _ ih => exact ih

theorem printListing_pieces (before : List Byte) (cut : Pieces bytes pieces rest error) :
    printListing (before ++ bytes) before.length (entriesFrom before.length pieces) =
      (textFrom before.length pieces, endFrom before.length pieces) := by
  induction cut generalizing before with
  | short _ | exp _ _ _ | truncated _ _ => rfl
  | @inst item after pieces rest error isInst _ ih =>
      have later := ih (before ++ wordBytes item.words)
      rw [List.append_assoc, List.length_append, length_wordBytes] at later
      rw [entriesFrom, printListing]
      simp only [ListedPiece.size, later, slice_eq (.inl (length_wordBytes item.words))]
      simp only [textFrom, ListedPiece.text, ListedPiece.bytes, ListedPiece.entry, ListedPiece.size,
        List.append_assoc]
      rfl
  | @unknown d sa sb third fourth after pieces rest error beyond _ ih =>
      have later := ih (before ++ [(15 : Nibble) ++ d, sa ++ sb, third, fourth])
      have slice := @slice_eq before [(15 : Nibble) ++ d, sa ++ sb, third, fourth] after 4 (.inl rfl)
      simp only [List.append_assoc, List.cons_append, List.nil_append, List.length_append,
        List.length_cons, List.length_nil, Nat.zero_add] at later slice
      rw [entriesFrom, printListing]
      simp only [ListedPiece.size, later, slice]
      simp only [textFrom, ListedPiece.text, ListedPiece.bytes, ListedPiece.entry, ListedPiece.size,
        List.append_assoc]
      rfl
  | @cut d sa sb rest beyond short =>
      have slice := @slice_eq before (((15 : Nibble) ++ d : Byte) :: (sa ++ sb : Byte) :: rest) [] 4
        (.inr ⟨by simp only [List.length_cons]; omega, rfl⟩)
      rw [List.append_nil] at slice
      simp only [entriesFrom, printListing, ListedPiece.size, slice]
      simp only [textFrom, ListedPiece.text, ListedPiece.bytes, ListedPiece.entry, List.append_assoc]
      rfl

theorem take_endFrom (before : List Byte) (cut : Pieces bytes pieces rest error) :
    (before ++ bytes).take (endFrom before.length pieces) =
      before ++ pieces.flatMap ListedPiece.bytes := by
  induction cut generalizing before with
  | short _ | exp _ _ _ | truncated _ _ => simp [endFrom]
  | @inst item after pieces rest error isInst _ ih =>
      have later := ih (before ++ wordBytes item.words)
      rw [List.append_assoc, List.append_assoc, List.length_append, length_wordBytes] at later
      exact later
  | @unknown d sa sb third fourth after pieces rest error beyond _ ih =>
      have later := ih (before ++ [(15 : Nibble) ++ d, sa ++ sb, third, fourth])
      simp only [List.append_assoc, List.cons_append, List.nil_append, List.length_append,
        List.length_cons, List.length_nil, Nat.zero_add] at later
      exact later
  | @cut d sa sb rest beyond short =>
      have inside : (before ++ ((15 : Nibble) ++ d : Byte) :: (sa ++ sb : Byte) :: rest).length ≤
          before.length + 4 := by
        simp only [List.length_append, List.length_cons]
        omega
      simpa [endFrom, ListedPiece.size, ListedPiece.bytes] using inside

theorem listed_pieces (cut : Pieces bytes pieces rest error) :
    listed bytes = pieces.flatMap ListedPiece.bytes := by
  have entries := disasmFrom_pieces [] cut
  have printed := printListing_pieces [] cut
  rw [List.nil_append, List.length_nil] at entries printed
  rw [listed, disasmBinary, entries, printed]
  exact take_endFrom [] cut

theorem disasmMain_pieces (program fname : Str) (cut : Pieces bytes pieces rest error) :
    disasmMain [program, fname] (fun _ => some bytes) =
      (textFrom 0 pieces, .uncaught error) := by
  have entries := disasmFrom_pieces [] cut
  have printed := printListing_pieces [] cut
  rw [List.nil_append, List.length_nil] at entries printed
  simp only [disasmMain, disasmBinary, entries, printed]
  rcases cut.errors with rfl | rfl | rfl <;> rfl

end Reading

section Texts

theorem hexNibble_code : IsPrefixCode fun r : Nibble => hexFormat 1 r.toNat := by
  refine .of_length (fun a b same => ?_) 1 fun r => hexFormat_length (by decide) r.isLt
  exact BitVec.eq_of_toNat_eq (hexFormat_injective 1 same)

theorem hexByte_code : IsPrefixCode fun byte : Byte => hexFormat 2 byte.toNat := by
  refine .of_length (fun a b same => ?_) 2 fun byte => hexFormat_length (by decide) byte.isLt
  exact BitVec.eq_of_toNat_eq (hexFormat_injective 2 same)

theorem hexByte_ne_escape (byte : Byte) (rest more : Str) :
    hexFormat 2 byte.toNat ++ rest ≠ '\x1b' :: more := by
  have absent : ∀ byte : Byte, '\x1b' ∉ hexFormat 2 byte.toNat := by decide +kernel
  have length : (hexFormat 2 byte.toNat).length = 2 := hexFormat_length (by decide) byte.isLt
  intro same
  refine absent byte ?_
  match hexFormat 2 byte.toNat, length, same with
  | first :: _, _, same =>
      rw [(List.cons.inj same).1]
      exact List.mem_cons_self

theorem hexlify_cons (byte : Byte) (bytes : List Byte) :
    hexlify (byte :: bytes) = hexFormat 2 byte.toNat ++
      if bytes = [] then [] else ' ' :: hexlify bytes := by
  cases bytes with
  | nil => simp [hexlify]
  | cons next bytes => simp [hexlify, List.intercalate_cons_cons]

theorem hexlify_code : IsPrefixCode fun bytes => hexlify bytes ++ ['\x1b'] := by
  refine .of_append_inj fun a b rest more same => ?_
  simp only [List.append_assoc, List.singleton_append] at same
  induction a generalizing b with
  | nil =>
      cases b with
      | nil => rfl
      | cons byte bytes =>
          rw [hexlify_cons, List.append_assoc] at same
          exact absurd same.symm (hexByte_ne_escape byte _ _)
  | cons byte bytes ih =>
      cases b with
      | nil =>
          rw [hexlify_cons, List.append_assoc] at same
          exact absurd same (hexByte_ne_escape byte _ _)
      | cons other others =>
          rw [hexlify_cons, hexlify_cons, List.append_assoc, List.append_assoc] at same
          obtain ⟨rfl, behind⟩ := hexByte_code.append_inj same
          by_cases last : bytes = [] <;> by_cases otherLast : others = []
          · rw [last, otherLast]
          · simp [last, otherLast] at behind
          · simp [last, otherLast] at behind
          · simp only [last, otherLast, if_false, List.cons_append, List.cons.injEq,
              true_and] at behind
            rw [ih others behind]

def headText (op d sa : Nibble) : Str :=
  ansiYellow ++ (hexFormat 1 op.toNat ++ (ansiMagenta ++ (hexFormat 1 d.toNat ++
    (" ".toList ++ (ansiBlue ++ hexFormat 1 sa.toNat)))))

theorem headText_inj {op d sa op' d' sa' : Nibble} {rest more : Str}
    (same : headText op d sa ++ rest = headText op' d' sa' ++ more) :
    op = op' ∧ d = d' ∧ sa = sa' ∧ rest = more := by
  simp only [headText, List.append_assoc] at same
  obtain ⟨first, same⟩ := hexNibble_code.split_inj (List.append_cancel_left same)
  obtain ⟨second, same⟩ := hexNibble_code.append_inj same
  obtain ⟨third, same⟩ := hexNibble_code.append_inj
    (List.append_cancel_left (List.append_cancel_left same))
  exact ⟨first, second, third, same⟩

theorem rrr_text (op : Fin 14) (d sa sb : Register) (isInst) (rest : Str) : ∃ behind,
    (ListedPiece.inst (.rrr op d sa sb) isInst).text ++ rest = headText (BitVec.ofNat 4 op) d sa ++
      (ansiGreen ++ (hexFormat 1 sb.toNat ++ behind)) := by
  have number : (BitVec.ofNat 4 op.val).toNat = op.val := ofNat_toNat_of_lt (by omega)
  refine ⟨ansiOff ++ ("\t\t".toList ++
    ((DisInst.rrr op (rrrInstructions.getD op []) d sa sb).str ++ ("\n".toList ++ rest))), ?_⟩
  simp only [ListedPiece.text, ListedPiece.entry, Item.entry, listingEntry, DisInst.annotateInstHex,
    headText, number, List.append_assoc]

theorem to_bytes_word (word : Word) :
    [BitVec.ofNat 8 (word.toNat >>> 8), BitVec.ofNat 8 word.toNat] = [highByte word, lowByte word] := by
  have high : BitVec.ofNat 8 (word.toNat >>> 8) = highByte word := by
    apply BitVec.eq_of_toNat_eq
    simp [highByte]
  have low : BitVec.ofNat 8 word.toNat = lowByte word := by
    apply BitVec.eq_of_toNat_eq
    simp [lowByte]
  rw [high, low]

theorem rx_text (op : Fin 9) (d sa : Register) (disp : Signed16) (isInst) (rest : Str) : ∃ behind,
    (ListedPiece.inst (.rx op d sa disp) isInst).text ++ rest = headText 15 d sa ++
      (ansiYellow ++ (hexFormat 1 (BitVec.ofNat 4 op.val).toNat ++ (" ".toList ++ (ansiCyan ++
        ((hexlify [highByte disp.word, lowByte disp.word] ++ ['\x1b']) ++ behind))))) := by
  have escape : ansiOff = ['\x1b'] ++ "[0m".toList := by decide
  refine ⟨"[0m".toList ++ ("\t\t".toList ++ ((DisInst.rx 15 (rxInstructions.getD op []) d sa
    (BitVec.ofNat 4 op) disp.word.toNat).str ++ ("\n".toList ++ rest))), ?_⟩
  simp only [ListedPiece.text, ListedPiece.entry, Item.entry, listingEntry, DisInst.annotateInstHex,
    headText, to_bytes_word, escape, List.append_assoc]
  rfl

theorem unknown_text (bytes : List Byte) (rest : Str) : ∃ behind,
    (ListedPiece.unknown bytes).text ++ rest =
      ansiCyan ++ ((hexlify bytes ++ ['\x1b']) ++ behind) := by
  have escape : ansiOff = ['\x1b'] ++ "[0m".toList := by decide
  refine ⟨"[0m".toList ++ ("\t ...".toList ++ ("\n".toList ++ rest)), ?_⟩
  simp only [ListedPiece.text, ListedPiece.entry, ListedPiece.bytes, listingEntry, escape,
    List.append_assoc]

theorem Signed16.word_injective : Function.Injective Signed16.word := by
  intro a b same
  have signed := congrArg BitVec.toInt same
  have toInt : ∀ value : Signed16, value.word.toInt = value.val := fun value =>
    BitVec.toInt_ofInt_eq_self (by decide) value.property.1 (by have := value.property.2; omega)
  rw [toInt, toInt] at signed
  exact Subtype.ext signed

theorem ofNat_nibble_inj {a b : Nat} (small : a < 16) (other : b < 16)
    (same : BitVec.ofNat 4 a = BitVec.ofNat 4 b) : a = b := by
  have number := congrArg BitVec.toNat same
  rwa [ofNat_toNat_of_lt small, ofNat_toNat_of_lt other] at number

theorem headText_ne_cyan (op d sa : Nibble) (rest more : Str) :
    headText op d sa ++ rest ≠ ansiCyan ++ more := by
  intro same
  have char := congrArg (fun text => text[3]?) same
  simp [headText, ansiYellow, ansiCyan] at char

theorem rrr_text_inj {op op' : Fin 14} {d sa sb d' sa' sb' : Register} {isInst isInst'}
    {rest more : Str}
    (same : (ListedPiece.inst (.rrr op d sa sb) isInst).text ++ rest =
      (ListedPiece.inst (.rrr op' d' sa' sb') isInst').text ++ more) :
    Item.rrr op d sa sb = .rrr op' d' sa' sb' := by
  obtain ⟨behind, text⟩ := rrr_text op d sa sb isInst rest
  obtain ⟨behind', text'⟩ := rrr_text op' d' sa' sb' isInst' more
  obtain ⟨sameOp, rfl, rfl, tail⟩ := headText_inj ((text.symm.trans same).trans text')
  obtain ⟨rfl, _⟩ := hexNibble_code.append_inj (List.append_cancel_left tail)
  rw [Fin.ext (ofNat_nibble_inj (by omega) (by omega) sameOp)]

theorem rx_text_inj {op op' : Fin 9} {d sa d' sa' : Register} {disp disp' : Signed16}
    {isInst isInst'} {rest more : Str}
    (same : (ListedPiece.inst (.rx op d sa disp) isInst).text ++ rest =
      (ListedPiece.inst (.rx op' d' sa' disp') isInst').text ++ more) :
    Item.rx op d sa disp = .rx op' d' sa' disp' := by
  obtain ⟨behind, text⟩ := rx_text op d sa disp isInst rest
  obtain ⟨behind', text'⟩ := rx_text op' d' sa' disp' isInst' more
  obtain ⟨-, rfl, rfl, tail⟩ := headText_inj ((text.symm.trans same).trans text')
  obtain ⟨sameOp, tail⟩ := hexNibble_code.append_inj (List.append_cancel_left tail)
  have shown := List.append_cancel_left (List.append_cancel_left tail)
  obtain ⟨sameBytes, _⟩ := hexlify_code.append_inj shown
  simp only [List.cons.injEq, and_true] at sameBytes
  have sameWord : disp.word = disp'.word := by
    rw [← highByte_append_lowByte disp.word, sameBytes.1, sameBytes.2, highByte_append_lowByte]
  rw [Fin.ext (ofNat_nibble_inj (by omega) (by omega) sameOp), Signed16.word_injective sameWord]

theorem rrr_text_ne_rx {op : Fin 14} {op' : Fin 9} {d sa sb d' sa' : Register} {disp : Signed16}
    {isInst isInst'} {rest more : Str} :
    (ListedPiece.inst (.rrr op d sa sb) isInst).text ++ rest ≠
      (ListedPiece.inst (.rx op' d' sa' disp) isInst').text ++ more := by
  have formats : ∀ op : Fin 14, BitVec.ofNat 4 op.val ≠ 15 := by decide
  obtain ⟨behind, text⟩ := rrr_text op d sa sb isInst rest
  obtain ⟨behind', text'⟩ := rx_text op' d' sa' disp isInst' more
  intro same
  exact formats op (headText_inj ((text.symm.trans same).trans text')).1

theorem inst_text_ne_unknown {item : Item} {isInst} {bytes : List Byte} {rest more : Str} :
    (ListedPiece.inst item isInst).text ++ rest ≠ (ListedPiece.unknown bytes).text ++ more := by
  obtain ⟨behind, text⟩ := unknown_text bytes more
  intro same
  cases item with
  | data value => exact isInst.elim
  | rrr op d sa sb =>
      obtain ⟨behind', text'⟩ := rrr_text op d sa sb isInst rest
      exact headText_ne_cyan _ _ _ _ _ ((text'.symm.trans same).trans text)
  | rx op d sa disp =>
      obtain ⟨behind', text'⟩ := rx_text op d sa disp isInst rest
      exact headText_ne_cyan _ _ _ _ _ ((text'.symm.trans same).trans text)

theorem unknown_text_inj {bytes others : List Byte} {rest more : Str}
    (same : (ListedPiece.unknown bytes).text ++ rest = (ListedPiece.unknown others).text ++ more) :
    bytes = others := by
  obtain ⟨behind, text⟩ := unknown_text bytes rest
  obtain ⟨behind', text'⟩ := unknown_text others more
  exact (hexlify_code.append_inj
    (List.append_cancel_left ((text.symm.trans same).trans text'))).1

theorem inst_text_inj {first second : Item} {isInst isInst'} {rest more : Str}
    (same : (ListedPiece.inst first isInst).text ++ rest =
      (ListedPiece.inst second isInst').text ++ more) : first = second := by
  cases first with
  | data value => exact isInst.elim
  | rrr op d sa sb =>
      cases second with
      | data value => exact isInst'.elim
      | rrr op' d' sa' sb' => exact rrr_text_inj same
      | rx op' d' sa' disp' => exact absurd same rrr_text_ne_rx
  | rx op d sa disp =>
      cases second with
      | data value => exact isInst'.elim
      | rrr op' d' sa' sb' => exact absurd same.symm rrr_text_ne_rx
      | rx op' d' sa' disp' => exact rx_text_inj same

theorem text_code : IsPrefixCode ListedPiece.text := by
  refine .of_append_inj fun a b rest more same => ?_
  cases a with
  | inst first isInst =>
      cases b with
      | inst second isInst' =>
          obtain rfl := inst_text_inj same
          rfl
      | unknown bytes => exact absurd same inst_text_ne_unknown
  | unknown bytes =>
      cases b with
      | inst second isInst' => exact absurd same.symm inst_text_ne_unknown
      | unknown others => rw [unknown_text_inj same]

theorem offset_append_ne_nil (prevOffset : Nat) (rest : Str) :
    [] ≠ listingOffset prevOffset ++ rest := by
  intro empty
  simp [listingOffset] at empty

theorem textFrom_injective (prevOffset : Nat) : Function.Injective (textFrom prevOffset) := by
  intro pieces others same
  induction pieces generalizing prevOffset others with
  | nil =>
      cases others with
      | nil => rfl
      | cons other others => exact absurd same (offset_append_ne_nil _ _)
  | cons piece pieces ih =>
      cases others with
      | nil => exact absurd same.symm (offset_append_ne_nil _ _)
      | cons other others =>
          -- the first lines start at one offset, and equal pieces move it alike
          obtain ⟨rfl, behind⟩ := text_code.append_inj (List.append_cancel_left same)
          rw [ih _ behind]

end Texts

inductive Ends : List Byte → DisExit → Prop
  | done {rest} : rest.length < 2 → Ends rest .done
  | exp (d : Nibble) (second : Byte) (rest) :
      Ends (((14 : Nibble) ++ d : Byte) :: second :: rest) (.raised .indexError)
  | truncated {d sa sb : Nibble} {rest} : sb.toNat < 9 → rest.length < 2 →
      Ends (((15 : Nibble) ++ d : Byte) :: (sa ++ sb : Byte) :: rest) (.raised .structError)

theorem Pieces.ends {bytes rest : List Byte} {pieces : List ListedPiece} {error : Option DisError}
    (cut : Pieces bytes pieces rest error) :
    Ends rest (.uncaught error) := by
  induction cut with
  | short short => exact .done short
  | inst _ _ ih | unknown _ _ ih => exact ih
  | exp d second rest => exact .exp d second rest
  | cut _ _ => exact .done (by decide)
  | truncated secondary short => exact .truncated secondary short

/-- Two files are printed alike exactly when the same bytes of them are shown. -/
theorem disassembly_inj (program fname : Str) (a b : List Byte) :
    (disasmMain [program, fname] fun _ => some a).1 =
      (disasmMain [program, fname] fun _ => some b).1 ↔ listed a = listed b := by
  obtain ⟨pieces, _, _, cut⟩ := exists_pieces a
  obtain ⟨others, _, _, cut'⟩ := exists_pieces b
  rw [disasmMain_pieces program fname cut, disasmMain_pieces program fname cut', listed_pieces cut,
    listed_pieces cut']
  constructor
  · intro same
    rw [textFrom_injective 0 same]
  · intro same
    have first := disasmMain_pieces program fname cut.shown
    have second := disasmMain_pieces program fname cut'.shown
    rw [same, second] at first
    exact (congrArg Prod.fst first).symm

/-- What is not shown of a file is why its listing ends; no line tells the user. -/
theorem disassembly_ends (program fname : Str) (binary : List Byte) :
    ∃ rest, binary = listed binary ++ rest ∧
      Ends rest (disasmMain [program, fname] fun _ => some binary).2 := by
  obtain ⟨pieces, rest, error, cut⟩ := exists_pieces binary
  refine ⟨rest, ?_, ?_⟩
  · rw [listed_pieces cut]
    exact cut.bytes_eq
  · rw [disasmMain_pieces program fname cut]
    exact cut.ends

def codeListing (offset : Nat) : List Item → Str
  | [] => []
  | item :: items => listingOffset offset ++ (listingEntry (wordBytes item.words) item.entry ++
      "\n".toList ++ codeListing (offset + 2 * item.words.length) items)

section Code

variable {items : List Item} {bytes rest : List Byte} {pieces : List ListedPiece}
variable {error : Option DisError}

theorem pieces_code (insts : ∀ item ∈ items, item.IsInst) (cut : Pieces bytes pieces rest error) :
    Pieces (wordBytes (codeWords items) ++ bytes) (items.pmap .inst insts ++ pieces) rest error := by
  induction items with
  | nil => exact cut
  | cons item items ih =>
      have later := ih fun other member => insts other (by simp [member])
      have whole := Pieces.inst (insts item (by simp)) later
      simpa [codeWords] using whole

theorem textFrom_code (insts : ∀ item ∈ items, item.IsInst) (offset : Nat) :
    ∃ behind, textFrom offset (items.pmap .inst insts ++ pieces) =
      codeListing offset items ++ behind ∧ (pieces = [] → behind = []) := by
  induction items generalizing offset with
  | nil => exact ⟨textFrom offset pieces, rfl, fun none => none ▸ rfl⟩
  | cons item items ih =>
      obtain ⟨behind, text, last⟩ := ih (fun other member => insts other (by simp [member]))
        (offset + 2 * item.words.length)
      refine ⟨behind, ?_, last⟩
      simp only [List.pmap_cons, List.cons_append, textFrom, ListedPiece.text, ListedPiece.bytes,
        ListedPiece.entry, ListedPiece.size, text, codeListing, List.append_assoc]

end Code

/-- Instructions at the front of a file are listed as such, whatever follows them; a file of
nothing else is listed to its end. -/
theorem disassembly_code (program fname : Str) {items : List Item}
    (insts : ∀ item ∈ items, item.IsInst) (bytes : List Byte) :
    (∃ behind, (disasmMain [program, fname] fun _ => some (wordBytes (codeWords items) ++ bytes)).1 =
      codeListing 0 items ++ behind) ∧
    disasmMain [program, fname] (fun _ => some (wordBytes (codeWords items))) =
      (codeListing 0 items, .done) := by
  constructor
  · obtain ⟨pieces, rest, error, cut⟩ := exists_pieces bytes
    obtain ⟨behind, text, -⟩ := @textFrom_code items pieces insts 0
    exact ⟨behind, by rw [disasmMain_pieces program fname (pieces_code insts cut), text]⟩
  · have whole := pieces_code insts (.short (by decide : ([] : List Byte).length < 2))
    obtain ⟨behind, text, last⟩ := @textFrom_code items [] insts 0
    rw [List.append_nil] at whole
    rw [disasmMain_pieces program fname whole, text, last rfl, List.append_nil]
    rfl

theorem disassembly_code_jump :
    (disasmMain ["disassembler.py".toList, "a.out".toList] fun _ =>
      some [0x01, 0x23, 0xF0, 0x03, 0x00, 0x05]) =
    (("[0000\x1b[31m|\x1b[0m0000] \x1b[33m0\x1b[35m1 \x1b[34m2\x1b[32m3\x1b[0m\t\t" ++
      "\x1b[34madd\t\x1b[35mr1  \x1b[34mr2  \x1b[32mr3\x1b[0m\n" ++
      "[0002\x1b[31m|\x1b[0m0001] \x1b[33mf\x1b[35m0 \x1b[34m0\x1b[33m3 \x1b[36m00 05\x1b[0m\t\t" ++
      "\x1b[33mjump\t\x1b[35mr0  \x1b[0m\x1b[36m0x05\x1b[0m[\x1b[34mr0\x1b[0m]\n").toList, .done) := by
  have insts : ∀ item ∈ [Item.rrr 0 1 2 3, .rx 3 0 0 ⟨5, by decide⟩], item.IsInst := by
    simp [Item.IsInst]
  have listed := (disassembly_code "disassembler.py".toList "a.out".toList insts []).2
  exact listed.trans (by decide +kernel)

end Sigma16

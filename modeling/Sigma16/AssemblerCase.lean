import Sigma16.AssemblerComments

/-!
The letter case of a source. Lines with the same capitals are parsed alike, whatever the case
of their mnemonics, registers, digits and labels: `verify` cuts a line where it cuts its capitals.
-/

namespace Sigma16

open PyText Fallible
open Unicode (isSpace)

section Cutting

variable {α β : Type} {each : α → List β} {p : α → Bool} {q : β → Bool}

def Decides (each : α → List β) (p : α → Bool) (q : β → Bool) : Prop :=
  ∀ a, each a ≠ [] ∧ ∀ b ∈ each a, q b = p a

theorem Decides.dropWhile (decides : Decides each p q) (text : List α) :
    (text.flatMap each).dropWhile q = (text.dropWhile p).flatMap each := by
  induction text with
  | nil => rfl
  | cons a text ih =>
      obtain ⟨nonempty, pieces⟩ := decides a
      rw [List.flatMap_cons]
      cases passes : p a with
      | true =>
          rw [List.dropWhile_append_of_pos fun b member => (pieces b member).trans passes, ih,
            List.dropWhile_cons_of_pos passes]
      | false =>
          obtain ⟨b, more, shape⟩ := List.exists_cons_of_ne_nil nonempty
          have first := pieces b (by simp [shape])
          rw [List.dropWhile_cons_of_neg (by simp [passes]), List.flatMap_cons, shape,
            List.cons_append, List.dropWhile_cons_of_neg (by simp [first, passes])]

theorem Decides.takeWhile (decides : Decides each p q) (text : List α) :
    (text.flatMap each).takeWhile q = (text.takeWhile p).flatMap each := by
  induction text with
  | nil => rfl
  | cons a text ih =>
      obtain ⟨nonempty, pieces⟩ := decides a
      rw [List.flatMap_cons]
      cases passes : p a with
      | true =>
          rw [List.takeWhile_append_of_pos fun b member => (pieces b member).trans passes, ih,
            List.takeWhile_cons_of_pos passes, List.flatMap_cons]
      | false =>
          obtain ⟨b, more, shape⟩ := List.exists_cons_of_ne_nil nonempty
          have first := pieces b (by simp [shape])
          rw [List.takeWhile_cons_of_neg (by simp [passes]), shape, List.cons_append,
            List.takeWhile_cons_of_neg (by simp [first, passes])]
          rfl

theorem Decides.rdropWhile (decides : Decides each p q) (text : List α) :
    (text.flatMap each).rdropWhile q = (text.rdropWhile p).flatMap each := by
  have reversed : Decides (List.reverse ∘ each) p q := by
    intro a
    obtain ⟨nonempty, pieces⟩ := decides a
    exact ⟨by simpa using nonempty, fun b member => pieces b (by simpa using member)⟩
  rw [List.rdropWhile, List.rdropWhile, List.reverse_flatMap, reversed.dropWhile,
    List.reverse_flatMap]
  congr 1
  funext a
  simp

end Cutting

section Capitals

variable {line : Str}

theorem upper_semicolon {char : Char} (member : ';' ∈ Unicode.upper char) : char = ';' := by
  have ascii : ∀ code < 128, (Char.ofNat code).toUpper = ';' → Char.ofNat code = ';' := by
    decide +kernel
  have specials : ∀ entry ∈ Unicode.upperSpecials, ∀ code ∈ entry.2, Char.ofNat code ≠ ';' := by
    decide +kernel
  have runs : ∀ run ∈ Unicode.upperRuns,
      (59 : Int) < run.first + run.shift ∨ (run.last : Int) + run.shift < 59 := by
    decide +kernel
  unfold Unicode.upper at member
  split at member
  · rename_i small
    have capital := ascii char.toNat small
    rw [Char.ofNat_toNat] at capital
    exact capital (List.mem_singleton.mp member).symm
  · split at member
    · rename_i codes found
      obtain ⟨code, inside, same⟩ := List.mem_map.mp member
      exact absurd same (specials (char.toNat, codes) (mem_of_lookup found) code inside)
    · split at member
      · rename_i run found
        have same := List.mem_singleton.mp member
        have apart := runs run (List.mem_of_find?_eq_some found)
        have covered := List.find?_some found
        simp only [Unicode.UpperRun.covers, Bool.and_eq_true, decide_eq_true_eq] at covered
        have number : (59 : Nat) = (Char.ofNat (char.toNat + run.shift).toNat).toNat :=
          congrArg Char.toNat same
        rcases toNat_ofNat (char.toNat + run.shift).toNat with shifted | zero <;> omega
      · exact (List.mem_singleton.mp member).symm

theorem upper_decides_space : Decides Unicode.upper isSpace isSpace := by
  intro char
  refine ⟨upper_ne_nil char, fun other member => ?_⟩
  cases space : isSpace char with
  | true =>
      rw [upper_blank space] at member
      rwa [List.mem_singleton.mp member]
  | false => exact upper_visible space member

theorem upper_decides_comment : Decides Unicode.upper (· ≠ ';') (· ≠ ';') := by
  intro char
  refine ⟨upper_ne_nil char, fun other member => ?_⟩
  by_cases semicolon : char = ';'
  · subst semicolon
    rw [List.mem_singleton.mp (show other ∈ [';'] from member)]
  · have apart : other ≠ ';' := by
      rintro rfl
      exact semicolon (upper_semicolon member)
    simp [semicolon, apart]

theorem upper_strip (text : Str) : upper (strip text) = strip (upper text) := by
  rw [strip, strip, upper, upper, upper_decides_space.dropWhile, upper_decides_space.rdropWhile]

theorem verify_eq_takeWhile (line : Str) : verify line = (strip line).takeWhile (· ≠ ';') := by
  by_cases comment : ';' ∈ strip line
  · obtain ⟨before, after, split, uncommented⟩ := List.eq_append_cons_of_mem comment
    have nonempty : strip line ≠ [] := by simp [split]
    have kept : ∀ char ∈ before, decide (char ≠ ';') = true := by
      intro char member
      simpa using ne_of_mem_of_not_mem member uncommented
    rw [verify, if_neg nonempty, split, List.splitOn_append_cons_self_of_not_mem uncommented,
      List.takeWhile_append_of_pos kept, List.takeWhile_cons_of_neg (by decide), List.append_nil]
    rfl
  · rw [verify_strip comment, List.takeWhile_eq_self_iff.mpr]
    intro char member
    simpa using ne_of_mem_of_not_mem member comment

theorem upper_verify (line : Str) : upper (verify line) = verify (upper line) := by
  rw [verify_eq_takeWhile, verify_eq_takeWhile, ← upper_strip, upper, upper,
    upper_decides_comment.takeWhile]

theorem upper_eq_nil {text : Str} : upper text = [] ↔ text = [] := by
  rw [upper, List.flatMap_eq_nil_iff, List.eq_nil_iff_forall_not_mem]
  exact forall₂_congr fun char _ => iff_false_intro (upper_ne_nil char)

end Capitals

def ParseState.capitals (state : ParseState) : ParseState :=
  { state with errors := state.errors.map fun error => { error with line := upper error.line } }

section Parsing

variable {state other : ParseState}

theorem addParsed_capitals (same : state.capitals = other.capitals) (parsed : Parsed) :
    (addParsed state parsed).map ParseState.capitals =
      (addParsed other parsed).map ParseState.capitals := by
  obtain ⟨linker, counted, printed⟩ := ParseState.mk.inj same
  cases parsed with
  | obj obj => simp only [addParsed, ParseState.capitals, Except.map, linker, counted, printed]
  | label name =>
      simp only [addParsed, linker, counted]
      split <;> simp only [ParseState.capitals, Except.map, printed]

theorem parseLine_capitals {line text : Str} (same : state.capitals = other.capitals)
    (alike : upper line = upper text) (number : Nat) :
    (parseLine state (line, number)).map ParseState.capitals =
      (parseLine other (text, number)).map ParseState.capitals := by
  have read : upper (verify line) = upper (verify text) := by
    rw [upper_verify, upper_verify, alike]
  have shown : upper (strip line) = upper (strip text) := by
    rw [upper_strip, upper_strip, alike]
  have blank : verify line = [] ↔ verify text = [] := by
    rw [← upper_eq_nil, read, upper_eq_nil]
  simp only [parseLine, blank, read]
  split
  · exact congrArg Except.ok same
  · cases parseString (upper (verify text)) with
    | ok parsed => exact addParsed_capitals same parsed
    | error error => cases error with
      | parserError reason =>
          simp only [ParseState.capitals, ParseState.mk.injEq] at same
          simp [ParseState.capitals, Except.map, same, shown]
      | _ => rfl

theorem foldlM_capitals {lines others : List Str} (same : state.capitals = other.capitals)
    (alike : lines.map upper = others.map upper) (number : Nat) :
    ((lines.zipIdx number).foldlM parseLine state).map ParseState.capitals =
      ((others.zipIdx number).foldlM parseLine other).map ParseState.capitals := by
  induction lines generalizing others state other number with
  | nil =>
      obtain rfl : others = [] := List.map_eq_nil_iff.mp alike.symm
      exact congrArg Except.ok same
  | cons line lines ih =>
      cases others with
      | nil => cases alike
      | cons text others =>
          obtain ⟨first, rest⟩ := List.cons.inj alike
          rw [List.zipIdx_cons, List.zipIdx_cons, List.foldlM_cons, List.foldlM_cons]
          rcases map_eq_map (parseLine_capitals same first number) with ⟨err, failed, also⟩ |
            ⟨next, after, ran, also, kept⟩
          · rw [failed, also]
            rfl
          · rw [ran, also]
            exact ih kept rest (number + 1)

end Parsing

/-- Sources with the same capitals, also beyond ASCII, are read as the same objects and labels,
get the same diagnostics at the same lines, and are assembled to the same file. -/
theorem case_insensitive {lines others : List Str} (same : lines.map upper = others.map upper) :
    (parseLines lines).map ParseState.capitals = (parseLines others).map ParseState.capitals ∧
      assemblerMain lines = assemblerMain others := by
  have parsed : (parseLines lines).map ParseState.capitals =
      (parseLines others).map ParseState.capitals := foldlM_capitals rfl same 0
  refine ⟨parsed, assemblerMain_quiet ?_⟩
  rcases map_eq_map parsed with ⟨err, failed, also⟩ | ⟨state, other, ran, also, kept⟩
  · rw [failed, also]
  · rw [ran, also]
    exact congrArg Except.ok (ParseState.mk.inj kept).1

theorem case_insensitive_label :
    assemblerMain ["Straße: ; entry\n".toList, "Jump strasse[r0]\n".toList] =
      assemblerMain ["STRASSE: ; ENTRY\n".toList, "JUMP STRASSE[R0]\n".toList] :=
  (case_insensitive (by decide +kernel)).2

end Sigma16

import Sigma16.AssemblerLinking

/-!
`main`: when the output path is opened, what it holds at the end, and what is printed
about the lines that were rejected before.
-/

namespace Sigma16

open PyText Words Fallible

/-- How `main` ends, given a readable source and a writable output path: the bytes the
path was overwritten with, unless it was never opened, and the exception. -/
structure MainEnd where
  output : Option (List Byte)
  raised : Option PyError
  deriving DecidableEq

/-- The flag `errors` of `parse_lines` is only printed. -/
def assemblerMain (lines : List Str) : MainEnd :=
  match parseLines lines with
  | .error error => ⟨none, some error⟩
  | .ok state => match link state.linker with
    | .error error => ⟨none, some error⟩
    | .ok linked => ⟨some (writeCode linked.objs).1, (writeCode linked.objs).2⟩

def Rejected (line : Str) : Prop :=
  verify line ≠ [] ∧ ∃ reason, parseString (upper (verify line)) = .error (.parserError reason)

section Rejecting

variable {state next : ParseState} {numbered : Str × Nat}

/-- What is printed about a line with its number, which counts from 0. -/
def diagnose (numbered : Str × Nat) : Option Diagnostic :=
  if verify numbered.1 = [] then none
  else match parseString (upper (verify numbered.1)) with
    | .error (.parserError reason) => some ⟨reason, numbered.2 + 1, strip numbered.1⟩
    | _ => none

theorem diagnose_eq_none : diagnose numbered = none ↔ ¬ Rejected numbered.1 := by
  unfold diagnose Rejected
  split
  · rename_i blank
    simp [blank]
  · rename_i content
    split
    · rename_i reason failed
      simp [content, failed]
    · rename_i other
      simp only [ne_eq, content, not_false_eq_true, true_and, not_exists, true_iff]
      exact other

theorem parseLine_diagnoses (parsed : parseLine state numbered = .ok next) :
    next.errors = state.errors ++ (diagnose numbered).toList := by
  unfold parseLine at parsed
  unfold diagnose
  by_cases blank : verify numbered.1 = []
  · obtain rfl := Except.ok.inj ((if_pos blank).symm.trans parsed)
    simp [blank]
  · simp only [blank, if_false] at parsed ⊢
    cases read : parseString (upper (verify numbered.1)) with
    | ok found =>
        simp only [read] at parsed
        cases found with
        | obj obj =>
            obtain rfl := Except.ok.inj parsed
            simp
        | label name =>
            simp only [addParsed] at parsed
            split at parsed
            · cases parsed
            · obtain rfl := Except.ok.inj parsed
              simp
    | error error =>
        simp only [read] at parsed
        split at parsed
        · cases ‹Except.error error = .ok _›
        · rename_i reason same
          obtain rfl := Except.error.inj same
          obtain rfl := Except.ok.inj parsed
          rfl
        · cases parsed

theorem foldlM_diagnoses {numbered : List (Str × Nat)} {first last : ParseState}
    (parsed : numbered.foldlM parseLine first = .ok last) :
    last.errors = first.errors ++ numbered.filterMap diagnose := by
  induction numbered generalizing first with
  | nil =>
      obtain rfl := Except.ok.inj parsed
      simp
  | cons line numbered ih =>
      rw [List.foldlM_cons, bind_eq_ok] at parsed
      obtain ⟨middle, taken, rest⟩ := parsed
      rw [ih rest, parseLine_diagnoses taken, List.append_assoc]
      cases found : diagnose line <;> simp [found]

theorem parseLines_diagnoses {lines : List Str} (parsed : parseLines lines = .ok state) :
    state.errors = lines.zipIdx.filterMap diagnose :=
  foldlM_diagnoses parsed

theorem parseLines_errors {lines : List Str} (parsed : parseLines lines = .ok state) :
    state.errors = [] ↔ ∀ line ∈ lines, ¬ Rejected line := by
  have numbered : (∀ line ∈ lines.zipIdx, ¬ Rejected line.1) ↔ ∀ line ∈ lines, ¬ Rejected line := by
    rw [← List.forall_mem_map (f := Prod.fst) (P := fun line => ¬ Rejected line),
      List.zipIdx_map_fst]
  rw [parseLines_diagnoses parsed, List.filterMap_eq_nil_iff, ← numbered]
  exact forall₂_congr fun _ _ => diagnose_eq_none

end Rejecting

section Writing

variable {lines : List Str} {state : ParseState} {linked : Linker}

theorem writeCode_chunks {objs : List Obj} {chunks : List (List Byte)}
    (encoded : objs.mapM encode = .ok chunks) : writeCode objs = (chunks.flatten, none) := by
  have related := mapM_eq_ok.mp encoded
  clear encoded
  induction related with
  | nil => rfl
  | cons first _ ih => rw [writeCode, first, ih, List.flatten_cons]

theorem assemblerMain_linked (parsed : parseLines lines = .ok state)
    (success : link state.linker = .ok linked) :
    assemblerMain lines = ⟨some (writeCode linked.objs).1, (writeCode linked.objs).2⟩ := by
  simp only [assemblerMain, parsed, success]

theorem assemblerMain_opens : (assemblerMain lines).output ≠ none ↔
    ∃ state linked, parseLines lines = .ok state ∧ link state.linker = .ok linked := by
  cases parsed : parseLines lines with
  | error error => simp [assemblerMain, parsed]
  | ok state => cases success : link state.linker with
    | error error => simp [assemblerMain, parsed, success]
    | ok linked => simp [assemblerMain, parsed, success]

end Writing

end Sigma16

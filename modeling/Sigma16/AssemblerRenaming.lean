import Mathlib.Logic.Equiv.Basic
import Sigma16.AssemblerMain
import Sigma16.AssemblerSource

/-!
The names of labels. Renaming them all at once, different ones differently, does not change
the file a source is assembled to, as long as each line is still read as before but for the name.
-/

namespace Sigma16

open PyText Fallible

section Renaming

variable (names : Identifier → Identifier)

def Disp.rename : Disp → Disp
  | int value => int value
  | ident name => ident (names name)

def Obj.rename : Obj → Obj
  | rx opcode d sa disp => rx opcode d sa (disp.rename names)
  | obj => obj

def Parsed.rename : Parsed → Parsed
  | obj found => obj (found.rename names)
  | label name => label (names name)

def renameLabels (labels : LabelMapping) : LabelMapping :=
  labels.map fun (name, body) => (names name, body)

def Linker.rename (linker : Linker) : Linker :=
  ⟨linker.objs.map (Obj.rename names), renameLabels names linker.labels⟩

def Renamed (line other : Str) : Prop :=
  (∃ parsed, Reads line parsed ∧ Reads other (parsed.map (Parsed.rename names))) ∨
    Rejected line ∧ Rejected other

inductive RenamedError : PyError → PyError → Prop
  | same (error) : RenamedError error error
  | duplicate (name) : RenamedError
      (.parserError ("duplicate label \"".toList ++ name ++ "\"".toList))
      (.parserError ("duplicate label \"".toList ++ names name ++ "\"".toList))
  | unknown (name) : RenamedError
      (.linkerError ("unknown label \"".toList ++ name ++ "\"".toList))
      (.linkerError ("unknown label \"".toList ++ names name ++ "\"".toList))

def ParseState.RenamedTo (state other : ParseState) : Prop :=
  other.linker = state.linker.rename names ∧ other.parsedObjects = state.parsedObjects

end Renaming

section Linking

variable {names : Identifier → Identifier}

theorem lookup_renameLabels (inj : Function.Injective names) (labels : LabelMapping)
    (name : Identifier) : (renameLabels names labels).lookup (names name) = labels.lookup name := by
  induction labels with
  | nil => rfl
  | cons entry labels ih =>
      have same : (names name == names entry.1) = (name == entry.1) := by
        rw [Bool.eq_iff_iff, beq_iff_eq, beq_iff_eq, inj.eq_iff]
      rw [renameLabels, List.map_cons, List.lookup_cons, List.lookup_cons, same]
      split
      · rfl
      · exact ih

theorem map_sizeof_rename (objs : List Obj) :
    (objs.map (Obj.rename names)).map sizeof = objs.map sizeof := by
  rw [List.map_map]
  refine List.map_congr_left fun obj _ => ?_
  cases obj <;> rfl

theorem calcLabelOffset_rename (objs : List Obj) (prevOff offset : Nat) (labels : LabelMapping) :
    calcLabelOffset (objs.map (Obj.rename names)) prevOff offset (renameLabels names labels) =
      renameLabels names (calcLabelOffset objs prevOff offset labels) := by
  induction labels generalizing prevOff offset with
  | nil => rfl
  | cons entry labels ih =>
      have sizes : ((((objs.map (Obj.rename names)).take entry.2.objOffset).drop prevOff).map
          sizeof) = ((objs.take entry.2.objOffset).drop prevOff).map sizeof := by
        rw [← List.map_take, ← List.map_drop, map_sizeof_rename]
      have rest := ih entry.2.objOffset
        (offset + (((objs.take entry.2.objOffset).drop prevOff).map sizeof).sum)
      simp only [renameLabels, List.map_cons, calcLabelOffset, sizes] at rest ⊢
      rw [rest]

theorem linkObj_rename (inj : Function.Injective names) (labels : LabelMapping) (obj : Obj) :
    Related (RenamedError names) Eq (linkObj labels obj)
      (linkObj (renameLabels names labels) (obj.rename names)) := by
  cases obj with
  | rrr _ _ _ _ | num _ => exact .ok rfl
  | rx opcode d sa disp =>
      cases disp with
      | int value => exact .ok rfl
      | ident name =>
          simp only [linkObj, Obj.rename, Disp.rename, lookup_renameLabels inj]
          cases labels.lookup name with
          | some body => exact .ok rfl
          | none => exact .error (.unknown name)

theorem link_rename (inj : Function.Injective names) (linker : Linker) :
    Related (RenamedError names) (fun linked other => linked.objs = other.objs) (link linker)
      (link (linker.rename names)) := by
  have resolved : Related (RenamedError names) (List.Forall₂ Eq)
      (linker.objs.mapM (linkObj (calcLabelOffset linker.objs 0 0 linker.labels)))
      ((linker.objs.map (Obj.rename names)).mapM (linkObj (renameLabels names
        (calcLabelOffset linker.objs 0 0 linker.labels)))) := by
    apply Related.mapM
    rw [List.forall₂_map_right_iff, List.forall₂_same]
    exact fun obj _ => linkObj_rename inj _ obj
  unfold link
  simp only [Linker.rename, calcLabelOffset_rename]
  refine resolved.bind fun objs others same => .ok ?_
  exact List.forall₂_eq_eq_eq ▸ same

end Linking

section Parsing

variable {names : Identifier → Identifier} {state other : ParseState} {lines others : List Str}

theorem addParsed_rename (inj : Function.Injective names) (renamed : state.RenamedTo names other)
    (parsed : Parsed) : Related (RenamedError names) (ParseState.RenamedTo names)
      (addParsed state parsed) (addParsed other (parsed.rename names)) := by
  obtain ⟨linker, counted⟩ := renamed
  cases parsed with
  | obj obj =>
      refine .ok ⟨?_, congrArg (· + 1) counted⟩
      simp [linker, Linker.rename]
  | label name =>
      simp only [addParsed, Parsed.rename, linker, Linker.rename, lookup_renameLabels inj]
      split
      · exact .error (.duplicate name)
      · refine .ok ⟨?_, counted⟩
        simp [Linker.rename, renameLabels, counted]

theorem parseLine_rename (inj : Function.Injective names) (renamed : state.RenamedTo names other)
    {line text : Str} (alike : Renamed names line text) (number position : Nat) :
    Related (RenamedError names) (ParseState.RenamedTo names) (parseLine state (line, number))
      (parseLine other (text, position)) := by
  -- The numbers of the lines are only printed.
  rcases alike with ⟨parsed, reads, readsText⟩ |
    ⟨⟨content, reason, refused⟩, contentText, another, refusedText⟩
  · cases parsed with
    | none =>
        simp only [Reads, Option.map_none] at reads readsText
        simp only [parseLine, reads, readsText, if_true]
        exact .ok renamed
    | some parsed =>
        obtain ⟨content, accepted⟩ := reads
        obtain ⟨contentText, acceptedText⟩ := readsText
        simp only [parseLine, content, accepted, contentText, acceptedText, if_false]
        exact addParsed_rename inj renamed parsed
  · simp only [parseLine, content, refused, contentText, refusedText, if_false]
    exact .ok renamed

theorem foldlM_rename (inj : Function.Injective names) (renamed : state.RenamedTo names other)
    (alike : List.Forall₂ (Renamed names) lines others) (number : Nat) :
    Related (RenamedError names) (ParseState.RenamedTo names)
      ((lines.zipIdx number).foldlM parseLine state)
      ((others.zipIdx number).foldlM parseLine other) := by
  induction alike generalizing state other number with
  | nil => exact .ok renamed
  | cons first _ ih =>
      rw [List.zipIdx_cons, List.zipIdx_cons, List.foldlM_cons, List.foldlM_cons]
      exact (parseLine_rename inj renamed first number number).bind
        fun next after kept => ih kept (number + 1)

end Parsing

/-- Renaming the labels of a source changes neither the file it is assembled to nor, but for
the name quoted in it, the exception it ends in. -/
theorem rename_labels {names : Identifier → Identifier} (inj : Function.Injective names)
    {lines others : List Str} (alike : List.Forall₂ (Renamed names) lines others) :
    (assemblerMain others).output = (assemblerMain lines).output ∧
      Option.Rel (RenamedError names) (assemblerMain lines).raised (assemblerMain others).raised := by
  have start : ParseState.init.RenamedTo names .init := ⟨rfl, rfl⟩
  have parsed : Related (RenamedError names) (ParseState.RenamedTo names) (parseLines lines)
      (parseLines others) := foldlM_rename inj start alike 0
  generalize read : parseLines lines = first, readOthers : parseLines others = second at parsed
  cases parsed with
  | error failed =>
      simp only [assemblerMain, read, readOthers]
      exact ⟨trivial, .some failed⟩
  | @ok state other renamed =>
      have linked := link_rename inj state.linker
      rw [← renamed.1] at linked
      generalize resolved : link state.linker = first, resolvedOther : link other.linker = second
        at linked
      cases linked with
      | error failed =>
          simp only [assemblerMain, read, readOthers, resolved, resolvedOther]
          exact ⟨trivial, .some failed⟩
      | @ok linked also same =>
          rw [assemblerMain_linked read resolved, assemblerMain_linked readOthers resolvedOther,
            same]
          refine ⟨rfl, ?_⟩
          -- The bytes and what stops them come from objects without names.
          cases (writeCode also.objs).2 with
          | none => exact .none
          | some error => exact .some (.same error)

theorem rename_labels_loop :
    (assemblerMain ["again:".toList, "jump again[R0]".toList]).output =
      (assemblerMain ["loop:".toList, "jump loop[R0]".toList]).output := by
  refine (rename_labels (Equiv.swap "LOOP".toList "AGAIN".toList).injective ?_).1
  refine .cons (.inl ⟨some (.label "LOOP".toList), ?_, ?_⟩)
    (.cons (.inl ⟨some (.obj (.rx 3 (.reg 0) 0 (.ident "LOOP".toList))), ?_, ?_⟩) .nil)
  all_goals decide +kernel

end Sigma16

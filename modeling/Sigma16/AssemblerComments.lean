import Sigma16.AssemblerErrors

/-!
Comments and empty lines put into a source. `verify` strips a line before it cuts the
comment off, so the white space between the two stays, and a label line does not stand it.
-/

namespace Sigma16

open PyText Fallible
open Unicode (isSpace whiteSpace)

def IsBlank (text : Str) : Prop := ∀ char ∈ text, isSpace char

instance (text : Str) : Decidable (IsBlank text) := List.decidableBAll _ text

def IsSilent (line : Str) : Prop :=
  ∃ pad rest, line = pad ++ rest ∧ IsBlank pad ∧ (rest = [] ∨ rest.head? = some ';')

/-- What is done to one line of a source, or in front of it. `ending` is the newline of the line. -/
inductive Edit where
  | keep (line : Str)
  | comment (body gap text ending : Str) (uncommented : ';' ∉ body) (spaced : IsBlank gap)
      (ended : IsBlank ending)
  | insert (line : Str) (silent : IsSilent line)

namespace Edit

def before : Edit → Option Str
  | keep line => some line
  | comment body _ _ ending .. => some (body ++ ending)
  | insert .. => none

def after : Edit → Str
  | keep line | insert line _ => line
  | comment body gap text ending .. => body ++ gap ++ ';' :: text ++ ending

end Edit

def sourceBefore (edits : List Edit) : List Str := edits.filterMap Edit.before

def sourceAfter (edits : List Edit) : List Str := edits.map Edit.after

def Reports (lines : List Str) (index : Nat) : Prop :=
  ∃ line state, lines[index]? = some line ∧ parseLines (lines.take index) = .ok state ∧
    Rejected line

/-- The edits change no object, no label, no exception, no byte of the image, and neither
reject an old line nor a new one. -/
structure Unaffected (edits : List Edit) : Prop where
  linker : (parseLines (sourceAfter edits)).map ParseState.linker =
    (parseLines (sourceBefore edits)).map ParseState.linker
  reports : ∀ front edit back, edits = front ++ edit :: back →
    (Reports (sourceAfter edits) front.length ↔
      edit.before.isSome ∧ Reports (sourceBefore edits) (sourceBefore front).length)
  image : assemblerMain (sourceAfter edits) = assemblerMain (sourceBefore edits)

def EndsLine (string : Str) : Prop :=
  (∃ label, string = label ++ [':'] ∧ label ≠ [] ∧ isLegalLabelRef label) ∨
    ∃ char, string = [char] ∧ char ≠ ':'

/-- A comment set off by white space from a line that has to end there. -/
def Edit.Spoils : Edit → Prop
  | comment body gap .. => (body ++ gap).rdropWhile isSpace ≠ body ++ gap ∧
      EndsLine (upper (strip body))
  | keep _ | insert .. => False

section Lines

variable {text front rest pad : Str}

theorem blank_append : IsBlank (front ++ rest) ↔ IsBlank front ∧ IsBlank rest :=
  List.forall_mem_append

theorem blank_comment (blank : IsBlank text) : ';' ∉ text := fun member =>
  absurd (blank ';' member) (by decide)

theorem strip_append_blank (text : Str) (blank : IsBlank pad) : strip (text ++ pad) = strip text := by
  induction pad using List.reverseRecOn with
  | nil => rw [List.append_nil]
  | append_singleton pad char ih =>
      obtain ⟨earlier, last⟩ := blank_append.mp blank
      have space := last char (List.mem_singleton_self char)
      rw [← ih earlier, strip, strip, ← List.append_assoc, List.dropWhile_append]
      split
      · rename_i empty
        rw [List.dropWhile_cons_of_pos space, List.isEmpty_iff.mp empty]
        rfl
      · rw [List.rdropWhile_concat_pos _ _ _ space]

theorem verify_silent (silent : IsSilent text) : verify text = [] := by
  obtain ⟨pad, rest, rfl, blank, rfl | comment⟩ := silent
  · rw [List.append_nil, verify, strip, List.dropWhile_eq_nil_iff.mpr blank]
    rfl
  · obtain ⟨later, rfl⟩ : ∃ later, rest = ';' :: later := List.head?_eq_some_iff.mp comment
    rw [verify_comment (blank_comment blank), List.dropWhile_eq_nil_iff.mpr blank]

end Lines

section Labels

variable {string pad : Str} {label : Identifier}

theorem not_mem_legal (legal : isLegalLabelRef label) : ':' ∉ label := by
  intro member
  have letter := List.all_eq_true.mp legal ':' member
  exact absurd letter (by decide)

theorem idxOf?_colon (legal : isLegalLabelRef label) (rest : Str) :
    (label ++ ':' :: rest).idxOf? ':' = some label.length := by
  have absent : label.findIdx? (· == ':') = none := List.idxOf?_eq_none_iff.mpr (not_mem_legal legal)
  have first : (':' :: rest).findIdx? (· == ':') = some 0 := List.findIdx?_cons
  rw [List.idxOf?, List.findIdx?_append, absent, first]
  simp

theorem idxOf?_append_blank (blank : IsBlank pad) : (string ++ pad).idxOf? ':' = string.idxOf? ':' := by
  have absent : pad.findIdx? (· == ':') = none := List.idxOf?_eq_none_iff.mpr fun member =>
    absurd (blank ':' member) (by decide)
  rw [List.idxOf?, List.findIdx?_append, absent]
  simp

theorem parseLabel_eq_ok : parseLabel string = .ok label ↔
    string = label ++ [':'] ∧ label ≠ [] ∧ isLegalLabelRef label := by
  constructor
  · intro parsed
    have legal := parseLabel_legal parsed
    unfold parseLabel at parsed
    split at parsed
    · cases parsed
    · rename_i long
      split at parsed
      · cases parsed
      · rename_i index found
        split at parsed
        · cases parsed
        · rename_i last
          rw [ne_eq, not_not] at last
          split at parsed
          · obtain rfl := Except.ok.inj parsed
            have nonempty : string ≠ [] := List.ne_nil_of_length_pos (by omega)
            obtain ⟨bound, colon, _⟩ := List.findIdx?_eq_some_iff_getElem.mp found
            have final : string.getLast nonempty = ':' := by
              rw [List.getLast_eq_getElem]
              simpa [last] using colon
            refine ⟨?_, ?_, legal⟩
            · rw [← final, List.dropLast_append_getLast]
            · apply List.ne_nil_of_length_pos
              rw [List.length_dropLast]
              omega
          · cases parsed
  · rintro ⟨rfl, nonempty, legal⟩
    have letters := List.length_pos_iff.mpr nonempty
    have long : ¬ (label ++ [':']).length < 2 := by
      rw [List.length_append, List.length_singleton]
      omega
    have last : label.length = (label ++ [':']).length - 1 := by
      rw [List.length_append, List.length_singleton, Nat.add_sub_cancel]
    simp only [parseLabel, long, if_false, idxOf?_colon legal, ne_eq, ← last, not_true_eq_false,
      List.dropLast_concat, legal, if_true]

theorem parseLabel_padded_label (legal : isLegalLabelRef label) (blank : IsBlank pad)
    (padded : pad ≠ []) (nonempty : label ≠ []) :
    parseLabel (label ++ [':'] ++ pad) = .error (.parserError "invalid label".toList) := by
  have letters := List.length_pos_iff.mpr nonempty
  have space := List.length_pos_iff.mpr padded
  have long : ¬ (label ++ [':'] ++ pad).length < 2 := by
    simp only [List.length_append, List.length_singleton]
    omega
  have apart : label.length ≠ (label ++ [':'] ++ pad).length - 1 := by
    simp only [List.length_append, List.length_singleton]
    omega
  simp only [parseLabel, long, if_false, idxOf?_append_blank blank, idxOf?_colon legal, ne_eq, apart,
    not_false_eq_true, if_true]

theorem parseLabel_padded_char {char : Char} (other : char ≠ ':') (blank : IsBlank pad)
    (padded : pad ≠ []) : parseLabel ([char] ++ pad) = .error .valueError := by
  have space := List.length_pos_iff.mpr padded
  have long : ¬ ([char] ++ pad).length < 2 := by
    rw [List.length_append, List.length_singleton]
    omega
  have absent : [char].idxOf? ':' = none := by
    rw [List.idxOf?_eq_none_iff, List.mem_singleton]
    exact Ne.symm other
  simp only [parseLabel, long, if_false, idxOf?_append_blank blank, absent]

theorem parseLabel_padded (content : string ≠ []) (elsewhere : ¬ EndsLine string)
    (blank : IsBlank pad) (padded : pad ≠ []) :
    parseLabel (string ++ pad) = parseLabel string ∨
      (∃ reason, parseLabel (string ++ pad) = .error (.parserError reason)) ∧
      ∃ reason, parseLabel string = .error (.parserError reason) := by
  have space := List.length_pos_iff.mpr padded
  have visible := List.length_pos_iff.mpr content
  have length : (string ++ pad).length = string.length + pad.length := List.length_append
  have long : ¬ (string ++ pad).length < 2 := by omega
  cases found : string.idxOf? ':' with
  | none =>
      by_cases short : string.length < 2
      · obtain ⟨char, rfl⟩ := List.length_eq_one_iff.mp (show string.length = 1 by omega)
        refine absurd (.inr ⟨char, rfl, ?_⟩) elsewhere
        rintro rfl
        simp at found
      · left
        simp only [parseLabel, long, short, if_false, idxOf?_append_blank blank, found]
  | some index =>
      have bound : index < string.length := by
        obtain ⟨bound, _⟩ := List.findIdx?_eq_some_iff_getElem.mp found
        exact bound
      have apart : index ≠ (string ++ pad).length - 1 := by omega
      have refused : parseLabel (string ++ pad) = .error (.parserError "invalid label".toList) := by
        simp only [parseLabel, long, if_false, idxOf?_append_blank blank, found, ne_eq, apart,
          not_false_eq_true, if_true]
      refine .inr ⟨⟨_, refused⟩, ?_⟩
      cases parsed : parseLabel string with
      | error error =>
          have settled := (settled_label string).mpr (fun shaped => shaped.2 ?_)
          · exact ⟨_, congrArg Except.error (settled error parsed).choose_spec⟩
          · exact List.isSome_idxOf?.mp (by rw [found]; rfl)
      | ok label => exact absurd (.inl ⟨label, parseLabel_eq_ok.mp parsed⟩) elsewhere

end Labels

def ReadAlike (string other : Str) : Prop :=
  parseString string = parseString other ∨
    (∃ reason, parseString string = .error (.parserError reason)) ∧
    ∃ reason, parseString other = .error (.parserError reason)

section Strings

variable {string pad : Str}

theorem splitSpace_padded (blank : IsBlank pad) : splitSpace (string ++ pad) = splitSpace string := by
  rw [← splitSpace_strip (string ++ pad), strip_append_blank string blank, splitSpace_strip]

theorem upper_padded (blank : IsBlank pad) : upper (string ++ pad) = upper string ++ pad := by
  rw [upper_append, upper_eq_self fun char member => upper_blank (blank char member)]

theorem parseString_padded (blank : IsBlank pad) (elsewhere : ¬ EndsLine string) :
    ReadAlike (string ++ pad) string := by
  by_cases padded : pad = []
  · left
    rw [padded, List.append_nil]
  · have same := @splitSpace_padded string pad blank
    cases split : splitSpace string with
    | nil =>
        left
        simp only [parseString, splitSpace_strip, same, split]
    | cons name chunks =>
        rw [split] at same
        by_cases named : name = "DATA".toList
        · left
          subst named
          cases chunks with
          | nil => rw [parseString_data_alone same, parseString_data_alone split]
          | cons value rest => rw [parseString_data same, parseString_data split]
        · cases listed : instructions.lookup name with
          | some entry =>
              left
              rw [parseString_listed same listed, parseString_listed split listed]
          | none =>
              have content : string ≠ [] := by
                rintro rfl
                cases split
              rw [ReadAlike, parseString_unlisted same named listed,
                parseString_unlisted split named listed]
              rcases parseLabel_padded content elsewhere blank padded with equal |
                ⟨⟨reason, refused⟩, before, refusedBefore⟩
              · rw [equal]
                exact .inl rfl
              · rw [refused, refusedBefore]
                exact .inr ⟨⟨reason, rfl⟩, before, rfl⟩

theorem endsLine_solid (ends : EndsLine string) (content : splitSpace string ≠ []) :
    ∀ char ∈ string, isSpace char = false := by
  rcases ends with ⟨label, rfl, _, legal⟩ | ⟨char, rfl, _⟩
  · intro char member
    rcases List.mem_append.mp member with letter | colon
    · have bounds := letter_bounds (List.all_eq_true.mp legal char letter)
      simp only [isSpace, whiteSpace, decide_eq_false_iff_not, List.mem_cons, List.not_mem_nil,
        or_false]
      omega
    · rw [List.mem_singleton.mp colon]
      decide
  · intro other member
    rw [List.mem_singleton.mp member]
    by_contra space
    rw [Bool.not_eq_false] at space
    exact content (splitSpace_blank space [])

theorem endsLine_unlike (ends : EndsLine string) :
    ∀ entry ∈ ("DATA".toList, (0 : Int), InstType.rrr) :: instructions, string ≠ entry.1 := by
  have names : ∀ entry ∈ ("DATA".toList, (0 : Int), InstType.rrr) :: instructions,
      ':' ∉ entry.1 ∧ entry.1.length ≠ 1 := by decide
  rintro entry member rfl
  obtain ⟨noColon, long⟩ := names entry member
  rcases ends with ⟨label, spelled, _, _⟩ | ⟨char, spelled, _⟩
  · exact noColon (by rw [spelled]; simp)
  · exact long (by rw [spelled]; rfl)

theorem endsLine_label (ends : EndsLine string) (content : splitSpace string ≠ []) (blank : IsBlank pad) :
    parseString (string ++ pad) = (parseLabel (string ++ pad)).map .label := by
  have nonempty : string ≠ [] := by
    rintro rfl
    exact content rfl
  have unlike := endsLine_unlike ends
  have unlisted : instructions.lookup string = none := by
    cases found : instructions.lookup string with
    | none => rfl
    | some entry => exact absurd rfl (unlike _ (List.mem_cons_of_mem _ (mem_of_lookup found)))
  have alone := splitSpace_solid (endsLine_solid ends content) nonempty
  exact parseString_unlisted ((splitSpace_padded blank).trans alone) (unlike _ List.mem_cons_self)
    unlisted

theorem endsLine_spoiled (ends : EndsLine string) (content : splitSpace string ≠ [])
    (blank : IsBlank pad) (padded : pad ≠ []) :
    ¬ ((∃ reason, parseString (string ++ pad) = .error (.parserError reason)) ↔
      ∃ reason, parseString string = .error (.parserError reason)) := by
  have plain := @endsLine_label string [] ends content (fun _ member => by cases member)
  rw [List.append_nil] at plain
  rw [endsLine_label ends content blank, plain]
  rcases ends with ⟨label, rfl, nonempty, legal⟩ | ⟨char, rfl, other⟩
  · rw [parseLabel_padded_label legal blank padded nonempty,
      parseLabel_eq_ok.mpr ⟨rfl, nonempty, legal⟩]
    intro same
    obtain ⟨reason, accepted⟩ := same.mp ⟨_, rfl⟩
    cases accepted
  · rw [parseLabel_padded_char other blank padded]
    intro same
    obtain ⟨reason, raised⟩ := same.mpr ⟨_, rfl⟩
    cases raised

end Strings

section Edits

variable {line : Str} {edit : Edit}

def Alike (line other : Str) : Prop :=
  verify line = [] ∧ verify other = [] ∨
    verify line ≠ [] ∧ verify other ≠ [] ∧ ReadAlike (upper (verify line)) (upper (verify other))

theorem Alike.rejected {other : Str} (alike : Alike line other) : Rejected line ↔ Rejected other := by
  unfold Rejected
  rcases alike with ⟨blank, blankOther⟩ | ⟨content, contentOther, same | ⟨refused, refusedOther⟩⟩
  · simp [blank, blankOther]
  · rw [same]
    exact and_congr_left fun _ => iff_of_true content contentOther
  · exact iff_of_true ⟨content, refused⟩ ⟨contentOther, refusedOther⟩

theorem rtakeWhile_dropWhile {text : Str} (visible : text.dropWhile isSpace ≠ []) :
    (text.dropWhile isSpace).rtakeWhile isSpace = [] ↔ text.rdropWhile isSpace = text := by
  have suffix := List.dropWhile_suffix (l := text) isSpace
  have last := suffix.getLast visible
  rw [List.rtakeWhile_eq_nil_iff, List.rdropWhile_eq_self_iff]
  constructor
  · intro solid nonempty
    rw [← last]
    exact solid visible
  · intro solid nonempty
    rw [last]
    exact solid (suffix.ne_nil visible)

theorem verify_commented {body gap text ending : Str} (uncommented : ';' ∉ body)
    (spaced : IsBlank gap) (ended : IsBlank ending) (content : strip body ≠ []) :
    ∃ pad, IsBlank pad ∧ (pad ≠ [] ↔ (body ++ gap).rdropWhile isSpace ≠ body ++ gap) ∧
      verify (body ++ gap ++ ';' :: text ++ ending) = strip body ++ pad ∧
      verify (body ++ ending) = strip body := by
  have front : ';' ∉ body ++ gap := by
    simp [uncommented, blank_comment spaced]
  have whole : ';' ∉ strip (body ++ ending) := by
    rw [strip_append_blank body ended]
    intro member
    exact uncommented ((List.dropWhile_sublist _).mem
      ((List.rdropWhile_prefix _ _).sublist.mem member))
  have cut : verify (body ++ gap ++ ';' :: text ++ ending) = (body ++ gap).dropWhile isSpace := by
    rw [List.append_assoc, List.cons_append, verify_comment front]
  refine ⟨((body ++ gap).dropWhile isSpace).rtakeWhile isSpace,
    fun char member => List.mem_rtakeWhile_imp member, not_congr (rtakeWhile_dropWhile ?_), ?_, ?_⟩
  · intro empty
    rw [← strip_append_blank body spaced, strip, empty] at content
    exact content rfl
  · rw [cut, ← strip_append_blank body spaced, strip, List.rdropWhile_append_rtakeWhile]
  · rw [verify_strip whole, strip_append_blank body ended]

theorem blank_of_strip {text : Str} (empty : strip text = []) : IsBlank text := by
  have front : text.dropWhile isSpace = [] := by
    by_contra visible
    have last := List.rdropWhile_eq_nil_iff.mp empty _ (List.head_mem visible)
    rw [List.head_dropWhile_not isSpace visible] at last
    cases last
  exact List.dropWhile_eq_nil_iff.mp front

theorem Edit.alike (harmless : ¬ edit.Spoils) (old : edit.before = some line) :
    Alike edit.after line := by
  cases edit with
  | insert _ _ => cases old
  | keep text =>
      obtain rfl := Option.some.inj old
      by_cases blank : verify text = []
      · exact .inl ⟨blank, blank⟩
      · exact .inr ⟨blank, blank, .inl rfl⟩
  | comment body gap text ending uncommented spaced ended =>
      obtain rfl := Option.some.inj old
      by_cases empty : strip body = []
      · have blank := blank_of_strip empty
        refine .inl ⟨verify_silent ⟨body ++ gap, ';' :: (text ++ ending), ?_, ?_, .inr rfl⟩,
          verify_silent ⟨body ++ ending, [], by simp, blank_append.mpr ⟨blank, ended⟩, .inl rfl⟩⟩
        · simp [Edit.after]
        · exact blank_append.mpr ⟨blank, spaced⟩
      · obtain ⟨pad, blank, spaces, commented, plain⟩ :=
          @verify_commented body gap text ending uncommented spaced ended empty
        refine .inr ⟨?_, by rwa [plain], ?_⟩
        · rw [Edit.after, commented]
          exact List.append_ne_nil_of_left_ne_nil empty pad
        · rw [Edit.after, commented, plain, upper_padded blank]
          by_cases padded : pad = []
          · rw [padded, List.append_nil]
            exact .inl rfl
          · exact parseString_padded blank fun ends => harmless ⟨spaces.mp padded, ends⟩

theorem Edit.spoiled (spoils : edit.Spoils) :
    ∃ line, edit.before = some line ∧ ¬ (Rejected edit.after ↔ Rejected line) := by
  cases edit with
  | insert _ _ | keep _ => cases spoils
  | comment body gap text ending uncommented spaced ended =>
      obtain ⟨space, ends⟩ := spoils
      have content : strip body ≠ [] := by
        intro empty
        rw [empty] at ends
        rcases ends with ⟨label, spelled, _, _⟩ | ⟨char, spelled, _⟩
        · cases label <;> cases spelled
        · cases spelled
      obtain ⟨pad, blank, spaces, commented, plain⟩ :=
        @verify_commented body gap text ending uncommented spaced ended content
      refine ⟨body ++ ending, rfl, ?_⟩
      have words : splitSpace (upper (strip body)) ≠ [] := by
        rw [← plain]
        exact splitSpace_content (by rwa [plain])
      have long : strip body ++ pad ≠ [] := List.append_ne_nil_of_left_ne_nil content pad
      have spoiled := endsLine_spoiled ends words blank (spaces.mpr space)
      unfold Rejected
      rw [Edit.after, commented, plain, upper_padded blank]
      simpa [content, long] using spoiled

end Edits

section Runs

variable {state other : ParseState} {edits : List Edit}

def ParseState.quiet (state : ParseState) : ParseState := { state with errors := [] }

theorem addParsed_quiet (same : state.quiet = other.quiet) (parsed : Parsed) :
    (addParsed state parsed).map ParseState.quiet = (addParsed other parsed).map ParseState.quiet := by
  obtain ⟨linker, counted⟩ : state.linker = other.linker ∧ state.parsedObjects = other.parsedObjects := by
    simpa [ParseState.quiet] using same
  cases parsed with
  | obj obj => simp [addParsed, ParseState.quiet, Except.map, linker, counted]
  | label name =>
      simp only [addParsed, linker, counted]
      split <;> simp [ParseState.quiet, Except.map]

theorem parseLine_alike {line text : Str} (same : state.quiet = other.quiet)
    (alike : Alike line text) (number position : Nat) :
    (parseLine state (line, number)).map ParseState.quiet =
      (parseLine other (text, position)).map ParseState.quiet := by
  unfold parseLine
  rcases alike with ⟨blank, blankText⟩ | ⟨content, contentText, read⟩
  · simp only [blank, blankText, if_true, Except.map, same]
  · simp only [content, contentText, if_false]
    rcases read with equal | ⟨⟨reason, refused⟩, reason', refusedText⟩
    · rw [equal]
      cases parseString (upper (verify text)) with
      | ok parsed => exact addParsed_quiet same parsed
      | error error =>
          cases error with
          | parserError reason => exact congrArg Except.ok same
          | _ => rfl
    · rw [refused, refusedText]
      exact congrArg Except.ok same

def Harmless (edits : List Edit) (first : ParseState) (position : Nat) : Prop :=
  ∀ front edit back state, edits = front ++ edit :: back →
    ((sourceBefore front).zipIdx position).foldlM parseLine first = .ok state → ¬ edit.Spoils

theorem insert_runs {edit : Edit} (added : edit.before = none) (state : ParseState) (number : Nat) :
    parseLine state (edit.after, number) = .ok state := by
  cases edit with
  | keep _ | comment _ _ _ _ _ _ _ => cases added
  | insert line silent => exact if_pos (verify_silent silent)

theorem foldlM_alike {number position : Nat} (same : state.quiet = other.quiet)
    (harmless : Harmless edits other position) :
    (((sourceAfter edits).zipIdx number).foldlM parseLine state).map ParseState.quiet =
      (((sourceBefore edits).zipIdx position).foldlM parseLine other).map ParseState.quiet := by
  induction edits generalizing state other number position with
  | nil => exact congrArg Except.ok same
  | cons edit edits ih =>
      have first : ¬ edit.Spoils := harmless [] edit edits other rfl rfl
      rw [sourceAfter, List.map_cons, List.zipIdx_cons, List.foldlM_cons]
      cases old : edit.before with
      | none =>
          rw [insert_runs old, sourceBefore, List.filterMap_cons_none old]
          refine ih same fun front later back next split ran => ?_
          refine harmless (edit :: front) later back next (by rw [split]; rfl) ?_
          rwa [sourceBefore, List.filterMap_cons_none old]
      | some line =>
          have stepped := parseLine_alike same (edit.alike first old) number position
          rw [sourceBefore, List.filterMap_cons_some old, List.zipIdx_cons, List.foldlM_cons]
          rcases map_eq_map stepped with ⟨err, found, ran⟩ | ⟨found, next, alike, ran, quiet⟩
          · rw [found, ran]
            rfl
          · rw [alike, ran]
            refine ih quiet fun front later back last split reached => ?_
            refine harmless (edit :: front) later back last (by rw [split]; rfl) ?_
            rw [sourceBefore, List.filterMap_cons_some old, List.zipIdx_cons, List.foldlM_cons, ran]
            exact reached

theorem parseLines_alike (harmless : Harmless edits .init 0) :
    (parseLines (sourceAfter edits)).map ParseState.quiet =
      (parseLines (sourceBefore edits)).map ParseState.quiet :=
  foldlM_alike rfl harmless

theorem assemblerMain_quiet {lines others : List Str}
    (same : (parseLines lines).map ParseState.linker = (parseLines others).map ParseState.linker) :
    assemblerMain lines = assemblerMain others := by
  unfold assemblerMain
  rcases map_eq_map same with ⟨err, parsed, found⟩ | ⟨state, other, parsed, found, linker⟩
  · rw [parsed, found]
  · simp only [parsed, found, linker]

end Runs

section Reporting

variable {front back lines : List Str} {line : Str} {index : Nat}

theorem reports_append : Reports (front ++ line :: back) front.length ↔
    (∃ state, parseLines front = .ok state) ∧ Rejected line := by
  have stored : (front ++ line :: back)[front.length]? = some line := by simp
  unfold Reports
  rw [stored, List.take_left' rfl]
  constructor
  · rintro ⟨_, state, same, parsed, rejected⟩
    obtain rfl := Option.some.inj same
    exact ⟨⟨state, parsed⟩, rejected⟩
  · rintro ⟨⟨state, parsed⟩, rejected⟩
    exact ⟨line, state, rfl, parsed, rejected⟩

theorem reports_iff_printed {state : ParseState} (parsed : parseLines lines = .ok state) :
    Reports lines index ↔ ∃ printed ∈ state.errors, printed.lineNumber = index + 1 := by
  rw [parseLines_diagnoses parsed]
  constructor
  · rintro ⟨line, _, stored, _, content, reason, refused⟩
    refine ⟨⟨reason, index + 1, strip line⟩, List.mem_filterMap.mpr ⟨(line, index), ?_, ?_⟩, rfl⟩
    · rw [List.mk_mem_zipIdx_iff_getElem?]
      exact stored
    · rw [diagnose, if_neg content, refused]
  · rintro ⟨printed, member, numbered⟩
    obtain ⟨⟨line, position⟩, stored, found⟩ := List.mem_filterMap.mp member
    rw [List.mk_mem_zipIdx_iff_getElem?] at stored
    have rejected : Rejected line := by
      by_contra accepted
      rw [diagnose_eq_none.mpr accepted] at found
      cases found
    obtain rfl : position = index := by
      unfold diagnose at found
      split at found
      · cases found
      · split at found
        · obtain rfl := Option.some.inj found
          exact Nat.succ.inj numbered
        · cases found
    have split : parseLines (lines.take position ++ lines.drop position) = .ok state := by
      rwa [List.take_append_drop]
    rw [parseLines, List.zipIdx_append, List.foldlM_append, bind_eq_ok] at split
    obtain ⟨middle, reached, _⟩ := split
    exact ⟨line, middle, stored, reached, rejected⟩

end Reporting

section Editing

variable {front back edits : List Edit} {edit : Edit}

theorem reports_after : Reports (sourceAfter (front ++ edit :: back)) front.length ↔
    (∃ state, parseLines (sourceAfter front) = .ok state) ∧ Rejected edit.after := by
  have length : (sourceAfter front).length = front.length := List.length_map _
  have split : sourceAfter (front ++ edit :: back) =
      sourceAfter front ++ edit.after :: sourceAfter back := by
    simp [sourceAfter]
  rw [split, ← length, reports_append]

theorem reports_before {line : Str} (old : edit.before = some line) :
    Reports (sourceBefore (front ++ edit :: back)) (sourceBefore front).length ↔
      (∃ state, parseLines (sourceBefore front) = .ok state) ∧ Rejected line := by
  have split : sourceBefore (front ++ edit :: back) =
      sourceBefore front ++ line :: sourceBefore back := by
    simp [sourceBefore, old]
  rw [split, reports_append]

theorem insert_accepted (added : edit.before = none) : ¬ Rejected edit.after := by
  cases edit with
  | keep _ | comment _ _ _ _ _ _ _ => cases added
  | insert line silent => exact fun rejected => rejected.1 (verify_silent silent)

theorem Harmless.initial (harmless : Harmless (front ++ back) .init 0) : Harmless front .init 0 := by
  intro prior edit later state split reached
  exact harmless prior edit (later ++ back) state (by rw [split]; simp) reached

theorem parseLines_reached (harmless : Harmless edits .init 0) :
    (∃ state, parseLines (sourceAfter edits) = .ok state) ↔
      ∃ state, parseLines (sourceBefore edits) = .ok state := by
  rcases map_eq_map (parseLines_alike harmless) with ⟨err, after, before⟩ |
    ⟨state, other, after, before, _⟩
  · simp [after, before]
  · exact iff_of_true ⟨state, after⟩ ⟨other, before⟩

theorem unaffected_of_harmless (harmless : Harmless edits .init 0) : Unaffected edits := by
  have same : (parseLines (sourceAfter edits)).map ParseState.linker =
      (parseLines (sourceBefore edits)).map ParseState.linker := by
    rcases map_eq_map (parseLines_alike harmless) with ⟨err, after, before⟩ |
      ⟨state, other, after, before, quiet⟩
    · rw [after, before]
    · rw [after, before, Except.map, Except.map]
      exact congrArg (fun state => Except.ok state.linker) quiet
  refine ⟨same, ?_, assemblerMain_quiet same⟩
  rintro front edit back rfl
  have reached := parseLines_reached harmless.initial
  rw [reports_after, reached]
  cases old : edit.before with
  | none => simp [insert_accepted old]
  | some line =>
      rw [reports_before old, Option.isSome_some, eq_self, true_and]
      refine and_congr_right fun ⟨state, found⟩ => ?_
      exact (edit.alike (harmless front edit back state rfl found) old).rejected

theorem spoiled_reports {state : ParseState} (harmless : Harmless front .init 0)
    (reached : parseLines (sourceBefore front) = .ok state) (spoils : edit.Spoils) :
    ¬ (Reports (sourceAfter (front ++ edit :: back)) front.length ↔ edit.before.isSome ∧
      Reports (sourceBefore (front ++ edit :: back)) (sourceBefore front).length) := by
  obtain ⟨line, old, differ⟩ := edit.spoiled spoils
  have reachedAfter := (parseLines_reached harmless).mpr ⟨state, reached⟩
  rw [reports_after, reports_before old, old]
  intro reports
  apply differ
  simpa [reachedAfter, reached] using reports

theorem Unaffected.harmless (unaffected : Unaffected edits) : Harmless edits .init 0 := by
  have bounded : ∀ length front edit back state, front.length = length →
      edits = front ++ edit :: back → parseLines (sourceBefore front) = .ok state →
      ¬ edit.Spoils := by
    intro length
    induction length using Nat.strongRecOn with
    | ind length ih =>
        rintro front edit back state size rfl reached spoils
        have harmless : Harmless front .init 0 := by
          intro prior earlier later next shape ran
          refine ih prior.length ?_ prior earlier (later ++ edit :: back) next rfl ?_ ran
          · rw [← size, shape, List.length_append, List.length_cons]
            omega
          · rw [shape]
            simp
        exact spoiled_reports harmless reached spoils (unaffected.reports front edit back rfl)
  intro front edit back state split reached
  exact bounded front.length front edit back state rfl split reached

end Editing

/-- A source can be commented and spaced out without effect exactly when no comment is set off
by white space from a label, or from a lone character, that `parse_lines` comes to. -/
theorem comments_unaffected (edits : List Edit) :
    Unaffected edits ↔ ∀ front edit back state, edits = front ++ edit :: back →
      parseLines (sourceBefore front) = .ok state → ¬ edit.Spoils :=
  ⟨Unaffected.harmless, unaffected_of_harmless⟩

/-- `start: ; entry` is no label, and with `a ; entry` the assembler ends in a ValueError. -/
theorem comments_unaffected_fails :
    ¬ Unaffected [.comment "start:".toList [' '] " entry".toList ['\n'] (by decide) (by decide)
      (by decide)] ∧
    ¬ Unaffected [.comment "a".toList [' '] " entry".toList ['\n'] (by decide) (by decide)
      (by decide)] := by
  constructor
  · intro unaffected
    exact absurd unaffected.linker (by decide +kernel)
  · intro unaffected
    exact absurd unaffected.linker (by decide +kernel)

end Sigma16

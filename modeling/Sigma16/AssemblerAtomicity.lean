import Sigma16.AssemblerRange

/-!
Which errors of its three phases `main` meets before it opens the output path, told from the
lines of the source: whether they are of a shape the parser takes, what they define and refer
to, and the numbers they are assembled to.
-/

namespace Sigma16

open PyText Fallible

inductive MeetsError (lines : List Str) : Prop
  | rejects {line} : line ∈ lines → Rejected line → MeetsError lines
  | raises {error} : parseLines lines = .error error → MeetsError lines
  | unlinked {state error} : parseLines lines = .ok state → link state.linker = .error error →
      MeetsError lines
  | unpacked {state linked obj error} : parseLines lines = .ok state →
      link state.linker = .ok linked → obj ∈ linked.objs → encode obj = .error error →
      MeetsError lines

/-- The output path is not touched after an error, and holds the whole image without one. -/
structure Atomic (lines : List Str) : Prop where
  untouched : MeetsError lines → (assemblerMain lines).output = none
  complete : ¬ MeetsError lines → ∃ state linked chunks, parseLines lines = .ok state ∧
    link state.linker = .ok linked ∧ linked.objs.mapM encode = .ok chunks ∧
    assemblerMain lines = ⟨some chunks.flatten, none⟩

def Names (line : Str) (name : Identifier) : Prop :=
  ∃ opcode d sa, Reads line (some (.obj (.rx opcode d sa (.ident name))))

/-- What ends `main` before it opens the path: an exception of Python's own, a label defined
twice, or one that is not defined. -/
inductive EndsEarly (lines : List Str) : Prop
  | unshaped {line} : line ∈ lines → Unshaped (upper (verify line)) → EndsEarly lines
  | duplicate {before line after name} : lines = before ++ line :: after → Defines line name →
      (∃ earlier ∈ before, Defines earlier name) → EndsEarly lines
  | undefined {line name} : line ∈ lines → Names line name →
      (¬ ∃ other ∈ lines, Defines other name) → EndsEarly lines

def lineWords (line : Str) : Nat :=
  if verify line = [] then 0
  else match parseString (upper (verify line)) with
    | .ok (.obj obj) => sizeof obj
    | _ => 0

def sourceWords (lines : List Str) : Nat := (lines.map lineWords).sum

inductive Emits (lines : List Str) : Int → Prop
  | own {line obj value} : line ∈ lines → Reads line (some (.obj obj)) →
      obj.number = some value → Emits lines value
  | label {line name before definition after} : line ∈ lines → Names line name →
      lines = before ++ definition :: after → Defines definition name →
      Emits lines (sourceWords before)

/-- Every line is accepted, no MOV has a number for its destination, and every number fits. -/
structure Clean (lines : List Str) : Prop where
  accepted : ∀ line ∈ lines, ¬ Rejected line
  registers : ∀ line ∈ lines, ¬ NumericDest (upper (verify line))
  fits : ∀ value, Emits lines value → -32768 ≤ value ∧ value ≤ 32767

section Parsing

variable {lines before after : List Str} {line : Str} {name : Identifier} {state : ParseState}

theorem parseLines_distinct (parsed : parseLines (before ++ line :: after) = .ok state)
    (defines : Defines line name) : ¬ ∃ earlier ∈ before, Defines earlier name := by
  obtain ⟨earlier, _, prior, taken, _⟩ := parseLines_split parsed
  obtain ⟨_, fresh⟩ := parseLine_label defines taken
  intro known
  obtain ⟨body, stored⟩ := mem_keys_iff.mp ((parseLines_labels prior name).mpr known)
  cases fresh.symm.trans stored

theorem parseLines_settles (parsed : parseLines lines = .ok state) :
    ∀ line ∈ lines, Settles line := by
  intro line member content error failed
  obtain ⟨before, after, rfl⟩ := List.append_of_mem member
  obtain ⟨_, _, _, taken, _⟩ := parseLines_split parsed
  simp only [parseLine, content, if_false, failed] at taken
  split at taken
  · cases ‹Except.error error = .ok _›
  · rename_i reason same
    exact ⟨reason, Except.error.inj same⟩
  · cases taken

theorem parseLines_fails : (∃ error, parseLines lines = .error error) ↔
    (∃ line ∈ lines, Unshaped (upper (verify line))) ∨
      ∃ before line after name, lines = before ++ line :: after ∧ Defines line name ∧
        ∃ earlier ∈ before, Defines earlier name := by
  constructor
  · rintro ⟨error, failed⟩
    by_cases settles : ∀ line ∈ lines, Settles line
    · obtain ⟨before, line, after, name, split, defines, earlier, _⟩ :=
        (reported settles).stops error failed
      exact .inr ⟨before, line, after, name, split, defines, earlier⟩
    · simp only [settles_iff, not_forall, not_not] at settles
      obtain ⟨line, member, unshaped⟩ := settles
      exact .inl ⟨line, member, unshaped⟩
  · intro stops
    cases parsed : parseLines lines with
    | error error => exact ⟨error, rfl⟩
    | ok state =>
        rcases stops with ⟨line, member, unshaped⟩ |
          ⟨before, line, after, name, rfl, defines, known⟩
        · exact absurd unshaped ((settles_iff line).mp (parseLines_settles parsed line member))
        · exact absurd known (parseLines_distinct parsed defines)

theorem parseLine_words {next : ParseState} {numbered : Str × Nat}
    (parsed : parseLine state numbered = .ok next) :
    (next.linker.objs.map sizeof).sum =
      (state.linker.objs.map sizeof).sum + lineWords numbered.1 := by
  unfold parseLine at parsed
  unfold lineWords
  by_cases blank : verify numbered.1 = []
  · obtain rfl := Except.ok.inj ((if_pos blank).symm.trans parsed)
    simp [blank]
  · simp only [blank, if_false] at parsed ⊢
    cases read : parseString (upper (verify numbered.1)) with
    | error error =>
        rw [read] at parsed
        split at parsed
        · cases ‹Except.error error = .ok _›
        · obtain rfl := Except.ok.inj parsed
          rfl
        · cases parsed
    | ok found =>
        rw [read] at parsed
        cases found with
        | obj obj =>
            obtain rfl := Except.ok.inj parsed
            simp
        | label name =>
            simp only [addParsed] at parsed
            split at parsed
            · cases parsed
            · obtain rfl := Except.ok.inj parsed
              rfl

theorem foldlM_words {numbered : List (Str × Nat)} {first last : ParseState}
    (parsed : numbered.foldlM parseLine first = .ok last) :
    (last.linker.objs.map sizeof).sum =
      (first.linker.objs.map sizeof).sum + sourceWords (numbered.map Prod.fst) := by
  induction numbered generalizing first with
  | nil =>
      obtain rfl := Except.ok.inj parsed
      rfl
  | cons line numbered ih =>
      rw [List.foldlM_cons, bind_eq_ok] at parsed
      obtain ⟨middle, taken, rest⟩ := parsed
      rw [ih rest, parseLine_words taken]
      simp only [sourceWords, List.map_cons, List.sum_cons]
      omega

theorem parseLines_words (parsed : parseLines lines = .ok state) :
    wordsBefore state.linker.objs state.linker.objs.length = sourceWords lines := by
  have counted := foldlM_words parsed
  rw [List.zipIdx_map_fst] at counted
  rw [wordsBefore, List.take_length, counted]
  exact Nat.zero_add _

end Parsing

section Linking

variable {lines before after : List Str} {line : Str} {name : Identifier} {state : ParseState}
variable {linked : Linker} {body : LabelBody}

theorem link_defines (parsed : parseLines (before ++ line :: after) = .ok state)
    (defines : Defines line name) (success : link state.linker = .ok linked) :
    ∃ body, linked.labels.lookup name = some body ∧ body.codeOffset = sourceWords before := by
  obtain ⟨earlier, _, prior, _, _⟩ := parseLines_split parsed
  obtain ⟨⟨rest, same⟩, found⟩ := parseLines_label_at parsed defines prior
  rw [link_lookup (parseLines_wellFormed parsed) success, found]
  refine ⟨_, rfl, ?_⟩
  rw [← parseLines_words prior, ← same]
  change wordsBefore (earlier.linker.objs ++ rest) earlier.linker.objs.length = _
  rw [wordsBefore, wordsBefore, List.take_left, List.take_length]

theorem link_defined (parsed : parseLines lines = .ok state)
    (success : link state.linker = .ok linked) (found : linked.labels.lookup name = some body) :
    ∃ before line after, lines = before ++ line :: after ∧ Defines line name ∧
      body.codeOffset = sourceWords before := by
  rw [link_lookup (parseLines_wellFormed parsed) success, Option.map_eq_some_iff] at found
  obtain ⟨stored, located, rfl⟩ := found
  obtain ⟨line, member, defines⟩ :=
    (parseLines_labels parsed name).mp (mem_keys_iff.mpr ⟨stored, located⟩)
  obtain ⟨before, after, rfl⟩ := List.append_of_mem member
  obtain ⟨body, linkedTo, offset⟩ := link_defines parsed defines success
  rw [link_lookup (parseLines_wellFormed parsed) success, located] at linkedTo
  obtain rfl := Option.some.inj linkedTo
  exact ⟨before, line, after, rfl, defines, offset⟩

theorem link_fails (parsed : parseLines lines = .ok state) :
    (∃ error, link state.linker = .error error) ↔
      ∃ line ∈ lines, ∃ name, Names line name ∧ ¬ ∃ other ∈ lines, Defines other name := by
  have raises := link_raises (parseLines_wellFormed parsed)
  simp only [parseLines_labels parsed, parseLines_objects parsed] at raises
  constructor
  · rintro ⟨error, failed⟩
    obtain ⟨_, _, unresolved⟩ := link_eq_error failed
    obtain ⟨_, _, _, _, _, _, rfl⟩ := linkObj_eq_error.mp unresolved
    obtain ⟨opcode, d, sa, name, ⟨line, member, reads⟩, missing⟩ := raises.mp ⟨_, failed⟩
    exact ⟨line, member, name, ⟨opcode, d, sa, reads⟩, missing⟩
  · rintro ⟨line, member, name, ⟨opcode, d, sa, reads⟩, missing⟩
    obtain ⟨reason, failed⟩ := raises.mpr ⟨opcode, d, sa, name, ⟨line, member, reads⟩, missing⟩
    exact ⟨_, failed⟩

theorem assemblerMain_endsEarly : (assemblerMain lines).output = none ↔ EndsEarly lines := by
  have closed : (assemblerMain lines).output = none ↔ (∃ error, parseLines lines = .error error) ∨
      ∃ state, parseLines lines = .ok state ∧ ∃ error, link state.linker = .error error := by
    cases parsed : parseLines lines with
    | error error => simp [assemblerMain, parsed]
    | ok state => cases success : link state.linker <;> simp [assemblerMain, parsed, success]
  rw [closed, parseLines_fails]
  constructor
  · rintro ((⟨line, member, unshaped⟩ | ⟨before, line, after, name, split, defines, known⟩) |
      ⟨state, parsed, unlinked⟩)
    · exact .unshaped member unshaped
    · exact .duplicate split defines known
    · obtain ⟨line, member, name, names, missing⟩ := (link_fails parsed).mp unlinked
      exact .undefined member names missing
  · intro stops
    cases stops with
    | unshaped member unshaped => exact .inl (.inl ⟨_, member, unshaped⟩)
    | duplicate split defines known => exact .inl (.inr ⟨_, _, _, _, split, defines, known⟩)
    | undefined member names missing =>
        rw [← parseLines_fails]
        cases parsed : parseLines lines with
        | error error => exact .inl ⟨error, rfl⟩
        | ok state =>
            have unlinked := (link_fails parsed).mpr ⟨_, member, _, names, missing⟩
            exact .inr ⟨state, rfl, unlinked⟩

end Linking

section Writing

variable {lines : List Str} {state : ParseState} {linked : Linker}

theorem emits_iff (parsed : parseLines lines = .ok state)
    (success : link state.linker = .ok linked) (value : Int) :
    Emits lines value ↔ ∃ obj ∈ linked.objs, obj.number = some value := by
  have resolves := (link_eq_ok success).2
  constructor
  · intro emits
    cases emits with
    | @own line obj _ member reads number =>
        have stored := (parseLines_objects parsed obj).mpr ⟨line, member, reads⟩
        obtain ⟨index, located⟩ := List.getElem?_of_mem stored
        obtain ⟨other, placed, resolved⟩ := mapM_at resolves located
        have carries : obj.Carries linked.labels value := .inl number
        exact ⟨other, List.mem_of_getElem? placed, carries.number resolved⟩
    | @label line name before definition after member names split defines =>
        subst split
        obtain ⟨opcode, d, sa, reads⟩ := names
        have stored := (parseLines_objects parsed _).mpr ⟨line, member, reads⟩
        obtain ⟨index, located⟩ := List.getElem?_of_mem stored
        obtain ⟨other, placed, resolved⟩ := mapM_at resolves located
        obtain ⟨body, found, offset⟩ := link_defines parsed defines success
        refine ⟨other, List.mem_of_getElem? placed, ?_⟩
        have carries : Obj.Carries linked.labels (.rx opcode d sa (.ident name))
            (sourceWords before) := .inr ⟨_, _, _, _, body, rfl, found, by rw [offset]⟩
        exact carries.number resolved
  · rintro ⟨obj, member, number⟩
    obtain ⟨source, stored, resolved⟩ := mapM_source resolves member
    obtain ⟨line, listed, reads⟩ := (parseLines_objects parsed source).mp stored
    by_cases plain : ∀ opcode d sa name, source ≠ .rx opcode d sa (.ident name)
    · obtain rfl := Except.ok.inj ((linkObj_plain plain).symm.trans resolved)
      exact .own listed reads number
    · simp only [ne_eq, not_forall, not_not] at plain
      obtain ⟨opcode, d, sa, name, rfl⟩ := plain
      obtain ⟨body, found, rfl⟩ := linkObj_ident.mp resolved
      obtain rfl := Option.some.inj number
      obtain ⟨before, definition, after, split, defines, offset⟩ :=
        link_defined parsed success found
      rw [offset]
      exact .label listed ⟨opcode, d, sa, reads⟩ split defines

theorem encodes_iff (parsed : parseLines lines = .ok state)
    (success : link state.linker = .ok linked) :
    (∀ obj ∈ linked.objs, ∃ bytes, encode obj = .ok bytes) ↔
      (∀ line ∈ lines, ¬ NumericDest (upper (verify line))) ∧
        ∀ value, Emits lines value → -32768 ≤ value ∧ value ≤ 32767 := by
  constructor
  · intro packs
    constructor
    · intro line member numeric
      obtain ⟨value, source, read⟩ := numeric.parses
      have content : verify line ≠ [] := by
        obtain ⟨_, _, _, split, _⟩ := numeric
        exact verify_ne_nil split
      have stored := (parseLines_objects parsed _).mpr ⟨line, member, content, read⟩
      obtain ⟨index, located⟩ := List.getElem?_of_mem stored
      obtain ⟨other, placed, resolved⟩ := mapM_at (link_eq_ok success).2 located
      obtain rfl := Except.ok.inj ((linkObj_movObj _ _ _).symm.trans resolved)
      obtain ⟨bytes, encoded⟩ := packs _ (List.mem_of_getElem? placed)
      exact numeric_not_encoded value source bytes encoded
    · intro value emits
      obtain ⟨obj, member, number⟩ := (emits_iff parsed success value).mp emits
      obtain ⟨bytes, encoded⟩ := packs obj member
      exact encode_fits encoded number
  · rintro ⟨registers, fits⟩ obj member
    obtain ⟨source, stored, resolved⟩ := mapM_source (link_eq_ok success).2 member
    obtain ⟨line, listed, _, read⟩ := (parseLines_objects parsed source).mp stored
    have formed := (parseString_formed read).mpr (registers line listed)
    obtain ⟨item, rfl⟩ := (linkObj_formed resolved formed).item (linkObj_resolved resolved)
      fun value number => fits value ((emits_iff parsed success value).mpr ⟨obj, member, number⟩)
    exact ⟨_, encode_obj item⟩

theorem meetsError_iff (parsed : parseLines lines = .ok state)
    (success : link state.linker = .ok linked) :
    ¬ MeetsError lines ↔
      (∀ line ∈ lines, ¬ Rejected line) ∧ ∀ obj ∈ linked.objs, ∃ bytes, encode obj = .ok bytes := by
  constructor
  · intro clean
    refine ⟨fun line member rejected => clean (.rejects member rejected), fun obj member => ?_⟩
    cases encoded : encode obj with
    | ok bytes => exact ⟨bytes, rfl⟩
    | error error => exact absurd (.unpacked parsed success member encoded) clean
  · rintro ⟨accepted, packs⟩ error
    cases error with
    | rejects member rejected => exact accepted _ member rejected
    | raises failed => cases parsed.symm.trans failed
    | unlinked again failed =>
        obtain rfl := Except.ok.inj (parsed.symm.trans again)
        cases success.symm.trans failed
    | unpacked again linkedAgain member failed =>
        obtain rfl := Except.ok.inj (parsed.symm.trans again)
        obtain rfl := Except.ok.inj (success.symm.trans linkedAgain)
        obtain ⟨bytes, encoded⟩ := packs _ member
        cases encoded.symm.trans failed

theorem EndsEarly.meetsError (stops : EndsEarly lines) : MeetsError lines := by
  have closed := assemblerMain_endsEarly.mpr stops
  cases parsed : parseLines lines with
  | error error => exact .raises parsed
  | ok state => cases success : link state.linker with
    | error error => exact .unlinked parsed success
    | ok linked => simp [assemblerMain, parsed, success] at closed

theorem Clean.meetsNone (clean : Clean lines) (parsed : parseLines lines = .ok state)
    (success : link state.linker = .ok linked) : ¬ MeetsError lines :=
  (meetsError_iff parsed success).mpr
    ⟨clean.accepted, (encodes_iff parsed success).mpr ⟨clean.registers, clean.fits⟩⟩

end Writing

/-- `main` is all or nothing exactly for a source that stops it before it opens the path, and
for one without anything to complain about. -/
theorem main_atomic (lines : List Str) : Atomic lines ↔ EndsEarly lines ∨ Clean lines := by
  by_cases stops : EndsEarly lines
  · refine iff_of_true ⟨fun _ => assemblerMain_endsEarly.mpr stops, ?_⟩ (.inl stops)
    exact fun fine => absurd stops.meetsError fine
  have opened : (assemblerMain lines).output ≠ none := mt assemblerMain_endsEarly.mp stops
  obtain ⟨state, linked, parsed, success⟩ := assemblerMain_opens.mp opened
  rw [or_iff_right stops]
  constructor
  · intro atomic
    have fine : ¬ MeetsError lines := mt atomic.untouched opened
    obtain ⟨accepted, packs⟩ := (meetsError_iff parsed success).mp fine
    obtain ⟨registers, fits⟩ := (encodes_iff parsed success).mp packs
    exact ⟨accepted, registers, fits⟩
  · intro clean
    have fine := clean.meetsNone parsed success
    refine ⟨fun error => absurd error fine, fun _ => ?_⟩
    obtain ⟨_, packs⟩ := (meetsError_iff parsed success).mp fine
    obtain ⟨chunks, encoded⟩ := mapM_succeeds.mpr packs
    refine ⟨state, linked, chunks, parsed, success, encoded, ?_⟩
    rw [assemblerMain_linked parsed success, writeCode_chunks encoded]

theorem main_atomic_rejected : ¬ Atomic ["add R16,R0,R0".toList] := by
  intro atomic
  have rejected : Rejected "add R16,R0,R0".toList :=
    ⟨by decide +kernel, "invalid register: \"R16\"".toList, by decide +kernel⟩
  have emptied : assemblerMain ["add R16,R0,R0".toList] = ⟨some [], none⟩ := by decide +kernel
  have untouched := atomic.untouched (.rejects (by simp) rejected)
  rw [emptied] at untouched
  cases untouched

end Sigma16

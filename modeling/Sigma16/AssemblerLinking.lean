import Sigma16.AssemblerOutput

/-!
Labels and the words they name: `parse_lines` keeps the labels in source order, so
the one pass of `calc_label_offset` gives each the size of the objects before it.
-/

namespace Sigma16

open PyText Fallible

def Defines (line : Str) (name : Identifier) : Prop :=
  verify line ≠ [] ∧ parseString (upper (verify line)) = .ok (.label name)

def wordsBefore (objs : List Obj) (count : Nat) : Nat := ((objs.take count).map sizeof).sum

section Parsing

/-- What the loop of `parse_lines` maintains: labels are stored in the order of the
objects they precede, and each name once. -/
structure ParseState.WellFormed (state : ParseState) : Prop where
  counted : state.parsedObjects = state.linker.objs.length
  sorted : state.linker.labels.Pairwise fun first second => first.2.objOffset ≤ second.2.objOffset
  bounded : ∀ label ∈ state.linker.labels, label.2.objOffset ≤ state.linker.objs.length
  distinct : (state.linker.labels.map Prod.fst).Nodup

structure ParseState.Extends (earlier later : ParseState) : Prop where
  objs : earlier.linker.objs <+: later.linker.objs
  labels : earlier.linker.labels <+: later.linker.labels

variable {state next : ParseState} {numbered : Str × Nat}

theorem ParseState.Extends.refl (state : ParseState) : state.Extends state :=
  ⟨List.prefix_rfl, List.prefix_rfl⟩

theorem ParseState.Extends.trans {first second third : ParseState}
    (before : first.Extends second) (after : second.Extends third) : first.Extends third :=
  ⟨before.objs.trans after.objs, before.labels.trans after.labels⟩

theorem parseLine_eq_ok (parsed : parseLine state numbered = .ok next) :
    next.linker = state.linker ∧ next.parsedObjects = state.parsedObjects ∨
    (∃ obj, (verify numbered.1 ≠ [] ∧ parseString (upper (verify numbered.1)) = .ok (.obj obj)) ∧
      next.linker = ⟨state.linker.objs ++ [obj], state.linker.labels⟩ ∧
      next.parsedObjects = state.parsedObjects + 1) ∨
    ∃ name, Defines numbered.1 name ∧ state.linker.labels.lookup name = none ∧
      next.linker = ⟨state.linker.objs, state.linker.labels ++ [(name, ⟨state.parsedObjects, 0⟩)]⟩ ∧
      next.parsedObjects = state.parsedObjects := by
  simp only [parseLine] at parsed
  split at parsed
  · obtain rfl := Except.ok.inj parsed
    exact .inl ⟨rfl, rfl⟩
  · rename_i content
    split at parsed
    · rename_i found read
      cases found with
      | obj obj =>
          obtain rfl := Except.ok.inj parsed
          exact .inr (.inl ⟨obj, ⟨content, read⟩, rfl, rfl⟩)
      | label name =>
          simp only [addParsed] at parsed
          split at parsed
          · cases parsed
          · rename_i fresh
            obtain rfl := Except.ok.inj parsed
            exact .inr (.inr ⟨name, ⟨content, read⟩, Option.not_isSome_iff_eq_none.mp fresh, rfl, rfl⟩)
    · obtain rfl := Except.ok.inj parsed
      exact .inl ⟨rfl, rfl⟩
    · cases parsed

theorem parseLine_label {name : Identifier} (defines : Defines numbered.1 name)
    (parsed : parseLine state numbered = .ok next) :
    next.linker.labels = state.linker.labels ++ [(name, ⟨state.parsedObjects, 0⟩)] ∧
      state.linker.labels.lookup name = none := by
  simp only [parseLine, defines.1, if_false, defines.2, addParsed] at parsed
  split at parsed
  · cases parsed
  · rename_i fresh
    obtain rfl := Except.ok.inj parsed
    exact ⟨rfl, Option.not_isSome_iff_eq_none.mp fresh⟩

theorem parseLine_extends (parsed : parseLine state numbered = .ok next) : state.Extends next := by
  rcases parseLine_eq_ok parsed with ⟨same, _⟩ | ⟨obj, _, added, _⟩ | ⟨name, _, _, added, _⟩
  · exact ⟨same ▸ List.prefix_rfl, same ▸ List.prefix_rfl⟩
  · exact ⟨by simp [added], by simp [added]⟩
  · exact ⟨by simp [added], by simp [added]⟩

theorem wellFormed_init : ParseState.init.WellFormed :=
  ⟨rfl, .nil, by simp [ParseState.init], .nil⟩

theorem parseLine_wellFormed (formed : state.WellFormed)
    (parsed : parseLine state numbered = .ok next) : next.WellFormed := by
  obtain ⟨counted, sorted, bounded, distinct⟩ := formed
  rcases parseLine_eq_ok parsed with ⟨same, count⟩ | ⟨obj, _, added, count⟩ |
    ⟨name, _, fresh, added, count⟩
  · exact ⟨by rw [count, counted, same], by rwa [same], by rwa [same], by rwa [same]⟩
  · refine ⟨by simp [count, counted, added], by rwa [added], ?_, by rwa [added]⟩
    intro label member
    rw [added] at member ⊢
    have earlier := bounded label member
    simp only [List.length_append, List.length_singleton]
    omega
  · refine ⟨by simp [count, counted, added], ?_, ?_, ?_⟩
    · rw [added, List.pairwise_append]
      refine ⟨sorted, List.pairwise_singleton _ _, ?_⟩
      intro label member last isLast
      obtain rfl := List.mem_singleton.mp isLast
      exact counted ▸ bounded label member
    · intro label member
      rw [added] at member ⊢
      rcases List.mem_append.mp member with earlier | last
      · exact bounded label earlier
      · obtain rfl := List.mem_singleton.mp last
        exact counted.le
    · rw [added, List.map_append, List.nodup_append]
      refine ⟨distinct, by simp, ?_⟩
      intro key member last isLast
      obtain rfl := List.mem_singleton.mp isLast
      obtain ⟨label, stored, rfl⟩ := List.mem_map.mp member
      have other := List.lookup_eq_none_iff.mp fresh label stored
      rintro rfl
      simp at other

theorem parseLines_wellFormed {lines : List Str} (parsed : parseLines lines = .ok state) :
    state.WellFormed :=
  foldlM_invariant ParseState.WellFormed
    (fun _ _ _ _ formed taken => parseLine_wellFormed formed taken)
    wellFormed_init parsed

theorem parseLines_split {before after : List Str} {line : Str}
    (parsed : parseLines (before ++ line :: after) = .ok state) :
    ∃ earlier middle, parseLines before = .ok earlier ∧
      parseLine earlier (line, before.length) = .ok middle ∧ middle.Extends state := by
  simp only [parseLines, List.zipIdx_append, List.zipIdx_cons, List.foldlM_append, bind_eq_ok,
    List.foldlM_cons, Nat.zero_add] at parsed
  obtain ⟨earlier, first, middle, taken, rest⟩ := parsed
  refine ⟨earlier, middle, first, taken, ?_⟩
  exact foldlM_invariant (fun later => middle.Extends later)
    (fun _ _ _ _ extended step => extended.trans (parseLine_extends step)) (.refl middle) rest

theorem parseLines_labels {lines : List Str} (parsed : parseLines lines = .ok state)
    (name : Identifier) :
    name ∈ state.linker.labels.map Prod.fst ↔ ∃ line ∈ lines, Defines line name := by
  constructor
  · refine foldlM_invariant (fun (later : ParseState) =>
      name ∈ later.linker.labels.map Prod.fst → ∃ line ∈ lines, Defines line name) ?_ (by
        simp [ParseState.init]) parsed
    intro numbered member before next known taken stored
    rcases parseLine_eq_ok taken with ⟨same, _⟩ | ⟨obj, _, added, _⟩ | ⟨label, defines, _, added, _⟩
    · exact known (by rwa [same] at stored)
    · exact known (by rwa [added] at stored)
    · rw [added, List.map_append, List.mem_append] at stored
      rcases stored with earlier | last
      · exact known earlier
      · obtain rfl := List.mem_singleton.mp last
        exact ⟨numbered.1, (List.mem_zipIdx' member).2 ▸ List.getElem_mem _, defines⟩
  · rintro ⟨line, member, defines⟩
    obtain ⟨before, after, rfl⟩ := List.append_of_mem member
    obtain ⟨earlier, middle, _, taken, extended⟩ := parseLines_split parsed
    obtain ⟨added, _⟩ := parseLine_label defines taken
    have stored : (name, ⟨earlier.parsedObjects, 0⟩) ∈ middle.linker.labels := by simp [added]
    exact List.mem_map_of_mem (f := Prod.fst) (extended.labels.subset stored)

end Parsing

section Linking

def LabelBody.located (objs : List Obj) (body : LabelBody) : LabelBody :=
  { body with codeOffset := wordsBefore objs body.objOffset }

theorem calcLabelOffset_eq {objs : List Obj} {prevOff : Nat} {labels : LabelMapping}
    (sorted : labels.Pairwise fun first second => first.2.objOffset ≤ second.2.objOffset)
    (later : ∀ label ∈ labels, prevOff ≤ label.2.objOffset) :
    calcLabelOffset objs prevOff (wordsBefore objs prevOff) labels =
      labels.map fun label => (label.1, label.2.located objs) := by
  induction labels generalizing prevOff with
  | nil => rfl
  | cons label labels ih =>
      obtain ⟨name, body⟩ := label
      have ordered : prevOff ≤ body.objOffset := later (name, body) (by simp)
      have slice : wordsBefore objs prevOff +
          (((objs.take body.objOffset).drop prevOff).map sizeof).sum =
            wordsBefore objs body.objOffset := by
        have joined := List.take_append_drop prevOff (objs.take body.objOffset)
        rw [List.take_take, Nat.min_eq_left ordered] at joined
        rw [wordsBefore, wordsBefore, ← List.sum_append, ← List.map_append, joined]
      rw [List.pairwise_cons] at sorted
      simp only [calcLabelOffset, slice, List.map_cons]
      rw [ih sorted.2 fun other member => sorted.1 other member]
      rfl

theorem wellFormed_labels {state : ParseState} (formed : state.WellFormed) :
    calcLabelOffset state.linker.objs 0 0 state.linker.labels =
      state.linker.labels.map fun label => (label.1, label.2.located state.linker.objs) :=
  calcLabelOffset_eq formed.sorted fun _ _ => Nat.zero_le _

theorem lookup_map_snd {Key Before After : Type} [BEq Key] (into : Before → After)
    (entries : List (Key × Before)) (key : Key) :
    (entries.map fun entry => (entry.1, into entry.2)).lookup key =
      (entries.lookup key).map into := by
  induction entries with
  | nil => rfl
  | cons entry entries ih =>
      rw [List.map_cons, List.lookup_cons, List.lookup_cons]
      cases key == entry.1
      · exact ih
      · rfl

theorem linkObj_eq_error {labels : LabelMapping} {obj : Obj} {error : PyError} :
    linkObj labels obj = .error error ↔ ∃ opcode d sa name, obj = .rx opcode d sa (.ident name) ∧
      labels.lookup name = none ∧
      error = .linkerError ("unknown label \"".toList ++ name ++ "\"".toList) := by
  constructor
  · intro failed
    unfold linkObj at failed
    split at failed
    · rename_i opcode d sa name
      split at failed
      · cases failed
      · rename_i missing
        exact ⟨opcode, d, sa, name, rfl, missing, (Except.error.inj failed).symm⟩
    · cases failed
  · rintro ⟨opcode, d, sa, name, rfl, missing, rfl⟩
    rw [linkObj, missing]

theorem linkObj_ident {labels : LabelMapping} {opcode : Int} {d : Dest} {sa : Register}
    {name : Identifier} {obj : Obj} :
    linkObj labels (.rx opcode d sa (.ident name)) = .ok obj ↔
      ∃ body, labels.lookup name = some body ∧ .rx opcode d sa (.int body.codeOffset) = obj := by
  cases found : labels.lookup name <;> simp only [linkObj, found]
  · simp only [reduceCtorEq, false_and, exists_false]
  · simp only [Except.ok.injEq, Option.some.injEq, exists_eq_left']

theorem linkObj_plain {labels : LabelMapping} {obj : Obj}
    (plain : ∀ opcode d sa name, obj ≠ .rx opcode d sa (.ident name)) :
    linkObj labels obj = .ok obj := by
  unfold linkObj
  split
  · rename_i opcode d sa name
    exact absurd rfl (plain opcode d sa name)
  · rfl

theorem sizeof_linkObj {labels : LabelMapping} {obj linked : Obj}
    (resolved : linkObj labels obj = .ok linked) : sizeof linked = sizeof obj := by
  unfold linkObj at resolved
  split at resolved
  · split at resolved
    · obtain rfl := Except.ok.inj resolved
      rfl
    · cases resolved
  · obtain rfl := Except.ok.inj resolved
    rfl

variable {linker linked : Linker}

theorem link_eq_ok (success : link linker = .ok linked) :
    linked.labels = calcLabelOffset linker.objs 0 0 linker.labels ∧
      linker.objs.mapM (linkObj linked.labels) = .ok linked.objs := by
  obtain ⟨objs, resolved, built⟩ := bind_eq_ok.mp success
  obtain rfl := Except.ok.inj built
  exact ⟨rfl, resolved⟩

theorem link_eq_error {error : PyError} (failed : link linker = .error error) :
    ∃ obj ∈ linker.objs,
      linkObj (calcLabelOffset linker.objs 0 0 linker.labels) obj = .error error := by
  rcases bind_eq_error.mp failed with unresolved | ⟨_, _, impossible⟩
  · exact mapM_eq_error unresolved
  · cases impossible

theorem map_sizeof_linkObj {labels : LabelMapping} {objs linked : List Obj}
    (resolved : List.Forall₂ (fun obj obj' => linkObj labels obj = .ok obj') objs linked) :
    linked.map sizeof = objs.map sizeof := by
  induction resolved with
  | nil => rfl
  | cons first _ ih => rw [List.map_cons, List.map_cons, sizeof_linkObj first, ih]

theorem link_wordsBefore (success : link linker = .ok linked) (count : Nat) :
    wordsBefore linked.objs count = wordsBefore linker.objs count := by
  rw [wordsBefore, wordsBefore, List.map_take, List.map_take,
    map_sizeof_linkObj (mapM_eq_ok.mp (link_eq_ok success).2)]

theorem link_lookup {state : ParseState} (formed : state.WellFormed)
    (success : link state.linker = .ok linked) (name : Identifier) :
    linked.labels.lookup name =
      (state.linker.labels.lookup name).map (·.located state.linker.objs) := by
  rw [(link_eq_ok success).1, wellFormed_labels formed, lookup_map_snd]

theorem mem_keys_iff {labels : LabelMapping} {name : Identifier} :
    name ∈ labels.map Prod.fst ↔ ∃ body, labels.lookup name = some body := by
  rw [← Option.isSome_iff_exists, List.lookup_isSome_iff]
  simp

theorem link_raises {state : ParseState} (formed : state.WellFormed) :
    (∃ reason, link state.linker = .error (.linkerError reason)) ↔
      ∃ opcode d sa name, .rx opcode d sa (.ident name) ∈ state.linker.objs ∧
        name ∉ state.linker.labels.map Prod.fst := by
  have unknown : ∀ name, (calcLabelOffset state.linker.objs 0 0 state.linker.labels).lookup name =
      none ↔ name ∉ state.linker.labels.map Prod.fst := by
    intro name
    rw [wellFormed_labels formed, lookup_map_snd, mem_keys_iff, Option.map_eq_none_iff,
      ← Option.ne_none_iff_exists', not_not]
  constructor
  · rintro ⟨reason, failed⟩
    obtain ⟨obj, member, unresolved⟩ := link_eq_error failed
    obtain ⟨opcode, d, sa, name, rfl, missing, _⟩ := linkObj_eq_error.mp unresolved
    exact ⟨opcode, d, sa, name, member, (unknown name).mp missing⟩
  · rintro ⟨opcode, d, sa, name, member, missing⟩
    cases outcome : link state.linker with
    | error error =>
        obtain ⟨obj, _, unresolved⟩ := link_eq_error outcome
        obtain ⟨_, _, _, _, _, _, rfl⟩ := linkObj_eq_error.mp unresolved
        exact ⟨_, rfl⟩
    | ok linked =>
        obtain ⟨labels, resolved⟩ := link_eq_ok outcome
        obtain ⟨index, stored⟩ := List.getElem?_of_mem member
        obtain ⟨obj', _, found⟩ := mapM_at resolved stored
        rw [linkObj_eq_error.mpr
          ⟨opcode, d, sa, name, rfl, labels ▸ (unknown name).mpr missing, rfl⟩] at found
        cases found

theorem parseLines_label_at {state earlier : ParseState} {line : Str} {name : Identifier}
    {before after : List Str} (parsed : parseLines (before ++ line :: after) = .ok state)
    (defines : Defines line name) (prior : parseLines before = .ok earlier) :
    earlier.linker.objs <+: state.linker.objs ∧
      state.linker.labels.lookup name = some ⟨earlier.linker.objs.length, 0⟩ := by
  obtain ⟨earlier', middle, prior', taken, extended⟩ := parseLines_split parsed
  obtain rfl := Except.ok.inj (prior.symm.trans prior')
  obtain ⟨added, fresh⟩ := parseLine_label defines taken
  refine ⟨(parseLine_extends taken).objs.trans extended.objs, ?_⟩
  obtain ⟨later, same⟩ := extended.labels
  rw [← same, added, (parseLines_wellFormed prior).counted, List.lookup_append,
    List.lookup_append, fresh, List.lookup_cons_self]
  rfl

theorem label_offset {state earlier : ParseState} {line : Str} {name : Identifier}
    {before after : List Str} (parsed : parseLines (before ++ line :: after) = .ok state)
    (defines : Defines line name) (prior : parseLines before = .ok earlier)
    (success : link state.linker = .ok linked) (completes : (writeCode linked.objs).2 = none) :
    earlier.linker.objs <+: state.linker.objs ∧ ∃ body, linked.labels.lookup name = some body ∧
      2 * body.codeOffset =
        (writeCode (linked.objs.take earlier.linker.objs.length)).1.length := by
  obtain ⟨leading, found⟩ := parseLines_label_at parsed defines prior
  refine ⟨leading, LabelBody.located state.linker.objs ⟨earlier.linker.objs.length, 0⟩, ?_, ?_⟩
  · rw [link_lookup (parseLines_wellFormed parsed) success, found]
    rfl
  · rw [writeCode_length (writeCode_take completes _)]
    exact congrArg (2 * ·) (link_wordsBefore success earlier.linker.objs.length).symm

/-- Linking resolves every reference to the byte position of the code behind its label,
and raises for a reference without one. -/
theorem link_correct {lines : List Str} {state : ParseState}
    (parsed : parseLines lines = .ok state) :
    ((∃ reason, link state.linker = .error (.linkerError reason)) ↔
      ∃ opcode d sa name, .rx opcode d sa (.ident name) ∈ state.linker.objs ∧
        ¬ ∃ line ∈ lines, Defines line name) ∧
    ∀ linked, link state.linker = .ok linked → (writeCode linked.objs).2 = none →
      (∀ name, (∃ body, linked.labels.lookup name = some body) ↔
        ∃ line ∈ lines, Defines line name) ∧
      (∀ before line after name, lines = before ++ line :: after → Defines line name →
        ∃ earlier body, parseLines before = .ok earlier ∧
          earlier.linker.objs <+: state.linker.objs ∧ linked.labels.lookup name = some body ∧
          2 * body.codeOffset =
            (writeCode (linked.objs.take earlier.linker.objs.length)).1.length) ∧
      linked.objs.length = state.linker.objs.length ∧
      ∀ (index : Nat) obj, state.linker.objs[index]? = some obj →
        (∀ opcode d sa name, obj = .rx opcode d sa (.ident name) →
          ∃ body, linked.labels.lookup name = some body ∧
            linked.objs[index]? = some (.rx opcode d sa (.int body.codeOffset))) ∧
        ((∀ opcode d sa name, obj ≠ .rx opcode d sa (.ident name)) →
          linked.objs[index]? = some obj) := by
  have formed := parseLines_wellFormed parsed
  refine ⟨?_, fun linked success completes => ⟨?_, ?_, ?_, ?_⟩⟩
  · simp only [link_raises formed, parseLines_labels parsed]
  · intro name
    rw [← parseLines_labels parsed, mem_keys_iff, link_lookup formed success]
    simp only [Option.map_eq_some_iff]
    constructor
    · rintro ⟨_, body, found, _⟩
      exact ⟨body, found⟩
    · rintro ⟨body, found⟩
      exact ⟨_, body, found, rfl⟩
  · rintro before line after name rfl defines
    obtain ⟨earlier, _, prior, _⟩ := parseLines_split parsed
    obtain ⟨leading, body, found, offset⟩ := label_offset parsed defines prior success completes
    exact ⟨earlier, body, prior, leading, found, offset⟩
  · exact (mapM_eq_ok.mp (link_eq_ok success).2).length_eq.symm
  · intro index obj stored
    obtain ⟨obj', stored', resolved⟩ := mapM_at (link_eq_ok success).2 stored
    constructor
    · rintro opcode d sa name rfl
      obtain ⟨body, found, rfl⟩ := linkObj_ident.mp resolved
      exact ⟨body, found, stored'⟩
    · intro plain
      obtain rfl := Except.ok.inj ((linkObj_plain plain).symm.trans resolved)
      exact stored'

end Linking

theorem link_correct_forward :
    ∃ linked body, link ⟨[.rx 3 (.reg 0) 0 (.ident "END".toList), .num 7],
        [("END".toList, ⟨2, 0⟩)]⟩ = .ok linked ∧
      linked.labels.lookup "END".toList = some body ∧
      linked.objs[0]? = some (.rx 3 (.reg 0) 0 (.int body.codeOffset)) := by
  have parsed : parseLines ["jump end[R0]".toList, "data 7".toList, "end:".toList] = .ok
      ⟨⟨[.rx 3 (.reg 0) 0 (.ident "END".toList), .num 7], [("END".toList, ⟨2, 0⟩)]⟩, 2, []⟩ := by
    decide +kernel
  obtain ⟨_, _, _, resolved⟩ := (link_correct parsed).2 _ rfl (by decide +kernel)
  obtain ⟨body, found, stored⟩ := (resolved 0 _ rfl).1 _ _ _ _ rfl
  exact ⟨_, body, rfl, found, stored⟩

end Sigma16

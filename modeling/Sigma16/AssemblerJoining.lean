import Sigma16.AssemblerMain

/-!
Two sources, one behind the other: the second is assembled as it would be alone, with
what its label references stand for moved by the size of the first.
-/

namespace Sigma16

open PyText Words Fallible

def shiftLabels (count : Nat) (labels : LabelMapping) : LabelMapping :=
  labels.map fun label => (label.1, { label.2 with objOffset := count + label.2.objOffset })

def ParseState.join (first : ParseState) (lines : Nat) (second : ParseState) : ParseState where
  linker := {
    objs := first.linker.objs ++ second.linker.objs
    labels := first.linker.labels ++ shiftLabels first.parsedObjects second.linker.labels }
  parsedObjects := first.parsedObjects + second.parsedObjects
  errors := first.errors ++ second.errors.map fun diagnostic =>
    { diagnostic with lineNumber := lines + diagnostic.lineNumber }

/-- An object that was linked alone, in code that starts `size` words later. -/
def relocate (size : Nat) (unlinked linked : Obj) : Obj :=
  match unlinked, linked with
  | .rx _ _ _ (.ident _), .rx opcode d sa (.int value) => .rx opcode d sa (.int (size + value))
  | _, linked => linked

def Apart (first second : LabelMapping) : Prop :=
  ∀ name, name ∈ second.map Prod.fst → name ∉ first.map Prod.fst

section Parsing

variable {first second next : ParseState} {lines : Nat} {line : Str} {number : Nat}

theorem lookup_shiftLabels (count : Nat) (labels : LabelMapping) (name : Identifier) :
    (shiftLabels count labels).lookup name =
      (labels.lookup name).map fun body => { body with objOffset := count + body.objOffset } :=
  lookup_map_snd (fun body : LabelBody => { body with objOffset := count + body.objOffset }) _ _

theorem lookup_eq_none {labels : LabelMapping} {name : Identifier}
    (absent : name ∉ labels.map Prod.fst) : labels.lookup name = none := by
  rw [mem_keys_iff] at absent
  exact Option.eq_none_iff_forall_ne_some.mpr fun body found => absent ⟨body, found⟩

theorem join_init (state : ParseState) (lines : Nat) : state.join lines .init = state := by
  simp [ParseState.join, ParseState.init, shiftLabels]

theorem parseLine_join (fresh : ∀ name, Defines line name → name ∉ first.linker.labels.map Prod.fst)
    (parsed : parseLine second (line, number) = .ok next) :
    parseLine (first.join lines second) (line, lines + number) = .ok (first.join lines next) := by
  by_cases blank : verify line = []
  · simp only [parseLine, blank, if_true, Except.ok.injEq] at parsed ⊢
    rw [parsed]
  · simp only [parseLine, blank, if_false] at parsed ⊢
    cases read : parseString (upper (verify line)) with
    | error error =>
        rw [read] at parsed
        cases error with
        | parserError reason =>
            obtain rfl := Except.ok.inj parsed
            simp [ParseState.join, Nat.add_assoc]
        | _ => cases parsed
    | ok found =>
        rw [read] at parsed
        cases found with
        | obj obj =>
            obtain rfl := Except.ok.inj parsed
            simp [addParsed, ParseState.join, Nat.add_assoc]
        | label name =>
            simp only [addParsed] at parsed ⊢
            have absent := lookup_eq_none (fresh name ⟨blank, read⟩)
            split at parsed
            · cases parsed
            · rename_i new
              have missing : (first.join lines second).linker.labels.lookup name = none := by
                rw [ParseState.join, List.lookup_append, absent, lookup_shiftLabels,
                  Option.not_isSome_iff_eq_none.mp new]
                rfl
              obtain rfl := Except.ok.inj parsed
              rw [missing]
              simp [ParseState.join, shiftLabels]

theorem foldlM_join {back : List Str} {start : Nat} {state : ParseState}
    (fresh : ∀ line ∈ back, ∀ name, Defines line name → name ∉ first.linker.labels.map Prod.fst)
    (parsed : (back.zipIdx start).foldlM parseLine second = .ok state) :
    (back.zipIdx (lines + start)).foldlM parseLine (first.join lines second) =
      .ok (first.join lines state) := by
  induction back generalizing second start with
  | nil =>
      obtain rfl := Except.ok.inj parsed
      rfl
  | cons line back ih =>
      simp only [List.zipIdx_cons, List.foldlM_cons, bind_eq_ok] at parsed ⊢
      obtain ⟨next, taken, rest⟩ := parsed
      refine ⟨_, parseLine_join (fresh line (by simp)) taken, ?_⟩
      exact ih (fun other member => fresh other (by simp [member])) rest

theorem parseLine_shared {name : Identifier} (defines : Defines line name)
    (taken : name ∈ first.linker.labels.map Prod.fst) :
    parseLine (first.join lines second) (line, number) =
      .error (.parserError ("duplicate label \"".toList ++ name ++ "\"".toList)) := by
  obtain ⟨body, found⟩ := mem_keys_iff.mp taken
  have known : (first.join lines second).linker.labels.lookup name = some body := by
    rw [ParseState.join, List.lookup_append, found]
    rfl
  simp only [parseLine, defines.1, if_false, defines.2, addParsed, known, Option.isSome_some, if_true]

theorem foldlM_shared {back : List Str} {start : Nat} {state : ParseState}
    (shared : ∃ line ∈ back, ∃ name, Defines line name ∧ name ∈ first.linker.labels.map Prod.fst)
    (parsed : (back.zipIdx start).foldlM parseLine second = .ok state) :
    ∃ name, (back.zipIdx (lines + start)).foldlM parseLine (first.join lines second) =
      .error (.parserError ("duplicate label \"".toList ++ name ++ "\"".toList)) := by
  induction back generalizing second start with
  | nil =>
      obtain ⟨line, member, _⟩ := shared
      cases member
  | cons line back ih =>
      simp only [List.zipIdx_cons, List.foldlM_cons, bind_eq_ok] at parsed
      obtain ⟨next, taken, rest⟩ := parsed
      simp only [List.zipIdx_cons, List.foldlM_cons]
      by_cases here : ∃ name, Defines line name ∧ name ∈ first.linker.labels.map Prod.fst
      · obtain ⟨name, defines, known⟩ := here
        exact ⟨name, by rw [parseLine_shared defines known]; rfl⟩
      · have fresh : ∀ name, Defines line name → name ∉ first.linker.labels.map Prod.fst :=
          fun name defines known => here ⟨name, defines, known⟩
        have later : ∃ line ∈ back, ∃ name, Defines line name ∧
            name ∈ first.linker.labels.map Prod.fst := by
          obtain ⟨other, member, name, defines, known⟩ := shared
          rcases List.mem_cons.mp member with rfl | behind
          · exact absurd known (fresh name defines)
          · exact ⟨other, behind, name, defines, known⟩
        obtain ⟨name, raised⟩ := ih later rest
        exact ⟨name, by rw [parseLine_join fresh taken]; exact raised⟩

variable {front back : List Str}

theorem parseLines_shared (parsedFront : parseLines front = .ok first)
    (parsedBack : parseLines back = .ok second)
    (shared : ¬ Apart first.linker.labels second.linker.labels) :
    ∃ name, parseLines (front ++ back) =
      .error (.parserError ("duplicate label \"".toList ++ name ++ "\"".toList)) := by
  simp only [Apart, not_forall, not_not] at shared
  obtain ⟨name, defined, taken⟩ := shared
  obtain ⟨line, member, defines⟩ := (parseLines_labels parsedBack name).mp defined
  obtain ⟨other, raised⟩ := @foldlM_shared first .init front.length back 0 second
    ⟨line, member, name, defines, taken⟩ parsedBack
  rw [join_init] at raised
  refine ⟨other, ?_⟩
  rw [parseLines, List.zipIdx_append, List.foldlM_append]
  refine bind_eq_error.mpr (.inr ⟨first, parsedFront, ?_⟩)
  rw [Nat.zero_add]
  exact raised

theorem parseLines_join (parsedFront : parseLines front = .ok first)
    (parsedBack : parseLines back = .ok second)
    (apart : Apart first.linker.labels second.linker.labels) :
    parseLines (front ++ back) = .ok (first.join front.length second) := by
  have fresh : ∀ line ∈ back, ∀ name, Defines line name →
      name ∉ first.linker.labels.map Prod.fst := by
    intro line member name defines
    exact apart name ((parseLines_labels parsedBack name).mpr ⟨line, member, defines⟩)
  have joined := @foldlM_join first .init front.length back 0 second fresh parsedBack
  rw [join_init] at joined
  rw [parseLines, List.zipIdx_append, List.foldlM_append, bind_eq_ok]
  refine ⟨first, parsedFront, ?_⟩
  rw [Nat.zero_add]
  exact joined

end Parsing

section Linking

variable {first second : ParseState} {lines : Nat} {linked linked' : Linker}

theorem writeCode_join_error {before : List Obj} (completes : (writeCode before).2 = none)
    (rest : List Obj) : (writeCode (before ++ rest)).2 = (writeCode rest).2 := by
  induction before with
  | nil => rfl
  | cons obj before ih =>
      cases encoded : encode obj with
      | error error => simp [writeCode, encoded] at completes
      | ok bytes =>
          simp only [List.cons_append, writeCode, encoded]
          exact ih (by simpa [writeCode, encoded] using completes)

theorem wordsBefore_left {objs more : List Obj} {count : Nat} (inside : count ≤ objs.length) :
    wordsBefore (objs ++ more) count = wordsBefore objs count := by
  rw [wordsBefore, List.take_append_of_le_length inside, wordsBefore]

theorem wordsBefore_right (objs more : List Obj) (count : Nat) :
    wordsBefore (objs ++ more) (objs.length + count) =
      (objs.map sizeof).sum + wordsBefore more count := by
  rw [wordsBefore, List.take_length_add_append, List.map_append, List.sum_append, wordsBefore]

variable {name : Identifier} {body : LabelBody}

theorem join_lookup_left (formed : first.WellFormed) (joined : (first.join lines second).WellFormed)
    (found : (calcLabelOffset first.linker.objs 0 0 first.linker.labels).lookup name = some body) :
    ∃ same, (calcLabelOffset (first.join lines second).linker.objs 0 0
      (first.join lines second).linker.labels).lookup name = some same ∧
        same.codeOffset = body.codeOffset := by
  rw [wellFormed_labels formed, lookup_map_snd, Option.map_eq_some_iff] at found
  obtain ⟨stored, found, rfl⟩ := found
  refine ⟨stored.located (first.join lines second).linker.objs, ?_, ?_⟩
  · rw [wellFormed_labels joined, lookup_map_snd]
    simp only [ParseState.join, List.lookup_append, found, Option.some_or, Option.map_some]
  · exact wordsBefore_left (formed.bounded (name, stored) (mem_of_lookup found))

theorem join_lookup_right (formed : first.WellFormed) (formed' : second.WellFormed)
    (joined : (first.join lines second).WellFormed)
    (apart : Apart first.linker.labels second.linker.labels)
    (found : (calcLabelOffset second.linker.objs 0 0 second.linker.labels).lookup name =
      some body) :
    ∃ moved, (calcLabelOffset (first.join lines second).linker.objs 0 0
      (first.join lines second).linker.labels).lookup name = some moved ∧
        moved.codeOffset = (first.linker.objs.map sizeof).sum + body.codeOffset := by
  rw [wellFormed_labels formed', lookup_map_snd, Option.map_eq_some_iff] at found
  obtain ⟨stored, found, rfl⟩ := found
  have absent := apart name (mem_keys_iff.mpr ⟨stored, found⟩)
  refine ⟨LabelBody.located (first.join lines second).linker.objs
    { stored with objOffset := first.parsedObjects + stored.objOffset }, ?_, ?_⟩
  · rw [wellFormed_labels joined, lookup_map_snd]
    simp only [ParseState.join, List.lookup_append, lookup_eq_none absent, lookup_shiftLabels, found,
      Option.none_or, Option.map_some]
  · change wordsBefore (first.linker.objs ++ second.linker.objs) (first.parsedObjects +
      stored.objOffset) = _
    rw [formed.counted, wordsBefore_right]
    rfl

theorem linkObj_cases {labels : LabelMapping} {obj linked : Obj}
    (resolved : linkObj labels obj = .ok linked) :
    (∃ opcode d sa name body, obj = .rx opcode d sa (.ident name) ∧
      labels.lookup name = some body ∧ linked = .rx opcode d sa (.int body.codeOffset)) ∨
    linked = obj ∧ (∀ other, linkObj other obj = .ok obj) ∧ ∀ size, relocate size obj obj = obj := by
  cases obj with
  | rrr opcode d sa sb => exact .inr ⟨(Except.ok.inj resolved).symm, fun _ => rfl, fun _ => rfl⟩
  | num value => exact .inr ⟨(Except.ok.inj resolved).symm, fun _ => rfl, fun _ => rfl⟩
  | rx opcode d sa disp =>
      cases disp with
      | int value => exact .inr ⟨(Except.ok.inj resolved).symm, fun _ => rfl, fun _ => rfl⟩
      | ident name =>
          obtain ⟨body, found, rfl⟩ := linkObj_ident.mp resolved
          exact .inl ⟨opcode, d, sa, name, body, rfl, found, rfl⟩

theorem linkObj_left {labels same : LabelMapping} {obj linked : Obj}
    (kept : ∀ name body, labels.lookup name = some body →
      ∃ body', same.lookup name = some body' ∧ body'.codeOffset = body.codeOffset)
    (resolved : linkObj labels obj = .ok linked) : linkObj same obj = .ok linked := by
  rcases linkObj_cases resolved with ⟨opcode, d, sa, name, body, rfl, found, rfl⟩ |
    ⟨rfl, plain, -⟩
  · obtain ⟨body', found', offset⟩ := kept name body found
    exact linkObj_ident.mpr ⟨body', found', by rw [offset]⟩
  · exact plain same

theorem linkObj_right {labels moved : LabelMapping} {obj linked : Obj} {size : Nat}
    (shifted : ∀ name body, labels.lookup name = some body → ∃ body',
      moved.lookup name = some body' ∧ body'.codeOffset = size + body.codeOffset)
    (resolved : linkObj labels obj = .ok linked) :
    linkObj moved obj = .ok (relocate size obj linked) := by
  rcases linkObj_cases resolved with ⟨opcode, d, sa, name, body, rfl, found, rfl⟩ |
    ⟨rfl, plain, unmoved⟩
  · obtain ⟨body', found', offset⟩ := shifted name body found
    exact linkObj_ident.mpr ⟨body', found', by simp [relocate, offset]⟩
  · rw [plain moved, unmoved]

theorem linkObjs_right {labels moved : LabelMapping} {objs linked : List Obj} {size : Nat}
    (shifted : ∀ name body, labels.lookup name = some body → ∃ body',
      moved.lookup name = some body' ∧ body'.codeOffset = size + body.codeOffset)
    (resolved : List.Forall₂ (fun obj linked => linkObj labels obj = .ok linked) objs linked) :
    List.Forall₂ (fun obj linked => linkObj moved obj = .ok linked) objs
      (List.zipWith (relocate size) objs linked) := by
  induction resolved with
  | nil => exact .nil
  | cons first _ ih => exact .cons (linkObj_right shifted first) ih

theorem link_join (formed : first.WellFormed) (formed' : second.WellFormed)
    (joined : (first.join lines second).WellFormed)
    (apart : Apart first.linker.labels second.linker.labels)
    (success : link first.linker = .ok linked) (success' : link second.linker = .ok linked') :
    ∃ labels, link (first.join lines second).linker = .ok ⟨linked.objs ++
      List.zipWith (relocate (linked.objs.map sizeof).sum) second.linker.objs linked'.objs,
        labels⟩ := by
  obtain ⟨labels, resolved⟩ := link_eq_ok success
  obtain ⟨labels', resolved'⟩ := link_eq_ok success'
  rw [mapM_eq_ok] at resolved resolved'
  rw [labels] at resolved
  rw [labels'] at resolved'
  have size : (linked.objs.map sizeof).sum = (first.linker.objs.map sizeof).sum :=
    congrArg List.sum (map_sizeof_linkObj resolved)
  refine ⟨calcLabelOffset (first.join lines second).linker.objs 0 0
    (first.join lines second).linker.labels, ?_⟩
  refine bind_eq_ok.mpr ⟨_, mapM_eq_ok.mpr (List.rel_append (resolved.imp ?_) ?_), rfl⟩
  · exact fun _ _ => linkObj_left fun name body found => join_lookup_left formed joined found
  · rw [size]
    exact linkObjs_right
      (fun name body found => join_lookup_right formed formed' joined apart found) resolved'

end Linking

/-- Assembled with another source in front, a source yields the same code with the size of the
one in front added to what its label references stand for; two sources with a label in common
are not assembled. -/
theorem assemble_append {front back : List Str} {first second : ParseState} {linked : Linker}
    {code : List Byte} (parsedFront : parseLines front = .ok first)
    (parsedBack : parseLines back = .ok second)
    (written : assemblerMain front = ⟨some code, none⟩)
    (linkedBack : link second.linker = .ok linked) :
    (Apart first.linker.labels second.linker.labels →
      parseLines (front ++ back) = .ok (first.join front.length second) ∧
      assemblerMain (front ++ back) =
        let moved := List.zipWith (relocate (code.length / 2)) second.linker.objs linked.objs
        ⟨some (code ++ (writeCode moved).1), (writeCode moved).2⟩) ∧
    (¬ Apart first.linker.labels second.linker.labels →
      ∃ name, assemblerMain (front ++ back) =
        ⟨none, some (.parserError ("duplicate label \"".toList ++ name ++ "\"".toList))⟩) := by
  constructor
  · intro apart
    have parsed := parseLines_join parsedFront parsedBack apart
    refine ⟨parsed, ?_⟩
    simp only [assemblerMain, parsedFront] at written
    cases success : link first.linker with
    | error error =>
        rw [success] at written
        cases written
    | ok linkedFront =>
        rw [success] at written
        simp only [MainEnd.mk.injEq, Option.some.injEq] at written
        obtain ⟨rfl, completes⟩ := written
        obtain ⟨labels, joined⟩ := link_join (parseLines_wellFormed parsedFront)
          (parseLines_wellFormed parsedBack) (parseLines_wellFormed parsed) apart success linkedBack
        have size : (writeCode linkedFront.objs).1.length / 2 =
            (linkedFront.objs.map sizeof).sum := by
          rw [writeCode_length completes]
          omega
        simp only [assemblerMain, parsed, joined, size, writeCode_join completes,
          writeCode_join_error completes]
  · intro shared
    obtain ⟨name, raised⟩ := parseLines_shared parsedFront parsedBack shared
    exact ⟨name, by simp only [assemblerMain, raised]⟩

theorem assemble_append_jump :
    assemblerMain ["load R1,x[R0]".toList, "x:".toList, "data 7".toList, "y:".toList,
      "jump y[R0]".toList] =
    ⟨some [0xF1, 0x01, 0x00, 0x02, 0x00, 0x07, 0xF0, 0x03, 0x00, 0x03], none⟩ := by
  have front : parseLines ["load R1,x[R0]".toList, "x:".toList, "data 7".toList] =
      .ok ⟨⟨[.rx 1 (.reg 1) 0 (.ident "X".toList), .num 7], [("X".toList, ⟨1, 0⟩)]⟩, 2, []⟩ := by
    decide +kernel
  have back : parseLines ["y:".toList, "jump y[R0]".toList] =
      .ok ⟨⟨[.rx 3 (.reg 0) 0 (.ident "Y".toList)], [("Y".toList, ⟨0, 0⟩)]⟩, 1, []⟩ := by
    decide +kernel
  have written : assemblerMain ["load R1,x[R0]".toList, "x:".toList, "data 7".toList] =
      ⟨some [0xF1, 0x01, 0x00, 0x02, 0x00, 0x07], none⟩ := by
    decide +kernel
  have linked : link ⟨[.rx 3 (.reg 0) 0 (.ident "Y".toList)], [("Y".toList, ⟨0, 0⟩)]⟩ =
      .ok ⟨[.rx 3 (.reg 0) 0 (.int 0)], [("Y".toList, ⟨0, 0⟩)]⟩ := by
    decide
  have apart : Apart [("X".toList, ⟨1, 0⟩)] [("Y".toList, ⟨0, 0⟩)] := by
    simp [Apart]
  exact (((assemble_append front back written linked).1 apart).2).trans (by decide +kernel)

end Sigma16

import Sigma16.AssemblerErrors
import Sigma16.InstFormat

/-!
What `write_code` needs of an object, and where `parse_string` breaks it: MOV takes a
number in the place of its destination.
-/

namespace Sigma16

open PyText Fallible

/-- An object as the annotations of its class describe it, with an opcode of its format. -/
def Obj.WellFormed : Obj → Prop
  | .rrr opcode _ _ _ => 0 ≤ opcode ∧ opcode ≤ 13
  | .rx opcode d _ _ => (0 ≤ opcode ∧ opcode ≤ 8) ∧ ∃ register, d = .reg register
  | .num _ => True

def Obj.number : Obj → Option Int
  | .rrr .. => none
  | .rx _ _ _ (.int value) => some value
  | .rx _ _ _ (.ident _) => none
  | .num value => some value

def NumericDest (string : Str) : Prop :=
  ∃ chunks dest source, splitSpace string = "MOV".toList :: chunks ∧
    chunks.flatten.splitOn ',' = [dest, source] ∧ ¬ IsRegister dest ∧ IsNumeric dest ∧
    (IsRegister source ∨ IsNumeric source)

def IsRangeError (objs : List Obj) (error : PyError) : Prop :=
  error = .structError ∧ ∃ obj ∈ objs, ∃ value, obj.number = some value ∧
    ¬ (-32768 ≤ value ∧ value ≤ 32767)

/-- All objects are well formed, and when linked are written unless a number is out of range. -/
structure SoundObjects (linker : Linker) : Prop where
  formed : ∀ obj ∈ linker.objs, obj.WellFormed
  written : ∀ linked, link linker = .ok linked →
    ∀ error, (writeCode linked.objs).2 = some error → IsRangeError linked.objs error

section Parsing

variable {name string : Str} {opcode : Int} {type : InstType} {obj : Obj}

theorem listed_range (listed : instructions.lookup name = some (opcode, type)) :
    (type = .rrr → 0 ≤ opcode ∧ opcode ≤ 13) ∧
      (type = .rx → (implicitDest.lookup opcode).isSome ∨ 0 ≤ opcode ∧ opcode ≤ 8) := by
  have entries : ∀ entry ∈ instructions, (entry.2.2 = .rrr → 0 ≤ entry.2.1 ∧ entry.2.1 ≤ 13) ∧
      (entry.2.2 = .rx →
        (implicitDest.lookup entry.2.1).isSome ∨ 0 ≤ entry.2.1 ∧ entry.2.1 ≤ 8) := by
    decide
  exact entries (name, opcode, type) (mem_of_lookup listed)

theorem implicit_range {op : Int} {d : Register}
    (implicit : implicitDest.lookup opcode = some (op, d)) : 0 ≤ op ∧ op ≤ 8 := by
  have entries : ∀ entry ∈ implicitDest, 0 ≤ entry.2.1 ∧ entry.2.1 ≤ 8 := by decide
  exact entries (opcode, op, d) (mem_of_lookup implicit)

theorem parseRrrInstruction_formed (parsed : parseRrrInstruction opcode string = .ok obj)
    (range : 0 ≤ opcode ∧ opcode ≤ 13) : obj.WellFormed := by
  obtain ⟨registers, _, built⟩ := bind_eq_ok.mp parsed
  split at built
  · split at built
    · cases built
    · obtain rfl := Except.ok.inj built
      exact range
  · cases built

theorem parseCmpInst_formed (parsed : parseCmpInst 4 string = .ok obj) : obj.WellFormed := by
  obtain ⟨registers, _, built⟩ := bind_eq_ok.mp parsed
  split at built
  · obtain rfl := Except.ok.inj built
    exact ⟨by decide, by decide⟩
  · cases built

theorem parseInvInst_formed (parsed : parseInvInst 8 string = .ok obj) : obj.WellFormed := by
  obtain ⟨registers, _, built⟩ := bind_eq_ok.mp parsed
  split at built
  · obtain rfl := Except.ok.inj built
    exact ⟨by decide, by decide⟩
  · cases built

theorem parseRxInstruction_formed (parsed : parseRxInstruction opcode string = .ok obj)
    (range : (implicitDest.lookup opcode).isSome ∨ 0 ≤ opcode ∧ opcode ≤ 8) : obj.WellFormed := by
  obtain ⟨op, d, built, dest⟩ := parseRxInstruction_eq_ok parsed
  obtain ⟨_, _, disp, register, _, _, _, rfl⟩ := parseRxOperand_eq_ok built
  refine ⟨?_, d, rfl⟩
  rcases dest with implicit | ⟨explicit, rfl, _⟩
  · exact implicit_range implicit
  · rw [explicit] at range
    exact range.resolve_left (by decide)

theorem parseRegOrNumeric_register {text : Str} {dest : Dest}
    (parsed : parseRegOrNumeric (strip text) = .ok dest) :
    (∃ register, dest = .reg register) ↔ IsRegister text := by
  rw [← parseRegister_succeeds]
  unfold parseRegOrNumeric at parsed
  cases named : parseRegister (strip text) with
  | ok register =>
      rw [named] at parsed
      obtain rfl := Except.ok.inj parsed
      simp
  | error error =>
      rw [named] at parsed
      cases read : parseNumeric (strip text) with
      | ok value =>
          rw [read] at parsed
          obtain rfl := Except.ok.inj parsed
          simp
      | error error =>
          rw [read] at parsed
          cases parsed

def movObj (d : Dest) : Dest → Obj
  | .reg sa => .rx 0 d sa (.int 0)
  | .num disp => .rx 0 d 0 (.int disp)

theorem movObj_formed (d source : Dest) :
    (movObj d source).WellFormed ↔ ∃ register, d = .reg register := by
  cases source <;> exact and_iff_right ⟨by decide, by decide⟩

theorem parseMovInst_iff : parseMovInst string = .ok obj ↔
    ∃ dest source d value, string.splitOn ',' = [dest, source] ∧
      parseRegOrNumeric (strip dest) = .ok d ∧ parseRegOrNumeric (strip source) = .ok value ∧
      obj = movObj d value := by
  unfold parseMovInst
  simp only [bind_eq_ok, mapM_eq_ok]
  constructor
  · rintro ⟨dests, read, built⟩
    obtain ⟨d, value, rfl, rfl⟩ : ∃ d value, dests = [d, value] ∧ obj = movObj d value := by
      split at built
      · exact ⟨_, _, rfl, (Except.ok.inj built).symm⟩
      · exact ⟨_, _, rfl, (Except.ok.inj built).symm⟩
      · cases built
    cases split : string.splitOn ',' with
    | nil =>
        rw [split] at read
        cases read
    | cons dest rest =>
        rw [split] at read
        obtain ⟨first, others⟩ := List.forall₂_cons.mp read
        cases others with
        | cons second none =>
            cases none
            exact ⟨_, _, d, value, rfl, first, second, rfl⟩
  · rintro ⟨dest, source, d, value, split, first, second, rfl⟩
    refine ⟨[d, value], ?_, ?_⟩
    · rw [split]
      exact .cons first (.cons second .nil)
    · cases value <;> rfl

theorem listed_mov (listed : instructions.lookup name = some (opcode, type)) :
    name = "MOV".toList ↔ opcode = -7 ∧ type = .pseudo := by
  have entries : ∀ entry ∈ instructions,
      entry.1 = "MOV".toList ↔ entry.2.1 = -7 ∧ entry.2.2 = .pseudo := by
    decide
  exact entries (name, opcode, type) (mem_of_lookup listed)

theorem numericDest_mov {chunks : List Str} (split : splitSpace string = name :: chunks) :
    NumericDest string → name = "MOV".toList := by
  rintro ⟨other, _, _, mov, _⟩
  exact (List.cons.inj (split.symm.trans mov)).1

theorem parseMovInst_formed {chunks : List Str} (split : splitSpace string = "MOV".toList :: chunks)
    (parsed : parseMovInst chunks.flatten = .ok obj) : obj.WellFormed ↔ ¬ NumericDest string := by
  obtain ⟨dest, source, d, value, operands, first, second, rfl⟩ := parseMovInst_iff.mp parsed
  have accepted := parseRegOrNumeric_succeeds.mp ⟨d, first⟩
  have acceptedSource := parseRegOrNumeric_succeeds.mp ⟨value, second⟩
  rw [movObj_formed, parseRegOrNumeric_register first]
  constructor
  · rintro register ⟨other, dest', source', mov, operands', unnamed, _⟩
    obtain ⟨_, rfl⟩ := List.cons.inj (split.symm.trans mov)
    obtain ⟨rfl, _⟩ := List.cons.inj (operands.symm.trans operands')
    exact unnamed register
  · intro notNumeric
    by_contra unnamed
    exact notNumeric ⟨chunks, dest, source, split, operands, unnamed, accepted.resolve_left unnamed,
      acceptedSource⟩

theorem parseOperands_formed {chunks : List Str} (split : splitSpace string = name :: chunks)
    (listed : instructions.lookup name = some (opcode, type))
    (parsed : parseOperands type opcode chunks.flatten = .ok obj) :
    obj.WellFormed ↔ ¬ NumericDest string := by
  by_cases mov : name = "MOV".toList
  · obtain ⟨rfl, rfl⟩ := (listed_mov listed).mp mov
    exact parseMovInst_formed (mov ▸ split) parsed
  · refine iff_of_true ?_ (fun numeric => mov (numericDest_mov split numeric))
    cases type with
    | rrr => exact parseRrrInstruction_formed parsed ((listed_range listed).1 rfl)
    | rx => exact parseRxInstruction_formed parsed ((listed_range listed).2 rfl)
    | pseudo =>
        rcases (listed_opcodes listed).2 rfl with rfl | rfl | rfl
        · exact parseCmpInst_formed parsed
        · exact parseInvInst_formed parsed
        · exact absurd ((listed_mov listed).mpr ⟨rfl, rfl⟩) mov

theorem parseString_formed (parsed : parseString string = .ok (.obj obj)) :
    obj.WellFormed ↔ ¬ NumericDest string := by
  rcases parseString_eq_ok parsed with ⟨value, chunks, number, split, _, same⟩ |
    ⟨name, chunks, opcode, type, built, split, listed, operands, same⟩ | ⟨_, _, other⟩
  · obtain rfl := Parsed.obj.inj same
    refine iff_of_true trivial (fun numeric => ?_)
    exact absurd (numericDest_mov split numeric) (by decide)
  · obtain rfl := Parsed.obj.inj same
    exact parseOperands_formed split listed operands
  · cases other

theorem NumericDest.parses (numeric : NumericDest string) :
    ∃ value source, parseString string = .ok (.obj (movObj (.num value) source)) := by
  obtain ⟨chunks, dest, source, split, operands, unnamed, number, accepted⟩ := numeric
  obtain ⟨d, first⟩ := parseRegOrNumeric_succeeds.mpr (.inr number)
  obtain ⟨moved, second⟩ := parseRegOrNumeric_succeeds.mpr accepted
  have listed : instructions.lookup "MOV".toList = some (-7, .pseudo) := by decide
  have built : parseOperands .pseudo (-7) chunks.flatten = .ok (movObj d moved) :=
    parseMovInst_iff.mpr ⟨dest, source, d, moved, operands, first, second, rfl⟩
  have notRegister := mt (parseRegOrNumeric_register first).mp unnamed
  cases d with
  | reg register => exact absurd ⟨register, rfl⟩ notRegister
  | num value =>
      refine ⟨value, moved, ?_⟩
      rw [parseString_listed split listed, built]
      rfl

end Parsing

section Files

variable {lines : List Str} {state : ParseState}

theorem parseLines_objects (parsed : parseLines lines = .ok state) (obj : Obj) :
    obj ∈ state.linker.objs ↔ ∃ line ∈ lines, Reads line (some (.obj obj)) := by
  constructor
  · refine foldlM_invariant (fun (later : ParseState) =>
      obj ∈ later.linker.objs → ∃ line ∈ lines, Reads line (some (.obj obj))) ?_ (by
        simp [ParseState.init]) parsed
    intro numbered member before next known taken stored
    rcases parseLine_eq_ok taken with ⟨same, _⟩ | ⟨added, reads, grown, _⟩ | ⟨_, _, _, grown, _⟩
    · exact known (by rwa [same] at stored)
    · rw [grown, List.mem_append] at stored
      rcases stored with earlier | last
      · exact known earlier
      · obtain rfl := List.mem_singleton.mp last
        exact ⟨numbered.1, (List.mem_zipIdx' member).2 ▸ List.getElem_mem _, reads⟩
    · exact known (by rwa [grown] at stored)
  · rintro ⟨line, member, reads⟩
    obtain ⟨before, after, rfl⟩ := List.append_of_mem member
    obtain ⟨earlier, _, prior, _, _⟩ := parseLines_split parsed
    exact List.mem_of_getElem? (parseLines_object_at parsed prior reads)

end Files

section Writing

variable {obj : Obj} {labels : LabelMapping}

def Obj.Resolved (obj : Obj) : Prop := ∀ opcode d sa name, obj ≠ .rx opcode d sa (.ident name)

theorem linkObj_resolved {linked : Obj} (resolved : linkObj labels obj = .ok linked) :
    linked.Resolved := by
  unfold linkObj at resolved
  split at resolved
  · split at resolved
    · obtain rfl := Except.ok.inj resolved
      simp [Obj.Resolved]
    · cases resolved
  · rename_i plain
    obtain rfl := Except.ok.inj resolved
    exact plain

theorem linkObj_formed {linked : Obj} (resolved : linkObj labels obj = .ok linked)
    (formed : obj.WellFormed) : linked.WellFormed := by
  unfold linkObj at resolved
  split at resolved
  · split at resolved
    · obtain rfl := Except.ok.inj resolved
      exact formed
    · cases resolved
  · obtain rfl := Except.ok.inj resolved
    exact formed

theorem Obj.WellFormed.item (formed : obj.WellFormed) (resolved : obj.Resolved)
    (fits : ∀ value, obj.number = some value → -32768 ≤ value ∧ value ≤ 32767) :
    ∃ item : Item, obj = item.obj := by
  cases obj with
  | rrr opcode d sa sb =>
      obtain ⟨lower, upper⟩ := formed
      obtain ⟨op, rfl⟩ := Int.eq_ofNat_of_zero_le lower
      exact ⟨.rrr ⟨op, by omega⟩ d sa sb, rfl⟩
  | rx opcode d sa disp =>
      obtain ⟨⟨lower, upper⟩, register, rfl⟩ := formed
      obtain ⟨op, rfl⟩ := Int.eq_ofNat_of_zero_le lower
      cases disp with
      | int value => exact ⟨.rx ⟨op, by omega⟩ register sa ⟨value, fits value rfl⟩, rfl⟩
      | ident name => exact absurd rfl (resolved _ _ _ name)
  | num value => exact ⟨.data ⟨value, fits value rfl⟩, rfl⟩

theorem packByte_fails (value : Int) : FailsWithin (· = .structError) (packByte value) := by
  unfold packByte
  split
  · exact failsWithin_ok _
  · exact failsWithin_error.mpr rfl

theorem packShort_fails (value : Int) : FailsWithin (· = .structError) (packShort value) := by
  unfold packShort
  split
  · exact failsWithin_ok _
  · exact failsWithin_error.mpr rfl

theorem encode_fails (formed : obj.WellFormed) : FailsWithin (· = .structError) (encode obj) := by
  cases obj with
  | rrr opcode d sa sb =>
      refine (failsWithin_bind (packByte_fails _)).mpr fun head _ => ?_
      refine (failsWithin_bind (packByte_fails _)).mpr fun tail _ => ?_
      exact failsWithin_ok _
  | rx opcode d sa disp =>
      obtain ⟨_, register, rfl⟩ := formed
      refine (failsWithin_bind (failsWithin_ok _)).mpr fun d _ => ?_
      refine (failsWithin_bind (packByte_fails _)).mpr fun head _ => ?_
      refine (failsWithin_bind (packByte_fails _)).mpr fun body _ => ?_
      have last : FailsWithin (· = .structError) (packDisp disp) := by
        cases disp with
        | int value => exact packShort_fails value
        | ident name => exact failsWithin_error.mpr rfl
      exact (failsWithin_bind last).mpr fun tail _ => failsWithin_ok _
  | num value => exact packShort_fails value

theorem encode_range {error : PyError} (formed : obj.WellFormed) (resolved : obj.Resolved)
    (failed : encode obj = .error error) : error = .structError ∧
      ∃ value, obj.number = some value ∧ ¬ (-32768 ≤ value ∧ value ≤ 32767) := by
  refine ⟨encode_fails formed error failed, ?_⟩
  by_contra fits
  obtain ⟨item, rfl⟩ := formed.item resolved fun value number => by
    by_contra outside
    exact fits ⟨value, number, outside⟩
  cases (encode_obj item).symm.trans failed

theorem writeCode_raises {objs : List Obj} {error : PyError}
    (failed : (writeCode objs).2 = some error) : ∃ obj ∈ objs, encode obj = .error error := by
  induction objs with
  | nil => cases failed
  | cons obj objs ih =>
      rw [writeCode] at failed
      cases encoded : encode obj with
      | error raised =>
          rw [encoded] at failed
          obtain rfl := Option.some.inj failed
          exact ⟨obj, by simp, encoded⟩
      | ok bytes =>
          rw [encoded] at failed
          obtain ⟨other, member, raised⟩ := ih failed
          exact ⟨other, by simp [member], raised⟩

theorem writeCode_range {linker linked : Linker} (formed : ∀ obj ∈ linker.objs, obj.WellFormed)
    (success : link linker = .ok linked) {error : PyError}
    (failed : (writeCode linked.objs).2 = some error) : IsRangeError linked.objs error := by
  obtain ⟨obj, member, raised⟩ := writeCode_raises failed
  obtain ⟨source, stored, resolved⟩ := mapM_source (link_eq_ok success).2 member
  have sound := linkObj_formed resolved (formed source stored)
  obtain ⟨kind, value, number, outside⟩ := encode_range sound (linkObj_resolved resolved) raised
  exact ⟨kind, obj, member, value, number, outside⟩

end Writing

/-- Every object is as `write_code` needs it, and only a number out of range stops it,
exactly when no MOV has a number for its destination. -/
theorem objects_sound {lines : List Str} {state : ParseState}
    (parsed : parseLines lines = .ok state) :
    SoundObjects state.linker ↔
      ∀ line ∈ lines, ¬ NumericDest (upper (verify line)) := by
  constructor
  · intro sound line member numeric
    obtain ⟨value, source, read⟩ := numeric.parses
    have content : verify line ≠ [] := by
      obtain ⟨_, _, _, split, _⟩ := numeric
      exact verify_ne_nil split
    have stored := (parseLines_objects parsed _).mpr ⟨line, member, content, read⟩
    exact (parseString_formed read).mp (sound.formed _ stored) numeric
  · intro plain
    have formed : ∀ obj ∈ state.linker.objs, obj.WellFormed := by
      intro obj stored
      obtain ⟨line, member, _, read⟩ := (parseLines_objects parsed obj).mp stored
      exact (parseString_formed read).mpr (plain line member)
    exact ⟨formed, fun linked success error failed => writeCode_range formed success failed⟩

theorem objects_sound_mov : SoundObjects ⟨[.rx 0 (.reg 1) 0 (.int 40000)], []⟩ := by
  have parsed : parseLines ["mov R1,40000".toList] =
      .ok ⟨⟨[.rx 0 (.reg 1) 0 (.int 40000)], []⟩, 1, []⟩ := by
    decide +kernel
  refine (objects_sound parsed).mpr fun line member => ?_
  obtain rfl := List.mem_singleton.mp member
  rintro ⟨chunks, dest, source, split, operands, unnamed, _⟩
  have words : splitSpace (upper (verify "mov R1,40000".toList)) =
      ["MOV".toList, "R1,40000".toList] := by
    decide +kernel
  obtain ⟨_, rfl⟩ := List.cons.inj (words.symm.trans split)
  have apart : ["R1,40000".toList].flatten.splitOn ',' = ["R1".toList, "40000".toList] := by
    decide
  obtain ⟨rfl, _⟩ := List.cons.inj (apart.symm.trans operands)
  exact unnamed (by decide : strip "R1".toList ∈ registerNames)

theorem objects_sound_numeric : ∃ state, parseLines ["mov 5,R1".toList] = .ok state ∧
    state.errors = [] ∧ (writeCode state.linker.objs).2 = some .attributeError ∧
    ¬ SoundObjects state.linker := by
  refine ⟨⟨⟨[.rx 0 (.num 5) 1 (.int 0)], []⟩, 1, []⟩, by decide +kernel, rfl, rfl, ?_⟩
  intro sound
  obtain ⟨_, register, same⟩ := sound.formed _ (List.mem_singleton_self _)
  cases same

end Sigma16

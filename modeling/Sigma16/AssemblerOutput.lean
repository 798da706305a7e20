import Sigma16.Assembler
import Sigma16.Fallible

/-!
`write_code` emits two bytes for every word `sizeof` counts, object by object.
-/

namespace Sigma16

open Words Fallible

theorem packByte_length {value : Int} {bytes : List Byte} (packed : packByte value = .ok bytes) :
    bytes.length = 1 := by
  unfold packByte at packed
  split at packed
  · obtain rfl := Except.ok.inj packed
    rfl
  · cases packed

theorem packShort_length {value : Int} {bytes : List Byte} (packed : packShort value = .ok bytes) :
    bytes.length = 2 := by
  unfold packShort at packed
  split at packed
  · obtain rfl := Except.ok.inj packed
    rfl
  · cases packed

theorem packDisp_length {disp : Disp} {bytes : List Byte} (packed : packDisp disp = .ok bytes) :
    bytes.length = 2 := by
  cases disp with
  | int value => exact packShort_length packed
  | ident name => cases packed

theorem encode_length {obj : Obj} {bytes : List Byte} (encoded : encode obj = .ok bytes) :
    bytes.length = 2 * sizeof obj := by
  cases obj with
  | rrr opcode d sa sb =>
      simp only [encode, bind_eq_ok, pure, Except.pure, Except.ok.injEq] at encoded
      obtain ⟨head, first, tail, second, rfl⟩ := encoded
      simp [packByte_length first, packByte_length second, sizeof]
  | rx opcode d sa disp =>
      simp only [encode, bind_eq_ok, pure, Except.pure, Except.ok.injEq] at encoded
      obtain ⟨_, _, head, first, body, second, tail, third, rfl⟩ := encoded
      simp [packByte_length first, packByte_length second, packDisp_length third, sizeof]
  | num value => exact packShort_length encoded

theorem writeCode_completes {objs : List Obj} :
    (writeCode objs).2 = none ↔ ∀ obj ∈ objs, ∃ bytes, encode obj = .ok bytes := by
  induction objs with
  | nil => simp [writeCode]
  | cons obj objs ih =>
      cases encoded : encode obj with
      | ok bytes => simp [writeCode, encoded, ih]
      | error error => simp [writeCode, encoded]

theorem writeCode_take {objs : List Obj} (completes : (writeCode objs).2 = none) (count : Nat) :
    (writeCode (objs.take count)).2 = none :=
  writeCode_completes.mpr fun obj member =>
    writeCode_completes.mp completes obj (List.mem_of_mem_take member)

theorem writeCode_join {before : List Obj} (completes : (writeCode before).2 = none)
    (rest : List Obj) : (writeCode (before ++ rest)).1 = (writeCode before).1 ++ (writeCode rest).1 := by
  induction before with
  | nil => rfl
  | cons obj before ih =>
      cases encoded : encode obj with
      | error error => simp [writeCode, encoded] at completes
      | ok bytes =>
          have joined := ih (by simpa [writeCode, encoded] using completes)
          simp only [List.cons_append, writeCode, encoded, joined, List.append_assoc]

theorem writeCode_length {objs : List Obj} (completes : (writeCode objs).2 = none) :
    (writeCode objs).1.length = 2 * (objs.map sizeof).sum := by
  induction objs with
  | nil => rfl
  | cons obj objs ih =>
      cases encoded : encode obj with
      | error error => simp [writeCode, encoded] at completes
      | ok bytes =>
          have rest := ih (by simpa [writeCode, encoded] using completes)
          have first := encode_length encoded
          simp only [writeCode, encoded, List.length_append, List.map_cons, List.sum_cons]
          omega

end Sigma16

import Mathlib.Algebra.Group.Nat.Defs
import Mathlib.Data.List.Basic

/-!
Printed text that can be read back. A printer whose texts are never the beginning of one
another can be followed by anything; numbers are printed with a fixed or a least width.
-/

namespace Printing

variable {α : Type}

abbrev Text := List Char

/-- No text of the printer begins another. -/
def IsPrefixCode (print : α → Text) : Prop := ∀ a b, print a <+: print b → a = b

namespace IsPrefixCode

variable {print : α → Text}

theorem append_inj (code : IsPrefixCode print) {a b : α} {rest more : Text}
    (same : print a ++ rest = print b ++ more) : a = b ∧ rest = more := by
  have equal : a = b := by
    rcases Nat.le_total (print a).length (print b).length with shorter | longer
    · refine code a b (List.prefix_of_prefix_length_le ⟨rest, rfl⟩ ⟨more, same.symm⟩ shorter)
    · refine (code b a (List.prefix_of_prefix_length_le ⟨more, same.symm⟩ ⟨rest, rfl⟩ longer)).symm
  subst b
  exact ⟨rfl, List.append_cancel_left same⟩

theorem split_inj (code : IsPrefixCode print) {a b : α} {between rest more : Text}
    (same : print a ++ (between ++ rest) = print b ++ (between ++ more)) :
    a = b ∧ rest = more := by
  obtain ⟨equal, behind⟩ := code.append_inj same
  exact ⟨equal, List.append_cancel_left behind⟩

theorem of_append_inj
    (inj : ∀ a b rest more, print a ++ rest = print b ++ more → a = b) : IsPrefixCode print := by
  rintro a b ⟨rest, same⟩
  exact inj a b rest [] (same.trans (List.append_nil _).symm)

theorem of_length (inj : Function.Injective print) (size : Nat)
    (length : ∀ a, (print a).length = size) : IsPrefixCode print := by
  intro a b begins
  exact inj (begins.eq_of_length ((length a).trans (length b).symm))

theorem const_append (code : IsPrefixCode print) (text : Text) :
    IsPrefixCode fun a => text ++ print a := by
  rintro a b begins
  exact code a b ((List.prefix_append_right_inj text).mp begins)

theorem append (code : IsPrefixCode print) (next : α → Text) :
    IsPrefixCode fun a => print a ++ next a := by
  refine of_append_inj fun a b rest more same => ?_
  rw [List.append_assoc, List.append_assoc] at same
  exact (code.append_inj same).1

theorem flatMap_injective (code : IsPrefixCode print) (nonempty : ∀ a, print a ≠ []) :
    Function.Injective fun values : List α => values.flatMap print := by
  intro first second same
  induction first generalizing second with
  | nil =>
      cases second with
      | nil => rfl
      | cons b second =>
          refine absurd ?_ (nonempty b)
          exact (List.append_eq_nil_iff.mp same.symm).1
  | cons a first ih =>
      cases second with
      | nil => exact absurd (List.append_eq_nil_iff.mp same).1 (nonempty a)
      | cons b second =>
          simp only [List.flatMap_cons] at same
          obtain ⟨equal, rest⟩ := code.append_inj same
          rw [equal, ih rest]

theorem family_append_inj {Index : Type} {print : Index → α → Text} {values others : Index → α}
    {indices : List Index} {rest more : Text}
    (code : ∀ index ∈ indices, IsPrefixCode (print index))
    (same : (indices.flatMap fun index => print index (values index)) ++ rest =
      (indices.flatMap fun index => print index (others index)) ++ more) :
    (∀ index ∈ indices, values index = others index) ∧ rest = more := by
  induction indices with
  | nil => exact ⟨by simp, same⟩
  | cons index indices ih =>
      simp only [List.flatMap_cons, List.append_assoc] at same
      obtain ⟨first, behind⟩ := (code index (by simp)).append_inj same
      obtain ⟨others, remaining⟩ := ih (fun other member => code other (by simp [member])) behind
      refine ⟨fun other member => ?_, remaining⟩
      rcases List.mem_cons.mp member with rfl | later
      · exact first
      · exact others other later

end IsPrefixCode

section Hexadecimal

def hexFormat (width value : Nat) : Text :=
  List.replicate (width - (Nat.toDigits 16 value).length) '0' ++ Nat.toDigits 16 value

def hexValue (digit : Char) : Nat :=
  if digit.isDigit then digit.toNat - '0'.toNat else digit.toNat - 'a'.toNat + 10

def readHex (text : Text) : Nat := text.foldl (fun sofar digit => 16 * sofar + hexValue digit) 0

theorem hexValue_digitChar : ∀ digit < 16, hexValue (Nat.digitChar digit) = digit := by
  decide

theorem readHex_toDigits (value : Nat) : readHex (Nat.toDigits 16 value) = value := by
  induction value using Nat.strongRecOn with
  | ind value ih =>
      by_cases small : value < 16
      · rw [Nat.toDigits_of_lt_base small]
        exact (Nat.zero_add _).trans (hexValue_digitChar value small)
      · rw [Nat.toDigits_of_base_le (by decide) (Nat.not_lt.mp small), readHex, List.foldl_append]
        have front := ih (value / 16) (by omega)
        rw [readHex] at front
        rw [front, List.foldl_cons, List.foldl_nil, hexValue_digitChar _ (Nat.mod_lt _ (by decide))]
        omega

theorem readHex_hexFormat (width value : Nat) : readHex (hexFormat width value) = value := by
  have zeros : ∀ count, (List.replicate count '0').foldl
      (fun sofar digit => 16 * sofar + hexValue digit) 0 = 0 := by
    intro count
    induction count with
    | zero => rfl
    | succ count ih => exact ih
  rw [readHex, hexFormat, List.foldl_append, zeros]
  exact readHex_toDigits value

theorem hexFormat_injective (width : Nat) : Function.Injective (hexFormat width) := by
  intro a b same
  rw [← readHex_hexFormat width a, same, readHex_hexFormat]

theorem hexFormat_length {width value : Nat} (positive : 0 < width) (small : value < 16 ^ width) :
    (hexFormat width value).length = width := by
  have digits := (Nat.length_toDigits_le_iff (by decide) positive).mpr small
  rw [hexFormat, List.length_append, List.length_replicate]
  omega

end Hexadecimal

end Printing

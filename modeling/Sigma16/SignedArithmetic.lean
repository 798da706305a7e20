import Mathlib.Algebra.Ring.Int.Defs
import Sigma16.Fallible

/-!
C's signed integers, at any width: an operation is undefined when its exact result has
no representation, and so is a division by zero.
-/

namespace SignedArithmetic

open Fallible

inductive Undefined where
  | overflow
  | divisionByZero
  deriving DecidableEq

def Fits (width : Nat) (value : Int) : Prop :=
  -2 ^ (width - 1) ≤ value ∧ value < 2 ^ (width - 1)

instance (width : Nat) (value : Int) : Decidable (Fits width value) :=
  inferInstanceAs (Decidable (_ ∧ _))

def exact (width : Nat) (value : Int) : Except Undefined (BitVec width) :=
  if Fits width value then .ok (BitVec.ofInt width value) else .error .overflow

variable {width : Nat}

def add (a b : BitVec width) : Except Undefined (BitVec width) := exact width (a.toInt + b.toInt)

def sub (a b : BitVec width) : Except Undefined (BitVec width) := exact width (a.toInt - b.toInt)

def mul (a b : BitVec width) : Except Undefined (BitVec width) := exact width (a.toInt * b.toInt)

def div (a b : BitVec width) : Except Undefined (BitVec width) :=
  if b = 0 then .error .divisionByZero else exact width (a.toInt.tdiv b.toInt)

/-- A remainder is undefined where its quotient is. -/
def rem (a b : BitVec width) : Except Undefined (BitVec width) := do
  let _ ← div a b
  return a.srem b

theorem exact_of_fits {value : Int} (fits : Fits width value) :
    exact width value = .ok (BitVec.ofInt width value) :=
  if_pos fits

theorem exact_of_not_fits {value : Int} (outside : ¬ Fits width value) :
    exact width value = .error .overflow :=
  if_neg outside

variable {a b : BitVec width}

/-! Where an operation is defined it agrees with the wrapping one. -/

theorem add_of_fits (fits : Fits width (a.toInt + b.toInt)) : add a b = .ok (a + b) := by
  rw [add, exact_of_fits fits, BitVec.ofInt_add, BitVec.ofInt_toInt, BitVec.ofInt_toInt]

theorem sub_of_fits (fits : Fits width (a.toInt - b.toInt)) : sub a b = .ok (a - b) := by
  rw [sub, exact_of_fits fits, Int.sub_eq_add_neg, BitVec.ofInt_add, BitVec.ofInt_toInt,
    BitVec.ofInt_neg, BitVec.ofInt_toInt, BitVec.sub_eq_add_neg]

theorem mul_of_fits (fits : Fits width (a.toInt * b.toInt)) : mul a b = .ok (a * b) := by
  rw [mul, exact_of_fits fits, BitVec.ofInt_mul, BitVec.ofInt_toInt, BitVec.ofInt_toInt]

theorem div_of_fits (nonzero : b ≠ 0) (fits : Fits width (a.toInt.tdiv b.toInt)) :
    div a b = .ok (a.sdiv b) := by
  rw [div, if_neg nonzero, exact_of_fits fits]
  apply congrArg Except.ok
  apply BitVec.eq_of_toInt_eq
  rw [BitVec.toInt_ofInt, BitVec.toInt_sdiv]

theorem rem_of_fits (nonzero : b ≠ 0) (fits : Fits width (a.toInt.tdiv b.toInt)) :
    rem a b = .ok (a.srem b) :=
  bind_eq_ok.mpr ⟨_, div_of_fits nonzero fits, rfl⟩

end SignedArithmetic

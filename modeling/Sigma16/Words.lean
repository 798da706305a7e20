import Mathlib.Data.Int.Bitwise

/-!
Nibbles, bytes and 16-bit words: how a word splits, how its parts join again,
and what a 16-bit word keeps of a wider integer.
-/

namespace Words

abbrev Nibble := BitVec 4
abbrev Byte := BitVec 8
abbrev Word := BitVec 16

def nibble (word : Word) (index : Nat) : Nibble := word.extractLsb' (4 * index) 4

def lowByte (word : Word) : Byte := word.extractLsb' 0 8

def highByte (word : Word) : Byte := word.extractLsb' 8 8

def bswap16 (word : Word) : Word := lowByte word ++ highByte word

def setBit (word : Word) (index : Nat) (val : Bool) : Word :=
  if val then word ||| 1#16 <<< index else word &&& ~~~(1#16 <<< index)

/-- C's `int`, to which `uint16_t` operands are promoted. Arithmetic wraps. -/
abbrev CInt := BitVec 32

def promote (word : Word) : CInt := word.setWidth 32

def truncate (val : CInt) : Word := val.setWidth 16

def boolInt (val : Bool) : CInt := if val then 1 else 0

@[simp] theorem lowByte_append (high low : Byte) : lowByte (high ++ low) = low :=
  BitVec.extractLsb'_append_eq_right

@[simp] theorem highByte_append (high low : Byte) : highByte (high ++ low) = high :=
  BitVec.extractLsb'_append_eq_left

@[simp] theorem highByte_append_lowByte (word : Word) : highByte word ++ lowByte word = word := by
  unfold highByte lowByte
  rw [BitVec.extractLsb'_append_extractLsb'_eq_extractLsb' (by decide), BitVec.extractLsb'_eq_self]

@[simp] theorem bswap16_append (high low : Byte) : bswap16 (high ++ low) = low ++ high := by
  simp [bswap16]

@[simp] theorem bswap16_bswap16 (word : Word) : bswap16 (bswap16 word) = word := by
  simp [bswap16]

theorem setBit_getLsbD (word : Word) {index : Nat} (val : Bool) (bound : index < 16) (other : Nat) :
    (setBit word index val).getLsbD other = if other = index then val else word.getLsbD other := by
  have mask : (1#16 <<< index).getLsbD other = decide (other = index) := by
    rw [← BitVec.twoPow_eq, BitVec.getLsbD_twoPow, decide_eq_true bound, Bool.true_and]
    exact decide_eq_decide.mpr eq_comm
  have inside := @BitVec.lt_of_getLsbD _ word other
  cases val
  · rw [setBit, if_neg (by decide), BitVec.getLsbD_and, BitVec.getLsbD_not, mask]
    by_cases same : other = index
    · simp [same]
    · simpa [same] using inside
  · rw [setBit, if_pos rfl, BitVec.getLsbD_or, mask]
    by_cases same : other = index <;> simp [same]

theorem nibble_join (word : Word) :
    nibble word 3 ++ nibble word 2 ++ nibble word 1 ++ nibble word 0 = word := by
  unfold nibble
  rw [BitVec.extractLsb'_append_extractLsb'_eq_extractLsb' (by decide),
    BitVec.extractLsb'_append_extractLsb'_eq_extractLsb' (by decide),
    BitVec.extractLsb'_append_extractLsb'_eq_extractLsb' (by decide), BitVec.extractLsb'_eq_self]

theorem nibble_ext {a b : Word} (first : nibble a 0 = nibble b 0) (second : nibble a 1 = nibble b 1)
    (third : nibble a 2 = nibble b 2) (fourth : nibble a 3 = nibble b 3) : a = b := by
  rw [← nibble_join a, first, second, third, fourth, nibble_join]

/-! The nibbles of a word put together from its bytes. -/

section Nibbles

variable (byte : Byte) (first second : Nibble)

theorem nibble_zero_append : nibble (byte ++ (first ++ second)) 0 = second :=
  (BitVec.extractLsb'_append_eq_of_add_le (by decide)).trans BitVec.extractLsb'_append_eq_right

theorem nibble_one_append : nibble (byte ++ (first ++ second)) 1 = first :=
  (BitVec.extractLsb'_append_eq_of_add_le (by decide)).trans BitVec.extractLsb'_append_eq_left

theorem nibble_two_append : nibble ((first ++ second) ++ byte) 2 = second :=
  (BitVec.extractLsb'_append_eq_of_le (by decide)).trans BitVec.extractLsb'_append_eq_right

theorem nibble_three_append : nibble ((first ++ second) ++ byte) 3 = first :=
  (BitVec.extractLsb'_append_eq_of_le (by decide)).trans BitVec.extractLsb'_append_eq_left

end Nibbles

theorem shiftRight_and_toNat (word : Word) :
    ((word >>> 4) &&& 0xf).toNat = (nibble word 1).toNat := by
  have mask : (0xf : Word).toNat = 2 ^ 4 - 1 := rfl
  rw [BitVec.toNat_and, mask, Nat.and_two_pow_sub_one_eq_mod]
  simp [nibble]

@[simp] theorem truncate_promote (word : Word) : truncate (promote word) = word := by
  simp [truncate, promote]

@[simp] theorem truncate_add (a b : CInt) : truncate (a + b) = truncate a + truncate b :=
  BitVec.setWidth_add a b (by decide)

@[simp] theorem truncate_sub (a b : CInt) : truncate (a - b) = truncate a - truncate b := by
  unfold truncate
  bv_omega

@[simp] theorem truncate_mul (a b : CInt) : truncate (a * b) = truncate a * truncate b :=
  BitVec.setWidth_mul a b (by decide)

@[simp] theorem truncate_not (a : CInt) : truncate (~~~a) = ~~~truncate a :=
  BitVec.setWidth_not (by decide)

@[simp] theorem truncate_and (a b : CInt) : truncate (a &&& b) = truncate a &&& truncate b :=
  BitVec.setWidth_and

@[simp] theorem truncate_or (a b : CInt) : truncate (a ||| b) = truncate a ||| truncate b :=
  BitVec.setWidth_or

@[simp] theorem truncate_xor (a b : CInt) : truncate (a ^^^ b) = truncate a ^^^ truncate b :=
  BitVec.setWidth_xor

@[simp] theorem truncate_boolInt (val : Bool) : truncate (boolInt val) = if val then 1 else 0 := by
  cases val <;> rfl

theorem promote_toInt (word : Word) : (promote word).toInt = word.toNat := by
  have bound := word.isLt
  rw [BitVec.toInt_eq_toNat_of_lt] <;> simp [promote]
  all_goals omega

@[simp] theorem promote_inj (a b : Word) : promote a = promote b ↔ a = b := by
  constructor
  · intro same
    simpa using congrArg truncate same
  · exact congrArg promote

@[simp] theorem promote_slt (a b : Word) : (promote a).slt (promote b) = decide (a < b) := by
  simp [BitVec.slt, promote_toInt, BitVec.lt_def]

@[simp] theorem promote_eq_zero (word : Word) : promote word = 0 ↔ word = 0 :=
  promote_inj word 0

@[simp] theorem promote_toNat (word : Word) : (promote word).toNat = word.toNat :=
  BitVec.toNat_setWidth_of_le (by decide)

theorem truncate_toNat (val : CInt) (small : val.toNat < 2 ^ 16) :
    (truncate val).toNat = val.toNat := by
  rw [truncate, BitVec.toNat_setWidth, Nat.mod_eq_of_lt small]

theorem promote_msb (word : Word) : (promote word).msb = false := by
  have bound := word.isLt
  rw [BitVec.msb_eq_decide, promote_toNat, decide_eq_false]
  omega

theorem truncate_sdiv (a b : Word) : truncate ((promote a).sdiv (promote b)) = a / b := by
  have value : ((promote a).sdiv (promote b)).toNat = a.toNat / b.toNat := by
    simp only [BitVec.sdiv_eq, promote_msb, BitVec.udiv_eq, BitVec.toNat_udiv, promote_toNat]
  have quotient := Nat.div_le_self a.toNat b.toNat
  have bound := a.isLt
  apply BitVec.eq_of_toNat_eq
  rw [truncate_toNat _ (by omega), value, BitVec.toNat_udiv]

theorem truncate_srem (a b : Word) : truncate ((promote a).srem (promote b)) = a % b := by
  have value : ((promote a).srem (promote b)).toNat = a.toNat % b.toNat := by
    simp only [BitVec.srem_eq, promote_msb, BitVec.toNat_umod, promote_toNat]
  have remainder := Nat.mod_le a.toNat b.toNat
  have bound := a.isLt
  apply BitVec.eq_of_toNat_eq
  rw [truncate_toNat _ (by omega), value, BitVec.toNat_umod]

end Words

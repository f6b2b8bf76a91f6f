import Mathlib.Data.List.Basic

/-!
# Shift registers

Bits that come in one after another at the low end of a register are the bits of a
word, the most significant one first; the high end of a register that is shifted
out gives them back in that order.
-/

set_option autoImplicit false

namespace DeviceModel.ShiftRegister

variable {v w : Nat}

def push (y : BitVec w) (b : Bool) : BitVec w := if b then y <<< 1 ||| 1 else y <<< 1

def pushAll (y : BitVec w) (bits : List Bool) : BitVec w := bits.foldl push y

def msbBits (x : BitVec w) : List Bool := (List.range w).map x.getMsbD

@[simp] theorem length_msbBits (x : BitVec w) : (msbBits x).length = w := by simp [msbBits]

theorem getElem?_msbBits (x : BitVec w) {i : Nat} (hi : i < w) :
    (msbBits x)[i]? = some (x.getMsbD i) := by simp [msbBits, hi]

theorem pushAll_append (y : BitVec w) (bits : List Bool) (b : Bool) :
    pushAll y (bits ++ [b]) = push (pushAll y bits) b := List.foldl_concat push y b bits

theorem getLsbD_push (y : BitVec w) (b : Bool) {i : Nat} (hi : i < w) :
    (push y b).getLsbD i = if i = 0 then b else y.getLsbD (i - 1) := by
  unfold push
  cases i with
  | zero => cases b <;> simp [hi]
  | succ i =>
    have hBelow : i < w := by omega
    cases b <;> simp [hi, BitVec.getLsbD_eq_getElem hBelow]

theorem getLsbD_pushAll (y : BitVec w) (bits : List Bool) {i : Nat} (hi : i < w) :
    (pushAll y bits).getLsbD i =
      if i < bits.length then bits.getD (bits.length - 1 - i) false
      else y.getLsbD (i - bits.length) := by
  induction bits generalizing y with
  | nil => rfl
  | cons b bits ih =>
    have hStep : pushAll y (b :: bits) = pushAll (push y b) bits := rfl
    rw [hStep, ih, List.length_cons]
    rcases Nat.lt_trichotomy i bits.length with hLow | rfl | hHigh
    · rw [if_pos hLow, if_pos (by omega), show bits.length + 1 - 1 - i = bits.length - 1 - i + 1 by omega]
      rfl
    · rw [if_neg (Nat.lt_irrefl _), if_pos (Nat.lt_succ_self _), Nat.sub_self,
        getLsbD_push y b (by omega), if_pos rfl, Nat.add_sub_cancel, Nat.sub_self]
      rfl
    · rw [if_neg (by omega), if_neg (by omega), getLsbD_push y b (by omega), if_neg (by omega),
        Nat.sub_sub]

/-- A word that came in bit by bit stands in the low bits. -/
theorem setWidth_pushAll (y : BitVec w) (x : BitVec v) (hv : v ≤ w) :
    (pushAll y (msbBits x)).setWidth v = x := by
  apply BitVec.eq_of_getLsbD_eq
  intro i hi
  rw [BitVec.getLsbD_setWidth, getLsbD_pushAll y _ (by omega), length_msbBits, if_pos hi,
    List.getD_eq_getElem?_getD, getElem?_msbBits x (by omega), Option.getD_some, BitVec.getMsbD]
  have hBack : v - 1 - (v - 1 - i) = i := by omega
  have hIn : v - 1 - i < v := by omega
  simp [hi, hBack, hIn]

theorem pushAll_msbBits (y x : BitVec w) : pushAll y (msbBits x) = x := by
  have hAll := setWidth_pushAll y x (Nat.le_refl w)
  rwa [BitVec.setWidth_eq] at hAll

theorem msbBits_pushAll (y : BitVec w) {bits : List Bool} (hLen : bits.length = w) :
    msbBits (pushAll y bits) = bits := by
  apply List.ext_getElem?
  intro i
  rcases Nat.lt_or_ge i w with hIn | hOut
  · have hAt : i < bits.length := by omega
    rw [getElem?_msbBits _ hIn, BitVec.getMsbD, getLsbD_pushAll y bits (by omega), if_pos (by omega),
      show bits.length - 1 - (w - 1 - i) = i by omega, List.getD_eq_getElem?_getD,
      List.getElem?_eq_getElem hAt]
    simp [hIn]
  · rw [List.getElem?_eq_none (by simpa using hOut), List.getElem?_eq_none (by omega)]

theorem msbBits_append (x : BitVec v) (y : BitVec w) : msbBits (x ++ y) = msbBits x ++ msbBits y := by
  apply List.ext_getElem?
  intro i
  rcases Nat.lt_or_ge i v with hLow | hHigh
  · rw [List.getElem?_append_left (by simpa using hLow), getElem?_msbBits x hLow,
      getElem?_msbBits _ (by omega), BitVec.getMsbD_append, if_neg (by omega)]
  · rw [List.getElem?_append_right (by simpa using hHigh), length_msbBits]
    rcases Nat.lt_or_ge i (v + w) with hIn | hOut
    · rw [getElem?_msbBits y (by omega), getElem?_msbBits _ hIn, BitVec.getMsbD_append, if_pos hHigh]
    · rw [List.getElem?_eq_none (by simpa using hOut), List.getElem?_eq_none (by simp; omega)]

/-- Shifting out: once the high bit is taken, the rest follows. -/
theorem take_msbBits_shiftLeft (x : BitVec w) {k : Nat} (hk : k < w) :
    (msbBits (x <<< 1)).take k = ((msbBits x).drop 1).take k := by
  apply List.ext_getElem?
  intro i
  rcases Nat.lt_or_ge i k with hLow | hHigh
  · rw [List.getElem?_take_of_lt hLow, List.getElem?_take_of_lt hLow, List.getElem?_drop,
      getElem?_msbBits _ (by omega), getElem?_msbBits _ (by omega), BitVec.getMsbD_shiftLeft,
      Nat.add_comm]
  · rw [List.getElem?_eq_none (by simp; omega), List.getElem?_eq_none (by simp; omega)]

end DeviceModel.ShiftRegister

import Mathlib.Data.BitVec
import Mathlib.Data.Nat.ModEq

/-!
# One's-complement sums

A carry out of the top of a word comes back in at its bottom. A sum of words is then
their total up to multiples of `2 ^ w - 1`, with zero for a total of zero only. Bytes are
summed in pairs; in the odd places of its pairs a string counts by a factor of 256.
-/

set_option autoImplicit false

namespace DeviceModel.OnesComplement

section Same

/-- Two totals that stand for the same number. -/
structure Same (M m n : Nat) : Prop where
  modEq : m ≡ n [MOD M]
  zero : m = 0 ↔ n = 0

variable {M m n k l : Nat}

theorem Same.refl (n : Nat) : Same M n n := ⟨Nat.ModEq.refl n, Iff.rfl⟩

theorem Same.symm (h : Same M m n) : Same M n m := ⟨h.modEq.symm, h.zero.symm⟩

theorem Same.trans (h : Same M m n) (h' : Same M n k) : Same M m k :=
  ⟨h.modEq.trans h'.modEq, h.zero.trans h'.zero⟩

theorem Same.add (h : Same M m n) (h' : Same M k l) : Same M (m + k) (n + l) where
  modEq := h.modEq.add h'.modEq
  zero := by
    have hFirst := h.zero
    have hSecond := h'.zero
    omega

theorem Same.mul_left (h : Same M m n) (k : Nat) : Same M (k * m) (k * n) where
  modEq := h.modEq.mul_left k
  zero := by rw [Nat.mul_eq_zero, Nat.mul_eq_zero, h.zero]

theorem Same.eq (h : Same M m n) (hm : m ≤ M) (hn : n ≤ M) : m = n := by
  have hZero := h.zero
  rcases Nat.lt_or_ge m M with hm' | hm'
  · rcases Nat.lt_or_ge n M with hn' | hn'
    · exact h.modEq.eq_of_lt_of_lt hm' hn'
    · obtain rfl : n = M := Nat.le_antisymm hn hn'
      have hMod : m % n = n % n := h.modEq
      rw [Nat.mod_self, Nat.mod_eq_of_lt hm'] at hMod
      omega
  · obtain rfl : m = M := Nat.le_antisymm hm hm'
    rcases Nat.lt_or_ge n m with hn' | hn'
    · have hMod : m % m = n % m := h.modEq
      rw [Nat.mod_self, Nat.mod_eq_of_lt hn'] at hMod
      omega
    · exact Nat.le_antisymm hn' hn

/-- What is carried out of the top comes back in at the bottom. -/
theorem same_fold (w n : Nat) : Same (2 ^ w - 1) (n % 2 ^ w + n / 2 ^ w) n where
  modEq := by
    have hPos : 0 < 2 ^ w := Nat.two_pow_pos w
    have hSplit : n = n % 2 ^ w + n / 2 ^ w + (2 ^ w - 1) * (n / 2 ^ w) := by
      have hDiv := Nat.mod_add_div n (2 ^ w)
      rw [Nat.sub_mul, Nat.one_mul]
      have hLe : n / 2 ^ w ≤ 2 ^ w * (n / 2 ^ w) := Nat.le_mul_of_pos_left _ hPos
      omega
    conv_rhs => rw [hSplit]
    exact (Nat.add_mul_mod_self_left _ _ _).symm
  zero := by
    have hDiv := Nat.mod_add_div n (2 ^ w)
    constructor
    · intro hNone
      obtain ⟨hMod, hQuot⟩ := Nat.add_eq_zero_iff.mp hNone
      rw [hMod, hQuot] at hDiv
      exact hDiv.symm
    · rintro rfl
      rw [Nat.zero_mod, Nat.zero_div]

end Same

section Words

variable {w : Nat}

def endAround (x y : BitVec w) : BitVec w :=
  if 2 ^ w ≤ x.toNat + y.toNat then x + y + 1 else x + y

theorem endAround_same (hw : 0 < w) (x y : BitVec w) :
    Same (2 ^ w - 1) (endAround x y).toNat (x.toNat + y.toNat) := by
  have hx := x.isLt
  have hy := y.isLt
  have hTwo : 2 ≤ 2 ^ w := Nat.le_self_pow (Nat.pos_iff_ne_zero.mp hw) 2
  have hFold := same_fold w (x.toNat + y.toNat)
  unfold endAround
  split
  · next hCarry =>
    have hMod : (x.toNat + y.toNat) % 2 ^ w = x.toNat + y.toNat - 2 ^ w := by
      rw [Nat.mod_eq_sub_mod hCarry, Nat.mod_eq_of_lt (by omega)]
    have hDiv : (x.toNat + y.toNat) / 2 ^ w = 1 := by
      rw [Nat.div_eq_sub_div (Nat.two_pow_pos w) hCarry, Nat.div_eq_of_lt (by omega)]
    have hValue : (x + y + 1).toNat = (x.toNat + y.toNat) % 2 ^ w + (x.toNat + y.toNat) / 2 ^ w := by
      have hOne : (1 : BitVec w).toNat = 1 := Nat.mod_eq_of_lt hTwo
      rw [BitVec.toNat_add, BitVec.toNat_add, hOne, hMod, hDiv]
      exact Nat.mod_eq_of_lt (by omega)
    rw [hValue]
    exact hFold
  · next hNone =>
    rw [BitVec.toNat_add, Nat.mod_eq_of_lt (Nat.not_le.mp hNone)]
    exact Same.refl _

def onesSum (xs : List (BitVec w)) : BitVec w := xs.foldl endAround 0

theorem onesSum_same (hw : 0 < w) (xs : List (BitVec w)) :
    Same (2 ^ w - 1) (onesSum xs).toNat (xs.map BitVec.toNat).sum := by
  have hFrom : ∀ x : BitVec w, Same (2 ^ w - 1) (xs.foldl endAround x).toNat
      (x.toNat + (xs.map BitVec.toNat).sum) := by
    induction xs with
    | nil => exact fun x => Same.refl _
    | cons y xs ih =>
      intro x
      have hStep := (endAround_same hw x y).add (Same.refl (xs.map BitVec.toNat).sum)
      rw [Nat.add_assoc] at hStep
      exact (ih _).trans hStep
  have hZero := hFrom 0#w
  rw [BitVec.toNat_zero, Nat.zero_add] at hZero
  exact hZero

/-- A word is the sum if it stands for the total. -/
theorem eq_onesSum (hw : 0 < w) {x : BitVec w} {xs : List (BitVec w)}
    (h : Same (2 ^ w - 1) x.toNat (xs.map BitVec.toNat).sum) : x = onesSum xs := by
  apply BitVec.eq_of_toNat_eq
  exact (h.trans (onesSum_same hw xs).symm).eq (Nat.le_sub_one_of_lt x.isLt)
    (Nat.le_sub_one_of_lt (onesSum xs).isLt)

end Words

section Accumulators

variable {w : Nat} {xs : List (BitVec w)}

/-- The words are added up one by one, with no carry out of the accumulator. -/
structure Accumulates (x : BitVec w) (xs : List (BitVec w)) : Prop where
  sum : x = xs.sum
  noOverflow : ∀ k, ((xs.take k).map BitVec.toNat).sum < 2 ^ w

theorem sum_toNat_le {bound : Nat} (hEach : ∀ x ∈ xs, x.toNat ≤ bound) :
    (xs.map BitVec.toNat).sum ≤ xs.length * bound := by
  induction xs with
  | nil => exact Nat.zero_le _
  | cons x xs ih =>
    have hFirst := hEach x List.mem_cons_self
    have hRest := ih fun y hMem => hEach y (List.mem_cons_of_mem x hMem)
    rw [List.map_cons, List.sum_cons, List.length_cons, Nat.succ_mul]
    omega

theorem accumulates_of_le {bound : Nat} (hEach : ∀ x ∈ xs, x.toNat ≤ bound)
    (hTotal : xs.length * bound < 2 ^ w) : Accumulates xs.sum xs where
  sum := rfl
  noOverflow := by
    intro k
    have hSum : ((xs.take k).map BitVec.toNat).sum ≤ (xs.take k).length * bound :=
      sum_toNat_le fun x hMem => hEach x (List.mem_of_mem_take hMem)
    have hLen : (xs.take k).length * bound ≤ xs.length * bound :=
      Nat.mul_le_mul_right bound (List.length_take_le' k xs)
    omega

theorem Accumulates.toNat {x : BitVec w} (h : Accumulates x xs) :
    x.toNat = (xs.map BitVec.toNat).sum := by
  have hMod : ∀ ys : List (BitVec w), ys.sum.toNat = (ys.map BitVec.toNat).sum % 2 ^ w := by
    intro ys
    induction ys with
    | nil => rfl
    | cons y ys ih =>
      rw [List.sum_cons, BitVec.toNat_add, ih, List.map_cons, List.sum_cons, Nat.add_mod_mod]
  have hAll := h.noOverflow xs.length
  rw [List.take_length] at hAll
  rw [h.sum, hMod, Nat.mod_eq_of_lt hAll]

end Accumulators

section Bytes

/-- The 16-bit words of a string of bytes; a single last byte is the high one of its word. -/
def words : List (BitVec 8) → List (BitVec 16)
  | [] => []
  | [a] => [a ++ (0 : BitVec 8)]
  | a :: b :: bytes => (a ++ b) :: words bytes

/-- What bytes count for, from an even or an odd place on. -/
def weight : Bool → List (BitVec 8) → Nat
  | _, [] => 0
  | odd, b :: bytes => (if odd then b.toNat else 256 * b.toNat) + weight (!odd) bytes

variable (odd : Bool) (as bs : List (BitVec 8))

theorem toNat_pair (a b : BitVec 8) : (a ++ b).toNat = 256 * a.toNat + b.toNat := by
  have hb := b.isLt
  rw [BitVec.toNat_append, ← Nat.shiftLeft_add_eq_or_of_lt hb, Nat.shiftLeft_eq]
  omega

theorem sum_words : ((words as).map BitVec.toNat).sum = weight false as := by
  induction as using words.induct with
  | case1 => rfl
  | case2 a =>
    rw [words, List.map_singleton, List.sum_singleton, toNat_pair]
    simp [weight]
  | case3 a b bytes ih =>
    rw [words, List.map_cons, List.sum_cons, ih, toNat_pair, weight, weight, Nat.add_assoc]
    rfl

theorem length_words : (words as).length = (as.length + 1) / 2 := by
  induction as using words.induct with
  | case1 => rfl
  | case2 a => simp [words]
  | case3 a b bytes ih =>
    rw [words, List.length_cons, ih, List.length_cons, List.length_cons]
    omega

theorem weight_append :
    weight odd (as ++ bs) = weight odd as + weight (odd ^^ decide (as.length % 2 = 1)) bs := by
  induction as generalizing odd with
  | nil => simp [weight]
  | cons a as ih =>
    have hOdd : (!odd ^^ decide (as.length % 2 = 1)) =
        (odd ^^ decide ((a :: as).length % 2 = 1)) := by
      rw [List.length_cons]
      rcases Nat.mod_two_eq_zero_or_one as.length with hEven | hOne
      · rw [hEven, show (as.length + 1) % 2 = 1 by omega]
        cases odd <;> rfl
      · rw [hOne, show (as.length + 1) % 2 = 0 by omega]
        cases odd <;> rfl
    rw [List.cons_append, weight, weight, ih, hOdd, Nat.add_assoc]

/-- One place further on, bytes count by a factor of 256. -/
theorem weight_swap : Same (2 ^ 16 - 1) (256 * weight odd bs) (weight (!odd) bs) := by
  induction bs generalizing odd with
  | nil => exact Same.refl 0
  | cons b bs ih =>
    rw [weight, weight, Nat.mul_add]
    apply Same.add _ (ih _)
    cases odd with
    | true => exact Same.refl _
    | false =>
      constructor
      · have hSplit : 256 * (256 * b.toNat) = b.toNat + (2 ^ 16 - 1) * b.toNat := by omega
        simp only [Bool.false_eq_true, if_false, Bool.not_false, if_true]
        rw [hSplit]
        exact Nat.add_mul_mod_self_left _ _ _
      · simp

theorem weight_cons_cons (a b : BitVec 8) (hEven : as.length % 2 = 0) :
    weight false (as ++ a :: b :: bs) = weight false as + weight false bs + (a ++ b).toNat := by
  have hOdd : ¬ as.length % 2 = 1 := by omega
  rw [weight_append, decide_eq_false hOdd, weight, weight, toNat_pair]
  simp only [Bool.bne_false, Bool.false_eq_true, if_false, Bool.not_false, if_true, Bool.not_true]
  omega

variable {as bs}

/-- The complement of a sum in the place of one of its words: with that word, all words then add
up to ones. -/
theorem onesSum_complement {a b p q : BitVec 8} (hEven : as.length % 2 = 0)
    (hStored : p ++ q = ~~~onesSum (words (as ++ a :: b :: bs))) :
    endAround (onesSum (words (as ++ p :: q :: bs))) (a ++ b) = BitVec.allOnes 16 := by
  have hOld := onesSum_same (by decide : 0 < 16) (words (as ++ a :: b :: bs))
  have hNew := onesSum_same (by decide : 0 < 16) (words (as ++ p :: q :: bs))
  have hAll := endAround_same (by decide : 0 < 16) (onesSum (words (as ++ p :: q :: bs))) (a ++ b)
  have hComplement : (p ++ q).toNat =
      2 ^ 16 - 1 - (onesSum (words (as ++ a :: b :: bs))).toNat := by
    rw [hStored, BitVec.toNat_not]
  have hLt := (onesSum (words (as ++ a :: b :: bs))).isLt
  rw [sum_words, weight_cons_cons _ _ _ _ hEven] at hOld hNew
  have hSame := hAll.trans (hNew.add (Same.refl (a ++ b).toNat))
  have hSwap : weight false as + weight false bs + (p ++ q).toNat + (a ++ b).toNat =
      weight false as + weight false bs + (a ++ b).toNat + (p ++ q).toNat := by omega
  rw [hSwap] at hSame
  have hOnes := hSame.trans (hOld.symm.add (Same.refl (p ++ q).toNat))
  rw [hComplement, Nat.add_sub_cancel' (Nat.le_sub_one_of_lt hLt)] at hOnes
  apply BitVec.eq_of_toNat_eq
  rw [BitVec.toNat_allOnes]
  exact hOnes.eq (Nat.le_sub_one_of_lt (BitVec.isLt _)) (Nat.le_refl _)

end Bytes

end DeviceModel.OnesComplement

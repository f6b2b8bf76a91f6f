import DeviceModel.E82545Transmit
import DeviceModel.Lib.OnesComplement

/-!
# The e1000 network device: the Internet checksum of vectors

`e82545_iov_checksum` sums vector by vector. How the bytes are split into vectors makes
no difference.
-/

set_option autoImplicit false

namespace DeviceModel.E82545

open OnesComplement

section Buffer

variable {buf : List (BitVec 8)}

/-- One fold is enough for 32 bits. -/
theorem e82545Carry_same (sum : BitVec 32) :
    Same (2 ^ 16 - 1) (e82545Carry sum).toNat sum.toNat := by
  have hLt := sum.isLt
  have hLow : (sum &&& 0xFFFF#32).toNat = sum.toNat % 2 ^ 16 := by
    rw [BitVec.toNat_and]
    exact Nat.and_two_pow_sub_one_eq_mod sum.toNat 16
  have hHigh : (sum >>> 16).toNat = sum.toNat / 2 ^ 16 := by
    rw [BitVec.toNat_ushiftRight, Nat.shiftRight_eq_div_pow]
  obtain ⟨y, hy⟩ : ∃ y, y = (sum &&& 0xFFFF#32) + (sum >>> 16) := ⟨_, rfl⟩
  have hFold : y.toNat = sum.toNat % 2 ^ 16 + sum.toNat / 2 ^ 16 := by
    rw [hy, BitVec.toNat_add, hLow, hHigh]
    omega
  have hCarry : e82545Carry sum = (if 0xFFFF#32 < y then y - 0xFFFF#32 else y).setWidth 16 := by
    rw [hy]
    rfl
  have hSame := same_fold 16 sum.toNat
  rw [← hFold] at hSame
  apply Same.trans _ hSame
  rw [hCarry, BitVec.toNat_setWidth]
  split
  · next hAbove =>
    have hMore : 65535 < y.toNat := hAbove
    have hLess : (y - 0xFFFF#32).toNat = y.toNat - 65535 := by bv_omega
    rw [hLess, Nat.mod_eq_of_lt (by omega)]
    constructor
    · have hSplit : y.toNat = y.toNat - 65535 + (2 ^ 16 - 1) := by omega
      conv_rhs => rw [hSplit]
      exact (Nat.add_mod_right _ _).symm
    · omega
  · next hBelow =>
    have hFew : ¬ 65535 < y.toNat := hBelow
    rw [Nat.mod_eq_of_lt (by omega)]
    exact Same.refl _

theorem bufSum_eq (buf : List (BitVec 8)) : bufSum buf = ((words buf).map (·.setWidth 32)).sum := by
  induction buf using words.induct with
  | case1 => rfl
  | case2 a =>
    rw [bufSum, words, List.map_singleton, List.sum_singleton]
  | case3 a b buf ih => rw [bufSum, words, List.map_cons, List.sum_cons, ih]

/-- Up to 128 KiB the words of a buffer fit the accumulator. -/
theorem bufSum_accumulates (hLen : buf.length ≤ 131072) :
    Accumulates (bufSum buf) ((words buf).map (·.setWidth 32)) := by
  rw [bufSum_eq]
  have hEach : ∀ x ∈ (words buf).map (·.setWidth 32), x.toNat ≤ 65535 := by
    intro x hMem
    obtain ⟨y, -, rfl⟩ := List.mem_map.mp hMem
    have hLt := y.isLt
    rw [BitVec.toNat_setWidth]
    omega
  apply accumulates_of_le hEach
  rw [List.length_map, length_words]
  omega

theorem e82545BufChecksum_same (hLen : buf.length ≤ 131072) :
    Same (2 ^ 16 - 1) (e82545BufChecksum buf).toNat (weight false buf) := by
  have hTotal : (bufSum buf).toNat = weight false buf := by
    have hWide : ∀ x : BitVec 16, (x.setWidth 32).toNat = x.toNat := by
      intro x
      have hLt := x.isLt
      rw [BitVec.toNat_setWidth]
      omega
    rw [(bufSum_accumulates hLen).toNat, List.map_map, ← sum_words]
    exact congrArg List.sum (List.map_congr_left fun x _ => hWide x)
  rw [← hTotal]
  exact e82545Carry_same _

end Buffer

section Vectors

/-- The parts of the vectors that are summed, from `off` in the first one on. -/
def chunks : List (List (BitVec 8)) → (off : Nat) → (len : Int) → List (List (BitVec 8))
  | [], _, _ => []
  | v :: vs, off, len =>
    if len ≤ 0 then []
    else
      let now := min len.toNat (v.length - off)
      (v.drop off).take now :: chunks vs 0 (len - now)

/-- What each part adds to the accumulator. -/
def addends : Bool → List (List (BitVec 8)) → List (BitVec 32)
  | _, [] => []
  | odd, c :: cs =>
    let s := (e82545BufChecksum c).setWidth 32
    (if odd then s <<< 8 else s) :: addends (odd ^^ decide (c.length % 2 = 1)) cs

variable {iov cs : List (List (BitVec 8))} {off : Nat} {len : Int} {odd : Bool}

theorem sumVecs_eq (iov : List (List (BitVec 8))) (off : Nat) (len : Int) (odd : Bool)
    (sum : BitVec 32) :
    sumVecs iov off len odd sum = sum + (addends odd (chunks iov off len)).sum := by
  induction iov generalizing off len odd sum with
  | nil => simp [sumVecs, chunks, addends]
  | cons v vs ih =>
    rw [sumVecs, chunks]
    split
    · simp [addends]
    · have hNow : ((v.drop off).take (min len.toNat (v.length - off))).length =
          min len.toNat (v.length - off) := by
        rw [List.length_take, List.length_drop]
        omega
      dsimp only
      rw [ih, addends, hNow, List.sum_cons, BitVec.add_assoc]

theorem chunks_length (iov : List (List (BitVec 8))) (off : Nat) (len : Int) :
    (chunks iov off len).length ≤ iov.length := by
  induction iov generalizing off len with
  | nil => exact Nat.le_refl _
  | cons v vs ih =>
    rw [chunks]
    split
    · exact Nat.zero_le _
    · exact Nat.succ_le_succ (ih _ _)

theorem chunks_short {bound : Nat} (hShort : ∀ v ∈ iov, v.length ≤ bound) (off : Nat) (len : Int) :
    ∀ c ∈ chunks iov off len, c.length ≤ bound := by
  induction iov generalizing off len with
  | nil => simp [chunks]
  | cons v vs ih =>
    rw [chunks]
    split
    · simp
    · intro c hMem
      rcases List.mem_cons.mp hMem with rfl | hRest
      · have hFirst := hShort v List.mem_cons_self
        rw [List.length_take, List.length_drop]
        omega
      · exact ih (fun v' hIn => hShort v' (List.mem_cons_of_mem v hIn)) _ _ c hRest

theorem chunks_flatten (hOff : ∀ v ∈ iov.head?, off ≤ v.length) (len : Int) :
    (chunks iov off len).flatten = (iov.flatten.drop off).take len.toNat := by
  induction iov generalizing off len with
  | nil => simp [chunks]
  | cons v vs ih =>
    have hHead : off ≤ v.length := hOff v rfl
    rw [chunks, List.flatten_cons, List.drop_append_of_le_length hHead, List.take_append,
      List.length_drop]
    split
    · next hDone => simp [Int.toNat_of_nonpos hDone]
    · next hMore =>
      have hLeft : (len - (min len.toNat (v.length - off) : Nat)).toNat =
          len.toNat - (v.length - off) := by omega
      have hFirst : (v.drop off).take (min len.toNat (v.length - off)) =
          (v.drop off).take len.toNat := by
        rw [← List.length_drop, ← List.take_eq_take_min]
      dsimp only
      rw [List.flatten_cons, ih (fun _ _ => Nat.zero_le _), List.drop_zero, hLeft, hFirst]

theorem skipVecs_spec (iov : List (List (BitVec 8))) (off : Nat) :
    (skipVecs iov off).1.flatten.drop (skipVecs iov off).2 = iov.flatten.drop off ∧
      (∀ v ∈ (skipVecs iov off).1.head?, (skipVecs iov off).2 ≤ v.length) ∧
      (skipVecs iov off).1 <:+ iov := by
  induction iov generalizing off with
  | nil => simp [skipVecs]
  | cons v vs ih =>
    rw [skipVecs]
    split
    · next hSkip =>
      obtain ⟨hBytes, hHead, hSuffix⟩ := ih (off - v.length)
      refine ⟨?_, hHead, hSuffix.trans (List.suffix_cons v vs)⟩
      rw [hBytes, List.flatten_cons, List.drop_append, List.drop_eq_nil_of_le hSkip.1,
        List.nil_append]
    · next hKeep =>
      refine ⟨rfl, ?_, List.suffix_refl _⟩
      intro v' hHead
      obtain rfl : v = v' := Option.some.inj hHead
      dsimp only
      omega

theorem shifted_toNat (odd : Bool) (x : BitVec 16) :
    (if odd then x.setWidth 32 <<< 8 else x.setWidth 32).toNat =
      if odd then 256 * x.toNat else x.toNat := by
  have hLt := x.isLt
  cases odd with
  | true =>
    simp only [if_true]
    rw [BitVec.toNat_shiftLeft, BitVec.toNat_setWidth, Nat.shiftLeft_eq]
    omega
  | false =>
    simp only [Bool.false_eq_true, if_false]
    rw [BitVec.toNat_setWidth]
    omega

/-- The parts add up to the bytes of all of them, each from the place on where it stands. -/
theorem addends_same (hShort : ∀ c ∈ cs, c.length ≤ 131072) (odd : Bool) :
    Same (2 ^ 16 - 1) ((addends odd cs).map BitVec.toNat).sum (weight odd cs.flatten) := by
  induction cs generalizing odd with
  | nil => exact Same.refl 0
  | cons c cs ih =>
    have hBuf := e82545BufChecksum_same (hShort c List.mem_cons_self)
    have hRest := ih (fun c' hMem => hShort c' (List.mem_cons_of_mem c hMem))
      (odd ^^ decide (c.length % 2 = 1))
    rw [addends, List.map_cons, List.sum_cons, shifted_toNat, List.flatten_cons, weight_append]
    refine Same.add ?_ hRest
    cases odd with
    | true => exact (hBuf.mul_left 256).trans (weight_swap false c)
    | false => exact hBuf

theorem addends_length (odd : Bool) (cs : List (List (BitVec 8))) :
    (addends odd cs).length = cs.length := by
  induction cs generalizing odd with
  | nil => rfl
  | cons c cs ih => rw [addends, List.length_cons, List.length_cons, ih]

theorem addends_le (odd : Bool) (cs : List (List (BitVec 8))) :
    ∀ x ∈ addends odd cs, x.toNat ≤ 0xFFFF00 := by
  induction cs generalizing odd with
  | nil => simp [addends]
  | cons c cs ih =>
    intro x hMem
    rw [addends] at hMem
    rcases List.mem_cons.mp hMem with rfl | hRest
    · have hLt := (e82545BufChecksum c).isLt
      rw [shifted_toNat]
      split <;> omega
    · exact ih _ x hRest

def summedChunks (iov : List (List (BitVec 8))) (off : Nat) (len : Int) : List (List (BitVec 8)) :=
  chunks (skipVecs iov off).1 (skipVecs iov off).2 len

/-- What `e82545_iov_checksum` should do: the sum of the bytes, and accumulators that are wide
enough. -/
structure IovSummed (iov : List (List (BitVec 8))) (off : Nat) (len : Int) : Prop where
  value : e82545IovChecksum iov off len =
    onesSum (words ((iov.flatten.drop off).take len.toNat))
  buffers : ∀ c ∈ summedChunks iov off len,
    Accumulates (bufSum c) ((words c).map (·.setWidth 32))
  vectors : Accumulates (sumVecs (skipVecs iov off).1 (skipVecs iov off).2 len false 0)
    (addends false (summedChunks iov off len))

/-- The sum does not depend on the split. -/
theorem e82545IovChecksum_eq (hCount : iov.length ≤ 66) (hShort : ∀ v ∈ iov, v.length ≤ 131072)
    (off : Nat) (len : Int) : IovSummed iov off len := by
  obtain ⟨hBytes, hHead, hSuffix⟩ := skipVecs_spec iov off
  have hParts : ∀ c ∈ summedChunks iov off len, c.length ≤ 131072 :=
    chunks_short (fun v hMem => hShort v (hSuffix.subset hMem)) _ len
  have hVectors : Accumulates (sumVecs (skipVecs iov off).1 (skipVecs iov off).2 len false 0)
      (addends false (summedChunks iov off len)) := by
    have hLen := chunks_length (skipVecs iov off).1 (skipVecs iov off).2 len
    have hFew := hSuffix.length_le
    have hStart : ∀ x : BitVec 32, 0 + x = x := BitVec.zero_add
    rw [sumVecs_eq, hStart]
    apply accumulates_of_le (addends_le _ _)
    rw [addends_length]
    omega
  refine ⟨?_, fun c hMem => bufSum_accumulates (hParts c hMem), hVectors⟩
  apply eq_onesSum (by decide)
  have hFold := e82545Carry_same (sumVecs (skipVecs iov off).1 (skipVecs iov off).2 len false 0)
  have hTotal := addends_same hParts false
  rw [hVectors.toNat] at hFold
  rw [summedChunks, chunks_flatten hHead, hBytes] at hTotal
  rw [sum_words]
  exact hFold.trans hTotal

theorem e82545IovChecksum_eq_split : IovSummed [[1], [], [2, 3], [4]] 1 3 :=
  e82545IovChecksum_eq (by decide) (by decide) 1 3

end Vectors

end DeviceModel.E82545

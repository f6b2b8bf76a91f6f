import DeviceModel.Lib.Fallible
import Mathlib.Logic.Function.Basic

/-!
# Byte buffers with checked indices, and byte order

A loop over a C array computes its indices with arithmetic of its own; here an
index is an integer that is looked up in a buffer of fixed length or is a fault.
-/

set_option autoImplicit false

namespace DeviceModel.Bytes

open Fallible

variable {ε α : Type} {n m : Nat}

def InBounds (n : Nat) (i : Int) : Prop := 0 ≤ i ∧ i < n

instance (n : Nat) (i : Int) : Decidable (InBounds n i) := inferInstanceAs (Decidable (_ ∧ _))

def index (e : ε) (n : Nat) (i : Int) : Except ε (Fin n) :=
  if h : InBounds n i then .ok ⟨i.toNat, (Int.toNat_lt h.1).mpr h.2⟩ else .error e

theorem index_ok_iff {e : ε} {i : Int} : (∃ k, index e n i = .ok k) ↔ InBounds n i := by
  unfold index
  split
  · next h => exact ⟨fun _ => h, fun _ => ⟨_, rfl⟩⟩
  · next h =>
    refine ⟨?_, fun h' => absurd h' h⟩
    rintro ⟨k, ⟨⟩⟩

/-- `for (k = 0; k < len; k++) dst[dstIdx k] = src[srcIdx k];` -/
def copyLoop (e : ε) (src : Fin n → α) (srcIdx dstIdx : Nat → Int) :
    Nat → (Fin m → α) → Except ε (Fin m → α)
  | 0, dst => .ok dst
  | len + 1, dst => do
    let dst ← copyLoop e src srcIdx dstIdx len dst
    let i ← index e n (srcIdx len)
    let j ← index e m (dstIdx len)
    pure (Function.update dst j (src i))

/-- The loop comes to its end exactly if all its indices are in bounds. -/
theorem copyLoop_ok_iff {e : ε} {src : Fin n → α} {srcIdx dstIdx : Nat → Int} {len : Nat}
    {dst : Fin m → α} : (∃ dst', copyLoop e src srcIdx dstIdx len dst = .ok dst') ↔
      ∀ k < len, InBounds n (srcIdx k) ∧ InBounds m (dstIdx k) := by
  induction len with
  | zero => simp [copyLoop]
  | succ len ih =>
    rw [Nat.forall_lt_succ_right, ← ih, ← index_ok_iff (e := e), ← index_ok_iff (e := e)]
    simp only [copyLoop, bind_eq_ok_iff, pure_eq_ok]
    constructor
    · rintro ⟨_, dst', hLoop, i, hi, j, hj, -⟩
      exact ⟨⟨dst', hLoop⟩, ⟨i, hi⟩, ⟨j, hj⟩⟩
    · rintro ⟨⟨dst', hLoop⟩, ⟨i, hi⟩, ⟨j, hj⟩⟩
      exact ⟨_, dst', hLoop, i, hi, j, hj, rfl⟩

theorem index_eq_ok_iff {e : ε} {i : Int} {k : Fin n} : index e n i = .ok k ↔ i = (k : Nat) := by
  unfold index
  split
  · next h =>
    rw [Except.ok.injEq, Fin.ext_iff, ← Int.ofNat_inj, Int.toNat_of_nonneg h.1]
  · next h =>
    have hLess := k.isLt
    refine iff_of_false (fun hOk => by cases hOk) fun hEq => h ⟨?_, ?_⟩ <;> omega

theorem copyLoop_placed {e : ε} {src : Fin n → α} {srcIdx dstIdx : Nat → Int} {len : Nat}
    {dst dst' : Fin m → α} (hInj : ∀ j < len, ∀ k < len, dstIdx j = dstIdx k → j = k)
    (hLoop : copyLoop e src srcIdx dstIdx len dst = .ok dst') {k : Nat} (hk : k < len) {i : Fin n}
    {j : Fin m} (hSrc : srcIdx k = (i : Nat)) (hDst : dstIdx k = (j : Nat)) : dst' j = src i := by
  induction len generalizing dst' with
  | zero => exact absurd hk (Nat.not_lt_zero k)
  | succ len ih =>
    obtain ⟨dst₁, hRest, hLoop⟩ := bind_eq_ok_iff.mp hLoop
    obtain ⟨i₀, hi₀, hLoop⟩ := bind_eq_ok_iff.mp hLoop
    obtain ⟨j₀, hj₀, ⟨⟩⟩ := bind_eq_ok_iff.mp hLoop
    have hi₀ := index_eq_ok_iff.mp hi₀
    have hj₀ := index_eq_ok_iff.mp hj₀
    rcases Nat.lt_or_eq_of_le (Nat.le_of_lt_succ hk) with hLess | rfl
    · have hNe : j ≠ j₀ := by
        rintro rfl
        exact Nat.ne_of_lt hLess (hInj k hk len (Nat.lt_succ_self len) (hDst.trans hj₀.symm))
      rw [Function.update_of_ne hNe]
      exact ih (fun a ha b hb => hInj a (Nat.lt_succ_of_lt ha) b (Nat.lt_succ_of_lt hb)) hRest hLess
    · obtain rfl : i = i₀ := Fin.ext (Int.ofNat_inj.mp (hSrc.symm.trans hi₀))
      obtain rfl : j = j₀ := Fin.ext (Int.ofNat_inj.mp (hDst.symm.trans hj₀))
      exact Function.update_self j (src i) dst₁

theorem index_stopsOnly (e : ε) (n : Nat) (i : Int) : StopsOnly (· = e) (index e n i) := by
  unfold index
  split
  · exact stopsOnly_ok _
  · exact stopsOnly_error rfl

theorem copyLoop_stopsOnly (e : ε) (src : Fin n → α) (srcIdx dstIdx : Nat → Int) (len : Nat)
    (dst : Fin m → α) : StopsOnly (· = e) (copyLoop e src srcIdx dstIdx len dst) := by
  induction len with
  | zero => exact stopsOnly_ok dst
  | succ len ih =>
    apply ih.bind
    intro dst
    apply (index_stopsOnly e n (srcIdx len)).bind
    intro i
    exact (index_stopsOnly e m (dstIdx len)).bind fun j => stopsOnly_ok _

/-- `bcopy(&src[i], &dst[j], len)` -/
def bcopy (e : ε) (src : Fin n → α) (i : Int) (dst : Fin m → α) (j : Int) (len : Nat) :
    Except ε (Fin m → α) :=
  copyLoop e src (fun k => i + k) (fun k => j + k) len dst

theorem bcopy_ok_iff {e : ε} {src : Fin n → α} {i : Int} {dst : Fin m → α} {j : Int} {len : Nat}
    (hLen : 0 < len) : (∃ dst', bcopy e src i dst j len = .ok dst') ↔
      (0 ≤ i ∧ i + len ≤ n) ∧ 0 ≤ j ∧ j + len ≤ m := by
  simp only [bcopy, copyLoop_ok_iff, InBounds]
  constructor
  · intro h
    have hFirst := h 0 hLen
    have hLast := h (len - 1) (by omega)
    omega
  · intro h k hk
    omega

-- Literals in `Fin 8` and `Fin 32` and searches of byte lists take these instances in every module.
instance neZeroEight : NeZero 8 := ⟨by decide⟩

instance neZeroThirtyTwo : NeZero 32 := ⟨by decide⟩

instance lawfulBEqByte : LawfulBEq (BitVec 8) := inferInstance

abbrev Word8 := Fin 8 → BitVec 8

def bytesOf (x : BitVec 64) : Word8 := fun i => x.extractLsb' (8 * (7 - i)) 8

def wordAt (b : Word8) : BitVec 64 := b 0 ++ b 1 ++ b 2 ++ b 3 ++ b 4 ++ b 5 ++ b 6 ++ b 7

def bswap16 (x : BitVec 16) : BitVec 16 := x.extractLsb' 0 8 ++ x.extractLsb' 8 8

def bswap32 (x : BitVec 32) : BitVec 32 :=
  x.extractLsb' 0 8 ++ x.extractLsb' 8 8 ++ x.extractLsb' 16 8 ++ x.extractLsb' 24 8

def bswap64 (x : BitVec 64) : BitVec 64 :=
  bswap32 (x.extractLsb' 0 32) ++ bswap32 (x.extractLsb' 32 32)

theorem getLsbD_bswap32 (x : BitVec 32) {i : Nat} (hi : i < 32) :
    (bswap32 x).getLsbD i = x.getLsbD (24 - 8 * (i / 8) + i % 8) := by
  simp only [bswap32, BitVec.getLsbD_append, BitVec.getLsbD_extractLsb']
  by_cases h8 : i < 8
  · rw [if_pos h8, show 24 - 8 * (i / 8) + i % 8 = 24 + i by omega]
    simp [h8]
  by_cases h16 : i < 16
  · rw [if_neg h8, if_pos (by omega), show 24 - 8 * (i / 8) + i % 8 = 16 + (i - 8) by omega]
    simp [show i - 8 < 8 by omega]
  by_cases h24 : i < 24
  · rw [if_neg h8, if_neg (by omega), if_pos (by omega),
      show 24 - 8 * (i / 8) + i % 8 = 8 + (i - 8 - 8) by omega]
    simp [show i - 8 - 8 < 8 by omega]
  · rw [if_neg h8, if_neg (by omega), if_neg (by omega),
      show 24 - 8 * (i / 8) + i % 8 = 0 + (i - 8 - 8 - 8) by omega]
    simp [show i - 8 - 8 - 8 < 8 by omega]

@[simp] theorem bswap32_bswap32 (x : BitVec 32) : bswap32 (bswap32 x) = x := by
  refine BitVec.eq_of_getLsbD_eq fun i hi => ?_
  rw [getLsbD_bswap32 _ hi, getLsbD_bswap32 _ (by omega)]
  congr 1
  omega

/-- The bytes of a word read the same in either order. -/
def Palindromic (x : BitVec 32) : Prop :=
  x.extractLsb' 0 8 = x.extractLsb' 24 8 ∧ x.extractLsb' 8 8 = x.extractLsb' 16 8

instance : DecidablePred Palindromic := fun _ => inferInstanceAs (Decidable (_ ∧ _))

theorem extract_bytes (x : BitVec 32) :
    x.extractLsb' 24 8 ++ x.extractLsb' 16 8 ++ x.extractLsb' 8 8 ++ x.extractLsb' 0 8 = x := by
  refine BitVec.eq_of_getLsbD_eq fun i hi => ?_
  simp only [BitVec.getLsbD_append, BitVec.getLsbD_extractLsb']
  grind

theorem extract_halves (x : BitVec 32) :
    (x.extractLsb' 24 8 ++ x.extractLsb' 16 8) ++ (x.extractLsb' 8 8 ++ x.extractLsb' 0 8) = x := by
  refine BitVec.eq_of_getLsbD_eq fun i hi => ?_
  simp only [BitVec.getLsbD_append, BitVec.getLsbD_extractLsb']
  grind

theorem bswap32_eq_self_iff {x : BitVec 32} : bswap32 x = x ↔ Palindromic x := by
  constructor
  · intro hSame
    have hByte : ∀ k < 4, x.extractLsb' (8 * k) 8 = x.extractLsb' (24 - 8 * k) 8 := by
      intro k hk
      refine BitVec.eq_of_getLsbD_eq fun i hi => ?_
      have hBit := getLsbD_bswap32 x (i := 8 * k + i) (by omega)
      rw [hSame, show 24 - 8 * ((8 * k + i) / 8) + (8 * k + i) % 8 = 24 - 8 * k + i by omega] at hBit
      rw [BitVec.getLsbD_extractLsb', BitVec.getLsbD_extractLsb', hBit]
    exact ⟨hByte 0 (by decide), hByte 1 (by decide)⟩
  · rintro ⟨hOuter, hInner⟩
    calc bswap32 x
        = x.extractLsb' 24 8 ++ x.extractLsb' 16 8 ++ x.extractLsb' 8 8 ++ x.extractLsb' 0 8 := by
          rw [bswap32, hOuter, hInner]
      _ = x := extract_bytes x

end DeviceModel.Bytes

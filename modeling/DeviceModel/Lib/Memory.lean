import Mathlib.Data.BitVec
import Mathlib.Logic.Function.Basic

/-!
# Byte-addressed memory of a big-endian machine

A word at an address has its most significant byte there.
-/

set_option autoImplicit false

namespace DeviceModel

abbrev Memory := BitVec 64 → BitVec 8

namespace Memory

variable (m : Memory)

def load16 (a : BitVec 64) : BitVec 16 := m a ++ m (a + 1)

def load32 (a : BitVec 64) : BitVec 32 := m.load16 a ++ m.load16 (a + 2)

def load64 (a : BitVec 64) : BitVec 64 := m.load32 a ++ m.load32 (a + 4)

def store8 (a : BitVec 64) (x : BitVec 8) : Memory := Function.update m a x

def store16 (a : BitVec 64) (x : BitVec 16) : Memory :=
  (m.store8 a (x.extractLsb' 8 8)).store8 (a + 1) (x.extractLsb' 0 8)

def store32 (a : BitVec 64) (x : BitVec 32) : Memory :=
  (m.store16 a (x.extractLsb' 16 16)).store16 (a + 2) (x.extractLsb' 0 16)

def bytes (a : BitVec 64) (n : Nat) : List (BitVec 8) :=
  (List.range n).map fun i => m (a + BitVec.ofNat 64 i)

theorem load32_congr {m m' : Memory} {a : BitVec 64}
    (h : ∀ i < 4, m' (a + BitVec.ofNat 64 i) = m (a + BitVec.ofNat 64 i)) :
    m'.load32 a = m.load32 a := by
  have h0 := h 0 (by decide)
  have h1 := h 1 (by decide)
  have h2 := h 2 (by decide)
  have h3 := h 3 (by decide)
  have hThird : a + 2 + 1 = a + BitVec.ofNat 64 3 := by bv_omega
  rw [BitVec.add_zero] at h0
  rw [load32, load32, load16, load16, load16, load16, hThird, h0, h3]
  exact congrArg₂ _ (congrArg₂ _ rfl h1) (congrArg₂ _ h2 rfl)

theorem load64_congr {m m' : Memory} {a : BitVec 64}
    (h : ∀ i < 8, m' (a + BitVec.ofNat 64 i) = m (a + BitVec.ofNat 64 i)) : m'.load64 a = m.load64 a := by
  have hFirst : m'.load32 a = m.load32 a := load32_congr fun i hi => h i (by omega)
  have hSecond : m'.load32 (a + 4) = m.load32 (a + 4) := by
    apply load32_congr
    intro i hi
    have hNext : a + 4 + BitVec.ofNat 64 i = a + BitVec.ofNat 64 (4 + i) := by
      rw [BitVec.add_assoc, BitVec.ofNat_add]
      rfl
    rw [hNext]
    exact h (4 + i) (by omega)
  rw [load64, load64, hFirst, hSecond]

theorem store8_self (a : BitVec 64) (x : BitVec 8) : m.store8 a x a = x := by
  simp [store8]

theorem store8_of_ne {a b : BitVec 64} (x : BitVec 8) (hNe : b ≠ a) : m.store8 a x b = m b := by
  simp [store8, hNe]

theorem load32_store32 (a : BitVec 64) (x : BitVec 32) : (m.store32 a x).load32 a = x := by
  have h01 : a ≠ a + 1 := by bv_omega
  have h02 : a ≠ a + 2 := by bv_omega
  have h03 : a ≠ a + 2 + 1 := by bv_omega
  have h12 : a + 1 ≠ a + 2 := by bv_omega
  have h13 : a + 1 ≠ a + 2 + 1 := by bv_omega
  have h23 : a + 2 ≠ a + 2 + 1 := by bv_omega
  simp only [load32, load16, store32, store16, store8_self, store8_of_ne _ _ h01, store8_of_ne _ _ h02,
    store8_of_ne _ _ h03, store8_of_ne _ _ h12, store8_of_ne _ _ h13, store8_of_ne _ _ h23]
  refine BitVec.eq_of_getLsbD_eq fun i hi => ?_
  simp only [BitVec.getLsbD_append, BitVec.getLsbD_extractLsb']
  grind

def storeBytes : BitVec 64 → List (BitVec 8) → Memory → Memory
  | _, [], m => m
  | a, b :: bs, m => storeBytes (a + 1) bs (m.store8 a b)

theorem storeBytes_of_ne {a b : BitVec 64} {bs : List (BitVec 8)}
    (hNe : ∀ i < bs.length, b ≠ a + BitVec.ofNat 64 i) : m.storeBytes a bs b = m b := by
  induction bs generalizing a m with
  | nil => rfl
  | cons x bs ih =>
    have hHead : b ≠ a := by simpa using hNe 0 (Nat.succ_pos _)
    rw [storeBytes, ih, store8_of_ne _ _ hHead]
    intro i hi
    have hTail := hNe (i + 1) (Nat.succ_lt_succ hi)
    rwa [Nat.add_comm, BitVec.ofNat_add, ← BitVec.add_assoc] at hTail

theorem storeBytes_self {a : BitVec 64} {bs : List (BitVec 8)} (hFits : bs.length ≤ 2 ^ 64) {i : Nat}
    (hi : i < bs.length) : m.storeBytes a bs (a + BitVec.ofNat 64 i) = bs[i] := by
  induction bs generalizing a m i with
  | nil => exact absurd hi (Nat.not_lt_zero i)
  | cons x bs ih =>
    rw [List.length_cons] at hFits
    cases i with
    | zero =>
      rw [storeBytes, storeBytes_of_ne]
      · simp [store8_self]
      · intro j hj
        bv_omega
    | succ i =>
      rw [List.length_cons] at hi
      have hNext : a + BitVec.ofNat 64 (i + 1) = a + 1 + BitVec.ofNat 64 i := by bv_omega
      rw [storeBytes, hNext, List.getElem_cons_succ]
      exact ih _ (Nat.le_of_succ_le hFits) (Nat.lt_of_succ_lt_succ hi)

theorem load32_storeBytes {a : BitVec 64} {bs : List (BitVec 8)} (hFits : bs.length ≤ 2 ^ 64) {i : Nat}
    (hi : i + 3 < bs.length) : (m.storeBytes a bs).load32 (a + BitVec.ofNat 64 i) =
      (bs[i] ++ bs[i + 1]) ++ (bs[i + 2] ++ bs[i + 3]) := by
  have h1 : a + BitVec.ofNat 64 i + 1 = a + BitVec.ofNat 64 (i + 1) := by bv_omega
  have h2 : a + BitVec.ofNat 64 i + 2 = a + BitVec.ofNat 64 (i + 2) := by bv_omega
  have h3 : a + BitVec.ofNat 64 (i + 2) + 1 = a + BitVec.ofNat 64 (i + 3) := by bv_omega
  rw [load32, load16, load16, h1, h2, h3, m.storeBytes_self hFits (by omega),
    m.storeBytes_self hFits (by omega), m.storeBytes_self hFits (by omega), m.storeBytes_self hFits hi]

/-- `memcpy`; the regions do not overlap, or it behaves as `memmove`. -/
def copy (dst src : BitVec 64) (n : Nat) : Memory :=
  fun a => if (a - dst).toNat < n then m (src + (a - dst)) else m a

end Memory

end DeviceModel

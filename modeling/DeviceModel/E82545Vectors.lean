import DeviceModel.E82545Transmit

/-!
# The e1000 network device: vectors and the bytes behind them

Splitting vectors neither loses nor reorders bytes.
-/

set_option autoImplicit false

namespace DeviceModel

theorem Memory.bytes_length (m : Memory) (a : BitVec 64) (n : Nat) : (m.bytes a n).length = n := by
  simp [Memory.bytes]

theorem Memory.bytes_add (m : Memory) (a : BitVec 64) (n k : Nat) :
    m.bytes a (n + k) = m.bytes a n ++ m.bytes (a + BitVec.ofNat 64 n) k := by
  unfold Memory.bytes
  rw [List.range_add, List.map_append, List.map_map]
  congr 1
  apply List.map_congr_left
  intro i _
  rw [Function.comp_apply, BitVec.ofNat_add, BitVec.add_assoc]

namespace E82545

variable (m : Memory)

def content (iov : List Iovec) : List (BitVec 8) := iov.flatMap (·.load m)

def totalLen (iov : List Iovec) : Nat := (iov.map (·.iovLen)).sum

@[simp] theorem Iovec_load_length (v : Iovec) : (v.load m).length = v.iovLen :=
  m.bytes_length v.iovBase v.iovLen

theorem content_length (iov : List Iovec) : (content m iov).length = totalLen iov := by
  simp [content, totalLen, List.length_flatMap]

theorem content_cons (v : Iovec) (iov : List Iovec) :
    content m (v :: iov) = v.load m ++ content m iov := rfl

theorem totalLen_cons (v : Iovec) (iov : List Iovec) :
    totalLen (v :: iov) = v.iovLen + totalLen iov := rfl

theorem splitVecs_content (n : Nat) (iov : List Iovec) :
    content m (splitVecs n iov).1 ++ content m (splitVecs n iov).2 = content m iov := by
  induction iov generalizing n with
  | nil => cases n <;> rfl
  | cons v vs ih =>
    cases n with
    | zero => rfl
    | succ left =>
      unfold splitVecs
      split
      · next hPart =>
        have hLoad : v.load m = m.bytes v.iovBase (left + 1) ++
            m.bytes (v.iovBase + BitVec.ofNat 64 (left + 1)) (v.iovLen - (left + 1)) := by
          rw [← m.bytes_add, Nat.add_sub_cancel' (Nat.le_of_lt hPart)]
          rfl
        rw [content_cons, content_cons, content_cons, hLoad, ← List.append_assoc]
        simp [content, Iovec.load]
      · dsimp only
        rw [content_cons, content_cons, List.append_assoc, ih]

theorem splitVecs_totalLen {n : Nat} {iov : List Iovec} (hEnough : n ≤ totalLen iov) :
    totalLen (splitVecs n iov).1 = n := by
  induction iov generalizing n with
  | nil =>
    obtain rfl : n = 0 := Nat.le_zero.mp hEnough
    rfl
  | cons v vs ih =>
    cases n with
    | zero => rfl
    | succ left =>
      rw [totalLen_cons] at hEnough
      unfold splitVecs
      split
      · rfl
      · next hWhole =>
        dsimp only
        rw [totalLen_cons, ih (by omega)]
        omega

theorem splitVecs_take {n : Nat} {iov : List Iovec} (hEnough : n ≤ totalLen iov) :
    content m (splitVecs n iov).1 = (content m iov).take n := by
  rw [← splitVecs_content m n iov, List.take_left' ((content_length m _).trans
    (splitVecs_totalLen hEnough))]

theorem splitVecs_drop {n : Nat} {iov : List Iovec} (hEnough : n ≤ totalLen iov) :
    content m (splitVecs n iov).2 = (content m iov).drop n := by
  rw [← splitVecs_content m n iov, List.drop_left' ((content_length m _).trans
    (splitVecs_totalLen hEnough))]

end E82545

end DeviceModel

import DeviceModel.E82545Transmit
import Mathlib.Tactic.Ring

/-!
# The e1000 network device: accesses of the copied header

The loads and stores of `e82545_transmit` on its copy of the header stay in the
copy exactly if the offsets that the guest supplies do. Where they do, a round of
the segmentation loop is a pure function of what it starts from.
-/

set_option autoImplicit false

namespace DeviceModel.E82545

open Fallible

section Bytes

variable (hdr : List (BitVec 8)) (off : Nat)

def get16 : BitVec 16 := hdr.getD off 0 ++ hdr.getD (off + 1) 0

def get32 : BitVec 32 :=
  hdr.getD off 0 ++ hdr.getD (off + 1) 0 ++ hdr.getD (off + 2) 0 ++ hdr.getD (off + 3) 0

def put16 (x : BitVec 16) : List (BitVec 8) :=
  (hdr.set off (x.extractLsb' 8 8)).set (off + 1) (x.extractLsb' 0 8)

def put32 (x : BitVec 32) : List (BitVec 8) :=
  put16 (put16 hdr off (x.extractLsb' 16 16)) (off + 2) (x.extractLsb' 0 16)

def and8 (mask : BitVec 8) : List (BitVec 8) := hdr.set off (hdr.getD off 0 &&& mask)

@[simp] theorem put16_length (x : BitVec 16) : (put16 hdr off x).length = hdr.length := by
  simp [put16]

@[simp] theorem put32_length (x : BitVec 32) : (put32 hdr off x).length = hdr.length := by
  simp [put32]

@[simp] theorem and8_length (mask : BitVec 8) : (and8 hdr off mask).length = hdr.length := by
  simp [and8]

variable {hdr off}

theorem getD_set_ne {i j : Nat} (x : BitVec 8) (hNe : i ≠ j) :
    (hdr.set j x).getD i 0 = hdr.getD i 0 := by
  rw [List.getD_eq_getElem?_getD, List.getD_eq_getElem?_getD, List.getElem?_set_ne hNe.symm]

theorem getD_set_self {i : Nat} (x : BitVec 8) (hFits : i < hdr.length) :
    (hdr.set i x).getD i 0 = x := by
  rw [List.getD_eq_getElem?_getD, List.getElem?_set_self hFits, Option.getD_some]

theorem put16_getD {i : Nat} (x : BitVec 16) (hFirst : i ≠ off) (hSecond : i ≠ off + 1) :
    (put16 hdr off x).getD i 0 = hdr.getD i 0 := by
  rw [put16, getD_set_ne _ hSecond, getD_set_ne _ hFirst]

theorem put16_getD_first (x : BitVec 16) (hFits : off + 2 ≤ hdr.length) :
    (put16 hdr off x).getD off 0 = x.extractLsb' 8 8 := by
  rw [put16, getD_set_ne _ (by omega), getD_set_self _ (by omega)]

theorem put16_getD_second (x : BitVec 16) (hFits : off + 2 ≤ hdr.length) :
    (put16 hdr off x).getD (off + 1) 0 = x.extractLsb' 0 8 := by
  rw [put16, getD_set_self _ (by rw [List.length_set]; omega)]

theorem put32_getD {i : Nat} (x : BitVec 32) (hApart : i < off ∨ off + 4 ≤ i) :
    (put32 hdr off x).getD i 0 = hdr.getD i 0 := by
  rw [put32, put16_getD _ (by omega) (by omega), put16_getD _ (by omega) (by omega)]

theorem and8_getD {i : Nat} (mask : BitVec 8) (hNe : i ≠ off) :
    (and8 hdr off mask).getD i 0 = hdr.getD i 0 := getD_set_ne _ hNe

theorem and8_getD_self (mask : BitVec 8) (hFits : off < hdr.length) :
    (and8 hdr off mask).getD off 0 = hdr.getD off 0 &&& mask := getD_set_self _ hFits

theorem append_extract (x : BitVec 16) : x.extractLsb' 8 8 ++ x.extractLsb' 0 8 = x := by
  apply BitVec.eq_of_getLsbD_eq
  intro i hi
  rw [BitVec.getLsbD_append, BitVec.getLsbD_extractLsb', BitVec.getLsbD_extractLsb']
  grind

theorem get16_put16 (x : BitVec 16) (hFits : off + 2 ≤ hdr.length) :
    get16 (put16 hdr off x) off = x := by
  rw [get16, put16_getD_first x hFits, put16_getD_second x hFits, append_extract]

theorem get16_put16_apart {i : Nat} (x : BitVec 16) (hApart : i + 2 ≤ off ∨ off + 2 ≤ i) :
    get16 (put16 hdr off x) i = get16 hdr i := by
  rw [get16, get16, put16_getD _ (by omega) (by omega), put16_getD _ (by omega) (by omega)]

theorem get16_put32_high (x : BitVec 32) (hFits : off + 4 ≤ hdr.length) :
    get16 (put32 hdr off x) off = x.extractLsb' 16 16 := by
  rw [put32, get16_put16_apart _ (.inl (Nat.le_refl _)), get16_put16 _ (by omega)]

theorem get16_put32_low (x : BitVec 32) (hFits : off + 4 ≤ hdr.length) :
    get16 (put32 hdr off x) (off + 2) = x.extractLsb' 0 16 := by
  rw [put32, get16_put16 _ (by rw [put16_length]; omega)]

theorem hdrLoad16_eq (hFits : off + 2 ≤ hdr.length) : hdrLoad16 hdr off = .ok (get16 hdr off) := by
  rw [hdrLoad16, assertThat_of _ hFits]
  rfl

theorem hdrLoad32_eq (hFits : off + 4 ≤ hdr.length) : hdrLoad32 hdr off = .ok (get32 hdr off) := by
  rw [hdrLoad32, assertThat_of _ hFits]
  rfl

theorem hdrStore16_eq (x : BitVec 16) (hFits : off + 2 ≤ hdr.length) :
    hdrStore16 hdr off x = .ok (put16 hdr off x) := by
  rw [hdrStore16, assertThat_of _ hFits]
  rfl

theorem hdrStore32_eq (x : BitVec 32) (hFits : off + 4 ≤ hdr.length) :
    hdrStore32 hdr off x = .ok (put32 hdr off x) := by
  rw [hdrStore32, assertThat_of _ hFits, ok_bind, hdrStore16_eq _ (by omega), ok_bind,
    hdrStore16_eq _ (by rw [put16_length]; omega)]
  rfl

theorem hdrAnd8_eq (mask : BitVec 8) (hFits : off < hdr.length) :
    hdrAnd8 hdr off mask = .ok (and8 hdr off mask) := by
  rw [hdrAnd8, assertThat_of _ hFits]
  rfl

theorem assertThat_bind_stops {α : Type} {p : Prop} [Decidable p] (f : Unit → Except Fault α)
    (hNot : ¬ p) : (assertThat p Fault.headerCopy >>= f) = .error .headerCopy := by
  rw [assertThat, if_neg hNot]
  rfl

theorem hdrLoad16_stops (h : ¬ off + 2 ≤ hdr.length) : hdrLoad16 hdr off = .error .headerCopy :=
  assertThat_bind_stops _ h

theorem hdrLoad32_stops (h : ¬ off + 4 ≤ hdr.length) : hdrLoad32 hdr off = .error .headerCopy :=
  assertThat_bind_stops _ h

theorem hdrAnd8_stops (mask : BitVec 8) (h : ¬ off < hdr.length) :
    hdrAnd8 hdr off mask = .error .headerCopy :=
  assertThat_bind_stops _ h

end Bytes

/-- What the segmentation part reads before its loop lies in a header of `len` bytes. -/
structure LoadsFit (ck0 ck1 : CkInfo) (len : Nat) : Prop where
  ip : ck0.ckStart.toNat + 6 ≤ len
  tcp : ck1.ckStart.toNat + 8 ≤ len
  ipSum : ck0.ckOff.toNat + 2 ≤ len
  tcpSum : ck1.ckValid = true → ck1.ckOff.toNat + 2 ≤ len

namespace TsoInfo

variable (m : Memory) (t : TsoInfo)

/-- All accesses of the segmentation part stay in the header. The flags are only written where a
segment follows. -/
structure HeaderFits (len : Nat) : Prop extends LoadsFit t.ck0 t.ck1 len where
  flags : t.tcp = true → t.ctx.mss.toNat < t.paylen → t.ck1.ckStart.toNat + 14 ≤ len

def ipHeader (seg now : Nat) (hdr : List (BitVec 8)) : List (BitVec 8) :=
  let start := t.ck0.ckStart.toNat
  let len : Int := hdr.length - start + now
  if t.ctx.cmdAndLength &&& E1000_TXD_CMD_IP ≠ 0 then
    put16 (put16 hdr (start + 2) (BitVec.ofInt 16 len)) (start + 4) (t.ipid + BitVec.ofNat 16 seg)
  else put16 hdr (start + 4) (BitVec.ofInt 16 (len - 40))

def tcpHeader (left now : Nat) (hdr : List (BitVec 8)) : List (BitVec 8) :=
  let start := t.ck1.ckStart.toNat
  if t.tcp then
    let hdr := put32 hdr (start + 4) (t.tcpseq + BitVec.ofNat 32 t.paylen - BitVec.ofNat 32 left)
    if now < left then and8 hdr (start + 13) (~~~0x09) else hdr
  else put32 hdr (start + 4) (BitVec.ofInt 32 (hdr.length - start + now))

def seeded (hdr : List (BitVec 8)) (vecs : List Iovec) (ck : CkInfo) (seed : BitVec 16) :
    List (BitVec 8) :=
  if ck.ckValid then
    let hdr := put16 hdr ck.ckOff.toNat seed
    let cklen : Int := if ck.ckLen ≠ 0 then ck.ckLen.toNat - ck.ckStart.toNat + 1 else INT_MAX
    put16 hdr ck.ckOff.toNat
      (~~~(e82545IovChecksum (hdr :: vecs.map (·.load m)) ck.ckStart.toNat cklen))
  else hdr

def now (left : Nat) : Nat := min left t.ctx.mss.toNat

def sentHeader (s : Segments) : List (BitVec 8) :=
  let vecs := (splitVecs (t.now s.left) s.iov).1
  let hdr := t.ipHeader s.seg (t.now s.left) s.hdr
  let len : Int := hdr.length - t.ck1.ckStart.toNat + t.now s.left
  let tcpsum := t.tcpcs.setWidth 32 + (BitVec.ofInt 16 len).setWidth 32
  seeded m (seeded m (t.tcpHeader s.left (t.now s.left) hdr) vecs t.ck0 t.ipcs) vecs t.ck1
    (e82545Carry tcpsum)

def next (s : Segments) : Segments :=
  let vecs := (splitVecs (t.now s.left) s.iov).1
  ⟨s.seg + 1, s.left - t.now s.left, t.sentHeader m s, (splitVecs (t.now s.left) s.iov).2,
    s.frames ++ [t.sentHeader m s :: vecs.map (·.load m)]⟩

@[simp] theorem ipHeader_length (seg now : Nat) (hdr : List (BitVec 8)) :
    (t.ipHeader seg now hdr).length = hdr.length := by
  unfold ipHeader
  dsimp only
  split <;> simp

@[simp] theorem tcpHeader_length (left now : Nat) (hdr : List (BitVec 8)) :
    (t.tcpHeader left now hdr).length = hdr.length := by
  unfold tcpHeader
  dsimp only
  split
  · split <;> simp
  · simp

@[simp] theorem seeded_length (hdr : List (BitVec 8)) (vecs : List Iovec) (ck : CkInfo)
    (seed : BitVec 16) : (seeded m hdr vecs ck seed).length = hdr.length := by
  unfold seeded
  dsimp only
  split <;> simp

@[simp] theorem sentHeader_length (s : Segments) : (t.sentHeader m s).length = s.hdr.length := by
  simp [sentHeader]

variable {m t} {hdr : List (BitVec 8)}

theorem updateIp_eq (seg now : Nat) (hFits : t.ck0.ckStart.toNat + 6 ≤ hdr.length) :
    t.updateIp seg now hdr = .ok (t.ipHeader seg now hdr) := by
  unfold updateIp ipHeader
  dsimp only
  split
  · rw [hdrStore16_eq _ (by omega), ok_bind, hdrStore16_eq _ (by rw [put16_length]; omega)]
  · exact hdrStore16_eq _ (by omega)

theorem updateTcp_eq {left now : Nat} (hFits : t.ck1.ckStart.toNat + 8 ≤ hdr.length)
    (hFlags : t.tcp = true → now < left → t.ck1.ckStart.toNat + 14 ≤ hdr.length) :
    t.updateTcp left now hdr = .ok (t.tcpHeader left now hdr) := by
  unfold updateTcp tcpHeader
  dsimp only
  split
  · next hTcp =>
    rw [hdrStore32_eq _ (by omega), ok_bind]
    split
    · next hMore =>
      have hRoom := hFlags hTcp hMore
      exact hdrAnd8_eq _ (by rw [put32_length]; omega)
    · rfl
  · exact hdrStore32_eq _ (by omega)

theorem seededChecksum_eq {vecs : List Iovec} {ck : CkInfo} (seed : BitVec 16)
    (hFits : ck.ckValid = true → ck.ckOff.toNat + 2 ≤ hdr.length) :
    seededChecksum m hdr vecs ck seed = .ok (seeded m hdr vecs ck seed) := by
  unfold seededChecksum seeded
  split
  · next hValid =>
    have hRoom := hFits hValid
    rw [hdrStore16_eq _ hRoom, ok_bind]
    exact hdrStore16_eq _ (by rw [put16_length]; omega)
  · rfl

theorem segment_eq {s : Segments} (hFits : t.HeaderFits s.hdr.length) (hLeft : s.left ≤ t.paylen) :
    t.segment m s = .ok (t.next m s) := by
  have hMore : t.tcp = true → min s.left t.ctx.mss.toNat < s.left →
      t.ck1.ckStart.toNat + 14 ≤ s.hdr.length := by
    intro hTcp hLess
    exact hFits.flags hTcp (by omega)
  unfold segment
  dsimp only
  rw [updateIp_eq _ _ hFits.ip, ok_bind,
    updateTcp_eq (by rw [ipHeader_length]; exact hFits.tcp)
      (by rw [ipHeader_length]; exact hMore), ok_bind,
    seededChecksum_eq _ (by rw [tcpHeader_length, ipHeader_length]; exact fun _ => hFits.ipSum),
    ok_bind,
    seededChecksum_eq _ (by rw [seeded_length, tcpHeader_length, ipHeader_length]; exact hFits.tcpSum),
    ok_bind]
  rfl

def IpField (t : TsoInfo) (i : Nat) : Prop :=
  (if t.ctx.cmdAndLength &&& E1000_TXD_CMD_IP ≠ 0 then t.ck0.ckStart.toNat + 2
    else t.ck0.ckStart.toNat + 4) ≤ i ∧ i < t.ck0.ckStart.toNat + 6

instance (t : TsoInfo) (i : Nat) : Decidable (t.IpField i) := inferInstanceAs (Decidable (_ ∧ _))

theorem ipHeader_getD {i : Nat} (seg now : Nat) (hApart : ¬ t.IpField i) :
    (t.ipHeader seg now hdr).getD i 0 = hdr.getD i 0 := by
  unfold IpField at hApart
  unfold ipHeader
  dsimp only
  split
  · next hIp =>
    rw [if_pos hIp] at hApart
    rw [put16_getD _ (by omega) (by omega), put16_getD _ (by omega) (by omega)]
  · next hIp =>
    rw [if_neg hIp] at hApart
    rw [put16_getD _ (by omega) (by omega)]

theorem tcpHeader_getD {left now i : Nat}
    (hApart : i < t.ck1.ckStart.toNat + 4 ∨ t.ck1.ckStart.toNat + 8 ≤ i)
    (hFlags : t.tcp = true → now < left → i ≠ t.ck1.ckStart.toNat + 13) :
    (t.tcpHeader left now hdr).getD i 0 = hdr.getD i 0 := by
  unfold tcpHeader
  dsimp only
  split
  · next hTcp =>
    split
    · next hMore => rw [and8_getD _ (hFlags hTcp hMore), put32_getD _ (by omega)]
    · rw [put32_getD _ (by omega)]
  · rw [put32_getD _ (by omega)]

def CkField (ck : CkInfo) (i : Nat) : Prop :=
  ck.ckValid = true ∧ (i = ck.ckOff.toNat ∨ i = ck.ckOff.toNat + 1)

instance (ck : CkInfo) (i : Nat) : Decidable (CkField ck i) := inferInstanceAs (Decidable (_ ∧ _))

theorem seeded_getD {vecs : List Iovec} {ck : CkInfo} {seed : BitVec 16} {i : Nat}
    (hApart : ¬ CkField ck i) : (seeded m hdr vecs ck seed).getD i 0 = hdr.getD i 0 := by
  unfold seeded
  dsimp only
  split
  · next hValid =>
    have hNe : ¬ (i = ck.ckOff.toNat ∨ i = ck.ckOff.toNat + 1) := fun h => hApart ⟨hValid, h⟩
    rw [put16_getD _ (by omega) (by omega), put16_getD _ (by omega) (by omega)]
  · rfl

/-- What the checksums do not overwrite is as the TCP header leaves it. -/
theorem sentHeader_getD {s : Segments} {i : Nat} (hIpSum : ¬ CkField t.ck0 i)
    (hTcpSum : ¬ CkField t.ck1 i) : (t.sentHeader m s).getD i 0 =
      (t.tcpHeader s.left (t.now s.left) (t.ipHeader s.seg (t.now s.left) s.hdr)).getD i 0 := by
  unfold sentHeader
  dsimp only
  rw [seeded_getD hTcpSum, seeded_getD hIpSum]

end TsoInfo

def tsoInfo (ctx : TxDesc) (ck0 ck1 : CkInfo) (hdr : List (BitVec 8)) : TsoInfo :=
  ⟨ctx, ck0, ck1, get16 hdr (ck0.ckStart.toNat + 4), get32 hdr (ck1.ckStart.toNat + 4),
    get16 hdr ck0.ckOff.toNat, if ck1.ckValid then get16 hdr ck1.ckOff.toNat else 0⟩

end DeviceModel.E82545

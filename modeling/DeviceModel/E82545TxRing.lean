import DeviceModel.E82545Drain
import DeviceModel.E82545Scan

/-!
# The e1000 network device: the transmit ring

With head and tail in the ring, a run takes descriptors from the head on, in ring order and none
beyond the tail. All it changes in memory is the DD flag of those among them that ask for it.
-/

set_option autoImplicit false

namespace DeviceModel

theorem Memory.store32_flag (m : Memory) (a : BitVec 64) :
    m.store32 a (m.load32 a ||| 0x01000000) = m.store8 a (m a ||| 1) := by
  have h01 : a + 1 ≠ a := by bv_omega
  have h02 : a + 2 ≠ a := by bv_omega
  have h03 : a + 2 + 1 ≠ a := by bv_omega
  have h23 : a + 2 + 1 ≠ a + 2 := by bv_omega
  have hFlag : m.load32 a ||| 0x01000000 = ((m a ||| 1) ++ m (a + 1)) ++ (m (a + 2) ++ m (a + 2 + 1)) := by
    have hSplit : (0x01000000 : BitVec 32) = (1#8 ++ 0#8) ++ (0#8 ++ 0#8) := by decide
    rw [hSplit, Memory.load32, Memory.load16, Memory.load16, BitVec.or_append, BitVec.or_append,
      BitVec.or_append, BitVec.or_zero, BitVec.or_zero, BitVec.or_zero]
    rfl
  have hHigh : ∀ x y : BitVec 16, (x ++ y : BitVec 32).extractLsb' 16 16 = x :=
    fun _ _ => BitVec.extractLsb'_append_eq_left
  have hLow : ∀ x y : BitVec 16, (x ++ y : BitVec 32).extractLsb' 0 16 = y :=
    fun _ _ => BitVec.extractLsb'_append_eq_right
  have hFirst : ∀ x y : BitVec 8, (x ++ y : BitVec 16).extractLsb' 8 8 = x :=
    fun _ _ => BitVec.extractLsb'_append_eq_left
  have hSecond : ∀ x y : BitVec 8, (x ++ y : BitVec 16).extractLsb' 0 8 = y :=
    fun _ _ => BitVec.extractLsb'_append_eq_right
  funext b
  rw [hFlag, Memory.store32, Memory.store16, Memory.store16, hHigh, hLow, hFirst, hSecond, hFirst,
    hSecond]
  rcases eq_or_ne b (a + 2 + 1) with rfl | h3
  · rw [store8_self, store8_of_ne _ _ h03]
  rcases eq_or_ne b (a + 2) with rfl | h2
  · rw [store8_of_ne _ _ h23.symm, store8_self, store8_of_ne _ _ h02]
  rcases eq_or_ne b (a + 1) with rfl | h1
  · rw [store8_of_ne _ _ h3, store8_of_ne _ _ h2, store8_self, store8_of_ne _ _ h01]
  rw [store8_of_ne _ _ h3, store8_of_ne _ _ h2, store8_of_ne _ _ h1]

namespace E82545

open Fallible

section Marks

variable {txdesc : BitVec 64} {m : Memory}

def statusAt (txdesc : BitVec 64) (i : Nat) : BitVec 64 := txdescAt txdesc i + 12

def Reports (m : Memory) (txdesc : BitVec 64) (i : Nat) : Prop :=
  (loadTxdesc m txdesc i).cmd E1000_TXD_CMD_RS = true

instance (m : Memory) (txdesc : BitVec 64) (i : Nat) : Decidable (Reports m txdesc i) :=
  inferInstanceAs (Decidable (_ = _))

/-- The descriptor marked as done, if it asks for it. -/
def markDone (txdesc : BitVec 64) (m : Memory) (i : Nat) : Memory :=
  if Reports m txdesc i then m.store8 (statusAt txdesc i) (m (statusAt txdesc i) ||| 1) else m

def fromHead (size head n : Nat) : List Nat := (List.range n).map fun j => (head + j) % size

theorem fromHead_succ {size head : Nat} (hHead : head < size) (n : Nat) :
    fromHead size head (n + 1) = head :: fromHead size ((head + 1) % size) n := by
  unfold fromHead
  rw [List.range_succ_eq_map, List.map_cons, List.map_map, Nat.add_zero, Nat.mod_eq_of_lt hHead]
  congr 1
  apply List.map_congr_left
  intro j _
  rw [Function.comp_apply, Nat.mod_add_mod, Nat.succ_eq_add_one]
  congr 1
  omega

theorem fromHead_add (size head n k : Nat) :
    fromHead size head (n + k) = fromHead size head n ++ fromHead size ((head + n) % size) k := by
  unfold fromHead
  rw [List.range_add, List.map_append, List.map_map]
  congr 1
  apply List.map_congr_left
  intro j _
  rw [Function.comp_apply, Nat.mod_add_mod, Nat.add_assoc]

theorem mem_fromHead {size head n i : Nat} : i ∈ fromHead size head n ↔
    ∃ j < n, i = (head + j) % size := by
  unfold fromHead
  simp only [List.mem_map, List.mem_range, eq_comm]

theorem fromHead_nodup {size head n : Nat} (hHead : head < size) (hFew : n ≤ size) :
    (fromHead size head n).Nodup := by
  apply List.nodup_range.map_on
  intro j hj k hk hSame
  have hj := List.mem_range.mp hj
  have hk := List.mem_range.mp hk
  have hWrap : ∀ l < size, (head + l) % size = if head + l < size then head + l
      else head + l - size := by
    intro l hl
    split
    · next hIn => exact Nat.mod_eq_of_lt hIn
    · next hOut =>
      rw [Nat.mod_eq_sub_mod (Nat.le_of_not_lt hOut), Nat.mod_eq_of_lt (by omega)]
  rw [hWrap j (by omega), hWrap k (by omega)] at hSame
  split at hSame <;> split at hSame <;> omega

/-- The loop of `e82545_transmit_done` marks the descriptors up to where it stops. -/
theorem e82545TransmitDone_eq (tx : Tx) {size head k fuel : Nat} (hHead : head < size) (hLess : k < size)
    (hFuel : k < fuel) (m : Memory) (tdwb : Bool) :
    (e82545TransmitDone tx size fuel head ((head + k) % size) (m, tdwb)).1 =
      (fromHead size head k).foldl (markDone tx.txdesc) m := by
  induction k generalizing head fuel m tdwb with
  | zero =>
    obtain ⟨fuel, rfl⟩ := Nat.exists_eq_succ_of_ne_zero (Nat.ne_of_gt hFuel)
    rw [Nat.add_zero, Nat.mod_eq_of_lt hHead, e82545TransmitDone, if_pos rfl]
    rfl
  | succ k ih =>
    obtain ⟨fuel, rfl⟩ := Nat.exists_eq_succ_of_ne_zero (Nat.ne_of_gt (Nat.zero_lt_of_lt hFuel))
    have hNe : head ≠ (head + (k + 1)) % size := by
      intro hSame
      have hNodup := fromHead_nodup hHead (Nat.succ_le_of_lt hLess)
      rw [fromHead_succ hHead] at hNodup
      apply (List.nodup_cons.mp hNodup).1
      apply mem_fromHead.mpr
      exact ⟨k, Nat.lt_succ_self k, hSame.trans (by rw [Nat.mod_add_mod, Nat.add_right_comm]; rfl)⟩
    have hStop : (head + (k + 1)) % size = ((head + 1) % size + k) % size := by
      rw [Nat.mod_add_mod, Nat.add_right_comm]
      rfl
    have hStore : m.store32 (txdescAt tx.txdesc head + 12)
        ((loadTxdesc m tx.txdesc head).upper ||| htole32 E1000_TXD_STAT_DD) =
          m.store8 (statusAt tx.txdesc head) (m (statusAt tx.txdesc head) ||| 1) := m.store32_flag _
    rw [e82545TransmitDone, if_neg hNe, fromHead_succ hHead, List.foldl_cons, hStop]
    dsimp only
    have hNext : (head + 1) % size < size := Nat.mod_lt _ (Nat.zero_lt_of_lt hHead)
    have hMark : markDone tx.txdesc m head = if (loadTxdesc m tx.txdesc head).cmd E1000_TXD_CMD_RS = true
        then m.store8 (statusAt tx.txdesc head) (m (statusAt tx.txdesc head) ||| 1) else m := rfl
    rw [hMark]
    split
    · rw [hStore]
      exact ih hNext (Nat.lt_of_succ_lt hLess) (Nat.lt_of_succ_lt_succ hFuel) _ _
    · exact ih hNext (Nat.lt_of_succ_lt hLess) (Nat.lt_of_succ_lt_succ hFuel) _ _

/-- A mark is in none of the bytes that say whether another one is asked for. -/
theorem reports_markDone (i j : Nat) :
    Reports (markDone txdesc m i) txdesc j ↔ Reports m txdesc j := by
  unfold markDone
  split
  · have hLower : (loadTxdesc (m.store8 (statusAt txdesc i) (m (statusAt txdesc i) ||| 1)) txdesc j).lower =
        (loadTxdesc m txdesc j).lower := by
      apply Memory.load32_congr
      intro k hk
      apply Memory.store8_of_ne
      unfold statusAt txdescAt
      bv_omega
    unfold Reports TxDesc.cmd TxDesc.lowerData
    rw [hLower]
  · rfl

theorem foldl_markDone (is : List Nat) (m : Memory) (a : BitVec 64) :
    is.foldl (markDone txdesc) m a =
      if ∃ i ∈ is, a = statusAt txdesc i ∧ Reports m txdesc i then m a ||| 1 else m a := by
  induction is generalizing m with
  | nil => simp
  | cons i is ih =>
    have hFirst : markDone txdesc m i a =
        if a = statusAt txdesc i ∧ Reports m txdesc i then m a ||| 1 else m a := by
      unfold markDone
      by_cases hReports : Reports m txdesc i
      · rw [if_pos hReports]
        rcases eq_or_ne a (statusAt txdesc i) with rfl | hNe
        · rw [Memory.store8_self, if_pos ⟨rfl, hReports⟩]
        · rw [Memory.store8_of_ne _ _ hNe, if_neg fun h => hNe h.1]
      · rw [if_neg hReports, if_neg fun h => hReports h.2]
    have hTwice : m a ||| 1 ||| 1 = m a ||| 1 := by rw [BitVec.or_assoc, BitVec.or_self]
    rw [List.foldl_cons, ih]
    simp only [reports_markDone, List.exists_mem_cons_iff, hFirst]
    by_cases hHere : a = statusAt txdesc i ∧ Reports m txdesc i
    · rw [if_pos hHere, hTwice, ite_self, if_pos (.inl hHere)]
    · simp only [hHere, false_or, if_false]

end Marks

section Walk

variable {m : Memory} {tx : Tx} {tail size head : Nat} {general : General} {tdwb : Bool}

def between (size head tail : Nat) : Nat := (size + tail - head) % size

theorem between_spec (hHead : head < size) (hTail : tail < size) :
    between size head tail < size ∧ (head + between size head tail) % size = tail ∧
      ∀ j < between size head tail, (head + j) % size ≠ tail := by
  have hValue : between size head tail = if head ≤ tail then tail - head else size + tail - head := by
    unfold between
    split
    · next hUp =>
      rw [Nat.add_sub_assoc hUp, Nat.add_mod_left, Nat.mod_eq_of_lt (by omega)]
    · exact Nat.mod_eq_of_lt (by omega)
  have hWrap : ∀ l < size, (head + l) % size = if head + l < size then head + l
      else head + l - size := by
    intro l hl
    split
    · next hIn => exact Nat.mod_eq_of_lt hIn
    · next hOut =>
      rw [Nat.mod_eq_sub_mod (Nat.le_of_not_lt hOut), Nat.mod_eq_of_lt (by omega)]
  rw [hValue]
  refine ⟨by split <;> omega, ?_, ?_⟩
  · rw [hWrap _ (by split <;> omega)]
    split <;> split <;> omega
  · intro j hj
    rw [hWrap j (by split at hj <;> omega)]
    split <;> split at hj <;> omega

theorem between_add (hHead : head < size) (hTail : tail < size) {n : Nat}
    (hn : n ≤ between size head tail) :
    between size ((head + n) % size) tail = between size head tail - n := by
  obtain ⟨hLess, hEnd, hBefore⟩ := between_spec hHead hTail
  have hPos : 0 < size := Nat.zero_lt_of_lt hHead
  obtain ⟨hLess', hEnd', hBefore'⟩ := between_spec (Nat.mod_lt (head + n) hPos) hTail
  rw [Nat.mod_add_mod, Nat.add_assoc] at hEnd'
  rcases Nat.lt_trichotomy (n + between size ((head + n) % size) tail) (between size head tail)
    with hShort | hSame | hLong
  · exact absurd hEnd' (hBefore _ hShort)
  · omega
  · have hMeet := hBefore' (between size head tail - n) (by omega)
    rw [Nat.mod_add_mod, Nat.add_assoc, Nat.add_sub_cancel' hn] at hMeet
    exact absurd hEnd hMeet

/-- What a call of `e82545_transmit` does with the ring. -/
structure Takes (m : Memory) (txdesc : BitVec 64) (tail size head : Nat) (t : Transmitted) : Prop where
  limit : t.sent ≤ between size head tail
  rhead : t.sent ≠ 0 → t.rhead = (head + t.sent) % size
  mem : t.mem = (fromHead size head t.sent).foldl (markDone txdesc) m

theorem e82545Transmit_takes (hHead : head < size) (hTail : tail < size) :
    Yields (· ≠ .txdescLoop) (Takes m tx.txdesc tail size head)
      (e82545Transmit m tx tail size general head tdwb) := by
  obtain ⟨hLess, hEnd, hBefore⟩ := between_spec hHead hTail
  have hIndex : ∀ k, ringIndex size head k = (head + k) % size := ringIndex_of_lt hHead
  have hDone : ∀ k < between size head tail, ∀ ctx frames,
      Takes m tx.txdesc tail size head ⟨k + 1, (ringIndex size head k + 1) % size,
        (e82545TransmitDone tx size (size + 1) head ((ringIndex size head k + 1) % size) (m, tdwb)).2, ctx,
        (e82545TransmitDone tx size (size + 1) head ((ringIndex size head k + 1) % size) (m, tdwb)).1,
        frames⟩ := by
    intro k hk ctx frames
    have hNext : (ringIndex size head k + 1) % size = (head + (k + 1)) % size := by
      rw [hIndex, Nat.mod_add_mod, Nat.add_assoc]
    rw [hNext]
    exact ⟨hk, fun _ => rfl, e82545TransmitDone_eq tx hHead (by omega) (by omega) m tdwb⟩
  unfold e82545Transmit
  change Yields _ _ (scanDescs m tx tail size (size + 1) (Packet.start head) >>= _)
  obtain ⟨k, -, hGo, hStop, hScan⟩ | ⟨hAll, -⟩ := scanDescs_cases m tx tail size head (size + 1)
  swap
  · exact absurd ((hIndex _).trans hEnd) (hAll _ (by omega)).tail
  have hInside : ringIndex size head k ≠ tail → k < between size head tail := by
    intro hNe
    by_contra hBeyond
    rcases Nat.eq_or_lt_of_le (Nat.le_of_not_lt hBeyond) with hEq | hMore
    · exact hNe (by rw [hIndex, ← hEq, hEnd])
    · exact (hGo _ hMore).tail ((hIndex _).trans hEnd)
  rw [hScan]
  unfold endsAt
  dsimp only
  split
  · exact ⟨Nat.zero_le _, fun h => absurd rfl h, rfl⟩
  next hNe =>
  split
  · next hContext =>
    obtain ⟨rfl, -⟩ := hContext
    exact hDone 0 (hInside hNe) _ []
  split
  · rw [ok_bind]
    dsimp only
    rw [(completed_desc k).1, (completed_desc k).2]
    have hStops := transmitPacket_packetStops m tx general (completed m tx size head k)
      (ringDesc m tx size head k)
    cases hSent : transmitPacket m tx general (completed m tx size head k) (ringDesc m tx size head k) with
    | ok frames => exact hDone k (hInside hNe) _ frames
    | error e =>
      rintro rfl
      exact absurd (hStops _ hSent) (by decide)
  · exact Fault.noConfusion

end Walk

section Run

def Tx.size (tx : Tx) : Nat := (tx.tdlen / 16).toNat

/-- The ring that the guest has set up, with TDLEN as a write to the register leaves it. -/
structure TxRing (tx : Tx) : Prop where
  register : tx.tdlen &&& 0xFFF0007F = 0
  head : tx.tdh.toNat < tx.size
  tail : tx.tdt.toNat < tx.size

theorem TxRing.size_lt {tx : Tx} (h : TxRing tx) : tx.size < 2 ^ 16 := by
  have hMask : tx.tdlen = tx.tdlen &&& 0x000FFF80 := by
    calc tx.tdlen = tx.tdlen &&& (0xFFF0007F ||| 0x000FFF80) := BitVec.and_allOnes.symm
      _ = (tx.tdlen &&& 0xFFF0007F) ||| (tx.tdlen &&& 0x000FFF80) := BitVec.and_or_distrib_left
      _ = tx.tdlen &&& 0x000FFF80 := by
        rw [h.register]
        exact BitVec.zero_or
  have hLess : tx.tdlen.toNat ≤ 0x000FFF80 := by
    rw [hMask, BitVec.toNat_and]
    exact Nat.and_le_right
  have hDiv : tx.size = tx.tdlen.toNat / 16 := BitVec.toNat_udiv
  omega

variable {φ : Type} (F : Fifo φ) {general : General} {tx : Tx} {tail size head : Nat} {m : Memory}

structure WalkedTo (m : Memory) (txdesc : BitVec 64) (tail size head n : Nat) (r : TxRun φ) : Prop where
  limit : n ≤ between size head tail
  index : r.head = (head + n) % size
  mem : r.mem = (fromHead size head n).foldl (markDone txdesc) m

theorem txRunLoop_walks (hHead : head < size) (hTail : tail < size) (fuel : Nat) {n : Nat}
    {r : TxRun φ} (h : WalkedTo m tx.txdesc tail size head n r) :
    Yields (· ≠ .txdescLoop) (fun r' => ∃ n, WalkedTo m tx.txdesc tail size head n r')
      (txRunLoop F general tx tail size fuel r) := by
  induction fuel generalizing n r with
  | zero => exact ⟨n, h⟩
  | succ fuel ih =>
    unfold txRunLoop
    split
    · exact ⟨n, h⟩
    have hPos : 0 < size := Nat.zero_lt_of_lt hHead
    have hHere : r.head < size := by
      rw [h.index]
      exact Nat.mod_lt _ hPos
    apply (@e82545Transmit_takes r.mem { tx with txctx := r.txctx } tail size r.head general r.tdwb
      hHere hTail).bind
    intro t _ hTakes
    have hMem := hTakes.mem
    have hLimit := hTakes.limit
    rw [h.index, between_add hHead hTail h.limit] at hLimit
    rw [h.mem, h.index, ← List.foldl_append, ← fromHead_add] at hMem
    dsimp only
    split
    · next hNone =>
      rw [hNone] at hMem
      exact ⟨n, h.limit, h.index, hMem⟩
    · next hSome =>
      have hNext := hTakes.rhead hSome
      rw [h.index, Nat.mod_add_mod, Nat.add_assoc] at hNext
      have hFits := h.limit
      exact @ih (n + t.sent) _ ⟨by omega, hNext, hMem⟩

structure TxOwned (s s' : E1000 φ) (n : Nat) : Prop where
  limit : n ≤ between s.sc.tx.size s.sc.tx.tdh.toNat s.sc.tx.tdt.toNat
  tdh : s'.sc.tx.tdh.toNat = (s.sc.tx.tdh.toNat + n) % s.sc.tx.size
  ring : s'.sc.tx.tdt = s.sc.tx.tdt ∧ s'.sc.tx.tdlen = s.sc.tx.tdlen ∧ s'.sc.tx.txdesc = s.sc.tx.txdesc
  mem : ∀ a, s'.mem a =
    if ∃ i ∈ fromHead s.sc.tx.size s.sc.tx.tdh.toNat n,
      a = statusAt s.sc.tx.txdesc i ∧ Reports s.mem s.sc.tx.txdesc i then s.mem a ||| 1 else s.mem a

/-- A poll with head and tail in the ring comes to an end of every packet it looks at. It takes the
descriptors from the head on that the guest has handed over, leaves the others alone, and of memory
changes the DD flag only of those that it has taken and that ask for it. -/
theorem txPoll_owned {s : E1000 φ} (hRing : TxRing s.sc.tx) :
    Yields (· ≠ .txdescLoop) (fun s' => ∃ n, TxOwned s s' n) (e82545TxPoll F s) := by
  have hHead := hRing.head
  have hTail := hRing.tail
  have hSize := hRing.size_lt
  have hPos : 0 < s.sc.tx.size := Nat.zero_lt_of_lt hHead
  have hMem : ∀ {n : Nat} {m : Memory}, n ≤ between s.sc.tx.size s.sc.tx.tdh.toNat s.sc.tx.tdt.toNat →
      m = (fromHead s.sc.tx.size s.sc.tx.tdh.toNat n).foldl (markDone s.sc.tx.txdesc) s.mem →
      ∀ a, m a = if ∃ i ∈ fromHead s.sc.tx.size s.sc.tx.tdh.toNat n,
        a = statusAt s.sc.tx.txdesc i ∧ Reports s.mem s.sc.tx.txdesc i then s.mem a ||| 1
        else s.mem a := by
    intro n m hLimit hm a
    rw [hm]
    exact foldl_markDone _ _ a
  unfold e82545TxPoll
  split
  · unfold e82545TxRun
    have hWalk := @txRunLoop_walks φ F s.sc.general { s.sc.tx with txActive := true } s.sc.tx.tdt.toNat
      s.sc.tx.size s.sc.tx.tdh.toNat s.mem hHead hTail (s.sc.tx.size / 4) 0
      ⟨s.sc.tx.size / 4, s.sc.tx.tdh.toNat, s.sc.tx.tdh.toNat, false, s.sc.tx.txctx, s.mem, s.fifo⟩
      ⟨Nat.zero_le _, (Nat.mod_eq_of_lt hHead).symm, rfl⟩
    apply hWalk.bind
    rintro r _ ⟨n, hWalked⟩
    have hIndex : r.head < s.sc.tx.size := by
      rw [hWalked.index]
      exact Nat.mod_lt _ hPos
    have hTdh : (BitVec.ofNat 16 r.head).toNat = r.head := by
      rw [BitVec.toNat_ofNat]
      exact Nat.mod_eq_of_lt (by omega)
    dsimp only
    have hRaise : ∀ cause : BitVec 32, Yields (· ≠ .txdescLoop) (fun _ => True)
        (if cause ≠ 0 then s.sc.intr.e82545IcrAssert cause else .ok s.sc.intr) := by
      intro cause
      have hStops : LineStops (if cause ≠ 0 then s.sc.intr.e82545IcrAssert cause else .ok s.sc.intr) :=
        StopsOnly.ite (raise_lineStops _ _) (stopsOnly_ok _)
      apply (StopsOnly.mono hStops ?_).yields
      rintro _ rfl
      decide
    apply (hRaise _).bind
    intro intr _ _
    exact ⟨n, hWalked.limit, hTdh.trans hWalked.index, ⟨rfl, rfl, rfl⟩,
      hMem hWalked.limit hWalked.mem⟩
  · exact ⟨0, Nat.zero_le _, (Nat.mod_eq_of_lt hHead).symm, ⟨rfl, rfl, rfl⟩, hMem (Nat.zero_le _) rfl⟩

def oneHandedOver : E1000 Unit :=
  ⟨{ ringSoftc with tx := { ringTx ⟨0, 0, 0⟩ with tdlen := 128, tdt := 1 } },
    ringMemory (legacyDesc 60 0 0x0B), ()⟩

theorem txPoll_owned_one : Yields (· ≠ .txdescLoop) (fun s' => ∃ n, TxOwned oneHandedOver s' n)
    (e82545TxPoll idleFifo oneHandedOver) :=
  txPoll_owned idleFifo ⟨by decide, by decide, by decide⟩

end Run

end E82545

end DeviceModel

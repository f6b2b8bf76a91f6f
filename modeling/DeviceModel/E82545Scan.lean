import DeviceModel.E82545HeaderBounds

/-!
# The e1000 network device: the descriptor loop

Where the loop of `e82545_transmit` ends is the first descriptor on the way from
`head` at which it does not go on. `gathered` is what it has taken in before.
-/

set_option autoImplicit false

namespace DeviceModel.E82545

open Fallible

def ringIndex (dsize head : Nat) : Nat → Nat
  | 0 => head
  | k + 1 => (ringIndex dsize head k + 1) % dsize

section Index

variable {dsize head : Nat}

theorem ringIndex_of_lt (hHead : head < dsize) (k : Nat) :
    ringIndex dsize head k = (head + k) % dsize := by
  induction k with
  | zero => exact (Nat.mod_eq_of_lt hHead).symm
  | succ k ih => rw [ringIndex, ih, Nat.mod_add_mod, Nat.add_assoc]

end Index

section Scan

variable (m : Memory) (tx : Tx) (tail dsize head : Nat)

def ringDesc (k : Nat) : TxDesc := loadTxdesc m tx.txdesc (ringIndex dsize head k)

/-- A round of the loop that goes on. -/
def Packet.advance (p : Packet) (dsc : TxDesc) : Packet :=
  let p := (if p.desc = 0 then p.first dsc else p).addVec dsc
  { p with desc := p.desc + 1, head := (p.head + 1) % dsize }

def gathered : Nat → Packet
  | 0 => Packet.start head
  | k + 1 => (gathered k).advance dsize (ringDesc m tx dsize head k)

def packetType : BitVec 32 := ((Packet.start head).first (ringDesc m tx dsize head 0)).ntype

structure GoesOn (k : Nat) : Prop where
  tail : ringIndex dsize head k ≠ tail
  context : k = 0 → (ringDesc m tx dsize head 0).type ≠ E1000_TXD_TYP_C
  type : k ≠ 0 → (ringDesc m tx dsize head k).type = packetType m tx dsize head
  eop : (ringDesc m tx dsize head k).cmd E1000_TXD_CMD_EOP = false

instance (k : Nat) : Decidable (GoesOn m tx tail dsize head k) :=
  decidable_of_iff (ringIndex dsize head k ≠ tail ∧
      (k = 0 → (ringDesc m tx dsize head 0).type ≠ E1000_TXD_TYP_C) ∧
      (k ≠ 0 → (ringDesc m tx dsize head k).type = packetType m tx dsize head) ∧
      (ringDesc m tx dsize head k).cmd E1000_TXD_CMD_EOP = false)
    ⟨fun h => ⟨h.1, h.2.1, h.2.2.1, h.2.2.2⟩, fun h => ⟨h.tail, h.context, h.type, h.eop⟩⟩

def completed (k : Nat) : Packet :=
  let dsc := ringDesc m tx dsize head k
  let p := gathered m tx dsize head k
  ((if k = 0 then p.first dsc else p).addVec dsc).final tx.txctx dsc

def endsAt (k : Nat) : Except Fault Scan :=
  let dsc := ringDesc m tx dsize head k
  if ringIndex dsize head k = tail then .ok (.incomplete (ringIndex dsize head k))
  else if k = 0 ∧ dsc.type = E1000_TXD_TYP_C then .ok (.context dsc head)
  else if k = 0 ∨ dsc.type = packetType m tx dsize head then
    .ok (.packet (completed m tx dsize head k) dsc)
  else .error .txdescType

variable {m tx tail dsize head}

theorem addVec_frame (p : Packet) (dsc : TxDesc) : (p.addVec dsc).desc = p.desc ∧
    (p.addVec dsc).head = p.head ∧ (p.addVec dsc).ntype = p.ntype := by
  unfold Packet.addVec
  split <;> exact ⟨rfl, rfl, rfl⟩

theorem first_frame (p : Packet) (dsc : TxDesc) : (p.first dsc).desc = p.desc ∧
    (p.first dsc).head = p.head := by
  unfold Packet.first
  split
  · exact ⟨rfl, rfl⟩
  · split <;> exact ⟨rfl, rfl⟩

theorem gathered_frame (k : Nat) : (gathered m tx dsize head k).desc = k ∧
    (gathered m tx dsize head k).head = ringIndex dsize head k ∧
    (k ≠ 0 → (gathered m tx dsize head k).ntype = packetType m tx dsize head) := by
  induction k with
  | zero => exact ⟨rfl, rfl, fun h => absurd rfl h⟩
  | succ k ih =>
    obtain ⟨hDesc, hHead, hType⟩ := ih
    rw [gathered, Packet.advance, hDesc]
    dsimp only
    split
    · next hFirst =>
      subst hFirst
      obtain ⟨hDesc', hHead', hType'⟩ := addVec_frame
        ((gathered m tx dsize head 0).first (ringDesc m tx dsize head 0)) (ringDesc m tx dsize head 0)
      obtain ⟨hDesc'', hHead''⟩ := first_frame (gathered m tx dsize head 0)
        (ringDesc m tx dsize head 0)
      rw [hDesc', hHead', hType', hDesc'', hHead'']
      exact ⟨rfl, rfl, fun _ => rfl⟩
    · next hLater =>
      obtain ⟨hDesc', hHead', hType'⟩ := addVec_frame (gathered m tx dsize head k)
        (ringDesc m tx dsize head k)
      rw [hDesc', hHead', hType', hDesc, hHead]
      exact ⟨rfl, rfl, fun _ => hType hLater⟩

theorem scanDescs_round (fuel k : Nat) :
    scanDescs m tx tail dsize (fuel + 1) (gathered m tx dsize head k) =
      if GoesOn m tx tail dsize head k then
        scanDescs m tx tail dsize fuel (gathered m tx dsize head (k + 1))
      else endsAt m tx tail dsize head k := by
  obtain ⟨hDesc, hHead, hType⟩ := @gathered_frame m tx dsize head k
  have hNext : gathered m tx dsize head (k + 1) =
      (gathered m tx dsize head k).advance dsize (ringDesc m tx dsize head k) := rfl
  have hLoad : loadTxdesc m tx.txdesc (ringIndex dsize head k) = ringDesc m tx dsize head k := rfl
  rw [scanDescs, endsAt, completed, hNext, Packet.advance, hDesc, hHead, hLoad]
  dsimp only
  generalize hDsc : ringDesc m tx dsize head k = dsc
  by_cases hTail : ringIndex dsize head k = tail
  · rw [if_pos hTail, if_neg fun h => h.tail hTail, if_pos hTail]
  rw [if_neg hTail, if_neg hTail]
  by_cases hContext : k = 0 ∧ dsc.type = E1000_TXD_TYP_C
  · obtain ⟨rfl, hC⟩ := hContext
    have hStop : ¬ GoesOn m tx tail dsize head 0 := fun h => h.context rfl (by rw [hDsc]; exact hC)
    rw [if_pos ⟨rfl, hC⟩, if_neg hStop, if_pos ⟨rfl, hC⟩]
    rfl
  rw [if_neg hContext, if_neg hContext]
  have hFrame : (if k = 0 then (gathered m tx dsize head k).first dsc
        else gathered m tx dsize head k).desc = k ∧
      (if k = 0 then (gathered m tx dsize head k).first dsc
        else gathered m tx dsize head k).head = ringIndex dsize head k ∧
      (k ≠ 0 → (if k = 0 then (gathered m tx dsize head k).first dsc
        else gathered m tx dsize head k).ntype = packetType m tx dsize head) := by
    split
    · next hFirst =>
      obtain ⟨hDesc', hHead'⟩ := first_frame (gathered m tx dsize head k) dsc
      exact ⟨hDesc'.trans hDesc, hHead'.trans hHead, fun h => absurd hFirst h⟩
    · exact ⟨hDesc, hHead, hType⟩
  generalize (if k = 0 then (gathered m tx dsize head k).first dsc
    else gathered m tx dsize head k) = q at hFrame
  obtain ⟨hDescQ, hHeadQ, hTypeQ⟩ := hFrame
  have hAssert : (q.desc = 0 ∨ dsc.type = q.ntype) ↔
      (k = 0 ∨ dsc.type = packetType m tx dsize head) := by
    rw [hDescQ]
    by_cases hFirst : k = 0
    · exact iff_of_true (.inl hFirst) (.inl hFirst)
    · rw [hTypeQ hFirst]
  by_cases hSame : k = 0 ∨ dsc.type = packetType m tx dsize head
  swap
  · have hStop : ¬ GoesOn m tx tail dsize head k := by
      intro h
      by_cases hFirst : k = 0
      · exact hSame (.inl hFirst)
      · exact hSame (.inr (by rw [← hDsc]; exact h.type hFirst))
    rw [if_neg hStop, if_neg hSame, assertThat, if_neg fun h => hSame (hAssert.mp h)]
    rfl
  rw [assertThat_of _ (hAssert.mpr hSame), ok_bind, if_pos hSame]
  cases hEop : dsc.cmd E1000_TXD_CMD_EOP with
  | true =>
    have hStop : ¬ GoesOn m tx tail dsize head k := by
      intro h
      have hNot := h.eop
      rw [hDsc, hEop] at hNot
      cases hNot
    rw [if_neg hStop, if_pos rfl]
    rfl
  | false =>
    have hGo : GoesOn m tx tail dsize head k := by
      refine ⟨hTail, ?_, ?_, by rw [hDsc]; exact hEop⟩
      · rintro rfl hC
        exact hContext ⟨rfl, by rw [← hDsc]; exact hC⟩
      · intro hLater
        rw [hDsc]
        exact hSame.resolve_left hLater
    rw [if_pos hGo, if_neg Bool.false_ne_true]

/-- The loop ends in the first round that does not go on, if there is one in time. -/
theorem scanDescs_ends {fuel k : Nat} (hBefore : ∀ j < k, GoesOn m tx tail dsize head j)
    (hEnd : ¬ GoesOn m tx tail dsize head k) (hTime : k < fuel) :
    scanDescs m tx tail dsize fuel (Packet.start head) = endsAt m tx tail dsize head k := by
  have hFrom : ∀ n, n ≤ k → scanDescs m tx tail dsize (fuel - n) (gathered m tx dsize head n) =
      endsAt m tx tail dsize head k := by
    intro n hn
    induction hd : k - n generalizing n with
    | zero =>
      obtain rfl : n = k := by omega
      obtain ⟨left, hLeft⟩ : ∃ left, fuel - n = left + 1 := ⟨fuel - n - 1, by omega⟩
      rw [hLeft, scanDescs_round, if_neg hEnd]
    | succ d ih =>
      obtain ⟨left, hLeft⟩ : ∃ left, fuel - n = left + 1 := ⟨fuel - n - 1, by omega⟩
      have hRest : left = fuel - (n + 1) := by omega
      rw [hLeft, scanDescs_round, if_pos (hBefore n (by omega)), hRest]
      exact ih (n + 1) (by omega) (by omega)
  exact hFrom 0 (Nat.zero_le k)

theorem scanDescs_loops {fuel : Nat} (hAll : ∀ j < fuel, GoesOn m tx tail dsize head j) :
    scanDescs m tx tail dsize fuel (Packet.start head) = .error .txdescLoop := by
  have hFrom : ∀ n, n ≤ fuel → scanDescs m tx tail dsize (fuel - n) (gathered m tx dsize head n) =
      .error .txdescLoop := by
    intro n hn
    induction hd : fuel - n generalizing n with
    | zero => rfl
    | succ d ih =>
      rw [scanDescs_round, if_pos (hAll n (by omega))]
      have hRest : d = fuel - (n + 1) := by omega
      have hStep := ih (n + 1) (by omega) hRest.symm
      exact hStep
  exact hFrom 0 (Nat.zero_le fuel)

theorem scanDescs_cases (m : Memory) (tx : Tx) (tail dsize head fuel : Nat) :
    (∃ k < fuel, (∀ j < k, GoesOn m tx tail dsize head j) ∧ ¬ GoesOn m tx tail dsize head k ∧
      scanDescs m tx tail dsize fuel (Packet.start head) = endsAt m tx tail dsize head k) ∨
    (∀ j < fuel, GoesOn m tx tail dsize head j) ∧
      scanDescs m tx tail dsize fuel (Packet.start head) = .error .txdescLoop := by
  by_cases hAll : ∀ j < fuel, GoesOn m tx tail dsize head j
  · exact .inr ⟨hAll, scanDescs_loops hAll⟩
  · left
    have hSome : ∃ k, k < fuel ∧ ¬ GoesOn m tx tail dsize head k := by
      by_contra hNone
      exact hAll fun j hj => by_contra fun h => hNone ⟨j, hj, h⟩
    have hLeast := Nat.find_spec hSome
    have hBefore : ∀ j < Nat.find hSome, GoesOn m tx tail dsize head j := by
      intro j hj
      by_contra h
      exact Nat.find_min hSome hj ⟨hj.trans hLeast.1, h⟩
    exact ⟨Nat.find hSome, hLeast.1, hBefore, hLeast.2,
      scanDescs_ends hBefore hLeast.2 hLeast.1⟩

end Scan

section Vectors

variable (m : Memory) (tx : Tx) (dsize head : Nat)

def vecOf (dsc : TxDesc) : Option Iovec :=
  if dsc.bufLen = 0 then none
  else
    let len : Int :=
      if dsc.cmd E1000_TXD_CMD_EOP ∧ dsc.cmd E1000_TXD_CMD_IFCS = false then dsc.bufLen - 2
      else dsc.bufLen
    some ⟨paddrGuest2host (le64toh dsc.addr), sizeT len⟩

def packetDescs (k : Nat) : List TxDesc := (List.range (k + 1)).map (ringDesc m tx dsize head)

variable {m tx dsize head}

/-- The vectors of a packet are those of the descriptors taken in, the first 64 of them. -/
def HasVecs (p : Packet) (vs : List Iovec) : Prop :=
  p.iov = vs.take I82545_MAX_TXSEGS ∧ p.iovcnt = vs.length

theorem HasVecs.addVec {p : Packet} {vs : List Iovec} (h : HasVecs p vs) (dsc : TxDesc) :
    HasVecs (p.addVec dsc) (vs ++ (vecOf dsc).toList) := by
  obtain ⟨hIov, hCount⟩ := h
  unfold Packet.addVec vecOf
  split
  · rw [Option.toList_none, List.append_nil]
    exact ⟨hIov, hCount⟩
  · dsimp only [Option.toList_some]
    constructor
    · rw [hIov, hCount]
      split
      · next hRoom =>
        rw [List.take_of_length_le (Nat.le_of_lt hRoom), List.take_of_length_le]
        rw [List.length_append]
        exact hRoom
      · next hFull => rw [List.take_append_of_le_length (Nat.le_of_not_lt hFull)]
    · rw [List.length_append, hCount]
      rfl

theorem HasVecs.first {p : Packet} {vs : List Iovec} (h : HasVecs p vs) (dsc : TxDesc) :
    HasVecs (p.first dsc) vs := by
  unfold Packet.first
  split
  · exact h
  · split <;> exact h

theorem HasVecs.final {p : Packet} {vs : List Iovec} (h : HasVecs p vs) (ctx dsc : TxDesc) :
    HasVecs (p.final ctx dsc) vs := by
  unfold Packet.final
  split
  · split <;> exact h
  · exact h

theorem gathered_hasVecs (k : Nat) : HasVecs (gathered m tx dsize head k)
    (((List.range k).map (ringDesc m tx dsize head)).filterMap vecOf) := by
  induction k with
  | zero => exact ⟨rfl, rfl⟩
  | succ k ih =>
    rw [List.range_succ, List.map_append, List.filterMap_append]
    have hLast : ([k].map (ringDesc m tx dsize head)).filterMap vecOf =
        (vecOf (ringDesc m tx dsize head k)).toList := by
      cases hVec : vecOf (ringDesc m tx dsize head k) <;> simp [hVec]
    have hNext : HasVecs (if (gathered m tx dsize head k).desc = 0 then
        (gathered m tx dsize head k).first (ringDesc m tx dsize head k)
        else gathered m tx dsize head k)
        (((List.range k).map (ringDesc m tx dsize head)).filterMap vecOf) := by
      split
      · exact ih.first _
      · exact ih
    rw [hLast]
    exact hNext.addVec _

theorem completed_hasVecs (k : Nat) : HasVecs (completed m tx dsize head k)
    ((packetDescs m tx dsize head k).filterMap vecOf) := by
  have hBefore := @gathered_hasVecs m tx dsize head k
  have hLast : [ringDesc m tx dsize head k].filterMap vecOf =
      (vecOf (ringDesc m tx dsize head k)).toList := by
    cases hVec : vecOf (ringDesc m tx dsize head k) <;> simp [hVec]
  rw [packetDescs, List.range_succ, List.map_append, List.map_singleton, List.filterMap_append, hLast,
    completed]
  split
  · exact ((hBefore.first _).addVec _).final _ _
  · exact (hBefore.addVec _).final _ _

theorem completed_desc (k : Nat) : (completed m tx dsize head k).desc = k ∧
    (completed m tx dsize head k).head = ringIndex dsize head k := by
  have hFinal : ∀ (p : Packet) (ctx dsc : TxDesc), (p.final ctx dsc).desc = p.desc ∧
      (p.final ctx dsc).head = p.head := by
    intro p ctx dsc
    unfold Packet.final
    split
    · split <;> exact ⟨rfl, rfl⟩
    · exact ⟨rfl, rfl⟩
  obtain ⟨hDesc, hHead, -⟩ := @gathered_frame m tx dsize head k
  unfold completed
  rw [(hFinal _ _ _).1, (hFinal _ _ _).2, (addVec_frame _ _).1, (addVec_frame _ _).2.1]
  split
  · rw [(first_frame _ _).1, (first_frame _ _).2]
    exact ⟨hDesc, hHead⟩
  · exact ⟨hDesc, hHead⟩

/-- A packet that the loop completes is made of the descriptors up to the one with EOP. -/
theorem scanDescs_packet {tail fuel : Nat} {p : Packet} {dsc : TxDesc}
    (h : scanDescs m tx tail dsize fuel (Packet.start head) = .ok (.packet p dsc)) :
    ∃ k < fuel, (∀ j < k, GoesOn m tx tail dsize head j) ∧ p = completed m tx dsize head k ∧
      dsc = ringDesc m tx dsize head k ∧ dsc.cmd E1000_TXD_CMD_EOP = true ∧
      ringIndex dsize head k ≠ tail := by
  obtain ⟨k, hk, hBefore, hEnd, hScan⟩ | ⟨-, hScan⟩ := scanDescs_cases m tx tail dsize head fuel
  · rw [h] at hScan
    refine ⟨k, hk, hBefore, ?_⟩
    unfold endsAt at hScan
    dsimp only at hScan
    split at hScan
    · cases hScan
    next hTail =>
    split at hScan
    · cases hScan
    next hContext =>
    split at hScan
    · next hType =>
      obtain ⟨⟩ := hScan
      refine ⟨rfl, rfl, ?_, hTail⟩
      by_contra hEop
      refine hEnd ⟨hTail, ?_, ?_, Bool.not_eq_true _ ▸ hEop⟩
      · rintro rfl hC
        exact hContext ⟨rfl, hC⟩
      · intro hLater
        exact hType.resolve_left hLater
    · cases hScan
  · rw [h] at hScan
    cases hScan

end Vectors

section Fcs

variable {m : Memory} {tx : Tx} {dsize head tail : Nat}

def packetLen (descs : List TxDesc) : Nat := (descs.map TxDesc.bufLen).sum

def packetBytes (m : Memory) (descs : List TxDesc) : List (BitVec 8) :=
  descs.flatMap fun dsc => m.bytes (paddrGuest2host (le64toh dsc.addr)) dsc.bufLen

theorem packetBytes_length (m : Memory) (descs : List TxDesc) :
    (packetBytes m descs).length = packetLen descs := by
  simp [packetBytes, packetLen, List.length_flatMap, Memory.bytes_length]

theorem bufLen_lt (dsc : TxDesc) : dsc.bufLen < 2 ^ 20 := by
  unfold TxDesc.bufLen
  split
  · have := dsc.flagsLength.isLt
    omega
  · rw [BitVec.toNat_and]
    exact Nat.and_lt_two_pow _ (by decide)

theorem sizeT_natCast {n : Nat} (hn : n < 2 ^ 64) : sizeT n = n := by
  unfold sizeT
  omega

/-- The vector of a descriptor that does not end a packet without FCS is its whole buffer. -/
theorem vecOf_whole {dsc : TxDesc}
    (hKeep : ¬ (dsc.cmd E1000_TXD_CMD_EOP = true ∧ dsc.cmd E1000_TXD_CMD_IFCS = false)) :
    vecOf dsc = if dsc.bufLen = 0 then none
      else some ⟨paddrGuest2host (le64toh dsc.addr), dsc.bufLen⟩ := by
  have hLt := bufLen_lt dsc
  have hSize : sizeT dsc.bufLen = dsc.bufLen := sizeT_natCast (by omega)
  unfold vecOf
  rw [if_neg hKeep]
  dsimp only
  rw [hSize]

theorem vecOf_totalLen {dsc : TxDesc}
    (hKeep : ¬ (dsc.cmd E1000_TXD_CMD_EOP = true ∧ dsc.cmd E1000_TXD_CMD_IFCS = false)) :
    totalLen (vecOf dsc).toList = dsc.bufLen := by
  rw [vecOf_whole hKeep]
  split
  · next hEmpty => exact hEmpty.symm
  · rfl

theorem totalLen_append (xs ys : List Iovec) : totalLen (xs ++ ys) = totalLen xs + totalLen ys := by
  rw [totalLen, List.map_append, List.sum_append]
  rfl

def strippedLen (dsc : TxDesc) : Nat := if dsc.bufLen = 0 then 0 else sizeT (dsc.bufLen - 2)

theorem vecOf_stripped {dsc : TxDesc} (hEop : dsc.cmd E1000_TXD_CMD_EOP = true)
    (hIfcs : dsc.cmd E1000_TXD_CMD_IFCS = false) :
    totalLen (vecOf dsc).toList = strippedLen dsc := by
  unfold vecOf strippedLen
  split
  · rfl
  · rw [if_pos ⟨hEop, hIfcs⟩]
    rfl

/-- Two bytes go, none if there are none, and all too many if there is one. -/
theorem strippedLen_ne (dsc : TxDesc) {before : Nat} (hLong : 4 ≤ before + dsc.bufLen) :
    before + strippedLen dsc ≠ before + dsc.bufLen - 4 := by
  have hLt := bufLen_lt dsc
  unfold strippedLen sizeT
  split <;> omega

theorem strippedLen_le_iff (dsc : TxDesc) : strippedLen dsc ≤ dsc.bufLen ↔ dsc.bufLen ≠ 1 := by
  have hLt := bufLen_lt dsc
  unfold strippedLen sizeT
  split <;> omega

variable (m tx dsize head) in
theorem packetDescs_dropLast (k : Nat) : packetDescs m tx dsize head k =
    (List.range k).map (ringDesc m tx dsize head) ++ [ringDesc m tx dsize head k] := by
  rw [packetDescs, List.range_succ, List.map_append]
  rfl

theorem filterMap_totalLen {descs : List TxDesc}
    (hKeep : ∀ dsc ∈ descs, ¬ (dsc.cmd E1000_TXD_CMD_EOP = true ∧
      dsc.cmd E1000_TXD_CMD_IFCS = false)) :
    totalLen (descs.filterMap vecOf) = packetLen descs := by
  induction descs with
  | nil => rfl
  | cons dsc descs ih =>
    have hRest := ih fun d hd => hKeep d (List.mem_cons_of_mem _ hd)
    have hFirst := vecOf_totalLen (hKeep dsc List.mem_cons_self)
    rw [packetLen, List.map_cons, List.sum_cons, List.filterMap_cons]
    cases hVec : vecOf dsc with
    | none =>
      rw [hVec] at hFirst
      exact hRest.trans (by rw [← hFirst]; simp [packetLen, totalLen])
    | some v =>
      rw [hVec] at hFirst
      dsimp only
      rw [totalLen_cons, hRest, ← hFirst]
      rfl

/-- The FCS that the guest supplies is taken off, and no vector is longer than its buffer. -/
structure FcsStripped (m : Memory) (descs : List TxDesc) (p : Packet) (dsc : TxDesc) : Prop where
  stripped : dsc.cmd E1000_TXD_CMD_IFCS = false → 4 ≤ packetLen descs →
    p.iovcnt ≤ I82545_MAX_TXSEGS →
    content m p.iov = (packetBytes m descs).take (packetLen descs - 4)
  bounded : ∀ d ∈ descs, ∀ v, vecOf d = some v → v.iovLen ≤ d.bufLen

theorem vecOf_bounded_iff {dsc : TxDesc} : (∀ v, vecOf dsc = some v → v.iovLen ≤ dsc.bufLen) ↔
    ¬ (dsc.cmd E1000_TXD_CMD_EOP = true ∧ dsc.cmd E1000_TXD_CMD_IFCS = false ∧ dsc.bufLen = 1) := by
  by_cases hStrip : dsc.cmd E1000_TXD_CMD_EOP = true ∧ dsc.cmd E1000_TXD_CMD_IFCS = false
  · have hLen := strippedLen_le_iff dsc
    unfold strippedLen at hLen
    unfold vecOf
    rw [if_pos hStrip]
    by_cases hEmpty : dsc.bufLen = 0
    · simp [hEmpty]
    · rw [if_neg hEmpty] at hLen ⊢
      constructor
      · intro h hOne
        exact hLen.mp (h _ rfl) hOne.2.2
      · rintro h v ⟨rfl⟩
        exact hLen.mpr fun hOne => h ⟨hStrip.1, hStrip.2, hOne⟩
  · refine iff_of_true ?_ fun h => hStrip ⟨h.1, h.2.1⟩
    rw [vecOf_whole hStrip]
    intro v hv
    split at hv
    · cases hv
    · obtain ⟨⟩ := hv
      exact Nat.le_refl _

/-- The code takes two bytes off the last descriptor and not four off the packet, so that it is
right only where it takes nothing off. -/
theorem fcs_stripped_iff {p : Packet} {dsc : TxDesc}
    (hScan : scanDescs m tx tail dsize (dsize + 1) (Packet.start head) = .ok (.packet p dsc)) :
    FcsStripped m (packetDescs m tx dsize head p.desc) p dsc ↔
      dsc.cmd E1000_TXD_CMD_IFCS = true ∨ dsc.bufLen ≠ 1 ∧
        (packetLen (packetDescs m tx dsize head p.desc) < 4 ∨ I82545_MAX_TXSEGS < p.iovcnt) := by
  obtain ⟨k, -, hBefore, rfl, rfl, hEop, -⟩ := scanDescs_packet hScan
  obtain ⟨hIov, hCount⟩ := @completed_hasVecs m tx dsize head k
  rw [(@completed_desc m tx dsize head k).1]
  have hEarlier : ∀ d ∈ (List.range k).map (ringDesc m tx dsize head),
      d.cmd E1000_TXD_CMD_EOP = false := by
    intro d hd
    obtain ⟨j, hj, rfl⟩ := List.mem_map.mp hd
    exact (hBefore j (List.mem_range.mp hj)).eop
  have hSplit := packetDescs_dropLast m tx dsize head k
  generalize hLast : ringDesc m tx dsize head k = dsc at hEop hSplit
  constructor
  · intro h
    by_contra hNot
    obtain ⟨hIfcs, hNot⟩ := not_or.mp hNot
    have hIfcs : dsc.cmd E1000_TXD_CMD_IFCS = false := Bool.not_eq_true _ ▸ hIfcs
    have hMem : dsc ∈ packetDescs m tx dsize head k := by
      rw [hSplit]
      exact List.mem_append_right _ List.mem_cons_self
    have hOne : dsc.bufLen ≠ 1 :=
      fun hOne => vecOf_bounded_iff.mp (h.bounded dsc hMem) ⟨hEop, hIfcs, hOne⟩
    obtain ⟨hLong, hFew⟩ := not_or.mp fun hShort => hNot ⟨hOne, hShort⟩
    have hContent := congrArg List.length
      (h.stripped hIfcs (Nat.le_of_not_lt hLong) (Nat.le_of_not_lt hFew))
    rw [content_length, hIov, List.take_of_length_le (by rw [← hCount]; exact Nat.le_of_not_lt hFew),
      List.length_take, packetBytes_length, Nat.min_eq_left (Nat.sub_le _ _), hSplit,
      List.filterMap_append, totalLen_append, filterMap_totalLen fun d hd hStrip => by
        rw [hEarlier d hd] at hStrip
        cases hStrip.1] at hContent
    have hVec : [dsc].filterMap vecOf = (vecOf dsc).toList := by
      cases hVec : vecOf dsc <;> simp [hVec]
    rw [hVec, vecOf_stripped hEop hIfcs] at hContent
    have hSum : packetLen ((List.range k).map (ringDesc m tx dsize head) ++ [dsc]) =
        packetLen ((List.range k).map (ringDesc m tx dsize head)) + dsc.bufLen := by
      simp [packetLen]
    rw [hSplit, hSum] at hLong
    rw [hSum] at hContent
    exact strippedLen_ne dsc (Nat.le_of_not_lt hLong) hContent
  · intro h
    constructor
    · intro hIfcs hLong hFew
      rcases h with hKeep | ⟨-, hShort | hMany⟩
      · rw [hIfcs] at hKeep
        cases hKeep
      · exact absurd hLong (Nat.not_le.mpr hShort)
      · exact absurd hFew (Nat.not_le.mpr hMany)
    · intro d hd
      rw [hSplit] at hd
      apply vecOf_bounded_iff.mpr
      rintro ⟨hEnd, hIfcs, hOne⟩
      rcases List.mem_append.mp hd with hOld | hNew
      · rw [hEarlier d hOld] at hEnd
        cases hEnd
      · obtain rfl := List.mem_singleton.mp hNew
        rcases h with hKeep | ⟨hNe, -⟩
        · rw [hIfcs] at hKeep
          cases hKeep
        · exact hNe hOne

theorem fcs_stripped_iff_ifcs : ∃ p dsc, FcsStripped (ringMemory (legacyDesc 60 0 0x03))
    (packetDescs (ringMemory (legacyDesc 60 0 0x03)) (ringTx ⟨0, 0, 0⟩) 8 0 0) p dsc := by
  have hScan : scanDescs (ringMemory (legacyDesc 60 0 0x03)) (ringTx ⟨0, 0, 0⟩) 1 8 9
      (Packet.start 0) = .ok (.packet
        ⟨0, 0, 0, [⟨MIPS_XKPHYS_UNCACHED_BASE, 60⟩], 1, ⟨false, 0, 0, 0⟩, ⟨false, 0, 0, 0⟩, false⟩
        ⟨0, 0x3C000003, 0⟩) := by decide +kernel
  exact ⟨_, _, (fcs_stripped_iff hScan).mpr (.inl (by decide))⟩

/-- Of 60 bytes with the FCS of the guest, 58 are sent. -/
theorem fcs_halfStripped : ¬ ∀ (m : Memory) (tx : Tx) (tail dsize head : Nat) (p : Packet)
    (dsc : TxDesc),
    scanDescs m tx tail dsize (dsize + 1) (Packet.start head) = .ok (.packet p dsc) →
    FcsStripped m (packetDescs m tx dsize head p.desc) p dsc := by
  intro hAll
  have hScan : scanDescs (ringMemory (legacyDesc 60 0 0x01)) (ringTx ⟨0, 0, 0⟩) 1 8 9
      (Packet.start 0) = .ok (.packet
        ⟨0, 0, 0, [⟨MIPS_XKPHYS_UNCACHED_BASE, 58⟩], 1, ⟨false, 0, 0, 0⟩, ⟨false, 0, 0, 0⟩, false⟩
        ⟨0, 0x3C000001, 0⟩) := by decide +kernel
  have hLen : packetLen (packetDescs (ringMemory (legacyDesc 60 0 0x01)) (ringTx ⟨0, 0, 0⟩) 8 0 0) =
      60 := by decide +kernel
  have hStripped := (hAll _ _ 1 8 0 _ _ hScan).stripped (by decide) (by rw [hLen]; decide) (by decide)
  have hBytes := congrArg List.length hStripped
  rw [content_length, List.length_take, packetBytes_length, hLen] at hBytes
  exact absurd hBytes (by decide)

end Fcs

end DeviceModel.E82545

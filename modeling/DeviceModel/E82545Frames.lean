import DeviceModel.E82545Checksum
import DeviceModel.E82545SegmentFrames

/-!
# The e1000 network device: checksums in the frames that are sent

A checksum is stored into the field that its offset names, over what the driver left there.
With that seed the bytes it covers then add up to all ones, so that a receiver accepts them.
-/

set_option autoImplicit false

namespace DeviceModel.E82545

open Fallible OnesComplement

section Field

variable {ck : CkInfo} {frame : List (BitVec 8)} {m : Memory}

def ckLength (ck : CkInfo) : Int :=
  if ck.ckLen ≠ 0 then ck.ckLen.toNat - ck.ckStart.toNat + 1 else INT_MAX

def covered (ck : CkInfo) (frame : List (BitVec 8)) : List (BitVec 8) :=
  (frame.drop ck.ckStart.toNat).take (ckLength ck).toNat

/-- The field lies in what the checksum covers, at an even distance from its start. -/
structure FieldCovered (ck : CkInfo) : Prop where
  start : ck.ckStart.toNat ≤ ck.ckOff.toNat
  even : (ck.ckOff.toNat - ck.ckStart.toNat) % 2 = 0
  stop : ck.ckOff.toNat + 2 ≤ ck.ckStart.toNat + (ckLength ck).toNat

/-- The sum of what is covered and of the seed is all ones. -/
def ChecksumHolds (ck : CkInfo) (seed : BitVec 16) (frame : List (BitVec 8)) : Prop :=
  endAround (onesSum (words (covered ck frame))) seed = BitVec.allOnes 16

theorem exists_split {off : Nat} (hRoom : off + 2 ≤ frame.length) :
    ∃ as a b bs, frame = as ++ a :: b :: bs ∧ as.length = off := by
  refine ⟨frame.take off, frame[off], frame[off + 1], frame.drop (off + 2), ?_, ?_⟩
  · rw [← List.drop_eq_getElem_cons (by omega), ← List.drop_eq_getElem_cons (by omega),
      List.take_append_drop]
  · rw [List.length_take]
    omega

theorem put16_split (as bs : List (BitVec 8)) (a b : BitVec 8) (x : BitVec 16) :
    put16 (as ++ a :: b :: bs) as.length x = as ++ x.extractLsb' 8 8 :: x.extractLsb' 0 8 :: bs := by
  simp [put16]

theorem get16_split (as bs : List (BitVec 8)) (a b : BitVec 8) :
    get16 (as ++ a :: b :: bs) as.length = a ++ b := by
  simp [get16, List.getD_eq_getElem?_getD]

theorem covered_split (hField : FieldCovered ck) {as : List (BitVec 8)}
    (hOff : as.length = ck.ckOff.toNat) (a b : BitVec 8) (bs : List (BitVec 8)) :
    covered ck (as ++ a :: b :: bs) = as.drop ck.ckStart.toNat ++
      a :: b :: bs.take ((ckLength ck).toNat - (as.length - ck.ckStart.toNat) - 2) := by
  have hStart := hField.start
  have hStop := hField.stop
  have hLen : (as.drop ck.ckStart.toNat).length = as.length - ck.ckStart.toNat := List.length_drop
  obtain ⟨left, hLeft⟩ : ∃ left, (ckLength ck).toNat - (as.length - ck.ckStart.toNat) = left + 2 :=
    ⟨(ckLength ck).toNat - (as.length - ck.ckStart.toNat) - 2, by omega⟩
  rw [covered, List.drop_append_of_le_length (by omega), List.take_append, hLen, hLeft,
    List.take_of_length_le (by omega)]
  rfl

/-- The sum that the code computes stands for the total of what it covers. -/
theorem iovChecksum_same {iov : List (List (BitVec 8))} (hCount : iov.length ≤ 66)
    (hShort : ∀ v ∈ iov, v.length ≤ 131072) (off : Nat) (len : Int) :
    Same (2 ^ 16 - 1) (e82545IovChecksum iov off len).toNat
      (weight false ((iov.flatten.drop off).take len.toNat)) := by
  obtain ⟨hBytes, hHead, hSuffix⟩ := skipVecs_spec iov off
  have hParts : ∀ c ∈ summedChunks iov off len, c.length ≤ 131072 :=
    chunks_short (fun v hMem => hShort v (hSuffix.subset hMem)) _ len
  have hLen := chunks_length (skipVecs iov off).1 (skipVecs iov off).2 len
  have hFew := hSuffix.length_le
  have hVectors : Accumulates (sumVecs (skipVecs iov off).1 (skipVecs iov off).2 len false 0)
      (addends false (summedChunks iov off len)) := by
    rw [sumVecs_eq, zero_add]
    exact accumulates_of_le (addends_le _ _) (by rw [addends_length]; omega)
  have hTotal := addends_same hParts false
  rw [summedChunks, chunks_flatten hHead, hBytes] at hTotal
  apply (e82545Carry_same _).trans
  rw [hVectors.toNat]
  exact hTotal

/-- What `e82545_transmit_checksum` stores makes the checksum hold, with what was in the field. -/
theorem checksum_holds {hdr : List (BitVec 8)} {vecs : List Iovec} (hCount : vecs.length ≤ 65)
    (hShort : ∀ v ∈ vecs, v.iovLen ≤ 131072) (hLen : hdr.length ≤ 131072)
    (hRoom : ck.ckOff.toNat + 2 ≤ hdr.length) (hField : FieldCovered ck) :
    ChecksumHolds ck (get16 hdr ck.ckOff.toNat)
      (put16 hdr ck.ckOff.toNat (~~~(e82545IovChecksum (hdr :: vecs.map (·.load m))
        ck.ckStart.toNat (ckLength ck))) ++ content m vecs) := by
  obtain ⟨as, a, b, bs, rfl, hOff⟩ := exists_split hRoom
  have hEven : (as.drop ck.ckStart.toNat).length % 2 = 0 := by
    rw [List.length_drop, hOff]
    exact hField.even
  have hFlat : ((as ++ a :: b :: bs) :: vecs.map (·.load m)).flatten =
      as ++ a :: b :: (bs ++ content m vecs) := by
    rw [List.flatten_cons, ← List.flatMap_def, List.append_assoc]
    rfl
  have hSum : e82545IovChecksum ((as ++ a :: b :: bs) :: vecs.map (·.load m)) ck.ckStart.toNat
      (ckLength ck) = onesSum (words (covered ck (as ++ a :: b :: (bs ++ content m vecs)))) := by
    apply eq_onesSum (by decide)
    rw [sum_words, covered, ← hFlat]
    apply iovChecksum_same
    · rw [List.length_cons, List.length_map]
      omega
    · intro v hv
      rcases List.mem_cons.mp hv with rfl | hv
      · exact hLen
      · obtain ⟨w, hw, rfl⟩ := List.mem_map.mp hv
        rw [Iovec_load_length]
        exact hShort w hw
  rw [hSum, ← hOff, put16_split, get16_split, ChecksumHolds, List.append_assoc]
  change endAround (onesSum (words (covered ck (as ++ _ :: _ :: (bs ++ content m vecs))))) _ = _
  rw [covered_split hField hOff, covered_split hField hOff]
  exact onesSum_complement hEven (append_extract _)

theorem put16_append {hdr : List (BitVec 8)} {off : Nat} (rest : List (BitVec 8)) (x : BitVec 16)
    (hRoom : off + 2 ≤ hdr.length) : put16 hdr off x ++ rest = put16 (hdr ++ rest) off x := by
  rw [put16, put16, List.set_append_left _ _ (by omega),
    List.set_append_left _ _ (by rw [List.length_set]; omega)]

theorem getD_append {hdr rest : List (BitVec 8)} {i : Nat} (hRoom : i < hdr.length) :
    (hdr ++ rest).getD i 0 = hdr.getD i 0 := by
  rw [List.getD_eq_getElem?_getD, List.getD_eq_getElem?_getD, List.getElem?_append_left hRoom]

theorem get16_append {hdr : List (BitVec 8)} {off : Nat} (rest : List (BitVec 8))
    (hRoom : off + 2 ≤ hdr.length) : get16 (hdr ++ rest) off = get16 hdr off :=
  get16_congr fun _ _ hTo => getD_append (by omega)

def OutOf (ck : CkInfo) (off : Nat) : Prop :=
  off + 2 ≤ ck.ckStart.toNat ∨ ck.ckStart.toNat + (ckLength ck).toNat ≤ off

theorem covered_put16 {off : Nat} (x : BitVec 16) (hOut : OutOf ck off) :
    covered ck (put16 frame off x) = covered ck frame := by
  apply List.ext_getElem?
  intro i
  rw [covered, covered, List.getElem?_take, List.getElem?_take]
  split
  · next hLess =>
    rw [List.getElem?_drop, List.getElem?_drop, put16]
    unfold OutOf at hOut
    rw [List.getElem?_set_ne (by omega), List.getElem?_set_ne (by omega)]
  · rfl

end Field

section Vecs

/-- As many vectors as `e82545_transmit` takes, none longer than the sum of 16 bits has room for. -/
structure VecsSmall (iov : List Iovec) : Prop where
  few : iov.length ≤ I82545_MAX_TXSEGS
  short : ∀ v ∈ iov, v.iovLen ≤ 131072

theorem splitVecs_small {iov : List Iovec} (h : VecsSmall iov) (n : Nat) :
    VecsSmall (splitVecs n iov).1 ∧ VecsSmall (splitVecs n iov).2 := by
  have hParts : ∀ n, (splitVecs n iov).1.length ≤ iov.length ∧
      (splitVecs n iov).2.length ≤ iov.length ∧
      (∀ v ∈ (splitVecs n iov).1, v.iovLen ≤ 131072) ∧
      ∀ v ∈ (splitVecs n iov).2, v.iovLen ≤ 131072 := by
    have hShort := h.short
    clear h
    induction iov with
    | nil => intro n; cases n <;> simp [splitVecs]
    | cons v vs ih =>
      intro n
      have hFirst := hShort v List.mem_cons_self
      have hOthers := fun w hw => hShort w (List.mem_cons_of_mem v hw)
      cases n with
      | zero => exact ⟨Nat.zero_le _, Nat.le_refl _, by simp [splitVecs], hShort⟩
      | succ left =>
        rw [splitVecs]
        split
        · refine ⟨Nat.succ_le_succ (Nat.zero_le _), Nat.le_refl _, ?_, ?_⟩
          · simp only [List.mem_singleton, forall_eq]
            omega
          · intro w hw
            rcases List.mem_cons.mp hw with rfl | hw
            · exact (Nat.sub_le _ _).trans hFirst
            · exact hOthers w hw
        · obtain ⟨hNow, hRest, hNowShort, hRestShort⟩ := ih hOthers (left + 1 - v.iovLen)
          refine ⟨Nat.succ_le_succ hNow, Nat.le_succ_of_le hRest, ?_, hRestShort⟩
          intro w hw
          rcases List.mem_cons.mp hw with rfl | hw
          · exact hFirst
          · exact hNowShort w hw
  obtain ⟨hNow, hRest, hNowShort, hRestShort⟩ := hParts n
  exact ⟨⟨hNow.trans h.few, hNowShort⟩, ⟨hRest.trans h.few, hRestShort⟩⟩

variable {m : Memory} {tx : Tx} {p : Packet} {dsc : TxDesc} {tail dsize head : Nat}

theorem gatherHeader_small {hdrlen : Nat} {iov rest : List Iovec} {hdr : Option (List (BitVec 8))}
    (hSmall : VecsSmall iov) (h : gatherHeader m hdrlen iov = .ok (hdr, rest)) : VecsSmall rest := by
  unfold gatherHeader at h
  split at h
  · obtain ⟨⟩ := h
    exact hSmall
  · obtain ⟨_, -, h⟩ := bind_eq_ok_iff.mp h
    obtain ⟨⟩ := h
    exact (splitVecs_small hSmall hdrlen).2

theorem packet_small
    (hScan : scanDescs m tx tail dsize (dsize + 1) (Packet.start head) = .ok (.packet p dsc))
    (hFew : p.iovcnt ≤ I82545_MAX_TXSEGS) (hIfcs : dsc.cmd E1000_TXD_CMD_IFCS = true)
    (hShort : ∀ d ∈ packetDescs m tx dsize head p.desc, d.bufLen ≤ 131072) : VecsSmall p.iov := by
  obtain ⟨hIov, hCount, hKeep⟩ := packet_vecs hScan hFew hIfcs
  constructor
  · rw [← hCount]
    exact hFew
  · intro v hv
    rw [hIov] at hv
    obtain ⟨d, hd, hVec⟩ := List.mem_filterMap.mp hv
    rw [vecOf_whole (hKeep d hd)] at hVec
    split at hVec
    · cases hVec
    · obtain ⟨⟩ := hVec
      exact hShort d hd

end Vecs

section Plain

variable {m : Memory} {tx : Tx} {general : General} {p : Packet} {dsc : TxDesc}
  {tail dsize head : Nat}

def stored (m : Memory) (hdr : List (BitVec 8)) (vecs : List Iovec) (ck : CkInfo) : List (BitVec 8) :=
  if ck.ckValid then put16 hdr ck.ckOff.toNat (~~~(e82545IovChecksum (hdr :: vecs.map (·.load m))
    ck.ckStart.toNat (ckLength ck)))
  else hdr

theorem stored_length (hdr : List (BitVec 8)) (vecs : List Iovec) (ck : CkInfo) :
    (stored m hdr vecs ck).length = hdr.length := by
  unfold stored
  split
  · exact put16_length _ _ _
  · rfl

theorem stored_getD {hdr : List (BitVec 8)} {vecs : List Iovec} {ck : CkInfo} {i : Nat}
    (hApart : ¬ TsoInfo.CkField ck i) : (stored m hdr vecs ck).getD i 0 = hdr.getD i 0 := by
  unfold stored
  split
  · next hValid =>
    have hNe : ¬ (i = ck.ckOff.toNat ∨ i = ck.ckOff.toNat + 1) := fun h => hApart ⟨hValid, h⟩
    exact put16_getD _ (by omega) (by omega)
  · rfl

theorem transmitPlain_ok {ck0 ck1 : CkInfo} {hdr : Option (List (BitVec 8))} {iov : List Iovec}
    {frames : List (List (List (BitVec 8)))} (h : transmitPlain m ck0 ck1 hdr iov = .ok frames) :
    ∃ frame, frames = [frame] ∧ frame.flatten =
      stored m (stored m (hdr.getD []) iov ck0) iov ck1 ++ content m iov := by
  have hStored : ∀ hdr hdr' ck, (if CkInfo.ckValid ck then e82545TransmitChecksum m hdr iov ck
      else .ok hdr) = .ok hdr' → hdr' = stored m hdr iov ck := by
    intro hdr hdr' ck hOk
    unfold stored
    split at hOk
    · next hValid =>
      rw [if_pos hValid]
      obtain ⟨_, -, hOk⟩ := bind_eq_ok_iff.mp hOk
      obtain ⟨⟩ := hOk
      rfl
    · next hNot =>
      obtain ⟨⟩ := hOk
      rw [if_neg hNot]
  cases hdr with
  | none =>
    obtain ⟨⟩ := h
    have hEmpty : ∀ ck, stored m [] iov ck = [] :=
      fun ck => List.eq_nil_of_length_eq_zero (stored_length [] iov ck)
    refine ⟨_, rfl, ?_⟩
    rw [Option.getD_none, hEmpty, hEmpty]
    exact List.flatMap_def.symm
  | some hdr =>
    obtain ⟨hdr', hFirst, h⟩ := bind_eq_ok_iff.mp h
    obtain ⟨hdr'', hSecond, h⟩ := bind_eq_ok_iff.mp h
    obtain ⟨⟩ := h
    refine ⟨_, rfl, ?_⟩
    rw [List.flatten_cons, ← List.flatMap_def, hStored _ _ _ hSecond, hStored _ _ _ hFirst]
    rfl

theorem withTag_append {vlan : Bool} {vet : BitVec 32} {special : BitVec 16} {as : List (BitVec 8)}
    (bs : List (BitVec 8)) (hRoom : vlan = true → 12 ≤ as.length) :
    withTag vlan vet special (as ++ bs) = withTag vlan vet special as ++ bs := by
  cases vlan with
  | false => rfl
  | true =>
    have hLen := hRoom rfl
    simp [withTag, List.take_append_of_le_length hLen, List.drop_append_of_le_length hLen]

theorem withTag_length {vlan : Bool} {vet : BitVec 32} {special : BitVec 16} {as : List (BitVec 8)}
    (hRoom : vlan = true → 12 ≤ as.length) :
    (withTag vlan vet special as).length = as.length + if vlan then 4 else 0 := by
  cases vlan with
  | false => rfl
  | true =>
    have hLen := hRoom rfl
    simp only [withTag, if_true, List.length_append, List.length_take, List.length_cons,
      List.length_nil, List.length_drop]
    omega

theorem headerLen_short {vlan : Bool} {ctx : TxDesc} (hPlain : p.tso = false) :
    headerLen p vlan ctx ≤ 357 := by
  have hNeeded : neededLen p vlan ≤ 257 := by
    have hOff0 := p.ck0.ckOff.isLt
    have hOff1 := p.ck1.ckOff.isLt
    exact neededLen_le_iff.mpr ⟨fun _ => by decide, fun _ => by omega, fun _ => by omega⟩
  unfold headerLen
  rw [if_neg (Bool.eq_false_iff.mp hPlain)]
  change (if neededLen p vlan ≠ 0 ∧ neededLen p vlan < (p.iov.head?.map (·.iovLen)).getD 0 ∧
    (p.iov.head?.map (·.iovLen)).getD 0 < neededLen p vlan + 100 then
    (p.iov.head?.map (·.iovLen)).getD 0 else neededLen p vlan) ≤ 357
  split
  · next hRound => omega
  · omega

/-- A frame before its checksums are stored: a header that has their fields, and the vectors
behind it. -/
structure PlainParts (m : Memory) (vecs : List Iovec) (bytes : List (BitVec 8)) (ck0 ck1 : CkInfo)
    (hdr : List (BitVec 8)) (iov : List Iovec) : Prop where
  whole : bytes = hdr ++ content m iov
  room0 : ck0.ckValid = true → ck0.ckOff.toNat + 2 ≤ hdr.length
  room1 : ck1.ckValid = true → ck1.ckOff.toNat + 2 ≤ hdr.length
  length : hdr.length ≤ 361
  small : VecsSmall vecs → VecsSmall iov

theorem transmitPacket_plain {frames : List (List (List (BitVec 8)))} (hPlain : p.tso = false)
    (hFew : p.iovcnt ≤ I82545_MAX_TXSEGS) (h : transmitPacket m tx general p dsc = .ok frames) :
    ∃ hdr iov frame,
      PlainParts m p.iov (withTag (tagged general dsc) general.vet dsc.fieldsSpecial (content m p.iov))
        (usedCk (tagged general dsc) p.ck0) (usedCk (tagged general dsc) p.ck1) hdr iov ∧
      frames = [frame] ∧ frame.flatten = stored m (stored m hdr iov (usedCk (tagged general dsc) p.ck0)) iov
        (usedCk (tagged general dsc) p.ck1) ++ content m iov := by
  obtain ⟨hdr, iov, hdr', hGather, hInsert, hSent⟩ := transmitPacket_ok hFew h
  rw [if_neg (Bool.eq_false_iff.mp hPlain)] at hSent
  obtain ⟨frame, hFrames, hFrame⟩ := transmitPlain_ok hSent
  obtain ⟨hTake, hDrop, hEnough⟩ := gatherHeader_ok hGather
  obtain ⟨hNeeded, -⟩ := @headerLen_plain p (tagged general dsc) tx.txctx hPlain
  have hLen : (hdr.getD []).length = headerLen p (tagged general dsc) tx.txctx := by
    rw [hTake, List.length_take, content_length]
    exact Nat.min_eq_left hEnough
  obtain ⟨hTag, hCk0, hCk1⟩ := neededLen_le_iff.mp (hNeeded.trans (Nat.le_of_eq hLen.symm))
  rw [insertVlan_ok hInsert] at hFrame
  refine ⟨_, iov, frame, ⟨?_, ?_, ?_, ?_, ?_⟩, hFrames, hFrame⟩
  · rw [← withTag_append _ hTag, hDrop, hTake, List.take_append_drop]
  · rw [withTag_length hTag]
    exact usedCk_room hCk0 (Nat.le_refl _)
  · rw [withTag_length hTag]
    exact usedCk_room hCk1 (Nat.le_refl _)
  · rw [withTag_length hTag, hLen]
    have hShort := @headerLen_short p (tagged general dsc) tx.txctx hPlain
    split <;> omega
  · exact fun hSmall => gatherHeader_small hSmall hGather

/-- The frame of a packet that is sent as it is: its bytes, with the tag, but for the checksums. -/
structure PlainFrame (ck0 ck1 : CkInfo) (bytes sent : List (BitVec 8)) : Prop where
  length : sent.length = bytes.length
  same : ∀ i, ¬ TsoInfo.CkField ck0 i → ¬ TsoInfo.CkField ck1 i → sent.getD i 0 = bytes.getD i 0

def taggedBytes (m : Memory) (tx : Tx) (dsize head : Nat) (general : General) (p : Packet)
    (dsc : TxDesc) : List (BitVec 8) :=
  withTag (tagged general dsc) general.vet dsc.fieldsSpecial
    (packetBytes m (packetDescs m tx dsize head p.desc))

theorem plain_sendsBytes {t : Transmitted} {tdwb : Bool}
    (hScan : scanDescs m tx tail dsize (dsize + 1) (Packet.start head) = .ok (.packet p dsc))
    (hPlain : p.tso = false) (hFew : p.iovcnt ≤ I82545_MAX_TXSEGS)
    (hIfcs : dsc.cmd E1000_TXD_CMD_IFCS = true)
    (hSent : e82545Transmit m tx tail dsize general head tdwb = .ok t) :
    ∃ frame, t.frames = [frame] ∧ PlainFrame (usedCk (tagged general dsc) p.ck0)
      (usedCk (tagged general dsc) p.ck1) (taggedBytes m tx dsize head general p dsc)
      frame.flatten := by
  obtain ⟨hdr, iov, frame, hParts, hFrames, hFrame⟩ :=
    transmitPacket_plain hPlain hFew (e82545Transmit_ok hScan hSent)
  have hWhole := hParts.whole
  rw [packet_content hScan hFew hIfcs] at hWhole
  rw [taggedBytes, hWhole]
  refine ⟨frame, hFrames, ?_, ?_⟩
  · rw [hFrame, List.length_append, List.length_append, stored_length,
      stored_length]
  · intro i hNot0 hNot1
    rw [hFrame]
    rcases Nat.lt_or_ge i hdr.length with hIn | hOut
    · rw [getD_append (by rw [stored_length, stored_length]; exact hIn), getD_append hIn,
        stored_getD hNot1, stored_getD hNot0]
    · rw [List.getD_eq_getElem?_getD, List.getD_eq_getElem?_getD,
        List.getElem?_append_right (by rw [stored_length, stored_length]; exact hOut),
        List.getElem?_append_right hOut, stored_length, stored_length]

def checksumPacket : Packet :=
  ⟨0, 0, 0, [⟨MIPS_XKPHYS_UNCACHED_BASE, 60⟩], 1, ⟨true, 0, 50, 0⟩, ⟨false, 0, 0, 0⟩, false⟩

theorem checksumDesc_scan : scanDescs (ringMemory (legacyDesc 60 50 0x07)) (ringTx ⟨0, 0, 0⟩) 1 8 9
    (Packet.start 0) = .ok (.packet checksumPacket ⟨0, 0x3C003207, 0⟩) := by decide +kernel

theorem checksumDesc_sent : ∃ t, e82545Transmit (ringMemory (legacyDesc 60 50 0x07))
    (ringTx ⟨0, 0, 0⟩) 1 8 ringSoftc.general 0 false = .ok t := fault?_eq_none_iff.mp (by decide +kernel)

theorem plain_sendsBytes_one : ∃ (t : Transmitted) (frame : List (List (BitVec 8))),
    t.frames = [frame] ∧ PlainFrame (usedCk (tagged ringSoftc.general ⟨0, 0x3C003207, 0⟩)
      checksumPacket.ck0) (usedCk (tagged ringSoftc.general ⟨0, 0x3C003207, 0⟩) checksumPacket.ck1)
      (taggedBytes (ringMemory (legacyDesc 60 50 0x07)) (ringTx ⟨0, 0, 0⟩) 8 0 ringSoftc.general
        checksumPacket ⟨0, 0x3C003207, 0⟩) frame.flatten := by
  obtain ⟨t, hSent⟩ := checksumDesc_sent
  exact ⟨t, plain_sendsBytes checksumDesc_scan rfl (by decide) (by decide) hSent⟩

/-- Each checksum holds with the seed that the driver left, if its field is one of the words it
covers and the other checksum does not disturb it. -/
structure PlainChecksums (ck0 ck1 : CkInfo) (bytes sent : List (BitVec 8)) : Prop where
  first : ck0.ckValid = true → FieldCovered ck0 →
    (ck1.ckValid = true → OutOf ck0 ck1.ckOff.toNat) →
    ChecksumHolds ck0 (get16 bytes ck0.ckOff.toNat) sent
  second : ck1.ckValid = true → FieldCovered ck1 →
    (ck0.ckValid = true → ck1.ckOff.toNat + 2 ≤ ck0.ckOff.toNat ∨
      ck0.ckOff.toNat + 2 ≤ ck1.ckOff.toNat) →
    ChecksumHolds ck1 (get16 bytes ck1.ckOff.toNat) sent

theorem stored_holds {hdr : List (BitVec 8)} {iov : List Iovec} {ck : CkInfo} (hSmall : VecsSmall iov)
    (hLen : hdr.length ≤ 361) (hValid : ck.ckValid = true) (hRoom : ck.ckOff.toNat + 2 ≤ hdr.length)
    (hField : FieldCovered ck) :
    ChecksumHolds ck (get16 hdr ck.ckOff.toNat) (stored m hdr iov ck ++ content m iov) := by
  unfold stored
  rw [if_pos hValid]
  exact checksum_holds (hSmall.few.trans (by decide)) hSmall.short (by omega) hRoom hField

/-- A checksum stored outside of what another one covers leaves that one as it is. -/
theorem stored_covered {hdr : List (BitVec 8)} {iov : List Iovec} {ck ck' : CkInfo}
    (hRoom : ck'.ckValid = true → ck'.ckOff.toNat + 2 ≤ hdr.length)
    (hOut : ck'.ckValid = true → OutOf ck ck'.ckOff.toNat) (rest : List (BitVec 8)) :
    covered ck (stored m hdr iov ck' ++ rest) = covered ck (hdr ++ rest) := by
  unfold stored
  split
  · next hValid => rw [put16_append _ _ (hRoom hValid), covered_put16 _ (hOut hValid)]
  · rfl

theorem plain_checksumsHold {t : Transmitted} {tdwb : Bool}
    (hScan : scanDescs m tx tail dsize (dsize + 1) (Packet.start head) = .ok (.packet p dsc))
    (hPlain : p.tso = false) (hFew : p.iovcnt ≤ I82545_MAX_TXSEGS)
    (hIfcs : dsc.cmd E1000_TXD_CMD_IFCS = true)
    (hShort : ∀ d ∈ packetDescs m tx dsize head p.desc, d.bufLen ≤ 131072)
    (hSent : e82545Transmit m tx tail dsize general head tdwb = .ok t) :
    ∀ frame ∈ t.frames, PlainChecksums (usedCk (tagged general dsc) p.ck0)
      (usedCk (tagged general dsc) p.ck1) (taggedBytes m tx dsize head general p dsc)
      frame.flatten := by
  obtain ⟨hdr, iov, frame, hParts, hFrames, hFrame⟩ :=
    transmitPacket_plain hPlain hFew (e82545Transmit_ok hScan hSent)
  have hSmall := hParts.small (packet_small hScan hFew hIfcs hShort)
  have hWhole := hParts.whole
  rw [packet_content hScan hFew hIfcs] at hWhole
  have hFirst := stored_length (m := m) hdr iov (usedCk (tagged general dsc) p.ck0)
  rw [hFrames, List.forall_mem_singleton, taggedBytes, hWhole, hFrame]
  generalize usedCk (tagged general dsc) p.ck0 = ck0 at hParts hFirst ⊢
  generalize usedCk (tagged general dsc) p.ck1 = ck1 at hParts ⊢
  constructor
  · intro hValid hField hOut
    rw [ChecksumHolds, stored_covered (by rw [hFirst]; exact hParts.room1) hOut,
      get16_append _ (hParts.room0 hValid)]
    exact stored_holds hSmall hParts.length hValid (hParts.room0 hValid) hField
  · intro hValid hField hApart
    have hSeed : get16 (stored m hdr iov ck0) ck1.ckOff.toNat = get16 hdr ck1.ckOff.toNat := by
      apply get16_congr
      intro i hFrom hTo
      apply stored_getD
      rintro ⟨hValid0, hAt⟩
      have hOther := hApart hValid0
      omega
    rw [get16_append _ (hParts.room1 hValid), ← hSeed]
    exact stored_holds hSmall (by rw [hFirst]; exact hParts.length) hValid
      (by rw [hFirst]; exact hParts.room1 hValid) hField

theorem plain_checksumsHold_one : ∃ t : Transmitted, ∀ frame ∈ t.frames,
    PlainChecksums (usedCk (tagged ringSoftc.general ⟨0, 0x3C003207, 0⟩) checksumPacket.ck0)
      (usedCk (tagged ringSoftc.general ⟨0, 0x3C003207, 0⟩) checksumPacket.ck1)
      (taggedBytes (ringMemory (legacyDesc 60 50 0x07)) (ringTx ⟨0, 0, 0⟩) 8 0 ringSoftc.general
        checksumPacket ⟨0, 0x3C003207, 0⟩) frame.flatten := by
  obtain ⟨t, hSent⟩ := checksumDesc_sent
  exact ⟨t, plain_checksumsHold checksumDesc_scan rfl (by decide) (by decide) (by decide +kernel) hSent⟩

end Plain

section Segmented

variable {m : Memory} {tx : Tx} {general : General} {p : Packet} {dsc : TxDesc}
  {tail dsize head : Nat} {ctx : TxDesc} {ck0 ck1 : CkInfo} {hdr : List (BitVec 8)}
  {iov : List Iovec} {t : TsoInfo} {s : Segments}

/-- The carry of a sum of two words goes round. -/
theorem e82545Carry_add (x y : BitVec 16) :
    e82545Carry (x.setWidth 32 + y.setWidth 32) = endAround x y := by
  have hx := x.isLt
  have hy := y.isLt
  have hSum : (x.setWidth 32 + y.setWidth 32).toNat = x.toNat + y.toNat := by
    rw [BitVec.toNat_add, BitVec.toNat_setWidth, BitVec.toNat_setWidth]
    omega
  have hCarry := e82545Carry_same (x.setWidth 32 + y.setWidth 32)
  rw [hSum] at hCarry
  apply BitVec.eq_of_toNat_eq
  exact (hCarry.trans (endAround_same (by decide) x y).symm).eq (Nat.le_sub_one_of_lt (BitVec.isLt _))
    (Nat.le_sub_one_of_lt (BitVec.isLt _))

theorem seeded_eq (hdr : List (BitVec 8)) (vecs : List Iovec) {ck : CkInfo} (seed : BitVec 16)
    (hValid : ck.ckValid = true) :
    TsoInfo.seeded m hdr vecs ck seed = stored m (put16 hdr ck.ckOff.toNat seed) vecs ck := by
  unfold TsoInfo.seeded stored
  rw [if_pos hValid, if_pos hValid]
  rfl

theorem seeded_holds {vecs : List Iovec} {ck : CkInfo} (seed : BitVec 16) (hSmall : VecsSmall vecs)
    (hLen : hdr.length ≤ 361) (hValid : ck.ckValid = true) (hRoom : ck.ckOff.toNat + 2 ≤ hdr.length)
    (hField : FieldCovered ck) :
    ChecksumHolds ck seed (TsoInfo.seeded m hdr vecs ck seed ++ content m vecs) := by
  have hStored := @stored_holds m (put16 hdr ck.ckOff.toNat seed) vecs ck hSmall
    (by rw [put16_length]; exact hLen) hValid (by rw [put16_length]; exact hRoom) hField
  rw [get16_put16 _ hRoom] at hStored
  rw [seeded_eq _ _ _ hValid]
  exact hStored

theorem seeded_covered {vecs : List Iovec} {ck ck' : CkInfo} (seed : BitVec 16)
    (hRoom : ck'.ckValid = true → ck'.ckOff.toNat + 2 ≤ hdr.length)
    (hOut : ck'.ckValid = true → OutOf ck ck'.ckOff.toNat) (rest : List (BitVec 8)) :
    covered ck (TsoInfo.seeded m hdr vecs ck' seed ++ rest) = covered ck (hdr ++ rest) := by
  cases hValid : ck'.ckValid with
  | false =>
    unfold TsoInfo.seeded
    rw [if_neg (Bool.eq_false_iff.mp hValid)]
  | true =>
    rw [seeded_eq _ _ _ hValid, stored_covered (by rw [put16_length]; exact hRoom) hOut,
      put16_append _ _ (hRoom hValid), covered_put16 _ (hOut hValid)]

/-- The checksums of a segment: that of IP holds with what the driver left in its field, that of TCP
or UDP with the sum that the driver left there and the length of the segment. -/
structure SegmentChecksums (t : TsoInfo) (hdrlen now : Nat) (sent : List (BitVec 8)) : Prop where
  first : t.ck0.ckValid = true → FieldCovered t.ck0 →
    (t.ck1.ckValid = true → OutOf t.ck0 t.ck1.ckOff.toNat) → ChecksumHolds t.ck0 t.ipcs sent
  second : t.ck1.ckValid = true → FieldCovered t.ck1 → ChecksumHolds t.ck1
    (endAround t.tcpcs (BitVec.ofInt 16 (hdrlen - t.ck1.ckStart.toNat + now))) sent

theorem sentHeader_checksums (hFits : LoadsFit t.ck0 t.ck1 s.hdr.length) (hLen : s.hdr.length ≤ 361)
    (hSmall : VecsSmall s.iov) :
    SegmentChecksums t s.hdr.length (t.now s.left)
      (t.sentHeader m s ++ content m (splitVecs (t.now s.left) s.iov).1) := by
  have hVecs := (splitVecs_small hSmall (t.now s.left)).1
  unfold TsoInfo.sentHeader
  dsimp only
  rw [e82545Carry_add, TsoInfo.ipHeader_length]
  have hHdr : (t.tcpHeader s.left (t.now s.left) (t.ipHeader s.seg (t.now s.left) s.hdr)).length =
      s.hdr.length := by simp
  generalize t.tcpHeader s.left (t.now s.left) (t.ipHeader s.seg (t.now s.left) s.hdr) = hdr at hHdr ⊢
  constructor
  · intro hValid hField hOut
    rw [ChecksumHolds, seeded_covered _
      (by rw [TsoInfo.seeded_length, hHdr]; exact hFits.tcpSum) hOut]
    exact seeded_holds _ hVecs (by rw [hHdr]; exact hLen) hValid (by rw [hHdr]; exact hFits.ipSum)
      hField
  · intro hValid hField
    exact seeded_holds _ hVecs (by rw [TsoInfo.seeded_length, hHdr]; exact hLen) hValid
      (by rw [TsoInfo.seeded_length, hHdr]; exact hFits.tcpSum hValid) hField

structure ChecksumsSent (t : TsoInfo) (hdrlen : Nat) (s : Segments) : Prop
    extends t.Counted s where
  small : VecsSmall s.iov
  sent : ∀ k frame, s.frames[k]? = some frame → SegmentChecksums t hdrlen
    (min t.ctx.mss.toNat (t.paylen - k * t.ctx.mss.toNat)) frame.flatten

theorem ChecksumsSent.next {hdrlen : Nat} (h : ChecksumsSent t hdrlen s)
    (hFits : LoadsFit t.ck0 t.ck1 hdrlen) (hLen : hdrlen ≤ 361) (hSized : t.Sized hdrlen s)
    (hLeft : 0 < s.left) (m : Memory) : ChecksumsSent t hdrlen (t.next m s) := by
  obtain ⟨rfl, -⟩ := hSized
  have hNow : t.now s.left = min t.ctx.mss.toNat (t.paylen - s.seg * t.ctx.mss.toNat) := by
    rw [TsoInfo.now, h.left, Nat.min_comm]
  constructor
  · exact h.toCounted.next hLeft m
  · exact (splitVecs_small h.small _).2
  · intro k frame hFrame
    rcases getElem?_snoc hFrame with hOld | ⟨rfl, rfl⟩
    · exact h.sent k frame hOld
    · rw [h.frames, ← hNow, List.flatten_cons, ← List.flatMap_def]
      exact sentHeader_checksums hFits hLen h.small

theorem transmitTso_checksums {frames : List (List (List (BitVec 8)))} (hSmall : VecsSmall iov)
    (hLen : hdr.length ≤ 361) (h : transmitTso m ctx ck0 ck1 hdr iov = .ok frames) {k : Nat}
    {frame : List (List (BitVec 8))} (hFrame : frames[k]? = some frame) :
    SegmentChecksums (tsoInfo ctx ck0 ck1 hdr) hdr.length
      (min ctx.mss.toNat ((tsoInfo ctx ck0 ck1 hdr).paylen - k * ctx.mss.toNat)) frame.flatten := by
  obtain ⟨hFits, -⟩ := transmitTso_ok h
  have hFirst : ChecksumsSent (tsoInfo ctx ck0 ck1 hdr) hdr.length
      (firstSegment (tsoInfo ctx ck0 ck1 hdr) hdr iov) :=
    ⟨firstSegment_counted _ hdr iov, hSmall, by rintro _ _ ⟨⟩⟩
  obtain ⟨s, hSent, -, rfl⟩ := transmitTso_keeps h hFirst
    fun _ h hSized hLeft => h.next hFits.toLoadsFit hLen hSized hLeft m
  exact hSent.sent k frame hFrame

theorem segmentedHeader_short : (segmentedHeader m tx general p dsc).length ≤ 361 := by
  have hLt := tx.txctx.hdrLen.isLt
  unfold segmentedHeader withTag
  split <;> simp <;> omega

theorem segments_checksumsHold {t : Transmitted} {tdwb : Bool}
    (hScan : scanDescs m tx tail dsize (dsize + 1) (Packet.start head) = .ok (.packet p dsc))
    (hTso : p.tso = true) (hFew : p.iovcnt ≤ I82545_MAX_TXSEGS)
    (hIfcs : dsc.cmd E1000_TXD_CMD_IFCS = true)
    (hShort : ∀ d ∈ packetDescs m tx dsize head p.desc, d.bufLen ≤ 131072)
    (hSent : e82545Transmit m tx tail dsize general head tdwb = .ok t) :
    ∀ k frame, t.frames[k]? = some frame →
      SegmentChecksums (packetTso m tx general p dsc) (segmentedHeader m tx general p dsc).length
        (min tx.txctx.mss.toNat
          ((packetTso m tx general p dsc).paylen - k * tx.txctx.mss.toNat)) frame.flatten := by
  intro k frame hFrame
  obtain ⟨hdr, iov, hGather, hFrames⟩ := transmitPacket_tso hTso hFew (e82545Transmit_ok hScan hSent)
  have hSmall := gatherHeader_small (packet_small hScan hFew hIfcs hShort) hGather
  exact transmitTso_checksums hSmall segmentedHeader_short hFrames hFrame

theorem segments_checksumsHold_two : ∃ t : Transmitted, ∀ k frame, t.frames[k]? = some frame →
    SegmentChecksums (packetTso (ringMemory (tsoDesc 57)) (ringTx (tcpContext 3 2)) ringSoftc.general
      tsoPacket ⟨0, 0x39001027, 0x00030000⟩)
      (segmentedHeader (ringMemory (tsoDesc 57)) (ringTx (tcpContext 3 2)) ringSoftc.general tsoPacket
        ⟨0, 0x39001027, 0x00030000⟩).length
      (min (ringTx (tcpContext 3 2)).txctx.mss.toNat
        ((packetTso (ringMemory (tsoDesc 57)) (ringTx (tcpContext 3 2)) ringSoftc.general tsoPacket
          ⟨0, 0x39001027, 0x00030000⟩).paylen - k * (ringTx (tcpContext 3 2)).txctx.mss.toNat))
      frame.flatten := by
  obtain ⟨t, hSent⟩ := tsoDesc_sent
  exact ⟨t, segments_checksumsHold tsoDesc_scan rfl (by decide) (by decide) (by decide +kernel) hSent⟩

end Segmented

end DeviceModel.E82545

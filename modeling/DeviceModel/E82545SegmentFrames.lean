import DeviceModel.E82545Scan
import DeviceModel.E82545SegmentFields

/-!
# The e1000 network device: the frames of a segmented packet

The segments carry the payload in order, `mss` bytes each but for the last. Behind the same
header they differ in the fields that the loop rewrites only, although it rewrites them in place.
-/

set_option autoImplicit false

namespace DeviceModel.E82545

open Fallible

section Split

variable (m : Memory)

theorem splitVecs_all {n : Nat} {iov : List Iovec} (hMore : totalLen iov < n) :
    splitVecs n iov = (iov, []) := by
  induction iov generalizing n with
  | nil =>
    obtain ⟨left, rfl⟩ := Nat.exists_eq_succ_of_ne_zero (Nat.ne_of_gt (Nat.zero_lt_of_lt hMore))
    rfl
  | cons v vs ih =>
    obtain ⟨left, rfl⟩ := Nat.exists_eq_succ_of_ne_zero (Nat.ne_of_gt (Nat.zero_lt_of_lt hMore))
    rw [totalLen_cons] at hMore
    rw [splitVecs, if_neg (by omega), ih (by omega)]

theorem splitVecs_prefix (n : Nat) (iov : List Iovec) :
    content m (splitVecs n iov).1 = (content m iov).take n := by
  rcases Nat.lt_or_ge (totalLen iov) n with hMore | hEnough
  · rw [splitVecs_all hMore, List.take_of_length_le]
    rw [content_length]
    exact Nat.le_of_lt hMore
  · exact splitVecs_take m hEnough

theorem splitVecs_suffix (n : Nat) (iov : List Iovec) :
    content m (splitVecs n iov).2 = (content m iov).drop n := by
  rcases Nat.lt_or_ge (totalLen iov) n with hMore | hEnough
  · rw [splitVecs_all hMore, List.drop_of_length_le]
    · rfl
    · rw [content_length]
      exact Nat.le_of_lt hMore
  · exact splitVecs_drop m hEnough

end Split

theorem getElem?_snoc {α : Type} {xs : List α} {x y : α} {k : Nat} (h : (xs ++ [x])[k]? = some y) :
    xs[k]? = some y ∨ k = xs.length ∧ y = x := by
  rcases Nat.lt_trichotomy k xs.length with hLess | rfl | hMore
  · rw [List.getElem?_append_left hLess] at h
    exact .inl h
  · rw [List.getElem?_concat_length] at h
    exact .inr ⟨rfl, (Option.some.inj h).symm⟩
  · rw [List.getElem?_eq_none (by rw [List.length_append, List.length_singleton]; omega)] at h
    cases h

def framePayload (frame : List (List (BitVec 8))) : List (BitVec 8) := frame.tail.flatten

section Payload

variable {m : Memory} {ctx : TxDesc} {ck0 ck1 : CkInfo} {hdr : List (BitVec 8)} {iov : List Iovec}
  {t : TsoInfo} {bytes : List (BitVec 8)} {s : Segments}

structure PayloadSplit (mss paylen : Nat) (bytes : List (BitVec 8))
    (frames : List (List (List (BitVec 8)))) : Prop where
  segment : ∀ k frame, frames[k]? = some frame →
    framePayload frame = (bytes.drop (k * mss)).take (min mss (paylen - k * mss))
  whole : frames.flatMap framePayload = bytes.take paylen

/-- What has been sent so far, and what the vectors still hold. -/
structure Delivered (m : Memory) (t : TsoInfo) (bytes : List (BitVec 8)) (s : Segments) : Prop
    extends t.Counted s where
  segment : ∀ k frame, s.frames[k]? = some frame →
    framePayload frame =
      (bytes.drop (k * t.ctx.mss.toNat)).take (min t.ctx.mss.toNat (t.paylen - k * t.ctx.mss.toNat))
  sent : s.frames.flatMap framePayload = bytes.take (t.paylen - s.left)
  rest : content m s.iov = bytes.drop (t.paylen - s.left)

theorem framePayload_next (m : Memory) (t : TsoInfo) (s : Segments) :
    framePayload (t.sentHeader m s :: (splitVecs (t.now s.left) s.iov).1.map (·.load m)) =
      (content m s.iov).take (t.now s.left) := by
  rw [← splitVecs_prefix]
  exact List.flatMap_def.symm

theorem Delivered.next (h : Delivered m t bytes s) (hLeft : 0 < s.left) :
    Delivered m t bytes (t.next m s) := by
  have hOld := h.left
  have hSeg : t.paylen - s.left = s.seg * t.ctx.mss.toNat := by omega
  have hNow : t.now s.left = min t.ctx.mss.toNat (t.paylen - s.seg * t.ctx.mss.toNat) := by
    rw [TsoInfo.now, hOld, Nat.min_comm]
  have hPart : t.now s.left ≤ s.left := Nat.min_le_left _ _
  have hBehind : t.paylen - (s.left - t.now s.left) = t.paylen - s.left + t.now s.left := by omega
  have hNew := framePayload_next m t s
  rw [h.rest] at hNew
  constructor
  · exact h.toCounted.next hLeft m
  · intro k frame hFrame
    rcases getElem?_snoc hFrame with hOld | ⟨rfl, rfl⟩
    · exact h.segment k frame hOld
    · rw [hNew, hNow, hSeg, h.frames]
  · change (s.frames ++ [_]).flatMap framePayload = bytes.take (t.paylen - (s.left - t.now s.left))
    rw [List.flatMap_append, h.sent, List.flatMap_singleton, hNew, hBehind, List.take_add]
  · change content m (splitVecs (t.now s.left) s.iov).2 =
      bytes.drop (t.paylen - (s.left - t.now s.left))
    rw [splitVecs_suffix, h.rest, hBehind, List.drop_drop]

theorem firstSegment_delivered (m : Memory) (t : TsoInfo) (hdr : List (BitVec 8)) (iov : List Iovec) :
    Delivered m t (content m iov) (firstSegment t hdr iov) where
  toCounted := firstSegment_counted t hdr iov
  segment := by
    intro k frame hFrame
    cases hFrame
  sent := by simp [firstSegment]
  rest := by simp [firstSegment]

theorem transmitTso_payload {frames : List (List (List (BitVec 8)))}
    (h : transmitTso m ctx ck0 ck1 hdr iov = .ok frames) :
    PayloadSplit ctx.mss.toNat (tsoInfo ctx ck0 ck1 hdr).paylen (content m iov) frames := by
  obtain ⟨s, hDelivered, hDone, rfl⟩ := transmitTso_keeps h (firstSegment_delivered m _ hdr iov)
    fun _ h _ hLeft => h.next hLeft
  have hSent := hDelivered.sent
  rw [hDone, Nat.sub_zero] at hSent
  exact ⟨hDelivered.segment, hSent⟩

end Payload

section Header

variable {m : Memory} {ctx : TxDesc} {ck0 ck1 : CkInfo} {hdr : List (BitVec 8)} {iov : List Iovec}
  {t : TsoInfo} {s : Segments}

theorem get32_eq (hdr : List (BitVec 8)) (off : Nat) :
    get32 hdr off = get16 hdr off ++ get16 hdr (off + 2) := by
  rw [get32, get16, get16, BitVec.append_assoc]
  rfl

theorem get32_put32 {off : Nat} (x : BitVec 32) (hFits : off + 4 ≤ hdr.length) :
    get32 (put32 hdr off x) off = x := by
  rw [get32_eq, get16_put32_high x hFits, get16_put32_low x hFits]
  apply BitVec.eq_of_getLsbD_eq
  intro i hi
  rw [BitVec.getLsbD_append, BitVec.getLsbD_extractLsb', BitVec.getLsbD_extractLsb']
  grind

theorem get16_congr {hdr' : List (BitVec 8)} {off : Nat}
    (hSame : ∀ i, off ≤ i → i < off + 2 → hdr'.getD i 0 = hdr.getD i 0) :
    get16 hdr' off = get16 hdr off := by
  rw [get16, get16, hSame off (by omega) (by omega), hSame (off + 1) (by omega) (by omega)]

theorem get32_congr {hdr' : List (BitVec 8)} {off : Nat}
    (hSame : ∀ i, off ≤ i → i < off + 4 → hdr'.getD i 0 = hdr.getD i 0) :
    get32 hdr' off = get32 hdr off := by
  rw [get32_eq, get32_eq, get16_congr fun i hi hi' => hSame i hi (by omega),
    get16_congr fun i hi hi' => hSame i (by omega) (by omega)]

namespace TsoInfo

def SeqField (t : TsoInfo) (i : Nat) : Prop :=
  t.ck1.ckStart.toNat + 4 ≤ i ∧ i < t.ck1.ckStart.toNat + 8

def Rewritten (t : TsoInfo) (i : Nat) : Prop :=
  t.IpField i ∨ t.SeqField i ∨ i = t.ck1.ckStart.toNat + 13 ∨ CkField t.ck0 i ∨ CkField t.ck1 i

instance (t : TsoInfo) (i : Nat) : Decidable (t.SeqField i) := inferInstanceAs (Decidable (_ ∧ _))

/-- TCP over IPv4 whose fields do not cover each other. -/
structure TcpIpv4 (t : TsoInfo) : Prop where
  tcp : t.tcp = true
  ip : t.ctx.cmdAndLength &&& E1000_TXD_CMD_IP ≠ 0
  ipApart : ∀ i, t.IpField i → ¬ t.SeqField i ∧ i ≠ t.ck1.ckStart.toNat + 13 ∧
    ¬ CkField t.ck0 i ∧ ¬ CkField t.ck1 i
  seqApart : ∀ i, t.SeqField i → ¬ CkField t.ck0 i ∧ ¬ CkField t.ck1 i

/-- The header of segment `k`, which carries `now` bytes: those of the packet, with length and
identification of IP and the sequence number of TCP counted on. -/
structure SegmentHeader (t : TsoInfo) (hdr : List (BitVec 8)) (k now : Nat)
    (sent : List (BitVec 8)) : Prop where
  length : sent.length = hdr.length
  same : ∀ i, ¬ t.Rewritten i → sent.getD i 0 = hdr.getD i 0
  total : get16 sent (t.ck0.ckStart.toNat + 2) =
    BitVec.ofInt 16 (hdr.length - t.ck0.ckStart.toNat + now)
  ident : get16 sent (t.ck0.ckStart.toNat + 4) = t.ipid + BitVec.ofNat 16 k
  seq : get32 sent (t.ck1.ckStart.toNat + 4) = t.tcpseq + BitVec.ofNat 32 (k * t.ctx.mss.toNat)

end TsoInfo

theorem sentHeader_same {i : Nat} (hNot : ¬ t.Rewritten i) :
    (t.sentHeader m s).getD i 0 = s.hdr.getD i 0 := by
  obtain ⟨hIp, hNot⟩ := not_or.mp hNot
  obtain ⟨hSeq, hNot⟩ := not_or.mp hNot
  obtain ⟨hFlags, hNot⟩ := not_or.mp hNot
  obtain ⟨hIpSum, hTcpSum⟩ := not_or.mp hNot
  unfold TsoInfo.SeqField at hSeq
  rw [TsoInfo.sentHeader_getD hIpSum hTcpSum, TsoInfo.tcpHeader_getD (by omega) fun _ _ => hFlags,
    TsoInfo.ipHeader_getD _ _ hIp]

theorem sentHeader_ip (h : t.TcpIpv4) {i : Nat} (hIp : t.IpField i) :
    (t.sentHeader m s).getD i 0 = (t.ipHeader s.seg (t.now s.left) s.hdr).getD i 0 := by
  obtain ⟨hSeq, hFlags, hIpSum, hTcpSum⟩ := h.ipApart i hIp
  unfold TsoInfo.SeqField at hSeq
  rw [TsoInfo.sentHeader_getD hIpSum hTcpSum, TsoInfo.tcpHeader_getD (by omega) fun _ _ => hFlags]

theorem ipHeader_ipv4 (h : t.TcpIpv4) (seg now : Nat) (hdr : List (BitVec 8)) :
    t.ipHeader seg now hdr =
      put16 (put16 hdr (t.ck0.ckStart.toNat + 2)
        (BitVec.ofInt 16 (hdr.length - t.ck0.ckStart.toNat + now)))
        (t.ck0.ckStart.toNat + 4) (t.ipid + BitVec.ofNat 16 seg) := if_pos h.ip

theorem ipField_iff (h : t.TcpIpv4) {i : Nat} : t.IpField i ↔
    t.ck0.ckStart.toNat + 2 ≤ i ∧ i < t.ck0.ckStart.toNat + 6 := by
  unfold TsoInfo.IpField
  rw [if_pos h.ip]

theorem sentHeader_total (h : t.TcpIpv4) (hFits : t.ck0.ckStart.toNat + 6 ≤ s.hdr.length) :
    get16 (t.sentHeader m s) (t.ck0.ckStart.toNat + 2) =
      BitVec.ofInt 16 (s.hdr.length - t.ck0.ckStart.toNat + t.now s.left) := by
  rw [get16_congr fun i hi hi' => sentHeader_ip h ((ipField_iff h).mpr ⟨hi, by omega⟩),
    ipHeader_ipv4 h, get16_put16_apart _ (.inl (by omega)), get16_put16 _ (by omega)]

theorem sentHeader_ident (h : t.TcpIpv4) (hFits : t.ck0.ckStart.toNat + 6 ≤ s.hdr.length) :
    get16 (t.sentHeader m s) (t.ck0.ckStart.toNat + 4) = t.ipid + BitVec.ofNat 16 s.seg := by
  rw [get16_congr fun i hi hi' => sentHeader_ip h ((ipField_iff h).mpr ⟨by omega, by omega⟩),
    ipHeader_ipv4 h, get16_put16 _ (by rw [put16_length]; omega)]

theorem sentHeader_seq (h : t.TcpIpv4) (hFits : t.ck1.ckStart.toNat + 8 ≤ s.hdr.length) :
    get32 (t.sentHeader m s) (t.ck1.ckStart.toNat + 4) =
      t.tcpseq + BitVec.ofNat 32 t.paylen - BitVec.ofNat 32 s.left := by
  have hTcp : t.tcpHeader s.left (t.now s.left) (t.ipHeader s.seg (t.now s.left) s.hdr) =
      if t.now s.left < s.left then and8 (put32 (t.ipHeader s.seg (t.now s.left) s.hdr)
        (t.ck1.ckStart.toNat + 4) (t.tcpseq + BitVec.ofNat 32 t.paylen - BitVec.ofNat 32 s.left))
          (t.ck1.ckStart.toNat + 13) (~~~0x09)
      else put32 (t.ipHeader s.seg (t.now s.left) s.hdr) (t.ck1.ckStart.toNat + 4)
        (t.tcpseq + BitVec.ofNat 32 t.paylen - BitVec.ofNat 32 s.left) := if_pos h.tcp
  have hSame : ∀ i, t.ck1.ckStart.toNat + 4 ≤ i → i < t.ck1.ckStart.toNat + 4 + 4 →
      (t.sentHeader m s).getD i 0 = (put32 (t.ipHeader s.seg (t.now s.left) s.hdr)
        (t.ck1.ckStart.toNat + 4)
        (t.tcpseq + BitVec.ofNat 32 t.paylen - BitVec.ofNat 32 s.left)).getD i 0 := by
    intro i hi hi'
    obtain ⟨hIpSum, hTcpSum⟩ := h.seqApart i ⟨hi, by omega⟩
    rw [TsoInfo.sentHeader_getD hIpSum hTcpSum, hTcp]
    split
    · exact and8_getD _ (by omega)
    · rfl
  rw [get32_congr hSame, get32_put32 _ (by rw [TsoInfo.ipHeader_length]; omega)]

structure HeadersSent (t : TsoInfo) (hdr : List (BitVec 8)) (s : Segments) : Prop
    extends t.Counted s where
  same : ∀ i, ¬ t.Rewritten i → s.hdr.getD i 0 = hdr.getD i 0
  sent : ∀ k frame, s.frames[k]? = some frame →
    t.SegmentHeader hdr k (min t.ctx.mss.toNat (t.paylen - k * t.ctx.mss.toNat)) (frame.headD [])

theorem HeadersSent.next (h : HeadersSent t hdr s) (hTcp : t.TcpIpv4)
    (hFits : LoadsFit t.ck0 t.ck1 hdr.length) (hSized : t.Sized hdr.length s) (hLeft : 0 < s.left)
    (m : Memory) : HeadersSent t hdr (t.next m s) := by
  obtain ⟨hLen, hSub⟩ := hSized
  have hOld := h.left
  have hNow : t.now s.left = min t.ctx.mss.toNat (t.paylen - s.seg * t.ctx.mss.toNat) := by
    rw [TsoInfo.now, hOld, Nat.min_comm]
  have hSame : ∀ i, ¬ t.Rewritten i → (t.sentHeader m s).getD i 0 = hdr.getD i 0 :=
    fun i hNot => (sentHeader_same hNot).trans (h.same i hNot)
  have hSeq : t.tcpseq + BitVec.ofNat 32 t.paylen - BitVec.ofNat 32 s.left =
      t.tcpseq + BitVec.ofNat 32 (s.seg * t.ctx.mss.toNat) := by
    have hSum : t.paylen = s.seg * t.ctx.mss.toNat + s.left := by omega
    rw [hSum, BitVec.ofNat_add, ← BitVec.add_assoc, BitVec.add_sub_cancel]
  constructor
  · exact h.toCounted.next hLeft m
  · exact hSame
  · intro k frame hFrame
    rcases getElem?_snoc hFrame with hOld | ⟨rfl, rfl⟩
    · exact h.sent k frame hOld
    · rw [h.frames]
      rw [← hNow]
      constructor
      · exact (t.sentHeader_length m s).trans hLen
      · exact hSame
      · rw [List.headD_cons, sentHeader_total hTcp (by rw [hLen]; exact hFits.ip), hLen]
      · rw [List.headD_cons, sentHeader_ident hTcp (by rw [hLen]; exact hFits.ip)]
      · rw [List.headD_cons, sentHeader_seq hTcp (by rw [hLen]; exact hFits.tcp), hSeq]

theorem transmitTso_headers {frames : List (List (List (BitVec 8)))}
    (h : transmitTso m ctx ck0 ck1 hdr iov = .ok frames) (hTcp : (tsoInfo ctx ck0 ck1 hdr).TcpIpv4)
    {k : Nat} {frame : List (List (BitVec 8))} (hFrame : frames[k]? = some frame) :
    (tsoInfo ctx ck0 ck1 hdr).SegmentHeader hdr k
      (min ctx.mss.toNat ((tsoInfo ctx ck0 ck1 hdr).paylen - k * ctx.mss.toNat)) (frame.headD []) := by
  obtain ⟨hFits, -⟩ := transmitTso_ok h
  have hFirst : HeadersSent (tsoInfo ctx ck0 ck1 hdr) hdr
      (firstSegment (tsoInfo ctx ck0 ck1 hdr) hdr iov) :=
    ⟨firstSegment_counted _ hdr iov, fun _ _ => rfl, by rintro _ _ ⟨⟩⟩
  obtain ⟨s, hSent, -, rfl⟩ := transmitTso_keeps h hFirst
    fun _ h hSized hLeft => h.next hTcp hFits.toLoadsFit hSized hLeft m
  exact hSent.sent k frame hFrame

end Header

section Packet

variable {m : Memory} {tx : Tx} {general : General} {p : Packet} {dsc : TxDesc}
  {tail dsize head : Nat}

def withTag (vlan : Bool) (vet : BitVec 32) (special : BitVec 16) (hdr : List (BitVec 8)) :
    List (BitVec 8) :=
  if vlan then hdr.take 12 ++ [vet.extractLsb' 8 8, vet.extractLsb' 0 8, special.extractLsb' 8 8,
    special.extractLsb' 0 8] ++ hdr.drop 12
  else hdr

theorem insertVlan_ok {vlan : Bool} {vet : BitVec 32} {special : BitVec 16}
    {hdr hdr' : Option (List (BitVec 8))} (h : insertVlan vlan vet special hdr = .ok hdr') :
    hdr'.getD [] = withTag vlan vet special (hdr.getD []) := by
  cases vlan with
  | false =>
    obtain ⟨⟩ := h
    rfl
  | true =>
    by_cases hRoom : 12 ≤ (hdr.getD []).length
    · unfold insertVlan at h
      rw [if_pos rfl] at h
      dsimp only at h
      rw [assertThat_of _ hRoom] at h
      obtain ⟨⟩ := h
      rfl
    · rw [insertVlan_stops hRoom] at h
      cases h

theorem gatherHeader_ok {hdrlen : Nat} {iov rest : List Iovec} {hdr : Option (List (BitVec 8))}
    (h : gatherHeader m hdrlen iov = .ok (hdr, rest)) :
    hdr.getD [] = (content m iov).take hdrlen ∧ content m rest = (content m iov).drop hdrlen ∧
      hdrlen ≤ totalLen iov := by
  rcases Nat.lt_or_ge (totalLen iov) hdrlen with hShort | hEnough
  · rw [gatherHeader_stops hShort] at h
    cases h
  · obtain ⟨hdr', rest', hGather, -, -, hTake, hDrop⟩ := @gatherHeader_eq m hdrlen iov hEnough
    rw [hGather] at h
    obtain ⟨⟩ := h
    exact ⟨hTake, hDrop, hEnough⟩

theorem transmitPacket_ok {frames : List (List (List (BitVec 8)))}
    (hFew : p.iovcnt ≤ I82545_MAX_TXSEGS) (h : transmitPacket m tx general p dsc = .ok frames) :
    ∃ hdr iov hdr', gatherHeader m (headerLen p (tagged general dsc) tx.txctx) p.iov = .ok (hdr, iov) ∧
      insertVlan (tagged general dsc) general.vet dsc.fieldsSpecial hdr = .ok hdr' ∧
      (if p.tso then transmitTso m tx.txctx (usedCk (tagged general dsc) p.ck0)
        (usedCk (tagged general dsc) p.ck1) (hdr'.getD []) iov
      else transmitPlain m (usedCk (tagged general dsc) p.ck0) (usedCk (tagged general dsc) p.ck1)
        hdr' iov) = .ok frames := by
  unfold transmitPacket at h
  rw [if_neg (Nat.not_lt.mpr hFew)] at h
  obtain ⟨⟨hdr, iov⟩, hGather, h⟩ := bind_eq_ok_iff.mp h
  obtain ⟨hdr', hInsert, h⟩ := bind_eq_ok_iff.mp h
  exact ⟨hdr, iov, hdr', hGather, hInsert, h⟩

def segmentedHeader (m : Memory) (tx : Tx) (general : General) (p : Packet) (dsc : TxDesc) :
    List (BitVec 8) :=
  withTag (tagged general dsc) general.vet dsc.fieldsSpecial
    ((content m p.iov).take tx.txctx.hdrLen.toNat)

def packetTso (m : Memory) (tx : Tx) (general : General) (p : Packet) (dsc : TxDesc) : TsoInfo :=
  tsoInfo tx.txctx (usedCk (tagged general dsc) p.ck0) (usedCk (tagged general dsc) p.ck1)
    (segmentedHeader m tx general p dsc)

theorem transmitPacket_tso {frames : List (List (List (BitVec 8)))} (hTso : p.tso = true)
    (hFew : p.iovcnt ≤ I82545_MAX_TXSEGS) (h : transmitPacket m tx general p dsc = .ok frames) :
    ∃ hdr iov, gatherHeader m tx.txctx.hdrLen.toNat p.iov = .ok (hdr, iov) ∧
      transmitTso m tx.txctx (usedCk (tagged general dsc) p.ck0) (usedCk (tagged general dsc) p.ck1)
        (segmentedHeader m tx general p dsc) iov = .ok frames := by
  obtain ⟨hdr, iov, hdr', hGather, hInsert, hSent⟩ := transmitPacket_ok hFew h
  have hLen : headerLen p (tagged general dsc) tx.txctx = tx.txctx.hdrLen.toNat := if_pos hTso
  rw [hLen] at hGather
  rw [if_pos hTso, insertVlan_ok hInsert, (gatherHeader_ok hGather).1] at hSent
  exact ⟨hdr, iov, hGather, hSent⟩

theorem e82545Transmit_ok {t : Transmitted} {tdwb : Bool}
    (hScan : scanDescs m tx tail dsize (dsize + 1) (Packet.start head) = .ok (.packet p dsc))
    (hSent : e82545Transmit m tx tail dsize general head tdwb = .ok t) :
    transmitPacket m tx general p dsc = .ok t.frames := by
  unfold e82545Transmit at hSent
  change (scanDescs m tx tail dsize (dsize + 1) (Packet.start head) >>= _) = _ at hSent
  rw [hScan, ok_bind] at hSent
  obtain ⟨frames, hFrames, hSent⟩ := bind_eq_ok_iff.mp hSent
  obtain ⟨⟩ := hSent
  exact hFrames

theorem content_filterMap {descs : List TxDesc}
    (hKeep : ∀ dsc ∈ descs, ¬ (dsc.cmd E1000_TXD_CMD_EOP = true ∧
      dsc.cmd E1000_TXD_CMD_IFCS = false)) :
    content m (descs.filterMap vecOf) = packetBytes m descs := by
  induction descs with
  | nil => rfl
  | cons dsc descs ih =>
    have hRest := ih fun d hd => hKeep d (List.mem_cons_of_mem _ hd)
    have hFirst := vecOf_whole (hKeep dsc List.mem_cons_self)
    rw [packetBytes, List.flatMap_cons, List.filterMap_cons, hFirst]
    split
    · next hNone =>
      split at hNone
      · next hEmpty =>
        rw [hRest, hEmpty]
        rfl
      · cases hNone
    · next v hSome =>
      split at hSome
      · cases hSome
      · obtain ⟨⟩ := hSome
        rw [content_cons, hRest]
        rfl

/-- A packet with IFCS has the vectors of its descriptors, none of them cut. -/
theorem packet_vecs
    (hScan : scanDescs m tx tail dsize (dsize + 1) (Packet.start head) = .ok (.packet p dsc))
    (hFew : p.iovcnt ≤ I82545_MAX_TXSEGS) (hIfcs : dsc.cmd E1000_TXD_CMD_IFCS = true) :
    p.iov = (packetDescs m tx dsize head p.desc).filterMap vecOf ∧
      p.iovcnt = p.iov.length ∧ ∀ d ∈ packetDescs m tx dsize head p.desc,
        ¬ (d.cmd E1000_TXD_CMD_EOP = true ∧ d.cmd E1000_TXD_CMD_IFCS = false) := by
  obtain ⟨k, -, hBefore, rfl, rfl, -, -⟩ := scanDescs_packet hScan
  obtain ⟨hIov, hCount⟩ := @completed_hasVecs m tx dsize head k
  rw [List.take_of_length_le (by rw [← hCount]; exact hFew)] at hIov
  rw [(@completed_desc m tx dsize head k).1]
  refine ⟨hIov, hCount.trans (congrArg List.length hIov.symm), ?_⟩
  rintro d hd ⟨hEop, hNot⟩
  rw [packetDescs_dropLast] at hd
  rcases List.mem_append.mp hd with hOld | hNew
  · obtain ⟨j, hj, rfl⟩ := List.mem_map.mp hOld
    rw [(hBefore j (List.mem_range.mp hj)).eop] at hEop
    cases hEop
  · rw [List.mem_singleton.mp hNew, hIfcs] at hNot
    cases hNot

theorem packet_content
    (hScan : scanDescs m tx tail dsize (dsize + 1) (Packet.start head) = .ok (.packet p dsc))
    (hFew : p.iovcnt ≤ I82545_MAX_TXSEGS) (hIfcs : dsc.cmd E1000_TXD_CMD_IFCS = true) :
    content m p.iov = packetBytes m (packetDescs m tx dsize head p.desc) := by
  obtain ⟨hIov, -, hKeep⟩ := packet_vecs hScan hFew hIfcs
  rw [hIov]
  exact content_filterMap hKeep

/-- The frames of a segmented packet carry the bytes of its buffers behind the header, in ring
order, `mss` bytes each but for the last. -/
theorem segments_carryPayload {t : Transmitted} {tdwb : Bool}
    (hScan : scanDescs m tx tail dsize (dsize + 1) (Packet.start head) = .ok (.packet p dsc))
    (hTso : p.tso = true) (hFew : p.iovcnt ≤ I82545_MAX_TXSEGS)
    (hIfcs : dsc.cmd E1000_TXD_CMD_IFCS = true)
    (hSent : e82545Transmit m tx tail dsize general head tdwb = .ok t) :
    PayloadSplit tx.txctx.mss.toNat (packetTso m tx general p dsc).paylen
      ((packetBytes m (packetDescs m tx dsize head p.desc)).drop tx.txctx.hdrLen.toNat) t.frames := by
  obtain ⟨hdr, iov, hGather, hFrames⟩ := transmitPacket_tso hTso hFew (e82545Transmit_ok hScan hSent)
  rw [← packet_content hScan hFew hIfcs, ← (gatherHeader_ok hGather).2.1]
  exact transmitTso_payload hFrames

/-- A data descriptor of a whole packet of TCP over IPv4, with both checksums and segmentation. -/
def tsoDesc (length : BitVec 8) : List (BitVec 8) :=
  [0, 0, 0, 0, 0, 0, 0, 0, length, 0, 0x10, 0x27, 0, 3, 0, 0]

def tsoPacket : Packet :=
  ⟨0, 0, E1000_TXD_TYP_D, [⟨MIPS_XKPHYS_UNCACHED_BASE, 57⟩], 1, untaggedIp, untaggedTcp, true⟩

theorem tsoDesc_scan : scanDescs (ringMemory (tsoDesc 57)) (ringTx (tcpContext 3 2)) 1 8 9
    (Packet.start 0) = .ok (.packet tsoPacket ⟨0, 0x39001027, 0x00030000⟩) := by decide +kernel

theorem tsoDesc_sent : ∃ t, e82545Transmit (ringMemory (tsoDesc 57)) (ringTx (tcpContext 3 2)) 1 8
    ringSoftc.general 0 false = .ok t := fault?_eq_none_iff.mp (by decide +kernel)

/-- Three bytes behind a header of 54, sent in two segments. -/
theorem segments_carryPayload_two : ∃ t : Transmitted,
    PayloadSplit (ringTx (tcpContext 3 2)).txctx.mss.toNat
      (packetTso (ringMemory (tsoDesc 57)) (ringTx (tcpContext 3 2)) ringSoftc.general tsoPacket
        ⟨0, 0x39001027, 0x00030000⟩).paylen
      ((packetBytes (ringMemory (tsoDesc 57))
        (packetDescs (ringMemory (tsoDesc 57)) (ringTx (tcpContext 3 2)) 8 0 tsoPacket.desc)).drop
          (ringTx (tcpContext 3 2)).txctx.hdrLen.toNat) t.frames := by
  obtain ⟨t, hSent⟩ := tsoDesc_sent
  exact ⟨t, segments_carryPayload tsoDesc_scan rfl (by decide) (by decide) hSent⟩

/-- Every frame of a packet of TCP over IPv4 has the header of the packet, with the fields of its
own place in the stream. -/
theorem segments_haveHeader {t : Transmitted} {tdwb : Bool}
    (hScan : scanDescs m tx tail dsize (dsize + 1) (Packet.start head) = .ok (.packet p dsc))
    (hTso : p.tso = true) (hFew : p.iovcnt ≤ I82545_MAX_TXSEGS)
    (hTcp : (packetTso m tx general p dsc).TcpIpv4)
    (hSent : e82545Transmit m tx tail dsize general head tdwb = .ok t) :
    ∀ k frame, t.frames[k]? = some frame →
      (packetTso m tx general p dsc).SegmentHeader (segmentedHeader m tx general p dsc) k
        (min tx.txctx.mss.toNat
          ((packetTso m tx general p dsc).paylen - k * tx.txctx.mss.toNat)) (frame.headD []) := by
  intro k frame hFrame
  obtain ⟨hdr, iov, -, hFrames⟩ := transmitPacket_tso hTso hFew (e82545Transmit_ok hScan hSent)
  exact transmitTso_headers hFrames hTcp hFrame

theorem segments_haveHeader_second : ∃ t : Transmitted, ∀ frame, t.frames[1]? = some frame →
    (packetTso (ringMemory (tsoDesc 57)) (ringTx (tcpContext 3 2)) ringSoftc.general tsoPacket
      ⟨0, 0x39001027, 0x00030000⟩).SegmentHeader
        (segmentedHeader (ringMemory (tsoDesc 57)) (ringTx (tcpContext 3 2)) ringSoftc.general tsoPacket
          ⟨0, 0x39001027, 0x00030000⟩) 1 1 (frame.headD []) := by
  obtain ⟨t, hSent⟩ := tsoDesc_sent
  refine ⟨t, fun frame => segments_haveHeader tsoDesc_scan rfl (by decide)
    ⟨by decide +kernel, by decide +kernel, ?_, ?_⟩ hSent 1 frame⟩
  · rintro i ⟨hFrom, hTo⟩
    change 16 ≤ i at hFrom
    change i < 20 at hTo
    obtain rfl | rfl | rfl | rfl : i = 16 ∨ i = 17 ∨ i = 18 ∨ i = 19 := by omega
    all_goals decide +kernel
  · rintro i ⟨hFrom, hTo⟩
    change 38 ≤ i at hFrom
    change i < 42 at hTo
    obtain rfl | rfl | rfl | rfl : i = 38 ∨ i = 39 ∨ i = 40 ∨ i = 41 := by omega
    all_goals decide +kernel

end Packet

end DeviceModel.E82545

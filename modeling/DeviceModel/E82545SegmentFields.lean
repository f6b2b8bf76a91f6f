import DeviceModel.E82545Segments

/-!
# The e1000 network device: flags and lengths of segments

The flags that a round clears for a segment in the middle stay cleared for the
last one, and the length of a UDP datagram is stored as a 32-bit word.
-/

set_option autoImplicit false

namespace DeviceModel.E82545

open Fallible

variable {m : Memory} {ctx : TxDesc} {ck0 ck1 : CkInfo} {hdr : List (BitVec 8)} {iov : List Iovec}

section Flags

def FIN_PSH : BitVec 8 := 0x09

def finPsh (hdr : List (BitVec 8)) (off : Nat) : BitVec 8 := hdr.getD off 0 &&& FIN_PSH

def TsoInfo.flagsOff (t : TsoInfo) : Nat := t.ck1.ckStart.toNat + 13

/-- No other field that a round writes covers the flags. -/
structure TsoInfo.FlagsApart (t : TsoInfo) : Prop where
  ip : ¬ t.IpField t.flagsOff
  ipSum : ¬ TsoInfo.CkField t.ck0 t.flagsOff
  tcpSum : ¬ TsoInfo.CkField t.ck1 t.flagsOff

/-- The last segment has the flags of the original header, those before it have none. -/
def FlagsSurvive (off : Nat) (hdr : List (BitVec 8)) (frames : List (List (List (BitVec 8)))) : Prop :=
  ∀ k frame, frames[k]? = some frame →
    finPsh (frame.headD []) off = if k + 1 = frames.length then finPsh hdr off else 0

variable {t : TsoInfo} {s : Segments}

theorem sentHeader_flags (hTcp : t.tcp = true) (hApart : t.FlagsApart)
    (hRoom : t.now s.left < s.left → t.flagsOff < s.hdr.length) :
    finPsh (t.sentHeader m s) t.flagsOff =
      if t.now s.left < s.left then 0 else finPsh s.hdr t.flagsOff := by
  have hIpKept : (t.ipHeader s.seg (t.now s.left) s.hdr).getD t.flagsOff 0 =
      s.hdr.getD t.flagsOff 0 := TsoInfo.ipHeader_getD _ _ hApart.ip
  unfold finPsh
  rw [TsoInfo.sentHeader_getD hApart.ipSum hApart.tcpSum]
  split
  · next hMore =>
    have hFlag : t.flagsOff < (put32 (t.ipHeader s.seg (t.now s.left) s.hdr)
        (t.ck1.ckStart.toNat + 4) (t.tcpseq + BitVec.ofNat 32 t.paylen - BitVec.ofNat 32 s.left)).length := by
      rw [put32_length, TsoInfo.ipHeader_length]
      exact hRoom hMore
    have hMask : (~~~0x09 : BitVec 8) &&& FIN_PSH = 0 := by decide
    unfold TsoInfo.tcpHeader
    dsimp only
    rw [if_pos hTcp, if_pos hMore]
    change (and8 _ t.flagsOff (~~~0x09)).getD t.flagsOff 0 &&& FIN_PSH = 0
    rw [and8_getD_self _ hFlag, BitVec.and_assoc, hMask]
    exact BitVec.and_zero
  · next hLast =>
    have hOff : t.ck1.ckStart.toNat + 8 ≤ t.flagsOff := Nat.add_le_add_left (by decide) _
    rw [TsoInfo.tcpHeader_getD (.inr hOff) fun _ hMore => absurd hMore hLast, hIpKept]

/-- What the flags of all segments are: cleared if there is more than one. -/
def TsoInfo.sentFlags (t : TsoInfo) (hdr : List (BitVec 8)) : BitVec 8 :=
  if t.paylen ≤ t.ctx.mss.toNat then finPsh hdr t.flagsOff else 0

/-- Before the first round the flags are those of the original header, then those of all segments. -/
structure FlagsKept (t : TsoInfo) (hdr : List (BitVec 8)) (s : Segments) : Prop where
  sent : ∀ frame ∈ s.frames, finPsh (frame.headD []) t.flagsOff = t.sentFlags hdr
  header : (s.left = t.paylen ∧ finPsh s.hdr t.flagsOff = finPsh hdr t.flagsOff) ∨
    finPsh s.hdr t.flagsOff = t.sentFlags hdr

theorem FlagsKept.next (h : FlagsKept t hdr s) (hTcp : t.tcp = true) (hApart : t.FlagsApart)
    {len : Nat} (hFits : t.HeaderFits len) (hSized : t.Sized len s) (m : Memory) :
    FlagsKept t hdr (t.next m s) := by
  obtain ⟨hLen, hLeft⟩ := hSized
  have hShort : t.now s.left < s.left → t.ctx.mss.toNat < t.paylen := by
    unfold TsoInfo.now
    omega
  have hRoom : t.now s.left < s.left → t.flagsOff < s.hdr.length := by
    intro hMore
    have hFlags := hFits.flags hTcp (hShort hMore)
    rw [hLen, TsoInfo.flagsOff]
    omega
  have hHeader : finPsh (t.sentHeader m s) t.flagsOff = t.sentFlags hdr := by
    rw [sentHeader_flags hTcp hApart hRoom]
    unfold TsoInfo.sentFlags
    split
    · next hMore => rw [if_neg (Nat.not_le.mpr (hShort hMore))]
    · next hLast =>
      rcases h.header with ⟨hAll, hFlags⟩ | hFlags
      · have hWhole : t.paylen ≤ t.ctx.mss.toNat := by
          unfold TsoInfo.now at hLast
          omega
        rw [if_pos hWhole, hFlags]
      · rw [hFlags, TsoInfo.sentFlags]
  constructor
  · intro frame hFrame
    rcases List.mem_append.mp hFrame with hOld | hNew
    · exact h.sent frame hOld
    · rw [List.mem_singleton.mp hNew]
      exact hHeader
  · exact .inr hHeader

/-- A packet that is sent in one segment keeps its flags. One that takes more segments loses them,
so that its last segment is right only if there were none. -/
theorem flags_survive_iff {frames : List (List (List (BitVec 8)))}
    (hSent : transmitTso m ctx ck0 ck1 hdr iov = .ok frames)
    (hTcp : (tsoInfo ctx ck0 ck1 hdr).tcp = true)
    (hApart : (tsoInfo ctx ck0 ck1 hdr).FlagsApart) :
    FlagsSurvive (tsoInfo ctx ck0 ck1 hdr).flagsOff hdr frames ↔
      (tsoInfo ctx ck0 ck1 hdr).paylen ≤ ctx.mss.toNat ∨
      finPsh hdr (tsoInfo ctx ck0 ck1 hdr).flagsOff = 0 := by
  obtain ⟨hCovers, hNeeded⟩ := transmitTso_covers hSent
  obtain ⟨hFits, -⟩ := transmitTso_ok hSent
  obtain ⟨s, hKept, -, rfl⟩ := transmitTso_keeps hSent
    (⟨by rintro _ ⟨⟩, .inl ⟨rfl, rfl⟩⟩ : FlagsKept (tsoInfo ctx ck0 ck1 hdr) hdr _)
    fun _ h hSized _ => h.next hTcp hApart hFits hSized m
  have hSentFlags := hKept.sent
  have hMss : ctx.mss = (tsoInfo ctx ck0 ck1 hdr).ctx.mss := rfl
  rw [hMss] at hCovers hNeeded ⊢
  generalize tsoInfo ctx ck0 ck1 hdr = t at hCovers hNeeded hSentFlags ⊢
  unfold TsoInfo.sentFlags at hSentFlags
  by_cases hWhole : t.paylen ≤ t.ctx.mss.toNat
  · refine iff_of_true ?_ (.inl hWhole)
    intro k frame hFrame
    have hLt : k < s.frames.length := (List.getElem?_eq_some_iff.mp hFrame).1
    have hOne : s.frames.length = 1 := by
      have hLess := hNeeded (by omega)
      rcases Nat.lt_or_ge 1 s.frames.length with hMany | hFew
      · have hMul := Nat.mul_le_mul_right t.ctx.mss.toNat (Nat.le_sub_one_of_lt hMany)
        omega
      · omega
    rw [if_pos (by omega), hSentFlags frame (List.mem_of_getElem? hFrame), if_pos hWhole]
  · rw [if_neg hWhole] at hSentFlags
    have hSome : 0 < s.frames.length := by
      apply Nat.pos_of_ne_zero
      intro hNone
      rw [hNone, Nat.zero_mul] at hCovers
      omega
    constructor
    · intro hSurvive
      have hLast := hSurvive (s.frames.length - 1) _
        (List.getElem?_eq_getElem (Nat.sub_lt hSome Nat.one_pos))
      rw [if_pos (by omega), hSentFlags _ (List.getElem_mem _)] at hLast
      exact .inr hLast.symm
    · rintro (hShort | hNone)
      · exact absurd hShort hWhole
      · intro k frame hFrame
        rw [hSentFlags frame (List.mem_of_getElem? hFrame), hNone]
        split <;> rfl

def finalHeader : List (BitVec 8) := (List.replicate 54 0).set 47 0x19

def untaggedIp : CkInfo := ⟨true, 14, 24, 33⟩

def untaggedTcp : CkInfo := ⟨true, 34, 50, 0⟩

theorem untagged_flagsApart (paylen : BitVec 32) (mss : BitVec 16) (hdr : List (BitVec 8)) :
    (tsoInfo (tcpContext paylen mss) untaggedIp untaggedTcp hdr).FlagsApart := by
  have hIp : ¬ 47 < 14 + 6 := by decide
  have hIpSum : ¬ (47 = 24 ∨ 47 = 24 + 1) := by decide
  have hTcpSum : ¬ (47 = 50 ∨ 47 = 50 + 1) := by decide
  exact ⟨fun h => hIp h.2, fun h => hIpSum h.2, fun h => hTcpSum h.2⟩

theorem flags_survive_iff_single : ∃ frames, transmitTso (fun _ => 0) (tcpContext 1 1) untaggedIp
    untaggedTcp finalHeader [⟨0, 1⟩] = .ok frames ∧ FlagsSurvive 47 finalHeader frames := by
  have hReturns : fault? (transmitTso (fun _ => 0) (tcpContext 1 1) untaggedIp untaggedTcp
      finalHeader [⟨0, 1⟩]) = none := by decide +kernel
  obtain ⟨frames, hSent⟩ := fault?_eq_none_iff.mp hReturns
  exact ⟨frames, hSent, (flags_survive_iff hSent (by decide) (untagged_flagsApart 1 1 _)).mpr
    (.inl (by decide))⟩

/-- Two bytes in two segments: neither has a flag. -/
theorem flags_lost : ¬ ∀ (m : Memory) (ctx : TxDesc) (ck0 ck1 : CkInfo) (hdr : List (BitVec 8))
    (iov : List Iovec) (frames : List (List (List (BitVec 8)))),
    transmitTso m ctx ck0 ck1 hdr iov = .ok frames → (tsoInfo ctx ck0 ck1 hdr).tcp = true →
    (tsoInfo ctx ck0 ck1 hdr).FlagsApart →
    FlagsSurvive (tsoInfo ctx ck0 ck1 hdr).flagsOff hdr frames := by
  intro hAll
  have hFlags : Yields (fun _ => False)
      (fun frames => (frames[1]?.map fun frame => finPsh (frame.headD []) 47) = some 0 ∧
        frames.length = 2)
      (transmitTso (fun _ => 0) (tcpContext 2 1) untaggedIp untaggedTcp finalHeader [⟨0, 2⟩]) := by
    decide +kernel
  cases hSent : transmitTso (fun _ => 0) (tcpContext 2 1) untaggedIp untaggedTcp finalHeader
      [⟨0, 2⟩] with
  | error e => exact hFlags.of_error hSent
  | ok frames =>
    obtain ⟨hLost, hTwo⟩ := hFlags.of_ok hSent
    obtain ⟨frame, hFrame, hNone⟩ := Option.map_eq_some_iff.mp hLost
    have hLast := hAll _ _ _ _ _ _ frames hSent (by decide) (untagged_flagsApart 2 1 _) 1 frame hFrame
    rw [if_pos hTwo.symm] at hLast
    exact absurd (hNone.symm.trans hLast) (by decide)

end Flags

section Length

def TsoInfo.lengthOff (t : TsoInfo) : Nat := t.ck1.ckStart.toNat + 4

structure TsoInfo.LengthApart (t : TsoInfo) : Prop where
  ipSum : ∀ i, TsoInfo.CkField t.ck0 i → i ≠ t.lengthOff ∧ i ≠ t.lengthOff + 1
  tcpSum : ∀ i, TsoInfo.CkField t.ck1 i → i ≠ t.lengthOff ∧ i ≠ t.lengthOff + 1

def udpSize (t : TsoInfo) (frame : List (List (BitVec 8))) : Nat :=
  frame.flatten.length - t.ck1.ckStart.toNat

/-- The length field of a frame holds the size of its UDP header and payload. -/
def LengthRight (t : TsoInfo) (frame : List (List (BitVec 8))) : Prop :=
  (get16 (frame.headD []) t.lengthOff).toNat = udpSize t frame

variable {t : TsoInfo} {s : Segments}

theorem sentHeader_length16 (hUdp : t.tcp = false) (hApart : t.LengthApart)
    (hRoom : t.ck1.ckStart.toNat + 8 ≤ s.hdr.length) (m : Memory) :
    get16 (t.sentHeader m s) t.lengthOff =
      (BitVec.ofInt 32 (s.hdr.length - t.ck1.ckStart.toNat + t.now s.left)).extractLsb' 16 16 := by
  have hIpFirst : ¬ TsoInfo.CkField t.ck0 t.lengthOff := fun h => (hApart.ipSum _ h).1 rfl
  have hIpSecond : ¬ TsoInfo.CkField t.ck0 (t.lengthOff + 1) := fun h => (hApart.ipSum _ h).2 rfl
  have hTcpFirst : ¬ TsoInfo.CkField t.ck1 t.lengthOff := fun h => (hApart.tcpSum _ h).1 rfl
  have hTcpSecond : ¬ TsoInfo.CkField t.ck1 (t.lengthOff + 1) := fun h => (hApart.tcpSum _ h).2 rfl
  have hStored := @get16_put32_high (t.ipHeader s.seg (t.now s.left) s.hdr) t.lengthOff
    (BitVec.ofInt 32 (s.hdr.length - t.ck1.ckStart.toNat + t.now s.left))
    (by rw [TsoInfo.ipHeader_length, TsoInfo.lengthOff]; omega)
  rw [← hStored]
  unfold get16
  rw [TsoInfo.sentHeader_getD hIpFirst hTcpFirst, TsoInfo.sentHeader_getD hIpSecond hTcpSecond]
  unfold TsoInfo.tcpHeader
  dsimp only
  rw [if_neg (Bool.eq_false_iff.mp hUdp), TsoInfo.ipHeader_length]
  rfl

/-- What belongs into the length field goes into the checksum behind it. -/
theorem updateTcp_clobbers {left now : Nat} {hdr hdr' : List (BitVec 8)} (hUdp : t.tcp = false)
    (hRoom : t.ck1.ckStart.toNat + 8 ≤ hdr.length) (h : t.updateTcp left now hdr = .ok hdr') :
    get16 hdr' (t.lengthOff + 2) = BitVec.extractLsb' 0 16
      (BitVec.ofInt 32 (hdr.length - t.ck1.ckStart.toNat + now)) := by
  unfold TsoInfo.updateTcp at h
  rw [if_neg (Bool.eq_false_iff.mp hUdp), hdrStore32_eq _ (by omega)] at h
  obtain ⟨⟩ := h
  exact get16_put32_low _ (by omega)

/-- The upper half of a length is shorter than the header alone. -/
theorem upperHalf_lt {size now : Nat} (hSize : 8 ≤ size) (hNow : now < 65536) :
    ((BitVec.ofInt 32 ((size : Int) + now)).extractLsb' 16 16).toNat < size := by
  have hCast : BitVec.ofInt 32 ((size : Int) + now) = BitVec.ofNat 32 (size + now) := by
    rw [← Nat.cast_add, BitVec.ofInt_natCast]
  rw [hCast, BitVec.extractLsb'_toNat, BitVec.toNat_ofNat, Nat.shiftRight_eq_div_pow]
  calc (size + now) % 2 ^ 32 / 2 ^ 16 % 2 ^ 16
      ≤ (size + now) % 2 ^ 32 / 2 ^ 16 := Nat.mod_le _ _
    _ ≤ (size + now) / 2 ^ 16 := Nat.div_le_div_right (Nat.mod_le _ _)
    _ < size := by omega

def LengthsShort (t : TsoInfo) (s : Segments) : Prop :=
  ∀ frame ∈ s.frames, (get16 (frame.headD []) t.lengthOff).toNat < udpSize t frame

theorem LengthsShort.next (h : LengthsShort t s) (hUdp : t.tcp = false) (hApart : t.LengthApart)
    {len : Nat} (hFits : t.HeaderFits len) (hSized : t.Sized len s) (m : Memory) :
    LengthsShort t (t.next m s) := by
  have hRoom : t.ck1.ckStart.toNat + 8 ≤ s.hdr.length := by
    rw [hSized.1]
    exact hFits.tcp
  have hNow : t.now s.left < 65536 := by
    have hMss := t.ctx.mss.isLt
    unfold TsoInfo.now
    omega
  intro frame hFrame
  rcases List.mem_append.mp hFrame with hOld | hNew
  · exact h frame hOld
  · rw [List.mem_singleton.mp hNew, List.headD_cons, sentHeader_length16 hUdp hApart hRoom]
    have hSize : (s.hdr.length : Int) - t.ck1.ckStart.toNat =
        (s.hdr.length - t.ck1.ckStart.toNat : Nat) := by omega
    rw [hSize]
    refine Nat.lt_of_lt_of_le (upperHalf_lt (by omega) hNow) ?_
    rw [udpSize, List.flatten_cons, List.length_append, TsoInfo.sentHeader_length]
    omega

/-- The length of a UDP segment is stored as a big-endian word of 32 bits, so that the length
field gets its upper half: no segment is right. -/
theorem udpLength_wrong {frames : List (List (List (BitVec 8)))}
    (hSent : transmitTso m ctx ck0 ck1 hdr iov = .ok frames)
    (hUdp : (tsoInfo ctx ck0 ck1 hdr).tcp = false)
    (hApart : (tsoInfo ctx ck0 ck1 hdr).LengthApart) :
    (∀ frame ∈ frames, ¬ LengthRight (tsoInfo ctx ck0 ck1 hdr) frame) ∧
      ((tsoInfo ctx ck0 ck1 hdr).paylen ≠ 0 → frames ≠ []) := by
  obtain ⟨hFits, -⟩ := transmitTso_ok hSent
  obtain ⟨hCovers, -⟩ := transmitTso_covers hSent
  constructor
  · have hFirst : LengthsShort (tsoInfo ctx ck0 ck1 hdr)
        (firstSegment (tsoInfo ctx ck0 ck1 hdr) hdr iov) := by rintro _ ⟨⟩
    obtain ⟨s, hShort, -, rfl⟩ := transmitTso_keeps hSent hFirst
      fun _ h hSized _ => h.next hUdp hApart hFits hSized m
    intro frame hFrame
    exact Nat.ne_of_lt (hShort frame hFrame)
  · rintro hPay rfl
    rw [List.length_nil, Nat.zero_mul] at hCovers
    exact hPay (Nat.le_zero.mp hCovers)

def udpContext (paylen : BitVec 32) (mss : BitVec 16) : TxDesc where
  addr := 0x0E18210022280000
  lower := htole32 (0x26000000 ||| paylen)
  upper := 0x002A0000 ||| (htole16 mss).setWidth 32

def untaggedUdp : CkInfo := ⟨true, 34, 40, 0⟩

theorem untagged_lengthApart (paylen : BitVec 32) (mss : BitVec 16) (hdr : List (BitVec 8)) :
    (tsoInfo (udpContext paylen mss) untaggedIp untaggedUdp hdr).LengthApart := by
  have hIp : ∀ i, i = 24 ∨ i = 24 + 1 → i ≠ 38 ∧ i ≠ 38 + 1 := by omega
  have hUdp : ∀ i, i = 40 ∨ i = 40 + 1 → i ≠ 38 ∧ i ≠ 38 + 1 := by omega
  exact ⟨fun i h => hIp i h.2, fun i h => hUdp i h.2⟩

theorem udpLength_wrong_single : ∃ frames, transmitTso (fun _ => 0) (udpContext 1 1) untaggedIp
    untaggedUdp (List.replicate 42 0) [⟨0, 1⟩] = .ok frames ∧ frames ≠ [] ∧ ∀ frame ∈ frames,
      ¬ LengthRight (tsoInfo (udpContext 1 1) untaggedIp untaggedUdp (List.replicate 42 0)) frame := by
  have hReturns : fault? (transmitTso (fun _ => 0) (udpContext 1 1) untaggedIp untaggedUdp
      (List.replicate 42 0) [⟨0, 1⟩]) = none := by decide +kernel
  obtain ⟨frames, hSent⟩ := fault?_eq_none_iff.mp hReturns
  obtain ⟨hWrong, hSome⟩ := udpLength_wrong hSent (by decide) (untagged_lengthApart 1 1 _)
  exact ⟨frames, hSent, hSome (by decide), hWrong⟩

/-- The length field of a datagram of 9 bytes is 0. -/
theorem udpLength_zero : ¬ ∀ (m : Memory) (ctx : TxDesc) (ck0 ck1 : CkInfo) (hdr : List (BitVec 8))
    (iov : List Iovec) (frames : List (List (List (BitVec 8)))),
    transmitTso m ctx ck0 ck1 hdr iov = .ok frames → (tsoInfo ctx ck0 ck1 hdr).tcp = false →
    (tsoInfo ctx ck0 ck1 hdr).LengthApart →
    ∀ frame ∈ frames, LengthRight (tsoInfo ctx ck0 ck1 hdr) frame := by
  intro hAll
  have hLength : Yields (fun _ => False) (fun frames => frames.map (fun frame =>
      ((get16 (frame.headD []) 38).toNat, frame.flatten.length)) = [(0, 43)])
      (transmitTso (fun _ => 0) (udpContext 1 1) untaggedIp untaggedUdp (List.replicate 42 0)
        [⟨0, 1⟩]) := by
    decide +kernel
  cases hSent : transmitTso (fun _ => 0) (udpContext 1 1) untaggedIp untaggedUdp
      (List.replicate 42 0) [⟨0, 1⟩] with
  | error e => exact hLength.of_error hSent
  | ok frames =>
    have hFrames := hLength.of_ok hSent
    have hMem : (0, 43) ∈ frames.map (fun frame =>
        ((get16 (frame.headD []) 38).toNat, frame.flatten.length)) := by
      rw [hFrames]
      exact List.mem_singleton_self _
    obtain ⟨frame, hFrame, hPair⟩ := List.mem_map.mp hMem
    obtain ⟨hZero, hSize⟩ := Prod.mk.inj hPair
    have hRight := hAll _ _ _ _ _ _ frames hSent (by decide) (untagged_lengthApart 1 1 _) frame hFrame
    rw [LengthRight, udpSize, hSize] at hRight
    exact absurd (hZero.symm.trans hRight) (by decide)

end Length

end DeviceModel.E82545

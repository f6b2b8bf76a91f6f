import DeviceModel.E82545Header

/-!
# The e1000 network device: the segmentation loop

The loop sends `mss` bytes a round. It comes to an end unless `mss` is zero, and
the header it sends in a round is the one it sent in the round before, updated in
place.
-/

set_option autoImplicit false

namespace DeviceModel.E82545

open Fallible

namespace TsoInfo

variable {m : Memory} {t : TsoInfo} {len : Nat}

def Sized (t : TsoInfo) (len : Nat) (s : Segments) : Prop := s.hdr.length = len ∧ s.left ≤ t.paylen

theorem Sized.next {s : Segments} (hSized : t.Sized len s) (m : Memory) : t.Sized len (t.next m s) :=
  ⟨(t.sentHeader_length m s).trans hSized.1, (Nat.sub_le _ _).trans hSized.2⟩

theorem Sized.segment_eq {s : Segments} (hSized : t.Sized len s) (hFits : t.HeaderFits len)
    (m : Memory) : t.segment m s = .ok (t.next m s) := by
  obtain ⟨rfl, hLeft⟩ := hSized
  exact TsoInfo.segment_eq hFits hLeft

theorem segments_yields {Inv : Segments → Prop} (hFits : t.HeaderFits len)
    (hNext : ∀ s, Inv s → t.Sized len s → 0 < s.left → Inv (t.next m s)) (fuel : Nat)
    {s : Segments} (hSized : t.Sized len s) (hInv : Inv s) :
    Yields (· = .segmentLoop) (fun s' => Inv s' ∧ s'.left = 0) (t.segments m fuel s) := by
  induction fuel generalizing s with
  | zero =>
    unfold segments
    split
    · next hDone => exact ⟨hInv, hDone⟩
    · rfl
  | succ fuel ih =>
    unfold segments
    by_cases hDone : s.left = 0
    · rw [if_pos hDone]
      exact ⟨hInv, hDone⟩
    · rw [if_neg hDone, hSized.segment_eq hFits, ok_bind]
      exact ih (hSized.next m) (hNext s hInv hSized (Nat.pos_of_ne_zero hDone))

/-- With bytes to send in every round, there are enough rounds. -/
theorem segments_returns (hFits : t.HeaderFits len) (hMss : 0 < t.ctx.mss.toNat) (fuel : Nat)
    {s : Segments} (hSized : t.Sized len s) (hFuel : s.left ≤ fuel) :
    Returns (t.segments m fuel s) := by
  induction fuel generalizing s with
  | zero =>
    rw [segments, if_pos (Nat.le_zero.mp hFuel)]
    exact returns_ok s
  | succ fuel ih =>
    unfold segments
    by_cases hDone : s.left = 0
    · rw [if_pos hDone]
      exact returns_ok s
    · rw [if_neg hDone, hSized.segment_eq hFits, ok_bind]
      apply ih (hSized.next m)
      simp only [TsoInfo.next, now]
      omega

/-- With nothing to send in a round, no number of rounds is enough. -/
theorem segments_stuck (hFits : t.HeaderFits len) (hMss : t.ctx.mss.toNat = 0) (fuel : Nat)
    {s : Segments} (hSized : t.Sized len s) (hLeft : 0 < s.left) :
    t.segments m fuel s = .error .segmentLoop := by
  induction fuel generalizing s with
  | zero => rw [segments, if_neg (Nat.ne_of_gt hLeft)]
  | succ fuel ih =>
    rw [segments, if_neg (Nat.ne_of_gt hLeft), hSized.segment_eq hFits, ok_bind]
    apply ih (hSized.next m)
    simp only [TsoInfo.next, now]
    omega

/-- Every round so far has sent `mss` bytes but for the last, which may have sent fewer. -/
structure Counted (t : TsoInfo) (s : Segments) : Prop where
  frames : s.frames.length = s.seg
  left : s.left = t.paylen - s.seg * t.ctx.mss.toNat
  needed : 0 < s.seg → (s.seg - 1) * t.ctx.mss.toNat < t.paylen

theorem Counted.next {s : Segments} (h : t.Counted s) (hLeft : 0 < s.left) (m : Memory) :
    t.Counted (t.next m s) := by
  have hMul : (s.seg + 1) * t.ctx.mss.toNat = s.seg * t.ctx.mss.toNat + t.ctx.mss.toNat :=
    Nat.succ_mul _ _
  have hOld := h.left
  constructor
  · simp [TsoInfo.next, h.frames]
  · simp only [TsoInfo.next, now, hMul]
    omega
  · intro _
    simp only [TsoInfo.next, Nat.add_sub_cancel]
    omega

def count (t : TsoInfo) : Nat := (t.paylen + t.ctx.mss.toNat - 1) / t.ctx.mss.toNat

theorem Counted.seg_eq {s : Segments} (h : t.Counted s) (hDone : s.left = 0) : s.seg = t.count := by
  have hLeft := h.left
  cases hSeg : s.seg with
  | zero =>
    have hNone : t.paylen = 0 := by simpa [hSeg, hDone, eq_comm] using hLeft
    rcases Nat.eq_zero_or_pos t.ctx.mss.toNat with hMss | hMss
    · simp [count, hMss]
    · rw [count, hNone, Nat.div_eq_of_lt (by omega)]
  | succ n =>
    have hNeeded := h.needed (by omega)
    rw [hSeg, Nat.add_sub_cancel] at hNeeded
    rw [hSeg, Nat.succ_mul] at hLeft
    have hMss : 0 < t.ctx.mss.toNat := by
      apply Nat.pos_of_ne_zero
      intro hMss
      rw [hMss] at hLeft hNeeded
      omega
    symm
    apply Nat.div_eq_of_lt_le
    · rw [Nat.succ_mul]
      omega
    · rw [Nat.succ_mul, Nat.succ_mul]
      omega

end TsoInfo

section Tso

variable {m : Memory} {ctx : TxDesc} {ck0 ck1 : CkInfo} {hdr : List (BitVec 8)} {iov : List Iovec}

def firstSegment (t : TsoInfo) (hdr : List (BitVec 8)) (iov : List Iovec) : Segments :=
  ⟨0, t.paylen, hdr, iov, []⟩

theorem firstSegment_sized (t : TsoInfo) (hdr : List (BitVec 8)) (iov : List Iovec) :
    t.Sized hdr.length (firstSegment t hdr iov) := ⟨rfl, Nat.le_refl _⟩

theorem transmitTso_loads (hFits : LoadsFit ck0 ck1 hdr.length) :
    transmitTso m ctx ck0 ck1 hdr iov =
      ((tsoInfo ctx ck0 ck1 hdr).segments m (tsoInfo ctx ck0 ck1 hdr).paylen
        (firstSegment (tsoInfo ctx ck0 ck1 hdr) hdr iov)).map (·.frames) := by
  have hSum : (if ck1.ckValid then hdrLoad16 hdr ck1.ckOff.toNat else .ok 0) =
      .ok (tsoInfo ctx ck0 ck1 hdr).tcpcs := by
    cases hValid : ck1.ckValid with
    | false => simp [tsoInfo, hValid]
    | true => simp [tsoInfo, hValid, hdrLoad16_eq (hFits.tcpSum hValid)]
  have hIp := hFits.ip
  have hTcp := hFits.tcp
  unfold transmitTso
  rw [hdrLoad16_eq (by omega), ok_bind, hdrLoad32_eq (by omega), ok_bind,
    hdrLoad16_eq hFits.ipSum, ok_bind, hSum, ok_bind]
  rfl

theorem transmitTso_loadStops (hNot : ¬ LoadsFit ck0 ck1 hdr.length) :
    transmitTso m ctx ck0 ck1 hdr iov = .error .headerCopy := by
  unfold transmitTso
  by_cases hIp : ck0.ckStart.toNat + 4 + 2 ≤ hdr.length
  swap
  · rw [hdrLoad16_stops hIp, error_bind]
  by_cases hTcp : ck1.ckStart.toNat + 4 + 4 ≤ hdr.length
  swap
  · rw [hdrLoad16_eq hIp, ok_bind, hdrLoad32_stops hTcp, error_bind]
  by_cases hIpSum : ck0.ckOff.toNat + 2 ≤ hdr.length
  swap
  · rw [hdrLoad16_eq hIp, ok_bind, hdrLoad32_eq hTcp, ok_bind, hdrLoad16_stops hIpSum, error_bind]
  rw [hdrLoad16_eq hIp, ok_bind, hdrLoad32_eq hTcp, ok_bind, hdrLoad16_eq hIpSum, ok_bind]
  have hTcpSum : ¬ (ck1.ckValid = true → ck1.ckOff.toNat + 2 ≤ hdr.length) :=
    fun h => hNot ⟨hIp, hTcp, hIpSum, h⟩
  obtain ⟨hValid, hOff⟩ := Classical.not_imp.mp hTcpSum
  rw [if_pos hValid, hdrLoad16_stops hOff, error_bind]

/-- The first round writes the flags if it is not the last one. -/
theorem segments_flagsStop {t : TsoInfo} (hFits : LoadsFit t.ck0 t.ck1 hdr.length)
    (hTcp : t.tcp = true) (hMore : t.ctx.mss.toNat < t.paylen)
    (hRoom : ¬ t.ck1.ckStart.toNat + 14 ≤ hdr.length) :
    t.segments m t.paylen (firstSegment t hdr iov) = .error .headerCopy := by
  obtain ⟨fuel, hFuel⟩ := Nat.exists_eq_succ_of_ne_zero (Nat.ne_of_gt (Nat.zero_lt_of_lt hMore))
  have hLeft : t.paylen ≠ 0 := by omega
  have hNow : min t.paylen t.ctx.mss.toNat < t.paylen := by omega
  have hStore := hFits.tcp
  have hRound : t.segment m (firstSegment t hdr iov) = .error .headerCopy := by
    unfold TsoInfo.segment firstSegment
    dsimp only
    rw [TsoInfo.updateIp_eq _ _ hFits.ip, ok_bind]
    unfold TsoInfo.updateTcp
    rw [if_pos hTcp, hdrStore32_eq _ (by rw [TsoInfo.ipHeader_length]; omega), ok_bind, if_pos hNow,
      hdrAnd8_stops _ (by rw [put32_length, TsoInfo.ipHeader_length]; omega), error_bind]
  rw [hFuel, TsoInfo.segments, firstSegment, if_neg hLeft]
  exact congrArg (· >>= _) hRound

/-- The packet stops at its header exactly if the header is too short for it. -/
theorem transmitTso_headerStops (hNot : ¬ (tsoInfo ctx ck0 ck1 hdr).HeaderFits hdr.length) :
    transmitTso m ctx ck0 ck1 hdr iov = .error .headerCopy := by
  by_cases hLoads : LoadsFit ck0 ck1 hdr.length
  · have hFlags : ¬ ((tsoInfo ctx ck0 ck1 hdr).tcp = true →
        (tsoInfo ctx ck0 ck1 hdr).ctx.mss.toNat < (tsoInfo ctx ck0 ck1 hdr).paylen →
        (tsoInfo ctx ck0 ck1 hdr).ck1.ckStart.toNat + 14 ≤ hdr.length) :=
      fun h => hNot ⟨hLoads, h⟩
    obtain ⟨hTcp, hFlags⟩ := Classical.not_imp.mp hFlags
    obtain ⟨hMore, hRoom⟩ := Classical.not_imp.mp hFlags
    rw [transmitTso_loads hLoads, segments_flagsStop hLoads hTcp hMore hRoom]
    rfl
  · exact transmitTso_loadStops hLoads

theorem firstSegment_counted (t : TsoInfo) (hdr : List (BitVec 8)) (iov : List Iovec) :
    t.Counted (firstSegment t hdr iov) := by
  constructor
  · rfl
  · simp [firstSegment]
  · exact fun h => absurd h (Nat.lt_irrefl 0)

/-- The segmentation ends, with all segments sent, unless there is a payload and no room for it
in a segment. A packet that accesses its header out of bounds is not followed further. -/
theorem segmentation_ends_iff (m : Memory) (ctx : TxDesc) (ck0 ck1 : CkInfo)
    (hdr : List (BitVec 8)) (iov : List Iovec) :
    Yields (· = .headerCopy) (fun frames => frames.length = (tsoInfo ctx ck0 ck1 hdr).count)
      (transmitTso m ctx ck0 ck1 hdr iov) ↔
    0 < ctx.mss.toNat ∨ (tsoInfo ctx ck0 ck1 hdr).paylen = 0 ∨
      ¬ (tsoInfo ctx ck0 ck1 hdr).HeaderFits hdr.length := by
  by_cases hFits : (tsoInfo ctx ck0 ck1 hdr).HeaderFits hdr.length
  swap
  · rw [transmitTso_headerStops hFits]
    exact iff_of_true rfl (.inr (.inr hFits))
  have hLoads : LoadsFit ck0 ck1 hdr.length := hFits.toLoadsFit
  rw [transmitTso_loads hLoads]
  have hSized := firstSegment_sized (tsoInfo ctx ck0 ck1 hdr) hdr iov
  generalize hInfo : tsoInfo ctx ck0 ck1 hdr = t at hFits hSized
  have hCtx : t.ctx = ctx := by rw [← hInfo]; rfl
  rw [← hCtx]
  have hRun := TsoInfo.segments_yields (m := m) hFits (fun _ h _ hLeft => h.next hLeft m)
    t.paylen hSized (firstSegment_counted t hdr iov)
  constructor
  · intro hEnds
    by_contra hNot
    obtain ⟨hMss, hNot⟩ := not_or.mp hNot
    obtain ⟨hPay, -⟩ := not_or.mp hNot
    rw [TsoInfo.segments_stuck hFits (by omega) t.paylen hSized (Nat.pos_of_ne_zero hPay)] at hEnds
    cases hEnds
  · intro hEnds
    have hReturns : Returns (t.segments m t.paylen (firstSegment t hdr iov)) := by
      rcases hEnds with hMss | hPay | hNot
      · exact TsoInfo.segments_returns hFits hMss _ hSized (Nat.le_refl _)
      · rw [hPay]
        exact ⟨_, if_pos hPay⟩
      · exact absurd hFits hNot
    obtain ⟨s, hs⟩ := hReturns
    obtain ⟨hCounted, hDone⟩ := hRun.of_ok hs
    rw [hs]
    exact hCounted.frames.trans (hCounted.seg_eq hDone)

def tcpContext (paylen : BitVec 32) (mss : BitVec 16) : TxDesc where
  addr := 0x0E18210022320000
  lower := htole32 (0x27000000 ||| paylen)
  upper := 0x00360000 ||| (htole16 mss).setWidth 32

/-- A payload of one byte with a maximum segment size of zero. -/
theorem segmentation_endless : ¬ ∀ (m : Memory) (ctx : TxDesc) (ck0 ck1 : CkInfo)
    (hdr : List (BitVec 8)) (iov : List Iovec), Yields (· = .headerCopy)
      (fun frames => frames.length = (tsoInfo ctx ck0 ck1 hdr).count)
      (transmitTso m ctx ck0 ck1 hdr iov) := by
  intro hAll
  have hEnds := hAll (fun _ => 0) (tcpContext 1 0) ⟨true, 14, 24, 33⟩ ⟨true, 34, 50, 0⟩
    (List.replicate 54 0) [⟨0, 1⟩]
  revert hEnds
  decide +kernel

theorem transmitTso_ok {frames : List (List (List (BitVec 8)))}
    (h : transmitTso m ctx ck0 ck1 hdr iov = .ok frames) :
    (tsoInfo ctx ck0 ck1 hdr).HeaderFits hdr.length ∧ ∃ s,
      (tsoInfo ctx ck0 ck1 hdr).segments m (tsoInfo ctx ck0 ck1 hdr).paylen
        (firstSegment (tsoInfo ctx ck0 ck1 hdr) hdr iov) = .ok s ∧ s.frames = frames := by
  by_cases hFits : (tsoInfo ctx ck0 ck1 hdr).HeaderFits hdr.length
  · have hLoads : LoadsFit ck0 ck1 hdr.length := hFits.toLoadsFit
    rw [transmitTso_loads hLoads] at h
    refine ⟨hFits, ?_⟩
    cases hRun : (tsoInfo ctx ck0 ck1 hdr).segments m (tsoInfo ctx ck0 ck1 hdr).paylen
        (firstSegment (tsoInfo ctx ck0 ck1 hdr) hdr iov) with
    | ok s =>
      rw [hRun] at h
      obtain ⟨⟩ := h
      exact ⟨s, rfl, rfl⟩
    | error e =>
      rw [hRun] at h
      cases h
  · rw [transmitTso_headerStops hFits] at h
    cases h

theorem transmitTso_keeps {frames : List (List (List (BitVec 8)))} {Inv : Segments → Prop}
    (h : transmitTso m ctx ck0 ck1 hdr iov = .ok frames)
    (hFirst : Inv (firstSegment (tsoInfo ctx ck0 ck1 hdr) hdr iov))
    (hNext : ∀ s, Inv s → (tsoInfo ctx ck0 ck1 hdr).Sized hdr.length s → 0 < s.left →
      Inv ((tsoInfo ctx ck0 ck1 hdr).next m s)) :
    ∃ s, Inv s ∧ s.left = 0 ∧ s.frames = frames := by
  obtain ⟨hFits, s, hs, hFrames⟩ := transmitTso_ok h
  obtain ⟨hInv, hDone⟩ := (TsoInfo.segments_yields hFits hNext _
    (firstSegment_sized _ hdr iov) hFirst).of_ok hs
  exact ⟨s, hInv, hDone, hFrames⟩

/-- The segments cover the payload, and none of them is superfluous. -/
theorem transmitTso_covers {frames : List (List (List (BitVec 8)))}
    (h : transmitTso m ctx ck0 ck1 hdr iov = .ok frames) :
    (tsoInfo ctx ck0 ck1 hdr).paylen ≤ frames.length * ctx.mss.toNat ∧
      (0 < frames.length → (frames.length - 1) * ctx.mss.toNat < (tsoInfo ctx ck0 ck1 hdr).paylen) := by
  obtain ⟨s, hCounted, hDone, rfl⟩ := transmitTso_keeps h (firstSegment_counted _ hdr iov)
    fun _ hCounted _ hLeft => hCounted.next hLeft m
  rw [hCounted.frames]
  exact ⟨Nat.sub_eq_zero_iff_le.mp (hCounted.left.symm.trans hDone), hCounted.needed⟩

end Tso

end DeviceModel.E82545

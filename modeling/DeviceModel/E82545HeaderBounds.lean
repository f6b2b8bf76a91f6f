import DeviceModel.E82545Segments
import DeviceModel.E82545Vectors

/-!
# The e1000 network device: when the copied header is large enough

`e82545_transmit` takes the length of the header from the offsets of the enabled
checksums, or from the context descriptor if it segments the packet, and compares
neither with the other offsets nor with the length of the packet.
-/

set_option autoImplicit false

namespace DeviceModel.E82545

open Fallible

variable {m : Memory} {tx : Tx} {general : General} {p : Packet} {dsc : TxDesc}

section Gather

/-- The gathered header is as long as asked for, and what it takes is the first part of the packet. -/
theorem gatherHeader_eq {hdrlen : Nat} {iov : List Iovec} (hEnough : hdrlen ≤ totalLen iov) :
    ∃ hdr rest, gatherHeader m hdrlen iov = .ok (hdr, rest) ∧ (hdr.getD []).length = hdrlen ∧
      (hdr = none → hdrlen = 0) ∧ hdr.getD [] = (content m iov).take hdrlen ∧
      content m rest = (content m iov).drop hdrlen := by
  unfold gatherHeader
  by_cases hNone : hdrlen = 0
  · subst hNone
    rw [if_pos rfl]
    exact ⟨none, iov, rfl, rfl, fun _ => rfl, rfl, rfl⟩
  · have hSum : hdrlen ≤ (iov.map (·.iovLen)).sum := hEnough
    rw [if_neg hNone, assertThat_of _ hSum]
    refine ⟨_, _, rfl, ?_, ?_, splitVecs_take m hEnough, splitVecs_drop m hEnough⟩
    · exact (content_length m _).trans (splitVecs_totalLen hEnough)
    · rintro ⟨⟩

theorem gatherHeader_stops {hdrlen : Nat} {iov : List Iovec} (hShort : totalLen iov < hdrlen) :
    gatherHeader m hdrlen iov = .error .headerGather := by
  have hNot : ¬ hdrlen ≤ (iov.map (·.iovLen)).sum := Nat.not_le.mpr hShort
  unfold gatherHeader
  rw [if_neg (Nat.ne_of_gt (Nat.zero_lt_of_lt hShort)), assertThat, if_neg hNot]
  rfl

/-- The packet has as many bytes as tag and checksums, or the context, ask for. -/
structure Covered (p : Packet) (vlan : Bool) (ctx : TxDesc) (len : Nat) : Prop where
  segmented : p.tso = true → ctx.hdrLen.toNat ≤ len
  tag : p.tso = false → vlan = true → 12 ≤ len
  ck0 : p.tso = false → p.ck0.ckValid = true → p.ck0.ckOff.toNat + 2 ≤ len
  ck1 : p.tso = false → p.ck1.ckValid = true → p.ck1.ckOff.toNat + 2 ≤ len

def neededLen (p : Packet) (vlan : Bool) : Nat :=
  let hdrlen := if vlan then 12 else 0
  let hdrlen := if p.ck0.ckValid then max hdrlen (p.ck0.ckOff.toNat + 2) else hdrlen
  if p.ck1.ckValid then max hdrlen (p.ck1.ckOff.toNat + 2) else hdrlen

theorem neededLen_le_iff {vlan : Bool} {len : Nat} : neededLen p vlan ≤ len ↔
    (vlan = true → 12 ≤ len) ∧ (p.ck0.ckValid = true → p.ck0.ckOff.toNat + 2 ≤ len) ∧
      (p.ck1.ckValid = true → p.ck1.ckOff.toNat + 2 ≤ len) := by
  unfold neededLen
  cases vlan <;> cases p.ck0.ckValid <;> cases p.ck1.ckValid <;> simp <;> omega

/-- Rounding up to the first vector asks for no more than the packet has. -/
theorem headerLen_plain {vlan : Bool} {ctx : TxDesc} (hPlain : p.tso = false) :
    neededLen p vlan ≤ headerLen p vlan ctx ∧
      (headerLen p vlan ctx = neededLen p vlan ∨ headerLen p vlan ctx ≤ totalLen p.iov) := by
  have hFirst : (p.iov.head?.map (·.iovLen)).getD 0 ≤ totalLen p.iov := by
    cases p.iov with
    | nil => exact Nat.le_refl 0
    | cons v vs => exact Nat.le_add_right _ _
  have hEq : headerLen p vlan ctx =
      if neededLen p vlan ≠ 0 ∧ neededLen p vlan < (p.iov.head?.map (·.iovLen)).getD 0 ∧
        (p.iov.head?.map (·.iovLen)).getD 0 < neededLen p vlan + 100 then
        (p.iov.head?.map (·.iovLen)).getD 0 else neededLen p vlan :=
    if_neg (Bool.eq_false_iff.mp hPlain)
  rw [hEq]
  split
  · next hRound => exact ⟨Nat.le_of_lt hRound.2.1, .inr hFirst⟩
  · exact ⟨Nat.le_refl _, .inl rfl⟩

theorem headerLen_le_iff {vlan : Bool} {ctx : TxDesc} :
    headerLen p vlan ctx ≤ totalLen p.iov ↔ Covered p vlan ctx (totalLen p.iov) := by
  cases hTso : p.tso with
  | true =>
    have hLen : headerLen p vlan ctx = ctx.hdrLen.toNat := if_pos hTso
    rw [hLen]
    constructor
    · intro h
      exact ⟨fun _ => h, by simp [hTso], by simp [hTso], by simp [hTso]⟩
    · intro h
      exact h.segmented hTso
  | false =>
    obtain ⟨hNeeded, hRound⟩ := @headerLen_plain p vlan ctx hTso
    constructor
    · intro h
      obtain ⟨hTag, hCk0, hCk1⟩ := neededLen_le_iff.mp (hNeeded.trans h)
      exact ⟨by simp [hTso], fun _ => hTag, fun _ => hCk0, fun _ => hCk1⟩
    · intro h
      rcases hRound with hEq | hLe
      · rw [hEq]
        exact neededLen_le_iff.mpr ⟨h.tag hTso, h.ck0 hTso, h.ck1 hTso⟩
      · exact hLe

end Gather

section Copy

/-- The offsets of a checksum take the length of a tag without a carry out of 8 bits. -/
def ShiftFits (ck : CkInfo) : Prop := ck.ckStart.toNat + 4 < 256 ∧ ck.ckOff.toNat + 4 < 256

def Shifted (ck : CkInfo) : Prop :=
  ck.shift.ckStart.toNat = ck.ckStart.toNat + 4 ∧ ck.shift.ckOff.toNat = ck.ckOff.toNat + 4

theorem shifted_iff (ck : CkInfo) : Shifted ck ↔ ShiftFits ck := by
  have hAdd : ∀ x : BitVec 8, (x + 4).toNat = x.toNat + 4 ↔ x.toNat + 4 < 256 := by
    intro x
    bv_omega
  exact and_congr (hAdd ck.ckStart) (hAdd ck.ckOff)

def tagged (general : General) (dsc : TxDesc) : Bool :=
  general.ctrl &&& E1000_CTRL_VME ≠ 0 ∧ dsc.cmd E1000_TXD_CMD_VLE

def usedCk (vlan : Bool) (ck : CkInfo) : CkInfo := if vlan then ck.shift else ck

theorem insertVlan_eq {vlan : Bool} {vet : BitVec 32} {special : BitVec 16}
    {hdr : Option (List (BitVec 8))} (hRoom : vlan = true → 12 ≤ (hdr.getD []).length) :
    ∃ hdr', insertVlan vlan vet special hdr = .ok hdr' ∧
      (hdr'.getD []).length = (hdr.getD []).length + (if vlan then 4 else 0) ∧
      (hdr' = none → hdr = none) := by
  cases vlan with
  | false => exact ⟨hdr, rfl, rfl, id⟩
  | true =>
    unfold insertVlan
    rw [if_pos rfl]
    dsimp only
    rw [assertThat_of _ (hRoom rfl)]
    refine ⟨_, rfl, ?_, by rintro ⟨⟩⟩
    have hLen := hRoom rfl
    simp only [Option.getD_some, List.length_append, List.length_take, List.length_cons,
      List.length_nil, List.length_drop, if_true]
    omega

theorem insertVlan_stops {vet : BitVec 32} {special : BitVec 16} {hdr : Option (List (BitVec 8))}
    (hShort : ¬ 12 ≤ (hdr.getD []).length) :
    insertVlan true vet special hdr = .error .headerCopy := assertThat_bind_stops _ hShort

def NoHeaderFault (e : Fault) : Prop := e ≠ .headerGather ∧ e ≠ .headerCopy

theorem transmitTso_noHeaderFault_iff {ctx : TxDesc} {ck0 ck1 : CkInfo} {hdr : List (BitVec 8)}
    {iov : List Iovec} : StopsOnly NoHeaderFault (transmitTso m ctx ck0 ck1 hdr iov) ↔
      (tsoInfo ctx ck0 ck1 hdr).HeaderFits hdr.length := by
  by_cases hFits : (tsoInfo ctx ck0 ck1 hdr).HeaderFits hdr.length
  · refine iff_of_true ?_ hFits
    have hLoads : LoadsFit ck0 ck1 hdr.length := hFits.toLoadsFit
    rw [transmitTso_loads hLoads]
    apply StopsOnly.map
    intro e he
    have hLoop := (@TsoInfo.segments_yields m _ _ (fun _ => True) hFits (fun _ h _ _ => h) _ _
      (firstSegment_sized _ hdr iov) trivial).of_error he
    rw [hLoop]
    exact ⟨by decide, by decide⟩
  · rw [transmitTso_headerStops hFits]
    exact iff_of_false (fun h => (h _ rfl).2 rfl) hFits

/-- Without segmentation every store is in the space that was asked for. -/
theorem transmitPlain_noHeaderFault {ck0 ck1 : CkInfo} {hdr : Option (List (BitVec 8))}
    {iov : List Iovec}
    (hCk0 : ck0.ckValid = true → ck0.ckOff.toNat + 2 ≤ (hdr.getD []).length)
    (hCk1 : ck1.ckValid = true → ck1.ckOff.toNat + 2 ≤ (hdr.getD []).length) :
    StopsOnly NoHeaderFault (transmitPlain m ck0 ck1 hdr iov) := by
  cases hdr with
  | none => exact stopsOnly_ok _
  | some hdr =>
    have hFirst : ∃ hdr', (if ck0.ckValid then e82545TransmitChecksum m hdr iov ck0 else .ok hdr) =
        .ok hdr' ∧ hdr'.length = hdr.length := by
      split
      · next hValid => exact ⟨_, hdrStore16_eq _ (hCk0 hValid), put16_length _ _ _⟩
      · exact ⟨hdr, rfl, rfl⟩
    obtain ⟨hdr', hEq, hLen⟩ := hFirst
    unfold transmitPlain
    dsimp only
    rw [hEq, ok_bind]
    apply StopsOnly.bind
    · split
      · next hValid =>
        unfold e82545TransmitChecksum
        dsimp only
        rw [hdrStore16_eq _ (by rw [hLen]; exact hCk1 hValid)]
        exact stopsOnly_ok _
      · exact stopsOnly_ok _
    · exact fun _ => stopsOnly_ok _

structure HeaderBounds (p : Packet) (vlan : Bool) (ctx : TxDesc) : Prop where
  covered : Covered p vlan ctx (totalLen p.iov)
  tag : p.tso = true → vlan = true → 12 ≤ ctx.hdrLen.toNat
  segmented : p.tso = true → (tsoInfo ctx (usedCk vlan p.ck0) (usedCk vlan p.ck1) []).HeaderFits
    (ctx.hdrLen.toNat + if vlan then 4 else 0)
  shift : vlan = true → ShiftFits p.ck0 ∧ ShiftFits p.ck1

theorem headerFits_congr {ctx : TxDesc} {ck0 ck1 : CkInfo} (hdr : List (BitVec 8)) (len : Nat) :
    (tsoInfo ctx ck0 ck1 hdr).HeaderFits len ↔ (tsoInfo ctx ck0 ck1 []).HeaderFits len :=
  ⟨fun h => ⟨h.toLoadsFit, h.flags⟩, fun h => ⟨h.toLoadsFit, h.flags⟩⟩

theorem usedCk_room {vlan : Bool} {ck : CkInfo} {need len : Nat}
    (hNeed : ck.ckValid = true → ck.ckOff.toNat + 2 ≤ need) (hLen : need ≤ len) :
    (usedCk vlan ck).ckValid = true →
      (usedCk vlan ck).ckOff.toNat + 2 ≤ len + if vlan then 4 else 0 := by
  cases vlan with
  | false =>
    intro hValid
    exact (hNeed hValid).trans hLen
  | true =>
    intro hValid
    have hOff := hNeed hValid
    have hAdd : (ck.ckOff + 4).toNat ≤ ck.ckOff.toNat + 4 := by
      rw [BitVec.toNat_add]
      exact Nat.mod_le _ _
    change (ck.ckOff + 4).toNat + 2 ≤ len + 4
    omega

theorem transmitPacket_bounds_iff (hFew : p.iovcnt ≤ I82545_MAX_TXSEGS) :
    StopsOnly NoHeaderFault (transmitPacket m tx general p dsc) ∧
      (tagged general dsc = true → Shifted p.ck0 ∧ Shifted p.ck1) ↔
    HeaderBounds p (tagged general dsc) tx.txctx := by
  unfold transmitPacket
  rw [if_neg (Nat.not_lt.mpr hFew), shifted_iff, shifted_iff]
  change StopsOnly NoHeaderFault (gatherHeader m (headerLen p (tagged general dsc) tx.txctx) p.iov >>=
    fun r => insertVlan (tagged general dsc) general.vet dsc.fieldsSpecial r.1 >>= fun hdr =>
      if p.tso then transmitTso m tx.txctx (usedCk (tagged general dsc) p.ck0)
        (usedCk (tagged general dsc) p.ck1) (hdr.getD []) r.2
      else transmitPlain m (usedCk (tagged general dsc) p.ck0) (usedCk (tagged general dsc) p.ck1)
        hdr r.2) ∧ _ ↔ _
  generalize tagged general dsc = vlan
  by_cases hCovered : Covered p vlan tx.txctx (totalLen p.iov)
  swap
  · rw [gatherHeader_stops (Nat.lt_of_not_le fun h => hCovered (headerLen_le_iff.mp h)), error_bind]
    exact iff_of_false (fun h => (h.1 _ rfl).1 rfl) fun h => hCovered h.covered
  obtain ⟨hdr, rest, hGather, hLen, hNone, -, -⟩ :=
    @gatherHeader_eq m _ p.iov (headerLen_le_iff.mpr hCovered)
  rw [hGather, ok_bind]
  dsimp only
  cases hTso : p.tso with
  | true =>
    have hHdrLen : headerLen p vlan tx.txctx = tx.txctx.hdrLen.toNat := if_pos hTso
    rw [hHdrLen] at hLen
    by_cases hTag : vlan = true → 12 ≤ tx.txctx.hdrLen.toNat
    · obtain ⟨hdr', hInsert, hLen', -⟩ := @insertVlan_eq vlan general.vet dsc.fieldsSpecial hdr
        (by rw [hLen]; exact hTag)
      rw [hInsert, ok_bind, if_pos rfl, transmitTso_noHeaderFault_iff, headerFits_congr, hLen', hLen]
      constructor
      · rintro ⟨hFits, hShift⟩
        exact ⟨hCovered, fun _ => hTag, fun _ => hFits, hShift⟩
      · intro h
        exact ⟨h.segmented hTso, h.shift⟩
    · obtain ⟨rfl, hShort⟩ := Classical.not_imp.mp hTag
      rw [insertVlan_stops (by rw [hLen]; exact hShort), error_bind]
      exact iff_of_false (fun h => (h.1 _ rfl).2 rfl) fun h => hTag fun _ => h.tag hTso rfl
  | false =>
    obtain ⟨hNeeded, -⟩ := @headerLen_plain p vlan tx.txctx hTso
    obtain ⟨hRoom, hCk0, hCk1⟩ := neededLen_le_iff.mp (hNeeded.trans (Nat.le_of_eq hLen.symm))
    obtain ⟨hdr', hInsert, hLen', -⟩ := @insertVlan_eq vlan general.vet dsc.fieldsSpecial hdr hRoom
    rw [hInsert, ok_bind, if_neg Bool.false_ne_true]
    have hStops : StopsOnly NoHeaderFault
        (transmitPlain m (usedCk vlan p.ck0) (usedCk vlan p.ck1) hdr' rest) := by
      apply transmitPlain_noHeaderFault
      · rw [hLen']
        exact usedCk_room hCk0 (Nat.le_refl _)
      · rw [hLen']
        exact usedCk_room hCk1 (Nat.le_refl _)
    constructor
    · rintro ⟨-, hShift⟩
      exact ⟨hCovered, by simp [hTso], by simp [hTso], hShift⟩
    · intro h
      exact ⟨hStops, h.shift⟩

end Copy

section Ring

deriving instance DecidableEq for Packet, Scan

/-- The locals of the descriptor loop before its first round. -/
def Packet.start (head : Nat) : Packet :=
  ⟨0, head, 0, [], 0, ⟨false, 0, 0, 0⟩, ⟨false, 0, 0, 0⟩, false⟩

/-- `e82545_transmit` takes bytes from the vectors of the packet only, stays in its copy of the
header, and shifts the checksum offsets by the length of the tag. -/
def HeaderSafe (m : Memory) (tx : Tx) (tail dsize : Nat) (general : General) (head : Nat)
    (tdwb : Bool) (p : Packet) (dsc : TxDesc) : Prop :=
  StopsOnly NoHeaderFault (e82545Transmit m tx tail dsize general head tdwb) ∧
    (p.iovcnt ≤ I82545_MAX_TXSEGS → tagged general dsc = true → Shifted p.ck0 ∧ Shifted p.ck1)

variable {tail dsize head : Nat}

theorem e82545Transmit_packet (tdwb : Bool)
    (hScan : scanDescs m tx tail dsize (dsize + 1) (Packet.start head) = .ok (.packet p dsc)) :
    StopsOnly NoHeaderFault (e82545Transmit m tx tail dsize general head tdwb) ↔
      StopsOnly NoHeaderFault (transmitPacket m tx general p dsc) := by
  unfold e82545Transmit
  change StopsOnly NoHeaderFault (scanDescs m tx tail dsize (dsize + 1) (Packet.start head) >>= _) ↔ _
  rw [hScan, ok_bind]
  dsimp only
  cases transmitPacket m tx general p dsc with
  | ok frames => exact iff_of_true (stopsOnly_ok _) (stopsOnly_ok _)
  | error e =>
    constructor <;> rintro h _ ⟨⟩ <;> exact h _ rfl

/-- A complete packet is processed within its header exactly if it is dropped for its many
vectors or is large enough for what tag, checksums and segmentation do to it. -/
theorem headerCopy_safe_iff (tdwb : Bool)
    (hScan : scanDescs m tx tail dsize (dsize + 1) (Packet.start head) = .ok (.packet p dsc)) :
    HeaderSafe m tx tail dsize general head tdwb p dsc ↔
      I82545_MAX_TXSEGS < p.iovcnt ∨ HeaderBounds p (tagged general dsc) tx.txctx := by
  unfold HeaderSafe
  rw [e82545Transmit_packet tdwb hScan]
  rcases Nat.lt_or_ge I82545_MAX_TXSEGS p.iovcnt with hMany | hFew
  · refine iff_of_true ⟨?_, fun hFew => absurd hMany (Nat.not_lt.mpr hFew)⟩ (.inl hMany)
    unfold transmitPacket
    rw [if_pos hMany]
    exact stopsOnly_ok _
  · rw [← @transmitPacket_bounds_iff m tx general p dsc hFew]
    constructor
    · rintro ⟨hStops, hShift⟩
      exact .inr ⟨hStops, hShift hFew⟩
    · rintro (hMany | ⟨hStops, hShift⟩)
      · exact absurd hMany (Nat.not_lt.mpr hFew)
      · exact ⟨hStops, fun _ => hShift⟩

def ringMemory (bytes : List (BitVec 8)) : Memory :=
  fun a => bytes.getD (a - MIPS_XKPHYS_UNCACHED_BASE).toNat 0

def ringSoftc : Softc := Softc.calloc (PciEmul.pciEmulInit ⟨0, 0, 0⟩)

def ringTx (ctx : TxDesc) : Tx :=
  { ringSoftc.tx with txdesc := MIPS_XKPHYS_UNCACHED_BASE, txctx := ctx, txEnabled := true }

def legacyDesc (length cso cmd : BitVec 8) : List (BitVec 8) :=
  [0, 0, 0, 0, 0, 0, 0, 0, length, 0, cso, cmd, 0, 0, 0, 0]

theorem headerCopy_safe_iff_tagged : ∃ p dsc, HeaderSafe (ringMemory (legacyDesc 60 50 0x47))
    (ringTx ⟨0, 0, 0⟩) 1 8 { ringSoftc.general with ctrl := E1000_CTRL_VME } 0 false p dsc ∧
      headerLen p true ⟨0, 0, 0⟩ = 60 := by
  have hScan : scanDescs (ringMemory (legacyDesc 60 50 0x47)) (ringTx ⟨0, 0, 0⟩) 1 8 9
      (Packet.start 0) = .ok (.packet
        ⟨0, 0, 0, [⟨MIPS_XKPHYS_UNCACHED_BASE, 60⟩], 1, ⟨true, 0, 50, 0⟩, ⟨false, 0, 0, 0⟩, false⟩
        ⟨0, 0x3C003247, 0⟩) := by decide +kernel
  refine ⟨_, _, (headerCopy_safe_iff false hScan).mpr (.inr ?_), by decide⟩
  have hEnough : 52 ≤ totalLen [⟨MIPS_XKPHYS_UNCACHED_BASE, 60⟩] := by decide
  have hCovered : Covered ⟨0, 0, 0, [⟨MIPS_XKPHYS_UNCACHED_BASE, 60⟩], 1, ⟨true, 0, 50, 0⟩,
      ⟨false, 0, 0, 0⟩, false⟩ true ⟨0, 0, 0⟩ (totalLen [⟨MIPS_XKPHYS_UNCACHED_BASE, 60⟩]) :=
    ⟨by simp, fun _ _ => Nat.le_trans (by decide) hEnough, fun _ _ => hEnough, by simp⟩
  exact ⟨hCovered, by simp, by simp, fun _ => ⟨⟨by decide, by decide⟩, ⟨by decide, by decide⟩⟩⟩

theorem headerCopy_overruns : ¬ ∀ (m : Memory) (tx : Tx) (tail dsize head : Nat)
    (general : General) (tdwb : Bool) (p : Packet) (dsc : TxDesc),
    scanDescs m tx tail dsize (dsize + 1) (Packet.start head) = .ok (.packet p dsc) →
    HeaderSafe m tx tail dsize general head tdwb p dsc := by
  intro hAll
  have hScan : scanDescs (ringMemory (legacyDesc 60 200 0x07)) (ringTx ⟨0, 0, 0⟩) 1 8 9
      (Packet.start 0) = .ok (.packet
        ⟨0, 0, 0, [⟨MIPS_XKPHYS_UNCACHED_BASE, 60⟩], 1, ⟨true, 0, 200, 0⟩, ⟨false, 0, 0, 0⟩, false⟩
        ⟨0, 0x3C00C807, 0⟩) := by decide +kernel
  have hStop : fault? (e82545Transmit (ringMemory (legacyDesc 60 200 0x07)) (ringTx ⟨0, 0, 0⟩) 1 8
      ringSoftc.general 0 false) = some .headerGather := by decide +kernel
  have hSafe := (hAll _ _ 1 8 0 ringSoftc.general false _ _ hScan).1
  exact (hSafe _ (fault?_eq_some_iff.mp hStop)).1 rfl

end Ring

end DeviceModel.E82545

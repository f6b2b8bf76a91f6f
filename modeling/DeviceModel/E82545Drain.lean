import DeviceModel.E82545Receive
import Mathlib.Data.List.Induction

/-!
# The e1000 network device: register writes that wait for the transmitter

`e82545_tx_disable` waits until `esc_tx_active` is clear. Only a poll clears it, and
only a poll that finds nothing to transmit; so a write that disables the transmitter
comes back exactly if the last poll before it found nothing.
-/

set_option autoImplicit false

namespace DeviceModel.E82545

open Fallible

/-- The two waits that last for ever if they are entered. -/
def Drain (e : Fault) : Prop := e = .txDisable ∨ e = .rxDisable

instance (e : Fault) : Decidable (Drain e) := inferInstanceAs (Decidable (_ ∨ _))

abbrev NoDrain {α : Type} (x : Except Fault α) : Prop := StopsOnly (fun e => ¬ Drain e) x

/-- What a poll may stop at, reception apart. -/
def PollFault (e : Fault) : Prop :=
  e ∈ [Fault.txdescType, .txdescLoop, .headerGather, .headerCopy, .segmentLoop, .lintrPin]

instance : DecidablePred PollFault := fun e => inferInstanceAs (Decidable (e ∈ _))

abbrev PollStops {α : Type} (x : Except Fault α) : Prop := StopsOnly PollFault x

def PacketFault (e : Fault) : Prop := e ∈ [Fault.headerGather, .headerCopy, .segmentLoop]

instance : DecidablePred PacketFault := fun e => inferInstanceAs (Decidable (e ∈ _))

abbrev PacketStops {α : Type} (x : Except Fault α) : Prop := StopsOnly PacketFault x

def LineFault (e : Fault) : Prop := e = .lintrPin

abbrev LineStops {α : Type} (x : Except Fault α) : Prop := StopsOnly LineFault x

theorem PacketStops.pollStops {α : Type} {x : Except Fault α} (hx : PacketStops x) : PollStops x := by
  refine StopsOnly.mono hx fun e hFault => ?_
  cases e <;> first | decide | exact absurd hFault (by decide)

theorem LineStops.pollStops {α : Type} {x : Except Fault α} (hx : LineStops x) : PollStops x := by
  refine StopsOnly.mono hx ?_
  rintro _ rfl
  decide

theorem PollFault.noDrain {e : Fault} (h : PollFault e) : ¬ Drain e := by
  cases e <;> first | decide | exact absurd h (by decide)

theorem PollStops.noDrain {α : Type} {x : Except Fault α} (hx : PollStops x) : NoDrain x :=
  fun e he => (hx e he).noDrain

theorem LineStops.noDrain {α : Type} {x : Except Fault α} (hx : LineStops x) : NoDrain x :=
  PollStops.noDrain hx.pollStops

section Transmit

theorem hdrLoad16_packetStops (hdr : List (BitVec 8)) (off : Nat) : PacketStops (hdrLoad16 hdr off) :=
  (stopsOnly_assertThat (by decide)).bind fun _ => stopsOnly_ok _

theorem hdrLoad32_packetStops (hdr : List (BitVec 8)) (off : Nat) : PacketStops (hdrLoad32 hdr off) :=
  (stopsOnly_assertThat (by decide)).bind fun _ => stopsOnly_ok _

theorem hdrStore16_packetStops (hdr : List (BitVec 8)) (off : Nat) (x : BitVec 16) :
    PacketStops (hdrStore16 hdr off x) :=
  (stopsOnly_assertThat (by decide)).bind fun _ => stopsOnly_ok _

theorem hdrStore32_packetStops (hdr : List (BitVec 8)) (off : Nat) (x : BitVec 32) :
    PacketStops (hdrStore32 hdr off x) :=
  (stopsOnly_assertThat (by decide)).bind fun _ =>
    (hdrStore16_packetStops hdr _ _).bind fun hdr => hdrStore16_packetStops hdr _ _

theorem hdrAnd8_packetStops (hdr : List (BitVec 8)) (off : Nat) (mask : BitVec 8) :
    PacketStops (hdrAnd8 hdr off mask) :=
  (stopsOnly_assertThat (by decide)).bind fun _ => stopsOnly_ok _

theorem segment_packetStops (m : Memory) (t : TsoInfo) (s : Segments) : PacketStops (t.segment m s) := by
  have hIp : PacketStops (t.updateIp s.seg (min s.left t.ctx.mss.toNat) s.hdr) :=
    StopsOnly.ite ((hdrStore16_packetStops _ _ _).bind fun _ => hdrStore16_packetStops _ _ _)
      (hdrStore16_packetStops _ _ _)
  have hTcp : ∀ hdr, PacketStops (t.updateTcp s.left (min s.left t.ctx.mss.toNat) hdr) := fun hdr =>
    StopsOnly.ite ((hdrStore32_packetStops _ _ _).bind fun _ =>
      StopsOnly.ite (hdrAnd8_packetStops _ _ _) (stopsOnly_ok _)) (hdrStore32_packetStops _ _ _)
  have hSeeded : ∀ hdr vecs ck seed, PacketStops (TsoInfo.seededChecksum m hdr vecs ck seed) :=
    fun _ _ _ _ => StopsOnly.ite
      ((hdrStore16_packetStops _ _ _).bind fun _ => hdrStore16_packetStops _ _ _) (stopsOnly_ok _)
  refine hIp.bind fun hdr => (hTcp hdr).bind fun hdr => ?_
  exact (hSeeded _ _ _ _).bind fun _ => (hSeeded _ _ _ _).bind fun _ => stopsOnly_ok _

theorem segments_packetStops (m : Memory) (t : TsoInfo) (fuel : Nat) (s : Segments) :
    PacketStops (t.segments m fuel s) := by
  induction fuel generalizing s with
  | zero => exact StopsOnly.ite (stopsOnly_ok _) (stopsOnly_error (by decide))
  | succ fuel ih => exact StopsOnly.ite (stopsOnly_ok _) ((segment_packetStops m t s).bind ih)

theorem transmitTso_packetStops (m : Memory) (ctx : TxDesc) (ck0 ck1 : CkInfo)
    (hdr : List (BitVec 8)) (iov : List Iovec) : PacketStops (transmitTso m ctx ck0 ck1 hdr iov) := by
  refine (hdrLoad16_packetStops _ _).bind fun _ => (hdrLoad32_packetStops _ _).bind fun _ => ?_
  refine (hdrLoad16_packetStops _ _).bind fun _ => ?_
  refine StopsOnly.bind (StopsOnly.ite (hdrLoad16_packetStops _ _) (stopsOnly_ok _)) fun _ => ?_
  exact (segments_packetStops _ _ _ _).bind fun _ => stopsOnly_ok _

theorem transmitPlain_packetStops (m : Memory) (ck0 ck1 : CkInfo) (hdr : Option (List (BitVec 8)))
    (iov : List Iovec) : PacketStops (transmitPlain m ck0 ck1 hdr iov) := by
  cases hdr with
  | none => exact stopsOnly_ok _
  | some hdr =>
    refine StopsOnly.bind (StopsOnly.ite (hdrStore16_packetStops _ _ _) (stopsOnly_ok _)) fun _ => ?_
    refine StopsOnly.bind (StopsOnly.ite (hdrStore16_packetStops _ _ _) (stopsOnly_ok _)) fun _ => ?_
    exact stopsOnly_ok _

theorem transmitPacket_packetStops (m : Memory) (tx : Tx) (general : General) (p : Packet)
    (dsc : TxDesc) : PacketStops (transmitPacket m tx general p dsc) := by
  refine StopsOnly.ite (stopsOnly_ok _) (StopsOnly.bind ?_ fun _ => StopsOnly.bind ?_ fun _ => ?_)
  · exact StopsOnly.ite (stopsOnly_ok _)
      ((stopsOnly_assertThat (by decide)).bind fun _ => stopsOnly_ok _)
  · exact StopsOnly.ite ((stopsOnly_assertThat (by decide)).bind fun _ => stopsOnly_ok _)
      (stopsOnly_ok _)
  · exact StopsOnly.ite (transmitTso_packetStops _ _ _ _ _ _) (transmitPlain_packetStops _ _ _ _ _)

theorem scanDescs_pollStops (m : Memory) (tx : Tx) (tail dsize fuel : Nat) (p : Packet) :
    PollStops (scanDescs m tx tail dsize fuel p) := by
  induction fuel generalizing p with
  | zero => exact stopsOnly_error (by decide)
  | succ fuel ih =>
    refine StopsOnly.ite (stopsOnly_ok _) (StopsOnly.ite (stopsOnly_ok _) ?_)
    exact (stopsOnly_assertThat (by decide)).bind fun _ => StopsOnly.ite (stopsOnly_ok _) (ih _)

theorem e82545Transmit_pollStops (m : Memory) (tx : Tx) (tail dsize : Nat) (general : General)
    (head : Nat) (tdwb : Bool) : PollStops (e82545Transmit m tx tail dsize general head tdwb) := by
  refine (scanDescs_pollStops _ _ _ _ _ _).bind fun scan => ?_
  cases scan with
  | incomplete head => exact stopsOnly_ok _
  | context cd head => exact stopsOnly_ok _
  | packet p dsc =>
    exact (transmitPacket_packetStops _ _ _ _ _).pollStops.bind fun _ => stopsOnly_ok _

variable {φ : Type} (F : Fifo φ)

theorem txRunLoop_pollStops (general : General) (tx : Tx) (tail size fuel : Nat) (r : TxRun φ) :
    PollStops (txRunLoop F general tx tail size fuel r) := by
  induction fuel generalizing r with
  | zero => exact stopsOnly_ok _
  | succ fuel ih =>
    refine StopsOnly.ite (stopsOnly_ok _) ((e82545Transmit_pollStops _ _ _ _ _ _ _).bind fun t => ?_)
    exact StopsOnly.ite (stopsOnly_ok _) (ih _)

end Transmit

section Interrupts

variable (x : Intr)

theorem pciLintrAssert_lineStops (pi : PciEmul.PciDevinst) : LineStops pi.pciLintrAssert :=
  (stopsOnly_assertThat (E := LineFault) rfl).bind fun _ =>
    StopsOnly.ite (StopsOnly.ite (stopsOnly_ok _) (stopsOnly_ok _)) (stopsOnly_ok _)

theorem pciLintrDeassert_lineStops (pi : PciEmul.PciDevinst) : LineStops pi.pciLintrDeassert := by
  refine (stopsOnly_assertThat (E := LineFault) rfl).bind fun _ => ?_
  cases pi.lintrState with
  | idle => exact stopsOnly_ok _
  | asserted => exact stopsOnly_ok _
  | pending => exact stopsOnly_ok _

theorem raise_lineStops (new : BitVec 32) : LineStops (x.raise new) :=
  StopsOnly.ite (stopsOnly_ok _) ((pciLintrAssert_lineStops _).bind fun _ =>
    StopsOnly.ite (stopsOnly_ok _) (stopsOnly_ok _))

theorem e82545IcrDeassert_lineStops (bits : BitVec 32) : LineStops (x.e82545IcrDeassert bits) :=
  StopsOnly.ite ((pciLintrDeassert_lineStops _).bind fun _ => stopsOnly_ok _) (stopsOnly_ok _)

theorem runCallout_lineStops : LineStops x.runCallout := by
  unfold Intr.runCallout
  cases x.callout with
  | none => exact stopsOnly_ok _
  | some delay =>
    exact StopsOnly.ite ((pciLintrAssert_lineStops _).bind fun _ => stopsOnly_ok _) (stopsOnly_ok _)

theorem e82545IntrWrite_lineStops (value : BitVec 32) (reg : Reg) :
    LineStops (x.e82545IntrWrite value reg) := by
  cases reg
  case icr => exact e82545IcrDeassert_lineStops _ _
  case ics => exact raise_lineStops _ _
  case ims => exact raise_lineStops _ _
  all_goals exact stopsOnly_ok _

theorem e82545IntrRead_lineStops (reg : Reg) : LineStops (x.e82545IntrRead reg) := by
  cases reg
  case icr => exact (e82545IcrDeassert_lineStops _ _).bind fun _ => stopsOnly_ok _
  all_goals exact stopsOnly_ok _

end Interrupts

section Registers

variable {sc : Softc}

def SameActivity (sc sc' : Softc) : Prop :=
  sc'.tx.txActive = sc.tx.txActive ∧ sc'.rx.rxActive = sc.rx.rxActive

/-- The value, written to the register, disables the transmitter: a clear TCTL.EN while it is set,
or a reset. -/
def Softc.Disables (sc : Softc) (value : BitVec 32) : Reg → Prop
  | .ctrl | .ctrlDup => value &&& E1000_CTRL_RST ≠ 0
  | .tctl => value &&& E1000_TCTL_EN ≠ E1000_TCTL_EN ∧ sc.tx.txEnabled = true
  | _ => False

/-- A step that stops at a wait only if it disables the transmitter while it is active. -/
def Waits (sc : Softc) (disables : Prop) (x : Except Fault Softc) : Prop :=
  Yields (fun e => Drain e → disables ∧ sc.tx.txActive = true) (SameActivity sc) x

theorem waits_ok {sc' : Softc} {disables : Prop} (h : SameActivity sc sc') :
    Waits sc disables (.ok sc') := h

theorem Waits.weaken {P Q : Prop} {x : Except Fault Softc} (hx : Waits sc P x) (h : P → Q) :
    Waits sc Q x := by
  cases x with
  | ok sc' => exact hx
  | error e => exact fun hDrain => (hx hDrain).imp_left h

theorem waits_bind {α : Type} {x : Except Fault α} {f : α → Softc} {disables : Prop}
    (hx : NoDrain x) (hf : ∀ a, SameActivity sc (f a)) :
    Waits sc disables (x >>= fun a => pure (f a)) := by
  cases x with
  | ok a => exact hf a
  | error e => exact fun h => absurd h (hx e rfl)

theorem waits_map {α : Type} {x : Except Fault α} {f : α → Softc} {disables : Prop} (hx : NoDrain x)
    (hf : ∀ a, SameActivity sc (f a)) : Waits sc disables (x.map f) := by
  cases x with
  | ok a => exact hf a
  | error e => exact fun h => absurd h (hx e rfl)

variable (sc)

theorem e82545RxDisable_eq (hRx : sc.rx.rxActive = false) :
    sc.e82545RxDisable = .ok { sc with rx.rxEnabled := false } := by
  simp [Softc.e82545RxDisable, assertThat, hRx]

theorem e82545TxDisable_eq (hTx : sc.tx.txActive = false) :
    sc.e82545TxDisable = .ok { sc with tx.txEnabled := false } := by
  simp [Softc.e82545TxDisable, assertThat, hTx]

theorem e82545TxDisable_stuck (hTx : sc.tx.txActive = true) :
    sc.e82545TxDisable = .error .txDisable := by
  simp [Softc.e82545TxDisable, assertThat, hTx]

theorem e82545Reset_eq (drvr : Bool) (hRx : sc.rx.rxActive = false)
    (hTx : sc.tx.txActive = false) : sc.e82545Reset drvr =
      { sc with rx.rxEnabled := false, tx.txEnabled := false }.resetState drvr := by
  unfold Softc.e82545Reset
  rw [e82545RxDisable_eq sc hRx, ok_bind,
    e82545TxDisable_eq { sc with rx.rxEnabled := false } hTx, ok_bind]

theorem e82545Reset_stuck (drvr : Bool) (hRx : sc.rx.rxActive = false)
    (hTx : sc.tx.txActive = true) : sc.e82545Reset drvr = .error .txDisable := by
  unfold Softc.e82545Reset
  rw [e82545RxDisable_eq sc hRx, ok_bind,
    e82545TxDisable_stuck { sc with rx.rxEnabled := false } hTx, error_bind]

theorem resetState_waits (drvr : Bool) : Waits sc False (sc.resetState drvr) := by
  refine waits_bind (LineStops.noDrain (StopsOnly.ite (pciLintrDeassert_lineStops _) (stopsOnly_ok _)))
    fun pi => ?_
  cases drvr <;> exact ⟨rfl, rfl⟩

theorem e82545Reset_waits (drvr : Bool) (hRx : sc.rx.rxActive = false) :
    Waits sc True (sc.e82545Reset drvr) := by
  cases hTx : sc.tx.txActive with
  | true =>
    rw [e82545Reset_stuck sc drvr hRx hTx]
    exact fun _ => ⟨trivial, hTx⟩
  | false =>
    rw [e82545Reset_eq sc drvr hRx hTx]
    exact (resetState_waits _ drvr).weaken False.elim

theorem e82545Devctl_waits (value : BitVec 32) (hRx : sc.rx.rxActive = false) :
    Waits sc (value &&& E1000_CTRL_RST ≠ 0) (sc.e82545Devctl value) := by
  unfold Softc.e82545Devctl
  dsimp only
  split
  · next hRst =>
    exact (e82545Reset_waits { sc with general.ctrl := value &&& ~~~E1000_CTRL_RST } true hRx).weaken
      fun _ => hRst
  · exact waits_ok ⟨rfl, rfl⟩

theorem e82545TxCtl_waits (value : BitVec 32) :
    Waits sc (sc.Disables value .tctl) (sc.e82545TxCtl value) := by
  unfold Softc.e82545TxCtl
  dsimp only
  split
  · exact waits_ok ⟨rfl, rfl⟩
  next hChange =>
  split
  · exact waits_ok ⟨rfl, rfl⟩
  next hOff =>
  have hOff : ¬ value &&& E1000_TCTL_EN = E1000_TCTL_EN := by simpa using hOff
  have hOn : sc.tx.txEnabled = true := by simpa [hOff] using hChange
  cases hTx : sc.tx.txActive with
  | true =>
    rw [e82545TxDisable_stuck sc hTx]
    exact fun _ => ⟨⟨hOff, hOn⟩, hTx⟩
  | false =>
    rw [e82545TxDisable_eq sc hTx]
    exact waits_ok ⟨rfl, rfl⟩

theorem e82545RxCtl_waits (value : BitVec 32) (hRx : sc.rx.rxActive = false) :
    Waits sc False (sc.e82545RxCtl value) := by
  unfold Softc.e82545RxCtl
  dsimp only
  split
  · exact waits_ok ⟨rfl, rfl⟩
  · split
    · exact waits_ok ⟨rfl, rfl⟩
    · rw [e82545RxDisable_eq { sc with rx.rctl := value &&& ~~~0xF9204c01 } hRx]
      exact waits_ok ⟨rfl, rfl⟩

/-- A register write comes to a wait that does not end only if it disables an active
transmitter. -/
theorem writeReg_waits (value : BitVec 32) (reg : Reg) (hRx : sc.rx.rxActive = false) :
    Waits sc (sc.Disables value reg) (sc.writeReg value reg) := by
  cases reg
  case ctrl => exact e82545Devctl_waits sc value hRx
  case ctrlDup => exact e82545Devctl_waits sc value hRx
  case rctl => exact e82545RxCtl_waits sc value hRx
  case tctl => exact e82545TxCtl_waits sc value
  case icr => exact waits_map ((e82545IntrWrite_lineStops _ _ _).noDrain) fun _ => ⟨rfl, rfl⟩
  case ics => exact waits_map ((e82545IntrWrite_lineStops _ _ _).noDrain) fun _ => ⟨rfl, rfl⟩
  case ims => exact waits_map ((e82545IntrWrite_lineStops _ _ _).noDrain) fun _ => ⟨rfl, rfl⟩
  case rdbah => exact waits_bind (stopsOnly_assertThat (by decide)) fun _ => ⟨rfl, rfl⟩
  case rdlen => exact waits_bind (stopsOnly_assertThat (by decide)) fun _ => ⟨rfl, rfl⟩
  case ra => exact waits_bind (stopsOnly_assertThat (by decide)) fun _ => ⟨rfl, rfl⟩
  case rdbal =>
    refine waits_ok ?_
    split <;> exact ⟨rfl, rfl⟩
  case tdbal =>
    refine waits_ok ?_
    split <;> exact ⟨rfl, rfl⟩
  all_goals exact waits_ok ⟨rfl, rfl⟩

theorem writeReg_stuck {value : BitVec 32} {reg : Reg} (hRx : sc.rx.rxActive = false)
    (hTx : sc.tx.txActive = true) (h : sc.Disables value reg) :
    sc.writeReg value reg = .error .txDisable := by
  cases reg
  case ctrl => exact (if_pos h).trans (e82545Reset_stuck _ true hRx hTx)
  case ctrlDup => exact (if_pos h).trans (e82545Reset_stuck _ true hRx hTx)
  case tctl =>
    obtain ⟨hOff, hOn⟩ := h
    simp [Softc.writeReg, Softc.e82545TxCtl, hOff, hOn, e82545TxDisable_stuck sc hTx]
  all_goals exact absurd h id

def Softc.target (baridx : Nat) (offset : BitVec 64) (size : Nat) : Option Reg :=
  let offset? : Option (BitVec 32) :=
    if size ≠ 4 then none
    else if baridx = E82545_BAR_IO then
      if offset = E82545_IODATA ∧ sc.ioAddr ≤ E82545_IO_REGISTER_MAX then some sc.ioAddr else none
    else if baridx = E82545_BAR_REGISTER then some (offset.setWidth 32)
    else none
  offset?.bind fun offset => if offset &&& 0x3 ≠ 0 then none else Reg.ofOffset offset

theorem e82545WriteRegister_eq (offset value : BitVec 32) :
    sc.e82545WriteRegister offset value =
      (if offset &&& 0x3 ≠ 0 then none else Reg.ofOffset offset).elim (.ok sc) (sc.writeReg value) := by
  unfold Softc.e82545WriteRegister
  split
  · rfl
  · cases Reg.ofOffset offset <;> rfl

/-- A write either reaches a register or at most sets the address of the data port. -/
theorem e82545Write_cases (baridx : Nat) (offset : BitVec 64) (size : Nat) (value : BitVec 64) :
    (∃ reg, sc.target baridx offset size = some reg ∧
      sc.e82545Write baridx offset size value = sc.writeReg (value.setWidth 32) reg) ∨
    sc.target baridx offset size = none ∧
      ∃ ioAddr, sc.e82545Write baridx offset size value = .ok { sc with ioAddr } := by
  have hRegister : ∀ o : BitVec 32, sc.target baridx offset size =
      (if o &&& 0x3 ≠ 0 then none else Reg.ofOffset o) →
      sc.e82545Write baridx offset size value = sc.e82545WriteRegister o (value.setWidth 32) →
      (∃ reg, sc.target baridx offset size = some reg ∧
        sc.e82545Write baridx offset size value = sc.writeReg (value.setWidth 32) reg) ∨
      sc.target baridx offset size = none ∧
        ∃ ioAddr, sc.e82545Write baridx offset size value = .ok { sc with ioAddr } := by
    intro o hTarget hWrite
    rw [hTarget, hWrite, e82545WriteRegister_eq]
    cases if o &&& 0x3 ≠ 0 then none else Reg.ofOffset o with
    | none => exact .inr ⟨rfl, sc.ioAddr, rfl⟩
    | some reg => exact .inl ⟨reg, rfl, rfl⟩
  by_cases hSize : size = 4
  swap
  · exact .inr ⟨by simp [Softc.target, hSize], sc.ioAddr, by simp [Softc.e82545Write, hSize]⟩
  by_cases hIo : baridx = E82545_BAR_IO
  · by_cases hData : offset = E82545_IODATA ∧ sc.ioAddr ≤ E82545_IO_REGISTER_MAX
    · have hAddr : ¬ offset = E82545_IOADDR := by rw [hData.1]; decide
      exact hRegister sc.ioAddr (by simp [Softc.target, hSize, hIo, hData])
        (by simp only [Softc.e82545Write, hSize, hIo, ne_eq, not_true_eq_false, if_false, if_true,
          if_neg hAddr, if_pos hData])
    · refine .inr ⟨by simp [Softc.target, hSize, hIo, hData], ?_⟩
      by_cases hAddr : offset = E82545_IOADDR
      · exact ⟨value.setWidth 32, by simp [Softc.e82545Write, hSize, hIo, hAddr]⟩
      · exact ⟨sc.ioAddr, by simp [Softc.e82545Write, hSize, hIo, hAddr, hData]⟩
  · by_cases hBar : baridx = E82545_BAR_REGISTER
    · subst hBar
      exact hRegister (offset.setWidth 32)
        (by simp [Softc.target, hSize, E82545_BAR_REGISTER, E82545_BAR_IO])
        (by simp [Softc.e82545Write, hSize, E82545_BAR_REGISTER, E82545_BAR_IO])
    · exact .inr ⟨by simp [Softc.target, hSize, hIo, hBar], sc.ioAddr,
        by simp [Softc.e82545Write, hSize, hIo, hBar]⟩

def Softc.WriteDisables (baridx : Nat) (offset : BitVec 64) (size : Nat) (value : BitVec 64) : Prop :=
  ∃ reg, sc.target baridx offset size = some reg ∧ sc.Disables (value.setWidth 32) reg

theorem e82545Write_waits (baridx : Nat) (offset : BitVec 64) (size : Nat) (value : BitVec 64)
    (hRx : sc.rx.rxActive = false) : Waits sc (sc.WriteDisables baridx offset size value)
      (sc.e82545Write baridx offset size value) := by
  obtain ⟨reg, hTarget, hWrite⟩ | ⟨-, ioAddr, hWrite⟩ :=
    e82545Write_cases sc baridx offset size value
  · rw [hWrite]
    exact (writeReg_waits sc _ reg hRx).weaken fun h => ⟨reg, hTarget, h⟩
  · rw [hWrite]
    exact waits_ok ⟨rfl, rfl⟩

theorem e82545Write_stuck {baridx : Nat} {offset : BitVec 64} {size : Nat} {value : BitVec 64}
    (hRx : sc.rx.rxActive = false) (hTx : sc.tx.txActive = true)
    (h : sc.WriteDisables baridx offset size value) :
    sc.e82545Write baridx offset size value = .error .txDisable := by
  obtain ⟨reg, hTarget, hDisables⟩ := h
  obtain ⟨reg', hTarget', hWrite⟩ | ⟨hNone, -⟩ := e82545Write_cases sc baridx offset size value
  · obtain rfl : reg = reg' := Option.some.inj (hTarget.symm.trans hTarget')
    rw [hWrite]
    exact writeReg_stuck sc hRx hTx hDisables
  · exact absurd (hNone.symm.trans hTarget) (by simp)

/-- What a read, and every other step that leaves the flags alone, yields. -/
abbrev Keeps (sc : Softc) {α : Type} (f : α → Softc) (x : Except Fault α) : Prop :=
  Yields (fun e => ¬ Drain e) (fun a => SameActivity sc (f a)) x

theorem keeps_map {α β : Type} {x : Except Fault α} {g : α → β} {f : β → Softc} (hx : NoDrain x)
    (hf : ∀ a, SameActivity sc (f (g a))) : Keeps sc f (x.map g) := by
  cases x with
  | ok a => exact hf a
  | error e => exact hx e rfl

theorem readReg_keeps (reg : Reg) : Keeps sc Prod.snd (sc.readReg reg) := by
  have hIntr : ∀ r, NoDrain (sc.intr.e82545IntrRead r) := fun r =>
    (e82545IntrRead_lineStops sc.intr r).noDrain
  cases reg
  case icr => exact keeps_map sc (hIntr .icr) fun _ => ⟨rfl, rfl⟩
  case ra ridx =>
    refine keeps_map sc ?_ fun _ => ⟨rfl, rfl⟩
    exact (stopsOnly_assertThat (by decide)).bind fun _ =>
      StopsOnly.ite (stopsOnly_ok _) (stopsOnly_ok _)
  all_goals exact ⟨rfl, rfl⟩

theorem e82545ReadRegister_keeps (offset : BitVec 32) :
    Keeps sc Prod.snd (sc.e82545ReadRegister offset) := by
  unfold Softc.e82545ReadRegister
  split
  · exact ⟨rfl, rfl⟩
  · cases Reg.ofOffset offset with
    | none => exact ⟨rfl, rfl⟩
    | some reg => exact readReg_keeps sc reg

theorem e82545Read_keeps (baridx : Nat) (offset : BitVec 64) (size : Nat) :
    Keeps sc Prod.snd (sc.e82545Read baridx offset size) := by
  have hWiden : ∀ o : BitVec 32, Keeps sc Prod.snd
      ((sc.e82545ReadRegister o).map fun r => (r.1.setWidth 64, r.2)) :=
    fun o => Yields.map (e82545ReadRegister_keeps sc o)
  unfold Softc.e82545Read
  split
  · split
    · exact ⟨rfl, rfl⟩
    · split
      · exact hWiden sc.ioAddr
      · exact ⟨rfl, rfl⟩
  · split
    · exact hWiden _
    · exact ⟨rfl, rfl⟩

end Registers

section Poll

variable {φ : Type} (F : Fifo φ) (s : E1000 φ)

theorem e82545TxRun_yields : Yields PollFault
    (fun s' => s'.sc.tx.txActive = s.sc.tx.txActive ∧ s'.sc.rx = s.sc.rx) (e82545TxRun F s) := by
  refine (txRunLoop_pollStops F _ _ _ _ _ _).yields.bind fun r _ _ => ?_
  exact (StopsOnly.ite (raise_lineStops _ _).pollStops (stopsOnly_ok _)).yields.bind fun intr _ _ => ⟨rfl, rfl⟩

/-- A poll sets the flag exactly if it finds work. -/
theorem e82545TxPoll_yields : Yields PollFault
    (fun s' => (s'.sc.tx.txActive = true ↔ s.sc.tx.HasWork) ∧ s'.sc.rx = s.sc.rx)
    (e82545TxPoll F s) := by
  unfold e82545TxPoll
  split
  · next hWork =>
    exact (e82545TxRun_yields F _).imp fun s' _ h => ⟨by simp [h.1, hWork], h.2⟩
  · next hIdle => exact ⟨by simp [hIdle], rfl⟩

theorem rxRunLoop_noDrain (sc : Softc) (fuel : Nat) (r : RxRun φ) :
    NoDrain (rxRunLoop F sc fuel r) := by
  induction fuel generalizing r with
  | zero => exact stopsOnly_error (by decide)
  | succ fuel ih =>
    exact StopsOnly.ite (stopsOnly_ok _) (StopsOnly.ite (stopsOnly_ok _) (StopsOnly.ite (ih _) (ih _)))

theorem rxLeft_noDrain (rx : Rx) (head : Nat) : NoDrain (rx.left head) :=
  (stopsOnly_assertThat (by decide)).bind fun _ => stopsOnly_ok _

/-- `esc_rx_active` is clear again when the callback returns. -/
theorem e82545TapCallback_yields (fuel : Nat) (hRx : s.sc.rx.rxActive = false) :
    Yields (fun e => ¬ Drain e) (fun s' => s'.sc.tx = s.sc.tx ∧ s'.sc.rx.rxActive = false)
      (e82545TapCallback F fuel s) := by
  unfold e82545TapCallback
  dsimp only
  split
  · exact ⟨rfl, hRx⟩
  · refine (rxLeft_noDrain _ _).yields.bind fun left _ _ => ?_
    split
    · exact ⟨rfl, hRx⟩
    · refine (rxRunLoop_noDrain F _ _ _).yields.bind fun r _ _ => ?_
      refine (rxLeft_noDrain _ _).yields.bind fun left _ _ => ?_
      exact (LineStops.noDrain (StopsOnly.ite (raise_lineStops _ _) (stopsOnly_ok _))).yields.bind
        fun intr _ _ => ⟨rfl, rfl⟩

end Poll

section Run

/-- What happens to the device while `dm_loop` runs: a guest request and the poll that ends the
pass; between them stores of the guest to its memory, the ITR callout, and the thread that takes
packets in when the FIFO interrupts. -/
inductive Event where
  | write (baridx : Nat) (offset : BitVec 64) (size : Nat) (value : BitVec 64)
  | read (baridx : Nat) (offset : BitVec 64) (size : Nat)
  | poll (fuel : Nat)
  | store (mem : Memory)
  | callout
  | fifoWork (fuel : Nat)

variable {φ : Type} (F : Fifo φ)

def step (s : E1000 φ) : Event → Except Fault (E1000 φ)
  | .write baridx offset size value =>
    (s.sc.e82545Write baridx offset size value).map ({ s with sc := · })
  | .read baridx offset size => (s.sc.e82545Read baridx offset size).map ({ s with sc := ·.2 })
  | .poll fuel => e1000Poll F fuel s
  | .store mem => .ok { s with mem }
  | .callout => s.sc.intr.runCallout.map ({ s with sc.intr := · })
  | .fifoWork fuel => e82545TapCallback F fuel s

def runFrom (pi : PciEmul.PciDevinst) (mem : Memory) (fifo : φ) (es : List Event) :
    Except Fault (E1000 φ) := do
  let sc ← Softc.e82545Init pi
  run (step F) ⟨sc, mem, fifo⟩ es

def Event.IsWrite : Event → Prop
  | .write .. => True
  | _ => False

def Event.IsPoll : Event → Prop
  | .poll _ => True
  | _ => False

theorem step_keeps {s : E1000 φ} (e : Event) (hRx : s.sc.rx.rxActive = false) (hWrite : ¬ e.IsWrite)
    (hPoll : ¬ e.IsPoll) : Yields (fun f => ¬ Drain f)
      (fun s' => s'.sc.rx.rxActive = false ∧ s'.sc.tx.txActive = s.sc.tx.txActive) (step F s e) := by
  cases e with
  | write baridx offset size value => exact absurd trivial hWrite
  | read baridx offset size =>
    exact Yields.map ((e82545Read_keeps s.sc baridx offset size).imp fun r _ hSame =>
      ⟨hSame.2.trans hRx, hSame.1⟩)
  | poll fuel => exact absurd trivial hPoll
  | store mem => exact ⟨hRx, rfl⟩
  | callout =>
    exact Yields.map ((runCallout_lineStops s.sc.intr).noDrain.yields.imp fun _ _ _ => ⟨hRx, rfl⟩)
  | fifoWork fuel =>
    exact (e82545TapCallback_yields F s fuel hRx).imp fun s' _ h => ⟨h.2, by rw [h.1]⟩

theorem e1000Poll_yields {s : E1000 φ} (fuel : Nat) (hRx : s.sc.rx.rxActive = false) :
    Yields (fun f => ¬ Drain f)
      (fun s' => s'.sc.rx.rxActive = false ∧ (s'.sc.tx.txActive = true ↔ s.sc.tx.HasWork))
      (e1000Poll F fuel s) := by
  refine Yields.bind ((e82545TxPoll_yields F s).mono fun _ => PollFault.noDrain) fun t _ hPoll => ?_
  refine (e82545TapCallback_yields F t fuel (by rw [hPoll.2, hRx])).imp fun s' _ h => ?_
  exact ⟨h.2, by rw [h.1, hPoll.1]⟩

theorem writeStep_yields {s : E1000 φ} (baridx : Nat) (offset : BitVec 64) (size : Nat)
    (value : BitVec 64) (hRx : s.sc.rx.rxActive = false) :
    Yields (fun f => Drain f → s.sc.WriteDisables baridx offset size value ∧ s.sc.tx.txActive = true)
      (fun s' => s'.sc.rx.rxActive = false ∧ s'.sc.tx.txActive = s.sc.tx.txActive)
      (step F s (.write baridx offset size value)) := by
  have hWaits : Yields _ _ _ := e82545Write_waits s.sc baridx offset size value hRx
  exact Yields.map (hWaits.imp fun sc _ hSame => ⟨hSame.2.trans hRx, hSame.1⟩)

variable (pi : PciEmul.PciDevinst) (mem : Memory) (fifo : φ)

def LastPollIdle (es : List Event) : Prop :=
  ∀ pre fuel post, es = pre ++ .poll fuel :: post → (∀ e ∈ post, ¬ e.IsPoll) →
    ∀ s, runFrom F pi mem fifo pre = .ok s → ¬ s.sc.tx.HasWork

/-- Every write of the run that disables the transmitter follows a poll that found nothing to
transmit, or no poll at all. -/
def DisablesIdle (es : List Event) : Prop :=
  ∀ pre baridx offset size value post, es = pre ++ .write baridx offset size value :: post →
    ∀ s, runFrom F pi mem fifo pre = .ok s → s.sc.WriteDisables baridx offset size value →
      LastPollIdle F pi mem fifo pre

def NeverWaits (es : List Event) : Prop :=
  ∀ e, runFrom F pi mem fifo es = .error e → ¬ Drain e

variable {F pi mem fifo}

theorem e82545Init_eq : ∃ sc, Softc.e82545Init pi = .ok sc ∧ sc.tx.txActive = false ∧
    sc.rx.rxActive = false := ⟨_, rfl, rfl, rfl⟩

theorem lastPollIdle_poll {es : List Event} {fuel : Nat} :
    LastPollIdle F pi mem fifo (es ++ [.poll fuel]) ↔
      ∀ s, runFrom F pi mem fifo es = .ok s → ¬ s.sc.tx.HasWork := by
  constructor
  · intro h
    exact h es fuel [] rfl (by simp)
  · intro h pre fuel' post hSplit hPost
    obtain rfl | ⟨post', e, rfl⟩ := post.eq_nil_or_concat
    · obtain ⟨rfl, -⟩ := List.append_inj' hSplit rfl
      exact h
    · rw [List.concat_eq_append, ← List.cons_append, ← List.append_assoc] at hSplit
      obtain ⟨-, hLast⟩ := List.append_inj' hSplit rfl
      obtain rfl := (List.cons.inj hLast).1
      exact absurd trivial (hPost (.poll fuel) (by simp))

theorem lastPollIdle_other {es : List Event} {e : Event} (hPoll : ¬ e.IsPoll) :
    LastPollIdle F pi mem fifo (es ++ [e]) ↔ LastPollIdle F pi mem fifo es := by
  constructor
  · rintro h pre fuel post rfl hPost
    refine h pre fuel (post ++ [e]) (by simp) fun x hx => ?_
    obtain hx | hx := List.mem_append.mp hx
    · exact hPost x hx
    · rwa [List.mem_singleton.mp hx]
  · intro h pre fuel post hSplit hPost
    obtain rfl | ⟨post', e', rfl⟩ := post.eq_nil_or_concat
    · obtain ⟨-, hLast⟩ := List.append_inj' hSplit rfl
      obtain rfl := (List.cons.inj hLast).1
      exact absurd trivial hPoll
    · rw [List.concat_eq_append, ← List.cons_append, ← List.append_assoc] at hSplit
      obtain ⟨rfl, -⟩ := List.append_inj' hSplit rfl
      exact h pre fuel post' rfl fun x hx => hPost x (by simp [hx])

theorem runFrom_append_eq_ok_iff {es : List Event} {e : Event} {s' : E1000 φ} :
    runFrom F pi mem fifo (es ++ [e]) = .ok s' ↔
      ∃ s, runFrom F pi mem fifo es = .ok s ∧ step F s e = .ok s' := by
  obtain ⟨sc, hInit, -⟩ := @e82545Init_eq pi
  simp only [runFrom, hInit, ok_bind]
  exact run_append_singleton_eq_ok_iff

theorem runFrom_eq_error_iff {es : List Event} {f : Fault} :
    runFrom F pi mem fifo es = .error f ↔ ∃ pre e post s, es = pre ++ e :: post ∧
      runFrom F pi mem fifo pre = .ok s ∧ step F s e = .error f := by
  obtain ⟨sc, hInit, -⟩ := @e82545Init_eq pi
  simp only [runFrom, hInit, ok_bind]
  exact run_eq_error_iff

/-- The transmitter is active exactly if the last poll found work. -/
theorem runFrom_active {es : List Event} {s : E1000 φ} (h : runFrom F pi mem fifo es = .ok s) :
    s.sc.rx.rxActive = false ∧ (s.sc.tx.txActive = true ↔ ¬ LastPollIdle F pi mem fifo es) := by
  induction es using List.reverseRecOn generalizing s with
  | nil =>
    obtain ⟨sc, hInit, hTx, hRx⟩ := @e82545Init_eq pi
    simp only [runFrom, hInit, ok_bind, run] at h
    obtain rfl := Except.ok.inj h
    refine ⟨hRx, ?_⟩
    simp [hTx, LastPollIdle]
  | append_singleton es e ih =>
    obtain ⟨t, hRun, hStep⟩ := runFrom_append_eq_ok_iff.mp h
    obtain ⟨hRx, hActive⟩ := ih hRun
    by_cases hPoll : e.IsPoll
    · cases e with
      | poll fuel =>
        obtain ⟨hRx', hTx'⟩ := (e1000Poll_yields F fuel hRx).of_ok hStep
        refine ⟨hRx', ?_⟩
        rw [hTx', lastPollIdle_poll]
        simp [hRun]
      | _ => exact absurd hPoll id
    · rw [lastPollIdle_other hPoll, ← hActive]
      by_cases hWrite : e.IsWrite
      · cases e with
        | write baridx offset size value =>
          obtain ⟨hRx', hTx'⟩ := (writeStep_yields F baridx offset size value hRx).of_ok hStep
          exact ⟨hRx', by rw [hTx']⟩
        | _ => exact absurd hWrite id
      · obtain ⟨hRx', hTx'⟩ := (step_keeps F e hRx hWrite hPoll).of_ok hStep
        exact ⟨hRx', by rw [hTx']⟩

/-- Register writes come back in a run exactly if each one that disables the transmitter follows
a poll that found nothing to transmit, or no poll. -/
theorem registerWrites_return_iff {φ : Type} (F : Fifo φ) (pi : PciEmul.PciDevinst) (mem : Memory)
    (fifo : φ) (es : List Event) : NeverWaits F pi mem fifo es ↔ DisablesIdle F pi mem fifo es := by
  constructor
  · rintro hNever pre baridx offset size value post rfl s hRun hDisables
    by_contra hWork
    obtain ⟨hRx, hActive⟩ := runFrom_active hRun
    have hStuck : step F s (.write baridx offset size value) = .error .txDisable := by
      simp [step, e82545Write_stuck s.sc hRx (hActive.mpr hWork) hDisables, Except.map]
    have hStop := runFrom_eq_error_iff.mpr ⟨pre, _, post, s, rfl, hRun, hStuck⟩
    exact hNever _ hStop (.inl rfl)
  · intro hIdle f hStop hDrain
    obtain ⟨pre, e, post, s, hSplit, hRun, hFail⟩ := runFrom_eq_error_iff.mp hStop
    obtain ⟨hRx, hActive⟩ := runFrom_active hRun
    by_cases hPoll : e.IsPoll
    · cases e with
      | poll fuel => exact (e1000Poll_yields F fuel hRx).of_error hFail hDrain
      | _ => exact hPoll
    · by_cases hWrite : e.IsWrite
      · cases e with
        | write baridx offset size value =>
          obtain ⟨hDisables, hTx⟩ :=
            (writeStep_yields F baridx offset size value hRx).of_error hFail hDrain
          exact hActive.mp hTx (hIdle pre baridx offset size value post hSplit s hRun hDisables)
        | _ => exact hWrite
      · exact (step_keeps F e hRx hWrite hPoll).of_error hFail hDrain

def idleFifo : Fifo Unit where
  processTx _ _ := ()
  processRx _ m _ := (0, (), m)

/-- Memory whose first transmit descriptor is a complete packet of 60 bytes. -/
def onePacket : Memory := fun a =>
  if a = 0x9000000000000008 then 60 else if a = 0x900000000000000B then 0x0B else 0

/-- The guest sets up a ring, hands one packet over, and disables the transmitter after the poll
that has sent it. -/
def sendAndDisable : List Event :=
  [.write 0 0x3808 4 0x80, .poll 1, .write 0 0x400 4 2, .poll 1, .write 0 0x3818 4 1, .poll 1,
    .write 0 0x400 4 0]

theorem registerWrites_hang : ¬ NeverWaits idleFifo
    { PciEmul.pciEmulInit ⟨0, 0, 0⟩ with lintrPin := 1 } onePacket () sendAndDisable :=
  fun h => h .txDisable (fault?_eq_some_iff.mp (by decide)) (.inl rfl)

end Run

end DeviceModel.E82545

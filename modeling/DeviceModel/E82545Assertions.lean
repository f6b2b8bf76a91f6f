import DeviceModel.E82545RxEnable
import DeviceModel.E82545Scan

/-!
# The e1000 network device: assertions within reach of the guest

Which register accesses and which transmit rings come to an assertion: the last of
the sixteen receive-address entries, the base and the length of the receive ring
while the receiver is on, and a packet whose descriptors are not all of one type.
-/

set_option autoImplicit false

namespace DeviceModel.E82545

open Fallible

/-- The assertions on the index of a receive-address entry, on the order of register writes and
on descriptor types. -/
def Asserts (e : Fault) : Prop := e ∈ [Fault.raIndex, .rdEnabled, .txdescType]

instance : DecidablePred Asserts := fun e => inferInstanceAs (Decidable (e ∈ _))

abbrev Passes {α : Type} (x : Except Fault α) : Prop := StopsOnly (fun e => ¬ Asserts e) x

theorem PacketStops.passes {α : Type} {x : Except Fault α} (hx : PacketStops x) : Passes x := by
  refine StopsOnly.mono hx fun e hFault => ?_
  cases e <;> first | decide | exact absurd hFault (by decide)

theorem LineStops.passes {α : Type} {x : Except Fault α} (hx : LineStops x) : Passes x := by
  refine StopsOnly.mono hx ?_
  rintro _ rfl
  decide

section Registers

variable {sc : Softc}

def Softc.AllowsWrite (sc : Softc) : Reg → Prop
  | .ra ridx => ridx / 2 < 15
  | .rdbah | .rdlen => sc.rx.rxEnabled = false
  | _ => True

def AllowsRead : Reg → Prop
  | .ra ridx => ridx / 2 < 15
  | _ => True

theorem rxDisable_passes (sc : Softc) : Passes sc.e82545RxDisable :=
  (stopsOnly_assertThat (by decide)).bind fun _ => stopsOnly_ok _

theorem txDisable_passes (sc : Softc) : Passes sc.e82545TxDisable :=
  (stopsOnly_assertThat (by decide)).bind fun _ => stopsOnly_ok _

theorem reset_passes (sc : Softc) (drvr : Bool) : Passes (sc.e82545Reset drvr) := by
  refine (rxDisable_passes sc).bind fun sc => (txDisable_passes sc).bind fun sc => ?_
  have hLine : Passes (if sc.intr.irqAsserted then sc.intr.escPi.pciLintrDeassert
      else .ok sc.intr.escPi) :=
    StopsOnly.ite (pciLintrDeassert_lineStops _).passes (stopsOnly_ok _)
  exact hLine.bind fun _ => stopsOnly_ok _

theorem writeReg_passes_iff (value : BitVec 32) (reg : Reg) :
    Passes (sc.writeReg value reg) ↔ sc.AllowsWrite reg := by
  have hAssert : ∀ {p : Prop} [Decidable p] {e : Fault} {f : Unit → Except Fault Softc}, Asserts e →
      (∀ u, Passes (f u)) → (Passes (assertThat p e >>= f) ↔ p) := by
    intro p _ e f he hf
    apply stopsOnly_bind_iff.trans
    exact (and_iff_left fun u _ => hf u).trans (stopsOnly_assertThat_iff (not_not.mpr he))
  cases reg
  case ctrl =>
    exact iff_of_true (StopsOnly.ite (reset_passes _ _) (stopsOnly_ok _)) trivial
  case ctrlDup =>
    exact iff_of_true (StopsOnly.ite (reset_passes _ _) (stopsOnly_ok _)) trivial
  case icr => exact iff_of_true ((e82545IcrDeassert_lineStops _ _).passes.map _) trivial
  case ics => exact iff_of_true ((raise_lineStops _ _).passes.map _) trivial
  case ims => exact iff_of_true ((raise_lineStops _ _).passes.map _) trivial
  case rctl =>
    refine iff_of_true (StopsOnly.ite (stopsOnly_ok _) (StopsOnly.ite (stopsOnly_ok _) ?_)) trivial
    exact (rxDisable_passes _).bind fun _ => stopsOnly_ok _
  case tctl =>
    refine iff_of_true (StopsOnly.ite (stopsOnly_ok _) (StopsOnly.ite (stopsOnly_ok _) ?_)) trivial
    exact (txDisable_passes _).bind fun _ => stopsOnly_ok _
  case rdbah => exact hAssert (by decide) fun _ => stopsOnly_ok _
  case rdlen => exact hAssert (by decide) fun _ => stopsOnly_ok _
  case ra ridx => exact hAssert (by decide) fun _ => stopsOnly_ok _
  all_goals exact iff_of_true (stopsOnly_ok _) trivial

theorem readReg_passes_iff (reg : Reg) : Passes (sc.readReg reg) ↔ AllowsRead reg := by
  cases reg
  case icr =>
    apply iff_of_true _ trivial
    exact ((e82545IcrDeassert_lineStops _ _).passes.bind fun _ => stopsOnly_ok _).map _
  case ra ridx =>
    refine stopsOnly_map_iff.trans (stopsOnly_bind_iff.trans ?_)
    refine (and_iff_left ?_).trans (stopsOnly_assertThat_iff (by decide))
    exact fun _ _ => StopsOnly.ite (stopsOnly_ok _) (stopsOnly_ok _)
  all_goals exact iff_of_true (stopsOnly_ok _) trivial

def Softc.readTarget (sc : Softc) (baridx : Nat) (offset : BitVec 64) (size : Nat) : Option Reg :=
  let offset? : Option (BitVec 32) :=
    if baridx = E82545_BAR_IO then
      if offset = E82545_IODATA ∧ sc.ioAddr ≤ E82545_IO_REGISTER_MAX then some sc.ioAddr else none
    else if baridx = E82545_BAR_REGISTER ∧ size = 4 then some (offset.setWidth 32)
    else none
  offset?.bind fun offset => if offset &&& 0x3 ≠ 0 then none else Reg.ofOffset offset

theorem write_passes_iff (baridx : Nat) (offset : BitVec 64) (size : Nat) (value : BitVec 64) :
    Passes (sc.e82545Write baridx offset size value) ↔
      ∀ reg, sc.target baridx offset size = some reg → sc.AllowsWrite reg := by
  obtain ⟨reg, hTarget, hWrite⟩ | ⟨hNone, ioAddr, hWrite⟩ :=
    e82545Write_cases sc baridx offset size value
  · rw [hWrite, writeReg_passes_iff, hTarget]
    constructor
    · rintro h _ ⟨⟩
      exact h
    · intro h
      exact h reg rfl
  · rw [hWrite, hNone]
    exact iff_of_true (stopsOnly_ok _) (by rintro _ ⟨⟩)

theorem readRegister_passes_iff (offset : BitVec 32) : Passes (sc.e82545ReadRegister offset) ↔
    ∀ reg, (if offset &&& 0x3 ≠ 0 then none else Reg.ofOffset offset) = some reg → AllowsRead reg := by
  unfold Softc.e82545ReadRegister
  split
  · exact iff_of_true (stopsOnly_ok _) (by rintro _ ⟨⟩)
  · cases Reg.ofOffset offset with
    | none => exact iff_of_true (stopsOnly_ok _) (by rintro _ ⟨⟩)
    | some reg =>
      apply (readReg_passes_iff reg).trans
      constructor
      · rintro h _ ⟨⟩
        exact h
      · intro h
        exact h reg rfl

theorem read_passes_iff (baridx : Nat) (offset : BitVec 64) (size : Nat) :
    Passes (sc.e82545Read baridx offset size) ↔
      ∀ reg, sc.readTarget baridx offset size = some reg → AllowsRead reg := by
  unfold Softc.e82545Read Softc.readTarget
  by_cases hIo : baridx = E82545_BAR_IO
  · by_cases hData : offset = E82545_IODATA ∧ sc.ioAddr ≤ E82545_IO_REGISTER_MAX
    · have hAddr : ¬ offset = E82545_IOADDR := by
        rw [hData.1]
        decide
      simp only [if_pos hIo, if_neg hAddr, if_pos hData]
      exact stopsOnly_map_iff.trans (readRegister_passes_iff sc.ioAddr)
    · simp only [if_pos hIo, if_neg hData]
      exact iff_of_true (StopsOnly.ite (stopsOnly_ok _) (stopsOnly_ok _)) (by rintro _ ⟨⟩)
  · by_cases hBar : baridx = E82545_BAR_REGISTER ∧ size = 4
    · simp only [if_neg hIo, if_pos hBar]
      exact stopsOnly_map_iff.trans (readRegister_passes_iff _)
    · simp only [if_neg hIo, if_neg hBar]
      exact iff_of_true (stopsOnly_ok _) (by rintro _ ⟨⟩)

end Registers

section Ring

variable {m : Memory} {tx : Tx} {tail dsize head : Nat}

/-- Every descriptor that the loop of `e82545_transmit` comes to has the type of its packet. -/
def PacketTyped (m : Memory) (tx : Tx) (tail dsize head : Nat) : Prop :=
  ∀ k < dsize + 1, (∀ j < k, GoesOn m tx tail dsize head j) → ringIndex dsize head k ≠ tail → k ≠ 0 →
    (ringDesc m tx dsize head k).type = packetType m tx dsize head

theorem scanDescs_passes_iff : Passes (scanDescs m tx tail dsize (dsize + 1) (Packet.start head)) ↔
    PacketTyped m tx tail dsize head := by
  obtain ⟨k, hk, hBefore, hEnd, hScan⟩ | ⟨hAll, hScan⟩ :=
    scanDescs_cases m tx tail dsize head (dsize + 1)
  swap
  · rw [hScan]
    exact iff_of_true (stopsOnly_error (by decide)) fun k hk _ _ hLater => (hAll k hk).type hLater
  rw [hScan]
  have hTyped : PacketTyped m tx tail dsize head ↔ (ringIndex dsize head k ≠ tail → k ≠ 0 →
      (ringDesc m tx dsize head k).type = packetType m tx dsize head) := by
    constructor
    · intro h
      exact h k hk hBefore
    · intro h j hj hComes hTail hLater
      rcases Nat.lt_trichotomy j k with hLess | rfl | hMore
      · exact (hBefore j hLess).type hLater
      · exact h hTail hLater
      · exact absurd (hComes k hMore) hEnd
  rw [hTyped]
  unfold endsAt
  dsimp only
  split
  · next hTail => exact iff_of_true (stopsOnly_ok _) fun h => absurd hTail h
  next hTail =>
  split
  · next hContext => exact iff_of_true (stopsOnly_ok _) fun _ h => absurd hContext.1 h
  split
  · next hType => exact iff_of_true (stopsOnly_ok _) fun _ h => hType.resolve_left h
  · next hType =>
    refine iff_of_false (fun h => h _ rfl (by decide)) fun h => hType ?_
    exact or_iff_not_imp_left.mpr (h hTail)

theorem transmit_passes_iff {general : General} {tdwb : Bool} :
    Passes (e82545Transmit m tx tail dsize general head tdwb) ↔ PacketTyped m tx tail dsize head := by
  rw [← scanDescs_passes_iff]
  apply stopsOnly_bind_iff.trans
  apply and_iff_left
  intro scan _
  cases scan with
  | incomplete head => exact stopsOnly_ok _
  | context cd head => exact stopsOnly_ok _
  | packet p dsc =>
    exact (transmitPacket_packetStops _ _ _ _ _).passes.bind fun _ => stopsOnly_ok _

variable {φ : Type} (F : Fifo φ)

def RunTyped (general : General) (tx : Tx) (tail size : Nat) : Nat → TxRun φ → Prop
  | 0, _ => True
  | fuel + 1, r => tx.txEnabled = true → r.lim ≠ 0 →
      PacketTyped r.mem { tx with txctx := r.txctx } tail size r.head ∧
      ∀ t, e82545Transmit r.mem { tx with txctx := r.txctx } tail size general r.head r.tdwb = .ok t →
        t.sent ≠ 0 → RunTyped general tx tail size fuel
          ⟨r.lim - t.sent, t.rhead, t.rhead, t.tdwb, t.txctx, t.mem, t.frames.foldl F.processTx r.fifo⟩

theorem txRunLoop_passes_iff (general : General) (size fuel : Nat) (r : TxRun φ) :
    Passes (txRunLoop F general tx tail size fuel r) ↔ RunTyped F general tx tail size fuel r := by
  induction fuel generalizing r with
  | zero => exact iff_of_true (stopsOnly_ok r) trivial
  | succ fuel ih =>
    unfold txRunLoop RunTyped
    split
    · next hStop =>
      refine iff_of_true (stopsOnly_ok r) fun hOn hLim => ?_
      rcases hStop with hOff | hZero
      · exact absurd (hOff.symm.trans hOn) Bool.false_ne_true
      · exact absurd hZero hLim
    · next hGo =>
      obtain ⟨hOn, hLim⟩ := not_or.mp hGo
      refine (stopsOnly_bind_iff.trans (and_congr_left' transmit_passes_iff)).trans ?_
      constructor
      · rintro ⟨hTyped, hRest⟩ - -
        refine ⟨hTyped, fun t ht hSent => ?_⟩
        have hLoop := hRest t ht
        rw [if_neg hSent] at hLoop
        exact (ih _).mp hLoop
      · intro h
        obtain ⟨hTyped, hRest⟩ := h (eq_true_of_ne_false hOn) hLim
        refine ⟨hTyped, fun t ht => ?_⟩
        dsimp only
        split
        · exact stopsOnly_ok _
        · next hSent => exact (ih _).mpr (hRest t ht hSent)

/-- The transmit ring that a poll finds comes to no assertion. -/
def RingTyped (s : E1000 φ) : Prop :=
  s.sc.tx.HasWork →
    let size := (s.sc.tx.tdlen / 16).toNat
    let head := s.sc.tx.tdh.toNat
    RunTyped F s.sc.general { s.sc.tx with txActive := true } s.sc.tx.tdt.toNat size (size / 4)
      ⟨size / 4, head, head, false, s.sc.tx.txctx, s.mem, s.fifo⟩

theorem txPoll_passes_iff (s : E1000 φ) : Passes (e82545TxPoll F s) ↔ RingTyped F s := by
  unfold e82545TxPoll RingTyped
  split
  · next hWork =>
    refine stopsOnly_bind_iff.trans ((and_iff_left ?_).trans ?_)
    · intro r _
      refine StopsOnly.bind ?_ fun _ => stopsOnly_ok _
      exact StopsOnly.ite (raise_lineStops _ _).passes (stopsOnly_ok _)
    · refine (txRunLoop_passes_iff F _ _ _ _).trans ?_
      exact ⟨fun h _ => h, fun h => h hWork⟩
  · next hIdle => exact iff_of_true (stopsOnly_ok _) fun hWork => absurd hWork hIdle

theorem rxRunLoop_passes (sc : Softc) (fuel : Nat) (r : RxRun φ) :
    Passes (rxRunLoop F sc fuel r) := by
  induction fuel generalizing r with
  | zero => exact stopsOnly_error (by decide)
  | succ fuel ih =>
    exact StopsOnly.ite (stopsOnly_ok _) (StopsOnly.ite (stopsOnly_ok _) (StopsOnly.ite (ih _) (ih _)))

theorem tapCallback_passes (fuel : Nat) (s : E1000 φ) : Passes (e82545TapCallback F fuel s) := by
  have hLeft : ∀ (rx : Rx) head, Passes (rx.left head) := fun _ _ =>
    (stopsOnly_assertThat (by decide)).bind fun _ => stopsOnly_ok _
  refine StopsOnly.ite (stopsOnly_ok s) ((hLeft _ _).bind fun left => ?_)
  refine StopsOnly.ite (stopsOnly_ok s) ((rxRunLoop_passes F _ _ _).bind fun r => ?_)
  refine (hLeft _ _).bind fun left => StopsOnly.bind ?_ fun _ => stopsOnly_ok _
  exact StopsOnly.ite (raise_lineStops _ _).passes (stopsOnly_ok _)

end Ring

section Run

variable {φ : Type} (F : Fifo φ) (pi : PciEmul.PciDevinst) (mem : Memory) (fifo : φ)

def Allowed (s : E1000 φ) : Event → Prop
  | .write baridx offset size _ =>
    ∀ reg, s.sc.target baridx offset size = some reg → s.sc.AllowsWrite reg
  | .read baridx offset size =>
    ∀ reg, s.sc.readTarget baridx offset size = some reg → AllowsRead reg
  | .poll _ => RingTyped F s
  | _ => True

theorem step_passes_iff (s : E1000 φ) (e : Event) : Passes (step F s e) ↔ Allowed F s e := by
  cases e with
  | write baridx offset size value =>
    exact stopsOnly_map_iff.trans (write_passes_iff baridx offset size value)
  | read baridx offset size => exact stopsOnly_map_iff.trans (read_passes_iff baridx offset size)
  | poll fuel =>
    refine stopsOnly_bind_iff.trans ((and_iff_left ?_).trans (txPoll_passes_iff F s))
    exact fun s _ => tapCallback_passes F fuel s
  | store mem => exact iff_of_true (stopsOnly_ok _) trivial
  | callout => exact iff_of_true ((runCallout_lineStops _).passes.map _) trivial
  | fifoWork fuel => exact iff_of_true (tapCallback_passes F fuel s) trivial

/-- No event of the run comes to an assertion. -/
def NeverAsserts (es : List Event) : Prop := Passes (runFrom F pi mem fifo es)

/-- A run comes to no assertion exactly if no access of it goes to the last receive-address entry,
none writes RDBAH or RDLEN while the receiver is on, and every packet has descriptors of one type. -/
theorem neverAsserts_iff (es : List Event) : NeverAsserts F pi mem fifo es ↔
    ∀ pre e post s, es = pre ++ e :: post → runFrom F pi mem fifo pre = .ok s → Allowed F s e := by
  constructor
  · rintro hNever pre e post s rfl hRun
    apply (step_passes_iff F s e).mp
    intro f hStop
    exact hNever f (runFrom_eq_error_iff.mpr ⟨pre, e, post, s, rfl, hRun, hStop⟩)
  · intro hAllowed f hStop
    obtain ⟨pre, e, post, s, hSplit, hRun, hFail⟩ := runFrom_eq_error_iff.mp hStop
    exact (step_passes_iff F s e).mpr (hAllowed pre e post s hSplit hRun) f hFail

theorem ra_asserts : ¬ ∀ es, NeverAsserts idleFifo
    { PciEmul.pciEmulInit ⟨0, 0, 0⟩ with lintrPin := 1 } (fun _ => 0) () es := by
  intro hAll
  have hStop : fault? (runFrom idleFifo { PciEmul.pciEmulInit ⟨0, 0, 0⟩ with lintrPin := 1 }
      (fun _ => 0) () [.read 0 0x5478 4]) = some .raIndex := by decide +kernel
  exact hAll _ _ (fault?_eq_some_iff.mp hStop) (by decide)

end Run

end DeviceModel.E82545

import DeviceModel.E82545Drain

/-!
# The e1000 network device: interrupts

Whenever a cause is set and unmasked, the interrupt is requested or the throttling
callout is still to look at it. Every operation keeps this and the agreement of
`esc_irq_asserted` with the INTx line, except a software reset while the interrupt is
asserted: it takes the line back and leaves the flag set.
-/

set_option autoImplicit false

namespace DeviceModel.E82545

open Fallible PciEmul

namespace Intr

structure Kept (x : Intr) : Prop where
  asserted : x.irqAsserted = true ↔ x.escPi.lintrState ≠ .idle
  requested : x.icr &&& x.ims ≠ 0 →
    x.escPi.lintrState ≠ .idle ∨ x.mevpitr = true ∧ x.callout.isSome = true

/-- What makes `Kept` an invariant: the pointer is set while a callout is to run, and an interrupt
is asserted only through a pin. -/
structure Inv (x : Intr) : Prop extends Kept x where
  throttled : x.mevpitr = x.callout.isSome
  pin : x.irqAsserted = true → 0 < x.escPi.lintrPin

/-- Bits that are masked or set already add nothing to what is set and unmasked. -/
theorem or_and_eq_of_new {bits icr ims : BitVec 32} (h : bits &&& ~~~icr &&& ims = 0) :
    (icr ||| bits) &&& ims = icr &&& ims := by
  refine BitVec.eq_of_getLsbD_eq fun i hi => ?_
  have hBit := congrArg (BitVec.getLsbD · i) h
  simp only [BitVec.getLsbD_and, BitVec.getLsbD_or, BitVec.getLsbD_not, hi, BitVec.ofNat_eq_ofNat,
    BitVec.getLsbD_zero, decide_true, Bool.true_and] at hBit ⊢
  cases hIcr : icr.getLsbD i <;> simp_all

theorem pciLintrAssert_yields (pi : PciDevinst) : Yields (fun _ => True)
    (fun pi' => pi'.lintrState ≠ .idle ∧ 0 < pi'.lintrPin) pi.pciLintrAssert := by
  refine (assertThat_yields fun _ => trivial).bind fun _ _ hPin => ?_
  split
  · split
    · exact ⟨by simp, hPin⟩
    · exact ⟨by simp, hPin⟩
  · next hState => exact ⟨hState, hPin⟩

theorem pciLintrDeassert_yields (pi : PciDevinst) : Yields (fun _ => True)
    (fun pi' => pi'.lintrState = .idle ∧ pi'.lintrPin = pi.lintrPin) pi.pciLintrDeassert := by
  refine (assertThat_yields fun _ => trivial).bind fun _ _ _ => ?_
  cases hState : pi.lintrState with
  | idle => exact ⟨hState, rfl⟩
  | asserted => exact ⟨rfl, rfl⟩
  | pending => exact ⟨rfl, rfl⟩

theorem pciLintrDeassert_returns {pi : PciDevinst} (hPin : 0 < pi.lintrPin) :
    ∃ pi', pi.pciLintrDeassert = .ok pi' ∧ pi'.lintrState = .idle := by
  unfold PciDevinst.pciLintrDeassert
  rw [assertThat_of _ hPin, ok_bind]
  cases hState : pi.lintrState with
  | idle => exact ⟨_, rfl, hState⟩
  | asserted => exact ⟨_, rfl, rfl⟩
  | pending => exact ⟨_, rfl, rfl⟩

/-- All of `Inv` but the claim on causes, which `raise` brings about for those in `new`. -/
theorem raise_yields {x : Intr} {new : BitVec 32}
    (hAsserted : x.irqAsserted = true ↔ x.escPi.lintrState ≠ .idle)
    (hThrottled : x.mevpitr = x.callout.isSome)
    (hPin : x.irqAsserted = true → 0 < x.escPi.lintrPin)
    (hOld : new = 0 → x.icr &&& x.ims ≠ 0 →
      x.escPi.lintrState ≠ .idle ∨ x.mevpitr = true ∧ x.callout.isSome = true) :
    Yields (fun _ => True) Inv (x.raise new) := by
  unfold raise
  split
  · next hNothing =>
    refine ⟨⟨hAsserted, fun hCause => ?_⟩, hThrottled, hPin⟩
    obtain hNew | hThrottle | hIrq := hNothing
    · exact hOld hNew hCause
    · exact .inr ⟨hThrottle, hThrottled.symm.trans hThrottle⟩
    · exact .inl (hAsserted.mp hIrq)
  · refine (pciLintrAssert_yields x.escPi).bind fun pi _ hPi => ?_
    dsimp only
    split
    · exact ⟨⟨by simp [hPi.1, setCallout], fun _ => .inl hPi.1⟩, rfl, fun _ => hPi.2⟩
    · exact ⟨⟨by simp [hPi.1], fun _ => .inl hPi.1⟩, hThrottled, fun _ => hPi.2⟩

variable {x : Intr}

theorem e82545IcrAssert_yields (h : x.Inv) (bits : BitVec 32) :
    Yields (fun _ => True) Inv (x.e82545IcrAssert bits) := by
  refine raise_yields h.asserted h.throttled h.pin fun hNew hCause => h.requested ?_
  rwa [or_and_eq_of_new hNew] at hCause

theorem e82545ImsChange_yields (h : x.Inv) (bits : BitVec 32) :
    Yields (fun _ => True) Inv (x.e82545ImsChange bits) := by
  refine raise_yields h.asserted h.throttled h.pin fun hNew hCause => h.requested ?_
  have hNew' : bits &&& ~~~x.ims &&& x.icr = 0 := by
    rw [BitVec.and_assoc, BitVec.and_comm (~~~x.ims), ← BitVec.and_assoc]
    exact hNew
  rw [BitVec.and_comm]
  intro hZero
  rw [← or_and_eq_of_new hNew', BitVec.and_comm] at hZero
  exact hCause hZero

theorem and_ne_zero_of_left {icr mask ims : BitVec 32} (h : icr &&& mask &&& ims ≠ 0) :
    icr &&& ims ≠ 0 := by
  intro hZero
  refine h ?_
  rw [BitVec.and_assoc, BitVec.and_comm mask, ← BitVec.and_assoc, hZero]
  simp

theorem e82545IcrDeassert_yields (h : x.Inv) (bits : BitVec 32) :
    Yields (fun _ => True) Inv (x.e82545IcrDeassert bits) := by
  unfold e82545IcrDeassert
  dsimp only
  split
  · next hLast =>
    refine (pciLintrDeassert_yields x.escPi).bind fun pi _ hPi => ?_
    exact ⟨⟨by simp [hPi.1], fun hCause => absurd hLast.2 hCause⟩, h.throttled, by simp⟩
  · exact ⟨⟨h.asserted, fun hCause => h.requested (and_ne_zero_of_left hCause)⟩, h.throttled, h.pin⟩

theorem runCallout_yields (h : x.Inv) : Yields (fun _ => True) Inv x.runCallout := by
  unfold runCallout
  cases hCallout : x.callout with
  | none => exact h
  | some delay =>
    have hThrottled : x.mevpitr = true := by rw [h.throttled, hCallout]; rfl
    dsimp only
    unfold e82545ItrCallback
    split
    · refine (pciLintrAssert_yields x.escPi).bind fun pi _ hPi => ?_
      exact ⟨⟨by simp [hPi.1, setCallout], fun _ => .inl hPi.1⟩, hThrottled, fun _ => hPi.2⟩
    · next hQuiet =>
      refine ⟨⟨h.asserted, fun hCause => .inl ?_⟩, rfl, h.pin⟩
      exact h.asserted.mp (eq_true_of_ne_false fun hOff => hQuiet ⟨hCause, hOff⟩)

theorem e82545IntrWrite_yields (h : x.Inv) (value : BitVec 32) (reg : Reg) :
    Yields (fun _ => True) Inv (x.e82545IntrWrite value reg) := by
  cases reg
  case icr => exact e82545IcrDeassert_yields h value
  case itr => exact ⟨⟨h.asserted, h.requested⟩, h.throttled, h.pin⟩
  case ics =>
    exact e82545IcrAssert_yields (x := { x with ics := value })
      ⟨⟨h.asserted, h.requested⟩, h.throttled, h.pin⟩ value
  case ims => exact e82545ImsChange_yields h value
  case imc =>
    refine ⟨⟨h.asserted, fun hCause => h.requested fun hZero => hCause ?_⟩, h.throttled, h.pin⟩
    rw [← BitVec.and_assoc, hZero]
    simp
  all_goals exact h

theorem e82545IntrRead_yields (h : x.Inv) (reg : Reg) :
    Yields (fun _ => True) (fun r => Inv r.2) (x.e82545IntrRead reg) := by
  cases reg
  case icr =>
    have hClear : Inv { x with icr := 0 } :=
      ⟨⟨h.asserted, fun hCause => absurd (BitVec.zero_and) hCause⟩, h.throttled, h.pin⟩
    exact (e82545IcrDeassert_yields hClear _).bind fun y _ hy => hy
  all_goals exact h

end Intr

section Run

/-- What can raise, mask or clear an interrupt: causes that the device raises, register accesses
of the guest, software resets among them, and the throttling callout. -/
inductive IntrEvent where
  | icrAssert (bits : BitVec 32)
  | write (reg : Reg) (value : BitVec 32)
  | read (reg : Reg)
  | callout

def intrStep (sc : Softc) : IntrEvent → Except Fault Softc
  | .icrAssert bits => (sc.intr.e82545IcrAssert bits).map ({ sc with intr := · })
  | .write reg value => sc.writeReg value reg
  | .read reg => (sc.readReg reg).map Prod.snd
  | .callout => sc.intr.runCallout.map ({ sc with intr := · })

def IntrEvent.IsReset : IntrEvent → Prop
  | .write .ctrl value | .write .ctrlDup value => value &&& E1000_CTRL_RST ≠ 0
  | _ => False

def ResetQuiet (sc : Softc) (e : IntrEvent) : Prop := e.IsReset → sc.intr.irqAsserted = false

structure IntrInv (sc : Softc) : Prop where
  intr : sc.intr.Inv
  txIdle : sc.tx.txActive = false
  rxIdle : sc.rx.rxActive = false

variable {sc : Softc}

theorem IntrInv.of_intr (h : IntrInv sc) {x : Intr} (hx : x.Inv) : IntrInv { sc with intr := x } :=
  ⟨hx, h.txIdle, h.rxIdle⟩

theorem e82545Reset_intrInv (h : IntrInv sc) (hQuiet : sc.intr.irqAsserted = false) (drvr : Bool) :
    Yields (fun _ => True) IntrInv (sc.e82545Reset drvr) := by
  rw [e82545Reset_eq sc drvr h.rxIdle h.txIdle]
  unfold Softc.resetState
  simp only [hQuiet, Bool.false_eq_true, if_false, ok_bind]
  refine ⟨⟨⟨?_, fun hCause => absurd BitVec.zero_and hCause⟩, h.intr.throttled, ?_⟩, ?_, ?_⟩
  · have hIdle := h.intr.asserted
    rw [hQuiet] at hIdle
    simpa using hIdle
  · simp
  · cases drvr <;> exact h.txIdle
  · cases drvr <;> exact h.rxIdle

/-- A reset while it is asserted: the line is taken back and the flag stays. -/
theorem e82545Reset_breaks (h : IntrInv sc) (hAsserted : sc.intr.irqAsserted = true) (drvr : Bool) :
    ∃ sc', sc.e82545Reset drvr = .ok sc' ∧ ¬ sc'.intr.Kept := by
  obtain ⟨pi, hLine, hIdle⟩ := Intr.pciLintrDeassert_returns (h.intr.pin hAsserted)
  rw [e82545Reset_eq sc drvr h.rxIdle h.txIdle]
  unfold Softc.resetState
  simp only [hAsserted, if_true, hLine, ok_bind]
  exact ⟨_, rfl, fun hKept => hKept.asserted.mp rfl hIdle⟩

theorem e82545Devctl_intrInv (h : IntrInv sc) {value : BitVec 32}
    (hQuiet : value &&& E1000_CTRL_RST ≠ 0 → sc.intr.irqAsserted = false) :
    Yields (fun _ => True) IntrInv (sc.e82545Devctl value) := by
  unfold Softc.e82545Devctl
  dsimp only
  have h' : IntrInv { sc with general.ctrl := value &&& ~~~E1000_CTRL_RST } :=
    ⟨h.intr, h.txIdle, h.rxIdle⟩
  split
  · next hRst => exact e82545Reset_intrInv h' (hQuiet hRst) true
  · exact h'

theorem e82545Devctl_breaks (h : IntrInv sc) {value : BitVec 32}
    (hRst : value &&& E1000_CTRL_RST ≠ 0) (hAsserted : sc.intr.irqAsserted = true) :
    ∃ sc', sc.e82545Devctl value = .ok sc' ∧ ¬ sc'.intr.Kept := by
  unfold Softc.e82545Devctl
  dsimp only
  rw [if_pos hRst]
  have h' : IntrInv { sc with general.ctrl := value &&& ~~~E1000_CTRL_RST } :=
    ⟨h.intr, h.txIdle, h.rxIdle⟩
  exact e82545Reset_breaks h' hAsserted true

theorem e82545RxDisable_intr (sc : Softc) :
    Yields (fun _ => True) (fun sc' => sc'.intr = sc.intr) sc.e82545RxDisable :=
  (assertThat_yields fun _ => trivial).bind fun _ _ _ => rfl

theorem e82545TxDisable_intr (sc : Softc) :
    Yields (fun _ => True) (fun sc' => sc'.intr = sc.intr) sc.e82545TxDisable :=
  (assertThat_yields fun _ => trivial).bind fun _ _ _ => rfl

theorem e82545RxCtl_intr (value : BitVec 32) :
    Yields (fun _ => True) (fun sc' => sc'.intr = sc.intr) (sc.e82545RxCtl value) := by
  unfold Softc.e82545RxCtl
  dsimp only
  split
  · rfl
  split
  · rfl
  exact (e82545RxDisable_intr _).bind fun _ _ hSame => hSame

theorem e82545TxCtl_intr (value : BitVec 32) :
    Yields (fun _ => True) (fun sc' => sc'.intr = sc.intr) (sc.e82545TxCtl value) := by
  unfold Softc.e82545TxCtl
  dsimp only
  split
  · rfl
  split
  · rfl
  exact (e82545TxDisable_intr sc).bind fun _ _ hSame => hSame

theorem writeReg_intr (h : IntrInv sc) (value : BitVec 32) (reg : Reg)
    (hQuiet : ResetQuiet sc (.write reg value)) :
    Yields (fun _ => True) (fun sc' => sc'.intr.Inv) (sc.writeReg value reg) := by
  cases reg
  case ctrl => exact (e82545Devctl_intrInv h hQuiet).imp fun _ _ h' => h'.intr
  case ctrlDup => exact (e82545Devctl_intrInv h hQuiet).imp fun _ _ h' => h'.intr
  case rctl => exact (e82545RxCtl_intr value).imp fun _ _ hSame => hSame ▸ h.intr
  case tctl => exact (e82545TxCtl_intr value).imp fun _ _ hSame => hSame ▸ h.intr
  case icr => exact Yields.map (Intr.e82545IntrWrite_yields h.intr value .icr)
  case itr => exact Yields.map (Intr.e82545IntrWrite_yields h.intr value .itr)
  case ics => exact Yields.map (Intr.e82545IntrWrite_yields h.intr value .ics)
  case ims => exact Yields.map (Intr.e82545IntrWrite_yields h.intr value .ims)
  case imc => exact Yields.map (Intr.e82545IntrWrite_yields h.intr value .imc)
  case rdbah => exact (assertThat_yields fun _ => trivial).bind fun _ _ _ => h.intr
  case rdlen => exact (assertThat_yields fun _ => trivial).bind fun _ _ _ => h.intr
  case ra => exact (assertThat_yields fun _ => trivial).bind fun _ _ _ => h.intr
  case rdbal =>
    show (if sc.rx.rxEnabled then _ else _ : Softc).intr.Inv
    split <;> exact h.intr
  case tdbal =>
    show (if sc.tx.txEnabled then _ else _ : Softc).intr.Inv
    split <;> exact h.intr
  all_goals exact h.intr

theorem readReg_intr (h : IntrInv sc) (reg : Reg) :
    Yields (fun _ => True) (fun r => r.2.intr.Inv) (sc.readReg reg) := by
  cases reg
  case icr => exact Yields.map (Intr.e82545IntrRead_yields h.intr .icr)
  case ra ridx =>
    refine Yields.map ((assertThat_yields fun _ => trivial).bind fun _ _ _ => ?_)
    dsimp only
    split <;> exact h.intr
  all_goals exact h.intr

theorem intrStep_keeps {sc' : Softc} {e : IntrEvent} (h : IntrInv sc) (hQuiet : ResetQuiet sc e)
    (hStep : intrStep sc e = .ok sc') : IntrInv sc' := by
  have hYields : Yields (fun _ => True) IntrInv (intrStep sc e) := by
    cases e with
    | icrAssert bits =>
      exact Yields.map ((Intr.e82545IcrAssert_yields h.intr bits).imp fun _ _ hx => h.of_intr hx)
    | write reg value =>
      refine (writeReg_intr h value reg hQuiet).imp fun sc' hWrite hIntr => ?_
      have hSame : SameActivity sc sc' := Yields.of_ok (writeReg_waits sc value reg h.rxIdle) hWrite
      exact ⟨hIntr, hSame.1.trans h.txIdle, hSame.2.trans h.rxIdle⟩
    | read reg =>
      have hRead := (readReg_intr h reg).imp fun r hOk hIntr => by
        have hSame : SameActivity sc r.2 := (readReg_keeps sc reg).of_ok hOk
        exact IntrInv.mk hIntr (hSame.1.trans h.txIdle) (hSame.2.trans h.rxIdle)
      exact Yields.map hRead
    | callout => exact Yields.map ((Intr.runCallout_yields h.intr).imp fun _ _ hx => h.of_intr hx)
  exact hYields.of_ok hStep

theorem intrStep_breaks {e : IntrEvent} (h : IntrInv sc) (hLoud : ¬ ResetQuiet sc e) :
    ∃ sc', intrStep sc e = .ok sc' ∧ ¬ sc'.intr.Kept := by
  obtain ⟨hReset, hAsserted⟩ := Classical.not_imp.mp hLoud
  have hAsserted : sc.intr.irqAsserted = true := eq_true_of_ne_false hAsserted
  cases e with
  | write reg value =>
    cases reg
    case ctrl => exact e82545Devctl_breaks h hReset hAsserted
    case ctrlDup => exact e82545Devctl_breaks h hReset hAsserted
    all_goals exact absurd hReset id
  | _ => exact absurd hReset id

theorem e82545Init_intrInv {pi : PciDevinst} (hIdle : pi.lintrState = .idle) :
    ∃ sc, Softc.e82545Init pi = .ok sc ∧ IntrInv sc := by
  refine ⟨_, rfl, ⟨⟨?_, fun hCause => absurd BitVec.zero_and hCause⟩, rfl, ?_⟩, rfl, rfl⟩
  · show false = true ↔ pi.lintrState ≠ .idle
    simp [hIdle]
  · rintro ⟨⟩

/-- From initialisation on no interrupt is lost, exactly as long as every software reset of the
run comes while the interrupt is not asserted. -/
theorem e82545Init_kept_iff {pi : PciDevinst} (hIdle : pi.lintrState = .idle) :
    ∃ sc, Softc.e82545Init pi = .ok sc ∧ ∀ es : List IntrEvent,
      Throughout intrStep (fun sc => sc.intr.Kept) sc es ↔ Along intrStep ResetQuiet sc es := by
  obtain ⟨sc, hInit, hInv⟩ := e82545Init_intrInv hIdle
  refine ⟨sc, hInit, throughout_iff_along (fun _ h => h.intr.toKept) ?_ ?_ hInv⟩
  · exact fun _ _ _ h hQuiet hStep => intrStep_keeps h hQuiet hStep
  · exact fun _ _ h hLoud => intrStep_breaks h hLoud

def pinned : PciDevinst := { pciEmulInit ⟨0, 0, 0⟩ with lintrPin := 1 }

theorem e82545Init_kept_iff_pinned : ∃ sc, Softc.e82545Init pinned = .ok sc ∧
    ∀ es : List IntrEvent, Throughout intrStep (fun sc => sc.intr.Kept) sc es ↔
      Along intrStep ResetQuiet sc es := e82545Init_kept_iff rfl

/-- The guest resets the device while an interrupt is asserted, then unmasks the cause again. -/
def resetWhileAsserted : List IntrEvent :=
  [.write .ims 0x80, .icrAssert 0x80, .write .ctrl E1000_CTRL_RST, .callout, .write .ims 0x80,
    .icrAssert 0x80]

theorem resetWhileAsserted_loses :
    ¬ ∀ sc, Softc.e82545Init pinned = .ok sc →
      Throughout intrStep (fun sc => sc.intr.Kept) sc resetWhileAsserted := by
  intro h
  obtain ⟨sc, hRun, hCause, hIdle, hCallout⟩ : ∃ sc, (Softc.e82545Init pinned >>= fun sc =>
      run intrStep sc resetWhileAsserted) = .ok sc ∧ sc.intr.icr &&& sc.intr.ims ≠ 0 ∧
      sc.intr.escPi.lintrState = .idle ∧ sc.intr.callout = none := by
    refine ⟨_, rfl, ?_, ?_, ?_⟩ <;> decide
  obtain ⟨sc0, hInit, -⟩ := @e82545Init_intrInv pinned rfl
  rw [hInit] at hRun
  have hKept := h sc0 hInit _ [] sc (List.append_nil _).symm hRun
  obtain hLine | ⟨-, hRunning⟩ := hKept.requested hCause
  · exact hLine hIdle
  · simp [hCallout] at hRunning

end Run

end DeviceModel.E82545

import DeviceModel.DmLoop
import DeviceModel.PciAhciInterrupt

/-!
# The program: the interrupt lines

What the guest sees of the two devices' interrupts, whatever it does: the line of the controller
is high only for a reason that its registers show, and a cause that the e1000 has to report is
on its line, waits for the guest to permit it, or waits for the throttling callout.
-/

set_option autoImplicit false

namespace DeviceModel.DmLoop

open Fallible PciEmul PciDevinst EmulPci DmRequest

variable {pi₀ pi : PciDevinst} {b : Bdf}

structure InLine (b : Bdf) (pi₀ pi : PciDevinst) : Prop where
  bdf : pi₀.bdf = b
  same : ∃ lintrState irq, pi = { pi₀ with lintrState, irq }

theorem InLine.refl (hBdf : pi.bdf = b) : InLine b pi pi := ⟨hBdf, pi.lintrState, pi.irq, rfl⟩

theorem InLine.bdf_eq (h : InLine b pi₀ pi) : pi.bdf = b := by
  obtain ⟨state, irq, rfl⟩ := h.same
  exact h.bdf

theorem InLine.line (h : InLine b pi₀ pi) (lintrState : LintrStat) (irq : Bool) :
    InLine b pi₀ { pi with lintrState, irq } := by
  obtain ⟨state, high, rfl⟩ := h.same
  exact ⟨h.bdf, lintrState, irq, rfl⟩

theorem pciLintrAssert_inLine (h : InLine b pi₀ pi) :
    Yields (fun _ => True) (InLine b pi₀) pi.pciLintrAssert := by
  refine (assertThat_yields fun _ => trivial).bind fun _ _ _ => ?_
  split
  · split
    · exact h.line .asserted true
    · exact h.line .pending pi.irq
  · exact h

theorem pciLintrDeassert_inLine (h : InLine b pi₀ pi) :
    Yields (fun _ => True) (InLine b pi₀) pi.pciLintrDeassert := by
  refine (assertThat_yields fun _ => trivial).bind fun _ _ _ => ?_
  cases pi.lintrState with
  | idle => exact h
  | asserted => exact h.line .idle false
  | pending => exact h.line .idle pi.irq

section Ahci

open PciAhci

/-- The controller asks for its line exactly while `lintr` says so, and then for a reason. -/
structure AhciLine (pi₀ : PciDevinst) (sc : PciAhci.Softc) : Prop where
  inst : InLine ahciBdf pi₀ sc.ascPi
  settled : Settled sc.lintr sc.ascPi
  sourced : sc.lintr = true → sc.ghc &&& AHCI_GHC_IE ≠ 0 ∧ sc.is ≠ 0

def KeepsLine (pi₀ : PciDevinst) (s t : Port) : Prop := AhciLine pi₀ s.sc → AhciLine pi₀ t.sc

theorem raiseIntr_keepsLine (s : Port) : Yields (fun _ => True) (KeepsLine pi₀ s) s.raiseIntr := by
  have hRaised : ∀ k : Fin 32, AhciLine pi₀ s.sc → AhciLine pi₀ { s.sc with is := s.sc.is ||| bit k } := by
    intro k h
    refine ⟨h.inst, h.settled, fun hLintr => ⟨(h.sourced hLintr).1, ?_⟩⟩
    exact or_ne_zero_right (bit_ne_zero k)
  unfold Port.raiseIntr
  split
  · exact fun h => h
  dsimp only
  split
  · exact hRaised _
  split
  · exact fun h => h
  split
  · exact hRaised _
  next hOn =>
  split
  · exact hRaised _
  split
  · exact hRaised _
  · unfold Port.assertLintr
    cases hPi : s.sc.ascPi.pciLintrAssert with
    | error e => trivial
    | ok pi =>
      intro h
      have hInst := (pciLintrAssert_inLine h.inst).of_ok hPi
      obtain ⟨-, hSettled⟩ := (pciLintrAssert_settled h.settled).of_ok hPi
      exact ⟨hInst, hSettled, fun _ => ⟨hOn, or_ne_zero_right (bit_ne_zero _)⟩⟩

theorem ahciPortIntr_keepsLine (s : Port) :
    Yields (fun _ => True) (KeepsLine pi₀ s) s.ahciPortIntr :=
  (assertThat_yields fun _ => trivial).bind fun _ _ _ => raiseIntr_keepsLine s

theorem ahciWriteFis_keepsLine (s : Port) (ft : SataFisType) (fis : List (BitVec 8)) :
    Yields (fun _ => True) (KeepsLine pi₀ s) (s.ahciWriteFis ft fis) := by
  unfold Port.ahciWriteFis
  split
  · split
    · exact fun h => h
    · dsimp only
      split
      · exact fun h => h
      · exact ahciPortIntr_keepsLine _
  · exact fun h => h

theorem onDisk_keepsLine (s : Port) {α : Type}
    (f : BlockIf.Disk IoreqId → Except Fault (α × BlockIf.Disk IoreqId)) :
    Yields (fun _ => True) (fun r => KeepsLine pi₀ s r.2) (s.onDisk f) := by
  refine (assertThat_yields fun _ => trivial).bind fun _ _ _ => (yields_true _).bind ?_
  rintro ⟨a, d⟩ - - h
  exact h

theorem keepsLine_kept : Port.Kept (KeepsLine pi₀) := by
  refine Port.Stepwise.kept ?_
  constructor
  · constructor
    · exact fun _ h => h
    · exact fun h h' hLine => h' (h hLine)
    · intro s t h
      unfold KeepsLine
      rw [h.sc]
      exact fun hLine => hLine
    · exact fun _ _ _ h => h
    · exact fun _ _ h => h
    · intro s
      unfold Port.ahciCheckStopped
      split
      · exact fun h => h
      · exact fun h => h
    · exact fun _ _ _ _ => ahciWriteFis_keepsLine _ _ _
    · exact fun _ _ _ _ => ahciWriteFis_keepsLine _ _ _
    · exact fun s => ahciWriteFis_keepsLine s _ _
    · exact fun s _ => onDisk_keepsLine s _
  · exact fun _ _ _ h => h
  · exact fun _ _ h => h
  · exact fun _ _ h => h
  · exact fun _ _ => ahciWriteFis_keepsLine _ _ _
  · exact fun s => ahciWriteFis_keepsLine s _ _
  · intro s op aior
    apply (onDisk_keepsLine s _).bind
    intro r _ hr
    exact (assertThat_yields fun _ => trivial).bind fun _ _ _ => hr

theorem mtx_keepsLine (s : Port) (m : PthreadMutex) : KeepsLine pi₀ s { s with sc.mtx := m } :=
  fun h => ⟨h.inst, h.settled, h.sourced⟩

theorem pciAhciPortWrite_keepsLine (s : Port) (fuel offset : Nat) (value : BitVec 32) :
    Yields (fun _ => True) (KeepsLine pi₀ s) (s.pciAhciPortWrite fuel offset value) := by
  by_cases hCmd : offset = 0x18
  · subst hCmd
    apply keepsLine_kept.andThen
    · apply Yields.ite
      · exact keepsLine_kept.portStop _ (mtx_keepsLine _ _)
      · exact fun h => h
    · intro t
      have hBits : (t.cmdBits value).sc = t.sc := by
        unfold Port.cmdBits
        dsimp only
        split <;> split <;> split <;> rfl
      apply (keepsLine_kept.handlePort (t.cmdBits value) fuel).imp
      intro u _ hKept hLine
      exact hKept (hBits ▸ hLine)
  by_cases hIs : offset = 0x10
  · subst hIs
    exact ahciPortIntr_keepsLine _
  by_cases hIe : offset = 0x14
  · subst hIe
    exact ahciPortIntr_keepsLine _
  · exact keepsLine_kept.portWrite s fuel hCmd hIs hIe value

theorem hbaReset_keepsLine (s : Port) : Yields (fun _ => True) (KeepsLine pi₀ s) s.hbaReset :=
  (keepsLine_kept.portReset _).imp fun _ _ hKept hLine => hKept hLine

variable {s : PciAhci.Ahci}

theorem onPort_ahciLine (h : AhciLine pi₀ s.sc) (k : PortId) {f : Port → Except Fault Port}
    (hf : ∀ t, Yields (fun _ => True) (KeepsLine pi₀ t) (f t)) :
    Yields (fun _ => True) (fun s' => AhciLine pi₀ s'.sc) (s.onPort k f) :=
  (hf _).bind fun _ _ hKept => hKept h

theorem resetPorts_ahciLine (h : AhciLine pi₀ s.sc) (ks : List PortId) :
    Yields (fun _ => True) (fun s' => AhciLine pi₀ s'.sc) (Ahci.resetPorts ks s) := by
  induction ks generalizing s with
  | nil => exact h
  | cons k ks ih =>
    apply (onPort_ahciLine h k fun t => hbaReset_keepsLine t).bind
    intro t _ ht
    exact ih ht

theorem deassert_ahciLine {sc : PciAhci.Softc} (hInst : InLine ahciBdf pi₀ sc.ascPi)
    (hSettled : Settled sc.lintr sc.ascPi) : Yields (fun _ => True)
      (fun pi => AhciLine pi₀ { sc with ascPi := pi, lintr := false }) sc.ascPi.pciLintrDeassert := by
  apply ((pciLintrDeassert_inLine hInst).and (pciLintrDeassert_settled hSettled)).imp
  intro pi _ hPi
  exact ⟨hPi.1, hPi.2.2, fun hLintr => absurd hLintr Bool.false_ne_true⟩

theorem ahciReset_ahciLine (h : AhciLine pi₀ s.sc) :
    Yields (fun _ => True) (fun s' => AhciLine pi₀ s'.sc) s.ahciReset := by
  unfold Ahci.ahciReset
  dsimp only
  apply Yields.bind (P := fun t => AhciLine pi₀ t.sc)
  · split
    · apply (deassert_ahciLine h.inst h.settled).bind
      intro pi _ hPi
      exact ⟨hPi.inst, hPi.settled, fun hLintr => absurd hLintr Bool.false_ne_true⟩
    · next hOff => exact ⟨h.inst, h.settled, fun hLintr => absurd hLintr hOff⟩
  · intro t _ ht
    exact resetPorts_ahciLine ht _

/-- Whatever was written to GHC or IS before. -/
theorem ahciGenerateIntr_ahciLine (hInst : InLine ahciBdf pi₀ s.sc.ascPi)
    (hSettled : Settled s.sc.lintr s.sc.ascPi) :
    Yields (fun _ => True) (fun s' => AhciLine pi₀ s'.sc) s.ahciGenerateIntr := by
  unfold Ahci.ahciGenerateIntr
  dsimp only
  split
  · split
    · apply (deassert_ahciLine hInst hSettled).bind
      intro pi _ hPi
      exact ⟨hPi.inst, hPi.settled, fun hLintr => absurd hLintr Bool.false_ne_true⟩
    · next hOff => exact ⟨hInst, hSettled, fun hLintr => absurd hLintr hOff⟩
  · next hSome =>
    rw [not_or] at hSome
    split
    · split
      · exact ⟨hInst, hSettled, fun _ => hSome.symm⟩
      · apply ((pciLintrAssert_inLine hInst).and (pciLintrAssert_settled hSettled)).bind
        intro pi _ hPi
        exact ⟨hPi.1, hPi.2.2, fun _ => hSome.symm⟩
    · exact ⟨hInst, hSettled, fun _ => hSome.symm⟩

theorem pciAhciWrite_ahciLine (h : AhciLine pi₀ s.sc) (fuel baridx offset : Nat) (value : BitVec 64) :
    Yields (fun _ => True) (fun s' => AhciLine pi₀ s'.sc) (s.pciAhciWrite fuel baridx offset value) := by
  have hMtx : ∀ {sc : PciAhci.Softc} (m : PthreadMutex), AhciLine pi₀ sc → AhciLine pi₀ { sc with mtx := m } :=
    fun _ hsc => ⟨hsc.inst, hsc.settled, hsc.sourced⟩
  have hLocked := hMtx s.sc.mtx.pthreadMutexLock h
  have hHost : ∀ {t : Ahci} (value : BitVec 32), AhciLine pi₀ t.sc →
      Yields (fun _ => True) (fun s' => AhciLine pi₀ s'.sc) (t.pciAhciHostWrite offset value) := by
    intro t value ht
    unfold Ahci.pciAhciHostWrite
    split
    · exact Yields.ite (ahciReset_ahciLine ht) (ahciGenerateIntr_ahciLine ht.inst ht.settled)
    · exact ahciGenerateIntr_ahciLine ht.inst ht.settled
    · exact ht
  unfold Ahci.pciAhciWrite
  apply (assertThat_yields fun _ => trivial).bind
  intro _ _ _
  apply Yields.bind (P := fun t => AhciLine pi₀ t.sc)
  · apply Yields.ite
    · exact hHost _ hLocked
    · apply Yields.ite
      · generalize (offset - AHCI_OFFSET) % AHCI_STEP = reg
        exact onPort_ahciLine hLocked _ fun t => pciAhciPortWrite_keepsLine t fuel reg _
      · exact hLocked
  · intro t _ ht
    exact hMtx _ ht

theorem pciAhciRead_ahciLine (h : AhciLine pi₀ s.sc) (baridx regoff size : Nat) :
    Yields (fun _ => True) (fun r => AhciLine pi₀ r.2.sc) (s.pciAhciRead baridx regoff size) :=
  (assertThat_yields fun _ => trivial).bind fun _ _ _ => ⟨h.inst, h.settled, h.sourced⟩

theorem blockifThr_ahciLine (h : AhciLine pi₀ s.sc) (fuel : Nat) :
    Yields (fun _ => True) (fun s' => AhciLine pi₀ s'.sc) (s.blockifThr fuel) := by
  unfold Ahci.blockifThr
  split
  · exact h
  · exact onPort_ahciLine h _ fun t => keepsLine_kept.blockifThr t fuel mtx_keepsLine fun _ _ hLine => hLine

theorem pciAhciInit_ahciLine {pi : PciDevinst} (hBdf : pi.bdf = ahciBdf) (hSettled : Settled false pi)
    (disks : List (Option (List (BitVec 8)))) (mem : Memory) (stack : Nat → BitVec 8) :
    Yields (fun _ => True) (fun s => AhciLine pi s.sc) (PciAhci.pciAhciInit pi disks mem stack) := by
  apply ahciReset_ahciLine
  exact ⟨.refl hBdf, hSettled, fun hLintr => absurd hLintr Bool.false_ne_true⟩

end Ahci

section E82545

open E82545 E82545.Intr

/-- The e1000 asks for its line only while `esc_irq_asserted` says so, and a cause that is set and
unmasked has been asked for, or the callout is still to look at it. -/
structure E82545Line (pi₀ : PciDevinst) (x : Intr) : Prop where
  inst : InLine e82545Bdf pi₀ x.escPi
  settled : Settled (decide (x.escPi.lintrState ≠ .idle)) x.escPi
  asserted : x.escPi.lintrState ≠ .idle → x.irqAsserted = true
  caused : x.icr &&& x.ims ≠ 0 → x.irqAsserted = true ∨ x.mevpitr = true ∧ x.callout.isSome = true
  throttled : x.mevpitr = x.callout.isSome

theorem settled_self {requested : Bool} {pi : PciDevinst} (h : Settled requested pi) :
    Settled (decide (pi.lintrState ≠ .idle)) pi := by
  have hSame : decide (pi.lintrState ≠ .idle) = requested := by
    rw [Bool.eq_iff_iff, decide_eq_true_eq]
    exact h.state
  rwa [hSame]

theorem assert_e82545 (hInst : InLine b pi₀ pi)
    (hSettled : Settled (decide (pi.lintrState ≠ .idle)) pi) :
    Yields (fun _ => True) (fun pi' => InLine b pi₀ pi' ∧
      Settled (decide (pi'.lintrState ≠ .idle)) pi') pi.pciLintrAssert :=
  ((pciLintrAssert_inLine hInst).and (pciLintrAssert_settled hSettled)).imp
    fun _ _ h => ⟨h.1, settled_self h.2.2⟩

theorem deassert_e82545 (hInst : InLine b pi₀ pi)
    (hSettled : Settled (decide (pi.lintrState ≠ .idle)) pi) :
    Yields (fun _ => True) (fun pi' => InLine b pi₀ pi' ∧
      Settled (decide (pi'.lintrState ≠ .idle)) pi' ∧ pi'.lintrState = .idle) pi.pciLintrDeassert := by
  apply (((pciLintrDeassert_inLine hInst).and (pciLintrDeassert_settled hSettled)).and
    (pciLintrDeassert_yields pi)).imp
  intro pi' _ h
  exact ⟨h.1.1, settled_self h.1.2.2, h.2.1⟩

section Intr

variable {x : Intr}

/-- All of the invariant but the claim on causes, which `raise` brings about for those in `new`. -/
theorem raise_e82545Line {new : BitVec 32} (hInst : InLine e82545Bdf pi₀ x.escPi)
    (hSettled : Settled (decide (x.escPi.lintrState ≠ .idle)) x.escPi)
    (hAsserted : x.escPi.lintrState ≠ .idle → x.irqAsserted = true)
    (hThrottled : x.mevpitr = x.callout.isSome)
    (hOld : new = 0 → x.icr &&& x.ims ≠ 0 →
      x.irqAsserted = true ∨ x.mevpitr = true ∧ x.callout.isSome = true) :
    Yields (fun _ => True) (E82545Line pi₀) (x.raise new) := by
  unfold raise
  split
  · next hNothing =>
    refine ⟨hInst, hSettled, hAsserted, fun hCause => ?_, hThrottled⟩
    obtain hNew | hThrottle | hIrq := hNothing
    · exact hOld hNew hCause
    · exact .inr ⟨hThrottle, hThrottled.symm.trans hThrottle⟩
    · exact .inl hIrq
  · apply (assert_e82545 hInst hSettled).bind
    intro pi _ hPi
    dsimp only
    split
    · exact ⟨hPi.1, hPi.2, fun _ => rfl, fun _ => .inl rfl, rfl⟩
    · exact ⟨hPi.1, hPi.2, fun _ => rfl, fun _ => .inl rfl, hThrottled⟩

theorem e82545IcrAssert_e82545Line (h : E82545Line pi₀ x) (bits : BitVec 32) :
    Yields (fun _ => True) (E82545Line pi₀) (x.e82545IcrAssert bits) := by
  refine raise_e82545Line h.inst h.settled h.asserted h.throttled ?_
  intro hNew hCause
  rw [or_and_eq_of_new hNew] at hCause
  exact h.caused hCause

theorem e82545ImsChange_e82545Line (h : E82545Line pi₀ x) (bits : BitVec 32) :
    Yields (fun _ => True) (E82545Line pi₀) (x.e82545ImsChange bits) := by
  refine raise_e82545Line h.inst h.settled h.asserted h.throttled ?_
  intro hNew hCause
  have hNew' : bits &&& ~~~x.ims &&& x.icr = 0 := by
    rw [BitVec.and_assoc, BitVec.and_comm (~~~x.ims), ← BitVec.and_assoc]
    exact hNew
  apply h.caused
  rw [BitVec.and_comm, ← or_and_eq_of_new hNew', BitVec.and_comm]
  exact hCause

theorem e82545IcrDeassert_e82545Line (h : E82545Line pi₀ x) (bits : BitVec 32) :
    Yields (fun _ => True) (E82545Line pi₀) (x.e82545IcrDeassert bits) := by
  unfold e82545IcrDeassert
  dsimp only
  split
  · next hLast =>
    apply (deassert_e82545 h.inst h.settled).bind
    intro pi _ hPi
    refine ⟨hPi.1, hPi.2.1, fun hState => absurd hPi.2.2 hState, ?_, h.throttled⟩
    exact fun hCause => absurd hLast.2 hCause
  · exact ⟨h.inst, h.settled, h.asserted, fun hCause => h.caused (and_ne_zero_of_left hCause), h.throttled⟩

theorem runCallout_e82545Line (h : E82545Line pi₀ x) :
    Yields (fun _ => True) (E82545Line pi₀) x.runCallout := by
  unfold runCallout
  cases hCallout : x.callout with
  | none => exact h
  | some delay =>
    have hThrottled : x.mevpitr = true := by
      rw [h.throttled, hCallout]
      rfl
    dsimp only
    unfold e82545ItrCallback
    split
    · apply (assert_e82545 h.inst h.settled).bind
      intro pi _ hPi
      exact ⟨hPi.1, hPi.2, fun _ => rfl, fun _ => .inl rfl, hThrottled⟩
    · next hQuiet =>
      refine ⟨h.inst, h.settled, h.asserted, fun hCause => .inl ?_, rfl⟩
      exact eq_true_of_ne_false fun hOff => hQuiet ⟨hCause, hOff⟩

theorem e82545IntrWrite_e82545Line (h : E82545Line pi₀ x) (value : BitVec 32) (reg : Reg) :
    Yields (fun _ => True) (E82545Line pi₀) (x.e82545IntrWrite value reg) := by
  cases reg
  case icr => exact e82545IcrDeassert_e82545Line h value
  case itr => exact ⟨h.inst, h.settled, h.asserted, h.caused, h.throttled⟩
  case ics =>
    exact @e82545IcrAssert_e82545Line pi₀ { x with ics := value }
      ⟨h.inst, h.settled, h.asserted, h.caused, h.throttled⟩ value
  case ims => exact e82545ImsChange_e82545Line h value
  case imc =>
    refine ⟨h.inst, h.settled, h.asserted, fun hCause => h.caused fun hZero => hCause ?_, h.throttled⟩
    rw [← BitVec.and_assoc, hZero]
    exact BitVec.zero_and
  all_goals exact h

theorem e82545IntrRead_e82545Line (h : E82545Line pi₀ x) (reg : Reg) :
    Yields (fun _ => True) (fun r => E82545Line pi₀ r.2) (x.e82545IntrRead reg) := by
  cases reg
  case icr =>
    have hClear : E82545Line pi₀ { x with icr := 0 } :=
      ⟨h.inst, h.settled, h.asserted, fun hCause => absurd BitVec.zero_and hCause, h.throttled⟩
    exact (e82545IcrDeassert_e82545Line hClear _).bind fun y _ hy => hy
  all_goals exact h

end Intr

section Softc

variable {sc : E82545.Softc}

/-- A reset takes the line back, whatever `esc_irq_asserted` says afterwards. -/
theorem e82545Reset_e82545Line (h : E82545Line pi₀ sc.intr) (drvr : Bool) :
    Yields (fun _ => True) (fun sc' => E82545Line pi₀ sc'.intr) (sc.e82545Reset drvr) := by
  unfold Softc.e82545Reset
  apply (e82545RxDisable_intr sc).bind
  intro sc₁ _ h₁
  apply (e82545TxDisable_intr sc₁).bind
  intro sc₂ _ h₂
  have hLine : E82545Line pi₀ sc₂.intr := by
    rw [h₂, h₁]
    exact h
  unfold Softc.resetState
  apply Yields.bind (P := fun pi => InLine e82545Bdf pi₀ pi ∧
    Settled (decide (pi.lintrState ≠ .idle)) pi ∧ (pi.lintrState ≠ .idle → sc₂.intr.irqAsserted = true))
  · split
    · apply (deassert_e82545 hLine.inst hLine.settled).imp
      intro pi _ hPi
      exact ⟨hPi.1, hPi.2.1, fun hState => absurd hPi.2.2 hState⟩
    · exact ⟨hLine.inst, hLine.settled, hLine.asserted⟩
  · intro pi _ hPi
    exact ⟨hPi.1, hPi.2.1, hPi.2.2, fun hCause => absurd BitVec.zero_and hCause, hLine.throttled⟩

theorem e82545Devctl_e82545Line (h : E82545Line pi₀ sc.intr) (value : BitVec 32) :
    Yields (fun _ => True) (fun sc' => E82545Line pi₀ sc'.intr) (sc.e82545Devctl value) := by
  unfold Softc.e82545Devctl
  apply Yields.ite
  · exact @e82545Reset_e82545Line pi₀ { sc with general.ctrl := value &&& ~~~E1000_CTRL_RST } h true
  · exact h

theorem writeReg_e82545Line (h : E82545Line pi₀ sc.intr) (value : BitVec 32) (reg : Reg) :
    Yields (fun _ => True) (fun sc' => E82545Line pi₀ sc'.intr) (sc.writeReg value reg) := by
  cases reg
  case ctrl => exact e82545Devctl_e82545Line h value
  case ctrlDup => exact e82545Devctl_e82545Line h value
  case rctl => exact (e82545RxCtl_intr value).imp fun _ _ hSame => hSame ▸ h
  case tctl => exact (e82545TxCtl_intr value).imp fun _ _ hSame => hSame ▸ h
  case icr => exact Yields.map (e82545IntrWrite_e82545Line h value .icr)
  case itr => exact Yields.map (e82545IntrWrite_e82545Line h value .itr)
  case ics => exact Yields.map (e82545IntrWrite_e82545Line h value .ics)
  case ims => exact Yields.map (e82545IntrWrite_e82545Line h value .ims)
  case imc => exact Yields.map (e82545IntrWrite_e82545Line h value .imc)
  case rdbah => exact (assertThat_yields fun _ => trivial).bind fun _ _ _ => h
  case rdlen => exact (assertThat_yields fun _ => trivial).bind fun _ _ _ => h
  case ra => exact (assertThat_yields fun _ => trivial).bind fun _ _ _ => h
  case rdbal =>
    show E82545Line pi₀ (if sc.rx.rxEnabled then _ else _ : E82545.Softc).intr
    split <;> exact h
  case tdbal =>
    show E82545Line pi₀ (if sc.tx.txEnabled then _ else _ : E82545.Softc).intr
    split <;> exact h
  all_goals exact h

theorem readReg_e82545Line (h : E82545Line pi₀ sc.intr) (reg : Reg) :
    Yields (fun _ => True) (fun r => E82545Line pi₀ r.2.intr) (sc.readReg reg) := by
  cases reg
  case icr => exact Yields.map (e82545IntrRead_e82545Line h .icr)
  case ra ridx => exact Yields.map ((yields_true _).imp fun _ _ _ => h)
  all_goals exact h

theorem e82545Write_e82545Line (h : E82545Line pi₀ sc.intr) (baridx : Nat) (offset : BitVec 64) (size : Nat)
    (value : BitVec 64) :
    Yields (fun _ => True) (fun sc' => E82545Line pi₀ sc'.intr) (sc.e82545Write baridx offset size value) := by
  obtain ⟨reg, -, hWrite⟩ | ⟨-, ioAddr, hWrite⟩ := e82545Write_cases sc baridx offset size value
  · rw [hWrite]
    exact writeReg_e82545Line h _ reg
  · rw [hWrite]
    exact h

theorem e82545Read_e82545Line (h : E82545Line pi₀ sc.intr) (baridx : Nat) (offset : BitVec 64) (size : Nat) :
    Yields (fun _ => True) (fun r => E82545Line pi₀ r.2.intr) (sc.e82545Read baridx offset size) := by
  have hRegister : ∀ o : BitVec 32, Yields (fun _ => True)
      (fun r : BitVec 64 × E82545.Softc => E82545Line pi₀ r.2.intr)
      ((sc.e82545ReadRegister o).map fun r => (r.1.setWidth 64, r.2)) := by
    intro o
    apply Yields.map
    unfold Softc.e82545ReadRegister
    split
    · exact h
    · split
      · exact readReg_e82545Line h _
      · exact h
  unfold Softc.e82545Read
  split
  · split
    · exact h
    · exact Yields.ite (hRegister _) h
  · exact Yields.ite (hRegister _) h

variable {φ : Type} {F : Fifo φ} {s : E1000 φ}

theorem e82545TxPoll_e82545Line (h : E82545Line pi₀ s.sc.intr) :
    Yields (fun _ => True) (fun s' => E82545Line pi₀ s'.sc.intr) (e82545TxPoll F s) := by
  unfold e82545TxPoll
  apply Yields.ite
  · unfold e82545TxRun
    apply (yields_true _).bind
    intro r _ _
    apply Yields.bind (P := E82545Line pi₀)
    · exact Yields.ite (e82545IcrAssert_e82545Line h _) h
    · exact fun _ _ hIntr => hIntr
  · exact h

theorem e82545TapCallback_e82545Line (h : E82545Line pi₀ s.sc.intr) (packets : Nat) :
    Yields (fun _ => True) (fun s' => E82545Line pi₀ s'.sc.intr) (e82545TapCallback F packets s) := by
  unfold e82545TapCallback
  apply Yields.ite
  · exact h
  · apply (yields_true _).bind
    intro left _ _
    apply Yields.ite
    · exact h
    · apply (yields_true _).bind
      intro r _ _
      apply (yields_true _).bind
      intro left' _ _
      apply Yields.bind (P := E82545Line pi₀)
      · exact Yields.ite (e82545IcrAssert_e82545Line h _) h
      · exact fun _ _ hIntr => hIntr

theorem e1000Poll_e82545Line (h : E82545Line pi₀ s.sc.intr) (packets : Nat) :
    Yields (fun _ => True) (fun s' => E82545Line pi₀ s'.sc.intr) (e1000Poll F packets s) :=
  (e82545TxPoll_e82545Line h).bind fun _ _ ht => e82545TapCallback_e82545Line ht packets

end Softc

end E82545

section Examples

def storeRequest (addr : BitVec 64) (val : BitVec 32) : Request where
  req := ⟨{ request addr true 4 with data := fun i => val.extractLsb' (8 * i) 8 }, 4, 0⟩
  regs := attributeRegs
  load _ _ := 0
  val := 0
  memVal8 _ := 0
  val8 _ := 0

/-- A write of two bytes, the first one most significant as configuration space has it. -/
def configRequest (addr : BitVec 64) (val : BitVec 16) : Request where
  req := ⟨{ request addr true 2 with data := fun i => val.extractLsb' (8 * (1 - i)) 8 }, 2, 0⟩
  regs := attributeRegs
  load _ _ := 0
  val := 0
  memVal8 _ := 0
  val8 _ := 0

/-- The guest enables the interrupts of the controller, and a pass follows. -/
def enableInterrupts : List Event := pass (some (storeRequest 0xfdb50004 2)) 1

def started : Except Fault (Devices unbalancedTree (Behind Unit)) :=
  dmInit unbalancedTree [some []] (fun _ => 0) (fun _ => 0) ()

def enabled (events : List Event) : Except Fault (Devices unbalancedTree (Behind Unit)) :=
  started >>= fun s => run (step 8 E82545.idleFifo) s events

theorem enabled_runs : ∃ s₀ s, started = .ok s₀ ∧
    run (step 8 E82545.idleFifo) s₀ enableInterrupts = .ok s := by
  obtain ⟨s, hRun⟩ := fault?_eq_none_iff.mp
    (show fault? (enabled enableInterrupts) = none by decide +kernel)
  obtain ⟨s₀, hInit, hRun⟩ := bind_eq_ok_iff.mp hRun
  exact ⟨s₀, s, hInit, hRun⟩

def commandMemory : Memory := fun a =>
  ([(0x1009, 0x11), (0x1100, 0x27), (0x1101, 0x80), (0x1102, 0xe0)].lookup
    (a - MIPS_XKPHYS_UNCACHED_BASE).toNat).getD 0

/-- The guest permits both lines, sets the controller up, has the command carried out, and sets a
cause of the e1000 that it has unmasked. -/
def raiseInterrupts : List Event :=
  [.request (configRequest 0xfdb18004 6), .request (configRequest 0xfdb10004 6), .store commandMemory] ++
    [(0xfdb50100, 0x1000), (0xfdb50108, 0x2000), (0xfdb50114, 1), (0xfdb50118, 0x11), (0xfdb50004, 2),
      (0xfdb50138, 1), (0xfdb200d0, 4), (0xfdb200c8, 4)].map (fun r => .request (storeRequest r.1 r.2)) ++
    [.e1000Poll 1, .blockifThr]

def raised (s : Devices unbalancedTree (Behind Unit)) : Bool :=
  (s.machine.pci.fiDevi ahciBdf).all PciDevinst.irq ∧ (s.machine.pci.fiDevi e82545Bdf).all PciDevinst.irq ∧
    s.machine.dev.e82545.intr.icr &&& s.machine.dev.e82545.intr.ims ≠ 0

theorem raised_runs : ∃ s₀ s, started = .ok s₀ ∧
    run (step 8 E82545.idleFifo) s₀ raiseInterrupts = .ok s ∧ raised s = true := by
  have hRaised : (enabled raiseInterrupts).toOption.map raised = some true := by decide +kernel
  obtain ⟨s, hRun, hRaised⟩ := Option.map_eq_some_iff.mp hRaised
  obtain ⟨s₀, hInit, hRun⟩ := bind_eq_ok_iff.mp (toOption_eq_some_iff.mp hRun)
  exact ⟨s₀, s, hInit, hRun, hRaised⟩

end Examples

section System

variable {T : PciTree} {φ : Type} {m : Machine T (Behind φ)}

/-- Every function has its line settled, and the two devices agree with theirs. -/
structure Lines (m : Machine T (Behind φ)) : Prop where
  settled : ∃ requested, LinesSettled requested m.pci
  e82545 : ∃ pi, m.pci.fiDevi e82545Bdf = some pi ∧ E82545Line pi (e1000At m pi).sc.intr
  ahci : ∃ pi, m.pci.fiDevi ahciBdf = some pi ∧ AhciLine pi (ahciAt m pi).sc

theorem e82545Bdf_ne : ahciBdf ≠ e82545Bdf := by decide

theorem setDevi_self (s : Pci T) {pi : PciDevinst} {b : Bdf} (hBdf : pi.bdf = b) :
    (s.setDevi pi).fiDevi b = some pi := setDevi_eq_some_iff.mpr (.inl ⟨hBdf.symm, rfl⟩)

theorem setDevi_other (s : Pci T) {pi x : PciDevinst} {b : Bdf} (hNe : b ≠ pi.bdf)
    (hx : s.fiDevi b = some x) : (s.setDevi pi).fiDevi b = some x :=
  setDevi_eq_some_iff.mpr (.inr ⟨hNe, hx⟩)

theorem E82545Line.rebase {x : E82545.Intr} (h : E82545Line pi₀ x) : E82545Line x.escPi x :=
  { h with inst := .refl h.inst.bdf_eq }

theorem AhciLine.rebase {sc : PciAhci.Softc} (h : AhciLine pi₀ sc) : AhciLine sc.ascPi sc :=
  { h with inst := .refl h.inst.bdf_eq }

theorem putE1000_lines (h : Lines m) {s : E82545.E1000 φ} (hs : E82545Line pi₀ s.sc.intr) :
    Lines (putE1000 m s) := by
  obtain ⟨requested, hSettled⟩ := h.settled
  obtain ⟨pi, hPi, hAhci⟩ := h.ahci
  constructor
  · exact ⟨_, hSettled.setDevi hs.settled⟩
  · exact ⟨s.sc.intr.escPi, setDevi_self m.pci hs.inst.bdf_eq, hs.rebase⟩
  · refine ⟨pi, setDevi_other m.pci ?_ hPi, hAhci⟩
    rw [hs.inst.bdf_eq]
    exact e82545Bdf_ne

theorem putAhci_lines (h : Lines m) {s : PciAhci.Ahci} (hs : AhciLine pi₀ s.sc) : Lines (putAhci m s) := by
  obtain ⟨requested, hSettled⟩ := h.settled
  obtain ⟨pi, hPi, hE82545⟩ := h.e82545
  constructor
  · exact ⟨_, hSettled.setDevi hs.settled⟩
  · refine ⟨pi, setDevi_other m.pci ?_ hPi, hE82545⟩
    rw [hs.inst.bdf_eq]
    exact e82545Bdf_ne.symm
  · exact ⟨s.sc.ascPi, setDevi_self m.pci hs.inst.bdf_eq, hs.rebase⟩

theorem onE1000_lines (h : Lines m) {f : E82545.E1000 φ → Except Fault (E82545.E1000 φ)}
    (hf : ∀ pi₀ s, E82545Line pi₀ s.sc.intr →
      Yields (fun _ => True) (fun s' => E82545Line pi₀ s'.sc.intr) (f s)) :
    Yields (fun _ => True) Lines (onE1000 m f) := by
  obtain ⟨pi, hPi, hLine⟩ := h.e82545
  unfold onE1000
  rw [hPi]
  apply Yields.map
  exact (hf _ _ hLine).imp fun s' _ hs' => putE1000_lines h hs'

theorem onAhci_lines (h : Lines m) {f : PciAhci.Ahci → Except Fault PciAhci.Ahci}
    (hf : ∀ pi₀ s, AhciLine pi₀ s.sc → Yields (fun _ => True) (fun s' => AhciLine pi₀ s'.sc) (f s)) :
    Yields (fun _ => True) Lines (onAhci m f) := by
  obtain ⟨pi, hPi, hLine⟩ := h.ahci
  unfold onAhci
  rw [hPi]
  apply Yields.map
  exact (hf _ _ hLine).imp fun s' _ hs' => putAhci_lines h hs'

theorem pciCfgrw_present {s s' : Pci T} {isRead : Bool} {bdf b : Bdf} {coff bytes : Nat}
    {eax val : BitVec 32} (h : s.pciCfgrw isRead bdf coff bytes eax = .ok (val, s')) {pi : PciDevinst}
    (hPi : s.fiDevi b = some pi) : ∃ pi', s'.fiDevi b = some pi' := by
  unfold Pci.pciCfgrw at h
  split at h
  · obtain ⟨⟩ := h
    exact ⟨pi, hPi⟩
  split at h
  · obtain ⟨⟩ := h
    exact ⟨pi, hPi⟩
  split at h
  · obtain ⟨⟩ := h
    exact ⟨pi, hPi⟩
  split at h
  · obtain ⟨val', -, ⟨⟩⟩ := bind_eq_ok_iff.mp h
    exact ⟨pi, hPi⟩
  · obtain ⟨⟨x, registry⟩, -, ⟨⟩⟩ := bind_eq_ok_iff.mp h
    by_cases hb : b = x.bdf
    · exact ⟨x, setDevi_self s hb.symm⟩
    · exact ⟨pi, setDevi_other s hb hPi⟩

theorem pciCfgrw_linesSettled {s s' : Pci T} {requested : Bdf → Bool} (hSettled : LinesSettled requested s)
    {isRead : Bool} {bdf : Bdf} {coff bytes : Nat} {eax val : BitVec 32}
    (h : s.pciCfgrw isRead bdf coff bytes eax = .ok (val, s')) : LinesSettled requested s' := by
  cases isRead with
  | true =>
    obtain ⟨val', hRead⟩ := pciCfgrw_read s bdf coff bytes eax
    obtain ⟨⟩ := h.symm.trans hRead
    exact hSettled
  | false =>
    have hWrite : s.write ⟨bdf, coff, bytes, eax⟩ = .ok s' := by
      unfold Pci.write
      rw [h]
      rfl
    exact (write_linesSettled hSettled ⟨bdf, coff, bytes, eax⟩).of_ok hWrite

theorem settled_unique {requested requested' : Bool} {pi : PciDevinst} (h : Settled requested pi)
    (h' : Settled requested' pi) : requested = requested' := by
  rw [Bool.eq_iff_iff, ← h.state]
  exact h'.state

theorem config_lines (h : Lines m) {pci : Pci T} {isRead : Bool} {bdf : Bdf} {coff bytes : Nat}
    {eax val : BitVec 32} (hCfg : m.pci.pciCfgrw isRead bdf coff bytes eax = .ok (val, pci)) :
    Lines { m with pci } := by
  obtain ⟨requested, hSettled⟩ := h.settled
  have hSettled' := pciCfgrw_linesSettled hSettled hCfg
  constructor
  · exact ⟨requested, hSettled'⟩
  · obtain ⟨pi, hPi, hLine⟩ := h.e82545
    obtain ⟨pi', hPi'⟩ := pciCfgrw_present hCfg hPi
    obtain ⟨hBdf, hNew⟩ := hSettled' _ _ hPi'
    refine ⟨pi', hPi', .refl hBdf, settled_self hNew, fun hState => ?_, hLine.caused, hLine.throttled⟩
    exact hLine.asserted ((hSettled _ _ hPi).2.state.mpr (hNew.state.mp hState))
  · obtain ⟨pi, hPi, hLine⟩ := h.ahci
    obtain ⟨pi', hPi'⟩ := pciCfgrw_present hCfg hPi
    obtain ⟨hBdf, hNew⟩ := hSettled' _ _ hPi'
    refine ⟨pi', hPi', .refl hBdf, ?_, hLine.sourced⟩
    rwa [settled_unique (hSettled _ _ hPi).2 hLine.settled] at hNew

theorem peBarwrite_lines (h : Lines m) (fuel : Nat) (bdf : Bdf) (bidx : Nat) (offset : BitVec 64)
    (size : Nat) (val : BitVec 64) :
    Yields (fun _ => True) Lines ((barOps T φ fuel).peBarwrite bdf m bidx offset size val) := by
  apply Yields.ite
  · apply onE1000_lines h
    intro pi₀ s hs
    exact Yields.map (e82545Write_e82545Line hs bidx offset size val)
  · apply Yields.ite
    · apply onAhci_lines h
      intro pi₀ s hs
      exact pciAhciWrite_ahciLine hs fuel bidx offset.toNat val
    · trivial

theorem peBarread_lines (h : Lines m) (fuel : Nat) (bdf : Bdf) (bidx : Nat) (offset : BitVec 64)
    (size : Nat) :
    Yields (fun _ => True) (fun r => Lines r.2) ((barOps T φ fuel).peBarread bdf m bidx offset size) := by
  obtain ⟨pi, hPi, hE82545⟩ := h.e82545
  obtain ⟨pi', hPi', hAhci⟩ := h.ahci
  unfold barOps
  dsimp only
  rw [hPi, hPi']
  apply Yields.ite
  · apply Yields.map
    apply (e82545Read_e82545Line hE82545 bidx offset size).imp
    intro r _ hr
    exact putE1000_lines h (s := { e1000At m pi with sc := r.2 }) hr
  · apply Yields.ite
    · apply Yields.map
      apply (pciAhciRead_ahciLine hAhci bidx offset.toNat size).imp
      intro r _ hr
      exact putAhci_lines h hr
    · trivial

theorem lines_kept (fuel : Nat) : Kept (barOps T φ fuel) Lines where
  registry _ _ h := ⟨h.settled, h.e82545, h.ahci⟩
  config h hCfg := config_lines h hCfg
  read bdf bidx offset size h := peBarread_lines h fuel bdf bidx offset size
  write bdf bidx offset size val h := peBarwrite_lines h fuel bdf bidx offset size val

theorem step_lines {fuel : Nat} {F : E82545.Fifo φ} {s : Devices T (Behind φ)} (h : Lines s.machine)
    (e : Event) : Yields (fun _ => True) (fun s' => Lines s'.machine) (step fuel F s e) := by
  cases e with
  | request r => exact Yields.map (@Kept.request _ _ _ (r.surroundings T φ fuel) (lines_kept fuel) _ h r.req)
  | e1000Poll packets =>
    exact Yields.map (onE1000_lines h fun _ _ hs => e1000Poll_e82545Line hs packets)
  | blockifThr => exact Yields.map (onAhci_lines h fun _ _ hs => blockifThr_ahciLine hs fuel)
  | callout =>
    exact Yields.map (onE1000_lines h fun _ _ hs => Yields.map (runCallout_e82545Line hs))
  | fifoWork packets =>
    exact Yields.map (onE1000_lines h fun _ _ hs => e82545TapCallback_e82545Line hs packets)
  | store mem => exact ⟨h.settled, h.e82545, h.ahci⟩

theorem e82545Init_e82545Line {pi : PciDevinst} (hBdf : pi.bdf = e82545Bdf) (hSettled : Settled false pi) :
    Yields (fun _ => True) (fun sc => E82545Line pi sc.intr) (E82545.Softc.e82545Init pi) := by
  apply e82545Reset_e82545Line
  have hIdle : ¬ pi.lintrState ≠ .idle := fun hState =>
    absurd (hSettled.state.mp hState) Bool.false_ne_true
  exact ⟨.refl hBdf, settled_self hSettled, fun hState => absurd hState hIdle,
    fun hCause => absurd BitVec.zero_and hCause, rfl⟩

variable {fuel : Nat} {F : E82545.Fifo φ} {disks : List (Option (List (BitVec 8)))} {mem : Memory}
  {stack : Nat → BitVec 8} {fifo : φ} {events : List Event} {s₀ s : Devices T (Behind φ)}

theorem quiet_of_initPci {buses : List (List FuncInfo)} {pci : Pci T}
    (hPci : initPci T buses = .ok pci) : pci.Quiet := (initPci_quiet buses).of_ok hPci

theorem dmInit_lines (hInit : dmInit T disks mem stack fifo = .ok s₀) : Lines s₀.machine := by
  obtain ⟨pci, hPci, hInit⟩ := bind_eq_ok_iff.mp hInit
  have hSettled := (quiet_of_initPci hPci).linesSettled
  dsimp only at hInit
  split at hInit
  · next pi pi' hPi hPi' =>
    obtain ⟨sc, hSc, hInit⟩ := bind_eq_ok_iff.mp hInit
    obtain ⟨ahci, hAhci, ⟨⟩⟩ := bind_eq_ok_iff.mp hInit
    have hLine := (e82545Init_e82545Line (hSettled _ _ hPi).1 (hSettled _ _ hPi).2).of_ok hSc
    have hLine' := (pciAhciInit_ahciLine (hSettled _ _ hPi').1 (hSettled _ _ hPi').2 disks mem
      stack).of_ok hAhci
    constructor
    · exact ⟨_, (hSettled.setDevi hLine.settled).setDevi hLine'.settled⟩
    · refine ⟨sc.intr.escPi, setDevi_other _ ?_ (setDevi_self pci hLine.inst.bdf_eq), hLine.rebase⟩
      rw [hLine'.inst.bdf_eq]
      exact e82545Bdf_ne.symm
    · exact ⟨ahci.sc.ascPi, setDevi_self _ hLine'.inst.bdf_eq, hLine'.rebase⟩
  · cases hInit

theorem run_lines (hInit : dmInit T disks mem stack fifo = .ok s₀)
    (hRun : run (step fuel F) s₀ events = .ok s) : Lines s.machine :=
  (run_keeps (fun _ e hLines => step_lines hLines e) (dmInit_lines hInit) events).of_ok hRun

/-- Whatever the guest does, the line of the controller is high exactly while the controller asks for
it and the guest permits it, and then the controller has interrupts enabled and a status to show. -/
theorem ahciLine_sourced (hInit : dmInit T disks mem stack fifo = .ok s₀)
    (hRun : run (step fuel F) s₀ events = .ok s) :
    ∃ pi, s.machine.pci.fiDevi ahciBdf = some pi ∧
      (pi.irq = true ↔ s.machine.dev.ahci.sc.lintr = true ∧ pi.pciLintrPermitted = true) ∧
      (s.machine.dev.ahci.sc.lintr = true →
        s.machine.dev.ahci.sc.ghc &&& PciAhci.AHCI_GHC_IE ≠ 0 ∧ s.machine.dev.ahci.sc.is ≠ 0) := by
  obtain ⟨pi, hPi, hLine⟩ := (run_lines hInit hRun).ahci
  exact ⟨pi, hPi, hLine.settled.irq_iff, hLine.sourced⟩

theorem ahciLine_sourced_raised : ∃ s : Devices unbalancedTree (Behind Unit),
    enabled raiseInterrupts = .ok s ∧ ∃ pi, s.machine.pci.fiDevi ahciBdf = some pi ∧ pi.irq = true ∧
      (pi.irq = true ↔ s.machine.dev.ahci.sc.lintr = true ∧ pi.pciLintrPermitted = true) ∧
      (s.machine.dev.ahci.sc.lintr = true →
        s.machine.dev.ahci.sc.ghc &&& PciAhci.AHCI_GHC_IE ≠ 0 ∧ s.machine.dev.ahci.sc.is ≠ 0) := by
  obtain ⟨s₀, s, hInit, hRun, hRaised⟩ := raised_runs
  obtain ⟨pi, hPi, hLine⟩ := ahciLine_sourced hInit hRun
  have hIrq := (of_decide_eq_true hRaised).1
  rw [hPi] at hIrq
  exact ⟨s, bind_eq_ok_iff.mpr ⟨s₀, hInit, hRun⟩, pi, hPi, hIrq, hLine⟩

/-- Whatever the guest does, a cause that is set and unmasked is on the line of the e1000 as far as
the guest permits it, or the throttling callout is to look at it, or `esc_irq_asserted` has
outlived the line. -/
theorem e82545Line_caused (hInit : dmInit T disks mem stack fifo = .ok s₀)
    (hRun : run (step fuel F) s₀ events = .ok s) :
    ∃ pi, s.machine.pci.fiDevi e82545Bdf = some pi ∧
      (pi.irq = true → s.machine.dev.e82545.intr.irqAsserted = true ∧ pi.pciLintrPermitted = true) ∧
      (s.machine.dev.e82545.intr.icr &&& s.machine.dev.e82545.intr.ims ≠ 0 →
        pi.lintrState ≠ .idle ∧ (pi.irq = true ↔ pi.pciLintrPermitted = true) ∨
        s.machine.dev.e82545.intr.mevpitr = true ∧ s.machine.dev.e82545.intr.callout.isSome = true ∨
        s.machine.dev.e82545.intr.irqAsserted = true ∧ pi.lintrState = .idle) := by
  obtain ⟨pi, hPi, hLine⟩ := (run_lines hInit hRun).e82545
  have hIrq := hLine.settled.irq_iff
  rw [decide_eq_true_eq] at hIrq
  refine ⟨pi, hPi, fun hHigh => ?_, fun hCause => ?_⟩
  · obtain ⟨hState, hPermitted⟩ := hIrq.mp hHigh
    exact ⟨hLine.asserted hState, hPermitted⟩
  · by_cases hState : pi.lintrState = .idle
    · obtain hAsserted | hCallout := hLine.caused hCause
      · exact .inr (.inr ⟨hAsserted, hState⟩)
      · exact .inr (.inl hCallout)
    · exact .inl ⟨hState, hIrq.trans ⟨And.right, fun hPermitted => ⟨hState, hPermitted⟩⟩⟩

theorem e82545Line_caused_raised : ∃ s : Devices unbalancedTree (Behind Unit),
    enabled raiseInterrupts = .ok s ∧ s.machine.dev.e82545.intr.icr &&& s.machine.dev.e82545.intr.ims ≠ 0 ∧
      ∃ pi, s.machine.pci.fiDevi e82545Bdf = some pi ∧ pi.irq = true ∧
        (pi.irq = true → s.machine.dev.e82545.intr.irqAsserted = true ∧ pi.pciLintrPermitted = true) ∧
        (s.machine.dev.e82545.intr.icr &&& s.machine.dev.e82545.intr.ims ≠ 0 →
          pi.lintrState ≠ .idle ∧ (pi.irq = true ↔ pi.pciLintrPermitted = true) ∨
          s.machine.dev.e82545.intr.mevpitr = true ∧ s.machine.dev.e82545.intr.callout.isSome = true ∨
          s.machine.dev.e82545.intr.irqAsserted = true ∧ pi.lintrState = .idle) := by
  obtain ⟨s₀, s, hInit, hRun, hRaised⟩ := raised_runs
  obtain ⟨pi, hPi, hLine⟩ := e82545Line_caused hInit hRun
  obtain ⟨-, hIrq, hCause⟩ := of_decide_eq_true hRaised
  rw [hPi] at hIrq
  exact ⟨s, bind_eq_ok_iff.mpr ⟨s₀, hInit, hRun⟩, hCause, pi, hPi, hIrq, hLine⟩

section Legacy

def MsiOff (s : Devices T (Behind φ)) : Prop :=
  ∀ pi, s.machine.pci.fiDevi ahciBdf = some pi → pi.pciMsiMaxmsgnum = 0

def Reports (m : Machine T (Behind φ)) : Prop :=
  ∃ pi, m.pci.fiDevi ahciBdf = some pi ∧ (ahciAt m pi).Coherent

theorem putE1000_reports (h : Reports m) {s : E82545.E1000 φ} (hs : E82545Line pi₀ s.sc.intr) :
    Reports (putE1000 m s) := by
  obtain ⟨pi, hPi, hCoherent⟩ := h
  refine ⟨pi, setDevi_other m.pci ?_ hPi, hCoherent.legacy, hCoherent.requested, hCoherent.noted,
    hCoherent.index⟩
  rw [hs.inst.bdf_eq]
  exact e82545Bdf_ne

theorem putAhci_reports {s : PciAhci.Ahci} (hs : AhciLine pi₀ s.sc) (h : s.Coherent) :
    Reports (putAhci m s) :=
  ⟨s.sc.ascPi, setDevi_self m.pci hs.inst.bdf_eq, h.legacy, h.requested, h.noted, h.index⟩

theorem onE1000_reports (hLines : Lines m) (h : Reports m)
    {f : E82545.E1000 φ → Except Fault (E82545.E1000 φ)}
    (hf : ∀ pi₀ s, E82545Line pi₀ s.sc.intr →
      Yields (fun _ => True) (fun s' => E82545Line pi₀ s'.sc.intr) (f s)) :
    Yields (fun _ => True) (fun m' => Lines m' ∧ Reports m') (onE1000 m f) := by
  apply (onE1000_lines hLines hf).and
  obtain ⟨pi, hPi, hLine⟩ := hLines.e82545
  unfold onE1000
  rw [hPi]
  apply Yields.map
  exact (hf _ _ hLine).imp fun s' _ hs' => putE1000_reports h hs'

theorem onAhci_reports (hLines : Lines m) (h : Reports m)
    {f : PciAhci.Ahci → Except Fault PciAhci.Ahci}
    (hf : ∀ pi₀ s, AhciLine pi₀ s.sc → Yields (fun _ => True) (fun s' => AhciLine pi₀ s'.sc) (f s))
    (hf' : ∀ s, s.Coherent → Yields (fun _ => True) PciAhci.Ahci.Coherent (f s)) :
    Yields (fun _ => True) (fun m' => Lines m' ∧ Reports m') (onAhci m f) := by
  apply (onAhci_lines hLines hf).and
  obtain ⟨pi, hPi, hLine⟩ := hLines.ahci
  obtain ⟨pi', hPi', hCoherent⟩ := h
  obtain rfl := Option.some.inj (hPi.symm.trans hPi')
  unfold onAhci
  rw [hPi]
  apply Yields.map
  apply ((hf _ _ hLine).and (hf' _ hCoherent)).imp
  intro s' _ hs'
  exact putAhci_reports hs'.1 hs'.2

theorem pciAhciRead_coherent {s : PciAhci.Ahci} (h : s.Coherent) (baridx regoff size : Nat) :
    Yields (fun _ => True) (fun r => r.2.Coherent) (s.pciAhciRead baridx regoff size) :=
  (assertThat_yields fun _ => trivial).bind fun _ _ _ =>
    ⟨⟨h.legacy.msi, h.legacy.ports⟩, h.requested, h.noted, h.index⟩

theorem blockifThr_coherent {s : PciAhci.Ahci} (h : s.Coherent) (fuel : Nat) :
    Yields (fun _ => True) PciAhci.Ahci.Coherent (s.blockifThr fuel) := by
  unfold PciAhci.Ahci.blockifThr
  split
  · exact h
  · exact PciAhci.Ahci.onPort_coherent h fun t => PciAhci.Port.blockifThr_evolves t fuel

theorem peBarwrite_reports (h : Lines m ∧ Reports m) (fuel : Nat) (bdf : Bdf) (bidx : Nat)
    (offset : BitVec 64) (size : Nat) (val : BitVec 64) :
    Yields (fun _ => True) (fun m' => Lines m' ∧ Reports m')
      ((barOps T φ fuel).peBarwrite bdf m bidx offset size val) := by
  apply Yields.ite
  · apply onE1000_reports h.1 h.2
    intro pi₀ s hs
    exact Yields.map (e82545Write_e82545Line hs bidx offset size val)
  · apply Yields.ite
    · apply onAhci_reports h.1 h.2
      · intro pi₀ s hs
        exact pciAhciWrite_ahciLine hs fuel bidx offset.toNat val
      · intro s hs
        exact PciAhci.Ahci.pciAhciWrite_coherent hs fuel bidx offset.toNat val
    · trivial

theorem peBarread_reports (h : Lines m ∧ Reports m) (fuel : Nat) (bdf : Bdf) (bidx : Nat)
    (offset : BitVec 64) (size : Nat) :
    Yields (fun _ => True) (fun r => Lines r.2 ∧ Reports r.2)
      ((barOps T φ fuel).peBarread bdf m bidx offset size) := by
  apply (peBarread_lines h.1 fuel bdf bidx offset size).and
  obtain ⟨pi, hPi, hE82545⟩ := h.1.e82545
  obtain ⟨pi', hPi', hAhci⟩ := h.1.ahci
  obtain ⟨pi'', hPi'', hCoherent⟩ := h.2
  obtain rfl := Option.some.inj (hPi'.symm.trans hPi'')
  unfold barOps
  dsimp only
  rw [hPi, hPi']
  apply Yields.ite
  · apply Yields.map
    apply (e82545Read_e82545Line hE82545 bidx offset size).imp
    intro r _ hr
    exact @putE1000_reports _ T φ m h.2 { e1000At m pi with sc := r.2 } hr
  · apply Yields.ite
    · apply Yields.map
      apply ((pciAhciRead_ahciLine hAhci bidx offset.toNat size).and
        (pciAhciRead_coherent hCoherent bidx offset.toNat size)).imp
      intro r _ hr
      exact putAhci_reports hr.1 hr.2
    · trivial

/-- Configuration space changes nothing that the controller reports, if MSI is off afterwards. -/
theorem config_reports (h : Reports m) {pci : Pci T} {isRead : Bool} {bdf : Bdf} {coff bytes : Nat}
    {eax val : BitVec 32} (hCfg : m.pci.pciCfgrw isRead bdf coff bytes eax = .ok (val, pci))
    (hOff : ∀ pi, pci.fiDevi ahciBdf = some pi → pi.pciMsiMaxmsgnum = 0) : Reports { m with pci } := by
  obtain ⟨pi, hPi, hCoherent⟩ := h
  obtain ⟨pi', hPi'⟩ := pciCfgrw_present hCfg hPi
  exact ⟨pi', hPi', ⟨hOff pi' hPi', hCoherent.legacy.ports⟩, hCoherent.requested, hCoherent.noted,
    hCoherent.index⟩

theorem request_reports {s s' : Devices T (Behind φ)} (hLines : Lines s.machine) (h : Reports s.machine)
    {r : Request} (hStep : step fuel F s (.request r) = .ok s') (hOff : MsiOff s') :
    Reports s'.machine := by
  obtain hSame | hReaches := step_request_reaches hStep
  · rw [hSame]
    exact h
  have hStart : Lines (s.machine.access r.req.addr).2 ∧ Reports (s.machine.access r.req.addr).2 :=
    ⟨⟨hLines.settled, hLines.e82545, hLines.ahci⟩, h⟩
  unfold MsiOff at hOff
  generalize s'.machine = m' at hReaches hOff
  cases hReaches with
  | config hCfg => exact config_reports hStart.2 hCfg hOff
  | bar hBar =>
    have hBoth := (barAccess_keeps (P := fun m => Lines m ∧ Reports m)
      (fun bidx offset size hm => peBarread_reports hm fuel _ bidx offset size)
      (fun bidx offset size val hm => peBarwrite_reports hm fuel _ bidx offset size val)
      hStart _ _ _ _ _).of_ok hBar
    exact hBoth.2

theorem step_reports {s : Devices T (Behind φ)} (h : Lines s.machine ∧ Reports s.machine) {e : Event}
    (hOff : Yields (fun _ => True) MsiOff (step fuel F s e)) :
    Yields (fun _ => True) (fun s' => Lines s'.machine ∧ Reports s'.machine) (step fuel F s e) := by
  cases e with
  | request r =>
    apply ((step_lines h.1 (.request r)).and hOff).imp
    intro s' hStep hBoth
    exact ⟨hBoth.1, request_reports h.1 h.2 hStep hBoth.2⟩
  | e1000Poll packets =>
    exact Yields.map (onE1000_reports h.1 h.2 fun _ _ hs => e1000Poll_e82545Line hs packets)
  | blockifThr =>
    exact Yields.map (onAhci_reports h.1 h.2 (fun _ _ hs => blockifThr_ahciLine hs fuel) fun _ hs =>
      blockifThr_coherent hs fuel)
  | callout =>
    exact Yields.map (onE1000_reports h.1 h.2 fun _ _ hs => Yields.map (runCallout_e82545Line hs))
  | fifoWork packets =>
    exact Yields.map (onE1000_reports h.1 h.2 fun _ _ hs => e82545TapCallback_e82545Line hs packets)
  | store mem =>
    obtain ⟨pi, hPi, hCoherent⟩ := h.2
    exact ⟨⟨h.1.settled, h.1.e82545, h.1.ahci⟩, pi, hPi, hCoherent.legacy, hCoherent.requested,
      hCoherent.noted, hCoherent.index⟩

theorem dmInit_reports (hInit : dmInit T disks mem stack fifo = .ok s₀) : Reports s₀.machine := by
  obtain ⟨pci, hPci, hInit⟩ := bind_eq_ok_iff.mp hInit
  have hQuiet := quiet_of_initPci hPci
  dsimp only at hInit
  split at hInit
  · next pi pi' hPi hPi' =>
    obtain ⟨sc, hSc, hInit⟩ := bind_eq_ok_iff.mp hInit
    obtain ⟨ahci, hAhci, ⟨⟩⟩ := bind_eq_ok_iff.mp hInit
    have hMsi : pi'.pciMsiMaxmsgnum = 0 := by
      obtain ⟨-, -, -, hEnabled⟩ := hQuiet _ _ hPi'
      unfold pciMsiMaxmsgnum
      rw [hEnabled]
      rfl
    have hSettled := hQuiet.linesSettled _ _ hPi'
    have hLine := (pciAhciInit_ahciLine hSettled.1 hSettled.2 disks mem stack).of_ok hAhci
    have hCoherent := (PciAhci.Ahci.pciAhciInit_coherent hMsi disks mem stack).of_ok hAhci
    exact ⟨ahci.sc.ascPi, setDevi_self _ hLine.inst.bdf_eq, hCoherent.legacy, hCoherent.requested,
      hCoherent.noted, hCoherent.index⟩
  · cases hInit

/-- While the guest keeps MSI off, the line of the controller is high exactly if the guest permits it,
interrupts are enabled and the status is not zero; so an enabled event of a port raises it. -/
theorem ahciLine_coherent (hInit : dmInit T disks mem stack fifo = .ok s₀)
    (hOff : Along (step fuel F) (fun s e => Yields (fun _ => True) MsiOff (step fuel F s e)) s₀ events)
    (hRun : run (step fuel F) s₀ events = .ok s) :
    ∃ pi, s.machine.pci.fiDevi ahciBdf = some pi ∧
      (pi.irq = true ↔ pi.pciLintrPermitted = true ∧
        s.machine.dev.ahci.sc.ghc &&& PciAhci.AHCI_GHC_IE ≠ 0 ∧ s.machine.dev.ahci.sc.is ≠ 0) ∧
      ∀ k : PciAhci.PortId, (k : Nat) < s.machine.dev.ahci.sc.ports →
        (s.machine.dev.ahci.port k).is &&& (s.machine.dev.ahci.port k).ie ≠ 0 →
        s.machine.dev.ahci.sc.ghc &&& PciAhci.AHCI_GHC_IE ≠ 0 → pi.pciLintrPermitted = true →
        pi.irq = true := by
  have hBoth : Yields (fun _ => True) (fun s => Lines s.machine ∧ Reports s.machine)
      (run (step fuel F) s₀ events) :=
    run_yields (fun _ _ h hOff => step_reports h hOff) ⟨dmInit_lines hInit, dmInit_reports hInit⟩ hOff
  obtain ⟨hLines, hReports⟩ := hBoth.of_ok hRun
  obtain ⟨pi, hPi, hLine⟩ := hLines.ahci
  obtain ⟨pi', hPi', hCoherent⟩ := hReports
  obtain rfl := Option.some.inj (hPi.symm.trans hPi')
  have hIrq : pi.irq = true ↔ pi.pciLintrPermitted = true ∧
      s.machine.dev.ahci.sc.ghc &&& PciAhci.AHCI_GHC_IE ≠ 0 ∧ s.machine.dev.ahci.sc.is ≠ 0 := by
    have hAsked := hLine.settled.irq_iff
    have hRequested := hCoherent.requested
    unfold PciAhci.Requested at hRequested
    rw [hRequested, and_comm] at hAsked
    exact hAsked
  refine ⟨pi, hPi, hIrq, fun k hk hEvent hOn hPermitted => hIrq.mpr ⟨hPermitted, hOn, fun hZero => ?_⟩⟩
  apply hCoherent.noted k (PciAhci.Ahci.mem_portIds.mpr hk) hEvent
  show s.machine.dev.ahci.sc.is &&& PciAhci.bit k = 0
  rw [hZero]
  exact BitVec.zero_and

def msiOff (s : Devices unbalancedTree (Behind Unit)) : Bool :=
  (s.machine.pci.fiDevi ahciBdf).all fun pi => pi.pciMsiMaxmsgnum = 0

def offThroughout (s : Devices unbalancedTree (Behind Unit)) : List Event → Bool
  | [] => true
  | e :: events =>
    match step 8 E82545.idleFifo s e with
    | .ok s' => msiOff s' && offThroughout s' events
    | .error _ => true

theorem along_of_offThroughout {s : Devices unbalancedTree (Behind Unit)} {events : List Event}
    (h : offThroughout s events = true) : Along (step 8 E82545.idleFifo)
      (fun s e => Yields (fun _ => True) MsiOff (step 8 E82545.idleFifo s e)) s events := by
  induction events generalizing s with
  | nil => trivial
  | cons e events ih =>
    unfold offThroughout at h
    cases hStep : step 8 E82545.idleFifo s e with
    | error f =>
      refine ⟨?_, fun t ht => ?_⟩
      · dsimp only
        rw [hStep]
        trivial
      · cases hStep.symm.trans ht
    | ok s' =>
      rw [hStep] at h
      obtain ⟨hOff, hRest⟩ := Bool.and_eq_true_iff.mp h
      refine ⟨?_, fun t ht => ?_⟩
      · dsimp only
        rw [hStep]
        intro pi hPi
        unfold msiOff at hOff
        rw [hPi] at hOff
        exact of_decide_eq_true hOff
      · obtain rfl := Except.ok.inj (hStep.symm.trans ht)
        exact ih hRest

theorem ahciLine_coherent_raised : ∃ s : Devices unbalancedTree (Behind Unit),
    enabled raiseInterrupts = .ok s ∧ ∃ pi, s.machine.pci.fiDevi ahciBdf = some pi ∧ pi.irq = true ∧
      (pi.irq = true ↔ pi.pciLintrPermitted = true ∧
        s.machine.dev.ahci.sc.ghc &&& PciAhci.AHCI_GHC_IE ≠ 0 ∧ s.machine.dev.ahci.sc.is ≠ 0) ∧
      ∀ k : PciAhci.PortId, (k : Nat) < s.machine.dev.ahci.sc.ports →
        (s.machine.dev.ahci.port k).is &&& (s.machine.dev.ahci.port k).ie ≠ 0 →
        s.machine.dev.ahci.sc.ghc &&& PciAhci.AHCI_GHC_IE ≠ 0 → pi.pciLintrPermitted = true →
        pi.irq = true := by
  obtain ⟨s₀, s, hInit, hRun, hRaised⟩ := raised_runs
  have hThroughout : (started.toOption.all fun s => offThroughout s raiseInterrupts) = true := by
    decide +kernel
  rw [hInit] at hThroughout
  have hOff := along_of_offThroughout hThroughout
  obtain ⟨pi, hPi, hLine⟩ := ahciLine_coherent hInit hOff hRun
  have hIrq := (of_decide_eq_true hRaised).1
  rw [hPi] at hIrq
  exact ⟨s, bind_eq_ok_iff.mpr ⟨s₀, hInit, hRun⟩, pi, hPi, hIrq, hLine⟩

end Legacy

end System

end DeviceModel.DmLoop

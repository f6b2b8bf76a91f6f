import DeviceModel.PciCoherence

/-!
# The INTx line

What a device asks for, what the guest permits, and the line. Every path that can
change what is permitted ends in `pci_lintr_update`, which brings the line back to
what the device's last request and the permission say.
-/

set_option autoImplicit false

namespace DeviceModel.PciEmul

open SearchTree Mem Fallible PowerOfTwo PciDevinst

variable {T : PciTree}

namespace PciDevinst

/-- The state remembers the request and tells the level of the line. -/
structure Latched (requested : Bool) (pi : PciDevinst) : Prop where
  state : pi.lintrState ≠ .idle ↔ requested = true
  line : pi.irq = true ↔ pi.lintrState = .asserted

/-- The request is on the line exactly if it is permitted. -/
structure Settled (requested : Bool) (pi : PciDevinst) : Prop extends Latched requested pi where
  asserted : pi.lintrState = .asserted → pi.pciLintrPermitted = true
  pending : pi.lintrState = .pending → pi.pciLintrPermitted = false

structure SameLine (pi pi' : PciDevinst) : Prop where
  bdf : pi'.bdf = pi.bdf
  state : pi'.lintrState = pi.lintrState
  irq : pi'.irq = pi.irq
  permitted : pi'.pciLintrPermitted = pi.pciLintrPermitted

variable {requested : Bool} {pi pi' : PciDevinst}

theorem SameLine.refl (pi : PciDevinst) : SameLine pi pi := ⟨rfl, rfl, rfl, rfl⟩

theorem SameLine.trans {pi'' : PciDevinst} (h : SameLine pi pi') (h' : SameLine pi' pi'') :
    SameLine pi pi'' :=
  ⟨h'.bdf.trans h.bdf, h'.state.trans h.state, h'.irq.trans h.irq, h'.permitted.trans h.permitted⟩

theorem Settled.sameLine (h : Settled requested pi) (hSame : SameLine pi pi') :
    Settled requested pi' := by
  obtain ⟨-, hState, hIrq, hPermitted⟩ := hSame
  refine ⟨⟨?_, ?_⟩, ?_, ?_⟩
  · rw [hState]
    exact h.state
  · rw [hIrq, hState]
    exact h.line
  · rw [hState, hPermitted]
    exact h.asserted
  · rw [hState, hPermitted]
    exact h.pending

theorem Settled.irq_iff (h : Settled requested pi) :
    pi.irq = true ↔ requested = true ∧ pi.pciLintrPermitted = true := by
  rw [h.line, ← h.state]
  constructor
  · intro hAsserted
    exact ⟨by simp [hAsserted], h.asserted hAsserted⟩
  · rintro ⟨hNe, hPermitted⟩
    cases hState : pi.lintrState with
    | idle => exact absurd hState hNe
    | asserted => rfl
    | pending => simp [h.pending hState] at hPermitted

theorem Settled.pending_iff (h : Settled requested pi) :
    pi.lintrState = .pending ↔ requested = true ∧ pi.pciLintrPermitted = false := by
  rw [← h.state]
  constructor
  · intro hPending
    exact ⟨by simp [hPending], h.pending hPending⟩
  · rintro ⟨hNe, hMasked⟩
    cases hState : pi.lintrState with
    | idle => exact absurd hState hNe
    | asserted => simp [h.asserted hState] at hMasked
    | pending => rfl

/-- `pci_lintr_update` settles the line, whatever is permitted now. -/
theorem Latched.pciLintrUpdate (h : Latched requested pi) : Settled requested pi.pciLintrUpdate := by
  unfold PciDevinst.pciLintrUpdate
  split
  · next hMasked =>
    have hReq : requested = true := h.state.mp (by simp [hMasked.1])
    exact ⟨⟨by simp [hReq], by simp⟩, by simp, fun _ => hMasked.2⟩
  · next hNotMasked =>
    split
    · next hUnmasked =>
      have hReq : requested = true := h.state.mp (by simp [hUnmasked.1])
      exact ⟨⟨by simp [hReq], by simp⟩, fun _ => hUnmasked.2, by simp⟩
    · next hNotUnmasked =>
      refine ⟨h, fun hState => ?_, fun hState => ?_⟩
      · exact eq_true_of_ne_false fun hOff => hNotMasked ⟨hState, hOff⟩
      · exact eq_false_of_ne_true fun hOn => hNotUnmasked ⟨hState, hOn⟩

theorem pciLintrUpdate_bdf (pi : PciDevinst) : pi.pciLintrUpdate.bdf = pi.bdf := by
  unfold PciDevinst.pciLintrUpdate
  split
  · rfl
  · split <;> rfl

theorem pciLintrAssert_settled (h : Settled requested pi) :
    Yields (fun _ => True) (fun pi' => pi'.bdf = pi.bdf ∧ Settled true pi') pi.pciLintrAssert := by
  refine (assertThat_yields fun _ => trivial).bind fun _ _ _ => ?_
  split
  · split
    · next hPermitted => exact ⟨rfl, ⟨by simp, by simp⟩, fun _ => hPermitted, by simp⟩
    · next hIdle hMasked =>
      have hLow : pi.irq ≠ true := fun hHigh => by simpa [hIdle] using h.line.mp hHigh
      exact ⟨rfl, ⟨by simp, by simp [hLow]⟩, by simp, fun _ => eq_false_of_ne_true hMasked⟩
  · next hState =>
    have hReq := h.state.mp hState
    exact ⟨rfl, hReq ▸ h⟩

theorem pciLintrDeassert_settled (h : Settled requested pi) :
    Yields (fun _ => True) (fun pi' => pi'.bdf = pi.bdf ∧ Settled false pi')
      pi.pciLintrDeassert := by
  refine (assertThat_yields fun _ => trivial).bind fun _ _ _ => ?_
  have hLine := h.line
  cases hState : pi.lintrState with
  | idle => exact ⟨rfl, ⟨by simp [hState], hLine⟩, by simp [hState], by simp [hState]⟩
  | asserted => exact ⟨rfl, ⟨by simp, by simp⟩, by simp, by simp⟩
  | pending =>
    have hLow : pi.irq ≠ true := fun hHigh => by simpa [hState] using hLine.mp hHigh
    exact ⟨rfl, ⟨by simp, by simp [hLow]⟩, by simp, by simp⟩

/-- What a configuration write leaves: the same function, with its line settled. -/
def SettledAs (requested : Bool) (pi pi' : PciDevinst) : Prop :=
  pi'.bdf = pi.bdf ∧ Settled requested pi'

theorem Settled.as (h : Settled requested pi) (hSame : SameLine pi pi') :
    SettledAs requested pi pi' := ⟨hSame.bdf, h.sameLine hSame⟩

theorem set8_sameLine (pi : PciDevinst) {offset : Nat} (hOff : offset < 4 ∨ 5 < offset)
    (val : BitVec 8) : SameLine pi (pi.pciSetCfgdata8 offset val) := by
  refine ⟨rfl, rfl, rfl, ?_⟩
  have hFrame := pi.frame_set8 offset val
  have hCommand := @Frame.get16 _ _ _ hFrame PCIR_COMMAND fun i hi hIn => by
    simp only [InAccess, PCIR_COMMAND] at hIn
    omega
  unfold pciLintrPermitted
  rw [hCommand]
  rfl

theorem set16_sameLine (pi : PciDevinst) {offset : Nat} (hOff : offset + 1 < 4 ∨ 5 < offset)
    (val : BitVec 16) : SameLine pi (pi.pciSetCfgdata16 offset val) :=
  (set8_sameLine pi (by omega) _).trans (set8_sameLine _ (by omega) _)

theorem set32_sameLine (pi : PciDevinst) {offset : Nat} (hOff : offset + 3 < 4 ∨ 5 < offset)
    (val : BitVec 32) : SameLine pi (pi.pciSetCfgdata32 offset val) :=
  (set16_sameLine pi (by omega) _).trans (set16_sameLine _ (by omega) _)

theorem cfgWrite_sameLine (pi : PciDevinst) {coff bytes : Nat} (hBytes : Width bytes)
    (hOff : coff + bytes ≤ 4 ∨ 6 ≤ coff) (val : BitVec 32) :
    Yields (fun _ => True) (SameLine pi) (pi.cfgWrite coff val bytes) := by
  unfold cfgWrite
  split
  · obtain rfl | rfl | rfl := hBytes
    · exact set8_sameLine pi (by omega) _
    · exact set16_sameLine pi (by omega) _
    · exact set32_sameLine pi (by omega) _
  · trivial

theorem cfgWrite_latched (h : Latched requested pi) {coff bytes : Nat} (hBytes : Width bytes)
    (val : BitVec 32) : Yields (fun _ => True) (fun pi' => pi'.bdf = pi.bdf ∧ Latched requested pi')
      (pi.cfgWrite coff val bytes) := by
  unfold cfgWrite
  split
  · obtain rfl | rfl | rfl := hBytes <;> exact ⟨rfl, h.state, h.line⟩
  · trivial

/-- The control register of a capability: the update first, then the store. -/
theorem updateAndWrite_settled (hBdf : pi'.bdf = pi.bdf) (h : Latched requested pi')
    {offset bytes : Nat} (hBytes : Width bytes) (hOff : CAP_START_OFFSET ≤ offset)
    (val : BitVec 32) :
    Yields (fun _ => True) (SettledAs requested pi)
      (pi'.pciLintrUpdate.cfgWrite offset val bytes) := by
  refine (cfgWrite_sameLine _ hBytes (.inr (Nat.le_trans (by decide) hOff)) val).imp ?_
  intro pi'' _ hSame
  exact ⟨(hSame.bdf.trans (pciLintrUpdate_bdf pi')).trans hBdf, h.pciLintrUpdate.sameLine hSame⟩

theorem msixcapCfgwrite_settled (h : Settled requested pi) {capoff offset bytes : Nat}
    (hBytes : Width bytes) (hOff : CAP_START_OFFSET ≤ offset) (val : BitVec 32) :
    Yields (fun _ => True) (SettledAs requested pi)
      (pi.msixcapCfgwrite capoff offset bytes val) := by
  unfold msixcapCfgwrite
  split
  · refine (assertThat_yields fun _ => trivial).bind fun _ _ _ => ?_
    refine updateAndWrite_settled ?_ ?_ hBytes hOff _
    · rfl
    · exact ⟨h.state, h.line⟩
  · exact (cfgWrite_sameLine pi hBytes (.inr (Nat.le_trans (by decide) hOff)) val).imp
      fun _ _ hSame => h.as hSame

theorem msicapCfgwrite_settled (h : Settled requested pi) {capoff offset bytes : Nat}
    (hBytes : Width bytes) (hOff : CAP_START_OFFSET ≤ offset) (val : BitVec 32) :
    Yields (fun _ => True) (SettledAs requested pi)
      (pi.msicapCfgwrite capoff offset bytes val) := by
  unfold msicapCfgwrite
  split
  · refine (assertThat_yields fun _ => trivial).bind fun _ _ _ => ?_
    refine (assertThat_yields fun _ => trivial).bind fun _ _ _ => ?_
    refine (assertThat_yields fun _ => trivial).bind fun _ _ _ => ?_
    refine updateAndWrite_settled ?_ ?_ hBytes hOff _
    · rfl
    · exact ⟨h.state, h.line⟩
  · exact (cfgWrite_sameLine pi hBytes (.inr (Nat.le_trans (by decide) hOff)) val).imp
      fun _ _ hSame => h.as hSame

theorem capDispatch_settled (h : Settled requested pi) {capoff offset bytes : Nat}
    (hBytes : Width bytes) (hOff : CAP_START_OFFSET ≤ offset) (val : BitVec 32) :
    Yields (fun _ => True) (SettledAs requested pi) (pi.capDispatch capoff offset bytes val) := by
  unfold capDispatch
  dsimp only
  split
  · exact msicapCfgwrite_settled h hBytes hOff val
  split
  · exact msixcapCfgwrite_settled h hBytes hOff val
  split
  · exact (cfgWrite_sameLine pi hBytes (.inr (Nat.le_trans (by decide) hOff)) val).imp
      fun _ _ hSame => h.as hSame
  · exact ⟨rfl, h⟩

theorem pciEmulCapwrite_settled (h : Settled requested pi) {offset bytes : Nat}
    (hBytes : Width bytes) (hOff : CAP_START_OFFSET ≤ offset) (val : BitVec 32) :
    Yields (fun _ => True) (SettledAs requested pi) (pi.pciEmulCapwrite offset bytes val) := by
  unfold pciEmulCapwrite
  split
  · exact ⟨rfl, h⟩
  refine (yields_true (pi.capSearch offset 256 CAP_START_OFFSET)).bind fun capoff _ _ => ?_
  refine (assertThat_yields fun _ => trivial).bind fun _ _ _ => ?_
  split
  · split
    · exact capDispatch_settled h (.inr (.inl rfl)) (by omega) _
    · exact ⟨rfl, h⟩
  · exact capDispatch_settled h hBytes hOff val

end PciDevinst

section Write

variable {requested : Bool} {pi : PciDevinst} {m : Registry T}

theorem pciEmulCmdstsWrite_settled (h : Settled requested pi) {coff bytes : Nat}
    (hBytes : Width bytes) (new : BitVec 32) :
    Yields (fun _ => True) (fun r => SettledAs requested pi r.1)
      (pciEmulCmdstsWrite pi m coff new bytes) := by
  unfold pciEmulCmdstsWrite
  refine (yields_true _).bind fun old _ _ => ?_
  refine (cfgWrite_latched h.toLatched hBytes _).bind fun pi' _ hLatched => ?_
  refine (yields_true _).bind fun m' _ _ => ?_
  exact ⟨(pciLintrUpdate_bdf pi').trans hLatched.1, hLatched.2.pciLintrUpdate⟩

theorem updateBarAddress_sameLine (addr : BitVec 64) (idx : Nat) (type : PcibarType) :
    Yields (fun _ => True) (fun r => SameLine pi r.1) (updateBarAddress pi m addr idx type) := by
  have hMoved : ∀ new, SameLine pi (pi.setBarAddr idx new) := fun _ => ⟨rfl, rfl, rfl, rfl⟩
  unfold updateBarAddress
  generalize (if (pi.piBar idx).type = .io then pi.porten else pi.memen) = decode
  cases decode
  all_goals
    refine (yields_true _).bind fun m' _ _ => (yields_true _).bind fun new _ _ => ?_
    exact (yields_true _).bind fun m'' _ _ => hMoved new

theorem moveBar_sameLine (changed : Bool) (addr : BitVec 64) (idx : Nat) (type : PcibarType) :
    Yields (fun _ => True) (fun r => SameLine pi r.1) (moveBar pi m changed addr idx type) := by
  unfold moveBar
  split
  · exact updateBarAddress_sameLine addr idx type
  · exact .refl pi

theorem barWrite_sameLine {coff : Nat} (hOff : 5 < coff) (eax : BitVec 32) :
    Yields (fun _ => True) (fun r => SameLine pi r.1) (barWrite pi m coff eax) := by
  unfold barWrite
  dsimp only
  split
  · refine SameLine.trans ?_ (set32_sameLine _ (.inr hOff) 0)
    exact ⟨rfl, rfl, rfl, rfl⟩
  all_goals
    refine (moveBar_sameLine _ _ _ _).bind fun r _ hSame => ?_
    exact hSame.trans (set32_sameLine r.1 (.inr hOff) _)

theorem pciCfgwrite_settled (h : Settled requested pi) {coff bytes : Nat} (hBytes : Width bytes)
    (hAlign : coff % bytes = 0) (eax : BitVec 32) :
    Yields (fun _ => True) (fun r => SettledAs requested pi r.1)
      (pciCfgwrite pi m coff bytes eax) := by
  unfold pciCfgwrite
  split
  · next hBar =>
    split
    · exact ⟨rfl, h⟩
    · have hOff : 5 < coff := Nat.lt_of_lt_of_le (by decide) hBar.1
      exact (barWrite_sameLine hOff eax).imp fun _ _ hSame => h.as hSame
  split
  · next hCap =>
    have hOff : CAP_START_OFFSET ≤ coff := by
      simp only [pciEmulIscap, decide_eq_true_eq] at hCap
      exact hCap.2.1
    exact (pciEmulCapwrite_settled h hBytes hOff eax).bind fun _ _ hSettled => hSettled
  split
  · exact pciEmulCmdstsWrite_settled h hBytes eax
  · next hPlain =>
    have hOff : coff + bytes ≤ 4 ∨ 6 ≤ coff := by
      simp only [PCIR_COMMAND, PCIR_REVID] at hPlain
      obtain rfl | rfl | rfl := hBytes <;> omega
    exact (cfgWrite_sameLine pi hBytes hOff eax).bind fun _ _ hSame => h.as hSame

end Write

section Init

/-- Set-up changes neither the request nor the line, nor what the guest asks of MSI. -/
structure SameRequest (pi pi' : PciDevinst) : Prop where
  bdf : pi'.bdf = pi.bdf
  state : pi'.lintrState = pi.lintrState
  irq : pi'.irq = pi.irq
  piMsi : pi'.piMsi = pi.piMsi

variable {pi pi' : PciDevinst} {s : Pci T}

theorem SameRequest.trans {pi'' : PciDevinst} (h : SameRequest pi pi') (h' : SameRequest pi' pi'') :
    SameRequest pi pi'' :=
  ⟨h'.bdf.trans h.bdf, h'.state.trans h.state, h'.irq.trans h.irq, h'.piMsi.trans h.piMsi⟩

theorem set8_sameRequest (pi : PciDevinst) (offset : Nat) (val : BitVec 8) :
    SameRequest pi (pi.pciSetCfgdata8 offset val) := ⟨rfl, rfl, rfl, rfl⟩

theorem set16_sameRequest (pi : PciDevinst) (offset : Nat) (val : BitVec 16) :
    SameRequest pi (pi.pciSetCfgdata16 offset val) :=
  (set8_sameRequest pi offset _).trans (set8_sameRequest _ (offset + 1) _)

theorem set32_sameRequest (pi : PciDevinst) (offset : Nat) (val : BitVec 32) :
    SameRequest pi (pi.pciSetCfgdata32 offset val) :=
  (set16_sameRequest pi offset _).trans (set16_sameRequest _ (offset + 2) _)

theorem setBar_sameRequest (pi : PciDevinst) (idx : Nat) (bar : Pcibar) :
    SameRequest pi (pi.setBar idx bar) := ⟨rfl, rfl, rfl, rfl⟩

theorem setBytes_sameRequest (pi : PciDevinst) (offset : Nat) (bytes : List (BitVec 8)) :
    SameRequest pi (setBytes offset bytes pi) := by
  induction bytes generalizing pi offset with
  | nil => exact ⟨rfl, rfl, rfl, rfl⟩
  | cons b bs ih => exact (set8_sameRequest pi offset b).trans (ih _ _)

theorem addCapability_sameRequest (pi : PciDevinst) (capdata : List (BitVec 8)) :
    Yields (fun _ => True) (fun r => SameRequest pi (r.getD pi)) (pi.pciEmulAddCapability capdata) := by
  unfold pciEmulAddCapability
  dsimp only
  generalize decide (pi.pciGetCfgdata16 PCIR_STATUS &&& PCIM_STATUS_CAPPRESENT ≠ 0) = present
  generalize hBuilt : (if present = true then _ else _ : PciDevinst) = built
  have hStart : SameRequest pi built := by
    rw [← hBuilt]
    split
    · exact set8_sameRequest pi _ _
    · exact (set8_sameRequest pi _ _).trans (set16_sameRequest _ _ _)
  generalize (if present = true then pi.piCapend + 1 else CAP_START_OFFSET) = capoff
  split
  · trivial
  split
  · exact ⟨rfl, rfl, rfl, rfl⟩
  · obtain ⟨hBdf, hState, hIrq, hMsi⟩ := hStart.trans (setBytes_sameRequest built capoff capdata)
    exact ⟨hBdf, hState, hIrq, hMsi⟩

theorem writeBar_sameRequest (pdi : PciDevinst) (idx : Nat) (type : PcibarType)
    (addr size bar : BitVec 64) : SameRequest pdi (writeBar pdi idx type addr size bar) := by
  have hLow := (setBar_sameRequest pdi idx ⟨type, size, addr⟩).trans
    (set32_sameRequest _ (PCIR_BAR idx) (bar.setWidth 32))
  unfold writeBar
  dsimp only
  split
  · exact hLow.trans ((setBar_sameRequest _ _ _).trans (set32_sameRequest _ _ _))
  · exact hLow

def InitKept (x y : PciDevinst × Pci T) : Prop := SameRequest x.1 y.1 ∧ y.2.fiDevi = x.2.fiDevi

theorem setupBar_kept {s' : Pci T} (hDevi : s'.fiDevi = s.fiDevi) (pdi : PciDevinst) (idx : Nat)
    (type : PcibarType) (addr size mask lobits : BitVec 64) :
    Yields (fun _ => True) (InitKept (pdi, s)) (setupBar s' pdi idx type addr size mask lobits) :=
  (yields_true _).bind fun _ _ _ => (yields_true _).bind fun _ _ _ =>
    ⟨writeBar_sameRequest pdi idx type addr size _, hDevi⟩

theorem pciEmulAllocPbar_kept (s : Pci T) (pdi : PciDevinst) (idx : Nat) (hostbase : BitVec 64)
    (type : PcibarType) (size : BitVec 64) : Yields (fun _ => True) (InitKept (pdi, s))
      (pciEmulAllocPbar s pdi idx hostbase type size) := by
  unfold pciEmulAllocPbar
  split
  · trivial
  refine (yields_true _).bind fun pool _ _ => ?_
  obtain ⟨pool, mask, lobits⟩ := pool
  cases pool with
  | none => exact setupBar_kept rfl pdi idx type _ _ _ _
  | some pool =>
    refine (yields_true _).bind fun room _ _ => ?_
    cases room with
    | none => exact ⟨⟨rfl, rfl, rfl, rfl⟩, rfl⟩
    | some room =>
      refine setupBar_kept ?_ pdi idx type _ _ _ _
      cases pool.1 <;> rfl

theorem initCall_kept (x : PciDevinst × Pci T) (call : InitCall) :
    Yields (fun _ => True) (InitKept x) (call.step x) := by
  cases call with
  | pciSetCfgdata8 offset val => exact ⟨⟨rfl, rfl, rfl, rfl⟩, rfl⟩
  | pciSetCfgdata16 offset val => exact ⟨⟨rfl, rfl, rfl, rfl⟩, rfl⟩
  | pciEmulAddCapability capdata =>
    exact Yields.map ((addCapability_sameRequest x.1 capdata).imp fun _ _ hSame => ⟨hSame, rfl⟩)
  | pciEmulAllocPbar idx hostbase type size =>
    exact pciEmulAllocPbar_kept x.2 x.1 idx hostbase type size
  | pciLintrRequest => exact ⟨⟨rfl, rfl, rfl, rfl⟩, rfl⟩

theorem initCalls_kept (x : PciDevinst × Pci T) (calls : List InitCall) :
    Yields (fun _ => True) (InitKept x) (Fallible.run InitCall.step x calls) := by
  refine run_keeps (fun y call hKept => ?_) ⟨⟨rfl, rfl, rfl, rfl⟩, rfl⟩ calls
  refine (initCall_kept y call).imp fun z _ hStep => ?_
  exact ⟨hKept.1.trans hStep.1, hStep.2.trans hKept.2⟩

/-- No function asks for its line, and none has MSI enabled. -/
def Pci.Quiet (s : Pci T) : Prop :=
  ∀ b pi, s.fiDevi b = some pi →
    pi.bdf = b ∧ pi.lintrState = .idle ∧ pi.irq = false ∧ pi.piMsi.enabled = false

theorem initFunc_quiet (h : s.Quiet) (fi : FuncInfo) :
    Yields (fun _ => True) Pci.Quiet (initFunc s fi) := by
  refine (initCalls_kept (pciEmulInit fi.bdf, s) fi.peInit).bind ?_
  rintro ⟨pdi, s'⟩ - ⟨hSame, hDevi⟩ b pi hPi
  obtain ⟨rfl, rfl⟩ | ⟨-, hPi⟩ := setDevi_eq_some_iff.mp hPi
  · exact ⟨rfl, hSame.state, hSame.irq, congrArg PiMsi.enabled hSame.piMsi⟩
  · exact h b pi (congrFun hDevi b ▸ hPi)

theorem initBus_quiet (h : s.Quiet) (bus : List FuncInfo) :
    Yields (fun _ => True) Pci.Quiet (initBus s bus) :=
  (run_keeps (fun _ fi hQuiet => initFunc_quiet hQuiet fi) h bus).bind fun _ _ hQuiet => hQuiet

theorem initPci_quiet (buses : List (List FuncInfo)) :
    Yields (fun _ => True) Pci.Quiet (initPci T buses) := by
  have hInit : (initState T).Quiet := by
    rintro b pi ⟨⟩
  refine (run_keeps (fun _ bus hQuiet => initBus_quiet hQuiet bus) hInit buses).bind ?_
  intro s _ hQuiet
  have hRouted : Pci.Quiet { s with fiDevi := fun bdf => (s.fiDevi bdf).map pciLintrRoute } := by
    intro b x hx
    obtain ⟨pi, hPi, rfl⟩ := Option.map_eq_some_iff.mp hx
    unfold pciLintrRoute
    split <;> exact hQuiet b pi hPi
  dsimp only
  split
  · exact hRouted
  · trivial

end Init

section Run

/-- What a device or the guest does about an interrupt line. -/
inductive LineEvent where
  | lintrAssert (bdf : Bdf)
  | lintrDeassert (bdf : Bdf)
  | write (w : CfgWrite)

namespace Pci

def lintrAssert (s : Pci T) (bdf : Bdf) : Except Fault (Pci T) :=
  match s.fiDevi bdf with
  | none => .ok s
  | some pi => pi.pciLintrAssert.map s.setDevi

def lintrDeassert (s : Pci T) (bdf : Bdf) : Except Fault (Pci T) :=
  match s.fiDevi bdf with
  | none => .ok s
  | some pi => pi.pciLintrDeassert.map s.setDevi

end Pci

def lineStep (s : Pci T) : LineEvent → Except Fault (Pci T)
  | .lintrAssert bdf => s.lintrAssert bdf
  | .lintrDeassert bdf => s.lintrDeassert bdf
  | .write w => s.write w

def LineEvent.requested (before : Bdf → Bool) : LineEvent → Bdf → Bool
  | .lintrAssert bdf => Function.update before bdf true
  | .lintrDeassert bdf => Function.update before bdf false
  | .write _ => before

/-- The last request of each function was to assert its line. -/
def lastRequest (es : List LineEvent) : Bdf → Bool := es.foldl LineEvent.requested fun _ => false

def LinesSettled (requested : Bdf → Bool) (s : Pci T) : Prop :=
  ∀ b pi, s.fiDevi b = some pi → pi.bdf = b ∧ Settled (requested b) pi

variable {requested : Bdf → Bool} {s : Pci T}

theorem Pci.Quiet.linesSettled (h : s.Quiet) : LinesSettled (fun _ => false) s := by
  intro b pi hPi
  obtain ⟨hBdf, hIdle, hLow, -⟩ := h b pi hPi
  exact ⟨hBdf, ⟨by simp [hIdle], by simp [hIdle, hLow]⟩, by simp [hIdle], by simp [hIdle]⟩

theorem LinesSettled.setDevi (h : LinesSettled requested s) {pi : PciDevinst} {value : Bool}
    (hPi : Settled value pi) : LinesSettled (Function.update requested pi.bdf value)
      (s.setDevi pi) := by
  intro b x hx
  obtain ⟨rfl, rfl⟩ | ⟨hb, hx⟩ := setDevi_eq_some_iff.mp hx
  · exact ⟨rfl, by rwa [Function.update_self]⟩
  · rw [Function.update_of_ne hb]
    exact h b x hx

theorem LinesSettled.absent (h : LinesSettled requested s) {b : Bdf} (hDev : s.fiDevi b = none)
    (value : Bool) : LinesSettled (Function.update requested b value) s := by
  intro b' pi hPi
  have hNe : b' ≠ b := by
    rintro rfl
    simp [hDev] at hPi
  rw [Function.update_of_ne hNe]
  exact h b' pi hPi

theorem write_linesSettled (h : LinesSettled requested s) (w : CfgWrite) :
    Yields (fun _ => True) (LinesSettled requested) (s.write w) := by
  refine Yields.map ?_
  unfold Pci.pciCfgrw
  cases hDev : s.fiDevi w.bdf with
  | none => exact h
  | some pi =>
    dsimp only
    split
    · exact h
    split
    · exact h
    · next hGood hLow =>
      obtain ⟨hBytes, hAlign⟩ := not_or.mp hGood
      have hWidth : Width w.bytes := by
        simp only [Width]
        omega
      obtain ⟨hBdf, hSettled⟩ := h w.bdf pi hDev
      refine (pciCfgwrite_settled hSettled hWidth (not_not.mp hAlign) w.val).bind ?_
      rintro ⟨pi', m⟩ - ⟨hBdf', hSettled'⟩
      have hSet := h.setDevi hSettled'
      rw [hBdf', hBdf, Function.update_eq_self] at hSet
      exact hSet

theorem lineStep_linesSettled (h : LinesSettled requested s) (e : LineEvent) :
    Yields (fun _ => True) (LinesSettled (e.requested requested)) (lineStep s e) := by
  cases e with
  | write w => exact write_linesSettled h w
  | lintrAssert b =>
    show Yields _ _ (s.lintrAssert b)
    unfold Pci.lintrAssert
    cases hDev : s.fiDevi b with
    | none => exact h.absent hDev true
    | some pi =>
      obtain ⟨rfl, hSettled⟩ := h b pi hDev
      refine Yields.map ((pciLintrAssert_settled hSettled).imp fun pi' _ hPi' => ?_)
      exact hPi'.1 ▸ h.setDevi hPi'.2
  | lintrDeassert b =>
    show Yields _ _ (s.lintrDeassert b)
    unfold Pci.lintrDeassert
    cases hDev : s.fiDevi b with
    | none => exact h.absent hDev false
    | some pi =>
      obtain ⟨rfl, hSettled⟩ := h b pi hDev
      refine Yields.map ((pciLintrDeassert_settled hSettled).imp fun pi' _ hPi' => ?_)
      exact hPi'.1 ▸ h.setDevi hPi'.2

theorem run_linesSettled {s' : Pci T} (h : LinesSettled requested s) {es : List LineEvent}
    (hRun : run lineStep s es = .ok s') : LinesSettled (es.foldl LineEvent.requested requested) s' := by
  induction es generalizing s requested with
  | nil =>
    obtain rfl := Except.ok.inj hRun
    exact h
  | cons e es ih =>
    obtain ⟨t, hStep, hRun⟩ := run_cons_eq_ok_iff.mp hRun
    exact ih ((lineStep_linesSettled h e).of_ok hStep) hRun

/-- After every run the line is high exactly if the function's last request was to assert it and
legacy interrupts are permitted; the request waits exactly while they are not. -/
theorem lintr_delivered {buses : List (List FuncInfo)} {s₀ s : Pci T} {es : List LineEvent}
    {b : Bdf} {pi : PciDevinst} (hInit : initPci T buses = .ok s₀)
    (hRun : run lineStep s₀ es = .ok s) (hDevi : s.fiDevi b = some pi) :
    (pi.irq = true ↔ lastRequest es b = true ∧ pi.pciLintrPermitted = true) ∧
    (pi.lintrState = .pending ↔ lastRequest es b = true ∧ pi.pciLintrPermitted = false) := by
  have hQuiet : s₀.Quiet := (initPci_quiet buses).of_ok hInit
  obtain ⟨-, hSettled⟩ := run_linesSettled hQuiet.linesSettled hRun b pi hDevi
  exact ⟨hSettled.irq_iff, hSettled.pending_iff⟩

/-- The e1000 asks for its line while the guest masks it, and the guest unmasks it. -/
theorem lintr_delivered_e82545 : ∃ s₀ s pi, initPci unbalancedTree bhyvePciBuses = .ok s₀ ∧
    run lineStep s₀ [.write ⟨⟨0, 0, 0⟩, PCIR_COMMAND, 2, 0x402⟩, .lintrAssert ⟨0, 0, 0⟩,
      .write ⟨⟨0, 0, 0⟩, PCIR_COMMAND, 2, 2⟩] = .ok s ∧
    s.fiDevi ⟨0, 0, 0⟩ = some pi ∧ (pi.irq = true ↔ pi.pciLintrPermitted = true) := by
  have hDone : ((initPci unbalancedTree bhyvePciBuses >>= fun s =>
      run lineStep s [.write ⟨⟨0, 0, 0⟩, PCIR_COMMAND, 2, 0x402⟩, .lintrAssert ⟨0, 0, 0⟩,
        .write ⟨⟨0, 0, 0⟩, PCIR_COMMAND, 2, 2⟩]).toOption.bind fun s =>
          (s.fiDevi ⟨0, 0, 0⟩).map fun pi => pi.irq) = some true := by decide
  obtain ⟨s, hRun, hDevi⟩ := Option.bind_eq_some_iff.mp hDone
  obtain ⟨s₀, hInit, hRun⟩ := bind_eq_ok_iff.mp (toOption_eq_some_iff.mp hRun)
  obtain ⟨pi, hDevi, -⟩ := Option.map_eq_some_iff.mp hDevi
  have hLast : lastRequest [.write ⟨⟨0, 0, 0⟩, PCIR_COMMAND, 2, 0x402⟩, .lintrAssert ⟨0, 0, 0⟩,
      .write ⟨⟨0, 0, 0⟩, PCIR_COMMAND, 2, 2⟩] ⟨0, 0, 0⟩ = true := by decide
  refine ⟨s₀, s, pi, hInit, hRun, hDevi, ?_⟩
  rw [(lintr_delivered hInit hRun hDevi).1, hLast]
  simp

end Run

end DeviceModel.PciEmul

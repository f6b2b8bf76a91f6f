import DeviceModel.PciAhciInterrupt
import DeviceModel.PciAhciWindow
import DeviceModel.PciCapability

/-!
# The AHCI controller: message-signalled interrupts

How many messages the guest enables, and what becomes of an event of a port while it has enabled
some. `msicap_cfgwrite` takes the number from what the guest writes; the call in
`pci_generate_msi` that would send a message is not compiled.
-/

set_option autoImplicit false

namespace DeviceModel

open Fallible PciEmul

namespace PciEmul

open PciDevinst SearchTree Mem

variable {T : PciTree}

section Control

namespace PciDevinst

def msgctrl (pi : PciDevinst) (capoff : Nat) (word : BitVec 16) : BitVec 16 :=
  let rwmask := PCIM_MSICTRL_MME_MASK ||| PCIM_MSICTRL_MSI_ENABLE
  (pi.pciGetCfgdata16 (capoff + 2) &&& ~~~rwmask) ||| (word &&& rwmask)

/-- What the accessors assert on the way. -/
def MsiAccess (pi : PciDevinst) (capoff : Nat) (word : BitVec 16) : Prop :=
  CfgAccess (capoff + 2) 2 ∧ CfgAccess (capoff + 4) 4 ∧
    CfgAccess (if pi.msgctrl capoff word &&& PCIM_MSICTRL_64BIT ≠ 0 then capoff + 12 else capoff + 8) 2

instance (pi : PciDevinst) (capoff : Nat) (word : BitVec 16) : Decidable (pi.MsiAccess capoff word) :=
  inferInstanceAs (Decidable (_ ∧ _ ∧ _))

/-- The word that a write has for Message Control of a capability: a write of the word, or the
upper half of a write of the dword. -/
def controlWord (capoff coff bytes : Nat) (val : BitVec 32) : Option (BitVec 16) :=
  if coff = capoff ∧ bytes = 4 then some ((val >>> 16).setWidth 16)
  else if coff = capoff + 2 ∧ bytes = 2 then some (val.setWidth 16)
  else none

/-- The word for Message Control that a write to the configuration space comes down to. -/
def msiControl (pi : PciDevinst) (coff bytes : Nat) (val : BitVec 32) : Option (BitVec 16) :=
  if pi.pciEmulIscap coff = true ∧ coff % bytes = 0 then
    match pi.capSearch coff 256 CAP_START_OFFSET with
    | .error _ => none
    | .ok capoff =>
      (controlWord capoff coff bytes val).filter fun word =>
        pi.pciGetCfgdata8 capoff = PCIY_MSI ∧ pi.MsiAccess capoff word
  else none

end PciDevinst

def msiMme (word : BitVec 16) : Nat := (word &&& PCIM_MSICTRL_MME_MASK).toNat >>> 4

def msiMessages (word : BitVec 16) : Nat :=
  if word &&& PCIM_MSICTRL_MSI_ENABLE ≠ 0 then 1 <<< msiMme word else 0

end Control

section Effect

namespace PciDevinst

variable {pi : PciDevinst}

/-- The two fields that the guest writes are those of the word. -/
theorem msgctrl_and (pi : PciDevinst) (capoff : Nat) (word mask : BitVec 16)
    (hMask : ∀ i < 16, mask.getLsbD i = true →
      (PCIM_MSICTRL_MME_MASK ||| PCIM_MSICTRL_MSI_ENABLE).getLsbD i = true) :
    pi.msgctrl capoff word &&& mask = word &&& mask := by
  unfold msgctrl
  dsimp only
  generalize PCIM_MSICTRL_MME_MASK ||| PCIM_MSICTRL_MSI_ENABLE = rwmask at hMask
  refine BitVec.eq_of_getLsbD_eq fun i hi => ?_
  simp only [BitVec.getLsbD_and, BitVec.getLsbD_or, BitVec.getLsbD_not]
  cases hBit : mask.getLsbD i with
  | false => simp
  | true => simp [hMask i hi hBit]

/-- The fields of MSI stay as they are but for the control register. -/
theorem sameMsi_sparing : Sparing fun pi pi' : PciDevinst => pi'.piMsi = pi.piMsi where
  refl _ := rfl
  trans h h' := h'.trans h
  set8 _ _ _ := rfl
  addr _ _ _ := rfl
  line _ _ _ := rfl
  msix _ _ := rfl

theorem maxmsgnum_congr {pi pi' : PciDevinst} (h : pi'.piMsi = pi.piMsi) :
    pi'.pciMsiMaxmsgnum = pi.pciMsiMaxmsgnum := by
  rw [pciMsiMaxmsgnum, h, pciMsiMaxmsgnum]

theorem msicapCfgwrite_control (pi : PciDevinst) (capoff : Nat) (val : BitVec 32) :
    Yields (fun _ => True)
      (fun pi' => pi.MsiAccess capoff (val.setWidth 16) ∧
        pi'.pciMsiMaxmsgnum = msiMessages (val.setWidth 16))
      (pi.msicapCfgwrite capoff (capoff + 2) 2 val) := by
  have hEnable := pi.msgctrl_and capoff (val.setWidth 16) PCIM_MSICTRL_MSI_ENABLE (by decide)
  have hMme := pi.msgctrl_and capoff (val.setWidth 16) PCIM_MSICTRL_MME_MASK (by decide)
  simp only [msgctrl] at hEnable hMme
  unfold msicapCfgwrite
  rw [if_pos ⟨rfl, rfl⟩]
  refine (assertThat_yields fun _ => trivial).bind fun _ _ hControl => ?_
  refine (assertThat_yields fun _ => trivial).bind fun _ _ hAddr => ?_
  refine (assertThat_yields fun _ => trivial).bind fun _ _ hData => ?_
  rw [hEnable, hMme]
  refine (sameMsi_sparing.cfgWrite (sameMsi_sparing.pciLintrUpdate _) _ _ _).imp fun pi' _ hSame => ?_
  refine ⟨⟨hControl, hAddr, hData⟩, ?_⟩
  rw [maxmsgnum_congr hSame, msiMessages, pciMsiMaxmsgnum]
  dsimp only
  split <;> rfl

theorem msicapCfgwrite_returns {capoff : Nat} {val : BitVec 32}
    (h : pi.MsiAccess capoff (val.setWidth 16)) :
    Returns (pi.msicapCfgwrite capoff (capoff + 2) 2 val) := by
  obtain ⟨hControl, hAddr, hData⟩ := h
  unfold msicapCfgwrite
  rw [if_pos ⟨rfl, rfl⟩]
  simp only [returns_assertThat_bind_iff]
  refine ⟨hControl, hAddr, hData, ?_⟩
  rw [PciDevinst.cfgWrite, if_pos hControl]
  exact returns_ok _

theorem capDispatch_control {capoff : Nat} (hMsi : pi.pciGetCfgdata8 capoff = PCIY_MSI)
    (val : BitVec 32) : pi.capDispatch capoff (capoff + 2) 2 val =
      pi.msicapCfgwrite capoff (capoff + 2) 2 val := if_pos hMsi

theorem capDispatch_sameMsi {capoff offset bytes : Nat} (val : BitVec 32)
    (hOther : pi.pciGetCfgdata8 capoff = PCIY_MSI → ¬ (offset = capoff + 2 ∧ bytes = 2)) :
    Yields (fun _ => True) (fun pi' => pi'.piMsi = pi.piMsi) (pi.capDispatch capoff offset bytes val) := by
  unfold capDispatch
  dsimp only
  split
  · next hMsi =>
    rw [msicapCfgwrite, if_neg (hOther hMsi)]
    exact sameMsi_sparing.cfgWrite rfl _ _ _
  · refine Yields.ite (sameMsi_sparing.msixcapCfgwrite _ _ _ _) (Yields.ite ?_ rfl)
    exact sameMsi_sparing.cfgWrite rfl _ _ _

theorem pciEmulCapwrite_found {coff bytes capoff : Nat} (hAlign : coff % bytes = 0)
    (hFound : pi.capSearch coff 256 CAP_START_OFFSET = .ok capoff) (val : BitVec 32) :
    (∀ word, controlWord capoff coff bytes val = some word → pi.pciGetCfgdata8 capoff = PCIY_MSI →
      ∃ val', val'.setWidth 16 = word ∧
        pi.pciEmulCapwrite coff bytes val = pi.msicapCfgwrite capoff (capoff + 2) 2 val') ∧
    ((controlWord capoff coff bytes val = none ∨ pi.pciGetCfgdata8 capoff ≠ PCIY_MSI) →
      Yields (fun _ => True) (fun pi' => pi'.piMsi = pi.piMsi) (pi.pciEmulCapwrite coff bytes val)) := by
  have hWrite : pi.pciEmulCapwrite coff bytes val = (assertThat (capoff ≤ coff) .capwriteOffset >>=
      fun _ => if coff = capoff ∨ coff = capoff + 1 then
        if coff = capoff ∧ bytes = 4 then pi.capDispatch capoff (coff + 2) 2 (val >>> 16) else pure pi
      else pi.capDispatch capoff coff bytes val) := by
    unfold pciEmulCapwrite
    rw [if_neg (not_not.mpr hAlign), hFound]
    rfl
  rw [hWrite]
  constructor
  · intro word hWord hMsi
    unfold controlWord at hWord
    split at hWord
    · next hDword =>
      obtain ⟨rfl, rfl⟩ := hDword
      refine ⟨_, Option.some.inj hWord, ?_⟩
      rw [assertThat_of _ (Nat.le_refl _), ok_bind, if_pos (.inl rfl), if_pos ⟨rfl, rfl⟩]
      exact capDispatch_control hMsi _
    split at hWord
    · next hHalf =>
      obtain ⟨rfl, rfl⟩ := hHalf
      refine ⟨_, Option.some.inj hWord, ?_⟩
      rw [assertThat_of _ (Nat.le_add_right _ _), ok_bind, if_neg (by omega)]
      exact capDispatch_control hMsi _
    · cases hWord
  · intro hOther
    refine (assertThat_yields fun _ => trivial).bind fun _ _ _ => ?_
    split
    · split
      · next hDword =>
        refine capDispatch_sameMsi _ fun hMsi => ?_
        unfold controlWord at hOther
        rw [if_pos hDword] at hOther
        exact absurd hMsi (hOther.resolve_left (Option.some_ne_none _))
      · exact rfl
    · next hBody =>
      refine capDispatch_sameMsi _ fun hMsi hHalf => ?_
      unfold controlWord at hOther
      rw [if_neg (by omega), if_pos hHalf] at hOther
      exact hOther.resolve_left (Option.some_ne_none _) hMsi

/-- The messages that are enabled after a write: those of the word for Message Control, if the write
has one that gets as far. -/
theorem pciEmulCapwrite_maxmsgnum {coff bytes : Nat} (hCap : pi.pciEmulIscap coff = true)
    (hAlign : coff % bytes = 0) (val : BitVec 32) :
    Yields (fun _ => True)
      (fun pi' => pi'.pciMsiMaxmsgnum =
        ((pi.msiControl coff bytes val).map msiMessages).getD pi.pciMsiMaxmsgnum)
      (pi.pciEmulCapwrite coff bytes val) := by
  cases hSearch : pi.capSearch coff 256 CAP_START_OFFSET with
  | error e =>
    unfold pciEmulCapwrite
    rw [if_neg (not_not.mpr hAlign), hSearch]
    trivial
  | ok capoff =>
    obtain ⟨hWord, hOther⟩ := pciEmulCapwrite_found hAlign hSearch val
    unfold msiControl
    rw [if_pos ⟨hCap, hAlign⟩, hSearch]
    dsimp only
    cases hControl : controlWord capoff coff bytes val with
    | none => exact (hOther (.inl hControl)).imp fun pi' _ hSame => maxmsgnum_congr hSame
    | some word =>
      by_cases hMsi : pi.pciGetCfgdata8 capoff = PCIY_MSI
      · obtain ⟨val', rfl, hWrite⟩ := hWord word hControl hMsi
        rw [hWrite]
        refine (pi.msicapCfgwrite_control capoff val').imp fun pi' _ hDone => ?_
        simp [Option.filter, hMsi, hDone.1, hDone.2]
      · refine (hOther (.inr hMsi)).imp fun pi' _ hSame => ?_
        simp [Option.filter, hMsi, maxmsgnum_congr hSame]

theorem pciEmulCapwrite_returns {coff bytes : Nat} {val : BitVec 32} {word : BitVec 16}
    (hControl : pi.msiControl coff bytes val = some word) :
    Returns (pi.pciEmulCapwrite coff bytes val) := by
  unfold msiControl at hControl
  split at hControl
  · next hCap =>
    cases hSearch : pi.capSearch coff 256 CAP_START_OFFSET with
    | error e =>
      rw [hSearch] at hControl
      cases hControl
    | ok capoff =>
      rw [hSearch] at hControl
      dsimp only at hControl
      obtain ⟨hWord, hReach⟩ := Option.filter_eq_some_iff.mp hControl
      obtain ⟨hMsi, hAccess⟩ := of_decide_eq_true hReach
      obtain ⟨val', rfl, hWrite⟩ := (pciEmulCapwrite_found hCap.2 hSearch val).1 word hWord hMsi
      rw [hWrite]
      exact msicapCfgwrite_returns hAccess
  · cases hControl

theorem pciEmulIscap_notBar {coff : Nat} (hCap : pi.pciEmulIscap coff = true) :
    ¬ (PCIR_BAR 0 ≤ coff ∧ coff < PCIR_BAR (PCI_BARMAX + 1)) := by
  have hHigh : CAP_START_OFFSET ≤ coff := (of_decide_eq_true hCap).2.1
  simp only [CAP_START_OFFSET] at hHigh
  simp only [PCIR_BAR, PCI_BARMAX]
  omega

theorem msiControl_iscap {coff bytes : Nat} {val : BitVec 32} {word : BitVec 16}
    (hControl : pi.msiControl coff bytes val = some word) :
    pi.pciEmulIscap coff = true ∧ coff % bytes = 0 := by
  unfold msiControl at hControl
  split at hControl
  · assumption
  · cases hControl

end PciDevinst

variable {pi : PciDevinst} {m : Registry T}

theorem pciCfgwrite_maxmsgnum {coff bytes : Nat} (hAlign : coff % bytes = 0) (val : BitVec 32) :
    Yields (fun _ => True)
      (fun r => r.1.pciMsiMaxmsgnum =
        ((pi.msiControl coff bytes val).map msiMessages).getD pi.pciMsiMaxmsgnum)
      (pciCfgwrite pi m coff bytes val) := by
  by_cases hCap : pi.pciEmulIscap coff = true
  · unfold pciCfgwrite
    rw [if_neg (pciEmulIscap_notBar hCap), if_pos hCap]
    exact (pciEmulCapwrite_maxmsgnum hCap hAlign val).bind fun pi' _ hDone => hDone
  · have hNone : pi.msiControl coff bytes val = none := if_neg fun hAt => hCap hAt.1
    rw [hNone]
    unfold pciCfgwrite
    split
    · refine Yields.ite rfl ((sameMsi_sparing.barWrite coff val).imp fun r _ hSame => ?_)
      exact maxmsgnum_congr hSame
    refine Yields.ite ((sameMsi_sparing.pciEmulCmdstsWrite coff bytes val).imp fun r _ hSame => ?_) ?_
    · exact maxmsgnum_congr hSame
    · exact (sameMsi_sparing.cfgWrite rfl coff bytes val).bind fun pi' _ hSame =>
        maxmsgnum_congr hSame

theorem pciCfgwrite_returns {coff bytes : Nat} {val : BitVec 32} {word : BitVec 16}
    (hControl : pi.msiControl coff bytes val = some word) :
    Returns (pciCfgwrite pi m coff bytes val) := by
  have hCap := (msiControl_iscap hControl).1
  obtain ⟨pi', hWrite⟩ := pciEmulCapwrite_returns hControl
  refine ⟨(pi', m), ?_⟩
  unfold pciCfgwrite
  rw [if_neg (pciEmulIscap_notBar hCap), if_pos hCap, hWrite]
  rfl

end Effect

section Messages

/-- The number of messages is zero, or a power of two of the advertised `2 ^ mmc` at most. -/
def PciDevinst.MsiWithin (mmc : Nat) (pi : PciDevinst) : Prop :=
  pi.pciMsiMaxmsgnum = 0 ∨ ∃ e ≤ mmc, pi.pciMsiMaxmsgnum = 2 ^ e

/-- If the write reaches Message Control of the function with MSI enabled, then MME is no more than
what the function advertises. -/
def CfgWrite.KeepsMsi (b : Bdf) (mmc : Nat) (s : Pci T) (w : CfgWrite) : Prop :=
  ∀ pi word, s.fiDevi b = some pi → w.bdf = b → Width w.bytes → w.coff ≤ PCI_REGMAX →
    pi.msiControl w.coff w.bytes w.val = some word → word &&& PCIM_MSICTRL_MSI_ENABLE ≠ 0 →
    msiMme word ≤ mmc

variable {s₀ s s' : Pci T} {b : Bdf} {pi pi' : PciDevinst} {mmc : Nat} {w : CfgWrite}

theorem within_iff {word : BitVec 16} (hCount : pi.pciMsiMaxmsgnum = msiMessages word) :
    pi.MsiWithin mmc ↔ (word &&& PCIM_MSICTRL_MSI_ENABLE ≠ 0 → msiMme word ≤ mmc) := by
  unfold MsiWithin
  rw [hCount, msiMessages, Nat.one_shiftLeft]
  split
  · next hOn =>
    constructor
    · rintro (hZero | ⟨e, hLe, hPow⟩) -
      · exact absurd hZero (Nat.two_pow_pos _).ne'
      · exact Nat.pow_right_injective (Nat.le_refl 2) hPow ▸ hLe
    · exact fun hLe => .inr ⟨_, hLe hOn, rfl⟩
  · next hOff => exact iff_of_true (.inl rfl) fun hOn => absurd hOn hOff

/-- Every index of a message is a shift of a 32-bit word. -/
theorem PciDevinst.MsiWithin.index_lt (h : pi.MsiWithin mmc) (hField : mmc ≤ 5) {i : Nat}
    (hIndex : i < pi.pciMsiMaxmsgnum) : i < 32 := by
  obtain hZero | ⟨e, hLe, hPow⟩ := h
  · omega
  · have hBound : 2 ^ e ≤ 2 ^ 5 := Nat.pow_le_pow_right (by decide) (Nat.le_trans hLe hField)
    omega

def MsiSized (b : Bdf) (mmc : Nat) (s : Pci T) : Prop :=
  s.Placed ∧ ∃ pi, s.fiDevi b = some pi ∧ pi.MsiWithin mmc

theorem MsiSized.write (h : MsiSized b mmc s) (hKeep : w.KeepsMsi b mmc s)
    (hStep : s.write w = .ok s') : MsiSized b mmc s' := by
  obtain ⟨hPlaced, x, hDevi, hWithin⟩ := h
  obtain ⟨hPlaced', hDevices⟩ := (Pci.write_device hPlaced w).of_ok hStep
  obtain ⟨x', hDevi', rfl | ⟨hb, hBytes, hAlign, hLow, m', hWrite⟩⟩ := hDevices b x hDevi
  · exact ⟨hPlaced', x', hDevi', hWithin⟩
  · have hCount := (pciCfgwrite_maxmsgnum hAlign w.val).of_ok hWrite
    refine ⟨hPlaced', x', hDevi', ?_⟩
    cases hControl : x.msiControl w.coff w.bytes w.val with
    | none =>
      rw [hControl] at hCount
      unfold MsiWithin
      rwa [hCount]
    | some word =>
      rw [hControl] at hCount
      exact (within_iff hCount).mpr (hKeep x word hDevi hb hBytes hLow hControl)

theorem MsiSized.write_breaks (h : MsiSized b mmc s) (hBreak : ¬ w.KeepsMsi b mmc s) :
    ∃ s', s.write w = .ok s' ∧ ¬ ∃ x, s'.fiDevi b = some x ∧ x.MsiWithin mmc := by
  simp only [CfgWrite.KeepsMsi, Classical.not_forall] at hBreak
  obtain ⟨x, word, hDevi, rfl, hBytes, hLow, hControl, hOn, hMme⟩ := hBreak
  have hAlign := (msiControl_iscap hControl).2
  obtain ⟨⟨x', m'⟩, hWrite⟩ := @pciCfgwrite_returns T x s.registry _ _ _ _ hControl
  have hCount := (pciCfgwrite_maxmsgnum hAlign w.val).of_ok hWrite
  rw [hControl] at hCount
  obtain ⟨hPlaced, -⟩ := h
  have hStep := Pci.write_eq hDevi hBytes hAlign hLow
  rw [hWrite] at hStep
  refine ⟨_, hStep, ?_⟩
  rintro ⟨y, hY, hWithin⟩
  have hBdf : x'.bdf = w.bdf :=
    ((sameSetup_closed.pciCfgwrite w.coff w.bytes w.val).of_ok hWrite).bdf.trans (hPlaced _ _ hDevi)
  obtain rfl := Option.some.inj ((Pci.replaceDevi_fiDevi s m' hBdf).symm.trans hY)
  exact hMme ((within_iff hCount).mp hWithin hOn)

/-- In every run the function has as many messages enabled as it should, exactly as long as no
write enables more than it advertises. -/
theorem maxmsgnum_bounded_iff {buses : List (List FuncInfo)} (hInit : initPci T buses = .ok s₀)
    (hDevi : s₀.fiDevi b = some pi) (ws : List CfgWrite) :
    Throughout Pci.write (fun s => ∃ pi', s.fiDevi b = some pi' ∧ pi'.MsiWithin mmc) s₀ ws ↔
      Along Pci.write (fun s w => w.KeepsMsi b mmc s) s₀ ws := by
  have hQuiet : s₀.Quiet := (initPci_quiet buses).of_ok hInit
  have hOff : pi.MsiWithin mmc := .inl (by simp [pciMsiMaxmsgnum, (hQuiet b pi hDevi).2.2.2])
  have hStart : MsiSized b mmc s₀ := ⟨fun b' x hx => (hQuiet b' x hx).1, pi, hDevi, hOff⟩
  refine @throughout_iff_along _ _ _ _ _ (MsiSized b mmc) _ ?_ ?_ ?_ _ hStart ws
  · exact fun s hSized => hSized.2
  · exact fun s w s' hSized hKeep hStep => hSized.write hKeep hStep
  · exact fun s w hSized hBreak => hSized.write_breaks hBreak

end Messages

end PciEmul

namespace PciAhci

open BlockIf PciEmul

section Line

/-- A relation between instances that composes, and that requests of the line keep to. -/
structure LineClosed (L : PciDevinst → PciDevinst → Prop) : Prop where
  refl : ∀ pi, L pi pi
  trans : ∀ {pi pi' pi''}, L pi pi' → L pi' pi'' → L pi pi''
  lintrAssert : ∀ pi, Yields (fun _ => True) (L pi) pi.pciLintrAssert
  lintrDeassert : ∀ pi, Yields (fun _ => True) (L pi) pi.pciLintrDeassert

namespace LineClosed

variable {L : PciDevinst → PciDevinst → Prop} (h : LineClosed L) (s : Port) (a : Ahci) (fuel : Nat)

theorem onPort (k : PortId) {f : Port → Except Fault Port}
    (hf : ∀ t, Yields (fun _ => True) (fun u => L t.sc.ascPi u.sc.ascPi) (f t)) :
    Yields (fun _ => True) (fun b => L a.sc.ascPi b.sc.ascPi) (a.onPort k f) :=
  (hf _).bind fun _ _ ht => ht

include h

theorem raiseIntr : Yields (fun _ => True) (fun t => L s.sc.ascPi t.sc.ascPi) s.raiseIntr := by
  have hSame : L s.sc.ascPi s.sc.ascPi := h.refl _
  unfold Port.raiseIntr
  refine Yields.ite hSame (Yields.ite hSame (Yields.ite hSame (Yields.ite hSame ?_)))
  refine Yields.ite hSame (Yields.ite hSame ?_)
  exact (h.lintrAssert _).bind fun pi _ hPi => hPi

theorem portIntr : Yields (fun _ => True) (fun t => L s.sc.ascPi t.sc.ascPi) s.ahciPortIntr :=
  (assertThat_yields fun _ => trivial).bind fun _ _ _ => h.raiseIntr s

theorem writeFis (ft : SataFisType) (fis : List (BitVec 8)) :
    Yields (fun _ => True) (fun t => L s.sc.ascPi t.sc.ascPi) (s.ahciWriteFis ft fis) := by
  unfold Port.ahciWriteFis
  split
  · exact Yields.ite (h.refl _) (Yields.ite (h.refl _) (h.portIntr _))
  · exact h.refl _

theorem onDisk {α : Type} (f : Disk IoreqId → Except Fault (α × Disk IoreqId)) :
    Yields (fun _ => True) (fun r => L s.sc.ascPi r.2.sc.ascPi) (s.onDisk f) :=
  (assertThat_yields fun _ => trivial).bind fun _ _ _ => (yields_true _).bind fun _ _ _ => h.refl _

/-- A port comes to its instance only through the line. -/
theorem stepwise : Port.Stepwise fun s t => L s.sc.ascPi t.sc.ascPi where
  refl s := h.refl _
  trans hFirst hNext := h.trans hFirst hNext
  quiet hQuiet := by
    rw [hQuiet.sc]
    exact h.refl _
  issue _ _ _ := h.refl _
  request _ _ := h.refl _
  served _ _ _ := h.refl _
  empty _ _ := h.refl _
  cancelled _ _ := h.refl _
  checkStopped s := by
    unfold Port.ahciCheckStopped
    split <;> exact h.refl _
  sdb s slot cfis tfd := h.writeFis _ _ _
  d2h s slot cfis tfd := h.writeFis _ _ _
  d2hNcq s slot := h.writeFis _ _ _
  piosetup s := h.writeFis _ _ _
  resetFis s := h.writeFis _ _ _
  handOver s op aior := (h.onDisk s _).bind fun _ _ hr =>
    (assertThat_yields fun _ => trivial).bind fun _ _ _ => hr
  cancel s aior := h.onDisk s _

theorem portWrite (offset : Nat) (value : BitVec 32) :
    Yields (fun _ => True) (fun t => L s.sc.ascPi t.sc.ascPi) (s.pciAhciPortWrite fuel offset value) := by
  have hKept := h.stepwise.kept
  by_cases hCmd : offset = 0x18
  · subst hCmd
    change Yields _ _ (s.cmdWrite fuel value)
    unfold Port.cmdWrite
    have hStop := hKept.portStop { s with p.cmd := s.p.cmd &&& ~~~cmdWritable ||| cmdWritable &&& value }
      (h.refl _)
    refine Yields.bind (Yields.ite hStop (h.refl _)) fun t _ ht => ?_
    refine Yields.imp (hKept.handlePort (t.cmdBits value) fuel) fun u _ hu => h.trans ht ?_
    rwa [(Port.cmdBits_sameIntr t value).ascPi] at hu
  by_cases hIs : offset = 0x10
  · subst hIs
    exact h.portIntr { s with p.is := s.p.is &&& ~~~value }
  by_cases hIe : offset = 0x14
  · subst hIe
    exact h.portIntr { s with p.ie := value &&& 0xFDC000FF }
  · exact hKept.portWrite s fuel hCmd hIs hIe value

theorem hbaReset : Yields (fun _ => True) (fun t => L s.sc.ascPi t.sc.ascPi) s.hbaReset := by
  unfold Port.hbaReset
  exact h.stepwise.kept.portReset _

theorem blockifThr :
    Yields (fun _ => True) (fun t => L s.sc.ascPi t.sc.ascPi) ((Port.client fuel).blockifThr fuel s) :=
  h.stepwise.kept.blockifThr s fuel (fun _ _ => h.refl _) fun _ _ => h.refl _

theorem resetPorts (ks : List PortId) :
    Yields (fun _ => True) (fun b => L a.sc.ascPi b.sc.ascPi) (Ahci.resetPorts ks a) := by
  induction ks generalizing a with
  | nil => exact h.refl _
  | cons k ks ih =>
    exact (onPort a k h.hbaReset).bind fun b _ hb => (ih b).imp fun c _ hc => h.trans hb hc

theorem ahciReset : Yields (fun _ => True) (fun b => L a.sc.ascPi b.sc.ascPi) a.ahciReset := by
  unfold Ahci.ahciReset
  refine Yields.bind (P := fun b : Ahci => L a.sc.ascPi b.sc.ascPi) (Yields.ite ?_ ?_) fun b _ hb => ?_
  · exact (h.lintrDeassert _).bind fun pi _ hPi => hPi
  · exact h.refl a.sc.ascPi
  · exact (h.resetPorts b _).imp fun c _ hc => h.trans hb hc

theorem generateIntr : Yields (fun _ => True) (fun b => L a.sc.ascPi b.sc.ascPi) a.ahciGenerateIntr := by
  unfold Ahci.ahciGenerateIntr
  refine Yields.ite (Yields.ite ?_ (h.refl _)) (Yields.ite (Yields.ite (h.refl _) ?_) (h.refl _))
  · exact (h.lintrDeassert _).bind fun pi _ hPi => hPi
  · exact (h.lintrAssert _).bind fun pi _ hPi => hPi

theorem hostWrite (offset : Nat) (value : BitVec 32) :
    Yields (fun _ => True) (fun b => L a.sc.ascPi b.sc.ascPi) (a.pciAhciHostWrite offset value) := by
  unfold Ahci.pciAhciHostWrite
  split
  · exact Yields.ite (h.ahciReset a) (h.generateIntr _)
  · exact h.generateIntr _
  · exact h.refl _

theorem ahciWrite (baridx offset : Nat) (value : BitVec 64) : Yields (fun _ => True)
    (fun b => L a.sc.ascPi b.sc.ascPi) (a.pciAhciWrite fuel baridx offset value) := by
  unfold Ahci.pciAhciWrite
  refine (assertThat_yields fun _ => trivial).bind fun _ _ _ => ?_
  refine Yields.bind (P := fun b : Ahci => L a.sc.ascPi b.sc.ascPi) ?_ ?_
  · refine Yields.ite (h.hostWrite _ _ _) (Yields.ite ?_ (h.refl _))
    generalize (offset - AHCI_OFFSET) % AHCI_STEP = reg
    exact onPort _ _ fun t => h.portWrite t fuel reg _
  · exact fun b _ hb => hb

theorem step {e : Event} (hOwn : ∀ mem pi, e ≠ .other mem pi) :
    Yields (fun _ => True) (fun b => L a.sc.ascPi b.sc.ascPi) (a.step fuel e) := by
  cases e with
  | write baridx offset value => exact h.ahciWrite a fuel baridx offset value
  | reset => exact h.ahciReset a
  | thr =>
    rw [Ahci.step, Ahci.blockifThr]
    split
    · exact h.refl _
    · exact onPort a _ fun t => h.blockifThr t fuel
  | other mem pi => exact absurd rfl (hOwn mem pi)

end LineClosed

def LineSettled (pi : PciDevinst) : Prop := ∃ requested, PciDevinst.Settled requested pi

theorem lineSettled_closed : LineClosed fun pi pi' => LineSettled pi → LineSettled pi' where
  refl _ hSettled := hSettled
  trans hFirst hNext hSettled := hNext (hFirst hSettled)
  lintrAssert pi := by
    cases hAssert : pi.pciLintrAssert with
    | error e => trivial
    | ok pi' =>
      rintro ⟨requested, hSettled⟩
      exact ⟨true, ((PciDevinst.pciLintrAssert_settled hSettled).of_ok hAssert).2⟩
  lintrDeassert pi := by
    cases hDeassert : pi.pciLintrDeassert with
    | error e => trivial
    | ok pi' =>
      rintro ⟨requested, hSettled⟩
      exact ⟨false, ((PciDevinst.pciLintrDeassert_settled hSettled).of_ok hDeassert).2⟩

theorem sameMsi_closed : LineClosed fun pi pi' => pi'.piMsi = pi.piMsi where
  refl _ := rfl
  trans hFirst hNext := hNext.trans hFirst
  lintrAssert pi := by
    refine (assertThat_yields fun _ => trivial).bind fun _ _ _ => ?_
    exact Yields.ite (Yields.ite rfl rfl) rfl
  lintrDeassert pi := by
    refine (assertThat_yields fun _ => trivial).bind fun _ _ _ => ?_
    split <;> rfl

/-- While MSI is enabled the line stays low. -/
theorem LineSettled.low {pi : PciDevinst} (h : LineSettled pi) (hMsi : pi.piMsi.enabled = true) :
    pi.irq = false := by
  obtain ⟨requested, hSettled⟩ := h
  refine eq_false_of_ne_true fun hHigh => ?_
  have hPermitted := (hSettled.irq_iff.mp hHigh).2
  simp [PciDevinst.pciLintrPermitted, hMsi] at hPermitted

end Line

section Delivery

/-- A message that `vm_lapic_msi` would send. -/
structure MsiMessage where
  addr : BitVec 64
  msgData : BitVec 64

/-- The messages that `pci_generate_msi` sends. -/
def pciGenerateMsi (pi : PciDevinst) (index : Nat) : List MsiMessage :=
  if pi.piMsi.enabled = true ∧ index < pi.pciMsiMaxmsgnum then
    -- the call of `vm_lapic_msi` is not compiled
    []
  else []

/-- The messages that `ahci_port_intr` sends. -/
def Port.intrMessages (s : Port) : List MsiMessage :=
  if s.p.is &&& s.p.ie = 0 then []
  else
    let nmsg := s.sc.ascPi.pciMsiMaxmsgnum
    if s.sc.ports ≤ nmsg ∨ (s.p.port : Int) < nmsg - 1 then
      if s.sc.ghc &&& AHCI_GHC_IE = 0 then [] else pciGenerateMsi s.sc.ascPi s.p.port
    else if s.sc.is &&& bit s.p.port ≠ 0 then []
    else if s.sc.ghc &&& AHCI_GHC_IE = 0 then []
    else if 0 < nmsg then pciGenerateMsi s.sc.ascPi (nmsg - 1)
    else []

/-- An event of the port is raised while interrupts are enabled: the guest gets a message for it, or
the line is driven. -/
def Port.Delivered (s t : Port) : Prop := s.intrMessages ≠ [] ∨ t.sc.ascPi.irq = true

theorem pciGenerateMsi_nil (pi : PciDevinst) (index : Nat) : pciGenerateMsi pi index = [] := by
  unfold pciGenerateMsi
  split <;> rfl

theorem Port.intrMessages_nil (s : Port) : s.intrMessages = [] := by
  unfold Port.intrMessages
  simp only [pciGenerateMsi_nil, ite_self]

variable {T : PciTree}

inductive GuestAct (T : PciTree) where
  /-- the guest writes to the configuration space, with the ranges that are registered then -/
  | config (m : Registry T) (coff bytes : Nat) (val : BitVec 32)
  /-- the guest writes to memory -/
  | memory (mem : Memory)
  /-- the guest writes to a register -/
  | write (baridx offset : Nat) (value : BitVec 64)
  | reset
  | thr

namespace Ahci

def configWrite (s : Ahci) (m : Registry T) (coff bytes : Nat) (val : BitVec 32) : Except Fault Ahci :=
  if bytes ≠ 1 ∧ bytes ≠ 2 ∧ bytes ≠ 4 ∨ coff % bytes ≠ 0 then .ok s
  else if PCI_REGMAX + 1 ≤ coff then .ok s
  else (pciCfgwrite s.sc.ascPi m coff bytes val).map fun r => { s with sc.ascPi := r.1 }

def guestAct (fuel : Nat) (s : Ahci) : GuestAct T → Except Fault Ahci
  | .config m coff bytes val => s.configWrite m coff bytes val
  | .memory mem => s.step fuel (.other mem s.sc.ascPi)
  | .write baridx offset value => s.step fuel (.write baridx offset value)
  | .reset => s.step fuel .reset
  | .thr => s.step fuel .thr

theorem guestAct_lineSettled {s : Ahci} (h : LineSettled s.sc.ascPi) (fuel : Nat) (a : GuestAct T) :
    Yields (fun _ => True) (fun t => LineSettled t.sc.ascPi) (s.guestAct fuel a) := by
  have hStep : ∀ e : Event, (∀ mem pi, e ≠ .other mem pi) →
      Yields (fun _ => True) (fun t => LineSettled t.sc.ascPi) (s.step fuel e) := fun e hOwn =>
    (lineSettled_closed.step s fuel hOwn).imp fun t _ ht => ht h
  cases a with
  | config m coff bytes val =>
    rw [guestAct, configWrite]
    split
    · exact h
    next hGood =>
    split
    · exact h
    · obtain ⟨requested, hSettled⟩ := h
      obtain ⟨hBytes, hAlign⟩ := not_or.mp hGood
      have hWidth : PciDevinst.Width bytes := by
        simp only [PciDevinst.Width]
        omega
      have hWrite := pciCfgwrite_settled (m := m) hSettled hWidth (not_not.mp hAlign) val
      exact Yields.map (hWrite.imp fun r _ hr => ⟨requested, hr.2⟩)
  | memory mem => exact h
  | write baridx offset value => exact hStep (.write baridx offset value) (by simp)
  | reset => exact hStep .reset (by simp)
  | thr => exact hStep .thr (by simp)

theorem pciAhciInit_lineSettled {pi : PciDevinst} (h : LineSettled pi)
    (disks : List (Option (List (BitVec 8)))) (mem : Memory) (stack : Nat → BitVec 8) :
    Yields (fun _ => True) (fun s => LineSettled s.sc.ascPi) (pciAhciInit pi disks mem stack) :=
  (lineSettled_closed.ahciReset _).imp fun _ _ hs => hs h

end Ahci

structure Port.Raises (s : Port) : Prop where
  event : s.p.is &&& s.p.ie ≠ 0
  enabled : s.sc.ghc &&& AHCI_GHC_IE ≠ 0

/-- An event that is raised while MSI is enabled is lost on the guest. -/
theorem Port.not_delivered {s t : Port} (h : LineSettled s.sc.ascPi)
    (hMsi : s.sc.ascPi.piMsi.enabled = true) (hIntr : s.ahciPortIntr = .ok t) : ¬ s.Delivered t := by
  have hSettled : LineSettled t.sc.ascPi := (lineSettled_closed.portIntr s).of_ok hIntr h
  have hSame : t.sc.ascPi.piMsi = s.sc.ascPi.piMsi := (sameMsi_closed.portIntr s).of_ok hIntr
  have hLow := hSettled.low (by rw [hSame]; exact hMsi)
  rintro (hMessage | hHigh)
  · exact hMessage s.intrMessages_nil
  · rw [hLow] at hHigh
    exact Bool.false_ne_true hHigh

/-- In every run of the controller, an event that is raised reaches the guest only if MSI is off. -/
theorem Ahci.run_delivered_iff {pi : PciDevinst} (h : LineSettled pi) (fuel : Nat)
    (disks : List (Option (List (BitVec 8)))) (mem : Memory) (stack : Nat → BitVec 8)
    (acts : List (GuestAct T)) :
    Yields (fun _ => True)
      (fun s => ∀ t u : Port, t.sc.ascPi = s.sc.ascPi → t.Raises → t.ahciPortIntr = .ok u →
        ((s.sc.ascPi.piMsi.enabled = true → t.Delivered u) ↔ s.sc.ascPi.piMsi.enabled = false))
      (pciAhciInit pi disks mem stack >>= fun s => run (Ahci.guestAct fuel) s acts) := by
  refine (pciAhciInit_lineSettled h disks mem stack).bind fun s _ hs => ?_
  have hRun := run_keeps (fun t a ht => Ahci.guestAct_lineSettled ht fuel a) hs acts
  refine hRun.imp fun s' _ hLine t u hPi _ hIntr => ?_
  rw [← hPi] at hLine ⊢
  constructor
  · intro hDelivered
    exact eq_false_of_ne_true fun hMsi => Port.not_delivered hLine hMsi hIntr (hDelivered hMsi)
  · intro hOff hMsi
    rw [hOff] at hMsi
    exact absurd hMsi Bool.false_ne_true

/-- In every run of configuration writes a function has no more messages than it advertises, exactly as
long as no write enables more of them; and in every run of the controller an event that is raised
reaches the guest, as a message or through the line, only if MSI is not enabled. -/
theorem msi_sound_iff {buses : List (List FuncInfo)} {s₀ : Pci T} {b : Bdf} {pi : PciDevinst} {mmc : Nat}
    (hInit : initPci T buses = .ok s₀) (hDevi : s₀.fiDevi b = some pi) :
    (∀ ws : List CfgWrite,
      Throughout Pci.write (fun s => ∃ pi', s.fiDevi b = some pi' ∧ pi'.MsiWithin mmc ∧
        (mmc ≤ 5 → ∀ i < pi'.pciMsiMaxmsgnum, i < 32)) s₀ ws ↔
      Along Pci.write (fun s w => w.KeepsMsi b mmc s) s₀ ws) ∧
    ∀ (fuel : Nat) (disks : List (Option (List (BitVec 8)))) (mem : Memory) (stack : Nat → BitVec 8)
      (acts : List (GuestAct T)),
      Yields (fun _ => True)
        (fun s => ∀ t u : Port, t.sc.ascPi = s.sc.ascPi → t.Raises → t.ahciPortIntr = .ok u →
          ((s.sc.ascPi.piMsi.enabled = true → t.Delivered u) ↔ s.sc.ascPi.piMsi.enabled = false))
        (pciAhciInit pi disks mem stack >>= fun s => run (Ahci.guestAct fuel) s acts) := by
  have hQuiet : s₀.Quiet := (initPci_quiet buses).of_ok hInit
  constructor
  · intro ws
    rw [← maxmsgnum_bounded_iff hInit hDevi ws]
    refine throughout_congr fun s => ?_
    constructor
    · rintro ⟨pi', hDevi', hWithin, -⟩
      exact ⟨pi', hDevi', hWithin⟩
    · rintro ⟨pi', hDevi', hWithin⟩
      exact ⟨pi', hDevi', hWithin, fun hField i hIndex => hWithin.index_lt hField hIndex⟩
  · exact Ahci.run_delivered_iff ⟨_, (hQuiet.linesSettled b pi hDevi).2⟩


def standbyMemory : Memory := fun addr =>
  if addr = paddrGuest2host 0 then FIS_TYPE_REGH2D
  else if addr = paddrGuest2host 0 + 1 then 0x80
  else if addr = paddrGuest2host 0 + 2 then ATA_STANDBY_IMMEDIATE
  else 0

def standbyActs (m : Registry T) : List (GuestAct T) :=
  [.config m 0x42 2 1, .write 5 0x04 2, .write 5 0x118 0x11, .write 5 0x138 1]

/-- The port as it is when a write to `PxIE` raises its event. -/
def Ahci.unmasked (s : Ahci) : Port := ⟨{ s.port 0 with ie := 1 }, s.sc, s.mem⟩

theorem msi_sound_iff_ahci : ∃ s₀ pi, initPci unbalancedTree bhyvePciBuses = .ok s₀ ∧
    s₀.fiDevi ⟨0, 1, 0⟩ = some pi ∧
    (Throughout Pci.write (fun s => ∃ pi', s.fiDevi ⟨0, 1, 0⟩ = some pi' ∧ pi'.MsiWithin 3 ∧
      (3 ≤ 5 → ∀ i < pi'.pciMsiMaxmsgnum, i < 32)) s₀ [⟨⟨0, 1, 0⟩, 0x42, 2, 0x31⟩] ↔
    Along Pci.write (fun s w => w.KeepsMsi ⟨0, 1, 0⟩ 3 s) s₀ [⟨⟨0, 1, 0⟩, 0x42, 2, 0x31⟩]) ∧
    Yields (fun _ => True)
      (fun s => ∀ t u : Port, t.sc.ascPi = s.sc.ascPi → t.Raises → t.ahciPortIntr = .ok u →
        ((s.sc.ascPi.piMsi.enabled = true → t.Delivered u) ↔ s.sc.ascPi.piMsi.enabled = false))
      (pciAhciInit pi [some []] standbyMemory (fun _ => 0) >>= fun s =>
        run (Ahci.guestAct 64) s (standbyActs s₀.registry)) := by
  obtain ⟨s₀, pi, -, hInit, hDevi, -⟩ := ahci_device
  have hIff := @msi_sound_iff _ _ _ _ _ 3 hInit hDevi
  exact ⟨s₀, pi, hInit, hDevi, hIff.1 _, hIff.2 64 _ _ _ _⟩

/-- The guest enables 128 messages of the eight; and the event of the command is lost. -/
theorem msi_unsound :
    (¬ ∀ (s₀ : Pci unbalancedTree) (pi : PciDevinst), initPci unbalancedTree bhyvePciBuses = .ok s₀ →
      s₀.fiDevi ⟨0, 1, 0⟩ = some pi → Throughout Pci.write (fun s => ∃ pi', s.fiDevi ⟨0, 1, 0⟩ = some pi' ∧
        pi'.MsiWithin 3) s₀ [⟨⟨0, 1, 0⟩, 0x42, 2, 0x71⟩]) ∧
    ¬ ∀ (s₀ : Pci unbalancedTree) (pi : PciDevinst), initPci unbalancedTree bhyvePciBuses = .ok s₀ →
      s₀.fiDevi ⟨0, 1, 0⟩ = some pi → Yields (fun _ => True)
        (fun s => ∀ t u : Port, t.sc.ascPi = s.sc.ascPi → t.Raises → t.ahciPortIntr = .ok u →
          s.sc.ascPi.piMsi.enabled = true → t.Delivered u)
        (pciAhciInit pi [some []] standbyMemory (fun _ => 0) >>= fun s =>
          run (Ahci.guestAct 64) s (standbyActs s₀.registry)) := by
  obtain ⟨s₀, pi, -, hInit, hDevi, -⟩ := ahci_device
  constructor
  · intro hAll
    have hCount : (initPci unbalancedTree bhyvePciBuses >>= fun s =>
        run Pci.write s [⟨⟨0, 1, 0⟩, 0x42, 2, 0x71⟩]).toOption.bind (fun s =>
          (s.fiDevi ⟨0, 1, 0⟩).map PciDevinst.pciMsiMaxmsgnum) = some 128 := by decide +kernel
    obtain ⟨s, hRun, hDevi'⟩ := Option.bind_eq_some_iff.mp hCount
    obtain ⟨x, hX, hMany⟩ := Option.map_eq_some_iff.mp hDevi'
    have hRun := toOption_eq_some_iff.mp hRun
    rw [hInit, ok_bind] at hRun
    obtain ⟨y, hY, hWithin⟩ := hAll s₀ pi hInit hDevi _ [] s (List.append_nil _).symm hRun
    obtain rfl := Option.some.inj (hX.symm.trans hY)
    have hLow := hWithin.index_lt (by decide) (i := 32) (by omega)
    exact absurd hLow (by decide)
  · intro hAll
    have hLost : ((initPci unbalancedTree bhyvePciBuses).toOption.bind fun s₀ =>
        (s₀.fiDevi ⟨0, 1, 0⟩).bind fun pi =>
          (pciAhciInit pi [some []] standbyMemory (fun _ => 0) >>= fun s =>
            run (Ahci.guestAct 64) s (standbyActs s₀.registry)).toOption.bind fun s =>
              s.unmasked.ahciPortIntr.toOption.map fun u =>
                (s.sc.ascPi.piMsi.enabled, s.unmasked.p.is &&& s.unmasked.p.ie,
                  s.sc.ghc &&& AHCI_GHC_IE, u.sc.ascPi.irq)) =
      some (true, 1, AHCI_GHC_IE, false) := by decide +kernel
    obtain ⟨s₁, hInit₁, hLost⟩ := Option.bind_eq_some_iff.mp hLost
    obtain rfl := Except.ok.inj (hInit.symm.trans (toOption_eq_some_iff.mp hInit₁))
    obtain ⟨pi₁, hDevi₁, hLost⟩ := Option.bind_eq_some_iff.mp hLost
    obtain rfl := Option.some.inj (hDevi.symm.trans hDevi₁)
    obtain ⟨s, hRun, hLost⟩ := Option.bind_eq_some_iff.mp hLost
    obtain ⟨u, hIntr, hLost⟩ := Option.map_eq_some_iff.mp hLost
    simp only [Prod.mk.injEq] at hLost
    obtain ⟨hMsi, hEvent, hOn, hLow⟩ := hLost
    have hRaises : s.unmasked.Raises := ⟨by rw [hEvent]; decide, by
      show s.sc.ghc &&& AHCI_GHC_IE ≠ 0
      rw [hOn]
      decide⟩
    have hDelivered := (hAll s₀ pi hInit hDevi).of_ok (toOption_eq_some_iff.mp hRun) s.unmasked u rfl
      hRaises (toOption_eq_some_iff.mp hIntr) hMsi
    obtain hMessage | hHigh := hDelivered
    · exact hMessage s.unmasked.intrMessages_nil
    · rw [hLow] at hHigh
      exact Bool.false_ne_true hHigh

end Delivery

end PciAhci

end DeviceModel

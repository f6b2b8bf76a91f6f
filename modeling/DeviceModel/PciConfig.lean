import DeviceModel.Lib.Fallible
import DeviceModel.Lib.PowerOfTwo
import DeviceModel.PciDevinst

/-!
# What a configuration write can reach

`Frame touched pi pi'` says that `pi'` differs from `pi` only in configuration
bytes that `touched` holds of, and in data that BARs do not depend on. Every
write of `PciDevinst` gets its frame, and the faults it can stop at.
-/

set_option autoImplicit false

namespace DeviceModel.PciEmul

open Fallible PowerOfTwo

inductive ConfigFault : Fault → Prop
  | cfgdataAccess : ConfigFault .cfgdataAccess
  | capwriteSearch : ConfigFault .capwriteSearch
  | capwriteOffset : ConfigFault .capwriteOffset

def InAccess (coff bytes off : Nat) : Prop := coff ≤ off ∧ off < coff + bytes

namespace PciDevinst

structure Frame (touched : Nat → Prop) (pi pi' : PciDevinst) : Prop where
  bdf : pi'.bdf = pi.bdf
  piBar : pi'.piBar = pi.piBar
  cfgdata : ∀ off, ¬ touched off → pi'.piCfgdata off = pi.piCfgdata off

namespace Frame

variable {touched touched' : Nat → Prop} {pi pi' pi'' : PciDevinst}

theorem refl (pi : PciDevinst) : Frame touched pi pi := ⟨rfl, rfl, fun _ _ => rfl⟩

theorem trans (h : Frame touched pi pi') (h' : Frame touched pi' pi'') : Frame touched pi pi'' :=
  ⟨h'.bdf.trans h.bdf, h'.piBar.trans h.piBar,
    fun off hOff => (h'.cfgdata off hOff).trans (h.cfgdata off hOff)⟩

theorem mono (h : Frame touched pi pi') (hSub : ∀ off, touched off → touched' off) :
    Frame touched' pi pi' :=
  ⟨h.bdf, h.piBar, fun off hOff => h.cfgdata off fun hIn => hOff (hSub off hIn)⟩

theorem get8 (h : Frame touched pi pi') {off : Nat} (hOff : ¬ touched off) :
    pi'.pciGetCfgdata8 off = pi.pciGetCfgdata8 off := h.cfgdata off hOff

theorem get16 (h : Frame touched pi pi') {off : Nat} (hOff : ∀ i < 2, ¬ touched (off + i)) :
    pi'.pciGetCfgdata16 off = pi.pciGetCfgdata16 off := by
  rw [pciGetCfgdata16, pciGetCfgdata16, h.get8 (show ¬ touched off from hOff 0 (by decide)),
    h.get8 (hOff 1 (by decide))]

theorem get32 (h : Frame touched pi pi') {off : Nat} (hOff : ∀ i < 4, ¬ touched (off + i)) :
    pi'.pciGetCfgdata32 off = pi.pciGetCfgdata32 off := by
  rw [pciGetCfgdata32, pciGetCfgdata32, h.get16 fun i hi => hOff i (by omega),
    h.get16 fun i hi => Nat.add_assoc off 2 i ▸ hOff (2 + i) (by omega)]

end Frame

variable (pi : PciDevinst)

theorem frame_set8 (offset : Nat) (val : BitVec 8) :
    Frame (InAccess offset 1) pi (pi.pciSetCfgdata8 offset val) := by
  refine ⟨rfl, rfl, fun off hOff => ?_⟩
  have hNe : off ≠ offset := by
    rintro rfl
    exact hOff ⟨Nat.le_refl _, Nat.lt_succ_self _⟩
  simp [pciSetCfgdata8, hNe]

theorem frame_set16 (offset : Nat) (val : BitVec 16) :
    Frame (InAccess offset 2) pi (pi.pciSetCfgdata16 offset val) := by
  refine ((frame_set8 pi offset _).mono ?_).trans ((frame_set8 _ (offset + 1) _).mono ?_)
  · rintro off ⟨hLo, hHi⟩
    exact ⟨hLo, by omega⟩
  · rintro off ⟨hLo, hHi⟩
    exact ⟨by omega, by omega⟩

theorem frame_set32 (offset : Nat) (val : BitVec 32) :
    Frame (InAccess offset 4) pi (pi.pciSetCfgdata32 offset val) := by
  refine ((frame_set16 pi offset _).mono ?_).trans ((frame_set16 _ (offset + 2) _).mono ?_)
  · rintro off ⟨hLo, hHi⟩
    exact ⟨hLo, by omega⟩
  · rintro off ⟨hLo, hHi⟩
    exact ⟨by omega, by omega⟩

@[simp] theorem set8_bdf (offset : Nat) (val : BitVec 8) :
    (pi.pciSetCfgdata8 offset val).bdf = pi.bdf := rfl

@[simp] theorem set8_piBar (offset : Nat) (val : BitVec 8) :
    (pi.pciSetCfgdata8 offset val).piBar = pi.piBar := rfl

@[simp] theorem set32_bdf (offset : Nat) (val : BitVec 32) :
    (pi.pciSetCfgdata32 offset val).bdf = pi.bdf := (pi.frame_set32 offset val).bdf

@[simp] theorem set32_piBar (offset : Nat) (val : BitVec 32) :
    (pi.pciSetCfgdata32 offset val).piBar = pi.piBar := (pi.frame_set32 offset val).piBar

@[simp] theorem set8_piPrevcap (offset : Nat) (val : BitVec 8) :
    (pi.pciSetCfgdata8 offset val).piPrevcap = pi.piPrevcap := rfl

@[simp] theorem set8_piCapend (offset : Nat) (val : BitVec 8) :
    (pi.pciSetCfgdata8 offset val).piCapend = pi.piCapend := rfl

@[simp] theorem set32_piPrevcap (offset : Nat) (val : BitVec 32) :
    (pi.pciSetCfgdata32 offset val).piPrevcap = pi.piPrevcap := by
  simp only [pciSetCfgdata32, pciSetCfgdata16, set8_piPrevcap]

@[simp] theorem set32_piCapend (offset : Nat) (val : BitVec 32) :
    (pi.pciSetCfgdata32 offset val).piCapend = pi.piCapend := by
  simp only [pciSetCfgdata32, pciSetCfgdata16, set8_piCapend]

theorem get8_set8 (offset : Nat) (val : BitVec 8) :
    (pi.pciSetCfgdata8 offset val).pciGetCfgdata8 offset = val := by
  simp [pciSetCfgdata8, pciGetCfgdata8]

theorem get16_set16 (offset : Nat) (val : BitVec 16) :
    (pi.pciSetCfgdata16 offset val).pciGetCfgdata16 offset = val := by
  have hHigh : (pi.pciSetCfgdata16 offset val).pciGetCfgdata8 offset = val.extractLsb' 8 8 := by
    simp [pciSetCfgdata16, pciSetCfgdata8, pciGetCfgdata8]
  rw [pciGetCfgdata16, hHigh, pciSetCfgdata16, get8_set8]
  ext i hi
  simp only [BitVec.getElem_append, BitVec.getElem_extractLsb']
  split
  · simp [BitVec.getLsbD_eq_getElem hi]
  · next h =>
    rw [show 8 + (i - 8) = i by omega, BitVec.getLsbD_eq_getElem hi]

theorem get32_set32 (offset : Nat) (val : BitVec 32) :
    (pi.pciSetCfgdata32 offset val).pciGetCfgdata32 offset = val := by
  have hHigh : (pi.pciSetCfgdata32 offset val).pciGetCfgdata16 offset = val.extractLsb' 16 16 := by
    rw [pciSetCfgdata32, (frame_set16 _ (offset + 2) _).get16, get16_set16]
    rintro i hi ⟨hLo, -⟩
    omega
  rw [pciGetCfgdata32, hHigh, pciSetCfgdata32, get16_set16]
  ext i hi
  simp only [BitVec.getElem_append, BitVec.getElem_extractLsb']
  split
  · simp [BitVec.getLsbD_eq_getElem hi]
  · next h =>
    rw [show 16 + (i - 16) = i by omega, BitVec.getLsbD_eq_getElem hi]

/-- `COMMAND.MEMEN` is bit 1 of the byte at offset 5. -/
theorem memen_eq : pi.memen = (pi.piCfgdata 5).getLsbD 1 := by
  have hBit : (pi.pciGetCfgdata16 PCIR_COMMAND).getLsbD 1 = (pi.piCfgdata 5).getLsbD 1 := by
    rw [pciGetCfgdata16, BitVec.getLsbD_append]
    rfl
  rw [memen, ← hBit, Bool.eq_iff_iff, decide_eq_true_iff]
  exact and_twoPow_ne_zero_iff (w := 16) (k := 1) (by decide)

theorem Frame.memen {pi pi' : PciDevinst} {touched : Nat → Prop} (h : Frame touched pi pi')
    (hOff : ¬ touched 5) : pi'.memen = pi.memen := by
  rw [memen_eq, memen_eq, h.cfgdata 5 hOff]

theorem Frame.pciLintrUpdate {pi pi' : PciDevinst} {touched : Nat → Prop}
    (h : Frame touched pi pi') : Frame touched pi pi'.pciLintrUpdate := by
  unfold PciDevinst.pciLintrUpdate
  split
  · exact ⟨h.bdf, h.piBar, h.cfgdata⟩
  · split
    · exact ⟨h.bdf, h.piBar, h.cfgdata⟩
    · exact h

def Width (bytes : Nat) : Prop := bytes = 1 ∨ bytes = 2 ∨ bytes = 4

theorem cfgWrite_frame (coff : Nat) (val : BitVec 32) {bytes : Nat} (hBytes : Width bytes) :
    Yields ConfigFault (Frame (InAccess coff bytes) pi) (pi.cfgWrite coff val bytes) := by
  unfold cfgWrite
  split
  · rcases hBytes with rfl | rfl | rfl
    · exact pi.frame_set8 coff _
    · exact pi.frame_set16 coff _
    · exact pi.frame_set32 coff _
  · exact .cfgdataAccess

theorem Frame.cfgWrite {pi pi' : PciDevinst} {coff bytes : Nat}
    (h : Frame (InAccess coff bytes) pi pi') (val : BitVec 32) (hBytes : Width bytes) :
    Yields ConfigFault (Frame (InAccess coff bytes) pi) (pi'.cfgWrite coff val bytes) :=
  (pi'.cfgWrite_frame coff val hBytes).imp fun _ _ h' => h.trans h'

theorem msixcapCfgwrite_frame (capoff offset : Nat) {bytes : Nat} (val : BitVec 32)
    (hBytes : Width bytes) : Yields ConfigFault (Frame (InAccess offset bytes) pi)
      (pi.msixcapCfgwrite capoff offset bytes val) := by
  unfold msixcapCfgwrite
  split
  · refine (assertThat_yields fun _ => .cfgdataAccess).bind fun _ _ _ => ?_
    refine Frame.cfgWrite (Frame.pciLintrUpdate ?_) _ hBytes
    exact ⟨rfl, rfl, fun _ _ => rfl⟩
  · exact pi.cfgWrite_frame offset val hBytes

theorem msicapCfgwrite_frame (capoff offset : Nat) {bytes : Nat} (val : BitVec 32)
    (hBytes : Width bytes) : Yields ConfigFault (Frame (InAccess offset bytes) pi)
      (pi.msicapCfgwrite capoff offset bytes val) := by
  unfold msicapCfgwrite
  split
  · refine (assertThat_yields fun _ => .cfgdataAccess).bind fun _ _ _ => ?_
    refine (assertThat_yields fun _ => .cfgdataAccess).bind fun _ _ _ => ?_
    refine (assertThat_yields fun _ => .cfgdataAccess).bind fun _ _ _ => ?_
    refine Frame.cfgWrite (Frame.pciLintrUpdate ?_) _ hBytes
    exact ⟨rfl, rfl, fun _ _ => rfl⟩
  · exact pi.cfgWrite_frame offset val hBytes

theorem capSearch_yields (offset fuel capoff : Nat) :
    Yields ConfigFault (fun _ => True) (pi.capSearch offset fuel capoff) := by
  induction fuel generalizing capoff with
  | zero => exact .capwriteSearch
  | succ fuel ih =>
    unfold capSearch
    split
    · exact .cfgdataAccess
    · dsimp only
      split
      · trivial
      · exact ih _

theorem capDispatch_frame (capoff offset : Nat) {bytes : Nat} (val : BitVec 32)
    (hBytes : Width bytes) : Yields ConfigFault (Frame (InAccess offset bytes) pi)
      (pi.capDispatch capoff offset bytes val) := by
  unfold capDispatch
  dsimp only
  split
  · exact pi.msicapCfgwrite_frame capoff offset val hBytes
  · split
    · exact pi.msixcapCfgwrite_frame capoff offset val hBytes
    · split
      · exact pi.cfgWrite_frame offset val hBytes
      · exact .refl pi

theorem pciEmulCapwrite_frame (offset : Nat) {bytes : Nat} (val : BitVec 32)
    (hBytes : Width bytes) : Yields ConfigFault (Frame (InAccess offset bytes) pi)
      (pi.pciEmulCapwrite offset bytes val) := by
  unfold pciEmulCapwrite
  split
  · exact .refl pi
  · refine (pi.capSearch_yields offset 256 CAP_START_OFFSET).bind fun capoff _ _ => ?_
    refine (assertThat_yields fun _ => .capwriteOffset).bind fun _ _ _ => ?_
    split
    · split
      · next hTrim =>
        refine (pi.capDispatch_frame capoff (offset + 2) (val >>> 16) (.inr (.inl rfl))).imp ?_
        rintro pi' - hFrame
        refine hFrame.mono ?_
        rintro off ⟨hLo, hHi⟩
        exact ⟨by omega, by omega⟩
      · exact .refl pi
    · exact pi.capDispatch_frame capoff offset val hBytes

end PciDevinst

end DeviceModel.PciEmul

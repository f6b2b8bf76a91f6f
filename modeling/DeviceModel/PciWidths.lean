import DeviceModel.PciCapability

/-!
# Configuration space at different widths

The accessors read and write multi-byte registers in the byte order of the host,
the most significant byte first. Software expects the least significant byte
first, so accesses of different widths to one register rarely agree.
-/

set_option autoImplicit false

namespace DeviceModel.PciEmul

open SearchTree Mem Fallible PowerOfTwo PciDevinst

variable {T : PciTree}

def Pci.read (s : Pci T) (bdf : Bdf) (coff bytes : Nat) : Except Fault (BitVec 32) :=
  (s.pciCfgrw true bdf coff bytes 0).map Prod.fst

section Reads

theorem toNat_append {n k : Nat} (x : BitVec n) (y : BitVec k) :
    (x ++ y).toNat = x.toNat * 2 ^ k + y.toNat := by
  rw [BitVec.toNat_append, ← Nat.shiftLeft_add_eq_or_of_lt y.isLt, Nat.shiftLeft_eq]

def fixByte (mfdev : Bool) (x : BitVec 8) : BitVec 8 :=
  if mfdev then (x &&& 0x7f) ||| 0x80 else x &&& 0x7f

theorem setWidth_append (x y : BitVec 8) : (x ++ y).setWidth 32 = (0#8 ++ 0#8) ++ (x ++ y) := by
  refine BitVec.eq_of_toNat_eq ?_
  rw [BitVec.toNat_setWidth_of_le (by decide), toNat_append (0#8 ++ 0#8)]
  simp

theorem fixByte_byte (mfdev : Bool) : ∀ x : BitVec 8, (if mfdev then
      (x.setWidth 32 &&& ~~~PCIM_MFDEV) ||| PCIM_MFDEV else x.setWidth 32 &&& ~~~PCIM_MFDEV) =
    (fixByte mfdev x).setWidth 32 := by
  cases mfdev <;> decide

/-- In a 2-byte access the fix-up reaches the byte above the header type. -/
theorem fixByte_word (mfdev : Bool) (x y : BitVec 8) : (if mfdev then
      ((x ++ y).setWidth 32 &&& ~~~PCIM_MFDEV) ||| PCIM_MFDEV
      else (x ++ y).setWidth 32 &&& ~~~PCIM_MFDEV) = (x ++ fixByte mfdev y).setWidth 32 := by
  have hNot : ~~~PCIM_MFDEV = (0xff#8 ++ 0xff#8) ++ (BitVec.allOnes 8 ++ 0x7f#8) := rfl
  have hBit : PCIM_MFDEV = (0#8 ++ 0#8) ++ (0#8 ++ 0x80#8) := rfl
  have hOff : (x ++ y).setWidth 32 &&& ~~~PCIM_MFDEV = (x ++ (y &&& 0x7f)).setWidth 32 := by
    rw [hNot, setWidth_append, setWidth_append, BitVec.and_append, @BitVec.and_append _ _ x,
      BitVec.and_allOnes]
    rfl
  cases mfdev with
  | false => exact hOff
  | true =>
    rw [if_pos rfl, hOff, setWidth_append, hBit, BitVec.or_append, @BitVec.or_append _ _ x,
      BitVec.or_zero, setWidth_append]
    rfl

/-- In a 4-byte access it reaches the byte below. -/
theorem fixByte_dword (mfdev : Bool) (x y : BitVec 8) (z : BitVec 16) : (if mfdev then
      (((x ++ y) ++ z) &&& ~~~(PCIM_MFDEV <<< 16)) ||| PCIM_MFDEV <<< 16
      else ((x ++ y) ++ z) &&& ~~~(PCIM_MFDEV <<< 16)) = (x ++ fixByte mfdev y) ++ z := by
  have hNot : ~~~(PCIM_MFDEV <<< 16) = (BitVec.allOnes 8 ++ 0x7f#8) ++ BitVec.allOnes 16 := rfl
  have hBit : PCIM_MFDEV <<< 16 = (0#8 ++ 0x80#8) ++ 0#16 := rfl
  have hOff : ((x ++ y) ++ z) &&& ~~~(PCIM_MFDEV <<< 16) = (x ++ (y &&& 0x7f)) ++ z := by
    rw [hNot, BitVec.and_append, BitVec.and_append, BitVec.and_allOnes, BitVec.and_allOnes]
    rfl
  cases mfdev with
  | false => exact hOff
  | true =>
    rw [if_pos rfl, hOff, hBit, BitVec.or_append, BitVec.or_append, BitVec.or_zero, BitVec.or_zero]
    rfl

variable {s : Pci T} {b : Bdf} {pi : PciDevinst} {off : Nat}

theorem Pci.read_eq (hDevi : s.fiDevi b = some pi) {bytes : Nat} (hBytes : Width bytes)
    (hAlign : off % bytes = 0) (hLow : off ≤ PCI_REGMAX) : s.read b off bytes =
      (pi.cfgRead off bytes).map (s.pciEmulHdrtypeFixup b.bus b.slot off bytes) := by
  have hGood : ¬ (bytes ≠ 1 ∧ bytes ≠ 2 ∧ bytes ≠ 4 ∨ off % bytes ≠ 0) := by
    simp only [Width] at hBytes
    omega
  unfold Pci.read Pci.pciCfgrw
  simp only [hDevi, if_neg hGood, if_neg (Nat.not_le.mpr (Nat.lt_succ_of_le hLow)), if_true]
  cases pi.cfgRead off bytes <;> rfl

theorem fixup_byte (x : BitVec 8) : s.pciEmulHdrtypeFixup b.bus b.slot off 1 (x.setWidth 32) =
    (if off = PCIR_HDRTYPE then fixByte (s.pciEmulIsMfdev b.bus b.slot) x else x).setWidth 32 := by
  have hHdrtype : PCIR_HDRTYPE = 14 := rfl
  unfold Pci.pciEmulHdrtypeFixup
  by_cases hAt : off = PCIR_HDRTYPE
  · have hReach : off ≤ PCIR_HDRTYPE ∧ off + 1 > PCIR_HDRTYPE := by omega
    rw [if_pos hReach, if_pos hAt]
    exact fixByte_byte _ x
  · have hReach : ¬ (off ≤ PCIR_HDRTYPE ∧ off + 1 > PCIR_HDRTYPE) := by omega
    rw [if_neg hReach, if_neg hAt]

theorem fixup_word (hAlign : off % 2 = 0) (x y : BitVec 8) :
    s.pciEmulHdrtypeFixup b.bus b.slot off 2 ((x ++ y).setWidth 32) = (x ++
      (if off = PCIR_HDRTYPE then fixByte (s.pciEmulIsMfdev b.bus b.slot) y else y)).setWidth 32 := by
  have hHdrtype : PCIR_HDRTYPE = 14 := rfl
  unfold Pci.pciEmulHdrtypeFixup
  by_cases hAt : off = PCIR_HDRTYPE
  · have hReach : off ≤ PCIR_HDRTYPE ∧ off + 2 > PCIR_HDRTYPE := by omega
    rw [if_pos hReach, if_pos hAt]
    exact fixByte_word _ x y
  · have hReach : ¬ (off ≤ PCIR_HDRTYPE ∧ off + 2 > PCIR_HDRTYPE) := by omega
    rw [if_neg hReach, if_neg hAt]

theorem fixup_dword (hAlign : off % 4 = 0) (x y : BitVec 8) (z : BitVec 16) :
    s.pciEmulHdrtypeFixup b.bus b.slot off 4 ((x ++ y) ++ z) = (x ++
      (if off = 0xC then fixByte (s.pciEmulIsMfdev b.bus b.slot) y else y)) ++ z := by
  have hHdrtype : PCIR_HDRTYPE = 14 := rfl
  unfold Pci.pciEmulHdrtypeFixup
  by_cases hAt : off = 0xC
  · have hReach : off ≤ PCIR_HDRTYPE ∧ off + 4 > PCIR_HDRTYPE := by omega
    rw [if_pos hReach, if_pos hAt]
    exact fixByte_dword _ x y z
  · have hReach : ¬ (off ≤ PCIR_HDRTYPE ∧ off + 4 > PCIR_HDRTYPE) := by omega
    rw [if_neg hReach, if_neg hAt]

theorem Pci.read_byte (hDevi : s.fiDevi b = some pi) (hLow : off ≤ PCI_REGMAX) :
    s.read b off 1 = .ok ((if off = PCIR_HDRTYPE then
      fixByte (s.pciEmulIsMfdev b.bus b.slot) (pi.piCfgdata off) else pi.piCfgdata off).setWidth 32) := by
  have hAccess : CfgAccess off 1 := ⟨Nat.succ_le_succ hLow, Nat.mod_one off⟩
  have hRead : pi.cfgRead off 1 = .ok ((pi.piCfgdata off).setWidth 32) := if_pos hAccess
  rw [Pci.read_eq hDevi (.inl rfl) (Nat.mod_one off) hLow, hRead]
  exact congrArg Except.ok (fixup_byte _)

theorem Pci.read_word (hDevi : s.fiDevi b = some pi) (hAlign : off % 2 = 0)
    (hLow : off ≤ PCI_REGMAX) : s.read b off 2 = .ok ((pi.piCfgdata off ++ (if off = PCIR_HDRTYPE then
      fixByte (s.pciEmulIsMfdev b.bus b.slot) (pi.piCfgdata (off + 1))
      else pi.piCfgdata (off + 1))).setWidth 32) := by
  have hAccess : CfgAccess off 2 := ⟨by simp only [PCI_REGMAX] at hLow ⊢; omega, hAlign⟩
  have hRead : pi.cfgRead off 2 = .ok ((pi.piCfgdata off ++ pi.piCfgdata (off + 1)).setWidth 32) :=
    if_pos hAccess
  rw [Pci.read_eq hDevi (.inr (.inl rfl)) hAlign hLow, hRead]
  exact congrArg Except.ok (fixup_word hAlign _ _)

theorem Pci.read_dword (hDevi : s.fiDevi b = some pi) (hAlign : off % 4 = 0)
    (hLow : off ≤ PCI_REGMAX) : s.read b off 4 = .ok ((pi.piCfgdata off ++ (if off = 0xC then
      fixByte (s.pciEmulIsMfdev b.bus b.slot) (pi.piCfgdata (off + 1))
      else pi.piCfgdata (off + 1))) ++ (pi.piCfgdata (off + 2) ++ pi.piCfgdata (off + 3))) := by
  have hAccess : CfgAccess off 4 := ⟨by simp only [PCI_REGMAX] at hLow ⊢; omega, hAlign⟩
  have hRead : pi.cfgRead off 4 = .ok ((pi.piCfgdata off ++ pi.piCfgdata (off + 1)) ++
      (pi.piCfgdata (off + 2) ++ pi.piCfgdata (off + 3))) := if_pos hAccess
  rw [Pci.read_eq hDevi (.inr (.inr rfl)) hAlign hLow, hRead]
  exact congrArg Except.ok (fixup_dword hAlign _ _ _)

/-- The reads of one dword agree in little-endian order at all widths. -/
def Pci.ReadsAgree (s : Pci T) (b : Bdf) (coff : Nat) : Prop :=
  ∃ dword low high byte0 byte1 byte2 byte3, s.read b coff 4 = .ok dword ∧
    s.read b coff 2 = .ok low ∧ s.read b (coff + 2) 2 = .ok high ∧
    s.read b coff 1 = .ok byte0 ∧ s.read b (coff + 1) 1 = .ok byte1 ∧
    s.read b (coff + 2) 1 = .ok byte2 ∧ s.read b (coff + 3) 1 = .ok byte3 ∧
    dword.toNat = low.toNat + 65536 * high.toNat ∧
    low.toNat = byte0.toNat + 256 * byte1.toNat ∧ high.toNat = byte2.toNat + 256 * byte3.toNat

def SameBytes (pi : PciDevinst) (coff : Nat) : Prop :=
  pi.piCfgdata (coff + 1) = pi.piCfgdata coff ∧ pi.piCfgdata (coff + 2) = pi.piCfgdata coff ∧
    pi.piCfgdata (coff + 3) = pi.piCfgdata coff

theorem toNat_byte (x : BitVec 8) : (x.setWidth 32).toNat = x.toNat :=
  BitVec.toNat_setWidth_of_le (by decide)

theorem toNat_word (x y : BitVec 8) : ((x ++ y).setWidth 32).toNat = x.toNat * 256 + y.toNat := by
  have hByte : 2 ^ 8 = 256 := by decide
  rw [BitVec.toNat_setWidth_of_le (by decide), toNat_append, hByte]

theorem toNat_dword (w x y z : BitVec 8) : ((w ++ x) ++ (y ++ z)).toNat =
    (w.toNat * 256 + x.toNat) * 65536 + (y.toNat * 256 + z.toNat) := by
  have hByte : 2 ^ 8 = 256 := by decide
  have hWord : 2 ^ (8 + 8) = 65536 := by decide
  rw [toNat_append, toNat_append, toNat_append, hByte, hWord]

/-- Big-endian reads agree in little-endian order only where there is no order to speak of. -/
theorem readsAgree_iff (hDevi : s.fiDevi b = some pi) {coff : Nat} (hAlign : coff % 4 = 0)
    (hLow : coff ≤ PCI_REGMAX) : s.ReadsAgree b coff ↔ SameBytes pi coff := by
  have hHdrtype : PCIR_HDRTYPE = 14 := rfl
  have hRegmax : PCI_REGMAX = 255 := rfl
  have hDword := Pci.read_dword hDevi hAlign hLow
  have hLowWord := @Pci.read_word _ _ _ _ coff hDevi (by omega) hLow
  have hHighWord := @Pci.read_word _ _ _ _ (coff + 2) hDevi (by omega) (by omega)
  have hByte0 := @Pci.read_byte _ _ _ _ coff hDevi (by omega)
  have hByte1 := @Pci.read_byte _ _ _ _ (coff + 1) hDevi (by omega)
  have hByte2 := @Pci.read_byte _ _ _ _ (coff + 2) hDevi (by omega)
  have hByte3 := @Pci.read_byte _ _ _ _ (coff + 3) hDevi (by omega)
  rw [if_neg (by omega)] at hLowWord hByte0 hByte1 hByte3
  -- the fix-up reaches the dword at 0xC in three places
  generalize hFix1 : (if coff = 0xC then _ else _ : BitVec 8) = fix1 at hDword
  generalize hFix2 : (if coff + 2 = PCIR_HDRTYPE then _ else _ : BitVec 8) = fix2 at hByte2
  generalize hFix3 : (if coff + 2 = PCIR_HDRTYPE then _ else _ : BitVec 8) = fix3 at hHighWord
  have hAgree : s.ReadsAgree b coff ↔
      ((pi.piCfgdata coff).toNat * 256 + fix1.toNat) * 65536 +
        ((pi.piCfgdata (coff + 2)).toNat * 256 + (pi.piCfgdata (coff + 3)).toNat) =
      (pi.piCfgdata coff).toNat * 256 + (pi.piCfgdata (coff + 1)).toNat +
        65536 * ((pi.piCfgdata (coff + 2)).toNat * 256 + fix3.toNat) ∧
      (pi.piCfgdata coff).toNat * 256 + (pi.piCfgdata (coff + 1)).toNat =
        (pi.piCfgdata coff).toNat + 256 * (pi.piCfgdata (coff + 1)).toNat ∧
      (pi.piCfgdata (coff + 2)).toNat * 256 + fix3.toNat =
        fix2.toNat + 256 * (pi.piCfgdata (coff + 3)).toNat := by
    simp only [Pci.ReadsAgree, hDword, hLowWord, hHighWord, hByte0, hByte1, hByte2, hByte3,
      Except.ok.injEq, exists_and_left, exists_eq_left', toNat_dword, toNat_word, toNat_byte]
  rw [hAgree]
  constructor
  · rintro ⟨hWords, hBytes, -⟩
    have hBound := fun i => (pi.piCfgdata i).isLt
    have hBound0 := hBound coff
    have hBound1 := hBound (coff + 1)
    have hBound2 := hBound (coff + 2)
    have hBound3 := hBound (coff + 3)
    refine ⟨?_, ?_, ?_⟩ <;> refine BitVec.eq_of_toNat_eq ?_ <;> omega
  · rintro ⟨h1, h2, h3⟩
    rw [h1] at hFix1
    rw [h2] at hFix2
    rw [show coff + 2 + 1 = coff + 3 from rfl, h3] at hFix3
    have hSame : fix1 = fix2 ∧ fix2 = fix3 := by
      refine ⟨?_, hFix2.symm.trans hFix3⟩
      rw [← hFix1, ← hFix2]
      by_cases hAt : coff = 0xC
      · rw [if_pos hAt, if_pos (by omega)]
      · rw [if_neg hAt, if_neg (by omega)]
    obtain ⟨rfl, rfl⟩ := hSame
    rw [h1, h2, h3]
    omega

end Reads

section Writes

variable {s : Pci T} {b : Bdf} {pi : PciDevinst} {m : Registry T}

/-- A 4-byte write has the effect of its halves, the low one first. -/
def Pci.WritesAgree (s : Pci T) (b : Bdf) (coff : Nat) (val : BitVec 32) : Prop :=
  s.write ⟨b, coff, 4, val⟩ = (s.write ⟨b, coff, 2, val &&& 0xffff⟩ >>= fun t =>
    t.write ⟨b, coff + 2, 2, val >>> 16⟩)

theorem low_half (val : BitVec 32) : (val &&& 0xffff).setWidth 16 = val.extractLsb' 0 16 := by
  refine BitVec.eq_of_getLsbD_eq fun i hi => ?_
  have hMask : ∀ i < 16, (0xffff : BitVec 32).getLsbD i = true := by decide
  simp only [BitVec.getLsbD_setWidth, BitVec.getLsbD_and, BitVec.getLsbD_extractLsb', hi,
    hMask i hi, decide_true, Bool.true_and, Bool.and_true, Nat.zero_add]

theorem high_half (val : BitVec 32) : (val >>> 16).setWidth 16 = val.extractLsb' 16 16 := by
  refine BitVec.eq_of_getLsbD_eq fun i hi => ?_
  simp only [BitVec.getLsbD_setWidth, BitVec.getLsbD_ushiftRight, BitVec.getLsbD_extractLsb']

/-- Storing through a mask changes nothing exactly if the bits it lets through are there. -/
theorem masked_eq_iff {w : Nat} (x y mask : BitVec w) :
    (x &&& mask) ||| (y &&& ~~~mask) = y ↔ x &&& mask = y &&& mask := by
  constructor
  · intro h
    refine BitVec.eq_of_getLsbD_eq fun i hi => ?_
    have hBit := congrArg (BitVec.getLsbD · i) h
    simp only [BitVec.getLsbD_or, BitVec.getLsbD_and, BitVec.getLsbD_not, hi, decide_true,
      Bool.true_and] at hBit ⊢
    cases hMask : mask.getLsbD i <;> simp_all
  · intro h
    rw [h]
    refine BitVec.eq_of_getLsbD_eq fun i hi => ?_
    simp only [BitVec.getLsbD_or, BitVec.getLsbD_and, BitVec.getLsbD_not, hi, decide_true,
      Bool.true_and]
    cases mask.getLsbD i <;> simp

/-- The bits of `COMMAND` that software may write; the mask means them for `STATUS` too. -/
def commandBits : BitVec 16 := 0x077F

theorem cmdstsWrite_command (pi : PciDevinst) (m : Registry T) (new : BitVec 32) :
    let pi' := pi.pciSetCfgdata16 4 ((new.setWidth 16 &&& commandBits) |||
      (pi.pciGetCfgdata16 4 &&& ~~~commandBits))
    pciEmulCmdstsWrite pi m 4 new 2 = (run (decodeBar pi' (pi.pciGetCfgdata16 PCIR_COMMAND ^^^
      pi'.pciGetCfgdata16 PCIR_COMMAND)) m bars).map fun m' => (pi'.pciLintrUpdate, m') := by
  have hMasked : ∀ old : BitVec 16, (cmdstsWord 4 new (old.setWidth 32)).setWidth 16 =
      (new.setWidth 16 &&& commandBits) ||| (old &&& ~~~commandBits) := by
    intro old
    rw [cmdstsWord_dword, BitVec.setWidth_or, BitVec.setWidth_and, BitVec.setWidth_and,
      BitVec.setWidth_setWidth_of_le _ (by decide), BitVec.setWidth_eq]
    rfl
  have hRead : pi.cfgRead 4 2 = .ok ((pi.pciGetCfgdata16 4).setWidth 32) := rfl
  have hWrite : ∀ val : BitVec 32, pi.cfgWrite 4 val 2 = .ok (pi.pciSetCfgdata16 4 (val.setWidth 16)) :=
    fun _ => rfl
  intro pi'
  have hStored : pi.pciSetCfgdata16 4 ((cmdstsWord 4 new
      ((pi.pciGetCfgdata16 4).setWidth 32)).setWidth 16) = pi' := by
    rw [hMasked]
  unfold pciEmulCmdstsWrite
  simp only [hRead, hWrite, ok_bind]
  unfold cmdstsWord at hStored
  rw [hStored]
  cases run (decodeBar pi' _) m bars <;> rfl

/-- A 2-byte write of `STATUS` stores nothing new. -/
theorem cmdstsWrite_status (pi : PciDevinst) (m : Registry T) (new : BitVec 32) :
    pciEmulCmdstsWrite pi m 6 new 2 = .ok (pi.pciLintrUpdate, m) := by
  have hMasked : ∀ old : BitVec 16, (cmdstsWord 6 new (old.setWidth 32)).setWidth 16 = old := by
    intro old
    have hWord : cmdstsWord 6 new (old.setWidth 32) =
        (new &&& 0xffff0000#32) ||| (old.setWidth 32 &&& 0xffff#32) := rfl
    rw [hWord, BitVec.setWidth_or, BitVec.setWidth_and, BitVec.setWidth_and,
      BitVec.setWidth_setWidth_of_le _ (by decide), BitVec.setWidth_eq]
    show (new.setWidth 16 &&& 0#16) ||| (old &&& BitVec.allOnes 16) = old
    rw [BitVec.and_zero, BitVec.zero_or, BitVec.and_allOnes]
  have hRead : pi.cfgRead 6 2 = .ok ((pi.pciGetCfgdata16 6).setWidth 32) := rfl
  have hWrite : ∀ val : BitVec 32, pi.cfgWrite 6 val 2 = .ok (pi.pciSetCfgdata16 6 (val.setWidth 16)) :=
    fun _ => rfl
  have hStored : pi.pciSetCfgdata16 6 ((cmdstsWord 6 new
      ((pi.pciGetCfgdata16 6).setWidth 32)).setWidth 16) = pi := by
    rw [hMasked, set16_self]
  have hBars : ∀ i ∈ bars, i ≤ PCI_BARMAX := fun i hi => Nat.lt_succ_iff.mp (List.mem_range.mp hi)
  unfold pciEmulCmdstsWrite
  simp only [hRead, hWrite, ok_bind]
  unfold cmdstsWord at hStored
  rw [hStored, BitVec.xor_self, decodeBars_kept (by simp) hBars]
  rfl

theorem pciLintrUpdate_idem (pi : PciDevinst) :
    pi.pciLintrUpdate.pciLintrUpdate = pi.pciLintrUpdate := by
  have hPermitted : ∀ state irq, ({ pi with lintrState := state, irq := irq } :
      PciDevinst).pciLintrPermitted = pi.pciLintrPermitted := fun _ _ => rfl
  unfold pciLintrUpdate
  cases hState : pi.lintrState <;> cases hOn : pi.pciLintrPermitted <;> simp [hPermitted, hOn, hState]

theorem Pci.write_cmdsts (hDevi : s.fiDevi b = some pi) {coff bytes : Nat} (hBytes : Width bytes)
    (hAlign : coff % bytes = 0) (hCmd : PCIR_COMMAND ≤ coff ∧ coff < PCIR_REVID) (val : BitVec 32) :
    s.write ⟨b, coff, bytes, val⟩ = (pciEmulCmdstsWrite pi s.registry coff val bytes).map
      fun r => s.replaceDevi r.1 r.2 := by
  have hFour : 4 ≤ coff ∧ coff < 8 := hCmd
  have hBar : ¬ (PCIR_BAR 0 ≤ coff ∧ coff < PCIR_BAR (PCI_BARMAX + 1)) := by
    simp only [PCIR_BAR]
    omega
  have hCap : ¬ pi.pciEmulIscap coff = true := by
    intro hCap
    simp only [pciEmulIscap, decide_eq_true_eq] at hCap
    have hAbove : 0x40 ≤ coff := hCap.2.1
    omega
  have hWrite : pciCfgwrite pi s.registry coff bytes val = _ :=
    (if_neg hBar).trans ((if_neg hCap).trans (if_pos hCmd))
  have hLow : coff ≤ PCI_REGMAX := Nat.le_trans (Nat.le_of_lt hCmd.2) (by decide)
  rw [Pci.write_eq (w := ⟨b, coff, bytes, val⟩) hDevi hBytes hAlign hLow, hWrite]

theorem replaceDevi_twice (s : Pci T) {x y : PciDevinst} (hBdf : y.bdf = x.bdf)
    (m m' : Registry T) : (s.replaceDevi x m).replaceDevi y m' = s.replaceDevi y m' := by
  simp only [Pci.replaceDevi, Pci.setDevi, hBdf, Function.update_idem]

theorem replaceDevi_self (hDevi : s.fiDevi b = some pi) (hBdf : pi.bdf = b) :
    s.replaceDevi pi s.registry = s := by
  subst hBdf
  have hSame : Function.update s.fiDevi pi.bdf (some pi) = s.fiDevi := by
    rw [← hDevi, Function.update_eq_self]
  simp only [Pci.replaceDevi, Pci.setDevi, hSame]

theorem replaceDevi_inj {x y : PciDevinst} (hx : x.bdf = pi.bdf) (hy : y.bdf = pi.bdf) :
    s.replaceDevi x m = s.replaceDevi y m ↔ x = y := by
  refine ⟨fun h => ?_, fun h => h ▸ rfl⟩
  have hDevices := congrFun (congrArg Pci.fiDevi h) pi.bdf
  rw [s.replaceDevi_fiDevi m hx, s.replaceDevi_fiDevi m hy] at hDevices
  exact Option.some.inj hDevices

/-- The command and status words: the write at once leaves `COMMAND` and changes `STATUS`, the
halves one after the other do the opposite. -/
theorem writesAgree_command_iff (hDevi : s.fiDevi b = some pi) (hBdf : pi.bdf = b)
    (val : BitVec 32) : s.WritesAgree b PCIR_COMMAND val ↔
      val.extractLsb' 0 16 &&& commandBits = pi.pciGetCfgdata16 PCIR_COMMAND &&& commandBits ∧
      val.extractLsb' 0 16 &&& commandBits = pi.pciGetCfgdata16 PCIR_STATUS &&& commandBits := by
  rw [← masked_eq_iff, ← masked_eq_iff]
  generalize hCommand : (val.extractLsb' 0 16 &&& commandBits) |||
    (pi.pciGetCfgdata16 PCIR_COMMAND &&& ~~~commandBits) = command
  generalize hStatus : (val.extractLsb' 0 16 &&& commandBits) |||
    (pi.pciGetCfgdata16 PCIR_STATUS &&& ~~~commandBits) = status
  have hAll : s.write ⟨b, 4, 4, val⟩ =
      .ok (s.replaceDevi (pi.pciSetCfgdata16 6 status).pciLintrUpdate s.registry) := by
    have hWrite := cmdstsWrite_dword pi s.registry val
    have hMask : (0xF880 : BitVec 16) = ~~~commandBits := rfl
    rw [hMask, show (0x077F : BitVec 16) = commandBits from rfl,
      show pi.pciGetCfgdata16 6 = pi.pciGetCfgdata16 PCIR_STATUS from rfl, hStatus] at hWrite
    rw [Pci.write_cmdsts hDevi (.inr (.inr rfl)) (by decide) (by decide), hWrite]
    rfl
  have hLow : s.write ⟨b, 4, 2, val &&& 0xffff⟩ =
      (run (decodeBar (pi.pciSetCfgdata16 4 command) (pi.pciGetCfgdata16 PCIR_COMMAND ^^^
        (pi.pciSetCfgdata16 4 command).pciGetCfgdata16 PCIR_COMMAND)) s.registry bars).map
          (s.replaceDevi (pi.pciSetCfgdata16 4 command).pciLintrUpdate) := by
    have hWrite := cmdstsWrite_command pi s.registry (val &&& 0xffff)
    rw [low_half, show pi.pciGetCfgdata16 4 = pi.pciGetCfgdata16 PCIR_COMMAND from rfl,
      hCommand] at hWrite
    rw [Pci.write_cmdsts hDevi (.inr (.inl rfl)) (by decide) (by decide), hWrite]
    generalize run (decodeBar _ _) s.registry bars = decoded
    cases decoded <;> rfl
  have hHigh : ∀ (t : Pci T) x, t.fiDevi b = some x → t.write ⟨b, 6, 2, val >>> 16⟩ =
      .ok (t.replaceDevi x.pciLintrUpdate t.registry) := by
    intro t x hx
    rw [Pci.write_cmdsts hx (.inr (.inl rfl)) (by decide) (by decide), cmdstsWrite_status]
    rfl
  have hStatusFrame : ∀ val' : BitVec 16,
      (pi.pciSetCfgdata16 4 val').pciGetCfgdata16 6 = pi.pciGetCfgdata16 6 := by
    refine fun val' => (frame_set16 pi 4 val').get16 fun i hi hAt => ?_
    simp only [InAccess] at hAt
    omega
  have hCommandFrame : ∀ val' : BitVec 16,
      (pi.pciSetCfgdata16 6 val').pciGetCfgdata16 4 = pi.pciGetCfgdata16 4 := by
    refine fun val' => (frame_set16 pi 6 val').get16 fun i hi hAt => ?_
    simp only [InAccess] at hAt
    omega
  show s.write ⟨b, 4, 4, val⟩ = (s.write ⟨b, 4, 2, val &&& 0xffff⟩ >>= fun t =>
    t.write ⟨b, 6, 2, val >>> 16⟩) ↔ _
  rw [hAll, hLow]
  constructor
  · intro h
    cases hDecoded : run (decodeBar (pi.pciSetCfgdata16 4 command) (pi.pciGetCfgdata16 PCIR_COMMAND ^^^
        (pi.pciSetCfgdata16 4 command).pciGetCfgdata16 PCIR_COMMAND)) s.registry bars with
    | error fault => simp [hDecoded, Except.map] at h
    | ok m' =>
      have hBdf' : (pi.pciSetCfgdata16 4 command).pciLintrUpdate.bdf = b :=
        (pciLintrUpdate_bdf _).trans hBdf
      rw [hDecoded] at h
      have hStates := Except.ok.inj (h.trans (hHigh _ _ (s.replaceDevi_fiDevi m' hBdf')))
      have hDevices := congrFun (congrArg Pci.fiDevi hStates) b
      have hBdfAll : (pi.pciSetCfgdata16 6 status).pciLintrUpdate.bdf = b :=
        (pciLintrUpdate_bdf _).trans hBdf
      rw [s.replaceDevi_fiDevi _ hBdfAll, pciLintrUpdate_idem, Pci.replaceDevi_fiDevi _ _ hBdf']
        at hDevices
      have hData := congrArg PciDevinst.piCfgdata (Option.some.inj hDevices)
      rw [pciLintrUpdate_piCfgdata, pciLintrUpdate_piCfgdata] at hData
      have hWords : ∀ off, (pi.pciSetCfgdata16 6 status).pciGetCfgdata16 off =
          (pi.pciSetCfgdata16 4 command).pciGetCfgdata16 off := by
        intro off
        simp only [pciGetCfgdata16, pciGetCfgdata8, hData]
      have hCommandSame := hWords 4
      have hStatusSame := hWords 6
      rw [hCommandFrame, get16_set16] at hCommandSame
      rw [hStatusFrame, get16_set16] at hStatusSame
      exact ⟨hCommandSame.symm, hStatusSame⟩
  · rintro ⟨rfl, rfl⟩
    have hBars : ∀ i ∈ bars, i ≤ PCI_BARMAX := fun i hi => Nat.lt_succ_iff.mp (List.mem_range.mp hi)
    have hBdf' : pi.pciLintrUpdate.bdf = b := (pciLintrUpdate_bdf pi).trans hBdf
    have hFour : pi.pciSetCfgdata16 4 (pi.pciGetCfgdata16 PCIR_COMMAND) = pi := set16_self 4
    have hSix : pi.pciSetCfgdata16 6 (pi.pciGetCfgdata16 PCIR_STATUS) = pi := set16_self 6
    rw [hFour, hSix, BitVec.xor_self, decodeBars_kept (by simp) hBars]
    refine Eq.symm ((hHigh _ _ (s.replaceDevi_fiDevi s.registry hBdf')).trans ?_)
    rw [pciLintrUpdate_idem, replaceDevi_twice _ rfl]
    rfl

theorem Chain.capSearch_of_mem {caps : List Cap} {stop : Nat} {c : Cap} {offset : Nat}
    (h : Chain pi.piCfgdata caps stop) (hMem : c ∈ caps) (hLow : c.off ≤ offset)
    (hHigh : offset < c.off + c.size) : pi.capSearch offset 256 CAP_START_OFFSET = .ok c.off := by
  have hIn := h.bounds hMem
  obtain ⟨d, hd, hLow', hHigh', hSearch⟩ := @Chain.capSearch_eq _ _ _ h offset (by omega) (by omega)
  obtain rfl : c = d := h.tiled.eq_of_covers (by decide) hMem hd ⟨hLow, hHigh⟩ ⟨hLow', hHigh'⟩
  exact hSearch

theorem not_bar_of_cap {coff : Nat} (hLow : CAP_START_OFFSET ≤ coff) :
    ¬ (PCIR_BAR 0 ≤ coff ∧ coff < PCIR_BAR (PCI_BARMAX + 1)) := by
  simp only [CAP_START_OFFSET, PCIR_BAR, PCI_BARMAX] at hLow ⊢
  omega

theorem Pci.write_cap (hDevi : s.fiDevi b = some pi) (hPresent : pi.capPresent = true)
    {coff bytes : Nat} (hBytes : Width bytes) (hAlign : coff % bytes = 0)
    (hLow : CAP_START_OFFSET ≤ coff) (hHigh : coff ≤ pi.piCapend) (hReg : coff ≤ PCI_REGMAX)
    (val : BitVec 32) : s.write ⟨b, coff, bytes, val⟩ =
      (pi.pciEmulCapwrite coff bytes val).map (s.replaceDevi · s.registry) := by
  have hCap : pi.pciEmulIscap coff = true := by
    simp only [capPresent, decide_eq_true_eq] at hPresent
    simp only [pciEmulIscap, decide_eq_true_eq]
    exact ⟨hPresent, hLow, hHigh⟩
  have hWrite : pciCfgwrite pi s.registry coff bytes val = _ :=
    (if_neg (not_bar_of_cap hLow)).trans (if_pos hCap)
  rw [Pci.write_eq (w := ⟨b, coff, bytes, val⟩) hDevi hBytes hAlign hReg, hWrite]
  cases pi.pciEmulCapwrite coff bytes val <;> rfl

theorem Pci.write_plain (hDevi : s.fiDevi b = some pi) (hPresent : pi.capPresent = false)
    {coff bytes : Nat} (hBytes : Width bytes) (hAlign : coff % bytes = 0)
    (hLow : CAP_START_OFFSET ≤ coff) (hReg : coff ≤ PCI_REGMAX)
    (val : BitVec 32) : s.write ⟨b, coff, bytes, val⟩ =
      (pi.cfgWrite coff val bytes).map (s.replaceDevi · s.registry) := by
  have hCap : ¬ pi.pciEmulIscap coff = true := by
    simp only [capPresent, decide_eq_false_iff_not] at hPresent
    simp only [pciEmulIscap, decide_eq_true_eq]
    exact fun h => hPresent h.1
  have hCmd : ¬ (PCIR_COMMAND ≤ coff ∧ coff < PCIR_REVID) := fun h =>
    absurd (Nat.lt_of_le_of_lt hLow h.2) (by decide)
  have hWrite : pciCfgwrite pi s.registry coff bytes val = _ :=
    (if_neg (not_bar_of_cap hLow)).trans ((if_neg hCap).trans (if_neg hCmd))
  rw [Pci.write_eq (w := ⟨b, coff, bytes, val⟩) hDevi hBytes hAlign hReg, hWrite]
  cases pi.cfgWrite coff val bytes <;> rfl

/-- The first dword of a capability: its lower half is read-only at both widths, as long as the
device shows its capabilities at all. -/
theorem writesAgree_cap_iff (hDevi : s.fiDevi b = some pi) (hBdf : pi.bdf = b) {caps : List Cap}
    {stop : Nat} {c : Cap} (hChain : Chain pi.piCfgdata caps stop) (hEnd : stop = pi.piCapend + 1)
    (hMem : c ∈ caps) (val : BitVec 32) : s.WritesAgree b c.off val ↔
      pi.capPresent = true ∨ val.extractLsb' 0 16 = val.extractLsb' 16 16 := by
  have hIn := hChain.bounds hMem
  have hBound := hChain.bound
  have hRegmax : PCI_REGMAX = 255 := rfl
  unfold Pci.WritesAgree
  cases hPresent : pi.capPresent with
  | true =>
    refine iff_of_true ?_ (.inl rfl)
    have hSearch := hChain.capSearch_of_mem hMem (Nat.le_refl c.off) (by omega)
    have hSearchHigh := hChain.capSearch_of_mem hMem (Nat.le_add_right c.off 2) (by omega)
    have hDword : pi.pciEmulCapwrite c.off 4 val = pi.capDispatch c.off (c.off + 2) 2 (val >>> 16) := by
      unfold pciEmulCapwrite
      rw [if_neg (not_not.mpr hIn.2.1), hSearch, ok_bind, assertThat_of _ (Nat.le_refl _), ok_bind,
        if_pos (.inl rfl), if_pos ⟨rfl, rfl⟩]
    have hWord : ∀ low, pi.pciEmulCapwrite c.off 2 low = .ok pi := by
      intro low
      unfold pciEmulCapwrite
      rw [if_neg (by omega), hSearch, ok_bind, assertThat_of _ (Nat.le_refl _), ok_bind,
        if_pos (.inl rfl), if_neg (by omega)]
      rfl
    have hBody : ∀ high, pi.pciEmulCapwrite (c.off + 2) 2 high =
        pi.capDispatch c.off (c.off + 2) 2 high := by
      intro high
      unfold pciEmulCapwrite
      rw [if_neg (by omega), hSearchHigh, ok_bind, assertThat_of _ (Nat.le_add_right _ 2), ok_bind,
        if_neg (by omega)]
    rw [Pci.write_cap hDevi hPresent (.inr (.inr rfl)) hIn.2.1 hIn.1 (by omega) (by omega), hDword,
      Pci.write_cap hDevi hPresent (.inr (.inl rfl)) (by omega) hIn.1 (by omega) (by omega), hWord]
    show _ = (s.replaceDevi pi s.registry).write ⟨b, c.off + 2, 2, val >>> 16⟩
    rw [replaceDevi_self hDevi hBdf, Pci.write_cap hDevi hPresent (.inr (.inl rfl)) (by omega)
      (by omega) (by omega) (by omega), hBody]
  | false =>
    have hDword : pi.cfgWrite c.off val 4 = .ok (pi.pciSetCfgdata32 c.off val) :=
      if_pos ⟨by omega, hIn.2.1⟩
    have hWord : ∀ (x : PciDevinst) off word, CfgAccess off 2 → x.cfgWrite off word 2 =
        .ok (x.pciSetCfgdata16 off (word.setWidth 16)) := fun x off word hAccess => if_pos hAccess
    have hPresent' : (pi.pciSetCfgdata16 c.off (val.extractLsb' 0 16)).capPresent = false := by
      rw [← hPresent, capPresent_eq, capPresent_eq]
      refine congrArg (BitVec.getLsbD · 4) ((frame_set16 pi c.off _).cfgdata 7 fun hAt => ?_)
      have hLow := Nat.le_trans hIn.1 hAt.1
      exact absurd hLow (by decide)
    rw [Pci.write_plain hDevi hPresent (.inr (.inr rfl)) hIn.2.1 hIn.1 (by omega), hDword,
      Pci.write_plain hDevi hPresent (.inr (.inl rfl)) (by omega) hIn.1 (by omega),
      hWord _ _ _ ⟨by omega, by omega⟩, low_half]
    show _ = (s.replaceDevi _ s.registry).write ⟨b, c.off + 2, 2, val >>> 16⟩ ↔ _
    have hBdf' : (pi.pciSetCfgdata16 c.off (val.extractLsb' 0 16)).bdf = b := hBdf
    rw [Pci.write_plain (s.replaceDevi_fiDevi s.registry hBdf') hPresent' (.inr (.inl rfl)) (by omega)
      (by omega) (by omega), hWord _ _ _ ⟨by omega, by omega⟩, high_half]
    have hIff : (pi.pciSetCfgdata32 c.off val = (pi.pciSetCfgdata16 c.off
        (val.extractLsb' 0 16)).pciSetCfgdata16 (c.off + 2) (val.extractLsb' 16 16)) ↔
        val.extractLsb' 0 16 = val.extractLsb' 16 16 := by
      constructor
      · intro hSame
        have hGet := congrArg (fun x => PciDevinst.pciGetCfgdata16 x c.off) hSame
        have hBelow : ∀ (x : PciDevinst) word, (x.pciSetCfgdata16 (c.off + 2) word).pciGetCfgdata16 c.off =
            x.pciGetCfgdata16 c.off := by
          refine fun x word => (frame_set16 x _ word).get16 fun i hi hAt => ?_
          simp only [InAccess] at hAt
          omega
        simp only [pciSetCfgdata32, hBelow, get16_set16] at hGet
        exact hGet.symm
      · intro hSame
        rw [pciSetCfgdata32, hSame]
    rw [← hIff]
    simp only [Except.map, Except.ok.injEq, Bool.false_eq_true, false_or]
    have hSameBdf : ((pi.pciSetCfgdata16 c.off (val.extractLsb' 0 16)).pciSetCfgdata16 (c.off + 2)
        (val.extractLsb' 16 16)).bdf = (pi.pciSetCfgdata16 c.off (val.extractLsb' 0 16)).bdf := rfl
    rw [replaceDevi_twice s hSameBdf]
    exact replaceDevi_inj (pi.set32_bdf _ _) rfl

/-- When accesses of different widths agree, for every state of a function. -/
theorem cfgWidths_agree_iff (hDevi : s.fiDevi b = some pi) (hBdf : pi.bdf = b) :
    (∀ coff, coff % 4 = 0 → coff < 256 → (s.ReadsAgree b coff ↔ SameBytes pi coff)) ∧
    (∀ val, s.WritesAgree b PCIR_COMMAND val ↔
      val.extractLsb' 0 16 &&& commandBits = pi.pciGetCfgdata16 PCIR_COMMAND &&& commandBits ∧
      val.extractLsb' 0 16 &&& commandBits = pi.pciGetCfgdata16 PCIR_STATUS &&& commandBits) ∧
    ∀ caps stop c val, Chain pi.piCfgdata caps stop → stop = pi.piCapend + 1 → c ∈ caps →
      c.id = PCIY_MSI → (s.WritesAgree b c.off val ↔
        pi.capPresent = true ∨ val.extractLsb' 0 16 = val.extractLsb' 16 16) := by
  refine ⟨fun coff hAlign hLow => readsAgree_iff hDevi hAlign (Nat.lt_succ_iff.mp hLow),
    writesAgree_command_iff hDevi hBdf, ?_⟩
  exact fun caps stop c val hChain hEnd hMem _ => writesAgree_cap_iff hDevi hBdf hChain hEnd hMem val

theorem cfgWidths_agree_iff_e82545 : ∃ (s : Pci unbalancedTree) (pi : PciDevinst),
    initPci unbalancedTree bhyvePciBuses = .ok s ∧ s.fiDevi ⟨0, 0, 0⟩ = some pi ∧
    (s.ReadsAgree ⟨0, 0, 0⟩ 0 ↔ SameBytes pi 0) := by
  obtain ⟨s, pi, hInit, hSetUp, hDevi, -⟩ := e82545_device
  refine ⟨s, pi, hInit, hDevi, ?_⟩
  exact (cfgWidths_agree_iff hDevi (hSetUp.bdf _ pi hDevi)).1 0 (by decide) (by decide)

/-- The 4-byte read of the IDs has the device ID in its lower half, and so has the 2-byte read at
offset 2. -/
theorem cfgWidths_differ : ¬ ∀ s : Pci unbalancedTree, initPci unbalancedTree bhyvePciBuses = .ok s →
    s.ReadsAgree ⟨0, 0, 0⟩ 0 := by
  intro hAll
  obtain ⟨s, pi, hInit, hSetUp, hDevi, -⟩ := e82545_device
  obtain ⟨dword, low, high, b0, b1, b2, b3, hDword, hLow, hHigh, -, -, -, -, hWords, -, -⟩ :=
    hAll s hInit
  have hReads : (initPci unbalancedTree bhyvePciBuses).toOption.bind (fun s =>
      (s.read ⟨0, 0, 0⟩ 0 4).toOption.bind fun dword => (s.read ⟨0, 0, 0⟩ 0 2).toOption.bind fun low =>
        (s.read ⟨0, 0, 0⟩ 2 2).toOption.map fun high =>
          decide (dword.toNat = low.toNat + 65536 * high.toNat)) = some false := by decide
  simp [hInit, hDword, hLow, hHigh, Except.toOption, hWords] at hReads

end Writes

end DeviceModel.PciEmul

import DeviceModel.PciBars
import DeviceModel.PciInit

/-!
# The state `init_pci` leaves behind

BARs are drawn from two memory pools that only grow, so their windows never meet.
`InitInv` carries this through every call of a `pe_init`; when `init_pci` is done
the registry holds the windows of all BARs and the ECFG window, and nothing else.
-/

set_option autoImplicit false

namespace DeviceModel.PciEmul

open SearchTree Interval Mem Fallible PowerOfTwo PciDevinst

variable {T : PciTree}

/-- Header bytes outside the command and status words, the BARs and the capabilities. -/
def PlainBytes (offset bytes : Nat) : Prop :=
  offset + bytes ≤ 4 ∨ 8 ≤ offset ∧ offset + bytes ≤ 0x10 ∨ 0x28 ≤ offset ∧ offset + bytes ≤ 0x34 ∨
    0x35 ≤ offset ∧ offset + bytes ≤ 0x40

instance (offset bytes : Nat) : Decidable (PlainBytes offset bytes) :=
  inferInstanceAs (Decidable (_ ∨ _))

namespace InitCall

def uses : InitCall → List Nat
  | pciEmulAllocPbar idx _ .mem64 _ => [idx, idx + 1]
  | pciEmulAllocPbar idx _ _ _ => [idx]
  | _ => []

/-- What a `pe_init` keeps to: plain header bytes, capabilities with a body, and BARs of sensible
size in registers it has not used yet. The host-based 4 GiB window is left aside. -/
def Allowed (used : List Nat) : InitCall → Prop
  | pciSetCfgdata8 offset _ => PlainBytes offset 1
  | pciSetCfgdata16 offset _ => PlainBytes offset 2
  | pciEmulAddCapability capdata => capdata.length ≠ 0
  | pciEmulAllocPbar idx _ type size => size.toNat < 2 ^ 62 ∧ idx ≤ PCI_BARMAX ∧ idx ∉ used ∧
      (type = .io ∨ type = .mem32 ∨ type = .mem64 ∧ idx + 1 ≤ PCI_BARMAX ∧ idx + 1 ∉ used ∧
        barSize .mem64 size ≠ 0x100000000)
  | pciLintrRequest => True

instance (used : List Nat) (c : InitCall) : Decidable (c.Allowed used) := by
  cases c <;> unfold Allowed <;> infer_instance

end InitCall

def Admissible : List Nat → List InitCall → Prop
  | _, [] => True
  | used, c :: cs => c.Allowed used ∧ Admissible (c.uses ++ used) cs

instance decidableAdmissible : (used : List Nat) → (cs : List InitCall) →
    Decidable (Admissible used cs)
  | _, [] => .isTrue trivial
  | used, c :: cs =>
    have := decidableAdmissible (c.uses ++ used) cs
    inferInstanceAs (Decidable (_ ∧ _))

/-- The devices decode nothing yet, although the registry holds the window of every BAR. -/
structure SetUp (s : Pci T) (others : Set PciRange) : Prop where
  ok : s.registry.Ok
  bdf : ∀ b pi, s.fiDevi b = some pi → pi.bdf = b
  bars : ∀ b pi, s.fiDevi b = some pi → pi.BarsOk
  off : ∀ b pi, s.fiDevi b = some pi → pi.memen = false
  exact : ∀ r, r ∈ s.registry.ranges ↔ r ∈ others ∨ ∃ b pi, s.fiDevi b = some pi ∧ r ∈ pi.windows

/-- Where the pools stand after `n` buses. -/
structure Pools (n : Nat) (s : Pci T) : Prop where
  low : s.pciEmulMembase32.toNat ≤ 0xFDC00000 + n * 2 ^ 21
  high : 2 ^ 32 ≤ s.pciEmulMembase64.toNat
  top : s.pciEmulMembase64.toNat ≤ 0xFD00000000 + n * 2 ^ 21
  placed : ∀ r ∈ s.registry.ranges,
    r.base + r.size ≤ s.pciEmulMembase32.toNat ∧ r.base + r.size ≤ 0xFDC00000 ∨
      2 ^ 32 ≤ r.base ∧ r.base + r.size ≤ s.pciEmulMembase64.toNat

structure InitInv (n : Nat) (s : Pci T) : Prop where
  setUp : SetUp s ∅
  pools : Pools n s

section Sizes

variable {type : PcibarType} {size : BitVec 64}

theorem roundedSize (hSize : size.toNat < 2 ^ 62) :
    (if size &&& (size - 1) ≠ 0 then (1 : BitVec 64) <<< (size.toNat.log2 + 1) else size) = 0 ∨
    ∃ k, k ≤ 62 ∧ (if size &&& (size - 1) ≠ 0 then (1 : BitVec 64) <<< (size.toNat.log2 + 1)
      else size) = BitVec.twoPow 64 k := by
  split
  · next hBits =>
    refine .inr ⟨size.toNat.log2 + 1, ?_, (BitVec.twoPow_eq 64 _).symm⟩
    have hNe : size.toNat ≠ 0 := by
      intro hZero
      obtain rfl : size = 0 := BitVec.eq_of_toNat_eq (by simpa using hZero)
      exact hBits (by decide)
    exact (Nat.log2_lt hNe).mpr hSize
  · next hBits =>
    by_cases hZero : size = 0
    · exact .inl hZero
    · obtain ⟨k, hk, hPow⟩ := exists_twoPow_iff.mp ⟨hZero, not_not.mp hBits⟩
      refine .inr ⟨k, ?_, hPow⟩
      rw [hPow, BitVec.toNat_twoPow_of_lt hk] at hSize
      exact Nat.le_of_lt ((Nat.pow_lt_pow_iff_right (by decide)).mp hSize)

/-- Memory BARs get a power of two from 16 on, I/O BARs one from 4 on. -/
theorem barSize_spec (hSize : size.toNat < 2 ^ 62) :
    ∃ k, (if type = .io then 2 else 4) ≤ k ∧ k ≤ 62 ∧ barSize type size = BitVec.twoPow 64 k := by
  have hLeast : ∀ j x, j < 64 → x = 0 ∨ (∃ k, k ≤ 62 ∧ x = BitVec.twoPow 64 k) → j ≤ 62 →
      ∃ k, j ≤ k ∧ k ≤ 62 ∧ (if x < BitVec.twoPow 64 j then BitVec.twoPow 64 j else x) =
        BitVec.twoPow 64 k := by
    intro j x hj hx hj62
    split
    · exact ⟨j, Nat.le_refl _, hj62, rfl⟩
    · next hGe =>
      rcases hx with rfl | ⟨k, hk, rfl⟩
      · refine absurd ?_ hGe
        rw [BitVec.lt_def, BitVec.toNat_twoPow_of_lt hj]
        exact Nat.two_pow_pos j
      · refine ⟨k, ?_, hk, rfl⟩
        rw [BitVec.lt_def, BitVec.toNat_twoPow_of_lt hj, BitVec.toNat_twoPow_of_lt (by omega)] at hGe
        exact (Nat.pow_le_pow_iff_right (by decide)).mp (Nat.le_of_not_lt hGe)
  unfold barSize
  by_cases hIo : type = .io
  · rw [if_pos hIo, if_pos hIo]
    exact hLeast 2 _ (by decide) (roundedSize hSize) (by decide)
  · rw [if_neg hIo, if_neg hIo]
    exact hLeast 4 _ (by decide) (roundedSize hSize) (by decide)

/-- An allocation is aligned, starts at or above the pool and ends within the limit. -/
theorem pciEmulAllocResource_spec {x limit : BitVec 64} {k : Nat} (hk : k ≤ 62)
    (hx : x.toNat < 2 ^ 62) :
    pciEmulAllocResource x limit (BitVec.twoPow 64 k) = .ok none ∨
    ∃ addr, pciEmulAllocResource x limit (BitVec.twoPow 64 k) =
        .ok (some (addr, addr + BitVec.twoPow 64 k)) ∧ LowZero k addr ∧ x.toNat ≤ addr.toNat ∧
      (addr + BitVec.twoPow 64 k).toNat = addr.toNat + 2 ^ k ∧ addr.toNat + 2 ^ k ≤ limit.toNat := by
  have hk64 : k < 64 := by omega
  have hPow : 2 ^ k ≤ 2 ^ 62 := Nat.pow_le_pow_right (by decide) hk
  have hPos : 0 < 2 ^ k := Nat.two_pow_pos k
  have hBase := toNat_roundUp hk64 (a := x) (by omega)
  rw [← roundup2] at hBase
  have hDiv := Nat.div_add_mod (x.toNat + (2 ^ k - 1)) (2 ^ k)
  have hMod := Nat.mod_lt (x.toNat + (2 ^ k - 1)) hPos
  rw [Nat.mul_comm, ← hBase] at hDiv
  have hTop : (roundup2 x (BitVec.twoPow 64 k) + BitVec.twoPow 64 k).toNat =
      (roundup2 x (BitVec.twoPow 64 k)).toNat + 2 ^ k := by
    rw [BitVec.toNat_add, BitVec.toNat_twoPow_of_lt hk64]
    exact Nat.mod_eq_of_lt (by omega)
  have hMask := (exists_twoPow_iff.mpr ⟨k, hk64, rfl⟩).2
  unfold pciEmulAllocResource
  rw [if_neg (not_not.mpr hMask)]
  dsimp only
  split
  · next hFits =>
    refine .inr ⟨_, rfl, LowZero.mask hk64 _, by omega, hTop, ?_⟩
    rw [BitVec.le_def, hTop] at hFits
    exact hFits
  · exact .inl rfl

end Sizes

section WriteBar

variable {pdi : PciDevinst} {idx : Nat} {type : PcibarType} {addr size bar : BitVec 64}

theorem writeBar_bdf : (writeBar pdi idx type addr size bar).bdf = pdi.bdf := by
  unfold writeBar
  split <;> simp only [set32_bdf, setBar_bdf]

theorem writeBar_piPrevcap :
    (writeBar pdi idx type addr size bar).piPrevcap = pdi.piPrevcap := by
  unfold writeBar
  split <;> simp only [set32_piPrevcap, setBar_piPrevcap]

theorem writeBar_piCapend : (writeBar pdi idx type addr size bar).piCapend = pdi.piCapend := by
  unfold writeBar
  split <;> simp only [set32_piCapend, setBar_piCapend]

theorem writeBar_cfgdata {off : Nat} (hOff : off < PCIR_BAR 0) :
    (writeBar pdi idx type addr size bar).piCfgdata off = pdi.piCfgdata off := by
  have hOut : ∀ i, ¬ InAccess (PCIR_BAR i) 4 off := by
    rintro i ⟨hLo, -⟩
    simp only [PCIR_BAR] at hOff hLo
    omega
  unfold writeBar
  split
  · rw [(frame_set32 _ _ _).cfgdata off (hOut _), setBar_piCfgdata,
      (frame_set32 _ _ _).cfgdata off (hOut _), setBar_piCfgdata]
  · rw [(frame_set32 _ _ _).cfgdata off (hOut _), setBar_piCfgdata]

theorem writeBar_piBar_self :
    (writeBar pdi idx type addr size bar).piBar idx = ⟨type, size, addr⟩ := by
  unfold writeBar
  split <;> simp [setBar]

theorem writeBar_piBar_of_ne {i : Nat} (hi : i ≠ idx) (hNext : type = .mem64 → i ≠ idx + 1) :
    (writeBar pdi idx type addr size bar).piBar i = pdi.piBar i := by
  unfold writeBar
  split
  · next h => simp [setBar, hi, hNext h]
  · simp [setBar, hi]

theorem writeBar_type_high (h : type = .mem64) :
    ((writeBar pdi idx type addr size bar).piBar (idx + 1)).type = .memhi64 := by
  unfold writeBar
  simp [h, setBar]

theorem get32_set32_of_ne {pi : PciDevinst} {i j : Nat} {val : BitVec 32} (h : i ≠ j) :
    (pi.pciSetCfgdata32 (PCIR_BAR j) val).pciGetCfgdata32 (PCIR_BAR i) =
      pi.pciGetCfgdata32 (PCIR_BAR i) := by
  refine (frame_set32 _ _ _).get32 ?_
  rintro k hk ⟨hLo, hHi⟩
  simp only [PCIR_BAR] at hLo hHi
  omega

theorem writeBar_dword_self :
    (writeBar pdi idx type addr size bar).pciGetCfgdata32 (PCIR_BAR idx) = bar.setWidth 32 := by
  unfold writeBar
  split
  · rw [get32_set32_of_ne (Nat.succ_ne_self idx).symm, setBar_get32, get32_set32]
  · exact get32_set32 _ _ _

theorem writeBar_dword_high (h : type = .mem64) :
    (writeBar pdi idx type addr size bar).pciGetCfgdata32 (PCIR_BAR (idx + 1)) =
      (bar >>> 32).setWidth 32 := by
  unfold writeBar
  rw [if_pos h]
  exact get32_set32 _ _ _

theorem writeBar_dword_of_ne {i : Nat} (hi : i ≠ idx) (hNext : type = .mem64 → i ≠ idx + 1) :
    (writeBar pdi idx type addr size bar).pciGetCfgdata32 (PCIR_BAR i) =
      pdi.pciGetCfgdata32 (PCIR_BAR i) := by
  unfold writeBar
  split
  · next h =>
    rw [get32_set32_of_ne (hNext h), setBar_get32, get32_set32_of_ne hi, setBar_get32]
  · rw [get32_set32_of_ne hi, setBar_get32]

theorem writeBar_memen : (writeBar pdi idx type addr size bar).memen = pdi.memen := by
  rw [memen_eq, memen_eq, writeBar_cfgdata (by decide)]

theorem writeBar_window_of_ne {i : Nat} (hi : i ≠ idx) (hNext : type = .mem64 → i ≠ idx + 1) :
    (writeBar pdi idx type addr size bar).window i = pdi.window i :=
  window_eq writeBar_bdf (writeBar_piBar_of_ne hi hNext)

/-- A BAR in registers that were free disturbs no other BAR. -/
theorem writeBar_barsOk (hBars : pdi.BarsOk) (hFree : (pdi.piBar idx).type = .none)
    (hNext : type = .mem64 → idx + 1 ≤ PCI_BARMAX ∧ (pdi.piBar (idx + 1)).type = .none)
    (hSelf : (writeBar pdi idx type addr size bar).BarOk idx) :
    (writeBar pdi idx type addr size bar).BarsOk := by
  intro i hi
  by_cases hIdx : i = idx
  · subst hIdx
    exact hSelf
  by_cases hHigh : type = .mem64 ∧ i = idx + 1
  · obtain ⟨hType, rfl⟩ := hHigh
    unfold BarOk
    rw [writeBar_type_high hType, Nat.add_sub_cancel, writeBar_piBar_self]
    exact ⟨Nat.succ_pos _, hType⟩
  have hApart : type = .mem64 → i ≠ idx + 1 := fun hType hEq => hHigh ⟨hType, hEq⟩
  have hBar := hBars i hi
  refine hBar.congr (by rw [writeBar_piBar_of_ne hIdx hApart])
    (fun _ => ⟨writeBar_piBar_of_ne hIdx hApart, writeBar_dword_of_ne hIdx hApart⟩)
    (fun hType => ?_) fun hType => ?_
  · unfold BarOk at hBar
    rw [hType] at hBar
    have hne : i + 1 ≠ idx := by
      rintro rfl
      simp [hFree] at hBar
    have hne' : type = .mem64 → i + 1 ≠ idx + 1 := fun _ h => hIdx (Nat.succ.inj h)
    exact ⟨by rw [writeBar_piBar_of_ne hne hne'], writeBar_dword_of_ne hne hne'⟩
  · unfold BarOk at hBar
    rw [hType] at hBar
    have hne : i - 1 ≠ idx := by
      rintro rfl
      simp [hFree] at hBar
    have hne' : type = .mem64 → i - 1 ≠ idx + 1 := by
      rintro hMem hEq
      rw [hEq, (hNext hMem).2] at hBar
      simp at hBar
    rw [writeBar_piBar_of_ne hne hne']

variable {k : Nat} {lobits : BitVec 64}

def FlagBits (lobits : BitVec 64) : Prop := ∀ i, 4 ≤ i → lobits.getLsbD i = false

theorem getLsbD_barDword (hFlags : FlagBits lobits) {i : Nat} (hi : 4 ≤ i) :
    ((addr &&& PCIM_BAR_MEM_BASE) ||| lobits).getLsbD i = addr.getLsbD i := by
  have hMask : PCIM_BAR_MEM_BASE = ~~~(BitVec.twoPow 64 4 - 1) := by decide
  rw [hMask, BitVec.getLsbD_or, getLsbD_and_mask (by decide), hFlags i hi]
  simp [hi]

theorem barDword_low (hAddr : LowZero k addr) (hk : 4 ≤ k) (hFlags : FlagBits lobits) :
    ((addr &&& PCIM_BAR_MEM_BASE) ||| lobits).setWidth 32 &&& 0xfffffff0 = addr.setWidth 32 := by
  have hMask : (0xfffffff0 : BitVec 32) = ~~~(BitVec.twoPow 32 4 - 1) := by decide
  refine BitVec.eq_of_getLsbD_eq fun i hi => ?_
  rw [hMask, getLsbD_and_mask (by decide), BitVec.getLsbD_setWidth, BitVec.getLsbD_setWidth]
  by_cases h4 : 4 ≤ i
  · rw [getLsbD_barDword hFlags h4]
    simp [h4]
  · simp [h4, hAddr i (by omega)]

theorem barDword_high (addr : BitVec 64) (hFlags : FlagBits lobits) :
    (((addr &&& PCIM_BAR_MEM_BASE) ||| lobits) >>> 32).setWidth 32 = (addr >>> 32).setWidth 32 := by
  refine BitVec.eq_of_getLsbD_eq fun i hi => ?_
  simp only [BitVec.getLsbD_setWidth, BitVec.getLsbD_ushiftRight]
  rw [getLsbD_barDword hFlags (by omega)]

theorem barDword_mem32 (hAddr : LowZero k addr) (hk : 4 ≤ k) :
    ((addr &&& PCIM_BAR_MEM_BASE) ||| 0).setWidth 32 = addr.setWidth 32 := by
  have hMask : PCIM_BAR_MEM_BASE = ~~~(BitVec.twoPow 64 4 - 1) := by decide
  refine BitVec.eq_of_getLsbD_eq fun i hi => ?_
  rw [BitVec.getLsbD_setWidth, BitVec.getLsbD_setWidth, hMask, BitVec.getLsbD_or,
    getLsbD_and_mask (by decide)]
  by_cases h4 : 4 ≤ i
  · simp [h4]
  · simp [h4, hAddr i (by omega)]

theorem writeBar_aligned (hk : 4 ≤ k) (hk' : k < 64) (hAddr : LowZero k addr) :
    ((writeBar pdi idx type addr (BitVec.twoPow 64 k) bar).piBar idx).Aligned := by
  rw [writeBar_piBar_self]
  exact ⟨k, hk, hk', rfl, hAddr⟩

theorem writeBar_barOk_mem32 (hk : 4 ≤ k) (hk' : k < 64) (hAddr : LowZero k addr)
    (hShort : addr.toNat < 2 ^ 32) : (writeBar pdi idx .mem32 addr (BitVec.twoPow 64 k)
      ((addr &&& PCIM_BAR_MEM_BASE) ||| 0)).BarOk idx := by
  have hAligned := @writeBar_aligned pdi idx .mem32 _
    ((addr &&& PCIM_BAR_MEM_BASE) ||| 0) _ hk hk' hAddr
  unfold BarOk
  rw [writeBar_piBar_self] at hAligned ⊢
  refine ⟨hAligned, ?_, by rw [writeBar_dword_self, barDword_mem32 hAddr hk]⟩
  refine BitVec.eq_of_toNat_eq ?_
  rw [BitVec.toNat_ushiftRight, Nat.shiftRight_eq_div_pow, Nat.div_eq_of_lt hShort]
  rfl

theorem writeBar_barOk_mem64 (hk : 4 ≤ k) (hk' : k < 64) (hAddr : LowZero k addr)
    (hFlags : FlagBits lobits) (hIdx : idx + 1 ≤ PCI_BARMAX) :
    (writeBar pdi idx .mem64 addr (BitVec.twoPow 64 k)
      ((addr &&& PCIM_BAR_MEM_BASE) ||| lobits)).BarOk idx := by
  have hAligned := @writeBar_aligned pdi idx .mem64 _
    ((addr &&& PCIM_BAR_MEM_BASE) ||| lobits) _ hk hk' hAddr
  unfold BarOk
  rw [writeBar_piBar_self] at hAligned ⊢
  exact ⟨hAligned, hIdx, writeBar_type_high rfl,
    by rw [writeBar_dword_self, barDword_low hAddr hk hFlags],
    by rw [writeBar_dword_high rfl, barDword_high addr hFlags]⟩

theorem writeBar_barOk_io :
    (writeBar pdi idx .io addr size bar).BarOk idx := by
  unfold BarOk
  rw [writeBar_piBar_self]
  trivial

theorem writeBar_isMem (hFree : (pdi.piBar idx).type = .none) (hIdx : idx ≤ PCI_BARMAX)
    (hNext : type = .mem64 → (pdi.piBar (idx + 1)).type = .none) {i : Nat} :
    (writeBar pdi idx type addr size bar).IsMem i ↔
      pdi.IsMem i ∨ i = idx ∧ (type = .mem32 ∨ type = .mem64) := by
  by_cases hIdx' : i = idx
  · subst hIdx'
    simp only [IsMem, Pcibar.isMem, writeBar_piBar_self, hFree]
    simp [hIdx]
  · by_cases hHigh : type = .mem64 ∧ i = idx + 1
    · obtain ⟨hType, rfl⟩ := hHigh
      simp only [IsMem, Pcibar.isMem, writeBar_type_high hType, hNext hType]
      simp
    · rw [IsMem, IsMem, writeBar_piBar_of_ne hIdx' fun hType hEq => hHigh ⟨hType, hEq⟩]
      simp [hIdx']

theorem writeBar_windows (hFree : (pdi.piBar idx).type = .none) (hIdx : idx ≤ PCI_BARMAX)
    (hNext : type = .mem64 → (pdi.piBar (idx + 1)).type = .none) (r : PciRange) :
    r ∈ (writeBar pdi idx type addr size bar).windows ↔ r ∈ pdi.windows ∨
      (type = .mem32 ∨ type = .mem64) ∧ r = (writeBar pdi idx type addr size bar).window idx := by
  have hKeep : ∀ i, pdi.IsMem i →
      (writeBar pdi idx type addr size bar).window i = pdi.window i := by
    intro i hMem
    refine writeBar_window_of_ne ?_ ?_
    · rintro rfl
      simp [IsMem, Pcibar.isMem, hFree] at hMem
    · rintro hType rfl
      simp [IsMem, Pcibar.isMem, hNext hType] at hMem
  simp only [windows, writeBar_isMem hFree hIdx hNext]
  constructor
  · rintro ⟨i, hMem | ⟨rfl, hType⟩, rfl⟩
    · exact .inl ⟨i, hMem, hKeep i hMem⟩
    · exact .inr ⟨hType, rfl⟩
  · rintro (⟨i, hMem, rfl⟩ | ⟨hType, rfl⟩)
    · exact ⟨i, .inl hMem, (hKeep i hMem).symm⟩
    · exact ⟨idx, .inr ⟨rfl, hType⟩, rfl⟩

end WriteBar

section Invariant

variable {n : Nat} {s s' : Pci T} {pi pi' : PciDevinst} {others : Set PciRange}

theorem setDevi_eq_some_iff {b : Bdf} {x : PciDevinst} :
    (s.setDevi pi).fiDevi b = some x ↔ b = pi.bdf ∧ x = pi ∨ b ≠ pi.bdf ∧ s.fiDevi b = some x := by
  by_cases hb : b = pi.bdf
  · subst hb
    simp [Pci.setDevi, eq_comm]
  · simp [Pci.setDevi, hb]

/-- One device may change, as long as the registry keeps up with its windows. -/
theorem SetUp.replace (h : SetUp (s.setDevi pi) others) (hDev : s'.fiDevi = s.fiDevi)
    (hBdf : pi'.bdf = pi.bdf) (hBars : pi'.BarsOk) (hOff : pi'.memen = false)
    (hOk : s'.registry.Ok) (hSub : ∀ r, r ∈ pi.windows → r ∈ pi'.windows)
    (hRanges : ∀ r, r ∈ s'.registry.ranges ↔ r ∈ s.registry.ranges ∨ r ∈ pi'.windows) :
    SetUp (s'.setDevi pi') others := by
  have hOther : ∀ b x, b ≠ pi.bdf → s.fiDevi b = some x → (s.setDevi pi).fiDevi b = some x :=
    fun b x hb hx => setDevi_eq_some_iff.mpr (.inr ⟨hb, hx⟩)
  refine ⟨hOk, fun b x hx => ?_, fun b x hx => ?_, fun b x hx => ?_, fun r => ?_⟩
  · rw [setDevi_eq_some_iff, hBdf, hDev] at hx
    rcases hx with ⟨rfl, rfl⟩ | ⟨hb, hx⟩
    · exact hBdf
    · exact h.bdf b x (hOther b x hb hx)
  · rw [setDevi_eq_some_iff, hBdf, hDev] at hx
    rcases hx with ⟨rfl, rfl⟩ | ⟨hb, hx⟩
    · exact hBars
    · exact h.bars b x (hOther b x hb hx)
  · rw [setDevi_eq_some_iff, hBdf, hDev] at hx
    rcases hx with ⟨rfl, rfl⟩ | ⟨hb, hx⟩
    · exact hOff
    · exact h.off b x (hOther b x hb hx)
  · have hBefore := h.exact r
    simp only [setDevi_eq_some_iff] at hBefore ⊢
    show r ∈ s'.registry.ranges ↔ _
    rw [hRanges, show s.registry.ranges = (s.setDevi pi).registry.ranges from rfl, hBefore, hBdf,
      hDev]
    constructor
    · rintro ((hr | ⟨b, x, ⟨rfl, rfl⟩ | hx, hr⟩) | hr)
      · exact .inl hr
      · exact .inr ⟨_, pi', .inl ⟨rfl, rfl⟩, hSub r hr⟩
      · exact .inr ⟨b, x, .inr hx, hr⟩
      · exact .inr ⟨_, pi', .inl ⟨rfl, rfl⟩, hr⟩
    · rintro (hr | ⟨b, x, ⟨rfl, rfl⟩ | hx, hr⟩)
      · exact .inl (.inl hr)
      · exact .inr hr
      · exact .inl (.inr ⟨b, x, .inr hx, hr⟩)

theorem InitInv.frame (h : InitInv n (s.setDevi pi)) {touched : Nat → Prop}
    (hFrame : Frame touched pi pi') (hApart : ∀ off, touched off → ¬ InBars off)
    (hFive : ¬ touched 5) (hDev : s'.fiDevi = s.fiDevi) (hRegistry : s'.registry = s.registry)
    (hLow : s'.pciEmulMembase32 = s.pciEmulMembase32)
    (hHigh : s'.pciEmulMembase64 = s.pciEmulMembase64) : InitInv n (s'.setDevi pi') := by
  have hSelf : (s.setDevi pi).fiDevi pi.bdf = some pi := setDevi_eq_some_iff.mpr (.inl ⟨rfl, rfl⟩)
  have hWindows : pi'.windows = pi.windows := by
    ext r
    simp only [windows, hFrame.sameLayout.isMem, hFrame.window]
  refine ⟨h.setUp.replace hDev hFrame.bdf (hFrame.bars hApart (h.setUp.bars _ _ hSelf))
    ((hFrame.memen hFive).trans (h.setUp.off _ _ hSelf)) (hRegistry ▸ h.setUp.ok)
    (fun r hr => hWindows ▸ hr) fun r => ?_, ⟨?_, ?_, ?_, ?_⟩⟩
  · rw [hRegistry, hWindows]
    refine ⟨.inl, ?_⟩
    rintro (hr | hr)
    · exact hr
    · exact (h.setUp.exact r).mpr (.inr ⟨_, pi, hSelf, hr⟩)
  · exact hLow ▸ h.pools.low
  · exact hHigh ▸ h.pools.high
  · exact hHigh ▸ h.pools.top
  · show ∀ r ∈ s'.registry.ranges, _ ≤ s'.pciEmulMembase32.toNat ∧ _ ∨
      _ ∧ _ ≤ s'.pciEmulMembase64.toNat
    rw [hRegistry, hLow, hHigh]
    exact h.pools.placed

theorem disjoint_of_le {r r' : PciRange} (hWrap : r.NoWrap) (hPos : 0 < r.size)
    (hWrap' : r'.NoWrap) (hPos' : 0 < r'.size)
    (h : r'.base + r'.size ≤ r.base ∨ r.base + r.size ≤ r'.base) : r'.span.Disjoint r.span := by
  rintro a ⟨ha', ha⟩
  have hIn := (MemRange.covers_iff hWrap hPos a).mp ha
  have hIn' := (MemRange.covers_iff hWrap' hPos' a).mp ha'
  omega

variable {idx k : Nat} {type : PcibarType} {addr mask lobits : BitVec 64}

theorem setupBar_inv (h : InitInv n (s.setDevi pi)) (hIdx : idx ≤ PCI_BARMAX)
    (hType : type = .mem32 ∨ type = .mem64) (hFree : (pi.piBar idx).type = .none)
    (hNext : type = .mem64 → idx + 1 ≤ PCI_BARMAX ∧ (pi.piBar (idx + 1)).type = .none)
    (hSelf : (writeBar pi idx type addr (BitVec.twoPow 64 k) ((addr &&& mask) ||| lobits)).BarOk idx)
    (hk : k < 64)
    (hApart : ∀ r ∈ s.registry.ranges, r.base + r.size ≤ addr.toNat ∨ addr.toNat + 2 ^ k ≤ r.base)
    (hPlaced : addr.toNat + 2 ^ k ≤ s.pciEmulMembase32.toNat ∧ addr.toNat + 2 ^ k ≤ 0xFDC00000 ∨
      2 ^ 32 ≤ addr.toNat ∧ addr.toNat + 2 ^ k ≤ s.pciEmulMembase64.toNat) :
    ∃ s', setupBar s pi idx type addr (BitVec.twoPow 64 k) mask lobits =
        .ok (writeBar pi idx type addr (BitVec.twoPow 64 k) ((addr &&& mask) ||| lobits), s') ∧
      s'.fiDevi = s.fiDevi ∧ InitInv n (s'.setDevi
        (writeBar pi idx type addr (BitVec.twoPow 64 k) ((addr &&& mask) ||| lobits))) := by
  have hDevi : (s.setDevi pi).fiDevi pi.bdf = some pi := setDevi_eq_some_iff.mpr (.inl ⟨rfl, rfl⟩)
  have hOk : s.registry.Ok := h.setUp.ok
  have hBars := writeBar_barsOk (h.setUp.bars _ _ hDevi) hFree hNext hSelf
  have hMem : (writeBar pi idx type addr (BitVec.twoPow 64 k) ((addr &&& mask) ||| lobits)).IsMem
      idx := (writeBar_isMem hFree hIdx fun h => (hNext h).2).mpr (.inr ⟨rfl, hType⟩)
  have hWindows := @writeBar_windows _ _ _ addr (BitVec.twoPow 64 k)
    ((addr &&& mask) ||| lobits) hFree hIdx fun h => (hNext h).2
  have hAligned := hBars.aligned hMem
  have hBase : ((writeBar pi idx type addr (BitVec.twoPow 64 k)
      ((addr &&& mask) ||| lobits)).window idx).base = addr.toNat := by
    simp only [window, writeBar_piBar_self]
  have hSize : ((writeBar pi idx type addr (BitVec.twoPow 64 k)
      ((addr &&& mask) ||| lobits)).window idx).size = 2 ^ k := by
    simp only [window, writeBar_piBar_self, BitVec.toNat_twoPow_of_lt hk]
  generalize hPdi : writeBar pi idx type addr (BitVec.twoPow 64 k) ((addr &&& mask) ||| lobits) = pi'
    at hBars hMem hWindows hAligned hBase hSize
  have hClear : s.registry.Clear (pi'.window idx) := by
    intro r hr
    refine .inr (disjoint_of_le (window_noWrap hAligned) (window_pos hAligned) (hOk.noWrap r hr)
      (hOk.pos r hr) ?_)
    rw [hBase, hSize]
    exact hApart r hr
  obtain ⟨m', hReg, hOk', hRanges⟩ := registerBar_spec hOk hMem hAligned hClear
  refine ⟨{ s with registry := m' }, ?_, rfl, ?_, h.pools.low, h.pools.high, h.pools.top, ?_⟩
  · unfold setupBar
    rw [assertThat_of _ fun h => (hNext h).1, hPdi]
    simp only [ok_bind, hReg, pure_eq_ok]
  · refine h.setUp.replace rfl (hPdi ▸ writeBar_bdf) hBars ?_ hOk'
      (fun r hr => (hWindows r).mpr (.inl hr)) fun r => ?_
    · rw [← hPdi, writeBar_memen]
      exact h.setUp.off _ _ hDevi
    · show r ∈ m'.ranges ↔ _
      rw [hRanges, hWindows]
      constructor
      · rintro (rfl | hr)
        · exact .inr (.inr ⟨hType, rfl⟩)
        · exact .inl hr
      · rintro (hr | hr | ⟨-, rfl⟩)
        · exact .inr hr
        · exact .inr ((h.setUp.exact r).mpr (.inr ⟨_, pi, hDevi, hr⟩))
        · exact .inl rfl
  · show ∀ r ∈ m'.ranges, _
    rw [hRanges]
    rintro r (rfl | hr)
    · rw [hBase, hSize]
      exact hPlaced
    · exact h.pools.placed r hr

theorem setDevi_set (s : Pci T) (baseptr : Baseptr) (top : BitVec 64) (pi : PciDevinst) :
    (baseptr.set s top).setDevi pi = baseptr.set (s.setDevi pi) top := by
  cases baseptr <;> rfl

/-- A pool may grow up to what was allocated from it. -/
theorem InitInv.grow_low (h : InitInv n s) {top : BitVec 64}
    (hLe : s.pciEmulMembase32.toNat ≤ top.toNat) (hTop : top.toNat ≤ 0xFDC00000 + n * 2 ^ 21) :
    InitInv n (Baseptr.membase32.set s top) := by
  refine ⟨⟨h.setUp.ok, h.setUp.bdf, h.setUp.bars, h.setUp.off, h.setUp.exact⟩, hTop, h.pools.high,
    h.pools.top, fun r hr => ?_⟩
  rcases h.pools.placed r hr with ⟨hEnd, hLimit⟩ | hHigh
  · exact .inl ⟨Nat.le_trans hEnd hLe, hLimit⟩
  · exact .inr hHigh

theorem InitInv.grow_high (h : InitInv n s) {top : BitVec 64}
    (hLe : s.pciEmulMembase64.toNat ≤ top.toNat) (hTop : top.toNat ≤ 0xFD00000000 + n * 2 ^ 21) :
    InitInv n (Baseptr.membase64.set s top) := by
  refine ⟨⟨h.setUp.ok, h.setUp.bdf, h.setUp.bars, h.setUp.off, h.setUp.exact⟩, h.pools.low,
    Nat.le_trans h.pools.high hLe, hTop, fun r hr => ?_⟩
  rcases h.pools.placed r hr with hLow | ⟨hBase, hEnd⟩
  · exact .inl hLow
  · exact .inr ⟨hBase, Nat.le_trans hEnd hLe⟩

/-- An I/O BAR leaves the memory registry and its pools alone. -/
theorem InitInv.io {base size : BitVec 64} (h : InitInv n (s.setDevi pi)) (hIdx : idx ≤ PCI_BARMAX)
    (hFree : (pi.piBar idx).type = .none) (hDev : s'.fiDevi = s.fiDevi)
    (hRegistry : s'.registry = s.registry) (hLow : s'.pciEmulMembase32 = s.pciEmulMembase32)
    (hHigh : s'.pciEmulMembase64 = s.pciEmulMembase64) :
    InitInv n (s'.setDevi (writeBar pi idx .io base size addr)) := by
  have hDevi : (s.setDevi pi).fiDevi pi.bdf = some pi := setDevi_eq_some_iff.mpr (.inl ⟨rfl, rfl⟩)
  have hWindows := @writeBar_windows _ _ .io base size addr hFree
    hIdx (fun h => by cases h)
  have hSame : ∀ r, r ∈ (writeBar pi idx .io base size addr).windows ↔ r ∈ pi.windows := by
    intro r
    rw [hWindows]
    simp
  refine ⟨h.setUp.replace hDev writeBar_bdf ?_ ?_ (hRegistry ▸ h.setUp.ok) (fun r => (hSame r).mpr)
    fun r => ?_, ?_, ?_, ?_, ?_⟩
  · exact writeBar_barsOk (h.setUp.bars _ _ hDevi) hFree (fun h => by cases h) writeBar_barOk_io
  · rw [writeBar_memen]
    exact h.setUp.off _ _ hDevi
  · rw [hRegistry, hSame]
    refine ⟨.inl, ?_⟩
    rintro (hr | hr)
    · exact hr
    · exact (h.setUp.exact r).mpr (.inr ⟨_, pi, hDevi, hr⟩)
  · exact hLow ▸ h.pools.low
  · exact hHigh ▸ h.pools.high
  · exact hHigh ▸ h.pools.top
  · show ∀ r ∈ s'.registry.ranges, _ ≤ s'.pciEmulMembase32.toNat ∧ _ ∨
      _ ∧ _ ≤ s'.pciEmulMembase64.toNat
    rw [hRegistry, hLow, hHigh]
    exact h.pools.placed

end Invariant

/-- A `pe_init` in progress on the function at `bdf`. -/
structure Building (n : Nat) (bdf : Bdf) (devs : Bdf → Option PciDevinst) (used : List Nat)
    (x : PciDevinst × Pci T) : Prop where
  inv : InitInv n (x.2.setDevi x.1)
  bdf : x.1.bdf = bdf
  devs : x.2.fiDevi = devs
  caps : x.1.pciGetCfgdata16 PCIR_STATUS &&& PCIM_STATUS_CAPPRESENT ≠ 0 →
    CAP_START_OFFSET ≤ x.1.piPrevcap ∧ CAP_START_OFFSET ≤ x.1.piCapend
  free : ∀ i ≤ PCI_BARMAX, i ∉ used → (x.1.piBar i).type = .none

section Building

variable {n : Nat} {bdf : Bdf} {devs : Bdf → Option PciDevinst} {used : List Nat}
variable {pi pi' : PciDevinst} {s s' : Pci T}

theorem Building.frame (h : Building n bdf devs used (pi, s)) {touched : Nat → Prop}
    (hFrame : Frame touched pi pi') (hApart : ∀ off, touched off → off ≠ 5 ∧ ¬ InBars off)
    (hDev : s'.fiDevi = s.fiDevi) (hRegistry : s'.registry = s.registry)
    (hLow : s'.pciEmulMembase32 = s.pciEmulMembase32)
    (hHigh : s'.pciEmulMembase64 = s.pciEmulMembase64)
    (hCaps : pi'.pciGetCfgdata16 PCIR_STATUS &&& PCIM_STATUS_CAPPRESENT ≠ 0 →
      CAP_START_OFFSET ≤ pi'.piPrevcap ∧ CAP_START_OFFSET ≤ pi'.piCapend) :
    Building n bdf devs used (pi', s') where
  inv := h.inv.frame hFrame (fun off hOff => (hApart off hOff).2) (fun h => (hApart 5 h).1 rfl) hDev
    hRegistry hLow hHigh
  bdf := hFrame.bdf.trans h.bdf
  devs := hDev.trans h.devs
  caps := hCaps
  free i hi hUsed := by
    show (pi'.piBar i).type = .none
    rw [hFrame.piBar]
    exact h.free i hi hUsed

theorem PlainBytes.apart {offset bytes : Nat} (h : PlainBytes offset bytes) :
    (∀ off, InAccess offset bytes off → off ≠ 5 ∧ ¬ InBars off) ∧
      ∀ i < 2, ¬ InAccess offset bytes (PCIR_STATUS + i) := by
  simp only [PlainBytes] at h
  refine ⟨?_, ?_⟩
  · rintro off ⟨hLo, hHi⟩
    simp only [InBars, PCIR_BAR, PCI_BARMAX]
    omega
  · rintro i hi ⟨hLo, hHi⟩
    simp only [PCIR_STATUS] at hLo hHi
    omega

theorem Building.plain (h : Building n bdf devs used (pi, s)) {offset bytes : Nat}
    (hPlain : PlainBytes offset bytes) (hFrame : Frame (InAccess offset bytes) pi pi')
    (hPrev : pi'.piPrevcap = pi.piPrevcap) (hEnd : pi'.piCapend = pi.piCapend)
    (hDev : s'.fiDevi = s.fiDevi) (hRegistry : s'.registry = s.registry)
    (hLow : s'.pciEmulMembase32 = s.pciEmulMembase32)
    (hHigh : s'.pciEmulMembase64 = s.pciEmulMembase64) :
    Building n bdf devs used (pi', s') := by
  refine h.frame hFrame hPlain.apart.1 hDev hRegistry hLow hHigh ?_
  rw [hFrame.get16 hPlain.apart.2, hPrev, hEnd]
  exact h.caps

theorem setBytes_frame (pi : PciDevinst) (offset : Nat) (data : List (BitVec 8)) :
    Frame (fun off => offset ≤ off) pi (setBytes offset data pi) := by
  induction data generalizing offset pi with
  | nil => exact .refl pi
  | cons b bs ih =>
    refine ((frame_set8 pi offset b).mono ?_).trans ((ih _ (offset + 1)).mono ?_)
    · rintro off ⟨hLo, -⟩
      exact hLo
    · rintro off hLo
      exact Nat.le_of_succ_le hLo

/-- The bytes a capability may change: its pointer, the status word and the capability area. -/
def CapBytes (off : Nat) : Prop :=
  off = PCIR_CAP_PTR ∨ InAccess PCIR_STATUS 2 off ∨ CAP_START_OFFSET ≤ off

theorem CapBytes.apart {off : Nat} (h : CapBytes off) : off ≠ 5 ∧ ¬ InBars off := by
  rcases h with rfl | ⟨hLo, hHi⟩ | hLo
  · simp only [PCIR_CAP_PTR, InBars, PCIR_BAR, PCI_BARMAX]
    omega
  · simp only [PCIR_STATUS, InBars, PCIR_BAR] at hLo hHi ⊢
    omega
  · simp only [CAP_START_OFFSET, InBars, PCIR_BAR, PCI_BARMAX] at hLo ⊢
    omega

theorem CapBytes.of_le {offset bytes off : Nat} (hLe : CAP_START_OFFSET ≤ offset)
    (hIn : InAccess offset bytes off) : CapBytes off :=
  .inr (.inr (Nat.le_trans hLe hIn.1))

theorem addCapability_spec (h : Building n bdf devs used (pi, s)) {capdata : List (BitVec 8)}
    (hLen : capdata.length ≠ 0) : ∃ r, pi.pciEmulAddCapability capdata = .ok r ∧
      Building n bdf devs used (r.getD pi, s) := by
  have hCaps : (decide (pi.pciGetCfgdata16 PCIR_STATUS &&& PCIM_STATUS_CAPPRESENT ≠ 0)) = true →
      CAP_START_OFFSET ≤ pi.piPrevcap ∧ CAP_START_OFFSET ≤ pi.piCapend :=
    fun hPresent => h.caps (of_decide_eq_true hPresent)
  unfold pciEmulAddCapability
  dsimp only
  rw [if_neg hLen]
  generalize decide (pi.pciGetCfgdata16 PCIR_STATUS &&& PCIM_STATUS_CAPPRESENT ≠ 0) = present at *
  have hStart : CAP_START_OFFSET ≤ (if present = true then pi.piCapend + 1 else CAP_START_OFFSET) := by
    split
    · next hPresent => exact Nat.le_succ_of_le (hCaps hPresent).2
    · exact Nat.le_refl _
  have hLink : ∀ b sts, Frame CapBytes pi (if present = true then
      pi.pciSetCfgdata8 (pi.piPrevcap + 1) b
      else (pi.pciSetCfgdata8 PCIR_CAP_PTR b).pciSetCfgdata16 PCIR_STATUS sts) := by
    intro b sts
    split
    · next hPresent =>
      exact (frame_set8 _ _ _).mono fun off =>
        CapBytes.of_le (Nat.le_succ_of_le (hCaps hPresent).1)
    · refine ((frame_set8 _ _ _).mono ?_).trans ((frame_set16 _ _ _).mono fun off => .inr ∘ .inl)
      rintro off ⟨hLo, hHi⟩
      exact .inl (by omega)
  generalize (if present = true then pi.piCapend + 1 else CAP_START_OFFSET) = capoff at *
  by_cases hRoom : capoff + (capdata.length + 3) / 4 * 4 > PCI_REGMAX + 1
  · exact ⟨none, if_pos hRoom, h⟩
  · have hLinked := hLink (BitVec.ofNat 8 capoff)
      (pi.pciGetCfgdata16 PCIR_STATUS ||| PCIM_STATUS_CAPPRESENT)
    generalize (if present = true then pi.pciSetCfgdata8 (pi.piPrevcap + 1) (BitVec.ofNat 8 capoff)
      else (pi.pciSetCfgdata8 PCIR_CAP_PTR (BitVec.ofNat 8 capoff)).pciSetCfgdata16 PCIR_STATUS
        (pi.pciGetCfgdata16 PCIR_STATUS ||| PCIM_STATUS_CAPPRESENT)) = linked at hLinked ⊢
    refine ⟨some _, if_neg hRoom, ?_⟩
    have hBody : ∀ pi', Frame CapBytes pi' (setBytes capoff capdata pi') := fun pi' =>
      (setBytes_frame _ capoff capdata).mono fun off hOff => .inr (.inr (Nat.le_trans hStart hOff))
    have hNext : ∀ pi', Frame CapBytes pi' (pi'.pciSetCfgdata8 (capoff + 1) 0) := fun pi' =>
      (frame_set8 _ (capoff + 1) 0).mono fun off => CapBytes.of_le (Nat.le_succ_of_le hStart)
    have hAll := (hLinked.trans (hBody _)).trans (hNext _)
    refine h.frame ⟨hAll.bdf, hAll.piBar, hAll.cfgdata⟩ (fun off => CapBytes.apart) rfl rfl rfl rfl
      fun _ => ⟨hStart, ?_⟩
    show CAP_START_OFFSET ≤ capoff + (capdata.length + 3) / 4 * 4 - 1
    omega

theorem Building.mono (h : Building n bdf devs used (pi, s)) (more : List Nat) :
    Building n bdf devs (more ++ used) (pi, s) :=
  ⟨h.inv, h.bdf, h.devs, h.caps,
    fun i hi hUsed => h.free i hi fun hIn => hUsed (List.mem_append_right more hIn)⟩

variable {idx k : Nat} {type : PcibarType} {addr size bar : BitVec 64}

theorem Building.writeBar (h : Building n bdf devs used (pi, s)) {taken : List Nat}
    (hIdx : idx ∈ taken) (hNext : type = .mem64 → idx + 1 ∈ taken)
    (hInv : InitInv n (s'.setDevi (writeBar pi idx type addr size bar)))
    (hDev : s'.fiDevi = s.fiDevi) :
    Building n bdf devs (taken ++ used) (PciEmul.writeBar pi idx type addr size bar, s') := by
  refine ⟨hInv, writeBar_bdf.trans h.bdf, hDev.trans h.devs, ?_, fun i hi hUsed => ?_⟩
  · have hStatus : (PciEmul.writeBar pi idx type addr size bar).pciGetCfgdata16 PCIR_STATUS =
        pi.pciGetCfgdata16 PCIR_STATUS := by
      rw [pciGetCfgdata16, pciGetCfgdata16, pciGetCfgdata8, pciGetCfgdata8,
        writeBar_cfgdata (by decide), writeBar_cfgdata (by decide)]
      rfl
    rw [hStatus, writeBar_piPrevcap, writeBar_piCapend]
    exact h.caps
  · rw [List.mem_append, not_or] at hUsed
    rw [writeBar_piBar_of_ne]
    · exact h.free i hi hUsed.2
    · rintro rfl
      exact hUsed.1 hIdx
    · rintro hType rfl
      exact hUsed.1 (hNext hType)

/-- What a memory pool hands out lies apart from everything handed out before. -/
theorem InitInv.alloc (h : InitInv n (s.setDevi pi)) (hn : n ≤ 256) (hk : k ≤ 62)
    {baseptr : Baseptr} {limit hostbase : BitVec 64}
    (hPool : baseptr = .membase32 ∧ limit = PCI_EMUL_MEMLIMIT32 ∨
      baseptr = .membase64 ∧ limit = PCI_EMUL_MEMLIMIT64) :
    pciEmulAllocResource (baseptr.get s hostbase) limit (BitVec.twoPow 64 k) = .ok none ∨
    ∃ addr top, pciEmulAllocResource (baseptr.get s hostbase) limit (BitVec.twoPow 64 k) =
        .ok (some (addr, top)) ∧ LowZero k addr ∧ addr.toNat + 2 ^ k ≤ limit.toNat ∧
      InitInv n ((baseptr.set s top).setDevi pi) ∧
      (∀ r ∈ s.registry.ranges, r.base + r.size ≤ addr.toNat ∨ addr.toNat + 2 ^ k ≤ r.base) ∧
      (addr.toNat + 2 ^ k ≤ (baseptr.set s top).pciEmulMembase32.toNat ∧
          addr.toNat + 2 ^ k ≤ 0xFDC00000 ∨
        2 ^ 32 ≤ addr.toNat ∧ addr.toNat + 2 ^ k ≤ (baseptr.set s top).pciEmulMembase64.toNat) := by
  have hLow : s.pciEmulMembase32.toNat ≤ 0xFDC00000 + n * 2 ^ 21 := h.pools.low
  have hTop : s.pciEmulMembase64.toNat ≤ 0xFD00000000 + n * 2 ^ 21 := h.pools.top
  have hHigh : 2 ^ 32 ≤ s.pciEmulMembase64.toNat := h.pools.high
  have hPlaced : ∀ r ∈ s.registry.ranges,
      r.base + r.size ≤ s.pciEmulMembase32.toNat ∧ r.base + r.size ≤ 0xFDC00000 ∨
      2 ^ 32 ≤ r.base ∧ r.base + r.size ≤ s.pciEmulMembase64.toNat := h.pools.placed
  have hLimit32 : PCI_EMUL_MEMLIMIT32.toNat = 0xFDC00000 := rfl
  have hLimit64 : PCI_EMUL_MEMLIMIT64.toNat = 0xFD00000000 := rfl
  have hPos := Nat.two_pow_pos k
  rcases hPool with ⟨rfl, rfl⟩ | ⟨rfl, rfl⟩
  · refine (@pciEmulAllocResource_spec s.pciEmulMembase32 PCI_EMUL_MEMLIMIT32 _ hk
      (by omega)).imp id ?_
    rintro ⟨addr, hAlloc, hZero, hFrom, hEnd, hFits⟩
    refine ⟨addr, _, hAlloc, hZero, hFits, ?_, fun r hr => ?_, .inl ⟨?_, by omega⟩⟩
    · rw [setDevi_set]
      refine h.grow_low ?_ ?_
      · show s.pciEmulMembase32.toNat ≤ _
        omega
      · omega
    · rcases hPlaced r hr with hr | hr <;> omega
    · exact Nat.le_of_eq hEnd.symm
  · refine (@pciEmulAllocResource_spec s.pciEmulMembase64 PCI_EMUL_MEMLIMIT64 _ hk
      (by omega)).imp id ?_
    rintro ⟨addr, hAlloc, hZero, hFrom, hEnd, hFits⟩
    refine ⟨addr, _, hAlloc, hZero, hFits, ?_, fun r hr => ?_, .inr ⟨by omega, ?_⟩⟩
    · rw [setDevi_set]
      refine h.grow_high ?_ ?_
      · show s.pciEmulMembase64.toNat ≤ _
        omega
      · omega
    · rcases hPlaced r hr with hr | hr <;> omega
    · exact Nat.le_of_eq hEnd.symm

/-- The two memory types with the pool and the flag bits each draws on. -/
theorem Building.memory (h : Building n bdf devs used (pi, s)) (hn : n ≤ 256) (hk : 4 ≤ k)
    (hk62 : k ≤ 62) {taken : List Nat} {baseptr : Baseptr} {limit hostbase lobits : BitVec 64}
    (hIdx : idx ≤ PCI_BARMAX) (hFree : idx ∉ used) (hTaken : idx ∈ taken)
    (hKind : type = .mem32 ∧ lobits = 0 ∧ baseptr = .membase32 ∧ limit = PCI_EMUL_MEMLIMIT32 ∨
      (type = .mem64 ∧ idx + 1 ≤ PCI_BARMAX ∧ idx + 1 ∉ used ∧ idx + 1 ∈ taken ∧ FlagBits lobits) ∧
      (baseptr = .membase32 ∧ limit = PCI_EMUL_MEMLIMIT32 ∨
        baseptr = .membase64 ∧ limit = PCI_EMUL_MEMLIMIT64)) :
    ∃ x, (pciEmulAllocResource (baseptr.get s hostbase) limit (BitVec.twoPow 64 k) >>= fun r =>
        match r with
        | none => pure (pi, s)
        | some (addr, top) => setupBar (baseptr.set s top) pi idx type addr (BitVec.twoPow 64 k)
            PCIM_BAR_MEM_BASE lobits) = .ok x ∧ Building n bdf devs (taken ++ used) x := by
  have hPool : baseptr = .membase32 ∧ limit = PCI_EMUL_MEMLIMIT32 ∨
      baseptr = .membase64 ∧ limit = PCI_EMUL_MEMLIMIT64 := by
    rcases hKind with ⟨-, -, hPool⟩ | ⟨-, hPool⟩
    · exact .inl hPool
    · exact hPool
  rcases @InitInv.alloc _ _ _ _ _ h.inv hn hk62 _ _ hostbase hPool with
    hNone | ⟨addr, top, hSome, hZero, hFits, hGrown, hApart, hPlaced⟩
  · exact ⟨_, by rw [hNone]; rfl, h.mono taken⟩
  · have hSelf : (PciEmul.writeBar pi idx type addr (BitVec.twoPow 64 k)
        ((addr &&& PCIM_BAR_MEM_BASE) ||| lobits)).BarOk idx := by
      rcases hKind with ⟨rfl, rfl, rfl, rfl⟩ | ⟨⟨rfl, hNext, -, -, hFlags⟩, -⟩
      · refine writeBar_barOk_mem32 hk (by omega) hZero ?_
        have hLimit32 : PCI_EMUL_MEMLIMIT32.toNat = 0xFDC00000 := rfl
        have := Nat.two_pow_pos k
        omega
      · exact writeBar_barOk_mem64 hk (by omega) hZero hFlags hNext
    have hType : type = .mem32 ∨ type = .mem64 := hKind.imp (·.1) (·.1.1)
    have hNext : type = .mem64 → idx + 1 ≤ PCI_BARMAX ∧ idx + 1 ∉ used ∧ idx + 1 ∈ taken := by
      rintro rfl
      rcases hKind with ⟨hFalse, -⟩ | ⟨⟨-, hNext, hUsed, hIn, -⟩, -⟩
      · cases hFalse
      · exact ⟨hNext, hUsed, hIn⟩
    obtain ⟨s', hSetup, hDev, hInv⟩ := setupBar_inv hGrown hIdx hType (h.free _ hIdx hFree)
      (fun h64 => ⟨(hNext h64).1, h.free _ (hNext h64).1 (hNext h64).2.1⟩) hSelf (by omega)
      (fun r hr => hApart r (by cases baseptr <;> exact hr)) hPlaced
    refine ⟨_, by rw [hSome, ok_bind]; exact hSetup, ?_⟩
    refine h.writeBar hTaken (fun h64 => (hNext h64).2.2) hInv ?_
    rw [hDev]
    cases baseptr <;> rfl

theorem flagBits_mem64 : FlagBits PCIM_BAR_MEM_64 := by
  intro i hi
  rw [show PCIM_BAR_MEM_64 = BitVec.twoPow 64 2 from rfl, BitVec.getLsbD_twoPow]
  simp
  omega

theorem flagBits_prefetch : FlagBits (PCIM_BAR_MEM_64 ||| PCIM_BAR_MEM_PREFETCH) := by
  intro i hi
  rw [BitVec.getLsbD_or, flagBits_mem64 i hi,
    show PCIM_BAR_MEM_PREFETCH = BitVec.twoPow 64 3 from rfl, BitVec.getLsbD_twoPow]
  simp
  omega

theorem setupBar_io {mask lobits : BitVec 64} :
    setupBar s pi idx .io addr size mask lobits =
      .ok (PciEmul.writeBar pi idx .io addr size ((addr &&& mask) ||| lobits), s) := by
  unfold setupBar
  rw [assertThat_of _ fun h => by cases h]
  simp only [ok_bind, registerBar, modifyBarRegistration, writeBar_piBar_self, pure_eq_ok]

theorem pciEmulAllocPbar_spec (h : Building n bdf devs used (pi, s)) (hn : n ≤ 256)
    {hostbase : BitVec 64} (hAllowed : (InitCall.pciEmulAllocPbar idx hostbase type size).Allowed used) :
    ∃ x, pciEmulAllocPbar s pi idx hostbase type size = .ok x ∧
      Building n bdf devs ((InitCall.pciEmulAllocPbar idx hostbase type size).uses ++ used) x := by
  obtain ⟨hSize, hIdx, hFree, hType⟩ := hAllowed
  unfold pciEmulAllocPbar
  rw [if_neg (Nat.not_lt.mpr hIdx)]
  rcases hType with rfl | rfl | ⟨rfl, hNext, hUsed, hHost⟩
  · obtain ⟨k, hk, hk62, hPow⟩ := @barSize_spec .io _ hSize
    simp only [barPool, ok_bind, hPow]
    have hAlloc : pciEmulAllocResource (Baseptr.iobase.get s hostbase) PCI_EMUL_IOLIMIT
        (BitVec.twoPow 64 k) = .ok none ∨ ∃ r, pciEmulAllocResource (Baseptr.iobase.get s hostbase)
          PCI_EMUL_IOLIMIT (BitVec.twoPow 64 k) = .ok (some r) := by
      unfold pciEmulAllocResource
      rw [if_neg (not_not.mpr (exists_twoPow_iff.mpr ⟨k, by omega, rfl⟩).2)]
      dsimp only
      split
      · exact .inr ⟨_, rfl⟩
      · exact .inl rfl
    rcases hAlloc with hNone | ⟨⟨addr, top⟩, hSome⟩
    · exact ⟨_, by rw [hNone]; rfl, h.mono _⟩
    · refine ⟨_, by rw [hSome, ok_bind]; exact setupBar_io, ?_⟩
      show Building n bdf devs ([idx] ++ used) _
      refine h.writeBar (List.mem_singleton.mpr rfl) (fun h => by cases h) ?_ rfl
      exact h.inv.io hIdx (h.free _ hIdx hFree) rfl rfl rfl rfl
  · obtain ⟨k, hk, hk62, hPow⟩ := @barSize_spec .mem32 _ hSize
    simp only [barPool, ok_bind, hPow]
    exact h.memory hn hk hk62 hIdx hFree (List.mem_singleton.mpr rfl) (.inl ⟨rfl, rfl, rfl, rfl⟩)
  · obtain ⟨k, hk, hk62, hPow⟩ := @barSize_spec .mem64 _ hSize
    have hTaken : idx ∈ (InitCall.pciEmulAllocPbar idx hostbase .mem64 size).uses ∧
        idx + 1 ∈ (InitCall.pciEmulAllocPbar idx hostbase .mem64 size).uses := by
      simp [InitCall.uses]
    unfold barPool
    dsimp only
    by_cases hBig : barSize .mem64 size > 32 * 1024 * 1024
    · rw [if_pos hBig, if_neg hHost, ok_bind]
      dsimp only
      rw [hPow]
      exact h.memory hn hk hk62 hIdx hFree hTaken.1
        (.inr ⟨⟨rfl, hNext, hUsed, hTaken.2, flagBits_prefetch⟩, .inr ⟨rfl, rfl⟩⟩)
    · rw [if_neg hBig, ok_bind]
      dsimp only
      rw [hPow]
      exact h.memory hn hk hk62 hIdx hFree hTaken.1
        (.inr ⟨⟨rfl, hNext, hUsed, hTaken.2, flagBits_mem64⟩, .inl ⟨rfl, rfl⟩⟩)

theorem initCall_spec {x : PciDevinst × Pci T} (h : Building n bdf devs used x) (hn : n ≤ 256)
    {c : InitCall} (hAllowed : c.Allowed used) :
    ∃ y, c.step x = .ok y ∧ Building n bdf devs (c.uses ++ used) y := by
  obtain ⟨pi, s⟩ := x
  cases c with
  | pciSetCfgdata8 offset val =>
    exact ⟨_, rfl, h.plain hAllowed (frame_set8 _ _ _) rfl rfl rfl rfl rfl rfl⟩
  | pciSetCfgdata16 offset val =>
    exact ⟨_, rfl, h.plain hAllowed (frame_set16 _ _ _) rfl rfl rfl rfl rfl rfl⟩
  | pciEmulAddCapability capdata =>
    obtain ⟨r, hAdd, hBuilding⟩ := addCapability_spec h hAllowed
    exact ⟨(r.getD pi, s), by rw [InitCall.step, hAdd]; rfl, hBuilding⟩
  | pciEmulAllocPbar idx hostbase type size => exact pciEmulAllocPbar_spec h hn hAllowed
  | pciLintrRequest =>
    have hFrame := frame_set8 { pi with lintrPin := bestPin (s.iiCount pi.bdf.bus pi.bdf.slot) + 1 }
      PCIR_INTPIN (BitVec.ofNat 8 (bestPin (s.iiCount pi.bdf.bus pi.bdf.slot) + 1))
    refine ⟨_, rfl, @Building.plain _ _ _ _ _ _ _ _ _ h PCIR_INTPIN 1 ?_
      ⟨hFrame.bdf, hFrame.piBar, hFrame.cfgdata⟩ rfl rfl rfl rfl rfl rfl⟩
    decide

theorem initCalls_spec {x : PciDevinst × Pci T} (h : Building n bdf devs used x) (hn : n ≤ 256)
    {cs : List InitCall} (hCalls : Admissible used cs) :
    ∃ y used', Fallible.run InitCall.step x cs = .ok y ∧ Building n bdf devs used' y := by
  induction cs generalizing x used with
  | nil => exact ⟨x, used, rfl, h⟩
  | cons c cs ih =>
    obtain ⟨y, hStep, hBuilding⟩ := initCall_spec h hn hCalls.1
    obtain ⟨z, used', hRun, hDone⟩ := ih hBuilding hCalls.2
    exact ⟨z, used', run_cons_eq_ok_iff.mpr ⟨y, hStep, hRun⟩, hDone⟩

end Building

section Plan

variable {n : Nat} {s : Pci T}

theorem pciEmulInit_cfgdata (bdf : Bdf) {off : Nat} (hOff : off < PCIR_INTLINE) (hCmd : off ≠ PCIR_COMMAND) :
    (pciEmulInit bdf).piCfgdata off = 0 := by
  have hLine : off ≠ PCIR_INTLINE := Nat.ne_of_lt hOff
  have hPin : off ≠ PCIR_INTPIN := Nat.ne_of_lt (Nat.lt_succ_of_lt hOff)
  simp [pciEmulInit, pciSetCfgdata8, hLine, hPin, hCmd]

/-- A function starts without BARs, so it adds nothing that the registry should know. -/
theorem building_pciEmulInit (h : InitInv n s) {bdf : Bdf} (hFresh : s.fiDevi bdf = none) :
    Building n bdf s.fiDevi [] (pciEmulInit bdf, s) := by
  have hBar : ∀ i, (pciEmulInit bdf).piBar i = ⟨.none, 0, 0⟩ := fun i => rfl
  have hWindows : ∀ r, r ∉ (pciEmulInit bdf).windows := by
    rintro r ⟨i, ⟨-, hMem⟩, -⟩
    simp [Pcibar.isMem, hBar] at hMem
  have hDevi : ∀ {b x}, (s.setDevi (pciEmulInit bdf)).fiDevi b = some x ↔
      b = bdf ∧ x = pciEmulInit bdf ∨ b ≠ bdf ∧ s.fiDevi b = some x := setDevi_eq_some_iff
  refine ⟨⟨⟨h.setUp.ok, ?_, ?_, ?_, fun r => ?_⟩, h.pools.low, h.pools.high, h.pools.top,
    h.pools.placed⟩, rfl, rfl, fun hCaps => ?_, fun i hi _ => rfl⟩
  · intro b x hx
    rcases hDevi.mp hx with ⟨rfl, rfl⟩ | ⟨-, hx⟩
    · rfl
    · exact h.setUp.bdf b x hx
  · intro b x hx
    rcases hDevi.mp hx with ⟨rfl, rfl⟩ | ⟨-, hx⟩
    · intro i hi
      unfold BarOk
      rw [hBar]
      trivial
    · exact h.setUp.bars b x hx
  · intro b x hx
    rcases hDevi.mp hx with ⟨rfl, rfl⟩ | ⟨-, hx⟩
    · rw [memen_eq, pciEmulInit_cfgdata _ (by decide) (by decide)]
      rfl
    · exact h.setUp.off b x hx
  · refine (h.setUp.exact r).trans (or_congr_right ?_)
    constructor
    · rintro ⟨b, x, hx, hr⟩
      refine ⟨b, x, hDevi.mpr (.inr ⟨?_, hx⟩), hr⟩
      rintro rfl
      simp [hFresh] at hx
    · rintro ⟨b, x, hx, hr⟩
      rcases hDevi.mp hx with ⟨rfl, rfl⟩ | ⟨-, hx⟩
      · exact absurd hr (hWindows r)
      · exact ⟨b, x, hx, hr⟩
  · refine absurd ?_ hCaps
    show (pciEmulInit bdf).pciGetCfgdata16 PCIR_STATUS &&& PCIM_STATUS_CAPPRESENT = 0
    rw [pciGetCfgdata16, pciGetCfgdata8, pciGetCfgdata8,
      pciEmulInit_cfgdata _ (by decide) (by decide), pciEmulInit_cfgdata _ (by decide) (by decide)]
    decide

theorem initFunc_spec (h : InitInv n s) (hn : n ≤ 256) {fi : FuncInfo}
    (hFresh : s.fiDevi fi.bdf = none) (hCalls : Admissible [] fi.peInit) :
    ∃ s', initFunc s fi = .ok s' ∧ InitInv n s' ∧ ∀ b ≠ fi.bdf, s'.fiDevi b = s.fiDevi b := by
  obtain ⟨⟨pdi, t⟩, used, hRun, hDone⟩ := initCalls_spec (building_pciEmulInit h hFresh) hn hCalls
  refine ⟨t.setDevi pdi, by rw [initFunc, hRun]; rfl, hDone.inv, fun b hb => ?_⟩
  have hBdf : pdi.bdf = fi.bdf := hDone.bdf
  have hDevs : t.fiDevi = s.fiDevi := hDone.devs
  simp [Pci.setDevi, hBdf, hDevs, hb]

theorem initFuncs_spec (h : InitInv n s) (hn : n ≤ 256) {bus : List FuncInfo}
    (hNodup : (bus.map FuncInfo.bdf).Nodup) (hFresh : ∀ fi ∈ bus, s.fiDevi fi.bdf = none)
    (hCalls : ∀ fi ∈ bus, Admissible [] fi.peInit) :
    ∃ s', Fallible.run initFunc s bus = .ok s' ∧ InitInv n s' ∧
      ∀ b ∉ bus.map FuncInfo.bdf, s'.fiDevi b = s.fiDevi b := by
  induction bus generalizing s with
  | nil => exact ⟨s, rfl, h, fun _ _ => rfl⟩
  | cons fi bus ih =>
    rw [List.map_cons, List.nodup_cons] at hNodup
    obtain ⟨t, hFunc, hInv, hSame⟩ := initFunc_spec h hn (hFresh fi List.mem_cons_self)
      (hCalls fi List.mem_cons_self)
    have hFresh' : ∀ fi' ∈ bus, t.fiDevi fi'.bdf = none := by
      intro fi' hMem
      rw [hSame]
      · exact hFresh fi' (List.mem_cons_of_mem _ hMem)
      · intro hEq
        exact hNodup.1 (hEq ▸ List.mem_map_of_mem hMem)
    obtain ⟨s', hRun, hDone, hKeep⟩ := ih hInv hNodup.2 hFresh'
      fun fi' hMem => hCalls fi' (List.mem_cons_of_mem _ hMem)
    refine ⟨s', run_cons_eq_ok_iff.mpr ⟨t, hFunc, hRun⟩, hDone, fun b hb => ?_⟩
    rw [List.map_cons, List.mem_cons, not_or] at hb
    rw [hKeep b hb.2, hSame b hb.1]

theorem roundup2_slop {x : BitVec 64} {j : Nat} (hj : j ≤ 20) (hx : x.toNat < 2 ^ 62) :
    x.toNat ≤ (roundup2 (x + BitVec.twoPow 64 j) (BitVec.twoPow 64 j)).toNat ∧
      (roundup2 (x + BitVec.twoPow 64 j) (BitVec.twoPow 64 j)).toNat ≤ x.toNat + 2 ^ 21 := by
  have hPow : 2 ^ j ≤ 2 ^ 20 := Nat.pow_le_pow_right (by decide) hj
  have hPos : 0 < 2 ^ j := Nat.two_pow_pos j
  have hAdd : (x + BitVec.twoPow 64 j).toNat = x.toNat + 2 ^ j := by
    rw [BitVec.toNat_add, BitVec.toNat_twoPow_of_lt (by omega)]
    exact Nat.mod_eq_of_lt (by omega)
  have hRound := toNat_roundUp (w := 64) (k := j) (a := x + BitVec.twoPow 64 j) (by omega) (by omega)
  rw [← roundup2, hAdd] at hRound
  have hDiv := Nat.div_add_mod (x.toNat + 2 ^ j + (2 ^ j - 1)) (2 ^ j)
  have hMod := Nat.mod_lt (x.toNat + 2 ^ j + (2 ^ j - 1)) hPos
  rw [Nat.mul_comm, ← hRound] at hDiv
  omega

theorem busmemRoundup {x : BitVec 64} {limit : Nat} (hx : x.toNat ≤ limit) (hLimit : limit < 2 ^ 62) :
    x.toNat ≤ (roundup2 (x + BUSMEM_ROUNDUP) BUSMEM_ROUNDUP).toNat ∧
      (roundup2 (x + BUSMEM_ROUNDUP) BUSMEM_ROUNDUP).toNat ≤ limit + 2 ^ 21 := by
  obtain ⟨hLe, hTop⟩ := roundup2_slop (x := x) (j := 20) (by decide) (by omega)
  exact ⟨hLe, Nat.le_trans hTop (Nat.add_le_add_right hx _)⟩

theorem initBus_spec (h : InitInv n s) (hn : n ≤ 255) {bus : List FuncInfo}
    (hNodup : (bus.map FuncInfo.bdf).Nodup) (hFresh : ∀ fi ∈ bus, s.fiDevi fi.bdf = none)
    (hCalls : ∀ fi ∈ bus, Admissible [] fi.peInit) :
    ∃ s', initBus s bus = .ok s' ∧ InitInv (n + 1) s' ∧
      ∀ b ∉ bus.map FuncInfo.bdf, s'.fiDevi b = s.fiDevi b := by
  obtain ⟨t, hRun, hInv, hSame⟩ := initFuncs_spec h (by omega) hNodup hFresh hCalls
  obtain ⟨hLe32, hTop32⟩ := busmemRoundup hInv.pools.low (by omega)
  obtain ⟨hLe64, hTop64⟩ := busmemRoundup hInv.pools.top (by omega)
  have hBus : initBus s bus = .ok { t with
      pciEmulIobase := roundup2 (t.pciEmulIobase + BUSIO_ROUNDUP) BUSIO_ROUNDUP
      pciEmulMembase32 := roundup2 (t.pciEmulMembase32 + BUSMEM_ROUNDUP) BUSMEM_ROUNDUP
      pciEmulMembase64 := roundup2 (t.pciEmulMembase64 + BUSMEM_ROUNDUP) BUSMEM_ROUNDUP } := by
    rw [initBus, hRun]
    rfl
  refine ⟨_, hBus, ⟨⟨hInv.setUp.ok, hInv.setUp.bdf, hInv.setUp.bars, hInv.setUp.off,
    hInv.setUp.exact⟩, ?_, ?_, ?_, fun r hr => ?_⟩, hSame⟩
  · refine Nat.le_trans hTop32 ?_
    omega
  · exact Nat.le_trans hInv.pools.high hLe64
  · refine Nat.le_trans hTop64 ?_
    omega
  · rcases hInv.pools.placed r hr with ⟨hEnd, hLimit⟩ | ⟨hBase, hEnd⟩
    · exact .inl ⟨Nat.le_trans hEnd hLe32, hLimit⟩
    · exact .inr ⟨hBase, Nat.le_trans hEnd hLe64⟩

/-- At most 256 buses, no function listed twice, and every `pe_init` within bounds. -/
structure PlanOk (buses : List (List FuncInfo)) : Prop where
  length : buses.length ≤ MAXBUSES
  nodup : (buses.flatten.map FuncInfo.bdf).Nodup
  admissible : ∀ fi ∈ buses.flatten, Admissible [] fi.peInit

theorem initBuses_spec (h : InitInv n s) {buses : List (List FuncInfo)}
    (hLen : n + buses.length ≤ 256) (hNodup : (buses.flatten.map FuncInfo.bdf).Nodup)
    (hFresh : ∀ fi ∈ buses.flatten, s.fiDevi fi.bdf = none)
    (hCalls : ∀ fi ∈ buses.flatten, Admissible [] fi.peInit) :
    ∃ s', Fallible.run initBus s buses = .ok s' ∧ InitInv (n + buses.length) s' := by
  induction buses generalizing n s with
  | nil => exact ⟨s, rfl, h⟩
  | cons bus buses ih =>
    rw [List.length_cons] at hLen
    rw [List.flatten_cons, List.map_append, List.nodup_append] at hNodup
    obtain ⟨hBus, hRest, hApart⟩ := hNodup
    have hIn : ∀ fi ∈ bus, fi ∈ (bus :: buses).flatten := fun fi hMem =>
      List.mem_append_left _ hMem
    have hIn' : ∀ fi ∈ buses.flatten, fi ∈ (bus :: buses).flatten := fun fi hMem =>
      List.mem_append_right _ hMem
    obtain ⟨t, hStep, hInv, hSame⟩ := initBus_spec h (by omega) hBus
      (fun fi hMem => hFresh fi (hIn fi hMem)) fun fi hMem => hCalls fi (hIn fi hMem)
    have hFresh' : ∀ fi ∈ buses.flatten, t.fiDevi fi.bdf = none := by
      intro fi hMem
      rw [hSame]
      · exact hFresh fi (hIn' fi hMem)
      · intro hBdf
        exact hApart _ hBdf _ (List.mem_map_of_mem hMem) rfl
    obtain ⟨s', hRun, hDone⟩ := ih hInv (by omega) hRest hFresh'
      fun fi hMem => hCalls fi (hIn' fi hMem)
    refine ⟨s', run_cons_eq_ok_iff.mpr ⟨t, hStep, hRun⟩, ?_⟩
    rw [List.length_cons, Nat.add_comm buses.length, ← Nat.add_assoc]
    exact hDone

theorem initInv_initState : InitInv 0 (initState T) := by
  have hNodes : T.nodes (initMem T).mmioRbRoot = [] := T.nodes_empty
  have hFallback : T.nodes (initMem T).mmioRbFallback = [] := T.nodes_empty
  have hRanges : ∀ r, r ∉ (initState T).registry.ranges := by
    rintro r ⟨e, he, -⟩
    change e ∈ T.nodes (initMem T).mmioRbRoot at he
    simp [hNodes] at he
  have hDevi : ∀ b x, (initState T).fiDevi b ≠ some x := by
    rintro b x ⟨⟩
  refine ⟨⟨⟨initMem_inv, hFallback, fun e he => ?_, fun r hr => absurd hr (hRanges r),
    fun r hr => absurd hr (hRanges r)⟩, fun b x hx => absurd hx (hDevi b x),
    fun b x hx => absurd hx (hDevi b x), fun b x hx => absurd hx (hDevi b x), fun r => ?_⟩,
    ?_, ?_, ?_, fun r hr => absurd hr (hRanges r)⟩
  · change e ∈ T.nodes (initMem T).mmioRbRoot at he
    simp [hNodes] at he
  · constructor
    · exact fun hr => absurd hr (hRanges r)
    · rintro (hr | ⟨b, x, hx, -⟩)
      · exact absurd hr (Set.notMem_empty r)
      · exact absurd hx (hDevi b x)
  · show PCI_EMUL_MEMBASE32.toNat ≤ _
    decide
  · show _ ≤ PCI_EMUL_MEMBASE64.toNat
    decide
  · show PCI_EMUL_MEMBASE64.toNat ≤ _
    decide

theorem lintrRoute_frame (pi : PciDevinst) :
    Frame (InAccess PCIR_INTLINE 1) pi (pciLintrRoute pi) := by
  unfold pciLintrRoute
  split
  · exact .refl pi
  · exact frame_set8 pi PCIR_INTLINE 0

/-- Routing the interrupt pins leaves every BAR where it was. -/
theorem SetUp.lintrRoute {others : Set PciRange} (h : SetUp s others) :
    SetUp { s with fiDevi := fun bdf => (s.fiDevi bdf).map pciLintrRoute } others := by
  have hApart : ∀ off, InAccess PCIR_INTLINE 1 off → ¬ InBars off := by
    rintro off ⟨hLo, hHi⟩
    simp only [PCIR_INTLINE, InBars, PCIR_BAR, PCI_BARMAX] at hLo hHi ⊢
    omega
  have hFive : ¬ InAccess PCIR_INTLINE 1 5 := by
    simp [InAccess, PCIR_INTLINE]
  have hWindows : ∀ pi, (pciLintrRoute pi).windows = pi.windows := by
    intro pi
    ext r
    simp only [windows, (lintrRoute_frame pi).sameLayout.isMem, (lintrRoute_frame pi).window]
  have hMap : ∀ {b x}, (s.fiDevi b).map pciLintrRoute = some x →
      ∃ pi, s.fiDevi b = some pi ∧ x = pciLintrRoute pi := by
    intro b x hx
    obtain ⟨pi, hPi, hEq⟩ := Option.map_eq_some_iff.mp hx
    exact ⟨pi, hPi, hEq.symm⟩
  refine ⟨h.ok, fun b x hx => ?_, fun b x hx => ?_, fun b x hx => ?_, fun r => ?_⟩
  · obtain ⟨pi, hPi, rfl⟩ := hMap hx
    exact (lintrRoute_frame pi).bdf.trans (h.bdf b pi hPi)
  · obtain ⟨pi, hPi, rfl⟩ := hMap hx
    exact (lintrRoute_frame pi).bars hApart (h.bars b pi hPi)
  · obtain ⟨pi, hPi, rfl⟩ := hMap hx
    exact ((lintrRoute_frame pi).memen hFive).trans (h.off b pi hPi)
  · refine (h.exact r).trans (or_congr_right ?_)
    constructor
    · rintro ⟨b, pi, hPi, hr⟩
      refine ⟨b, pciLintrRoute pi, ?_, (hWindows pi).symm ▸ hr⟩
      simp [hPi]
    · rintro ⟨b, x, hx, hr⟩
      obtain ⟨pi, hPi, rfl⟩ := hMap hx
      exact ⟨b, pi, hPi, hWindows pi ▸ hr⟩

/-- Whatever the buses hold, `init_pci` succeeds with every window and the ECFG range registered. -/
theorem initPci_setUp {buses : List (List FuncInfo)} (hPlan : PlanOk buses) :
    ∃ s, initPci T buses = .ok s ∧ SetUp s {ecfgRange} := by
  obtain ⟨t, hRun, hInv⟩ := initBuses_spec (T := T) initInv_initState
    (by rw [Nat.zero_add]; exact hPlan.length) hPlan.nodup (fun _ _ => rfl) hPlan.admissible
  have hWrap : ecfgRange.NoWrap := by
    show PCI_EMUL_ECFG_BASE.toNat + PCI_EMUL_ECFG_SIZE ≤ _
    decide
  have hPos : 0 < ecfgRange.size := by decide
  have hEnds : ecfgRange.base = 0xFDC00000 ∧ ecfgRange.size = 0x80000 := ⟨rfl, rfl⟩
  have hClear : t.registry.Clear ecfgRange := by
    intro r hr
    refine .inr (disjoint_of_le hWrap hPos (hInv.setUp.ok.noWrap r hr) (hInv.setUp.ok.pos r hr) ?_)
    rcases hInv.pools.placed r hr with hLow | hHigh <;> omega
  obtain ⟨m, hReg, hOk, hRanges⟩ := Registry.registerMem_spec hInv.setUp.ok hWrap hPos hClear
  have hRoute := hInv.setUp.lintrRoute
  refine ⟨{ t with fiDevi := fun bdf => (t.fiDevi bdf).map pciLintrRoute, registry := m }, ?_,
    hOk, hRoute.bdf, hRoute.bars, hRoute.off, fun r => ?_⟩
  · rw [initPci, hRun]
    simp [hReg]
  · show r ∈ m.ranges ↔ _
    have hExact := hRoute.exact r
    simp only [Set.mem_empty_iff_false, false_or] at hExact
    rw [hRanges]
    exact or_congr_right hExact

theorem planOk_bhyvePciBuses : PlanOk bhyvePciBuses := ⟨by decide, by decide, by decide⟩

end Plan

end DeviceModel.PciEmul

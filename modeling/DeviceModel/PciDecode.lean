import DeviceModel.PciBars

/-!
# What one configuration write decodes to

The windows a write brings into the registry are a function of the device as it
was and of the write (`newWindows`). If they overlap nothing that is there, the
write does not fault on a BAR, and `Effect` lists what becomes of the registry.
-/

set_option autoImplicit false

namespace DeviceModel.PciEmul

open SearchTree Interval Mem Fallible PowerOfTwo

variable {T : PciTree}

/-- What a write of `COMMAND` makes of `COMMAND.MEMEN`; any other write leaves it alone. -/
def turnsMemen (coff bytes : Nat) (eax : BitVec 32) : Option Bool :=
  if coff = 4 ∧ bytes = 2 ∨ coff = 5 ∧ bytes = 1 then some (eax.getLsbD 1) else none

namespace PciDevinst

variable (pi : PciDevinst)

/-- The memory BAR that a write to BAR register `idx` programs, and its new address. -/
def movedTo (idx : Nat) (eax : BitVec 32) : Option (Nat × BitVec 64) :=
  let bar := pi.piBar idx
  let low := pi.piBar (idx - 1)
  match bar.type with
  | .none | .io => none
  | .mem32 => some (idx, eax.setWidth 64 &&& ~~~(bar.size - 1))
  | .mem64 =>
    some (idx, (bar.addr &&& ~~~0xffffffff) ||| (eax.setWidth 64 &&& ~~~(bar.size - 1)))
  | .memhi64 =>
    let high := (eax.setWidth 64 <<< 32) &&& ~~~(low.size - 1)
    some (idx - 1, (low.addr &&& 0xffffffff) ||| high)

/-- The windows that a write programs or enables. -/
def newWindows (coff bytes : Nat) (eax : BitVec 32) : Set PciRange :=
  {r | if pi.memen then
      InBars coff ∧ bytes = 4 ∧ coff % 4 = 0 ∧
        ∃ x, pi.movedTo ((coff - PCIR_BAR 0) / 4) eax = some x ∧
          r = (pi.setBarAddr x.1 x.2).window x.1
    else turnsMemen coff bytes eax = some true ∧ r ∈ pi.windows}

end PciDevinst

def Registry.NoOverlap (m : Registry T) (rs : Set PciRange) : Prop :=
  ∀ r ∈ rs, ∀ r', r' ∈ m.ranges ∨ r' ∈ rs → r' = r ∨ r'.span.Disjoint r.span

open PciDevinst

/-- What becomes of the registry in one configuration write. -/
inductive Effect (pi : PciDevinst) (m : Registry T) (pi' : PciDevinst) (m' : Registry T) : Prop
  | kept : pi'.memen = pi.memen → m'.ranges = m.ranges →
      (pi.memen = true → ∀ i, pi.IsMem i → pi'.window i = pi.window i) → Effect pi m pi' m'
  | moved (idx : Nat) : pi.memen = true → pi'.memen = true → pi.IsMem idx →
      (∀ i ≠ idx, pi'.window i = pi.window i) →
      m'.ranges = insert (pi'.window idx) (m.ranges \ {pi.window idx}) → Effect pi m pi' m'
  | enabled : pi.memen = false → pi'.memen = true → (∀ i, pi'.window i = pi.window i) →
      m'.ranges = m.ranges ∪ pi.windows → Effect pi m pi' m'
  | disabled : pi.memen = true → pi'.memen = false → (∀ i, pi'.window i = pi.window i) →
      m'.ranges = m.ranges \ pi.windows → Effect pi m pi' m'

structure Decoded (pi : PciDevinst) (m : Registry T) (pi' : PciDevinst) (m' : Registry T) :
    Prop where
  layout : SameLayout pi pi'
  bars : pi'.BarsOk
  ok : m'.Ok
  effect : Effect pi m pi' m'

/-- An enabled device has all its windows in the registry. -/
def Live (pi : PciDevinst) (m : Registry T) : Prop :=
  pi.memen = true → ∀ i, pi.IsMem i → pi.window i ∈ m.ranges

section Words

theorem getLsbD_low32 (i : Nat) : (0xffffffff : BitVec 64).getLsbD i = decide (i < 32) :=
  getLsbD_twoPow_sub_one (w := 64) (k := 32) (by decide) i

theorem getLsbD_low4 (i : Nat) : (0xf : BitVec 32).getLsbD i = decide (i < 4) :=
  getLsbD_twoPow_sub_one (w := 32) (k := 4) (by decide) i

theorem getLsbD_flags {i : Nat} (h : 4 ≤ i) : (0xc : BitVec 64).getLsbD i = false := by
  have hLt : 12 < 2 ^ i := Nat.lt_of_lt_of_le (by decide) (Nat.pow_le_pow_right (by decide) h)
  rw [BitVec.ofNat_eq_ofNat, BitVec.getLsbD_ofNat, Nat.testBit_lt_two_pow hLt, Bool.and_false]

variable (addr : BitVec 64) (eax : BitVec 32)

theorem mem32_high (mask : BitVec 64) : (eax.setWidth 64 &&& mask) >>> 32 = 0 := by
  refine BitVec.eq_of_getLsbD_eq fun i hi => ?_
  simp [BitVec.getLsbD_setWidth]

theorem mem64_low {k : Nat} (hk : 4 ≤ k) (hk' : k < 64) :
    ((eax.setWidth 64 &&& ~~~(BitVec.twoPow 64 k - 1)) ||| 0xc).setWidth 32 &&& 0xfffffff0 =
      ((addr &&& ~~~0xffffffff) ||| (eax.setWidth 64 &&& ~~~(BitVec.twoPow 64 k - 1))).setWidth
        32 := by
  have hMask : (0xfffffff0 : BitVec 32) = ~~~(0xf : BitVec 32) := by decide
  refine BitVec.eq_of_getLsbD_eq fun i hi => ?_
  rw [hMask]
  simp only [BitVec.getLsbD_and, BitVec.getLsbD_or, BitVec.getLsbD_setWidth,
    BitVec.getLsbD_not, getLsbD_low4, getLsbD_low32, getLsbD_twoPow_sub_one hk',
    decide_eq_true hi, decide_eq_true (show i < 64 by omega)]
  by_cases h4 : i < 4
  · simp [h4, show i < k by omega]
  · simp only [getLsbD_flags (Nat.le_of_not_lt h4)]
    simp [h4]

theorem mem64_high (mask : BitVec 64) :
    (((addr &&& ~~~0xffffffff) ||| (eax.setWidth 64 &&& mask)) >>> 32).setWidth 32 =
      (addr >>> 32).setWidth 32 := by
  refine BitVec.eq_of_getLsbD_eq fun i hi => ?_
  simp only [BitVec.getLsbD_setWidth, BitVec.getLsbD_ushiftRight,
    BitVec.getLsbD_or, BitVec.getLsbD_and, BitVec.getLsbD_not, getLsbD_low32]
  simp [show 32 + i < 64 by omega, show ¬ 32 + i < 32 by omega]

theorem memhi64_low (mask : BitVec 64) :
    ((addr &&& (0xffffffff : BitVec 64)) ||| ((eax.setWidth 64 <<< 32) &&& mask)).setWidth 32 =
      addr.setWidth 32 := by
  refine BitVec.eq_of_getLsbD_eq fun i hi => ?_
  simp only [BitVec.getLsbD_setWidth, BitVec.getLsbD_or, BitVec.getLsbD_and, getLsbD_low32,
    BitVec.getLsbD_shiftLeft, decide_eq_true hi, Bool.and_true, Bool.not_true, Bool.and_false,
    Bool.false_and, Bool.or_false]

theorem memhi64_high (high : BitVec 64) :
    (high >>> 32).setWidth 32 = (((addr &&& 0xffffffff) ||| high) >>> 32).setWidth 32 := by
  refine BitVec.eq_of_getLsbD_eq fun i hi => ?_
  simp only [BitVec.getLsbD_setWidth, BitVec.getLsbD_ushiftRight,
    BitVec.getLsbD_or, BitVec.getLsbD_and, getLsbD_low32,
    decide_eq_false (show ¬ 32 + i < 32 by omega), Bool.and_false, Bool.false_or]

/-- The shortcut of `pci_cfgrw` for an unchanged low half skips a move that would do nothing. -/
theorem mem64_unchanged {low : BitVec 64} (h : low = (addr.setWidth 32).setWidth 64) :
    (addr &&& ~~~0xffffffff) ||| low = addr := by
  subst h
  refine BitVec.eq_of_getLsbD_eq fun i hi => ?_
  simp only [BitVec.getLsbD_or, BitVec.getLsbD_and, BitVec.getLsbD_not,
    BitVec.getLsbD_setWidth, getLsbD_low32, decide_eq_true hi]
  by_cases h32 : i < 32 <;> simp [h32]

theorem memhi64_unchanged {high : BitVec 64} (h : high >>> 32 = addr >>> 32)
    (hLow : ∀ i < 32, high.getLsbD i = false) : (addr &&& 0xffffffff) ||| high = addr := by
  refine BitVec.eq_of_getLsbD_eq fun i hi => ?_
  simp only [BitVec.getLsbD_or, BitVec.getLsbD_and, getLsbD_low32]
  by_cases h32 : i < 32
  · simp [h32, hLow i h32]
  · have hBit := congrArg (BitVec.getLsbD · (i - 32)) h
    simp only [BitVec.getLsbD_ushiftRight, show 32 + (i - 32) = i by omega] at hBit
    simp [h32, hBit]

theorem getLsbD_high_half (mask : BitVec 64) {i : Nat} (hi : i < 32) :
    ((eax.setWidth 64 <<< 32) &&& mask).getLsbD i = false := by
  simp [hi]

end Words

section BarWrite

variable {pi : PciDevinst} {m : Registry T}

def barWritten (pi : PciDevinst) (j : Nat) (new : BitVec 64) (idx : Nat) (dword : BitVec 32) :
    PciDevinst := (pi.setBarAddr j new).pciSetCfgdata32 (PCIR_BAR idx) dword

variable {j idx : Nat} {new : BitVec 64} {dword : BitVec 32}

theorem barWritten_frame : Frame (InAccess (PCIR_BAR idx) 4) (pi.setBarAddr j new)
    (barWritten pi j new idx dword) := frame_set32 _ _ _

theorem barWritten_sameLayout : SameLayout pi (barWritten pi j new idx dword) := by
  have hFrame := @barWritten_frame pi j idx new dword
  have hLayout := setBarAddr_sameLayout pi j new
  refine ⟨hFrame.bdf.trans hLayout.bdf, fun i => ?_, fun i => ?_⟩
  · rw [hFrame.piBar, hLayout.type]
  · rw [hFrame.piBar, hLayout.size]

theorem barWritten_piBar_self :
    (barWritten pi j new idx dword).piBar j = { pi.piBar j with addr := new } := by
  rw [barWritten_frame.piBar, setBarAddr_piBar_self]

theorem barWritten_piBar_of_ne {i : Nat} (hi : i ≠ j) :
    (barWritten pi j new idx dword).piBar i = pi.piBar i := by
  rw [barWritten_frame.piBar, setBarAddr_piBar_of_ne pi new hi]

theorem barWritten_window_self :
    (barWritten pi j new idx dword).window j = (pi.setBarAddr j new).window j :=
  barWritten_frame.window j

theorem barWritten_memen : (barWritten pi j new idx dword).memen = pi.memen := by
  refine barWritten_frame.memen ?_
  rintro ⟨hLo, -⟩
  simp only [PCIR_BAR] at hLo
  omega

theorem barWritten_window_of_ne {i : Nat} (hi : i ≠ j) :
    (barWritten pi j new idx dword).window i = pi.window i :=
  window_eq barWritten_sameLayout.bdf (barWritten_piBar_of_ne hi)

theorem barWritten_dword_self :
    (barWritten pi j new idx dword).pciGetCfgdata32 (PCIR_BAR idx) = dword := get32_set32 _ _ _

theorem barWritten_dword_of_ne {i : Nat} (hi : i ≠ idx) :
    (barWritten pi j new idx dword).pciGetCfgdata32 (PCIR_BAR i) =
      pi.pciGetCfgdata32 (PCIR_BAR i) := by
  refine barWritten_frame.get32 ?_
  rintro k hk ⟨hLo, hHi⟩
  simp only [PCIR_BAR] at hLo hHi
  omega

/-- The dword of a BAR register belongs to the BAR it programs and to no other. -/
theorem barWritten_barsOk (hBars : pi.BarsOk)
    (hApart : ∀ i ≤ PCI_BARMAX, i ≠ j → (pi.piBar i).isMem →
      i ≠ idx ∧ ((pi.piBar i).type = .mem64 → i + 1 ≠ idx))
    (hSelf : j ≤ PCI_BARMAX → (barWritten pi j new idx dword).BarOk j) :
    (barWritten pi j new idx dword).BarsOk := by
  intro i hi
  by_cases hij : i = j
  · subst hij
    exact hSelf hi
  · have hLayout := @barWritten_sameLayout pi j idx new dword
    refine (hBars i hi).congr (hLayout.type i) (fun hMem => ?_)
      (fun hType => ⟨hLayout.type _, ?_⟩) fun _ => hLayout.type _
    · exact ⟨barWritten_piBar_of_ne hij, barWritten_dword_of_ne (hApart i hi hij hMem).1⟩
    · exact barWritten_dword_of_ne ((hApart i hi hij (.inr hType)).2 hType)

theorem PciDevinst.BarsOk.high_type (hBars : pi.BarsOk) {i : Nat} (hi : i ≤ PCI_BARMAX)
    (hType : (pi.piBar i).type = .mem64) : (pi.piBar (i + 1)).type = .memhi64 := by
  have hBar := hBars i hi
  unfold BarOk at hBar
  rw [hType] at hBar
  exact hBar.2.2.1

theorem PciDevinst.BarsOk.apart_of_low (hBars : pi.BarsOk) (hType : (pi.piBar idx).type ≠ .memhi64) :
    ∀ i ≤ PCI_BARMAX, i ≠ idx → (pi.piBar i).isMem →
      i ≠ idx ∧ ((pi.piBar i).type = .mem64 → i + 1 ≠ idx) := by
  rintro i hi hne -
  refine ⟨hne, ?_⟩
  rintro hMem rfl
  exact hType (hBars.high_type hi hMem)

theorem PciDevinst.BarsOk.apart_of_high (hType : (pi.piBar (j + 1)).type = .memhi64) :
    ∀ i ≤ PCI_BARMAX, i ≠ j → (pi.piBar i).isMem →
      i ≠ j + 1 ∧ ((pi.piBar i).type = .mem64 → i + 1 ≠ j + 1) := by
  rintro i - hne hMem
  refine ⟨?_, fun _ h => hne (Nat.succ.inj h)⟩
  rintro rfl
  rcases hMem with hMem | hMem <;> simp [hType] at hMem

theorem decoded_of_moved {m' : Registry T} (hOk : m'.Ok) (hMem : pi.IsMem j)
    (hBars : (barWritten pi j new idx dword).BarsOk)
    (hRanges : m'.ranges = if pi.memen then
      insert ((pi.setBarAddr j new).window j) (m.ranges \ {pi.window j}) else m.ranges) :
    Decoded pi m (barWritten pi j new idx dword) m' := by
  refine ⟨barWritten_sameLayout, hBars, hOk, ?_⟩
  cases hOn : pi.memen with
  | false =>
    rw [hOn] at hRanges
    exact .kept barWritten_memen hRanges (fun h => by simp [hOn] at h)
  | true =>
    rw [hOn] at hRanges
    refine .moved j hOn (barWritten_memen.trans hOn) hMem
      (fun i hi => barWritten_window_of_ne hi) ?_
    rw [barWritten_window_self]
    exact hRanges

theorem decoded_of_not_mem (hOk : m.Ok) (hBars : pi.BarsOk) (hMem : ¬ (pi.piBar idx).isMem)
    (hHigh : (pi.piBar idx).type ≠ .memhi64) :
    Decoded pi m (barWritten pi idx new idx dword) m := by
  refine ⟨barWritten_sameLayout, ?_, hOk, .kept barWritten_memen rfl ?_⟩
  · refine barWritten_barsOk hBars (hBars.apart_of_low hHigh) fun _ => ?_
    unfold BarOk
    rw [barWritten_sameLayout.type]
    cases hType : (pi.piBar idx).type with
    | none | io => trivial
    | mem32 => exact absurd (.inl hType) hMem
    | mem64 => exact absurd (.inr hType) hMem
    | memhi64 => exact absurd hType hHigh
  · rintro - i hi
    refine barWritten_window_of_ne ?_
    rintro rfl
    exact hMem hi.2

/-- The three memory arms of the switch: a possible move, then the dword. -/
theorem moveBar_decoded (hOk : m.Ok) (hBars : pi.BarsOk) (hMem : pi.IsMem j) (hLive : Live pi m)
    {addr : BitVec 64} {type : PcibarType} {changed : Bool}
    (hNew : updatedAddr (pi.piBar j).addr addr type = .ok new)
    (hSame : changed = false → new = (pi.piBar j).addr)
    (hClear : pi.memen = true → m.Clear ((pi.setBarAddr j new).window j))
    (hApart : ∀ i ≤ PCI_BARMAX, i ≠ j → (pi.piBar i).isMem →
      i ≠ idx ∧ ((pi.piBar i).type = .mem64 → i + 1 ≠ idx))
    (hSelf : (barWritten pi j new idx dword).BarOk j) :
    ∃ pi' m', (moveBar pi m changed addr j type >>= fun r =>
        .ok (r.1.pciSetCfgdata32 (PCIR_BAR idx) dword, r.2)) = .ok (pi', m') ∧
      Decoded pi m pi' m' ∧ pi'.memen = pi.memen := by
  have hBars' := barWritten_barsOk hBars hApart fun _ => hSelf
  have hAligned : ((pi.setBarAddr j new).piBar j).Aligned := by
    rw [← (@barWritten_frame _ _ idx _ dword).piBar]
    exact hBars'.aligned (barWritten_sameLayout.isMem.mpr hMem)
  cases changed with
  | false =>
    have hStay : pi.setBarAddr j new = pi := by rw [hSame rfl, setBarAddr_self]
    refine ⟨barWritten pi j new idx dword, m, by rw [barWritten, hStay]; rfl,
      decoded_of_moved hOk hMem hBars' ?_, barWritten_memen⟩
    rw [hStay]
    cases hOn : pi.memen with
    | false => rfl
    | true => exact (Set.insert_sdiff_self_of_mem (hLive hOn j hMem)).symm
  | true =>
    obtain ⟨m', hMove, hOk', hRanges⟩ := updateBarAddress_spec hOk hMem hNew hAligned
      (fun hOn => hLive hOn j hMem) hClear
    exact ⟨_, m', by rw [moveBar, if_pos rfl, hMove]; rfl,
      decoded_of_moved hOk' hMem hBars' hRanges, barWritten_memen⟩

theorem barRegister {coff : Nat} (hCoff : InBars coff) (hAlign : coff % 4 = 0) :
    ∃ idx, idx ≤ PCI_BARMAX ∧ coff = PCIR_BAR idx ∧ (coff - PCIR_BAR 0) / 4 = idx := by
  simp only [InBars, PCIR_BAR, PCI_BARMAX] at hCoff ⊢
  exact ⟨(coff - 16) / 4, by omega, by omega, by omega⟩

/-- A moved window overlaps nothing, by the hypothesis on the windows of the write. -/
theorem Registry.NoOverlap.clear_moved {coff : Nat} {eax : BitVec 32} (hCoff : InBars coff)
    (hAlign : coff % 4 = 0) (hNo : m.NoOverlap (pi.newWindows coff 4 eax))
    (hMoved : pi.movedTo ((coff - PCIR_BAR 0) / 4) eax = some (j, new)) (hOn : pi.memen = true) :
    m.Clear ((pi.setBarAddr j new).window j) := by
  intro r' hr'
  refine hNo _ ?_ r' (.inl hr')
  show if pi.memen then _ else _
  rw [if_pos hOn]
  exact ⟨hCoff, rfl, hAlign, (j, new), hMoved, rfl⟩

theorem barWrite_decoded {coff : Nat} {eax : BitVec 32} (hOk : m.Ok) (hBars : pi.BarsOk)
    (hLive : Live pi m) (hCoff : InBars coff) (hAlign : coff % 4 = 0)
    (hNo : m.NoOverlap (pi.newWindows coff 4 eax)) :
    ∃ pi' m', barWrite pi m coff eax = .ok (pi', m') ∧ Decoded pi m pi' m' ∧
      pi'.memen = pi.memen := by
  have hClear := fun j new => @Registry.NoOverlap.clear_moved _ _ _ j new _ _ hCoff hAlign hNo
  obtain ⟨idx, hIdx, rfl, hReg⟩ := barRegister hCoff hAlign
  have hBar := hBars idx hIdx
  rw [hReg] at hClear
  unfold movedTo at hClear
  unfold BarOk at hBar
  unfold barWrite
  dsimp only at hClear ⊢
  rw [hReg]
  cases hType : (pi.piBar idx).type with
  | none =>
    refine ⟨barWritten pi idx 0 idx 0, m, rfl, ?_, barWritten_memen⟩
    exact decoded_of_not_mem hOk hBars (by simp [Pcibar.isMem, hType]) (by simp [hType])
  | io =>
    have hNotMem : ¬ (pi.piBar idx).isMem := by simp [Pcibar.isMem, hType]
    have hUpdate : ∀ addr, updateBarAddress pi m addr idx .io = .ok (pi.setBarAddr idx addr, m) := by
      intro addr
      have hType' : ((pi.setBarAddr idx addr).piBar idx).type = .io := by
        rw [setBarAddr_piBar_self, hType]
      cases hPort : pi.porten <;> simp [updateBarAddress, hType, hPort, updatedAddr, unregisterBar,
        registerBar, modifyBarRegistration, hType']
    generalize eax.setWidth 64 &&& ~~~((pi.piBar idx).size - 1) &&& 0xffff = addr
    refine ⟨barWritten pi idx addr idx ((addr ||| 0x1).setWidth 32), m, ?_,
      decoded_of_not_mem hOk hBars hNotMem (by simp [hType]), barWritten_memen⟩
    by_cases hSame : addr = (pi.piBar idx).addr
    · subst hSame
      simp [moveBar, barWritten, setBarAddr_self]
    · simp [moveBar, hSame, hUpdate, barWritten]
  | mem32 =>
    rw [hType] at hBar hClear
    obtain ⟨⟨k, hk, hk', hSize, -⟩, -, -⟩ := hBar
    refine moveBar_decoded hOk hBars ⟨hIdx, .inl hType⟩ hLive rfl (by simp) (hClear _ _ rfl)
      (hBars.apart_of_low (by simp [hType])) ?_
    unfold BarOk
    rw [barWritten_sameLayout.type, hType, barWritten_piBar_self, barWritten_dword_self]
    refine ⟨⟨k, hk, hk', hSize, ?_⟩, mem32_high _ _, rfl⟩
    rw [hSize]
    exact LowZero.mask hk' _
  | mem64 =>
    rw [hType] at hBar hClear
    obtain ⟨⟨k, hk, hk', hSize, hAddr⟩, hHigh, hHighType, -, hHighDword⟩ := hBar
    refine moveBar_decoded hOk hBars ⟨hIdx, .inr hType⟩ hLive rfl ?_ (hClear _ _ rfl)
      (hBars.apart_of_low (by simp [hType])) ?_
    · intro hSame
      exact mem64_unchanged _ (by simpa using hSame)
    · unfold BarOk
      rw [barWritten_sameLayout.type, hType, barWritten_piBar_self, barWritten_dword_self,
        barWritten_dword_of_ne (Nat.succ_ne_self idx), barWritten_sameLayout.type]
      refine ⟨⟨k, hk, hk', hSize, ?_⟩, hHigh, hHighType, ?_, ?_⟩
      · rw [hSize]
        exact (hAddr.and _).or (LowZero.mask hk' _)
      · rw [hSize]
        exact mem64_low _ _ hk hk'
      · rw [hHighDword]
        exact (mem64_high _ _ _).symm
  | memhi64 =>
    rw [hType] at hBar hClear
    obtain ⟨hPos, hLowType⟩ := hBar
    obtain ⟨j, rfl⟩ : ∃ j, idx = j + 1 := ⟨idx - 1, by omega⟩
    rw [Nat.add_sub_cancel] at hLowType hClear ⊢
    have hj : j ≤ PCI_BARMAX := by omega
    have hLow := hBars j hj
    unfold BarOk at hLow
    rw [hLowType] at hLow
    obtain ⟨⟨k, hk, hk', hSize, hAddr⟩, -, -, hLowDword, -⟩ := hLow
    refine moveBar_decoded hOk hBars ⟨hj, .inr hLowType⟩ hLive rfl ?_ (hClear _ _ rfl)
      (BarsOk.apart_of_high hType) ?_
    · intro hSame
      exact memhi64_unchanged _ (by simpa using hSame) fun i hi => getLsbD_high_half _ _ hi
    · unfold BarOk
      rw [barWritten_sameLayout.type, hLowType, barWritten_piBar_self, barWritten_dword_self,
        barWritten_dword_of_ne (Nat.succ_ne_self j).symm, barWritten_sameLayout.type]
      refine ⟨⟨k, hk, hk', hSize, ?_⟩, hIdx, hType, ?_, memhi64_high _ _⟩
      · rw [hSize]
        exact (hAddr.and _).or (LowZero.mask hk' _)
      · rw [hLowDword]
        exact (memhi64_low _ _ _).symm

end BarWrite

section Command

variable {pi : PciDevinst} {m : Registry T} {changed : BitVec 16}

def windowsOf (pi : PciDevinst) (is : List Nat) : Set PciRange :=
  {r | ∃ i ∈ is, pi.IsMem i ∧ r = pi.window i}

theorem windowsOf_bars : windowsOf pi bars = pi.windows := by
  ext r
  constructor
  · rintro ⟨i, -, hMem, rfl⟩
    exact ⟨i, hMem, rfl⟩
  · rintro ⟨i, hMem, rfl⟩
    exact ⟨i, List.mem_range.mpr (Nat.lt_succ_of_le hMem.1), hMem, rfl⟩

theorem windowsOf_cons_of_mem {i : Nat} {is : List Nat} (hMem : pi.IsMem i) :
    windowsOf pi (i :: is) = insert (pi.window i) (windowsOf pi is) := by
  ext r
  constructor
  · rintro ⟨j, hj, hMem', rfl⟩
    rcases List.mem_cons.mp hj with rfl | hj
    · exact .inl rfl
    · exact .inr ⟨j, hj, hMem', rfl⟩
  · rintro (rfl | ⟨j, hj, hMem', rfl⟩)
    · exact ⟨i, List.mem_cons_self, hMem, rfl⟩
    · exact ⟨j, List.mem_cons_of_mem _ hj, hMem', rfl⟩

theorem windowsOf_cons_of_not_mem {i : Nat} {is : List Nat} (hMem : ¬ pi.IsMem i) :
    windowsOf pi (i :: is) = windowsOf pi is := by
  ext r
  constructor
  · rintro ⟨j, hj, hMem', rfl⟩
    rcases List.mem_cons.mp hj with rfl | hj
    · exact absurd hMem' hMem
    · exact ⟨j, hj, hMem', rfl⟩
  · rintro ⟨j, hj, hMem', rfl⟩
    exact ⟨j, List.mem_cons_of_mem _ hj, hMem', rfl⟩

theorem decodeBar_of_not_mem {i : Nat} (hi : i ≤ PCI_BARMAX) (hMem : ¬ pi.IsMem i) :
    decodeBar pi changed m i = .ok m := by
  unfold decodeBar
  cases hType : (pi.piBar i).type with
  | none | memhi64 => rfl
  | io =>
    simp only [registerBar, unregisterBar, modifyBarRegistration, hType]
    split
    · split <;> rfl
    · rfl
  | mem32 => exact absurd ⟨hi, .inl hType⟩ hMem
  | mem64 => exact absurd ⟨hi, .inr hType⟩ hMem

theorem decodeBar_of_mem {i : Nat} (hMem : pi.IsMem i) : decodeBar pi changed m i =
    if changed &&& PCIM_CMD_MEMEN ≠ 0 then
      if pi.memen then registerBar pi m i else unregisterBar pi m i
    else .ok m := by
  unfold decodeBar
  rcases hMem.2 with hType | hType <;> rw [hType]

theorem decodeBars_kept (hChanged : ¬ changed &&& PCIM_CMD_MEMEN ≠ 0) {is : List Nat}
    (his : ∀ i ∈ is, i ≤ PCI_BARMAX) : run (decodeBar pi changed) m is = .ok m := by
  induction is with
  | nil => rfl
  | cons i is ih =>
    have hHead : decodeBar pi changed m i = .ok m := by
      by_cases hMem : pi.IsMem i
      · rw [decodeBar_of_mem hMem, if_neg hChanged]
      · exact decodeBar_of_not_mem (his i List.mem_cons_self) hMem
    rw [run, hHead, ok_bind]
    exact ih fun j hj => his j (List.mem_cons_of_mem _ hj)

theorem decodeBars_enabled (hChanged : changed &&& PCIM_CMD_MEMEN ≠ 0) (hOn : pi.memen = true)
    (hBars : pi.BarsOk) {is : List Nat} (his : ∀ i ∈ is, i ≤ PCI_BARMAX) (hOk : m.Ok)
    (hNo : m.NoOverlap pi.windows) : ∃ m', run (decodeBar pi changed) m is = .ok m' ∧ m'.Ok ∧
      m'.ranges = m.ranges ∪ windowsOf pi is := by
  induction is generalizing m with
  | nil => exact ⟨m, rfl, hOk, by simp [windowsOf]⟩
  | cons i is ih =>
    have his' : ∀ j ∈ is, j ≤ PCI_BARMAX := fun j hj => his j (List.mem_cons_of_mem _ hj)
    by_cases hMem : pi.IsMem i
    · have hClear : m.Clear (pi.window i) := fun r' hr' => hNo _ ⟨i, hMem, rfl⟩ r' (.inl hr')
      obtain ⟨m₁, hReg, hOk₁, hRanges₁⟩ := registerBar_spec hOk hMem (hBars.aligned hMem) hClear
      have hNo₁ : m₁.NoOverlap pi.windows := by
        rintro r hr r' (hr' | hr')
        · rw [hRanges₁] at hr'
          rcases hr' with rfl | hr'
          · exact hNo r hr _ (.inr ⟨i, hMem, rfl⟩)
          · exact hNo r hr r' (.inl hr')
        · exact hNo r hr r' (.inr hr')
      obtain ⟨m', hRun, hOk', hRanges⟩ := ih his' hOk₁ hNo₁
      refine ⟨m', ?_, hOk', ?_⟩
      · rw [run, decodeBar_of_mem hMem, if_pos hChanged, if_pos hOn, hReg, ok_bind, hRun]
      · rw [hRanges, hRanges₁, windowsOf_cons_of_mem hMem, Set.insert_union, Set.union_insert]
    · obtain ⟨m', hRun, hOk', hRanges⟩ := ih his' hOk hNo
      refine ⟨m', ?_, hOk', by rw [hRanges, windowsOf_cons_of_not_mem hMem]⟩
      rw [run, decodeBar_of_not_mem (his i List.mem_cons_self) hMem, ok_bind, hRun]

theorem decodeBars_disabled (hChanged : changed &&& PCIM_CMD_MEMEN ≠ 0) (hOff : pi.memen = false)
    {is : List Nat} (his : ∀ i ∈ is, i ≤ PCI_BARMAX) (hNodup : is.Nodup) (hOk : m.Ok)
    (hIn : ∀ i ∈ is, pi.IsMem i → pi.window i ∈ m.ranges) :
    ∃ m', run (decodeBar pi changed) m is = .ok m' ∧ m'.Ok ∧
      m'.ranges = m.ranges \ windowsOf pi is := by
  induction is generalizing m with
  | nil => exact ⟨m, rfl, hOk, by simp [windowsOf]⟩
  | cons i is ih =>
    have his' : ∀ j ∈ is, j ≤ PCI_BARMAX := fun j hj => his j (List.mem_cons_of_mem _ hj)
    obtain ⟨hHead, hNodup'⟩ := List.nodup_cons.mp hNodup
    by_cases hMem : pi.IsMem i
    · obtain ⟨m₁, hUnreg, hOk₁, hRanges₁⟩ :=
        unregisterBar_spec hOk hMem (hIn i List.mem_cons_self hMem)
      have hIn₁ : ∀ j ∈ is, pi.IsMem j → pi.window j ∈ m₁.ranges := by
        intro j hj hMem'
        rw [hRanges₁]
        refine ⟨hIn j (List.mem_cons_of_mem _ hj) hMem', fun hEq => hHead ?_⟩
        obtain rfl := window_injective hEq
        exact hj
      obtain ⟨m', hRun, hOk', hRanges⟩ := ih his' hNodup' hOk₁ hIn₁
      refine ⟨m', ?_, hOk', ?_⟩
      · rw [run, decodeBar_of_mem hMem, if_pos hChanged, hOff, hUnreg]
        exact hRun
      · rw [hRanges, hRanges₁, windowsOf_cons_of_mem hMem, Set.sdiff_sdiff]
        rfl
    · obtain ⟨m', hRun, hOk', hRanges⟩ :=
        ih his' hNodup' hOk fun j hj => hIn j (List.mem_cons_of_mem _ hj)
      refine ⟨m', ?_, hOk', by rw [hRanges, windowsOf_cons_of_not_mem hMem]⟩
      rw [run, decodeBar_of_not_mem (his i List.mem_cons_self) hMem, ok_bind, hRun]

theorem changed_memen (cmd cmd' : BitVec 16) :
    (cmd ^^^ cmd') &&& PCIM_CMD_MEMEN ≠ 0 ↔ cmd.getLsbD 1 ≠ cmd'.getLsbD 1 := by
  have hFlag : PCIM_CMD_MEMEN = BitVec.twoPow 16 1 := rfl
  rw [hFlag, and_twoPow_ne_zero_iff (by decide), BitVec.getLsbD_xor]
  cases cmd.getLsbD 1 <;> cases cmd'.getLsbD 1 <;> decide

theorem memen_eq_command : pi.memen = (pi.pciGetCfgdata16 PCIR_COMMAND).getLsbD 1 := by
  rw [memen, Bool.eq_iff_iff, decide_eq_true_iff]
  exact and_twoPow_ne_zero_iff (w := 16) (k := 1) (by decide)

def cmdstsWord (coff : Nat) (new old : BitVec 32) : BitVec 32 :=
  let readonly : BitVec 32 := 0xFFFFF880 >>> (coff % 4 * 8)
  (new &&& ~~~readonly) ||| (old &&& readonly)

theorem cfgRead_of_access {coff bytes : Nat} (h : CfgAccess coff bytes) :
    ∃ old, pi.cfgRead coff bytes = .ok old := ⟨_, if_pos h⟩

theorem cfgWrite_of_access {coff bytes : Nat} (val : BitVec 32) (h : CfgAccess coff bytes) :
    ∃ pi', pi.cfgWrite coff val bytes = .ok pi' := ⟨_, if_pos h⟩

/-- `MEMEN` sits in byte 5. Two writes reach it; the 4-byte one finds it in the read-only half. -/
theorem cmdsts_memen {coff bytes : Nat} {eax old : BitVec 32} {pi₁ : PciDevinst}
    (hCoff : PCIR_COMMAND ≤ coff ∧ coff < PCIR_REVID) (hBytes : Width bytes)
    (hAlign : coff % bytes = 0) (hOld : pi.cfgRead coff bytes = .ok old)
    (hWrite : pi.cfgWrite coff (cmdstsWord coff eax old) bytes = .ok pi₁) :
    pi₁.memen = (turnsMemen coff bytes eax).getD pi.memen := by
  have hFrame := (pi.cfgWrite_frame coff (cmdstsWord coff eax old) hBytes).of_ok hWrite
  have hLo : 4 ≤ coff := hCoff.1
  have hHi : coff < 8 := hCoff.2
  by_cases hReach : coff = 4 ∧ bytes ≠ 1 ∨ coff = 5
  · rcases hReach with ⟨rfl, hNarrow⟩ | rfl
    · rcases hBytes with rfl | rfl | rfl
      · exact absurd rfl hNarrow
      · obtain rfl : pi.pciSetCfgdata16 4 _ = pi₁ := Except.ok.inj hWrite
        rw [memen_eq]
        simp [pciSetCfgdata16, pciSetCfgdata8, cmdstsWord, turnsMemen]
      · obtain rfl : pi.pciGetCfgdata32 4 = old := Except.ok.inj hOld
        obtain rfl : pi.pciSetCfgdata32 4 _ = pi₁ := Except.ok.inj hWrite
        have hBit : (pi.pciGetCfgdata32 4).getLsbD 17 = (pi.piCfgdata 5).getLsbD 1 := by
          rw [pciGetCfgdata32, BitVec.getLsbD_append, if_neg (by decide)]
          exact memen_eq_command.symm.trans pi.memen_eq
        rw [memen_eq, memen_eq, ← hBit]
        simp [pciSetCfgdata32, pciSetCfgdata16, pciSetCfgdata8, cmdstsWord, turnsMemen]
    · obtain rfl : bytes = 1 := by rcases hBytes with rfl | rfl | rfl <;> omega
      obtain rfl : pi.pciSetCfgdata8 5 _ = pi₁ := Except.ok.inj hWrite
      rw [memen_eq]
      simp [pciSetCfgdata8, cmdstsWord, turnsMemen]
  · have hNone : turnsMemen coff bytes eax = none := if_neg (by omega)
    rw [hNone, Option.getD_none, hFrame.memen]
    rintro ⟨hBelow, hAbove⟩
    rcases hBytes with rfl | rfl | rfl <;> omega

theorem newWindows_of_command {coff bytes : Nat} {eax : BitVec 32} (hOff : pi.memen = false)
    (hTurn : turnsMemen coff bytes eax = some true) : pi.newWindows coff bytes eax = pi.windows := by
  ext r
  show (if pi.memen then _ else _) ↔ _
  rw [hOff]
  simp [hTurn]

theorem cmdstsWrite_decoded {coff bytes : Nat} {eax : BitVec 32} (hOk : m.Ok) (hBars : pi.BarsOk)
    (hLive : Live pi m) (hCoff : PCIR_COMMAND ≤ coff ∧ coff < PCIR_REVID) (hBytes : Width bytes)
    (hAlign : coff % bytes = 0) (hNo : m.NoOverlap (pi.newWindows coff bytes eax)) :
    ∃ pi' m', pciEmulCmdstsWrite pi m coff eax bytes = .ok (pi', m') ∧ Decoded pi m pi' m' ∧
      pi'.memen = (turnsMemen coff bytes eax).getD pi.memen := by
  have hAccess : CfgAccess coff bytes := by
    simp only [PCIR_COMMAND, PCIR_REVID] at hCoff
    refine ⟨?_, hAlign⟩
    rcases hBytes with rfl | rfl | rfl <;> simp only [PCI_REGMAX] <;> omega
  obtain ⟨old, hOld⟩ := @cfgRead_of_access pi _ _ hAccess
  obtain ⟨pi₁, hWrite⟩ := @cfgWrite_of_access pi _ _ (cmdstsWord coff eax old) hAccess
  have hMemen := cmdsts_memen hCoff hBytes hAlign hOld hWrite
  have hFrame := (pi.cfgWrite_frame coff _ hBytes).of_ok hWrite
  have hApart : ∀ off, InAccess coff bytes off → ¬ InBars off := by
    rintro off ⟨hLo, hHi⟩ ⟨hLo', -⟩
    simp only [PCIR_REVID, PCIR_BAR] at hCoff hLo'
    rcases hBytes with rfl | rfl | rfl <;> omega
  have hBars₁ : pi₁.BarsOk := hFrame.bars hApart hBars
  have hWindow : ∀ i, pi₁.window i = pi.window i := hFrame.window
  have hIsMem : ∀ i, pi₁.IsMem i ↔ pi.IsMem i := fun i => hFrame.sameLayout.isMem
  have hWindows : pi₁.windows = pi.windows := by
    ext r
    simp only [windows, hIsMem, hWindow]
  have hBound : ∀ i ∈ bars, i ≤ PCI_BARMAX := fun i hi => Nat.lt_succ_iff.mp (List.mem_range.mp hi)
  have hUpdate := hFrame.pciLintrUpdate
  have hMemen' : pi₁.pciLintrUpdate.memen = pi₁.memen :=
    (@Frame.refl (fun _ => False) pi₁).pciLintrUpdate.memen not_false
  -- the two values of the command word differ in `MEMEN` or they do not
  have hDecoded : ∀ m', m'.Ok → Effect pi m pi₁.pciLintrUpdate m' →
      Decoded pi m pi₁.pciLintrUpdate m' :=
    fun m' hOk' hEffect => ⟨hUpdate.sameLayout, hUpdate.bars hApart hBars, hOk', hEffect⟩
  have hBody : ∀ m', run (decodeBar pi₁ (pi.pciGetCfgdata16 PCIR_COMMAND ^^^
      pi₁.pciGetCfgdata16 PCIR_COMMAND)) m bars = .ok m' →
      pciEmulCmdstsWrite pi m coff eax bytes = .ok (pi₁.pciLintrUpdate, m') := by
    intro m' hRun
    unfold pciEmulCmdstsWrite
    unfold cmdstsWord at hWrite
    simp only [hOld, hWrite, hRun, ok_bind, pure_eq_ok]
  by_cases hChanged : (pi.pciGetCfgdata16 PCIR_COMMAND ^^^ pi₁.pciGetCfgdata16 PCIR_COMMAND) &&&
      PCIM_CMD_MEMEN ≠ 0
  · have hFlip : pi.memen ≠ pi₁.memen := by
      rw [memen_eq_command, memen_eq_command]
      exact (changed_memen _ _).mp hChanged
    cases hOn : pi.memen with
    | false =>
      have hOn₁ : pi₁.memen = true := by
        rw [hOn] at hFlip
        exact Bool.eq_true_of_not_eq_false hFlip.symm
      have hTurn : turnsMemen coff bytes eax = some true := by
        rw [hOn₁, hOn] at hMemen
        cases hT : turnsMemen coff bytes eax with
        | none => simp [hT] at hMemen
        | some b => simpa [hT] using hMemen.symm
      rw [newWindows_of_command hOn hTurn, ← hWindows] at hNo
      obtain ⟨m', hRun, hOk', hRanges⟩ := decodeBars_enabled hChanged hOn₁ hBars₁ hBound hOk hNo
      rw [windowsOf_bars, hWindows] at hRanges
      refine ⟨_, m', hBody m' hRun, hDecoded m' hOk' ?_, by rw [hMemen', hMemen, hOn]⟩
      exact .enabled hOn (hMemen'.trans hOn₁) hUpdate.window hRanges
    | true =>
      have hOff₁ : pi₁.memen = false := by
        rw [hOn] at hFlip
        exact Bool.eq_false_of_not_eq_true hFlip.symm
      have hIn : ∀ i ∈ bars, pi₁.IsMem i → pi₁.window i ∈ m.ranges := by
        intro i _ hMem
        rw [hWindow]
        exact hLive hOn i ((hIsMem i).mp hMem)
      obtain ⟨m', hRun, hOk', hRanges⟩ :=
        decodeBars_disabled hChanged hOff₁ hBound List.nodup_range hOk hIn
      rw [windowsOf_bars, hWindows] at hRanges
      refine ⟨_, m', hBody m' hRun, hDecoded m' hOk' ?_, by rw [hMemen', hMemen, hOn]⟩
      exact .disabled hOn (hMemen'.trans hOff₁) hUpdate.window hRanges
  · have hSame : pi₁.memen = pi.memen := by
      rw [memen_eq_command, memen_eq_command]
      exact (not_not.mp fun h => hChanged ((changed_memen _ _).mpr h)).symm
    refine ⟨_, m, hBody m (decodeBars_kept hChanged hBound), hDecoded m hOk ?_,
      by rw [hMemen', hMemen]⟩
    exact .kept (hMemen'.trans hSame) rfl fun _ i _ => hUpdate.window i

end Command

section Cfgwrite

variable {pi pi' : PciDevinst} {m : Registry T}

theorem decoded_of_frame {touched : Nat → Prop} (hFrame : Frame touched pi pi')
    (hApart : ∀ off, touched off → ¬ InBars off) (hFive : ¬ touched 5) (hBars : pi.BarsOk)
    (hOk : m.Ok) : Decoded pi m pi' m :=
  ⟨hFrame.sameLayout, hFrame.bars hApart hBars, hOk,
    .kept (hFrame.memen hFive) rfl fun _ i _ => hFrame.window i⟩

theorem decoded_refl (hBars : pi.BarsOk) (hOk : m.Ok) : Decoded pi m pi m :=
  decoded_of_frame (@Frame.refl (fun _ => False) pi) (fun _ h => h.elim) not_false hBars hOk

theorem turnsMemen_of_ne {coff bytes : Nat} (eax : BitVec 32) (hFour : coff ≠ 4) (hFive : coff ≠ 5) :
    turnsMemen coff bytes eax = none := if_neg (by omega)

/-- What one write to the header of a device can do, and where it can stop. -/
theorem pciCfgwrite_decoded {coff bytes : Nat} {eax : BitVec 32} (hOk : m.Ok) (hBars : pi.BarsOk)
    (hLive : Live pi m) (hBytes : Width bytes) (hAlign : coff % bytes = 0)
    (hNo : m.NoOverlap (pi.newWindows coff bytes eax)) :
    Yields ConfigFault (fun r => Decoded pi m r.1 r.2 ∧
      r.1.memen = (turnsMemen coff bytes eax).getD pi.memen) (pciCfgwrite pi m coff bytes eax) := by
  have hKept : ∀ pi', Frame (InAccess coff bytes) pi pi' →
      (∀ off, InAccess coff bytes off → off ≠ 5 ∧ ¬ InBars off) → turnsMemen coff bytes eax = none →
      Decoded pi m pi' m ∧ pi'.memen = (turnsMemen coff bytes eax).getD pi.memen := by
    intro pi' hFrame hApart hTurn
    have hFive : ¬ InAccess coff bytes 5 := fun h => (hApart 5 h).1 rfl
    exact ⟨decoded_of_frame hFrame (fun off h => (hApart off h).2) hFive hBars hOk,
      by rw [hTurn, Option.getD_none, hFrame.memen hFive]⟩
  unfold pciCfgwrite
  split
  · next hIn =>
    have hTurn : turnsMemen coff bytes eax = none := by
      simp only [PCIR_BAR] at hIn
      exact turnsMemen_of_ne eax (by omega) (by omega)
    split
    · exact ⟨decoded_refl hBars hOk, by rw [hTurn]; rfl⟩
    · next hWord =>
      obtain ⟨rfl, hWordAlign⟩ := not_or.mp hWord |>.imp not_not.mp not_not.mp
      obtain ⟨pi', m', hWrite, hDecoded, hMemen⟩ :=
        barWrite_decoded hOk hBars hLive hIn hWordAlign hNo
      rw [hWrite]
      exact ⟨hDecoded, by rw [hMemen, hTurn]; rfl⟩
  · next hIn =>
    split
    · next hCap =>
      have hAbove : CAP_START_OFFSET ≤ coff := by
        simp only [pciEmulIscap, decide_eq_true_eq] at hCap
        exact hCap.2.1
      simp only [CAP_START_OFFSET] at hAbove
      refine (pi.pciEmulCapwrite_frame coff eax hBytes).bind fun pi' _ hFrame => ?_
      refine hKept pi' hFrame ?_ (turnsMemen_of_ne eax (by omega) (by omega))
      rintro off ⟨hLo, -⟩
      simp only [InBars, PCIR_BAR, PCI_BARMAX]
      omega
    · split
      · next hCmd =>
        obtain ⟨pi', m', hWrite, hDecoded, hMemen⟩ :=
          cmdstsWrite_decoded hOk hBars hLive hCmd hBytes hAlign hNo
        rw [hWrite]
        exact ⟨hDecoded, hMemen⟩
      · next hCmd =>
        simp only [PCIR_COMMAND, PCIR_REVID] at hCmd
        simp only [PCIR_BAR, PCI_BARMAX] at hIn
        refine (pi.cfgWrite_frame coff eax hBytes).bind fun pi' _ hFrame => ?_
        refine hKept pi' hFrame ?_ (turnsMemen_of_ne eax (by omega) (by omega))
        rintro off ⟨hLo, hHi⟩
        simp only [InBars, PCIR_BAR, PCI_BARMAX]
        rcases hBytes with rfl | rfl | rfl <;> omega

end Cfgwrite

end DeviceModel.PciEmul

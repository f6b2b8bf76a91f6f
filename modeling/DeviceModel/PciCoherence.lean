import DeviceModel.PciSetup
import DeviceModel.PciDecode

/-!
# BARs and registry over runs of guest writes

A guest programs the devices of `init_pci` with configuration writes. As long as
no window it programs or enables overlaps another one, no assertion of the BAR
registration fails, and a device whose `COMMAND.MEMEN` has been set once decodes
exactly its BARs from then on. Until that first write it does not: `init_pci`
registers every window although `COMMAND.MEMEN` reads clear.
-/

set_option autoImplicit false

namespace DeviceModel.PciEmul

open SearchTree Interval Mem Fallible PowerOfTwo PciDevinst

variable {T : PciTree}

structure CfgWrite where
  bdf : Bdf
  coff : Nat
  bytes : Nat
  val : BitVec 32

def Pci.write (s : Pci T) (w : CfgWrite) : Except Fault (Pci T) :=
  (s.pciCfgrw false w.bdf w.coff w.bytes w.val).map Prod.snd

/-- No window that the write programs or enables overlaps another range of the registry. -/
def CfgWrite.Clear (s : Pci T) (w : CfgWrite) : Prop :=
  ∀ pi, s.fiDevi w.bdf = some pi → s.registry.NoOverlap (pi.newWindows w.coff w.bytes w.val)

def CfgWrite.Enables (b : Bdf) (w : CfgWrite) : Prop :=
  w.bdf = b ∧ turnsMemen w.coff w.bytes w.val = some true

instance (b : Bdf) (w : CfgWrite) : Decidable (w.Enables b) :=
  inferInstanceAs (Decidable (_ ∧ _))

/-- The range names the function, or has it as its argument. -/
def Of (b : Bdf) (r : PciRange) : Prop := r.name = .piName b ∨ r.arg1 = some b

namespace PciDevinst

def addressBits (pi : PciDevinst) (idx : Nat) : BitVec 64 :=
  match (pi.piBar idx).type with
  | .mem64 => pi.pciGetCfgdata32 (PCIR_BAR (idx + 1)) ++
      (pi.pciGetCfgdata32 (PCIR_BAR idx) &&& 0xfffffff0)
  | _ => (pi.pciGetCfgdata32 (PCIR_BAR idx) &&& 0xfffffff0).setWidth 64

/-- Instance, configuration space and registry agree on the memory BARs. -/
structure Coherent (pi : PciDevinst) (m : Registry T) : Prop where
  decoded : ∀ idx, pi.IsMem idx → (pi.window idx ∈ m.ranges ↔ pi.memen = true)
  aligned : ∀ idx, pi.IsMem idx → (pi.piBar idx).addr.toNat % (pi.piBar idx).size.toNat = 0
  dwords : ∀ idx, pi.IsMem idx → pi.addressBits idx = (pi.piBar idx).addr
  only : ∀ r ∈ m.ranges, Of pi.bdf r → ∃ idx, pi.IsMem idx ∧ r = pi.window idx

end PciDevinst

def Pci.Coherent (s : Pci T) (b : Bdf) : Prop :=
  ∀ pi, s.fiDevi b = some pi → pi.Coherent s.registry

/-- What holds from `init_pci` on, as long as no new window overlaps another range. -/
structure Pci.Inv (s : Pci T) : Prop where
  ok : s.registry.Ok
  bdf : ∀ b pi, s.fiDevi b = some pi → pi.bdf = b
  bars : ∀ b pi, s.fiDevi b = some pi → pi.BarsOk
  live : ∀ b pi, s.fiDevi b = some pi → Live pi s.registry

theorem SetUp.inv {s : Pci T} {others : Set PciRange} (h : SetUp s others) : s.Inv where
  ok := h.ok
  bdf := h.bdf
  bars := h.bars
  live b pi hPi hOn := by
    rw [h.off b pi hPi] at hOn
    cases hOn

section Ranges

variable {pi pi' : PciDevinst} {m m' : Registry T}

theorem window_of_iff {b : Bdf} {idx : Nat} : Of b (pi.window idx) ↔ b = pi.bdf := by
  simp [Of, window, eq_comm]

/-- Ranges of other functions stay where they are. -/
theorem Decoded.mem_iff_of_other (h : Decoded pi m pi' m') {b : Bdf} (hb : b ≠ pi.bdf)
    {r : PciRange} (hr : Of b r) : r ∈ m'.ranges ↔ r ∈ m.ranges := by
  have hNot : ∀ x : PciDevinst, x.bdf = pi.bdf → ∀ i, r ≠ x.window i := by
    rintro x hx i rfl
    exact hb ((window_of_iff.mp hr).trans hx)
  have hOut : r ∉ pi.windows := by
    rintro ⟨i, -, rfl⟩
    exact hNot pi rfl i rfl
  cases h.effect with
  | kept hMemen hRanges => rw [hRanges]
  | moved idx hOn hOn' hMem hSame hRanges =>
    rw [hRanges]
    constructor
    · rintro (rfl | hIn)
      · exact absurd rfl (hNot pi' h.layout.bdf idx)
      · exact hIn.1
    · exact fun hIn => .inr ⟨hIn, hNot pi rfl idx⟩
  | enabled hOff hOn hSame hRanges =>
    rw [hRanges]
    exact ⟨fun hIn => hIn.resolve_right hOut, .inl⟩
  | disabled hOn hOff hSame hRanges =>
    rw [hRanges]
    exact ⟨fun hIn => hIn.1, fun hIn => ⟨hIn, hOut⟩⟩

theorem Decoded.live (h : Decoded pi m pi' m') (hLive : Live pi m) : Live pi' m' := by
  intro hOn' i hMem
  have hMem' := h.layout.isMem.mp hMem
  cases h.effect with
  | kept hMemen hRanges hSame =>
    have hOn := hMemen.symm.trans hOn'
    rw [hRanges, hSame hOn i hMem']
    exact hLive hOn i hMem'
  | moved idx hOn _ hIdx hSame hRanges =>
    rw [hRanges]
    by_cases hi : i = idx
    · subst hi
      exact .inl rfl
    · rw [hSame i hi]
      exact .inr ⟨hLive hOn i hMem', fun hEq => hi (window_injective hEq)⟩
  | enabled hOff _ hSame hRanges =>
    rw [hRanges, hSame]
    exact .inr ⟨i, hMem', rfl⟩
  | disabled hOn hOff hSame hRanges =>
    rw [hOff] at hOn'
    cases hOn'

/-- The registry holds windows of the function only while it decodes them. -/
def Exact (pi : PciDevinst) (m : Registry T) : Prop :=
  ∀ r ∈ m.ranges, Of pi.bdf r → pi.memen = true ∧ r ∈ pi.windows

theorem Decoded.windows_eq (h : Decoded pi m pi' m')
    (hSame : ∀ i, pi.IsMem i → pi'.window i = pi.window i) : pi'.windows = pi.windows := by
  ext r
  constructor
  · rintro ⟨i, hMem, rfl⟩
    exact ⟨i, h.layout.isMem.mp hMem, hSame i (h.layout.isMem.mp hMem)⟩
  · rintro ⟨i, hMem, rfl⟩
    exact ⟨i, h.layout.isMem.mpr hMem, (hSame i hMem).symm⟩

theorem Decoded.exact (h : Decoded pi m pi' m') (hExact : Exact pi m) : Exact pi' m' := by
  intro r hr hOf
  rw [h.layout.bdf] at hOf
  cases h.effect with
  | kept hMemen hRanges hSame =>
    rw [hRanges] at hr
    obtain ⟨hOn, hIn⟩ := hExact r hr hOf
    exact ⟨hMemen.trans hOn, (h.windows_eq (hSame hOn)).symm ▸ hIn⟩
  | moved idx hOn hOn' hMem hSame hRanges =>
    rw [hRanges] at hr
    refine ⟨hOn', ?_⟩
    rcases hr with rfl | ⟨hr, hNe⟩
    · exact ⟨idx, h.layout.isMem.mpr hMem, rfl⟩
    · obtain ⟨-, i, hi, rfl⟩ := hExact r hr hOf
      refine ⟨i, h.layout.isMem.mpr hi, (hSame i ?_).symm⟩
      rintro rfl
      exact hNe rfl
  | enabled hOff hOn hSame hRanges =>
    rw [hRanges] at hr
    refine ⟨hOn, ?_⟩
    rw [h.windows_eq fun i _ => hSame i]
    rcases hr with hr | hr
    · exact (hExact r hr hOf).2
    · exact hr
  | disabled hOn hOff hSame hRanges =>
    rw [hRanges] at hr
    exact absurd (hExact r hr.1 hOf).2 hr.2

/-- The first write that enables a function whose windows are registered already. -/
theorem Decoded.exact_of_enabled (h : Decoded pi m pi' m') (hOff : pi.memen = false)
    (hOn' : pi'.memen = true) (hOwn : ∀ r ∈ m.ranges, Of pi.bdf r → r ∈ pi.windows) :
    Exact pi' m' := by
  intro r hr hOf
  rw [h.layout.bdf] at hOf
  refine ⟨hOn', ?_⟩
  cases h.effect with
  | kept hMemen => simp [hOff, hOn'] at hMemen
  | moved idx hOn => simp [hOff] at hOn
  | enabled _ _ hSame hRanges =>
    rw [hRanges] at hr
    rw [h.windows_eq fun i _ => hSame i]
    exact hr.elim (fun hr => hOwn r hr hOf) id
  | disabled hOn => simp [hOff] at hOn

theorem Decoded.ranges_of_off (h : Decoded pi m pi' m') (hOff : pi.memen = false)
    (hOff' : pi'.memen = false) : m'.ranges = m.ranges := by
  cases h.effect with
  | kept _ hRanges => exact hRanges
  | moved idx hOn => simp [hOff] at hOn
  | enabled _ hOn' => simp [hOff'] at hOn'
  | disabled hOn => simp [hOff] at hOn

theorem mem32_addressBits {addr : BitVec 64} {k : Nat} (hk : 4 ≤ k) (hZero : LowZero k addr)
    (hHigh : addr >>> 32 = 0) : (addr.setWidth 32 &&& 0xfffffff0).setWidth 64 = addr := by
  have hMask : (0xfffffff0 : BitVec 32) = ~~~(0xf : BitVec 32) := by decide
  refine BitVec.eq_of_getLsbD_eq fun i hi => ?_
  rw [hMask]
  simp only [BitVec.getLsbD_setWidth, BitVec.getLsbD_and, BitVec.getLsbD_not, getLsbD_low4,
    decide_eq_true hi, Bool.true_and]
  by_cases hLow : i < 4
  · simp [hZero i (by omega)]
  by_cases hWord : i < 32
  · simp [hWord, hLow]
  · have hBit : addr.getLsbD i = (addr >>> 32).getLsbD (i - 32) := by
      rw [BitVec.getLsbD_ushiftRight, show 32 + (i - 32) = i by omega]
    simp [hBit, hHigh, hWord]

theorem append_halves (addr : BitVec 64) : (addr >>> 32).setWidth 32 ++ addr.setWidth 32 = addr := by
  refine BitVec.eq_of_getLsbD_eq fun i hi => ?_
  rw [BitVec.getLsbD_append]
  split
  · next hLow => simp [hLow]
  · next hHigh =>
    rw [BitVec.getLsbD_setWidth, BitVec.getLsbD_ushiftRight, show 32 + (i - 32) = i by omega]
    simp [show i - 32 < 32 by omega]

theorem addressBits_eq (hBars : pi.BarsOk) {idx : Nat} (hMem : pi.IsMem idx) :
    pi.addressBits idx = (pi.piBar idx).addr := by
  have hBar := hBars idx hMem.1
  unfold BarOk at hBar
  unfold addressBits
  rcases hMem.2 with hType | hType <;> rw [hType] at hBar <;> simp only [hType]
  · obtain ⟨⟨k, hk, -, -, hZero⟩, hHigh, hDword⟩ := hBar
    rw [hDword]
    exact mem32_addressBits hk hZero hHigh
  · obtain ⟨-, -, -, hLow, hHigh⟩ := hBar
    rw [hLow, hHigh]
    exact append_halves _

theorem coherent_iff_exact (hBars : pi.BarsOk) (hLive : Live pi m) :
    pi.Coherent m ↔ Exact pi m := by
  constructor
  · intro h r hr hOf
    obtain ⟨idx, hMem, rfl⟩ := h.only r hr hOf
    exact ⟨(h.decoded idx hMem).mp hr, idx, hMem, rfl⟩
  · intro h
    refine ⟨fun idx hMem => ⟨fun hr => (h _ hr (window_of_iff.mpr rfl)).1, fun hOn => ?_⟩,
      fun idx hMem => (hBars.aligned hMem).mod_eq_zero, fun idx hMem => addressBits_eq hBars hMem,
      fun r hr hOf => (h r hr hOf).2⟩
    exact hLive hOn idx hMem

end Ranges

section Writes

variable {s s' : Pci T} {w : CfgWrite} {b : Bdf}

structure Written (s : Pci T) (w : CfgWrite) (s' : Pci T) : Prop where
  device : ∀ pi, s.fiDevi w.bdf = some pi → ∃ pi', s'.fiDevi w.bdf = some pi' ∧
    Decoded pi s.registry pi' s'.registry ∧
    pi'.memen = (turnsMemen w.coff w.bytes w.val).getD pi.memen
  absent : s.fiDevi w.bdf = none → s' = s
  others : ∀ b ≠ w.bdf, s'.fiDevi b = s.fiDevi b

theorem Written.inv (h : Written s w s') (hInv : s.Inv) : s'.Inv := by
  cases hDev : s.fiDevi w.bdf with
  | none =>
    rw [h.absent hDev]
    exact hInv
  | some pi =>
    obtain ⟨pi', hDev', hDecoded, -⟩ := h.device pi hDev
    have hBdf := hInv.bdf _ _ hDev
    have hCases : ∀ b x, s'.fiDevi b = some x →
        b = w.bdf ∧ x = pi' ∨ b ≠ w.bdf ∧ s.fiDevi b = some x := by
      intro b x hx
      by_cases hb : b = w.bdf
      · subst hb
        exact .inl ⟨rfl, (Option.some.inj (hDev'.symm.trans hx)).symm⟩
      · exact .inr ⟨hb, (h.others b hb).symm.trans hx⟩
    refine ⟨hDecoded.ok, fun b x hx => ?_, fun b x hx => ?_, fun b x hx => ?_⟩
    · rcases hCases b x hx with ⟨rfl, rfl⟩ | ⟨-, hx⟩
      · exact hDecoded.layout.bdf.trans hBdf
      · exact hInv.bdf b x hx
    · rcases hCases b x hx with ⟨rfl, rfl⟩ | ⟨-, hx⟩
      · exact hDecoded.bars
      · exact hInv.bars b x hx
    · rcases hCases b x hx with ⟨rfl, rfl⟩ | ⟨hb, hx⟩
      · exact hDecoded.live (hInv.live _ pi hDev)
      · intro hOn i hMem
        have hOf : Of b (x.window i) := window_of_iff.mpr (hInv.bdf b x hx).symm
        exact (hDecoded.mem_iff_of_other (hBdf.symm ▸ hb) hOf).mpr (hInv.live b x hx hOn i hMem)

theorem written_refl (hInv : s.Inv)
    (hTurn : ∀ pi, s.fiDevi w.bdf = some pi → turnsMemen w.coff w.bytes w.val = none) :
    Written s w s := by
  refine ⟨fun pi hDev => ⟨pi, hDev, decoded_refl (hInv.bars _ _ hDev) hInv.ok, ?_⟩, fun _ => rfl,
    fun _ _ => rfl⟩
  rw [hTurn pi hDev]
  rfl

theorem Pci.write_spec (hInv : s.Inv) (hClear : w.Clear s) :
    Yields ConfigFault (Written s w) (s.write w) := by
  unfold Pci.write Pci.pciCfgrw
  cases hDev : s.fiDevi w.bdf with
  | none => exact written_refl hInv fun pi h => by simp [hDev] at h
  | some pi =>
    dsimp only
    split
    · next hBad =>
      refine written_refl hInv fun _ _ => if_neg ?_
      rintro (⟨hCoff, hBytes⟩ | ⟨hCoff, hBytes⟩) <;> simp [hCoff, hBytes] at hBad
    · next hGood =>
      obtain ⟨hBytes, hAlign⟩ := not_or.mp hGood
      have hWidth : Width w.bytes := by
        simp only [Width]
        omega
      split
      · next hHigh =>
        simp only [PCI_REGMAX] at hHigh
        exact written_refl hInv fun _ _ => if_neg (by omega)
      · have hBdf := hInv.bdf _ _ hDev
        have hWrite := pciCfgwrite_decoded hInv.ok (hInv.bars _ _ hDev) (hInv.live _ _ hDev) hWidth
          (not_not.mp hAlign) (hClear pi hDev)
        cases hResult : pciCfgwrite pi s.registry w.coff w.bytes w.val with
        | error fault => exact hWrite.of_error hResult
        | ok r =>
          obtain ⟨hDecoded, hMemen⟩ := hWrite.of_ok hResult
          have hBdf' : r.1.bdf = w.bdf := hDecoded.layout.bdf.trans hBdf
          refine ⟨fun x hx => ?_, fun hNone => by simp [hDev] at hNone, fun b hb => ?_⟩
          · obtain rfl := Option.some.inj (hDev.symm.trans hx)
            refine ⟨r.1, ?_, hDecoded, hMemen⟩
            exact setDevi_eq_some_iff.mpr (.inl ⟨hBdf'.symm, rfl⟩)
          · simp [Pci.setDevi, hBdf', hb]

/-- What every write keeps, a run keeps, and no registration assertion fails on the way. -/
theorem run_write_yields {P : Pci T → Prop} {Q : CfgWrite → Prop}
    (hStep : ∀ s w s', s.Inv → P s → Q w → Written s w s' → P s') {ws : List CfgWrite}
    (hInv : s.Inv) (hP : P s) (hQ : ∀ w ∈ ws, Q w)
    (hClear : Along Pci.write (fun s w => w.Clear s) s ws) :
    Yields ConfigFault (fun s' => s'.Inv ∧ P s') (run Pci.write s ws) := by
  refine run_yields (fun s w hs hw => ?_) ⟨hInv, hP⟩ (hClear.and_forall hQ)
  exact (Pci.write_spec hs.1 hw.1).imp fun s' _ hWritten =>
    ⟨hWritten.inv hs.1, hStep s w s' hs.1 hs.2 hw.2 hWritten⟩

end Writes

section Decoding

variable {s s' : Pci T} {w : CfgWrite} {b : Bdf} {pi : PciDevinst}

def ExactAt (b : Bdf) (s : Pci T) : Prop := ∀ pi, s.fiDevi b = some pi → Exact pi s.registry

theorem Pci.Inv.coherent_iff (hInv : s.Inv) : s.Coherent b ↔ ExactAt b s :=
  forall₂_congr fun pi hPi => coherent_iff_exact (hInv.bars b pi hPi) (hInv.live b pi hPi)

/-- The function as `init_pci` left it: its windows are registered, but it decodes nothing. -/
structure Untouched (b : Bdf) (pi : PciDevinst) (s : Pci T) : Prop where
  device : s.fiDevi b = some pi
  off : pi.memen = false
  own : ∀ r, Of b r → (r ∈ s.registry.ranges ↔ r ∈ pi.windows)

theorem SetUp.untouched (h : SetUp s {ecfgRange}) (hPi : s.fiDevi b = some pi) :
    Untouched b pi s := by
  refine ⟨hPi, h.off b pi hPi, fun r hOf => (h.exact r).trans ?_⟩
  constructor
  · rintro (rfl | ⟨b', pi', hPi', hr⟩)
    · simp [Of, ecfgRange] at hOf
    · obtain ⟨i, -, rfl⟩ := id hr
      obtain rfl : b = b' := (window_of_iff.mp hOf).trans (h.bdf b' pi' hPi')
      exact Option.some.inj (hPi'.symm.trans hPi) ▸ hr
  · exact fun hr => .inr ⟨b, pi, hPi, hr⟩

theorem Written.own_iff (h : Written s w s') (hInv : s.Inv) (hb : w.bdf ≠ b) {r : PciRange}
    (hOf : Of b r) : r ∈ s'.registry.ranges ↔ r ∈ s.registry.ranges := by
  cases hDev : s.fiDevi w.bdf with
  | none => rw [h.absent hDev]
  | some pi' =>
    obtain ⟨_, _, hDecoded, -⟩ := h.device pi' hDev
    refine hDecoded.mem_iff_of_other ?_ hOf
    rw [hInv.bdf _ _ hDev]
    exact hb.symm

theorem Untouched.written (h : Untouched b pi s) (hInv : s.Inv) (hb : w.bdf ≠ b)
    (hWritten : Written s w s') : Untouched b pi s' where
  device := (hWritten.others b hb.symm).trans h.device
  off := h.off
  own r hOf := (hWritten.own_iff hInv hb hOf).trans (h.own r hOf)

theorem ExactAt.written (h : ExactAt b s) (hInv : s.Inv) (hWritten : Written s w s') :
    ExactAt b s' := by
  intro pi' hPi'
  by_cases hb : w.bdf = b
  · subst hb
    cases hDev : s.fiDevi w.bdf with
    | none =>
      rw [hWritten.absent hDev] at hPi' ⊢
      exact h pi' hPi'
    | some pi =>
      obtain ⟨x, hx, hDecoded, -⟩ := hWritten.device pi hDev
      obtain rfl := Option.some.inj (hx.symm.trans hPi')
      exact hDecoded.exact (h pi hDev)
  · have hPi := (hWritten.others b (Ne.symm hb)).symm.trans hPi'
    intro r hr hOf
    refine h pi' hPi r ?_ hOf
    rw [hInv.bdf b pi' hPi] at hOf
    exact (hWritten.own_iff hInv hb hOf).mp hr

theorem Untouched.exactAt_of_enables (h : Untouched b pi s) (hInv : s.Inv) (hOn : w.Enables b)
    (hWritten : Written s w s') : ExactAt b s' := by
  obtain ⟨rfl, hTurn⟩ := hOn
  intro pi' hPi'
  obtain ⟨x, hx, hDecoded, hMemen⟩ := hWritten.device pi h.device
  obtain rfl := Option.some.inj (hx.symm.trans hPi')
  refine hDecoded.exact_of_enabled h.off (by rw [hMemen, hTurn]; rfl) fun r hr hOf => ?_
  rw [hInv.bdf _ pi h.device] at hOf
  exact (h.own r hOf).mp hr

/-- Any other write leaves the windows of the function registered, and decoding off. -/
theorem Untouched.not_exactAt (h : Untouched b pi s) (hInv : s.Inv) {idx : Nat}
    (hMem : pi.IsMem idx) (hOff : ¬ w.Enables b) (hWritten : Written s w s') : ¬ ExactAt b s' := by
  have hOf : Of b (pi.window idx) := window_of_iff.mpr (hInv.bdf b pi h.device).symm
  have hIn : pi.window idx ∈ s.registry.ranges := (h.own _ hOf).mpr ⟨idx, hMem, rfl⟩
  intro hExact
  by_cases hb : w.bdf = b
  · subst hb
    obtain ⟨pi', hPi', hDecoded, hMemen⟩ := hWritten.device pi h.device
    have hOff' : pi'.memen = false := by
      rw [hMemen, h.off]
      cases hTurn : turnsMemen w.coff w.bytes w.val with
      | none => rfl
      | some on =>
        cases on with
        | false => rfl
        | true => exact absurd ⟨rfl, hTurn⟩ hOff
    rw [← hDecoded.ranges_of_off h.off hOff'] at hIn
    have hOn := (hExact pi' hPi' _ hIn (window_of_iff.mpr hDecoded.layout.bdf)).1
    simp [hOff'] at hOn
  · have hUntouched := h.written hInv hb hWritten
    have hOn := (hExact pi hUntouched.device _ ((hUntouched.own _ hOf).mpr ⟨idx, hMem, rfl⟩)
      (window_of_iff.mpr rfl)).1
    simp [h.off] at hOn

theorem Untouched.exactAt_of_no_mem (h : Untouched b pi s) (hInv : s.Inv)
    (hNone : ∀ idx, ¬ pi.IsMem idx) : ExactAt b s := by
  intro x hx r hr hOf
  obtain rfl := Option.some.inj (h.device.symm.trans hx)
  rw [hInv.bdf b pi hx] at hOf
  obtain ⟨i, hMem, -⟩ := (h.own r hOf).mp hr
  exact absurd hMem (hNone i)

variable {ws : List CfgWrite}

theorem Untouched.run_others (h : Untouched b pi s) (hInv : s.Inv) (hOthers : ∀ w ∈ ws, w.bdf ≠ b)
    (hClear : Along Pci.write (fun s w => w.Clear s) s ws) (hRun : run Pci.write s ws = .ok s') :
    s'.Inv ∧ Untouched b pi s' :=
  (run_write_yields (fun _ _ _ hInv hUntouched hOther hWritten =>
    hUntouched.written hInv hOther hWritten) hInv h hOthers hClear).of_ok hRun

theorem ExactAt.run (h : ExactAt b s) (hInv : s.Inv)
    (hClear : Along Pci.write (fun s w => w.Clear s) s ws)
    (hRun : Fallible.run Pci.write s ws = .ok s') : s'.Inv ∧ ExactAt b s' :=
  (run_write_yields (fun _ _ _ hInv hExact _ hWritten => hExact.written hInv hWritten) hInv h
    (fun _ _ => trivial) hClear).of_ok hRun

theorem Untouched.run_first (h : Untouched b pi s) (hInv : s.Inv) (hOthers : ∀ x ∈ ws, x.bdf ≠ b)
    {rest : List CfgWrite}
    (hClear : Along Pci.write (fun s w => w.Clear s) s (ws ++ w :: rest))
    (hRun : run Pci.write s (ws ++ w :: rest) = .ok s') :
    ∃ t t', run Pci.write s (ws ++ [w]) = .ok t' ∧ t.Inv ∧ Untouched b pi t ∧ Written t w t' ∧
      Along Pci.write (fun s w => w.Clear s) t' rest ∧ run Pci.write t' rest = .ok s' := by
  obtain ⟨hClear₁, hClear₂⟩ := hClear.append
  obtain ⟨t, hRun₁, hRun₂⟩ := run_append_eq_ok_iff.mp hRun
  obtain ⟨t', hWrite, hRest⟩ := run_cons_eq_ok_iff.mp hRun₂
  obtain ⟨hInv', hUntouched⟩ := h.run_others hInv hOthers hClear₁ hRun₁
  obtain ⟨hClearW, hClear'⟩ := hClear₂ t hRun₁
  refine ⟨t, t', ?_, hInv', hUntouched, (Pci.write_spec hInv' hClearW).of_ok hWrite,
    hClear' t' hWrite, hRest⟩
  exact run_append_eq_ok_iff.mpr ⟨t, hRun₁, run_cons_eq_ok_iff.mpr ⟨t', hWrite, rfl⟩⟩

/-- Coherence after every prefix with a write that `counts` comes down to the first such write. -/
theorem Untouched.coherent_iff (h : Untouched b pi s) (hInv : s.Inv)
    (hRun : run Pci.write s ws = .ok s') (hClear : Along Pci.write (fun s w => w.Clear s) s ws)
    {counts : CfgWrite → Bool} (hCounts : ∀ w, w.bdf = b → counts w = true) :
    (∀ pre t, pre <+: ws → (∃ w ∈ pre, counts w = true) → run Pci.write s pre = .ok t →
      t.Coherent b) ↔
    (∀ idx, ¬ pi.IsMem idx) ∨ ∀ w, ws.find? counts = some w → w.Enables b := by
  have hOthers : ∀ before : List CfgWrite, (∀ x ∈ before, !counts x) → ∀ x ∈ before, x.bdf ≠ b := by
    intro before hBefore x hx hEq
    have hNot := hBefore x hx
    simp [hCounts x hEq] at hNot
  constructor
  · intro hAll
    by_cases hNone : ∀ idx, ¬ pi.IsMem idx
    · exact .inl hNone
    · obtain ⟨idx, hMem⟩ := not_forall_not.mp hNone
      refine .inr fun w hFind => Decidable.byContradiction fun hOff => ?_
      obtain ⟨hCount, before, after, rfl, hBefore⟩ := List.find?_eq_some_iff_append.mp hFind
      obtain ⟨t, t', hRun', hInv', hUntouched, hWritten, -⟩ :=
        h.run_first hInv (hOthers before hBefore) hClear hRun
      have hPrefix : before ++ [w] <+: before ++ w :: after := by simp
      have hCoherent := hAll _ t' hPrefix ⟨w, by simp, hCount⟩ hRun'
      exact hUntouched.not_exactAt hInv' hMem hOff hWritten
        ((hWritten.inv hInv').coherent_iff.mp hCoherent)
  · rintro hStart pre t ⟨after, rfl⟩ ⟨w', hw', hCount'⟩ hRunPre
    have hClearPre := hClear.append.1
    rcases hStart with hNone | hFirst
    · obtain ⟨hInv', hExact⟩ := (h.exactAt_of_no_mem hInv hNone).run hInv hClearPre hRunPre
      exact hInv'.coherent_iff.mpr hExact
    · obtain ⟨w, hFind⟩ := Option.isSome_iff_exists.mp
        (List.find?_isSome.mpr ⟨w', hw', hCount'⟩)
      have hOn := hFirst w (by rw [List.find?_append, hFind]; rfl)
      obtain ⟨-, before, rest, rfl, hBefore⟩ := List.find?_eq_some_iff_append.mp hFind
      obtain ⟨u, u', -, hInv', hUntouched, hWritten, hClearRest, hRest⟩ :=
        h.run_first hInv (hOthers before hBefore) hClearPre hRunPre
      obtain ⟨hDone, hExact⟩ := (hUntouched.exactAt_of_enables hInv' hOn hWritten).run
        (hWritten.inv hInv') hClearRest hRest
      exact hDone.coherent_iff.mpr hExact

/-- BARs, configuration space and registry of a function of `init_pci` agree after every write of
a run exactly if the run starts by setting the function's `COMMAND.MEMEN`, and after every write
from its own first one on exactly if that one does. -/
theorem barDecode_coherent_iff {buses : List (List FuncInfo)} {s₀ : Pci T} (hPlan : PlanOk buses)
    (hInit : initPci T buses = .ok s₀) (hDevi : s₀.fiDevi b = some pi)
    (hRun : run Pci.write s₀ ws = .ok s) (hClear : Along Pci.write (fun s w => w.Clear s) s₀ ws) :
    ((∀ pre t, pre <+: ws → pre ≠ [] → run Pci.write s₀ pre = .ok t → t.Coherent b) ↔
      (∀ idx, ¬ pi.IsMem idx) ∨ ∀ w, ws.head? = some w → w.Enables b) ∧
    ((∀ pre t, pre <+: ws → (∃ w ∈ pre, w.bdf = b) → run Pci.write s₀ pre = .ok t →
        t.Coherent b) ↔
      (∀ idx, ¬ pi.IsMem idx) ∨ ∀ w, ws.find? (fun w => w.bdf = b) = some w → w.Enables b) := by
  obtain ⟨s₁, hInit₁, hSetUp⟩ := initPci_setUp (T := T) hPlan
  obtain rfl := Except.ok.inj (hInit₁.symm.trans hInit)
  have hUntouched := hSetUp.untouched hDevi
  constructor
  · have hAny := @Untouched.coherent_iff _ _ _ _ _ _ hUntouched hSetUp.inv hRun hClear (fun _ => true)
      fun _ _ => rfl
    have hHead : ws.find? (fun _ => true) = ws.head? := by
      cases ws <;> rfl
    rw [hHead] at hAny
    rw [← hAny]
    refine forall₃_congr fun pre t _ => imp_congr_left ⟨fun hNe => ?_, ?_⟩
    · obtain ⟨w, hw⟩ := List.exists_mem_of_ne_nil pre hNe
      exact ⟨w, hw, rfl⟩
    · rintro ⟨w, hw, -⟩
      exact List.ne_nil_of_mem hw
  · have hOwn := @Untouched.coherent_iff _ _ _ _ _ _ hUntouched hSetUp.inv hRun hClear
      (fun w => decide (w.bdf = b)) fun w hb => decide_eq_true hb
    simpa only [decide_eq_true_eq] using hOwn

end Decoding

/-- Registered windows overlap nothing, so that enabling them is always clear. -/
theorem Registry.noOverlap_of_registered {m : Registry T} (hOk : m.Ok) {rs : Set PciRange}
    (hIn : ∀ r ∈ rs, r ∈ m.ranges) : m.NoOverlap rs := by
  intro r hr r' hr'
  obtain ⟨e, he, rfl⟩ := hIn r hr
  obtain ⟨e', he', rfl⟩ := hr'.elim id (hIn r')
  by_cases hEq : e' = e
  · exact .inl (hEq ▸ rfl)
  · exact .inr fun a hCov => hEq (hOk.mem.root.eq_of_covers he' he hCov.1 hCov.2)

section Examples

theorem e82545_device : ∃ s₀ pi, initPci unbalancedTree bhyvePciBuses = .ok s₀ ∧
    SetUp s₀ {ecfgRange} ∧ s₀.fiDevi ⟨0, 0, 0⟩ = some pi ∧ pi.IsMem 0 := by
  obtain ⟨s₀, hInit, hSetUp⟩ := initPci_setUp (T := unbalancedTree) planOk_bhyvePciBuses
  have hType : (initPci unbalancedTree bhyvePciBuses).toOption.bind (fun s =>
      (s.fiDevi ⟨0, 0, 0⟩).map fun pi => (pi.piBar 0).type) = some .mem32 := by decide
  rw [hInit] at hType
  obtain ⟨pi, hDevi, hMem⟩ := Option.map_eq_some_iff.mp hType
  exact ⟨s₀, pi, hInit, hSetUp, hDevi, Nat.zero_le _, .inl hMem⟩

theorem Untouched.clear {s : Pci T} {w : CfgWrite} {pi : PciDevinst} (hInv : s.Inv)
    (h : Untouched w.bdf pi s) : w.Clear s := by
  intro x hx
  obtain rfl := Option.some.inj (h.device.symm.trans hx)
  refine Registry.noOverlap_of_registered hInv.ok fun r hr => ?_
  simp only [newWindows, h.off] at hr
  obtain ⟨i, hMem, rfl⟩ := hr.2
  refine (h.own _ (window_of_iff.mpr ?_)).mpr ⟨i, hMem, rfl⟩
  exact (hInv.bdf _ _ hx).symm

theorem barDecode_coherent_iff_e82545 : ∃ s₀ s pi, ∃ w : CfgWrite,
    initPci unbalancedTree bhyvePciBuses = .ok s₀ ∧ s₀.fiDevi ⟨0, 0, 0⟩ = some pi ∧
    w.Enables ⟨0, 0, 0⟩ ∧ run Pci.write s₀ [w] = .ok s ∧ s.Coherent ⟨0, 0, 0⟩ := by
  obtain ⟨s₀, pi, hInit, hSetUp, hDevi, -⟩ := e82545_device
  have hRuns : fault? (initPci unbalancedTree bhyvePciBuses >>= fun s =>
      run Pci.write s [⟨⟨0, 0, 0⟩, PCIR_COMMAND, 2, 2⟩]) = none := by decide
  rw [hInit, ok_bind] at hRuns
  obtain ⟨s, hRun⟩ := fault?_eq_none_iff.mp hRuns
  have hUntouched := hSetUp.untouched hDevi
  refine ⟨s₀, s, pi, _, hInit, hDevi, ⟨rfl, by decide⟩, hRun, ?_⟩
  have hIff := (barDecode_coherent_iff planOk_bhyvePciBuses hInit hDevi hRun
    ⟨hUntouched.clear hSetUp.inv, fun _ _ => trivial⟩).1
  refine hIff.mpr (.inr ?_) _ s List.prefix_rfl (List.cons_ne_nil _ _) hRun
  rintro w ⟨rfl⟩
  exact ⟨rfl, by decide⟩

/-- A first write that is not to `COMMAND` finds the windows registered and decoding off. -/
theorem barDecode_incoherent_first : ¬ ∀ (s₀ s : Pci unbalancedTree) (ws : List CfgWrite) (b : Bdf),
    initPci unbalancedTree bhyvePciBuses = .ok s₀ → run Pci.write s₀ ws = .ok s →
    Along Pci.write (fun s w => w.Clear s) s₀ ws → ws ≠ [] → s.Coherent b := by
  intro hAll
  obtain ⟨s₀, pi, hInit, hSetUp, hDevi, hMem⟩ := e82545_device
  have hRuns : fault? (initPci unbalancedTree bhyvePciBuses >>= fun s =>
      run Pci.write s [⟨⟨0, 0, 0⟩, PCIR_INTLINE, 1, 10⟩]) = none := by decide
  rw [hInit, ok_bind] at hRuns
  obtain ⟨s, hRun⟩ := fault?_eq_none_iff.mp hRuns
  have hUntouched := hSetUp.untouched hDevi
  have hClear : CfgWrite.Clear s₀ ⟨⟨0, 0, 0⟩, PCIR_INTLINE, 1, 10⟩ := hUntouched.clear hSetUp.inv
  have hWrite : s₀.write ⟨⟨0, 0, 0⟩, PCIR_INTLINE, 1, 10⟩ = .ok s := by
    obtain ⟨s', hWrite, hNil⟩ := run_cons_eq_ok_iff.mp hRun
    exact hWrite.trans hNil
  have hWritten := (Pci.write_spec hSetUp.inv hClear).of_ok hWrite
  have hCoherent := hAll s₀ s _ ⟨0, 0, 0⟩ hInit hRun ⟨hClear, fun _ _ => trivial⟩
    (List.cons_ne_nil _ _)
  exact hUntouched.not_exactAt hSetUp.inv hMem (by decide) hWritten
    ((hWritten.inv hSetUp.inv).coherent_iff.mp hCoherent)

end Examples

/-- The assertions of `modify_bar_registration` and `unregister_mem`. -/
inductive RegistrationFault : Fault → Prop
  | name : RegistrationFault .unregisterMemName
  | extent : RegistrationFault .unregisterMemExtent
  | immutable : RegistrationFault .unregisterMemImmutable
  | error : RegistrationFault .modifyBarRegistration

theorem ConfigFault.not_registration {f : Fault} (h : ConfigFault f) : ¬ RegistrationFault f := by
  cases h <;> rintro ⟨⟩

/-- No write that keeps clear of other windows stops at an assertion of the BAR registration. -/
theorem bars_safe_of_plan {buses : List (List FuncInfo)} {s₀ : Pci T} (hPlan : PlanOk buses)
    (hInit : initPci T buses = .ok s₀) {ws : List CfgWrite}
    (hClear : Along Pci.write (fun s w => w.Clear s) s₀ ws) {f : Fault} (hFault : RegistrationFault f) :
    run Pci.write s₀ ws ≠ .error f := by
  obtain ⟨s, hInit', hSetUp⟩ := initPci_setUp (T := T) hPlan
  obtain rfl := Except.ok.inj (hInit'.symm.trans hInit)
  have hYields := run_write_yields (P := fun _ => True) (Q := fun _ => True)
    (fun _ _ _ _ _ _ _ => trivial) hSetUp.inv trivial (fun _ _ => trivial) hClear
  exact fun hStop => (hYields.of_error hStop).not_registration hFault

/-- The e1000 and the AHCI controller, under any writes whose windows keep clear of each other. -/
theorem guestBars_safe {s₀ : Pci T} (hInit : bhyvePciInit T = .ok s₀) {ws : List CfgWrite}
    (hClear : Along Pci.write (fun s w => w.Clear s) s₀ ws) {f : Fault} (hFault : RegistrationFault f) :
    run Pci.write s₀ ws ≠ .error f :=
  bars_safe_of_plan planOk_bhyvePciBuses hInit hClear hFault

theorem guestBars_safe_enable : ∃ s₀, bhyvePciInit unbalancedTree = .ok s₀ ∧
    run Pci.write s₀ [⟨⟨0, 0, 0⟩, PCIR_COMMAND, 2, 2⟩] ≠ .error .modifyBarRegistration := by
  obtain ⟨s₀, pi, hInit, hSetUp, hDevi, -⟩ := e82545_device
  have hUntouched := hSetUp.untouched hDevi
  refine ⟨s₀, hInit, guestBars_safe hInit ?_ .error⟩
  exact ⟨hUntouched.clear hSetUp.inv, fun _ _ => trivial⟩

/-- The second BAR of the e1000 is programmed onto the first one, which is not noticed, and then
moved away: the range that should be unregistered was never there. -/
theorem guestBars_unsafe_overlap : ¬ ∀ (s₀ : Pci unbalancedTree) (ws : List CfgWrite) (f : Fault),
    bhyvePciInit unbalancedTree = .ok s₀ → RegistrationFault f → run Pci.write s₀ ws ≠ .error f := by
  intro hAll
  have hStop : fault? (bhyvePciInit unbalancedTree >>= fun s => run Pci.write s
      [⟨⟨0, 0, 0⟩, PCIR_COMMAND, 2, 2⟩, ⟨⟨0, 0, 0⟩, PCIR_BAR 1, 4, 0xfdb20000⟩,
        ⟨⟨0, 0, 0⟩, PCIR_BAR 1, 4, 0xfdb40000⟩]) = some .unregisterMemExtent := by decide
  cases hInit : bhyvePciInit unbalancedTree with
  | error f =>
    obtain ⟨s, hInit', -⟩ := initPci_setUp (T := unbalancedTree) planOk_bhyvePciBuses
    exact absurd (hInit.symm.trans hInit') (by simp)
  | ok s₀ =>
    rw [hInit, ok_bind, fault?_eq_some_iff] at hStop
    exact hAll s₀ _ _ hInit .extent hStop

end DeviceModel.PciEmul

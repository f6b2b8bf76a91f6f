import DeviceModel.MemRegistry
import DeviceModel.PciConfig
import DeviceModel.PciEmul
import Mathlib.Order.BooleanAlgebra.Set

/-!
# BARs, command register and registry moving together

The registry is seen as the set of ranges in its root tree: registering a range
that overlaps nothing but itself inserts it, unregistering a range that is there
takes it out. `Decoded` lists what one configuration write can do to a device
and that set; the invariants of `Pci.Inv` are read off from its cases.
-/

set_option autoImplicit false

namespace DeviceModel.PciEmul

open SearchTree Interval Mem Fallible PowerOfTwo

variable {T : PciTree}

namespace Registry

def ranges (m : Registry T) : Set PciRange :=
  {r | ∃ e ∈ T.nodes m.mem.mmioRbRoot, e.mrParam = r}

/-- What holds of the registry at all times: nothing is ever put in the fallback tree. -/
structure Ok (m : Registry T) : Prop where
  mem : m.mem.Inv
  fallback : T.nodes m.mem.mmioRbFallback = []
  fresh : ∀ e ∈ T.nodes m.mem.mmioRbRoot, e.ptr < m.brk
  noWrap : ∀ r ∈ m.ranges, r.NoWrap
  pos : ∀ r ∈ m.ranges, 0 < r.size

def Clear (m : Registry T) (r : PciRange) : Prop :=
  ∀ r' ∈ m.ranges, r' = r ∨ r'.span.Disjoint r.span

variable {m : Registry T} {r : PciRange}

theorem Ok.fresh_live (hOk : m.Ok) : (Call.registerMem r (some m.brk)).Fresh m.mem := by
  rintro p ⟨rfl⟩ e he hEq
  simp only [Mmio.live, hOk.fallback, List.append_nil] at he
  exact Nat.ne_of_lt (hOk.fresh e he) hEq

theorem registerMem_spec (hOk : m.Ok) (hWrap : r.NoWrap) (hPos : 0 < r.size) (hClear : m.Clear r) :
    ∃ m', m.registerMem r = (0, m') ∧ m'.Ok ∧ m'.ranges = insert r m.ranges := by
  have hInv := hOk.mem.registerMem hWrap hOk.fresh_live
  have hCases := registerMemInt_cases hOk.mem.root hWrap (some m.brk)
  have hBase := r.covers_base hWrap hPos
  unfold registerMem
  unfold Mmio.registerMem at hInv ⊢
  generalize registerMemInt m.mem.mmioRbRoot r (some m.brk) = x at hCases hInv ⊢
  cases hCases with
  | enomem h => cases h
  | @covered e _ he hCov =>
    obtain rfl : e.mrParam = r := by
      refine (hClear _ ⟨e, he, rfl⟩).resolve_right fun hDisj => ?_
      exact hDisj _ ⟨hCov, hBase⟩
    refine ⟨⟨m.mem, m.brk + 1⟩, rfl, ⟨hInv, hOk.fallback, ?_, hOk.noWrap, hOk.pos⟩, ?_⟩
    · intro f hf
      exact Nat.lt_succ_of_lt (hOk.fresh f hf)
    · have hMem : e.mrParam ∈ m.ranges := ⟨e, he, rfl⟩
      exact (Set.insert_eq_of_mem hMem).symm
  | @collides e _ hFree he hEq =>
    exfalso
    rcases hClear _ ⟨e, he, rfl⟩ with rfl | hDisj
    · exact hFree e he hBase
    · have hBase' := MemRange.covers_base (hOk.noWrap _ ⟨e, he, rfl⟩) (hOk.pos _ ⟨e, he, rfl⟩)
      rw [mmioRbRangeCompare_eq, Span.compare_eq] at hEq
      rcases Nat.le_total r.span.first e.span.first with hLe | hLe
      · exact hDisj e.span.first ⟨⟨Nat.le_refl _, Nat.le_trans hBase'.1 hBase'.2⟩, hLe, hEq.1⟩
      · exact hDisj r.span.first ⟨⟨hLe, hEq.2⟩, Nat.le_refl _, Nat.le_trans hBase.1 hBase.2⟩
  | @inserted p rbt' hMalloc hFree hApart hOrd hNodes =>
    obtain rfl := Option.some.inj hMalloc
    have hRanges : (⟨⟨rbt', m.mem.mmioRbFallback, m.mem.mmioHint⟩, m.brk + 1⟩ : Registry T).ranges =
        insert r m.ranges := by
      ext r'
      simp only [ranges, hNodes, Set.mem_ofPred_eq, Set.mem_insert_iff]
      constructor
      · rintro ⟨e, rfl | he, rfl⟩
        · exact .inl rfl
        · exact .inr ⟨e, he, rfl⟩
      · rintro (rfl | ⟨e, he, rfl⟩)
        · exact ⟨_, .inl rfl, rfl⟩
        · exact ⟨e, .inr he, rfl⟩
    refine ⟨_, rfl, ⟨hInv, hOk.fallback, ?_, ?_, ?_⟩, hRanges⟩
    · intro e he
      rcases (hNodes e).mp he with rfl | he
      · exact Nat.lt_succ_self _
      · exact Nat.lt_succ_of_lt (hOk.fresh e he)
    · rw [hRanges]
      rintro r' (rfl | hr')
      · exact hWrap
      · exact hOk.noWrap r' hr'
    · rw [hRanges]
      rintro r' (rfl | hr')
      · exact hPos
      · exact hOk.pos r' hr'

theorem unregisterMem_spec (hOk : m.Ok) (hMem : r ∈ m.ranges) (hMut : ¬ r.immutable)
    {memp : PciRange} (hSame : r.SameRange memp) :
    ∃ m', m.unregisterMem memp = .ok (0, m') ∧ m'.Ok ∧ m'.ranges = m.ranges \ {r} := by
  obtain ⟨e, he, rfl⟩ := hMem
  have hBase : e.span.Covers memp.base := by
    rw [← hSame.2.1]
    exact MemRange.covers_base (hOk.noWrap _ ⟨e, he, rfl⟩) (hOk.pos _ ⟨e, he, rfl⟩)
  have hUnreg := Mmio.unregisterMem_of_mem hOk.mem.root he hBase hSame hMut
  have hInv := hOk.mem.unregisterMem hUnreg
  have hSub : ∀ f, f ∈ T.nodes (T.removeNode e m.mem.mmioRbRoot) → f ∈ T.nodes m.mem.mmioRbRoot :=
    fun f hf => (T.mem_nodes_removeNode.mp hf).1
  refine ⟨⟨_, m.brk⟩, by rw [unregisterMem, hUnreg]; rfl, ⟨hInv, hOk.fallback, ?_, ?_, ?_⟩, ?_⟩
  · exact fun f hf => hOk.fresh f (hSub f hf)
  · rintro r' ⟨f, hf, rfl⟩
    exact hOk.noWrap _ ⟨f, hSub f hf, rfl⟩
  · rintro r' ⟨f, hf, rfl⟩
    exact hOk.pos _ ⟨f, hSub f hf, rfl⟩
  · ext r'
    constructor
    · rintro ⟨f, hf, rfl⟩
      refine ⟨⟨f, hSub f hf, rfl⟩, fun hEq => (T.mem_nodes_removeNode.mp hf).2 ?_⟩
      -- one range cannot sit in two nodes: they would cover the same base
      refine hOk.mem.root.eq_of_covers (hSub f hf) he ?_ hBase
      rw [MmioRbRange.span, hEq]
      exact hBase
    · rintro ⟨⟨f, hf, rfl⟩, hNe⟩
      refine ⟨f, T.mem_nodes_removeNode.mpr ⟨hf, ?_⟩, rfl⟩
      rintro rfl
      exact hNe rfl

end Registry

def Pcibar.isMem (bar : Pcibar) : Prop := bar.type = .mem32 ∨ bar.type = .mem64

/-- The size is a power of two, at least 16, and the address is a multiple of it. -/
def Pcibar.Aligned (bar : Pcibar) : Prop :=
  ∃ k, 4 ≤ k ∧ k < 64 ∧ bar.size = BitVec.twoPow 64 k ∧ LowZero k bar.addr

theorem Pcibar.Aligned.add_le {bar : Pcibar} (h : bar.Aligned) :
    bar.addr.toNat + bar.size.toNat ≤ 2 ^ 64 := by
  obtain ⟨k, -, hk, hSize, hAddr⟩ := h
  rw [hSize, BitVec.toNat_twoPow_of_lt hk]
  exact hAddr.add_le (Nat.le_of_lt hk)

theorem Pcibar.Aligned.size_pos {bar : Pcibar} (h : bar.Aligned) : 0 < bar.size.toNat := by
  obtain ⟨k, -, hk, hSize, -⟩ := h
  rw [hSize, BitVec.toNat_twoPow_of_lt hk]
  exact Nat.two_pow_pos k

theorem Pcibar.Aligned.mod_eq_zero {bar : Pcibar} (h : bar.Aligned) :
    bar.addr.toNat % bar.size.toNat = 0 := by
  obtain ⟨k, -, hk, hSize, hAddr⟩ := h
  rw [hSize, BitVec.toNat_twoPow_of_lt hk]
  exact lowZero_iff_mod.mp hAddr

namespace PciDevinst

variable (pi : PciDevinst)

/-- What BAR `idx` means: its address and the configuration dwords that spell it. -/
def BarOk (idx : Nat) : Prop :=
  match (pi.piBar idx).type with
  | .none | .io => True
  | .mem32 => (pi.piBar idx).Aligned ∧ (pi.piBar idx).addr >>> 32 = 0 ∧
      pi.pciGetCfgdata32 (PCIR_BAR idx) = (pi.piBar idx).addr.setWidth 32
  | .mem64 => (pi.piBar idx).Aligned ∧ idx + 1 ≤ PCI_BARMAX ∧
      (pi.piBar (idx + 1)).type = .memhi64 ∧
      pi.pciGetCfgdata32 (PCIR_BAR idx) &&& 0xfffffff0 = (pi.piBar idx).addr.setWidth 32 ∧
      pi.pciGetCfgdata32 (PCIR_BAR (idx + 1)) = ((pi.piBar idx).addr >>> 32).setWidth 32
  | .memhi64 => 0 < idx ∧ (pi.piBar (idx - 1)).type = .mem64

def BarsOk : Prop := ∀ idx ≤ PCI_BARMAX, pi.BarOk idx

def IsMem (idx : Nat) : Prop := idx ≤ PCI_BARMAX ∧ (pi.piBar idx).isMem

def windows : Set PciRange := {r | ∃ idx, pi.IsMem idx ∧ r = pi.window idx}

variable {pi} {pi' : PciDevinst}

theorem BarsOk.aligned (h : pi.BarsOk) {idx : Nat} (hMem : pi.IsMem idx) :
    (pi.piBar idx).Aligned := by
  have hBar := h idx hMem.1
  unfold BarOk at hBar
  rcases hMem.2 with hType | hType <;> rw [hType] at hBar <;> exact hBar.1

theorem window_noWrap {idx : Nat} (h : (pi.piBar idx).Aligned) : (pi.window idx).NoWrap := h.add_le

theorem window_pos {idx : Nat} (h : (pi.piBar idx).Aligned) : 0 < (pi.window idx).size := h.size_pos

theorem window_mutable (pi : PciDevinst) (idx : Nat) : ¬ (pi.window idx).immutable := by
  show ¬ MEM_F_RW &&& MEM_F_IMMUTABLE ≠ 0
  decide

theorem window_injective {i j : Nat} (h : pi.window i = pi'.window j) : i = j := by
  have hArg : (i : Int) = j := congrArg MemRange.arg2 h
  exact Int.ofNat_inj.mp hArg

theorem window_eq (hBdf : pi'.bdf = pi.bdf) {idx : Nat} (hBar : pi'.piBar idx = pi.piBar idx) :
    pi'.window idx = pi.window idx := by
  unfold window
  rw [hBdf, hBar]

theorem BarOk.congr {idx : Nat} (h : pi.BarOk idx)
    (hType : (pi'.piBar idx).type = (pi.piBar idx).type)
    (hBar : (pi.piBar idx).isMem → pi'.piBar idx = pi.piBar idx ∧
      pi'.pciGetCfgdata32 (PCIR_BAR idx) = pi.pciGetCfgdata32 (PCIR_BAR idx))
    (hHigh : (pi.piBar idx).type = .mem64 →
      (pi'.piBar (idx + 1)).type = (pi.piBar (idx + 1)).type ∧
      pi'.pciGetCfgdata32 (PCIR_BAR (idx + 1)) = pi.pciGetCfgdata32 (PCIR_BAR (idx + 1)))
    (hLow : (pi.piBar idx).type = .memhi64 →
      (pi'.piBar (idx - 1)).type = (pi.piBar (idx - 1)).type) : pi'.BarOk idx := by
  unfold BarOk at h ⊢
  rw [hType]
  cases hCase : (pi.piBar idx).type with
  | none | io => trivial
  | mem32 =>
    obtain ⟨hSame, hDword⟩ := hBar (.inl hCase)
    rw [hCase] at h
    rwa [hSame, hDword]
  | mem64 =>
    obtain ⟨hSame, hDword⟩ := hBar (.inr hCase)
    rw [hCase] at h
    rwa [hSame, hDword, (hHigh hCase).1, (hHigh hCase).2]
  | memhi64 =>
    rw [hCase] at h
    exact ⟨h.1, (hLow hCase).trans h.2⟩

/-- The dwords of the BARs lie in `[0x10, 0x28)`. -/
def InBars (off : Nat) : Prop := PCIR_BAR 0 ≤ off ∧ off < PCIR_BAR (PCI_BARMAX + 1)

theorem Frame.bars {touched : Nat → Prop} (h : Frame touched pi pi')
    (hOff : ∀ off, touched off → ¬ InBars off) (hBars : pi.BarsOk) : pi'.BarsOk := by
  have hDword : ∀ i ≤ PCI_BARMAX,
      pi'.pciGetCfgdata32 (PCIR_BAR i) = pi.pciGetCfgdata32 (PCIR_BAR i) := by
    intro i hi
    refine h.get32 fun k hk hIn => hOff _ hIn ?_
    simp only [InBars, PCIR_BAR, PCI_BARMAX] at hi ⊢
    omega
  intro i hi
  have hBar := hBars i hi
  refine hBar.congr (by rw [h.piBar]) (fun _ => ⟨by rw [h.piBar], hDword i hi⟩)
    (fun hType => ⟨by rw [h.piBar], ?_⟩) fun _ => by rw [h.piBar]
  unfold BarOk at hBar
  rw [hType] at hBar
  exact hDword _ hBar.2.1

theorem Frame.window {touched : Nat → Prop} (h : Frame touched pi pi') (idx : Nat) :
    pi'.window idx = pi.window idx := window_eq h.bdf (by rw [h.piBar])

/-- Everything one configuration write leaves as it was. -/
structure SameLayout (pi pi' : PciDevinst) : Prop where
  bdf : pi'.bdf = pi.bdf
  type : ∀ i, (pi'.piBar i).type = (pi.piBar i).type
  size : ∀ i, (pi'.piBar i).size = (pi.piBar i).size

theorem SameLayout.isMem (h : SameLayout pi pi') {idx : Nat} : pi'.IsMem idx ↔ pi.IsMem idx := by
  rw [IsMem, IsMem, Pcibar.isMem, Pcibar.isMem, h.type]

theorem Frame.sameLayout {touched : Nat → Prop} (h : Frame touched pi pi') : SameLayout pi pi' :=
  ⟨h.bdf, fun i => by rw [h.piBar], fun i => by rw [h.piBar]⟩

@[simp] theorem setBar_bdf (pi : PciDevinst) (idx : Nat) (bar : Pcibar) :
    (pi.setBar idx bar).bdf = pi.bdf := rfl

@[simp] theorem setBar_piCfgdata (pi : PciDevinst) (idx : Nat) (bar : Pcibar) :
    (pi.setBar idx bar).piCfgdata = pi.piCfgdata := rfl

@[simp] theorem setBar_piPrevcap (pi : PciDevinst) (idx : Nat) (bar : Pcibar) :
    (pi.setBar idx bar).piPrevcap = pi.piPrevcap := rfl

@[simp] theorem setBar_piCapend (pi : PciDevinst) (idx : Nat) (bar : Pcibar) :
    (pi.setBar idx bar).piCapend = pi.piCapend := rfl

@[simp] theorem setBar_get32 (pi : PciDevinst) (idx : Nat) (bar : Pcibar) (off : Nat) :
    (pi.setBar idx bar).pciGetCfgdata32 off = pi.pciGetCfgdata32 off := rfl

theorem setBarAddr_self (pi : PciDevinst) (idx : Nat) :
    pi.setBarAddr idx (pi.piBar idx).addr = pi := by
  simp [setBarAddr, setBar]

theorem setBarAddr_sameLayout (pi : PciDevinst) (idx : Nat) (addr : BitVec 64) :
    SameLayout pi (pi.setBarAddr idx addr) := by
  refine ⟨rfl, fun i => ?_, fun i => ?_⟩
  all_goals
    by_cases hi : i = idx
    · subst hi
      simp [setBarAddr, setBar]
    · simp [setBarAddr, setBar, hi]

theorem setBarAddr_piBar_self (pi : PciDevinst) (idx : Nat) (addr : BitVec 64) :
    (pi.setBarAddr idx addr).piBar idx = { pi.piBar idx with addr := addr } := by
  simp [setBarAddr, setBar]

theorem setBarAddr_piBar_of_ne (pi : PciDevinst) {idx i : Nat} (addr : BitVec 64) (h : i ≠ idx) :
    (pi.setBarAddr idx addr).piBar i = pi.piBar i := by
  simp [setBarAddr, setBar, h]

end PciDevinst

section UpdateBar

variable {pi : PciDevinst} {m : Registry T} {idx : Nat}

theorem registerBar_spec (hOk : m.Ok) (hMem : pi.IsMem idx) (hAligned : (pi.piBar idx).Aligned)
    (hClear : m.Clear (pi.window idx)) : ∃ m', registerBar pi m idx = .ok m' ∧ m'.Ok ∧
      m'.ranges = insert (pi.window idx) m.ranges := by
  obtain ⟨m', hReg, hOk', hRanges⟩ := Registry.registerMem_spec hOk
    (PciDevinst.window_noWrap hAligned) (PciDevinst.window_pos hAligned) hClear
  refine ⟨m', ?_, hOk', hRanges⟩
  unfold registerBar modifyBarRegistration
  rcases hMem.2 with hType | hType
  · rw [hType]
    simp [hReg]
  · rw [hType]
    simp [hReg]

theorem unregisterBar_spec (hOk : m.Ok) (hMem : pi.IsMem idx) (hIn : pi.window idx ∈ m.ranges) :
    ∃ m', unregisterBar pi m idx = .ok m' ∧ m'.Ok ∧ m'.ranges = m.ranges \ {pi.window idx} := by
  obtain ⟨m', hUnreg, hOk', hRanges⟩ := Registry.unregisterMem_spec hOk hIn
    (pi.window_mutable idx) (show (pi.window idx).SameRange (pi.windowOff idx) from ⟨rfl, rfl, rfl⟩)
  refine ⟨m', ?_, hOk', hRanges⟩
  unfold unregisterBar modifyBarRegistration
  rcases hMem.2 with hType | hType
  · rw [hType]
    simp [hUnreg]
  · rw [hType]
    simp [hUnreg]

/-- An enabled memory BAR moves its window; a disabled one moves its address only. -/
theorem updateBarAddress_spec (hOk : m.Ok) (hMem : pi.IsMem idx) {addr new : BitVec 64}
    {type : PcibarType} (hNew : updatedAddr (pi.piBar idx).addr addr type = .ok new)
    (hAligned : ((pi.setBarAddr idx new).piBar idx).Aligned)
    (hLive : pi.memen = true → pi.window idx ∈ m.ranges)
    (hClear : pi.memen = true → m.Clear ((pi.setBarAddr idx new).window idx)) :
    ∃ m', updateBarAddress pi m addr idx type = .ok (pi.setBarAddr idx new, m') ∧ m'.Ok ∧
      m'.ranges = if pi.memen then
        insert ((pi.setBarAddr idx new).window idx) (m.ranges \ {pi.window idx}) else m.ranges := by
  have hDecode : (if (pi.piBar idx).type = .io then pi.porten else pi.memen) = pi.memen := by
    rcases hMem.2 with hType | hType <;> simp [hType]
  have hMem' : (pi.setBarAddr idx new).IsMem idx :=
    (pi.setBarAddr_sameLayout idx new).isMem.mpr hMem
  unfold updateBarAddress
  rw [hDecode]
  cases hOn : pi.memen with
  | false => exact ⟨m, by simp [hNew], hOk, rfl⟩
  | true =>
    obtain ⟨m₁, hUnreg, hOk₁, hRanges₁⟩ := unregisterBar_spec hOk hMem (hLive hOn)
    have hClear₁ : m₁.Clear ((pi.setBarAddr idx new).window idx) := by
      intro r' hr'
      rw [hRanges₁] at hr'
      exact hClear hOn r' hr'.1
    obtain ⟨m₂, hReg, hOk₂, hRanges₂⟩ := registerBar_spec hOk₁ hMem' hAligned hClear₁
    refine ⟨m₂, ?_, hOk₂, by rw [hRanges₂, hRanges₁]; rfl⟩
    simp [hNew, hUnreg, hReg]

end UpdateBar

end DeviceModel.PciEmul

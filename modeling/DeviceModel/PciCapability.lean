import DeviceModel.PciLintr

/-!
# The capability chain

`pci_emul_add_capability` lays capabilities out one after another from offset 0x40
and links each to the next. `Chain` is that layout: while the two header bytes of
every capability and `STATUS.CAPPRESENT` stay as they were built, the search of
`pci_emul_capwrite` ends at the capability that holds the offset.
-/

set_option autoImplicit false

namespace DeviceModel.PciEmul

open SearchTree Mem Fallible PowerOfTwo PciDevinst

variable {T : PciTree}

structure Cap where
  off : Nat
  size : Nat
  id : BitVec 8

/-- The capabilities lie one after another from `start` to `stop`, in whole dwords. -/
def Tiled : Nat → List Cap → Nat → Prop
  | start, [], stop => start = stop
  | start, c :: cs, stop => c.off = start ∧ 0 < c.size ∧ c.size % 4 = 0 ∧ Tiled (start + c.size) cs stop

namespace Tiled

variable {start stop : Nat} {caps : List Cap} {c c' : Cap}

theorem le (h : Tiled start caps stop) : start ≤ stop := by
  induction caps generalizing start with
  | nil => exact Nat.le_of_eq h
  | cons c cs ih => exact Nat.le_trans (Nat.le_add_right _ _) (ih h.2.2.2)

theorem length_le (h : Tiled start caps stop) : start + 4 * caps.length ≤ stop := by
  induction caps generalizing start with
  | nil => exact Nat.le_of_eq h
  | cons c cs ih =>
    obtain ⟨-, hPos, hDword, hRest⟩ := h
    have hTail := ih hRest
    simp only [List.length_cons]
    omega

theorem append (h : Tiled start caps stop) (hOff : c.off = stop) (hPos : 0 < c.size)
    (hDword : c.size % 4 = 0) : Tiled start (caps ++ [c]) (stop + c.size) := by
  induction caps generalizing start with
  | nil =>
    obtain rfl : start = stop := h
    exact ⟨hOff, hPos, hDword, rfl⟩
  | cons c' cs ih => exact ⟨h.1, h.2.1, h.2.2.1, ih h.2.2.2⟩

theorem bounds (h : Tiled start caps stop) (hAlign : start % 4 = 0) (hMem : c ∈ caps) :
    start ≤ c.off ∧ c.off % 4 = 0 ∧ 0 < c.size ∧ c.size % 4 = 0 ∧ c.off + c.size ≤ stop := by
  induction caps generalizing start with
  | nil => exact absurd hMem List.not_mem_nil
  | cons c' cs ih =>
    obtain ⟨rfl, hPos, hDword, hRest⟩ := h
    obtain rfl | hMem := List.mem_cons.mp hMem
    · exact ⟨Nat.le_refl _, hAlign, hPos, hDword, hRest.le⟩
    · obtain ⟨hLe, hIn⟩ := ih hRest (by omega) hMem
      exact ⟨by omega, hIn⟩

/-- Each offset lies in one capability only. -/
theorem eq_of_covers (h : Tiled start caps stop) (hAlign : start % 4 = 0) {offset : Nat}
    (hMem : c ∈ caps) (hMem' : c' ∈ caps) (hIn : c.off ≤ offset ∧ offset < c.off + c.size)
    (hIn' : c'.off ≤ offset ∧ offset < c'.off + c'.size) : c = c' := by
  induction caps generalizing start with
  | nil => exact absurd hMem List.not_mem_nil
  | cons d ds ih =>
    obtain ⟨rfl, hPos, hDword, hRest⟩ := h
    have hAfter : ∀ x ∈ ds, d.off + d.size ≤ x.off := fun x hx => (hRest.bounds (by omega) hx).1
    obtain rfl | hTail := List.mem_cons.mp hMem
    · obtain rfl | hTail' := List.mem_cons.mp hMem'
      · rfl
      · have hLe := hAfter c' hTail'
        omega
    · obtain rfl | hTail' := List.mem_cons.mp hMem'
      · have hLe := hAfter c hTail
        omega
      · exact ih hRest (by omega) hTail hTail'

end Tiled

/-- The headers as they are built: each capability points to the next, the last one to nothing. -/
structure Chain (data : Nat → BitVec 8) (caps : List Cap) (stop : Nat) : Prop where
  tiled : Tiled CAP_START_OFFSET caps stop
  bound : stop ≤ PCI_REGMAX + 1
  id : ∀ c ∈ caps, data c.off = c.id
  next : ∀ c ∈ caps, data (c.off + 1) =
    if c.off + c.size = stop then 0 else BitVec.ofNat 8 (c.off + c.size)

namespace Chain

variable {pi : PciDevinst} {caps : List Cap} {stop : Nat} {c : Cap}

theorem bounds {data : Nat → BitVec 8} (h : Chain data caps stop) (hMem : c ∈ caps) :
    CAP_START_OFFSET ≤ c.off ∧ c.off % 4 = 0 ∧ 0 < c.size ∧ c.size % 4 = 0 ∧ c.off + c.size ≤ stop :=
  h.tiled.bounds (by decide) hMem

theorem nextoff_eq (h : Chain pi.piCfgdata caps stop) (hMem : c ∈ caps) :
    (pi.pciGetCfgdata8 (c.off + 1)).toNat = if c.off + c.size = stop then 0 else c.off + c.size := by
  have hIn := h.bounds hMem
  have hBound := h.bound
  simp only [PCI_REGMAX] at hBound
  show (pi.piCfgdata (c.off + 1)).toNat = _
  rw [h.next c hMem]
  split
  · rfl
  · rw [BitVec.toNat_ofNat]
    omega

theorem capSearch_from (h : Chain pi.piCfgdata caps stop) {start offset fuel : Nat} {cs : List Cap}
    (hTail : Tiled start cs stop) (hSub : ∀ c ∈ cs, c ∈ caps) (hLow : start ≤ offset)
    (hHigh : offset < stop) (hFuel : cs.length ≤ fuel) :
    ∃ c ∈ cs, c.off ≤ offset ∧ offset < c.off + c.size ∧
      pi.capSearch offset fuel start = .ok c.off := by
  induction cs generalizing start fuel with
  | nil =>
    obtain rfl : start = stop := hTail
    omega
  | cons c cs ih =>
    obtain ⟨rfl, hPos, hDword, hRest⟩ := hTail
    have hMem : c ∈ caps := hSub c List.mem_cons_self
    have hIn := h.bounds hMem
    have hBound := h.bound
    simp only [PCI_REGMAX, CAP_START_OFFSET] at hBound hIn
    have hAccess : CfgAccess (c.off + 1) 1 := ⟨by simp only [PCI_REGMAX]; omega, Nat.mod_one _⟩
    obtain ⟨fuel, rfl⟩ := Nat.exists_eq_succ_of_ne_zero (by simp at hFuel; omega : fuel ≠ 0)
    unfold capSearch
    rw [if_neg (not_not.mpr hAccess), h.nextoff_eq hMem]
    by_cases hHere : offset < c.off + c.size
    · refine ⟨c, List.mem_cons_self, hLow, hHere, if_pos ?_⟩
      split
      · exact .inl rfl
      · exact .inr ⟨hLow, hHere⟩
    · have hNext : c.off + c.size ≠ stop := by omega
      rw [if_neg hNext]
      have hOn : ¬ (c.off + c.size = 0 ∨ c.off ≤ offset ∧ offset < c.off + c.size) := by omega
      dsimp only
      rw [if_neg hOn]
      obtain ⟨d, hd, hFound⟩ := ih hRest (fun x hx => hSub x (List.mem_cons_of_mem _ hx))
        (by omega) (by simpa using hFuel)
      exact ⟨d, List.mem_cons_of_mem _ hd, hFound⟩

/-- The search ends for every offset of the chain. -/
theorem capSearch_eq (h : Chain pi.piCfgdata caps stop) {offset : Nat}
    (hLow : CAP_START_OFFSET ≤ offset) (hHigh : offset < stop) :
    ∃ c ∈ caps, c.off ≤ offset ∧ offset < c.off + c.size ∧
      pi.capSearch offset 256 CAP_START_OFFSET = .ok c.off := by
  have hLength := h.tiled.length_le
  have hBound := h.bound
  simp only [PCI_REGMAX] at hBound
  exact h.capSearch_from h.tiled (fun _ hc => hc) hLow hHigh (by omega)

end Chain

section Build

namespace PciDevinst

/-- `STATUS.CAPPRESENT` -/
def capPresent (pi : PciDevinst) : Bool :=
  pi.pciGetCfgdata16 PCIR_STATUS &&& PCIM_STATUS_CAPPRESENT ≠ 0

theorem status_bit (pi : PciDevinst) :
    (pi.pciGetCfgdata16 PCIR_STATUS).getLsbD 4 = (pi.piCfgdata 7).getLsbD 4 := by
  rw [pciGetCfgdata16, BitVec.getLsbD_append]
  rfl

theorem capPresent_eq (pi : PciDevinst) : pi.capPresent = (pi.piCfgdata 7).getLsbD 4 := by
  rw [capPresent, ← status_bit, Bool.eq_iff_iff, decide_eq_true_iff]
  exact and_twoPow_ne_zero_iff (w := 16) (k := 4) (by decide)

/-- Set-up of other things: the status word and the capability area stay. -/
structure Elsewhere (pi pi' : PciDevinst) : Prop where
  piPrevcap : pi'.piPrevcap = pi.piPrevcap
  piCapend : pi'.piCapend = pi.piCapend
  cfgdata : ∀ off, InAccess PCIR_STATUS 2 off ∨ CAP_START_OFFSET ≤ off →
    pi'.piCfgdata off = pi.piCfgdata off

end PciDevinst

inductive CapsBuilt : PciDevinst → List Cap → Prop
  | none {pi : PciDevinst} : pi.capPresent = false → CapsBuilt pi []
  | elsewhere {pi pi' : PciDevinst} {caps : List Cap} : CapsBuilt pi caps → Elsewhere pi pi' →
      CapsBuilt pi' caps
  | add {pi pi' : PciDevinst} {caps : List Cap} {capdata : List (BitVec 8)} : CapsBuilt pi caps →
      pi.pciEmulAddCapability capdata = .ok (some pi') →
      CapsBuilt pi' (caps ++ [⟨pi'.piPrevcap, pi'.piCapend + 1 - pi'.piPrevcap, capdata.headD 0⟩])

structure CapLayout (pi : PciDevinst) (caps : List Cap) (stop : Nat) : Prop extends
    Chain pi.piCfgdata caps stop where
  present : pi.capPresent = true ↔ caps ≠ []
  capend : caps ≠ [] → stop = pi.piCapend + 1
  prevcap : caps ≠ [] → ∃ c ∈ caps, c.off = pi.piPrevcap ∧ c.off + c.size = stop

variable {pi pi' : PciDevinst} {caps : List Cap} {stop : Nat}

def HeaderByte (caps : List Cap) (off : Nat) : Prop := ∃ c ∈ caps, off = c.off ∨ off = c.off + 1

theorem Chain.headerByte_ge {data : Nat → BitVec 8} (h : Chain data caps stop) {off : Nat}
    (hOff : HeaderByte caps off) : CAP_START_OFFSET ≤ off ∧ off < stop ∧ off % 4 < 2 := by
  obtain ⟨c, hMem, hOff⟩ := hOff
  have hIn := h.bounds hMem
  omega

/-- The layout depends on nothing but the header bytes, the present bit and two fields. -/
theorem CapLayout.congr (h : CapLayout pi caps stop) (hPresent : pi'.capPresent = pi.capPresent)
    (hPrevcap : pi'.piPrevcap = pi.piPrevcap) (hCapend : pi'.piCapend = pi.piCapend)
    (hBytes : ∀ off, HeaderByte caps off → pi'.piCfgdata off = pi.piCfgdata off) :
    CapLayout pi' caps stop where
  tiled := h.tiled
  bound := h.bound
  id c hMem := (hBytes _ ⟨c, hMem, .inl rfl⟩).trans (h.id c hMem)
  next c hMem := (hBytes _ ⟨c, hMem, .inr rfl⟩).trans (h.next c hMem)
  present := hPresent ▸ h.present
  capend hNe := hCapend ▸ h.capend hNe
  prevcap hNe := hPrevcap ▸ h.prevcap hNe

theorem CapLayout.elsewhere (h : CapLayout pi caps stop) (hSame : Elsewhere pi pi') :
    CapLayout pi' caps stop := by
  refine h.congr ?_ hSame.piPrevcap hSame.piCapend fun off hOff => ?_
  · rw [capPresent_eq, capPresent_eq, hSame.cfgdata 7 (.inl ⟨by decide, by decide⟩)]
  · exact hSame.cfgdata off (.inr (h.headerByte_ge hOff).1)

theorem addCapability_cases {capdata : List (BitVec 8)}
    (hAdd : pi.pciEmulAddCapability capdata = .ok (some pi')) :
    let capoff := if pi.capPresent then pi.piCapend + 1 else CAP_START_OFFSET
    let linked := if pi.capPresent then pi.pciSetCfgdata8 (pi.piPrevcap + 1) (BitVec.ofNat 8 capoff)
      else (pi.pciSetCfgdata8 PCIR_CAP_PTR (BitVec.ofNat 8 capoff)).pciSetCfgdata16 PCIR_STATUS
        (pi.pciGetCfgdata16 PCIR_STATUS ||| PCIM_STATUS_CAPPRESENT)
    capdata.length ≠ 0 ∧ capoff + (capdata.length + 3) / 4 * 4 ≤ PCI_REGMAX + 1 ∧
    pi'.piPrevcap = capoff ∧ pi'.piCapend = capoff + (capdata.length + 3) / 4 * 4 - 1 ∧
    pi'.piCfgdata = ((setBytes capoff capdata linked).pciSetCfgdata8 (capoff + 1) 0).piCfgdata := by
  unfold pciEmulAddCapability at hAdd
  dsimp only at hAdd ⊢
  rw [show decide (pi.pciGetCfgdata16 PCIR_STATUS &&& PCIM_STATUS_CAPPRESENT ≠ 0) = pi.capPresent
    from rfl] at hAdd
  generalize (if pi.capPresent = true then pi.piCapend + 1 else CAP_START_OFFSET) = capoff at *
  split at hAdd
  · cases hAdd
  · next hLen =>
    split at hAdd
    · cases hAdd
    · next hRoom =>
      obtain rfl := Option.some.inj (Except.ok.inj hAdd)
      exact ⟨hLen, Nat.not_lt.mp hRoom, rfl, rfl, rfl⟩

theorem setBytes_header (pi : PciDevinst) (capoff : Nat) {capdata : List (BitVec 8)}
    (hLen : capdata.length ≠ 0) :
    let new := (setBytes capoff capdata pi).pciSetCfgdata8 (capoff + 1) 0
    (∀ off < capoff, new.piCfgdata off = pi.piCfgdata off) ∧
    new.piCfgdata capoff = capdata.headD 0 ∧ new.piCfgdata (capoff + 1) = 0 := by
  have hLast := frame_set8 (setBytes capoff capdata pi) (capoff + 1) 0
  refine ⟨fun off hOff => ?_, ?_, get8_set8 _ (capoff + 1) 0⟩
  · rw [hLast.cfgdata off fun hIn => Nat.not_le.mpr hOff (Nat.le_of_succ_le hIn.1)]
    exact (setBytes_frame pi capoff capdata).cfgdata off (Nat.not_le.mpr hOff)
  · rw [hLast.cfgdata capoff fun hIn => Nat.not_succ_le_self _ hIn.1]
    cases capdata with
    | nil => exact absurd rfl hLen
    | cons b bs =>
      have hHead := (setBytes_frame (pi.pciSetCfgdata8 capoff b) (capoff + 1) bs).cfgdata capoff
        (Nat.not_succ_le_self _)
      exact hHead.trans (get8_set8 pi capoff b)

theorem Chain.add {data data' : Nat → BitVec 8} (h : Chain data caps stop) {last c : Cap}
    (hLast : last ∈ caps) (hEnd : last.off + last.size = stop) (hOff : c.off = stop)
    (hPos : 0 < c.size) (hDword : c.size % 4 = 0) (hRoom : stop + c.size ≤ PCI_REGMAX + 1)
    (hSame : ∀ off < stop, off ≠ last.off + 1 → data' off = data off)
    (hLink : data' (last.off + 1) = BitVec.ofNat 8 stop) (hId : data' c.off = c.id)
    (hNext : data' (c.off + 1) = 0) : Chain data' (caps ++ [c]) (stop + c.size) := by
  have hLastIn := h.bounds hLast
  refine ⟨h.tiled.append hOff hPos hDword, hRoom, fun x hx => ?_, fun x hx => ?_⟩
  · obtain hx | hx := List.mem_append.mp hx
    · have hIn := h.bounds hx
      rw [hSame x.off (by omega) (by omega), h.id x hx]
    · obtain rfl := List.mem_singleton.mp hx
      exact hId
  · obtain hx | hx := List.mem_append.mp hx
    · have hIn := h.bounds hx
      rw [if_neg (by omega)]
      by_cases hEq : x.off = last.off
      · obtain rfl : x = last := @Tiled.eq_of_covers _ _ _ _ _ h.tiled (by decide) x.off hx hLast
          (by omega) (by omega)
        rw [hLink, hEnd]
      · have hNe : x.off + x.size ≠ stop := by
          intro hStop
          have hSameCap : x = last := @Tiled.eq_of_covers _ _ _ _ _ h.tiled (by decide) (stop - 1) hx hLast
            (by omega) (by omega)
          exact hEq (congrArg Cap.off hSameCap)
        rw [hSame _ (by omega) (by omega), h.next x hx, if_neg hNe]
    · obtain rfl := List.mem_singleton.mp hx
      rw [hNext, if_pos (by omega)]

theorem CapLayout.capoff_eq (h : CapLayout pi caps stop) :
    (if pi.capPresent then pi.piCapend + 1 else CAP_START_OFFSET) = stop := by
  split
  · next hOn => exact (h.capend (h.present.mp hOn)).symm
  · next hOff =>
    obtain rfl : caps = [] := not_not.mp fun hNe => hOff (h.present.mpr hNe)
    exact h.tiled

theorem CapLayout.add (h : CapLayout pi caps stop) {capdata : List (BitVec 8)}
    (hAdd : pi.pciEmulAddCapability capdata = .ok (some pi')) :
    ∃ stop', CapLayout pi' (caps ++
      [⟨pi'.piPrevcap, pi'.piCapend + 1 - pi'.piPrevcap, capdata.headD 0⟩]) stop' := by
  obtain ⟨hLen, hRoom, hPrevcap, hCapend, hBytes⟩ := addCapability_cases hAdd
  have hReal : 0 < (capdata.length + 3) / 4 * 4 ∧ (capdata.length + 3) / 4 * 4 % 4 = 0 := by omega
  generalize (capdata.length + 3) / 4 * 4 = reallen at *
  rw [h.capoff_eq] at hRoom hPrevcap hCapend hBytes
  have hSize : pi'.piCapend + 1 - pi'.piPrevcap = reallen := by omega
  rw [hSize, hPrevcap]
  obtain ⟨hBelow, hHead, hTail⟩ := setBytes_header (if pi.capPresent then _ else _) stop hLen
  rw [← hBytes] at hBelow hHead hTail
  have hStart : CAP_START_OFFSET ≤ stop := h.tiled.le
  simp only [CAP_START_OFFSET] at hStart
  have hSeven := hBelow 7 (by omega)
  refine ⟨stop + reallen, ⟨?_, ?_, fun _ => by omega, fun _ => ?_⟩⟩
  · cases hOn : pi.capPresent with
    | true =>
      obtain ⟨last, hLast, hOff, hEnd⟩ := h.prevcap (h.present.mp hOn)
      simp only [hOn, if_true] at hBelow
      have hIn := h.bounds hLast
      refine h.toChain.add hLast hEnd rfl hReal.1 hReal.2 hRoom (fun off hLow hNe => ?_) ?_ hHead hTail
      · rw [hBelow off hLow]
        exact (frame_set8 pi _ _).cfgdata off fun hAt => by
          simp only [InAccess] at hAt
          omega
      · rw [hBelow _ (by omega), hOff]
        exact get8_set8 pi _ _
    | false =>
      obtain rfl : caps = [] := not_not.mp fun hNe => by simp [h.present.mpr hNe] at hOn
      obtain rfl : CAP_START_OFFSET = stop := h.tiled
      refine ⟨⟨rfl, hReal.1, hReal.2, rfl⟩, hRoom, fun c hc => ?_, fun c hc => ?_⟩
      · obtain rfl := List.mem_singleton.mp hc
        exact hHead
      · obtain rfl := List.mem_singleton.mp hc
        exact hTail.trans (if_pos rfl).symm
  · refine iff_of_true ?_ (by simp)
    rw [capPresent_eq, hSeven]
    split
    · next hOn =>
      obtain ⟨last, hLast, hOff, -⟩ := h.prevcap (h.present.mp hOn)
      have hIn := h.bounds hLast
      simp only [CAP_START_OFFSET] at hIn
      rw [(frame_set8 pi _ _).cfgdata 7 fun hAt => by simp only [InAccess] at hAt; omega,
        ← capPresent_eq, hOn]
    · rw [← capPresent_eq, capPresent, get16_set16]
      refine decide_eq_true ((and_twoPow_ne_zero_iff (w := 16) (k := 4) (by decide)).mpr ?_)
      rw [BitVec.getLsbD_or]
      simp [PCIM_STATUS_CAPPRESENT]
  · exact ⟨_, List.mem_append_right _ List.mem_cons_self, hPrevcap.symm, rfl⟩

theorem CapsBuilt.layout (h : CapsBuilt pi caps) : ∃ stop, CapLayout pi caps stop := by
  induction h with
  | none hOff =>
    refine ⟨CAP_START_OFFSET, ⟨rfl, by decide, ?_, ?_⟩, ?_, ?_, ?_⟩
    all_goals simp [hOff]
  | elsewhere _ hSame ih =>
    obtain ⟨stop, hLayout⟩ := ih
    exact ⟨stop, hLayout.elsewhere hSame⟩
  | add _ hAdd ih =>
    obtain ⟨stop, hLayout⟩ := ih
    exact hLayout.add hAdd

end Build

section Write

namespace PciDevinst

/-- What holds between an instance and itself after each single thing that a configuration write
can change, but for what the control register of MSI decides. -/
structure Sparing (R : PciDevinst → PciDevinst → Prop) : Prop where
  refl : ∀ pi, R pi pi
  trans : ∀ {pi pi' pi''}, R pi pi' → R pi' pi'' → R pi pi''
  set8 : ∀ pi offset val, R pi (pi.pciSetCfgdata8 offset val)
  addr : ∀ pi idx addr, R pi (pi.setBarAddr idx addr)
  line : ∀ pi state irq, R pi { pi with lintrState := state, irq := irq }
  msix : ∀ pi piMsix, R pi { pi with piMsix := piMsix }

/-- What holds after each of these, and after what the control register of MSI decides. -/
structure Closed (R : PciDevinst → PciDevinst → Prop) : Prop extends Sparing R where
  msi : ∀ pi piMsi, R pi { pi with piMsi := piMsi }

namespace Sparing

variable {R : PciDevinst → PciDevinst → Prop} {pi pi' : PciDevinst}

theorem set16 (h : Sparing R) (pi : PciDevinst) (offset : Nat) (val : BitVec 16) :
    R pi (pi.pciSetCfgdata16 offset val) := h.trans (h.set8 _ _ _) (h.set8 _ _ _)

theorem set32 (h : Sparing R) (pi : PciDevinst) (offset : Nat) (val : BitVec 32) :
    R pi (pi.pciSetCfgdata32 offset val) := h.trans (h.set16 _ _ _) (h.set16 _ _ _)

theorem cfgWrite (h : Sparing R) (hStart : R pi pi') (coff bytes : Nat) (val : BitVec 32) :
    Yields (fun _ => True) (R pi) (pi'.cfgWrite coff val bytes) := by
  unfold PciDevinst.cfgWrite
  split
  · refine h.trans hStart ?_
    split
    · exact h.set8 _ _ _
    split
    · exact h.set16 _ _ _
    · exact h.set32 _ _ _
  · trivial

theorem pciLintrUpdate (h : Sparing R) (pi : PciDevinst) : R pi pi.pciLintrUpdate := by
  unfold PciDevinst.pciLintrUpdate
  split
  · exact h.line _ _ _
  split
  · exact h.line _ _ _
  · exact h.refl pi

theorem msixcapCfgwrite (h : Sparing R) (capoff offset bytes : Nat) (val : BitVec 32) :
    Yields (fun _ => True) (R pi) (pi.msixcapCfgwrite capoff offset bytes val) := by
  unfold PciDevinst.msixcapCfgwrite
  split
  · refine (yields_true _).bind fun _ _ _ => ?_
    exact h.cfgWrite (h.trans (h.msix _ _) (h.pciLintrUpdate _)) _ _ _
  · exact h.cfgWrite (h.refl pi) _ _ _

variable {m : Registry T}

theorem pciEmulCmdstsWrite (h : Sparing R) (coff bytes : Nat) (new : BitVec 32) :
    Yields (fun _ => True) (fun r => R pi r.1) (pciEmulCmdstsWrite pi m coff new bytes) := by
  unfold PciEmul.pciEmulCmdstsWrite
  refine (yields_true _).bind fun old _ _ => ?_
  refine (h.cfgWrite (h.refl pi) coff bytes _).bind fun pi' _ hStored => ?_
  exact (yields_true _).bind fun _ _ _ => h.trans hStored (h.pciLintrUpdate pi')

theorem moveBar (h : Sparing R) (changed : Bool) (addr : BitVec 64) (idx : Nat)
    (type : PcibarType) :
    Yields (fun _ => True) (fun r => R pi r.1) (moveBar pi m changed addr idx type) := by
  unfold PciEmul.moveBar updateBarAddress
  split
  · generalize (if (pi.piBar idx).type = .io then pi.porten else pi.memen) = decode
    cases decode
    all_goals
      refine (yields_true _).bind fun m' _ _ => (yields_true _).bind fun new _ _ => ?_
      exact (yields_true _).bind fun m'' _ _ => h.addr pi idx new
  · exact h.refl pi

theorem barWrite (h : Sparing R) (coff : Nat) (eax : BitVec 32) :
    Yields (fun _ => True) (fun r => R pi r.1) (barWrite pi m coff eax) := by
  unfold PciEmul.barWrite
  dsimp only
  split
  · exact h.trans (h.addr _ _ _) (h.set32 _ _ _)
  all_goals exact (h.moveBar _ _ _ _).bind fun r _ hMoved => h.trans hMoved (h.set32 r.1 coff _)

end Sparing

namespace Closed

variable {R : PciDevinst → PciDevinst → Prop} {pi pi' : PciDevinst}

theorem msicapCfgwrite (h : Closed R) (capoff offset bytes : Nat) (val : BitVec 32) :
    Yields (fun _ => True) (R pi) (pi.msicapCfgwrite capoff offset bytes val) := by
  unfold PciDevinst.msicapCfgwrite
  split
  · refine (yields_true _).bind fun _ _ _ => (yields_true _).bind fun _ _ _ => ?_
    refine (yields_true _).bind fun _ _ _ => ?_
    exact h.cfgWrite (h.trans (h.msi _ _) (h.pciLintrUpdate _)) _ _ _
  · exact h.cfgWrite (h.refl pi) _ _ _

theorem capDispatch (h : Closed R) (capoff offset bytes : Nat) (val : BitVec 32) :
    Yields (fun _ => True) (R pi) (pi.capDispatch capoff offset bytes val) := by
  unfold PciDevinst.capDispatch
  dsimp only
  split
  · exact h.msicapCfgwrite _ _ _ _
  split
  · exact h.msixcapCfgwrite _ _ _ _
  split
  · exact h.cfgWrite (h.refl pi) _ _ _
  · exact h.refl pi

theorem pciEmulCapwrite (h : Closed R) (offset bytes : Nat) (val : BitVec 32) :
    Yields (fun _ => True) (R pi) (pi.pciEmulCapwrite offset bytes val) := by
  unfold PciDevinst.pciEmulCapwrite
  split
  · exact h.refl pi
  refine (yields_true (pi.capSearch offset 256 CAP_START_OFFSET)).bind fun _ _ _ => ?_
  refine (yields_true _).bind fun _ _ _ => ?_
  split
  · split
    · exact h.capDispatch _ _ _ _
    · exact h.refl pi
  · exact h.capDispatch _ _ _ _

variable {m : Registry T}

/-- The induction rule for configuration writes. -/
theorem pciCfgwrite (h : Closed R) (coff bytes : Nat) (eax : BitVec 32) :
    Yields (fun _ => True) (fun r => R pi r.1) (pciCfgwrite pi m coff bytes eax) := by
  unfold PciEmul.pciCfgwrite
  split
  · split
    · exact h.refl pi
    · exact h.barWrite _ _
  split
  · exact (h.pciEmulCapwrite _ _ _).bind fun _ _ hWritten => hWritten
  split
  · exact h.pciEmulCmdstsWrite _ _ _
  · exact (h.cfgWrite (h.refl pi) _ _ _).bind fun _ _ hWritten => hWritten

end Closed

structure SameSetup (pi pi' : PciDevinst) : Prop where
  bdf : pi'.bdf = pi.bdf
  piPrevcap : pi'.piPrevcap = pi.piPrevcap
  piCapend : pi'.piCapend = pi.piCapend

theorem sameSetup_closed : Closed SameSetup where
  refl _ := ⟨rfl, rfl, rfl⟩
  trans h h' := ⟨h'.bdf.trans h.bdf, h'.piPrevcap.trans h.piPrevcap, h'.piCapend.trans h.piCapend⟩
  set8 _ _ _ := ⟨rfl, rfl, rfl⟩
  addr _ _ _ := ⟨rfl, rfl, rfl⟩
  line _ _ _ := ⟨rfl, rfl, rfl⟩
  msi _ _ := ⟨rfl, rfl, rfl⟩
  msix _ _ := ⟨rfl, rfl, rfl⟩

end PciDevinst

variable {pi pi' : PciDevinst} {m : Registry T} {caps : List Cap} {stop : Nat}

theorem pciLintrUpdate_piCfgdata (pi : PciDevinst) : pi.pciLintrUpdate.piCfgdata = pi.piCfgdata := by
  unfold PciDevinst.pciLintrUpdate
  split
  · rfl
  · split <;> rfl

theorem moveBar_piCfgdata (changed : Bool) (addr : BitVec 64) (idx : Nat) (type : PcibarType) :
    Yields (fun _ => True) (fun r => r.1.piCfgdata = pi.piCfgdata)
      (moveBar pi m changed addr idx type) := by
  unfold moveBar updateBarAddress
  split
  · generalize (if (pi.piBar idx).type = .io then pi.porten else pi.memen) = decode
    cases decode
    all_goals
      refine (yields_true _).bind fun m' _ _ => (yields_true _).bind fun new _ _ => ?_
      exact (yields_true _).bind fun m'' _ _ => rfl
  · rfl

theorem barWrite_piCfgdata {coff off : Nat} (hOff : ¬ InAccess coff 4 off) (eax : BitVec 32) :
    Yields (fun _ => True) (fun r => r.1.piCfgdata off = pi.piCfgdata off)
      (barWrite pi m coff eax) := by
  unfold barWrite
  dsimp only
  split
  · exact (frame_set32 _ coff _).cfgdata off hOff
  all_goals
    refine (moveBar_piCfgdata _ _ _ _).bind fun r _ hMoved => ?_
    exact ((frame_set32 r.1 coff _).cfgdata off hOff).trans (congrFun hMoved off)

theorem cmdstsWrite_stored (coff bytes : Nat) (new : BitVec 32) :
    Yields (fun _ => True) (fun r => ∃ old pi₁, pi.cfgRead coff bytes = .ok old ∧
      pi.cfgWrite coff (cmdstsWord coff new old) bytes = .ok pi₁ ∧ r.1.piCfgdata = pi₁.piCfgdata)
      (pciEmulCmdstsWrite pi m coff new bytes) := by
  unfold pciEmulCmdstsWrite
  refine (yields_true _).bind fun old hOld _ => (yields_true _).bind fun pi₁ hWrite _ => ?_
  exact (yields_true _).bind fun _ _ _ => ⟨old, pi₁, hOld, hWrite, pciLintrUpdate_piCfgdata pi₁⟩

/-- The mask keeps `STATUS` at every width but the widest: there it covers `COMMAND`. -/
theorem cmdsts_capPresent {coff bytes : Nat} {eax old : BitVec 32}
    (hCoff : PCIR_COMMAND ≤ coff ∧ coff < PCIR_REVID) (hBytes : Width bytes)
    (hAlign : coff % bytes = 0) (hOld : pi.cfgRead coff bytes = .ok old)
    (hWrite : pi.cfgWrite coff (cmdstsWord coff eax old) bytes = .ok pi') :
    pi'.capPresent = if coff = 4 ∧ bytes = 4 then eax.getLsbD 4 else pi.capPresent := by
  have hLo : 4 ≤ coff := hCoff.1
  have hHi : coff < 8 := hCoff.2
  rw [capPresent_eq, capPresent_eq]
  by_cases hReach : InAccess coff bytes 7
  · simp only [InAccess] at hReach
    obtain rfl | rfl | rfl := hBytes
    · obtain rfl : coff = 7 := by omega
      obtain rfl : (pi.pciGetCfgdata8 7).setWidth 32 = old := Except.ok.inj hOld
      obtain rfl : pi.pciSetCfgdata8 7 _ = pi' := Except.ok.inj hWrite
      simp [pciSetCfgdata8, pciGetCfgdata8, cmdstsWord]
    · obtain rfl : coff = 6 := by omega
      obtain rfl : (pi.pciGetCfgdata16 6).setWidth 32 = old := Except.ok.inj hOld
      obtain rfl : pi.pciSetCfgdata16 6 _ = pi' := Except.ok.inj hWrite
      rw [← status_bit pi]
      simp [pciSetCfgdata16, pciSetCfgdata8, cmdstsWord, PCIR_STATUS]
    · obtain rfl : coff = 4 := by omega
      obtain rfl : pi.pciSetCfgdata32 4 _ = pi' := Except.ok.inj hWrite
      simp [pciSetCfgdata32, pciSetCfgdata16, pciSetCfgdata8, cmdstsWord]
  · have hFrame := (pi.cfgWrite_frame coff (cmdstsWord coff eax old) hBytes).of_ok hWrite
    rw [hFrame.cfgdata 7 hReach, if_neg]
    rintro ⟨rfl, rfl⟩
    exact hReach ⟨by decide, by decide⟩

theorem CapLayout.iscap_iff (h : CapLayout pi caps stop) {offset : Nat} :
    pi.pciEmulIscap offset = true ↔ caps ≠ [] ∧ CAP_START_OFFSET ≤ offset ∧ offset < stop := by
  have hIscap : pi.pciEmulIscap offset = true ↔ pi.capPresent = true ∧
      CAP_START_OFFSET ≤ offset ∧ offset ≤ pi.piCapend := by
    simp only [pciEmulIscap, capPresent, decide_eq_true_eq]
  rw [hIscap, h.present]
  refine and_congr_right fun hNe => ?_
  rw [h.capend hNe, Nat.lt_succ_iff]

/-- A write to a capability reaches no header byte: it is trimmed, or lies behind them. -/
theorem CapLayout.capwrite_headers (h : CapLayout pi caps stop) {coff bytes : Nat}
    (hBytes : Width bytes) (hLow : CAP_START_OFFSET ≤ coff) (hHigh : coff < stop)
    (eax : BitVec 32) :
    Yields (fun _ => True) (fun pi' => ∀ off, HeaderByte caps off → pi'.piCfgdata off = pi.piCfgdata off)
      (pi.pciEmulCapwrite coff bytes eax) := by
  unfold pciEmulCapwrite
  split
  · exact fun _ _ => rfl
  next hAlign =>
  obtain ⟨c, hMem, hBelow, hAbove, hSearch⟩ := h.capSearch_eq hLow hHigh
  have hIn := h.bounds hMem
  rw [hSearch, ok_bind, assertThat_of _ hBelow, ok_bind]
  split
  · split
    · next hTrim =>
      have hFrame := pi.capDispatch_frame c.off (coff + 2) (eax >>> 16) (.inr (.inl rfl))
      cases hWritten : pi.capDispatch c.off (coff + 2) 2 (eax >>> 16) with
      | error fault => trivial
      | ok pi' =>
        rintro off ⟨d, hd, hOff⟩
        have hInD := h.bounds hd
        refine (hFrame.of_ok hWritten).cfgdata off fun hAt => ?_
        simp only [InAccess] at hAt
        omega
    · exact fun _ _ => rfl
  · next hBody =>
    have hFrame := pi.capDispatch_frame c.off coff eax hBytes
    cases hWritten : pi.capDispatch c.off coff bytes eax with
    | error fault => trivial
    | ok pi' =>
      rintro off ⟨d, hd, hOff⟩
      have hInD := h.bounds hd
      refine (hFrame.of_ok hWritten).cfgdata off fun hAt => ?_
      simp only [InAccess] at hAt
      have hAtD : d.off ≤ coff ∧ coff < d.off + 2 := by
        obtain rfl | rfl | rfl := hBytes <;> omega
      obtain rfl : c = d := @Tiled.eq_of_covers _ _ _ _ _ h.tiled (by decide) coff hMem hd
        ⟨hBelow, hAbove⟩ (by omega)
      omega

theorem append_high {n k : Nat} (x : BitVec n) (y : BitVec k) : (x ++ y).extractLsb' k n = x := by
  rw [BitVec.extractLsb'_append_eq_of_le (Nat.le_refl k), Nat.sub_self, BitVec.extractLsb'_eq_self]

theorem append_low {n k : Nat} (x : BitVec n) (y : BitVec k) : (x ++ y).extractLsb' 0 k = y := by
  rw [BitVec.extractLsb'_append_eq_of_add_le (Nat.le_of_eq (Nat.zero_add k)),
    BitVec.extractLsb'_eq_self]

theorem set8_self (off : Nat) : pi.pciSetCfgdata8 off (pi.piCfgdata off) = pi := by
  simp [pciSetCfgdata8]

theorem set16_self (off : Nat) : pi.pciSetCfgdata16 off (pi.pciGetCfgdata16 off) = pi := by
  rw [pciSetCfgdata16, pciGetCfgdata16, append_high, append_low, pciGetCfgdata8, pciGetCfgdata8,
    set8_self, set8_self]

theorem cmdstsWord_dword (new old : BitVec 32) : cmdstsWord 4 new old =
    (new &&& (0#16 ++ 0x077F#16)) ||| (old &&& (BitVec.allOnes 16 ++ 0xF880#16)) := rfl

theorem cmdstsWord_high (new old : BitVec 32) :
    (cmdstsWord 4 new old).extractLsb' 16 16 = old.extractLsb' 16 16 := by
  rw [cmdstsWord_dword, BitVec.extractLsb'_or, BitVec.extractLsb'_and, BitVec.extractLsb'_and,
    append_high, append_high, BitVec.and_zero, BitVec.zero_or, BitVec.and_allOnes]

theorem cmdstsWord_low (new old : BitVec 32) : (cmdstsWord 4 new old).extractLsb' 0 16 =
    (new.extractLsb' 0 16 &&& 0x077F) ||| (old.extractLsb' 0 16 &&& 0xF880) := by
  rw [cmdstsWord_dword, BitVec.extractLsb'_or, BitVec.extractLsb'_and, BitVec.extractLsb'_and,
    append_low, append_low]
  rfl

theorem cmdstsWrite_dword (pi : PciDevinst) (m : Registry T) (new : BitVec 32) :
    pciEmulCmdstsWrite pi m 4 new 4 = .ok ((pi.pciSetCfgdata16 6 ((new.extractLsb' 0 16 &&& 0x077F) |||
      (pi.pciGetCfgdata16 6 &&& 0xF880))).pciLintrUpdate, m) := by
  have hStored : pi.pciSetCfgdata32 4 (cmdstsWord 4 new (pi.pciGetCfgdata32 4)) =
      pi.pciSetCfgdata16 6 ((new.extractLsb' 0 16 &&& 0x077F) |||
        (pi.pciGetCfgdata16 6 &&& 0xF880)) := by
    rw [pciSetCfgdata32, cmdstsWord_high, cmdstsWord_low, pciGetCfgdata32, append_high, append_low,
      set16_self]
  have hCommand : (pi.pciSetCfgdata16 6 ((new.extractLsb' 0 16 &&& 0x077F) |||
      (pi.pciGetCfgdata16 6 &&& 0xF880))).pciGetCfgdata16 PCIR_COMMAND =
        pi.pciGetCfgdata16 PCIR_COMMAND := by
    refine (frame_set16 pi 6 _).get16 fun i hi hAt => ?_
    simp only [InAccess, PCIR_COMMAND] at hAt
    omega
  have hRead : pi.cfgRead 4 4 = .ok (pi.pciGetCfgdata32 4) := rfl
  have hWrite : pi.cfgWrite 4 (cmdstsWord 4 new (pi.pciGetCfgdata32 4)) 4 = .ok (pi.pciSetCfgdata32 4
      (cmdstsWord 4 new (pi.pciGetCfgdata32 4))) := rfl
  have hBars : ∀ i ∈ bars, i ≤ PCI_BARMAX := fun i hi => Nat.lt_succ_iff.mp (List.mem_range.mp hi)
  unfold pciEmulCmdstsWrite
  simp only [hRead, ok_bind]
  unfold cmdstsWord at hWrite hStored
  rw [hWrite, ok_bind, hStored, hCommand, BitVec.xor_self, decodeBars_kept (by simp) hBars, ok_bind]
  rfl

theorem pciCfgwrite_headers (h : CapLayout pi caps stop) {coff bytes : Nat} (hBytes : Width bytes)
    (hAlign : coff % bytes = 0) (eax : BitVec 32) :
    Yields (fun _ => True) (fun r =>
      r.1.capPresent = (if coff = 4 ∧ bytes = 4 then eax.getLsbD 4 else pi.capPresent) ∧
      ∀ off, HeaderByte caps off → r.1.piCfgdata off = pi.piCfgdata off)
      (pciCfgwrite pi m coff bytes eax) := by
  generalize hStays : (if coff = 4 ∧ bytes = 4 then eax.getLsbD 4 else pi.capPresent) = present
  have hKept : ∀ pi' : PciDevinst, coff ≠ 4 → (∀ off, HeaderByte caps off ∨ off = 7 →
      pi'.piCfgdata off = pi.piCfgdata off) → pi'.capPresent = present ∧
        ∀ off, HeaderByte caps off → pi'.piCfgdata off = pi.piCfgdata off := by
    intro pi' hFour hSame
    rw [← hStays, if_neg fun hAt => hFour hAt.1, capPresent_eq, capPresent_eq, hSame 7 (.inr rfl)]
    exact ⟨rfl, fun off hOff => hSame off (.inl hOff)⟩
  have hHeader : ∀ off, HeaderByte caps off → 0x40 ≤ off ∧ off < stop :=
    fun off hOff => ⟨(h.headerByte_ge hOff).1, (h.headerByte_ge hOff).2.1⟩
  unfold pciCfgwrite
  split
  · next hBar =>
    simp only [PCIR_BAR, PCI_BARMAX] at hBar
    split
    · exact hKept pi (by omega) fun _ _ => rfl
    · have hWritten : ∀ off, HeaderByte caps off ∨ off = 7 → Yields (fun _ => True)
          (fun r => r.1.piCfgdata off = pi.piCfgdata off) (barWrite pi m coff eax) := by
        refine fun off hOff => barWrite_piCfgdata (fun hAt => ?_) eax
        simp only [InAccess] at hAt
        obtain hOff | rfl := hOff
        · have hLow := (hHeader off hOff).1
          omega
        · omega
      cases hResult : barWrite pi m coff eax with
      | error fault => trivial
      | ok r => exact hKept r.1 (by omega) fun off hOff => (hWritten off hOff).of_ok hResult
  split
  · next hCap =>
    obtain ⟨-, hLow, hHigh⟩ := h.iscap_iff.mp hCap
    have hFour : coff ≠ 4 := by
      rintro rfl
      exact absurd hLow (by decide)
    refine (((h.capwrite_headers hBytes hLow hHigh eax).and
      ((pi.pciEmulCapwrite_frame coff eax hBytes).weaken)).bind ?_)
    rintro pi' - ⟨hHeaders, hFrame⟩
    refine hKept pi' hFour ?_
    rintro off (hOff | rfl)
    · exact hHeaders off hOff
    · exact hFrame.cfgdata 7 fun hAt => absurd (Nat.le_trans hLow hAt.1) (by decide)
  · next hNotCap =>
    split
    · next hCmd =>
      refine (cmdstsWrite_stored coff bytes eax).imp ?_
      rintro r - ⟨old, pi₁, hOld, hWrite, hSame⟩
      have hPresent := cmdsts_capPresent hCmd hBytes hAlign hOld hWrite
      have hFrame := (pi.cfgWrite_frame coff _ hBytes).of_ok hWrite
      refine ⟨?_, fun off hOff => ?_⟩
      · rw [← hStays, ← hPresent, capPresent_eq, capPresent_eq, hSame]
      · rw [hSame]
        refine hFrame.cfgdata off fun hAt => ?_
        have hLow := (hHeader off hOff).1
        simp only [PCIR_COMMAND, PCIR_REVID, InAccess] at hCmd hAt
        obtain rfl | rfl | rfl := hBytes <;> omega
    · next hPlain =>
      simp only [PCIR_COMMAND, PCIR_REVID] at hPlain
      refine (((pi.cfgWrite_frame coff eax hBytes).weaken).bind fun pi' _ hFrame => ?_)
      refine hKept pi' (by omega) fun off hOff => hFrame.cfgdata off fun hAt => ?_
      simp only [InAccess] at hAt
      obtain ⟨c, hMem, hOff⟩ | rfl := hOff
      · -- a header outside the capability area would have to share a dword with it
        have hIn := h.bounds hMem
        have hOut : ¬ (0x40 ≤ coff ∧ coff < stop) := fun hAt =>
          hNotCap (h.iscap_iff.mpr ⟨List.ne_nil_of_mem hMem, hAt⟩)
        simp only [CAP_START_OFFSET] at hIn
        obtain rfl | rfl | rfl := hBytes <;> omega
      · obtain rfl | rfl | rfl := hBytes <;> omega

/-- A write that keeps `STATUS.CAPPRESENT` keeps the layout. -/
theorem pciCfgwrite_layout (h : CapLayout pi caps stop) {coff bytes : Nat} (hBytes : Width bytes)
    (hAlign : coff % bytes = 0) {eax : BitVec 32}
    (hKeep : coff = 4 → bytes = 4 → eax.getLsbD 4 = pi.capPresent) :
    Yields (fun _ => True) (fun r => CapLayout r.1 caps stop) (pciCfgwrite pi m coff bytes eax) := by
  have hHeaders := pciCfgwrite_headers (m := m) h hBytes hAlign eax
  refine (hHeaders.and (sameSetup_closed.pciCfgwrite coff bytes eax)).imp ?_
  rintro r - ⟨⟨hPresent, hSame⟩, hSetup⟩
  refine h.congr ?_ hSetup.piPrevcap hSetup.piCapend hSame
  rw [hPresent]
  split
  · next hWord => exact hKeep hWord.1 hWord.2
  · rfl

end Write

section Init

variable {pi pi' : PciDevinst} {s : Pci T}

theorem PciDevinst.Elsewhere.trans {pi'' : PciDevinst} (h : Elsewhere pi pi') (h' : Elsewhere pi' pi'') :
    Elsewhere pi pi'' :=
  ⟨h'.piPrevcap.trans h.piPrevcap, h'.piCapend.trans h.piCapend,
    fun off hOff => (h'.cfgdata off hOff).trans (h.cfgdata off hOff)⟩

def SparesCaps (offset bytes : Nat) : Prop :=
  offset + bytes ≤ PCIR_STATUS ∨ PCIR_REVID ≤ offset ∧ offset + bytes ≤ CAP_START_OFFSET

instance (offset bytes : Nat) : Decidable (SparesCaps offset bytes) :=
  inferInstanceAs (Decidable (_ ∨ _))

theorem PciDevinst.Frame.elsewhere {offset bytes : Nat} (hFrame : Frame (InAccess offset bytes) pi pi')
    (hOff : SparesCaps offset bytes) (hPrevcap : pi'.piPrevcap = pi.piPrevcap)
    (hCapend : pi'.piCapend = pi.piCapend) : Elsewhere pi pi' := by
  refine ⟨hPrevcap, hCapend, fun off hAt => hFrame.cfgdata off fun hIn => ?_⟩
  simp only [SparesCaps, PCIR_STATUS, PCIR_REVID, CAP_START_OFFSET, InAccess] at hOff hAt hIn
  omega

/-- The call of a `pe_init` leaves capabilities to `pci_emul_add_capability`. -/
def InitCall.SparesCaps : InitCall → Prop
  | pciSetCfgdata8 offset _ => PciEmul.SparesCaps offset 1
  | pciSetCfgdata16 offset _ => PciEmul.SparesCaps offset 2
  | _ => True

instance : (c : InitCall) → Decidable c.SparesCaps
  | .pciSetCfgdata8 offset _ => inferInstanceAs (Decidable (PciEmul.SparesCaps offset 1))
  | .pciSetCfgdata16 offset _ => inferInstanceAs (Decidable (PciEmul.SparesCaps offset 2))
  | .pciEmulAddCapability _ | .pciEmulAllocPbar _ _ _ _ | .pciLintrRequest => .isTrue trivial

theorem writeBar_elsewhere (pi : PciDevinst) {idx : Nat} {type : PcibarType}
    (hIdx : idx ≤ PCI_BARMAX) (hNext : type = .mem64 → idx + 1 ≤ PCI_BARMAX)
    (addr size bar : BitVec 64) : Elsewhere pi (writeBar pi idx type addr size bar) := by
  have hDword : ∀ (x : PciDevinst) (i : Nat) (high : Pcibar) (val : BitVec 32), i ≤ PCI_BARMAX →
      Elsewhere x ((x.setBar i high).pciSetCfgdata32 (PCIR_BAR i) val) := by
    intro x i high val hi
    refine @Elsewhere.trans _ (x.setBar i high) _ ⟨rfl, rfl, fun _ _ => rfl⟩ ?_
    refine (frame_set32 _ (PCIR_BAR i) val).elsewhere ?_ (set32_piPrevcap _ _ _) (set32_piCapend _ _ _)
    simp only [PciEmul.SparesCaps, PCIR_BAR, PCI_BARMAX, PCIR_STATUS, PCIR_REVID,
      CAP_START_OFFSET] at hi ⊢
    omega
  unfold writeBar
  dsimp only
  split
  · next hType => exact (hDword _ _ _ _ hIdx).trans (hDword _ _ _ _ (hNext hType))
  · exact hDword _ _ _ _ hIdx

theorem setupBar_elsewhere (s : Pci T) (pi : PciDevinst) {idx : Nat} (hIdx : idx ≤ PCI_BARMAX)
    (type : PcibarType) (addr size mask lobits : BitVec 64) :
    Yields (fun _ => True) (fun r => Elsewhere pi r.1)
      (setupBar s pi idx type addr size mask lobits) :=
  (assertThat_yields fun _ => trivial).bind fun _ _ hNext => (yields_true _).bind fun _ _ _ =>
    writeBar_elsewhere pi hIdx hNext addr size _

theorem pciEmulAllocPbar_elsewhere (s : Pci T) (pi : PciDevinst) (idx : Nat)
    (hostbase : BitVec 64) (type : PcibarType) (size : BitVec 64) :
    Yields (fun _ => True) (fun r => Elsewhere pi r.1)
      (pciEmulAllocPbar s pi idx hostbase type size) := by
  unfold pciEmulAllocPbar
  split
  · trivial
  next hIdx =>
  refine (yields_true _).bind fun pool _ _ => ?_
  obtain ⟨pool, mask, lobits⟩ := pool
  cases pool with
  | none => exact setupBar_elsewhere s pi (Nat.not_lt.mp hIdx) type _ _ _ _
  | some pool =>
    refine (yields_true _).bind fun room _ _ => ?_
    cases room with
    | none => exact ⟨rfl, rfl, fun _ _ => rfl⟩
    | some room => exact setupBar_elsewhere _ pi (Nat.not_lt.mp hIdx) type _ _ _ _

theorem initCall_capsBuilt {x : PciDevinst × Pci T} (h : ∃ caps, CapsBuilt x.1 caps)
    {call : InitCall} (hCall : call.SparesCaps) :
    Yields (fun _ => True) (fun y => ∃ caps, CapsBuilt y.1 caps) (call.step x) := by
  obtain ⟨caps, hBuilt⟩ := h
  cases call with
  | pciSetCfgdata8 offset val =>
    exact ⟨caps, hBuilt.elsewhere ((frame_set8 x.1 offset val).elsewhere hCall rfl rfl)⟩
  | pciSetCfgdata16 offset val =>
    exact ⟨caps, hBuilt.elsewhere ((frame_set16 x.1 offset val).elsewhere hCall rfl rfl)⟩
  | pciEmulAddCapability capdata =>
    refine Yields.map ?_
    cases hAdd : x.1.pciEmulAddCapability capdata with
    | error fault => trivial
    | ok r =>
      cases r with
      | none => exact ⟨caps, hBuilt⟩
      | some pi' => exact ⟨_, hBuilt.add hAdd⟩
  | pciEmulAllocPbar idx hostbase type size =>
    exact (pciEmulAllocPbar_elsewhere x.2 x.1 idx hostbase type size).imp
      fun _ _ hSame => ⟨caps, hBuilt.elsewhere hSame⟩
  | pciLintrRequest =>
    refine ⟨caps, hBuilt.elsewhere ?_⟩
    have hFrame := frame_set8 x.1 PCIR_INTPIN
      (BitVec.ofNat 8 (bestPin (x.2.iiCount x.1.bdf.bus x.1.bdf.slot) + 1))
    have hSame := hFrame.elsewhere (by decide) rfl rfl
    exact ⟨hSame.piPrevcap, hSame.piCapend, hSame.cfgdata⟩

def Pci.CapsBuilt (s : Pci T) : Prop :=
  ∀ b pi, s.fiDevi b = some pi → ∃ caps, PciEmul.CapsBuilt pi caps

theorem initFunc_capsBuilt (h : s.CapsBuilt) {fi : FuncInfo}
    (hCalls : ∀ call ∈ fi.peInit, call.SparesCaps) :
    Yields (fun _ => True) Pci.CapsBuilt (initFunc s fi) := by
  have hStart : ∃ caps, PciEmul.CapsBuilt (pciEmulInit fi.bdf) caps := by
    refine ⟨[], .none ?_⟩
    rw [capPresent_eq, pciEmulInit_cfgdata _ (by decide) (by decide)]
    rfl
  have hRun : Yields (fun _ => True) (fun y => ∃ caps, PciEmul.CapsBuilt y.1 caps)
      (Fallible.run InitCall.step (pciEmulInit fi.bdf, s) fi.peInit) :=
    run_yields (fun x call hBuilt hCall => initCall_capsBuilt hBuilt hCall) hStart
      (along_of_forall _ hCalls)
  refine (hRun.and (initCalls_kept (pciEmulInit fi.bdf, s) fi.peInit)).bind ?_
  rintro ⟨pdi, s'⟩ - ⟨hBuilt, hKept⟩ b pi hPi
  obtain ⟨-, rfl⟩ | ⟨-, hPi⟩ := setDevi_eq_some_iff.mp hPi
  · exact hBuilt
  · exact h b pi (congrFun hKept.2 b ▸ hPi)

/-- Every function of `init_pci` has its capabilities from `pci_emul_add_capability`, if its
`pe_init` leaves them alone otherwise. -/
theorem initPci_capsBuilt {buses : List (List FuncInfo)}
    (hCalls : ∀ bus ∈ buses, ∀ fi ∈ bus, ∀ call ∈ fi.peInit, call.SparesCaps) :
    Yields (fun _ => True) Pci.CapsBuilt (initPci T buses) := by
  have hInit : (initState T).CapsBuilt := by
    rintro b pi ⟨⟩
  have hBus : ∀ (s : Pci T) (bus : List FuncInfo), s.CapsBuilt →
      (∀ fi ∈ bus, ∀ call ∈ fi.peInit, call.SparesCaps) →
      Yields (fun _ => True) Pci.CapsBuilt (initBus s bus) := by
    intro s bus hBuilt hBusCalls
    have hRun : Yields (fun _ => True) Pci.CapsBuilt (Fallible.run initFunc s bus) :=
      run_yields (fun s fi hs hfi => initFunc_capsBuilt hs hfi) hBuilt (along_of_forall s hBusCalls)
    exact hRun.bind fun _ _ hDone => hDone
  have hRun : Yields (fun _ => True) Pci.CapsBuilt (Fallible.run initBus (initState T) buses) :=
    run_yields hBus hInit (along_of_forall _ hCalls)
  refine hRun.bind fun s _ hBuilt => ?_
  have hRouted : Pci.CapsBuilt { s with fiDevi := fun bdf => (s.fiDevi bdf).map pciLintrRoute } := by
    intro b x hx
    obtain ⟨pi, hPi, rfl⟩ := Option.map_eq_some_iff.mp hx
    obtain ⟨caps, hPiBuilt⟩ := hBuilt b pi hPi
    refine ⟨caps, hPiBuilt.elsewhere ((lintrRoute_frame pi).elsewhere (by decide) ?_ ?_)⟩
    all_goals
      unfold pciLintrRoute
      split <;> rfl
  dsimp only
  split
  · exact hRouted
  · trivial

end Init

section Run

variable {s s' : Pci T} {b : Bdf} {pi : PciDevinst} {caps : List Cap} {stop : Nat} {w : CfgWrite}

def Pci.Placed (s : Pci T) : Prop := ∀ b pi, s.fiDevi b = some pi → pi.bdf = b

def Pci.replaceDevi (s : Pci T) (pi : PciDevinst) (m : Registry T) : Pci T :=
  { s.setDevi pi with registry := m }

@[simp] theorem Pci.replaceDevi_registry (s : Pci T) (pi : PciDevinst) (m : Registry T) :
    (s.replaceDevi pi m).registry = m := rfl

theorem Pci.replaceDevi_fiDevi (s : Pci T) (m : Registry T) (hBdf : pi.bdf = b) :
    (s.replaceDevi pi m).fiDevi b = some pi := setDevi_eq_some_iff.mpr (.inl ⟨hBdf.symm, rfl⟩)

theorem Pci.write_eq (hDevi : s.fiDevi w.bdf = some pi) (hBytes : Width w.bytes)
    (hAlign : w.coff % w.bytes = 0) (hLow : w.coff ≤ PCI_REGMAX) :
    s.write w = (pciCfgwrite pi s.registry w.coff w.bytes w.val).map
      fun r => s.replaceDevi r.1 r.2 := by
  have hGood : ¬ (w.bytes ≠ 1 ∧ w.bytes ≠ 2 ∧ w.bytes ≠ 4 ∨ w.coff % w.bytes ≠ 0) := by
    simp only [Width] at hBytes
    omega
  unfold Pci.write Pci.pciCfgrw
  simp only [hDevi, if_neg hGood, if_neg (Nat.not_le.mpr (Nat.lt_succ_of_le hLow))]
  cases pciCfgwrite pi s.registry w.coff w.bytes w.val <;> rfl

/-- What a write does to one function: nothing, or what `pci_cfgrw` does past its checks. -/
theorem Pci.write_device (hPlaced : s.Placed) (w : CfgWrite) :
    Yields (fun _ => True) (fun s' => s'.Placed ∧ ∀ b pi, s.fiDevi b = some pi →
      ∃ pi', s'.fiDevi b = some pi' ∧ (pi' = pi ∨ w.bdf = b ∧ Width w.bytes ∧
        w.coff % w.bytes = 0 ∧ w.coff ≤ PCI_REGMAX ∧
          ∃ m', pciCfgwrite pi s.registry w.coff w.bytes w.val = .ok (pi', m')))
      (s.write w) := by
  have hSame : s.Placed ∧ ∀ b pi, s.fiDevi b = some pi → ∃ pi', s.fiDevi b = some pi' ∧ (pi' = pi ∨
      w.bdf = b ∧ Width w.bytes ∧ w.coff % w.bytes = 0 ∧ w.coff ≤ PCI_REGMAX ∧
        ∃ m', pciCfgwrite pi s.registry w.coff w.bytes w.val = .ok (pi', m')) :=
    ⟨hPlaced, fun b pi hPi => ⟨pi, hPi, .inl rfl⟩⟩
  refine Yields.map ?_
  unfold Pci.pciCfgrw
  cases hDev : s.fiDevi w.bdf with
  | none => exact hSame
  | some pi =>
    dsimp only
    split
    · exact hSame
    next hGood =>
    split
    · exact hSame
    · next hLow =>
      obtain ⟨hBytes, hAlign⟩ := not_or.mp hGood
      have hWidth : Width w.bytes := by
        simp only [Width]
        omega
      have hBdf := hPlaced w.bdf pi hDev
      have hSetup := @Closed.pciCfgwrite _ _ pi s.registry sameSetup_closed w.coff w.bytes w.val
      refine hSetup.bind ?_
      rintro ⟨pi', m'⟩ hWrite hSetup
      have hBdf' : pi'.bdf = w.bdf := hSetup.bdf.trans hBdf
      refine ⟨fun b x hx => ?_, fun b x hx => ?_⟩
      · obtain ⟨rfl, rfl⟩ | ⟨-, hx⟩ := setDevi_eq_some_iff.mp hx
        · rfl
        · exact hPlaced b x hx
      · by_cases hb : b = w.bdf
        · subst hb
          obtain rfl := Option.some.inj (hDev.symm.trans hx)
          refine ⟨pi', setDevi_eq_some_iff.mpr (.inl ⟨hBdf'.symm, rfl⟩), .inr ⟨rfl, hWidth, ?_⟩⟩
          exact ⟨not_not.mp hAlign, Nat.le_of_lt_succ (Nat.not_le.mp hLow), m', hWrite⟩
        · exact ⟨x, setDevi_eq_some_iff.mpr (.inr ⟨hBdf' ▸ hb, hx⟩), .inl rfl⟩

namespace PciDevinst

/-- The chain is as it was built, and the search ends where it should. -/
structure ChainKept (pi : PciDevinst) (caps : List Cap) (pi' : PciDevinst) : Prop where
  present : pi'.capPresent = pi.capPresent
  header : ∀ c ∈ caps, pi'.piCfgdata c.off = pi.piCfgdata c.off ∧
    pi'.piCfgdata (c.off + 1) = pi.piCfgdata (c.off + 1)
  search : ∀ offset, pi'.pciEmulIscap offset = true → ∃ c ∈ caps, c.off ≤ offset ∧
    offset < c.off + c.size ∧ pi'.capSearch offset 256 CAP_START_OFFSET = .ok c.off

end PciDevinst

theorem CapLayout.chainKept (h : CapLayout pi caps stop) {pi' : PciDevinst}
    (h' : CapLayout pi' caps stop) : pi.ChainKept caps pi' where
  present := Bool.eq_iff_iff.mpr (h'.present.trans h.present.symm)
  header c hMem := ⟨(h'.id c hMem).trans (h.id c hMem).symm,
    (h'.next c hMem).trans (h.next c hMem).symm⟩
  search offset hCap := by
    obtain ⟨-, hLow, hHigh⟩ := h'.iscap_iff.mp hCap
    exact h'.capSearch_eq hLow hHigh

/-- The write does not change `STATUS.CAPPRESENT` of the function: it is narrower than the dword
of the status word, or has the bit as it was built. -/
def CfgWrite.KeepsPresent (b : Bdf) (pi : PciDevinst) (w : CfgWrite) : Prop :=
  w.bdf = b → w.coff = 4 → w.bytes = 4 → w.val.getLsbD 4 = pi.capPresent

def LaidOut (b : Bdf) (caps : List Cap) (stop : Nat) (s : Pci T) : Prop :=
  s.Placed ∧ ∃ pi, s.fiDevi b = some pi ∧ CapLayout pi caps stop

theorem LaidOut.write (h : LaidOut b caps stop s) (hLayout : CapLayout pi caps stop)
    (hKeep : w.KeepsPresent b pi) (hStep : s.write w = .ok s') : LaidOut b caps stop s' := by
  obtain ⟨hPlaced, x, hDevi, hLayoutX⟩ := h
  obtain ⟨hPlaced', hDevices⟩ := (Pci.write_device hPlaced w).of_ok hStep
  obtain ⟨x', hDevi', rfl | ⟨hb, hBytes, hAlign, -, m', hWrite⟩⟩ := hDevices b x hDevi
  · exact ⟨hPlaced', x', hDevi', hLayoutX⟩
  · have hPresent := (hLayout.chainKept hLayoutX).present
    have hWritten := @pciCfgwrite_layout _ _ s.registry _ _ hLayoutX _ _ hBytes hAlign w.val
      fun hFour hWord => (hKeep hb hFour hWord).trans hPresent.symm
    exact ⟨hPlaced', x', hDevi', hWritten.of_ok hWrite⟩

theorem LaidOut.write_breaks (h : LaidOut b caps stop s) (hBreak : ¬ w.KeepsPresent b pi) :
    ∃ s', s.write w = .ok s' ∧ ∀ x, s'.fiDevi b = some x → x.capPresent ≠ pi.capPresent := by
  obtain ⟨bdf, coff, bytes, val⟩ := w
  simp only [CfgWrite.KeepsPresent, Classical.not_imp] at hBreak
  obtain ⟨rfl, rfl, rfl, hBit⟩ := hBreak
  obtain ⟨hPlaced, x, hDevi, hLayoutX⟩ := h
  have hNotCap : ¬ x.pciEmulIscap 4 = true := fun hCap => absurd (hLayoutX.iscap_iff.mp hCap).2.1
    (by decide)
  have hWrite : pciCfgwrite x s.registry 4 4 val = _ :=
    (if_neg (by decide)).trans ((if_neg hNotCap).trans
      ((if_pos (by decide)).trans (cmdstsWrite_dword x s.registry val)))
  have hPresent := ((pciCfgwrite_headers hLayoutX (.inr (.inr rfl)) rfl val).of_ok hWrite).1
  have hBdf : x.bdf = bdf := hPlaced bdf x hDevi
  have hMod : 4 % 4 = 0 := by decide
  have hReg : 4 ≤ PCI_REGMAX := by decide
  have hEq := Pci.write_eq (w := ⟨bdf, 4, 4, val⟩) hDevi (.inr (.inr rfl)) hMod hReg
  refine ⟨_, hEq.trans (congrArg (Except.map _) hWrite), fun y hy => ?_⟩
  obtain ⟨-, rfl⟩ | ⟨hNe, -⟩ := setDevi_eq_some_iff.mp hy
  · exact hPresent.trans_ne hBit
  · refine absurd ?_ hNe
    rw [pciLintrUpdate_bdf]
    exact hBdf.symm

/-- In a run the chain keeps its headers and the search finds its way, exactly as long as no write
of the whole dword at 4 changes `STATUS.CAPPRESENT`. -/
theorem capChain_kept_iff {buses : List (List FuncInfo)} {s₀ : Pci T} {ws : List CfgWrite}
    (hInit : initPci T buses = .ok s₀) (hDevi : s₀.fiDevi b = some pi) (hBuilt : CapsBuilt pi caps) :
    Throughout Pci.write (fun s => ∃ pi', s.fiDevi b = some pi' ∧ pi.ChainKept caps pi') s₀ ws ↔
      Along Pci.write (fun _ w => w.KeepsPresent b pi) s₀ ws := by
  have hPlaced : s₀.Placed := fun b' x hx => ((initPci_quiet buses).of_ok hInit b' x hx).1
  obtain ⟨stop, hLayout⟩ := hBuilt.layout
  have hStart : LaidOut b caps stop s₀ := ⟨hPlaced, pi, hDevi, hLayout⟩
  refine @throughout_iff_along _ _ _ _ _ (LaidOut b caps stop) _ ?_ ?_ ?_ _ hStart ws
  · rintro s ⟨-, x, hx, hLayoutX⟩
    exact ⟨x, hx, hLayout.chainKept hLayoutX⟩
  · exact fun s w s' hInv hKeep hStep => hInv.write hLayout hKeep hStep
  · intro s w hInv hBreak
    obtain ⟨s', hStep, hChanged⟩ := hInv.write_breaks hBreak
    refine ⟨s', hStep, ?_⟩
    rintro ⟨x, hx, hKept⟩
    exact hChanged x hx hKept.present

theorem ahci_device : ∃ s₀ pi caps, initPci unbalancedTree bhyvePciBuses = .ok s₀ ∧
    s₀.fiDevi ⟨0, 1, 0⟩ = some pi ∧ CapsBuilt pi caps ∧ pi.capPresent = true := by
  have hPresent : (initPci unbalancedTree bhyvePciBuses).toOption.bind (fun s =>
      (s.fiDevi ⟨0, 1, 0⟩).map capPresent) = some true := by decide
  obtain ⟨s₀, hInit, hDevi⟩ := Option.bind_eq_some_iff.mp hPresent
  obtain ⟨pi, hDevi, hOn⟩ := Option.map_eq_some_iff.mp hDevi
  have hInit := toOption_eq_some_iff.mp hInit
  have hCalls : ∀ bus ∈ bhyvePciBuses, ∀ fi ∈ bus, ∀ call ∈ fi.peInit, call.SparesCaps := by decide
  have hCaps : Yields (fun _ => True) Pci.CapsBuilt (initPci unbalancedTree bhyvePciBuses) :=
    initPci_capsBuilt hCalls
  have hAll : s₀.CapsBuilt := hCaps.of_ok hInit
  obtain ⟨caps, hBuilt⟩ := hAll _ pi hDevi
  exact ⟨s₀, pi, caps, hInit, hDevi, hBuilt, hOn⟩

theorem capChain_kept_iff_ahci : ∃ s₀ pi caps, initPci unbalancedTree bhyvePciBuses = .ok s₀ ∧
    s₀.fiDevi ⟨0, 1, 0⟩ = some pi ∧ CapsBuilt pi caps ∧
    Throughout Pci.write (fun s => ∃ pi', s.fiDevi ⟨0, 1, 0⟩ = some pi' ∧ pi.ChainKept caps pi') s₀
      [⟨⟨0, 1, 0⟩, 4, 4, 0x12⟩] := by
  obtain ⟨s₀, pi, caps, hInit, hDevi, hBuilt, hOn⟩ := ahci_device
  refine ⟨s₀, pi, caps, hInit, hDevi, hBuilt, ?_⟩
  exact (capChain_kept_iff hInit hDevi hBuilt).mpr ⟨fun _ _ _ => hOn.symm, fun _ _ => trivial⟩

/-- A write of the dword with the bit clear takes the capability away. -/
theorem capChain_lost : ¬ ∀ (s₀ : Pci unbalancedTree) (pi : PciDevinst) (caps : List Cap),
    initPci unbalancedTree bhyvePciBuses = .ok s₀ → s₀.fiDevi ⟨0, 1, 0⟩ = some pi →
    CapsBuilt pi caps →
    Throughout Pci.write (fun s => ∃ pi', s.fiDevi ⟨0, 1, 0⟩ = some pi' ∧ pi.ChainKept caps pi') s₀
      [⟨⟨0, 1, 0⟩, 4, 4, 0⟩] := by
  intro hAll
  obtain ⟨s₀, pi, caps, hInit, hDevi, hBuilt, hOn⟩ := ahci_device
  have hLost : (initPci unbalancedTree bhyvePciBuses >>= fun s =>
      run Pci.write s [⟨⟨0, 1, 0⟩, 4, 4, 0⟩]).toOption.bind (fun s =>
        (s.fiDevi ⟨0, 1, 0⟩).map capPresent) = some false := by decide
  obtain ⟨s, hRun, hDevi'⟩ := Option.bind_eq_some_iff.mp hLost
  obtain ⟨x, hX, hOff⟩ := Option.map_eq_some_iff.mp hDevi'
  have hRun := toOption_eq_some_iff.mp hRun
  rw [hInit, ok_bind] at hRun
  obtain ⟨y, hY, hKept⟩ := hAll s₀ pi caps hInit hDevi hBuilt _ [] s (List.append_nil _).symm hRun
  obtain rfl := Option.some.inj (hX.symm.trans hY)
  have hPresent := hKept.present
  simp [hOff, hOn] at hPresent

end Run

end DeviceModel.PciEmul

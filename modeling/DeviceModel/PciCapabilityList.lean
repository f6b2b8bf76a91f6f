import DeviceModel.PciCapability

/-!
# The capability list that a sequence of additions builds

Whatever `pci_emul_add_capability` is given on a fresh device, the links from
`PCIR_CAP_PTR` lead through the capabilities that fitted, in the order of the
calls, and each of them holds the body that was supplied.
-/

set_option autoImplicit false

namespace DeviceModel.PciEmul

open Fallible PciDevinst

/-- `roundup2(caplen, 4)` -/
def realLen (caplen : Nat) : Nat := (caplen + 3) / 4 * 4

def capOf (x : Nat × List (BitVec 8)) : Cap := ⟨x.1, realLen x.2.length, x.2.headD 0⟩

namespace PciDevinst

/-- The offsets that next pointers lead through from `off` on, `none` while they have not led to 0. -/
def capWalk (pi : PciDevinst) : Nat → Nat → Option (List Nat)
  | 0, _ => none
  | fuel + 1, off =>
    if off = 0 then some []
    else (pi.capWalk fuel (pi.pciGetCfgdata8 (off + 1)).toNat).map (off :: ·)

end PciDevinst

/-- One call, with the capabilities that were added so far and the offsets they went to. -/
def addCapability (x : PciDevinst × List (Nat × List (BitVec 8))) (capdata : List (BitVec 8)) :
    Except Fault (PciDevinst × List (Nat × List (BitVec 8))) :=
  (x.1.pciEmulAddCapability capdata).map fun r =>
    r.elim x fun pi => (pi, x.2 ++ [(pi.piPrevcap, capdata)])

/-- The list from `PCIR_CAP_PTR` is that of the added capabilities, which end before `stop`. -/
structure CapList (pi : PciDevinst) (added : List (Nat × List (BitVec 8))) (stop : Nat) : Prop where
  walk : pi.capWalk (added.length + 1) (pi.pciGetCfgdata8 PCIR_CAP_PTR).toNat =
    some (added.map Prod.fst)
  tiled : Tiled CAP_START_OFFSET (added.map capOf) stop
  bound : stop ≤ PCI_REGMAX + 1
  body : ∀ x ∈ added, ∀ i, i ≠ 1 → ∀ b, x.2[i]? = some b → pi.pciGetCfgdata8 (x.1 + i) = b
  capend : added ≠ [] → pi.piCapend + 1 = stop

/-- The next call adds its capability exactly if that ends within the 256 bytes. -/
def Fits (pi : PciDevinst) (stop : Nat) (capdata : List (BitVec 8)) : Prop :=
  if stop + realLen capdata.length ≤ PCI_REGMAX + 1 then
    ∃ pi', pi.pciEmulAddCapability capdata = .ok (some pi')
  else pi.pciEmulAddCapability capdata = .ok none

section Walk

variable {pi : PciDevinst} {caps cs : List Cap} {start stop : Nat}

theorem Chain.capWalk_from (h : Chain pi.piCfgdata caps stop) (hTail : Tiled start cs stop)
    (hSub : ∀ c ∈ cs, c ∈ caps) :
    pi.capWalk (cs.length + 1) (if cs = [] then 0 else start) = some (cs.map Cap.off) := by
  induction cs generalizing start with
  | nil => simp [capWalk]
  | cons c cs ih =>
    obtain ⟨rfl, hPos, -, hRest⟩ := hTail
    have hMem : c ∈ caps := hSub c List.mem_cons_self
    have hIn := h.bounds hMem
    simp only [CAP_START_OFFSET] at hIn
    have hLast : c.off + c.size = stop ↔ cs = [] := by
      constructor
      · intro hEnd
        have hLength := hRest.length_le
        exact List.eq_nil_of_length_eq_zero (by omega)
      · rintro rfl
        exact hRest
    have hNext : (pi.pciGetCfgdata8 (c.off + 1)).toNat = if cs = [] then 0 else c.off + c.size := by
      rw [h.nextoff_eq hMem]
      exact if_congr hLast rfl rfl
    rw [if_neg (List.cons_ne_nil c cs), List.length_cons, capWalk, if_neg (by omega), hNext,
      ih hRest fun x hx => hSub x (List.mem_cons_of_mem _ hx)]
    rfl

end Walk

section Bytes

variable {pi : PciDevinst}

theorem setBytes_get (pi : PciDevinst) (offset : Nat) {data : List (BitVec 8)} {i : Nat}
    {b : BitVec 8} (hb : data[i]? = some b) :
    (setBytes offset data pi).piCfgdata (offset + i) = b := by
  induction data generalizing offset i pi with
  | nil => simp at hb
  | cons x xs ih =>
    cases i with
    | zero =>
      obtain rfl : x = b := by simpa using hb
      have hHead := (setBytes_frame (pi.pciSetCfgdata8 offset x) (offset + 1) xs).cfgdata offset
        (Nat.not_succ_le_self _)
      exact hHead.trans (get8_set8 pi offset x)
    | succ i =>
      have hTail := ih (pi.pciSetCfgdata8 offset x) (offset + 1) (by simpa using hb)
      rw [setBytes, show offset + (i + 1) = offset + 1 + i by omega]
      exact hTail

end Bytes

section Add

variable {pi pi' : PciDevinst} {added : List (Nat × List (BitVec 8))} {stop : Nat}
variable {capdata : List (BitVec 8)}

structure Built (pi : PciDevinst) (added : List (Nat × List (BitVec 8))) (stop : Nat) : Prop where
  layout : CapLayout pi (added.map capOf) stop
  ptr : pi.piCfgdata PCIR_CAP_PTR = if added = [] then 0 else BitVec.ofNat 8 CAP_START_OFFSET
  body : ∀ x ∈ added, ∀ i, i ≠ 1 → ∀ b, x.2[i]? = some b → pi.piCfgdata (x.1 + i) = b

theorem Built.capList (h : Built pi added stop) : CapList pi added stop where
  walk := by
    have hWalk := h.layout.toChain.capWalk_from h.layout.tiled fun _ hc => hc
    have hPtr : (pi.pciGetCfgdata8 PCIR_CAP_PTR).toNat =
        if added.map capOf = [] then 0 else CAP_START_OFFSET := by
      show (pi.piCfgdata PCIR_CAP_PTR).toNat = _
      rw [h.ptr]
      cases added with
      | nil => rfl
      | cons x xs => rfl
    rw [List.length_map, ← hPtr, List.map_map] at hWalk
    exact hWalk
  tiled := h.layout.tiled
  bound := h.layout.bound
  body := h.body
  capend hNe := (h.layout.capend (by simpa using hNe)).symm

theorem built_pciEmulInit (bdf : Bdf) : Built (pciEmulInit bdf) [] CAP_START_OFFSET where
  layout := by
    have hOff : (pciEmulInit bdf).capPresent = false := by
      rw [capPresent_eq, pciEmulInit_cfgdata _ (by decide) (by decide)]
      rfl
    refine ⟨⟨rfl, by decide, ?_, ?_⟩, ?_, ?_, ?_⟩
    all_goals simp [hOff]
  ptr := pciEmulInit_cfgdata bdf (by decide) (by decide)
  body := by simp

theorem Built.body_bounds (h : Built pi added stop) {x : Nat × List (BitVec 8)} (hx : x ∈ added)
    {i : Nat} {b : BitVec 8} (hb : x.2[i]? = some b) :
    CAP_START_OFFSET ≤ x.1 ∧ i < realLen x.2.length ∧ x.1 + realLen x.2.length ≤ stop := by
  have hIn := h.layout.bounds (List.mem_map_of_mem (f := capOf) hx)
  simp only [capOf] at hIn
  obtain ⟨hi, -⟩ := List.getElem?_eq_some_iff.mp hb
  have hRoom : x.2.length ≤ realLen x.2.length := by
    rw [realLen]
    omega
  omega

theorem Built.add (h : Built pi added stop)
    (hAdd : pi.pciEmulAddCapability capdata = .ok (some pi')) :
    Built pi' (added ++ [(pi'.piPrevcap, capdata)]) (stop + realLen capdata.length) := by
  obtain ⟨hLen, hRoom, hPrevcap, hCapend, hBytes⟩ := addCapability_cases hAdd
  rw [h.layout.capoff_eq] at hRoom hPrevcap hCapend hBytes
  have hReal : 0 < realLen capdata.length := by
    rw [realLen]
    omega
  obtain ⟨hBelow, -, -⟩ := setBytes_header (if pi.capPresent then _ else _) stop hLen
  rw [← hBytes] at hBelow
  have hStart : CAP_START_OFFSET ≤ stop := h.layout.tiled.le
  have hSize : pi'.piCapend + 1 - pi'.piPrevcap = realLen capdata.length := by
    rw [hCapend, hPrevcap, realLen]
    omega
  refine ⟨?_, ?_, ?_⟩
  · obtain ⟨stop', hLayout⟩ := h.layout.add hAdd
    rw [hSize] at hLayout
    have hStop : stop' = stop + realLen capdata.length := by
      rw [hLayout.capend (by simp), hCapend, realLen]
      omega
    rw [List.map_append, ← hStop]
    exact hLayout
  · rw [if_neg (by simp), hBelow _ (Nat.lt_of_lt_of_le (by decide) hStart)]
    cases hOn : pi.capPresent with
    | true =>
      have hNe : added ≠ [] := by
        have hCaps := h.layout.present.mp hOn
        simpa using hCaps
      obtain ⟨last, hLast, hOff, -⟩ := h.layout.prevcap (by simpa using hNe)
      have hIn := h.layout.bounds hLast
      simp only [CAP_START_OFFSET] at hIn
      rw [if_pos rfl, (frame_set8 pi _ _).cfgdata _ fun hAt => by
        simp only [InAccess, PCIR_CAP_PTR] at hAt
        omega, h.ptr, if_neg hNe]
    | false =>
      have hNil : added = [] := by
        by_contra hNe
        have hOn' := h.layout.present.mpr (by simpa using hNe)
        simp [hOn] at hOn'
      subst hNil
      obtain rfl : CAP_START_OFFSET = stop := h.layout.tiled
      rw [if_neg (by simp), (frame_set16 _ PCIR_STATUS _).cfgdata _ fun hAt => absurd hAt.2 (by decide)]
      exact get8_set8 pi _ _
  · intro x hx i hi b hb
    rcases List.mem_append.mp hx with hx | hx
    · have hIn := h.body_bounds hx hb
      rw [hBelow _ (by omega), ← h.body x hx i hi b hb]
      split
      · next hOn =>
        obtain ⟨last, hLast, hOff, -⟩ := h.layout.prevcap (h.layout.present.mp hOn)
        have hLastIn := h.layout.bounds hLast
        refine (frame_set8 pi _ _).cfgdata _ fun hAt => hi ?_
        simp only [InAccess] at hAt
        have hSame : capOf x = last := @Tiled.eq_of_covers _ _ _ _ _ h.layout.tiled (by decide)
          (x.1 + i) (List.mem_map_of_mem hx) hLast (by simp only [capOf]; omega) (by omega)
        have hOffs : x.1 = last.off := congrArg Cap.off hSame
        omega
      · next hOff =>
        rw [(frame_set16 _ PCIR_STATUS _).cfgdata _ fun hAt => by
          simp only [InAccess, PCIR_STATUS, CAP_START_OFFSET] at hAt hIn
          omega]
        refine (frame_set8 pi _ _).cfgdata _ fun hAt => ?_
        simp only [InAccess, PCIR_CAP_PTR, CAP_START_OFFSET] at hAt hIn
        omega
    · obtain rfl := List.mem_singleton.mp hx
      dsimp only
      rw [hBytes, hPrevcap, (frame_set8 _ (stop + 1) 0).cfgdata _ fun hAt => by
        simp only [InAccess] at hAt
        omega]
      exact setBytes_get _ _ hb

theorem Built.fits (h : Built pi added stop) (hLen : capdata ≠ []) : Fits pi stop capdata := by
  have hPos : capdata.length ≠ 0 := by simpa using hLen
  have hCapoff := h.layout.capoff_eq
  unfold PciDevinst.capPresent at hCapoff
  unfold Fits pciEmulAddCapability
  dsimp only
  rw [hCapoff, if_neg hPos]
  by_cases hRoom : stop + realLen capdata.length ≤ PCI_REGMAX + 1
  · rw [if_pos hRoom]
    exact ⟨_, if_neg (Nat.not_lt.mpr hRoom)⟩
  · rw [if_neg hRoom]
    exact if_pos (Nat.not_le.mp hRoom)

theorem Built.addCapability (h : Built pi added stop) (hLen : capdata ≠ []) :
    ∃ pi' added' stop', PciEmul.addCapability (pi, added) capdata = .ok (pi', added') ∧
      Built pi' added' stop' := by
  have hFits := h.fits hLen
  unfold Fits at hFits
  unfold PciEmul.addCapability
  split at hFits
  · obtain ⟨pi', hAdd⟩ := hFits
    rw [hAdd]
    exact ⟨_, _, _, rfl, h.add hAdd⟩
  · rw [hFits]
    exact ⟨_, _, _, rfl, h⟩

/-- After any sequence of calls on a fresh device the list is that of the capabilities that were
added, and the next one is added exactly if it fits. -/
theorem addCapability_capList (bdf : Bdf) {bodies : List (List (BitVec 8))}
    (hBodies : ∀ capdata ∈ bodies, capdata ≠ []) :
    ∃ pi added stop, run PciEmul.addCapability (pciEmulInit bdf, []) bodies = .ok (pi, added) ∧
      CapList pi added stop ∧ ∀ capdata ≠ [], Fits pi stop capdata := by
  have hStep : ∀ x capdata, (∃ stop, Built x.1 x.2 stop) → capdata ≠ [] →
      Yields (fun _ => False) (fun x' => ∃ stop, Built x'.1 x'.2 stop)
        (PciEmul.addCapability x capdata) := by
    rintro ⟨pi, added⟩ capdata ⟨stop, hBuilt⟩ hLen
    obtain ⟨pi', added', stop', hEq, hBuilt'⟩ := hBuilt.addCapability hLen
    rw [hEq]
    exact ⟨stop', hBuilt'⟩
  have hRun := run_yields (s := (pciEmulInit bdf, [])) hStep ⟨_, built_pciEmulInit bdf⟩
    (along_of_forall _ hBodies)
  obtain ⟨⟨pi, added⟩, hEq, stop, hBuilt⟩ := hRun.exists_ok
  exact ⟨pi, added, stop, hEq, hBuilt.capList, fun capdata hLen => hBuilt.fits hLen⟩

/-- An MSI capability and one that fills the rest, after which nothing fits. -/
theorem addCapability_capList_full : ∃ pi added stop,
    run PciEmul.addCapability (pciEmulInit ⟨0, 1, 0⟩, [])
      [pciPopulateMsicap 3, List.replicate 200 (0xff : BitVec 8), List.replicate 175 (0x09 : BitVec 8)] =
        .ok (pi, added) ∧
      CapList pi added stop ∧ ∀ capdata ≠ [], Fits pi stop capdata :=
  addCapability_capList ⟨0, 1, 0⟩ (by decide)

end Add

end DeviceModel.PciEmul

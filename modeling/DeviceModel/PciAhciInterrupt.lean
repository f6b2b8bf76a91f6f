import DeviceModel.PciAhciSteps

/-!
# The AHCI controller: the legacy interrupt

The interrupt is requested exactly if interrupts are enabled and the status of the controller
is not zero, and the status has the bit of every port with an enabled event. A port changes
what this is about only in `ahci_port_intr`, so that whatever it does keeps it.
-/

set_option autoImplicit false

namespace DeviceModel.PciAhci

open Fallible BlockIf PciEmul

structure Legacy (sc : Softc) : Prop where
  msi : sc.ascPi.pciMsiMaxmsgnum = 0
  ports : 0 < sc.ports

def Requested (sc : Softc) : Prop :=
  sc.lintr = true ↔ sc.ghc &&& AHCI_GHC_IE ≠ 0 ∧ sc.is ≠ 0

/-- An enabled event of the port is in the status of the controller. -/
def Noted (sc : Softc) (p : AhciPort) (k : PortId) : Prop := p.is &&& p.ie ≠ 0 → sc.is &&& bit k ≠ 0

theorem bit_ne_zero (k : Fin 32) : bit k ≠ 0 := by
  revert k
  decide

theorem or_ne_zero_right {a b : BitVec 32} (hb : b ≠ 0) : a ||| b ≠ 0 :=
  fun hZero => hb (BitVec.or_eq_zero_iff.mp hZero).2

theorem or_and_ne_zero {a b c : BitVec 32} (h : a &&& c ≠ 0) : (a ||| b) &&& c ≠ 0 := by
  intro hZero
  refine h (BitVec.eq_of_getLsbD_eq fun i hi => ?_)
  have hBit := congrArg (BitVec.getLsbD · i) hZero
  simp only [BitVec.getLsbD_and, BitVec.getLsbD_or, BitVec.ofNat_eq_ofNat, BitVec.getLsbD_zero]
    at hBit ⊢
  cases hA : a.getLsbD i <;> simp_all

theorem or_bit_and_bit (a : BitVec 32) (k : Fin 32) : (a ||| bit k) &&& bit k ≠ 0 := by
  rw [BitVec.or_comm]
  exact or_and_ne_zero (by rw [BitVec.and_self]; exact bit_ne_zero k)

namespace Port

structure Evolves (s t : Port) : Prop where
  port : t.p.port = s.p.port
  ports : t.sc.ports = s.sc.ports
  msi : t.sc.ascPi.pciMsiMaxmsgnum = s.sc.ascPi.pciMsiMaxmsgnum
  grows : ∀ k : PortId, s.sc.is &&& bit k ≠ 0 → t.sc.is &&& bit k ≠ 0
  requested : Legacy s.sc → Requested s.sc → Requested t.sc
  noted : Legacy s.sc → Noted s.sc s.p s.p.port → Noted t.sc t.p t.p.port

theorem Evolves.refl (s : Port) : Evolves s s :=
  ⟨rfl, rfl, rfl, fun _ h => h, fun _ h => h, fun _ h => h⟩

theorem Evolves.legacy {s t : Port} (h : Evolves s t) (hLegacy : Legacy s.sc) : Legacy t.sc :=
  ⟨h.msi.trans hLegacy.msi, by rw [h.ports]; exact hLegacy.ports⟩

theorem Evolves.trans {s t u : Port} (h : Evolves s t) (h' : Evolves t u) : Evolves s u where
  port := h'.port.trans h.port
  ports := h'.ports.trans h.ports
  msi := h'.msi.trans h.msi
  grows k hBit := h'.grows k (h.grows k hBit)
  requested hLegacy hReq := h'.requested (h.legacy hLegacy) (h.requested hLegacy hReq)
  noted hLegacy hNoted := h'.noted (h.legacy hLegacy) (h.noted hLegacy hNoted)

structure SameIntr (s t : Port) : Prop where
  port : t.p.port = s.p.port
  is : t.p.is = s.p.is
  ie : t.p.ie = s.p.ie
  ascPi : t.sc.ascPi = s.sc.ascPi
  ports : t.sc.ports = s.sc.ports
  ghc : t.sc.ghc = s.sc.ghc
  scIs : t.sc.is = s.sc.is
  lintr : t.sc.lintr = s.sc.lintr

theorem SameIntr.evolves {s t : Port} (h : SameIntr s t) : Evolves s t where
  port := h.port
  ports := h.ports
  msi := by rw [h.ascPi]
  grows k hBit := by rwa [h.scIs]
  requested _ hReq := by
    unfold Requested
    rwa [h.lintr, h.ghc, h.scIs]
  noted _ hNoted := by
    unfold Noted
    rwa [h.is, h.ie, h.scIs, h.port]

theorem pciLintrAssert_msi (pi : PciDevinst) : Yields (fun _ => True)
    (fun pi' => pi'.pciMsiMaxmsgnum = pi.pciMsiMaxmsgnum) pi.pciLintrAssert := by
  refine (assertThat_yields fun _ => trivial).bind fun _ _ _ => ?_
  split
  · split
    · rfl
    · rfl
  · rfl

theorem pciLintrDeassert_msi (pi : PciDevinst) : Yields (fun _ => True)
    (fun pi' => pi'.pciMsiMaxmsgnum = pi.pciMsiMaxmsgnum) pi.pciLintrDeassert := by
  refine (assertThat_yields fun _ => trivial).bind fun _ _ _ => ?_
  split <;> rfl

/-- An enabled event is noted, whatever was noted before. -/
theorem raiseIntr_noted (s : Port) : Yields (fun _ => True)
    (fun t => t.p = s.p ∧ t.sc.ports = s.sc.ports ∧
      t.sc.ascPi.pciMsiMaxmsgnum = s.sc.ascPi.pciMsiMaxmsgnum ∧
      (∀ k : PortId, s.sc.is &&& bit k ≠ 0 → t.sc.is &&& bit k ≠ 0) ∧
      (Legacy s.sc → Noted t.sc t.p t.p.port ∧ (Requested s.sc → Requested t.sc)))
    s.raiseIntr := by
  unfold raiseIntr
  split
  · next hNone => exact ⟨rfl, rfl, rfl, fun _ h => h, fun _ => ⟨fun h => absurd hNone h, fun h => h⟩⟩
  dsimp only
  split
  · next hMsi =>
    refine ⟨rfl, rfl, rfl, fun _ => or_and_ne_zero, fun hLegacy => ?_⟩
    rw [hLegacy.msi] at hMsi
    have := hLegacy.ports
    omega
  split
  · next hOld => exact ⟨rfl, rfl, rfl, fun _ h => h, fun _ => ⟨fun _ => hOld, fun h => h⟩⟩
  split
  · next hOff =>
    refine ⟨rfl, rfl, rfl, fun _ => or_and_ne_zero, fun _ => ⟨fun _ => or_bit_and_bit _ _, ?_⟩⟩
    simp only [Requested, hOff]
    intro hReq
    simpa using hReq
  split
  · next hMsi =>
    refine ⟨rfl, rfl, rfl, fun _ => or_and_ne_zero, fun hLegacy => ?_⟩
    rw [hLegacy.msi] at hMsi
    exact absurd hMsi (Nat.lt_irrefl 0)
  have hSome : s.sc.is ||| bit s.p.port ≠ 0 := or_ne_zero_right (bit_ne_zero _)
  split
  · next hOn _ hLintr =>
    refine ⟨rfl, rfl, rfl, fun _ => or_and_ne_zero, fun _ => ⟨fun _ => or_bit_and_bit _ _, ?_⟩⟩
    exact fun _ => ⟨fun _ => ⟨hOn, hSome⟩, fun _ => hLintr⟩
  · next hOn _ _ =>
    refine (pciLintrAssert_msi _).bind fun pi _ hPi => ?_
    refine ⟨rfl, rfl, hPi, fun _ => or_and_ne_zero, fun _ => ⟨fun _ => or_bit_and_bit _ _, ?_⟩⟩
    exact fun _ => ⟨fun _ => ⟨hOn, hSome⟩, fun _ => rfl⟩

theorem ahciPortIntr_evolves {s t : Port} (hPort : t.p.port = s.p.port) (hSc : t.sc = s.sc) :
    Yields (fun _ => True) (Evolves s) t.ahciPortIntr := by
  refine (assertThat_yields fun _ => trivial).bind fun _ _ _ => (raiseIntr_noted t).imp fun u _ hu => ?_
  obtain ⟨hP, hPorts, hMsi, hGrows, hNoted⟩ := hu
  rw [hSc] at hPorts hMsi hGrows hNoted
  exact ⟨by rw [hP, hPort], hPorts, hMsi, hGrows, fun hLegacy => (hNoted hLegacy).2,
    fun hLegacy _ => (hNoted hLegacy).1⟩

theorem SameIntr.andThen {s t : Port} {x : Except Fault Port} (h : SameIntr s t)
    (hx : Yields (fun _ => True) (Evolves t) x) : Yields (fun _ => True) (Evolves s) x :=
  hx.imp fun _ _ hu => h.evolves.trans hu

theorem ahciWriteFis_evolves (s : Port) (ft : SataFisType) (fis : List (BitVec 8)) :
    Yields (fun _ => True) (Evolves s) (s.ahciWriteFis ft fis) := by
  unfold ahciWriteFis
  split
  · split
    · exact Evolves.refl s
    · dsimp only
      split
      · exact SameIntr.evolves ⟨rfl, rfl, rfl, rfl, rfl, rfl, rfl, rfl⟩
      · exact ahciPortIntr_evolves rfl rfl
  · exact Evolves.refl s

theorem onDisk_evolves (s : Port) {α : Type} (f : Disk IoreqId → Except Fault (α × Disk IoreqId)) :
    Yields (fun _ => True) (fun r => Evolves s r.2) (s.onDisk f) := by
  refine (assertThat_yields fun _ => trivial).bind fun _ _ _ => (yields_true _).bind ?_
  rintro ⟨a, d⟩ - -
  exact SameIntr.evolves ⟨rfl, rfl, rfl, rfl, rfl, rfl, rfl, rfl⟩

theorem evolves_stepwise : Stepwise Evolves where
  refl := Evolves.refl
  trans := Evolves.trans
  quiet h := SameIntr.evolves ⟨h.port, h.is, h.ie, by rw [h.sc], by rw [h.sc], by rw [h.sc],
    by rw [h.sc], by rw [h.sc]⟩
  issue _ _ _ := SameIntr.evolves ⟨rfl, rfl, rfl, rfl, rfl, rfl, rfl, rfl⟩
  request _ _ := SameIntr.evolves ⟨rfl, rfl, rfl, rfl, rfl, rfl, rfl, rfl⟩
  served _ _ _ := SameIntr.evolves ⟨rfl, rfl, rfl, rfl, rfl, rfl, rfl, rfl⟩
  empty _ _ := SameIntr.evolves ⟨rfl, rfl, rfl, rfl, rfl, rfl, rfl, rfl⟩
  cancelled _ _ := SameIntr.evolves ⟨rfl, rfl, rfl, rfl, rfl, rfl, rfl, rfl⟩
  checkStopped s := by
    unfold ahciCheckStopped
    split
    · exact SameIntr.evolves ⟨rfl, rfl, rfl, rfl, rfl, rfl, rfl, rfl⟩
    · exact Evolves.refl s
  sdb s slot cfis tfd := by
    unfold ahciWriteFisSdb
    refine SameIntr.andThen ?_ (ahciWriteFis_evolves _ _ _)
    dsimp only
    split <;> exact ⟨rfl, rfl, rfl, rfl, rfl, rfl, rfl, rfl⟩
  d2h s slot cfis tfd := by
    unfold ahciWriteFisD2h
    refine SameIntr.andThen ?_ (ahciWriteFis_evolves _ _ _)
    dsimp only
    split <;> exact ⟨rfl, rfl, rfl, rfl, rfl, rfl, rfl, rfl⟩
  d2hNcq s slot := by
    refine SameIntr.andThen ?_ (ahciWriteFis_evolves _ _ _)
    exact ⟨rfl, rfl, rfl, rfl, rfl, rfl, rfl, rfl⟩
  piosetup s := ahciWriteFis_evolves s _ _
  resetFis s := ahciWriteFis_evolves s _ _
  handOver s op aior := (onDisk_evolves s _).bind fun _ _ hr =>
    (assertThat_yields fun _ => trivial).bind fun _ _ _ => hr
  cancel s aior := onDisk_evolves s _

theorem evolves_kept : Kept Evolves := evolves_stepwise.kept

theorem mtx_evolves (s : Port) (m : PthreadMutex) : Evolves s { s with sc.mtx := m } :=
  SameIntr.evolves ⟨rfl, rfl, rfl, rfl, rfl, rfl, rfl, rfl⟩

theorem blockifThr_evolves (s : Port) (fuel : Nat) :
    Yields (fun _ => True) (Evolves s) ((client fuel).blockifThr fuel s) :=
  evolves_kept.blockifThr s fuel mtx_evolves fun _ _ =>
    SameIntr.evolves ⟨rfl, rfl, rfl, rfl, rfl, rfl, rfl, rfl⟩

section Registers

variable (s : Port) (fuel : Nat)

theorem cmdBits_sameIntr (value : BitVec 32) : SameIntr s (s.cmdBits value) := by
  unfold cmdBits
  dsimp only
  split <;> split <;> split <;> exact ⟨rfl, rfl, rfl, rfl, rfl, rfl, rfl, rfl⟩

theorem cmdWrite_evolves (value : BitVec 32) :
    Yields (fun _ => True) (Evolves s) (s.cmdWrite fuel value) := by
  refine SameIntr.andThen ?_ (evolves_kept.andThen (Yields.ite (evolves_kept.portStop _ (mtx_evolves _ _))
    ?_) fun t => ?_)
  · exact ⟨rfl, rfl, rfl, rfl, rfl, rfl, rfl, rfl⟩
  · exact SameIntr.evolves ⟨rfl, rfl, rfl, rfl, rfl, rfl, rfl, rfl⟩
  · exact (cmdBits_sameIntr t value).andThen (evolves_kept.handlePort _ fuel)

theorem pciAhciPortWrite_evolves (offset : Nat) (value : BitVec 32) :
    Yields (fun _ => True) (Evolves s) (s.pciAhciPortWrite fuel offset value) := by
  by_cases hCmd : offset = 0x18
  · subst hCmd
    exact cmdWrite_evolves s fuel value
  by_cases hIs : offset = 0x10
  · subst hIs
    exact ahciPortIntr_evolves rfl rfl
  by_cases hIe : offset = 0x14
  · subst hIe
    exact ahciPortIntr_evolves rfl rfl
  · exact evolves_kept.portWrite s fuel hCmd hIs hIe value

/-- A reset takes back the events of the port before it evolves. -/
theorem hbaReset_evolves : Yields (fun _ => True)
    (fun t => ∃ u : Port, Evolves u t ∧ u.sc = s.sc ∧ u.p.port = s.p.port ∧ u.p.is = 0)
    s.hbaReset := by
  unfold hbaReset
  exact (evolves_kept.portReset _).imp fun t _ ht => ⟨_, ht, rfl, rfl, rfl⟩

end Registers

end Port

namespace Ahci

/-- Interrupts are coherent as far as the controller and some of its ports go. -/
structure CoherentOn (ks : List PortId) (s : Ahci) : Prop where
  legacy : Legacy s.sc
  requested : Requested s.sc
  noted : ∀ k ∈ ks, Noted s.sc (s.port k) k
  index : ∀ k, (s.port k).port = k

theorem mem_portIds {s : Ahci} {k : PortId} : k ∈ s.portIds ↔ (k : Nat) < s.sc.ports := by
  simp [portIds]

section Ports

variable {s : Ahci} {ks : List PortId} {k : PortId} {f : Port → Except Fault Port}

/-- A port that evolves keeps its own interrupt and those of the other ports. -/
theorem onPort_keeps (h : CoherentOn ks s) (hf : ∀ t, Yields (fun _ => True) (Port.Evolves t) (f t)) :
    Yields (fun _ => True) (fun s' => CoherentOn ks s' ∧ s'.sc.ports = s.sc.ports) (s.onPort k f) := by
  refine (hf _).bind fun t _ ht => ⟨⟨ht.legacy h.legacy, ht.requested h.legacy h.requested, ?_, ?_⟩,
    ht.ports⟩
  · have hIndex : t.p.port = k := ht.port.trans (h.index k)
    intro j hj
    dsimp only
    by_cases hEq : j = k
    · subst hEq
      rw [Function.update_self]
      have hNoted := ht.noted h.legacy (by rw [h.index j]; exact h.noted j hj)
      rwa [hIndex] at hNoted
    · rw [Function.update_of_ne hEq]
      exact fun hEnabled => ht.grows j (h.noted j hj hEnabled)
  · intro j
    dsimp only
    by_cases hEq : j = k
    · subst hEq
      rw [Function.update_self, ht.port, h.index]
    · rw [Function.update_of_ne hEq, h.index]

theorem onPort_hbaReset (h : CoherentOn ks s) : Yields (fun _ => True)
    (fun s' => CoherentOn (k :: ks) s' ∧ s'.sc.ports = s.sc.ports) (s.onPort k Port.hbaReset) := by
  refine (Port.hbaReset_evolves _).bind fun t _ ht => ?_
  obtain ⟨u, ht, hSc, hPort, hIs⟩ := ht
  have hLegacy : Legacy u.sc := by rw [hSc]; exact h.legacy
  have hIndex : t.p.port = k := ht.port.trans (hPort.trans (h.index k))
  refine ⟨⟨ht.legacy hLegacy, ht.requested hLegacy (by rw [hSc]; exact h.requested), ?_, ?_⟩, ?_⟩
  · intro j hj
    dsimp only
    by_cases hEq : j = k
    · subst hEq
      rw [Function.update_self]
      have hNone : Noted u.sc u.p u.p.port := fun hEnabled => absurd (by simp [hIs]) hEnabled
      have hNoted := ht.noted hLegacy hNone
      rwa [hIndex] at hNoted
    · rw [Function.update_of_ne hEq]
      have hOld := h.noted j ((List.mem_cons.mp hj).resolve_left hEq)
      exact fun hEnabled => ht.grows j (by rw [hSc]; exact hOld hEnabled)
  · intro j
    dsimp only
    by_cases hEq : j = k
    · subst hEq
      rwa [Function.update_self]
    · rw [Function.update_of_ne hEq, h.index]
  · rw [ht.ports, hSc]

theorem resetPorts_keeps (ks' : List PortId) (h : CoherentOn ks s) : Yields (fun _ => True)
    (fun s' => CoherentOn (ks' ++ ks) s' ∧ s'.sc.ports = s.sc.ports) (resetPorts ks' s) := by
  induction ks' generalizing s ks with
  | nil => exact ⟨h, rfl⟩
  | cons k ks' ih =>
    refine (onPort_hbaReset h).bind fun t _ ht => (ih ht.1).imp fun u _ hu => ?_
    refine ⟨⟨hu.1.legacy, hu.1.requested, fun j hj => hu.1.noted j ?_, hu.1.index⟩, hu.2.trans ht.2⟩
    simp only [List.mem_append, List.mem_cons] at hj ⊢
    tauto

end Ports

def Coherent (s : Ahci) : Prop := CoherentOn s.portIds s

theorem portIds_congr {s s' : Ahci} (h : s'.sc.ports = s.sc.ports) : s'.portIds = s.portIds := by
  rw [portIds, portIds, h]

section Registers

variable {s : Ahci}

theorem onPort_coherent (h : s.Coherent) {k : PortId} {f : Port → Except Fault Port}
    (hf : ∀ t, Yields (fun _ => True) (Port.Evolves t) (f t)) :
    Yields (fun _ => True) Coherent (s.onPort k f) :=
  (onPort_keeps h hf).imp fun t _ ht => by rw [Coherent, portIds_congr ht.2]; exact ht.1

theorem ahciReset_coherent (hLegacy : Legacy s.sc) (hIndex : ∀ k, (s.port k).port = k) :
    Yields (fun _ => True) Coherent s.ahciReset := by
  unfold ahciReset
  dsimp only
  refine Yields.bind (P := fun t => CoherentOn [] t ∧ t.sc.ports = s.sc.ports) ?_ fun t _ ht => ?_
  · have hOff : AHCI_GHC_AE &&& AHCI_GHC_IE = 0 := by decide
    split
    · refine (Port.pciLintrDeassert_msi _).bind fun pi _ hPi => ?_
      refine ⟨⟨⟨hPi.trans hLegacy.msi, hLegacy.ports⟩, ?_, fun k hk => absurd hk List.not_mem_nil, hIndex⟩,
        rfl⟩
      simp [Requested]
    · next hLintr =>
      refine ⟨⟨⟨hLegacy.msi, hLegacy.ports⟩, ?_, fun k hk => absurd hk List.not_mem_nil, hIndex⟩, rfl⟩
      simpa [Requested] using hLintr
  · refine (resetPorts_keeps t.portIds ht.1).imp fun u _ hu => ?_
    rw [Coherent, portIds_congr hu.2]
    have hOn := hu.1
    rwa [List.append_nil] at hOn

/-- The loop of `ahci_generate_intr`. -/
theorem foldl_or_bit {P : PortId → Prop} [DecidablePred P] (ks : List PortId) (is : BitVec 32) :
    (∀ k : PortId, is &&& bit k ≠ 0 →
      ks.foldl (fun is i => if P i then is ||| bit i else is) is &&& bit k ≠ 0) ∧
    ∀ k ∈ ks, P k → ks.foldl (fun is i => if P i then is ||| bit i else is) is &&& bit k ≠ 0 := by
  induction ks generalizing is with
  | nil => exact ⟨fun _ h => h, fun k hk => absurd hk List.not_mem_nil⟩
  | cons i ks ih =>
    obtain ⟨hGrows, hNoted⟩ := ih (if P i then is ||| bit i else is)
    refine ⟨fun k hBit => hGrows k ?_, fun k hk hP => ?_⟩
    · split
      · exact or_and_ne_zero hBit
      · exact hBit
    · rcases List.mem_cons.mp hk with rfl | hk
      · exact hGrows k (by rw [if_pos hP]; exact or_bit_and_bit _ _)
      · exact hNoted k hk hP

theorem ahciGenerateIntr_coherent (hLegacy : Legacy s.sc) (hIndex : ∀ k, (s.port k).port = k) :
    Yields (fun _ => True) Coherent s.ahciGenerateIntr := by
  have hNoted := (foldl_or_bit (P := fun i => (s.port i).is &&& (s.port i).ie ≠ 0) s.portIds s.sc.is).2
  unfold ahciGenerateIntr
  dsimp only
  split
  · next hNone =>
    have hNot : ∀ {ghc is : BitVec 32}, is = 0 ∨ ghc &&& AHCI_GHC_IE = 0 →
        (false = true ↔ ghc &&& AHCI_GHC_IE ≠ 0 ∧ is ≠ 0) := fun h => by tauto
    split
    · refine (Port.pciLintrDeassert_msi _).bind fun pi _ hPi => ?_
      exact ⟨⟨hPi.trans hLegacy.msi, hLegacy.ports⟩, hNot hNone, hNoted, hIndex⟩
    · next hLintr =>
      refine ⟨⟨hLegacy.msi, hLegacy.ports⟩, ?_, hNoted, hIndex⟩
      rw [Requested, Bool.eq_false_iff.mpr hLintr]
      exact hNot hNone
  · next hSome =>
    rw [not_or] at hSome
    rw [if_pos hLegacy.msi]
    split
    · next hLintr =>
      exact ⟨⟨hLegacy.msi, hLegacy.ports⟩, ⟨fun _ => hSome.symm, fun _ => hLintr⟩, hNoted, hIndex⟩
    · refine (Port.pciLintrAssert_msi _).bind fun pi _ hPi => ?_
      exact ⟨⟨hPi.trans hLegacy.msi, hLegacy.ports⟩, ⟨fun _ => hSome.symm, fun _ => rfl⟩, hNoted, hIndex⟩

theorem pciAhciHostWrite_coherent (h : s.Coherent) (offset : Nat) (value : BitVec 32) :
    Yields (fun _ => True) Coherent (s.pciAhciHostWrite offset value) := by
  unfold pciAhciHostWrite
  split
  · exact Yields.ite (ahciReset_coherent h.legacy h.index)
      (ahciGenerateIntr_coherent ⟨h.legacy.msi, h.legacy.ports⟩ h.index)
  · exact ahciGenerateIntr_coherent ⟨h.legacy.msi, h.legacy.ports⟩ h.index
  · exact h

theorem pciAhciWrite_coherent (h : s.Coherent) (fuel baridx offset : Nat) (value : BitVec 64) :
    Yields (fun _ => True) Coherent (s.pciAhciWrite fuel baridx offset value) := by
  have hMtx : ∀ (t : Ahci) (m : PthreadMutex), t.Coherent → Coherent { t with sc.mtx := m } :=
    fun t m ht => ⟨⟨ht.legacy.msi, ht.legacy.ports⟩, ht.requested, ht.noted, ht.index⟩
  have hLocked := hMtx s s.sc.mtx.pthreadMutexLock h
  unfold pciAhciWrite
  refine (assertThat_yields fun _ => trivial).bind fun _ _ _ => ?_
  refine Yields.bind (P := Coherent) (Yields.ite ?_ (Yields.ite ?_ ?_)) fun t _ ht => hMtx t _ ht
  · exact pciAhciHostWrite_coherent hLocked _ _
  · generalize (offset - AHCI_OFFSET) % AHCI_STEP = reg
    exact onPort_coherent hLocked fun t => Port.pciAhciPortWrite_evolves t fuel reg _
  · exact hLocked

end Registers

/-- What happens to the controller, where commands may also complete on their own. -/
inductive Act where
  | event (event : Event)
  /-- a command completes -/
  | fis (k : PortId) (ft : SataFisType) (fis : List (BitVec 8))

def act (fuel : Nat) (s : Ahci) : Act → Except Fault Ahci
  | .event event => s.step fuel event
  | .fis k ft fis => s.onPort k fun t => t.ahciWriteFis ft fis

def MsiOff : Act → Prop
  | .event (.other _ pi) => pi.pciMsiMaxmsgnum = 0
  | _ => True

theorem act_coherent {s : Ahci} (h : s.Coherent) (fuel : Nat) {a : Act} (hOff : MsiOff a) :
    Yields (fun _ => True) Coherent (s.act fuel a) := by
  cases a with
  | fis k ft fis => exact onPort_coherent h fun t => Port.ahciWriteFis_evolves t ft fis
  | event event =>
    cases event with
    | write baridx offset value => exact pciAhciWrite_coherent h fuel baridx offset value
    | reset => exact ahciReset_coherent h.legacy h.index
    | thr =>
      rw [act, step, blockifThr]
      split
      · exact h
      · exact onPort_coherent h fun t => Port.blockifThr_evolves t fuel
    | other mem pi => exact ⟨⟨hOff, h.legacy.ports⟩, h.requested, h.noted, h.index⟩

theorem pciAhciInit_coherent {pi : PciDevinst} (hMsi : pi.pciMsiMaxmsgnum = 0)
    (disks : List (Option (List (BitVec 8)))) (mem : Memory) (stack : Nat → BitVec 8) :
    Yields (fun _ => True) Coherent (pciAhciInit pi disks mem stack) := by
  refine ahciReset_coherent ⟨hMsi, ?_⟩ fun k => ?_
  · exact lt_of_lt_of_le (by decide) (le_max_right _ _)
  · dsimp only
    split <;> rfl

/-- In every run without MSI the interrupt is requested exactly if interrupts are enabled and the
status is not zero, and the status has the bit of each port with an enabled event; so such an
event requests the interrupt. -/
theorem legacyInterrupt_coherent (fuel : Nat) (pi : PciDevinst) (hMsi : pi.pciMsiMaxmsgnum = 0)
    (disks : List (Option (List (BitVec 8)))) (mem : Memory) (stack : Nat → BitVec 8)
    (acts : List Act) (hOff : ∀ a ∈ acts, MsiOff a) :
    Yields (fun _ => True)
      (fun s =>
        (s.sc.lintr = true ↔ s.sc.ghc &&& AHCI_GHC_IE ≠ 0 ∧ s.sc.is ≠ 0) ∧
        (∀ k : PortId, (k : Nat) < s.sc.ports → (s.port k).is &&& (s.port k).ie ≠ 0 → s.sc.is &&& bit k ≠ 0) ∧
        ∀ k : PortId, (k : Nat) < s.sc.ports → (s.port k).is &&& (s.port k).ie ≠ 0 →
          s.sc.ghc &&& AHCI_GHC_IE ≠ 0 → s.sc.lintr = true)
      (pciAhciInit pi disks mem stack >>= fun s => run (act fuel) s acts) := by
  refine (pciAhciInit_coherent hMsi disks mem stack).bind fun s _ hs => ?_
  have hAlong : Along (act fuel) (fun _ => MsiOff) s acts := along_of_forall s hOff
  refine (run_yields (fun t _ ht hAct => act_coherent ht fuel hAct) hs hAlong).imp fun t _ ht => ?_
  have hNoted := fun (k : PortId) (hk : (k : Nat) < t.sc.ports) => ht.noted k (mem_portIds.mpr hk)
  refine ⟨ht.requested, hNoted, fun k hk hEvent hOn => ht.requested.mpr ⟨hOn, fun hZero => ?_⟩⟩
  exact hNoted k hk hEvent (by rw [hZero]; exact BitVec.zero_and)

def enableActs : List Act :=
  [.event (.write 5 0x114 1), .event (.write 5 0x108 0x1000), .event (.write 5 0x118 0x10),
    .event (.write 5 0x04 2)]

/-- A command completes in the run, and its FIS raises the interrupt. -/
theorem legacyInterrupt_coherent_fis :
    let pi := { pciEmulInit ⟨0, 5, 0⟩ with lintrPin := 1 }
    let after := pciAhciInit pi [some []] (fun _ => 0) (fun _ => 0) >>= fun s =>
      run (act 64) s (enableActs ++ [.fis 0 .regD2h [0x34, 0x40], .event .thr])
    Yields (fun _ => True)
      (fun s =>
        (s.sc.lintr = true ↔ s.sc.ghc &&& AHCI_GHC_IE ≠ 0 ∧ s.sc.is ≠ 0) ∧
        (∀ k : PortId, (k : Nat) < s.sc.ports → (s.port k).is &&& (s.port k).ie ≠ 0 →
          s.sc.is &&& bit k ≠ 0) ∧
        ∀ k : PortId, (k : Nat) < s.sc.ports → (s.port k).is &&& (s.port k).ie ≠ 0 →
          s.sc.ghc &&& AHCI_GHC_IE ≠ 0 → s.sc.lintr = true) after ∧
      after.toOption.map (fun s => (s.sc.lintr, (s.port 0).is)) = some (true, 1) :=
  ⟨legacyInterrupt_coherent 64 _ rfl _ _ _ _ (by simp [MsiOff, enableActs]), by decide +kernel⟩

end Ahci

end DeviceModel.PciAhci

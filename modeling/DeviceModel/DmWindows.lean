import DeviceModel.DmLines
import DeviceModel.PciMmio

/-!
# The program: the windows of its devices

As long as the guest keeps windows apart, the registry agrees with the BARs in every state of the
program: interrupts, accesses to the devices and the lookup cache leave that as it is. A request to
an address that a BAR decodes then reaches that BAR and nothing else.
-/

set_option autoImplicit false

namespace DeviceModel.DmLoop

open Fallible Bytes PciEmul PciDevinst EmulPci DmRequest

variable {T : PciTree} {φ : Type}

/-- What the functions decode is registered; the functions of `U` are as `init_pci` left them, and
those of `C` agree with the registry about all of their windows. -/
structure Mapped (U C : Set Bdf) (s : Pci T) : Prop where
  inv : s.Inv
  untouched : ∀ b ∈ U, ∀ pi, s.fiDevi b = some pi → Untouched b pi s
  coherent : ∀ b ∈ C, s.Coherent b

section Pci

variable {U C : Set Bdf} {s s' : Pci T} {b : Bdf} {pi pi' : PciDevinst} {w : CfgWrite}

def Cached (s s' : Pci T) : Prop :=
  ∃ addr, s' = { s with registry := { s.registry with mem := (s.registry.mem.accessMemory addr).2 } }

theorem Cached.hint (h : Cached s s') (hInv : s.Inv) : ∃ hint,
    s' = { s with registry := { s.registry with mem := { s.registry.mem with mmioHint := hint } } } := by
  obtain ⟨addr, rfl⟩ := h
  obtain hSame | ⟨e, -, hHint⟩ := (Mem.Mmio.accessMemory_spec hInv.ok.mem addr).2
  · rw [hSame]
    exact ⟨s.registry.mem.mmioHint, rfl⟩
  · rw [hHint]
    exact ⟨some e, rfl⟩

theorem Cached.clear_iff (h : Cached s s') (hInv : s.Inv) : w.Clear s' ↔ w.Clear s := by
  obtain ⟨hint, rfl⟩ := h.hint hInv
  exact Iff.rfl

theorem Mapped.cached (hMapped : Mapped U C s) (h : Cached s s') : Mapped U C s' := by
  have hInv := hMapped.inv
  have hMem : s'.registry.mem.Inv := by
    obtain ⟨addr, rfl⟩ := h
    exact hInv.ok.mem.accessMemory addr
  obtain ⟨hint, rfl⟩ := h.hint hInv
  refine ⟨⟨⟨hMem, hInv.ok.fallback, hInv.ok.fresh, hInv.ok.noWrap, hInv.ok.pos⟩, hInv.bdf, hInv.bars,
    hInv.live⟩, fun b hb pi hPi => ?_, fun b hb pi hPi => ?_⟩
  · obtain ⟨hDevice, hOff, hOwn⟩ := hMapped.untouched b hb pi hPi
    exact ⟨hDevice, hOff, hOwn⟩
  · obtain ⟨hDecoded, hAligned, hDwords, hOnly⟩ := hMapped.coherent b hb pi hPi
    exact ⟨hDecoded, hAligned, hDwords, hOnly⟩

/-- A device that drives its line leaves its windows where they are. -/
theorem Mapped.inLine (h : Mapped U C s) (hPi : s.fiDevi b = some pi) (hLine : InLine b pi pi') :
    Mapped U C (s.setDevi pi') := by
  have hInv := h.inv
  have hCases : ∀ {b' x}, (s.setDevi pi').fiDevi b' = some x →
      b' = b ∧ x = pi' ∨ s.fiDevi b' = some x := by
    intro b' x hx
    obtain ⟨hb, rfl⟩ | ⟨-, hx⟩ := setDevi_eq_some_iff.mp hx
    · exact .inl ⟨hb.trans hLine.bdf_eq, rfl⟩
    · exact .inr hx
  have hBdf' := hLine.bdf_eq
  have hBars := hInv.bars b pi hPi
  have hLive := hInv.live b pi hPi
  obtain ⟨state, irq, rfl⟩ := hLine.same
  constructor
  · constructor
    · exact hInv.ok
    · intro b' x hx
      obtain ⟨rfl, rfl⟩ | hx := hCases hx
      · exact hBdf'
      · exact hInv.bdf b' x hx
    · intro b' x hx
      obtain ⟨rfl, rfl⟩ | hx := hCases hx
      · exact hBars
      · exact hInv.bars b' x hx
    · intro b' x hx
      obtain ⟨rfl, rfl⟩ | hx := hCases hx
      · exact hLive
      · exact hInv.live b' x hx
  · intro b' hb' x hx'
    obtain ⟨rfl, rfl⟩ | hx := hCases hx'
    · obtain ⟨-, hOff, hOwn⟩ := h.untouched b' hb' pi hPi
      exact ⟨hx', hOff, hOwn⟩
    · obtain ⟨-, hOff, hOwn⟩ := h.untouched b' hb' x hx
      exact ⟨hx', hOff, hOwn⟩
  · intro b' hb' x hx
    obtain ⟨rfl, rfl⟩ | hx := hCases hx
    · obtain ⟨hDecoded, hAligned, hDwords, hOnly⟩ := h.coherent b' hb' pi hPi
      exact ⟨hDecoded, hAligned, hDwords, hOnly⟩
    · exact h.coherent b' hb' x hx

theorem Mapped.written (h : Mapped U C s) (hSpares : w.bdf ∉ U) (hWritten : Written s w s') :
    Mapped U C s' := by
  have hInv := hWritten.inv h.inv
  refine ⟨hInv, fun b hb pi hPi => ?_, fun b hb => hInv.coherent_iff.mpr ?_⟩
  · have hNe : w.bdf ≠ b := fun hEq => hSpares (hEq ▸ hb)
    have hPi' := (hWritten.others b hNe.symm).symm.trans hPi
    exact (h.untouched b hb pi hPi').written h.inv hNe hWritten
  · exact (h.inv.coherent_iff.mp (h.coherent b hb)).written h.inv hWritten

theorem Mapped.config (h : Mapped U C s) {isRead : Bool} {bdf : Bdf} {coff bytes : Nat}
    {eax val : BitVec 32} (hClear : isRead = false → CfgWrite.Clear s ⟨bdf, coff, bytes, eax⟩)
    (hSpares : isRead = false → bdf ∉ U)
    (hCfg : s.pciCfgrw isRead bdf coff bytes eax = .ok (val, s')) : Mapped U C s' := by
  cases isRead with
  | true =>
    obtain ⟨val', hRead⟩ := pciCfgrw_read s bdf coff bytes eax
    obtain ⟨⟩ := hRead.symm.trans hCfg
    exact h
  | false =>
    have hWrite : s.write ⟨bdf, coff, bytes, eax⟩ = .ok s' := map_eq_ok_iff.mpr ⟨_, hCfg, rfl⟩
    exact h.written (hSpares rfl) ((Pci.write_spec h.inv (hClear rfl)).of_ok hWrite)

/-- The write that enables a function makes it agree with the registry. -/
theorem Mapped.enabled (h : Mapped {b} ∅ s) (hOn : w.Enables b) (hWritten : Written s w s') :
    Mapped ∅ {b} s' := by
  have hInv := hWritten.inv h.inv
  refine ⟨hInv, fun b' hb' => absurd hb' (Set.notMem_empty _), ?_⟩
  rintro b' rfl
  apply hInv.coherent_iff.mpr
  cases hPi : s.fiDevi b' with
  | none =>
    have hAbsent := hWritten.absent (hOn.1 ▸ hPi)
    rw [hAbsent]
    intro pi hPi'
    cases hPi.symm.trans hPi'
  | some pi => exact (h.untouched b' rfl pi hPi).exactAt_of_enables h.inv hOn hWritten

end Pci

section Configuration

variable {δ : Type} {ops : BarOps T δ} {m m' : Machine T δ} {req req' : EpwRequest} {memVal8 val8 : Word8}
  {w : CfgWrite}

theorem Writes.inWindow (h : Writes m req memVal8 val8 w) :
    EmulPci.dmRequest req.addr = some (.emul pciLink) := by
  cases h with
  | ecfg hWindow => exact hWindow
  | window hWindow => exact hWindow

/-- Both ways to configuration space come to a write there. -/
theorem Writes.carriedOut (h : Writes m req memVal8 val8 w)
    (hRun : emulPci ops pciLink m req memVal8 val8 = .ok (req', m')) :
    (m.access req.addr).2.pci.write w = .ok m'.pci := by
  have hOffset : req.addr - pciLink.baseEmul - EPW_WINDOW = req.offset := rfl
  unfold emulPci at hRun
  obtain ⟨-, -, hRun⟩ := bind_eq_ok_iff.mp hRun
  dsimp only at hRun
  rw [hOffset] at hRun
  obtain ⟨⟨error, req₁, t⟩, hMem, hRun⟩ := bind_eq_ok_iff.mp hRun
  dsimp only at hRun
  cases h with
  | @ecfg mr hWindow hWrite hHit hHandler =>
    have hAccess : m.access req.addr = (some mr, (m.access req.addr).2) := Prod.ext hHit rfl
    obtain rfl : error = 0 := emulMem_hit hAccess hMem
    rw [if_pos rfl] at hRun
    obtain ⟨⟩ := hRun
    unfold emulMem at hMem
    rw [if_pos hWrite] at hMem
    obtain ⟨-, -, hMem⟩ := bind_eq_ok_iff.mp hMem
    dsimp only at hMem
    rw [emulateMem_hit hAccess] at hMem
    obtain ⟨⟨error, val, t'⟩, hMap, ⟨⟩⟩ := bind_eq_ok_iff.mp hMem
    obtain ⟨⟨val, t⟩, hCb, ⟨⟩⟩ := map_eq_ok_iff.mp hMap
    unfold emulateMemCb at hCb
    rw [hHandler, hWrite] at hCb
    obtain ⟨⟨eax, pci⟩, hCfg, ⟨⟩⟩ := bind_eq_ok_iff.mp hCb
    exact map_eq_ok_iff.mpr ⟨_, hCfg, rfl⟩
  | @window val8' hWindow hWrite hMiss hCopy =>
    have hAccess : m.access req.addr = (none, (m.access req.addr).2) := Prod.ext hMiss rfl
    unfold emulMem at hMem
    rw [if_pos hWrite] at hMem
    obtain ⟨-, -, hMem⟩ := bind_eq_ok_iff.mp hMem
    dsimp only at hMem
    rw [emulateMem_miss hAccess] at hMem
    obtain ⟨⟩ := hMem
    have hMissed : ¬ Mem.ESRCH = 0 := by decide
    rw [if_neg hMissed, if_pos hWrite, hCopy, ok_bind] at hRun
    obtain ⟨⟨eax, pci⟩, hCfg, ⟨⟩⟩ := bind_eq_ok_iff.mp hRun
    exact map_eq_ok_iff.mpr ⟨_, hCfg, rfl⟩

end Configuration

section System

variable {U C : Set Bdf} {m : Machine T (Behind φ)} {fuel : Nat} {F : E82545.Fifo φ}

structure Sited (U C : Set Bdf) (m : Machine T (Behind φ)) : Prop where
  lines : Lines m
  mapped : Mapped U C m.pci

theorem onE1000_sited (h : Sited U C m) {f : E82545.E1000 φ → Except Fault (E82545.E1000 φ)}
    (hf : ∀ pi₀ s, E82545Line pi₀ s.sc.intr →
      Yields (fun _ => True) (fun s' => E82545Line pi₀ s'.sc.intr) (f s)) :
    Yields (fun _ => True) (Sited U C) (onE1000 m f) := by
  obtain ⟨pi, hPi, hLine⟩ := h.lines.e82545
  unfold onE1000
  rw [hPi]
  apply Yields.map
  apply (hf pi _ hLine).imp
  intro s _ hs
  exact ⟨putE1000_lines h.lines hs, h.mapped.inLine hPi hs.inst⟩

theorem onAhci_sited (h : Sited U C m) {f : PciAhci.Ahci → Except Fault PciAhci.Ahci}
    (hf : ∀ pi₀ s, AhciLine pi₀ s.sc → Yields (fun _ => True) (fun s' => AhciLine pi₀ s'.sc) (f s)) :
    Yields (fun _ => True) (Sited U C) (onAhci m f) := by
  obtain ⟨pi, hPi, hLine⟩ := h.lines.ahci
  unfold onAhci
  rw [hPi]
  apply Yields.map
  apply (hf pi _ hLine).imp
  intro s _ hs
  exact ⟨putAhci_lines h.lines hs, h.mapped.inLine hPi hs.inst⟩

theorem peBarwrite_sited (h : Sited U C m) (bdf : Bdf) (bidx : Nat) (offset : BitVec 64) (size : Nat)
    (val : BitVec 64) : Yields (fun _ => True) (Sited U C)
      ((barOps T φ fuel).peBarwrite bdf m bidx offset size val) := by
  apply Yields.ite
  · apply onE1000_sited h
    intro pi₀ s hs
    exact Yields.map (e82545Write_e82545Line hs bidx offset size val)
  · apply Yields.ite
    · apply onAhci_sited h
      intro pi₀ s hs
      exact pciAhciWrite_ahciLine hs fuel bidx offset.toNat val
    · trivial

theorem peBarread_sited (h : Sited U C m) (bdf : Bdf) (bidx : Nat) (offset : BitVec 64) (size : Nat) :
    Yields (fun _ => True) (fun r => Sited U C r.2)
      ((barOps T φ fuel).peBarread bdf m bidx offset size) := by
  obtain ⟨pi, hPi, hE82545⟩ := h.lines.e82545
  obtain ⟨pi', hPi', hAhci⟩ := h.lines.ahci
  unfold barOps
  dsimp only
  rw [hPi, hPi']
  apply Yields.ite
  · apply Yields.map
    apply (e82545Read_e82545Line hE82545 bidx offset size).imp
    intro r _ hr
    exact ⟨putE1000_lines h.lines (s := { e1000At m pi with sc := r.2 }) hr, h.mapped.inLine hPi hr.inst⟩
  · apply Yields.ite
    · apply Yields.map
      apply (pciAhciRead_ahciLine hAhci bidx offset.toNat size).imp
      intro r _ hr
      exact ⟨putAhci_lines h.lines hr, h.mapped.inLine hPi' hr.inst⟩
    · trivial

def Event.Configures (s : Devices T (Behind φ)) (w : CfgWrite) : Event → Prop
  | .request r => Writes s.machine r.req.toEpwRequest r.memVal8 r.val8 w
  | _ => False

/-- What the event writes to configuration space keeps clear of other windows. -/
def Event.Clear (s : Devices T (Behind φ)) (e : Event) : Prop :=
  ∀ w, e.Configures s w → w.Clear s.machine.pci

def Event.Spares (U : Set Bdf) (s : Devices T (Behind φ)) (e : Event) : Prop :=
  ∀ w, e.Configures s w → w.bdf ∉ U

variable {s : Devices T (Behind φ)}

theorem request_sited (h : Sited U C s.machine) {r : Request} (hClear : (Event.request r).Clear s)
    (hSpares : (Event.request r).Spares U s) :
    Yields (fun _ => True) (fun s' => Sited U C s'.machine) (step fuel F s (.request r)) := by
  cases hStep : step fuel F s (.request r) with
  | error e => trivial
  | ok s' =>
    show Sited U C s'.machine
    obtain hSame | hReaches := step_request_reaches hStep
    · rw [hSame]
      exact h
    have hCached : Cached s.machine.pci (s.machine.access r.req.addr).2.pci := ⟨_, rfl⟩
    have hStart : Sited U C (s.machine.access r.req.addr).2 :=
      ⟨⟨h.lines.settled, h.lines.e82545, h.lines.ahci⟩, h.mapped.cached hCached⟩
    generalize s'.machine = m' at hReaches
    cases hReaches with
    | config hCfg hWrite =>
      refine ⟨config_lines hStart.lines hCfg, hStart.mapped.config (fun hNot => ?_) (fun hNot => ?_) hCfg⟩
      · exact (hCached.clear_iff h.mapped.inv).mpr (hClear _ (hWrite hNot))
      · exact hSpares _ (hWrite hNot)
    | bar hBar =>
      exact (barAccess_keeps (P := Sited U C)
        (fun bidx offset size hm => peBarread_sited hm _ bidx offset size)
        (fun bidx offset size val hm => peBarwrite_sited hm _ bidx offset size val)
        hStart _ _ _ _ _).of_ok hBar

theorem step_sited (h : Sited U C s.machine) {e : Event} (hClear : e.Clear s) (hSpares : e.Spares U s) :
    Yields (fun _ => True) (fun s' => Sited U C s'.machine) (step fuel F s e) := by
  cases e with
  | request r => exact request_sited h hClear hSpares
  | e1000Poll packets =>
    exact Yields.map (onE1000_sited h fun _ _ hs => e1000Poll_e82545Line hs packets)
  | blockifThr => exact Yields.map (onAhci_sited h fun _ _ hs => blockifThr_ahciLine hs fuel)
  | callout =>
    exact Yields.map (onE1000_sited h fun _ _ hs => Yields.map (runCallout_e82545Line hs))
  | fifoWork packets =>
    exact Yields.map (onE1000_sited h fun _ _ hs => e82545TapCallback_e82545Line hs packets)
  | store mem => exact ⟨⟨h.lines.settled, h.lines.e82545, h.lines.ahci⟩, h.mapped⟩

variable {disks : List (Option (List (BitVec 8)))} {mem : Memory} {stack : Nat → BitVec 8} {fifo : φ}
  {events : List Event} {s₀ : Devices T (Behind φ)}

theorem dmInit_sited (hInit : dmInit T disks mem stack fifo = .ok s₀) :
    Sited Set.univ ∅ s₀.machine := by
  refine ⟨dmInit_lines hInit, ?_⟩
  obtain ⟨pci, hPci, hInit⟩ := bind_eq_ok_iff.mp hInit
  obtain ⟨pci', hPci', hSetUp⟩ := initPci_setUp (T := T) planOk_bhyvePciBuses
  obtain rfl := Except.ok.inj (hPci'.symm.trans hPci)
  have hSettled := (quiet_of_initPci hPci).linesSettled
  have hMapped : Mapped Set.univ ∅ pci' :=
    ⟨hSetUp.inv, fun _ _ _ hPi => hSetUp.untouched hPi, fun _ hb => absurd hb (Set.notMem_empty _)⟩
  dsimp only at hInit
  split at hInit
  · next pi pi' hPi hPi' =>
    obtain ⟨sc, hSc, hInit⟩ := bind_eq_ok_iff.mp hInit
    obtain ⟨ahci, hAhci, ⟨⟩⟩ := bind_eq_ok_iff.mp hInit
    have hLine := (e82545Init_e82545Line (hSettled _ _ hPi).1 (hSettled _ _ hPi).2).of_ok hSc
    have hLine' := (pciAhciInit_ahciLine (hSettled _ _ hPi').1 (hSettled _ _ hPi').2 disks mem
      stack).of_ok hAhci
    have hOther : (pci'.setDevi sc.intr.escPi).fiDevi ahciBdf = some pi' := by
      apply setDevi_other _ _ hPi'
      rw [hLine.inst.bdf_eq]
      exact e82545Bdf_ne
    exact (hMapped.inLine hPi hLine.inst).inLine hOther hLine'.inst
  · cases hInit

theorem Sited.mono (h : Sited U C m) {U' C' : Set Bdf} (hU : U' ⊆ U) (hC : C' ⊆ C) : Sited U' C' m :=
  ⟨h.lines, h.mapped.inv, fun b hb => h.mapped.untouched b (hU hb), fun b hb => h.mapped.coherent b (hC hb)⟩

theorem run_sited (h : Sited U C s₀.machine)
    (hClear : Along (step fuel F) (fun s e => e.Clear s) s₀ events)
    (hSpares : Along (step fuel F) (fun s e => e.Spares U s) s₀ events)
    (hRun : run (step fuel F) s₀ events = .ok s) : Sited U C s.machine :=
  (run_yields (fun _ _ hs h => step_sited hs h.1 h.2) h (hClear.and hSpares)).of_ok hRun

theorem step_configures {e : Event} {w : CfgWrite} {s' : Devices T (Behind φ)} (h : e.Configures s w)
    (hStep : step fuel F s e = .ok s') :
    ∃ pci, Cached s.machine.pci pci ∧ pci.write w = .ok s'.machine.pci := by
  cases e with
  | request r =>
    have hWrites : Writes s.machine r.req.toEpwRequest r.memVal8 r.val8 w := h
    refine ⟨(s.machine.access r.req.addr).2.pci, ⟨_, rfl⟩, ?_⟩
    obtain ⟨⟨res, req', access, t⟩, hRequest, rfl⟩ := map_eq_ok_iff.mp hStep
    unfold DmRequest.dmRequest at hRequest
    rw [hWrites.inWindow] at hRequest
    dsimp only at hRequest
    rw [emulRequest_pci] at hRequest
    obtain ⟨⟨answer, u⟩, hMap, ⟨⟩⟩ := bind_eq_ok_iff.mp hRequest
    obtain ⟨⟨answer', m'⟩, hPci, ⟨⟩⟩ := map_eq_ok_iff.mp hMap
    exact hWrites.carriedOut hPci
  | e1000Poll packets => exact h.elim
  | blockifThr => exact h.elim
  | callout => exact h.elim
  | fifoWork packets => exact h.elim
  | store mem => exact h.elim

theorem step_enables {b : Bdf} (h : Sited {b} ∅ s.machine) {e : Event} {w : CfgWrite}
    {s' : Devices T (Behind φ)} (hWrites : e.Configures s w) (hOn : w.Enables b) (hClear : e.Clear s)
    (hStep : step fuel F s e = .ok s') : Sited ∅ {b} s'.machine := by
  obtain ⟨pci, hCached, hWrite⟩ := step_configures hWrites hStep
  have hMapped := h.mapped.cached hCached
  have hClear' := (hCached.clear_iff h.mapped.inv).mpr (hClear w hWrites)
  have hSpares : e.Spares ∅ s := fun _ _ => Set.notMem_empty _
  have hNext := (step_sited (h.mono (Set.empty_subset _) (Set.empty_subset _)) hClear hSpares).of_ok hStep
  exact ⟨hNext.lines, hMapped.enabled hOn ((Pci.write_spec hMapped.inv hClear').of_ok hWrite)⟩

/-- The first write of all is clear: the windows are registered already. -/
theorem Sited.clear_first (h : Sited Set.univ C m) (w : CfgWrite) : w.Clear m.pci := by
  intro pi hPi
  exact (h.mapped.untouched w.bdf trivial pi hPi).clear h.mapped.inv pi hPi

section Enable

def enableMemory : List Event := pass (some (configRequest 0xfdb18004 2)) 1

theorem enableMemory_runs : ∃ s₀ s, started = .ok s₀ ∧
    run (step 8 E82545.idleFifo) s₀ enableMemory = .ok s := by
  obtain ⟨s, hRun⟩ := fault?_eq_none_iff.mp
    (show fault? (enabled enableMemory) = none by decide +kernel)
  obtain ⟨s₀, hInit, hRun⟩ := bind_eq_ok_iff.mp hRun
  exact ⟨s₀, s, hInit, hRun⟩

theorem enableMemory_configures {s₀ : Devices unbalancedTree (Behind Unit)} (hInit : started = .ok s₀) :
    ∃ w, (Event.request (configRequest 0xfdb18004 2)).Configures s₀ w ∧ w.Enables ahciBdf := by
  have hMiss : (started.toOption.all fun s => (s.machine.access 0xfdb18004).1.isNone) = true := by
    decide +kernel
  rw [hInit] at hMiss
  have hNone : (s₀.machine.access 0xfdb18004).1 = none := Option.isNone_iff_eq_none.mp hMiss
  have hPci : EmulPci.dmRequest 0xfdb18004 = some (.emul pciLink) := dmRequest_pci_iff.mpr (by decide)
  have hEnables : CfgWrite.Enables ahciBdf ⟨(cfgTarget 0x8004).1, (cfgTarget 0x8004).2, 2,
      EpwRequest.cfgVal (configRequest 0xfdb18004 2).req.toEpwRequest fun _ => 0⟩ := by decide +kernel
  obtain ⟨val8', hCopy⟩ := (@bcopy_ok_iff _ _ _ _ Fault.bufferIndex (configRequest 0xfdb18004 2).req.data
    0 (fun _ : Fin 8 => 0) 2 2 (by decide)).mpr (by decide)
  rw [← bcopy_cfgVal (.inr (.inl rfl)) hCopy] at hEnables
  exact ⟨_, .window hPci rfl hNone hCopy, hEnables⟩

theorem enableMemory_clear {s₀ : Devices unbalancedTree (Behind Unit)} (hInit : started = .ok s₀) :
    Along (step 8 E82545.idleFifo) (fun s e => e.Clear s) s₀ enableMemory :=
  ⟨fun w _ => (dmInit_sited hInit).clear_first w, fun _ _ => ⟨fun _ h => h.elim,
    fun _ _ => ⟨fun _ h => h.elim, fun _ _ => trivial⟩⟩⟩

theorem enableMemory_decodes {s : Devices unbalancedTree (Behind Unit)} (hRun : enabled enableMemory = .ok s) :
    ∃ pi, Decodes s.machine.pci ahciBdf pi 5 0xfdb50004 4 := by
  have hBar : ((enabled enableMemory).toOption.bind fun s => (s.machine.pci.fiDevi ahciBdf).map fun pi =>
      (pi.memen, (pi.piBar 5).type, (pi.piBar 5).addr, (pi.piBar 5).size)) =
      some (true, .mem32, 0xfdb50000, 0x400) := by decide +kernel
  rw [hRun] at hBar
  obtain ⟨pi, hPi, hBar⟩ := Option.map_eq_some_iff.mp hBar
  injection hBar with hOn hBar
  injection hBar with hType hBar
  injection hBar with hAddr hSize
  refine ⟨pi, hPi, .inl hOn, ⟨Nat.le_refl 5, .inl hType⟩, ?_, ?_⟩
  · rw [hAddr]
    decide
  · rw [hAddr, hSize]
    decide

end Enable

/-- A guest that begins the configuration of a function by setting `COMMAND.MEMEN` finds instance,
configuration space and registry in agreement about its BARs ever after, whatever else goes on. -/
theorem program_coherent {b : Bdf} {before after : List Event} {e : Event} {w : CfgWrite}
    {t : Devices T (Behind φ)} (hInit : dmInit T disks mem stack fifo = .ok s₀)
    (hBefore : run (step fuel F) s₀ before = .ok t)
    (hOthers : Along (step fuel F) (fun s e => e.Spares {b} s) s₀ before)
    (hFirst : e.Configures t w) (hOn : w.Enables b)
    (hAfter : run (step fuel F) t (e :: after) = .ok s)
    (hClear : Along (step fuel F) (fun s e => e.Clear s) s₀ (before ++ e :: after)) :
    s.machine.pci.Coherent b := by
  obtain ⟨hClearBefore, hClear⟩ := hClear.append
  obtain ⟨hClearFirst, hClear⟩ := hClear t hBefore
  obtain ⟨t', hStep, hAfter⟩ := run_cons_eq_ok_iff.mp hAfter
  have hStart := (dmInit_sited hInit).mono (Set.subset_univ {b}) (Set.empty_subset ∅)
  have hNext := run_sited hStart hClearBefore hOthers hBefore
  have hEnabled := step_enables hNext hFirst hOn hClearFirst hStep
  have hSpares : Along (step fuel F) (fun s e => e.Spares ∅ s) t' after :=
    Along.imp (fun _ _ _ _ _ => Set.notMem_empty _) (hClear t' hStep)
  exact (run_sited hEnabled (hClear t' hStep) hSpares hAfter).mapped.coherent b rfl

theorem program_coherent_enable : ∃ s : Devices unbalancedTree (Behind Unit),
    enabled enableMemory = .ok s ∧ s.machine.pci.Coherent ahciBdf := by
  obtain ⟨s₀, s, hInit, hRun⟩ := enableMemory_runs
  obtain ⟨w, hFirst, hOn⟩ := enableMemory_configures hInit
  refine ⟨s, bind_eq_ok_iff.mpr ⟨s₀, hInit, hRun⟩, ?_⟩
  have hBefore : run (step 8 E82545.idleFifo) s₀ [] = .ok s₀ := rfl
  exact program_coherent hInit hBefore trivial hFirst hOn hRun (enableMemory_clear hInit)

/-- Whatever the guest has the program do as long as it keeps windows apart, a request to an address
that a BAR decodes is an access to that BAR, with the bytes of the request in their order. -/
theorem program_reachesBar {r : Request} {b : Bdf} {pi : PciDevinst} {idx : Nat}
    (hInit : dmInit T disks mem stack fifo = .ok s₀) (hRun : run (step fuel F) s₀ events = .ok s)
    (hClear : Along (step fuel F) (fun s e => e.Clear s) s₀ events)
    (hWindow : 0xfdb10000 ≤ r.req.addr.toNat ∧ r.req.addr.toNat < 0xfdb60000)
    (hWf : r.req.WellFormed) (hShort : r.req.isWrite = true → r.req.dataLen ≤ 4)
    (h : Decodes s.machine.pci b pi idx r.req.addr r.req.dataLen) :
    ∃ m val, SameButCache s.machine m ∧
      (r.req.isWrite = true → LittleEndian r.req.dataLen (dataByte r.req.toEpwRequest) val) ∧
      Relays r.req.toEpwRequest (barAccess (barOps T φ fuel) m b idx r.req.isWrite
          (r.req.addr - (pi.piBar idx).addr) r.req.dataLen val)
        (fun data m' => (0, { r.req with data }, none, { s with machine := m' }))
        (DmRequest.dmRequest (r.surroundings T φ fuel) s r.req) := by
  have hSpares : Along (step fuel F) (fun s e => e.Spares ∅ s) s₀ events :=
    Along.imp (fun _ _ _ _ _ => Set.notMem_empty _) hClear
  have hSited := run_sited ((dmInit_sited hInit).mono (Set.empty_subset _) subset_rfl) hClear hSpares hRun
  refine ⟨(s.machine.access r.req.addr).2, carried r.req.toEpwRequest r.memVal8,
    access_sameButCache _ _, fun hWrite => carried_littleEndian hWf hShort hWrite _, ?_⟩
  exact dmRequest_relays (r.surroundings T φ fuel) hSited.mapped.inv hWindow hWf hShort h

theorem program_reachesBar_enable : ∃ (s : Devices unbalancedTree (Behind Unit)) (pi : PciDevinst),
    enabled enableMemory = .ok s ∧ ∃ m val, SameButCache s.machine m ∧
      ((storeRequest 0xfdb50004 2).req.isWrite = true → LittleEndian (storeRequest 0xfdb50004 2).req.dataLen
        (dataByte (storeRequest 0xfdb50004 2).req.toEpwRequest) val) ∧
      Relays (storeRequest 0xfdb50004 2).req.toEpwRequest
        (barAccess (barOps unbalancedTree Unit 8) m ahciBdf 5 (storeRequest 0xfdb50004 2).req.isWrite
          ((storeRequest 0xfdb50004 2).req.addr - (pi.piBar 5).addr)
          (storeRequest 0xfdb50004 2).req.dataLen val)
        (fun data m' => (0, { (storeRequest 0xfdb50004 2).req with data }, none, { s with machine := m' }))
        (DmRequest.dmRequest ((storeRequest 0xfdb50004 2).surroundings unbalancedTree Unit 8) s
          (storeRequest 0xfdb50004 2).req) := by
  obtain ⟨s₀, s, hInit, hRun⟩ := enableMemory_runs
  have hEnabled : enabled enableMemory = .ok s := bind_eq_ok_iff.mpr ⟨s₀, hInit, hRun⟩
  obtain ⟨pi, hDecodes⟩ := enableMemory_decodes hEnabled
  have hWf : (storeRequest 0xfdb50004 2).req.WellFormed := ⟨.inr (.inr (.inl rfl)), rfl, by decide⟩
  exact ⟨s, pi, hEnabled, program_reachesBar hInit hRun (enableMemory_clear hInit) (by decide) hWf
    (fun _ => Nat.le_refl 4) hDecodes⟩

end System

end DeviceModel.DmLoop

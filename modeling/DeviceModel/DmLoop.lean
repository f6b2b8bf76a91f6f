import DeviceModel.DmRequest
import DeviceModel.E82545Interrupt
import DeviceModel.PciAhciWindow
import DeviceModel.PciLintr

/-!
# The program

`dm_init` and `dm_loop` of `src/device-model.c`, built to emulate PCI: requests of the guest reach
the e1000 and the AHCI controller through the PCI model, and each pass of the loop polls the one
and serves the disk of the other. A device works on the instance of its function that the PCI
model holds, and both work on the memory of the guest. Passes are taken apart, so that stores of
the guest, the ITR callout and the thread that the FIFO wakes come anywhere between their parts.
-/

set_option autoImplicit false

namespace DeviceModel.DmLoop

open Fallible Bytes PciEmul EmulPci DmRequest EmulIommu

variable {T : PciTree} {δ φ : Type}

def e82545Bdf : Bdf := ⟨0, 0, 0⟩

def ahciBdf : Bdf := ⟨0, 1, 0⟩

structure Behind (φ : Type) where
  e82545 : E82545.Softc
  ahci : PciAhci.Ahci
  mem : Memory
  fifo : φ

section Devices

variable (m : Machine T (Behind φ))

def e1000At (pi : PciDevinst) : E82545.E1000 φ :=
  ⟨{ m.dev.e82545 with intr.escPi := pi }, m.dev.mem, m.dev.fifo⟩

def ahciAt (pi : PciDevinst) : PciAhci.Ahci :=
  { m.dev.ahci with sc.ascPi := pi, mem := m.dev.mem }

def putE1000 (s : E82545.E1000 φ) : Machine T (Behind φ) :=
  ⟨m.pci.setDevi s.sc.intr.escPi, { m.dev with e82545 := s.sc, mem := s.mem, fifo := s.fifo }⟩

def putAhci (s : PciAhci.Ahci) : Machine T (Behind φ) :=
  ⟨m.pci.setDevi s.sc.ascPi, { m.dev with ahci := s, mem := s.mem }⟩

def onE1000 (f : E82545.E1000 φ → Except Fault (E82545.E1000 φ)) :
    Except Fault (Machine T (Behind φ)) :=
  match m.pci.fiDevi e82545Bdf with
  | none => .error .memHandlerDevice
  | some pi => (f (e1000At m pi)).map (putE1000 m)

def onAhci (f : PciAhci.Ahci → Except Fault PciAhci.Ahci) : Except Fault (Machine T (Behind φ)) :=
  match m.pci.fiDevi ahciBdf with
  | none => .error .memHandlerDevice
  | some pi => (f (ahciAt m pi)).map (putAhci m)

end Devices

/-- `pe_barread` and `pe_barwrite` of the two devices. -/
def barOps (T : PciTree) (φ : Type) (fuel : Nat) : BarOps T (Behind φ) where
  peBarread bdf m bidx offset size :=
    if bdf = e82545Bdf then
      match m.pci.fiDevi e82545Bdf with
      | none => .error .memHandlerDevice
      | some pi => ((e1000At m pi).sc.e82545Read bidx offset size).map fun r =>
          (r.1, putE1000 m { e1000At m pi with sc := r.2 })
    else if bdf = ahciBdf then
      match m.pci.fiDevi ahciBdf with
      | none => .error .memHandlerDevice
      | some pi => ((ahciAt m pi).pciAhciRead bidx offset.toNat size).map fun r => (r.1, putAhci m r.2)
    else .error .memHandlerDevice
  peBarwrite bdf m bidx offset size val :=
    if bdf = e82545Bdf then
      onE1000 m fun s => (s.sc.e82545Write bidx offset size val).map ({ s with sc := · })
    else if bdf = ahciBdf then onAhci m fun s => s.pciAhciWrite fuel bidx offset.toNat val
    else .error .memHandlerDevice

structure Request where
  req : EpwBurst
  regs : Cpuregs
  load : BitVec 64 → Nat → BitVec 64
  val : BitVec 64
  memVal8 : Word8
  val8 : Word8

def Request.surroundings (r : Request) (T : PciTree) (φ : Type) (fuel : Nat) :
    Surroundings T (Behind φ) :=
  ⟨barOps T φ fuel, r.regs, r.load, r.val, r.memVal8, r.val8⟩

inductive Event where
  | request (r : Request)
  | e1000Poll (packets : Nat)
  | blockifThr
  | callout
  | fifoWork (packets : Nat)
  /-- the guest writes to memory -/
  | store (mem : Memory)

/-- One pass of `dm_loop`. -/
def pass (r : Option Request) (packets : Nat) : List Event :=
  (r.map Event.request).toList ++ [.e1000Poll packets, .blockifThr]

variable (T) in
/-- The state in which `dm_loop` is entered. Nothing has asked for an interrupt by then. -/
def dmInit (disks : List (Option (List (BitVec 8)))) (mem : Memory) (stack : Nat → BitVec 8)
    (fifo : φ) : Except Fault (Devices T (Behind φ)) := do
  let pci ← bhyvePciInit T
  match pci.fiDevi e82545Bdf, pci.fiDevi ahciBdf with
  | some pi, some pi' => do
    let sc ← E82545.Softc.e82545Init pi
    let ahci ← PciAhci.pciAhciInit pi' disks mem stack
    let pci := (pci.setDevi sc.intr.escPi).setDevi ahci.sc.ascPi
    pure ⟨idleUnit 0, idleUnit 1, ⟨0, []⟩, ⟨pci, ⟨sc, ahci, ahci.mem, fifo⟩⟩⟩
  | _, _ => .error .memHandlerDevice

def step (fuel : Nat) (F : E82545.Fifo φ) (s : Devices T (Behind φ)) :
    Event → Except Fault (Devices T (Behind φ))
  | .request r => (DmRequest.dmRequest (r.surroundings T φ fuel) s r.req).map (·.2.2.2)
  | .e1000Poll packets =>
    (onE1000 s.machine (E82545.e1000Poll F packets)).map ({ s with machine := · })
  | .blockifThr => (onAhci s.machine (·.blockifThr fuel)).map ({ s with machine := · })
  | .callout => (onE1000 s.machine fun e =>
      e.sc.intr.runCallout.map ({ e with sc.intr := · })).map ({ s with machine := · })
  | .fifoWork packets =>
    (onE1000 s.machine (E82545.e82545TapCallback F packets)).map ({ s with machine := · })
  | .store mem => .ok { s with machine.dev.mem := mem }

section Reaches

variable {ops : BarOps T δ} {m m' : Machine T δ}

/-- The write to configuration space that a request makes, through the ECFG window if a range is
registered at its address and by the offset into the window of the bus if none is. -/
inductive Writes (m : Machine T δ) (req : EpwRequest) (memVal8 val8 : Word8) : CfgWrite → Prop
  | ecfg {mr : PciRange} (hWindow : EmulPci.dmRequest req.addr = some (.emul pciLink))
      (hWrite : req.isWrite = true) (hHit : (m.access req.addr).1 = some mr)
      (hHandler : mr.handler = .pciEmulEcfgHandler) :
      Writes m req memVal8 val8 ⟨(cfgTarget req.addr).1, (cfgTarget req.addr).2, req.flitSize,
        (req.writeVal (wordAt memVal8)).extractLsb' 32 32⟩
  | window {val8' : Word8} (hWindow : EmulPci.dmRequest req.addr = some (.emul pciLink))
      (hWrite : req.isWrite = true) (hMiss : (m.access req.addr).1 = none)
      (hCopy : bcopy Fault.bufferIndex req.data 0 val8 (4 - req.dataLen) req.dataLen = .ok val8') :
      Writes m req memVal8 val8 ⟨(cfgTarget req.offset).1, (cfgTarget req.offset).2, req.dataLen,
        eaxOf val8'⟩

/-- How a request gets through the PCI model: by one access to configuration space or to a BAR. -/
inductive Reaches (ops : BarOps T δ) (W : CfgWrite → Prop) (m : Machine T δ) : Machine T δ → Prop
  | config {isRead : Bool} {bdf : Bdf} {coff bytes : Nat} {eax val : BitVec 32} {pci : Pci T}
      (h : m.pci.pciCfgrw isRead bdf coff bytes eax = .ok (val, pci))
      (hWrite : isRead = false → W ⟨bdf, coff, bytes, eax⟩) : Reaches ops W m { m with pci }
  | bar {bdf : Bdf} {bidx : Nat} {isWrite : Bool} {offset : BitVec 64} {size : Nat}
      {val val' : BitVec 64} {m' : Machine T δ}
      (h : barAccess ops m bdf bidx isWrite offset size val = .ok (val', m')) : Reaches ops W m m'

def Machine.setRegistry (m : Machine T δ) (registry : Registry T) : Machine T δ :=
  { m with pci.registry := registry }

variable {W : CfgWrite → Prop}

theorem emulateMemCb_reaches {mr : PciRange} {isWrite : Bool} {paddr val val' : BitVec 64}
    {size : Nat} (hW : mr.handler = .pciEmulEcfgHandler → isWrite = true →
      W ⟨(cfgTarget paddr).1, (cfgTarget paddr).2, size, val.extractLsb' 32 32⟩)
    (h : emulateMemCb ops m mr isWrite paddr size val = .ok (val', m')) : Reaches ops W m m' := by
  unfold emulateMemCb at h
  split at h
  · cases h
  · unfold pciEmulMemHandler at h
    split at h
    · cases h
    · obtain ⟨-, -, h⟩ := bind_eq_ok_iff.mp h
      obtain ⟨-, -, h⟩ := bind_eq_ok_iff.mp h
      obtain ⟨-, -, h⟩ := bind_eq_ok_iff.mp h
      exact .bar h
  · next hHandler =>
    obtain ⟨⟨eax, pci⟩, hCfg, ⟨⟩⟩ := bind_eq_ok_iff.mp h
    apply Reaches.config hCfg
    intro hNot
    cases isWrite with
    | true => exact hW hHandler rfl
    | false => cases hNot

/-- The error tells whether a range was found; if none was, nothing has been reached. -/
theorem emulateMem_reaches {paddr val val' : BitVec 64} {isWrite : Bool} {width error : Nat}
    (hW : ∀ mr, (m.access paddr).1 = some mr → mr.handler = .pciEmulEcfgHandler → isWrite = true →
      W ⟨(cfgTarget paddr).1, (cfgTarget paddr).2, width, val.extractLsb' 32 32⟩)
    (h : emulateMem ops m paddr isWrite width val = .ok (error, val', m')) :
    (error = 0 → Reaches ops W (m.access paddr).2 m') ∧
      (error ≠ 0 → (m.access paddr).1 = none ∧ m' = (m.access paddr).2) := by
  unfold emulateMem at h
  cases hEntry : m.access paddr with
  | mk entry t =>
    rw [hEntry] at h hW
    cases entry with
    | none =>
      obtain ⟨⟩ := h
      exact ⟨fun hError => absurd hError (by decide), fun _ => ⟨rfl, rfl⟩⟩
    | some mr =>
      dsimp only at h
      obtain ⟨⟨val'', t'⟩, hCb, ⟨⟩⟩ := map_eq_ok_iff.mp h
      exact ⟨fun _ => emulateMemCb_reaches (hW mr rfl) hCb, fun hError => absurd rfl hError⟩

theorem emulMem_reaches {req req' : EpwRequest} {offset : BitVec 64} {val8 : Word8} {error : Nat}
    (hW : ∀ mr, (m.access req.addr).1 = some mr → mr.handler = .pciEmulEcfgHandler →
      req.isWrite = true → W ⟨(cfgTarget req.addr).1, (cfgTarget req.addr).2, req.flitSize,
        (req.writeVal (wordAt val8)).extractLsb' 32 32⟩)
    (h : emulMem ops m req offset val8 = .ok (error, req', m')) :
    (error = 0 → Reaches ops W (m.access req.addr).2 m') ∧
      (error ≠ 0 → req' = req ∧ (m.access req.addr).1 = none ∧ m' = (m.access req.addr).2) := by
  unfold emulMem at h
  split at h
  · obtain ⟨-, -, h⟩ := bind_eq_ok_iff.mp h
    obtain ⟨⟨error', val, t⟩, hMem, ⟨⟩⟩ := bind_eq_ok_iff.mp h
    obtain ⟨hFound, hMissed⟩ := emulateMem_reaches hW hMem
    exact ⟨hFound, fun hError => ⟨rfl, hMissed hError⟩⟩
  · next hRead =>
    obtain ⟨⟨error', val, t⟩, hMem, h⟩ := bind_eq_ok_iff.mp h
    obtain ⟨hFound, hMissed⟩ := emulateMem_reaches
      (fun _ _ _ hWrite => absurd hWrite hRead) hMem (W := W)
    dsimp only at h
    split at h
    · next hError =>
      obtain ⟨data, -, ⟨⟩⟩ := bind_eq_ok_iff.mp h
      exact ⟨hFound, fun hNot => absurd hError hNot⟩
    · obtain ⟨⟩ := h
      exact ⟨hFound, fun hError => ⟨rfl, hMissed hError⟩⟩

theorem emulPci_reaches {req req' : EpwRequest} {memVal8 val8 : Word8}
    (hWindow : EmulPci.dmRequest req.addr = some (.emul pciLink))
    (h : emulPci ops pciLink m req memVal8 val8 = .ok (req', m')) :
    Reaches ops (Writes m req memVal8 val8) (m.access req.addr).2 m' := by
  unfold emulPci at h
  obtain ⟨-, -, h⟩ := bind_eq_ok_iff.mp h
  obtain ⟨⟨error, req₁, t⟩, hMem, h⟩ := bind_eq_ok_iff.mp h
  obtain ⟨hFound, hMissed⟩ := emulMem_reaches (W := Writes m req memVal8 val8)
    (fun mr hHit hHandler hWrite => .ecfg hWindow hWrite hHit hHandler) hMem
  dsimp only at h
  split at h
  · next hError =>
    obtain ⟨⟩ := h
    exact hFound hError
  · next hError =>
    obtain ⟨rfl, hMiss, rfl⟩ := hMissed hError
    split at h
    · next hWrite =>
      obtain ⟨val8', hCopy, h⟩ := bind_eq_ok_iff.mp h
      obtain ⟨⟨eax, pci⟩, hCfg, ⟨⟩⟩ := bind_eq_ok_iff.mp h
      exact .config hCfg fun _ => .window hWindow hWrite hMiss hCopy
    · obtain ⟨⟨eax, pci⟩, hCfg, h⟩ := bind_eq_ok_iff.mp h
      obtain ⟨-, -, ⟨⟩⟩ := bind_eq_ok_iff.mp h
      exact .config hCfg fun hNot => Bool.noConfusion hNot

theorem dmRequest_reaches {env : Surroundings T δ} {s s' : Devices T δ} {req req' : EpwBurst}
    {res : Int} {access : Option BusAccess}
    (h : DmRequest.dmRequest env s req = .ok (res, req', access, s')) :
    s'.machine = s.machine ∨
      Reaches env.ops (Writes s.machine req.toEpwRequest env.memVal8 env.val8)
        (s.machine.access req.addr).2 s'.machine := by
  unfold DmRequest.dmRequest at h
  split at h
  · obtain ⟨⟩ := h
    exact .inl rfl
  · next elink hRequest =>
    obtain ⟨⟨answer, t⟩, hEmul, ⟨⟩⟩ := bind_eq_ok_iff.mp h
    unfold emulRequest at hEmul
    split at hEmul
    · split at hEmul
      · obtain ⟨⟩ := hEmul
        exact .inl rfl
      · obtain ⟨⟩ := hEmul
        exact .inl rfl
    · next hPci =>
      obtain ⟨⟨answer', machine⟩, hPciRuns, ⟨⟩⟩ := bind_eq_ok_iff.mp hEmul
      obtain ⟨rfl, -⟩ := dmRequest_pciLink hRequest hPci
      exact .inr (emulPci_reaches hRequest hPciRuns)
    · obtain ⟨⟩ := hEmul
      exact .inl rfl
  · obtain ⟨⟩ := h
    exact .inl rfl

variable {P : Machine T δ → Prop}

theorem barAccess_keeps {bdf : Bdf}
    (hRead : ∀ {m : Machine T δ} bidx offset size, P m →
      Yields (fun _ => True) (fun r => P r.2) (ops.peBarread bdf m bidx offset size))
    (hWrite : ∀ {m : Machine T δ} bidx offset size val, P m →
      Yields (fun _ => True) P (ops.peBarwrite bdf m bidx offset size val))
    (hm : P m) (bidx : Nat) (isWrite : Bool) (offset : BitVec 64) (size : Nat)
    (val : BitVec 64) : Yields (fun _ => True) (fun r => P r.2)
      (barAccess ops m bdf bidx isWrite offset size val) := by
  unfold barAccess
  split
  · split
    · apply (hWrite bidx offset 4 _ hm).bind
      intro t _ ht
      exact (hWrite bidx (offset + 4) 4 _ ht).bind fun _ _ hu => hu
    · exact (hWrite bidx offset size val hm).bind fun _ _ ht => ht
  · split
    · apply (hRead bidx offset 4 hm).bind
      intro r _ hr
      exact (hRead bidx (offset + 4) 4 hr).bind fun _ _ hu => hu
    · exact hRead bidx offset size hm

structure Kept (ops : BarOps T δ) (P : Machine T δ → Prop) : Prop where
  registry : ∀ m registry, P m → P (Machine.setRegistry m registry)
  config : ∀ {m : Machine T δ} {isRead bdf coff bytes eax val pci}, P m →
    m.pci.pciCfgrw isRead bdf coff bytes eax = .ok (val, pci) → P { m with pci }
  read : ∀ {m : Machine T δ} bdf bidx offset size, P m →
    Yields (fun _ => True) (fun r => P r.2) (ops.peBarread bdf m bidx offset size)
  write : ∀ {m : Machine T δ} bdf bidx offset size val, P m →
    Yields (fun _ => True) P (ops.peBarwrite bdf m bidx offset size val)

theorem Kept.request {env : Surroundings T δ} (h : Kept env.ops P) {s : Devices T δ} (hs : P s.machine)
    (req : EpwBurst) :
    Yields (fun _ => True) (fun r => P r.2.2.2.machine) (DmRequest.dmRequest env s req) := by
  cases hRequest : DmRequest.dmRequest env s req with
  | error e => trivial
  | ok r =>
    obtain ⟨res, req', access, s'⟩ := r
    show P s'.machine
    obtain hSame | hReaches := dmRequest_reaches hRequest
    · rw [hSame]
      exact hs
    have hStart : P (s.machine.access req.addr).2 := h.registry s.machine _ hs
    generalize s'.machine = m' at hReaches
    cases hReaches with
    | config hCfg => exact h.config hStart hCfg
    | bar hBar => exact (barAccess_keeps (h.read _) (h.write _) hStart _ _ _ _ _).of_ok hBar

end Reaches

theorem step_request_reaches {fuel : Nat} {F : E82545.Fifo φ} {s s' : Devices T (Behind φ)} {r : Request}
    (h : step fuel F s (.request r) = .ok s') :
    s'.machine = s.machine ∨
      Reaches (barOps T φ fuel) (Writes s.machine r.req.toEpwRequest r.memVal8 r.val8)
        (s.machine.access r.req.addr).2 s'.machine := by
  obtain ⟨⟨res, req', access, t⟩, hRequest, rfl⟩ := map_eq_ok_iff.mp h
  exact dmRequest_reaches hRequest

end DeviceModel.DmLoop

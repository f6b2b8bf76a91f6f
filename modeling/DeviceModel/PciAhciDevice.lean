import DeviceModel.PciAhciCommand

/-!
# The AHCI controller: registers and the device

Writes of the guest to the registers of a port and of the controller, resets, and the device
as `pci_ahci_init` leaves it. `ahci_port_stop` goes on from an element that it has taken out
of the list through the link that is left in it, so that it visits the list as it was.
-/

set_option autoImplicit false

namespace DeviceModel.PciAhci

open Fallible BlockIf PciEmul

def AHCI_OFFSET : Nat := 0x100
def AHCI_STEP : Nat := 0x80

def cmdWritable : BitVec 32 :=
  AHCI_P_CMD_ST ||| AHCI_P_CMD_SUD ||| AHCI_P_CMD_POD ||| AHCI_P_CMD_CLO ||| AHCI_P_CMD_FRE |||
    AHCI_P_CMD_APSTE ||| AHCI_P_CMD_ATAPI ||| AHCI_P_CMD_DLAE ||| AHCI_P_CMD_ALPE |||
    AHCI_P_CMD_ASP ||| AHCI_P_CMD_ICC_MASK

namespace Port

variable (s : Port)

/-- Cancel one request, if the block interface can. -/
def stopIoreq (aior : IoreqId) : Except Fault Port := do
  let (error, s) ← s.onDisk fun d => d.blockifCancel aior
  if error ≠ 0 then .ok s
  else
    let io := s.p.ioreq aior
    let cmd := s.cfisByte io.cfis 2
    let s := if cmd ∈ rwCmdsQueued ∨ cmd = ATA_SEND_FPDMA_QUEUED
      then { s with p.sact := s.p.sact &&& ~~~bit io.slot }
      else { s with p.ci := s.p.ci &&& ~~~bit io.slot }
    .ok ({ s with
      p.pending := s.p.pending &&& ~~~bit io.slot
      p.iobhd := s.p.iobhd.erase aior
      p.iofhd := s.p.iofhd ++ [aior] }.log (.cancel io.slot))

def stopIoreqs : List IoreqId → Port → Except Fault Port
  | [], s => .ok s
  | aior :: aiors, s => s.stopIoreq aior >>= stopIoreqs aiors

def ahciPortStop : Except Fault Port := do
  assertThat (s.p.attached = true) .nullSc
  let s := { s with sc.mtx := s.sc.mtx.assertOwned }
  let s ← stopIoreqs s.p.iobhd s
  .ok s.ahciCheckStopped

/-- What a write to `PxCMD` does after the list is started or stopped. -/
def cmdBits (value : BitVec 32) : Port :=
  let s := if value &&& AHCI_P_CMD_FRE ≠ 0 then
      { s with
        p.cmd := s.p.cmd ||| AHCI_P_CMD_FR
        p.rfis := some (paddrGuest2host (s.p.fbu ++ s.p.fb)) }
    else { s with p.cmd := s.p.cmd &&& ~~~AHCI_P_CMD_FR }
  let s := if value &&& AHCI_P_CMD_CLO ≠ 0 then
      { s with
        p.tfd := s.p.tfd &&& ~~~(ATA_S_BUSY ||| ATA_S_DRQ)
        p.cmd := s.p.cmd &&& ~~~AHCI_P_CMD_CLO }
    else s
  if value &&& AHCI_P_CMD_ICC_MASK ≠ 0 then
    { s with p.cmd := s.p.cmd &&& ~~~AHCI_P_CMD_ICC_MASK }
  else s

def cmdWrite (fuel : Nat) (value : BitVec 32) : Except Fault Port := do
  let s := { s with p.cmd := s.p.cmd &&& ~~~cmdWritable ||| cmdWritable &&& value }
  let s ← (if value &&& AHCI_P_CMD_ST = 0 then s.ahciPortStop
    else .ok { s with
      p.cmd := s.p.cmd ||| AHCI_P_CMD_CR
      p.cmdLst := paddrGuest2host (s.p.clbu ++ s.p.clb) })
  (s.cmdBits value).ahciHandlePort fuel

def pciAhciPortWrite (fuel offset : Nat) (value : BitVec 32) : Except Fault Port :=
  match offset with
  | 0x00 => .ok { s with p.clb := value }
  | 0x04 => .ok { s with p.clbu := value }
  | 0x08 => .ok { s with p.fb := value }
  | 0x0c => .ok { s with p.fbu := value }
  | 0x10 => { s with p.is := s.p.is &&& ~~~value }.ahciPortIntr
  | 0x14 => { s with p.ie := value &&& 0xFDC000FF }.ahciPortIntr
  | 0x18 => s.cmdWrite fuel value
  | 0x2c =>
    let s := { s with p.sctl := value }
    if s.p.cmd &&& AHCI_P_CMD_ST = 0 ∧ value &&& ATA_SC_DET_RESET ≠ 0 then s.ahciPortReset
    else .ok s
  | 0x30 => .ok { s with p.serr := s.p.serr &&& ~~~value }
  | 0x34 => .ok { s with p.sact := s.p.sact ||| value }
  | 0x38 => { s with p.ci := s.p.ci ||| value }.ahciHandlePort fuel
  | _ => .ok s

/-- What a reset of the controller does to a port. -/
def hbaReset : Except Fault Port :=
  let cmd := AHCI_P_CMD_SUD ||| AHCI_P_CMD_POD ||| (if s.p.attached then AHCI_P_CMD_CPS else 0)
  { s with p.ie := 0, p.is := 0, p.cmd := cmd, p.sctl := 0 }.ahciPortReset

end Port

/-- The device. `blockifSc` is the port whose disk `blockif_thr` serves. -/
structure Ahci where
  sc : Softc
  mem : Memory
  port : PortId → AhciPort
  blockifSc : Option PortId

namespace Ahci

variable (s : Ahci)

def onPort (k : PortId) (f : Port → Except Fault Port) : Except Fault Ahci := do
  let t ← f ⟨s.port k, s.sc, s.mem⟩
  .ok { s with sc := t.sc, mem := t.mem, port := Function.update s.port k t.p }

def portIds : List PortId := (List.finRange 32).filter (· < s.sc.ports)

def ahciGenerateIntr : Except Fault Ahci :=
  let is := s.portIds.foldl
    (fun is i => if (s.port i).is &&& (s.port i).ie ≠ 0 then is ||| bit i else is) s.sc.is
  let s := { s with sc.is := is }
  if s.sc.is = 0 ∨ s.sc.ghc &&& AHCI_GHC_IE = 0 then
    if s.sc.lintr then do
      let pi ← s.sc.ascPi.pciLintrDeassert
      .ok { s with sc.ascPi := pi, sc.lintr := false }
    else .ok s
  else if s.sc.ascPi.pciMsiMaxmsgnum = 0 then
    if s.sc.lintr then .ok s
    else do
      let pi ← s.sc.ascPi.pciLintrAssert
      .ok { s with sc.ascPi := pi, sc.lintr := true }
  else .ok s

def resetPorts : List PortId → Ahci → Except Fault Ahci
  | [], s => .ok s
  | k :: ks, s => s.onPort k Port.hbaReset >>= resetPorts ks

def ahciReset : Except Fault Ahci := do
  let s := { s with sc.ghc := AHCI_GHC_AE, sc.is := 0 }
  let s ← (if s.sc.lintr then do
      let pi ← s.sc.ascPi.pciLintrDeassert
      .ok { s with sc.ascPi := pi, sc.lintr := false }
    else .ok s)
  resetPorts s.portIds s

def pciAhciHostWrite (offset : Nat) (value : BitVec 32) : Except Fault Ahci :=
  match offset with
  | 0x04 =>
    if value &&& AHCI_GHC_HR ≠ 0 then s.ahciReset
    else
      let ghc := if value &&& AHCI_GHC_IE ≠ 0 then s.sc.ghc ||| AHCI_GHC_IE
        else s.sc.ghc &&& ~~~AHCI_GHC_IE
      { s with sc.ghc := ghc }.ahciGenerateIntr
  | 0x08 => { s with sc.is := s.sc.is &&& ~~~value }.ahciGenerateIntr
  | _ => .ok s

def pciAhciWrite (fuel baridx offset : Nat) (value : BitVec 64) : Except Fault Ahci := do
  assertThat (baridx = 5 ∧ offset % 4 = 0) .ahciAccess
  let s := { s with sc.mtx := s.sc.mtx.pthreadMutexLock }
  let s ← (if offset < AHCI_OFFSET then s.pciAhciHostWrite offset (value.setWidth 32)
    else if offset < AHCI_OFFSET + s.sc.ports * AHCI_STEP then
      s.onPort (Fin.ofNat 32 ((offset - AHCI_OFFSET) / AHCI_STEP)) fun t =>
        t.pciAhciPortWrite fuel ((offset - AHCI_OFFSET) % AHCI_STEP) (value.setWidth 32)
    else .ok s)
  .ok { s with sc.mtx := s.sc.mtx.pthreadMutexUnlock }

def blockifThr (fuel : Nat) : Except Fault Ahci :=
  match s.blockifSc with
  | none => .ok s
  | some k => s.onPort k ((Port.client fuel).blockifThr fuel)

end Ahci

section Init

/-- A port of the structure that `calloc` returns. -/
def callocPort (port : PortId) : AhciPort where
  attached := false
  bctx := blockifOpen
  cmdLst := 0
  rfis := none
  ident := []
  port := port
  reset := false
  waitforclear := false
  multSectors := 0
  xfermode := 0
  errCfis := List.replicate 20 0
  ccs := 0
  pending := 0
  clb := 0
  clbu := 0
  fb := 0
  fbu := 0
  is := 0
  ie := 0
  cmd := 0
  tfd := 0
  sig := 0
  ssts := 0
  sctl := 0
  serr := 0
  sact := 0
  ci := 0
  ioReq := fun _ => ⟨0, 0, []⟩
  ioreq := fun _ => ⟨0, 0, 0, 0, false⟩
  iofhd := []
  iobhd := []
  trace := []

/-- A port with a disk, whose requests are on the free list. -/
def diskPort (port : PortId) (ident : List (BitVec 8)) : AhciPort :=
  { callocPort port with
    attached := true
    ident := ident
    iofhd := List.finRange (BLOCKIF_MAXREQ - 1) }

/-- The device with the disks of an option string, of which some may be left empty. A disk is
given by the identifier that is derived from its name. -/
def pciAhciInit (pi : PciDevinst) (disks : List (Option (List (BitVec 8)))) (mem : Memory)
    (stack : Nat → BitVec 8) : Except Fault Ahci :=
  let port := fun k : PortId =>
    match disks.getD k none with
    | some ident => diskPort k ident
    | none => callocPort k
  let last := (List.finRange 32).reverse.find? fun k : PortId => (disks.getD k none).isSome
  Ahci.ahciReset
    ⟨⟨pi, PthreadMutex.pthreadMutexInit, max (min disks.length 32) DEF_PORTS, 0, 0, false, stack⟩, mem, port,
      last⟩

end Init

inductive Event where
  /-- the guest writes to a register -/
  | write (baridx offset : Nat) (value : BitVec 64)
  /-- `ahci_reset` -/
  | reset
  /-- `blockif_thr` serves the disk -/
  | thr
  /-- the guest writes to memory, and the rest of the program works on the device instance -/
  | other (mem : Memory) (pi : PciDevinst)

def Ahci.step (fuel : Nat) (s : Ahci) : Event → Except Fault Ahci
  | .write baridx offset value => s.pciAhciWrite fuel baridx offset value
  | .reset => s.ahciReset
  | .thr => s.blockifThr fuel
  | .other mem pi => .ok { s with mem := mem, sc.ascPi := pi }

end DeviceModel.PciAhci

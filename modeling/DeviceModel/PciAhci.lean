import DeviceModel.BlockIf
import DeviceModel.PciDevinst

/-!
# The AHCI controller: ports, interrupts and FISes

`bhyve/pci_ahci.c` with disks attached to its ports. A function on a port works on the port
and on what the ports share, which are the registers of the controller and memory. `len` and
`done` of a request stay below 2 ^ 26, so they are natural numbers; slots are elements of
`Fin 32`, since `ccs` is reduced to five bits. A port without a disk has no `pr_sc`, so that what
goes through it stops. `pci_generate_msi` does nothing in this port of the code. Packet devices
have a module of their own.

`trace` records what a port does, and nothing reads it.
-/

set_option autoImplicit false

namespace DeviceModel

def PciEmul.PciDevinst.pciMsiMaxmsgnum (pi : PciEmul.PciDevinst) : Nat :=
  if pi.piMsi.enabled then pi.piMsi.maxmsgnum else 0

namespace PciAhci

open Fallible BlockIf PciEmul

def DEF_PORTS : Nat := 6
def AHCI_CL_SIZE : Nat := 32
def PxSIG_ATA : BitVec 32 := 0x00000101
def AHCI_GHC_AE : BitVec 32 := 0x80000000
def AHCI_GHC_IE : BitVec 32 := 0x00000002
def AHCI_GHC_HR : BitVec 32 := 0x00000001
def AHCI_P_IX_DHR : BitVec 32 := 0x00000001
def AHCI_P_IX_PS : BitVec 32 := 0x00000002
def AHCI_P_IX_SDB : BitVec 32 := 0x00000008
def AHCI_P_IX_TFE : BitVec 32 := 0x40000000
def AHCI_P_CMD_ST : BitVec 32 := 0x00000001
def AHCI_P_CMD_SUD : BitVec 32 := 0x00000002
def AHCI_P_CMD_POD : BitVec 32 := 0x00000004
def AHCI_P_CMD_CLO : BitVec 32 := 0x00000008
def AHCI_P_CMD_FRE : BitVec 32 := 0x00000010
def AHCI_P_CMD_CCS_MASK : BitVec 32 := 0x00001f00
def AHCI_P_CMD_CCS_SHIFT : Nat := 8
def AHCI_P_CMD_FR : BitVec 32 := 0x00004000
def AHCI_P_CMD_CR : BitVec 32 := 0x00008000
def AHCI_P_CMD_CPS : BitVec 32 := 0x00010000
def AHCI_P_CMD_APSTE : BitVec 32 := 0x00800000
def AHCI_P_CMD_ATAPI : BitVec 32 := 0x01000000
def AHCI_P_CMD_DLAE : BitVec 32 := 0x02000000
def AHCI_P_CMD_ALPE : BitVec 32 := 0x04000000
def AHCI_P_CMD_ASP : BitVec 32 := 0x08000000
def AHCI_P_CMD_ICC_MASK : BitVec 32 := 0xf0000000
def ATA_E_ABORT : BitVec 32 := 0x04
def ATA_ERROR_ABORT : BitVec 32 := 0x04
def ATA_S_ERROR : BitVec 32 := 0x01
def ATA_S_DRQ : BitVec 32 := 0x08
def ATA_S_DSC : BitVec 32 := 0x10
def ATA_S_DMA : BitVec 32 := 0x20
def ATA_S_READY : BitVec 32 := 0x40
def ATA_S_BUSY : BitVec 32 := 0x80
def ATA_SS_DET_NO_DEVICE : BitVec 32 := 0x00000000
def ATA_SS_DET_PHY_ONLINE : BitVec 32 := 0x00000003
def ATA_SS_SPD_MASK : BitVec 32 := 0x000000f0
def ATA_SS_SPD_GEN3 : BitVec 32 := 0x00000030
def ATA_SS_IPM_ACTIVE : BitVec 32 := 0x00000100
def ATA_SC_DET_RESET : BitVec 32 := 0x00000001
def ATA_SC_SPD_MASK : BitVec 32 := 0x000000f0
def ATA_UDMA6 : BitVec 8 := 0x46

/-- There are `MAX_PORTS` ports. -/
abbrev PortId := Fin 32

/-- A port has `AHCI_MAX_SLOTS` command slots. -/
abbrev Slot := Fin 32

/-- The requests of a port, as many as `blockif_queuesz` says. -/
abbrev IoreqId := Fin (BLOCKIF_MAXREQ - 1)

def bit (n : Nat) : BitVec 32 := 1 <<< n

inductive SataFisType where
  | regH2d
  | regD2h
  | dmaAct
  | dmaSetup
  | data
  | bist
  | pioSetup
  | setDevBits
deriving DecidableEq

def FIS_TYPE_REGH2D : BitVec 8 := 0x27
def FIS_TYPE_REGD2H : BitVec 8 := 0x34
def FIS_TYPE_PIOSETUP : BitVec 8 := 0x5F
def FIS_TYPE_SETDEVBITS : BitVec 8 := 0xA1

/-- `struct ahci_ioreq`, but for `io_req`, which is kept with the port. -/
structure AhciIoreq where
  cfis : BitVec 64
  len : Nat
  done : Nat
  slot : Slot
  more : Bool
deriving DecidableEq

/-- The registers that tell the guest which commands are outstanding. -/
structure Outstanding where
  ci : BitVec 32
  sact : BitVec 32
deriving DecidableEq

inductive PortEvent where
  /-- a command is issued, whether it has to make a request, and whether it is to be accepted -/
  | issue (slot : Slot) (block queued : Bool)
  /-- a request for a command goes to the block interface -/
  | request (slot : Slot)
  /-- a request comes back, and whether it is the last of its command -/
  | served (slot : Slot) (last : Bool)
  /-- nothing but empty entries is left of the range list of a command -/
  | empty (slot : Slot)
  /-- a queued command is accepted, with the registers before and after -/
  | accept (slot : Slot) (before after : Outstanding)
  /-- a command ends, with the registers before and after -/
  | answer (slot : Slot) (queued error : Bool) (before after : Outstanding)
  /-- a FIS is delivered -/
  | fis (ft : SataFisType) (fis : List (BitVec 8))
  /-- a command is taken back -/
  | cancel (slot : Slot)
  /-- the command list is no longer processed and nothing is in flight, by these registers -/
  | stopped (cmd pending : BitVec 32)
deriving DecidableEq

structure AhciPort where
  attached : Bool
  bctx : BlockifCtxt IoreqId
  cmdLst : BitVec 64
  rfis : Option (BitVec 64)
  ident : List (BitVec 8)
  port : PortId
  reset : Bool
  waitforclear : Bool
  multSectors : Nat
  xfermode : BitVec 8
  errCfis : List (BitVec 8)
  ccs : Slot
  pending : BitVec 32
  clb : BitVec 32
  clbu : BitVec 32
  fb : BitVec 32
  fbu : BitVec 32
  is : BitVec 32
  ie : BitVec 32
  cmd : BitVec 32
  tfd : BitVec 32
  sig : BitVec 32
  ssts : BitVec 32
  sctl : BitVec 32
  serr : BitVec 32
  sact : BitVec 32
  ci : BitVec 32
  ioReq : IoreqId → BlockifReq
  ioreq : IoreqId → AhciIoreq
  iofhd : List IoreqId
  iobhd : List IoreqId
  trace : List PortEvent

/-- The registers of the controller that are not constant. `stack` is what a buffer on the stack
holds before it is filled. -/
structure Softc where
  ascPi : PciDevinst
  mtx : PthreadMutex
  ports : Nat
  ghc : BitVec 32
  is : BitVec 32
  lintr : Bool
  stack : Nat → BitVec 8

/-- A port and what it shares with the others. -/
structure Port where
  p : AhciPort
  sc : Softc
  mem : Memory

namespace Port

variable (s : Port)

def log (e : PortEvent) : Port := { s with p.trace := s.p.trace ++ [e] }

def outstanding : Outstanding := ⟨s.p.ci, s.p.sact⟩

/-- `pci_lintr_assert`, with the flag that it is requested. -/
def assertLintr : Except Fault Port := do
  let pi ← s.sc.ascPi.pciLintrAssert
  .ok { s with sc.ascPi := pi, sc.lintr := true }

def raiseIntr : Except Fault Port :=
  if s.p.is &&& s.p.ie = 0 then .ok s
  else
    let nmsg := s.sc.ascPi.pciMsiMaxmsgnum
    let raised := { s with sc.is := s.sc.is ||| bit s.p.port }
    if s.sc.ports ≤ nmsg ∨ (s.p.port : Int) < nmsg - 1 then .ok raised
    else if s.sc.is &&& bit s.p.port ≠ 0 then .ok s
    else if s.sc.ghc &&& AHCI_GHC_IE = 0 then .ok raised
    else if 0 < nmsg then .ok raised
    else if s.sc.lintr then .ok raised
    else raised.assertLintr

def ahciPortIntr : Except Fault Port := do
  assertThat (s.p.attached = true) .nullSc
  s.raiseIntr

/-- Where a FIS lies in the receive area, its length and its interrupt. -/
def fisLayout : SataFisType → Option (Nat × Nat × BitVec 32)
  | .regD2h => some (0x40, 20, AHCI_P_IX_DHR)
  | .setDevBits => some (0x58, 8, AHCI_P_IX_SDB)
  | .pioSetup => some (0x20, 20, AHCI_P_IX_PS)
  | .regH2d | .dmaAct | .dmaSetup | .data | .bist => none

def fisError (fis : List (BitVec 8)) : Bool := (fis.getD 2 0).setWidth 32 &&& ATA_S_ERROR ≠ 0

def fisIrq (ix : BitVec 32) (fis : List (BitVec 8)) : BitVec 32 :=
  (if fis.getD 1 0 &&& 0x40 ≠ 0 then ix else 0) ||| (if fisError fis then AHCI_P_IX_TFE else 0)

def storeFis (ft : SataFisType) (dst : BitVec 64) (fis : List (BitVec 8)) : Port :=
  { s with
    p.waitforclear := s.p.waitforclear || fisError fis
    mem := s.mem.storeBytes dst fis }.log (.fis ft fis)

def ahciWriteFis (ft : SataFisType) (fis : List (BitVec 8)) : Except Fault Port :=
  match s.p.rfis, fisLayout ft with
  | some rfis, some (offset, len, ix) =>
    if s.p.cmd &&& AHCI_P_CMD_FRE = 0 then .ok s
    else
      let irq := fisIrq ix fis
      let s := s.storeFis ft (rfis + BitVec.ofNat 64 offset) (fis.take len)
      if ~~~s.p.is &&& irq = 0 then .ok s
      else { s with p.is := s.p.is ||| irq }.ahciPortIntr
  | _, _ => .ok s

def ahciWriteFisPiosetup : Except Fault Port :=
  s.ahciWriteFis .pioSetup (FIS_TYPE_PIOSETUP :: List.replicate 19 0)

def cfisByte (cfis : BitVec 64) (i : Nat) : BitVec 8 := s.mem (cfis + BitVec.ofNat 64 i)

def ahciWriteFisSdb (slot : Slot) (cfis : BitVec 64) (tfd : BitVec 32) : Except Fault Port :=
  let error := (tfd >>> 8).setWidth 8
  let tfd := tfd &&& 0x77
  let failed := tfd &&& ATA_S_ERROR ≠ 0
  let done := if failed then 0 else bit slot
  let fis := [FIS_TYPE_SETDEVBITS, 0x40, tfd.setWidth 8, error, done.extractLsb' 24 8,
    done.extractLsb' 16 8, done.extractLsb' 8 8, done.extractLsb' 0 8]
  let errCfis := BitVec.ofNat 8 slot :: 0 :: tfd.setWidth 8 :: error :: s.mem.bytes (cfis + 4) 16
  let p := if failed then { s.p with errCfis := errCfis }
    else { s.p with sact := s.p.sact &&& ~~~bit slot }
  let p := { p with tfd := p.tfd &&& ~~~0x77 ||| tfd }
  let answer := .answer slot true failed s.outstanding ⟨p.ci, p.sact⟩
  ({ s with p := p }.log answer).ahciWriteFis .setDevBits fis

def ahciWriteFisD2h (slot : Slot) (cfis : BitVec 64) (tfd : BitVec 32) : Except Fault Port :=
  let error := (tfd >>> 8).setWidth 8
  let failed := tfd &&& ATA_S_ERROR ≠ 0
  let fis := FIS_TYPE_REGD2H :: 0x40 :: tfd.setWidth 8 :: error :: s.mem.bytes (cfis + 4) 10 ++
    List.replicate 6 0
  let errCfis := 0x80 :: 0 :: tfd.setWidth 8 :: error :: s.mem.bytes (cfis + 4) 16
  let p := if failed then { s.p with errCfis := errCfis }
    else { s.p with ci := s.p.ci &&& ~~~bit slot }
  let p := { p with tfd := tfd }
  let answer := .answer slot false failed s.outstanding ⟨p.ci, p.sact⟩
  ({ s with p := p }.log answer).ahciWriteFis .regD2h fis

def ahciWriteFisD2hNcq (slot : Slot) : Except Fault Port :=
  let p := { s.p with tfd := ATA_S_READY ||| ATA_S_DSC, ci := s.p.ci &&& ~~~bit slot }
  let accept := .accept slot s.outstanding ⟨p.ci, p.sact⟩
  ({ s with p := p }.log accept).ahciWriteFis .regD2h
    (FIS_TYPE_REGD2H :: 0 :: p.tfd.setWidth 8 :: List.replicate 17 0)

def ahciWriteResetFisD2h : Except Fault Port :=
  s.ahciWriteFis .regD2h
    ([FIS_TYPE_REGD2H, 0, 0, 1, 1] ++ List.replicate 7 0 ++ [1] ++ List.replicate 7 0)

def ahciCheckStopped : Port :=
  if s.p.cmd &&& AHCI_P_CMD_ST = 0 ∧ s.p.pending = 0 then
    { s with
      p.ccs := 0
      p.cmd := s.p.cmd &&& ~~~(AHCI_P_CMD_CR ||| AHCI_P_CMD_CCS_MASK)
      p.ci := 0
      p.sact := 0
      p.waitforclear := false }.log (.stopped s.p.cmd s.p.pending)
  else s

def ahciPortReset : Except Fault Port :=
  let s := { s with p.serr := 0, p.sact := 0, p.xfermode := ATA_UDMA6, p.multSectors := 128 }
  if ¬ s.p.attached then
    .ok { s with p.ssts := ATA_SS_DET_NO_DEVICE, p.sig := 0xFFFFFFFF, p.tfd := 0x7F }
  else
    let speed := if s.p.sctl &&& ATA_SC_SPD_MASK ≠ 0 then s.p.sctl &&& ATA_SC_SPD_MASK
      else ATA_SS_SPD_GEN3
    ahciWriteResetFisD2h { s with
      p.ssts := ATA_SS_DET_PHY_ONLINE ||| ATA_SS_IPM_ACTIVE ||| speed
      p.tfd := bit 8 ||| ATA_S_DSC ||| ATA_S_DMA ||| ATA_S_READY
      p.sig := PxSIG_ATA }

/-- A function of the block interface on the disk of the port, which must have one. -/
def onDisk {α : Type} (f : Disk IoreqId → Except Fault (α × Disk IoreqId)) :
    Except Fault (α × Port) := do
  assertThat (s.p.attached = true) .nullBctx
  let (a, d) ← f ⟨s.p.bctx, s.p.ioReq, s.mem⟩
  .ok (a, { s with p.bctx := d.bc, p.ioReq := d.req, mem := d.mem })

theorem onDisk_eq {s : Port} {α : Type} {f : Disk IoreqId → Except Fault (α × Disk IoreqId)} {a : α}
    {d : Disk IoreqId} (hAttached : s.p.attached = true)
    (hOk : f ⟨s.p.bctx, s.p.ioReq, s.mem⟩ = .ok (a, d)) :
    s.onDisk f = .ok (a, { s with p.bctx := d.bc, p.ioReq := d.req, mem := d.mem }) := by
  unfold onDisk
  rw [assertThat_of _ hAttached, ok_bind, hOk]
  rfl

end Port

end PciAhci

end DeviceModel

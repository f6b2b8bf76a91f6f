import DeviceModel.PciAhciDevice

/-!
# The AHCI controller: packet devices

What `bhyve/pci_ahci.c` does on a port with a packet device: the packet commands, the callback of
their requests, and the functions that lead to them. The counters of `ahci_build_iov` have 32 bits
here, as the length of a packet read may need them all. `reads` records the transfer length
that each call of `atapi_read` finds, and nothing reads it.
-/

set_option autoImplicit false

namespace DeviceModel.PciAhci

open Fallible BlockIf

def PxSIG_ATAPI : BitVec 32 := 0xeb140101
def ATA_I_CMD : BitVec 8 := 0x01
def ATA_I_IN : BitVec 8 := 0x02
def ATA_SENSE_ILLEGAL_REQUEST : BitVec 8 := 0x05
def TEST_UNIT_READY : BitVec 8 := 0x00
def REQUEST_SENSE : BitVec 8 := 0x03
def INQUIRY : BitVec 8 := 0x12
def START_STOP_UNIT : BitVec 8 := 0x1b
def PREVENT_ALLOW : BitVec 8 := 0x1e
def READ_CAPACITY : BitVec 8 := 0x25
def READ_10 : BitVec 8 := 0x28
def READ_TOC : BitVec 8 := 0x43
def GET_EVENT_STATUS_NOTIFICATION : BitVec 8 := 0x4a
def MODE_SENSE_10 : BitVec 8 := 0x5a
def REPORT_LUNS : BitVec 8 := 0xa0
def READ_12 : BitVec 8 := 0xa8
def MODEPAGE_RW_ERROR_RECOVERY : BitVec 8 := 0x01
def MODEPAGE_CD_CAPABILITIES : BitVec 8 := 0x2a

def be16enc (u : BitVec 16) : List (BitVec 8) := [u.extractLsb' 8 8, u.extractLsb' 0 8]

def be32enc (u : BitVec 32) : List (BitVec 8) :=
  be16enc (u.extractLsb' 16 16) ++ be16enc (u.extractLsb' 0 16)

def lbaToMsf (lba : BitVec 32) : List (BitVec 8) :=
  let lba := (lba + 150).toInt
  [BitVec.ofInt 8 ((lba.tdiv 75).tdiv 60), BitVec.ofInt 8 ((lba.tdiv 75).tmod 60),
    BitVec.ofInt 8 (lba.tmod 75)]

def atapiString (src : List (BitVec 8)) (len : Nat) : List (BitVec 8) :=
  (List.range len).map fun i => src.getD i 0x20

structure AtapiPort extends Port where
  senseKey : BitVec 8
  asc : BitVec 8
  reads : List (BitVec 32)

namespace AtapiPort

variable (s : AtapiPort)

/-- What a port does no matter which device it has. -/
def onPort (f : Port → Except Fault Port) : Except Fault AtapiPort := do
  let t ← f s.toPort
  .ok { s with toPort := t }

def logEvent (e : PortEvent) : AtapiPort := { s with toPort := s.toPort.log e }

/-- `cfis[0x40 + i]` -/
def acmd (cfis : BitVec 64) (i : Nat) : BitVec 8 := s.cfisByte cfis (0x40 + i)

section Answers

/-- `cfis[4] = (cfis[4] & ~7) | ATA_I_CMD | ATA_I_IN` -/
def setReason (cfis : BitVec 64) : AtapiPort :=
  { s with mem := s.mem.store8 (cfis + 4) (s.cfisByte cfis 4 &&& ~~~7 ||| ATA_I_CMD ||| ATA_I_IN) }

def answer (slot : Slot) (cfis : BitVec 64) (tfd : BitVec 32) : Except Fault AtapiPort :=
  s.onPort fun t => t.ahciWriteFisD2h slot cfis tfd

/-- The sense of a command that fails. -/
def illegal (asc : BitVec 8) : AtapiPort := { s with senseKey := ATA_SENSE_ILLEGAL_REQUEST, asc := asc }

def tfdSense : BitVec 32 := s.senseKey.setWidth 32 <<< 12 ||| ATA_S_READY ||| ATA_S_ERROR

def writePrdt (slot : Slot) (cfis : BitVec 64) (buf : List (BitVec 8)) : AtapiPort :=
  { s with toPort := s.toPort.writePrdt slot cfis buf }

def succeed (slot : Slot) (cfis : BitVec 64) : Except Fault AtapiPort :=
  (s.setReason cfis).answer slot cfis tfdDone

def fail (slot : Slot) (cfis : BitVec 64) (asc : BitVec 8) : Except Fault AtapiPort :=
  let s := (s.illegal asc).setReason cfis
  s.answer slot cfis s.tfdSense

/-- The data is written after the reason is set, or before. -/
def reasonThenData (slot : Slot) (cfis : BitVec 64) (buf : List (BitVec 8)) : Except Fault AtapiPort :=
  ((s.setReason cfis).writePrdt slot cfis buf).answer slot cfis tfdDone

def dataThenReason (slot : Slot) (cfis : BitVec 64) (buf : List (BitVec 8)) : Except Fault AtapiPort :=
  (s.writePrdt slot cfis buf).succeed slot cfis

end Answers

section Commands

variable (slot : Slot) (cfis : BitVec 64)

def identifyWord (w : Nat) : BitVec 16 :=
  let xfer := fun base : BitVec 8 =>
    if s.p.xfermode &&& base ≠ 0 then 1 <<< ((s.p.xfermode &&& 7).toNat + 8) else 0
  match w with
  | 0 => 2 <<< 14 ||| 5 <<< 8 ||| 1 <<< 7 ||| 2 <<< 5
  | 49 => 1 <<< 9 ||| 1 <<< 8
  | 50 => 1 <<< 14 ||| 1
  | 53 => 1 <<< 2 ||| 1 <<< 1
  | 62 => 0x3f
  | 63 => 7 ||| xfer ATA_WDMA0
  | 64 => 3
  | 65 | 66 | 67 | 68 => 120
  | 76 => 0x0002 ||| 0x0004 ||| 0x0008
  | 77 => ((s.p.ssts &&& ATA_SS_SPD_MASK) >>> 3).setWidth 16
  | 78 => 1 <<< 5
  | 80 => 0x3f0
  | 82 | 85 => 0x0008 ||| 0x0010 ||| 0x0200 ||| 0x4000
  | 83 | 84 | 87 => 1 <<< 14
  | 88 => 0x7f ||| xfer ATA_UDMA0
  | 222 => 0x1020
  | 255 => 0x00a5
  | _ => 0

/-- The words of a packet device are stored as they are, without `bswap16`. -/
def identifyData : List (BitVec 8) :=
  let words := fun first n => (List.range n).flatMap fun i => be16enc (s.identifyWord (first + i))
  Port.ahciChecksum (words 0 10 ++ Port.ataString s.p.ident 10 ++ words 20 3 ++
    Port.ataString (Port.asciiBytes "001") 4 ++
    Port.ataString (Port.asciiBytes "BHYVE SATA DVD ROM") 20 ++ words 47 209)

def handleAtapiIdentify : Except Fault AtapiPort :=
  s.onPort fun t => t.dataIn slot cfis true s.identifyData

def atapiInquiry : Except Fault AtapiPort :=
  let acmd := s.acmd cfis
  let len := (acmd 4).toNat
  if acmd 1 &&& 1 ≠ 0 then
    if acmd 2 = 0 then s.reasonThenData slot cfis ([0x05, 0, 0, 1, 0].take len)
    else s.fail slot cfis 0x24
  else
    s.reasonThenData slot cfis (([0x05, 0x80, 0x00, 0x21, 31, 0, 0, 0] ++
      atapiString (Port.asciiBytes "BHYVE") 8 ++ atapiString (Port.asciiBytes "BHYVE DVD-ROM") 16 ++
      atapiString (Port.asciiBytes "001") 4).take len)

def atapiReadCapacity : Except Fault AtapiPort :=
  let sectors := s.p.bctx.bcSize.toNat / 2048
  s.reasonThenData slot cfis (be32enc (BitVec.ofNat 32 sectors - 1) ++ be32enc 2048)

def tocAddress (msf : Bool) (lba : BitVec 32) : List (BitVec 8) :=
  if msf then 0 :: lbaToMsf lba else be32enc lba

/-- `size - 2` and the bytes after it. -/
def tocData (body : List (BitVec 8)) : List (BitVec 8) := be16enc (BitVec.ofNat 16 body.length) ++ body

def atapiReadToc : Except Fault AtapiPort :=
  let acmd := s.acmd cfis
  let len := (acmd 7 ++ acmd 8).toNat
  let format := acmd 9 >>> 6
  let msf := acmd 1 >>> 1 &&& 1 ≠ 0
  let startTrack := acmd 6
  let sectors := BitVec.ofNat 32 ((s.p.bctx.bcSize.toNat / s.p.bctx.bcSectsz) >>> 2)
  if format = 0 then
    if 1 < startTrack ∧ startTrack ≠ 0xaa then s.fail slot cfis 0x24
    else
      let first := if startTrack ≤ 1 then [0, 0x14, 1, 0] ++ tocAddress msf 0 else []
      let buf := tocData ([1, 1] ++ first ++ [0, 0x14, 0xaa, 0] ++ tocAddress msf sectors)
      s.dataThenReason slot cfis (buf.take len)
  else if format = 1 then
    s.dataThenReason slot cfis (([0, 0xa, 0x1, 0x1] ++ List.replicate 8 0).take len)
  else if format = 2 then
    let point := fun p => [1, 0x14, 0, p, 0, 0, 0]
    let buf := tocData ([1, 1] ++ point 0xa0 ++ [0, 1, 0, 0] ++ point 0xa1 ++ [0, 1, 0, 0] ++
      point 0xa2 ++ tocAddress msf sectors ++ point 1 ++ tocAddress msf 0)
    s.dataThenReason slot cfis (buf.take len)
  else s.fail slot cfis 0x24

def atapiReportLuns : Except Fault AtapiPort :=
  s.reasonThenData slot cfis ([0, 0, 0, 8] ++ List.replicate 12 0)

def atapiRequestSense : Except Fault AtapiPort :=
  let buf := [0xf0, 0, s.senseKey, 0, 0, 0, 0, 10, 0, 0, 0, 0, s.asc] ++ List.replicate 51 0
  s.dataThenReason slot cfis (buf.take (s.acmd cfis 4).toNat)

def atapiStartStopUnit : Except Fault AtapiPort :=
  if s.acmd cfis 4 &&& 3 = 2 then s.fail slot cfis 0x53 else s.succeed slot cfis

def atapiModeSense : Except Fault AtapiPort :=
  let acmd := s.acmd cfis
  let len := (acmd 7 ++ acmd 8).toNat
  let pc := acmd 2 >>> 6
  let code := acmd 2 &&& 0x3f
  if pc = 0 then
    if code = MODEPAGE_RW_ERROR_RECOVERY then
      s.dataThenReason slot cfis (([0, 14, 0x70, 0, 0, 0, 0, 0, 0x01, 6, 0, 0x05] ++
        List.replicate 4 0).take len)
    else if code = MODEPAGE_CD_CAPABILITIES then
      s.dataThenReason slot cfis (([0, 28, 0x70, 0, 0, 0, 0, 0, 0x2a, 20, 0x08, 0, 0x71, 0, 0, 0, 0, 0] ++
        be16enc 2 ++ be16enc 512 ++ List.replicate 8 0).take len)
    else s.fail slot cfis 0x24
  else if pc = 3 then s.fail slot cfis 0x39
  else s.fail slot cfis 0x24

def atapiGetEventStatusNotification : Except Fault AtapiPort :=
  let acmd := s.acmd cfis
  if acmd 1 &&& 1 = 0 then s.fail slot cfis 0x24
  else s.dataThenReason slot cfis ([0, 6, 0x04, 0x10, 0, 0x02, 0, 0].take (acmd 7 ++ acmd 8).toNat)

end Commands

section Read

variable (slot : Slot) (cfis : BitVec 64)

def readLength : BitVec 32 :=
  let acmd := s.acmd cfis
  if acmd 0 = READ_10 then 0#16 ++ acmd 7 ++ acmd 8 else acmd 6 ++ acmd 7 ++ acmd 8 ++ acmd 9

def readLba : BitVec 64 :=
  let acmd := s.acmd cfis
  0#32 ++ acmd 2 ++ acmd 3 ++ acmd 4 ++ acmd 5

/-- `ahci_build_iov`, whose `left` is signed. -/
def ahciBuildIov (t : Port) (sectsz : Nat) (prdt : BitVec 64) (prdtl : Nat) (len done : BitVec 32) :
    Except Fault (List Iovec × Nat × Bool) := do
  let (iov, rest) := Port.buildVecs t.mem prdtl prdt done.toNat (len - done).toInt.toNat []
  let todo := (iov.map Iovec.iovLen).sum
  let more := fun todo => decide (done + BitVec.ofNat 32 todo < len ∧ 0 < rest)
  if iov.length = BLOCKIF_IOV_MAX then
    let extra := todo % sectsz
    let todo := todo - extra
    assertThat (0 < todo) .buildIovTodo
    .ok ((Port.trimVecs extra iov.reverse).reverse, todo, more todo)
  else .ok (iov, todo, more todo)

/-- What `atapi_read` notes and asks the block interface for, from `done` on. -/
def readChunk (t : Port) (lba : BitVec 64) (len done : BitVec 32) :
    Except Fault (AhciIoreq × BlockifReq) := do
  let sectsz ← t.sectsz
  let (iov, todo, more) ← ahciBuildIov t sectsz (cfis + 0x80) (t.prdtl slot) len done
  .ok (⟨cfis, len.toNat, (done + BitVec.ofNat 32 todo).toNat, slot, more⟩,
    ⟨lba + done.setWidth 64, BitVec.ofNat 64 todo, iov⟩)

def readRequest (t : Port) (lba : BitVec 64) (len done : BitVec 32) : Except Fault Port := do
  let (aior, t) ← t.pullIoreq
  let (io, breq) ← readChunk slot cfis t lba len done
  t.sendOut .read false aior io breq

def atapiRead (done : BitVec 32) : Except Fault AtapiPort := do
  let len := s.readLength cfis
  let lba := s.readLba cfis
  let s := { s with reads := s.reads ++ [len] }
  -- the source goes on after it has answered a command of length zero
  let s ← (if len = 0 then s.succeed slot cfis else .ok s)
  s.onPort fun t => readRequest slot cfis t (lba * 2048) (len * 2048) done

end Read

section Dispatch

def IsRead (cfis : BitVec 64) : Prop :=
  s.cfisByte cfis 2 = ATA_PACKET_CMD ∧ s.acmd cfis 0 ∈ [READ_10, READ_12]

instance (cfis : BitVec 64) : Decidable (s.IsRead cfis) := inferInstanceAs (Decidable (_ = _ ∧ _ ∈ _))

def issued (slot : Slot) (cfis : BitVec 64) : AtapiPort :=
  { s with p.tfd := s.p.tfd ||| ATA_S_BUSY }.logEvent (.issue slot (decide (s.IsRead cfis)) false)

def handlePacketCmd (slot : Slot) (cfis : BitVec 64) : Except Fault AtapiPort :=
  let cmd := s.acmd cfis 0
  if cmd = TEST_UNIT_READY then s.succeed slot cfis
  else if cmd = INQUIRY then s.atapiInquiry slot cfis
  else if cmd = READ_CAPACITY then s.atapiReadCapacity slot cfis
  else if cmd = PREVENT_ALLOW then s.succeed slot cfis
  else if cmd = READ_TOC then s.atapiReadToc slot cfis
  else if cmd = REPORT_LUNS then s.atapiReportLuns slot cfis
  else if cmd ∈ [READ_10, READ_12] then s.atapiRead slot cfis 0
  else if cmd = REQUEST_SENSE then s.atapiRequestSense slot cfis
  else if cmd = START_STOP_UNIT then s.atapiStartStopUnit slot cfis
  else if cmd = MODE_SENSE_10 then s.atapiModeSense slot cfis
  else if cmd = GET_EVENT_STATUS_NOTIFICATION then s.atapiGetEventStatusNotification slot cfis
  else s.fail slot cfis 0x20

/-- The commands that depend on what the port has; a disk and a packet device share the others. -/
def ahciHandleCmd (slot : Slot) (cfis : BitVec 64) : Except Fault AtapiPort :=
  let cmd := s.cfisByte cfis 2
  if cmd ∈ [ATA_ATA_IDENTIFY, ATA_READ_LOG_EXT, ATA_READ_LOG_DMA_EXT] then
    (s.issued slot cfis).answer slot cfis tfdAborted
  else if cmd = ATA_ATAPI_IDENTIFY then (s.issued slot cfis).handleAtapiIdentify slot cfis
  else if cmd = ATA_PACKET_CMD then (s.issued slot cfis).handlePacketCmd slot cfis
  else s.onPort fun t => t.ahciHandleCmd slot cfis

def ahciWriteResetFisD2h : Except Fault AtapiPort :=
  s.onPort fun t => t.ahciWriteFis .regD2h
    ([FIS_TYPE_REGD2H, 0, 0, 1, 1, 0x14, 0xeb] ++ List.replicate 5 0 ++ [1] ++ List.replicate 7 0)

def ahciPortReset : Except Fault AtapiPort :=
  let s := { s with p.serr := 0, p.sact := 0, p.xfermode := ATA_UDMA6, p.multSectors := 128 }
  if ¬ s.p.attached then
    .ok { s with p.ssts := ATA_SS_DET_NO_DEVICE, p.sig := 0xFFFFFFFF, p.tfd := 0x7F }
  else
    let speed := if s.p.sctl &&& ATA_SC_SPD_MASK ≠ 0 then s.p.sctl &&& ATA_SC_SPD_MASK
      else ATA_SS_SPD_GEN3
    ahciWriteResetFisD2h { s with
      p.ssts := ATA_SS_DET_PHY_ONLINE ||| ATA_SS_IPM_ACTIVE ||| speed
      p.tfd := bit 8 ||| ATA_S_DSC ||| ATA_S_DMA
      p.sig := PxSIG_ATAPI }

def controlFis (slot : Slot) (cfis : BitVec 64) : Except Fault AtapiPort := do
  let s ← (if s.cfisByte cfis 15 &&& 0x04 ≠ 0 then .ok { s with p.reset := true }
    else if s.p.reset then { s with p.reset := false }.ahciPortReset
    else .ok s)
  .ok { s with p.ci := s.p.ci &&& ~~~bit slot }

def ahciHandleSlot (slot : Slot) : Except Fault AtapiPort := do
  assertThat (s.p.attached = true) .nullSc
  let cfis := s.slotCfis slot
  let c := s.cfisByte cfis
  if c 0 ≠ FIS_TYPE_REGH2D then .ok s
  else if c 1 &&& 0x80 ≠ 0 then s.ahciHandleCmd slot cfis
  else s.controlFis slot cfis

def currentSlot : Except Fault AtapiPort :=
  if s.waiting &&& bit s.p.ccs ≠ 0 then ahciHandleSlot { s with toPort := s.setCcs } s.p.ccs
  else .ok s

def portRound : Except Fault (Option AtapiPort) :=
  if s.waiting = 0 ∨ s.p.tfd &&& (ATA_S_BUSY ||| ATA_S_DRQ) ≠ 0 ∨ s.p.waitforclear then .ok none
  else do
    let s ← s.currentSlot
    .ok (some { s with p.ccs := s.p.ccs + 1 })

def ahciHandlePort (fuel : Nat) : Except Fault AtapiPort :=
  if s.p.cmd &&& AHCI_P_CMD_ST = 0 then .ok s else whileSome .portLoop portRound fuel s

def settle (slot : Slot) : AtapiPort :=
  let t := { s.toPort with p.pending := s.p.pending &&& ~~~bit slot }
  { s with toPort := t.ahciCheckStopped }

/-- The last part of the callback, for a command that is complete. -/
def finishCmd (fuel : Nat) (io : AhciIoreq) (err : Nat) : Except Fault AtapiPort := do
  let s := if err = 0 then s else s.illegal 0x21
  let tfd := if err = 0 then tfdDone else s.tfdSense
  let s ← (s.setReason io.cfis).answer io.slot io.cfis tfd
  (s.settle io.slot).ahciHandlePort fuel

/-- The callback of the requests of a packet device. -/
def atapiIoreqCb (fuel : Nat) (aior : IoreqId) (err : Nat) : Except Fault AtapiPort := do
  let io := s.p.ioreq aior
  let s := { s with toPort := s.lockMtx.comeBack aior err }
  let s ← (if err = 0 ∧ io.more then s.atapiRead io.slot io.cfis (BitVec.ofNat 32 io.done)
    else s.finishCmd fuel io err)
  .ok { s with toPort := s.unlockMtx }

def client (fuel : Nat) : Client IoreqId AtapiPort where
  get s := ⟨s.p.bctx, s.p.ioReq, s.mem⟩
  put d s := { s with p.bctx := d.bc, p.ioReq := d.req, mem := d.mem }
  callback aior err s := s.atapiIoreqCb fuel aior err
  get_put _ _ := rfl

end Dispatch

section Registers

def cmdWrite (fuel : Nat) (value : BitVec 32) : Except Fault AtapiPort := do
  let s := { s with p.cmd := s.p.cmd &&& ~~~cmdWritable ||| cmdWritable &&& value }
  let s ← (if value &&& AHCI_P_CMD_ST = 0 then s.onPort Port.ahciPortStop
    else .ok { s with
      p.cmd := s.p.cmd ||| AHCI_P_CMD_CR
      p.cmdLst := paddrGuest2host (s.p.clbu ++ s.p.clb) })
  ahciHandlePort { s with toPort := s.cmdBits value } fuel

/-- A write to the register of the port at `offset`. Only three registers lead to the device. -/
def pciAhciPortWrite (fuel offset : Nat) (value : BitVec 32) : Except Fault AtapiPort :=
  match offset with
  | 0x18 => s.cmdWrite fuel value
  | 0x2c =>
    let s := { s with p.sctl := value }
    if s.p.cmd &&& AHCI_P_CMD_ST = 0 ∧ value &&& ATA_SC_DET_RESET ≠ 0 then s.ahciPortReset
    else .ok s
  | 0x38 => { s with p.ci := s.p.ci ||| value }.ahciHandlePort fuel
  | _ => s.onPort fun t => t.pciAhciPortWrite fuel offset value

def hbaReset : Except Fault AtapiPort :=
  let cmd := AHCI_P_CMD_SUD ||| AHCI_P_CMD_POD ||| (if s.p.attached then AHCI_P_CMD_CPS else 0)
  { s with p.ie := 0, p.is := 0, p.cmd := cmd, p.sctl := 0 }.ahciPortReset

inductive Event where
  /-- the guest writes to a register of the port -/
  | write (offset : Nat) (value : BitVec 32)
  /-- `ahci_reset` -/
  | reset
  /-- `blockif_thr` serves the disk -/
  | thr
  /-- the guest writes to memory, and the rest of the program works on what ports share -/
  | other (sc : Softc) (mem : Memory)

def step (fuel : Nat) (s : AtapiPort) : Event → Except Fault AtapiPort
  | .write offset value => do
    let s ← AtapiPort.pciAhciPortWrite { s with toPort := s.lockMtx } fuel offset value
    .ok { s with toPort := s.unlockMtx }
  | .reset => s.hbaReset
  | .thr => (client fuel).blockifThr fuel s
  | .other sc mem => .ok { s with sc := sc, mem := mem }

def pciAhciInit (port : PortId) (ident : List (BitVec 8)) (sc : Softc) (mem : Memory) :
    Except Fault AtapiPort :=
  hbaReset ⟨⟨diskPort port ident, sc, mem⟩, 0, 0, []⟩

end Registers

end AtapiPort

end DeviceModel.PciAhci

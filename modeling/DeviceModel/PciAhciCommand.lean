import DeviceModel.PciAhci

/-!
# The AHCI controller: ATA commands

From a slot of the command list to the requests that a command makes of the block interface
and to its completion. `ahci_handle_dsm_trim` calls `ahci_handle_port` only when it carries a
command on, and then only from `ata_ioreq_cb`; so it says whether that call is due, and the
callback makes it. The loop of `ahci_handle_port` has as many rounds as `fuel` allows.
-/

set_option autoImplicit false

namespace DeviceModel.PciAhci

open Fallible BlockIf

def ATA_NOP : BitVec 8 := 0x00
def ATA_DATA_SET_MANAGEMENT : BitVec 8 := 0x06
def ATA_DSM_TRIM : BitVec 8 := 0x01
def ATA_READ : BitVec 8 := 0x20
def ATA_READ48 : BitVec 8 := 0x24
def ATA_READ_DMA48 : BitVec 8 := 0x25
def ATA_READ_MUL48 : BitVec 8 := 0x29
def ATA_READ_LOG_EXT : BitVec 8 := 0x2f
def ATA_WRITE : BitVec 8 := 0x30
def ATA_WRITE48 : BitVec 8 := 0x34
def ATA_WRITE_DMA48 : BitVec 8 := 0x35
def ATA_WRITE_MUL48 : BitVec 8 := 0x39
def ATA_READ_VERIFY : BitVec 8 := 0x40
def ATA_READ_VERIFY48 : BitVec 8 := 0x42
def ATA_READ_LOG_DMA_EXT : BitVec 8 := 0x47
def ATA_READ_FPDMA_QUEUED : BitVec 8 := 0x60
def ATA_WRITE_FPDMA_QUEUED : BitVec 8 := 0x61
def ATA_SEND_FPDMA_QUEUED : BitVec 8 := 0x64
def ATA_SFPDMA_DSM : BitVec 8 := 0x00
def ATA_PACKET_CMD : BitVec 8 := 0xa0
def ATA_ATAPI_IDENTIFY : BitVec 8 := 0xa1
def ATA_SMART_CMD : BitVec 8 := 0xb0
def ATA_READ_MUL : BitVec 8 := 0xc4
def ATA_WRITE_MUL : BitVec 8 := 0xc5
def ATA_SET_MULTI : BitVec 8 := 0xc6
def ATA_READ_DMA : BitVec 8 := 0xc8
def ATA_WRITE_DMA : BitVec 8 := 0xca
def ATA_STANDBY_IMMEDIATE : BitVec 8 := 0xe0
def ATA_IDLE_IMMEDIATE : BitVec 8 := 0xe1
def ATA_STANDBY_CMD : BitVec 8 := 0xe2
def ATA_IDLE_CMD : BitVec 8 := 0xe3
def ATA_CHECK_POWER_MODE : BitVec 8 := 0xe5
def ATA_SLEEP : BitVec 8 := 0xe6
def ATA_FLUSHCACHE : BitVec 8 := 0xe7
def ATA_FLUSHCACHE48 : BitVec 8 := 0xea
def ATA_ATA_IDENTIFY : BitVec 8 := 0xec
def ATA_SETFEATURES : BitVec 8 := 0xef
def ATA_SECURITY_FREEZE_LOCK : BitVec 8 := 0xf5
def ATA_SF_ENAB_WCACHE : BitVec 8 := 0x02
def ATA_SF_SETXFER : BitVec 8 := 0x03
def ATA_SF_ENAB_SATA_SF : BitVec 8 := 0x10
def ATA_SF_DIS_RCACHE : BitVec 8 := 0x55
def ATA_SF_DIS_WCACHE : BitVec 8 := 0x82
def ATA_SF_ENAB_RCACHE : BitVec 8 := 0xaa
def ATA_SATA_SF_AN : BitVec 8 := 0x05
def ATA_WDMA0 : BitVec 8 := 0x20
def ATA_UDMA0 : BitVec 8 := 0x40
def DBCMASK : BitVec 32 := 0x3fffff

/-- The status of a command that is done, and that of one that is aborted. -/
def tfdDone : BitVec 32 := ATA_S_READY ||| ATA_S_DSC

def tfdAborted : BitVec 32 := ATA_E_ABORT <<< 8 ||| ATA_S_READY ||| ATA_S_ERROR

/-- `READ` and `WRITE` with a 28-bit address, with a 48-bit address, and queued. -/
def rwCmds : List (BitVec 8) :=
  [ATA_READ, ATA_WRITE, ATA_READ_MUL, ATA_WRITE_MUL, ATA_READ_DMA, ATA_WRITE_DMA]

def rwCmds48 : List (BitVec 8) :=
  [ATA_READ48, ATA_WRITE48, ATA_READ_MUL48, ATA_WRITE_MUL48, ATA_READ_DMA48, ATA_WRITE_DMA48]

def rwCmdsQueued : List (BitVec 8) := [ATA_READ_FPDMA_QUEUED, ATA_WRITE_FPDMA_QUEUED]

def writeCmds : List (BitVec 8) :=
  [ATA_WRITE, ATA_WRITE48, ATA_WRITE_MUL, ATA_WRITE_MUL48, ATA_WRITE_DMA, ATA_WRITE_DMA48,
    ATA_WRITE_FPDMA_QUEUED]

namespace Port

variable (s : Port)

section Prdt

/-- `cmd_lst + slot * AHCI_CL_SIZE` -/
def cmdHdr (slot : Slot) : BitVec 64 := s.p.cmdLst + BitVec.ofNat 64 (slot * AHCI_CL_SIZE)

def hdrPrdtl (m : Memory) (hdr : BitVec 64) : Nat := (le16toh (m.load16 (hdr + 2))).toNat

def prdtl (slot : Slot) : Nat := hdrPrdtl s.mem (s.cmdHdr slot)

def setPrdbc (slot : Slot) (count : Nat) : Port :=
  { s with mem := s.mem.store32 (s.cmdHdr slot + 4) (BitVec.ofNat 32 count) }

def prdtSize (m : Memory) (prdt : BitVec 64) : Nat :=
  (le32toh (m.load32 (prdt + 12)) &&& DBCMASK).toNat + 1

def prdtBase (m : Memory) (prdt : BitVec 64) : BitVec 64 := le64toh (m.load64 prdt)

/-- The loop of `ahci_build_iov` over `n` more entries. It returns the entries left over, too. -/
def buildVecs (m : Memory) : Nat → BitVec 64 → Nat → Nat → List Iovec → List Iovec × Nat
  | 0, _, _, _, iov => (iov, 0)
  | n + 1, prdt, skip, left, iov =>
    if iov.length < BLOCKIF_IOV_MAX ∧ 0 < left then
      let dbcsz := prdtSize m prdt
      if dbcsz ≤ skip then buildVecs m n (prdt + 16) (skip - dbcsz) left iov
      else
        let len := min (dbcsz - skip) left
        let v := ⟨paddrGuest2host (prdtBase m prdt + BitVec.ofNat 64 skip), len⟩
        buildVecs m n (prdt + 16) 0 (left - len) (iov ++ [v])
    else (iov, n + 1)

/-- Take `extra` bytes off vectors, of which the last one comes first. -/
def trimVecs : Nat → List Iovec → List Iovec
  | 0, iov => iov
  | _ + 1, [] => []
  | extra + 1, v :: iov =>
    if extra + 1 < v.iovLen then { v with iovLen := v.iovLen - (extra + 1) } :: iov
    else trimVecs (extra + 1 - v.iovLen) iov

/-- The vectors of a request, how many bytes it moves, and whether there is more to move. -/
def ahciBuildIov (sectsz : Nat) (prdt : BitVec 64) (prdtl len done : Nat) :
    Except Fault (List Iovec × Nat × Bool) := do
  let (iov, rest) := buildVecs s.mem prdtl prdt done (len - done) []
  let todo := (iov.map Iovec.iovLen).sum
  if iov.length = BLOCKIF_IOV_MAX then
    let extra := todo % sectsz
    let todo := todo - extra
    assertThat (0 < todo) .buildIovTodo
    .ok ((trimVecs extra iov.reverse).reverse, todo, done + todo < len ∧ 0 < rest)
  else .ok (iov, todo, done + todo < len ∧ 0 < rest)

/-- The loop of `read_prdt` from entry `i` on, for `len` more bytes. -/
def readPrdtFrom (m : Memory) (prdtl : Nat) : Nat → Nat → BitVec 64 → Nat → List (BitVec 8)
  | 0, _, _, _ => []
  | n + 1, i, prdt, len =>
    if i < prdtl ∧ 0 < len then
      let sublen := min len (prdtSize m prdt)
      m.bytes (paddrGuest2host (prdtBase m prdt)) sublen ++
        readPrdtFrom m prdtl n (i + 1) (prdt + 16) (len - sublen)
    else []

/-- `read_prdt` into a buffer on the stack; it leaves what the entries do not cover. -/
def readPrdt (slot : Slot) (cfis : BitVec 64) (size : Nat) : List (BitVec 8) :=
  let bytes := readPrdtFrom s.mem (s.prdtl slot) size 0 (cfis + 0x80) size
  bytes ++ ((List.range size).drop bytes.length).map s.sc.stack

/-- The loop of `write_prdt` from entry `i` on. It returns how many bytes are left over, too. -/
def writePrdtFrom (hdr : BitVec 64) :
    Nat → Memory → Nat → BitVec 64 → List (BitVec 8) → Memory × Nat
  | 0, m, _, _, buf => (m, buf.length)
  | n + 1, m, i, prdt, buf =>
    if i < hdrPrdtl m hdr ∧ buf ≠ [] then
      let sublen := min buf.length (prdtSize m prdt)
      let ptr := paddrGuest2host (prdtBase m prdt)
      writePrdtFrom hdr n (m.storeBytes ptr (buf.take sublen)) (i + 1) (prdt + 16)
        (buf.drop sublen)
    else (m, buf.length)

def writePrdt (slot : Slot) (cfis : BitVec 64) (buf : List (BitVec 8)) : Port :=
  let (m, left) := writePrdtFrom (s.cmdHdr slot) buf.length s.mem 0 (cfis + 0x80) buf
  { s with mem := m }.setPrdbc slot (buf.length - left)

end Prdt

section Requests

def sectsz : Except Fault Nat := do
  assertThat (s.p.attached = true) .nullBctx
  .ok s.p.bctx.bcSectsz

def pullIoreq : Except Fault (IoreqId × Port) :=
  match s.p.iofhd with
  | [] => .error .aiorNull
  | aior :: iofhd => .ok (aior, { s with p.iofhd := iofhd })

/-- Mark the command in flight, and put its request onto the busy list. -/
def pushIoreq (aior : IoreqId) (io : AhciIoreq) (breq : BlockifReq) : Port :=
  { s with
    p.ioreq := Function.update s.p.ioreq aior io
    p.ioReq := Function.update s.p.ioReq aior breq
    p.pending := s.p.pending ||| bit io.slot
    p.iobhd := aior :: s.p.iobhd }.log (.request io.slot)

/-- Hand a request to the block interface, which must not refuse it. -/
def handOver (op : BlockOp) (aior : IoreqId) : Except Fault Port := do
  let (err, s) ← s.onDisk fun d => d.submit op aior
  assertThat (err = 0) .aiorRefused
  .ok s

theorem handOver_eq (op : BlockOp) (aior : IoreqId) : s.handOver op aior =
    (s.onDisk fun d => d.blockifOp op aior) >>= fun r =>
      assertThat (r.1 = 0) .aiorRefused >>= fun _ => .ok r.2 := by
  simp only [handOver, Disk.submit_eq]

/-- The request of a command goes out. A queued command is accepted with a FIS. -/
def sendOut (op : BlockOp) (accept : Bool) (aior : IoreqId) (io : AhciIoreq) (breq : BlockifReq) :
    Except Fault Port := do
  let s := s.pushIoreq aior io breq
  let s ← (if accept then s.ahciWriteFisD2hNcq io.slot else .ok s)
  s.handOver op aior

def rwRange (cfis : BitVec 64) : BitVec 64 × Nat :=
  let c := s.cfisByte cfis
  let lba48 : BitVec 64 := 0#16 ++ c 10 ++ c 9 ++ c 8 ++ c 6 ++ c 5 ++ c 4
  let count48 := fun len : BitVec 16 => if len = 0 then 65536 else len.toNat
  if c 2 ∈ rwCmdsQueued then (lba48, count48 (c 11 ++ c 3))
  else if c 2 ∈ rwCmds48 then (lba48, count48 (c 13 ++ c 12))
  else
    (0#36 ++ (c 7).extractLsb' 0 4 ++ c 6 ++ c 5 ++ c 4, if c 12 = 0 then 256 else (c 12).toNat)

def ahciHandleRw (slot : Slot) (cfis : BitVec 64) (done : Nat) : Except Fault Port := do
  let cmd := s.cfisByte cfis 2
  let (lba, count) := s.rwRange cfis
  let sectsz ← s.sectsz
  let len := count * sectsz
  let (aior, s) ← s.pullIoreq
  let (iov, todo, more) ← s.ahciBuildIov sectsz (cfis + 0x80) (s.prdtl slot) len done
  let accept := cmd ∈ rwCmdsQueued ∧ done = 0
  s.sendOut (if cmd ∈ writeCmds then .write else .read) accept aior
    ⟨cfis, len, done + todo, slot, more⟩
    ⟨lba * BitVec.ofNat 64 sectsz + BitVec.ofNat 64 done, BitVec.ofNat 64 todo, iov⟩

def ahciHandleFlush (slot : Slot) (cfis : BitVec 64) : Except Fault Port := do
  let (aior, s) ← s.pullIoreq
  s.sendOut .flush false aior ⟨cfis, 0, 0, slot, false⟩ (s.p.ioReq aior)

/-- The entries of a range list from `done` on: the first one that is not empty, or none, and
where the next one is. -/
def trimEntry (buf : List (BitVec 8)) (len : Nat) :
    Nat → Nat → Except Fault (Option (BitVec 64 × Nat) × Nat)
  | 0, _ => .error .bufferIndex
  | n + 1, done => do
    assertThat (done + 8 ≤ buf.length) .bufferIndex
    let e := fun i => buf.getD (done + i) 0
    let elba : BitVec 64 := 0#16 ++ e 5 ++ e 4 ++ e 3 ++ e 2 ++ e 1 ++ e 0
    let elen := (e 7 ++ e 6).toNat
    if elen ≠ 0 then .ok (some (elba, elen), done + 8)
    else if len ≤ done + 8 then .ok (none, done + 8)
    else trimEntry buf len n (done + 8)

/-- Whether `ahci_handle_port` is to be called is returned with the port. -/
def ahciHandleDsmTrim (slot : Slot) (cfis : BitVec 64) (done : Nat) : Except Fault (Bool × Port) := do
  let c := s.cfisByte cfis
  let first := done = 0
  let ncq := c 2 ≠ ATA_DATA_SET_MANAGEMENT
  let len := (if ncq then c 11 ++ c 3 else c 13 ++ c 12).toNat * 512
  let buf := s.readPrdt slot cfis 512
  let (entry, done) ← trimEntry buf len 65 done
  match entry with
  | none =>
    let s := s.log (.empty slot)
    let s ← (if ncq ∧ first then s.ahciWriteFisD2hNcq slot else .ok s)
    let s ← (if ncq then s.ahciWriteFisSdb slot cfis tfdDone else s.ahciWriteFisD2h slot cfis tfdDone)
    let s := { s with p.pending := s.p.pending &&& ~~~bit slot }.ahciCheckStopped
    .ok (decide ¬first, s)
  | some (elba, elen) =>
    let (aior, s) ← s.pullIoreq
    let sectsz ← s.sectsz
    let breq := { s.p.ioReq aior with
      brOffset := elba * BitVec.ofNat 64 sectsz
      brResid := BitVec.ofNat 64 (elen * sectsz) }
    let s ← s.sendOut .delete (ncq ∧ first) aior ⟨cfis, len, done, slot, decide (len ≠ done)⟩ breq
    .ok (false, s)

end Requests

section DataIn

/-- `blockif_chs`: `heads` and the results have the widths of the source. -/
def blockifChs (size sectsz : Nat) : Nat × Nat × Nat :=
  let sectors := min (size / sectsz) (65535 * 16 * 255)
  let (hcyl, heads, secpt) :=
    if 65536 * 16 * 63 ≤ sectors then (sectors / 255, 16, 255)
    else
      let hcyl := sectors / 17
      let heads := max ((hcyl + 1023) / 1024 % 256) 4
      let (hcyl, heads, secpt) :=
        if heads * 1024 ≤ hcyl ∨ 16 < heads then (sectors / 31, 16, 31) else (hcyl, heads, 17)
      if heads * 1024 ≤ hcyl then (sectors / 63, 16, 63) else (hcyl, heads, secpt)
  (hcyl / heads % 65536, heads, secpt % 256)

/-- `ata_string` of a string of at most `2 * n` characters: the bytes of each word are swapped. -/
def ataString (src : List (BitVec 8)) (n : Nat) : List (BitVec 8) :=
  (List.range (2 * n)).map fun i => src.getD (if i % 2 = 0 then i + 1 else i - 1) 0x20

def asciiBytes (str : String) : List (BitVec 8) := str.toList.map fun c => BitVec.ofNat 8 c.toNat

/-- A word of the identification that is stored through `bswap16`. -/
def identifyWord (w : Nat) : BitVec 16 :=
  let bc := s.p.bctx
  let sectors := bc.bcSize.toNat / bc.bcSectsz
  let (cyl, heads, sech) := blockifChs bc.bcSize.toNat bc.bcSectsz
  let trim := bc.bcCandelete ∧ ¬ bc.bcRdonly
  let xfer := fun base : BitVec 8 =>
    if s.p.xfermode &&& base ≠ 0 then 1 <<< ((s.p.xfermode &&& 7).toNat + 8) else 0
  let lsb := fun n : Nat => ((List.range 64).find? fun i => n.testBit i).getD 0
  match w with
  | 0 => 0x0040
  | 1 => BitVec.ofNat 16 cyl
  | 3 => BitVec.ofNat 16 heads
  | 6 => BitVec.ofNat 16 sech
  | 47 => 0x8000 ||| 128
  | 49 => 1 <<< 8 ||| 1 <<< 9 ||| 1 <<< 11
  | 50 => 1 <<< 14
  | 53 => 1 <<< 1 ||| 1 <<< 2
  | 59 => if s.p.multSectors ≠ 0 then 0x100 ||| BitVec.ofNat 16 s.p.multSectors else 0
  | 60 => if sectors ≤ 0x0fffffff then BitVec.ofNat 16 sectors else 0xffff
  | 61 => if sectors ≤ 0x0fffffff then BitVec.ofNat 16 (sectors >>> 16) else 0x0fff
  | 63 => 0x7 ||| xfer ATA_WDMA0
  | 64 => 0x3
  | 65 | 66 | 67 | 68 => 120
  | 69 => if trim then 0x0020 ||| 0x4000 else 0
  | 75 => 31
  | 76 => 0x0002 ||| 0x0004 ||| 0x0008 ||| 0x0100
  | 77 => 0x0040 ||| ((s.p.ssts &&& ATA_SS_SPD_MASK) >>> 3).setWidth 16
  | 80 => 0x3f0
  | 81 => 0x28
  | 82 | 85 => 0x0008 ||| 0x0020 ||| 0x0040 ||| 0x4000
  | 83 => 0x0400 ||| 0x1000 ||| 0x2000 ||| 1 <<< 14
  | 84 | 87 => 1 <<< 14
  | 86 => 0x0400 ||| 0x1000 ||| 0x2000 ||| 1 <<< 15
  | 88 => 0x7f ||| xfer ATA_UDMA0
  | 100 => BitVec.ofNat 16 sectors
  | 101 => BitVec.ofNat 16 (sectors >>> 16)
  | 102 => BitVec.ofNat 16 (sectors >>> 32)
  | 103 => BitVec.ofNat 16 (sectors >>> 48)
  | 105 => if trim then 1 else 0
  | 106 => 0x4000 |||
      (if bc.bcSectsz < bc.bcPsectsz then
        0x2000 ||| BitVec.ofNat 16 (lsb (bc.bcPsectsz / bc.bcSectsz)) else 0) |||
      (if 512 < bc.bcSectsz then 0x1000 else 0)
  | 117 => if 512 < bc.bcSectsz then BitVec.ofNat 16 (bc.bcSectsz / 2) else 0
  | 118 => if 512 < bc.bcSectsz then BitVec.ofNat 16 (bc.bcSectsz / 2 >>> 16) else 0
  | 119 | 120 => 0x0008 ||| 1 <<< 14
  | 169 => if trim then 0x0001 else 0
  | 209 => 0x4000 ||| (if bc.bcSectsz < bc.bcPsectsz then
      BitVec.ofNat 16 (bc.bcPsectoff / bc.bcSectsz) else 0)
  | 222 => 0x1020
  | 255 => 0x00a5
  | _ => 0

/-- A buffer with its last byte set so that all bytes add up to zero. -/
def ahciChecksum (buf : List (BitVec 8)) : List (BitVec 8) :=
  let body := buf.dropLast
  body ++ [0x00 - body.foldl (· + ·) 0]

def identifyData : List (BitVec 8) :=
  let words := fun first n => (List.range n).flatMap fun i =>
    let v := s.identifyWord (first + i)
    [v.extractLsb' 0 8, v.extractLsb' 8 8]
  ahciChecksum (words 0 10 ++ ataString s.p.ident 10 ++ words 20 3 ++
    ataString (asciiBytes "001") 4 ++ ataString (asciiBytes "BHYVE SATA DISK") 20 ++ words 47 209)

/-- A command that hands the guest `buf` and is done. -/
def dataIn (slot : Slot) (cfis : BitVec 64) (pio : Bool) (buf : List (BitVec 8)) :
    Except Fault Port := do
  let s ← (if pio then s.ahciWriteFisPiosetup else .ok s)
  (s.writePrdt slot cfis buf).ahciWriteFisD2h slot cfis tfdDone

def handleIdentify (slot : Slot) (cfis : BitVec 64) : Except Fault Port :=
  if s.prdtl slot = 0 then s.ahciWriteFisD2h slot cfis tfdAborted
  else do
    assertThat (s.p.attached = true) .nullBctx
    s.dataIn slot cfis true s.identifyData

def logPage (page : BitVec 8) : Except Fault (Option (List (BitVec 8))) :=
  if page = 0x00 then
    let buf16 := fun i => if i = 0x00 ∨ i = 0x10 ∨ i = 0x13 then [0, 1] else [0, 0]
    .ok (some ((List.range 256).flatMap buf16))
  else if page = 0x10 then
    .ok (some (ahciChecksum (s.p.errCfis ++ List.replicate 492 0)))
  else if page = 0x13 then do
    assertThat (s.p.attached = true) .nullBctx
    let trim := s.p.bctx.bcCandelete ∧ ¬ s.p.bctx.bcRdonly
    let buf := fun i => if trim ∧ i ≤ 1 then [0, 0, 0, 1] else [0, 0, 0, 0]
    .ok (some ((List.range 128).flatMap buf))
  else .ok none

theorem logPage_error {s : Port} {page : BitVec 8} {e : Fault} (h : s.logPage page = .error e) :
    e = .nullBctx ∧ s.p.attached = false := by
  unfold logPage at h
  split at h
  · cases h
  split at h
  · cases h
  split at h
  · by_cases hAttached : s.p.attached = true
    · rw [assertThat_of _ hAttached] at h
      cases h
    · rw [assertThat, if_neg hAttached] at h
      cases h
      exact ⟨rfl, Bool.eq_false_iff.mpr hAttached⟩
  · cases h

def ahciHandleReadLog (slot : Slot) (cfis : BitVec 64) : Except Fault Port := do
  let c := s.cfisByte cfis
  if s.prdtl slot = 0 ∨ c 5 ≠ 0 ∨ c 9 ≠ 0 ∨ c 12 ≠ 1 ∨ c 13 ≠ 0 then
    s.ahciWriteFisD2h slot cfis tfdAborted
  else
    match ← s.logPage (c 4) with
    | none => s.ahciWriteFisD2h slot cfis tfdAborted
    | some buf => s.dataIn slot cfis (c 2 = ATA_READ_LOG_EXT) buf

end DataIn

section Dispatch

/-- The status that `SET FEATURES` leaves, and the transfer mode. -/
def setFeatures (cfis : BitVec 64) : BitVec 32 × BitVec 8 :=
  let c := s.cfisByte cfis
  let aborted := ATA_S_ERROR ||| ATA_S_READY ||| ATA_ERROR_ABORT <<< 8
  if c 3 = ATA_SF_ENAB_SATA_SF then (if c 12 = ATA_SATA_SF_AN then tfdDone else aborted, s.p.xfermode)
  else if c 3 ∈ [ATA_SF_ENAB_WCACHE, ATA_SF_DIS_WCACHE, ATA_SF_ENAB_RCACHE, ATA_SF_DIS_RCACHE] then
    (tfdDone, s.p.xfermode)
  else if c 3 = ATA_SF_SETXFER then
    let mode := c 12 &&& 0xf8
    (tfdDone, if mode = ATA_WDMA0 ∨ mode = ATA_UDMA0 then c 12 &&& 0x7 else s.p.xfermode)
  else (aborted, s.p.xfermode)

def IsRw (cfis : BitVec 64) : Prop := s.cfisByte cfis 2 ∈ rwCmds ++ rwCmds48 ++ rwCmdsQueued

def IsFlush (cfis : BitVec 64) : Prop := s.cfisByte cfis 2 ∈ [ATA_FLUSHCACHE, ATA_FLUSHCACHE48]

def IsTrim (cfis : BitVec 64) : Prop :=
  let c := s.cfisByte cfis
  c 2 = ATA_DATA_SET_MANAGEMENT ∧ c 11 = 0 ∧ c 3 = ATA_DSM_TRIM ∧ c 13 = 0 ∧ c 12 = 1 ∨
    c 2 = ATA_SEND_FPDMA_QUEUED ∧ c 13 &&& 0x1f = ATA_SFPDMA_DSM ∧ c 17 = 0 ∧
      c 16 = ATA_DSM_TRIM ∧ c 11 = 0 ∧ c 3 = 1

/-- A command that always makes a request of the block interface. -/
def IsBlock (cfis : BitVec 64) : Prop := s.IsRw cfis ∨ s.IsFlush cfis

/-- A command that is accepted with a FIS before it is carried out. -/
def IsQueued (cfis : BitVec 64) : Prop :=
  s.cfisByte cfis 2 ∈ rwCmdsQueued ∨ s.IsTrim cfis ∧ s.cfisByte cfis 2 ≠ ATA_DATA_SET_MANAGEMENT

instance (cfis : BitVec 64) : Decidable (s.IsBlock cfis) :=
  inferInstanceAs (Decidable (_ ∈ _ ∨ _ ∈ _))

instance (cfis : BitVec 64) : Decidable (s.IsTrim cfis) := inferInstanceAs (Decidable (_ ∨ _))

instance (cfis : BitVec 64) : Decidable (s.IsQueued cfis) :=
  inferInstanceAs (Decidable (_ ∈ _ ∨ _ ∧ _ ≠ _))

def issued (slot : Slot) (cfis : BitVec 64) : Port :=
  { s with p.tfd := s.p.tfd ||| ATA_S_BUSY }.log
    (.issue slot (decide (s.IsBlock cfis)) (decide (s.IsQueued cfis)))

def ahciHandleCmd (slot : Slot) (cfis : BitVec 64) : Except Fault Port := do
  let c := s.cfisByte cfis
  let cmd := c 2
  let s := s.issued slot cfis
  if cmd = ATA_ATA_IDENTIFY then s.handleIdentify slot cfis
  else if cmd = ATA_SETFEATURES then
    let (tfd, xfermode) := s.setFeatures cfis
    let s := { s with p.tfd := tfd, p.xfermode := xfermode }
    s.ahciWriteFisD2h slot cfis tfd
  else if cmd = ATA_SET_MULTI then
    let n := c 12
    if n ≠ 0 ∧ (128 < n ∨ n &&& (n - 1) ≠ 0) then
      let tfd := ATA_S_ERROR ||| ATA_S_READY ||| ATA_ERROR_ABORT <<< 8
      let s := { s with p.tfd := tfd }
      s.ahciWriteFisD2h slot cfis tfd
    else
      let s := { s with p.multSectors := n.toNat, p.tfd := tfdDone }
      s.ahciWriteFisD2h slot cfis tfdDone
  else if cmd ∈ rwCmds ++ rwCmds48 ++ rwCmdsQueued then s.ahciHandleRw slot cfis 0
  else if cmd ∈ [ATA_FLUSHCACHE, ATA_FLUSHCACHE48] then s.ahciHandleFlush slot cfis
  else if cmd = ATA_DATA_SET_MANAGEMENT then
    if c 11 = 0 ∧ c 3 = ATA_DSM_TRIM ∧ c 13 = 0 ∧ c 12 = 1 then
      (s.ahciHandleDsmTrim slot cfis 0).map Prod.snd
    else s.ahciWriteFisD2h slot cfis tfdAborted
  else if cmd = ATA_SEND_FPDMA_QUEUED then
    if c 13 &&& 0x1f = ATA_SFPDMA_DSM ∧ c 17 = 0 ∧ c 16 = ATA_DSM_TRIM ∧ c 11 = 0 ∧ c 3 = 1 then
      (s.ahciHandleDsmTrim slot cfis 0).map Prod.snd
    else s.ahciWriteFisD2h slot cfis tfdAborted
  else if cmd ∈ [ATA_READ_LOG_EXT, ATA_READ_LOG_DMA_EXT] then s.ahciHandleReadLog slot cfis
  else if cmd ∈ [ATA_SECURITY_FREEZE_LOCK, ATA_SMART_CMD, ATA_NOP] then
    s.ahciWriteFisD2h slot cfis tfdAborted
  else if cmd = ATA_CHECK_POWER_MODE then
    let s := { s with mem := s.mem.store8 (cfis + 12) 0xff }
    s.ahciWriteFisD2h slot cfis tfdDone
  else if cmd ∈ [ATA_STANDBY_CMD, ATA_STANDBY_IMMEDIATE, ATA_IDLE_CMD, ATA_IDLE_IMMEDIATE, ATA_SLEEP,
      ATA_READ_VERIFY, ATA_READ_VERIFY48] then
    s.ahciWriteFisD2h slot cfis tfdDone
  else -- `ATA_ATAPI_IDENTIFY` and `ATA_PACKET_CMD` among them
    s.ahciWriteFisD2h slot cfis tfdAborted

/-- Every command is answered at once, perhaps after other registers, memory or data, or it makes
a request of the block interface. -/
theorem ahciHandleCmd_rule {s : Port} {slot : Slot} {cfis : BitVec 64} {Q : Except Fault Port → Prop}
    (hAnswer : ¬ s.IsBlock cfis → ¬ s.IsTrim cfis → ∀ tfd xfermode multSectors mem status,
      Q (Port.ahciWriteFisD2h { s.issued slot cfis with
        p.tfd := tfd, p.xfermode := xfermode, p.multSectors := multSectors, mem := mem }
        slot cfis status))
    (hData : ¬ s.IsBlock cfis → ¬ s.IsTrim cfis → ∀ pio buf,
      Q ((s.issued slot cfis).dataIn slot cfis pio buf))
    (hAbsent : s.p.attached = false → Q (.error .nullBctx))
    (hRw : s.IsRw cfis → Q ((s.issued slot cfis).ahciHandleRw slot cfis 0))
    (hFlush : s.IsFlush cfis → Q ((s.issued slot cfis).ahciHandleFlush slot cfis))
    (hTrim : ¬ s.IsBlock cfis → s.IsTrim cfis →
      Q (((s.issued slot cfis).ahciHandleDsmTrim slot cfis 0).map Prod.snd)) :
    Q (s.ahciHandleCmd slot cfis) := by
  have hOther : ∀ c, c ∉ rwCmds ++ rwCmds48 ++ rwCmdsQueued → c ∉ [ATA_FLUSHCACHE, ATA_FLUSHCACHE48] →
      s.cfisByte cfis 2 = c → ¬ s.IsBlock cfis := by
    rintro c hNotRw hNotFlush rfl
    exact not_or.mpr ⟨hNotRw, hNotFlush⟩
  have hNotTrim : s.cfisByte cfis 2 ≠ ATA_DATA_SET_MANAGEMENT →
      s.cfisByte cfis 2 ≠ ATA_SEND_FPDMA_QUEUED → ¬ s.IsTrim cfis := by
    rintro hDsm hSend (⟨hCmd, -⟩ | ⟨hCmd, -⟩)
    · exact hDsm hCmd
    · exact hSend hCmd
  have hIs : ∀ c, c ≠ ATA_DATA_SET_MANAGEMENT → c ≠ ATA_SEND_FPDMA_QUEUED →
      s.cfisByte cfis 2 = c → ¬ s.IsTrim cfis := by
    rintro c hDsm hSend rfl
    exact hNotTrim hDsm hSend
  have hPlain := fun (hBlock : ¬ s.IsBlock cfis) (hTrim : ¬ s.IsTrim cfis) status =>
    hAnswer hBlock hTrim (s.issued slot cfis).p.tfd s.p.xfermode s.p.multSectors s.mem status
  have hIte : ∀ {c : Prop} [Decidable c] {x y : Except Fault Port},
      (c → Q x) → (¬c → Q y) → Q (if c then x else y) := by
    intro c _ x y hx hy
    split
    · next hc => exact hx hc
    · next hc => exact hy hc
  have hAssert : ∀ {f : Unit → Except Fault Port},
      Q (f ()) → Q (assertThat (s.p.attached = true) .nullBctx >>= f) := by
    intro f hf
    by_cases hAttached : s.p.attached = true
    · rwa [assertThat_of _ hAttached]
    · rw [assertThat, if_neg hAttached]
      exact hAbsent (Bool.eq_false_iff.mpr hAttached)
  refine hIte (fun hCmd => ?_) fun _ => ?_
  · have hBlock := hOther _ (by decide) (by decide) hCmd
    have hNot := hIs _ (by decide) (by decide) hCmd
    exact hIte (fun _ => hPlain hBlock hNot _) fun _ => hAssert (hData hBlock hNot _ _)
  refine hIte (fun hCmd => ?_) fun _ => ?_
  · exact hAnswer (hOther _ (by decide) (by decide) hCmd) (hIs _ (by decide) (by decide) hCmd) _ _ _ _ _
  refine hIte (fun hCmd => ?_) fun _ => ?_
  · have hBlock := hOther _ (by decide) (by decide) hCmd
    have hNot := hIs _ (by decide) (by decide) hCmd
    exact hIte (fun _ => hAnswer hBlock hNot _ _ _ _ _) fun _ => hAnswer hBlock hNot _ _ _ _ _
  refine hIte hRw fun hNotRw => hIte hFlush fun hNotFlush => ?_
  have hBlock : ¬ s.IsBlock cfis := not_or.mpr ⟨hNotRw, hNotFlush⟩
  refine hIte (fun hCmd => ?_) fun hDsm => ?_
  · refine hIte (fun hRange => hTrim hBlock (.inl ⟨hCmd, hRange⟩)) fun hRange => hPlain hBlock ?_ _
    rintro (⟨-, hSame⟩ | ⟨hSend, -⟩)
    · exact hRange hSame
    · exact absurd (hCmd.symm.trans hSend) (by decide)
  refine hIte (fun hCmd => ?_) fun hSend => ?_
  · refine hIte (fun hRange => hTrim hBlock (.inr ⟨hCmd, hRange⟩)) fun hRange => hPlain hBlock ?_ _
    rintro (⟨hSame, -⟩ | ⟨-, hSame⟩)
    · exact hDsm hSame
    · exact hRange hSame
  have hNot := hNotTrim hDsm hSend
  refine hIte (fun _ => ?_) fun _ => ?_
  · refine hIte (fun _ => hPlain hBlock hNot _) fun _ => ?_
    cases hPage : (s.issued slot cfis).logPage ((s.issued slot cfis).cfisByte cfis 4) with
    | error e =>
      obtain ⟨rfl, hNone⟩ := logPage_error hPage
      exact hAbsent hNone
    | ok page =>
      rw [ok_bind]
      cases page with
      | none => exact hPlain hBlock hNot _
      | some buf => exact hData hBlock hNot _ _
  refine hIte (fun _ => hPlain hBlock hNot _) fun _ => ?_
  refine hIte (fun _ => hAnswer hBlock hNot _ _ _ _ _) fun _ => ?_
  exact hIte (fun _ => hPlain hBlock hNot _) fun _ => hPlain hBlock hNot _

def slotCfis (slot : Slot) : BitVec 64 :=
  paddrGuest2host (le64toh (s.mem.load64 (s.cmdHdr slot + 8)))

/-- A FIS that has no command, which may be for a software reset. -/
def controlFis (slot : Slot) (cfis : BitVec 64) : Except Fault Port := do
  let s ← (if s.cfisByte cfis 15 &&& 0x04 ≠ 0 then .ok { s with p.reset := true }
    else if s.p.reset then { s with p.reset := false }.ahciPortReset
    else .ok s)
  .ok { s with p.ci := s.p.ci &&& ~~~bit slot }

def ahciHandleSlot (slot : Slot) : Except Fault Port := do
  assertThat (s.p.attached = true) .nullSc
  let cfis := s.slotCfis slot
  let c := s.cfisByte cfis
  if c 0 ≠ FIS_TYPE_REGH2D then .ok s
  else if c 1 &&& 0x80 ≠ 0 then s.ahciHandleCmd slot cfis
  else s.controlFis slot cfis

def waiting : BitVec 32 := s.p.ci &&& ~~~s.p.pending

def setCcs : Port :=
  { s with p.cmd := s.p.cmd &&& ~~~AHCI_P_CMD_CCS_MASK |||
    BitVec.ofNat 32 s.p.ccs <<< AHCI_P_CMD_CCS_SHIFT }

def currentSlot : Except Fault Port :=
  if s.waiting &&& bit s.p.ccs ≠ 0 then s.setCcs.ahciHandleSlot s.p.ccs else .ok s

/-- One round of the loop of `ahci_handle_port`, if there is one. -/
def portRound : Except Fault (Option Port) :=
  if s.waiting = 0 ∨ s.p.tfd &&& (ATA_S_BUSY ||| ATA_S_DRQ) ≠ 0 ∨ s.p.waitforclear then .ok none
  else do
    let s ← s.currentSlot
    .ok (some { s with p.ccs := s.p.ccs + 1 })

def ahciHandlePort (fuel : Nat) : Except Fault Port :=
  if s.p.cmd &&& AHCI_P_CMD_ST = 0 then .ok s else whileSome .portLoop portRound fuel s

def lockMtx : Port := { s with sc.mtx := s.sc.mtx.pthreadMutexLock }

def unlockMtx : Port := { s with sc.mtx := s.sc.mtx.pthreadMutexUnlock }

/-- A request goes back to the free list, and the guest learns how far the command is. -/
def comeBack (aior : IoreqId) (err : Nat) : Port :=
  let io := s.p.ioreq aior
  let t := { s with p.iobhd := s.p.iobhd.erase aior, p.iofhd := s.p.iofhd ++ [aior] }.log
    (.served io.slot (decide (¬(err = 0 ∧ io.more))))
  if err = 0 then t.setPrdbc io.slot io.done else t

def carryOn (fuel : Nat) (dsm : Bool) (io : AhciIoreq) : Except Fault Port :=
  if dsm then do
    let (due, s) ← s.ahciHandleDsmTrim io.slot io.cfis io.done
    if due then s.ahciHandlePort fuel else .ok s
  else s.ahciHandleRw io.slot io.cfis io.done

def finishCmd (fuel : Nat) (ncq : Bool) (io : AhciIoreq) (tfd : BitVec 32) : Except Fault Port := do
  let s ← (if ncq then s.ahciWriteFisSdb io.slot io.cfis tfd
    else s.ahciWriteFisD2h io.slot io.cfis tfd)
  { s with p.pending := s.p.pending &&& ~~~bit io.slot }.ahciCheckStopped.ahciHandlePort fuel

/-- The callback of the requests of a disk. -/
def ataIoreqCb (fuel : Nat) (aior : IoreqId) (err : Nat) : Except Fault Port := do
  let io := s.p.ioreq aior
  let cmd := s.cfisByte io.cfis 2
  let ncq := cmd ∈ rwCmdsQueued ∨ cmd = ATA_SEND_FPDMA_QUEUED
  let dsm := cmd = ATA_DATA_SET_MANAGEMENT ∨
    cmd = ATA_SEND_FPDMA_QUEUED ∧ s.cfisByte io.cfis 13 &&& 0x1f = ATA_SFPDMA_DSM
  let s := s.lockMtx.comeBack aior err
  let s ← (if err = 0 ∧ io.more then s.carryOn fuel dsm io
    else s.finishCmd fuel ncq io (if err = 0 then tfdDone else tfdAborted))
  .ok s.unlockMtx

def client (fuel : Nat) : Client IoreqId Port where
  get s := ⟨s.p.bctx, s.p.ioReq, s.mem⟩
  put d s := { s with p.bctx := d.bc, p.ioReq := d.req, mem := d.mem }
  callback aior err s := s.ataIoreqCb fuel aior err
  get_put _ _ := rfl

end Dispatch

end Port

end DeviceModel.PciAhci

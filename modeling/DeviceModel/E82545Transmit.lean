import DeviceModel.E82545

/-!
# The e1000 network device: transmission

`e82545_transmit`, `e82545_tx_run` and `e82545_tx_poll` of `bhyve/pci_e82545.c`. A
vector points into guest memory or is the copy of the header, which only ever is
the first one. `e82545_tx_run` starts no packet on a ring of less than four
descriptors, so `dsize` is positive. Traps on misaligned halfwords are left aside.
-/

set_option autoImplicit false

namespace DeviceModel.E82545

open Fallible

def E1000_TXD_CMD_EOP : BitVec 32 := 0x01000000
def E1000_TXD_CMD_IFCS : BitVec 32 := 0x02000000
def E1000_TXD_CMD_IC : BitVec 32 := 0x04000000
def E1000_TXD_CMD_RS : BitVec 32 := 0x08000000
def E1000_TXD_CMD_DEXT : BitVec 32 := 0x20000000
def E1000_TXD_CMD_VLE : BitVec 32 := 0x40000000
def E1000_TXD_CMD_TCP : BitVec 32 := 0x01000000
def E1000_TXD_CMD_IP : BitVec 32 := 0x02000000
def E1000_TXD_CMD_TSE : BitVec 32 := 0x04000000
def E1000_TXD_STAT_DD : BitVec 32 := 0x00000001
def E1000_TXD_POPTS_IXSM : BitVec 8 := 0x01
def E1000_TXD_POPTS_TXSM : BitVec 8 := 0x02
def E1000_TXD_MASK : BitVec 32 := E1000_TXD_CMD_DEXT ||| 0x00F00000
def E1000_TXD_TYP_L : BitVec 32 := 0
def E1000_TXD_TYP_C : BitVec 32 := E1000_TXD_CMD_DEXT
def E1000_TXD_TYP_D : BitVec 32 := E1000_TXD_CMD_DEXT ||| 0x00100000
def E1000_ICR_TXDW : BitVec 32 := 0x00000001
def E1000_ICR_TXQE : BitVec 32 := 0x00000002
def I82545_MAX_TXSEGS : Nat := 64
def INT_MAX : Int := 0x7fffffff

/-- An `int` stored in a `size_t`. -/
def sizeT (len : Int) : Nat := (len % 2 ^ 64).toNat

/-- The vectors of the next `left` bytes, and what remains; a vector that is used up goes. -/
def splitVecs : Nat → List Iovec → List Iovec × List Iovec
  | 0, vs => ([], vs)
  | _ + 1, [] => ([], [])
  | left + 1, v :: vs =>
    if left + 1 < v.iovLen then
      ([⟨v.iovBase, left + 1⟩],
        ⟨v.iovBase + BitVec.ofNat 64 (left + 1), v.iovLen - (left + 1)⟩ :: vs)
    else
      let (now, rest) := splitVecs (left + 1 - v.iovLen) vs
      (v :: now, rest)

section Checksum

def e82545Carry (sum : BitVec 32) : BitVec 16 :=
  let sum := (sum &&& 0xFFFF) + (sum >>> 16)
  (if sum > 0xFFFF then sum - 0xFFFF else sum).setWidth 16

/-- The sum of the pairs of bytes; a single last byte is the high one of its pair. -/
def bufSum : List (BitVec 8) → BitVec 32
  | [] => 0
  | [a] => (a ++ (0 : BitVec 8)).setWidth 32
  | a :: b :: buf => (a ++ b).setWidth 32 + bufSum buf

def e82545BufChecksum (buf : List (BitVec 8)) : BitVec 16 := e82545Carry (bufSum buf)

def skipVecs : List (List (BitVec 8)) → Nat → List (List (BitVec 8)) × Nat
  | [], off => ([], off)
  | v :: vs, off => if v.length ≤ off ∧ 0 < off then skipVecs vs (off - v.length) else (v :: vs, off)

def sumVecs : List (List (BitVec 8)) → (off : Nat) → (len : Int) → (odd : Bool) →
    (sum : BitVec 32) → BitVec 32
  | [], _, _, _, sum => sum
  | v :: vs, off, len, odd, sum =>
    if len ≤ 0 then sum
    else
      let now := min len.toNat (v.length - off)
      let s := (e82545BufChecksum ((v.drop off).take now)).setWidth 32
      sumVecs vs 0 (len - now) (odd ^^ decide (now % 2 = 1)) (sum + if odd then s <<< 8 else s)

def e82545IovChecksum (iov : List (List (BitVec 8))) (off : Nat) (len : Int) : BitVec 16 :=
  let (iov, off) := skipVecs iov off
  e82545Carry (sumVecs iov off len false 0)

end Checksum

section Header

variable (hdr : List (BitVec 8))

def hdrLoad16 (off : Nat) : Except Fault (BitVec 16) := do
  assertThat (off + 2 ≤ hdr.length) .headerCopy
  pure (hdr.getD off 0 ++ hdr.getD (off + 1) 0)

def hdrLoad32 (off : Nat) : Except Fault (BitVec 32) := do
  assertThat (off + 4 ≤ hdr.length) .headerCopy
  pure (hdr.getD off 0 ++ hdr.getD (off + 1) 0 ++ hdr.getD (off + 2) 0 ++ hdr.getD (off + 3) 0)

def hdrStore16 (off : Nat) (x : BitVec 16) : Except Fault (List (BitVec 8)) := do
  assertThat (off + 2 ≤ hdr.length) .headerCopy
  pure ((hdr.set off (x.extractLsb' 8 8)).set (off + 1) (x.extractLsb' 0 8))

def hdrStore32 (off : Nat) (x : BitVec 32) : Except Fault (List (BitVec 8)) := do
  assertThat (off + 4 ≤ hdr.length) .headerCopy
  let hdr ← hdrStore16 hdr off (x.extractLsb' 16 16)
  hdrStore16 hdr (off + 2) (x.extractLsb' 0 16)

/-- `hdr[off] &= mask` -/
def hdrAnd8 (off : Nat) (mask : BitVec 8) : Except Fault (List (BitVec 8)) := do
  assertThat (off < hdr.length) .headerCopy
  pure (hdr.set off (hdr.getD off 0 &&& mask))

end Header

structure CkInfo where
  ckValid : Bool
  ckStart : BitVec 8
  ckOff : BitVec 8
  ckLen : BitVec 16
deriving DecidableEq

/-- `hdr` is the first vector, `iov` are the others. -/
def e82545TransmitChecksum (m : Memory) (hdr : List (BitVec 8)) (iov : List Iovec) (ck : CkInfo) :
    Except Fault (List (BitVec 8)) :=
  let cklen : Int := if ck.ckLen ≠ 0 then ck.ckLen.toNat - ck.ckStart.toNat + 1 else INT_MAX
  let cksum := e82545IovChecksum (hdr :: iov.map (·.load m)) ck.ckStart.toNat cklen
  hdrStore16 hdr ck.ckOff.toNat (~~~cksum)

namespace TxDesc

variable (dsc : TxDesc)

def lowerData : BitVec 32 := le32toh dsc.lower

def flagsLength : BitVec 16 := le16toh (dsc.lower.extractLsb' 16 16)

def flagsCso : BitVec 8 := dsc.lower.extractLsb' 8 8

def fieldsCss : BitVec 8 := dsc.upper.extractLsb' 16 8

def fieldsPopts : BitVec 8 := dsc.upper.extractLsb' 16 8

def fieldsSpecial : BitVec 16 := le16toh (dsc.upper.extractLsb' 0 16)

def ipcss : BitVec 8 := dsc.addr.extractLsb' 56 8

def ipcso : BitVec 8 := dsc.addr.extractLsb' 48 8

def ipcse : BitVec 16 := le16toh (dsc.addr.extractLsb' 32 16)

def tucss : BitVec 8 := dsc.addr.extractLsb' 24 8

def tucso : BitVec 8 := dsc.addr.extractLsb' 16 8

def tucse : BitVec 16 := le16toh (dsc.addr.extractLsb' 0 16)

def cmdAndLength : BitVec 32 := le32toh dsc.lower

def hdrLen : BitVec 8 := dsc.upper.extractLsb' 16 8

def mss : BitVec 16 := le16toh (dsc.upper.extractLsb' 0 16)

def cmd (bit : BitVec 32) : Bool := dsc.lowerData &&& bit ≠ 0

/-- `e82545_txdesc_type` -/
def type : BitVec 32 :=
  if dsc.cmd E1000_TXD_CMD_DEXT then dsc.lowerData &&& E1000_TXD_MASK else 0

def bufLen : Nat :=
  if dsc.type = E1000_TXD_TYP_L then dsc.flagsLength.toNat else (dsc.lowerData &&& 0xFFFFF).toNat

end TxDesc

/-- `&sc->esc_txdesc[head]` -/
def txdescAt (txdesc : BitVec 64) (head : Nat) : BitVec 64 := txdesc + BitVec.ofNat 64 (16 * head)

def loadTxdesc (m : Memory) (txdesc : BitVec 64) (head : Nat) : TxDesc :=
  let a := txdescAt txdesc head
  ⟨m.load64 a, m.load32 (a + 8), m.load32 (a + 12)⟩

/-- The locals of the descriptor loop. `iovcnt` counts the vectors beyond the first 64, too. -/
structure Packet where
  desc : Nat
  head : Nat
  ntype : BitVec 32
  iov : List Iovec
  iovcnt : Nat
  ck0 : CkInfo
  ck1 : CkInfo
  tso : Bool

namespace Packet

variable (p : Packet)

def first (dsc : TxDesc) : Packet :=
  if dsc.type = E1000_TXD_TYP_L then
    { p with ntype := dsc.type, ck0 := { p.ck0 with ckStart := dsc.fieldsCss } }
  else if dsc.type = E1000_TXD_TYP_D then { p with ntype := dsc.type }
  else p

/-- Take the buffer of a descriptor in, less the checksum the guest supplied. -/
def addVec (dsc : TxDesc) : Packet :=
  if dsc.bufLen = 0 then p
  else
    let len : Int :=
      if dsc.cmd E1000_TXD_CMD_EOP ∧ dsc.cmd E1000_TXD_CMD_IFCS = false then dsc.bufLen - 2
      else dsc.bufLen
    let v : Iovec := ⟨paddrGuest2host (le64toh dsc.addr), sizeT len⟩
    { p with
      iov := if p.iovcnt < I82545_MAX_TXSEGS then p.iov ++ [v] else p.iov
      iovcnt := p.iovcnt + 1 }

/-- Pull out the info that is valid in the final descriptor. -/
def final (cd dsc : TxDesc) : Packet :=
  if dsc.type = E1000_TXD_TYP_L then
    if dsc.cmd E1000_TXD_CMD_IC then
      { p with ck0 := { p.ck0 with ckValid := true, ckOff := dsc.flagsCso, ckLen := 0 } }
    else p
  else
    let tso := p.tso || dsc.cmd E1000_TXD_CMD_TSE
    let ixsm : Bool := dsc.fieldsPopts &&& E1000_TXD_POPTS_IXSM ≠ 0
    let txsm : Bool := dsc.fieldsPopts &&& E1000_TXD_POPTS_TXSM ≠ 0
    { p with
      tso
      ck0 := if ixsm ∨ tso then ⟨p.ck0.ckValid || ixsm, cd.ipcss, cd.ipcso, cd.ipcse⟩ else p.ck0
      ck1 := if txsm ∨ tso then ⟨p.ck1.ckValid || txsm, cd.tucss, cd.tucso, cd.tucse⟩ else p.ck1 }

end Packet

inductive Scan where
  /-- `head` reaches `tail` before a packet is complete. -/
  | incomplete (head : Nat)
  | context (cd : TxDesc) (head : Nat)
  | packet (p : Packet) (dsc : TxDesc)

section Transmit

variable (m : Memory) (tx : Tx) (tail dsize : Nat)

/-- The descriptor loop. It reads memory only, so that once it has gone round the ring without
finding an end it goes round for ever. -/
def scanDescs : Nat → Packet → Except Fault Scan
  | 0, _ => .error .txdescLoop
  | fuel + 1, p =>
    if p.head = tail then .ok (.incomplete p.head)
    else
      let dsc := loadTxdesc m tx.txdesc p.head
      if p.desc = 0 ∧ dsc.type = E1000_TXD_TYP_C then .ok (.context dsc p.head)
      else do
        let p := if p.desc = 0 then p.first dsc else p
        assertThat (p.desc = 0 ∨ dsc.type = p.ntype) .txdescType
        let p := p.addVec dsc
        if dsc.cmd E1000_TXD_CMD_EOP then pure (.packet (p.final tx.txctx dsc) dsc)
        else scanDescs fuel { p with desc := p.desc + 1, head := (p.head + 1) % dsize }

def e82545TransmitDone : Nat → Nat → Nat → Memory × Bool → Memory × Bool
  | 0, _, _, x => x
  | fuel + 1, head, stop, (m, tdwb) =>
    if head = stop then (m, tdwb)
    else
      let dsc := loadTxdesc m tx.txdesc head
      let x :=
        if dsc.cmd E1000_TXD_CMD_RS then
          (m.store32 (txdescAt tx.txdesc head + 12) (dsc.upper ||| htole32 E1000_TXD_STAT_DD), true)
        else (m, tdwb)
      e82545TransmitDone fuel ((head + 1) % dsize) stop x

/-- The writable space that VLAN tag and checksums ask for. -/
def headerLen (p : Packet) (vlan : Bool) (ctx : TxDesc) : Nat :=
  if p.tso then ctx.hdrLen.toNat
  else
    let hdrlen := if vlan then 12 else 0
    let hdrlen := if p.ck0.ckValid then max hdrlen (p.ck0.ckOff.toNat + 2) else hdrlen
    let hdrlen := if p.ck1.ckValid then max hdrlen (p.ck1.ckOff.toNat + 2) else hdrlen
    let len0 := (p.iov.head?.map (·.iovLen)).getD 0
    if hdrlen ≠ 0 ∧ hdrlen < len0 ∧ len0 < hdrlen + 100 then len0 else hdrlen

/-- The writable copy of the header, `none` if no space is needed, and the vectors behind it. -/
def gatherHeader (hdrlen : Nat) (iov : List Iovec) :
    Except Fault (Option (List (BitVec 8)) × List Iovec) :=
  if hdrlen = 0 then .ok (none, iov)
  else do
    assertThat (hdrlen ≤ (iov.map (·.iovLen)).sum) .headerGather
    let (now, rest) := splitVecs hdrlen iov
    pure (some (now.flatMap (·.load m)), rest)

def insertVlan (vlan : Bool) (vet : BitVec 32) (special : BitVec 16)
    (hdr : Option (List (BitVec 8))) : Except Fault (Option (List (BitVec 8))) :=
  if vlan then do
    let hdr := hdr.getD []
    assertThat (12 ≤ hdr.length) .headerCopy
    pure (some (hdr.take 12 ++ [vet.extractLsb' 8 8, vet.extractLsb' 0 8, special.extractLsb' 8 8,
      special.extractLsb' 0 8] ++ hdr.drop 12))
  else .ok hdr

def CkInfo.shift (ck : CkInfo) : CkInfo :=
  { ck with
    ckStart := ck.ckStart + 4
    ckOff := ck.ckOff + 4
    ckLen := if ck.ckLen ≠ 0 then ck.ckLen + 4 else 0 }

/-- The locals of the segmentation loop that one round hands to the next. -/
structure Segments where
  seg : Nat
  left : Nat
  hdr : List (BitVec 8)
  iov : List Iovec
  frames : List (List (List (BitVec 8)))

structure TsoInfo where
  ctx : TxDesc
  ck0 : CkInfo
  ck1 : CkInfo
  ipid : BitVec 16
  tcpseq : BitVec 32
  ipcs : BitVec 16
  tcpcs : BitVec 16

namespace TsoInfo

variable (t : TsoInfo)

def paylen : Nat := (t.ctx.cmdAndLength &&& 0x000fffff).toNat

def tcp : Bool := t.ctx.cmdAndLength &&& E1000_TXD_CMD_TCP ≠ 0

def updateIp (seg now : Nat) (hdr : List (BitVec 8)) : Except Fault (List (BitVec 8)) :=
  let start := t.ck0.ckStart.toNat
  let len : Int := hdr.length - start + now
  if t.ctx.cmdAndLength &&& E1000_TXD_CMD_IP ≠ 0 then do
    let hdr ← hdrStore16 hdr (start + 2) (BitVec.ofInt 16 len)
    hdrStore16 hdr (start + 4) (t.ipid + BitVec.ofNat 16 seg)
  else hdrStore16 hdr (start + 4) (BitVec.ofInt 16 (len - 40))

def updateTcp (left now : Nat) (hdr : List (BitVec 8)) : Except Fault (List (BitVec 8)) :=
  let start := t.ck1.ckStart.toNat
  if t.tcp then do
    let hdr ← hdrStore32 hdr (start + 4) (t.tcpseq + BitVec.ofNat 32 t.paylen - BitVec.ofNat 32 left)
    if now < left then hdrAnd8 hdr (start + 13) (~~~0x09) else pure hdr
  else hdrStore32 hdr (start + 4) (BitVec.ofInt 32 (hdr.length - start + now))

/-- Restore the checksum field to `seed`, and calculate the checksum. -/
def seededChecksum (hdr : List (BitVec 8)) (vecs : List Iovec) (ck : CkInfo) (seed : BitVec 16) :
    Except Fault (List (BitVec 8)) :=
  if ck.ckValid then do
    let hdr ← hdrStore16 hdr ck.ckOff.toNat seed
    e82545TransmitChecksum m hdr vecs ck
  else .ok hdr

def segment (s : Segments) : Except Fault Segments := do
  let now := min s.left t.ctx.mss.toNat
  let (vecs, rest) := splitVecs now s.iov
  let hdr ← t.updateIp s.seg now s.hdr
  let len : Int := hdr.length - t.ck1.ckStart.toNat + now
  let tcpsum := t.tcpcs.setWidth 32 + (BitVec.ofInt 16 len).setWidth 32
  let hdr ← t.updateTcp s.left now hdr
  let hdr ← seededChecksum m hdr vecs t.ck0 t.ipcs
  let hdr ← seededChecksum m hdr vecs t.ck1 (e82545Carry tcpsum)
  pure ⟨s.seg + 1, s.left - now, hdr, rest, s.frames ++ [hdr :: vecs.map (·.load m)]⟩

/-- The segmentation loop: `left` either falls in every round or, with `mss` zero, in none. -/
def segments : Nat → Segments → Except Fault Segments
  | 0, s => if s.left = 0 then .ok s else .error .segmentLoop
  | fuel + 1, s =>
    if s.left = 0 then .ok s
    else do
      let s ← t.segment m s
      segments fuel s

end TsoInfo

def transmitTso (ctx : TxDesc) (ck0 ck1 : CkInfo) (hdr : List (BitVec 8)) (iov : List Iovec) :
    Except Fault (List (List (List (BitVec 8)))) := do
  let ipid ← hdrLoad16 hdr (ck0.ckStart.toNat + 4)
  let tcpseq ← hdrLoad32 hdr (ck1.ckStart.toNat + 4)
  let ipcs ← hdrLoad16 hdr ck0.ckOff.toNat
  let tcpcs ← (if ck1.ckValid then hdrLoad16 hdr ck1.ckOff.toNat else .ok 0)
  let t : TsoInfo := ⟨ctx, ck0, ck1, ipid, tcpseq, ipcs, tcpcs⟩
  let s ← t.segments m t.paylen ⟨0, t.paylen, hdr, iov, []⟩
  pure s.frames

def transmitPlain (ck0 ck1 : CkInfo) (hdr : Option (List (BitVec 8))) (iov : List Iovec) :
    Except Fault (List (List (List (BitVec 8)))) :=
  match hdr with
  | none => .ok [iov.map (·.load m)]
  | some hdr => do
    let hdr ← (if ck0.ckValid then e82545TransmitChecksum m hdr iov ck0 else .ok hdr)
    let hdr ← (if ck1.ckValid then e82545TransmitChecksum m hdr iov ck1 else .ok hdr)
    pure [hdr :: iov.map (·.load m)]

/-- The frames that a complete packet is sent as, each the contents of its vectors. -/
def transmitPacket (general : General) (p : Packet) (dsc : TxDesc) :
    Except Fault (List (List (List (BitVec 8)))) :=
  if I82545_MAX_TXSEGS < p.iovcnt then .ok []
  else do
    let vlan : Bool := general.ctrl &&& E1000_CTRL_VME ≠ 0 ∧ dsc.cmd E1000_TXD_CMD_VLE
    let (hdr, iov) ← gatherHeader m (headerLen p vlan tx.txctx) p.iov
    let hdr ← insertVlan vlan general.vet dsc.fieldsSpecial hdr
    let ck0 := if vlan then p.ck0.shift else p.ck0
    let ck1 := if vlan then p.ck1.shift else p.ck1
    if p.tso then transmitTso m tx.txctx ck0 ck1 (hdr.getD []) iov
    else transmitPlain m ck0 ck1 hdr iov

/-- What `e82545_transmit` returns and leaves: `sent` is the return value. -/
structure Transmitted where
  sent : Nat
  rhead : Nat
  tdwb : Bool
  txctx : TxDesc
  mem : Memory
  frames : List (List (List (BitVec 8)))

def e82545Transmit (general : General) (head : Nat) (tdwb : Bool) : Except Fault Transmitted := do
  let none : CkInfo := ⟨false, 0, 0, 0⟩
  let done (desc head' : Nat) (txctx : TxDesc) (frames : List (List (List (BitVec 8)))) :=
    let rhead := (head' + 1) % dsize
    let (mem, tdwb) := e82545TransmitDone tx dsize (dsize + 1) head rhead (m, tdwb)
    (⟨desc + 1, rhead, tdwb, txctx, mem, frames⟩ : Transmitted)
  match ← scanDescs m tx tail dsize (dsize + 1) ⟨0, head, 0, [], 0, none, none, false⟩ with
  | .incomplete head => pure ⟨0, head, tdwb, tx.txctx, m, []⟩
  | .context cd head => pure (done 0 head cd [])
  | .packet p dsc => do
    let frames ← transmitPacket m tx general p dsc
    pure (done p.desc p.head tx.txctx frames)

end Transmit

/-- `fifo_process_tx` and `fifo_process_rx` over the state of the driver; the result of the first
is not looked at. -/
structure Fifo (φ : Type) where
  processTx : φ → List (List (BitVec 8)) → φ
  processRx : φ → Memory → List Iovec → Int × φ × Memory

structure E1000 (φ : Type) where
  sc : Softc
  mem : Memory
  fifo : φ

section Run

variable {φ : Type} (F : Fifo φ)

structure TxRun (φ : Type) where
  lim : Nat
  head : Nat
  rhead : Nat
  tdwb : Bool
  txctx : TxDesc
  mem : Memory
  fifo : φ

/-- The loop of `e82545_tx_run`: every packet that is sent takes at least one from `lim`. -/
def txRunLoop (general : General) (tx : Tx) (tail size : Nat) :
    Nat → TxRun φ → Except Fault (TxRun φ)
  | 0, r => .ok r
  | fuel + 1, r =>
    if tx.txEnabled = false ∨ r.lim = 0 then .ok r
    else do
      let t ← e82545Transmit r.mem { tx with txctx := r.txctx } tail size general r.head r.tdwb
      let r := { r with
        rhead := t.rhead, tdwb := t.tdwb, txctx := t.txctx, mem := t.mem
        fifo := t.frames.foldl F.processTx r.fifo }
      if t.sent = 0 then pure r
      else txRunLoop general tx tail size fuel { r with lim := r.lim - t.sent, head := t.rhead }

def e82545TxRun (s : E1000 φ) : Except Fault (E1000 φ) := do
  let tx := s.sc.tx
  let size := (tx.tdlen / 16).toNat
  let head := tx.tdh.toNat
  let r ← txRunLoop F s.sc.general tx tx.tdt.toNat size (size / 4)
    ⟨size / 4, head, head, false, tx.txctx, s.mem, s.fifo⟩
  let tdh := BitVec.ofNat 16 r.head
  let cause := (if r.tdwb then E1000_ICR_TXDW else 0) |||
    (if r.lim ≠ size / 4 ∧ tdh = tx.tdt then E1000_ICR_TXQE else 0)
  let intr ← (if cause ≠ 0 then s.sc.intr.e82545IcrAssert cause else .ok s.sc.intr)
  let tx := { tx with txctx := r.txctx, tdh, tdhr := BitVec.ofNat 16 r.rhead }
  pure ⟨{ s.sc with intr, tx }, r.mem, r.fifo⟩

/-- The condition on which `e82545_tx_poll` calls `e82545_tx_run`. -/
def Tx.HasWork (tx : Tx) : Prop := tx.txEnabled = true ∧ tx.tdhr ≠ tx.tdt

instance (tx : Tx) : Decidable tx.HasWork := inferInstanceAs (Decidable (_ ∧ _))

def e82545TxPoll (s : E1000 φ) : Except Fault (E1000 φ) :=
  if s.sc.tx.HasWork then e82545TxRun F { s with sc := { s.sc with tx.txActive := true } }
  else .ok { s with sc := { s.sc with tx.txActive := false } }

end Run

end DeviceModel.E82545

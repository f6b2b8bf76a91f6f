import DeviceModel.BhyveSupport
import DeviceModel.Lib.HandOff
import DeviceModel.EmulPci

/-!
# One emulated mSGDMA unit

`src/emul_msgdma.c`: the register handlers and `emul_msgdma_poll`. Descriptors do
not overlap, so memory is a map from their addresses to their fields and one from
addresses to the bytes of buffers. The FIFO driver is a parameter that touches no
byte outside the buffer it is given.
-/

set_option autoImplicit false

namespace DeviceModel.Msgdma

open Bytes EmulPci

abbrev Ptr := BitVec 64

def CONTROL_OWN : BitVec 32 := 1 <<< 30
def CONTROL_GIEM : BitVec 32 := 1 <<< 4
def CONTROL_RESET : BitVec 64 := 1 <<< 1
def DMA_STATUS : BitVec 64 := 0x00
def DMA_CONTROL : BitVec 64 := 0x04
def PF_CONTROL : BitVec 64 := 0x00
def PF_NEXT_LO : BitVec 64 := 0x04
def PF_NEXT_HI : BitVec 64 := 0x08
def PF_POLL_FREQ : BitVec 64 := 0x0C
def PF_STATUS : BitVec 64 := 0x10
def DM_MSGDMA0_INTR : Nat := 18
def DM_MSGDMA1_INTR : Nat := 17

/-- `struct msgdma_desc`, the fields as they lie in memory. -/
structure MsgdmaDesc where
  readLo : BitVec 32
  writeLo : BitVec 32
  length : BitVec 32
  next : BitVec 32
  transferred : BitVec 32
  control : BitVec 32
  readHi : BitVec 32
  writeHi : BitVec 32
deriving DecidableEq

structure Iovec where
  iovBase : Ptr
  iovLen : Nat
deriving DecidableEq

def Iovec.Covers (iov : Iovec) (a : Ptr) : Prop := (a - iov.iovBase).toNat < iov.iovLen

/-- `fifo_process_tx` and `fifo_process_rx` with one vector, over the state of the driver. -/
structure Fifo (φ : Type) where
  processTx : φ → (Ptr → BitVec 8) → Iovec → Int × φ
  processRx : φ → (Ptr → BitVec 8) → Iovec → Int × φ × (Ptr → BitVec 8)
  rx_frame : ∀ fifo buf iov a, ¬ iov.Covers a → (processRx fifo buf iov).2.2 a = buf a

structure MsgdmaCsr where
  dmaStatus : BitVec 32
  dmaControl : BitVec 32
deriving DecidableEq

structure MsgdmaPf where
  pfControl : BitVec 32
  pfNextLo : BitVec 32
  pfNextHi : BitVec 32
  pfPollFreq : BitVec 32
  pfStatus : BitVec 32
deriving DecidableEq

structure MsgdmaSoftc where
  csr : MsgdmaCsr
  pf : MsgdmaPf
  pollEn : Bool
  unit : Nat
  curDesc : Ptr
deriving DecidableEq

structure System (φ : Type) where
  sc : MsgdmaSoftc
  desc : Ptr → MsgdmaDesc
  buf : Ptr → BitVec 8
  fifo : φ

namespace MsgdmaDesc

variable (desc : MsgdmaDesc)

def Owned : Prop := le32toh desc.control &&& CONTROL_OWN ≠ 0

instance : Decidable desc.Owned := inferInstanceAs (Decidable (_ ≠ _))

def emulMsgdmaNextDesc : Ptr := (le32toh desc.next).setWidth 64 ||| MIPS_XKPHYS_UNCACHED_BASE

/-- The vector a transaction is made on. `dmIommu` is the build option that brings extended
descriptors and keeps addresses as they are. -/
def iov (dmIommu : Bool) (unit : Nat) : Iovec :=
  let lo := le32toh (if unit = 0 then desc.readLo else desc.writeLo)
  let hi := le32toh (if unit = 0 then desc.readHi else desc.writeHi)
  let base := if dmIommu then lo.setWidth 64 ||| hi.setWidth 64 <<< 32 else lo.setWidth 64
  ⟨if dmIommu then base else base ||| MIPS_XKPHYS_UNCACHED_BASE, (le32toh desc.length).toNat⟩

def complete (processed : Int) : MsgdmaDesc :=
  { desc with
    transferred := htole32 (BitVec.ofInt 32 processed)
    control := htole32 (le32toh desc.control &&& ~~~CONTROL_OWN) }

end MsgdmaDesc

/-- A call of the FIFO driver: the descriptor with the contents it had, the vector, the result. -/
structure Transaction where
  at_ : Ptr
  desc : MsgdmaDesc
  iov : Iovec
  processed : Int
deriving DecidableEq

section Poll

variable {φ : Type} (F : Fifo φ) (dmIommu : Bool)

def fifoProcess (s : System φ) (iov : Iovec) : Int × φ × (Ptr → BitVec 8) :=
  if s.sc.unit = 0 then
    let (processed, fifo) := F.processTx s.fifo s.buf iov
    (processed, fifo, s.buf)
  else F.processRx s.fifo s.buf iov

/-- The number of the soft interrupt that `send_soft_irq` sets, if it sets one. -/
def sendSoftIrq (sc : MsgdmaSoftc) : Option Nat :=
  if sc.csr.dmaControl &&& CONTROL_GIEM = 0 then none
  else some (if sc.unit = 1 then DM_MSGDMA1_INTR else DM_MSGDMA0_INTR)

def transaction (s : System φ) : Transaction :=
  let desc := s.desc s.sc.curDesc
  let iov := desc.iov dmIommu s.sc.unit
  ⟨s.sc.curDesc, desc, iov, (fifoProcess F s iov).1⟩

def processed (s : System φ) : System φ :=
  let r := fifoProcess F s (transaction F dmIommu s).iov
  { s with fifo := r.2.1, buf := r.2.2 }

/-- The state after the bookkeeping of a transaction that succeeded. -/
def advance (s : System φ) (tx : Transaction) : System φ :=
  let desc := tx.desc.complete tx.processed
  { s with
    desc := Function.update s.desc tx.at_ desc
    sc := { s.sc with curDesc := desc.emulMsgdmaNextDesc } }

/-- The loop of `emul_msgdma_poll`, `none` while it has not come to its end. -/
def pollLoop : Nat → System φ → Option (List Transaction × System φ)
  | 0, _ => none
  | fuel + 1, s =>
    if ¬ (s.desc s.sc.curDesc).Owned then some ([], s)
    else
      let tx := transaction F dmIommu s
      let s := processed F dmIommu s
      if tx.processed ≤ 0 then some ([tx], s)
      else
        let s := advance s tx
        if s.sc.curDesc = 0 then some ([tx], s)
        else (pollLoop fuel s).map fun r => (tx :: r.1, r.2)

/-- What a poll does besides changing the state: its transactions, and the interrupt it raises. -/
structure Polled where
  txs : List Transaction
  irq : Option Nat
deriving DecidableEq

def emulMsgdmaPoll (fuel : Nat) (s : System φ) : Option (Polled × System φ) :=
  if s.sc.pollEn = false then some (⟨[], none⟩, s)
  else (pollLoop F dmIommu fuel s).map fun r =>
    (⟨r.1, if r.1.countP (fun tx => 0 < tx.processed) > 0 then sendSoftIrq r.2.sc else none⟩, r.2)

end Poll

section Registers

variable (sc : MsgdmaSoftc)

/-- The head from which a non-zero poll frequency lets polling start, `none` for -1. -/
def pollEnableHead (pf : MsgdmaPf) : Option Ptr :=
  if pf.pfNextLo = 0 then none else some (pf.pfNextLo.setWidth 64 ||| MIPS_XKPHYS_UNCACHED_BASE)

/-- Interrupts and callbacks of the FIFO driver are left aside. -/
def emulMsgdmaPollEnable : MsgdmaSoftc :=
  match pollEnableHead sc.pf with
  | none => sc
  | some head => { sc with curDesc := head, pollEn := true }

def csrW (offset val : BitVec 64) : MsgdmaSoftc :=
  if offset = DMA_STATUS then { sc with csr := { sc.csr with dmaStatus := val.setWidth 32 } }
  else if offset = DMA_CONTROL then
    if val &&& CONTROL_RESET ≠ 0 then { sc with csr := ⟨0, 0⟩ }
    else { sc with csr := { sc.csr with dmaControl := val.setWidth 32 } }
  else sc

def pfW (offset val : BitVec 64) : MsgdmaSoftc :=
  if offset = PF_CONTROL then { sc with pf := { sc.pf with pfControl := val.setWidth 32 } }
  else if offset = PF_NEXT_LO then { sc with pf := { sc.pf with pfNextLo := val.setWidth 32 } }
  else if offset = PF_NEXT_HI then { sc with pf := { sc.pf with pfNextHi := val.setWidth 32 } }
  else if offset = PF_POLL_FREQ then
    let sc := { sc with pf := { sc.pf with pfPollFreq := val.setWidth 32 } }
    if val ≠ 0 then emulMsgdmaPollEnable sc else sc
  else if offset = PF_STATUS then { sc with pf := { sc.pf with pfStatus := val.setWidth 32 } }
  else sc

/-- `csr_r` and `pf_r`: the register that is copied into the request, if there is one. -/
def csrR (offset : BitVec 64) : Option (BitVec 32) :=
  if offset = DMA_STATUS then some sc.csr.dmaStatus
  else if offset = DMA_CONTROL then some sc.csr.dmaControl
  else none

def pfR (offset : BitVec 64) : Option (BitVec 32) :=
  if offset = PF_CONTROL then some sc.pf.pfControl
  else if offset = PF_NEXT_LO then some sc.pf.pfNextLo
  else if offset = PF_NEXT_HI then some sc.pf.pfNextHi
  else if offset = PF_POLL_FREQ then some sc.pf.pfPollFreq
  else if offset = PF_STATUS then some sc.pf.pfStatus
  else none

/-- The value of a request, in the byte order of the target. `junk` is what the uninitialised
local holds. -/
def loadVal (req : EpwRequest) (junk : BitVec 64) : BitVec 64 :=
  match req.dataLen with
  | 8 => req.data 0 ++ req.data 1 ++ req.data 2 ++ req.data 3 ++ req.data 4 ++ req.data 5 ++
      req.data 6 ++ req.data 7
  | 4 => (req.data 0 ++ req.data 1 ++ req.data 2 ++ req.data 3).setWidth 64
  | 2 => (req.data 0 ++ req.data 1).setWidth 64
  | 1 => (req.data 0).setWidth 64
  | _ => junk

def putWord (req : EpwRequest) (x : BitVec 32) : EpwRequest :=
  { req with data := fun i => if i < 4 then x.extractLsb' (8 * (3 - i)) 8 else req.data i }

def regOffset (elink : EmulLink) (req : EpwRequest) : BitVec 64 :=
  req.addr - elink.baseEmul - EPW_WINDOW

def emulMsgdma (elink : EmulLink) (req : EpwRequest) (junk : BitVec 64) : EpwRequest × MsgdmaSoftc :=
  let offset := regOffset elink req
  let val := loadVal req junk
  if elink.type = .msgdmaCsr then
    if req.isWrite then (req, csrW sc offset val)
    else ((csrR sc offset).elim req (putWord req), sc)
  else if req.isWrite then (req, pfW sc offset val)
  else ((pfR sc offset).elim req (putWord req), sc)

end Registers

end DeviceModel.Msgdma

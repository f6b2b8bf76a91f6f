import DeviceModel.BhyveSupport
import DeviceModel.Fault
import DeviceModel.Pthread
import Mathlib.Data.List.FinRange

/-!
# The block interface

`bhyve/block_if.c`: a queue of requests on a disk that lies in memory. The elements of the
queue are named by their index in `bc_reqs` and the queues are lists of them; a request is
named by a value of `R`, the structures of the callers, and read through `req` whenever the
source reads through the pointer. `be_tid`, `bc_cond` and `bc_closing` are never looked at,
and there is one thread, so that a wait for a busy element does not end.
-/

set_option autoImplicit false

namespace DeviceModel.BlockIf

open Fallible

def BLOCKIF_SIG : BitVec 32 := 0xb109b109
def BLOCKIF_NUMTHR : Nat := 8
def BLOCKIF_MAXREQ : Nat := 64 + BLOCKIF_NUMTHR
def BLOCKIF_IOV_MAX : Nat := 33
def OFF_MAX : BitVec 64 := 0x7fffffffffffffff
def E2BIG : Nat := 7
def EBUSY : Nat := 16
def EINVAL : Nat := 22
def EROFS : Nat := 30
def EOPNOTSUPP : Nat := 45
def DM_BASE : BitVec 64 := 0xffffffff90000000

inductive BlockOp where
  | read
  | write
  | flush
  | delete
deriving DecidableEq

inductive BlockStat where
  | free
  | block
  | pend
  | busy
  | done
deriving DecidableEq

/-- `struct blockif_req`; `brIov` are the first `br_iovcnt` vectors. -/
structure BlockifReq where
  brOffset : BitVec 64
  brResid : BitVec 64
  brIov : List Iovec
deriving DecidableEq

def iovEnd (off : BitVec 64) (iov : List Iovec) : BitVec 64 :=
  iov.foldl (fun off v => off + BitVec.ofNat 64 v.iovLen) off

abbrev ElemId := Fin BLOCKIF_MAXREQ

structure BlockifElem (R : Type) where
  beReq : Option R
  beOp : BlockOp
  beStatus : BlockStat
  beBlock : BitVec 64
deriving DecidableEq

structure BlockifCtxt (R : Type) where
  bcMagic : BitVec 32
  bcCandelete : Bool
  bcRdonly : Bool
  bcBase : BitVec 64
  bcSize : BitVec 64
  bcSectsz : Nat
  bcPsectsz : Nat
  bcPsectoff : Nat
  bcMtx : PthreadMutex
  bcFreeq : List ElemId
  bcPendq : List ElemId
  bcBusyq : List ElemId
  bcReqs : ElemId → BlockifElem R

structure Disk (R : Type) where
  bc : BlockifCtxt R
  req : R → BlockifReq
  mem : Memory

variable {R σ : Type}

def blockifOpen : BlockifCtxt R where
  bcMagic := BLOCKIF_SIG
  bcCandelete := false
  bcRdonly := false
  bcBase := DM_BASE + 0x03000000
  bcSize := 0x0d000000
  bcSectsz := 512
  bcPsectsz := 512
  bcPsectoff := 0
  bcMtx := PthreadMutex.pthreadMutexInit
  bcFreeq := (List.finRange BLOCKIF_MAXREQ).reverse
  bcPendq := []
  bcBusyq := []
  bcReqs := fun _ => ⟨none, .read, .free, 0⟩

def firstPend (reqs : ElemId → BlockifElem R) : List ElemId → Except Fault (Option ElemId)
  | [] => .ok none
  | be :: queue =>
    if (reqs be).beStatus = .pend then .ok (some be)
    else do
      assertThat ((reqs be).beStatus = .block) .dequeueStatus
      firstPend reqs queue

/-- The loop of `BOP_READ`. -/
def readVecs : BitVec 64 → List Iovec → Memory → Memory
  | _, [], m => m
  | addr, v :: iov, m =>
    readVecs (addr + BitVec.ofNat 64 v.iovLen) iov (m.copy v.iovBase addr v.iovLen)

/-- The loop of `BOP_WRITE`. -/
def writeVecs : BitVec 64 → List Iovec → Memory → Memory
  | _, [], m => m
  | addr, v :: iov, m =>
    writeVecs (addr + BitVec.ofNat 64 v.iovLen) iov (m.copy addr v.iovBase v.iovLen)

namespace Disk

variable (d : Disk R)

def lock : Disk R := { d with bc.bcMtx := d.bc.bcMtx.pthreadMutexLock }

def unlock : Disk R := { d with bc.bcMtx := d.bc.bcMtx.pthreadMutexUnlock }

/-- `be->be_req->br_offset` -/
def offset (be : ElemId) : Option (BitVec 64) :=
  (d.bc.bcReqs be).beReq.map fun r => (d.req r).brOffset

def setElem (be : ElemId) (elem : BlockifElem R) : Disk R :=
  { d with bc.bcReqs := Function.update d.bc.bcReqs be elem }

def setStatus (be : ElemId) (status : BlockStat) : Disk R :=
  d.setElem be { d.bc.bcReqs be with beStatus := status }

def blockifEnqueue (breq : R) (op : BlockOp) : Except Fault (Disk R) :=
  match d.bc.bcFreeq with
  | [] => .error .enqueueElem
  | be :: freeq => do
    assertThat ((d.bc.bcReqs be).beStatus = .free) .enqueueElem
    let off := match op with
      | .read | .write | .delete => iovEnd (d.req breq).brOffset (d.req breq).brIov
      | .flush => OFF_MAX
    let ends := fun tbe => (d.bc.bcReqs tbe).beBlock = (d.req breq).brOffset
    let status := if d.bc.bcPendq.any ends || d.bc.bcBusyq.any ends then .block else .pend
    let d := d.setElem be ⟨breq, op, status, off⟩
    .ok { d with bc.bcFreeq := freeq, bc.bcPendq := d.bc.bcPendq ++ [be] }

def blockifDequeue : Except Fault (Option (ElemId × Disk R)) := do
  match ← firstPend d.bc.bcReqs d.bc.bcPendq with
  | none => .ok none
  | some be =>
    let d := d.setStatus be .busy
    .ok (some (be,
      { d with bc.bcPendq := d.bc.bcPendq.erase be, bc.bcBusyq := d.bc.bcBusyq ++ [be] }))

def blockifComplete (be : ElemId) : Disk R :=
  let elem := d.bc.bcReqs be
  let inFlight := elem.beStatus = .done ∨ elem.beStatus = .busy
  let busyq := if inFlight then d.bc.bcBusyq.erase be else d.bc.bcBusyq
  let pendq := if inFlight then d.bc.bcPendq else d.bc.bcPendq.erase be
  let reqs := fun tbe =>
    if tbe ∈ pendq ∧ d.offset tbe = some elem.beBlock then
      { d.bc.bcReqs tbe with beStatus := .pend }
    else d.bc.bcReqs tbe
  { d with
    bc.bcReqs := Function.update reqs be { elem with beStatus := .free, beReq := none }
    bc.bcFreeq := d.bc.bcFreeq ++ [be], bc.bcPendq := pendq, bc.bcBusyq := busyq }

/-- Up to the callback, which is given the request and the error. -/
def blockifProc [DecidableEq R] (be : ElemId) : Except Fault (R × Nat × Disk R) :=
  match (d.bc.bcReqs be).beReq with
  | none => .error .procRequest
  | some br => do
    let req := d.req br
    let addr := d.bc.bcBase + req.brOffset
    let moved := fun mem =>
      { d with mem := mem, req := Function.update d.req br { req with brResid := 0 } }
    let (err, d) := match (d.bc.bcReqs be).beOp with
      | .read => (0, moved (readVecs addr req.brIov d.mem))
      | .write => if d.bc.bcRdonly then (EROFS, d) else (0, moved (writeVecs addr req.brIov d.mem))
      | .flush => (0, d)
      | .delete => (EOPNOTSUPP, d)
    .ok (br, err, d.setStatus be .done)

def blockifRequest (breq : R) (op : BlockOp) : Except Fault (Nat × Disk R) :=
  if d.bc.bcFreeq = [] then .ok (E2BIG, d.lock.unlock)
  else do
    let d ← d.lock.blockifEnqueue breq op
    .ok (0, d.unlock)

/-- `blockif_read`, `blockif_write`, `blockif_flush` and `blockif_delete`, by `op`. -/
def blockifOp (op : BlockOp) (breq : R) : Except Fault (Nat × Disk R) := do
  assertThat (d.bc.bcMagic = BLOCKIF_SIG) .blockifMagic
  d.blockifRequest breq op

def blockifRead : R → Except Fault (Nat × Disk R) := d.blockifOp .read

def blockifWrite : R → Except Fault (Nat × Disk R) := d.blockifOp .write

def blockifFlush : R → Except Fault (Nat × Disk R) := d.blockifOp .flush

def blockifDelete : R → Except Fault (Nat × Disk R) := d.blockifOp .delete

def submit (op : BlockOp) : R → Except Fault (Nat × Disk R) :=
  match op with
  | .read => d.blockifRead
  | .write => d.blockifWrite
  | .flush => d.blockifFlush
  | .delete => d.blockifDelete

theorem submit_eq (op : BlockOp) (breq : R) : d.submit op breq = d.blockifOp op breq := by
  cases op <;> rfl

def find [DecidableEq R] (queue : List ElemId) (breq : R) : Option ElemId :=
  queue.find? fun be => (d.bc.bcReqs be).beReq = some breq

def blockifCancel [DecidableEq R] (breq : R) : Except Fault (Nat × Disk R) := do
  assertThat (d.bc.bcMagic = BLOCKIF_SIG) .blockifMagic
  let d := d.lock
  match d.find d.bc.bcPendq breq with
  | some be => .ok (0, (d.blockifComplete be).unlock)
  | none =>
    match d.find d.bc.bcBusyq breq with
    | none => .ok (EINVAL, d.unlock)
    | some be =>
      assertThat ((d.bc.bcReqs be).beStatus ≠ .busy) .cancelBusy
      .ok (EBUSY, d.unlock)

end Disk

/-- A user of the block interface: where its state keeps the disk, and its callback. -/
structure Client (R σ : Type) where
  get : σ → Disk R
  put : Disk R → σ → σ
  callback : R → Nat → σ → Except Fault σ
  get_put : ∀ d s, get (put d s) = d

namespace Client

variable [DecidableEq R] (client : Client R σ)

/-- One round of the loop of `blockif_thr`, unless there is nothing to do. -/
def thrRound (s : σ) : Except Fault (Option σ) := do
  match ← (client.get s).blockifDequeue with
  | none => .ok none
  | some (be, d) =>
    let (br, err, d) ← d.blockifProc be
    let s ← client.callback br err (client.put d s)
    .ok (some (client.put ((client.get s).blockifComplete be) s))

def blockifThr (fuel : Nat) (s : σ) : Except Fault σ := do
  let s ← whileSome .thrLoop client.thrRound fuel (client.put (client.get s).lock s)
  .ok (client.put (client.get s).unlock s)

end Client

end DeviceModel.BlockIf

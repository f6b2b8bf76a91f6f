import DeviceModel.PciAhciByteOrder
import DeviceModel.PciAhciSlots

/-!
# The AHCI controller: where on the disk a command goes

The disk is memory from `bc_base` on, and `blockif_proc` copies from or to it whatever a request
says. `ahci_handle_rw` takes the start of a request from the FIS and its length from the PRDT.
-/

set_option autoImplicit false

namespace DeviceModel

open Fallible

namespace BlockIf

/-- The addresses of the backing store that a loop of `blockif_proc` copies from or to. -/
def vecAddrs : BitVec 64 → List Iovec → List (BitVec 64)
  | _, [] => []
  | addr, v :: iov =>
    (List.range v.iovLen).map (fun k => addr + BitVec.ofNat 64 k) ++
      vecAddrs (addr + BitVec.ofNat 64 v.iovLen) iov

def BlockifReq.bytes (req : BlockifReq) : Nat := (req.brIov.map Iovec.iovLen).sum

section Vectors

variable {addr a : BitVec 64} {iov : List Iovec} {m m' : Memory}

theorem mem_vecAddrs_iff :
    a ∈ vecAddrs addr iov ↔ ∃ k < (iov.map Iovec.iovLen).sum, a = addr + BitVec.ofNat 64 k := by
  induction iov generalizing addr with
  | nil => simp [vecAddrs]
  | cons v iov ih =>
    rw [vecAddrs, List.mem_append, ih, List.map_cons, List.sum_cons]
    have hNext : ∀ k, addr + BitVec.ofNat 64 v.iovLen + BitVec.ofNat 64 k =
        addr + BitVec.ofNat 64 (v.iovLen + k) := fun k => by rw [BitVec.add_assoc, ← BitVec.ofNat_add]
    constructor
    · rintro (hFirst | ⟨k, hk, rfl⟩)
      · obtain ⟨k, hk, rfl⟩ := List.mem_map.mp hFirst
        exact ⟨k, Nat.lt_add_right _ (List.mem_range.mp hk), rfl⟩
      · exact ⟨v.iovLen + k, Nat.add_lt_add_left hk _, hNext k⟩
    · rintro ⟨k, hk, rfl⟩
      rcases Nat.lt_or_ge k v.iovLen with hFirst | hRest
      · exact .inl (List.mem_map.mpr ⟨k, List.mem_range.mpr hFirst, rfl⟩)
      · refine .inr ⟨k - v.iovLen, by omega, ?_⟩
        rw [hNext, Nat.add_sub_cancel' hRest]

theorem vec_addr {n : Nat} (hNear : (a - addr).toNat < n) :
    ∃ k < n, a = addr + BitVec.ofNat 64 k := by
  refine ⟨_, hNear, ?_⟩
  rw [BitVec.ofNat_toNat, BitVec.setWidth_eq, BitVec.add_comm, BitVec.sub_add_cancel]

theorem writeVecs_elsewhere (hElse : a ∉ vecAddrs addr iov) : writeVecs addr iov m a = m a := by
  induction iov generalizing addr m with
  | nil => rfl
  | cons v iov ih =>
    rw [vecAddrs, List.mem_append, not_or] at hElse
    rw [writeVecs, ih hElse.2, Memory.copy, if_neg]
    intro hNear
    obtain ⟨k, hk, hAt⟩ := vec_addr hNear
    exact hElse.1 (List.mem_map.mpr ⟨k, List.mem_range.mpr hk, hAt.symm⟩)

theorem readVecs_congr {S : BitVec 64 → Prop} (hRead : ∀ a ∈ vecAddrs addr iov, S a)
    (hSame : ∀ a, S a → m a = m' a) : ∀ a, S a → readVecs addr iov m a = readVecs addr iov m' a := by
  induction iov generalizing addr m m' with
  | nil => exact hSame
  | cons v iov ih =>
    refine ih (fun a hMem => hRead a ?_) fun a ha => ?_
    · rw [vecAddrs, List.mem_append]
      exact .inr hMem
    · rw [Memory.copy, Memory.copy]
      split
      · next hNear =>
        refine hSame _ (hRead _ ?_)
        rw [vecAddrs, List.mem_append]
        refine .inl (List.mem_map.mpr ⟨(a - v.iovBase).toNat, List.mem_range.mpr hNear, ?_⟩)
        rw [BitVec.ofNat_toNat, BitVec.setWidth_eq]
      · exact hSame a ha

end Vectors

/-- The disk as `blockif_open` lays it out. -/
structure Opened {R : Type} (bc : BlockifCtxt R) : Prop where
  base : bc.bcBase = DM_BASE + 0x03000000
  size : bc.bcSize = 0x0d000000
  sectsz : bc.bcSectsz = 512
  rdonly : bc.bcRdonly = false

namespace Disk

variable {R : Type} (d : Disk R) (be : ElemId)

def copied : List (BitVec 64) :=
  match (d.bc.bcReqs be).beReq with
  | none => []
  | some br =>
    let addrs := vecAddrs (d.bc.bcBase + (d.req br).brOffset) (d.req br).brIov
    match (d.bc.bcReqs be).beOp with
    | .read => addrs
    | .write => if d.bc.bcRdonly then [] else addrs
    | .flush | .delete => []

/-- The request of an element reaches past the end of the disk. -/
def PastEnd : Prop :=
  ∃ br, (d.bc.bcReqs be).beReq = some br ∧
    d.bc.bcSize.toNat < (d.req br).brOffset.toNat + (d.req br).bytes

/-- What is copied lies on the disk, and a request past its end fails and copies nothing. -/
structure Contained [DecidableEq R] : Prop where
  inside : ∀ a ∈ d.copied be,
    d.bc.bcBase.toNat ≤ a.toNat ∧ a.toNat < d.bc.bcBase.toNat + d.bc.bcSize.toNat
  refused : d.PastEnd be → ∀ br err d', d.blockifProc be = .ok (br, err, d') → err ≠ 0 ∧ d'.mem = d.mem

variable {d be} [DecidableEq R] {br : R} {err : Nat} {d' : Disk R}

/-- A write changes nothing else, and on the disk it changes nothing but these. -/
theorem blockifProc_writes (hOp : (d.bc.bcReqs be).beOp = .write)
    (hProc : d.blockifProc be = .ok (br, err, d')) {a : BitVec 64} (hElse : a ∉ d.copied be) :
    d'.mem a = d.mem a := by
  unfold blockifProc at hProc
  unfold copied at hElse
  cases hReq : (d.bc.bcReqs be).beReq with
  | none =>
    rw [hReq] at hProc
    cases hProc
  | some r =>
    rw [hReq, hOp] at hProc hElse
    dsimp only at hProc hElse
    split at hProc
    · cases hProc
      rfl
    · next hRdonly =>
      cases hProc
      rw [if_neg hRdonly] at hElse
      exact writeVecs_elsewhere hElse

/-- What a read leaves depends on nothing else of the disk. -/
theorem blockifProc_reads {e : Disk R} {br' : R} {err' : Nat} {e' : Disk R}
    (hOp : (d.bc.bcReqs be).beOp = .read) (hBc : e.bc = d.bc) (hReqs : e.req = d.req)
    {S : BitVec 64 → Prop} (hRead : ∀ a ∈ d.copied be, S a) (hSame : ∀ a, S a → d.mem a = e.mem a)
    (hProc : d.blockifProc be = .ok (br, err, d')) (hProc' : e.blockifProc be = .ok (br', err', e')) :
    ∀ a, S a → d'.mem a = e'.mem a := by
  unfold blockifProc at hProc hProc'
  unfold copied at hRead
  rw [hBc, hReqs] at hProc'
  cases hReq : (d.bc.bcReqs be).beReq with
  | none =>
    rw [hReq] at hProc
    cases hProc
  | some r =>
    rw [hReq, hOp] at hProc hProc' hRead
    cases hProc
    cases hProc'
    exact readVecs_congr hRead hSame

/-- On a disk that is open, a request to read or write is contained exactly if it ends on the disk. -/
theorem contained_iff (hOpened : Opened d.bc) (hReq : (d.bc.bcReqs be).beReq = some br)
    (hOp : (d.bc.bcReqs be).beOp = .read ∨ (d.bc.bcReqs be).beOp = .write) :
    d.Contained be ↔ (d.req br).brOffset.toNat + (d.req br).bytes ≤ 0x0d000000 := by
  have hSize : d.bc.bcSize.toNat = 0x0d000000 := by rw [hOpened.size]; rfl
  constructor
  · intro hContained
    by_contra hPast
    have hEnd : d.PastEnd be := ⟨br, hReq, by omega⟩
    have hMoves : ∃ d', d.blockifProc be = .ok (br, 0, d') := by
      unfold blockifProc
      rw [hReq]
      obtain hOp | hOp := hOp
      · rw [hOp]
        exact ⟨_, rfl⟩
      · rw [hOp]
        dsimp only
        rw [if_neg (by simp [hOpened.rdonly])]
        exact ⟨_, rfl⟩
    obtain ⟨d', hProc⟩ := hMoves
    exact (hContained.refused hEnd br 0 d' hProc).1 rfl
  · intro hFits
    constructor
    · intro a hMem
      have hVec : a ∈ vecAddrs (d.bc.bcBase + (d.req br).brOffset) (d.req br).brIov := by
        unfold copied at hMem
        rw [hReq] at hMem
        obtain hOp | hOp := hOp
        · rwa [hOp] at hMem
        · rw [hOp] at hMem
          dsimp only at hMem
          rwa [if_neg (by simp [hOpened.rdonly])] at hMem
      obtain ⟨k, hk, rfl⟩ := mem_vecAddrs_iff.mp hVec
      have hBase : d.bc.bcBase.toNat = 0xffffffff93000000 := by rw [hOpened.base]; rfl
      unfold BlockifReq.bytes at hFits
      rw [hSize, BitVec.toNat_add, BitVec.toNat_add, BitVec.toNat_ofNat, hBase]
      omega
    · rintro ⟨r, hR, hPast⟩
      obtain rfl := Option.some.inj (hReq.symm.trans hR)
      omega

end Disk

end BlockIf

namespace PciAhci

open BlockIf ScatterGather

/-- Where a command that is carried on may be. Its FIS and its PRDT are read again for each request,
and may have been changed. -/
inductive ChunkAt (slot : Slot) (cfis : BitVec 64) : Nat → Prop where
  | first : ChunkAt slot cfis 0
  | next {s : Port} {done : Nat} {io : AhciIoreq} {breq : BlockifReq} (hAt : ChunkAt slot cfis done)
      (hOpened : Opened s.p.bctx) (hChunk : s.rwChunk slot cfis done = .ok (io, breq)) :
      ChunkAt slot cfis io.done

namespace Port

/-- The bytes of the PRDT from `done` on that a request has room for, in whole sectors if all its
vectors are used. -/
def rwBytes (s : Port) (slot : Slot) (cfis : BitVec 64) (done : Nat) : Nat :=
  let taken := (gather (s.entries slot cfis) BLOCKIF_IOV_MAX done (s.rwLen cfis - done)).1
  if taken.length = BLOCKIF_IOV_MAX then total taken - total taken % s.p.bctx.bcSectsz
  else total taken

variable {s t : Port} {slot : Slot} {cfis : BitVec 64} {done : Nat} {io : AhciIoreq} {breq : BlockifReq}

theorem rwChunk_eq (hChunk : s.rwChunk slot cfis done = .ok (io, breq)) :
    breq.brOffset = s.rwOffset cfis + BitVec.ofNat 64 done ∧ breq.bytes = s.rwBytes slot cfis done ∧
      io.done = done + s.rwBytes slot cfis done := by
  obtain ⟨taken, rest, hGather, hBuild⟩ := ahciBuildIov_cases s s.p.bctx.bcSectsz (cfis + 0x80)
    (s.prdtl slot) (s.rwLen cfis) done
  have hBytes : s.rwBytes slot cfis done = if taken.length = BLOCKIF_IOV_MAX then
      total taken - total taken % s.p.bctx.bcSectsz else total taken := by
    rw [rwBytes, entries, hGather]
  rw [rwChunk, hBuild] at hChunk
  rw [hBytes, BlockifReq.bytes]
  split at hChunk
  · next hFull =>
    obtain ⟨r, hAssert, hChunk⟩ := bind_eq_ok_iff.mp hChunk
    obtain ⟨-, -, hRest⟩ := bind_eq_ok_iff.mp hAssert
    cases hRest
    cases hChunk
    rw [if_pos hFull, sum_hostVec, total_reverse,
      total_trim (by rw [total_reverse]; exact Nat.mod_le _ _), total_reverse]
    exact ⟨rfl, rfl, rfl⟩
  · next hFew =>
    cases hChunk
    rw [if_neg hFew, sum_hostVec]
    exact ⟨rfl, rfl, rfl⟩

theorem rwBytes_le (s : Port) (slot : Slot) (cfis : BitVec 64) (done : Nat) :
    s.rwBytes slot cfis done ≤ s.rwLen cfis - done := by
  have hLeft := total_gather_le (s.entries slot cfis) BLOCKIF_IOV_MAX done (s.rwLen cfis - done)
  unfold rwBytes
  dsimp only
  split <;> omega

theorem rwRange_lt (s : Port) (cfis : BitVec 64) :
    (s.rwRange cfis).1.toNat < 2 ^ 48 ∧ (s.rwRange cfis).2 ≤ 65536 := by
  have hAppend : ∀ {n k m : Nat} (x : BitVec n) (y : BitVec k), x.toNat < 2 ^ m →
      (x ++ y).toNat < 2 ^ (m + k) := by
    intro n k m x y hx
    have hy := y.isLt
    rw [BitVec.toNat_append, ← Nat.shiftLeft_add_eq_or_of_lt hy, Nat.shiftLeft_eq, Nat.pow_add]
    have hNext : (x.toNat + 1) * 2 ^ k ≤ 2 ^ m * 2 ^ k := Nat.mul_le_mul_right _ hx
    rw [Nat.succ_mul] at hNext
    omega
  have hNone : ∀ n, (0#n).toNat < 2 ^ 0 := fun n => by simp
  have hCount : ∀ b : BitVec 16, (if b = 0 then 65536 else b.toNat) ≤ 65536 := fun b => by
    split <;> omega
  have hByte : ∀ b : BitVec 8, (if b = 0 then 256 else b.toNat) ≤ 65536 := fun b => by
    split <;> omega
  have hLba48 : ∀ a b c d e f : BitVec 8, (0#16 ++ a ++ b ++ c ++ d ++ e ++ f).toNat < 2 ^ 48 :=
    fun a b c d e f => hAppend _ f (hAppend _ e (hAppend _ d (hAppend _ c (hAppend _ b (hAppend _ a (hNone 16))))))
  have hLba28 : ∀ (a : BitVec 4) (b c d : BitVec 8), (0#36 ++ a ++ b ++ c ++ d).toNat < 2 ^ 48 := fun a b c d =>
    Nat.lt_of_lt_of_le (hAppend _ d (hAppend _ c (hAppend _ b (hAppend _ a (hNone 36))))) (by decide)
  unfold rwRange
  dsimp only
  split
  · exact ⟨hLba48 _ _ _ _ _ _, hCount _⟩
  split
  · exact ⟨hLba48 _ _ _ _ _ _, hCount _⟩
  · exact ⟨hLba28 _ _ _ _, hByte _⟩

end Port

theorem ChunkAt.le {slot : Slot} {cfis : BitVec 64} {done : Nat} (h : ChunkAt slot cfis done) :
    done ≤ 65536 * 512 := by
  induction h with
  | first => exact Nat.zero_le _
  | @next s done io breq _ hOpened hChunk ih =>
    have hMoved := Port.rwBytes_le s slot cfis done
    have hCount := (Port.rwRange_lt s cfis).2
    rw [(Port.rwChunk_eq hChunk).2.2]
    rw [Port.rwLen, hOpened.sectsz] at hMoved
    omega

namespace Port

variable {s t : Port} {slot : Slot} {cfis : BitVec 64} {done : Nat}

theorem handOver_queues {op : BlockOp} {aior : IoreqId} (hOk : s.handOver op aior = .ok t) :
    t.p.ioReq = s.p.ioReq ∧ ∃ be ∈ t.p.bctx.bcPendq, (t.p.bctx.bcReqs be).beReq = some aior ∧
      (t.p.bctx.bcReqs be).beOp = op := by
  rw [handOver_eq] at hOk
  obtain ⟨⟨err, u⟩, hDisk, hOk⟩ := bind_eq_ok_iff.mp hOk
  obtain ⟨_, hErr, hOk⟩ := bind_eq_ok_iff.mp hOk
  obtain rfl := Except.ok.inj hOk
  obtain ⟨-, -, hDisk⟩ := bind_eq_ok_iff.mp hDisk
  obtain ⟨⟨err', d⟩, hOp, hDisk⟩ := bind_eq_ok_iff.mp hDisk
  obtain ⟨rfl, rfl⟩ := Prod.mk.inj (Except.ok.inj hDisk)
  obtain ⟨-, -, hOp⟩ := bind_eq_ok_iff.mp hOp
  unfold Disk.blockifRequest at hOp
  split at hOp
  · obtain ⟨rfl, -⟩ := Prod.mk.inj (Except.ok.inj hOp)
    dsimp only at hErr
    rw [assertThat, if_neg (by decide)] at hErr
    cases hErr
  · obtain ⟨d', hQueue, hOp⟩ := bind_eq_ok_iff.mp hOp
    obtain ⟨-, rfl⟩ := Prod.mk.inj (Except.ok.inj hOp)
    obtain ⟨be, freeq, status, off, -, -, rfl⟩ := Disk.blockifEnqueue_cases hQueue
    refine ⟨rfl, be, List.mem_append_right _ (List.mem_singleton_self be), ?_⟩
    simp [Disk.unlock]

/-- The request of a read or write goes to the queue of the disk as it is made. -/
theorem ahciHandleRw_queues (hRun : s.ahciHandleRw slot cfis done = .ok t) :
    ∃ io breq aior, s.rwChunk slot cfis done = .ok (io, breq) ∧ t.p.ioReq aior = breq ∧
      ∃ be ∈ t.p.bctx.bcPendq, (t.p.bctx.bcReqs be).beReq = some aior ∧
        ((t.p.bctx.bcReqs be).beOp = .read ∨ (t.p.bctx.bcReqs be).beOp = .write) := by
  rw [ahciHandleRw_eq] at hRun
  obtain ⟨_, hAttached, hRun⟩ := bind_eq_ok_iff.mp hRun
  obtain ⟨⟨aior, u⟩, hPull, hRun⟩ := bind_eq_ok_iff.mp hRun
  obtain ⟨⟨io, breq⟩, hChunk, hSend⟩ := bind_eq_ok_iff.mp hRun
  obtain ⟨v, hFis, hHand⟩ := bind_eq_ok_iff.mp hSend
  obtain ⟨hReqs, be, hMem, hReq, hOp⟩ := handOver_queues hHand
  have hPulled : (u.pushIoreq aior io breq).p.attached = s.p.attached := by
    unfold pullIoreq at hPull
    split at hPull
    · cases hPull
    · obtain ⟨rfl, rfl⟩ := Prod.mk.inj (Except.ok.inj hPull)
      rfl
  have hOn : Yields (fun _ => True) (fun _ => s.p.attached = true)
      (assertThat (s.p.attached = true) Fault.nullBctx) := assertThat_yields fun _ => trivial
  have hPushed : (u.pushIoreq aior io breq).p.ioReq aior = breq := Function.update_self ..
  have hKept : v.p.ioReq aior = breq := by
    split at hFis
    · have hAccepted := ahciWriteFisD2hNcq_keeps (E := fun _ => True)
        (hPulled.trans (hOn.of_ok hAttached)) ⟨fun _ => trivial⟩ io.slot
      rw [(hAccepted.of_ok hFis).pool.ioReq, hPushed]
    · rw [← Except.ok.inj hFis, hPushed]
  refine ⟨io, breq, aior, hChunk, by rw [hReqs, hKept], be, hMem, hReq, ?_⟩
  rw [hOp]
  split
  · exact .inr rfl
  · exact .inl rfl

end Port

structure Queued (t : Port) (aior : IoreqId) (be : ElemId) (d : Disk IoreqId) : Prop where
  opened : Opened d.bc
  req : (d.bc.bcReqs be).beReq = some aior
  op : (d.bc.bcReqs be).beOp = (t.p.bctx.bcReqs be).beOp
  same : d.req aior = t.p.ioReq aior

section Command

variable {s t : Port} {slot : Slot} {cfis : BitVec 64} {done : Nat}

theorem Queued.contained_iff {aior : IoreqId} {be : ElemId} {d : Disk IoreqId} (hd : Queued t aior be d)
    (hAt : ChunkAt slot cfis done) (hOpened : Opened s.p.bctx) {io : AhciIoreq} {breq : BlockifReq}
    (hChunk : s.rwChunk slot cfis done = .ok (io, breq)) (hSame : t.p.ioReq aior = breq)
    (hOp : (t.p.bctx.bcReqs be).beOp = .read ∨ (t.p.bctx.bcReqs be).beOp = .write) :
    d.Contained be ↔
      (s.rwRange cfis).1.toNat * 512 + done + s.rwBytes slot cfis done ≤ 0x0d000000 := by
  obtain ⟨hOffset, hBytes, -⟩ := Port.rwChunk_eq hChunk
  have hLba := (Port.rwRange_lt s cfis).1
  have hDone := hAt.le
  have hWhere : (d.req aior).brOffset.toNat = (s.rwRange cfis).1.toNat * 512 + done := by
    rw [hd.same, hSame, hOffset, Port.rwOffset, hOpened.sectsz, BitVec.toNat_add, BitVec.toNat_mul,
      BitVec.toNat_ofNat, BitVec.toNat_ofNat]
    omega
  rw [Disk.contained_iff hd.opened hd.req (by rwa [hd.op]), hWhere, hd.same, hSame, hBytes]

/-- A request of a command to read or write goes to the queue, and when it is processed it keeps to
the disk, and is refused if it does not end there, exactly if it does end there. -/
theorem diskContained_iff (hAt : ChunkAt slot cfis done) (hOpened : Opened s.p.bctx)
    (hRun : s.ahciHandleRw slot cfis done = .ok t) :
    ∃ aior be, be ∈ t.p.bctx.bcPendq ∧ (t.p.bctx.bcReqs be).beReq = some aior ∧
      ∀ d : Disk IoreqId, Queued t aior be d → (d.Contained be ↔
        (s.rwRange cfis).1.toNat * 512 + done + s.rwBytes slot cfis done ≤ 0x0d000000) := by
  obtain ⟨io, breq, aior, hChunk, hSame, be, hMem, hReq, hOp⟩ := Port.ahciHandleRw_queues hRun
  exact ⟨aior, be, hMem, hReq, fun d hd => hd.contained_iff hAt hOpened hChunk hSame hOp⟩

end Command

def sectorAt (lba : BitVec 24) : Port where
  p := diskPort 0 []
  sc := (readPort 1 512).sc
  mem a := ([(0x104, lba.extractLsb' 0 8), (0x105, lba.extractLsb' 8 8),
    (0x106, lba.extractLsb' 16 8)].lookup a.toNat).getD ((readPort 1 512).mem a)

theorem diskContained_iff_last : ∃ t aior be, (sectorAt 0x67fff).ahciHandleRw 0 0x100 0 = .ok t ∧
    be ∈ t.p.bctx.bcPendq ∧ ∀ d : Disk IoreqId, Queued t aior be d → d.Contained be := by
  have hReturns : ((sectorAt 0x67fff).ahciHandleRw 0 0x100 0).toOption.isSome = true := by decide +kernel
  obtain ⟨t, hRun⟩ := Option.isSome_iff_exists.mp hReturns
  have hRun := toOption_eq_some_iff.mp hRun
  obtain ⟨aior, be, hMem, -, hIff⟩ := diskContained_iff .first ⟨rfl, rfl, rfl, rfl⟩ hRun
  have hEnds : ((sectorAt 0x67fff).rwRange 0x100).1.toNat * 512 + 0 + (sectorAt 0x67fff).rwBytes 0 0x100 0 ≤
      0x0d000000 := by decide +kernel
  exact ⟨t, aior, be, hRun, hMem, fun d hd => (hIff d hd).mpr hEnds⟩

/-- The first sector after the disk. -/
theorem diskContained_fails : ¬ ∀ (s t : Port) (slot : Slot) (cfis : BitVec 64) (done : Nat),
    ChunkAt slot cfis done → Opened s.p.bctx → s.ahciHandleRw slot cfis done = .ok t →
    ∀ (aior : IoreqId) (be : ElemId) (d : Disk IoreqId), be ∈ t.p.bctx.bcPendq →
      (t.p.bctx.bcReqs be).beReq = some aior → Queued t aior be d → d.Contained be := by
  intro hAll
  have hQueued : ((sectorAt 0x68000).ahciHandleRw 0 0x100 0).toOption.map (fun t =>
      (t.p.bctx.bcBase, t.p.bctx.bcSize, t.p.bctx.bcSectsz, t.p.bctx.bcRdonly)) =
      some (DM_BASE + 0x03000000, 0x0d000000, 512, false) := by decide +kernel
  obtain ⟨t, hRun, hOpened⟩ := Option.map_eq_some_iff.mp hQueued
  have hRun := toOption_eq_some_iff.mp hRun
  simp only [Prod.mk.injEq] at hOpened
  obtain ⟨hBase, hSize, hSectsz, hRdonly⟩ := hOpened
  obtain ⟨io, breq, aior, hChunk, hSame, be, hMem, hReq, hOp⟩ := Port.ahciHandleRw_queues hRun
  have hd : Queued t aior be ⟨t.p.bctx, t.p.ioReq, t.mem⟩ :=
    ⟨⟨hBase, hSize, hSectsz, hRdonly⟩, hReq, rfl, rfl⟩
  have hContained := hAll _ t 0 0x100 0 .first ⟨rfl, rfl, rfl, rfl⟩ hRun aior be _ hMem hReq hd
  have hEnds := (hd.contained_iff .first ⟨rfl, rfl, rfl, rfl⟩ hChunk hSame hOp).mp hContained
  exact absurd hEnds (by decide +kernel)

end PciAhci

end DeviceModel

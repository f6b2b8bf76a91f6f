import DeviceModel.BlockQueue
import DeviceModel.Lib.Ticket

/-!
# The order in which the block interface serves requests

Only the first element of the queue ever goes into flight, so that requests are served in
the order in which they came. A run is recorded in a book, which gives every accepted
request a ticket; the contents of memory, and with it of the disk, are those of the served
requests done one after another in the order of their tickets.
-/

set_option autoImplicit false

namespace DeviceModel.BlockIf

open Fallible

variable {R : Type}

/-- The vectors of a request, each with the offset on the disk that it maps to. -/
def segments : BitVec 64 → List Iovec → List (BitVec 64 × Iovec)
  | _, [] => []
  | off, v :: iov => (off, v) :: segments (off + BitVec.ofNat 64 v.iovLen) iov

structure Submission where
  op : BlockOp
  offset : BitVec 64
  iov : List Iovec
deriving DecidableEq

def Disk.submission (d : Disk R) (op : BlockOp) (r : R) : Submission :=
  ⟨op, (d.req r).brOffset, (d.req r).brIov⟩

/-- A request done at once, on a disk that starts at `base`. -/
def Submission.apply (base : BitVec 64) (m : Memory) (s : Submission) : Memory :=
  match s.op with
  | .read => (segments s.offset s.iov).foldl
      (fun m (off, v) => m.copy v.iovBase (base + off) v.iovLen) m
  | .write => (segments s.offset s.iov).foldl
      (fun m (off, v) => m.copy (base + off) v.iovBase v.iovLen) m
  | .flush | .delete => m

theorem readVecs_eq (base off : BitVec 64) (iov : List Iovec) (m : Memory) :
    readVecs (base + off) iov m =
      (segments off iov).foldl (fun m (off, v) => m.copy v.iovBase (base + off) v.iovLen) m := by
  induction iov generalizing off m with
  | nil => rfl
  | cons v iov ih =>
    rw [readVecs, segments, List.foldl_cons, BitVec.add_assoc, ih]

theorem writeVecs_eq (base off : BitVec 64) (iov : List Iovec) (m : Memory) :
    writeVecs (base + off) iov m =
      (segments off iov).foldl (fun m (off, v) => m.copy (base + off) v.iovBase v.iovLen) m := by
  induction iov generalizing off m with
  | nil => rfl
  | cons v iov ih =>
    rw [writeVecs, segments, List.foldl_cons, BitVec.add_assoc, ih]

theorem transferred_eq {bc : BlockifCtxt R} (hRdonly : bc.bcRdonly = false) (op : BlockOp)
    (req : BlockifReq) (m : Memory) :
    Disk.transferred bc op req m = Submission.apply bc.bcBase m ⟨op, req.brOffset, req.brIov⟩ := by
  cases op with
  | read => exact readVecs_eq _ _ _ _
  | write => exact (if_neg (by simp [hRdonly])).trans (writeVecs_eq _ _ _ _)
  | flush => rfl
  | delete => rfl

/-- The requests of a run, and the tickets of those that are queued. -/
structure Book where
  ledger : Ledger Submission
  ticket : ElemId → Nat

section Record

variable [DecidableEq R]

def Book.record (b : Book) (d : Disk R) : Act R → Book
  | .call (.request op r) =>
    match d.bc.bcFreeq with
    | [] => b
    | be :: _ =>
      ⟨b.ledger.submit (d.submission op r), Function.update b.ticket be b.ledger.submitted.length⟩
  | .call (.cancel r) =>
    match d.find d.bc.bcPendq r with
    | none => b
    | some be => { b with ledger := b.ledger.cancel (b.ticket be) }
  | .process =>
    match d.bc.bcBusyq, d.blockifDequeue with
    | [], .ok (some (be, _)) => { b with ledger := b.ledger.serve (b.ticket be) }
    | _, _ => b
  | .call (.fill _ _) | .mutex _ | .complete => b

def recordedAct (s : Disk R × Book) (a : Act R) : Except Fault (Disk R × Book) :=
  (s.1.act a).map (·, s.2.record s.1 a)

end Record

/-- The state of a recorded run that started with the disk at `base` and the memory `m`. -/
structure Ordered (base : BitVec 64) (m : Memory) (s : Disk R × Book) : Prop where
  steady : s.1.Steady
  order : s.2.ledger.InOrder (s.1.bc.bcPendq.map s.2.ticket)
  queued : ∀ be ∈ s.1.bc.bcPendq, ∀ r, (s.1.bc.bcReqs be).beReq = some r →
    s.2.ledger.submitted[s.2.ticket be]? = some (s.1.submission (s.1.bc.bcReqs be).beOp r)
  mem : s.1.mem = s.2.ledger.replay (Submission.apply base) m s.2.ledger.served
  disk : s.1.bc.bcBase = base ∧ s.1.bc.bcRdonly = false

section Steps

theorem map_erase_of_nodup {α β : Type} [DecidableEq α] [DecidableEq β] {f : α → β} {l : List α}
    {a : α} (hNodup : (l.map f).Nodup) (hMem : a ∈ l) :
    (l.erase a).map f = (l.map f).erase (f a) := by
  induction l with
  | nil => exact absurd hMem List.not_mem_nil
  | cons b l ih =>
    obtain ⟨hHead, hTail⟩ := List.nodup_cons.mp hNodup
    by_cases hHit : b = a
    · subst hHit
      simp
    · have hMem' : a ∈ l := (List.mem_cons.mp hMem).resolve_left (Ne.symm hHit)
      have hNe : f b ≠ f a := fun hSame => hHead (hSame ▸ List.mem_map_of_mem hMem')
      rw [List.erase_cons_tail (by simpa using hHit), List.map_cons, List.map_cons,
        List.erase_cons_tail (by simpa using hNe), ih hTail hMem']

variable {base : BitVec 64} {m : Memory} {d d' : Disk R} {b : Book} {be : ElemId}

theorem Ordered.of_same (h : Ordered base m (d, b)) (hSteady : d'.Steady)
    (hPendq : d'.bc.bcPendq = d.bc.bcPendq)
    (hReqs : ∀ be ∈ d.bc.bcPendq, (d'.bc.bcReqs be).beReq = (d.bc.bcReqs be).beReq ∧
      (d'.bc.bcReqs be).beOp = (d.bc.bcReqs be).beOp)
    (hReq : ∀ be ∈ d.bc.bcPendq, ∀ r, (d.bc.bcReqs be).beReq = some r → ∀ op,
      d'.submission op r = d.submission op r)
    (hMem : d'.mem = d.mem) (hBase : d'.bc.bcBase = d.bc.bcBase)
    (hRdonly : d'.bc.bcRdonly = d.bc.bcRdonly) : Ordered base m (d', b) := by
  refine ⟨hSteady, ?_, ?_, hMem.trans h.mem, hBase.trans h.disk.1, hRdonly.trans h.disk.2⟩
  · simp only [hPendq]
    exact h.order
  · simp only [hPendq]
    intro be hQueued r hHeld
    rw [(hReqs be hQueued).1] at hHeld
    rw [(hReqs be hQueued).2, hReq be hQueued r hHeld]
    exact h.queued be hQueued r hHeld

theorem Ordered.mutex (h : Ordered base m (d, b)) (mutex : PthreadMutex) :
    Ordered base m ({ d with bc.bcMtx := mutex }, b) :=
  h.of_same (h.steady.mutex mutex) rfl (fun _ _ => ⟨rfl, rfl⟩) (fun _ _ _ _ _ => rfl) rfl rfl rfl

variable [DecidableEq R]

theorem Ordered.fill (h : Ordered base m (d, b)) {r : R} (hOwn : ¬ d.Holds r)
    (breq : BlockifReq) :
    Ordered base m ({ d with req := Function.update d.req r breq }, b) := by
  refine h.of_same (Disk.fill_keeps h.steady hOwn breq).steady rfl (fun _ _ => ⟨rfl, rfl⟩) ?_ rfl
    rfl rfl
  intro be hMem r' hHeld op
  have hNe : r' ≠ r := by
    rintro rfl
    exact hOwn ⟨be, hMem, hHeld⟩
  simp [Disk.submission, Function.update_of_ne hNe]

omit [DecidableEq R] in
theorem Ordered.enqueue (h : Ordered base m (d, b)) {op : BlockOp} {r : R} {freeq : List ElemId}
    (hFree : d.bc.bcFreeq = be :: freeq) (hOk : d.blockifEnqueue r op = .ok d') :
    Ordered base m (d', ⟨b.ledger.submit (d.submission op r),
      Function.update b.ticket be b.ledger.submitted.length⟩) := by
  have hSteady := (Disk.enqueue_keeps h.steady hOk).steady
  obtain ⟨tbe, freeq', status, off, hFree', -, rfl⟩ := Disk.blockifEnqueue_cases hOk
  obtain ⟨rfl, -⟩ := List.cons.inj (hFree.symm.trans hFree')
  have hNe : ∀ tbe ∈ d.bc.bcPendq, tbe ≠ be := by
    rintro tbe hMem rfl
    exact h.steady.not_free_of_pend hMem (by simp [hFree])
  have hTickets : (d.bc.bcPendq ++ [be]).map
      (Function.update b.ticket be b.ledger.submitted.length) =
      d.bc.bcPendq.map b.ticket ++ [b.ledger.submitted.length] := by
    rw [List.map_append, List.map_singleton, Function.update_self]
    congr 1
    exact List.map_congr_left fun tbe hMem => Function.update_of_ne (hNe tbe hMem) _ _
  refine ⟨hSteady, ?_, ?_, ?_, h.disk⟩
  · simpa only [hTickets] using h.order.submit _
  · intro tbe hMem r' hHeld
    obtain hMem | hMem := List.mem_append.mp hMem
    · have hOther := hNe tbe hMem
      simp only [Function.update_of_ne hOther] at hHeld ⊢
      have hOld := h.queued tbe hMem r' hHeld
      have hLess : b.ticket tbe < b.ledger.submitted.length :=
        h.order.mem_lt (List.mem_append_right _ (List.mem_map_of_mem hMem))
      exact (List.getElem?_append_left hLess).trans hOld
    · obtain rfl := List.mem_singleton.mp hMem
      simp only [Function.update_self, Option.some.injEq] at hHeld ⊢
      subst hHeld
      simp [Ledger.submit, Disk.submission]
  · have hOld := h.mem
    simp only [Ledger.replay] at hOld ⊢
    rw [hOld, Ledger.jobs_submit]
    · rfl
    · exact fun ticket hMem => h.order.mem_lt (List.mem_append_left _ hMem)

omit [DecidableEq R] in
theorem Ordered.cancel (h : Ordered base m (d, b)) (hMem : be ∈ d.bc.bcPendq) :
    Ordered base m
      (d.blockifComplete be, { b with ledger := b.ledger.cancel (b.ticket be) }) := by
  have hPendq : (d.blockifComplete be).bc.bcPendq = _ := Disk.blockifComplete_pendq h.steady.toInv
  have hNodup : (d.bc.bcPendq.map b.ticket).Nodup := (List.nodup_append.mp h.order.nodup).2.1
  refine ⟨(Disk.cancel_keeps h.steady hMem).steady, ?_, ?_, h.mem, h.disk⟩
  · simp only [hPendq]
    rw [map_erase_of_nodup hNodup hMem]
    exact h.order.cancel (List.mem_map_of_mem hMem)
  · simp only [hPendq]
    intro tbe hQueued r hHeld
    obtain ⟨hNe, hQueued⟩ := (List.Nodup.mem_erase_iff h.steady.pendq_nodup).mp hQueued
    obtain ⟨hReq, hOp, -⟩ := Disk.blockifComplete_kept h.steady.toInv hNe
    rw [hReq] at hHeld
    rw [hOp]
    exact h.queued tbe hQueued r hHeld

omit [DecidableEq R] in
theorem Ordered.complete (h : Ordered base m (d, b)) (hBusyq : d.bc.bcBusyq = [be]) :
    Ordered base m (d.blockifComplete be, b) := by
  obtain ⟨hSteady, -, hPendq⟩ := Disk.complete_keeps h.steady hBusyq
  refine h.of_same hSteady hPendq (fun tbe hMem => ?_) (fun _ _ _ _ _ => rfl) rfl rfl rfl
  have hNe : tbe ≠ be := by
    rintro rfl
    exact h.steady.not_busy_of_pend hMem (by simp [hBusyq])
  obtain ⟨hReq, hOp, -⟩ := Disk.blockifComplete_kept h.steady.toInv hNe
  exact ⟨hReq, hOp⟩

omit [DecidableEq R] in
theorem Ordered.serve (h : Ordered base m (d, b)) {br : R} (hServed : Disk.Served d d' be br) :
    Ordered base m (d', { b with ledger := b.ledger.serve (b.ticket be) }) := by
  have hPendq := hServed.pendq
  have hNodup := h.steady.pendq_nodup
  rw [hPendq] at hNodup
  have hHead : b.ledger.submitted[b.ticket be]? = some (d.submission (d.bc.bcReqs be).beOp br) :=
    h.queued be (by simp [hPendq]) br hServed.beReq
  refine ⟨hServed.steady, ?_, ?_, ?_, hServed.disk.1.trans h.disk.1, hServed.disk.2.trans h.disk.2⟩
  · have hOrder := h.order
    simp only [hPendq, List.map_cons] at hOrder
    exact hOrder.serve
  · intro tbe hMem r hHeld
    have hNe : tbe ≠ be := by
      rintro rfl
      exact (List.nodup_cons.mp hNodup).1 hMem
    simp only [hServed.reqs, Function.update_of_ne hNe] at hHeld ⊢
    have hOld := h.queued tbe (by simp [hPendq, hMem]) r hHeld
    rw [Disk.submission, (hServed.req r).1, (hServed.req r).2]
    exact hOld
  · have hReplay := Ledger.replay_append (Submission.apply base) m b.ledger.served hHead
    simp only [hServed.mem, transferred_eq h.disk.2]
    calc
      Submission.apply d.bc.bcBase d.mem _
        = Submission.apply base (b.ledger.replay (Submission.apply base) m b.ledger.served)
            (d.submission (d.bc.bcReqs be).beOp br) := by rw [← h.mem, h.disk.1]; rfl
      _ = _ := hReplay.symm

theorem Ordered.act (h : Ordered base m (d, b)) (a : Act R) :
    Yields (fun _ => False) (Ordered base m) (recordedAct (d, b) a) := by
  have hLock : Ordered base m (d.lock, b) := h.mutex _
  unfold recordedAct
  refine Yields.map ?_
  cases a with
  | mutex mutex => exact h.mutex mutex
  | complete =>
    simp only [Disk.act, Book.record]
    obtain hIdle | ⟨be, hBusyq, -⟩ := h.steady.quiet
    · rw [hIdle]
      exact h
    · rw [hBusyq]
      exact h.complete hBusyq
  | process =>
    simp only [Disk.act, Book.record]
    by_cases hIdle : d.bc.bcBusyq = []
    · rw [if_pos hIdle, hIdle]
      cases hPendq : d.bc.bcPendq with
      | nil =>
        rw [Disk.process_nil hPendq, Disk.blockifDequeue_nil hPendq]
        exact h
      | cons be queue =>
        obtain ⟨br, d', hOk, hServed⟩ := Disk.process_cons h.steady hIdle hPendq
        rw [hOk, Disk.blockifDequeue_cons h.steady.toInv hIdle hPendq]
        exact h.serve hServed
    · rw [if_neg hIdle]
      cases hBusyq : d.bc.bcBusyq with
      | nil => exact absurd hBusyq hIdle
      | cons be busyq => exact h
  | call call =>
    cases call with
    | fill r breq =>
      simp only [Disk.act, Disk.call, yields_ok]
      split
      · exact h
      · next hOwn => exact h.fill hOwn breq
    | request op r =>
      refine Yields.map ?_
      simp only [Book.record]
      obtain ⟨hFree, hRefused⟩ | ⟨d', hOk, hAccepted⟩ := Disk.blockifOp_cases op r h.steady.toInv
      · rw [hRefused, hFree]
        exact hLock.mutex _
      · rw [hAccepted]
        cases hFree : d.bc.bcFreeq with
        | nil =>
          obtain ⟨_, _, _, _, hCons, -⟩ := Disk.blockifEnqueue_cases hOk
          cases hFree.symm.trans hCons
        | cons be freeq => exact (hLock.enqueue hFree hOk).mutex _
    | cancel r =>
      refine Yields.map ?_
      simp only [Book.record]
      obtain ⟨be, hMem, -, hFind, hFound⟩ | ⟨hFind, res, hNone, -⟩ :=
        Disk.blockifCancel_cases r h.steady.toInv h.steady.quiet
      · rw [hFound, hFind]
        exact (hLock.cancel hMem).mutex _
      · rw [hNone, hFind]
        exact hLock.mutex _

end Steps

section Runs

variable [DecidableEq R]

theorem run_recorded {d d' : Disk R} {acts : List (Act R)} (b : Book)
    (hRun : run Disk.act d acts = .ok d') : ∃ b', run recordedAct (d, b) acts = .ok (d', b') := by
  induction acts generalizing d b with
  | nil =>
    obtain rfl := Except.ok.inj hRun
    exact ⟨b, rfl⟩
  | cons a acts ih =>
    obtain ⟨d₁, hAct, hRun⟩ := run_cons_eq_ok_iff.mp hRun
    obtain ⟨b', hRun'⟩ := ih (b.record d a) hRun
    refine ⟨b', run_cons_eq_ok_iff.mpr ⟨(d₁, b.record d a), ?_, hRun'⟩⟩
    rw [recordedAct, hAct]
    rfl

omit [DecidableEq R] in
theorem opened_ordered (req : R → BlockifReq) (m : Memory) :
    Ordered (DM_BASE + 0x03000000) m (Disk.opened req m, ⟨Ledger.empty, fun _ => 0⟩) :=
  ⟨Disk.opened_steady req m, Ledger.inOrder_empty, fun _ hMem => absurd hMem List.not_mem_nil, rfl,
    rfl, rfl⟩

theorem run_ordered {base : BitVec 64} {m : Memory} {s : Disk R × Book} (h : Ordered base m s)
    (acts : List (Act R)) : Yields (fun _ => False) (Ordered base m) (run recordedAct s acts) :=
  run_keeps (fun _ a hs => hs.act a) h acts

/-- Requests that are not cancelled are executed in the order in which they were submitted, and
memory is as if they had been executed one after another. -/
theorem requests_inOrder (req : R → BlockifReq) (m : Memory) (acts : List (Act R)) :
    ∃ d b, run recordedAct (Disk.opened req m, ⟨Ledger.empty, fun _ => 0⟩) acts = .ok (d, b) ∧
      b.ledger.served ++ d.bc.bcPendq.map b.ticket = b.ledger.kept ∧
      d.mem = b.ledger.replay (Submission.apply d.bc.bcBase) m b.ledger.served ∧
      (d.bc.bcBusyq = [] → ∀ script, ∃ fuel d' script' acts' b',
        scripted.blockifThr fuel (d, script) = .ok (d', script') ∧
        run recordedAct (d, b) acts' = .ok (d', b') ∧ b'.ledger.served = b'.ledger.kept ∧
        d'.mem = b'.ledger.replay (Submission.apply d'.bc.bcBase) m b'.ledger.kept) := by
  obtain ⟨⟨d, b⟩, hOk, h⟩ := (run_ordered (opened_ordered req m) acts).exists_ok
  refine ⟨d, b, hOk, h.order.order, by rw [h.disk.1]; exact h.mem, fun hIdle script => ?_⟩
  obtain ⟨fuel, d', script', hThr, -, hPendq, -, acts', hActs⟩ :=
    blockifThr_drains h.steady hIdle script
  obtain ⟨b', hRecorded⟩ := run_recorded b hActs
  have h' : Ordered (DM_BASE + 0x03000000) m (d', b') := (run_ordered h acts').of_ok hRecorded
  have hServed : b'.ledger.served = b'.ledger.kept := by
    simpa [hPendq] using h'.order.order
  refine ⟨fuel, d', script', acts', b', hThr, hRecorded, hServed, ?_⟩
  rw [← hServed, h'.disk.1]
  exact h'.mem

end Runs

end DeviceModel.BlockIf

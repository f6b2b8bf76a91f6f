import DeviceModel.BlockIf

/-!
# The queue of the block interface

A request waits behind another one if the other one ends where it starts. However calls of
the users, callbacks and completions follow each other, the elements are divided among the
three queues, and what a blocked element waits for is still to come: `blockif_thr` finds the
first element of the queue pending and empties it.
-/

set_option autoImplicit false

namespace DeviceModel.BlockIf

open Fallible

variable {R σ : Type} {d d' : Disk R} {be : ElemId}

namespace Disk

/-- The elements are divided among the queues, as their status says. -/
structure Partitioned (d : Disk R) : Prop where
  perm : (d.bc.bcFreeq ++ d.bc.bcPendq ++ d.bc.bcBusyq).Perm (List.finRange BLOCKIF_MAXREQ)
  free : ∀ be ∈ d.bc.bcFreeq, (d.bc.bcReqs be).beStatus = .free
  pend : ∀ be ∈ d.bc.bcPendq,
    (d.bc.bcReqs be).beStatus = .pend ∨ (d.bc.bcReqs be).beStatus = .block
  busy : ∀ be ∈ d.bc.bcBusyq,
    (d.bc.bcReqs be).beStatus = .busy ∨ (d.bc.bcReqs be).beStatus = .done

/-- A blocked element has another one in flight or ahead of it that ends where it starts. -/
def BlockersAhead (d : Disk R) : Prop :=
  ∀ be ∈ d.bc.bcPendq, (d.bc.bcReqs be).beStatus = .block →
    ∃ tbe, (tbe ∈ d.bc.bcBusyq ∨ [tbe, be].Sublist d.bc.bcPendq) ∧
      d.offset be = some (d.bc.bcReqs tbe).beBlock

structure Inv (d : Disk R) : Prop extends Partitioned d where
  magic : d.bc.bcMagic = BLOCKIF_SIG
  sector : 0 < d.bc.bcSectsz
  held : ∀ be ∈ d.bc.bcPendq, (d.bc.bcReqs be).beReq ≠ none
  ahead : d.BlockersAhead

namespace Partitioned

variable (h : d.Partitioned)

include h

theorem nodup : (d.bc.bcFreeq ++ d.bc.bcPendq ++ d.bc.bcBusyq).Nodup :=
  h.perm.nodup_iff.mpr (List.nodup_finRange _)

theorem pendq_nodup : d.bc.bcPendq.Nodup := by
  have hNodup := h.nodup
  simp only [List.nodup_append] at hNodup
  exact hNodup.1.2.1

theorem busyq_nodup : d.bc.bcBusyq.Nodup := by
  have hNodup := h.nodup
  simp only [List.nodup_append] at hNodup
  exact hNodup.2.1

theorem not_free_of_pend (hPend : be ∈ d.bc.bcPendq) : be ∉ d.bc.bcFreeq := by
  intro hFree
  have hStatus := h.pend be hPend
  rw [h.free be hFree] at hStatus
  simp at hStatus

theorem not_busy_of_pend (hPend : be ∈ d.bc.bcPendq) : be ∉ d.bc.bcBusyq := by
  intro hBusy
  obtain hStatus | hStatus := h.busy be hBusy <;> simpa [hStatus] using h.pend be hPend

theorem not_pend_of_busy (hBusy : be ∈ d.bc.bcBusyq) : be ∉ d.bc.bcPendq :=
  fun hPend => h.not_busy_of_pend hPend hBusy

theorem not_pend_of_free (hFree : be ∈ d.bc.bcFreeq) : be ∉ d.bc.bcPendq :=
  fun hPend => h.not_free_of_pend hPend hFree

theorem not_free_of_busy (hBusy : be ∈ d.bc.bcBusyq) : be ∉ d.bc.bcFreeq := by
  intro hFree
  have hStatus := h.busy be hBusy
  rw [h.free be hFree] at hStatus
  simp at hStatus

end Partitioned

variable {breq : R} {op : BlockOp}

theorem blockifEnqueue_cases (hOk : d.blockifEnqueue breq op = .ok d') :
    ∃ be freeq status off, d.bc.bcFreeq = be :: freeq ∧
      (status = .pend ∨ status = .block ∧ ∃ tbe, (tbe ∈ d.bc.bcBusyq ∨ tbe ∈ d.bc.bcPendq) ∧
        (d.bc.bcReqs tbe).beBlock = (d.req breq).brOffset) ∧
      d' = { d with
        bc.bcFreeq := freeq
        bc.bcPendq := d.bc.bcPendq ++ [be]
        bc.bcReqs := Function.update d.bc.bcReqs be ⟨some breq, op, status, off⟩ } := by
  unfold blockifEnqueue at hOk
  cases hFree : d.bc.bcFreeq with
  | nil =>
    rw [hFree] at hOk
    cases hOk
  | cons be freeq =>
    rw [hFree] at hOk
    obtain ⟨_, -, hOk⟩ := bind_eq_ok_iff.mp hOk
    obtain rfl := Except.ok.inj hOk
    refine ⟨be, freeq, _, _, rfl, ?_, rfl⟩
    split
    · next hEnds =>
      simp only [Bool.or_eq_true, List.any_eq_true, decide_eq_true_eq] at hEnds
      obtain ⟨tbe, hMem, hEnd⟩ | ⟨tbe, hMem, hEnd⟩ := hEnds
      · exact .inr ⟨rfl, tbe, .inr hMem, hEnd⟩
      · exact .inr ⟨rfl, tbe, .inl hMem, hEnd⟩
    · exact .inl rfl

theorem blockifEnqueue_returns (h : d.Inv) (hFree : d.bc.bcFreeq ≠ []) :
    Returns (d.blockifEnqueue breq op) := by
  unfold blockifEnqueue
  cases hQueue : d.bc.bcFreeq with
  | nil => exact absurd hQueue hFree
  | cons be freeq =>
    have hStatus : (d.bc.bcReqs be).beStatus = .free := h.free be (by simp [hQueue])
    simp [hStatus]

theorem blockifEnqueue_inv (h : d.Inv) (hOk : d.blockifEnqueue breq op = .ok d') : d'.Inv := by
  obtain ⟨be, freeq, status, off, hQueue, hStatus, rfl⟩ := blockifEnqueue_cases hOk
  have hFree : be ∈ d.bc.bcFreeq := by simp [hQueue]
  have hNew : ∀ tbe ∈ d.bc.bcPendq ++ d.bc.bcBusyq, tbe ≠ be := by
    rintro tbe hMem rfl
    obtain hMem | hMem := List.mem_append.mp hMem
    · exact h.not_pend_of_free hFree hMem
    · exact h.not_free_of_busy hMem hFree
  have hPend : ∀ tbe ∈ d.bc.bcPendq, tbe ≠ be := fun tbe hMem => hNew tbe (by simp [hMem])
  have hBusy : ∀ tbe ∈ d.bc.bcBusyq, tbe ≠ be := fun tbe hMem => hNew tbe (by simp [hMem])
  refine ⟨⟨?_, ?_, ?_, ?_⟩, h.magic, h.sector, ?_, ?_⟩
  · refine List.Perm.trans ?_ h.perm
    rw [hQueue]
    refine List.Perm.append_right _ ?_
    have hComm : (freeq ++ d.bc.bcPendq ++ [be]).Perm ([be] ++ (freeq ++ d.bc.bcPendq)) :=
      List.perm_append_comm
    simpa using hComm
  · intro tbe hMem
    have hTail : tbe ∈ d.bc.bcFreeq := by simp [hQueue, hMem]
    have hNe : tbe ≠ be := by
      rintro rfl
      have hNodup := h.nodup
      simp [hQueue, hMem] at hNodup
    simpa [Function.update_of_ne hNe] using h.free tbe hTail
  · intro tbe hMem
    obtain hMem | hMem := List.mem_append.mp hMem
    · simpa [Function.update_of_ne (hPend tbe hMem)] using h.pend tbe hMem
    · obtain rfl := List.mem_singleton.mp hMem
      obtain rfl | ⟨rfl, -⟩ := hStatus <;> simp
  · intro tbe hMem
    simpa [Function.update_of_ne (hBusy tbe hMem)] using h.busy tbe hMem
  · intro tbe hMem
    obtain hMem | hMem := List.mem_append.mp hMem
    · simpa [Function.update_of_ne (hPend tbe hMem)] using h.held tbe hMem
    · obtain rfl := List.mem_singleton.mp hMem
      simp
  · intro tbe hMem hBlock
    obtain hMem | hMem := List.mem_append.mp hMem
    · have hNe := hPend tbe hMem
      simp only [Function.update_of_ne hNe] at hBlock
      obtain ⟨bbe, hAhead, hEnd⟩ := h.ahead tbe hMem hBlock
      have hBlocker : bbe ≠ be := by
        obtain hAhead | hAhead := hAhead
        · exact hBusy bbe hAhead
        · exact hPend bbe (hAhead.subset (by simp))
      refine ⟨bbe, ?_, ?_⟩
      · exact hAhead.imp_right fun hAhead => hAhead.trans (List.sublist_append_left _ _)
      · simpa [offset, Function.update_of_ne hNe, Function.update_of_ne hBlocker] using hEnd
    · obtain rfl := List.mem_singleton.mp hMem
      obtain rfl | ⟨rfl, bbe, hQueued, hEnd⟩ := hStatus
      · simp at hBlock
      · have hBlocker : bbe ≠ tbe := hNew bbe (by simpa [or_comm] using hQueued)
        refine ⟨bbe, hQueued.imp_right fun hMem => ?_, ?_⟩
        · exact (List.singleton_sublist.mpr hMem).append (List.Sublist.refl [tbe])
        · simp [offset, Function.update_of_ne hBlocker, hEnd]

theorem Inv.of_same (h : d.Inv) (hMagic : d'.bc.bcMagic = d.bc.bcMagic)
    (hSector : d'.bc.bcSectsz = d.bc.bcSectsz)
    (hFreeq : d'.bc.bcFreeq = d.bc.bcFreeq) (hPendq : d'.bc.bcPendq = d.bc.bcPendq)
    (hBusyq : d'.bc.bcBusyq = d.bc.bcBusyq)
    (hReq : ∀ be, (d'.bc.bcReqs be).beReq = (d.bc.bcReqs be).beReq)
    (hBlock : ∀ be, (d'.bc.bcReqs be).beBlock = (d.bc.bcReqs be).beBlock)
    (hStatus : ∀ be ∉ d.bc.bcBusyq, (d'.bc.bcReqs be).beStatus = (d.bc.bcReqs be).beStatus)
    (hBusy : ∀ be ∈ d.bc.bcBusyq,
      (d'.bc.bcReqs be).beStatus = .busy ∨ (d'.bc.bcReqs be).beStatus = .done)
    (hOffset : ∀ be ∈ d.bc.bcPendq, d'.offset be = d.offset be) : d'.Inv := by
  refine ⟨⟨?_, ?_, ?_, ?_⟩, hMagic.trans h.magic, by rw [hSector]; exact h.sector, ?_, ?_⟩
  · rw [hFreeq, hPendq, hBusyq]
    exact h.perm
  · rw [hFreeq]
    intro be hMem
    rw [hStatus be fun hMem' => h.not_free_of_busy hMem' hMem]
    exact h.free be hMem
  · rw [hPendq]
    intro be hMem
    rw [hStatus be (h.not_busy_of_pend hMem)]
    exact h.pend be hMem
  · rw [hBusyq]
    exact hBusy
  · rw [hPendq]
    intro be hMem
    rw [hReq]
    exact h.held be hMem
  · unfold BlockersAhead
    rw [hPendq, hBusyq]
    intro be hMem hBlocked
    rw [hStatus be (h.not_busy_of_pend hMem)] at hBlocked
    obtain ⟨tbe, hAhead, hEnd⟩ := h.ahead be hMem hBlocked
    exact ⟨tbe, hAhead, by rw [hOffset be hMem, hBlock, hEnd]⟩

theorem Inv.mutex (h : d.Inv) (m : PthreadMutex) : Inv { d with bc.bcMtx := m } :=
  h.of_same rfl rfl rfl rfl rfl (fun _ => rfl) (fun _ => rfl) (fun _ _ => rfl) h.busy fun _ _ => rfl

theorem Inv.lock (h : d.Inv) : d.lock.Inv := h.mutex _

/-- While nothing is in flight, the first element of the queue is pending. -/
theorem Inv.head_pend (h : d.Inv) (hIdle : d.bc.bcBusyq = []) {queue : List ElemId}
    (hPendq : d.bc.bcPendq = be :: queue) : (d.bc.bcReqs be).beStatus = .pend := by
  obtain hPend | hBlock := h.pend be (by simp [hPendq])
  · exact hPend
  · have hNodup := h.pendq_nodup
    obtain ⟨tbe, hBusy | hAhead, -⟩ := h.ahead be (by simp [hPendq]) hBlock
    · simp [hIdle] at hBusy
    · rw [hPendq] at hAhead hNodup
      have hTail : [be].Sublist queue := by
        cases hAhead with
        | cons _ hAhead => exact (List.sublist_cons_self _ _).trans hAhead
        | cons_cons _ hAhead => exact hAhead
      exact absurd (List.singleton_sublist.mp hTail) (List.nodup_cons.mp hNodup).1

def dispatched (d : Disk R) (be : ElemId) (queue : List ElemId) : Disk R :=
  { d with
    bc.bcPendq := queue
    bc.bcBusyq := [be]
    bc.bcReqs := Function.update d.bc.bcReqs be { d.bc.bcReqs be with beStatus := .busy } }

theorem blockifDequeue_nil (hPendq : d.bc.bcPendq = []) : d.blockifDequeue = .ok none := by
  unfold blockifDequeue
  rw [hPendq]
  rfl

theorem blockifDequeue_cons (h : d.Inv) (hIdle : d.bc.bcBusyq = []) {queue : List ElemId}
    (hPendq : d.bc.bcPendq = be :: queue) :
    d.blockifDequeue = .ok (some (be, d.dispatched be queue)) := by
  have hFirst : firstPend d.bc.bcReqs (be :: queue) = .ok (some be) :=
    if_pos (h.head_pend hIdle hPendq)
  unfold blockifDequeue
  rw [hPendq, hFirst]
  simp [dispatched, setStatus, setElem, hPendq, hIdle]

theorem Inv.dispatched (h : d.Inv) (hIdle : d.bc.bcBusyq = []) {queue : List ElemId}
    (hPendq : d.bc.bcPendq = be :: queue) : (d.dispatched be queue).Inv := by
  have hNodup := h.pendq_nodup
  rw [hPendq] at hNodup
  have hHead : be ∈ d.bc.bcPendq := by simp [hPendq]
  have hTail : ∀ tbe ∈ queue, tbe ∈ d.bc.bcPendq ∧ tbe ≠ be := by
    intro tbe hMem
    refine ⟨by simp [hPendq, hMem], ?_⟩
    rintro rfl
    exact (List.nodup_cons.mp hNodup).1 hMem
  refine ⟨⟨?_, ?_, ?_, ?_⟩, h.magic, h.sector, ?_, ?_⟩
  · refine List.Perm.trans ?_ h.perm
    simp only [Disk.dispatched, hPendq, hIdle, List.append_nil, List.append_assoc]
    exact List.Perm.append_left _ List.perm_append_comm
  · intro tbe hMem
    have hNe : tbe ≠ be := by
      rintro rfl
      exact h.not_free_of_pend hHead hMem
    simpa [Disk.dispatched, Function.update_of_ne hNe] using h.free tbe hMem
  · intro tbe hMem
    obtain ⟨hMem, hNe⟩ := hTail tbe hMem
    simpa [Disk.dispatched, Function.update_of_ne hNe] using h.pend tbe hMem
  · intro tbe hMem
    obtain rfl := List.mem_singleton.mp hMem
    simp [Disk.dispatched]
  · intro tbe hMem
    obtain ⟨hMem, hNe⟩ := hTail tbe hMem
    simpa [Disk.dispatched, Function.update_of_ne hNe] using h.held tbe hMem
  · intro tbe hMem hBlock
    obtain ⟨hMem, hNe⟩ := hTail tbe hMem
    simp only [Disk.dispatched, Function.update_of_ne hNe] at hBlock
    obtain ⟨bbe, hAhead, hEnd⟩ := h.ahead tbe hMem hBlock
    have hSame : ((d.dispatched be queue).bc.bcReqs bbe).beBlock = (d.bc.bcReqs bbe).beBlock := by
      by_cases hHit : bbe = be
      · subst hHit
        simp [Disk.dispatched]
      · simp [Disk.dispatched, Function.update_of_ne hHit]
    refine ⟨bbe, ?_, ?_⟩
    · rw [hIdle, hPendq] at hAhead
      obtain hAhead | hAhead := hAhead
      · simp at hAhead
      · cases hAhead with
        | cons _ hAhead => exact .inr hAhead
        | cons_cons _ hAhead => exact .inl List.mem_cons_self
    · rw [hSame, ← hEnd]
      simp [offset, Disk.dispatched, Function.update_of_ne hNe]

def transferred (bc : BlockifCtxt R) (op : BlockOp) (req : BlockifReq) (mem : Memory) : Memory :=
  match op with
  | .read => readVecs (bc.bcBase + req.brOffset) req.brIov mem
  | .write => if bc.bcRdonly then mem else writeVecs (bc.bcBase + req.brOffset) req.brIov mem
  | .flush | .delete => mem

theorem blockifProc_cases [DecidableEq R] {br : R} (hReq : (d.bc.bcReqs be).beReq = some br) :
    ∃ err req, d.blockifProc be = .ok (br, err,
      { d with
        mem := transferred d.bc (d.bc.bcReqs be).beOp (d.req br) d.mem
        req := req
        bc.bcReqs := Function.update d.bc.bcReqs be { d.bc.bcReqs be with beStatus := .done } }) ∧
      ∀ r, (req r).brOffset = (d.req r).brOffset ∧ (req r).brIov = (d.req r).brIov := by
  have hResid : ∀ r, (Function.update d.req br { d.req br with brResid := 0 } r).brOffset =
      (d.req r).brOffset ∧
      (Function.update d.req br { d.req br with brResid := 0 } r).brIov = (d.req r).brIov := by
    intro r
    by_cases hHit : r = br
    · subst hHit
      simp
    · simp [Function.update_of_ne hHit]
  unfold blockifProc
  rw [hReq]
  cases hOp : (d.bc.bcReqs be).beOp with
  | read => exact ⟨0, _, rfl, hResid⟩
  | write =>
    cases hRdonly : d.bc.bcRdonly with
    | true => exact ⟨EROFS, d.req, by simp [transferred, hRdonly, setStatus, setElem],
        fun _ => ⟨rfl, rfl⟩⟩
    | false => exact ⟨0, _, by simp [transferred, hRdonly, setStatus, setElem], hResid⟩
  | flush => exact ⟨0, d.req, rfl, fun _ => ⟨rfl, rfl⟩⟩
  | delete => exact ⟨EOPNOTSUPP, d.req, rfl, fun _ => ⟨rfl, rfl⟩⟩

theorem Inv.processed (h : d.Inv) (hBusy : be ∈ d.bc.bcBusyq) (mem : Memory)
    {req : R → BlockifReq} (hReq : ∀ r, (req r).brOffset = (d.req r).brOffset) :
    Inv { d with
      mem := mem
      req := req
      bc.bcReqs := Function.update d.bc.bcReqs be { d.bc.bcReqs be with beStatus := .done } } := by
  refine h.of_same rfl rfl rfl rfl rfl ?_ ?_ ?_ ?_ ?_
  · intro tbe
    by_cases hHit : tbe = be
    · subst hHit
      simp
    · simp [Function.update_of_ne hHit]
  · intro tbe
    by_cases hHit : tbe = be
    · subst hHit
      simp
    · simp [Function.update_of_ne hHit]
  · intro tbe hNot
    have hNe : tbe ≠ be := by
      rintro rfl
      exact hNot hBusy
    simp [Function.update_of_ne hNe]
  · intro tbe hMem
    by_cases hHit : tbe = be
    · subst hHit
      simp
    · simpa [Function.update_of_ne hHit] using h.busy tbe hMem
  · intro tbe hMem
    have hNe : tbe ≠ be := by
      rintro rfl
      exact h.not_busy_of_pend hMem hBusy
    simp [offset, Function.update_of_ne hNe, hReq]

section Complete

variable (h : d.Inv)

include h

theorem blockifComplete_pendq : (d.blockifComplete be).bc.bcPendq = d.bc.bcPendq.erase be := by
  simp only [blockifComplete]
  split
  · next hFlight =>
    refine (List.erase_of_not_mem fun hPend => ?_).symm
    obtain hStatus | hStatus := hFlight <;> simpa [hStatus] using h.pend be hPend
  · rfl

theorem blockifComplete_busyq : (d.blockifComplete be).bc.bcBusyq = d.bc.bcBusyq.erase be := by
  simp only [blockifComplete]
  split
  · rfl
  · next hFlight =>
    refine (List.erase_of_not_mem fun hBusy => hFlight ?_).symm
    exact (h.busy be hBusy).symm

omit h in
theorem blockifComplete_freeq : (d.blockifComplete be).bc.bcFreeq = d.bc.bcFreeq ++ [be] := rfl

/-- Another element only ever changes from blocked to pending. -/
theorem blockifComplete_reqs {tbe : ElemId} (hNe : tbe ≠ be) :
    (d.blockifComplete be).bc.bcReqs tbe =
      if tbe ∈ d.bc.bcPendq.erase be ∧ d.offset tbe = some (d.bc.bcReqs be).beBlock then
        { d.bc.bcReqs tbe with beStatus := .pend }
      else d.bc.bcReqs tbe := by
  have hPendq : (d.blockifComplete be).bc.bcPendq = _ := blockifComplete_pendq h
  simp only [blockifComplete] at hPendq ⊢
  rw [Function.update_of_ne hNe, hPendq]

theorem blockifComplete_kept {tbe : ElemId} (hNe : tbe ≠ be) :
    ((d.blockifComplete be).bc.bcReqs tbe).beReq = (d.bc.bcReqs tbe).beReq ∧
      ((d.blockifComplete be).bc.bcReqs tbe).beOp = (d.bc.bcReqs tbe).beOp ∧
      ((d.blockifComplete be).bc.bcReqs tbe).beBlock = (d.bc.bcReqs tbe).beBlock := by
  rw [blockifComplete_reqs h hNe]
  split <;> exact ⟨rfl, rfl, rfl⟩

theorem Inv.complete (hQueued : be ∈ d.bc.bcPendq ∨ be ∈ d.bc.bcBusyq) :
    (d.blockifComplete be).Inv := by
  have hPendq : (d.blockifComplete be).bc.bcPendq = _ := blockifComplete_pendq h
  have hBusyq : (d.blockifComplete be).bc.bcBusyq = _ := blockifComplete_busyq h
  have hReqs : ∀ tbe, tbe ≠ be → (d.blockifComplete be).bc.bcReqs tbe = _ :=
    fun tbe hNe => blockifComplete_reqs h hNe
  have hPend : ∀ tbe ∈ d.bc.bcPendq.erase be, tbe ∈ d.bc.bcPendq ∧ tbe ≠ be :=
    fun tbe hMem => ((List.Nodup.mem_erase_iff h.pendq_nodup).mp hMem).symm
  refine ⟨⟨?_, ?_, ?_, ?_⟩, h.magic, h.sector, ?_, ?_⟩
  · refine List.Perm.trans ?_ h.perm
    rw [hPendq, hBusyq, blockifComplete_freeq]
    obtain hMem | hMem := hQueued
    · rw [List.erase_of_not_mem (h.not_busy_of_pend hMem)]
      refine List.Perm.append_right _ ?_
      rw [List.append_assoc]
      exact List.Perm.append_left _ (List.perm_cons_erase hMem).symm
    · rw [List.erase_of_not_mem (h.not_pend_of_busy hMem)]
      simp only [List.append_assoc]
      refine List.Perm.append_left _ ?_
      rw [← List.append_assoc]
      refine (List.Perm.append_right _ List.perm_append_comm).trans ?_
      rw [List.append_assoc]
      exact List.Perm.append_left _ (List.perm_cons_erase hMem).symm
  · intro tbe hMem
    rw [blockifComplete_freeq] at hMem
    by_cases hHit : tbe = be
    · subst hHit
      simp [blockifComplete]
    · obtain hMem | hMem := List.mem_append.mp hMem
      · rw [hReqs tbe hHit, if_neg fun hWoken => h.not_free_of_pend (hPend tbe hWoken.1).1 hMem]
        exact h.free tbe hMem
      · exact absurd (List.mem_singleton.mp hMem) hHit
  · rw [hPendq]
    intro tbe hMem
    obtain ⟨hMem, hNe⟩ := hPend tbe hMem
    rw [hReqs tbe hNe]
    split
    · exact .inl rfl
    · exact h.pend tbe hMem
  · rw [hBusyq]
    intro tbe hMem
    obtain ⟨hNe, hMem⟩ := (List.Nodup.mem_erase_iff h.busyq_nodup).mp hMem
    rw [hReqs tbe hNe, if_neg fun hWoken => h.not_busy_of_pend (hPend tbe hWoken.1).1 hMem]
    exact h.busy tbe hMem
  · rw [hPendq]
    intro tbe hMem
    obtain ⟨hMem, hNe⟩ := hPend tbe hMem
    rw [(blockifComplete_kept h hNe).1]
    exact h.held tbe hMem
  · unfold BlockersAhead
    rw [hPendq, hBusyq]
    intro tbe hMem hBlocked
    obtain ⟨hMem', hNe⟩ := hPend tbe hMem
    rw [hReqs tbe hNe] at hBlocked
    split at hBlocked
    · simp at hBlocked
    · next hAsleep =>
      -- what `tbe` waits for is not `be`, so it is still there
      obtain ⟨bbe, hAhead, hEnd⟩ := h.ahead tbe hMem' hBlocked
      have hBlocker : bbe ≠ be := by
        rintro rfl
        exact hAsleep ⟨hMem, hEnd⟩
      refine ⟨bbe, ?_, ?_⟩
      · obtain hBusy | hAhead := hAhead
        · exact .inl ((List.mem_erase_of_ne hBlocker).mpr hBusy)
        · refine .inr ?_
          have hErase := hAhead.erase be
          rwa [List.erase_of_not_mem (by simp [Ne.symm hBlocker, Ne.symm hNe])] at hErase
      · rw [(blockifComplete_kept h hBlocker).2.2, ← hEnd]
        simp only [offset, (blockifComplete_kept h hNe).1]
        rfl

end Complete

variable [DecidableEq R]

/-- The request is queued, and until it is processed its structure is the interface's. -/
def Holds (d : Disk R) (r : R) : Prop := ∃ be ∈ d.bc.bcPendq, (d.bc.bcReqs be).beReq = some r

instance (r : R) : Decidable (d.Holds r) :=
  inferInstanceAs (Decidable (∃ be ∈ d.bc.bcPendq, _))

end Disk

inductive Call (R : Type) where
  | fill (r : R) (breq : BlockifReq)
  | request (op : BlockOp) (r : R)
  | cancel (r : R)

/-- A call of a user, who fills in a structure only while it is its own. -/
def Disk.call [DecidableEq R] (d : Disk R) : Call R → Except Fault (Disk R)
  | .fill r breq => .ok (if d.Holds r then d else { d with req := Function.update d.req r breq })
  | .request op r => (d.blockifOp op r).map Prod.snd
  | .cancel r => (d.blockifCancel r).map Prod.snd

/-- What happens to the disk. `process` is a round of `blockif_thr` up to the callback, and
`complete` is what comes after it; `blockif_thr` does not run inside of itself. -/
inductive Act (R : Type) where
  | call (call : Call R)
  | mutex (mutex : PthreadMutex)
  | process
  | complete

def Disk.process [DecidableEq R] (d : Disk R) : Except Fault (Disk R) := do
  match ← d.blockifDequeue with
  | none => .ok d
  | some (be, d) =>
    let (_, _, d) ← d.blockifProc be
    .ok d

def Disk.act [DecidableEq R] (d : Disk R) : Act R → Except Fault (Disk R)
  | .call call => d.call call
  | .mutex mutex => .ok { d with bc.bcMtx := mutex }
  | .process => if d.bc.bcBusyq = [] then d.process else .ok d
  | .complete =>
    match d.bc.bcBusyq with
    | [] => .ok d
    | be :: _ => .ok (d.blockifComplete be)

namespace Disk

variable [DecidableEq R] {r : R} {op : BlockOp}

omit [DecidableEq R] in
theorem blockifOp_cases (op : BlockOp) (r : R) (h : d.Inv) :
    d.bc.bcFreeq = [] ∧ d.blockifOp op r = .ok (E2BIG, d.lock.unlock) ∨
      ∃ d', d.lock.blockifEnqueue r op = .ok d' ∧ d.blockifOp op r = .ok (0, d'.unlock) := by
  unfold blockifOp blockifRequest
  rw [assertThat_of _ h.magic, ok_bind]
  by_cases hFree : d.bc.bcFreeq = []
  · exact .inl ⟨hFree, if_pos hFree⟩
  · have hReturns : Returns (d.lock.blockifEnqueue r op) := blockifEnqueue_returns h.lock hFree
    obtain ⟨d', hOk⟩ := hReturns
    exact .inr ⟨d', hOk, by rw [if_neg hFree, hOk]; rfl⟩

theorem find_some {queue : List ElemId} (hFind : d.find queue r = some be) :
    be ∈ queue ∧ (d.bc.bcReqs be).beReq = some r :=
  ⟨List.mem_of_find?_eq_some hFind, by simpa using List.find?_some hFind⟩

/-- Nothing is in flight but the element whose callback runs, and that is done. -/
def Quiet (d : Disk R) : Prop :=
  d.bc.bcBusyq = [] ∨ ∃ be, d.bc.bcBusyq = [be] ∧ (d.bc.bcReqs be).beStatus = .done

omit [DecidableEq R] in
theorem Quiet.not_busy (hQuiet : d.Quiet) (hMem : be ∈ d.bc.bcBusyq) :
    (d.bc.bcReqs be).beStatus ≠ .busy := by
  obtain hIdle | ⟨tbe, hBusyq, hDone⟩ := hQuiet
  · simp [hIdle] at hMem
  · obtain rfl : be = tbe := by simpa [hBusyq] using hMem
    simp [hDone]

theorem blockifCancel_cases (r : R) (h : d.Inv) (hQuiet : d.Quiet) :
    (∃ be ∈ d.bc.bcPendq, (d.bc.bcReqs be).beReq = some r ∧ d.find d.bc.bcPendq r = some be ∧
      d.blockifCancel r = .ok (0, (d.lock.blockifComplete be).unlock)) ∨
    d.find d.bc.bcPendq r = none ∧ ∃ res, d.blockifCancel r = .ok (res, d.lock.unlock) ∧
      (res = EINVAL ∨ res = EBUSY ∧ d.bc.bcBusyq ≠ []) := by
  unfold blockifCancel
  rw [assertThat_of _ h.magic, ok_bind]
  cases hPend : d.find d.bc.bcPendq r with
  | some be =>
    obtain ⟨hMem, hReq⟩ := find_some hPend
    refine .inl ⟨be, hMem, hReq, rfl, ?_⟩
    have hLock : d.lock.find d.lock.bc.bcPendq r = some be := hPend
    simp only [hLock]
  | none =>
    have hLock : d.lock.find d.lock.bc.bcPendq r = none := hPend
    refine .inr ⟨rfl, ?_⟩
    simp only [hLock]
    cases hBusy : d.find d.bc.bcBusyq r with
    | none =>
      have hLock' : d.lock.find d.lock.bc.bcBusyq r = none := hBusy
      exact ⟨EINVAL, by simp only [hLock'], .inl rfl⟩
    | some be =>
      have hLock' : d.lock.find d.lock.bc.bcBusyq r = some be := hBusy
      obtain ⟨hMem, -⟩ := find_some hBusy
      have hDone : (d.lock.bc.bcReqs be).beStatus ≠ .busy := hQuiet.not_busy hMem
      refine ⟨EBUSY, ?_, .inr ⟨rfl, List.ne_nil_of_mem hMem⟩⟩
      simp only [hLock']
      rw [assertThat_of _ hDone, ok_bind]

structure Steady (d : Disk R) : Prop extends Inv d where
  quiet : d.Quiet

omit [DecidableEq R] in
theorem Quiet.of_same (hQuiet : d.Quiet) (hBusyq : d'.bc.bcBusyq = d.bc.bcBusyq)
    (hStatus : ∀ be ∈ d.bc.bcBusyq,
      (d'.bc.bcReqs be).beStatus = (d.bc.bcReqs be).beStatus) : d'.Quiet := by
  obtain hIdle | ⟨be, hBusy, hDone⟩ := hQuiet
  · exact .inl (hBusyq.trans hIdle)
  · exact .inr ⟨be, hBusyq.trans hBusy, (hStatus be (by simp [hBusy])).trans hDone⟩

structure CallKeeps (d d' : Disk R) : Prop where
  steady : d'.Steady
  busyq : d'.bc.bcBusyq = d.bc.bcBusyq
  pendq : d'.bc.bcPendq.length ≤ d.bc.bcPendq.length + 1

omit [DecidableEq R] in
theorem Steady.mutex (h : d.Steady) (m : PthreadMutex) : Steady { d with bc.bcMtx := m } :=
  ⟨h.toInv.mutex m, h.quiet⟩

omit [DecidableEq R] in
theorem Steady.memory (h : d.Steady) (m : Memory) : Steady { d with mem := m } :=
  ⟨⟨⟨h.perm, h.free, h.pend, h.busy⟩, h.magic, h.sector, h.held, h.ahead⟩, h.quiet⟩

theorem fill_keeps (h : d.Steady) (hOwn : ¬ d.Holds r) (breq : BlockifReq) :
    CallKeeps d { d with req := Function.update d.req r breq } := by
  have hOffset : ∀ be ∈ d.bc.bcPendq,
      (offset { d with req := Function.update d.req r breq } be) = d.offset be := by
    intro be hMem
    cases hReq : (d.bc.bcReqs be).beReq with
    | none => simp [offset, hReq]
    | some r' =>
      have hNe : r' ≠ r := by
        rintro rfl
        exact hOwn ⟨be, hMem, hReq⟩
      simp [offset, hReq, Function.update_of_ne hNe]
  have hInv : Inv { d with req := Function.update d.req r breq } :=
    h.toInv.of_same rfl rfl rfl rfl rfl (fun _ => rfl) (fun _ => rfl) (fun _ _ => rfl) h.busy hOffset
  exact ⟨⟨hInv, h.quiet⟩, rfl, Nat.le_succ _⟩

omit [DecidableEq R] in
theorem enqueue_keeps (h : d.Steady) (hOk : d.blockifEnqueue r op = .ok d') : CallKeeps d d' := by
  have hInv := blockifEnqueue_inv h.toInv hOk
  obtain ⟨be, freeq, status, off, hQueue, hStatus, rfl⟩ := blockifEnqueue_cases hOk
  refine ⟨⟨hInv, h.quiet.of_same rfl fun tbe hMem => ?_⟩, rfl, by simp⟩
  have hNe : tbe ≠ be := by
    rintro rfl
    exact h.not_free_of_busy hMem (by simp [hQueue])
  simp [Function.update_of_ne hNe]

omit [DecidableEq R] in
theorem cancel_keeps (h : d.Steady) (hMem : be ∈ d.bc.bcPendq) :
    CallKeeps d (d.blockifComplete be) := by
  have hNot := h.not_busy_of_pend hMem
  have hBusyq : (d.blockifComplete be).bc.bcBusyq = d.bc.bcBusyq := by
    rw [blockifComplete_busyq h.toInv, List.erase_of_not_mem hNot]
  refine ⟨⟨h.toInv.complete (.inl hMem), h.quiet.of_same hBusyq fun tbe hBusy => ?_⟩, hBusyq, ?_⟩
  · have hNe : tbe ≠ be := by
      rintro rfl
      exact hNot hBusy
    rw [blockifComplete_reqs h.toInv hNe, if_neg]
    rintro ⟨hPend, -⟩
    exact h.not_pend_of_busy hBusy (List.mem_of_mem_erase hPend)
  · rw [blockifComplete_pendq h.toInv]
    exact (List.erase_sublist.length_le).trans (Nat.le_succ _)

theorem call_keeps (h : d.Steady) (call : Call R) :
    Yields (fun _ => False) (CallKeeps d) (d.call call) := by
  have hLock : d.lock.Steady := h.mutex _
  have hSame : CallKeeps d d.lock.unlock := ⟨hLock.mutex _, rfl, Nat.le_succ _⟩
  have hUnlock : ∀ d', CallKeeps d.lock d' → CallKeeps d d'.unlock := fun d' hKeeps =>
    ⟨hKeeps.steady.mutex _, hKeeps.busyq, hKeeps.pendq⟩
  cases call with
  | fill r breq =>
    rw [Disk.call, yields_ok]
    split
    · exact ⟨h, rfl, Nat.le_succ _⟩
    · next hOwn => exact fill_keeps h hOwn breq
  | request op r =>
    refine Yields.map ?_
    obtain ⟨-, hRefused⟩ | ⟨d', hOk, hAccepted⟩ := blockifOp_cases op r h.toInv
    · rw [hRefused]
      exact hSame
    · rw [hAccepted]
      exact hUnlock d' (enqueue_keeps hLock hOk)
  | cancel r =>
    refine Yields.map ?_
    obtain ⟨be, hMem, -, -, hFound⟩ | ⟨-, res, hNone, -⟩ := blockifCancel_cases r h.toInv h.quiet
    · rw [hFound]
      exact hUnlock _ (cancel_keeps hLock hMem)
    · rw [hNone]
      exact hSame

theorem calls_keep (h : d.Steady) (calls : List (Call R)) : Yields (fun _ => False)
    (fun d' => d'.Steady ∧ d'.bc.bcBusyq = d.bc.bcBusyq ∧
      d'.bc.bcPendq.length ≤ d.bc.bcPendq.length + calls.length) (run call d calls) := by
  induction calls generalizing d with
  | nil => exact ⟨h, rfl, Nat.le_refl _⟩
  | cons c calls ih =>
    refine (call_keeps h c).bind fun d' _ hKeeps => (ih hKeeps.steady).imp ?_
    rintro d'' - ⟨hSteady, hBusyq, hPendq⟩
    refine ⟨hSteady, hBusyq.trans hKeeps.busyq, ?_⟩
    have hOne := hKeeps.pendq
    simp only [List.length_cons]
    omega

/-- The head of the queue has been processed and its callback runs. -/
structure Served (d d' : Disk R) (be : ElemId) (br : R) : Prop where
  steady : d'.Steady
  beReq : (d.bc.bcReqs be).beReq = some br
  pendq : d.bc.bcPendq = be :: d'.bc.bcPendq
  busyq : d'.bc.bcBusyq = [be]
  reqs : d'.bc.bcReqs = Function.update d.bc.bcReqs be { d.bc.bcReqs be with beStatus := .done }
  disk : d'.bc.bcBase = d.bc.bcBase ∧ d'.bc.bcRdonly = d.bc.bcRdonly
  mem : d'.mem = transferred d.bc (d.bc.bcReqs be).beOp (d.req br) d.mem
  req : ∀ r, (d'.req r).brOffset = (d.req r).brOffset ∧ (d'.req r).brIov = (d.req r).brIov

theorem blockifProc_served (h : d.Steady) (hIdle : d.bc.bcBusyq = []) {queue : List ElemId}
    (hPendq : d.bc.bcPendq = be :: queue) : ∃ br err d',
      (d.dispatched be queue).blockifProc be = .ok (br, err, d') ∧ Served d d' be br := by
  cases hReq : (d.bc.bcReqs be).beReq with
  | none => exact absurd hReq (h.held be (by simp [hPendq]))
  | some br =>
    have hReq' : ((d.dispatched be queue).bc.bcReqs be).beReq = some br := by
      simp [dispatched, hReq]
    have hBusy : be ∈ (d.dispatched be queue).bc.bcBusyq := by simp [dispatched]
    obtain ⟨err, req, hOk, hSame⟩ := blockifProc_cases hReq'
    have hInv := (h.toInv.dispatched hIdle hPendq).processed hBusy
      (transferred (d.dispatched be queue).bc ((d.dispatched be queue).bc.bcReqs be).beOp
        ((d.dispatched be queue).req br) (d.dispatched be queue).mem) fun r => (hSame r).1
    refine ⟨br, err, _, hOk, ⟨hInv, .inr ⟨be, rfl, ?_⟩⟩, hReq, hPendq, rfl, ?_, ⟨rfl, rfl⟩, ?_, hSame⟩
    · simp
    · simp [dispatched]
    · simp only [dispatched, Function.update_self]
      rfl

theorem process_cons (h : d.Steady) (hIdle : d.bc.bcBusyq = []) {queue : List ElemId}
    (hPendq : d.bc.bcPendq = be :: queue) :
    ∃ br d', d.process = .ok d' ∧ Served d d' be br := by
  obtain ⟨br, err, d', hProc, hServed⟩ := blockifProc_served h hIdle hPendq
  refine ⟨br, d', ?_, hServed⟩
  unfold process
  rw [blockifDequeue_cons h.toInv hIdle hPendq, ok_bind]
  simp only [hProc, ok_bind]

theorem process_nil (hPendq : d.bc.bcPendq = []) : d.process = .ok d := by
  unfold process
  rw [blockifDequeue_nil hPendq]
  rfl

omit [DecidableEq R] in
theorem complete_keeps (h : d.Steady) (hBusyq : d.bc.bcBusyq = [be]) :
    (d.blockifComplete be).Steady ∧ (d.blockifComplete be).bc.bcBusyq = [] ∧
      (d.blockifComplete be).bc.bcPendq = d.bc.bcPendq := by
  have hMem : be ∈ d.bc.bcBusyq := by simp [hBusyq]
  have hNone : (d.blockifComplete be).bc.bcBusyq = [] := by
    rw [blockifComplete_busyq h.toInv, hBusyq]
    simp
  refine ⟨⟨h.toInv.complete (.inr hMem), .inl hNone⟩, hNone, ?_⟩
  rw [blockifComplete_pendq h.toInv, List.erase_of_not_mem (h.not_pend_of_busy hMem)]

theorem act_keeps (h : d.Steady) (a : Act R) : Yields (fun _ => False) Steady (d.act a) := by
  cases a with
  | call c => exact (call_keeps h c).imp fun _ _ hKeeps => hKeeps.steady
  | mutex m => exact h.mutex m
  | process =>
    unfold act
    dsimp only
    split
    · next hIdle =>
      cases hPendq : d.bc.bcPendq with
      | nil =>
        rw [process_nil hPendq]
        exact h
      | cons be queue =>
        obtain ⟨br, d', hOk, hServed⟩ := process_cons h hIdle hPendq
        rw [hOk]
        exact hServed.steady
    · exact h
  | complete =>
    unfold act
    dsimp only
    split
    · exact h
    · next be busyq hBusyq =>
      obtain hIdle | ⟨tbe, hOne, -⟩ := h.quiet
      · rw [hIdle] at hBusyq
        cases hBusyq
      · obtain ⟨rfl, rfl⟩ := List.cons.inj (hBusyq.symm.trans hOne)
        exact (complete_keeps h hBusyq).1

def opened (req : R → BlockifReq) (mem : Memory) : Disk R := ⟨blockifOpen, req, mem⟩

omit [DecidableEq R] in
theorem opened_steady (req : R → BlockifReq) (mem : Memory) : (opened req mem).Steady := by
  refine ⟨⟨⟨?_, ?_, ?_, ?_⟩, rfl, Nat.succ_pos 511, ?_, ?_⟩, .inl rfl⟩
  · simp [opened, blockifOpen]
  · exact fun _ _ => rfl
  · exact fun _ hMem => absurd hMem List.not_mem_nil
  · exact fun _ hMem => absurd hMem List.not_mem_nil
  · exact fun _ hMem => absurd hMem List.not_mem_nil
  · exact fun _ hMem => absurd hMem List.not_mem_nil

def queued (d : Disk R) : List (Option R) := d.bc.bcPendq.map fun be => (d.bc.bcReqs be).beReq

omit [DecidableEq R] in
theorem Partitioned.length_eq (h : d.Partitioned) :
    d.bc.bcFreeq.length + d.queued.length + d.bc.bcBusyq.length = BLOCKIF_MAXREQ := by
  have hLength := h.perm.length_eq
  simpa [queued, Nat.add_assoc] using hLength

omit [DecidableEq R] in
theorem holds_iff_mem_queued : d.Holds r ↔ some r ∈ d.queued := by
  simp [Holds, queued]

omit [DecidableEq R] in
theorem blockifOp_queued (h : d.Steady) (op : BlockOp) (r : R)
    (hRoom : d.queued.length + d.bc.bcBusyq.length < BLOCKIF_MAXREQ) :
    ∃ d', d.blockifOp op r = .ok (0, d') ∧ d'.Steady ∧ d'.bc.bcBusyq = d.bc.bcBusyq ∧
      d'.queued = d.queued ++ [some r] ∧ d'.req = d.req ∧ d'.mem = d.mem := by
  have hLength := h.length_eq
  have hLock : d.lock.Steady := h.mutex _
  obtain ⟨hFree, -⟩ | ⟨d', hOk, hAccepted⟩ := blockifOp_cases op r h.toInv
  · rw [hFree, List.length_nil] at hLength
    omega
  · refine ⟨d'.unlock, hAccepted, (enqueue_keeps hLock hOk).steady.mutex _,
      (enqueue_keeps hLock hOk).busyq, ?_⟩
    obtain ⟨be, freeq, status, off, hFree, -, rfl⟩ := blockifEnqueue_cases hOk
    refine ⟨?_, rfl, rfl⟩
    simp only [queued, unlock, lock, List.map_append, List.map_singleton, Function.update_self]
    congr 1
    refine List.map_congr_left fun tbe hMem => ?_
    have hNe : tbe ≠ be := by
      rintro rfl
      exact h.not_free_of_pend hMem (by simpa [lock] using hFree ▸ List.mem_cons_self)
    rw [Function.update_of_ne hNe]

omit [DecidableEq R] in
theorem blockifComplete_queued (h : d.Inv) (hMem : be ∈ d.bc.bcPendq) :
    d.queued.Perm ((d.bc.bcReqs be).beReq :: (d.blockifComplete be).queued) := by
  have hKept : (d.blockifComplete be).queued =
      (d.bc.bcPendq.erase be).map fun tbe => (d.bc.bcReqs tbe).beReq := by
    rw [queued, blockifComplete_pendq h]
    refine List.map_congr_left fun tbe hTail => ?_
    exact (blockifComplete_kept h ((List.Nodup.mem_erase_iff h.pendq_nodup).mp hTail).1).1
  rw [hKept]
  exact (List.perm_cons_erase hMem).map fun tbe => (d.bc.bcReqs tbe).beReq

/-- A request is cancelled exactly if it is queued. -/
theorem blockifCancel_queued (h : d.Steady) (r : R) :
    ∃ res d', d.blockifCancel r = .ok (res, d') ∧ d'.Steady ∧ d'.bc.bcBusyq = d.bc.bcBusyq ∧
      d'.req = d.req ∧ d'.mem = d.mem ∧
      (some r ∈ d.queued ∧ res = 0 ∧ d.queued.Perm (some r :: d'.queued) ∨
        some r ∉ d.queued ∧ res ≠ 0 ∧ d'.queued = d.queued) := by
  have hLock : d.lock.Steady := h.mutex _
  obtain ⟨be, hMem, hReq, -, hOk⟩ | ⟨hFind, res, hOk, hRes⟩ := blockifCancel_cases r h.toInv h.quiet
  · have hKeeps := cancel_keeps hLock hMem
    have hHolds : some r ∈ d.queued := holds_iff_mem_queued.mp ⟨be, hMem, hReq⟩
    refine ⟨0, _, hOk, hKeeps.steady.mutex _, hKeeps.busyq, rfl, rfl, .inl ⟨hHolds, rfl, ?_⟩⟩
    rw [← hReq]
    exact blockifComplete_queued (d := d.lock) hLock.toInv hMem
  · refine ⟨res, _, hOk, hLock.mutex _, rfl, rfl, rfl, .inr ⟨fun hHolds => ?_, ?_, rfl⟩⟩
    · obtain ⟨be, hMem, hReq⟩ := holds_iff_mem_queued.mpr hHolds
      have hNone := List.find?_eq_none.mp hFind be hMem
      simp [hReq] at hNone
    · obtain rfl | ⟨rfl, -⟩ := hRes <;> decide

omit [DecidableEq R] in
theorem Served.queued {br : R} (h : d.Steady) (hServed : Served d d' be br) :
    d.queued = some br :: d'.queued := by
  have hPendq := hServed.pendq
  have hNodup := h.pendq_nodup
  rw [hPendq] at hNodup
  simp only [Disk.queued, hPendq, List.map_cons, hServed.beReq]
  congr 1
  refine List.map_congr_left fun tbe hMem => ?_
  have hNe : tbe ≠ be := by
    rintro rfl
    exact (List.nodup_cons.mp hNodup).1 hMem
  rw [hServed.reqs, Function.update_of_ne hNe]

omit [DecidableEq R] in
theorem complete_queued (h : d.Steady) (hBusyq : d.bc.bcBusyq = [be]) :
    (d.blockifComplete be).queued = d.queued := by
  obtain ⟨-, -, hPendq⟩ := complete_keeps h hBusyq
  rw [queued, hPendq]
  refine List.map_congr_left fun tbe hMem => ?_
  have hNe : tbe ≠ be := by
    rintro rfl
    exact h.not_busy_of_pend hMem (by simp [hBusyq])
  exact (blockifComplete_kept h.toInv hNe).1

end Disk

section Thr

variable [DecidableEq R]

theorem Client.dequeue_of_thrRound {client : Client R σ} {s : σ}
    (hNone : client.thrRound s = .ok none) : (client.get s).blockifDequeue = .ok none := by
  unfold thrRound at hNone
  obtain ⟨next, hDequeue, hNone⟩ := bind_eq_ok_iff.mp hNone
  cases next with
  | none => exact hDequeue
  | some next =>
    obtain ⟨be, d⟩ := next
    obtain ⟨⟨br, err, d'⟩, -, hNone⟩ := bind_eq_ok_iff.mp hNone
    obtain ⟨s', -, hNone⟩ := bind_eq_ok_iff.mp hNone
    cases hNone

/-- A user whose callbacks make the calls of one list each, and none when the lists are used up. -/
def scripted : Client R (Disk R × List (List (Call R))) where
  get := Prod.fst
  put d s := (d, s.2)
  callback _ _ s := (run Disk.call s.1 (s.2.headD [])).map (·, s.2.tail)
  get_put _ _ := rfl

def work (s : Disk R × List (List (Call R))) : Nat :=
  s.1.bc.bcPendq.length + (s.2.map List.length).sum

/-- `blockif_thr` between two rounds, started at `d`. -/
structure BetweenRounds (d : Disk R) (s : Disk R × List (List (Call R))) : Prop where
  steady : s.1.Steady
  idle : s.1.bc.bcBusyq = []
  reached : ∃ acts, run Disk.act d acts = .ok s.1

theorem run_calls {calls : List (Call R)} :
    run Disk.act d (calls.map .call) = run Disk.call d calls := by
  induction calls generalizing d with
  | nil => rfl
  | cons c calls ih =>
    simp only [List.map_cons, run, Disk.act]
    cases d.call c with
    | ok d' => exact ih
    | error e => rfl

theorem thrRound_yields {s : Disk R × List (List (Call R))} (h : BetweenRounds d s) :
    Yields (fun _ => False)
      (fun next => ∀ s', next = some s' → BetweenRounds d s' ∧ work s' < work s)
      (scripted.thrRound s) := by
  obtain ⟨disk, script⟩ := s
  obtain ⟨hSteady, hIdle, acts, hActs⟩ := h
  unfold Client.thrRound
  simp only [scripted] at hSteady hIdle hActs ⊢
  cases hPendq : disk.bc.bcPendq with
  | nil =>
    rw [Disk.blockifDequeue_nil hPendq, ok_bind]
    rintro s' ⟨⟩
  | cons be queue =>
    obtain ⟨br, err, d₁, hProc, hServed⟩ := Disk.blockifProc_served hSteady hIdle hPendq
    have hProcess : disk.process = .ok d₁ := by
      unfold Disk.process
      rw [Disk.blockifDequeue_cons hSteady.toInv hIdle hPendq, ok_bind]
      simp only [hProc, ok_bind]
    rw [Disk.blockifDequeue_cons hSteady.toInv hIdle hPendq, ok_bind]
    simp only [hProc, ok_bind]
    have hCalls := Disk.calls_keep hServed.steady (script.headD [])
    cases hRun : run Disk.call d₁ (script.headD []) with
    | error e => exact (hCalls.of_error hRun).elim
    | ok d₂ =>
      obtain ⟨hSteady₂, hBusyq, hLength⟩ := hCalls.of_ok hRun
      rw [hServed.busyq] at hBusyq
      obtain ⟨hSteady₃, hIdle₃, hPendq₃⟩ := Disk.complete_keeps hSteady₂ hBusyq
      rintro s' ⟨⟩
      refine ⟨⟨hSteady₃, hIdle₃, acts ++ .process :: ((script.headD []).map .call ++ [.complete]),
        ?_⟩, ?_⟩
      · refine run_append_eq_ok_iff.mpr ⟨disk, hActs, run_cons_eq_ok_iff.mpr ⟨d₁, ?_, ?_⟩⟩
        · rw [Disk.act, if_pos hIdle, hProcess]
        · refine run_append_singleton_eq_ok_iff.mpr ⟨d₂, run_calls.trans hRun, ?_⟩
          simp [Disk.act, hBusyq]
      · have hOne : disk.bc.bcPendq.length = d₁.bc.bcPendq.length + 1 := by rw [hServed.pendq]; rfl
        have hScript : (script.map List.length).sum =
            (script.headD []).length + (script.tail.map List.length).sum := by
          cases script <;> simp
        simp only [work, hPendq₃, hScript]
        omega

/-- If callbacks enqueue only finitely often, `blockif_thr` empties the queue. -/
theorem blockifThr_drains (h : d.Steady) (hIdle : d.bc.bcBusyq = [])
    (script : List (List (Call R))) : ∃ fuel d' script',
      scripted.blockifThr fuel (d, script) = .ok (d', script') ∧ d'.Steady ∧
        d'.bc.bcPendq = [] ∧ d'.bc.bcBusyq = [] ∧ ∃ acts, run Disk.act d acts = .ok d' := by
  have hStart : BetweenRounds d (d.lock, script) := ⟨h.mutex _, hIdle, [.mutex _], rfl⟩
  have hLoop := whileSome_terminates (e := .thrLoop) (fun s hs => thrRound_yields hs)
    (work (d.lock, script) + 1) hStart (Nat.lt_succ_self _)
  refine ⟨work (d.lock, script) + 1, ?_⟩
  cases hRun : whileSome .thrLoop scripted.thrRound (work (d.lock, script) + 1) (d.lock, script) with
  | error e => exact (hLoop.of_error hRun).elim
  | ok s =>
    obtain ⟨hBetween, hEnd⟩ := hLoop.of_ok hRun
    obtain ⟨acts, hActs⟩ := hBetween.reached
    have hEmpty : s.1.bc.bcPendq = [] := by
      cases hPendq : s.1.bc.bcPendq with
      | nil => rfl
      | cons be queue =>
        have hNone := Client.dequeue_of_thrRound hEnd
        simp only [scripted, Disk.blockifDequeue_cons hBetween.steady.toInv hBetween.idle hPendq]
          at hNone
        cases hNone
    refine ⟨s.1.unlock, s.2, ?_, hBetween.steady.mutex _, hEmpty, hBetween.idle,
      acts ++ [.mutex _], run_append_singleton_eq_ok_iff.mpr ⟨s.1, hActs, rfl⟩⟩
    unfold Client.blockifThr
    have hRun' : whileSome .thrLoop scripted.thrRound (work (d.lock, script) + 1)
      (scripted.put (scripted.get (d, script)).lock (d, script)) = .ok s := hRun
    rw [hRun', ok_bind]
    rfl

/-- The queue never stalls and always drains. -/
theorem blockQueue_drains (req : R → BlockifReq) (mem : Memory) (acts : List (Act R)) :
    ∃ d, run Disk.act (Disk.opened req mem) acts = .ok d ∧ d.Partitioned ∧ d.BlockersAhead ∧
      (∀ op r d', d.blockifOp op r = .ok (E2BIG, d') →
        d' = { d with bc.bcMtx := d'.bc.bcMtx }) ∧
      (d.bc.bcBusyq = [] →
        (∀ script, ∃ fuel d' script', scripted.blockifThr fuel (d, script) = .ok (d', script') ∧
          d'.bc.bcPendq = [] ∧ d'.bc.bcBusyq = [] ∧ ∃ acts', run Disk.act d acts' = .ok d') ∧
        ∀ r, ∃ res d', d.blockifCancel r = .ok (res, d') ∧ (res = 0 ∨ res = EINVAL)) := by
  have hKeeps := run_keeps (fun d a hd => Disk.act_keeps hd a) (Disk.opened_steady req mem) acts
  cases hRun : run Disk.act (Disk.opened req mem) acts with
  | error e => exact (hKeeps.of_error hRun).elim
  | ok d =>
    have hSteady := hKeeps.of_ok hRun
    refine ⟨d, rfl, hSteady.toPartitioned, hSteady.ahead, ?_, fun hIdle => ⟨fun script => ?_, ?_⟩⟩
    · intro op r d' hRefused
      obtain ⟨-, hOk⟩ | ⟨d₁, -, hOk⟩ := Disk.blockifOp_cases op r hSteady.toInv
      · obtain ⟨-, rfl⟩ := Prod.ext_iff.mp (Except.ok.inj (hOk.symm.trans hRefused))
        rfl
      · have hRes : 0 = E2BIG := congrArg Prod.fst (Except.ok.inj (hOk.symm.trans hRefused))
        exact absurd hRes (by decide)
    · obtain ⟨fuel, d', script', hThr, -, hDrained⟩ := blockifThr_drains hSteady hIdle script
      exact ⟨fuel, d', script', hThr, hDrained⟩
    · intro r
      obtain ⟨be, -, -, -, hOk⟩ | ⟨-, res, hOk, hRes⟩ :=
        Disk.blockifCancel_cases r hSteady.toInv hSteady.quiet
      · exact ⟨0, _, hOk, .inl rfl⟩
      · exact ⟨res, _, hOk, .inr (hRes.resolve_right fun hBusy => hBusy.2 hIdle)⟩

end Thr

end DeviceModel.BlockIf

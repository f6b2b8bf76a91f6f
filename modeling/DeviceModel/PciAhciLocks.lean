import DeviceModel.PciAhciWindow

/-!
# The AHCI controller: locks taken twice

`blockif_thr` calls the callback of a request with `bc_mtx` held. A callback that carries its
command on, or that takes up another command, comes to `blockif_request`, and this takes `bc_mtx`
itself.
-/

set_option autoImplicit false

namespace DeviceModel.PciAhci

open Fallible BlockIf PciEmul

namespace Port

section Asks

variable (s : Port)

/-- From `done` on the range list of a trim command has an entry that is not empty. -/
def TrimAsks (slot : Slot) (cfis : BitVec 64) (done : Nat) : Prop :=
  let c := s.cfisByte cfis
  let len := (if c 2 ≠ ATA_DATA_SET_MANAGEMENT then c 11 ++ c 3 else c 13 ++ c 12).toNat * 512
  ((trimEntry (s.readPrdt slot cfis 512) len 65 done).toOption.bind Prod.fst).isSome = true

instance (slot : Slot) (cfis : BitVec 64) (done : Nat) : Decidable (s.TrimAsks slot cfis done) :=
  inferInstanceAs (Decidable (_ = true))

/-- The command of the slot needs the disk: it reads, writes or flushes, or trims something. -/
def SlotAsks (slot : Slot) : Prop :=
  let cfis := s.slotCfis slot
  s.cfisByte cfis 0 = FIS_TYPE_REGH2D ∧ s.cfisByte cfis 1 &&& 0x80 ≠ 0 ∧
    (s.IsBlock cfis ∨ s.IsTrim cfis ∧ s.TrimAsks slot cfis 0)

instance (slot : Slot) : Decidable (s.SlotAsks slot) :=
  inferInstanceAs (Decidable (_ = _ ∧ _ ≠ _ ∧ (s.IsBlock _ ∨ s.IsTrim _ ∧ s.TrimAsks slot _ 0)))

def RoundAsks : Prop := s.TakesUp ∧ s.SlotAsks s.p.ccs

instance : DecidablePred RoundAsks := fun s =>
  inferInstanceAs (Decidable ((¬(_ = _ ∨ _ ≠ _ ∨ _ = _) ∧ _ ≠ _) ∧ s.SlotAsks s.p.ccs))

def PortAsks (fuel : Nat) : Prop :=
  s.p.cmd &&& AHCI_P_CMD_ST ≠ 0 ∧ Meets portRound RoundAsks fuel s

instance (fuel : Nat) : Decidable (s.PortAsks fuel) :=
  inferInstanceAs (Decidable (_ ≠ _ ∧ Meets _ _ _ _))

/-- The port that `ahci_handle_port` is called on when a command is complete. -/
def finished (ncq : Bool) (io : AhciIoreq) (tfd : BitVec 32) : Except Fault Port := do
  let s ← (if ncq then s.ahciWriteFisSdb io.slot io.cfis tfd
    else s.ahciWriteFisD2h io.slot io.cfis tfd)
  .ok { s with p.pending := s.p.pending &&& ~~~bit io.slot }.ahciCheckStopped

/-- The rest of a command needs the disk; or it does not, and another command does. -/
def CarryAsks (fuel : Nat) (dsm : Bool) (io : AhciIoreq) : Prop :=
  dsm = false ∨ s.TrimAsks io.slot io.cfis io.done ∨
    ∃ r ∈ (s.ahciHandleDsmTrim io.slot io.cfis io.done).toOption, r.1 = true ∧ r.2.PortAsks fuel

instance (fuel : Nat) (dsm : Bool) (io : AhciIoreq) : Decidable (s.CarryAsks fuel dsm io) :=
  inferInstanceAs (Decidable (_ = _ ∨ s.TrimAsks _ _ _ ∨
    ∃ r ∈ (s.ahciHandleDsmTrim io.slot io.cfis io.done).toOption, r.1 = true ∧ r.2.PortAsks fuel))

def FinishAsks (fuel : Nat) (ncq : Bool) (io : AhciIoreq) (tfd : BitVec 32) : Prop :=
  ∃ t ∈ (s.finished ncq io tfd).toOption, t.PortAsks fuel

instance (fuel : Nat) (ncq : Bool) (io : AhciIoreq) (tfd : BitVec 32) :
    Decidable (s.FinishAsks fuel ncq io tfd) :=
  inferInstanceAs (Decidable (∃ t ∈ _, Port.PortAsks t fuel))

def CallbackAsks (fuel : Nat) (aior : IoreqId) (err : Nat) : Prop :=
  let io := s.p.ioreq aior
  let cmd := s.cfisByte io.cfis 2
  let ncq := cmd ∈ rwCmdsQueued ∨ cmd = ATA_SEND_FPDMA_QUEUED
  let dsm := cmd = ATA_DATA_SET_MANAGEMENT ∨
    cmd = ATA_SEND_FPDMA_QUEUED ∧ s.cfisByte io.cfis 13 &&& 0x1f = ATA_SFPDMA_DSM
  let t := s.lockMtx.comeBack aior err
  if err = 0 ∧ io.more then t.CarryAsks fuel dsm io
  else t.FinishAsks fuel ncq io (if err = 0 then tfdDone else tfdAborted)

instance (fuel : Nat) (aior : IoreqId) (err : Nat) : Decidable (s.CallbackAsks fuel aior err) :=
  inferInstanceAs (Decidable (if err = 0 ∧ (s.p.ioreq aior).more then Port.CarryAsks _ _ _ _
    else Port.FinishAsks _ _ _ _ _))

def called (fuel : Nat) : Except Fault (Option (IoreqId × Nat × Port)) := do
  match ← ((client fuel).get s).blockifDequeue with
  | none => .ok none
  | some (be, d) =>
    let (aior, err, d) ← d.blockifProc be
    .ok (some (aior, err, (client fuel).put d s))

def ThrAsks (fuel : Nat) : Prop :=
  ∃ next ∈ (s.called fuel).toOption, ∃ r ∈ next, Port.CallbackAsks r.2.2 fuel r.1 r.2.1

instance (fuel : Nat) : Decidable (s.ThrAsks fuel) :=
  inferInstanceAs (Decidable (∃ next ∈ _, ∃ r ∈ next, Port.CallbackAsks _ _ _ _))

/-- `blockif_thr` comes to a command that needs the disk, from a callback. -/
def Reenters (fuel : Nat) : Prop :=
  Meets (client fuel).thrRound (ThrAsks · fuel) fuel
    ((client fuel).put ((client fuel).get s).lock s)

instance (fuel : Nat) : Decidable (s.Reenters fuel) :=
  inferInstanceAs (Decidable (Meets _ (fun t : Port => t.ThrAsks fuel) _ _))

end Asks

section Enters

variable {s t : Port} {P : Prop}

/-- `bc_mtx` is held, or an assertion on it has failed. -/
def Held (s : Port) : Prop := s.p.bctx.bcMtx.lock = true ∨ s.p.bctx.bcMtx.failed = true

/-- An assertion on `bc_mtx`, which is held, fails between two ports exactly if `P` holds. -/
structure Enters (P : Prop) (s t : Port) : Prop where
  held : t.Held
  failed : t.p.bctx.bcMtx.failed = true ↔ s.p.bctx.bcMtx.failed = true ∨ P

theorem Enters.congr {P' : Prop} (h : Enters P s t) (hSame : P ↔ P') : Enters P' s t :=
  ⟨h.held, by rw [h.failed, hSame]⟩

theorem Enters.after {u : Port} (h : Enters P t u) (hSame : t.p.bctx.bcMtx = s.p.bctx.bcMtx) :
    Enters P s u :=
  ⟨h.held, by rw [h.failed, hSame]⟩

theorem Held.same (h : s.Held) (hSame : t.p.bctx.bcMtx = s.p.bctx.bcMtx) : t.Held := by
  unfold Held
  rw [hSame]
  exact h

theorem Held.quiet (h : s.Held) (hSame : t.p.bctx.bcMtx = s.p.bctx.bcMtx) (hNot : ¬ P) :
    Enters P s t :=
  ⟨h.same hSame, by rw [hSame, or_iff_left hNot]⟩

theorem pullIoreq_bctx (s : Port) :
    Yields (fun _ => True) (fun r => r.2.p.bctx = s.p.bctx) s.pullIoreq := by
  unfold pullIoreq
  split
  · trivial
  · rfl

/-- `blockif_request` takes the lock, and this is the assertion that fails. -/
theorem handOver_enters (h : s.Held) (op : BlockOp) (aior : IoreqId) :
    Yields (fun _ => True) (Enters True s) (s.handOver op aior) := by
  have hTaken : ∀ m : PthreadMutex, m.lock = true ∨ m.failed = true →
      m.pthreadMutexLock.pthreadMutexUnlock.failed = true := by
    intro m hm
    simp [PthreadMutex.pthreadMutexLock, PthreadMutex.pthreadMutexUnlock, hm.symm]
  have hOp : ∀ d : Disk IoreqId, d.bc.bcMtx = s.p.bctx.bcMtx → Yields (fun _ => True)
      (fun r => r.2.bc.bcMtx.failed = true) (d.blockifOp op aior) := by
    intro d hd
    have hFailed := hTaken s.p.bctx.bcMtx h
    rw [← hd] at hFailed
    refine (assertThat_yields fun _ => trivial).bind fun _ _ _ => ?_
    unfold Disk.blockifRequest
    split
    · exact hFailed
    · cases hEnqueue : d.lock.blockifEnqueue aior op with
      | error e => trivial
      | ok d' =>
        obtain ⟨be, freeq, status, off, -, -, rfl⟩ := Disk.blockifEnqueue_cases hEnqueue
        exact hFailed
  rw [handOver_eq]
  refine Yields.bind (P := fun r : Nat × Port => r.2.p.bctx.bcMtx.failed = true) ?_ fun r _ hr => ?_
  · refine (assertThat_yields fun _ => trivial).bind fun _ _ _ => ?_
    exact (hOp ⟨s.p.bctx, s.p.ioReq, s.mem⟩ rfl).bind fun _ _ hd => hd
  · refine (assertThat_yields fun _ => trivial).bind fun _ _ _ => ?_
    exact ⟨.inr hr, iff_of_true hr (.inr trivial)⟩

theorem sendOut_enters (h : s.Held) (op : BlockOp) (accept : Bool) (aior : IoreqId)
    (io : AhciIoreq) (breq : BlockifReq) :
    Yields (fun _ => True) (Enters True s) (s.sendOut op accept aior io breq) := by
  have hPushed : (s.pushIoreq aior io breq).Held := h
  unfold sendOut
  refine Yields.bind (P := SameWindow (s.pushIoreq aior io breq)) (Yields.ite ?_ ?_) fun t _ ht => ?_
  · exact ahciWriteFisD2hNcq_window _ _
  · exact SameWindow.refl _
  · exact (handOver_enters (hPushed.same ht.bcMtx) op aior).imp fun u _ hu => hu.after ht.bcMtx

theorem ahciHandleRw_enters (h : s.Held) (slot : Slot) (cfis : BitVec 64) (done : Nat) :
    Yields (fun _ => True) (Enters True s) (s.ahciHandleRw slot cfis done) := by
  unfold ahciHandleRw
  refine (yields_true _).bind fun sectsz _ _ => (pullIoreq_bctx s).bind fun r _ hr => ?_
  refine (yields_true _).bind fun b _ _ => ?_
  have hSame : r.2.p.bctx.bcMtx = s.p.bctx.bcMtx := by rw [hr]
  exact (sendOut_enters (h.same hSame) _ _ _ _ _).imp fun u _ hu => hu.after hSame

theorem ahciHandleFlush_enters (h : s.Held) (slot : Slot) (cfis : BitVec 64) :
    Yields (fun _ => True) (Enters True s) (s.ahciHandleFlush slot cfis) := by
  unfold ahciHandleFlush
  refine (pullIoreq_bctx s).bind fun r _ hr => ?_
  have hSame : r.2.p.bctx.bcMtx = s.p.bctx.bcMtx := by rw [hr]
  exact (sendOut_enters (h.same hSame) _ _ _ _ _).imp fun u _ hu => hu.after hSame

theorem settle_window (s : Port) (slot : Slot) :
    SameWindow s (ahciCheckStopped { s with p.pending := s.p.pending &&& ~~~bit slot }) := by
  refine SameWindow.trans ?_ (ahciCheckStopped_window _)
  exact ⟨rfl, rfl, rfl, rfl, rfl, rfl, rfl⟩

theorem ahciHandleDsmTrim_enters (h : s.Held) (slot : Slot) (cfis : BitVec 64) (done : Nat) :
    Yields (fun _ => True) (fun r => Enters (s.TrimAsks slot cfis done) s r.2)
      (s.ahciHandleDsmTrim slot cfis done) := by
  unfold ahciHandleDsmTrim
  refine (yields_true _).bind fun r hr _ => ?_
  have hAsks : s.TrimAsks slot cfis done ↔ r.1.isSome = true := by
    unfold TrimAsks
    dsimp only at hr ⊢
    rw [hr]
    rfl
  dsimp only
  split
  · next hEntry =>
    have hNot : ¬ s.TrimAsks slot cfis done := by simp [hAsks, hEntry]
    have hEmpty : SameWindow s (s.log (.empty slot)) := ⟨rfl, rfl, rfl, rfl, rfl, rfl, rfl⟩
    refine Yields.bind (P := SameWindow s) (Yields.ite ?_ hEmpty) fun t _ ht => ?_
    · exact (ahciWriteFisD2hNcq_window _ _).imp fun t _ ht => hEmpty.trans ht
    refine Yields.bind (P := SameWindow s) (Yields.ite ?_ ?_) fun u _ hu => ?_
    · exact (ahciWriteFisSdb_window _ _ _ _).imp fun u _ hu => ht.trans hu
    · exact (ahciWriteFisD2h_window _ _ _ _).imp fun u _ hu => ht.trans hu
    · exact h.quiet (hu.trans (settle_window u slot)).bcMtx hNot
  · next hEntry =>
    have hIs : True ↔ s.TrimAsks slot cfis done := by simp [hAsks, hEntry]
    refine (pullIoreq_bctx s).bind fun q _ hq => (yields_true _).bind fun sectsz _ _ => ?_
    have hSame : q.2.p.bctx.bcMtx = s.p.bctx.bcMtx := by rw [hq]
    refine (sendOut_enters (h.same hSame) _ _ _ _ _).bind fun u _ hu => ?_
    exact (hu.after hSame).congr hIs

theorem ahciHandleCmd_enters (h : s.Held) (slot : Slot) (cfis : BitVec 64) :
    Yields (fun _ => True) (Enters (s.IsBlock cfis ∨ s.IsTrim cfis ∧ s.TrimAsks slot cfis 0) s)
      (s.ahciHandleCmd slot cfis) := by
  have hIssued : (s.issued slot cfis).Held := h
  have hSent : s.IsBlock cfis → ∀ t, Enters True (s.issued slot cfis) t →
      Enters (s.IsBlock cfis ∨ s.IsTrim cfis ∧ s.TrimAsks slot cfis 0) s t := fun hBlock t ht =>
    Enters.congr (Enters.after ht rfl) (iff_of_true trivial (Or.inl hBlock))
  apply ahciHandleCmd_rule
    (Q := Yields (fun _ => True) (Enters (s.IsBlock cfis ∨ s.IsTrim cfis ∧ s.TrimAsks slot cfis 0) s))
  · intro hBlock hTrim tfd xfermode multSectors mem status
    refine (ahciWriteFisD2h_window _ _ _ _).imp fun t _ ht => ?_
    exact h.quiet ht.bcMtx (not_or.mpr ⟨hBlock, fun hIs => hTrim hIs.1⟩)
  · intro hBlock hTrim pio buf
    refine Yields.bind (P := SameWindow (s.issued slot cfis)) (Yields.ite ?_ ?_) fun t _ ht => ?_
    · exact ahciWriteFis_window _ _ _
    · exact SameWindow.refl _
    refine (ahciWriteFisD2h_window _ _ _ _).imp fun u _ hu => ?_
    exact h.quiet (hu.bcMtx.trans ht.bcMtx) (not_or.mpr ⟨hBlock, fun hIs => hTrim hIs.1⟩)
  · exact fun _ => trivial
  · intro hRw
    exact (ahciHandleRw_enters hIssued slot cfis 0).imp fun t _ ht => hSent (Or.inl hRw) t ht
  · intro hFlush
    exact (ahciHandleFlush_enters hIssued slot cfis).imp fun t _ ht => hSent (Or.inr hFlush) t ht
  · intro hBlock hTrim
    refine Yields.map ((ahciHandleDsmTrim_enters hIssued slot cfis 0).imp fun r _ hr => ?_)
    have hAsks : (s.issued slot cfis).TrimAsks slot cfis 0 ↔
        s.IsBlock cfis ∨ s.IsTrim cfis ∧ s.TrimAsks slot cfis 0 := by
      rw [or_iff_right hBlock, and_iff_right hTrim]
      rfl
    exact Enters.congr (Enters.after hr rfl) hAsks

theorem ahciHandleSlot_enters (h : s.Held) (slot : Slot) :
    Yields (fun _ => True) (Enters (s.SlotAsks slot) s) (s.ahciHandleSlot slot) := by
  refine (assertThat_yields fun _ => trivial).bind fun _ _ _ => ?_
  dsimp only
  split
  · next hFis => exact h.quiet rfl fun hAsks => hFis hAsks.1
  next hFis =>
  split
  · next hCmd =>
    refine (ahciHandleCmd_enters h slot (s.slotCfis slot)).imp fun t _ ht => ht.congr ?_
    exact ⟨fun hAsks => ⟨not_not.mp hFis, hCmd, hAsks⟩, fun hAsks => hAsks.2.2⟩
  · next hCmd =>
    have hKeeps := controlFis_keeps (s := s) (E := fun _ => True) ⟨fun _ => trivial⟩ slot (s.slotCfis slot)
    refine hKeeps.imp fun t _ ht => h.quiet ?_ fun hAsks => hCmd hAsks.2.1
    rw [ht.pool.bctx]

theorem portRound_enters (h : s.Held) :
    Yields (fun _ => True) (fun next => (∀ t, next = some t → Enters s.RoundAsks s t) ∧
      (next = none → ¬ s.RoundAsks)) s.portRound := by
  unfold portRound
  split
  · next hStay => exact ⟨by rintro t ⟨⟩, fun _ hAsks => hAsks.1.1 hStay⟩
  next hGoing =>
  refine Yields.bind (P := Enters s.RoundAsks s) ?_ fun t _ ht => ⟨?_, by rintro ⟨⟩⟩
  · unfold currentSlot
    split
    · next hWaiting =>
      have hSet : s.setCcs.Held := h
      have hAsks : s.setCcs.SlotAsks s.p.ccs ↔ s.RoundAsks :=
        ⟨fun hSlot => ⟨⟨hGoing, hWaiting⟩, hSlot⟩, fun hRound => hRound.2⟩
      exact (ahciHandleSlot_enters hSet s.p.ccs).imp fun t _ ht => Enters.congr (Enters.after ht rfl) hAsks
    · next hIdle => exact h.quiet rfl fun hAsks => hIdle hAsks.1.2
  · rintro u ⟨⟩
    exact ⟨ht.held, ht.failed⟩

theorem ahciHandlePort_enters (h : s.Held) (fuel : Nat) :
    Yields (fun _ => True) (Enters (s.PortAsks fuel) s) (s.ahciHandlePort fuel) := by
  unfold ahciHandlePort
  split
  · next hStop => exact h.quiet rfl fun hAsks => hAsks.1 hStop
  · next hStart =>
    have hRound : ∀ t : Port, t.Held → Yields (fun _ => True) (fun next =>
        (∀ u, next = some u → u.Held ∧
          (u.p.bctx.bcMtx.failed = true ↔ t.p.bctx.bcMtx.failed = true ∨ t.RoundAsks)) ∧
        (next = none → ¬ t.RoundAsks)) t.portRound := fun t ht =>
      (portRound_enters ht).imp fun next _ hNext =>
        ⟨fun u hu => ⟨(hNext.1 u hu).held, (hNext.1 u hu).failed⟩, hNext.2⟩
    have hLoop := whileSome_marks (e := .portLoop) (P := RoundAsks)
      (M := fun t : Port => t.p.bctx.bcMtx.failed = true) trivial hRound fuel h
    refine hLoop.imp fun t _ ht => ⟨ht.1, ?_⟩
    rw [ht.2, PortAsks, and_iff_right hStart]

theorem Enters.trans {Q : Prop} {u : Port} (h : Enters P s t) (h' : Enters Q t u) :
    Enters (P ∨ Q) s u :=
  ⟨h'.held, by rw [h'.failed, h.failed, or_assoc]⟩

theorem carryOn_enters (h : s.Held) (fuel : Nat) (dsm : Bool) (io : AhciIoreq) :
    Yields (fun _ => True) (Enters (s.CarryAsks fuel dsm io) s) (s.carryOn fuel dsm io) := by
  cases dsm with
  | false =>
    refine Yields.imp (ahciHandleRw_enters h io.slot io.cfis io.done) fun t _ ht => ?_
    exact Enters.congr ht (iff_of_true trivial (Or.inl rfl))
  | true =>
    refine (ahciHandleDsmTrim_enters h io.slot io.cfis io.done).bind fun r hr hEnters => ?_
    have hAsks : s.TrimAsks io.slot io.cfis io.done ∨ r.1 = true ∧ r.2.PortAsks fuel ↔
        s.CarryAsks fuel true io := by
      unfold CarryAsks
      rw [hr]
      simp [Except.toOption]
    obtain ⟨due, t⟩ := r
    cases due with
    | false =>
      rw [or_iff_left fun hPort => absurd hPort.1 Bool.false_ne_true] at hAsks
      exact hEnters.congr hAsks
    | true =>
      rw [and_iff_right rfl] at hAsks
      exact (ahciHandlePort_enters hEnters.held fuel).imp fun u _ hu => (hEnters.trans hu).congr hAsks

theorem finishCmd_eq (s : Port) (fuel : Nat) (ncq : Bool) (io : AhciIoreq) (tfd : BitVec 32) :
    s.finishCmd fuel ncq io tfd = s.finished ncq io tfd >>= fun t => t.ahciHandlePort fuel := by
  unfold finishCmd finished
  cases (if ncq = true then s.ahciWriteFisSdb io.slot io.cfis tfd
    else s.ahciWriteFisD2h io.slot io.cfis tfd) <;> rfl

theorem finished_window (s : Port) (ncq : Bool) (io : AhciIoreq) (tfd : BitVec 32) :
    Yields (fun _ => True) (SameWindow s) (s.finished ncq io tfd) := by
  refine Yields.bind (P := SameWindow s) (Yields.ite ?_ ?_) fun t _ ht => ?_
  · exact ahciWriteFisSdb_window _ _ _ _
  · exact ahciWriteFisD2h_window _ _ _ _
  · exact ht.trans (settle_window t io.slot)

theorem finishCmd_enters (h : s.Held) (fuel : Nat) (ncq : Bool) (io : AhciIoreq) (tfd : BitVec 32) :
    Yields (fun _ => True) (Enters (s.FinishAsks fuel ncq io tfd) s) (s.finishCmd fuel ncq io tfd) := by
  rw [finishCmd_eq]
  refine (finished_window s ncq io tfd).bind fun t hDone ht => ?_
  refine (ahciHandlePort_enters (h.same ht.bcMtx) fuel).imp fun u _ hu => ?_
  refine (hu.after ht.bcMtx).congr ?_
  unfold FinishAsks
  rw [hDone]
  simp [Except.toOption]

theorem comeBack_shared (s : Port) (aior : IoreqId) (err : Nat) :
    (s.comeBack aior err).p.bctx = s.p.bctx ∧ (s.comeBack aior err).sc = s.sc := by
  unfold comeBack
  dsimp only
  split <;> exact ⟨rfl, rfl⟩

/-- The callback gives back the lock of the controller, and may come to the one that is held. -/
theorem ataIoreqCb_enters (h : s.Held) (hFree : s.sc.mtx.lock = false) (fuel : Nat) (aior : IoreqId)
    (err : Nat) : Yields (fun _ => True)
      (fun t => Enters (s.CallbackAsks fuel aior err) s t ∧ t.sc.mtx = s.sc.mtx)
      (s.ataIoreqCb fuel aior err) := by
  have hBack := comeBack_shared s.lockMtx aior err
  have hSame : (s.lockMtx.comeBack aior err).p.bctx.bcMtx = s.p.bctx.bcMtx := by rw [hBack.1]; rfl
  have hMtx : (s.lockMtx.comeBack aior err).sc.mtx = s.sc.mtx.pthreadMutexLock := by rw [hBack.2]; rfl
  have hHeld : (s.lockMtx.comeBack aior err).Held := h.same hSame
  have hKept := sameLocks_stepwise.kept
  have hUnlock : ∀ t : Port, t.sc.mtx = (s.lockMtx.comeBack aior err).sc.mtx →
      t.unlockMtx.sc.mtx = s.sc.mtx := by
    intro t ht
    rw [unlockMtx, ht, hMtx, unlock_lock hFree]
  unfold ataIoreqCb
  refine Yields.bind (P := fun t : Port => Enters (s.CallbackAsks fuel aior err) s t ∧
    SameLocks (s.lockMtx.comeBack aior err) t) ?_ fun t _ ht => ⟨⟨ht.1.held, ht.1.failed⟩, hUnlock t ht.2.mtx⟩
  unfold CallbackAsks
  dsimp only
  split
  · refine Yields.and ((carryOn_enters hHeld _ _ _).imp fun t _ ht => ht.after hSame) ?_
    exact hKept.carryOn _ _ _ _
  · refine Yields.and ((finishCmd_enters hHeld _ _ _ _).imp fun t _ ht => ht.after hSame) ?_
    exact hKept.finishCmd _ _ _ _ _

theorem blockifDequeue_mtx {R : Type} (d : Disk R) : Yields (fun _ => True)
    (fun next => ∀ r, next = some r → r.2.bc.bcMtx = d.bc.bcMtx) d.blockifDequeue := by
  unfold Disk.blockifDequeue
  refine (yields_true _).bind fun next _ _ => ?_
  cases next with
  | none => rintro r ⟨⟩
  | some be =>
    rintro r ⟨⟩
    rfl

theorem blockifProc_mtx {R : Type} [DecidableEq R] (d : Disk R) (be : ElemId) :
    Yields (fun _ => True) (fun r => r.2.2.bc.bcMtx = d.bc.bcMtx) (d.blockifProc be) := by
  cases hReq : (d.bc.bcReqs be).beReq with
  | none =>
    unfold Disk.blockifProc
    rw [hReq]
    trivial
  | some br =>
    obtain ⟨err, req, hProc, -⟩ := Disk.blockifProc_cases hReq
    rw [hProc]
    rfl

theorem thrRound_enters (h : s.Held) (hFree : s.sc.mtx.lock = false) (fuel : Nat) :
    Yields (fun _ => True) (fun next =>
      (∀ t, next = some t → Enters (s.ThrAsks fuel) s t ∧ t.sc.mtx = s.sc.mtx) ∧
      (next = none → ¬ s.ThrAsks fuel)) ((client fuel).thrRound s) := by
  have hAsks : ∀ next, s.called fuel = .ok next →
      (s.ThrAsks fuel ↔ ∃ r ∈ next, CallbackAsks r.2.2 fuel r.1 r.2.1) := by
    intro next hNext
    unfold ThrAsks
    rw [hNext]
    simp [Except.toOption]
  refine (blockifDequeue_mtx _).bind fun next hNext hMtx => ?_
  cases next with
  | none =>
    refine ⟨by rintro t ⟨⟩, fun _ => ?_⟩
    rw [hAsks none (by rw [called, hNext]; rfl)]
    rintro ⟨r, ⟨⟩, -⟩
  | some next =>
    have hTaken := hMtx next rfl
    refine (blockifProc_mtx _ _).bind fun r hProc hr => ?_
    have hSame : ((client fuel).put r.2.2 s).p.bctx.bcMtx = s.p.bctx.bcMtx := hr.trans hTaken
    have hThr : CallbackAsks ((client fuel).put r.2.2 s) fuel r.1 r.2.1 ↔ s.ThrAsks fuel := by
      rw [hAsks (some (r.1, r.2.1, (client fuel).put r.2.2 s)) (by
        rw [called, hNext, ok_bind]
        dsimp only
        rw [hProc]
        rfl)]
      simp
    have hHeld : ((client fuel).put r.2.2 s).Held := h.same hSame
    refine (ataIoreqCb_enters hHeld hFree fuel r.1 r.2.1).bind fun t _ ht => ⟨?_, by rintro ⟨⟩⟩
    rintro u ⟨⟩
    exact ⟨⟨ht.1.held, (ht.1.after hSame).failed.trans (by rw [hThr])⟩, ht.2⟩

/-- `blockif_thr` leaves both locks as it found them exactly if it does not come back to its own. -/
theorem blockifThr_unlocked_iff (hMtx : s.sc.mtx.lock = false)
    (hFree : s.p.bctx.bcMtx = PthreadMutex.pthreadMutexInit) (fuel : Nat) :
    Yields (fun _ => True) (fun t => t.sc.mtx = s.sc.mtx ∧
      (t.p.bctx.bcMtx = PthreadMutex.pthreadMutexInit ↔ ¬ s.Reenters fuel))
      ((client fuel).blockifThr fuel s) := by
  have hHeld : ((client fuel).put ((client fuel).get s).lock s).Held := .inl rfl
  have hClean : ((client fuel).put ((client fuel).get s).lock s).p.bctx.bcMtx.failed = false := by
    change s.p.bctx.bcMtx.pthreadMutexLock.failed = false
    rw [hFree]
    rfl
  have hRound : ∀ t : Port, t.Held ∧ t.sc.mtx = s.sc.mtx → Yields (fun _ => True) (fun next =>
      (∀ u, next = some u → (u.Held ∧ u.sc.mtx = s.sc.mtx) ∧
        (u.p.bctx.bcMtx.failed = true ↔ t.p.bctx.bcMtx.failed = true ∨ t.ThrAsks fuel)) ∧
      (next = none → ¬ t.ThrAsks fuel)) ((client fuel).thrRound t) := by
    intro t ht
    refine (thrRound_enters ht.1 (by rw [ht.2]; exact hMtx) fuel).imp fun next _ hNext => ⟨?_, hNext.2⟩
    intro u hu
    obtain ⟨hEnters, hSame⟩ := hNext.1 u hu
    exact ⟨⟨hEnters.held, hSame.trans ht.2⟩, hEnters.failed⟩
  have hLoop := whileSome_marks (e := .thrLoop) (P := fun t : Port => t.ThrAsks fuel)
    (M := fun t : Port => t.p.bctx.bcMtx.failed = true) trivial hRound fuel ⟨hHeld, rfl⟩
  refine hLoop.bind fun t _ ht => ⟨ht.1.2, ?_⟩
  have hMark : t.p.bctx.bcMtx.failed = true ↔ s.Reenters fuel := by
    rw [ht.2, or_iff_right (by rw [hClean]; exact Bool.false_ne_true)]
    rfl
  rw [← hMark]
  constructor
  · intro hInit hFailed
    have hLate := congrArg PthreadMutex.failed hInit
    change (t.p.bctx.bcMtx.failed || !t.p.bctx.bcMtx.lock) = false at hLate
    rw [hFailed] at hLate
    exact absurd hLate (by simp)
  · intro hNot
    have hLock : t.p.bctx.bcMtx.lock = true := ht.1.1.resolve_right hNot
    change t.p.bctx.bcMtx.pthreadMutexUnlock = _
    simp [PthreadMutex.pthreadMutexUnlock, PthreadMutex.pthreadMutexInit, hLock, hNot]

end Enters

end Port

namespace Ahci

variable {s t : Ahci}

structure Unlocked (s : Ahci) : Prop where
  mtx : s.sc.mtx = PthreadMutex.pthreadMutexInit
  bcMtx : ∀ k, (s.port k).bctx.bcMtx = PthreadMutex.pthreadMutexInit

def Reenters (s : Ahci) (fuel : Nat) : Prop := ∃ k ∈ s.blockifSc, (s.portAt k).Reenters fuel

instance (s : Ahci) (fuel : Nat) : Decidable (s.Reenters fuel) :=
  inferInstanceAs (Decidable (∃ k ∈ s.blockifSc, (s.portAt k).Reenters fuel))

theorem Unlocked.same (h : s.Unlocked) (hLocks : SameLocks s t) : t.Unlocked := by
  refine ⟨hLocks.mtx.trans h.mtx, fun k => ?_⟩
  exact (hLocks.bcMtx k (by rw [h.bcMtx k]; rfl)).trans (h.bcMtx k)

theorem blockifThr_unlocked_iff (h : s.Unlocked) (fuel : Nat) :
    Yields (fun _ => True) (fun t => t.Unlocked ↔ ¬ s.Reenters fuel) (s.blockifThr fuel) := by
  unfold blockifThr Reenters
  cases hServed : s.blockifSc with
  | none => exact iff_of_true h (by simp)
  | some k =>
    have hMtx : (s.portAt k).sc.mtx.lock = false := congrArg PthreadMutex.lock h.mtx
    refine (Port.blockifThr_unlocked_iff hMtx (h.bcMtx k) fuel).bind fun t _ ht => ?_
    have hReenters : (∃ j ∈ some k, (s.portAt j).Reenters fuel) ↔ (s.portAt k).Reenters fuel := by simp
    rw [hReenters, ← ht.2]
    constructor
    · intro hAll
      have hPort := hAll.bcMtx k
      dsimp only at hPort
      rwa [Function.update_self] at hPort
    · intro hPort
      refine ⟨ht.1.trans h.mtx, fun j => ?_⟩
      dsimp only
      by_cases hEq : j = k
      · subst hEq
        rwa [Function.update_self]
      · rw [Function.update_of_ne hEq]
        exact h.bcMtx j

/-- Nothing but `blockif_thr` can take a lock twice. -/
theorem step_unlocked (h : s.Ready ∧ s.Unlocked) (fuel : Nat) {event : Event}
    (hSafe : event = .thr → ¬ s.Reenters fuel) :
    Yields (fun _ => True) (fun t => t.Ready ∧ t.Unlocked) (s.step fuel event) := by
  refine (step_ready fuel h.1 event).and ?_
  cases event with
  | write baridx offset value =>
    by_cases hBar : baridx = 5
    · subst hBar
      exact (pciAhciWrite_effect h.1 fuel offset value).imp fun t _ ht => h.2.same ht.2.1
    · rw [step, pciAhciWrite, assertThat, if_neg fun hBoth => hBar hBoth.1, error_bind]
      trivial
  | reset => exact (ahciReset_locks s).imp fun t _ ht => h.2.same ht
  | thr => exact (blockifThr_unlocked_iff h.2 fuel).imp fun t _ ht => ht.mpr (hSafe rfl)
  | other mem pi => exact ⟨h.2.mtx, h.2.bcMtx⟩

theorem pciAhciInit_unlocked (pi : PciDevinst) (disks : List (Option (List (BitVec 8))))
    (mem : Memory) (stack : Nat → BitVec 8) :
    Yields (fun _ => True) Unlocked (pciAhciInit pi disks mem stack) := by
  unfold pciAhciInit
  refine (ahciReset_locks _).imp fun t _ ht => Unlocked.same ⟨rfl, fun k => ?_⟩ ht
  cases hDisk : disks.getD k none with
  | none => simp only [hDisk]; rfl
  | some ident => simp only [hDisk]; rfl

/-- In every run the locks are taken one at a time, exactly as long as no callback of `blockif_thr` comes
to a command that needs the disk. -/
theorem locks_once_iff {pi : PciDevinst} {disks : List (Option (List (BitVec 8)))} {mem : Memory}
    {stack : Nat → BitVec 8} {s₀ : Ahci} (hInit : pciAhciInit pi disks mem stack = .ok s₀) {fuel : Nat}
    {events : List Event}
    (hAlong : Along (Ahci.step fuel) (fun s event => event = .thr → ¬ s.Reenters fuel) s₀ events) :
    Yields (fun _ => True) (fun s => s.Unlocked ∧
        Yields (fun _ => True) (fun t => t.Unlocked ↔ ¬ s.Reenters fuel) (s.blockifThr fuel))
      (run (Ahci.step fuel) s₀ events) := by
  have hReady := (pciAhciInit_ready pi disks mem stack).of_ok hInit
  have hUnlocked := (pciAhciInit_unlocked pi disks mem stack).of_ok hInit
  have hStep : ∀ (s : Ahci) (event : Event), s.Ready ∧ s.Unlocked → (event = .thr → ¬ s.Reenters fuel) →
      Yields (fun _ => True) (fun t : Ahci => t.Ready ∧ t.Unlocked) (s.step fuel event) :=
    fun s event hs hSafe => step_unlocked hs fuel hSafe
  exact (run_yields hStep ⟨hReady, hUnlocked⟩ hAlong).imp fun s _ hs => ⟨hs.2, blockifThr_unlocked_iff hs.2 fuel⟩

/-- A command to flush the cache, for the slots of a command list at 0 that share its command table. -/
def flushMemory : Memory := fun addr =>
  if addr = paddrGuest2host 0 then FIS_TYPE_REGH2D
  else if addr = paddrGuest2host 0 + 1 then 0x80
  else if addr = paddrGuest2host 0 + 2 then ATA_FLUSHCACHE
  else 0

def flushing (slots : BitVec 64) : Except Fault Ahci :=
  pciAhciInit pinned [some []] flushMemory (fun _ => 0) >>= fun s =>
    run (Ahci.step 3) s [.write 5 0x118 0x11, .write 5 0x138 slots]

theorem locks_once_iff_flush : ∃ s₀, pciAhciInit pinned [some []] flushMemory (fun _ => 0) = .ok s₀ ∧
    Yields (fun _ => True) (fun s => s.Unlocked ∧
        Yields (fun _ => True) (fun t => t.Unlocked ↔ ¬ s.Reenters 3) (s.blockifThr 3))
      (run (Ahci.step 3) s₀ [.write 5 0x118 0x11, .write 5 0x138 1, .thr]) := by
  have hOnce : (flushing 1).toOption.map (fun s => decide (s.Reenters 3)) = some false := by decide +kernel
  obtain ⟨s, hFlushing, hNot⟩ := Option.map_eq_some_iff.mp hOnce
  obtain ⟨s₀, hInit, hRun⟩ := bind_eq_ok_iff.mp (toOption_eq_some_iff.mp hFlushing)
  refine ⟨s₀, hInit, locks_once_iff hInit ?_⟩
  refine ⟨nofun, fun s₁ h₁ => ⟨nofun, fun s₂ h₂ => ⟨fun _ => ?_, fun _ _ => trivial⟩⟩⟩
  have hSame : run (Ahci.step 3) s₀ [.write 5 0x118 0x11, .write 5 0x138 1] = .ok s₂ :=
    run_cons_eq_ok_iff.mpr ⟨s₁, h₁, run_cons_eq_ok_iff.mpr ⟨s₂, h₂, rfl⟩⟩
  obtain rfl := Except.ok.inj (hRun.symm.trans hSame)
  exact of_decide_eq_false hNot

/-- Of two commands the second is taken up by the callback of the first. -/
theorem locks_twice : ¬ ∀ (pi : PciDevinst) (disks : List (Option (List (BitVec 8)))) (mem : Memory)
    (stack : Nat → BitVec 8) (s₀ : Ahci) (fuel : Nat) (events : List Event),
    pciAhciInit pi disks mem stack = .ok s₀ →
    Yields (fun _ => True) Unlocked (run (Ahci.step fuel) s₀ events) := by
  intro hAll
  have hTwice : (flushing 3 >>= fun s => s.blockifThr 3).toOption.map
      (fun t => (t.port 0).bctx.bcMtx.failed) = some true := by decide +kernel
  obtain ⟨t, hThr, hFailed⟩ := Option.map_eq_some_iff.mp hTwice
  obtain ⟨s, hFlushing, hServed⟩ := bind_eq_ok_iff.mp (toOption_eq_some_iff.mp hThr)
  obtain ⟨s₀, hInit, hRun⟩ := bind_eq_ok_iff.mp hFlushing
  have hEnd : run (Ahci.step 3) s₀ ([.write 5 0x118 0x11, .write 5 0x138 3] ++ [.thr]) = .ok t :=
    run_append_singleton_eq_ok_iff.mpr ⟨s, hRun, hServed⟩
  have hUnlocked := (hAll pinned [some []] flushMemory (fun _ => 0) s₀ 3 _ hInit).of_ok hEnd
  have hClean := congrArg PthreadMutex.failed (hUnlocked.bcMtx 0)
  rw [hFailed] at hClean
  exact absurd hClean (by decide)

end Ahci

end DeviceModel.PciAhci

import DeviceModel.PciAhciDevice

/-!
# The AHCI controller: what a port does, step by step

Every function of a port is made of a few steps. A relation between ports that these steps keep
to, and that composes, holds from before a function to after it.
-/

set_option autoImplicit false

namespace DeviceModel.PciAhci.Port

open Fallible BlockIf

/-- What the interrupt, the FISes, the record, the locks and the command list of a port depend on
stays as it is. -/
structure Quiet (s t : Port) : Prop where
  attached : t.p.attached = s.p.attached
  port : t.p.port = s.p.port
  rfis : t.p.rfis = s.p.rfis
  waitforclear : t.p.waitforclear = s.p.waitforclear
  is : t.p.is = s.p.is
  ie : t.p.ie = s.p.ie
  st : t.p.cmd.getLsbD 0 = s.p.cmd.getLsbD 0
  fre : t.p.cmd.getLsbD 4 = s.p.cmd.getLsbD 4
  cmdLst : t.p.cmdLst = s.p.cmdLst
  trace : t.p.trace = s.p.trace
  bcMtx : t.p.bctx.bcMtx = s.p.bctx.bcMtx
  sc : t.sc = s.sc

/-- A relation that composes, and that the steps which the functions of a port share keep to. -/
structure Shared (R : Port → Port → Prop) : Prop where
  refl : ∀ s, R s s
  trans : ∀ {s t u}, R s t → R t u → R s u
  quiet : ∀ {s t}, Quiet s t → R s t
  served : ∀ s slot last, R s (s.log (.served slot last))
  cancelled : ∀ s slot, R s (s.log (.cancel slot))
  checkStopped : ∀ s, R s s.ahciCheckStopped
  sdb : ∀ s slot cfis tfd, Yields (fun _ => True) (R s) (s.ahciWriteFisSdb slot cfis tfd)
  d2h : ∀ s slot cfis tfd, Yields (fun _ => True) (R s) (s.ahciWriteFisD2h slot cfis tfd)
  resetFis : ∀ s, Yields (fun _ => True) (R s) s.ahciWriteResetFisD2h
  cancel : ∀ s aior,
    Yields (fun _ => True) (fun r => R s r.2) (s.onDisk fun d => d.blockifCancel aior)

/-- A relation that also every step of a command keeps to. -/
structure Stepwise (R : Port → Port → Prop) : Prop extends Shared R where
  issue : ∀ s slot cfis, R s (s.issued slot cfis)
  request : ∀ s slot, R s (s.log (.request slot))
  empty : ∀ s slot, R s (s.log (.empty slot))
  d2hNcq : ∀ s slot, Yields (fun _ => True) (R s) (s.ahciWriteFisD2hNcq slot)
  piosetup : ∀ s, Yields (fun _ => True) (R s) s.ahciWriteFisPiosetup
  handOver : ∀ s op aior, Yields (fun _ => True) (R s) (s.handOver op aior)

/-- A relation that the commands of a port keep to, when they are issued and when they are
carried on. A command is issued only if no error keeps the port from it. -/
structure Kept (R : Port → Port → Prop) : Prop extends Shared R where
  handleCmd : ∀ s slot cfis, s.p.waitforclear = false →
    Yields (fun _ => True) (R s) (s.ahciHandleCmd slot cfis)
  handleRw : ∀ s slot cfis done, Yields (fun _ => True) (R s) (s.ahciHandleRw slot cfis done)
  handleDsmTrim : ∀ s slot cfis done,
    Yields (fun _ => True) (fun r => R s r.2) (s.ahciHandleDsmTrim slot cfis done)

theorem bit_and {cmd mask : BitVec 32} {i : Nat} (hMask : mask.getLsbD i = true) :
    (cmd &&& mask).getLsbD i = cmd.getLsbD i := by
  rw [BitVec.getLsbD_and, hMask, Bool.and_true]

theorem setCcs_bit (s : Port) {i : Nat} (hLow : i < AHCI_P_CMD_CCS_SHIFT) :
    s.setCcs.p.cmd.getLsbD i = s.p.cmd.getLsbD i := by
  have hShift : (BitVec.ofNat 32 s.p.ccs <<< AHCI_P_CMD_CCS_SHIFT).getLsbD i = false := by
    simp [hLow]
  have hMask : (~~~AHCI_P_CMD_CCS_MASK).getLsbD i = true := by
    have hAll : ∀ i < AHCI_P_CMD_CCS_SHIFT, (~~~AHCI_P_CMD_CCS_MASK).getLsbD i = true := by decide
    exact hAll i hLow
  rw [setCcs, BitVec.getLsbD_or, hShift, Bool.or_false]
  exact bit_and hMask

theorem setCcs_quiet (s : Port) : Quiet s s.setCcs :=
  ⟨rfl, rfl, rfl, rfl, rfl, rfl, setCcs_bit s (by decide), setCcs_bit s (by decide), rfl, rfl, rfl, rfl⟩

variable {R : Port → Port → Prop} (s : Port) (slot : Slot) (cfis : BitVec 64) (fuel : Nat)

namespace Shared

variable (h : Shared R)

include h

theorem ok : Yields (fun _ : Fault => True) (R s) (.ok s) := h.refl s

theorem step {s t : Port} {x : Except Fault Port} (hStep : R s t)
    (hx : Yields (fun _ => True) (R t) x) : Yields (fun _ => True) (R s) x :=
  hx.imp fun _ _ hu => h.trans hStep hu

theorem andThen {s : Port} {x : Except Fault Port} {f : Port → Except Fault Port}
    (hx : Yields (fun _ => True) (R s) x) (hf : ∀ t, Yields (fun _ => True) (R t) (f t)) :
    Yields (fun _ => True) (R s) (x >>= f) :=
  hx.bind fun t _ ht => h.step ht (hf t)

theorem portReset : Yields (fun _ => True) (R s) s.ahciPortReset := by
  refine Yields.ite (h.quiet ?_) (h.step (h.quiet ?_) (h.resetFis _))
  · exact ⟨rfl, rfl, rfl, rfl, rfl, rfl, rfl, rfl, rfl, rfl, rfl, rfl⟩
  · exact ⟨rfl, rfl, rfl, rfl, rfl, rfl, rfl, rfl, rfl, rfl, rfl, rfl⟩

theorem pullIoreq : Yields (fun _ => True) (fun r => R s r.2) s.pullIoreq := by
  unfold Port.pullIoreq
  split
  · trivial
  · exact h.quiet ⟨rfl, rfl, rfl, rfl, rfl, rfl, rfl, rfl, rfl, rfl, rfl, rfl⟩

theorem settle : R s (Port.ahciCheckStopped { s with p.pending := s.p.pending &&& (~~~bit slot) }) := by
  refine h.trans (h.quiet ?_) (h.checkStopped _)
  exact ⟨rfl, rfl, rfl, rfl, rfl, rfl, rfl, rfl, rfl, rfl, rfl, rfl⟩

end Shared

namespace Stepwise

variable (h : Stepwise R)

include h

theorem pushIoreq (aior : IoreqId) (io : AhciIoreq) (breq : BlockifReq) :
    R s (s.pushIoreq aior io breq) := by
  refine h.trans (h.quiet ?_) (h.request _ io.slot)
  exact ⟨rfl, rfl, rfl, rfl, rfl, rfl, rfl, rfl, rfl, rfl, rfl, rfl⟩

theorem sendOut (op : BlockOp) (accept : Bool) (aior : IoreqId) (io : AhciIoreq)
    (breq : BlockifReq) : Yields (fun _ => True) (R s) (s.sendOut op accept aior io breq) := by
  refine h.step (h.pushIoreq s aior io breq) (h.andThen (Yields.ite (h.d2hNcq _ _) (h.ok _)) ?_)
  exact fun t => h.handOver t _ _

theorem handleRw (done : Nat) : Yields (fun _ => True) (R s) (s.ahciHandleRw slot cfis done) := by
  unfold ahciHandleRw
  refine (yields_true _).bind fun sectsz _ _ => (h.pullIoreq s).bind fun r _ hPull => ?_
  exact (yields_true _).bind fun b _ _ => h.step hPull (h.sendOut _ _ _ _ _ _)

theorem handleFlush : Yields (fun _ => True) (R s) (s.ahciHandleFlush slot cfis) :=
  (h.pullIoreq s).bind fun _ _ hPull => h.step hPull (h.sendOut _ _ _ _ _ _)

theorem handleDsmTrim (done : Nat) :
    Yields (fun _ => True) (fun r => R s r.2) (s.ahciHandleDsmTrim slot cfis done) := by
  unfold ahciHandleDsmTrim
  refine (yields_true _).bind fun r _ _ => ?_
  dsimp only
  split
  · refine (h.step (h.empty s slot) (Yields.ite (h.d2hNcq _ _) (h.ok _))).bind fun t _ ht => ?_
    refine (h.step ht (Yields.ite (h.sdb _ _ _ _) (h.d2h _ _ _ _))).bind fun u _ hu => ?_
    exact h.trans hu (h.settle u slot)
  · refine (h.pullIoreq s).bind fun r _ hPull => (yields_true _).bind fun sectsz _ _ => ?_
    exact (h.step hPull (h.sendOut _ _ _ _ _ _)).bind fun u _ hu => hu

theorem dataIn (pio : Bool) (buf : List (BitVec 8)) :
    Yields (fun _ => True) (R s) (s.dataIn slot cfis pio buf) := by
  refine h.andThen (Yields.ite (h.piosetup _) (h.ok _)) fun t => h.step (h.quiet ?_) (h.d2h _ _ _ _)
  exact ⟨rfl, rfl, rfl, rfl, rfl, rfl, rfl, rfl, rfl, rfl, rfl, rfl⟩

theorem handleCmd : Yields (fun _ => True) (R s) (s.ahciHandleCmd slot cfis) := by
  have hIssued := h.issue s slot cfis
  refine ahciHandleCmd_rule (fun _ _ _ _ _ _ _ => ?_) (fun _ _ _ _ => ?_) (fun _ => trivial) (fun _ => ?_)
    (fun _ => ?_) fun _ _ => ?_
  · refine h.step hIssued (h.step (h.quiet ?_) (h.d2h _ _ _ _))
    exact ⟨rfl, rfl, rfl, rfl, rfl, rfl, rfl, rfl, rfl, rfl, rfl, rfl⟩
  · exact h.step hIssued (h.dataIn _ _ _ _ _)
  · exact h.step hIssued (h.handleRw _ _ _ _)
  · exact h.step hIssued (h.handleFlush _ _ _)
  · refine Yields.map ((h.handleDsmTrim _ _ _ _).imp fun _ _ ht => ?_)
    exact h.trans hIssued ht

theorem kept : Kept R where
  toShared := h.toShared
  handleCmd s slot cfis _ := h.handleCmd s slot cfis
  handleRw := h.handleRw
  handleDsmTrim := h.handleDsmTrim

end Stepwise

namespace Kept

variable (h : Kept R)

include h

theorem controlFis : Yields (fun _ => True) (R s) (s.controlFis slot cfis) := by
  refine h.andThen (Yields.ite (h.quiet ?_) (Yields.ite (h.step (h.quiet ?_) (h.portReset _)) (h.ok s)))
    fun t => h.quiet ?_
  · exact ⟨rfl, rfl, rfl, rfl, rfl, rfl, rfl, rfl, rfl, rfl, rfl, rfl⟩
  · exact ⟨rfl, rfl, rfl, rfl, rfl, rfl, rfl, rfl, rfl, rfl, rfl, rfl⟩
  · exact ⟨rfl, rfl, rfl, rfl, rfl, rfl, rfl, rfl, rfl, rfl, rfl, rfl⟩

theorem handleSlot (hGo : s.p.waitforclear = false) :
    Yields (fun _ => True) (R s) (s.ahciHandleSlot slot) :=
  (assertThat_yields fun _ => trivial).bind fun _ _ _ =>
    Yields.ite (h.ok s) (Yields.ite (h.handleCmd _ _ _ hGo) (h.controlFis _ _ _))

theorem currentSlot (hGo : s.p.waitforclear = false) :
    Yields (fun _ => True) (R s) s.currentSlot :=
  Yields.ite (h.step (h.quiet (setCcs_quiet s)) (h.handleSlot _ _ hGo)) (h.ok s)

theorem portRound : Yields (fun _ => True) (fun next => ∀ t, next = some t → R s t) s.portRound := by
  unfold Port.portRound
  split
  · rintro t ⟨⟩
  · next hGo =>
    simp only [not_or, Bool.not_eq_true] at hGo
    refine (h.currentSlot s hGo.2.2).bind fun t _ ht => ?_
    rintro u ⟨⟩
    exact h.trans ht (h.quiet ⟨rfl, rfl, rfl, rfl, rfl, rfl, rfl, rfl, rfl, rfl, rfl, rfl⟩)

theorem handlePort : Yields (fun _ => True) (R s) (s.ahciHandlePort fuel) := by
  have hRound : ∀ t : Port, R s t → Yields (fun _ => True)
      (fun next => ∀ u, next = some u → R s u) t.portRound := fun t ht =>
    (h.portRound t).imp fun next _ hNext u hu => h.trans ht (hNext u hu)
  have hLoop := whileSome_yields (e := .portLoop) trivial hRound fuel (h.refl s)
  exact Yields.ite (h.ok s) (hLoop.imp fun _ _ ht => ht.1)

theorem comeBack (aior : IoreqId) (err : Nat) : R s (s.comeBack aior err) := by
  have hServed : ∀ t u : Port, Quiet s t → Quiet (t.log (.served (s.p.ioreq aior).slot
      (decide (¬(err = 0 ∧ (s.p.ioreq aior).more))))) u → R s u := fun t u ht hu =>
    h.trans (h.quiet ht) (h.trans (h.served t _ _) (h.quiet hu))
  unfold Port.comeBack
  dsimp only
  split
  · refine hServed { s with p.iobhd := s.p.iobhd.erase aior, p.iofhd := s.p.iofhd ++ [aior] } _ ?_ ?_
    · exact ⟨rfl, rfl, rfl, rfl, rfl, rfl, rfl, rfl, rfl, rfl, rfl, rfl⟩
    · exact ⟨rfl, rfl, rfl, rfl, rfl, rfl, rfl, rfl, rfl, rfl, rfl, rfl⟩
  · refine hServed { s with p.iobhd := s.p.iobhd.erase aior, p.iofhd := s.p.iofhd ++ [aior] } _ ?_ ?_
    · exact ⟨rfl, rfl, rfl, rfl, rfl, rfl, rfl, rfl, rfl, rfl, rfl, rfl⟩
    · exact ⟨rfl, rfl, rfl, rfl, rfl, rfl, rfl, rfl, rfl, rfl, rfl, rfl⟩

theorem carryOn (dsm : Bool) (io : AhciIoreq) :
    Yields (fun _ => True) (R s) (s.carryOn fuel dsm io) := by
  refine Yields.ite ((h.handleDsmTrim _ _ _ _).bind fun r _ hr => ?_) (h.handleRw _ _ _ _)
  exact h.step hr (Yields.ite (h.handlePort _ fuel) (h.ok _))

theorem finishCmd (ncq : Bool) (io : AhciIoreq) (tfd : BitVec 32) :
    Yields (fun _ => True) (R s) (s.finishCmd fuel ncq io tfd) :=
  h.andThen (Yields.ite (h.sdb _ _ _ _) (h.d2h _ _ _ _)) fun t =>
    h.step (h.settle t io.slot) (h.handlePort _ fuel)

theorem stopIoreq (aior : IoreqId) : Yields (fun _ => True) (R s) (s.stopIoreq aior) := by
  refine (h.cancel s aior).bind fun r _ hr => ?_
  refine (Yields.ite (h.ok _) ?_).imp fun _ _ ht => h.trans hr ht
  refine h.trans (h.quiet ?_) (h.cancelled _ _)
  split <;> exact ⟨rfl, rfl, rfl, rfl, rfl, rfl, rfl, rfl, rfl, rfl, rfl, rfl⟩

theorem stopIoreqs (aiors : List IoreqId) : Yields (fun _ => True) (R s) (stopIoreqs aiors s) := by
  induction aiors generalizing s with
  | nil => exact h.ok s
  | cons aior aiors ih => exact h.andThen (h.stopIoreq s aior) fun t => ih t

theorem portStop (hOwned : R s { s with sc.mtx := s.sc.mtx.assertOwned }) :
    Yields (fun _ => True) (R s) s.ahciPortStop :=
  (assertThat_yields fun _ => trivial).bind fun _ _ _ =>
    h.andThen (h.step hOwned (h.stopIoreqs _ _)) h.checkStopped

theorem portWrite {offset : Nat} (hCmd : offset ≠ 0x18) (hIs : offset ≠ 0x10) (hIe : offset ≠ 0x14)
    (value : BitVec 32) : Yields (fun _ => True) (R s) (s.pciAhciPortWrite fuel offset value) := by
  unfold pciAhciPortWrite
  split
  all_goals first
    | contradiction
    | exact h.quiet ⟨rfl, rfl, rfl, rfl, rfl, rfl, rfl, rfl, rfl, rfl, rfl, rfl⟩
    | exact h.refl s
    | skip
  · refine Yields.ite (h.step (h.quiet ?_) (h.portReset _)) (h.quiet ?_)
    · exact ⟨rfl, rfl, rfl, rfl, rfl, rfl, rfl, rfl, rfl, rfl, rfl, rfl⟩
    · exact ⟨rfl, rfl, rfl, rfl, rfl, rfl, rfl, rfl, rfl, rfl, rfl, rfl⟩
  · refine h.step (h.quiet ?_) (h.handlePort _ fuel)
    exact ⟨rfl, rfl, rfl, rfl, rfl, rfl, rfl, rfl, rfl, rfl, rfl, rfl⟩

/-- A relation that also `blockif_thr` keeps to, with its locks and its work on the disk. -/
theorem ataIoreqCb (hMtx : ∀ (t : Port) (m : PthreadMutex), R t { t with sc.mtx := m })
    (aior : IoreqId) (err : Nat) : Yields (fun _ => True) (R s) (s.ataIoreqCb fuel aior err) := by
  refine h.step (t := s.lockMtx) (hMtx s _) (h.step (h.comeBack _ aior err) ?_)
  exact h.andThen (Yields.ite (h.carryOn _ _ _ _) (h.finishCmd _ _ _ _ _)) fun t => hMtx t _

theorem blockifThr (hMtx : ∀ (t : Port) (m : PthreadMutex), R t { t with sc.mtx := m })
    (hPut : ∀ (d : Disk IoreqId) (t : Port), R t ((client fuel).put d t)) :
    Yields (fun _ => True) (R s) ((client fuel).blockifThr fuel s) := by
  have hRound : ∀ t : Port, Yields (fun _ => True) (fun next => ∀ u, next = some u → R t u)
      ((client fuel).thrRound t) := by
    intro t
    refine (yields_true _).bind fun next _ _ => ?_
    cases next with
    | none => rintro u ⟨⟩
    | some next =>
      refine (yields_true _).bind fun r _ _ => ?_
      refine (h.step (hPut _ t) (h.ataIoreqCb _ fuel hMtx _ _)).bind fun u _ hu => ?_
      rintro v ⟨⟩
      exact h.trans hu (hPut _ u)
  refine Yields.bind (P := R s) ?_ fun t _ ht => h.trans ht (hPut _ t)
  refine (whileSome_yields trivial (fun t ht => ?_) fuel (hPut _ s)).imp fun t _ ht => ht.1
  exact (hRound t).imp fun next _ hNext u hu => h.trans ht (hNext u hu)

end Kept

end DeviceModel.PciAhci.Port

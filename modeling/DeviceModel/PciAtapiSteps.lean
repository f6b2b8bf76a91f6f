import DeviceModel.PciAhciSteps
import DeviceModel.PciAtapi

/-!
# Packet devices: what a port does, step by step

A packet command other than a read is answered at once. A relation that the steps of a port keep
to holds from before a function of a port with a packet device to after it, and what is recorded
of packet reads only grows.
-/

set_option autoImplicit false

namespace DeviceModel.PciAhci.AtapiPort

open Fallible BlockIf
open Port (Quiet)

section Answered

variable (s : AtapiPort) (slot : Slot) (cfis : BitVec 64)

def Answered (x : Except Fault AtapiPort) : Prop :=
  ∃ mem senseKey asc tfd,
    x = answer { s with mem := mem, senseKey := senseKey, asc := asc } slot cfis tfd

theorem succeed_answered : s.Answered slot cfis (s.succeed slot cfis) := ⟨_, _, _, _, rfl⟩

theorem fail_answered (asc : BitVec 8) : s.Answered slot cfis (s.fail slot cfis asc) :=
  ⟨_, _, _, _, rfl⟩

theorem reasonThenData_answered (buf : List (BitVec 8)) :
    s.Answered slot cfis (s.reasonThenData slot cfis buf) := ⟨_, _, _, _, rfl⟩

theorem dataThenReason_answered (buf : List (BitVec 8)) :
    s.Answered slot cfis (s.dataThenReason slot cfis buf) := ⟨_, _, _, _, rfl⟩

variable {s slot cfis} in
theorem Answered.ite {p : Prop} [Decidable p] {x y : Except Fault AtapiPort}
    (hx : s.Answered slot cfis x) (hy : s.Answered slot cfis y) :
    s.Answered slot cfis (if p then x else y) := by
  split
  · exact hx
  · exact hy

theorem atapiInquiry_answered : s.Answered slot cfis (s.atapiInquiry slot cfis) := by
  apply Answered.ite
  · exact .ite (s.reasonThenData_answered slot cfis _) (s.fail_answered slot cfis _)
  · exact s.reasonThenData_answered slot cfis _

theorem atapiReadToc_answered : s.Answered slot cfis (s.atapiReadToc slot cfis) := by
  have hFail := s.fail_answered slot cfis 0x24
  have hData := s.dataThenReason_answered slot cfis
  apply Answered.ite
  · exact .ite hFail (hData _)
  · exact .ite (hData _) (.ite (hData _) hFail)

theorem atapiModeSense_answered : s.Answered slot cfis (s.atapiModeSense slot cfis) := by
  have hFail := s.fail_answered slot cfis
  have hData := s.dataThenReason_answered slot cfis
  apply Answered.ite
  · exact .ite (hData _) (.ite (hData _) (hFail _))
  · exact .ite (hFail _) (hFail _)

/-- A packet reads, or it is answered at once. -/
theorem handlePacketCmd_cases :
    s.acmd cfis 0 ∈ [READ_10, READ_12] ∧ s.handlePacketCmd slot cfis = s.atapiRead slot cfis 0 ∨
      s.acmd cfis 0 ∉ [READ_10, READ_12] ∧ s.Answered slot cfis (s.handlePacketCmd slot cfis) := by
  by_cases hRead : s.acmd cfis 0 ∈ [READ_10, READ_12]
  · refine .inl ⟨hRead, ?_⟩
    have hOther : ∀ c ∈ [READ_10, READ_12], c ≠ TEST_UNIT_READY ∧ c ≠ INQUIRY ∧ c ≠ READ_CAPACITY ∧
        c ≠ PREVENT_ALLOW ∧ c ≠ READ_TOC ∧ c ≠ REPORT_LUNS := by decide
    obtain ⟨hReady, hInquiry, hCapacity, hPrevent, hToc, hLuns⟩ := hOther _ hRead
    rw [handlePacketCmd, if_neg hReady, if_neg hInquiry, if_neg hCapacity, if_neg hPrevent,
      if_neg hToc, if_neg hLuns, if_pos hRead]
  · refine .inr ⟨hRead, ?_⟩
    have hSucceed := s.succeed_answered slot cfis
    have hFail := s.fail_answered slot cfis
    have hData := s.dataThenReason_answered slot cfis
    have hReason := s.reasonThenData_answered slot cfis
    apply Answered.ite hSucceed
    apply Answered.ite (s.atapiInquiry_answered slot cfis)
    apply Answered.ite (hReason _)
    apply Answered.ite hSucceed
    apply Answered.ite (s.atapiReadToc_answered slot cfis)
    apply Answered.ite (hReason _)
    rw [if_neg hRead]
    apply Answered.ite (hData _)
    apply Answered.ite (.ite (hFail _) hSucceed)
    apply Answered.ite (s.atapiModeSense_answered slot cfis)
    exact .ite (.ite (hFail _) (hData _)) (hFail _)

end Answered

/-- What is recorded of packet reads is not lost, and the ports are related. -/
def Moves (Q : Port → Port → Prop) (s t : AtapiPort) : Prop := Q s.toPort t.toPort ∧ s.reads <+: t.reads

/-- A relation on ports that also the steps of a packet device keep to. -/
structure Kept (Q : Port → Port → Prop) : Prop extends Port.Kept Q where
  issued : ∀ (s : AtapiPort) slot cfis, s.p.waitforclear = false → Q s.toPort (s.issued slot cfis).toPort
  signature : ∀ s : AtapiPort, Yields (fun _ => True) (Moves Q s) s.ahciWriteResetFisD2h
  dataIn : ∀ s slot cfis buf, Yields (fun _ => True) (Q s) (s.dataIn slot cfis true buf)
  sendOut : ∀ s aior io breq, Yields (fun _ => True) (Q s) (s.sendOut .read false aior io breq)

namespace Kept

variable {Q : Port → Port → Prop} (h : Kept Q) (s : AtapiPort) (slot : Slot) (cfis : BitVec 64)
  (fuel : Nat)

include h

theorem stay : Yields (fun _ : Fault => True) (Moves Q s) (.ok s) := ⟨h.refl _, List.prefix_refl _⟩

theorem compose {s t u : AtapiPort} (hFirst : Moves Q s t) (hThen : Moves Q t u) : Moves Q s u :=
  ⟨h.trans hFirst.1 hThen.1, hFirst.2.trans hThen.2⟩

theorem step {s t : AtapiPort} {x : Except Fault AtapiPort} (hStep : Moves Q s t)
    (hx : Yields (fun _ => True) (Moves Q t) x) : Yields (fun _ => True) (Moves Q s) x :=
  hx.imp fun _ _ hu => h.compose hStep hu

theorem andThen {s : AtapiPort} {x : Except Fault AtapiPort} {f : AtapiPort → Except Fault AtapiPort}
    (hx : Yields (fun _ => True) (Moves Q s) x) (hf : ∀ t, Yields (fun _ => True) (Moves Q t) (f t)) :
    Yields (fun _ => True) (Moves Q s) (x >>= f) :=
  hx.bind fun t _ ht => h.step ht (hf t)

omit h in
theorem moves_of {t : AtapiPort} (hPort : Q s.toPort t.toPort) (hReads : t.reads = s.reads) :
    Moves Q s t := ⟨hPort, hReads ▸ List.prefix_rfl⟩

omit h in
theorem onPort {f : Port → Except Fault Port} (hf : Yields (fun _ => True) (Q s.toPort) (f s.toPort)) :
    Yields (fun _ => True) (Moves Q s) (s.onPort f) :=
  hf.bind fun _ _ ht => moves_of s ht rfl

/-- What the port is made of but its command engine may change. -/
theorem silent {t : AtapiPort} (hQuiet : Quiet s.toPort t.toPort) (hReads : t.reads = s.reads) :
    Moves Q s t := moves_of s (h.quiet hQuiet) hReads

theorem answer (tfd : BitVec 32) : Yields (fun _ => True) (Moves Q s) (s.answer slot cfis tfd) :=
  onPort s (h.d2h _ _ _ _)

theorem answered {x : Except Fault AtapiPort} (hx : s.Answered slot cfis x) :
    Yields (fun _ => True) (Moves Q s) x := by
  obtain ⟨mem, senseKey, asc, tfd, rfl⟩ := hx
  have hSilent : Moves Q s { s with mem := mem, senseKey := senseKey, asc := asc } :=
    h.silent s ⟨rfl, rfl, rfl, rfl, rfl, rfl, rfl, rfl, rfl, rfl, rfl, rfl⟩ rfl
  exact h.step hSilent (h.answer _ slot cfis tfd)

theorem readRequest (t : Port) (lba : BitVec 64) (len done : BitVec 32) :
    Yields (fun _ => True) (Q t) (readRequest slot cfis t lba len done) := by
  refine (h.pullIoreq t).bind fun r _ hPull => (yields_true _).bind fun c _ _ => ?_
  exact h.toShared.step hPull (h.sendOut _ _ _ _)

theorem atapiRead (done : BitVec 32) : Yields (fun _ => True)
    (fun t => Moves Q { s with reads := s.reads ++ [s.readLength cfis] } t)
    (s.atapiRead slot cfis done) := by
  refine h.andThen (Yields.ite ?_ (h.stay _)) fun t => onPort t (h.readRequest slot cfis _ _ _ _)
  exact h.answered _ slot cfis (succeed_answered _ slot cfis)

theorem read (done : BitVec 32) : Yields (fun _ => True) (Moves Q s) (s.atapiRead slot cfis done) := by
  have hRecord : Moves Q s { s with reads := s.reads ++ [s.readLength cfis] } :=
    ⟨h.refl _, List.prefix_append _ _⟩
  exact (h.atapiRead s slot cfis done).imp fun _ _ ht => h.compose hRecord ht

theorem handlePacketCmd : Yields (fun _ => True) (Moves Q s) (s.handlePacketCmd slot cfis) := by
  obtain ⟨-, hRead⟩ | ⟨-, hAnswered⟩ := s.handlePacketCmd_cases slot cfis
  · rw [hRead]
    exact h.read s slot cfis 0
  · exact h.answered s slot cfis hAnswered

theorem ahciHandleCmd (hGo : s.p.waitforclear = false) :
    Yields (fun _ => True) (Moves Q s) (s.ahciHandleCmd slot cfis) := by
  have hIssued : Moves Q s (s.issued slot cfis) := moves_of s (h.issued s slot cfis hGo) rfl
  refine Yields.ite (h.step hIssued (h.answer _ _ _ _)) (Yields.ite (h.step hIssued ?_) (Yields.ite ?_ ?_))
  · exact onPort _ (h.dataIn _ _ _ _)
  · exact h.step hIssued (h.handlePacketCmd _ slot cfis)
  · exact onPort s (h.handleCmd _ _ _ hGo)

theorem ahciPortReset : Yields (fun _ => True) (Moves Q s) s.ahciPortReset := by
  have hSilent : ∀ p : AhciPort, Quiet s.toPort { s.toPort with p := p } → Moves Q s { s with p := p } :=
    fun p hQuiet => h.silent s hQuiet rfl
  refine Yields.ite (hSilent _ ?_) (h.step (hSilent _ ?_) (h.signature _))
  · exact ⟨rfl, rfl, rfl, rfl, rfl, rfl, rfl, rfl, rfl, rfl, rfl, rfl⟩
  · exact ⟨rfl, rfl, rfl, rfl, rfl, rfl, rfl, rfl, rfl, rfl, rfl, rfl⟩

theorem controlFis : Yields (fun _ => True) (Moves Q s) (s.controlFis slot cfis) := by
  have hSilent : ∀ t : AtapiPort, ∀ p : AhciPort, Quiet t.toPort { t.toPort with p := p } →
      Moves Q t { t with p := p } := fun t p hQuiet => h.silent t hQuiet rfl
  refine h.andThen (Yields.ite (hSilent s _ ?_) (Yields.ite (h.step (hSilent s _ ?_) (h.ahciPortReset _))
    (h.stay s))) fun t => hSilent t _ ?_
  · exact ⟨rfl, rfl, rfl, rfl, rfl, rfl, rfl, rfl, rfl, rfl, rfl, rfl⟩
  · exact ⟨rfl, rfl, rfl, rfl, rfl, rfl, rfl, rfl, rfl, rfl, rfl, rfl⟩
  · exact ⟨rfl, rfl, rfl, rfl, rfl, rfl, rfl, rfl, rfl, rfl, rfl, rfl⟩

theorem ahciHandleSlot (hGo : s.p.waitforclear = false) :
    Yields (fun _ => True) (Moves Q s) (s.ahciHandleSlot slot) :=
  (assertThat_yields fun _ => trivial).bind fun _ _ _ =>
    Yields.ite (h.stay s) (Yields.ite (h.ahciHandleCmd _ _ _ hGo) (h.controlFis _ _ _))

theorem portRound : Yields (fun _ => True) (fun next => ∀ t, next = some t → Moves Q s t) s.portRound := by
  unfold AtapiPort.portRound
  split
  · rintro t ⟨⟩
  · next hGo =>
    simp only [not_or, Bool.not_eq_true] at hGo
    have hCcs : Moves Q s { s with toPort := s.setCcs } := h.silent s (Port.setCcs_quiet _) rfl
    have hCurrent : Yields (fun _ => True) (Moves Q s) s.currentSlot :=
      Yields.ite (h.step hCcs (h.ahciHandleSlot _ _ hGo.2.2)) (h.stay s)
    refine hCurrent.bind fun t _ ht => ?_
    rintro u ⟨⟩
    refine h.compose ht (h.silent t ?_ rfl)
    exact ⟨rfl, rfl, rfl, rfl, rfl, rfl, rfl, rfl, rfl, rfl, rfl, rfl⟩

theorem ahciHandlePort : Yields (fun _ => True) (Moves Q s) (s.ahciHandlePort fuel) := by
  have hRound : ∀ t : AtapiPort, Moves Q s t → Yields (fun _ => True)
      (fun next => ∀ u, next = some u → Moves Q s u) t.portRound := fun t ht =>
    (h.portRound t).imp fun next _ hNext u hu => h.compose ht (hNext u hu)
  have hLoop := whileSome_yields (e := .portLoop) trivial hRound fuel (h.stay s)
  exact Yields.ite (h.stay s) (hLoop.imp fun _ _ ht => ht.1)

theorem finishCmd (io : AhciIoreq) (err : Nat) :
    Yields (fun _ => True) (Moves Q s) (s.finishCmd fuel io err) := by
  refine h.andThen (h.answered s io.slot io.cfis ?_) fun t => ?_
  · split <;> exact ⟨_, _, _, _, rfl⟩
  · have hSettled : Moves Q t (t.settle io.slot) := moves_of t (h.settle t.toPort io.slot) rfl
    exact h.step hSettled (h.ahciHandlePort _ fuel)

theorem atapiIoreqCb (hMtx : ∀ (t : Port) (m : PthreadMutex), Q t { t with sc.mtx := m })
    (aior : IoreqId) (err : Nat) : Yields (fun _ => True) (Moves Q s) (s.atapiIoreqCb fuel aior err) := by
  have hBack : Moves Q s { s with toPort := s.lockMtx.comeBack aior err } :=
    moves_of s (h.trans (hMtx s.toPort _) (h.toKept.comeBack _ aior err)) rfl
  refine h.step hBack (h.andThen (Yields.ite (h.read _ _ _ _) (h.finishCmd _ fuel _ err)) fun t => ?_)
  exact moves_of t (hMtx t.toPort _) rfl

theorem thrRound (hMtx : ∀ (t : Port) (m : PthreadMutex), Q t { t with sc.mtx := m })
    (hPut : ∀ (d : Disk IoreqId) (t : Port), Q t ((Port.client fuel).put d t)) :
    Yields (fun _ => True) (fun next => ∀ t, next = some t → Moves Q s t)
      ((client fuel).thrRound s) := by
  have hPut' : ∀ (d : Disk IoreqId) (t : AtapiPort), Moves Q t ((client fuel).put d t) :=
    fun d t => moves_of t (hPut d t.toPort) rfl
  refine (yields_true _).bind fun next _ _ => ?_
  cases next with
  | none => rintro u ⟨⟩
  | some next =>
    refine (yields_true _).bind fun r _ _ => ?_
    refine (h.step (hPut' _ s) (h.atapiIoreqCb _ fuel hMtx _ _)).bind fun u _ hu => ?_
    rintro v ⟨⟩
    exact h.compose hu (hPut' _ u)

theorem blockifThr (hMtx : ∀ (t : Port) (m : PthreadMutex), Q t { t with sc.mtx := m })
    (hPut : ∀ (d : Disk IoreqId) (t : Port), Q t ((Port.client fuel).put d t)) :
    Yields (fun _ => True) (Moves Q s) ((client fuel).blockifThr fuel s) := by
  have hPut' : ∀ (d : Disk IoreqId) (t : AtapiPort), Moves Q t ((client fuel).put d t) :=
    fun d t => moves_of t (hPut d t.toPort) rfl
  refine Yields.bind (P := Moves Q s) ?_ fun t _ ht => h.compose ht (hPut' _ t)
  refine (whileSome_yields trivial (fun t ht => ?_) fuel (hPut' _ s)).imp fun t _ ht => ht.1
  exact (h.thrRound t fuel hMtx hPut).imp fun next _ hNext u hu => h.compose ht (hNext u hu)

theorem pciAhciPortWrite {offset : Nat} (hCmd : offset ≠ 0x18) (value : BitVec 32)
    (hPort : offset ≠ 0x2c → offset ≠ 0x38 →
      Yields (fun _ => True) (Q s.toPort) (s.toPort.pciAhciPortWrite fuel offset value)) :
    Yields (fun _ => True) (Moves Q s) (s.pciAhciPortWrite fuel offset value) := by
  have hSilent : ∀ p : AhciPort, Quiet s.toPort { s.toPort with p := p } → Moves Q s { s with p := p } :=
    fun p hQuiet => h.silent s hQuiet rfl
  unfold AtapiPort.pciAhciPortWrite
  split
  · contradiction
  · refine Yields.ite (h.step (hSilent _ ?_) (h.ahciPortReset _)) (hSilent _ ?_)
    · exact ⟨rfl, rfl, rfl, rfl, rfl, rfl, rfl, rfl, rfl, rfl, rfl, rfl⟩
    · exact ⟨rfl, rfl, rfl, rfl, rfl, rfl, rfl, rfl, rfl, rfl, rfl, rfl⟩
  · refine h.step (hSilent _ ?_) (h.ahciHandlePort _ fuel)
    exact ⟨rfl, rfl, rfl, rfl, rfl, rfl, rfl, rfl, rfl, rfl, rfl, rfl⟩
  · next hDet hCi => exact onPort s (hPort hDet hCi)

end Kept

theorem kept_true : Kept fun _ _ => True where
  refl _ := trivial
  trans _ _ := trivial
  quiet _ := trivial
  served _ _ _ := trivial
  cancelled _ _ := trivial
  checkStopped _ := trivial
  sdb _ _ _ _ := yields_true _
  d2h _ _ _ _ := yields_true _
  resetFis _ := yields_true _
  cancel _ _ := yields_true _
  handleCmd _ _ _ _ := yields_true _
  handleRw _ _ _ _ := yields_true _
  handleDsmTrim _ _ _ _ := yields_true _
  issued _ _ _ _ := trivial
  signature s := Kept.onPort s (yields_true _)
  dataIn _ _ _ _ := yields_true _
  sendOut _ _ _ _ := yields_true _

section Reads

variable (s : AtapiPort) (fuel : Nat)

theorem cmdWrite_reads (value : BitVec 32) :
    Yields (fun _ => True) (fun t => s.reads <+: t.reads) (s.cmdWrite fuel value) := by
  refine Yields.bind (P := Moves (fun _ _ => True) s) (Yields.ite ?_ ⟨trivial, List.prefix_rfl⟩)
    fun t _ ht => ?_
  · exact Kept.onPort (Q := fun _ _ => True) _ (yields_true _)
  · refine (kept_true.ahciHandlePort { t with toPort := t.cmdBits value } fuel).imp fun u _ hu => ?_
    exact ht.2.trans hu.2

theorem step_reads (event : Event) :
    Yields (fun _ => True) (fun t => s.reads <+: t.reads) (s.step fuel event) := by
  cases event with
  | write offset value =>
    refine Yields.bind (P := fun t : AtapiPort => s.reads <+: t.reads) ?_ fun t _ ht => ht
    by_cases hCmd : offset = 0x18
    · subst hCmd
      exact cmdWrite_reads { s with toPort := s.lockMtx } fuel value
    · refine (kept_true.pciAhciPortWrite { s with toPort := s.lockMtx } fuel hCmd value ?_).imp
        fun t _ ht => ht.2
      exact fun _ _ => yields_true _
  | reset => exact (kept_true.ahciPortReset _).imp fun t _ ht => ht.2
  | thr =>
    refine (kept_true.blockifThr s fuel ?_ ?_).imp fun t _ ht => ht.2
    · exact fun _ _ => trivial
    · exact fun _ _ => trivial
  | other sc mem => exact List.prefix_rfl

end Reads

end DeviceModel.PciAhci.AtapiPort

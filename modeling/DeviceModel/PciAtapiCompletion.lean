import DeviceModel.PciAhciCompletion
import DeviceModel.PciAtapiSteps
import DeviceModel.PciAtapiTransfer

/-!
# Packet devices: completion of commands

As long as no packet read finds that it has nothing to read, the requests and slots of a port with
a packet device are as sound as those of a disk, and each command ends once. A read of length zero
is answered and goes out all the same.
-/

set_option autoImplicit false

namespace DeviceModel.PciAhci.AtapiPort

open Fallible BlockIf
open Port (HandlingAt SoundAt Keeps)

theorem admits_true (pin : Nat) : AdmitsAll pin fun _ => True :=
  ⟨⟨fun _ => trivial⟩, trivial, trivial, trivial, trivial⟩

/-- A packet of length zero was read, or the port is sound. -/
def Fine (s : AtapiPort) (pin : Nat) (lag : List IoreqId) (busyq : List ElemId) : Prop :=
  0 ∈ s.reads ∨ s.SoundAt pin lag busyq

section Commands

variable {s : AtapiPort} {pin : Nat} {busyq : List ElemId} {slot : Slot} {phase : Phase} {pend : Bool}

theorem answer_ends (h : s.HandlingAt pin busyq slot phase pend) (hEnds : phase.Ends)
    (cfis : BitVec 64) (tfd : BitVec 32) :
    Yields (fun _ => True) (fun t => t.HandlingAt pin busyq slot .idle pend)
      (s.answer slot cfis tfd) :=
  (Port.ahciWriteFisD2h_ends h (admits_true pin).toAdmits hEnds cfis tfd).bind fun _ _ ht => ht

theorem answered_ends (h : s.HandlingAt pin busyq slot phase pend) (hEnds : phase.Ends)
    (cfis : BitVec 64) {x : Except Fault AtapiPort} (hx : s.Answered slot cfis x) :
    Yields (fun _ => True) (fun t => t.HandlingAt pin busyq slot .idle pend) x := by
  obtain ⟨mem, senseKey, asc, tfd, rfl⟩ := hx
  apply answer_ends _ hEnds
  exact HandlingAt.keeps h ⟨⟨rfl, rfl, rfl, rfl, rfl, rfl, rfl, rfl⟩, rfl⟩

theorem readRequest_sound {t : Port} (h : t.HandlingAt pin busyq slot phase pend)
    (hNext : phase.next (.request slot) = some .out) (cfis : BitVec 64) (lba : BitVec 64)
    (len done : BitVec 32) :
    Yields (fun _ => True) (fun u => u.SoundAt pin [] busyq) (readRequest slot cfis t lba len done) := by
  obtain ⟨aior, iofhd, hFree, hPull⟩ := Port.pullIoreq_yields h.handling.toPool
  rw [readRequest, hPull, ok_bind]
  dsimp only
  cases hChunk : readChunk slot cfis { t with p.iofhd := iofhd } lba len done with
  | error e => trivial
  | ok c =>
    have hSlot : c.1.slot = slot := by
      obtain ⟨sectsz, -, hRest⟩ := bind_eq_ok_iff.mp hChunk
      obtain ⟨b, -, hOk⟩ := bind_eq_ok_iff.mp hRest
      rw [← Except.ok.inj hOk]
    rw [ok_bind]
    exact Port.sendOut_sound h (admits_true pin).toAdmits hFree hNext hSlot .read false c.2

/-- A packet read goes out, unless it finds that it has nothing to read. -/
theorem atapiRead_fine (h : s.HandlingAt pin busyq slot phase pend)
    (hNext : phase.next (.request slot) = some .out) (cfis : BitVec 64) (done : BitVec 32) :
    Yields (fun _ => True) (fun t => t.Fine pin [] busyq) (s.atapiRead slot cfis done) := by
  by_cases hZero : s.readLength cfis = 0
  · refine (kept_true.atapiRead s slot cfis done).imp fun t _ ht => .inl (ht.2.subset ?_)
    simp [hZero]
  · rw [atapiRead, if_neg hZero, ok_bind]
    exact (readRequest_sound h hNext _ _ _ _).bind fun t _ ht => .inr ht

theorem issued_handling (h : s.SoundAt pin [] busyq) (hPend : s.p.pending.getLsbD slot = false)
    (cfis : BitVec 64) :
    (s.issued slot cfis).HandlingAt pin busyq slot (.begun (decide (s.IsRead cfis))) false := by
  have hIdle : s.HandlingAt pin busyq slot .idle false := ⟨h.sound.handle hPend, h.pin⟩
  exact hIdle.log (p := { s.p with tfd := s.p.tfd ||| ATA_S_BUSY }) ⟨rfl, rfl, rfl, rfl, rfl, rfl, rfl, rfl⟩
    (e := .issue slot (decide (s.IsRead cfis)) false) rfl rfl

theorem ahciHandleCmd_fine (h : s.SoundAt pin [] busyq) (hPend : s.p.pending.getLsbD slot = false)
    (cfis : BitVec 64) :
    Yields (fun _ => True) (fun t => t.Fine pin [] busyq) (s.ahciHandleCmd slot cfis) := by
  have hIssued := issued_handling h hPend cfis
  have hOther : ¬ s.IsRead cfis → (s.issued slot cfis).HandlingAt pin busyq slot (.begun false) false := by
    intro hNot
    rwa [decide_eq_false hNot] at hIssued
  have hSound : ∀ t : AtapiPort, t.HandlingAt pin busyq slot .idle false → t.Fine pin [] busyq :=
    fun t ht => .inr ⟨ht.handling.sound, ht.pin⟩
  unfold ahciHandleCmd
  dsimp only
  split
  · next hAborted =>
    have hNot : ¬ s.IsRead cfis := fun hRead => by
      rw [hRead.1] at hAborted
      exact absurd hAborted (by decide)
    exact (answer_ends (hOther hNot) (.inl rfl) _ _).imp fun t _ ht => hSound t ht
  split
  · next hIdentify =>
    have hNot : ¬ s.IsRead cfis := fun hRead => absurd (hIdentify.symm.trans hRead.1) (by decide)
    refine (Port.dataIn_ends (hOther hNot) (admits_true pin).toAdmits _ _ _).bind fun t _ ht => ?_
    exact .inr ⟨ht.handling.sound, ht.pin⟩
  split
  · next hPacket =>
    obtain ⟨hIn, hRead⟩ | ⟨hOut, hAnswered⟩ := (s.issued slot cfis).handlePacketCmd_cases slot cfis
    · rw [hRead]
      rw [decide_eq_true (show s.IsRead cfis from ⟨hPacket, hIn⟩)] at hIssued
      exact atapiRead_fine hIssued rfl cfis 0
    · have hNot : ¬ s.IsRead cfis := fun hRead => hOut hRead.2
      exact (answered_ends (hOther hNot) (.inl rfl) cfis hAnswered).imp fun t _ ht => hSound t ht
  · refine (Port.ahciHandleCmd_sound h (admits_true pin).toAdmits hPend cfis ?_).bind fun t _ ht => .inr ht
    exact fun _ _ _ => trivial

end Commands

section Port

variable {s : AtapiPort} {pin : Nat} {lag : List IoreqId} {busyq : List ElemId} {slot : Slot}

theorem ahciPortReset_keeps (s : AtapiPort) :
    Yields (fun _ => True) (fun t => Keeps s.toPort t.toPort) s.ahciPortReset := by
  have hReset : ∀ p : AhciPort, p.attached = true → AhciPort.SamePool s.p p →
      Yields (fun _ => True) (fun t => Keeps s.toPort t.toPort)
        (ahciWriteResetFisD2h { s with p := p }) := by
    intro p hAttached hSame
    have hFis := Port.ahciWriteFis_keeps (s := { s.toPort with p := p }) hAttached
      (admits_true _).toAdmits .regD2h
      ([FIS_TYPE_REGD2H, 0, 0, 1, 1, 0x14, 0xeb] ++ List.replicate 5 0 ++ [1] ++ List.replicate 7 0)
    have hKeeps : Keeps s.toPort { s.toPort with p := p } := ⟨hSame, rfl⟩
    exact hFis.bind fun t _ ht => hKeeps.trans ht
  unfold ahciPortReset
  dsimp only
  split
  · exact ⟨⟨rfl, rfl, rfl, rfl, rfl, rfl, rfl, rfl⟩, rfl⟩
  · next hAttached =>
    apply hReset
    · exact not_not.mp hAttached
    · exact ⟨rfl, rfl, rfl, rfl, rfl, rfl, rfl, rfl⟩

theorem controlFis_keeps (s : AtapiPort) (slot : Slot) (cfis : BitVec 64) :
    Yields (fun _ => True) (fun t => Keeps s.toPort t.toPort) (s.controlFis slot cfis) := by
  have hReset : Keeps s.toPort { s.toPort with p.reset := true } :=
    ⟨⟨rfl, rfl, rfl, rfl, rfl, rfl, rfl, rfl⟩, rfl⟩
  have hNone : Keeps s.toPort { s.toPort with p.reset := false } :=
    ⟨⟨rfl, rfl, rfl, rfl, rfl, rfl, rfl, rfl⟩, rfl⟩
  refine Yields.bind (P := fun t : AtapiPort => Keeps s.toPort t.toPort) (Yields.ite hReset
    (Yields.ite ?_ (Keeps.refl _))) fun t _ ht => ht.trans ?_
  · exact (ahciPortReset_keeps { s with p.reset := false }).imp fun t _ ht => hNone.trans ht
  · exact ⟨⟨rfl, rfl, rfl, rfl, rfl, rfl, rfl, rfl⟩, rfl⟩

theorem ahciHandleSlot_fine (h : s.SoundAt pin [] busyq) (hPend : s.p.pending.getLsbD slot = false) :
    Yields (fun _ => True) (fun t => t.Fine pin [] busyq) (s.ahciHandleSlot slot) := by
  unfold ahciHandleSlot
  rw [assertThat_of _ h.attached, ok_bind]
  refine Yields.ite (.inr h) (Yields.ite (ahciHandleCmd_fine h hPend _) ?_)
  exact (controlFis_keeps s slot _).imp fun t _ ht => .inr (h.keeps ht)

theorem portRound_fine (h : s.Fine pin [] busyq) :
    Yields (fun _ => True) (fun next => ∀ t, next = some t → t.Fine pin [] busyq) s.portRound := by
  obtain hZero | hSound := h
  · refine (kept_true.portRound s).imp fun next _ hNext t ht => .inl ?_
    exact (hNext t ht).2.subset hZero
  · unfold portRound
    split
    · rintro t ⟨⟩
    · refine Yields.bind (P := fun t : AtapiPort => t.Fine pin [] busyq) ?_ fun t _ ht => ?_
      · unfold currentSlot
        split
        · next hWaiting =>
          have hSame : Keeps s.toPort s.setCcs := ⟨⟨rfl, rfl, rfl, rfl, rfl, rfl, rfl, rfl⟩, rfl⟩
          exact ahciHandleSlot_fine (s := { s with toPort := s.setCcs }) (hSound.keeps hSame)
            (Port.not_pending_of_waiting hWaiting)
        · exact .inr hSound
      · rintro u ⟨⟩
        refine ht.imp_right fun hSound => hSound.keeps ?_
        exact ⟨⟨rfl, rfl, rfl, rfl, rfl, rfl, rfl, rfl⟩, rfl⟩

theorem ahciHandlePort_fine (h : s.Fine pin [] busyq) (fuel : Nat) :
    Yields (fun _ => True) (fun t => t.Fine pin [] busyq) (s.ahciHandlePort fuel) := by
  have hRound : ∀ t : AtapiPort, t.Fine pin [] busyq → _ := fun t ht => portRound_fine ht
  exact Yields.ite h ((whileSome_yields trivial hRound fuel h).imp fun t _ ht => ht.1)

theorem finishCmd_fine {io : AhciIoreq} {pend : Bool}
    (h : s.HandlingAt pin busyq io.slot (.back true) pend) (fuel err : Nat) :
    Yields (fun _ => True) (fun t => t.Fine pin [] busyq) (s.finishCmd fuel io err) := by
  refine Yields.bind (P := fun t : AtapiPort => t.HandlingAt pin busyq io.slot .idle pend)
    (answered_ends h (.inr rfl) io.cfis ?_) fun t _ ht => ?_
  · split <;> exact ⟨_, _, _, _, rfl⟩
  · exact ahciHandlePort_fine (.inr (Port.ahciCheckStopped_sound ht.settle)) fuel

theorem atapiIoreqCb_fine {aior : IoreqId} (h : s.SoundAt pin [aior] busyq) (fuel err : Nat) :
    Yields (fun _ => True) (fun t => t.Fine pin [] busyq) (s.atapiIoreqCb fuel aior err) := by
  have hLocked : s.lockMtx.SoundAt pin [aior] busyq := ⟨h.sound, h.pin⟩
  have hBack := Port.comeBack_handling hLocked err
  change HandlingAt _ _ _ _ (.back (decide (¬(err = 0 ∧ (s.p.ioreq aior).more)))) _ at hBack
  refine Yields.bind (P := fun t : AtapiPort => t.Fine pin [] busyq) ?_ fun t _ ht =>
    ht.imp_right fun hSound => ⟨hSound.sound, hSound.pin⟩
  split
  · next hMore =>
    rw [decide_eq_false (not_not.mpr hMore)] at hBack
    exact atapiRead_fine (s := { s with toPort := s.lockMtx.comeBack aior err }) hBack rfl _ _
  · next hLast =>
    rw [decide_eq_true hLast] at hBack
    exact finishCmd_fine (s := { s with toPort := s.lockMtx.comeBack aior err }) hBack fuel err

theorem thrRound_fine (h : s.Fine pin [] []) (fuel : Nat) :
    Yields (fun _ => True) (fun next => ∀ t, next = some t → t.Fine pin [] [])
      ((client fuel).thrRound s) := by
  obtain hZero | hSound := h
  · have hReads := kept_true.thrRound s fuel (fun _ _ => trivial) fun _ _ => trivial
    exact hReads.imp fun next _ hNext t ht => .inl ((hNext t ht).2.subset hZero)
  · unfold Client.thrRound
    cases hPendq : s.p.bctx.bcPendq with
    | nil =>
      have hNone : ((client fuel).get s).blockifDequeue = .ok none := Disk.blockifDequeue_nil hPendq
      rw [hNone, ok_bind]
      rintro t ⟨⟩
    | cons be queue =>
      obtain ⟨br, err, d, hDequeue, hProc, -, hServed⟩ := Port.served_sound hSound hPendq
      have hDequeue' : ((client fuel).get s).blockifDequeue = _ := hDequeue
      rw [hDequeue', ok_bind]
      simp only [hProc, ok_bind]
      refine (atapiIoreqCb_fine (s := (client fuel).put d s) hServed fuel err).bind fun t _ ht => ?_
      rintro u ⟨⟩
      exact ht.imp_right Port.complete_sound

theorem blockifThr_fine (h : s.Fine pin [] []) (fuel : Nat) :
    Yields (fun _ => True) (fun t => t.Fine pin [] []) ((client fuel).blockifThr fuel s) := by
  have hRound : ∀ t : AtapiPort, t.Fine pin [] [] → _ := fun t ht => thrRound_fine ht fuel
  have hMutex : ∀ (t : AtapiPort) (m : PthreadMutex), t.Fine pin [] [] →
      Fine { t with p.bctx.bcMtx := m } pin [] [] := fun t m ht =>
    ht.imp_right fun hSound => Port.mutex_sound hSound m
  exact (whileSome_yields trivial hRound fuel (hMutex s _ h)).bind fun t _ ht => hMutex t _ ht.1

end Port

section Registers

variable {s : AtapiPort} {pin : Nat}

theorem cmdWrite_fine (h : s.SoundAt pin [] []) (fuel : Nat) (value : BitVec 32) :
    Yields (fun _ => True) (fun t => t.Fine pin [] []) (s.cmdWrite fuel value) := by
  have hSame : ∀ cmd cmdLst, Port.SoundAt { s.toPort with p.cmd := cmd, p.cmdLst := cmdLst } pin [] [] :=
    fun _ _ => h.keeps ⟨⟨rfl, rfl, rfl, rfl, rfl, rfl, rfl, rfl⟩, rfl⟩
  refine Yields.bind (P := fun t : AtapiPort => t.SoundAt pin [] []) (Yields.ite ?_ (hSame _ _))
    fun t _ ht => ahciHandlePort_fine (.inr (ht.keeps (Port.cmdBits_keeps _ value))) fuel
  exact (Port.ahciPortStop_sound (hSame _ s.p.cmdLst)).bind fun t _ ht => ht

theorem pciAhciPortWrite_fine (h : s.SoundAt pin [] []) (fuel offset : Nat) (value : BitVec 32) :
    Yields (fun _ => True) (fun t => t.Fine pin [] []) (s.pciAhciPortWrite fuel offset value) := by
  have hQuiet : ∀ p : AhciPort, AhciPort.SamePool s.p p →
      Port.SoundAt { s.toPort with p := p } pin [] [] := fun p hSame => h.keeps ⟨hSame, rfl⟩
  unfold pciAhciPortWrite
  split
  · exact cmdWrite_fine h fuel value
  · have hSctl := hQuiet { s.p with sctl := value } ⟨rfl, rfl, rfl, rfl, rfl, rfl, rfl, rfl⟩
    refine Yields.ite ?_ (.inr hSctl)
    exact (ahciPortReset_keeps { s with p.sctl := value }).imp fun t _ ht => .inr (hSctl.keeps ht)
  · have hIssued := hQuiet { s.p with ci := s.p.ci ||| value } ⟨rfl, rfl, rfl, rfl, rfl, rfl, rfl, rfl⟩
    exact ahciHandlePort_fine (s := { s with p.ci := s.p.ci ||| value }) (.inr hIssued) fuel
  · exact (Port.pciAhciPortWrite_sound h (admits_true pin) fuel offset value).bind fun t _ ht => .inr ht

theorem hbaReset_keeps (s : AtapiPort) :
    Yields (fun _ => True) (fun t => Keeps s.toPort t.toPort) s.hbaReset := by
  have hCleared : ∀ cmd, Keeps s.toPort { s.toPort with p.ie := 0, p.is := 0, p.cmd := cmd, p.sctl := 0 } :=
    fun _ => ⟨⟨rfl, rfl, rfl, rfl, rfl, rfl, rfl, rfl⟩, rfl⟩
  refine (ahciPortReset_keeps _).imp fun t _ ht => ?_
  exact (hCleared _).trans ht

/-- A packet of length zero was read, or the requests and slots are sound. -/
def Good (s : AtapiPort) : Prop := 0 ∈ s.reads ∨ s.p.Sound [] []

theorem step_good (h : s.Good) (fuel : Nat) (event : Event) :
    Yields (fun _ => True) Good (s.step fuel event) := by
  obtain hZero | hSound := h
  · exact (step_reads s fuel event).imp fun t _ ht => .inl (ht.subset hZero)
  · have hAt : ∀ t : Port, t.p = s.p → t.SoundAt t.pin [] [] := by
      intro t hSame
      refine ⟨?_, rfl⟩
      rwa [hSame]
    have hGood : ∀ {pin : Nat} {t : AtapiPort}, t.Fine pin [] [] → t.Good := fun ht =>
      ht.imp_right SoundAt.sound
    cases event with
    | write offset value =>
      refine (pciAhciPortWrite_fine (s := { s with toPort := s.lockMtx }) (hAt _ rfl) fuel offset value).bind
        fun t _ ht => ?_
      have hWritten : t.Good := hGood ht
      exact hWritten
    | reset => exact (hbaReset_keeps s).imp fun t _ ht => hGood (.inr ((hAt _ rfl).keeps ht))
    | thr => exact (blockifThr_fine (.inr (hAt _ rfl)) fuel).imp fun t _ ht => hGood ht
    | other sc mem => exact .inr hSound

theorem pciAhciInit_good (port : PortId) (ident : List (BitVec 8)) (sc : Softc) (mem : Memory) :
    Yields (fun _ => True) Good (pciAhciInit port ident sc mem) := by
  refine (hbaReset_keeps _).imp fun t _ ht => .inr ?_
  exact (Ahci.diskPort_sound port ident).of_same ht.pool

end Registers

section Record

open AhciPort (Heeds Mute)

theorem follows_kept : Kept Port.Follows where
  toKept := Port.follows_kept
  issued s slot cfis hGo := by
    refine AhciPort.FollowsFrom.of_event rfl rfl rfl rfl ?_
    rw [hGo]
    rfl
  signature s := by
    refine Kept.onPort s (Port.ahciWriteFis_follows _ fun offset len ix hLayout => ?_)
    obtain rfl := Port.fisLayout_regD2h hLayout
    exact ⟨by decide, by decide⟩
  dataIn s slot cfis buf := Port.dataIn_follows s slot cfis true buf
  sendOut s aior io breq := Port.sendOut_follows s .read aior io breq (.inl rfl)

/-- The guest leaves `PxCMD.FRE` set, and the controller is not reset. -/
def KeepsFre : Event → Prop
  | .write offset value => offset = 0x18 → value &&& AHCI_P_CMD_FRE ≠ 0
  | .reset => False
  | .thr | .other _ _ => True

variable (s : AtapiPort) (fuel : Nat)

theorem cmdWrite_heeds (value : BitVec 32) :
    Yields (fun _ => True) (fun t => Heeds (value &&& AHCI_P_CMD_FRE ≠ 0) s.p t.p)
      (s.cmdWrite fuel value) := by
  let written := s.p.cmd &&& ~~~cmdWritable ||| cmdWritable &&& value
  refine Yields.bind (P := fun t => Port.Follows { s.toPort with p.cmd := written } t.toPort)
    (Yields.ite ?_ ?_) fun t _ ht => ?_
  · exact (Port.follows_kept.portStop _ (Port.mtx_follows _ _)).bind fun t _ ht => ht
  · exact Port.run_follows { s.toPort with p.cmd := written } _
  · refine (follows_kept.ahciHandlePort { t with toPort := t.cmdBits value } fuel).imp fun u _ hu => ?_
    exact Port.heeds_of_cmdBits s.toPort ht hu.1

theorem hbaReset_heeds : Yields (fun _ => True) (fun t => Heeds False s.p t.p) s.hbaReset := by
  have hOff : ∀ attached : Bool, (AHCI_P_CMD_SUD ||| AHCI_P_CMD_POD |||
      (if attached = true then AHCI_P_CMD_CPS else 0)).getLsbD 4 = false := by decide
  refine (follows_kept.ahciPortReset _).imp fun t _ ht => ⟨fun _ hOn => ?_, False.elim⟩
  exact absurd ((hOff s.p.attached).symm.trans (ht.1.fre.mp hOn)) Bool.false_ne_true

theorem step_heeds (event : Event) :
    Yields (fun _ => True) (fun t => Heeds (KeepsFre event) s.p t.p) (s.step fuel event) := by
  cases event with
  | write offset value =>
    refine Yields.bind (P := fun t : AtapiPort => Heeds (KeepsFre (.write offset value)) s.p t.p) ?_
      fun t _ ht => ht
    by_cases hCmd : offset = 0x18
    · subst hCmd
      exact (cmdWrite_heeds { s with toPort := s.lockMtx } fuel value).imp fun t _ ht =>
        ⟨ht.armed, fun hKeep => ht.told (hKeep rfl)⟩
    · refine (follows_kept.pciAhciPortWrite { s with toPort := s.lockMtx } fuel hCmd value ?_).imp
        fun t _ ht => ht.1.heeds _
      exact fun _ _ => Port.pciAhciPortWrite_follows _ fuel hCmd value
  | reset => exact hbaReset_heeds s
  | thr =>
    refine (follows_kept.blockifThr s fuel Port.mtx_follows fun d t => ?_).imp fun t _ ht => ht.1.heeds _
    refine Mute.follows ?_ _
    exact ⟨rfl, rfl, rfl, rfl⟩
  | other sc mem => exact AhciPort.Heeds.refl _ _

end Record

/-- From `p` to `q` every command that is issued ends once, and a slot is pending exactly while it has
a request, which is queued. -/
structure CompletesOnce (p q : AhciPort) : Prop extends AhciPort.EndsOnce p q where
  busy : ∀ slot : Slot, q.pending.getLsbD slot = true ↔ q.Busy slot
  queued : q.queued.Perm (q.iobhd.map some)

section Runs

/-- In a run that leaves `PxCMD.FRE` set, and in which no packet read finds that it has nothing to
read, every command ends with one final FIS or is taken back. The requests of a packet read come to
an end exactly if it is of less than 2 GiB, or has no PRDT. -/
theorem atapiReads_completeOnce (fuel : Nat) (port : PortId) (ident : List (BitVec 8)) (sc : Softc)
    (mem : Memory) (before after : List Event) (hKeeps : ∀ event ∈ after, KeepsFre event) :
    Yields (fun _ => True)
      (fun s => s.p.cmd &&& AHCI_P_CMD_FRE ≠ 0 →
        Yields (fun _ => True) (fun t => 0 ∉ t.reads → CompletesOnce s.p t.p)
          (run (step fuel) s after))
      (pciAhciInit port ident sc mem >>= fun s => run (step fuel) s before) ∧
    ∀ (ts : Nat → AtapiPort) (slot : Slot) (cfis : BitVec 64),
      (∀ i, SameRead slot cfis (ts 0) (ts i)) →
      ((∃ n, Yields (· = .buildIovTodo) (fun _ => True) (readChunks slot cfis ts n 0 0)) ↔
        ((ts 0).readBytes cfis).toNat < 2 ^ 31 ∨ (ts 0).entries slot cfis = []) := by
  refine ⟨?_, fun ts slot cfis hSame => readChunks_end_iff hSame⟩
  have hArmed : ∀ (s : AtapiPort), s.p.Armed → ∀ event, Yields (fun _ => True)
      (fun t => t.p.Armed) (s.step fuel event) := fun s hs event =>
    (step_heeds s fuel event).imp fun t _ ht => ht.armed hs
  have hInit := (pciAhciInit_good port ident sc mem).and (hbaReset_heeds
    ⟨⟨diskPort port ident, sc, mem⟩, 0, 0, []⟩)
  refine hInit.bind fun s _ hs => ?_
  have hStart : s.p.Armed := hs.2.armed fun hFre => absurd hFre (by
    simp [AhciPort.Fre, diskPort, callocPort])
  have hGood := run_keeps (fun t event ht => step_good ht fuel event) hs.1 before
  have hRun := run_keeps (fun t event ht => hArmed t ht event) hStart before
  refine (hGood.and hRun).imp fun t _ ht hFre => ?_
  have hListens : t.p.Listens := ⟨fre_iff.mpr hFre, ht.2 (fre_iff.mpr hFre)⟩
  have hStep : ∀ (u : AtapiPort) event, u.Good ∧ AhciPort.Heeds True t.p u.p → KeepsFre event →
      Yields (fun _ => True) (fun v : AtapiPort => v.Good ∧ AhciPort.Heeds True t.p v.p)
        (u.step fuel event) := by
    intro u event hu hKeep
    refine ((step_good hu.1 fuel event).and (step_heeds u fuel event)).imp fun v _ hv => ⟨hv.1, ?_⟩
    exact hu.2.trans ⟨hv.2.armed, fun _ => hv.2.told hKeep⟩
  have hAfter := run_yields hStep ⟨ht.1, AhciPort.Heeds.refl True t.p⟩ (along_of_forall t hKeeps)
  refine hAfter.imp fun u _ hu hReads => ?_
  have hSound := hu.1.resolve_left hReads
  obtain ⟨f, -, hSettled⟩ := hSound.settled
  exact ⟨hSound.endsOnce (hu.2.told trivial hListens).2,
    fun slot => (hSettled slot).pending.trans (hSettled slot).busy.symm, hSound.queued⟩

def packetRead (n : BitVec 8) : Memory := fun a =>
  let header := [(3, 1), (9, 0x10)]
  let fis := [(0x1000, 0x27), (0x1001, 0x80), (0x1002, ATA_PACKET_CMD)]
  let packet := [(0x1040, READ_10), (0x1048, n)]
  let prdt := [(0x1081, 0x20), (0x108c, 0xff), (0x108d, 7)]
  ((header ++ fis ++ packet ++ prdt).lookup (a - paddrGuest2host 0)).getD 0

def softc : Softc :=
  ⟨PciEmul.pciEmulInit ⟨0, 5, 0⟩, PthreadMutex.pthreadMutexInit, 6, 0, 0, false, fun _ => 0⟩

/-- The guest starts the port; it issues the command of slot 0, and the disk is served. -/
def started (n : BitVec 8) : Except Fault AtapiPort :=
  pciAhciInit 0 [] softc (packetRead n) >>= fun s => run (step 64) s [.write 0x18 0x11]

def issuedAndServed : List Event := [.write 0x38 1, .thr]

theorem of_served {x : Except Fault AtapiPort} {f : AtapiPort → Except Fault AtapiPort}
    {P : AtapiPort → AtapiPort → Prop} {s t : AtapiPort}
    (h : Yields (fun _ => True)
      (fun s => s.p.cmd &&& AHCI_P_CMD_FRE ≠ 0 → Yields (fun _ => True) (P s) (f s)) x)
    (hStarted : x = .ok s) (hFre : s.p.cmd &&& AHCI_P_CMD_FRE ≠ 0) (hServed : f s = .ok t) : P s t :=
  (h.of_ok hStarted hFre).of_ok hServed

theorem atapiReads_completeOnce_one :
    (∃ s t, started 1 = .ok s ∧ run (step 64) s issuedAndServed = .ok t ∧ CompletesOnce s.p t.p) ∧
      ∃ s : AtapiPort, ∃ n, Yields (· = .buildIovTodo) (fun _ => True)
        (readChunks 0 (paddrGuest2host 0x1000) (fun _ => s) n 0 0) := by
  have hRun : Yields (fun _ => False) (fun s => s.p.cmd &&& AHCI_P_CMD_FRE ≠ 0 ∧
      Yields (fun _ => False) (fun t => 0 ∉ t.reads) (run (step 64) s issuedAndServed)) (started 1) := by
    decide +kernel
  unfold started at hRun ⊢
  obtain ⟨s, hStarted, hFre, hServed⟩ := hRun.exists_ok
  obtain ⟨t, hServed, hReads⟩ := hServed.exists_ok
  have hKeeps : ∀ event ∈ issuedAndServed, KeepsFre event := by simp [issuedAndServed, KeepsFre]
  have hOnce := of_served (atapiReads_completeOnce _ _ _ _ _ _ _ hKeeps).1 hStarted hFre hServed
  refine ⟨⟨s, t, hStarted, hServed, hOnce hReads⟩, ?_⟩
  let start : AtapiPort := ⟨⟨diskPort 0 [], softc, packetRead 1⟩, 0, 0, []⟩
  have hEnds := (atapiReads_completeOnce 64 0 [] softc start.mem [] [] (by simp)).2 (fun _ => start) 0
    (paddrGuest2host 0x1000) fun _ => ⟨rfl, rfl, rfl⟩
  exact ⟨start, hEnds.mpr (.inl (by decide +kernel))⟩

/-- A read of length zero is answered, goes out as a request and is answered again. -/
theorem atapiReads_completeTwice : ¬ ∀ (fuel : Nat) (port : PortId) (ident : List (BitVec 8))
    (sc : Softc) (mem : Memory) (before after : List Event), (∀ event ∈ after, KeepsFre event) →
    Yields (fun _ => True)
      (fun s => s.p.cmd &&& AHCI_P_CMD_FRE ≠ 0 →
        Yields (fun _ => True) (fun t => CompletesOnce s.p t.p) (run (step fuel) s after))
      (pciAhciInit port ident sc mem >>= fun s => run (step fuel) s before) := by
  intro hAll
  have hRun : Yields (fun _ => False) (fun s => s.p.cmd &&& AHCI_P_CMD_FRE ≠ 0 ∧
      Yields (fun _ => False) (fun t => t.p.trace.countP (PortEvent.isIssue 0) = 1 ∧
        t.p.trace.countP (PortEvent.isAnswer 0) = 2) (run (step 64) s issuedAndServed)) (started 0) := by
    decide +kernel
  unfold started at hRun
  obtain ⟨s, hStarted, hFre, hServed⟩ := hRun.exists_ok
  obtain ⟨t, hServed, hIssued, hAnswered⟩ := hServed.exists_ok
  have hKeeps : ∀ event ∈ issuedAndServed, KeepsFre event := by simp [issuedAndServed, KeepsFre]
  have hCounted := (of_served (hAll _ _ _ _ _ _ _ hKeeps) hStarted hFre hServed).counted 0
  omega

end Runs

end DeviceModel.PciAhci.AtapiPort

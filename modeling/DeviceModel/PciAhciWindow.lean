import DeviceModel.EmulPci
import DeviceModel.PciAhciSlots
import DeviceModel.PciAhciSteps

/-!
# The AHCI controller: the register window

Every access of the guest to the BAR of the controller, as `pci_emul_mem_handler` hands it on.
Registers of a port without a disk are there, but some of them lead to its `pr_sc`; a write
of one or two bytes need not be to a multiple of four.
-/

set_option autoImplicit false

namespace DeviceModel.PciAhci

open Fallible BlockIf PciEmul EmulPci AhciPort

def AHCI_CAP_SXS : BitVec 32 := 0x00000020
def AHCI_CAP_NCS_SHIFT : Nat := 8
def AHCI_CAP_PSC : BitVec 32 := 0x00002000
def AHCI_CAP_SSC : BitVec 32 := 0x00004000
def AHCI_CAP_PMD : BitVec 32 := 0x00008000
def AHCI_CAP_ISS_SHIFT : Nat := 20
def AHCI_CAP_SCLO : BitVec 32 := 0x01000000
def AHCI_CAP_SAL : BitVec 32 := 0x02000000
def AHCI_CAP_SALP : BitVec 32 := 0x04000000
def AHCI_CAP_SSS : BitVec 32 := 0x08000000
def AHCI_CAP_SMPS : BitVec 32 := 0x10000000
def AHCI_CAP_SSNTF : BitVec 32 := 0x20000000
def AHCI_CAP_SNCQ : BitVec 32 := 0x40000000
def AHCI_CAP_64BIT : BitVec 32 := 0x80000000
def AHCI_CAP2_APST : BitVec 32 := 0x00000004

section Read

def Port.pciAhciPortRead (s : Port) (offset : Nat) : BitVec 32 :=
  match offset with
  | 0x00 => s.p.clb
  | 0x04 => s.p.clbu
  | 0x08 => s.p.fb
  | 0x0c => s.p.fbu
  | 0x10 => s.p.is
  | 0x14 => s.p.ie
  | 0x18 => s.p.cmd
  | 0x20 => s.p.tfd
  | 0x24 => s.p.sig
  | 0x28 => s.p.ssts
  | 0x2c => s.p.sctl
  | 0x30 => s.p.serr
  | 0x34 => s.p.sact
  | 0x38 => s.p.ci
  | _ => 0 -- `sntf` and `fbs` among them

namespace Ahci

variable (s : Ahci)

/-- As many slots as a port has requests, but no more than 32. -/
def cap : BitVec 32 :=
  AHCI_CAP_64BIT ||| AHCI_CAP_SNCQ ||| AHCI_CAP_SSNTF ||| AHCI_CAP_SMPS ||| AHCI_CAP_SSS |||
    AHCI_CAP_SALP ||| AHCI_CAP_SAL ||| AHCI_CAP_SCLO ||| 0x3 <<< AHCI_CAP_ISS_SHIFT |||
    AHCI_CAP_PMD ||| AHCI_CAP_SSC ||| AHCI_CAP_PSC |||
    BitVec.ofNat 32 (min 32 (BLOCKIF_MAXREQ - 1) - 1) <<< AHCI_CAP_NCS_SHIFT ||| AHCI_CAP_SXS |||
    BitVec.ofNat 32 (s.sc.ports - 1)

/-- The ports with a disk. -/
def pi : BitVec 32 :=
  (List.finRange 32).foldl (fun pi k => if (s.port k).attached then pi ||| bit k else pi) 0

def pciAhciHostRead (offset : Nat) : BitVec 32 :=
  match offset with
  | 0x00 => s.cap
  | 0x04 => s.sc.ghc
  | 0x08 => s.sc.is
  | 0x0c => s.pi
  | 0x10 => 0x10300
  | 0x24 => AHCI_CAP2_APST
  | _ => 0 -- `ccc_ctl`, `ccc_pts`, `em_loc` and `em_ctl` among them

def windowPort (offset : Nat) : PortId := Fin.ofNat 32 ((offset - AHCI_OFFSET) / AHCI_STEP)

def windowReg (offset : Nat) : Nat := (offset - AHCI_OFFSET) % AHCI_STEP

def portAt (k : PortId) : Port := ⟨s.port k, s.sc, s.mem⟩

def lock : Ahci := { s with sc.mtx := s.sc.mtx.pthreadMutexLock }

def unlock : Ahci := { s with sc.mtx := s.sc.mtx.pthreadMutexUnlock }

def pciAhciRead (baridx regoff size : Nat) : Except Fault (BitVec 64 × Ahci) := do
  assertThat (baridx = 5 ∧ (size = 1 ∨ size = 2 ∨ size = 4) ∧ regoff % size = 0) .ahciAccess
  let offset := regoff - regoff % 4
  let value :=
    if offset < AHCI_OFFSET then s.pciAhciHostRead offset
    else if offset < AHCI_OFFSET + s.sc.ports * AHCI_STEP then
      (s.portAt (windowPort offset)).pciAhciPortRead (windowReg offset)
    else 0
  .ok ((value >>> (8 * (regoff % 4))).setWidth 64, s.lock.unlock)

end Ahci

/-- The controller as a device behind its BARs. -/
def ahciOps (T : PciTree) (fuel : Nat) : BarOps T Ahci where
  peBarread _ m bidx offset size := do
    let (value, d) ← m.dev.pciAhciRead bidx offset.toNat size
    .ok (value, { m with dev := d })
  peBarwrite _ m bidx offset _ value := do
    let d ← m.dev.pciAhciWrite fuel bidx offset.toNat value
    .ok { m with dev := d }

end Read

namespace Port

section Relations

structure SameList (s t : Port) : Prop where
  attached : t.p.attached = s.p.attached
  ports : t.sc.ports = s.sc.ports
  st : t.p.cmd.getLsbD 0 = s.p.cmd.getLsbD 0
  cmdLst : t.p.cmdLst = s.p.cmdLst

/-- The disk, the pin and the mutexes stay as they are, if that of the block interface is free. -/
structure SameLocks (s t : Port) : Prop where
  attached : t.p.attached = s.p.attached
  ports : t.sc.ports = s.sc.ports
  pin : t.sc.ascPi.lintrPin = s.sc.ascPi.lintrPin
  mtx : t.sc.mtx = s.sc.mtx
  bcMtx : s.p.bctx.bcMtx.lock = false → t.p.bctx.bcMtx = s.p.bctx.bcMtx

variable {s t : Port}

theorem SameList.refl (s : Port) : SameList s s := ⟨rfl, rfl, rfl, rfl⟩

theorem SameList.trans {u : Port} (h : SameList s t) (h' : SameList t u) : SameList s u :=
  ⟨h'.attached.trans h.attached, h'.ports.trans h.ports, h'.st.trans h.st, h'.cmdLst.trans h.cmdLst⟩

theorem SameLocks.refl (s : Port) : SameLocks s s := ⟨rfl, rfl, rfl, rfl, fun _ => rfl⟩

theorem SameLocks.trans {u : Port} (h : SameLocks s t) (h' : SameLocks t u) : SameLocks s u := by
  refine ⟨h'.attached.trans h.attached, h'.ports.trans h.ports, h'.pin.trans h.pin, h'.mtx.trans h.mtx, fun hFree => ?_⟩
  have hSame := h.bcMtx hFree
  exact (h'.bcMtx (by rw [hSame]; exact hFree)).trans hSame

/-- What neither relation looks at. -/
structure SameWindow (s t : Port) : Prop where
  attached : t.p.attached = s.p.attached
  st : t.p.cmd.getLsbD 0 = s.p.cmd.getLsbD 0
  cmdLst : t.p.cmdLst = s.p.cmdLst
  ports : t.sc.ports = s.sc.ports
  pin : t.sc.ascPi.lintrPin = s.sc.ascPi.lintrPin
  mtx : t.sc.mtx = s.sc.mtx
  bcMtx : t.p.bctx.bcMtx = s.p.bctx.bcMtx

theorem SameWindow.refl (s : Port) : SameWindow s s := ⟨rfl, rfl, rfl, rfl, rfl, rfl, rfl⟩

theorem SameWindow.trans {u : Port} (h : SameWindow s t) (h' : SameWindow t u) : SameWindow s u :=
  ⟨h'.attached.trans h.attached, h'.st.trans h.st, h'.cmdLst.trans h.cmdLst, h'.ports.trans h.ports, h'.pin.trans h.pin, h'.mtx.trans h.mtx,
    h'.bcMtx.trans h.bcMtx⟩

theorem SameWindow.list (h : SameWindow s t) : SameList s t :=
  ⟨h.attached, h.ports, h.st, h.cmdLst⟩

theorem SameWindow.locks (h : SameWindow s t) : SameLocks s t :=
  ⟨h.attached, h.ports, h.pin, h.mtx, fun _ => h.bcMtx⟩

theorem ahciPortIntr_window (s : Port) : Yields (fun _ => True) (SameWindow s) s.ahciPortIntr := by
  refine (assertThat_yields fun _ => trivial).bind fun _ _ _ => ?_
  unfold raiseIntr
  have hSame : ∀ is : BitVec 32, SameWindow s { s with sc.is := is } :=
    fun _ => ⟨rfl, rfl, rfl, rfl, rfl, rfl, rfl⟩
  refine Yields.ite (hSame _) (Yields.ite (hSame _) (Yields.ite (hSame _)
    (Yields.ite (hSame _) (Yields.ite (hSame _) (Yields.ite (hSame _) ?_)))))
  exact (pciLintrAssert_pin _ fun _ => trivial).bind fun _ _ hPi => ⟨rfl, rfl, rfl, rfl, hPi, rfl, rfl⟩

theorem ahciWriteFis_window (s : Port) (ft : SataFisType) (fis : List (BitVec 8)) :
    Yields (fun _ => True) (SameWindow s) (s.ahciWriteFis ft fis) := by
  unfold ahciWriteFis
  split
  · refine Yields.ite (SameWindow.refl s) (Yields.ite ⟨rfl, rfl, rfl, rfl, rfl, rfl, rfl⟩ ?_)
    refine Yields.imp (ahciPortIntr_window _) fun _ _ ht => SameWindow.trans ?_ ht
    exact ⟨rfl, rfl, rfl, rfl, rfl, rfl, rfl⟩
  · exact SameWindow.refl s

theorem SameWindow.writeFis (h : SameWindow s t) (ft : SataFisType) (fis : List (BitVec 8)) :
    Yields (fun _ => True) (SameWindow s) (t.ahciWriteFis ft fis) :=
  (ahciWriteFis_window t ft fis).imp fun _ _ hu => h.trans hu

theorem ahciCheckStopped_window (s : Port) : SameWindow s s.ahciCheckStopped := by
  unfold ahciCheckStopped
  split
  · exact ⟨rfl, bit_and (by decide), rfl, rfl, rfl, rfl, rfl⟩
  · exact SameWindow.refl s

theorem ahciWriteFisSdb_window (s : Port) (slot : Slot) (cfis : BitVec 64) (tfd : BitVec 32) :
    Yields (fun _ => True) (SameWindow s) (s.ahciWriteFisSdb slot cfis tfd) := by
  unfold ahciWriteFisSdb
  refine SameWindow.writeFis ?_ _ _
  dsimp only
  split <;> exact ⟨rfl, rfl, rfl, rfl, rfl, rfl, rfl⟩

theorem ahciWriteFisD2h_window (s : Port) (slot : Slot) (cfis : BitVec 64) (tfd : BitVec 32) :
    Yields (fun _ => True) (SameWindow s) (s.ahciWriteFisD2h slot cfis tfd) := by
  unfold ahciWriteFisD2h
  refine SameWindow.writeFis ?_ _ _
  dsimp only
  split <;> exact ⟨rfl, rfl, rfl, rfl, rfl, rfl, rfl⟩

theorem ahciWriteFisD2hNcq_window (s : Port) (slot : Slot) :
    Yields (fun _ => True) (SameWindow s) (s.ahciWriteFisD2hNcq slot) := by
  unfold ahciWriteFisD2hNcq
  refine SameWindow.writeFis ?_ _ _
  exact ⟨rfl, rfl, rfl, rfl, rfl, rfl, rfl⟩

/-- A step of the block interface leaves its mutex as it was, if it was free. -/
theorem onDisk_locks (s : Port) {α : Type} {f : Disk IoreqId → Except Fault (α × Disk IoreqId)}
    (hf : ∀ d, Yields (fun _ => True)
      (fun r => d.bc.bcMtx.lock = false → r.2.bc.bcMtx = d.bc.bcMtx) (f d)) :
    Yields (fun _ => True) (fun r => SameLocks s r.2) (s.onDisk f) := by
  refine (assertThat_yields fun _ => trivial).bind fun _ _ _ => (hf _).bind fun r _ hr => ?_
  exact ⟨rfl, rfl, rfl, rfl, hr⟩

theorem onDisk_list (s : Port) {α : Type} (f : Disk IoreqId → Except Fault (α × Disk IoreqId)) :
    Yields (fun _ => True) (fun r => SameList s r.2) (s.onDisk f) := by
  refine (assertThat_yields fun _ => trivial).bind fun _ _ _ => (yields_true _).bind fun r _ _ => ?_
  exact ⟨rfl, rfl, rfl, rfl⟩

theorem unlock_lock {m : PthreadMutex} (hFree : m.lock = false) :
    m.pthreadMutexLock.pthreadMutexUnlock = m := by
  cases m with
  | mk lock failed =>
    obtain rfl : lock = false := hFree
    simp [PthreadMutex.pthreadMutexLock, PthreadMutex.pthreadMutexUnlock]

theorem blockifOp_locks (d : Disk IoreqId) (op : BlockOp) (aior : IoreqId) : Yields (fun _ => True)
    (fun r => d.bc.bcMtx.lock = false → r.2.bc.bcMtx = d.bc.bcMtx) (d.blockifOp op aior) := by
  refine (assertThat_yields fun _ => trivial).bind fun _ _ _ => ?_
  unfold Disk.blockifRequest
  split
  · exact unlock_lock
  · cases hEnqueue : d.lock.blockifEnqueue aior op with
    | error e => trivial
    | ok d' =>
      obtain ⟨be, freeq, status, off, -, -, rfl⟩ := Disk.blockifEnqueue_cases hEnqueue
      exact unlock_lock

theorem blockifCancel_locks (d : Disk IoreqId) (aior : IoreqId) : Yields (fun _ => True)
    (fun r => d.bc.bcMtx.lock = false → r.2.bc.bcMtx = d.bc.bcMtx) (d.blockifCancel aior) := by
  refine (assertThat_yields fun _ => trivial).bind fun _ _ _ => ?_
  dsimp only
  split
  · exact unlock_lock
  · split
    · exact unlock_lock
    · exact (assertThat_yields fun _ => trivial).bind fun _ _ _ => unlock_lock

theorem sameList_stepwise : Stepwise SameList where
  refl := SameList.refl
  trans := SameList.trans
  quiet h := ⟨h.attached, by rw [h.sc], h.st, h.cmdLst⟩
  issue _ _ _ := ⟨rfl, rfl, rfl, rfl⟩
  request _ _ := ⟨rfl, rfl, rfl, rfl⟩
  served _ _ _ := ⟨rfl, rfl, rfl, rfl⟩
  empty _ _ := ⟨rfl, rfl, rfl, rfl⟩
  cancelled _ _ := ⟨rfl, rfl, rfl, rfl⟩
  checkStopped s := (ahciCheckStopped_window s).list
  sdb s slot cfis tfd := (ahciWriteFisSdb_window s slot cfis tfd).imp fun _ _ ht => ht.list
  d2h s slot cfis tfd := (ahciWriteFisD2h_window s slot cfis tfd).imp fun _ _ ht => ht.list
  d2hNcq s slot := (ahciWriteFisD2hNcq_window s slot).imp fun _ _ ht => ht.list
  piosetup s := (ahciWriteFis_window s _ _).imp fun _ _ ht => ht.list
  resetFis s := (ahciWriteFis_window s _ _).imp fun _ _ ht => ht.list
  handOver s _ _ := (onDisk_list s _).bind fun _ _ hr =>
    (assertThat_yields fun _ => trivial).bind fun _ _ _ => hr
  cancel s _ := onDisk_list s _

/-- Whatever a port does at a register access, it gives back the locks that it takes. -/
theorem sameLocks_stepwise : Stepwise SameLocks where
  refl := SameLocks.refl
  trans := SameLocks.trans
  quiet h := ⟨h.attached, by rw [h.sc], by rw [h.sc], by rw [h.sc], fun _ => h.bcMtx⟩
  issue _ _ _ := ⟨rfl, rfl, rfl, rfl, fun _ => rfl⟩
  request _ _ := ⟨rfl, rfl, rfl, rfl, fun _ => rfl⟩
  served _ _ _ := ⟨rfl, rfl, rfl, rfl, fun _ => rfl⟩
  empty _ _ := ⟨rfl, rfl, rfl, rfl, fun _ => rfl⟩
  cancelled _ _ := ⟨rfl, rfl, rfl, rfl, fun _ => rfl⟩
  checkStopped s := (ahciCheckStopped_window s).locks
  sdb s slot cfis tfd := (ahciWriteFisSdb_window s slot cfis tfd).imp fun _ _ ht => ht.locks
  d2h s slot cfis tfd := (ahciWriteFisD2h_window s slot cfis tfd).imp fun _ _ ht => ht.locks
  d2hNcq s slot := (ahciWriteFisD2hNcq_window s slot).imp fun _ _ ht => ht.locks
  piosetup s := (ahciWriteFis_window s _ _).imp fun _ _ ht => ht.locks
  resetFis s := (ahciWriteFis_window s _ _).imp fun _ _ ht => ht.locks
  handOver s op aior := by
    rw [handOver_eq]
    exact (onDisk_locks s fun d => blockifOp_locks d op aior).bind fun _ _ hr =>
      (assertThat_yields fun _ => trivial).bind fun _ _ _ => hr
  cancel s aior := onDisk_locks s fun d => blockifCancel_locks d aior

end Relations

section Write

variable {s t : Port} {pin : Nat} {E : Fault → Prop}

def commanded (s : Port) (value : BitVec 32) : Port :=
  { s with p.cmd := s.p.cmd &&& ~~~cmdWritable ||| cmdWritable &&& value }

/-- The port after a write to `PxCMD` that starts it. -/
def started (s : Port) (value : BitVec 32) : Port :=
  Port.cmdBits { s.commanded value with
    p.cmd := (s.commanded value).p.cmd ||| AHCI_P_CMD_CR
    p.cmdLst := paddrGuest2host (s.p.clbu ++ s.p.clb) } value

def looking (s : Port) (reg : Nat) (value : BitVec 32) : Option Port :=
  if reg = 0x18 ∧ value &&& AHCI_P_CMD_ST ≠ 0 then some (s.started value)
  else if reg = 0x38 ∧ s.p.cmd &&& AHCI_P_CMD_ST ≠ 0 then
    some { s with p.ci := s.p.ci ||| value }
  else none

/-- The current slot has a command to read or write whose first entries are tiny. -/
def TinyRw (s : Port) : Prop :=
  let cfis := s.slotCfis s.p.ccs
  s.cfisByte cfis 0 = FIS_TYPE_REGH2D ∧ s.cfisByte cfis 1 &&& 0x80 ≠ 0 ∧ s.IsRw cfis ∧
    TinyEntries (s.entries s.p.ccs cfis) s.p.bctx.bcSectsz 0

/-- A write that does not lead to the `pr_sc` of a port without a disk, and not to a command whose
entries are too small. -/
structure Accepts (s : Port) (reg : Nat) (value : BitVec 32) : Prop where
  disk : s.p.attached = false →
    reg ≠ 0x10 ∧ reg ≠ 0x14 ∧ (reg = 0x18 → value &&& AHCI_P_CMD_ST ≠ 0)
  idle : s.p.attached = false → ∀ t, s.looking reg value = some t → ¬ t.Going
  whole : s.p.attached = true → ∀ t, s.looking reg value = some t →
    ∀ n u, rounds portRound n t = some u → u.TakesUp → ¬ u.TinyRw

/-- The computation stops at no assertion and no null pointer, though perhaps at the end of the
rounds that it is allowed. -/
def Safe {α : Type} (x : Nat → Except Fault α) : Prop :=
  ∀ fuel, Yields (· = .portLoop) (fun _ => True) (x fuel)

theorem st_iff {cmd : BitVec 32} : cmd &&& AHCI_P_CMD_ST = 0 ↔ cmd.getLsbD 0 = false := by
  have hBit : AHCI_P_CMD_ST = BitVec.twoPow 32 0 := by decide
  constructor
  · intro hZero
    have hLsb := congrArg (BitVec.getLsbD · 0) hZero
    simpa [hBit] using hLsb
  · intro hOff
    refine BitVec.eq_of_getLsbD_eq fun i hi => ?_
    rw [BitVec.getLsbD_and, hBit, BitVec.getLsbD_twoPow]
    by_cases hEq : i = 0
    · subst hEq
      rw [hOff, Bool.false_and, BitVec.ofNat_eq_ofNat, BitVec.getLsbD_zero]
    · have hNe : ¬ 0 = i := fun h => hEq h.symm
      simp [hNe]

theorem rwStops_iff (hSector : 0 < s.p.bctx.bcSectsz) :
    (∃ e, s.RwStops s.p.ccs e) ↔ s.TinyRw := by
  have hLess : 0 < s.rwLen (s.slotCfis s.p.ccs) := Nat.mul_pos (rwRange_pos _ _) hSector
  have hAsserts := rwChunk_asserts_iff s s.p.ccs (s.slotCfis s.p.ccs) 0 hSector (Nat.dvd_zero _) hLess
  rw [not_iff_not] at hAsserts
  constructor
  · rintro ⟨e, hFis, hCmd, hRw, hStop⟩
    obtain rfl := rwChunk_stops _ _ _ _ e hStop
    exact ⟨hFis, hCmd, hRw, hAsserts.mp hStop⟩
  · rintro ⟨hFis, hCmd, hRw, hTiny⟩
    exact ⟨.buildIovTodo, hFis, hCmd, hRw, hAsserts.mpr hTiny⟩

section Attached

theorem ahciHandleCmd_rw {slot : Slot} {cfis : BitVec 64} (hAttached : s.p.attached = true)
    (hRw : s.IsRw cfis) :
    s.ahciHandleCmd slot cfis = (s.issued slot cfis).ahciHandleRw slot cfis 0 := by
  have hApart : ∀ c ∈ rwCmds ++ rwCmds48 ++ rwCmdsQueued, c ∉ [ATA_FLUSHCACHE, ATA_FLUSHCACHE48] := by
    decide
  apply ahciHandleCmd_rule
    (Q := fun x => x = (s.issued slot cfis).ahciHandleRw slot cfis 0)
  · exact fun hBlock => absurd (.inl hRw) hBlock
  · exact fun hBlock => absurd (.inl hRw) hBlock
  · exact fun hAbsent => absurd (hAttached.symm.trans hAbsent) Bool.noConfusion
  · exact fun _ => rfl
  · exact fun hFlush => absurd hFlush (hApart _ hRw)
  · exact fun hBlock => absurd (.inl hRw) hBlock

theorem ahciHandleSlot_rwStops {busyq : List ElemId} {slot : Slot} {e : Fault}
    (h : s.SoundAt pin [] busyq) (hStop : s.RwStops slot e) : s.ahciHandleSlot slot = .error e := by
  obtain ⟨hFis, hCmd, hRw, hChunk⟩ := hStop
  obtain ⟨aior, iofhd, hFree⟩ := h.sound.free
  have hFree' : (s.issued slot (s.slotCfis slot)).p.iofhd = aior :: iofhd := hFree
  have hChunk' : (s.issued slot (s.slotCfis slot)).rwChunk slot (s.slotCfis slot) 0 = .error e := hChunk
  have hAttached' : (s.issued slot (s.slotCfis slot)).p.attached = true := h.attached
  unfold ahciHandleSlot
  rw [assertThat_of _ h.attached, ok_bind]
  dsimp only
  rw [if_neg (not_not.mpr hFis), if_pos hCmd, ahciHandleCmd_rw h.attached hRw, ahciHandleRw_eq,
    assertThat_of _ hAttached', ok_bind, pullIoreq, hFree', ok_bind, hChunk']
  rfl

theorem portRound_rwStops {busyq : List ElemId} {e : Fault} (h : s.SoundAt pin [] busyq)
    (hTakes : s.TakesUp) (hStop : s.RwStops s.p.ccs e) : s.portRound = .error e := by
  have hSame : Keeps s s.setCcs := ⟨⟨rfl, rfl, rfl, rfl, rfl, rfl, rfl, rfl⟩, rfl⟩
  have hSlot : s.setCcs.ahciHandleSlot s.p.ccs = .error e :=
    ahciHandleSlot_rwStops (h.keeps hSame) hStop
  unfold portRound
  rw [if_neg hTakes.1, currentSlot, if_pos hTakes.2, hSlot, error_bind]

/-- The loop of `ahci_handle_port` is safe exactly if it comes to no such command. -/
theorem ahciHandlePort_safe_iff (h : s.SoundAt pin [] []) (hPin : 0 < pin)
    (hStart : s.p.cmd &&& AHCI_P_CMD_ST ≠ 0) : Safe (s.ahciHandlePort ·) ↔
      ∀ n u, rounds portRound n s = some u → u.TakesUp → ¬ u.TinyRw := by
  have hAdmits : ∀ F : Fault → Prop, Admits pin F := fun F => ⟨fun hZero => absurd hZero (Nat.ne_of_gt hPin)⟩
  have hSound : ∀ n (t u : Port), t.SoundAt pin [] [] → rounds portRound n t = some u →
      u.SoundAt pin [] [] := by
    intro n
    induction n with
    | zero =>
      rintro t u ht ⟨rfl⟩
      exact ht
    | succ n ih =>
      intro t u ht hRounds
      have hRound := portRound_sound ht (E := fun _ => True) (hAdmits _) fun _ _ _ => trivial
      rw [rounds] at hRounds
      cases hStep : t.portRound with
      | error e => rw [hStep] at hRounds; cases hRounds
      | ok next =>
        rw [hStep] at hRounds hRound
        cases next with
        | none => cases hRounds
        | some t' => exact ih t' u (hRound t' rfl) hRounds
  have hBad : ∀ u : Port, u.SoundAt pin [] [] → (u.TakesUp ∧ u.TinyRw ↔
      ∃ e, e ≠ .portLoop ∧ u.portRound = .error e) := by
    intro u hu
    have hTiny := rwStops_iff (s := u) hu.sound.steady.sector
    constructor
    · rintro ⟨hTakes, hIs⟩
      obtain ⟨e, hStop⟩ := hTiny.mpr hIs
      refine ⟨e, ?_, portRound_rwStops hu hTakes hStop⟩
      rw [rwChunk_stops _ _ _ _ e hStop.2.2.2]
      decide
    · rintro ⟨e, -, hError⟩
      have hRound := portRound_sound hu (E := fun _ => u.TakesUp ∧ u.TinyRw) (hAdmits _)
        fun hTakes e hStop => ⟨hTakes, hTiny.mp ⟨e, hStop⟩⟩
      exact hRound.of_error hError
  have hLoop : ∀ fuel, s.ahciHandlePort fuel = whileSome .portLoop portRound fuel s :=
    fun fuel => if_neg hStart
  constructor
  · intro hSafe n u hRounds hTakes hIs
    obtain ⟨e, hNe, hError⟩ := (hBad u (hSound n s u h hRounds)).mp ⟨hTakes, hIs⟩
    obtain ⟨fuel, hStop⟩ := (whileSome_stops_iff hNe).mpr ⟨n, u, hRounds, hError⟩
    exact hNe ((hSafe fuel).of_error ((hLoop fuel).trans hStop))
  · intro hNone fuel
    change Yields _ _ (s.ahciHandlePort fuel)
    cases hEnd : s.ahciHandlePort fuel with
    | ok t => trivial
    | error e =>
      by_contra hNe
      obtain ⟨n, u, hRounds, hError⟩ := (whileSome_stops_iff hNe).mp ⟨fuel, (hLoop fuel).symm.trans hEnd⟩
      obtain ⟨hTakes, hIs⟩ := (hBad u (hSound n s u h hRounds)).mpr ⟨e, hNe, hError⟩
      exact hNone n u hRounds hTakes hIs

end Attached

section Unattached

/-- A port without a disk cannot handle a slot, and goes to the next one if there is no command. -/
theorem portRound_unattached (hNone : s.p.attached = false) (hGoing : s.Going) :
    s.portRound = if s.waiting &&& bit s.p.ccs ≠ 0 then .error .nullSc
      else .ok (some { s with p.ccs := s.p.ccs + 1 }) := by
  have hNot : ¬ s.setCcs.p.attached = true := Bool.eq_false_iff.mp hNone
  unfold portRound
  rw [if_neg hGoing, currentSlot]
  split
  · rw [ahciHandleSlot, assertThat, if_neg hNot]
    rfl
  · rfl

theorem exists_waiting (h : s.waiting ≠ 0) : ∃ slot : Slot, s.waiting &&& bit slot ≠ 0 := by
  by_contra hNone
  refine h (BitVec.eq_of_getLsbD_eq fun i hi => ?_)
  have hBit := not_exists.mp hNone ⟨i, hi⟩
  rw [not_not] at hBit
  have hLsb := congrArg (BitVec.getLsbD · i) hBit
  have hSelf : (bit ((⟨i, hi⟩ : Slot) : Nat)).getLsbD i = true := by
    have hDecide := getLsbD_bit ⟨i, hi⟩ ⟨i, hi⟩
    rwa [decide_eq_true rfl] at hDecide
  simpa [BitVec.getLsbD_and, hSelf] using hLsb

/-- The search of a port without a disk comes to the slot that is `n` ahead, or to one before. -/
theorem ahciHandlePort_search (n : Nat) {slot : Slot} (hNone : s.p.attached = false)
    (hGoing : s.Going) (hWaiting : s.waiting &&& bit slot ≠ 0)
    (hAhead : slot = s.p.ccs + Fin.ofNat 32 n) :
    ∃ fuel, whileSome .portLoop portRound fuel s = .error .nullSc := by
  induction n generalizing s with
  | zero =>
    obtain rfl : slot = s.p.ccs := by simpa using hAhead
    refine ⟨1, ?_⟩
    rw [whileSome, portRound_unattached hNone hGoing, if_pos hWaiting, error_bind]
  | succ n ih =>
    by_cases hHere : s.waiting &&& bit s.p.ccs ≠ 0
    · refine ⟨1, ?_⟩
      rw [whileSome, portRound_unattached hNone hGoing, if_pos hHere, error_bind]
    · have hNext : slot = s.p.ccs + 1 + Fin.ofNat 32 n := by
        rw [hAhead]
        apply Fin.ext
        simp only [Fin.val_add, Fin.ofNat, Fin.val_one]
        omega
      obtain ⟨fuel, hStop⟩ := ih (s := { s with p.ccs := s.p.ccs + 1 }) hNone hGoing hWaiting hNext
      refine ⟨fuel + 1, ?_⟩
      rw [whileSome, portRound_unattached hNone hGoing, if_neg hHere, ok_bind]
      exact hStop

theorem ahciHandlePort_unattached_iff (hNone : s.p.attached = false)
    (hStart : s.p.cmd &&& AHCI_P_CMD_ST ≠ 0) : Safe (s.ahciHandlePort ·) ↔ ¬ s.Going := by
  have hLoop : ∀ fuel, s.ahciHandlePort fuel = whileSome .portLoop portRound fuel s :=
    fun fuel => if_neg hStart
  constructor
  · intro hSafe hGoing
    have hWaiting : s.waiting ≠ 0 := fun hZero => hGoing (.inl hZero)
    obtain ⟨slot, hSlot⟩ := exists_waiting hWaiting
    have hAhead : slot = s.p.ccs + Fin.ofNat 32 (slot - s.p.ccs).val := by
      rw [Fin.ofNat_val_eq_self, add_sub_cancel]
    obtain ⟨fuel, hStop⟩ := ahciHandlePort_search _ hNone hGoing hSlot hAhead
    exact absurd ((hSafe fuel).of_error ((hLoop fuel).trans hStop)) (by decide)
  · intro hIdle fuel
    change Yields _ _ (s.ahciHandlePort fuel)
    rw [hLoop]
    cases fuel with
    | zero => rfl
    | succ fuel =>
      have hRound : s.portRound = .ok none := if_pos (not_not.mp hIdle)
      rw [whileSome, hRound, ok_bind]
      trivial

end Unattached

section Registers

/-- A port that is not started looks for no commands. -/
theorem ahciHandlePort_idle (hIdle : s.p.cmd &&& AHCI_P_CMD_ST = 0) : Safe (s.ahciHandlePort ·) := by
  intro fuel
  have hSame : s.ahciHandlePort fuel = .ok s := if_pos hIdle
  change Yields _ _ (s.ahciHandlePort fuel)
  rw [hSame]
  trivial

theorem handlePort_safe_iff (hSound : s.p.attached = true → s.SoundAt pin [] []) (hPin : 0 < pin)
    (hStart : s.p.cmd &&& AHCI_P_CMD_ST ≠ 0) : Safe (s.ahciHandlePort ·) ↔
      (s.p.attached = false → ¬ s.Going) ∧ (s.p.attached = true →
        ∀ n u, rounds portRound n s = some u → u.TakesUp → ¬ u.TinyRw) := by
  cases hAttached : s.p.attached with
  | true => simpa using ahciHandlePort_safe_iff (hSound hAttached) hPin hStart
  | false => simpa using ahciHandlePort_unattached_iff hAttached hStart

theorem ahciPortIntr_unattached (hNone : s.p.attached = false) : s.ahciPortIntr = .error .nullSc := by
  unfold ahciPortIntr
  rw [assertThat, if_neg (Bool.eq_false_iff.mp hNone)]
  rfl

theorem cmdWrite_started (fuel : Nat) {value : BitVec 32} (hStart : value &&& AHCI_P_CMD_ST ≠ 0) :
    s.cmdWrite fuel value = (s.started value).ahciHandlePort fuel := by
  unfold cmdWrite
  dsimp only
  rw [if_neg hStart]
  rfl

theorem cmdWrite_stopped (fuel : Nat) {value : BitVec 32} (hStop : value &&& AHCI_P_CMD_ST = 0) :
    s.cmdWrite fuel value = ((s.commanded value).ahciPortStop >>= fun t =>
      (t.cmdBits value).ahciHandlePort fuel) := by
  unfold cmdWrite
  dsimp only
  rw [if_pos hStop]
  rfl

theorem cmdBits_st (s : Port) (value : BitVec 32) :
    (s.cmdBits value).p.cmd.getLsbD 0 = s.p.cmd.getLsbD 0 := by
  have hFr : AHCI_P_CMD_FR.getLsbD 0 = false := by decide
  have hOff : ∀ cmd : BitVec 32, (cmd &&& ~~~AHCI_P_CMD_FR).getLsbD 0 = cmd.getLsbD 0 :=
    fun cmd => bit_and (by decide)
  have hClo : ∀ cmd : BitVec 32, (cmd &&& ~~~AHCI_P_CMD_CLO).getLsbD 0 = cmd.getLsbD 0 :=
    fun cmd => bit_and (by decide)
  have hIcc : ∀ cmd : BitVec 32, (cmd &&& ~~~AHCI_P_CMD_ICC_MASK).getLsbD 0 = cmd.getLsbD 0 :=
    fun cmd => bit_and (by decide)
  unfold cmdBits
  dsimp only
  split <;> split <;> split <;>
    simp only [hOff, hClo, hIcc, BitVec.getLsbD_or, hFr, Bool.or_false]

theorem commanded_st (s : Port) (value : BitVec 32) :
    (s.commanded value).p.cmd.getLsbD 0 = value.getLsbD 0 := by
  have hWritable : cmdWritable.getLsbD 0 = true := by decide
  rw [commanded, BitVec.getLsbD_or, BitVec.getLsbD_and, BitVec.getLsbD_and, BitVec.getLsbD_not, hWritable]
  simp

theorem started_st {value : BitVec 32} (hStart : value &&& AHCI_P_CMD_ST ≠ 0) :
    (s.started value).p.cmd &&& AHCI_P_CMD_ST ≠ 0 := by
  rw [ne_eq, st_iff, Bool.not_eq_false] at hStart ⊢
  have hCr : AHCI_P_CMD_CR.getLsbD 0 = false := by decide
  rw [started, cmdBits_st, BitVec.getLsbD_or, commanded_st, hCr, Bool.or_false]
  exact hStart

theorem started_keeps (s : Port) (value : BitVec 32) : Keeps s (s.started value) := by
  refine Keeps.trans ?_ (cmdBits_keeps _ value)
  exact ⟨⟨rfl, rfl, rfl, rfl, rfl, rfl, rfl, rfl⟩, rfl⟩

/-- A port that has been stopped looks for no commands. -/
theorem stopped_idle {value : BitVec 32} (hStop : value &&& AHCI_P_CMD_ST = 0)
    (hList : SameList (s.commanded value) t) (fuel : Nat) :
    (t.cmdBits value).ahciHandlePort fuel = .ok (t.cmdBits value) := by
  have hSt : (t.cmdBits value).p.cmd &&& AHCI_P_CMD_ST = 0 := by
    rw [st_iff, cmdBits_st, hList.st, commanded_st, ← st_iff]
    exact hStop
  exact if_pos hSt

theorem cmdWrite_stopped_safe (h : s.SoundAt pin [] []) {value : BitVec 32}
    (hStop : value &&& AHCI_P_CMD_ST = 0) : Safe (s.cmdWrite · value) := by
  intro fuel
  have hSound : (s.commanded value).SoundAt pin [] [] :=
    h.keeps ⟨⟨rfl, rfl, rfl, rfl, rfl, rfl, rfl, rfl⟩, rfl⟩
  have hList := sameList_stepwise.kept.portStop (s.commanded value) ⟨rfl, rfl, rfl, rfl⟩
  change Yields (· = Fault.portLoop) _ (s.cmdWrite fuel value)
  rw [cmdWrite_stopped fuel hStop]
  cases hStopped : (s.commanded value).ahciPortStop with
  | error e => exact ((ahciPortStop_sound (E := fun _ => False) hSound).of_error hStopped).elim
  | ok t =>
    rw [ok_bind, stopped_idle hStop (hList.of_ok hStopped)]
    trivial

theorem pciAhciPortWrite_quiet {reg : Nat} (hCmd : reg ≠ 0x18) (hCi : reg ≠ 0x38)
    (hDisk : s.p.attached = false → reg ≠ 0x10 ∧ reg ≠ 0x14) (hE : Admits s.pin E) (fuel : Nat)
    (value : BitVec 32) : Yields E (fun t => Keeps s t) (s.pciAhciPortWrite fuel reg value) := by
  have hIntr : ∀ t : Port, Keeps s t → s.p.attached = true → Yields E (fun t => Keeps s t) t.ahciPortIntr := by
    intro t ht hAttached
    have hIs := ahciPortIntr_keeps (E := E) (ht.pool.attached.trans hAttached) (by rw [ht.pin]; exact hE)
    refine hIs.imp fun u _ hu => ⟨?_, hu.2.trans ht.pin⟩
    rw [hu.1]
    exact ht.pool
  have hSame : ∀ p : AhciPort, SamePool s.p p → Keeps s { s with p := p } := fun p hp => ⟨hp, rfl⟩
  unfold pciAhciPortWrite
  split
  all_goals first
    | contradiction
    | exact hSame _ ⟨rfl, rfl, rfl, rfl, rfl, rfl, rfl, rfl⟩
    | exact Keeps.refl s
    | skip
  · refine hIntr _ (hSame _ ⟨rfl, rfl, rfl, rfl, rfl, rfl, rfl, rfl⟩) ?_
    by_contra hNone
    exact (hDisk (Bool.eq_false_iff.mpr hNone)).1 rfl
  · refine hIntr _ (hSame _ ⟨rfl, rfl, rfl, rfl, rfl, rfl, rfl, rfl⟩) ?_
    by_contra hNone
    exact (hDisk (Bool.eq_false_iff.mpr hNone)).2 rfl
  · have hSctl : Keeps s { s with p.sctl := value } := hSame _ ⟨rfl, rfl, rfl, rfl, rfl, rfl, rfl, rfl⟩
    have hReset := ahciPortReset_keeps (s := { s with p.sctl := value }) (E := E) hE
    refine Yields.ite (hReset.imp fun t _ ht => hSctl.trans ht) ?_
    exact hSctl

theorem accepts_looking_iff {reg : Nat} {value : BitVec 32}
    (hLooking : s.looking reg value = some t)
    (hDisk : reg ≠ 0x10 ∧ reg ≠ 0x14 ∧ (reg = 0x18 → value &&& AHCI_P_CMD_ST ≠ 0)) :
    s.Accepts reg value ↔ (s.p.attached = false → ¬ t.Going) ∧ (s.p.attached = true →
      ∀ n u, rounds portRound n t = some u → u.TakesUp → ¬ u.TinyRw) := by
  constructor
  · intro h
    exact ⟨fun hNone => h.idle hNone t hLooking, fun hAttached => h.whole hAttached t hLooking⟩
  · rintro ⟨hIdle, hWhole⟩
    refine ⟨fun _ => hDisk, fun hNone u hu => ?_, fun hAttached u hu => ?_⟩
    · rw [← Option.some.inj (hLooking.symm.trans hu)]
      exact hIdle hNone
    · rw [← Option.some.inj (hLooking.symm.trans hu)]
      exact hWhole hAttached

theorem accepts_iff_of_none {reg : Nat} {value : BitVec 32} (hLooking : s.looking reg value = none) :
    s.Accepts reg value ↔ (s.p.attached = false →
      reg ≠ 0x10 ∧ reg ≠ 0x14 ∧ (reg = 0x18 → value &&& AHCI_P_CMD_ST ≠ 0)) := by
  constructor
  · exact fun h => h.disk
  · intro hDisk
    exact ⟨hDisk, fun _ t ht => absurd (hLooking.symm.trans ht) (by simp),
      fun _ t ht => absurd (hLooking.symm.trans ht) (by simp)⟩

theorem looking_safe_iff {reg : Nat} {value : BitVec 32} (hLooking : s.looking reg value = some t)
    (hDisk : reg ≠ 0x10 ∧ reg ≠ 0x14 ∧ (reg = 0x18 → value &&& AHCI_P_CMD_ST ≠ 0))
    (hSound : s.p.attached = true → s.SoundAt pin [] []) (hPin : 0 < pin) (hSame : Keeps s t)
    (hStart : t.p.cmd &&& AHCI_P_CMD_ST ≠ 0) :
    Safe (t.ahciHandlePort ·) ↔ s.Accepts reg value := by
  have hKept : t.p.attached = true → t.SoundAt pin [] [] := fun hAttached =>
    (hSound (hSame.pool.attached.symm.trans hAttached)).keeps hSame
  rw [handlePort_safe_iff hKept hPin hStart, accepts_looking_iff hLooking hDisk, hSame.pool.attached]

theorem cmdWrite_safe_iff (hSound : s.p.attached = true → s.SoundAt pin [] []) (hPin : 0 < pin)
    (value : BitVec 32) : Safe (s.cmdWrite · value) ↔ s.Accepts 0x18 value := by
  by_cases hStart : value &&& AHCI_P_CMD_ST ≠ 0
  · have hLooking : s.looking 0x18 value = some (s.started value) := if_pos ⟨rfl, hStart⟩
    have hDisk : 0x18 ≠ 0x10 ∧ 0x18 ≠ 0x14 ∧ (0x18 = 0x18 → value &&& AHCI_P_CMD_ST ≠ 0) :=
      ⟨by decide, by decide, fun _ => hStart⟩
    simp only [cmdWrite_started _ hStart]
    exact looking_safe_iff hLooking hDisk hSound hPin (started_keeps s value) (started_st hStart)
  · have hLooking : s.looking 0x18 value = none := by
      rw [looking, if_neg fun h => hStart h.2, if_neg fun h => absurd h.1 (by decide)]
    rw [accepts_iff_of_none hLooking]
    rw [not_not] at hStart
    cases hAttached : s.p.attached with
    | true => exact iff_of_true (cmdWrite_stopped_safe (hSound hAttached) hStart) (by simp)
    | false =>
      refine iff_of_false (fun hSafe => ?_) fun h => (h rfl).2.2 rfl hStart
      have hNot : ¬ (s.commanded value).p.attached = true := Bool.eq_false_iff.mp hAttached
      have hStop : s.cmdWrite 0 value = .error .nullSc := by
        rw [cmdWrite_stopped 0 hStart, ahciPortStop, assertThat, if_neg hNot]
        rfl
      exact absurd ((hSafe 0).of_error hStop) (by decide)

theorem ciWrite_safe_iff (hSound : s.p.attached = true → s.SoundAt pin [] []) (hPin : 0 < pin)
    (value : BitVec 32) :
    Safe (Port.ahciHandlePort { s with p.ci := s.p.ci ||| value } ·) ↔ s.Accepts 0x38 value := by
  by_cases hStart : s.p.cmd &&& AHCI_P_CMD_ST ≠ 0
  · have hLooking : s.looking 0x38 value = some { s with p.ci := s.p.ci ||| value } := by
      rw [looking, if_neg fun h => absurd h.1 (by decide), if_pos ⟨rfl, hStart⟩]
    refine looking_safe_iff hLooking ⟨by decide, by decide, fun h => absurd h (by decide)⟩ hSound hPin ?_ hStart
    exact ⟨⟨rfl, rfl, rfl, rfl, rfl, rfl, rfl, rfl⟩, rfl⟩
  · have hLooking : s.looking 0x38 value = none := by
      rw [looking, if_neg fun h => absurd h.1 (by decide), if_neg fun h => hStart h.2]
    rw [accepts_iff_of_none hLooking]
    refine iff_of_true ?_ fun _ => ⟨by decide, by decide, fun h => absurd h (by decide)⟩
    exact ahciHandlePort_idle (not_not.mp hStart)

/-- A write to a register of a port is safe exactly if the port accepts it. -/
theorem pciAhciPortWrite_safe_iff (hSound : s.p.attached = true → s.SoundAt pin [] [])
    (hAt : s.pin = pin) (hPin : 0 < pin) (reg : Nat) (value : BitVec 32) :
    Safe (s.pciAhciPortWrite · reg value) ↔ s.Accepts reg value := by
  by_cases hCmd : reg = 0x18
  · subst hCmd
    exact cmdWrite_safe_iff hSound hPin value
  by_cases hCi : reg = 0x38
  · subst hCi
    exact ciWrite_safe_iff hSound hPin value
  have hLooking : s.looking reg value = none := by
    rw [looking, if_neg fun h => hCmd h.1, if_neg fun h => hCi h.1]
  rw [accepts_iff_of_none hLooking]
  by_cases hDisk : s.p.attached = false → reg ≠ 0x10 ∧ reg ≠ 0x14
  · refine iff_of_true (fun fuel => ?_) fun hNone =>
      ⟨(hDisk hNone).1, (hDisk hNone).2, fun h => absurd h hCmd⟩
    have hAdmits : Admits s.pin (· = .portLoop) :=
      ⟨fun hZero => absurd (hAt.symm.trans hZero) (Nat.ne_of_gt hPin)⟩
    exact (pciAhciPortWrite_quiet hCmd hCi hDisk hAdmits fuel value).imp fun _ _ _ => trivial
  · obtain ⟨hNone, hReg⟩ := Classical.not_imp.mp hDisk
    refine iff_of_false (fun hSafe => ?_) fun h => hReg ⟨(h hNone).1, (h hNone).2.1⟩
    have hStop : s.pciAhciPortWrite 0 reg value = .error .nullSc := by
      obtain rfl | rfl : reg = 0x10 ∨ reg = 0x14 := by omega
      · exact ahciPortIntr_unattached hNone
      · exact ahciPortIntr_unattached hNone
    exact absurd ((hSafe 0).of_error hStop) (by decide)

end Registers

section Kept

def Listed (s : Port) : Prop := s.p.cmd.getLsbD 0 = true → ∃ clb, s.p.cmdLst = paddrGuest2host clb

theorem Listed.same (h : s.Listed) (hSame : SameList s t) : t.Listed := by
  intro hSt
  rw [hSame.cmdLst]
  exact h (hSame.st.symm.trans hSt)

theorem started_listed (s : Port) (value : BitVec 32) : (s.started value).Listed := by
  intro _
  refine ⟨s.p.clbu ++ s.p.clb, ?_⟩
  unfold started cmdBits
  dsimp only
  split <;> split <;> split <;> rfl

theorem cmdBits_locks (s : Port) (value : BitVec 32) : SameLocks s (s.cmdBits value) := by
  unfold cmdBits
  dsimp only
  split <;> split <;> split <;> exact ⟨rfl, rfl, rfl, rfl, fun _ => rfl⟩

theorem assertOwned_eq {m : PthreadMutex} (hOwned : m.lock = true) : m.assertOwned = m := by
  cases m with
  | mk lock failed =>
    obtain rfl : lock = true := hOwned
    simp [PthreadMutex.assertOwned]

theorem cmdWrite_locks (hOwned : s.sc.mtx.lock = true) (fuel : Nat) (value : BitVec 32) :
    Yields (fun _ => True) (SameLocks s) (s.cmdWrite fuel value) := by
  have hKept := sameLocks_stepwise.kept
  by_cases hStart : value &&& AHCI_P_CMD_ST ≠ 0
  · rw [cmdWrite_started fuel hStart]
    refine Yields.imp (hKept.handlePort (s.started value) fuel) fun t _ ht => SameLocks.trans ?_ ht
    refine SameLocks.trans ?_ (cmdBits_locks _ value)
    exact ⟨rfl, rfl, rfl, rfl, fun _ => rfl⟩
  · rw [cmdWrite_stopped fuel (not_not.mp hStart)]
    have hStop := hKept.portStop (s.commanded value) ⟨rfl, rfl, rfl, assertOwned_eq hOwned, fun _ => rfl⟩
    have hFirst : SameLocks s (s.commanded value) := ⟨rfl, rfl, rfl, rfl, fun _ => rfl⟩
    refine hStop.bind fun t _ ht => ?_
    refine Yields.imp (hKept.handlePort (t.cmdBits value) fuel) fun u _ hu => ?_
    exact (hFirst.trans ht).trans ((cmdBits_locks t value).trans hu)

theorem pciAhciPortWrite_locks (hOwned : s.sc.mtx.lock = true) (fuel reg : Nat)
    (value : BitVec 32) : Yields (fun _ => True) (SameLocks s) (s.pciAhciPortWrite fuel reg value) := by
  by_cases hCmd : reg = 0x18
  · subst hCmd
    exact cmdWrite_locks hOwned fuel value
  by_cases hIs : reg = 0x10
  · subst hIs
    refine Yields.imp (ahciPortIntr_window _) fun t _ ht => SameLocks.trans ?_ ht.locks
    exact ⟨rfl, rfl, rfl, rfl, fun _ => rfl⟩
  by_cases hIe : reg = 0x14
  · subst hIe
    refine Yields.imp (ahciPortIntr_window _) fun t _ ht => SameLocks.trans ?_ ht.locks
    exact ⟨rfl, rfl, rfl, rfl, fun _ => rfl⟩
  · exact sameLocks_stepwise.kept.portWrite s fuel hCmd hIs hIe value

theorem pciAhciPortWrite_listed (h : s.Listed) (fuel reg : Nat) (value : BitVec 32) :
    Yields (fun _ => True) Listed (s.pciAhciPortWrite fuel reg value) := by
  have hKept := sameList_stepwise.kept
  by_cases hCmd : reg = 0x18
  · subst hCmd
    change Yields _ _ (s.cmdWrite fuel value)
    by_cases hStart : value &&& AHCI_P_CMD_ST ≠ 0
    · rw [cmdWrite_started fuel hStart]
      exact (hKept.handlePort _ fuel).imp fun t _ ht => (started_listed s value).same ht
    · have hStop := hKept.portStop (s.commanded value) ⟨rfl, rfl, rfl, rfl⟩
      rw [cmdWrite_stopped fuel (not_not.mp hStart)]
      refine hStop.bind fun t _ ht => ?_
      rw [stopped_idle (not_not.mp hStart) ht]
      intro hSt
      rw [cmdBits_st, ht.st, commanded_st, st_iff.mp (not_not.mp hStart)] at hSt
      exact absurd hSt Bool.false_ne_true
  by_cases hIs : reg = 0x10
  · subst hIs
    exact (ahciPortIntr_window _).imp fun t _ ht => h.same ⟨ht.attached, ht.ports, ht.st, ht.cmdLst⟩
  by_cases hIe : reg = 0x14
  · subst hIe
    exact (ahciPortIntr_window _).imp fun t _ ht => h.same ⟨ht.attached, ht.ports, ht.st, ht.cmdLst⟩
  · exact (hKept.portWrite s fuel hCmd hIs hIe value).imp fun t _ ht => h.same ht

theorem hbaReset_locks (s : Port) : Yields (fun _ => True) (SameLocks s) s.hbaReset := by
  refine Yields.imp (sameLocks_stepwise.kept.portReset _) fun t _ ht => SameLocks.trans ?_ ht
  exact ⟨rfl, rfl, rfl, rfl, fun _ => rfl⟩

theorem hbaReset_listed (s : Port) : Yields (fun _ => True) Listed s.hbaReset := by
  have hOff : ∀ attached : Bool, (AHCI_P_CMD_SUD ||| AHCI_P_CMD_POD |||
      (if attached = true then AHCI_P_CMD_CPS else 0)).getLsbD 0 = false := by decide
  refine Yields.imp (sameList_stepwise.kept.portReset _) fun t _ ht hSt => ?_
  exact absurd ((hOff s.p.attached).symm.trans (ht.st.symm.trans hSt)) Bool.false_ne_true

/-- `blockif_thr` gives back the locks that it takes, and keeps to the command list. -/
theorem blockifThr_free (hFree : s.sc.mtx.lock = false) (fuel : Nat) :
    Yields (fun _ => True)
      (fun t => (t.sc.mtx.lock = false ∧ t.p.bctx.bcMtx.lock = false) ∧ SameList s t)
      ((client fuel).blockifThr fuel s) := by
  have hList := sameList_stepwise.kept.blockifThr s fuel (fun _ _ => ⟨rfl, rfl, rfl, rfl⟩)
    fun _ _ => ⟨rfl, rfl, rfl, rfl⟩
  refine Yields.and ?_ hList
  have hRound : ∀ t : Port, t.sc.mtx.lock = false → Yields (fun _ => True)
      (fun next => ∀ u, next = some u → u.sc.mtx.lock = false) ((client fuel).thrRound t) := by
    intro t _
    refine (yields_true _).bind fun next _ _ => ?_
    cases next with
    | none => rintro u ⟨⟩
    | some next =>
      refine (yields_true _).bind fun r _ _ => ?_
      refine Yields.bind (P := fun u : Port => u.sc.mtx.lock = false) ?_ fun u _ hu => ?_
      · exact (yields_true _).bind fun _ _ _ => rfl
      · rintro v ⟨⟩
        exact hu
  refine Yields.bind (P := fun t : Port => t.sc.mtx.lock = false) ?_ fun t _ ht => ⟨ht, rfl⟩
  refine (whileSome_yields trivial hRound fuel ?_).imp fun t _ ht => ht.1
  exact hFree

end Kept

end Write

end Port

namespace Ahci

structure SameLocks (s t : Ahci) : Prop where
  attached : ∀ k, (t.port k).attached = (s.port k).attached
  ports : t.sc.ports = s.sc.ports
  pin : t.sc.ascPi.lintrPin = s.sc.ascPi.lintrPin
  mtx : t.sc.mtx = s.sc.mtx
  bcMtx : ∀ k, (s.port k).bctx.bcMtx.lock = false → (t.port k).bctx.bcMtx = (s.port k).bctx.bcMtx

structure Ready (s : Ahci) : Prop where
  pooled : s.Pooled
  mtx : s.sc.mtx.lock = false
  bcMtx : ∀ k, (s.port k).bctx.bcMtx.lock = false
  listed : ∀ k, (s.portAt k).Listed
  covered : ∀ k, (s.port k).attached = true → (k : Nat) < s.sc.ports

variable {s t : Ahci} {k : PortId} {f : Port → Except Fault Port}

theorem SameLocks.trans {u : Ahci} (h : SameLocks s t) (h' : SameLocks t u) : SameLocks s u := by
  refine ⟨fun k => (h'.attached k).trans (h.attached k), h'.ports.trans h.ports,
    h'.pin.trans h.pin, h'.mtx.trans h.mtx, fun k hFree => ?_⟩
  have hSame := h.bcMtx k hFree
  exact (h'.bcMtx k (by rw [hSame]; exact hFree)).trans hSame

theorem onPort_locks (hf : Yields (fun _ => True) (Port.SameLocks (s.portAt k)) (f (s.portAt k))) :
    Yields (fun _ => True) (fun t => SameLocks s t ∧ ∀ j ≠ k, t.port j = s.port j) (s.onPort k f) := by
  refine hf.bind fun t _ ht => ⟨⟨fun j => ?_, ht.ports, ht.pin, ht.mtx, fun j hFree => ?_⟩, fun j hNe => ?_⟩
  · dsimp only
    by_cases hEq : j = k
    · subst hEq
      rw [Function.update_self]
      exact ht.attached
    · rw [Function.update_of_ne hEq]
  · dsimp only
    by_cases hEq : j = k
    · subst hEq
      rw [Function.update_self]
      exact ht.bcMtx hFree
    · rw [Function.update_of_ne hEq]
  · exact Function.update_of_ne hNe _ _

theorem onPort_listed (h : ∀ j, (s.portAt j).Listed)
    (hf : Yields (fun _ => True) Port.Listed (f (s.portAt k))) :
    Yields (fun _ => True) (fun t => ∀ j, (t.portAt j).Listed) (s.onPort k f) := by
  refine hf.bind fun t _ ht j => ?_
  by_cases hEq : j = k
  · subst hEq
    simpa [portAt, Port.Listed] using ht
  · simpa [portAt, Port.Listed, Function.update_of_ne hEq] using h j

section Host

theorem SameLocks.refl (s : Ahci) : SameLocks s s := ⟨fun _ => rfl, rfl, rfl, rfl, fun _ _ => rfl⟩

theorem resetPorts_locks (ks : List PortId) (s : Ahci) :
    Yields (fun _ => True) (SameLocks s) (resetPorts ks s) := by
  induction ks generalizing s with
  | nil => exact SameLocks.refl s
  | cons k ks ih =>
    refine (onPort_locks (Port.hbaReset_locks _)).bind fun t _ ht => ?_
    exact (ih t).imp fun u _ hu => ht.1.trans hu

theorem resetPorts_listed (ks : List PortId) (h : ∀ j, (s.portAt j).Listed) :
    Yields (fun _ => True) (fun t => ∀ j, (t.portAt j).Listed) (resetPorts ks s) := by
  induction ks generalizing s with
  | nil => exact h
  | cons k ks ih => exact (onPort_listed h (Port.hbaReset_listed _)).bind fun t _ ht => ih ht

theorem resetPorts_safe {E : Fault → Prop} (ks : List PortId) (hE : Admits s.sc.ascPi.lintrPin E) :
    Yields E (fun _ => True) (resetPorts ks s) := by
  induction ks generalizing s with
  | nil => trivial
  | cons k ks ih =>
    have hReset : Yields E (Port.Keeps (s.portAt k)) (s.portAt k).hbaReset := Port.hbaReset_keeps hE
    have hPort : Yields E (fun t => t.sc.ascPi.lintrPin = s.sc.ascPi.lintrPin) (s.onPort k Port.hbaReset) :=
      hReset.bind fun t _ ht => ht.pin
    exact hPort.bind fun t _ ht => ih (by rw [ht]; exact hE)

/-- The legacy interrupt goes, and only its pin matters to that. -/
theorem pciAhciHostWrite_safe {E : Fault → Prop} (hE : Admits s.sc.ascPi.lintrPin E) (offset : Nat)
    (value : BitVec 32) : Yields E (fun _ => True) (s.pciAhciHostWrite offset value) := by
  have hIntr : ∀ t : Ahci, t.sc.ascPi = s.sc.ascPi → Yields E (fun _ => True) t.ahciGenerateIntr := by
    intro t hPi
    have hE' : t.sc.ascPi.lintrPin = 0 → E .lintrPin := by rw [hPi]; exact hE.lintrPin
    refine Yields.ite (Yields.ite ?_ trivial) (Yields.ite (Yields.ite trivial ?_) trivial)
    · exact (Port.pciLintrDeassert_pin _ hE').bind fun _ _ _ => trivial
    · exact (Port.pciLintrAssert_pin _ hE').bind fun _ _ _ => trivial
  unfold pciAhciHostWrite
  split
  · refine Yields.ite ?_ (hIntr _ rfl)
    refine Yields.bind (P := fun t : Ahci => t.sc.ascPi.lintrPin = s.sc.ascPi.lintrPin) (Yields.ite ?_ rfl)
      fun t _ ht => resetPorts_safe _ (by rw [ht]; exact hE)
    exact (Port.pciLintrDeassert_pin _ hE.lintrPin).bind fun _ _ hPi => hPi
  · exact hIntr _ rfl
  · trivial

theorem ahciReset_locks (s : Ahci) : Yields (fun _ => True) (SameLocks s) s.ahciReset := by
  refine Yields.bind (P := SameLocks s) (Yields.ite ?_ ⟨fun _ => rfl, rfl, rfl, rfl, fun _ _ => rfl⟩) fun t _ ht =>
    (resetPorts_locks _ t).imp fun u _ hu => ht.trans hu
  exact (Port.pciLintrDeassert_pin _ fun _ => trivial).bind fun _ _ hPi => ⟨fun _ => rfl, rfl, hPi, rfl, fun _ _ => rfl⟩

theorem ahciReset_listed (h : ∀ j, (s.portAt j).Listed) :
    Yields (fun _ => True) (fun t => ∀ j, (t.portAt j).Listed) s.ahciReset := by
  refine Yields.bind (P := fun t : Ahci => ∀ j, (t.portAt j).Listed) (Yields.ite ?_ h) fun t _ ht =>
    resetPorts_listed _ ht
  exact (yields_true _).bind fun _ _ _ => h

theorem pciAhciHostWrite_locks (s : Ahci) (offset : Nat) (value : BitVec 32) :
    Yields (fun _ => True) (fun t => SameLocks s t) (s.pciAhciHostWrite offset value) := by
  have hIntr : ∀ t : Ahci, SameLocks s t → Yields (fun _ => True) (fun t => SameLocks s t) t.ahciGenerateIntr := by
    intro t ht
    have hSame : ∀ sc : Softc, sc.ports = t.sc.ports → sc.ascPi.lintrPin = t.sc.ascPi.lintrPin →
        sc.mtx = t.sc.mtx → SameLocks s { t with sc := sc } := fun sc hPorts hPin hMtx =>
      ht.trans ⟨fun _ => rfl, hPorts, hPin, hMtx, fun _ _ => rfl⟩
    refine Yields.ite (Yields.ite ?_ (hSame _ rfl rfl rfl)) (Yields.ite (Yields.ite (hSame _ rfl rfl rfl) ?_)
      (hSame _ rfl rfl rfl))
    · exact (Port.pciLintrDeassert_pin _ fun _ => trivial).bind fun _ _ hPi => hSame _ rfl hPi rfl
    · exact (Port.pciLintrAssert_pin _ fun _ => trivial).bind fun _ _ hPi => hSame _ rfl hPi rfl
  unfold pciAhciHostWrite
  split
  · exact Yields.ite (ahciReset_locks s) (hIntr _ ⟨fun _ => rfl, rfl, rfl, rfl, fun _ _ => rfl⟩)
  · exact hIntr _ ⟨fun _ => rfl, rfl, rfl, rfl, fun _ _ => rfl⟩
  · exact SameLocks.refl s

theorem pciAhciHostWrite_listed (h : ∀ j, (s.portAt j).Listed) (offset : Nat) (value : BitVec 32) :
    Yields (fun _ => True) (fun t => ∀ j, (t.portAt j).Listed) (s.pciAhciHostWrite offset value) := by
  have hIntr : ∀ t : Ahci, (∀ j, (t.portAt j).Listed) →
      Yields (fun _ => True) (fun t => ∀ j, (t.portAt j).Listed) t.ahciGenerateIntr := by
    intro t ht
    refine Yields.ite (Yields.ite ?_ ht) (Yields.ite (Yields.ite ht ?_) ht)
    · exact (yields_true _).bind fun _ _ _ => ht
    · exact (yields_true _).bind fun _ _ _ => ht
  unfold pciAhciHostWrite
  split
  · exact Yields.ite (ahciReset_listed h) (hIntr _ h)
  · exact hIntr _ h
  · exact h

end Host

section Write

/-- Where a write goes with the mutex of the controller held. -/
def locked (s : Ahci) (fuel offset : Nat) (value : BitVec 32) : Except Fault Ahci :=
  if offset < AHCI_OFFSET then s.lock.pciAhciHostWrite offset value
  else if offset < AHCI_OFFSET + s.sc.ports * AHCI_STEP then
    s.lock.onPort (windowPort offset) fun t => t.pciAhciPortWrite fuel (windowReg offset) value
  else .ok s.lock

theorem pciAhciWrite_eq (fuel offset : Nat) (value : BitVec 64) :
    s.pciAhciWrite fuel 5 offset value = (assertThat (offset % 4 = 0) .ahciAccess >>= fun _ =>
      (s.locked fuel offset (value.setWidth 32)).map Ahci.unlock) := by
  unfold pciAhciWrite
  by_cases hAligned : offset % 4 = 0
  · rw [assertThat_of _ hAligned, assertThat_of _ ⟨rfl, hAligned⟩]
    unfold locked windowPort windowReg lock
    dsimp only [ok_bind]
    generalize (if offset < AHCI_OFFSET then _ else _ : Except Fault Ahci) = x
    cases x <;> rfl
  · rw [assertThat, assertThat, if_neg hAligned, if_neg fun h => hAligned h.2]
    rfl

theorem locked_effect (h : s.Ready) (fuel offset : Nat) (value : BitVec 32) :
    Yields (fun _ => True) (fun t => SameLocks s.lock t ∧ (∀ j, (t.portAt j).Listed) ∧
      (AHCI_OFFSET ≤ offset → ∀ j ≠ windowPort offset, t.port j = s.port j))
      (s.locked fuel offset value) := by
  have hListed : ∀ j, (s.lock.portAt j).Listed := h.listed
  unfold locked
  split
  · next hHost =>
    have hBoth := (pciAhciHostWrite_locks s.lock offset value).and (pciAhciHostWrite_listed hListed offset value)
    exact hBoth.imp fun t _ ht => ⟨ht.1, ht.2, fun hPort => absurd hHost (Nat.not_lt.mpr hPort)⟩
  split
  · generalize windowReg offset = reg
    generalize windowPort offset = k
    have hOwned : (s.lock.portAt k).sc.mtx.lock = true := rfl
    have hLocks := onPort_locks (f := fun t => t.pciAhciPortWrite fuel reg value)
      (Port.pciAhciPortWrite_locks hOwned fuel reg value)
    have hList := onPort_listed (f := fun t => t.pciAhciPortWrite fuel reg value) hListed
      (Port.pciAhciPortWrite_listed (hListed k) fuel reg value)
    exact (hLocks.and hList).imp fun t _ ht => ⟨ht.1.1, ht.2, fun _ => ht.1.2⟩
  · exact ⟨SameLocks.refl _, hListed, fun _ _ _ => rfl⟩

theorem pciAhciWrite_effect (h : s.Ready) (fuel offset : Nat) (value : BitVec 64) :
    Yields (fun _ => True) (fun t => t.Ready ∧ SameLocks s t ∧
      (AHCI_OFFSET ≤ offset → ∀ j ≠ windowPort offset, t.port j = s.port j))
      (s.pciAhciWrite fuel 5 offset value) := by
  refine ((pciAhciWrite_pooled h.pooled fuel 5 offset value).weaken.and (Q := fun t => (∀ j, (t.portAt j).Listed) ∧
    SameLocks s t ∧ (AHCI_OFFSET ≤ offset → ∀ j ≠ windowPort offset, t.port j = s.port j)) ?_).imp
      fun t _ ht => ⟨⟨ht.1, ?_, fun k => ?_, ht.2.1, fun k => ?_⟩, ht.2.2⟩
  · rw [pciAhciWrite_eq]
    refine (assertThat_yields fun _ => trivial).bind fun _ _ _ => Yields.map ?_
    refine (locked_effect h fuel offset _).imp fun t _ ht => ⟨ht.2.1, ⟨ht.1.attached, ht.1.ports, ht.1.pin, ?_, ht.1.bcMtx⟩, ht.2.2⟩
    change t.sc.mtx.pthreadMutexUnlock = s.sc.mtx
    rw [ht.1.mtx]
    exact Port.unlock_lock h.mtx
  · rw [ht.2.2.1.mtx]
    exact h.mtx
  · rw [ht.2.2.1.bcMtx k (h.bcMtx k)]
    exact h.bcMtx k
  · rw [ht.2.2.1.attached, ht.2.2.1.ports]
    exact h.covered k

/-- A write that the controller takes: a multiple of four, and not to what a port does not accept. -/
structure AcceptsWrite (s : Ahci) (offset : Nat) (value : BitVec 32) : Prop where
  aligned : offset % 4 = 0
  port : AHCI_OFFSET ≤ offset → offset < AHCI_OFFSET + s.sc.ports * AHCI_STEP →
    (s.lock.portAt (windowPort offset)).Accepts (windowReg offset) value

theorem pciAhciWrite_safe_iff (h : s.Ready) (hPin : 0 < s.sc.ascPi.lintrPin) (offset : Nat)
    (value : BitVec 64) : Port.Safe (s.pciAhciWrite · 5 offset value) ↔
      s.AcceptsWrite offset (value.setWidth 32) := by
  have hMap : Port.Safe (fun fuel => (s.locked fuel offset (value.setWidth 32)).map Ahci.unlock) ↔
      Port.Safe (s.locked · offset (value.setWidth 32)) := by
    refine forall_congr' fun fuel => ?_
    dsimp only
    cases s.locked fuel offset (value.setWidth 32) <;> exact Iff.rfl
  simp only [pciAhciWrite_eq]
  by_cases hAligned : offset % 4 = 0
  swap
  · refine iff_of_false (fun hSafe => ?_) fun hAccepts => hAligned hAccepts.aligned
    have hStop := hSafe 0
    dsimp only at hStop
    rw [assertThat, if_neg hAligned, error_bind, yields_error] at hStop
    exact absurd hStop (by decide)
  simp only [assertThat_of _ hAligned, ok_bind]
  rw [hMap]
  have hAdmits : Admits s.sc.ascPi.lintrPin (· = .portLoop) :=
    ⟨fun hZero => absurd hZero (Nat.ne_of_gt hPin)⟩
  by_cases hHost : offset < AHCI_OFFSET
  · refine iff_of_true (fun fuel => ?_) ⟨hAligned, fun hPort => absurd hHost (Nat.not_lt.mpr hPort)⟩
    dsimp only
    rw [locked, if_pos hHost]
    exact pciAhciHostWrite_safe (s := s.lock) hAdmits _ _
  by_cases hPort : offset < AHCI_OFFSET + s.sc.ports * AHCI_STEP
  · have hSound : (s.lock.portAt (windowPort offset)).p.attached = true →
        (s.lock.portAt (windowPort offset)).SoundAt s.sc.ascPi.lintrPin [] [] := fun hAttached =>
      ⟨h.pooled.disk _ hAttached, rfl⟩
    have hIff := Port.pciAhciPortWrite_safe_iff hSound rfl hPin (windowReg offset) (value.setWidth 32)
    have hWindow : Port.Safe (s.locked · offset (value.setWidth 32)) ↔ Port.Safe
        ((s.lock.portAt (windowPort offset)).pciAhciPortWrite · (windowReg offset) (value.setWidth 32)) := by
      refine forall_congr' fun fuel => ?_
      dsimp only
      rw [locked, if_neg hHost, if_pos hPort]
      change Yields _ _ ((s.lock.portAt (windowPort offset)).pciAhciPortWrite fuel (windowReg offset)
        (value.setWidth 32) >>= _) ↔ _
      cases (s.lock.portAt (windowPort offset)).pciAhciPortWrite fuel (windowReg offset)
        (value.setWidth 32) <;> exact Iff.rfl
    rw [hWindow, hIff]
    exact ⟨fun hAccepts => ⟨hAligned, fun _ _ => hAccepts⟩, fun hAccepts =>
      hAccepts.port (Nat.not_lt.mp hHost) hPort⟩
  · refine iff_of_true (fun fuel => ?_) ⟨hAligned, fun _ hLess => absurd hLess hPort⟩
    dsimp only
    rw [locked, if_neg hHost, if_neg hPort]
    trivial

end Write

section Access

variable {T : PciTree} {m : Machine T Ahci}

/-- No assertion on a mutex has failed, and an access to the window of a port has left the other
ports alone. -/
structure Intact (s t : Ahci) (offset : Nat) : Prop where
  mtx : t.sc.mtx.failed = s.sc.mtx.failed
  bcMtx : ∀ k, (t.port k).bctx.bcMtx.failed = (s.port k).bctx.bcMtx.failed
  others : AHCI_OFFSET ≤ offset → ∀ j ≠ windowPort offset, t.port j = s.port j

/-- An access to the BAR stops at no assertion and no null pointer and leaves the rest intact, and
no port that looks for commands does so in a list that was never set. -/
structure Total (m : Machine T Ahci) (bdf : Bdf) (isWrite : Bool) (offset : BitVec 64) (size : Nat)
    (val : BitVec 64) : Prop where
  returns : ∀ fuel, Yields (· = .portLoop) (fun r => Intact m.dev r.2.dev offset.toNat)
    (barAccess (ahciOps T fuel) m bdf 5 isWrite offset size val)
  listed : ∀ k reg value t, (m.dev.portAt k).looking reg value = some t →
    ∃ clb, t.p.cmdLst = paddrGuest2host clb

theorem Intact.of_locks (h : s.Ready) (hLocks : SameLocks s t) {offset : Nat}
    (hOthers : AHCI_OFFSET ≤ offset → ∀ j ≠ windowPort offset, t.port j = s.port j) :
    Intact s t offset :=
  ⟨by rw [hLocks.mtx], fun k => by rw [hLocks.bcMtx k (h.bcMtx k)], hOthers⟩

theorem Ready.looking_listed (h : s.Ready) {k : PortId} {reg : Nat} {value : BitVec 32} {t : Port}
    (hLooking : (s.portAt k).looking reg value = some t) :
    ∃ clb, t.p.cmdLst = paddrGuest2host clb := by
  unfold Port.looking at hLooking
  split at hLooking
  · next hStart =>
    obtain rfl := Option.some.inj hLooking
    refine Port.started_listed (s.portAt k) value ?_
    have hOn := Port.started_st (s := s.portAt k) hStart.2
    rwa [ne_eq, Port.st_iff, Bool.not_eq_false] at hOn
  · split at hLooking
    · next hStart =>
      obtain rfl := Option.some.inj hLooking
      have hOn := hStart.2
      rw [ne_eq, Port.st_iff, Bool.not_eq_false] at hOn
      exact h.listed k hOn
    · cases hLooking

theorem pciAhciRead_intact (h : s.Ready) {regoff size : Nat} (hSize : size = 1 ∨ size = 2 ∨ size = 4)
    (hAligned : regoff % size = 0) : ∃ value, s.pciAhciRead 5 regoff size = .ok (value, s) := by
  have hSame : s.lock.unlock = s := by
    have hMtx := Port.unlock_lock h.mtx
    obtain ⟨sc, mem, port, blockifSc⟩ := s
    simp only [lock, unlock, hMtx]
  unfold pciAhciRead
  rw [assertThat_of _ ⟨rfl, hSize, hAligned⟩, ok_bind, hSame]
  exact ⟨_, rfl⟩

/-- The register that the upper half of an access of eight bytes goes to. -/
theorem upper_half {offset : Nat} (hAligned : offset % 8 = 0) (hPort : AHCI_OFFSET ≤ offset) :
    windowPort (offset + 4) = windowPort offset ∧ windowReg (offset + 4) = windowReg offset + 4 ∧
      windowReg offset % 8 = 0 := by
  have hIndex : (offset + 4 - AHCI_OFFSET) / AHCI_STEP = (offset - AHCI_OFFSET) / AHCI_STEP := by
    simp only [AHCI_OFFSET, AHCI_STEP] at hPort ⊢
    omega
  refine ⟨by rw [windowPort, windowPort, hIndex], ?_, ?_⟩
  · simp only [windowReg, AHCI_OFFSET, AHCI_STEP] at hPort ⊢
    omega
  · simp only [windowReg, AHCI_OFFSET, AHCI_STEP] at hPort ⊢
    omega

/-- A write to the upper half is taken if the one to the lower half was. -/
theorem acceptsWrite_upper {offset : Nat} {low high : BitVec 32} (hAligned : offset % 8 = 0)
    (hLow : s.AcceptsWrite offset low) (hLocks : SameLocks s t) : t.AcceptsWrite (offset + 4) high := by
  refine ⟨by omega, fun hPort hLess => ?_⟩
  have hPort' : AHCI_OFFSET ≤ offset := by
    simp only [AHCI_OFFSET] at hPort ⊢
    omega
  rw [hLocks.ports] at hLess
  have hAccepts := hLow.port hPort' (by omega)
  obtain ⟨hWindow, hReg, hEven⟩ := upper_half hAligned hPort'
  rw [hWindow, hReg]
  have hLooking : (t.lock.portAt (windowPort offset)).looking (windowReg offset + 4) high = none := by
    rw [Port.looking, if_neg fun h => ?_, if_neg fun h => ?_] <;> omega
  rw [Port.accepts_iff_of_none hLooking]
  intro hNone
  have hDisk := hAccepts.disk ((hLocks.attached _).symm.trans hNone)
  exact ⟨by omega, by omega, fun h => by omega⟩

theorem pciAhciWrite_accepted (h : s.Ready) (hPin : 0 < s.sc.ascPi.lintrPin) {offset : Nat}
    {value : BitVec 64} (hAccepts : s.AcceptsWrite offset (value.setWidth 32)) (fuel : Nat) :
    Yields (· = .portLoop) (fun t => t.Ready ∧ SameLocks s t ∧
      (AHCI_OFFSET ≤ offset → ∀ j ≠ windowPort offset, t.port j = s.port j))
      (s.pciAhciWrite fuel 5 offset value) := by
  have hSafe := (pciAhciWrite_safe_iff h hPin offset value).mpr hAccepts fuel
  have hEffect := pciAhciWrite_effect h fuel offset value
  dsimp only at hSafe
  cases hWrite : s.pciAhciWrite fuel 5 offset value with
  | ok t => exact hEffect.of_ok hWrite
  | error e => exact hSafe.of_error hWrite

theorem peBarwrite_accepted (h : m.dev.Ready) (hPin : 0 < m.dev.sc.ascPi.lintrPin) {bdf : Bdf}
    {offset value : BitVec 64} (size : Nat)
    (hAccepts : m.dev.AcceptsWrite offset.toNat (value.setWidth 32)) (fuel : Nat) :
    Yields (· = .portLoop) (fun m' => m'.dev.Ready ∧ SameLocks m.dev m'.dev ∧
      (AHCI_OFFSET ≤ offset.toNat → ∀ j ≠ windowPort offset.toNat, m'.dev.port j = m.dev.port j))
      ((ahciOps T fuel).peBarwrite bdf m 5 offset size value) :=
  (pciAhciWrite_accepted h hPin hAccepts fuel).bind fun _ _ ht => ht

theorem setWidth_low (val : BitVec 64) :
    (val &&& (0xffffffff : BitVec 64)).setWidth 32 = val.setWidth 32 := by
  have hMask : (0xffffffff : BitVec 64).setWidth 32 = BitVec.allOnes 32 := by decide
  rw [BitVec.setWidth_and, hMask, BitVec.and_allOnes]

/-- An access is total exactly if it is a read or a write that is taken. -/
theorem barAccess_total_iff (h : m.dev.Ready) (hPin : 0 < m.dev.sc.ascPi.lintrPin) (bdf : Bdf)
    (isWrite : Bool) {offset : BitVec 64} {size : Nat} (val : BitVec 64)
    (hSize : size = 1 ∨ size = 2 ∨ size = 4 ∨ size = 8) (hAligned : offset.toNat % size = 0) :
    Total m bdf isWrite offset size val ↔
      (isWrite = true → m.dev.AcceptsWrite offset.toNat (val.setWidth 32)) := by
  have hUpper : size = 8 → (offset + 4).toNat = offset.toNat + 4 := by
    rintro rfl
    have hLess := offset.isLt
    rw [BitVec.toNat_add]
    have hFour : (4 : BitVec 64).toNat = 4 := rfl
    omega
  have hListed := fun k reg value t => @Ahci.Ready.looking_listed _ h k reg value t
  have hSelf : Intact m.dev m.dev offset.toNat := ⟨rfl, fun _ => rfl, fun _ _ _ => rfl⟩
  cases isWrite with
  | false =>
    refine iff_of_true ⟨fun fuel => ?_, hListed⟩ fun hWrite => absurd hWrite Bool.false_ne_true
    rw [barAccess, if_neg Bool.false_ne_true]
    by_cases hEight : size = 8
    · subst hEight
      obtain ⟨low, hLow⟩ := pciAhciRead_intact h (by simp)
        (show offset.toNat % 4 = 0 by omega)
      obtain ⟨high, hHigh⟩ := pciAhciRead_intact h (by simp)
        (show (offset + 4).toNat % 4 = 0 by rw [hUpper rfl]; omega)
      rw [if_pos rfl]
      simp only [ahciOps, hLow, hHigh, ok_bind]
      exact hSelf
    · obtain ⟨value, hRead⟩ := pciAhciRead_intact h (by omega) hAligned
      rw [if_neg hEight]
      simp only [ahciOps, hRead, ok_bind]
      exact hSelf
  | true =>
    simp only [forall_const]
    by_cases hEight : size = 8
    · subst hEight
      constructor
      · intro hTotal
        rw [← setWidth_low, ← pciAhciWrite_safe_iff h hPin]
        intro fuel
        have hReturns := hTotal.returns fuel
        rw [barAccess, if_pos rfl, if_pos rfl] at hReturns
        exact hReturns.first.first
      · intro hAccepts
        refine ⟨fun fuel => ?_, hListed⟩
        rw [barAccess, if_pos rfl, if_pos rfl]
        refine (peBarwrite_accepted h hPin 4 (by rwa [setWidth_low]) fuel).bind fun m' _ hm => ?_
        obtain ⟨hReady, hLocks, hOthers⟩ := hm
        have hHigh : m'.dev.AcceptsWrite (offset + 4).toNat ((val >>> 32).setWidth 32) := by
          rw [hUpper rfl]
          exact acceptsWrite_upper hAligned hAccepts hLocks
        have hSecond := @peBarwrite_accepted _ _ hReady (by rw [hLocks.pin]; exact hPin) bdf _ _ 4 hHigh fuel
        rw [hUpper rfl] at hSecond
        refine hSecond.bind fun n _ hn => Intact.of_locks h (hLocks.trans hn.2.1) fun hPort j hNe => ?_
        have hNe' : j ≠ windowPort (offset.toNat + 4) := by rwa [(upper_half hAligned hPort).1]
        exact (hn.2.2 (Nat.le_add_right_of_le hPort) j hNe').trans (hOthers hPort j hNe)
    · constructor
      · intro hTotal
        rw [← pciAhciWrite_safe_iff h hPin]
        intro fuel
        have hReturns := hTotal.returns fuel
        rw [barAccess, if_pos rfl, if_neg hEight] at hReturns
        exact hReturns.first.first
      · intro hAccepts
        refine ⟨fun fuel => ?_, hListed⟩
        rw [barAccess, if_pos rfl, if_neg hEight]
        refine (peBarwrite_accepted h hPin size hAccepts fuel).bind fun m' _ hm => ?_
        exact Intact.of_locks h hm.2.1 hm.2.2

end Access

section Runs

theorem onPort_ready {k : PortId} {f : Port → Except Fault Port} (h : s.Ready)
    (hPooled : Yields (fun _ => True) Pooled (s.onPort k f))
    (hf : Yields (fun _ => True) (fun t => (t.sc.mtx.lock = false ∧ t.p.bctx.bcMtx.lock = false) ∧
      Port.SameList (s.portAt k) t) (f (s.portAt k))) :
    Yields (fun _ => True) Ready (s.onPort k f) := by
  have hList := onPort_listed (f := f) h.listed (hf.imp fun _ _ ht => (h.listed k).same ht.2)
  have hFree : Yields (fun _ => True) (fun t : Ahci => t.sc.mtx.lock = false ∧
      (∀ j, (t.port j).bctx.bcMtx.lock = false) ∧
      ∀ j, (t.port j).attached = true → (j : Nat) < t.sc.ports) (s.onPort k f) := by
    refine hf.bind fun t _ ht => ⟨ht.1.1, fun j => ?_, fun j => ?_⟩
    · dsimp only
      by_cases hEq : j = k
      · subst hEq
        rw [Function.update_self]
        exact ht.1.2
      · rw [Function.update_of_ne hEq]
        exact h.bcMtx j
    · dsimp only
      have hPorts : t.sc.ports = s.sc.ports := ht.2.ports
      rw [hPorts]
      by_cases hEq : j = k
      · subst hEq
        rw [Function.update_self, ht.2.attached]
        exact h.covered j
      · rw [Function.update_of_ne hEq]
        exact h.covered j
  exact ((hPooled.and hFree).and hList).imp fun t _ ht =>
    ⟨ht.1.1, ht.1.2.1, ht.1.2.2.1, ht.2, ht.1.2.2.2⟩

theorem Ready.of_locks (h : s.Ready) (hPooled : t.Pooled) (hLocks : SameLocks s t)
    (hListed : ∀ k, (t.portAt k).Listed) : t.Ready := by
  refine ⟨hPooled, ?_, fun k => ?_, hListed, fun k => ?_⟩
  · rw [hLocks.mtx]
    exact h.mtx
  · rw [hLocks.bcMtx k (h.bcMtx k)]
    exact h.bcMtx k
  · rw [hLocks.attached, hLocks.ports]
    exact h.covered k

theorem ahciReset_ready (h : s.Ready) : Yields (fun _ => True) Ready s.ahciReset := by
  have hAll := ((ahciReset_pooled h.pooled).weaken.and (ahciReset_locks s)).and (ahciReset_listed h.listed)
  exact hAll.imp fun t _ ht => h.of_locks ht.1.1 ht.1.2 ht.2

theorem step_ready (fuel : Nat) (h : s.Ready) (event : Event) :
    Yields (fun _ => True) Ready (s.step fuel event) := by
  cases event with
  | write baridx offset value =>
    by_cases hBar : baridx = 5
    · subst hBar
      exact (pciAhciWrite_effect h fuel offset value).imp fun t _ ht => ht.1
    · rw [step, pciAhciWrite, assertThat, if_neg fun hBoth => hBar hBoth.1, error_bind]
      trivial
  | reset => exact ahciReset_ready h
  | thr =>
    have hPooled := (step_pooled h.pooled fuel .thr).weaken
    rw [step, blockifThr] at hPooled ⊢
    cases hServed : s.blockifSc with
    | none => exact h
    | some k =>
      rw [hServed] at hPooled
      exact onPort_ready h hPooled (Port.blockifThr_free h.mtx fuel)
  | other mem pi => exact ⟨⟨h.pooled.disk, h.pooled.served⟩, h.mtx, h.bcMtx, h.listed, h.covered⟩

theorem pciAhciInit_ready (pi : PciDevinst) (disks : List (Option (List (BitVec 8))))
    (mem : Memory) (stack : Nat → BitVec 8) :
    Yields (fun _ => True) Ready (pciAhciInit pi disks mem stack) := by
  have hPooled := (pciAhciInit_pooled pi disks mem stack).weaken
  unfold pciAhciInit at hPooled ⊢
  refine ((hPooled.and (ahciReset_locks _)).and (ahciReset_listed fun k => ?_)).imp
    fun t _ ht => ⟨ht.1.1, ?_, fun k => ?_, ht.2, fun k => ?_⟩
  · have hOff : (callocPort k).cmd.getLsbD 0 = false := by decide +revert
    simp only [portAt, Port.Listed]
    split <;> exact fun hOn => absurd (hOff.symm.trans hOn) Bool.false_ne_true
  · rw [ht.1.2.mtx]
    rfl
  · rw [ht.1.2.bcMtx k]
    all_goals
      dsimp only
      split <;> rfl
  · rw [ht.1.2.attached, ht.1.2.ports]
    intro hAttached
    have hLength : (k : Nat) < disks.length := by
      by_contra hBeyond
      dsimp only at hAttached
      rw [List.getD_eq_getElem?_getD, List.getElem?_eq_none (Nat.not_lt.mp hBeyond)] at hAttached
      exact absurd hAttached Bool.false_ne_true
    exact lt_max_of_lt_left (lt_min hLength k.isLt)

end Runs

/-- In every state that the controller comes to with its pin, an aligned access to the BAR is total
exactly if it is a read, or a write that the controller takes. -/
theorem registerWindow_total_iff (T : PciTree) (fuel : Nat) (pi : PciDevinst)
    (disks : List (Option (List (BitVec 8)))) (mem : Memory) (stack : Nat → BitVec 8)
    (events : List Event) (pci : Pci T) (bdf : Bdf) (isWrite : Bool) (offset : BitVec 64) (size : Nat)
    (val : BitVec 64) (hSize : size = 1 ∨ size = 2 ∨ size = 4 ∨ size = 8)
    (hAligned : offset.toNat % size = 0) :
    Yields (fun _ => True)
      (fun s => 0 < s.sc.ascPi.lintrPin →
        (Total (⟨pci, s⟩ : Machine T Ahci) bdf isWrite offset size val ↔
          (isWrite = true → s.AcceptsWrite offset.toNat (val.setWidth 32))))
      (pciAhciInit pi disks mem stack >>= fun s => run (step fuel) s events) := by
  refine (pciAhciInit_ready pi disks mem stack).bind fun s _ hs => ?_
  refine (run_keeps (fun t event ht => step_ready fuel ht event) hs events).imp fun t _ ht hPin => ?_
  exact barAccess_total_iff (m := ⟨pci, t⟩) ht hPin bdf isWrite val hSize hAligned

section Examples

def pinned : PciDevinst := { pciEmulInit ⟨0, 5, 0⟩ with lintrPin := 1 }

def oneDisk : Except Fault Ahci := pciAhciInit pinned [some []] (fun _ => 0) fun _ => 0

theorem registerWindow_total_iff_clb :
    Yields (fun _ => False) (fun s => 0 < s.sc.ascPi.lintrPin)
      (oneDisk >>= fun s => run (step 64) s [.write 5 0x04 2]) ∧
    Yields (fun _ => True)
      (fun s => 0 < s.sc.ascPi.lintrPin →
        (Total (⟨initState unbalancedTree, s⟩ : Machine unbalancedTree Ahci) ⟨0, 5, 0⟩ true 0x100 8 0x1000 ↔
          (true = true → s.AcceptsWrite 0x100 0x1000)))
      (oneDisk >>= fun s => run (step 64) s [.write 5 0x04 2]) :=
  ⟨by decide +kernel, registerWindow_total_iff unbalancedTree 64 _ _ _ _ _ _ _ true 0x100 8 0x1000
    (by decide) (by decide)⟩

/-- A write to `PxIS` of a port without a disk. -/
theorem registerWindow_fails : ¬ ∀ (T : PciTree) (fuel : Nat) (pi : PciDevinst)
    (disks : List (Option (List (BitVec 8)))) (mem : Memory) (stack : Nat → BitVec 8)
    (events : List Event) (pci : Pci T) (bdf : Bdf) (isWrite : Bool) (offset : BitVec 64) (size : Nat)
    (val : BitVec 64), size = 1 ∨ size = 2 ∨ size = 4 ∨ size = 8 → offset.toNat % size = 0 →
    Yields (fun _ => True)
      (fun s => 0 < s.sc.ascPi.lintrPin →
        Total (⟨pci, s⟩ : Machine T Ahci) bdf isWrite offset size val)
      (pciAhciInit pi disks mem stack >>= fun s => run (step fuel) s events) := by
  intro hAll
  have hPin : Yields (fun _ => False) (fun s => 0 < s.sc.ascPi.lintrPin) oneDisk := by decide +kernel
  have hStop : fault? (oneDisk >>= fun s => barAccess (ahciOps unbalancedTree 1)
      ⟨initState unbalancedTree, s⟩ ⟨0, 5, 0⟩ 5 true 0x190 4 0) = some .nullSc := by decide +kernel
  have hTotal := hAll unbalancedTree 1 pinned [some []] (fun _ => 0) (fun _ => 0) [] (initState unbalancedTree)
    ⟨0, 5, 0⟩ true 0x190 4 0 (by decide) (by decide)
  rw [fault?_eq_some_iff] at hStop
  change Yields _ _ (oneDisk >>= _) at hTotal
  cases hInit : oneDisk with
  | error e => exact hPin.of_error hInit
  | ok s =>
    rw [hInit, ok_bind] at hTotal hStop
    have hNo := ((hTotal (hPin.of_ok hInit)).returns 1).of_error hStop
    exact absurd hNo (by decide)

end Examples

end Ahci

end DeviceModel.PciAhci

import DeviceModel.EmulIommu
import DeviceModel.FwdDevice

/-!
# Requests to the whole window

`dm_request` of `src/device-model.c` with all devices behind it, and what reads
leave as it was.
-/

set_option autoImplicit false

namespace DeviceModel.DmRequest

open Fallible Bytes EmulPci Msgdma EmulIommu PciEmul

variable {T : PciTree} {δ : Type}

/-- The emulated devices: `msgdma0_sc`, `msgdma1_sc`, the IOMMU and the PCI devices. -/
structure Devices (T : PciTree) (δ : Type) where
  msgdma0 : MsgdmaSoftc
  msgdma1 : MsgdmaSoftc
  iommu : Iommu
  machine : Machine T δ

/-- What the world outside of the model brings to an answer: BAR accesses, loads from the bus,
the contents of uninitialised locals. -/
structure Surroundings (T : PciTree) (δ : Type) where
  ops : BarOps T δ
  regs : Cpuregs
  load : BitVec 64 → Nat → BitVec 64
  val : BitVec 64
  memVal8 : Word8
  val8 : Word8

/-- The handlers of `emul_map`. -/
def emulRequest (env : Surroundings T δ) (elink : EmulLink) (s : Devices T δ) (req : EpwRequest) :
    Except Fault (EpwRequest × Devices T δ) :=
  match elink.request with
  | .emulMsgdma =>
    if elink.arg = .msgdma0Sc then
      let (req, sc) := emulMsgdma s.msgdma0 elink req env.val
      pure (req, { s with msgdma0 := sc })
    else
      let (req, sc) := emulMsgdma s.msgdma1 elink req env.val
      pure (req, { s with msgdma1 := sc })
  | .emulPci => do
    let (req, machine) ← emulPci env.ops elink s.machine req env.memVal8 env.val8
    pure (req, { s with machine })
  | .emulIommu => pure (req, { s with iommu := emulIommu env.regs s.iommu elink req env.val })

/-- The return value, the request, the access of the bus if there is one, and the devices. -/
def dmRequest (env : Surroundings T δ) (s : Devices T δ) (req : EpwBurst) :
    Except Fault (Int × EpwBurst × Option BusAccess × Devices T δ) :=
  match EmulPci.dmRequest req.addr with
  | some (.fwd flink) =>
    let (req, access) := fwdRequest flink env.load req
    pure (0, req, access, s)
  | some (.emul elink) => do
    let (answer, s) ← emulRequest env elink s req.toEpwRequest
    pure (0, { req with toEpwRequest := answer }, none, s)
  | none => pure (-1, req, none, s)

section Reads

variable {env : Surroundings T δ} {req : EpwRequest} {elink : EmulLink}

def SameButCache (m m' : Machine T δ) : Prop :=
  ∃ hint, m' = { m with pci := { m.pci with registry := { m.pci.registry with
    mem := { m.pci.registry.mem with mmioHint := hint } } } }

theorem SameButCache.refl (m : Machine T δ) : SameButCache m m :=
  ⟨m.pci.registry.mem.mmioHint, rfl⟩

theorem access_sameButCache (m : Machine T δ) (addr : BitVec 64) :
    SameButCache m (m.access addr).2 := by
  have hMem : ∃ hint, (m.pci.registry.mem.accessMemory addr.toNat).2 =
      { m.pci.registry.mem with mmioHint := hint } := by
    unfold Mem.Mmio.accessMemory
    split
    · exact ⟨_, rfl⟩
    · split <;> exact ⟨_, rfl⟩
  obtain ⟨hint, hHint⟩ := hMem
  refine ⟨hint, ?_⟩
  rw [← hHint]
  rfl

theorem pciCfgrw_read (s : Pci T) (bdf : Bdf) (coff bytes : Nat) (eax : BitVec 32) :
    ∃ val, s.pciCfgrw true bdf coff bytes eax = .ok (val, s) := by
  obtain ⟨r, hr⟩ := @pciCfgrw_read_returns T s bdf coff bytes eax
  have hKept : r.2 = s := by
    unfold Pci.pciCfgrw at hr
    split at hr
    · obtain ⟨⟩ := hr
      rfl
    · split at hr
      · obtain ⟨⟩ := hr
        rfl
      · split at hr
        · obtain ⟨⟩ := hr
          rfl
        · obtain ⟨val, -, ⟨⟩⟩ := bind_eq_ok_iff.mp hr
          rfl
  obtain ⟨val, s'⟩ := r
  obtain rfl : s' = s := hKept
  exact ⟨val, hr⟩

/-- No range covers the address but that of the ECFG window, if it does: the access is one to
configuration space. -/
def ReachesConfig (m : Machine T δ) (addr : BitVec 64) : Prop :=
  ∀ mr, (m.access addr).1 = some mr → mr.handler = .pciEmulEcfgHandler

theorem emulateMem_read {ops : BarOps T δ} {m : Machine T δ} {addr : BitVec 64}
    (hConfig : ReachesConfig m addr) (width : Nat) (val : BitVec 64) :
    ∃ error val' m', emulateMem ops m addr false width val = .ok (error, val', m') ∧
      SameButCache m m' := by
  have hAccess := access_sameButCache m addr
  unfold emulateMem
  cases hEntry : m.access addr with
  | mk entry m' =>
    rw [hEntry] at hAccess
    cases entry with
    | none => exact ⟨_, _, _, rfl, hAccess⟩
    | some mr =>
      have hHandler : mr.handler = .pciEmulEcfgHandler := hConfig mr (by rw [hEntry])
      obtain ⟨eax, hCfg⟩ := pciCfgrw_read m'.pci (cfgTarget addr).1 (cfgTarget addr).2 width
        (BitVec.extractLsb' 32 32 (BitVec.allOnes 64))
      refine ⟨0, eax ++ BitVec.extractLsb' 0 32 (BitVec.allOnes 64), m', ?_, hAccess⟩
      dsimp only
      unfold emulateMemCb pciEmulEcfgHandler
      rw [hHandler]
      dsimp only
      rw [Bool.not_false, if_neg Bool.false_ne_true, hCfg]
      rfl

theorem emulMem_read {ops : BarOps T δ} {m : Machine T δ} (hRead : req.isWrite = false)
    (hConfig : ReachesConfig m req.addr) (offset : BitVec 64) (val8 : Word8) :
    Yields (· = .bufferIndex) (fun r => SameButCache m r.2.2 ∧ r.2.1.isWrite = false)
      (emulMem ops m req offset val8) := by
  obtain ⟨error, val, m', hValue, hSame⟩ :=
    @emulateMem_read _ _ ops m req.addr hConfig req.flitSize (wordAt val8)
  unfold emulMem
  dsimp only
  rw [hRead, if_neg Bool.false_ne_true, hValue, ok_bind]
  dsimp only
  split
  · apply (copyLoop_stopsOnly _ _ _ _ _ _).yields.bind
    intro data _ _
    exact ⟨hSame, rfl⟩
  · exact ⟨hSame, hRead⟩

theorem emulPci_read {ops : BarOps T δ} {m : Machine T δ} (hType : elink.type = .pciGeneric)
    (hRead : req.isWrite = false) (hConfig : ReachesConfig m req.addr) (memVal8 val8 : Word8) :
    Yields (· = .bufferIndex) (fun r => SameButCache m r.2)
      (emulPci ops elink m req memVal8 val8) := by
  unfold emulPci
  rw [assertThat_of _ hType, ok_bind]
  apply (emulMem_read hRead hConfig _ memVal8).bind
  rintro ⟨error, req', m'⟩ - ⟨hSame, hRead'⟩
  dsimp only at hSame hRead' ⊢
  split
  · exact hSame
  · rw [hRead', if_neg Bool.false_ne_true]
    obtain ⟨eax, hCfg⟩ := pciCfgrw_read m'.pci
      (cfgTarget (req.addr - elink.baseEmul - EPW_WINDOW)).1
      (cfgTarget (req.addr - elink.baseEmul - EPW_WINDOW)).2 req'.flitSize (eaxOf val8)
    rw [hCfg, ok_bind]
    apply (copyLoop_stopsOnly _ _ _ _ _ _).yields.bind
    intro data _ _
    exact hSame

theorem emulMsgdma_read (sc : MsgdmaSoftc) (hRead : req.isWrite = false) (junk : BitVec 64) :
    (emulMsgdma sc elink req junk).2 = sc := by
  unfold emulMsgdma
  dsimp only
  rw [hRead, if_neg Bool.false_ne_true, if_neg Bool.false_ne_true]
  split <;> rfl

structure Unchanged (s s' : Devices T δ) : Prop where
  msgdma0 : s'.msgdma0 = s.msgdma0
  msgdma1 : s'.msgdma1 = s.msgdma1
  iommu : s'.iommu = s.iommu
  machine : SameButCache s.machine s'.machine

theorem emulRequest_read {env : Surroundings T δ} {s : Devices T δ} (hMem : elink ∈ emulMap)
    (hRead : req.isWrite = false)
    (hConfig : elink.request = .emulPci → ReachesConfig s.machine req.addr) :
    Yields (· = .bufferIndex) (fun r => Unchanged s r.2) (emulRequest env elink s req) ↔
      (elink.request = .emulIommu → ¬ MovesSegmap env.regs s.iommu elink req env.val) := by
  unfold emulRequest
  cases hRequest : elink.request with
  | emulMsgdma =>
    refine iff_of_true ?_ (by simp)
    dsimp only
    split
    · exact ⟨emulMsgdma_read s.msgdma0 hRead env.val, rfl, rfl, .refl s.machine⟩
    · exact ⟨rfl, emulMsgdma_read s.msgdma1 hRead env.val, rfl, .refl s.machine⟩
  | emulPci =>
    refine iff_of_true ?_ (by simp)
    have hTypes : ∀ l ∈ emulMap, l.request = .emulPci → l.type = .pciGeneric := by decide
    apply (emulPci_read (hTypes _ hMem hRequest) hRead (hConfig hRequest) _ _).bind
    rintro ⟨req', machine⟩ - hSame
    exact ⟨rfl, rfl, rfl, hSame⟩
  | emulIommu =>
    rw [← @emulIommu_read_iff env.regs s.iommu elink req env.val hRead]
    constructor
    · intro h _
      exact h.iommu
    · intro h
      exact ⟨rfl, rfl, h rfl, .refl s.machine⟩

/-- Reads of the mSGDMA units, of the IOMMU and of PCI configuration space change no device unless
they meet the base of the segment map, which takes over what the buffer of the request held. -/
theorem reads_keepDevices_iff (env : Surroundings T δ) (s : Devices T δ) {req : EpwBurst}
    {elink : EmulLink} (hRequest : EmulPci.dmRequest req.addr = some (.emul elink))
    (hRead : req.isWrite = false)
    (hConfig : elink.request = .emulPci → ReachesConfig s.machine req.addr) :
    Yields (· = .bufferIndex) (fun r => Unchanged s r.2.2.2) (dmRequest env s req) ↔
      (elink.request = .emulIommu →
        ¬ MovesSegmap env.regs s.iommu elink req.toEpwRequest env.val) := by
  rw [← @emulRequest_read _ _ req.toEpwRequest elink env s (dmRequest_emul hRequest) hRead hConfig]
  unfold dmRequest
  rw [hRequest]
  dsimp only
  cases emulRequest env elink s req.toEpwRequest with
  | ok r => exact Iff.rfl
  | error e => exact Iff.rfl

end Reads

section Examples

/-- The cache attribute is the field of bits 59 to 61 of an address. -/
def attributeRegs : Cpuregs := ⟨3 <<< 59, 2 <<< 59⟩

def emptyPci : Pci unbalancedTree where
  fiDevi _ := none
  registry := ⟨Mem.initMem unbalancedTree, 0⟩
  pciEmulIobase := 0
  pciEmulMembase32 := 0
  pciEmulMembase64 := 0
  iiCount _ _ _ := 0

def idleUnit (unit : Nat) : MsgdmaSoftc := ⟨⟨0, 0⟩, ⟨0, 0, 0, 0, 0⟩, false, unit, 0⟩

def idleDevices : Devices unbalancedTree Unit :=
  ⟨idleUnit 0, idleUnit 1, ⟨0x9000000080000000, []⟩, ⟨emptyPci, ()⟩⟩

def idleSurroundings : Surroundings unbalancedTree Unit :=
  ⟨quietOps, attributeRegs, fun _ _ => 0, 0, fun _ => 0, fun _ => 0⟩

def readRequest (addr : BitVec 64) (width : Nat) : EpwBurst := ⟨request addr false width, 0, width⟩

theorem reads_keepDevices_iff_csr : Yields (· = .bufferIndex)
    (fun r => Unchanged idleDevices r.2.2.2)
    (dmRequest idleSurroundings idleDevices (readRequest 0xfdb04004 4)) :=
  (@reads_keepDevices_iff _ _ idleSurroundings idleDevices (readRequest 0xfdb04004 4)
    ⟨0x04000, 0x00020, .emulMsgdma, .msgdma1Sc, .msgdmaCsr⟩ rfl rfl fun h => by cases h).mpr
    fun h => by cases h

/-- A read of the second register of the IOMMU makes 0 the base of the segment map. -/
theorem segmapRead_moves : ¬ ∀ (env : Surroundings unbalancedTree Unit)
    (s : Devices unbalancedTree Unit) (req : EpwBurst) (elink : EmulLink),
    EmulPci.dmRequest req.addr = some (.emul elink) → req.isWrite = false →
    (elink.request = .emulPci → ReachesConfig s.machine req.addr) →
    Yields (· = .bufferIndex) (fun r => Unchanged s r.2.2.2) (dmRequest env s req) := by
  intro hAll
  have hKept := hAll idleSurroundings idleDevices (readRequest 0xfdb60008 8)
    ⟨0x60000, 0x00100, .emulIommu, .iommu0Sc, .msgdmaIommu⟩ rfl rfl fun h => by cases h
  have hSegmap : Yields (· = .bufferIndex)
      (fun r => r.2.2.2.iommu.kernelSegmap = idleDevices.iommu.kernelSegmap)
      (dmRequest idleSurroundings idleDevices (readRequest 0xfdb60008 8)) :=
    hKept.imp fun r _ h => congrArg Iommu.kernelSegmap h.iommu
  revert hSegmap
  decide

end Examples

end DeviceModel.DmRequest

import DeviceModel.Lib.Bytes
import DeviceModel.PciInit

/-!
# Requests to the PCI window

`dm_request` finds the link that a request of the event processing window belongs
to, and `emul_pci` answers those of the PCI window: a range of the MMIO registry
if one covers the address, configuration space otherwise. What a device does on
an access to one of its BARs is a parameter.
-/

set_option autoImplicit false

namespace DeviceModel.EmulPci

open Mem Fallible Bytes PciEmul

variable {T : PciTree} {δ : Type}

/-- The fields of `struct epw_request` that answering it reads and writes. -/
structure EpwRequest where
  addr : BitVec 64
  isWrite : Bool
  flitSize : Nat
  dataLen : Nat
  data : Fin 32 → BitVec 8

inductive EmulDeviceType where
  | msgdmaCsr
  | msgdmaPf
  | msgdmaIommu
  | pciGeneric
deriving DecidableEq

inductive EmulRequest where
  | emulMsgdma
  | emulPci
  | emulIommu
deriving DecidableEq

inductive EmulArg where
  | msgdma0Sc
  | msgdma1Sc
  | pci0Sc
  | iommu0Sc
  | iommu1Sc
deriving DecidableEq

structure EmulLink where
  baseEmul : BitVec 64
  size : BitVec 64
  request : EmulRequest
  arg : EmulArg
  type : EmulDeviceType
deriving DecidableEq

structure FwdLink where
  baseEmul : BitVec 64
  size : BitVec 64
  base : BitVec 64
deriving DecidableEq

def EPW_WINDOW : BitVec 64 := 0xfdb00000

def fwdMap : List FwdLink :=
  [⟨0x0000, 0x20, 0x80004080⟩, ⟨0x0020, 0x20, 0x800040a0⟩, ⟨0x0040, 0x20, 0x80004000⟩,
    ⟨0x0060, 0x20, 0x80004020⟩]

def emulMap : List EmulLink :=
  [⟨0x04080, 0x00020, .emulMsgdma, .msgdma0Sc, .msgdmaCsr⟩,
    ⟨0x040a0, 0x00020, .emulMsgdma, .msgdma0Sc, .msgdmaPf⟩,
    ⟨0x04000, 0x00020, .emulMsgdma, .msgdma1Sc, .msgdmaCsr⟩,
    ⟨0x04020, 0x00020, .emulMsgdma, .msgdma1Sc, .msgdmaPf⟩,
    ⟨0x10000, 0x50000, .emulPci, .pci0Sc, .pciGeneric⟩,
    ⟨0x60000, 0x00100, .emulIommu, .iommu0Sc, .msgdmaIommu⟩,
    ⟨0x60100, 0x00100, .emulIommu, .iommu1Sc, .msgdmaIommu⟩]

inductive DmTarget where
  | fwd (flink : FwdLink)
  | emul (elink : EmulLink)

/-- The link a request goes to, `none` for the return value -1. -/
def dmRequest (addr : BitVec 64) : Option DmTarget :=
  let offset := addr - EPW_WINDOW
  match fwdMap.find? fun l => decide (l.baseEmul ≤ offset ∧ offset < l.baseEmul + l.size) with
  | some flink => some (.fwd flink)
  | none =>
    (emulMap.find? fun l => decide (l.baseEmul ≤ offset ∧ offset < l.baseEmul + l.size)).map .emul

structure Machine (T : PciTree) (δ : Type) where
  pci : Pci T
  dev : δ

/-- `pe_barread` and `pe_barwrite` of the device at a function: BAR, offset, size and value. -/
structure BarOps (T : PciTree) (δ : Type) where
  peBarread : Bdf → Machine T δ → Nat → BitVec 64 → Nat → Except Fault (BitVec 64 × Machine T δ)
  peBarwrite : Bdf → Machine T δ → Nat → BitVec 64 → Nat → BitVec 64 → Except Fault (Machine T δ)

/-- The calls that an access to a BAR makes: one, or two of 4 bytes for an access of 8. -/
def barAccess (ops : BarOps T δ) (s : Machine T δ) (bdf : Bdf) (bidx : Nat) (isWrite : Bool)
    (offset : BitVec 64) (size : Nat) (val : BitVec 64) : Except Fault (BitVec 64 × Machine T δ) :=
  if isWrite then
    if size = 8 then do
      let s ← ops.peBarwrite bdf s bidx offset 4 (val &&& (0xffffffff : BitVec 64))
      let s ← ops.peBarwrite bdf s bidx (offset + 4) 4 (val >>> 32)
      pure (val, s)
    else do
      let s ← ops.peBarwrite bdf s bidx offset size val
      pure (val, s)
  else if size = 8 then do
    let (low, s) ← ops.peBarread bdf s bidx offset 4
    let (high, s) ← ops.peBarread bdf s bidx (offset + 4) 4
    pure (low ||| (high <<< 32), s)
  else ops.peBarread bdf s bidx offset size

/-- `arg1` and `arg2` of the range name the device and its BAR. -/
def pciEmulMemHandler (ops : BarOps T δ) (s : Machine T δ) (isWrite : Bool) (addr : BitVec 64)
    (size : Nat) (val : BitVec 64) (arg1 : Option Bdf) (arg2 : Int) :
    Except Fault (BitVec 64 × Machine T δ) :=
  match arg1.bind s.pci.fiDevi with
  | none => .error .memHandlerDevice
  | some pdi => do
    let bidx := arg2.toNat
    assertThat (0 ≤ arg2 ∧ arg2 ≤ PCI_BARMAX) .memHandlerBar
    let bar := pdi.piBar bidx
    assertThat (bar.type = .mem32 ∨ bar.type = .mem64) .memHandlerBar
    assertThat (bar.addr ≤ addr ∧ addr + BitVec.ofNat 64 size ≤ bar.addr + bar.size) .memHandlerExtent
    barAccess ops s pdi.bdf bidx isWrite (addr - bar.addr) size val

/-- The device, slot and function bits of an address, and the offset they leave. -/
def cfgTarget (addr : BitVec 64) : Bdf × Nat :=
  (⟨(addr >>> 20 &&& 0xff).toNat, (addr >>> 15 &&& 0x1f).toNat, (addr >>> 12 &&& 0x7).toNat⟩,
    (addr &&& 0xfff).toNat)

/-- `val` is written as the 32-bit word at its address, its upper half. -/
def pciEmulEcfgHandler (s : Machine T δ) (isWrite : Bool) (addr : BitVec 64) (bytes : Nat)
    (val : BitVec 64) : Except Fault (BitVec 64 × Machine T δ) := do
  let val := if isWrite then val else BitVec.allOnes 64
  let (bdf, coff) := cfgTarget addr
  let (eax, pci) ← s.pci.pciCfgrw (!isWrite) bdf coff bytes (val.extractLsb' 32 32)
  pure (eax ++ val.extractLsb' 0 32, { s with pci })

def emulateMemCb (ops : BarOps T δ) (s : Machine T δ) (mr : PciRange) (isWrite : Bool)
    (paddr : BitVec 64) (size : Nat) (val : BitVec 64) : Except Fault (BitVec 64 × Machine T δ) :=
  match mr.handler with
  | .null => .error .memHandlerNull
  | .pciEmulMemHandler => pciEmulMemHandler ops s isWrite paddr size val mr.arg1 mr.arg2
  | .pciEmulEcfgHandler => pciEmulEcfgHandler s isWrite paddr size val

def Machine.access (s : Machine T δ) (paddr : BitVec 64) : Option PciRange × Machine T δ :=
  let (entry, mem) := s.pci.registry.mem.accessMemory paddr.toNat
  (entry.map (·.mrParam), { s with pci := { s.pci with registry := { s.pci.registry with mem } } })

def emulateMem (ops : BarOps T δ) (s : Machine T δ) (paddr : BitVec 64) (isWrite : Bool)
    (accessWidth : Nat) (val : BitVec 64) : Except Fault (Nat × BitVec 64 × Machine T δ) :=
  match s.access paddr with
  | (none, s) => .ok (ESRCH, val, s)
  | (some mr, s) => (emulateMemCb ops s mr isWrite paddr accessWidth val).map (0, ·)

/-- The value of a write: the bytes of the request, the first one least significant. `junk` is
what an uninitialised local holds. -/
def EpwRequest.writeVal (req : EpwRequest) (junk : BitVec 64) : BitVec 64 :=
  match req.dataLen with
  | 8 => bswap64 (req.data 0 ++ req.data 1 ++ req.data 2 ++ req.data 3 ++ req.data 4 ++ req.data 5 ++
      req.data 6 ++ req.data 7)
  | 4 => (bswap32 (req.data 0 ++ req.data 1 ++ req.data 2 ++ req.data 3)).setWidth 64
  | 2 => (bswap16 (req.data 0 ++ req.data 1)).setWidth 64
  | 1 => (req.data 0).setWidth 64
  | _ => junk

/-- The return value of `emulate_mem`, with the request and the state. `val8` is what the local
buffer holds before it is written. -/
def emulMem (ops : BarOps T δ) (s : Machine T δ) (req : EpwRequest) (offset : BitVec 64)
    (val8 : Word8) : Except Fault (Nat × EpwRequest × Machine T δ) :=
  if req.isWrite then do
    assertThat (req.dataLen < 8) .accessWidth
    let val := req.writeVal (wordAt val8)
    let (error, _, s) ← emulateMem ops s req.addr req.isWrite req.flitSize val
    pure (error, req, s)
  else do
    let bytes := req.dataLen
    let (error, val, s) ← emulateMem ops s req.addr req.isWrite req.flitSize (wordAt val8)
    if error = 0 then do
      let data ← copyLoop .bufferIndex (bytesOf val) (fun i => 7 - i)
        (fun i => 8 - bytes - (offset.toNat % 8 : Nat) + i) bytes req.data
      pure (error, { req with data }, s)
    else pure (error, req, s)

def eaxOf (val8 : Word8) : BitVec 32 := val8 0 ++ val8 1 ++ val8 2 ++ val8 3

def setEax (val8 : Word8) (eax : BitVec 32) : Word8 := bytesOf (eax ++ (wordAt val8).extractLsb' 0 32)

/-- `memVal8` and `val8` are the local buffers of `emul_mem` and `emul_pci`. -/
def emulPci (ops : BarOps T δ) (elink : EmulLink) (s : Machine T δ) (req : EpwRequest)
    (memVal8 val8 : Word8) : Except Fault (EpwRequest × Machine T δ) := do
  assertThat (elink.type = .pciGeneric) .unknownDevice
  let offset := req.addr - elink.baseEmul - EPW_WINDOW
  let (error, req, s) ← emulMem ops s req offset memVal8
  if error = 0 then pure (req, s)
  else do
    let (bdf, coff) := cfgTarget offset
    if req.isWrite then do
      let bytes := req.dataLen
      let val8 ← bcopy .bufferIndex req.data 0 val8 (4 - bytes) bytes
      let (_, pci) ← s.pci.pciCfgrw false bdf coff bytes (eaxOf val8)
      pure (req, { s with pci })
    else do
      let data : Fin 32 → BitVec 8 := fun _ => 0
      let bytes := req.flitSize
      let (eax, pci) ← s.pci.pciCfgrw true bdf coff bytes (eaxOf val8)
      let len := bytes + offset.toNat % 8
      let data ← bcopy .bufferIndex (setEax val8 eax) (4 - bytes) data (8 - len) bytes
      pure ({ req with data }, { s with pci })

section Dispatch

def pciLink : EmulLink := ⟨0x10000, 0x50000, .emulPci, .pci0Sc, .pciGeneric⟩

theorem dmRequest_pciLink {addr : BitVec 64} {elink : EmulLink}
    (h : dmRequest addr = some (.emul elink)) (hPci : elink.request = .emulPci) :
    elink = pciLink ∧ pciLink.baseEmul ≤ addr - EPW_WINDOW ∧
      addr - EPW_WINDOW < pciLink.baseEmul + pciLink.size := by
  have hOnly : ∀ l ∈ emulMap, l.request = .emulPci → l = pciLink := by decide
  unfold dmRequest at h
  dsimp only at h
  split at h
  · cases h
  · obtain ⟨l, hFind, ⟨rfl⟩⟩ := Option.map_eq_some_iff.mp h
    obtain rfl := hOnly _ (List.mem_of_find?_eq_some hFind) hPci
    exact ⟨rfl, by simpa using List.find?_some hFind⟩

theorem dmRequest_pci_iff {addr : BitVec 64} :
    dmRequest addr = some (.emul pciLink) ↔ 0xfdb10000 ≤ addr.toNat ∧ addr.toNat < 0xfdb60000 := by
  constructor
  · intro h
    obtain ⟨-, hLo, hHi⟩ := dmRequest_pciLink h rfl
    simp only [pciLink, EPW_WINDOW] at hLo hHi
    bv_omega
  · rintro ⟨hLo, hHi⟩
    have hOffset : 0x10000 ≤ addr - EPW_WINDOW ∧ addr - EPW_WINDOW < 0x60000 := by
      simp only [EPW_WINDOW]
      bv_omega
    unfold dmRequest
    dsimp only
    generalize addr - EPW_WINDOW = offset at hOffset
    have hFwd : fwdMap.find? (fun l => decide (l.baseEmul ≤ offset ∧
        offset < l.baseEmul + l.size)) = none := by
      refine List.find?_eq_none.mpr fun l hl => ?_
      simp only [fwdMap, List.mem_cons, List.not_mem_nil, or_false] at hl
      rcases hl with rfl | rfl | rfl | rfl <;> rw [decide_eq_true_eq] <;> bv_omega
    have hEmul : emulMap.find? (fun l => decide (l.baseEmul ≤ offset ∧
        offset < l.baseEmul + l.size)) = some pciLink := by
      refine List.find?_eq_some_iff_append.mpr ⟨?_, emulMap.take 4, emulMap.drop 5, rfl, ?_⟩
      · rw [decide_eq_true_eq]
        simp only [pciLink]
        bv_omega
      · intro l hl
        simp only [emulMap, List.take, List.mem_cons, List.not_mem_nil, or_false] at hl
        rcases hl with rfl | rfl | rfl | rfl <;>
          simp only [Bool.not_eq_true', decide_eq_false_iff_not] <;> bv_omega
    rw [hFwd, hEmul]
    rfl

end Dispatch

section Answers

variable {ops : BarOps T δ} {s : Machine T δ} {req : EpwRequest}

/-- What the bus delivers: a naturally aligned access of 1, 2, 4 or 8 bytes. -/
structure EpwRequest.WellFormed (req : EpwRequest) : Prop where
  width : req.dataLen = 1 ∨ req.dataLen = 2 ∨ req.dataLen = 4 ∨ req.dataLen = 8
  flit : req.flitSize = req.dataLen
  aligned : req.addr.toNat % req.dataLen = 0

structure BarAccepts (ops : BarOps T δ) (s : Machine T δ) (mr : PciRange) (isWrite : Bool)
    (addr : BitVec 64) (size : Nat) (val : BitVec 64) (pdi : PciDevinst) : Prop where
  device : mr.arg1.bind s.pci.fiDevi = some pdi
  bidx : 0 ≤ mr.arg2 ∧ mr.arg2 ≤ PCI_BARMAX
  type : (pdi.piBar mr.arg2.toNat).type = .mem32 ∨ (pdi.piBar mr.arg2.toNat).type = .mem64
  extent : (pdi.piBar mr.arg2.toNat).addr ≤ addr ∧ addr + BitVec.ofNat 64 size ≤
    (pdi.piBar mr.arg2.toNat).addr + (pdi.piBar mr.arg2.toNat).size
  returns : Returns (barAccess ops s pdi.bdf mr.arg2.toNat isWrite
    (addr - (pdi.piBar mr.arg2.toNat).addr) size val)

theorem pciEmulMemHandler_returns_iff {mr : PciRange} {isWrite : Bool} {addr val : BitVec 64}
    {size : Nat} : Returns (pciEmulMemHandler ops s isWrite addr size val mr.arg1 mr.arg2) ↔
      ∃ pdi, BarAccepts ops s mr isWrite addr size val pdi := by
  unfold pciEmulMemHandler
  cases hDev : mr.arg1.bind s.pci.fiDevi with
  | none =>
    simp only [not_returns_error, false_iff]
    rintro ⟨pdi, h⟩
    exact absurd (hDev.symm.trans h.device) (by simp)
  | some pdi =>
    simp only [returns_assertThat_bind_iff]
    constructor
    · rintro ⟨hIdx, hType, hExtent, hReturns⟩
      exact ⟨pdi, hDev, hIdx, hType, hExtent, hReturns⟩
    · rintro ⟨x, h⟩
      obtain rfl : pdi = x := Option.some.inj (hDev.symm.trans h.device)
      exact ⟨h.bidx, h.type, h.extent, h.returns⟩

theorem pciCfgrw_read_returns (s : Pci T) (bdf : Bdf) {coff bytes : Nat} (eax : BitVec 32) :
    Returns (s.pciCfgrw true bdf coff bytes eax) := by
  unfold Pci.pciCfgrw
  cases s.fiDevi bdf with
  | none => simp
  | some pi =>
    dsimp only
    split
    · simp
    · next hWidth =>
      split
      · simp
      · next hHeader =>
        obtain ⟨hBytes, hAlign⟩ := not_or.mp hWidth
        have hDiv := Nat.div_add_mod coff bytes
        have hAccess : PciDevinst.CfgAccess coff bytes := by
          refine ⟨?_, not_not.mp hAlign⟩
          simp only [PCI_REGMAX] at hHeader ⊢
          rcases (by omega : bytes = 1 ∨ bytes = 2 ∨ bytes = 4) with rfl | rfl | rfl <;> omega
        simp [PciDevinst.cfgRead, hAccess]

def RangeAccepts (ops : BarOps T δ) (s : Machine T δ) (mr : PciRange) (isWrite : Bool)
    (addr : BitVec 64) (size : Nat) (val : BitVec 64) : Prop :=
  match mr.handler with
  | .null => False
  | .pciEmulMemHandler => ∃ pdi, BarAccepts ops s mr isWrite addr size val pdi
  | .pciEmulEcfgHandler => isWrite = true →
      Returns (s.pci.pciCfgrw false (cfgTarget addr).1 (cfgTarget addr).2 size (val.extractLsb' 32 32))

theorem emulateMemCb_returns_iff {mr : PciRange} {isWrite : Bool} {addr val : BitVec 64}
    {size : Nat} : Returns (emulateMemCb ops s mr isWrite addr size val) ↔
      RangeAccepts ops s mr isWrite addr size val := by
  unfold emulateMemCb RangeAccepts
  cases mr.handler with
  | null => simp
  | pciEmulMemHandler => exact pciEmulMemHandler_returns_iff
  | pciEmulEcfgHandler =>
    have hBoth : Returns (pciEmulEcfgHandler s isWrite addr size val) ↔
        Returns (s.pci.pciCfgrw (!isWrite) (cfgTarget addr).1 (cfgTarget addr).2 size
          ((if isWrite then val else BitVec.allOnes 64).extractLsb' 32 32)) := by
      unfold pciEmulEcfgHandler
      rw [returns_bind_iff]
      simp [Returns]
    dsimp only
    rw [hBoth]
    cases isWrite with
    | false => simpa using pciCfgrw_read_returns _ _ _
    | true => simp

/-- The word that a configuration write passes on: the bytes of the request below what the
buffer held. -/
def EpwRequest.cfgVal (req : EpwRequest) (val8 : Word8) : BitVec 32 :=
  match req.dataLen with
  | 1 => val8 0 ++ val8 1 ++ val8 2 ++ req.data 0
  | 2 => val8 0 ++ val8 1 ++ req.data 0 ++ req.data 1
  | _ => req.data 0 ++ req.data 1 ++ req.data 2 ++ req.data 3

theorem bcopy_cfgVal {val8 val8' : Word8}
    (hWidth : req.dataLen = 1 ∨ req.dataLen = 2 ∨ req.dataLen = 4)
    (h : bcopy Fault.bufferIndex req.data 0 val8 (4 - req.dataLen) req.dataLen = .ok val8') :
    eaxOf val8' = req.cfgVal val8 := by
  unfold EpwRequest.cfgVal
  rcases hWidth with hLen | hLen | hLen <;> rw [hLen] at h ⊢ <;> obtain ⟨rfl⟩ := h <;> rfl

def EpwRequest.offset (req : EpwRequest) : BitVec 64 := req.addr - pciLink.baseEmul - EPW_WINDOW

/-- A write is of at most 4 bytes, and so is a read that no range covers; what the request is
handed on to takes it. -/
def Answerable (ops : BarOps T δ) (s : Machine T δ) (req : EpwRequest) (memVal8 val8 : Word8) : Prop :=
  match s.access req.addr with
  | (some mr, s) => (req.isWrite = true → req.dataLen ≤ 4) ∧
      RangeAccepts ops s mr req.isWrite req.addr req.dataLen
        (if req.isWrite then req.writeVal (wordAt memVal8) else wordAt memVal8)
  | (none, s) => req.dataLen ≤ 4 ∧ (req.isWrite = true →
      Returns (s.pci.pciCfgrw false (cfgTarget req.offset).1 (cfgTarget req.offset).2 req.dataLen
        (req.cfgVal val8)))

/-- An aligned access stays within one 8-byte lane. -/
theorem EpwRequest.WellFormed.lane (hWf : req.WellFormed) :
    req.offset.toNat % 8 + req.dataLen ≤ 8 := by
  have hBase : (EpwRequest.offset req).toNat % 8 = req.addr.toNat % 8 := by
    simp only [EpwRequest.offset, pciLink, EPW_WINDOW]
    bv_omega
  have hAligned := hWf.aligned
  rw [hBase]
  rcases hWf.width with hLen | hLen | hLen | hLen <;> rw [hLen] at hAligned ⊢ <;> omega

theorem EpwRequest.WellFormed.write_width (hWf : req.WellFormed) :
    req.dataLen < 8 ↔ req.dataLen ≤ 4 := by
  have := hWf.width
  omega

theorem EpwRequest.WellFormed.pos (hWf : req.WellFormed) : 0 < req.dataLen := by
  have := hWf.width
  omega

theorem readLoop_returns (hWf : req.WellFormed) (val : BitVec 64) :
    Returns (copyLoop Fault.bufferIndex (bytesOf val) (fun i => 7 - i)
      (fun i => 8 - req.dataLen - (req.offset.toNat % 8 : Nat) + i) req.dataLen req.data) := by
  have hLane := hWf.lane
  refine copyLoop_ok_iff.mpr fun k hk => ⟨⟨?_, ?_⟩, ?_, ?_⟩ <;> omega

variable {mr : PciRange} {s' : Machine T δ} {memVal8 val8 : Word8}

theorem emulateMem_hit (hHit : s.access req.addr = (some mr, s')) (isWrite : Bool) (width : Nat)
    (val : BitVec 64) : emulateMem ops s req.addr isWrite width val =
      (emulateMemCb ops s' mr isWrite req.addr width val).map (0, ·) := by
  rw [emulateMem, hHit]

theorem emulateMem_miss (hMiss : s.access req.addr = (none, s')) (isWrite : Bool) (width : Nat)
    (val : BitVec 64) : emulateMem ops s req.addr isWrite width val = .ok (ESRCH, val, s') := by
  rw [emulateMem, hMiss]

theorem emulMem_returns_iff (hWf : req.WellFormed) (hHit : s.access req.addr = (some mr, s')) :
    Returns (emulMem ops s req req.offset memVal8) ↔ (req.isWrite = true → req.dataLen ≤ 4) ∧
      RangeAccepts ops s' mr req.isWrite req.addr req.dataLen
        (if req.isWrite then req.writeVal (wordAt memVal8) else wordAt memVal8) := by
  rw [← emulateMemCb_returns_iff]
  unfold emulMem
  cases hWrite : req.isWrite with
  | true =>
    simp only [if_true, returns_assertThat_bind_iff, hWf.write_width, forall_const, hWf.flit,
      emulateMem_hit hHit]
    refine and_congr_right fun _ => ?_
    cases emulateMemCb ops s' mr true req.addr req.dataLen (req.writeVal (wordAt memVal8)) with
    | ok r => exact iff_of_true ⟨_, rfl⟩ ⟨_, rfl⟩
    | error e => exact iff_of_false (not_returns_error e) (not_returns_error e)
  | false =>
    simp only [Bool.false_eq_true, false_imp_iff, true_and, if_false, hWf.flit, emulateMem_hit hHit]
    cases emulateMemCb ops s' mr false req.addr req.dataLen (wordAt memVal8) with
    | ok r =>
      refine iff_of_true ?_ ⟨_, rfl⟩
      obtain ⟨data, hLoop⟩ := readLoop_returns hWf r.1
      exact returns_bind_iff.mpr ⟨_, rfl, returns_bind_iff.mpr ⟨data, hLoop, _, rfl⟩⟩
    | error e => exact iff_of_false (not_returns_error e) (not_returns_error e)

theorem emulMem_hit (hHit : s.access req.addr = (some mr, s')) {r : Nat × EpwRequest × Machine T δ}
    (h : emulMem ops s req req.offset memVal8 = .ok r) : r.1 = 0 := by
  unfold emulMem at h
  simp only [emulateMem_hit hHit] at h
  split at h
  · obtain ⟨-, -, h⟩ := bind_eq_ok_iff.mp h
    cases hCb : emulateMemCb ops s' mr req.isWrite req.addr req.flitSize
        (req.writeVal (wordAt memVal8)) with
    | error e => simp [hCb, Except.map] at h
    | ok y =>
      rw [hCb] at h
      obtain ⟨rfl⟩ := h
      rfl
  · cases hCb : emulateMemCb ops s' mr req.isWrite req.addr req.flitSize (wordAt memVal8) with
    | error e => simp [hCb, Except.map] at h
    | ok y =>
      simp only [hCb, Except.map, ok_bind, if_true] at h
      obtain ⟨data, -, ⟨rfl⟩⟩ := bind_eq_ok_iff.mp h
      rfl

theorem emulMem_miss (hWf : req.WellFormed) (hMiss : s.access req.addr = (none, s'))
    (hShort : req.isWrite = true → req.dataLen ≤ 4) :
    emulMem ops s req req.offset memVal8 = .ok (ESRCH, req, s') := by
  unfold emulMem
  simp only [emulateMem_miss hMiss]
  split
  · next hWrite =>
    rw [assertThat_of _ (hWf.write_width.mpr (hShort hWrite))]
    rfl
  · rfl

theorem emulMem_wide (hWide : ¬ (req.isWrite = true → req.dataLen ≤ 4)) (hWf : req.WellFormed) :
    emulMem ops s req req.offset memVal8 = .error .accessWidth := by
  obtain ⟨hWrite, hLong⟩ := Classical.not_imp.mp hWide
  unfold emulMem
  rw [if_pos hWrite, assertThat, if_neg fun h => hLong (hWf.write_width.mp h)]
  rfl

theorem cfgWrite_returns_iff (hWf : req.WellFormed) (hShort : req.dataLen ≤ 4) {bdf : Bdf} {coff : Nat} :
    Returns (bcopy Fault.bufferIndex req.data 0 val8 (4 - req.dataLen) req.dataLen >>= fun val8 =>
      s.pci.pciCfgrw false bdf coff req.dataLen (eaxOf val8) >>= fun r =>
        (pure (req, { s with pci := r.2 }) : Except Fault (EpwRequest × Machine T δ))) ↔
      Returns (s.pci.pciCfgrw false bdf coff req.dataLen (req.cfgVal val8)) := by
  obtain ⟨val8', hCopy⟩ := (@bcopy_ok_iff _ _ _ _ Fault.bufferIndex req.data 0 val8
    (4 - req.dataLen) _ hWf.pos).mpr (by omega)
  have hWidth : req.dataLen = 1 ∨ req.dataLen = 2 ∨ req.dataLen = 4 := by
    have := hWf.width
    omega
  rw [hCopy, ok_bind, bcopy_cfgVal hWidth hCopy, returns_bind_iff]
  simp [Returns]

theorem cfgRead_returns_iff {α : Type} (hWf : req.WellFormed) {bdf : Bdf} {coff : Nat}
    (answer : (Fin 32 → BitVec 8) → BitVec 32 × Pci T → α) :
    Returns (s.pci.pciCfgrw true bdf coff req.dataLen (eaxOf val8) >>= fun r =>
      bcopy Fault.bufferIndex (setEax val8 r.1) (4 - req.dataLen) (fun _ => 0 : Fin 32 → BitVec 8)
        (8 - (req.dataLen + req.offset.toNat % 8 : Nat)) req.dataLen >>= fun data =>
        (pure (answer data r) : Except Fault α)) ↔ req.dataLen ≤ 4 := by
  obtain ⟨r, hr⟩ := @pciCfgrw_read_returns _ s.pci bdf coff req.dataLen
    (eaxOf val8)
  have hLane := hWf.lane
  rw [hr, ok_bind, returns_bind_iff]
  constructor
  · rintro ⟨data, hData, -⟩
    have := (bcopy_ok_iff hWf.pos).mp ⟨data, hData⟩
    omega
  · intro hShort
    obtain ⟨data, hData⟩ := (@bcopy_ok_iff _ _ _ _ Fault.bufferIndex (setEax val8 r.1)
      (4 - req.dataLen) (fun _ => 0 : Fin 32 → BitVec 8)
      (8 - (req.dataLen + req.offset.toNat % 8 : Nat)) _ hWf.pos).mpr (by omega)
    exact ⟨data, hData, _, rfl⟩

/-- A well-formed request is answered, with all indices in bounds, exactly if it is of a width
that its path can take and what it is handed on to takes it. -/
theorem emulPci_answers_iff (ops : BarOps T δ) (s : Machine T δ) {req : EpwRequest}
    (hWf : req.WellFormed) {elink : EmulLink} (hRequest : dmRequest req.addr = some (.emul elink))
    (hPci : elink.request = .emulPci) (memVal8 val8 : Word8) :
    Returns (emulPci ops elink s req memVal8 val8) ↔ Answerable ops s req memVal8 val8 := by
  obtain ⟨rfl, -⟩ := dmRequest_pciLink hRequest hPci
  have hType : pciLink.type = .pciGeneric := rfl
  have hOffset : req.addr - pciLink.baseEmul - EPW_WINDOW = req.offset := rfl
  unfold emulPci Answerable
  simp only [returns_assertThat_bind_iff, hType, true_and, hOffset]
  cases hAccess : s.access req.addr with
  | mk entry s' =>
    cases entry with
    | some mr =>
      dsimp only
      rw [← emulMem_returns_iff hWf hAccess, returns_bind_iff]
      constructor
      · rintro ⟨r, hr, -⟩
        exact ⟨r, hr⟩
      · rintro ⟨⟨error, req', t⟩, hr⟩
        refine ⟨_, hr, ?_⟩
        obtain rfl : error = 0 := emulMem_hit hAccess hr
        exact ⟨_, rfl⟩
    | none =>
      dsimp only
      by_cases hShort : req.isWrite = true → req.dataLen ≤ 4
      · rw [emulMem_miss hWf hAccess hShort, ok_bind]
        have hMiss : ESRCH ≠ 0 := by decide
        simp only [hMiss, if_false]
        cases hWrite : req.isWrite with
        | true =>
          simp only [if_true, hShort hWrite, true_and, forall_const]
          exact cfgWrite_returns_iff hWf (hShort hWrite)
        | false =>
          simp only [Bool.false_eq_true, if_false, false_imp_iff, and_true, hWf.flit]
          exact cfgRead_returns_iff hWf _
      · rw [emulMem_wide hShort hWf]
        exact iff_of_false (not_returns_error _) fun h => hShort fun _ => h.1

end Answers

section Examples

def quietOps : BarOps unbalancedTree Unit where
  peBarread _ s _ _ _ := .ok (0, s)
  peBarwrite _ s _ _ _ _ := .ok s

def request (addr : BitVec 64) (isWrite : Bool) (width : Nat) : EpwRequest :=
  ⟨addr, isWrite, width, width, fun _ => 0⟩

theorem request_wellFormed {addr : BitVec 64} {isWrite : Bool} {width : Nat}
    (hWidth : width = 1 ∨ width = 2 ∨ width = 4 ∨ width = 8) (hAligned : addr.toNat % width = 0) :
    (request addr isWrite width).WellFormed := ⟨hWidth, rfl, hAligned⟩

theorem emulPci_answers_iff_ident : ∃ s, bhyvePciInit unbalancedTree = .ok s ∧
    Returns (emulPci quietOps pciLink ⟨s, ()⟩ (request 0xfdb10000 false 4) (fun _ => 0) fun _ => 0) := by
  have hMiss : (bhyvePciInit unbalancedTree).toOption.bind (fun s =>
      (Machine.access (⟨s, ()⟩ : Machine unbalancedTree Unit) 0xfdb10000).1) = none := by decide
  have hInit : fault? (bhyvePciInit unbalancedTree) = none := by decide
  obtain ⟨s, hs⟩ := fault?_eq_none_iff.mp hInit
  rw [hs] at hMiss
  refine ⟨s, hs, (emulPci_answers_iff quietOps _
    (request_wellFormed (.inr (.inr (.inl rfl))) (by decide)) (dmRequest_pci_iff.mpr (by decide)) rfl
    _ _).mpr ?_⟩
  unfold Answerable
  cases hAccess : Machine.access (⟨s, ()⟩ : Machine unbalancedTree Unit) 0xfdb10000 with
  | mk entry s' =>
    obtain rfl : entry = none := (congrArg Prod.fst hAccess).symm.trans hMiss
    rw [show (request 0xfdb10000 false 4).addr = 0xfdb10000 from rfl, hAccess]
    exact ⟨Nat.le_refl 4, fun h => by cases h⟩

/-- An 8-byte write to the first BAR of the e1000 fails the assertion on the width, and an 8-byte
read of its configuration space copies from before the local buffer. -/
theorem emulPci_stops_wide : ¬ ∀ (s : Pci unbalancedTree) (req : EpwRequest), bhyvePciInit unbalancedTree = .ok s →
    req.WellFormed → dmRequest req.addr = some (.emul pciLink) →
    Returns (emulPci quietOps pciLink ⟨s, ()⟩ req (fun _ => 0) fun _ => 0) := by
  intro hAll
  have hStop : fault? (bhyvePciInit unbalancedTree >>= fun s => emulPci quietOps pciLink ⟨s, ()⟩
      (request 0xfdb20000 true 8) (fun _ => 0) fun _ => 0) = some .accessWidth := by decide
  have hInit : fault? (bhyvePciInit unbalancedTree) = none := by decide
  obtain ⟨s, hs⟩ := fault?_eq_none_iff.mp hInit
  rw [hs, ok_bind, fault?_eq_some_iff] at hStop
  have hReturns := hAll s (request 0xfdb20000 true 8) hs
    (request_wellFormed (.inr (.inr (.inr rfl))) (by decide)) (dmRequest_pci_iff.mpr (by decide))
  rw [hStop] at hReturns
  exact not_returns_error _ hReturns

example : fault? (bhyvePciInit unbalancedTree >>= fun s => emulPci quietOps pciLink ⟨s, ()⟩
    (request 0xfdb10000 false 8) (fun _ => 0) fun _ => 0) = some .bufferIndex := by decide

end Examples

end DeviceModel.EmulPci

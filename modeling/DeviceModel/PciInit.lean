import DeviceModel.PciEmul

/-!
# How functions and their BARs are set up

`pci_emul_alloc_pbar` with the resource pools it draws from, `pci_emul_init` with
the calls a `pe_init` makes, and `init_pci`. A `pe_init` is the list of its calls.
-/

set_option autoImplicit false

namespace DeviceModel.PciEmul

open SearchTree Mem Fallible

variable {T : PciTree}

def PCI_EMUL_IOBASE : BitVec 64 := 0x2000
def PCI_EMUL_IOLIMIT : BitVec 64 := 0x10000
def PCI_EMUL_ECFG_BASE : BitVec 64 := 0xFDC00000
def MAXBUSES : Nat := 256
def PCI_EMUL_ECFG_SIZE : Nat := MAXBUSES * 1024 * 2
def PCI_EMUL_MEMBASE32 : BitVec 64 := 0xfdb10000
def PCI_EMUL_MEMLIMIT32 : BitVec 64 := PCI_EMUL_ECFG_BASE
def PCI_EMUL_MEMBASE64 : BitVec 64 := 0xD000000000
def PCI_EMUL_MEMLIMIT64 : BitVec 64 := 0xFD00000000
def BUSIO_ROUNDUP : BitVec 64 := 32
def BUSMEM_ROUNDUP : BitVec 64 := 1024 * 1024
def PCIM_BAR_MEM_BASE : BitVec 64 := 0xfffffffffffffff0
def PCIM_BAR_IO_BASE : BitVec 64 := 0xfffffffc
def PCIM_BAR_IO_SPACE : BitVec 64 := 0x1
def PCIM_BAR_MEM_64 : BitVec 64 := 0x4
def PCIM_BAR_MEM_PREFETCH : BitVec 64 := 0x8

def roundup2 (x y : BitVec 64) : BitVec 64 := (x + (y - 1)) &&& ~~~(y - 1)

/-- The base and the new value of `*baseptr`, `none` for the return value -1. -/
def pciEmulAllocResource (baseptr limit size : BitVec 64) :
    Except Fault (Option (BitVec 64 × BitVec 64)) :=
  if size &&& (size - 1) ≠ 0 then .error .allocResourceSize
  else
    let base := roundup2 baseptr size
    .ok (if base + size ≤ limit then some (base, base + size) else none)

/-- Where `baseptr` points in `pci_emul_alloc_pbar`. -/
inductive Baseptr where
  | iobase
  | membase32
  | membase64
  | hostbase

def Baseptr.get (s : Pci T) (host : BitVec 64) : Baseptr → BitVec 64
  | .iobase => s.pciEmulIobase
  | .membase32 => s.pciEmulMembase32
  | .membase64 => s.pciEmulMembase64
  | .hostbase => host

def Baseptr.set (s : Pci T) (val : BitVec 64) : Baseptr → Pci T
  | .iobase => { s with pciEmulIobase := val }
  | .membase32 => { s with pciEmulMembase32 := val }
  | .membase64 => { s with pciEmulMembase64 := val }
  | .hostbase => s

/-- The size rounded up to a power of two, and to what the PCI standard asks for. -/
def barSize (type : PcibarType) (size : BitVec 64) : BitVec 64 :=
  let size := if size &&& (size - 1) ≠ 0 then (1 : BitVec 64) <<< (size.toNat.log2 + 1) else size
  if type = .io then (if size < 4 then 4 else size) else if size < 16 then 16 else size

/-- `baseptr`, `limit`, `mask` and `lobits`, as the switch on the type sets them. -/
def barPool (type : PcibarType) (size : BitVec 64) :
    Except Fault (Option (Baseptr × BitVec 64) × BitVec 64 × BitVec 64) :=
  match type with
  | .none => .ok (none, 0, 0)
  | .io => .ok (some (.iobase, PCI_EMUL_IOLIMIT), PCIM_BAR_IO_BASE, PCIM_BAR_IO_SPACE)
  | .mem32 => .ok (some (.membase32, PCI_EMUL_MEMLIMIT32), PCIM_BAR_MEM_BASE, 0)
  | .mem64 =>
    if size > 32 * 1024 * 1024 then
      .ok (some (if size = 0x100000000 then .hostbase else .membase64, PCI_EMUL_MEMLIMIT64),
        PCIM_BAR_MEM_BASE, PCIM_BAR_MEM_64 ||| PCIM_BAR_MEM_PREFETCH)
    else .ok (some (.membase32, PCI_EMUL_MEMLIMIT32), PCIM_BAR_MEM_BASE, PCIM_BAR_MEM_64)
  | .memhi64 => .error .allocPbarArgument

/-- The BAR and its dwords, as the tail of `pci_emul_alloc_pbar` fills them in. -/
def writeBar (pdi : PciDevinst) (idx : Nat) (type : PcibarType) (addr size bar : BitVec 64) :
    PciDevinst :=
  let pdi := (pdi.setBar idx ⟨type, size, addr⟩).pciSetCfgdata32 (PCIR_BAR idx) (bar.setWidth 32)
  if type = .mem64 then
    let high : Pcibar := { pdi.piBar (idx + 1) with type := .memhi64 }
    (pdi.setBar (idx + 1) high).pciSetCfgdata32 (PCIR_BAR (idx + 1)) ((bar >>> 32).setWidth 32)
  else pdi

def setupBar (s : Pci T) (pdi : PciDevinst) (idx : Nat) (type : PcibarType)
    (addr size mask lobits : BitVec 64) : Except Fault (PciDevinst × Pci T) := do
  assertThat (type = .mem64 → idx + 1 ≤ PCI_BARMAX) .allocPbarArgument
  let pdi := writeBar pdi idx type addr size ((addr &&& mask) ||| lobits)
  let m ← registerBar pdi s.registry idx
  pure (pdi, { s with registry := m })

/-- When no room is left in the pool, -1 is returned and nothing has changed. -/
def pciEmulAllocPbar (s : Pci T) (pdi : PciDevinst) (idx : Nat) (hostbase : BitVec 64)
    (type : PcibarType) (size : BitVec 64) : Except Fault (PciDevinst × Pci T) :=
  if PCI_BARMAX < idx then .error .allocPbarArgument
  else do
    let size := barSize type size
    let (pool, mask, lobits) ← barPool type size
    match pool with
    | none => setupBar s pdi idx type 0 size mask lobits
    | some (baseptr, limit) =>
      match ← pciEmulAllocResource (baseptr.get s hostbase) limit size with
      | none => pure (pdi, s)
      | some (addr, top) => setupBar (baseptr.set s top) pdi idx type addr size mask lobits

/-- The pin of the slot with the fewest users, the first of several. -/
def bestPin (iiCount : Nat → Nat) : Nat :=
  [1, 2, 3].foldl (fun best pin => if iiCount pin < iiCount best then pin else best) 0

def pciLintrRequest (s : Pci T) (pi : PciDevinst) : PciDevinst × Pci T :=
  let counts := s.iiCount pi.bdf.bus pi.bdf.slot
  let best := bestPin counts
  let counts := Function.update counts best (counts best + 1)
  let slots := Function.update (s.iiCount pi.bdf.bus) pi.bdf.slot counts
  (({ pi with lintrPin := best + 1 } : PciDevinst).pciSetCfgdata8 PCIR_INTPIN
      (BitVec.ofNat 8 (best + 1)),
    { s with iiCount := Function.update s.iiCount pi.bdf.bus slots })

/-- `pirq_alloc_pin` answers pin 1, and `pirq_irq` answers 0 for every pin. -/
def pciLintrRoute (pi : PciDevinst) : PciDevinst :=
  if pi.lintrPin = 0 then pi else pi.pciSetCfgdata8 PCIR_INTLINE 0

/-- A call that a `pe_init` makes on its instance; what the calls return is not looked at. -/
inductive InitCall where
  | pciSetCfgdata8 (offset : Nat) (val : BitVec 8)
  | pciSetCfgdata16 (offset : Nat) (val : BitVec 16)
  | pciEmulAddCapability (capdata : List (BitVec 8))
  | pciEmulAllocPbar (idx : Nat) (hostbase : BitVec 64) (type : PcibarType) (size : BitVec 64)
  | pciLintrRequest

def InitCall.step (x : PciDevinst × Pci T) : InitCall → Except Fault (PciDevinst × Pci T)
  | pciSetCfgdata8 offset val => .ok (x.1.pciSetCfgdata8 offset val, x.2)
  | pciSetCfgdata16 offset val => .ok (x.1.pciSetCfgdata16 offset val, x.2)
  | pciEmulAddCapability capdata =>
    (x.1.pciEmulAddCapability capdata).map fun pi => (pi.getD x.1, x.2)
  | pciEmulAllocPbar idx hostbase type size =>
    PciEmul.pciEmulAllocPbar x.2 x.1 idx hostbase type size
  | pciLintrRequest => .ok (PciEmul.pciLintrRequest x.2 x.1)

/-- One function of a bus: where it sits, and its `pe_init`. -/
structure FuncInfo where
  bdf : Bdf
  peInit : List InitCall

def initFunc (s : Pci T) (fi : FuncInfo) : Except Fault (Pci T) := do
  let (pdi, s) ← Fallible.run InitCall.step (pciEmulInit fi.bdf, s) fi.peInit
  pure (s.setDevi pdi)

/-- One round of the bus loop of `init_pci`, slop included. -/
def initBus (s : Pci T) (bus : List FuncInfo) : Except Fault (Pci T) := do
  let s ← Fallible.run initFunc s bus
  pure { s with
    pciEmulIobase := roundup2 (s.pciEmulIobase + BUSIO_ROUNDUP) BUSIO_ROUNDUP
    pciEmulMembase32 := roundup2 (s.pciEmulMembase32 + BUSMEM_ROUNDUP) BUSMEM_ROUNDUP
    pciEmulMembase64 := roundup2 (s.pciEmulMembase64 + BUSMEM_ROUNDUP) BUSMEM_ROUNDUP }

def ecfgRange : PciRange where
  name := .pciEcfg
  flags := MEM_F_RW ||| MEM_F_IMMUTABLE
  handler := .pciEmulEcfgHandler
  arg1 := none
  arg2 := 0
  base := PCI_EMUL_ECFG_BASE.toNat
  size := PCI_EMUL_ECFG_SIZE

/-- `init_mem`, and the state in which `init_pci` enters its loops. -/
def initState (T : PciTree) : Pci T where
  fiDevi _ := none
  registry := ⟨initMem T, 0⟩
  pciEmulIobase := PCI_EMUL_IOBASE
  pciEmulMembase32 := PCI_EMUL_MEMBASE32
  pciEmulMembase64 := PCI_EMUL_MEMBASE64
  iiCount _ _ _ := 0

/-- `init_pci` over the buses that `pci_businfo` lists. -/
def initPci (T : PciTree) (buses : List (List FuncInfo)) : Except Fault (Pci T) := do
  let s ← Fallible.run initBus (initState T) buses
  let s := { s with fiDevi := fun bdf => (s.fiDevi bdf).map pciLintrRoute }
  let (error, m) := s.registry.registerMem ecfgRange
  if error = 0 then pure { s with registry := m } else throw .initPciEcfg

/-- `e82545_init`, as far as configuration space and BARs go. -/
def e82545Init : List InitCall :=
  [.pciSetCfgdata16 PCIR_DEVICE 0x100F, .pciSetCfgdata16 PCIR_VENDOR 0x8086,
    .pciSetCfgdata8 PCIR_CLASS 0x02, .pciSetCfgdata8 PCIR_SUBCLASS 0x00,
    .pciSetCfgdata16 PCIR_SUBDEV_0 0x1008, .pciSetCfgdata16 PCIR_SUBVEND_0 0x8086,
    .pciSetCfgdata8 PCIR_HDRTYPE 0x00, .pciSetCfgdata8 PCIR_INTPIN 0x1, .pciLintrRequest,
    .pciEmulAllocPbar 0 0 .mem32 (128 * 1024), .pciEmulAllocPbar 1 0 .mem32 (64 * 1024),
    .pciEmulAllocPbar 2 0 .io 8]

/-- `pci_ahci_init` for `sc->ports = 6`, which advertises eight messages. -/
def pciAhciInit : List InitCall :=
  [.pciSetCfgdata16 PCIR_DEVICE 0x2821, .pciSetCfgdata16 PCIR_VENDOR 0x8086,
    .pciSetCfgdata8 PCIR_CLASS 0x01, .pciSetCfgdata8 PCIR_SUBCLASS 0x06,
    .pciSetCfgdata8 PCIR_PROGIF 0x01, .pciEmulAddCapability (PciDevinst.pciPopulateMsicap 3),
    .pciEmulAllocPbar 5 0 .mem32 (0x100 + 6 * 0x80), .pciLintrRequest]

/-- An e1000 at 0/0/0 and an AHCI disk controller at 0/1/0. -/
def bhyvePciBuses : List (List FuncInfo) :=
  [[⟨⟨0, 0, 0⟩, e82545Init⟩, ⟨⟨0, 1, 0⟩, pciAhciInit⟩]]

abbrev unbalancedTree : PciTree := .unbalanced _

def bhyvePciInit (T : PciTree) : Except Fault (Pci T) := initPci T bhyvePciBuses

end DeviceModel.PciEmul

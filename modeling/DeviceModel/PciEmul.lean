import DeviceModel.Lib.Fallible
import DeviceModel.Mem
import DeviceModel.PciDevinst

/-!
# Functions, BARs and configuration accesses

The part of `bhyve/pci_emul.c` that ties devices to the MMIO registry: BAR
allocation, `modify_bar_registration`, and `pci_cfgrw` with everything it calls.
`register_inout` and `unregister_inout` do nothing and return 0 in this port,
and the two devices set no `pe_cfgread` and no `pe_cfgwrite`. Nodes come from an
allocator that has memory: `brk` is the next address it hands out.
-/

set_option autoImplicit false

namespace DeviceModel.PciEmul

open SearchTree Mem

/-- The string a `mem_range` points to: a device's `pi_name`, or `"PCI ECFG"`. -/
inductive MemName where
  | piName (bdf : Bdf)
  | pciEcfg
deriving DecidableEq

inductive MemHandler where
  | null
  | pciEmulMemHandler
  | pciEmulEcfgHandler
deriving DecidableEq

/-- `arg1` is the device, `none` for `NULL`. -/
abbrev PciRange := MemRange MemName MemHandler (Option Bdf)

abbrev PciTree := BalancedTree (MmioRbRange MemName MemHandler (Option Bdf))

variable {T : PciTree}

structure Registry (T : PciTree) where
  mem : Mmio T
  brk : Ptr

namespace Registry

def registerMem (m : Registry T) (memp : PciRange) : Nat × Registry T :=
  let r := m.mem.registerMem memp (some m.brk)
  (r.1, ⟨r.2, m.brk + 1⟩)

def unregisterMem (m : Registry T) (memp : PciRange) : Except Fault (Nat × Registry T) :=
  (m.mem.unregisterMem memp).map fun r => (r.1, ⟨r.2, m.brk⟩)

end Registry

namespace PciDevinst

/-- `mr` as `modify_bar_registration` fills it in to register a memory BAR. -/
def window (pi : PciDevinst) (idx : Nat) : PciRange where
  name := .piName pi.bdf
  flags := MEM_F_RW
  handler := .pciEmulMemHandler
  arg1 := some pi.bdf
  arg2 := idx
  base := (pi.piBar idx).addr.toNat
  size := (pi.piBar idx).size.toNat

/-- `mr` as `modify_bar_registration` fills it in to unregister one: the rest stays zero. -/
def windowOff (pi : PciDevinst) (idx : Nat) : PciRange where
  name := .piName pi.bdf
  flags := 0
  handler := .null
  arg1 := none
  arg2 := 0
  base := (pi.piBar idx).addr.toNat
  size := (pi.piBar idx).size.toNat

def setBar (pi : PciDevinst) (idx : Nat) (bar : Pcibar) : PciDevinst :=
  { pi with piBar := Function.update pi.piBar idx bar }

def setBarAddr (pi : PciDevinst) (idx : Nat) (addr : BitVec 64) : PciDevinst :=
  pi.setBar idx { pi.piBar idx with addr := addr }

end PciDevinst

def modifyBarRegistration (pi : PciDevinst) (m : Registry T) (idx : Nat) (registration : Bool) :
    Except Fault (Registry T) :=
  match (pi.piBar idx).type with
  | .io => .ok m
  | .mem32 | .mem64 => do
    let r ← if registration then pure (m.registerMem (pi.window idx))
      else m.unregisterMem (pi.windowOff idx)
    if r.1 = 0 then pure r.2 else throw .modifyBarRegistration
  | .none | .memhi64 => .error .modifyBarRegistration

def unregisterBar (pi : PciDevinst) (m : Registry T) (idx : Nat) : Except Fault (Registry T) :=
  modifyBarRegistration pi m idx false

def registerBar (pi : PciDevinst) (m : Registry T) (idx : Nat) : Except Fault (Registry T) :=
  modifyBarRegistration pi m idx true

/-- The switch of `update_bar_address`: a 64-bit BAR moves one half at a time. -/
def updatedAddr (old addr : BitVec 64) : PcibarType → Except Fault (BitVec 64)
  | .io | .mem32 => .ok addr
  | .mem64 => .ok ((old &&& ~~~0xffffffff) ||| addr)
  | .memhi64 => .ok ((old &&& 0xffffffff) ||| addr)
  | .none => .error .updateBarAddressType

def updateBarAddress (pi : PciDevinst) (m : Registry T) (addr : BitVec 64) (idx : Nat)
    (type : PcibarType) : Except Fault (PciDevinst × Registry T) := do
  let decode := if (pi.piBar idx).type = .io then pi.porten else pi.memen
  let m ← if decode then unregisterBar pi m idx else pure m
  let addr ← updatedAddr (pi.piBar idx).addr addr type
  let pi := pi.setBarAddr idx addr
  let m ← if decode then registerBar pi m idx else pure m
  pure (pi, m)

/-- One round of the loop at the end of `pci_emul_cmdsts_write`. -/
def decodeBar (pi : PciDevinst) (changed : BitVec 16) (m : Registry T) (i : Nat) :
    Except Fault (Registry T) :=
  match (pi.piBar i).type with
  | .none | .memhi64 => .ok m
  | .io =>
    if changed &&& PCIM_CMD_PORTEN ≠ 0 then
      if pi.porten then registerBar pi m i else unregisterBar pi m i
    else .ok m
  | .mem32 | .mem64 =>
    if changed &&& PCIM_CMD_MEMEN ≠ 0 then
      if pi.memen then registerBar pi m i else unregisterBar pi m i
    else .ok m

def bars : List Nat := List.range (PCI_BARMAX + 1)

def pciEmulCmdstsWrite (pi : PciDevinst) (m : Registry T) (coff : Nat) (new : BitVec 32)
    (bytes : Nat) : Except Fault (PciDevinst × Registry T) := do
  let cmd := pi.pciGetCfgdata16 PCIR_COMMAND
  let readonly : BitVec 32 := 0xFFFFF880 >>> (coff % 4 * 8)
  let old ← pi.cfgRead coff bytes
  let pi ← pi.cfgWrite coff ((new &&& ~~~readonly) ||| (old &&& readonly)) bytes
  let changed := cmd ^^^ pi.pciGetCfgdata16 PCIR_COMMAND
  let m ← Fallible.run (decodeBar pi changed) m bars
  pure (pi.pciLintrUpdate, m)

/-- The BAR is moved only if the address it decodes has changed. -/
def moveBar (pi : PciDevinst) (m : Registry T) (changed : Bool) (addr : BitVec 64) (idx : Nat)
    (type : PcibarType) : Except Fault (PciDevinst × Registry T) :=
  if changed then updateBarAddress pi m addr idx type else .ok (pi, m)

/-- The BAR branch of `pci_cfgrw`, for an aligned 4-byte write. Every arm ends in the
`pci_set_cfgdata32` that follows the switch. -/
def barWrite (pi : PciDevinst) (m : Registry T) (coff : Nat) (eax : BitVec 32) :
    Except Fault (PciDevinst × Registry T) :=
  let idx := (coff - PCIR_BAR 0) / 4
  let bar := pi.piBar idx
  let addr := eax.setWidth 64 &&& ~~~(bar.size - 1)
  match bar.type with
  | .none => .ok ((pi.setBarAddr idx 0).pciSetCfgdata32 coff 0, m)
  | .io => do
    let addr := addr &&& 0xffff
    let r ← moveBar pi m (addr ≠ bar.addr) addr idx .io
    pure (r.1.pciSetCfgdata32 coff ((addr ||| 0x1).setWidth 32), r.2)
  | .mem32 => do
    let r ← moveBar pi m (addr ≠ bar.addr) addr idx .mem32
    pure (r.1.pciSetCfgdata32 coff (addr.setWidth 32), r.2)
  | .mem64 => do
    let r ← moveBar pi m (addr ≠ (bar.addr.setWidth 32).setWidth 64) addr idx .mem64
    pure (r.1.pciSetCfgdata32 coff ((addr ||| 0xc).setWidth 32), r.2)
  | .memhi64 => do
    let low := pi.piBar (idx - 1)
    let addr := (eax.setWidth 64 <<< 32) &&& ~~~(low.size - 1)
    let r ← moveBar pi m (addr >>> 32 ≠ low.addr >>> 32) addr (idx - 1) .memhi64
    pure (r.1.pciSetCfgdata32 coff ((addr >>> 32).setWidth 32), r.2)

/-- The write half of `pci_cfgrw` once the device is found and `coff` is a header offset. -/
def pciCfgwrite (pi : PciDevinst) (m : Registry T) (coff bytes : Nat) (eax : BitVec 32) :
    Except Fault (PciDevinst × Registry T) :=
  if PCIR_BAR 0 ≤ coff ∧ coff < PCIR_BAR (PCI_BARMAX + 1) then
    if bytes ≠ 4 ∨ coff % 4 ≠ 0 then .ok (pi, m) else barWrite pi m coff eax
  else if pi.pciEmulIscap coff then do
    let pi ← pi.pciEmulCapwrite coff bytes eax
    pure (pi, m)
  else if PCIR_COMMAND ≤ coff ∧ coff < PCIR_REVID then pciEmulCmdstsWrite pi m coff eax bytes
  else do
    let pi ← pi.cfgWrite coff eax bytes
    pure (pi, m)

/-- The devices behind `pci_businfo`, the registry and the resource pools. -/
structure Pci (T : PciTree) where
  fiDevi : Bdf → Option PciDevinst
  registry : Registry T
  pciEmulIobase : BitVec 64
  pciEmulMembase32 : BitVec 64
  pciEmulMembase64 : BitVec 64
  /-- `si_intpins[pin].ii_count` of a bus and slot -/
  iiCount : Nat → Nat → Nat → Nat

namespace Pci

def setDevi (s : Pci T) (pi : PciDevinst) : Pci T :=
  { s with fiDevi := Function.update s.fiDevi pi.bdf (some pi) }

def pciEmulIsMfdev (s : Pci T) (bus slot : Nat) : Bool :=
  1 < ((List.range 8).filter fun f => (s.fiDevi ⟨bus, slot, f⟩).isSome).length

def pciEmulHdrtypeFixup (s : Pci T) (bus slot off bytes : Nat) (rv : BitVec 32) : BitVec 32 :=
  if off ≤ PCIR_HDRTYPE ∧ off + bytes > PCIR_HDRTYPE then
    let mfdev := if bytes = 4 then PCIM_MFDEV <<< 16 else PCIM_MFDEV
    if s.pciEmulIsMfdev bus slot then (rv &&& ~~~mfdev) ||| mfdev else rv &&& ~~~mfdev
  else rv

/-- `pci_cfgrw`: the value left in `*eax`, and the state. -/
def pciCfgrw (s : Pci T) (isRead : Bool) (bdf : Bdf) (coff bytes : Nat) (eax : BitVec 32) :
    Except Fault (BitVec 32 × Pci T) :=
  match s.fiDevi bdf with
  | none => .ok (if isRead then 0xffffffff else eax, s)
  | some pi =>
    if bytes ≠ 1 ∧ bytes ≠ 2 ∧ bytes ≠ 4 ∨ coff % bytes ≠ 0 then
      .ok (if isRead then 0xffffffff else eax, s)
    else if PCI_REGMAX + 1 ≤ coff then
      .ok (if isRead then (if coff ≤ PCI_REGMAX + 4 then 0 else 0xffffffff) else eax, s)
    else if isRead then do
      let val ← pi.cfgRead coff bytes
      pure (s.pciEmulHdrtypeFixup bdf.bus bdf.slot coff bytes val, s)
    else do
      let (pi, m) ← pciCfgwrite pi s.registry coff bytes eax
      pure (eax, { s.setDevi pi with registry := m })

end Pci

end DeviceModel.PciEmul

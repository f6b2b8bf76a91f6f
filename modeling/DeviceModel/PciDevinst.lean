import DeviceModel.Fault
import DeviceModel.Lib.Fallible
import Mathlib.Logic.Function.Basic

/-!
# A PCI device instance and its configuration space

The part of `bhyve/pci_emul.c` that stays inside one `struct pci_devinst`: the
accessors of `pci_emul.h`, the INTx line, and capabilities. Multi-byte accessors
store through `uint16_t *` and `uint32_t *` on a big-endian target, so the byte
of lowest address is the most significant one. The accessors assert that their
offset is in range and aligned; `CfgAccess` is that assertion, checked by
`cfgRead` and `cfgWrite` and taken for granted at constant offsets.
-/

set_option autoImplicit false

namespace DeviceModel.PciEmul

open Fallible

def PCI_REGMAX : Nat := 255
def PCI_BARMAX : Nat := 5
def PCIR_VENDOR : Nat := 0x00
def PCIR_DEVICE : Nat := 0x02
def PCIR_COMMAND : Nat := 0x04
def PCIR_STATUS : Nat := 0x06
def PCIR_REVID : Nat := 0x08
def PCIR_PROGIF : Nat := 0x09
def PCIR_SUBCLASS : Nat := 0x0a
def PCIR_CLASS : Nat := 0x0b
def PCIR_HDRTYPE : Nat := 0x0e
def PCIR_SUBVEND_0 : Nat := 0x2c
def PCIR_SUBDEV_0 : Nat := 0x2e
def PCIR_CAP_PTR : Nat := 0x34
def PCIR_INTLINE : Nat := 0x3c
def PCIR_INTPIN : Nat := 0x3d
def PCIR_BAR (idx : Nat) : Nat := 0x10 + 4 * idx
def PCIM_CMD_PORTEN : BitVec 16 := 0x0001
def PCIM_CMD_MEMEN : BitVec 16 := 0x0002
def PCIM_CMD_BUSMASTEREN : BitVec 16 := 0x0004
def PCIM_CMD_INTxDIS : BitVec 16 := 0x0400
def PCIM_STATUS_CAPPRESENT : BitVec 16 := 0x0010
def PCIM_MFDEV : BitVec 32 := 0x80
def PCIY_MSI : BitVec 8 := 0x05
def PCIY_EXPRESS : BitVec 8 := 0x10
def PCIY_MSIX : BitVec 8 := 0x11
def PCIM_MSICTRL_64BIT : BitVec 16 := 0x0080
def PCIM_MSICTRL_MME_MASK : BitVec 16 := 0x0070
def PCIM_MSICTRL_MSI_ENABLE : BitVec 16 := 0x0001
def PCIM_MSIXCTRL_MSIX_ENABLE : BitVec 16 := 0x8000
def PCIM_MSIXCTRL_FUNCTION_MASK : BitVec 16 := 0x4000
def CAP_START_OFFSET : Nat := 0x40

structure Bdf where
  bus : Nat
  slot : Nat
  func : Nat
deriving DecidableEq

inductive PcibarType where
  | none
  | io
  | mem32
  | mem64
  | memhi64
deriving DecidableEq

structure Pcibar where
  type : PcibarType
  size : BitVec 64
  addr : BitVec 64

inductive LintrStat where
  | idle
  | asserted
  | pending
deriving DecidableEq

structure PiMsi where
  enabled : Bool
  addr : BitVec 64
  msgData : BitVec 64
  maxmsgnum : Nat

/-- `pi_msix`, as far as configuration writes reach it -/
structure PiMsix where
  enabled : Bool
  functionMask : Bool

/-- `struct pci_devinst`; `irq` is the wire that `pci_irq_assert` drives. -/
structure PciDevinst where
  bdf : Bdf
  piPrevcap : Nat
  piCapend : Nat
  lintrPin : Nat
  lintrState : LintrStat
  irq : Bool
  piMsi : PiMsi
  piMsix : PiMsix
  piCfgdata : Nat → BitVec 8
  piBar : Nat → Pcibar

namespace PciDevinst

variable (pi : PciDevinst)

/-- What the accessors assert of an access of `bytes` bytes at `offset`. -/
def CfgAccess (offset bytes : Nat) : Prop := offset + bytes ≤ PCI_REGMAX + 1 ∧ offset % bytes = 0

instance (offset bytes : Nat) : Decidable (CfgAccess offset bytes) :=
  inferInstanceAs (Decidable (_ ∧ _))

def pciSetCfgdata8 (offset : Nat) (val : BitVec 8) : PciDevinst :=
  { pi with piCfgdata := Function.update pi.piCfgdata offset val }

def pciSetCfgdata16 (offset : Nat) (val : BitVec 16) : PciDevinst :=
  (pi.pciSetCfgdata8 offset (val.extractLsb' 8 8)).pciSetCfgdata8 (offset + 1) (val.extractLsb' 0 8)

def pciSetCfgdata32 (offset : Nat) (val : BitVec 32) : PciDevinst :=
  (pi.pciSetCfgdata16 offset (val.extractLsb' 16 16)).pciSetCfgdata16 (offset + 2)
    (val.extractLsb' 0 16)

def pciGetCfgdata8 (offset : Nat) : BitVec 8 := pi.piCfgdata offset

def pciGetCfgdata16 (offset : Nat) : BitVec 16 :=
  pi.pciGetCfgdata8 offset ++ pi.pciGetCfgdata8 (offset + 1)

def pciGetCfgdata32 (offset : Nat) : BitVec 32 :=
  pi.pciGetCfgdata16 offset ++ pi.pciGetCfgdata16 (offset + 2)

def cfgRead (coff bytes : Nat) : Except Fault (BitVec 32) :=
  if CfgAccess coff bytes then
    .ok (if bytes = 1 then (pi.pciGetCfgdata8 coff).setWidth 32
      else if bytes = 2 then (pi.pciGetCfgdata16 coff).setWidth 32
      else pi.pciGetCfgdata32 coff)
  else .error .cfgdataAccess

def cfgWrite (coff : Nat) (val : BitVec 32) (bytes : Nat) : Except Fault PciDevinst :=
  if CfgAccess coff bytes then
    .ok (if bytes = 1 then pi.pciSetCfgdata8 coff (val.setWidth 8)
      else if bytes = 2 then pi.pciSetCfgdata16 coff (val.setWidth 16)
      else pi.pciSetCfgdata32 coff val)
  else .error .cfgdataAccess

def porten : Bool := pi.pciGetCfgdata16 PCIR_COMMAND &&& PCIM_CMD_PORTEN ≠ 0

def memen : Bool := pi.pciGetCfgdata16 PCIR_COMMAND &&& PCIM_CMD_MEMEN ≠ 0

def pciLintrPermitted : Bool :=
  !(pi.piMsi.enabled || pi.piMsix.enabled ||
    decide (pi.pciGetCfgdata16 PCIR_COMMAND &&& PCIM_CMD_INTxDIS ≠ 0))

def pciLintrUpdate : PciDevinst :=
  if pi.lintrState = .asserted ∧ pi.pciLintrPermitted = false then
    { pi with irq := false, lintrState := .pending }
  else if pi.lintrState = .pending ∧ pi.pciLintrPermitted = true then
    { pi with lintrState := .asserted, irq := true }
  else pi

def pciLintrAssert : Except Fault PciDevinst := do
  assertThat (0 < pi.lintrPin) .lintrPin
  if pi.lintrState = .idle then
    if pi.pciLintrPermitted then pure { pi with lintrState := .asserted, irq := true }
    else pure { pi with lintrState := .pending }
  else pure pi

def pciLintrDeassert : Except Fault PciDevinst := do
  assertThat (0 < pi.lintrPin) .lintrPin
  match pi.lintrState with
  | .asserted => pure { pi with lintrState := .idle, irq := false }
  | .pending => pure { pi with lintrState := .idle }
  | .idle => pure pi

def msixcapCfgwrite (capoff offset bytes : Nat) (val : BitVec 32) : Except Fault PciDevinst :=
  if offset = capoff + 2 ∧ bytes = 2 then do
    let rwmask := PCIM_MSIXCTRL_MSIX_ENABLE ||| PCIM_MSIXCTRL_FUNCTION_MASK
    assertThat (CfgAccess offset 2) .cfgdataAccess
    let msgctrl := (pi.pciGetCfgdata16 offset &&& ~~~rwmask) ||| (val.setWidth 16 &&& rwmask)
    let pi := { pi with piMsix := {
      enabled := msgctrl &&& PCIM_MSIXCTRL_MSIX_ENABLE ≠ 0
      functionMask := msgctrl &&& PCIM_MSIXCTRL_FUNCTION_MASK ≠ 0 } }
    pi.pciLintrUpdate.cfgWrite offset (msgctrl.setWidth 32) bytes
  else pi.cfgWrite offset val bytes

def msicapCfgwrite (capoff offset bytes : Nat) (val : BitVec 32) : Except Fault PciDevinst :=
  if offset = capoff + 2 ∧ bytes = 2 then do
    let rwmask := PCIM_MSICTRL_MME_MASK ||| PCIM_MSICTRL_MSI_ENABLE
    assertThat (CfgAccess offset 2) .cfgdataAccess
    let msgctrl := (pi.pciGetCfgdata16 offset &&& ~~~rwmask) ||| (val.setWidth 16 &&& rwmask)
    assertThat (CfgAccess (capoff + 4) 4) .cfgdataAccess
    let addrlo := pi.pciGetCfgdata32 (capoff + 4)
    let dataoff := if msgctrl &&& PCIM_MSICTRL_64BIT ≠ 0 then capoff + 12 else capoff + 8
    assertThat (CfgAccess dataoff 2) .cfgdataAccess
    let msgdata := pi.pciGetCfgdata16 dataoff
    let mme := msgctrl &&& PCIM_MSICTRL_MME_MASK
    let piMsi : PiMsi :=
      if msgctrl &&& PCIM_MSICTRL_MSI_ENABLE ≠ 0 then
        ⟨true, addrlo.setWidth 64, msgdata.setWidth 64, 1 <<< (mme.toNat >>> 4)⟩
      else { pi.piMsi with enabled := false, maxmsgnum := 0 }
    ({ pi with piMsi := piMsi } : PciDevinst).pciLintrUpdate.cfgWrite offset (msgctrl.setWidth 32)
      bytes
  else pi.cfgWrite offset val bytes

def pciecapCfgwrite (offset bytes : Nat) (val : BitVec 32) : Except Fault PciDevinst :=
  pi.cfgWrite offset val bytes

/-- The search loop of `pci_emul_capwrite`. Its only state is the 8-bit `capoff`,
so a search that outlasts 256 rounds never ends. -/
def capSearch (offset : Nat) : Nat → Nat → Except Fault Nat
  | 0, _ => .error .capwriteSearch
  | fuel + 1, capoff =>
    if ¬ CfgAccess (capoff + 1) 1 then .error .cfgdataAccess
    else
      let nextoff := (pi.pciGetCfgdata8 (capoff + 1)).toNat
      if nextoff = 0 ∨ capoff ≤ offset ∧ offset < nextoff then .ok capoff
      else capSearch offset fuel nextoff

/-- The last part of `pci_emul_capwrite`: hand the write to the capability found. -/
def capDispatch (capoff offset bytes : Nat) (val : BitVec 32) : Except Fault PciDevinst :=
  let capid := pi.pciGetCfgdata8 capoff
  if capid = PCIY_MSI then pi.msicapCfgwrite capoff offset bytes val
  else if capid = PCIY_MSIX then pi.msixcapCfgwrite capoff offset bytes val
  else if capid = PCIY_EXPRESS then pi.pciecapCfgwrite offset bytes val
  else .ok pi

def pciEmulCapwrite (offset bytes : Nat) (val : BitVec 32) : Except Fault PciDevinst :=
  if offset % bytes ≠ 0 then .ok pi
  else do
    let capoff ← pi.capSearch offset 256 CAP_START_OFFSET
    assertThat (capoff ≤ offset) .capwriteOffset
    -- the ID and the next pointer are read-only: a 4-byte write loses its first half
    if offset = capoff ∨ offset = capoff + 1 then
      if offset = capoff ∧ bytes = 4 then pi.capDispatch capoff (offset + 2) 2 (val >>> 16)
      else pure pi
    else pi.capDispatch capoff offset bytes val

def pciEmulIscap (offset : Nat) : Bool :=
  pi.pciGetCfgdata16 PCIR_STATUS &&& PCIM_STATUS_CAPPRESENT ≠ 0 ∧
    CAP_START_OFFSET ≤ offset ∧ offset ≤ pi.piCapend

def setBytes (offset : Nat) : List (BitVec 8) → PciDevinst → PciDevinst
  | [], pi => pi
  | b :: bs, pi => setBytes (offset + 1) bs (pi.pciSetCfgdata8 offset b)

/-- `none` stands for the return value -1. -/
def pciEmulAddCapability (capdata : List (BitVec 8)) : Except Fault (Option PciDevinst) :=
  let reallen := (capdata.length + 3) / 4 * 4
  let sts := pi.pciGetCfgdata16 PCIR_STATUS
  let present : Bool := sts &&& PCIM_STATUS_CAPPRESENT ≠ 0
  let capoff := if present then pi.piCapend + 1 else CAP_START_OFFSET
  if capdata.length = 0 then .error .addCapabilityLength
  else if capoff + reallen > PCI_REGMAX + 1 then .ok none
  else
    let pi :=
      if present then pi.pciSetCfgdata8 (pi.piPrevcap + 1) (BitVec.ofNat 8 capoff)
      else (pi.pciSetCfgdata8 PCIR_CAP_PTR (BitVec.ofNat 8 capoff)).pciSetCfgdata16 PCIR_STATUS
        (sts ||| PCIM_STATUS_CAPPRESENT)
    let pi := (setBytes capoff capdata pi).pciSetCfgdata8 (capoff + 1) 0
    .ok (some { pi with piPrevcap := capoff, piCapend := capoff + reallen - 1 })

/-- The 14 bytes of `struct msicap` that `pci_populate_msicap` fills in. -/
def pciPopulateMsicap (mmc : Nat) : List (BitVec 8) :=
  let msgctrl := PCIM_MSICTRL_64BIT ||| BitVec.ofNat 16 (mmc <<< 1)
  PCIY_MSI :: 0 :: msgctrl.extractLsb' 8 8 :: msgctrl.extractLsb' 0 8 :: List.replicate 10 0

end PciDevinst

/-- The instance as `pci_emul_init` builds it before it calls `pe_init`. The command byte is
stored at the lower address, which a 16-bit read takes for the high half. -/
def pciEmulInit (bdf : Bdf) : PciDevinst :=
  let pdi : PciDevinst :=
    { bdf, piPrevcap := 0, piCapend := 0, lintrPin := 0, lintrState := .idle, irq := false
      piMsi := ⟨false, 0, 0, 0⟩, piMsix := ⟨false, false⟩
      piCfgdata := fun _ => 0, piBar := fun _ => ⟨.none, 0, 0⟩ }
  ((pdi.pciSetCfgdata8 PCIR_INTLINE 255).pciSetCfgdata8 PCIR_INTPIN 0).pciSetCfgdata8 PCIR_COMMAND
    ((PCIM_CMD_PORTEN ||| PCIM_CMD_MEMEN ||| PCIM_CMD_BUSMASTEREN).setWidth 8)

end DeviceModel.PciEmul

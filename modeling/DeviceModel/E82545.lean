import DeviceModel.BhyveSupport
import DeviceModel.PciDevinst

/-!
# The e1000 network device: state and registers

The register interface of `bhyve/pci_e82545.c`, with register offsets and bits as
the e1000 headers give them. Mutexes are left out, and signalling a condition does
nothing in this port. Nothing counts packets: every statistics register reads as
the zero its counter starts with.
-/

set_option autoImplicit false

namespace DeviceModel.E82545

open Fallible PciEmul

def E1000_CTRL_RST : BitVec 32 := 0x04000000
def E1000_CTRL_VME : BitVec 32 := 0x40000000
def E1000_RCTL_EN : BitVec 32 := 0x00000002
def E1000_RCTL_LBM_TCVR : BitVec 32 := 0x000000C0
def E1000_TCTL_EN : BitVec 32 := 0x00000002
def E1000_RAH_AV : BitVec 32 := 0x80000000
def E1000_EECD_SK : BitVec 32 := 0x00000001
def E1000_EECD_CS : BitVec 32 := 0x00000002
def E1000_EECD_DI : BitVec 32 := 0x00000004
def E1000_EECD_DO : BitVec 32 := 0x00000008
def E1000_EECD_REQ : BitVec 32 := 0x00000040
def E1000_EECD_GNT : BitVec 32 := 0x00000080
def E1000_EECD_PRES : BitVec 32 := 0x00000100
def E82545_EECD_FWE_EN : BitVec 32 := 0x00000020
def E1000_MDIC_REG_MASK : BitVec 32 := 0x001F0000
def E1000_MDIC_OP_WRITE : BitVec 32 := 0x04000000
def E1000_MDIC_OP_READ : BitVec 32 := 0x08000000
def E1000_MDIC_READY : BitVec 32 := 0x10000000
def E1000_MDIC_ERROR : BitVec 32 := 0x40000000
def E1000_MDIC_DEST : BitVec 32 := 0x80000000
def E82545_MDIC_DATA_MASK : BitVec 32 := 0x0000FFFF
def E82545_MDIC_OP_MASK : BitVec 32 := 0x0c000000
def E82545_NVM_OPADDR_BITS : BitVec 6 := 9
def E82545_NVM_DATA_BITS : BitVec 6 := 16
def E82545_NVM_ADDR_MASK : BitVec 16 := 0x003F
def E82545_NVM_OPCODE_MASK : BitVec 16 := 0x01C0
def E82545_NVM_OPCODE_READ : BitVec 16 := 0x0180
def E82545_NVM_OPCODE_WRITE : BitVec 16 := 0x0140
def NVM_SUM : BitVec 16 := 0xBABA
def E82545_BAR_REGISTER : Nat := 0
def E82545_BAR_IO : Nat := 2
def E82545_IOADDR : BitVec 64 := 0
def E82545_IODATA : BitVec 64 := 4
def E82545_IO_REGISTER_MAX : BitVec 32 := 0x0001FFFF
def E82545_SUBDEV_ID : BitVec 16 := 0x1008
def E82545_VENDOR_ID_INTEL : BitVec 16 := 0x8086
def E82545_DEV_ID_82545EM_COPPER : BitVec 16 := 0x100F

/-- The registers of the switch in `e82545_write_register`. -/
inductive Reg where
  | ctrl | ctrlDup | status | eecd | mdic | fcal | fcah | fct | vet | icr | itr | ics | ims | imc
  | rctl | fcttv | txcw | tctl | tipg | ait | ledctl | pba | fcrtl | fcrth | rdbal | rdbah | rdlen
  | rdh | rdt | rdtr | rxdctl | radv | rsrpd | tdbal | tdbah | tdlen | tdh | tdt | tidv | txdctl
  | tadv | rxcsum | manc
  | mta (idx : Nat)
  | ra (ridx : Nat)
  | vfta (idx : Nat)
deriving DecidableEq

def regMap : List (BitVec 32 × Reg) :=
  [(0x0000, .ctrl), (0x0004, .ctrlDup), (0x0008, .status), (0x0010, .eecd), (0x0020, .mdic),
    (0x0028, .fcal), (0x002C, .fcah), (0x0030, .fct), (0x0038, .vet), (0x00C0, .icr), (0x00C4, .itr),
    (0x00C8, .ics), (0x00D0, .ims), (0x00D8, .imc), (0x0100, .rctl), (0x0170, .fcttv),
    (0x0178, .txcw), (0x0400, .tctl), (0x0410, .tipg), (0x0458, .ait), (0x0E00, .ledctl),
    (0x1000, .pba), (0x2160, .fcrtl), (0x2168, .fcrth), (0x2800, .rdbal), (0x2804, .rdbah),
    (0x2808, .rdlen), (0x2810, .rdh), (0x2818, .rdt), (0x2820, .rdtr), (0x2828, .rxdctl),
    (0x282C, .radv), (0x2C00, .rsrpd), (0x3800, .tdbal), (0x3804, .tdbah), (0x3808, .tdlen),
    (0x3810, .tdh), (0x3818, .tdt), (0x3820, .tidv), (0x3828, .txdctl), (0x382C, .tadv),
    (0x5000, .rxcsum), (0x5820, .manc)]

def E1000_MTA : BitVec 32 := 0x5200
def E1000_RAL0 : BitVec 32 := 0x5400
def E1000_RAH15 : BitVec 32 := 0x547C
def E1000_VFTA : BitVec 32 := 0x5600

def Reg.ofOffset (offset : BitVec 32) : Option Reg :=
  if E1000_MTA ≤ offset ∧ offset ≤ E1000_MTA + 127 * 4 then
    some (.mta ((offset - E1000_MTA) >>> 2).toNat)
  else if E1000_RAL0 ≤ offset ∧ offset ≤ E1000_RAH15 then
    some (.ra ((offset - E1000_RAL0) >>> 2).toNat)
  else if E1000_VFTA ≤ offset ∧ offset ≤ E1000_VFTA + 127 * 4 then
    some (.vfta ((offset - E1000_VFTA) >>> 2).toNat)
  else regMap.lookup offset

structure General where
  ctrl : BitVec 32
  fcal : BitVec 32
  fcah : BitVec 32
  fct : BitVec 32
  vet : BitVec 32
  fcttv : BitVec 32
  ledctl : BitVec 32
  pba : BitVec 32

/-- Interrupt control. `mevpitr` tells whether the pointer is set, `callout` is the delay of the
callout that is still to run. -/
structure Intr where
  escPi : PciDevinst
  irqAsserted : Bool
  icr : BitVec 32
  itr : BitVec 32
  ics : BitVec 32
  ims : BitVec 32
  imc : BitVec 32
  mevpitr : Bool
  callout : Option (BitVec 32)

/-- `union e1000_tx_udesc`, the words as they lie in memory. -/
structure TxDesc where
  addr : BitVec 64
  lower : BitVec 32
  upper : BitVec 32
deriving DecidableEq

/-- Transmit. `txdesc` is 0 for a null pointer, and so is `rxdesc` below. -/
structure Tx where
  txdesc : BitVec 64
  txctx : TxDesc
  txEnabled : Bool
  txActive : Bool
  txcw : BitVec 32
  tctl : BitVec 32
  tipg : BitVec 32
  ait : BitVec 16
  tdba : BitVec 64
  tdbal : BitVec 32
  tdbah : BitVec 32
  tdlen : BitVec 32
  tdh : BitVec 16
  tdhr : BitVec 16
  tdt : BitVec 16
  tidv : BitVec 32
  txdctl : BitVec 32
  tadv : BitVec 32

structure EthUni where
  euValid : Bool
  euAddrsel : BitVec 2
  euEth : Nat → BitVec 8

structure Filter where
  uni : Nat → EthUni
  fmcast : Nat → BitVec 32
  fvlan : Nat → BitVec 32

structure Rx where
  rxdesc : BitVec 64
  rxEnabled : Bool
  rxActive : Bool
  rxLoopback : Bool
  rctl : BitVec 32
  fcrtl : BitVec 32
  fcrth : BitVec 32
  rdba : BitVec 64
  rdbal : BitVec 32
  rdbah : BitVec 32
  rdlen : BitVec 32
  rdh : BitVec 16
  rdt : BitVec 16
  rdtr : BitVec 32
  rxdctl : BitVec 32
  radv : BitVec 32
  rsrpd : BitVec 32
  rxcsum : BitVec 32

/-- `nvm_mode` -/
inductive NvmMode where
  | opaddr
  | datain
  | dataout
deriving DecidableEq

structure Nvm where
  eepromControl : BitVec 32
  nvmData : BitVec 16
  nvmOpaddr : BitVec 16
  nvmBits : BitVec 6
  nvmMode : NvmMode
  eepromData : Nat → BitVec 16

structure Softc where
  escMac : Nat → BitVec 8
  general : General
  intr : Intr
  tx : Tx
  filter : Filter
  rx : Rx
  ioAddr : BitVec 32
  mdiControl : BitVec 32
  nvm : Nvm

namespace Intr

variable (x : Intr)

/-- `mdx_callout_set` with the delay that ITR asks for. -/
def setCallout : Intr :=
  { x with callout := some ((x.itr + 3905) / 3906 * 500000) }

/-- The common end of `e82545_icr_assert` and `e82545_ims_change`. -/
def raise (new : BitVec 32) : Except Fault Intr :=
  if new = 0 ∨ x.mevpitr ∨ x.irqAsserted then .ok x
  else do
    let pi ← x.escPi.pciLintrAssert
    let x := { x with irqAsserted := true, escPi := pi }
    if x.itr ≠ 0 then pure { x with mevpitr := true }.setCallout else pure x

def e82545IcrAssert (bits : BitVec 32) : Except Fault Intr :=
  { x with icr := x.icr ||| bits }.raise (bits &&& ~~~x.icr &&& x.ims)

def e82545ImsChange (bits : BitVec 32) : Except Fault Intr :=
  { x with ims := x.ims ||| bits }.raise (bits &&& x.icr &&& ~~~x.ims)

def e82545IcrDeassert (bits : BitVec 32) : Except Fault Intr :=
  let x := { x with icr := x.icr &&& ~~~bits }
  if x.irqAsserted ∧ x.icr &&& x.ims = 0 then do
    let pi ← x.escPi.pciLintrDeassert
    pure { x with escPi := pi, irqAsserted := false }
  else .ok x

def e82545ItrCallback : Except Fault Intr :=
  if x.icr &&& x.ims ≠ 0 ∧ x.irqAsserted = false then do
    let pi ← x.escPi.pciLintrAssert
    pure { x with irqAsserted := true, escPi := pi }.setCallout
  else .ok { x with mevpitr := false }

def runCallout : Except Fault Intr :=
  match x.callout with
  | none => .ok x
  | some _ => { x with callout := none }.e82545ItrCallback

def e82545IntrWrite (value : BitVec 32) : Reg → Except Fault Intr
  | .icr => x.e82545IcrDeassert value
  | .itr => .ok { x with itr := value }
  | .ics => { x with ics := value }.e82545IcrAssert value
  | .ims => x.e82545ImsChange value
  | .imc => .ok { x with imc := value, ims := x.ims &&& ~~~value }
  | _ => .ok x

def e82545IntrRead : Reg → Except Fault (BitVec 32 × Intr)
  | .icr => do
    let y ← { x with icr := 0 }.e82545IcrDeassert (BitVec.allOnes 32)
    pure (x.icr, y)
  | .itr => .ok (x.itr, x)
  | .ims => .ok (x.ims, x)
  | _ => .ok (0, x)

end Intr

namespace Nvm

variable (x : Nvm)

def idle : Nvm :=
  { x with nvmOpaddr := 0, nvmMode := .opaddr, nvmBits := E82545_NVM_OPADDR_BITS }

/-- `x << 1`, with the bit that DI holds. -/
def shiftIn (y : BitVec 16) : BitVec 16 :=
  if x.eepromControl &&& E1000_EECD_DI ≠ 0 then y <<< 1 ||| 1 else y <<< 1

/-- The nine bits of opcode and address are in. -/
def decodeOpaddr : Nvm :=
  let op := x.nvmOpaddr &&& E82545_NVM_OPCODE_MASK
  if op = E82545_NVM_OPCODE_READ then
    { x with
      nvmMode := .dataout
      nvmBits := E82545_NVM_DATA_BITS
      nvmData := x.eepromData (x.nvmOpaddr &&& E82545_NVM_ADDR_MASK).toNat }
  else if op = E82545_NVM_OPCODE_WRITE then
    { x with nvmMode := .datain, nvmBits := E82545_NVM_DATA_BITS, nvmData := 0 }
  else x.idle

def storeWord : Nvm :=
  if x.nvmOpaddr &&& E82545_NVM_OPCODE_MASK = E82545_NVM_OPCODE_WRITE then
    { x with
      eepromData := Function.update x.eepromData (x.nvmOpaddr &&& E82545_NVM_ADDR_MASK).toNat
        x.nvmData }.idle
  else x.idle

/-- The addresses of the EEPROM are all the 6-bit ones, so no range check fails. -/
def e82545EecdStrobe : Nvm :=
  if x.nvmBits = 0 then x
  else
    let x := { x with nvmBits := x.nvmBits - 1 }
    match x.nvmMode with
    | .dataout =>
      let control :=
        if x.nvmData &&& 0x8000 ≠ 0 then x.eepromControl ||| E1000_EECD_DO
        else x.eepromControl &&& ~~~E1000_EECD_DO
      let x := { x with eepromControl := control, nvmData := x.nvmData <<< 1 }
      if x.nvmBits = 0 then x.idle else x
    | .datain =>
      let x := { x with nvmData := x.shiftIn x.nvmData }
      if x.nvmBits = 0 then x.storeWord else x
    | .opaddr =>
      let x := { x with nvmOpaddr := x.shiftIn x.nvmOpaddr }
      if x.nvmBits = 0 then x.decodeOpaddr else x

/-- The write to EECD; the clock is seen on its rising edge. -/
def eecdWrite (value : BitVec 32) : Nvm :=
  let eecdStrobe : Bool := x.eepromControl &&& E1000_EECD_SK = 0 ∧ value &&& E1000_EECD_SK ≠ 0
  let eecdMask := E1000_EECD_SK ||| E1000_EECD_CS ||| E1000_EECD_DI ||| E1000_EECD_REQ
  let control := (x.eepromControl &&& ~~~eecdMask) ||| (value &&& eecdMask)
  let control :=
    if value &&& E1000_EECD_REQ ≠ 0 then control ||| E1000_EECD_GNT
    else control &&& ~~~E1000_EECD_GNT
  let x := { x with eepromControl := control }
  if eecdStrobe ∧ control &&& E1000_EECD_CS ≠ 0 then x.e82545EecdStrobe else x

/-- `NVM_MAC_ADDR` is word 0, and the identifiers are words 11 to 14. -/
def e82545InitEeprom (mac : Nat → BitVec 8) : Nvm :=
  let data : Nat → BitVec 16 := fun i =>
    match i with
    | 0 => mac 1 ++ mac 0
    | 1 => mac 3 ++ mac 2
    | 2 => mac 5 ++ mac 4
    | 11 => E82545_SUBDEV_ID
    | 12 => E82545_VENDOR_ID_INTEL
    | 13 => E82545_DEV_ID_82545EM_COPPER
    | 14 => E82545_VENDOR_ID_INTEL
    | i => x.eepromData i
  let checksum := (List.range 63).foldl (fun sum i => sum + data i) 0
  { x with eepromData := Function.update data 63 (NVM_SUM - checksum) }

end Nvm

/-- `e82545_read_mdi`: the PHY registers that answer. -/
def e82545ReadMdi (regAddr : BitVec 8) : BitVec 32 :=
  match regAddr.toNat with
  | 1 => 0x002C
  | 2 => 0x0141
  | 3 => 0x0C24
  | 4 => 0x0001
  | 10 => 0x3800
  | _ => 0

def mdicWrite (value : BitVec 32) : BitVec 32 :=
  let mdiControl := value &&& ~~~(E1000_MDIC_ERROR ||| E1000_MDIC_DEST)
  let op := value &&& E82545_MDIC_OP_MASK
  if value &&& E1000_MDIC_READY ≠ 0 then mdiControl
  else if op = E1000_MDIC_OP_READ then
    let regAddr := ((value &&& E1000_MDIC_REG_MASK) >>> 16).setWidth 8
    (mdiControl &&& ~~~E82545_MDIC_DATA_MASK) ||| e82545ReadMdi regAddr ||| E1000_MDIC_READY
  else if op = E1000_MDIC_OP_WRITE then mdiControl ||| E1000_MDIC_READY
  else mdiControl

namespace Softc

variable (sc : Softc)

/-- `pthread_cond_wait` returns at once and changes nothing, so the wait ends at once or never. -/
def e82545TxDisable : Except Fault Softc := do
  let sc := { sc with tx.txEnabled := false }
  assertThat (sc.tx.txActive = false) .txDisable
  pure sc

def e82545RxDisable : Except Fault Softc := do
  let sc := { sc with rx.rxEnabled := false }
  assertThat (sc.rx.rxActive = false) .rxDisable
  pure sc

def e82545TxEnable : Softc := { sc with tx.txEnabled := true }

def e82545RxEnable : Softc := { sc with rx.rxEnabled := true }

def e82545TxUpdateTdba : Softc :=
  let tdba := sc.tx.tdbah ++ sc.tx.tdbal
  { sc with tx.tdba := tdba, tx.txdesc := paddrGuest2host tdba }

def e82545RxUpdateRdba : Softc :=
  let rdba := sc.rx.rdbah ++ sc.rx.rdbal
  { sc with rx.rdba := rdba, rx.rxdesc := paddrGuest2host rdba }

/-- What `e82545_reset` does once receiver and transmitter are off. -/
def resetState (drvr : Bool) : Except Fault Softc := do
  let pi ← (if sc.intr.irqAsserted then sc.intr.escPi.pciLintrDeassert else .ok sc.intr.escPi)
  let general := if drvr then sc.general
    else { sc.general with fcal := 0, fcah := 0, fct := 0, vet := 0, fcttv := 0 }
  let nvm := { sc.nvm.idle with eepromControl := E1000_EECD_PRES ||| E82545_EECD_FWE_EN }
  let filter : Filter :=
    if drvr then { sc.filter with uni := fun i => { sc.filter.uni i with euValid := false } }
    else ⟨fun i => if i = 0 then ⟨true, 0, sc.escMac⟩ else ⟨false, 0, fun _ => 0⟩, fun _ => 0,
      fun _ => 0⟩
  let rx := if drvr then sc.rx else { sc.rx with rdbal := 0, rdbah := 0 }
  let tx := if drvr then sc.tx
    else { sc.tx with tdbal := 0, tdbah := 0, tipg := 0, ait := 0, tidv := 0, tadv := 0 }
  pure { sc with
    general := { general with ledctl := 0x07061302, pba := 0x00100030 }
    intr := { sc.intr with escPi := pi, icr := 0, itr := 250, ics := 0, ims := 0, imc := 0 }
    nvm := nvm.e82545InitEeprom sc.escMac
    filter := filter
    rx := { rx with
      rctl := 0, fcrtl := 0, fcrth := 0, rdlen := 0, rdh := 0, rdt := 0, rdtr := 0
      rxdctl := 0x01010000, radv := 0, rxcsum := 0 }
    tx := { tx with
      tdba := 0, txdesc := 0, txcw := 0, tctl := 0, tdlen := 0, tdt := 0, tdhr := 0, tdh := 0
      txdctl := 0 } }

/-- `drvr` tells a reset that software asks for from the one at initialisation. -/
def e82545Reset (drvr : Bool) : Except Fault Softc := do
  let sc ← sc.e82545RxDisable
  let sc ← sc.e82545TxDisable
  sc.resetState drvr

def e82545Devctl (val : BitVec 32) : Except Fault Softc :=
  let sc := { sc with general.ctrl := val &&& ~~~E1000_CTRL_RST }
  if val &&& E1000_CTRL_RST ≠ 0 then sc.e82545Reset true else .ok sc

def e82545RxCtl (val : BitVec 32) : Except Fault Softc :=
  let on : Bool := val &&& E1000_RCTL_EN = E1000_RCTL_EN
  let sc := { sc with rx.rctl := val &&& ~~~0xF9204c01 }
  if on = sc.rx.rxEnabled then .ok sc
  else if on then
    let sc := { sc with rx.rxLoopback := decide (sc.rx.rctl &&& E1000_RCTL_LBM_TCVR ≠ 0) }
    .ok sc.e82545RxUpdateRdba.e82545RxEnable
  else do
    let sc ← sc.e82545RxDisable
    pure { sc with rx.rxLoopback := false, rx.rdba := 0, rx.rxdesc := 0 }

/-- A write that does not change TCTL.EN is ignored altogether. -/
def e82545TxCtl (val : BitVec 32) : Except Fault Softc :=
  let on : Bool := val &&& E1000_TCTL_EN = E1000_TCTL_EN
  let tctl := val &&& ~~~0xFE800005
  if on = sc.tx.txEnabled then .ok sc
  else if on then .ok { sc.e82545TxUpdateTdba.e82545TxEnable with tx.tctl := tctl }
  else do
    let sc ← sc.e82545TxDisable
    pure { sc with tx.tdba := 0, tx.txdesc := 0, tx.tctl := tctl }

def e82545WriteRa (reg : Nat) (wval : BitVec 32) : Except Fault Softc := do
  let idx := reg / 2
  assertThat (idx < 15) .raIndex
  let eu := sc.filter.uni idx
  let eu : EthUni :=
    if reg % 2 = 1 then
      { euValid := decide (wval &&& E1000_RAH_AV = E1000_RAH_AV)
        euAddrsel := wval.extractLsb' 16 2
        euEth := fun i => if i = 5 then wval.extractLsb' 8 8 else if i = 4 then wval.extractLsb' 0 8
          else eu.euEth i }
    else { eu with euEth := fun i => if i < 4 then wval.extractLsb' (8 * i) 8 else eu.euEth i }
  pure { sc with filter.uni := Function.update sc.filter.uni idx eu }

def e82545ReadRa (reg : Nat) : Except Fault (BitVec 32) := do
  let idx := reg / 2
  assertThat (idx < 15) .raIndex
  let eu := sc.filter.uni idx
  if reg % 2 = 1 then
    pure ((if eu.euValid then 1 <<< 31 else 0) ||| eu.euAddrsel.setWidth 32 <<< 16 |||
      (eu.euEth 5 ++ eu.euEth 4).setWidth 32)
  else pure (eu.euEth 3 ++ eu.euEth 2 ++ eu.euEth 1 ++ eu.euEth 0)

/-- The switch of `e82545_write_register`. -/
def writeReg (value : BitVec 32) : Reg → Except Fault Softc
  | .ctrl | .ctrlDup => sc.e82545Devctl value
  | .fcal => .ok { sc with general.fcal := value }
  | .fcah => .ok { sc with general.fcah := value &&& ~~~0xFFFF0000 }
  | .fct => .ok { sc with general.fct := value &&& ~~~0xFFFF0000 }
  | .vet => .ok { sc with general.vet := value &&& ~~~0xFFFF0000 }
  | .fcttv => .ok { sc with general.fcttv := value &&& ~~~0xFFFF0000 }
  | .ledctl => .ok { sc with general.ledctl := value &&& ~~~0x30303000 }
  | .pba => .ok { sc with general.pba := value &&& 0x0000FF80 }
  | .icr => (sc.intr.e82545IntrWrite value .icr).map ({ sc with intr := · })
  | .itr => (sc.intr.e82545IntrWrite value .itr).map ({ sc with intr := · })
  | .ics => (sc.intr.e82545IntrWrite value .ics).map ({ sc with intr := · })
  | .ims => (sc.intr.e82545IntrWrite value .ims).map ({ sc with intr := · })
  | .imc => (sc.intr.e82545IntrWrite value .imc).map ({ sc with intr := · })
  | .rctl => sc.e82545RxCtl value
  | .fcrtl => .ok { sc with rx.fcrtl := value &&& ~~~0xFFFF0007 }
  | .fcrth => .ok { sc with rx.fcrth := value &&& ~~~0xFFFF0007 }
  | .rdbal =>
    let sc := { sc with rx.rdbal := value &&& ~~~0xF }
    .ok (if sc.rx.rxEnabled then sc.e82545RxUpdateRdba else sc)
  | .rdbah => do
    assertThat (sc.rx.rxEnabled = false) .rdEnabled
    pure { sc with rx.rdbah := value }
  | .rdlen => do
    assertThat (sc.rx.rxEnabled = false) .rdEnabled
    pure { sc with rx.rdlen := value &&& ~~~0xFFF0007F }
  | .rdh => .ok { sc with rx.rdh := value.setWidth 16 }
  | .rdt => .ok { sc with rx.rdt := value.setWidth 16 }
  | .rdtr => .ok { sc with rx.rdtr := value &&& ~~~0xFFFF0000 }
  | .rxdctl => .ok { sc with rx.rxdctl := value &&& ~~~0xFEC0C0C0 }
  | .radv => .ok { sc with rx.radv := value &&& ~~~0xFFFF0000 }
  | .rsrpd => .ok { sc with rx.rsrpd := value &&& ~~~0xFFFFF000 }
  | .rxcsum => .ok { sc with rx.rxcsum := value &&& ~~~0xFFFFF800 }
  | .txcw => .ok { sc with tx.txcw := value &&& ~~~0x3FFF0000 }
  | .tctl => sc.e82545TxCtl value
  | .tipg => .ok { sc with tx.tipg := value }
  | .ait => .ok { sc with tx.ait := value.setWidth 16 }
  | .tdbal =>
    let sc := { sc with tx.tdbal := value &&& ~~~0xF }
    .ok (if sc.tx.txEnabled then sc.e82545TxUpdateTdba else sc)
  | .tdbah => .ok { sc with tx.tdbah := value }
  | .tdlen => .ok { sc with tx.tdlen := value &&& ~~~0xFFF0007F }
  | .tdh => .ok { sc with tx.tdhr := value.setWidth 16, tx.tdh := value.setWidth 16 }
  | .tdt => .ok { sc with tx.tdt := value.setWidth 16 }
  | .tidv => .ok { sc with tx.tidv := value &&& ~~~0xFFFF0000 }
  | .txdctl => .ok { sc with tx.txdctl := value &&& ~~~0xC0C0C0 }
  | .tadv => .ok { sc with tx.tadv := value &&& ~~~0xFFFF0000 }
  | .ra ridx => sc.e82545WriteRa ridx value
  | .mta idx => .ok { sc with filter.fmcast := Function.update sc.filter.fmcast idx value }
  | .vfta idx => .ok { sc with filter.fvlan := Function.update sc.filter.fvlan idx value }
  | .eecd => .ok { sc with nvm := sc.nvm.eecdWrite value }
  | .mdic => .ok { sc with mdiControl := mdicWrite value }
  | .manc | .status => .ok sc

def e82545WriteRegister (offset value : BitVec 32) : Except Fault Softc :=
  if offset &&& 0x3 ≠ 0 then .ok sc
  else match Reg.ofOffset offset with
    | some reg => sc.writeReg value reg
    | none => .ok sc

/-- The switch of `e82545_read_register`; `E1000_CTRL_DUP` is not among its cases. -/
def readReg : Reg → Except Fault (BitVec 32 × Softc)
  | .ctrl => .ok (sc.general.ctrl, sc)
  | .ctrlDup => .ok (0, sc)
  | .status => .ok (0x83, sc)
  | .fcal => .ok (sc.general.fcal, sc)
  | .fcah => .ok (sc.general.fcah, sc)
  | .fct => .ok (sc.general.fct, sc)
  | .vet => .ok (sc.general.vet, sc)
  | .fcttv => .ok (sc.general.fcttv, sc)
  | .ledctl => .ok (sc.general.ledctl, sc)
  | .pba => .ok (sc.general.pba, sc)
  | .icr => (sc.intr.e82545IntrRead .icr).map fun r => (r.1, { sc with intr := r.2 })
  | .itr => (sc.intr.e82545IntrRead .itr).map fun r => (r.1, { sc with intr := r.2 })
  | .ics => (sc.intr.e82545IntrRead .ics).map fun r => (r.1, { sc with intr := r.2 })
  | .ims => (sc.intr.e82545IntrRead .ims).map fun r => (r.1, { sc with intr := r.2 })
  | .imc => (sc.intr.e82545IntrRead .imc).map fun r => (r.1, { sc with intr := r.2 })
  | .rctl => .ok (sc.rx.rctl, sc)
  | .fcrtl => .ok (sc.rx.fcrtl, sc)
  | .fcrth => .ok (sc.rx.fcrth, sc)
  | .rdbal => .ok (sc.rx.rdbal, sc)
  | .rdbah => .ok (sc.rx.rdbah, sc)
  | .rdlen => .ok (sc.rx.rdlen, sc)
  | .rdh => .ok (sc.rx.rdh.setWidth 32, sc)
  | .rdt => .ok (sc.rx.rdt.setWidth 32, sc)
  | .rdtr => .ok (sc.rx.rdtr, sc)
  | .rxdctl => .ok (sc.rx.rxdctl, sc)
  | .radv => .ok (sc.rx.radv, sc)
  | .rsrpd => .ok (sc.rx.rsrpd, sc)
  | .rxcsum => .ok (sc.rx.rxcsum, sc)
  | .txcw => .ok (sc.tx.txcw, sc)
  | .tctl => .ok (sc.tx.tctl, sc)
  | .tipg => .ok (sc.tx.tipg, sc)
  | .ait => .ok (sc.tx.ait.setWidth 32, sc)
  | .tdbal => .ok (sc.tx.tdbal, sc)
  | .tdbah => .ok (sc.tx.tdbah, sc)
  | .tdlen => .ok (sc.tx.tdlen, sc)
  | .tdh => .ok (sc.tx.tdh.setWidth 32, sc)
  | .tdt => .ok (sc.tx.tdt.setWidth 32, sc)
  | .tidv => .ok (sc.tx.tidv, sc)
  | .txdctl => .ok (sc.tx.txdctl, sc)
  | .tadv => .ok (sc.tx.tadv, sc)
  | .ra ridx => (sc.e82545ReadRa ridx).map (·, sc)
  | .mta idx => .ok (sc.filter.fmcast idx, sc)
  | .vfta idx => .ok (sc.filter.fvlan idx, sc)
  | .eecd => .ok (sc.nvm.eepromControl, sc)
  | .mdic => .ok (sc.mdiControl, sc)
  | .manc => .ok (0, sc)

def e82545ReadRegister (offset : BitVec 32) : Except Fault (BitVec 32 × Softc) :=
  if offset &&& 0x3 ≠ 0 then .ok (0, sc)
  else match Reg.ofOffset offset with
    | some reg => sc.readReg reg
    | none => .ok (0, sc)

def e82545Write (baridx : Nat) (offset : BitVec 64) (size : Nat) (value : BitVec 64) :
    Except Fault Softc :=
  if size ≠ 4 then .ok sc
  else if baridx = E82545_BAR_IO then
    if offset = E82545_IOADDR then .ok { sc with ioAddr := value.setWidth 32 }
    else if offset = E82545_IODATA ∧ sc.ioAddr ≤ E82545_IO_REGISTER_MAX then
      sc.e82545WriteRegister sc.ioAddr (value.setWidth 32)
    else .ok sc
  else if baridx = E82545_BAR_REGISTER then
    sc.e82545WriteRegister (offset.setWidth 32) (value.setWidth 32)
  else .ok sc

/-- The data port is read whatever the size. -/
def e82545Read (baridx : Nat) (offset : BitVec 64) (size : Nat) :
    Except Fault (BitVec 64 × Softc) :=
  if baridx = E82545_BAR_IO then
    if offset = E82545_IOADDR then .ok (if size = 4 then sc.ioAddr.setWidth 64 else 0, sc)
    else if offset = E82545_IODATA ∧ sc.ioAddr ≤ E82545_IO_REGISTER_MAX then
      (sc.e82545ReadRegister sc.ioAddr).map fun r => (r.1.setWidth 64, r.2)
    else .ok (0, sc)
  else if baridx = E82545_BAR_REGISTER ∧ size = 4 then
    (sc.e82545ReadRegister (offset.setWidth 32)).map fun r => (r.1.setWidth 64, r.2)
  else .ok (0, sc)

/-- The zeroed allocation of `e82545_init`, with the device instance and the MAC address. -/
def calloc (pi : PciDevinst) : Softc where
  escMac i := [0x00, 0x07, 0xed, 0x63, 0xe4, 0x91].getD i 0
  general := ⟨0, 0, 0, 0, 0, 0, 0, 0⟩
  intr := ⟨pi, false, 0, 0, 0, 0, 0, false, none⟩
  tx := ⟨0, ⟨0, 0, 0⟩, false, false, 0, 0, 0, 0, 0, 0, 0, 0, 0, 0, 0, 0, 0, 0⟩
  filter := ⟨fun _ => ⟨false, 0, fun _ => 0⟩, fun _ => 0, fun _ => 0⟩
  rx := ⟨0, false, false, false, 0, 0, 0, 0, 0, 0, 0, 0, 0, 0, 0, 0, 0, 0⟩
  ioAddr := 0
  mdiControl := 0
  nvm := ⟨0, 0, 0, 0, .opaddr, fun _ => 0⟩

def e82545Init (pi : PciDevinst) : Except Fault Softc := (calloc pi).e82545Reset false

end Softc

end DeviceModel.E82545

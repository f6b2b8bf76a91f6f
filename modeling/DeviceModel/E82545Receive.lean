import DeviceModel.E82545Transmit

/-!
# The e1000 network device: reception, and the poll

`e82545_tap_callback` and `e1000_poll` of `bhyve/pci_e82545.c`. A packet for an
unknown VLAN does not count against the limit on packets, so how long the loop
goes on is up to the FIFO: `fuel` bounds the packets a call may take in.
-/

set_option autoImplicit false

namespace DeviceModel.E82545

open Fallible

def E1000_RCTL_LPE : BitVec 32 := 0x00000020
def E1000_RCTL_VFE : BitVec 32 := 0x00040000
def E1000_RCTL_BSEX : BitVec 32 := 0x02000000
def E1000_RCTL_SECRC : BitVec 32 := 0x04000000
def E1000_RCTL_SZ_2048 : BitVec 32 := 0x00000000
def E1000_RCTL_SZ_1024 : BitVec 32 := 0x00010000
def E1000_RCTL_SZ_512 : BitVec 32 := 0x00020000
def E1000_RCTL_SZ_256 : BitVec 32 := 0x00030000
def E1000_RCTL_SZ_16384 : BitVec 32 := 0x00010000
def E1000_RCTL_SZ_8192 : BitVec 32 := 0x00020000
def E1000_RCTL_SZ_4096 : BitVec 32 := 0x00030000
def E1000_RXD_STAT_DD : BitVec 8 := 0x01
def E1000_RXD_STAT_EOP : BitVec 8 := 0x02
def E1000_RXD_STAT_IXSM : BitVec 8 := 0x04
def E1000_RXD_STAT_PIF : BitVec 8 := 0x80
def E1000_ICR_RXDMT0 : BitVec 32 := 0x00000010
def E1000_ICR_RXT0 : BitVec 32 := 0x00000080
def E1000_ICR_SRPD : BitVec 32 := 0x00010000
def ETHER_MIN_LEN : Int := 64
def ETHER_CRC_LEN : Int := 4

def e82545Bufsz (rctl : BitVec 32) : Nat :=
  let bits := rctl &&& (E1000_RCTL_BSEX ||| E1000_RCTL_SZ_256)
  if bits = E1000_RCTL_SZ_2048 then 2048
  else if bits = E1000_RCTL_SZ_1024 then 1024
  else if bits = E1000_RCTL_SZ_512 then 512
  else if bits = E1000_RCTL_SZ_256 then 256
  else if bits = E1000_RCTL_BSEX ||| E1000_RCTL_SZ_16384 then 16384
  else if bits = E1000_RCTL_BSEX ||| E1000_RCTL_SZ_8192 then 8192
  else if bits = E1000_RCTL_BSEX ||| E1000_RCTL_SZ_4096 then 4096
  else 256

/-- `&sc->esc_rxdesc[i]` -/
def rxdescAt (rxdesc : BitVec 64) (i : Nat) : BitVec 64 := rxdesc + BitVec.ofNat 64 (16 * i)

def storeRxdesc (m : Memory) (a : BitVec 64) (length : BitVec 16) (status : BitVec 8) : Memory :=
  let m := (m.store16 (a + 8) (htole16 length)).store16 (a + 10) 0
  ((m.store8 (a + 13) 0).store16 (a + 14) 0).store8 (a + 12) status

section Receive

variable {φ : Type} (F : Fifo φ) (sc : Softc)

def Rx.maxpktsz (rx : Rx) : Nat := if rx.rctl &&& E1000_RCTL_LPE ≠ 0 then 16384 else 1522

def Rx.maxpktdesc (rx : Rx) : Nat :=
  (rx.maxpktsz + e82545Bufsz rx.rctl - 1) / e82545Bufsz rx.rctl

def Rx.size (rx : Rx) : Nat := (rx.rdlen / 16).toNat

/-- `(size + sc->esc_RDT - head) % size` -/
def Rx.left (rx : Rx) (head : Nat) : Except Fault Int := do
  assertThat (rx.size ≠ 0) .ringSize
  pure (Int.tmod (rx.size + rx.rdt.toNat - head) rx.size)

def Rx.threshold (rx : Rx) : Nat := rx.size >>> ((rx.rctl >>> 8 &&& 3).toNat + 1)

def rxVecs (rx : Rx) (m : Memory) (head : Nat) : List Iovec :=
  (List.range rx.maxpktdesc).map fun i =>
    ⟨paddrGuest2host (le64toh (m.load64 (rxdescAt rx.rxdesc ((head + i) % rx.size)))),
      e82545Bufsz rx.rctl⟩

def vlanDrops (m : Memory) (base : BitVec 64) : Bool :=
  let tag := m.load16 (base + 14) &&& 0x0fff
  sc.rx.rctl &&& E1000_RCTL_VFE ≠ 0 ∧ (m.load16 (base + 12)).setWidth 32 = sc.general.vet ∧
    (sc.filter.fvlan (tag >>> 5).toNat).getLsbD (tag &&& 0x1f).toNat = false

/-- The length of a packet with padding and CRC. -/
def rxLen (rx : Rx) (len : Int) : Int :=
  let len := if len < ETHER_MIN_LEN - ETHER_CRC_LEN then ETHER_MIN_LEN - ETHER_CRC_LEN else len
  if rx.rctl &&& E1000_RCTL_SECRC = 0 then len + ETHER_CRC_LEN else len

/-- Update all consumed descriptors. -/
def updateRxdescs (rx : Rx) (m : Memory) (head n : Nat) (len : Int) : Memory :=
  let bufsz := e82545Bufsz rx.rctl
  let m := (List.range (n - 1)).foldl (fun m i =>
    storeRxdesc m (rxdescAt rx.rxdesc ((head + i) % rx.size)) (BitVec.ofNat 16 bufsz)
      E1000_RXD_STAT_DD) m
  storeRxdesc m (rxdescAt rx.rxdesc ((head + (n - 1)) % rx.size)) (BitVec.ofInt 16 (len % bufsz))
    (E1000_RXD_STAT_PIF ||| E1000_RXD_STAT_IXSM ||| E1000_RXD_STAT_EOP ||| E1000_RXD_STAT_DD)

structure RxRun (φ : Type) where
  lim : Int
  left : Int
  head : Nat
  cause : BitVec 32
  mem : Memory
  fifo : φ

def rxRunLoop : Nat → RxRun φ → Except Fault (RxRun φ)
  | 0, _ => .error .rxLoop
  | fuel + 1, r =>
    if r.lim ≤ 0 ∨ r.left < sc.rx.maxpktdesc then .ok r
    else
      let vec := rxVecs sc.rx r.mem r.head
      let (len, fifo, mem) := F.processRx r.fifo r.mem vec
      let r := { r with fifo, mem }
      if len ≤ 0 then .ok r
      else if vlanDrops sc mem ((vec.head?.map (·.iovBase)).getD 0) then rxRunLoop fuel r
      else
        let len := rxLen sc.rx len
        let n := ((len + e82545Bufsz sc.rx.rctl - 1) / e82545Bufsz sc.rx.rctl).toNat
        rxRunLoop fuel {
          lim := r.lim - n
          left := r.left - n
          head := (r.head + n) % sc.rx.size
          cause := r.cause ||| (if len ≤ sc.rx.rsrpd.toNat then E1000_ICR_SRPD else 0) |||
            E1000_ICR_RXT0
          mem := updateRxdescs sc.rx mem r.head n len
          fifo }

/-- `esc_rx_active` is set while the loop runs. -/
def e82545TapCallback (fuel : Nat) (s : E1000 φ) : Except Fault (E1000 φ) :=
  let rx := s.sc.rx
  if rx.rxEnabled = false ∨ rx.rxLoopback then .ok s
  else do
    let head := rx.rdh.toNat
    let left ← rx.left head
    if left < rx.maxpktdesc then pure s
    else do
      let sc := { s.sc with rx.rxActive := true }
      let r ← rxRunLoop F sc fuel ⟨(rx.size / 4 : Nat), left, head, 0, s.mem, s.fifo⟩
      let rx := { sc.rx with rxActive := false, rdh := BitVec.ofNat 16 r.head }
      let left ← rx.left r.head
      let cause := r.cause ||| (if left < (rx.threshold : Int) then E1000_ICR_RXDMT0 else 0)
      let intr ← (if cause ≠ 0 then sc.intr.e82545IcrAssert cause else .ok sc.intr)
      pure ⟨{ sc with intr, rx }, r.mem, r.fifo⟩

def e1000Poll (fuel : Nat) (s : E1000 φ) : Except Fault (E1000 φ) := do
  let s ← e82545TxPoll F s
  e82545TapCallback F fuel s

end Receive

end DeviceModel.E82545

import DeviceModel.Lib.Bytes
import DeviceModel.Lib.Memory

/-!
# What the device models take from the host

The byte-order macros on the big-endian target, and `paddr_guest2host` of
`bhyve/bhyve_support.c` in the build without an IOMMU: guest memory is reached at
its physical address, through the uncached window.
-/

set_option autoImplicit false

namespace DeviceModel

open Bytes

def MIPS_XKPHYS_UNCACHED_BASE : BitVec 64 := 0x9000000000000000

def le16toh (x : BitVec 16) : BitVec 16 := bswap16 x

def le32toh (x : BitVec 32) : BitVec 32 := bswap32 x

def le64toh (x : BitVec 64) : BitVec 64 := bswap64 x

def htole16 (x : BitVec 16) : BitVec 16 := bswap16 x

def htole32 (x : BitVec 32) : BitVec 32 := bswap32 x

/-- `struct iovec`; `iovLen` is a `size_t`. -/
structure Iovec where
  iovBase : BitVec 64
  iovLen : Nat
deriving DecidableEq

def Iovec.load (m : Memory) (v : Iovec) : List (BitVec 8) := m.bytes v.iovBase v.iovLen

def iovAddrs (iov : List Iovec) : List (BitVec 64) :=
  iov.flatMap fun v => (List.range v.iovLen).map fun k => v.iovBase + BitVec.ofNat 64 k

theorem length_iovAddrs (iov : List Iovec) : (iovAddrs iov).length = (iov.map Iovec.iovLen).sum := by
  induction iov with
  | nil => rfl
  | cons v iov ih =>
    rw [iovAddrs, List.flatMap_cons, List.length_append, List.length_map, List.length_range]
    rw [iovAddrs] at ih
    rw [ih, List.map_cons, List.sum_cons]

def paddrGuest2host (gaddr : BitVec 64) : BitVec 64 := gaddr ||| MIPS_XKPHYS_UNCACHED_BASE

end DeviceModel

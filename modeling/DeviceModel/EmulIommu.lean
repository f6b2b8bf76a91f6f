import DeviceModel.Msgdma

/-!
# The emulated IOMMU

`src/emul_iommu.c` with `tlb_invalidate_address` of `src/tlb.c`. The TLB is the
one of the processor: an entry matches if it agrees with `EntryHi` in the region
and in the page number that its mask leaves, and in the ASID unless it is global.
The constants of the processor headers that the source does not bring are
parameters.
-/

set_option autoImplicit false

namespace DeviceModel.EmulIommu

open EmulPci Msgdma

def PAGE_MASK : BitVec 64 := 0xfff
def TLBHI_ASID_MASK : BitVec 64 := 0xff
def TLBHI_R_MASK : BitVec 64 := 3 <<< 62
def TLBHI_VPN2_MASK : BitVec 64 := (~~~((1 <<< 13 : BitVec 64) - 1) <<< 23) >>> 23

def TLBHI_ENTRY (va asid : BitVec 64) : BitVec 64 :=
  (va &&& TLBHI_R_MASK) ||| (va &&& TLBHI_VPN2_MASK) ||| (asid &&& TLBHI_ASID_MASK)

structure TlbEntry where
  pageMask : BitVec 64
  entryHi : BitVec 64
  entryLo0 : BitVec 64
  entryLo1 : BitVec 64
deriving DecidableEq

abbrev Tlb := List TlbEntry

def TlbEntry.Global (e : TlbEntry) : Prop := e.entryLo0 &&& e.entryLo1 &&& 1 = 1

instance (e : TlbEntry) : Decidable e.Global := inferInstanceAs (Decidable (_ = _))

/-- What `tlbp` looks for. -/
def TlbEntry.Matches (e : TlbEntry) (entryHi : BitVec 64) : Prop :=
  (e.entryHi ^^^ entryHi) &&& (TLBHI_R_MASK ||| TLBHI_VPN2_MASK) &&& ~~~e.pageMask = 0 ∧
    (e.Global ∨ (e.entryHi ^^^ entryHi) &&& TLBHI_ASID_MASK = 0)

instance (e : TlbEntry) (entryHi : BitVec 64) : Decidable (e.Matches entryHi) :=
  inferInstanceAs (Decidable (_ ∧ _))

def tlbProbe (tlb : Tlb) (entryHi : BitVec 64) : Option Nat :=
  tlb.findIdx? fun e => decide (e.Matches entryHi)

def tlbInvalidateAddress (tlb : Tlb) (va : BitVec 64) : Tlb :=
  let entryHi := TLBHI_ENTRY (va &&& ~~~PAGE_MASK) 0
  match tlbProbe tlb entryHi with
  | none => tlb
  | some i => tlb.set i ⟨0, entryHi, 0, 0⟩

/-- The constants of `machine/cpuregs.h` that the registers need. -/
structure Cpuregs where
  xkphysCachedNc : BitVec 64
  xkphysUncached : BitVec 64

structure Iommu where
  kernelSegmap : BitVec 64
  tlb : Tlb
deriving DecidableEq

def IOMMU_INVALIDATE : BitVec 64 := 0x0
def IOMMU_SEGMAP : BitVec 64 := 0x8

def Cpuregs.segmap (regs : Cpuregs) (val : BitVec 64) : BitVec 64 :=
  (val &&& ~~~regs.xkphysCachedNc) ||| regs.xkphysUncached

def emulIommu (regs : Cpuregs) (s : Iommu) (elink : EmulLink) (req : EpwRequest)
    (junk : BitVec 64) : Iommu :=
  let offset := regOffset elink req
  let val := loadVal req junk
  if offset = IOMMU_INVALIDATE then
    if req.isWrite then { s with tlb := tlbInvalidateAddress s.tlb val } else s
  -- the direction is not looked at here
  else if offset = IOMMU_SEGMAP then { s with kernelSegmap := regs.segmap val }
  else s

section Registers

variable {regs : Cpuregs} {s : Iommu} {elink : EmulLink} {req : EpwRequest} {junk : BitVec 64}

def MovesSegmap (regs : Cpuregs) (s : Iommu) (elink : EmulLink) (req : EpwRequest)
    (junk : BitVec 64) : Prop :=
  regOffset elink req = IOMMU_SEGMAP ∧ regs.segmap (loadVal req junk) ≠ s.kernelSegmap

/-- A read is without effect unless it meets the base of the segment map. -/
theorem emulIommu_read_iff (hRead : req.isWrite = false) :
    emulIommu regs s elink req junk = s ↔ ¬ MovesSegmap regs s elink req junk := by
  have hDistinct : IOMMU_SEGMAP ≠ IOMMU_INVALIDATE := by decide
  unfold emulIommu MovesSegmap
  dsimp only
  rw [hRead, if_neg Bool.false_ne_true]
  split
  · next hInvalidate =>
    rw [hInvalidate]
    exact iff_of_true rfl fun h => hDistinct h.1.symm
  · split
    · next hSegmap =>
      constructor
      · intro h hMoves
        exact hMoves.2 (congrArg Iommu.kernelSegmap h)
      · intro h
        have hSame : regs.segmap (loadVal req junk) = s.kernelSegmap :=
          not_not.mp fun hNe => h ⟨hSegmap, hNe⟩
        rw [hSame]
    · next hSegmap => exact iff_of_true rfl fun h => hSegmap h.1

end Registers

end DeviceModel.EmulIommu

import DeviceModel.Msgdma
import Mathlib.Data.BitVec
import Mathlib.Tactic.Ring

/-!
# Forwarded requests

`src/fwd_device.c`. The loads and stores that `fwd_rw` makes on the bus are its
result; what a load finds there is a parameter. `dm_request` measures offsets
from `EPW_WINDOW` and `fwd_request` from `EPW_BASE`.
-/

set_option autoImplicit false

namespace DeviceModel.EmulPci

open Msgdma

def EPW_BASE : BitVec 64 := 0xff7ff00000

structure EpwBurst extends EpwRequest where
  byteEnable : Nat
  burstCount : Nat

structure BusAccess where
  addr : BitVec 64
  width : Nat
  store : Option (BitVec 64)
deriving DecidableEq

def IsWidth (len : Nat) : Prop := len = 1 ∨ len = 2 ∨ len = 4 ∨ len = 8

instance (len : Nat) : Decidable (IsWidth len) := inferInstanceAs (Decidable (_ ∨ _))

/-- A value of `len` bytes at the start of the data, the most significant byte first. -/
def EpwRequest.putVal (req : EpwRequest) (len : Nat) (val : BitVec 64) : EpwRequest :=
  { req with data := fun i => if i < len then val.extractLsb' (8 * (len - 1 - i)) 8 else req.data i }

def fwdRw (load : BitVec 64 → Nat → BitVec 64) (req : EpwBurst) (addr : BitVec 64) :
    EpwBurst × Option BusAccess :=
  let len := if req.isWrite then req.byteEnable else req.burstCount
  if ¬ IsWidth len then (req, none)
  else if req.isWrite then
    (req, some ⟨addr, len, some (loadVal { req.toEpwRequest with dataLen := len } 0)⟩)
  else ({ req with toEpwRequest := req.putVal len (load addr len) }, some ⟨addr, len, none⟩)

def fwdAddr (flink : FwdLink) (addr : BitVec 64) : BitVec 64 :=
  let offset := addr - flink.baseEmul - EPW_BASE
  flink.base + offset

def fwdRequest (flink : FwdLink) (load : BitVec 64 → Nat → BitVec 64) (req : EpwBurst) :
    EpwBurst × Option BusAccess :=
  fwdRw load req (fwdAddr flink req.addr)

section Translation

variable {addr : BitVec 64} {flink : FwdLink}

theorem dmRequest_fwd (h : dmRequest addr = some (.fwd flink)) :
    flink ∈ fwdMap ∧ flink.baseEmul ≤ addr - EPW_WINDOW ∧
      addr - EPW_WINDOW < flink.baseEmul + flink.size := by
  unfold dmRequest at h
  dsimp only at h
  split at h
  · next l hFind =>
    obtain ⟨⟩ := h
    exact ⟨List.mem_of_find?_eq_some hFind, by simpa using List.find?_some hFind⟩
  · obtain ⟨l, -, ⟨⟩⟩ := Option.map_eq_some_iff.mp h

theorem dmRequest_emul {elink : EmulLink} (h : dmRequest addr = some (.emul elink)) :
    elink ∈ emulMap := by
  unfold dmRequest at h
  dsimp only at h
  split at h
  · cases h
  · obtain ⟨l, hFind, ⟨⟩⟩ := Option.map_eq_some_iff.mp h
    exact List.mem_of_find?_eq_some hFind

/-- The address is off by the distance of the two bases. -/
theorem fwdAddr_eq (flink : FwdLink) (addr : BitVec 64) : fwdAddr flink addr =
    flink.base + (addr - EPW_WINDOW - flink.baseEmul) + (EPW_WINDOW - EPW_BASE) := by
  unfold fwdAddr
  ring

/-- A forwarded request never arrives at the device of its link. -/
theorem fwdRequest_misses (h : dmRequest addr = some (.fwd flink)) :
    fwdAddr flink addr ≠ flink.base + (addr - EPW_WINDOW - flink.baseEmul) ∧
      ¬ (flink.base ≤ fwdAddr flink addr ∧ fwdAddr flink addr < flink.base + flink.size) := by
  obtain ⟨hMem, hLow, hHigh⟩ := dmRequest_fwd h
  rw [fwdAddr_eq]
  generalize addr - EPW_WINDOW = offset at hLow hHigh
  have hShift : EPW_WINDOW - EPW_BASE = 0xffffff017dc00000 := by decide
  rw [hShift]
  simp only [fwdMap, List.mem_cons, List.not_mem_nil, or_false] at hMem
  rcases hMem with rfl | rfl | rfl | rfl <;> dsimp only at hLow hHigh ⊢ <;> constructor <;> bv_omega

theorem fwdRequest_misses_csr : dmRequest 0xfdb00000 = some (.fwd ⟨0x0000, 0x20, 0x80004080⟩) ∧
    fwdAddr ⟨0x0000, 0x20, 0x80004080⟩ 0xfdb00000 ≠
      0x80004080 + (0xfdb00000 - EPW_WINDOW - 0x0000) ∧
    ¬ (0x80004080 ≤ fwdAddr ⟨0x0000, 0x20, 0x80004080⟩ 0xfdb00000 ∧
      fwdAddr ⟨0x0000, 0x20, 0x80004080⟩ 0xfdb00000 < (0x80004080 + 0x20 : BitVec 64)) :=
  ⟨rfl, @fwdRequest_misses 0xfdb00000 ⟨0x0000, 0x20, 0x80004080⟩ rfl⟩

theorem fwdRequest_strays : ¬ ∀ (addr : BitVec 64) (flink : FwdLink),
    dmRequest addr = some (.fwd flink) →
    fwdAddr flink addr = flink.base + (addr - EPW_WINDOW - flink.baseEmul) ∧
      flink.base ≤ fwdAddr flink addr ∧ fwdAddr flink addr < flink.base + flink.size := by
  intro hAll
  have hRequest : dmRequest 0xfdb00000 = some (.fwd ⟨0x0000, 0x20, 0x80004080⟩) := rfl
  have hWild : fwdAddr ⟨0x0000, 0x20, 0x80004080⟩ 0xfdb00000 ≠
      0x80004080 + (0xfdb00000 - EPW_WINDOW - 0x0000) := by decide
  exact hWild (hAll _ _ hRequest).1

end Translation

end DeviceModel.EmulPci

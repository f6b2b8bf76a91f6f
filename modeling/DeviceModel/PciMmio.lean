import DeviceModel.DmRequest
import DeviceModel.PciCoherence

/-!
# Requests to a BAR

From the guest's bus to the device: a request whose address lies in a window that a BAR decodes
reaches that BAR, at the offset from the address that its registers spell, with the bytes of the
request as a little-endian value; and a read brings the bytes of the answer back in that order.
-/

set_option autoImplicit false

namespace DeviceModel.PciEmul

open Mem Fallible Bytes EmulPci PciDevinst PowerOfTwo
open DmRequest (Devices Surroundings)

variable {T : PciTree} {δ : Type}

section Decode

variable {m : Machine T δ} {b : Bdf} {pi : PciDevinst} {idx : Nat} {addr : BitVec 64} {size : Nat}

/-- The access lies in the window of a BAR, and the function decodes memory or the window is one
that is still registered from `init_pci`. -/
structure Decodes (s : Pci T) (b : Bdf) (pi : PciDevinst) (idx : Nat) (addr : BitVec 64) (size : Nat) :
    Prop where
  device : s.fiDevi b = some pi
  on : pi.memen = true ∨ pi.window idx ∈ s.registry.ranges
  mem : pi.IsMem idx
  low : (pi.piBar idx).addr.toNat ≤ addr.toNat
  high : addr.toNat + size ≤ (pi.piBar idx).addr.toNat + (pi.piBar idx).size.toNat

theorem access_hits (hInv : m.pci.Inv) (h : Decodes m.pci b pi idx addr size) (hPos : 0 < size) :
    (m.access addr).1 = some (pi.window idx) := by
  have hAligned := (hInv.bars b pi h.device).aligned h.mem
  obtain ⟨e, he, hParam⟩ := h.on.elim (fun hOn => hInv.live b pi h.device hOn idx h.mem) id
  have hHigh := h.high
  have hCovers : e.span.Covers addr.toNat := by
    rw [MmioRbRange.span, hParam]
    apply (MemRange.covers_iff (window_noWrap hAligned) (window_pos hAligned) addr.toNat).mpr
    exact ⟨h.low, show addr.toNat < (pi.piBar idx).addr.toNat + (pi.piBar idx).size.toNat by omega⟩
  have hFound := (Mmio.dispatch_eq_some_iff hInv.ok.mem).mpr (.inl ⟨he, hCovers⟩)
  show ((m.pci.registry.mem.accessMemory addr.toNat).1).map (·.mrParam) = _
  unfold Mmio.dispatch at hFound
  rw [hFound, Option.map_some, hParam]

/-- A window below the upper half of the address space does not reach the end of it. -/
theorem Pcibar.Aligned.add_lt {bar : Pcibar} (h : bar.Aligned) (hLow : bar.addr.toNat < 2 ^ 63) :
    bar.addr.toNat + bar.size.toNat < 2 ^ 64 := by
  obtain ⟨k, -, hk, hSize, hZero⟩ := h
  have hLess : 2 ^ k ≤ 2 ^ 63 := Nat.pow_le_pow_right (by decide) (by omega)
  rw [hSize, BitVec.toNat_twoPow_of_lt hk]
  omega

theorem emulateMem_reaches_bar {ops : BarOps T δ} (hInv : m.pci.Inv)
    (h : Decodes m.pci b pi idx addr size) (hPos : 0 < size) (hBelow : addr.toNat < 2 ^ 63)
    (isWrite : Bool) (val : BitVec 64) : emulateMem ops m addr isWrite size val =
      (barAccess ops (m.access addr).2 b idx isWrite (addr - (pi.piBar idx).addr) size val).map (0, ·) := by
  have hAligned := (hInv.bars b pi h.device).aligned h.mem
  have hLow := h.low
  have hHigh := h.high
  have hEnd := hAligned.add_lt (Nat.lt_of_le_of_lt hLow hBelow)
  have hHit := access_hits hInv h hPos
  have hDevice : (m.access addr).2.pci.fiDevi b = some pi := h.device
  have hBdf := hInv.bdf b pi h.device
  have hType : (pi.piBar idx).type = .mem32 ∨ (pi.piBar idx).type = .mem64 := h.mem.2
  have hExtent : (pi.piBar idx).addr ≤ addr ∧
      addr + BitVec.ofNat 64 size ≤ (pi.piBar idx).addr + (pi.piBar idx).size := by
    constructor
    · exact hLow
    · rw [BitVec.le_def, BitVec.toNat_add, BitVec.toNat_add, BitVec.toNat_ofNat]
      omega
  have hIdx : (0 : Int) ≤ idx ∧ (idx : Int) ≤ PCI_BARMAX := ⟨Int.natCast_nonneg _, Int.ofNat_le.mpr h.mem.1⟩
  unfold emulateMem
  cases hAccess : m.access addr with
  | mk entry m' =>
    rw [hAccess] at hHit hDevice
    dsimp only at hHit hDevice ⊢
    subst hHit
    dsimp only
    congr 1
    show pciEmulMemHandler ops m' isWrite addr size val (some pi.bdf) idx = _
    unfold pciEmulMemHandler
    rw [hBdf, Option.bind_some, hDevice]
    dsimp only
    rw [Int.toNat_natCast, assertThat_of _ hIdx, ok_bind, assertThat_of _ hType, ok_bind,
      assertThat_of _ hExtent, ok_bind, hBdf]

end Decode

section Answers

variable {s : Devices T δ} {env : Surroundings T δ} {req : EpwBurst} {b : Bdf} {pi : PciDevinst}
  {idx : Nat}

/-- A value of `len` bytes, the first one least significant. -/
structure LittleEndian (len : Nat) (byte : Nat → BitVec 8) (val : BitVec 64) : Prop where
  bytes : ∀ i < len, val.extractLsb' (8 * i) 8 = byte i
  above : val.toNat < 2 ^ (8 * len)

def dataByte (req : EpwRequest) (i : Nat) : BitVec 8 := req.data (Fin.ofNat 32 i)

theorem LittleEndian.of_setWidth {len w : Nat} {byte : Nat → BitVec 8} {x : BitVec w}
    (hWidth : w = 8 * len) (hFits : w ≤ 64) (hBytes : ∀ i < len, x.extractLsb' (8 * i) 8 = byte i) :
    LittleEndian len byte (x.setWidth 64) := by
  constructor
  · intro i hi
    rw [← hBytes i hi]
    refine BitVec.eq_of_getLsbD_eq fun j hj => ?_
    simp only [BitVec.getLsbD_extractLsb', BitVec.getLsbD_setWidth]
    have hIn : 8 * i + j < 64 := by omega
    simp only [hIn, decide_true, Bool.true_and]
  · rw [BitVec.toNat_setWidth_of_le hFits, ← hWidth]
    exact x.isLt

theorem writeVal_littleEndian {req : EpwRequest} (hWf : req.WellFormed) (hShort : req.dataLen ≤ 4)
    (junk : BitVec 64) : LittleEndian req.dataLen (dataByte req) (req.writeVal junk) := by
  unfold EpwRequest.writeVal
  rcases hWf.width with hLen | hLen | hLen | hLen
  · rw [hLen]
    apply LittleEndian.of_setWidth rfl (by decide)
    intro i hi
    obtain rfl : i = 0 := by omega
    exact BitVec.extractLsb'_eq_self
  · rw [hLen]
    apply LittleEndian.of_setWidth rfl (by decide)
    intro i hi
    refine BitVec.eq_of_getLsbD_eq fun j hj => ?_
    simp only [bswap16, BitVec.getLsbD_append, BitVec.getLsbD_extractLsb', dataByte]
    obtain rfl | rfl : i = 0 ∨ i = 1 := by omega
    all_goals grind
  · rw [hLen]
    apply LittleEndian.of_setWidth rfl (by decide)
    intro i hi
    refine BitVec.eq_of_getLsbD_eq fun j hj => ?_
    simp only [bswap32, BitVec.getLsbD_append, BitVec.getLsbD_extractLsb', dataByte]
    obtain rfl | rfl | rfl | rfl : i = 0 ∨ i = 1 ∨ i = 2 ∨ i = 3 := by omega
    all_goals grind
  · omega

/-- The bytes of a value in the lane of the address, the first one in front. -/
def Placed (req : EpwRequest) (val : BitVec 64) (data : Fin 32 → BitVec 8) : Prop :=
  ∀ i < req.dataLen, ∀ j : Fin 32, (j : Nat) + req.dataLen + req.offset.toNat % 8 = 8 + i →
    data j = val.extractLsb' (8 * i) 8

/-- What the request is answered with, after the access that it makes. -/
def Relays {ρ : Type} (req : EpwRequest) (access : Except Fault (BitVec 64 × Machine T δ))
    (reply : (Fin 32 → BitVec 8) → Machine T δ → ρ) (answer : Except Fault ρ) : Prop :=
  match access with
  | .error e => answer = .error e
  | .ok (val, m) => ∃ data, answer = .ok (reply data m) ∧
      if req.isWrite then data = req.data else Placed req val data

variable {ops : BarOps T δ} {m : Machine T δ} {req : EpwRequest} {memVal8 val8 : Word8}

/-- The value that a write carries; a read begins with what the local holds. -/
def carried (req : EpwRequest) (memVal8 : Word8) : BitVec 64 :=
  if req.isWrite then req.writeVal (wordAt memVal8) else wordAt memVal8

theorem emulMem_relays (hInv : m.pci.Inv) (hWf : req.WellFormed)
    (hShort : req.isWrite = true → req.dataLen ≤ 4) (hBelow : req.addr.toNat < 2 ^ 63)
    (h : Decodes m.pci b pi idx req.addr req.dataLen) :
    Relays req (barAccess ops (m.access req.addr).2 b idx req.isWrite (req.addr - (pi.piBar idx).addr)
        req.dataLen (carried req memVal8))
      (fun data m' => (0, { req with data }, m')) (emulMem ops m req req.offset memVal8) := by
  have hReach : ∀ val, emulateMem ops m req.addr req.isWrite req.flitSize val =
      (barAccess ops (m.access req.addr).2 b idx req.isWrite (req.addr - (pi.piBar idx).addr)
        req.dataLen val).map (0, ·) := by
    intro val
    rw [hWf.flit]
    exact emulateMem_reaches_bar hInv h hWf.pos hBelow req.isWrite val
  unfold emulMem carried
  by_cases hWrite : req.isWrite = true
  · rw [if_pos hWrite, if_pos hWrite, assertThat_of _ (hWf.write_width.mpr (hShort hWrite)), ok_bind]
    dsimp only
    rw [hReach]
    cases barAccess ops (m.access req.addr).2 b idx req.isWrite (req.addr - (pi.piBar idx).addr)
        req.dataLen (req.writeVal (wordAt memVal8)) with
    | error e => rfl
    | ok r =>
      refine ⟨req.data, rfl, ?_⟩
      rw [if_pos hWrite]
  · rw [if_neg hWrite, if_neg hWrite]
    dsimp only
    rw [hReach]
    cases barAccess ops (m.access req.addr).2 b idx req.isWrite (req.addr - (pi.piBar idx).addr)
        req.dataLen (wordAt memVal8) with
    | error e => rfl
    | ok r =>
      obtain ⟨data, hLoop⟩ := readLoop_returns hWf r.1
      have hLane := hWf.lane
      refine ⟨data, ?_, ?_⟩
      · show (copyLoop Fault.bufferIndex (bytesOf r.1) (fun i => 7 - i)
          (fun i => 8 - req.dataLen - (req.offset.toNat % 8 : Nat) + i) req.dataLen req.data >>= _) = _
        rw [hLoop]
        rfl
      · rw [if_neg hWrite]
        intro i hi j hj
        have hInj : ∀ k < req.dataLen, ∀ l < req.dataLen,
            (8 - req.dataLen - (req.offset.toNat % 8 : Nat) + k : Int) =
              8 - req.dataLen - (req.offset.toNat % 8 : Nat) + l → k = l := by omega
        have hByte : data j = bytesOf r.1 ⟨7 - i, by omega⟩ := by
          apply copyLoop_placed hInj hLoop hi
          · show (7 - i : Int) = ((7 - i : Nat) : Int)
            omega
          · omega
        rw [hByte, bytesOf]
        have hPlace : 8 * (7 - (7 - i)) = 8 * i := by omega
        rw [hPlace]

theorem emulPci_relays (hInv : m.pci.Inv) (hWf : req.WellFormed)
    (hShort : req.isWrite = true → req.dataLen ≤ 4) (hBelow : req.addr.toNat < 2 ^ 63)
    (h : Decodes m.pci b pi idx req.addr req.dataLen) :
    Relays req (barAccess ops (m.access req.addr).2 b idx req.isWrite (req.addr - (pi.piBar idx).addr)
        req.dataLen (carried req memVal8))
      (fun data m' => ({ req with data }, m')) (emulPci ops pciLink m req memVal8 val8) := by
  have hMem := @emulMem_relays T δ b pi idx ops m req memVal8 hInv hWf hShort hBelow h
  have hType : pciLink.type = .pciGeneric := rfl
  have hOffset : req.addr - pciLink.baseEmul - EPW_WINDOW = req.offset := rfl
  unfold emulPci
  rw [assertThat_of _ hType, ok_bind]
  dsimp only
  rw [hOffset]
  unfold Relays at hMem ⊢
  cases hAccess : barAccess ops (m.access req.addr).2 b idx req.isWrite
      (req.addr - (pi.piBar idx).addr) req.dataLen (carried req memVal8) with
  | error e =>
    rw [hAccess] at hMem
    dsimp only at hMem ⊢
    rw [hMem]
    rfl
  | ok r =>
    rw [hAccess] at hMem
    obtain ⟨data, hMem, hData⟩ := hMem
    refine ⟨data, ?_, hData⟩
    rw [hMem]
    rfl

theorem carried_littleEndian (hWf : req.WellFormed) (hShort : req.isWrite = true → req.dataLen ≤ 4)
    (hWrite : req.isWrite = true) (memVal8 : Word8) :
    LittleEndian req.dataLen (dataByte req) (carried req memVal8) := by
  rw [carried, if_pos hWrite]
  exact writeVal_littleEndian hWf (hShort hWrite) _

end Answers

section Requests

variable {s : Devices T δ} {b : Bdf} {pi : PciDevinst} {idx : Nat} {req : EpwBurst}

theorem emulRequest_pci (env : Surroundings T δ) (s : Devices T δ) (r : EpwRequest) :
    DmRequest.emulRequest env pciLink s r =
      (emulPci env.ops pciLink s.machine r env.memVal8 env.val8).map
        fun x => (x.1, { s with machine := x.2 }) := by
  show emulPci env.ops pciLink s.machine r env.memVal8 env.val8 >>= _ = _
  cases emulPci env.ops pciLink s.machine r env.memVal8 env.val8 with
  | error e => rfl
  | ok x => rfl

/-- A request to an address that a BAR decodes is an access to that BAR, with the bytes of the
request in their order. -/
theorem dmRequest_relays (env : Surroundings T δ) (hInv : s.machine.pci.Inv)
    (hWindow : 0xfdb10000 ≤ req.addr.toNat ∧ req.addr.toNat < 0xfdb60000)
    (hWf : req.WellFormed) (hShort : req.isWrite = true → req.dataLen ≤ 4)
    (h : Decodes s.machine.pci b pi idx req.addr req.dataLen) :
    Relays req.toEpwRequest (barAccess env.ops (s.machine.access req.addr).2 b idx req.isWrite
        (req.addr - (pi.piBar idx).addr) req.dataLen (carried req.toEpwRequest env.memVal8))
      (fun data m' => (0, { req with data }, none, { s with machine := m' }))
      (DmRequest.dmRequest env s req) := by
  have hPci := @emulPci_relays T δ b pi idx env.ops s.machine req.toEpwRequest env.memVal8 env.val8 hInv
    hWf hShort (by omega) h
  unfold DmRequest.dmRequest
  rw [dmRequest_pci_iff.mpr hWindow]
  unfold Relays at hPci ⊢
  cases hAccess : barAccess env.ops (s.machine.access req.addr).2 b idx req.isWrite
      (req.addr - (pi.piBar idx).addr) req.dataLen (carried req.toEpwRequest env.memVal8) with
  | error e =>
    rw [hAccess] at hPci
    dsimp only at hPci ⊢
    show DmRequest.emulRequest env pciLink s req.toEpwRequest >>= _ = _
    rw [emulRequest_pci, hPci]
    rfl
  | ok r =>
    rw [hAccess] at hPci
    obtain ⟨data, hPci, hData⟩ := hPci
    refine ⟨data, ?_, hData⟩
    show DmRequest.emulRequest env pciLink s req.toEpwRequest >>= _ = _
    rw [emulRequest_pci, hPci]
    rfl

end Requests

end DeviceModel.PciEmul

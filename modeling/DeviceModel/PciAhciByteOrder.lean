import DeviceModel.PciAhciTransfer

/-!
# The AHCI controller: the byte order of what it writes

The guest's structures are little-endian. The device decodes what it reads of them, but stores
`prdbc` of a command header and the `SActive` field of a set-device-bits FIS as they are in a
register of the big-endian processor.
-/

set_option autoImplicit false

namespace DeviceModel.PciAhci

open Fallible BlockIf Bytes ScatterGather

/-- The request that is out for a block transfer, and those that it has made, this one included.
Each was made on some port, which showed whatever there was then. -/
inductive Moves (slot : Slot) (cfis : BitVec 64) : AhciIoreq → List BlockifReq → Prop where
  | first {s : Port} {io : AhciIoreq} {breq : BlockifReq}
      (hChunk : s.rwChunk slot cfis 0 = .ok (io, breq)) : Moves slot cfis io [breq]
  | carryOn {s : Port} {io io' : AhciIoreq} {breq : BlockifReq} {cs : List BlockifReq}
      (hMoves : Moves slot cfis io cs) (hMore : io.more = true)
      (hChunk : s.rwChunk slot cfis io.done = .ok (io', breq)) : Moves slot cfis io' (cs ++ [breq])

namespace Port

section Prdbc

variable (s : Port) (slot : Slot) (cfis : BitVec 64)

/-- `prdbc` of the command header of a slot, as the guest reads it. -/
def prdbc : BitVec 32 := le32toh (s.mem.load32 (s.cmdHdr slot + 4))

/-- The sum of `sublen` over the loop of `write_prdt`, as `writePrdtFrom` goes through it. -/
def sublens (hdr : BitVec 64) : Nat → Memory → Nat → BitVec 64 → List (BitVec 8) → Nat
  | 0, _, _, _, _ => 0
  | n + 1, m, i, prdt, buf =>
    if i < hdrPrdtl m hdr ∧ buf ≠ [] then
      let sublen := min buf.length (prdtSize m prdt)
      let ptr := paddrGuest2host (prdtBase m prdt)
      sublen + sublens hdr n (m.storeBytes ptr (buf.take sublen)) (i + 1) (prdt + 16) (buf.drop sublen)
    else 0

def replied (buf : List (BitVec 8)) : Nat :=
  sublens (s.cmdHdr slot) buf.length s.mem 0 (cfis + 0x80) buf

variable {s} {slot} {cfis}

/-- A count that is stored is read by the guest exactly if its bytes read the same in either order. -/
theorem prdbc_setPrdbc_iff (count : Nat) :
    (s.setPrdbc slot count).prdbc slot = BitVec.ofNat 32 count ↔ Palindromic (BitVec.ofNat 32 count) := by
  have hLoad : (s.setPrdbc slot count).prdbc slot = bswap32 (BitVec.ofNat 32 count) := by
    rw [prdbc, le32toh]
    exact congrArg bswap32 (Memory.load32_store32 _ _ _)
  rw [hLoad, bswap32_eq_self_iff]

theorem writePrdtFrom_left (hdr : BitVec 64) (n : Nat) (m : Memory) (i : Nat) (prdt : BitVec 64)
    (buf : List (BitVec 8)) :
    (writePrdtFrom hdr n m i prdt buf).2 + sublens hdr n m i prdt buf = buf.length := by
  induction n generalizing m i prdt buf with
  | zero => rfl
  | succ n ih =>
    rw [writePrdtFrom, sublens]
    split
    · dsimp only
      have hRest := ih (m.storeBytes (paddrGuest2host (prdtBase m prdt))
        (buf.take (min buf.length (prdtSize m prdt)))) (i + 1) (prdt + 16)
        (buf.drop (min buf.length (prdtSize m prdt)))
      rw [List.length_drop] at hRest
      omega
    · rfl

theorem writePrdt_prdbc_iff (buf : List (BitVec 8)) :
    (s.writePrdt slot cfis buf).prdbc slot = BitVec.ofNat 32 (s.replied slot cfis buf) ↔
      Palindromic (BitVec.ofNat 32 (s.replied slot cfis buf)) := by
  have hLeft := writePrdtFrom_left (s.cmdHdr slot) buf.length s.mem 0 (cfis + 0x80) buf
  have hCount : buf.length - (writePrdtFrom (s.cmdHdr slot) buf.length s.mem 0 (cfis + 0x80) buf).2 =
      s.replied slot cfis buf := by
    rw [replied]
    omega
  rw [writePrdt]
  dsimp only
  rw [hCount]
  exact prdbc_setPrdbc_iff _

theorem rwChunk_done {done : Nat} {io : AhciIoreq} {breq : BlockifReq}
    (hChunk : s.rwChunk slot cfis done = .ok (io, breq)) :
    io.slot = slot ∧ io.done = done + moved [breq] := by
  obtain ⟨taken, rest, -, hBuild⟩ := ahciBuildIov_cases s s.p.bctx.bcSectsz (cfis + 0x80)
    (s.prdtl slot) (s.rwLen cfis) done
  have hMoved : ∀ c : BlockifReq, moved [c] = (c.brIov.map Iovec.iovLen).sum := by
    intro c
    simp [moved]
  rw [rwChunk, hBuild] at hChunk
  split at hChunk
  · have hTrim : total (trim (total taken % s.p.bctx.bcSectsz) taken.reverse).reverse =
        total taken - total taken % s.p.bctx.bcSectsz := by
      rw [total_reverse, total_trim (by rw [total_reverse]; exact Nat.mod_le _ _), total_reverse]
    rw [bind_eq_ok_iff] at hChunk
    obtain ⟨r, hAssert, hChunk⟩ := hChunk
    obtain ⟨-, -, hRest⟩ := bind_eq_ok_iff.mp hAssert
    cases hRest
    cases hChunk
    rw [hMoved, sum_hostVec, hTrim]
    exact ⟨rfl, rfl⟩
  · cases hChunk
    rw [hMoved, sum_hostVec]
    exact ⟨rfl, rfl⟩

end Prdbc

section Sdb

variable {s : Port}

theorem ahciWriteFis_mem {ft : SataFisType} {fis : List (BitVec 8)} {rfis : BitVec 64}
    {offset len : Nat} {ix : BitVec 32} (hRfis : s.p.rfis = some rfis)
    (hLayout : fisLayout ft = some (offset, len, ix)) (hFre : s.p.cmd &&& AHCI_P_CMD_FRE ≠ 0) :
    Yields (fun _ => True)
      (fun t => t.mem = s.mem.storeBytes (rfis + BitVec.ofNat 64 offset) (fis.take len))
      (s.ahciWriteFis ft fis) := by
  have hIntr : ∀ t : Port, Yields (fun _ => True) (fun u => u.mem = t.mem) t.ahciPortIntr := by
    intro t
    refine (assertThat_yields fun _ => trivial).bind fun _ _ _ => ?_
    unfold raiseIntr
    refine Yields.ite rfl (Yields.ite rfl (Yields.ite rfl (Yields.ite rfl (Yields.ite rfl (Yields.ite rfl ?_)))))
    exact (yields_true _).bind fun _ _ _ => rfl
  unfold ahciWriteFis
  rw [hRfis, hLayout]
  dsimp only
  rw [if_neg hFre]
  refine Yields.ite rfl ?_
  exact hIntr _

/-- `SActive` of the set-device-bits FIS that is in the receive area, as the guest reads it. -/
def sdbSActive (m : Memory) (rfis : BitVec 64) : BitVec 32 := le32toh (m.load32 (rfis + 0x58 + 4))

theorem ahciWriteFisSdb_sActive {rfis : BitVec 64} {slot : Slot} {cfis : BitVec 64} {tfd : BitVec 32}
    (hRfis : s.p.rfis = some rfis) (hFre : s.p.cmd &&& AHCI_P_CMD_FRE ≠ 0)
    (hDone : tfd &&& ATA_S_ERROR = 0) : Yields (fun _ => True)
      (fun t => sdbSActive t.mem rfis = bswap32 (bit slot)) (s.ahciWriteFisSdb slot cfis tfd) := by
  have hOk : ¬ tfd &&& 0x77 &&& ATA_S_ERROR ≠ 0 := by
    have hMask : (0x77 : BitVec 32) &&& ATA_S_ERROR = ATA_S_ERROR := by decide
    rw [BitVec.and_assoc, hMask]
    exact not_not.mpr hDone
  unfold ahciWriteFisSdb
  simp only [if_neg hOk]
  refine Yields.imp (ahciWriteFis_mem hRfis rfl hFre) fun t _ ht => ?_
  rw [sdbSActive, le32toh, ht]
  refine congrArg bswap32 (Eq.trans (Memory.load32_storeBytes _ (i := 4) ?_ ?_) (extract_halves (bit slot)))
  · have hEight : 8 ≤ 2 ^ 64 := by decide
    exact hEight
  · have hLast : 4 + 3 < 8 := by decide
    exact hLast

end Sdb

end Port

theorem Moves.count {slot : Slot} {cfis : BitVec 64} {io : AhciIoreq} {cs : List BlockifReq}
    (h : Moves slot cfis io cs) : io.slot = slot ∧ io.done = moved cs := by
  induction h with
  | first hChunk =>
    obtain ⟨hSlot, hDone⟩ := Port.rwChunk_done hChunk
    rw [Nat.zero_add] at hDone
    exact ⟨hSlot, hDone⟩
  | carryOn _ _ hChunk ih =>
    obtain ⟨hSlot, hDone⟩ := Port.rwChunk_done hChunk
    refine ⟨hSlot, ?_⟩
    rw [hDone, ih.2]
    simp [moved]

/-- The guest reads the count of bytes that a block transfer or a reply has moved exactly if its bytes
read the same in either order, and it never reads the slot of a queued command that is done. -/
theorem deviceFields_littleEndian_iff (s : Port) (slot : Slot) (cfis : BitVec 64) :
    (∀ (io : AhciIoreq) (cs : List BlockifReq) (aior : IoreqId), Moves slot cfis io cs →
      s.p.ioreq aior = io →
        ((s.comeBack aior 0).prdbc slot = BitVec.ofNat 32 (moved cs) ↔
          Palindromic (BitVec.ofNat 32 (moved cs)))) ∧
    (∀ buf : List (BitVec 8),
      (s.writePrdt slot cfis buf).prdbc slot = BitVec.ofNat 32 (s.replied slot cfis buf) ↔
        Palindromic (BitVec.ofNat 32 (s.replied slot cfis buf))) ∧
    ∀ (rfis : BitVec 64) (tfd : BitVec 32), s.p.rfis = some rfis → s.p.cmd &&& AHCI_P_CMD_FRE ≠ 0 →
      tfd &&& ATA_S_ERROR = 0 → Yields (fun _ => True)
        (fun t => Port.sdbSActive t.mem rfis ≠ bit slot) (s.ahciWriteFisSdb slot cfis tfd) := by
  refine ⟨fun io cs aior hMoves hIo => ?_, fun buf => Port.writePrdt_prdbc_iff buf,
    fun rfis tfd hRfis hFre hDone => ?_⟩
  · obtain ⟨hSlot, hDone⟩ := hMoves.count
    have hBack : ∃ t : Port, s.comeBack aior 0 = t.setPrdbc slot (moved cs) := by
      unfold Port.comeBack
      dsimp only
      rw [if_pos rfl, hIo, hSlot, hDone]
      exact ⟨_, rfl⟩
    obtain ⟨t, ht⟩ := hBack
    rw [ht]
    exact Port.prdbc_setPrdbc_iff _
  · have hNever : ∀ slot : Slot, bswap32 (bit slot) ≠ bit slot := by decide
    exact (Port.ahciWriteFisSdb_sActive hRfis hFre hDone).imp fun t _ ht => ht.symm ▸ hNever slot

section Examples

def sectorIoreq : AhciIoreq := ⟨0x100, 512, 512, 0, false⟩

def sectorAior : IoreqId := ⟨0, by decide⟩

def sectorReq : BlockifReq := ⟨0, 512, [⟨paddrGuest2host 0, 512⟩]⟩

theorem sector_moves : Moves 0 0x100 sectorIoreq [sectorReq] := by
  have hChunk : ((readPort 1 512).rwChunk 0 0x100 0).toOption = some (sectorIoreq, sectorReq) := by
    decide +kernel
  exact .first (toOption_eq_some_iff.mp hChunk)

def sectorPort : Port :=
  { readPort 1 512 with
    p := { (readPort 1 512).p with
      ioreq := fun _ => sectorIoreq, rfis := some (paddrGuest2host 0x4000), cmd := AHCI_P_CMD_FRE } }

theorem deviceFields_littleEndian_iff_sector :
    ((sectorPort.comeBack sectorAior 0).prdbc 0 = BitVec.ofNat 32 (moved [sectorReq]) ↔
      Palindromic (BitVec.ofNat 32 (moved [sectorReq]))) ∧
    ((sectorPort.writePrdt 0 0x100 [1, 2]).prdbc 0 = BitVec.ofNat 32 (sectorPort.replied 0 0x100 [1, 2]) ↔
      Palindromic (BitVec.ofNat 32 (sectorPort.replied 0 0x100 [1, 2]))) ∧
    Yields (fun _ => True) (fun t => Port.sdbSActive t.mem (paddrGuest2host 0x4000) ≠ bit (0 : Slot))
      (sectorPort.ahciWriteFisSdb 0 0x100 tfdDone) := by
  have hIff := deviceFields_littleEndian_iff sectorPort 0 0x100
  exact ⟨hIff.1 _ _ sectorAior sector_moves rfl, hIff.2.1 [1, 2],
    hIff.2.2 _ tfdDone rfl (by decide) (by decide)⟩

/-- The guest reads 131072 for 512. -/
theorem deviceFields_bigEndian : ¬
    ((∀ (slot : Slot) (cfis : BitVec 64) (io : AhciIoreq) (cs : List BlockifReq), Moves slot cfis io cs →
      ∀ (s : Port) (aior : IoreqId), s.p.ioreq aior = io →
        (s.comeBack aior 0).prdbc slot = BitVec.ofNat 32 (moved cs)) ∧
    (∀ (s : Port) (slot : Slot) (cfis : BitVec 64) (buf : List (BitVec 8)),
      (s.writePrdt slot cfis buf).prdbc slot = BitVec.ofNat 32 (s.replied slot cfis buf)) ∧
    ∀ (s : Port) (slot : Slot) (cfis rfis : BitVec 64) (tfd : BitVec 32), s.p.rfis = some rfis →
      s.p.cmd &&& AHCI_P_CMD_FRE ≠ 0 → tfd &&& ATA_S_ERROR = 0 → Yields (fun _ => True)
        (fun t => Port.sdbSActive t.mem rfis = bit slot) (s.ahciWriteFisSdb slot cfis tfd)) := by
  rintro ⟨hTransfer, -, -⟩
  have hRead : (sectorPort.comeBack sectorAior 0).prdbc 0 = 0x20000 := by decide +kernel
  have hMoved : BitVec.ofNat 32 (moved [sectorReq]) = 0x200 := by decide +kernel
  have hSame := hTransfer 0 0x100 _ _ sector_moves sectorPort sectorAior rfl
  rw [hRead, hMoved] at hSame
  exact absurd hSame (by decide)

end Examples

end DeviceModel.PciAhci

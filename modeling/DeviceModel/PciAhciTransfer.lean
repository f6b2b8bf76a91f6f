import DeviceModel.Lib.ScatterGather
import DeviceModel.PciAhciDevice
import Mathlib.Data.BitVec

/-!
# The AHCI controller: a transfer in chunks

`ahci_build_iov` takes what a request has room for of the PRDT, and a transfer goes on
with the next request until all of it is moved. The PRDT is a scatter list of guest
memory; that it does not change while the transfer runs is up to the guest.
-/

set_option autoImplicit false

namespace DeviceModel.PciAhci

open Fallible BlockIf ScatterGather

def hostVec (g : Segment (BitVec 64)) : Iovec := ⟨paddrGuest2host g.base, g.len⟩

def prdtEntries (m : Memory) : Nat → BitVec 64 → List (Segment (BitVec 64))
  | 0, _ => []
  | n + 1, prdt => ⟨Port.prdtBase m prdt, Port.prdtSize m prdt⟩ :: prdtEntries m n (prdt + 16)

section Build

theorem prdtEntries_pos (m : Memory) (n : Nat) (prdt : BitVec 64) :
    ∀ g ∈ prdtEntries m n prdt, 0 < g.len := by
  induction n generalizing prdt with
  | zero => simp [prdtEntries]
  | succ n ih =>
    intro g hMem
    rcases List.mem_cons.mp hMem with rfl | hRest
    · exact Nat.succ_pos _
    · exact ih _ g hRest

/-- The loop of `ahci_build_iov` takes segments of the PRDT. -/
theorem buildVecs_eq (m : Memory) (n : Nat) (prdt : BitVec 64) (skip left : Nat) (iov : List Iovec) :
    Port.buildVecs m n prdt skip left iov =
      (iov ++ (gather (prdtEntries m n prdt) (BLOCKIF_IOV_MAX - iov.length) skip left).1.map hostVec,
        (gather (prdtEntries m n prdt) (BLOCKIF_IOV_MAX - iov.length) skip left).2.length) := by
  induction n generalizing prdt skip left iov with
  | zero => simp [Port.buildVecs, prdtEntries, gather]
  | succ n ih =>
    have hLength : (prdtEntries m n (prdt + 16)).length = n := by
      clear ih
      generalize prdt + 16 = a
      induction n generalizing a with
      | zero => rfl
      | succ n ihn => rw [prdtEntries, List.length_cons, ihn]
    rw [Port.buildVecs, prdtEntries, gather]
    by_cases hMore : iov.length < BLOCKIF_IOV_MAX ∧ 0 < left
    · have hRoom : 0 < BLOCKIF_IOV_MAX - iov.length ∧ 0 < left := ⟨by omega, hMore.2⟩
      rw [if_pos hMore, if_pos hRoom]
      dsimp only
      by_cases hSkipped : Port.prdtSize m prdt ≤ skip
      · rw [if_pos hSkipped, if_pos hSkipped, ih]
      · rw [if_neg hSkipped, if_neg hSkipped, ih, List.length_append, List.length_singleton,
          Nat.sub_add_eq, List.map_cons, List.append_assoc]
        rfl
    · have hNone : ¬ (0 < BLOCKIF_IOV_MAX - iov.length ∧ 0 < left) := fun h => hMore ⟨by omega, h.2⟩
      rw [if_neg hMore, if_neg hNone, List.length_cons, hLength, List.map_nil, List.append_nil]

theorem trimVecs_eq (extra : Nat) (gs : List (Segment (BitVec 64))) :
    Port.trimVecs extra (gs.map hostVec) = (trim extra gs).map hostVec := by
  induction gs generalizing extra with
  | nil => cases extra <;> rfl
  | cons g gs ih =>
    cases extra with
    | zero => rfl
    | succ extra =>
      rw [List.map_cons, Port.trimVecs, trim]
      by_cases hPart : extra + 1 < g.len
      · rw [if_pos (show extra + 1 < (hostVec g).iovLen from hPart), if_pos hPart]
        rfl
      · rw [if_neg (show ¬ extra + 1 < (hostVec g).iovLen from hPart), if_neg hPart]
        exact ih _

theorem sum_hostVec (gs : List (Segment (BitVec 64))) :
    ((gs.map hostVec).map Iovec.iovLen).sum = total gs := by
  rw [List.map_map]
  rfl

end Build

section Chunk

/-- What `ahci_build_iov` may yield: whole sectors of the PRDT from `done` on, and whether some
are left. -/
structure BuiltIov (gs : List (Segment (BitVec 64))) (sectsz len done : Nat)
    (r : List Iovec × Nat × Bool) : Prop where
  few : r.1.length ≤ BLOCKIF_IOV_MAX
  some : 0 < r.2.1
  sector : sectsz ∣ done + r.2.1
  within : done + r.2.1 ≤ len
  more : r.2.2 = true ↔ done + r.2.1 < len
  pieces : ∃ ps, r.1 = ps.map hostVec ∧ scatter ps = ((scatter gs).drop done).take r.2.1

variable {s : Port} {sectsz len done n : Nat} {prdt : BitVec 64}

theorem ahciBuildIov_cases (s : Port) (sectsz : Nat) (prdt : BitVec 64) (n len done : Nat) :
    ∃ taken rest, gather (prdtEntries s.mem n prdt) BLOCKIF_IOV_MAX done (len - done) =
        (taken, rest) ∧
      s.ahciBuildIov sectsz prdt n len done =
        if taken.length = BLOCKIF_IOV_MAX then do
          assertThat (0 < total taken - total taken % sectsz) .buildIovTodo
          .ok ((trim (total taken % sectsz) taken.reverse).reverse.map hostVec,
            total taken - total taken % sectsz,
            done + (total taken - total taken % sectsz) < len ∧ 0 < rest.length)
        else .ok (taken.map hostVec, total taken, done + total taken < len ∧ 0 < rest.length) := by
  refine ⟨_, _, rfl, ?_⟩
  rw [Port.ahciBuildIov, buildVecs_eq, List.length_nil, Nat.sub_zero, List.nil_append]
  dsimp only
  rw [List.length_map, sum_hostVec, ← List.map_reverse, trimVecs_eq, ← List.map_reverse]

theorem ahciBuildIov_yields (hSector : sectsz ∣ len) (hDone : sectsz ∣ done) (hLess : done < len)
    (hTotal : len ≤ total (prdtEntries s.mem n prdt)) :
    Yields (· = .buildIovTodo) (BuiltIov (prdtEntries s.mem n prdt) sectsz len done)
      (s.ahciBuildIov sectsz prdt n len done) := by
  obtain ⟨taken, rest, hGather, hBuild⟩ := ahciBuildIov_cases s sectsz prdt n len done
  have hScatter := scatter_gather (prdtEntries s.mem n prdt) BLOCKIF_IOV_MAX done (len - done)
  have hLeft := total_gather_le (prdtEntries s.mem n prdt) BLOCKIF_IOV_MAX done (len - done)
  have hCount := length_gather (prdtEntries s.mem n prdt) BLOCKIF_IOV_MAX done (len - done)
  have hAll := total_gather (prdtEntries s.mem n prdt) BLOCKIF_IOV_MAX done (len - done)
  rw [hGather] at hScatter hLeft hCount hAll
  dsimp only at hScatter hLeft hCount hAll
  rw [hBuild]
  split
  · next hFull =>
    have hAssert : Yields (· = Fault.buildIovTodo) (fun _ => 0 < total taken - total taken % sectsz)
        (assertThat (0 < total taken - total taken % sectsz) .buildIovTodo) :=
      assertThat_yields fun _ => rfl
    apply hAssert.bind
    intro _ _ hTodo
    have hDown := Nat.mod_le (total taken) sectsz
    have hWhole : sectsz ∣ total taken - total taken % sectsz := Nat.dvd_sub_mod _
    constructor
    · dsimp only
      rw [List.length_map, List.length_reverse]
      have hTrim := length_trim (total taken % sectsz) taken.reverse
      rw [List.length_reverse] at hTrim
      omega
    · exact hTodo
    · exact Nat.dvd_add hDone hWhole
    · dsimp only
      omega
    · dsimp only
      rw [decide_eq_true_iff, and_iff_left_iff_imp]
      intro hMore
      by_contra hNone
      obtain rfl : rest = [] := List.eq_nil_of_length_eq_zero (by omega)
      have hTotalTaken : total taken = len - done := by
        rw [hAll (.inr rfl)]
        omega
      have hExtra : total taken % sectsz = 0 := by
        rw [hTotalTaken]
        exact Nat.mod_eq_zero_of_dvd (Nat.dvd_sub hSector hDone)
      omega
    · refine ⟨_, rfl, ?_⟩
      dsimp only
      rw [scatter_trim (by rw [total_reverse]; exact hDown), List.reverse_reverse, total_reverse,
        hScatter, List.take_take, Nat.min_eq_left (Nat.sub_le _ _)]
  · next hFew =>
    have hTotalTaken : total taken = len - done := by
      rw [hAll (.inl (by omega))]
      omega
    constructor
    · dsimp only
      rw [List.length_map]
      exact hCount
    · dsimp only
      omega
    · dsimp only
      rw [hTotalTaken, Nat.add_sub_cancel' (Nat.le_of_lt hLess)]
      exact hSector
    · dsimp only
      omega
    · dsimp only
      rw [decide_eq_true_iff]
      omega
    · exact ⟨taken, rfl, hScatter⟩

end Chunk

section Transfer

namespace Port

variable (s : Port) (slot : Slot) (cfis : BitVec 64)

def entries : List (Segment (BitVec 64)) := prdtEntries s.mem (s.prdtl slot) (cfis + 0x80)

def rwLen : Nat := (s.rwRange cfis).2 * s.p.bctx.bcSectsz

def rwOffset : BitVec 64 := (s.rwRange cfis).1 * BitVec.ofNat 64 s.p.bctx.bcSectsz

/-- What `ahci_handle_rw` notes and asks the block interface for, from `done` on. -/
def rwChunk (done : Nat) : Except Fault (AhciIoreq × BlockifReq) := do
  let (iov, todo, more) ←
    s.ahciBuildIov s.p.bctx.bcSectsz (cfis + 0x80) (s.prdtl slot) (s.rwLen cfis) done
  .ok (⟨cfis, s.rwLen cfis, done + todo, slot, more⟩,
    ⟨s.rwOffset cfis + BitVec.ofNat 64 done, BitVec.ofNat 64 todo, iov⟩)

theorem ahciHandleRw_eq (done : Nat) : s.ahciHandleRw slot cfis done = (do
    assertThat (s.p.attached = true) .nullBctx
    let (aior, t) ← s.pullIoreq
    let (io, breq) ← s.rwChunk slot cfis done
    t.sendOut (if s.cfisByte cfis 2 ∈ writeCmds then .write else .read)
      (s.cfisByte cfis 2 ∈ rwCmdsQueued ∧ done = 0) aior io breq) := by
  unfold ahciHandleRw sectsz pullIoreq
  by_cases hAttached : s.p.attached = true
  swap
  · rw [assertThat, if_neg hAttached]
    rfl
  rw [assertThat_of _ hAttached]
  cases s.p.iofhd with
  | nil => rfl
  | cons aior iofhd =>
    dsimp only [ok_bind]
    change (s.ahciBuildIov s.p.bctx.bcSectsz (cfis + 0x80) (s.prdtl slot) (s.rwLen cfis) done >>= _) = _
    rw [rwChunk]
    cases s.ahciBuildIov s.p.bctx.bcSectsz (cfis + 0x80) (s.prdtl slot) (s.rwLen cfis) done <;> rfl

end Port

/-- The requests of a command, one after another as `ata_ioreq_cb` carries it on. `ss i` is the
port when the request `i` goes out. -/
def rwChunks (slot : Slot) (cfis : BitVec 64) (ss : Nat → Port) :
    Nat → Nat → Nat → Except Fault (List BlockifReq)
  | 0, _, _ => .error .thrLoop
  | fuel + 1, i, done => do
    let (io, breq) ← (ss i).rwChunk slot cfis done
    let rest ← (if io.more then rwChunks slot cfis ss fuel (i + 1) io.done else .ok [])
    .ok (breq :: rest)

def moved (cs : List BlockifReq) : Nat := ((cs.flatMap (·.brIov)).map Iovec.iovLen).sum

/-- The requests move the bytes of a scatter list from `done` to `len`, each once and in order, to
or from as many bytes of the disk. -/
structure Covers (gs : List (Segment (BitVec 64))) (sectsz len : Nat) (off : BitVec 64) (done : Nat)
    (cs : List BlockifReq) : Prop where
  few : ∀ c ∈ cs, c.brIov.length ≤ BLOCKIF_IOV_MAX
  placed : ∀ pre c post, cs = pre ++ c :: post →
    sectsz ∣ done + moved pre ∧ c.brOffset = off + BitVec.ofNat 64 (done + moved pre)
  pieces : ∃ ps, cs.flatMap (·.brIov) = ps.map hostVec ∧
    scatter ps = ((scatter gs).drop done).take (len - done)

structure SameCommand (slot : Slot) (cfis : BitVec 64) (s t : Port) : Prop where
  range : t.rwRange cfis = s.rwRange cfis
  sectsz : t.p.bctx.bcSectsz = s.p.bctx.bcSectsz
  entries : t.entries slot cfis = s.entries slot cfis

variable {slot : Slot} {cfis : BitVec 64}

theorem rwChunk_yields {s t : Port} (hSame : SameCommand slot cfis s t) {done : Nat}
    (hDone : s.p.bctx.bcSectsz ∣ done) (hLess : done < s.rwLen cfis)
    (hTotal : s.rwLen cfis ≤ total (s.entries slot cfis)) :
    Yields (· = .buildIovTodo)
      (fun c => c.2.brOffset = s.rwOffset cfis + BitVec.ofNat 64 done ∧ done < c.1.done ∧
        c.1.more = decide (c.1.done < s.rwLen cfis) ∧
        BuiltIov (s.entries slot cfis) s.p.bctx.bcSectsz (s.rwLen cfis) done
          (c.2.brIov, c.1.done - done, c.1.more))
      (t.rwChunk slot cfis done) := by
  have hLen : t.rwLen cfis = s.rwLen cfis := by
    rw [Port.rwLen, hSame.range, hSame.sectsz, Port.rwLen]
  have hOffset : t.rwOffset cfis = s.rwOffset cfis := by
    rw [Port.rwOffset, hSame.range, hSame.sectsz, Port.rwOffset]
  have hBuilt : Yields (· = Fault.buildIovTodo)
      (BuiltIov (t.entries slot cfis) t.p.bctx.bcSectsz (t.rwLen cfis) done) (t.ahciBuildIov
        t.p.bctx.bcSectsz (cfis + 0x80) (t.prdtl slot) (t.rwLen cfis) done) :=
    @ahciBuildIov_yields t t.p.bctx.bcSectsz (t.rwLen cfis) done (t.prdtl slot) (cfis + 0x80)
      (Nat.dvd_mul_left _ _) (by rw [hSame.sectsz]; exact hDone) (by rw [hLen]; exact hLess)
      (by rw [hLen]; exact hTotal.trans_eq (congrArg total hSame.entries.symm))
  apply hBuilt.bind
  rintro ⟨iov, todo, more⟩ - h
  rw [hSame.entries, hSame.sectsz, hLen] at h
  have hSome := h.some
  have hMore := h.more
  dsimp only at hSome hMore
  refine ⟨by rw [hOffset], by dsimp only; omega, ?_, ?_⟩
  · dsimp only
    rw [Bool.eq_iff_iff, hMore, decide_eq_true_iff]
  · dsimp only
    rwa [Nat.add_sub_cancel_left]

theorem sum_moved_cons (c : BlockifReq) (cs : List BlockifReq) :
    moved (c :: cs) = (c.brIov.map Iovec.iovLen).sum + moved cs := by
  rw [moved, List.flatMap_cons, List.map_append, List.sum_append]
  rfl

theorem Covers.last {gs : List (Segment (BitVec 64))} {sectsz len done : Nat} {off : BitVec 64}
    {c : BlockifReq} {ps : List (Segment (BitVec 64))} (hFew : c.brIov.length ≤ BLOCKIF_IOV_MAX)
    (hDone : sectsz ∣ done) (hOffset : c.brOffset = off + BitVec.ofNat 64 done)
    (hPieces : c.brIov = ps.map hostVec)
    (hScatter : scatter ps = ((scatter gs).drop done).take (len - done)) :
    Covers gs sectsz len off done [c] where
  few d hMem := by
    obtain rfl := List.mem_singleton.mp hMem
    exact hFew
  placed pre d post hSplit := by
    obtain ⟨rfl, hHead⟩ := List.append_eq_singleton_iff.mp hSplit.symm |>.resolve_right (by simp)
    obtain ⟨rfl, -⟩ := List.cons.inj hHead
    exact ⟨hDone, hOffset⟩
  pieces := ⟨ps, by simpa using hPieces, hScatter⟩

theorem Covers.cons {gs : List (Segment (BitVec 64))} {sectsz len done next : Nat} {off : BitVec 64}
    {c : BlockifReq} {cs : List BlockifReq} {ps : List (Segment (BitVec 64))}
    (h : Covers gs sectsz len off next cs) (hFew : c.brIov.length ≤ BLOCKIF_IOV_MAX)
    (hDone : sectsz ∣ done) (hOffset : c.brOffset = off + BitVec.ofNat 64 done)
    (hForward : done < next) (hLess : next < len) (hPieces : c.brIov = ps.map hostVec)
    (hScatter : scatter ps = ((scatter gs).drop done).take (next - done))
    (hMoved : (c.brIov.map Iovec.iovLen).sum = next - done) :
    Covers gs sectsz len off done (c :: cs) where
  few d hMem := by
    rcases List.mem_cons.mp hMem with rfl | hRest
    · exact hFew
    · exact h.few d hRest
  placed pre d post hSplit := by
    cases pre with
    | nil =>
      obtain ⟨rfl, -⟩ := List.cons.inj hSplit
      exact ⟨hDone, hOffset⟩
    | cons c' pre =>
      obtain ⟨rfl, hRest⟩ := List.cons.inj hSplit
      have hPlaced := h.placed pre d post hRest
      have hNext : done + moved (c :: pre) = next + moved pre := by
        rw [sum_moved_cons, hMoved]
        omega
      rwa [hNext]
  pieces := by
    obtain ⟨qs, hQs, hRest⟩ := h.pieces
    refine ⟨ps ++ qs, ?_, ?_⟩
    · rw [List.flatMap_cons, hQs, hPieces, List.map_append]
    · have hSplit : len - done = (next - done) + (len - next) := by omega
      have hDrop : ((scatter gs).drop done).drop (next - done) = (scatter gs).drop next := by
        rw [List.drop_drop, Nat.add_sub_cancel' (Nat.le_of_lt hForward)]
      rw [scatter_append, hScatter, hRest, hSplit, List.take_add, hDrop]

/-- The chunks of a transfer cover it. Each but the last one moves at least a sector, so that
there are no more of them than sectors. -/
theorem rwChunks_yields {ss : Nat → Port} (hSame : ∀ i, SameCommand slot cfis (ss 0) (ss i))
    (hTotal : (ss 0).rwLen cfis ≤ total ((ss 0).entries slot cfis)) (fuel i : Nat) {done : Nat}
    (hDone : (ss 0).p.bctx.bcSectsz ∣ done) (hLess : done < (ss 0).rwLen cfis)
    (hFuel : (ss 0).rwLen cfis ≤ done + fuel * (ss 0).p.bctx.bcSectsz) :
    Yields (· = .buildIovTodo)
      (Covers ((ss 0).entries slot cfis) (ss 0).p.bctx.bcSectsz ((ss 0).rwLen cfis)
        ((ss 0).rwOffset cfis) done)
      (rwChunks slot cfis ss fuel i done) := by
  induction fuel generalizing i done with
  | zero => omega
  | succ fuel ih =>
    apply (rwChunk_yields (hSame i) hDone hLess hTotal).bind
    rintro ⟨io, breq⟩ - ⟨hOffset, hForward, hMore, hBuilt⟩
    dsimp only at hOffset hForward hMore hBuilt ⊢
    have hNext : done + (io.done - done) = io.done := by omega
    have hSector := hBuilt.sector
    have hWithin := hBuilt.within
    obtain ⟨ps, hPieces, hScatter⟩ := hBuilt.pieces
    dsimp only at hSector hWithin hPieces hScatter
    rw [hNext] at hSector hWithin
    have hMoved : (breq.brIov.map Iovec.iovLen).sum = io.done - done := by
      rw [hPieces, sum_hostVec, ← length_scatter ps, hScatter, List.length_take, List.length_drop,
        length_scatter]
      omega
    cases hEnd : io.more with
    | false =>
      have hAll : io.done = (ss 0).rwLen cfis := by
        rw [hEnd] at hMore
        have hNot := of_decide_eq_false hMore.symm
        omega
      rw [hAll] at hScatter
      exact Covers.last hBuilt.few hDone hOffset hPieces hScatter
    | true =>
      have hLeft : io.done < (ss 0).rwLen cfis := by
        rw [hEnd] at hMore
        exact of_decide_eq_true hMore.symm
      have hWhole : (ss 0).p.bctx.bcSectsz ≤ io.done - done :=
        Nat.le_of_dvd (by omega) (Nat.dvd_sub hSector hDone)
      have hRest := ih (i + 1) hSector hLeft (by
        rw [Nat.succ_mul] at hFuel
        omega)
      apply hRest.bind
      intro cs _ hCovers
      exact hCovers.cons hBuilt.few hDone hOffset hForward hLeft hPieces hScatter hMoved

theorem rwRange_pos (s : Port) (cfis : BitVec 64) : 0 < (s.rwRange cfis).2 := by
  have hCount : ∀ {n : Nat} (b : BitVec n) (k : Nat), 0 < k → 0 < if b = 0 then k else b.toNat := by
    intro n b k hk
    split
    · exact hk
    · next hb => exact Nat.pos_of_ne_zero fun h => hb (BitVec.eq_of_toNat_eq (by simpa using h))
  unfold Port.rwRange
  dsimp only
  split
  · exact hCount _ _ (by decide)
  split
  · exact hCount _ _ (by decide)
  · exact hCount _ _ (by decide)

/-- Unless the assertion on `todo` fails, the requests of a command move what its PRDT names, from
the first sector of the command on, in whole sectors and with as many vectors as fit. -/
theorem rwChunks_cover (ss : Nat → Port) (slot : Slot) (cfis : BitVec 64)
    (hSame : ∀ i, SameCommand slot cfis (ss 0) (ss i)) (hSector : 0 < (ss 0).p.bctx.bcSectsz)
    (hTotal : (ss 0).rwLen cfis ≤ total ((ss 0).entries slot cfis)) :
    Yields (· = .buildIovTodo)
      (Covers ((ss 0).entries slot cfis) (ss 0).p.bctx.bcSectsz ((ss 0).rwLen cfis)
        ((ss 0).rwOffset cfis) 0)
      (rwChunks slot cfis ss ((ss 0).rwRange cfis).2 0 0) := by
  apply rwChunks_yields hSame hTotal _ 0 (Nat.dvd_zero _)
  · exact Nat.mul_pos (rwRange_pos _ _) hSector
  · rw [Nat.zero_add]
    exact Nat.le_refl _

/-- A port with a command to read one sector in slot 0, whose PRDT has `prdtl` entries of `size`
bytes. -/
def readPort (prdtl size : BitVec 16) : Port where
  p := { callocPort 0 with attached := true }
  sc := ⟨PciEmul.pciEmulInit ⟨0, 5, 0⟩, PthreadMutex.pthreadMutexInit, 6, 0, 0, false, fun _ => 0⟩
  mem a :=
    if 0x180 ≤ a then
      if a &&& 15 = 12 then (size - 1).extractLsb' 0 8
      else if a &&& 15 = 13 then (size - 1).extractLsb' 8 8
      else 0
    else ([(2, prdtl.extractLsb' 0 8), (3, prdtl.extractLsb' 8 8), (0x102, ATA_READ_DMA48),
      (0x10c, 1)].lookup a.toNat).getD 0

def longReadPort : Port :=
  { readPort 40 512 with mem := Function.update (readPort 40 512).mem 0x10c 40 }

/-- The first request takes as many entries as it has room for, the second one the rest. -/
theorem rwChunks_cover_long : ∃ cs, rwChunks 0 0x100 (fun _ => longReadPort) 40 0 0 = .ok cs ∧
    cs.map (fun c => c.brIov.length) = [33, 7] ∧
    Covers (longReadPort.entries 0 0x100) 512 (40 * 512) 0 0 cs := by
  have hCover := rwChunks_cover (fun _ => longReadPort) 0 0x100 (fun _ => ⟨rfl, rfl, rfl⟩)
    (by decide) (by decide +kernel)
  have hCount : (longReadPort.rwRange 0x100).2 = 40 := by decide +kernel
  have hLen : longReadPort.rwLen 0x100 = 40 * 512 := by decide +kernel
  have hOffset : longReadPort.rwOffset 0x100 = 0 := by decide +kernel
  rw [hCount, hLen, hOffset] at hCover
  have hReturns : (rwChunks 0 0x100 (fun _ => longReadPort) 40 0 0).toOption.map
      (List.map fun c => c.brIov.length) = some [33, 7] := by decide +kernel
  obtain ⟨cs, hChunks, hLengths⟩ := Option.map_eq_some_iff.mp hReturns
  rw [toOption_eq_some_iff] at hChunks
  exact ⟨cs, hChunks, hLengths, hCover.of_ok hChunks⟩

/-- As many entries as a request has room for, from the one that holds byte `done` on, end less
than a sector after it. -/
def TinyEntries (gs : List (Segment (BitVec 64))) (sectsz done : Nat) : Prop :=
  ∃ i, total (gs.take i) ≤ done ∧ done < total (gs.take (i + 1)) ∧
    i + BLOCKIF_IOV_MAX ≤ gs.length ∧ total (gs.take (i + BLOCKIF_IOV_MAX)) < done + sectsz

/-- The assertion on `todo` holds for a request exactly if the entries from its first byte on are
not as tiny as that. -/
theorem rwChunk_asserts_iff (s : Port) (slot : Slot) (cfis : BitVec 64) (done : Nat)
    (hSector : 0 < s.p.bctx.bcSectsz) (hDone : s.p.bctx.bcSectsz ∣ done)
    (hLess : done < s.rwLen cfis) :
    s.rwChunk slot cfis done ≠ .error .buildIovTodo ↔
      ¬ TinyEntries (s.entries slot cfis) s.p.bctx.bcSectsz done := by
  rw [not_iff_not]
  have hLen : s.p.bctx.bcSectsz ∣ s.rwLen cfis := Nat.dvd_mul_left _ _
  have hRoom : s.p.bctx.bcSectsz ≤ s.rwLen cfis - done :=
    Nat.le_of_dvd (by omega) (Nat.dvd_sub hLen hDone)
  have hWithin := @gather_within_iff _ _ _ done _ _ (s.entries slot cfis) (prdtEntries_pos _ _ _)
    (show 0 < BLOCKIF_IOV_MAX by decide) hRoom (by omega)
  obtain ⟨taken, rest, hGather, hBuild⟩ := ahciBuildIov_cases s s.p.bctx.bcSectsz (cfis + 0x80)
    (s.prdtl slot) (s.rwLen cfis) done
  rw [Port.entries, hGather] at hWithin
  dsimp only at hWithin
  rw [TinyEntries, Port.entries, ← hWithin, Port.rwChunk, hBuild]
  have hWhole : 0 < total taken - total taken % s.p.bctx.bcSectsz ↔
      s.p.bctx.bcSectsz ≤ total taken := by
    have hMod := Nat.mod_lt (total taken) hSector
    constructor
    · intro hTodo
      by_contra hLess
      rw [Nat.mod_eq_of_lt (Nat.lt_of_not_le hLess)] at hTodo
      omega
    · omega
  split
  · next hFull =>
    by_cases hTodo : 0 < total taken - total taken % s.p.bctx.bcSectsz
    · rw [assertThat_of _ hTodo]
      exact iff_of_false (by rintro ⟨⟩) fun h => by omega
    · rw [assertThat, if_neg hTodo]
      exact iff_of_true rfl ⟨hFull, by omega⟩
  · next hFew => exact iff_of_false (by rintro ⟨⟩) fun h => hFew h.1

theorem rwChunk_asserts_iff_two :
    (readPort 2 256).rwChunk 0 0x100 0 ≠ .error .buildIovTodo := by
  apply (rwChunk_asserts_iff (readPort 2 256) 0 0x100 0 (by decide) (Nat.dvd_zero _)
    (by decide +kernel)).mpr
  rintro ⟨i, -, -, hMany, -⟩
  have hTwo : ((readPort 2 256).entries 0 0x100).length = 2 := by decide +kernel
  rw [hTwo, BLOCKIF_IOV_MAX] at hMany
  omega

/-- 256 entries of two bytes each. -/
theorem rwChunk_fails : ¬ ∀ (s : Port) (slot : Slot) (cfis : BitVec 64) (done : Nat),
    0 < s.p.bctx.bcSectsz → s.p.bctx.bcSectsz ∣ done → done < s.rwLen cfis →
    s.rwChunk slot cfis done ≠ .error .buildIovTodo := by
  intro hAll
  have hStop : fault? ((readPort 256 2).rwChunk 0 0x100 0) = some .buildIovTodo := by decide +kernel
  exact hAll _ 0 0x100 0 (by decide) (Nat.dvd_zero _) (by decide +kernel) (fault?_eq_some_iff.mp hStop)

end Transfer

end DeviceModel.PciAhci

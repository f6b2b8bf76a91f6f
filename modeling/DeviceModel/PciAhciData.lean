import DeviceModel.Lib.Moves
import DeviceModel.PciAhciContainment
import Mathlib.Algebra.Order.BigOperators.Group.List
import Mathlib.Algebra.Order.Group.Nat

/-!
# The data of disk commands

The requests of a read or a write command, served one after another, move the bytes of the command
between the buffers that its PRDT names and its sectors on the disk. Other requests are served in
between, FISes are written and the guest goes on: as long as all that spares what the command moves,
the data arrive as they were when its first request was served.
-/

set_option autoImplicit false

namespace DeviceModel

open Fallible Moves

namespace BlockIf

def moves (op : BlockOp) (addr : BitVec 64) (iov : List Iovec) : List (BitVec 64 × BitVec 64) :=
  match op with
  | .read => (iovAddrs iov).zip (vecAddrs addr iov)
  | .write => (vecAddrs addr iov).zip (iovAddrs iov)
  | .flush | .delete => []

section Vectors

variable {addr : BitVec 64} {iov : List Iovec}

theorem copy_moved (m : Memory) (dst src : BitVec 64) {n : Nat} (hFits : n ≤ 2 ^ 64) :
    Moved (((List.range n).map fun k => dst + BitVec.ofNat 64 k).zip
      ((List.range n).map fun k => src + BitVec.ofNat 64 k)) m (m.copy dst src n) := by
  rw [List.zip_map']
  constructor
  · intro p hp
    obtain ⟨k, hk, rfl⟩ := List.mem_map.mp hp
    have hLess : k < n := List.mem_range.mp hk
    have hBack : dst + BitVec.ofNat 64 k - dst = BitVec.ofNat 64 k := by
      rw [BitVec.add_comm, BitVec.add_sub_cancel]
    have hNear : (BitVec.ofNat 64 k).toNat < n := by
      rw [BitVec.toNat_ofNat, Nat.mod_eq_of_lt (by omega)]
      exact hLess
    show m.copy dst src n (dst + BitVec.ofNat 64 k) = m (src + BitVec.ofNat 64 k)
    rw [Memory.copy, hBack, if_pos hNear]
  · intro a ha
    rw [Memory.copy, if_neg]
    intro hNear
    obtain ⟨k, hk, rfl⟩ := vec_addr hNear
    apply ha
    rw [List.map_map]
    exact List.mem_map.mpr ⟨k, List.mem_range.mpr hk, rfl⟩

theorem length_vecAddrs : (vecAddrs addr iov).length = (iov.map Iovec.iovLen).sum := by
  induction iov generalizing addr with
  | nil => rfl
  | cons v iov ih =>
    rw [vecAddrs, List.length_append, List.length_map, List.length_range, ih, List.map_cons, List.sum_cons]

theorem moves_cons (op : BlockOp) (addr : BitVec 64) (v : Iovec) (iov : List Iovec) :
    moves op addr (v :: iov) = moves op addr [v] ++ moves op (addr + BitVec.ofNat 64 v.iovLen) iov := by
  have hHosts : iovAddrs (v :: iov) = iovAddrs [v] ++ iovAddrs iov := by
    rw [iovAddrs, iovAddrs, iovAddrs, List.flatMap_cons, List.flatMap_singleton]
  have hDisk : vecAddrs addr (v :: iov) =
      vecAddrs addr [v] ++ vecAddrs (addr + BitVec.ofNat 64 v.iovLen) iov := by
    rw [vecAddrs, vecAddrs, vecAddrs, List.append_nil]
  unfold moves
  cases op with
  | read =>
    dsimp only
    rw [hHosts, hDisk, List.zip_append ((length_iovAddrs _).trans length_vecAddrs.symm)]
  | write =>
    dsimp only
    rw [hHosts, hDisk, List.zip_append (length_vecAddrs.trans (length_iovAddrs _).symm)]
  | flush => rfl
  | delete => rfl

theorem iovAddrs_singleton (v : Iovec) :
    iovAddrs [v] = (List.range v.iovLen).map fun k => v.iovBase + BitVec.ofNat 64 k :=
  List.flatMap_singleton _ _

theorem vecAddrs_singleton (addr : BitVec 64) (v : Iovec) :
    vecAddrs addr [v] = (List.range v.iovLen).map fun k => addr + BitVec.ofNat 64 k :=
  List.append_nil _

theorem readVecs_moved (hFits : ∀ v ∈ iov, v.iovLen ≤ 2 ^ 64) (m : Memory)
    (hApart : Apart (moves .read addr iov)) : Moved (moves .read addr iov) m (readVecs addr iov m) := by
  induction iov generalizing addr m with
  | nil => exact moved_nil m
  | cons v iov ih =>
    rw [moves_cons] at hApart ⊢
    have hFirst : Moved (moves .read addr [v]) m (m.copy v.iovBase addr v.iovLen) := by
      rw [moves, iovAddrs_singleton, vecAddrs_singleton]
      exact copy_moved m v.iovBase addr (hFits v List.mem_cons_self)
    exact hFirst.append hApart (ih (fun w hw => hFits w (List.mem_cons_of_mem v hw)) _ hApart.right)

theorem writeVecs_moved (hFits : ∀ v ∈ iov, v.iovLen ≤ 2 ^ 64) (m : Memory)
    (hApart : Apart (moves .write addr iov)) : Moved (moves .write addr iov) m (writeVecs addr iov m) := by
  induction iov generalizing addr m with
  | nil => exact moved_nil m
  | cons v iov ih =>
    rw [moves_cons] at hApart ⊢
    have hFirst : Moved (moves .write addr [v]) m (m.copy addr v.iovBase v.iovLen) := by
      rw [moves, iovAddrs_singleton, vecAddrs_singleton]
      exact copy_moved m addr v.iovBase (hFits v List.mem_cons_self)
    exact hFirst.append hApart (ih (fun w hw => hFits w (List.mem_cons_of_mem v hw)) _ hApart.right)

end Vectors

section Histories

variable {R : Type} [DecidableEq R]

/-- The requests of one transfer are served in their order, from the one memory to the other, and
what else happens in between spares `F`. -/
inductive History (R : Type) [DecidableEq R] (op : BlockOp) (F : Set (BitVec 64)) :
    List BlockifReq → Memory → Memory → Prop
  | done (m : Memory) : History R op F [] m m
  | serve {c : BlockifReq} {cs : List BlockifReq} {d d' : Disk R} {be : ElemId} {br : R} {err : Nat}
      {m : Memory} (hOpened : Opened d.bc) (hOp : (d.bc.bcReqs be).beOp = op)
      (hOffset : (d.req br).brOffset = c.brOffset) (hIov : (d.req br).brIov = c.brIov)
      (hProc : d.blockifProc be = .ok (br, err, d')) (hRest : History R op F cs d'.mem m) :
      History R op F (c :: cs) d.mem m
  | other {cs : List BlockifReq} {m m' m'' : Memory} (hSpares : ∀ a ∈ F, m' a = m a)
      (hRest : History R op F cs m' m'') : History R op F cs m m''

def diskBase : BitVec 64 := DM_BASE + 0x03000000

def BlockifReq.moves (op : BlockOp) (c : BlockifReq) : List (BitVec 64 × BitVec 64) :=
  BlockIf.moves op (diskBase + c.brOffset) c.brIov

theorem blockifProc_moved {op : BlockOp} {c : BlockifReq} {d d' : Disk R} {be : ElemId} {br : R} {err : Nat}
    (hOpened : Opened d.bc) (hOp : (d.bc.bcReqs be).beOp = op)
    (hOffset : (d.req br).brOffset = c.brOffset) (hIov : (d.req br).brIov = c.brIov)
    (hProc : d.blockifProc be = .ok (br, err, d')) (hFits : ∀ v ∈ c.brIov, v.iovLen ≤ 2 ^ 64)
    (hApart : Apart (c.moves op)) : Moved (c.moves op) d.mem d'.mem := by
  cases hReq : (d.bc.bcReqs be).beReq with
  | none =>
    unfold Disk.blockifProc at hProc
    rw [hReq] at hProc
    cases hProc
  | some r =>
    obtain ⟨err', req, hCases, -⟩ := Disk.blockifProc_cases hReq
    obtain ⟨⟩ := hProc.symm.trans hCases
    show Moved _ d.mem (Disk.transferred d.bc (d.bc.bcReqs be).beOp (d.req br) d.mem)
    rw [hOp]
    unfold BlockifReq.moves at hApart ⊢
    unfold Disk.transferred
    rw [hOpened.base, hOpened.rdonly, hOffset, hIov]
    cases op with
    | read => exact readVecs_moved hFits d.mem hApart
    | write => exact writeVecs_moved hFits d.mem hApart
    | flush => exact moved_nil d.mem
    | delete => exact moved_nil d.mem

theorem History.interleaved {op : BlockOp} {F : Set (BitVec 64)} {cs : List BlockifReq} {m m' : Memory}
    (h : History R op F cs m m') (hFits : ∀ c ∈ cs, ∀ v ∈ c.brIov, v.iovLen ≤ 2 ^ 64)
    (hApart : Apart (cs.map (·.moves op)).flatten) : Interleaved F (cs.map (·.moves op)) m m' := by
  induction h with
  | done m => exact .done m
  | @serve c cs d d' be br err m hOpened hOp hOffset hIov hProc hRest ih =>
    rw [List.map_cons, List.flatten_cons] at hApart
    apply Interleaved.part
    · exact blockifProc_moved hOpened hOp hOffset hIov hProc (hFits c List.mem_cons_self) hApart.left
    · exact ih (fun d hd => hFits d (List.mem_cons_of_mem c hd)) hApart.right
  | other hSpares hRest ih => exact .other hSpares (ih hFits hApart)

end Histories

end BlockIf

namespace PciAhci

open BlockIf ScatterGather

section Addresses

/-- Guest memory is reached at its address in the uncached window. -/
theorem paddrGuest2host_eq_add {a : BitVec 64} (hPhysical : a.toNat < 2 ^ 59) :
    paddrGuest2host a = MIPS_XKPHYS_UNCACHED_BASE + a := by
  have hLow : ∀ i < 59, MIPS_XKPHYS_UNCACHED_BASE.getLsbD i = false := by decide
  have hApart : MIPS_XKPHYS_UNCACHED_BASE &&& a = 0#64 := by
    refine BitVec.eq_of_getLsbD_eq fun i hi => ?_
    rw [BitVec.getLsbD_and, BitVec.getLsbD_zero]
    by_cases h : i < 59
    · rw [hLow i h, Bool.false_and]
    · have hHigh : a.getLsbD i = false := by
        rw [BitVec.getLsbD]
        have hPow : 2 ^ 59 ≤ 2 ^ i := Nat.pow_le_pow_right (by decide) (by omega)
        exact Nat.testBit_lt_two_pow (Nat.lt_of_lt_of_le hPhysical hPow)
      rw [hHigh, Bool.and_false]
  rw [paddrGuest2host, BitVec.or_comm]
  exact (BitVec.add_eq_or_of_and_eq_zero _ _ hApart).symm

theorem iovAddrs_hostVec {ps : List (Segment (BitVec 64))} (hPhysical : ∀ a ∈ scatter ps, a.toNat < 2 ^ 59) :
    iovAddrs (ps.map hostVec) = (scatter ps).map paddrGuest2host := by
  induction ps with
  | nil => rfl
  | cons g ps ih =>
    rw [scatter_cons] at hPhysical ⊢
    rw [List.map_cons, iovAddrs, List.flatMap_cons, List.map_append]
    rw [iovAddrs] at ih
    rw [ih fun a ha => hPhysical a (List.mem_append_right _ ha)]
    congr 1
    rw [Segment.addresses, List.map_map]
    apply List.map_congr_left
    intro k hk
    have hIn : ∀ j ∈ List.range g.len, (g.base + BitVec.ofNat 64 j).toNat < 2 ^ 59 := by
      intro j hj
      exact hPhysical _ (List.mem_append_left _ (List.mem_map.mpr ⟨j, hj, rfl⟩))
    have hSome : k < g.len := List.mem_range.mp hk
    have hFirst : g.base.toNat < 2 ^ 59 := by
      have hZero := hIn 0 (List.mem_range.mpr (by omega))
      rwa [BitVec.add_zero] at hZero
    show paddrGuest2host g.base + BitVec.ofNat 64 k = paddrGuest2host (g.base + BitVec.ofNat 64 k)
    rw [paddrGuest2host_eq_add hFirst, paddrGuest2host_eq_add (hIn k hk), BitVec.add_assoc]

theorem vecAddrs_eq (addr : BitVec 64) (iov : List Iovec) :
    vecAddrs addr iov = (List.range (iov.map Iovec.iovLen).sum).map fun k => addr + BitVec.ofNat 64 k := by
  induction iov generalizing addr with
  | nil => rfl
  | cons v iov ih =>
    rw [vecAddrs, ih, List.map_cons, List.sum_cons, List.range_add, List.map_append, List.map_map]
    congr 1
    apply List.map_congr_left
    intro k _
    show addr + BitVec.ofNat 64 v.iovLen + BitVec.ofNat 64 k = addr + BitVec.ofNat 64 (v.iovLen + k)
    rw [BitVec.add_assoc, ← BitVec.ofNat_add]

theorem vecAddrs_placed {cs : List BlockifReq} {off : BitVec 64} {done : Nat}
    (hPlaced : ∀ pre c post, cs = pre ++ c :: post → c.brOffset = off + BitVec.ofNat 64 (done + moved pre)) :
    cs.flatMap (fun c => vecAddrs (diskBase + c.brOffset) c.brIov) =
      (List.range (moved cs)).map fun k => diskBase + off + BitVec.ofNat 64 (done + k) := by
  induction cs generalizing done with
  | nil => rfl
  | cons c cs ih =>
    have hFirst := hPlaced [] c cs rfl
    rw [show moved [] = 0 from rfl, Nat.add_zero] at hFirst
    have hRest : ∀ pre d post, cs = pre ++ d :: post →
        d.brOffset = off + BitVec.ofNat 64 (done + (c.brIov.map Iovec.iovLen).sum + moved pre) := by
      intro pre d post hSplit
      have hAt := hPlaced (c :: pre) d post (by rw [hSplit, List.cons_append])
      rwa [sum_moved_cons, ← Nat.add_assoc] at hAt
    rw [List.flatMap_cons, ih hRest, vecAddrs_eq, hFirst, sum_moved_cons, List.range_add, List.map_append,
      List.map_map]
    congr 1
    · apply List.map_congr_left
      intro k _
      rw [BitVec.ofNat_add, ← BitVec.add_assoc, ← BitVec.add_assoc]
    · apply List.map_congr_left
      intro k _
      rw [Function.comp_apply, Nat.add_assoc]

end Addresses

section Parts

variable {cs : List BlockifReq}

theorem flatten_moves (op : BlockOp) (cs : List BlockifReq) : (cs.map (·.moves op)).flatten =
    match op with
    | .read => (iovAddrs (cs.flatMap (·.brIov))).zip
        (cs.flatMap fun c => vecAddrs (diskBase + c.brOffset) c.brIov)
    | .write => (cs.flatMap fun c => vecAddrs (diskBase + c.brOffset) c.brIov).zip
        (iovAddrs (cs.flatMap (·.brIov)))
    | .flush | .delete => [] := by
  have hHosts : iovAddrs (cs.flatMap (·.brIov)) = cs.flatMap fun c => iovAddrs c.brIov :=
    List.flatMap_assoc
  rw [hHosts]
  clear hHosts
  induction cs with
  | nil => cases op <;> rfl
  | cons c cs ih =>
    rw [List.map_cons, List.flatten_cons, ih]
    cases op with
    | read => exact (List.zip_append ((length_iovAddrs _).trans length_vecAddrs.symm)).symm
    | write => exact (List.zip_append (length_vecAddrs.trans (length_iovAddrs _).symm)).symm
    | flush => rfl
    | delete => rfl

end Parts

namespace Port

variable (s : Port) (slot : Slot) (cfis : BitVec 64)

/-- The guest memory of a command, as the host reaches it. -/
def buffer : List (BitVec 64) :=
  ((scatter (s.entries slot cfis)).take (s.rwLen cfis)).map paddrGuest2host

def sectors : List (BitVec 64) :=
  (List.range (s.rwLen cfis)).map fun k => diskBase + s.rwOffset cfis + BitVec.ofNat 64 k

def dest : List (BitVec 64) :=
  if s.cfisByte cfis 2 ∈ writeCmds then s.sectors cfis else s.buffer slot cfis

def source : List (BitVec 64) :=
  if s.cfisByte cfis 2 ∈ writeCmds then s.buffer slot cfis else s.sectors cfis

theorem dest_subset {a : BitVec 64} (ha : a ∈ s.dest slot cfis) :
    a ∈ s.buffer slot cfis ++ s.sectors cfis := by
  unfold dest at ha
  split at ha
  · exact List.mem_append_right _ ha
  · exact List.mem_append_left _ ha

theorem source_subset {a : BitVec 64} (ha : a ∈ s.source slot cfis) :
    a ∈ s.buffer slot cfis ++ s.sectors cfis := by
  unfold source at ha
  split at ha
  · exact List.mem_append_left _ ha
  · exact List.mem_append_right _ ha

/-- The command ends on the disk, and its PRDT names memory enough for it: physical memory, and for a
read no byte twice. -/
structure WellFormed : Prop where
  opened : Opened s.p.bctx
  enough : s.rwLen cfis ≤ total (s.entries slot cfis)
  physical : ∀ a ∈ (scatter (s.entries slot cfis)).take (s.rwLen cfis), a.toNat < 2 ^ 59
  distinct : s.cfisByte cfis 2 ∉ writeCmds → ((scatter (s.entries slot cfis)).take (s.rwLen cfis)).Nodup
  onDisk : (s.rwOffset cfis).toNat + s.rwLen cfis ≤ 0x0d000000

variable {s slot cfis}

theorem sectors_eq : s.sectors cfis = (List.range (s.rwLen cfis)).map fun k =>
    diskBase + BitVec.ofNat 64 ((s.rwOffset cfis).toNat + k) := by
  apply List.map_congr_left
  intro k _
  rw [BitVec.ofNat_add, BitVec.ofNat_toNat, BitVec.setWidth_eq, BitVec.add_assoc]

theorem toNat_disk {k : Nat} (hk : k < 0x0d000000) :
    (diskBase + BitVec.ofNat 64 k).toNat = 0xffffffff93000000 + k := by
  have hBase : diskBase.toNat = 0xffffffff93000000 := by decide
  rw [BitVec.toNat_add, BitVec.toNat_ofNat, hBase]
  omega

namespace WellFormed

variable (h : s.WellFormed slot cfis)
include h

theorem length_buffer : (s.buffer slot cfis).length = s.rwLen cfis := by
  rw [buffer, List.length_map, List.length_take, length_scatter, Nat.min_eq_left h.enough]

theorem rwLen_le : s.rwLen cfis ≤ 0x0d000000 := Nat.le_trans (Nat.le_add_left _ _) h.onDisk

theorem length_dest : (s.dest slot cfis).length = (s.source slot cfis).length := by
  have hBuffer := h.length_buffer
  have hSectors : (s.sectors cfis).length = s.rwLen cfis := by rw [sectors, List.length_map, List.length_range]
  unfold dest source
  split
  · rw [hBuffer, hSectors]
  · rw [hBuffer, hSectors]

theorem sectors_nodup : (s.sectors cfis).Nodup := by
  have hEnd := h.onDisk
  rw [sectors_eq]
  apply List.Nodup.map_on _ List.nodup_range
  intro j hj k hk hEq
  have hj := List.mem_range.mp hj
  have hk := List.mem_range.mp hk
  have hSame := congrArg BitVec.toNat hEq
  rw [toNat_disk (by omega), toNat_disk (by omega)] at hSame
  omega

theorem toNat_buffer {a : BitVec 64} (ha : a ∈ (scatter (s.entries slot cfis)).take (s.rwLen cfis)) :
    (paddrGuest2host a).toNat = 0x9000000000000000 + a.toNat := by
  have hPhysical := h.physical a ha
  have hBase : MIPS_XKPHYS_UNCACHED_BASE.toNat = 0x9000000000000000 := by decide
  rw [paddrGuest2host_eq_add hPhysical, BitVec.toNat_add, hBase]
  omega

theorem buffer_nodup (hRead : s.cfisByte cfis 2 ∉ writeCmds) : (s.buffer slot cfis).Nodup := by
  apply List.Nodup.map_on _ (h.distinct hRead)
  intro a ha b hb hEq
  have hSame := congrArg BitVec.toNat hEq
  rw [h.toNat_buffer ha, h.toNat_buffer hb] at hSame
  exact BitVec.eq_of_toNat_eq (by omega)

/-- The disk does not lie in guest memory. -/
theorem disk_notMem_buffer {k : Nat} (hk : k < 0x0d000000) :
    diskBase + BitVec.ofNat 64 k ∉ s.buffer slot cfis := by
  intro hMem
  obtain ⟨a, hIn, hEq⟩ := List.mem_map.mp hMem
  have hPhysical := h.physical a hIn
  have hSame := congrArg BitVec.toNat hEq
  rw [h.toNat_buffer hIn, toNat_disk hk] at hSame
  omega

theorem sector_notMem_buffer {b : BitVec 64} (hb : b ∈ s.sectors cfis) : b ∉ s.buffer slot cfis := by
  have hEnd := h.onDisk
  rw [sectors_eq] at hb
  obtain ⟨k, hk, rfl⟩ := List.mem_map.mp hb
  have hk := List.mem_range.mp hk
  exact h.disk_notMem_buffer (by omega)

theorem apart : Apart ((s.dest slot cfis).zip (s.source slot cfis)) := by
  have hLength := h.length_dest
  constructor
  · rw [List.map_fst_zip (Nat.le_of_eq hLength)]
    unfold dest
    split
    · exact h.sectors_nodup
    · next hRead => exact h.buffer_nodup hRead
  · intro p hp q hq
    have hTo := (List.of_mem_zip hp).1
    have hFrom := (List.of_mem_zip hq).2
    unfold dest at hTo
    unfold source at hFrom
    split at hTo
    · next hWrite =>
      rw [if_pos hWrite] at hFrom
      exact fun hEq => h.sector_notMem_buffer hTo (hEq ▸ hFrom)
    · next hRead =>
      rw [if_neg hRead] at hFrom
      exact fun hEq => h.sector_notMem_buffer hFrom (hEq ▸ hTo)

end WellFormed

def rwOp (s : Port) (cfis : BitVec 64) : BlockOp := if s.cfisByte cfis 2 ∈ writeCmds then .write else .read

/-- The vectors of all requests are the buffer. -/
theorem WellFormed.iovAddrs_eq (h : s.WellFormed slot cfis) {cs : List BlockifReq}
    (hCovers : Covers (s.entries slot cfis) 512 (s.rwLen cfis) (s.rwOffset cfis) 0 cs) :
    iovAddrs (cs.flatMap (·.brIov)) = s.buffer slot cfis := by
  obtain ⟨ps, hPieces, hScatter⟩ := hCovers.pieces
  rw [List.drop_zero, Nat.sub_zero] at hScatter
  have hPhysical : ∀ a ∈ scatter ps, a.toNat < 2 ^ 59 := by
    rw [hScatter]
    exact h.physical
  rw [hPieces, iovAddrs_hostVec hPhysical, hScatter, buffer]

theorem WellFormed.moved_eq (h : s.WellFormed slot cfis) {cs : List BlockifReq}
    (hCovers : Covers (s.entries slot cfis) 512 (s.rwLen cfis) (s.rwOffset cfis) 0 cs) :
    PciAhci.moved cs = s.rwLen cfis := by
  rw [PciAhci.moved, ← length_iovAddrs, h.iovAddrs_eq hCovers, h.length_buffer]

theorem WellFormed.fits (h : s.WellFormed slot cfis) {cs : List BlockifReq}
    (hCovers : Covers (s.entries slot cfis) 512 (s.rwLen cfis) (s.rwOffset cfis) 0 cs) :
    ∀ c ∈ cs, ∀ v ∈ c.brIov, v.iovLen ≤ 2 ^ 64 := by
  intro c hc v hv
  have hIn : v.iovLen ∈ (cs.flatMap (·.brIov)).map Iovec.iovLen :=
    List.mem_map_of_mem (List.mem_flatMap.mpr ⟨c, hc, hv⟩)
  have hAll : v.iovLen ≤ PciAhci.moved cs := List.le_sum_of_mem hIn
  have hMoved := h.moved_eq hCovers
  have hLength := h.rwLen_le
  omega

theorem WellFormed.flatten_moves (h : s.WellFormed slot cfis) {cs : List BlockifReq}
    (hCovers : Covers (s.entries slot cfis) 512 (s.rwLen cfis) (s.rwOffset cfis) 0 cs) :
    (cs.map (·.moves (s.rwOp cfis))).flatten = (s.dest slot cfis).zip (s.source slot cfis) := by
  have hSectors : (cs.flatMap fun c => vecAddrs (diskBase + c.brOffset) c.brIov) = s.sectors cfis := by
    rw [vecAddrs_placed fun pre c post hSplit => (hCovers.placed pre c post hSplit).2,
      h.moved_eq hCovers, sectors]
    apply List.map_congr_left
    intro k _
    rw [Nat.zero_add]
  rw [PciAhci.flatten_moves, h.iovAddrs_eq hCovers, hSectors]
  unfold rwOp dest source
  by_cases hWrite : s.cfisByte cfis 2 ∈ writeCmds
  · rw [if_pos hWrite, if_pos hWrite, if_pos hWrite]
  · rw [if_neg hWrite, if_neg hWrite, if_neg hWrite]

end Port

section Requests

namespace Port

variable {s t : Port} {slot : Slot} {cfis : BitVec 64} {done : Nat}

theorem handOver_last {op : BlockOp} {aior : IoreqId} (hOk : s.handOver op aior = .ok t) :
    t.p.ioreq = s.p.ioreq ∧ t.p.ioReq = s.p.ioReq ∧ ∀ be, t.p.bctx.bcPendq.getLast? = some be →
      (t.p.bctx.bcReqs be).beReq = some aior ∧ (t.p.bctx.bcReqs be).beOp = op := by
  rw [handOver_eq] at hOk
  obtain ⟨⟨err, u⟩, hDisk, hOk⟩ := bind_eq_ok_iff.mp hOk
  obtain ⟨_, hErr, hOk⟩ := bind_eq_ok_iff.mp hOk
  obtain rfl := Except.ok.inj hOk
  obtain ⟨-, -, hDisk⟩ := bind_eq_ok_iff.mp hDisk
  obtain ⟨⟨err', d⟩, hOp, hDisk⟩ := bind_eq_ok_iff.mp hDisk
  obtain ⟨rfl, rfl⟩ := Prod.mk.inj (Except.ok.inj hDisk)
  obtain ⟨-, -, hOp⟩ := bind_eq_ok_iff.mp hOp
  unfold Disk.blockifRequest at hOp
  split at hOp
  · obtain ⟨rfl, -⟩ := Prod.mk.inj (Except.ok.inj hOp)
    dsimp only at hErr
    rw [assertThat, if_neg (by decide)] at hErr
    cases hErr
  · obtain ⟨d', hQueue, hOp⟩ := bind_eq_ok_iff.mp hOp
    obtain ⟨-, rfl⟩ := Prod.mk.inj (Except.ok.inj hOp)
    obtain ⟨be, freeq, status, off, -, -, rfl⟩ := Disk.blockifEnqueue_cases hQueue
    refine ⟨rfl, rfl, fun last hLast => ?_⟩
    obtain rfl : be = last := by
      rw [Disk.unlock] at hLast
      exact Option.some.inj (List.getLast?_concat.symm.trans hLast)
    simp [Disk.unlock]

/-- What `ahci_handle_rw` sends is the chunk at `done`. -/
theorem ahciHandleRw_last (hRun : s.ahciHandleRw slot cfis done = .ok t) {be : ElemId} {aior : IoreqId}
    (hLast : t.p.bctx.bcPendq.getLast? = some be) (hReq : (t.p.bctx.bcReqs be).beReq = some aior) :
    s.rwChunk slot cfis done = .ok (t.p.ioreq aior, t.p.ioReq aior) ∧
      (t.p.bctx.bcReqs be).beOp = s.rwOp cfis := by
  rw [ahciHandleRw_eq] at hRun
  obtain ⟨_, hAttached, hRun⟩ := bind_eq_ok_iff.mp hRun
  obtain ⟨⟨aior', u⟩, hPull, hRun⟩ := bind_eq_ok_iff.mp hRun
  obtain ⟨⟨io, breq⟩, hChunk, hSend⟩ := bind_eq_ok_iff.mp hRun
  obtain ⟨v, hFis, hHand⟩ := bind_eq_ok_iff.mp hSend
  obtain ⟨hIo, hReqs, hQueued⟩ := handOver_last hHand
  obtain ⟨hIs, hOp⟩ := hQueued be hLast
  obtain rfl : aior' = aior := Option.some.inj (hIs.symm.trans hReq)
  have hPulled : (u.pushIoreq aior' io breq).p.attached = s.p.attached := by
    unfold pullIoreq at hPull
    split at hPull
    · cases hPull
    · obtain ⟨rfl, rfl⟩ := Prod.mk.inj (Except.ok.inj hPull)
      rfl
  have hOn : Yields (fun _ => True) (fun _ => s.p.attached = true)
      (assertThat (s.p.attached = true) Fault.nullBctx) := assertThat_yields fun _ => trivial
  have hKept : v.p.ioreq aior' = io ∧ v.p.ioReq aior' = breq := by
    have hPushed : (u.pushIoreq aior' io breq).p.ioreq aior' = io ∧
        (u.pushIoreq aior' io breq).p.ioReq aior' = breq :=
      ⟨Function.update_self .., Function.update_self ..⟩
    split at hFis
    · have hAccepted := ahciWriteFisD2hNcq_keeps (E := fun _ => True)
        (hPulled.trans (hOn.of_ok hAttached)) ⟨fun _ => trivial⟩ io.slot
      rw [(hAccepted.of_ok hFis).pool.ioReq, (hAccepted.of_ok hFis).pool.ioreq]
      exact hPushed
    · rw [← Except.ok.inj hFis]
      exact hPushed
  rw [hIo, hReqs, hKept.1, hKept.2]
  exact ⟨hChunk, hOp⟩

end Port

/-- A request of the command of `s₀`: `ahci_handle_rw` makes it at `done`, with `io` for the note on it,
and `blockif_proc` serves it, from the one memory to the other. -/
inductive Request (s₀ : Port) (slot : Slot) (cfis : BitVec 64) (done : Nat) :
    AhciIoreq → Memory → Memory → Prop
  | served {s t : Port} {d d' : Disk IoreqId} {aior : IoreqId} {be : ElemId} {br : IoreqId} {err : Nat}
      (hSame : SameCommand slot cfis s₀ s) (hCmd : s.cfisByte cfis 2 = s₀.cfisByte cfis 2)
      (hRun : s.ahciHandleRw slot cfis done = .ok t) (hLast : t.p.bctx.bcPendq.getLast? = some be)
      (hReq : (t.p.bctx.bcReqs be).beReq = some aior) (hQueued : Queued t aior be d)
      (hProc : d.blockifProc be = .ok (br, err, d')) :
      Request s₀ slot cfis done (t.p.ioreq aior) d.mem d'.mem

/-- The command of `s₀` is carried out from `done` on, from the one memory to the other, one request
after another as `ata_ioreq_cb` carries it on. What else happens spares `F`. -/
inductive Transfer (s₀ : Port) (slot : Slot) (cfis : BitVec 64) (F : Set (BitVec 64)) :
    Nat → Memory → Memory → Prop
  | last {done : Nat} {io : AhciIoreq} {m m' : Memory} (h : Request s₀ slot cfis done io m m')
      (hMore : io.more = false) : Transfer s₀ slot cfis F done m m'
  | next {done : Nat} {io : AhciIoreq} {m m' m'' : Memory} (h : Request s₀ slot cfis done io m m')
      (hMore : io.more = true) (hRest : Transfer s₀ slot cfis F io.done m' m'') :
      Transfer s₀ slot cfis F done m m''
  | other {done : Nat} {m m' m'' : Memory} (hSpares : ∀ a ∈ F, m' a = m a)
      (hRest : Transfer s₀ slot cfis F done m' m'') : Transfer s₀ slot cfis F done m m''

variable {s₀ : Port} {slot : Slot} {cfis : BitVec 64} {F : Set (BitVec 64)} {done : Nat} {m m' : Memory}

theorem Request.covers {io : AhciIoreq} (hWell : s₀.WellFormed slot cfis) (hDone : 512 ∣ done)
    (hLess : done < s₀.rwLen cfis) (h : Request s₀ slot cfis done io m m') :
    ∃ c, (∀ cs m'', History IoreqId (s₀.rwOp cfis) F cs m' m'' →
        History IoreqId (s₀.rwOp cfis) F (c :: cs) m m'') ∧
      c.brOffset = s₀.rwOffset cfis + BitVec.ofNat 64 done ∧ done < io.done ∧
      io.more = decide (io.done < s₀.rwLen cfis) ∧
      BuiltIov (s₀.entries slot cfis) 512 (s₀.rwLen cfis) done (c.brIov, io.done - done, io.more) := by
  obtain ⟨hSame, hCmd, hRun, hLast, hReq, hQueued, hProc⟩ := h
  rename_i s t d d' aior be br err
  obtain ⟨hChunk, hOp⟩ := Port.ahciHandleRw_last hRun hLast hReq
  have hYields := rwChunk_yields hSame (by rwa [hWell.opened.sectsz]) hLess hWell.enough
  rw [hWell.opened.sectsz] at hYields
  obtain ⟨err', req, hCases, -⟩ := Disk.blockifProc_cases hQueued.req
  obtain rfl : aior = br := (Prod.mk.inj (Except.ok.inj (hCases.symm.trans hProc))).1
  refine ⟨t.p.ioReq aior, fun cs m'' hRest => ?_, hYields.of_ok hChunk⟩
  apply History.serve hQueued.opened _ _ _ hProc hRest
  · rw [hQueued.op, hOp]
    unfold Port.rwOp
    rw [hCmd]
  · rw [hQueued.same]
  · rw [hQueued.same]

/-- The requests of a command cover it. -/
theorem Transfer.covers (hWell : s₀.WellFormed slot cfis) (hDone : 512 ∣ done)
    (hLess : done < s₀.rwLen cfis) (h : Transfer s₀ slot cfis F done m m') :
    ∃ cs, Covers (s₀.entries slot cfis) 512 (s₀.rwLen cfis) (s₀.rwOffset cfis) done cs ∧
      History IoreqId (s₀.rwOp cfis) F cs m m' := by
  induction h with
  | @last done io m m' h hMore =>
    obtain ⟨c, hServe, hOffset, hForward, hEnd, hBuilt⟩ := h.covers (F := F) hWell hDone hLess
    obtain ⟨ps, hPieces, hScatter⟩ := hBuilt.pieces
    have hWithin := hBuilt.within
    have hAll : io.done = s₀.rwLen cfis := by
      rw [hMore] at hEnd
      have hNot := of_decide_eq_false hEnd.symm
      dsimp only at hWithin
      omega
    dsimp only at hPieces hScatter
    rw [hAll] at hScatter
    exact ⟨[c], Covers.last hBuilt.few hDone hOffset hPieces hScatter, hServe [] m' (.done m')⟩
  | @next done io m m' m'' h hMore hRest ih =>
    obtain ⟨c, hServe, hOffset, hForward, hEnd, hBuilt⟩ := h.covers (F := F) hWell hDone hLess
    obtain ⟨ps, hPieces, hScatter⟩ := hBuilt.pieces
    have hSector := hBuilt.sector
    dsimp only at hPieces hScatter hSector
    rw [show done + (io.done - done) = io.done by omega] at hSector
    have hLeft : io.done < s₀.rwLen cfis := by
      rw [hMore] at hEnd
      exact of_decide_eq_true hEnd.symm
    have hMoved : (c.brIov.map Iovec.iovLen).sum = io.done - done := by
      have hEnough := hWell.enough
      rw [hPieces, sum_hostVec, ← length_scatter ps, hScatter, List.length_take, List.length_drop,
        length_scatter]
      omega
    obtain ⟨cs, hCovers, hHistory⟩ := ih hSector hLeft
    exact ⟨c :: cs, hCovers.cons hBuilt.few hDone hOffset hForward hLeft hPieces hScatter hMoved,
      hServe cs m'' hHistory⟩
  | other hSpares hRest ih =>
    obtain ⟨cs, hCovers, hHistory⟩ := ih hDone hLess
    exact ⟨cs, hCovers, .other hSpares hHistory⟩

theorem request_served {t : Port} {be : ElemId} {aior : IoreqId}
    (hRun : s₀.ahciHandleRw slot cfis done = .ok t) (hLast : t.p.bctx.bcPendq.getLast? = some be)
    (hReq : (t.p.bctx.bcReqs be).beReq = some aior) (hOpened : Opened t.p.bctx) (m : Memory) :
    ∃ m', Request s₀ slot cfis done (t.p.ioreq aior) m m' := by
  have hQueued : Queued t aior be ⟨t.p.bctx, t.p.ioReq, m⟩ := ⟨hOpened, hReq, rfl, rfl⟩
  obtain ⟨err, req, hProc, -⟩ := Disk.blockifProc_cases hReq (d := ⟨t.p.bctx, t.p.ioReq, m⟩)
  exact ⟨_, .served ⟨rfl, rfl, rfl⟩ rfl hRun hLast hReq hQueued hProc⟩

/-- What a read or a write command moves arrives as it was when the command began, and of what is
spared nothing else changes. -/
theorem transfer_arrives (hWell : s₀.WellFormed slot cfis)
    (hSpared : ∀ a ∈ s₀.buffer slot cfis ++ s₀.sectors cfis, a ∈ F)
    (h : Transfer s₀ slot cfis F 0 m m') :
    (s₀.dest slot cfis).map m' = (s₀.source slot cfis).map m ∧
      ∀ a ∈ F, a ∉ s₀.dest slot cfis → m' a = m a := by
  have hSome : 0 < s₀.rwLen cfis := by
    rw [Port.rwLen, hWell.opened.sectsz]
    exact Nat.mul_pos (rwRange_pos s₀ cfis) (by decide)
  obtain ⟨cs, hCovers, hHistory⟩ := h.covers hWell (Nat.dvd_zero _) hSome
  have hMoves := hWell.flatten_moves hCovers
  have hLength := hWell.length_dest
  have hApart : Apart (cs.map (·.moves (s₀.rwOp cfis))).flatten := by
    rw [hMoves]
    exact hWell.apart
  have hParts := hHistory.interleaved (hWell.fits hCovers) hApart
  constructor
  · apply map_arrived hLength
    intro p hp
    rw [← hMoves] at hp
    apply hParts.arrived hApart _ p hp
    intro q hq
    rw [hMoves] at hq
    exact ⟨hSpared _ (Port.dest_subset s₀ slot cfis (List.of_mem_zip hq).1),
      hSpared _ (Port.source_subset s₀ slot cfis (List.of_mem_zip hq).2)⟩
  · intro a ha hElse
    apply hParts.kept ha
    rw [hMoves, List.map_fst_zip (Nat.le_of_eq hLength)]
    exact hElse

end Requests

section Examples

def sectorCmd (cmd : BitVec 8) (lba : BitVec 24) : Port where
  p := (sectorAt lba).p
  sc := (sectorAt lba).sc
  mem := Function.update (sectorAt lba).mem 0x102 cmd

def sectorElem : ElemId := ⟨71, by decide⟩

/-- The request of the command at `done` is out to the disk of `blockif_open`, and notes `next` and
`more` of the command. -/
def queues (s : Port) (done next : Nat) (more : Bool) : Bool :=
  (s.ahciHandleRw 0 0x100 done).toOption.any fun t =>
    t.p.bctx.bcPendq.getLast? = some sectorElem ∧
      (t.p.bctx.bcReqs sectorElem).beReq = some sectorAior ∧
      (t.p.ioreq sectorAior).done = next ∧ (t.p.ioreq sectorAior).more = more ∧
      t.p.bctx.bcBase = DM_BASE + 0x03000000 ∧ t.p.bctx.bcSize = 0x0d000000 ∧
      t.p.bctx.bcSectsz = 512 ∧ t.p.bctx.bcRdonly = false

theorem request_of_queues {s : Port} {done next : Nat} {more : Bool}
    (h : queues s done next more = true) (m : Memory) :
    ∃ io m', Request s 0 0x100 done io m m' ∧ io.done = next ∧ io.more = more := by
  obtain ⟨hSome, hState⟩ := (Option.any_eq_true_iff_get _ _).mp h
  obtain ⟨hLast, hReq, hDone, hMore, hBase, hSize, hSectsz, hRdonly⟩ := of_decide_eq_true hState
  have hRun := toOption_eq_some_iff.mp (Option.some_get hSome).symm
  obtain ⟨m', hServed⟩ := request_served hRun hLast hReq ⟨hBase, hSize, hSectsz, hRdonly⟩ m
  exact ⟨_, m', hServed, hDone, hMore⟩

theorem scatter_consecutive (n : Nat) :
    scatter ((List.range n).map fun i => (⟨BitVec.ofNat 64 (512 * i), 512⟩ : Segment (BitVec 64))) =
      (List.range (512 * n)).map (BitVec.ofNat 64) := by
  induction n with
  | zero => rfl
  | succ n ih =>
    have hLast : (⟨BitVec.ofNat 64 (512 * n), 512⟩ : Segment (BitVec 64)).addresses =
        ((List.range 512).map (512 * n + ·)).map (BitVec.ofNat 64) := by
      rw [Segment.addresses, List.map_map]
      exact List.map_congr_left fun k _ => (BitVec.ofNat_add _ _).symm
    rw [List.range_succ, List.map_append, scatter_append, ih, Nat.mul_succ, List.range_add,
      List.map_append, List.map_singleton, scatter_cons, scatter_nil, List.append_nil, hLast]

/-- A command whose buffers are sectors that lie one after another from address 0 on. -/
theorem wellFormed_consecutive {s : Port} {lba : BitVec 64} {n : Nat} (hOpened : Opened s.p.bctx)
    (hRange : s.rwRange 0x100 = (lba, n))
    (hEntries : s.entries 0 0x100 = (List.range n).map fun i => ⟨BitVec.ofNat 64 (512 * i), 512⟩)
    (hDisk : (lba * 512).toNat + 512 * n ≤ 0x0d000000) : s.WellFormed 0 0x100 := by
  have hLen : s.rwLen 0x100 = 512 * n := by
    rw [Port.rwLen, hRange, hOpened.sectsz, Nat.mul_comm]
  have hScatter : scatter (s.entries 0 0x100) = (List.range (512 * n)).map (BitVec.ofNat 64) := by
    rw [hEntries, scatter_consecutive]
  have hBuffer : (scatter (s.entries 0 0x100)).take (s.rwLen 0x100) =
      (List.range (512 * n)).map (BitVec.ofNat 64) := by
    rw [hScatter, hLen, List.take_of_length_le (by simp)]
  constructor
  · exact hOpened
  · rw [hLen, ← length_scatter, hScatter, List.length_map, List.length_range]
  · rw [hBuffer]
    intro a ha
    obtain ⟨k, hk, rfl⟩ := List.mem_map.mp ha
    have hLess := List.mem_range.mp hk
    rw [BitVec.toNat_ofNat]
    omega
  · intro _
    rw [hBuffer]
    apply List.Nodup.map_on _ List.nodup_range
    intro j hj k hk hEq
    have hj := List.mem_range.mp hj
    have hk := List.mem_range.mp hk
    have hSame := congrArg BitVec.toNat hEq
    rw [BitVec.toNat_ofNat, BitVec.toNat_ofNat] at hSame
    omega
  · rw [hLen, Port.rwOffset, hRange, hOpened.sectsz]
    exact hDisk

theorem sectorCmd_wellFormed {cmd : BitVec 8} (hCmd : cmd = ATA_READ_DMA48 ∨ cmd = ATA_WRITE_DMA48) :
    (sectorCmd cmd 5).WellFormed 0 0x100 := by
  have hRange : (sectorCmd cmd 5).rwRange 0x100 = (5, 1) := by
    obtain rfl | rfl := hCmd
    · decide +kernel
    · decide +kernel
  have hEntries : (sectorCmd cmd 5).entries 0 0x100 =
      (List.range 1).map fun i => ⟨BitVec.ofNat 64 (512 * i), 512⟩ := by
    obtain rfl | rfl := hCmd
    · decide +kernel
    · decide +kernel
  exact wellFormed_consecutive ⟨rfl, rfl, rfl, rfl⟩ hRange hEntries (by decide)

theorem sectorCmd_transfers {cmd : BitVec 8} (hCmd : cmd = ATA_READ_DMA48 ∨ cmd = ATA_WRITE_DMA48)
    (F : Set (BitVec 64)) (m : Memory) : ∃ m', Transfer (sectorCmd cmd 5) 0 0x100 F 0 m m' := by
  have hQueues : queues (sectorCmd cmd 5) 0 512 false = true := by
    obtain rfl | rfl := hCmd
    · decide +kernel
    · decide +kernel
  obtain ⟨io, m', hServed, -, hMore⟩ := request_of_queues hQueues m
  exact ⟨m', .last hServed hMore⟩

/-- A port with a command to read forty sectors from the fifth one on, each into an entry of its
own, the buffers one after another from address 0 on. -/
def fortySectors : Port where
  p := (sectorAt 5).p
  sc := (sectorAt 5).sc
  mem a :=
    if 0x180 ≤ a ∧ a < 0x400 then
      match (a &&& 15).toNat with
      | 1 => ((a - 0x180) >>> 4 <<< 1).setWidth 8
      | 12 => 0xff
      | 13 => 0x01
      | _ => 0
    else if a = 2 ∨ a = 0x10c then 40
    else (sectorAt 5).mem a

theorem fortySectors_entries : fortySectors.entries 0 0x100 =
    (List.range 40).map fun i => ⟨BitVec.ofNat 64 (512 * i), 512⟩ := by decide +kernel

theorem fortySectors_wellFormed : fortySectors.WellFormed 0 0x100 := by
  have hRange : fortySectors.rwRange 0x100 = (5, 40) := by decide +kernel
  exact wellFormed_consecutive ⟨rfl, rfl, rfl, rfl⟩ hRange fortySectors_entries (by decide)

def guestByte : BitVec 64 := MIPS_XKPHYS_UNCACHED_BASE + 0x100000

def fortyBytes : Set (BitVec 64) :=
  {a | a ∈ fortySectors.buffer 0 0x100 ++ fortySectors.sectors 0x100}

theorem guestByte_notMem : guestByte ∉ fortyBytes := by
  have hByte : guestByte.toNat = 0x9000000000100000 := by decide
  intro hMem
  rcases List.mem_append.mp hMem with hBuffer | hSector
  · obtain ⟨a, ha, hEq⟩ := List.mem_map.mp hBuffer
    have hSame := congrArg BitVec.toNat hEq
    rw [fortySectors_wellFormed.toNat_buffer ha, hByte] at hSame
    have hIn := List.mem_of_mem_take ha
    rw [fortySectors_entries, scatter_consecutive] at hIn
    obtain ⟨k, hk, rfl⟩ := List.mem_map.mp hIn
    have hLess := List.mem_range.mp hk
    rw [BitVec.toNat_ofNat] at hSame
    omega
  · rw [Port.sectors_eq] at hSector
    obtain ⟨k, hk, hEq⟩ := List.mem_map.mp hSector
    have hLess := List.mem_range.mp hk
    have hEnd := fortySectors_wellFormed.onDisk
    have hSame := congrArg BitVec.toNat hEq
    rw [Port.toNat_disk (by omega), hByte] at hSame
    omega

/-- Two requests read forty sectors from a disk on which each byte holds the low byte of its address,
and the guest writes to its memory in between. -/
theorem transfer_arrives_forty : ∃ m m₁ m', (∀ a, m a = a.setWidth 8) ∧
    (∃ io, Request fortySectors 0 0x100 0 io m m₁ ∧ io.more = true) ∧
    Transfer fortySectors 0 0x100 fortyBytes (33 * 512) (Function.update m₁ guestByte 0xaa) m' ∧
    (fortySectors.buffer 0 0x100).map m' = (fortySectors.sectors 0x100).map m := by
  have hRead : fortySectors.cfisByte 0x100 2 ∉ writeCmds := by decide +kernel
  obtain ⟨m, hBytes⟩ : ∃ m : Memory, ∀ a, m a = a.setWidth 8 := ⟨_, fun _ => rfl⟩
  have hThirtyThree : queues fortySectors 0 (33 * 512) true = true := by decide +kernel
  have hSeven : queues fortySectors (33 * 512) 20480 false = true := by decide +kernel
  obtain ⟨io, m₁, hFirst, hDone, hMore⟩ := request_of_queues hThirtyThree m
  obtain ⟨io', m', hSecond, -, hLast⟩ :=
    request_of_queues hSeven (Function.update m₁ guestByte 0xaa)
  have hRest : Transfer fortySectors 0 0x100 fortyBytes (33 * 512) (Function.update m₁ guestByte 0xaa) m' :=
    .last hSecond hLast
  have hSpares : ∀ a ∈ fortyBytes, Function.update m₁ guestByte 0xaa a = m₁ a := by
    intro a ha
    apply Function.update_of_ne
    rintro rfl
    exact guestByte_notMem ha
  have hAll : Transfer fortySectors 0 0x100 fortyBytes 0 m m' :=
    .next hFirst hMore (.other hSpares (hDone ▸ hRest))
  have hSpared : ∀ a ∈ fortySectors.buffer 0 0x100 ++ fortySectors.sectors 0x100, a ∈ fortyBytes :=
    fun a ha => ha
  have hArrived := (transfer_arrives fortySectors_wellFormed hSpared hAll).1
  rw [Port.dest, Port.source, if_neg hRead, if_neg hRead] at hArrived
  exact ⟨m, m₁, m', hBytes, ⟨io, hFirst, hMore⟩, hRest, hArrived⟩

end Examples

end PciAhci

end DeviceModel

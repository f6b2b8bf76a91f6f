import DeviceModel.PciAhciTransfer
import DeviceModel.PciAtapi

/-!
# Packet devices: a read in chunks

How many requests `atapi_read` makes for one packet. The length of the packet is counted in 32 bits,
of which `ahci_build_iov` takes the highest for a sign: a longer read moves nothing and never
comes to its last request.
-/

set_option autoImplicit false

namespace DeviceModel.PciAhci.AtapiPort

open Fallible BlockIf ScatterGather

section Chunks

variable {slot : Slot} {cfis : BitVec 64}

/-- The bytes that a packet reads, as the code counts them. -/
def readBytes (s : AtapiPort) (cfis : BitVec 64) : BitVec 32 := s.readLength cfis * 2048

/-- The requests of a packet read, one after another as `atapi_ioreq_cb` carries it on, and how
many they are. `ts i` is the port when the request `i` goes out. -/
def readChunks (slot : Slot) (cfis : BitVec 64) (ts : Nat → AtapiPort) :
    Nat → Nat → BitVec 32 → Except Fault Nat
  | 0, _, _ => .error .thrLoop
  | fuel + 1, i, done => do
    let t := ts i
    let (io, _) ← readChunk slot cfis t.toPort (t.readLba cfis * 2048) (t.readBytes cfis) done
    if io.more then readChunks slot cfis ts fuel (i + 1) (BitVec.ofNat 32 io.done) else .ok (i + 1)

structure SameRead (slot : Slot) (cfis : BitVec 64) (s t : AtapiPort) : Prop where
  attached : t.p.attached = true
  length : t.readLength cfis = s.readLength cfis
  entries : t.entries slot cfis = s.entries slot cfis

theorem ahciBuildIov_cases (t : Port) (sectsz : Nat) (prdt : BitVec 64) (n : Nat) (len done : BitVec 32) :
    ∃ taken rest, gather (prdtEntries t.mem n prdt) BLOCKIF_IOV_MAX done.toNat
        (len - done).toInt.toNat = (taken, rest) ∧
      ahciBuildIov t sectsz prdt n len done =
        if taken.length = BLOCKIF_IOV_MAX then do
          assertThat (0 < total taken - total taken % sectsz) .buildIovTodo
          .ok ((trim (total taken % sectsz) taken.reverse).reverse.map hostVec,
            total taken - total taken % sectsz,
            decide (done + BitVec.ofNat 32 (total taken - total taken % sectsz) < len ∧ 0 < rest.length))
        else .ok (taken.map hostVec, total taken,
          decide (done + BitVec.ofNat 32 (total taken) < len ∧ 0 < rest.length)) := by
  refine ⟨_, _, rfl, ?_⟩
  rw [ahciBuildIov, buildVecs_eq, List.length_nil, Nat.sub_zero, List.nil_append]
  dsimp only
  rw [List.length_map, sum_hostVec, ← List.map_reverse, trimVecs_eq, ← List.map_reverse]

/-- The bytes left of a read of less than 2 GiB. -/
theorem left_eq {len done : BitVec 32} (hLen : len.toNat < 2 ^ 31) (hDone : done ≤ len) :
    (len - done).toInt.toNat = len.toNat - done.toNat := by
  have hSub : (len - done).toNat = len.toNat - done.toNat := BitVec.toNat_sub_of_le hDone
  rw [BitVec.toInt_eq_toNat_of_lt (by omega), hSub]
  rfl

theorem ahciBuildIov_progress (t : Port) (sectsz : Nat) (prdt : BitVec 64) (n : Nat)
    {len done : BitVec 32} (hLen : len.toNat < 2 ^ 31) (hDone : done ≤ len) :
    Yields (· = .buildIovTodo)
      (fun b => b.2.1 ≤ len.toNat - done.toNat ∧
        b.2.2 = decide (done + BitVec.ofNat 32 b.2.1 < len ∧ b.2.2 = true) ∧ (b.2.2 = true → 0 < b.2.1))
      (ahciBuildIov t sectsz prdt n len done) := by
  obtain ⟨taken, rest, hGather, hBuild⟩ := ahciBuildIov_cases t sectsz prdt n len done
  have hLeft := total_gather_le (prdtEntries t.mem n prdt) BLOCKIF_IOV_MAX done.toNat
    (len - done).toInt.toNat
  have hCount := length_gather (prdtEntries t.mem n prdt) BLOCKIF_IOV_MAX done.toNat
    (len - done).toInt.toNat
  have hAll := total_gather (prdtEntries t.mem n prdt) BLOCKIF_IOV_MAX done.toNat
    (len - done).toInt.toNat
  rw [hGather, left_eq hLen hDone] at hLeft hAll
  rw [hGather] at hCount
  rw [left_eq hLen hDone] at hGather
  dsimp only at hLeft hCount hAll
  rw [hBuild]
  split
  · have hAssert : Yields (· = Fault.buildIovTodo) (fun _ => 0 < total taken - total taken % sectsz)
        (assertThat (0 < total taken - total taken % sectsz) .buildIovTodo) :=
      assertThat_yields fun _ => rfl
    apply hAssert.bind
    intro _ _ hTodo
    refine ⟨?_, ?_, fun _ => hTodo⟩
    · exact (Nat.sub_le _ _).trans hLeft
    · simp
  · next hFew =>
    refine ⟨hLeft, by simp, fun hMore => ?_⟩
    dsimp only at hMore ⊢
    rw [decide_eq_true_iff] at hMore
    obtain ⟨hLess, hRest⟩ := hMore
    rw [hAll (.inl (by omega))]
    have hSome : 0 < len.toNat - done.toNat := by
      by_contra hNone
      have hZero : total taken = 0 := by omega
      rw [hZero, BitVec.lt_def] at hLess
      simp at hLess
      omega
    rw [Nat.lt_min]
    refine ⟨hSome, ?_⟩
    by_contra hSkip
    have hSkipped := gather_skipped (prdtEntries t.mem n prdt)
      (show total (prdtEntries t.mem n prdt) ≤ done.toNat by omega) (show 0 < BLOCKIF_IOV_MAX by decide) hSome
    rw [hGather] at hSkipped
    rw [(Prod.mk.inj hSkipped).2] at hRest
    exact absurd hRest (by decide)

/-- A request that is not the last one moves something. -/
theorem readChunk_progress {s t : AtapiPort} (hSame : SameRead slot cfis s t) (lba : BitVec 64)
    {len done : BitVec 32} (hLen : len.toNat < 2 ^ 31) (hDone : done ≤ len) :
    Yields (· = .buildIovTodo) (fun c => c.1.more = true → done.toNat < c.1.done ∧ c.1.done < len.toNat)
      (readChunk slot cfis t.toPort lba len done) := by
  have hSectsz : t.toPort.sectsz = .ok t.p.bctx.bcSectsz := by
    rw [Port.sectsz, assertThat_of _ hSame.attached]
    rfl
  rw [readChunk, hSectsz, ok_bind]
  apply (ahciBuildIov_progress t.toPort _ _ _ hLen hDone).bind
  rintro ⟨iov, todo, more⟩ - ⟨hTodo, hLess, hSome⟩ hMore
  dsimp only at hTodo hLess hSome hMore ⊢
  rw [hMore, eq_comm, decide_eq_true_iff, BitVec.lt_def] at hLess
  have hNext : (done + BitVec.ofNat 32 todo).toNat = done.toNat + todo := by
    have hLe : done.toNat ≤ len.toNat := hDone
    rw [BitVec.toNat_add, BitVec.toNat_ofNat, Nat.mod_eq_of_lt (show todo < 2 ^ 32 by omega)]
    exact Nat.mod_eq_of_lt (by omega)
  have hPos := hSome hMore
  omega

theorem readChunks_ends {ts : Nat → AtapiPort} (hSame : ∀ i, SameRead slot cfis (ts 0) (ts i))
    (hLen : ((ts 0).readBytes cfis).toNat < 2 ^ 31) (fuel i : Nat) {done : BitVec 32}
    (hDone : done ≤ (ts 0).readBytes cfis) (hFuel : ((ts 0).readBytes cfis).toNat < done.toNat + fuel) :
    Yields (· = .buildIovTodo) (fun _ => True) (readChunks slot cfis ts fuel i done) := by
  induction fuel generalizing i done with
  | zero =>
    have hLe : done.toNat ≤ ((ts 0).readBytes cfis).toNat := hDone
    omega
  | succ fuel ih =>
    have hBytes : (ts i).readBytes cfis = (ts 0).readBytes cfis := by
      rw [readBytes, (hSame i).length, readBytes]
    rw [readChunks, hBytes]
    apply (readChunk_progress (hSame i) _ hLen hDone).bind
    rintro ⟨io, breq⟩ - hMore
    dsimp only at hMore ⊢
    split
    · next hGoesOn =>
      obtain ⟨hForward, hLess⟩ := hMore hGoesOn
      have hNext : (BitVec.ofNat 32 io.done).toNat = io.done := by
        rw [BitVec.toNat_ofNat]
        exact Nat.mod_eq_of_lt (by omega)
      apply ih
      · rw [BitVec.le_def, hNext]
        omega
      · omega
    · trivial

theorem entries_eq_nil_iff (t : Port) : t.entries slot cfis = [] ↔ t.prdtl slot = 0 := by
  unfold Port.entries
  cases t.prdtl slot with
  | zero => exact iff_of_true rfl rfl
  | succ n => exact iff_of_false (List.cons_ne_nil _ _) (Nat.succ_ne_zero n)

/-- A packet without a PRDT makes one request. -/
theorem readChunk_nothing {s t : AtapiPort} (hSame : SameRead slot cfis s t)
    (hNone : s.entries slot cfis = []) (lba : BitVec 64) (len done : BitVec 32) :
    Yields (fun _ => False) (fun c => c.1.more = false) (readChunk slot cfis t.toPort lba len done) := by
  have hEmpty : t.prdtl slot = 0 := (entries_eq_nil_iff t.toPort).mp (hSame.entries.trans hNone)
  rw [readChunk, Port.sectsz, assertThat_of _ hSame.attached, hEmpty]
  simp [ahciBuildIov, Port.buildVecs, BLOCKIF_IOV_MAX]

/-- From 2 GiB on `left` is negative, so that a request moves nothing and is not the last one. -/
theorem readChunk_stuck {s t : AtapiPort} (hSame : SameRead slot cfis s t)
    (hSome : s.entries slot cfis ≠ []) (lba : BitVec 64) {len : BitVec 32} (hLen : 2 ^ 31 ≤ len.toNat) :
    Yields (fun _ => False) (fun c => c.1.more = true ∧ c.1.done = 0)
      (readChunk slot cfis t.toPort lba len 0) := by
  obtain ⟨n, hPrdtl⟩ := Nat.exists_eq_succ_of_ne_zero fun hZero =>
    hSome (hSame.entries.symm.trans ((entries_eq_nil_iff t.toPort).mpr hZero))
  have hLeft : (len - 0).toInt.toNat = 0 := by
    rw [sub_zero, BitVec.toInt_eq_toNat_cond, if_neg (by omega)]
    omega
  have hMore : decide ((0 : BitVec 32) + BitVec.ofNat 32 0 < len ∧ 0 < n + 1) = true := by
    refine decide_eq_true ⟨?_, Nat.succ_pos n⟩
    exact Nat.lt_of_lt_of_le (by decide) hLen
  have hBuild : ∀ sectsz, ahciBuildIov t.toPort sectsz (cfis + 0x80) (n + 1) len 0 = .ok ([], 0, true) := by
    intro sectsz
    rw [ahciBuildIov, hLeft]
    exact congrArg (fun more => Except.ok (([] : List Iovec), 0, more)) hMore
  rw [readChunk, Port.sectsz, assertThat_of _ hSame.attached, hPrdtl, ok_bind, ok_bind, hBuild]
  exact ⟨rfl, rfl⟩

theorem readChunks_stuck {ts : Nat → AtapiPort} (hSame : ∀ i, SameRead slot cfis (ts 0) (ts i))
    (hSome : (ts 0).entries slot cfis ≠ []) (hLen : 2 ^ 31 ≤ ((ts 0).readBytes cfis).toNat)
    (fuel i : Nat) : readChunks slot cfis ts fuel i 0 = .error .thrLoop := by
  induction fuel generalizing i with
  | zero => rfl
  | succ fuel ih =>
    have hBytes : (ts i).readBytes cfis = (ts 0).readBytes cfis := by
      rw [readBytes, (hSame i).length, readBytes]
    obtain ⟨c, hChunk, hMore, hDone⟩ :=
      (readChunk_stuck (hSame i) hSome ((ts i).readLba cfis * 2048) hLen).exists_ok
    rw [readChunks, hBytes, hChunk, ok_bind]
    dsimp only
    rw [if_pos hMore, hDone]
    exact ih (i + 1)

/-- The requests of a packet read come to an end exactly if the read is of less than 2 GiB or has no
PRDT, unless an assertion on its vectors fails. -/
theorem readChunks_end_iff {ts : Nat → AtapiPort} (hSame : ∀ i, SameRead slot cfis (ts 0) (ts i)) :
    (∃ fuel, Yields (· = .buildIovTodo) (fun _ => True) (readChunks slot cfis ts fuel 0 0)) ↔
      ((ts 0).readBytes cfis).toNat < 2 ^ 31 ∨ (ts 0).entries slot cfis = [] := by
  constructor
  · rintro ⟨fuel, hEnds⟩
    by_contra hNot
    obtain ⟨hLong, hSome⟩ := not_or.mp hNot
    rw [readChunks_stuck hSame hSome (Nat.le_of_not_lt hLong)] at hEnds
    exact absurd hEnds (by decide)
  · rintro (hLen | hNone)
    · refine ⟨((ts 0).readBytes cfis).toNat + 1, readChunks_ends hSame hLen _ 0 ?_ ?_⟩
      · exact Nat.zero_le _
      · simp
    · refine ⟨1, ?_⟩
      obtain ⟨c, hChunk, hLast⟩ := (readChunk_nothing (hSame 0) hNone ((ts 0).readLba cfis * 2048)
        ((ts 0).readBytes cfis) 0).exists_ok
      rw [readChunks, hChunk, ok_bind]
      dsimp only
      rw [hLast]
      trivial

end Chunks

end DeviceModel.PciAhci.AtapiPort

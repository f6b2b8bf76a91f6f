import DeviceModel.PciAhciTransfer

/-!
# The AHCI controller: replies

A reply goes to the buffers that the PRDT names, byte by byte, and comes back from there.
-/

set_option autoImplicit false

namespace DeviceModel.PciAhci

open ScatterGather

def hostSegment (g : Segment (BitVec 64)) : Segment (BitVec 64) := ⟨paddrGuest2host g.base, g.len⟩

section Entries

variable {m m' : Memory} {a : BitVec 64}

theorem mem_addresses_iff {g : Segment (BitVec 64)} :
    a ∈ g.addresses ↔ ∃ i < g.len, a = g.base + BitVec.ofNat 64 i := by
  unfold Segment.addresses
  rw [List.mem_map]
  constructor
  · rintro ⟨i, hi, rfl⟩
    exact ⟨i, List.mem_range.mp hi, rfl⟩
  · rintro ⟨i, hi, rfl⟩
    exact ⟨i, List.mem_range.mpr hi, rfl⟩

theorem mem_addresses_within {b : BitVec 64} {j k n : Nat} (hFits : j + k ≤ n)
    (hMem : a ∈ (⟨b + BitVec.ofNat 64 j, k⟩ : Segment (BitVec 64)).addresses) :
    a ∈ (⟨b, n⟩ : Segment (BitVec 64)).addresses := by
  obtain ⟨i, hi, rfl⟩ := mem_addresses_iff.mp hMem
  dsimp only at hi
  rw [BitVec.add_assoc, ← BitVec.ofNat_add]
  exact mem_addresses_iff.mpr ⟨j + i, by dsimp only; omega, rfl⟩

theorem prdtEntries_congr {n : Nat} {prdt : BitVec 64}
    (h : ∀ a ∈ (⟨prdt, 16 * n⟩ : Segment (BitVec 64)).addresses, m' a = m a) :
    prdtEntries m' n prdt = prdtEntries m n prdt := by
  have hAt : ∀ i < 16 * n, m' (prdt + BitVec.ofNat 64 i) = m (prdt + BitVec.ofNat 64 i) :=
    fun i hi => h _ (mem_addresses_iff.mpr ⟨i, hi, rfl⟩)
  clear h
  induction n generalizing prdt with
  | zero => rfl
  | succ n ih =>
    have hWord : ∀ k ≤ 12,
        m'.load32 (prdt + BitVec.ofNat 64 k) = m.load32 (prdt + BitVec.ofNat 64 k) := by
      intro k hk
      apply Memory.load32_congr
      intro i hi
      rw [BitVec.add_assoc, ← BitVec.ofNat_add]
      exact hAt _ (by omega)
    have hRest : prdtEntries m' n (prdt + 16) = prdtEntries m n (prdt + 16) := by
      apply ih
      intro i hi
      have hNext : prdt + 16 + BitVec.ofNat 64 i = prdt + BitVec.ofNat 64 (16 + i) := by bv_omega
      rw [hNext]
      exact hAt _ (by omega)
    have hLow := hWord 0 (by decide)
    have hHigh : m'.load32 (prdt + 4) = m.load32 (prdt + 4) := hWord 4 (by decide)
    have hSize : m'.load32 (prdt + 12) = m.load32 (prdt + 12) := hWord 12 (by decide)
    rw [BitVec.add_zero] at hLow
    rw [prdtEntries, prdtEntries, hRest, Port.prdtBase, Port.prdtBase, Port.prdtSize, Port.prdtSize,
      Memory.load64, Memory.load64, hLow, hHigh, hSize]

theorem addresses_succ (a : BitVec 64) (n : Nat) :
    (⟨a, n + 1⟩ : Segment (BitVec 64)).addresses =
      a :: (⟨a + 1, n⟩ : Segment (BitVec 64)).addresses := by
  unfold Segment.addresses
  dsimp only
  rw [List.range_succ_eq_map, List.map_cons, List.map_map, Nat.cast_zero, add_zero]
  refine congrArg (a :: ·) (List.map_congr_left fun i _ => ?_)
  rw [Function.comp_apply, Nat.cast_succ, add_comm (i : BitVec 64) 1, add_assoc]

theorem storeBytes_eq (m : Memory) (a : BitVec 64) (bs : List (BitVec 8)) :
    m.storeBytes a bs = store m (⟨a, bs.length⟩ : Segment (BitVec 64)).addresses bs := by
  induction bs generalizing m a with
  | nil => rw [store_nil, Memory.storeBytes]
  | cons b bs ih =>
    rw [Memory.storeBytes, ih, List.length_cons, addresses_succ, store]
    rfl

theorem bytes_eq (m : Memory) (a : BitVec 64) (n : Nat) :
    m.bytes a n = (⟨a, n⟩ : Segment (BitVec 64)).addresses.map m := by
  rw [Segment.addresses, List.map_map]
  rfl

theorem take_addresses (g : Segment (BitVec 64)) {n : Nat} (hFits : n ≤ g.len) :
    g.addresses.take n = (⟨g.base, n⟩ : Segment (BitVec 64)).addresses := by
  have hCut := g.addresses_cut (show 0 + n ≤ g.len by omega)
  rw [Segment.cut, Nat.cast_zero, add_zero, List.drop_zero] at hCut
  exact hCut.symm

theorem store_segment (m : Memory) (g : Segment (BitVec 64)) (as : List (BitVec 64))
    (bs : List (BitVec 8)) : store m (g.addresses ++ as) bs =
      store (m.storeBytes g.base (bs.take (min bs.length g.len))) as
        (bs.drop (min bs.length g.len)) := by
  rw [storeBytes_eq]
  rcases Nat.le_total bs.length g.len with hPart | hWhole
  · have hTake : (g.addresses ++ as).take bs.length = g.addresses.take bs.length :=
      List.take_append_of_le_length (by rwa [Segment.length_addresses])
    rw [Nat.min_eq_left hPart, List.take_length, List.drop_length, store_nil, ← store_take, hTake,
      take_addresses g hPart]
  · have hLen : (bs.take g.len).length = g.len := by
      rw [List.length_take]
      exact Nat.min_eq_left hWhole
    rw [Nat.min_eq_right hWhole, hLen]
    conv_lhs => rw [← List.take_append_drop g.len bs]
    rw [store_append _ (by rw [hLen, Segment.length_addresses])]

theorem storeBytes_elsewhere {g : Segment (BitVec 64)} {n : Nat} {bs : List (BitVec 8)}
    (hElse : a ∉ g.addresses) (hFits : n ≤ g.len) : m.storeBytes g.base (bs.take n) a = m a := by
  have hLen : (bs.take n).length ≤ g.len := by
    rw [List.length_take]
    omega
  rw [storeBytes_eq, ← take_addresses g hLen]
  apply store_of_notMem
  intro hMem
  exact hElse (List.mem_of_mem_take (List.mem_of_mem_take hMem))

theorem addresses_append (a : BitVec 64) (j k : Nat) :
    (⟨a, j + k⟩ : Segment (BitVec 64)).addresses =
      (⟨a, j⟩ : Segment (BitVec 64)).addresses ++
        (⟨a + BitVec.ofNat 64 j, k⟩ : Segment (BitVec 64)).addresses := by
  induction j generalizing a with
  | zero => simp [Segment.addresses]
  | succ j ih =>
    have hNext : a + 1 + BitVec.ofNat 64 j = a + BitVec.ofNat 64 (j + 1) := by bv_omega
    rw [Nat.add_right_comm, addresses_succ, ih, addresses_succ, hNext, List.cons_append]

end Entries

section Loops

variable {m : Memory} {hdr prdt : BitVec 64} {i : Nat}

def bufferBytes (gs : List (Segment (BitVec 64))) : List (BitVec 64) := scatter (gs.map hostSegment)

theorem bufferBytes_nil : bufferBytes [] = [] := rfl

theorem bufferBytes_cons (g : Segment (BitVec 64)) (gs : List (Segment (BitVec 64))) :
    bufferBytes (g :: gs) = (hostSegment g).addresses ++ bufferBytes gs := rfl

theorem length_bufferBytes (gs : List (Segment (BitVec 64))) : (bufferBytes gs).length = total gs := by
  rw [bufferBytes, length_scatter, total, total, List.map_map]
  rfl

/-- The loop of `read_prdt` reads the bytes of the buffers. -/
theorem readPrdtFrom_eq (m : Memory) (prdtl n i : Nat) (prdt : BitVec 64) {len : Nat}
    (hFuel : len ≤ n) :
    Port.readPrdtFrom m prdtl n i prdt len =
      ((bufferBytes (prdtEntries m (prdtl - i) prdt)).take len).map m := by
  induction n generalizing i prdt len with
  | zero =>
    obtain rfl : len = 0 := Nat.le_zero.mp hFuel
    rfl
  | succ n ih =>
    rw [Port.readPrdtFrom]
    split
    · next hMore =>
      obtain ⟨k, hk⟩ : ∃ k, prdtl - i = k + 1 := ⟨prdtl - i - 1, by omega⟩
      have hRest : prdtl - (i + 1) = k := by omega
      have hSize : 0 < Port.prdtSize m prdt := Nat.succ_pos _
      dsimp only
      rw [ih _ _ (by omega), hRest, hk, prdtEntries, bufferBytes_cons, List.take_append,
        List.map_append, bytes_eq, Segment.length_addresses, hostSegment]
      dsimp only
      rcases Nat.le_total len (Port.prdtSize m prdt) with hPart | hWhole
      · rw [Nat.min_eq_left hPart, Nat.sub_self, Nat.sub_eq_zero_of_le hPart, List.take_zero,
          take_addresses _ hPart]
      · have hAll : ∀ g : Segment (BitVec 64), g.len ≤ len → g.addresses.take len = g.addresses := by
          intro g hLen
          apply List.take_of_length_le
          rwa [Segment.length_addresses]
        rw [Nat.min_eq_right hWhole, hAll _ hWhole]
    · next hDone =>
      rcases Nat.eq_zero_or_pos len with rfl | hLen
      · rfl
      · have hNone : prdtl - i = 0 := by omega
        rw [hNone, prdtEntries, bufferBytes_nil, List.take_nil, List.map_nil]

/-- The addresses that the loop of `write_prdt` reads from entry `i` on. -/
def prdtWords (m : Memory) (hdr : BitVec 64) (i : Nat) (prdt : BitVec 64) : List (BitVec 64) :=
  (⟨hdr, AHCI_CL_SIZE⟩ : Segment (BitVec 64)).addresses ++
    (⟨prdt, 16 * (Port.hdrPrdtl m hdr - i)⟩ : Segment (BitVec 64)).addresses

theorem hdrPrdtl_congr {m' : Memory}
    (h : ∀ a ∈ (⟨hdr + 2, 2⟩ : Segment (BitVec 64)).addresses, m' a = m a) :
    Port.hdrPrdtl m' hdr = Port.hdrPrdtl m hdr := by
  have hWord : (⟨hdr + 2, 2⟩ : Segment (BitVec 64)).addresses = [hdr + 2, hdr + 2 + 1] := by
    rw [addresses_succ, addresses_succ]
    rfl
  rw [hWord] at h
  have hLow := h (hdr + 2) List.mem_cons_self
  have hHigh := h (hdr + 2 + 1) (List.mem_cons_of_mem _ List.mem_cons_self)
  rw [Port.hdrPrdtl, Port.hdrPrdtl, Memory.load16, Memory.load16, hLow, hHigh]

/-- The loop of `write_prdt` stores at the bytes of the buffers. -/
theorem writePrdtFrom_eq (hdr : BitVec 64) (n : Nat) (m : Memory) (i : Nat) (prdt : BitVec 64)
    {buf : List (BitVec 8)} (hFuel : buf.length ≤ n)
    (hApart : List.Disjoint (bufferBytes (prdtEntries m (Port.hdrPrdtl m hdr - i) prdt))
      (prdtWords m hdr i prdt)) :
    Port.writePrdtFrom hdr n m i prdt buf =
      (store m (bufferBytes (prdtEntries m (Port.hdrPrdtl m hdr - i) prdt)) buf,
        buf.length - total (prdtEntries m (Port.hdrPrdtl m hdr - i) prdt)) := by
  induction n generalizing m i prdt buf with
  | zero =>
    obtain rfl : buf = [] := List.eq_nil_of_length_eq_zero (Nat.le_zero.mp hFuel)
    rw [Port.writePrdtFrom, store_nil, List.length_nil, Nat.zero_sub]
  | succ n ih =>
    rw [Port.writePrdtFrom]
    split
    · next hMore =>
      obtain ⟨k, hk⟩ : ∃ k, Port.hdrPrdtl m hdr - i = k + 1 := ⟨Port.hdrPrdtl m hdr - i - 1, by omega⟩
      have hRest : Port.hdrPrdtl m hdr - (i + 1) = k := by omega
      have hSize : 0 < Port.prdtSize m prdt := Nat.succ_pos _
      have hLen : 0 < buf.length := List.length_pos_iff.mpr hMore.2
      rw [prdtWords, hk, prdtEntries, bufferBytes_cons] at hApart
      rw [hk, prdtEntries, bufferBytes_cons, total_cons]
      obtain ⟨hBuffer, hLater⟩ := List.disjoint_append_left.mp hApart
      have hTable := addresses_append prdt 16 (16 * k)
      rw [show 16 * (k + 1) = 16 + 16 * k by omega, hTable] at hBuffer hLater
      rw [store_segment, hostSegment]
      dsimp only
      generalize hm' : m.storeBytes (paddrGuest2host (Port.prdtBase m prdt))
        (buf.take (min buf.length (Port.prdtSize m prdt))) = m'
      have hSame : ∀ a, a ∉ (hostSegment ⟨Port.prdtBase m prdt, Port.prdtSize m prdt⟩).addresses →
          m' a = m a := by
        intro a hElse
        rw [← hm']
        exact storeBytes_elsewhere hElse (Nat.min_le_right _ _)
      have hCount : Port.hdrPrdtl m' hdr = Port.hdrPrdtl m hdr := by
        apply hdrPrdtl_congr
        intro a hMem
        have hHeader := mem_addresses_within (n := AHCI_CL_SIZE) (j := 2) (by decide) hMem
        exact hSame a fun hIn => hBuffer hIn (List.mem_append_left _ hHeader)
      have hEntries : prdtEntries m' k (prdt + 16) = prdtEntries m k (prdt + 16) := by
        apply prdtEntries_congr
        intro a hMem
        exact hSame a fun hIn =>
          hBuffer hIn (List.mem_append_right _ (List.mem_append_right _ hMem))
      have hDrop : (buf.drop (min buf.length (Port.prdtSize m prdt))).length ≤ n := by
        rw [List.length_drop]
        omega
      have hLast := ih m' (i + 1) (prdt + 16) hDrop
      rw [prdtWords, hCount, hRest, hEntries] at hLast
      obtain ⟨hHdr, hRows⟩ := List.disjoint_append_right.mp hLater
      rw [hLast (List.disjoint_append_right.mpr ⟨hHdr, (List.disjoint_append_right.mp hRows).2⟩)]
      refine congrArg (Prod.mk _) ?_
      rw [List.length_drop]
      omega
    · next hDone =>
      cases buf with
      | nil => rw [store_nil, List.length_nil, Nat.zero_sub]
      | cons b buf =>
        have hNone : Port.hdrPrdtl m hdr - i = 0 := by
          by_contra hSome
          exact hDone ⟨by omega, List.cons_ne_nil _ _⟩
        rw [hNone, prdtEntries, bufferBytes_nil, store, total_nil, Nat.sub_zero]

end Loops

section Copy

namespace Port

variable (s : Port) (slot : Slot) (cfis : BitVec 64)

def headerBytes : List (BitVec 64) := (⟨s.cmdHdr slot, AHCI_CL_SIZE⟩ : Segment (BitVec 64)).addresses

def tableBytes : List (BitVec 64) :=
  (⟨cfis + 0x80, 16 * s.prdtl slot⟩ : Segment (BitVec 64)).addresses

def prdbcBytes : List (BitVec 64) := (⟨s.cmdHdr slot + 4, 4⟩ : Segment (BitVec 64)).addresses

def moved (buf : List (BitVec 8)) : Nat := min buf.length (total (s.entries slot cfis))

end Port

/-- The buffers are disjoint from each other and from the command header and table. -/
structure PrdtApart (s : Port) (slot : Slot) (cfis : BitVec 64) : Prop where
  each : (s.entries slot cfis).Pairwise fun g h =>
    List.Disjoint (hostSegment g).addresses (hostSegment h).addresses
  header : List.Disjoint (bufferBytes (s.entries slot cfis)) (s.headerBytes slot)
  table : List.Disjoint (bufferBytes (s.entries slot cfis)) (s.tableBytes slot cfis)

/-- What `write_prdt` should leave, and `read_prdt` over the same entries return. -/
structure PrdtCopied (s : Port) (slot : Slot) (cfis : BitVec 64) (buf : List (BitVec 8)) (t : Port) :
    Prop where
  stored : ((bufferBytes (s.entries slot cfis)).take (s.moved slot cfis buf)).map t.mem =
    buf.take (s.moved slot cfis buf)
  kept : ∀ a ∉ (bufferBytes (s.entries slot cfis)).take (s.moved slot cfis buf),
    a ∉ s.prdbcBytes slot → t.mem a = s.mem a
  prdbc : t.mem.load32 (s.cmdHdr slot + 4) = BitVec.ofNat 32 (s.moved slot cfis buf)
  frame : t = { s with mem := t.mem }
  readBack : ∀ slot' cfis', t.entries slot' cfis' = s.entries slot cfis →
    t.readPrdt slot' cfis' buf.length = buf.take (s.moved slot cfis buf) ++
      ((List.range buf.length).drop (s.moved slot cfis buf)).map s.sc.stack
  sameEntries : List.Disjoint (s.prdbcBytes slot) (s.tableBytes slot cfis) →
    t.entries slot cfis = s.entries slot cfis

variable {s : Port} {slot : Slot} {cfis : BitVec 64}

theorem nodup_addresses {g : Segment (BitVec 64)} (hLen : g.len ≤ 2 ^ 64) : g.addresses.Nodup := by
  apply List.Nodup.map_on _ List.nodup_range
  intro i hi j hj hEq
  have hSame : BitVec.ofNat 64 i = BitVec.ofNat 64 j := add_left_cancel hEq
  rw [List.mem_range] at hi hj
  bv_omega

theorem prdtSize_le (m : Memory) (prdt : BitVec 64) : Port.prdtSize m prdt ≤ 2 ^ 64 := by
  have hLt := (le32toh (m.load32 (prdt + 12)) &&& DBCMASK).isLt
  unfold Port.prdtSize
  omega

theorem prdtEntries_len_le (m : Memory) (n : Nat) (prdt : BitVec 64) :
    ∀ g ∈ prdtEntries m n prdt, g.len ≤ 2 ^ 64 := by
  induction n generalizing prdt with
  | zero => simp [prdtEntries]
  | succ n ih =>
    intro g hMem
    rcases List.mem_cons.mp hMem with rfl | hRest
    · exact prdtSize_le m prdt
    · exact ih _ g hRest

theorem PrdtApart.nodup (h : PrdtApart s slot cfis) : (bufferBytes (s.entries slot cfis)).Nodup := by
  rw [bufferBytes, scatter, List.nodup_flatMap]
  constructor
  · intro g hMem
    obtain ⟨g', hMem', rfl⟩ := List.mem_map.mp hMem
    exact nodup_addresses (prdtEntries_len_le _ _ _ g' hMem')
  · exact List.pairwise_map.mpr h.each

theorem store32_of_notMem (m : Memory) {a b : BitVec 64} (x : BitVec 32)
    (hElse : b ∉ (⟨a, 4⟩ : Segment (BitVec 64)).addresses) : m.store32 a x b = m b := by
  have hNe : ∀ i < 4, b ≠ a + BitVec.ofNat 64 i :=
    fun i hi hEq => hElse (mem_addresses_iff.mpr ⟨i, hi, hEq⟩)
  have h0 := hNe 0 (by decide)
  have h1 : b ≠ a + 1 := hNe 1 (by decide)
  have h2 : b ≠ a + 2 := hNe 2 (by decide)
  have h3 := hNe 3 (by decide)
  have hThird : a + 2 + 1 = a + BitVec.ofNat 64 3 := by bv_omega
  rw [BitVec.add_zero] at h0
  unfold Memory.store32 Memory.store16
  rw [hThird, Memory.store8_of_ne _ _ h3, Memory.store8_of_ne _ _ h2, Memory.store8_of_ne _ _ h1,
    Memory.store8_of_ne _ _ h0]

theorem writePrdt_eq (h : PrdtApart s slot cfis) (buf : List (BitVec 8)) :
    s.writePrdt slot cfis buf =
      { s with mem := store s.mem (bufferBytes (s.entries slot cfis)) buf }.setPrdbc slot
        (s.moved slot cfis buf) := by
  have hWords : List.Disjoint (bufferBytes (prdtEntries s.mem
      (Port.hdrPrdtl s.mem (s.cmdHdr slot) - 0) (cfis + 0x80)))
      (prdtWords s.mem (s.cmdHdr slot) 0 (cfis + 0x80)) :=
    List.disjoint_append_right.mpr ⟨h.header, h.table⟩
  have hMoved : buf.length - (buf.length - total (s.entries slot cfis)) = s.moved slot cfis buf := by
    unfold Port.moved
    omega
  rw [Port.writePrdt, writePrdtFrom_eq _ _ _ _ _ (Nat.le_refl _) hWords, ← hMoved]
  rfl

/-- A reply is stored, and comes back. -/
theorem writePrdt_copies (hApart : PrdtApart s slot cfis) (buf : List (BitVec 8)) :
    PrdtCopied s slot cfis buf (s.writePrdt slot cfis buf) := by
  have hWhole := writePrdt_eq hApart buf
  have hBytes : (bufferBytes (s.entries slot cfis)).take (s.moved slot cfis buf) =
      (bufferBytes (s.entries slot cfis)).take buf.length := by
    rw [Port.moved, ← length_bufferBytes, ← List.take_eq_take_min]
  have hReply : buf.take (s.moved slot cfis buf) = buf.take (total (s.entries slot cfis)) := by
    rw [Port.moved, Nat.min_comm, ← List.take_eq_take_min]
  have hHeader : ∀ a ∈ bufferBytes (s.entries slot cfis), a ∉ s.prdbcBytes slot := by
    intro a hIn hMem
    exact hApart.header hIn (mem_addresses_within (j := 4) (by decide) hMem)
  generalize s.writePrdt slot cfis buf = t at hWhole
  have hMemory : t.mem = Memory.store32 (store s.mem (bufferBytes (s.entries slot cfis)) buf)
      (s.cmdHdr slot + 4) (BitVec.ofNat 32 (s.moved slot cfis buf)) := by
    rw [hWhole]
    rfl
  have hElse : ∀ a, a ∉ s.prdbcBytes slot →
      t.mem a = store s.mem (bufferBytes (s.entries slot cfis)) buf a := by
    intro a hNot
    rw [hMemory]
    exact store32_of_notMem _ _ hNot
  have hKept : ∀ a ∉ (bufferBytes (s.entries slot cfis)).take (s.moved slot cfis buf),
      a ∉ s.prdbcBytes slot → t.mem a = s.mem a := by
    intro a hNot hPrdbc
    rw [hBytes] at hNot
    rw [hElse a hPrdbc, store_of_notMem hNot]
  have hStored : ((bufferBytes (s.entries slot cfis)).take (s.moved slot cfis buf)).map t.mem =
      buf.take (s.moved slot cfis buf) := by
    have hCopy := map_store hApart.nodup s.mem buf
    rw [length_bufferBytes] at hCopy
    rw [hReply, ← hCopy, hBytes]
    apply List.map_congr_left
    intro a hMem
    exact hElse a (hHeader a (List.mem_of_mem_take hMem))
  have hFrame : t = { s with mem := t.mem } := by
    rw [hWhole]
    rfl
  constructor
  · exact hStored
  · exact hKept
  · rw [hMemory, Memory.load32_store32]
  · exact hFrame
  · intro slot' cfis' hSame
    have hRead := readPrdtFrom_eq t.mem (t.prdtl slot') buf.length 0 (cfis' + 0x80) (Nat.le_refl _)
    have hBack : Port.readPrdtFrom t.mem (t.prdtl slot') buf.length 0 (cfis' + 0x80) buf.length =
        buf.take (s.moved slot cfis buf) := by
      rw [hRead, ← hStored, hBytes, ← hSame]
      rfl
    have hLen : (buf.take (s.moved slot cfis buf)).length = s.moved slot cfis buf := by
      rw [List.length_take]
      exact Nat.min_eq_left (Nat.min_le_left _ _)
    have hStack : t.sc.stack = s.sc.stack := by rw [hFrame]
    rw [Port.readPrdt, hBack, hLen, hStack]
  · intro hDisjoint
    have hHdr : t.cmdHdr slot = s.cmdHdr slot := by
      rw [hFrame]
      rfl
    have hOutside : ∀ a, a ∉ s.prdbcBytes slot → a ∉ bufferBytes (s.entries slot cfis) →
        t.mem a = s.mem a :=
      fun a hNot hElse => hKept a (fun hMem => hElse (List.mem_of_mem_take hMem)) hNot
    have hCount : t.prdtl slot = s.prdtl slot := by
      rw [Port.prdtl, Port.prdtl, hHdr]
      apply hdrPrdtl_congr
      intro a hMem
      apply hOutside a
      · intro hPrdbc
        obtain ⟨i, hi, hAt⟩ := mem_addresses_iff.mp hMem
        obtain ⟨j, hj, hAt'⟩ := mem_addresses_iff.mp hPrdbc
        dsimp only at hi hj hAt hAt'
        bv_omega
      · intro hIn
        exact hApart.header hIn (mem_addresses_within (j := 2) (by decide) hMem)
    rw [Port.entries, Port.entries, hCount]
    apply prdtEntries_congr
    intro a hMem
    exact hOutside a (fun hPrdbc => hDisjoint hPrdbc hMem) fun hIn => hApart.table hIn hMem

def twoBuffers : Port where
  p := (readPort 2 4).p
  sc := (readPort 2 4).sc
  mem a := ([(2, 2), (0x180, 0x40), (0x181, 0x20), (0x18c, 3), (0x190, 0x80), (0x191, 0x20),
    (0x19c, 1)].lookup a.toNat).getD 0

theorem writePrdt_copies_twoBuffers : PrdtCopied twoBuffers 0 0x100 [1, 2, 3, 4, 5, 6, 7]
    (twoBuffers.writePrdt 0 0x100 [1, 2, 3, 4, 5, 6, 7]) := by
  have hEntries : twoBuffers.entries 0 0x100 = [⟨0x2040, 4⟩, ⟨0x2080, 2⟩] := by decide +kernel
  have hHdr : twoBuffers.cmdHdr 0 = 0 := by decide +kernel
  have hCount : twoBuffers.prdtl 0 = 2 := by decide +kernel
  have hFirst : ∀ a ∈ (hostSegment ⟨0x2040, 4⟩).addresses, ∃ i < 4,
      a = 0x9000000000002040 + BitVec.ofNat 64 i := fun a hMem => mem_addresses_iff.mp hMem
  have hSecond : ∀ a ∈ (hostSegment ⟨0x2080, 2⟩).addresses, ∃ i < 2,
      a = 0x9000000000002080 + BitVec.ofNat 64 i := fun a hMem => mem_addresses_iff.mp hMem
  have hApart : ∀ {b : BitVec 64} {n : Nat}, b ≤ 0x180 → n ≤ 32 →
      List.Disjoint (bufferBytes (twoBuffers.entries 0 0x100))
        (⟨b, n⟩ : Segment (BitVec 64)).addresses := by
    intro b n hb hn a hIn hMem
    obtain ⟨j, hj, hLow⟩ := mem_addresses_iff.mp hMem
    dsimp only at hj hLow
    rw [hEntries, bufferBytes_cons, bufferBytes_cons, bufferBytes_nil, List.append_nil] at hIn
    rcases List.mem_append.mp hIn with hIn | hIn
    · obtain ⟨i, hi, hHigh⟩ := hFirst a hIn
      bv_omega
    · obtain ⟨i, hi, hHigh⟩ := hSecond a hIn
      bv_omega
  apply writePrdt_copies
  constructor
  · rw [hEntries]
    apply List.pairwise_pair.mpr
    intro a hIn hIn'
    obtain ⟨i, hi, hAt⟩ := hFirst a hIn
    obtain ⟨j, hj, hAt'⟩ := hSecond a hIn'
    bv_omega
  · rw [Port.headerBytes, hHdr]
    exact hApart (by decide) (by decide)
  · rw [Port.tableBytes, hCount]
    exact hApart (by decide) (by decide)

end Copy

end DeviceModel.PciAhci

import DeviceModel.E82545RxRing
import DeviceModel.E82545Vectors

/-!
# The e1000 network device: the bytes of received packets

The FIFO driver scatters a packet to the buffers of the free descriptors. As long as these are apart
from each other and from the ring, the guest finds each packet that is taken in where its descriptors
say: no later packet and no write to the ring touches it.
-/

set_option autoImplicit false

namespace DeviceModel.E82545

open Fallible

section Descriptors

variable {m : Memory} {b : BitVec 64}

/-- The device writes to the second half of a descriptor. -/
theorem storeRxdesc_of_ne {a : BitVec 64} (length : BitVec 16) (status : BitVec 8)
    (hNe : ∀ j, 8 ≤ j → j < 16 → b ≠ a + BitVec.ofNat 64 j) : storeRxdesc m a length status b = m b := by
  have h8 : b ≠ a + 8 := hNe 8 (by decide) (by decide)
  have h9 : b ≠ a + 8 + 1 := by
    rw [BitVec.add_assoc]
    exact hNe 9 (by decide) (by decide)
  have h10 : b ≠ a + 10 := hNe 10 (by decide) (by decide)
  have h11 : b ≠ a + 10 + 1 := by
    rw [BitVec.add_assoc]
    exact hNe 11 (by decide) (by decide)
  have h12 : b ≠ a + 12 := hNe 12 (by decide) (by decide)
  have h13 : b ≠ a + 13 := hNe 13 (by decide) (by decide)
  have h14 : b ≠ a + 14 := hNe 14 (by decide) (by decide)
  have h15 : b ≠ a + 14 + 1 := by
    rw [BitVec.add_assoc]
    exact hNe 15 (by decide) (by decide)
  unfold storeRxdesc
  rw [Memory.store8_of_ne _ _ h12, Memory.store16, Memory.store8_of_ne _ _ h15,
    Memory.store8_of_ne _ _ h14, Memory.store8_of_ne _ _ h13, Memory.store16, Memory.store8_of_ne _ _ h11,
    Memory.store8_of_ne _ _ h10, Memory.store16, Memory.store8_of_ne _ _ h9, Memory.store8_of_ne _ _ h8]

theorem foldl_store_of_ne {rx : Rx} {ws : List RxWrite} (hIndex : ∀ w ∈ ws, w.index < rx.size)
    (hNe : ∀ i < rx.size, ∀ j, 8 ≤ j → j < 16 → b ≠ rx.rxdesc + BitVec.ofNat 64 (16 * i + j)) :
    ws.foldl (RxWrite.store rx) m b = m b := by
  induction ws generalizing m with
  | nil => rfl
  | cons w ws ih =>
    rw [List.foldl_cons, ih fun v hv => hIndex v (List.mem_cons_of_mem w hv), RxWrite.store,
      storeRxdesc_of_ne]
    intro j hFrom hTo
    rw [rxdescAt, BitVec.add_assoc, ← BitVec.ofNat_add]
    exact hNe w.index (hIndex w List.mem_cons_self) j hFrom hTo

theorem writes_index {rx : Rx} (p : Accepted) (hSize : 0 < rx.size) :
    ∀ w ∈ p.writes rx, w.index < rx.size := by
  intro w hw
  obtain ⟨i, -, hIndex⟩ := mem_writes hw
  rw [hIndex]
  exact Nat.mod_lt _ hSize

end Descriptors

section Buffers

theorem content_eq (m : Memory) (vec : List Iovec) : content m vec = (iovAddrs vec).map m := by
  rw [content, iovAddrs, List.map_flatMap]
  congr 1
  funext v
  rw [List.map_map]
  rfl

variable (rx : Rx) (m : Memory)

/-- The buffer of the free descriptor `k`, counted from RDH. -/
def freeVec (k : Nat) : Iovec :=
  ⟨paddrGuest2host (le64toh (m.load64 (rxdescAt rx.rxdesc ((rx.rdh.toNat + k) % rx.size)))),
    e82545Bufsz rx.rctl⟩

def freeAddrs (k n : Nat) : List (BitVec 64) := iovAddrs ((List.range' k n).map (freeVec rx m))

def InRing (a : BitVec 64) : Prop := ∃ x < 16 * rx.size, a = rx.rxdesc + BitVec.ofNat 64 x

/-- The guest has given buffers that lie apart from each other and from the ring. -/
structure RxApart : Prop where
  nodup : (freeAddrs rx m 0 rx.free).Nodup
  ring : ∀ a ∈ freeAddrs rx m 0 rx.free, ¬ InRing rx a

variable {rx m}

theorem freeAddrs_add (k n n' : Nat) :
    freeAddrs rx m k (n + n') = freeAddrs rx m k n ++ freeAddrs rx m (k + n) n' := by
  rw [freeAddrs, freeAddrs, freeAddrs, ← List.range'_append_1, List.map_append, iovAddrs,
    List.flatMap_append]
  rfl

theorem length_freeAddrs (k n : Nat) : (freeAddrs rx m k n).length = n * e82545Bufsz rx.rctl := by
  induction n generalizing k with
  | zero =>
    rw [Nat.zero_mul]
    rfl
  | succ n ih =>
    rw [freeAddrs_add, List.length_append, ih, Nat.succ_mul]
    simp [freeAddrs, iovAddrs, freeVec]

theorem rxVecs_eq (k : Nat) : rxVecs rx m ((rx.rdh.toNat + k) % rx.size) =
    (List.range' k rx.maxpktdesc).map (freeVec rx m) := by
  rw [rxVecs, List.range'_eq_map_range, List.map_map]
  apply List.map_congr_left
  intro i _
  rw [Nat.mod_add_mod, Nat.add_assoc]
  rfl

theorem content_rxVecs (m' : Memory) (k : Nat) :
    content m' (rxVecs rx m ((rx.rdh.toNat + k) % rx.size)) =
      (freeAddrs rx m k rx.maxpktdesc).map m' := by
  rw [content_eq, rxVecs_eq, freeAddrs]

theorem mem_freeAddrs_iff {k n : Nat} {a : BitVec 64} : a ∈ freeAddrs rx m k n ↔
    ∃ i, (k ≤ i ∧ i < k + n) ∧ a ∈ iovAddrs [freeVec rx m i] := by
  rw [freeAddrs, iovAddrs, List.flatMap_map, List.mem_flatMap]
  constructor
  · rintro ⟨i, hi, hMem⟩
    exact ⟨i, List.mem_range'_1.mp hi, by rwa [iovAddrs, List.flatMap_singleton]⟩
  · rintro ⟨i, hi, hMem⟩
    rw [iovAddrs, List.flatMap_singleton] at hMem
    exact ⟨i, List.mem_range'_1.mpr hi, hMem⟩

/-- What a packet of `n` bytes fills of the buffers from `k` on lies in those of its descriptors. -/
theorem take_subset {k n descs count : Nat} (hFits : n ≤ descs * e82545Bufsz rx.rctl) {a : BitVec 64}
    (ha : a ∈ (freeAddrs rx m k count).take n) : a ∈ freeAddrs rx m k descs := by
  obtain hLess | hMore := Nat.le_total count descs
  · obtain ⟨more, rfl⟩ := Nat.exists_eq_add_of_le hLess
    rw [freeAddrs_add]
    exact List.mem_append_left _ (List.mem_of_mem_take ha)
  · obtain ⟨more, rfl⟩ := Nat.exists_eq_add_of_le hMore
    rw [freeAddrs_add, List.take_append_of_le_length (by rwa [length_freeAddrs])] at ha
    exact List.mem_of_mem_take ha

theorem RxApart.later (h : RxApart rx m) {k n : Nat} {a : BitVec 64} (ha : a ∈ freeAddrs rx m k n) :
    a ∉ freeAddrs rx m (k + n) (rx.free - (k + n)) := by
  obtain hLess | hMore := Nat.le_total (k + n) rx.free
  · have hSplit := h.nodup
    rw [← Nat.add_sub_cancel' hLess, freeAddrs_add, freeAddrs_add, Nat.zero_add, Nat.zero_add,
      List.append_assoc] at hSplit
    have hNodup := (List.nodup_append.mp hSplit).2.1
    exact fun hLater => (List.nodup_append.mp hNodup).2.2 a ha a hLater rfl
  · rw [Nat.sub_eq_zero_of_le hMore]
    exact List.not_mem_nil

theorem RxApart.notInRing (h : RxApart rx m) {k n : Nat} (hFree : k + n ≤ rx.free) {a : BitVec 64}
    (ha : a ∈ freeAddrs rx m k n) : ¬ InRing rx a := by
  obtain ⟨i, hi, hMem⟩ := mem_freeAddrs_iff.mp ha
  exact h.ring a (mem_freeAddrs_iff.mpr ⟨i, by omega, hMem⟩)

theorem RxApart.nodup_of (h : RxApart rx m) {k n : Nat} (hFree : k + n ≤ rx.free) :
    (freeAddrs rx m k n).Nodup := by
  have hAll := h.nodup
  rw [← Nat.add_sub_cancel' hFree, freeAddrs_add, freeAddrs_add, Nat.zero_add, Nat.zero_add,
    List.append_assoc] at hAll
  exact (List.nodup_append.mp (List.nodup_append.mp hAll).2.1).1

theorem freeVec_congr {m' : Memory} (hSize : 0 < rx.size)
    (hSame : ∀ i < rx.size, ∀ j < 8, m' (rx.rxdesc + BitVec.ofNat 64 (16 * i + j)) =
      m (rx.rxdesc + BitVec.ofNat 64 (16 * i + j))) : freeVec rx m' = freeVec rx m := by
  funext k
  rw [freeVec, freeVec, Memory.load64_congr]
  intro j hj
  rw [rxdescAt, BitVec.add_assoc, ← BitVec.ofNat_add]
  exact hSame _ (Nat.mod_lt _ hSize) j hj

end Buffers

section Loop

variable {φ : Type}

/-- The driver gives the packet `frame` of its state, which it scatters to the vectors, or nothing. It
writes nowhere else. -/
structure Fifo.Scatters (F : Fifo φ) (frame : φ → List (BitVec 8)) : Prop where
  given : ∀ fifo m vec, (F.processRx fifo m vec).1 ≤ 0 ∨
    (F.processRx fifo m vec).1 = (frame fifo).length ∧ (frame fifo).length ≤ totalLen vec
  stored : ∀ fifo m vec, 0 < (F.processRx fifo m vec).1 → (iovAddrs vec).Nodup →
    (content (F.processRx fifo m vec).2.2 vec).take (frame fifo).length = frame fifo
  kept : ∀ fifo m vec, ∀ a ∉ iovAddrs vec, (F.processRx fifo m vec).2.2 a = m a

def frames (F : Fifo φ) (sc : Softc) (frame : φ → List (BitVec 8)) :
    Nat → RxRun φ → List (List (BitVec 8))
  | 0, _ => []
  | fuel + 1, r =>
    match r.round F sc with
    | .ends _ => []
    | .drops r' => frames F sc frame fuel r'
    | .takes r' p => frame r.fifo :: frames F sc frame fuel (r'.take sc p)

/-- The packet lies in the buffers of its descriptors, as the ring of `m₀` names them. -/
structure Received (rx : Rx) (m₀ m : Memory) (p : Accepted) (bytes : List (BitVec 8)) : Prop where
  length : p.bytes = bytes.length
  data : (content m (rxVecs rx m₀ p.head)).take bytes.length = bytes

/-- The loop has come to the free descriptor `k` of the ring of `m₀`. -/
structure RxAt (rx : Rx) (m₀ : Memory) (k : Nat) (r : RxRun φ) : Prop where
  head : r.head = (rx.rdh.toNat + k) % rx.size
  left : r.left = (rx.free : Int) - k
  vecs : freeVec rx r.mem = freeVec rx m₀

/-- Memory that the loop leaves alone from the free descriptor `k` on. -/
def Spared (rx : Rx) (m₀ : Memory) (k : Nat) (a : BitVec 64) : Prop :=
  a ∉ freeAddrs rx m₀ k (rx.free - k) ∧ ¬ InRing rx a

theorem RxRing.size_pos {rx : Rx} (h : RxRing rx) : 0 < rx.size :=
  Nat.lt_of_le_of_lt (Nat.zero_le _) h.head

def RxRound.At (rx : Rx) (m₀ : Memory) (k : Nat) (frame : φ → List (BitVec 8)) (r : RxRun φ) :
    RxRound φ → Prop
  | .ends r' | .drops r' => RxAt rx m₀ k r' ∧ ∀ a, Spared rx m₀ k a → r'.mem a = r.mem a
  | .takes r' p => (RxAt rx m₀ k r' ∧ ∀ a, Spared rx m₀ k a → r'.mem a = r.mem a) ∧
      p.head = (rx.rdh.toNat + k) % rx.size ∧ k + rx.maxpktdesc ≤ rx.free ∧
      Received rx m₀ r'.mem p (frame r.fifo)

variable {F : Fifo φ} {sc : Softc} {frame : φ → List (BitVec 8)} {m₀ : Memory} {k : Nat} {r : RxRun φ}

theorem round_at (hFifo : F.Scatters frame) (hApart : RxApart sc.rx m₀) (hRing : RxRing sc.rx)
    (hAt : RxAt sc.rx m₀ k r) : (r.round F sc).At sc.rx m₀ k frame r := by
  unfold RxRun.round
  by_cases hStop : r.lim ≤ 0 ∨ r.left < sc.rx.maxpktdesc
  · rw [if_pos hStop]
    exact ⟨hAt, fun _ _ => rfl⟩
  rw [if_neg hStop]
  obtain ⟨-, hSpace⟩ := not_or.mp hStop
  have hFree : k + sc.rx.maxpktdesc ≤ sc.rx.free := by
    have hLeft := hAt.left
    omega
  have hVecs : rxVecs sc.rx r.mem r.head = (List.range' k sc.rx.maxpktdesc).map (freeVec sc.rx m₀) := by
    rw [hAt.head, rxVecs_eq, hAt.vecs]
  have hKept := hFifo.kept r.fifo r.mem (rxVecs sc.rx r.mem r.head)
  have hGiven := hFifo.given r.fifo r.mem (rxVecs sc.rx r.mem r.head)
  have hStored := hFifo.stored r.fifo r.mem (rxVecs sc.rx r.mem r.head)
  have hNodup : (iovAddrs (rxVecs sc.rx r.mem r.head)).Nodup := by
    rw [hVecs]
    exact hApart.nodup_of hFree
  obtain ⟨fifo, hFifoNow⟩ : ∃ fifo, fifo = (F.processRx r.fifo r.mem (rxVecs sc.rx r.mem r.head)).2.1 :=
    ⟨_, rfl⟩
  obtain ⟨mem, hMemNow⟩ : ∃ mem, mem = (F.processRx r.fifo r.mem (rxVecs sc.rx r.mem r.head)).2.2 :=
    ⟨_, rfl⟩
  rw [← hMemNow] at hKept hStored
  have hMem : ∀ a ∉ freeAddrs sc.rx m₀ k sc.rx.maxpktdesc, mem a = r.mem a := by
    intro a ha
    apply hKept
    rwa [hVecs]
  have hFixed : ∀ a, InRing sc.rx a → mem a = r.mem a :=
    fun a ha => hMem a fun hBuffer => hApart.notInRing hFree hBuffer ha
  have hSame : freeVec sc.rx mem = freeVec sc.rx r.mem := by
    apply freeVec_congr hRing.size_pos
    intro i hi j hj
    exact hFixed _ ⟨16 * i + j, by omega, rfl⟩
  have hNow : RxAt sc.rx m₀ k { r with fifo, mem } := ⟨hAt.head, hAt.left, hSame.trans hAt.vecs⟩
  have hSpares : ∀ a, Spared sc.rx m₀ k a → mem a = r.mem a := by
    intro a ha
    apply hMem
    intro hBuffer
    obtain ⟨i, hi, hIn⟩ := mem_freeAddrs_iff.mp hBuffer
    exact ha.1 (mem_freeAddrs_iff.mpr ⟨i, by omega, hIn⟩)
  have hSameVecs : rxVecs sc.rx r.mem r.head = rxVecs sc.rx m₀ r.head := by
    rw [hVecs, hAt.head, rxVecs_eq]
  have hData : 0 < (F.processRx r.fifo r.mem (rxVecs sc.rx r.mem r.head)).1 →
      (content mem (rxVecs sc.rx m₀ r.head)).take (frame r.fifo).length = frame r.fifo := by
    intro hSome
    rw [← hSameVecs]
    exact hStored hSome hNodup
  subst hFifoNow hMemNow
  dsimp only
  split
  · exact ⟨hNow, hSpares⟩
  · next hSome =>
    split
    · exact ⟨hNow, hSpares⟩
    · exact ⟨⟨hNow, hSpares⟩, hAt.head, hFree, (hGiven.resolve_left hSome).1, hData (Int.not_le.mp hSome)⟩

theorem bytes_le_len (rx : Rx) (p : Accepted) : p.bytes ≤ p.len rx := by
  have hMin : ETHER_MIN_LEN - ETHER_CRC_LEN = 60 := by decide
  have hCrc : ETHER_CRC_LEN = 4 := by decide
  unfold Accepted.len rxLen
  dsimp only
  rw [hMin, hCrc]
  split <;> split <;> omega

theorem take_at (hRing : RxRing sc.rx) (hAt : RxAt sc.rx m₀ k r) (p : Accepted) :
    RxAt sc.rx m₀ (k + p.descs sc.rx) (r.take sc p) ∧
      ∀ a, ¬ InRing sc.rx a → (r.take sc p).mem a = r.mem a := by
  have hSize := hRing.size_pos
  have hSmall := hRing.size_lt
  have hIndex := writes_index p hSize
  refine ⟨⟨?_, ?_, ?_⟩, ?_⟩
  · rw [RxRun.take, hAt.head, Nat.mod_add_mod, Nat.add_assoc]
  · rw [RxRun.take, hAt.left]
    push_cast
    omega
  · rw [← hAt.vecs]
    apply freeVec_congr hSize
    intro i hi j hj
    apply foldl_store_of_ne hIndex
    intro i' hi' j' hFrom hTo hEq
    have hSame := congrArg BitVec.toNat ((BitVec.add_right_inj _).mp hEq)
    rw [BitVec.toNat_ofNat, BitVec.toNat_ofNat] at hSame
    omega
  · intro a hOut
    apply foldl_store_of_ne hIndex
    intro i hi j _ hj hEq
    exact hOut ⟨16 * i + j, by omega, hEq⟩

theorem rxRunLoop_delivers (hFifo : F.Scatters frame) (hApart : RxApart sc.rx m₀) (hRing : RxRing sc.rx)
    (fuel : Nat) {s : RxRun φ} (hAt : RxAt sc.rx m₀ k r) (hRun : rxRunLoop F sc fuel r = .ok s) :
    (∀ a, Spared sc.rx m₀ k a → s.mem a = r.mem a) ∧
      List.Forall₂ (Received sc.rx m₀ s.mem) (accepted F sc fuel r) (frames F sc frame fuel r) := by
  induction fuel generalizing k r with
  | zero => cases hRun
  | succ fuel ih =>
    have hRound := round_at hFifo hApart hRing hAt
    rw [rxRunLoop_succ] at hRun
    rw [accepted, frames]
    cases hCase : r.round F sc with
    | ends r' =>
      rw [hCase] at hRun hRound
      obtain rfl := Except.ok.inj hRun
      exact ⟨hRound.2, .nil⟩
    | drops r' =>
      rw [hCase] at hRun hRound
      obtain ⟨hSpares, hRest⟩ := ih hRound.1 hRun
      exact ⟨fun a ha => (hSpares a ha).trans (hRound.2 a ha), hRest⟩
    | takes r' p =>
      rw [hCase] at hRun hRound
      obtain ⟨⟨hNow, hStored⟩, hHead, hFree, hDelivered⟩ := hRound
      obtain ⟨hNext, hMarked⟩ := take_at hRing hNow p
      obtain ⟨hSpares, hRest⟩ := ih hNext hRun
      constructor
      · intro a ha
        have hLater : Spared sc.rx m₀ (k + p.descs sc.rx) a := by
          refine ⟨fun hMem => ha.1 ?_, ha.2⟩
          obtain ⟨i, hi, hIn⟩ := mem_freeAddrs_iff.mp hMem
          exact mem_freeAddrs_iff.mpr ⟨i, by omega, hIn⟩
        rw [hSpares a hLater, hMarked a ha.2, hStored a ha]
      · refine .cons ⟨hDelivered.length, ?_⟩ hRest
        have hFits : (frame r.fifo).length ≤ p.descs sc.rx * e82545Bufsz sc.rx.rctl := by
          have hLen := descs_le_iff.mp (Nat.le_refl (p.descs sc.rx))
          have hBytes := bytes_le_len sc.rx p
          have hLength := hDelivered.length
          omega
        have hData := hDelivered.data
        rw [hHead, content_rxVecs, ← List.map_take] at hData ⊢
        refine Eq.trans (List.map_congr_left fun a ha => ?_) hData
        have hOut : ¬ InRing sc.rx a := hApart.notInRing hFree (List.mem_of_mem_take ha)
        rw [hSpares a ⟨hApart.later (take_subset hFits ha), hOut⟩, hMarked a hOut]

end Loop

section Callback

variable {φ : Type} {F : Fifo φ} {frame : φ → List (BitVec 8)} {fuel : Nat} {s t : E1000 φ}

def tapFrames (F : Fifo φ) (frame : φ → List (BitVec 8)) (fuel : Nat) (s : E1000 φ) :
    List (List (BitVec 8)) :=
  if s.sc.rx.rxEnabled = false ∨ s.sc.rx.rxLoopback ∨ s.sc.rx.free < s.sc.rx.maxpktdesc then []
  else frames F { s.sc with rx.rxActive := true } frame fuel (firstRxRun s)

/-- When a call returns, the guest finds each packet that it took in whole and in order in the buffers
of the packet's descriptors, and outside the ring and the free buffers nothing has changed. -/
theorem tapCallback_delivers (hFifo : F.Scatters frame) (hRing : RxRing s.sc.rx)
    (hApart : RxApart s.sc.rx s.mem) (hCall : e82545TapCallback F fuel s = .ok t) :
    List.Forall₂ (Received s.sc.rx s.mem t.mem) (tapAccepted F fuel s) (tapFrames F frame fuel s) ∧
      ∀ a, Spared s.sc.rx s.mem 0 a → t.mem a = s.mem a := by
  unfold e82545TapCallback at hCall
  dsimp only at hCall
  unfold tapAccepted tapFrames
  split at hCall
  · next hOff =>
    obtain rfl := Except.ok.inj hCall
    rw [if_pos (by tauto), if_pos (by tauto)]
    exact ⟨.nil, fun _ _ => rfl⟩
  · next hOn =>
    rw [left_eq hRing, ok_bind] at hCall
    split at hCall
    · next hFull =>
      obtain rfl := Except.ok.inj hCall
      rw [if_pos (by right; right; omega), if_pos (by right; right; omega)]
      exact ⟨.nil, fun _ _ => rfl⟩
    · next hSpace =>
      have hGo : ¬ (s.sc.rx.rxEnabled = false ∨ s.sc.rx.rxLoopback ∨
          s.sc.rx.free < s.sc.rx.maxpktdesc) := by
        rintro (hOff | hOff | hFull)
        · exact hOn (.inl hOff)
        · exact hOn (.inr hOff)
        · omega
      rw [if_neg hGo, if_neg hGo]
      obtain ⟨r, hLoop, hRest⟩ := bind_eq_ok_iff.mp hCall
      obtain ⟨left, -, hRest⟩ := bind_eq_ok_iff.mp hRest
      obtain ⟨intr, -, hRest⟩ := bind_eq_ok_iff.mp hRest
      obtain rfl := Except.ok.inj hRest
      have hStart : RxAt s.sc.rx s.mem 0 (firstRxRun s) :=
        ⟨(Nat.mod_eq_of_lt hRing.head).symm, (Int.sub_zero _).symm, rfl⟩
      have hRun := @rxRunLoop_delivers φ F { s.sc with rx.rxActive := true } frame s.mem 0 (firstRxRun s)
        hFifo ⟨hApart.nodup, hApart.ring⟩ ⟨hRing.register, hRing.length, hRing.head, hRing.tail⟩ fuel r
        ⟨hStart.head, hStart.left, hStart.vecs⟩ hLoop
      exact ⟨hRun.2.imp fun p bytes h => ⟨h.length, h.data⟩, hRun.1⟩

def scatter : List (BitVec 64) → List (BitVec 8) → Memory → Memory
  | a :: as, b :: bs, m => Function.update (scatter as bs m) a b
  | _, _, m => m

theorem scatter_kept {as : List (BitVec 64)} {bs : List (BitVec 8)} {m : Memory} {a : BitVec 64}
    (hElse : a ∉ as) : scatter as bs m a = m a := by
  induction as generalizing bs with
  | nil => rfl
  | cons a' as ih =>
    cases bs with
    | nil => rfl
    | cons b bs =>
      rw [List.mem_cons, not_or] at hElse
      rw [scatter, Function.update_of_ne hElse.1, ih hElse.2]

theorem scatter_stored {as : List (BitVec 64)} {bs : List (BitVec 8)} {m : Memory} (hNodup : as.Nodup)
    (hFits : bs.length ≤ as.length) : (as.map (scatter as bs m)).take bs.length = bs := by
  induction as generalizing bs with
  | nil =>
    obtain rfl := List.length_eq_zero_iff.mp (Nat.le_zero.mp hFits)
    rfl
  | cons a as ih =>
    cases bs with
    | nil => rfl
    | cons b bs =>
      obtain ⟨hFirst, hRest⟩ := List.nodup_cons.mp hNodup
      have hSame : as.map (Function.update (scatter as bs m) a b) = as.map (scatter as bs m) := by
        apply List.map_congr_left
        intro a' ha'
        apply Function.update_of_ne
        rintro rfl
        exact hFirst ha'
      rw [scatter, List.map_cons, List.length_cons, List.take_succ_cons, Function.update_self, hSame,
        ih hRest (Nat.le_of_succ_le_succ hFits)]

/-- A driver with packets in its queue. One that the vectors have no room for is lost. -/
def queueFifo : Fifo (List (List (BitVec 8))) where
  processTx fifo _ := fifo
  processRx fifo m vec :=
    match fifo with
    | [] => (0, [], m)
    | f :: fs =>
      if f.length ≤ totalLen vec then (f.length, fs, scatter (iovAddrs vec) f m) else (0, fs, m)

theorem queueFifo_scatters : queueFifo.Scatters (·.headD []) := by
  have hLength : ∀ vec, (iovAddrs vec).length = totalLen vec := length_iovAddrs
  constructor
  · intro fifo m vec
    cases fifo with
    | nil => exact .inl (Int.le_refl 0)
    | cons f fs =>
      by_cases hFits : f.length ≤ totalLen vec
      · refine .inr ⟨?_, hFits⟩
        simp [queueFifo, hFits]
      · left
        simp [queueFifo, hFits]
  · intro fifo m vec hSome hNodup
    cases fifo with
    | nil => exact absurd hSome (by simp [queueFifo])
    | cons f fs =>
      by_cases hFits : f.length ≤ totalLen vec
      · have hStored := scatter_stored (m := m) hNodup (by rwa [hLength])
        rw [content_eq]
        simpa [queueFifo, hFits] using hStored
      · exact absurd hSome (by simp [queueFifo, hFits])
  · intro fifo m vec a hElse
    cases fifo with
    | nil => rfl
    | cons f fs =>
      by_cases hFits : f.length ≤ totalLen vec
      · simp only [queueFifo, hFits, if_true]
        exact scatter_kept hElse
      · simp [queueFifo, hFits]

def oneBuffer : E1000 (List (List (BitVec 8))) where
  sc := (smallRing 1).sc
  mem a := if a = MIPS_XKPHYS_UNCACHED_BASE + 2 then 1 else 0
  fifo := [(List.range 60).map (BitVec.ofNat 8)]

theorem oneBuffer_apart : RxApart oneBuffer.sc.rx oneBuffer.mem := by
  have hFree : oneBuffer.sc.rx.free = 1 := by decide +kernel
  have hSize : oneBuffer.sc.rx.size = 8 := by decide +kernel
  have hDesc : oneBuffer.sc.rx.rxdesc = 0x9000000000000000 := by decide +kernel
  have hVec : freeVec oneBuffer.sc.rx oneBuffer.mem 0 = ⟨0x9000000000010000, 2048⟩ := by decide +kernel
  have hAddrs : freeAddrs oneBuffer.sc.rx oneBuffer.mem 0 oneBuffer.sc.rx.free =
      (List.range 2048).map fun j => 0x9000000000010000 + BitVec.ofNat 64 j := by
    rw [hFree, freeAddrs, List.range'_one, List.map_singleton, hVec, iovAddrs, List.flatMap_singleton]
  constructor
  · rw [hAddrs]
    apply List.Nodup.map_on _ List.nodup_range
    intro i hi j hj hEq
    have hi := List.mem_range.mp hi
    have hj := List.mem_range.mp hj
    bv_omega
  · rw [hAddrs]
    rintro a ha ⟨x, hx, hEq⟩
    obtain ⟨j, hj, rfl⟩ := List.mem_map.mp ha
    have hj := List.mem_range.mp hj
    rw [hSize] at hx
    rw [hDesc] at hEq
    bv_omega

theorem tapCallback_delivers_one : ∃ t, e82545TapCallback queueFifo 3 oneBuffer = .ok t ∧
    (content t.mem (rxVecs oneBuffer.sc.rx oneBuffer.mem 0)).take 60 =
      (List.range 60).map (BitVec.ofNat 8) := by
  have hReturns : (e82545TapCallback queueFifo 3 oneBuffer).toOption.isSome = true := by decide +kernel
  obtain ⟨t, hCall⟩ := Option.isSome_iff_exists.mp hReturns
  have hCall := toOption_eq_some_iff.mp hCall
  have hTaken : tapAccepted queueFifo 3 oneBuffer = [⟨1, 0, 60⟩] := by decide +kernel
  have hFrames : tapFrames queueFifo (·.headD []) 3 oneBuffer =
      [(List.range 60).map (BitVec.ofNat 8)] := by decide +kernel
  have hAll := (tapCallback_delivers queueFifo_scatters ⟨by decide, by decide, by decide, by decide⟩
    oneBuffer_apart hCall).1
  rw [hTaken, hFrames] at hAll
  obtain ⟨hOne, -⟩ := List.forall₂_cons.mp hAll
  exact ⟨t, hCall, hOne.data⟩

end Callback

end DeviceModel.E82545

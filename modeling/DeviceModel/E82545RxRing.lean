import DeviceModel.E82545Receive
import DeviceModel.E82545Vectors

/-!
# The e1000 network device: the descriptors of received packets

A packet takes the descriptors from the head on that its length, with padding and
CRC, fills. The loop of `e82545_tap_callback` only makes sure that there are enough
for the bytes that the FIFO may give.
-/

set_option autoImplicit false

namespace DeviceModel.E82545

open Fallible

structure RxWrite where
  index : Nat
  length : BitVec 16
  status : BitVec 8
deriving DecidableEq

structure Accepted where
  left : Int
  head : Nat
  bytes : Int
deriving DecidableEq

section Packets

variable (rx : Rx) (p : Accepted)

def RxWrite.store (m : Memory) (w : RxWrite) : Memory :=
  storeRxdesc m (rxdescAt rx.rxdesc w.index) w.length w.status

def Accepted.len : Int := rxLen rx p.bytes

def Accepted.descs : Nat :=
  ((p.len rx + e82545Bufsz rx.rctl - 1) / e82545Bufsz rx.rctl).toNat

def Accepted.writes : List RxWrite :=
  (List.range (p.descs rx - 1)).map (fun i =>
    ⟨(p.head + i) % rx.size, BitVec.ofNat 16 (e82545Bufsz rx.rctl), E1000_RXD_STAT_DD⟩) ++
  [⟨(p.head + (p.descs rx - 1)) % rx.size, BitVec.ofInt 16 (p.len rx % e82545Bufsz rx.rctl),
    E1000_RXD_STAT_PIF ||| E1000_RXD_STAT_IXSM ||| E1000_RXD_STAT_EOP ||| E1000_RXD_STAT_DD⟩]

theorem updateRxdescs_eq (m : Memory) : updateRxdescs rx m p.head (p.descs rx) (p.len rx) =
    (p.writes rx).foldl (RxWrite.store rx) m := by
  rw [Accepted.writes, List.foldl_append, List.foldl_map]
  rfl

variable {rx p}

theorem e82545Bufsz_range (rctl : BitVec 32) : 256 ≤ e82545Bufsz rctl ∧ e82545Bufsz rctl ≤ 16384 := by
  unfold e82545Bufsz
  dsimp only
  repeat' split
  all_goals exact ⟨by decide, by decide⟩

theorem maxpktdesc_bufsz : 1522 ≤ rx.maxpktdesc * e82545Bufsz rx.rctl := by
  have hBufsz := (e82545Bufsz_range rx.rctl).1
  have hRoom : rx.maxpktsz ≤ rx.maxpktdesc * e82545Bufsz rx.rctl := by
    have hDiv := Nat.div_add_mod (rx.maxpktsz + e82545Bufsz rx.rctl - 1) (e82545Bufsz rx.rctl)
    have hMod := Nat.mod_lt (rx.maxpktsz + e82545Bufsz rx.rctl - 1) (show 0 < e82545Bufsz rx.rctl by omega)
    rw [Nat.mul_comm] at hDiv
    unfold Rx.maxpktdesc
    omega
  have hSize : 1522 ≤ rx.maxpktsz := by
    unfold Rx.maxpktsz
    split <;> decide
  exact Nat.le_trans hSize hRoom

theorem len_eq : p.len rx =
    max p.bytes 60 + if rx.rctl &&& E1000_RCTL_SECRC = 0 then 4 else 0 := by
  unfold Accepted.len rxLen ETHER_MIN_LEN ETHER_CRC_LEN
  dsimp only
  split <;> split <;> omega

theorem len_ge : 60 ≤ p.len rx := by
  rw [len_eq]
  split <;> omega

/-- A length takes `n` descriptors if it fills all but the last one, and that one in part. -/
theorem descs_eq_iff {n : Nat} : p.descs rx = n + 1 ↔
    (n * e82545Bufsz rx.rctl : Nat) < p.len rx ∧
      p.len rx ≤ ((n + 1) * e82545Bufsz rx.rctl : Nat) := by
  have hBufsz : (0 : Int) < e82545Bufsz rx.rctl := by
    have := (e82545Bufsz_range rx.rctl).1
    omega
  have hLen := @len_ge rx p
  unfold Accepted.descs
  generalize p.len rx = len at *
  generalize e82545Bufsz rx.rctl = bufsz at *
  have hNat : ((len + bufsz - 1) / bufsz).toNat = n + 1 ↔ (len + bufsz - 1) / bufsz = (n : Int) + 1 := by
    have hNonneg : 0 ≤ (len + bufsz - 1) / bufsz := Int.ediv_nonneg (by omega) (by omega)
    omega
  have hNext : ((n + 1) * bufsz : Nat) = n * bufsz + bufsz := Nat.succ_mul n bufsz
  have hCast : ((n : Int) + 1) * bufsz = (n * bufsz : Nat) + bufsz := by
    rw [Int.add_mul, Int.one_mul, Int.natCast_mul]
  rw [hNat, Int.ediv_eq_iff_of_pos hBufsz, hNext, hCast]
  generalize n * bufsz = full
  omega

theorem descs_pos : 0 < p.descs rx := by
  have hBufsz := (e82545Bufsz_range rx.rctl).1
  have hLen := @len_ge rx p
  have hQuot : (1 : Int) ≤ (p.len rx + e82545Bufsz rx.rctl - 1) / e82545Bufsz rx.rctl := by
    apply Int.le_ediv_of_mul_le <;> omega
  unfold Accepted.descs
  omega

theorem descs_fill : ((p.descs rx - 1) * e82545Bufsz rx.rctl : Nat) < p.len rx ∧
    p.len rx ≤ (p.descs rx * e82545Bufsz rx.rctl : Nat) := by
  have hCount : p.descs rx = (p.descs rx - 1) + 1 := (Nat.sub_add_cancel descs_pos).symm
  obtain ⟨hMore, hLess⟩ := descs_eq_iff.mp hCount
  exact ⟨hMore, by rwa [← hCount] at hLess⟩

theorem descs_le_iff {k : Nat} : p.descs rx ≤ k ↔ p.len rx ≤ (k * e82545Bufsz rx.rctl : Nat) := by
  obtain ⟨hMore, hLess⟩ := @descs_fill rx p
  constructor
  · intro hCount
    have hRoom := Nat.mul_le_mul_right (e82545Bufsz rx.rctl) hCount
    omega
  · intro hFits
    by_contra hCount
    have hRoom : k * e82545Bufsz rx.rctl ≤ (p.descs rx - 1) * e82545Bufsz rx.rctl := by
      apply Nat.mul_le_mul_right
      omega
    omega

/-- The CRC does not fit into the buffers of the longest packet any more. -/
def Accepted.CrcSpills (rx : Rx) (p : Accepted) : Prop :=
  rx.rctl &&& E1000_RCTL_SECRC = 0 ∧
    ((rx.maxpktdesc * e82545Bufsz rx.rctl : Nat) : Int) < p.bytes + 4

/-- A packet that fits into the buffers of the longest one takes at most one descriptor beyond
them, and that only for its CRC. -/
theorem descs_bound (hBytes : p.bytes ≤ (rx.maxpktdesc * e82545Bufsz rx.rctl : Nat)) :
    p.descs rx ≤ rx.maxpktdesc + 1 ∧
      (p.descs rx ≤ rx.maxpktdesc ↔ ¬ p.CrcSpills rx) := by
  have hRoom := @maxpktdesc_bufsz rx
  have hBufsz := (e82545Bufsz_range rx.rctl).1
  have hNext := Nat.succ_mul rx.maxpktdesc (e82545Bufsz rx.rctl)
  rw [descs_le_iff, descs_le_iff, hNext, len_eq, Accepted.CrcSpills]
  generalize rx.maxpktdesc * e82545Bufsz rx.rctl = room at *
  split
  · next hCrc =>
    constructor
    · omega
    · constructor
      · rintro hFits ⟨-, hSpills⟩
        omega
      · intro hNot
        have hFits : ¬ (room : Int) < p.bytes + 4 := fun h => hNot ⟨hCrc, h⟩
        omega
  · next hCrc =>
    constructor
    · omega
    · exact iff_of_true (by omega) fun h => hCrc h.1

end Packets

section Loop

variable {φ : Type} (F : Fifo φ) (sc : Softc)

def RxRun.take (r : RxRun φ) (p : Accepted) : RxRun φ :=
  { r with
    lim := r.lim - p.descs sc.rx
    left := r.left - p.descs sc.rx
    head := (r.head + p.descs sc.rx) % sc.rx.size
    cause := r.cause ||| (if p.len sc.rx ≤ sc.rx.rsrpd.toNat then E1000_ICR_SRPD else 0) |||
      E1000_ICR_RXT0
    mem := (p.writes sc.rx).foldl (RxWrite.store sc.rx) r.mem }

inductive RxRound (φ : Type) where
  | ends (r : RxRun φ)
  /-- The VLAN filter drops the packet. -/
  | drops (r : RxRun φ)
  | takes (r : RxRun φ) (p : Accepted)

def RxRun.round (r : RxRun φ) : RxRound φ :=
  if r.lim ≤ 0 ∨ r.left < sc.rx.maxpktdesc then .ends r
  else
    let vec := rxVecs sc.rx r.mem r.head
    let (len, fifo, mem) := F.processRx r.fifo r.mem vec
    let r := { r with fifo, mem }
    if len ≤ 0 then .ends r
    else if vlanDrops sc mem ((vec.head?.map (·.iovBase)).getD 0) then .drops r
    else .takes r ⟨r.left, r.head, len⟩

theorem rxRunLoop_succ (fuel : Nat) (r : RxRun φ) : rxRunLoop F sc (fuel + 1) r =
    match r.round F sc with
    | .ends r => .ok r
    | .drops r => rxRunLoop F sc fuel r
    | .takes r p => rxRunLoop F sc fuel (r.take sc p) := by
  rw [rxRunLoop, RxRun.round]
  split
  · rfl
  · dsimp only
    split
    · rfl
    · split
      · rfl
      · dsimp only [RxRun.take]
        rw [← updateRxdescs_eq]
        rfl

def accepted : Nat → RxRun φ → List Accepted
  | 0, _ => []
  | fuel + 1, r =>
    match r.round F sc with
    | .ends _ => []
    | .drops r => accepted fuel r
    | .takes r p => p :: accepted fuel (r.take sc p)

variable {F sc}

def Fifo.Bounded (F : Fifo φ) : Prop :=
  ∀ fifo m vec, (F.processRx fifo m vec).1 ≤ (totalLen vec : Nat)

theorem rxVecs_totalLen (rx : Rx) (m : Memory) (head : Nat) :
    totalLen (rxVecs rx m head) = rx.maxpktdesc * e82545Bufsz rx.rctl := by
  simp [totalLen, rxVecs, Function.comp_def, List.map_const']

/-- A round leaves head and space alone, and takes a packet at the head only if there is space. -/
def RxRound.Spec (rx : Rx) (r : RxRun φ) : RxRound φ → Prop
  | .ends r' | .drops r' => r'.left = r.left ∧ r'.head = r.head
  | .takes r' p => (r'.left = r.left ∧ r'.head = r.head) ∧ (p.left = r.left ∧ p.head = r.head) ∧
      rx.maxpktdesc ≤ p.left ∧ 0 < p.bytes ∧
      p.bytes ≤ (rx.maxpktdesc * e82545Bufsz rx.rctl : Nat)

theorem round_spec (hFifo : F.Bounded) (r : RxRun φ) : (r.round F sc).Spec sc.rx r := by
  have hBytes := hFifo r.fifo r.mem (rxVecs sc.rx r.mem r.head)
  rw [rxVecs_totalLen] at hBytes
  unfold RxRun.round
  by_cases hStop : r.lim ≤ 0 ∨ r.left < sc.rx.maxpktdesc
  · rw [if_pos hStop]
    exact ⟨rfl, rfl⟩
  rw [if_neg hStop]
  obtain ⟨-, hSpace⟩ := not_or.mp hStop
  dsimp only
  split
  · exact ⟨rfl, rfl⟩
  · next hSome =>
    split
    · exact ⟨rfl, rfl⟩
    · exact ⟨⟨rfl, rfl⟩, ⟨rfl, rfl⟩, Int.not_lt.mp hSpace, Int.not_le.mp hSome, hBytes⟩

def taken (rx : Rx) (ps : List Accepted) : Nat := (ps.map (·.descs rx)).sum

theorem taken_append (rx : Rx) (ps qs : List Accepted) :
    taken rx (ps ++ qs) = taken rx ps + taken rx qs := by
  rw [taken, List.map_append, List.sum_append]
  rfl

theorem taken_cons (rx : Rx) (p : Accepted) (ps : List Accepted) :
    taken rx (p :: ps) = p.descs rx + taken rx ps := rfl

structure Placed (rx : Rx) (left : Int) (head : Nat) (before : List Accepted) (p : Accepted) :
    Prop where
  left : p.left = left - taken rx before
  head : p.head = (head + taken rx before) % rx.size
  space : rx.maxpktdesc ≤ p.left
  some : 0 < p.bytes
  bytes : p.bytes ≤ (rx.maxpktdesc * e82545Bufsz rx.rctl : Nat)

theorem accepted_placed (hFifo : F.Bounded) (fuel : Nat) {r : RxRun φ} (hHead : r.head < sc.rx.size)
    {pre post : List Accepted} {p : Accepted} (hSplit : accepted F sc fuel r = pre ++ p :: post) :
    Placed sc.rx r.left r.head pre p := by
  induction fuel generalizing r pre with
  | zero => exact absurd hSplit (by simp [accepted])
  | succ fuel ih =>
    have hSpec := @round_spec φ F sc hFifo r
    rw [accepted] at hSplit
    cases hRound : r.round F sc with
    | ends r' =>
      rw [hRound] at hSplit
      exact absurd hSplit (by simp)
    | drops r' =>
      rw [hRound] at hSplit hSpec
      obtain ⟨hLeft, hSame⟩ := hSpec
      have hPlaced := ih (r := r') (by rwa [hSame]) hSplit
      rwa [hLeft, hSame] at hPlaced
    | takes r' q =>
      rw [hRound] at hSplit hSpec
      obtain ⟨⟨hLeft, hSame⟩, ⟨hLeft', hSame'⟩, hSpace, hSome, hBytes⟩ := hSpec
      cases pre with
      | nil =>
        obtain ⟨rfl, -⟩ := List.cons.inj hSplit
        refine ⟨?_, ?_, hSpace, hSome, hBytes⟩
        · rw [hLeft']
          exact (Int.sub_zero _).symm
        · rw [hSame']
          exact (Nat.mod_eq_of_lt hHead).symm
      | cons q' pre =>
        obtain ⟨rfl, hRest⟩ := List.cons.inj hSplit
        have hPos : 0 < sc.rx.size := Nat.lt_of_le_of_lt (Nat.zero_le _) hHead
        have hPlaced := ih (r := r'.take sc q) (Nat.mod_lt _ hPos) hRest
        refine ⟨?_, ?_, hPlaced.space, hPlaced.some, hPlaced.bytes⟩
        · rw [hPlaced.left, taken_cons, RxRun.take, hLeft]
          push_cast
          omega
        · rw [hPlaced.head, taken_cons, RxRun.take, hSame, Nat.mod_add_mod, Nat.add_assoc]

theorem rxRunLoop_head (hFifo : F.Bounded) (fuel : Nat) {r s : RxRun φ}
    (hHead : r.head < sc.rx.size) (hRun : rxRunLoop F sc fuel r = .ok s) :
    s.head = (r.head + taken sc.rx (accepted F sc fuel r)) % sc.rx.size := by
  induction fuel generalizing r with
  | zero => cases hRun
  | succ fuel ih =>
    have hSpec := @round_spec φ F sc hFifo r
    rw [rxRunLoop_succ] at hRun
    rw [accepted]
    cases hRound : r.round F sc with
    | ends r' =>
      rw [hRound] at hRun hSpec
      obtain rfl := Except.ok.inj hRun
      rw [hSpec.2]
      exact (Nat.mod_eq_of_lt hHead).symm
    | drops r' =>
      rw [hRound] at hRun hSpec
      rw [ih (by rwa [hSpec.2]) hRun, hSpec.2]
    | takes r' p =>
      rw [hRound] at hRun hSpec
      have hPos : 0 < sc.rx.size := Nat.lt_of_le_of_lt (Nat.zero_le _) hHead
      rw [ih (Nat.mod_lt _ hPos) hRun, taken_cons, RxRun.take, hSpec.1.2, Nat.mod_add_mod,
        Nat.add_assoc]

end Loop

section Callback

/-- The ring that the guest has set up, with RDLEN as a write to the register leaves it. -/
structure RxRing (rx : Rx) : Prop where
  register : rx.rdlen &&& 0xFFF0007F = 0
  length : 128 ≤ rx.rdlen.toNat
  head : rx.rdh.toNat < rx.size
  tail : rx.rdt.toNat < rx.size

/-- The descriptors from RDH up to RDT. -/
def Rx.free (rx : Rx) : Nat := (rx.size + rx.rdt.toNat - rx.rdh.toNat) % rx.size

variable {φ : Type} (F : Fifo φ) (fuel : Nat) (s : E1000 φ)

def firstRxRun : RxRun φ :=
  ⟨(s.sc.rx.size / 4 : Nat), s.sc.rx.free, s.sc.rx.rdh.toNat, 0, s.mem, s.fifo⟩

def tapAccepted : List Accepted :=
  if s.sc.rx.rxEnabled = false ∨ s.sc.rx.rxLoopback ∨ s.sc.rx.free < s.sc.rx.maxpktdesc then []
  else accepted F { s.sc with rx.rxActive := true } fuel (firstRxRun s)

def marked : Nat :=
  ((tapAccepted F fuel s).flatMap (·.writes s.sc.rx)).countP fun w => w.status &&& E1000_RXD_STAT_DD ≠ 0

structure RingOwned : Prop where
  owned : ∀ p ∈ tapAccepted F fuel s, ∀ w ∈ p.writes s.sc.rx,
    ∃ k < s.sc.rx.free, w.index = (s.sc.rx.rdh.toNat + k) % s.sc.rx.size
  advance : ∀ t, e82545TapCallback F fuel s = .ok t →
    t.sc.rx.rdh.toNat = (s.sc.rx.rdh.toNat + marked F fuel s) % s.sc.rx.size
  limit : marked F fuel s ≤ s.sc.rx.free
  eop : ∀ p ∈ tapAccepted F fuel s, ∃ ws w, p.writes s.sc.rx = ws ++ [w] ∧
    w.status &&& E1000_RXD_STAT_EOP ≠ 0 ∧ ∀ v ∈ ws, v.status &&& E1000_RXD_STAT_EOP = 0

variable {F fuel s}

theorem RxRing.size_lt {rx : Rx} (h : RxRing rx) : rx.size < 2 ^ 16 := by
  have hMask : rx.rdlen = rx.rdlen &&& 0x000FFF80 := by
    calc rx.rdlen = rx.rdlen &&& (0xFFF0007F ||| 0x000FFF80) := BitVec.and_allOnes.symm
      _ = (rx.rdlen &&& 0xFFF0007F) ||| (rx.rdlen &&& 0x000FFF80) := BitVec.and_or_distrib_left
      _ = rx.rdlen &&& 0x000FFF80 := by
        rw [h.register]
        exact BitVec.zero_or
  have hLess : rx.rdlen.toNat ≤ 0x000FFF80 := by
    rw [hMask, BitVec.toNat_and]
    exact Nat.and_le_right
  have hDiv : rx.size = rx.rdlen.toNat / 16 := BitVec.toNat_udiv
  omega

theorem left_eq {rx : Rx} (h : RxRing rx) : rx.left rx.rdh.toNat = .ok (rx.free : Int) := by
  have hHead := h.head
  have hSize : rx.size ≠ 0 := by omega
  have hCast : (rx.size : Int) + rx.rdt.toNat - rx.rdh.toNat =
      (rx.size + rx.rdt.toNat - rx.rdh.toNat : Nat) := by omega
  rw [Rx.left, assertThat_of _ hSize, ok_bind, Rx.free, pure_eq_ok, hCast, ← Int.ofNat_tmod]

theorem mem_writes {rx : Rx} {p : Accepted} {w : RxWrite} (hWrite : w ∈ p.writes rx) :
    ∃ i < p.descs rx, w.index = (p.head + i) % rx.size := by
  have hPos := @descs_pos rx p
  rcases List.mem_append.mp hWrite with hFull | hLast
  · obtain ⟨i, hi, rfl⟩ := List.mem_map.mp hFull
    have hLess := List.mem_range.mp hi
    exact ⟨i, by omega, rfl⟩
  · obtain rfl := List.mem_singleton.mp hLast
    exact ⟨p.descs rx - 1, by omega, rfl⟩

theorem writes_countP (rx : Rx) (p : Accepted) :
    (p.writes rx).countP (fun w => w.status &&& E1000_RXD_STAT_DD ≠ 0) = p.descs rx := by
  have hAll : ∀ w ∈ p.writes rx, w.status &&& E1000_RXD_STAT_DD ≠ 0 := by
    intro w hWrite
    rcases List.mem_append.mp hWrite with hFull | hLast
    · obtain ⟨i, -, rfl⟩ := List.mem_map.mp hFull
      dsimp only
      decide
    · obtain rfl := List.mem_singleton.mp hLast
      dsimp only
      decide
  have hPos := @descs_pos rx p
  rw [List.countP_eq_length.mpr fun w hWrite => decide_eq_true (hAll w hWrite), Accepted.writes, List.length_append, List.length_map,
    List.length_range, List.length_singleton, Nat.sub_add_cancel hPos]

theorem marked_eq : marked F fuel s = taken s.sc.rx (tapAccepted F fuel s) := by
  unfold marked taken
  induction tapAccepted F fuel s with
  | nil => rfl
  | cons p ps ih =>
    rw [List.flatMap_cons, List.countP_append, ih, writes_countP]
    rfl

theorem writes_eop (rx : Rx) (p : Accepted) : ∃ ws w, p.writes rx = ws ++ [w] ∧
    w.status &&& E1000_RXD_STAT_EOP ≠ 0 ∧ ∀ v ∈ ws, v.status &&& E1000_RXD_STAT_EOP = 0 := by
  refine ⟨_, _, rfl, by dsimp only; decide, ?_⟩
  intro v hFull
  obtain ⟨i, -, rfl⟩ := List.mem_map.mp hFull
  dsimp only
  decide

/-- What the packets take together stays within the space exactly if none of them runs over. -/
theorem taken_le_iff {rx : Rx} {left : Int} {head : Nat} {ps : List Accepted} (hLeft : 0 ≤ left)
    (hPlaced : ∀ pre p post, ps = pre ++ p :: post → Placed rx left head pre p) :
    taken rx ps ≤ left ↔ ∀ p ∈ ps, p.descs rx ≤ p.left := by
  constructor
  · intro hFits p hMem
    obtain ⟨pre, post, rfl⟩ := List.append_of_mem hMem
    rw [(hPlaced pre p post rfl).left]
    rw [taken_append, taken_cons] at hFits
    omega
  · intro hAll
    obtain rfl | ⟨pre, p, rfl⟩ := ps.eq_nil_or_concat
    · exact hLeft
    · have hLast := hAll p (by simp)
      rw [(hPlaced pre p [] (by simp)).left] at hLast
      rw [List.concat_eq_append, taken_append, taken_cons]
      have hNil : taken rx [] = 0 := rfl
      omega

/-- The packet finds just the space of the longest one, and its CRC needs more. -/
def Accepted.Overflows (rx : Rx) (p : Accepted) : Prop :=
  p.left = rx.maxpktdesc ∧ p.CrcSpills rx

theorem Placed.overflows_iff {rx : Rx} {left : Int} {head : Nat} {pre : List Accepted}
    {p : Accepted} (h : Placed rx left head pre p) : p.descs rx ≤ p.left ↔ ¬ p.Overflows rx := by
  obtain ⟨hBound, hSpills⟩ := descs_bound h.bytes
  have hSpace := h.space
  unfold Accepted.Overflows
  by_cases hCrc : p.CrcSpills rx
  · have hMore : ¬ p.descs rx ≤ rx.maxpktdesc := fun hLess => hSpills.mp hLess hCrc
    constructor
    · rintro hFits ⟨hLeft, -⟩
      omega
    · intro hNot
      have hLeft : p.left ≠ rx.maxpktdesc := fun hLeft => hNot ⟨hLeft, hCrc⟩
      omega
  · have hLess := hSpills.mpr hCrc
    exact iff_of_true (by omega) fun h => hCrc h.2

theorem tapAccepted_placed (hFifo : F.Bounded) (hRing : RxRing s.sc.rx) {pre post : List Accepted}
    {p : Accepted} (hSplit : tapAccepted F fuel s = pre ++ p :: post) :
    Placed s.sc.rx s.sc.rx.free s.sc.rx.rdh.toNat pre p := by
  unfold tapAccepted at hSplit
  split at hSplit
  · exact absurd hSplit (by simp)
  · have h := @accepted_placed φ F { s.sc with rx.rxActive := true } hFifo fuel (firstRxRun s)
      hRing.head _ _ _ hSplit
    exact ⟨h.left, h.head, h.space, h.some, h.bytes⟩

theorem tapCallback_rdh (hFifo : F.Bounded) (hRing : RxRing s.sc.rx) {t : E1000 φ}
    (hCall : e82545TapCallback F fuel s = .ok t) : t.sc.rx.rdh.toNat =
      (s.sc.rx.rdh.toNat + taken s.sc.rx (tapAccepted F fuel s)) % s.sc.rx.size := by
  have hNone : s.sc.rx.rdh.toNat = (s.sc.rx.rdh.toNat + taken s.sc.rx []) % s.sc.rx.size :=
    (Nat.mod_eq_of_lt hRing.head).symm
  unfold e82545TapCallback at hCall
  dsimp only at hCall
  unfold tapAccepted
  split at hCall
  · next hOff =>
    obtain rfl := Except.ok.inj hCall
    rw [if_pos (by tauto)]
    exact hNone
  · next hOn =>
    rw [left_eq hRing, ok_bind] at hCall
    split at hCall
    · next hFull =>
      obtain rfl := Except.ok.inj hCall
      rw [if_pos (by right; right; omega)]
      exact hNone
    · next hSpace =>
      rw [if_neg (by rintro (h | h | h) <;> [exact hOn (.inl h); exact hOn (.inr h); omega])]
      obtain ⟨r, hLoop, hRest⟩ := bind_eq_ok_iff.mp hCall
      obtain ⟨left, -, hRest⟩ := bind_eq_ok_iff.mp hRest
      obtain ⟨intr, -, hRest⟩ := bind_eq_ok_iff.mp hRest
      obtain rfl := Except.ok.inj hRest
      have hHead := @rxRunLoop_head φ F { s.sc with rx.rxActive := true } hFifo fuel (firstRxRun s) r
        hRing.head hLoop
      have hLess : r.head < s.sc.rx.size := by
        rw [hHead]
        exact Nat.mod_lt _ (Nat.lt_of_le_of_lt (Nat.zero_le _) hRing.head)
      have hSize := hRing.size_lt
      rw [BitVec.toNat_ofNat, Nat.mod_eq_of_lt (by omega), hHead]
      rfl

/-- The ring is kept exactly if no packet comes with its CRC when just the descriptors of the
longest packet are left, and fills them up to less than the CRC. -/
theorem rxRing_owned_iff {φ : Type} {F : Fifo φ} (hFifo : F.Bounded) (fuel : Nat) {s : E1000 φ}
    (hRing : RxRing s.sc.rx) :
    RingOwned F fuel s ↔ ∀ p ∈ tapAccepted F fuel s, ¬ p.Overflows s.sc.rx := by
  have hPlaced : ∀ pre p post, tapAccepted F fuel s = pre ++ p :: post →
      Placed s.sc.rx s.sc.rx.free s.sc.rx.rdh.toNat pre p :=
    fun _ _ _ hSplit => tapAccepted_placed hFifo hRing hSplit
  have hFits : ∀ p ∈ tapAccepted F fuel s, (p.descs s.sc.rx ≤ p.left ↔ ¬ p.Overflows s.sc.rx) := by
    intro p hMem
    obtain ⟨pre, post, hSplit⟩ := List.append_of_mem hMem
    exact (hPlaced pre p post hSplit).overflows_iff
  have hLimit : marked F fuel s ≤ s.sc.rx.free ↔
      ∀ p ∈ tapAccepted F fuel s, ¬ p.Overflows s.sc.rx := by
    rw [marked_eq, ← Int.ofNat_le, taken_le_iff (Int.natCast_nonneg _) hPlaced]
    exact forall₂_congr hFits
  rw [← hLimit]
  constructor
  · intro hOwned
    exact hOwned.limit
  · intro hLess
    constructor
    · intro p hMem w hWrite
      obtain ⟨pre, post, hSplit⟩ := List.append_of_mem hMem
      obtain ⟨i, hi, hIndex⟩ := mem_writes hWrite
      refine ⟨taken s.sc.rx pre + i, ?_, ?_⟩
      · rw [marked_eq, hSplit, taken_append, taken_cons] at hLess
        omega
      · rw [hIndex, (hPlaced pre p post hSplit).head, Nat.mod_add_mod, Nat.add_assoc]
    · intro t hCall
      rw [marked_eq]
      exact tapCallback_rdh hFifo hRing hCall
    · exact hLess
    · intro p _
      exact writes_eop s.sc.rx p

def onceFifo (bytes : Nat) : Fifo Bool where
  processTx fifo _ := fifo
  processRx fifo m vec := (if fifo then (min bytes (totalLen vec) : Nat) else 0, false, m)

theorem onceFifo_bounded (bytes : Nat) : (onceFifo bytes).Bounded := by
  intro fifo m vec
  have hMin := Nat.min_le_right bytes (totalLen vec)
  dsimp only [onceFifo]
  split <;> omega

def smallRing (free : BitVec 16) : E1000 Bool where
  sc :=
    { Softc.calloc (PciEmul.pciEmulInit ⟨0, 0, 0⟩) with
      rx.rxdesc := MIPS_XKPHYS_UNCACHED_BASE
      rx.rxEnabled := true
      rx.rdlen := 128
      rx.rdt := free }
  mem := fun _ => 0
  fifo := true

theorem rxRing_owned_iff_short : RingOwned (onceFifo 60) 3 (smallRing 4) := by
  apply (rxRing_owned_iff (onceFifo_bounded 60) 3 _).mpr
  · have hOne : tapAccepted (onceFifo 60) 3 (smallRing 4) = [⟨4, 0, 60⟩] := by decide +kernel
    rw [hOne]
    intro p hMem
    obtain rfl := List.mem_singleton.mp hMem
    rintro ⟨-, -, hSpills⟩
    exact absurd hSpills (by decide)
  · exact ⟨by decide, by decide, by decide, by decide⟩

theorem rxRing_overrun : ¬ ∀ (F : Fifo Bool) (fuel : Nat) (s : E1000 Bool), F.Bounded →
    RxRing s.sc.rx → RingOwned F fuel s := by
  intro hAll
  have hOwned := hAll (onceFifo 2048) 3 (smallRing 1) (onceFifo_bounded 2048)
    ⟨by decide, by decide, by decide, by decide⟩
  have hMarked : marked (onceFifo 2048) 3 (smallRing 1) = 2 := by decide +kernel
  have hFree : (smallRing 1).sc.rx.free = 1 := by decide
  exact absurd hOwned.limit (by rw [hMarked, hFree]; decide)

end Callback

section Lengths

structure LengthsAdd (rx : Rx) (p : Accepted) : Prop where
  sum : (((p.writes rx).map (·.length.toNat)).sum : Nat) = p.len rx
  full : ∀ w ∈ (p.writes rx).dropLast, w.length.toNat = e82545Bufsz rx.rctl
  last : ∃ w, (p.writes rx).getLast? = some w ∧ 1 ≤ w.length.toNat ∧
    w.length.toNat ≤ e82545Bufsz rx.rctl

variable {rx : Rx} {p : Accepted}

/-- The length in the last descriptor is what is left of the packet modulo the buffer size. -/
theorem lastLength_eq : ((BitVec.ofInt 16 (p.len rx % e82545Bufsz rx.rctl)).toNat : Int) =
    p.len rx % e82545Bufsz rx.rctl := by
  obtain ⟨hLow, hHigh⟩ := e82545Bufsz_range rx.rctl
  have hNonneg : 0 ≤ p.len rx % e82545Bufsz rx.rctl := Int.emod_nonneg _ (by omega)
  have hLess : p.len rx % e82545Bufsz rx.rctl < e82545Bufsz rx.rctl :=
    Int.emod_lt_of_pos _ (by omega)
  rw [BitVec.toNat_ofInt]
  omega

theorem fullLength_eq :
    (BitVec.ofNat 16 (e82545Bufsz rx.rctl)).toNat = e82545Bufsz rx.rctl := by
  obtain ⟨-, hHigh⟩ := e82545Bufsz_range rx.rctl
  rw [BitVec.toNat_ofNat, Nat.mod_eq_of_lt (by omega)]

theorem lengths_sum : ((p.writes rx).map (·.length.toNat)).sum =
    (p.descs rx - 1) * e82545Bufsz rx.rctl +
      (BitVec.ofInt 16 (p.len rx % e82545Bufsz rx.rctl)).toNat := by
  simp [Accepted.writes, Function.comp_def, List.map_const', fullLength_eq, -BitVec.toNat_ofNat]

/-- The fields of a packet add up to its length, the last of them not zero, exactly if the length
is no multiple of the buffer size. -/
theorem lengthsAdd_iff : LengthsAdd rx p ↔ ¬ (e82545Bufsz rx.rctl : Int) ∣ p.len rx := by
  obtain ⟨hMore, hLess⟩ := @descs_fill rx p
  have hPos := @descs_pos rx p
  have hNext : (p.descs rx * e82545Bufsz rx.rctl : Nat) =
      (p.descs rx - 1) * e82545Bufsz rx.rctl + e82545Bufsz rx.rctl := by
    rw [← Nat.succ_mul, Nat.succ_eq_add_one, Nat.sub_add_cancel hPos]
  have hBufsz := (e82545Bufsz_range rx.rctl).1
  have hGetLast : (p.writes rx).getLast? = some _ := List.getLast?_concat
  rw [Int.dvd_iff_emod_eq_zero]
  constructor
  · rintro ⟨-, -, w, hLast, hSome, -⟩ hZero
    obtain rfl := Option.some.inj (hGetLast.symm.trans hLast)
    have hLength := @lastLength_eq rx p
    dsimp only at hSome
    omega
  · intro hRest
    have hRestEq : p.len rx % e82545Bufsz rx.rctl =
        p.len rx - ((p.descs rx - 1) * e82545Bufsz rx.rctl : Nat) := by
      have hMod : p.len rx % e82545Bufsz rx.rctl =
          (p.len rx - ((p.descs rx - 1) * e82545Bufsz rx.rctl : Nat)) % e82545Bufsz rx.rctl := by
        rw [Int.natCast_mul, Int.sub_mul_emod_self_right]
      rw [hMod] at hRest ⊢
      rcases Int.lt_or_eq_of_le (show p.len rx - ((p.descs rx - 1) * e82545Bufsz rx.rctl : Nat) ≤
        e82545Bufsz rx.rctl by omega) with hPart | hWhole
      · exact Int.emod_eq_of_lt (by omega) hPart
      · rw [hWhole, Int.emod_self] at hRest
        exact absurd rfl hRest
    constructor
    · rw [lengths_sum]
      push_cast [lastLength_eq]
      omega
    · intro w hFull
      rw [Accepted.writes, List.dropLast_concat] at hFull
      obtain ⟨i, -, rfl⟩ := List.mem_map.mp hFull
      exact fullLength_eq
    · refine ⟨_, hGetLast, ?_⟩
      have hLength := @lastLength_eq rx p
      dsimp only
      omega

/-- So it is for the packets that a call of `e82545_tap_callback` takes in. -/
theorem rxLengths_add_iff {φ : Type} (F : Fifo φ) (fuel : Nat) (s : E1000 φ) :
    ∀ p ∈ tapAccepted F fuel s,
      (LengthsAdd s.sc.rx p ↔ ¬ (e82545Bufsz s.sc.rx.rctl : Int) ∣ p.len s.sc.rx) :=
  fun _ _ => lengthsAdd_iff

theorem rxLengths_add_iff_short : LengthsAdd (smallRing 4).sc.rx ⟨4, 0, 60⟩ := by
  apply (rxLengths_add_iff (onceFifo 60) 3 (smallRing 4) ⟨4, 0, 60⟩ (by decide +kernel)).mpr
  decide

/-- 2044 bytes and the CRC fill one buffer. -/
theorem rxLengths_zero : ¬ ∀ (F : Fifo Bool) (fuel : Nat) (s : E1000 Bool),
    ∀ p ∈ tapAccepted F fuel s, LengthsAdd s.sc.rx p := by
  intro hAll
  have hAdd := hAll (onceFifo 2044) 3 (smallRing 4) ⟨4, 0, 2044⟩ (by decide +kernel)
  obtain ⟨w, hLast, hSome, -⟩ := hAdd.last
  have hZero : ((Accepted.writes (smallRing 4).sc.rx ⟨4, 0, 2044⟩).getLast?.map (·.length)) =
      some 0 := by decide +kernel
  rw [hLast] at hZero
  have hLength : w.length = 0 := Option.some.inj hZero
  rw [hLength] at hSome
  exact absurd hSome (by decide)

end Lengths

end DeviceModel.E82545

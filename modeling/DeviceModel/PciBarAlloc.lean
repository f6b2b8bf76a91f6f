import DeviceModel.PciSetup

/-!
# What `pci_emul_alloc_pbar` hands out

Calls for any devices, in any order, with the slop of `init_pci` in between. The three pools
only grow, so that what they hand out stays apart, and every window finds its place in the
registry.
-/

set_option autoImplicit false

namespace DeviceModel.PciEmul

open SearchTree Interval Mem Fallible PowerOfTwo PciDevinst

variable {T : PciTree}

section Calls

structure BarCall where
  pdi : PciDevinst
  idx : Nat
  hostbase : BitVec 64
  type : PcibarType
  size : BitVec 64

namespace BarCall

/-- What it returns: 0, or -1 when no room is left in the pool. -/
def error (s : Pci T) (c : BarCall) : Except Fault Int := do
  let (pool, _, _) ← barPool c.type (barSize c.type c.size)
  match pool with
  | none => pure 0
  | some (baseptr, limit) =>
    match ← pciEmulAllocResource (baseptr.get s c.hostbase) limit (barSize c.type c.size) with
    | none => pure (-1)
    | some _ => pure 0

def result (s : Pci T) (c : BarCall) : Except Fault (Int × PciDevinst × Pci T) := do
  let error ← c.error s
  let (pdi, s) ← pciEmulAllocPbar s c.pdi c.idx c.hostbase c.type c.size
  pure (error, pdi, s)

/-- The host-based case is left aside. -/
structure Valid (c : BarCall) : Prop where
  idx : c.idx ≤ PCI_BARMAX
  size : c.size.toNat < 2 ^ 62
  type : c.type = .io ∨ c.type = .mem32 ∨
    c.type = .mem64 ∧ c.idx < PCI_BARMAX ∧ barSize .mem64 c.size ≠ 0x100000000

def pool (c : BarCall) : Baseptr :=
  match c.type with
  | .io => .iobase
  | .mem64 => if barSize .mem64 c.size > 32 * 1024 * 1024 then .membase64 else .membase32
  | _ => .membase32

end BarCall

def Baseptr.first : Baseptr → BitVec 64
  | .iobase => PCI_EMUL_IOBASE
  | .membase32 => PCI_EMUL_MEMBASE32
  | .membase64 => PCI_EMUL_MEMBASE64
  | .hostbase => 0

def Baseptr.limit : Baseptr → BitVec 64
  | .iobase => PCI_EMUL_IOLIMIT
  | .membase32 => PCI_EMUL_MEMLIMIT32
  | .membase64 | .hostbase => PCI_EMUL_MEMLIMIT64

def busSlop (s : Pci T) : Pci T :=
  { s with
    pciEmulIobase := roundup2 (s.pciEmulIobase + BUSIO_ROUNDUP) BUSIO_ROUNDUP
    pciEmulMembase32 := roundup2 (s.pciEmulMembase32 + BUSMEM_ROUNDUP) BUSMEM_ROUNDUP
    pciEmulMembase64 := roundup2 (s.pciEmulMembase64 + BUSMEM_ROUNDUP) BUSMEM_ROUNDUP }

example (s : Pci T) (bus : List FuncInfo) :
    initBus s bus = Fallible.run initFunc s bus >>= fun s => pure (busSlop s) := rfl

structure Allocation where
  call : BarCall
  pdi : PciDevinst

namespace Allocation

def bar (a : Allocation) : Pcibar := a.pdi.piBar a.call.idx

def window (a : Allocation) : PciRange := a.pdi.window a.call.idx

end Allocation

inductive AllocOp where
  | pciEmulAllocPbar (c : BarCall)
  | slop

def AllocOp.isSlop : AllocOp → Bool
  | .pciEmulAllocPbar _ => false
  | .slop => true

def AllocOp.Valid : AllocOp → Prop
  | .pciEmulAllocPbar c => c.Valid
  | .slop => True

def AllocOp.step (x : Pci T × List Allocation) : AllocOp → Except Fault (Pci T × List Allocation)
  | .pciEmulAllocPbar c => do
    let (error, pdi, s) ← c.result x.1
    pure (s, if error = 0 then ⟨c, pdi⟩ :: x.2 else x.2)
  | .slop => pure (busSlop x.1, x.2)

end Calls

section Good

def Pcibar.Apart (x y : Pcibar) : Prop :=
  x.addr.toNat + x.size.toNat ≤ y.addr.toNat ∨ y.addr.toNat + y.size.toNat ≤ x.addr.toNat

structure Allocation.Good (a : Allocation) : Prop where
  type : a.bar.type = a.call.type
  pow : ∃ k, a.bar.size.toNat = 2 ^ k
  request : a.call.size.toNat ≤ a.bar.size.toNat
  minimum : (if a.call.type = .io then 4 else 16) ≤ a.bar.size.toNat
  aligned : a.bar.size.toNat ∣ a.bar.addr.toNat
  first : a.call.pool.first.toNat ≤ a.bar.addr.toNat
  limit : a.bar.addr.toNat + a.bar.size.toNat ≤ a.call.pool.limit.toNat

/-- What the allocations should be together: apart from each other and from the ECFG window, and
registered. -/
structure Allocated (s : Pci T) (as : List Allocation) : Prop where
  good : ∀ a ∈ as, a.Good
  apart : as.Pairwise fun a b => a.bar.Apart b.bar
  ecfg : ∀ a ∈ as, a.bar.addr.toNat + a.bar.size.toNat ≤ ecfgRange.base ∨
    ecfgRange.base + ecfgRange.size ≤ a.bar.addr.toNat
  registered : ∀ r, r ∈ s.registry.ranges ↔ ∃ a ∈ as, a.bar.isMem ∧ r = a.window

/-- What holds after `n` rounds of slop. -/
structure AllocInv (n : Nat) (s : Pci T) (as : List Allocation) : Prop where
  ok : s.registry.Ok
  pools : ∀ p ≠ Baseptr.hostbase,
    p.first.toNat ≤ (p.get s 0).toNat ∧ (p.get s 0).toNat ≤ p.limit.toNat + n * 2 ^ 21
  valid : ∀ a ∈ as, a.call.Valid
  good : ∀ a ∈ as, a.Good
  below : ∀ a ∈ as, a.bar.addr.toNat + a.bar.size.toNat ≤ (a.call.pool.get s 0).toNat
  apart : as.Pairwise fun a b => a.bar.Apart b.bar
  registered : ∀ r, r ∈ s.registry.ranges ↔ ∃ a ∈ as, a.bar.isMem ∧ r = a.window

end Good

section Pools

variable {s : Pci T} {p q : Baseptr}

theorem Baseptr.get_eq (hPool : p ≠ .hostbase) (host host' : BitVec 64) :
    p.get s host = p.get s host' := by
  cases p with
  | hostbase => exact absurd rfl hPool
  | _ => rfl

theorem Baseptr.get_set_self (hPool : p ≠ .hostbase) (val host : BitVec 64) :
    p.get (p.set s val) host = val := by
  cases p with
  | hostbase => exact absurd rfl hPool
  | _ => rfl

theorem Baseptr.get_set_of_ne (hNe : q ≠ p) (val host : BitVec 64) :
    q.get (p.set s val) host = q.get s host := by
  cases p with
  | hostbase => rfl
  | iobase => cases q with
    | iobase => exact absurd rfl hNe
    | _ => rfl
  | membase32 => cases q with
    | membase32 => exact absurd rfl hNe
    | _ => rfl
  | membase64 => cases q with
    | membase64 => exact absurd rfl hNe
    | _ => rfl

theorem Baseptr.get_registry (p : Baseptr) (m : Registry T) (host : BitVec 64) :
    p.get { s with registry := m } host = p.get s host := by
  cases p <;> rfl

theorem Baseptr.registry_set (p : Baseptr) (s : Pci T) (val : BitVec 64) :
    (p.set s val).registry = s.registry := by
  cases p <;> rfl

theorem Baseptr.limit_le_first (hp : p ≠ .hostbase) (hq : q ≠ .hostbase) (hNe : p ≠ q) :
    p.limit.toNat ≤ q.first.toNat ∨ q.limit.toNat ≤ p.first.toNat := by
  cases p with
  | hostbase => exact absurd rfl hp
  | iobase => cases q with
    | hostbase => exact absurd rfl hq
    | iobase => exact absurd rfl hNe
    | _ => exact .inl (by decide)
  | membase32 => cases q with
    | hostbase => exact absurd rfl hq
    | membase32 => exact absurd rfl hNe
    | iobase => exact .inr (by decide)
    | membase64 => exact .inl (by decide)
  | membase64 => cases q with
    | hostbase => exact absurd rfl hq
    | membase64 => exact absurd rfl hNe
    | _ => exact .inr (by decide)

theorem Baseptr.apart_ecfg (hp : p ≠ .hostbase) :
    p.limit.toNat ≤ ecfgRange.base ∨ ecfgRange.base + ecfgRange.size ≤ p.first.toNat := by
  cases p with
  | hostbase => exact absurd rfl hp
  | membase64 => exact .inr (by decide)
  | _ => exact .inl (by decide)

theorem Baseptr.first_le_limit (p : Baseptr) : p.first.toNat ≤ p.limit.toNat := by
  cases p <;> decide

theorem Baseptr.limit_lt (p : Baseptr) : p.limit.toNat < 2 ^ 40 := by
  cases p <;> decide

theorem BarCall.Valid.pool_ne {c : BarCall} (h : c.Valid) : c.pool ≠ .hostbase := by
  intro hHost
  rw [BarCall.pool] at hHost
  rcases h.type with hType | hType | ⟨hType, -, -⟩
  · rw [hType] at hHost
    cases hHost
  · rw [hType] at hHost
    cases hHost
  · rw [hType] at hHost
    dsimp only at hHost
    split at hHost <;> cases hHost

theorem BarCall.Valid.barPool {c : BarCall} (h : c.Valid) : ∃ mask lobits,
    barPool c.type (barSize c.type c.size) = .ok (some (c.pool, c.pool.limit), mask, lobits) := by
  rw [BarCall.pool]
  rcases h.type with hType | hType | ⟨hType, -, hHost⟩
  · rw [hType]
    exact ⟨_, _, rfl⟩
  · rw [hType]
    exact ⟨_, _, rfl⟩
  · rw [hType]
    unfold PciEmul.barPool
    dsimp only
    rw [if_neg hHost]
    split
    · exact ⟨_, _, rfl⟩
    · exact ⟨_, _, rfl⟩

/-- A BAR is at least as large as the request. -/
theorem le_barSize {type : PcibarType} {size : BitVec 64} (hSize : size.toNat < 2 ^ 62) :
    size.toNat ≤ (barSize type size).toNat := by
  have hRound : size.toNat ≤ (if size &&& (size - 1) ≠ 0 then
      (1 : BitVec 64) <<< (size.toNat.log2 + 1) else size).toNat := by
    split
    · next hBits =>
      have hNe : size.toNat ≠ 0 := by
        intro hZero
        obtain rfl : size = 0 := BitVec.eq_of_toNat_eq (by simpa using hZero)
        exact hBits (by decide)
      have hLog : size.toNat.log2 + 1 < 64 := by
        have hLess := (Nat.log2_lt hNe).mpr hSize
        omega
      have hShift : (1 : BitVec 64) <<< (size.toNat.log2 + 1) =
          BitVec.twoPow 64 (size.toNat.log2 + 1) := (BitVec.twoPow_eq 64 _).symm
      rw [hShift, BitVec.toNat_twoPow_of_lt hLog]
      exact Nat.le_of_lt Nat.lt_log2_self
    · exact Nat.le_refl _
  have hLeast : ∀ least x : BitVec 64, x.toNat ≤ (if x < least then least else x).toNat := by
    intro least x
    split
    · next hLess => exact Nat.le_of_lt hLess
    · exact Nat.le_refl _
  unfold barSize
  dsimp only
  split
  · exact Nat.le_trans hRound (hLeast _ _)
  · exact Nat.le_trans hRound (hLeast _ _)

end Pools

section Steps

variable {n : Nat} {s : Pci T} {as : List Allocation}

/-- A memory window with room in the registry finds its place; an I/O BAR has none to find. -/
theorem setupBar_registers (pdi : PciDevinst) {idx k : Nat} {type : PcibarType}
    {addr : BitVec 64} (mask lobits : BitVec 64) (hOk : s.registry.Ok) (hIdx : idx ≤ PCI_BARMAX)
    (hType : type = .io ∨ (type = .mem32 ∨ type = .mem64 ∧ idx < PCI_BARMAX) ∧ 4 ≤ k) (hk : k < 64)
    (hAddr : LowZero k addr)
    (hClear : ∀ r ∈ s.registry.ranges,
      r.base + r.size ≤ addr.toNat ∨ addr.toNat + 2 ^ k ≤ r.base) :
    ∃ pdi' m', setupBar s pdi idx type addr (BitVec.twoPow 64 k) mask lobits =
        .ok (pdi', { s with registry := m' }) ∧ pdi'.piBar idx = ⟨type, BitVec.twoPow 64 k, addr⟩ ∧
      m'.Ok ∧ ∀ r, r ∈ m'.ranges ↔
        r ∈ s.registry.ranges ∨ (pdi'.piBar idx).isMem ∧ r = pdi'.window idx := by
  rcases hType with rfl | ⟨hMem, hFour⟩
  · refine ⟨_, s.registry, setupBar_io, writeBar_piBar_self, hOk, fun r => ?_⟩
    rw [writeBar_piBar_self]
    simp [Pcibar.isMem]
  generalize hPdi : writeBar pdi idx type addr (BitVec.twoPow 64 k) ((addr &&& mask) ||| lobits) = pdi'
  have hBar : pdi'.piBar idx = ⟨type, BitVec.twoPow 64 k, addr⟩ := by
    rw [← hPdi]
    exact writeBar_piBar_self
  have hIsMem : (pdi'.piBar idx).isMem := by
    rw [hBar]
    exact hMem.imp_right And.left
  have hAligned : (pdi'.piBar idx).Aligned := by
    rw [hBar]
    exact ⟨k, hFour, hk, rfl, hAddr⟩
  have hWindow : (pdi'.window idx).base = addr.toNat ∧ (pdi'.window idx).size = 2 ^ k := by
    rw [PciDevinst.window, hBar]
    exact ⟨rfl, BitVec.toNat_twoPow_of_lt hk⟩
  have hFree : s.registry.Clear (pdi'.window idx) := by
    intro r hr
    have hApart := hClear r hr
    rw [← hWindow.1, ← hWindow.2] at hApart
    exact .inr (disjoint_of_le (window_noWrap hAligned) (window_pos hAligned) (hOk.noWrap r hr)
      (hOk.pos r hr) hApart)
  obtain ⟨m', hReg, hOk', hRanges⟩ := registerBar_spec hOk ⟨hIdx, hIsMem⟩ hAligned hFree
  refine ⟨pdi', m', ?_, hBar, hOk', fun r => ?_⟩
  · have hNext : type = .mem64 → idx + 1 ≤ PCI_BARMAX := by
      rintro rfl
      rcases hMem with hFalse | ⟨-, hLess⟩
      · cases hFalse
      · exact hLess
    unfold setupBar
    rw [assertThat_of _ hNext, hPdi]
    simp only [ok_bind, hReg, pure_eq_ok]
  · rw [hRanges, Set.mem_insert_iff, or_comm]
    simp only [hIsMem, true_and]

theorem BarCall.Valid.result {c : BarCall} (h : c.Valid) (s : Pci T) : ∃ mask lobits,
    c.result s = pciEmulAllocResource (c.pool.get s 0) c.pool.limit (barSize c.type c.size) >>=
      fun
        | none => .ok (-1, c.pdi, s)
        | some (addr, top) => setupBar (c.pool.set s top) c.pdi c.idx c.type addr
            (barSize c.type c.size) mask lobits >>= fun x => .ok (0, x) := by
  obtain ⟨mask, lobits, hPool⟩ := h.barPool
  refine ⟨mask, lobits, ?_⟩
  rw [← Baseptr.get_eq h.pool_ne c.hostbase 0]
  unfold BarCall.result BarCall.error pciEmulAllocPbar
  rw [if_neg (Nat.not_lt.mpr h.idx)]
  dsimp only
  rw [hPool, ok_bind, ok_bind]
  dsimp only
  cases hRoom : pciEmulAllocResource (c.pool.get s c.hostbase) c.pool.limit
    (barSize c.type c.size) with
  | error e => rfl
  | ok r =>
    cases r with
    | none => rfl
    | some r => rfl

/-- What a pool hands out lies apart from all that was handed out before. -/
theorem AllocInv.apart_new (h : AllocInv n s as) {p : Baseptr} (hPool : p ≠ .hostbase)
    {addr : Nat} {len : Nat} (hFrom : (p.get s 0).toNat ≤ addr)
    (hFits : addr + len ≤ p.limit.toNat) : ∀ a ∈ as,
      a.bar.addr.toNat + a.bar.size.toNat ≤ addr ∨ addr + len ≤ a.bar.addr.toNat := by
  intro a ha
  have hGood := h.good a ha
  have hFirst := (h.pools p hPool).1
  by_cases hSame : a.call.pool = p
  · have hBelow := h.below a ha
    rw [hSame] at hBelow
    exact .inl (Nat.le_trans hBelow hFrom)
  · have hOwnFirst := hGood.first
    have hOwnLimit := hGood.limit
    rcases Baseptr.limit_le_first (h.valid a ha).pool_ne hPool hSame with hLow | hHigh
    · exact .inl (by omega)
    · exact .inr (by omega)

theorem AllocInv.result (h : AllocInv n s as) (hn : n ≤ MAXBUSES) {c : BarCall} (hValid : c.Valid) :
    c.result s = .ok (-1, c.pdi, s) ∨
      ∃ pdi s', c.result s = .ok (0, pdi, s') ∧ AllocInv n s' (⟨c, pdi⟩ :: as) := by
  have hBuses : n ≤ 256 := hn
  have hPool := hValid.pool_ne
  obtain ⟨hFirst, hTop⟩ := h.pools _ hPool
  have hLimit := c.pool.limit_lt
  obtain ⟨mask, lobits, hResult⟩ := hValid.result s
  obtain ⟨k, hLeast, hk, hSize⟩ := @barSize_spec c.type _ hValid.size
  have hPow : (BitVec.twoPow 64 k).toNat = 2 ^ k := BitVec.toNat_twoPow_of_lt (by omega)
  rw [hResult, hSize]
  rcases @pciEmulAllocResource_spec (c.pool.get s 0) c.pool.limit k hk (by omega) with
    hNone | ⟨addr, hSome, hZero, hFrom, hEnd, hFits⟩
  · rw [hNone]
    exact .inl rfl
  have hApart := h.apart_new hPool hFrom hFits
  have hType : c.type = .io ∨ (c.type = .mem32 ∨ c.type = .mem64 ∧ c.idx < PCI_BARMAX) ∧ 4 ≤ k := by
    rcases hValid.type with hType | hType | ⟨hType, hIdx, -⟩
    · exact .inl hType
    · rw [hType] at hLeast
      exact .inr ⟨.inl hType, hLeast⟩
    · rw [hType] at hLeast
      exact .inr ⟨.inr ⟨hType, hIdx⟩, hLeast⟩
  have hRegistry := c.pool.registry_set s (addr + BitVec.twoPow 64 k)
  have hClear : ∀ r ∈ (c.pool.set s (addr + BitVec.twoPow 64 k)).registry.ranges,
      r.base + r.size ≤ addr.toNat ∨ addr.toNat + 2 ^ k ≤ r.base := by
    rw [hRegistry]
    intro r hr
    obtain ⟨a, ha, -, rfl⟩ := (h.registered r).mp hr
    exact hApart a ha
  obtain ⟨pdi, m', hSetup, hBar, hOk, hRanges⟩ := setupBar_registers c.pdi mask lobits
    (hRegistry ▸ h.ok) hValid.idx hType (by omega) hZero hClear
  refine .inr ⟨pdi, { c.pool.set s (addr + BitVec.twoPow 64 k) with registry := m' }, ?_, ?_⟩
  · rw [hSome, ok_bind]
    dsimp only
    rw [hSetup, ok_bind]
  rw [hRegistry] at hRanges
  have hNew : (⟨c, pdi⟩ : Allocation).bar = ⟨c.type, BitVec.twoPow 64 k, addr⟩ := hBar
  have hAddr : (⟨c, pdi⟩ : Allocation).bar.addr.toNat = addr.toNat := by rw [hNew]
  have hLen : (⟨c, pdi⟩ : Allocation).bar.size.toNat = 2 ^ k := by
    rw [hNew]
    exact hPow
  have hSelf : c.pool.get { c.pool.set s (addr + BitVec.twoPow 64 k) with registry := m' } 0 =
      addr + BitVec.twoPow 64 k := by
    rw [Baseptr.get_registry, Baseptr.get_set_self hPool]
  have hOther : ∀ p ≠ c.pool,
      p.get { c.pool.set s (addr + BitVec.twoPow 64 k) with registry := m' } 0 = p.get s 0 := by
    intro p hNe
    rw [Baseptr.get_registry, Baseptr.get_set_of_ne hNe]
  constructor
  · exact hOk
  · intro p hp
    by_cases hSame : p = c.pool
    · rw [hSame, hSelf, hEnd]
      omega
    · rw [hOther p hSame]
      exact h.pools p hp
  · exact List.forall_mem_cons.mpr ⟨hValid, h.valid⟩
  · refine List.forall_mem_cons.mpr ⟨?_, h.good⟩
    constructor
    · rw [hNew]
    · exact ⟨k, hLen⟩
    · rw [hLen, ← hPow, ← hSize]
      exact le_barSize hValid.size
    · rw [hLen]
      dsimp only
      split at hLeast
      · exact Nat.le_trans (by rw [if_pos ‹_›]) (Nat.pow_le_pow_right (by decide) hLeast)
      · exact Nat.le_trans (by rw [if_neg ‹_›]) (Nat.pow_le_pow_right (by decide) hLeast)
    · rw [hLen, hAddr]
      exact Nat.dvd_of_mod_eq_zero (lowZero_iff_mod.mp hZero)
    · rw [hAddr]
      exact Nat.le_trans hFirst hFrom
    · rw [hAddr, hLen]
      exact hFits
  · refine List.forall_mem_cons.mpr ⟨?_, fun a ha => ?_⟩
    · rw [hAddr, hLen, hSelf, hEnd]
    · have hBelow := h.below a ha
      by_cases hSame : a.call.pool = c.pool
      · rw [hSame] at hBelow ⊢
        rw [hSelf, hEnd]
        omega
      · rw [hOther _ hSame]
        exact hBelow
  · refine List.pairwise_cons.mpr ⟨fun a ha => ?_, h.apart⟩
    rw [Pcibar.Apart, hAddr, hLen]
    exact (hApart a ha).symm
  · intro r
    rw [hRanges, h.registered]
    simp only [List.mem_cons, or_and_right, exists_or, exists_eq_left]
    exact or_comm

theorem AllocInv.slop (h : AllocInv n s as) (hn : n < MAXBUSES) :
    AllocInv (n + 1) (busSlop s) as := by
  have hBuses : n < 256 := hn
  have hGrow : ∀ p ≠ Baseptr.hostbase, (p.get s 0).toNat ≤ (p.get (busSlop s) 0).toNat ∧
      (p.get (busSlop s) 0).toNat ≤ (p.get s 0).toNat + 2 ^ 21 := by
    intro p hp
    have hTop := (h.pools p hp).2
    have hLimit := p.limit_lt
    cases p with
    | hostbase => exact absurd rfl hp
    | iobase => exact roundup2_slop (j := 5) (by decide) (by omega)
    | membase32 => exact roundup2_slop (j := 20) (by decide) (by omega)
    | membase64 => exact roundup2_slop (j := 20) (by decide) (by omega)
  refine ⟨h.ok, fun p hp => ?_, h.valid, h.good, fun a ha => ?_, h.apart, h.registered⟩
  · have hBefore := h.pools p hp
    have hStep := hGrow p hp
    omega
  · exact Nat.le_trans (h.below a ha) (hGrow _ (h.valid a ha).pool_ne).1

theorem allocInv_initState : AllocInv 0 (initState T) [] := by
  have hSetUp := (initInv_initState (T := T)).setUp
  refine ⟨hSetUp.ok, fun p _ => ?_, ?_, ?_, ?_, List.Pairwise.nil, fun r => ?_⟩
  · have hStart : p.get (initState T) 0 = p.first := by cases p <;> rfl
    rw [hStart, Nat.zero_mul, Nat.add_zero]
    exact ⟨Nat.le_refl _, p.first_le_limit⟩
  · simp
  · simp
  · simp
  · rw [hSetUp.exact]
    constructor
    · rintro (hr | ⟨b, x, hx, -⟩)
      · exact absurd hr (Set.notMem_empty r)
      · cases hx
    · rintro ⟨a, ha, -⟩
      cases ha

theorem AllocInv.allocated (h : AllocInv n s as) : Allocated s as where
  good := h.good
  apart := h.apart
  registered := h.registered
  ecfg := by
    intro a ha
    have hGood := h.good a ha
    have hFirst := hGood.first
    have hLimit := hGood.limit
    rcases Baseptr.apart_ecfg (h.valid a ha).pool_ne with hLow | hHigh
    · exact .inl (by omega)
    · exact .inr (by omega)

theorem AllocInv.run (h : AllocInv n s as) (ops : List AllocOp) (hValid : ∀ op ∈ ops, op.Valid)
    (hBuses : n + ops.countP AllocOp.isSlop ≤ MAXBUSES) :
    Yields (fun _ => False) (fun x => ∃ n ≤ MAXBUSES, AllocInv n x.1 x.2)
      (Fallible.run AllocOp.step (s, as) ops) := by
  induction ops generalizing n s as with
  | nil => exact ⟨n, hBuses, h⟩
  | cons op ops ih =>
    have hRest := fun op' hMem => hValid op' (List.mem_cons_of_mem op hMem)
    cases op with
    | pciEmulAllocPbar c =>
      have hCall : c.Valid := hValid _ List.mem_cons_self
      have hCount : n + ops.countP AllocOp.isSlop ≤ MAXBUSES := hBuses
      rcases h.result (by omega) hCall with hFull | ⟨pdi, s', hDone, hInv⟩
      · rw [Fallible.run, AllocOp.step, hFull]
        exact ih h hRest hCount
      · rw [Fallible.run, AllocOp.step, hDone]
        exact ih hInv hRest hCount
    | slop =>
      rw [List.countP_cons] at hBuses
      have hOne : (if AllocOp.isSlop .slop = true then 1 else 0) = 1 := rfl
      rw [hOne] at hBuses
      exact ih (h.slop (by omega)) hRest (by omega)

end Steps

section Main

/-- A call that finds no room returns -1, and changes neither the device nor the state. -/
def FailsClean (s : Pci T) (c : BarCall) : Prop :=
  Yields (fun _ => False) (fun x => x.1 = 0 ∨ x = (-1, c.pdi, s)) (c.result s)

/-- What the calls hand out, whatever came before. -/
theorem allocPbar_allocated (T : PciTree) (ops : List AllocOp) (hValid : ∀ op ∈ ops, op.Valid)
    (hBuses : ops.countP AllocOp.isSlop ≤ MAXBUSES) :
    Yields (fun _ => False)
      (fun x => Allocated x.1 x.2 ∧ ∀ c : BarCall, c.Valid → FailsClean x.1 c)
      (Fallible.run AllocOp.step (initState T, []) ops) := by
  refine (allocInv_initState.run ops hValid (by rwa [Nat.zero_add])).imp ?_
  rintro ⟨s, as⟩ - ⟨n, hn, hInv⟩
  refine ⟨hInv.allocated, fun c hCall => ?_⟩
  rcases hInv.result hn hCall with hFull | ⟨pdi, s', hDone, -⟩
  · rw [FailsClean, hFull]
    exact .inr rfl
  · rw [FailsClean, hDone]
    exact .inl rfl

/-- An I/O BAR, a small and a large memory BAR, on two buses. -/
theorem allocPbar_allocated_twoBuses :
    let pdi := pciEmulInit ⟨0, 0, 0⟩
    let ops := [.pciEmulAllocPbar ⟨pdi, 0, 0, .io, 5⟩, .pciEmulAllocPbar ⟨pdi, 1, 0, .mem32, 100⟩,
      .slop, .pciEmulAllocPbar ⟨pdi, 2, 0, .mem64, 0x3000000⟩]
    Yields (fun _ => False)
      (fun x => Allocated x.1 x.2 ∧ ∀ c : BarCall, c.Valid → FailsClean x.1 c)
      (Fallible.run AllocOp.step (initState unbalancedTree, []) ops) := by
  apply allocPbar_allocated
  · simp only [List.forall_mem_cons, List.not_mem_nil, false_implies, implies_true, and_true]
    refine ⟨⟨by decide, by decide, .inl rfl⟩, ⟨by decide, by decide, .inr (.inl rfl)⟩, trivial,
      ⟨by decide, by decide, .inr (.inr ⟨rfl, by decide, by decide⟩)⟩⟩
  · decide

end Main

end DeviceModel.PciEmul

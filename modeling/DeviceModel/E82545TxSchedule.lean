import DeviceModel.E82545TxRing

/-!
# The e1000 network device: the order of tail writes and polls

A stream of packets that lies in the ring may be handed over in any number of tail writes, with
polls anywhere between them. Where a poll comes to the end of what is handed over before a packet is
complete, a later poll begins with that packet again. So what is sent depends on the stream alone.
-/

set_option autoImplicit false

namespace DeviceModel.E82545

open Fallible

section Transmit

variable {m : Memory} {tx tx' : Tx} {tail tail' size head : Nat} {general : General} {tdwb tdwb' : Bool}

theorem scanDescs_congr (hDesc : tx.txdesc = tx'.txdesc) (hCtx : tx.txctx = tx'.txctx) (fuel : Nat)
    (p : Packet) : scanDescs m tx tail size fuel p = scanDescs m tx' tail size fuel p := by
  induction fuel generalizing p with
  | zero => rfl
  | succ fuel ih =>
    rw [scanDescs, scanDescs, hDesc, hCtx]
    simp only [ih]

/-- A scan that ends before another tail ends there with that tail as well. -/
theorem scanDescs_later (hHead : head < size) (hTail' : tail' < size) {k : Nat}
    (hBefore : ∀ j < k, GoesOn m tx tail size head j) (hEnd : ¬ GoesOn m tx tail size head k)
    (hIn : ringIndex size head k ≠ tail) (hFits : k < between size head tail') :
    scanDescs m tx tail' size (size + 1) (Packet.start head) = endsAt m tx tail size head k := by
  obtain ⟨hLess, -, hAway⟩ := between_spec hHead hTail'
  have hNe : ∀ j ≤ k, ringIndex size head j ≠ tail' := by
    intro j hj
    rw [ringIndex_of_lt hHead]
    exact hAway j (by omega)
  have hBefore' : ∀ j < k, GoesOn m tx tail' size head j := by
    intro j hj
    obtain ⟨-, hContext, hType, hEop⟩ := hBefore j hj
    exact ⟨hNe j (Nat.le_of_lt hj), hContext, hType, hEop⟩
  have hEnd' : ¬ GoesOn m tx tail' size head k := by
    rintro ⟨-, hContext, hType, hEop⟩
    exact hEnd ⟨hIn, hContext, hType, hEop⟩
  rw [scanDescs_ends hBefore' hEnd' (by omega)]
  unfold endsAt
  rw [if_neg (hNe k (Nat.le_refl k)), if_neg hIn]

theorem transmitPacket_congr (hCtx : tx.txctx = tx'.txctx) (p : Packet) (dsc : TxDesc) :
    transmitPacket m tx general p dsc = transmitPacket m tx' general p dsc := by
  unfold transmitPacket
  rw [hCtx]

/-- What a descriptor is marked with does not depend on the flag, nor on where the head points. -/
theorem e82545TransmitDone_mem (hDesc : tx.txdesc = tx'.txdesc) (hHead : head < size) {stop : Nat}
    (hStop : stop < size) :
    (e82545TransmitDone tx size (size + 1) head stop (m, tdwb)).1 =
      (e82545TransmitDone tx' size (size + 1) head stop (m, tdwb')).1 := by
  obtain ⟨hLess, hEnd, -⟩ := between_spec hHead hStop
  rw [← hEnd, e82545TransmitDone_eq tx hHead hLess (by omega), e82545TransmitDone_eq tx' hHead hLess
    (by omega), hDesc]

/-- What `e82545_transmit` does after its descriptor loop. -/
def finishScan (m : Memory) (tx : Tx) (size : Nat) (general : General) (head : Nat) (tdwb : Bool) :
    Scan → Except Fault Transmitted
  | .incomplete head' => .ok ⟨0, head', tdwb, tx.txctx, m, []⟩
  | .context cd head' =>
    let rhead := (head' + 1) % size
    let done := e82545TransmitDone tx size (size + 1) head rhead (m, tdwb)
    .ok ⟨1, rhead, done.2, cd, done.1, []⟩
  | .packet p dsc => do
    let frames ← transmitPacket m tx general p dsc
    let rhead := (p.head + 1) % size
    let done := e82545TransmitDone tx size (size + 1) head rhead (m, tdwb)
    pure ⟨p.desc + 1, rhead, done.2, tx.txctx, done.1, frames⟩

theorem e82545Transmit_eq : e82545Transmit m tx tail size general head tdwb =
    scanDescs m tx tail size (size + 1) (Packet.start head) >>= finishScan m tx size general head tdwb := by
  unfold e82545Transmit
  congr 1

theorem finishScan_congr (hDesc : tx.txdesc = tx'.txdesc) (hCtx : tx.txctx = tx'.txctx)
    (hHead : head < size) {r : Scan} {t : Transmitted}
    (hFinish : finishScan m tx size general head tdwb r = .ok t) :
    ∃ b, finishScan m tx' size general head tdwb' r = .ok { t with tdwb := b } := by
  have hPos : 0 < size := Nat.zero_lt_of_lt hHead
  cases r with
  | incomplete head' =>
    obtain ⟨⟩ := hFinish
    refine ⟨tdwb', ?_⟩
    rw [finishScan, hCtx]
  | context cd head' =>
    obtain ⟨⟩ := hFinish
    refine ⟨(e82545TransmitDone tx' size (size + 1) head ((head' + 1) % size) (m, tdwb')).2, ?_⟩
    rw [finishScan, e82545TransmitDone_mem hDesc hHead (Nat.mod_lt _ hPos)]
  | packet p dsc =>
    obtain ⟨frames, hFrames, ⟨⟩⟩ := bind_eq_ok_iff.mp hFinish
    refine ⟨(e82545TransmitDone tx' size (size + 1) head ((p.head + 1) % size) (m, tdwb')).2, ?_⟩
    apply bind_eq_ok_iff.mpr
    refine ⟨frames, (transmitPacket_congr hCtx p dsc).symm.trans hFrames, ?_⟩
    rw [hCtx, e82545TransmitDone_mem hDesc hHead (Nat.mod_lt _ hPos)]
    rfl

theorem e82545Transmit_found {t : Transmitted}
    (hSent : e82545Transmit m tx tail size general head tdwb = .ok t) (hSome : t.sent ≠ 0) :
    ∃ k, t.sent = k + 1 ∧ (∀ j < k, GoesOn m tx tail size head j) ∧ ¬ GoesOn m tx tail size head k ∧
      ringIndex size head k ≠ tail ∧
      scanDescs m tx tail size (size + 1) (Packet.start head) = endsAt m tx tail size head k := by
  rw [e82545Transmit_eq] at hSent
  obtain ⟨r, hScan, hFinish⟩ := bind_eq_ok_iff.mp hSent
  obtain ⟨k, -, hBefore, hEnd, hEnds⟩ | ⟨-, hLoops⟩ := scanDescs_cases m tx tail size head (size + 1)
  · rw [hEnds, endsAt] at hScan
    split at hScan
    · obtain ⟨⟩ := hScan
      obtain ⟨⟩ := hFinish
      exact absurd rfl hSome
    next hIn =>
    refine ⟨k, ?_, hBefore, hEnd, hIn, hEnds⟩
    split at hScan
    · next hContext =>
      obtain ⟨⟩ := hScan
      obtain ⟨⟩ := hFinish
      rw [hContext.1]
    · split at hScan
      · obtain ⟨⟩ := hScan
        obtain ⟨frames, -, ⟨⟩⟩ := bind_eq_ok_iff.mp hFinish
        exact congrArg (· + 1) (completed_desc k).1
      · cases hScan
  · rw [hLoops] at hScan
    cases hScan

/-- What is complete with one tail goes the same way with every tail that does not cut it off. -/
theorem e82545Transmit_later (hDesc : tx.txdesc = tx'.txdesc) (hCtx : tx.txctx = tx'.txctx)
    (hHead : head < size) (hTail' : tail' < size) {t : Transmitted}
    (hSent : e82545Transmit m tx tail size general head tdwb = .ok t) (hSome : t.sent ≠ 0)
    (hFits : t.sent ≤ between size head tail') :
    ∃ b, e82545Transmit m tx' tail' size general head tdwb' = .ok { t with tdwb := b } := by
  obtain ⟨k, hCount, hBefore, hEnd, hIn, hEnds⟩ := e82545Transmit_found hSent hSome
  rw [e82545Transmit_eq] at hSent ⊢
  obtain ⟨r, hScan, hFinish⟩ := bind_eq_ok_iff.mp hSent
  obtain ⟨b, hFinish'⟩ := @finishScan_congr m tx tx' size head general tdwb tdwb' hDesc hCtx hHead r t
    hFinish
  refine ⟨b, bind_eq_ok_iff.mpr ⟨r, ?_, hFinish'⟩⟩
  rw [← scanDescs_congr hDesc hCtx, scanDescs_later hHead hTail' hBefore hEnd hIn (by omega), ← hEnds,
    hScan]

theorem e82545Transmit_none {t : Transmitted}
    (hSent : e82545Transmit m tx tail size general head tdwb = .ok t) (hNone : t.sent = 0) :
    t = ⟨0, tail, tdwb, tx.txctx, m, []⟩ := by
  rw [e82545Transmit_eq] at hSent
  obtain ⟨r, hScan, hFinish⟩ := bind_eq_ok_iff.mp hSent
  cases r with
  | context cd head' =>
    obtain ⟨⟩ := hFinish
    cases hNone
  | packet p dsc =>
    obtain ⟨frames, -, ⟨⟩⟩ := bind_eq_ok_iff.mp hFinish
    cases hNone
  | incomplete head' =>
    obtain ⟨⟩ := hFinish
    obtain ⟨k, -, -, -, hEnds⟩ | ⟨-, hLoops⟩ := scanDescs_cases m tx tail size head (size + 1)
    · rw [hEnds, endsAt] at hScan
      split at hScan
      · next hIn =>
        obtain ⟨⟩ := hScan
        rw [hIn]
      · split at hScan
        · cases hScan
        · split at hScan <;> cases hScan
    · rw [hLoops] at hScan
      cases hScan

theorem e82545Transmit_atTail (m : Memory) (tx : Tx) (tail size : Nat) (general : General) (tdwb : Bool) :
    e82545Transmit m tx tail size general tail tdwb = .ok ⟨0, tail, tdwb, tx.txctx, m, []⟩ := by
  have hHere : (Packet.start tail).head = tail := rfl
  rw [e82545Transmit_eq, scanDescs, if_pos hHere, ok_bind]
  rfl

end Transmit

/-- What the guest has set up: the offloads, the ring, and where in it the stream begins. -/
structure TxStream where
  general : General
  txdesc : BitVec 64
  size : Nat
  first : Nat

/-- How far the transmitter has come: the descriptors it has taken, the context that the last of them
has set, and what it has left in memory and in the FIFO. -/
structure TxPoint (φ : Type) where
  taken : Nat
  txctx : TxDesc
  mem : Memory
  fifo : φ

section Points

variable {φ : Type} (F : Fifo φ) (st : TxStream)

def TxStream.index (c : TxPoint φ) : Nat := (st.first + c.taken) % st.size

/-- A packet or a context descriptor lies complete where the transmitter has come to, and is sent. -/
structure Sends (c c' : TxPoint φ) (tx : Tx) (tail : Nat) (tdwb : Bool) (t : Transmitted) : Prop where
  desc : tx.txdesc = st.txdesc
  ctx : tx.txctx = c.txctx
  inRing : tail < st.size
  sent : e82545Transmit c.mem tx tail st.size st.general (st.index c) tdwb = .ok t
  whole : t.sent ≠ 0
  next : c' = ⟨c.taken + t.sent, t.txctx, t.mem, t.frames.foldl F.processTx c.fifo⟩

def Packets (c c' : TxPoint φ) : Prop := ∃ tx tail tdwb t, Sends F st c c' tx tail tdwb t

/-- Nothing complete is in front of the tail. -/
def CutOff (c : TxPoint φ) (tail : Nat) : Prop :=
  ∃ (tx : Tx) (tdwb : Bool) (t : Transmitted), tx.txdesc = st.txdesc ∧ tx.txctx = c.txctx ∧
    e82545Transmit c.mem tx tail st.size st.general (st.index c) tdwb = .ok t ∧ t.sent = 0

variable {F st} {c c' c'' : TxPoint φ}

theorem TxStream.index_lt (hFirst : st.first < st.size) (c : TxPoint φ) : st.index c < st.size :=
  Nat.mod_lt _ (Nat.zero_lt_of_lt hFirst)

/-- The stream alone says what is sent next. -/
theorem packets_rightUnique (hFirst : st.first < st.size) : Relator.RightUnique (Packets F st) := by
  have hOrdered : ∀ {c c' c'' : TxPoint φ} {tx tx' : Tx} {tail tail' : Nat} {tdwb tdwb' : Bool}
      {t t' : Transmitted}, Sends F st c c' tx tail tdwb t → Sends F st c c'' tx' tail' tdwb' t' →
      t.sent ≤ between st.size (st.index c) tail' → c' = c'' := by
    intro c c' c'' tx tx' tail tail' tdwb tdwb' t t' h h' hFits
    obtain ⟨b, hSame⟩ := @e82545Transmit_later c.mem tx tx' tail tail' _ _ _ tdwb tdwb'
      (h.desc.trans h'.desc.symm) (h.ctx.trans h'.ctx.symm) (st.index_lt hFirst c) h'.inRing t h.sent
      h.whole hFits
    have hSent := h'.sent
    rw [hSame] at hSent
    obtain rfl := Except.ok.inj hSent
    rw [h.next, h'.next]
  rintro c c' c'' ⟨tx, tail, tdwb, t, h⟩ ⟨tx', tail', tdwb', t', h'⟩
  have hTakes := (e82545Transmit_takes (st.index_lt hFirst c) h.inRing).of_ok h.sent
  have hTakes' := (e82545Transmit_takes (st.index_lt hFirst c) h'.inRing).of_ok h'.sent
  rcases Nat.le_total (between st.size (st.index c) tail) (between st.size (st.index c) tail')
    with hLe | hLe
  · exact hOrdered h h' (hTakes.limit.trans hLe)
  · exact (hOrdered h' h (hTakes'.limit.trans hLe)).symm

theorem CutOff.sends_none (hFirst : st.first < st.size) {tail : Nat} (hTail : tail < st.size)
    (hCutOff : CutOff st c tail) {tx : Tx} (hDesc : tx.txdesc = st.txdesc) (hCtx : tx.txctx = c.txctx)
    {tdwb : Bool} {t : Transmitted}
    (hSent : e82545Transmit c.mem tx tail st.size st.general (st.index c) tdwb = .ok t) : t.sent = 0 := by
  obtain ⟨tx', tdwb', t', hDesc', hCtx', hSent', hNone⟩ := hCutOff
  by_contra hSome
  have hTakes := (e82545Transmit_takes (st.index_lt hFirst c) hTail).of_ok hSent
  obtain ⟨b, hSame⟩ := @e82545Transmit_later c.mem tx tx' tail tail _ _ _ tdwb tdwb'
    (hDesc.trans hDesc'.symm) (hCtx.trans hCtx'.symm) (st.index_lt hFirst c) hTail t hSent hSome hTakes.limit
  rw [hSame] at hSent'
  obtain rfl := Except.ok.inj hSent'
  exact hSome hNone

theorem CutOff.longer (hFirst : st.first < st.size) {tail : Nat} (hTail : tail < st.size)
    (hCutOff : CutOff st c tail) (hNext : Packets F st c c') :
    c.taken + between st.size (st.index c) tail < c'.taken := by
  obtain ⟨tx, tail', tdwb, t, h⟩ := hNext
  obtain ⟨tx', tdwb', t', hDesc, hCtx, hSent, hNone⟩ := hCutOff
  by_contra hShort
  rw [h.next] at hShort
  dsimp only at hShort
  obtain ⟨b, hSame⟩ := @e82545Transmit_later c.mem tx tx' tail' tail _ _ _ tdwb tdwb'
    (h.desc.trans hDesc.symm) (h.ctx.trans hCtx.symm) (st.index_lt hFirst c) hTail t h.sent h.whole
    (by omega)
  rw [hSame] at hSent
  obtain rfl := Except.ok.inj hSent
  exact h.whole hNone

/-- A packet takes the next descriptors of the ring, and marks those that ask for it. -/
theorem Packets.takes (hFirst : st.first < st.size) (h : Packets F st c c') :
    ∃ n, c'.taken = c.taken + n ∧
      c'.mem = (fromHead st.size (st.index c) n).foldl (markDone st.txdesc) c.mem := by
  obtain ⟨tx, tail, tdwb, t, h⟩ := h
  have hTakes := (e82545Transmit_takes (st.index_lt hFirst c) h.inRing).of_ok h.sent
  refine ⟨t.sent, ?_, ?_⟩
  · rw [h.next]
  · rw [h.next, ← h.desc]
    exact hTakes.mem

open Relation in
theorem packets_takes (hFirst : st.first < st.size) (h : ReflTransGen (Packets F st) c c') :
    ∃ n, c'.taken = c.taken + n ∧
      c'.mem = (fromHead st.size (st.index c) n).foldl (markDone st.txdesc) c.mem := by
  induction h with
  | refl => exact ⟨0, rfl, rfl⟩
  | @tail d _ _ hNext ih =>
    obtain ⟨n, hTaken, hMem⟩ := ih
    obtain ⟨k, hTaken', hMem'⟩ := hNext.takes hFirst
    have hIndex : st.index d = (st.index c + n) % st.size := by
      unfold TxStream.index
      rw [Nat.mod_add_mod, hTaken, Nat.add_assoc]
    refine ⟨n + k, by omega, ?_⟩
    rw [hMem', hMem, fromHead_add, List.foldl_append, hIndex]

end Points

section Schedule

open Relation

variable {φ : Type} (F : Fifo φ)

/-- The guest hands descriptors over, or the loop of the program polls. -/
inductive TxEvent where
  | publish (tail : BitVec 16)
  | poll

def txStep (s : E1000 φ) : TxEvent → Except Fault (E1000 φ)
  | .publish tail => (s.sc.e82545WriteRegister 0x3818 (tail.setWidth 32)).map ({ s with sc := · })
  | .poll => e82545TxPoll F s

/-- The guest moves the tail on, and not past the head. -/
def MovesOn (s : E1000 φ) : TxEvent → Prop
  | .publish tail => tail.toNat < s.sc.tx.size ∧
      between s.sc.tx.size s.sc.tx.tdh.toNat s.sc.tx.tdt.toNat ≤
        between s.sc.tx.size s.sc.tx.tdh.toNat tail.toNat
  | .poll => True

instance (s : E1000 φ) (tail : BitVec 16) : Decidable (MovesOn s (.publish tail)) :=
  inferInstanceAs (Decidable (_ ∧ _))

def handedOver (size : Nat) : Nat → List TxEvent → Nat
  | _, [] => 0
  | tail, .publish tail' :: es => between size tail tail'.toNat + handedOver size tail'.toNat es
  | tail, .poll :: es => handedOver size tail es

structure LoopAt (st : TxStream) (tail total : Nat) (c : TxPoint φ) (r : TxRun φ) : Prop where
  head : r.head = st.index c
  ctx : r.txctx = c.txctx
  mem : r.mem = c.mem
  fifo : r.fifo = c.fifo
  total : c.taken + between st.size r.head tail = total
  scanned : r.rhead = r.head ∨ r.rhead = tail ∧ CutOff st c tail

structure TxAt (st : TxStream) (total : Nat) (c : TxPoint φ) (s : E1000 φ) : Prop where
  ring : TxRing s.sc.tx
  stream : s.sc.general = st.general ∧ s.sc.tx.txdesc = st.txdesc ∧ s.sc.tx.size = st.size
  tdh : s.sc.tx.tdh.toNat = st.index c
  ctx : s.sc.tx.txctx = c.txctx
  mem : s.mem = c.mem
  fifo : s.fifo = c.fifo
  total : c.taken + between st.size s.sc.tx.tdh.toNat s.sc.tx.tdt.toNat = total
  scanned : s.sc.tx.tdhr = s.sc.tx.tdh ∨ CutOff st c s.sc.tx.tdhr.toNat

variable {F} {st : TxStream} {tx : Tx} {tail total : Nat} {c : TxPoint φ} {s s' : E1000 φ}

/-- TDLEN comes in units of eight descriptors. -/
theorem TxRing.size_ge {tx : Tx} (h : TxRing tx) : 8 ≤ tx.size := by
  have hLow : tx.tdlen &&& 0x7F = 0 := by
    calc tx.tdlen &&& 0x7F = tx.tdlen &&& 0xFFF0007F &&& 0x7F := by
          rw [BitVec.and_assoc]
          rfl
      _ = 0 := by
        rw [h.register]
        exact BitVec.zero_and
  have hMod : tx.tdlen.toNat % 2 ^ 7 = 0 := by
    rw [← Nat.and_two_pow_sub_one_eq_mod]
    exact (congrArg BitVec.toNat hLow : _)
  have hDiv : tx.size = tx.tdlen.toNat / 16 := BitVec.toNat_udiv
  have hHead := h.head
  omega

/-- A run sends some packets more, and if it does not get to the tail, uses up its share. -/
theorem txRunLoop_packets (hFirst : st.first < st.size) (hTail : tail < st.size)
    (hDesc : tx.txdesc = st.txdesc) {fuel : Nat} {r r' : TxRun φ} (h : LoopAt st tail total c r)
    (hRun : txRunLoop F st.general tx tail st.size fuel r = .ok r') :
    ∃ c', ReflTransGen (Packets F st) c c' ∧ LoopAt st tail total c' r' ∧
      (tx.txEnabled = true → r.lim ≤ fuel → r'.rhead = tail ∨ c.taken + r.lim ≤ c'.taken) := by
  induction fuel generalizing c r with
  | zero =>
    obtain ⟨⟩ := hRun
    exact ⟨c, .refl, h, fun _ hLim => .inr (Nat.add_le_add_left hLim _)⟩
  | succ fuel ih =>
    unfold txRunLoop at hRun
    split at hRun
    · next hStop =>
      obtain ⟨⟩ := hRun
      refine ⟨c, .refl, h, fun hEnabled _ => .inr ?_⟩
      obtain hOff | hLim := hStop
      · rw [hEnabled] at hOff
        cases hOff
      · rw [hLim]
        exact Nat.le_refl _
    obtain ⟨t, hSent, hRest⟩ := bind_eq_ok_iff.mp hRun
    dsimp only at hRest
    have hHead : r.head < st.size := by
      rw [h.head]
      exact st.index_lt hFirst c
    have hHere : e82545Transmit c.mem { tx with txctx := r.txctx } tail st.size st.general (st.index c)
        r.tdwb = .ok t := by
      rw [← h.mem, ← h.head]
      exact hSent
    split at hRest
    · next hNone =>
      obtain ⟨⟩ := hRest
      have hCutOff : CutOff st c tail := ⟨{ tx with txctx := r.txctx }, _, t, hDesc, h.ctx, hHere, hNone⟩
      rw [e82545Transmit_none hSent hNone]
      exact ⟨c, .refl, ⟨h.head, h.ctx, h.mem, h.fifo, h.total, .inr ⟨rfl, hCutOff⟩⟩, fun _ _ => .inl rfl⟩
    · next hSome =>
      have hTakes := (e82545Transmit_takes hHead hTail).of_ok hSent
      have hPacket : Packets F st c ⟨c.taken + t.sent, t.txctx, t.mem, t.frames.foldl F.processTx c.fifo⟩ :=
        ⟨{ tx with txctx := r.txctx }, tail, _, t, hDesc, h.ctx, hTail, hHere, hSome, rfl⟩
      have hNext : t.rhead = (st.first + (c.taken + t.sent)) % st.size := by
        rw [hTakes.rhead hSome, h.head, TxStream.index, Nat.mod_add_mod, Nat.add_assoc]
      have hTotal : c.taken + t.sent + between st.size t.rhead tail = total := by
        have hLeft := h.total
        have hLimit := hTakes.limit
        rw [hTakes.rhead hSome, between_add hHead hTail hLimit]
        omega
      have hFifo : t.frames.foldl F.processTx r.fifo = t.frames.foldl F.processTx c.fifo := by rw [h.fifo]
      obtain ⟨c', hReach, hAt, hShare⟩ := ih (c := ⟨c.taken + t.sent, t.txctx, t.mem, _⟩)
        ⟨hNext, rfl, rfl, hFifo, hTotal, .inl rfl⟩ hRest
      refine ⟨c', .head hPacket hReach, hAt, fun hEnabled hLim => ?_⟩
      obtain hDone | hUsed := hShare hEnabled (by dsimp only; omega)
      · exact .inl hDone
      · dsimp only at hUsed
        exact .inr (by omega)

structure Polled (F : Fifo φ) (st : TxStream) (total : Nat) (c c' : TxPoint φ) (s s' : E1000 φ) : Prop where
  reach : ReflTransGen (Packets F st) c c'
  leaves : TxAt st total c' s'
  tdt : s'.sc.tx.tdt = s.sc.tx.tdt
  enabled : s'.sc.tx.txEnabled = s.sc.tx.txEnabled
  settles : s.sc.tx.txEnabled = true → s'.sc.tx.tdhr = s'.sc.tx.tdt ∨ c.taken < c'.taken
  rests : s.sc.tx.tdhr = s.sc.tx.tdt → s'.sc.tx.tdhr = s'.sc.tx.tdt

theorem TxAt.poll (hFirst : st.first < st.size) (h : TxAt st total c s)
    (hPoll : e82545TxPoll F s = .ok s') : ∃ c', Polled F st total c c' s s' := by
  obtain ⟨hGeneral, hDesc, hSize⟩ := h.stream
  have hTail : s.sc.tx.tdt.toNat < st.size := by
    rw [← hSize]
    exact h.ring.tail
  have hSmall : st.size < 2 ^ 16 := by
    rw [← hSize]
    exact h.ring.size_lt
  have hLarge : 8 ≤ st.size := by
    rw [← hSize]
    exact h.ring.size_ge
  unfold e82545TxPoll at hPoll
  split at hPoll
  · next hWork =>
    unfold e82545TxRun at hPoll
    obtain ⟨r, hRun, hRest⟩ := bind_eq_ok_iff.mp hPoll
    obtain ⟨intr, -, ⟨⟩⟩ := bind_eq_ok_iff.mp hRest
    have hStart : LoopAt st s.sc.tx.tdt.toNat total c ⟨st.size / 4, s.sc.tx.tdh.toNat, s.sc.tx.tdh.toNat,
        false, s.sc.tx.txctx, s.mem, s.fifo⟩ := ⟨h.tdh, h.ctx, h.mem, h.fifo, h.total, .inl rfl⟩
    dsimp only at hRun
    rw [hGeneral] at hRun
    have hSize' : (s.sc.tx.tdlen / 16).toNat = st.size := hSize
    rw [hSize'] at hRun
    have hActive : ({ s.sc.tx with txActive := true } : Tx).txdesc = st.txdesc := hDesc
    obtain ⟨c', hReach, hAt, hShare⟩ := txRunLoop_packets hFirst hTail hActive hStart hRun
    have hHead : r.head < st.size := by
      rw [hAt.head]
      exact st.index_lt hFirst c'
    have hTdh : (BitVec.ofNat 16 r.head).toNat = r.head := by
      rw [BitVec.toNat_ofNat]
      exact Nat.mod_eq_of_lt (by omega)
    refine ⟨c', hReach, ?_, rfl, rfl, fun hEnabled => ?_, fun hIdle => absurd hIdle hWork.2⟩
    · constructor
      · refine ⟨h.ring.register, ?_, h.ring.tail⟩
        show (BitVec.ofNat 16 r.head).toNat < s.sc.tx.size
        rw [hTdh, hSize]
        exact hHead
      · exact ⟨hGeneral, hDesc, hSize⟩
      · exact hTdh.trans hAt.head
      · exact hAt.ctx
      · exact hAt.mem
      · exact hAt.fifo
      · have hTotal := hAt.total
        rw [← hTdh] at hTotal
        exact hTotal
      · obtain hAll | ⟨hRhead, hCutOff⟩ := hAt.scanned
        · left
          show BitVec.ofNat 16 r.rhead = BitVec.ofNat 16 r.head
          rw [hAll]
        · right
          show CutOff st c' (BitVec.ofNat 16 r.rhead).toNat
          rw [hRhead, BitVec.ofNat_toNat, BitVec.setWidth_eq]
          exact hCutOff
    · obtain hDone | hUsed := hShare hEnabled (Nat.le_refl _)
      · left
        show BitVec.ofNat 16 r.rhead = s.sc.tx.tdt
        rw [hDone, BitVec.ofNat_toNat, BitVec.setWidth_eq]
      · dsimp only at hUsed
        exact .inr (by omega)
  · next hIdle =>
    obtain ⟨⟩ := hPoll
    refine ⟨c, .refl, ⟨⟨h.ring.register, h.ring.head, h.ring.tail⟩, h.stream, h.tdh, h.ctx, h.mem,
      h.fifo, h.total, h.scanned⟩, rfl, rfl, fun hEnabled => .inl ?_, id⟩
    exact Decidable.of_not_not fun hNe => hIdle ⟨hEnabled, hNe⟩

theorem txStep_publish (s : E1000 φ) (t : BitVec 16) :
    txStep F s (.publish t) = .ok { s with sc.tx.tdt := t } := by
  have hReg : Reg.ofOffset 0x3818 = some .tdt := by decide
  have hValue : (t.setWidth 32).setWidth 16 = t := by
    rw [BitVec.setWidth_setWidth_of_le _ (by decide), BitVec.setWidth_eq]
  have hWrite : s.sc.e82545WriteRegister 0x3818 (t.setWidth 32) = .ok { s.sc with tx.tdt := t } := by
    rw [Softc.e82545WriteRegister, hReg, if_neg (by decide)]
    show Except.ok { s.sc with tx.tdt := (t.setWidth 32).setWidth 16 } = _
    rw [hValue]
  rw [txStep, hWrite]
  rfl

theorem TxAt.publish (h : TxAt st total c s) {t : BitVec 16} (hMoves : MovesOn s (.publish t)) :
    TxAt st (total + between st.size s.sc.tx.tdt.toNat t.toNat) c { s with sc.tx.tdt := t } := by
  obtain ⟨hIn, hOn⟩ := hMoves
  obtain ⟨-, hEnd, -⟩ := between_spec h.ring.head h.ring.tail
  have hFar := between_add h.ring.head hIn hOn
  have hTotal := h.total
  rw [hEnd] at hFar
  rw [h.stream.2.2] at hFar hOn
  constructor
  · exact ⟨h.ring.register, h.ring.head, hIn⟩
  · exact h.stream
  · exact h.tdh
  · exact h.ctx
  · exact h.mem
  · exact h.fifo
  · show c.taken + between st.size s.sc.tx.tdh.toNat t.toNat = _
    omega
  · exact h.scanned

/-- Every schedule leads along the stream. -/
theorem run_packets (hFirst : st.first < st.size) {events : List TxEvent} (h : TxAt st total c s)
    (hMoves : Along (txStep F) MovesOn s events) (hRun : run (txStep F) s events = .ok s') :
    ∃ c', ReflTransGen (Packets F st) c c' ∧
      TxAt st (total + handedOver st.size s.sc.tx.tdt.toNat events) c' s' := by
  induction events generalizing c s total with
  | nil =>
    obtain ⟨⟩ := hRun
    exact ⟨c, .refl, h⟩
  | cons e events ih =>
    obtain ⟨t, hStep, hRest⟩ := run_cons_eq_ok_iff.mp hRun
    have hLater := hMoves.2 t hStep
    cases e with
    | publish tail =>
      rw [txStep_publish] at hStep
      obtain ⟨⟩ := hStep
      obtain ⟨c', hReach, hAt⟩ := ih (h.publish hMoves.1) hLater hRest
      rw [Nat.add_assoc] at hAt
      exact ⟨c', hReach, hAt⟩
    | poll =>
      obtain ⟨d, hPolled⟩ := h.poll hFirst hStep
      obtain ⟨c', hReach, hAt⟩ := ih hPolled.leaves hLater hRest
      rw [hPolled.tdt] at hAt
      exact ⟨c', hPolled.reach.trans hReach, hAt⟩

/-- A ring in which nothing has been scanned and given up. -/
structure FreshRing (s : E1000 φ) : Prop where
  ring : TxRing s.sc.tx
  tdhr : s.sc.tx.tdhr = s.sc.tx.tdh

def streamOf (s : E1000 φ) : TxStream := ⟨s.sc.general, s.sc.tx.txdesc, s.sc.tx.size, s.sc.tx.tdh.toNat⟩

def startOf (s : E1000 φ) : TxPoint φ := ⟨0, s.sc.tx.txctx, s.mem, s.fifo⟩

theorem FreshRing.txAt (h : FreshRing s) : TxAt (streamOf s)
    (between s.sc.tx.size s.sc.tx.tdh.toNat s.sc.tx.tdt.toNat) (startOf s) s where
  ring := h.ring
  stream := ⟨rfl, rfl, rfl⟩
  tdh := (Nat.mod_eq_of_lt h.ring.head).symm
  ctx := rfl
  mem := rfl
  fifo := rfl
  total := Nat.zero_add _
  scanned := .inl h.tdhr

def recordingFifo : Fifo (List (List (List (BitVec 8)))) where
  processTx sent frame := sent ++ [frame]
  processRx sent m _ := (0, sent, m)

/-- A ring of eight descriptors with a packet in the first and one in the two after it. -/
def twoPackets : E1000 (List (List (List (BitVec 8)))) :=
  ⟨{ ringSoftc with tx := { ringTx ⟨0, 0, 0⟩ with tdlen := 128 } },
    ringMemory (legacyDesc 20 0 0x0B ++ legacyDesc 20 0 0x02 ++ legacyDesc 20 0 0x0B), []⟩

theorem twoPackets_fresh : FreshRing twoPackets := ⟨⟨by decide, by decide, by decide⟩, rfl⟩

def atOnce : List TxEvent := [.publish 3, .poll]

def inParts : List TxEvent := [.publish 2, .poll, .publish 3, .poll]

theorem twoPackets_movesOn {pre : List TxEvent} {t : BitVec 16} {s : E1000 (List (List (List (BitVec 8))))}
    (h : (run (txStep recordingFifo) twoPackets pre).toOption.all
      (fun s => decide (MovesOn s (.publish t))) = true)
    (hRun : run (txStep recordingFifo) twoPackets pre = .ok s) : MovesOn s (.publish t) := by
  rw [hRun] at h
  exact of_decide_eq_true h

theorem inParts_movesOn : Along (txStep recordingFifo) MovesOn twoPackets inParts := by
  have hFirst : (run (txStep recordingFifo) twoPackets []).toOption.all
      (fun s => decide (MovesOn s (.publish 2))) = true := by decide
  have hSecond : (run (txStep recordingFifo) twoPackets [.publish 2, .poll]).toOption.all
      (fun s => decide (MovesOn s (.publish 3))) = true := by decide +kernel
  apply And.intro (twoPackets_movesOn hFirst rfl)
  intro t ht
  apply And.intro trivial
  intro u hu
  have hRun : run (txStep recordingFifo) twoPackets [.publish 2, .poll] = .ok u :=
    run_cons_eq_ok_iff.mpr ⟨t, ht, run_cons_eq_ok_iff.mpr ⟨u, hu, rfl⟩⟩
  exact ⟨twoPackets_movesOn hSecond hRun, fun _ _ => ⟨trivial, fun _ _ => trivial⟩⟩

theorem atOnce_movesOn : Along (txStep recordingFifo) MovesOn twoPackets atOnce := by
  have hFirst : (run (txStep recordingFifo) twoPackets []).toOption.all
      (fun s => decide (MovesOn s (.publish 3))) = true := by decide
  exact ⟨twoPackets_movesOn hFirst rfl, fun _ _ => ⟨trivial, fun _ _ => trivial⟩⟩

theorem twoPackets_runs {es : List TxEvent}
    (h : fault? (run (txStep recordingFifo) twoPackets es) = none)
    (hIdle : (run (txStep recordingFifo) twoPackets es).toOption.all
      (fun s => decide (s.sc.tx.tdhr = s.sc.tx.tdt)) = true) :
    ∃ s, run (txStep recordingFifo) twoPackets es = .ok s ∧ s.sc.tx.tdhr = s.sc.tx.tdt := by
  obtain ⟨s, hRun⟩ := fault?_eq_none_iff.mp h
  rw [hRun] at hIdle
  exact ⟨s, hRun, of_decide_eq_true hIdle⟩

/-- What a schedule has done to the ring: of the descriptors handed over, `n` are taken. -/
structure TakenOnce (s s' : E1000 φ) (events : List TxEvent) (n : Nat) : Prop where
  tdh : s'.sc.tx.tdh.toNat = (s.sc.tx.tdh.toNat + n) % s.sc.tx.size
  left : n + between s.sc.tx.size s'.sc.tx.tdh.toNat s'.sc.tx.tdt.toNat =
    between s.sc.tx.size s.sc.tx.tdh.toNat s.sc.tx.tdt.toNat +
      handedOver s.sc.tx.size s.sc.tx.tdt.toNat events
  mem : ∀ a, s'.mem a =
    if ∃ i ∈ fromHead s.sc.tx.size s.sc.tx.tdh.toNat n,
      a = statusAt s.sc.tx.txdesc i ∧ Reports s.mem s.sc.tx.txdesc i then s.mem a ||| 1 else s.mem a

/-- Whatever the schedule, the descriptors are taken once each, in ring order and only as far as they
are handed over, and those taken that ask for it are marked, and no others. -/
theorem txSchedule_takenOnce {events : List TxEvent} (hFresh : FreshRing s)
    (hMoves : Along (txStep F) MovesOn s events) (hRun : run (txStep F) s events = .ok s') :
    ∃ n, TakenOnce s s' events n := by
  obtain ⟨c, hReach, hAt⟩ := run_packets hFresh.ring.head hFresh.txAt hMoves hRun
  obtain ⟨n, hTaken, hMem⟩ := packets_takes hFresh.ring.head hReach
  have hFrom : (streamOf s).index (startOf s) = s.sc.tx.tdh.toNat := Nat.mod_eq_of_lt hFresh.ring.head
  have hCount : c.taken = n := hTaken.trans (Nat.zero_add n)
  rw [hFrom] at hMem
  refine ⟨n, ?_, ?_, fun a => ?_⟩
  · rw [hAt.tdh, TxStream.index, hCount]
    rfl
  · rw [← hCount]
    exact hAt.total
  · rw [hAt.mem, hMem]
    exact foldl_markDone _ _ a

theorem txSchedule_takenOnce_inParts : ∃ s n, run (txStep recordingFifo) twoPackets inParts = .ok s ∧
    TakenOnce twoPackets s inParts n := by
  obtain ⟨s, hRun, -⟩ := @twoPackets_runs inParts (by decide +kernel) (by decide +kernel)
  obtain ⟨n, hTaken⟩ := txSchedule_takenOnce twoPackets_fresh inParts_movesOn hRun
  exact ⟨s, n, hRun, hTaken⟩

/-- Where a poll finds nothing to do, nothing that is handed over is complete. -/
theorem TxAt.cutOff (h : TxAt st total c s) (hIdle : s.sc.tx.tdhr = s.sc.tx.tdt) :
    CutOff st c s.sc.tx.tdt.toNat := by
  obtain hAll | hCutOff := h.scanned
  · have hHere : st.index c = s.sc.tx.tdt.toNat := by rw [← h.tdh, ← hAll, hIdle]
    have hNone := e82545Transmit_atTail c.mem s.sc.tx s.sc.tx.tdt.toNat st.size st.general false
    rw [← hHere] at hNone ⊢
    exact ⟨s.sc.tx, false, _, h.stream.2.1, h.ctx, hNone, rfl⟩
  · rw [← hIdle]
    exact hCutOff

theorem TxAt.same (hFirst : st.first < st.size) {c₀ d : TxPoint φ} {t : E1000 φ}
    (hReach : ReflTransGen (Packets F st) c₀ c) (hReach' : ReflTransGen (Packets F st) c₀ d)
    (h : TxAt st total c s) (h' : TxAt st total d t) (hIdle : s.sc.tx.tdhr = s.sc.tx.tdt)
    (hIdle' : t.sc.tx.tdhr = t.sc.tx.tdt) : c = d := by
  have hStuck : ∀ {c d : TxPoint φ} {s t : E1000 φ}, ReflTransGen (Packets F st) c d →
      TxAt st total c s → TxAt st total d t → s.sc.tx.tdhr = s.sc.tx.tdt → c = d := by
    intro c d s t hFar hc hd hIdle
    obtain hSame | ⟨e, hNext, hRest⟩ := ReflTransGen.cases_head hFar
    · exact hSame
    have hTail : s.sc.tx.tdt.toNat < st.size := by
      rw [← hc.stream.2.2]
      exact hc.ring.tail
    have hLonger := (hc.cutOff hIdle).longer hFirst hTail hNext
    obtain ⟨k, hTaken, -⟩ := packets_takes hFirst hRest
    have hTotal := hc.total
    have hTotal' := hd.total
    rw [hc.tdh] at hTotal
    omega
  obtain hFar | hFar := ReflTransGen.total_of_right_unique (packets_rightUnique hFirst) hReach hReach'
  · exact hStuck hFar h h' hIdle
  · exact (hStuck hFar h' h hIdle').symm

/-- Two schedules that hand the same stream over, each polled until the transmitter has seen all of it,
send the same and leave the same behind. -/
theorem txSchedules_agree {es fs : List TxEvent} {a b : E1000 φ} (hFresh : FreshRing s)
    (hMoves : Along (txStep F) MovesOn s es) (hMoves' : Along (txStep F) MovesOn s fs)
    (hRun : run (txStep F) s es = .ok a) (hRun' : run (txStep F) s fs = .ok b)
    (hIdle : a.sc.tx.tdhr = a.sc.tx.tdt) (hIdle' : b.sc.tx.tdhr = b.sc.tx.tdt)
    (hSame : handedOver s.sc.tx.size s.sc.tx.tdt.toNat es =
      handedOver s.sc.tx.size s.sc.tx.tdt.toNat fs) :
    a.fifo = b.fifo ∧ a.mem = b.mem ∧ a.sc.tx.txctx = b.sc.tx.txctx ∧ a.sc.tx.tdh = b.sc.tx.tdh := by
  obtain ⟨c, hReach, hAt⟩ := run_packets hFresh.ring.head hFresh.txAt hMoves hRun
  obtain ⟨d, hReach', hAt'⟩ := run_packets hFresh.ring.head hFresh.txAt hMoves' hRun'
  have hSize : (streamOf s).size = s.sc.tx.size := rfl
  rw [hSize, hSame] at hAt
  obtain rfl := hAt.same hFresh.ring.head hReach hReach' hAt' hIdle hIdle'
  refine ⟨hAt.fifo.trans hAt'.fifo.symm, hAt.mem.trans hAt'.mem.symm, hAt.ctx.trans hAt'.ctx.symm, ?_⟩
  exact BitVec.eq_of_toNat_eq (hAt.tdh.trans hAt'.tdh.symm)

theorem txSchedules_agree_inParts : ∃ a b, run (txStep recordingFifo) twoPackets atOnce = .ok a ∧
    run (txStep recordingFifo) twoPackets inParts = .ok b ∧
    a.fifo = b.fifo ∧ a.mem = b.mem ∧ a.sc.tx.txctx = b.sc.tx.txctx ∧ a.sc.tx.tdh = b.sc.tx.tdh := by
  obtain ⟨a, hRun, hIdle⟩ := @twoPackets_runs atOnce (by decide +kernel) (by decide +kernel)
  obtain ⟨b, hRun', hIdle'⟩ := @twoPackets_runs inParts (by decide +kernel) (by decide +kernel)
  exact ⟨a, b, hRun, hRun', txSchedules_agree twoPackets_fresh atOnce_movesOn inParts_movesOn hRun hRun'
    hIdle hIdle' (by decide)⟩

/-- As many polls as there are descriptors to take, and one more, settle the transmitter. -/
theorem TxAt.polls (hFirst : st.first < st.size) {n : Nat} (h : TxAt st total c s)
    (hEnabled : s.sc.tx.txEnabled = true) (hMany : total < c.taken + n ∨ s.sc.tx.tdhr = s.sc.tx.tdt)
    (hRun : run (txStep F) s (List.replicate n .poll) = .ok s') :
    ∃ c', TxAt st total c' s' ∧ s'.sc.tx.tdhr = s'.sc.tx.tdt := by
  induction n generalizing c s with
  | zero =>
    obtain ⟨⟩ := hRun
    refine ⟨c, h, ?_⟩
    obtain hMany | hIdle := hMany
    · have hTotal := h.total
      omega
    · exact hIdle
  | succ n ih =>
    obtain ⟨t, hStep, hRest⟩ := run_cons_eq_ok_iff.mp hRun
    obtain ⟨d, hPolled⟩ := h.poll hFirst hStep
    apply ih hPolled.leaves (hPolled.enabled.trans hEnabled) _ hRest
    obtain hMany | hIdle := hMany
    · obtain hDone | hFurther := hPolled.settles hEnabled
      · exact .inr hDone
      · exact .inl (by omega)
    · exact .inr (hPolled.rests hIdle)

theorem txStep_enabled {e : TxEvent} (hStep : txStep F s e = .ok s') :
    s'.sc.tx.txEnabled = s.sc.tx.txEnabled := by
  cases e with
  | publish tail =>
    rw [txStep_publish] at hStep
    obtain ⟨⟩ := hStep
    rfl
  | poll =>
    unfold txStep e82545TxPoll at hStep
    dsimp only at hStep
    split at hStep
    · unfold e82545TxRun at hStep
      obtain ⟨r, -, hRest⟩ := bind_eq_ok_iff.mp hStep
      obtain ⟨intr, -, ⟨⟩⟩ := bind_eq_ok_iff.mp hRest
      rfl
    · obtain ⟨⟩ := hStep
      rfl

/-- Polled as often as the ring is long, the transmitter has seen all that a schedule has handed over,
and what it has then left in the ring is not complete. -/
theorem txPolls_settle {es : List TxEvent} (hFresh : FreshRing s) (hEnabled : s.sc.tx.txEnabled = true)
    (hMoves : Along (txStep F) MovesOn s es)
    (hRun : run (txStep F) s (es ++ List.replicate s.sc.tx.size .poll) = .ok s') :
    s'.sc.tx.tdhr = s'.sc.tx.tdt ∧ ∀ (tdwb : Bool) (t : Transmitted),
      e82545Transmit s'.mem s'.sc.tx s'.sc.tx.tdt.toNat s'.sc.tx.size s'.sc.general s'.sc.tx.tdh.toNat
        tdwb = .ok t → t.sent = 0 := by
  obtain ⟨u, hRun, hPolls⟩ := run_append_eq_ok_iff.mp hRun
  obtain ⟨c, -, hAt⟩ := run_packets hFresh.ring.head hFresh.txAt hMoves hRun
  have hKeeps : ∀ (t : E1000 φ) (e : TxEvent), t.sc.tx.txEnabled = true →
      Yields (fun _ => True) (fun t' => t'.sc.tx.txEnabled = true) (txStep F t e) := by
    intro t e ht
    apply (yields_true _).imp
    exact fun t' hStep _ => (txStep_enabled hStep).trans ht
  have hKept := run_keeps hKeeps hEnabled es
  have hShort : between (streamOf s).size u.sc.tx.tdh.toNat u.sc.tx.tdt.toNat < s.sc.tx.size := by
    have hSpec := between_spec hAt.ring.head hAt.ring.tail
    rw [hAt.stream.2.2] at hSpec
    exact hSpec.1
  have hTotal := hAt.total
  obtain ⟨d, hEnd, hIdle⟩ := hAt.polls hFresh.ring.head (hKept.of_ok hRun) (.inl (by omega)) hPolls
  refine ⟨hIdle, fun tdwb t hSent => ?_⟩
  have hTail : s'.sc.tx.tdt.toNat < (streamOf s).size := by
    rw [← hEnd.stream.2.2]
    exact hEnd.ring.tail
  apply (hEnd.cutOff hIdle).sends_none hFresh.ring.head hTail hEnd.stream.2.1 hEnd.ctx
  rw [← hEnd.mem, ← hEnd.tdh, ← hEnd.stream.1, ← hEnd.stream.2.2]
  exact hSent

theorem txPolls_settle_inParts : ∃ s, s.sc.tx.tdhr = s.sc.tx.tdt ∧
    run (txStep recordingFifo) twoPackets (inParts ++ List.replicate 8 .poll) = .ok s ∧
    ∀ (tdwb : Bool) (t : Transmitted),
      e82545Transmit s.mem s.sc.tx s.sc.tx.tdt.toNat s.sc.tx.size s.sc.general s.sc.tx.tdh.toNat
        tdwb = .ok t → t.sent = 0 := by
  obtain ⟨s, hRun, -⟩ := @twoPackets_runs (inParts ++ List.replicate 8 .poll) (by decide +kernel)
    (by decide +kernel)
  obtain ⟨hIdle, hNone⟩ := txPolls_settle twoPackets_fresh rfl inParts_movesOn hRun
  exact ⟨s, hIdle, hRun, hNone⟩

end Schedule

end DeviceModel.E82545

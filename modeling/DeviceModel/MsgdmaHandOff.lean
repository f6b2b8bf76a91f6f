import DeviceModel.Msgdma
import Mathlib.Data.Set.Card

/-!
# Runs of an mSGDMA unit

Whatever the guest writes, hands over and whenever it polls, the transactions of
the unit are calls of the FIFO driver on the buffers that their descriptors name,
they and the hand-overs of the guest form a chain in the sense of `HandOff.Chain`,
and a poll ends as soon as no owned descriptor is left.
-/

set_option autoImplicit false

namespace DeviceModel.Msgdma

open Bytes EmulPci HandOff

variable {φ : Type}

/-- What happens to the unit and around it. Buffer bytes and the far end of the FIFO change under
the unit's hands as they like. -/
inductive Event (φ : Type) where
  | request (elink : EmulLink) (req : EpwRequest) (junk : BitVec 64)
  | handOver (p : Ptr) (d : MsgdmaDesc)
  | store (a : Ptr) (b : BitVec 8)
  | arrive (fifo : φ)
  | poll

inductive Step (F : Fifo φ) (dmIommu : Bool) :
    System φ → Event φ → Polled → System φ → Prop
  | request (s : System φ) (elink : EmulLink) (req : EpwRequest) (junk : BitVec 64) :
      Step F dmIommu s (.request elink req junk) ⟨[], none⟩
        { s with sc := (emulMsgdma s.sc elink req junk).2 }
  | handOver (s : System φ) (p : Ptr) (d : MsgdmaDesc) : ¬ (s.desc p).Owned → d.Owned →
      Step F dmIommu s (.handOver p d) ⟨[], none⟩ { s with desc := Function.update s.desc p d }
  | store (s : System φ) (a : Ptr) (b : BitVec 8) :
      Step F dmIommu s (.store a b) ⟨[], none⟩ { s with buf := Function.update s.buf a b }
  | arrive (s : System φ) (fifo : φ) :
      Step F dmIommu s (.arrive fifo) ⟨[], none⟩ { s with fifo }
  | poll {s s' : System φ} {out : Polled} (fuel : Nat) :
      emulMsgdmaPoll F dmIommu fuel s = some (out, s') → Step F dmIommu s .poll out s'

def enabledBy (sc : MsgdmaSoftc) (elink : EmulLink) (req : EpwRequest) (junk : BitVec 64) :
    Option Ptr :=
  if elink.type ≠ .msgdmaCsr ∧ req.isWrite = true ∧ regOffset elink req = PF_POLL_FREQ ∧
      loadVal req junk ≠ 0 ∧ sc.pf.pfNextLo ≠ 0 then
    some (sc.pf.pfNextLo.setWidth 64 ||| MIPS_XKPHYS_UNCACHED_BASE)
  else none

abbrev HistItem := Item Ptr MsgdmaDesc Int

def Transaction.item (tx : Transaction) : HistItem :=
  if 0 < tx.processed then .success tx.at_ tx.desc tx.processed
  else .failure tx.at_ tx.desc tx.processed

def items (s : System φ) (e : Event φ) (out : Polled) : List HistItem :=
  match e with
  | .request elink req junk => ((enabledBy s.sc elink req junk).map .enabled).toList
  | .handOver p d => [.handed p d]
  | .store _ _ | .arrive _ => []
  | .poll => out.txs.map Transaction.item

inductive Run (F : Fifo φ) (dmIommu : Bool) :
    System φ → List (Event φ × Polled) → List HistItem → System φ → Prop
  | nil (s : System φ) : Run F dmIommu s [] [] s
  | cons {s s' s'' : System φ} {e : Event φ} {out : Polled} {es : List (Event φ × Polled)}
      {hist : List HistItem} : Step F dmIommu s e out s' → Run F dmIommu s' es hist s'' →
      Run F dmIommu s ((e, out) :: es) (items s e out ++ hist) s''

section Examples

def byteFifo : Fifo Unit where
  processTx _ _ _ := (1, ())
  processRx _ buf _ := (1, (), buf)
  rx_frame _ _ _ _ _ := rfl

def idleUnit : System Unit where
  sc := ⟨⟨0, 0⟩, ⟨0, 0, 0, 0, 0⟩, false, 0, 0⟩
  desc _ := ⟨0, 0, 0, 0, 0, 0, 0, 0⟩
  buf _ := 0
  fifo := ()

def msgdma0Pf : EmulLink := ⟨0x040a0, 0x00020, .emulMsgdma, .msgdma0Sc, .msgdmaPf⟩

def pfWrite (offset : BitVec 64) (val : BitVec 32) : EpwRequest :=
  putWord ⟨EPW_WINDOW + msgdma0Pf.baseEmul + offset, true, 4, 4, fun _ => 0⟩ val

def head : Ptr := 0x1000 ||| MIPS_XKPHYS_UNCACHED_BASE

def handedDesc : MsgdmaDesc := ⟨0, 0, 0, 0, 0, htole32 CONTROL_OWN, 0, 0⟩

def polling : System Unit where
  sc := ⟨⟨0, 0⟩, ⟨0, 0x1000, 0, 1, 0⟩, true, 0, head⟩
  desc := Function.update idleUnit.desc head handedDesc
  buf _ := 0
  fifo := ()

theorem run_polling : ∃ es hist, Run byteFifo false idleUnit es hist polling ∧
    hist.countP (Item.isHanded head) = 1 := by
  have hHandOver := @Step.handOver _ byteFifo false idleUnit head handedDesc
    (by decide) (by decide)
  exact ⟨_, _, .cons hHandOver (.cons (.request _ msgdma0Pf (pfWrite PF_NEXT_LO 0x1000) 0)
    (.cons (.request _ msgdma0Pf (pfWrite PF_POLL_FREQ 1) 0) (.nil _))), rfl⟩

def served : System Unit where
  sc := ⟨⟨0, 0⟩, ⟨0, 0x1000, 0, 1, 0⟩, true, 0, MIPS_XKPHYS_UNCACHED_BASE⟩
  desc := Function.update polling.desc head (handedDesc.complete 1)
  buf _ := 0
  fifo := ()

theorem run_served : ∃ es hist, Run byteFifo false idleUnit es hist served ∧
    hist.countP (Item.isSuccess head) = 1 := by
  have hHandOver := @Step.handOver _ byteFifo false idleUnit head handedDesc
    (by decide) (by decide)
  exact ⟨_, _, .cons hHandOver (.cons (.request _ msgdma0Pf (pfWrite PF_NEXT_LO 0x1000) 0)
    (.cons (.request _ msgdma0Pf (pfWrite PF_POLL_FREQ 1) 0)
    (.cons (.poll 2 rfl) (.nil _)))), rfl⟩

def turnedOff : System Unit :=
  { served with sc := (emulMsgdma served.sc msgdma0Pf (pfWrite PF_POLL_FREQ 0) 0).2 }

def byteQueue : Fifo (List (BitVec 8)) where
  processTx fifo buf iov :=
    if iov.iovLen = 0 then (0, fifo) else (1, fifo ++ [buf iov.iovBase])
  processRx fifo buf iov :=
    match fifo with
    | [] => (0, [], buf)
    | b :: rest =>
      if iov.iovLen = 0 then (0, fifo, buf) else (1, rest, Function.update buf iov.iovBase b)
  rx_frame fifo buf iov a ha := by
    cases fifo with
    | nil => rfl
    | cons b rest =>
      dsimp only
      split
      · rfl
      · next hLen =>
        refine Function.update_of_ne ?_ _ _
        rintro rfl
        exact ha (by simpa [Iovec.Covers] using Nat.pos_of_ne_zero hLen)

def receiveUnit : System (List (BitVec 8)) where
  sc := ⟨⟨0, 0⟩, ⟨0, 0, 0, 0, 0⟩, false, 1, 0⟩
  desc _ := ⟨0, 0, 0, 0, 0, 0, 0, 0⟩
  buf _ := 0
  fifo := []

def msgdma1Csr : EmulLink := ⟨0x04000, 0x00020, .emulMsgdma, .msgdma1Sc, .msgdmaCsr⟩
def msgdma1Pf : EmulLink := ⟨0x04020, 0x00020, .emulMsgdma, .msgdma1Sc, .msgdmaPf⟩

def regWrite (elink : EmulLink) (offset : BitVec 64) (val : BitVec 32) : EpwRequest :=
  putWord ⟨EPW_WINDOW + elink.baseEmul + offset, true, 4, 4, fun _ => 0⟩ val

def receiveDesc : MsgdmaDesc :=
  ⟨0, htole32 0x2000, htole32 1, 0, 0, htole32 CONTROL_OWN, 0, 0⟩

end Examples

section Words

theorem owned_complete (d : MsgdmaDesc) (processed : Int) : ¬ (d.complete processed).Owned := by
  simp only [MsgdmaDesc.Owned, MsgdmaDesc.complete, le32toh, htole32, bswap32_bswap32, not_not]
  rw [BitVec.and_assoc]
  have hNone : ~~~CONTROL_OWN &&& CONTROL_OWN = 0 := by decide
  rw [hNone]
  exact BitVec.and_zero

theorem nextDesc_ne_zero (d : MsgdmaDesc) : d.emulMsgdmaNextDesc ≠ 0 := by
  intro h
  have hBit := congrArg (·.getLsbD 63) h
  simp [MsgdmaDesc.emulMsgdmaNextDesc, MIPS_XKPHYS_UNCACHED_BASE] at hBit

end Words

def protocol : Protocol Ptr MsgdmaDesc Int where
  owned := MsgdmaDesc.Owned
  next := MsgdmaDesc.emulMsgdmaNextDesc
  complete := MsgdmaDesc.complete
  not_owned_complete := owned_complete

instance : DecidablePred protocol.owned := fun d => inferInstanceAs (Decidable d.Owned)

/-- Where the unit stands in the chain: nowhere as long as it does not poll. -/
def position (s : System φ) : Option Ptr := if s.sc.pollEn then some s.sc.curDesc else none

section Calls

/-- The vector is the buffer and the length that the descriptor names. -/
structure MsgdmaDesc.Names (dmIommu : Bool) (unit : Nat) (desc : MsgdmaDesc) (iov : Iovec) :
    Prop where
  lo : iov.iovBase.setWidth 32 = le32toh (if unit = 0 then desc.readLo else desc.writeLo)
  hi : iov.iovBase.extractLsb' 32 32 =
    if dmIommu then le32toh (if unit = 0 then desc.readHi else desc.writeHi) else 0x90000000
  len : iov.iovLen = (le32toh desc.length).toNat

/-- Exactly the transferred field and the OWN bit differ. -/
structure MsgdmaDesc.GivenBack (desc : MsgdmaDesc) (processed : Int) (desc' : MsgdmaDesc) :
    Prop where
  transferred : le32toh desc'.transferred = BitVec.ofInt 32 processed
  control : le32toh desc'.control = le32toh desc.control &&& ~~~CONTROL_OWN
  same : desc' = { desc with transferred := desc'.transferred, control := desc'.control }

/-- The transaction is a call of the FIFO driver on the owned descriptor at `cur_desc`, and the
state after it is what the driver and its result make of the state before. -/
structure Call (F : Fifo φ) (dmIommu : Bool) (s : System φ) (tx : Transaction) (s' : System φ) :
    Prop where
  here : tx.at_ = s.sc.curDesc
  found : tx.desc = s.desc s.sc.curDesc
  owned : le32toh tx.desc.control &&& CONTROL_OWN ≠ 0
  names : tx.desc.Names dmIommu s.sc.unit tx.iov
  sends : s.sc.unit = 0 →
    F.processTx s.fifo s.buf tx.iov = (tx.processed, s'.fifo) ∧ s'.buf = s.buf
  receives : s.sc.unit ≠ 0 → F.processRx s.fifo s.buf tx.iov = (tx.processed, s'.fifo, s'.buf)
  failed : tx.processed ≤ 0 → s'.desc = s.desc ∧ s'.sc = s.sc
  done : 0 < tx.processed → ∃ desc, tx.desc.GivenBack tx.processed desc ∧
    s'.desc = Function.update s.desc tx.at_ desc ∧
    s'.sc = { s.sc with
      curDesc := (le32toh tx.desc.next).setWidth 64 ||| MIPS_XKPHYS_UNCACHED_BASE }

inductive Calls (F : Fifo φ) (dmIommu : Bool) :
    System φ → List Transaction → System φ → Prop
  | nil (s : System φ) : Calls F dmIommu s [] s
  | cons {s s' s'' : System φ} {tx : Transaction} {txs : List Transaction} :
      Call F dmIommu s tx s' → Calls F dmIommu s' txs s'' → Calls F dmIommu s (tx :: txs) s''

variable {F : Fifo φ} {dmIommu : Bool} {s : System φ}

/-- The uncached segment lies above the 32 bits that a descriptor has for an address. -/
theorem setWidth_or_uncached (w : BitVec 32) :
    (w.setWidth 64 ||| MIPS_XKPHYS_UNCACHED_BASE).setWidth 32 = w ∧
      (w.setWidth 64 ||| MIPS_XKPHYS_UNCACHED_BASE).extractLsb' 32 32 = 0x90000000 := by
  have hLow : MIPS_XKPHYS_UNCACHED_BASE.setWidth 32 = 0 := by decide
  have hHigh : MIPS_XKPHYS_UNCACHED_BASE.extractLsb' 32 32 = 0x90000000 := by decide
  constructor
  · rw [BitVec.setWidth_or, hLow, BitVec.setWidth_setWidth_of_le _ (by decide),
      BitVec.setWidth_eq]
    exact BitVec.or_zero
  · rw [BitVec.extractLsb'_or, hHigh]
    have hNone : (w.setWidth 64).extractLsb' 32 32 = 0 := by
      ext i hi
      simp
    rw [hNone]
    exact BitVec.zero_or

theorem setWidth_or_shift (lo hi : BitVec 32) :
    (lo.setWidth 64 ||| hi.setWidth 64 <<< 32).setWidth 32 = lo ∧
      (lo.setWidth 64 ||| hi.setWidth 64 <<< 32).extractLsb' 32 32 = hi := by
  constructor
  · ext i hi
    simp
  · ext i hi
    have hBit : 32 + i < 64 ∧ i < 64 := by omega
    simp [hBit, BitVec.getLsbD_eq_getElem hi]

theorem iov_names (dmIommu : Bool) (unit : Nat) (desc : MsgdmaDesc) :
    desc.Names dmIommu unit (desc.iov dmIommu unit) := by
  cases dmIommu with
  | false => exact ⟨(setWidth_or_uncached _).1, (setWidth_or_uncached _).2, rfl⟩
  | true => exact ⟨(setWidth_or_shift _ _).1, (setWidth_or_shift _ _).2, rfl⟩

theorem complete_givenBack (desc : MsgdmaDesc) (processed : Int) :
    desc.GivenBack processed (desc.complete processed) :=
  ⟨bswap32_bswap32 _, bswap32_bswap32 _, rfl⟩

theorem processed_call (hOwned : (s.desc s.sc.curDesc).Owned)
    (hFail : (transaction F dmIommu s).processed ≤ 0) :
    Call F dmIommu s (transaction F dmIommu s) (processed F dmIommu s) where
  here := rfl
  found := rfl
  owned := hOwned
  names := iov_names _ _ _
  sends hUnit := by
    simp [processed, transaction, fifoProcess, hUnit]
  receives hUnit := by
    simp [processed, transaction, fifoProcess, hUnit]
  failed _ := ⟨rfl, rfl⟩
  done hDone := absurd hFail (Int.not_le.mpr hDone)

theorem advance_call (hOwned : (s.desc s.sc.curDesc).Owned)
    (hDone : 0 < (transaction F dmIommu s).processed) :
    Call F dmIommu s (transaction F dmIommu s)
      (advance (processed F dmIommu s) (transaction F dmIommu s)) where
  here := rfl
  found := rfl
  owned := hOwned
  names := iov_names _ _ _
  sends hUnit := by
    simp [advance, processed, transaction, fifoProcess, hUnit]
  receives hUnit := by
    simp [advance, processed, transaction, fifoProcess, hUnit]
  failed hFail := absurd hFail (Int.not_le.mpr hDone)
  done _ := ⟨_, complete_givenBack _ _, rfl, rfl⟩

end Calls

section PollLoop

variable {F : Fifo φ} {dmIommu : Bool} {s s' : System φ} {txs : List Transaction}

structure Looped (F : Fifo φ) (dmIommu : Bool) (s : System φ) (txs : List Transaction)
    (s' : System φ) : Prop where
  chain : Chain protocol (some s.sc.curDesc) s.desc (txs.map Transaction.item)
    (some s'.sc.curDesc) s'.desc
  calls : Calls F dmIommu s txs s'
  regs : s'.sc = { s.sc with curDesc := s'.sc.curDesc }
  buf : ∀ a, (∀ tx ∈ txs, ¬ tx.iov.Covers a) → s'.buf a = s.buf a
  unowned : ¬ (s.desc s.sc.curDesc).Owned → txs = [] ∧ s' = s
  failed : ∀ pre tx post, txs = pre ++ tx :: post → tx.processed ≤ 0 →
    post = [] ∧ s'.sc.curDesc = tx.at_ ∧ s'.desc tx.at_ = tx.desc
  stops : (∀ tx ∈ txs, 0 < tx.processed) → ¬ (s'.desc s'.sc.curDesc).Owned

theorem fifoProcess_frame (s : System φ) (iov : Iovec) {a : Ptr} (ha : ¬ iov.Covers a) :
    (fifoProcess F s iov).2.2 a = s.buf a := by
  unfold fifoProcess
  split
  · rfl
  · exact F.rx_frame _ _ _ _ ha

/-- The next descriptor lies in the uncached segment, so the loop never ends at address 0. -/
theorem advance_ne_zero (s : System φ) (tx : Transaction) : (advance s tx).sc.curDesc ≠ 0 :=
  nextDesc_ne_zero _

theorem pollLoop_cases {fuel : Nat} (h : pollLoop F dmIommu (fuel + 1) s = some (txs, s')) :
    ¬ (s.desc s.sc.curDesc).Owned ∧ txs = [] ∧ s' = s ∨
    (s.desc s.sc.curDesc).Owned ∧ (transaction F dmIommu s).processed ≤ 0 ∧
      txs = [transaction F dmIommu s] ∧ s' = processed F dmIommu s ∨
    (s.desc s.sc.curDesc).Owned ∧ 0 < (transaction F dmIommu s).processed ∧
      ∃ txs', pollLoop F dmIommu fuel
          (advance (processed F dmIommu s) (transaction F dmIommu s)) = some (txs', s') ∧
        txs = transaction F dmIommu s :: txs' := by
  unfold pollLoop at h
  by_cases hOwned : (s.desc s.sc.curDesc).Owned
  · rw [if_neg (not_not.mpr hOwned)] at h
    dsimp only at h
    by_cases hFail : (transaction F dmIommu s).processed ≤ 0
    · rw [if_pos hFail] at h
      obtain ⟨rfl, rfl⟩ := Prod.mk.inj (Option.some.inj h)
      exact .inr (.inl ⟨hOwned, hFail, rfl, rfl⟩)
    · rw [if_neg hFail, if_neg (advance_ne_zero _ _)] at h
      obtain ⟨⟨txs', t⟩, hLoop, hEq⟩ := Option.map_eq_some_iff.mp h
      obtain ⟨rfl, rfl⟩ := Prod.mk.inj hEq
      exact .inr (.inr ⟨hOwned, Int.not_le.mp hFail, txs', hLoop, rfl⟩)
  · rw [if_pos hOwned] at h
    obtain ⟨rfl, rfl⟩ := Prod.mk.inj (Option.some.inj h)
    exact .inl ⟨hOwned, rfl, rfl⟩

theorem processed_frame {a : Ptr} (ha : ¬ (transaction F dmIommu s).iov.Covers a) :
    (processed F dmIommu s).buf a = s.buf a := fifoProcess_frame s _ ha

theorem advance_chain {c : Option Ptr} {m : Ptr → MsgdmaDesc} {hist : List HistItem}
    (hOwned : (s.desc s.sc.curDesc).Owned) (hDone : 0 < (transaction F dmIommu s).processed)
    (h : Chain protocol
      (some (advance (processed F dmIommu s) (transaction F dmIommu s)).sc.curDesc)
      (advance (processed F dmIommu s) (transaction F dmIommu s)).desc hist c m) :
    Chain protocol (some s.sc.curDesc) s.desc ((transaction F dmIommu s).item :: hist) c m := by
  rw [Transaction.item, if_pos hDone]
  exact .success _ _ hOwned h

theorem pollLoop_spec {fuel : Nat} (h : pollLoop F dmIommu fuel s = some (txs, s')) :
    Looped F dmIommu s txs s' := by
  induction fuel generalizing s txs with
  | zero => cases h
  | succ fuel ih =>
    rcases pollLoop_cases h with ⟨hFree, rfl, rfl⟩ | ⟨hOwned, hFail, rfl, rfl⟩ |
      ⟨hOwned, hDone, txs', hLoop, rfl⟩
    · exact ⟨.nil _ _, .nil _, rfl, fun _ _ => rfl, fun _ => ⟨rfl, rfl⟩, by simp, fun _ => hFree⟩
    · have hItem : (transaction F dmIommu s).item =
          .failure s.sc.curDesc (s.desc s.sc.curDesc) (transaction F dmIommu s).processed :=
        if_neg (Int.not_lt.mpr hFail)
      refine ⟨?_, .cons (processed_call hOwned hFail) (.nil _), rfl,
        fun a ha => processed_frame (ha _ List.mem_cons_self),
        fun hFree => absurd hOwned hFree, ?_, fun hAll => ?_⟩
      · rw [List.map_singleton, hItem]
        exact .failure _ _ hOwned (.nil _ _)
      · rintro pre tx post hSplit -
        cases pre with
        | nil =>
          obtain ⟨rfl, rfl⟩ := List.cons.inj hSplit
          exact ⟨rfl, rfl, rfl⟩
        | cons x pre => simp at hSplit
      · exact absurd (hAll _ List.mem_cons_self) (Int.not_lt.mpr hFail)
    · have hRest := ih hLoop
      refine ⟨advance_chain hOwned hDone hRest.chain,
        .cons (advance_call hOwned hDone) hRest.calls, hRest.regs, fun a ha => ?_,
        fun hFree => absurd hOwned hFree, ?_, fun hAll => hRest.stops fun tx hTx => ?_⟩
      · rw [hRest.buf a fun tx hTx => ha tx (List.mem_cons_of_mem _ hTx)]
        exact processed_frame (ha _ List.mem_cons_self)
      · rintro pre tx post hSplit hFail
        cases pre with
        | nil =>
          obtain ⟨rfl, rfl⟩ := List.cons.inj hSplit
          exact absurd hFail (Int.not_le.mpr hDone)
        | cons x pre =>
          obtain ⟨-, hSplit'⟩ := List.cons.inj hSplit
          exact hRest.failed pre tx post hSplit' hFail
      · exact hAll tx (List.mem_cons_of_mem _ hTx)

/-- A descriptor that is given back is never taken up again in the same poll, so the loop ends. -/
theorem pollLoop_terminates (F : Fifo φ) (dmIommu : Bool) (s : System φ)
    (hFinite : {p | (s.desc p).Owned}.Finite) : ∃ fuel r, pollLoop F dmIommu fuel s = some r := by
  induction hCard : {p | (s.desc p).Owned}.ncard generalizing s with
  | zero =>
    have hNone : ¬ (s.desc s.sc.curDesc).Owned := by
      intro hOwned
      rw [Set.ncard_eq_zero hFinite] at hCard
      exact Set.eq_empty_iff_forall_notMem.mp hCard _ hOwned
    exact ⟨1, ([], s), by rw [pollLoop, if_pos hNone]⟩
  | succ n ih =>
    by_cases hOwned : (s.desc s.sc.curDesc).Owned
    · by_cases hFail : (transaction F dmIommu s).processed ≤ 0
      · exact ⟨1, _, by rw [pollLoop, if_neg (not_not.mpr hOwned), if_pos hFail]⟩
      · have hLeft : {p | ((advance (processed F dmIommu s) (transaction F dmIommu s)).desc p).Owned} =
            {p | (s.desc p).Owned} \ {s.sc.curDesc} := by
          ext p
          by_cases hp : p = s.sc.curDesc
          · subst hp
            simp [advance, transaction, owned_complete]
          · simp [advance, transaction, processed, hp]
        obtain ⟨fuel, r, hLoop⟩ := ih _ (hLeft ▸ hFinite.sdiff) (by
          rw [hLeft, Set.ncard_sdiff_singleton_of_mem hOwned, hCard]
          rfl)
        refine ⟨fuel + 1, (transaction F dmIommu s :: r.1, r.2), ?_⟩
        rw [pollLoop, if_neg (not_not.mpr hOwned)]
        dsimp only
        rw [if_neg hFail, if_neg (advance_ne_zero _ _), hLoop]
        rfl
    · exact ⟨1, ([], s), by rw [pollLoop, if_pos hOwned]⟩

end PollLoop

section Poll

variable {F : Fifo φ} {dmIommu : Bool} {s s' : System φ} {out : Polled}

structure Polls (F : Fifo φ) (dmIommu : Bool) (s : System φ) (out : Polled) (s' : System φ) :
    Prop where
  disabled : s.sc.pollEn = false → out = ⟨[], none⟩ ∧ s' = s
  looped : s.sc.pollEn = true → Looped F dmIommu s out.txs s'
  irq : out.irq = if (∃ tx ∈ out.txs, 0 < tx.processed) ∧ s.sc.csr.dmaControl &&& CONTROL_GIEM ≠ 0
    then some (if s.sc.unit = 1 then DM_MSGDMA1_INTR else DM_MSGDMA0_INTR) else none

theorem emulMsgdmaPoll_spec {fuel : Nat} (h : emulMsgdmaPoll F dmIommu fuel s = some (out, s')) :
    Polls F dmIommu s out s' := by
  unfold emulMsgdmaPoll at h
  cases hEn : s.sc.pollEn with
  | false =>
    rw [if_pos hEn] at h
    obtain ⟨rfl, rfl⟩ := Prod.mk.inj (Option.some.inj h)
    exact ⟨fun _ => ⟨rfl, rfl⟩, fun hOn => (by simp [hEn] at hOn), by simp⟩
  | true =>
    rw [if_neg (by simp [hEn])] at h
    obtain ⟨⟨txs, t⟩, hLoop, hEq⟩ := Option.map_eq_some_iff.mp h
    obtain ⟨rfl, rfl⟩ := Prod.mk.inj hEq
    have hSpec := pollLoop_spec hLoop
    refine ⟨fun hOff => (by simp [hEn] at hOff), fun _ => hSpec, ?_⟩
    have hRegs := hSpec.regs
    have hCount : txs.countP (fun tx => decide (0 < tx.processed)) > 0 ↔
        ∃ tx ∈ txs, 0 < tx.processed := by
      simp [List.countP_pos_iff]
    have hIrq : sendSoftIrq t.sc = if s.sc.csr.dmaControl &&& CONTROL_GIEM = 0 then none
        else some (if s.sc.unit = 1 then DM_MSGDMA1_INTR else DM_MSGDMA0_INTR) := by
      rw [hRegs]
      rfl
    show (if txs.countP (fun tx => decide (0 < tx.processed)) > 0 then sendSoftIrq t.sc else none) = _
    rw [hIrq]
    by_cases hDone : ∃ tx ∈ txs, 0 < tx.processed
    · rw [if_pos (hCount.mpr hDone)]
      by_cases hGiem : s.sc.csr.dmaControl &&& CONTROL_GIEM = 0
      · simp [hGiem]
      · rw [if_neg hGiem]
        exact (if_pos ⟨hDone, hGiem⟩).symm
    · rw [if_neg (hCount.not.mpr hDone), if_neg fun h => hDone h.1]

theorem emulMsgdmaPoll_terminates (F : Fifo φ) (dmIommu : Bool) (s : System φ)
    (hFinite : {p | (s.desc p).Owned}.Finite) : ∃ fuel r, emulMsgdmaPoll F dmIommu fuel s = some r := by
  cases hEn : s.sc.pollEn with
  | false => exact ⟨0, _, if_pos hEn⟩
  | true =>
    obtain ⟨fuel, r, hLoop⟩ := pollLoop_terminates F dmIommu s hFinite
    exact ⟨fuel, _, by rw [emulMsgdmaPoll, if_neg (by simp [hEn]), hLoop]; rfl⟩

end Poll

section Runs

variable {F : Fifo φ} {dmIommu : Bool} {s s' : System φ} {e : Event φ} {out : Polled}
variable {es : List (Event φ × Polled)} {hist : List HistItem}

structure SamePolling (sc sc' : MsgdmaSoftc) : Prop where
  unit : sc'.unit = sc.unit
  pollEn : sc'.pollEn = sc.pollEn
  curDesc : sc'.curDesc = sc.curDesc

theorem csrW_samePolling (sc : MsgdmaSoftc) (offset val : BitVec 64) :
    SamePolling sc (csrW sc offset val) := by
  unfold csrW
  split
  · exact ⟨rfl, rfl, rfl⟩
  · split
    · split <;> exact ⟨rfl, rfl, rfl⟩
    · exact ⟨rfl, rfl, rfl⟩

/-- Only a non-zero poll frequency has to do with polling. -/
theorem pfW_samePolling (sc : MsgdmaSoftc) {offset val : BitVec 64}
    (h : ¬ (offset = PF_POLL_FREQ ∧ val ≠ 0)) : SamePolling sc (pfW sc offset val) := by
  unfold pfW
  split
  · exact ⟨rfl, rfl, rfl⟩
  split
  · exact ⟨rfl, rfl, rfl⟩
  split
  · exact ⟨rfl, rfl, rfl⟩
  split
  · next hFreq =>
    rw [if_neg fun hVal => h ⟨hFreq, hVal⟩]
    exact ⟨rfl, rfl, rfl⟩
  · split <;> exact ⟨rfl, rfl, rfl⟩

theorem pfW_pollFreq (sc : MsgdmaSoftc) {val : BitVec 64} (hVal : val ≠ 0) :
    pfW sc PF_POLL_FREQ val =
      emulMsgdmaPollEnable { sc with pf := { sc.pf with pfPollFreq := val.setWidth 32 } } := by
  unfold pfW
  rw [if_neg (by decide), if_neg (by decide), if_neg (by decide), if_pos rfl, if_pos hVal]

/-- A request either starts the unit from a head or leaves polling as it was. -/
theorem emulMsgdma_polling (sc : MsgdmaSoftc) (elink : EmulLink) (req : EpwRequest)
    (junk : BitVec 64) :
    (∃ head, enabledBy sc elink req junk = some head ∧
      SamePolling { sc with pollEn := true, curDesc := head } (emulMsgdma sc elink req junk).2) ∨
    enabledBy sc elink req junk = none ∧ SamePolling sc (emulMsgdma sc elink req junk).2 := by
  unfold emulMsgdma enabledBy
  dsimp only
  by_cases hCsr : elink.type = .msgdmaCsr
  · refine .inr ⟨if_neg fun h => h.1 hCsr, ?_⟩
    rw [if_pos hCsr]
    split
    · exact csrW_samePolling _ _ _
    · exact ⟨rfl, rfl, rfl⟩
  by_cases hWrite : req.isWrite = true
  · rw [if_neg hCsr, if_pos hWrite]
    by_cases hFreq : regOffset elink req = PF_POLL_FREQ ∧ loadVal req junk ≠ 0
    · rw [hFreq.1, pfW_pollFreq sc hFreq.2]
      unfold emulMsgdmaPollEnable pollEnableHead
      dsimp only
      by_cases hLo : sc.pf.pfNextLo = 0
      · rw [if_pos hLo]
        exact .inr ⟨if_neg fun h => h.2.2.2.2 hLo, rfl, rfl, rfl⟩
      · rw [if_neg hLo]
        exact .inl ⟨_, if_pos ⟨hCsr, hWrite, rfl, hFreq.2, hLo⟩, rfl, rfl, rfl⟩
    · exact .inr ⟨if_neg fun h => hFreq ⟨h.2.2.1, h.2.2.2.1⟩, pfW_samePolling sc hFreq⟩
  · refine .inr ⟨if_neg fun h => hWrite h.2.1, ?_⟩
    rw [if_neg hCsr, if_neg hWrite]
    exact ⟨rfl, rfl, rfl⟩

theorem Step.chain (h : Step F dmIommu s e out s') :
    Chain protocol (position s) s.desc (items s e out) (position s') s'.desc := by
  cases h with
  | request elink req junk =>
    rcases emulMsgdma_polling s.sc elink req junk with ⟨head, hHead, hSame⟩ | ⟨hNone, hSame⟩
    · simp only [items, hHead, position, hSame.pollEn, hSame.curDesc]
      exact .enabled _ (.nil _ _)
    · simp only [items, hNone, position, hSame.pollEn, hSame.curDesc]
      exact .nil _ _
  | handOver p d hFree hOwned => exact .handed p d hFree hOwned (.nil _ _)
  | store a b => exact .nil _ _
  | arrive fifo => exact .nil _ _
  | poll fuel hPoll =>
    have hSpec := emulMsgdmaPoll_spec hPoll
    cases hEn : s.sc.pollEn with
    | false =>
      obtain ⟨rfl, rfl⟩ := hSpec.disabled hEn
      exact .nil _ _
    | true =>
      have hLooped := hSpec.looped hEn
      have hEn' : s'.sc.pollEn = true := by
        rw [hLooped.regs]
        exact hEn
      rw [position, if_pos hEn, position, if_pos hEn']
      exact hLooped.chain

theorem Run.chain (h : Run F dmIommu s es hist s') :
    Chain protocol (position s) s.desc hist (position s') s'.desc := by
  induction h with
  | nil s => exact .nil _ _
  | cons hStep _ ih => exact hStep.chain.append ih

/-- Only a poll makes transactions and raises the interrupt. -/
theorem Run.silent (h : Run F dmIommu s es hist s') :
    ∀ x ∈ es, x.1 ≠ .poll → x.2 = ⟨[], none⟩ := by
  induction h with
  | nil s => simp
  | cons hStep _ ih =>
    refine List.forall_mem_cons.mpr ⟨fun hOther => ?_, ih⟩
    cases hStep with
    | request elink req junk | handOver p d | store a b | arrive fifo => rfl
    | poll fuel hPoll => exact absurd rfl hOther

theorem Run.split {pre post : List (Event φ × Polled)}
    (h : Run F dmIommu s (pre ++ (e, out) :: post) hist s') :
    ∃ hist₁ s₁ s₂ hist₂, Run F dmIommu s pre hist₁ s₁ ∧ Step F dmIommu s₁ e out s₂ ∧
      Run F dmIommu s₂ post hist₂ s' ∧ hist = hist₁ ++ items s₁ e out ++ hist₂ := by
  induction pre generalizing s hist with
  | nil =>
    cases h with
    | cons hStep hRest => exact ⟨[], _, _, _, .nil _, hStep, hRest, rfl⟩
  | cons x pre ih =>
    cases h with
    | cons hFirst hRest =>
      obtain ⟨hist₁, s₁, s₂, hist₂, hPre, hStep, hPost, rfl⟩ := ih hRest
      exact ⟨_, s₁, s₂, hist₂, .cons hFirst hPre, hStep, hPost, by simp only [List.append_assoc]⟩

theorem Step.polls (h : Step F dmIommu s .poll out s') : Polls F dmIommu s out s' := by
  cases h with
  | poll fuel hPoll => exact emulMsgdmaPoll_spec hPoll

/-- What the unit keeps to over a run that starts before polling is first enabled. -/
structure HandsOff (F : Fifo φ) (dmIommu : Bool) (s₀ : System φ) (es : List (Event φ × Polled))
    (hist : List HistItem) (s : System φ) : Prop where
  chain : Chain protocol none s₀.desc hist (position s) s.desc
  inOrder : ∀ pre i post p, hist = pre ++ i :: post → i.on = some p →
    pre.foldl (Item.position protocol) none = some p
  conserved : ∀ p, hist.countP (Item.isSuccess p) + own protocol s.desc p =
    hist.countP (Item.isHanded p) + own protocol s₀.desc p
  asHanded : ∀ pre p d mid d' processed post,
    hist = pre ++ .handed p d :: (mid ++ .success p d' processed :: post) →
      (∀ i ∈ mid, i.isSuccess p = false) → d' = d
  silent : ∀ x ∈ es, x.1 ≠ .poll → x.2 = ⟨[], none⟩
  polled : ∀ pre out post, es = pre ++ (.poll, out) :: post → ∃ hist₁ s₁ s₂ hist₂,
    Run F dmIommu s₀ pre hist₁ s₁ ∧ Polls F dmIommu s₁ out s₂ ∧ Run F dmIommu s₂ post hist₂ s ∧
      hist = hist₁ ++ out.txs.map Transaction.item ++ hist₂
  terminates : {p | (s.desc p).Owned}.Finite → ∃ fuel r, emulMsgdmaPoll F dmIommu fuel s = some r
  polls : ∀ fuel out s', emulMsgdmaPoll F dmIommu fuel s = some (out, s') → Polls F dmIommu s out s'

theorem msgdma_handsOff (hOff : s.sc.pollEn = false) (hRun : Run F dmIommu s es hist s') :
    HandsOff F dmIommu s es hist s' := by
  have hChain := hRun.chain
  rw [position, if_neg (by simp [hOff])] at hChain
  exact
    { chain := hChain
      inOrder := fun _ _ _ _ hSplit hOn => hChain.in_order hSplit hOn
      conserved := hChain.conserved
      asHanded := fun _ _ _ _ _ _ _ hSplit hMid => hChain.as_handed hSplit hMid (.inl rfl)
      silent := hRun.silent
      polled := by
        rintro pre out post rfl
        obtain ⟨hist₁, s₁, s₂, hist₂, hPre, hStep, hPost, hHist⟩ := hRun.split
        exact ⟨hist₁, s₁, s₂, hist₂, hPre, hStep.polls, hPost, hHist⟩
      terminates := emulMsgdmaPoll_terminates F dmIommu s'
      polls := fun _ _ _ hPoll => emulMsgdmaPoll_spec hPoll }

/-- The first poll finds the FIFO empty and leaves the descriptor where it is; the second, after a
byte has arrived, completes it and raises the interrupt. -/
theorem msgdma_handsOff_received : ∃ es hist s, HandsOff byteQueue false receiveUnit es hist s ∧
    hist.countP (Item.isHanded head) = 1 ∧ hist.countP (Item.isSuccess head) = 1 ∧
    es.map (fun x => x.2.txs.map Transaction.processed) = [[], [], [], [], [0], [], [1]] ∧
    es.map (fun x => x.2.irq) = [none, none, none, none, none, none, some DM_MSGDMA1_INTR] ∧
    s.buf (0x2000 ||| MIPS_XKPHYS_UNCACHED_BASE) = 0x5a := by
  have hHandOver := @Step.handOver _ byteQueue false
    { receiveUnit with sc := (emulMsgdma receiveUnit.sc msgdma1Csr
        (regWrite msgdma1Csr DMA_CONTROL CONTROL_GIEM) 0).2 }
    head receiveDesc (by decide) (by decide)
  have hRun := Run.cons (Step.request receiveUnit msgdma1Csr
      (regWrite msgdma1Csr DMA_CONTROL CONTROL_GIEM) 0)
    (.cons hHandOver
    (.cons (.request _ msgdma1Pf (regWrite msgdma1Pf PF_NEXT_LO 0x1000) 0)
    (.cons (.request _ msgdma1Pf (regWrite msgdma1Pf PF_POLL_FREQ 1) 0)
    (.cons (.poll 1 rfl) (.cons (.arrive _ [0x5a]) (.cons (.poll 2 rfl) (.nil _)))))))
  exact ⟨_, _, _, msgdma_handsOff rfl hRun, rfl, rfl, rfl, rfl, rfl⟩

end Runs

section Quiescence

variable {F : Fifo φ} {dmIommu : Bool} {s s₁ s₂ : System φ} {elink : EmulLink} {req : EpwRequest}
variable {junk : BitVec 64} {es : List (Event φ × Polled)} {hist : List HistItem}

/-- The write resets the unit or sets the poll frequency to 0. -/
def Quiets (elink : EmulLink) (req : EpwRequest) (junk : BitVec 64) : Prop :=
  req.isWrite = true ∧
    (elink.type = .msgdmaCsr ∧ regOffset elink req = DMA_CONTROL ∧
        loadVal req junk &&& CONTROL_RESET ≠ 0 ∨
      elink.type ≠ .msgdmaCsr ∧ regOffset elink req = PF_POLL_FREQ ∧ loadVal req junk = 0)

theorem Quiets.enabledBy (h : Quiets elink req junk) (sc : MsgdmaSoftc) :
    enabledBy sc elink req junk = none := by
  refine if_neg ?_
  rintro ⟨hPf, -, -, hVal, -⟩
  rcases h.2 with ⟨hCsr, -⟩ | ⟨-, -, hZero⟩
  · exact hPf hCsr
  · exact hVal hZero

theorem Quiets.samePolling (h : Quiets elink req junk) (sc : MsgdmaSoftc) :
    SamePolling sc (emulMsgdma sc elink req junk).2 := by
  rcases emulMsgdma_polling sc elink req junk with ⟨head, hHead, -⟩ | ⟨-, hSame⟩
  · exact absurd (hHead.symm.trans (h.enabledBy sc)) (by simp)
  · exact hSame

theorem Run.keeps {Inv : System φ → Prop} {allowed : HistItem → Prop}
    (hStep : ∀ s e out s', Inv s → Step F dmIommu s e out s' → (∀ i ∈ items s e out, allowed i) →
      Inv s') (hRun : Run F dmIommu s es hist s₁) (hInv : Inv s) (hAllowed : ∀ i ∈ hist, allowed i) :
    Inv s₁ := by
  induction hRun with
  | nil s => exact hInv
  | cons h _ ih =>
    rw [List.forall_mem_append] at hAllowed
    exact ih (hStep _ _ _ _ hInv h hAllowed.1) hAllowed.2

theorem Step.stays_off {e : Event φ} {out : Polled} (hOff : s.sc.pollEn = false)
    (h : Step F dmIommu s e out s₁) (hEnabled : ∀ i ∈ items s e out, ∀ q, i ≠ .enabled q) :
    s₁.sc.pollEn = false := by
  cases h with
  | request elink req junk =>
    rcases emulMsgdma_polling s.sc elink req junk with ⟨head, hHead, -⟩ | ⟨-, hSame⟩
    · exact absurd rfl (hEnabled (.enabled head) (by simp [items, hHead]) head)
    · exact hSame.pollEn.trans hOff
  | handOver q d | store a b | arrive fifo => exact hOff
  | poll fuel hPoll =>
    rw [((emulMsgdmaPoll_spec hPoll).disabled hOff).2]
    exact hOff

/-- The unit stands at a descriptor that is not owned. -/
def AtRest (p : Ptr) (s : System φ) : Prop := s.sc.curDesc = p ∧ ¬ (s.desc p).Owned

theorem AtRest.poll {p : Ptr} (h : AtRest p s) {fuel : Nat} {out : Polled}
    (hPoll : emulMsgdmaPoll F dmIommu fuel s = some (out, s₁)) : out = ⟨[], none⟩ ∧ s₁ = s := by
  have hSpec := emulMsgdmaPoll_spec hPoll
  cases hEn : s.sc.pollEn with
  | false => exact hSpec.disabled hEn
  | true =>
    obtain ⟨rfl, hFree⟩ := h
    obtain ⟨hTxs, hSame⟩ := (hSpec.looped hEn).unowned hFree
    have hIrq := hSpec.irq
    rw [hTxs, if_neg (by simp)] at hIrq
    exact ⟨by rw [← hTxs, ← hIrq], hSame⟩

theorem AtRest.step {p : Ptr} (h : AtRest p s) {e : Event φ} {out : Polled}
    (hStep : Step F dmIommu s e out s₁)
    (hItems : ∀ i ∈ items s e out, (∀ q, i ≠ .enabled q) ∧ ∀ d, i ≠ .handed p d) : AtRest p s₁ := by
  cases hStep with
  | request elink req junk =>
    rcases emulMsgdma_polling s.sc elink req junk with ⟨head, hHead, -⟩ | ⟨-, hSame⟩
    · exact absurd rfl ((hItems (.enabled head) (by simp [items, hHead])).1 head)
    · exact ⟨hSame.curDesc.trans h.1, h.2⟩
  | handOver q d hFree hOwned =>
    have hq : p ≠ q := by
      rintro rfl
      exact (hItems (.handed p d) List.mem_cons_self).2 d rfl
    refine ⟨h.1, ?_⟩
    show ¬ (Function.update s.desc q d p).Owned
    rw [Function.update_of_ne hq]
    exact h.2
  | store a b | arrive fifo => exact h
  | poll fuel hPoll =>
    rw [(h.poll hPoll).2]
    exact h

/-- After a reset or with a poll frequency of 0 the unit stays quiet until it is enabled again,
provided it has never polled, or stands at a descriptor that is and stays not owned. -/
theorem msgdma_quiescent {s₀ : System φ} {es₀ : List (Event φ × Polled)} {hist₀ : List HistItem}
    (hOff : s₀.sc.pollEn = false) (hReach : Run F dmIommu s₀ es₀ hist₀ s)
    (hQuiet : Quiets elink req junk)
    (hRun : Run F dmIommu { s with sc := (emulMsgdma s.sc elink req junk).2 } es hist s₁)
    (hEnabled : ∀ i ∈ hist, ∀ q, i ≠ .enabled q)
    (hRest : (∀ i ∈ hist₀, ∀ q, i ≠ .enabled q) ∨
      ¬ (s.desc s.sc.curDesc).Owned ∧ ∀ i ∈ hist, ∀ d, i ≠ .handed s.sc.curDesc d)
    {fuel : Nat} {out : Polled} (hPoll : emulMsgdmaPoll F dmIommu fuel s₁ = some (out, s₂)) :
    out = ⟨[], none⟩ ∧ s₂ = s₁ := by
  have hSame := hQuiet.samePolling s.sc
  rcases hRest with hNever | ⟨hFree, hHanded⟩
  · have hOff' : s.sc.pollEn = false :=
      hReach.keeps (fun _ _ _ _ hOff hStep hItems => hStep.stays_off hOff hItems) hOff hNever
    have hOff₁ : s₁.sc.pollEn = false :=
      hRun.keeps (fun _ _ _ _ hOff hStep hItems => hStep.stays_off hOff hItems)
        (hSame.pollEn.trans hOff') hEnabled
    exact (emulMsgdmaPoll_spec hPoll).disabled hOff₁
  · have hRest : AtRest s.sc.curDesc s₁ :=
      hRun.keeps (fun _ _ _ _ hRest hStep hItems => hRest.step hStep hItems) ⟨hSame.curDesc, hFree⟩
        fun i hi => ⟨hEnabled i hi, hHanded i hi⟩
    exact hRest.poll hPoll

/-- The unit has served a descriptor when polling is turned off, and leaves it alone although it is
handed over once more. -/
theorem msgdma_quiescent_served : ∃ es₀ hist₀ es hist s₁ out s₂,
    Run byteFifo false idleUnit es₀ hist₀ served ∧ hist₀.countP (Item.isSuccess head) = 1 ∧
    Run byteFifo false turnedOff es hist s₁ ∧ hist.countP (Item.isHanded head) = 1 ∧
    emulMsgdmaPoll byteFifo false 1 s₁ = some (out, s₂) ∧ out = ⟨[], none⟩ ∧ s₂ = s₁ := by
  obtain ⟨es₀, hist₀, hReach, hSuccess⟩ := run_served
  have hQuiet : Quiets msgdma0Pf (pfWrite PF_POLL_FREQ 0) 0 :=
    ⟨rfl, .inr ⟨by decide, by decide, by decide⟩⟩
  have hFree : ¬ (served.desc served.sc.curDesc).Owned := by decide
  have hAway : head ≠ served.sc.curDesc := by decide
  have hAgain := @Step.handOver _ byteFifo false turnedOff head handedDesc (by decide) (by decide)
  have hAfter := Run.cons hAgain (.cons (.poll 1 rfl) (.nil _))
  refine ⟨es₀, hist₀, _, _, _, _, _, hReach, hSuccess, hAfter, rfl, rfl, ?_⟩
  exact msgdma_quiescent rfl hReach hQuiet hAfter (by simp [items])
    (.inr ⟨hFree, by simp [items, hAway]⟩) (show emulMsgdmaPoll byteFifo false 1 _ = _ from rfl)

end Quiescence

/-- A unit that polls does not pass by a descriptor that is owned. -/
theorem poll_of_owned {F : Fifo φ} {dmIommu : Bool} {s : System φ} (hOn : s.sc.pollEn = true)
    (hOwned : (s.desc s.sc.curDesc).Owned) {fuel : Nat} {out : Polled} {s' : System φ}
    (hPoll : emulMsgdmaPoll F dmIommu fuel s = some (out, s')) : out.txs ≠ [] := by
  intro hNone
  have hLooped := (emulMsgdmaPoll_spec hPoll).looped hOn
  have hStops := hLooped.stops (by simp [hNone])
  have hChain := hLooped.chain
  rw [hNone, List.map_nil] at hChain
  generalize hPos : some s'.sc.curDesc = c, hMem : s'.desc = m at hChain
  cases hChain with
  | nil =>
    rw [hMem, Option.some.inj hPos] at hStops
    exact hStops hOwned

/-- The prescribed disable does not keep the next poll from the descriptor. -/
theorem msgdma_busy_after_disable : ¬ ∀ (s₀ s s₁ s₂ : System Unit) (es₀ es : List (Event Unit × Polled))
    (hist₀ hist : List HistItem) (elink : EmulLink) (req : EpwRequest) (fuel : Nat) (out : Polled),
    s₀.sc.pollEn = false → Run byteFifo false s₀ es₀ hist₀ s → Quiets elink req 0 →
    Run byteFifo false { s with sc := (emulMsgdma s.sc elink req 0).2 } es hist s₁ →
    (∀ i ∈ hist, ∀ q, i ≠ .enabled q) → emulMsgdmaPoll byteFifo false fuel s₁ = some (out, s₂) →
    out = ⟨[], none⟩ ∧ s₂ = s₁ := by
  intro hAll
  obtain ⟨es, hist, hRun, -⟩ := run_polling
  have hQuiet : Quiets msgdma0Pf (pfWrite PF_POLL_FREQ 0) 0 :=
    ⟨rfl, .inr ⟨by decide, by decide, by decide⟩⟩
  obtain ⟨r, hPoll⟩ : ∃ r, emulMsgdmaPoll byteFifo false 2
      { polling with sc := (emulMsgdma polling.sc msgdma0Pf (pfWrite PF_POLL_FREQ 0) 0).2 } =
        some r := ⟨_, rfl⟩
  have hSilent := hAll _ _ _ _ _ _ _ _ _ _ 2 _ rfl hRun hQuiet (.nil _) (by simp) hPoll
  exact poll_of_owned rfl (by decide) hPoll (by rw [hSilent.1])

end DeviceModel.Msgdma

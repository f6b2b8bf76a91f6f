import DeviceModel.MsgdmaHandOff

/-!
# Where a chain of descriptors ends

`emul_msgdma_next_desc` puts every link into the uncached segment before the loop
of `emul_msgdma_poll` tests it, so a null link leads to the descriptor at physical
address 0. A run reads that address exactly when a poll comes to such a link.
-/

set_option autoImplicit false

namespace DeviceModel.Msgdma

open Bytes EmulPci HandOff

/-- Physical address 0, as the model reads it. -/
def nullDesc : Ptr := MIPS_XKPHYS_UNCACHED_BASE

section Fetched

variable {φ : Type} (F : Fifo φ) (dmIommu : Bool)

/-- The addresses that `pollLoop` reads as descriptors, in their order. -/
def fetched : Nat → System φ → List Ptr
  | 0, _ => []
  | fuel + 1, s =>
    s.sc.curDesc ::
      if ¬ (s.desc s.sc.curDesc).Owned then []
      else
        let tx := transaction F dmIommu s
        let s := processed F dmIommu s
        if tx.processed ≤ 0 then []
        else
          let s := advance s tx
          if s.sc.curDesc = 0 then [] else fetched fuel s

def pollFetched (fuel : Nat) (s : System φ) : List Ptr :=
  if s.sc.pollEn = false then [] else fetched F dmIommu fuel s

structure SparesNull (s : System φ) : Prop where
  reads : ∀ fuel, nullDesc ∉ pollFetched F dmIommu fuel s
  transfers : ∀ fuel out s', emulMsgdmaPoll F dmIommu fuel s = some (out, s') →
    ∀ tx ∈ out.txs, tx.at_ ≠ nullDesc
  writesBack : ∀ fuel out s', emulMsgdmaPoll F dmIommu fuel s = some (out, s') →
    s'.desc nullDesc = s.desc nullDesc

/-- The loop completes a descriptor whose link is null. -/
inductive CompletesLast : System φ → Prop
  | last (s : System φ) : (s.desc s.sc.curDesc).Owned → 0 < (transaction F dmIommu s).processed →
      (s.desc s.sc.curDesc).next = 0 → CompletesLast s
  | later (s : System φ) : (s.desc s.sc.curDesc).Owned → 0 < (transaction F dmIommu s).processed →
      CompletesLast (advance (processed F dmIommu s) (transaction F dmIommu s)) → CompletesLast s

/-- A run in which every poll is made from a state with the property. -/
inductive PollsFrom (P : System φ → Prop) :
    System φ → List (Event φ × Polled) → List HistItem → System φ → Prop
  | nil (s : System φ) : PollsFrom P s [] [] s
  | cons {s s' s'' : System φ} {e : Event φ} {out : Polled} {es : List (Event φ × Polled)}
      {hist : List HistItem} : Step F dmIommu s e out s' → (e = .poll → P s) →
      PollsFrom P s' es hist s'' → PollsFrom P s ((e, out) :: es) (items s e out ++ hist) s''

end Fetched

section Links

theorem or_base_eq_null {x : BitVec 32} (h : x.setWidth 64 ||| MIPS_XKPHYS_UNCACHED_BASE = nullDesc) :
    x = 0 := by
  apply BitVec.eq_of_getLsbD_eq
  intro i hi
  have hBit := congrArg (·.getLsbD i) h
  have hClear : nullDesc.getLsbD i = false := by
    have hAll : ∀ j < 32, nullDesc.getLsbD j = false := by decide
    exact hAll i hi
  simp only [BitVec.getLsbD_or, BitVec.getLsbD_setWidth] at hBit
  rw [hClear, Bool.or_eq_false_iff, Bool.and_eq_false_iff] at hBit
  have hOf := hBit.1.resolve_left (by simp; omega)
  simpa using hOf

theorem bswap32_eq_zero {x : BitVec 32} (h : le32toh x = 0) : x = 0 := by
  have hTwice := congrArg bswap32 h
  rw [le32toh, bswap32_bswap32] at hTwice
  exact hTwice.trans (by decide)

theorem nextDesc_eq_null {d : MsgdmaDesc} : d.emulMsgdmaNextDesc = nullDesc ↔ d.next = 0 := by
  constructor
  · intro h
    exact bswap32_eq_zero (or_base_eq_null h)
  · intro h
    rw [MsgdmaDesc.emulMsgdmaNextDesc, h]
    decide

theorem pollEnableHead_ne_null {pf : MsgdmaPf} {head : Ptr} (h : pollEnableHead pf = some head) :
    head ≠ nullDesc := by
  unfold pollEnableHead at h
  split at h
  · cases h
  · next hHead =>
    cases h
    intro hNull
    exact hHead (or_base_eq_null hNull)

end Links

section Loop

variable {φ : Type} {F : Fifo φ} {dmIommu : Bool} {s s' : System φ} {txs : List Transaction}

theorem advance_eq_null :
    (advance (processed F dmIommu s) (transaction F dmIommu s)).sc.curDesc = nullDesc ↔
      (s.desc s.sc.curDesc).next = 0 := nextDesc_eq_null

theorem fetched_head (fuel : Nat) : s.sc.curDesc ∈ fetched F dmIommu (fuel + 1) s := by
  rw [fetched]
  exact List.mem_cons_self

theorem fetched_succ (hOwned : (s.desc s.sc.curDesc).Owned)
    (hDone : 0 < (transaction F dmIommu s).processed) (fuel : Nat) :
    fetched F dmIommu (fuel + 1) s = s.sc.curDesc ::
      fetched F dmIommu fuel (advance (processed F dmIommu s) (transaction F dmIommu s)) := by
  rw [fetched, if_neg (not_not.mpr hOwned)]
  dsimp only
  rw [if_neg (Int.not_le.mpr hDone), if_neg (advance_ne_zero _ _)]

theorem fetched_stop (h : ¬ ((s.desc s.sc.curDesc).Owned ∧ 0 < (transaction F dmIommu s).processed))
    (fuel : Nat) : fetched F dmIommu (fuel + 1) s = [s.sc.curDesc] := by
  rw [fetched]
  split
  · rfl
  · next hOwned =>
    dsimp only
    rw [if_pos (Int.not_lt.mp fun hDone => h ⟨not_not.mp hOwned, hDone⟩)]

/-- A loop that completes a descriptor with a null link goes on to read physical address 0. -/
theorem CompletesLast.fetches (h : CompletesLast F dmIommu s) :
    ∃ fuel, nullDesc ∈ fetched F dmIommu fuel s := by
  induction h with
  | last s hOwned hDone hLink =>
    refine ⟨2, ?_⟩
    rw [fetched_succ hOwned hDone]
    apply List.mem_cons_of_mem
    have hHead : (advance (processed F dmIommu s) (transaction F dmIommu s)).sc.curDesc ∈
        fetched F dmIommu 1 (advance (processed F dmIommu s) (transaction F dmIommu s)) :=
      fetched_head 0
    rwa [advance_eq_null.mpr hLink] at hHead
  | later s hOwned hDone _ ih =>
    obtain ⟨fuel, hMem⟩ := ih
    refine ⟨fuel + 1, ?_⟩
    rw [fetched_succ hOwned hDone]
    exact List.mem_cons_of_mem _ hMem

theorem not_mem_fetched (hLinks : ¬ CompletesLast F dmIommu s) (hCur : s.sc.curDesc ≠ nullDesc)
    (fuel : Nat) : nullDesc ∉ fetched F dmIommu fuel s := by
  induction fuel generalizing s with
  | zero => exact List.not_mem_nil
  | succ fuel ih =>
    by_cases hGoes : (s.desc s.sc.curDesc).Owned ∧ 0 < (transaction F dmIommu s).processed
    · rw [fetched_succ hGoes.1 hGoes.2, List.mem_cons]
      rintro (hNull | hMem)
      · exact hCur hNull.symm
      · refine ih (fun h => hLinks (.later s hGoes.1 hGoes.2 h)) ?_ hMem
        intro hNull
        exact hLinks (.last s hGoes.1 hGoes.2 (advance_eq_null.mp hNull))
    · rw [fetched_stop hGoes, List.mem_singleton]
      exact hCur.symm

/-- What a loop has done to descriptors, it has done to those it read. -/
theorem pollLoop_fetched {fuel : Nat} (h : pollLoop F dmIommu fuel s = some (txs, s')) :
    (∀ tx ∈ txs, tx.at_ ∈ fetched F dmIommu fuel s) ∧ s'.sc.curDesc ∈ fetched F dmIommu fuel s ∧
      ∀ p, p ∉ fetched F dmIommu fuel s → s'.desc p = s.desc p := by
  induction fuel generalizing s txs with
  | zero => cases h
  | succ fuel ih =>
    rcases pollLoop_cases h with ⟨-, rfl, rfl⟩ | ⟨-, -, rfl, rfl⟩ | ⟨hOwned, hDone, txs', hLoop, rfl⟩
    · exact ⟨by simp, fetched_head fuel, fun _ _ => rfl⟩
    · refine ⟨?_, fetched_head fuel, fun _ _ => rfl⟩
      intro tx hTx
      rw [List.mem_singleton.mp hTx]
      exact fetched_head fuel
    · obtain ⟨hTxs, hCur, hDesc⟩ := ih hLoop
      rw [fetched_succ hOwned hDone]
      refine ⟨?_, List.mem_cons_of_mem _ hCur, ?_⟩
      · rw [List.forall_mem_cons]
        exact ⟨List.mem_cons_self, fun tx hTx => List.mem_cons_of_mem _ (hTxs tx hTx)⟩
      · intro p hp
        rw [List.mem_cons, not_or] at hp
        rw [hDesc p hp.2]
        exact Function.update_of_ne hp.1 _ _

end Loop

section Runs

variable {φ : Type} {F : Fifo φ} {dmIommu : Bool} {s s' : System φ}
variable {es : List (Event φ × Polled)} {hist : List HistItem}

theorem emulMsgdmaPoll_fetched {fuel : Nat} {out : Polled}
    (h : emulMsgdmaPoll F dmIommu fuel s = some (out, s')) :
    (∀ tx ∈ out.txs, tx.at_ ∈ pollFetched F dmIommu fuel s) ∧
      ∀ p, p ∉ pollFetched F dmIommu fuel s → s'.desc p = s.desc p := by
  cases hEn : s.sc.pollEn with
  | false =>
    obtain ⟨rfl, rfl⟩ := (emulMsgdmaPoll_spec h).disabled hEn
    exact ⟨by simp, fun _ _ => rfl⟩
  | true =>
    rw [emulMsgdmaPoll, if_neg (by simp [hEn])] at h
    obtain ⟨r, hLoop, hEq⟩ := Option.map_eq_some_iff.mp h
    obtain ⟨rfl, rfl⟩ := Prod.mk.inj hEq
    obtain ⟨hTxs, -, hDesc⟩ := pollLoop_fetched hLoop
    have hFetched : pollFetched F dmIommu fuel s = fetched F dmIommu fuel s := if_neg (by simp [hEn])
    rw [hFetched]
    exact ⟨hTxs, hDesc⟩

theorem SparesNull.of_reads (h : ∀ fuel, nullDesc ∉ pollFetched F dmIommu fuel s) :
    SparesNull F dmIommu s where
  reads := h
  transfers fuel out s' hPoll tx hTx := by
    intro hNull
    have hMem := (emulMsgdmaPoll_fetched hPoll).1 tx hTx
    rw [hNull] at hMem
    exact h fuel hMem
  writesBack fuel out s' hPoll := (emulMsgdmaPoll_fetched hPoll).2 _ (h fuel)

theorem SparesNull.not_completes (h : SparesNull F dmIommu s) (hOn : s.sc.pollEn = true) :
    ¬ CompletesLast F dmIommu s := by
  intro hLast
  obtain ⟨fuel, hMem⟩ := hLast.fetches
  apply h.reads fuel
  rwa [pollFetched, if_neg (by simp [hOn])]

def Away (s : System φ) : Prop := s.sc.pollEn = true → s.sc.curDesc ≠ nullDesc

theorem Away.sparesNull (h : Away s) (hLinks : s.sc.pollEn = true → ¬ CompletesLast F dmIommu s) :
    SparesNull F dmIommu s := by
  apply SparesNull.of_reads
  intro fuel
  cases hEn : s.sc.pollEn with
  | false => simp [pollFetched, hEn]
  | true =>
    rw [pollFetched, if_neg (by simp [hEn])]
    exact not_mem_fetched (hLinks hEn) (h hEn) fuel

theorem enabledBy_ne_null {sc : MsgdmaSoftc} {elink : EmulLink} {req : EpwRequest}
    {junk : BitVec 64} {head : Ptr} (h : enabledBy sc elink req junk = some head) :
    head ≠ nullDesc := by
  unfold enabledBy at h
  split at h
  · next hEnabled =>
    have hHead : pollEnableHead sc.pf = some head := by
      rw [pollEnableHead, if_neg hEnabled.2.2.2.2]
      exact h
    exact pollEnableHead_ne_null hHead
  · cases h

theorem Away.poll (h : Away s) (hLinks : s.sc.pollEn = true → ¬ CompletesLast F dmIommu s)
    {fuel : Nat} {out : Polled} (hPoll : emulMsgdmaPoll F dmIommu fuel s = some (out, s')) :
    Away s' := by
  cases hEn : s.sc.pollEn with
  | false =>
    rw [((emulMsgdmaPoll_spec hPoll).disabled hEn).2]
    exact h
  | true =>
    rintro - hNull
    rw [emulMsgdmaPoll, if_neg (by simp [hEn])] at hPoll
    obtain ⟨r, hLoop, hEq⟩ := Option.map_eq_some_iff.mp hPoll
    obtain ⟨-, rfl⟩ := Prod.mk.inj hEq
    have hMem := (pollLoop_fetched hLoop).2.1
    rw [hNull] at hMem
    exact not_mem_fetched (hLinks hEn) (h hEn) fuel hMem

theorem Away.step {e : Event φ} {out : Polled} (h : Away s)
    (hLinks : e = .poll → s.sc.pollEn = true → ¬ CompletesLast F dmIommu s)
    (hStep : Step F dmIommu s e out s') : Away s' := by
  cases hStep with
  | request elink req junk =>
    rcases emulMsgdma_polling s.sc elink req junk with ⟨head, hHead, hSame⟩ | ⟨-, hSame⟩
    · intro _
      show (emulMsgdma s.sc elink req junk).2.curDesc ≠ nullDesc
      rw [hSame.curDesc]
      exact enabledBy_ne_null hHead
    · intro hOn
      show (emulMsgdma s.sc elink req junk).2.curDesc ≠ nullDesc
      rw [hSame.curDesc]
      exact h (hSame.pollEn ▸ hOn)
  | handOver p d | store a b | arrive fifo => exact h
  | poll fuel hPoll => exact h.poll (hLinks rfl) hPoll

theorem PollsFrom.imp {P Q : System φ → Prop} (hPQ : ∀ s, P s → Q s)
    (h : PollsFrom F dmIommu P s es hist s') : PollsFrom F dmIommu Q s es hist s' := by
  induction h with
  | nil s => exact .nil s
  | cons hStep hAt _ ih => exact .cons hStep (fun hPoll => hPQ _ (hAt hPoll)) ih

theorem PollsFrom.sparesNull (hAway : Away s)
    (h : PollsFrom F dmIommu (fun s => s.sc.pollEn = true → ¬ CompletesLast F dmIommu s) s es hist s') :
    PollsFrom F dmIommu (SparesNull F dmIommu) s es hist s' := by
  induction h with
  | nil s => exact .nil s
  | cons hStep hAt _ ih =>
    exact .cons hStep (fun hPoll => hAway.sparesNull (hAt hPoll)) (ih (hAway.step hAt hStep))

/-- Over a run that starts before polling is first enabled, no poll reads, transfers or writes
back a descriptor at physical address 0 exactly when no poll completes one with a null link. -/
theorem pollsFrom_sparesNull_iff (hOff : s.sc.pollEn = false) :
    PollsFrom F dmIommu (SparesNull F dmIommu) s es hist s' ↔
      PollsFrom F dmIommu (fun s => s.sc.pollEn = true → ¬ CompletesLast F dmIommu s) s es hist s' := by
  constructor
  · intro h
    exact h.imp fun _ hSpares hOn => hSpares.not_completes hOn
  · intro h
    exact h.sparesNull (fun hOn => absurd (hOff.symm.trans hOn) (by decide))

end Runs

section Examples

def linkedDesc : MsgdmaDesc := ⟨0, 0, 0, htole32 0x2000, 0, htole32 CONTROL_OWN, 0, 0⟩

def linkedUnit : System Unit := { idleUnit with desc := Function.update idleUnit.desc head linkedDesc }

theorem pollsFrom_sparesNull_iff_linked : ∃ es hist s',
    PollsFrom byteFifo false (SparesNull byteFifo false) linkedUnit es hist s' ∧
      es.countP (fun x => x.2.txs.length = 1) = 1 := by
  obtain ⟨s, hS⟩ : ∃ s, s = { linkedUnit with sc := (emulMsgdma
      (emulMsgdma linkedUnit.sc msgdma0Pf (pfWrite PF_NEXT_LO 0x1000) 0).2
      msgdma0Pf (pfWrite PF_POLL_FREQ 1) 0).2 } := ⟨_, rfl⟩
  have hCur : s.sc.curDesc = head := by
    rw [hS]
    decide
  have hLinks : ¬ CompletesLast byteFifo false s := by
    intro h
    cases h with
    | last _ hOwned hDone hLink =>
      rw [hCur, hS] at hLink
      revert hLink
      decide
    | later _ hOwned hDone hRest =>
      have hFree : ¬ ((advance (processed byteFifo false s) (transaction byteFifo false s)).desc
          (advance (processed byteFifo false s) (transaction byteFifo false s)).sc.curDesc).Owned := by
        rw [hS]
        decide
      cases hRest with
      | last _ hOwned | later _ hOwned => exact hFree hOwned
  obtain ⟨r, hPoll, hTxs⟩ : ∃ r, emulMsgdmaPoll byteFifo false 2 s = some r ∧ r.1.txs.length = 1 := by
    subst hS
    exact ⟨_, rfl, rfl⟩
  have hStep : Step byteFifo false s .poll r.1 r.2 := .poll 2 hPoll
  refine ⟨_, _, _, (pollsFrom_sparesNull_iff rfl).mpr
    (.cons (.request linkedUnit msgdma0Pf (pfWrite PF_NEXT_LO 0x1000) 0) (by simp)
      (.cons (.request _ msgdma0Pf (pfWrite PF_POLL_FREQ 1) 0) (by simp)
        (.cons (hS ▸ hStep) (fun _ _ => hS ▸ hLinks) (.nil _)))), ?_⟩
  simp [hTxs]

/-- The chain of one descriptor with a null link is followed to physical address 0. -/
theorem null_link_followed : ¬ ∀ (s s' : System Unit) (es : List (Event Unit × Polled))
    (hist : List HistItem), s.sc.pollEn = false → Run byteFifo false s es hist s' →
    SparesNull byteFifo false s' := by
  intro hAll
  obtain ⟨es, hist, hRun, -⟩ := run_polling
  have hSpares := hAll _ _ _ _ rfl hRun
  apply hSpares.reads 2
  decide

end Examples

end DeviceModel.Msgdma

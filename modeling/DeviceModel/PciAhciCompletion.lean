import DeviceModel.PciAhciInterrupt
import DeviceModel.PciAhciSlots

/-!
# The AHCI controller: completion of commands

A port that sends its FISes to the guest follows the end of a command by the final FIS of the
command, and sends no such FIS otherwise. An error stops it from issuing commands until it is
no longer processing the list and nothing is in flight. With the phases of the slots, every
command that is issued ends once, by a final FIS or by a cancellation.
-/

set_option autoImplicit false

namespace DeviceModel.PciAhci

open Fallible BlockIf PciEmul

/-- A register FIS that interrupts, and a FIS that sets device bits, end a command. -/
def Final (ft : SataFisType) (fis : List (BitVec 8)) : Prop :=
  ft = .setDevBits ∨ ft = .regD2h ∧ fis.getD 1 0 &&& 0x40 ≠ 0

instance (ft : SataFisType) (fis : List (BitVec 8)) : Decidable (Final ft fis) :=
  inferInstanceAs (Decidable (_ ∨ _ ∧ _))

/-- The registers after a command has ended: nothing is cleared after an error. -/
def Outstanding.ended (o : Outstanding) (slot : Slot) (queued error : Bool) : Outstanding :=
  if error then o
  else if queued then { o with sact := o.sact &&& ~~~bit slot }
  else { o with ci := o.ci &&& ~~~bit slot }

def Outstanding.accepted (o : Outstanding) (slot : Slot) : Outstanding :=
  { o with ci := o.ci &&& ~~~bit slot }

/-- What a port owes the guest before anything else: that a queued command is accepted, or the
final FIS of a command, queued or not. -/
inductive Owed where
  | nothing
  | acceptance (slot : Slot)
  | final (queued : Bool)
deriving DecidableEq

/-- What a port owes the guest, and whether an error keeps it from issuing commands. -/
structure Ending where
  owed : Owed
  latched : Bool
deriving DecidableEq

def Ending.next (m : Ending) (e : PortEvent) : Option Ending :=
  match m.owed, e with
  | .final queued, .fis ft fis =>
    if Final ft fis ∧ ft = (if queued then .setDevBits else .regD2h) then
      some { m with owed := .nothing }
    else none
  | .final _, _ => none
  | .acceptance slot, .accept slot' before after =>
    if slot' = slot ∧ after = before.accepted slot then some { m with owed := .nothing } else none
  | .acceptance slot, .request slot' | .acceptance slot, .empty slot' =>
    if slot' = slot then some m else none
  | .acceptance _, _ => none
  | .nothing, .fis ft fis => if Final ft fis then none else some m
  | .nothing, .issue slot _ queued =>
    if m.latched then none
    else some { m with owed := if queued then .acceptance slot else .nothing }
  | .nothing, .answer slot queued error before after =>
    if after = before.ended slot queued error then some ⟨.final queued, m.latched || error⟩ else none
  | .nothing, .accept slot before after => if after = before.accepted slot then some m else none
  | .nothing, .stopped cmd pending =>
    if cmd &&& AHCI_P_CMD_ST = 0 ∧ pending = 0 then some { m with latched := false } else none
  | .nothing, .request _ | .nothing, .served _ _ | .nothing, .empty _ | .nothing, .cancel _ => some m

namespace AhciPort

/-- The guest has set `PxCMD.FRE`, bit 4. -/
def Fre (p : AhciPort) : Prop := p.cmd.getLsbD 4 = true

def Listens (p : AhciPort) : Prop := p.Fre ∧ p.rfis.isSome

/-- What is recorded from `p` to `q` is in its place, if the port owes `m` before and `m'` after. -/
def Told (m m' : Owed) (p q : AhciPort) : Prop :=
  ∃ trace, q.trace = p.trace ++ trace ∧
    trace.foldlM Ending.next ⟨m, p.waitforclear⟩ = some ⟨m', q.waitforclear⟩

/-- A function that neither sets nor clears `PxCMD.FRE`. -/
structure FollowsFrom (m m' : Owed) (p q : AhciPort) : Prop where
  fre : q.Fre ↔ p.Fre
  rfis : q.rfis = p.rfis
  told : p.Listens → Told m m' p q

abbrev Follows (p q : AhciPort) : Prop := FollowsFrom .nothing .nothing p q

variable {m m' m'' : Owed} {p q r : AhciPort}

theorem Told.refl (m : Owed) (p : AhciPort) : Told m m p p := ⟨[], (List.append_nil _).symm, rfl⟩

theorem Told.trans (h : Told m m' p q) (h' : Told m' m'' q r) : Told m m'' p r := by
  obtain ⟨trace, hTrace, hEnd⟩ := h
  obtain ⟨trace', hTrace', hEnd'⟩ := h'
  refine ⟨trace ++ trace', by rw [hTrace', hTrace, List.append_assoc], ?_⟩
  rw [List.foldlM_append, hEnd]
  exact hEnd'

theorem FollowsFrom.refl (m : Owed) (p : AhciPort) : FollowsFrom m m p p :=
  ⟨Iff.rfl, rfl, fun _ => Told.refl m p⟩

theorem FollowsFrom.listens (h : FollowsFrom m m' p q) (hListens : p.Listens) : q.Listens :=
  ⟨h.fre.mpr hListens.1, by rw [h.rfis]; exact hListens.2⟩

theorem FollowsFrom.trans (h : FollowsFrom m m' p q) (h' : FollowsFrom m' m'' q r) :
    FollowsFrom m m'' p r where
  fre := h'.fre.trans h.fre
  rfis := h'.rfis.trans h.rfis
  told hListens := (h.told hListens).trans (h'.told (h.listens hListens))

structure Mute (p q : AhciPort) : Prop where
  cmd : q.cmd = p.cmd
  rfis : q.rfis = p.rfis
  waitforclear : q.waitforclear = p.waitforclear
  trace : q.trace = p.trace

theorem Mute.follows (h : Mute p q) (m : Owed) : FollowsFrom m m p q :=
  ⟨by rw [Fre, Fre, h.cmd], h.rfis,
    fun _ => ⟨[], by rw [h.trace, List.append_nil], by rw [h.waitforclear]; rfl⟩⟩

theorem FollowsFrom.of_event {e : PortEvent} (hCmd : q.cmd = p.cmd) (hRfis : q.rfis = p.rfis)
    (hWait : q.waitforclear = p.waitforclear) (hTrace : q.trace = p.trace ++ [e])
    (hNext : Ending.next ⟨m, p.waitforclear⟩ e = some ⟨m', p.waitforclear⟩) :
    FollowsFrom m m' p q := by
  refine ⟨by rw [Fre, Fre, hCmd], hRfis, fun _ => ⟨[e], hTrace, ?_⟩⟩
  rw [hWait, List.foldlM_cons, hNext]
  rfl

end AhciPort

theorem getLsbD_fre (cmd : BitVec 32) : cmd.getLsbD 4 = true ↔ cmd &&& AHCI_P_CMD_FRE ≠ 0 := by
  refine ⟨fun hFre hZero => ?_, fun h => @getLsbD_of_and_bit _ 4 h⟩
  have hBit := congrArg (BitVec.getLsbD · 4) hZero
  rw [BitVec.getLsbD_and, hFre] at hBit
  exact absurd hBit (by decide)

theorem fre_iff {p : AhciPort} : p.Fre ↔ p.cmd &&& AHCI_P_CMD_FRE ≠ 0 := getLsbD_fre p.cmd

namespace Port

/-- A function of the port that neither sets nor clears `PxCMD.FRE`. -/
def FollowsFrom (m m' : Owed) (s t : Port) : Prop := s.p.FollowsFrom m m' t.p

abbrev Follows (s t : Port) : Prop := FollowsFrom .nothing .nothing s t

open AhciPort (Mute)
open AhciPort.FollowsFrom (of_event)

theorem FollowsFrom.andThen {m m' m'' : Owed} {s t : Port} {x : Except Fault Port}
    (h : FollowsFrom m m' s t) (hx : Yields (fun _ => True) (FollowsFrom m' m'' t) x) :
    Yields (fun _ => True) (FollowsFrom m m'' s) x :=
  hx.imp fun _ _ hu => AhciPort.FollowsFrom.trans h hu

section Fis

variable (s : Port) (slot : Slot) (cfis : BitVec 64)

/-- What a FIS does to a port, if it reaches the guest. -/
theorem ahciWriteFis_effect (ft : SataFisType) (fis : List (BitVec 8)) : Yields (fun _ => True)
    (fun t => t.p.cmd = s.p.cmd ∧ t.p.rfis = s.p.rfis ∧ (s.p.Listens → ∀ offset len ix,
      fisLayout ft = some (offset, len, ix) →
        t.p.trace = s.p.trace ++ [.fis ft (fis.take len)] ∧
        t.p.waitforclear = (s.p.waitforclear || fisError (fis.take len)))) (s.ahciWriteFis ft fis) := by
  unfold ahciWriteFis
  split
  · next rfis offset len ix hRfis hLayout =>
    split
    · next hOff => exact ⟨rfl, rfl, fun hListens => absurd hOff (fre_iff.mp hListens.1)⟩
    · have hStored : s.p.Listens → ∀ offset' len' ix', fisLayout ft = some (offset', len', ix') →
          (s.storeFis ft (rfis + BitVec.ofNat 64 offset) (fis.take len)).p.trace =
            s.p.trace ++ [.fis ft (fis.take len')] ∧
          (s.storeFis ft (rfis + BitVec.ofNat 64 offset) (fis.take len)).p.waitforclear =
            (s.p.waitforclear || fisError (fis.take len')) := by
        intro _ offset' len' ix' hLayout'
        obtain ⟨-, rfl, -⟩ := Prod.mk.injEq .. ▸ Option.some.inj (hLayout.symm.trans hLayout')
        exact ⟨rfl, rfl⟩
      refine Yields.ite ⟨rfl, rfl, hStored⟩ ((ahciPortIntr_port _).imp fun u _ hu => ?_)
      rw [hu]
      exact ⟨rfl, rfl, hStored⟩
  · next hNone =>
    refine ⟨rfl, rfl, fun hListens offset len ix hLayout => ?_⟩
    obtain ⟨rfis, hRfis⟩ := Option.isSome_iff_exists.mp hListens.2
    exact absurd hLayout (hNone rfis offset len ix hRfis)

theorem ahciWriteFis_follows {ft : SataFisType} {fis : List (BitVec 8)}
    (hFinal : ∀ offset len ix, fisLayout ft = some (offset, len, ix) →
      ¬ Final ft (fis.take len) ∧ fisError (fis.take len) = false) :
    Yields (fun _ => True) (Follows s) (s.ahciWriteFis ft fis) := by
  cases hLayout : fisLayout ft with
  | none =>
    unfold ahciWriteFis
    rw [hLayout]
    cases s.p.rfis <;> exact AhciPort.FollowsFrom.refl _ s.p
  | some layout =>
    obtain ⟨offset, len, ix⟩ := layout
    obtain ⟨hNot, hError⟩ := hFinal offset len ix hLayout
    refine (ahciWriteFis_effect s ft fis).imp fun t _ ht => ?_
    obtain ⟨hCmd, hRfis, hEffect⟩ := ht
    refine ⟨by rw [AhciPort.Fre, AhciPort.Fre, hCmd], hRfis, fun hListens => ?_⟩
    obtain ⟨hTrace, hWait⟩ := hEffect hListens offset len ix hLayout
    refine ⟨_, hTrace, ?_⟩
    rw [hError, Bool.or_false] at hWait
    simp [Ending.next, hNot, hWait]

theorem answer_follows {p : AhciPort} (hMute : Mute s.p p) {queued error : Bool}
    (hEnded : ⟨p.ci, p.sact⟩ = s.outstanding.ended slot queued error) {ft : SataFisType}
    {fis : List (BitVec 8)} {offset len : Nat} {ix : BitVec 32}
    (hLayout : fisLayout ft = some (offset, len, ix))
    (hType : ft = if queued then .setDevBits else .regD2h) (hFinal : Final ft (fis.take len))
    (hError : fisError (fis.take len) = error) :
    Yields (fun _ => True) (Follows s)
      (Port.ahciWriteFis (Port.log { s with p := p }
        (.answer slot queued error s.outstanding ⟨p.ci, p.sact⟩)) ft fis) := by
  refine (ahciWriteFis_effect _ ft fis).imp fun t _ ht => ?_
  obtain ⟨hCmd, hRfis, hWait, hTrace⟩ := hMute
  obtain ⟨hCmd', hRfis', hEffect⟩ := ht
  have hCmd'' : t.p.cmd = s.p.cmd := hCmd'.trans hCmd
  refine ⟨by rw [AhciPort.Fre, AhciPort.Fre, hCmd''], hRfis'.trans hRfis, fun hListens => ?_⟩
  have hListens' : p.Listens :=
    ⟨by rw [AhciPort.Fre, hCmd]; exact hListens.1, by rw [hRfis]; exact hListens.2⟩
  obtain ⟨hTrace', hWait'⟩ := hEffect hListens' offset len ix hLayout
  have hTrace'' : t.p.trace = s.p.trace ++
      [.answer slot queued error s.outstanding ⟨p.ci, p.sact⟩, .fis ft (fis.take len)] := by
    rw [hTrace', log, hTrace, List.append_assoc]
    rfl
  have hWait'' : t.p.waitforclear = (s.p.waitforclear || error) := by
    rw [hWait', hError, log, hWait]
  have hAnswer : Ending.next ⟨.nothing, s.p.waitforclear⟩
      (.answer slot queued error s.outstanding ⟨p.ci, p.sact⟩) =
      some ⟨.final queued, s.p.waitforclear || error⟩ := if_pos hEnded
  have hFis : Ending.next ⟨.final queued, s.p.waitforclear || error⟩ (.fis ft (fis.take len)) =
      some ⟨.nothing, s.p.waitforclear || error⟩ := if_pos ⟨hFinal, hType⟩
  refine ⟨_, hTrace'', ?_⟩
  rw [hWait'', List.foldlM_cons, hAnswer]
  exact congrArg (· >>= pure) hFis

theorem and_error (tfd : BitVec 32) :
    (tfd.setWidth 8).setWidth 32 &&& ATA_S_ERROR = tfd &&& ATA_S_ERROR := by
  refine BitVec.eq_of_toNat_eq ?_
  have hOne : ATA_S_ERROR.toNat = 1 := rfl
  rw [BitVec.toNat_and, BitVec.toNat_and, hOne, Nat.and_one_is_mod, Nat.and_one_is_mod,
    BitVec.toNat_setWidth, BitVec.toNat_setWidth]
  omega

/-- A FIS shows the error of the status that it carries. -/
theorem fisError_of_status (a b : BitVec 8) (tfd : BitVec 32) (rest : List (BitVec 8)) :
    fisError (a :: b :: tfd.setWidth 8 :: rest) = decide (tfd &&& ATA_S_ERROR ≠ 0) := by
  rw [← and_error]
  rfl

theorem ahciWriteFisSdb_follows (tfd : BitVec 32) :
    Yields (fun _ => True) (Follows s) (s.ahciWriteFisSdb slot cfis tfd) := by
  refine answer_follows s slot ?_ ?_ rfl rfl (.inl rfl) (fisError_of_status _ _ (tfd &&& 0x77) _)
  · dsimp only
    split <;> exact ⟨rfl, rfl, rfl, rfl⟩
  · dsimp only
    split
    · next hFailed => exact (if_pos (decide_eq_true hFailed)).symm
    · next hDone => exact (if_neg (by rw [decide_eq_false hDone]; decide)).symm

theorem ahciWriteFisD2h_follows (tfd : BitVec 32) :
    Yields (fun _ => True) (Follows s) (s.ahciWriteFisD2h slot cfis tfd) := by
  have hInterrupt : (0x40 : BitVec 8) &&& 0x40 ≠ 0 := by decide
  refine answer_follows s slot ?_ ?_ rfl rfl (.inr ⟨rfl, hInterrupt⟩) (fisError_of_status _ _ tfd _)
  · dsimp only
    split <;> exact ⟨rfl, rfl, rfl, rfl⟩
  · dsimp only
    split
    · next hFailed => exact (if_pos (decide_eq_true hFailed)).symm
    · next hDone => exact (if_neg (by rw [decide_eq_false hDone]; decide)).symm

theorem fisLayout_regD2h {offset len : Nat} {ix : BitVec 32}
    (h : fisLayout .regD2h = some (offset, len, ix)) : len = 20 := by
  obtain ⟨-, rfl, -⟩ := Prod.mk.injEq .. ▸ Option.some.inj h
  rfl

/-- A queued command is accepted, whether that is owed or not. -/
theorem ahciWriteFisD2hNcq_follows {m : Owed} (hOwed : m = .nothing ∨ m = .acceptance slot) :
    Yields (fun _ => True) (FollowsFrom m .nothing s) (s.ahciWriteFisD2hNcq slot) := by
  have hPlain : let fis := FIS_TYPE_REGD2H :: 0 :: (ATA_S_READY ||| ATA_S_DSC).setWidth 8 ::
      List.replicate 17 0
    ¬ Final .regD2h (fis.take 20) ∧ fisError (fis.take 20) = false := by decide
  have hAccept : Ending.next ⟨m, s.p.waitforclear⟩
      (.accept slot s.outstanding ⟨s.p.ci &&& ~~~bit slot, s.p.sact⟩) =
      some ⟨.nothing, s.p.waitforclear⟩ := by
    obtain rfl | rfl := hOwed
    · exact if_pos rfl
    · exact if_pos ⟨rfl, rfl⟩
  unfold ahciWriteFisD2hNcq
  refine FollowsFrom.andThen ?_ (ahciWriteFis_follows _ fun offset len ix hLayout => ?_)
  · exact of_event rfl rfl rfl rfl hAccept
  · obtain rfl := fisLayout_regD2h hLayout
    exact hPlain

theorem ahciWriteResetFisD2h_follows : Yields (fun _ => True) (Follows s) s.ahciWriteResetFisD2h := by
  refine ahciWriteFis_follows _ fun offset len ix hLayout => ?_
  obtain rfl := fisLayout_regD2h hLayout
  exact ⟨by decide, by decide⟩

theorem ahciWriteFisPiosetup_follows : Yields (fun _ => True) (Follows s) s.ahciWriteFisPiosetup := by
  refine ahciWriteFis_follows _ fun offset len ix hLayout => ?_
  obtain ⟨-, rfl, -⟩ := Prod.mk.injEq .. ▸ Option.some.inj hLayout
  exact ⟨by decide, by decide⟩

theorem ahciCheckStopped_follows : Follows s s.ahciCheckStopped := by
  unfold ahciCheckStopped
  split
  · next hStop =>
    have hFre : (s.p.cmd &&& ~~~(AHCI_P_CMD_CR ||| AHCI_P_CMD_CCS_MASK)).getLsbD 4 =
        s.p.cmd.getLsbD 4 := bit_and (by decide)
    have hNext : Ending.next ⟨.nothing, s.p.waitforclear⟩ (.stopped s.p.cmd s.p.pending) =
        some ⟨.nothing, false⟩ := if_pos hStop
    refine ⟨iff_of_eq (congrArg (· = true) hFre), rfl, fun _ => ⟨[_], rfl, ?_⟩⟩
    rw [List.foldlM_cons, hNext]
    rfl
  · exact AhciPort.FollowsFrom.refl _ _

end Fis

theorem onDisk_follows (s : Port) {α : Type} (f : Disk IoreqId → Except Fault (α × Disk IoreqId)) :
    Yields (fun _ => True) (fun r => Follows s r.2) (s.onDisk f) := by
  refine (assertThat_yields fun _ => trivial).bind fun _ _ _ => (yields_true _).bind ?_
  rintro ⟨a, d⟩ - -
  refine Mute.follows ?_ _
  exact ⟨rfl, rfl, rfl, rfl⟩

theorem follows_shared : Shared Follows where
  refl s := AhciPort.FollowsFrom.refl _ s.p
  trans := AhciPort.FollowsFrom.trans
  quiet h := ⟨by rw [AhciPort.Fre, AhciPort.Fre, h.fre], h.rfis,
    fun _ => ⟨[], by rw [h.trace, List.append_nil], by rw [h.waitforclear]; rfl⟩⟩
  served _ _ _ := of_event rfl rfl rfl rfl rfl
  cancelled _ _ := of_event rfl rfl rfl rfl rfl
  checkStopped := ahciCheckStopped_follows
  sdb := ahciWriteFisSdb_follows
  d2h := ahciWriteFisD2h_follows
  resetFis := ahciWriteResetFisD2h_follows
  cancel s aior := onDisk_follows s _

section Commands

variable (s : Port) (slot : Slot) (cfis : BitVec 64) {m : Owed}

theorem handOver_follows (op : BlockOp) (aior : IoreqId) :
    Yields (fun _ => True) (Follows s) (s.handOver op aior) :=
  (onDisk_follows s _).bind fun _ _ hr => (assertThat_yields fun _ => trivial).bind fun _ _ _ => hr

theorem sendOut_follows (op : BlockOp) {accept : Bool} (aior : IoreqId) (io : AhciIoreq)
    (breq : BlockifReq) (hOwed : m = .nothing ∨ m = .acceptance io.slot ∧ accept = true) :
    Yields (fun _ => True) (FollowsFrom m .nothing s) (s.sendOut op accept aior io breq) := by
  have hRequest : FollowsFrom m m s (s.pushIoreq aior io breq) := by
    refine of_event (e := .request io.slot) rfl rfl rfl rfl ?_
    obtain rfl | ⟨rfl, -⟩ := hOwed
    · rfl
    · exact if_pos rfl
  refine hRequest.andThen (Yields.bind (P := FollowsFrom m .nothing _) ?_ fun t _ ht =>
    FollowsFrom.andThen ht (handOver_follows t op aior))
  split
  · exact ahciWriteFisD2hNcq_follows _ _ (hOwed.imp_right And.left)
  · next hPlain =>
    obtain rfl := hOwed.resolve_right fun hBoth => hPlain hBoth.2
    exact AhciPort.FollowsFrom.refl _ _

theorem pullIoreq_follows (m : Owed) :
    Yields (fun _ => True) (fun r => FollowsFrom m m s r.2) s.pullIoreq := by
  unfold pullIoreq
  split
  · trivial
  · refine Mute.follows ?_ m
    exact ⟨rfl, rfl, rfl, rfl⟩

theorem ahciHandleRw_follows (done : Nat)
    (hOwed : m = .nothing ∨ m = .acceptance slot ∧ s.cfisByte cfis 2 ∈ rwCmdsQueued ∧ done = 0) :
    Yields (fun _ => True) (FollowsFrom m .nothing s) (s.ahciHandleRw slot cfis done) := by
  unfold ahciHandleRw
  refine (yields_true _).bind fun sectsz _ _ => (pullIoreq_follows s m).bind fun r _ hPull => ?_
  refine (yields_true _).bind fun b _ _ => hPull.andThen (sendOut_follows _ _ _ _ _ ?_)
  exact hOwed.imp_right fun hBoth => ⟨hBoth.1, decide_eq_true hBoth.2⟩

theorem ahciHandleFlush_follows : Yields (fun _ => True) (Follows s) (s.ahciHandleFlush slot cfis) :=
  (pullIoreq_follows s _).bind fun _ _ hPull =>
    FollowsFrom.andThen hPull (sendOut_follows _ _ _ _ _ (.inl rfl))

theorem ahciHandleDsmTrim_follows (done : Nat) (hOwed : m = .nothing ∨
      m = .acceptance slot ∧ s.cfisByte cfis 2 ≠ ATA_DATA_SET_MANAGEMENT ∧ done = 0) :
    Yields (fun _ => True) (fun r => FollowsFrom m .nothing s r.2)
      (s.ahciHandleDsmTrim slot cfis done) := by
  unfold ahciHandleDsmTrim
  refine (yields_true _).bind fun r _ _ => ?_
  dsimp only
  split
  · have hEmpty : FollowsFrom m m s (s.log (.empty slot)) := by
      refine of_event (e := .empty slot) rfl rfl rfl rfl ?_
      obtain rfl | ⟨rfl, -⟩ := hOwed
      · rfl
      · exact if_pos rfl
    refine Yields.bind (P := FollowsFrom m .nothing s) (hEmpty.andThen ?_) fun t _ ht => ?_
    · split
      · exact ahciWriteFisD2hNcq_follows _ _ (hOwed.imp_right And.left)
      · next hPlain =>
        obtain rfl := hOwed.resolve_right fun hBoth => hPlain hBoth.2
        exact AhciPort.FollowsFrom.refl _ _
    · refine (ht.andThen (Yields.ite (ahciWriteFisSdb_follows _ _ _ _)
        (ahciWriteFisD2h_follows _ _ _ _))).bind fun u _ hu => ?_
      exact AhciPort.FollowsFrom.trans hu (follows_shared.settle u slot)
  · refine (pullIoreq_follows s m).bind fun r _ hPull => (yields_true _).bind fun sectsz _ _ => ?_
    refine (hPull.andThen (sendOut_follows _ _ _ _ _ ?_)).bind fun u _ hu => hu
    exact hOwed.imp_right fun hBoth => ⟨hBoth.1, decide_eq_true hBoth.2⟩

theorem dataIn_follows (pio : Bool) (buf : List (BitVec 8)) :
    Yields (fun _ => True) (Follows s) (s.dataIn slot cfis pio buf) := by
  refine follows_shared.andThen (Yields.ite (ahciWriteFisPiosetup_follows _) (follows_shared.ok _))
    fun t => follows_shared.step (Mute.follows ⟨rfl, rfl, rfl, rfl⟩ _) (ahciWriteFisD2h_follows _ _ _ _)

theorem issued_follows (hGo : s.p.waitforclear = false) {m : Owed}
    (hOwed : m = if s.IsQueued cfis then .acceptance slot else .nothing) :
    FollowsFrom .nothing m s (s.issued slot cfis) := by
  refine of_event rfl rfl rfl rfl ?_
  rw [hGo, hOwed]
  by_cases hQueued : s.IsQueued cfis
  · simp [Ending.next, hQueued]
  · simp [Ending.next, hQueued]

theorem ahciHandleCmd_follows (hGo : s.p.waitforclear = false) :
    Yields (fun _ => True) (Follows s) (s.ahciHandleCmd slot cfis) := by
  have hIssued := issued_follows s slot cfis hGo rfl
  have hPlain : ¬ s.IsQueued cfis → Follows s (s.issued slot cfis) := fun hNot =>
    issued_follows s slot cfis hGo (if_neg hNot).symm
  have hNotRw : ¬ s.IsBlock cfis → s.cfisByte cfis 2 ∉ rwCmdsQueued := fun hBlock hMem =>
    hBlock (.inl (List.mem_append_right _ hMem))
  have hNone : ¬ s.IsBlock cfis → ¬ s.IsTrim cfis → Follows s (s.issued slot cfis) :=
    fun hBlock hTrim => hPlain (not_or.mpr ⟨hNotRw hBlock, fun hBoth => hTrim hBoth.1⟩)
  refine ahciHandleCmd_rule (fun hBlock hTrim _ _ _ _ _ => ?_) (fun hBlock hTrim _ _ => ?_)
    (fun _ => trivial) (fun hRw => ?_) (fun hFlush => ?_) fun hBlock hTrim => ?_
  · refine @FollowsFrom.andThen _ .nothing _ _ _ _ ?_ (ahciWriteFisD2h_follows _ _ _ _)
    refine AhciPort.FollowsFrom.trans (hNone hBlock hTrim) (Mute.follows ?_ _)
    exact ⟨rfl, rfl, rfl, rfl⟩
  · exact (hNone hBlock hTrim).andThen (dataIn_follows _ _ _ _ _)
  · refine hIssued.andThen (ahciHandleRw_follows _ _ _ _ ?_)
    split
    · next hQueued =>
      refine .inr ⟨rfl, hQueued.resolve_right ?_, rfl⟩
      have hOther : ∀ c ∈ rwCmds ++ rwCmds48 ++ rwCmdsQueued,
          c ≠ ATA_DATA_SET_MANAGEMENT ∧ c ≠ ATA_SEND_FPDMA_QUEUED := by decide
      obtain ⟨hDsm, hSend⟩ := hOther _ hRw
      rintro ⟨⟨hCmd, -⟩ | ⟨hCmd, -⟩, -⟩
      · exact hDsm hCmd
      · exact hSend hCmd
    · exact .inl rfl
  · refine (hPlain ?_).andThen (ahciHandleFlush_follows _ _ _)
    have hOther : ∀ c ∈ [ATA_FLUSHCACHE, ATA_FLUSHCACHE48],
        c ∉ rwCmdsQueued ∧ c ≠ ATA_DATA_SET_MANAGEMENT ∧ c ≠ ATA_SEND_FPDMA_QUEUED := by decide
    obtain ⟨hNot, hDsm, hSend⟩ := hOther _ hFlush
    rintro (hQueued | ⟨⟨hCmd, -⟩ | ⟨hCmd, -⟩, -⟩)
    · exact hNot hQueued
    · exact hDsm hCmd
    · exact hSend hCmd
  · refine Yields.map ((ahciHandleDsmTrim_follows _ _ _ 0 ?_).imp fun _ _ ht =>
      AhciPort.FollowsFrom.trans hIssued ht)
    split
    · next hQueued => exact .inr ⟨rfl, (hQueued.resolve_left (hNotRw hBlock)).2, rfl⟩
    · exact .inl rfl

end Commands

/-- Whatever a port does but in a write to `PxCMD`, its record follows. -/
theorem follows_kept : Kept Follows where
  toShared := follows_shared
  handleCmd s slot cfis hGo := ahciHandleCmd_follows s slot cfis hGo
  handleRw s slot cfis done := ahciHandleRw_follows s slot cfis done (.inl rfl)
  handleDsmTrim s slot cfis done := ahciHandleDsmTrim_follows s slot cfis done (.inl rfl)

theorem mtx_follows (s : Port) (m : PthreadMutex) : Follows s { s with sc.mtx := m } :=
  Mute.follows ⟨rfl, rfl, rfl, rfl⟩ _

theorem blockifThr_follows (s : Port) (fuel : Nat) :
    Yields (fun _ => True) (Follows s) ((client fuel).blockifThr fuel s) := by
  refine follows_kept.blockifThr s fuel mtx_follows fun d t => Mute.follows ?_ _
  exact ⟨rfl, rfl, rfl, rfl⟩

end Port

namespace AhciPort

def Armed (p : AhciPort) : Prop := p.Fre → p.rfis.isSome

/-- A function of the port that may set or clear `PxCMD.FRE`, but does not clear it if it is to be
kept. -/
structure Heeds (keep : Prop) (p q : AhciPort) : Prop where
  armed : p.Armed → q.Armed
  told : keep → p.Listens → q.Listens ∧ Told .nothing .nothing p q

theorem FollowsFrom.heeds {p q : AhciPort} (h : p.Follows q) (keep : Prop) : Heeds keep p q where
  armed hArmed hFre := by
    rw [h.rfis]
    exact hArmed (h.fre.mp hFre)
  told _ hListens := ⟨h.listens hListens, h.told hListens⟩

end AhciPort

namespace Port

section Registers

open AhciPort (Heeds Mute)

variable (s : Port) (fuel : Nat)

/-- The bits of `PxCMD` that `cmdBits` changes are not `PxCMD.FRE`, which it arms. -/
theorem cmdBits_armed (value : BitVec 32) :
    ((s.cmdBits value).p.Fre ↔ s.p.Fre) ∧
      (value &&& AHCI_P_CMD_FRE ≠ 0 → (s.cmdBits value).p.rfis.isSome) ∧
      (s.cmdBits value).p.waitforclear = s.p.waitforclear ∧ (s.cmdBits value).p.trace = s.p.trace := by
  have hOr : (s.p.cmd ||| AHCI_P_CMD_FR).getLsbD 4 = s.p.cmd.getLsbD 4 := by
    rw [BitVec.getLsbD_or]
    exact Bool.or_false _
  have hFr : ∀ cmd : BitVec 32, (cmd &&& ~~~AHCI_P_CMD_FR).getLsbD 4 = cmd.getLsbD 4 :=
    fun cmd => bit_and (by decide)
  have hClo : ∀ cmd : BitVec 32, (cmd &&& ~~~AHCI_P_CMD_CLO).getLsbD 4 = cmd.getLsbD 4 :=
    fun cmd => bit_and (by decide)
  have hIcc : ∀ cmd : BitVec 32, (cmd &&& ~~~AHCI_P_CMD_ICC_MASK).getLsbD 4 = cmd.getLsbD 4 :=
    fun cmd => bit_and (by decide)
  unfold cmdBits AhciPort.Fre
  dsimp only
  by_cases hFre : value &&& AHCI_P_CMD_FRE ≠ 0
  · rw [if_pos hFre]
    split <;> split <;> simp only [hOr, hClo, hIcc, Option.isSome_some, implies_true, and_self]
  · rw [if_neg hFre]
    split <;> split <;> exact ⟨by simp only [hFr, hClo, hIcc], fun hOn => absurd hOn hFre, rfl, rfl⟩

theorem fre_written (cmd value : BitVec 32) :
    (cmd &&& ~~~cmdWritable ||| cmdWritable &&& value).getLsbD 4 = true ↔
      value &&& AHCI_P_CMD_FRE ≠ 0 := by
  have hOld : (cmd &&& ~~~cmdWritable).getLsbD 4 = false := by
    rw [BitVec.getLsbD_and]
    exact Bool.and_false _
  have hNew : (cmdWritable &&& value).getLsbD 4 = value.getLsbD 4 := by
    rw [BitVec.getLsbD_and]
    exact Bool.true_and _
  rw [BitVec.getLsbD_or, hOld, hNew, Bool.false_or]
  exact getLsbD_fre value

theorem run_follows (cmdLst : BitVec 64) :
    Follows s { s with p.cmd := s.p.cmd ||| AHCI_P_CMD_CR, p.cmdLst := cmdLst } := by
  have hRun : (s.p.cmd ||| AHCI_P_CMD_CR).getLsbD 4 = s.p.cmd.getLsbD 4 := by
    rw [BitVec.getLsbD_or]
    exact Bool.or_false _
  exact ⟨iff_of_eq (congrArg (· = true) hRun), rfl, fun _ => ⟨[], (List.append_nil _).symm, rfl⟩⟩

/-- A write to `PxCMD`, by what is done before and after its other bits are. -/
theorem heeds_of_cmdBits {t u : Port} {value : BitVec 32}
    (hWrite : Follows { s with p.cmd := s.p.cmd &&& ~~~cmdWritable ||| cmdWritable &&& value } t)
    (hPort : Follows (t.cmdBits value) u) : Heeds (value &&& AHCI_P_CMD_FRE ≠ 0) s.p u.p := by
  have hFre := fre_written s.p.cmd value
  generalize s.p.cmd &&& ~~~cmdWritable ||| cmdWritable &&& value = cmd at hFre hWrite
  have hFre' : AhciPort.Fre { s.p with cmd := cmd } ↔ value &&& AHCI_P_CMD_FRE ≠ 0 := hFre
  obtain ⟨hSame, hArmed, hWait, hTrace⟩ := cmdBits_armed t value
  refine ⟨fun _ hOn => ?_, fun hKeep hListens => ?_⟩
  · rw [hPort.rfis]
    exact hArmed (hFre'.mp (hWrite.fre.mp (hSame.mp (hPort.fre.mp hOn))))
  · have hWritten : AhciPort.Listens { s.p with cmd := cmd } := ⟨hFre'.mpr hKeep, hListens.2⟩
    have hBits : (t.cmdBits value).p.Listens :=
      ⟨hSame.mpr (hWrite.listens hWritten).1, hArmed hKeep⟩
    refine ⟨hPort.listens hBits, ?_⟩
    have hTold : AhciPort.Told .nothing .nothing t.p (t.cmdBits value).p :=
      ⟨[], by rw [hTrace, List.append_nil], by rw [hWait]; rfl⟩
    exact AhciPort.Told.trans (hWrite.told hWritten) (hTold.trans (hPort.told hBits))

theorem cmdWrite_heeds (value : BitVec 32) :
    Yields (fun _ => True) (fun t => Heeds (value &&& AHCI_P_CMD_FRE ≠ 0) s.p t.p)
      (s.cmdWrite fuel value) := by
  let written := s.p.cmd &&& ~~~cmdWritable ||| cmdWritable &&& value
  refine Yields.bind (P := fun t => Follows { s with p.cmd := written } t) (Yields.ite
    (follows_kept.portStop _ (mtx_follows _ _)) (run_follows _ _)) fun t _ ht => ?_
  exact (follows_kept.handlePort (t.cmdBits value) fuel).imp fun u _ hu => heeds_of_cmdBits s ht hu

theorem pciAhciPortWrite_follows {offset : Nat} (hCmd : offset ≠ 0x18) (value : BitVec 32) :
    Yields (fun _ => True) (Follows s) (s.pciAhciPortWrite fuel offset value) := by
  have hIntr : ∀ t : Port, Mute s.p t.p → Yields (fun _ => True) (Follows s) t.ahciPortIntr :=
    fun t ht => (ahciPortIntr_port t).imp fun u _ hu =>
      Mute.follows (p := s.p) (by rw [hu]; exact ht) .nothing
  by_cases hIs : offset = 0x10
  · subst hIs
    exact hIntr _ ⟨rfl, rfl, rfl, rfl⟩
  by_cases hIe : offset = 0x14
  · subst hIe
    exact hIntr _ ⟨rfl, rfl, rfl, rfl⟩
  · exact follows_kept.portWrite s fuel hCmd hIs hIe value

theorem pciAhciPortWrite_heeds (offset : Nat) (value : BitVec 32) :
    Yields (fun _ => True)
      (fun t => Heeds (offset = 0x18 → value &&& AHCI_P_CMD_FRE ≠ 0) s.p t.p)
      (s.pciAhciPortWrite fuel offset value) := by
  by_cases hCmd : offset = 0x18
  · subst hCmd
    exact (cmdWrite_heeds s fuel value).imp fun t _ ht => ⟨ht.armed, fun hKeep => ht.told (hKeep rfl)⟩
  · exact (pciAhciPortWrite_follows s fuel hCmd value).imp fun t _ ht => ht.heeds _

theorem hbaReset_heeds : Yields (fun _ => True) (fun t => Heeds False s.p t.p) s.hbaReset := by
  refine (follows_kept.portReset _).imp fun t _ ht => ⟨fun _ hOn => ?_, False.elim⟩
  have hOff : ∀ attached : Bool, (AHCI_P_CMD_SUD ||| AHCI_P_CMD_POD |||
      (if attached = true then AHCI_P_CMD_CPS else 0)).getLsbD 4 = false := by decide
  exact absurd ((hOff s.p.attached).symm.trans (ht.fre.mp hOn)) Bool.false_ne_true

end Registers

end Port

section Count

def PortEvent.isIssue (slot : Slot) : PortEvent → Bool
  | .issue s _ _ => s = slot
  | _ => false

def PortEvent.isAnswer (slot : Slot) : PortEvent → Bool
  | .answer s _ _ _ _ => s = slot
  | _ => false

def PortEvent.isCancel (slot : Slot) : PortEvent → Bool
  | .cancel s => s = slot
  | _ => false

def PortEvent.isEnd : PortEvent → Bool
  | .answer _ _ _ _ _ => true
  | _ => false

def PortEvent.isFinal : PortEvent → Bool
  | .fis ft bytes => Final ft bytes
  | _ => false

def Ending.unsent (m : Ending) : Nat :=
  match m.owed with
  | .final _ => 1
  | .nothing | .acceptance _ => 0

theorem Ending.next_count {m m' : Ending} {e : PortEvent} (h : m.next e = some m') :
    (if e.isFinal then 1 else 0) + m'.unsent = (if e.isEnd then 1 else 0) + m.unsent := by
  obtain ⟨owed, latched⟩ := m
  cases owed with
  | final queued =>
    cases e with
    | fis ft bytes =>
      simp only [Ending.next, Option.ite_none_right_eq_some] at h
      obtain ⟨⟨hFinal, -⟩, hSame⟩ := h
      obtain rfl := Option.some.inj hSame
      simp [PortEvent.isFinal, PortEvent.isEnd, Ending.unsent, hFinal]
    | _ => cases h
  | acceptance slot =>
    cases e <;> simp only [Ending.next, Option.ite_none_right_eq_some, reduceCtorEq] at h
    all_goals
      obtain ⟨-, hSame⟩ := h
      obtain rfl := Option.some.inj hSame
      rfl
  | nothing =>
    cases e with
    | issue slot block queued =>
      simp only [Ending.next, Option.ite_none_left_eq_some] at h
      obtain rfl := Option.some.inj h.2
      cases queued <;> rfl
    | fis ft bytes =>
      simp only [Ending.next, Option.ite_none_left_eq_some] at h
      obtain rfl := Option.some.inj h.2
      simp [PortEvent.isFinal, PortEvent.isEnd, h.1]
    | request slot | served slot last | empty slot | cancel slot =>
      obtain rfl := Option.some.inj h
      rfl
    | accept slot before after | answer slot queued error before after | stopped cmd pending =>
      simp only [Ending.next, Option.ite_none_right_eq_some] at h
      obtain rfl := Option.some.inj h.2
      rfl
/-- There are as many final FISes as commands that end with one. -/
theorem ending_count {m m' : Ending} {trace : List PortEvent}
    (h : trace.foldlM Ending.next m = some m') :
    trace.countP PortEvent.isFinal + m'.unsent = trace.countP PortEvent.isEnd + m.unsent := by
  induction trace generalizing m with
  | nil =>
    obtain rfl := Option.some.inj h
    simp
  | cons e trace ih =>
    obtain ⟨n, hNext, hRest⟩ := Option.bind_eq_some_iff.mp h
    have hOne := Ending.next_count hNext
    have hAll := ih hRest
    simp only [List.countP_cons]
    omega

def unended (f : Slot → Phase) (slot : Slot) : Nat := if f slot = .idle then 0 else 1

/-- A command begins when it is issued, and ends when it is answered or taken back. -/
theorem Phase.next_count {e : PortEvent} {slot : Slot} {phase phase' : Phase}
    (hSlot : e.slot? = some slot) (hNext : phase.next e = some phase') :
    (if e.isIssue slot then 1 else 0) + (if phase = .idle then 0 else 1) =
      (if e.isAnswer slot then 1 else 0) + (if e.isCancel slot then 1 else 0) +
        (if phase' = .idle then 0 else 1) := by
  unfold Phase.next at hNext
  split at hNext <;>
    simp_all [PortEvent.slot?, PortEvent.isIssue, PortEvent.isAnswer, PortEvent.isCancel]
  all_goals
    subst hNext
    simp

theorem phasesNext_count {f g : Slot → Phase} {e : PortEvent} (h : phasesNext f e = some g)
    (slot : Slot) :
    (if e.isIssue slot then 1 else 0) + unended f slot =
      (if e.isAnswer slot then 1 else 0) + (if e.isCancel slot then 1 else 0) + unended g slot := by
  unfold phasesNext at h
  cases hSlot : e.slot? with
  | none =>
    rw [hSlot] at h
    dsimp only at h
    split at h
    · cases h
    · obtain rfl := Option.some.inj h
      cases e <;> simp_all [PortEvent.slot?, PortEvent.isIssue, PortEvent.isAnswer, PortEvent.isCancel]
  | some s =>
    rw [hSlot] at h
    obtain ⟨phase, hNext, rfl⟩ := Option.map_eq_some_iff.mp h
    by_cases hEq : s = slot
    · subst hEq
      rw [unended, unended, Function.update_self]
      exact Phase.next_count hSlot hNext
    · have hOther : unended (Function.update f s phase) slot = unended f slot := by
        rw [unended, unended, Function.update_of_ne (Ne.symm hEq)]
      rw [hOther]
      cases e <;> simp_all [PortEvent.slot?, PortEvent.isIssue, PortEvent.isAnswer, PortEvent.isCancel]

/-- Every command that is issued ends once or has not ended yet. -/
theorem phases_count {f g : Slot → Phase} {trace : List PortEvent}
    (h : trace.foldlM phasesNext f = some g) (slot : Slot) :
    trace.countP (PortEvent.isIssue slot) + unended f slot =
      trace.countP (PortEvent.isAnswer slot) + trace.countP (PortEvent.isCancel slot) +
        unended g slot := by
  induction trace generalizing f with
  | nil =>
    obtain rfl := Option.some.inj h
    simp
  | cons e trace ih =>
    obtain ⟨f', hNext, hRest⟩ := Option.bind_eq_some_iff.mp h
    have hOne := phasesNext_count hNext slot
    have hAll := ih hRest
    simp only [List.countP_cons]
    omega

end Count

namespace AhciPort

theorem Heeds.refl (keep : Prop) (p : AhciPort) : Heeds keep p p :=
  (FollowsFrom.refl .nothing p).heeds keep

theorem Heeds.trans {keep : Prop} {p q r : AhciPort} (h : Heeds keep p q) (h' : Heeds keep q r) :
    Heeds keep p r where
  armed hArmed := h'.armed (h.armed hArmed)
  told hKeep hListens := by
    obtain ⟨hListens', hTold⟩ := h.told hKeep hListens
    obtain ⟨hListens'', hTold'⟩ := h'.told hKeep hListens'
    exact ⟨hListens'', hTold.trans hTold'⟩

end AhciPort

namespace Ahci

open AhciPort (Heeds)

/-- The guest leaves `PxCMD.FRE` of the port set, and the controller is not reset. -/
def KeepsFre (k : PortId) : Event → Prop
  | .write _ offset value =>
    (offset = 0x04 → value.setWidth 32 &&& AHCI_GHC_HR = 0) ∧
      (offset = AHCI_OFFSET + k * AHCI_STEP + 0x18 → value.setWidth 32 &&& AHCI_P_CMD_FRE ≠ 0)
  | .reset => False
  | .thr | .other _ _ => True

structure HeedsAt (k : PortId) (keep : Prop) (s t : Ahci) : Prop where
  ports : t.sc.ports = s.sc.ports
  port : Heeds keep (s.port k) (t.port k)

section Steps

variable {s : Ahci} {k : PortId} {keep : Prop}

theorem HeedsAt.trans {t u : Ahci} (h : HeedsAt k keep s t) (h' : HeedsAt k keep t u) :
    HeedsAt k keep s u := ⟨h'.ports.trans h.ports, h.port.trans h'.port⟩

theorem HeedsAt.same {t : Ahci} (hPorts : t.sc.ports = s.sc.ports) (hPort : t.port = s.port) :
    HeedsAt k keep s t := ⟨hPorts, by rw [hPort]; exact Heeds.refl keep _⟩

theorem onPort_heeds {j : PortId} {f : Port → Except Fault Port}
    (hf : Yields (fun _ => True) (fun t => t.sc.ports = s.sc.ports ∧ (j = k → Heeds keep (s.port j) t.p))
      (f ⟨s.port j, s.sc, s.mem⟩)) :
    Yields (fun _ => True) (HeedsAt k keep s) (s.onPort j f) := by
  refine hf.bind fun t _ ht => ⟨ht.1, ?_⟩
  dsimp only
  by_cases hEq : k = j
  · subst hEq
    rw [Function.update_self]
    exact ht.2 rfl
  · rw [Function.update_of_ne hEq]
    exact Heeds.refl keep _

theorem resetPorts_heeds (ks : List PortId) :
    Yields (fun _ => True) (HeedsAt k False s) (resetPorts ks s) := by
  induction ks generalizing s with
  | nil => exact HeedsAt.same rfl rfl
  | cons j ks ih =>
    refine Yields.bind (P := HeedsAt k False s) (onPort_heeds ?_) fun t _ ht =>
      ih.imp fun u _ hu => ht.trans hu
    refine ((Port.hbaReset_evolves _).and (Port.hbaReset_heeds _)).imp fun t _ ht => ?_
    obtain ⟨⟨u, hEvolves, hSc, -⟩, hHeeds⟩ := ht
    exact ⟨hEvolves.ports.trans (by rw [hSc]), fun _ => hHeeds⟩

theorem ahciReset_heeds : Yields (fun _ => True) (HeedsAt k False s) s.ahciReset := by
  refine Yields.bind (P := HeedsAt k False s) (Yields.ite ?_ (HeedsAt.same rfl rfl)) fun t _ ht =>
    (resetPorts_heeds _).imp fun u _ hu => ht.trans hu
  exact (yields_true _).bind fun _ _ _ => HeedsAt.same rfl rfl

theorem ahciGenerateIntr_heeds {t : Ahci} (h : HeedsAt k keep s t) :
    Yields (fun _ => True) (HeedsAt k keep s) t.ahciGenerateIntr := by
  have hSame : ∀ sc : Softc, sc.ports = t.sc.ports → HeedsAt k keep s { t with sc := sc } :=
    fun _ hPorts => h.trans (HeedsAt.same hPorts rfl)
  refine Yields.ite (Yields.ite ?_ (hSame _ rfl)) (Yields.ite (Yields.ite (hSame _ rfl) ?_) (hSame _ rfl))
  · exact (yields_true _).bind fun _ _ _ => hSame _ rfl
  · exact (yields_true _).bind fun _ _ _ => hSame _ rfl

theorem pciAhciHostWrite_heeds (offset : Nat) (value : BitVec 32) :
    Yields (fun _ => True) (HeedsAt k (offset = 0x04 → value &&& AHCI_GHC_HR = 0) s)
      (s.pciAhciHostWrite offset value) := by
  unfold pciAhciHostWrite
  split
  · split
    · next hReset =>
      exact ahciReset_heeds.imp fun t _ ht =>
        ⟨ht.ports, ht.port.armed, fun hKeep => absurd (hKeep rfl) hReset⟩
    · exact ahciGenerateIntr_heeds (HeedsAt.same rfl rfl)
  · exact ahciGenerateIntr_heeds (HeedsAt.same rfl rfl)
  · exact HeedsAt.same rfl rfl

theorem offset_eq {offset ports : Nat} {k : PortId} (hPorts : ports ≤ 32)
    (hFirst : ¬ offset < AHCI_OFFSET) (hLast : offset < AHCI_OFFSET + ports * AHCI_STEP)
    (hPort : Fin.ofNat 32 ((offset - AHCI_OFFSET) / AHCI_STEP) = k) {reg : Nat}
    (hReg : (offset - AHCI_OFFSET) % AHCI_STEP = reg) :
    offset = AHCI_OFFSET + k * AHCI_STEP + reg := by
  subst hPort hReg
  simp only [Fin.val_ofNat]
  unfold AHCI_OFFSET AHCI_STEP at *
  omega

theorem pciAhciWrite_heeds (hPorts : s.sc.ports ≤ 32) (fuel baridx offset : Nat)
    (value : BitVec 64) :
    Yields (fun _ => True) (HeedsAt k (KeepsFre k (.write baridx offset value)) s)
      (s.pciAhciWrite fuel baridx offset value) := by
  refine (assertThat_yields fun _ => trivial).bind fun _ _ _ => ?_
  refine Yields.bind (P := HeedsAt k (KeepsFre k (.write baridx offset value)) s) ?_ fun t _ ht =>
    ht.trans (HeedsAt.same rfl rfl)
  have hLocked : HeedsAt k (KeepsFre k (.write baridx offset value)) s
      { s with sc.mtx := s.sc.mtx.pthreadMutexLock } := HeedsAt.same rfl rfl
  split
  · refine (pciAhciHostWrite_heeds (k := k) offset _).imp fun t _ ht => hLocked.trans ⟨ht.ports, ?_⟩
    exact ⟨ht.port.armed, fun hKeep => ht.port.told hKeep.1⟩
  · next hFirst =>
    split
    · next hLast =>
      generalize hReg : (offset - AHCI_OFFSET) % AHCI_STEP = reg
      refine (onPort_heeds ?_).imp fun t _ ht => hLocked.trans ht
      refine ((Port.pciAhciPortWrite_evolves _ fuel reg _).and
        (Port.pciAhciPortWrite_heeds _ fuel reg _)).imp fun t _ ht => ⟨ht.1.ports, fun hPort => ?_⟩
      refine ⟨ht.2.armed, fun hKeep => ht.2.told fun hCmd => hKeep.2 ?_⟩
      rw [hCmd] at hReg
      exact offset_eq hPorts hFirst hLast hPort hReg
    · exact hLocked

theorem step_heeds (hPorts : s.sc.ports ≤ 32) (fuel : Nat) (event : Event) :
    Yields (fun _ => True) (HeedsAt k (KeepsFre k event) s) (s.step fuel event) := by
  cases event with
  | write baridx offset value => exact pciAhciWrite_heeds hPorts fuel baridx offset value
  | reset => exact ahciReset_heeds
  | thr =>
    rw [step, blockifThr]
    split
    · exact HeedsAt.same rfl rfl
    · next j _ =>
      refine onPort_heeds (((Port.blockifThr_evolves _ fuel).and (Port.blockifThr_follows _ fuel)).imp
        fun t _ ht => ⟨ht.1.ports, fun _ => ht.2.heeds _⟩)
  | other mem pi => exact HeedsAt.same rfl rfl

end Steps

structure Armed (s : Ahci) : Prop where
  ports : s.sc.ports ≤ 32
  armed : ∀ k, (s.port k).Armed

section Runs

variable {s : Ahci} (fuel : Nat)

theorem step_armed (h : s.Armed) (event : Event) :
    Yields (fun _ => True) Armed (s.step fuel event) := by
  have hAll : ∀ k, Yields (fun _ => True) (HeedsAt k (KeepsFre k event) s) (s.step fuel event) :=
    fun k => step_heeds h.ports fuel event
  cases hStep : s.step fuel event with
  | error e => trivial
  | ok t =>
    have hHeeds := fun k => (hAll k).of_ok hStep
    exact ⟨by rw [(hHeeds 0).ports]; exact h.ports, fun k => (hHeeds k).port.armed (h.armed k)⟩

theorem pciAhciInit_armed (pi : PciDevinst) (disks : List (Option (List (BitVec 8)))) (mem : Memory)
    (stack : Nat → BitVec 8) : Yields (fun _ => True) Armed (pciAhciInit pi disks mem stack) := by
  unfold pciAhciInit
  dsimp only
  generalize hStart : Ahci.mk _ _ _ _ = start
  have hPorts : start.sc.ports ≤ 32 := by
    subst hStart
    exact max_le (min_le_right _ _) (by decide)
  have hArmed : ∀ k, (start.port k).Armed := by
    subst hStart
    intro k hFre
    dsimp only at hFre
    split at hFre <;> exact absurd hFre (by simp [AhciPort.Fre, diskPort, callocPort])
  cases hReset : start.ahciReset with
  | error e => trivial
  | ok t =>
    have hHeeds := fun k => (ahciReset_heeds (k := k)).of_ok hReset
    exact ⟨by rw [(hHeeds 0).ports]; exact hPorts, fun k => (hHeeds k).port.armed (hArmed k)⟩

theorem run_heeds (h : s.Armed) {k : PortId} {events : List Event}
    (hKeeps : ∀ e ∈ events, KeepsFre k e) :
    Yields (fun _ => True) (HeedsAt k True s) (run (step fuel) s events) := by
  have hStep : ∀ t event, t.Armed ∧ HeedsAt k True s t → KeepsFre k event →
      Yields (fun _ => True) (fun u => u.Armed ∧ HeedsAt k True s u) (t.step fuel event) := by
    intro t event ht hKeep
    refine ((step_armed fuel ht.1 event).and (step_heeds (k := k) ht.1.ports fuel event)).imp
      fun u _ hu => ⟨hu.1, ht.2.trans ⟨hu.2.ports, hu.2.port.armed, fun _ => hu.2.port.told hKeep⟩⟩
  have hStart : s.Armed ∧ HeedsAt k True s s := ⟨h, HeedsAt.same rfl rfl⟩
  exact (run_yields hStep hStart (along_of_forall s hKeeps)).imp fun t _ ht => ht.2

end Runs

end Ahci

namespace AhciPort

structure EndsOnce (p q : AhciPort) : Prop where
  told : ∃ trace, q.trace = p.trace ++ trace ∧
    trace.foldlM Ending.next ⟨.nothing, p.waitforclear⟩ = some ⟨.nothing, q.waitforclear⟩ ∧
    trace.countP PortEvent.isFinal = trace.countP PortEvent.isEnd
  phases : ∃ f, phases q.trace = some f ∧ ∀ slot, (f slot = .idle ∨ f slot = .out) ∧
    (q.pending.getLsbD slot = true ↔ f slot = .out)
  counted : ∀ slot, q.trace.countP (PortEvent.isIssue slot) =
    q.trace.countP (PortEvent.isAnswer slot) + q.trace.countP (PortEvent.isCancel slot) +
      if q.pending.getLsbD slot then 1 else 0
  served : q.bctx.bcPendq = [] → q.pending = 0

/-- The phases of a sound port account for its commands. -/
theorem Sound.endsOnce {p q : AhciPort} (h : q.Sound [] []) (hTold : Told .nothing .nothing p q) :
    EndsOnce p q := by
  obtain ⟨trace, hTrace, hEnd⟩ := hTold
  obtain ⟨f, hPhases, hSettled⟩ := h.settled
  refine ⟨⟨trace, hTrace, hEnd, ending_count hEnd⟩, ⟨f, hPhases, fun slot =>
    ⟨(hSettled slot).phase, (hSettled slot).pending⟩⟩, fun slot => ?_, fun hNone => ?_⟩
  · have hCount := phases_count hPhases slot
    have hIdle : unended (fun _ => .idle) slot = 0 := rfl
    have hUnended : unended f slot = if q.pending.getLsbD slot then 1 else 0 := by
      obtain hIdle | hOut := (hSettled slot).phase
      · have hNot : ¬ q.pending.getLsbD slot = true := by
          rw [(hSettled slot).pending, hIdle]
          decide
        rw [unended, if_pos hIdle, if_neg hNot]
      · rw [unended, hOut, if_pos ((hSettled slot).pending.mpr hOut)]
        rfl
    rw [hIdle, hUnended] at hCount
    exact hCount
  · have hBusy : q.iobhd = [] := by
      have hQueued : q.queued = [] := by rw [queued, hNone, List.map_nil]
      have hPerm := h.queued
      rw [hQueued] at hPerm
      exact List.map_eq_nil_iff.mp hPerm.nil_eq.symm
    refine BitVec.eq_of_getLsbD_eq fun i hi => ?_
    have hSlot := hSettled ⟨i, hi⟩
    have hNot : ¬ q.Busy ⟨i, hi⟩ := by simp [Busy, hBusy]
    have hPend : ¬ q.pending.getLsbD i = true := by
      intro hBit
      exact hNot (hSlot.busy.mpr (hSlot.pending.mp hBit))
    rw [Bool.eq_false_iff.mpr hPend]
    simp

end AhciPort

namespace Ahci

def queuedTrim : Memory := fun a =>
  let header := [(2, 1), (9, 0x10)]
  let fis := [(0x1000, 0x27), (0x1001, 0x80), (0x1002, 0x64), (0x1003, 1), (0x1010, 1)]
  let prdt := [(0x1081, 0x20), (0x108c, 0xff), (0x108d, 1)]
  let range := [(0x2006, 1)]
  ((header ++ fis ++ prdt ++ range).lookup (a - paddrGuest2host 0)).getD 0

/-- In a run that leaves `PxCMD.FRE` of a disk port set, every command ends with one final FIS or is
taken back. A FIS accepts a queued command and clears its bit of `PxCI`; success clears the bit
of `PxCI`, or of `PxSACT` for a queued command; an error leaves both as they are, and keeps the
port from issuing commands until `PxCMD.ST` is clear and nothing is in flight. -/
theorem commands_endOnce (fuel : Nat) (pi : PciDevinst) (disks : List (Option (List (BitVec 8))))
    (mem : Memory) (stack : Nat → BitVec 8) (before after : List Event) (k : PortId)
    (hKeeps : ∀ event ∈ after, KeepsFre k event) :
    Yields (fun _ => True)
      (fun s => (s.port k).cmd &&& AHCI_P_CMD_FRE ≠ 0 →
        Yields (fun _ => True)
          (fun t => (t.port k).attached = true → (s.port k).EndsOnce (t.port k))
          (run (step fuel) s after))
      (pciAhciInit pi disks mem stack >>= fun s => run (step fuel) s before) := by
  have hInit := (pciAhciInit_armed pi disks mem stack).and (pciAhciInit_pooled pi disks mem stack).weaken
  refine hInit.bind fun s _ hs => ?_
  have hArmed := run_keeps (fun t event ht => step_armed fuel ht event) hs.1 before
  have hPooled := run_keeps (fun t event ht => (step_pooled ht fuel event).weaken) hs.2 before
  refine (hArmed.and hPooled).imp fun t _ ht hFre => ?_
  have hPooled' := run_keeps (fun t event ht => (step_pooled ht fuel event).weaken) ht.2 after
  refine ((run_heeds fuel ht.1 hKeeps).and hPooled').imp fun u _ hu hAttached => ?_
  have hFre' : (t.port k).Fre := fre_iff.mpr hFre
  obtain ⟨-, hTold⟩ := hu.1.port.told trivial ⟨hFre', ht.1.armed k hFre'⟩
  exact (hu.2.disk k hAttached).endsOnce hTold

theorem commands_endOnce_hd :
    Yields (fun _ => True)
      (fun s => (s.port 0).cmd &&& AHCI_P_CMD_FRE ≠ 0 →
        Yields (fun _ => True)
          (fun t => (t.port 0).attached = true → (s.port 0).EndsOnce (t.port 0))
          (run (step 64) s [.write 5 0x134 1, .write 5 0x138 1, .thr, .write 5 0x118 0x10]))
      (pciAhciInit (pciEmulInit ⟨0, 5, 0⟩) [some []] queuedTrim (fun _ => 0) >>= fun s =>
        run (step 64) s [.write 5 0x118 0x11]) := by
  -- so that the run is not evaluated
  generalize queuedTrim = mem
  exact commands_endOnce 64 _ _ mem _ _ _ 0 (by simp [KeepsFre, AHCI_OFFSET, AHCI_STEP, AHCI_P_CMD_FRE])

/-- The bit of `PxCI` does not stay set after an error of a queued command, since it is cleared
when the command is accepted. -/
theorem queuedError_ciClear :
    Yields (fun _ => False)
      (fun s => (s.port 0).cmd &&& AHCI_P_CMD_FRE ≠ 0 ∧ (s.port 0).trace =
        [.issue 0 false true, .request 0, .accept 0 ⟨1, 1⟩ ⟨0, 1⟩,
          .fis .regD2h (0x34 :: 0 :: 0x50 :: List.replicate 17 0), .served 0 true,
          .answer 0 true true ⟨0, 1⟩ ⟨0, 1⟩, .fis .setDevBits [0xa1, 0x40, 0x41, 0x04, 0, 0, 0, 0]])
      (pciAhciInit (pciEmulInit ⟨0, 5, 0⟩) [some []] queuedTrim (fun _ => 0) >>= fun s =>
        run (step 64) s [.write 5 0x118 0x11, .write 5 0x134 1, .write 5 0x138 1, .thr]) := by
  decide +kernel

end Ahci

end DeviceModel.PciAhci

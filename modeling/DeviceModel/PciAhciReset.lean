import DeviceModel.PciAhciInterrupt
import DeviceModel.PciAhciWindow

/-!
# The AHCI controller: resets

What the guest finds in a port after a reset of the controller. The reset clears `PxCMD` and
`PxSACT`, but not `PxCI`, the current slot, the wait after an error and the software reset, which
only `ahci_check_stopped` and a second control FIS clear.
-/

set_option autoImplicit false

namespace DeviceModel.PciAhci

open Fallible PciEmul

namespace AhciPort

def Free (p : AhciPort) : Prop := p.tfd &&& (ATA_S_BUSY ||| ATA_S_DRQ) = 0

structure Cleared (p q : AhciPort) : Prop where
  attached : q.attached = p.attached
  ci : q.ci = p.ci
  sact : q.sact = 0
  ccs : q.ccs = p.ccs
  waitforclear : q.waitforclear = p.waitforclear
  reset : q.reset = p.reset
  free : q.attached = true → q.Free

theorem Cleared.trans {p q r : AhciPort} (h : p.Cleared q) (h' : q.Cleared r) : p.Cleared r :=
  ⟨h'.attached.trans h.attached, h'.ci.trans h.ci, h'.sact, h'.ccs.trans h.ccs,
    h'.waitforclear.trans h.waitforclear, h'.reset.trans h.reset, h'.free⟩

/-- No command is issued, the next slot is the first one, and neither an error nor a software
reset is left. -/
structure Idle (p : AhciPort) : Prop where
  ci : p.ci = 0
  ccs : p.ccs = 0
  waitforclear : p.waitforclear = false
  reset : p.reset = false

end AhciPort

namespace Port

section Search

/-- Once the guest has set `PxCMD.ST` and `PxCMD.FRE`, the port takes up the command of the slot as soon
as it is issued. -/
def Executes (s : Port) (slot : Slot) : Prop :=
  ∀ fuel value, value &&& AHCI_P_CMD_ST ≠ 0 → value &&& AHCI_P_CMD_FRE ≠ 0 →
    ∃ t u n v, s.pciAhciPortWrite (fuel + 1) 0x18 value = .ok t ∧
      t.looking 0x38 (bit slot) = some u ∧ rounds portRound n u = some v ∧ v.TakesUp ∧ v.p.ccs = slot

structure Restored (s : Port) : Prop extends s.p.Idle where
  sact : s.p.sact = 0
  executes : ∀ slot : Slot, s.p.pending.getLsbD slot = false → s.Executes slot

variable {s : Port} {slot : Slot}

theorem bit_and_bit {k : Slot} (hNe : k ≠ slot) : bit slot &&& bit k = 0 := by
  refine BitVec.eq_of_getLsbD_eq fun i hi => ?_
  have hSlot := getLsbD_bit slot ⟨i, hi⟩
  have hK := getLsbD_bit k ⟨i, hi⟩
  rw [BitVec.getLsbD_and, hSlot, hK]
  by_cases hEq : (⟨i, hi⟩ : Slot) = slot
  · subst hEq
    simp [Ne.symm hNe]
  · simp [hEq]

theorem waiting_issued (hNone : s.p.ci = 0) (hPending : s.p.pending.getLsbD slot = false) :
    Port.waiting { s with p.ci := s.p.ci ||| bit slot } = bit slot := by
  have hIssued : Port.waiting { s with p.ci := s.p.ci ||| bit slot } = bit slot &&& ~~~s.p.pending := by
    simp [waiting, hNone]
  refine BitVec.eq_of_getLsbD_eq fun i hi => ?_
  have hSlot := getLsbD_bit slot ⟨i, hi⟩
  rw [hIssued, BitVec.getLsbD_and, hSlot]
  by_cases hEq : (⟨i, hi⟩ : Slot) = slot
  · subst hEq
    rw [BitVec.getLsbD_not, hPending, decide_eq_true rfl]
    simp [hi]
  · rw [decide_eq_false hEq, Bool.false_and]

theorem going_of (hWaiting : s.waiting = bit slot) (hFree : s.p.Free)
    (hClear : s.p.waitforclear = false) : s.Going := by
  rintro (hZero | hBusy | hError)
  · exact bit_ne_zero slot (hWaiting.symm.trans hZero)
  · exact hBusy hFree
  · exact absurd (hClear.symm.trans hError) Bool.false_ne_true

theorem rounds_search (n : Nat) (hWaiting : s.waiting = bit slot) (hFree : s.p.Free)
    (hClear : s.p.waitforclear = false) (hAhead : (s.p.ccs : Nat) + n = slot) :
    rounds portRound n s = some { s with p.ccs := slot } := by
  induction n generalizing s with
  | zero =>
    obtain rfl : s.p.ccs = slot := Fin.ext hAhead
    rfl
  | succ n ih =>
    have hNe : s.p.ccs ≠ slot := by
      rintro rfl
      omega
    have hRound : s.portRound = .ok (some { s with p.ccs := s.p.ccs + 1 }) := by
      have hHere : ¬ s.waiting &&& bit s.p.ccs ≠ 0 := by
        rw [hWaiting, bit_and_bit hNe]
        exact not_not.mpr rfl
      rw [portRound, if_neg (going_of hWaiting hFree hClear), currentSlot, if_neg hHere]
      rfl
    have hNext : ((s.p.ccs + 1 : Slot) : Nat) + n = slot := by
      have hLess := slot.isLt
      rw [Fin.val_add]
      simp only [Fin.val_one]
      omega
    rw [rounds_succ hRound]
    exact ih (s := { s with p.ccs := s.p.ccs + 1 }) hWaiting hFree hClear hNext

theorem started_engine (s : Port) (value : BitVec 32) :
    (s.started value).p.ci = s.p.ci ∧ (s.started value).p.pending = s.p.pending ∧
      (s.started value).p.ccs = s.p.ccs ∧ (s.started value).p.waitforclear = s.p.waitforclear ∧
      (s.p.Free → (s.started value).p.Free) := by
  have hClo : ∀ tfd : BitVec 32,
      tfd &&& ~~~(ATA_S_BUSY ||| ATA_S_DRQ) &&& (ATA_S_BUSY ||| ATA_S_DRQ) = 0 := by
    intro tfd
    rw [BitVec.and_assoc]
    simp
  unfold started cmdBits
  dsimp only
  split <;> split <;> split <;>
    exact ⟨rfl, rfl, rfl, rfl, fun hFree => by first | exact hFree | exact hClo _⟩

theorem executes_of (hNone : s.p.ci = 0) (hFirst : s.p.ccs = 0) (hClear : s.p.waitforclear = false)
    (hFree : s.p.Free) (hPending : s.p.pending.getLsbD slot = false) : s.Executes slot := by
  intro fuel value hStart _
  obtain ⟨hCi, hPend, hCcs, hWait, hTfd⟩ := started_engine s value
  have hEnd : (s.started value).portRound = .ok none := by
    have hZero : (s.started value).waiting = 0 := by simp [waiting, hCi, hNone]
    exact if_pos (.inl hZero)
  have hWrite : s.pciAhciPortWrite (fuel + 1) 0x18 value = .ok (s.started value) := by
    refine (cmdWrite_started _ hStart).trans ?_
    rw [ahciHandlePort, if_neg (started_st hStart), whileSome, hEnd, ok_bind]
  have hLooking : (s.started value).looking 0x38 (bit slot) =
      some { s.started value with p.ci := (s.started value).p.ci ||| bit slot } := by
    rw [looking, if_neg fun h => absurd h.1 (by decide), if_pos ⟨rfl, started_st hStart⟩]
  have hWaiting := @waiting_issued _ slot (hCi.trans hNone) (by rwa [hPend])
  have hSearch := rounds_search slot hWaiting (hTfd hFree) (hWait.trans hClear) (by
    show ((s.started value).p.ccs : Nat) + slot = slot
    rw [hCcs, hFirst, Fin.val_zero, Nat.zero_add])
  refine ⟨_, _, _, _, hWrite, hLooking, hSearch, ⟨?_, ?_⟩, rfl⟩
  · exact going_of hWaiting (hTfd hFree) (hWait.trans hClear)
  · change Port.waiting { s.started value with p.ci := (s.started value).p.ci ||| bit slot } &&& bit slot ≠ 0
    rw [hWaiting, BitVec.and_self]
    exact bit_ne_zero slot

end Search

section Reset

variable {s : Port}

/-- Without `PxCMD.FRE` no FIS is delivered. -/
theorem ahciWriteFis_off (hFre : s.p.cmd &&& AHCI_P_CMD_FRE = 0) (ft : SataFisType)
    (fis : List (BitVec 8)) : s.ahciWriteFis ft fis = .ok s := by
  unfold ahciWriteFis
  split
  · exact if_pos hFre
  · rfl

theorem hbaReset_clears (s : Port) : ∃ q, s.hbaReset = .ok { s with p := q } ∧ s.p.Cleared q := by
  have hOff : ∀ attached : Bool, (AHCI_P_CMD_SUD ||| AHCI_P_CMD_POD |||
      (if attached = true then AHCI_P_CMD_CPS else 0)) &&& AHCI_P_CMD_FRE = 0 := by decide
  have hReady : (bit 8 ||| ATA_S_DSC ||| ATA_S_DMA ||| ATA_S_READY) &&& (ATA_S_BUSY ||| ATA_S_DRQ) = 0 := by
    decide
  unfold hbaReset ahciPortReset
  dsimp only
  split
  · next hNone =>
    refine ⟨_, rfl, rfl, rfl, rfl, rfl, rfl, rfl, fun hAttached => absurd hAttached ?_⟩
    exact hNone
  · rw [ahciWriteResetFisD2h, ahciWriteFis_off (hOff _)]
    exact ⟨_, rfl, rfl, rfl, rfl, rfl, rfl, rfl, fun _ => hReady⟩

/-- A reset restores a port exactly if nothing was left to restore but `PxSACT`. -/
theorem restored_iff {p : AhciPort} (h : p.Cleared s.p) (hAttached : p.attached = true) :
    s.Restored ↔ p.Idle := by
  constructor
  · intro hRestored
    exact ⟨h.ci.symm.trans hRestored.ci, h.ccs.symm.trans hRestored.ccs,
      h.waitforclear.symm.trans hRestored.waitforclear, h.reset.symm.trans hRestored.reset⟩
  · intro hIdle
    have hCi := h.ci.trans hIdle.ci
    have hCcs := h.ccs.trans hIdle.ccs
    have hClear := h.waitforclear.trans hIdle.waitforclear
    exact ⟨⟨hCi, hCcs, hClear, h.reset.trans hIdle.reset⟩, h.sact, fun slot hPending =>
      executes_of hCi hCcs hClear (h.free (h.attached.trans hAttached)) hPending⟩

end Reset

end Port

namespace Ahci

variable {s : Ahci}

/-- What a reset of some ports leaves in each of them, and in the others. -/
theorem resetPorts_clears (ks : List PortId) (s : Ahci) : Yields (fun _ => False)
    (fun t => ∀ k, (k ∈ ks → (s.port k).Cleared (t.port k)) ∧ (k ∉ ks → t.port k = s.port k))
    (resetPorts ks s) := by
  induction ks generalizing s with
  | nil => exact fun k => ⟨fun hk => absurd hk List.not_mem_nil, fun _ => rfl⟩
  | cons j ks ih =>
    obtain ⟨q, hReset, hCleared⟩ := Port.hbaReset_clears ⟨s.port j, s.sc, s.mem⟩
    have hPort : s.onPort j Port.hbaReset = .ok { s with port := Function.update s.port j q } := by
      rw [onPort, hReset, ok_bind]
    rw [resetPorts, hPort, ok_bind]
    refine (ih _).imp fun t _ ht k => ?_
    obtain ⟨hIn, hOut⟩ := ht k
    dsimp only at hIn hOut
    by_cases hEq : k = j
    · subst hEq
      rw [Function.update_self] at hIn hOut
      refine ⟨fun _ => ?_, fun hNot => absurd List.mem_cons_self hNot⟩
      by_cases hMem : k ∈ ks
      · exact hCleared.trans (hIn hMem)
      · rw [hOut hMem]
        exact hCleared
    · rw [Function.update_of_ne hEq] at hIn hOut
      refine ⟨fun hMem => hIn (List.mem_of_ne_of_mem hEq hMem), fun hNot => hOut fun hMem => ?_⟩
      exact hNot (List.mem_cons_of_mem j hMem)

theorem ahciReset_clears (s : Ahci) (hPin : s.sc.lintr = true → 0 < s.sc.ascPi.lintrPin) :
    Yields (fun _ => False)
      (fun t => ∀ k : PortId, (k : Nat) < s.sc.ports → (s.port k).Cleared (t.port k)) s.ahciReset := by
  unfold ahciReset
  dsimp only
  refine Yields.bind (P := fun u : Ahci => u.sc.ports = s.sc.ports ∧ u.port = s.port) ?_
    fun u _ hu => (resetPorts_clears u.portIds u).imp fun t _ ht k hk => ?_
  · split
    · next hLintr =>
      have hIntr := Port.pciLintrDeassert_pin (E := fun _ => False) s.sc.ascPi fun hZero =>
        absurd hZero (Nat.ne_of_gt (hPin hLintr))
      exact hIntr.bind fun _ _ _ => ⟨rfl, rfl⟩
    · exact ⟨rfl, rfl⟩
  · rw [← hu.2]
    exact (ht k).1 (mem_portIds.mpr (by rwa [hu.1]))

theorem hbaReset_write (s : Ahci) (hPin : 0 < s.sc.ascPi.lintrPin) (fuel : Nat) {value : BitVec 64}
    (hReset : value.setWidth 32 &&& AHCI_GHC_HR ≠ 0) : Yields (fun _ => False)
      (fun t => ∀ k : PortId, (k : Nat) < s.sc.ports → (s.port k).Cleared (t.port k))
      (s.pciAhciWrite fuel 5 0x04 value) := by
  have hLocked : s.locked fuel 0x04 (value.setWidth 32) = s.lock.ahciReset := by
    rw [locked, if_pos (by decide)]
    exact if_pos hReset
  rw [pciAhciWrite_eq, assertThat_of _ (by decide), ok_bind, hLocked]
  exact Yields.map (ahciReset_clears s.lock fun _ => hPin)

theorem pciAhciInit_restored (pi : PciDevinst) (disks : List (Option (List (BitVec 8))))
    (mem : Memory) (stack : Nat → BitVec 8) : Yields (fun _ => False)
      (fun t => ∀ k, (t.port k).attached = true → (t.portAt k).Restored)
      (pciAhciInit pi disks mem stack) := by
  have hReady := pciAhciInit_ready pi disks mem stack
  unfold pciAhciInit at hReady ⊢
  refine (ahciReset_clears _ fun hLintr => absurd hLintr Bool.false_ne_true).imp fun t hReset ht k hAttached => ?_
  have hLocks := (ahciReset_locks _).of_ok hReset
  have hCovered := (hReady.of_ok hReset).covered k hAttached
  rw [hLocks.ports] at hCovered
  refine (Port.restored_iff (ht k hCovered) ((hLocks.attached k).symm.trans hAttached)).mpr ?_
  dsimp only
  split <;> exact ⟨rfl, rfl, rfl, rfl⟩

/-- In every state that the controller comes to with its pin, a write of `GHC.HR` restores the command
engine of a port with a disk exactly if no command was issued, the first slot was the next, and
neither an error nor a software reset was left. -/
theorem hbaReset_restores_iff (fuel : Nat) (pi : PciDevinst) (disks : List (Option (List (BitVec 8))))
    (mem : Memory) (stack : Nat → BitVec 8) (events : List Event) (value : BitVec 64)
    (hReset : value.setWidth 32 &&& AHCI_GHC_HR ≠ 0) :
    Yields (fun _ => True)
      (fun s => 0 < s.sc.ascPi.lintrPin →
        Yields (fun _ => False)
          (fun t => ∀ k, (s.port k).attached = true → ((t.portAt k).Restored ↔ (s.port k).Idle))
          (s.pciAhciWrite fuel 5 0x04 value))
      (pciAhciInit pi disks mem stack >>= fun s => run (step fuel) s events) := by
  refine (pciAhciInit_ready pi disks mem stack).bind fun s _ hs => ?_
  refine (run_keeps (fun t event ht => step_ready fuel ht event) hs events).imp fun t _ ht hPin => ?_
  refine (hbaReset_write t hPin fuel hReset).imp fun u _ hu k hAttached => ?_
  exact Port.restored_iff (hu k (ht.covered k hAttached)) hAttached

section Examples

def unknownCommand : Memory := fun a =>
  ([(9, 0x10), (0x1000, 0x27), (0x1001, 0x80), (0x1002, 0xff)].lookup (a - paddrGuest2host 0)).getD 0

/-- The error of the command is left. -/
def afterError (mem : Memory) : Except Fault Ahci :=
  pciAhciInit pinned [some []] mem (fun _ => 0) >>= fun s =>
    run (step 64) s [.write 5 0x118 0x11, .write 5 0x138 1]

theorem hbaReset_restores_iff_error : Yields (fun _ => True)
    (fun s => 0 < s.sc.ascPi.lintrPin →
      Yields (fun _ => False)
        (fun t => ∀ k, (s.port k).attached = true → ((t.portAt k).Restored ↔ (s.port k).Idle))
        (s.pciAhciWrite 64 5 0x04 1))
    (afterError unknownCommand) := by
  -- so that the run is not evaluated
  generalize unknownCommand = mem
  exact hbaReset_restores_iff 64 pinned [some []] mem _ _ 1 (by decide)

theorem hbaReset_forgets : ¬ ∀ (fuel : Nat) (pi : PciDevinst)
    (disks : List (Option (List (BitVec 8)))) (mem : Memory) (stack : Nat → BitVec 8)
    (events : List Event) (value : BitVec 64), value.setWidth 32 &&& AHCI_GHC_HR ≠ 0 →
    Yields (fun _ => True)
      (fun s => 0 < s.sc.ascPi.lintrPin →
        Yields (fun _ => False)
          (fun t => ∀ k, (s.port k).attached = true → (t.portAt k).Restored)
          (s.pciAhciWrite fuel 5 0x04 value))
      (pciAhciInit pi disks mem stack >>= fun s => run (step fuel) s events) := by
  intro hAll
  have hLeft : Yields (fun _ => False)
      (fun r : Ahci × Ahci => 0 < r.1.sc.ascPi.lintrPin ∧ (r.1.port 0).attached = true ∧
        (r.2.port 0).waitforclear = true)
      (afterError unknownCommand >>= fun s => s.pciAhciWrite 64 5 0x04 1 >>= fun t => .ok (s, t)) := by
    decide +kernel
  have hRestored := hAll 64 pinned [some []] unknownCommand (fun _ => 0)
    [.write 5 0x118 0x11, .write 5 0x138 1] 1 (by decide)
  change Yields _ _ (afterError unknownCommand) at hRestored
  cases hRun : afterError unknownCommand with
  | error e =>
    rw [hRun] at hLeft
    exact hLeft
  | ok s =>
    rw [hRun, ok_bind] at hLeft
    cases hWrite : s.pciAhciWrite 64 5 0x04 1 with
    | error e =>
      rw [hWrite] at hLeft
      exact hLeft
    | ok t =>
      rw [hWrite, ok_bind] at hLeft
      obtain ⟨hPin, hAttached, hWait⟩ := hLeft
      have hClear := ((((hRestored.of_ok hRun) hPin).of_ok hWrite) 0 hAttached).waitforclear
      exact absurd (hClear.symm.trans hWait) Bool.false_ne_true

end Examples

end Ahci

end DeviceModel.PciAhci

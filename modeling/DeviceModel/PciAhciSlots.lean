import DeviceModel.BlockQueue
import DeviceModel.PciAhciTransfer
import Mathlib.Data.Fintype.Card

/-!
# The AHCI controller: requests and slots

The requests of a port are free or busy, busy ones are for different slots, and `pending` says
which slots these are. What a port records gives each slot a phase; between two functions of
the port a slot is idle or has a request out, and a function that handles a slot takes it from
phase to phase. So there is always a request on the free list and an element in the block
interface.
-/

set_option autoImplicit false

namespace DeviceModel.PciAhci

open Fallible BlockIf PciEmul

/-- Where a slot is with its command. -/
inductive Phase where
  | idle
  /-- the command is issued, and may have to make a request -/
  | begun (block : Bool)
  /-- a request is out -/
  | out
  /-- a request has come back, and may be the last one -/
  | back (last : Bool)
deriving DecidableEq

def PortEvent.slot? : PortEvent → Option Slot
  | .issue slot _ _ | .request slot | .served slot _ | .empty slot | .answer slot _ _ _ _
  | .cancel slot => some slot
  | .accept _ _ _ | .fis _ _ | .stopped _ _ => none

def Phase.next : Phase → PortEvent → Option Phase
  | .idle, .issue _ block _ => some (.begun block)
  | .begun _, .request _ => some .out
  | .begun false, .empty _ => some (.back true)
  | .begun false, .answer _ _ _ _ _ => some .idle
  | .out, .served _ last => some (.back last)
  | .out, .cancel _ => some .idle
  | .back false, .request _ => some .out
  | .back false, .empty _ => some (.back true)
  | .back true, .answer _ _ _ _ _ => some .idle
  | _, _ => none

def PortEvent.isStopped : PortEvent → Bool
  | .stopped _ _ => true
  | _ => false

/-- The phases after an event. Processing stops only when every slot is idle. -/
def phasesNext (f : Slot → Phase) (e : PortEvent) : Option (Slot → Phase) :=
  match e.slot? with
  | some slot => ((f slot).next e).map (Function.update f slot)
  | none => if e.isStopped ∧ ∃ slot, f slot ≠ .idle then none else some f

/-- The phases that a record leads to, if each event fits the phase of its slot. -/
def phases (trace : List PortEvent) : Option (Slot → Phase) :=
  trace.foldlM phasesNext fun _ => .idle

theorem phases_append_singleton (trace : List PortEvent) (e : PortEvent) :
    phases (trace ++ [e]) = (phases trace).bind (phasesNext · e) := by
  simp only [phases, List.foldlM_append]
  cases trace.foldlM phasesNext fun _ => .idle <;> simp

theorem phases_append_of_none {trace : List PortEvent} {e : PortEvent} (hSlot : e.slot? = none)
    (hGo : e.isStopped = false) : phases (trace ++ [e]) = phases trace := by
  have hSame : ∀ f, phasesNext f e = some f := by
    intro f
    rw [phasesNext, hSlot]
    exact if_neg fun hBad => Bool.eq_false_iff.mp hGo hBad.1
  rw [phases_append_singleton, funext hSame]
  exact Option.bind_fun_some _

theorem getLsbD_bit (k slot : Fin 32) : (bit k).getLsbD slot = decide (slot = k) := by
  have hTwo : bit k = BitVec.twoPow 32 k := rfl
  rw [hTwo, BitVec.getLsbD_twoPow]
  simp [Fin.ext_iff, eq_comm]

theorem getLsbD_or_bit (a : BitVec 32) (k slot : Fin 32) :
    (a ||| bit k).getLsbD slot = (a.getLsbD slot || decide (slot = k)) := by
  rw [BitVec.getLsbD_or, getLsbD_bit]

theorem getLsbD_and_not_bit (a : BitVec 32) (k slot : Fin 32) :
    (a &&& ~~~bit k).getLsbD slot = (a.getLsbD slot && !decide (slot = k)) := by
  rw [BitVec.getLsbD_and, BitVec.getLsbD_not, getLsbD_bit]
  simp [slot.isLt]

theorem getLsbD_of_and_bit {a : BitVec 32} {slot : Fin 32} (h : a &&& bit slot ≠ 0) :
    a.getLsbD slot = true := by
  by_contra hNot
  refine h (BitVec.eq_of_getLsbD_eq fun i hi => ?_)
  have hBit := getLsbD_bit slot ⟨i, hi⟩
  simp only [Fin.ext_iff] at hBit
  rw [BitVec.getLsbD_and, hBit]
  by_cases hEq : i = slot
  · subst hEq
    rw [Bool.eq_false_iff.mpr hNot, Bool.false_and]
    simp
  · simp [hEq]

namespace AhciPort

variable (p : AhciPort)

def queued : List (Option IoreqId) := p.bctx.bcPendq.map fun be => (p.bctx.bcReqs be).beReq

def Busy (slot : Slot) : Prop := ∃ aior ∈ p.iobhd, (p.ioreq aior).slot = slot

/-- The request structures of a port. `lag` are those that are busy but not queued, and `busyq`
is what the block interface has in flight. -/
structure Pool (lag : List IoreqId) (busyq : List ElemId) : Prop where
  attached : p.attached = true
  steady : Disk.Steady ⟨p.bctx, p.ioReq, fun _ => 0⟩
  busyq : p.bctx.bcBusyq = busyq
  perm : (p.iofhd ++ p.iobhd).Perm (List.finRange (BLOCKIF_MAXREQ - 1))
  queued : (lag.map some ++ p.queued).Perm (p.iobhd.map some)
  slots : (p.iobhd.map fun aior => (p.ioreq aior).slot).Nodup

/-- The slot is idle or has a request out, and the port knows which. -/
structure Settled (f : Slot → Phase) (slot : Slot) : Prop where
  phase : f slot = .idle ∨ f slot = .out
  pending : p.pending.getLsbD slot = true ↔ f slot = .out
  busy : p.Busy slot ↔ f slot = .out

/-- No slot is being handled. -/
structure Sound (lag : List IoreqId) (busyq : List ElemId) : Prop extends Pool p lag busyq where
  settled : ∃ f, phases p.trace = some f ∧ ∀ slot, p.Settled f slot

/-- One slot is being handled. -/
structure Handling (busyq : List ElemId) (slot : Slot) (phase : Phase) (pend : Bool) : Prop
    extends Pool p [] busyq where
  handled : ∃ f, phases p.trace = some f ∧ f slot = phase ∧ p.pending.getLsbD slot = pend ∧
    ¬ p.Busy slot ∧ ∀ other, other ≠ slot → p.Settled f other

structure SamePool (p q : AhciPort) : Prop where
  attached : q.attached = p.attached
  bctx : q.bctx = p.bctx
  pending : q.pending = p.pending
  ioReq : q.ioReq = p.ioReq
  ioreq : q.ioreq = p.ioreq
  iofhd : q.iofhd = p.iofhd
  iobhd : q.iobhd = p.iobhd
  phases : phases q.trace = phases p.trace

variable {p : AhciPort}

theorem SamePool.refl (p : AhciPort) : SamePool p p := ⟨rfl, rfl, rfl, rfl, rfl, rfl, rfl, rfl⟩

theorem SamePool.trans {q r : AhciPort} (h : SamePool p q) (h' : SamePool q r) : SamePool p r :=
  ⟨h'.attached.trans h.attached, h'.bctx.trans h.bctx, h'.pending.trans h.pending,
    h'.ioReq.trans h.ioReq, h'.ioreq.trans h.ioreq, h'.iofhd.trans h.iofhd, h'.iobhd.trans h.iobhd,
    h'.phases.trans h.phases⟩

section Same

variable {q : AhciPort} {lag : List IoreqId} {busyq : List ElemId} {slot : Slot} {phase : Phase}
  {pend : Bool} {f : Slot → Phase}

theorem Pool.of_same (h : p.Pool lag busyq) (hSame : SamePool p q) : q.Pool lag busyq := by
  obtain ⟨hAttached, hSteady, hBusyq, hPerm, hQueued, hSlots⟩ := h
  refine ⟨hSame.attached.trans hAttached, ?_, ?_, ?_, ?_, ?_⟩
  · rwa [hSame.bctx, hSame.ioReq]
  · rwa [hSame.bctx]
  · rwa [hSame.iofhd, hSame.iobhd]
  · rwa [AhciPort.queued, hSame.bctx, hSame.iobhd]
  · rwa [hSame.ioreq, hSame.iobhd]

theorem busy_of_same (hIoreq : q.ioreq = p.ioreq) (hIobhd : q.iobhd = p.iobhd) (slot : Slot) :
    q.Busy slot ↔ p.Busy slot := by
  rw [Busy, Busy, hIoreq, hIobhd]

theorem Settled.of_same (h : p.Settled f slot) (hPending : q.pending = p.pending)
    (hIoreq : q.ioreq = p.ioreq) (hIobhd : q.iobhd = p.iobhd) : q.Settled f slot :=
  ⟨h.phase, by rw [hPending]; exact h.pending, (busy_of_same hIoreq hIobhd slot).trans h.busy⟩

theorem Sound.of_same (h : p.Sound lag busyq) (hSame : SamePool p q) : q.Sound lag busyq := by
  obtain ⟨f, hPhases, hSettled⟩ := h.settled
  exact ⟨h.toPool.of_same hSame, f, hSame.phases.trans hPhases,
    fun slot => (hSettled slot).of_same hSame.pending hSame.ioreq hSame.iobhd⟩

theorem Handling.of_same (h : p.Handling busyq slot phase pend) (hSame : SamePool p q) :
    q.Handling busyq slot phase pend := by
  obtain ⟨f, hPhases, hPhase, hPend, hBusy, hSettled⟩ := h.handled
  refine ⟨h.toPool.of_same hSame, f, hSame.phases.trans hPhases, hPhase, ?_, ?_, ?_⟩
  · rw [hSame.pending]
    exact hPend
  · rwa [busy_of_same hSame.ioreq hSame.iobhd]
  · exact fun other hNe => (hSettled other hNe).of_same hSame.pending hSame.ioreq hSame.iobhd

end Same

section Steps

variable {lag : List IoreqId} {busyq : List ElemId} {slot : Slot} {phase : Phase} {pend : Bool}
  {aior : IoreqId}

theorem Handling.log (h : p.Handling busyq slot phase pend) {e : PortEvent} {phase' : Phase}
    (hSlot : e.slot? = some slot) (hNext : phase.next e = some phase') :
    Handling { p with trace := p.trace ++ [e] } busyq slot phase' pend := by
  obtain ⟨f, hPhases, rfl, hPend, hBusy, hSettled⟩ := h.handled
  refine ⟨⟨h.attached, h.steady, h.busyq, h.perm, h.queued, h.slots⟩, Function.update f slot phase',
    ?_, ?_, hPend, hBusy, fun other hNe => ?_⟩
  · rw [phases_append_singleton, hPhases, Option.bind_some, phasesNext, hSlot]
    simp [hNext]
  · rw [Function.update_self]
  · have hOther := hSettled other hNe
    refine ⟨?_, ?_, ?_⟩ <;> rw [Function.update_of_ne hNe]
    · exact hOther.phase
    · exact hOther.pending
    · exact hOther.busy

theorem Sound.handle (h : p.Sound [] busyq) (hPend : p.pending.getLsbD slot = false) :
    p.Handling busyq slot .idle false := by
  obtain ⟨f, hPhases, hSettled⟩ := h.settled
  have hSlot := hSettled slot
  have hNot : f slot ≠ .out := by
    intro hOut
    rw [← hSlot.pending, hPend] at hOut
    exact Bool.false_ne_true hOut
  exact ⟨h.toPool, f, hPhases, hSlot.phase.resolve_right hNot, hPend, hSlot.busy.not.mpr hNot,
    fun other _ => hSettled other⟩

/-- A slot whose command has ended is no longer pending. -/
theorem Handling.settle (h : p.Handling busyq slot .idle pend) :
    Sound { p with pending := p.pending &&& ~~~bit slot } [] busyq := by
  obtain ⟨f, hPhases, hPhase, -, hBusy, hSettled⟩ := h.handled
  refine ⟨⟨h.attached, h.steady, h.busyq, h.perm, h.queued, h.slots⟩, f, hPhases, fun other => ?_⟩
  by_cases hEq : other = slot
  · subst hEq
    refine ⟨.inl hPhase, ?_, ?_⟩
    · rw [getLsbD_and_not_bit]
      simp [hPhase]
    · exact iff_of_false hBusy (by simp [hPhase])
  · have hOther := hSettled other hEq
    refine ⟨hOther.phase, ?_, hOther.busy⟩
    rw [getLsbD_and_not_bit]
    simpa [hEq] using hOther.pending

theorem Handling.sound (h : p.Handling busyq slot .idle false) : p.Sound [] busyq := by
  obtain ⟨f, hPhases, hPhase, hPend, hBusy, hSettled⟩ := h.handled
  refine ⟨h.toPool, f, hPhases, fun other => ?_⟩
  by_cases hEq : other = slot
  · subst hEq
    exact ⟨.inl hPhase, by rw [hPend, hPhase]; decide, iff_of_false hBusy (by simp [hPhase])⟩
  · exact hSettled other hEq

theorem Pool.iobhd_length (h : p.Pool lag busyq) : p.iobhd.length ≤ 32 := by
  have hLess := List.Nodup.length_le_card h.slots
  simpa using hLess

theorem Pool.busyq_length (h : p.Pool lag busyq) : busyq.length ≤ 1 := by
  rw [← h.busyq]
  obtain hIdle | ⟨be, hOne, -⟩ := h.steady.quiet
  · have hNone : p.bctx.bcBusyq = [] := hIdle
    simp [hNone]
  · have hOne' : p.bctx.bcBusyq = [be] := hOne
    simp [hOne']

/-- There is always a request on the free list. -/
theorem Pool.free (h : p.Pool lag busyq) : ∃ aior iofhd, p.iofhd = aior :: iofhd := by
  cases hFree : p.iofhd with
  | cons aior iofhd => exact ⟨aior, iofhd, rfl⟩
  | nil =>
    have hLength := h.perm.length_eq
    have hBusy := h.iobhd_length
    rw [hFree, List.nil_append, List.length_finRange] at hLength
    rw [hLength] at hBusy
    exact absurd hBusy (by decide)

theorem Pool.nodup (h : p.Pool lag busyq) : (p.iofhd ++ p.iobhd).Nodup :=
  h.perm.nodup_iff.mpr (List.nodup_finRange _)

theorem Pool.iobhd_nodup (h : p.Pool lag busyq) : p.iobhd.Nodup := (List.nodup_append.mp h.nodup).2.1

theorem Pool.not_busy (h : p.Pool lag busyq) (hFree : aior ∈ p.iofhd) : aior ∉ p.iobhd := by
  intro hBusy
  exact (List.nodup_append.mp h.nodup).2.2 aior hFree aior hBusy rfl

theorem Handling.push (h : p.Handling busyq slot phase pend) {iofhd : List IoreqId}
    (hFree : p.iofhd = aior :: iofhd) (hNext : phase.next (.request slot) = some .out)
    {io : AhciIoreq} (hSlot : io.slot = slot) (breq : BlockifReq) :
    Sound { p with
      iofhd := iofhd
      ioreq := Function.update p.ioreq aior io
      ioReq := Function.update p.ioReq aior breq
      pending := p.pending ||| bit slot
      iobhd := aior :: p.iobhd
      trace := p.trace ++ [.request slot] } [aior] busyq := by
  obtain ⟨f, hPhases, rfl, hPend, hBusy, hSettled⟩ := h.handled
  have hNew : aior ∉ p.iobhd := h.not_busy (by simp [hFree])
  have hIoreq : ∀ other ∈ p.iobhd, Function.update p.ioreq aior io other = p.ioreq other := by
    intro other hMem
    refine Function.update_of_ne ?_ _ _
    rintro rfl
    exact hNew hMem
  have hSlots : (p.iobhd.map fun other => (Function.update p.ioreq aior io other).slot) =
      p.iobhd.map fun other => (p.ioreq other).slot :=
    List.map_congr_left fun other hMem => by rw [hIoreq other hMem]
  refine ⟨⟨h.attached, ?_, h.busyq, ?_, ?_, ?_⟩, Function.update f slot .out, ?_, fun other => ?_⟩
  · have hOwn : ¬ Disk.Holds ⟨p.bctx, p.ioReq, fun _ => 0⟩ aior := by
      rw [Disk.holds_iff_mem_queued]
      intro hMem
      have hMem' := h.queued.subset (List.mem_append_right _ hMem)
      exact hNew (by simpa using hMem')
    exact (Disk.fill_keeps h.steady hOwn breq).steady
  · have hPerm := h.perm
    rw [hFree] at hPerm
    exact List.perm_middle.trans hPerm
  · exact h.queued.cons (some aior)
  · have hHead : (Function.update p.ioreq aior io aior).slot = slot := by
      rw [Function.update_self, hSlot]
    rw [List.map_cons, hSlots, List.nodup_cons, hHead]
    refine ⟨?_, h.slots⟩
    simpa [Busy] using hBusy
  · rw [phases_append_singleton, hPhases, Option.bind_some, phasesNext]
    simp [PortEvent.slot?, hNext]
  · have hOut : Busy { p with ioreq := Function.update p.ioreq aior io, iobhd := aior :: p.iobhd } other ↔
        other = slot ∨ p.Busy other := by
      simp only [Busy, List.mem_cons, exists_eq_or_imp, Function.update_self, hSlot]
      refine or_congr eq_comm (exists_congr fun a => and_congr_right fun hMem => ?_)
      rw [hIoreq a hMem]
    by_cases hEq : other = slot
    · subst hEq
      refine ⟨.inr (Function.update_self ..), ?_, ?_⟩
      · rw [getLsbD_or_bit]
        simp
      · rw [Function.update_self]
        exact iff_of_true (hOut.mpr (.inl rfl)) rfl
    · have hOther := hSettled other hEq
      refine ⟨?_, ?_, ?_⟩ <;> rw [Function.update_of_ne hEq]
      · exact hOther.phase
      · rw [getLsbD_or_bit]
        simpa [hEq] using hOther.pending
      · exact (hOut.trans (or_iff_right hEq)).trans hOther.busy

theorem Sound.release (h : p.Sound [aior] busyq) (hSlot : (p.ioreq aior).slot = slot) :
    Handling { p with iobhd := p.iobhd.erase aior, iofhd := p.iofhd ++ [aior] } busyq slot .out true := by
  obtain ⟨f, hPhases, hSettled⟩ := h.settled
  have hMem : aior ∈ p.iobhd := by
    have hSome := h.queued.subset (List.mem_append_left _ (by simp : some aior ∈ [aior].map some))
    simpa using hSome
  have hCons := List.perm_cons_erase hMem
  have hNodup : (aior :: p.iobhd.erase aior).Nodup := hCons.nodup_iff.mp h.iobhd_nodup
  have hSlots : (slot :: (p.iobhd.erase aior).map fun other => (p.ioreq other).slot).Nodup := by
    have hPerm := hCons.map fun other => (p.ioreq other).slot
    rw [List.map_cons, hSlot] at hPerm
    exact hPerm.nodup_iff.mp h.slots
  have hOut : ∀ other, p.Busy other ↔ other = slot ∨
      Busy { p with iobhd := p.iobhd.erase aior } other := by
    intro other
    simp only [Busy, hCons.mem_iff, List.mem_cons, exists_eq_or_imp, hSlot]
    rw [eq_comm]
  have hBusy : p.Busy slot := (hOut slot).mpr (.inl rfl)
  have hPhase : f slot = .out := (hSettled slot).busy.mp hBusy
  have hPend := (hSettled slot).pending.mpr hPhase
  refine ⟨⟨h.attached, h.steady, h.busyq, ?_, ?_, (List.nodup_cons.mp hSlots).2⟩, f, hPhases, hPhase,
    hPend, ?_, fun other hNe => ?_⟩
  · refine List.Perm.trans ?_ h.perm
    rw [List.append_assoc]
    exact List.Perm.append_left _ hCons.symm
  · have hQueued := h.queued.trans (hCons.map some)
    exact List.Perm.cons_inv hQueued
  · have hNot := (List.nodup_cons.mp hSlots).1
    simpa [Busy] using hNot
  · have hOther := hSettled other
    exact ⟨hOther.phase, hOther.pending, ((hOut other).trans (or_iff_right hNe)).symm.trans hOther.busy⟩

end Steps

end AhciPort

/-- What a sound port may stop at besides what its commands make it stop at. -/
structure Admits (pin : Nat) (E : Fault → Prop) : Prop where
  lintrPin : pin = 0 → E .lintrPin

structure AdmitsAll (pin : Nat) (E : Fault → Prop) : Prop extends Admits pin E where
  buildIovTodo : E .buildIovTodo
  bufferIndex : E .bufferIndex
  portLoop : E .portLoop
  thrLoop : E .thrLoop

/-- A fault other than the assertions on requests. -/
def NotPool (e : Fault) : Prop := e ≠ .aiorNull ∧ e ≠ .aiorRefused

theorem notPool_admits (pin : Nat) : AdmitsAll pin NotPool :=
  ⟨⟨fun _ => ⟨by decide, by decide⟩⟩, ⟨by decide, by decide⟩, ⟨by decide, by decide⟩,
    ⟨by decide, by decide⟩, ⟨by decide, by decide⟩⟩

theorem assertThat_notPool {c : Prop} [Decidable c] {e : Fault}
    (hFault : NotPool e := by exact ⟨by decide, by decide⟩) :
    Yields NotPool (fun _ => c) (assertThat c e) :=
  assertThat_yields fun _ => hFault

def Phase.Ends (phase : Phase) : Prop := phase = .begun false ∨ phase = .back true

theorem Phase.Ends.next {phase : Phase} (h : phase.Ends) (slot : Slot) (queued error : Bool)
    (before after : Outstanding) :
    phase.next (.answer slot queued error before after) = some .idle := by
  obtain rfl | rfl := h <;> rfl

namespace Port

open AhciPort

def pin (s : Port) : Nat := s.sc.ascPi.lintrPin

structure Keeps (s t : Port) : Prop where
  pool : SamePool s.p t.p
  pin : t.pin = s.pin

/-- No slot is being handled, and the interrupt has the pin. -/
structure SoundAt (s : Port) (pin : Nat) (lag : List IoreqId) (busyq : List ElemId) : Prop where
  sound : s.p.Sound lag busyq
  pin : s.pin = pin

structure HandlingAt (s : Port) (pin : Nat) (busyq : List ElemId) (slot : Slot) (phase : Phase)
    (pend : Bool) : Prop where
  handling : s.p.Handling busyq slot phase pend
  pin : s.pin = pin

variable {s t : Port} {lag : List IoreqId} {busyq : List ElemId} {slot : Slot} {phase : Phase}
  {pend : Bool} {pin : Nat} {E : Fault → Prop}

theorem Keeps.refl (s : Port) : Keeps s s := ⟨SamePool.refl _, rfl⟩

theorem Keeps.trans {u : Port} (h : Keeps s t) (h' : Keeps t u) : Keeps s u :=
  ⟨h.pool.trans h'.pool, h'.pin.trans h.pin⟩

theorem SoundAt.keeps (h : s.SoundAt pin lag busyq) (hKeeps : Keeps s t) : t.SoundAt pin lag busyq :=
  ⟨h.sound.of_same hKeeps.pool, hKeeps.pin.trans h.pin⟩

theorem HandlingAt.keeps (h : s.HandlingAt pin busyq slot phase pend) (hKeeps : Keeps s t) :
    t.HandlingAt pin busyq slot phase pend :=
  ⟨h.handling.of_same hKeeps.pool, hKeeps.pin.trans h.pin⟩

theorem SoundAt.attached (h : s.SoundAt pin lag busyq) : s.p.attached = true := h.sound.attached

theorem HandlingAt.attached (h : s.HandlingAt pin busyq slot phase pend) : s.p.attached = true :=
  h.handling.attached

section Fis

theorem pciLintrAssert_pin (pi : PciDevinst) (hE : pi.lintrPin = 0 → E .lintrPin) :
    Yields E (fun pi' => pi'.lintrPin = pi.lintrPin) pi.pciLintrAssert := by
  have hPin : Yields E (fun _ => 0 < pi.lintrPin) (assertThat (0 < pi.lintrPin) .lintrPin) :=
    assertThat_yields fun hNone => hE (Nat.eq_zero_of_not_pos hNone)
  exact hPin.bind fun _ _ _ => Yields.ite (Yields.ite rfl rfl) rfl

theorem pciLintrDeassert_pin (pi : PciDevinst) (hE : pi.lintrPin = 0 → E .lintrPin) :
    Yields E (fun pi' => pi'.lintrPin = pi.lintrPin) pi.pciLintrDeassert := by
  have hPin : Yields E (fun _ => 0 < pi.lintrPin) (assertThat (0 < pi.lintrPin) .lintrPin) :=
    assertThat_yields fun hNone => hE (Nat.eq_zero_of_not_pos hNone)
  apply hPin.bind
  intro _ _ _
  split <;> rfl

theorem ahciPortIntr_keeps (hAttached : s.p.attached = true) (hE : Admits s.pin E) :
    Yields E (fun t => t.p = s.p ∧ t.pin = s.pin) s.ahciPortIntr := by
  unfold ahciPortIntr raiseIntr
  rw [assertThat_of _ hAttached, ok_bind]
  refine Yields.ite ⟨rfl, rfl⟩ (Yields.ite ⟨rfl, rfl⟩ (Yields.ite ⟨rfl, rfl⟩ (Yields.ite ⟨rfl, rfl⟩
    (Yields.ite ⟨rfl, rfl⟩ (Yields.ite ⟨rfl, rfl⟩ ?_)))))
  exact (pciLintrAssert_pin _ hE.lintrPin).bind fun _ _ hPi => ⟨rfl, hPi⟩

theorem ahciPortIntr_port (s : Port) : Yields (fun _ => True) (fun t => t.p = s.p) s.ahciPortIntr := by
  by_cases hAttached : s.p.attached = true
  · exact (ahciPortIntr_keeps hAttached ⟨fun _ => trivial⟩).imp fun _ _ ht => ht.1
  · unfold ahciPortIntr
    rw [assertThat, if_neg hAttached]
    trivial

theorem ahciWriteFis_keeps (hAttached : s.p.attached = true) (hE : Admits s.pin E)
    (ft : SataFisType) (fis : List (BitVec 8)) : Yields E (Keeps s) (s.ahciWriteFis ft fis) := by
  unfold ahciWriteFis
  split
  · next rfis offset len ix _ _ =>
    refine Yields.ite (Keeps.refl s) ?_
    have hStore : Keeps s (s.storeFis ft (rfis + BitVec.ofNat 64 offset) (fis.take len)) :=
      ⟨⟨rfl, rfl, rfl, rfl, rfl, rfl, rfl, phases_append_of_none rfl rfl⟩, rfl⟩
    refine Yields.ite hStore (Yields.imp (ahciPortIntr_keeps ?_ ?_) ?_)
    · exact hAttached
    · exact hE
    · intro t _ ht
      refine ⟨?_, ht.2⟩
      rw [ht.1]
      exact hStore.pool.trans ⟨rfl, rfl, rfl, rfl, rfl, rfl, rfl, rfl⟩
  · exact Keeps.refl s

theorem ahciWriteFisD2hNcq_keeps (hAttached : s.p.attached = true) (hE : Admits s.pin E)
    (slot : Slot) : Yields E (Keeps s) (s.ahciWriteFisD2hNcq slot) := by
  unfold ahciWriteFisD2hNcq
  refine Yields.imp (ahciWriteFis_keeps ?_ ?_ _ _) ?_
  · exact hAttached
  · exact hE
  · intro t _ ht
    refine Keeps.trans ?_ ht
    exact ⟨⟨rfl, rfl, rfl, rfl, rfl, rfl, rfl, phases_append_of_none rfl rfl⟩, rfl⟩

theorem ahciPortReset_keeps (hE : Admits s.pin E) : Yields E (Keeps s) s.ahciPortReset := by
  unfold ahciPortReset
  dsimp only
  split
  · exact ⟨⟨rfl, rfl, rfl, rfl, rfl, rfl, rfl, rfl⟩, rfl⟩
  · next hAttached =>
    refine Yields.imp (ahciWriteFis_keeps ?_ ?_ _ _) ?_
    · exact not_not.mp hAttached
    · exact hE
    · intro t _ ht
      refine Keeps.trans ?_ ht
      exact ⟨⟨rfl, rfl, rfl, rfl, rfl, rfl, rfl, rfl⟩, rfl⟩

theorem HandlingAt.writeFis (h : s.HandlingAt pin busyq slot phase pend) (hE : Admits pin E)
    (ft : SataFisType) (fis : List (BitVec 8)) :
    Yields E (fun t => t.HandlingAt pin busyq slot phase pend) (s.ahciWriteFis ft fis) :=
  (ahciWriteFis_keeps h.attached (by rw [h.pin]; exact hE) ft fis).imp fun _ _ ht => h.keeps ht

theorem HandlingAt.log (h : s.HandlingAt pin busyq slot phase pend) {p : AhciPort}
    (hSame : SamePool s.p p) {e : PortEvent} {phase' : Phase} (hSlot : e.slot? = some slot)
    (hNext : phase.next e = some phase') :
    HandlingAt (Port.log { s with p := p } e) pin busyq slot phase' pend :=
  ⟨(h.handling.of_same hSame).log hSlot hNext, h.pin⟩

theorem ahciWriteFisSdb_ends (h : s.HandlingAt pin busyq slot phase pend) (hE : Admits pin E)
    (hEnds : phase.Ends) (cfis : BitVec 64) (tfd : BitVec 32) :
    Yields E (fun t => t.HandlingAt pin busyq slot .idle pend) (s.ahciWriteFisSdb slot cfis tfd) := by
  unfold ahciWriteFisSdb
  dsimp only
  refine HandlingAt.writeFis (h.log ?_ rfl (hEnds.next _ _ _ _ _)) hE _ _
  split <;> exact ⟨rfl, rfl, rfl, rfl, rfl, rfl, rfl, rfl⟩

theorem ahciWriteFisD2h_ends (h : s.HandlingAt pin busyq slot phase pend) (hE : Admits pin E)
    (hEnds : phase.Ends) (cfis : BitVec 64) (tfd : BitVec 32) :
    Yields E (fun t => t.HandlingAt pin busyq slot .idle pend) (s.ahciWriteFisD2h slot cfis tfd) := by
  unfold ahciWriteFisD2h
  dsimp only
  refine HandlingAt.writeFis (h.log ?_ rfl (hEnds.next _ _ _ _ _)) hE _ _
  split <;> exact ⟨rfl, rfl, rfl, rfl, rfl, rfl, rfl, rfl⟩

theorem HandlingAt.settle (h : s.HandlingAt pin busyq slot .idle pend) :
    SoundAt { s with p.pending := s.p.pending &&& ~~~bit slot } pin [] busyq :=
  ⟨h.handling.settle, h.pin⟩

theorem ahciCheckStopped_sound (h : s.SoundAt pin [] busyq) :
    s.ahciCheckStopped.SoundAt pin [] busyq := by
  unfold ahciCheckStopped
  split
  · next hStop =>
    obtain ⟨f, hPhases, hSettled⟩ := h.sound.settled
    have hIdle : ¬ ∃ slot, f slot ≠ .idle := by
      rintro ⟨slot, hNot⟩
      have hPend := (hSettled slot).pending.mpr ((hSettled slot).phase.resolve_left hNot)
      rw [hStop.2] at hPend
      simp at hPend
    refine h.keeps ⟨⟨rfl, rfl, rfl, rfl, rfl, rfl, rfl, ?_⟩, rfl⟩
    simp only [Port.log, phases_append_singleton, hPhases, Option.bind_some]
    exact if_neg fun hBad => hIdle hBad.2
  · exact h

end Fis

section Requests

/-- What `ahci_build_iov` may stop a request at. -/
theorem rwChunk_stops (s : Port) (slot : Slot) (cfis : BitVec 64) (done : Nat) :
    StopsOnly (· = .buildIovTodo) (s.rwChunk slot cfis done) := by
  have hBuild : StopsOnly (· = .buildIovTodo) (s.ahciBuildIov s.p.bctx.bcSectsz (cfis + 0x80)
      (s.prdtl slot) (s.rwLen cfis) done) :=
    StopsOnly.ite (StopsOnly.bind (stopsOnly_assertThat rfl) fun _ => stopsOnly_ok _) (stopsOnly_ok _)
  exact StopsOnly.bind hBuild fun _ => stopsOnly_ok _

theorem trimEntry_stops (buf : List (BitVec 8)) (len n done : Nat) :
    StopsOnly (· = .bufferIndex) (trimEntry buf len n done) := by
  induction n generalizing done with
  | zero => exact stopsOnly_error rfl
  | succ n ih =>
    refine StopsOnly.bind (stopsOnly_assertThat rfl) fun _ => ?_
    exact StopsOnly.ite (stopsOnly_ok _) (StopsOnly.ite (stopsOnly_ok _) (ih _))

/-- The entries of a range list that lies in the buffer can all be read. -/
theorem trimEntry_returns {buf : List (BitVec 8)} {len : Nat} (hLen : len ≤ buf.length) (n : Nat) {done : Nat}
    (hDone : done + 8 ≤ len) (hAlign : 8 ∣ len - done) (hFuel : len < done + 8 * n) :
    Returns (trimEntry buf len n done) := by
  induction n generalizing done with
  | zero => omega
  | succ n ih =>
    rw [trimEntry, returns_assertThat_bind_iff]
    refine ⟨by omega, ?_⟩
    dsimp only
    split
    · exact returns_ok _
    split
    · exact returns_ok _
    · exact ih (by omega) (by omega) (by omega)

theorem pullIoreq_yields (h : s.p.Pool [] busyq) : ∃ aior iofhd, s.p.iofhd = aior :: iofhd ∧
    s.pullIoreq = .ok (aior, { s with p.iofhd := iofhd }) := by
  obtain ⟨aior, iofhd, hFree⟩ := h.free
  refine ⟨aior, iofhd, hFree, ?_⟩
  unfold pullIoreq
  rw [hFree]

/-- The block interface takes a request in. -/
theorem handOver_sound {aior : IoreqId} (h : s.SoundAt pin [aior] busyq) (op : BlockOp) :
    Yields E (fun t => t.SoundAt pin [] busyq) (s.handOver op aior) := by
  have hSteady : Disk.Steady ⟨s.p.bctx, s.p.ioReq, s.mem⟩ := h.sound.steady.memory s.mem
  have hRoom : s.p.queued.length + s.p.bctx.bcBusyq.length < BLOCKIF_MAXREQ := by
    have hQueued := h.sound.queued.length_eq
    have hBusy := h.sound.iobhd_length
    have hBusyq := h.sound.busyq_length
    rw [h.sound.busyq]
    simp only [List.map_cons, List.map_nil, List.length_append, List.length_cons, List.length_nil,
      List.length_map] at hQueued
    have hMax : BLOCKIF_MAXREQ = 72 := rfl
    omega
  obtain ⟨d, hOk, hSteady', hBusyq, hQueued, hReq, -⟩ := Disk.blockifOp_queued hSteady op aior hRoom
  rw [handOver_eq, onDisk_eq h.attached hOk]
  have hReq' : d.req = s.p.ioReq := hReq
  obtain ⟨f, hPhases, hSettled⟩ := h.sound.settled
  refine ⟨⟨⟨h.attached, hSteady'.memory _, hBusyq.trans h.sound.busyq, h.sound.perm, ?_,
    h.sound.slots⟩, f, hPhases, fun slot =>
      ⟨(hSettled slot).phase, (hSettled slot).pending, (hSettled slot).busy⟩⟩, h.pin⟩
  have hQueued' : d.queued = s.p.queued ++ [some aior] := hQueued
  refine List.Perm.trans ?_ h.sound.queued
  rw [List.map_nil, List.nil_append]
  exact (List.Perm.of_eq hQueued').trans List.perm_append_comm

theorem sendOut_sound (h : s.HandlingAt pin busyq slot phase pend) (hE : Admits pin E)
    {aior : IoreqId} {iofhd : List IoreqId} (hFree : s.p.iofhd = aior :: iofhd)
    (hNext : phase.next (.request slot) = some .out) {io : AhciIoreq} (hSlot : io.slot = slot)
    (op : BlockOp) (accept : Bool) (breq : BlockifReq) :
    Yields E (fun t => t.SoundAt pin [] busyq)
      (Port.sendOut { s with p.iofhd := iofhd } op accept aior io breq) := by
  subst hSlot
  have hPush : (Port.pushIoreq { s with p.iofhd := iofhd } aior io breq).SoundAt pin [aior] busyq :=
    ⟨h.handling.push hFree hNext rfl breq, h.pin⟩
  refine Yields.bind (P := fun t : Port => t.SoundAt pin [aior] busyq) (Yields.ite ?_ hPush)
    fun t _ ht => handOver_sound ht op
  have hFis := ahciWriteFisD2hNcq_keeps (E := E) hPush.attached (by rw [hPush.pin]; exact hE) io.slot
  exact hFis.imp fun t _ ht => hPush.keeps ht

/-- A request to read or write goes out, unless its vectors cannot be built. -/
theorem ahciHandleRw_sound (h : s.HandlingAt pin busyq slot phase pend) (hE : Admits pin E)
    (hNext : phase.next (.request slot) = some .out) (cfis : BitVec 64) (done : Nat)
    (hChunk : ∀ e, s.rwChunk slot cfis done = .error e → E e) :
    Yields E (fun t => t.SoundAt pin [] busyq) (s.ahciHandleRw slot cfis done) := by
  obtain ⟨aior, iofhd, hFree, hPull⟩ := pullIoreq_yields h.handling.toPool
  rw [ahciHandleRw_eq, assertThat_of _ h.attached, ok_bind, hPull, ok_bind]
  dsimp only
  cases hBuilt : s.rwChunk slot cfis done with
  | error e => exact hChunk e hBuilt
  | ok c =>
    have hSlot : c.1.slot = slot := by
      unfold rwChunk at hBuilt
      obtain ⟨b, -, hOk⟩ := bind_eq_ok_iff.mp hBuilt
      rw [← Except.ok.inj hOk]
    exact sendOut_sound h hE hFree hNext hSlot _ _ _

theorem ahciHandleFlush_sound (h : s.HandlingAt pin busyq slot phase pend) (hE : Admits pin E)
    (hNext : phase.next (.request slot) = some .out) (cfis : BitVec 64) :
    Yields E (fun t => t.SoundAt pin [] busyq) (s.ahciHandleFlush slot cfis) := by
  obtain ⟨aior, iofhd, hFree, hPull⟩ := pullIoreq_yields h.handling.toPool
  rw [ahciHandleFlush, hPull, ok_bind]
  exact sendOut_sound h hE hFree hNext rfl _ _ _

def trimLen (s : Port) (cfis : BitVec 64) : Nat :=
  let c := s.cfisByte cfis
  (if c 2 ≠ ATA_DATA_SET_MANAGEMENT then c 11 ++ c 3 else c 13 ++ c 12).toNat * 512

theorem ahciHandleDsmTrim_sound (h : s.HandlingAt pin busyq slot phase pend) (hE : Admits pin E)
    (hPhase : phase = .begun false ∨ phase = .back false) (cfis : BitVec 64) (done : Nat)
    (hEntry : ∀ e, trimEntry (s.readPrdt slot cfis 512) (s.trimLen cfis) 65 done = .error e → E e) :
    Yields E (fun r => r.2.SoundAt pin [] busyq) (s.ahciHandleDsmTrim slot cfis done) := by
  have hNext : phase.next (.request slot) = some .out := by obtain rfl | rfl := hPhase <;> rfl
  have hEmpty : phase.next (.empty slot) = some (.back true) := by obtain rfl | rfl := hPhase <;> rfl
  change Yields E _ (trimEntry (s.readPrdt slot cfis 512) (s.trimLen cfis) 65 done >>= _)
  cases hFirst : trimEntry (s.readPrdt slot cfis 512) (s.trimLen cfis) 65 done with
  | error e => exact hEntry e hFirst
  | ok r =>
    rw [ok_bind]
    dsimp only
    split
    · have hBack : (s.log (.empty slot)).HandlingAt pin busyq slot (.back true) pend :=
        h.log (SamePool.refl _) rfl hEmpty
      refine Yields.bind (P := fun t : Port => t.HandlingAt pin busyq slot (.back true) pend)
        (Yields.ite ?_ hBack) fun t _ ht => ?_
      · have hFis := ahciWriteFisD2hNcq_keeps (E := E) hBack.attached (by rw [hBack.pin]; exact hE) slot
        exact hFis.imp fun t _ ht => hBack.keeps ht
      refine Yields.bind (P := fun u : Port => u.HandlingAt pin busyq slot .idle pend) (Yields.ite ?_ ?_)
        fun u _ hu => ahciCheckStopped_sound hu.settle
      · exact ahciWriteFisSdb_ends ht hE (.inr rfl) _ _
      · exact ahciWriteFisD2h_ends ht hE (.inr rfl) _ _
    · obtain ⟨aior, iofhd, hFree, hPull⟩ := pullIoreq_yields h.handling.toPool
      rw [hPull, ok_bind]
      have hSectsz : Port.sectsz { s with p.iofhd := iofhd } = .ok s.p.bctx.bcSectsz := by
        rw [sectsz, assertThat_of _ h.attached]
        rfl
      dsimp only
      rw [hSectsz, ok_bind]
      exact (sendOut_sound h hE hFree hNext rfl _ _ _).bind fun u _ hu => hu

end Requests

section Dispatch

theorem dataIn_ends (h : s.HandlingAt pin busyq slot (.begun false) pend) (hE : Admits pin E)
    (cfis : BitVec 64) (pio : Bool) (buf : List (BitVec 8)) :
    Yields E (fun t => t.HandlingAt pin busyq slot .idle pend) (s.dataIn slot cfis pio buf) := by
  refine Yields.bind (P := fun t : Port => t.HandlingAt pin busyq slot (.begun false) pend)
    (Yields.ite (h.writeFis hE _ _) h) fun t _ ht => ?_
  refine ahciWriteFisD2h_ends (s := t.writePrdt slot cfis buf) (ht.keeps ?_) hE (.inl rfl) _ _
  exact ⟨⟨rfl, rfl, rfl, rfl, rfl, rfl, rfl, rfl⟩, rfl⟩

/-- The range list of a command that is issued lies in the buffer. -/
theorem trimEntry_issued {cfis : BitVec 64} (hTrim : s.IsTrim cfis) :
    Returns (trimEntry (s.readPrdt slot cfis 512) (s.trimLen cfis) 65 0) := by
  have hLen : s.trimLen cfis = 512 := by
    rw [trimLen]
    obtain ⟨hCmd, -, -, hHigh, hLow⟩ | ⟨hCmd, -, -, -, hHigh, hLow⟩ := hTrim
    · rw [hCmd, hHigh, hLow, if_neg (fun h => h rfl)]
      decide
    · rw [hCmd, hHigh, hLow, if_pos (by decide)]
      decide
  have hBuf : 512 ≤ (s.readPrdt slot cfis 512).length := by
    rw [readPrdt, List.length_append, List.length_map, List.length_drop, List.length_range]
    omega
  rw [hLen]
  exact trimEntry_returns hBuf 65 (by omega) (by omega) (by omega)

theorem ahciHandleCmd_sound (h : s.SoundAt pin [] busyq) (hE : Admits pin E)
    (hPend : s.p.pending.getLsbD slot = false) (cfis : BitVec 64)
    (hRw : s.IsRw cfis → ∀ e, s.rwChunk slot cfis 0 = .error e → E e) :
    Yields E (fun t => t.SoundAt pin [] busyq) (s.ahciHandleCmd slot cfis) := by
  have hIssued : ∀ block, decide (s.IsBlock cfis) = block →
      (s.issued slot cfis).HandlingAt pin busyq slot (.begun block) false := by
    rintro block rfl
    have hIdle : s.HandlingAt pin busyq slot .idle false := ⟨h.sound.handle hPend, h.pin⟩
    have hSame : SamePool s.p { s.p with tfd := s.p.tfd ||| ATA_S_BUSY } :=
      ⟨rfl, rfl, rfl, rfl, rfl, rfl, rfl, rfl⟩
    exact hIdle.log hSame (e := .issue slot (decide (s.IsBlock cfis)) (decide (s.IsQueued cfis))) rfl rfl
  have hNot := fun hBlock => hIssued false (decide_eq_false hBlock)
  have hSound : ∀ t : Port, t.HandlingAt pin busyq slot .idle false → t.SoundAt pin [] busyq :=
    fun t ht => ⟨ht.handling.sound, ht.pin⟩
  refine ahciHandleCmd_rule (fun hBlock _ _ _ _ _ _ => ?_) (fun hBlock _ _ _ => ?_)
    (fun hAbsent => ?_) (fun hIsRw => ?_) (fun hFlush => ?_) fun hBlock hTrim => ?_
  · refine (ahciWriteFisD2h_ends ((hNot hBlock).keeps ?_) hE (.inl rfl) _ _).imp fun t _ ht => hSound t ht
    exact ⟨⟨rfl, rfl, rfl, rfl, rfl, rfl, rfl, rfl⟩, rfl⟩
  · exact (dataIn_ends (hNot hBlock) hE _ _ _).imp fun t _ ht => hSound t ht
  · exact absurd (h.attached.symm.trans hAbsent) Bool.noConfusion
  · exact ahciHandleRw_sound (hIssued true (decide_eq_true (.inl hIsRw))) hE rfl _ _ (hRw hIsRw)
  · exact ahciHandleFlush_sound (hIssued true (decide_eq_true (.inr hFlush))) hE rfl _
  · refine (ahciHandleDsmTrim_sound (hNot hBlock) hE (.inl rfl) _ _ fun e hStop => ?_).map
    obtain ⟨r, hOk⟩ := @trimEntry_issued _ slot _ hTrim
    exact absurd (hOk.symm.trans hStop) (by rintro ⟨⟩)

theorem controlFis_keeps (hE : Admits s.pin E) (slot : Slot) (cfis : BitVec 64) :
    Yields E (Keeps s) (s.controlFis slot cfis) := by
  refine Yields.bind (P := Keeps s) (Yields.ite ?_ (Yields.ite ?_ (Keeps.refl _)))
    fun t _ ht => ht.trans ?_
  · exact ⟨⟨rfl, rfl, rfl, rfl, rfl, rfl, rfl, rfl⟩, rfl⟩
  · refine Yields.imp (ahciPortReset_keeps ?_) ?_
    · exact hE
    · intro t _ ht
      refine Keeps.trans ?_ ht
      exact ⟨⟨rfl, rfl, rfl, rfl, rfl, rfl, rfl, rfl⟩, rfl⟩
  · exact ⟨⟨rfl, rfl, rfl, rfl, rfl, rfl, rfl, rfl⟩, rfl⟩

/-- The command of the slot is to read or write, and its first request stops at `e`. -/
def RwStops (s : Port) (slot : Slot) (e : Fault) : Prop :=
  s.cfisByte (s.slotCfis slot) 0 = FIS_TYPE_REGH2D ∧
    s.cfisByte (s.slotCfis slot) 1 &&& 0x80 ≠ 0 ∧ s.IsRw (s.slotCfis slot) ∧
      s.rwChunk slot (s.slotCfis slot) 0 = .error e

theorem ahciHandleSlot_sound (h : s.SoundAt pin [] busyq) (hE : Admits pin E)
    (hPend : s.p.pending.getLsbD slot = false) (hRw : ∀ e, s.RwStops slot e → E e) :
    Yields E (fun t => t.SoundAt pin [] busyq) (s.ahciHandleSlot slot) := by
  unfold ahciHandleSlot
  rw [assertThat_of _ h.attached, ok_bind]
  dsimp only
  split
  · exact h
  · next hFis =>
    split
    · next hCmd =>
      exact ahciHandleCmd_sound h hE hPend _ fun hIsRw e hStop =>
        hRw e ⟨not_not.mp hFis, hCmd, hIsRw, hStop⟩
    · exact (controlFis_keeps (by rw [h.pin]; exact hE) _ _).imp fun t _ ht => h.keeps ht

/-- Only a slot without a request is taken up. -/
theorem not_pending_of_waiting (h : s.waiting &&& bit slot ≠ 0) :
    s.p.pending.getLsbD slot = false := by
  have hBit := getLsbD_of_and_bit h
  rw [waiting, BitVec.getLsbD_and, BitVec.getLsbD_not] at hBit
  simp only [Bool.and_eq_true, Bool.not_eq_true'] at hBit
  exact hBit.2.2

def Going (s : Port) : Prop :=
  ¬ (s.waiting = 0 ∨ s.p.tfd &&& (ATA_S_BUSY ||| ATA_S_DRQ) ≠ 0 ∨ s.p.waitforclear = true)

def TakesUp (s : Port) : Prop := s.Going ∧ s.waiting &&& bit s.p.ccs ≠ 0

/-- A round stops only if it takes up a slot whose command cannot make its first request. -/
theorem portRound_sound (h : s.SoundAt pin [] busyq) (hE : Admits pin E)
    (hRw : s.TakesUp → ∀ e, s.RwStops s.p.ccs e → E e) :
    Yields E (fun next => ∀ t, next = some t → t.SoundAt pin [] busyq) s.portRound := by
  unfold portRound
  split
  · rintro t ⟨⟩
  · next hGoing =>
    refine Yields.bind (P := fun t : Port => t.SoundAt pin [] busyq) ?_ fun t _ ht => ?_
    · unfold currentSlot
      split
      · next hWaiting =>
        have hSame : Keeps s s.setCcs := ⟨⟨rfl, rfl, rfl, rfl, rfl, rfl, rfl, rfl⟩, rfl⟩
        exact ahciHandleSlot_sound (h.keeps hSame) hE (not_pending_of_waiting hWaiting)
          (hRw ⟨hGoing, hWaiting⟩)
      · exact h
    · rintro u ⟨⟩
      exact ht.keeps ⟨⟨rfl, rfl, rfl, rfl, rfl, rfl, rfl, rfl⟩, rfl⟩

theorem ahciHandlePort_sound (h : s.SoundAt pin [] busyq) (hE : AdmitsAll pin E) (fuel : Nat) :
    Yields E (fun t => t.SoundAt pin [] busyq) (s.ahciHandlePort fuel) := by
  have hRound : ∀ t : Port, t.SoundAt pin [] busyq → _ := fun t ht =>
    portRound_sound ht hE.toAdmits fun _ e hStop => by
      rw [rwChunk_stops _ _ _ _ e hStop.2.2.2]
      exact hE.buildIovTodo
  exact Yields.ite h ((whileSome_yields hE.portLoop hRound fuel h).imp fun t _ ht => ht.1)

end Dispatch

section Callback

theorem comeBack_handling {aior : IoreqId} (h : s.SoundAt pin [aior] busyq) (err : Nat) :
    (s.comeBack aior err).HandlingAt pin busyq (s.p.ioreq aior).slot
      (.back (decide (¬(err = 0 ∧ (s.p.ioreq aior).more)))) true := by
  have hServed := AhciPort.Handling.log (h.sound.release rfl) (e := .served (s.p.ioreq aior).slot
    (decide (¬(err = 0 ∧ (s.p.ioreq aior).more)))) rfl rfl
  unfold comeBack
  dsimp only
  split
  · exact ⟨hServed.of_same ⟨rfl, rfl, rfl, rfl, rfl, rfl, rfl, rfl⟩, h.pin⟩
  · exact ⟨hServed, h.pin⟩

theorem carryOn_sound {io : AhciIoreq} (h : s.HandlingAt pin busyq io.slot (.back false) pend)
    (hE : AdmitsAll pin E) (fuel : Nat) (dsm : Bool) :
    Yields E (fun t => t.SoundAt pin [] busyq) (s.carryOn fuel dsm io) := by
  refine Yields.ite ?_ (ahciHandleRw_sound h hE.toAdmits rfl _ _ fun e hStop => ?_)
  · refine (ahciHandleDsmTrim_sound h hE.toAdmits (.inr rfl) _ _ fun e hStop => ?_).bind fun r _ hr => ?_
    · rw [trimEntry_stops _ _ _ _ e hStop]
      exact hE.bufferIndex
    · exact Yields.ite (ahciHandlePort_sound hr hE fuel) hr
  · rw [rwChunk_stops _ _ _ _ e hStop]
    exact hE.buildIovTodo

theorem finishCmd_sound {io : AhciIoreq} (h : s.HandlingAt pin busyq io.slot (.back true) pend)
    (hE : AdmitsAll pin E) (fuel : Nat) (ncq : Bool) (tfd : BitVec 32) :
    Yields E (fun t => t.SoundAt pin [] busyq) (s.finishCmd fuel ncq io tfd) := by
  refine Yields.bind (P := fun t : Port => t.HandlingAt pin busyq io.slot .idle pend) (Yields.ite ?_ ?_)
    fun t _ ht => ahciHandlePort_sound (ahciCheckStopped_sound ht.settle) hE fuel
  · exact ahciWriteFisSdb_ends h hE.toAdmits (.inr rfl) _ _
  · exact ahciWriteFisD2h_ends h hE.toAdmits (.inr rfl) _ _

theorem ataIoreqCb_sound {aior : IoreqId} (h : s.SoundAt pin [aior] busyq) (hE : AdmitsAll pin E)
    (fuel err : Nat) : Yields E (fun t => t.SoundAt pin [] busyq) (s.ataIoreqCb fuel aior err) := by
  have hLocked : s.lockMtx.SoundAt pin [aior] busyq := ⟨h.sound, h.pin⟩
  have hBack := comeBack_handling hLocked err
  have hUnlock : ∀ t : Port, t.SoundAt pin [] busyq → t.unlockMtx.SoundAt pin [] busyq :=
    fun _ ht => ⟨ht.sound, ht.pin⟩
  unfold ataIoreqCb
  refine Yields.bind (P := fun t : Port => t.SoundAt pin [] busyq) ?_ fun t _ ht => hUnlock t ht
  split
  · next hMore =>
    have hGoesOn : decide (¬(err = 0 ∧ (s.p.ioreq aior).more)) = false :=
      decide_eq_false (not_not.mpr hMore)
    change HandlingAt _ _ _ _ (.back (decide (¬(err = 0 ∧ (s.p.ioreq aior).more)))) _ at hBack
    rw [hGoesOn] at hBack
    exact carryOn_sound hBack hE fuel _
  · next hLast =>
    change HandlingAt _ _ _ _ (.back (decide (¬(err = 0 ∧ (s.p.ioreq aior).more)))) _ at hBack
    rw [decide_eq_true hLast] at hBack
    exact finishCmd_sound hBack hE fuel _ _

end Callback

section Thr

/-- The state of the port in which the callback of `br` runs. -/
theorem served_sound (h : s.SoundAt pin [] []) {be : ElemId} {queue : List ElemId}
    (hPendq : s.p.bctx.bcPendq = be :: queue) : ∃ br err d,
      (Disk.mk s.p.bctx s.p.ioReq s.mem).blockifDequeue =
        .ok (some (be, (Disk.mk s.p.bctx s.p.ioReq s.mem).dispatched be queue)) ∧
      ((Disk.mk s.p.bctx s.p.ioReq s.mem).dispatched be queue).blockifProc be = .ok (br, err, d) ∧
      Disk.Served ⟨s.p.bctx, s.p.ioReq, s.mem⟩ d be br ∧
      ((client 0).put d s).SoundAt pin [br] [be] := by
  have hSteady : Disk.Steady ⟨s.p.bctx, s.p.ioReq, s.mem⟩ := h.sound.steady.memory s.mem
  obtain ⟨br, err, d, hProc, hServed⟩ := Disk.blockifProc_served hSteady h.sound.busyq hPendq
  have hDequeue := Disk.blockifDequeue_cons hSteady.toInv h.sound.busyq hPendq
  refine ⟨br, err, d, hDequeue, hProc, hServed, ?_, h.pin⟩
  have hQueued : s.p.queued = some br :: d.queued := hServed.queued hSteady
  obtain ⟨f, hPhases, hSettled⟩ := h.sound.settled
  refine ⟨⟨h.attached, hServed.steady.memory _, hServed.busyq, h.sound.perm, ?_, h.sound.slots⟩, f,
    hPhases, fun slot => ⟨(hSettled slot).phase, (hSettled slot).pending, (hSettled slot).busy⟩⟩
  have hOld := h.sound.queued
  rw [List.map_nil, List.nil_append, hQueued] at hOld
  exact hOld

theorem complete_sound {be : ElemId} (h : s.SoundAt pin [] [be]) :
    ((client 0).put ((Disk.mk s.p.bctx s.p.ioReq s.mem).blockifComplete be) s).SoundAt pin [] [] := by
  have hSteady : Disk.Steady ⟨s.p.bctx, s.p.ioReq, s.mem⟩ := h.sound.steady.memory s.mem
  obtain ⟨hDone, hIdle, -⟩ := Disk.complete_keeps hSteady h.sound.busyq
  have hQueued : ((Disk.mk s.p.bctx s.p.ioReq s.mem).blockifComplete be).queued = s.p.queued :=
    Disk.complete_queued hSteady h.sound.busyq
  obtain ⟨f, hPhases, hSettled⟩ := h.sound.settled
  refine ⟨⟨⟨h.attached, hDone.memory _, hIdle, h.sound.perm, ?_, h.sound.slots⟩, f, hPhases,
    fun slot => ⟨(hSettled slot).phase, (hSettled slot).pending, (hSettled slot).busy⟩⟩, h.pin⟩
  exact (List.Perm.of_eq hQueued).trans h.sound.queued

theorem thrRound_sound (h : s.SoundAt pin [] []) (hE : AdmitsAll pin E) (fuel : Nat) :
    Yields E (fun next => ∀ t, next = some t → t.SoundAt pin [] []) ((client fuel).thrRound s) := by
  unfold Client.thrRound
  cases hPendq : s.p.bctx.bcPendq with
  | nil =>
    have hNone : ((client fuel).get s).blockifDequeue = .ok none := Disk.blockifDequeue_nil hPendq
    rw [hNone, ok_bind]
    rintro t ⟨⟩
  | cons be queue =>
    obtain ⟨br, err, d, hDequeue, hProc, -, hSound⟩ := served_sound h hPendq
    have hDequeue' : ((client fuel).get s).blockifDequeue = _ := hDequeue
    rw [hDequeue', ok_bind]
    simp only [hProc, ok_bind]
    refine (ataIoreqCb_sound (s := (client fuel).put d s) hSound hE fuel err).bind fun t _ ht => ?_
    rintro u ⟨⟩
    exact complete_sound ht

theorem mutex_sound (h : s.SoundAt pin [] []) (m : PthreadMutex) :
    SoundAt { s with p.bctx.bcMtx := m } pin [] [] := by
  obtain ⟨f, hPhases, hSettled⟩ := h.sound.settled
  exact ⟨⟨⟨h.attached, h.sound.steady.mutex m, h.sound.busyq, h.sound.perm, h.sound.queued,
    h.sound.slots⟩, f, hPhases, fun slot =>
      ⟨(hSettled slot).phase, (hSettled slot).pending, (hSettled slot).busy⟩⟩, h.pin⟩

theorem blockifThr_sound (h : s.SoundAt pin [] []) (hE : AdmitsAll pin E) (fuel : Nat) :
    Yields E (fun t => t.SoundAt pin [] []) ((client fuel).blockifThr fuel s) := by
  have hRound : ∀ t : Port, t.SoundAt pin [] [] → _ := fun t ht => thrRound_sound ht hE fuel
  have hStart : ((client fuel).put ((client fuel).get s).lock s).SoundAt pin [] [] := mutex_sound h _
  exact (whileSome_yields hE.thrLoop hRound fuel hStart).bind fun t _ ht => mutex_sound ht.1 _

end Thr

section Registers

theorem stopIoreq_sound (h : s.SoundAt pin [] []) (aior : IoreqId) :
    Yields E (fun t => t.SoundAt pin [] []) (s.stopIoreq aior) := by
  have hSteady : Disk.Steady ⟨s.p.bctx, s.p.ioReq, s.mem⟩ := h.sound.steady.memory s.mem
  obtain ⟨res, d, hOk, hSteady', hBusyq, hReq, -, hCases⟩ := Disk.blockifCancel_queued hSteady aior
  have hReq' : d.req = s.p.ioReq := hReq
  obtain ⟨f, hPhases, hSettled⟩ := h.sound.settled
  have hSound : ∀ lag : List IoreqId, (lag.map some ++ d.queued).Perm s.p.queued →
      AhciPort.Sound { s.p with bctx := d.bc, ioReq := d.req } lag [] := by
    intro lag hQueued
    refine ⟨⟨h.attached, hSteady'.memory _, hBusyq.trans h.sound.busyq, h.sound.perm, ?_,
      h.sound.slots⟩, f, hPhases, fun slot =>
        ⟨(hSettled slot).phase, (hSettled slot).pending, (hSettled slot).busy⟩⟩
    exact hQueued.trans h.sound.queued
  unfold stopIoreq
  rw [onDisk_eq h.attached hOk, ok_bind]
  dsimp only
  split
  · next hError =>
    obtain ⟨-, hRes, -⟩ | ⟨-, -, hSame⟩ := hCases
    · exact absurd hRes hError
    · exact ⟨hSound [] (List.Perm.of_eq hSame), h.pin⟩
  · next hDone =>
    obtain ⟨-, -, hPerm⟩ | ⟨-, hRes, -⟩ := hCases
    · have hCancel := ((hSound [aior] hPerm.symm).release rfl).log (e := .cancel (s.p.ioreq aior).slot)
        rfl rfl
      refine ⟨hCancel.settle.of_same ?_, ?_⟩
      · split <;> exact ⟨rfl, rfl, rfl, rfl, rfl, rfl, rfl, rfl⟩
      · split <;> exact h.pin
    · exact absurd hRes hDone

theorem stopIoreqs_sound (aiors : List IoreqId) (h : s.SoundAt pin [] []) :
    Yields E (fun t => t.SoundAt pin [] []) (stopIoreqs aiors s) := by
  induction aiors generalizing s with
  | nil => exact h
  | cons aior aiors ih => exact (stopIoreq_sound h aior).bind fun t _ ht => ih ht

theorem ahciPortStop_sound (h : s.SoundAt pin [] []) :
    Yields E (fun t => t.SoundAt pin [] []) s.ahciPortStop := by
  have hOwned : SoundAt { s with sc.mtx := s.sc.mtx.assertOwned } pin [] [] := ⟨h.sound, h.pin⟩
  unfold ahciPortStop
  rw [assertThat_of _ h.attached, ok_bind]
  exact (stopIoreqs_sound _ hOwned).bind fun t _ ht => ahciCheckStopped_sound ht

theorem cmdBits_keeps (s : Port) (value : BitVec 32) : Keeps s (s.cmdBits value) := by
  unfold cmdBits
  dsimp only
  split <;> split <;> split <;> exact ⟨⟨rfl, rfl, rfl, rfl, rfl, rfl, rfl, rfl⟩, rfl⟩

theorem cmdWrite_sound (h : s.SoundAt pin [] []) (hE : AdmitsAll pin E) (fuel : Nat)
    (value : BitVec 32) : Yields E (fun t => t.SoundAt pin [] []) (s.cmdWrite fuel value) := by
  have hSame : ∀ cmd cmdLst, SoundAt { s with p.cmd := cmd, p.cmdLst := cmdLst } pin [] [] :=
    fun _ _ => h.keeps ⟨⟨rfl, rfl, rfl, rfl, rfl, rfl, rfl, rfl⟩, rfl⟩
  refine Yields.bind (P := fun t : Port => t.SoundAt pin [] []) (Yields.ite ?_ (hSame _ _))
    fun t _ ht => ahciHandlePort_sound (ht.keeps (cmdBits_keeps t value)) hE fuel
  exact ahciPortStop_sound (hSame _ s.p.cmdLst)

theorem pciAhciPortWrite_sound (h : s.SoundAt pin [] []) (hE : AdmitsAll pin E) (fuel offset : Nat)
    (value : BitVec 32) :
    Yields E (fun t => t.SoundAt pin [] []) (s.pciAhciPortWrite fuel offset value) := by
  have hIntr : ∀ t : Port, t.SoundAt pin [] [] →
      Yields E (fun t => t.SoundAt pin [] []) t.ahciPortIntr := fun t ht =>
    (ahciPortIntr_keeps ht.attached (by rw [ht.pin]; exact hE.toAdmits)).imp fun u _ hu =>
      ⟨by rw [hu.1]; exact ht.sound, hu.2.trans ht.pin⟩
  have hQuiet : ∀ t : Port, Keeps s t → t.SoundAt pin [] [] := fun t ht => h.keeps ht
  unfold pciAhciPortWrite
  split
  all_goals first
    | exact hIntr _ (hQuiet _ ⟨⟨rfl, rfl, rfl, rfl, rfl, rfl, rfl, rfl⟩, rfl⟩)
    | exact cmdWrite_sound h hE fuel value
    | exact hQuiet _ ⟨⟨rfl, rfl, rfl, rfl, rfl, rfl, rfl, rfl⟩, rfl⟩
    | skip
  · have hSctl : Keeps s { s with p.sctl := value } := ⟨⟨rfl, rfl, rfl, rfl, rfl, rfl, rfl, rfl⟩, rfl⟩
    have hReset : Yields E (Keeps { s with p.sctl := value }) (Port.ahciPortReset { s with p.sctl := value }) :=
      ahciPortReset_keeps (by rw [hSctl.pin, h.pin]; exact hE.toAdmits)
    exact Yields.ite (hReset.imp fun t _ ht => h.keeps (hSctl.trans ht)) (h.keeps hSctl)
  · refine ahciHandlePort_sound (hQuiet _ ?_) hE fuel
    exact ⟨⟨rfl, rfl, rfl, rfl, rfl, rfl, rfl, rfl⟩, rfl⟩

theorem hbaReset_keeps (hE : Admits s.pin E) : Yields E (Keeps s) s.hbaReset := by
  unfold hbaReset
  refine Yields.imp (ahciPortReset_keeps ?_) ?_
  · exact hE
  · intro t _ ht
    refine Keeps.trans ?_ ht
    exact ⟨⟨rfl, rfl, rfl, rfl, rfl, rfl, rfl, rfl⟩, rfl⟩

end Registers

section Unattached

/-- A port without a disk gets no further than its registers. -/
theorem ahciHandlePort_unattached (h : s.p.attached = false) (fuel : Nat) :
    Yields NotPool (fun t => t.p.attached = false) (s.ahciHandlePort fuel) := by
  have hFuel : NotPool .portLoop := ⟨by decide, by decide⟩
  have hRound : ∀ t : Port, t.p.attached = false →
      Yields NotPool (fun next => ∀ u, next = some u → u.p.attached = false) t.portRound := by
    intro t ht
    unfold portRound
    split
    · rintro u ⟨⟩
    · refine Yields.bind (P := fun u : Port => u.p.attached = false) (Yields.ite ?_ ht) fun u _ hu => ?_
      · refine (assertThat_notPool).bind fun _ _ hAttached => ?_
        exact absurd (hAttached.symm.trans ht) Bool.noConfusion
      · rintro v ⟨⟩
        exact hu
  exact Yields.ite h ((whileSome_yields hFuel hRound fuel h).imp fun t _ ht => ht.1)

theorem cmdWrite_unattached (h : s.p.attached = false) (fuel : Nat) (value : BitVec 32) :
    Yields NotPool (fun t => t.p.attached = false) (s.cmdWrite fuel value) := by
  refine Yields.bind (P := fun t : Port => t.p.attached = false) (Yields.ite ?_ h) fun t _ ht =>
    ahciHandlePort_unattached ((cmdBits_keeps t value).pool.attached.trans ht) fuel
  refine (assertThat_notPool).bind fun _ _ hAttached => ?_
  exact absurd (hAttached.symm.trans h) Bool.noConfusion

theorem pciAhciPortWrite_unattached (h : s.p.attached = false) (fuel offset : Nat)
    (value : BitVec 32) :
    Yields NotPool (fun t => t.p.attached = false) (s.pciAhciPortWrite fuel offset value) := by
  have hIntr : ∀ t : Port, t.p.attached = false →
      Yields NotPool (fun t => t.p.attached = false) t.ahciPortIntr := by
    intro t ht
    refine (assertThat_notPool).bind fun _ _ hAttached => ?_
    exact absurd (hAttached.symm.trans ht) Bool.noConfusion
  unfold pciAhciPortWrite
  split
  all_goals first
    | exact hIntr _ h
    | exact cmdWrite_unattached h fuel value
    | exact h
    | skip
  · refine Yields.ite ?_ h
    exact (ahciPortReset_keeps (notPool_admits _).toAdmits).imp fun t _ ht => ht.pool.attached.trans h
  · refine ahciHandlePort_unattached ?_ fuel
    exact h

end Unattached

end Port

namespace Ahci

open AhciPort

/-- The requests of every disk are sound, and `blockif_thr` serves a disk. -/
structure Pooled (s : Ahci) : Prop where
  disk : ∀ k, (s.port k).attached = true → (s.port k).Sound [] []
  served : ∀ k, s.blockifSc = some k → (s.port k).attached = true

section Steps

variable {s : Ahci} {k : PortId} {f : Port → Except Fault Port}

theorem onPort_pooled (h : s.Pooled)
    (hf : (s.port k).Sound [] [] →
      Yields NotPool (fun u => u.p.Sound [] []) (f ⟨s.port k, s.sc, s.mem⟩))
    (hNone : (s.port k).attached = false →
      Yields NotPool (fun u => u.p.attached = false) (f ⟨s.port k, s.sc, s.mem⟩)) :
    Yields NotPool Pooled (s.onPort k f) := by
  have hPort : Yields NotPool (fun u : Port => u.p.attached = (s.port k).attached ∧
      (u.p.attached = true → u.p.Sound [] [])) (f ⟨s.port k, s.sc, s.mem⟩) := by
    cases hAttached : (s.port k).attached with
    | true =>
      exact (hf (h.disk k hAttached)).imp fun u _ hu => ⟨hu.attached, fun _ => hu⟩
    | false =>
      refine (hNone hAttached).imp fun u _ hu => ⟨hu, fun hTrue => ?_⟩
      exact absurd (hTrue.symm.trans hu) Bool.noConfusion
  refine hPort.bind fun t _ ht => ⟨fun j => ?_, fun j hj => ?_⟩
  · dsimp only
    by_cases hEq : j = k
    · subst hEq
      rw [Function.update_self]
      exact ht.2
    · rw [Function.update_of_ne hEq]
      exact h.disk j
  · dsimp only
    by_cases hEq : j = k
    · subst hEq
      rw [Function.update_self, ht.1]
      exact h.served j hj
    · rw [Function.update_of_ne hEq]
      exact h.served j hj

theorem onPort_hbaReset_pooled (h : s.Pooled) : Yields NotPool Pooled (s.onPort k Port.hbaReset) := by
  have hReset := fun t : Port => Port.hbaReset_keeps (s := t) (notPool_admits t.pin).toAdmits
  refine onPort_pooled h (fun hSound => ?_) fun hNone => ?_
  · exact (hReset _).imp fun u _ hu => hSound.of_same hu.pool
  · exact (hReset _).imp fun u _ hu => hu.pool.attached.trans hNone

theorem resetPorts_pooled (h : s.Pooled) (ks : List PortId) :
    Yields NotPool Pooled (resetPorts ks s) := by
  induction ks generalizing s with
  | nil => exact h
  | cons k ks ih => exact (onPort_hbaReset_pooled h).bind fun t _ ht => ih ht

theorem ahciReset_pooled (h : s.Pooled) : Yields NotPool Pooled s.ahciReset := by
  refine Yields.bind (P := Pooled) (Yields.ite ?_ ⟨h.disk, h.served⟩) fun t _ ht =>
    resetPorts_pooled ht _
  exact (Port.pciLintrDeassert_pin _ fun _ => (notPool_admits 0).lintrPin rfl).bind fun _ _ _ => ⟨h.disk, h.served⟩

theorem ahciGenerateIntr_pooled (h : s.Pooled) : Yields NotPool Pooled s.ahciGenerateIntr := by
  have hSame : ∀ sc : Softc, Pooled { s with sc := sc } := fun _ => ⟨h.disk, h.served⟩
  refine Yields.ite (Yields.ite ?_ (hSame _)) (Yields.ite (Yields.ite (hSame _) ?_) (hSame _))
  · exact (Port.pciLintrDeassert_pin _ fun _ => (notPool_admits 0).lintrPin rfl).bind fun _ _ _ => hSame _
  · exact (Port.pciLintrAssert_pin _ fun _ => (notPool_admits 0).lintrPin rfl).bind fun _ _ _ => hSame _

theorem pciAhciHostWrite_pooled (h : s.Pooled) (offset : Nat) (value : BitVec 32) :
    Yields NotPool Pooled (s.pciAhciHostWrite offset value) := by
  unfold pciAhciHostWrite
  split
  · exact Yields.ite (ahciReset_pooled h) (ahciGenerateIntr_pooled ⟨h.disk, h.served⟩)
  · exact ahciGenerateIntr_pooled ⟨h.disk, h.served⟩
  · exact h

theorem pciAhciWrite_pooled (h : s.Pooled) (fuel baridx offset : Nat) (value : BitVec 64) :
    Yields NotPool Pooled (s.pciAhciWrite fuel baridx offset value) := by
  have hMtx : ∀ (t : Ahci) (m : PthreadMutex), t.Pooled → Pooled { t with sc.mtx := m } :=
    fun t m ht => ⟨ht.disk, ht.served⟩
  have hLocked := hMtx s s.sc.mtx.pthreadMutexLock h
  unfold pciAhciWrite
  refine (assertThat_notPool).bind fun _ _ _ => ?_
  refine Yields.bind (P := Pooled) (Yields.ite ?_ (Yields.ite ?_ hLocked)) fun t _ ht => hMtx t _ ht
  · exact pciAhciHostWrite_pooled hLocked _ _
  · generalize (offset - AHCI_OFFSET) % AHCI_STEP = reg
    refine onPort_pooled hLocked (fun hSound => ?_) fun hNone =>
      Port.pciAhciPortWrite_unattached hNone fuel reg _
    refine Yields.imp (Port.pciAhciPortWrite_sound ⟨?_, rfl⟩ (notPool_admits _) fuel reg _) fun _ _ hu =>
      hu.sound
    exact hSound

theorem step_pooled (h : s.Pooled) (fuel : Nat) (event : Event) :
    Yields NotPool Pooled (s.step fuel event) := by
  cases event with
  | write baridx offset value => exact pciAhciWrite_pooled h fuel baridx offset value
  | reset => exact ahciReset_pooled h
  | thr =>
    rw [step, blockifThr]
    cases hServed : s.blockifSc with
    | none => exact h
    | some k =>
      refine onPort_pooled h (fun hSound => ?_) fun hNone => ?_
      · refine Yields.imp (Port.blockifThr_sound ⟨?_, rfl⟩ (notPool_admits _) fuel) fun _ _ hu => hu.sound
        exact hSound
      · exact absurd ((h.served k hServed).symm.trans hNone) Bool.noConfusion
  | other mem pi => exact ⟨h.disk, h.served⟩

end Steps

theorem diskPort_sound (k : PortId) (ident : List (BitVec 8)) : (diskPort k ident).Sound [] [] := by
  refine ⟨⟨rfl, Disk.opened_steady _ _, rfl, ?_, List.Perm.nil, List.nodup_nil⟩, fun _ => .idle, rfl,
    fun slot => ⟨.inl rfl, ?_, ?_⟩⟩
  · exact List.Perm.of_eq (List.append_nil _)
  · simp [diskPort, callocPort]
  · simp [Busy, diskPort, callocPort]

theorem pciAhciInit_pooled (pi : PciDevinst) (disks : List (Option (List (BitVec 8))))
    (mem : Memory) (stack : Nat → BitVec 8) :
    Yields NotPool Pooled (pciAhciInit pi disks mem stack) := by
  refine ahciReset_pooled ⟨fun k => ?_, fun k hk => ?_⟩
  · dsimp only
    split
    · exact fun _ => diskPort_sound k _
    · exact fun hAttached => absurd hAttached Bool.noConfusion
  · have hSome := List.find?_some hk
    obtain ⟨ident, hIdent⟩ := Option.isSome_iff_exists.mp hSome
    dsimp only
    rw [hIdent]
    rfl

/-- In every run the requests of a disk are free or busy, busy ones are for different slots,
`pending` has the bits of these slots, and no assertion on requests fails. -/
theorem requestPool_partitioned (fuel : Nat) (pi : PciDevinst)
    (disks : List (Option (List (BitVec 8)))) (mem : Memory) (stack : Nat → BitVec 8)
    (events : List Event) :
    Yields (fun e => e ≠ .aiorNull ∧ e ≠ .aiorRefused)
      (fun s => ∀ k, (s.port k).attached = true →
        ((s.port k).iofhd ++ (s.port k).iobhd).Perm (List.finRange (BLOCKIF_MAXREQ - 1)) ∧
        ((s.port k).iobhd.map fun aior => ((s.port k).ioreq aior).slot).Nodup ∧
        ∀ slot : Slot, (s.port k).pending.getLsbD slot = true ↔
          ∃ aior ∈ (s.port k).iobhd, ((s.port k).ioreq aior).slot = slot)
      (pciAhciInit pi disks mem stack >>= fun s => run (step fuel) s events) := by
  refine (pciAhciInit_pooled pi disks mem stack).bind fun s _ hs => ?_
  refine (run_keeps (fun t event ht => step_pooled ht fuel event) hs events).imp fun t _ ht => ?_
  intro k hAttached
  have hSound := ht.disk k hAttached
  obtain ⟨f, -, hSettled⟩ := hSound.settled
  exact ⟨hSound.perm, hSound.slots, fun slot =>
    (hSettled slot).pending.trans (hSettled slot).busy.symm⟩

end Ahci

end DeviceModel.PciAhci

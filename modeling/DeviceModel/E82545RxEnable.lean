import DeviceModel.E82545Drain

/-!
# The e1000 network device: a receive ring of no descriptors

RDLEN does not change while the receiver is on, so the remainders modulo the ring
size are safe from the write that turns it on to the one that turns it off.
-/

set_option autoImplicit false

namespace DeviceModel.E82545

open Fallible

/-- A receiver that looks at its ring has one. -/
def HasRing (sc : Softc) : Prop :=
  sc.rx.rxEnabled = true → sc.rx.rxLoopback = false → sc.rx.size ≠ 0

section Writes

variable (sc : Softc)

def Softc.Receives (value : BitVec 32) : Reg → Prop
  | .rctl => value &&& E1000_RCTL_EN = E1000_RCTL_EN ∧ sc.rx.rxEnabled = false ∧
      value &&& ~~~0xF9204c01 &&& E1000_RCTL_LBM_TCVR = 0
  | _ => False

variable {sc}

theorem hasRing_off (hOff : sc.rx.rxEnabled = false) : HasRing sc := by
  intro hOn
  rw [hOff] at hOn
  cases hOn

theorem e82545RxDisable_off : Yields (fun _ => True) (fun t => t.rx.rxEnabled = false)
    sc.e82545RxDisable :=
  (yields_true _).bind fun _ _ _ => rfl

theorem e82545Reset_off (drvr : Bool) : Yields (fun _ => True) (fun t => t.rx.rxEnabled = false)
    (sc.e82545Reset drvr) := by
  apply e82545RxDisable_off.bind
  intro t _ hOff
  apply (yields_true _).bind
  intro u hDisable _
  have hSame : u.rx.rxEnabled = false := by
    obtain ⟨-, -, hEq⟩ := bind_eq_ok_iff.mp hDisable
    obtain rfl := Except.ok.inj hEq
    exact hOff
  apply (yields_true _).bind
  intro pi _ _
  cases drvr <;> exact hSame

theorem e82545Devctl_hasRing (value : BitVec 32) (hRing : HasRing sc) :
    Yields (fun _ => True) HasRing (sc.e82545Devctl value) := by
  apply Yields.ite
  · exact (e82545Reset_off true).imp fun _ _ hOff => hasRing_off hOff
  · exact hRing

/-- What `e82545_rx_ctl` turns on looks at the ring that RDLEN gives. -/
theorem e82545RxCtl_hasRing {value : BitVec 32} (hRing : HasRing sc) :
    Yields (fun _ => True) (fun t => HasRing t ↔ (sc.Receives value .rctl → sc.rx.size ≠ 0))
      (sc.e82545RxCtl value) := by
  unfold Softc.e82545RxCtl
  dsimp only
  by_cases hOn : value &&& E1000_RCTL_EN = E1000_RCTL_EN
  · cases hWas : sc.rx.rxEnabled with
    | true =>
      rw [if_pos (by rw [decide_eq_true hOn])]
      refine iff_of_true (fun _ => hRing hWas) ?_
      rintro ⟨-, hOff, -⟩
      rw [hWas] at hOff
      cases hOff
    | false =>
      rw [if_neg (by rw [decide_eq_true hOn]; exact Bool.noConfusion), if_pos (decide_eq_true hOn)]
      constructor
      · rintro h ⟨-, -, hLoopback⟩
        exact h rfl (decide_eq_false (not_not.mpr hLoopback))
      · intro h _ hLoopback
        exact h ⟨hOn, hWas, not_not.mp (of_decide_eq_false hLoopback)⟩
  · have hNot : ¬ sc.Receives value .rctl := fun h => hOn h.1
    cases hWas : sc.rx.rxEnabled with
    | true =>
      rw [if_neg (by rw [decide_eq_false hOn]; exact Bool.noConfusion),
        if_neg (by rw [decide_eq_false hOn]; exact Bool.false_ne_true)]
      apply e82545RxDisable_off.bind
      intro t _ hOff
      exact iff_of_true (hasRing_off hOff) fun h => absurd h hNot
    | false =>
      rw [if_pos (by rw [decide_eq_false hOn])]
      exact iff_of_true (hasRing_off rfl) fun h => absurd h hNot

theorem writeReg_hasRing (value : BitVec 32) (reg : Reg) (hRing : HasRing sc) :
    Yields (fun _ => True) (fun t => HasRing t ↔ (sc.Receives value reg → sc.rx.size ≠ 0))
      (sc.writeReg value reg) := by
  have hKept : ∀ {x : Except Fault Softc} {P : Prop}, ¬ P → Yields (fun _ => True) HasRing x →
      Yields (fun _ => True) (fun t => HasRing t ↔ (P → sc.rx.size ≠ 0)) x :=
    fun hNot h => h.imp fun _ _ hRing => iff_of_true hRing fun hP => absurd hP hNot
  have hIntr : ∀ x : Except Fault Intr,
      Yields (fun _ => True) HasRing (x.map ({ sc with intr := · })) :=
    fun x => Yields.map ((yields_true x).imp fun _ _ _ => hRing)
  cases reg
  case rctl => exact e82545RxCtl_hasRing hRing
  case ctrl => exact hKept id (e82545Devctl_hasRing value hRing)
  case ctrlDup => exact hKept id (e82545Devctl_hasRing value hRing)
  case icr => exact hKept id (hIntr _)
  case ics => exact hKept id (hIntr _)
  case ims => exact hKept id (hIntr _)
  case rdbal =>
    apply hKept id
    dsimp only [Softc.writeReg]
    split <;> exact hRing
  case tdbal =>
    apply hKept id
    dsimp only [Softc.writeReg]
    split <;> exact hRing
  case rdbah => exact hKept id ((yields_true _).bind fun _ _ _ => hRing)
  case ra => exact hKept id ((yields_true _).bind fun _ _ _ => hRing)
  case tctl =>
    apply hKept id
    have hDisable : Yields (fun _ => True) HasRing sc.e82545TxDisable :=
      (yields_true _).bind fun _ _ _ => hRing
    dsimp only [Softc.writeReg, Softc.e82545TxCtl]
    split
    · exact hRing
    · split
      · exact hRing
      · exact hDisable.bind fun _ _ hKeeps => hKeeps
  case rdlen =>
    apply hKept id
    apply (assertThat_yields fun _ => trivial).bind
    intro _ _ hOff
    exact hasRing_off hOff
  all_goals exact hKept id hRing

def Softc.WriteReceives (sc : Softc) (baridx : Nat) (offset : BitVec 64) (size : Nat)
    (value : BitVec 64) : Prop :=
  ∃ reg, sc.target baridx offset size = some reg ∧ sc.Receives (value.setWidth 32) reg

theorem e82545Write_hasRing (baridx : Nat) (offset : BitVec 64) (size : Nat) (value : BitVec 64)
    (hRing : HasRing sc) : Yields (fun _ => True)
      (fun t => HasRing t ↔ (sc.WriteReceives baridx offset size value → sc.rx.size ≠ 0))
      (sc.e82545Write baridx offset size value) := by
  obtain ⟨reg, hTarget, hWrite⟩ | ⟨hNone, ioAddr, hWrite⟩ :=
    e82545Write_cases sc baridx offset size value
  · rw [hWrite]
    apply (writeReg_hasRing (value.setWidth 32) reg hRing).imp
    intro t _ hIff
    rw [hIff]
    constructor
    · rintro h ⟨reg', hTarget', hReceives⟩
      obtain rfl := Option.some.inj (hTarget.symm.trans hTarget')
      exact h hReceives
    · intro h hReceives
      exact h ⟨reg, hTarget, hReceives⟩
  · rw [hWrite]
    apply iff_of_true hRing
    rintro ⟨reg, hTarget, -⟩
    exact absurd (hNone.symm.trans hTarget) (by simp)

theorem e82545Read_rx (baridx : Nat) (offset : BitVec 64) (size : Nat) :
    Yields (fun _ => True) (fun r => r.2.rx = sc.rx) (sc.e82545Read baridx offset size) := by
  have hReg : ∀ reg, Yields (fun _ => True) (fun r => r.2.rx = sc.rx) (sc.readReg reg) := by
    intro reg
    cases reg
    case icr => exact Yields.map ((yields_true _).imp fun _ _ _ => rfl)
    case ra => exact Yields.map ((yields_true _).imp fun _ _ _ => rfl)
    all_goals exact rfl
  have hOffset : ∀ o, Yields (fun _ => True) (fun r => r.2.rx = sc.rx)
      ((sc.e82545ReadRegister o).map fun r => (r.1.setWidth 64, r.2)) := by
    intro o
    apply Yields.map
    unfold Softc.e82545ReadRegister
    split
    · exact rfl
    · cases Reg.ofOffset o with
      | none => exact rfl
      | some reg => exact hReg reg
  exact Yields.ite (Yields.ite rfl (Yields.ite (hOffset _) rfl)) (Yields.ite (hOffset _) rfl)

end Writes

section Poll

variable {φ : Type} (F : Fifo φ) {s : E1000 φ}

theorem rxRunLoop_noRingSize (sc : Softc) (fuel : Nat) (r : RxRun φ) :
    StopsOnly (· ≠ .ringSize) (rxRunLoop F sc fuel r) := by
  induction fuel generalizing r with
  | zero => exact stopsOnly_error (by decide)
  | succ fuel ih =>
    exact StopsOnly.ite (stopsOnly_ok _) (StopsOnly.ite (stopsOnly_ok _) (StopsOnly.ite (ih _) (ih _)))

theorem PollFault.noRingSize {e : Fault} (h : PollFault e) : e ≠ .ringSize := by
  rintro rfl
  exact absurd h (by decide)

theorem left_noRingSize {rx : Rx} (hSize : rx.size ≠ 0) (head : Nat) :
    StopsOnly (· ≠ Fault.ringSize) (rx.left head) := by
  rw [Rx.left, assertThat_of _ hSize]
  exact stopsOnly_ok _

theorem tapCallback_noRingSize (hSize : s.sc.rx.size ≠ 0) (fuel : Nat) :
    StopsOnly (· ≠ Fault.ringSize) (e82545TapCallback F fuel s) := by
  unfold e82545TapCallback
  dsimp only
  split
  · exact stopsOnly_ok s
  apply (left_noRingSize hSize _).bind
  intro left
  split
  · exact stopsOnly_ok s
  apply (rxRunLoop_noRingSize F _ _ _).bind
  intro r
  apply (left_noRingSize hSize _).bind
  intro left
  apply StopsOnly.bind
  · apply StopsOnly.ite
    · refine StopsOnly.mono (raise_lineStops _ _) ?_
      rintro _ rfl
      decide
    · exact stopsOnly_ok _
  · exact fun intr => stopsOnly_ok _

/-- The callback divides by zero exactly if the receiver looks at a ring that is none. -/
theorem tapCallback_ringSize_iff (fuel : Nat) :
    e82545TapCallback F fuel s = .error .ringSize ↔ ¬ HasRing s.sc := by
  constructor
  · intro hStop hRing
    by_cases hLooks : s.sc.rx.rxEnabled = true ∧ s.sc.rx.rxLoopback = false
    · exact tapCallback_noRingSize F (hRing hLooks.1 hLooks.2) fuel _ hStop rfl
    · unfold e82545TapCallback at hStop
      dsimp only at hStop
      rw [if_pos (by simpa [or_iff_not_imp_left] using hLooks)] at hStop
      cases hStop
  · intro hNot
    unfold HasRing at hNot
    obtain ⟨hOn, hNot⟩ := Classical.not_imp.mp hNot
    obtain ⟨hLoopback, hSize⟩ := Classical.not_imp.mp hNot
    unfold e82545TapCallback
    dsimp only
    rw [hOn, hLoopback, if_neg (by simp), Rx.left, assertThat, if_neg hSize]
    rfl

/-- No poll from here comes to a remainder modulo zero, nor does the thread that takes packets
in. -/
def NoZeroModulo (s : E1000 φ) : Prop :=
  ∀ fuel, step F s (.poll fuel) ≠ .error .ringSize ∧ step F s (.fifoWork fuel) ≠ .error .ringSize

theorem noZeroModulo_iff : NoZeroModulo F s ↔ HasRing s.sc := by
  constructor
  · intro hNever
    by_contra hNot
    exact (hNever 0).2 ((tapCallback_ringSize_iff F 0).mpr hNot)
  · intro hRing fuel
    constructor
    · intro hStop
      have hPoll := e82545TxPoll_yields F s
      cases hTx : e82545TxPoll F s with
      | error e =>
        have hStop' : e82545TxPoll F s = .error .ringSize := by
          have hBind : step F s (.poll fuel) = .error e := by
            simp [step, e1000Poll, hTx]
          rw [hTx, ← hBind, hStop]
        exact (hPoll.of_error hStop').noRingSize rfl
      | ok t =>
        have hStop' : e82545TapCallback F fuel t = .error .ringSize := by
          simpa [step, e1000Poll, hTx] using hStop
        apply (tapCallback_ringSize_iff F fuel).mp hStop'
        unfold HasRing
        rw [(hPoll.of_ok hTx).2]
        exact hRing
    · intro hStop
      exact (tapCallback_ringSize_iff F fuel).mp hStop hRing

theorem tapCallback_hasRing (fuel : Nat) (hRing : HasRing s.sc) :
    Yields (fun _ => True) (fun t => HasRing t.sc) (e82545TapCallback F fuel s) := by
  apply Yields.ite
  · exact hRing
  apply (yields_true _).bind
  intro left _ _
  apply Yields.ite
  · exact hRing
  apply (yields_true _).bind
  intro r _ _
  apply (yields_true _).bind
  intro left _ _
  apply (yields_true _).bind
  intro intr _ _
  exact hRing

theorem e1000Poll_hasRing (fuel : Nat) (hRing : HasRing s.sc) :
    Yields (fun _ => True) (fun t => HasRing t.sc) (e1000Poll F fuel s) := by
  apply (Yields.weaken (e82545TxPoll_yields F s)).bind
  intro t _ hPoll
  apply tapCallback_hasRing
  unfold HasRing
  rw [hPoll.2]
  exact hRing

end Poll

section Run

variable {φ : Type} (F : Fifo φ)

/-- Where the event turns the receiver on, and not into loopback, RDLEN gives it a ring. -/
def GivesRing (s : E1000 φ) : Event → Prop
  | .write baridx offset size value =>
    s.sc.WriteReceives baridx offset size value → s.sc.rx.size ≠ 0
  | _ => True

theorem step_hasRing {s : E1000 φ} (e : Event) (hRing : HasRing s.sc) :
    Yields (fun _ => True) (fun t => HasRing t.sc ↔ GivesRing s e) (step F s e) := by
  cases e with
  | write baridx offset size value =>
    exact Yields.map (e82545Write_hasRing baridx offset size value hRing)
  | read baridx offset size =>
    apply Yields.map
    apply (e82545Read_rx baridx offset size).imp
    intro r _ hSame
    apply iff_of_true _ trivial
    unfold HasRing
    rw [hSame]
    exact hRing
  | poll fuel => exact (e1000Poll_hasRing F fuel hRing).imp fun t _ h => iff_of_true h trivial
  | store mem => exact iff_of_true hRing trivial
  | callout => exact Yields.map ((yields_true _).imp fun _ _ _ => iff_of_true hRing trivial)
  | fifoWork fuel => exact (tapCallback_hasRing F fuel hRing).imp fun t _ h => iff_of_true h trivial

theorem receives_returns {sc : Softc} {value : BitVec 32} {reg : Reg} (h : sc.Receives value reg) :
    Returns (sc.writeReg value reg) := by
  cases reg
  case rctl =>
    obtain ⟨hOn, hWas, -⟩ := h
    dsimp only [Softc.writeReg, Softc.e82545RxCtl]
    rw [hWas, if_neg (by rw [decide_eq_true hOn]; exact Bool.noConfusion), if_pos (decide_eq_true hOn)]
    exact returns_ok _
  all_goals exact absurd h id

theorem step_returns {s : E1000 φ} {e : Event} (hNot : ¬ GivesRing s e) : Returns (step F s e) := by
  cases e with
  | write baridx offset size value =>
    obtain ⟨⟨reg, hTarget, hReceives⟩, -⟩ := Classical.not_imp.mp hNot
    obtain ⟨reg', hTarget', hWrite⟩ | ⟨hNone, -⟩ := e82545Write_cases s.sc baridx offset size value
    · obtain rfl := Option.some.inj (hTarget.symm.trans hTarget')
      apply returns_map_iff.mpr
      rw [hWrite]
      exact receives_returns hReceives
    · exact absurd (hNone.symm.trans hTarget) (by simp)
  | _ => exact absurd trivial hNot

variable (pi : PciEmul.PciDevinst) (mem : Memory) (fifo : φ)

def ModuloSafe (es : List Event) : Prop :=
  ∀ pre post s, es = pre ++ post → runFrom F pi mem fifo pre = .ok s → NoZeroModulo F s

def ReceivesWithRing (es : List Event) : Prop :=
  ∀ pre e post s, es = pre ++ e :: post → runFrom F pi mem fifo pre = .ok s → GivesRing s e

/-- The receive path never divides by zero exactly if the guest gives RDLEN before it turns the
receiver on. -/
theorem rxModulo_safe_iff {φ : Type} (F : Fifo φ) (pi : PciEmul.PciDevinst) (mem : Memory)
    (fifo : φ) (es : List Event) :
    ModuloSafe F pi mem fifo es ↔ ReceivesWithRing F pi mem fifo es := by
  obtain ⟨sc, hInit, -⟩ := @e82545Init_eq pi
  have hOff : sc.rx.rxEnabled = false := by
    have hReset : Yields (fun _ => True) _ (Softc.e82545Init pi) := e82545Reset_off false
    exact hReset.of_ok hInit
  unfold ModuloSafe ReceivesWithRing
  simp only [runFrom, hInit, ok_bind]
  rw [← along_iff, ← @throughout_iff_along _ _ _ _ _ (fun s => HasRing s.sc) (NoZeroModulo F)
    (fun s hRing => (noZeroModulo_iff F).mpr hRing)]
  · rfl
  · intro s e t hRing hGives hStep
    exact ((step_hasRing F e hRing).of_ok hStep).mpr hGives
  · intro s e hRing hNot
    obtain ⟨t, hStep⟩ := step_returns F hNot
    refine ⟨t, hStep, fun hSafe => hNot ?_⟩
    exact ((step_hasRing F e hRing).of_ok hStep).mp ((noZeroModulo_iff F).mp hSafe)
  · exact hasRing_off hOff

theorem rxModulo_zero : ¬ ∀ es, ModuloSafe idleFifo
    { PciEmul.pciEmulInit ⟨0, 0, 0⟩ with lintrPin := 1 } (fun _ => 0) () es := by
  intro hAll
  have hStop : ((runFrom idleFifo { PciEmul.pciEmulInit ⟨0, 0, 0⟩ with lintrPin := 1 } (fun _ => 0) ()
      [.write 0 0x100 4 2]).toOption.bind fun s => fault? (step idleFifo s (.fifoWork 1))) =
        some .ringSize := by decide +kernel
  obtain ⟨s, hRun, hFail⟩ := Option.bind_eq_some_iff.mp hStop
  have hSafe := hAll [.write 0 0x100 4 2] _ [] s rfl (toOption_eq_some_iff.mp hRun) 1
  exact hSafe.2 (fault?_eq_some_iff.mp hFail)

end Run

end DeviceModel.E82545

import DeviceModel.E82545Interrupt

/-!
# The e1000 network device: an interrupt and its causes

`e82545_icr_deassert` releases the interrupt when no cause is left that is set and
unmasked. It looks only when causes go; a write of IMC can take the last one from
an interrupt that stays asserted.
-/

set_option autoImplicit false

namespace DeviceModel.E82545

open Fallible PciEmul

namespace Intr

inductive Access where
  | icrAssert (bits : BitVec 32)
  | write (reg : Reg) (value : BitVec 32)
  | read (reg : Reg)
  | callout

def access (x : Intr) : Access → Except Fault Intr
  | .icrAssert bits => x.e82545IcrAssert bits
  | .write reg value => x.e82545IntrWrite value reg
  | .read reg => (x.e82545IntrRead reg).map Prod.snd
  | .callout => x.runCallout

/-- An asserted interrupt has a cause that is set and unmasked. -/
def Sourced (x : Intr) : Prop := x.irqAsserted = true → x.icr &&& x.ims ≠ 0

/-- The access does not mask the last unmasked cause of an asserted interrupt. -/
def LeavesSource (x : Intr) : Access → Prop
  | .write .imc value => x.irqAsserted = true → x.icr &&& x.ims &&& ~~~value ≠ 0
  | _ => True

theorem ne_zero_of_bits {a b : BitVec 32} (h : ∀ i, a.getLsbD i = true → b.getLsbD i = true)
    (ha : a ≠ 0) : b ≠ 0 := by
  rintro rfl
  apply ha
  apply BitVec.eq_of_getLsbD_eq
  intro i _
  cases hBit : a.getLsbD i with
  | false => simp
  | true => exact absurd (h i hBit) (by simp)

variable {x : Intr}

theorem raise_sourced {new : BitVec 32} (h : x.Sourced) (hNew : new ≠ 0 → x.icr &&& x.ims ≠ 0) :
    Yields (fun _ => True) Sourced (x.raise new) := by
  unfold raise
  split
  · exact h
  · next hSome =>
    have hCause := hNew fun hZero => hSome (.inl hZero)
    refine (pciLintrAssert_yields x.escPi).bind fun pi _ _ => ?_
    dsimp only
    split
    · exact fun _ => hCause
    · exact fun _ => hCause

theorem e82545IcrAssert_sourced (h : x.Sourced) (bits : BitVec 32) :
    Yields (fun _ => True) Sourced (x.e82545IcrAssert bits) := by
  apply raise_sourced
  · intro hIrq
    exact ne_zero_of_bits (fun i => by simp +contextual) (h hIrq)
  · intro hNew
    exact ne_zero_of_bits (fun i => by simp +contextual) hNew

theorem e82545ImsChange_sourced (h : x.Sourced) (bits : BitVec 32) :
    Yields (fun _ => True) Sourced (x.e82545ImsChange bits) := by
  apply raise_sourced
  · intro hIrq
    exact ne_zero_of_bits (fun i => by simp +contextual) (h hIrq)
  · intro hNew
    exact ne_zero_of_bits (fun i => by simp +contextual) hNew

/-- Whatever causes go, the interrupt goes with the last unmasked one. -/
theorem e82545IcrDeassert_sourced (x : Intr) (bits : BitVec 32) :
    Yields (fun _ => True) Sourced (x.e82545IcrDeassert bits) := by
  unfold e82545IcrDeassert
  dsimp only
  split
  · exact (pciLintrDeassert_yields x.escPi).bind fun pi _ _ => fun hIrq => absurd hIrq (by simp)
  · next hKeeps => exact fun hIrq hNone => hKeeps ⟨hIrq, hNone⟩

theorem runCallout_sourced (h : x.Sourced) : Yields (fun _ => True) Sourced x.runCallout := by
  unfold runCallout
  cases x.callout with
  | none => exact h
  | some delay =>
    dsimp only
    unfold e82545ItrCallback
    split
    · next hCause => exact (pciLintrAssert_yields x.escPi).bind fun pi _ _ => fun _ => hCause.1
    · exact h

theorem e82545IntrRead_sourced (h : x.Sourced) (reg : Reg) :
    Yields (fun _ => True) (fun r => Sourced r.2) (x.e82545IntrRead reg) := by
  cases reg
  case icr => exact (e82545IcrDeassert_sourced _ _).bind fun y _ hy => hy
  all_goals exact h

theorem e82545IntrWrite_sourced (h : x.Sourced) {value : BitVec 32} {reg : Reg}
    (hLeaves : x.LeavesSource (.write reg value)) :
    Yields (fun _ => True) Sourced (x.e82545IntrWrite value reg) := by
  cases reg
  case icr => exact e82545IcrDeassert_sourced x value
  case ics => exact e82545IcrAssert_sourced (x := { x with ics := value }) h value
  case ims => exact e82545ImsChange_sourced h value
  case imc =>
    intro hIrq
    rw [← BitVec.and_assoc]
    exact hLeaves hIrq
  all_goals exact h

theorem access_sourced (h : x.Sourced) {a : Access} (hLeaves : x.LeavesSource a) :
    Yields (fun _ => True) Sourced (x.access a) := by
  cases a with
  | icrAssert bits => exact e82545IcrAssert_sourced h bits
  | write reg value => exact e82545IntrWrite_sourced h hLeaves
  | read reg => exact Yields.map (e82545IntrRead_sourced h reg)
  | callout => exact runCallout_sourced h

theorem access_unsourced {a : Access} (hLast : ¬ x.LeavesSource a) :
    ∃ y, x.access a = .ok y ∧ ¬ y.Sourced := by
  cases a with
  | write reg value =>
    cases reg
    case imc =>
      obtain ⟨hIrq, hNone⟩ := Classical.not_imp.mp hLast
      refine ⟨_, rfl, fun hSourced => hNone ?_⟩
      have hCause := hSourced hIrq
      rwa [← BitVec.and_assoc] at hCause
    all_goals exact absurd trivial hLast
  | _ => exact absurd trivial hLast

end Intr

open Intr

/-- From initialisation on an asserted interrupt always has a cause that is set and unmasked, exactly
as long as no write of IMC masks the last one of an asserted interrupt. -/
theorem e82545Init_sourced_iff (pi : PciDevinst) :
    ∃ sc, Softc.e82545Init pi = .ok sc ∧ ∀ accesses : List Access,
      Throughout Intr.access Sourced sc.intr accesses ↔
        Along Intr.access LeavesSource sc.intr accesses := by
  refine ⟨_, rfl, ?_⟩
  apply throughout_iff_along
  · exact fun _ h => h
  · exact fun _ _ _ h hLeaves hStep => (access_sourced h hLeaves).of_ok hStep
  · exact fun _ _ _ hLast => access_unsourced hLast
  · intro hIrq
    cases hIrq

theorem masked_while_asserted : ¬ ∀ sc, Softc.e82545Init pinned = .ok sc →
    Throughout Intr.access Sourced sc.intr
      [.write .ims 0x80, .icrAssert 0x80, .write .imc 0x80] := by
  intro h
  obtain ⟨x, hRun, hIrq, hNone⟩ : ∃ x, (Softc.e82545Init pinned >>= fun sc => run Intr.access sc.intr
      [.write .ims 0x80, .icrAssert 0x80, .write .imc 0x80]) = .ok x ∧ x.irqAsserted = true ∧
      x.icr &&& x.ims = 0 := by
    refine ⟨_, rfl, ?_, ?_⟩ <;> decide
  obtain ⟨sc, hInit, hRun⟩ := bind_eq_ok_iff.mp hRun
  exact h sc hInit _ [] x (List.append_nil _).symm hRun hIrq hNone

end DeviceModel.E82545

import DeviceModel.E82545
import DeviceModel.Lib.PowerOfTwo
import DeviceModel.Lib.ShiftRegister

/-!
# The e1000 network device: the serial interface of the EEPROM

`Microwire` is the interface as the host sees it: the bits of a command come in one
by one, then a word goes out or comes in. The state machine behind EECD follows it,
whatever writes that are no strobe stand between the strobes.
-/

set_option autoImplicit false

namespace DeviceModel.E82545

open PowerOfTwo ShiftRegister

section Host

inductive Phase where
  | command (got : List Bool)
  | sending (left : List Bool)
  | receiving (addr : BitVec 6) (got : List Bool)

/-- The interface: the words, the command under way, and the line that shows the bits of a word. -/
structure Microwire where
  word : Nat → BitVec 16
  phase : Phase
  out : Bool

namespace Microwire

/-- What three bits of opcode and six bits of address ask for. -/
def begin (word : Nat → BitVec 16) (bits : List Bool) : Phase :=
  let op : BitVec 3 := pushAll 0 (bits.take 3)
  let addr : BitVec 6 := pushAll 0 (bits.drop 3)
  if op = 6 then .sending (msbBits (word addr.toNat))
  else if op = 5 then .receiving addr []
  else .command []

def clock (e : Microwire) (b : Bool) : Microwire :=
  match e.phase with
  | .command got =>
    if got.length + 1 = 9 then { e with phase := begin e.word (got ++ [b]) }
    else { e with phase := .command (got ++ [b]) }
  | .sending [] => e
  | .sending (o :: left) =>
    { e with out := o, phase := if left = [] then .command [] else .sending left }
  | .receiving addr got =>
    if got.length + 1 = 16 then
      { e with
        word := Function.update e.word addr.toNat (pushAll 0 (got ++ [b])), phase := .command [] }
    else { e with phase := .receiving addr (got ++ [b]) }

def run (e : Microwire) (bits : List Bool) : Microwire := bits.foldl clock e

variable {e : Microwire} {got left bits : List Bool} {addr : BitVec 6}

theorem run_append (e : Microwire) (bits bits' : List Bool) :
    e.run (bits ++ bits') = (e.run bits).run bits' := List.foldl_append

theorem run_command (hPhase : e.phase = .command got) (hLen : got.length + bits.length < 9) :
    e.run bits = { e with phase := .command (got ++ bits) } := by
  induction bits generalizing e got with
  | nil =>
    rw [List.append_nil, ← hPhase]
    rfl
  | cons b bits ih =>
    simp only [List.length_cons] at hLen
    have hStep : e.clock b = { e with phase := .command (got ++ [b]) } := by
      unfold clock
      rw [hPhase]
      exact if_neg (by omega)
    have hRest : e.run (b :: bits) = (e.clock b).run bits := rfl
    rw [hRest, hStep, ih rfl (by simp; omega), List.append_assoc]
    rfl

theorem run_begin (hPhase : e.phase = .command []) (hLen : bits.length = 9) :
    e.run bits = { e with phase := begin e.word bits } := by
  obtain ⟨first, b, rfl⟩ : ∃ first b, bits = first ++ [b] := by
    have hNe : bits ≠ [] := by
      rintro rfl
      cases hLen
    exact ⟨_, _, (List.dropLast_concat_getLast hNe).symm⟩
  have hFirst : first.length = 8 := by simpa using hLen
  rw [run_append, run_command hPhase (by simp [hFirst])]
  have hLast : ∀ e' : Microwire, e'.run [b] = e'.clock b := fun _ => rfl
  rw [hLast, clock]
  exact if_pos (by simp [hFirst])

theorem begin_read (word : Nat → BitVec 16) (addr : BitVec 6) :
    begin word (msbBits (6 : BitVec 3) ++ msbBits addr) = .sending (msbBits (word addr.toNat)) := by
  unfold begin
  rw [List.take_left' (length_msbBits _), List.drop_left' (length_msbBits _), pushAll_msbBits,
    pushAll_msbBits]
  rfl

theorem begin_write (word : Nat → BitVec 16) (addr : BitVec 6) :
    begin word (msbBits (5 : BitVec 3) ++ msbBits addr) = .receiving addr [] := by
  unfold begin
  rw [List.take_left' (length_msbBits _), List.drop_left' (length_msbBits _), pushAll_msbBits,
    pushAll_msbBits]
  rfl

theorem begin_other (word : Nat → BitVec 16) {op : BitVec 3} (addr : BitVec 6) (hRead : op ≠ 6)
    (hWrite : op ≠ 5) : begin word (msbBits op ++ msbBits addr) = .command [] := by
  unfold begin
  rw [List.take_left' (length_msbBits _), pushAll_msbBits]
  dsimp only
  rw [if_neg hRead, if_neg hWrite]

theorem run_sending (hPhase : e.phase = .sending left) (hSome : bits ≠ [])
    (hLen : bits.length ≤ left.length) : e.run bits =
      { e with
        out := left.getD (bits.length - 1) false
        phase := if bits.length = left.length then .command []
          else .sending (left.drop bits.length) } := by
  induction left generalizing e bits with
  | nil =>
    have hNil : bits = [] := List.eq_nil_of_length_eq_zero (Nat.le_zero.mp hLen)
    exact absurd hNil hSome
  | cons o left ih =>
    cases bits with
    | nil => exact absurd rfl hSome
    | cons b bits =>
      have hStep : e.clock b =
          { e with out := o, phase := if left = [] then .command [] else .sending left } := by
        unfold clock
        rw [hPhase]
      have hRest : e.run (b :: bits) = (e.clock b).run bits := rfl
      simp only [List.length_cons, Nat.add_le_add_iff_right] at hLen
      rw [hRest, hStep]
      cases bits with
      | nil =>
        cases left with
        | nil => rfl
        | cons o' left => rfl
      | cons b' bits =>
        have hLeft : left ≠ [] := by
          rintro rfl
          simp at hLen
        rw [if_neg hLeft, ih rfl (List.cons_ne_nil _ _) hLen]
        simp

theorem run_receiving (hPhase : e.phase = .receiving addr got) (hLen : got.length + bits.length < 16) :
    e.run bits = { e with phase := .receiving addr (got ++ bits) } := by
  induction bits generalizing e got with
  | nil =>
    rw [List.append_nil, ← hPhase]
    rfl
  | cons b bits ih =>
    simp only [List.length_cons] at hLen
    have hStep : e.clock b = { e with phase := .receiving addr (got ++ [b]) } := by
      unfold clock
      rw [hPhase]
      exact if_neg (by omega)
    have hRest : e.run (b :: bits) = (e.clock b).run bits := rfl
    rw [hRest, hStep, ih rfl (by simp; omega), List.append_assoc]
    rfl

theorem run_stored (hPhase : e.phase = .receiving addr []) (word : BitVec 16) :
    e.run (msbBits word) =
      { e with word := Function.update e.word addr.toNat word, phase := .command [] } := by
  have hLen : (msbBits word).length = 16 := length_msbBits word
  obtain ⟨first, b, hBits⟩ : ∃ first b, msbBits word = first ++ [b] := by
    have hNe : msbBits word ≠ [] := List.ne_nil_of_length_pos (by omega)
    exact ⟨_, _, (List.dropLast_concat_getLast hNe).symm⟩
  have hFirst : first.length = 15 := by
    rw [hBits] at hLen
    simpa using hLen
  rw [hBits, run_append, run_receiving hPhase (by simp [hFirst])]
  have hLast : ∀ e' : Microwire, e'.run [b] = e'.clock b := fun _ => rfl
  rw [hLast, clock]
  dsimp only
  rw [if_pos (by simp [hFirst]), List.nil_append, ← hBits, pushAll_msbBits]

/-- READ: the bits of the word are shown in turn, and after the last one the interface is idle. -/
theorem run_read (hPhase : e.phase = .command []) (addr : BitVec 6) (hSome : bits ≠ [])
    (hLen : bits.length ≤ 16) :
    e.run (msbBits (6 : BitVec 3) ++ msbBits addr ++ bits) =
      { e with
        out := (e.word addr.toNat).getMsbD (bits.length - 1)
        phase := if bits.length = 16 then .command []
          else .sending ((msbBits (e.word addr.toNat)).drop bits.length) } := by
  have hPos : 0 < bits.length := List.length_pos_iff.mpr hSome
  rw [run_append, run_begin hPhase (by simp), begin_read,
    run_sending rfl hSome (by simpa using hLen), length_msbBits, List.getD_eq_getElem?_getD,
    getElem?_msbBits _ (by omega)]
  rfl

/-- WRITE: the word is stored, and the interface is idle. -/
theorem run_write (hPhase : e.phase = .command []) (addr : BitVec 6) (word : BitVec 16) :
    e.run (msbBits (5 : BitVec 3) ++ msbBits addr ++ msbBits word) =
      { e with word := Function.update e.word addr.toNat word, phase := .command [] } := by
  rw [run_append, run_begin hPhase (by simp), begin_write, run_stored rfl]

theorem run_other (hPhase : e.phase = .command []) {op : BitVec 3} (addr : BitVec 6)
    (hRead : op ≠ 6) (hWrite : op ≠ 5) : e.run (msbBits op ++ msbBits addr) = e := by
  rw [run_begin hPhase (by simp), begin_other _ addr hRead hWrite, ← hPhase]

end Microwire

end Host

section Device

variable {x : Nvm} {e : Microwire}

def Nvm.dataOut (x : Nvm) : Bool := x.eepromControl &&& E1000_EECD_DO ≠ 0

def dataIn (control : BitVec 32) : Bool := control &&& E1000_EECD_DI ≠ 0

/-- The state machine stands where the interface does. -/
def Phase.Shown (x : Nvm) : Phase → Prop
  | .command got => x.nvmMode = .opaddr ∧ x.nvmBits.toNat + got.length = 9 ∧ 0 < x.nvmBits.toNat ∧
      ∃ y, x.nvmOpaddr = pushAll y got
  | .sending left => x.nvmMode = .dataout ∧ x.nvmBits.toNat = left.length ∧ 0 < left.length ∧
      left.length ≤ 16 ∧ left = (msbBits x.nvmData).take left.length
  | .receiving addr got => x.nvmMode = .datain ∧ x.nvmBits.toNat + got.length = 16 ∧
      0 < x.nvmBits.toNat ∧ (∃ y, x.nvmData = pushAll y got) ∧
      x.nvmOpaddr &&& E82545_NVM_OPCODE_MASK = E82545_NVM_OPCODE_WRITE ∧
      x.nvmOpaddr &&& E82545_NVM_ADDR_MASK = addr.setWidth 16

structure Shows (x : Nvm) (e : Microwire) : Prop where
  word : x.eepromData = e.word
  out : x.dataOut = e.out
  phase : e.phase.Shown x

theorem shiftIn_eq (x : Nvm) (y : BitVec 16) : x.shiftIn y = push y (dataIn x.eepromControl) := by
  unfold Nvm.shiftIn push dataIn
  simp only [decide_eq_true_eq]

theorem bits_pred {b : BitVec 6} (h : 0 < b.toNat) : (b - 1).toNat + 1 = b.toNat := by
  have hLt := b.isLt
  rw [BitVec.toNat_sub]
  simp
  omega

theorem bits_eq_zero {b : BitVec 6} : b = 0 ↔ b.toNat = 0 := by
  rw [← BitVec.toNat_inj]
  rfl

theorem mask_eq (z : BitVec 16) (mask : BitVec 9) :
    z &&& mask.setWidth 16 = (z.setWidth 9 &&& mask).setWidth 16 := by
  apply BitVec.eq_of_getLsbD_eq
  intro i hi
  simp only [BitVec.getLsbD_and, BitVec.getLsbD_setWidth, hi, decide_true, Bool.true_and]
  cases hBit : mask.getLsbD i with
  | false => simp
  | true =>
    have hLow : i < 9 := BitVec.lt_of_getLsbD hBit
    simp [hLow]

theorem masks_eq {z : BitVec 16} {op : BitVec 3} {addr : BitVec 6} (h : z.setWidth 9 = op ++ addr) :
    z &&& E82545_NVM_OPCODE_MASK = (op ++ 0#6).setWidth 16 ∧
      z &&& E82545_NVM_ADDR_MASK = addr.setWidth 16 := by
  have hOp : E82545_NVM_OPCODE_MASK = (BitVec.allOnes 3 ++ 0#6).setWidth 16 := by decide
  have hAddr : E82545_NVM_ADDR_MASK = (0#3 ++ BitVec.allOnes 6).setWidth 16 := by decide
  constructor
  · rw [hOp, mask_eq, h, BitVec.and_append, BitVec.and_allOnes, BitVec.and_zero]
  · rw [hAddr, mask_eq, h, BitVec.and_append, BitVec.and_allOnes, BitVec.and_zero]
    apply BitVec.eq_of_getLsbD_eq
    intro i hi
    rw [BitVec.getLsbD_setWidth, BitVec.getLsbD_setWidth, BitVec.getLsbD_append]
    split
    · simp [*]
    · next hHigh => simp [BitVec.getLsbD_of_ge addr i (by omega)]

theorem opcode_eq_read_iff : ∀ op : BitVec 3,
    (op ++ 0#6).setWidth 16 = E82545_NVM_OPCODE_READ ↔ op = 6 := by decide

theorem opcode_eq_write_iff : ∀ op : BitVec 3,
    (op ++ 0#6).setWidth 16 = E82545_NVM_OPCODE_WRITE ↔ op = 5 := by decide

theorem idle_shown (x : Nvm) : (Phase.command []).Shown x.idle :=
  ⟨rfl, rfl, Nat.succ_pos 8, 0, rfl⟩

theorem decodeOpaddr_shown {got : List Bool} (hLen : got.length = 9) {y : BitVec 16}
    (hOpaddr : x.nvmOpaddr = pushAll y got) :
    (Microwire.begin x.eepromData got).Shown x.decodeOpaddr := by
  have hSplit : x.nvmOpaddr.setWidth 9 =
      pushAll (0 : BitVec 3) (got.take 3) ++ pushAll (0 : BitVec 6) (got.drop 3) := by
    have hGot : got = msbBits (pushAll (0 : BitVec 3) (got.take 3) ++
        pushAll (0 : BitVec 6) (got.drop 3)) := by
      rw [msbBits_append, msbBits_pushAll _ (by simp [hLen]), msbBits_pushAll _ (by simp [hLen]),
        List.take_append_drop]
    rw [hOpaddr]
    conv_lhs => rw [hGot]
    exact setWidth_pushAll y _ (by decide)
  obtain ⟨hOp, hAddr⟩ := masks_eq hSplit
  unfold Nvm.decodeOpaddr Microwire.begin
  dsimp only
  rw [hOp]
  simp only [opcode_eq_read_iff, opcode_eq_write_iff]
  split
  · have hWord : (x.nvmOpaddr &&& E82545_NVM_ADDR_MASK).toNat =
        (pushAll (0 : BitVec 6) (got.drop 3)).toNat := by
      have hLt := (pushAll (0 : BitVec 6) (got.drop 3)).isLt
      rw [hAddr, BitVec.toNat_setWidth]
      omega
    refine ⟨rfl, by simp [E82545_NVM_DATA_BITS], by simp, by simp, ?_⟩
    rw [hWord, length_msbBits, List.take_of_length_le (Nat.le_of_eq (length_msbBits _))]
  split
  · next hWrite =>
    refine ⟨rfl, rfl, Nat.succ_pos 15, ⟨0, rfl⟩, ?_, hAddr⟩
    exact hOp.trans ((opcode_eq_write_iff _).mpr hWrite)
  · exact idle_shown x

/-- The strobe in each of the three modes. -/
theorem strobe_opaddr (hMode : x.nvmMode = .opaddr) (hBits : 0 < x.nvmBits.toNat) :
    x.e82545EecdStrobe =
      let z := { x with
        nvmBits := x.nvmBits - 1, nvmOpaddr := push x.nvmOpaddr (dataIn x.eepromControl) }
      if x.nvmBits.toNat = 1 then z.decodeOpaddr else z := by
  have hPred := bits_pred hBits
  have hLast : x.nvmBits - 1 = 0 ↔ x.nvmBits.toNat = 1 := by
    rw [bits_eq_zero]
    omega
  unfold Nvm.e82545EecdStrobe
  rw [if_neg (by rw [bits_eq_zero]; omega)]
  simp only [hMode, shiftIn_eq]
  exact if_congr hLast rfl rfl

theorem strobe_datain (hMode : x.nvmMode = .datain) (hBits : 0 < x.nvmBits.toNat) :
    x.e82545EecdStrobe =
      let z := { x with
        nvmBits := x.nvmBits - 1, nvmData := push x.nvmData (dataIn x.eepromControl) }
      if x.nvmBits.toNat = 1 then z.storeWord else z := by
  have hPred := bits_pred hBits
  have hLast : x.nvmBits - 1 = 0 ↔ x.nvmBits.toNat = 1 := by
    rw [bits_eq_zero]
    omega
  unfold Nvm.e82545EecdStrobe
  rw [if_neg (by rw [bits_eq_zero]; omega)]
  simp only [hMode, shiftIn_eq]
  exact if_congr hLast rfl rfl

/-- EECD with DO set to a bit. -/
def withOut (control : BitVec 32) (o : Bool) : BitVec 32 :=
  if o then control ||| E1000_EECD_DO else control &&& ~~~E1000_EECD_DO

theorem strobe_dataout (hMode : x.nvmMode = .dataout) (hBits : 0 < x.nvmBits.toNat) :
    x.e82545EecdStrobe =
      let z := { x with
        nvmBits := x.nvmBits - 1, nvmData := x.nvmData <<< 1
        eepromControl := withOut x.eepromControl (x.nvmData.getMsbD 0) }
      if x.nvmBits.toNat = 1 then z.idle else z := by
  have hPred := bits_pred hBits
  have hLast : x.nvmBits - 1 = 0 ↔ x.nvmBits.toNat = 1 := by
    rw [bits_eq_zero]
    omega
  have hTop : x.nvmData &&& 0x8000 ≠ 0 ↔ x.nvmData.getMsbD 0 = true :=
    and_twoPow_ne_zero_iff (w := 16) (k := 15) (by decide)
  unfold Nvm.e82545EecdStrobe
  rw [if_neg (by rw [bits_eq_zero]; omega)]
  simp only [hMode, withOut, hTop]
  exact if_congr hLast rfl rfl

theorem decodeOpaddr_frame (x : Nvm) : x.decodeOpaddr.eepromData = x.eepromData ∧
    x.decodeOpaddr.eepromControl = x.eepromControl := by
  unfold Nvm.decodeOpaddr
  dsimp only
  split
  · exact ⟨rfl, rfl⟩
  split
  · exact ⟨rfl, rfl⟩
  · exact ⟨rfl, rfl⟩

theorem shows_command (h : Shows x e) {got : List Bool} (hAt : e.phase = .command got) :
    Shows x.e82545EecdStrobe (e.clock (dataIn x.eepromControl)) := by
  obtain ⟨hWord, hOut, hPhase⟩ := h
  rw [hAt] at hPhase
  obtain ⟨hMode, hBits, hPos, y, hOpaddr⟩ := hPhase
  have hPred := bits_pred hPos
  rw [strobe_opaddr hMode hPos, Microwire.clock, hAt]
  generalize dataIn x.eepromControl = b
  have hIn : push x.nvmOpaddr b = pushAll y (got ++ [b]) := by rw [pushAll_append, hOpaddr]
  dsimp only
  rw [hIn]
  by_cases hLast : got.length + 1 = 9
  · rw [if_pos (by omega), if_pos hLast]
    generalize hz : ({ x with nvmBits := x.nvmBits - 1, nvmOpaddr := pushAll y (got ++ [b]) } : Nvm) = z
    have hData : z.eepromData = e.word := by
      rw [← hz]
      exact hWord
    have hControl : z.eepromControl = x.eepromControl := by rw [← hz]
    obtain ⟨hFrame, hLines⟩ := decodeOpaddr_frame z
    refine ⟨hFrame.trans hData, ?_, ?_⟩
    · rw [Nvm.dataOut, hLines, hControl]
      exact hOut
    · dsimp only
      rw [← hData]
      have hLen : (got ++ [b]).length = 9 := by rw [List.length_append, List.length_singleton, hLast]
      exact decodeOpaddr_shown hLen (y := y) (by rw [← hz])
  · rw [if_neg (by omega), if_neg hLast]
    refine ⟨hWord, hOut, hMode, ?_, ?_, y, rfl⟩
    · simp only [List.length_append, List.length_singleton]
      omega
    · show 0 < (x.nvmBits - 1).toNat
      omega

theorem dataOut_withOut (z : Nvm) (o : Bool) (h : z.eepromControl = withOut x.eepromControl o) :
    z.dataOut = o := by
  have hBit : ∀ control : BitVec 32, decide (control &&& E1000_EECD_DO ≠ 0) = control.getLsbD 3 := by
    intro control
    rw [Bool.eq_iff_iff, decide_eq_true_iff]
    exact and_twoPow_ne_zero_iff (w := 32) (k := 3) (by decide)
  rw [Nvm.dataOut, hBit, h, withOut]
  cases o <;> simp [E1000_EECD_DO]

theorem shows_sending (h : Shows x e) {left : List Bool} (hAt : e.phase = .sending left) :
    Shows x.e82545EecdStrobe (e.clock (dataIn x.eepromControl)) := by
  obtain ⟨hWord, hOut, hPhase⟩ := h
  rw [hAt] at hPhase
  obtain ⟨hMode, hBits, hPos, hMax, hLeft⟩ := hPhase
  cases left with
  | nil => exact absurd hPos (Nat.lt_irrefl 0)
  | cons o left =>
    simp only [List.length_cons] at hBits hMax hLeft
    have hPred := bits_pred (b := x.nvmBits) (by omega)
    have hTop : x.nvmData.getMsbD 0 = o := by
      have hFirst := congrArg (·[0]?) hLeft
      rw [List.getElem?_take_of_lt (Nat.succ_pos _), getElem?_msbBits _ (by decide)] at hFirst
      exact (Option.some.inj hFirst).symm
    have hRest : left = (msbBits (x.nvmData <<< 1)).take left.length := by
      rw [take_msbBits_shiftLeft _ (by omega)]
      have hTail := congrArg List.tail hLeft
      rw [List.tail_cons, ← List.drop_one, List.drop_take] at hTail
      exact hTail
    rw [strobe_dataout hMode (by omega), Microwire.clock, hAt, hTop]
    dsimp only
    cases left with
    | nil =>
      rw [if_pos (by simpa using hBits), if_pos rfl]
      exact ⟨hWord, dataOut_withOut _ o rfl, idle_shown _⟩
    | cons o' left =>
      rw [if_neg (by simp only [List.length_cons] at hBits; omega), if_neg (List.cons_ne_nil _ _)]
      refine ⟨hWord, dataOut_withOut _ o rfl, hMode, ?_, Nat.succ_pos _, by omega, hRest⟩
      show (x.nvmBits - 1).toNat = _
      omega

theorem shows_receiving (h : Shows x e) {addr : BitVec 6} {got : List Bool}
    (hAt : e.phase = .receiving addr got) :
    Shows x.e82545EecdStrobe (e.clock (dataIn x.eepromControl)) := by
  obtain ⟨hWord, hOut, hPhase⟩ := h
  rw [hAt] at hPhase
  obtain ⟨hMode, hBits, hPos, ⟨y, hData⟩, hOp, hAddr⟩ := hPhase
  have hPred := bits_pred hPos
  rw [strobe_datain hMode hPos, Microwire.clock, hAt]
  generalize dataIn x.eepromControl = b
  have hIn : push x.nvmData b = pushAll y (got ++ [b]) := by rw [pushAll_append, hData]
  dsimp only
  rw [hIn]
  by_cases hLast : got.length + 1 = 16
  · have hFull : pushAll y (got ++ [b]) = pushAll 0 (got ++ [b]) := by
      have hBack : msbBits (pushAll (0 : BitVec 16) (got ++ [b])) = got ++ [b] :=
        msbBits_pushAll 0 (by simp [hLast])
      conv_lhs => rw [← hBack]
      exact pushAll_msbBits y _
    have hIndex : (addr.setWidth 16).toNat = addr.toNat := by
      have hLt := addr.isLt
      rw [BitVec.toNat_setWidth]
      omega
    rw [if_pos (by omega), if_pos hLast, Nvm.storeWord]
    dsimp only
    rw [if_pos hOp, hAddr, hIndex, hFull, hWord]
    exact ⟨rfl, hOut, idle_shown _⟩
  · rw [if_neg (by omega), if_neg hLast]
    refine ⟨hWord, hOut, hMode, ?_, ?_, ⟨y, rfl⟩, hOp, hAddr⟩
    · simp only [List.length_append, List.length_singleton]
      omega
    · show 0 < (x.nvmBits - 1).toNat
      omega

/-- A strobe takes in the bit on DI, as the interface does. -/
theorem strobe_shows (h : Shows x e) :
    Shows x.e82545EecdStrobe (e.clock (dataIn x.eepromControl)) := by
  cases hAt : e.phase with
  | command got => exact shows_command h hAt
  | sending left => exact shows_sending h hAt
  | receiving addr got => exact shows_receiving h hAt

end Device

section Writes

variable {x : Nvm} {e : Microwire}

/-- The write is a strobe: the clock rises while the chip is selected. -/
def strobes (control value : BitVec 32) : Bool :=
  control &&& E1000_EECD_SK = 0 ∧ value &&& E1000_EECD_SK ≠ 0 ∧ value &&& E1000_EECD_CS ≠ 0

/-- The bits on DI at the strobes among a sequence of writes; `control` is EECD before it. -/
def strobedBits : BitVec 32 → List (BitVec 32) → List Bool
  | _, [] => []
  | control, value :: values =>
    if strobes control value then dataIn value :: strobedBits value values
    else strobedBits value values

def Nvm.eecdWrites (x : Nvm) (values : List (BitVec 32)) : Nvm := values.foldl Nvm.eecdWrite x

def eecdLines (control value : BitVec 32) : BitVec 32 :=
  let eecdMask := E1000_EECD_SK ||| E1000_EECD_CS ||| E1000_EECD_DI ||| E1000_EECD_REQ
  let control := (control &&& ~~~eecdMask) ||| (value &&& eecdMask)
  if value &&& E1000_EECD_REQ ≠ 0 then control ||| E1000_EECD_GNT else control &&& ~~~E1000_EECD_GNT

theorem sk_bit (control : BitVec 32) : control &&& E1000_EECD_SK ≠ 0 ↔ control.getLsbD 0 = true :=
  and_twoPow_ne_zero_iff (w := 32) (k := 0) (by decide)

theorem cs_bit (control : BitVec 32) : control &&& E1000_EECD_CS ≠ 0 ↔ control.getLsbD 1 = true :=
  and_twoPow_ne_zero_iff (w := 32) (k := 1) (by decide)

theorem di_bit (control : BitVec 32) : control &&& E1000_EECD_DI ≠ 0 ↔ control.getLsbD 2 = true :=
  and_twoPow_ne_zero_iff (w := 32) (k := 2) (by decide)

theorem do_bit (control : BitVec 32) : control &&& E1000_EECD_DO ≠ 0 ↔ control.getLsbD 3 = true :=
  and_twoPow_ne_zero_iff (w := 32) (k := 3) (by decide)

/-- The host drives clock, select and data, and leaves DO alone. -/
theorem eecdLines_bits (control value : BitVec 32) :
    (∀ i < 3, (eecdLines control value).getLsbD i = value.getLsbD i) ∧
      (eecdLines control value).getLsbD 3 = control.getLsbD 3 := by
  have hMask : ∀ i < 3, (E1000_EECD_SK ||| E1000_EECD_CS ||| E1000_EECD_DI |||
      E1000_EECD_REQ).getLsbD i = true ∧ E1000_EECD_GNT.getLsbD i = false := by decide
  have hOut : (E1000_EECD_SK ||| E1000_EECD_CS ||| E1000_EECD_DI |||
      E1000_EECD_REQ).getLsbD 3 = false ∧ E1000_EECD_GNT.getLsbD 3 = false := by decide
  unfold eecdLines
  dsimp only
  constructor
  · intro i hi
    obtain ⟨hIn, hGnt⟩ := hMask i hi
    have hWidth : i < 32 := by omega
    split <;> simp only [BitVec.getLsbD_or, BitVec.getLsbD_and, BitVec.getLsbD_not, hIn, hGnt, hWidth,
      decide_true, Bool.not_true, Bool.not_false, Bool.and_true, Bool.and_false, Bool.or_false,
      Bool.false_or]
  · obtain ⟨hIn, hGnt⟩ := hOut
    split <;> simp only [BitVec.getLsbD_or, BitVec.getLsbD_and, BitVec.getLsbD_not, hIn, hGnt,
      show 3 < 32 by decide, decide_true, Bool.not_false, Bool.and_true, Bool.and_false, Bool.or_false]

theorem eecdWrite_eq (x : Nvm) (value : BitVec 32) :
    x.eecdWrite value =
      let z := { x with eepromControl := eecdLines x.eepromControl value }
      if strobes x.eepromControl value then z.e82545EecdStrobe else z := by
  have hSelect : eecdLines x.eepromControl value &&& E1000_EECD_CS ≠ 0 ↔
      value &&& E1000_EECD_CS ≠ 0 := by
    rw [cs_bit, cs_bit, (eecdLines_bits _ _).1 1 (by decide)]
  have hStrobe : (decide (x.eepromControl &&& E1000_EECD_SK = 0 ∧
      value &&& E1000_EECD_SK ≠ 0) = true ∧ eecdLines x.eepromControl value &&& E1000_EECD_CS ≠ 0) ↔
      strobes x.eepromControl value = true := by
    rw [hSelect, strobes, decide_eq_true_iff, decide_eq_true_iff, and_assoc]
  exact if_congr hStrobe rfl rfl

theorem strobe_clock (x : Nvm) :
    x.e82545EecdStrobe.eepromControl.getLsbD 0 = x.eepromControl.getLsbD 0 := by
  rcases Nat.eq_zero_or_pos x.nvmBits.toNat with hNone | hSome
  · rw [Nvm.e82545EecdStrobe, if_pos (bits_eq_zero.mpr hNone)]
  cases hMode : x.nvmMode with
  | opaddr =>
    rw [strobe_opaddr hMode hSome]
    dsimp only
    split
    · rw [(decodeOpaddr_frame _).2]
    · rfl
  | datain =>
    rw [strobe_datain hMode hSome]
    dsimp only
    split
    · unfold Nvm.storeWord
      split <;> rfl
    · rfl
  | dataout =>
    have hOut : (withOut x.eepromControl (x.nvmData.getMsbD 0)).getLsbD 0 =
        x.eepromControl.getLsbD 0 := by
      unfold withOut
      split <;> simp [E1000_EECD_DO]
    rw [strobe_dataout hMode hSome]
    dsimp only
    split <;> exact hOut

theorem strobedBits_congr {control control' : BitVec 32} (h : control.getLsbD 0 = control'.getLsbD 0)
    (values : List (BitVec 32)) : strobedBits control values = strobedBits control' values := by
  cases values with
  | nil => rfl
  | cons value values =>
    have hSk : control &&& E1000_EECD_SK = 0 ↔ control' &&& E1000_EECD_SK = 0 := by
      rw [← not_iff_not, ← ne_eq, ← ne_eq, sk_bit, sk_bit, h]
    have hSame : strobes control value = strobes control' value := by
      unfold strobes
      simp only [hSk]
    rw [strobedBits, strobedBits, hSame]

/-- A write leaves the state machine where the interface comes to with the bit of its strobe. -/
theorem write_shows (h : Shows x e) (value : BitVec 32) : Shows (x.eecdWrite value)
    (if strobes x.eepromControl value then e.clock (dataIn value) else e) := by
  obtain ⟨hLines, hDo⟩ := eecdLines_bits x.eepromControl value
  generalize hz : ({ x with eepromControl := eecdLines x.eepromControl value } : Nvm) = z
  have hControl : z.eepromControl = eecdLines x.eepromControl value := by rw [← hz]
  have hShown : Shows z e := by
    refine ⟨?_, ?_, ?_⟩
    · rw [← hz]
      exact h.word
    · rw [← h.out, Nvm.dataOut, Nvm.dataOut, Bool.eq_iff_iff, decide_eq_true_iff, decide_eq_true_iff,
        do_bit, do_bit, hControl, hDo]
    · rw [← hz]
      exact h.phase
  have hDi : dataIn z.eepromControl = dataIn value := by
    rw [dataIn, dataIn, Bool.eq_iff_iff, decide_eq_true_iff, decide_eq_true_iff, di_bit, di_bit,
      hControl, hLines 2 (by decide)]
  rw [eecdWrite_eq, hz]
  dsimp only
  split
  · rw [← hDi]
    exact strobe_shows hShown
  · exact hShown

theorem write_clock (x : Nvm) (value : BitVec 32) :
    (x.eecdWrite value).eepromControl.getLsbD 0 = value.getLsbD 0 := by
  have hLines := (eecdLines_bits x.eepromControl value).1 0 (by decide)
  rw [eecdWrite_eq]
  dsimp only
  split
  · exact (strobe_clock _).trans hLines
  · exact hLines

theorem writes_show (h : Shows x e) (values : List (BitVec 32)) :
    Shows (x.eecdWrites values) (e.run (strobedBits x.eepromControl values)) := by
  induction values generalizing x e with
  | nil => exact h
  | cons value values ih =>
    have hRest := ih (write_shows h value)
    rw [strobedBits_congr (write_clock x value)] at hRest
    rw [strobedBits]
    split
    · next hStrobe =>
      rw [if_pos hStrobe] at hRest
      exact hRest
    · next hStrobe =>
      rw [if_neg hStrobe] at hRest
      exact hRest

end Writes

section Protocol

variable {x : Nvm} {e : Microwire}

/-- Opcode mode, with all nine bits expected. -/
structure Nvm.Idle (x : Nvm) : Prop where
  mode : x.nvmMode = .opaddr
  bits : x.nvmBits = E82545_NVM_OPADDR_BITS

theorem Nvm.Idle.shows (h : x.Idle) : Shows x ⟨x.eepromData, .command [], x.dataOut⟩ where
  word := rfl
  out := rfl
  phase := by
    refine ⟨h.mode, ?_, ?_, x.nvmOpaddr, rfl⟩
    · rw [h.bits]
      rfl
    · rw [h.bits]
      exact Nat.succ_pos 8

theorem Shows.idle (h : Shows x e) (hPhase : e.phase = .command []) : x.Idle := by
  have hShown := h.phase
  rw [hPhase] at hShown
  obtain ⟨hMode, hBits, -⟩ := hShown
  exact ⟨hMode, BitVec.eq_of_toNat_eq hBits⟩

theorem Shows.bits_ne_zero (h : Shows x e) : x.nvmBits ≠ 0 := by
  have hShown := h.phase
  rw [ne_eq, bits_eq_zero]
  cases hPhase : e.phase with
  | command got =>
    rw [hPhase] at hShown
    obtain ⟨-, -, hPos, -⟩ := hShown
    omega
  | sending left =>
    rw [hPhase] at hShown
    obtain ⟨-, hBits, hPos, -⟩ := hShown
    omega
  | receiving addr got =>
    rw [hPhase] at hShown
    obtain ⟨-, -, hPos, -⟩ := hShown
    omega

/-- A command that is complete: the interface is idle, and holds these words. -/
def Completes (y : Nvm) (word : Nat → BitVec 16) : Prop := y.Idle ∧ y.eepromData = word

/-- A word on its way out: its bits are shown in turn, and after the last one the command is
complete. -/
def Presents (y : Nvm) (word : Nat → BitVec 16) (addr : BitVec 6) (shown : Nat) : Prop :=
  y.dataOut = (word addr.toNat).getMsbD (shown - 1) ∧ (shown = 16 → Completes y word)

/-- What writes of EECD do that come to an idle interface, by the bits of their strobes. -/
structure EecdProtocol (x y : Nvm) (bits : List Bool) : Prop where
  expects : y.nvmBits ≠ 0
  read : ∀ (addr : BitVec 6) (junk : List Bool),
    bits = msbBits (6 : BitVec 3) ++ msbBits addr ++ junk → junk ≠ [] → junk.length ≤ 16 →
      Presents y x.eepromData addr junk.length
  write : ∀ (addr : BitVec 6) (word : BitVec 16),
    bits = msbBits (5 : BitVec 3) ++ msbBits addr ++ msbBits word →
      Completes y (Function.update x.eepromData addr.toNat word)
  readBack : ∀ (addr : BitVec 6) (word : BitVec 16) (junk : List Bool),
    bits = msbBits (5 : BitVec 3) ++ msbBits addr ++ msbBits word ++
        (msbBits (6 : BitVec 3) ++ msbBits addr ++ junk) → junk ≠ [] → junk.length ≤ 16 →
      Presents y (Function.update x.eepromData addr.toNat word) addr junk.length
  other : ∀ (op : BitVec 3) (addr : BitVec 6), op ≠ 6 → op ≠ 5 → bits = msbBits op ++ msbBits addr →
    Completes y x.eepromData

theorem Shows.presents {addr : BitVec 6} {junk : List Bool} (hPhase : e.phase = .command [])
    (hSome : junk ≠ []) (hLen : junk.length ≤ 16)
    (h : Shows x (e.run (msbBits (6 : BitVec 3) ++ msbBits addr ++ junk))) :
    Presents x e.word addr junk.length := by
  rw [Microwire.run_read hPhase addr hSome hLen] at h
  refine ⟨h.out, fun hAll => ⟨?_, h.word⟩⟩
  rw [if_pos hAll] at h
  exact h.idle rfl

theorem eecd_protocol (hIdle : x.Idle) (values : List (BitVec 32)) :
    EecdProtocol x (x.eecdWrites values) (strobedBits x.eepromControl values) := by
  have hShows := writes_show hIdle.shows values
  refine ⟨hShows.bits_ne_zero, ?_, ?_, ?_, ?_⟩
  · intro addr junk hBits hSome hLen
    rw [hBits] at hShows
    exact hShows.presents rfl hSome hLen
  · intro addr word hBits
    rw [hBits, Microwire.run_write rfl] at hShows
    exact ⟨hShows.idle rfl, hShows.word⟩
  · intro addr word junk hBits hSome hLen
    rw [hBits, Microwire.run_append, Microwire.run_write rfl] at hShows
    exact hShows.presents rfl hSome hLen
  · intro op addr hRead hWrite hBits
    rw [hBits, Microwire.run_other rfl addr hRead hWrite] at hShows
    exact ⟨hShows.idle rfl, hShows.word⟩

/-- Each bit is set up on DI while the clock is low. -/
def clocked (bits : List Bool) : List (BitVec 32) := bits.flatMap fun b =>
  let di := if b then E1000_EECD_DI else 0
  [E1000_EECD_CS ||| di, E1000_EECD_CS ||| E1000_EECD_SK ||| di]

/-- After a reset, a whole READ of word 3: its last bit is shown, and the next command may come. -/
theorem eecd_protocol_read :
    let x : Nvm := ⟨0, 0, 0, E82545_NVM_OPADDR_BITS, .opaddr, fun i => if i = 3 then 0x1235 else 0⟩
    let values := clocked (msbBits (6 : BitVec 3) ++ msbBits (3 : BitVec 6) ++ .replicate 16 false)
    EecdProtocol x (x.eecdWrites values) (strobedBits x.eepromControl values) ∧
      (x.eecdWrites values).dataOut = true ∧ (x.eecdWrites values).Idle := by
  intro x values
  have hProtocol := eecd_protocol (x := x) ⟨rfl, rfl⟩ values
  have hBits : strobedBits x.eepromControl values =
      msbBits (6 : BitVec 3) ++ msbBits (3 : BitVec 6) ++ .replicate 16 false := by decide
  obtain ⟨hShown, hDone⟩ := hProtocol.read 3 (.replicate 16 false) hBits (by decide) (by decide)
  exact ⟨hProtocol, hShown.trans (by decide), (hDone rfl).1⟩

end Protocol

end DeviceModel.E82545

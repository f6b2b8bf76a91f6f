import Mathlib.Data.BitVec
import Mathlib.Tactic.Common

/-!
# Computations that may stop at a fault

`Yields E Q x` is the contract of a computation `x : Except ε α`: what it
returns satisfies `Q`, and what it stops at satisfies `E`. Runs iterate one
fallible step over a list of inputs; `Along` carries a condition on the inputs
through the states such a run visits.
-/

set_option autoImplicit false

namespace DeviceModel.Fallible

variable {ε α β σ ι : Type}

def Yields (E : ε → Prop) (Q : α → Prop) : Except ε α → Prop
  | .ok a => Q a
  | .error e => E e

variable {E : ε → Prop} {Q : α → Prop}

@[simp] theorem yields_ok (a : α) : Yields E Q (.ok a) ↔ Q a := Iff.rfl

@[simp] theorem yields_error (e : ε) : Yields E Q (.error e) ↔ E e := Iff.rfl

instance [DecidablePred E] [DecidablePred Q] : DecidablePred (Yields E Q)
  | .ok a => inferInstanceAs (Decidable (Q a))
  | .error e => inferInstanceAs (Decidable (E e))

theorem Yields.bind {P : α → Prop} {R : β → Prop} {x : Except ε α} {f : α → Except ε β}
    (hx : Yields E P x) (hf : ∀ a, x = .ok a → P a → Yields E R (f a)) : Yields E R (x >>= f) := by
  cases x with
  | ok a => exact hf a rfl hx
  | error e => exact hx

theorem Yields.imp {P : α → Prop} {x : Except ε α} (hx : Yields E P x)
    (h : ∀ a, x = .ok a → P a → Q a) : Yields E Q x := by
  cases x with
  | ok a => exact h a rfl hx
  | error e => exact hx

theorem Yields.weaken {x : Except ε α} (hx : Yields E Q x) : Yields (fun _ => True) Q x := by
  cases x with
  | ok a => exact hx
  | error e => trivial

theorem Yields.mono {E' : ε → Prop} {x : Except ε α} (hx : Yields E Q x) (h : ∀ e, E e → E' e) :
    Yields E' Q x := by
  cases x with
  | ok a => exact hx
  | error e => exact h e hx

theorem Yields.and {P : α → Prop} {x : Except ε α} (hx : Yields E P x) (hx' : Yields E Q x) :
    Yields E (fun a => P a ∧ Q a) x := by
  cases x with
  | ok a => exact ⟨hx, hx'⟩
  | error e => exact hx

theorem Yields.map {R : β → Prop} {x : Except ε α} {f : α → β} (hx : Yields E (fun a => R (f a)) x) :
    Yields E R (x.map f) := by
  cases x with
  | ok a => exact hx
  | error e => exact hx

theorem Yields.ite {p : Prop} [Decidable p] {x y : Except ε α} (hx : Yields E Q x)
    (hy : Yields E Q y) : Yields E Q (if p then x else y) := by
  split
  · exact hx
  · exact hy

theorem Yields.first {x : Except ε α} {f : α → Except ε β} {R : β → Prop} (h : Yields E R (x >>= f)) :
    Yields E (fun _ => True) x := by
  cases x with
  | ok a => trivial
  | error e => exact h

theorem Yields.of_ok {x : Except ε α} {a : α} (h : Yields E Q x) (hx : x = .ok a) : Q a := by
  rw [hx] at h
  exact h

theorem Yields.of_error {x : Except ε α} {e : ε} (h : Yields E Q x) (hx : x = .error e) : E e := by
  rw [hx] at h
  exact h

theorem Yields.exists_ok {x : Except ε α} (h : Yields (fun _ => False) Q x) : ∃ a, x = .ok a ∧ Q a := by
  cases x with
  | ok a => exact ⟨a, rfl, h⟩
  | error e => exact h.elim

theorem yields_true (x : Except ε α) : Yields (fun _ => True) (fun _ => True) x := by
  cases x <;> trivial

def fault? : Except ε α → Option ε
  | .ok _ => none
  | .error e => some e

theorem fault?_eq_some_iff {x : Except ε α} {e : ε} : fault? x = some e ↔ x = .error e := by
  cases x <;> simp [fault?]

theorem fault?_eq_none_iff {x : Except ε α} : fault? x = none ↔ ∃ a, x = .ok a := by
  cases x <;> simp [fault?]

theorem toOption_eq_some_iff {x : Except ε α} {a : α} : x.toOption = some a ↔ x = .ok a := by
  cases x <;> simp [Except.toOption]

@[simp] theorem ok_bind (a : α) (f : α → Except ε β) : (.ok a >>= f) = f a := rfl

@[simp] theorem error_bind (e : ε) (f : α → Except ε β) :
    ((.error e : Except ε α) >>= f) = .error e := rfl

@[simp] theorem pure_eq_ok (a : α) : (pure a : Except ε α) = .ok a := rfl

@[simp] theorem throw_eq_error (e : ε) : (throw e : Except ε α) = .error e := rfl

theorem bind_eq_ok_iff {x : Except ε α} {f : α → Except ε β} {b : β} :
    (x >>= f) = .ok b ↔ ∃ a, x = .ok a ∧ f a = .ok b := by
  cases x with
  | ok a => simp
  | error e => simp

theorem map_eq_ok_iff {x : Except ε α} {f : α → β} {b : β} :
    x.map f = .ok b ↔ ∃ a, x = .ok a ∧ f a = b := by
  cases x with
  | ok a => simp [Except.map]
  | error e => simp [Except.map]

def assertThat (p : Prop) [Decidable p] (e : ε) : Except ε Unit :=
  if p then .ok () else .error e

theorem assertThat_yields {p : Prop} [Decidable p] {e : ε} (h : ¬ p → E e) :
    Yields E (fun _ => p) (assertThat p e) := by
  unfold assertThat
  split
  · assumption
  · next hNot => exact h hNot

theorem assertThat_of {p : Prop} [Decidable p] (e : ε) (h : p) : assertThat p e = .ok () :=
  if_pos h

/-- Every fault that the computation can stop at satisfies `E`. -/
def StopsOnly (E : ε → Prop) (x : Except ε α) : Prop := ∀ e, x = .error e → E e

theorem stopsOnly_ok (a : α) : StopsOnly E (.ok a : Except ε α) := by
  rintro e ⟨⟩

theorem stopsOnly_error {e : ε} (h : E e) : StopsOnly E (.error e : Except ε α) := by
  rintro _ ⟨⟩
  exact h

theorem stopsOnly_assertThat {p : Prop} [Decidable p] {e : ε} (h : E e) :
    StopsOnly E (assertThat p e) := by
  unfold assertThat
  split
  · exact stopsOnly_ok ()
  · exact stopsOnly_error h

theorem StopsOnly.mono {E' : ε → Prop} {x : Except ε α} (hx : StopsOnly E x) (h : ∀ e, E e → E' e) :
    StopsOnly E' x := fun e he => h e (hx e he)

theorem StopsOnly.bind {x : Except ε α} {f : α → Except ε β} (hx : StopsOnly E x)
    (hf : ∀ a, StopsOnly E (f a)) : StopsOnly E (x >>= f) := by
  cases x with
  | ok a => exact hf a
  | error e => exact stopsOnly_error (hx e rfl)

theorem stopsOnly_bind_iff {x : Except ε α} {f : α → Except ε β} :
    StopsOnly E (x >>= f) ↔ StopsOnly E x ∧ ∀ a, x = .ok a → StopsOnly E (f a) := by
  cases x with
  | ok a =>
    constructor
    · intro h
      refine ⟨stopsOnly_ok a, ?_⟩
      rintro _ ⟨⟩
      exact h
    · intro h
      exact h.2 a rfl
  | error e =>
    constructor
    · intro h
      exact ⟨fun e' he => h e' (by cases he; rfl), by rintro a ⟨⟩⟩
    · rintro h _ ⟨⟩
      exact h.1 e rfl

theorem stopsOnly_map_iff {x : Except ε α} {f : α → β} : StopsOnly E (x.map f) ↔ StopsOnly E x := by
  cases x with
  | ok a => exact iff_of_true (stopsOnly_ok _) (stopsOnly_ok _)
  | error e =>
    constructor
    · rintro h _ ⟨⟩
      exact h e rfl
    · rintro h _ ⟨⟩
      exact h e rfl

theorem stopsOnly_assertThat_iff {p : Prop} [Decidable p] {e : ε} (he : ¬ E e) :
    StopsOnly E (assertThat p e) ↔ p := by
  unfold assertThat
  split
  · next hp => exact iff_of_true (stopsOnly_ok ()) hp
  · next hp => exact iff_of_false (fun h => he (h e rfl)) hp

theorem StopsOnly.map {x : Except ε α} (hx : StopsOnly E x) (f : α → β) :
    StopsOnly E (x.map f) := by
  cases x with
  | ok a => exact stopsOnly_ok (f a)
  | error e => exact stopsOnly_error (hx e rfl)

theorem StopsOnly.ite {p : Prop} [Decidable p] {x y : Except ε α} (hx : StopsOnly E x)
    (hy : StopsOnly E y) : StopsOnly E (if p then x else y) := by
  split
  · exact hx
  · exact hy

theorem StopsOnly.yields {x : Except ε α} (hx : StopsOnly E x) : Yields E (fun _ => True) x := by
  cases x with
  | ok a => trivial
  | error e => exact hx e rfl

def Returns (x : Except ε α) : Prop := ∃ a, x = .ok a

@[simp] theorem returns_ok (a : α) : Returns (.ok a : Except ε α) := ⟨a, rfl⟩

@[simp] theorem not_returns_error (e : ε) : ¬ Returns (.error e : Except ε α) := by
  rintro ⟨a, ⟨⟩⟩

theorem returns_bind_iff {x : Except ε α} {f : α → Except ε β} :
    Returns (x >>= f) ↔ ∃ a, x = .ok a ∧ Returns (f a) := by
  cases x with
  | ok a => simp
  | error e => simp

@[simp] theorem returns_map_iff {x : Except ε α} {f : α → β} : Returns (x.map f) ↔ Returns x := by
  cases x with
  | ok a => simp [Except.map]
  | error e => simp [Except.map]

@[simp] theorem returns_assertThat_bind_iff {p : Prop} [Decidable p] {e : ε}
    {f : Unit → Except ε β} : Returns (assertThat p e >>= f) ↔ p ∧ Returns (f ()) := by
  by_cases h : p <;> simp [assertThat, h]

/-- The inputs one after another, until a step stops at a fault. -/
def run (step : σ → ι → Except ε σ) : σ → List ι → Except ε σ
  | s, [] => .ok s
  | s, i :: is => step s i >>= fun s' => run step s' is

/-- `P` holds of every input in the state in which the run meets it. -/
def Along (step : σ → ι → Except ε σ) (P : σ → ι → Prop) : σ → List ι → Prop
  | _, [] => True
  | s, i :: is => P s i ∧ ∀ s', step s i = .ok s' → Along step P s' is

section Run

variable {step : σ → ι → Except ε σ} {P : σ → ι → Prop} {Inv : σ → Prop}

theorem run_cons_eq_ok_iff {s s' : σ} {i : ι} {is : List ι} :
    run step s (i :: is) = .ok s' ↔ ∃ t, step s i = .ok t ∧ run step t is = .ok s' :=
  bind_eq_ok_iff

theorem run_append_eq_ok_iff {s s' : σ} {is js : List ι} :
    run step s (is ++ js) = .ok s' ↔ ∃ t, run step s is = .ok t ∧ run step t js = .ok s' := by
  induction is generalizing s with
  | nil => simp [run]
  | cons i is ih =>
    simp only [List.cons_append, run_cons_eq_ok_iff, ih]
    constructor
    · rintro ⟨t, ht, u, hu, hs⟩
      exact ⟨u, ⟨t, ht, hu⟩, hs⟩
    · rintro ⟨u, ⟨t, ht, hu⟩, hs⟩
      exact ⟨t, ht, u, hu, hs⟩

theorem run_append_singleton_eq_ok_iff {s s' : σ} {is : List ι} {i : ι} :
    run step s (is ++ [i]) = .ok s' ↔ ∃ t, run step s is = .ok t ∧ step t i = .ok s' := by
  rw [run_append_eq_ok_iff]
  simp [run, bind_eq_ok_iff]

/-- A run that stops at a fault stops at one of its steps, and the steps before that return. -/
theorem run_eq_error_iff {s : σ} {is : List ι} {e : ε} :
    run step s is = .error e ↔ ∃ pre i post t,
      is = pre ++ i :: post ∧ run step s pre = .ok t ∧ step t i = .error e := by
  induction is generalizing s with
  | nil =>
    constructor
    · rintro ⟨⟩
    · rintro ⟨pre, i, post, t, hNil, -⟩
      exact absurd hNil (by simp)
  | cons i is ih =>
    constructor
    · intro h
      cases hStep : step s i with
      | error e' =>
        rw [run, hStep, error_bind] at h
        exact ⟨[], i, is, s, rfl, rfl, hStep.trans h⟩
      | ok t =>
        rw [run, hStep, ok_bind] at h
        obtain ⟨pre, j, post, u, rfl, hRun, hFail⟩ := ih.mp h
        exact ⟨i :: pre, j, post, u, rfl, run_cons_eq_ok_iff.mpr ⟨t, hStep, hRun⟩, hFail⟩
    · rintro ⟨pre, j, post, u, hSplit, hRun, hFail⟩
      cases pre with
      | nil =>
        obtain ⟨rfl, rfl⟩ := List.cons.inj hSplit
        cases hRun
        rw [run, hFail, error_bind]
      | cons i' pre =>
        obtain ⟨rfl, rfl⟩ := List.cons.inj hSplit
        obtain ⟨t, hStep, hRun⟩ := run_cons_eq_ok_iff.mp hRun
        rw [run, hStep, ok_bind]
        exact ih.mpr ⟨pre, j, post, u, rfl, hRun, hFail⟩

theorem run_yields (hStep : ∀ s i, Inv s → P s i → Yields E Inv (step s i)) {s : σ} {is : List ι}
    (hInv : Inv s) (hAlong : Along step P s is) : Yields E Inv (run step s is) := by
  induction is generalizing s with
  | nil => exact hInv
  | cons i is ih =>
    exact (hStep s i hInv hAlong.1).bind fun t ht hInv' => ih hInv' (hAlong.2 t ht)

theorem run_keeps (hStep : ∀ s i, Inv s → Yields E Inv (step s i)) {s : σ} (hInv : Inv s)
    (is : List ι) : Yields E Inv (run step s is) := by
  induction is generalizing s with
  | nil => exact hInv
  | cons i is ih => exact (hStep s i hInv).bind fun t _ hInv' => ih hInv'

theorem Along.imp {P' : σ → ι → Prop} (h : ∀ s i, P s i → P' s i) {s : σ} {is : List ι}
    (hAlong : Along step P s is) : Along step P' s is := by
  induction is generalizing s with
  | nil => trivial
  | cons i is ih => exact ⟨h s i hAlong.1, fun t ht => ih (hAlong.2 t ht)⟩

theorem Along.and {P' : σ → ι → Prop} {s : σ} {is : List ι} (h : Along step P s is)
    (h' : Along step P' s is) : Along step (fun s i => P s i ∧ P' s i) s is := by
  induction is generalizing s with
  | nil => trivial
  | cons i is ih => exact ⟨⟨h.1, h'.1⟩, fun t ht => ih (h.2 t ht) (h'.2 t ht)⟩

theorem along_of_forall {Q : ι → Prop} (s : σ) {is : List ι} (h : ∀ i ∈ is, Q i) :
    Along step (fun _ i => Q i) s is := by
  induction is generalizing s with
  | nil => trivial
  | cons i is ih =>
    exact ⟨h i List.mem_cons_self, fun t _ => ih t fun j hj => h j (List.mem_cons_of_mem i hj)⟩

theorem Along.and_forall {Q : ι → Prop} {s : σ} {is : List ι} (hAlong : Along step P s is)
    (hAll : ∀ i ∈ is, Q i) : Along step (fun s i => P s i ∧ Q i) s is := by
  induction is generalizing s with
  | nil => trivial
  | cons i is ih =>
    refine ⟨⟨hAlong.1, hAll i List.mem_cons_self⟩, fun t ht => ih (hAlong.2 t ht) ?_⟩
    exact fun j hj => hAll j (List.mem_cons_of_mem i hj)

theorem along_iff {s : σ} {is : List ι} : Along step P s is ↔
    ∀ pre i post t, is = pre ++ i :: post → run step s pre = .ok t → P t i := by
  induction is generalizing s with
  | nil => exact iff_of_true trivial fun pre i post t hSplit => absurd hSplit (by simp)
  | cons j is ih =>
    constructor
    · rintro ⟨hHead, hTail⟩ pre i post t hSplit hRun
      cases pre with
      | nil =>
        obtain ⟨rfl, -⟩ := List.cons.inj hSplit
        obtain rfl := Except.ok.inj hRun
        exact hHead
      | cons j' pre =>
        obtain ⟨rfl, rfl⟩ := List.cons.inj hSplit
        obtain ⟨u, hStep, hRun⟩ := run_cons_eq_ok_iff.mp hRun
        exact ih.mp (hTail u hStep) pre i post t rfl hRun
    · intro h
      refine ⟨h [] j is s rfl rfl, fun t hStep => ih.mpr ?_⟩
      rintro pre i post u rfl hRun
      exact h (j :: pre) i post u rfl (run_cons_eq_ok_iff.mpr ⟨t, hStep, hRun⟩)

theorem Along.append {s : σ} {is js : List ι} (hAlong : Along step P s (is ++ js)) :
    Along step P s is ∧ ∀ t, run step s is = .ok t → Along step P t js := by
  induction is generalizing s with
  | nil =>
    refine ⟨trivial, ?_⟩
    rintro t ⟨rfl⟩
    exact hAlong
  | cons i is ih =>
    refine ⟨⟨hAlong.1, fun t ht => (ih (hAlong.2 t ht)).1⟩, ?_⟩
    intro t ht
    obtain ⟨u, hu, hRun⟩ := run_cons_eq_ok_iff.mp ht
    exact (ih (hAlong.2 u hu)).2 t hRun

/-- `Q` holds in every state that the run comes to. -/
def Throughout (step : σ → ι → Except ε σ) (Q : σ → Prop) (s : σ) (is : List ι) : Prop :=
  ∀ pre post t, is = pre ++ post → run step s pre = .ok t → Q t

theorem throughout_cons_iff {Q : σ → Prop} {s : σ} {i : ι} {is : List ι} :
    Throughout step Q s (i :: is) ↔ Q s ∧ ∀ t, step s i = .ok t → Throughout step Q t is := by
  constructor
  · intro h
    refine ⟨h [] _ s rfl rfl, ?_⟩
    rintro t hStep pre post u rfl hRun
    exact h (i :: pre) post u rfl (run_cons_eq_ok_iff.mpr ⟨t, hStep, hRun⟩)
  · rintro ⟨hHead, hTail⟩ pre post u hSplit hRun
    cases pre with
    | nil =>
      obtain rfl := Except.ok.inj hRun
      exact hHead
    | cons j pre =>
      obtain ⟨rfl, rfl⟩ := List.cons.inj hSplit
      obtain ⟨t, hStep, hRun⟩ := run_cons_eq_ok_iff.mp hRun
      exact hTail t hStep pre post u rfl hRun

theorem throughout_congr {Q Q' : σ → Prop} (h : ∀ s, Q s ↔ Q' s) {s : σ} {is : List ι} :
    Throughout step Q s is ↔ Throughout step Q' s is :=
  ⟨fun hAll pre post t hSplit hRun => (h t).mp (hAll pre post t hSplit hRun),
    fun hAll pre post t hSplit hRun => (h t).mpr (hAll pre post t hSplit hRun)⟩

/-- An invariant that a step keeps if `P` holds and breaks if it does not. -/
theorem throughout_iff_along {Q : σ → Prop} (hInv : ∀ s, Inv s → Q s)
    (hKeep : ∀ s i t, Inv s → P s i → step s i = .ok t → Inv t)
    (hBreak : ∀ s i, Inv s → ¬ P s i → ∃ t, step s i = .ok t ∧ ¬ Q t) {s : σ} (hs : Inv s)
    (is : List ι) : Throughout step Q s is ↔ Along step P s is := by
  induction is generalizing s with
  | nil =>
    refine ⟨fun _ => trivial, fun _ => ?_⟩
    rintro pre post t hNil hRun
    obtain ⟨rfl, rfl⟩ := List.append_eq_nil_iff.mp hNil.symm
    obtain rfl := Except.ok.inj hRun
    exact hInv s hs
  | cons i is ih =>
    rw [throughout_cons_iff]
    constructor
    · rintro ⟨-, hTail⟩
      have hi : P s i := by
        by_contra hNot
        obtain ⟨t, hStep, hBad⟩ := hBreak s i hs hNot
        exact hBad (hTail t hStep [] is t rfl rfl)
      exact ⟨hi, fun t hStep => (ih (hKeep s i t hs hi hStep)).mp (hTail t hStep)⟩
    · rintro ⟨hi, hTail⟩
      exact ⟨hInv s hs, fun t hStep => (ih (hKeep s i t hs hi hStep)).mpr (hTail t hStep)⟩

end Run

/-- `while ((s = step(s)) != NULL);` with at most `fuel` rounds, or the fault `e`. -/
def whileSome (e : ε) (step : σ → Except ε (Option σ)) : Nat → σ → Except ε σ
  | 0, _ => .error e
  | fuel + 1, s => step s >>= fun next =>
    match next with
    | none => .ok s
    | some s' => whileSome e step fuel s'

section While

variable {e : ε} {step : σ → Except ε (Option σ)} {Inv : σ → Prop}

/-- What a round keeps holds when the loop ends, and there the loop ends. -/
theorem whileSome_yields (hFuel : E e)
    (hStep : ∀ s, Inv s → Yields E (fun next => ∀ s', next = some s' → Inv s') (step s))
    (fuel : Nat) {s : σ} (hInv : Inv s) :
    Yields E (fun s' => Inv s' ∧ step s' = .ok none) (whileSome e step fuel s) := by
  induction fuel generalizing s with
  | zero => exact hFuel
  | succ fuel ih =>
    refine (hStep s hInv).bind fun next hNext hKeep => ?_
    cases next with
    | none => exact ⟨hInv, hNext⟩
    | some s' => exact ih (hKeep s' rfl)

def rounds (step : σ → Except ε (Option σ)) : Nat → σ → Option σ
  | 0, s => some s
  | n + 1, s =>
    match step s with
    | .ok (some s') => rounds step n s'
    | .ok none | .error _ => none

theorem rounds_succ {s s' : σ} (hStep : step s = .ok (some s')) (n : Nat) :
    rounds step (n + 1) s = rounds step n s' := by
  rw [rounds, hStep]

/-- Within `fuel` rounds the loop comes to a state with `P`. -/
def Meets (step : σ → Except ε (Option σ)) (P : σ → Prop) (fuel : Nat) (s : σ) : Prop :=
  ∃ n < fuel, ∃ t ∈ rounds step n s, P t

instance {P : σ → Prop} [DecidablePred P] (fuel : Nat) (s : σ) : Decidable (Meets step P fuel s) :=
  inferInstanceAs (Decidable (∃ n < fuel, ∃ t ∈ rounds step n s, P t))

theorem meets_of_some {P : σ → Prop} {s s' : σ} (hStep : step s = .ok (some s')) (fuel : Nat) :
    Meets step P (fuel + 1) s ↔ P s ∨ Meets step P fuel s' := by
  constructor
  · rintro ⟨n, hn, t, ht, hP⟩
    cases n with
    | zero =>
      obtain rfl := Option.some.inj ht
      exact .inl hP
    | succ n =>
      rw [Option.mem_def, rounds_succ hStep] at ht
      exact .inr ⟨n, by omega, t, ht, hP⟩
  · rintro (hP | ⟨n, hn, t, ht, hP⟩)
    · exact ⟨0, by omega, s, rfl, hP⟩
    · exact ⟨n + 1, by omega, t, (rounds_succ hStep n).trans ht, hP⟩

theorem meets_of_none {P : σ → Prop} {s : σ} (hStep : step s = .ok none) (fuel : Nat) :
    Meets step P (fuel + 1) s ↔ P s := by
  constructor
  · rintro ⟨n, -, t, ht, hP⟩
    cases n with
    | zero =>
      obtain rfl := Option.some.inj ht
      exact hP
    | succ n =>
      rw [Option.mem_def, rounds, hStep] at ht
      cases ht
  · exact fun hP => ⟨0, by omega, s, rfl, hP⟩

/-- If a round sets a mark exactly in the states with `P`, and the loop ends in none of these, then
the loop sets it exactly if it comes to such a state. -/
theorem whileSome_marks {P M : σ → Prop} (hFuel : E e)
    (hRound : ∀ s, Inv s → Yields E
      (fun next => (∀ t, next = some t → Inv t ∧ (M t ↔ M s ∨ P s)) ∧ (next = none → ¬ P s)) (step s))
    (fuel : Nat) {s : σ} (hInv : Inv s) :
    Yields E (fun t => Inv t ∧ (M t ↔ M s ∨ Meets step P fuel s)) (whileSome e step fuel s) := by
  induction fuel generalizing s with
  | zero => exact hFuel
  | succ fuel ih =>
    refine (hRound s hInv).bind fun next hNext hKeep => ?_
    cases next with
    | none =>
      refine ⟨hInv, ?_⟩
      rw [meets_of_none hNext, or_iff_left (hKeep.2 rfl)]
    | some s' =>
      obtain ⟨hInv', hMark⟩ := hKeep.1 s' rfl
      refine (ih hInv').imp fun t _ ht => ⟨ht.1, ?_⟩
      rw [ht.2, hMark, meets_of_some hNext, or_assoc]

/-- A loop stops at a fault of its body exactly if it comes to a state in which the body does. -/
theorem whileSome_stops_iff {e' : ε} (hBody : e' ≠ e) {s : σ} :
    (∃ fuel, whileSome e step fuel s = .error e') ↔
      ∃ n t, rounds step n s = some t ∧ step t = .error e' := by
  constructor
  · rintro ⟨fuel, hStop⟩
    induction fuel generalizing s with
    | zero => exact absurd (Except.error.inj hStop).symm hBody
    | succ fuel ih =>
      rw [whileSome] at hStop
      cases hStep : step s with
      | error e'' =>
        rw [hStep, error_bind] at hStop
        exact ⟨0, s, rfl, hStep.trans (by rw [Except.error.inj hStop])⟩
      | ok next =>
        rw [hStep, ok_bind] at hStop
        cases next with
        | none => cases hStop
        | some s' =>
          obtain ⟨n, t, hRounds, hFault⟩ := ih hStop
          exact ⟨n + 1, t, (rounds_succ hStep n).trans hRounds, hFault⟩
  · rintro ⟨n, t, hRounds, hFault⟩
    induction n generalizing s with
    | zero =>
      obtain rfl := Option.some.inj hRounds
      exact ⟨1, by rw [whileSome, hFault, error_bind]⟩
    | succ n ih =>
      rw [rounds] at hRounds
      cases hStep : step s with
      | error e'' => rw [hStep] at hRounds; cases hRounds
      | ok next =>
        rw [hStep] at hRounds
        cases next with
        | none => cases hRounds
        | some s' =>
          obtain ⟨fuel, hStop⟩ := ih hRounds
          exact ⟨fuel + 1, by rw [whileSome, hStep, ok_bind]; exact hStop⟩

/-- A loop whose rounds decrease a measure ends if it has as many rounds. -/
theorem whileSome_terminates {measure : σ → Nat}
    (hStep : ∀ s, Inv s → Yields E
      (fun next => ∀ s', next = some s' → Inv s' ∧ measure s' < measure s) (step s))
    (fuel : Nat) {s : σ} (hInv : Inv s) (hFuel : measure s < fuel) :
    Yields E (fun s' => Inv s' ∧ step s' = .ok none) (whileSome e step fuel s) := by
  induction fuel generalizing s with
  | zero => exact absurd hFuel (Nat.not_lt_zero _)
  | succ fuel ih =>
    refine (hStep s hInv).bind fun next hNext hKeep => ?_
    cases next with
    | none => exact ⟨hInv, hNext⟩
    | some s' =>
      obtain ⟨hInv', hLess⟩ := hKeep s' rfl
      exact ih hInv' (by omega)

end While

end DeviceModel.Fallible

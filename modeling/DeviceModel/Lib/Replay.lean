import Mathlib.Data.List.Basic

/-!
# Accesses to a store

A store holds a value in each of its cells, and an access reads or writes some cells in a row. A log of
accesses can be replayed on a store: what is written is stored, and what is read must be there. What a
log reads from a cell is then what it last wrote to it.
-/

set_option autoImplicit false

namespace DeviceModel.Replay

universe u

variable {n : Nat} {V : Type u}

/-- What a run of cells held or is given. -/
inductive Access (V : Type u)
  | read (off : Nat) (vs : List V)
  | write (off : Nat) (vs : List V)

def overwrite (st : Fin n → V) (off : Nat) (vs : List V) : Fin n → V := fun k =>
  if off ≤ k then (vs[k - off]?).getD (st k) else st k

def Holds (st : Fin n → V) (off : Nat) (vs : List V) : Prop :=
  ∀ (i : Nat) (hi : i < vs.length), ∃ hk : off + i < n, st ⟨off + i, hk⟩ = vs[i]

def Replays : (Fin n → V) → List (Access V) → (Fin n → V) → Prop
  | st, [], st' => st' = st
  | st, .read off vs :: as, st' => Holds st off vs ∧ Replays st as st'
  | st, .write off vs :: as, st' => off + vs.length ≤ n ∧ Replays (overwrite st off vs) as st'

def Access.Writes (a : Access V) (k : Nat) : Prop :=
  match a with
  | .read _ _ => False
  | .write off vs => off ≤ k ∧ k < off + vs.length

variable {st st' : Fin n → V} {off : Nat} {vs : List V} {as bs : List (Access V)}

theorem overwrite_elsewhere {k : Fin n} (hElse : ¬ (off ≤ k ∧ (k : Nat) < off + vs.length)) :
    overwrite st off vs k = st k := by
  unfold overwrite
  split
  · next hFrom =>
    rw [List.getElem?_eq_none (by omega)]
    rfl
  · rfl

theorem holds_overwrite (hFits : off + vs.length ≤ n) : Holds (overwrite st off vs) off vs := by
  intro i hi
  refine ⟨by omega, ?_⟩
  unfold overwrite
  dsimp only
  rw [if_pos (Nat.le_add_right off i), Nat.add_sub_cancel_left, List.getElem?_eq_getElem hi]
  rfl

theorem eq_overwrite (hHolds : Holds st' off vs)
    (hElse : ∀ k : Fin n, ¬ (off ≤ k ∧ (k : Nat) < off + vs.length) → st' k = st k) :
    st' = overwrite st off vs := by
  funext k
  by_cases hIn : off ≤ k ∧ (k : Nat) < off + vs.length
  · obtain ⟨hk, hStored⟩ := hHolds (k - off) (by omega)
    have hCell : (⟨off + (k - off), hk⟩ : Fin n) = k := Fin.ext (Nat.add_sub_cancel' hIn.1)
    rw [hCell] at hStored
    rw [hStored, overwrite, if_pos hIn.1, List.getElem?_eq_getElem]
    rfl
  · rw [hElse k hIn, overwrite_elsewhere hIn]

theorem replays_append :
    Replays st (as ++ bs) st' ↔ ∃ mid, Replays st as mid ∧ Replays mid bs st' := by
  induction as generalizing st with
  | nil =>
    constructor
    · exact fun h => ⟨st, rfl, h⟩
    · rintro ⟨mid, rfl, h⟩
      exact h
  | cons a as ih =>
    cases a with
    | read off vs =>
      rw [List.cons_append, Replays, ih]
      constructor
      · rintro ⟨hHolds, mid, hFirst, hRest⟩
        exact ⟨mid, ⟨hHolds, hFirst⟩, hRest⟩
      · rintro ⟨mid, ⟨hHolds, hFirst⟩, hRest⟩
        exact ⟨hHolds, mid, hFirst, hRest⟩
    | write off vs =>
      rw [List.cons_append, Replays, ih]
      constructor
      · rintro ⟨hFits, mid, hFirst, hRest⟩
        exact ⟨mid, ⟨hFits, hFirst⟩, hRest⟩
      · rintro ⟨mid, ⟨hFits, hFirst⟩, hRest⟩
        exact ⟨hFits, mid, hFirst, hRest⟩

theorem Replays.kept (h : Replays st as st') {k : Fin n} (hElse : ∀ a ∈ as, ¬ a.Writes k) :
    st' k = st k := by
  induction as generalizing st with
  | nil => rw [show st' = st from h]
  | cons a as ih =>
    have hRest : ∀ a ∈ as, ¬ a.Writes k := fun b hb => hElse b (List.mem_cons_of_mem a hb)
    cases a with
    | read off vs => exact ih h.2 hRest
    | write off vs => rw [ih h.2 hRest, overwrite_elsewhere (hElse _ List.mem_cons_self)]

/-- What is read from a cell is what was last written to it. -/
theorem Replays.readsBack {pre mid post : List (Access V)} {off off' : Nat} {vs vs' : List V}
    (h : Replays st (pre ++ .write off vs :: (mid ++ .read off' vs' :: post)) st') {i j : Nat}
    (hi : i < vs.length) (hj : j < vs'.length) (hCell : off + i = off' + j)
    (hElse : ∀ a ∈ mid, ¬ a.Writes (off + i)) : vs'[j] = vs[i] := by
  obtain ⟨before, -, hFits, hWritten⟩ := replays_append.mp h
  obtain ⟨after, hMid, hRead, -⟩ := replays_append.mp hWritten
  have hHolds : Holds (overwrite before off vs) off vs := holds_overwrite hFits
  obtain ⟨hk, hStored⟩ := hHolds i hi
  obtain ⟨hk', hFound⟩ := hRead j hj
  have hKept := hMid.kept (k := ⟨off + i, hk⟩) hElse
  rw [hStored] at hKept
  rw [← hFound, ← hKept]
  congr 1
  exact Fin.ext hCell.symm

end DeviceModel.Replay

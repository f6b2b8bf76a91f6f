import Mathlib.Data.List.Nodup
import Mathlib.Data.Set.Basic

/-!
# Moves between addresses

A transfer moves what is at some addresses to others. It may be done in parts, with other changes
to memory between them: as long as these spare what the transfer reads and writes, and no part
writes what another one reads or writes, everything arrives as it was when the transfer began.
-/

set_option autoImplicit false

namespace DeviceModel.Moves

universe u v

variable {A : Type u} {B : Type v}

/-- After some moves, each from its second address to its first one. -/
structure Moved (ps : List (A × A)) (m m' : A → B) : Prop where
  arrived : ∀ p ∈ ps, m' p.1 = m p.2
  kept : ∀ a, a ∉ ps.map Prod.fst → m' a = m a

structure Apart (ps : List (A × A)) : Prop where
  nodup : (ps.map Prod.fst).Nodup
  disjoint : ∀ p ∈ ps, ∀ q ∈ ps, p.1 ≠ q.2

variable {ps qs : List (A × A)} {m m' m'' : A → B} {F : Set A}

theorem Apart.left (h : Apart (ps ++ qs)) : Apart ps where
  nodup := by
    have hNodup := h.nodup
    rw [List.map_append] at hNodup
    exact hNodup.of_append_left
  disjoint p hp q hq := h.disjoint p (List.mem_append_left qs hp) q (List.mem_append_left qs hq)

theorem Apart.right (h : Apart (ps ++ qs)) : Apart qs where
  nodup := by
    have hNodup := h.nodup
    rw [List.map_append] at hNodup
    exact hNodup.of_append_right
  disjoint p hp q hq := h.disjoint p (List.mem_append_right ps hp) q (List.mem_append_right ps hq)

theorem Apart.notMem_right (h : Apart (ps ++ qs)) {p : A × A} (hp : p ∈ ps) : p.1 ∉ qs.map Prod.fst := by
  have hNodup := h.nodup
  rw [List.map_append] at hNodup
  exact fun hq => (List.nodup_append.mp hNodup).2.2 p.1 (List.mem_map_of_mem hp) p.1 hq rfl

theorem Apart.notMem_left (h : Apart (ps ++ qs)) {q : A × A} (hq : q ∈ qs) : q.2 ∉ ps.map Prod.fst := by
  intro hMem
  obtain ⟨p, hp, hEq⟩ := List.mem_map.mp hMem
  exact h.disjoint p (List.mem_append_left qs hp) q (List.mem_append_right ps hq) hEq

theorem moved_nil (m : A → B) : Moved [] m m := ⟨fun _ hp => absurd hp List.not_mem_nil, fun _ _ => rfl⟩

theorem Moved.append (hApart : Apart (ps ++ qs)) (h : Moved ps m m') (h' : Moved qs m' m'') :
    Moved (ps ++ qs) m m'' := by
  constructor
  · intro p hp
    obtain hp | hp := List.mem_append.mp hp
    · rw [h'.kept _ (hApart.notMem_right hp), h.arrived p hp]
    · rw [h'.arrived p hp, h.kept _ (hApart.notMem_left hp)]
  · intro a ha
    rw [List.map_append, List.mem_append, not_or] at ha
    rw [h'.kept a ha.2, h.kept a ha.1]

/-- Parts of a transfer, with changes between them that spare `F`. -/
inductive Interleaved (F : Set A) : List (List (A × A)) → (A → B) → (A → B) → Prop
  | done (m : A → B) : Interleaved F [] m m
  | part {ps : List (A × A)} {parts : List (List (A × A))} {m m' m'' : A → B} (h : Moved ps m m')
      (hRest : Interleaved F parts m' m'') : Interleaved F (ps :: parts) m m''
  | other {parts : List (List (A × A))} {m m' m'' : A → B} (hSpares : ∀ a ∈ F, m' a = m a)
      (hRest : Interleaved F parts m' m'') : Interleaved F parts m m''

variable {parts : List (List (A × A))}

theorem Interleaved.kept (h : Interleaved F parts m m') {a : A} (ha : a ∈ F)
    (hElse : a ∉ parts.flatten.map Prod.fst) : m' a = m a := by
  induction h with
  | done m => rfl
  | part h hRest ih =>
    rw [List.flatten_cons, List.map_append, List.mem_append, not_or] at hElse
    rw [ih hElse.2, h.kept a hElse.1]
  | other hSpares hRest ih => rw [ih hElse, hSpares a ha]

theorem Interleaved.arrived (h : Interleaved F parts m m') (hApart : Apart parts.flatten)
    (hSpared : ∀ p ∈ parts.flatten, p.1 ∈ F ∧ p.2 ∈ F) : ∀ p ∈ parts.flatten, m' p.1 = m p.2 := by
  induction h with
  | done m => exact fun p hp => absurd hp List.not_mem_nil
  | @part ps parts m m' m'' h hRest ih =>
    rw [List.flatten_cons] at hApart hSpared ⊢
    intro p hp
    have hFoot := hSpared p hp
    obtain hp | hp := List.mem_append.mp hp
    · rw [hRest.kept hFoot.1 (hApart.notMem_right hp), h.arrived p hp]
    · rw [ih hApart.right (fun q hq => hSpared q (List.mem_append_right ps hq)) p hp,
        h.kept _ (hApart.notMem_left hp)]
  | other hSpares hRest ih =>
    intro p hp
    rw [ih hApart hSpared p hp, hSpares _ (hSpared p hp).2]

theorem map_arrived {as bs : List A} (hLength : as.length = bs.length)
    (hArrived : ∀ p ∈ as.zip bs, m' p.1 = m p.2) : as.map m' = bs.map m := by
  induction as generalizing bs with
  | nil =>
    obtain rfl := List.length_eq_zero_iff.mp hLength.symm
    rfl
  | cons a as ih =>
    cases bs with
    | nil => cases hLength
    | cons b bs =>
      rw [List.zip_cons_cons] at hArrived
      have hFirst : m' a = m b := hArrived (a, b) List.mem_cons_self
      have hRest := ih (Nat.succ.inj hLength) fun p hp => hArrived p (List.mem_cons_of_mem _ hp)
      rw [List.map_cons, List.map_cons, hFirst, hRest]

end DeviceModel.Moves

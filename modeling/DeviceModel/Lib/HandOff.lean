import Mathlib.Data.List.Basic
import Mathlib.Logic.Function.Basic

/-!
# Handing buffers over in a linked chain

A producer hands a descriptor over by marking it owned, and an engine that walks
the chain gives it back once a transaction on it has succeeded. `Chain` relates
the position of the engine and the contents of the descriptors before and after
a history of hand-overs and transactions; whatever else an implementation does,
its histories being chains is what makes every hand-over count exactly once.
-/

set_option autoImplicit false

namespace DeviceModel.HandOff

universe u v w

/-- Descriptors of type `D` at addresses of type `P`, with results of type `R`. -/
structure Protocol (P : Type u) (D : Type v) (R : Type w) where
  owned : D → Prop
  next : D → P
  complete : D → R → D
  not_owned_complete : ∀ d r, ¬ owned (complete d r)

/-- A transaction is recorded with the contents the engine found in the descriptor. -/
inductive Item (P : Type u) (D : Type v) (R : Type w) where
  | enabled (p : P)
  | handed (p : P) (d : D)
  | success (p : P) (d : D) (r : R)
  | failure (p : P) (d : D) (r : R)

variable {P : Type u} {D : Type v} {R : Type w} [DecidableEq P]

/-- `Chain E c m is c' m'`: the history `is` leads from position `c` and contents `m` to `c'` and
`m'`. -/
inductive Chain (E : Protocol P D R) :
    Option P → (P → D) → List (Item P D R) → Option P → (P → D) → Prop
  | nil (c : Option P) (m : P → D) : Chain E c m [] c m
  | enabled {c c' : Option P} {m m' : P → D} {is : List (Item P D R)} (p : P) :
      Chain E (some p) m is c' m' → Chain E c m (.enabled p :: is) c' m'
  | handed {c c' : Option P} {m m' : P → D} {is : List (Item P D R)} (p : P) (d : D) :
      ¬ E.owned (m p) → E.owned d → Chain E c (Function.update m p d) is c' m' →
        Chain E c m (.handed p d :: is) c' m'
  | success {c' : Option P} {m m' : P → D} {is : List (Item P D R)} (p : P) (r : R) :
      E.owned (m p) →
        Chain E (some (E.next (m p))) (Function.update m p (E.complete (m p) r)) is c' m' →
          Chain E (some p) m (.success p (m p) r :: is) c' m'
  | failure {c' : Option P} {m m' : P → D} {is : List (Item P D R)} (p : P) (r : R) :
      E.owned (m p) → Chain E (some p) m is c' m' →
        Chain E (some p) m (.failure p (m p) r :: is) c' m'

namespace Item

def position (E : Protocol P D R) (c : Option P) : Item P D R → Option P
  | enabled p => some p
  | success _ d _ => some (E.next d)
  | handed _ _ | failure _ _ _ => c

def on : Item P D R → Option P
  | success p _ _ | failure p _ _ => some p
  | enabled _ | handed _ _ => none

def isHanded (p : P) : Item P D R → Bool
  | handed q _ => q = p
  | _ => false

def isSuccess (p : P) : Item P D R → Bool
  | success q _ _ => q = p
  | _ => false

end Item

variable {E : Protocol P D R} {c c' c'' : Option P} {m m' m'' : P → D}
variable {is js : List (Item P D R)}

theorem Chain.append (h : Chain E c m is c' m') (h' : Chain E c' m' js c'' m'') :
    Chain E c m (is ++ js) c'' m'' := by
  induction h with
  | nil => exact h'
  | enabled p _ ih => exact .enabled p (ih h')
  | handed p d hFree hOwned _ ih => exact .handed p d hFree hOwned (ih h')
  | success p r hOwned _ ih => exact .success p r hOwned (ih h')
  | failure p r hOwned _ ih => exact .failure p r hOwned (ih h')

theorem Chain.position_eq (h : Chain E c m is c' m') : is.foldl (Item.position E) c = c' := by
  induction h with
  | nil => rfl
  | enabled p _ ih => exact ih
  | handed p d _ _ _ ih => exact ih
  | success p r _ _ ih => exact ih
  | failure p r _ _ ih => exact ih

theorem Chain.split (h : Chain E c m (is ++ js) c'' m'') :
    ∃ c' m', Chain E c m is c' m' ∧ Chain E c' m' js c'' m'' := by
  induction is generalizing c m with
  | nil => exact ⟨c, m, .nil c m, h⟩
  | cons i is ih =>
    cases h with
    | enabled p h =>
      obtain ⟨c', m', hBefore, hAfter⟩ := ih h
      exact ⟨c', m', .enabled p hBefore, hAfter⟩
    | handed p d hFree hOwned h =>
      obtain ⟨c', m', hBefore, hAfter⟩ := ih h
      exact ⟨c', m', .handed p d hFree hOwned hBefore, hAfter⟩
    | success p r hOwned h =>
      obtain ⟨c', m', hBefore, hAfter⟩ := ih h
      exact ⟨c', m', .success p r hOwned hBefore, hAfter⟩
    | failure p r hOwned h =>
      obtain ⟨c', m', hBefore, hAfter⟩ := ih h
      exact ⟨c', m', .failure p r hOwned hBefore, hAfter⟩

theorem Chain.in_order (h : Chain E c m is c' m') {pre post : List (Item P D R)} {i : Item P D R}
    {p : P} (hSplit : is = pre ++ i :: post) (hOn : i.on = some p) :
    pre.foldl (Item.position E) c = some p := by
  subst hSplit
  obtain ⟨c₁, m₁, hPre, hPost⟩ := h.split
  rw [hPre.position_eq]
  cases hPost with
  | enabled q _ | handed q d _ _ _ => cases hOn
  | success q r _ _ | failure q r _ _ => exact hOn

section Conservation

variable [DecidablePred E.owned]

def own (E : Protocol P D R) [DecidablePred E.owned] (m : P → D) (p : P) : Nat :=
  if E.owned (m p) then 1 else 0

/-- Hand-overs are neither lost nor served twice: what was handed over and has not been served is
still owned. -/
theorem Chain.conserved (h : Chain E c m is c' m') (p : P) :
    is.countP (Item.isSuccess p) + own E m' p = is.countP (Item.isHanded p) + own E m p := by
  induction h with
  | nil => rfl
  | enabled q _ ih => simpa [Item.isSuccess, Item.isHanded] using ih
  | failure q r _ _ ih => simpa [Item.isSuccess, Item.isHanded] using ih
  | @handed c c' m m' is q d hFree hOwned _ ih =>
    by_cases hq : q = p
    · subst hq
      simp [own, hFree, hOwned, Item.isSuccess, Item.isHanded] at ih ⊢
      omega
    · simpa [own, Item.isSuccess, Item.isHanded, hq, Function.update_of_ne (Ne.symm hq)] using ih
  | @success c' m m' is q r hOwned _ ih =>
    by_cases hq : q = p
    · subst hq
      simp [own, hOwned, E.not_owned_complete, Item.isSuccess, Item.isHanded] at ih ⊢
      omega
    · simpa [own, Item.isSuccess, Item.isHanded, hq, Function.update_of_ne (Ne.symm hq)] using ih

end Conservation

/-- What is neither handed over nor served keeps its contents. -/
theorem Chain.unchanged (h : Chain E c m is c' m') {p : P}
    (hHanded : ∀ i ∈ is, i.isHanded p = false) (hSuccess : ∀ i ∈ is, i.isSuccess p = false) :
    m' p = m p := by
  induction h with
  | nil => rfl
  | enabled q _ ih | failure q r _ _ ih =>
    exact ih (fun i hi => hHanded i (List.mem_cons_of_mem _ hi))
      fun i hi => hSuccess i (List.mem_cons_of_mem _ hi)
  | handed q d _ _ _ ih =>
    have hq : p ≠ q := by
      rintro rfl
      simpa [Item.isHanded] using hHanded _ List.mem_cons_self
    rw [ih (fun i hi => hHanded i (List.mem_cons_of_mem _ hi))
      fun i hi => hSuccess i (List.mem_cons_of_mem _ hi), Function.update_of_ne hq]
  | success q r _ _ ih =>
    have hq : p ≠ q := by
      rintro rfl
      simpa [Item.isSuccess] using hSuccess _ List.mem_cons_self
    rw [ih (fun i hi => hHanded i (List.mem_cons_of_mem _ hi))
      fun i hi => hSuccess i (List.mem_cons_of_mem _ hi), Function.update_of_ne hq]

/-- A descriptor stays owned until it is served, so that it is not handed over again. -/
theorem Chain.not_handed (h : Chain E c m is c' m') {p : P} (hOwned : E.owned (m p))
    (hSuccess : ∀ i ∈ is, i.isSuccess p = false) : ∀ i ∈ is, i.isHanded p = false := by
  induction h with
  | nil => exact fun i hi => absurd hi List.not_mem_nil
  | enabled q _ ih | failure q r _ _ ih =>
    refine List.forall_mem_cons.mpr ⟨rfl, ih hOwned fun i hi => ?_⟩
    exact hSuccess i (List.mem_cons_of_mem _ hi)
  | handed q d hFree _ _ ih =>
    have hq : p ≠ q := by
      rintro rfl
      exact hFree hOwned
    refine List.forall_mem_cons.mpr ⟨by simp [Item.isHanded, hq.symm], ih ?_ fun i hi => ?_⟩
    · rwa [Function.update_of_ne hq]
    · exact hSuccess i (List.mem_cons_of_mem _ hi)
  | success q r _ _ ih =>
    have hq : p ≠ q := by
      rintro rfl
      simpa [Item.isSuccess] using hSuccess _ List.mem_cons_self
    refine List.forall_mem_cons.mpr ⟨rfl, ih ?_ fun i hi => ?_⟩
    · rwa [Function.update_of_ne hq]
    · exact hSuccess i (List.mem_cons_of_mem _ hi)

/-- The transactions on a descriptor that was handed over find it as it was handed over, up to
the one that succeeds. -/
theorem Chain.as_handed (h : Chain E c m is c' m') {pre mid post : List (Item P D R)} {p : P}
    {d : D} {i : Item P D R} (hSplit : is = pre ++ .handed p d :: (mid ++ i :: post))
    (hSuccess : ∀ j ∈ mid, j.isSuccess p = false) {d' : D} {r : R}
    (hItem : i = .success p d' r ∨ i = .failure p d' r) : d' = d := by
  subst hSplit
  obtain ⟨c₁, m₁, -, h₁⟩ := h.split
  cases h₁ with
  | handed _ _ hFree hOwned h₂ =>
    obtain ⟨c₂, m₂, hMid, h₃⟩ := h₂.split
    have hOwned' : E.owned (Function.update m₁ p d p) := by rwa [Function.update_self]
    have hSame := hMid.unchanged (hMid.not_handed hOwned' hSuccess) hSuccess
    rw [Function.update_self] at hSame
    rcases hItem with rfl | rfl <;> cases h₃ <;> exact hSame

end DeviceModel.HandOff

import Mathlib.Data.BitVec
import Mathlib.Data.List.Nodup
import Mathlib.Data.Nat.Cast.Defs
import Mathlib.Order.Basic

/-!
# Scatter lists

A scatter list names memory by segments. A transfer goes through it in order, and may
take a bounded number of segments at a time: it skips what was taken before, cuts the
first and the last segment it takes, and may give bytes at the end back. Or values are
stored at the addresses it names.
-/

set_option autoImplicit false

namespace DeviceModel.ScatterGather

structure Segment (A : Type) where
  base : A
  len : Nat
deriving DecidableEq

def total {A : Type} (gs : List (Segment A)) : Nat := (gs.map Segment.len).sum

section Total

variable {A : Type} (g : Segment A) (gs hs : List (Segment A))

@[simp] theorem total_nil : total ([] : List (Segment A)) = 0 := rfl

@[simp] theorem total_cons : total (g :: gs) = g.len + total gs := rfl

@[simp] theorem total_append : total (gs ++ hs) = total gs + total hs := by
  simp [total]

@[simp] theorem total_reverse : total gs.reverse = total gs := by
  rw [total, List.map_reverse, List.sum_reverse]
  rfl

end Total

variable {A : Type} [AddMonoidWithOne A]

namespace Segment

def addresses (g : Segment A) : List A := (List.range g.len).map fun i : Nat => g.base + (i : A)

@[simp] theorem length_addresses (g : Segment A) : g.addresses.length = g.len := by
  simp [addresses]

def cut (g : Segment A) (skip len : Nat) : Segment A := ⟨g.base + (skip : A), len⟩

@[simp] theorem len_cut (g : Segment A) (skip len : Nat) : (g.cut skip len).len = len := rfl

theorem addresses_cut (g : Segment A) {skip len : Nat} (hFits : skip + len ≤ g.len) :
    (g.cut skip len).addresses = (g.addresses.drop skip).take len := by
  apply List.ext_getElem
  · simp only [length_addresses, List.length_take, List.length_drop, cut]
    omega
  · intro i _ _
    simp [addresses, cut, add_assoc]

end Segment

def scatter (gs : List (Segment A)) : List A := gs.flatMap Segment.addresses

section Scatter

variable (g : Segment A) (gs hs : List (Segment A))

@[simp] theorem scatter_nil : scatter ([] : List (Segment A)) = [] := rfl

@[simp] theorem scatter_cons : scatter (g :: gs) = g.addresses ++ scatter gs := rfl

@[simp] theorem scatter_append : scatter (gs ++ hs) = scatter gs ++ scatter hs :=
  List.flatMap_append

@[simp] theorem length_scatter : (scatter gs).length = total gs := by
  induction gs with
  | nil => rfl
  | cons g gs ih => rw [scatter_cons, List.length_append, ih, Segment.length_addresses, total_cons]

end Scatter

section Gather

/-- At most `count` segments with at most `left` bytes, after `skip` bytes, and the segments that
are not looked at. -/
def gather : List (Segment A) → (count skip left : Nat) → List (Segment A) × List (Segment A)
  | [], _, _, _ => ([], [])
  | g :: gs, count, skip, left =>
    if 0 < count ∧ 0 < left then
      if g.len ≤ skip then gather gs count (skip - g.len) left
      else
        let len := min (g.len - skip) left
        let (taken, rest) := gather gs (count - 1) 0 (left - len)
        (g.cut skip len :: taken, rest)
    else ([], g :: gs)

variable {gs : List (Segment A)} {count skip left : Nat}

theorem gather_nothing (gs : List (Segment A)) (count skip : Nat) :
    (gather gs count skip 0).1 = [] := by
  cases gs with
  | nil => rfl
  | cons g gs => rw [gather, if_neg (by omega)]

theorem gather_skipped (gs : List (Segment A)) (hSkip : total gs ≤ skip) (hCount : 0 < count)
    (hLeft : 0 < left) : gather gs count skip left = ([], []) := by
  induction gs generalizing skip with
  | nil => rfl
  | cons g gs ih =>
    rw [total_cons] at hSkip
    rw [gather, if_pos ⟨hCount, hLeft⟩, if_pos (by omega)]
    exact ih (by omega)

theorem length_gather (gs : List (Segment A)) (count skip left : Nat) :
    (gather gs count skip left).1.length ≤ count := by
  induction gs generalizing count skip left with
  | nil => exact Nat.zero_le _
  | cons g gs ih =>
    rw [gather]
    split
    · next hMore =>
      split
      · exact ih _ _ _
      · have hRest := ih (count - 1) 0 (left - min (g.len - skip) left)
        rw [List.length_cons]
        omega
    · exact Nat.zero_le _

theorem total_gather_le (gs : List (Segment A)) (count skip left : Nat) :
    total (gather gs count skip left).1 ≤ left := by
  induction gs generalizing count skip left with
  | nil => exact Nat.zero_le _
  | cons g gs ih =>
    rw [gather]
    split
    · split
      · exact ih _ _ _
      · have hRest := ih (count - 1) 0 (left - min (g.len - skip) left)
        rw [total_cons, Segment.len_cut]
        omega
    · exact Nat.zero_le _

/-- What is taken follows what is skipped. -/
theorem scatter_gather (gs : List (Segment A)) (count skip left : Nat) :
    scatter (gather gs count skip left).1 =
      ((scatter gs).drop skip).take (total (gather gs count skip left).1) := by
  induction gs generalizing count skip left with
  | nil => simp [gather]
  | cons g gs ih =>
    rw [gather]
    split
    · split
      · next hSkipped =>
        have hNone : g.addresses.drop skip = [] :=
          List.drop_eq_nil_of_le (by rwa [Segment.length_addresses])
        rw [ih, scatter_cons, List.drop_append, hNone, List.nil_append, Segment.length_addresses]
      · next hCut =>
        have hFits : skip + min (g.len - skip) left ≤ g.len := by omega
        dsimp only
        rw [scatter_cons, g.addresses_cut hFits, ih, scatter_cons, total_cons,
          List.drop_append_of_le_length (by rw [Segment.length_addresses]; omega), List.drop_zero]
        have hLen : (g.addresses.drop skip).length = g.len - skip := by
          rw [List.length_drop, Segment.length_addresses]
        rcases Nat.le_total (g.len - skip) left with hWhole | hPart
        · have hAll : ∀ n, (g.addresses.drop skip).take (g.len - skip + n) = g.addresses.drop skip := by
            intro n
            apply List.take_of_length_le
            omega
          rw [Nat.min_eq_left hWhole, Segment.len_cut, List.take_append, hLen,
            Nat.add_sub_cancel_left, hAll, ← Nat.add_zero (g.len - skip), hAll]
        · rw [Nat.min_eq_right hPart, Nat.sub_self, gather_nothing, total_nil, List.take_zero,
            List.append_nil, Segment.len_cut, Nat.add_zero, List.take_append_of_le_length (by omega)]
    · simp

/-- Unless the number of segments stops it, everything is taken that is there and asked for. -/
theorem total_gather (gs : List (Segment A)) (count skip left : Nat)
    (hStop : (gather gs count skip left).1.length < count ∨ (gather gs count skip left).2 = []) :
    total (gather gs count skip left).1 = min left (total gs - skip) := by
  induction gs generalizing count skip left with
  | nil => simp [gather]
  | cons g gs ih =>
    rw [gather] at hStop ⊢
    split at hStop
    · next hMore =>
      rw [if_pos hMore]
      split at hStop
      · next hSkipped =>
        rw [if_pos hSkipped, ih _ _ _ hStop, total_cons]
        omega
      · next hCut =>
        rw [if_neg hCut]
        dsimp only at hStop ⊢
        rw [List.length_cons] at hStop
        rw [total_cons, total_cons, ih _ _ _ (hStop.imp_left fun h => by omega),
          Segment.len_cut]
        omega
    · next hDone =>
      rw [if_neg hDone]
      rcases hStop with hFew | hAll
      · obtain rfl : left = 0 := by
          by_contra hLeft
          exact hDone ⟨hFew, Nat.pos_of_ne_zero hLeft⟩
        rw [Nat.zero_min]
        rfl
      · cases hAll

theorem gather_none (gs : List (Segment A)) (skip left : Nat) : (gather gs 0 skip left).1 = [] := by
  cases gs with
  | nil => rfl
  | cons g gs => rw [gather, if_neg (by omega)]

/-- The first `count` segments are all taken, within the bound, if they are there and keep to it. -/
theorem gather_first_iff {bound : Nat} (gs : List (Segment A)) (hSome : ∀ g ∈ gs, 0 < g.len)
    (count : Nat) (hBound : bound ≤ left) :
    (gather gs count 0 left).1.length = count ∧ total (gather gs count 0 left).1 < bound ↔
      count ≤ gs.length ∧ total (gs.take count) < bound := by
  induction gs generalizing count left bound with
  | nil =>
    constructor
    · rintro ⟨hCount, hLess⟩
      obtain rfl : count = 0 := hCount.symm
      exact ⟨Nat.le_refl _, hLess⟩
    · rintro ⟨hCount, hLess⟩
      obtain rfl : count = 0 := Nat.le_zero.mp hCount
      exact ⟨rfl, hLess⟩
  | cons g gs ih =>
    have hLen := hSome g List.mem_cons_self
    cases count with
    | zero =>
      rw [gather_none, List.take_zero]
      exact iff_of_eq (by simp)
    | succ count =>
      rcases Nat.eq_zero_or_pos left with rfl | hLeft
      · obtain rfl : bound = 0 := Nat.le_zero.mp hBound
        exact iff_of_false (by omega) (by omega)
      rw [gather, if_pos ⟨Nat.succ_pos _, hLeft⟩, if_neg (Nat.not_le.mpr hLen)]
      dsimp only
      rw [List.length_cons, total_cons, Segment.len_cut, Nat.add_sub_cancel, Nat.sub_zero,
        List.length_cons, List.take_succ_cons, total_cons]
      rcases Nat.lt_or_ge g.len bound with hFits | hOver
      · have hRest := ih (fun h hMem => hSome h (List.mem_cons_of_mem g hMem)) count
          (show bound - g.len ≤ left - g.len by omega)
        rw [Nat.min_eq_left (by omega)]
        omega
      · rcases Nat.le_total g.len left with hWhole | hPart
        · rw [Nat.min_eq_left hWhole]
          omega
        · rw [Nat.min_eq_right hPart]
          omega

/-- All `count` segments are taken, within the bound, if as many from the one on that the skipped
bytes lead to keep to it. -/
theorem gather_within_iff {bound : Nat} (gs : List (Segment A)) (hSome : ∀ g ∈ gs, 0 < g.len)
    (hCount : 0 < count) (hBound : bound ≤ left) (hLeft : 0 < left) :
    (gather gs count skip left).1.length = count ∧ total (gather gs count skip left).1 < bound ↔
      ∃ i, total (gs.take i) ≤ skip ∧ skip < total (gs.take (i + 1)) ∧ i + count ≤ gs.length ∧
        total (gs.take (i + count)) < skip + bound := by
  induction gs generalizing skip with
  | nil =>
    apply iff_of_false
    · rintro ⟨hNone, -⟩
      exact absurd hNone (by rw [gather, List.length_nil]; omega)
    · rintro ⟨i, -, -, hMany, -⟩
      rw [List.length_nil] at hMany
      omega
  | cons g gs ih =>
    have hRest : ∀ h ∈ gs, 0 < h.len := fun h hMem => hSome h (List.mem_cons_of_mem g hMem)
    rw [gather, if_pos ⟨hCount, hLeft⟩]
    split
    · next hSkipped =>
      rw [ih hRest]
      constructor
      · rintro ⟨i, hFrom, hTo, hMany, hLess⟩
        refine ⟨i + 1, ?_⟩
        rw [Nat.add_right_comm i 1 count, List.take_succ_cons, List.take_succ_cons,
          List.take_succ_cons, total_cons, total_cons, total_cons, List.length_cons]
        omega
      · rintro ⟨i, hFrom, hTo, hMany, hLess⟩
        cases i with
        | zero =>
          rw [List.take_succ_cons, List.take_zero, total_cons, total_nil] at hTo
          omega
        | succ i =>
          rw [Nat.add_right_comm i 1 count] at hMany hLess
          rw [List.take_succ_cons, total_cons] at hFrom hTo hLess
          rw [List.length_cons] at hMany
          exact ⟨i, by omega, by omega, by omega, by omega⟩
    · next hCut =>
      have hFirst : (∃ i, total ((g :: gs).take i) ≤ skip ∧ skip < total ((g :: gs).take (i + 1)) ∧
          i + count ≤ (g :: gs).length ∧ total ((g :: gs).take (i + count)) < skip + bound) ↔
          count ≤ (g :: gs).length ∧ total ((g :: gs).take count) < skip + bound := by
        constructor
        · rintro ⟨i, hFrom, hTo, hMany, hLess⟩
          cases i with
          | zero =>
            rw [Nat.zero_add] at hMany hLess
            exact ⟨hMany, hLess⟩
          | succ i =>
            rw [List.take_succ_cons, total_cons] at hFrom
            omega
        · rintro ⟨hMany, hLess⟩
          refine ⟨0, Nat.zero_le _, ?_, by omega, by rwa [Nat.zero_add]⟩
          rw [List.take_succ_cons, List.take_zero, total_cons, total_nil]
          omega
      rw [hFirst]
      obtain ⟨count, rfl⟩ : ∃ c, count = c + 1 := ⟨count - 1, by omega⟩
      dsimp only
      rw [List.length_cons, total_cons, Segment.len_cut, Nat.add_sub_cancel,
        List.length_cons, List.take_succ_cons, total_cons]
      rcases Nat.lt_or_ge (g.len - skip) bound with hFits | hOver
      · have hIff := gather_first_iff gs hRest count
          (show bound - (g.len - skip) ≤ left - (g.len - skip) by omega)
        rw [Nat.min_eq_left (by omega)]
        omega
      · rcases Nat.le_total (g.len - skip) left with hWhole | hPart
        · rw [Nat.min_eq_left hWhole]
          omega
        · rw [Nat.min_eq_right hPart]
          omega

end Gather

section Trim

/-- Give `extra` bytes at the end back; the last segment comes first. -/
def trim : Nat → List (Segment A) → List (Segment A)
  | 0, gs => gs
  | _ + 1, [] => []
  | extra + 1, g :: gs =>
    if extra + 1 < g.len then { g with len := g.len - (extra + 1) } :: gs
    else trim (extra + 1 - g.len) gs

omit [AddMonoidWithOne A] in
theorem length_trim (extra : Nat) (gs : List (Segment A)) :
    (trim extra gs).length ≤ gs.length := by
  induction gs generalizing extra with
  | nil => cases extra <;> exact Nat.le_refl _
  | cons g gs ih =>
    cases extra with
    | zero => exact Nat.le_refl _
    | succ extra =>
      rw [trim]
      split
      · exact Nat.le_refl _
      · exact Nat.le_trans (ih _) (Nat.le_succ _)

theorem scatter_trim {extra : Nat} {gs : List (Segment A)} (hEnough : extra ≤ total gs) :
    scatter (trim extra gs).reverse = (scatter gs.reverse).take (total gs - extra) := by
  have hReverse : ∀ gs : List (Segment A), (scatter gs.reverse).length = total gs := by
    intro gs
    rw [length_scatter, total_reverse]
  induction gs generalizing extra with
  | nil =>
    obtain rfl : extra = 0 := Nat.le_zero.mp hEnough
    rfl
  | cons g gs ih =>
    cases extra with
    | zero =>
      rw [trim, Nat.sub_zero, ← hReverse, List.take_length]
    | succ extra =>
      rw [trim, total_cons, List.reverse_cons, scatter_append]
      split
      · next hPart =>
        have hCut : ({ g with len := g.len - (extra + 1) } : Segment A).addresses =
            g.addresses.take (g.len - (extra + 1)) := by
          have hZero := g.addresses_cut (show 0 + (g.len - (extra + 1)) ≤ g.len by omega)
          rw [Segment.cut, Nat.cast_zero, add_zero, List.drop_zero] at hZero
          exact hZero
        have hFirst : (scatter gs.reverse).take (g.len + total gs - (extra + 1)) =
            scatter gs.reverse := by
          apply List.take_of_length_le
          rw [hReverse]
          omega
        have hRest : g.len + total gs - (extra + 1) - total gs = g.len - (extra + 1) := by omega
        rw [List.reverse_cons, scatter_append, scatter_cons, scatter_cons, hCut, scatter_nil,
          List.append_nil, List.append_nil, List.take_append, hFirst, hReverse, hRest]
      · next hWhole =>
        rw [total_cons] at hEnough
        rw [ih (by omega), List.take_append_of_le_length (by rw [hReverse]; omega)]
        congr 1
        omega

theorem total_trim {extra : Nat} {gs : List (Segment A)} (hEnough : extra ≤ total gs) :
    total (trim extra gs) = total gs - extra := by
  have hLength := congrArg List.length (scatter_trim hEnough)
  rw [length_scatter, total_reverse, List.length_take, length_scatter, total_reverse] at hLength
  rw [hLength]
  exact Nat.min_eq_left (Nat.sub_le _ _)

end Trim

section Store

variable {A B : Type} [DecidableEq A]

/-- Store values at addresses, one by one, while there are both. -/
def store : (A → B) → List A → List B → A → B
  | m, [], _ => m
  | m, _ :: _, [] => m
  | m, a :: as, b :: bs => store (Function.update m a b) as bs

variable {m : A → B} {as : List A} {bs : List B} {a : A}

@[simp] theorem store_nil (m : A → B) (as : List A) : store m as [] = m := by
  cases as with
  | nil => rfl
  | cons a as => rfl

theorem store_append (m : A → B) {as : List A} {bs : List B} (hLen : as.length = bs.length)
    (as' : List A) (bs' : List B) :
    store m (as ++ as') (bs ++ bs') = store (store m as bs) as' bs' := by
  induction as generalizing m bs with
  | nil =>
    obtain rfl : bs = [] := List.eq_nil_of_length_eq_zero hLen.symm
    rfl
  | cons a as ih =>
    cases bs with
    | nil => cases hLen
    | cons b bs =>
      rw [List.cons_append, List.cons_append, store, store]
      exact ih _ (Nat.succ.inj hLen)

theorem store_take (m : A → B) (as : List A) (bs : List B) :
    store m (as.take bs.length) bs = store m as bs := by
  induction as generalizing m bs with
  | nil => rw [List.take_nil]
  | cons a as ih =>
    cases bs with
    | nil => rw [store_nil, store_nil]
    | cons b bs =>
      rw [List.length_cons, List.take_succ_cons, store, store]
      exact ih _ _

theorem store_of_notMem (hElse : a ∉ as.take bs.length) : store m as bs a = m a := by
  induction as generalizing m bs with
  | nil => rfl
  | cons a' as ih =>
    cases bs with
    | nil => rfl
    | cons b bs =>
      rw [List.length_cons, List.take_succ_cons, List.mem_cons, not_or] at hElse
      rw [store, ih hElse.2, Function.update_of_ne hElse.1]

theorem map_store (hNodup : as.Nodup) (m : A → B) (bs : List B) :
    (as.take bs.length).map (store m as bs) = bs.take as.length := by
  induction as generalizing m bs with
  | nil => simp
  | cons a as ih =>
    cases bs with
    | nil => rfl
    | cons b bs =>
      obtain ⟨hNew, hRest⟩ := List.nodup_cons.mp hNodup
      have hElse : a ∉ as.take bs.length := fun hMem => hNew (List.mem_of_mem_take hMem)
      rw [List.length_cons, List.take_succ_cons, List.map_cons, List.length_cons,
        List.take_succ_cons, store, store_of_notMem hElse, Function.update_self, ih hRest]

end Store

end DeviceModel.ScatterGather

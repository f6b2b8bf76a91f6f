import Mathlib.Data.List.Nodup
import Mathlib.Data.List.Range

/-!
# First come, first served, with cancellation

Whoever submits a job is given the next ticket. A queue that is served at its head, and
from whose middle jobs are taken back, serves those that are not taken back in the order
of their tickets: `InOrder` is kept by the three operations.
-/

set_option autoImplicit false

namespace DeviceModel

universe u v

structure Ledger (α : Type u) where
  submitted : List α
  cancelled : List Nat
  served : List Nat

namespace Ledger

variable {α : Type u} {σ : Type v} (l : Ledger α)

def empty : Ledger α := ⟨[], [], []⟩

def submit (a : α) : Ledger α := { l with submitted := l.submitted ++ [a] }

def cancel (ticket : Nat) : Ledger α := { l with cancelled := ticket :: l.cancelled }

def serve (ticket : Nat) : Ledger α := { l with served := l.served ++ [ticket] }

def kept : List Nat := (List.range l.submitted.length).filter (!l.cancelled.contains ·)

def jobs (tickets : List Nat) : List α := tickets.filterMap (l.submitted[·]?)

def replay (apply : σ → α → σ) (s : σ) (tickets : List Nat) : σ := (l.jobs tickets).foldl apply s

/-- What has been served, and after it what waits, are the jobs that are not cancelled. -/
structure InOrder (waiting : List Nat) : Prop where
  order : l.served ++ waiting = l.kept
  cancelled : ∀ ticket ∈ l.cancelled, ticket < l.submitted.length

variable {l} {waiting : List Nat} {ticket : Nat}

theorem inOrder_empty : (empty : Ledger α).InOrder [] :=
  ⟨rfl, fun _ hMem => absurd hMem List.not_mem_nil⟩

namespace InOrder

theorem mem_lt (h : l.InOrder waiting) (hMem : ticket ∈ l.served ++ waiting) :
    ticket < l.submitted.length := by
  rw [h.order] at hMem
  exact List.mem_range.mp (List.mem_filter.mp hMem).1

theorem nodup (h : l.InOrder waiting) : (l.served ++ waiting).Nodup := by
  rw [h.order]
  exact List.nodup_range.filter _

theorem submit (h : l.InOrder waiting) (a : α) :
    (l.submit a).InOrder (waiting ++ [l.submitted.length]) := by
  have hNew : l.submitted.length ∉ l.cancelled := fun hMem => Nat.lt_irrefl _ (h.cancelled _ hMem)
  refine ⟨?_, fun ticket hMem => ?_⟩
  · have hKept : (l.submit a).kept = l.kept ++ [l.submitted.length] := by
      simp [kept, Ledger.submit, List.range_succ, List.filter_append, hNew]
    rw [hKept, ← h.order, List.append_assoc]
    rfl
  · simpa [Ledger.submit] using Nat.lt_succ_of_lt (h.cancelled ticket hMem)

theorem serve (h : l.InOrder (ticket :: waiting)) : (l.serve ticket).InOrder waiting :=
  ⟨(List.append_assoc _ _ _).trans h.order, h.cancelled⟩

theorem cancel (h : l.InOrder waiting) (hMem : ticket ∈ waiting) :
    (l.cancel ticket).InOrder (waiting.erase ticket) := by
  have hNodup := h.nodup
  have hServed : ticket ∉ l.served := fun hServed =>
    (List.nodup_append.mp hNodup).2.2 ticket hServed ticket hMem rfl
  refine ⟨?_, ?_⟩
  · have hKept : (l.cancel ticket).kept = l.kept.erase ticket := by
      rw [← h.order, hNodup.erase_eq_filter, h.order, kept, kept, List.filter_filter]
      refine List.filter_congr fun t _ => ?_
      exact Bool.eq_iff_iff.mpr (by simp [Ledger.cancel])
    rw [hKept, ← h.order, List.erase_append_right _ hServed]
    rfl
  · intro t hCancelled
    obtain rfl | hCancelled := List.mem_cons.mp hCancelled
    · exact h.mem_lt (List.mem_append_right _ hMem)
    · exact h.cancelled t hCancelled

end InOrder

theorem jobs_submit (a : α) {tickets : List Nat}
    (hOld : ∀ ticket ∈ tickets, ticket < l.submitted.length) :
    (l.submit a).jobs tickets = l.jobs tickets := by
  refine List.filterMap_congr fun ticket hMem => ?_
  exact List.getElem?_append_left (hOld ticket hMem)

theorem replay_append (apply : σ → α → σ) (s : σ) (tickets : List Nat) {a : α}
    (hJob : l.submitted[ticket]? = some a) :
    l.replay apply s (tickets ++ [ticket]) = apply (l.replay apply s tickets) a := by
  simp [replay, jobs, List.filterMap_append, hJob]

end Ledger

end DeviceModel

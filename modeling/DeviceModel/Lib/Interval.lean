import DeviceModel.Lib.SearchTree

/-!
# Trees of disjoint address spans

Spans are closed intervals of natural numbers. Comparing two spans answers
`.eq` whenever neither ends before the other begins, so it orders a set of
spans only when they are disjoint. A span is proper when it does not wrap;
the empty span just below its first address still counts as proper.
-/

namespace DeviceModel.Interval

open SearchTree

universe u

variable {α : Type u}

structure Span where
  first : Nat
  last : Nat
deriving DecidableEq

namespace Span

def point (a : Nat) : Span := ⟨a, a⟩

def Covers (s : Span) (a : Nat) : Prop := s.first ≤ a ∧ a ≤ s.last

instance (s : Span) (a : Nat) : Decidable (s.Covers a) := inferInstanceAs (Decidable (_ ∧ _))

def Proper (s : Span) : Prop := s.first ≤ s.last + 1

def Disjoint (s t : Span) : Prop := ∀ a, ¬ (s.Covers a ∧ t.Covers a)

def compare (s t : Span) : Ordering :=
  if s.last < t.first then .lt else if s.first > t.last then .gt else .eq

theorem compare_lt {s t : Span} : s.compare t = .lt ↔ s.last < t.first := by
  unfold compare
  split
  · simp [*]
  · split <;> simp [*]

theorem compare_gt {s t : Span} : s.compare t = .gt ↔ t.first ≤ s.last ∧ t.last < s.first := by
  unfold compare
  split
  · next h => simp; omega
  · next h =>
    split
    · next h' => simp; omega
    · next h' => simp; omega

theorem compare_eq {s t : Span} : s.compare t = .eq ↔ t.first ≤ s.last ∧ s.first ≤ t.last := by
  unfold compare
  split
  · next h => simp; omega
  · next h =>
    split
    · next h' => simp; omega
    · next h' => simp; omega

theorem point_proper (a : Nat) : (point a).Proper := Nat.le_succ a

theorem point_compare_eq {a : Nat} {s : Span} : (point a).compare s = .eq ↔ s.Covers a := compare_eq

end Span

variable (span : α → Span)

/-- In-order lists of disjoint spans: each ends before the next begins. -/
structure Ordered (xs : List α) : Prop where
  sorted : xs.Pairwise fun x y => (span x).last < (span y).first
  proper : ∀ x ∈ xs, (span x).Proper

variable {span}

theorem Ordered.nil : Ordered span [] := ⟨List.Pairwise.nil, by simp⟩

theorem Ordered.filter {xs : List α} (h : Ordered span xs) (p : α → Bool) :
    Ordered span (xs.filter p) :=
  ⟨h.sorted.filter p, fun x hx => h.proper x (List.mem_filter.mp hx).1⟩

/-- Any proper span cuts an ordered list, which is what the descent relies on. -/
theorem Ordered.cuts {xs : List α} (h : Ordered span xs) {s : Span} (hs : s.Proper) :
    Cuts (fun x => s.compare (span x)) xs := by
  refine h.sorted.imp_of_mem fun {x y} hx hy hxy => ?_
  have hs' : s.first ≤ s.last + 1 := hs
  have hx' : (span x).first ≤ (span x).last + 1 := h.proper x hx
  have hy' : (span y).first ≤ (span y).last + 1 := h.proper y hy
  simp only [Span.compare_lt, Span.compare_gt]
  omega

theorem Ordered.pairwise_disjoint {xs : List α} (h : Ordered span xs) :
    xs.Pairwise fun x y => (span x).Disjoint (span y) := by
  refine h.sorted.imp fun {x y} hxy a ⟨hx, hy⟩ => ?_
  have := hx.2
  have := hy.1
  omega

theorem Ordered.eq_of_covers {xs : List α} (h : Ordered span xs) {x y : α} {a : Nat}
    (hx : x ∈ xs) (hy : y ∈ xs) (hxa : (span x).Covers a) (hya : (span y).Covers a) : x = y := by
  induction xs with
  | nil => cases hx
  | cons z zs ih =>
    obtain ⟨hz, hzs⟩ := List.pairwise_cons.mp h.sorted
    have hTail : Ordered span zs := ⟨hzs, fun w hw => h.proper w (List.mem_cons_of_mem _ hw)⟩
    have hApart : ∀ w ∈ zs, (span w).Covers a → ¬ (span z).Covers a := by
      intro w hw hwa hza
      have := hz w hw
      have := hwa.1
      have := hza.2
      omega
    rcases List.mem_cons.mp hx with rfl | hx' <;> rcases List.mem_cons.mp hy with rfl | hy'
    · rfl
    · exact absurd hxa (hApart y hy' hya)
    · exact absurd hya (hApart x hx' hxa)
    · exact ih hTail hx' hy'

theorem Ordered.insert {before after : List α} (h : Ordered span (before ++ after)) {x : α}
    (hx : (span x).Proper) (hBefore : ∀ y ∈ before, (span x).compare (span y) = .gt)
    (hAfter : ∀ y ∈ after, (span x).compare (span y) = .lt) :
    Ordered span (before ++ x :: after) := by
  obtain ⟨hb, ha, hAcross⟩ := List.pairwise_append.mp h.sorted
  refine ⟨?_, ?_⟩
  · rw [List.pairwise_append, List.pairwise_cons]
    refine ⟨hb, ⟨fun y hy => Span.compare_lt.mp (hAfter y hy), ha⟩, ?_⟩
    intro y hy z hz
    rcases List.mem_cons.mp hz with rfl | hz
    · exact (Span.compare_gt.mp (hBefore y hy)).2
    · exact hAcross y hy z hz
  · intro y hy
    rcases List.mem_append.mp hy with hy | hy
    · exact h.proper y (List.mem_append_left _ hy)
    rcases List.mem_cons.mp hy with rfl | hy
    · exact hx
    · exact h.proper y (List.mem_append_right _ hy)

section Tree

variable [DecidableEq α] {T : BalancedTree α} {h : T.Head}

/-- A point lookup finds the span that covers the address, whatever the shape of the tree. -/
theorem find_point_eq_some_iff (hOrd : Ordered span (T.nodes h)) {a : Nat} {x : α} :
    T.find (fun y => (Span.point a).compare (span y)) h = some x ↔
      x ∈ T.nodes h ∧ (span x).Covers a := by
  rw [BalancedTree.find, find_eq_some_iff (hOrd.cuts (Span.point_proper a)), Span.point_compare_eq]
  · rfl
  · intro y hy z hz hya hza
    exact hOrd.eq_of_covers hy hz (Span.point_compare_eq.mp hya) (Span.point_compare_eq.mp hza)

theorem find_point_eq_none_iff (hOrd : Ordered span (T.nodes h)) {a : Nat} :
    T.find (fun y => (Span.point a).compare (span y)) h = none ↔
      ∀ x ∈ T.nodes h, ¬ (span x).Covers a := by
  rw [BalancedTree.find, find_eq_none_iff (hOrd.cuts (Span.point_proper a))]
  simp only [ne_eq, Span.point_compare_eq]
  rfl

theorem find_span_eq_none_iff (hOrd : Ordered span (T.nodes h)) {s : Span} (hs : s.Proper) :
    T.find (fun y => s.compare (span y)) h = none ↔
      ∀ x ∈ T.nodes h, s.compare (span x) ≠ .eq := by
  rw [BalancedTree.find, find_eq_none_iff (hOrd.cuts hs)]
  rfl

theorem insert_of_apart (hOrd : Ordered span (T.nodes h)) {x : α} (hx : (span x).Proper)
    (hApart : ∀ y ∈ T.nodes h, (span x).compare (span y) ≠ .eq) :
    ∃ h', T.insert (fun x y => (span x).compare (span y)) x h = (none, h') ∧
      Ordered span (T.nodes h') ∧ ∀ y, y ∈ T.nodes h' ↔ y = x ∨ y ∈ T.nodes h := by
  obtain ⟨before, after, hList, hIns, hBefore, hAfter⟩ :=
    T.nodes_insertNode (fun x y => (span x).compare (span y)) (hOrd.cuts hx) hApart
  refine ⟨_, by rw [BalancedTree.insert, (find_span_eq_none_iff hOrd hx).mpr hApart], ?_, ?_⟩
  · rw [hIns]
    exact Ordered.insert (hList ▸ hOrd) hx hBefore hAfter
  · intro y
    rw [hIns, hList]
    simp only [List.mem_append, List.mem_cons]
    exact or_left_comm

theorem insert_of_overlap (hOrd : Ordered span (T.nodes h)) {x y : α} (hx : (span x).Proper)
    (hy : y ∈ T.nodes h) (hEq : (span x).compare (span y) = .eq) :
    ∃ z, T.insert (fun x y => (span x).compare (span y)) x h = (some z, h) := by
  cases hFind : T.find (fun y => (span x).compare (span y)) h with
  | none => exact absurd hEq ((find_span_eq_none_iff hOrd hx).mp hFind y hy)
  | some z => exact ⟨z, by rw [BalancedTree.insert, hFind]⟩

theorem Ordered.removeNode (hOrd : Ordered span (T.nodes h)) (x : α) :
    Ordered span (T.nodes (T.removeNode x h)) := by
  rw [T.nodes_removeNode]
  exact hOrd.filter _

end Tree

end DeviceModel.Interval

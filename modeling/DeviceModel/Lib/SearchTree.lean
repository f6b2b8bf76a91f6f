import Mathlib.Data.BitVec
import Mathlib.Data.Tree.Basic

/-!
# Search trees driven by a comparison

A tree is searched by a probe that sends each node to an `Ordering`. The
comparison behind the probe need not be a linear order: every result only asks
the probe to be monotone along the in-order list of the tree at hand.
Rebalancing is kept abstract. A `BalancedTree` may rotate its nodes at will, as
long as the in-order list is the one of plain leaf insertion and removal.
-/

namespace DeviceModel.SearchTree

universe u

variable {α : Type u}

def inorder : BinaryTree α → List α
  | .nil => []
  | .node x l r => inorder l ++ x :: inorder r

@[simp] theorem inorder_nil : inorder (.nil : BinaryTree α) = [] := rfl

@[simp] theorem inorder_node (x : α) (l r : BinaryTree α) :
    inorder (.node x l r) = inorder l ++ x :: inorder r := rfl

/-- Descent from the root: left below a node, right above it, stop on `.eq`. -/
def find (probe : α → Ordering) : BinaryTree α → Option α
  | .nil => none
  | .node x l r =>
    match probe x with
    | .lt => find probe l
    | .gt => find probe r
    | .eq => some x

/-- The place where the same descent falls off the tree receives the new node. -/
def insertLeaf (cmp : α → α → Ordering) (x : α) : BinaryTree α → BinaryTree α
  | .nil => .node x .nil .nil
  | .node y l r =>
    match cmp x y with
    | .lt => .node y (insertLeaf cmp x l) r
    | _ => .node y l (insertLeaf cmp x r)

def join : BinaryTree α → BinaryTree α → BinaryTree α
  | .nil, t => t
  | .node x l r, t => .node x l (join r t)

def remove [DecidableEq α] (x : α) : BinaryTree α → BinaryTree α
  | .nil => .nil
  | .node y l r =>
    if y = x then join (remove x l) (remove x r) else .node y (remove x l) (remove x r)

/-- The probe cuts the list: `.gt` first, then `.eq`, then `.lt`. -/
def Cuts (probe : α → Ordering) (xs : List α) : Prop :=
  xs.Pairwise fun x y => (probe x = .lt → probe y = .lt) ∧ (probe y = .gt → probe x = .gt)

theorem Cuts.of_node {probe : α → Ordering} {x : α} {l r : BinaryTree α}
    (h : Cuts probe (inorder (.node x l r))) :
    Cuts probe (inorder l) ∧ Cuts probe (inorder r) ∧
      (∀ y ∈ inorder l, probe x = .gt → probe y = .gt) ∧
      (∀ y ∈ inorder r, probe x = .lt → probe y = .lt) := by
  rw [Cuts, inorder_node, List.pairwise_append, List.pairwise_cons] at h
  obtain ⟨hLeft, ⟨hRoot, hRight⟩, hAcross⟩ := h
  exact ⟨hLeft, hRight, fun y hy => (hAcross y hy x List.mem_cons_self).2,
    fun y hy => (hRoot y hy).1⟩

theorem find_some {probe : α → Ordering} {t : BinaryTree α} {x : α}
    (h : find probe t = some x) : x ∈ inorder t ∧ probe x = .eq := by
  induction t with
  | nil => cases h
  | node y l r ihl ihr =>
    cases hy : probe y with
    | lt =>
      obtain ⟨hMem, hEq⟩ := ihl (by simpa [find, hy] using h)
      exact ⟨by simp [hMem], hEq⟩
    | gt =>
      obtain ⟨hMem, hEq⟩ := ihr (by simpa [find, hy] using h)
      exact ⟨by simp [hMem], hEq⟩
    | eq =>
      obtain rfl : y = x := by simpa [find, hy] using h
      exact ⟨by simp, hy⟩

theorem find_eq_none_iff {probe : α → Ordering} {t : BinaryTree α}
    (hCut : Cuts probe (inorder t)) :
    find probe t = none ↔ ∀ x ∈ inorder t, probe x ≠ .eq := by
  constructor
  · intro h
    induction t with
    | nil => simp
    | node y l r ihl ihr =>
      obtain ⟨hl, hr, hAbove, hBelow⟩ := hCut.of_node
      intro x hx
      rw [inorder_node, List.mem_append, List.mem_cons] at hx
      cases hy : probe y with
      | lt =>
        have hNone : find probe l = none := by simpa [find, hy] using h
        rcases hx with hx | rfl | hx
        · exact ihl hl hNone x hx
        · simp [hy]
        · simp [hBelow x hx hy]
      | gt =>
        have hNone : find probe r = none := by simpa [find, hy] using h
        rcases hx with hx | rfl | hx
        · simp [hAbove x hx hy]
        · simp [hy]
        · exact ihr hr hNone x hx
      | eq => simp [find, hy] at h
  · intro h
    cases hFind : find probe t with
    | none => rfl
    | some x => exact absurd (find_some hFind).2 (h x (find_some hFind).1)

/-- If at most one node answers the probe, descent finds exactly that node. -/
theorem find_eq_some_iff {probe : α → Ordering} {t : BinaryTree α} {x : α}
    (hCut : Cuts probe (inorder t))
    (hUnique : ∀ y ∈ inorder t, ∀ z ∈ inorder t, probe y = .eq → probe z = .eq → y = z) :
    find probe t = some x ↔ x ∈ inorder t ∧ probe x = .eq := by
  refine ⟨find_some, fun ⟨hMem, hEq⟩ => ?_⟩
  cases hFind : find probe t with
  | none => exact absurd hEq ((find_eq_none_iff hCut).mp hFind x hMem)
  | some y =>
    obtain ⟨hMem', hEq'⟩ := find_some hFind
    rw [hUnique y hMem' x hMem hEq' hEq]

/-- Leaf insertion splits the in-order list at the place the comparison cuts it. -/
theorem inorder_insertLeaf {cmp : α → α → Ordering} {x : α} {t : BinaryTree α}
    (hCut : Cuts (cmp x) (inorder t)) (hNone : ∀ y ∈ inorder t, cmp x y ≠ .eq) :
    ∃ before after, inorder t = before ++ after ∧
      inorder (insertLeaf cmp x t) = before ++ x :: after ∧
      (∀ y ∈ before, cmp x y = .gt) ∧ (∀ y ∈ after, cmp x y = .lt) := by
  induction t with
  | nil => exact ⟨[], [], by simp [insertLeaf]⟩
  | node y l r ihl ihr =>
    obtain ⟨hl, hr, hAbove, hBelow⟩ := hCut.of_node
    have hy := hNone y (by simp)
    cases hCmp : cmp x y with
    | lt =>
      obtain ⟨before, after, hList, hIns, hBefore, hAfter⟩ :=
        ihl hl (fun z hz => hNone z (by simp [hz]))
      refine ⟨before, after ++ y :: inorder r, by simp [hList], by simp [insertLeaf, hCmp, hIns],
        hBefore, ?_⟩
      intro z hz
      rcases List.mem_append.mp hz with hz | hz
      · exact hAfter z hz
      rcases List.mem_cons.mp hz with rfl | hz
      · exact hCmp
      · exact hBelow z hz hCmp
    | gt =>
      obtain ⟨before, after, hList, hIns, hBefore, hAfter⟩ :=
        ihr hr (fun z hz => hNone z (by simp [hz]))
      refine ⟨inorder l ++ y :: before, after, by simp [hList], by simp [insertLeaf, hCmp, hIns],
        ?_, hAfter⟩
      intro z hz
      rcases List.mem_append.mp hz with hz | hz
      · exact hAbove z hz hCmp
      rcases List.mem_cons.mp hz with rfl | hz
      · exact hCmp
      · exact hBefore z hz
    | eq => exact absurd hCmp hy

theorem inorder_join (s t : BinaryTree α) : inorder (join s t) = inorder s ++ inorder t := by
  induction s with
  | nil => rfl
  | node x l r _ ihr => simp [join, ihr]

theorem inorder_remove [DecidableEq α] (x : α) (t : BinaryTree α) :
    inorder (remove x t) = (inorder t).filter (· ≠ x) := by
  induction t with
  | nil => rfl
  | node y l r ihl ihr =>
    by_cases hy : y = x
    · simp [remove, inorder_join, ihl, ihr, hy]
    · simp [remove, ihl, ihr, hy]

/-- A search tree whose insertion and removal may recolour and rotate. The laws
fix only what rebalancing must keep: the in-order list. -/
structure BalancedTree (α : Type u) [DecidableEq α] where
  Head : Type u
  empty : Head
  shape : Head → BinaryTree α
  insertNode : (α → α → Ordering) → α → Head → Head
  removeNode : α → Head → Head
  shape_empty : shape empty = .nil
  inorder_insertNode : ∀ cmp x h,
    inorder (shape (insertNode cmp x h)) = inorder (insertLeaf cmp x (shape h))
  inorder_removeNode : ∀ x h,
    inorder (shape (removeNode x h)) = (inorder (shape h)).filter (· ≠ x)

namespace BalancedTree

variable [DecidableEq α] (B : BalancedTree α)

def nodes (h : B.Head) : List α := inorder (B.shape h)

def find (probe : α → Ordering) (h : B.Head) : Option α := SearchTree.find probe (B.shape h)

/-- Insertion answers the node it collides with, and then leaves the tree alone. -/
def insert (cmp : α → α → Ordering) (x : α) (h : B.Head) : Option α × B.Head :=
  match B.find (cmp x) h with
  | some y => (some y, h)
  | none => (none, B.insertNode cmp x h)

@[simp] theorem nodes_empty : B.nodes B.empty = [] := by
  rw [nodes, B.shape_empty, inorder_nil]

theorem nodes_removeNode (x : α) (h : B.Head) :
    B.nodes (B.removeNode x h) = (B.nodes h).filter (· ≠ x) := B.inorder_removeNode x h

theorem mem_nodes_removeNode {x y : α} {h : B.Head} :
    y ∈ B.nodes (B.removeNode x h) ↔ y ∈ B.nodes h ∧ y ≠ x := by
  simp [nodes_removeNode]

theorem nodes_insertNode (cmp : α → α → Ordering) {x : α} {h : B.Head}
    (hCut : Cuts (cmp x) (B.nodes h)) (hNone : ∀ y ∈ B.nodes h, cmp x y ≠ .eq) :
    ∃ before after, B.nodes h = before ++ after ∧
      B.nodes (B.insertNode cmp x h) = before ++ x :: after ∧
      (∀ y ∈ before, cmp x y = .gt) ∧ (∀ y ∈ after, cmp x y = .lt) := by
  rw [nodes, nodes, B.inorder_insertNode]
  exact inorder_insertLeaf hCut hNone

/-- Search without rebalancing: every law holds by construction. -/
def unbalanced (α : Type u) [DecidableEq α] : BalancedTree α where
  Head := BinaryTree α
  empty := .nil
  shape := id
  insertNode := insertLeaf
  removeNode := remove
  shape_empty := rfl
  inorder_insertNode _ _ _ := rfl
  inorder_removeNode := inorder_remove

end BalancedTree

end DeviceModel.SearchTree

import DeviceModel.Mem
import Mathlib.Order.Basic
import Mathlib.Tactic.Common

/-!
# What the MMIO registry guarantees

`Mmio.Inv` ties the two trees and the cache together. Each call of `mem.c` gets
one lemma that lists its outcomes; the invariant, the transparency of the cache
and the registration contract are read off from those.
-/

set_option autoImplicit false

namespace DeviceModel.Mem

open SearchTree Interval

variable {ν η α : Type} [DecidableEq ν] [DecidableEq η] [DecidableEq α]
variable {T : BalancedTree (MmioRbRange ν η α)}

theorem mmioRbRangeCompare_eq : mmioRbRangeCompare = Span.compare := rfl

theorem mmioRbLookup_eq_some_iff {rbt : T.Head} (hOrd : Ordered MmioRbRange.span (T.nodes rbt))
    {addr : Nat} {e : MmioRbRange ν η α} :
    mmioRbLookup rbt addr = some e ↔ e ∈ T.nodes rbt ∧ e.span.Covers addr :=
  find_point_eq_some_iff hOrd

theorem mmioRbLookup_eq_none_iff {rbt : T.Head} (hOrd : Ordered MmioRbRange.span (T.nodes rbt))
    {addr : Nat} : mmioRbLookup rbt addr = none ↔ ∀ e ∈ T.nodes rbt, ¬ e.span.Covers addr :=
  find_point_eq_none_iff hOrd

def BaseFree (rbt : T.Head) (m : MemRange ν η α) : Prop :=
  ∀ e ∈ T.nodes rbt, ¬ e.span.Covers m.base

/-- The interval comparison sees no collision with the range. -/
def Apart (rbt : T.Head) (m : MemRange ν η α) : Prop :=
  ∀ e ∈ T.nodes rbt, mmioRbRangeCompare m.span e.span ≠ .eq

inductive Inserted (rbt : T.Head) (m : MemRange ν η α) (malloc : Option Ptr) : Nat × T.Head → Prop
  | enomem : malloc = none → Inserted rbt m malloc (ENOMEM, rbt)
  /-- the base is covered already: success is reported and nothing is inserted -/
  | covered {e : MmioRbRange ν η α} : malloc ≠ none → e ∈ T.nodes rbt → e.span.Covers m.base →
      Inserted rbt m malloc (0, rbt)
  | collides {e : MmioRbRange ν η α} : malloc ≠ none → BaseFree rbt m → e ∈ T.nodes rbt →
      mmioRbRangeCompare m.span e.span = .eq → Inserted rbt m malloc (EEXIST, rbt)
  | inserted {p : Ptr} {rbt' : T.Head} : malloc = some p → BaseFree rbt m → Apart rbt m →
      Ordered MmioRbRange.span (T.nodes rbt') →
      (∀ e, e ∈ T.nodes rbt' ↔ e = ⟨p, m⟩ ∨ e ∈ T.nodes rbt) → Inserted rbt m malloc (0, rbt')

theorem registerMemInt_cases {rbt : T.Head} (hOrd : Ordered MmioRbRange.span (T.nodes rbt))
    {m : MemRange ν η α} (hWrap : m.NoWrap) (malloc : Option Ptr) :
    Inserted rbt m malloc (registerMemInt rbt m malloc) := by
  cases malloc with
  | none => exact .enomem rfl
  | some p =>
    cases hLookup : mmioRbLookup rbt m.base with
    | some e =>
      obtain ⟨hMem, hCov⟩ := (mmioRbLookup_eq_some_iff hOrd).mp hLookup
      simp only [registerMemInt, hLookup]
      exact .covered (by simp) hMem hCov
    | none =>
      have hFree : BaseFree rbt m := (mmioRbLookup_eq_none_iff hOrd).mp hLookup
      simp only [registerMemInt, hLookup, mmioRbAdd]
      by_cases hApart : Apart rbt m
      · obtain ⟨rbt', hIns, hOrd', hNodes⟩ :=
          insert_of_apart (x := (⟨p, m⟩ : MmioRbRange ν η α)) hOrd (m.span_proper hWrap) hApart
        rw [mmioRbRangeCompare_eq, hIns]
        exact .inserted rfl hFree hApart hOrd' hNodes
      · simp only [Apart, not_forall, not_not] at hApart
        obtain ⟨e, he, hEq⟩ := hApart
        obtain ⟨z, hIns⟩ :=
          insert_of_overlap (x := (⟨p, m⟩ : MmioRbRange ν η α)) hOrd (m.span_proper hWrap) he hEq
        rw [mmioRbRangeCompare_eq, hIns]
        exact .collides (by simp) hFree he hEq

/-- The joint invariant of the trees, the cache and the allocator. -/
structure Mmio.Inv (s : Mmio T) : Prop where
  root : Ordered MmioRbRange.span (T.nodes s.mmioRbRoot)
  fallback : Ordered MmioRbRange.span (T.nodes s.mmioRbFallback)
  hint : ∀ e, s.mmioHint = some e → e ∈ T.nodes s.mmioRbRoot
  apart : ∀ e ∈ T.nodes s.mmioRbRoot, ∀ f ∈ T.nodes s.mmioRbFallback, e.ptr ≠ f.ptr

theorem initMem_inv : (initMem T).Inv where
  root := by
    rw [initMem, T.nodes_empty]
    exact Ordered.nil
  fallback := by
    rw [initMem, T.nodes_empty]
    exact Ordered.nil
  hint e he := by cases he
  apart e he := by simp [initMem] at he

namespace Mmio

variable {s : Mmio T}

theorem unregisterMem_cases (hOrd : Ordered MmioRbRange.span (T.nodes s.mmioRbRoot))
    {m : MemRange ν η α} {r : Nat × Mmio T} (h : s.unregisterMem m = .ok r) :
    (BaseFree s.mmioRbRoot m ∧ r = (ENOENT, s)) ∨
    ∃ e ∈ T.nodes s.mmioRbRoot, e.span.Covers m.base ∧ e.mrParam.SameRange m ∧
      ¬ e.mrParam.immutable ∧
      r = (0, { s with
        mmioRbRoot := T.removeNode e s.mmioRbRoot
        mmioHint := if s.mmioHint = some e then none else s.mmioHint }) := by
  unfold unregisterMem at h
  cases hLookup : mmioRbLookup s.mmioRbRoot m.base with
  | none =>
    simp only [hLookup, Except.ok.injEq] at h
    exact .inl ⟨(mmioRbLookup_eq_none_iff hOrd).mp hLookup, h.symm⟩
  | some e =>
    obtain ⟨hMem, hCov⟩ := (mmioRbLookup_eq_some_iff hOrd).mp hLookup
    simp only [hLookup] at h
    split at h
    · cases h
    next hName =>
    split at h
    · cases h
    next hExtent =>
    split at h
    · cases h
    next hMut =>
    simp only [not_not] at hName hExtent
    simp only [Except.ok.injEq] at h
    exact .inr ⟨e, hMem, hCov, ⟨hName, hExtent⟩, hMut, h.symm⟩

theorem unregisterMem_of_mem (hOrd : Ordered MmioRbRange.span (T.nodes s.mmioRbRoot))
    {m : MemRange ν η α} {e : MmioRbRange ν η α} (he : e ∈ T.nodes s.mmioRbRoot)
    (hCov : e.span.Covers m.base) (hSame : e.mrParam.SameRange m) (hMut : ¬ e.mrParam.immutable) :
    s.unregisterMem m = .ok (0, { s with
      mmioRbRoot := T.removeNode e s.mmioRbRoot
      mmioHint := if s.mmioHint = some e then none else s.mmioHint }) := by
  obtain ⟨hName, hExtent⟩ := hSame
  simp [unregisterMem, (mmioRbLookup_eq_some_iff hOrd).mpr ⟨he, hCov⟩, hName, hExtent, hMut]

theorem uncachedLookup_eq_some_iff (hInv : s.Inv) {a : Nat} {e : MmioRbRange ν η α} :
    s.uncachedLookup a = some e ↔
      (e ∈ T.nodes s.mmioRbRoot ∧ e.span.Covers a) ∨
      ((∀ f ∈ T.nodes s.mmioRbRoot, ¬ f.span.Covers a) ∧
        e ∈ T.nodes s.mmioRbFallback ∧ e.span.Covers a) := by
  rw [uncachedLookup, Option.or_eq_some_iff, mmioRbLookup_eq_some_iff hInv.root,
    mmioRbLookup_eq_none_iff hInv.root, mmioRbLookup_eq_some_iff hInv.fallback]

/-- The cache never changes which entry is selected, and is the only thing an access changes. -/
theorem accessMemory_spec (hInv : s.Inv) (a : Nat) :
    (s.accessMemory a).1 = s.uncachedLookup a ∧
      ((s.accessMemory a).2 = s ∨ ∃ e ∈ T.nodes s.mmioRbRoot,
        (s.accessMemory a).2 = { s with mmioHint := some e }) := by
  unfold accessMemory
  cases hHint : s.mmioHint.filter fun e => decide (e.span.Covers a) with
  | some e =>
    obtain ⟨hSome, hCov⟩ := Option.filter_eq_some_iff.mp hHint
    have hMem := hInv.hint e hSome
    exact ⟨((uncachedLookup_eq_some_iff hInv).mpr (.inl ⟨hMem, of_decide_eq_true hCov⟩)).symm,
      .inl rfl⟩
  | none =>
    cases hLookup : mmioRbLookup s.mmioRbRoot a with
    | some e =>
      refine ⟨by simp [uncachedLookup, hLookup], .inr ⟨e, ?_, rfl⟩⟩
      exact ((mmioRbLookup_eq_some_iff hInv.root).mp hLookup).1
    | none => exact ⟨by simp [uncachedLookup, hLookup], .inl rfl⟩

theorem dispatch_eq_uncachedLookup (hInv : s.Inv) (a : Nat) : s.dispatch a = s.uncachedLookup a :=
  (accessMemory_spec hInv a).1

theorem Inv.accessMemory (hInv : s.Inv) (a : Nat) : (s.accessMemory a).2.Inv := by
  rcases (accessMemory_spec hInv a).2 with h | ⟨e, he, h⟩
  · rwa [h]
  · rw [h]
    refine ⟨hInv.root, hInv.fallback, ?_, hInv.apart⟩
    rintro f ⟨rfl⟩
    exact he

theorem Inv.registerMem (hInv : s.Inv) {m : MemRange ν η α} (hWrap : m.NoWrap)
    {malloc : Option Ptr} (hFresh : (Call.registerMem m malloc).Fresh s) :
    (s.registerMem m malloc).2.Inv := by
  have hCases := registerMemInt_cases hInv.root hWrap malloc
  unfold Mmio.registerMem
  generalize registerMemInt s.mmioRbRoot m malloc = r at hCases ⊢
  cases hCases with
  | enomem | covered | collides => exact hInv
  | inserted hMalloc hFree hApart hOrd hNodes =>
    refine ⟨hOrd, hInv.fallback, fun e he => (hNodes e).mpr (.inr (hInv.hint e he)), ?_⟩
    intro e he f hf
    rcases (hNodes e).mp he with rfl | he
    · exact (hFresh _ hMalloc f (List.mem_append_right _ hf)).symm
    · exact hInv.apart e he f hf

theorem Inv.registerMemFallback (hInv : s.Inv) {m : MemRange ν η α} (hWrap : m.NoWrap)
    {malloc : Option Ptr} (hFresh : (Call.registerMemFallback m malloc).Fresh s) :
    (s.registerMemFallback m malloc).2.Inv := by
  have hCases := registerMemInt_cases hInv.fallback hWrap malloc
  unfold Mmio.registerMemFallback
  generalize registerMemInt s.mmioRbFallback m malloc = r at hCases ⊢
  cases hCases with
  | enomem | covered | collides => exact hInv
  | inserted hMalloc hFree hApart hOrd hNodes =>
    refine ⟨hInv.root, hOrd, hInv.hint, ?_⟩
    intro e he f hf
    rcases (hNodes f).mp hf with rfl | hf
    · exact hFresh _ hMalloc e (List.mem_append_left _ he)
    · exact hInv.apart e he f hf

theorem Inv.unregisterMem (hInv : s.Inv) {m : MemRange ν η α} {r : Nat × Mmio T}
    (h : s.unregisterMem m = .ok r) : r.2.Inv := by
  rcases unregisterMem_cases hInv.root h with ⟨_, rfl⟩ | ⟨e, he, _, _, _, rfl⟩
  · exact hInv
  · refine ⟨hInv.root.removeNode e, hInv.fallback, ?_, ?_⟩
    · intro f hf
      by_cases hHint : s.mmioHint = some e
      · simp [hHint] at hf
      · simp only [hHint, if_false] at hf
        refine T.mem_nodes_removeNode.mpr ⟨hInv.hint f hf, ?_⟩
        rintro rfl
        exact hHint hf
    · intro f hf g hg
      exact hInv.apart f (T.mem_nodes_removeNode.mp hf).1 g hg

end Mmio

theorem Call.step_inv {s s' : Mmio T} (hInv : s.Inv) {c : Call ν η α} (hFresh : c.Fresh s)
    (hWrap : c.NoWrap) (h : c.step s = .ok s') : s'.Inv := by
  cases c with
  | registerMem m malloc =>
    obtain rfl := Except.ok.inj h
    exact hInv.registerMem hWrap hFresh
  | registerMemFallback m malloc =>
    obtain rfl := Except.ok.inj h
    exact hInv.registerMemFallback hWrap hFresh
  | unregisterMem m =>
    cases hUnreg : s.unregisterMem m with
    | error f => simp [Call.step, hUnreg, Except.map] at h
    | ok r =>
      obtain rfl : r.2 = s' := by simpa [Call.step, hUnreg, Except.map] using h
      exact hInv.unregisterMem hUnreg
  | accessMemory a =>
    obtain rfl := Except.ok.inj h
    exact hInv.accessMemory a

theorem Run.inv {s s' : Mmio T} {cs : List (Call ν η α)} (hRun : Run s cs s') (hInv : s.Inv)
    (hWrap : ∀ c ∈ cs, c.NoWrap) : s'.Inv := by
  induction hRun with
  | nil => exact hInv
  | cons hFresh hStep _ ih =>
    exact ih (Call.step_inv hInv hFresh (hWrap _ List.mem_cons_self) hStep)
      (fun c hc => hWrap c (List.mem_cons_of_mem _ hc))

section Dispatch

variable {s : Mmio T}

theorem Mmio.dispatch_eq_some_iff (hInv : s.Inv) {a : Nat} {e : MmioRbRange ν η α} :
    s.dispatch a = some e ↔
      (e ∈ T.nodes s.mmioRbRoot ∧ e.span.Covers a) ∨
      ((∀ f ∈ T.nodes s.mmioRbRoot, ¬ f.span.Covers a) ∧
        e ∈ T.nodes s.mmioRbFallback ∧ e.span.Covers a) := by
  rw [dispatch_eq_uncachedLookup hInv, uncachedLookup_eq_some_iff hInv]

/-- Dispatch depends on the sets of ranges only: not on tree shapes, not on the cache. -/
theorem Mmio.dispatch_ext {s s' : Mmio T} (hInv : s.Inv) (hInv' : s'.Inv)
    (hRoot : ∀ e, e ∈ T.nodes s.mmioRbRoot ↔ e ∈ T.nodes s'.mmioRbRoot)
    (hFallback : s.mmioRbFallback = s'.mmioRbFallback) (a : Nat) : s.dispatch a = s'.dispatch a := by
  ext e
  simp only [dispatch_eq_some_iff hInv, dispatch_eq_some_iff hInv', hRoot, hFallback]

theorem Call.step_mem_root {s s' : Mmio T} (hInv : s.Inv) {c : Call ν η α} (hWrap : c.NoWrap)
    (h : c.step s = .ok s') {e : MmioRbRange ν η α} (he : e ∈ T.nodes s.mmioRbRoot)
    (hKeep : ∀ m, c = .unregisterMem m → ¬ e.mrParam.SameRange m) :
    e ∈ T.nodes s'.mmioRbRoot := by
  cases c with
  | registerMem m malloc =>
    obtain rfl := Except.ok.inj h
    have hCases := registerMemInt_cases hInv.root hWrap malloc
    unfold Mmio.registerMem
    generalize registerMemInt s.mmioRbRoot m malloc = r at hCases ⊢
    cases hCases with
    | enomem | covered | collides => exact he
    | inserted _ _ _ _ hNodes => exact (hNodes e).mpr (.inr he)
  | registerMemFallback m malloc =>
    obtain rfl := Except.ok.inj h
    exact he
  | unregisterMem m =>
    cases hUnreg : s.unregisterMem m with
    | error f => simp [Call.step, hUnreg, Except.map] at h
    | ok r =>
      obtain rfl : r.2 = s' := by simpa [Call.step, hUnreg, Except.map] using h
      rcases Mmio.unregisterMem_cases hInv.root hUnreg with ⟨_, rfl⟩ | ⟨f, _, _, hSame, _, rfl⟩
      · exact he
      · refine T.mem_nodes_removeNode.mpr ⟨he, ?_⟩
        rintro rfl
        exact hKeep m rfl hSame
  | accessMemory a =>
    obtain rfl := Except.ok.inj h
    rcases (Mmio.accessMemory_spec hInv a).2 with hEq | ⟨f, _, hEq⟩
    · rwa [hEq]
    · rw [hEq]
      exact he

/-- A range stays in the root tree until it is unregistered under its own name, base and size. -/
theorem Run.mem_root {s s' : Mmio T} {cs : List (Call ν η α)} (hRun : Run s cs s') (hInv : s.Inv)
    (hWrap : ∀ c ∈ cs, c.NoWrap) {e : MmioRbRange ν η α} (he : e ∈ T.nodes s.mmioRbRoot)
    (hKeep : ∀ m, Call.unregisterMem m ∈ cs → ¬ e.mrParam.SameRange m) :
    e ∈ T.nodes s'.mmioRbRoot := by
  induction hRun with
  | nil => exact he
  | @cons _ _ _ c cs hFresh hStep _ ih =>
    have hWrapHead := hWrap c List.mem_cons_self
    have hHead := Call.step_mem_root hInv hWrapHead hStep he
      (fun m hm => hKeep m (hm ▸ List.mem_cons_self))
    exact ih (Call.step_inv hInv hFresh hWrapHead hStep)
      (fun c hc => hWrap c (List.mem_cons_of_mem _ hc)) hHead
      (fun m hm => hKeep m (List.mem_cons_of_mem _ hm))

end Dispatch

/-- The state in which an access is indistinguishable from an uncached lookup. -/
structure CacheTransparent (s : Mmio T) : Prop where
  rootDisjoint : (T.nodes s.mmioRbRoot).Pairwise fun e f => e.span.Disjoint f.span
  fallbackDisjoint : (T.nodes s.mmioRbFallback).Pairwise fun e f => e.span.Disjoint f.span
  hint : ∀ e, s.mmioHint = some e → e ∈ T.nodes s.mmioRbRoot
  selects : ∀ a, (s.accessMemory a).1 = s.uncachedLookup a
  uncached : ∀ a e, s.uncachedLookup a = some e ↔
    (e ∈ T.nodes s.mmioRbRoot ∧ e.span.Covers a) ∨
    ((∀ f ∈ T.nodes s.mmioRbRoot, ¬ f.span.Covers a) ∧
      e ∈ T.nodes s.mmioRbFallback ∧ e.span.Covers a)

/-- The cache is transparent after any calls whose ranges do not wrap. -/
theorem lookupCache_transparent {s : Mmio T} {cs : List (Call ν η α)} (hRun : Run (initMem T) cs s)
    (hWrap : ∀ c ∈ cs, c.NoWrap) : CacheTransparent s := by
  have hInv := hRun.inv initMem_inv hWrap
  exact ⟨hInv.root.pairwise_disjoint, hInv.fallback.pairwise_disjoint, hInv.hint,
    fun a => (Mmio.accessMemory_spec hInv a).1, fun a e => Mmio.uncachedLookup_eq_some_iff hInv⟩

section Examples

abbrev NatRange := MemRange Nat Nat Nat

abbrev natTree : BalancedTree (MmioRbRange Nat Nat Nat) := .unbalanced _

def wrapped : NatRange := ⟨1, MEM_F_RW, 1, 1, 0, 2 ^ 64 - 16, 32⟩

def upper : NatRange := ⟨2, MEM_F_RW, 2, 2, 0, 20, 2 ^ 64 - 20⟩

def page : NatRange := ⟨1, MEM_F_RW, 1, 1, 0, 0x1000, 0x1000⟩

def inside : NatRange := ⟨2, MEM_F_RW, 2, 2, 0, 0x1800, 0x100⟩

theorem lookupCache_transparent_page :
    ∃ s : Mmio natTree, CacheTransparent s ∧ s.mmioHint = some ⟨1, page⟩ := by
  refine ⟨_, lookupCache_transparent
    (.cons (c := .registerMem page (some 1)) ?_ rfl
      (.cons (c := .accessMemory 0x1234) trivial rfl (.nil _))) ?_, rfl⟩
  · rintro p - e ⟨⟩
  · simp [Call.NoWrap, MemRange.NoWrap, page]

/-- A range that wraps compares inconsistently: the second registration goes in beside it,
and the cache then answers for an address the descent no longer finds. -/
theorem lookupCache_opaque_of_wrap :
    ¬ ∀ (s : Mmio natTree) (cs : List (Call Nat Nat Nat)), Run (initMem natTree) cs s →
      CacheTransparent s := by
  intro h
  have hSelects := (h _ _
    (.cons (c := .registerMem wrapped (some 1)) (by rintro p - e ⟨⟩) rfl
      (.cons (c := .registerMem upper (some 2)) (by
          rintro p ⟨rfl⟩ e he
          revert e
          decide) rfl
        (.cons (c := .accessMemory (2 ^ 64 - 1)) trivial rfl (.nil _))))).selects 100
  revert hSelects
  decide

end Examples

/-- What a caller of `register_mem` and `unregister_mem` may rely on for the range `m`. -/
def RegistryContract (s : Mmio T) (m : MemRange ν η α) (malloc : Option Ptr) : Prop :=
  ((s.registerMem m malloc).1 = 0 →
    (∀ cs s', Run (s.registerMem m malloc).2 cs s' → (∀ c ∈ cs, c.NoWrap) →
      (∀ m', Call.unregisterMem m' ∈ cs → ¬ m.SameRange m') →
      ∀ a, m.base ≤ a → a < m.base + m.size → ∃ e, s'.dispatch a = some e ∧
        e.mrParam.handler = m.handler ∧ e.mrParam.arg1 = m.arg1 ∧ e.mrParam.arg2 = m.arg2) ∧
    ∃ s', (s.registerMem m malloc).2.unregisterMem m = .ok (0, s') ∧
      ∀ a, s'.dispatch a = s.dispatch a) ∧
  ((s.registerMem m malloc).1 ≠ 0 →
    ∀ a, (s.registerMem m malloc).2.dispatch a = s.dispatch a)

section Contract

variable {s : Mmio T} {m : MemRange ν η α} {malloc : Option Ptr}

theorem RegistryContract.of_inserted (hInv : s.Inv) (hPos : 0 < m.size) (hWrap : m.NoWrap)
    (hFresh : (Call.registerMem m malloc).Fresh s) {p : Ptr} {rbt : T.Head}
    (hMalloc : malloc = some p) (hReg : registerMemInt s.mmioRbRoot m malloc = (0, rbt))
    (hNodes : ∀ e, e ∈ T.nodes rbt ↔ e = ⟨p, m⟩ ∨ e ∈ T.nodes s.mmioRbRoot)
    (hMut : ¬ m.immutable) : RegistryContract s m malloc := by
  have hInv' : (s.registerMem m malloc).2.Inv := hInv.registerMem hWrap hFresh
  have hNew : (⟨p, m⟩ : MmioRbRange ν η α) ∈ T.nodes (s.registerMem m malloc).2.mmioRbRoot := by
    simp only [Mmio.registerMem, hReg]
    exact (hNodes _).mpr (.inl rfl)
  have hOld : (⟨p, m⟩ : MmioRbRange ν η α) ∉ T.nodes s.mmioRbRoot := by
    intro hMem
    exact hFresh p hMalloc _ (List.mem_append_left _ hMem) rfl
  refine ⟨fun _ => ⟨?_, ?_⟩, fun h => absurd (by simp [Mmio.registerMem, hReg]) h⟩
  · intro cs s' hRun hWraps hKeep a hLo hHi
    have hMem := hRun.mem_root hInv' hWraps hNew hKeep
    refine ⟨⟨p, m⟩, ?_, rfl, rfl, rfl⟩
    exact (Mmio.dispatch_eq_some_iff (hRun.inv hInv' hWraps)).mpr
      (.inl ⟨hMem, (m.covers_iff hWrap hPos a).mpr ⟨hLo, hHi⟩⟩)
  · have hUnreg := Mmio.unregisterMem_of_mem hInv'.root hNew
      (m.covers_base hWrap hPos) ⟨rfl, rfl, rfl⟩ hMut
    refine ⟨_, hUnreg, Mmio.dispatch_ext (hInv'.unregisterMem hUnreg) hInv ?_ rfl⟩
    intro e
    simp only [T.mem_nodes_removeNode, Mmio.registerMem, hReg, hNodes]
    constructor
    · rintro ⟨rfl | he, hNe⟩
      · exact absurd rfl hNe
      · exact he
    · rintro he
      exact ⟨.inr he, fun hEq => hOld (hEq ▸ he)⟩

/-- On a covered base, unregistering either stops at an assertion or takes away the range
that was there before. -/
theorem RegistryContract.not_of_covered (hInv : s.Inv) {e : MmioRbRange ν η α}
    (he : e ∈ T.nodes s.mmioRbRoot) (hCov : e.span.Covers m.base)
    (hReg : registerMemInt s.mmioRbRoot m malloc = (0, s.mmioRbRoot)) :
    ¬ RegistryContract s m malloc := by
  have hSame : s.registerMem m malloc = (0, s) := by simp [Mmio.registerMem, hReg]
  rintro ⟨hOk, _⟩
  obtain ⟨_, s', hUnreg, hDispatch⟩ := hOk (by rw [hSame])
  rw [hSame] at hUnreg
  have hInv' : s'.Inv := hInv.unregisterMem hUnreg
  have hBefore : s.dispatch m.base = some e :=
    (Mmio.dispatch_eq_some_iff hInv).mpr (.inl ⟨he, hCov⟩)
  rw [← hDispatch, Mmio.dispatch_eq_some_iff hInv'] at hBefore
  rcases Mmio.unregisterMem_cases hInv.root hUnreg with ⟨hFree, _⟩ | ⟨f, hf, hCov', _, _, hEq⟩
  · exact hFree e he hCov
  obtain rfl : e = f := hInv.root.eq_of_covers he hf hCov hCov'
  obtain rfl : s' = _ := (Prod.mk.inj hEq).2
  rcases hBefore with ⟨hMem, _⟩ | ⟨_, hMem, _⟩
  · exact (T.mem_nodes_removeNode.mp hMem).2 rfl
  · exact hInv.apart e he e hMem rfl

theorem RegistryContract.not_of_immutable (hInv : s.Inv) (hPos : 0 < m.size) (hWrap : m.NoWrap)
    (hFresh : (Call.registerMem m malloc).Fresh s) {p : Ptr} {rbt : T.Head}
    (hReg : registerMemInt s.mmioRbRoot m malloc = (0, rbt))
    (hNodes : ∀ e, e ∈ T.nodes rbt ↔ e = ⟨p, m⟩ ∨ e ∈ T.nodes s.mmioRbRoot)
    (hMut : m.immutable) : ¬ RegistryContract s m malloc := by
  have hInv' : (s.registerMem m malloc).2.Inv := hInv.registerMem hWrap hFresh
  have hNew : (⟨p, m⟩ : MmioRbRange ν η α) ∈ T.nodes (s.registerMem m malloc).2.mmioRbRoot := by
    simp only [Mmio.registerMem, hReg]
    exact (hNodes _).mpr (.inl rfl)
  have hBase : m.span.Covers m.base := m.covers_base hWrap hPos
  rintro ⟨hOk, _⟩
  obtain ⟨_, s', hUnreg, _⟩ := hOk (by simp [Mmio.registerMem, hReg])
  rcases Mmio.unregisterMem_cases hInv'.root hUnreg with ⟨_, hEq⟩ | ⟨f, hf, hCov, _, hMutable, _⟩
  · cases hEq
  · obtain rfl := hInv'.root.eq_of_covers hNew hf hBase hCov
    exact hMutable hMut

end Contract

/-- The registration contract holds exactly when the allocator has no memory, or nothing
in the root tree covers the base of the range and the range, if it gets in, may leave again. -/
theorem registryContract_iff {s : Mmio T} {cs : List (Call ν η α)} (hRun : Run (initMem T) cs s)
    (hWraps : ∀ c ∈ cs, c.NoWrap) {m : MemRange ν η α} (hPos : 0 < m.size) (hWrap : m.NoWrap)
    {malloc : Option Ptr} (hFresh : (Call.registerMem m malloc).Fresh s) :
    RegistryContract s m malloc ↔
      malloc = none ∨ ((∀ e ∈ T.nodes s.mmioRbRoot, ¬ e.span.Covers m.base) ∧
        ((∃ e ∈ T.nodes s.mmioRbRoot, mmioRbRangeCompare m.span e.span = .eq) ∨
          ¬ m.immutable)) := by
  have hInv := hRun.inv initMem_inv hWraps
  have hCases := registerMemInt_cases hInv.root hWrap malloc
  generalize hReg : registerMemInt s.mmioRbRoot m malloc = r at hCases
  have refused : ∀ err, err ≠ 0 → r = (err, s.mmioRbRoot) → RegistryContract s m malloc := by
    rintro err hErr rfl
    refine ⟨fun h => absurd h (by simp [Mmio.registerMem, hReg, hErr]), fun _ a => ?_⟩
    simp [Mmio.registerMem, hReg]
  cases hCases with
  | enomem hMalloc => exact iff_of_true (refused ENOMEM (by decide) rfl) (.inl hMalloc)
  | covered hMalloc he hCov =>
    refine iff_of_false (RegistryContract.not_of_covered hInv he hCov hReg) ?_
    rintro (h | ⟨hFree, _⟩)
    · exact hMalloc h
    · exact hFree _ he hCov
  | collides hMalloc hFree he hEq =>
    exact iff_of_true (refused EEXIST (by decide) rfl) (.inr ⟨hFree, .inl ⟨_, he, hEq⟩⟩)
  | inserted hMalloc hFree hApart hOrd hNodes =>
    constructor
    · intro hContract
      refine .inr ⟨hFree, .inr fun hMut => ?_⟩
      exact RegistryContract.not_of_immutable hInv hPos hWrap hFresh hReg hNodes hMut hContract
    · rintro (h | ⟨_, ⟨e, he, hEq⟩ | hMut⟩)
      · simp [h] at hMalloc
      · exact absurd hEq (hApart e he)
      · exact RegistryContract.of_inserted hInv hPos hWrap hFresh hMalloc hReg hNodes hMut

section Examples

theorem registryContract_iff_page :
    RegistryContract (initMem natTree) page (some 1) ∧
      ∀ e ∈ natTree.nodes (initMem natTree).mmioRbRoot, ¬ e.span.Covers page.base := by
  have hFree : ∀ e ∈ natTree.nodes (initMem natTree).mmioRbRoot, ¬ e.span.Covers page.base := by
    rintro e ⟨⟩
  refine ⟨(registryContract_iff (.nil _) ?_ ?_ ?_ ?_).mpr (.inr ⟨hFree, .inr ?_⟩), hFree⟩
  · rintro c ⟨⟩
  · decide
  · simp [MemRange.NoWrap, page]
  · rintro p - e ⟨⟩
  · decide

/-- Registering `inside` while `page` covers its base reports success, and unregistering it
then runs into the extent assertion. -/
theorem registryContract_broken_inside :
    ¬ ∀ (s : Mmio natTree) (cs : List (Call Nat Nat Nat)), Run (initMem natTree) cs s →
      (∀ c ∈ cs, c.NoWrap) → ∀ m : NatRange, 0 < m.size → m.NoWrap →
      ∀ malloc, (Call.registerMem m malloc).Fresh s → RegistryContract s m malloc := by
  intro h
  obtain ⟨hOk, _⟩ := h _ _
    (.cons (c := .registerMem page (some 1)) (by rintro p - e ⟨⟩) rfl (.nil _))
    (by simp [Call.NoWrap, MemRange.NoWrap, page]) inside (by decide)
    (by simp [MemRange.NoWrap, inside]) (some 2) (by
      rintro p ⟨rfl⟩ e he
      revert e
      decide)
  obtain ⟨_, s', hUnreg, _⟩ := hOk (by decide)
  cases hUnreg

end Examples

end DeviceModel.Mem

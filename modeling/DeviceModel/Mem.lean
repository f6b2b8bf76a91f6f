import DeviceModel.Fault
import DeviceModel.Lib.Interval

/-!
# The MMIO registry of `bhyve/mem.c`

Ranges live in two red-black trees and a one-entry cache. `VM_MAXCPU` is 1, so
the cache is a single pointer. The tree macros of `sys/tree.h` are any
`BalancedTree`: the descent is the one of `RB_FIND`, and rebalancing is free.
The lock operations of this port do nothing and are left out.
-/

set_option autoImplicit false

namespace DeviceModel.Mem

open SearchTree Interval

/-- The address `malloc` returned for a node. -/
abbrev Ptr := Nat

def ENOENT : Nat := 2
def ESRCH : Nat := 3
def ENOMEM : Nat := 12
def EEXIST : Nat := 17

def MEM_F_RW : Nat := 3
def MEM_F_IMMUTABLE : Nat := 4

/-- `struct mem_range`; `name` and `arg1` are pointers, compared by identity. -/
structure MemRange (ν η α : Type) where
  name : ν
  flags : Nat
  handler : η
  arg1 : α
  arg2 : Int
  base : Nat
  size : Nat
deriving DecidableEq

variable {ν η α : Type}

namespace MemRange

/-- `mr_base` and `mr_end = base + size - 1`, in 64-bit arithmetic. -/
def span (m : MemRange ν η α) : Span := ⟨m.base, (m.base + m.size + (2 ^ 64 - 1)) % 2 ^ 64⟩

def immutable (m : MemRange ν η α) : Prop := m.flags &&& MEM_F_IMMUTABLE ≠ 0

instance (m : MemRange ν η α) : Decidable m.immutable := inferInstanceAs (Decidable (_ ≠ _))

/-- `base + size` stays within the 64-bit address space. -/
def NoWrap (m : MemRange ν η α) : Prop := m.base + m.size ≤ 2 ^ 64

/-- What `unregister_mem` compares before it removes a range. -/
def SameRange (m n : MemRange ν η α) : Prop :=
  m.name = n.name ∧ m.base = n.base ∧ m.size = n.size

theorem span_proper {m : MemRange ν η α} (h : m.NoWrap) : m.span.Proper := by
  simp only [NoWrap] at h
  simp only [Span.Proper, span]
  omega

theorem covers_iff {m : MemRange ν η α} (h : m.NoWrap) (hPos : 0 < m.size) (a : Nat) :
    m.span.Covers a ↔ m.base ≤ a ∧ a < m.base + m.size := by
  simp only [NoWrap] at h
  simp only [Span.Covers, span]
  omega

theorem covers_base {m : MemRange ν η α} (h : m.NoWrap) (hPos : 0 < m.size) :
    m.span.Covers m.base :=
  (covers_iff h hPos m.base).mpr ⟨Nat.le_refl _, by omega⟩

end MemRange

/-- `struct mmio_rb_range`: a node of a tree, with the range copied into it. -/
structure MmioRbRange (ν η α : Type) where
  ptr : Ptr
  mrParam : MemRange ν η α
deriving DecidableEq

def MmioRbRange.span (e : MmioRbRange ν η α) : Span := e.mrParam.span

def mmioRbRangeCompare (a b : Span) : Ordering :=
  if a.last < b.first then .lt else if a.first > b.last then .gt else .eq

variable [DecidableEq ν] [DecidableEq η] [DecidableEq α]

/-- `mmio_rb_root`, `mmio_rb_fallback` and `mmio_hint[0]`. -/
structure Mmio (T : BalancedTree (MmioRbRange ν η α)) where
  mmioRbRoot : T.Head
  mmioRbFallback : T.Head
  mmioHint : Option (MmioRbRange ν η α)

variable {T : BalancedTree (MmioRbRange ν η α)}

/-- `init_mem`: both trees empty; the hint is a zero-initialised static. -/
def initMem (T : BalancedTree (MmioRbRange ν η α)) : Mmio T := ⟨T.empty, T.empty, none⟩

def mmioRbLookup (rbt : T.Head) (addr : Nat) : Option (MmioRbRange ν η α) :=
  T.find (fun e => mmioRbRangeCompare ⟨addr, addr⟩ e.span) rbt

def mmioRbAdd (rbt : T.Head) (new : MmioRbRange ν η α) : Nat × T.Head :=
  match T.insert (fun a b => mmioRbRangeCompare a.span b.span) new rbt with
  | (some _, rbt) => (EEXIST, rbt)
  | (none, rbt) => (0, rbt)

/-- `malloc` is the pointer the allocator returned, `none` for `NULL`. -/
def registerMemInt (rbt : T.Head) (memp : MemRange ν η α) (malloc : Option Ptr) : Nat × T.Head :=
  match malloc with
  | none => (ENOMEM, rbt)
  | some mrp =>
    match mmioRbLookup rbt memp.base with
    -- the point lookup succeeds: `err` keeps its initial 0 and the node is dropped
    | some _ => (0, rbt)
    | none => mmioRbAdd rbt ⟨mrp, memp⟩

namespace Mmio

def registerMem (s : Mmio T) (memp : MemRange ν η α) (malloc : Option Ptr) : Nat × Mmio T :=
  let r := registerMemInt s.mmioRbRoot memp malloc
  (r.1, { s with mmioRbRoot := r.2 })

def registerMemFallback (s : Mmio T) (memp : MemRange ν η α) (malloc : Option Ptr) : Nat × Mmio T :=
  let r := registerMemInt s.mmioRbFallback memp malloc
  (r.1, { s with mmioRbFallback := r.2 })

def unregisterMem (s : Mmio T) (memp : MemRange ν η α) : Except Fault (Nat × Mmio T) :=
  match mmioRbLookup s.mmioRbRoot memp.base with
  | none => .ok (ENOENT, s)
  | some entry =>
    if entry.mrParam.name ≠ memp.name then .error .unregisterMemName
    else if ¬ (entry.mrParam.base = memp.base ∧ entry.mrParam.size = memp.size) then
      .error .unregisterMemExtent
    else if entry.mrParam.immutable then .error .unregisterMemImmutable
    else .ok (0, { s with
      mmioRbRoot := T.removeNode entry s.mmioRbRoot
      mmioHint := if s.mmioHint = some entry then none else s.mmioHint })

/-- The entry `access_memory` hands to its callback, `none` for `ESRCH`. -/
def accessMemory (s : Mmio T) (paddr : Nat) : Option (MmioRbRange ν η α) × Mmio T :=
  match s.mmioHint.filter fun e => decide (e.span.Covers paddr) with
  | some entry => (some entry, s)
  | none =>
    match mmioRbLookup s.mmioRbRoot paddr with
    | some entry => (some entry, { s with mmioHint := some entry })
    | none => (mmioRbLookup s.mmioRbFallback paddr, s)

/-- The same selection without the cache: root tree first, then the fallback tree. -/
def uncachedLookup (s : Mmio T) (paddr : Nat) : Option (MmioRbRange ν η α) :=
  (mmioRbLookup s.mmioRbRoot paddr).or (mmioRbLookup s.mmioRbFallback paddr)

def dispatch (s : Mmio T) (paddr : Nat) : Option (MmioRbRange ν η α) := (s.accessMemory paddr).1

def live (s : Mmio T) : List (MmioRbRange ν η α) :=
  T.nodes s.mmioRbRoot ++ T.nodes s.mmioRbFallback

end Mmio

/-- A call into `mem.c`. `emulate_mem` and `read_mem` both come down to
`access_memory`, which touches nothing once it has called the handler: the calls
a handler makes are the calls that follow the access. -/
inductive Call (ν η α : Type) where
  | registerMem (memp : MemRange ν η α) (malloc : Option Ptr)
  | registerMemFallback (memp : MemRange ν η α) (malloc : Option Ptr)
  | unregisterMem (memp : MemRange ν η α)
  | accessMemory (paddr : Nat)

namespace Call

def step (s : Mmio T) : Call ν η α → Except Fault (Mmio T)
  | registerMem memp malloc => .ok (s.registerMem memp malloc).2
  | registerMemFallback memp malloc => .ok (s.registerMemFallback memp malloc).2
  | unregisterMem memp => (s.unregisterMem memp).map Prod.snd
  | accessMemory paddr => .ok (s.accessMemory paddr).2

def Fresh (s : Mmio T) : Call ν η α → Prop
  | registerMem _ malloc | registerMemFallback _ malloc =>
    ∀ p, malloc = some p → ∀ e ∈ s.live, e.ptr ≠ p
  | _ => True

def NoWrap : Call ν η α → Prop
  | registerMem memp _ | registerMemFallback memp _ => memp.NoWrap
  | _ => True

end Call

/-- Runs of calls in which no assertion fails. -/
inductive Run : Mmio T → List (Call ν η α) → Mmio T → Prop
  | nil (s : Mmio T) : Run s [] s
  | cons {s s' s'' : Mmio T} {c : Call ν η α} {cs : List (Call ν η α)} :
      c.Fresh s → c.step s = .ok s' → Run s' cs s'' → Run s (c :: cs) s''

end DeviceModel.Mem

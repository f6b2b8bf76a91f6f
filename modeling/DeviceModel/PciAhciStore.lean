import DeviceModel.Lib.Replay
import DeviceModel.PciAhciData

/-!
# The disk as a store

Commands to read and write, carried out one after another, leave the disk as a store would be: what a
command writes is stored, what a command reads is what the store holds, and however a command is cut
into requests cannot be told.
-/

set_option autoImplicit false

namespace DeviceModel.PciAhci

open Fallible BlockIf ScatterGather Replay

def diskOf (m : Memory) : Fin 0x0d000000 → BitVec 8 := fun k => m (diskBase + BitVec.ofNat 64 k)

/-- What a command shows of the store: a write takes the guest's data when it begins, and a read has
put the data there when it ends. -/
def Port.access (s : Port) (slot : Slot) (cfis : BitVec 64) (m m' : Memory) : Access (BitVec 8) :=
  if s.cfisByte cfis 2 ∈ writeCmds then .write (s.rwOffset cfis).toNat ((s.buffer slot cfis).map m)
  else .read (s.rwOffset cfis).toNat ((s.buffer slot cfis).map m')

/-- Commands are carried out one after another. What else happens leaves the disk alone, and while a
command is carried out its buffer too. -/
inductive Session : List (Access (BitVec 8)) → Memory → Memory → Prop
  | done (m : Memory) : Session [] m m
  | command {s : Port} {slot : Slot} {cfis : BitVec 64} {F : Set (BitVec 64)} {as : List (Access (BitVec 8))}
      {m m' m'' : Memory} (hWell : s.WellFormed slot cfis) (hBuffer : ∀ a ∈ s.buffer slot cfis, a ∈ F)
      (hDisk : ∀ k < 0x0d000000, diskBase + BitVec.ofNat 64 k ∈ F) (h : Transfer s slot cfis F 0 m m')
      (hRest : Session as m' m'') : Session (s.access slot cfis m m' :: as) m m''
  | other {as : List (Access (BitVec 8))} {m m' m'' : Memory} (hSpares : diskOf m' = diskOf m)
      (hRest : Session as m' m'') : Session as m m''

section Commands

variable {s : Port} {slot : Slot} {cfis : BitVec 64} {F : Set (BitVec 64)} {m m' : Memory}

theorem holds_sectors (hWell : s.WellFormed slot cfis) {vs : List (BitVec 8)}
    (hData : (s.sectors cfis).map m = vs) : Holds (diskOf m) (s.rwOffset cfis).toNat vs := by
  have hEnd := hWell.onDisk
  subst hData
  rw [Port.sectors_eq]
  intro i hi
  rw [List.length_map, List.length_map, List.length_range] at hi
  refine ⟨by omega, ?_⟩
  rw [List.getElem_map, List.getElem_map, List.getElem_range, diskOf]

theorem command_replays (hWell : s.WellFormed slot cfis) (hBuffer : ∀ a ∈ s.buffer slot cfis, a ∈ F)
    (hDisk : ∀ k < 0x0d000000, diskBase + BitVec.ofNat 64 k ∈ F) (h : Transfer s slot cfis F 0 m m') :
    Replays (diskOf m) [s.access slot cfis m m'] (diskOf m') := by
  have hEnd := hWell.onDisk
  have hLength := hWell.length_buffer
  have hSpared : ∀ a ∈ s.buffer slot cfis ++ s.sectors cfis, a ∈ F := by
    intro a ha
    rw [Port.sectors_eq] at ha
    obtain ha | ha := List.mem_append.mp ha
    · exact hBuffer a ha
    · obtain ⟨k, hk, rfl⟩ := List.mem_map.mp ha
      have hLess := List.mem_range.mp hk
      exact hDisk _ (by omega)
  obtain ⟨hArrived, hKept⟩ := transfer_arrives hWell hSpared h
  unfold Port.dest at hArrived hKept
  unfold Port.source at hArrived
  unfold Port.access
  by_cases hWrite : s.cfisByte cfis 2 ∈ writeCmds
  · rw [if_pos hWrite] at hArrived hKept ⊢
    rw [if_pos hWrite] at hArrived
    refine ⟨by rw [List.length_map]; omega, ?_⟩
    apply eq_overwrite (holds_sectors hWell hArrived)
    intro k hElse
    rw [List.length_map, hLength] at hElse
    apply hKept _ (hDisk k k.isLt)
    rw [Port.sectors_eq]
    intro hMem
    obtain ⟨j, hj, hEq⟩ := List.mem_map.mp hMem
    have hLess := List.mem_range.mp hj
    have hSame := congrArg BitVec.toNat hEq
    rw [Port.toNat_disk (by omega), Port.toNat_disk k.isLt] at hSame
    omega
  · rw [if_neg hWrite] at hArrived hKept ⊢
    rw [if_neg hWrite] at hArrived
    refine ⟨holds_sectors hWell hArrived.symm, ?_⟩
    funext k
    exact hKept _ (hDisk k k.isLt) (hWell.disk_notMem_buffer k.isLt)

end Commands

theorem Session.replays {as : List (Access (BitVec 8))} {m m' : Memory} (h : Session as m m') :
    Replays (diskOf m) as (diskOf m') := by
  induction h with
  | done m => rfl
  | command hWell hBuffer hDisk h hRest ih =>
    exact replays_append.mpr ⟨_, command_replays hWell hBuffer hDisk h, ih⟩
  | other hSpares hRest ih =>
    rw [hSpares] at ih
    exact ih

/-- However commands are cut into requests, and whatever goes on in between, the disk is a store: the
accesses of a session can be replayed on what the disk held before it, and so a command reads from a
byte what was last written to it. -/
theorem session_stores {as : List (Access (BitVec 8))} {m m' : Memory} (h : Session as m m') :
    Replays (diskOf m) as (diskOf m') ∧
      ∀ pre off vs mid off' vs' post, as = pre ++ .write off vs :: (mid ++ .read off' vs' :: post) →
        ∀ (i j : Nat) (hi : i < vs.length) (hj : j < vs'.length), off + i = off' + j →
          (∀ a ∈ mid, ¬ a.Writes (off + i)) → vs'[j] = vs[i] := by
  refine ⟨h.replays, ?_⟩
  rintro pre off vs mid off' vs' post rfl i j hi hj hCell hElse
  exact h.replays.readsBack hi hj hCell hElse

/-- A sector is written from a buffer in which each byte holds the low byte of its address, the buffer
is cleared, and the sector is read again. -/
theorem session_stores_sector : ∃ m m₁ m₂ m₃, (∀ a, m a = a.setWidth 8) ∧
    (∀ a ∈ (sectorCmd ATA_READ_DMA48 5).buffer 0 0x100, m₂ a = 0) ∧
      Session [(sectorCmd ATA_WRITE_DMA48 5).access 0 0x100 m m₁,
        (sectorCmd ATA_READ_DMA48 5).access 0 0x100 m₂ m₃] m m₃ ∧
      ((sectorCmd ATA_READ_DMA48 5).buffer 0 0x100).map m₃ =
        ((sectorCmd ATA_WRITE_DMA48 5).buffer 0 0x100).map m := by
  obtain ⟨m, hBytes⟩ : ∃ m : Memory, ∀ a, m a = a.setWidth 8 := ⟨_, fun _ => rfl⟩
  have hWrite : (sectorCmd ATA_WRITE_DMA48 5).cfisByte 0x100 2 ∈ writeCmds := by decide +kernel
  have hRead : (sectorCmd ATA_READ_DMA48 5).cfisByte 0x100 2 ∉ writeCmds := by decide +kernel
  have hOffset : (sectorCmd ATA_WRITE_DMA48 5).rwOffset 0x100 =
      (sectorCmd ATA_READ_DMA48 5).rwOffset 0x100 := by decide +kernel
  have hLen : (sectorCmd ATA_READ_DMA48 5).rwLen 0x100 = (sectorCmd ATA_WRITE_DMA48 5).rwLen 0x100 := by
    decide +kernel
  have hWell := @sectorCmd_wellFormed ATA_READ_DMA48 (.inl rfl)
  have hWell' := @sectorCmd_wellFormed ATA_WRITE_DMA48 (.inr rfl)
  obtain ⟨m₁, h₁⟩ := @sectorCmd_transfers ATA_WRITE_DMA48 (.inr rfl) Set.univ m
  obtain ⟨m₂, hCleared⟩ : ∃ m₂ : Memory, ∀ a, m₂ a =
      if a ∈ (sectorCmd ATA_READ_DMA48 5).buffer 0 0x100 then 0 else m₁ a := ⟨_, fun _ => rfl⟩
  obtain ⟨m₃, h₃⟩ := @sectorCmd_transfers ATA_READ_DMA48 (.inl rfl) Set.univ m₂
  have hSpares : diskOf m₂ = diskOf m₁ := by
    funext k
    have hElse := hWell.disk_notMem_buffer k.isLt
    rw [diskOf, diskOf, hCleared, if_neg hElse]
  have hSession : Session [(sectorCmd ATA_WRITE_DMA48 5).access 0 0x100 m m₁,
      (sectorCmd ATA_READ_DMA48 5).access 0 0x100 m₂ m₃] m m₃ :=
    .command hWell' (fun a _ => Set.mem_univ a) (fun k _ => Set.mem_univ _) h₁
      (.other hSpares (.command hWell (fun a _ => Set.mem_univ a) (fun k _ => Set.mem_univ _) h₃ (.done m₃)))
  refine ⟨m, m₁, m₂, m₃, hBytes, fun a ha => by rw [hCleared, if_pos ha], hSession, ?_⟩
  have hStores := (session_stores hSession).2
  rw [Port.access, if_pos hWrite, Port.access, if_neg hRead, hOffset] at hStores
  apply List.ext_getElem
  · rw [List.length_map, List.length_map, hWell.length_buffer, hWell'.length_buffer, hLen]
  · intro i hi hj
    exact hStores [] _ _ [] _ _ [] rfl i i hj hi rfl (fun a ha => absurd ha List.not_mem_nil)

end DeviceModel.PciAhci

import DeviceModel.PciAhciCommand

/-!
# The geometry of a disk

`blockif_chs` computes cylinders, heads and sectors per track in integers of 8 and 16
bits. They are those of the same algorithm in unbounded integers: where the heads do
not fit into 8 bits, either value leads to a geometry with 16 heads.
-/

set_option autoImplicit false

namespace DeviceModel.PciAhci.Port

def chsSectors (size sectsz : Nat) : Nat := min (size / sectsz) (65535 * 16 * 255)

def vhdHeads (sectors : Nat) : Nat := max ((sectors / 17 + 1023) / 1024) 4

/-- Cylinders, heads and sectors per track with the thresholds of the source (65536 * 16 * 63 the first
of them), in unbounded integers. -/
def vhdChs (sectors : Nat) : Nat × Nat × Nat :=
  if 65536 * 16 * 63 ≤ sectors then (sectors / 255 / 16, 16, 255)
  else if sectors / 17 < vhdHeads sectors * 1024 ∧ vhdHeads sectors ≤ 16 then
    (sectors / 17 / vhdHeads sectors, vhdHeads sectors, 17)
  else if sectors / 31 < 16 * 1024 then (sectors / 31 / 16, 16, 31)
  else (sectors / 63 / 16, 16, 63)

structure ChsFits (sectors cyl heads secpt : Nat) : Prop where
  headsLow : 4 ≤ heads
  headsHigh : heads ≤ 16
  cylMax : cyl ≤ 65535
  secptMax : secpt ≤ 255
  within : cyl * heads * secpt ≤ sectors
  short : sectors < cyl * heads * secpt + heads * secpt

/-- Rounding down to whole tracks and then to whole cylinders loses less than a cylinder. -/
theorem ChsFits.of_div {sectors heads secpt : Nat} (hHeads : 4 ≤ heads ∧ heads ≤ 16)
    (hSecpt : 0 < secpt ∧ secpt ≤ 255) (hCyl : sectors / secpt < 65536 * heads) :
    ChsFits sectors (sectors / secpt / heads) heads secpt := by
  have hPos : 0 < heads := by omega
  have hTracks : sectors / secpt / heads * heads ≤ sectors / secpt := Nat.div_mul_le_self _ _
  have hNext : sectors / secpt + 1 ≤ sectors / secpt / heads * heads + heads := by
    have hDiv := Nat.div_add_mod (sectors / secpt) heads
    have hMod := Nat.mod_lt (sectors / secpt) hPos
    rw [Nat.mul_comm] at hDiv
    omega
  refine ⟨hHeads.1, hHeads.2, ?_, hSecpt.2, ?_, ?_⟩
  · exact Nat.le_of_lt_succ ((Nat.div_lt_iff_lt_mul hPos).mpr hCyl)
  · calc
      sectors / secpt / heads * heads * secpt ≤ sectors / secpt * secpt :=
        Nat.mul_le_mul_right _ hTracks
      _ ≤ sectors := Nat.div_mul_le_self _ _
  · have hLess : sectors < (sectors / secpt + 1) * secpt := by
      rw [← Nat.div_lt_iff_lt_mul hSecpt.1]
      exact Nat.lt_succ_self _
    calc
      sectors < (sectors / secpt + 1) * secpt := hLess
      _ ≤ (sectors / secpt / heads * heads + heads) * secpt := Nat.mul_le_mul_right _ hNext
      _ = sectors / secpt / heads * heads * secpt + heads * secpt := Nat.add_mul _ _ _

theorem vhdChs_fits {sectors : Nat} (hMax : sectors ≤ 65535 * 16 * 255) :
    ChsFits sectors (vhdChs sectors).1 (vhdChs sectors).2.1 (vhdChs sectors).2.2 := by
  unfold vhdChs
  split
  · exact .of_div ⟨by decide, by decide⟩ ⟨by decide, by decide⟩ (by omega)
  split
  · next hFew =>
    have hHeads : 4 ≤ vhdHeads sectors := le_max_right _ _
    exact .of_div ⟨hHeads, hFew.2⟩ ⟨by decide, by decide⟩ (by omega)
  split
  · exact .of_div ⟨by decide, by decide⟩ ⟨by decide, by decide⟩ (by omega)
  · exact .of_div ⟨by decide, by decide⟩ ⟨by decide, by decide⟩ (by omega)

/-- Heads that do not fit into 8 bits are too few for the tracks, once they are cut down. -/
theorem wrapped_heads (tracks : Nat) (h : 256 ≤ (tracks + 1023) / 1024) :
    max ((tracks + 1023) / 1024 % 256) 4 * 1024 ≤ tracks := by
  omega

/-- The width of `heads` decides no branch. -/
theorem few_heads_iff (sectors : Nat) :
    max ((sectors / 17 + 1023) / 1024 % 256) 4 * 1024 ≤ sectors / 17 ∨
        16 < max ((sectors / 17 + 1023) / 1024 % 256) 4 ↔
      ¬ (sectors / 17 < vhdHeads sectors * 1024 ∧ vhdHeads sectors ≤ 16) := by
  unfold vhdHeads
  by_cases hWide : 256 ≤ (sectors / 17 + 1023) / 1024
  · have hWrapped := wrapped_heads (sectors / 17) hWide
    refine iff_of_true (.inl hWrapped) ?_
    omega
  · rw [Nat.mod_eq_of_lt (Nat.not_le.mp hWide)]
    omega

theorem vhdHeads_eq {sectors : Nat} (hFew : vhdHeads sectors ≤ 16) :
    max ((sectors / 17 + 1023) / 1024 % 256) 4 = vhdHeads sectors := by
  unfold vhdHeads at hFew ⊢
  rw [Nat.mod_eq_of_lt (by omega)]

/-- The geometry is that of the algorithm in unbounded integers, and it fits the disk. -/
theorem blockifChs_eq (size sectsz : Nat) :
    blockifChs size sectsz = vhdChs (chsSectors size sectsz) ∧
      ChsFits (chsSectors size sectsz) (blockifChs size sectsz).1 (blockifChs size sectsz).2.1
        (blockifChs size sectsz).2.2 := by
  have hMax : chsSectors size sectsz ≤ 65535 * 16 * 255 := Nat.min_le_right _ _
  have hFits := vhdChs_fits hMax
  have hEq : blockifChs size sectsz = ((vhdChs (chsSectors size sectsz)).1 % 65536,
      (vhdChs (chsSectors size sectsz)).2.1, (vhdChs (chsSectors size sectsz)).2.2 % 256) := by
    unfold blockifChs
    rw [show min (size / sectsz) (65535 * 16 * 255) = chsSectors size sectsz from rfl]
    generalize chsSectors size sectsz = sectors
    have hWidth := few_heads_iff sectors
    unfold vhdChs
    dsimp only
    by_cases hHuge : 65536 * 16 * 63 ≤ sectors
    · rw [if_pos hHuge, if_pos hHuge]
    rw [if_neg hHuge, if_neg hHuge]
    by_cases hFew : sectors / 17 < vhdHeads sectors * 1024 ∧ vhdHeads sectors ≤ 16
    · rw [if_pos hFew, if_neg (hWidth.not.mpr (not_not.mpr hFew)), vhdHeads_eq hFew.2]
      dsimp only
      rw [if_neg (Nat.not_le.mpr hFew.1)]
    rw [if_neg hFew, if_pos (hWidth.mpr hFew)]
    dsimp only
    by_cases hSmall : sectors / 31 < 16 * 1024
    · rw [if_pos hSmall, if_neg (Nat.not_le.mpr hSmall)]
    · rw [if_neg hSmall, if_pos (Nat.not_lt.mp hSmall)]
  have hSame : blockifChs size sectsz = vhdChs (chsSectors size sectsz) := by
    have hCyl := Nat.mod_eq_of_lt (Nat.lt_succ_of_le hFits.cylMax)
    have hSecpt := Nat.mod_eq_of_lt (Nat.lt_succ_of_le hFits.secptMax)
    rw [hEq, hCyl, hSecpt]
  rw [hSame]
  exact ⟨rfl, hFits⟩

/-- A disk of 4 GiB, whose heads at 17 sectors per track do not fit into 8 bits. -/
example : blockifChs (4 * 2 ^ 30) 512 = (8322, 16, 63) := by decide

end DeviceModel.PciAhci.Port

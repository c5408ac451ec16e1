import Zso.Tape.Device
import Zso.Tape.Planner

/-!
# Sectors, tapes and blocks

The disk is addressed in sectors of 512 bytes, a tape in blocks of `512 * 2 ^ b` bytes.
`calc_start_pos_within_section` divides the number of a sector by the number of blocks of a tape.

* `sector_map_iff`: the disk is laid out over the tapes block by block if and only if the blocks
  have 512 bytes. With larger ones only sector 0 is found where it belongs (`calcStartPos_place`).
* `sector_map_wrong`: with 1024-byte blocks, sector 2 is looked for at block 2 and not at block 1.
-/

namespace Zso.Tape
open Bits

/-- A sector of the disk at which a block starts. -/
def SectionInfo.OnDisk (info : SectionInfo) (s : Nat) : Prop :=
  info.blkSize / 512 ∣ s ∧ s < info.sectors

/-- Where sector `s` belongs: the block on the tape, and the tape. -/
def SectionInfo.place (info : SectionInfo) (s : Nat) : Nat × Nat :=
  (512 * s % sizeOfTape info.sectionType / info.blkSize, 512 * s / sizeOfTape info.sectionType + 1)

/-- The blocks of all tapes. -/
def SectionInfo.places (info : SectionInfo) : Set (Nat × Nat) :=
  {p | p.1 < info.blocksInTape ∧ 1 ≤ p.2 ∧ p.2 ≤ info.nTapes}

/-- An idle section of this geometry with a loaded tape starts a FAST_FWD by `n` blocks. -/
def SectionInfo.AcceptsFastFwd (info : SectionInfo) (n : Nat) : Prop :=
  ∀ (β : Type) (s : Aacc β) (dAadg : Nat), s.aadg = .idle → dAadg ≠ 4 → s.aaaa ≠ 0 →
    s.aaac = info.blkType → s.aaae = info.sectionType →
    aabm dAadg s (createTapedevCmd CMD_FAST_FWD n 0) = aabd { s with aaaj := n } .ffwd

section
variable {info : SectionInfo} {s : Nat}

theorem blkSize_eq (info : SectionInfo) : info.blkSize = 2 ^ info.blkType * 512 := by
  rw [SectionInfo.blkSize, getBlockSize, Nat.shiftLeft_eq, one_mul]

theorem sizeOfTape_eq (info : SectionInfo) :
    sizeOfTape info.sectionType = info.blkSize * info.blocksInTape := by
  have hb := info.blk_le
  have hdvd : 2 ^ info.blkType ∣ 2 ^ info.sectionType * 512 :=
    Dvd.dvd.mul_left (pow_dvd_pow 2 (by omega : info.blkType ≤ 9)) _
  have hmul := Nat.mul_div_cancel' hdvd
  rw [blocksInTape_eq, blkSize_eq, Nat.mul_right_comm, hmul, sizeOfTape, Nat.shiftLeft_eq, one_mul,
    show BASE_TAPE_SIZE = 512 * 512 from rfl, Nat.mul_assoc]

/-- Sectors per block. -/
theorem onDisk_iff : info.OnDisk s ↔ 2 ^ info.blkType ∣ s ∧ s < info.sectors := by
  rw [SectionInfo.OnDisk, blkSize_eq, Nat.mul_div_cancel _ (by decide)]

/-- The place of the sector where block `k` of the disk starts. -/
theorem place_mul (info : SectionInfo) (k : Nat) :
    info.place (2 ^ info.blkType * k) = (k % info.blocksInTape, k / info.blocksInTape + 1) := by
  have hpos : 0 < info.blkSize := by
    rw [blkSize_eq]
    positivity
  have hbytes : 512 * (2 ^ info.blkType * k) = info.blkSize * k := by
    rw [blkSize_eq]
    ring
  rw [SectionInfo.place, hbytes, sizeOfTape_eq, Nat.mul_mod_mul_left, Nat.mul_div_cancel_left _ hpos,
    Nat.mul_div_mul_left _ _ hpos]

/-- A sector is looked for where it belongs only in the cases where both units agree. -/
theorem calcStartPos_place (h : info.OnDisk s) :
    calcStartPosWithinSection s info = some (info.place s) ↔ info.blkType = 0 ∨ s = 0 := by
  obtain ⟨⟨k, rfl⟩, hlt⟩ := onDisk_iff.mp h
  rw [calcStartPos_eq hlt, place_mul, Option.some.injEq, Prod.mk.injEq]
  constructor
  · rintro ⟨hmod, hdiv⟩
    have hk : 2 ^ info.blkType * k = k := by
      rw [← Nat.div_add_mod (2 ^ info.blkType * k) info.blocksInTape, hmod, Nat.succ_inj.mp hdiv,
        Nat.div_add_mod]
    rcases Nat.eq_zero_or_pos k with rfl | hpos
    · exact .inr (Nat.mul_zero _)
    · left
      have hone : 2 ^ info.blkType = 1 := Nat.eq_of_mul_eq_mul_right hpos (by rw [hk, one_mul])
      simpa using hone
  · rintro (hb | hz)
    · rw [hb, pow_zero, one_mul]
      exact ⟨rfl, rfl⟩
    · have hk : k = 0 := by simpa using hz
      rw [hk, Nat.mul_zero]
      exact ⟨rfl, rfl⟩

/-- The argument of FAST_FWD is a block of a tape, whatever the units. -/
theorem calcStartPos_accepted {p : Nat × Nat} (h : calcStartPosWithinSection s info = some p) :
    info.AcceptsFastFwd p.1 := by
  have hT := blocksInTape_range info
  have hlt : p.1 < info.blocksInTape := by
    by_cases hs : s < info.sectors
    · rw [calcStartPos_eq hs, Option.some.injEq] at h
      rw [← h]
      exact Nat.mod_lt _ (by omega)
    · rw [calcStartPos_none (not_lt.mp hs)] at h
      cases h
  intro β a dAadg hidle hd htape hac hae
  have hcmd : fieldCmd (createTapedevCmd CMD_FAST_FWD p.1 0) = CMD_FAST_FWD :=
    fieldCmd_encode (.fastFwd p.1)
  have harg : fieldArg (createTapedevCmd CMD_FAST_FWD p.1 0) = p.1 := fieldArg_fastFwd (by omega)
  have hsize : a.tapeSize / a.blockSize = info.blocksInTape := by
    have htape : a.tapeSize = sizeOfTape info.sectionType := by
      rw [Aacc.tapeSize, hae, sizeOfTape, show BASE_TAPE_SIZE = 32 * 8192 from rfl]
      ring
    have hblock : a.blockSize = info.blkSize := by
      rw [Aacc.blockSize, hac, blkSize_eq, Nat.shiftLeft_eq, one_mul, pow_add]
      ring
    rw [htape, hblock]
    rfl
  simp only [aabm, hidle, ne_eq, not_true_eq_false, if_false, hd, hcmd, harg, needsTape, htape,
    hsize]
  rw [if_neg (by omega)]

/-- With 512-byte blocks each block of each tape has one sector. -/
theorem calcStartPos_bijOn (hb : info.blkType = 0) :
    Set.BijOn (fun s => calcStartPosWithinSection s info) {s | info.OnDisk s}
      (Set.image some info.places) := by
  have hT : 0 < info.blocksInTape := by
    have := (blocksInTape_range info).1
    omega
  have hdisk : ∀ s, info.OnDisk s ↔ s < info.blocksInTape * info.nTapes := fun s => by
    rw [onDisk_iff, hb, sectors_512 hb]
    simp
  have hcalc : ∀ s, s < info.blocksInTape * info.nTapes →
      calcStartPosWithinSection s info =
        some (s % info.blocksInTape, s / info.blocksInTape + 1) := fun s hs =>
    calcStartPos_eq (by rwa [sectors_512 hb])
  refine ⟨fun s hs => ?_, fun s hs t ht heq => ?_, ?_⟩
  · have hs' := (hdisk s).mp hs
    exact ⟨(s % info.blocksInTape, s / info.blocksInTape + 1),
      ⟨Nat.mod_lt _ hT, Nat.le_add_left _ _, Nat.div_lt_of_lt_mul hs'⟩, (hcalc s hs').symm⟩
  · simp only [hcalc s ((hdisk s).mp hs), hcalc t ((hdisk t).mp ht), Option.some.injEq,
      Prod.mk.injEq] at heq
    rw [← Nat.div_add_mod s info.blocksInTape, ← Nat.div_add_mod t info.blocksInTape, heq.1,
      Nat.succ_inj.mp heq.2]
  · rintro _ ⟨⟨pos, tape⟩, ⟨hpos, hone, hle⟩, rfl⟩
    obtain ⟨t, rfl⟩ := Nat.exists_eq_add_of_le' hone
    have hlt : info.blocksInTape * t + pos < info.blocksInTape * info.nTapes :=
      calc info.blocksInTape * t + pos < info.blocksInTape * (t + 1) := by
            rw [Nat.mul_succ]
            exact Nat.add_lt_add_left hpos _
        _ ≤ info.blocksInTape * info.nTapes := Nat.mul_le_mul_left _ hle
    refine ⟨info.blocksInTape * t + pos, (hdisk _).mpr hlt, ?_⟩
    show calcStartPosWithinSection _ info = _
    rw [hcalc _ hlt, Nat.mul_add_mod, Nat.mod_eq_of_lt hpos, Nat.mul_add_div hT,
      Nat.div_eq_of_lt hpos, Nat.add_zero]

end

/-- Every sector at which a block starts is found on the right tape and block, the sectors and the
blocks of all tapes correspond one to one, and the device accepts the FAST_FWD to it, if and only if
the blocks have 512 bytes. -/
theorem sector_map_iff (info : SectionInfo) :
    ((∀ s, info.OnDisk s → calcStartPosWithinSection s info = some (info.place s)) ∧
      Set.BijOn (fun s => calcStartPosWithinSection s info) {s | info.OnDisk s}
        (Set.image some info.places) ∧
      ∀ s p, info.OnDisk s → calcStartPosWithinSection s info = some p →
        info.AcceptsFastFwd p.1) ↔
    info.blkType = 0 := by
  constructor
  · rintro ⟨hplace, -⟩
    have hdisk : info.OnDisk (2 ^ info.blkType) := by
      rw [onDisk_iff, sectors_eq]
      refine ⟨dvd_rfl, ?_⟩
      have hb : 2 ^ info.blkType ≤ 2 ^ 4 := Nat.pow_le_pow_right (by decide) info.blk_le
      have ht : 1 ≤ 2 ^ info.sectionType := Nat.one_le_two_pow
      have hn := info.tapes_pos
      nlinarith [Nat.mul_le_mul ht hn]
    exact ((calcStartPos_place hdisk).mp (hplace _ hdisk)).resolve_right (by positivity)
  · intro hb
    exact ⟨fun s hs => (calcStartPos_place hs).mpr (.inl hb), calcStartPos_bijOn hb,
      fun s p _ hp => calcStartPos_accepted hp⟩

/-- Two tapes with blocks of 1024 bytes. -/
def twoTapes1024 : SectionInfo := { twoTapes with blkType := 1, blk_le := by decide }

/-- Sector 2 is the second block of the first tape, and is looked for at the third. -/
theorem sector_map_wrong :
    twoTapes1024.OnDisk 2 ∧ twoTapes1024.place 2 = (1, 1) ∧
      calcStartPosWithinSection 2 twoTapes1024 = some (2, 1) := by
  refine ⟨⟨?_, ?_⟩, ?_, ?_⟩ <;> decide

end Zso.Tape

import Zso.Tape.Command

/-!
# The request planner of the driver

`calc_start_pos_within_section`, `create_start_pos_setup_cmds` and the part of
`do_scatter_gather` that runs before the section lock is taken: it writes the
page table and collects the request's commands on a private list.

Allocation is an oracle `oom`: `oom k` says that the `k`-th node of the private
list cannot be allocated. `dma_map_sg` has already run: its result is the list
of segments, and an empty list is its failure. An error carries the state the
function leaves behind, since the page table and the nodes on the private list
are not taken back.
-/

namespace Zso.Tape
open Bits

/-- The part of `struct section` that is fixed when the section is created. The
device accepts tape types up to 4, block types up to 4 and at most 10000 tapes. -/
structure SectionInfo where
  sectionType : Nat
  nTapes : Nat
  blkType : Nat
  type_le : sectionType ≤ 4
  tapes_pos : 0 < nTapes
  tapes_le : nTapes ≤ 10000
  blk_le : blkType ≤ 4
deriving DecidableEq

/-- Two of the smallest tapes, of 512 blocks each. -/
def twoTapes : SectionInfo := ⟨0, 2, 0, by decide, by decide, by decide, by decide⟩

/-- `SIZE_OF_TAPE` -/
def sizeOfTape (sType : Nat) : Nat := (1 <<< sType) * BASE_TAPE_SIZE

/-- `GET_BLOCK_SIZE` -/
def getBlockSize (blkType : Nat) : Nat := (1 <<< blkType) * 512

/-- `GET_TOTAL_NBR_OF_512B_SECTORS` -/
def getTotalNbrOf512bSectors (sType nTapes : Nat) : Nat := u32 (sizeOfTape sType / 512 * nTapes)

/-- `GET_NBR_OF_BLOCKS_IN_TAPE` -/
def getNbrOfBlocksInTape (sType blkSize : Nat) : Nat := sizeOfTape sType / blkSize

/-- `sec->blk_size` -/
def SectionInfo.blkSize (info : SectionInfo) : Nat := getBlockSize info.blkType

/-- `blocks_in_tape` -/
def SectionInfo.blocksInTape (info : SectionInfo) : Nat :=
  getNbrOfBlocksInTape info.sectionType info.blkSize

/-- The capacity in 512-byte sectors. -/
def SectionInfo.sectors (info : SectionInfo) : Nat :=
  getTotalNbrOf512bSectors info.sectionType info.nTapes

/-- One mapped scatterlist entry: `sg_dma_address` and `sg_dma_len`. -/
structure Seg where
  addr : Nat
  len : Nat
deriving DecidableEq, Repr

/-- The fields of `struct section_cmd` that the driver sets and reads. -/
structure SectionCmd where
  cmd : Nat
  isIoctl : Bool
deriving DecidableEq, Repr

/-- `calc_start_pos_within_section`: the start sector within the tape and the
tape number, or `none` for `-EINVAL`. -/
def calcStartPosWithinSection (startSector : Nat) (info : SectionInfo) : Option (Nat × Nat) :=
  if startSector ≥ getTotalNbrOf512bSectors info.sectionType info.nTapes then none
  else
    let tapeSectors := sizeOfTape info.sectionType / info.blkSize
    let tapeNbr := u32 (startSector / tapeSectors)
    let startSectorWithinTape := u32 (startSector - u32 (tapeNbr * tapeSectors))
    some (startSectorWithinTape, u32 (tapeNbr + 1))

/-- `enqueue_new_cmd`: `none` when the node cannot be allocated. -/
def enqueueNewCmd (oom : Nat → Bool) (cmd : Nat) (lst : List SectionCmd) :
    Option (List SectionCmd) :=
  if oom lst.length then none else some (lst ++ [⟨cmd, false⟩])

/-- A row of `enqueue_new_cmd` calls, each of which stops at a failed
allocation. The error is the list reached by then. -/
def enqueueCmds (oom : Nat → Bool) (lst : List SectionCmd) :
    List Nat → Except (List SectionCmd) (List SectionCmd)
  | [] => .ok lst
  | cmd :: cmds =>
    match enqueueNewCmd oom cmd lst with
    | none => .error lst
    | some lst' => enqueueCmds oom lst' cmds

/-- `create_start_pos_setup_cmds`. On a failed allocation the list is freed, so
the error leaves no node behind. -/
def createStartPosSetupCmds (oom : Nat → Bool) (startSector : Nat) (info : SectionInfo) :
    Except Int (List SectionCmd) :=
  (calcStartPosWithinSection startSector info).elim (.error (-EINVAL))
    fun (startSectorWithinTape, tapeNbr) =>
      match enqueueCmds oom []
        [createTapedevCmd CMD_EJECT_TAPE 0 0,
         createTapedevCmd CMD_TAKE_TAPE tapeNbr 0,
         createTapedevCmd CMD_REWIND 0 0,
         createTapedevCmd CMD_FAST_FWD startSectorWithinTape 0] with
      | .error _ => .error (-ENOMEM)
      | .ok lst => .ok lst

/-! ## `do_scatter_gather` -/

/-- A page-table entry: `(addr >> 9) << 32 | blocks`, in 64 bits. -/
def pgtEntry (addr blocks : Nat) : Nat := u64 ((addr >>> 9) <<< 32) ||| blocks

/-- The variables of the segment loop. `pgtBuf` is `sec->cpu_dma_buf`, as an
unbounded array: an index from 512 on is outside the DMA page. -/
structure SgState where
  entId : Nat
  cmdStartPos : Nat
  cmdTotalBlocks : Nat
  blocksLeftInTape : Nat
  tapeNbr : Nat
  prevTapeNbr : Nat
  pgtBuf : Nat → Nat
  cmds : List SectionCmd

/-- The result of a planning step: the error status comes with the state left. -/
abbrev SgResult := Except (BlkStatus × SgState) SgState

/-- The calls `enqueue_new_cmd(cmd, cmd_lst_head)` of `do_scatter_gather`, which
return `BLK_STS_IOERR` on failure. -/
def SgState.enqueue (st : SgState) (oom : Nat → Bool) (cmds : List Nat) : SgResult :=
  match enqueueCmds oom st.cmds cmds with
  | .error lst => .error (.ioerr, { st with cmds := lst })
  | .ok lst => .ok { st with cmds := lst }

/-- `pgt_buf[ent_id] = ...` -/
def SgState.store (st : SgState) (addr blocks : Nat) : SgState :=
  { st with pgtBuf := Function.update st.pgtBuf st.entId (pgtEntry addr blocks) }

/-- The commands that change to `tape_nbr`, emitted at the start of the
iteration after the one that filled the previous tape. -/
def sgChangeTape (oom : Nat → Bool) (st : SgState) : SgResult :=
  if st.prevTapeNbr < st.tapeNbr then
    { st with prevTapeNbr := st.tapeNbr }.enqueue oom
      [createTapedevCmd CMD_EJECT_TAPE 0 0,
       createTapedevCmd CMD_TAKE_TAPE st.tapeNbr 0,
       createTapedevCmd CMD_REWIND 0 0]
  else .ok st

/-- The branch `cmd_total_blocks >= blocks_left_in_tape`: the segment fills the
tape, and what does not fit becomes a second entry. `total` is
`cmd_total_blocks` with the segment's blocks already added. `limit` is
`MAX_SG_PGT_ENTRIES`. -/
def sgFillTape (limit : Nat) (info : SectionInfo) (write : Bool) (oom : Nat → Bool) (sg : Seg)
    (total : Nat) (st : SgState) : SgResult :=
  let nbrOfBlocks := sg.len / info.blkSize
  let overflowBlocks := total - st.blocksLeftInTape
  let insertedBlocks := u64sub nbrOfBlocks overflowBlocks
  match (st.store sg.addr insertedBlocks).enqueue oom
      [createTapedevCmd (rwType write) st.cmdStartPos st.blocksLeftInTape] with
  | .error e => .error e
  | .ok st =>
    let st := { st with
      cmdStartPos := st.entId + 1
      cmdTotalBlocks := overflowBlocks
      blocksLeftInTape := info.blocksInTape
      tapeNbr := u32 (st.tapeNbr + 1) }
    if overflowBlocks ≠ 0 then
      let st := { st with entId := st.entId + 1 }
      if st.entId > limit then .error (.ioerr, st)
      else .ok (st.store (sg.addr + insertedBlocks * info.blkSize) overflowBlocks)
    else .ok st

/-- One iteration of `for_each_sg`. -/
def sgIter (limit : Nat) (info : SectionInfo) (write : Bool) (oom : Nat → Bool) (st : SgState)
    (sg : Seg) : SgResult :=
  if st.tapeNbr > info.nTapes then .error (.ioerr, st)
  else
    match sgChangeTape oom st with
    | .error e => .error e
    | .ok st =>
      let nbrOfBlocks := sg.len / info.blkSize
      let total := u32 (st.cmdTotalBlocks + nbrOfBlocks)
      let placed :=
        if total ≥ st.blocksLeftInTape then sgFillTape limit info write oom sg total st
        else .ok ({ st with cmdTotalBlocks := total }.store sg.addr nbrOfBlocks)
      match placed with
      | .error e => .error e
      | .ok st => .ok { st with entId := st.entId + 1 }

/-- The segment loop. -/
def sgLoop (limit : Nat) (info : SectionInfo) (write : Bool) (oom : Nat → Bool) :
    SgState → List Seg → SgResult
  | st, [] => .ok st
  | st, sg :: sgs =>
    match sgIter limit info write oom st sg with
    | .error e => .error e
    | .ok st' => sgLoop limit info write oom st' sgs

/-- What the block layer hands to a submission besides the request: whether the
scatterlist can be allocated, which nodes cannot, and the mapped segments. -/
structure SgEnv where
  oom : Nat → Bool
  mainSg : Bool
  segs : List Seg

/-- `do_scatter_gather` up to the point where it takes the section lock. `cmds`
is the private list that holds the set-up commands. `limit` is
`MAX_SG_PGT_ENTRIES`, so that a table of another size can be looked at. -/
def doScatterGather (limit : Nat) (info : SectionInfo) (write : Bool) (env : SgEnv)
    (startSector : Nat) (pgtBuf : Nat → Nat) (cmds : List SectionCmd) : SgResult :=
  let st : SgState := ⟨0, 0, 0, 0, 0, 0, pgtBuf, cmds⟩
  (calcStartPosWithinSection startSector info).elim (.error (.inval, st))
    fun (startSectorWithinTape, tapeNbr) =>
    if env.mainSg = false then .error (.ioerr, st)
    else if env.segs.length = 0 then .error (.ioerr, st)
    else if env.segs.length > limit then .error (.ioerr, st)
    else
      let st := { st with
        blocksLeftInTape := info.blocksInTape - startSectorWithinTape
        tapeNbr := tapeNbr
        prevTapeNbr := tapeNbr }
      match sgLoop limit info write env.oom st env.segs with
      | .error e => .error e
      | .ok st =>
        if st.cmdTotalBlocks ≠ 0 then
          st.enqueue env.oom [createTapedevCmd (rwType write) st.cmdStartPos st.cmdTotalBlocks]
        else .ok st

/-- Branching on the outcome of a call. -/
def onOutcome {ε α γ : Type} (onError : ε → γ) (onOk : α → γ) : Except ε α → γ
  | .error e => onError e
  | .ok a => onOk a

theorem onOutcome_error {ε α γ : Type} (f : ε → γ) (g : α → γ) (e : ε) :
    onOutcome f g (.error e) = f e := rfl

theorem onOutcome_ok {ε α γ : Type} (f : ε → γ) (g : α → γ) (a : α) :
    onOutcome f g (.ok a) = g a := rfl

/-- The planning half of `submit_request_sg`: the set-up commands, then
`do_scatter_gather` on the same list. A failure of the former is reported as
`BLK_STS_IOERR`. -/
def planRequest (info : SectionInfo) (write : Bool) (env : SgEnv) (startSector : Nat)
    (pgtBuf : Nat → Nat) : SgResult :=
  onOutcome (fun _ => .error (.ioerr, ⟨0, 0, 0, 0, 0, 0, pgtBuf, []⟩))
    (doScatterGather MAX_SG_PGT_ENTRIES info write env startSector pgtBuf)
    (createStartPosSetupCmds env.oom startSector info)

/-! ## Geometry -/

/-- A power of two times 512 blocks of 512 bytes. -/
theorem blocksInTape_eq (info : SectionInfo) :
    info.blocksInTape = 2 ^ info.sectionType * 512 / 2 ^ info.blkType := by
  have hs : (2 : Nat) ^ info.sectionType * (32 * 8192) = 2 ^ info.sectionType * 512 * 512 := by ring
  simp only [SectionInfo.blocksInTape, getNbrOfBlocksInTape, sizeOfTape, SectionInfo.blkSize,
    getBlockSize, Nat.shiftLeft_eq, one_mul, BASE_TAPE_SIZE]
  rw [hs]
  exact Nat.mul_div_mul_right _ _ (by decide)

theorem blocksInTape_512 {info : SectionInfo} (hb : info.blkType = 0) :
    info.blocksInTape = 2 ^ info.sectionType * 512 := by
  rw [blocksInTape_eq, hb, pow_zero, Nat.div_one]

/-- With 512-byte blocks a tape has between 512 and 8192 blocks. -/
theorem blocksInTape_bounds {info : SectionInfo} (hb : info.blkType = 0) :
    512 ≤ info.blocksInTape ∧ info.blocksInTape ≤ 8192 := by
  have h := info.type_le
  rw [blocksInTape_512 hb]
  interval_cases info.sectionType <;> decide

theorem blkSize_512 {info : SectionInfo} (hb : info.blkType = 0) : info.blkSize = 512 := by
  simp [SectionInfo.blkSize, getBlockSize, hb]

/-- A tape has between 32 and 8192 blocks. -/
theorem blocksInTape_range (info : SectionInfo) :
    32 ≤ info.blocksInTape ∧ info.blocksInTape ≤ 8192 := by
  have ht := info.type_le
  have hb := info.blk_le
  rw [blocksInTape_eq]
  interval_cases info.sectionType <;> interval_cases info.blkType <;> decide

theorem sectors_eq (info : SectionInfo) :
    info.sectors = 2 ^ info.sectionType * 512 * info.nTapes := by
  have ht := info.type_le
  have hn := info.tapes_le
  have hT : 2 ^ info.sectionType * 512 ≤ 8192 := by interval_cases info.sectionType <;> decide
  have hlt : 2 ^ info.sectionType * 512 * info.nTapes < 2 ^ 32 := by nlinarith
  have hs : sizeOfTape info.sectionType / 512 = 2 ^ info.sectionType * 512 := by
    rw [sizeOfTape, Nat.shiftLeft_eq, one_mul, show BASE_TAPE_SIZE = 512 * 512 from rfl,
      ← Nat.mul_assoc, Nat.mul_div_cancel _ (by decide)]
  rw [SectionInfo.sectors, getTotalNbrOf512bSectors, hs, u32_of_lt hlt]

theorem sectors_512 {info : SectionInfo} (hb : info.blkType = 0) :
    info.sectors = info.blocksInTape * info.nTapes := by
  rw [sectors_eq, blocksInTape_512 hb]

/-- A sector below the capacity is looked for on tape `s / T + 1` at block `s % T`, when a
tape has `T` blocks. -/
theorem calcStartPos_eq {info : SectionInfo} {s : Nat} (hs : s < info.sectors) :
    calcStartPosWithinSection s info = some (s % info.blocksInTape, s / info.blocksInTape + 1) := by
  have hB := blocksInTape_range info
  have hT : sizeOfTape info.sectionType / info.blkSize = info.blocksInTape := rfl
  have hlt : s < 2 ^ 32 := hs.trans (Nat.mod_lt _ (by decide))
  have hdiv : s / info.blocksInTape < 2 ^ 32 - 1 := by
    have := Nat.div_le_div_left hB.1 (by decide : 0 < 32) (a := s)
    omega
  have hmul : s / info.blocksInTape * info.blocksInTape ≤ s := Nat.div_mul_le_self _ _
  have hmod : s - s / info.blocksInTape * info.blocksInTape = s % info.blocksInTape := by
    have := Nat.div_add_mod' s info.blocksInTape
    omega
  have hmodlt : s % info.blocksInTape < 2 ^ 32 := by
    have := Nat.mod_le s info.blocksInTape
    omega
  unfold calcStartPosWithinSection
  rw [if_neg (by change ¬ s ≥ info.sectors; omega)]
  simp only [hT]
  rw [u32_of_lt (by omega : s / info.blocksInTape < 2 ^ 32),
    u32_of_lt (by omega : s / info.blocksInTape * info.blocksInTape < 2 ^ 32), hmod,
    u32_of_lt hmodlt, u32_of_lt (by omega)]

theorem calcStartPos_none {info : SectionInfo} {s : Nat} (hs : info.sectors ≤ s) :
    calcStartPosWithinSection s info = none :=
  if_pos hs

end Zso.Tape

import Zso.Tape.Walk

/-!
# How the segment loop splits a request

`do_scatter_gather` goes through the segments of a request, stores page-table entries and
builds one READ/WRITE command per tape. `SgAct` is what it does to the outside: the indices it
stores to and the arguments it passes to `create_tapedev_cmd`.

* `scatterGather_partition`: with 512-byte blocks, and a table with room for two entries per
  segment, the entries are the blocks of the request in order, and the commands cut them at the
  tape ends.
* `page_table_capacity`: the loop keeps to the 512 entries of the table if and only if the
  segments and those among them that lie across a tape end are at most 512 together. The check
  of the source lets one more through (`page_table_overrun`).
-/

namespace Zso.Tape
open Bits

/-! ## What the loop does -/

/-- A store to `pgt_buf`, or the arguments of a READ/WRITE command. -/
inductive SgAct
  | store (index : Nat)
  | rw (cmdStartPos count : Nat)
deriving DecidableEq

/-- The arguments of the READ/WRITE commands, in order. -/
def SgAct.rwArgs : SgAct → Option (Nat × Nat)
  | .store _ => none
  | .rw pos n => some (pos, n)

/-- One iteration. -/
def sgIterActs (info : SectionInfo) (st : SgState) (sg : Seg) : List SgAct :=
  let total := u32 (st.cmdTotalBlocks + sg.len / info.blkSize)
  if total ≥ st.blocksLeftInTape then
    [.store st.entId, .rw st.cmdStartPos st.blocksLeftInTape] ++
      if total - st.blocksLeftInTape ≠ 0 then [.store (st.entId + 1)] else []
  else [.store st.entId]

/-- The loop, as far as it gets. -/
def sgLoopActs (limit : Nat) (info : SectionInfo) (write : Bool) (oom : Nat → Bool) :
    SgState → List Seg → List SgAct
  | _, [] => []
  | st, sg :: sgs =>
    sgIterActs info st sg ++
      onOutcome (fun _ => []) (fun st' => sgLoopActs limit info write oom st' sgs)
        (sgIter limit info write oom st sg)

/-- The loop and the command after it. -/
def scatterGatherActs (limit : Nat) (info : SectionInfo) (write : Bool) (env : SgEnv)
    (start : Nat) (pgt : Nat → Nat) (cmds : List SectionCmd) : List SgAct :=
  let st := sgStart info.blocksInTape start pgt cmds
  sgLoopActs limit info write env.oom st env.segs ++
    onOutcome (fun _ => [])
      (fun st => if st.cmdTotalBlocks ≠ 0 then [.rw st.cmdStartPos st.cmdTotalBlocks] else [])
      (sgLoop limit info write env.oom st env.segs)

section
variable {limit : Nat} {info : SectionInfo} {write : Bool} {oom : Nat → Bool} {st st' : SgState}
  {sg : Seg}

theorem sgChangeTape_eq (h : sgChangeTape oom st = .ok st') :
    ∃ prev lst, st' = { st with prevTapeNbr := prev, cmds := lst } := by
  unfold sgChangeTape at h
  split at h
  · rw [enqueue_inv h]
    exact ⟨_, _, rfl⟩
  · cases h
    exact ⟨_, _, rfl⟩

/-- `cmd_total_blocks` with the blocks of the segment. -/
def SgState.totalWith (st : SgState) (info : SectionInfo) (sg : Seg) : Nat :=
  u32 (st.cmdTotalBlocks + sg.len / info.blkSize)

/-- The counters and the table after an iteration. -/
structure Iterated (info : SectionInfo) (st : SgState) (sg : Seg) (st' : SgState) : Prop where
  fill : st.totalWith info sg ≥ st.blocksLeftInTape →
    st'.entId =
      st.entId + 1 + (if st.totalWith info sg - st.blocksLeftInTape ≠ 0 then 1 else 0) ∧
    st'.cmdStartPos = st.entId + 1 ∧
    st'.cmdTotalBlocks = st.totalWith info sg - st.blocksLeftInTape ∧
    st'.blocksLeftInTape = info.blocksInTape
  keep : ¬ st.totalWith info sg ≥ st.blocksLeftInTape →
    st'.entId = st.entId + 1 ∧ st'.cmdStartPos = st.cmdStartPos ∧
    st'.cmdTotalBlocks = st.totalWith info sg ∧
    st'.blocksLeftInTape = st.blocksLeftInTape
  table : ∀ i, .store i ∉ sgIterActs info st sg → st'.pgtBuf i = st.pgtBuf i

theorem sgIter_iterated (h : sgIter limit info write oom st sg = .ok st') :
    Iterated info st sg st' := by
  unfold sgIter at h
  split at h
  · cases h
  split at h
  · cases h
  next st1 h1 =>
  obtain ⟨prev, lst, rfl⟩ := sgChangeTape_eq h1
  dsimp only at h
  split at h
  · cases h
  next st2 h2 =>
  cases h
  split at h2
  · next hfill =>
    unfold sgFillTape at h2
    dsimp only at h2
    split at h2
    · cases h2
    next st3 h3 =>
    obtain rfl := enqueue_inv h3
    split at h2
    · next hover =>
      split at h2
      · cases h2
      cases h2
      refine ⟨fun _ => ⟨by rw [SgState.totalWith, if_pos hover]; rfl, rfl, rfl, rfl⟩,
        fun hn => absurd hfill hn, fun i hi => ?_⟩
      simp only [sgIterActs, if_pos hfill, if_pos hover, List.mem_append, List.mem_cons,
        List.not_mem_nil, or_false, SgAct.store.injEq, reduceCtorEq, not_or] at hi
      simp [SgState.store, hi]
    · next hover =>
      cases h2
      refine ⟨fun _ => ⟨by rw [SgState.totalWith, if_neg hover]; rfl, rfl, rfl, rfl⟩,
        fun hn => absurd hfill hn, fun i hi => ?_⟩
      simp only [sgIterActs, if_pos hfill, if_neg hover, List.mem_append, List.mem_cons,
        List.not_mem_nil, or_false, SgAct.store.injEq, reduceCtorEq] at hi
      simp [SgState.store, hi]
  · next hkeep =>
    cases h2
    refine ⟨fun hf => absurd hf hkeep, fun _ => ⟨rfl, rfl, rfl, rfl⟩, fun i hi => ?_⟩
    simp only [sgIterActs, if_neg hkeep, List.mem_singleton, SgAct.store.injEq] at hi
    simp [SgState.store, hi]

end

/-! ## Positions and entries -/

/-- How many of the segments with the given numbers of blocks, laid out from block `x` on, lie
across the end of a tape of `T` blocks. -/
def straddles (T : Nat) : Nat → List Nat → Nat
  | _, [] => 0
  | x, n :: ns => (if T < x % T + n then 1 else 0) + straddles T (x + n) ns

/-- The loop state at block `x`: how far the current tape is filled, and where the entries of the
current command begin. -/
structure SgState.At (T x : Nat) (st : SgState) : Prop where
  pos : T - st.blocksLeftInTape + st.cmdTotalBlocks = x % T
  lt : st.cmdTotalBlocks < st.blocksLeftInTape
  le : st.blocksLeftInTape ≤ T
  startPos : st.cmdStartPos ≤ st.entId
  startPos_lt : st.cmdTotalBlocks ≠ 0 → st.cmdStartPos < st.entId

section
variable {limit : Nat} {info : SectionInfo} {write : Bool} {oom : Nat → Bool} {st st' : SgState}
  {sg : Seg} {x : Nat}

/-- The blocks of a segment. -/
def SectionInfo.blocks (info : SectionInfo) (sg : Seg) : Nat := sg.len / info.blkSize

theorem SgState.At.totalWith (h : st.At info.blocksInTape x)
    (hn : info.blocks sg ≤ info.blocksInTape) :
    st.totalWith info sg = st.cmdTotalBlocks + info.blocks sg := by
  have hT := (blocksInTape_range info).2
  have hlt := h.lt
  have hle := h.le
  exact u32_of_lt (by simp only [SectionInfo.blocks] at hn; omega)

/-- One iteration moves on by the blocks of its segment, and takes two entries if the segment
lies across a tape end. -/
theorem SgState.At.iter (h : st.At info.blocksInTape x)
    (hn : info.blocks sg ≤ info.blocksInTape)
    (hi : sgIter limit info write oom st sg = .ok st') :
    st'.At info.blocksInTape (x + info.blocks sg) ∧
      st'.entId = st.entId + 1 +
        (if info.blocksInTape < x % info.blocksInTape + info.blocks sg then 1 else 0) := by
  have htotal := h.totalWith hn
  obtain ⟨hpos, hlt, hle, hstart, hstartlt⟩ := h
  obtain ⟨hfill, hkeep, -⟩ := sgIter_iterated hi
  rw [htotal] at hfill hkeep
  have hdiv := Nat.div_add_mod x info.blocksInTape
  by_cases hf : st.cmdTotalBlocks + info.blocks sg ≥ st.blocksLeftInTape
  · obtain ⟨hent, hstart', htotal', hleft'⟩ := hfill hf
    have hmod : (x + info.blocks sg) % info.blocksInTape =
        st.cmdTotalBlocks + info.blocks sg - st.blocksLeftInTape := by
      have hsum : x + info.blocks sg =
          st.cmdTotalBlocks + info.blocks sg - st.blocksLeftInTape +
            info.blocksInTape * (x / info.blocksInTape + 1) := by
        rw [Nat.mul_add]
        omega
      rw [hsum, Nat.add_mul_mod_self_left, Nat.mod_eq_of_lt (by omega)]
    refine ⟨⟨?_, ?_, ?_, ?_, fun hne => ?_⟩, ?_⟩
    · rw [hleft', htotal', hmod]
      omega
    · rw [hleft', htotal']
      omega
    · rw [hleft']
    · rw [hstart', hent]
      omega
    · rw [hstart', hent, if_pos (htotal' ▸ hne)]
      omega
    · rw [hent]
      congr 1
      exact if_congr (by omega) rfl rfl
  · obtain ⟨hent, hstart', htotal', hleft'⟩ := hkeep hf
    have hmod : (x + info.blocks sg) % info.blocksInTape =
        x % info.blocksInTape + info.blocks sg := by
      have hsum : x + info.blocks sg =
          x % info.blocksInTape + info.blocks sg + info.blocksInTape * (x / info.blocksInTape) := by
        omega
      rw [hsum, Nat.add_mul_mod_self_left, Nat.mod_eq_of_lt (by omega)]
    refine ⟨⟨?_, ?_, ?_, ?_, fun hne => ?_⟩, ?_⟩
    · rw [hleft', htotal', hmod]
      omega
    · rw [hleft', htotal']
      omega
    · rwa [hleft']
    · rw [hstart', hent]
      omega
    · rw [hstart', hent]
      omega
    · rw [hent, if_neg (by omega)]

/-- The acts of an iteration: the entries it takes are stored, and a command gets the first entry
of its piece and at most a tape of blocks. -/
theorem SgState.At.iter_acts (h : st.At info.blocksInTape x)
    (hi : sgIter limit info write oom st sg = .ok st') :
    (∀ i, .store i ∈ sgIterActs info st sg ↔ st.entId ≤ i ∧ i < st'.entId) ∧
      ∀ pos n, .rw pos n ∈ sgIterActs info st sg → pos < st'.entId ∧ n ≤ info.blocksInTape := by
  have hle := h.le
  have hstart := h.startPos
  obtain ⟨hfill, hkeep, -⟩ := sgIter_iterated hi
  by_cases hf : st.totalWith info sg ≥ st.blocksLeftInTape
  · obtain ⟨hent, -⟩ := hfill hf
    have hacts : sgIterActs info st sg = [.store st.entId, .rw st.cmdStartPos st.blocksLeftInTape] ++
        if st.totalWith info sg - st.blocksLeftInTape ≠ 0 then [.store (st.entId + 1)] else [] :=
      if_pos hf
    rw [hacts, hent]
    split
    · simp only [List.mem_append, List.mem_cons, List.not_mem_nil, or_false, SgAct.store.injEq,
        SgAct.rw.injEq, reduceCtorEq, false_or]
      refine ⟨fun i => by omega, ?_⟩
      rintro pos n ⟨rfl, rfl⟩
      omega
    · simp only [List.mem_append, List.mem_cons, List.not_mem_nil, or_false, SgAct.store.injEq,
        SgAct.rw.injEq, reduceCtorEq, false_or]
      refine ⟨fun i => by omega, ?_⟩
      rintro pos n ⟨rfl, rfl⟩
      omega
  · obtain ⟨hent, -⟩ := hkeep hf
    have hacts : sgIterActs info st sg = [.store st.entId] := if_neg hf
    rw [hacts, hent]
    simp only [List.mem_singleton, SgAct.store.injEq, reduceCtorEq, false_implies, implies_true,
      and_true]
    omega

/-- What a whole run of the loop leaves behind. -/
structure Looped (info : SectionInfo) (x : Nat) (sgs : List Seg) (acts : List SgAct)
    (st st' : SgState) : Prop where
  reached : st'.At info.blocksInTape (x + (sgs.map info.blocks).sum)
  entId : st'.entId = st.entId + sgs.length + straddles info.blocksInTape x (sgs.map info.blocks)
  stores : ∀ i, .store i ∈ acts ↔ st.entId ≤ i ∧ i < st'.entId
  rws : ∀ pos n, .rw pos n ∈ acts → pos < st'.entId ∧ n ≤ info.blocksInTape
  table : ∀ i, .store i ∉ acts → st'.pgtBuf i = st.pgtBuf i

theorem SgState.At.loop {sgs : List Seg} (h : st.At info.blocksInTape x)
    (hn : ∀ sg ∈ sgs, info.blocks sg ≤ info.blocksInTape)
    (hl : sgLoop limit info write oom st sgs = .ok st') :
    Looped info x sgs (sgLoopActs limit info write oom st sgs) st st' := by
  induction sgs generalizing st x with
  | nil =>
    cases hl
    exact ⟨h, by simp [straddles], by simp [sgLoopActs], by simp [sgLoopActs], fun _ _ => rfl⟩
  | cons sg sgs ih =>
    unfold sgLoop at hl
    split at hl
    · cases hl
    next st1 h1 =>
    have hsg := hn sg List.mem_cons_self
    obtain ⟨hat, hent⟩ := h.iter hsg h1
    obtain ⟨hstores, hrws⟩ := h.iter_acts h1
    have hrest := ih hat (fun x hx => hn x (List.mem_cons_of_mem _ hx)) hl
    have hacts : sgLoopActs limit info write oom st (sg :: sgs) =
        sgIterActs info st sg ++ sgLoopActs limit info write oom st1 sgs := by
      rw [sgLoopActs, h1, onOutcome_ok]
    have hgrow := hrest.entId
    rw [hacts]
    refine ⟨?_, ?_, fun i => ?_, fun pos n hmem => ?_, fun i hi => ?_⟩
    · rw [List.map_cons, List.sum_cons, ← Nat.add_assoc]
      exact hrest.reached
    · rw [hgrow, hent, List.map_cons, straddles, List.length_cons]
      omega
    · rw [List.mem_append, hstores, hrest.stores]
      omega
    · rcases List.mem_append.mp hmem with hmem | hmem
      · have := hrws pos n hmem
        omega
      · exact hrest.rws pos n hmem
    · rw [List.mem_append, not_or] at hi
      rw [hrest.table i hi.2, (sgIter_iterated h1).table i hi.1]

end

theorem sgStart_at (info : SectionInfo) (start : Nat) (pgt : Nat → Nat) (cmds : List SectionCmd) :
    (sgStart info.blocksInTape start pgt cmds).At info.blocksInTape start := by
  have hT := (blocksInTape_range info).1
  have hmod := Nat.mod_lt start (by omega : 0 < info.blocksInTape)
  refine ⟨?_, ?_, ?_, ?_, ?_⟩ <;> simp only [sgStart] <;> omega

/-- A segment of 64 KiB is at most a quarter of a tape. -/
theorem blocks_le {info : SectionInfo} {sg : Seg} (h : sg.len ≤ 65536) :
    info.blocks sg ≤ info.blocksInTape := by
  have ht := info.type_le
  have hb := info.blk_le
  have hle : sg.len / info.blkSize ≤ 65536 / info.blkSize := Nat.div_le_div_right h
  refine hle.trans ?_
  rw [blocksInTape_eq]
  simp only [SectionInfo.blkSize, getBlockSize]
  interval_cases info.sectionType <;> interval_cases info.blkType <;> decide

/-- The acts of the whole call, whose last one is the command after the loop. -/
theorem scatterGather_acts {limit : Nat} {info : SectionInfo} {write : Bool} {env : SgEnv}
    {start : Nat} {pgt : Nat → Nat} {cmds : List SectionCmd} {st : SgState}
    (hsegs : ∀ sg ∈ env.segs, info.blocks sg ≤ info.blocksInTape)
    (h : doScatterGather limit info write env start pgt cmds = .ok st) :
    st.entId = env.segs.length + straddles info.blocksInTape start (env.segs.map info.blocks) ∧
    (∀ i, .store i ∈ scatterGatherActs limit info write env start pgt cmds ↔ i < st.entId) ∧
    (∀ pos n, .rw pos n ∈ scatterGatherActs limit info write env start pgt cmds →
      pos < st.entId ∧ n ≤ info.blocksInTape) ∧
    ∀ i, .store i ∉ scatterGatherActs limit info write env start pgt cmds →
      st.pgtBuf i = pgt i := by
  obtain ⟨-, -, -, st', hloop, rfl⟩ := doScatterGather_inv h
  have hl := (sgStart_at info start pgt cmds).loop hsegs hloop
  have hacts : scatterGatherActs limit info write env start pgt cmds =
      sgLoopActs limit info write env.oom (sgStart info.blocksInTape start pgt cmds) env.segs ++
        if st'.cmdTotalBlocks ≠ 0 then [.rw st'.cmdStartPos st'.cmdTotalBlocks] else [] := by
    rw [scatterGatherActs, hloop, onOutcome_ok]
  have hstore : ∀ i, .store i ∈ scatterGatherActs limit info write env start pgt cmds ↔
      .store i ∈ sgLoopActs limit info write env.oom (sgStart info.blocksInTape start pgt cmds)
        env.segs := by
    intro i
    rw [hacts, List.mem_append]
    split <;> simp
  refine ⟨?_, fun i => ?_, fun pos n hmem => ?_, fun i hi => ?_⟩
  · rw [hl.entId]
    simp [sgStart]
  · rw [hstore, hl.stores]
    simp [sgStart]
  · rw [hacts, List.mem_append] at hmem
    rcases hmem with hmem | hmem
    · exact hl.rws pos n hmem
    · split at hmem
      · next hne =>
        obtain ⟨rfl, rfl⟩ : pos = st'.cmdStartPos ∧ n = st'.cmdTotalBlocks := by simpa using hmem
        have hlt := hl.reached.lt
        have hle := hl.reached.le
        exact ⟨hl.reached.startPos_lt hne, by omega⟩
      · cases hmem
  · exact hl.table i (by rwa [hstore] at hi)

/-- A call of `do_scatter_gather` that succeeds stores to the 512 entries of the page table only,
and passes arguments that fit their fields, if and only if the segments, and those among them
that lie across a tape end, are at most 512 together. -/
theorem page_table_capacity {info : SectionInfo} {write : Bool} {env : SgEnv} {start : Nat}
    {pgt : Nat → Nat} {cmds : List SectionCmd} {st : SgState}
    (hsegs : ∀ sg ∈ env.segs, sg.len ≤ 65536)
    (h : doScatterGather MAX_SG_PGT_ENTRIES info write env start pgt cmds = .ok st) :
    ((∀ i, .store i ∈ scatterGatherActs MAX_SG_PGT_ENTRIES info write env start pgt cmds →
        i < MAX_SG_PGT_ENTRIES) ∧
      ∀ pos n, .rw pos n ∈ scatterGatherActs MAX_SG_PGT_ENTRIES info write env start pgt cmds →
        pos < 2 ^ 9 ∧ n < 2 ^ 15) ↔
    env.segs.length + straddles info.blocksInTape start (env.segs.map info.blocks) ≤
      MAX_SG_PGT_ENTRIES := by
  obtain ⟨hent, hstores, hrws, -⟩ := scatterGather_acts (fun sg hsg => blocks_le (hsegs sg hsg)) h
  have hT := (blocksInTape_range info).2
  rw [← hent]
  constructor
  · rintro ⟨hlt, -⟩
    by_contra hgt
    exact absurd (hlt _ ((hstores _).mpr (not_le.mp hgt))) (lt_irrefl _)
  · intro hle
    refine ⟨fun i hi => ((hstores i).mp hi).trans_le hle, fun pos n hmem => ?_⟩
    have := hrws pos n hmem
    simp only [MAX_SG_PGT_ENTRIES] at hle
    omega

theorem exists_ok {ε α : Type} {r : Except ε α} (h : r.toOption.isSome = true) :
    ∃ a, r = .ok a := by
  cases r with
  | error e => cases h
  | ok a => exact ⟨a, rfl⟩

/-- A segment of two blocks across the end of the first tape takes two entries. -/
theorem page_table_capacity_two :
    ∃ st, doScatterGather MAX_SG_PGT_ENTRIES twoTapes true (sgEnv [⟨4096, 1024⟩]) 511
        (fun _ => 0) [] = .ok st ∧
      (∀ i, .store i ∈ scatterGatherActs MAX_SG_PGT_ENTRIES twoTapes true
          (sgEnv [⟨4096, 1024⟩]) 511 (fun _ => 0) [] → i < MAX_SG_PGT_ENTRIES) ∧
      ∀ pos n, .rw pos n ∈ scatterGatherActs MAX_SG_PGT_ENTRIES twoTapes true
          (sgEnv [⟨4096, 1024⟩]) 511 (fun _ => 0) [] → pos < 2 ^ 9 ∧ n < 2 ^ 15 := by
  obtain ⟨st, hst⟩ : ∃ st, doScatterGather MAX_SG_PGT_ENTRIES twoTapes true
      (sgEnv [⟨4096, 1024⟩]) 511 (fun _ => 0) [] = .ok st := exists_ok (by decide +kernel)
  exact ⟨st, hst, (page_table_capacity (by decide) hst).mpr (by decide +kernel)⟩

/-- 512 segments, of which the first lies across a tape end: the last one is stored to the entry
behind the table. -/
theorem page_table_overrun :
    let segs : List Seg := ⟨4096, 1024⟩ :: List.replicate 511 ⟨8192, 512⟩
    segs.length = 512 ∧ (∀ sg ∈ segs, sg.len ≤ 65536) ∧
      (segs.map twoTapes.blocks).sum ≤ 0x7fff ∧
      ∃ st, doScatterGather MAX_SG_PGT_ENTRIES twoTapes true (sgEnv segs) 511 (fun _ => 0) [] =
          .ok st ∧
        .store 512 ∈ scatterGatherActs MAX_SG_PGT_ENTRIES twoTapes true (sgEnv segs) 511
          (fun _ => 0) [] ∧
        st.pgtBuf 512 = pgtEntry 8192 1 := by
  refine ⟨by decide +kernel, by decide +kernel, by decide +kernel, ?_⟩
  obtain ⟨st, hst⟩ : ∃ st, doScatterGather MAX_SG_PGT_ENTRIES twoTapes true
      (sgEnv (⟨4096, 1024⟩ :: List.replicate 511 ⟨8192, 512⟩)) 511 (fun _ => 0) [] = .ok st :=
    exists_ok (by decide +kernel)
  have hlast : (doScatterGather MAX_SG_PGT_ENTRIES twoTapes true
      (sgEnv (⟨4096, 1024⟩ :: List.replicate 511 ⟨8192, 512⟩)) 511 (fun _ => 0) []).toOption.map
      (fun st => st.pgtBuf 512) = some (pgtEntry 8192 1) := by decide +kernel
  rw [hst] at hlast
  exact ⟨st, hst, by decide +kernel, Option.some.inj hlast⟩

/-! ## The pieces of a request -/

/-- The lengths of the pieces of `[start, start + total)`, cut at the multiples of `T`. -/
def cut (T start total : Nat) : List Nat :=
  if _ : 0 < T ∧ 0 < total then
    min total (T - start % T) ::
      cut T (start + min total (T - start % T)) (total - min total (T - start % T))
  else []
termination_by total
decreasing_by
  have := Nat.mod_lt start (by omega : 0 < T)
  omega

theorem cut_zero (T start : Nat) : cut T start 0 = [] := by
  unfold cut
  simp

theorem cut_pos {T start total n : Nat} (h : n ∈ cut T start total) : 0 < n := by
  fun_induction cut T start total with
  | case1 start total hpos ih =>
    rcases List.mem_cons.mp h with rfl | h
    · have := Nat.mod_lt start hpos.1
      omega
    · exact ih h
  | case2 => cases h

/-- Pieces that meet at tape ends only have the lengths of the cut. -/
theorem Tiled.counts {T x : Nat} {qs : List (List Entry)} (hT : 0 < T) (h : Tiled T x qs)
    (hpos : ∀ e ∈ qs.flatten, 1 ≤ e.cnt) :
    qs.map blockCount = cut T x (blockCount qs.flatten) := by
  induction qs generalizing x with
  | nil => rw [List.flatten_nil, blockCount_nil, cut_zero, List.map_nil]
  | cons q qs ih =>
    obtain ⟨hne, hle, hfull, hrest⟩ := h
    have hq : 0 < blockCount q := by
      obtain ⟨e, q', rfl⟩ := List.exists_cons_of_ne_nil hne
      have := hpos e (by simp)
      simp only [blockCount_cons]
      omega
    have hmin : min (blockCount q + blockCount qs.flatten) (T - x % T) = blockCount q := by
      by_cases hqs : qs = []
      · simp only [hqs, List.flatten_nil, blockCount_nil]
        omega
      · have := hfull hqs
        omega
    rw [List.map_cons, List.flatten_cons, blockCount_append, cut, dif_pos ⟨hT, by omega⟩, hmin,
      Nat.add_sub_cancel_left, ih hrest fun e he => hpos e (by simp [he])]

/-- At most two entries per segment. -/
theorem Plan.length_add_le (T : Nat) (write : Bool) (p : Plan) (e : Entry) :
    (p.add T write e).entries.length ≤ p.entries.length + 2 := by
  rw [Plan.entries_add, List.length_append]
  exact Nat.add_le_add_left (Entry.length_cut _ e).2 _

theorem Plan.length_addAll_le (T : Nat) (write : Bool) (p : Plan) (es : List Entry) :
    (p.addAll T write es).entries.length ≤ p.entries.length + 2 * es.length := by
  induction es generalizing p with
  | nil => exact Nat.le_refl _
  | cons e es ih =>
    have hone := Plan.length_add_le T write p e
    have hrest := ih (p.add T write e)
    simp only [Plan.addAll, List.foldl_cons, List.length_cons] at hrest ⊢
    omega

section
variable {limit : Nat} {info : SectionInfo} {write : Bool} {oom : Nat → Bool}
  {cmds : List SectionCmd} {pgt : Nat → Nat} {st st' : SgState} {p : Plan} {sg : Seg}

/-- The plan collects the commands of an iteration. -/
theorem PlanRel.iter_rws (hb : info.blkType = 0) (hr : PlanRel cmds pgt st p)
    (hok : p.Ok info.blocksInTape) (hlen : sg.len / 512 ≤ info.blocksInTape) :
    (p.add info.blocksInTape write sg.entry).cmds.filterMap Cmd.rwArgs =
      p.cmds.filterMap Cmd.rwArgs ++ (sgIterActs info st sg).filterMap SgAct.rwArgs := by
  have hB := blocksInTape_bounds hb
  have hlt := hok.cur_lt
  have hle := hok.left_le
  have htotal : u32 (st.cmdTotalBlocks + sg.len / info.blkSize) = blockCount p.cur + sg.len / 512 := by
    rw [hr.total, blkSize_512 hb, u32_of_lt (by omega)]
  have hchange : p.change.cmds.filterMap Cmd.rwArgs = p.cmds.filterMap Cmd.rwArgs := by
    rw [Plan.change_cmds, List.filterMap_append]
    cases p.pending <;> simp [changeCmds, Cmd.rwArgs]
  simp only [sgIterActs, htotal, hr.left, Plan.add, Plan.place, Plan.change_left, Plan.change_cur,
    Seg.entry]
  split
  · simp only [Plan.fill, List.filterMap_append, hchange, Plan.change_pieces, Plan.change_left,
      ← hr.startPos]
    congr 1
    split <;> rfl
  · rw [hchange]
    exact (List.append_nil _).symm

theorem PlanRel.loop_rws (hb : info.blkType = 0) {sgs : List Seg} (hr : PlanRel cmds pgt st p)
    (hok : p.Ok info.blocksInTape)
    (hlen : ∀ sg ∈ sgs, 1 ≤ sg.len / 512 ∧ sg.len / 512 ≤ info.blocksInTape)
    (h : sgLoop limit info write oom st sgs = .ok st') :
    (p.addAll info.blocksInTape write (sgs.map Seg.entry)).cmds.filterMap Cmd.rwArgs =
      p.cmds.filterMap Cmd.rwArgs ++
        (sgLoopActs limit info write oom st sgs).filterMap SgAct.rwArgs := by
  induction sgs generalizing st p with
  | nil => simp [Plan.addAll, sgLoopActs]
  | cons sg sgs ih =>
    unfold sgLoop at h
    split at h
    · cases h
    next st1 h1 =>
    have hsg := hlen sg List.mem_cons_self
    have hrest := ih (sgIter_plan hb hr hok hsg.2 h1) (hok.add write hsg.1 hsg.2)
      (fun x hx => hlen x (List.mem_cons_of_mem _ hx)) h
    rw [hr.iter_rws hb hok hsg.2, List.append_assoc] at hrest
    rw [sgLoopActs, h1, onOutcome_ok, List.filterMap_append]
    exact hrest

end

/-- What `do_scatter_gather` has made of the segments: the entries of the table, put together,
are the blocks of the request, and each piece of it has one READ/WRITE command. -/
structure Partition (T start : Nat) (segs : List Seg) (pgt : Nat → Nat) (cmds : List SectionCmd)
    (acts : List SgAct) (st : SgState) (pieces : List (List Entry)) : Prop where
  entId : st.entId = pieces.flatten.length
  table : st.pgtBuf = tableOf pgt pieces.flatten
  blocks : entryBlocks pieces.flatten = requestBlocks segs
  counts : pieces.map blockCount = cut T start (requestBlocks segs).length
  nonzero : ∀ n ∈ pieces.map blockCount, 0 < n
  /-- a command gets the index of the first entry of its piece, and the number of its blocks -/
  rws : acts.filterMap SgAct.rwArgs = pieceRws 0 pieces
  /-- the nodes on the private list are made from these arguments -/
  nodes : ∃ calls : List Cmd, st.cmds = cmds ++ calls.map Cmd.node ∧
    calls.filterMap Cmd.rwArgs = acts.filterMap SgAct.rwArgs

theorem scatterGather_partition_ok {limit : Nat} {info : SectionInfo} {write : Bool} {env : SgEnv}
    {start : Nat} {pgt : Nat → Nat} {cmds : List SectionCmd} {st : SgState}
    (hb : info.blkType = 0) (hsegs : SegsOk info.blocksInTape env.segs)
    (h : doScatterGather limit info write env start pgt cmds = .ok st) :
    Partition info.blocksInTape start env.segs pgt cmds
      (scatterGatherActs limit info write env start pgt cmds) st
      (requestPlan info.blocksInTape write start env.segs).allPieces := by
  have hT : 0 < info.blocksInTape := by
    have := (blocksInTape_bounds hb).1
    omega
  obtain ⟨hcmds, htable, hent⟩ := doScatterGather_plan hb hsegs h
  obtain ⟨-, -, -, st', hloop, rfl⟩ := doScatterGather_inv h
  have hshape := requestPlan_shape hT hsegs write start
  have hflat := Plan.Shape.flatten_allPieces (requestPlan info.blocksInTape write start env.segs)
  have hcounts := (hshape.tiled_allPieces hT).counts hT (by rw [hflat]; exact hshape.ok.pos)
  have hblocks := requestPlan_blocks hT hsegs write start
  have hr : PlanRel cmds pgt st' (requestPlan info.blocksInTape write start env.segs) :=
    sgLoop_plan hb (sgStart_plan info.blocksInTape start pgt cmds)
      (Plan.start_ok (Nat.mod_lt _ hT)) hsegs hloop
  have hrws : (requestPlan info.blocksInTape write start env.segs).cmds.filterMap Cmd.rwArgs =
      (sgLoopActs limit info write env.oom (sgStart info.blocksInTape start pgt cmds)
        env.segs).filterMap SgAct.rwArgs :=
    (sgStart_plan info.blocksInTape start pgt cmds).loop_rws hb
      (Plan.start_ok (Nat.mod_lt _ hT)) hsegs hloop
  have hacts : ((requestPlan info.blocksInTape write start env.segs).close write).filterMap
      Cmd.rwArgs = (scatterGatherActs limit info write env start pgt cmds).filterMap
        SgAct.rwArgs := by
    rw [scatterGatherActs, hloop, onOutcome_ok, List.filterMap_append, ← hrws, Plan.close,
      hr.total, hr.startPos]
    split
    · rw [List.filterMap_append]
      rfl
    · exact (List.append_nil _).symm
  refine ⟨by rw [hent, hflat], by rw [htable, hflat], by rw [hflat, hblocks], ?_, ?_, ?_, ?_⟩
  · rw [hcounts, hflat, ← length_entryBlocks, hblocks]
  · rw [hcounts]
    exact fun n hn => cut_pos hn
  · rw [← hacts, hshape.close_rws]
  · exact ⟨_, hcmds, hacts⟩

/-- With 512-byte blocks, a table that has room for two entries per segment and no failing
allocation, `do_scatter_gather` partitions every request within the capacity. It reports an error
for the empty list only, and does nothing then. -/
theorem scatterGather_partition {limit : Nat} {info : SectionInfo} {write : Bool} {env : SgEnv}
    {start : Nat} (pgt : Nat → Nat) (cmds : List SectionCmd) (hb : info.blkType = 0)
    (hoom : ∀ k, env.oom k = false) (hmain : env.mainSg = true) (hstart : start < info.sectors)
    (hsegs : SegsOk info.blocksInTape env.segs)
    (hcap : start + (requestBlocks env.segs).length ≤ info.sectors)
    (hroom : 2 * env.segs.length ≤ limit) :
    ∃ st pieces,
      (doScatterGather limit info write env start pgt cmds = .ok st ∨
        env.segs = [] ∧
          doScatterGather limit info write env start pgt cmds = .error (.ioerr, st)) ∧
      Partition info.blocksInTape start env.segs pgt cmds
        (scatterGatherActs limit info write env start pgt cmds) st pieces := by
  by_cases hne : env.segs = []
  · refine ⟨⟨0, 0, 0, 0, 0, 0, pgt, cmds⟩, [], .inr ⟨hne, ?_⟩, ?_⟩
    · simp [doScatterGather, calcStartPos_eq hstart, hmain, hne]
    · have hacts : scatterGatherActs limit info write env start pgt cmds = [] := by
        simp [scatterGatherActs, hne, sgLoopActs, sgLoop, onOutcome, sgStart]
      rw [hacts]
      constructor <;> simp [hne, requestBlocks, tableOf_nil, cut_zero, pieceRws]
  · have hlen := List.length_pos_iff.mpr hne
    rw [requestBlocks, length_entryBlocks] at hcap
    have hfit : (requestPlan info.blocksInTape write start env.segs).entries.length ≤ limit := by
      have hle := Plan.length_addAll_le info.blocksInTape write
        (Plan.start info.blocksInTape (start % info.blocksInTape) (start / info.blocksInTape + 1))
        (env.segs.map Seg.entry)
      rw [List.length_map] at hle
      exact hle.trans (by simpa [Plan.start, Plan.entries] using hroom)
    obtain ⟨st, hst⟩ : ∃ st, doScatterGather limit info write env start pgt cmds = .ok st :=
      doScatterGather_ok hb hsegs hoom hmain hstart ⟨hlen, by omega⟩ hcap hfit
    exact ⟨st, _, .inl hst, scatterGather_partition_ok hb hsegs hst⟩

/-- Two segments, of which the first lies across the end of the first tape. -/
theorem scatterGather_partition_two :
    ∃ st pieces,
      (doScatterGather 4 twoTapes true (sgEnv [⟨4096, 1024⟩, ⟨8192, 512⟩]) 511 (fun _ => 0) [] =
          .ok st ∨
        (sgEnv [⟨4096, 1024⟩, ⟨8192, 512⟩]).segs = [] ∧
          doScatterGather 4 twoTapes true (sgEnv [⟨4096, 1024⟩, ⟨8192, 512⟩]) 511 (fun _ => 0) [] =
            .error (.ioerr, st)) ∧
      Partition twoTapes.blocksInTape 511 [⟨4096, 1024⟩, ⟨8192, 512⟩] (fun _ => 0) []
        (scatterGatherActs 4 twoTapes true (sgEnv [⟨4096, 1024⟩, ⟨8192, 512⟩]) 511 (fun _ => 0) [])
        st pieces := by
  refine scatterGather_partition _ _ rfl (fun _ => rfl) rfl (by decide) ?_ (by decide) (by decide)
  unfold SegsOk
  decide

end Zso.Tape

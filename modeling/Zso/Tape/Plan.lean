import Zso.Tape.Planner

/-!
# The abstract plan of a request

What `do_scatter_gather` computes, without words, counters and tables: the
segments are cut at tape boundaries into *pieces*, one piece for each tape, and
each piece gets one READ/WRITE command. `Plan` keeps the pieces that already
have their command, the entries gathered for the next one, and the commands in
the order in which the loop emits them. The commands that change tapes are
emitted one segment late: `pending` says that one change is still to come.

`sgIter_plan` / `sgLoop_plan` show that the loop of the source computes the plan,
and `sgIter_ok` when it does not fail.
-/

namespace Zso.Tape
open Bits

/-- A page-table entry before encoding: a bus address and a number of blocks. -/
structure Entry where
  addr : Nat
  cnt : Nat
deriving DecidableEq, Repr

/-- The bus addresses of an entry's blocks. -/
def Entry.blocks (e : Entry) : List Nat := (List.range e.cnt).map fun k => e.addr + 512 * k

/-- The number of blocks of a list of entries. -/
def blockCount (es : List Entry) : Nat := (es.map Entry.cnt).sum

/-- The blocks of a list of entries, in order. -/
def entryBlocks (es : List Entry) : List Nat := es.flatMap Entry.blocks

/-- A segment as an entry: `dma_len / blk_size` blocks of 512 bytes. -/
def Seg.entry (sg : Seg) : Entry := ⟨sg.addr, sg.len / 512⟩

structure Plan where
  pieces : List (List Entry)
  cur : List Entry
  left : Nat
  tape : Nat
  pending : Bool
  cmds : List Cmd

/-- All entries written so far. -/
def Plan.entries (p : Plan) : List Entry := p.pieces.flatten ++ p.cur

/-- Nothing gathered, at block `pos` of tape `tape`. -/
def Plan.start (T pos tape : Nat) : Plan := ⟨[], [], T - pos, tape, false, []⟩

/-- The three commands that load the next tape. -/
def changeCmds (tape : Nat) : List Cmd := [.ejectTape, .takeTape tape, .rewind]

def Plan.change (p : Plan) : Plan :=
  if p.pending then { p with pending := false, cmds := p.cmds ++ changeCmds p.tape } else p

/-- The gathered entries, with as much of `e` as fits, become a piece. -/
def Plan.fill (T : Nat) (write : Bool) (p : Plan) (e : Entry) : Plan :=
  let ins := p.left - blockCount p.cur
  { pieces := p.pieces ++ [p.cur ++ [⟨e.addr, ins⟩]]
    cur := if e.cnt = ins then [] else [⟨e.addr + ins * 512, e.cnt - ins⟩]
    left := T
    tape := p.tape + 1
    pending := true
    cmds := p.cmds ++ [.rw write p.pieces.flatten.length p.left] }

def Plan.place (T : Nat) (write : Bool) (p : Plan) (e : Entry) : Plan :=
  if p.left ≤ blockCount p.cur + e.cnt then p.fill T write e
  else { p with cur := p.cur ++ [e] }

def Plan.add (T : Nat) (write : Bool) (p : Plan) (e : Entry) : Plan := p.change.place T write e

/-- The plan for a list of segments. -/
def Plan.addAll (T : Nat) (write : Bool) (p : Plan) (es : List Entry) : Plan :=
  es.foldl (Plan.add T write) p

/-- The commands with the one emitted after the loop. -/
def Plan.close (write : Bool) (p : Plan) : List Cmd :=
  if blockCount p.cur ≠ 0 then p.cmds ++ [.rw write p.pieces.flatten.length (blockCount p.cur)]
  else p.cmds

/-- What holds between two iterations. -/
structure Plan.Ok (T : Nat) (p : Plan) : Prop where
  cur_lt : blockCount p.cur < p.left
  left_le : p.left ≤ T
  pos : ∀ e ∈ p.entries, 1 ≤ e.cnt

/-! ## Small lemmas -/

@[simp] theorem blockCount_nil : blockCount [] = 0 := rfl

@[simp] theorem blockCount_cons (e : Entry) (es : List Entry) :
    blockCount (e :: es) = e.cnt + blockCount es := by simp [blockCount]

@[simp] theorem blockCount_append (es fs : List Entry) :
    blockCount (es ++ fs) = blockCount es + blockCount fs := by simp [blockCount]

@[simp] theorem entryBlocks_nil : entryBlocks [] = [] := rfl

@[simp] theorem entryBlocks_cons (e : Entry) (es : List Entry) :
    entryBlocks (e :: es) = e.blocks ++ entryBlocks es := by simp [entryBlocks]

@[simp] theorem entryBlocks_append (es fs : List Entry) :
    entryBlocks (es ++ fs) = entryBlocks es ++ entryBlocks fs := by simp [entryBlocks]

@[simp] theorem Entry.length_blocks (e : Entry) : e.blocks.length = e.cnt := by
  simp [Entry.blocks]

@[simp] theorem length_entryBlocks (es : List Entry) : (entryBlocks es).length = blockCount es := by
  induction es with
  | nil => rfl
  | cons e es ih => simp [ih]

/-- An entry cut in two has the same blocks. -/
theorem Entry.blocks_split (a : Nat) {n k : Nat} (hk : k ≤ n) :
    (Entry.mk a k).blocks ++ (Entry.mk (a + k * 512) (n - k)).blocks = (Entry.mk a n).blocks := by
  obtain ⟨m, rfl⟩ := Nat.exists_eq_add_of_le hk
  simp only [Entry.blocks, Nat.add_sub_cancel_left, List.range_add, List.map_append, List.map_map]
  congr 1
  apply List.map_congr_left
  intro i _
  simp only [Function.comp]
  ring

@[simp] theorem Plan.change_entries (p : Plan) : p.change.entries = p.entries := by
  unfold Plan.change
  split <;> rfl

@[simp] theorem Plan.change_pieces (p : Plan) : p.change.pieces = p.pieces := by
  unfold Plan.change
  split <;> rfl

@[simp] theorem Plan.change_cur (p : Plan) : p.change.cur = p.cur := by
  unfold Plan.change
  split <;> rfl

@[simp] theorem Plan.change_left (p : Plan) : p.change.left = p.left := by
  unfold Plan.change
  split <;> rfl

@[simp] theorem Plan.change_tape (p : Plan) : p.change.tape = p.tape := by
  unfold Plan.change
  split <;> rfl

@[simp] theorem Plan.change_pending (p : Plan) : p.change.pending = false := by
  unfold Plan.change
  split
  · rfl
  · next h => simpa using h

theorem Plan.change_cmds (p : Plan) :
    p.change.cmds = p.cmds ++ if p.pending then changeCmds p.tape else [] := by
  unfold Plan.change
  split <;> simp

theorem Plan.Ok.change {T : Nat} {p : Plan} (h : p.Ok T) : p.change.Ok T := by
  obtain ⟨hc, hl, hp⟩ := h
  exact ⟨by simpa using hc, by simpa using hl, by simpa using hp⟩

/-- An entry, in two if it has more than `n` blocks. -/
def Entry.cut (n : Nat) (e : Entry) : List Entry :=
  if e.cnt < n then [e]
  else ⟨e.addr, n⟩ :: if e.cnt = n then [] else [⟨e.addr + n * 512, e.cnt - n⟩]

theorem Entry.entryBlocks_cut (n : Nat) (e : Entry) : entryBlocks (e.cut n) = e.blocks := by
  unfold Entry.cut
  split
  · simp
  · next hn =>
    split
    · next heq =>
      subst heq
      simp
    · simp only [entryBlocks_cons, entryBlocks_nil, List.append_nil]
      exact Entry.blocks_split e.addr (not_lt.mp hn)

theorem Entry.mem_cut {n : Nat} {e x : Entry} (h : x ∈ e.cut n) :
    x = e ∨ n ≤ e.cnt ∧ (x = ⟨e.addr, n⟩ ∨ n ≠ e.cnt ∧ x = ⟨e.addr + n * 512, e.cnt - n⟩) := by
  unfold Entry.cut at h
  split at h
  · exact .inl (List.mem_singleton.mp h)
  · next hn =>
    refine .inr ⟨not_lt.mp hn, ?_⟩
    rcases List.mem_cons.mp h with hx | hx
    · exact .inl hx
    · split at hx
      · exact absurd hx List.not_mem_nil
      · next hne => exact .inr ⟨Ne.symm hne, List.mem_singleton.mp hx⟩

theorem Entry.length_cut (n : Nat) (e : Entry) :
    1 ≤ (e.cut n).length ∧ (e.cut n).length ≤ 2 := by
  unfold Entry.cut
  split
  · simp
  · split <;> simp

/-- A segment is added at the end, cut where the tape ends. -/
theorem Plan.entries_place (T : Nat) (write : Bool) (p : Plan) (e : Entry) :
    (p.place T write e).entries = p.entries ++ e.cut (p.left - blockCount p.cur) := by
  unfold Plan.place Entry.cut
  split
  · next hfill =>
    rw [if_neg (by omega)]
    simp [Plan.fill, Plan.entries]
  · next hfill =>
    rw [if_pos (by omega)]
    simp [Plan.entries]

theorem Plan.entries_add (T : Nat) (write : Bool) (p : Plan) (e : Entry) :
    (p.add T write e).entries = p.entries ++ e.cut (p.left - blockCount p.cur) := by
  unfold Plan.add
  rw [Plan.entries_place, Plan.change_entries, Plan.change_left, Plan.change_cur]

/-- Adding a segment adds its blocks at the end. -/
theorem Plan.add_entryBlocks (T : Nat) (write : Bool) (p : Plan) (e : Entry) :
    entryBlocks (p.add T write e).entries = entryBlocks p.entries ++ e.blocks := by
  rw [Plan.entries_add, entryBlocks_append, Entry.entryBlocks_cut]

/-- One segment keeps the plan well formed. -/
theorem Plan.Ok.add {T : Nat} {p : Plan} (h : p.Ok T) (write : Bool) {e : Entry}
    (he : 1 ≤ e.cnt) (heT : e.cnt ≤ T) : (p.add T write e).Ok T := by
  obtain ⟨hc, hl, hp⟩ := h
  have hpos : ∀ x ∈ (p.add T write e).entries, 1 ≤ x.cnt := by
    intro x hx
    rw [Plan.entries_add, List.mem_append] at hx
    rcases hx with hx | hx
    · exact hp x hx
    · rcases Entry.mem_cut hx with rfl | ⟨hle, rfl | ⟨hne, rfl⟩⟩
      · exact he
      · show 1 ≤ p.left - blockCount p.cur
        omega
      · show 1 ≤ e.cnt - (p.left - blockCount p.cur)
        omega
  unfold Plan.add Plan.place at hpos ⊢
  simp only [Plan.change_left, Plan.change_cur] at hpos ⊢
  split
  · next hfill =>
    rw [if_pos hfill] at hpos
    refine ⟨?_, Nat.le_refl T, hpos⟩
    simp only [Plan.fill, Plan.change_cur, Plan.change_left]
    split
    · simp only [blockCount_nil]
      omega
    · simp only [blockCount_cons, blockCount_nil]
      omega
  · next hfill =>
    rw [if_neg hfill] at hpos
    exact ⟨by simp; omega, by simpa using hl, hpos⟩

theorem Plan.addAll_ok {T : Nat} {write : Bool} {p : Plan} (h : p.Ok T) {es : List Entry}
    (hes : ∀ e ∈ es, 1 ≤ e.cnt ∧ e.cnt ≤ T) : (p.addAll T write es).Ok T := by
  induction es generalizing p with
  | nil => exact h
  | cons e es ih =>
    have he := hes e List.mem_cons_self
    exact ih (h.add write he.1 he.2) fun x hx => hes x (List.mem_cons_of_mem _ hx)

theorem Plan.addAll_entryBlocks {T : Nat} {write : Bool} {p : Plan} (h : p.Ok T) {es : List Entry}
    (hes : ∀ e ∈ es, 1 ≤ e.cnt ∧ e.cnt ≤ T) :
    entryBlocks (p.addAll T write es).entries = entryBlocks p.entries ++ entryBlocks es := by
  induction es generalizing p with
  | nil => simp [Plan.addAll]
  | cons e es ih =>
    have he := hes e List.mem_cons_self
    have hrest := ih (h.add write he.1 he.2) fun x hx => hes x (List.mem_cons_of_mem _ hx)
    rw [Plan.add_entryBlocks] at hrest
    simpa [Plan.addAll, List.append_assoc] using hrest

theorem Plan.start_ok {T pos tape : Nat} (h : pos < T) : (Plan.start T pos tape).Ok T :=
  ⟨by simp [Plan.start]; omega, Nat.sub_le _ _, by simp [Plan.start, Plan.entries]⟩

/-! ## The loop of the source computes the plan -/

/-- The table after the entries `es` have been stored over `pgt`. -/
def tableOf (pgt : Nat → Nat) (es : List Entry) : Nat → Nat := fun i =>
  match es[i]? with
  | some e => pgtEntry e.addr e.cnt
  | none => pgt i

theorem tableOf_nil (pgt : Nat → Nat) : tableOf pgt [] = pgt := by
  funext i
  simp [tableOf]

theorem tableOf_snoc (pgt : Nat → Nat) (es : List Entry) (e : Entry) :
    Function.update (tableOf pgt es) es.length (pgtEntry e.addr e.cnt) = tableOf pgt (es ++ [e]) := by
  funext i
  by_cases hi : i = es.length
  · subst hi
    simp [tableOf]
  · rw [Function.update_of_ne hi]
    rcases Nat.lt_or_gt_of_ne hi with hlt | hgt
    · simp [tableOf, List.getElem?_append_left hlt]
    · have h1 : es[i]? = none := List.getElem?_eq_none (by omega)
      have h2 : (es ++ [e])[i]? = none := List.getElem?_eq_none (by simp; omega)
      simp [tableOf, h1, h2]

/-- A command as a node of the private list. -/
def Cmd.node (c : Cmd) : SectionCmd := ⟨c.encode, false⟩

/-- The loop state `st` stands for the plan `p`; `cmds` and `pgt` are the private
list and the table at the start. -/
structure PlanRel (cmds : List SectionCmd) (pgt : Nat → Nat) (st : SgState) (p : Plan) : Prop where
  entId : st.entId = p.entries.length
  startPos : st.cmdStartPos = p.pieces.flatten.length
  total : st.cmdTotalBlocks = blockCount p.cur
  left : st.blocksLeftInTape = p.left
  tape : st.tapeNbr = p.tape
  prev : st.prevTapeNbr + (if p.pending then 1 else 0) = p.tape
  table : st.pgtBuf = tableOf pgt p.entries
  nodes : st.cmds = cmds ++ p.cmds.map Cmd.node

theorem enqueueCmds_inv {oom : Nat → Bool} {lst l : List SectionCmd} {cs : List Nat}
    (h : enqueueCmds oom lst cs = .ok l) : l = lst ++ cs.map fun c => ⟨c, false⟩ := by
  induction cs generalizing lst with
  | nil => cases h; simp
  | cons c cs ih =>
    unfold enqueueCmds enqueueNewCmd at h
    split at h
    · next hn => cases h
    · next l' hn =>
      split at hn
      · cases hn
      · cases hn
        rw [ih h]
        simp

theorem enqueueCmds_ok {oom : Nat → Bool} (hoom : ∀ k, oom k = false) (lst : List SectionCmd)
    (cs : List Nat) : enqueueCmds oom lst cs = .ok (lst ++ cs.map fun c => ⟨c, false⟩) := by
  induction cs generalizing lst with
  | nil => simp [enqueueCmds]
  | cons c cs ih => simp [enqueueCmds, enqueueNewCmd, hoom, ih]

theorem enqueue_inv {st st' : SgState} {oom : Nat → Bool} {cs : List Nat}
    (h : st.enqueue oom cs = .ok st') :
    st' = { st with cmds := st.cmds ++ cs.map fun c => ⟨c, false⟩ } := by
  unfold SgState.enqueue at h
  split at h
  · cases h
  · next l hl =>
    cases h
    rw [enqueueCmds_inv hl]

theorem enqueue_ok {oom : Nat → Bool} (hoom : ∀ k, oom k = false) (st : SgState) (cs : List Nat) :
    st.enqueue oom cs = .ok { st with cmds := st.cmds ++ cs.map fun c => ⟨c, false⟩ } := by
  simp [SgState.enqueue, enqueueCmds_ok hoom]

/-! The command list of any request, whatever its segments: set-up commands, then
READ/WRITE commands and tape changes in some order. -/

inductive Built : List Cmd → Prop
  | setup (tape pos : Nat) : Built [.ejectTape, .takeTape tape, .rewind, .fastFwd pos]
  | change {cs : List Cmd} (tape : Nat) : Built cs → Built (cs ++ changeCmds tape)
  | rw {cs : List Cmd} (write : Bool) (off n : Nat) : Built cs → Built (cs ++ [.rw write off n])

/-- The nodes of a list that `Built` describes. -/
def BuiltNodes (l : List SectionCmd) : Prop := ∃ cs, Built cs ∧ l = cs.map Cmd.node

section
variable {limit : Nat} {info : SectionInfo} {write : Bool} {oom : Nat → Bool} {st st' : SgState}
  {sg : Seg}

theorem BuiltNodes.rw {l : List SectionCmd} (h : BuiltNodes l) (write : Bool) (off n : Nat) :
    BuiltNodes (l ++ [⟨createTapedevCmd (rwType write) off n, false⟩]) := by
  obtain ⟨cs, hcs, rfl⟩ := h
  exact ⟨_, hcs.rw write off n, by simp [Cmd.node, Cmd.encode]⟩

theorem sgIter_built (h : BuiltNodes st.cmds) (hi : sgIter limit info write oom st sg = .ok st') :
    BuiltNodes st'.cmds := by
  unfold sgIter at hi
  split at hi
  · cases hi
  · split at hi
    · cases hi
    · next st1 h1 =>
      have hb1 : BuiltNodes st1.cmds := by
        unfold sgChangeTape at h1
        split at h1
        · rw [enqueue_inv h1]
          obtain ⟨cs, hcs, hst⟩ := h
          refine ⟨_, hcs.change st.tapeNbr, ?_⟩
          simp [hst, changeCmds, Cmd.node, Cmd.encode]
        · cases h1
          exact h
      dsimp only at hi
      split at hi
      · cases hi
      · next st2 h2 =>
        cases hi
        split at h2
        · unfold sgFillTape at h2
          dsimp only at h2
          split at h2
          · cases h2
          · next st3 h3 =>
            have hb3 : BuiltNodes st3.cmds := by
              rw [enqueue_inv h3]
              exact hb1.rw _ _ _
            split at h2
            · split at h2
              · cases h2
              · cases h2
                exact hb3
            · cases h2
              exact hb3
        · cases h2
          exact hb1

theorem sgLoop_built {sgs : List Seg} (h : BuiltNodes st.cmds)
    (hl : sgLoop limit info write oom st sgs = .ok st') : BuiltNodes st'.cmds := by
  induction sgs generalizing st with
  | nil =>
    cases hl
    exact h
  | cons sg sgs ih =>
    unfold sgLoop at hl
    split at hl
    · cases hl
    · next st1 h1 => exact ih (sgIter_built h h1) hl

theorem planRequest_built {env : SgEnv} {start : Nat} {pgt : Nat → Nat}
    (h : planRequest info write env start pgt = .ok st) : BuiltNodes st.cmds := by
  unfold planRequest at h
  cases hl : createStartPosSetupCmds env.oom start info with
  | error e =>
    rw [hl, onOutcome_error] at h
    cases h
  | ok l =>
    rw [hl, onOutcome_ok] at h
    unfold createStartPosSetupCmds at hl
    unfold doScatterGather at h
    cases hpos : calcStartPosWithinSection start info with
    | none =>
      rw [hpos] at hl
      cases hl
    | some pos =>
      rw [hpos] at hl h
      simp only [Option.elim_some] at hl h
      have hb : BuiltNodes l := by
        split at hl
        · cases hl
        · next l' he =>
          cases hl
          exact ⟨_, .setup pos.2 pos.1, by simp [enqueueCmds_inv he, Cmd.node, Cmd.encode]⟩
      split at h
      · cases h
      · split at h
        · cases h
        · split at h
          · cases h
          · split at h
            · cases h
            · next st1 h1 =>
              have hb1 : BuiltNodes st1.cmds := sgLoop_built hb h1
              split at h
              · rw [enqueue_inv h]
                exact hb1.rw _ _ _
              · cases h
                exact hb1

/-- A built list does not end with an EJECT_TAPE. -/
theorem Built.getLast?_ne {cs : List Cmd} (h : Built cs) : cs.getLast? ≠ some .ejectTape := by
  cases h <;> simp [changeCmds]

/-! A failed planning has an error for the block layer. -/

theorem enqueue_error {e : BlkStatus × SgState} {cmds : List Nat}
    (h : st.enqueue oom cmds = .error e) : e.1 = .ioerr := by
  unfold SgState.enqueue at h
  split at h <;> cases h
  rfl

theorem sgIter_error {e : BlkStatus × SgState} (h : sgIter limit info write oom st sg = .error e) :
    e.1 = .ioerr := by
  unfold sgIter at h
  split at h
  · cases h
    rfl
  · split at h
    · next e' h1 =>
      cases h
      unfold sgChangeTape at h1
      split at h1
      · exact enqueue_error h1
      · cases h1
    · dsimp only at h
      split at h
      · next e' h2 =>
        cases h
        split at h2
        · unfold sgFillTape at h2
          dsimp only at h2
          split at h2
          · next e' h3 =>
            cases h2
            exact enqueue_error h3
          · split at h2
            · split at h2 <;> cases h2
              rfl
            · cases h2
        · cases h2
      · cases h

theorem sgLoop_error {e : BlkStatus × SgState} {sgs : List Seg}
    (h : sgLoop limit info write oom st sgs = .error e) : e.1 = .ioerr := by
  induction sgs generalizing st with
  | nil => cases h
  | cons sg sgs ih =>
    unfold sgLoop at h
    split at h
    · next e' h1 =>
      cases h
      exact sgIter_error h1
    · exact ih h

theorem planRequest_error {env : SgEnv} {start : Nat} {pgt : Nat → Nat} {e : BlkStatus × SgState}
    (h : planRequest info write env start pgt = .error e) : e.1 ≠ .ok := by
  have hcases : e.1 = .ioerr ∨ e.1 = .inval := by
    unfold planRequest at h
    cases hl : createStartPosSetupCmds env.oom start info with
    | error e =>
      rw [hl, onOutcome_error] at h
      cases h
      exact .inl rfl
    | ok l =>
      rw [hl, onOutcome_ok] at h
      unfold doScatterGather at h
      cases hpos : calcStartPosWithinSection start info with
      | none =>
        rw [hpos] at h
        cases h
        exact .inr rfl
      | some pos =>
        rw [hpos] at h
        simp only [Option.elim_some] at h
        left
        split at h
        · cases h
          rfl
        · split at h
          · cases h
            rfl
          · split at h
            · cases h
              rfl
            · split at h
              · next e' h1 =>
                cases h
                exact sgLoop_error h1
              · split at h
                · exact enqueue_error h
                · cases h
  rcases hcases with h | h <;> simp [h]

end

section
variable {limit : Nat} {info : SectionInfo} {write : Bool} {oom : Nat → Bool}
  {cmds : List SectionCmd} {pgt : Nat → Nat} {st st' : SgState} {p : Plan} {sg : Seg}

theorem PlanRel.change (hr : PlanRel cmds pgt st p) (h : sgChangeTape oom st = .ok st') :
    PlanRel cmds pgt st' p.change := by
  obtain ⟨he, hs, ht, hl, htp, hpr, htb, hn⟩ := hr
  unfold sgChangeTape at h
  split at h
  · next hlt =>
    -- the loop compares the tape numbers, the plan has the flag
    have hpend : p.pending = true := by
      cases hp : p.pending with
      | true => rfl
      | false => simp [hp] at hpr; omega
    have h' := enqueue_inv h
    subst h'
    refine ⟨by simpa using he, by simpa using hs, by simpa using ht, by simpa using hl,
      by simpa using htp, by simpa using htp, by simpa using htb, ?_⟩
    simp [Plan.change_cmds, hpend, changeCmds, hn, htp, Cmd.node, Cmd.encode]
  · next hlt =>
    have hpend : p.pending = false := by
      cases hp : p.pending with
      | false => rfl
      | true => simp [hp] at hpr; omega
    cases h
    simp only [Plan.change, hpend]
    exact ⟨he, hs, ht, hl, htp, hpr, htb, hn⟩

theorem PlanRel.fill (hr : PlanRel cmds pgt st p) (hp : p.pending = false)
    (hok : p.Ok info.blocksInTape) (hb : info.blkType = 0) (htape : p.tape ≤ info.nTapes)
    (hlen : sg.len / 512 ≤ info.blocksInTape)
    (hfill : p.left ≤ blockCount p.cur + sg.len / 512)
    (h : sgFillTape limit info write oom sg (blockCount p.cur + sg.len / 512) st = .ok st') :
    PlanRel cmds pgt { st' with entId := st'.entId + 1 }
      (p.fill info.blocksInTape write sg.entry) := by
  obtain ⟨he, hs, ht, hl, htp, hpr, htb, hn⟩ := hr
  have hbs := blkSize_512 hb
  have hB := blocksInTape_bounds hb
  have hnt := info.tapes_le
  have hc := hok.cur_lt
  have hleft := hok.left_le
  have hins : u64sub (sg.len / 512) (blockCount p.cur + sg.len / 512 - p.left) =
      p.left - blockCount p.cur := by
    rw [u64sub_of_le (by omega) (by omega)]
    omega
  have htape' : u32 (p.tape + 1) = p.tape + 1 := u32_of_lt (by omega)
  simp only [hp, Bool.false_eq_true, if_false, Nat.add_zero] at hpr
  unfold sgFillTape at h
  simp only [hbs, hl, hins] at h
  split at h
  · cases h
  · next st1 h1 =>
    have h1' := enqueue_inv h1
    subst h1'
    have hfirst := tableOf_snoc pgt p.entries ⟨sg.addr, p.left - blockCount p.cur⟩
    split at h
    · next hne =>
      split at h
      · cases h
      · next hent =>
        cases h
        have hcut : sg.len / 512 ≠ p.left - blockCount p.cur := by omega
        have hover : blockCount p.cur + sg.len / 512 - p.left =
            sg.len / 512 - (p.left - blockCount p.cur) := by omega
        have hsecond := tableOf_snoc pgt (p.entries ++ [⟨sg.addr, p.left - blockCount p.cur⟩])
          ⟨sg.addr + (p.left - blockCount p.cur) * 512, sg.len / 512 - (p.left - blockCount p.cur)⟩
        refine ⟨?_, ?_, ?_, ?_, ?_, ?_, ?_, ?_⟩
        · simp [SgState.store, Plan.fill, Plan.entries, Seg.entry, hcut, he]
          omega
        · simp [SgState.store, Plan.fill, he, Plan.entries]
          omega
        · simp [SgState.store, Plan.fill, Seg.entry, hcut, hover]
        · simp [SgState.store, Plan.fill]
        · simp [SgState.store, Plan.fill, htp, htape']
        · simp [SgState.store, Plan.fill, hpr]
        · have hentries : (p.fill info.blocksInTape write sg.entry).entries =
              p.entries ++ [⟨sg.addr, p.left - blockCount p.cur⟩] ++
              [⟨sg.addr + (p.left - blockCount p.cur) * 512,
                sg.len / 512 - (p.left - blockCount p.cur)⟩] := by
            simp [Plan.fill, Plan.entries, Seg.entry, hcut]
          rw [hentries, ← hsecond, ← hfirst]
          simp [SgState.store, he, htb, hover]
        · simp [SgState.store, Plan.fill, hn, Cmd.node, Cmd.encode, hs]
    · next hne =>
      cases h
      have hcut : sg.len / 512 = p.left - blockCount p.cur := by omega
      refine ⟨?_, ?_, ?_, ?_, ?_, ?_, ?_, ?_⟩
      · simp [SgState.store, Plan.fill, Plan.entries, Seg.entry, hcut, he]
        omega
      · simp [SgState.store, Plan.fill, he, Plan.entries]
        omega
      · simp [Plan.fill, Seg.entry, hcut]
        omega
      · simp [Plan.fill]
      · simp [SgState.store, Plan.fill, htp, htape']
      · simp [SgState.store, Plan.fill, hpr]
      · have hentries : (p.fill info.blocksInTape write sg.entry).entries =
            p.entries ++ [⟨sg.addr, p.left - blockCount p.cur⟩] := by
          simp [Plan.fill, Plan.entries, Seg.entry, hcut]
        rw [hentries, ← hfirst]
        simp [SgState.store, he, htb]
      · simp [SgState.store, Plan.fill, hn, Cmd.node, Cmd.encode, hs]

/-- One successful iteration of the source is one step of the plan. -/
theorem sgIter_plan (hb : info.blkType = 0) (hr : PlanRel cmds pgt st p)
    (hok : p.Ok info.blocksInTape) (hlen : sg.len / 512 ≤ info.blocksInTape)
    (h : sgIter limit info write oom st sg = .ok st') :
    PlanRel cmds pgt st' (p.add info.blocksInTape write sg.entry) := by
  have hB := blocksInTape_bounds hb
  have hc := hok.cur_lt
  have hleft := hok.left_le
  unfold sgIter at h
  split at h
  · cases h
  · next htape =>
    split at h
    · cases h
    · next st1 h1 =>
      have hr1 := hr.change h1
      have hu : u32 (st1.cmdTotalBlocks + sg.len / info.blkSize) =
          blockCount p.cur + sg.len / 512 := by
        rw [hr1.total, blkSize_512 hb, Plan.change_cur, u32_of_lt (by omega)]
      simp only [hu] at h
      have htape' : p.tape ≤ info.nTapes := by
        rw [← hr.tape]
        omega
      split at h
      · cases h
      · next st2 h2 =>
        cases h
        unfold Plan.add Plan.place
        split at h2
        · next hfill =>
          rw [hr1.left] at hfill
          rw [if_pos (by simpa [Seg.entry] using hfill)]
          exact hr1.fill (by simp) hok.change hb (by simpa using htape') hlen
            (by simpa using hfill) (by simpa using h2)
        · next hfill =>
          rw [hr1.left] at hfill
          rw [if_neg (by simpa [Seg.entry] using hfill)]
          cases h2
          obtain ⟨he, hs, ht, hl, htp, hpr, htb, hn⟩ := hr1
          have hentries : ({ p.change with cur := p.change.cur ++ [sg.entry] } : Plan).entries =
              p.change.entries ++ [sg.entry] := by simp [Plan.entries]
          refine ⟨?_, hs, ?_, hl, htp, hpr, ?_, hn⟩
          · rw [hentries]
            simp [SgState.store, he]
          · simp [SgState.store, Seg.entry]
          · rw [hentries, ← tableOf_snoc]
            simp [SgState.store, he, htb, Seg.entry, blkSize_512 hb]

/-- The whole loop. -/
theorem sgLoop_plan (hb : info.blkType = 0) {sgs : List Seg} (hr : PlanRel cmds pgt st p)
    (hok : p.Ok info.blocksInTape)
    (hlen : ∀ sg ∈ sgs, 1 ≤ sg.len / 512 ∧ sg.len / 512 ≤ info.blocksInTape)
    (h : sgLoop limit info write oom st sgs = .ok st') :
    PlanRel cmds pgt st' (p.addAll info.blocksInTape write (sgs.map Seg.entry)) := by
  induction sgs generalizing st p with
  | nil =>
    cases h
    exact hr
  | cons sg sgs ih =>
    unfold sgLoop at h
    split at h
    · cases h
    · next st1 h1 =>
      have hsg := hlen sg List.mem_cons_self
      exact ih (sgIter_plan hb hr hok hsg.2 h1) (hok.add write hsg.1 hsg.2)
        (fun x hx => hlen x (List.mem_cons_of_mem _ hx)) h

end

/-! ## When the loop succeeds -/

/-- The logical block the plan has reached. -/
def Plan.pos (T : Nat) (p : Plan) : Nat := (p.tape - 1) * T + (T - p.left) + blockCount p.cur

theorem Plan.pos_add {T : Nat} {p : Plan} (h : p.Ok T) (ht : 1 ≤ p.tape) (write : Bool) (e : Entry) :
    (p.add T write e).pos T = p.pos T + e.cnt := by
  obtain ⟨t, htt⟩ := Nat.exists_eq_add_of_le' ht
  have hc := h.cur_lt
  have hl := h.left_le
  unfold Plan.add Plan.place
  simp only [Plan.change_left, Plan.change_cur]
  split
  · next hfill =>
    simp only [Plan.fill, Plan.pos, Plan.change_cur, Plan.change_left, Plan.change_tape, htt,
      Nat.add_sub_cancel, Nat.sub_self, Nat.add_zero, Nat.add_mul, one_mul]
    split
    · simp only [blockCount_nil]
      omega
    · simp only [blockCount_cons, blockCount_nil]
      omega
  · simp only [Plan.pos, Plan.change_tape, blockCount_append, blockCount_cons, blockCount_nil]
    omega

theorem Plan.tape_add (T : Nat) (write : Bool) (p : Plan) (e : Entry) :
    p.tape ≤ (p.add T write e).tape := by
  unfold Plan.add Plan.place
  split
  · simp [Plan.fill]
  · simp

theorem Plan.length_add (T : Nat) (write : Bool) (p : Plan) (e : Entry) :
    p.entries.length + 1 ≤ (p.add T write e).entries.length := by
  rw [Plan.entries_add, List.length_append]
  exact Nat.add_le_add_left (Entry.length_cut _ e).1 _

theorem Plan.length_addAll (T : Nat) (write : Bool) (p : Plan) (es : List Entry) :
    p.entries.length ≤ (p.addAll T write es).entries.length := by
  induction es generalizing p with
  | nil => exact Nat.le_refl _
  | cons e es ih => exact le_trans (Nat.le_of_succ_le (Plan.length_add T write p e)) (ih _)

theorem Plan.pos_start {T s : Nat} (hT : 0 < T) : (Plan.start T (s % T) (s / T + 1)).pos T = s := by
  have hm := Nat.mod_lt s hT
  have hd := Nat.div_add_mod' s T
  simp only [Plan.start, Plan.pos, Nat.add_sub_cancel, blockCount_nil]
  omega

section
variable {limit : Nat} {info : SectionInfo} {write : Bool} {oom : Nat → Bool}
  {cmds : List SectionCmd} {pgt : Nat → Nat} {st : SgState} {p : Plan} {sg : Seg}

/-- An iteration succeeds when the nodes can be allocated, the tape exists and
the entries of the segment fit the table. -/
theorem sgIter_ok (hb : info.blkType = 0) (hoom : ∀ k, oom k = false)
    (hr : PlanRel cmds pgt st p) (hok : p.Ok info.blocksInTape) (htape : p.tape ≤ info.nTapes)
    (hlen : sg.len / 512 ≤ info.blocksInTape)
    (hfit : (p.add info.blocksInTape write sg.entry).entries.length ≤ limit) :
    ∃ st', sgIter limit info write oom st sg = .ok st' := by
  have hB := blocksInTape_bounds hb
  have hc := hok.cur_lt
  have hleft := hok.left_le
  have hfit' := le_trans (Plan.length_add info.blocksInTape write p sg.entry) hfit
  obtain ⟨st1, h1⟩ : ∃ st1, sgChangeTape oom st = .ok st1 := by
    unfold sgChangeTape
    split
    · rw [enqueue_ok hoom]
      exact ⟨_, rfl⟩
    · exact ⟨_, rfl⟩
  have hr1 := hr.change h1
  have hu : u32 (st1.cmdTotalBlocks + sg.len / info.blkSize) = blockCount p.cur + sg.len / 512 := by
    rw [hr1.total, blkSize_512 hb, Plan.change_cur, u32_of_lt (by omega)]
  unfold sgIter
  rw [if_neg (by rw [hr.tape]; omega), h1]
  simp only [hu]
  split
  · next e he =>
    -- only the filling branch can fail, and its check is on the entry count
    exfalso
    split at he
    · next hfill =>
      unfold sgFillTape at he
      simp only [enqueue_ok hoom] at he
      split at he
      · split at he
        · next hent =>
          simp only [SgState.store, hr1.entId, Plan.change_entries] at hent
          omega
        · cases he
      · cases he
    · cases he
  · exact ⟨_, rfl⟩

theorem sgLoop_ok (hb : info.blkType = 0) (hoom : ∀ k, oom k = false) {sgs : List Seg}
    (hr : PlanRel cmds pgt st p) (hok : p.Ok info.blocksInTape) (ht : 1 ≤ p.tape)
    (hlen : ∀ sg ∈ sgs, 1 ≤ sg.len / 512 ∧ sg.len / 512 ≤ info.blocksInTape)
    (hcap : p.pos info.blocksInTape + blockCount (sgs.map Seg.entry) ≤
      info.blocksInTape * info.nTapes)
    (hfit : (p.addAll info.blocksInTape write (sgs.map Seg.entry)).entries.length ≤ limit) :
    ∃ st', sgLoop limit info write oom st sgs = .ok st' := by
  induction sgs generalizing st p with
  | nil => exact ⟨st, rfl⟩
  | cons sg sgs ih =>
    have hsg := hlen sg List.mem_cons_self
    simp only [List.map_cons, blockCount_cons] at hcap
    have hcnt : 1 ≤ sg.entry.cnt := hsg.1
    -- a block is left to place, so the tape number is still on the section
    have htape : p.tape ≤ info.nTapes := by
      by_contra hgt
      have hle : info.nTapes ≤ p.tape - 1 := by omega
      have hmul := Nat.mul_le_mul_right info.blocksInTape hle
      rw [Nat.mul_comm] at hmul
      unfold Plan.pos at hcap
      omega
    have hfit1 := le_trans (Plan.length_addAll info.blocksInTape write
      (p.add info.blocksInTape write sg.entry) (sgs.map Seg.entry)) hfit
    obtain ⟨st1, h1⟩ := sgIter_ok hb hoom hr hok htape hsg.2 hfit1
    have hpos : (p.add info.blocksInTape write sg.entry).pos info.blocksInTape =
        p.pos info.blocksInTape + sg.entry.cnt := Plan.pos_add hok ht write sg.entry
    obtain ⟨st2, h2⟩ := ih (sgIter_plan hb hr hok hsg.2 h1) (hok.add write hsg.1 hsg.2)
      (le_trans ht (Plan.tape_add _ _ _ _)) (fun x hx => hlen x (List.mem_cons_of_mem _ hx))
      (by omega) hfit
    exact ⟨st2, by simp [sgLoop, h1, h2]⟩

end

/-! ## The plan of a request -/

/-- The commands of `create_start_pos_setup_cmds`. -/
def setupCmds (T start : Nat) : List Cmd :=
  [.ejectTape, .takeTape (start / T + 1), .rewind, .fastFwd (start % T)]

/-- The plan of the request that starts at sector `start`. -/
def requestPlan (T : Nat) (write : Bool) (start : Nat) (segs : List Seg) : Plan :=
  (Plan.start T (start % T) (start / T + 1)).addAll T write (segs.map Seg.entry)

/-- All commands of the request. -/
def requestCmds (T : Nat) (write : Bool) (start : Nat) (segs : List Seg) : List Cmd :=
  setupCmds T start ++ (requestPlan T write start segs).close write

/-- Every segment has at least one block and at most one tape of them. -/
def SegsOk (T : Nat) (segs : List Seg) : Prop :=
  ∀ sg ∈ segs, 1 ≤ sg.len / 512 ∧ sg.len / 512 ≤ T

theorem SegsOk.entries {T : Nat} {segs : List Seg} (h : SegsOk T segs) :
    ∀ e ∈ segs.map Seg.entry, 1 ≤ e.cnt ∧ e.cnt ≤ T := by
  intro e he
  obtain ⟨sg, hsg, rfl⟩ := List.mem_map.mp he
  exact h sg hsg

theorem requestPlan_ok {T : Nat} (hT : 0 < T) {segs : List Seg} (h : SegsOk T segs) (write : Bool)
    (start : Nat) : (requestPlan T write start segs).Ok T :=
  Plan.addAll_ok (Plan.start_ok (Nat.mod_lt _ hT)) h.entries

/-- The loop state `do_scatter_gather` starts from. -/
def sgStart (T start : Nat) (pgt : Nat → Nat) (cmds : List SectionCmd) : SgState :=
  ⟨0, 0, 0, T - start % T, start / T + 1, start / T + 1, pgt, cmds⟩

theorem sgStart_plan (T start : Nat) (pgt : Nat → Nat) (cmds : List SectionCmd) :
    PlanRel cmds pgt (sgStart T start pgt cmds) (Plan.start T (start % T) (start / T + 1)) := by
  constructor <;> simp [sgStart, Plan.start, Plan.entries, tableOf_nil]

section
variable {limit : Nat} {info : SectionInfo} {write : Bool} {env : SgEnv} {start : Nat}
  {pgt : Nat → Nat} {cmds : List SectionCmd} {st : SgState}

theorem createStartPosSetupCmds_inv {oom : Nat → Bool} {l : List SectionCmd}
    (h : createStartPosSetupCmds oom start info = .ok l) :
    start < info.sectors ∧ l = (setupCmds info.blocksInTape start).map Cmd.node := by
  unfold createStartPosSetupCmds at h
  by_cases hs : start < info.sectors
  · rw [calcStartPos_eq hs] at h
    simp only [Option.elim_some] at h
    split at h
    · cases h
    · next l' hl =>
      cases h
      refine ⟨hs, (enqueueCmds_inv hl).trans ?_⟩
      simp only [setupCmds, List.nil_append, List.map_cons, List.map_nil, Cmd.node, Cmd.encode]
  · rw [calcStartPos_none (by omega)] at h
    cases h

theorem createStartPosSetupCmds_ok {oom : Nat → Bool} (hoom : ∀ k, oom k = false)
    (hs : start < info.sectors) :
    createStartPosSetupCmds oom start info =
      .ok ((setupCmds info.blocksInTape start).map Cmd.node) := by
  unfold createStartPosSetupCmds
  rw [calcStartPos_eq hs]
  simp only [Option.elim_some, enqueueCmds_ok hoom, setupCmds, List.nil_append, List.map_cons,
    List.map_nil, Cmd.node, Cmd.encode]

/-- What a call of `do_scatter_gather` that succeeds has been through, for any block size:
the loop, and the command for what the loop has left over. -/
theorem doScatterGather_inv (h : doScatterGather limit info write env start pgt cmds = .ok st) :
    start < info.sectors ∧ env.segs ≠ [] ∧ env.segs.length ≤ limit ∧
    ∃ st', sgLoop limit info write env.oom (sgStart info.blocksInTape start pgt cmds) env.segs =
        .ok st' ∧
      st = { st' with
        cmds := st'.cmds ++ if st'.cmdTotalBlocks = 0 then [] else
          [⟨createTapedevCmd (rwType write) st'.cmdStartPos st'.cmdTotalBlocks, false⟩] } := by
  by_cases hs : start < info.sectors
  · unfold doScatterGather at h
    rw [calcStartPos_eq hs] at h
    simp only [Option.elim_some] at h
    split at h
    · cases h
    split at h
    · cases h
    next hne =>
    split at h
    · cases h
    next hlen =>
    split at h
    · cases h
    next st1 h1 =>
    refine ⟨hs, fun hnil => hne (by rw [hnil]; rfl), not_lt.mp hlen, st1, h1, ?_⟩
    split at h
    · next hc => rw [if_neg hc, enqueue_inv h, List.map_singleton]
    · next hc =>
      cases h
      rw [if_pos (not_not.mp hc), List.append_nil]
  · rw [doScatterGather, calcStartPos_none (by omega)] at h
    cases h

/-- A call of `do_scatter_gather` that succeeds has computed the plan of the request. -/
theorem doScatterGather_plan (hb : info.blkType = 0) (hsegs : SegsOk info.blocksInTape env.segs)
    (h : doScatterGather limit info write env start pgt cmds = .ok st) :
    st.cmds = cmds ++ ((requestPlan info.blocksInTape write start env.segs).close write).map
      Cmd.node ∧
    st.pgtBuf = tableOf pgt (requestPlan info.blocksInTape write start env.segs).entries ∧
    st.entId = (requestPlan info.blocksInTape write start env.segs).entries.length := by
  have hB := blocksInTape_bounds hb
  obtain ⟨-, -, -, st', hloop, rfl⟩ := doScatterGather_inv h
  have hr : PlanRel cmds pgt st' (requestPlan info.blocksInTape write start env.segs) :=
    sgLoop_plan hb (sgStart_plan info.blocksInTape start pgt cmds)
      (Plan.start_ok (Nat.mod_lt _ (by omega))) hsegs hloop
  refine ⟨?_, hr.table, hr.entId⟩
  simp only [hr.nodes, hr.startPos, hr.total, Plan.close]
  split
  · next hc => rw [if_neg (not_not.mpr hc), List.append_nil]
  · simp [Cmd.node, Cmd.encode]

/-- `do_scatter_gather` succeeds for a request within the capacity whose entries fit the
table, when nothing fails to allocate. -/
theorem doScatterGather_ok (hb : info.blkType = 0) (hsegs : SegsOk info.blocksInTape env.segs)
    (hoom : ∀ k, env.oom k = false) (hmain : env.mainSg = true) (hs : start < info.sectors)
    (hlen : 1 ≤ env.segs.length ∧ env.segs.length ≤ limit)
    (hcap : start + blockCount (env.segs.map Seg.entry) ≤ info.sectors)
    (hfit : (requestPlan info.blocksInTape write start env.segs).entries.length ≤ limit) :
    ∃ st, doScatterGather limit info write env start pgt cmds = .ok st := by
  have hB := blocksInTape_bounds hb
  rw [sectors_512 hb] at hcap
  obtain ⟨st1, h1⟩ := sgLoop_ok hb hoom (sgStart_plan info.blocksInTape start pgt cmds)
    (Plan.start_ok (Nat.mod_lt _ (by omega))) (by simp [Plan.start]) hsegs
    (by rw [Plan.pos_start (by omega)]; exact hcap) hfit
  simp only [doScatterGather, calcStartPos_eq hs, Option.elim_some, hmain]
  rw [if_neg (by simp), if_neg (by omega), if_neg (by omega)]
  unfold sgStart at h1
  rw [h1]
  simp only
  split
  · rw [enqueue_ok hoom]
    exact ⟨_, rfl⟩
  · exact ⟨_, rfl⟩

/-- A successful planning run has computed the plan of the request. -/
theorem planRequest_inv (hb : info.blkType = 0) (hsegs : SegsOk info.blocksInTape env.segs)
    (h : planRequest info write env start pgt = .ok st) :
    start < info.sectors ∧ env.segs ≠ [] ∧
    st.cmds = (requestCmds info.blocksInTape write start env.segs).map Cmd.node ∧
    st.pgtBuf = tableOf pgt (requestPlan info.blocksInTape write start env.segs).entries ∧
    st.entId = (requestPlan info.blocksInTape write start env.segs).entries.length := by
  unfold planRequest at h
  cases hl : createStartPosSetupCmds env.oom start info with
  | error e =>
    rw [hl, onOutcome_error] at h
    cases h
  | ok l =>
    obtain ⟨hs, rfl⟩ := createStartPosSetupCmds_inv hl
    rw [hl, onOutcome_ok] at h
    obtain ⟨-, hne, -⟩ := doScatterGather_inv h
    obtain ⟨hcmds, htable, hent⟩ := doScatterGather_plan hb hsegs h
    exact ⟨hs, hne, by rw [hcmds, requestCmds, List.map_append], htable, hent⟩

theorem one_le_blockCount (hsegs : SegsOk info.blocksInTape env.segs)
    (hlen : 1 ≤ env.segs.length) : 1 ≤ blockCount (env.segs.map Seg.entry) := by
  obtain ⟨sg, hsg⟩ := List.exists_mem_of_length_pos hlen
  have hmem : sg.entry.cnt ∈ (env.segs.map Seg.entry).map Entry.cnt :=
    List.mem_map_of_mem (List.mem_map_of_mem hsg)
  exact le_trans (hsegs sg hsg).1 (List.le_sum_of_mem hmem)

/-- Planning succeeds for a request within the capacity whose entries fit the
table, when nothing fails to allocate. -/
theorem planRequest_ok (hb : info.blkType = 0) (hsegs : SegsOk info.blocksInTape env.segs)
    (hoom : ∀ k, env.oom k = false) (hmain : env.mainSg = true)
    (hlen : 1 ≤ env.segs.length ∧ env.segs.length ≤ MAX_SG_PGT_ENTRIES)
    (hcap : start + blockCount (env.segs.map Seg.entry) ≤ info.sectors)
    (hfit : (requestPlan info.blocksInTape write start env.segs).entries.length ≤
      MAX_SG_PGT_ENTRIES) :
    ∃ st, planRequest info write env start pgt = .ok st := by
  have hs : start < info.sectors := by
    have := one_le_blockCount hsegs hlen.1
    omega
  unfold planRequest
  rw [createStartPosSetupCmds_ok hoom hs, onOutcome_ok]
  exact doScatterGather_ok hb hsegs hoom hmain hs hlen hcap hfit

end

end Zso.Tape

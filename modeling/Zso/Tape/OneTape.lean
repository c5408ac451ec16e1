import Zso.Tape.FlatDisk

/-!
# Requests on one tape

A request that lies within one tape gets the four set-up commands and one READ or
WRITE, which begins at the first page-table entry, whether or not the request ends at
the end of the tape (`planRequest_inTape`). Its page table is the list of its segments.
-/

namespace Zso.Tape

/-- A request within one tape of the section, with segments the device can address. -/
structure Request.InTape (info : SectionInfo) (q : Request) : Prop where
  count : 1 ≤ q.env.segs.length ∧ q.env.segs.length ≤ MAX_SG_PGT_ENTRIES
  addr : ∀ sg ∈ q.env.segs, 512 ∣ sg.addr ∧ 0 < sg.addr ∧ sg.addr < 2 ^ 41
  len : ∀ sg ∈ q.env.segs, 512 ∣ sg.len ∧ 0 < sg.len
  disjoint : q.env.segs.Pairwise fun a b => a.addr + a.len ≤ b.addr ∨ b.addr + b.len ≤ a.addr
  start : q.start < info.sectors
  tape : q.start % info.blocksInTape + q.blocks.length ≤ info.blocksInTape

/-- The commands of a request within one tape of `T` blocks. -/
def Request.cmds (T : Nat) (q : Request) : List Cmd :=
  setupCmds T q.start ++ [.rw q.write 0 q.blocks.length]

/-- The page-table entries of a request within one tape. -/
def Request.entries (q : Request) : List Entry := q.env.segs.map Seg.entry

/-! ## The plan -/

section
variable {T left tape : Nat} {write : Bool} {cur es : List Entry}

/-- Segments that fit what is left of the tape are gathered for one command. The command
is emitted in the loop if they fill the tape. -/
theorem Plan.addAll_fits (hcur : blockCount cur < left) (hes : ∀ e ∈ es, 1 ≤ e.cnt)
    (hfit : blockCount cur + blockCount es ≤ left) :
    Plan.addAll T write ⟨[], cur, left, tape, false, []⟩ es =
      if blockCount cur + blockCount es < left then ⟨[], cur ++ es, left, tape, false, []⟩
      else ⟨[cur ++ es], [], T, tape + 1, true, [.rw write 0 left]⟩ := by
  induction es generalizing cur with
  | nil => simp [Plan.addAll, hcur]
  | cons e es ih =>
    have he := hes e List.mem_cons_self
    have hes' : ∀ x ∈ es, 1 ≤ x.cnt := fun x hx => hes x (List.mem_cons_of_mem _ hx)
    simp only [blockCount_cons] at hfit
    rw [Plan.addAll, List.foldl_cons, ← Plan.addAll]
    have hadd : Plan.add T write ⟨[], cur, left, tape, false, []⟩ e =
        if left ≤ blockCount cur + e.cnt then Plan.fill T write ⟨[], cur, left, tape, false, []⟩ e
        else ⟨[], cur ++ [e], left, tape, false, []⟩ := rfl
    by_cases hfull : left ≤ blockCount cur + e.cnt
    · -- this segment ends at the end of the tape, so it is the last one
      have hz : blockCount es = 0 := by omega
      have hnil : es = [] := by
        cases es with
        | nil => rfl
        | cons x xs =>
          have := hes' x List.mem_cons_self
          simp only [blockCount_cons] at hz
          omega
      have hins : left - blockCount cur = e.cnt := by omega
      subst hnil
      rw [hadd, if_pos hfull, if_neg (by simp; omega)]
      simp [Plan.addAll, Plan.fill, hins]
    · rw [hadd, if_neg hfull, ih (by simp; omega) hes' (by simp; omega)]
      simp [Nat.add_assoc]

end

section
variable {info : SectionInfo} {q : Request}

theorem Request.blockCount_entries (q : Request) : blockCount q.entries = q.blocks.length := by
  simp [Request.entries, Request.blocks, requestBlocks]

theorem Request.InTape.cnt_pos (h : q.InTape info) : ∀ e ∈ q.entries, 1 ≤ e.cnt := by
  intro e he
  obtain ⟨sg, hsg, rfl⟩ := List.mem_map.mp he
  obtain ⟨hdvd, hpos⟩ := h.len sg hsg
  exact Nat.div_pos (Nat.le_of_dvd hpos hdvd) (by decide)

theorem blockCount_ge_of_mem {es : List Entry} {e : Entry} (h : e ∈ es) :
    e.cnt ≤ blockCount es := by
  unfold blockCount
  exact List.le_sum_of_mem (List.mem_map_of_mem h)

theorem Request.InTape.segsOk (h : q.InTape info) : SegsOk info.blocksInTape q.env.segs := by
  intro sg hsg
  have he : sg.entry ∈ q.entries := List.mem_map_of_mem hsg
  have hle := blockCount_ge_of_mem he
  rw [q.blockCount_entries] at hle
  exact ⟨h.cnt_pos _ he, (hle.trans (Nat.le_add_left _ _)).trans h.tape⟩

theorem Request.InTape.one_le (h : q.InTape info) : 1 ≤ q.blocks.length := by
  rw [← q.blockCount_entries]
  exact one_le_blockCount h.segsOk h.count.1

/-- One command for the whole request. -/
theorem Request.InTape.plan (h : q.InTape info) :
    (requestPlan info.blocksInTape q.write q.start q.env.segs).entries = q.entries ∧
    requestCmds info.blocksInTape q.write q.start q.env.segs = q.cmds info.blocksInTape := by
  have hT : q.start % info.blocksInTape < info.blocksInTape :=
    Nat.mod_lt _ (by have := (blocksInTape_range info).1; omega)
  have hn := h.one_le
  have htape := h.tape
  have hcnt := q.blockCount_entries
  unfold requestCmds requestPlan Plan.start
  change (Plan.addAll _ _ _ q.entries).entries = q.entries ∧
    setupCmds _ _ ++ (Plan.addAll _ _ _ q.entries).close q.write = _
  rw [Plan.addAll_fits (by simp; omega) h.cnt_pos (by simp; omega)]
  split
  · have hne : blockCount ([] ++ q.entries) ≠ 0 := by
      rw [List.nil_append]
      omega
    rw [Plan.close, if_pos hne]
    simp [Plan.entries, Request.cmds, hcnt]
  · next hlt =>
    have hleft : info.blocksInTape - q.start % info.blocksInTape = q.blocks.length := by
      simp only [blockCount_nil, Nat.zero_add] at hlt
      omega
    simp [Plan.entries, Plan.close, Request.cmds, hleft]

/-- Planning succeeds when nothing fails to allocate, and what it computes. -/
theorem planRequest_inTape (hb : info.blkType = 0) (h : q.InTape info) (pgt : Nat → Nat) :
    (q.Allocated → ∃ st, planRequest info q.write q.env q.start pgt = .ok st) ∧
    ∀ st, planRequest info q.write q.env q.start pgt = .ok st →
      st.cmds = (q.cmds info.blocksInTape).map Cmd.node ∧ st.pgtBuf = tableOf pgt q.entries := by
  obtain ⟨hent, hcmds⟩ := h.plan
  constructor
  · rintro ⟨hmain, hoom⟩
    refine planRequest_ok hb h.segsOk hoom hmain h.count ?_
      (by simpa [hent, Request.entries] using h.count.2)
    have hs := h.start
    have htape := h.tape
    have hcnt := q.blockCount_entries
    rw [Request.entries] at hcnt
    rw [hcnt, sectors_512 hb]
    rw [sectors_512 hb] at hs
    have hdiv := Nat.div_add_mod q.start info.blocksInTape
    have hlt : q.start / info.blocksInTape + 1 ≤ info.nTapes :=
      Nat.div_lt_of_lt_mul hs
    have hmul := Nat.mul_le_mul_left info.blocksInTape hlt
    rw [Nat.mul_add, Nat.mul_one] at hmul
    omega
  · intro st hst
    obtain ⟨-, -, hc, ht, -⟩ := planRequest_inv hb h.segsOk hst
    rw [hc, ht, hent, hcmds]
    exact ⟨rfl, rfl⟩

/-! ## The memory -/

theorem Request.InTape.entries_ok (h : q.InTape info) : ∀ e ∈ q.entries, e.Ok := by
  intro e he
  have hpos := h.cnt_pos e he
  obtain ⟨sg, hsg, rfl⟩ := List.mem_map.mp he
  obtain ⟨hdvd, hne, hlt⟩ := h.addr sg hsg
  have hle := (h.segsOk sg hsg).2
  have hT := (blocksInTape_range info).2
  exact ⟨hdvd, hne, hlt, hpos, by simp only [Seg.entry]; omega⟩

theorem Request.InTape.length_entries (h : q.InTape info) : q.entries.length ≤ 512 := by
  simpa [Request.entries] using h.count.2

/-- The units of an entry's blocks. -/
theorem Entry.map_blocks (e : Entry) :
    e.blocks.map (· / 512) = (List.range e.cnt).map fun k => e.addr / 512 + k := by
  unfold Entry.blocks
  rw [List.map_map]
  refine List.map_congr_left fun k _ => ?_
  exact Nat.add_mul_div_left _ _ (by decide)

/-- Disjoint segments have different units. -/
theorem Request.InTape.units_nodup (h : q.InTape info) : (q.blocks.map (· / 512)).Nodup := by
  have hu : q.blocks.map (· / 512) =
      q.env.segs.flatMap fun sg => (List.range sg.entry.cnt).map fun k => sg.addr / 512 + k := by
    simp only [Request.blocks, requestBlocks, entryBlocks, List.map_flatMap, List.flatMap_map,
      Entry.map_blocks]
    rfl
  rw [hu, List.nodup_flatMap]
  constructor
  · intro sg _
    exact List.Nodup.map (fun a b hab => Nat.add_left_cancel hab) List.nodup_range
  · refine List.Pairwise.imp_of_mem (fun {a b} ha hb hab => ?_) h.disjoint
    obtain ⟨x, hx⟩ := (h.addr a ha).1
    obtain ⟨y, hy⟩ := (h.addr b hb).1
    obtain ⟨m, hm⟩ := (h.len a ha).1
    obtain ⟨n, hn⟩ := (h.len b hb).1
    intro u hua hub
    obtain ⟨i, hi, rfl⟩ := List.mem_map.mp hua
    obtain ⟨j, hj, hij⟩ := List.mem_map.mp hub
    rw [List.mem_range] at hi hj
    simp only [Seg.entry, hm, hn] at hi hj
    omega

/-- A block's unit is not the unit of a block before it. -/
theorem Request.InTape.unit_ne (h : q.InTape info) {k b : Nat} (hb : q.blocks[k]? = some b) :
    ∀ c ∈ q.blocks.take k, c / 512 ≠ b / 512 := by
  intro c hc heq
  obtain ⟨i, hi⟩ := List.getElem?_of_mem hc
  have hik : i < k := by
    by_contra hge
    rw [List.getElem?_eq_none (by simp; omega)] at hi
    cases hi
  rw [List.getElem?_take_of_lt hik] at hi
  have hnd := h.units_nodup
  have hi' : (q.blocks.map (· / 512))[i]? = some (b / 512) := by simp [hi, heq]
  have hk' : (q.blocks.map (· / 512))[k]? = some (b / 512) := by simp [hb]
  have hlt : i < (q.blocks.map (· / 512)).length := (List.getElem?_eq_some_iff.mp hi').1
  have := (List.getElem?_inj hlt hnd).mp (hi'.trans hk'.symm)
  omega

end

end Zso.Tape

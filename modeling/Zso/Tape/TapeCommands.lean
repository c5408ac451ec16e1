import Zso.Tape.OneTape
import Zso.Tape.RealDevice
import Zso.Tape.WireFormat

/-!
# The commands of a request on the device

What the device makes of the five commands of a request within one tape, from any tape
and any position: it ejects what is loaded, takes the tape, rewinds it, forwards it to
the first block, and transfers block after block.

`Carries` is the specification of a command: from `P` the device starts it and is then in
`I`, which its steps keep until the command is done and `Q` holds. `carries` has it for
the commands of a request.
-/

namespace Zso.Tape
open Bits

variable {β : Type}

/-! ## The geometry registers -/

/-- The page-table address, the block size, the number of tapes and their size. -/
def Aacc.geometry (s : Aacc β) : Nat × Nat × Nat × Nat := (s.aaab, s.aaac, s.aaad, s.aaae)

theorem CursorOnly.geometry {s s' : Aacc β} (h : CursorOnly s s') : s'.geometry = s.geometry := by
  rw [h]
  rfl

theorem aaboNext_geometry (s : Aacc β) : (aaboNext s).1.geometry = s.geometry := by
  obtain ⟨f, g, n, o, p, hs⟩ := aaboNext_frame s
  rw [hs]
  dsimp only
  split <;> rfl

theorem aabo_geometry (s : Aacc β) (isRead : Bool) (mem : Nat → β) (io : Io) :
    (aabo s isRead mem io).1.1.geometry = s.geometry := by
  cases aabo_step s isRead mem io with
  | ended s' g st hc hg hst ha =>
    rw [ha]
    exact hc.geometry
  | moved s' file hc ha =>
    rw [ha]
    exact (aaboNext_geometry { s' with aadb := file }).trans hc.geometry

/-- A step of a section leaves the geometry alone. -/
theorem aabf_geometry (s : Aacc β) (mem : Nat → β) (io : Io) :
    (aabf s mem io).1.1.geometry = s.geometry := by
  unfold aabf
  cases s.aadg with
  | ffwd =>
    obtain ⟨f, g, hfg⟩ := aaas_frame s (s.aaaj * s.blockSize)
    simp only [hfg]
    rfl
  | read => exact aabo_geometry s true mem io
  | write => exact aabo_geometry s false mem io
  | _ => rfl

theorem aabm_geometry (s : Aacc β) (w : Nat) : (aabm 2 s w).1.geometry = s.geometry := by
  by_cases hi : s.aadg = .idle
  · rcases aabm_cases hi w with ⟨s', g, he, -, hargs, -⟩ | ⟨st, he, -⟩
    · rw [he, hargs]
      rfl
    · rw [he]
      rfl
  · rw [aabm_busy hi]

/-- The registers of a section of 512-byte blocks agree with what the driver knows. -/
structure Aacc.Mounted (info : SectionInfo) (s : Aacc β) : Prop where
  table : s.aaab ≠ 0
  blk : s.aaac = 0
  tapes : s.aaad = info.nTapes
  type : s.aaae = info.sectionType

theorem Aacc.Mounted.congr {info : SectionInfo} {s t : Aacc β} (h : s.Mounted info)
    (hg : t.geometry = s.geometry) : t.Mounted info := by
  simp only [Aacc.geometry, Prod.mk.injEq] at hg
  exact ⟨hg.1 ▸ h.table, hg.2.1.trans h.blk, hg.2.2.1.trans h.tapes, hg.2.2.2.trans h.type⟩

section
variable {info : SectionInfo} {s : Aacc β}

theorem Aacc.Mounted.blockSize (h : s.Mounted info) : s.blockSize = 512 := by
  simp [Aacc.blockSize, h.blk]

theorem Aacc.Mounted.tapeSize (h : s.Mounted info) (hb : info.blkType = 0) :
    s.tapeSize = 512 * info.blocksInTape := by
  rw [blocksInTape_512 hb, Aacc.tapeSize, h.type, Nat.shiftLeft_eq]
  ring

/-! ## One block -/

/-- The walk depends on the cursor only. -/
theorem Walk.congr {t : Aacc β} {bs : List Nat} (h : Walk s bs) (hn : t.aaan = s.aaan)
    (ho : t.aaao = s.aaao) (hp : t.aaap = s.aaap) : Walk t bs := by
  rcases h with h | ⟨e, k, es, hw, hbs⟩
  · exact .inl h
  · refine .inr ⟨e, k, es, ⟨hw.k_lt, ho.trans hw.off, ?_, ?_, ?_, hw.ok, hw.oks⟩, hbs⟩
    · rw [hp, hn]
      exact hw.here
    · rw [hp, hn]
      exact hw.next
    · rw [hn]
      exact hw.room

theorem copyUnits_one (dst src : Nat) (f g : Nat → β) :
    copyUnits 1 dst src f g = Function.update f dst (g src) := by
  funext a
  unfold copyUnits
  by_cases ha : a = dst
  · subst ha
    rw [Function.update_self, if_pos (by omega), Nat.sub_self, Nat.add_zero]
  · rw [Function.update_of_ne ha, if_neg (by omega)]

/-- The block under the cursor is copied. -/
theorem aaboMove_ok (h : s.Mounted info) {x : Io} (hx : x.Ok) {b : Nat} (hb : aabb s = b)
    (hb0 : b ≠ 0) (isRead : Bool) (pos : Nat) (mem : Nat → β) :
    aaboMove s isRead pos mem x =
      if isRead then (aaboNext s, Function.update mem (b / 512) (s.aadb (pos / 512)))
      else (aaboNext { s with aadb := Function.update s.aadb (pos / 512) (mem (b / 512)) }, mem) := by
  have hu : s.blockSize / 512 = 1 := by rw [h.blockSize]
  unfold aaboMove
  rw [hb]
  dsimp only
  rw [if_neg hb0, if_neg (by simp [hx.seek]), hu, copyUnits_one, copyUnits_one]
  cases isRead with
  | true => rw [if_pos rfl, if_pos rfl, if_neg (by simp [hx.file]), if_neg (by simp [hx.dma])]
  | false =>
    simp only [Bool.false_eq_true, if_false]
    rw [if_neg (by simp [hx.dma]), if_neg (by simp [hx.file])]

/-- What the bookkeeping after a block leaves. -/
structure NextBlock (s : Aacc β) (p : Nat) (bs : List Nat) (t : Aacc β) : Prop where
  tape : t.aaaa = s.aaaa
  pos : t.aaaf = 512 * (p + 1)
  moved : t.aaak = s.aaak + 1
  left : t.aaal = s.aaal - 1
  offset : t.aaam = s.aaam
  file : t.aadb = s.aadb
  walk : Walk t bs

/-- `aaba` concerns the cursor only. -/
theorem NextBlock.of_aaba {t u : Aacc β} {p n : Nat} {bs : List Nat}
    (hc : CursorOnly { s with aaak := s.aaak + 1 } t) (hw : Walk t bs)
    (hp : u32 (s.aaaf + n) = 512 * (p + 1))
    (hu : u = { aaas t n with aaal := s.aaal - 1 }) : NextBlock s p bs u := by
  have ha : t.aaaa = s.aaaa := by rw [hc]
  have hf : t.aaaf = s.aaaf := by rw [hc]
  have hk : t.aaak = s.aaak + 1 := by rw [hc]
  have hm : t.aaam = s.aaam := by rw [hc]
  have hb : t.aadb = s.aadb := by rw [hc]
  clear hc
  rw [← hf] at hp
  subst hu
  exact {
    tape := ha
    pos := hp
    moved := hk
    left := rfl
    offset := hm
    file := hb
    walk := hw.congr rfl rfl rfl }

theorem aaboNext_block (h : s.Mounted info) {p b : Nat} {bs : List Nat} (hw : Walk s (b :: bs))
    (hp : s.aaaf = 512 * p) (hlt : 512 * (p + 1) < 2 ^ 32) :
    ∃ t, NextBlock s p bs t ∧
      aaboNext s = if 1 < s.aaal then (t, none) else aabc t .idle .done := by
  have hw' : Walk { s with aaak := s.aaak + 1 } (b :: bs) := by
    refine hw.congr ?_ ?_ ?_ <;> exact rfl
  have hpos : u32 (s.aaaf + s.blockSize) = 512 * (p + 1) := by
    rw [hp, h.blockSize, u32_of_lt (by omega)]
    omega
  have hc : CursorOnly { s with aaak := s.aaak + 1 } (aaba { s with aaak := s.aaak + 1 }) :=
    aaba_frame _
  exact ⟨_, .of_aaba hc (aaba_walk hw') hpos rfl, aaboNext_eq rfl⟩

end

/-! ## A transfer -/

/-- Blocks of 512 bytes, and less than 4 GiB. -/
structure SectionInfo.Small (info : SectionInfo) : Prop where
  blk : info.blkType = 0
  size : 512 * info.sectors < 2 ^ 32

/-- What a section stores, and the memory on the bus. -/
def Dev.flat (d : Dev β) : Flat β := ⟨d.sec.aadb, d.mem, none⟩

/-- The page table describes the segments of the request. -/
def Request.Described (q : Request) (table : Nat → Nat) : Prop :=
  ∀ i e, q.entries[i]? = some e → table i = pgtEntry e.addr e.cnt

/-- The device has transferred `k` blocks of the request, and is to go on. -/
structure Transferring (T : Nat) (q : Request) (f : Flat β) (k : Nat) (d : Dev β) : Prop where
  tape : d.sec.aaaa = q.start / T + 1
  pos : d.sec.aaaf = 512 * (q.start % T + k)
  moved : d.sec.aaak = k
  left : d.sec.aaal = q.blocks.length - k
  lt : k < q.blocks.length
  offset : d.sec.aaam = 0
  walk : 0 < k → Walk d.sec (q.blocks.drop k)
  moves : q.Moves (q.blocks.take k) f d.flat

section
variable {info : SectionInfo} {q : Request} {f : Flat β} {k : Nat} {d : Dev β} {x : Io}
  {table : Nat → Nat}

/-- The request ends before 4 GiB. -/
theorem Request.InTape.end_lt (h : q.InTape info) (hi : info.Small) :
    512 * (q.start + q.blocks.length) < 2 ^ 32 := by
  have hsize := hi.size
  have hs := h.start
  have htape := h.tape
  rw [sectors_512 hi.blk] at hsize hs
  have hdiv := Nat.div_add_mod q.start info.blocksInTape
  have hlt : q.start / info.blocksInTape + 1 ≤ info.nTapes := Nat.div_lt_of_lt_mul hs
  have hmul := Nat.mul_le_mul_left info.blocksInTape hlt
  rw [Nat.mul_add, Nat.mul_one] at hmul
  omega

/-- The host file has the blocks of a request where the flat disk has them. -/
theorem Transferring.offset_eq (h : Transferring info.blocksInTape q f k d)
    (hm : d.sec.Mounted info) (hi : info.Small) (hq : q.InTape info) :
    aaar d.sec = 512 * (q.start + k) := by
  have hend := hq.end_lt hi
  have hk := h.lt
  have hdiv := Nat.div_add_mod q.start info.blocksInTape
  have hsum : (q.start / info.blocksInTape + 1 - 1) * (512 * info.blocksInTape) +
      512 * (q.start % info.blocksInTape + k) = 512 * (q.start + k) := by
    rw [Nat.add_sub_cancel]
    calc q.start / info.blocksInTape * (512 * info.blocksInTape) +
          512 * (q.start % info.blocksInTape + k)
        = 512 * (info.blocksInTape * (q.start / info.blocksInTape) +
            q.start % info.blocksInTape + k) := by ring
      _ = 512 * (q.start + k) := by rw [hdiv]
  rw [aaar, h.tape, hm.tapeSize hi.blk, h.pos, hsum, u32_of_lt (by omega)]

/-- Before the first block the device loads the page table. -/
theorem Transferring.aabo_eq (h : Transferring info.blocksInTape q f k d)
    (hm : d.sec.Mounted info) (hi : info.Small) (hq : q.InTape info)
    (ht : x.table = some table) (htab : q.Described table) (isRead : Bool) :
    ∃ s, CursorOnly d.sec s ∧ Walk s (q.blocks.drop k) ∧
      aabo d.sec isRead d.mem x = aaboMove s isRead (512 * (q.start + k)) d.mem x := by
  have hpos := h.offset_eq hm hi hq
  have hk := h.lt
  have htape := hq.tape
  have hrange : ¬ (d.sec.aaaf ≥ d.sec.tapeSize ∨ d.sec.aaaf + d.sec.blockSize > d.sec.tapeSize) := by
    rw [h.pos, hm.tapeSize hi.blk, hm.blockSize]
    omega
  have hne : d.sec.aaaa ≠ 0 := by
    rw [h.tape]
    exact Nat.succ_ne_zero _
  have hleft : d.sec.aaal ≠ 0 := by
    rw [h.left]
    omega
  unfold aabo
  dsimp only
  rw [hpos, if_neg hne, if_neg hm.table, if_neg hrange, if_neg hleft]
  by_cases hk0 : d.sec.aaak = 0
  · obtain ⟨s, hs, hw, hc⟩ := aabn_walk d.sec x ht htab hq.length_entries hq.entries_ok
      (by rw [h.offset]; exact Nat.zero_le _)
    rw [if_pos hk0, hs]
    rw [h.moved] at hk0
    rw [h.offset] at hw
    exact ⟨s, hc, hk0 ▸ hw, rfl⟩
  · rw [if_neg hk0]
    rw [h.moved] at hk0
    exact ⟨d.sec, rfl, h.walk (Nat.pos_of_ne_zero hk0), rfl⟩

/-- The bookkeeping of one block. -/
theorem Transferring.next {T : Nat} (h : Transferring T q f k d) {s t : Aacc β} {mem : Nat → β}
    (ha : s.aaaa = d.sec.aaaa) (hk : s.aaak = d.sec.aaak) (hl : s.aaal = d.sec.aaal)
    (ho : s.aaam = d.sec.aaam)
    (hn : NextBlock s (q.start % T + k) (q.blocks.drop (k + 1)) t)
    (hmv : q.Moves (q.blocks.take (k + 1)) f (Dev.flat ⟨t, mem⟩))
    (hlt : k + 1 < q.blocks.length) : Transferring T q f (k + 1) ⟨t, mem⟩ where
  tape := hn.tape.trans (ha.trans h.tape)
  pos := hn.pos
  moved := by rw [hn.moved, hk, h.moved]
  left := by
    rw [hn.left, hl, h.left]
    omega
  lt := hlt
  offset := hn.offset.trans (ho.trans h.offset)
  walk _ := hn.walk
  moves := hmv

/-- A block is transferred: the next one is to come, or the command is done. -/
theorem Transferring.step (h : Transferring info.blocksInTape q f k d)
    (hm : d.sec.Mounted info) (hi : info.Small) (hq : q.InTape info) (hx : x.Ok)
    (ht : x.table = some table) (htab : q.Described table) :
    ∃ t mem, aabo d.sec (!q.write) d.mem x =
        (if k + 1 < q.blocks.length then (t, none) else aabc t .idle .done, mem) ∧
      q.Moves (q.blocks.take (k + 1)) f (Dev.flat ⟨t, mem⟩) ∧
      (k + 1 < q.blocks.length → Transferring info.blocksInTape q f (k + 1) ⟨t, mem⟩) := by
  obtain ⟨s, hc, hw, heq⟩ := h.aabo_eq hm hi hq ht htab (!q.write)
  have hk := h.lt
  obtain ⟨b, hb⟩ : ∃ b, q.blocks[k]? = some b := ⟨_, List.getElem?_eq_getElem hk⟩
  have hdrop : q.blocks.drop k = b :: q.blocks.drop (k + 1) := by
    rw [List.drop_eq_getElem_cons hk]
    rw [List.getElem?_eq_getElem hk] at hb
    rw [Option.some.inj hb]
  have htake : q.blocks.take (k + 1) = q.blocks.take k ++ [b] := by
    rw [List.take_add_one, hb]
    rfl
  have hlen : (q.blocks.take k).length = k := by
    rw [List.length_take]
    omega
  rw [hdrop] at hw
  have hms : s.Mounted info := hm.congr hc.geometry
  have hs : s.aaaa = d.sec.aaaa ∧ s.aaaf = d.sec.aaaf ∧ s.aaak = d.sec.aaak ∧
      s.aaal = d.sec.aaal ∧ s.aaam = d.sec.aaam ∧ s.aadb = d.sec.aadb := by
    rw [hc]
    exact ⟨rfl, rfl, rfl, rfl, rfl, rfl⟩
  obtain ⟨ha, hf, hk', hl, ho, hd⟩ := hs
  clear hc
  have hend := hq.end_lt hi
  have hmod := Nat.mod_le q.start info.blocksInTape
  have hpos : s.aaaf = 512 * (q.start % info.blocksInTape + k) := hf.trans h.pos
  have hlt : 512 * (q.start % info.blocksInTape + k + 1) < 2 ^ 32 := by omega
  have hleft : 1 < s.aaal ↔ k + 1 < q.blocks.length := by
    rw [hl, h.left]
    omega
  obtain ⟨haddr, hb0⟩ := aabb_walk hw hms.blk
  have hunit : 512 * (q.start + k) / 512 = q.start + k := Nat.mul_div_cancel_left _ (by decide)
  rw [heq, aaboMove_ok hms hx haddr hb0, hunit]
  have hmoves := h.moves
  unfold Request.Moves at hmoves
  cases hwr : q.write with
  | false =>
    obtain ⟨t, hn, hnext⟩ := aaboNext_block hms hw hpos hlt
    rw [hwr, if_neg (by decide)] at hmoves
    have hmv : q.Moves (q.blocks.take (k + 1)) f
        (Dev.flat ⟨t, Function.update d.mem (b / 512) (s.aadb (q.start + k))⟩) := by
      unfold Request.Moves
      rw [hwr, if_neg (by decide), htake]
      refine hmoves.snoc (hq.unit_ne hb) ?_ (hn.file.trans hd)
      rw [hlen, hd]
      rfl
    rw [Bool.not_false, if_pos rfl, hnext.trans (if_congr hleft rfl rfl)]
    exact ⟨t, _, rfl, hmv, h.next ha hk' hl ho hn hmv⟩
  | true =>
    obtain ⟨g, hg⟩ : ∃ g, g = Function.update s.aadb (q.start + k) (d.mem (b / 512)) := ⟨_, rfl⟩
    have hw' : Walk { s with aadb := g } (b :: q.blocks.drop (k + 1)) := by
      refine hw.congr ?_ ?_ ?_ <;> exact rfl
    have hms' : Aacc.Mounted info { s with aadb := g } := by
      refine hms.congr ?_
      rfl
    obtain ⟨t, hn, hnext⟩ := aaboNext_block hms' hw' hpos hlt
    rw [hwr, if_pos rfl] at hmoves
    have hmv : q.Moves (q.blocks.take (k + 1)) f (Dev.flat ⟨t, d.mem⟩) := by
      unfold Request.Moves
      rw [hwr, if_pos rfl, htake]
      refine hmoves.snoc ?_ rfl
      rw [hlen]
      exact hn.file.trans (hg.trans (by rw [hd]; rfl))
    rw [Bool.not_true, if_neg (by decide), ← hg, hnext.trans (if_congr hleft rfl rfl)]
    exact ⟨t, _, rfl, hmv, h.next (s := { s with aadb := g }) ha hk' hl ho hn hmv⟩

end

/-! ## Commands -/

/-- A status that lets the driver go on: ERR_NO_TAPE is as good as DONE for an EJECT. -/
def Settles (c : Cmd) (st : SectStatus) : Prop := st = .done ∨ st = .errNoTape ∧ c = .ejectTape

/-- What the device may answer to the command `c`. -/
structure Outcome (c : Cmd) (I Q : Dev β → Prop) (r : Dev β × Option SectStatus) : Prop where
  goes : r.2 = none → I r.1
  ends : ∀ st, r.2 = some st → Settles c st ∧ Q r.1

/-- All host accesses succeed, and the page table is read as it is. -/
structure Io.Serves (x : Io) (buf : Nat → Nat) : Prop extends x.Ok where
  read : ∀ t, x.table = some t → ∀ i, i < 512 → t i = buf i

/-- The specification of a command: from `P` the device starts it and is then in `I`, which
its steps keep until the command is over and `Q` holds. -/
structure Carries (info : SectionInfo) (buf : Nat → Nat) (c : Cmd) (P I Q : Dev β → Prop) :
    Prop where
  start : ∀ d, d.sec.aadg = .idle → d.sec.Mounted info → P d →
    Outcome c I Q ((realDevice β).write d c.encode)
  step : ∀ d x r, d.sec.Executes c.encode → d.sec.Mounted info → I d → x.Serves buf →
    d.move (.io x) = some r → Outcome c I Q r

section
variable {info : SectionInfo} {buf : Nat → Nat} {c : Cmd} {I Q : Dev β → Prop} {d : Dev β} {x : Io}
  {r : Dev β × Option SectStatus}

theorem Outcome.started {s : Aacc β} {g : Aadg}
    (h : I ⟨{ s with aadg := g, aadf := .working }, d.mem⟩) :
    Outcome c I Q ({ d with sec := (aabd s g).1 }, answerStatus (aabd s g)) :=
  ⟨fun _ => h, by rintro st ⟨⟩⟩

theorem Outcome.completed {s : Aacc β} {g : Aadg} {st : SectStatus} {mem : Nat → β}
    (hst : Settles c st) (h : Q ⟨aaaz { s with aadg := g, aadf := st }, mem⟩) :
    Outcome c I Q (⟨(aabc s g st).1, mem⟩, answerStatus (aabc s g st)) := by
  refine ⟨by rintro ⟨⟩, fun st' hst' => ?_⟩
  cases hst'
  exact ⟨hst, h⟩

theorem write_encode (hi : d.sec.aadg = .idle) (hc : c.InRange) :
    (realDevice β).write d c.encode =
      ({ d with sec := (c.start d.sec).1 }, answerStatus (c.start d.sec)) := by
  show ({ d with sec := (aabm 2 d.sec c.encode).1 }, answerStatus (aabm 2 d.sec c.encode)) = _
  rw [aabm_decode hi, decodeCmd_encode hc]
  rfl

/-- A command that is over with its first step. -/
theorem Outcome.single {s : Aacc β} (hr : d.move (.io x) = some r)
    (hf : aabf d.sec d.mem x = (aabc s .idle .done, d.mem))
    (h : Q ⟨aaaz { s with aadg := .idle, aadf := .done }, d.mem⟩) : Outcome c I Q r := by
  rw [(Dev.move_io hr).2, hf]
  exact .completed (.inl rfl) h

/-- The device has changed neither the blocks nor the memory. -/
structure Dev.Still (f : Flat β) (d : Dev β) : Prop where
  disk : d.sec.aadb = f.disk
  mem : d.mem = f.mem

/-- The device before the command with index `i` of the request. -/
def Request.Stage (T : Nat) (q : Request) (f : Flat β) (i : Nat) (d : Dev β) : Prop :=
  match i with
  | 0 => d.Still f
  | 1 => d.Still f ∧ d.sec.aaaa = 0
  | 2 => d.Still f ∧ d.sec.aaaa = q.start / T + 1
  | 3 => d.Still f ∧ d.sec.aaaa = q.start / T + 1 ∧ d.sec.aaaf = 0
  | 4 => d.Still f ∧ d.sec.aaaa = q.start / T + 1 ∧ d.sec.aaaf = 512 * (q.start % T)
  | _ => q.Moves q.blocks f d.flat

/-- The device while it executes that command. -/
def Request.Working (T : Nat) (q : Request) (f : Flat β) (i : Nat) (d : Dev β) : Prop :=
  if i = 4 then ∃ k, Transferring T q f k d else q.Stage T f i d

variable {f : Flat β} {q : Request}

/-- The tape exists. -/
theorem Request.InTape.tape_le (h : q.InTape info) (hi : info.Small) :
    q.start / info.blocksInTape + 1 ≤ info.nTapes := by
  have hs := h.start
  rw [sectors_512 hi.blk] at hs
  exact Nat.div_lt_of_lt_mul hs

theorem Request.InTape.mod_lt (_ : q.InTape info) :
    q.start % info.blocksInTape < info.blocksInTape :=
  Nat.mod_lt _ (by have := (blocksInTape_range info).1; omega)

/-- The arguments of the commands fit their fields. -/
theorem Request.InTape.inRange (h : q.InTape info) (hi : info.Small) :
    ∀ c ∈ q.cmds info.blocksInTape, c.InRange := by
  have htape := h.tape_le hi
  have hmod := h.mod_lt
  have hn := h.tape
  have hT := (blocksInTape_range info).2
  have hmax := info.tapes_le
  simp only [Request.cmds, setupCmds, List.cons_append, List.nil_append, List.mem_cons,
    List.not_mem_nil, or_false]
  rintro c (rfl | rfl | rfl | rfl | rfl)
  · trivial
  · show _ < _
    omega
  · trivial
  · show _ < _
    omega
  · exact ⟨by decide, by omega⟩

/-- An EJECT moves no data. -/
theorem carries_eject : Carries info buf .ejectTape (Dev.Still f) (Dev.Still f)
    (fun d => d.Still f ∧ d.sec.aaaa = 0) where
  start d hi hm hp := by
    rw [write_encode (c := .ejectTape) hi trivial]
    unfold Cmd.start needsTape
    dsimp only
    split
    · next h0 => exact .completed (.inr ⟨rfl, rfl⟩) ⟨⟨hp.disk, hp.mem⟩, h0⟩
    · exact .started ⟨hp.disk, hp.mem⟩
  step d x r hex hm hp hx hr := by
    have hg : d.sec.aadg = .eject := hex.1
    refine .single (s := aaau d.sec) hr ?_ ⟨⟨hp.disk, hp.mem⟩, rfl⟩
    unfold aabf
    rw [hg]

theorem executes_encode {s : Aacc β} (h : s.Executes c.encode) (hc : c.InRange) :
    match c with
    | .takeTape t => s.aadg = .take ∧ s.aaai = t
    | .ejectTape => s.aadg = .eject
    | .rewind => s.aadg = .rewind
    | .fastFwd n => s.aadg = .ffwd ∧ s.aaaj = n
    | .rw write _ _ => s.aadg = if write then .write else .read := by
  unfold Aacc.Executes at h
  rw [fieldCmd_encode] at h
  cases c with
  | takeTape t => exact ⟨h.1, h.2.2.1.trans (fieldArg_takeTape hc)⟩
  | ejectTape => exact h.1
  | rewind => exact h.1
  | fastFwd n => exact ⟨h.1, h.2.2.trans (fieldArg_fastFwd hc)⟩
  | rw write off n => cases write <;> exact h.1

/-- With a tape loaded a command is not refused for want of one. -/
theorem needsTape_loaded {s : Aacc β} {k : Answer β} {tape : Nat} (h : s.aaaa = tape + 1) :
    needsTape s k = k := if_neg (by rw [h]; exact Nat.succ_ne_zero _)

theorem carries_rewind : Carries info buf .rewind (q.Stage info.blocksInTape f 2)
    (q.Stage info.blocksInTape f 2) (q.Stage info.blocksInTape f 3) where
  start d hidle hm hp := by
    obtain ⟨hs, ht⟩ := hp
    rw [write_encode (c := .rewind) hidle trivial]
    unfold Cmd.start
    dsimp only
    rw [needsTape_loaded ht]
    exact .started ⟨⟨hs.disk, hs.mem⟩, ht⟩
  step d x r hex hm hp hx hr := by
    obtain ⟨hs, ht⟩ := hp
    have hg : d.sec.aadg = .rewind := executes_encode (c := .rewind) hex trivial
    refine .single (s := aaat d.sec) hr ?_ ⟨⟨hs.disk, hs.mem⟩, ht, rfl⟩
    unfold aabf
    rw [hg]

section
variable (hq : q.InTape info) (hi : info.Small)
include hq hi

theorem carries_take :
    Carries info buf (.takeTape (q.start / info.blocksInTape + 1)) (q.Stage info.blocksInTape f 1)
      (q.Stage info.blocksInTape f 1) (q.Stage info.blocksInTape f 2) where
  start d hidle hm hp := by
    obtain ⟨hs, h0⟩ := hp
    have hle := hq.tape_le hi
    rw [write_encode hidle (hq.inRange hi _ (by simp [Request.cmds, setupCmds]))]
    unfold Cmd.start
    dsimp only
    rw [if_neg (not_not.mpr h0), if_neg (by
      rw [hm.tapes]
      exact not_or.mpr ⟨not_lt.mpr hle, Nat.succ_ne_zero _⟩)]
    exact .started ⟨⟨hs.disk, hs.mem⟩, h0⟩
  step d x r hex hm hp hx hr := by
    obtain ⟨hs, h0⟩ := hp
    obtain ⟨hg, ht⟩ := executes_encode hex (hq.inRange hi _ (by simp [Request.cmds, setupCmds]))
    refine .single (s := aaaw d.sec) hr ?_ ⟨⟨hs.disk, hs.mem⟩, ht⟩
    unfold aabf
    rw [hg]

theorem carries_fastFwd :
    Carries info buf (.fastFwd (q.start % info.blocksInTape)) (q.Stage info.blocksInTape f 3)
      (q.Stage info.blocksInTape f 3) (q.Stage info.blocksInTape f 4) where
  start d hidle hm hp := by
    obtain ⟨hs, ht, h0⟩ := hp
    have hlt := hq.mod_lt
    have hdiv : d.sec.tapeSize / d.sec.blockSize = info.blocksInTape := by
      rw [hm.tapeSize hi.blk, hm.blockSize, Nat.mul_div_cancel_left _ (by decide)]
    rw [write_encode hidle (hq.inRange hi _ (by simp [Request.cmds, setupCmds]))]
    unfold Cmd.start
    dsimp only
    rw [needsTape_loaded ht, hdiv, if_neg (by omega)]
    exact .started ⟨⟨hs.disk, hs.mem⟩, ht, h0⟩
  step d x r hex hm hp hx hr := by
    obtain ⟨hs, ht, h0⟩ := hp
    obtain ⟨hg, hj⟩ := executes_encode hex (hq.inRange hi _ (by simp [Request.cmds, setupCmds]))
    have hpos : u32 (d.sec.aaaf + d.sec.aaaj * d.sec.blockSize) =
        512 * (q.start % info.blocksInTape) := by
      have hend := hq.end_lt hi
      have hmod := Nat.mod_le q.start info.blocksInTape
      rw [h0, hj, hm.blockSize, u32_of_lt (by omega)]
      omega
    refine .single (s := aaas d.sec (d.sec.aaaj * d.sec.blockSize)) hr ?_
      ⟨⟨hs.disk, hs.mem⟩, ht, hpos⟩
    unfold aabf
    rw [hg]

theorem carries_rw (hbuf : q.Described buf) :
    Carries info buf (.rw q.write 0 q.blocks.length) (q.Stage info.blocksInTape f 4)
      (q.Working info.blocksInTape f 4) (q.Stage info.blocksInTape f 5) where
  start d hidle hm hp := by
    obtain ⟨hs, ht, hpos⟩ := hp
    rw [write_encode hidle (hq.inRange hi _ (by simp [Request.cmds]))]
    unfold Cmd.start
    dsimp only
    rw [needsTape_loaded ht]
    refine .started ⟨0, ht, hpos, rfl, rfl, hq.one_le, rfl, fun h => absurd h (by decide), ?_⟩
    exact (q.moves_nil_iff _ _).mpr ⟨hs.disk, hs.mem⟩
  step d x r hex hm hp hx hr := by
    obtain ⟨k, hk⟩ : ∃ k, Transferring info.blocksInTape q f k d := hp
    obtain ⟨t, ht⟩ := Option.ne_none_iff_exists'.mp hx.table
    have hdesc : q.Described t := by
      intro i e he
      have hlt : i < q.entries.length := (List.getElem?_eq_some_iff.mp he).1
      rw [hx.read t ht i (hlt.trans_le hq.length_entries)]
      exact hbuf i e he
    have hg : d.sec.aadg = if q.write then .write else .read :=
      executes_encode (c := .rw q.write 0 q.blocks.length) hex
        (hq.inRange hi _ (by simp [Request.cmds]))
    have hf : aabf d.sec d.mem x = aabo d.sec (!q.write) d.mem x := by
      unfold aabf
      rw [hg]
      cases q.write <;> rfl
    obtain ⟨s', mem, ho, hmv, hgo⟩ := hk.step hm hi hq hx.toOk ht hdesc
    rw [(Dev.move_io hr).2, hf, ho]
    dsimp only
    by_cases hlast : k + 1 < q.blocks.length
    · rw [if_pos hlast]
      exact ⟨fun _ => ⟨k + 1, hgo hlast⟩, by rintro st ⟨⟩⟩
    · rw [if_neg hlast]
      have hall : q.blocks.take (k + 1) = q.blocks := List.take_of_length_le (by omega)
      rw [hall] at hmv
      exact .completed (.inl rfl) hmv

/-- The commands of a request, one after the other. -/
theorem carries (hbuf : q.Described buf) {i : Nat} {c : Cmd}
    (hc : (q.cmds info.blocksInTape)[i]? = some c) :
    Carries info buf c (q.Stage info.blocksInTape f i) (q.Working info.blocksInTape f i)
      (q.Stage info.blocksInTape f (i + 1)) := by
  have hlt : i < 5 := (List.getElem?_eq_some_iff.mp hc).1
  interval_cases i <;> cases hc
  · exact carries_eject
  · exact carries_take hq hi
  · exact carries_rewind
  · exact carries_fastFwd hq hi
  · exact carries_rw hq hi hbuf

end

end

end Zso.Tape

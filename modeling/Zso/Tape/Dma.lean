import Zso.Tape.Success
import Zso.Tape.Walk

/-!
# Transfers and requests

The page table is one buffer that every request overwrites, without the section
lock, and the device reads it again at the start of each READ and WRITE. This is
safe because a request is ended only when none of its commands is left, and the next
one is handed over only then.

`no_dma_after_end` says so: no command of a request that was ended is queued or
executed, the page table is written only while no command of a request is queued or
executed, and the device transfers only to and from the memory of the request that is
outstanding.
-/

namespace Zso.Tape
open Transition CommandLemmas

variable {β : Type}

/-! ## Walks that stay within a request's blocks -/

/-- The next `n` blocks of the walk are among `B`, unless the walk stops before. -/
def Confined (B : List Nat) : Nat → Aacc β → Prop
  | 0, _ => True
  | n + 1, s => aabb s = 0 ∨ aabb s ∈ B ∧ Confined B n (aaba s)

section
variable {s t : Aacc β} {B B' bs : List Nat} {n : Nat}

theorem Confined.mono (h : Confined B n s) (hB : ∀ b ∈ B, b ∈ B') : Confined B' n s := by
  induction n generalizing s with
  | zero => trivial
  | succ n ih => exact h.imp id fun h => ⟨hB _ h.1, ih h.2⟩

/-- The walk depends on the cursor only. -/
structure SameCursor (s t : Aacc β) : Prop where
  aaac : t.aaac = s.aaac
  aaan : t.aaan = s.aaan
  aaao : t.aaao = s.aaao
  aaap : t.aaap = s.aaap

theorem SameCursor.aabb (h : SameCursor s t) : aabb t = aabb s := by
  simp only [Tape.aabb, Aacc.blockSize, h.aaac, h.aaan, h.aaao, h.aaap]

theorem SameCursor.aaba (h : SameCursor s t) : SameCursor (aaba s) (aaba t) := by
  unfold Tape.aaba
  rw [h.aaap, h.aaan, h.aaao]
  extract_lets aadc aadd aabu aaap
  -- the decremented count is a word: it must not be computed
  clear_value aadd
  by_cases hz : aadd = 0
  · rw [if_pos hz, if_pos hz]
    exact ⟨h.aaac, rfl, rfl, rfl⟩
  · rw [if_neg hz, if_neg hz]
    exact ⟨h.aaac, rfl, rfl, rfl⟩

theorem Confined.congr (h : Confined B n s) (hc : SameCursor s t) : Confined B n t := by
  induction n generalizing s t with
  | zero => trivial
  | succ n ih =>
    unfold Confined at h ⊢
    rw [hc.aabb]
    exact h.imp id fun h => ⟨h.1, ih h.2 hc.aaba⟩

theorem aaba_aaac (s : Aacc β) : (aaba s).aaac = s.aaac := by rw [aaba_frame]

theorem Walk.confined (h : Walk s bs) (hb : s.aaac = 0) (hn : n ≤ bs.length) :
    Confined bs n s := by
  induction n generalizing s bs with
  | zero => trivial
  | succ n ih =>
    cases bs with
    | nil => simp at hn
    | cons b bs =>
      obtain ⟨hab, -⟩ := aabb_walk h hb
      have hrest := ih (aaba_walk h) ((aaba_aaac s).trans hb) (Nat.le_of_succ_le_succ hn)
      exact .inr ⟨by simp [hab], hrest.mono fun x hx => List.mem_cons_of_mem _ hx⟩

/-- The entry behind the table stops every walk. -/
theorem WalkTo.confined (h : WalkTo 512 s bs) (hg : s.aaap 512 = 0) (hb : s.aaac = 0) :
    Confined bs n s := by
  induction n generalizing s bs with
  | zero => trivial
  | succ n ih =>
    cases bs with
    | nil =>
      rcases h with ⟨-, hn⟩ | ⟨e, k, es, hw, -, h⟩
      · left
        simp [aabb, hn, hg]
      · rw [Entry.drop_blocks hw.k_lt] at h
        cases h
    | cons b bs =>
      obtain ⟨hab, -⟩ := aabb_walk h.walk hb
      obtain ⟨hw, htail⟩ := aaba_walkTo h
      have hrest := ih hw (htail.trans hg) ((aaba_aaac s).trans hb)
      exact .inr ⟨by simp [hab], hrest.mono fun x hx => List.mem_cons_of_mem _ hx⟩

end

/-- A command with this offset and count, executed with this page table, stays within
the blocks `B`. -/
def Confines (β : Type) (table : Nat → Nat) (B : List Nat) (off n : Nat) : Prop :=
  ∀ (s s' : Aacc β) (io : Io), s.aaac = 0 → s.aaap 512 = 0 → s.aaam = off →
    io.table = some table → aabn s io = .ok s' → Confined B n s'

theorem mem_entryBlocks_take {es : List Entry} {k b : Nat} (h : b ∈ entryBlocks (es.take k)) :
    b ∈ entryBlocks es := by
  rw [← List.take_append_drop k es, entryBlocks_append]
  exact List.mem_append_left _ h

theorem confines_entries {table : Nat → Nat} {es : List Entry} {off n : Nat}
    (htab : ∀ i x, es[i]? = some x → table i = pgtEntry x.addr x.cnt) (hok : ∀ x ∈ es, x.Ok)
    (hoff : off < 512) (hn : off + n ≤ blockCount es) : Confines β table (entryBlocks es) off n := by
  intro s s' io hb hg hs hio he
  by_cases hlen : es.length ≤ 512
  · obtain ⟨t, ht, hw, hframe⟩ := aabn_walk s io hio htab hlen hok (by omega)
    rw [ht] at he
    obtain rfl := Except.ok.inj he
    have hc := hw.confined (n := n) (by rw [hframe]; exact hb) (by simp; omega)
    exact hc.mono fun b hx => List.mem_of_mem_drop hx
  · -- the device has only the first 512 entries
    have h512 : (es.take 512).length = 512 := by simp; omega
    have hpos : ∀ e ∈ es.take 512, 1 ≤ e.cnt := fun e he => (hok e (List.mem_of_mem_take he)).cnt_pos
    have hcnt := length_le_blockCount hpos
    have htab' : ∀ i x, (es.take 512)[i]? = some x → table i = pgtEntry x.addr x.cnt := by
      intro i x hx
      rw [List.getElem?_take] at hx
      split at hx
      · exact htab i x hx
      · cases hx
    obtain ⟨t, ht, hw, htail, hframe⟩ := aabn_walkTo s io hio htab' (by omega)
      (fun x hx => hok x (List.mem_of_mem_take hx)) (by omega)
    rw [ht] at he
    obtain rfl := Except.ok.inj he
    rw [h512] at hw
    have hc := hw.confined (n := n) ((htail h512).trans hg) (by rw [hframe]; exact hb)
    exact hc.mono fun b hx => mem_entryBlocks_take (List.mem_of_mem_drop hx)

/-- The blocks a piece's command selects begin within the blocks before the piece. -/
theorem pieceRws_bound {qs : List (List Entry)} (hpos : ∀ e ∈ qs.flatten, 1 ≤ e.cnt) {o off n : Nat}
    (h : (off, n) ∈ pieceRws o qs) : off + n ≤ o + blockCount qs.flatten := by
  induction qs generalizing o with
  | nil => cases h
  | cons q qs ih =>
    have hq : q.length ≤ blockCount q := length_le_blockCount fun e he => hpos e (by simp [he])
    simp only [pieceRws, List.mem_cons, Prod.mk.injEq] at h
    simp only [List.flatten_cons, blockCount_append]
    rcases h with ⟨rfl, rfl⟩ | h
    · omega
    · have := ih (fun e he => hpos e (by simp [he])) h
      omega

/-- READ and WRITE words. -/
def isRw (w : Nat) : Prop := fieldCmd w = CMD_READ ∨ fieldCmd w = CMD_WRITE

/-- The READ and WRITE commands of a request stay within its memory. -/
theorem plan_confines {info : SectionInfo} (hb : info.blkType = 0) {write : Bool} {env : SgEnv}
    {start : Nat} {pgt : Nat → Nat} {st : SgState} (hsegs : SegsOk info.blocksInTape env.segs)
    (haddr : SegsAddrOk env.segs) (hplan : planRequest info write env start pgt = .ok st) :
    ∀ c ∈ st.cmds, isRw c.cmd →
      Confines β st.pgtBuf (requestBlocks env.segs) (fieldOffset c.cmd) (fieldCount c.cmd) := by
  have hB := blocksInTape_bounds hb
  have hT : 0 < info.blocksInTape := by omega
  obtain ⟨-, -, hcmds, htab, -⟩ := planRequest_inv hb hsegs hplan
  have hshape := requestPlan_shape hT hsegs write start
  have hblocks := requestPlan_blocks hT hsegs write start
  have hok := requestPlan_entries_ok ⟨hT, by omega⟩ hsegs haddr write start
  unfold requestCmds at hcmds
  generalize requestPlan info.blocksInTape write start env.segs = p at *
  have hflat := Plan.Shape.flatten_allPieces p
  intro c hc hrw
  rw [hcmds] at hc
  obtain ⟨cmd, hcmd, rfl⟩ := List.mem_map.mp hc
  cases cmd with
  | rw w off n =>
    have hmem : (off, n) ∈ pieceRws 0 p.allPieces := by
      rw [← hshape.close_rws, List.mem_filterMap]
      refine ⟨.rw w off n, ?_, rfl⟩
      exact (List.mem_append.mp hcmd).resolve_left (by simp [setupCmds])
    have hbound := pieceRws_bound (by rw [hflat]; exact fun e he => (hok e he).cnt_pos) hmem
    rw [hflat, Nat.zero_add] at hbound
    obtain ⟨hcnt, hoff⟩ : fieldCount (Cmd.rw w off n).encode = n % 2 ^ 15 ∧
        fieldOffset (Cmd.rw w off n).encode = off % 2 ^ 9 := by
      cases w <;> exact (rwWord off n (by decide)).2
    have hcnt_le := Nat.mod_le n (2 ^ 15)
    have hoff_le := Nat.mod_le off (2 ^ 9)
    rw [← hblocks]
    refine confines_entries (fun i x hx => ?_) hok ?_ ?_
    · simp only [htab, tableOf, hx]
    · show fieldOffset (Cmd.rw w off n).encode < 512
      rw [hoff]
      exact Nat.mod_lt _ (by decide)
    · show fieldOffset (Cmd.rw w off n).encode + fieldCount (Cmd.rw w off n).encode ≤ _
      rw [hoff, hcnt]
      omega
  | _ =>
    unfold isRw at hrw
    rw [show ∀ c : Cmd, c.node.cmd = c.encode from fun _ => rfl, fieldCmd_encode] at hrw
    simp [Cmd.code] at hrw

/-! ## Steps of the device -/

/-- The block size register has its reset value, and the entry behind the table is
empty. -/
structure Aacc.Plain (s : Aacc β) : Prop where
  blk : s.aaac = 0
  guard : s.aaap 512 = 0

def Aacc.Transfers (s : Aacc β) : Prop := s.aadg = .read ∨ s.aadg = .write

/-- A transfer that has begun stays within `B`. -/
structure Aacc.Ahead (s : Aacc β) (B : List Nat) : Prop where
  confined : s.Transfers → s.aaak ≠ 0 → Confined B s.aaal s

/-- A step of the device that changes the memory only in the blocks `B`, and whose
outcome depends on no other memory. The rest of the transfer stays within `B`, too. -/
structure StaysWithin (B : List Nat) (mem : Nat → β) (step : (Nat → β) → Answer β × (Nat → β)) :
    Prop where
  plain : (step mem).1.1.Plain
  ahead : (step mem).1.1.Ahead B
  written : ∀ a, (step mem).2 a ≠ mem a → ∃ b ∈ B, a = b / 512
  read : ∀ mem', (∀ b ∈ B, mem' (b / 512) = mem (b / 512)) → (step mem').1 = (step mem).1

section
variable {s t : Aacc β} {B : List Nat} {mem : Nat → β} {x : Io}

theorem aabc_within (hs : s.Plain) {g : Aadg} (hg : g = .idle ∨ g = .failed) (st : SectStatus)
    (B : List Nat) : (aabc s g st).1.Plain ∧ (aabc s g st).1.Ahead B := by
  refine ⟨⟨hs.blk, hs.guard⟩, ⟨fun ht => ?_⟩⟩
  rcases hg with rfl | rfl <;> rcases ht with ht | ht <;> cases ht

/-- A step that completes the command. -/
theorem StaysWithin.done (hs : s.Plain) {g : Aadg} (hg : g = .idle ∨ g = .failed)
    (st : SectStatus) : StaysWithin B mem fun mem => (aabc s g st, mem) :=
  ⟨(aabc_within hs hg st B).1, (aabc_within hs hg st B).2, fun _ h => absurd rfl h, fun _ _ => rfl⟩

theorem Aacc.Plain.congr (hs : s.Plain) (hc : SameCursor s t) : t.Plain :=
  ⟨hc.aaac.trans hs.blk, by rw [hc.aaap]; exact hs.guard⟩

/-- Passing a block changes the current entry only. -/
theorem aaba_update (s : Aacc β) : ∃ v n o,
    aaba s = { s with aaap := Function.update s.aaap s.aaan v, aaan := n, aaao := o } := by
  unfold aaba
  extract_lets aadc aadd aabu aaap
  clear_value aadd
  by_cases hz : aadd = 0
  · rw [if_pos hz]
    exact ⟨_, _, _, rfl⟩
  · rw [if_neg hz]
    exact ⟨_, _, _, rfl⟩

/-- Passing a block does not get behind the table. -/
theorem aaba_plain (hs : s.Plain) (hp : aabb s ≠ 0) : (aaba s).Plain := by
  have hn : 512 ≠ s.aaan := by
    intro hn
    apply hp
    simp [aabb, ← hn, hs.guard]
  obtain ⟨v, n, o, he⟩ := aaba_update s
  rw [he]
  exact ⟨hs.blk, (Function.update_of_ne hn _ _).trans hs.guard⟩

theorem aaboNext_within (hs : s.Plain) (hp : aabb s ≠ 0) (hc : Confined B s.aaal s) :
    (aaboNext s).1.Plain ∧ (aaboNext s).1.Ahead B := by
  have hcur : SameCursor (aaba s) (aaba { s with aaak := s.aaak + 1 }) :=
    SameCursor.aaba ⟨rfl, rfl, rfl, rfl⟩
  have hplain := aaba_plain hs hp
  -- hidden behind an existential, so that the kernel does not compute with it either
  obtain ⟨t, ht⟩ : ∃ t, aaba { s with aaak := s.aaak + 1 } = t := ⟨_, rfl⟩
  rw [ht] at hcur
  obtain ⟨f, g, hfg⟩ := aaas_frame t s.blockSize
  rw [aaboNext_eq ht, hfg]
  have hcur' : SameCursor (aaba s) { t with aaaf := f, aaag := g, aaal := s.aaal - 1 } :=
    ⟨hcur.aaac, hcur.aaan, hcur.aaao, hcur.aaap⟩
  by_cases hl : 1 < s.aaal
  · rw [if_pos hl]
    refine ⟨hplain.congr hcur', ⟨fun _ _ => ?_⟩⟩
    obtain ⟨n, hn⟩ : ∃ n, s.aaal = n + 1 := ⟨s.aaal - 1, by omega⟩
    rw [hn] at hc
    have hrest := (hc.resolve_left hp).2.congr hcur'
    have hn' : n = s.aaal - 1 := by omega
    rw [hn'] at hrest
    exact hrest
  · rw [if_neg hl]
    exact aabc_within (hplain.congr hcur') (.inl rfl) _ B

theorem copyUnits_one_ne {dst src a : Nat} {f g : Nat → β} (h : copyUnits 1 dst src f g a ≠ f a) :
    a = dst := by
  unfold copyUnits at h
  split at h
  · omega
  · exact absurd rfl h

theorem copyUnits_one_congr {dst src : Nat} {f g g' : Nat → β} (h : g' src = g src) :
    copyUnits 1 dst src f g' = copyUnits 1 dst src f g := by
  funext a
  unfold copyUnits
  split
  · next ha =>
    have : src + (a - dst) = src := by omega
    rw [this, h]
  · rfl

theorem Aacc.Plain.units (hs : s.Plain) : s.blockSize / 512 = 1 := by
  rw [Aacc.blockSize, hs.blk]
  rfl

/-- The transfer of the block under the cursor. -/
theorem aaboMove_within (hs : s.Plain) (hc : Confined B s.aaal s) (hl : s.aaal ≠ 0) (isRead : Bool)
    (pos : Nat) (mem : Nat → β) (x : Io) :
    StaysWithin B mem fun mem => aaboMove s isRead pos mem x := by
  have hfail : ∀ st, StaysWithin B mem fun mem => (aabc s .failed st, mem) :=
    fun st => .done hs (.inr rfl) st
  unfold aaboMove
  rw [hs.units]
  by_cases hp : aabb s = 0
  · simp only [hp, if_true]
    exact .done hs (.inl rfl) _
  · have hmem : aabb s ∈ B := by
      obtain ⟨n, hn⟩ := Nat.exists_eq_succ_of_ne_zero hl
      rw [hn] at hc
      exact (hc.resolve_left hp).1
    have hnext : ∀ f : Nat → β, (aaboNext { s with aadb := f }).1.Plain ∧
        (aaboNext { s with aadb := f }).1.Ahead B := by
      intro f
      have hcur : SameCursor s { s with aadb := f } := ⟨rfl, rfl, rfl, rfl⟩
      exact aaboNext_within (hs.congr hcur) (by rw [hcur.aabb]; exact hp) (hc.congr hcur)
    obtain ⟨hplain, hahead⟩ := aaboNext_within hs hp hc
    obtain ⟨page, hpage⟩ : ∃ page, aabb s = page := ⟨_, rfl⟩
    rw [hpage] at hp hmem
    simp only [hpage, hp, if_false]
    cases x.seek with
    | false => exact hfail _
    | true =>
      cases isRead with
      | true =>
        cases x.file with
        | false => exact hfail _
        | true =>
          cases x.dma with
          | false => exact hfail _
          | true =>
            show StaysWithin B mem fun mem => (aaboNext s, copyUnits 1 _ _ mem _)
            refine ⟨?_, ?_, ?_, ?_⟩ <;> dsimp only
            · exact hplain
            · exact hahead
            · exact fun a ha => ⟨page, hmem, copyUnits_one_ne ha⟩
            · exact fun _ _ => rfl
      | false =>
        cases x.dma with
        | false => exact hfail _
        | true =>
          cases x.file with
          | false => exact hfail _
          | true =>
            show StaysWithin B mem fun mem =>
              (aaboNext { s with aadb := copyUnits 1 (pos / 512) (page / 512) s.aadb mem }, mem)
            obtain ⟨hplain, hahead⟩ := hnext (copyUnits 1 (pos / 512) (page / 512) s.aadb mem)
            refine ⟨?_, ?_, ?_, ?_⟩ <;> dsimp only
            · exact hplain
            · exact hahead
            · exact fun a ha => absurd rfl ha
            · intro mem' hm
              rw [copyUnits_one_congr (hm page hmem)]

/-- A step of READ or WRITE. A command that begins reads the page table. -/
theorem aabo_within (hs : s.Plain) (ha : s.Ahead B) (ht : s.Transfers) (isRead : Bool) (mem : Nat → β)
    (x : Io)
    (hfirst : s.aaak = 0 → ∀ table, x.table = some table → Confines β table B s.aaam s.aaal) :
    StaysWithin B mem fun mem => aabo s isRead mem x := by
  unfold aabo
  dsimp only
  split
  · exact .done hs (.inl rfl) _
  · split
    · exact .done hs (.inl rfl) _
    · split
      · exact .done hs (.inl rfl) _
      · split
        · exact .done hs (.inl rfl) _
        · next hl =>
          by_cases hk : s.aaak = 0
          · simp only [hk, if_true]
            rcases aabn_frame s x with ⟨s', he, hc, hg⟩ | ⟨s', he, hc, hg⟩
            · obtain ⟨table, htab⟩ : ∃ table, x.table = some table := by
                cases htab : x.table with
                | none => simp [aabn, htab] at he
                | some table => exact ⟨table, rfl⟩
              have hplain : s'.Plain := ⟨by rw [hc]; exact hs.blk, hg.trans hs.guard⟩
              have hal : s'.aaal = s.aaal := by rw [hc]
              have hconf := hfirst hk table htab s s' x hs.blk hs.guard rfl htab he
              rw [← hal] at hconf hl
              simp only [he]
              exact aaboMove_within hplain hconf hl isRead _ mem x
            · simp only [he]
              exact .done ⟨by rw [hc]; exact hs.blk, hg.trans hs.guard⟩ (.inl rfl) _
          · simp only [hk, if_false]
            exact aaboMove_within hs (ha.confined ht hk) hl isRead _ mem x

/-- A step of a section. -/
theorem aabf_within (hs : s.Plain) (ha : s.Ahead B) (mem : Nat → β) (x : Io)
    (hfirst : s.Transfers → s.aaak = 0 →
      ∀ table, x.table = some table → Confines β table B s.aaam s.aaal) :
    StaysWithin B mem fun mem => aabf s mem x := by
  have hsame : StaysWithin B mem fun mem => ((s, none), mem) :=
    ⟨hs, ha, fun _ h => absurd rfl h, fun _ _ => rfl⟩
  have hdone : ∀ t : Aacc β, t.aaac = s.aaac → t.aaap = s.aaap →
      StaysWithin B mem fun mem => (aabc t .idle .done, mem) := fun t hb hp =>
    .done ⟨hb.trans hs.blk, by rw [hp]; exact hs.guard⟩ (.inl rfl) _
  unfold aabf
  cases hg : s.aadg with
  | disabled => exact hsame
  | idle => exact hsame
  | take => exact hdone _ rfl rfl
  | eject => exact hdone _ rfl rfl
  | rewind => exact hdone _ rfl rfl
  | ffwd =>
    obtain ⟨f, g, hfg⟩ := aaas_frame s (s.aaaj * s.blockSize)
    simp only [hfg]
    exact hdone _ rfl rfl
  | read => exact aabo_within hs ha (.inl hg) true mem x (hfirst (.inl hg))
  | write => exact aabo_within hs ha (.inr hg) false mem x (hfirst (.inr hg))
  | failed => exact hsame

/-- A command that is started has not transferred anything. -/
theorem aabm_within (hs : s.Plain) (w : Nat) :
    (aabm 2 s w).1.Plain ∧ ∀ B, s.Ahead B → (aabm 2 s w).1.Ahead B := by
  by_cases hi : s.aadg = .idle
  · rcases aabm_cases hi w with ⟨s', g, he, -, hargs, hk⟩ | ⟨st, he, -⟩
    · rw [he]
      refine ⟨⟨?_, ?_⟩, fun B _ => ⟨fun ht hne => absurd (hk ht) hne⟩⟩
      · show s'.aaac = 0
        rw [hargs]
        exact hs.blk
      · show s'.aaap 512 = 0
        rw [hargs]
        exact hs.guard
    · rw [he]
      exact ⟨(aabc_within hs (.inl rfl) st []).1, fun B _ => (aabc_within hs (.inl rfl) st B).2⟩
  · rw [aabm_busy hi]
    exact ⟨hs, fun _ h => h⟩

end

/-! ## The section at work -/

/-- Only EJECT commands of ioctls are queued. -/
theorem Sys.Shaped.ioctlOnly {D : DevModel} {s : Sys D} (h : s.Shaped)
    (hs : s.submit ≠ .idle ∨ s.outstanding = none) : IoctlNodes s.sec.cmdQueue := by
  obtain ⟨pre, suf, post, hp⟩ := h
  have hsuf : suf = [] := by
    by_contra hne
    obtain ⟨hi, r, ho, -⟩ := hp.request.queued hne
    rcases hs with hs | hs
    · exact hs hi
    · rw [ho] at hs
      cases hs
  subst hsuf
  rw [hp.nil.1]
  exact hp.ioctlPre

theorem ioctlNode_not_rw (c : Nat) : ¬ isRw (ioctlNode c).word := by
  have hc : fieldCmd (ioctlNode c).word = CMD_EJECT_TAPE := by
    show fieldCmd CMD_EJECT_TAPE = CMD_EJECT_TAPE
    decide
  unfold isRw
  rw [hc]
  decide

theorem IoctlNodes.not_rw {q : List LstNode} (h : IoctlNodes q) : ∀ n ∈ q, ¬ isRw n.word := by
  intro n hn
  obtain ⟨c, rfl⟩ := h n hn
  exact ioctlNode_not_rw c

/-- A section that transfers executes a READ or a WRITE. -/
theorem Aacc.Executes.transfer {s : Aacc β} {w : Nat} (h : s.Executes w) (ht : s.Transfers) :
    isRw w ∧ s.aaak + s.aaal = fieldCount w ∧ s.aaam = fieldOffset w := by
  unfold Aacc.Executes at h
  split at h
  all_goals
    first
      | exact h.elim
      | next hc => exact ⟨.inl hc, h.2.2⟩
      | next hc => exact ⟨.inr hc, h.2.2⟩
      | rcases ht with ht | ht <;> rw [h.1] at ht <;> cases ht

/-- A device that transfers executes the READ or WRITE at the head of the queue. -/
theorem Sys.Flow.transfer {s : Sys (realDevice β)} (h : s.Flow) (ht : s.dev.sec.Transfers) :
    ∃ node rest, s.sec.cmdQueue = node :: rest ∧ s.Executing node ∧ isRw node.word ∧
      s.dev.sec.aaak + s.dev.sec.aaal = fieldCount node.word ∧
      s.dev.sec.aaam = fieldOffset node.word := by
  have hb : (realDevice β).busy s.dev = true := by
    show s.dev.sec.aadg.busy = true
    rcases ht with ht | ht <;> rw [ht] <;> rfl
  obtain ⟨node, rest, hq, hex⟩ := h.executing hb
  exact ⟨node, rest, hq, hex, hex.exec.transfer ht⟩

/-- The segments of each request. -/
abbrev Requests := Nat → List Seg

/-- Notes the segments of a request that is handed over. -/
def noteRequest {D : DevModel} (s : Sys D) (l : Label D) (m : Requests) : Requests :=
  match l with
  | .queueRq _ _ env => Function.update m s.nextReq env.segs
  | _ => m

/-- The block layer hands over segments that can be mapped, and the device reads the
page table where the driver writes it. -/
def BusOk (s : Sys (realDevice β)) : Label (realDevice β) → Prop
  | .queueRq _ _ env => SegsOk s.sec.info.blocksInTape env.segs ∧ SegsAddrOk env.segs
  | .tick (.io x) => ∀ table, x.table = some table → table = s.sec.cpuDmaBuf
  | _ => True

/-- READ and WRITE commands among `q` stay within the blocks of `segs`. -/
def Sys.Confine (s : Sys (realDevice β)) (segs : List Seg) (q : List LstNode) : Prop :=
  ∀ n ∈ q, isRw n.word → Confines β s.sec.cpuDmaBuf (requestBlocks segs) (fieldOffset n.word)
    (fieldCount n.word)

structure Sys.DmaOk (m : Requests) (s : Sys (realDevice β)) : Prop where
  blk : s.sec.info.blkType = 0
  plain : s.dev.sec.Plain
  started : ∀ r write start env, s.submit = .started r write start env →
    m r = env.segs ∧ SegsOk s.sec.info.blocksInTape env.segs ∧ SegsAddrOk env.segs
  built : ∀ r nodes, s.submit = .built r nodes → s.Confine (m r) nodes
  queued : ∀ r, s.outstanding = some r → s.Confine (m r) s.sec.cmdQueue
  ahead : ∀ r, s.outstanding = some r → s.dev.sec.Ahead (requestBlocks (m r))

section
variable {s s' t : Sys (realDevice β)} {l : Label (realDevice β)} {m : Requests}

/-- The device at rest, or executing anything but a transfer, has no blocks ahead. -/
theorem Aacc.Ahead.of_not {a : Aacc β} (h : ¬ a.Transfers) (B : List Nat) : a.Ahead B :=
  ⟨fun ht => absurd ht h⟩

theorem Sys.Flow.not_transfers (h : s.Flow) (hq : ∀ n ∈ s.sec.cmdQueue, ¬ isRw n.word) :
    ¬ s.dev.sec.Transfers := by
  intro ht
  obtain ⟨node, rest, hc, -, hrw, -⟩ := h.transfer ht
  exact hq node (by rw [hc]; exact List.mem_cons_self) hrw

theorem Sys.Quiet.not_transfers (h : s.Quiet) : ¬ s.dev.sec.Transfers := by
  have hb : s.dev.sec.aadg.busy = false := h.resting
  rintro (ht | ht) <;> rw [ht] at hb <;> cases hb

/-- Sending a command. -/
theorem sendOpt_within (hp : s.dev.sec.Plain) (o : Option LstNode) :
    (s.sendOpt o).dev.sec.Plain ∧
      ∀ B, s.dev.sec.Ahead B → (s.sendOpt o).dev.sec.Ahead B := by
  cases o with
  | none => exact ⟨hp, fun _ h => h⟩
  | some n =>
    show (s.send n).dev.sec.Plain ∧ ∀ B, s.dev.sec.Ahead B → (s.send n).dev.sec.Ahead B
    rw [Sys.send_dev]
    exact aabm_within hp n.word

theorem Sys.link_within (hp : s.dev.sec.Plain) (nodes : List LstNode) :
    (s.link nodes).dev.sec.Plain ∧
      ∀ B, s.dev.sec.Ahead B → (s.link nodes).dev.sec.Ahead B := by
  unfold Sys.link
  split
  · exact sendOpt_within hp _
  · exact ⟨hp, fun _ h => h⟩

/-- Steps that leave the submission and the page table alone. -/
theorem Sys.DmaOk.congr (h : s.DmaOk m) (hinfo : t.sec.info = s.sec.info)
    (hdev : t.dev.sec.Plain ∧ ∀ B, s.dev.sec.Ahead B → t.dev.sec.Ahead B)
    (hsub : t.submit = s.submit ∨ t.submit = .idle) (hbuf : t.sec.cpuDmaBuf = s.sec.cpuDmaBuf)
    (hq : ∀ n ∈ t.sec.cmdQueue, n ∈ s.sec.cmdQueue ∨ ¬ isRw n.word)
    (ho : ∀ r, t.outstanding = some r → s.outstanding = some r) : t.DmaOk m := by
  have hsub' : t.submit ≠ .idle → t.submit = s.submit := fun hne => hsub.resolve_right hne
  refine ⟨by rw [hinfo]; exact h.blk, hdev.1, fun r write start env hs => ?_,
    fun r nodes hs n hn hrw => ?_, fun r hr n hn hrw => ?_, fun r hr => hdev.2 _ (h.ahead r (ho r hr))⟩
  · rw [hinfo]
    exact h.started r write start env ((hsub' (by simp [hs])).symm.trans hs)
  · rw [hbuf]
    exact h.built r nodes ((hsub' (by simp [hs])).symm.trans hs) n hn hrw
  · rw [hbuf]
    exact h.queued r (ho r hr) n ((hq n hn).resolve_right (not_not_intro hrw)) hrw

/-- Steps that concern neither the queue nor the device. -/
theorem Sys.DmaOk.congr_sec (h : s.DmaOk m) (hsec : t.sec.info = s.sec.info)
    (hbuf : t.sec.cpuDmaBuf = s.sec.cpuDmaBuf) (hq : t.sec.cmdQueue = s.sec.cmdQueue)
    (hdev : t.dev = s.dev) (hsub : t.submit = s.submit ∨ t.submit = .idle)
    (ho : ∀ r, t.outstanding = some r → s.outstanding = some r) : t.DmaOk m :=
  h.congr hsec (by rw [hdev]; exact ⟨h.plain, fun _ h => h⟩) hsub hbuf
    (by rw [hq]; exact fun _ => .inl) ho

/-- A request is handed over, or fails before it has queued anything. -/
theorem Sys.DmaOk.fresh (h : s.DmaOk m) (hf : s.Flow) (hio : IoctlNodes s.sec.cmdQueue)
    {m' : Requests} (hinfo : t.sec.info = s.sec.info) (hdev : t.dev = s.dev)
    (hq : t.sec.cmdQueue = s.sec.cmdQueue)
    (hstarted : ∀ r write start env, t.submit = .started r write start env →
      m' r = env.segs ∧ SegsOk s.sec.info.blocksInTape env.segs ∧ SegsAddrOk env.segs)
    (hbuilt : ∀ r nodes, t.submit = .built r nodes → t.Confine (m' r) nodes) : t.DmaOk m' := by
  have hnot : ¬ t.dev.sec.Transfers := by
    rw [hdev]
    exact hf.not_transfers hio.not_rw
  refine ⟨by rw [hinfo]; exact h.blk, by rw [hdev]; exact h.plain, by rw [hinfo]; exact hstarted,
    hbuilt, fun r _ n hn hrw => ?_, fun r _ => .of_not hnot _⟩
  rw [hq] at hn
  exact absurd hrw (hio.not_rw n hn)

/-- The memory of the request that is outstanding. -/
def Sys.outstandingBlocks {D : DevModel} (s : Sys D) (m : Requests) : List Nat :=
  s.outstanding.elim [] fun r => requestBlocks (m r)

/-- A step of the device stays within the memory of the outstanding request. -/
theorem Sys.DmaOk.staysWithin (h : s.DmaOk m) (hf : s.Flow) (hsh : s.Shaped) {x : Io}
    (hg : BusOk s (.tick (.io x))) :
    StaysWithin (s.outstandingBlocks m) s.dev.mem fun mem => aabf s.dev.sec mem x := by
  cases ho : s.outstanding with
  | none =>
    have hnot := hf.not_transfers (hsh.ioctlOnly (.inr ho)).not_rw
    exact aabf_within h.plain (.of_not hnot _) _ _ fun ht => absurd ht hnot
  | some r =>
    have hB : s.outstandingBlocks m = requestBlocks (m r) := by simp [Sys.outstandingBlocks, ho]
    rw [hB]
    refine aabf_within h.plain (h.ahead r ho) _ _ fun ht hk table htab => ?_
    obtain ⟨node, rest, hq, -, hrw, hcnt, hoff⟩ := hf.transfer ht
    have hc := h.queued r ho node (by rw [hq]; exact List.mem_cons_self) hrw
    rw [hk, Nat.zero_add] at hcnt
    rw [hg table htab, hoff, hcnt]
    exact hc

/-- The device's own moves. -/
theorem Sys.DmaOk.move (h : s.DmaOk m) (hf : s.Flow) (hsh : s.Shaped) {a : Move β} {dev : Dev β}
    {o : Option SectStatus} (hg : BusOk s (.tick a)) (ht : s.dev.move a = some (dev, o)) :
    dev.sec.Plain ∧ ∀ r, s.outstanding = some r → dev.sec.Ahead (requestBlocks (m r)) := by
  cases a with
  | cpu mem =>
    cases ht
    exact ⟨h.plain, h.ahead⟩
  | io x =>
    have hw := h.staysWithin hf hsh hg
    unfold Dev.move at ht
    dsimp only at ht
    split at ht
    · obtain ⟨r, hr⟩ : ∃ r, aabf s.dev.sec s.dev.mem x = r := ⟨_, rfl⟩
      have hplain := hw.plain
      have hahead := hw.ahead
      rw [hr] at ht hplain hahead
      cases ht
      refine ⟨hplain, fun r ho => ?_⟩
      simpa [Sys.outstandingBlocks, ho] using hahead
    · cases ht

/-- The commands of a request are linked. -/
theorem Sys.DmaOk.splice (h : s.DmaOk m) (hsh : s.Shaped) {r : Nat} {nodes : List LstNode}
    (hsub : s.submit = .built r nodes) :
    Sys.DmaOk m { { s with log := s.log ++ [Event.queued r nodes] }.link nodes with
      submit := .idle, built := nodes } := by
  obtain ⟨hplain, hahead⟩ := Sys.link_within
    (s := { s with log := s.log ++ [Event.queued r nodes] }) h.plain nodes
  have ho : s.outstanding = some r := by
    obtain ⟨pre, suf, post, hp⟩ := hsh
    have hreq := hp.request
    unfold Sys.RequestOk at hreq
    rw [hsub] at hreq
    exact hreq.2.1
  refine ⟨?_, hplain, by rintro r w st e ⟨⟩, by rintro r nodes ⟨⟩,
    fun r' hr' n hn hrw => ?_, fun r' hr' => hahead _ (h.ahead r' (by simpa using hr'))⟩
  · simpa using h.blk
  · have hr : s.outstanding = some r' := by simpa using hr'
    rw [ho] at hr
    obtain rfl := Option.some.inj hr
    simp only [Sys.link_sec, List.mem_append] at hn ⊢
    exact hn.elim (fun hn => h.queued r ho n hn hrw) fun hn => h.built r nodes hsub n hn hrw

/-- The handler deals with the head's result. -/
theorem Sys.DmaOk.complete (h : s.DmaOk m) {node : LstNode} {rest : List LstNode}
    (hq : s.sec.cmdQueue = node :: rest) (st : SectStatus) :
    (s.completed node rest st).sendHead.DmaOk m := by
  obtain ⟨hinfo, hbuf⟩ := completeHead_frame s.sec node rest st
  refine h.congr (by simpa [Sys.completed] using hinfo)
    (sendOpt_within (s := s.completed node rest st) h.plain _) (.inl (by simp; rfl))
    (by simpa [Sys.completed] using hbuf) (fun n hn => .inl ?_) fun r hr => ?_
  · have hn' : n ∈ (completeHead s.sec node rest st).1.cmdQueue := by
      simpa [Sys.completed] using hn
    rw [hq]
    exact (completeHead_suffix s.sec node rest hq st).mem hn'
  · simp only [Sys.sendHead, Sys.sendOpt_outstanding, Sys.completed] at hr
    split at hr
    · cases hr
    · exact hr

theorem dmaOk_step (h : s.DmaOk m) (hf : s.Flow) (hsh : s.Shaped) (hg : BusOk s l)
    (hs : s.Step l s') : s'.DmaOk (noteRequest s l m) := by
  have hlink : s.linkEject.DmaOk m := by
    refine h.congr (by simp [Sys.linkEject]) ?_ (.inl (by simp [Sys.linkEject]))
      (by simp [Sys.linkEject]) (fun n hn => ?_) fun r hr => ?_
    · exact Sys.link_within (s := { s with
        nextCall := s.nextCall + 1
        sec := { s.sec with ejectionCmds := s.sec.ejectionCmds + 1 } }) h.plain _
    · simp only [Sys.linkEject, Sys.link_sec, List.mem_append, List.mem_singleton] at hn
      rcases hn with hn | rfl
      · exact .inl hn
      · exact .inr (ioctlNode_not_rw _)
    · simpa [Sys.linkEject] using hr
  cases hs with
  | submit write start env ho hi =>
    refine h.fresh hf (hsh.ioctlOnly (.inr ho)) rfl rfl rfl (fun r w st e he => ?_)
      (by rintro r nodes ⟨⟩)
    cases he
    exact ⟨by simp [noteRequest], hg⟩
  | unsupported start env ho hi =>
    exact h.fresh hf (hsh.ioctlOnly (.inr ho)) rfl rfl rfl (by rintro r w st e ⟨⟩)
      (by rintro r nodes ⟨⟩)
  | built r write start env st hsub hp =>
    refine h.fresh hf (hsh.ioctlOnly (.inl (by simp [hsub]))) rfl rfl rfl
      (by rintro r w st e ⟨⟩) fun r nodes he n hn hrw => ?_
    cases he
    obtain ⟨hm, hsegs, haddr⟩ := h.started r write start env hsub
    obtain ⟨c, hc, rfl⟩ := List.mem_map.mp hn
    show Confines β st.pgtBuf (requestBlocks (m r)) _ _
    rw [hm]
    exact plan_confines h.blk hsegs haddr hp c hc hrw
  | notBuilt r write start env e hsub hp =>
    exact h.fresh hf (hsh.ioctlOnly (.inl (by simp [hsub]))) rfl rfl rfl
      (by rintro r w st e ⟨⟩) (by rintro r nodes ⟨⟩)
  | splice r nodes hsub => exact h.splice hsh hsub
  | fail r status hsub => exact h.congr_sec rfl rfl rfl rfl (.inr rfl) (by rintro r ⟨⟩)
  | ejectOom => exact h.congr_sec rfl rfl rfl rfl (.inl rfl) fun _ => id
  | ejectReturn hfl => exact hlink.congr_sec rfl rfl rfl rfl (.inl rfl) fun _ => id
  | ejectWait hfl => exact hlink.congr_sec rfl rfl rfl rfl (.inl rfl) fun _ => id
  | wake c hc hfl => exact h.congr_sec rfl rfl rfl rfl (.inl rfl) fun _ => id
  | signal c hc hfl => exact h.congr_sec rfl rfl rfl rfl (.inl rfl) fun _ => id
  | snapshot hirq => exact h.congr_sec rfl rfl rfl rfl (.inl rfl) fun _ => id
  | readStatus done error hirq => exact h.congr_sec rfl rfl rfl rfl (.inl rfl) fun _ => id
  | nothing sn hirq hd he => exact h.congr_sec rfl rfl rfl rfl (.inl rfl) fun _ => id
  | complete node rest st hirq hq hrep => exact h.complete hq st
  | goes a dev ht =>
    obtain ⟨hplain, hahead⟩ := h.move hf hsh hg ht
    exact ⟨h.blk, hplain, h.started, h.built, h.queued, hahead⟩
  | answers a dev node rest st ht hq hex =>
    obtain ⟨hplain, hahead⟩ := h.move hf hsh hg ht
    exact ⟨h.blk, hplain, h.started, h.built, h.queued, hahead⟩
  | otherLine level => exact h.congr_sec rfl rfl rfl rfl (.inl rfl) fun _ => id

end

/-- A probed section whose device has 512-byte blocks. -/
structure DmaInit (s : Sys (realDevice β)) : Prop extends s.Probed where
  blk : s.sec.info.blkType = 0
  plain : s.dev.sec.Plain

theorem DmaInit.dmaOk {s : Sys (realDevice β)} (h : DmaInit s) (m : Requests) : s.DmaOk m where
  blk := h.blk
  plain := h.plain
  started r w st e he := by
    rw [h.submit] at he
    cases he
  built r nodes he := by
    rw [h.submit] at he
    cases he
  queued r ho := by
    rw [h.outstanding] at ho
    cases ho
  ahead r ho := by
    rw [h.outstanding] at ho
    cases ho

/-- The section together with the segments of its requests. -/
def dmaSystem (β : Type) : Lts (Sys (realDevice β) × Requests) (Label (realDevice β)) :=
  (systemFrom (realDevice β) DmaInit).recording (fun m => ∀ r, m r = []) noteRequest

section
variable {p : Sys (realDevice β) × Requests}

theorem probed_reachOn (h : (dmaSystem β).ReachOn (fun p l => BusOk p.1 l) p) :
    (systemFrom (realDevice β) Sys.Probed).Reach p.1 :=
  h.forget.reach.restart (fun _ hi => .init hi.toProbed) rfl

theorem flow_probed {s : Sys (realDevice β)}
    (h : (systemFrom (realDevice β) Sys.Probed).Reach s) : s.Flow ∧ s.Shaped :=
  ⟨flow_reach (Sys.Probed.reachOn h), shaped_reachOn (Sys.Probed.reachOn h)⟩

theorem dmaOk_reachOn (h : (dmaSystem β).ReachOn (fun p l => BusOk p.1 l) p) : p.1.DmaOk p.2 := by
  refine Lts.invariantOn (M := dmaSystem β) (fun p hi => hi.1.dmaOk p.2)
    (fun p l p' hr hp hg hs => ?_) h
  obtain ⟨s', hs', rfl⟩ := Option.map_eq_some_iff.mp hs
  obtain ⟨hf, hsh⟩ := flow_probed (probed_reachOn hr)
  exact dmaOk_step hp hf hsh hg (Sys.next_step hf hs')

end

/-- The device executes only what is queued. -/
theorem Sys.Flow.cur_mem {D : DevModel} {s : Sys D} (h : s.Flow) {n : LstNode}
    (hc : s.cur = some n) : n ∈ s.sec.cmdQueue := by
  have ht := h.tracks
  cases hq : s.sec.cmdQueue with
  | nil =>
    rw [hq] at ht
    cases hc.symm.trans ht.cur
  | cons node rest =>
    rw [hq] at ht
    rcases ht with ht | ⟨st, ht⟩ | ht <;> cases hc.symm.trans ht.cur
    exact List.mem_cons_self

/-- Only `do_scatter_gather` writes the page table. -/
theorem Sys.Step.cpuDmaBuf {D : DevModel} {s s' : Sys D} {l : Label D} (h : s.Step l s')
    (hl : l ≠ .build) : s'.sec.cpuDmaBuf = s.sec.cpuDmaBuf := by
  cases h with
  | built => exact absurd rfl hl
  | notBuilt => exact absurd rfl hl
  | splice => simp
  | ejectReturn => simp [Sys.linkEject, Sys.consume, ejectConsume]
  | ejectWait => simp [Sys.linkEject]
  | complete node rest st =>
    simpa [Sys.completed] using (completeHead_frame s.sec node rest st).2
  | _ => rfl

/-- From the moment a request is ended none of its commands is queued or executed.
`do_scatter_gather`, the only function to write the page table, runs only while no
READ or WRITE is queued or executed. And a step of the device writes only to the
memory of the outstanding request and depends on no other memory. -/
theorem no_dma_after_end {p : Sys (realDevice β) × Requests}
    (h : (dmaSystem β).ReachOn (fun p l => BusOk p.1 l) p) :
    (∀ r st x, .ended r st x ∈ p.1.log →
      (∀ n ∈ p.1.sec.cmdQueue, n.owner ≠ .request r) ∧
      ∀ n, p.1.cur = some n → n.owner ≠ .request r) ∧
    (∀ l s', p.1.next l = some s' → s'.sec.cpuDmaBuf ≠ p.1.sec.cpuDmaBuf → l = .build) ∧
    (∀ s', p.1.next .build = some s' →
      (∀ n ∈ p.1.sec.cmdQueue, ¬ isRw n.word) ∧ ¬ p.1.dev.sec.Transfers) ∧
    ∀ x, BusOk p.1 (.tick (.io x)) →
      (∀ a, (aabf p.1.dev.sec p.1.dev.mem x).2 a ≠ p.1.dev.mem a →
        ∃ b ∈ p.1.outstandingBlocks p.2, a = b / 512) ∧
      ∀ mem, (∀ b ∈ p.1.outstandingBlocks p.2, mem (b / 512) = p.1.dev.mem (b / 512)) →
        (aabf p.1.dev.sec mem x).1 = (aabf p.1.dev.sec p.1.dev.mem x).1 := by
  have hprobed := probed_reachOn h
  obtain ⟨hf, hsh⟩ := flow_probed hprobed
  refine ⟨fun r st x he => ?_, fun l s' hs hne => ?_, fun s' hs => ?_, fun x hx => ?_⟩
  · have hrec := recorded_probed (realDevice_keepsTape β) hprobed
    have hown : ∀ n ∈ p.1.sec.cmdQueue, n.owner ≠ .request r := by
      obtain ⟨pre, suf, post, hp⟩ := hsh
      refine hp.not_owner ?_
      rintro ⟨ho, hc⟩
      exact hrec.not_ended ho (.inr hc) st x he
    exact ⟨hown, fun n hc => hown n (hf.cur_mem hc)⟩
  · by_contra hl
    exact hne ((Sys.next_step hf hs).cpuDmaBuf hl)
  · have hsub : p.1.submit ≠ .idle := fun hi => by simp [Sys.next, Sys.build, hi] at hs
    have hq := (hsh.ioctlOnly (.inl hsub)).not_rw
    exact ⟨hq, hf.not_transfers hq⟩
  · have hw := (dmaOk_reachOn h).staysWithin hf hsh hx
    exact ⟨hw.written, hw.read⟩

/-- A WRITE of one block, while the device executes it. -/
theorem no_dma_after_end_write :
    ∃ p : Sys (realDevice Nat) × Requests,
      (dmaSystem Nat).ReachOn (fun p l => BusOk p.1 l) p ∧ p.1.dev.sec.Transfers ∧
      p.1.outstandingBlocks p.2 = [4096] ∧
      ∀ x, BusOk p.1 (.tick (.io x)) → ∀ mem, mem 8 = p.1.dev.mem 8 →
        (aabf p.1.dev.sec mem x).1 = (aabf p.1.dev.sec p.1.dev.mem x).1 := by
  let M := dmaSystem Nat
  let io : Io := ⟨none, true, true, true⟩
  let finish : List (Label (realDevice Nat)) := [.tick (.io io), .snapshot, .readStatus, .handle]
  let run : List (Label (realDevice Nat)) :=
    [.build, .splice] ++ finish ++ finish ++ finish ++ finish
  let segs : List Seg := [⟨4096, 512⟩]
  let p₀ : Sys (realDevice Nat) × Requests := (probedSection, fun _ => [])
  let rq : Label (realDevice Nat) := .queueRq (some true) 3 ⟨fun _ => false, true, segs⟩
  let p₁ := (M.next p₀ rq).get (by decide +kernel)
  let p := (M.exec p₁ run).get (by decide +kernel)
  have h₁ : M.next p₀ rq = some p₁ := (Option.some_get _).symm
  have hs : M.exec p₁ run = some p := (Option.some_get _).symm
  have hinit : DmaInit probedSection := ⟨⟨probedSection_initial, rfl⟩, rfl, ⟨rfl, rfl⟩⟩
  have hr₀ : M.ReachOn (fun p l => BusOk p.1 l) p₀ := .init ⟨hinit, fun _ => rfl⟩
  have hrq : BusOk p₀.1 rq := by
    show SegsOk p₀.1.sec.info.blocksInTape segs ∧ SegsAddrOk segs
    have hT : 1 ≤ p₀.1.sec.info.blocksInTape := by decide +kernel
    simpa [segs, SegsOk, SegsAddrOk] using hT
  have hrun : ∀ l ∈ run, ∀ p : Sys (realDevice Nat) × Requests, BusOk p.1 l := by
    simp [run, finish, io, BusOk]
  have hr : M.ReachOn (fun p l => BusOk p.1 l) p := (hr₀.step hrq h₁).exec hrun hs
  have hb : p.1.outstandingBlocks p.2 = [4096] := by decide +kernel
  have ht : p.1.dev.sec.aadg = .write := by decide +kernel
  refine ⟨p, hr, .inr ht, hb, fun x hx mem hmem => ((no_dma_after_end hr).2.2.2 x hx).2 mem ?_⟩
  rw [hb]
  simpa using hmem

end Zso.Tape

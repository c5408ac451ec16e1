import Zso.Tape.Mmio
import Zso.Tape.Dma

/-!
# No guest breaks the device

Whatever the guest writes to the registers and to memory, and whatever the host answers, the
`assert`s of `tapedev.c` hold and its arrays are used within their bounds.

* `Aacc.Sound` is what a section keeps. The entry behind the page table stays empty, which is
  what ends a walk that runs off its end.
* `device_never_faults`.
-/

namespace Zso.Tape
open Bits Transition

variable {β : Type}

/-- A section the device can go on with. -/
structure Aacc.Sound (s : Aacc β) : Prop where
  block : s.aaac ≤ 4
  tape : s.aaaa ≤ s.aaad
  take : s.aadg = .take → s.aaaa = 0 ∧ s.aaai ≠ 0 ∧ s.aaai ≤ s.aaad
  loaded : s.aadg.busy = true → s.aadg ≠ .take → s.aaaa ≠ 0
  guard : s.aaap 512 = 0
  cursor : s.aadg = .read ∨ s.aadg = .write → s.aaak ≠ 0 → s.aaan ≤ 512

section
variable {s s' : Aacc β} {io : Io}

/-- A section that is not busy has less to keep. -/
theorem Aacc.Sound.of_resting (hb : s.aaac ≤ 4) (ht : s.aaaa ≤ s.aaad) (hg : s.aaap 512 = 0)
    (hr : s.aadg.busy = false) : s.Sound where
  block := hb
  tape := ht
  take h := by simp [h, Aadg.busy] at hr
  loaded h := by simp [h] at hr
  guard := hg
  cursor h := by rcases h with h | h <;> simp [h, Aadg.busy] at hr

theorem Aacc.Sound.aabc (hb : s.aaac ≤ 4) (ht : s.aaaa ≤ s.aaad) (hg : s.aaap 512 = 0)
    {g : Aadg} (hr : g.busy = false) (st : SectStatus) : (aabc s g st).1.Sound :=
  .of_resting hb ht hg hr

theorem Aacc.Sound.resting (h : s.Sound) {g : Aadg} (hr : g.busy = false) :
    Aacc.Sound { s with aadg := g } :=
  .of_resting h.block h.tape h.guard hr

/-! ## Commands -/

theorem Aacc.Sound.needsTape (h : s.Sound) {k : Answer β} (hk : s.aaaa ≠ 0 → k.1.Sound) :
    (needsTape s k).1.Sound := by
  unfold Tape.needsTape
  split
  · exact .aabc h.block h.tape h.guard rfl _
  · next h0 => exact hk h0

theorem Aacc.Sound.aabd (hb : s.aaac ≤ 4) (ht : s.aaaa ≤ s.aaad) (hg : s.aaap 512 = 0)
    {g : Aadg} (htake : g = .take → s.aaaa = 0 ∧ s.aaai ≠ 0 ∧ s.aaai ≤ s.aaad)
    (hl : g ≠ .take → s.aaaa ≠ 0) (hk : g = .read ∨ g = .write → s.aaak = 0) :
    (aabd s g).1.Sound :=
  ⟨hb, ht, htake, fun _ => hl, hg, fun hrw hne => absurd (hk hrw) hne⟩

theorem Aacc.Sound.aabm (h : s.Sound) (w : Nat) : (aabm 2 s w).1.Sound := by
  unfold Tape.aabm
  split
  · exact h
  · rw [if_neg (by decide)]
    dsimp only
    split
    · split
      · exact .aabc h.block h.tape h.guard rfl _
      · next h0 =>
        split
        · exact .aabc h.block h.tape h.guard rfl _
        · next harg =>
          obtain ⟨hle, hne⟩ := not_or.mp harg
          exact Aacc.Sound.aabd (s := { s with aaai := fieldArg w }) h.block h.tape h.guard
            (fun _ => ⟨not_not.mp h0, hne, not_lt.mp hle⟩) (absurd rfl) (by simp)
    · exact h.needsTape fun h0 =>
        .aabd h.block h.tape h.guard (by simp) (fun _ => h0) (by simp)
    · exact h.needsTape fun h0 =>
        .aabd h.block h.tape h.guard (by simp) (fun _ => h0) (by simp)
    · refine h.needsTape fun h0 => ?_
      split
      · exact .aabc h.block h.tape h.guard rfl _
      · exact Aacc.Sound.aabd (s := { s with aaaj := fieldArg w }) h.block h.tape h.guard
          (by simp) (fun _ => h0) (by simp)
    · refine h.needsTape fun h0 => ?_
      exact Aacc.Sound.aabd (s := { s with aaal := fieldCount w, aaam := fieldOffset w, aaak := 0 })
        h.block h.tape h.guard (by simp) (fun _ => h0) fun _ => rfl
    · refine h.needsTape fun h0 => ?_
      exact Aacc.Sound.aabd (s := { s with aaal := fieldCount w, aaam := fieldOffset w, aaak := 0 })
        h.block h.tape h.guard (by simp) (fun _ => h0) fun _ => rfl
    · exact .aabc h.block h.tape h.guard rfl _

/-! ## Transfers -/

/-- A transfer under way, with the cursor in the table. -/
structure Aacc.Walking (s : Aacc β) : Prop where
  block : s.aaac ≤ 4
  tape : s.aaaa ≤ s.aaad
  loaded : s.aaaa ≠ 0
  rw : s.aadg = .read ∨ s.aadg = .write
  guard : s.aaap 512 = 0
  cursor : s.aaan ≤ 512

theorem blockSize_le (h : s.aaac ≤ 4) : s.blockSize ≤ 8192 := by
  unfold Aacc.blockSize
  rw [Nat.shiftLeft_eq, Nat.one_mul]
  calc 2 ^ (9 + s.aaac) ≤ 2 ^ 13 := Nat.pow_le_pow_right (by decide) (by omega)
    _ = 8192 := rfl

theorem loadedFault_eq (h0 : s.aaaa ≠ 0) (h : s.aaaa ≤ s.aaad) : loadedFault s = none := by
  unfold loadedFault
  rw [if_neg h0, if_neg (by omega)]

/-- A block has an address only within the table. -/
theorem Aacc.Walking.lt (h : s.Walking) (hp : aabb s ≠ 0) : s.aaan < 512 := by
  refine lt_of_le_of_ne h.cursor fun he => hp ?_
  simp [aabb, he, h.guard]

theorem Aacc.Walking.fault (h : s.Walking) (isRead : Bool) (io : Io) :
    aaboMoveFault s isRead io = none := by
  have hblk := blockSize_le h.block
  have hcur := h.cursor
  unfold aaboMoveFault
  rw [if_neg (by omega)]
  split
  · rfl
  · split
    · rfl
    · rw [if_neg (by omega)]
      split
      · rfl
      · split
        · rfl
        · split
          · rfl
          · exact loadedFault_eq h.loaded h.tape

/-- The cursor moves by one entry at most. -/
theorem aaba_cursor (s : Aacc β) : ∃ v n o, n ≤ s.aaan + 1 ∧
    aaba s = { s with aaap := Function.update s.aaap s.aaan v, aaan := n, aaao := o } := by
  unfold aaba
  extract_lets aadc aadd aabu aaap
  clear_value aadd
  by_cases hz : aadd = 0
  · rw [if_pos hz]
    exact ⟨_, _, _, le_refl _, rfl⟩
  · rw [if_neg hz]
    exact ⟨_, _, _, Nat.le_succ _, rfl⟩

theorem Aacc.Walking.aaboNext (h : s.Walking) (hp : aabb s ≠ 0) : (aaboNext s).1.Sound := by
  have hlt := h.lt hp
  obtain ⟨v, n, o, hn, ht⟩ := aaba_cursor { s with aaak := s.aaak + 1 }
  obtain ⟨f, g, hfg⟩ := aaas_frame { s with
    aaak := s.aaak + 1, aaap := Function.update s.aaap s.aaan v, aaan := n, aaao := o } s.blockSize
  have hguard : Function.update s.aaap s.aaan v 512 = 0 :=
    (Function.update_of_ne (by omega) _ _).trans h.guard
  rw [aaboNext_eq ht, hfg]
  split
  · refine ⟨h.block, h.tape, fun ht => ?_, fun _ _ => h.loaded, hguard, fun _ _ => ?_⟩
    · rcases h.rw with hrw | hrw <;> cases ht.symm.trans hrw
    · show n ≤ 512
      dsimp only at hn
      omega
  · refine Aacc.Sound.aabc ?_ ?_ ?_ rfl _
    · exact h.block
    · exact h.tape
    · exact hguard

theorem Aacc.Walking.aaboMove (h : s.Walking) (isRead : Bool) (pos : Nat) (mem : Nat → β) (io : Io) :
    (aaboMove s isRead pos mem io).1.1.Sound := by
  have hfail : ∀ g : Aadg, g.busy = false → ∀ st, (Tape.aabc s g st).1.Sound :=
    fun g hg st => .aabc h.block h.tape h.guard hg st
  unfold Tape.aaboMove
  dsimp only
  split
  · exact hfail _ rfl _
  · next hp =>
    split
    · exact hfail _ rfl _
    · split
      · split
        · exact hfail _ rfl _
        · split
          · exact hfail _ rfl _
          · exact h.aaboNext hp
      · split
        · exact hfail _ rfl _
        · split
          · exact hfail _ rfl _
          · -- the file is written; the cursor has not moved yet
            generalize copyUnits (s.blockSize / 512) (pos / 512) (aabb s / 512) s.aadb mem = file
            have hw : Aacc.Walking { s with aadb := file } :=
              ⟨h.block, h.tape, h.loaded, h.rw, h.guard, h.cursor⟩
            exact hw.aaboNext hp

/-- The walk to the offset of the command stays in the table. -/
theorem aaaxLoop_cursor (n : Nat) (s : Aacc β) (h : s.aaan ≤ 512) : (aaaxLoop n s).2.aaan ≤ 512 := by
  induction n generalizing s with
  | zero => exact h
  | succ n ih =>
    unfold aaaxLoop
    split
    · exact h
    · next hlt =>
      dsimp only
      split
      · exact h
      · split
        · exact ih _ (by dsimp only; omega)
        · exact ih _ h

theorem aabn_cursor {s' : Aacc β} (h : aabn s io = .ok s') : s'.aaan ≤ 512 := by
  unfold aabn at h
  dsimp only at h
  split at h
  · cases h
  · next table _ =>
    have hcur := aaaxLoop_cursor s.aaam { s with
      aaan := 0, aaao := 0, aaap := fun i => if i < 4096 / 8 then table i else s.aaap i }
      (Nat.zero_le _)
    split at h
    · cases h
    · next hx =>
      cases h
      unfold aaax at hx
      dsimp only at hx
      rw [hx] at hcur
      exact hcur

/-- Loading the table does not change what the section keeps. -/
theorem Aacc.Sound.walking (h : s.Sound) (hrw : s.aadg = .read ∨ s.aadg = .write)
    (hc : CursorOnly s s') (hg : s'.aaap 512 = s.aaap 512) (hn : s'.aaan ≤ 512) : s'.Walking := by
  have h0 : s.aaaa ≠ 0 := by
    rcases hrw with hrw | hrw <;> exact h.loaded (by rw [hrw]; rfl) (by rw [hrw]; rintro ⟨⟩)
  rw [hc]
  exact ⟨h.block, h.tape, h0, hrw, hg.trans h.guard, hn⟩

theorem Aacc.Sound.aabo (h : s.Sound) {isRead : Bool} (hrw : s.aadg = .read ∨ s.aadg = .write)
    (mem : Nat → β) (io : Io) :
    (aabo s isRead mem io).1.1.Sound ∧ aaboFault s isRead io = none := by
  have hfail : ∀ st, (Tape.aabc s .idle st).1.Sound :=
    fun st => .aabc h.block h.tape h.guard rfl st
  have h0 : s.aaaa ≠ 0 := by
    rcases hrw with hrw | hrw <;> exact h.loaded (by rw [hrw]; rfl) (by rw [hrw]; rintro ⟨⟩)
  unfold Tape.aabo aaboFault
  dsimp only
  rw [if_neg h0, if_neg h0]
  split
  · exact ⟨hfail _, rfl⟩
  · split
    · exact ⟨hfail _, rfl⟩
    · split
      · exact ⟨hfail _, rfl⟩
      · split
        · rcases aabn_frame s io with ⟨s', he, hc, hg⟩ | ⟨s', he, hc, hg⟩
          · rw [he]
            have hw := h.walking hrw hc hg (aabn_cursor he)
            exact ⟨hw.aaboMove _ _ mem io, hw.fault _ io⟩
          · rw [he]
            refine ⟨.aabc ?_ ?_ (hg.trans h.guard) rfl _, rfl⟩
            · rw [hc]
              exact h.block
            · rw [hc]
              exact h.tape
        · next hk =>
          have hw := h.walking hrw (show CursorOnly s s from rfl) rfl (h.cursor hrw hk)
          exact ⟨hw.aaboMove _ _ mem io, hw.fault _ io⟩

/-- A step of a section is safe, and leaves it safe for the next. -/
theorem Aacc.Sound.aabf (h : s.Sound) (mem : Nat → β) (io : Io) :
    (aabf s mem io).1.1.Sound ∧ stepFault s io = none := by
  have hloaded : s.aadg.busy = true → s.aadg ≠ .take → loadedFault s = none :=
    fun hb hne => loadedFault_eq (h.loaded hb hne) h.tape
  unfold Tape.aabf stepFault
  cases hg : s.aadg with
  | disabled => exact ⟨h, rfl⟩
  | idle => exact ⟨h, rfl⟩
  | failed => exact ⟨h, rfl⟩
  | take =>
    obtain ⟨h0, hne, hle⟩ := h.take hg
    refine ⟨Aacc.Sound.aabc (s := aaaw s) h.block hle h.guard rfl _, ?_⟩
    unfold aaawFault
    rw [if_neg (by simp [h0, hne, hle]), if_neg (by omega)]
  | eject =>
    refine ⟨Aacc.Sound.aabc (s := aaau s) h.block (Nat.zero_le _) h.guard rfl _, ?_⟩
    dsimp only
    rw [if_neg (h.loaded (by rw [hg]; rfl) (by rw [hg]; rintro ⟨⟩))]
  | rewind =>
    exact ⟨Aacc.Sound.aabc (s := aaat s) h.block h.tape h.guard rfl _,
      hloaded (by rw [hg]; rfl) (by rw [hg]; rintro ⟨⟩)⟩
  | ffwd =>
    exact ⟨Aacc.Sound.aabc (s := aaas s (s.aaaj * s.blockSize)) h.block h.tape h.guard rfl _,
      hloaded (by rw [hg]; rfl) (by rw [hg]; rintro ⟨⟩)⟩
  | read => exact h.aabo (.inl hg) mem io
  | write => exact h.aabo (.inr hg) mem io

end

/-! ## The device -/

/-- Sections the device can go on with, and nothing has failed. -/
structure Tapedev.Safe (d : Tapedev β) : Prop where
  sections : ∀ i, i < d.aadesNo → (d.aades i).Sound
  fault : d.fault = none

section
variable {d d' : Tapedev β}

theorem Tapedev.Safe.update (h : d.Safe) {i : Nat} {s : Aacc β} (hs : s.Sound) :
    ∀ j, j < d.aadesNo → (Function.update d.aades i s j).Sound := by
  intro j hj
  by_cases hji : j = i
  · subst hji
    rwa [Function.update_self]
  · rw [Function.update_of_ne hji]
    exact h.sections j hj

theorem Tapedev.Safe.aaca (h : d.Safe) (hd : d.aadg = 1 ∨ d.aadg = 3) : (aaca d).1.Safe := by
  obtain ⟨hno, hf, -⟩ := aaca_frame d
  refine ⟨fun i hi => ?_, hf.trans h.fault⟩
  rw [hno] at hi
  have hs := h.sections i hi
  rcases aaca_section hd hi with he | ⟨-, he⟩ | ⟨-, he⟩
  · rw [he]
    exact hs
  · rw [he]
    exact hs.resting rfl
  · rw [he]
    exact .of_resting hs.block hs.tape hs.guard rfl

theorem Tapedev.Safe.atom (h : d.Safe) (ha : Tapedev.Atom d d') : d'.Safe := by
  cases ha with
  | pass clock io i hi hw =>
    obtain ⟨hs, hf⟩ := (h.sections i hi).aabf d.mem (io i)
    refine ⟨?_, ?_⟩
    · rw [pass_aadesNo, pass_toPCIint hw, answer_aades]
      exact h.update hs
    · rw [pass_fault hw, h.fault, hf]
      rfl
  | start i w clock rand hi hen hidle =>
    refine ⟨?_, ?_⟩
    · rw [start_toPCIint hidle, answer_aadesNo, answer_aades, hen]
      exact h.update ((h.sections i hi).aabm w)
    · rw [start_fault, h.fault]
  | regs mask aadf written mem => exact ⟨h.sections, h.fault⟩
  | clear val =>
    refine ⟨?_, h.fault⟩
    dsimp only
    unfold clearIrq
    dsimp only
    split <;> exact h.sections
  | table i val hi hen =>
    refine ⟨h.update ?_, h.fault⟩
    have hs := h.sections i hi
    unfold aabiPgtable
    rw [hen, if_neg (not_not.mpr rfl)]
    exact ⟨hs.block, hs.tape, hs.take, hs.loaded, hs.guard, hs.cursor⟩
  | block i val hi hen hidle hval =>
    have hs := h.sections i hi
    exact ⟨h.update (.of_resting hval hs.tape hs.guard (by dsimp only; rw [hidle]; rfl)), h.fault⟩
  | enable h0 => exact ⟨h.sections, h.fault⟩
  | disable h2 => exact ⟨h.sections, h.fault⟩
  | aaca h13 => exact h.aaca h13
  | reset =>
    refine ⟨fun i hi => ?_, h.fault⟩
    show (if i < d.aadesNo then (d.aades i).reset else d.aades i).Sound
    rw [if_pos (by exact hi)]
    exact .of_resting (Nat.zero_le 4) (Nat.zero_le _) (h.sections i hi).guard rfl

end

theorem newAacc_sound (tapes ty : Nat) (positions : Nat → Nat) (file : Nat → β) :
    (newAacc tapes ty positions file).Sound :=
  .of_resting (Nat.zero_le 4) (Nat.zero_le _) rfl rfl

theorem newTapedev_safe (p : Props) (x : Setup β) : (newTapedev p x).Safe :=
  ⟨fun _ _ => newAacc_sound _ _ _ _, rfl⟩

theorem tapedev_safe {d : Tapedev β} (h : (tapedev β).Reach d) : d.Safe := by
  refine tapedev_invariant (fun p x d hd => ?_) (fun _ _ hp ha => hp.atom ha) h
  rw [(tapedevRealize_ok hd).1]
  exact newTapedev_safe p x

/-- **No guest breaks the device.** From its creation on, for every sequence of register
writes of any size at any address, timer calls, resets and changes of memory, and for any
answers of the host, no `assert` fails and no array is used outside its bounds. -/
theorem device_never_faults {d : Tapedev β} (h : (tapedev β).Reach d) : d.fault = none :=
  (tapedev_safe h).fault

/-- A block is written to a tape. -/
theorem device_never_faults_small :
    let d := (smallTransfer true).foldl Tapedev.next (smallEnabled true)
    (d.aades 0).aadb 0 = 7 ∧ d.fault = none :=
  ⟨by decide +kernel, device_never_faults (reach_run (smallEnabled_reach true) _)⟩

end Zso.Tape

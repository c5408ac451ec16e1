import Zso.Tape.DeviceSafety
import Zso.Tape.FastMode

/-!
# The file behind a section

The tapes of a section lie one behind the other in one file of the host. Positions in it are
computed with 32 bits.

* `tape_isolated`: a tape keeps its data as long as it is not loaded, whatever the guest does,
  if the section has at most 4 GiB.
* `tapes_overlap_iff`: in larger sections tapes share their place in the file.
* `fresh_realize_iff`: which devices can be created on an empty directory.
-/

namespace Zso.Tape
open Bits Transition

variable {β : Type}

/-! ## One step -/

/-- Unit `u` of the file belongs to tape `t` of the section. -/
def Aacc.OnTape (s : Aacc β) (t u : Nat) : Prop :=
  t ≠ 0 ∧ (t - 1) * s.tapeSize ≤ 512 * u ∧ 512 * u < t * s.tapeSize

/-- The tapes of the section, in bytes. -/
def Aacc.capacity (s : Aacc β) : Nat := s.aaad * s.tapeSize

section
variable {s s' : Aacc β} {io : Io} {mem : Nat → β} {u : Nat}

theorem tapeSize_units (s : Aacc β) : s.tapeSize = 512 * (512 * 2 ^ s.aaae) := by
  unfold Aacc.tapeSize
  rw [Nat.shiftLeft_eq, one_mul]
  ring

theorem blockSize_units (s : Aacc β) : s.blockSize = 512 * 2 ^ s.aaac := by
  unfold Aacc.blockSize
  rw [Nat.shiftLeft_eq, one_mul, pow_add]
  rfl

/-- A block that lies on the loaded tape is where it belongs. -/
theorem aaar_eq (hcap : s.capacity ≤ 2 ^ 32) (ht : s.aaaa ≤ s.aaad) (h0 : s.aaaa ≠ 0)
    (hpos : s.aaaf < s.tapeSize) : aaar s = (s.aaaa - 1) * s.tapeSize + s.aaaf := by
  have hlt : (s.aaaa - 1) * s.tapeSize + s.aaaf < s.capacity :=
    calc (s.aaaa - 1) * s.tapeSize + s.aaaf < (s.aaaa - 1) * s.tapeSize + s.tapeSize := by omega
      _ = (s.aaaa - 1 + 1) * s.tapeSize := (Nat.succ_mul _ _).symm
      _ ≤ s.aaad * s.tapeSize := Nat.mul_le_mul_right _ (by omega)
  unfold aaar u32
  exact Nat.mod_eq_of_lt (lt_of_lt_of_le hlt hcap)

theorem aaboNext_aadb (s : Aacc β) : (aaboNext s).1.aadb = s.aadb := by
  obtain ⟨f, g, n, o, p, he⟩ := aaboNext_frame s
  rw [he]
  dsimp only
  split <;> rfl

/-- Only a WRITE changes the file, and only at its position. -/
theorem aaboMove_aadb (s : Aacc β) (isRead : Bool) (pos : Nat) (mem : Nat → β) (io : Io) :
    (aaboMove s isRead pos mem io).1.1.aadb = s.aadb ∨
    isRead = false ∧ ∃ src, (aaboMove s isRead pos mem io).1.1.aadb =
      copyUnits (s.blockSize / 512) (pos / 512) src s.aadb mem := by
  unfold aaboMove
  generalize aabb s = page
  dsimp only
  split
  · exact .inl rfl
  · split
    · exact .inl rfl
    · split
      · split
        · exact .inl rfl
        · split
          · exact .inl rfl
          · dsimp only
            exact .inl (aaboNext_aadb s)
      · next hread =>
        split
        · exact .inl rfl
        · split
          · exact .inl rfl
          · dsimp only
            exact .inr ⟨Bool.not_eq_true _ ▸ hread, page / 512, aaboNext_aadb _⟩

theorem aaboMove_file (isRead : Bool) (pos : Nat)
    (h : (aaboMove s isRead pos mem io).1.1.aadb u ≠ s.aadb u) :
    isRead = false ∧ pos / 512 ≤ u ∧ u < pos / 512 + s.blockSize / 512 := by
  rcases aaboMove_aadb s isRead pos mem io with he | ⟨hread, src, he⟩
  · exact absurd (congrFun he u) h
  · rw [he] at h
    unfold copyUnits at h
    split at h
    · next hin => exact ⟨hread, hin⟩
    · exact absurd rfl h

theorem aabo_file {isRead : Bool} (h : (aabo s isRead mem io).1.1.aadb u ≠ s.aadb u) :
    isRead = false ∧ s.aaaa ≠ 0 ∧ s.aaaf + s.blockSize ≤ s.tapeSize ∧
      aaar s / 512 ≤ u ∧ u < aaar s / 512 + s.blockSize / 512 := by
  unfold aabo at h
  dsimp only at h
  split at h
  · exact absurd rfl h
  · next h0 =>
    split at h
    · exact absurd rfl h
    · split at h
      · exact absurd rfl h
      · next hpos =>
        have hend : s.aaaf + s.blockSize ≤ s.tapeSize := not_lt.mp (not_or.mp hpos).2
        split at h
        · exact absurd rfl h
        · split at h
          · rcases aabn_frame s io with ⟨s', he, hc, -⟩ | ⟨s', he, hc, -⟩
            · rw [he] at h
              have hfile : s'.aadb = s.aadb := by rw [hc]
              have hblock : s'.blockSize = s.blockSize := by rw [hc]; rfl
              rw [← hfile] at h
              obtain ⟨hr, hlo, hhi⟩ := aaboMove_file isRead (aaar s) h
              exact ⟨hr, h0, hend, hlo, hblock ▸ hhi⟩
            · rw [he] at h
              refine absurd ?_ h
              show s'.aadb u = s.aadb u
              rw [hc]
          · obtain ⟨hr, hlo, hhi⟩ := aaboMove_file isRead (aaar s) h
            exact ⟨hr, h0, hend, hlo, hhi⟩

/-- A step of a section changes its file on the loaded tape only. -/
theorem aabf_file (hcap : s.capacity ≤ 2 ^ 32) (ht : s.aaaa ≤ s.aaad)
    (h : (aabf s mem io).1.1.aadb u ≠ s.aadb u) : s.aadg = .write ∧ s.OnTape s.aaaa u := by
  have hwrite : s.aadg = .write ∧ (aabo s false mem io).1.1.aadb u ≠ s.aadb u := by
    unfold aabf at h
    cases hg : s.aadg with
    | read =>
      rw [hg] at h
      exact absurd (aabo_file h).1 (by decide)
    | write =>
      rw [hg] at h
      exact ⟨rfl, h⟩
    | disabled | idle | take | eject | rewind | ffwd | failed =>
      rw [hg] at h
      exact absurd rfl h
  obtain ⟨-, h0, hend, hlo, hhi⟩ := aabo_file hwrite.2
  have hT := tapeSize_units s
  have hB := blockSize_units s
  have hpow : 0 < 2 ^ s.aaac := Nat.two_pow_pos _
  rw [aaar_eq hcap ht h0 (by omega)] at hlo hhi
  have hstart : (s.aaaa - 1) * s.tapeSize = 512 * ((s.aaaa - 1) * (512 * 2 ^ s.aaae)) := by
    rw [hT]
    ring
  have hnext : s.aaaa * s.tapeSize = (s.aaaa - 1) * s.tapeSize + s.tapeSize := by
    rw [← Nat.succ_mul, Nat.succ_eq_add_one, Nat.sub_add_cancel (by omega)]
  refine ⟨hwrite.1, h0, ?_, ?_⟩
  · omega
  · omega

end

/-! ## One call -/

/-- Of the file of section `i` only the tape that was loaded has changed, and a WRITE that is
going on is one to this tape. -/
structure Tapedev.KeepsTapes (d : Tapedev β) (i : Nat) (d' : Tapedev β) : Prop where
  file : ∀ u, (d'.aades i).aadb u ≠ (d.aades i).aadb u → (d.aades i).OnTape (d.aades i).aaaa u
  loaded : (d'.aades i).aadg = .write → (d'.aades i).aaaa = (d.aades i).aaaa

section
variable {d d' : Tapedev β} {i clock : Nat}

/-- The file is not touched, and the same tape is loaded. -/
theorem keepsTapes_of_eq (hf : (d'.aades i).aadb = (d.aades i).aadb)
    (ht : (d'.aades i).aaaa = (d.aades i).aaaa) : d.KeepsTapes i d' :=
  ⟨fun _ hne => absurd (congrFun hf _) hne, fun _ => ht⟩

theorem Tapedev.KeepsTapes.pass (h : d.KeepsTapes i d') (hsame : d.SameSections d') (hi : i < d.aadesNo)
    (hsafe : d'.Safe) (hcap : (d.aades i).capacity ≤ 2 ^ 32) {j : Nat}
    (hw : d'.works clock j = true) (io : Nat → Io) : d.KeepsTapes i (d'.pass clock io j) := by
  by_cases hji : i = j
  · subst hji
    obtain ⟨htapes, htype⟩ := hsame.tapes i hi
    have hsize : (d'.aades i).tapeSize = (d.aades i).tapeSize := by
      unfold Aacc.tapeSize
      rw [htype]
    have hcap' : (d'.aades i).capacity ≤ 2 ^ 32 := by
      unfold Aacc.capacity at hcap ⊢
      rwa [htapes, hsize]
    have hle := (hsafe.sections i (by rw [hsame.aadesNo]; exact hi)).tape
    have hrun := aabf_cases (works_busy hw) d'.mem (io i)
    have hstep : (d'.pass clock io i).aades i = (Tape.aabf (d'.aades i) d'.mem (io i)).1.1 := by
      rw [pass_aades, if_pos hw, Function.update_self]
    refine ⟨fun u hne => ?_, fun hg => ?_⟩
    · by_cases hu : (Tape.aabf (d'.aades i) d'.mem (io i)).1.1.aadb u = (d'.aades i).aadb u
      · rw [hstep, hu] at hne
        exact h.file u hne
      · obtain ⟨hg, hon⟩ := aabf_file hcap' hle hu
        unfold Aacc.OnTape at hon ⊢
        rwa [hsize, h.loaded hg] at hon
    · rw [hstep] at hg ⊢
      rcases hrun with ⟨-, hgo⟩ | hfin
      · rw [hgo.aaaa]
        exact h.loaded (hgo.aadg.symm.trans hg)
      · have hrest := hfin.resting.1
        rw [hg] at hrest
        cases hrest
  · have hstep : (d'.pass clock io j).aades i = d'.aades i := by
      rw [pass_aades, if_pos hw, Function.update_of_ne hji]
    exact ⟨fun u hne => h.file u (hstep ▸ hne), fun hg => by rw [hstep] at hg ⊢; exact h.loaded hg⟩

theorem passAll_keepsTapes (h : d.KeepsTapes i d') (hsame : d.SameSections d') (hi : i < d.aadesNo)
    (hsafe : d'.Safe) (hcap : (d.aades i).capacity ≤ 2 ^ 32) (io : Nat → Io) {is : List Nat}
    (his : ∀ j ∈ is, j < d.aadesNo) : d.KeepsTapes i (d'.passAll clock io is).1 := by
  refine (passAll_induction (P := fun e => d.KeepsTapes i e ∧ d.SameSections e ∧ e.Safe)
    ⟨h, hsame, hsafe⟩ fun e j hj hp hw => ?_).1
  have hatom : Tapedev.Atom e (e.pass clock io j) :=
    .pass e clock io j (by rw [hp.2.1.aadesNo]; exact his j hj) hw
  exact ⟨hp.1.pass hp.2.1 hi hp.2.2 hcap hw io, hp.2.1.trans hatom.sameSections, hp.2.2.atom hatom⟩

theorem fastLoop_keepsTapes (h : d.KeepsTapes i d') (hsame : d.SameSections d') (hi : i < d.aadesNo)
    (hsafe : d'.Safe) (hcap : (d.aades i).capacity ≤ 2 ^ 32) (hen : d'.aadg = 2) (n : Nat)
    (ios : Nat → Nat → Io) : d.KeepsTapes i (fastLoop clock n ios d').1 := by
  refine (fastLoop_induction (P := fun e => d.KeepsTapes i e ∧ d.SameSections e ∧ e.Safe)
    ⟨h, hsame, hsafe⟩ hen (fun e io j hj hp hw => ?_) n ios).1
  have hatom : Tapedev.Atom e (e.pass clock io j) :=
    .pass e clock io j (by rw [hp.2.1.aadesNo, ← hsame.aadesNo]; exact hj) hw
  exact ⟨hp.1.pass hp.2.1 hi hp.2.2 hcap hw io, hp.2.1.trans hatom.sameSections, hp.2.2.atom hatom⟩

theorem aaca_keepsTapes (d : Tapedev β) (hi : i < d.aadesNo) : d.KeepsTapes i (aaca d).1 := by
  by_cases h : d.aadg = 1 ∨ d.aadg = 3
  · rcases aaca_section h hi with he | ⟨-, he⟩ | ⟨-, he⟩
    · exact keepsTapes_of_eq (by rw [he]) (by rw [he])
    · exact keepsTapes_of_eq (by rw [he]) (by rw [he])
    · exact keepsTapes_of_eq (by rw [he]; rfl) (by rw [he]; rfl)
  · obtain ⟨h1, h3⟩ := not_or.mp h
    rw [aaca_of_ne h1 h3]
    exact keepsTapes_of_eq rfl rfl

theorem aaca_sameSections (d : Tapedev β) : d.SameSections (aaca d).1 := by
  by_cases h : d.aadg = 1 ∨ d.aadg = 3
  · exact (Tapedev.Atom.aaca d h).sameSections
  · obtain ⟨h1, h3⟩ := not_or.mp h
    rw [aaca_of_ne h1 h3]
    exact ⟨rfl, rfl, fun _ _ => ⟨rfl, rfl⟩⟩

theorem aaca_safe (h : d.Safe) : (aaca d).1.Safe := by
  by_cases h13 : d.aadg = 1 ∨ d.aadg = 3
  · exact h.aaca h13
  · obtain ⟨h1, h3⟩ := not_or.mp h13
    rwa [aaca_of_ne h1 h3]

theorem aabf_keepsTapes (hsafe : d.Safe) (hi : i < d.aadesNo)
    (hcap : (d.aades i).capacity ≤ 2 ^ 32) (io : Nat → Io) :
    d.KeepsTapes i (d.aabf clock io).1 := by
  unfold Tapedev.aabf
  split
  · exact keepsTapes_of_eq rfl rfl
  · dsimp only
    split
    · exact aaca_keepsTapes d hi
    · refine passAll_keepsTapes (aaca_keepsTapes d hi) (aaca_sameSections d) hi (aaca_safe hsafe) hcap
        io fun j hj => ?_
      rw [← (aaca_sameSections d).aadesNo]
      exact List.mem_range.mp hj

theorem aabm_keeps (s : Aacc β) (w : Nat) :
    (Tape.aabm 2 s w).1.aadb = s.aadb ∧ (Tape.aabm 2 s w).1.aaaa = s.aaaa := by
  by_cases hi : s.aadg = .idle
  · rcases aabm_cases hi w with ⟨s', g, he, -, hargs, -⟩ | ⟨st, he, -⟩
    · rw [he]
      show s'.aadb = s.aadb ∧ s'.aaaa = s.aaaa
      rw [hargs]
      exact ⟨rfl, rfl⟩
    · rw [he]
      exact ⟨rfl, rfl⟩
  · rw [aabm_busy hi]
    exact ⟨rfl, rfl⟩

theorem update_keepsTapes {j : Nat} {s : Aacc β}
    (he : d'.aades = Function.update d.aades j s) (hf : s.aadb = (d.aades j).aadb)
    (ht : s.aaaa = (d.aades j).aaaa) : d.KeepsTapes i d' := by
  by_cases hij : i = j
  · subst hij
    refine keepsTapes_of_eq ?_ ?_
    · rw [he, Function.update_self, hf]
    · rw [he, Function.update_self, ht]
  · refine keepsTapes_of_eq ?_ ?_
    · rw [he, Function.update_of_ne hij]
    · rw [he, Function.update_of_ne hij]

theorem setSection_keepsTapes {j : Nat} {s : Aacc β} (hf : s.aadb = (d.aades j).aadb)
    (ht : s.aaaa = (d.aades j).aaaa) : d.KeepsTapes i (d.setSection j s) :=
  update_keepsTapes (j := j) (s := s) rfl hf ht

theorem aabm_keepsTapes (hsafe : d.Safe) (hi : i < d.aadesNo)
    (hcap : (d.aades i).capacity ≤ 2 ^ 32) (hen : d.aadg = 2) {j : Nat} (hj : j < d.aadesNo)
    (w clock rand : Nat) (ios : Nat → Nat → Io) : d.KeepsTapes i (d.aabm j w clock rand ios) := by
  unfold Tapedev.aabm
  dsimp only
  by_cases hidle : (d.aades j).aadg = .idle
  · have hatom := Tapedev.Atom.start d j w clock rand hj hen hidle
    have hstart : d.KeepsTapes i (d.start j w clock rand) := by
      obtain ⟨hf, ht⟩ := aabm_keeps (d.aades j) w
      rw [← hen] at hf ht
      exact update_keepsTapes (start_aades hidle) hf ht
    split
    · exact fastLoop_keepsTapes hstart hatom.sameSections hi (hsafe.atom hatom) hcap
        ((start_frame d j w clock rand).1.trans hen) _ ios
    · exact hstart
  · rw [if_neg fun h => hidle h.2.1]
    unfold Tapedev.start
    dsimp only
    rw [if_neg hidle]
    exact keepsTapes_of_eq rfl rfl

theorem next_keepsTapes (hsafe : d.Safe) (hi : i < d.aadesNo)
    (hcap : (d.aades i).capacity ≤ 2 ^ 32) (c : Call β) : d.KeepsTapes i (d.next c) := by
  have hsame : d.KeepsTapes i d := keepsTapes_of_eq rfl rfl
  cases c with
  | write aabu val size clock rand io =>
    show d.KeepsTapes i (aabk d aabu val size clock rand io)
    unfold aabk
    split
    · exact hsame
    · split
      · refine keepsTapes_of_eq ?_ ?_
        all_goals
          unfold aabh clearIrq
          dsimp only
          split
          · split
            · rfl
            · split <;> rfl
          · rfl
          · rfl
          · split <;> rfl
          · rfl
      · split
        · exact hsame
        · split
          · exact hsame
          · next hj =>
            unfold Tapedev.aabi
            split
            · exact hsame
            · next hen =>
              split
              · exact aabm_keepsTapes hsafe hi hcap (not_not.mp hen) (not_le.mp hj) _ _ _ io
              · exact keepsTapes_of_eq rfl rfl
              · refine setSection_keepsTapes ?_ ?_
                all_goals
                  unfold aabiPgtable
                  split <;> rfl
              · split
                · exact setSection_keepsTapes rfl rfl
                · exact hsame
              · exact hsame
  | timer clock io => exact aabf_keepsTapes hsafe hi hcap io
  | reset =>
    have he : (tapedevReset d).aades i = (d.aades i).reset := if_pos hi
    refine ⟨fun u hne => absurd ?_ hne, fun hg => ?_⟩
    · show ((tapedevReset d).aades i).aadb u = _
      rw [he]
      rfl
    · have hidle : ((tapedevReset d).aades i).aadg = .idle := by
        rw [he]
        rfl
      cases hidle.symm.trans hg
  | cpu mem => exact keepsTapes_of_eq rfl rfl

end

/-! ## A run -/

section
variable {s : Aacc β} {t t' u : Nat}

/-- A unit belongs to one tape. -/
theorem onTape_unique (h : s.OnTape t u) (h' : s.OnTape t' u) : t = t' := by
  obtain ⟨h0, hlo, hhi⟩ := h
  obtain ⟨h0', hlo', hhi'⟩ := h'
  have hle : ∀ a b : Nat, a ≠ 0 → (a - 1) * s.tapeSize < b * s.tapeSize → a ≤ b := by
    intro a b ha hlt
    have := Nat.lt_of_mul_lt_mul_right hlt
    omega
  exact le_antisymm (hle t t' h0 (lt_of_le_of_lt hlo hhi')) (hle t' t h0' (lt_of_le_of_lt hlo' hhi))

end

/-- **A tape that is not loaded keeps its data.** In a section of at most 4 GiB no sequence of
calls, whatever the guest writes to the registers of this or another section, changes a
unit of the file that belongs to tape `t`, unless tape `t` has been in the drive. -/
theorem tape_isolated {d : Tapedev β} (h : (tapedev β).Reach d) {i : Nat} (hi : i < d.aadesNo)
    (hcap : (d.aades i).capacity ≤ 2 ^ 32) {cs : List (Call β)} {t : Nat}
    (hnever : ∀ pre, pre <+: cs → ((pre.foldl Tapedev.next d).aades i).aaaa ≠ t) {u : Nat}
    (hu : (d.aades i).OnTape t u) :
    ((cs.foldl Tapedev.next d).aades i).aadb u = (d.aades i).aadb u := by
  induction cs generalizing d with
  | nil => rfl
  | cons c cs ih =>
    have hsame := run_sameSections d [c]
    rw [List.foldl_cons, List.foldl_nil] at hsame
    obtain ⟨htapes, htype⟩ := hsame.tapes i hi
    have hsize : ((d.next c).aades i).tapeSize = (d.aades i).tapeSize := by
      unfold Aacc.tapeSize
      rw [htype]
    have hstep : ((d.next c).aades i).aadb u = (d.aades i).aadb u := by
      by_contra hne
      have hon := (next_keepsTapes (tapedev_safe h) hi hcap c).file u hne
      exact hnever [] (List.nil_prefix) (onTape_unique hon hu)
    rw [List.foldl_cons, ← hstep]
    refine ih (h.step rfl) (by rw [hsame.aadesNo]; exact hi) ?_ (fun pre hpre => ?_) ?_
    · unfold Aacc.capacity at hcap ⊢
      rwa [htapes, hsize]
    · exact hnever (c :: pre) (List.cons_prefix_cons.mpr ⟨rfl, hpre⟩)
    · unfold Aacc.OnTape at hu ⊢
      rwa [hsize]

/-- Tape 2 of the small device while a block is written to tape 1. -/
theorem tape_isolated_small :
    let d := (smallTransfer true).foldl Tapedev.next (smallEnabled true)
    (d.aades 0).aadb 0 ≠ ((smallEnabled true).aades 0).aadb 0 ∧
      (d.aades 0).aadb 512 = ((smallEnabled true).aades 0).aadb 512 := by
  have hnever : ∀ pre ∈ (smallTransfer true).inits,
      ((pre.foldl Tapedev.next (smallEnabled true)).aades 0).aaaa ≠ 2 := by
    decide +kernel
  refine ⟨by decide +kernel, tape_isolated (smallEnabled_reach true) (Nat.lt_succ_self 0) (by decide)
    (fun pre hpre => hnever pre ((List.mem_inits _ _).mpr hpre)) ?_⟩
  exact (show ((smallEnabled true).aades 0).OnTape 2 512 from ⟨by decide, by decide, by decide⟩)

/-! ## Large sections -/

/-- **Tapes overlap in sections of more than 4 GiB.** Different places on the tapes of a section
are different positions in its file if and only if the section has at most 4 GiB. `tapedev_realize`
allows up to 39 GiB. -/
theorem tapes_overlap_iff (s : Aacc β) (htype : s.aaae ≤ 4) :
    Set.InjOn (fun p : Nat × Nat => aaar { s with aaaa := p.1, aaaf := p.2 })
      {p | 1 ≤ p.1 ∧ p.1 ≤ s.aaad ∧ p.2 < s.tapeSize} ↔ s.capacity ≤ 2 ^ 32 := by
  constructor
  · intro hinj
    by_contra hcap
    have hT : 2 ^ (14 - s.aaae) * s.tapeSize = 2 ^ 32 := by
      rw [tapeSize_units, show (512 : Nat) = 2 ^ 9 from rfl, ← pow_add, ← pow_add, ← pow_add]
      congr 1
      omega
    have hpow := Nat.two_pow_pos (14 - s.aaae)
    have hpos : 0 < s.tapeSize := Nat.pos_of_mul_pos_left (hT ▸ Nat.two_pow_pos 32)
    have hmany : 2 ^ (14 - s.aaae) < s.aaad := by
      unfold Aacc.capacity at hcap
      rw [← hT] at hcap
      exact Nat.lt_of_mul_lt_mul_right (not_le.mp hcap)
    have hsame : aaar { s with aaaa := 2 ^ (14 - s.aaae) + 1, aaaf := 0 } =
        aaar { s with aaaa := 1, aaaf := 0 } := by
      show u32 ((2 ^ (14 - s.aaae) + 1 - 1) * s.tapeSize + 0) = u32 ((1 - 1) * s.tapeSize + 0)
      rw [Nat.add_sub_cancel, hT, Nat.sub_self, Nat.zero_mul]
      rfl
    have hlast : (2 ^ (14 - s.aaae) + 1, 0) ∈ {p : Nat × Nat | 1 ≤ p.1 ∧ p.1 ≤ s.aaad ∧ p.2 < s.tapeSize} :=
      ⟨Nat.le_add_left _ _, hmany, hpos⟩
    have hfirst : (1, 0) ∈ {p : Nat × Nat | 1 ≤ p.1 ∧ p.1 ≤ s.aaad ∧ p.2 < s.tapeSize} :=
      ⟨le_refl _, by dsimp only; omega, hpos⟩
    have heq := hinj hlast hfirst hsame
    have hone : 2 ^ (14 - s.aaae) + 1 = 1 := congrArg Prod.fst heq
    omega
  · rintro hcap ⟨t, f⟩ ⟨ht, hle, hf⟩ ⟨t', f'⟩ ⟨ht', hle', hf'⟩ heq
    dsimp only at heq ht hle hf ht' hle' hf'
    rw [aaar_eq (s := { s with aaaa := t, aaaf := f }) hcap hle (by exact Nat.ne_of_gt ht) hf,
      aaar_eq (s := { s with aaaa := t', aaaf := f' }) hcap hle' (by exact Nat.ne_of_gt ht') hf'] at heq
    have heq : f + s.tapeSize * (t - 1) = f' + s.tapeSize * (t' - 1) := by
      rw [Nat.add_comm, Nat.mul_comm, Nat.add_comm f', Nat.mul_comm s.tapeSize]
      exact heq
    have hpos : 0 < s.tapeSize := by omega
    have hmod := congrArg (· % s.tapeSize) heq
    have hdiv := congrArg (· / s.tapeSize) heq
    simp only [Nat.add_mul_mod_self_left, Nat.mod_eq_of_lt hf, Nat.mod_eq_of_lt hf'] at hmod
    simp only [Nat.add_mul_div_left _ _ hpos, Nat.div_eq_of_lt hf, Nat.div_eq_of_lt hf'] at hdiv
    rw [hmod, show t = t' by omega]

/-- 1025 tapes of 4 MiB. -/
theorem tapes_overlap_large :
    ¬ Set.InjOn (fun p : Nat × Nat =>
        aaar { newAacc 1025 4 (fun _ => 0) (fun _ => 0) with aaaa := p.1, aaaf := p.2 })
      {p | 1 ≤ p.1 ∧ p.1 ≤ 1025 ∧ p.2 < 4194304} :=
  fun h => absurd ((tapes_overlap_iff (newAacc 1025 4 (fun _ => 0) fun _ => 0) (le_refl 4)).mp h)
    (by decide)

/-! ## Which devices can be created -/

/-- A file that did not exist, on a host that does not fail. -/
structure HostFile.Fresh (f : HostFile β) : Prop where
  openat : f.openat = true
  seekEnd : f.seekEnd = true
  seekLast : f.seekLast = true
  write : f.write = true
  seekStart : f.seekStart = true
  len : f.len = 0

section
variable {x : Setup β}

theorem error_not_ok {α : Type} (e : String) : ¬ ∃ a : α, (.error e : Except String α) = .ok a := by
  rintro ⟨a, ⟨⟩⟩

theorem openTapeFile_fresh {f : HostFile β} (hf : f.Fresh) (i : Nat) {size : Nat} (hs : size < 2 ^ 32) :
    (∃ data, openTapeFile i size f = .ok data) ↔ size ≤ 2 ^ 31 := by
  unfold openTapeFile
  rw [hf.openat, hf.seekEnd, hf.seekLast, hf.write, hf.seekStart, hf.len]
  simp only [Bool.true_eq_false, if_false, false_or]
  rcases Nat.eq_zero_or_pos size with rfl | hpos
  · simp
  · have hlast : lastByte size = size - 1 := by
      unfold lastByte u32
      rw [show size + 2 ^ 32 - 1 = size - 1 + 2 ^ 32 by omega, Nat.add_mod_right,
        Nat.mod_eq_of_lt (by omega)]
    rw [if_neg (by omega), hlast]
    by_cases hle : size ≤ 2 ^ 31
    · rw [if_neg (by omega)]
      exact iff_of_true ⟨_, rfl⟩ hle
    · rw [if_pos (by omega)]
      exact iff_of_false (error_not_ok _) hle

theorem openFiles_fresh (hf : ∀ i, (x.file i).Fresh) (i : Nat) (l : List (Nat × Nat)) :
    openFiles x.file i l = .ok () ↔ ∀ c ∈ l, fileSize c.1 c.2 ≤ 2 ^ 31 := by
  induction l generalizing i with
  | nil => simp [openFiles]
  | cons c l ih =>
    have hopen := openTapeFile_fresh (hf i) i (Nat.mod_lt (c.1 * (32 * (1 <<< c.2) * 8192))
      (Nat.two_pow_pos 32))
    unfold openFiles
    rw [List.forall_mem_cons, ← ih (i + 1)]
    change (∃ data, openTapeFile i (fileSize c.1 c.2) (x.file i) = .ok data) ↔ fileSize c.1 c.2 ≤ 2 ^ 31
      at hopen
    rw [← hopen]
    cases openTapeFile i (fileSize c.1 c.2) (x.file i) with
    | error e => simp
    | ok data => simp

theorem checkSections_iff (l : List (Nat × Nat)) :
    checkSections l = .ok () ↔ ∀ c ∈ l, c.2 ≤ 4 ∧ 1 ≤ c.1 ∧ c.1 ≤ 10000 := by
  refine ⟨fun h c hc => checkSections_ok h hc, fun h => ?_⟩
  induction l with
  | nil => rfl
  | cons c l ih =>
    obtain ⟨⟨hty, hlo, hhi⟩, hrest⟩ := List.forall_mem_cons.mp h
    unfold checkSections
    rw [if_neg (by omega), if_neg (by omega)]
    exact ih hrest

end

/-- **The devices that can be created on an empty directory** are those whose sections satisfy the
limits that `tapedev_realize` checks, and have a size in bytes that modulo 2^32 is at most
2^31: up to 2 GiB, in particular. -/
theorem fresh_realize_iff {p : Props} {x : Setup β} (hdir : p.dataDir = true ∧ x.mkdir = true ∧
    x.opendir = true) (hf : ∀ i, (x.file i).Fresh) :
    (∃ d, tapedevRealize p x = .ok d) ↔
      p.tapes.length = p.tapeTypes.length ∧ 1 ≤ p.tapes.length ∧ p.tapes.length ≤ 8 ∧
      ∀ c ∈ p.tapes.zip p.tapeTypes, c.2 ≤ 4 ∧ 1 ≤ c.1 ∧ c.1 ≤ 10000 ∧
        c.1 * (32 * (1 <<< c.2) * 8192) % 2 ^ 32 ≤ 2 ^ 31 := by
  obtain ⟨hdata, hmkdir, hopendir⟩ := hdir
  have hcheck := checkSections_iff (p.tapes.zip p.tapeTypes)
  have hopen := openFiles_fresh hf 0 (p.tapes.zip p.tapeTypes)
  unfold tapedevRealize
  dsimp only
  rw [hdata, hmkdir, hopendir]
  by_cases hlen : p.tapes.length = p.tapeTypes.length
  · rw [if_neg (not_not.mpr hlen)]
    by_cases hn : 8 < p.tapes.length ∨ p.tapes.length = 0
    · rw [if_pos hn]
      exact iff_of_false (error_not_ok _) fun h => by omega
    · rw [if_neg hn]
      generalize checkSections (p.tapes.zip p.tapeTypes) = r at hcheck
      generalize openFiles x.file 0 (p.tapes.zip p.tapeTypes) = o at hopen
      cases r with
      | error e =>
        refine iff_of_false (error_not_ok _) fun h => ?_
        cases hcheck.mpr fun c hc => ⟨(h.2.2.2 c hc).1, (h.2.2.2 c hc).2.1, (h.2.2.2 c hc).2.2.1⟩
      | ok _ =>
        have hlimits := hcheck.mp rfl
        cases o with
        | error e =>
          refine iff_of_false (error_not_ok _) fun h => ?_
          cases hopen.mpr fun c hc => (h.2.2.2 c hc).2.2.2
        | ok _ =>
          have hsizes := hopen.mp rfl
          refine iff_of_true ⟨_, rfl⟩ ⟨hlen, by omega, by omega, fun c hc => ?_⟩
          obtain ⟨hty, hlo, hhi⟩ := hlimits c hc
          exact ⟨hty, hlo, hhi, hsizes c hc⟩
  · rw [if_pos hlen]
    exact iff_of_false (error_not_ok _) fun h => hlen h.1

/-- The small device, and one with a section of more than 2 GiB. -/
theorem fresh_realize_small :
    (∃ d, tapedevRealize (smallProps true) smallSetup = .ok d) ∧
      ¬ ∃ d, tapedevRealize { smallProps true with tapes := [8193] } smallSetup = .ok d := by
  have hfresh : ∀ i, (smallSetup.file i).Fresh := fun _ => ⟨rfl, rfl, rfl, rfl, rfl, rfl⟩
  refine ⟨(fresh_realize_iff ⟨rfl, rfl, rfl⟩ hfresh).mpr (by decide), ?_⟩
  rw [fresh_realize_iff ⟨rfl, rfl, rfl⟩ hfresh]
  decide

end Zso.Tape

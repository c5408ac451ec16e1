import Zso.Tape.Mmio
import Zso.Tape.Registers

/-!
# The fast mode

In the fast mode a write of the CMD register does not return before the command is
completed: `aabm` ends with `while (aabf(s->d)) ;`.

* `fastLoop_ends`: the loop ends, because every round that does something brings a section
  closer to the end of its command.
* `fast_command_completes`: the interrupt of a command is there when the write returns.
* `fast_mode_agrees`: the fast mode does what the timer would have done.
-/

namespace Zso.Tape
open Bits Transition

variable {β : Type}

/-! ## Every step counts -/

section
variable {s : Aacc β}

theorem Aacc.work_of_resting (h : s.aadg.busy = false) : s.work = 0 := by
  cases hg : s.aadg <;> simp_all [Aacc.work, Aadg.busy]

theorem Aacc.work_pos (h : s.aadg.busy = true) : 0 < s.work := by
  cases hg : s.aadg <;> simp_all [Aacc.work, Aadg.busy]

theorem Aacc.work_transfer (h : s.aadg = .read ∨ s.aadg = .write) : s.work = s.aaal + 1 := by
  rcases h with h | h <;> simp [Aacc.work, h]

theorem Finishes.resting {io : Io} {a : Answer β} (h : Finishes s io a) :
    a.1.aadg.busy = false ∧ (a.1.aadf = .done ∨ a.1.aadf.isErr = true) ∧ ∃ q, a.2 = some q := by
  obtain ⟨s', g, st, rfl, hg, hst, -⟩ := h
  refine ⟨?_, ?_, _, rfl⟩
  · rcases hg with rfl | ⟨rfl, -⟩ <;> rfl
  · show st = .done ∨ st.isErr = true
    rcases hst with rfl | rfl | rfl | rfl <;> decide

theorem Aacc.work_aabf (hb : s.aadg.busy = true) (mem : Nat → β) (io : Io) :
    (aabf s mem io).1.1.work < s.work := by
  rcases aabf_cases hb mem io with ⟨hrw, hgo⟩ | hfin
  · have hleft : (aabf s mem io).1.1.aaal < s.aaal := by
      have hsil := hgo.silent
      unfold Tape.aabf at hsil ⊢
      rcases hrw with hg | hg
      · rw [hg] at hsil ⊢
        exact aabo_left hsil
      · rw [hg] at hsil ⊢
        exact aabo_left hsil
    rw [Aacc.work_transfer hrw, Aacc.work_transfer (by rw [hgo.aadg]; exact hrw)]
    omega
  · rw [Aacc.work_of_resting hfin.resting.1]
    exact Aacc.work_pos hb

end

/-! ## The loop -/

section
variable {d : Tapedev β} {clock i : Nat} {io : Nat → Io} {is : List Nat}

theorem pass_aadg (d : Tapedev β) (clock : Nat) (io : Nat → Io) (i : Nat) :
    (d.pass clock io i).aadg = d.aadg := by
  cases hw : d.works clock i with
  | true => rw [pass_toPCIint hw, answer_aadg]
  | false => rw [pass_of_not_works hw]

/-- A section is as before, or it has taken one step. -/
theorem pass_aades (d : Tapedev β) (clock : Nat) (io : Nat → Io) (i : Nat) :
    (d.pass clock io i).aades = if d.works clock i then
      Function.update d.aades i (Tape.aabf (d.aades i) d.mem (io i)).1.1 else d.aades := by
  cases hw : d.works clock i with
  | true => rw [pass_toPCIint hw, answer_aades, if_pos rfl]
  | false =>
    rw [pass_of_not_works hw, if_neg]
    exact Bool.false_ne_true

theorem passAll_induction {P : Tapedev β → Prop} (hp : P d)
    (hpass : ∀ d, ∀ i ∈ is, P d → d.works clock i = true → P (d.pass clock io i)) :
    P (d.passAll clock io is).1 := by
  induction is generalizing d with
  | nil => exact hp
  | cons i is ih =>
    refine ih ?_ fun d j hj => hpass d j (List.mem_cons_of_mem _ hj)
    cases hw : d.works clock i with
    | true => exact hpass d i List.mem_cons_self hp hw
    | false => rwa [pass_of_not_works hw]

theorem passAll_frame (d : Tapedev β) (clock : Nat) (io : Nat → Io) (is : List Nat) :
    (d.passAll clock io is).1.aadg = d.aadg ∧ (d.passAll clock io is).1.aadesNo = d.aadesNo ∧
      (d.passAll clock io is).1.fastMode = d.fastMode := by
  refine passAll_induction (P := fun d' => d'.aadg = d.aadg ∧ d'.aadesNo = d.aadesNo ∧
    d'.fastMode = d.fastMode) ⟨rfl, rfl, rfl⟩ fun d' i _ h _ => ?_
  rwa [pass_aadg, pass_aadesNo, pass_fastMode]

/-- Nothing to do: nothing is done. -/
theorem passAll_idle (h : (d.passAll clock io is).2 = false) :
    (d.passAll clock io is).1 = d ∧ ∀ i ∈ is, d.works clock i = false := by
  induction is generalizing d with
  | nil => exact ⟨rfl, fun _ hi => absurd hi List.not_mem_nil⟩
  | cons i is ih =>
    unfold Tapedev.passAll at h ⊢
    dsimp only at h ⊢
    obtain ⟨hw, hr⟩ := Bool.or_eq_false_iff.mp h
    rw [pass_of_not_works hw] at hr ⊢
    obtain ⟨he, hrest⟩ := ih hr
    refine ⟨he, fun j hj => ?_⟩
    rcases List.mem_cons.mp hj with rfl | hj
    · exact hw
    · exact hrest j hj

theorem passAll_of_idle (h : ∀ i ∈ is, d.works clock i = false) :
    d.passAll clock io is = (d, false) := by
  induction is with
  | nil => rfl
  | cons i is ih =>
    unfold Tapedev.passAll
    dsimp only
    rw [pass_of_not_works (h i List.mem_cons_self),
      ih fun j hj => h j (List.mem_cons_of_mem _ hj), h i List.mem_cons_self]
    rfl

theorem works_busy (h : d.works clock i = true) : (d.aades i).aadg.busy = true :=
  (Bool.and_eq_true_iff.mp h).1

theorem works_fast (h : d.fastMode = true) (clock i : Nat) :
    d.works clock i = (d.aades i).aadg.busy := by
  unfold Tapedev.works
  rw [h, Bool.true_or, Bool.and_true]

/-- A step of a section is work done. -/
theorem pass_work (io : Nat → Io) (hi : i < d.aadesNo) (hw : d.works clock i = true) :
    (d.pass clock io i).work < d.work := by
  unfold Tapedev.work
  rw [pass_aadesNo, pass_aades, if_pos hw]
  have hlt := Aacc.work_aabf (works_busy hw) d.mem (io i)
  refine List.sum_lt_sum _ _ (fun j _ => ?_) ⟨i, List.mem_range.mpr hi, ?_⟩
  · by_cases hji : j = i
    · subst hji
      rw [Function.update_self]
      exact hlt.le
    · rw [Function.update_of_ne hji]
  · rw [Function.update_self]
    exact hlt

theorem passAll_work (clock : Nat) (io : Nat → Io) (his : ∀ i ∈ is, i < d.aadesNo) :
    (d.passAll clock io is).1.work ≤ d.work ∧
      ((d.passAll clock io is).2 = true → (d.passAll clock io is).1.work < d.work) := by
  induction is generalizing d with
  | nil => exact ⟨le_refl _, fun h => by cases h⟩
  | cons i is ih =>
    unfold Tapedev.passAll
    dsimp only
    have hrest := ih (d := d.pass clock io i) fun j hj => by
      rw [pass_aadesNo]
      exact his j (List.mem_cons_of_mem _ hj)
    cases hw : d.works clock i with
    | true =>
      have hlt := pass_work io (his i List.mem_cons_self) hw
      exact ⟨hrest.1.trans hlt.le, fun _ => lt_of_le_of_lt hrest.1 hlt⟩
    | false =>
      rw [pass_of_not_works hw] at hrest ⊢
      rwa [Bool.false_or]

/-- While the device is enabled a call of `aabf` is the loop over its sections. -/
theorem aabf_enabled (h : d.aadg = 2) : d.aabf clock io = d.passAll clock io (List.range d.aadesNo) := by
  unfold Tapedev.aabf
  rw [if_neg (by omega), aaca_of_ne (by omega) (by omega)]
  rfl

/-- **The loop ends.** -/
theorem fastLoop_ends {n : Nat} {ios : Nat → Nat → Io} (hen : d.aadg = 2) (hn : d.work < n) :
    (fastLoop clock n ios d).2 = true := by
  induction n generalizing ios d with
  | zero => exact absurd hn (Nat.not_lt_zero _)
  | succ n ih =>
    unfold fastLoop
    dsimp only
    rw [aabf_enabled hen]
    split
    · next hr =>
      have hlt := (passAll_work clock (ios 0) fun i hi => List.mem_range.mp hi).2 hr
      exact ih ((passAll_frame d clock _ _).1.trans hen) (by omega)
    · rfl

/-- What every step of a section keeps, the loop keeps. -/
theorem fastLoop_induction {P : Tapedev β → Prop} (hp : P d) (hen : d.aadg = 2)
    (hpass : ∀ d' io i, i < d.aadesNo → P d' → d'.works clock i = true → P (d'.pass clock io i))
    (n : Nat) (ios : Nat → Nat → Io) : P (fastLoop clock n ios d).1 := by
  induction n generalizing ios d with
  | zero => exact hp
  | succ n ih =>
    have hround : P (d.passAll clock (ios 0) (List.range d.aadesNo)).1 :=
      passAll_induction hp fun d' i hi => hpass d' (ios 0) i (List.mem_range.mp hi)
    obtain ⟨hg, hno, -⟩ := passAll_frame d clock (ios 0) (List.range d.aadesNo)
    unfold fastLoop
    dsimp only
    rw [aabf_enabled hen]
    split
    · exact ih hround (hg.trans hen) (by rwa [hno]) _
    · exact hround

theorem fastLoop_frame (hen : d.aadg = 2) (n : Nat) (ios : Nat → Nat → Io) :
    (fastLoop clock n ios d).1.aadg = 2 ∧ (fastLoop clock n ios d).1.aadesNo = d.aadesNo ∧
      (fastLoop clock n ios d).1.fastMode = d.fastMode := by
  refine fastLoop_induction (P := fun d' => d'.aadg = 2 ∧ d'.aadesNo = d.aadesNo ∧
    d'.fastMode = d.fastMode) ⟨hen, rfl, rfl⟩ hen (fun d' io i _ h _ => ?_) n ios
  rwa [pass_aadg, pass_aadesNo, pass_fastMode]

/-- When the loop has ended, no section of a device in the fast mode is busy. -/
theorem fastLoop_calm {n : Nat} {ios : Nat → Nat → Io} (hen : d.aadg = 2) (hf : d.fastMode = true)
    (h : (fastLoop clock n ios d).2 = true) (hi : i < d.aadesNo) :
    ((fastLoop clock n ios d).1.aades i).aadg.busy = false := by
  induction n generalizing ios d with
  | zero => cases h
  | succ n ih =>
    unfold fastLoop at h ⊢
    dsimp only at h ⊢
    rw [aabf_enabled hen] at h ⊢
    obtain ⟨hg, hno, hfm⟩ := passAll_frame d clock (ios 0) (List.range d.aadesNo)
    split at h
    · next hr =>
      rw [if_pos hr]
      exact ih (hg.trans hen) (hfm.trans hf) h (by rwa [hno])
    · next hr =>
      rw [if_neg hr]
      obtain ⟨he, hidle⟩ := passAll_idle (Bool.not_eq_true _ ▸ hr)
      rw [he, ← works_fast hf clock]
      exact hidle i (List.mem_range.mpr hi)

end

/-! ## Between two calls -/

section
variable {d : Tapedev β} {clock i w rand : Nat}

/-- No section is busy between two calls of a device in the fast mode. -/
def Tapedev.Calm (d : Tapedev β) : Prop :=
  d.fastMode = true → ∀ i, i < d.aadesNo → (d.aades i).aadg.busy = false

theorem start_frame (d : Tapedev β) (i w clock rand : Nat) :
    (d.start i w clock rand).aadg = d.aadg ∧ (d.start i w clock rand).aadesNo = d.aadesNo := by
  by_cases hi : (d.aades i).aadg = .idle
  · rw [start_toPCIint hi, answer_aadg, answer_aadesNo]
    exact ⟨rfl, rfl⟩
  · unfold Tapedev.start
    dsimp only
    rw [if_neg hi]
    exact ⟨rfl, rfl⟩

theorem Tapedev.Calm.setSection (h : d.Calm) {s : Aacc β} (hs : s.aadg.busy = (d.aades i).aadg.busy)
    : (d.setSection i s).Calm := by
  intro hf j hj
  show (Function.update d.aades i s j).aadg.busy = false
  by_cases hji : j = i
  · subst hji
    rw [Function.update_self, hs]
    exact h hf j hj
  · rw [Function.update_of_ne hji]
    exact h hf j hj

theorem Tapedev.Calm.aabm (h : d.Calm) (hen : d.aadg = 2) (ios : Nat → Nat → Io) :
    (d.aabm i w clock rand ios).Calm := by
  unfold Tapedev.aabm
  dsimp only
  obtain ⟨hg, hno⟩ := start_frame d i w clock rand
  split
  · next hloop =>
    intro _ j hj
    have hen' := hg.trans hen
    rw [(fastLoop_frame hen' _ _).2.1] at hj
    exact fastLoop_calm hen' (start_fastMode.trans hloop.1)
      (fastLoop_ends hen' (Nat.lt_succ_self _)) hj
  · next hloop =>
    intro hf
    rw [start_fastMode] at hf
    have hidle : (d.aades i).aadg ≠ .idle := fun he => hloop ⟨hf, he, by omega⟩
    unfold Tapedev.start
    dsimp only
    rw [if_neg hidle]
    exact h hf

theorem Tapedev.Calm.aaca (h : d.Calm) : (aaca d).1.Calm := by
  obtain ⟨hno, -, hfm, -⟩ := aaca_frame d
  intro hf i hi
  rw [hfm] at hf
  rw [hno] at hi
  by_cases hd : d.aadg = 1 ∨ d.aadg = 3
  · rcases aaca_section hd hi with he | ⟨-, he⟩ | ⟨-, he⟩
    · rw [he]
      exact h hf i hi
    · rw [he]
      rfl
    · rw [he]
      rfl
  · obtain ⟨h1, h3⟩ := not_or.mp hd
    rw [aaca_of_ne h1 h3]
    exact h hf i hi

theorem Tapedev.Calm.aabf (h : d.Calm) (io : Nat → Io) : (d.aabf clock io).1.Calm := by
  unfold Tapedev.aabf
  split
  · exact h
  · dsimp only
    split
    · exact h.aaca
    · intro hf
      have hfm := (passAll_frame (Tape.aaca d).1 clock io (List.range (Tape.aaca d).1.aadesNo)).2.2
      have hcalm := h.aaca (hfm.symm.trans hf)
      rw [passAll_of_idle fun i hi => ?_]
      · exact hcalm
      · rw [works_fast (hfm.symm.trans hf)]
        exact hcalm i (List.mem_range.mp hi)

theorem Tapedev.Calm.next (h : d.Calm) (c : Call β) : (d.next c).Calm := by
  cases c with
  | write aabu val size clock rand io =>
    show (aabk d aabu val size clock rand io).Calm
    unfold aabk
    split
    · exact h
    · split
      · unfold aabh
        split
        · split
          · exact h
          · split <;> exact h
        · exact h
        · exact h
        · intro hf i hi
          show ((clearIrq d.toPCIint _).aades i).aadg.busy = false
          unfold clearIrq
          dsimp only
          split <;> exact h hf i (by simpa [clearIrq, apply_ite PCIint.aadesNo] using hi)
        · exact h
      · split
        · exact h
        · split
          · exact h
          · unfold Tapedev.aabi
            split
            · exact h
            · next hen =>
              have hen := not_not.mp hen
              split
              · exact h.aabm hen io
              · exact h
              · refine h.setSection ?_
                unfold aabiPgtable
                split <;> rfl
              · split
                · exact h.setSection rfl
                · exact h
              · exact h
  | timer clock io => exact h.aabf io
  | reset =>
    intro _ i hi
    show (if i < d.aadesNo then (d.aades i).reset else d.aades i).aadg.busy = false
    rw [if_pos (by exact hi)]
    rfl
  | cpu mem => exact h

theorem tapedev_calm (h : (tapedev β).Reach d) : d.Calm := by
  refine Lts.invariant (fun d hd => ?_) (fun d c d' _ hp hs => ?_) h
  · obtain ⟨p, x, hr⟩ := hd
    rw [(tapedevRealize_ok hr).1]
    exact fun _ _ _ => rfl
  · cases hs
    exact hp.next c

end

/-! ## The answer to a command -/

/-- The bit of the interrupt for the status of a section. -/
def Tapedev.statusBit (d : Tapedev β) (i : Nat) : BitVec 32 :=
  irqBit (if (d.aades i).aadf.isErr then .error else .done) i

/-- The guest can see the end of the command of section `i`. -/
structure Tapedev.Told (d : Tapedev β) (i : Nat) : Prop where
  status : (d.aades i).aadf = .done ∨ (d.aades i).aadf.isErr = true
  shown : d.written i = none
  irq : d.statusBit i &&& d.irqAadf = d.statusBit i

/-- Section `i` is busy, or the guest has been told; the others have not moved. -/
structure Tapedev.Serves (d₀ : Tapedev β) (i : Nat) (d : Tapedev β) : Prop where
  others : ∀ j, j < d₀.aadesNo → j ≠ i → d.aades j = d₀.aades j
  shown : d.written i = none
  told : (d.aades i).aadg.busy = true ∨ d.Told i

section
variable {d d₀ : Tapedev β} {clock i w rand : Nat}

theorem answer_told {e : PCIint β} {a : Answer β} {q : Irq} (hq : a.2 = some q) (ha : Answered a)
    (hd : d.toPCIint = e.answer i a) : d.statusBit i &&& d.irqAadf = d.statusBit i := by
  have hbit : d.statusBit i = irqBits a.2 i := by
    unfold Tapedev.statusBit
    rw [hd, answer_aades, Function.update_self, ← ha q hq, hq]
    rfl
  rw [hbit, hd, answer_irqAadf]
  ext k hk
  simp only [BitVec.getElem_and, BitVec.getElem_or]
  cases (irqBits a.2 i)[k] <;> simp

theorem pass_written (hw : d.works clock i = true) (h : d.written i = none) (io : Nat → Io) :
    (d.pass clock io i).written i = none := by
  unfold Tapedev.pass
  rw [if_pos hw]
  dsimp only
  split
  · exact Function.update_self ..
  · exact h

theorem Tapedev.Serves.pass (h : d₀.Serves i d) {j : Nat} (hcalm : ∀ j, j < d₀.aadesNo → j ≠ i →
    (d₀.aades j).aadg.busy = false) (hj : j < d₀.aadesNo) (hw : d.works clock j = true)
    (io : Nat → Io) : d₀.Serves i (d.pass clock io j) := by
  by_cases hji : j = i
  · subst hji
    have hrun := aabf_cases (works_busy hw) d.mem (io j)
    have hother : ∀ k, k < d₀.aadesNo → k ≠ j → (d.pass clock io j).aades k = d₀.aades k := by
      intro k hk hkj
      rw [pass_aades, if_pos hw, Function.update_of_ne hkj]
      exact h.others k hk hkj
    have hshown := pass_written hw h.shown io
    refine ⟨hother, hshown, ?_⟩
    rcases hrun with ⟨-, hgo⟩ | hfin
    · left
      rw [pass_aades, if_pos hw, Function.update_self, hgo.aadg]
      exact works_busy hw
    · right
      obtain ⟨-, hst, q, hq⟩ := hfin.resting
      refine ⟨?_, hshown, answer_told hq ?_ (pass_toPCIint hw)⟩
      · rw [pass_aades, if_pos hw, Function.update_self]
        exact hst
      · obtain ⟨s', g, st, he, -⟩ := hfin
        rw [he]
        exact answered_aabc s' g st
  · -- the others have nothing to do
    have hbusy := works_busy hw
    rw [h.others j hj hji, hcalm j hj hji] at hbusy
    cases hbusy

theorem start_written (hidle : (d.aades i).aadg = .idle) :
    (d.start i w clock rand).written i = none := by
  unfold Tapedev.start
  dsimp only
  rw [if_pos hidle]
  split <;> exact Function.update_self ..

theorem start_aades (hidle : (d.aades i).aadg = .idle) :
    (d.start i w clock rand).aades = Function.update d.aades i (Tape.aabm d.aadg (d.aades i) w).1 := by
  rw [start_toPCIint hidle, answer_aades]

theorem start_serves (hen : d.aadg = 2) (hidle : (d.aades i).aadg = .idle) :
    d.Serves i (d.start i w clock rand) := by
  have hpci : (d.start i w clock rand).toPCIint = _ := start_toPCIint hidle
  refine ⟨fun j _ hji => ?_, start_written hidle, ?_⟩
  · rw [start_aades hidle, Function.update_of_ne hji]
  · rw [hen] at hpci
    have hs : (d.start i w clock rand).aades i = (Tape.aabm 2 (d.aades i) w).1 := by
      rw [start_aades hidle, Function.update_self, hen]
    rcases aabm_cases hidle w with ⟨s', g, he, hex, -⟩ | ⟨st, he, herr, -⟩
    · left
      rw [hs, he]
      exact hex.busy
    · right
      refine ⟨?_, start_written hidle, answer_told (q := .error) ?_ (answered_aabm _ _) hpci⟩
      · rw [hs, he]
        exact .inr herr
      · rw [he]
        unfold Tape.aabc
        rw [herr]
        rfl

/-- A write to the CMD register of a section. -/
theorem aabk_cmd (h8 : d.aadesNo ≤ 8) (hen : d.aadg = 2) (hi : i < d.aadesNo)
    (ios : Nat → Nat → Io) :
    aabk d (0x100 * (i + 1)) w 4 clock rand ios = d.aabm i w clock rand ios := by
  have hsec : sectionOf (0x100 * (i + 1)) = i ∧ 0x100 * (i + 1) &&& 0xff = 0 := by
    have hi8 : i < 8 := by omega
    interval_cases i <;> decide
  unfold aabk
  rw [if_neg (not_not.mpr rfl), if_neg (by omega), if_neg (by omega), hsec.1, hsec.2,
    if_neg (by omega)]
  unfold Tapedev.aabi
  rw [if_neg (not_not.mpr hen)]
  rfl

end

/-- **A command is answered at once.** In the fast mode, when a write of the CMD register of an
idle section returns, the command is over, whatever it was and whatever the host has answered:
the guest reads its status, which is DONE or an error, the interrupt for that status is pending,
and no other section has moved. -/
theorem fast_command_completes {d : Tapedev β} (h : (tapedev β).Reach d) (hf : d.fastMode = true)
    (hen : d.aadg = 2) {i : Nat} (hi : i < d.aadesNo) (hidle : (d.aades i).aadg = .idle)
    (w clock rand : Nat) (ios : Nat → Nat → Io) :
    let d' := d.next (.write (0x100 * (i + 1)) w 4 clock rand ios)
    d'.statusReg i = (d'.aades i).aadf.code ∧
      ((d'.aades i).aadf = .done ∨ (d'.aades i).aadf.isErr = true) ∧
      d'.statusBit i &&& d'.irqAadf = d'.statusBit i ∧
      ∀ j, j < d.aadesNo → j ≠ i → d'.aades j = d.aades j := by
  have hcalm := tapedev_calm h
  have h8 := (tapedev_realized h).few
  obtain ⟨hg, hno⟩ := start_frame d i w clock rand
  have hloop : d.next (.write (0x100 * (i + 1)) w 4 clock rand ios) =
      (fastLoop clock ((d.start i w clock rand).work + 1) ios (d.start i w clock rand)).1 := by
    show aabk d _ w 4 clock rand ios = _
    rw [aabk_cmd h8 hen hi]
    unfold Tapedev.aabm
    dsimp only
    rw [if_pos ⟨hf, hidle, by omega⟩]
  have hserves : d.Serves i (d.next (.write (0x100 * (i + 1)) w 4 clock rand ios)) := by
    rw [hloop]
    refine fastLoop_induction (start_serves hen hidle) (hg.trans hen) (fun d' io j hj hs hw => ?_) _ _
    exact hs.pass (fun k hk _ => hcalm hf k hk) (hno ▸ hj) hw io
  have hrest : ((d.next (.write (0x100 * (i + 1)) w 4 clock rand ios)).aades i).aadg.busy = false := by
    rw [hloop]
    exact fastLoop_calm (hg.trans hen) (start_fastMode.trans hf)
      (fastLoop_ends (hg.trans hen) (Nat.lt_succ_self _)) (hno ▸ hi)
  generalize d.next (.write (0x100 * (i + 1)) w 4 clock rand ios) = d' at hserves hrest
  have htold : d'.Told i := hserves.told.resolve_left (by rw [hrest]; exact Bool.false_ne_true)
  refine ⟨?_, htold.status, htold.irq, hserves.others⟩
  unfold Tapedev.statusReg
  rw [htold.shown]
  rfl

/-- A tape is taken. -/
theorem fast_command_completes_take :
    let d := (smallEnabled true).next (.write 0x100 0x100 4 0 0 fun _ _ => plainIo)
    d.statusReg 0 = (d.aades 0).aadf.code ∧
      ((d.aades 0).aadf = .done ∨ (d.aades 0).aadf.isErr = true) := by
  obtain ⟨hreg, hst, -⟩ := fast_command_completes (smallEnabled_reach true) rfl rfl
    (Nat.lt_succ_self 0) rfl 0x100 0 0 fun _ _ => plainIo
  exact ⟨hreg, hst⟩

/-! ## The same without the fast mode -/

/-- Two devices that differ at most in when they go on. -/
def Tapedev.Alike (d e : Tapedev β) : Prop := e = { d with fastMode := e.fastMode, aaah := e.aaah }

/-- A device in the fast mode, and one that waits for the timer. The delay of a command is an
absolute time below 100 ms. -/
structure Tapedev.Paced (d e : Tapedev β) : Prop where
  fast : d.fastMode = true
  slow : e.fastMode = false
  delay : ∀ i, e.aaah i < 100
  alike : d.Alike e

/-- The same call at another time. -/
def Call.at (clock : Nat) : Call β → Call β
  | .write aabu val size _ rand io => .write aabu val size clock rand io
  | .timer _ io => .timer clock io
  | .reset => .reset
  | .cpu mem => .cpu mem

/-- Calls of the timer. -/
def Ticks (cs : List (Call β)) : Prop := ∀ c ∈ cs, ∃ clock io, c = .timer clock io

/-- The calls `cs`, in their order, each at some time, with calls of the timer between them. -/
inductive Slowed : List (Call β) → List (Call β) → Prop
  | nil : Slowed [] []
  | call (c : Call β) (clock : Nat) {cs cs' ticks : List (Call β)} : Ticks ticks →
      Slowed cs cs' → Slowed (c :: cs) (c.at clock :: (ticks ++ cs'))

section
variable {d e : Tapedev β} {clock clock' i w rand : Nat} {io : Nat → Io}

theorem Tapedev.Alike.aabl (h : d.Alike e) (aabu size : Nat) : aabl e aabu size = aabl d aabu size := by
  rw [h]
  rfl

theorem delay_early (h : e.fastMode = false) (hd : ∀ i, e.aaah i < 100) {time : Nat} (ht : 0 < time)
    (ht' : time ≤ 100) (j : Nat) : (e.delay i clock time rand).aaah j < 100 := by
  show Function.update e.aaah i _ j < 100
  by_cases hji : j = i
  · subst hji
    rw [Function.update_self, h, if_neg Bool.false_ne_true, if_neg (by omega)]
    have := Nat.mod_lt rand ht
    omega
  · rw [Function.update_of_ne hji]
    exact hd j

theorem pass_early (h : e.fastMode = false) (hd : ∀ i, e.aaah i < 100) (j : Nat) :
    (e.pass clock io i).aaah j < 100 := by
  unfold Tapedev.pass
  split
  · dsimp only
    split
    · exact hd j
    · exact delay_early h hd Nat.one_pos (by decide) j
  · exact hd j

theorem start_early (h : e.fastMode = false) (hd : ∀ i, e.aaah i < 100) (j : Nat) :
    (e.start i w clock rand).aaah j < 100 := by
  unfold Tapedev.start
  dsimp only
  split
  · split
    · exact hd j
    · split
      · exact delay_early h hd Nat.one_pos (by decide) j
      · exact delay_early h hd (by decide) (le_refl _) j
  · exact hd j

theorem Tapedev.Paced.works (h : d.Paced e) (hc : 100 ≤ clock') (clock i : Nat) :
    e.works clock' i = d.works clock i := by
  have hlt := h.delay i
  have hle : e.aaah i ≤ clock' := by omega
  have hsame : (e.aades i).aadg = (d.aades i).aadg := by rw [h.alike]
  rw [works_fast h.fast, ← hsame]
  unfold Tapedev.works
  rw [h.slow, decide_eq_true hle, Bool.or_true, Bool.and_true]

theorem Tapedev.Paced.pass (h : d.Paced e) (hc : 100 ≤ clock') (clock : Nat) (io : Nat → Io) (i : Nat) :
    (d.pass clock io i).Paced (e.pass clock' io i) := by
  have hw := h.works hc clock i
  refine ⟨pass_fastMode.trans h.fast, pass_fastMode.trans h.slow, pass_early h.slow h.delay, ?_⟩
  unfold Tapedev.pass
  rw [hw]
  split
  · rw [h.alike]
    dsimp only
    split <;> rfl
  · exact h.alike

theorem Tapedev.Paced.passAll (h : d.Paced e) (hc : 100 ≤ clock') (is : List Nat) :
    (d.passAll clock io is).1.Paced (e.passAll clock' io is).1 ∧
      (e.passAll clock' io is).2 = (d.passAll clock io is).2 := by
  induction is generalizing d e with
  | nil => exact ⟨h, rfl⟩
  | cons i is ih =>
    obtain ⟨hp, hr⟩ := ih (h.pass hc clock io i)
    refine ⟨hp, ?_⟩
    unfold Tapedev.passAll
    dsimp only
    rw [hr, h.works hc clock]

theorem Tapedev.Paced.aaca (h : d.Paced e) :
    (aaca d).1.Paced (aaca e).1 ∧ (aaca e).2 = (aaca d).2 := by
  have hd := (aaca_frame d).2.2.1.trans h.fast
  have he : Tape.aaca e =
      ({ (Tape.aaca d).1 with fastMode := e.fastMode, aaah := e.aaah }, (Tape.aaca d).2) := by
    rw [h.alike]
    unfold Tape.aaca
    dsimp only
    split
    · rfl
    · split
      · split <;> rfl
      · rfl
  rw [he]
  exact ⟨⟨hd, h.slow, h.delay, rfl⟩, rfl⟩

theorem Tapedev.Paced.aabf (h : d.Paced e) (hc : 100 ≤ clock') (clock : Nat) (io : Nat → Io) :
    (d.aabf clock io).1.Paced (e.aabf clock' io).1 ∧ (e.aabf clock' io).2 = (d.aabf clock io).2 := by
  have hg : e.aadg = d.aadg := by rw [h.alike]
  obtain ⟨haca, hres⟩ := h.aaca
  have hno : (Tape.aaca e).1.aadesNo = (Tape.aaca d).1.aadesNo := by rw [haca.alike]
  unfold Tapedev.aabf
  rw [hg]
  split
  · exact ⟨h, rfl⟩
  · dsimp only
    rw [hres]
    split
    · exact ⟨haca, hres⟩
    · rw [hno]
      exact haca.passAll hc _

theorem Tapedev.Paced.start (h : d.Paced e) :
    (d.start i w clock rand).Paced (e.start i w clock' rand) := by
  refine ⟨start_fastMode.trans h.fast, start_fastMode.trans h.slow, start_early h.slow h.delay, ?_⟩
  unfold Tapedev.start
  rw [h.alike]
  dsimp only
  split
  · split <;> rfl
  · rfl

/-- The loop of the fast mode, one call of the timer for each round. -/
theorem Tapedev.Paced.fastLoop (h : d.Paced e) (n : Nat) (ios : Nat → Nat → Io) :
    ∃ ticks, Ticks ticks ∧ (fastLoop clock n ios d).1.Paced (ticks.foldl Tapedev.next e) := by
  induction n generalizing d e ios with
  | zero => exact ⟨[], fun _ hc => absurd hc List.not_mem_nil, h⟩
  | succ n ih =>
    have hround := h.aabf (le_refl 100) clock (ios 0)
    unfold Tape.fastLoop
    dsimp only
    split
    · obtain ⟨ticks, ht, hp⟩ := ih hround.1 fun k => ios (k + 1)
      refine ⟨.timer 100 (ios 0) :: ticks, fun c hc => ?_, hp⟩
      rcases List.mem_cons.mp hc with rfl | hc
      · exact ⟨_, _, rfl⟩
      · exact ht c hc
    · refine ⟨[.timer 100 (ios 0)], fun c hc => ?_, hround.1⟩
      rw [List.mem_singleton.mp hc]
      exact ⟨_, _, rfl⟩

theorem ticks_nil : Ticks ([] : List (Call β)) := fun _ hc => absurd hc List.not_mem_nil

theorem Tapedev.Paced.aabm (h : d.Paced e) (ios : Nat → Nat → Io) :
    ∃ ticks, Ticks ticks ∧ (d.aabm i w clock rand ios).Paced
      (ticks.foldl Tapedev.next (e.aabm i w clock' rand ios)) := by
  have he : e.aabm i w clock' rand ios = e.start i w clock' rand := by
    unfold Tapedev.aabm
    dsimp only
    rw [if_neg]
    rintro ⟨hf, -⟩
    rw [h.slow] at hf
    cases hf
  rw [he]
  unfold Tapedev.aabm
  dsimp only
  split
  · exact h.start.fastLoop _ ios
  · exact ⟨[], ticks_nil, h.start⟩

/-- A change that has nothing to do with the pace. -/
theorem Tapedev.Paced.frame (h : d.Paced e) {f : Tapedev β → Tapedev β}
    (hf : ∀ (d : Tapedev β) m a, f { d with fastMode := m, aaah := a } =
      { f d with fastMode := m, aaah := a }) : (f d).Paced (f e) := by
  have he : f e = { f d with fastMode := e.fastMode, aaah := e.aaah } := by
    have hfd := hf d e.fastMode e.aaah
    rwa [← h.alike] at hfd
  rw [he]
  exact ⟨(congrArg Tapedev.fastMode (hf d d.fastMode d.aaah)).trans h.fast, h.slow, h.delay, rfl⟩

theorem Tapedev.Paced.aabh (h : d.Paced e) (aabu val : Nat) : (aabh d aabu val).Paced (aabh e aabu val) := by
  refine h.frame (f := fun d => Tape.aabh d aabu val) fun d m a => ?_
  unfold Tape.aabh
  split
  · dsimp only
    split
    · rfl
    · split <;> rfl
  · rfl
  · rfl
  · rfl
  · rfl

theorem Tapedev.Paced.aabi (h : d.Paced e) (addr val : Nat) (ios : Nat → Nat → Io) :
    ∃ ticks, Ticks ticks ∧ (d.aabi i addr val clock rand ios).Paced
      (ticks.foldl Tapedev.next (e.aabi i addr val clock' rand ios)) := by
  have hg : e.aadg = d.aadg := by rw [h.alike]
  have hs : e.aades = d.aades := by rw [h.alike]
  unfold Tapedev.aabi
  rw [hg, hs]
  split
  · exact ⟨[], ticks_nil, h⟩
  · split
    · exact h.aabm ios
    · exact ⟨[], ticks_nil, h.frame (f := fun d =>
        { d with written := Function.update d.written i (some val) }) fun _ _ _ => rfl⟩
    · exact ⟨[], ticks_nil, h.frame (f := fun e =>
        e.setSection i (aabiPgtable d.aadg (d.aades i) val)) fun _ _ _ => rfl⟩
    · split
      · exact ⟨[], ticks_nil, h.frame (f := fun e =>
          e.setSection i { d.aades i with aaac := val }) fun _ _ _ => rfl⟩
      · exact ⟨[], ticks_nil, h⟩
    · exact ⟨[], ticks_nil, h⟩

theorem Tapedev.Paced.reset (h : d.Paced e) : (tapedevReset d).Paced (tapedevReset e) := by
  refine ⟨h.fast, h.slow, fun i => ?_, ?_⟩
  · show (if i < e.aadesNo then (0 : Int) else e.aaah i) < 100
    split
    · decide
    · exact h.delay i
  · have halike := h.alike
    unfold Tapedev.Alike at halike ⊢
    rw [halike]
    rfl

/-- A call of the one device is a call of the other, followed by some of the timer. -/
theorem Tapedev.Paced.next (h : d.Paced e) (c : Call β) :
    ∃ ticks, Ticks ticks ∧ (d.next c).Paced (ticks.foldl Tapedev.next (e.next (c.at 100))) := by
  cases c with
  | write aabu val size clock rand io =>
    have hg : e.aadg = d.aadg := by rw [h.alike]
    have hno : e.aadesNo = d.aadesNo := by rw [h.alike]
    show ∃ ticks, Ticks ticks ∧ (aabk d aabu val size clock rand io).Paced
      (ticks.foldl Tapedev.next (aabk e aabu val size 100 rand io))
    unfold aabk
    rw [hg, hno]
    split
    · exact ⟨[], ticks_nil, h⟩
    · split
      · exact ⟨[], ticks_nil, h.aabh aabu val⟩
      · split
        · exact ⟨[], ticks_nil, h⟩
        · split
          · exact ⟨[], ticks_nil, h⟩
          · exact h.aabi _ _ io
  | timer clock io => exact ⟨[], ticks_nil, (h.aabf (le_refl 100) clock io).1⟩
  | reset => exact ⟨[], ticks_nil, h.reset⟩
  | cpu mem => exact ⟨[], ticks_nil, h.frame (f := fun d => { d with mem := mem }) fun _ _ _ => rfl⟩

theorem Tapedev.Paced.run (h : d.Paced e) (cs : List (Call β)) :
    ∃ cs', Slowed cs cs' ∧ (cs.foldl Tapedev.next d).Paced (cs'.foldl Tapedev.next e) := by
  induction cs generalizing d e with
  | nil => exact ⟨[], .nil, h⟩
  | cons c cs ih =>
    obtain ⟨ticks, ht, hp⟩ := h.next c
    obtain ⟨cs', hs, hrun⟩ := ih hp
    refine ⟨c.at 100 :: (ticks ++ cs'), .call c 100 ht hs, ?_⟩
    rw [List.foldl_cons, List.foldl_cons, List.foldl_append]
    exact hrun

end

/-- **The fast mode does what the timer would have done.** After any calls, a device that has
been created with `fast_mode` is in the state the same device without it reaches by the same
calls, in the same order, and further calls of the timer: only the times at which it
goes on differ, and every register reads the same. -/
theorem fast_mode_agrees {p : Props} {x : Setup β} {d e : Tapedev β} (hf : p.fastMode = true)
    (hd : tapedevRealize p x = .ok d)
    (he : tapedevRealize { p with fastMode := false } x = .ok e) (cs : List (Call β)) :
    ∃ cs', Slowed cs cs' ∧ (cs.foldl Tapedev.next d).Alike (cs'.foldl Tapedev.next e) ∧
      ∀ aabu size, aabl (cs'.foldl Tapedev.next e) aabu size =
        aabl (cs.foldl Tapedev.next d) aabu size := by
  have hpaced : d.Paced e := by
    rw [(tapedevRealize_ok hd).1, (tapedevRealize_ok he).1]
    exact ⟨hf, rfl, fun _ => (by decide : (0 : Int) < 100), rfl⟩
  obtain ⟨cs', hs, hp⟩ := hpaced.run cs
  exact ⟨cs', hs, hp.alike, hp.alike.aabl⟩

/-- The small device is enabled, and a block is written to a tape. -/
theorem fast_mode_agrees_small :
    ((smallSession.foldl Tapedev.next (smallDevice true)).aades 0).aadb 0 = 7 ∧ ∃ cs',
      Slowed smallSession cs' ∧
      (smallSession.foldl Tapedev.next (smallDevice true)).Alike
        (cs'.foldl Tapedev.next (smallDevice false)) ∧
      ∀ aabu size, aabl (cs'.foldl Tapedev.next (smallDevice false)) aabu size =
        aabl (smallSession.foldl Tapedev.next (smallDevice true)) aabu size :=
  ⟨by decide +kernel, fast_mode_agrees (p := smallProps true) rfl (smallDevice_realized true)
    (smallDevice_realized false) smallSession⟩

end Zso.Tape

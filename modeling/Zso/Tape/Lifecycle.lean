import Zso.Tape.FastMode
import Zso.Tape.SharedLine

/-!
# Switching the device on and off

* `guest_visible`: what the registers can show, whatever the guest has done.
* `init_done_iff`: the writes of `tapedev_probe` make the device raise INIT_DONE only if it is off,
  or has been switched on already and has not come up.
* `stop_completes`: a device that has been switched off gets there, whatever the guest does, and
  starts no command on the way.
-/

namespace Zso.Tape
open Bits Transition

variable {β : Type}

/-! ## What the registers can show -/

/-- The statuses the device knows. ERR_RESET and ERR_WRITE_PAST_END are in its header only. -/
def SectStatus.Used (st : SectStatus) : Prop := st ≠ .errReset ∧ st ≠ .errWritePastEnd

instance (st : SectStatus) : Decidable st.Used :=
  inferInstanceAs (Decidable (st ≠ .errReset ∧ st ≠ .errWritePastEnd))

/-- A section of a device that is on. -/
def Aacc.Active (s : Aacc β) : Prop := s.aadf.Used ∧ s.aadg ≠ .disabled

/-- The bits of the IRQ status that a device with `n` sections uses. -/
def UsedBits (n : Nat) (w : BitVec 32) : Prop :=
  ∀ k, w.getLsbD k = true → k = INIT_DONE ∨ (∃ i < n, k = 16 + i) ∨ ∃ i < n, k = 24 + i

structure Tapedev.Visible (d : Tapedev β) : Prop where
  aadg : d.aadg ≤ 3
  irq : UsedBits d.aadesNo d.irqAadf
  status : ∀ i, i < d.aadesNo → (d.aades i).aadf.Used
  /-- a section is disabled only while the device is off -/
  enabled : 2 ≤ d.aadg → ∀ i, i < d.aadesNo → (d.aades i).aadg ≠ .disabled

section
variable {s : Aacc β} {n : Nat} {w v : BitVec 32}

theorem UsedBits.or (hw : UsedBits n w) (hv : UsedBits n v) : UsedBits n (w ||| v) := by
  intro k hk
  rw [BitVec.getLsbD_or, Bool.or_eq_true] at hk
  exact hk.elim (hw k) (hv k)

theorem UsedBits.and (hw : UsedBits n w) (v : BitVec 32) : UsedBits n (w &&& v) := by
  intro k hk
  rw [BitVec.getLsbD_and, Bool.and_eq_true] at hk
  exact hw k hk.1

theorem UsedBits.zero (n : Nat) : UsedBits n 0 := fun k hk => by simp at hk

theorem shiftLeft_bit {b k : Nat} (h : (1#32 <<< b).getLsbD k = true) : k = b := by
  simp only [BitVec.getLsbD_shiftLeft, BitVec.getLsbD_one, Bool.and_eq_true, decide_eq_true_eq,
    Bool.not_eq_true', decide_eq_false_iff_not] at h
  omega

theorem UsedBits.initDone (n : Nat) : UsedBits n irqInitDone := fun _ hk => .inl (shiftLeft_bit hk)

theorem UsedBits.answer {i : Nat} (hi : i < n) (o : Option Irq) : UsedBits n (irqBits o i) := by
  intro k hk
  cases o with
  | none => simp [irqBits] at hk
  | some q =>
    cases q with
    | done => exact .inr (.inl ⟨i, hi, shiftLeft_bit hk⟩)
    | error => exact .inr (.inr ⟨i, hi, shiftLeft_bit hk⟩)

theorem aabc_active (s : Aacc β) {g : Aadg} {st : SectStatus} (hst : st.Used) (hg : g ≠ .disabled) :
    (aabc s g st).1.Active :=
  ⟨hst, hg⟩

theorem aabd_active (s : Aacc β) {g : Aadg} (hg : g ≠ .disabled) : (aabd s g).1.Active :=
  ⟨(by decide : SectStatus.Used .working), hg⟩

theorem needsTape_active {k : Answer β} (hk : k.1.Active) : (needsTape s k).1.Active := by
  unfold needsTape
  split
  · exact aabc_active s (by decide) (by decide)
  · exact hk

theorem aabm_active (hidle : s.aadg = .idle) (w : Nat) : (aabm 2 s w).1.Active := by
  unfold aabm
  rw [if_neg (not_not.mpr hidle), if_neg (by decide)]
  dsimp only
  split
  · split
    · exact aabc_active s (by decide) (by decide)
    · split
      · exact aabc_active s (by decide) (by decide)
      · exact aabd_active _ (by decide)
  · exact needsTape_active (aabd_active _ (by decide))
  · exact needsTape_active (aabd_active _ (by decide))
  · refine needsTape_active ?_
    split
    · exact aabc_active s (by decide) (by decide)
    · exact aabd_active _ (by decide)
  · exact needsTape_active (aabd_active _ (by decide))
  · exact needsTape_active (aabd_active _ (by decide))
  · exact aabc_active s (by decide) (by decide)

theorem aabf_active (h : s.aadf.Used) (hb : s.aadg.busy = true) (mem : Nat → β) (io : Io) :
    (aabf s mem io).1.1.Active := by
  rcases aabf_cases hb mem io with ⟨hrw, hgo⟩ | ⟨s', g, st, he, hg, hst, -⟩
  · refine ⟨?_, ?_⟩
    · rw [hgo.aadf]
      exact h
    · rw [hgo.aadg]
      rcases hrw with hrw | hrw <;> rw [hrw] <;> decide
  · rw [he]
    refine aabc_active s' ?_ ?_
    · rcases hst with rfl | rfl | rfl | rfl <;> decide
    · rcases hg with rfl | ⟨rfl, -⟩ <;> decide

end

section
variable {d d' : Tapedev β}

/-- A section has an answer. -/
theorem Tapedev.Visible.answer (h : d.Visible) {i : Nat} (hi : i < d.aadesNo) {a : Answer β}
    (ha : a.1.Active) (he : d'.toPCIint = d.toPCIint.answer i a) : d'.Visible := by
  have hno : d'.aadesNo = d.aadesNo := by rw [he, answer_aadesNo]
  have hg : d'.aadg = d.aadg := by rw [he, answer_aadg]
  have hcase : ∀ j, d'.aades j = d.aades j ∨ d'.aades j = a.1 := by
    intro j
    rw [he, answer_aades]
    by_cases hji : j = i
    · subst hji
      exact .inr (Function.update_self ..)
    · exact .inl (Function.update_of_ne hji ..)
  refine ⟨hg ▸ h.aadg, ?_, fun j hj => ?_, fun h2 j hj => ?_⟩
  · rw [hno, he, answer_irqAadf]
    exact h.irq.or (.answer hi _)
  · rcases hcase j with hs | hs
    · rw [hs]
      exact h.status j (hno ▸ hj)
    · rw [hs]
      exact ha.1
  · rcases hcase j with hs | hs
    · rw [hs]
      exact h.enabled (hg ▸ h2) j (hno ▸ hj)
    · rw [hs]
      exact ha.2

/-- A section is changed where the guest cannot see it. -/
theorem Tapedev.Visible.setSection (h : d.Visible) {i : Nat} {s : Aacc β}
    (hf : s.aadf = (d.aades i).aadf) (hg : s.aadg = (d.aades i).aadg) : (d.setSection i s).Visible := by
  have hsame : ∀ j, (Function.update d.aades i s j).aadf = (d.aades j).aadf ∧
      (Function.update d.aades i s j).aadg = (d.aades j).aadg := by
    intro j
    by_cases hji : j = i
    · subst hji
      rw [Function.update_self]
      exact ⟨hf, hg⟩
    · rw [Function.update_of_ne hji]
      exact ⟨rfl, rfl⟩
  refine ⟨h.aadg, h.irq, fun j hj => ?_, fun h2 j hj => ?_⟩
  · show (Function.update d.aades i s j).aadf.Used
    rw [(hsame j).1]
    exact h.status j hj
  · show (Function.update d.aades i s j).aadg ≠ .disabled
    rw [(hsame j).2]
    exact h.enabled h2 j hj

theorem Tapedev.Visible.aaca (h : d.Visible) (hd : d.aadg = 1 ∨ d.aadg = 3) : (aaca d).1.Visible := by
  obtain ⟨hno, -, -, -, -, hirq⟩ := aaca_frame d
  have hbits : UsedBits (Tape.aaca d).1.aadesNo (Tape.aaca d).1.irqAadf := by
    rw [hno, hirq]
    refine h.irq.or ?_
    split
    · exact .initDone _
    · exact .zero _
  have hstatus : ∀ i, i < (Tape.aaca d).1.aadesNo → ((Tape.aaca d).1.aades i).aadf.Used := by
    intro i hi
    rw [hno] at hi
    have hs := h.status i hi
    rcases aaca_section hd hi with he | ⟨-, he⟩ | ⟨-, he⟩ <;> rw [he] <;> exact hs
  rcases hd with h1 | h3
  · obtain ⟨hg, -, hs⟩ := aaca_on h1
    refine ⟨by omega, hbits, hstatus, fun _ i hi => ?_⟩
    rw [hs i (hno ▸ hi)]
    exact (by decide : Aadg.idle ≠ .disabled)
  · rcases aaca_off h3 with ⟨hg, -⟩ | ⟨hg, -, -, hs⟩
    · exact ⟨by omega, hbits, hstatus, fun h2 => by omega⟩
    · refine ⟨by omega, hbits, hstatus, fun _ i hi => ?_⟩
      rcases hs i (hno ▸ hi) with ⟨he, hne⟩ | ⟨-, he⟩
      · rw [he]
        exact hne
      · rw [he]
        exact (by decide : Aadg.idle ≠ .disabled)

theorem Tapedev.Visible.atom (h : d.Visible) (ha : Tapedev.Atom d d') : d'.Visible := by
  cases ha with
  | pass clock io i hi hw =>
    exact h.answer hi (aabf_active (h.status i hi) (works_busy hw) d.mem (io i)) (pass_toPCIint hw)
  | start i w clock rand hi hen hidle =>
    have ha := aabm_active hidle w
    rw [← hen] at ha
    exact h.answer hi ha (start_toPCIint hidle)
  | regs mask aadf written mem => exact ⟨h.aadg, h.irq, h.status, h.enabled⟩
  | clear val =>
    have hle := h.irq.and (~~~val)
    dsimp only
    unfold clearIrq
    dsimp only
    split
    · exact ⟨h.aadg, h.irq, h.status, h.enabled⟩
    · exact ⟨h.aadg, hle, h.status, h.enabled⟩
  | table i val hi hen =>
    refine h.setSection ?_ ?_
    all_goals
      unfold aabiPgtable
      split <;> rfl
  | block i val hi hen hidle hval => exact h.setSection rfl rfl
  | enable h0 => exact ⟨(by decide : 1 ≤ 3), h.irq, h.status, fun h2 => absurd h2 (by decide : ¬ 2 ≤ 1)⟩
  | disable h2 =>
    refine ⟨le_refl 3, h.irq, h.status, fun _ => h.enabled ?_⟩
    rcases h2 with h2 | h4 <;> omega
  | aaca h13 => exact h.aaca h13
  | reset =>
    refine ⟨Nat.zero_le 3, .zero _, fun i hi => ?_, fun h2 => absurd h2 (by decide : ¬ 2 ≤ 0)⟩
    show (if i < d.aadesNo then (d.aades i).reset else d.aades i).aadf.Used
    rw [if_pos (by exact hi)]
    exact (by decide : SectStatus.Used .idle)

theorem tapedev_visible (h : (tapedev β).Reach d) : d.Visible := by
  refine tapedev_invariant (fun p x d hd => ?_) (fun _ _ hp ha => hp.atom ha) h
  rw [(tapedevRealize_ok hd).1]
  exact ⟨Nat.zero_le 3, .zero _, fun _ _ => (by decide : SectStatus.Used .idle),
    fun h2 => absurd h2 (by decide : ¬ 2 ≤ 0)⟩

end

/-- **What the guest can see.** Whatever the guest has done, the device is in one of the states 0
to 3: the hardware error is never entered, nor is its interrupt raised. Besides INIT_DONE only the
bits of sections that exist are ever set in the IRQ status, no section answers with ERR_RESET or
ERR_WRITE_PAST_END, and the sections and their tapes are those the device was created with. -/
theorem guest_visible {p : Props} {x : Setup β} {d : Tapedev β} (hp : tapedevRealize p x = .ok d)
    (cs : List (Call β)) :
    let d' := cs.foldl Tapedev.next d
    d'.aadg ≤ 3 ∧ UsedBits d'.aadesNo d'.irqAadf ∧ d.SameSections d' ∧
      ∀ i, i < d'.aadesNo → (d'.aades i).aadf.Used := by
  have hv := tapedev_visible (reach_run (.init ⟨p, x, hp⟩) cs)
  exact ⟨hv.aadg, hv.irq, run_sameSections d cs, hv.status⟩

/-- The small device is enabled, and a block is written to a tape. -/
theorem guest_visible_small :
    let d := smallSession.foldl Tapedev.next (smallDevice true)
    d.irqAadf.getLsbD (Irq.done.index 0) = true ∧ UsedBits 1 d.irqAadf ∧ (d.aades 0).aadf.Used := by
  obtain ⟨-, hirq, -, hst⟩ := guest_visible (smallDevice_realized true) smallSession
  exact ⟨by decide +kernel, hirq, hst 0 (Nat.lt_succ_self 0)⟩

/-! ## Switching on -/

/-- The writes of `tapedev_probe` that switch the device on. -/
def enableWrites (clock rand : Nat) (io : Nat → Nat → Io) : List (Call β) :=
  [.write 0x10 0xffffffff 4 clock rand io, .write 0x0c initMask.toNat 4 clock rand io,
    .write 0x00 1 4 clock rand io]

section
variable {d : Tapedev β} {clock rand : Nat}

theorem enableWrites_state (d : Tapedev β) (clock rand : Nat) (io : Nat → Nat → Io) :
    let d' := (enableWrites clock rand io).foldl Tapedev.next d
    d'.irqAadf = 0 ∧ d'.irqMask = initMask ∧ d'.aadg = if d.aadg = 0 then 1 else d.aadg := by
  have hclear : (clearIrq d.toPCIint 0xffffffff#32).irqAadf = 0 ∧
      (clearIrq d.toPCIint 0xffffffff#32).aadg = d.aadg := by
    have hall : d.irqAadf &&& ~~~0xffffffff#32 = 0 := by
      rw [show ~~~0xffffffff#32 = 0#32 by decide, BitVec.and_zero]
      rfl
    unfold clearIrq
    dsimp only
    rw [hall]
    split
    · next hz => exact ⟨hz.symm, rfl⟩
    · exact ⟨rfl, rfl⟩
  show (aabh (aabh (aabh d 0x10 0xffffffff) 0x0c initMask.toNat) 0x00 1).irqAadf = 0 ∧
    (aabh (aabh (aabh d 0x10 0xffffffff) 0x0c initMask.toNat) 0x00 1).irqMask = initMask ∧
    (aabh (aabh (aabh d 0x10 0xffffffff) 0x0c initMask.toNat) 0x00 1).aadg = _
  generalize hd₁ : aabh d 0x10 0xffffffff = d₁
  have h₁ : d₁.irqAadf = 0 ∧ d₁.aadg = d.aadg := by
    rw [← hd₁]
    exact hclear
  rw [← h₁.2]
  by_cases h0 : d₁.aadg = 0
  · simp [aabh, h0, h₁.1]
  · simp [aabh, h0, h₁.1]

/-- A step of a section raises none of the device's own interrupts and takes none back. -/
theorem pass_low (d : Tapedev β) (clock : Nat) (io : Nat → Io) (i : Nat) :
    (d.pass clock io i).irqAadf.getLsbD INIT_DONE = d.irqAadf.getLsbD INIT_DONE ∧
      (d.line = true → (d.pass clock io i).line = true) := by
  cases hw : d.works clock i with
  | true =>
    rw [pass_toPCIint hw, answer_eq]
    refine ⟨?_, fun hl => ?_⟩
    · dsimp only
      rw [BitVec.getLsbD_or]
      cases (Tape.aabf (d.aades i) d.mem (io i)).1.2 with
      | none => simp [irqBits]
      | some q => rw [show irqBits (some q) i = irqBit q i from rfl, irqBit_low q i (by decide), Bool.or_false]
    · dsimp only
      rw [hl, Bool.true_or]
  | false =>
    rw [pass_of_not_works hw]
    exact ⟨rfl, id⟩

/-- INIT_DONE has been raised. -/
structure Tapedev.CameUp (d : Tapedev β) : Prop where
  enabled : d.aadg = 2
  line : d.line = true
  irq : d.irqAadf.getLsbD INIT_DONE = true

/-- INIT_DONE has not been raised, and will not be. -/
structure Tapedev.StaysSilent (d : Tapedev β) : Prop where
  aadg : d.aadg ≠ 1
  irq : d.irqAadf.getLsbD INIT_DONE = false

theorem Tapedev.CameUp.passAll (h : d.CameUp) (io : Nat → Io) (is : List Nat) :
    (d.passAll clock io is).1.CameUp := by
  refine passAll_induction h fun d i _ h _ => ?_
  obtain ⟨hbit, hline⟩ := pass_low d clock io i
  exact ⟨(pass_aadg d clock io i).trans h.enabled, hline h.line, hbit.trans h.irq⟩

theorem Tapedev.CameUp.aabf (h : d.CameUp) (io : Nat → Io) : (d.aabf clock io).1.CameUp := by
  rw [aabf_enabled h.enabled]
  exact h.passAll io _

/-- The first call of the timer brings the device up. -/
theorem aabf_comesUp (h : d.aadg = 1) (hm : d.irqMask = initMask) (io : Nat → Io) :
    (d.aabf clock io).1.CameUp := by
  have hup : (aaca d).1.CameUp := by
    rw [aaca_enabling h, hm]
    refine ⟨rfl, ?_, ?_⟩
    · dsimp only
      rw [show decide (irqInitDone &&& ~~~initMask ≠ 0) = true by decide, Bool.or_true]
    · dsimp only
      rw [BitVec.getLsbD_or, show irqInitDone.getLsbD INIT_DONE = true by decide, Bool.or_true]
  unfold Tapedev.aabf
  rw [if_neg (by omega)]
  dsimp only
  rw [(aaca_on h).2.1, if_neg Bool.false_ne_true]
  exact hup.passAll io _

theorem Tapedev.StaysSilent.aabf (h : d.StaysSilent) (io : Nat → Io) :
    (d.aabf clock io).1.StaysSilent := by
  have haca : (aaca d).1.StaysSilent := by
    obtain ⟨-, -, -, -, -, hirq⟩ := aaca_frame d
    rw [if_neg h.aadg] at hirq
    refine ⟨?_, ?_⟩
    · by_cases h3 : d.aadg = 3
      · rcases aaca_off h3 with ⟨hg, -⟩ | ⟨hg, -⟩ <;> omega
      · rw [aaca_of_ne h.aadg h3]
        exact h.aadg
    · rw [hirq, BitVec.getLsbD_or, h.irq]
      simp
  unfold Tapedev.aabf
  split
  · exact h
  · dsimp only
    split
    · exact haca
    · refine passAll_induction haca fun d i _ h _ => ?_
      exact ⟨by rw [pass_aadg]; exact h.aadg, (pass_low d clock io i).1.trans h.irq⟩

/-- What every call of the timer keeps. -/
theorem ticks_induction {P : Tapedev β → Prop}
    (hP : ∀ d clock io, P d → P (d.aabf clock io).1) {ticks : List (Call β)} (ht : Ticks ticks)
    (h : P d) : P (ticks.foldl Tapedev.next d) := by
  induction ticks generalizing d with
  | nil => exact h
  | cons c cs ih =>
    obtain ⟨clock, io, rfl⟩ := ht c List.mem_cons_self
    exact ih (fun c hc => ht c (List.mem_cons_of_mem _ hc)) (hP d clock io h)

end

/-- **When the device comes up.** After the writes of `tapedev_probe`, and any number of calls
of the timer but 0, INIT_DONE is pending if and only if the device was off, or about to come up,
before. A device that is on, or is still going off, ignores ENABLE: `tapedev_probe` then waits for
an interrupt that does not come. -/
theorem init_done_iff (d : Tapedev β) (clock rand : Nat) (io : Nat → Nat → Io)
    {ticks : List (Call β)} (ht : Ticks ticks) (hne : ticks ≠ []) :
    let d' := (enableWrites clock rand io ++ ticks).foldl Tapedev.next d
    (d'.irqAadf.getLsbD INIT_DONE = true ↔ d.aadg ≤ 1) ∧
      (d.aadg ≤ 1 → d'.aadg = 2 ∧ d'.line = true) := by
  rw [List.foldl_append]
  obtain ⟨hirq, hmask, hg⟩ := enableWrites_state d clock rand io
  generalize (enableWrites clock rand io).foldl Tapedev.next d = d₁ at hirq hmask hg
  by_cases hle : d.aadg ≤ 1
  · have h1 : d₁.aadg = 1 := by
      rw [hg]
      split <;> omega
    have hup : (ticks.foldl Tapedev.next d₁).CameUp := by
      cases ticks with
      | nil => exact absurd rfl hne
      | cons c cs =>
        obtain ⟨clock, io, rfl⟩ := ht c List.mem_cons_self
        show (cs.foldl Tapedev.next (d₁.aabf clock io).1).CameUp
        exact ticks_induction (fun d clock io h => h.aabf io)
          (fun c hc => ht c (List.mem_cons_of_mem _ hc)) (aabf_comesUp h1 hmask io)
    exact ⟨⟨fun _ => hle, fun _ => hup.irq⟩, fun _ => ⟨hup.enabled, hup.line⟩⟩
  · have hsilent : (ticks.foldl Tapedev.next d₁).StaysSilent := by
      refine ticks_induction (fun d clock io h => h.aabf io) ht ⟨?_, ?_⟩
      · rw [hg]
        split <;> omega
      · rw [hirq]
        rfl
    refine ⟨⟨fun h => ?_, fun h => absurd h hle⟩, fun h => absurd h hle⟩
    rw [hsilent.irq] at h
    cases h

/-- A device that has just been created comes up. -/
theorem init_done_small :
    ((enableWrites 0 0 (fun _ _ => plainIo) ++ [Call.timer 10 fun _ => plainIo]).foldl Tapedev.next
      (smallDevice false)).irqAadf.getLsbD INIT_DONE = true := by
  have hticks : Ticks ([.timer 10 fun _ => plainIo] : List (Call Nat)) :=
    fun _ hc => ⟨_, _, List.mem_singleton.mp hc⟩
  exact (init_done_iff (smallDevice false) 0 0 _ hticks (by rintro ⟨⟩)).1.mpr (Nat.zero_le 1)

/-! ## Switching off -/

/-- In the timer mode, the time at which a section may go on is below 100 ms. -/
def Tapedev.Early (d : Tapedev β) : Prop := d.fastMode = false → ∀ i, d.aaah i < 100

/-- A call other than a reset, and if it is one of the timer, not before 100 ms of the virtual
clock. -/
def Call.Late : Call β → Prop
  | .timer clock _ => 100 ≤ clock
  | .reset => False
  | .write .. | .cpu _ => True

def Call.isTimer : Call β → Bool
  | .timer .. => true
  | .write .. | .reset | .cpu _ => false

section
variable {d d' : Tapedev β}

theorem aaca_aaah (d : Tapedev β) : (aaca d).1.aaah = d.aaah := by
  by_cases h1 : d.aadg = 1
  · rw [aaca_enabling h1]
  · by_cases h3 : d.aadg = 3
    · cases hs : (stopLoop (List.range d.aadesNo) d.aades).1 with
      | true =>
        rw [aaca_stopped h3 hs]
        rfl
      | false =>
        rw [aaca_waiting h3 hs]
        rfl
    · rw [aaca_of_ne h1 h3]

theorem Tapedev.Early.atom (h : d.Early) (ha : Tapedev.Atom d d') : d'.Early := by
  cases ha with
  | pass clock io i hi hw =>
    intro hf
    rw [pass_fastMode] at hf
    exact pass_early hf (h hf)
  | start i w clock rand hi hen hidle =>
    intro hf
    rw [start_fastMode] at hf
    exact start_early hf (h hf)
  | regs mask aadf written mem => exact h
  | clear val => exact h
  | table i val hi hen => exact h
  | block i val hi hen hidle hval => exact h
  | enable h0 => exact h
  | disable h2 => exact h
  | aaca h13 =>
    intro hf
    rw [aaca_aaah]
    exact h ((aaca_frame d).2.2.1.symm.trans hf)
  | reset =>
    intro hf i
    show (if i < d.aadesNo then (0 : Int) else d.aaah i) < 100
    split
    · decide
    · exact h hf i

theorem tapedev_early (h : (tapedev β).Reach d) : d.Early := by
  refine tapedev_invariant (fun p x d hd => ?_) (fun _ _ hp ha => hp.atom ha) h
  rw [(tapedevRealize_ok hd).1]
  exact fun _ _ => (by decide : (0 : Int) < 100)

/-- From then on a busy section goes on with every call of the timer. -/
theorem Tapedev.Early.works (h : d.Early) {clock : Nat} (hc : 100 ≤ clock) (i : Nat) :
    d.works clock i = (d.aades i).aadg.busy := by
  cases hf : d.fastMode with
  | true => exact works_fast hf clock i
  | false =>
    have hlt := h hf i
    have hle : d.aaah i ≤ clock := by omega
    unfold Tapedev.works
    rw [decide_eq_true hle, Bool.or_true, Bool.and_true]

/-- A step does not make a section busy. -/
theorem passAll_busy (d : Tapedev β) (clock : Nat) (io : Nat → Io) (is : List Nat) {i : Nat}
    (h : ((d.passAll clock io is).1.aades i).aadg.busy = true) : (d.aades i).aadg.busy = true := by
  refine passAll_induction (P := fun d' => (d'.aades i).aadg.busy = true → (d.aades i).aadg.busy = true)
    id (fun d' j _ ih hw => ?_) h
  rw [pass_aades, if_pos hw]
  by_cases hij : i = j
  · subst hij
    exact fun _ => ih (works_busy hw)
  · rwa [Function.update_of_ne hij]

/-- A device that is going off. -/
structure Tapedev.GoesOff (d d' : Tapedev β) : Prop where
  aadg : d'.aadg = 3
  busy : ∀ i, i < d.aadesNo → (d'.aades i).aadg.busy = true → (d.aades i).aadg.busy = true
  work : d'.work ≤ d.work

/-- The device is off, and so are its sections. -/
structure Tapedev.Off (d : Tapedev β) : Prop where
  aadg : d.aadg = 0
  sections : ∀ i, i < d.aadesNo → (d.aades i).aadg = .disabled

/-- A call of the timer completes the stop, or a section has come closer to its end. -/
theorem aabf_goesOff (hv : d.Visible) (he : d.Early) (h3 : d.aadg = 3) {clock : Nat}
    (hc : 100 ≤ clock) (io : Nat → Io) :
    (d.aabf clock io).1.Off ∨
      d.GoesOff (d.aabf clock io).1 ∧ (d.aabf clock io).1.work < d.work := by
  obtain ⟨hno, -, hfm, -⟩ := aaca_frame d
  unfold Tapedev.aabf
  rw [if_neg (by omega)]
  dsimp only
  rcases aaca_off h3 with ⟨hg, hr, hs⟩ | ⟨hg, hr, ⟨i, hi, hidle, hfail⟩, hs⟩
  · left
    rw [if_pos hr]
    refine ⟨hg, fun i hi => ?_⟩
    rw [(hs i (hno ▸ hi)).2]
    rfl
  · right
    rw [hr, if_neg Bool.false_ne_true]
    have hbusy : ∀ j, j < d.aadesNo → ((aaca d).1.aades j).aadg.busy = (d.aades j).aadg.busy := by
      intro j hj
      rcases hs j hj with ⟨hsame, -⟩ | ⟨hrest, hsame⟩
      · rw [hsame]
      · rw [hsame, hrest]
        rfl
    have hwork : (aaca d).1.work ≤ d.work := by
      unfold Tapedev.work
      rw [hno]
      refine List.sum_le_sum fun j hj => ?_
      rcases hs j (List.mem_range.mp hj) with ⟨hsame, -⟩ | ⟨-, hsame⟩
      · rw [hsame]
      · rw [hsame, Aacc.work_of_resting rfl]
        exact Nat.zero_le _
    have hib : (d.aades i).aadg.busy = true := by
      have hdis := hv.enabled (by omega) i hi
      cases hgi : (d.aades i).aadg <;> simp_all [Aadg.busy]
    have hearly : (aaca d).1.Early := by
      intro hf
      rw [aaca_aaah]
      exact he (hfm.symm.trans hf)
    have hdone : ((aaca d).1.passAll clock io (List.range (aaca d).1.aadesNo)).2 = true := by
      by_contra hidle
      have hnone := (passAll_idle (Bool.not_eq_true _ ▸ hidle)).2 i (List.mem_range.mpr (hno ▸ hi))
      rw [hearly.works hc, hbusy i hi, hib] at hnone
      cases hnone
    have hlt := (passAll_work clock io fun j hj => List.mem_range.mp hj).2 hdone
    refine ⟨⟨(passAll_frame _ _ _ _).1.trans hg, fun j hj hb => ?_, ?_⟩, ?_⟩
    · rw [← hbusy j hj]
      exact passAll_busy _ _ _ _ hb
    · omega
    · omega

/-- The guest cannot stop it, nor start a command. -/
theorem aabk_goesOff (h3 : d.aadg = 3) (aabu val size clock rand : Nat) (io : Nat → Nat → Io) :
    d.GoesOff (aabk d aabu val size clock rand io) := by
  have hsame : d.GoesOff d := ⟨h3, fun _ _ => id, le_refl _⟩
  unfold aabk
  split
  · exact hsame
  · split
    · unfold aabh
      split
      · rw [if_neg (by omega), if_neg (by omega)]
        exact hsame
      · exact ⟨h3, fun _ _ => id, le_refl _⟩
      · exact ⟨h3, fun _ _ => id, le_refl _⟩
      · unfold clearIrq
        dsimp only
        split <;> exact ⟨h3, fun _ _ => id, le_refl _⟩
      · exact hsame
    · split
      · exact hsame
      · split
        · exact hsame
        · unfold Tapedev.aabi
          rw [if_pos (by omega)]
          exact hsame

theorem next_goesOff (h : (tapedev β).Reach d) (h3 : d.aadg = 3) {c : Call β} (hc : c.Late) :
    (d.next c).Off ∨ d.GoesOff (d.next c) ∧ (c.isTimer = true → (d.next c).work < d.work) := by
  cases c with
  | write aabu val size clock rand io =>
    exact .inr ⟨aabk_goesOff h3 aabu val size clock rand io, fun ht => by cases ht⟩
  | timer clock io =>
    rcases aabf_goesOff (tapedev_visible h) (tapedev_early h) h3 hc io with hoff | ⟨hgo, hlt⟩
    · exact .inl hoff
    · exact .inr ⟨hgo, fun _ => hlt⟩
  | reset => exact absurd hc id
  | cpu mem => exact .inr ⟨⟨h3, fun _ _ => id, le_refl _⟩, fun ht => by cases ht⟩

end

/-- **A stop completes.** When ENABLE has been cleared, a device that is not reset goes off, with
all its sections, after a bounded number of calls of the timer, and whatever the guest writes in
the meantime. On the way no section that is at rest becomes busy. -/
theorem stop_completes {d : Tapedev β} (h : (tapedev β).Reach d) (h3 : d.aadg = 3)
    {cs : List (Call β)} (hcs : ∀ c ∈ cs, c.Late) (hn : d.work < cs.countP Call.isTimer) :
    ∃ pre, pre <+: cs ∧ (pre.foldl Tapedev.next d).Off ∧
      ∀ pre', pre' <+: pre → ∀ i, i < d.aadesNo →
        ((pre'.foldl Tapedev.next d).aades i).aadg.busy = true → (d.aades i).aadg.busy = true := by
  induction cs generalizing d with
  | nil => exact absurd hn (Nat.not_lt_zero _)
  | cons c cs ih =>
    have hno := (run_sameSections d [c]).aadesNo
    rcases next_goesOff h h3 (hcs c List.mem_cons_self) with hoff | ⟨hgo, hlt⟩
    · refine ⟨[c], ⟨cs, rfl⟩, hoff, fun pre' hpre i hi hb => ?_⟩
      rcases List.prefix_cons_iff.mp hpre with rfl | ⟨t, rfl, ht⟩
      · exact hb
      · rw [List.prefix_nil.mp ht] at hb
        have hdis := hoff.sections i (hno.symm ▸ hi)
        rw [List.foldl_cons, List.foldl_nil, hdis] at hb
        cases hb
    · have hcount : (d.next c).work < cs.countP Call.isTimer := by
        rw [List.countP_cons] at hn
        have hle := hgo.work
        cases ht : c.isTimer with
        | true =>
          have hlt := hlt ht
          simp only [ht, if_true] at hn
          omega
        | false =>
          simp only [ht] at hn
          simp at hn
          omega
      obtain ⟨pre, hpre, hoff, hbusy⟩ :=
        ih (h.step rfl) hgo.aadg (fun c hc => hcs c (List.mem_cons_of_mem _ hc)) hcount
      refine ⟨c :: pre, List.cons_prefix_cons.mpr ⟨rfl, hpre⟩, hoff, fun pre' hpre' i hi hb => ?_⟩
      rcases List.prefix_cons_iff.mp hpre' with rfl | ⟨t, rfl, ht⟩
      · exact hb
      · exact hgo.busy i hi (hbusy t ht i (hno.symm ▸ hi) hb)

/-- The small device is switched off while it takes a tape. -/
def smallStopping : Tapedev Nat :=
  [.write 0x100 0x100 4 0 0 fun _ _ => plainIo, .write 0x00 0 4 0 0 fun _ _ => plainIo].foldl
    Tapedev.next (smallEnabled false)

theorem stop_completes_taking : ∃ pre : List (Call Nat),
    pre <+: [.timer 100 fun _ => plainIo, .timer 110 fun _ => plainIo] ∧
      (pre.foldl Tapedev.next smallStopping).Off := by
  have hlate : ∀ c ∈ ([.timer 100 fun _ => plainIo, .timer 110 fun _ => plainIo] : List (Call Nat)),
      c.Late := by
    intro c hc
    simp only [List.mem_cons, List.not_mem_nil, or_false] at hc
    rcases hc with rfl | rfl
    · exact le_refl 100
    · exact (by decide : 100 ≤ 110)
  obtain ⟨pre, hpre, hoff, -⟩ := stop_completes (reach_run (smallEnabled_reach false) _)
    (rfl : smallStopping.aadg = 3) hlate (by decide : 1 < 2)
  exact ⟨pre, hpre, hoff⟩

end Zso.Tape

import Zso.Tape.DeviceSafety
import Zso.Tape.FastMode

/-!
# After a failure of the host

When an access to the file fails, or the transfer of a block, the section goes to a state in which
it drops every command without an answer. Only a stop of the device or a reset ends it.

* `failed_section_silent`: the device side.
* `failed_section_hangs`: the driver does not know. A request or an EJECT that comes after the
  failure has been reported waits for ever.
-/

namespace Zso.Tape
open Bits Transition

variable {β : Type}

/-! ## The device -/

/-- What a call writes to STATUS of section `i`. -/
def Call.statusWrite (i : Nat) : Call β → Option Nat
  | .write aabu val size _ _ _ =>
    if size = 4 ∧ 0xfc < aabu ∧ sectionOf aabu = i ∧ aabu &&& 0xff = 0x04 then some val else none
  | .timer .. => none
  | .reset => none
  | .cpu _ => none

/-- The last value the guest has written to STATUS of section `i`. -/
def lastStatus (i : Nat) (cs : List (Call β)) : Option Nat :=
  (cs.filterMap (Call.statusWrite i)).getLast?

/-- Section `i` is as in `d` but for the address of its page table and the value `w` that the guest
has written to STATUS, and has raised no interrupt. -/
structure Tapedev.Froze (d : Tapedev β) (i : Nat) (w : Option Nat) (d' : Tapedev β) : Prop where
  sec : ∃ p, d'.aades i = { d.aades i with aaab := p }
  irq : ∀ q : Irq, d'.irqAadf.getLsbD (q.index i) = true → d.irqAadf.getLsbD (q.index i) = true
  written : d'.written i = w.or (d.written i)

section
variable {d d' : Tapedev β} {w w' : Option Nat} {i j clock : Nat}

theorem Tapedev.Froze.refl (d : Tapedev β) (i : Nat) : d.Froze i none d :=
  ⟨⟨_, rfl⟩, fun _ => id, rfl⟩

theorem Tapedev.Froze.trans {d₁ d₂ d₃ : Tapedev β} (h : d₁.Froze i w d₂) (h' : d₂.Froze i w' d₃) :
    d₁.Froze i (w'.or w) d₃ := by
  obtain ⟨p, hp⟩ := h.sec
  obtain ⟨p', hp'⟩ := h'.sec
  refine ⟨⟨p', by rw [hp', hp]⟩, fun q hq => h.irq q (h'.irq q hq), ?_⟩
  rw [h'.written, h.written, Option.or_assoc]

theorem froze_of_eq (hs : d'.aades i = d.aades i) (hq : d'.irqAadf = d.irqAadf)
    (hw : d'.written i = d.written i) : d.Froze i none d' :=
  ⟨⟨_, hs⟩, fun _ h => hq ▸ h, hw⟩

/-- An answer of another section. -/
theorem froze_answer {a : Answer β} (he : d'.toPCIint = d.toPCIint.answer j a)
    (hw : d'.written i = d.written i) (hji : j ≠ i) (hj : j < 8) (hi : i < 8) :
    d.Froze i none d' := by
  refine ⟨⟨(d.aades i).aaab, ?_⟩, fun q hq => ?_, hw⟩
  · rw [he, answer_aades, Function.update_of_ne hji.symm]
  · rw [he, answer_irqAadf, BitVec.getLsbD_or] at hq
    have hbit : (irqBits a.2 j).getLsbD (q.index i) = false := by
      cases a.2 with
      | none => exact BitVec.getLsbD_zero
      | some q' =>
        show (irqBit q' j).getLsbD (q.index i) = false
        rw [irqBit_section hj hi]
        exact decide_eq_false fun h => hji h.1.symm
    rwa [hbit, Bool.or_false] at hq

theorem pass_written_other (hji : j ≠ i) (io : Nat → Io) :
    (d.pass clock io j).written i = d.written i := by
  unfold Tapedev.pass
  split
  · dsimp only
    split
    · exact Function.update_of_ne hji.symm _ _
    · rfl
  · rfl

theorem start_written_other (hji : j ≠ i) (val rand : Nat) :
    (d.start j val clock rand).written i = d.written i := by
  unfold Tapedev.start
  dsimp only
  split
  · split <;> exact Function.update_of_ne hji.symm _ _
  · rfl

theorem Tapedev.Froze.pass (h : d.Froze i w d') (hf : (d.aades i).aadg = .failed) (hi : i < 8)
    (hj : j < 8) (hw : d'.works clock j = true) (io : Nat → Io) :
    d.Froze i w (d'.pass clock io j) := by
  have hji : j ≠ i := by
    rintro rfl
    obtain ⟨p, hp⟩ := h.sec
    have hb := works_busy hw
    rw [hp] at hb
    dsimp only at hb
    rw [hf] at hb
    cases hb
  exact h.trans (froze_answer (pass_toPCIint hw) (pass_written_other hji io) hji hj hi)

theorem clear_froze (d : Tapedev β) (i : Nat) (val : BitVec 32) :
    d.Froze i none { d with toPCIint := clearIrq d.toPCIint val } := by
  have he : (clearIrq d.toPCIint val).aades = d.aades ∧
      ∀ k, (clearIrq d.toPCIint val).irqAadf.getLsbD k = true → d.irqAadf.getLsbD k = true := by
    unfold clearIrq
    dsimp only
    split
    · exact ⟨rfl, fun _ => id⟩
    · refine ⟨rfl, fun k hk => ?_⟩
      dsimp only at hk
      rw [BitVec.getLsbD_and, Bool.and_eq_true] at hk
      exact hk.1
  exact ⟨⟨_, congrFun he.1 i⟩, fun q => he.2 _, rfl⟩

/-- A command for a section, this one or another. -/
theorem aabm_froze (h8 : d.aadesNo ≤ 8) (hi : i < d.aadesNo) (hj : j < d.aadesNo)
    (hf : (d.aades i).aadg = .failed) (hen : d.aadg = 2) (val clock rand : Nat)
    (ios : Nat → Nat → Io) : d.Froze i none (d.aabm j val clock rand ios) := by
  unfold Tapedev.aabm
  dsimp only
  by_cases hidle : (d.aades j).aadg = .idle
  · have hji : j ≠ i := by
      rintro rfl
      rw [hidle] at hf
      cases hf
    obtain ⟨hg, hno⟩ := start_frame d j val clock rand
    have hstart : d.Froze i none (d.start j val clock rand) :=
      froze_answer (start_toPCIint hidle) (start_written_other hji val rand) hji (by omega) (by omega)
    split
    · exact fastLoop_induction hstart (hg.trans hen)
        (fun e io k hk hp hw => hp.pass hf (by omega) (by omega) hw io) _ ios
    · exact hstart
  · rw [if_neg fun h => hidle h.2.1]
    unfold Tapedev.start
    dsimp only
    rw [if_neg hidle]
    exact .refl d i

theorem aabi_froze (h8 : d.aadesNo ≤ 8) (hi : i < d.aadesNo) (hj : j < d.aadesNo)
    (hf : (d.aades i).aadg = .failed) (hen : d.aadg = 2) {addr val clock rand : Nat}
    (hw : w = if j = i ∧ addr = 0x04 then some val else none) (ios : Nat → Nat → Io) :
    d.Froze i w (d.aabi j addr val clock rand ios) := by
  unfold Tapedev.aabi
  rw [if_neg (not_not.mpr hen)]
  split
  · rw [if_neg (by omega)] at hw
    subst hw
    exact aabm_froze h8 hi hj hf hen val clock rand ios
  · -- STATUS: the value is kept, whatever the section does
    refine ⟨⟨_, rfl⟩, fun _ => id, ?_⟩
    show Function.update d.written j (some val) i = _
    by_cases hji : j = i
    · subst hji
      rw [Function.update_self, hw, if_pos ⟨rfl, rfl⟩]
      rfl
    · rw [Function.update_of_ne (Ne.symm hji), hw, if_neg fun h => hji h.1]
      rfl
  · rw [if_neg (by omega)] at hw
    subst hw
    refine ⟨?_, fun _ => id, rfl⟩
    show ∃ p, Function.update d.aades j (aabiPgtable d.aadg (d.aades j) val) i = _
    by_cases hij : i = j
    · subst hij
      rw [Function.update_self]
      unfold aabiPgtable
      split
      · exact ⟨_, rfl⟩
      · exact ⟨_, rfl⟩
    · rw [Function.update_of_ne hij]
      exact ⟨_, rfl⟩
  · rw [if_neg (by omega)] at hw
    subst hw
    split
    · next hidle =>
      refine ⟨⟨(d.aades i).aaab, ?_⟩, fun _ => id, rfl⟩
      have hij : i ≠ j := by
        rintro rfl
        rw [hidle.1] at hf
        cases hf
      show Function.update d.aades j _ i = _
      rw [Function.update_of_ne hij]
    · exact .refl d i
  · next hne _ _ =>
    rw [if_neg fun h => hne h.2] at hw
    subst hw
    exact .refl d i

/-- A call that leaves the device enabled. -/
theorem next_froze (h8 : d.aadesNo ≤ 8) (hi : i < d.aadesNo) (hf : (d.aades i).aadg = .failed)
    (hen : d.aadg = 2) (c : Call β) (hen' : (d.next c).aadg = 2) :
    d.Froze i (c.statusWrite i) (d.next c) := by
  cases c with
  | write aabu val size clock rand io =>
    show d.Froze i (if size = 4 ∧ 0xfc < aabu ∧ sectionOf aabu = i ∧ aabu &&& 0xff = 0x04 then
      some val else none) (aabk d aabu val size clock rand io)
    unfold aabk
    by_cases hsize : size = 4
    · rw [if_neg (not_not.mpr hsize)]
      by_cases hlow : aabu ≤ 0xfc
      · rw [if_pos hlow, if_neg (by omega)]
        unfold aabh
        split
        · split
          · exact froze_of_eq rfl rfl rfl
          · split <;> exact froze_of_eq rfl rfl rfl
        · exact froze_of_eq rfl rfl rfl
        · exact froze_of_eq rfl rfl rfl
        · exact clear_froze d i _
        · exact .refl d i
      · rw [if_neg hlow, if_neg (show d.aadg ≠ 0 by omega)]
        by_cases hj : d.aadesNo ≤ sectionOf aabu
        · rw [if_pos hj, if_neg (by omega)]
          exact .refl d i
        · rw [if_neg hj]
          have hiff : (size = 4 ∧ 0xfc < aabu ∧ sectionOf aabu = i ∧ aabu &&& 0xff = 0x04) ↔
              sectionOf aabu = i ∧ aabu &&& 0xff = 0x04 :=
            ⟨fun h => h.2.2, fun h => ⟨hsize, not_le.mp hlow, h⟩⟩
          exact aabi_froze h8 hi (not_le.mp hj) hf hen (if_congr hiff rfl rfl) io
    · rw [if_pos hsize, if_neg fun h => hsize h.1]
      exact .refl d i
  | timer clock io =>
    show d.Froze i none (d.aabf clock io).1
    rw [aabf_enabled hen]
    refine passAll_induction (.refl d i) fun e j hj hp hw => ?_
    have hj := List.mem_range.mp hj
    exact hp.pass hf (by omega) (by omega) hw io
  | reset => cases hen'
  | cpu mem => exact froze_of_eq rfl rfl rfl

theorem lastStatus_cons (i : Nat) (c : Call β) (cs : List (Call β)) :
    lastStatus i (c :: cs) = (lastStatus i cs).or (c.statusWrite i) := by
  unfold lastStatus
  cases hc : c.statusWrite i with
  | none => rw [List.filterMap_cons_none hc, Option.or_none]
  | some v =>
    rw [List.filterMap_cons_some hc, List.getLast?_cons]
    cases (cs.filterMap (Call.statusWrite i)).getLast? <;> rfl

end

/-- **A failed section is silent.** As long as the device stays enabled, a section that has failed
does nothing, whatever it is sent: neither of its two interrupts is raised, and of its registers
only the address of the page table changes, and STATUS if the guest writes to it. Then
the guest reads back there what it has written last. -/
theorem failed_section_silent {d : Tapedev β} (h : (tapedev β).Reach d) {i : Nat} (hi : i < d.aadesNo)
    (hf : (d.aades i).aadg = .failed) {cs : List (Call β)}
    (hen : ∀ pre, pre <+: cs → (pre.foldl Tapedev.next d).aadg = 2) :
    (∃ p, (cs.foldl Tapedev.next d).aades i = { d.aades i with aaab := p }) ∧
      (∀ q : Irq, (cs.foldl Tapedev.next d).irqAadf.getLsbD (q.index i) = true →
        d.irqAadf.getLsbD (q.index i) = true) ∧
      (cs.foldl Tapedev.next d).statusReg i = (lastStatus i cs).getD (d.statusReg i) := by
  have hrun : d.Froze i (lastStatus i cs) (cs.foldl Tapedev.next d) := by
    induction cs generalizing d with
    | nil => exact .refl d i
    | cons c cs ih =>
      have hno := (run_sameSections d [c]).aadesNo
      have hc := hen [c] (List.cons_prefix_cons.mpr ⟨rfl, List.nil_prefix⟩)
      have hstep := next_froze (tapedev_realized h).few hi hf (hen [] List.nil_prefix) c hc
      obtain ⟨p, hp⟩ := hstep.sec
      rw [lastStatus_cons]
      refine hstep.trans (ih (h.step rfl) (hno.symm ▸ hi) ?_ fun pre hpre => ?_)
      · rw [hp]
        exact hf
      · exact hen (c :: pre) (List.cons_prefix_cons.mpr ⟨rfl, hpre⟩)
  refine ⟨hrun.sec, hrun.irq, ?_⟩
  obtain ⟨p, hp⟩ := hrun.sec
  unfold Tapedev.statusReg
  rw [hrun.written, hp, Option.getD_or]

/-- The small device after a WRITE for which the host fails. -/
def smallFailed : Tapedev Nat := (smallTransfer false).foldl Tapedev.next (smallEnabled true)

/-- It is sent another command, and the guest writes to STATUS. -/
def smallFailedCalls : List (Call Nat) :=
  [.write 0x100 0x02 4 0 0 fun _ _ => plainIo, .write 0x104 5 4 0 0 fun _ _ => plainIo]

theorem failed_section_silent_small :
    (∃ p, (smallFailedCalls.foldl Tapedev.next smallFailed).aades 0 =
      { smallFailed.aades 0 with aaab := p }) ∧
    (smallFailedCalls.foldl Tapedev.next smallFailed).statusReg 0 = 5 := by
  have hen : ∀ pre ∈ smallFailedCalls.inits, (pre.foldl Tapedev.next smallFailed).aadg = 2 := by
    decide +kernel
  obtain ⟨hsec, -, hstatus⟩ := failed_section_silent (reach_run (smallEnabled_reach true) _)
    (Nat.lt_succ_self 0) (by decide +kernel : (smallFailed.aades 0).aadg = .failed)
    fun pre hpre => hen pre ((List.mem_inits _ _).mpr hpre)
  exact ⟨hsec, hstatus⟩

/-! ## The driver -/

section
variable {D : DevModel}

/-- The device is neither idle nor busy, no interrupt of the section is pending, and no EJECT is
about to return. -/
structure Sys.Silent (s : Sys D) : Prop where
  idle : D.idle s.dev = false
  busy : D.busy s.dev = false
  done : s.done = false
  error : s.error = false
  irq : ∀ v, s.irq = some v → v.done = false ∧ v.error = false
  flag : s.sec.ioctlCmdDone = false

/-- What still happens: commands are written and dropped, requests are queued or refused, calls
are interrupted or find no memory. -/
def Event.Vain : Event → Prop
  | .sent _ accepted => accepted = false
  | .answered _ _ => False
  | .returned _ code => code = -ENOMEM ∨ code = -ERESTARTSYS
  | .queued _ _ => True
  | .ended _ _ _ => True
  | .noFirstEntry => False

/-- The request whose submission has succeeded, and that has not been ended. -/
def Sys.accepted (s : Sys D) : Option Nat :=
  match s.submit with
  | .idle => s.outstanding
  | .started .. | .built .. | .failed .. => none

/-- A step that changes nothing for a request that has been accepted. -/
structure Sys.Drags (s s' : Sys D) : Prop where
  silent : s'.Silent
  log : ∃ evs, s'.log = s.log ++ evs ∧ ∀ e ∈ evs, e.Vain
  request : s.submit = .idle → ∀ r, s.outstanding = some r →
    s'.submit = .idle ∧ s'.outstanding = some r ∧ s.sec.cmdQueue <+: s'.sec.cmdQueue

variable {s s' : Sys D}

theorem accepted_eq_some {r : Nat} :
    s.accepted = some r ↔ s.submit = .idle ∧ s.outstanding = some r := by
  unfold Sys.accepted
  cases s.submit <;> simp

theorem Sys.Silent.send (h : s.Silent) (n : LstNode) :
    s.send n = { s with log := s.log ++ [.sent n false] } := by
  unfold Sys.send
  rw [D.write_busy n.word h.idle, h.idle]
  rfl

theorem Sys.Silent.link (h : s.Silent) (nodes : List LstNode) :
    ∃ evs, s.link nodes = { s with
      sec := { s.sec with cmdQueue := s.sec.cmdQueue ++ nodes }, log := s.log ++ evs } ∧
      ∀ e ∈ evs, e.Vain := by
  unfold Sys.link
  split
  · cases nodes with
    | nil => exact ⟨[], by simp [Sys.sendOpt], fun _ he => absurd he List.not_mem_nil⟩
    | cons n ns =>
      refine ⟨[.sent n false], ?_, fun e he => ?_⟩
      · dsimp only [List.head?, Sys.sendOpt]
        rw [h.send n]
      · rw [List.mem_singleton.mp he]
        exact rfl
  · exact ⟨[], by simp, fun _ he => absurd he List.not_mem_nil⟩

theorem vain_nil : ∀ e ∈ ([] : List Event), e.Vain := fun _ he => absurd he List.not_mem_nil

/-- A step in which the log and the queue stay as they are. -/
theorem drags_quiet (hs : s'.Silent) (hl : s'.log = s.log)
    (hr : s.submit = .idle → ∀ r, s.outstanding = some r →
      s'.submit = .idle ∧ s'.outstanding = some r ∧ s.sec.cmdQueue <+: s'.sec.cmdQueue) : s.Drags s' :=
  ⟨hs, ⟨[], by rw [hl, List.append_nil], vain_nil⟩, hr⟩

theorem Sys.Silent.queueRq (h : s.Silent) {op : Option Bool} {start : Nat} {env : SgEnv}
    (hs : s.queueRq op start env = some s') : s.Drags s' := by
  unfold Sys.queueRq at hs
  split at hs
  · next hout _ =>
    dsimp only at hs
    split at hs
    · cases hs
      exact drags_quiet ⟨h.idle, h.busy, h.done, h.error, h.irq, h.flag⟩ rfl
        fun _ r hr => by cases hout.symm.trans hr
    · cases hs
      exact drags_quiet ⟨h.idle, h.busy, h.done, h.error, h.irq, h.flag⟩ rfl
        fun _ r hr => by cases hout.symm.trans hr
  · cases hs

theorem Sys.Silent.build (h : s.Silent) (hs : s.build = some s') : s.Drags s' := by
  unfold Sys.build at hs
  split at hs
  · next hsub =>
    generalize planRequest _ _ _ _ _ = o at hs
    cases hs
    cases o with
    | error e =>
      exact drags_quiet ⟨h.idle, h.busy, h.done, h.error, h.irq, h.flag⟩ rfl
        fun hidle => by cases hsub.symm.trans hidle
    | ok st =>
      exact drags_quiet ⟨h.idle, h.busy, h.done, h.error, h.irq, h.flag⟩ rfl
        fun hidle => by cases hsub.symm.trans hidle
  · cases hs

theorem Sys.Silent.splice (h : s.Silent) (hs : s.splice = some s') : s.Drags s' := by
  unfold Sys.splice at hs
  split at hs
  · next r nodes hsub =>
    have hlogged : ({ s with log := s.log ++ [Event.queued r nodes] }).Silent :=
      ⟨h.idle, h.busy, h.done, h.error, h.irq, h.flag⟩
    obtain ⟨evs, he, hv⟩ := hlogged.link nodes
    rw [he] at hs
    cases hs
    refine ⟨⟨h.idle, h.busy, h.done, h.error, h.irq, h.flag⟩, ⟨.queued r nodes :: evs, ?_, ?_⟩,
      fun hidle => by cases hsub.symm.trans hidle⟩
    · simp
    · exact List.forall_mem_cons.mpr ⟨trivial, hv⟩
  · cases hs

theorem Sys.Silent.fail (h : s.Silent) (hs : s.fail = some s') : s.Drags s' := by
  unfold Sys.fail at hs
  split at hs
  · next hsub =>
    cases hs
    refine ⟨⟨h.idle, h.busy, h.done, h.error, h.irq, h.flag⟩, ⟨_, rfl, fun e he => ?_⟩,
      fun hidle => by cases hsub.symm.trans hidle⟩
    split at he
    · exact absurd he List.not_mem_nil
    · rw [List.mem_singleton.mp he]
      trivial
  · cases hs

theorem Sys.Silent.eject (h : s.Silent) (oom : Bool) : s.Drags (s.eject oom) := by
  unfold Sys.eject
  dsimp only
  split
  · refine ⟨⟨h.idle, h.busy, h.done, h.error, h.irq, h.flag⟩, ⟨_, rfl, fun e he => ?_⟩,
      fun hidle r hr => ⟨hidle, hr, List.prefix_rfl⟩⟩
    rw [List.mem_singleton.mp he]
    exact .inl rfl
  · have hcalled : ({ s with
        nextCall := s.nextCall + 1
        sec := { s.sec with ejectionCmds := s.sec.ejectionCmds + 1 } }).Silent :=
      ⟨h.idle, h.busy, h.done, h.error, h.irq, h.flag⟩
    obtain ⟨evs, he, hv⟩ := hcalled.link [ioctlNode s.nextCall]
    rw [he]
    dsimp only
    rw [if_neg (by rw [h.flag]; exact Bool.false_ne_true)]
    exact ⟨⟨h.idle, h.busy, h.done, h.error, h.irq, h.flag⟩, ⟨evs, rfl, hv⟩,
      fun hidle r hr => ⟨hidle, hr, List.prefix_append _ _⟩⟩

theorem Sys.Silent.handle (h : s.Silent) (hs : s.handle = some s') : s.Drags s' := by
  unfold Sys.handle at hs
  split at hs
  · next done error st hirq =>
    obtain ⟨hd, he⟩ := h.irq _ hirq
    dsimp only at hd he
    rw [hd, he] at hs
    cases hs
    exact drags_quiet ⟨h.idle, h.busy, h.done, h.error, (fun v hv => by cases hv), h.flag⟩ rfl
      fun hidle r hr => ⟨hidle, hr, List.prefix_rfl⟩
  · cases hs

theorem Sys.Silent.tick (h : s.Silent) {a : D.α} (hs : s.tick a = some s') : s.Drags s' := by
  unfold Sys.tick at hs
  obtain ⟨⟨dev, o⟩, ht, rfl⟩ := Option.map_eq_some_iff.mp hs
  cases o with
  | none =>
    obtain ⟨-, hb, hi, -⟩ := D.tick_goes ht
    exact drags_quiet ⟨hi.trans h.idle, hb.trans h.busy, h.done, h.error, h.irq, h.flag⟩ rfl
      fun hidle r hr => ⟨hidle, hr, List.prefix_rfl⟩
  | some st =>
    have hbusy := (D.tick_ends ht).1
    rw [h.busy] at hbusy
    cases hbusy

theorem Sys.Drags.trans {s₁ s₂ s₃ : Sys D} (h : s₁.Drags s₂) (h' : s₂.Drags s₃) : s₁.Drags s₃ := by
  obtain ⟨evs, hl, hv⟩ := h.log
  obtain ⟨evs', hl', hv'⟩ := h'.log
  refine ⟨h'.silent, ⟨evs ++ evs', by rw [hl', hl, List.append_assoc], fun e he => ?_⟩,
    fun hidle r hr => ?_⟩
  · exact (List.mem_append.mp he).elim (hv e) (hv' e)
  · obtain ⟨hidle₂, hr₂, hq₂⟩ := h.request hidle r hr
    obtain ⟨hidle₃, hr₃, hq₃⟩ := h'.request hidle₂ r hr₂
    exact ⟨hidle₃, hr₃, hq₂.trans hq₃⟩

/-- Every step. -/
theorem Sys.Silent.next (h : s.Silent) {l : Label D} (hs : s.next l = some s') : s.Drags s' := by
  have hsame : s.submit = .idle → ∀ r, s.outstanding = some r →
      s.submit = .idle ∧ s.outstanding = some r ∧ s.sec.cmdQueue <+: s.sec.cmdQueue :=
    fun hidle r hr => ⟨hidle, hr, List.prefix_rfl⟩
  cases l with
  | queueRq op start env => exact h.queueRq hs
  | build => exact h.build hs
  | splice => exact h.splice hs
  | fail => exact h.fail hs
  | eject oom =>
    cases hs
    exact h.eject oom
  | wake c =>
    change s.wake c = some s' at hs
    unfold Sys.wake at hs
    rw [if_neg (by rw [h.flag]; simp)] at hs
    cases hs
  | signal c =>
    change s.signal c = some s' at hs
    unfold Sys.signal at hs
    split at hs
    · cases hs
      refine ⟨⟨h.idle, h.busy, h.done, h.error, h.irq, h.flag⟩, ⟨_, rfl, fun e he => ?_⟩, hsame⟩
      rw [List.mem_singleton.mp he]
      exact .inr rfl
    · cases hs
  | snapshot =>
    change s.snapshot = some s' at hs
    unfold Sys.snapshot at hs
    split at hs
    · cases hs
      refine drags_quiet ⟨h.idle, h.busy, h.done, h.error, fun v hv => ?_, h.flag⟩ rfl hsame
      cases hv
      exact ⟨h.done, h.error⟩
    · cases hs
  | readStatus =>
    change s.readStatus = some s' at hs
    unfold Sys.readStatus at hs
    split at hs
    · next hirq =>
      cases hs
      refine drags_quiet ⟨h.idle, h.busy, h.done, h.error, fun v hv => ?_, h.flag⟩ rfl hsame
      cases hv
      have hbits := h.irq _ hirq
      exact hbits
    · cases hs
  | handle => exact h.handle hs
  | tick a => exact h.tick hs
  | otherLine level =>
    cases hs
    exact drags_quiet ⟨h.idle, h.busy, h.done, h.error, h.irq, h.flag⟩ rfl hsame

end

/-- **After a failure that has been reported the driver hangs.** The device behind the section is
any that has failed: it is neither idle nor busy. Once no interrupt of the section is pending, and
no EJECT has been completed whose caller has yet to return, no command is ever answered again in
any run, an EJECT returns only when it is out of memory or gets a signal, and a request that has
been accepted is never ended: its commands stay in the queue. -/
theorem failed_section_hangs {D : DevModel} {s s' : Sys D} (h : s.Silent) {ls : List (Label D)}
    (hs : (system D).exec s ls = some s') :
    (∃ evs, s'.log = s.log ++ evs ∧ ∀ e ∈ evs, e.Vain) ∧
      ∀ r, s.accepted = some r → s'.accepted = some r ∧ s.sec.cmdQueue <+: s'.sec.cmdQueue := by
  have hrun : s.Drags s' := by
    induction ls generalizing s with
    | nil =>
      cases hs
      exact drags_quiet h rfl fun hidle r hr => ⟨hidle, hr, List.prefix_rfl⟩
    | cons l ls ih =>
      obtain ⟨s₁, h₁, hrest⟩ := Option.bind_eq_some_iff.mp hs
      exact (h.next h₁).trans (ih (h.next h₁).silent hrest)
  refine ⟨hrun.log, fun r hr => ?_⟩
  obtain ⟨hidle, hout⟩ := accepted_eq_some.mp hr
  obtain ⟨hidle', hout', hq⟩ := hrun.request hidle r hout
  exact ⟨accepted_eq_some.mpr ⟨hidle', hout'⟩, hq⟩

/-- The host fails during a request, with an EJECT behind it in the queue. The request is ended, and
the next one is accepted. -/
theorem failed_section_hangs_next :
    ∃ s : Sys (realDevice Nat), (system (realDevice Nat)).Reach s ∧ s.waiters = [0] ∧
      s.accepted = some 1 ∧ ∀ ls s', (system (realDevice Nat)).exec s ls = some s' →
        s'.accepted = some 1 := by
  let request : List (Label (realDevice Nat)) :=
    [.queueRq (some true) 3 ⟨fun _ => false, true, [⟨4096, 512⟩]⟩, .build, .splice]
  let answer (seek : Bool) : List (Label (realDevice Nat)) :=
    [.tick (.io (seekIo seek)), .snapshot, .readStatus, .handle]
  let run := request ++ .eject false ::
    (answer true ++ answer true ++ answer true ++ answer true ++ answer false ++ request)
  let s := ((system (realDevice Nat)).exec probedSection run).get (by decide +kernel)
  have hs : (system (realDevice Nat)).exec probedSection run = some s := (Option.some_get _).symm
  have hirq : s.irq = none := by decide +kernel
  have hsilent : s.Silent := ⟨by decide +kernel, by decide +kernel, by decide +kernel,
    by decide +kernel, (fun v hv => by cases hirq.symm.trans hv), by decide +kernel⟩
  have hout : s.accepted = some 1 := by decide +kernel
  exact ⟨s, Lts.reach_exec (.init probedSection_initial) hs, by decide +kernel, hout,
    fun ls s' hrun => ((failed_section_hangs hsilent hrun).2 1 hout).1⟩

end Zso.Tape

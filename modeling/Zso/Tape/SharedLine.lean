import Zso.Lib.Transition
import Zso.Tape.Section

/-!
# The shared line during probe

`request_irq` is called with IRQF_SHARED: from then on `tapedev_interrupt_handler` may run at any
time, also when another device has raised the line. The steps of the system are those of
`tapedev_probe` after `request_irq`, the device, the critical section at the start of the handler,
and the handler's look at one section after another.

* `lineInv_step`: what each step keeps.
* `shared_line_harmless`: a handler that finds nothing of its own does nothing, provided that it
  comes after the sections have been created.
* `foreign_interrupt_fails_probe`: one that comes earlier makes the probe of a good device fail, or
  follows a NULL pointer.
-/

namespace Zso.Tape
open Transition

/-- The bits of the device itself in the IRQ status. -/
def INIT_DONE : Nat := 0
def HW_ERROR : Nat := 1

/-- How far `tapedev_probe` has come. -/
inductive Phase
  | irqRequested
  | cleared
  | masked
  /-- the device is enabled, and probe waits for `init_done` -/
  | waiting
  | initialised
  /-- in `create_sections`, at section `sId`; it has returned if there is no such section -/
  | creating (sId : Nat)
  | unmasked
  /-- in `add_section_disks`, at section `sId`; probe has returned 0 if there is no such section -/
  | adding (sId : Nat)
  | failed
deriving DecidableEq, Repr

/-- A run of the handler that looks at the sections. -/
structure Invocation where
  /-- no unmasked bit was set -/
  foreign : Bool
  irStatus : BitVec 32
  numSections : Nat
  secId : Nat

structure ProbeSys where
  phase : Phase
  initDone : Int
  status : Int
  nSections : Nat
  /-- the pointers of `tape_dev->sections` that are set -/
  sections : Nat → Option Section
  /-- the device: its state, the IRQ registers and SECTIONS -/
  aadg : Nat
  irqAadf : BitVec 32
  irqMask : BitVec 32
  aadesNo : Nat
  irq : Option Invocation

/-- The SECTIONS register reads as 0 while the device is off. -/
def ProbeSys.sectionsReg (s : ProbeSys) : Nat := if s.aadg = 0 then 0 else s.aadesNo

/-- No unmasked bit of the IRQ status is set. -/
def ProbeSys.Foreign (s : ProbeSys) : Prop := s.irqAadf &&& ~~~s.irqMask = 0

instance (s : ProbeSys) : Decidable s.Foreign :=
  inferInstanceAs (Decidable (s.irqAadf &&& ~~~s.irqMask = 0))

/-- A section as `create_section` leaves it. -/
def newSection (info : SectionInfo) : Section :=
  ⟨info, NO_TAPE, 0, false, 0, 0, fun _ => 0, none, []⟩

/-- The mask for the time of the initialisation. -/
def initMask : BitVec 32 := (0xffffffff#32 ^^^ (1#32 <<< INIT_DONE)) ^^^ (1#32 <<< HW_ERROR)

/-- The mask for `numSections` sections. -/
def sectionsMask (numSections : Nat) : BitVec 32 :=
  (List.range numSections).foldl (fun m i => (m ^^^ irqBit .done i) ^^^ irqBit .error i) initMask

/-! ## Steps -/

/-- The clean-up of a probe that fails: the sections are gone, and the device is stopped. -/
def ProbeSys.fail (s : ProbeSys) : ProbeSys :=
  { s with
    phase := .failed
    sections := fun _ => none
    aadg := if s.aadg = 2 ∨ s.aadg = 4 then 3 else s.aadg }

/-- `_handle_tapedev_init` -/
def ProbeSys.handleTapedevInit (s : ProbeSys) : ProbeSys :=
  if s.irqAadf.getLsbD INIT_DONE then
    { s with irqAadf := s.irqAadf &&& ~~~(1#32 <<< INIT_DONE), initDone := 1 }
  else { s with initDone := -1 }

/-- The critical section at the start of `tapedev_interrupt_handler`. -/
def ProbeSys.enter (s : ProbeSys) : Option ProbeSys :=
  match s.irq with
  | some _ => none
  | none =>
    if s.initDone = 0 then some s.handleTapedevInit
    else if s.irqAadf.getLsbD HW_ERROR then
      some { s with irqAadf := s.irqAadf &&& ~~~(1#32 <<< HW_ERROR), status := -1 }
    else some { s with irq := some ⟨decide s.Foreign, s.irqAadf, s.sectionsReg, 0⟩ }

/-- One round of `handle_sections_interrupts`. The status and the tape number are those the
section's registers have. -/
def ProbeSys.visit (s : ProbeSys) (st : SectStatus) (tapeNo : Nat) : Option ProbeSys :=
  s.irq.bind fun v =>
    if v.secId < v.numSections then
      let s' := { s with irq := some { v with secId := v.secId + 1 } }
      match s.sections v.secId with
      | none => some s'
      | some sec =>
        let sectionDone := v.irStatus.getLsbD (16 + v.secId)
        let sectionError := v.irStatus.getLsbD (24 + v.secId)
        if sectionDone || sectionError then
          let h := handleSectionInterrupt sectionDone sectionError st tapeNo sec
          some { s' with
            sections := Function.update s.sections v.secId (some h.sec)
            irqAadf := h.clear.elim s.irqAadf fun q => s.irqAadf &&& ~~~irqBit q v.secId }
        else some s'
    else none

inductive ProbeLabel
  /-- `tapedev_probe`; the arguments are outcomes of calls -/
  | clearIrqs
  | maskIrqs
  | enable
  | wake
  | interrupted
  | readSections (alloc : Bool)
  | createSection (info : Option SectionInfo)
  | unmask
  | setBuffers (tape : Nat → Nat)
  | addDisk (ok : Bool)
  /-- the device -/
  | initDone
  | hwError
  | answer (i : Nat) (q : Irq)
  | stop
  /-- a submission or an ioctl on a disk that has been added -/
  | work (i : Nat) (sec : Section)
  /-- the handler -/
  | enter
  | visit (st : SectStatus) (tapeNo : Nat)
  | leave

def ProbeSys.next (s : ProbeSys) : ProbeLabel → Option ProbeSys
  | .clearIrqs =>
    if s.phase = .irqRequested then
      some { s with phase := .cleared, irqAadf := s.irqAadf &&& ~~~0xffffffff#32 }
    else none
  | .maskIrqs =>
    if s.phase = .cleared then some { s with phase := .masked, irqMask := initMask } else none
  | .enable =>
    if s.phase = .masked then
      some { s with phase := .waiting, aadg := if s.aadg = 0 then 1 else s.aadg }
    else none
  | .wake =>
    if s.phase = .waiting ∧ s.initDone ≠ 0 then
      some (if s.initDone < 0 ∨ s.status < 0 then s.fail else { s with phase := .initialised })
    else none
  | .interrupted => if s.phase = .waiting ∧ s.initDone = 0 then some s.fail else none
  | .readSections alloc =>
    if s.phase = .initialised then
      some (if s.sectionsReg = 0 ∨ s.sectionsReg > 8 ∨ alloc = false then s.fail
        else { s with phase := .creating 0, nSections := s.sectionsReg })
    else none
  | .createSection info =>
    match s.phase with
    | .creating sId =>
      if sId < s.nSections then
        some (info.elim s.fail fun info =>
          { s with
            phase := .creating (sId + 1)
            sections := Function.update s.sections sId (some (newSection info)) })
      else none
    | _ => none
  | .unmask =>
    if s.phase = .creating s.nSections then
      some { s with phase := .unmasked, irqMask := sectionsMask s.nSections }
    else none
  | .setBuffers tape =>
    if s.phase = .unmasked then
      some { s with
        phase := .adding 0
        sections := fun i => (s.sections i).map fun sec => { sec with currentTape := tape i } }
    else none
  | .addDisk ok =>
    match s.phase with
    | .adding sId =>
      if sId < s.nSections then some (if ok then { s with phase := .adding (sId + 1) } else s.fail)
      else none
    | _ => none
  | .initDone =>
    if s.aadg = 1 then some { s with aadg := 2, irqAadf := s.irqAadf ||| (1#32 <<< INIT_DONE) }
    else none
  | .hwError => some { s with irqAadf := s.irqAadf ||| (1#32 <<< HW_ERROR) }
  | .answer i q =>
    match s.phase with
    | .adding sId =>
      if i ≤ sId ∧ i < s.nSections then some { s with irqAadf := s.irqAadf ||| irqBit q i } else none
    | _ => none
  | .stop => if s.aadg = 3 then some { s with aadg := 0 } else none
  | .work i sec =>
    match s.phase with
    | .adding sId =>
      if i ≤ sId ∧ i < s.nSections then
        some { s with sections := Function.update s.sections i (some sec) }
      else none
    | _ => none
  | .enter => s.enter
  | .visit st tapeNo => s.visit st tapeNo
  | .leave => s.irq.bind fun v =>
    if v.secId < v.numSections then none else some { s with irq := none }

/-- `request_irq` has returned. The registers of the device are as somebody left them, and it is
off. -/
structure ProbeSys.Initial (s : ProbeSys) : Prop where
  phase : s.phase = .irqRequested
  initDone : s.initDone = 0
  status : s.status = 0
  aadg : s.aadg = 0
  irq : s.irq = none

def probing : Lts ProbeSys ProbeLabel := ⟨ProbeSys.Initial, ProbeSys.next⟩

/-! ## What a foreign interrupt may do -/

/-- `create_sections` has returned, and the sections are there. -/
def ProbeSys.SectionsCreated (s : ProbeSys) : Prop :=
  match s.phase with
  | .creating sId => sId = s.nSections
  | .unmasked => True
  | .adding _ => True
  | _ => False

/-- A handler that finds nothing of its own comes after the creation of the sections; one that finds
something before `init_done` is set finds INIT_DONE. No handler is at work when `add_section_disks`
fails. -/
def LineOk (s : ProbeSys) : ProbeLabel → Prop
  | .enter =>
    if s.Foreign then s.SectionsCreated
    else s.initDone = 0 → s.irqAadf.getLsbD INIT_DONE = true
  | .addDisk false => s.irq = none
  | _ => True

/-- A step of a handler that has found no unmasked bit. -/
def ForeignStep (s : ProbeSys) : ProbeLabel → Prop
  | .enter => s.Foreign
  | .visit _ _ => ∃ v, s.irq = some v ∧ v.foreign = true
  | _ => False

/-- The driver's state is unchanged, and a section that was looked at exists. -/
structure Harmless (s : ProbeSys) (l : ProbeLabel) (s' : ProbeSys) : Prop where
  initDone : s'.initDone = s.initDone
  status : s'.status = s.status
  sections : s'.sections = s.sections
  exist : ∀ st tapeNo v, l = .visit st tapeNo → s.irq = some v → (s.sections v.secId).isSome

/-! ## Bits of the registers -/

/-- No bit of a section is set. -/
def NoSectionBits (w : BitVec 32) : Prop := ∀ k, 16 ≤ k → w.getLsbD k = false

section
variable {w m : BitVec 32}

theorem NoSectionBits.set (h : NoSectionBits w) {b : Nat} (hb : b < 16) :
    NoSectionBits (w ||| (1#32 <<< b)) := by
  intro k hk
  rw [BitVec.getLsbD_or, h k hk, Bool.false_or, ← BitVec.twoPow_eq, BitVec.getLsbD_twoPow]
  simp
  omega

theorem NoSectionBits.clear (h : NoSectionBits w) (m : BitVec 32) : NoSectionBits (w &&& m) := by
  intro k hk
  rw [BitVec.getLsbD_and, h k hk, Bool.false_and]

theorem bit_of_foreign (h : w &&& ~~~m = 0) {k : Nat} (hk : k < 32) (hm : m.getLsbD k = false) :
    w.getLsbD k = false := by
  have hbit : (w &&& ~~~m).getLsbD k = false := by
    rw [h]
    exact BitVec.getLsbD_zero
  rwa [BitVec.getLsbD_and, BitVec.getLsbD_not, hm, decide_eq_true hk, Bool.not_false, Bool.and_true,
    Bool.and_true] at hbit

end

theorem initMask_clear {k : Nat} (hk : k < 2) : initMask.getLsbD k = false := by
  interval_cases k <;> decide

theorem sectionsMask_clear {n : Nat} (hn : n ≤ 8) :
    (∀ k < 2, (sectionsMask n).getLsbD k = false) ∧
    ∀ i < n, (sectionsMask n).getLsbD (16 + i) = false ∧ (sectionsMask n).getLsbD (24 + i) = false := by
  interval_cases n <;> decide

/-! ## The invariant -/

/-- The device has been started and has `nSections` sections. -/
structure ProbeSys.Sized (s : ProbeSys) : Prop where
  started : s.aadg = 1 ∨ s.aadg = 2
  sections : s.aadesNo = s.nSections
  few : s.nSections ≤ 8

/-- The first `n` sections exist. -/
def ProbeSys.Exist (s : ProbeSys) (n : Nat) : Prop := ∀ i < n, (s.sections i).isSome

/-- What holds in each phase. -/
def ProbeSys.AtPhase (s : ProbeSys) : Prop :=
  match s.phase with
  | .irqRequested => s.aadg = 0
  | .cleared => s.aadg = 0 ∧ NoSectionBits s.irqAadf
  | .masked => s.aadg = 0 ∧ NoSectionBits s.irqAadf ∧ s.irqMask = initMask
  | .waiting => NoSectionBits s.irqAadf ∧ s.irqMask = initMask ∧ (s.aadg = 1 ∨ s.aadg = 2) ∧
      (s.aadg = 2 → s.initDone = 0 → s.irqAadf.getLsbD INIT_DONE = true)
  | .initialised => NoSectionBits s.irqAadf ∧ s.irqMask = initMask ∧ (s.aadg = 1 ∨ s.aadg = 2) ∧
      s.initDone = 1
  | .creating sId => NoSectionBits s.irqAadf ∧ s.irqMask = initMask ∧ s.initDone = 1 ∧ s.Sized ∧
      sId ≤ s.nSections ∧ s.Exist sId
  | .unmasked => s.irqMask = sectionsMask s.nSections ∧ s.initDone = 1 ∧ s.Sized ∧
      s.Exist s.nSections
  | .adding _ => s.irqMask = sectionsMask s.nSections ∧ s.initDone = 1 ∧ s.Sized ∧
      s.Exist s.nSections
  | .failed => True

/-- A foreign handler at work has seen no bit of a section. -/
structure Invocation.Idle (v : Invocation) (s : ProbeSys) : Prop where
  created : s.SectionsCreated
  numSections : v.numSections = s.nSections
  bits : ∀ i < v.numSections, v.irStatus.getLsbD (16 + i) = false ∧
    v.irStatus.getLsbD (24 + i) = false

structure LineInv (s : ProbeSys) : Prop where
  initDone : s.initDone = 0 ∨ s.initDone = 1
  atPhase : s.AtPhase
  irq : ∀ v, s.irq = some v → v.foreign = true → v.Idle s

section
variable {s s' : ProbeSys} {l : ProbeLabel}

/-- What the phases in which the sections are there have in common. -/
theorem ProbeSys.AtPhase.created (h : s.AtPhase) (hc : s.SectionsCreated) :
    s.initDone = 1 ∧ s.Sized ∧ s.Exist s.nSections := by
  unfold ProbeSys.AtPhase at h
  unfold ProbeSys.SectionsCreated at hc
  cases hp : s.phase with
  | creating sId =>
    rw [hp] at h hc
    obtain rfl : sId = s.nSections := hc
    exact ⟨h.2.2.1, h.2.2.2.1, h.2.2.2.2.2⟩
  | unmasked =>
    rw [hp] at h
    exact h.2
  | adding sId =>
    rw [hp] at h
    exact h.2
  | _ =>
    rw [hp] at hc
    exact hc.elim

/-- A foreign interrupt that comes after the creation of the sections has no bit to show. -/
theorem ProbeSys.AtPhase.foreign (h : s.AtPhase) (hc : s.SectionsCreated) (hf : s.Foreign) :
    s.irqAadf.getLsbD HW_ERROR = false ∧
    ∀ i < s.nSections, s.irqAadf.getLsbD (16 + i) = false ∧ s.irqAadf.getLsbD (24 + i) = false := by
  obtain ⟨-, hsized, -⟩ := h.created hc
  have hn := hsized.few
  unfold ProbeSys.AtPhase at h
  unfold ProbeSys.SectionsCreated at hc
  have hmask : s.irqMask = sectionsMask s.nSections → s.irqAadf.getLsbD HW_ERROR = false ∧
      ∀ i < s.nSections, s.irqAadf.getLsbD (16 + i) = false ∧
        s.irqAadf.getLsbD (24 + i) = false := by
    intro hm
    obtain ⟨hown, hsect⟩ := sectionsMask_clear hn
    rw [← hm] at hown hsect
    exact ⟨bit_of_foreign hf (by decide) (hown 1 (by decide)), fun i hi =>
      ⟨bit_of_foreign hf (by omega) (hsect i hi).1, bit_of_foreign hf (by omega) (hsect i hi).2⟩⟩
  cases hp : s.phase with
  | creating sId =>
    rw [hp] at h
    refine ⟨bit_of_foreign hf (by decide) ?_, fun i _ => ⟨h.1 _ (by omega), h.1 _ (by omega)⟩⟩
    rw [h.2.1]
    exact initMask_clear (by decide)
  | unmasked =>
    rw [hp] at h
    exact hmask h.1
  | adding sId =>
    rw [hp] at h
    exact hmask h.1
  | _ =>
    rw [hp] at hc
    exact hc.elim

/-- A step within a phase. -/
theorem ProbeSys.AtPhase.mono (h : s.AtPhase) (hphase : s'.phase = s.phase)
    (hn : s'.nSections = s.nSections) (hno : s'.aadesNo = s.aadesNo) (hmask : s'.irqMask = s.irqMask)
    (haadg : s'.aadg = s.aadg) (hbits : NoSectionBits s.irqAadf → NoSectionBits s'.irqAadf)
    (hinit : s'.initDone = s.initDone ∧
        (s.irqAadf.getLsbD INIT_DONE = true → s'.irqAadf.getLsbD INIT_DONE = true) ∨
      s'.initDone = 1)
    (hsec : ∀ i, (s.sections i).isSome → (s'.sections i).isSome) : s'.AtPhase := by
  have hone : s.initDone = 1 → s'.initDone = 1 := fun h => hinit.elim (fun h' => h'.1.trans h) id
  have hsized : s.Sized → s'.Sized := fun h =>
    ⟨by rw [haadg]; exact h.started, by rw [hno, hn]; exact h.sections, by rw [hn]; exact h.few⟩
  have hexist : ∀ k, s.Exist k → s'.Exist k := fun k h i hi => hsec i (h i hi)
  unfold ProbeSys.AtPhase at h ⊢
  rw [hphase, hn, hmask, haadg]
  cases hp : s.phase with
  | irqRequested =>
    rw [hp] at h
    exact h
  | cleared =>
    rw [hp] at h
    exact ⟨h.1, hbits h.2⟩
  | masked =>
    rw [hp] at h
    exact ⟨h.1, hbits h.2.1, h.2.2⟩
  | waiting =>
    rw [hp] at h
    refine ⟨hbits h.1, h.2.1, h.2.2.1, fun h2 h0 => ?_⟩
    rcases hinit with ⟨hi, hbit⟩ | hi
    · exact hbit (h.2.2.2 h2 (hi ▸ h0))
    · rw [hi] at h0
      cases h0
  | initialised =>
    rw [hp] at h
    exact ⟨hbits h.1, h.2.1, h.2.2.1, hone h.2.2.2⟩
  | creating sId =>
    rw [hp] at h
    exact ⟨hbits h.1, h.2.1, hone h.2.2.1, hsized h.2.2.2.1, h.2.2.2.2.1, hexist _ h.2.2.2.2.2⟩
  | unmasked =>
    rw [hp] at h
    exact ⟨h.1, hone h.2.1, hsized h.2.2.1, hexist _ h.2.2.2⟩
  | adding sId =>
    rw [hp] at h
    exact ⟨h.1, hone h.2.1, hsized h.2.2.1, hexist _ h.2.2.2⟩
  | failed => trivial

/-- What the start of the handler can do. -/
theorem LineInv.enter_cases (h : LineInv s) (hg : LineOk s .enter) (hs : s.enter = some s') :
    s.irq = none ∧
    ((¬ s.Foreign ∧
        s' = { s with irqAadf := s.irqAadf &&& ~~~(1#32 <<< INIT_DONE), initDone := 1 }) ∨
     (¬ s.Foreign ∧ s.initDone = 1 ∧
        s' = { s with irqAadf := s.irqAadf &&& ~~~(1#32 <<< HW_ERROR), status := -1 }) ∨
     (s.initDone = 1 ∧
        s' = { s with irq := some ⟨decide s.Foreign, s.irqAadf, s.sectionsReg, 0⟩ })) := by
  unfold ProbeSys.enter at hs
  split at hs
  · cases hs
  · next hirq =>
    refine ⟨hirq, ?_⟩
    have hforeign : s.Foreign → s.SectionsCreated := fun hf => by
      rw [LineOk, if_pos hf] at hg
      exact hg
    split at hs
    · next hzero =>
      have hf : ¬ s.Foreign := by
        intro hf
        have := (h.atPhase.created (hforeign hf)).1
        omega
      rw [LineOk, if_neg hf] at hg
      rw [ProbeSys.handleTapedevInit, if_pos (hg hzero)] at hs
      exact .inl ⟨hf, (Option.some.inj hs).symm⟩
    · next hnz =>
      have hone := h.initDone.resolve_left hnz
      split at hs
      · next hhw =>
        refine .inr (.inl ⟨fun hf => ?_, hone, (Option.some.inj hs).symm⟩)
        rw [(h.atPhase.foreign (hforeign hf) hf).1] at hhw
        cases hhw
      · exact .inr (.inr ⟨hone, (Option.some.inj hs).symm⟩)

/-- What a look at a section can do. -/
theorem ProbeSys.visit_cases {st : SectStatus} {tapeNo : Nat} (hs : s.visit st tapeNo = some s') :
    ∃ v, s.irq = some v ∧ v.secId < v.numSections ∧
      (s' = { s with irq := some { v with secId := v.secId + 1 } } ∨
       (v.irStatus.getLsbD (16 + v.secId) = true ∨ v.irStatus.getLsbD (24 + v.secId) = true) ∧
        ∃ sec, ∃ c : Option Irq, s' = { s with
          irq := some { v with secId := v.secId + 1 }
          sections := Function.update s.sections v.secId (some sec)
          irqAadf := c.elim s.irqAadf fun q => s.irqAadf &&& ~~~irqBit q v.secId }) := by
  unfold ProbeSys.visit at hs
  obtain ⟨v, hv, hs⟩ := Option.bind_eq_some_iff.mp hs
  split at hs
  · next hlt =>
    refine ⟨v, hv, hlt, ?_⟩
    dsimp only at hs
    split at hs
    · exact .inl (Option.some.inj hs).symm
    · next sec hsec =>
      split at hs
      · next hbits => exact .inr ⟨by simpa using hbits, _, _, (Option.some.inj hs).symm⟩
      · exact .inl (Option.some.inj hs).symm
  · cases hs

/-- A foreign handler that looks at a section finds it, and does nothing. -/
theorem Invocation.Idle.visit {v : Invocation} (hv : v.Idle s) (h : s.AtPhase) (hirq : s.irq = some v)
    {st : SectStatus} {tapeNo : Nat} (hs : s.visit st tapeNo = some s') :
    s' = { s with irq := some { v with secId := v.secId + 1 } } ∧ (s.sections v.secId).isSome := by
  obtain ⟨v', hv', hlt, hcases⟩ := ProbeSys.visit_cases hs
  obtain rfl := Option.some.inj (hirq.symm.trans hv')
  refine ⟨hcases.resolve_right ?_, ?_⟩
  · rintro ⟨hbits, -⟩
    obtain ⟨h1, h2⟩ := hv.bits v.secId hlt
    rw [h1, h2] at hbits
    simp at hbits
  · exact (h.created hv.created).2.2 v.secId (hv.numSections ▸ hlt)

theorem irqBit_low (q : Irq) (i : Nat) {k : Nat} (hk : k < 16) : (irqBit q i).getLsbD k = false := by
  cases q <;> simp [irqBit] <;> omega

theorem clear_irqBit (w : BitVec 32) (q : Irq) (i : Nat) {k : Nat} (hk : k < 16) :
    (w &&& ~~~irqBit q i).getLsbD k = w.getLsbD k := by
  rw [BitVec.getLsbD_and, BitVec.getLsbD_not, irqBit_low q i hk]
  simp
  omega

/-- The handler keeps the invariant. -/
theorem LineInv.enter (h : LineInv s) (hg : LineOk s .enter) (hs : s.enter = some s') :
    LineInv s' := by
  obtain ⟨hirq, hcases⟩ := h.enter_cases hg hs
  rcases hcases with ⟨-, rfl⟩ | ⟨-, hone, rfl⟩ | ⟨hone, rfl⟩
  · refine ⟨.inr rfl, h.atPhase.mono rfl rfl rfl rfl rfl (fun h => h.clear _) (.inr rfl) fun _ h => h,
      fun v hv => ?_⟩
    cases hirq.symm.trans hv
  · refine ⟨.inr hone, h.atPhase.mono rfl rfl rfl rfl rfl (fun h => h.clear _) (.inr hone) fun _ h => h,
      fun v hv => ?_⟩
    cases hirq.symm.trans hv
  · refine ⟨.inr hone, h.atPhase.mono rfl rfl rfl rfl rfl id (.inr hone) fun _ h => h,
      fun v hv hforeign => ?_⟩
    obtain rfl := Option.some.inj hv
    have hf : s.Foreign := of_decide_eq_true hforeign
    rw [LineOk, if_pos hf] at hg
    obtain ⟨-, hsized, -⟩ := h.atPhase.created hg
    have hreg : s.sectionsReg = s.nSections := by
      rw [ProbeSys.sectionsReg, if_neg (by have := hsized.started; omega), hsized.sections]
    refine ⟨hg, hreg, fun i hi => (h.atPhase.foreign hg hf).2 i ?_⟩
    exact hreg ▸ hi

theorem LineInv.visit (h : LineInv s) {st : SectStatus} {tapeNo : Nat}
    (hs : s.visit st tapeNo = some s') : LineInv s' := by
  obtain ⟨v, hirq, hlt, hcases⟩ := ProbeSys.visit_cases hs
  have hkeep : ∀ v', some { v with secId := v.secId + 1 } = some v' → v'.foreign = true → v'.Idle s := by
    intro v' hv' hforeign
    obtain rfl := Option.some.inj hv'
    obtain ⟨h1, h2, h3⟩ := h.irq v hirq hforeign
    exact ⟨h1, h2, h3⟩
  rcases hcases with rfl | ⟨-, sec, c, rfl⟩
  · refine ⟨h.initDone, h.atPhase.mono rfl rfl rfl rfl rfl id (.inl ⟨rfl, id⟩) fun _ h => h,
      fun v' hv' hf => ?_⟩
    obtain ⟨h1, h2, h3⟩ := hkeep v' hv' hf
    exact ⟨h1, h2, h3⟩
  · refine ⟨h.initDone, h.atPhase.mono rfl rfl rfl rfl rfl (fun hb => ?_) (.inl ⟨rfl, fun hb => ?_⟩)
      (fun i hi => ?_), fun v' hv' hf => ?_⟩
    · cases c with
      | none => exact hb
      | some q => exact hb.clear _
    · cases c with
      | none => exact hb
      | some q => exact (clear_irqBit _ q _ (by decide)).trans hb
    · by_cases hi' : i = v.secId
      · subst hi'
        simp
      · simpa [Function.update_of_ne hi'] using hi
    · obtain ⟨h1, h2, h3⟩ := hkeep v' hv' hf
      exact ⟨h1, h2, h3⟩

/-- No foreign handler is at work. -/
def ProbeSys.NoForeign (s : ProbeSys) : Prop := ∀ v, s.irq = some v → v.foreign = true → False

/-- The phases before `create_sections`. -/
def Phase.early : List Phase := [.irqRequested, .cleared, .masked, .waiting, .initialised]

theorem LineInv.noForeign (h : LineInv s) (hc : ¬ s.SectionsCreated) : s.NoForeign :=
  fun v hv hf => hc (h.irq v hv hf).created

theorem LineInv.noForeign_early (h : LineInv s) (hp : s.phase ∈ Phase.early) : s.NoForeign := by
  refine h.noForeign fun hc => ?_
  unfold ProbeSys.SectionsCreated at hc
  cases hphase : s.phase <;> simp_all [Phase.early]

theorem LineInv.fail (h : LineInv s) (hno : s.NoForeign) : LineInv s.fail :=
  ⟨h.initDone, trivial, fun v hv hf => (hno v hv hf).elim⟩

/-- `tapedev_probe` goes on while no foreign handler is at work. -/
theorem LineInv.goes_on (h : LineInv s) (hno : s.NoForeign) (hphase : s'.AtPhase)
    (hinit : s'.initDone = s.initDone) (hirq : s'.irq = s.irq) : LineInv s' :=
  ⟨hinit ▸ h.initDone, hphase, fun v hv hf => (hno v (hirq ▸ hv) hf).elim⟩

/-- `tapedev_probe` goes on after the creation of the sections. -/
theorem LineInv.goes_on_late (h : LineInv s) (hphase : s'.AtPhase) (hc : s'.SectionsCreated)
    (hinit : s'.initDone = s.initDone) (hirq : s'.irq = s.irq) (hn : s'.nSections = s.nSections) :
    LineInv s' := by
  refine ⟨hinit ▸ h.initDone, hphase, fun v hv hf => ?_⟩
  obtain ⟨-, h2, h3⟩ := h.irq v (hirq ▸ hv) hf
  exact ⟨hc, h2.trans hn.symm, h3⟩

/-- A foreign handler at work does not care about the device's registers. -/
theorem LineInv.registers (h : LineInv s) (hphase : s'.AtPhase) (heq : s'.phase = s.phase)
    (hinit : s'.initDone = s.initDone) (hirq : s'.irq = s.irq) (hn : s'.nSections = s.nSections) :
    LineInv s' := by
  refine ⟨hinit ▸ h.initDone, hphase, fun v hv hf => ?_⟩
  obtain ⟨h1, h2, h3⟩ := h.irq v (hirq ▸ hv) hf
  refine ⟨?_, h2.trans hn.symm, h3⟩
  rw [ProbeSys.SectionsCreated, heq, hn]
  exact h1

/-- Only a failed probe has stopped the device. -/
theorem ProbeSys.AtPhase.failed_of_stopping (h : s.AtPhase) (hthree : s.aadg = 3) :
    s.phase = .failed := by
  have hstarted : ¬ (s.aadg = 1 ∨ s.aadg = 2) := by omega
  have hoff : s.aadg ≠ 0 := by omega
  unfold ProbeSys.AtPhase at h
  cases hphase : s.phase with
  | irqRequested => exact (hoff (by simpa [hphase] using h)).elim
  | cleared => exact (hoff (by rw [hphase] at h; exact h.1)).elim
  | masked => exact (hoff (by rw [hphase] at h; exact h.1)).elim
  | waiting => exact (hstarted (by rw [hphase] at h; exact h.2.2.1)).elim
  | initialised => exact (hstarted (by rw [hphase] at h; exact h.2.2.1)).elim
  | creating sId => exact (hstarted (by rw [hphase] at h; exact h.2.2.2.1.started)).elim
  | unmasked => exact (hstarted (by rw [hphase] at h; exact h.2.2.1.started)).elim
  | adding sId => exact (hstarted (by rw [hphase] at h; exact h.2.2.1.started)).elim
  | failed => rfl

/-- The device has come up. -/
theorem LineInv.deviceInit (h : LineInv s) (hone : s.aadg = 1) :
    LineInv { s with aadg := 2, irqAadf := s.irqAadf ||| (1#32 <<< INIT_DONE) } := by
  have hp := h.atPhase
  have hset : NoSectionBits s.irqAadf → NoSectionBits (s.irqAadf ||| (1#32 <<< INIT_DONE)) :=
    fun hb => hb.set (by decide)
  refine h.registers ?_ rfl rfl rfl rfl
  unfold ProbeSys.AtPhase at hp ⊢
  cases hphase : s.phase with
  | irqRequested =>
    rw [hphase] at hp
    cases hone.symm.trans hp
  | cleared =>
    rw [hphase] at hp
    cases hone.symm.trans hp.1
  | masked =>
    rw [hphase] at hp
    cases hone.symm.trans hp.1
  | waiting =>
    rw [hphase] at hp
    refine ⟨hset hp.1, hp.2.1, .inr rfl, fun _ _ => ?_⟩
    rw [BitVec.getLsbD_or, Bool.or_eq_true]
    exact .inr (by decide)
  | initialised =>
    rw [hphase] at hp
    exact ⟨hset hp.1, hp.2.1, .inr rfl, hp.2.2.2⟩
  | creating sId =>
    rw [hphase] at hp
    obtain ⟨hbits, hmask, hinit, hsized, hle, hexist⟩ := hp
    exact ⟨hset hbits, hmask, hinit, ⟨.inr rfl, hsized.2, hsized.3⟩, hle, hexist⟩
  | unmasked =>
    rw [hphase] at hp
    exact ⟨hp.1, hp.2.1, ⟨.inr rfl, hp.2.2.1.2, hp.2.2.1.3⟩, hp.2.2.2⟩
  | adding sId =>
    rw [hphase] at hp
    exact ⟨hp.1, hp.2.1, ⟨.inr rfl, hp.2.2.1.2, hp.2.2.1.3⟩, hp.2.2.2⟩
  | failed => trivial

/-! ## The steps of probe -/

/-- The IRQ status is cleared. -/
theorem LineInv.clearIrqs (h : LineInv s) (hs : s.next .clearIrqs = some s') : LineInv s' := by
  have hp := h.atPhase
  unfold ProbeSys.AtPhase at hp
  obtain ⟨hphase, rfl⟩ : s.phase = .irqRequested ∧
      { s with phase := .cleared, irqAadf := s.irqAadf &&& ~~~0xffffffff#32 } = s' := by
    simpa [ProbeSys.next] using hs
  rw [hphase] at hp
  refine h.goes_on (h.noForeign_early (by rw [hphase]; decide)) ⟨hp, fun k _ => ?_⟩ rfl rfl
  show (s.irqAadf &&& 0#32).getLsbD k = false
  rw [BitVec.and_zero, BitVec.getLsbD_zero]

/-- All bits but those of the device itself are masked. -/
theorem LineInv.maskIrqs (h : LineInv s) (hs : s.next .maskIrqs = some s') : LineInv s' := by
  have hp := h.atPhase
  unfold ProbeSys.AtPhase at hp
  obtain ⟨hphase, rfl⟩ : s.phase = .cleared ∧
      { s with phase := .masked, irqMask := initMask } = s' := by
    simpa [ProbeSys.next] using hs
  rw [hphase] at hp
  exact h.goes_on (h.noForeign_early (by rw [hphase]; decide)) ⟨hp.1, hp.2, rfl⟩ rfl rfl

/-- The device is switched on. -/
theorem LineInv.enable (h : LineInv s) (hs : s.next .enable = some s') : LineInv s' := by
  have hp := h.atPhase
  unfold ProbeSys.AtPhase at hp
  obtain ⟨hphase, rfl⟩ : s.phase = .masked ∧
      { s with phase := .waiting, aadg := if s.aadg = 0 then 1 else s.aadg } = s' := by
    simpa [ProbeSys.next] using hs
  rw [hphase] at hp
  obtain ⟨hoff, hbits, hmask⟩ := hp
  refine h.goes_on (h.noForeign_early (by rw [hphase]; decide)) ⟨hbits, hmask, ?_, fun h2 => ?_⟩ rfl rfl
  · exact .inl (if_pos hoff)
  · rw [if_pos hoff] at h2
    cases h2

/-- The wait for `init_done` is over. -/
theorem LineInv.wake (h : LineInv s) (hs : s.next .wake = some s') : LineInv s' := by
  have hp := h.atPhase
  unfold ProbeSys.AtPhase at hp
  obtain ⟨⟨hphase, hnz⟩, rfl⟩ : (s.phase = .waiting ∧ s.initDone ≠ 0) ∧
      (if s.initDone < 0 ∨ s.status < 0 then s.fail else { s with phase := .initialised }) = s' := by
    simpa [ProbeSys.next] using hs
  have hno := h.noForeign_early (by rw [hphase]; decide)
  rw [hphase] at hp
  split
  · exact h.fail hno
  · exact h.goes_on hno ⟨hp.1, hp.2.1, hp.2.2.1, h.initDone.resolve_left hnz⟩ rfl rfl

/-- A signal ends the wait. -/
theorem LineInv.interrupted (h : LineInv s) (hs : s.next .interrupted = some s') : LineInv s' := by
  obtain ⟨⟨hphase, -⟩, rfl⟩ : (s.phase = .waiting ∧ s.initDone = 0) ∧ s.fail = s' := by
    simpa [ProbeSys.next] using hs
  exact h.fail (h.noForeign_early (by rw [hphase]; decide))

/-- The sections are counted. -/
theorem LineInv.readSections (h : LineInv s) {alloc : Bool}
    (hs : s.next (.readSections alloc) = some s') : LineInv s' := by
  have hp := h.atPhase
  unfold ProbeSys.AtPhase at hp
  obtain ⟨hphase, rfl⟩ : s.phase = .initialised ∧
      (if s.sectionsReg = 0 ∨ s.sectionsReg > 8 ∨ alloc = false then s.fail
        else { s with phase := .creating 0, nSections := s.sectionsReg }) = s' := by
    simpa [ProbeSys.next] using hs
  have hno := h.noForeign_early (by rw [hphase]; decide)
  rw [hphase] at hp
  obtain ⟨hbits, hmask, hstarted, hone⟩ := hp
  split
  · exact h.fail hno
  · next hok =>
    have hreg : s.sectionsReg = s.aadesNo := if_neg (by omega)
    have hfew : s.sectionsReg ≤ 8 := by
      by_contra hbig
      exact hok (.inr (.inl (by omega)))
    exact h.goes_on hno ⟨hbits, hmask, hone, ⟨hstarted, hreg.symm, hfew⟩, Nat.zero_le _,
      fun i hi => absurd hi (Nat.not_lt_zero i)⟩ rfl rfl

/-- One round of `create_sections`. -/
theorem LineInv.createSection (h : LineInv s) {info : Option SectionInfo}
    (hs : s.next (.createSection info) = some s') : LineInv s' := by
  have hp := h.atPhase
  unfold ProbeSys.AtPhase at hp
  simp only [ProbeSys.next] at hs
  split at hs
  · next sId hphase =>
    split at hs
    · next hlt =>
      have hno : s.NoForeign := h.noForeign fun hc => by
        rw [ProbeSys.SectionsCreated, hphase] at hc
        omega
      rw [hphase] at hp
      obtain ⟨hbits, hmask, hone, hsized, -, hexist⟩ := hp
      cases info with
      | none =>
        cases hs
        exact h.fail hno
      | some info =>
        cases hs
        refine h.goes_on hno ⟨hbits, hmask, hone, ⟨hsized.1, hsized.2, hsized.3⟩, hlt, ?_⟩ rfl rfl
        intro i hi
        by_cases hi' : i = sId
        · subst hi'
          simp
        · simpa [Function.update_of_ne hi'] using hexist i (by omega)
    · cases hs
  · cases hs

/-- The bits of the sections are unmasked. -/
theorem LineInv.unmask (h : LineInv s) (hs : s.next .unmask = some s') : LineInv s' := by
  have hp := h.atPhase
  unfold ProbeSys.AtPhase at hp
  obtain ⟨hphase, rfl⟩ : s.phase = .creating s.nSections ∧
      { s with phase := .unmasked, irqMask := sectionsMask s.nSections } = s' := by
    simpa [ProbeSys.next] using hs
  rw [hphase] at hp
  obtain ⟨-, -, hone, hsized, -, hexist⟩ := hp
  exact h.goes_on_late ⟨rfl, hone, ⟨hsized.1, hsized.2, hsized.3⟩, hexist⟩ trivial rfl rfl rfl

/-- The sections get their page tables, and learn which tape is loaded. -/
theorem LineInv.setBuffers (h : LineInv s) {tape : Nat → Nat}
    (hs : s.next (.setBuffers tape) = some s') : LineInv s' := by
  have hp := h.atPhase
  unfold ProbeSys.AtPhase at hp
  obtain ⟨hphase, rfl⟩ : s.phase = .unmasked ∧ { s with
      phase := .adding 0
      sections := fun i =>
        (s.sections i).map fun sec => { sec with currentTape := tape i } } = s' := by
    simpa [ProbeSys.next] using hs
  rw [hphase] at hp
  obtain ⟨hmask, hone, hsized, hexist⟩ := hp
  refine h.goes_on_late ⟨hmask, hone, ⟨hsized.1, hsized.2, hsized.3⟩, fun i hi => ?_⟩ trivial rfl rfl
    rfl
  simpa using hexist i hi

/-- One round of `add_section_disks`. -/
theorem LineInv.addDisk (h : LineInv s) {ok : Bool} (hg : LineOk s (.addDisk ok))
    (hs : s.next (.addDisk ok) = some s') : LineInv s' := by
  have hp := h.atPhase
  unfold ProbeSys.AtPhase at hp
  simp only [ProbeSys.next] at hs
  split at hs
  · next sId hphase =>
    split at hs
    · rw [hphase] at hp
      obtain ⟨hmask, hone, hsized, hexist⟩ := hp
      cases ok with
      | false =>
        cases hs
        exact h.fail fun v hv _ => by
          have hidle : s.irq = none := hg
          cases hidle.symm.trans hv
      | true =>
        cases hs
        exact h.goes_on_late ⟨hmask, hone, ⟨hsized.1, hsized.2, hsized.3⟩, hexist⟩ trivial rfl rfl rfl
    · cases hs
  · cases hs

theorem LineInv.hwError (h : LineInv s) (hs : s.next .hwError = some s') : LineInv s' := by
  cases hs
  refine h.registers (h.atPhase.mono rfl rfl rfl rfl rfl (fun hb => hb.set (by decide))
    (.inl ⟨rfl, fun hb => ?_⟩) fun _ h => h) rfl rfl rfl rfl
  rw [BitVec.getLsbD_or, hb, Bool.true_or]

theorem LineInv.answer (h : LineInv s) {i : Nat} {q : Irq}
    (hs : s.next (.answer i q) = some s') : LineInv s' := by
  have hp := h.atPhase
  unfold ProbeSys.AtPhase at hp
  simp only [ProbeSys.next] at hs
  split at hs
  · next sId hphase =>
    split at hs
    · cases hs
      rw [hphase] at hp
      obtain ⟨hmask, hone, hsized, hexist⟩ := hp
      refine h.registers ?_ rfl rfl rfl rfl
      rw [ProbeSys.AtPhase, hphase]
      exact ⟨hmask, hone, ⟨hsized.1, hsized.2, hsized.3⟩, hexist⟩
    · cases hs
  · cases hs

theorem LineInv.stop (h : LineInv s) (hs : s.next .stop = some s') : LineInv s' := by
  obtain ⟨hthree, rfl⟩ : s.aadg = 3 ∧ { s with aadg := 0 } = s' := by
    simpa [ProbeSys.next] using hs
  have hfailed : s.phase = .failed := h.atPhase.failed_of_stopping hthree
  refine h.registers ?_ rfl rfl rfl rfl
  rw [ProbeSys.AtPhase, hfailed]
  trivial

theorem LineInv.work (h : LineInv s) {i : Nat} {sec : Section}
    (hs : s.next (.work i sec) = some s') : LineInv s' := by
  simp only [ProbeSys.next] at hs
  split at hs
  · next sId hphase =>
    split at hs
    · cases hs
      refine h.registers (h.atPhase.mono rfl rfl rfl rfl rfl id (.inl ⟨rfl, id⟩) fun j hj => ?_) rfl rfl
        rfl rfl
      by_cases hji : j = i
      · subst hji
        simp
      · simpa [Function.update_of_ne hji] using hj
    · cases hs
  · cases hs

theorem LineInv.leave (h : LineInv s) (hs : s.next .leave = some s') : LineInv s' := by
  simp only [ProbeSys.next] at hs
  obtain ⟨v, -, hs⟩ := Option.bind_eq_some_iff.mp hs
  split at hs
  · cases hs
  · cases hs
    exact ⟨h.initDone, h.atPhase.mono rfl rfl rfl rfl rfl id (.inl ⟨rfl, id⟩) fun _ h => h,
      (by rintro v ⟨⟩)⟩

theorem lineInv_step (h : LineInv s) (hg : LineOk s l) (hs : s.next l = some s') : LineInv s' := by
  cases l with
  | clearIrqs => exact h.clearIrqs hs
  | maskIrqs => exact h.maskIrqs hs
  | enable => exact h.enable hs
  | wake => exact h.wake hs
  | interrupted => exact h.interrupted hs
  | readSections alloc => exact h.readSections hs
  | createSection info => exact h.createSection hs
  | unmask => exact h.unmask hs
  | setBuffers tape => exact h.setBuffers hs
  | addDisk ok => exact h.addDisk hg hs
  | initDone =>
    obtain ⟨hone, rfl⟩ : s.aadg = 1 ∧
        { s with aadg := 2, irqAadf := s.irqAadf ||| (1#32 <<< INIT_DONE) } = s' := by
      simpa [ProbeSys.next] using hs
    exact h.deviceInit hone
  | hwError => exact h.hwError hs
  | answer i q => exact h.answer hs
  | stop => exact h.stop hs
  | work i sec => exact h.work hs
  | enter => exact h.enter hg hs
  | visit st tapeNo => exact h.visit hs
  | leave => exact h.leave hs

theorem ProbeSys.Initial.lineInv (h : s.Initial) : LineInv s := by
  refine ⟨.inl h.initDone, ?_, fun v hv => ?_⟩
  · rw [ProbeSys.AtPhase, h.phase]
    exact h.aadg
  · cases h.irq.symm.trans hv

theorem lineInv_reachOn (h : probing.ReachOn LineOk s) : LineInv s :=
  Lts.invariantOn (M := probing) (fun _ hi => ProbeSys.Initial.lineInv hi)
    (fun _ _ _ _ hinv hg hs => lineInv_step hinv hg hs) h

/-- **A foreign interrupt is harmless** in a run in which it comes after the creation of the
sections: `init_done`, `status` and the sections stay as they are, and only sections that exist are
looked at. `init_done` never becomes negative, and the first interrupt sets it to 1. If the device
has come up and the driver does not know, the interrupt is pending. -/
theorem shared_line_harmless (h : probing.ReachOn LineOk s) :
    (∀ l s', LineOk s l → probing.next s l = some s' → ForeignStep s l → Harmless s l s') ∧
    (s.initDone = 0 ∨ s.initDone = 1) ∧
    (∀ s', LineOk s .enter → probing.next s .enter = some s' → s'.initDone = 1) ∧
    (s.phase = .waiting → s.aadg = 2 → s.initDone = 0 → ¬ s.Foreign) := by
  have hinv := lineInv_reachOn h
  refine ⟨fun l s' hg hs hf => ?_, hinv.initDone, fun s' hg hs => ?_, fun hp h2 h0 hf => ?_⟩
  · cases l with
    | enter =>
      obtain ⟨-, ⟨hnf, -⟩ | ⟨hnf, -⟩ | ⟨-, rfl⟩⟩ := hinv.enter_cases hg hs
      · exact (hnf hf).elim
      · exact (hnf hf).elim
      · exact ⟨rfl, rfl, rfl, by rintro _ _ _ ⟨⟩⟩
    | visit st tapeNo =>
      obtain ⟨v, hirq, hforeign⟩ := hf
      obtain ⟨rfl, hsome⟩ := (hinv.irq v hirq hforeign).visit hinv.atPhase hirq hs
      refine ⟨rfl, rfl, rfl, fun st' tapeNo' v' hl hv' => ?_⟩
      obtain rfl := Option.some.inj (hirq.symm.trans hv')
      exact hsome
    | _ => exact hf.elim
  · obtain ⟨-, ⟨-, rfl⟩ | ⟨-, hone, rfl⟩ | ⟨hone, rfl⟩⟩ := hinv.enter_cases hg hs
    · rfl
    · exact hone
    · exact hone
  · have hphase := hinv.atPhase
    rw [ProbeSys.AtPhase, hp] at hphase
    have hbit := hphase.2.2.2 h2 h0
    rw [bit_of_foreign hf (by decide) (hphase.2.1 ▸ initMask_clear (by decide))] at hbit
    cases hbit

end

/-- A device with one section after a reset, when `request_irq` has returned. -/
def resetDevice : ProbeSys where
  phase := .irqRequested
  initDone := 0
  status := 0
  nSections := 0
  sections _ := none
  aadg := 0
  irqAadf := 0
  irqMask := 0
  aadesNo := 1
  irq := none

theorem resetDevice_initial : resetDevice.Initial := ⟨rfl, rfl, rfl, rfl, rfl⟩

/-- The device raises INIT_DONE, and another device interrupts when the section has been created. -/
theorem shared_line_harmless_created :
    ∃ s s', probing.ReachOn LineOk s ∧ s.phase = .creating 1 ∧ (s.irq.map Invocation.foreign) = some true ∧
      probing.next s (.visit .idle 0) = some s' ∧ Harmless s (.visit .idle 0) s' ∧ s.initDone = 1 := by
  let info : SectionInfo := twoTapes
  let s₁ := (probing.exec resetDevice [.clearIrqs, .maskIrqs, .enable, .initDone]).get (by decide +kernel)
  have hr₁ : probing.ReachOn LineOk s₁ :=
    (Lts.ReachOn.init resetDevice_initial).exec (by simp [LineOk]) (Option.some_get _).symm
  let s₂ := (probing.next s₁ .enter).get (by decide +kernel)
  have hg₁ : LineOk s₁ .enter := by
    rw [LineOk, if_neg (by decide +kernel)]
    exact fun _ => by decide +kernel
  have hr₂ : probing.ReachOn LineOk s₂ := hr₁.step hg₁ (Option.some_get _).symm
  let s₃ := (probing.exec s₂ [.wake, .readSections true, .createSection (some info)]).get
    (by decide +kernel)
  have hr₃ : probing.ReachOn LineOk s₃ := hr₂.exec (by simp [LineOk]) (Option.some_get _).symm
  let s := (probing.next s₃ .enter).get (by decide +kernel)
  have hg₃ : LineOk s₃ .enter := by
    rw [LineOk, if_pos (by decide +kernel), ProbeSys.SectionsCreated,
      show s₃.phase = .creating 1 by decide +kernel]
    decide +kernel
  have hr : probing.ReachOn LineOk s := hr₃.step hg₃ (Option.some_get _).symm
  have hforeign : s.irq.map Invocation.foreign = some true := by decide +kernel
  let s' := (probing.next s (.visit .idle 0)).get (by decide +kernel)
  have hs' : probing.next s (.visit .idle 0) = some s' := (Option.some_get _).symm
  exact ⟨s, s', hr, by decide +kernel, hforeign, hs',
    (shared_line_harmless hr).1 _ _ trivial hs' (Option.map_eq_some_iff.mp hforeign), by decide +kernel⟩

/-- Another device interrupts while probe waits: `init_done` becomes -1, and the probe fails although
the device comes up without an error. If it interrupts right after INIT_DONE, the handler follows
the pointer of a section that does not exist. -/
theorem foreign_interrupt_fails_probe :
    (∃ s s' s'', probing.Reach s ∧ s.Foreign ∧ s.initDone = 0 ∧ probing.next s .enter = some s' ∧
      s'.initDone = -1 ∧ probing.exec s' [.initDone, .wake] = some s'' ∧ s''.phase = .failed ∧
      s''.status = 0) ∧
    ∃ s v, probing.Reach s ∧ s.initDone = 1 ∧ s.irq = some v ∧ v.foreign = true ∧
      v.secId < v.numSections ∧ (s.sections v.secId).isNone := by
  constructor
  · let s := (probing.exec resetDevice [.clearIrqs, .maskIrqs, .enable]).get (by decide +kernel)
    have hr : probing.Reach s := Lts.reach_exec (.init resetDevice_initial) (Option.some_get _).symm
    let s' := (probing.next s .enter).get (by decide +kernel)
    let s'' := (probing.exec s' [.initDone, .wake]).get (by decide +kernel)
    exact ⟨s, s', s'', hr, by decide +kernel, by decide +kernel, (Option.some_get _).symm,
      by decide +kernel, (Option.some_get _).symm, by decide +kernel, by decide +kernel⟩
  · let s := (probing.exec resetDevice [.clearIrqs, .maskIrqs, .enable, .initDone, .enter, .enter]).get
      (by decide +kernel)
    have hr : probing.Reach s := Lts.reach_exec (.init resetDevice_initial) (Option.some_get _).symm
    let v := s.irq.get (by decide +kernel)
    exact ⟨s, v, hr, by decide +kernel, (Option.some_get _).symm, by decide +kernel, by decide +kernel,
      by decide +kernel⟩

end Zso.Tape

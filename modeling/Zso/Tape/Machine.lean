import Zso.Tape.Device
import Zso.Tape.RealDevice

/-!
# Several sections on one line

All sections of the device share the IRQ status register and the INTx line, and
`tapedev_interrupt_handler` serves them all: it reads the register once, and then
goes through the sections, one after another. `clear_irq` drops the line whenever it
clears a bit, whatever other bits are set.

* `Machine` is the driver with all its sections. `Machine.Shows` relates it to the
  registers of `tapedev.c`.
* `Machine.Ok.reach`: a section of the machine is a section as in `system`, so what is
  proved there holds for each of them.
* `no_lost_interrupt`: no interrupt is lost as long as whatever is set when the handler
  clears a bit is in its snapshot and still to come.
* `interrupt_lost`: a section that completes after the snapshot and before a clear is
  forgotten.
-/

namespace Zso.Tape
open Transition

variable {D : DevModel} {β : Type}

/-- A bit of the section in the IRQ status. -/
def Sys.bit (s : Sys D) : Irq → Bool
  | .done => s.done
  | .error => s.error

def Snapshot.bit (sn : Snapshot) : Irq → Bool
  | .done => sn.done
  | .error => sn.error

/-- The sections of a device. The bits of the IRQ status register are those of the
sections; the driver has unmasked them all. -/
structure Machine (D : DevModel) where
  numSections : Nat
  sections : Nat → Sys D
  /-- the level of the line -/
  line : Bool
  /-- the section that `handle_sections_interrupts` is at -/
  handler : Option Nat

/-- Section `i` as it sees the line. -/
def Machine.section (m : Machine D) (i : Nat) : Sys D := { m.sections i with line := m.line }

/-- The new state of a section, with the line as it leaves it. -/
def Machine.put (m : Machine D) (i : Nat) (s : Sys D) : Machine D :=
  { m with sections := Function.update m.sections i s, line := s.line }

/-- A section does something. -/
def Machine.onSection (m : Machine D) (i : Nat) (f : Sys D → Option (Sys D)) :
    Option (Machine D) :=
  if i < m.numSections then (f (m.section i)).map fun s => m.put i s else none

/-- The steps of a section that are not the handler's. -/
def Label.isOwn : Label D → Bool
  | .snapshot => false
  | .readStatus => false
  | .handle => false
  | .otherLine _ => false
  | _ => true

inductive Machine.Label (D : DevModel)
  /-- a submission, an EJECT ioctl, or the device -/
  | own (i : Nat) (l : Tape.Label D)
  /-- `tapedev_interrupt_handler` reads the IRQ status -/
  | interrupt
  /-- the handler reads the status of its section -/
  | readStatus
  /-- the handler deals with its section, and goes to the next -/
  | handle
  /-- the handler returns -/
  | finish

/-- The sections when the IRQ status has been read. -/
def Machine.snapshots (m : Machine D) (i : Nat) : Sys D :=
  let s := m.sections i
  if i < m.numSections then { s with irq := some ⟨s.done, s.error, none⟩ } else s

def Machine.next (m : Machine D) : Machine.Label D → Option (Machine D)
  | .own i l => if l.isOwn then m.onSection i fun s => s.next l else none
  | .interrupt =>
    match m.handler with
    | none => some { m with handler := some 0, sections := m.snapshots }
    | some _ => none
  | .readStatus => m.handler.bind fun i => m.onSection i Sys.readStatus
  | .handle => m.handler.bind fun i =>
    (m.onSection i Sys.handle).map fun m => { m with handler := some (i + 1) }
  | .finish => m.handler.bind fun i =>
    if i < m.numSections then none else some { m with handler := none }

structure Machine.Initial (m : Machine D) : Prop where
  sections : ∀ i, i < m.numSections → (m.sections i).Initial
  handler : m.handler = none

def machine (D : DevModel) : Lts (Machine D) (Machine.Label D) := ⟨Machine.Initial, Machine.next⟩

/-- A bit is set, and nobody will look at it. -/
def Machine.Lost (m : Machine D) : Prop :=
  m.handler = none ∧ m.line = false ∧ ∃ i q, i < m.numSections ∧ (m.sections i).bit q = true

/-- The handler has bit `q` of section `i` in its snapshot, and has not come to the section. -/
def Machine.ToCome (m : Machine D) (i : Nat) (q : Irq) : Prop :=
  ∃ k sn, m.handler = some k ∧ k ≤ i ∧ (m.sections i).irq = some sn ∧ sn.bit q = true

/-- When the handler clears a bit, every other bit that is set is still to come. -/
def OthersToCome (m : Machine D) : Machine.Label D → Prop
  | .handle => ∀ k sn, m.handler = some k → (m.sections k).irq = some sn →
      sn.done = true ∨ sn.error = true →
      ∀ i q, i < m.numSections → i ≠ k → (m.sections i).bit q = true → m.ToCome i q
  | _ => True

/-! ## The registers -/

/-- The place of the bit in the register. -/
def Irq.index (q : Irq) (id : Nat) : Nat :=
  match q with
  | .done => 16 + id
  | .error => 24 + id

/-- The registers of the device are as the machine says, and no section is masked. -/
structure Machine.Shows (m : Machine D) (d : PCIint β) : Prop where
  few : m.numSections ≤ 8
  line : d.line = m.line
  bits : ∀ i (q : Irq), i < m.numSections → d.irqAadf.getLsbD (q.index i) = (m.sections i).bit q
  unmasked : ∀ i (q : Irq), i < m.numSections → d.irqMask.getLsbD (q.index i) = false

section
variable {m : Machine D} {d d' : PCIint β} {s : Sys D} {i j : Nat} {q q' : Irq}

@[simp] theorem Machine.put_self (m : Machine D) (i : Nat) (s : Sys D) :
    (m.put i s).sections i = s :=
  Function.update_self ..

theorem Machine.put_other (m : Machine D) {i j : Nat} (hne : j ≠ i) (s : Sys D) :
    (m.put i s).sections j = m.sections j :=
  Function.update_of_ne hne _ _

theorem Irq.index_lt (hi : i < 8) : q.index i < 32 := by
  cases q <;> simp only [Irq.index] <;> omega

theorem getLsbD_irqBit (q : Irq) (i k : Nat) :
    (irqBit q i).getLsbD k = (decide (q.index i < 32) && decide (q.index i = k)) := by
  rw [← BitVec.getLsbD_twoPow, BitVec.twoPow_eq]
  cases q <;> rfl

theorem irqBit_section (hi : i < 8) (hj : j < 8) :
    (irqBit q i).getLsbD (q'.index j) = decide (j = i ∧ q' = q) := by
  rw [getLsbD_irqBit, decide_eq_true (Irq.index_lt hi), Bool.true_and, decide_eq_decide]
  cases q <;> cases q' <;> simp [Irq.index] <;> omega

theorem Sys.answer_bit (s : Sys D) (node : Option LstNode) (st : SectStatus) (q : Irq) :
    (s.answer node st).bit q = (s.bit q || decide (q = if st.isErr then .error else .done)) := by
  cases q <;> cases h : st.isErr <;> simp [Sys.bit, Sys.answer, h]

theorem Sys.clear_bit (s : Sys D) (q q' : Irq) :
    (s.clear (some q)).bit q' = (s.bit q' && !decide (q' = q)) := by
  cases q <;> cases q' <;> simp [Sys.bit, Sys.clear]

theorem Sys.clear_line (s : Sys D) (q : Irq) :
    (s.clear (some q)).line = (s.line && !s.bit q) := by
  cases q <;> rfl

theorem Machine.Shows.put (h : m.Shows d) (hmask : d'.irqMask = d.irqMask)
    (hline : d'.line = s.line)
    (hself : ∀ q : Irq, i < m.numSections → d'.irqAadf.getLsbD (q.index i) = s.bit q)
    (hother : ∀ j (q : Irq), j < m.numSections → j ≠ i →
      d'.irqAadf.getLsbD (q.index j) = d.irqAadf.getLsbD (q.index j)) : (m.put i s).Shows d' where
  few := h.few
  line := hline
  bits j q hj := by
    by_cases hji : j = i
    · subst hji
      rw [Machine.put_self]
      exact hself q hj
    · rw [Machine.put_other m hji, hother j q hj hji]
      exact h.bits j q hj
  unmasked j q hj := hmask ▸ h.unmasked j q hj

/-- `Sys.answer` does to the bits and the line what `raise_irq` does. -/
theorem Machine.Shows.answer (h : m.Shows d) (hi : i < m.numSections) (node : Option LstNode)
    (st : SectStatus) :
    (m.put i ((m.section i).answer node st)).Shows
      (raiseIrq d (irqBit (if st.isErr then .error else .done) i)) := by
  have hi8 := lt_of_lt_of_le hi h.few
  have hraise : ∀ q : Irq, raiseIrq d (irqBit q i) =
      { d with irqAadf := d.irqAadf ||| irqBit q i, line := true } := by
    intro q
    have hne : irqBit q i &&& ~~~d.irqMask ≠ 0 := by
      intro he
      have hbit : (irqBit q i &&& ~~~d.irqMask).getLsbD (q.index i) = false := by
        rw [he]
        exact BitVec.getLsbD_zero
      rw [BitVec.getLsbD_and, BitVec.getLsbD_not, irqBit_section hi8 hi8, h.unmasked i q hi,
        decide_eq_true (Irq.index_lt hi8)] at hbit
      simp at hbit
    simp only [raiseIrq, if_pos hne]
  rw [hraise]
  refine h.put rfl rfl (fun q _ => ?_) (fun j q hj hne => ?_)
  · rw [BitVec.getLsbD_or, h.bits i q hi, irqBit_section hi8 hi8, Sys.answer_bit]
    simp [Machine.section, Sys.bit]
  · rw [BitVec.getLsbD_or, irqBit_section hi8 (lt_of_lt_of_le hj h.few)]
    simp [hne]

/-- `Sys.clear` does to them what `clear_irq` does. -/
theorem Machine.Shows.clear (h : m.Shows d) (hi : i < m.numSections) (q : Irq) :
    (m.put i ((m.section i).clear (some q))).Shows (clearIrq d (irqBit q i)) := by
  have hi8 := lt_of_lt_of_le hi h.few
  have hbit : (m.section i).bit q = d.irqAadf.getLsbD (q.index i) := by
    rw [h.bits i q hi]
    cases q <;> rfl
  -- the line is dropped exactly when the bit was set
  have hsame : d.irqAadf &&& ~~~irqBit q i = d.irqAadf ↔ d.irqAadf.getLsbD (q.index i) = false := by
    constructor
    · intro he
      rw [← he, BitVec.getLsbD_and, BitVec.getLsbD_not, irqBit_section hi8 hi8]
      simp
    · intro hf
      refine BitVec.eq_of_getLsbD_eq fun k hk => ?_
      rw [BitVec.getLsbD_and, BitVec.getLsbD_not, getLsbD_irqBit, decide_eq_true (Irq.index_lt hi8)]
      by_cases he : q.index i = k
      · simp [← he, hf]
      · simp [he, hk]
  have hclear : clearIrq d (irqBit q i) =
      { d with
        irqAadf := d.irqAadf &&& ~~~irqBit q i
        line := d.line && !d.irqAadf.getLsbD (q.index i) } := by
    unfold clearIrq
    dsimp only
    split
    · next he => rw [he, hsame.mp he]; simp
    · next he =>
      have ht : d.irqAadf.getLsbD (q.index i) = true := by
        simpa using fun hf => he (hsame.mpr hf)
      rw [ht]
      simp
  rw [hclear]
  refine h.put rfl ?_ (fun q' _ => ?_) (fun j q' hj hne => ?_)
  · rw [Sys.clear_line, hbit, h.line]
    rfl
  · rw [BitVec.getLsbD_and, BitVec.getLsbD_not, h.bits i q' hi, irqBit_section hi8 hi8,
      Sys.clear_bit]
    simp [Irq.index_lt hi8]
    cases q' <;> rfl
  · have hj8 := lt_of_lt_of_le hj h.few
    rw [BitVec.getLsbD_and, BitVec.getLsbD_not, irqBit_section hi8 hj8]
    simp [hne, Irq.index_lt hj8]

end

/-! ## The line and the bits of a section -/

section
variable {s s' : Sys D} {l : Label D}

/-- The line is low only if nothing has been raised. -/
structure Sys.Unraised (s s' : Sys D) : Prop where
  line : s.line = false
  done : s'.done = s.done
  error : s'.error = s.error

theorem Sys.Unraised.refl (h : s.line = false) : s.Unraised s := ⟨h, rfl, rfl⟩

theorem Sys.send_unraised {n : LstNode} (h : (s.send n).line = false) : s.Unraised (s.send n) := by
  unfold Sys.send at h ⊢
  dsimp only at h ⊢
  cases hw : (D.write s.dev n.word).2 with
  | some st =>
    rw [hw] at h
    cases h
  | none =>
    rw [hw] at h
    cases hi : D.idle s.dev with
    | true =>
      rw [hi] at h
      exact ⟨h, rfl, rfl⟩
    | false =>
      rw [hi] at h
      exact ⟨h, rfl, rfl⟩

theorem Sys.sendOpt_unraised {o : Option LstNode} (h : (s.sendOpt o).line = false) :
    s.Unraised (s.sendOpt o) := by
  cases o with
  | none => exact .refl h
  | some n => exact Sys.send_unraised h

theorem Sys.link_unraised {nodes : List LstNode} (h : (s.link nodes).line = false) :
    s.Unraised (s.link nodes) := by
  unfold Sys.link at h ⊢
  split at h
  · next hq =>
    rw [if_pos hq]
    have hu := Sys.sendOpt_unraised h
    exact ⟨hu.line, hu.done, hu.error⟩
  · next hq =>
    rw [if_neg hq]
    exact ⟨h, rfl, rfl⟩

@[simp] theorem Sys.link_irq (s : Sys D) (nodes : List LstNode) : (s.link nodes).irq = s.irq := by
  unfold Sys.link
  split <;> simp

/-- What a section does by itself does not concern the handler, and it raises the line with
every bit. -/
theorem Sys.Step.own (h : s.Step l s') (hl : l.isOwn = true) :
    s'.irq = s.irq ∧ (s'.line = false → s.Unraised s') := by
  cases h with
  | splice r nodes hsub =>
    refine ⟨by simp, fun hline => ?_⟩
    have hu := Sys.link_unraised (s := { s with log := s.log ++ [Event.queued r nodes] }) hline
    exact ⟨hu.line, hu.done, hu.error⟩
  | ejectReturn hflag =>
    refine ⟨by simp [Sys.consume, Sys.linkEject], fun hline => ?_⟩
    have hu := Sys.link_unraised hline
    exact ⟨hu.line, hu.done, hu.error⟩
  | ejectWait hflag =>
    refine ⟨by simp [Sys.linkEject], fun hline => ?_⟩
    have hu := Sys.link_unraised hline
    exact ⟨hu.line, hu.done, hu.error⟩
  | answers a dev node rest st ht hq hex => exact ⟨rfl, by rintro ⟨⟩⟩
  | snapshot => cases hl
  | readStatus => cases hl
  | nothing => cases hl
  | complete => cases hl
  | otherLine => cases hl
  | _ => exact ⟨rfl, fun hline => ⟨hline, rfl, rfl⟩⟩

/-- After the handler has dealt with a bit, a low line means that no bit is set. -/
theorem Sys.Flow.handle_bits (h : s.Flow) {sn : Snapshot} (hirq : s.irq = some sn)
    (hsn : sn.done = true ∨ sn.error = true) (hs : s.handle = some s')
    (hline : s'.line = false) : s'.done = false ∧ s'.error = false := by
  rcases h.handle_cases hs with ⟨sn', hirq', hd, he, -⟩ | ⟨node, rest, st, -, -, -, rfl⟩
  · cases hirq.symm.trans hirq'
    simp [hd, he] at hsn
  · have hu := Sys.sendOpt_unraised hline
    exact ⟨hu.done, hu.error⟩

/-- The handler is done with the section. -/
theorem Sys.Flow.handle_irq (h : s.Flow) (hs : s.handle = some s') : s'.irq = none := by
  rcases h.handle_cases hs with ⟨sn, -, -, -, rfl⟩ | ⟨node, rest, st, -, -, -, rfl⟩
  · rfl
  · simp [Sys.completed]

end

/-! ## The machine -/

structure Machine.Ok (m : Machine D) : Prop where
  /-- a section of the machine is a section -/
  reach : ∀ i, i < m.numSections → (system D).Reach (m.sections i)
  quiet : ∀ i, i < m.numSections → (∀ k, m.handler = some k → i < k) → (m.sections i).irq = none
  toCome : m.line = false → ∀ i q, i < m.numSections → (m.sections i).bit q = true → m.ToCome i q

section
variable {m m' : Machine D} {i : Nat} {l : Machine.Label D}

theorem Machine.onSection_eq {f : Sys D → Option (Sys D)} (h : m.onSection i f = some m') :
    i < m.numSections ∧ ∃ s, f (m.section i) = some s ∧ m' = m.put i s := by
  unfold Machine.onSection at h
  split at h
  · next hi =>
    obtain ⟨s, hs, rfl⟩ := Option.map_eq_some_iff.mp h
    exact ⟨hi, s, hs, rfl⟩
  · cases h

theorem Machine.Ok.shared (h : m.Ok) (hi : i < m.numSections) :
    (system D).Reach (m.section i) :=
  (h.reach i hi).step (l := .otherLine m.line) rfl

/-- One section has taken a step of its own system. -/
theorem Machine.Ok.reach_put (h : m.Ok) {s : Sys D} (hs : (system D).Reach s) :
    ∀ j, j < m.numSections → (system D).Reach ((m.put i s).sections j) := by
  intro j hj
  by_cases hji : j = i
  · subst hji
    rwa [Machine.put_self]
  · rw [Machine.put_other m hji]
    exact h.reach j hj

theorem Machine.Ok.own (h : m.Ok) {l : Tape.Label D} (hl : l.isOwn = true)
    (hstep : m.onSection i (fun s => s.next l) = some m') : m'.Ok := by
  obtain ⟨hi, s, hs, rfl⟩ := Machine.onSection_eq hstep
  have hshared := h.shared hi
  obtain ⟨hirq, hraise⟩ := (Sys.next_step (flow_reach hshared) hs).own hl
  refine ⟨h.reach_put (hshared.step hs), fun j hj hk => ?_, fun hline j q hj hbit => ?_⟩
  · by_cases hji : j = i
    · subst hji
      rw [Machine.put_self, hirq]
      exact h.quiet j hj hk
    · rw [Machine.put_other m hji]
      exact h.quiet j hj hk
  · have hu := hraise hline
    have hirq' : ((m.put i s).sections j).irq = (m.sections j).irq ∧
        ((m.put i s).sections j).bit q = (m.sections j).bit q := by
      by_cases hji : j = i
      · subst hji
        rw [Machine.put_self]
        refine ⟨hirq, ?_⟩
        cases q with
        | done => exact hu.done
        | error => exact hu.error
      · rw [Machine.put_other m hji]
        exact ⟨rfl, rfl⟩
    obtain ⟨k, sn, hk, hle, hsn, hq⟩ := h.toCome hu.line j q hj (hirq'.2 ▸ hbit)
    exact ⟨k, sn, hk, hle, hirq'.1.trans hsn, hq⟩

theorem Machine.snapshots_eq (hi : i < m.numSections) : m.snapshots i =
    { m.sections i with irq := some ⟨(m.sections i).done, (m.sections i).error, none⟩ } :=
  if_pos hi

theorem Machine.Ok.interrupt (h : m.Ok) (hh : m.handler = none) :
    Machine.Ok { m with handler := some 0, sections := m.snapshots } where
  reach i hi := by
    have hirq : (m.sections i).irq = none := h.quiet i hi (by simp [hh])
    refine (h.reach i hi).step (l := .snapshot) ?_
    show (m.sections i).snapshot = some (m.snapshots i)
    rw [Sys.snapshot, hirq, Machine.snapshots_eq (m := m) hi]
  quiet i hi hk := absurd (hk 0 rfl) (Nat.not_lt_zero i)
  toCome _ i q hi hbit := by
    have hbit' : (m.snapshots i).bit q = true := hbit
    rw [Machine.snapshots_eq (m := m) hi] at hbit'
    refine ⟨0, ⟨(m.sections i).done, (m.sections i).error, none⟩, rfl, Nat.zero_le i, ?_,
      by cases q <;> exact hbit'⟩
    show (m.snapshots i).irq = _
    rw [Machine.snapshots_eq (m := m) hi]

theorem Machine.Ok.readStatus (h : m.Ok) {k : Nat} (hk : m.handler = some k)
    (hstep : m.onSection k Sys.readStatus = some m') : m'.Ok := by
  obtain ⟨hi, s, hs, rfl⟩ := Machine.onSection_eq hstep
  have hreach : (system D).Reach s := (h.shared hi).step (l := .readStatus) hs
  unfold Sys.readStatus at hs
  split at hs
  · next done error hirq =>
    cases hs
    refine ⟨h.reach_put hreach, fun j hj hjk => ?_, fun hline j q hj hbit => ?_⟩
    · have hne : j ≠ k := fun he => absurd (hjk k hk) (by omega)
      rw [Machine.put_other m hne]
      exact h.quiet j hj hjk
    · by_cases hjk : j = k
      · subst hjk
        rw [Machine.put_self] at hbit
        obtain ⟨k', sn, hk', hle, hsn, hq⟩ := h.toCome hline j q hj hbit
        cases hirq.symm.trans hsn
        exact ⟨k', _, hk', hle, by rw [Machine.put_self], by cases q <;> exact hq⟩
      · rw [Machine.put_other m hjk] at hbit
        obtain ⟨k', sn, hk', hle, hsn, hq⟩ := h.toCome hline j q hj hbit
        exact ⟨k', sn, hk', hle, by rwa [Machine.put_other m hjk], hq⟩
  · cases hs

theorem Machine.Ok.handle (h : m.Ok) (hg : OthersToCome m .handle) {k : Nat}
    (hk : m.handler = some k) (hstep : m.onSection k Sys.handle = some m') :
    Machine.Ok { m' with handler := some (k + 1) } := by
  obtain ⟨hi, s, hs, rfl⟩ := Machine.onSection_eq hstep
  have hshared := h.shared hi
  have hflow := flow_reach hshared
  have hirq := hflow.handle_irq hs
  refine ⟨h.reach_put (hshared.step (l := .handle) hs), fun j hj hjk => ?_,
    fun hline j q hj hbit => ?_⟩
  · by_cases hne : j = k
    · subst hne
      rwa [Machine.put_self]
    · rw [Machine.put_other m hne]
      have hlt : j < k := by
        have := hjk (k + 1) rfl
        omega
      refine h.quiet j hj fun k' hk' => ?_
      cases hk.symm.trans hk'
      exact hlt
  · have hcome : j ≠ k ∧ m.ToCome j q := by
      rcases hflow.handle_cases hs with ⟨sn, hsn, hd, he, rfl⟩ | ⟨node, rest, st, hsn, -, -, -⟩
      · -- nothing is cleared, so the line was low before
        have hbit' : (m.sections j).bit q = true := by
          by_cases hne : j = k
          · subst hne
            rw [Machine.put_self] at hbit
            exact hbit
          · rwa [Machine.put_other m hne] at hbit
        have hc := h.toCome hline j q hj hbit'
        refine ⟨?_, hc⟩
        rintro rfl
        obtain ⟨-, sn', -, -, hsn', hq⟩ := hc
        cases hsn.symm.trans hsn'
        cases q <;> simp [Snapshot.bit, hd, he] at hq
      · have hsome : (!st.isErr) = true ∨ st.isErr = true := by cases st.isErr <;> simp
        have hbits := hflow.handle_bits hsn hsome hs hline
        have hne : j ≠ k := by
          rintro rfl
          rw [Machine.put_self] at hbit
          cases q <;> simp [Sys.bit, hbits] at hbit
        rw [Machine.put_other m hne] at hbit
        exact ⟨hne, hg k _ hk hsn hsome j q hj hne hbit⟩
    obtain ⟨hne, k', sn, hk', hle, hsn, hq⟩ := hcome
    cases hk.symm.trans hk'
    exact ⟨k + 1, sn, rfl, by omega, by rwa [Machine.put_other m hne], hq⟩

theorem Machine.Ok.finish (h : m.Ok) {k : Nat} (hk : m.handler = some k)
    (hle : m.numSections ≤ k) : Machine.Ok { m with handler := none } where
  reach := h.reach
  quiet i hi _ := h.quiet i hi fun k' hk' => by
    cases hk.symm.trans hk'
    exact lt_of_lt_of_le hi hle
  toCome hline i q hi hbit := by
    obtain ⟨k', -, hk', hik, -⟩ := h.toCome hline i q hi hbit
    cases hk.symm.trans hk'
    exact absurd (lt_of_lt_of_le hi hle) (by omega)

theorem Machine.Ok.step (h : m.Ok) (hg : OthersToCome m l) (hs : m.next l = some m') : m'.Ok := by
  cases l with
  | own i l =>
    simp only [Machine.next, Option.ite_none_right_eq_some] at hs
    exact h.own hs.1 hs.2
  | interrupt =>
    simp only [Machine.next] at hs
    split at hs
    · next hh =>
      cases hs
      exact h.interrupt hh
    · cases hs
  | readStatus =>
    obtain ⟨k, hk, hs⟩ := Option.bind_eq_some_iff.mp hs
    exact h.readStatus hk hs
  | handle =>
    obtain ⟨k, hk, hs⟩ := Option.bind_eq_some_iff.mp hs
    obtain ⟨m₁, hm₁, rfl⟩ := Option.map_eq_some_iff.mp hs
    exact h.handle hg hk hm₁
  | finish =>
    obtain ⟨k, hk, hs⟩ := Option.bind_eq_some_iff.mp hs
    simp only [Option.ite_none_left_eq_some, Option.some.injEq] at hs
    obtain ⟨hle, rfl⟩ := hs
    exact h.finish hk (not_lt.mp hle)

theorem Machine.Initial.ok (h : m.Initial) : m.Ok where
  reach i hi := .init (h.sections i hi)
  quiet i hi _ := (h.sections i hi).irq
  toCome _ i q hi hbit := by
    have hs := h.sections i hi
    cases q <;> simp [Sys.bit, hs.done, hs.error] at hbit

theorem machineOk_reachOn (h : (machine D).ReachOn OthersToCome m) : m.Ok :=
  Lts.invariantOn (fun _ => Machine.Initial.ok) (fun _ _ _ _ hok hg hs => hok.step hg hs) h

/-- **No interrupt is lost** in a run in which, whenever the handler clears a bit of a section,
every bit of another section that is set is in the handler's snapshot, and its section is still
to come. -/
theorem no_lost_interrupt (h : (machine D).ReachOn OthersToCome m) : ¬ m.Lost := by
  rintro ⟨hh, hline, i, q, hi, hbit⟩
  obtain ⟨k, -, hk, -⟩ := (machineOk_reachOn h).toCome hline i q hi hbit
  rw [hh] at hk
  cases hk

end

/-- Two sections as the driver finds them. -/
def twoSections : Machine (realDevice Nat) := ⟨2, fun _ => probedSection, false, none⟩

theorem twoSections_initial : twoSections.Initial := ⟨fun _ _ => probedSection_initial, rfl⟩

/-- All the host accesses of a step succeed. -/
def hostStep : Move Nat := .io ⟨some fun _ => 0, true, true, true⟩

/-- Both sections eject their tape before the handler looks. -/
theorem no_lost_interrupt_both : ∃ m, (machine (realDevice Nat)).ReachOn OthersToCome m ∧
    m.handler = some 1 ∧ m.line = false ∧ (m.sections 1).done = true ∧ ¬ m.Lost := by
  let run : List (Machine.Label (realDevice Nat)) := [.own 0 (.eject false), .own 0 (.tick hostStep),
    .own 1 (.eject false), .own 1 (.tick hostStep), .interrupt, .readStatus]
  let m := ((machine (realDevice Nat)).exec twoSections run).get (by decide +kernel)
  have hm : (machine (realDevice Nat)).exec twoSections run = some m := (Option.some_get _).symm
  have hquiet : ∀ l ∈ run, ∀ m, OthersToCome m l := by simp [run, OthersToCome]
  have hreach := (Lts.ReachOn.init twoSections_initial).exec hquiet hm
  let m' := (m.next .handle).get (by decide +kernel)
  have hm' : (machine (realDevice Nat)).next m .handle = some m' := (Option.some_get _).symm
  have hlast : OthersToCome m .handle := by
    intro k sn hk hsn hor i q hi hne hbit
    have hzero : m.handler = some 0 := by decide +kernel
    have hseen : (m.sections 1).irq = some ⟨true, false, none⟩ := by decide +kernel
    have herror : (m.sections 1).error = false := by decide +kernel
    have hi' : i < 2 := hi
    cases hzero.symm.trans hk
    obtain rfl : i = 1 := by omega
    cases q with
    | done => exact ⟨0, _, hzero, Nat.zero_le 1, hseen, rfl⟩
    | error => cases herror.symm.trans hbit
  have hreach' := hreach.step hlast hm'
  exact ⟨m', hreach', by decide +kernel, by decide +kernel, by decide +kernel,
    no_lost_interrupt hreach'⟩

/-- Section 1 ejects its tape when the handler has read the IRQ status, and before it clears
the bit of section 0. -/
theorem interrupt_lost : ∃ m, (machine (realDevice Nat)).Reach m ∧ m.Lost := by
  let run : List (Machine.Label (realDevice Nat)) := [.own 0 (.eject false), .own 0 (.tick hostStep),
    .interrupt, .own 1 (.eject false), .own 1 (.tick hostStep), .readStatus, .handle,
    .readStatus, .handle, .finish]
  let m := ((machine (realDevice Nat)).exec twoSections run).get (by decide +kernel)
  have hm : (machine (realDevice Nat)).exec twoSections run = some m := (Option.some_get _).symm
  refine ⟨m, Lts.reach_exec (.init twoSections_initial) hm, ?_⟩
  exact ⟨by decide +kernel, by decide +kernel, 1, .done, by decide +kernel, by decide +kernel⟩

end Zso.Tape

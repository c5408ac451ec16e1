import Zso.Tape.Machine

/-!
# The registers behind the sections

The driver knows the device by its registers: it writes commands to CMD and clears bits
of the IRQ status, and the device goes on by itself. A `Machine` with the section of
`tapedev.c` is this device, seen from the driver.

* `PCIint.Op` is one such access, or one step of a section.
* `mirrors_next`: whatever the machine does, the device gets there by such operations.
* `mirrors_exec`: so does every run of the machine.
* `lost_in_registers`: where an interrupt is lost, the IRQ status has a bit set and the
  line is low.

The host's memory is not a register. Each section has its own view of it, and a step of
the device takes the one of its section.
-/

namespace Zso.Tape
open Transition

variable {β : Type}

/-- An access of the driver to a register, or a step of a section. -/
inductive PCIint.Op : PCIint β → PCIint β → Prop
  | cmd (d : PCIint β) (id w : Nat) : Op d (d.writeCmd id w)
  | clear (d : PCIint β) (id : Nat) (q : Irq) : Op d (clearIrq d (irqBit q id))
  | step (d : PCIint β) (id : Nat) (mem : Nat → β) (x : Io) : Op d (d.step id mem x).1

/-- The sections of the machine are those of the device, which is enabled. -/
structure Machine.Mirrors (m : Machine (realDevice β)) (d : PCIint β) : Prop extends m.Shows d where
  enabled : d.aadg = 2
  aades : ∀ i, i < m.numSections → d.aades i = (m.sections i).dev.sec

/-- An answer comes with the interrupt for its status. -/
def Answered (a : Answer β) : Prop :=
  ∀ q, a.2 = some q → q = if a.1.aadf.isErr then .error else .done

theorem answered_aabc (s : Aacc β) (g : Aadg) (st : SectStatus) : Answered (aabc s g st) := by
  rintro q ⟨⟩
  rfl

theorem answered_aabm (s : Aacc β) (w : Nat) : Answered (aabm 2 s w) := by
  by_cases hi : s.aadg = .idle
  · rcases aabm_cases hi w with ⟨s', g, he, -⟩ | ⟨st, he, -⟩
    · rw [he]
      rintro q ⟨⟩
    · rw [he]
      exact answered_aabc s .idle st
  · rw [aabm_busy hi]
    rintro q ⟨⟩

theorem answered_aabf {s : Aacc β} (hb : s.aadg.busy = true) (mem : Nat → β) (x : Io) :
    Answered (aabf s mem x).1 := by
  rcases aabf_cases hb mem x with ⟨-, hgo⟩ | ⟨s', g, st, he, -⟩
  · intro q hq
    cases hgo.silent.symm.trans hq
  · rw [he]
    exact answered_aabc s' g st

section
variable {m : Machine (realDevice β)} {d : PCIint β} {i : Nat} {s t : Sys (realDevice β)}

theorem Machine.put_put (m : Machine (realDevice β)) (i : Nat) (s t : Sys (realDevice β)) :
    (m.put i s).put i t = m.put i t := by
  unfold Machine.put
  dsimp only
  rw [Function.update_idem]

theorem Machine.section_put (m : Machine (realDevice β)) (i : Nat) (s : Sys (realDevice β)) :
    (m.put i s).section i = s := by
  unfold Machine.section
  rw [Machine.put_self]
  rfl

/-- Only the bits and the line are shown. -/
theorem Machine.Shows.congr_put (h : (m.put i s).Shows d) (hd : t.done = s.done)
    (he : t.error = s.error) (hl : t.line = s.line) : (m.put i t).Shows d := by
  rw [← Machine.put_put m i s t]
  refine h.put rfl (h.line.trans hl.symm) (fun q hi => ?_) fun _ _ _ _ => rfl
  rw [h.bits i q hi, Machine.put_self]
  cases q with
  | done => exact hd.symm
  | error => exact he.symm

theorem Machine.Shows.put_section (h : m.Shows d) (i : Nat) :
    (m.put i (m.section i)).Shows d := by
  refine h.put rfl h.line (fun q hi => ?_) fun _ _ _ _ => rfl
  rw [h.bits i q hi]
  cases q <;> rfl

/-- One section and the registers have changed. -/
theorem Machine.Mirrors.put {d' : PCIint β} (h : m.Mirrors d) (hshows : (m.put i s).Shows d')
    (hen : d'.aadg = d.aadg) (hself : i < m.numSections → d'.aades i = s.dev.sec)
    (hother : ∀ j, j ≠ i → d'.aades j = d.aades j) : (m.put i s).Mirrors d' where
  toShows := hshows
  enabled := hen.trans h.enabled
  aades j hj := by
    by_cases hji : j = i
    · subst hji
      rw [Machine.put_self]
      exact hself hj
    · rw [Machine.put_other m hji, hother j hji]
      exact h.aades j hj

theorem Machine.Mirrors.congr_put (h : (m.put i s).Mirrors d)
    (hsec : t.dev.sec = s.dev.sec) (hd : t.done = s.done) (he : t.error = s.error)
    (hl : t.line = s.line) : (m.put i t).Mirrors d := by
  have hshows := h.toShows.congr_put hd he hl
  rw [← Machine.put_put m i s t] at hshows ⊢
  refine h.put hshows rfl (fun hi => ?_) fun _ _ => rfl
  rw [h.aades i hi, Machine.put_self, hsec]

theorem raiseIrq_frame (d : PCIint β) (irq : BitVec 32) :
    (raiseIrq d irq).aadg = d.aadg ∧ (raiseIrq d irq).aades = d.aades := by
  unfold raiseIrq
  dsimp only
  split <;> exact ⟨rfl, rfl⟩

/-- The section and the registers after the answer `a`. -/
theorem Machine.Mirrors.answer (h : m.Mirrors d) (hi : i < m.numSections) {a : Answer β}
    (ha : Answered a) (hsec : s.dev.sec = a.1)
    (hnone : a.2 = none → s.done = (m.section i).done ∧ s.error = (m.section i).error ∧
      s.line = (m.section i).line)
    (hsome : ∀ st, answerStatus a = some st → s.done = ((m.section i).answer none st).done ∧
      s.error = ((m.section i).answer none st).error ∧
      s.line = ((m.section i).answer none st).line) : (m.put i s).Mirrors (d.answer i a) := by
  have hupd : m.Shows { d with aades := Function.update d.aades i a.1 } :=
    ⟨h.few, h.line, h.bits, h.unmasked⟩
  have hself : Function.update d.aades i a.1 i = s.dev.sec := by
    rw [Function.update_self, hsec]
  have hother : ∀ j, j ≠ i → Function.update d.aades i a.1 j = d.aades j :=
    fun j hji => Function.update_of_ne hji _ _
  unfold PCIint.answer
  cases hq : a.2 with
  | none =>
    obtain ⟨hd, he, hl⟩ := hnone hq
    exact h.put ((hupd.put_section i).congr_put hd he hl) rfl (fun _ => hself) hother
  | some q =>
    have hst : answerStatus a = some a.1.aadf := by
      rw [answerStatus, hq]
      rfl
    obtain ⟨hd, he, hl⟩ := hsome _ hst
    have hraise := hupd.answer hi none a.1.aadf
    rw [← ha q hq] at hraise
    have hframe := raiseIrq_frame { d with aades := Function.update d.aades i a.1 } (irqBit q i)
    refine h.put (hraise.congr_put hd he hl) hframe.1 (fun _ => ?_) fun j hji => ?_
    · exact (congrFun hframe.2 i).trans hself
    · exact (congrFun hframe.2 j).trans (hother j hji)

/-- `section_send_cmd` does to the section what a write of its CMD register does. -/
theorem Machine.Mirrors.send (h : m.Mirrors d) (hi : i < m.numSections) (n : LstNode) :
    (m.put i ((m.section i).send n)).Mirrors (d.writeCmd i n.word) := by
  have hwrite : d.writeCmd i n.word = d.answer i (aabm 2 (m.section i).dev.sec n.word) := by
    rw [PCIint.writeCmd, if_neg (not_not.mpr h.enabled), h.enabled, h.aades i hi]
    rfl
  rw [hwrite]
  refine h.answer hi (answered_aabm _ _) (by rw [Sys.send_dev]; rfl) (fun hq => ?_)
    (fun st hst => ?_)
  · have hw : ((realDevice β).write (m.section i).dev n.word).2 = none := by
      show answerStatus _ = none
      rw [answerStatus, hq]
      rfl
    unfold Sys.send
    dsimp only
    rw [hw]
    cases (realDevice β).idle (m.section i).dev <;> exact ⟨rfl, rfl, rfl⟩
  · have hw : ((realDevice β).write (m.section i).dev n.word).2 = some st := hst
    unfold Sys.send
    dsimp only
    rw [hw]
    exact ⟨rfl, rfl, rfl⟩

/-- A move of the section is a step of the device. -/
theorem Machine.Mirrors.tick (h : m.Mirrors d) (hi : i < m.numSections) {x : Io}
    (hs : (m.section i).tick (.io x) = some s) :
    (m.put i s).Mirrors (d.step i (m.section i).dev.mem x).1 := by
  obtain ⟨r, hr, rfl⟩ := Option.map_eq_some_iff.mp hs
  obtain ⟨hb, rfl⟩ := Dev.move_io hr
  have hstep : (d.step i (m.section i).dev.mem x).1 =
      d.answer i (aabf (m.section i).dev.sec (m.section i).dev.mem x).1 := by
    rw [PCIint.step, h.aades i hi]
    rfl
  rw [hstep]
  refine h.answer hi (answered_aabf hb _ x) ?_ (fun hq => ?_) (fun st hst => ?_)
  · dsimp only
    cases answerStatus (aabf (m.section i).dev.sec (m.section i).dev.mem x).1 <;> rfl
  · have hw : answerStatus (aabf (m.section i).dev.sec (m.section i).dev.mem x).1 = none := by
      rw [answerStatus, hq]
      rfl
    dsimp only
    rw [hw]
    exact ⟨rfl, rfl, rfl⟩
  · dsimp only
    rw [hst]
    exact ⟨rfl, rfl, rfl⟩

theorem clearIrq_frame (d : PCIint β) (val : BitVec 32) :
    (clearIrq d val).aadg = d.aadg ∧ (clearIrq d val).aades = d.aades := by
  unfold clearIrq
  dsimp only
  split <;> exact ⟨rfl, rfl⟩

theorem Machine.Mirrors.clear (h : m.Mirrors d) (hi : i < m.numSections) (q : Irq) :
    (m.put i ((m.section i).clear (some q))).Mirrors (clearIrq d (irqBit q i)) := by
  have hframe := clearIrq_frame d (irqBit q i)
  refine h.put (h.toShows.clear hi q) hframe.1 (fun _ => ?_) fun j _ => congrFun hframe.2 j
  rw [hframe.2, h.aades i hi]
  cases q <;> rfl

end

/-! ## What a section does -/

section
variable {m m' : Machine (realDevice β)} {d : PCIint β} {i : Nat} {s t : Sys (realDevice β)}

/-- By some operations the device comes to where section `i` is as in `s`, and the other
sections are as in `m`. -/
def Machine.Gets (m : Machine (realDevice β)) (d : PCIint β) (i : Nat)
    (s : Sys (realDevice β)) : Prop :=
  ∃ e, Relation.ReflTransGen PCIint.Op d e ∧ (m.put i s).Mirrors e

theorem Machine.Mirrors.gets (h : m.Mirrors d) (i : Nat) : m.Gets d i (m.section i) :=
  ⟨d, .refl, h.put (h.toShows.put_section i) rfl (h.aades i) fun _ _ => rfl⟩

/-- The driver's own data are of no concern to the device. -/
theorem Machine.Gets.congr (h : m.Gets d i s) (hsec : t.dev.sec = s.dev.sec)
    (hd : t.done = s.done) (he : t.error = s.error) (hl : t.line = s.line) : m.Gets d i t := by
  obtain ⟨e, hops, hmir⟩ := h
  exact ⟨e, hops, hmir.congr_put hsec hd he hl⟩

theorem Machine.Gets.send (h : m.Gets d i s) (hi : i < m.numSections) (n : LstNode) :
    m.Gets d i (s.send n) := by
  obtain ⟨e, hops, hmir⟩ := h
  have hsend := hmir.send hi n
  rw [Machine.section_put, Machine.put_put] at hsend
  exact ⟨_, hops.tail (.cmd e i n.word), hsend⟩

theorem Machine.Gets.sendOpt (h : m.Gets d i s) (hi : i < m.numSections) (o : Option LstNode) :
    m.Gets d i (s.sendOpt o) := by
  cases o with
  | none => exact h
  | some n => exact h.send hi n

theorem Machine.Gets.link (h : m.Gets d i s) (hi : i < m.numSections) (nodes : List LstNode) :
    m.Gets d i (s.link nodes) := by
  unfold Sys.link
  split
  · exact (h.sendOpt hi nodes.head?).congr rfl rfl rfl rfl
  · exact h.congr rfl rfl rfl rfl

theorem Machine.Gets.clear (h : m.Gets d i s) (hi : i < m.numSections) (o : Option Irq) :
    m.Gets d i (s.clear o) := by
  cases o with
  | none => exact h
  | some q =>
    obtain ⟨e, hops, hmir⟩ := h
    have hclear := hmir.clear hi q
    rw [Machine.section_put, Machine.put_put] at hclear
    exact ⟨_, hops.tail (.clear e i q), hclear⟩

theorem Machine.Gets.tick (h : m.Gets d i s) (hi : i < m.numSections) {a : Move β}
    (hs : s.tick a = some t) : m.Gets d i t := by
  cases a with
  | cpu mem =>
    cases hs
    exact h.congr rfl rfl rfl rfl
  | io x =>
    obtain ⟨e, hops, hmir⟩ := h
    have htick := hmir.tick (x := x) (s := t) hi (by rw [Machine.section_put]; exact hs)
    rw [Machine.section_put, Machine.put_put] at htick
    exact ⟨_, hops.tail (.step e i s.dev.mem x), htick⟩

theorem Machine.Gets.handle (h : m.Gets d i s) (hi : i < m.numSections)
    (hs : s.handle = some t) : m.Gets d i t := by
  unfold Sys.handle at hs
  split at hs
  · split at hs
    · cases hs
      refine Machine.Gets.sendOpt ?_ hi _
      exact (h.clear hi _).congr rfl rfl rfl rfl
    · cases hs
      exact h.congr rfl rfl rfl rfl
  · cases hs

theorem Machine.Gets.eject (h : m.Gets d i s) (hi : i < m.numSections) (oom : Bool) :
    m.Gets d i (s.eject oom) := by
  unfold Sys.eject
  dsimp only
  split
  · exact h.congr rfl rfl rfl rfl
  · have hlink : m.Gets d i s.linkEject := by
      refine Machine.Gets.link ?_ hi _
      exact h.congr rfl rfl rfl rfl
    split <;> exact hlink.congr rfl rfl rfl rfl

/-- The steps of a section that are not about the line of another. -/
theorem Machine.Gets.next (h : m.Gets d i s) (hi : i < m.numSections)
    {l : Tape.Label (realDevice β)} (hl : l.isOwn = true) (hs : s.next l = some t) :
    m.Gets d i t := by
  cases l with
  | queueRq op start env =>
    change s.queueRq op start env = some t at hs
    unfold Sys.queueRq at hs
    split at hs
    · cases op <;> cases hs <;> exact h.congr rfl rfl rfl rfl
    · cases hs
  | build =>
    change s.build = some t at hs
    unfold Sys.build at hs
    split at hs
    · next r write start env _ =>
      generalize planRequest s.sec.info write env start s.sec.cpuDmaBuf = o at hs
      cases hs
      cases o <;> exact h.congr rfl rfl rfl rfl
    · cases hs
  | splice =>
    change s.splice = some t at hs
    unfold Sys.splice at hs
    split at hs
    · next r nodes _ =>
      cases hs
      refine Machine.Gets.congr (Machine.Gets.link ?_ hi nodes) rfl rfl rfl rfl
      exact h.congr rfl rfl rfl rfl
    · cases hs
  | fail =>
    change s.fail = some t at hs
    unfold Sys.fail at hs
    split at hs
    · cases hs
      exact h.congr rfl rfl rfl rfl
    · cases hs
  | eject oom =>
    cases hs
    exact h.eject hi oom
  | wake c =>
    change s.wake c = some t at hs
    unfold Sys.wake at hs
    split at hs
    · cases hs
      exact h.congr rfl rfl rfl rfl
    · cases hs
  | signal c =>
    change s.signal c = some t at hs
    unfold Sys.signal at hs
    split at hs
    · cases hs
      exact h.congr rfl rfl rfl rfl
    · cases hs
  | tick a => exact h.tick hi hs
  | snapshot => cases hl
  | readStatus => cases hl
  | handle => cases hl
  | otherLine level => cases hl

end

/-! ## The machine -/

section
variable {m m' : Machine (realDevice β)} {d : PCIint β}

theorem Machine.Mirrors.withHandler (h : m.Mirrors d) {k : Option Nat} :
    Machine.Mirrors { m with handler := k } d :=
  ⟨⟨h.few, h.line, h.bits, h.unmasked⟩, h.enabled, h.aades⟩

/-- The driver reads the IRQ status. -/
theorem Machine.Mirrors.snapshots (h : m.Mirrors d) {k : Option Nat} :
    Machine.Mirrors { m with handler := k, sections := m.snapshots } d := by
  refine ⟨⟨h.few, h.line, fun i q hi => ?_, h.unmasked⟩, h.enabled, fun i hi => ?_⟩
  · have hbit : (m.snapshots i).bit q = (m.sections i).bit q := by
      rw [Machine.snapshots_eq (m := m) hi]
      cases q <;> rfl
    exact (h.bits i q hi).trans hbit.symm
  · have hdev : (m.snapshots i).dev = (m.sections i).dev := by
      rw [Machine.snapshots_eq (m := m) hi]
    exact (h.aades i hi).trans (congrArg Dev.sec hdev.symm)

/-- Every step of the machine is made of operations of the device. -/
theorem mirrors_next {l : Machine.Label (realDevice β)} (h : m.Mirrors d)
    (hs : m.next l = some m') : ∃ e, Relation.ReflTransGen PCIint.Op d e ∧ m'.Mirrors e := by
  cases l with
  | own i l =>
    unfold Machine.next at hs
    dsimp only at hs
    split at hs
    · next hl =>
      obtain ⟨hi, s, hnext, rfl⟩ := Machine.onSection_eq hs
      exact (h.gets i).next hi hl hnext
    · cases hs
  | interrupt =>
    unfold Machine.next at hs
    dsimp only at hs
    split at hs
    · cases hs
      exact ⟨d, .refl, h.snapshots⟩
    · cases hs
  | readStatus =>
    obtain ⟨i, -, hon⟩ := Option.bind_eq_some_iff.mp hs
    obtain ⟨hi, s, hread, rfl⟩ := Machine.onSection_eq hon
    unfold Sys.readStatus at hread
    split at hread
    · cases hread
      exact (h.gets i).congr rfl rfl rfl rfl
    · cases hread
  | handle =>
    obtain ⟨i, -, hmap⟩ := Option.bind_eq_some_iff.mp hs
    obtain ⟨m₁, hon, rfl⟩ := Option.map_eq_some_iff.mp hmap
    obtain ⟨hi, s, hhandle, rfl⟩ := Machine.onSection_eq hon
    obtain ⟨e, hops, hmir⟩ := (h.gets i).handle hi hhandle
    exact ⟨e, hops, hmir.withHandler⟩
  | finish =>
    obtain ⟨i, -, hif⟩ := Option.bind_eq_some_iff.mp hs
    split at hif
    · cases hif
    · cases hif
      exact ⟨d, .refl, h.withHandler⟩

/-- Every run of the machine is a run of the device. -/
theorem mirrors_exec {ls : List (Machine.Label (realDevice β))} (h : m.Mirrors d)
    (hs : (machine (realDevice β)).exec m ls = some m') :
    ∃ e, Relation.ReflTransGen PCIint.Op d e ∧ m'.Mirrors e := by
  induction ls generalizing m d with
  | nil =>
    cases hs
    exact ⟨d, .refl, h⟩
  | cons l ls ih =>
    rw [Lts.exec_cons] at hs
    obtain ⟨m₁, hl, hrest⟩ := Option.bind_eq_some_iff.mp hs
    obtain ⟨e₁, hops₁, hmir₁⟩ := mirrors_next h hl
    obtain ⟨e, hops, hmir⟩ := ih hmir₁ hrest
    exact ⟨e, hops₁.trans hops, hmir⟩

/-- A machine that is started has a device, enabled and with all sections unmasked. -/
theorem Machine.Initial.mirrors (h : m.Initial) (hfew : m.numSections ≤ 8) :
    ∃ d : PCIint β, m.Mirrors d ∧ d.irqAadf = 0 := by
  refine ⟨⟨2, 0, 0, m.line, m.numSections, fun i => (m.sections i).dev.sec⟩,
    ⟨⟨hfew, rfl, fun i q hi => ?_, fun i q _ => BitVec.getLsbD_zero⟩, rfl, fun _ _ => rfl⟩, rfl⟩
  cases q with
  | done => exact BitVec.getLsbD_zero.trans (h.sections i hi).done.symm
  | error => exact BitVec.getLsbD_zero.trans (h.sections i hi).error.symm

/-- A lost interrupt, as the registers show it. -/
theorem Machine.Lost.registers (hlost : m.Lost) (h : m.Mirrors d) :
    d.line = false ∧ d.irqAadf ≠ 0 := by
  obtain ⟨-, hline, i, q, hi, hbit⟩ := hlost
  refine ⟨h.line.trans hline, fun hz => ?_⟩
  have hset := (h.bits i q hi).trans hbit
  rw [hz] at hset
  cases BitVec.getLsbD_zero.symm.trans hset

/-- A run of the machine that ends with a lost interrupt is a run of the device from a clear
IRQ status to one with a bit set, and the line low. -/
theorem lost_in_registers {ls : List (Machine.Label (realDevice β))} (h : m.Initial)
    (hfew : m.numSections ≤ 8) (hs : (machine (realDevice β)).exec m ls = some m')
    (hlost : m'.Lost) : ∃ d e : PCIint β, m.Mirrors d ∧ d.irqAadf = 0 ∧
      Relation.ReflTransGen PCIint.Op d e ∧ e.irqAadf ≠ 0 ∧ e.line = false := by
  obtain ⟨d, hmir, hclear⟩ := h.mirrors hfew
  obtain ⟨e, hops, hmir'⟩ := mirrors_exec hmir hs
  obtain ⟨hline, hset⟩ := hlost.registers hmir'
  exact ⟨d, e, hmir, hclear, hops, hset, hline⟩

end

end Zso.Tape

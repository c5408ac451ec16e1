import Zso.Tape.Lifecycle
import Zso.Tape.Registers

/-!
# The driver on the whole device

The `Machine` has a device of its own for each section, and any of them may move at any time. The
device of `tapedev.c` has one timer, one memory and registers at addresses. Here the driver
of the machine runs on that device: what it writes goes to the registers (`Machine.writes`),
and the device goes on when its timer runs out.

* `Sys.next_accesses`: a step of the driver does to the device what its register writes do.
* `Machine.Agrees` relates the machine to the device: the registers, the sections, the memory.
* `Machine.Agrees.driver`, `Machine.Agrees.timer`: every step of the driver and every call of
  the timer keeps it. A call of the timer is made of moves of single sections.
* `driver_reads_registers`: what the driver reads is what the machine says.
* `command_finds_section_at_rest`: no command is written to a section that is busy.

The device is in the timer mode. `fast_mode_agrees` is about the other.
-/

namespace Zso.Tape
open Bits Transition

variable {β : Type} {D : DevModel}

/-! ## What the driver writes -/

/-- The interrupt that a step of the driver clears, and then the command that it sends. -/
def Sys.accesses (s : Sys D) : Label D → Option Irq × Option LstNode
  | .splice =>
    match s.submit with
    | .built _ nodes => (none, if s.sec.cmdQueue.isEmpty then nodes.head? else none)
    | _ => (none, none)
  | .eject oom =>
    (none, if !oom && s.sec.cmdQueue.isEmpty then some (ioctlNode s.nextCall) else none)
  | .handle =>
    match s.irq with
    | some ⟨done, error, some st⟩ =>
      if done || error then
        let h := handleSectionInterrupt done error st (D.tapeNo s.dev) s.sec
        (h.clear, h.send)
      else (none, none)
    | _ => (none, none)
  | _ => (none, none)

def Label.isDevice : Label D → Bool
  | .tick _ => true
  | .otherLine _ => true
  | _ => false

/-- The device's side of two sections is the same. -/
structure Sys.SameDev (s t : Sys D) : Prop where
  dev : t.dev = s.dev
  done : t.done = s.done
  error : t.error = s.error
  line : t.line = s.line

theorem Sys.SameDev.refl (s : Sys D) : s.SameDev s := ⟨rfl, rfl, rfl, rfl⟩

theorem Sys.SameDev.trans {s t u : Sys D} (h : s.SameDev t) (h' : t.SameDev u) : s.SameDev u :=
  ⟨h'.dev.trans h.dev, h'.done.trans h.done, h'.error.trans h.error, h'.line.trans h.line⟩

theorem Sys.SameDev.send {s t : Sys D} (h : s.SameDev t) (n : LstNode) :
    (s.send n).SameDev (t.send n) := by
  obtain ⟨hdev, hdone, herror, hline⟩ := h
  unfold Sys.send
  dsimp only
  rw [hdev]
  cases (D.write s.dev n.word).2 with
  | some st => exact ⟨rfl, congrArg (· || _) hdone, congrArg (· || _) herror, rfl⟩
  | none => cases D.idle s.dev <;> exact ⟨rfl, hdone, herror, hline⟩

theorem Sys.SameDev.sendOpt {s t : Sys D} (h : s.SameDev t) (o : Option LstNode) :
    (s.sendOpt o).SameDev (t.sendOpt o) := by
  cases o with
  | none => exact h
  | some n => exact h.send n

theorem Sys.link_sameDev (s : Sys D) (nodes : List LstNode) :
    (s.sendOpt (if s.sec.cmdQueue.isEmpty then nodes.head? else none)).SameDev (s.link nodes) := by
  unfold Sys.link
  split <;> exact ⟨rfl, rfl, rfl, rfl⟩

theorem Sys.clear_dev (s : Sys D) (o : Option Irq) : (s.clear o).dev = s.dev := by
  cases o with
  | none => rfl
  | some q => cases q <;> rfl

theorem Sys.splice_accesses {s t : Sys D} (hs : s.splice = some t) :
    ((s.clear (s.accesses .splice).1).sendOpt (s.accesses .splice).2).SameDev t := by
  unfold Sys.splice at hs
  split at hs
  · next r nodes hb =>
    cases hs
    have hacc : s.accesses .splice =
        (none, if s.sec.cmdQueue.isEmpty then nodes.head? else none) := by
      simp only [Sys.accesses, hb]
    rw [hacc]
    have hlog : s.SameDev { s with log := s.log ++ [Event.queued r nodes] } :=
      ⟨rfl, rfl, rfl, rfl⟩
    have hlink := Sys.link_sameDev { s with log := s.log ++ [Event.queued r nodes] } nodes
    exact ((hlog.sendOpt _).trans hlink).trans ⟨rfl, rfl, rfl, rfl⟩
  · cases hs

theorem Sys.eject_accesses (s : Sys D) (oom : Bool) :
    ((s.clear (s.accesses (.eject oom)).1).sendOpt (s.accesses (.eject oom)).2).SameDev
      (s.eject oom) := by
  unfold Sys.eject
  dsimp only
  cases oom with
  | true => exact ⟨rfl, rfl, rfl, rfl⟩
  | false =>
    have hstart : s.SameDev { s with
        nextCall := s.nextCall + 1
        sec := { s.sec with ejectionCmds := s.sec.ejectionCmds + 1 } } := ⟨rfl, rfl, rfl, rfl⟩
    have hlink := (hstart.sendOpt _).trans (Sys.link_sameDev _ [ioctlNode s.nextCall])
    rw [if_neg Bool.false_ne_true]
    split <;> exact hlink.trans ⟨rfl, rfl, rfl, rfl⟩

theorem Sys.handle_accesses {s t : Sys D} (hs : s.handle = some t) :
    ((s.clear (s.accesses .handle).1).sendOpt (s.accesses .handle).2).SameDev t := by
  unfold Sys.handle at hs
  split at hs
  · next done error st hirq =>
    split at hs
    · next hb =>
      cases hs
      have hacc : s.accesses .handle =
          ((handleSectionInterrupt done error st (D.tapeNo s.dev) s.sec).clear,
            (handleSectionInterrupt done error st (D.tapeNo s.dev) s.sec).send) := by
        simp only [Sys.accesses, hirq, if_pos hb]
      rw [hacc]
      refine Sys.SameDev.sendOpt ?_ _
      exact ⟨rfl, rfl, rfl, rfl⟩
    · next hb =>
      cases hs
      have hacc : s.accesses .handle = (none, none) := by
        simp only [Sys.accesses, hirq, if_neg hb]
      rw [hacc]
      exact ⟨rfl, rfl, rfl, rfl⟩
  · cases hs

/-- A step of the driver touches the device by what it writes only. -/
theorem Sys.next_accesses {s t : Sys D} {l : Label D} (hl : l.isDevice = false)
    (hs : s.next l = some t) :
    ((s.clear (s.accesses l).1).sendOpt (s.accesses l).2).SameDev t := by
  cases l with
  | queueRq op start env =>
    change s.queueRq op start env = some t at hs
    unfold Sys.queueRq at hs
    split at hs
    · cases op <;> cases hs <;> exact ⟨rfl, rfl, rfl, rfl⟩
    · cases hs
  | build =>
    change s.build = some t at hs
    unfold Sys.build at hs
    split at hs
    · next r write start env _ =>
      generalize planRequest s.sec.info write env start s.sec.cpuDmaBuf = o at hs
      cases hs
      cases o <;> exact ⟨rfl, rfl, rfl, rfl⟩
    · cases hs
  | splice => exact Sys.splice_accesses hs
  | fail =>
    change s.fail = some t at hs
    unfold Sys.fail at hs
    split at hs
    · cases hs
      exact ⟨rfl, rfl, rfl, rfl⟩
    · cases hs
  | eject oom =>
    cases hs
    exact s.eject_accesses oom
  | wake c =>
    change s.wake c = some t at hs
    unfold Sys.wake at hs
    split at hs
    · cases hs
      exact ⟨rfl, rfl, rfl, rfl⟩
    · cases hs
  | signal c =>
    change s.signal c = some t at hs
    unfold Sys.signal at hs
    split at hs
    · cases hs
      exact ⟨rfl, rfl, rfl, rfl⟩
    · cases hs
  | snapshot =>
    change s.snapshot = some t at hs
    unfold Sys.snapshot at hs
    split at hs
    · cases hs
      exact ⟨rfl, rfl, rfl, rfl⟩
    · cases hs
  | readStatus =>
    change s.readStatus = some t at hs
    unfold Sys.readStatus at hs
    split at hs
    · cases hs
      exact ⟨rfl, rfl, rfl, rfl⟩
    · cases hs
  | handle => exact Sys.handle_accesses hs
  | tick a => cases hl
  | otherLine level => cases hl

/-- The answers of the host that a write does not ask for. -/
def noIo : Nat → Nat → Io := fun _ _ => ⟨none, false, false, false⟩

/-- The writes to IRQ_CLEAR and to CMD of section `i`. -/
def regCalls (i clock rand : Nat) (a : Option Irq × Option LstNode) : List (Call β) :=
  (a.1.map fun q => Call.write 0x10 (irqBit q i).toNat 4 clock rand noIo).toList ++
    (a.2.map fun n => Call.write (0x100 * (i + 1)) n.word 4 clock rand noIo).toList

def Machine.Label.isDevice : Machine.Label D → Bool
  | .own _ l => Tape.Label.isDevice l
  | _ => false

/-- The section that a step of the driver is about, and what it writes there. -/
def Machine.writes (m : Machine (realDevice β)) (clock rand : Nat) :
    Machine.Label (realDevice β) → List (Call β)
  | .own i l => regCalls i clock rand ((m.section i).accesses l)
  | .handle =>
    match m.handler with
    | some i => regCalls i clock rand ((m.section i).accesses .handle)
    | none => []
  | _ => []

/-! ## What the device does -/

/-- The memory that every section sees. -/
def syncs (is : List Nat) (mem : Nat → β) : List (Machine.Label (realDevice β)) :=
  is.map fun i => .own i (.tick (.cpu mem))

/-- A call of the timer, as moves of the sections. -/
def Tapedev.moves (clock : Nat) (io : Nat → Io) :
    List Nat → Tapedev β → List (Machine.Label (realDevice β))
  | [], _ => []
  | i :: is, d =>
    (if d.works clock i then
      .own i (.tick (.io (io i))) :: syncs (List.range d.aadesNo) (d.pass clock io i).mem
    else []) ++ (d.pass clock io i).moves clock io is

/-- The machine and the whole device. -/
abbrev Rig (β : Type) := Machine (realDevice β) × Tapedev β

inductive RigLabel (β : Type)
  /-- a step of the driver, with the time of its writes and the numbers drawn -/
  | driver (l : Machine.Label (realDevice β)) (clock rand : Nat)
  | timer (clock : Nat) (io : Nat → Io)
  | cpu (mem : Nat → β)

def Rig.next (r : Rig β) : RigLabel β → Option (Rig β)
  | .driver l clock rand =>
    if l.isDevice then none
    else (r.1.next l).map fun m => (m, (r.1.writes clock rand l).foldl Tapedev.next r.2)
  | .timer clock io =>
    ((machine (realDevice β)).exec r.1 (r.2.moves clock io (List.range r.2.aadesNo))).map
      fun m => (m, r.2.next (.timer clock io))
  | .cpu mem =>
    ((machine (realDevice β)).exec r.1 (syncs (List.range r.2.aadesNo) mem)).map
      fun m => (m, r.2.next (.cpu mem))

/-- What the machine says about the device. -/
structure Machine.Agrees (m : Machine (realDevice β)) (d : Tapedev β) : Prop where
  mirrors : m.Mirrors d.toPCIint
  count : d.aadesNo = m.numSections
  mem : ∀ i, i < m.numSections → (m.sections i).dev.mem = d.mem
  unwritten : ∀ i, d.written i = none
  timed : d.fastMode = false

/-! ## The driver's steps -/

section
variable {m m' : Machine (realDevice β)} {d d' : Tapedev β} {i clock rand : Nat}
  {s t : Sys (realDevice β)}

theorem Machine.Agrees.put (h : m.Agrees d) (hmir : (m.put i s).Mirrors d'.toPCIint)
    (hmem : s.dev.mem = d'.mem) (hm : d'.mem = d.mem) (hno : d'.aadesNo = d.aadesNo)
    (hw : ∀ j, d'.written j = none) (hf : d'.fastMode = d.fastMode) : (m.put i s).Agrees d' where
  mirrors := hmir
  count := hno.trans h.count
  mem j hj := by
    by_cases hji : j = i
    · subst hji
      rw [Machine.put_self]
      exact hmem
    · rw [Machine.put_other m hji, hm]
      exact h.mem j hj
  unwritten := hw
  timed := hf.trans h.timed

theorem Machine.Agrees.congr_put (h : (m.put i s).Agrees d) (hst : s.SameDev t) :
    (m.put i t).Agrees d := by
  have hmir := h.mirrors.congr_put (t := t) (by rw [hst.dev]) hst.done hst.error hst.line
  rw [← Machine.put_put m i s t] at hmir ⊢
  by_cases hi : i < m.numSections
  · have hmem : s.dev.mem = d.mem := by
      have := h.mem i hi
      rwa [Machine.put_self] at this
    exact h.put hmir (by rw [hst.dev]; exact hmem) rfl rfl h.unwritten rfl
  · refine ⟨hmir, h.count, fun j hj => ?_, h.unwritten, h.timed⟩
    have hji : j ≠ i := by
      rintro rfl
      exact hi hj
    rw [Machine.put_other _ hji]
    exact h.mem j hj

theorem Machine.Agrees.put_section (h : m.Agrees d) (i : Nat) :
    (m.put i (m.section i)).Agrees d := by
  have hmir : (m.put i (m.section i)).Mirrors d.toPCIint :=
    h.mirrors.put (h.mirrors.toShows.put_section i) rfl (h.mirrors.aades i) fun _ _ => rfl
  refine ⟨hmir, h.count, fun j hj => ?_, h.unwritten, h.timed⟩
  by_cases hji : j = i
  · subst hji
    rw [Machine.put_self]
    exact h.mem j hj
  · rw [Machine.put_other _ hji]
    exact h.mem j hj

theorem Machine.Agrees.section_mem (h : m.Agrees d) (hi : i < m.numSections) :
    (m.section i).dev.mem = d.mem := h.mem i hi

/-- A write to IRQ_CLEAR. -/
theorem next_irqClear (d : Tapedev β) (val : BitVec 32) (clock rand : Nat) (io : Nat → Nat → Io) :
    d.next (.write 0x10 val.toNat 4 clock rand io) =
      { d with toPCIint := clearIrq d.toPCIint val } := by
  show { d with toPCIint := clearIrq d.toPCIint (BitVec.ofNat 32 val.toNat) } = _
  rw [BitVec.ofNat_toNat, BitVec.setWidth_eq]

/-- A write to IRQ_MASK. -/
theorem next_irqMask (d : Tapedev β) (val : BitVec 32) (clock rand : Nat) (io : Nat → Nat → Io) :
    d.next (.write 0x0c val.toNat 4 clock rand io) = { d with irqMask := val } := by
  show { d with irqMask := BitVec.ofNat 32 val.toNat } = _
  rw [BitVec.ofNat_toNat, BitVec.setWidth_eq]

theorem clearIrq_irqAadf (d : PCIint β) (val : BitVec 32) :
    (clearIrq d val).irqAadf = d.irqAadf &&& ~~~val := by
  unfold clearIrq
  dsimp only
  split
  · next h => exact h.symm
  · rfl

theorem clearIrq_aadesNo (d : PCIint β) (val : BitVec 32) :
    (clearIrq d val).aadesNo = d.aadesNo := by
  unfold clearIrq
  dsimp only
  split <;> rfl

/-- A write to CMD in the timer mode. -/
theorem next_cmd (h8 : d.aadesNo ≤ 8) (hen : d.aadg = 2) (hf : d.fastMode = false)
    (hi : i < d.aadesNo) (w : Nat) (io : Nat → Nat → Io) :
    d.next (.write (0x100 * (i + 1)) w 4 clock rand io) = d.start i w clock rand := by
  show aabk d _ w 4 clock rand io = _
  rw [aabk_cmd h8 hen hi]
  unfold Tapedev.aabm
  dsimp only
  rw [if_neg (by rw [hf]; rintro ⟨h, -⟩; cases h)]

theorem start_writeCmd (hen : d.aadg = 2) (w : Nat) :
    (d.start i w clock rand).toPCIint = d.toPCIint.writeCmd i w := by
  unfold PCIint.writeCmd
  rw [if_neg (not_not.mpr hen)]
  by_cases hidle : (d.aades i).aadg = .idle
  · exact start_toPCIint hidle
  · have hbusy : Tape.aabm d.aadg (d.aades i) w = (d.aades i, none) := by
      rw [hen]
      exact aabm_busy hidle w
    rw [hbusy]
    unfold Tapedev.start
    rw [if_neg hidle]
    unfold PCIint.answer
    dsimp only
    rw [Function.update_eq_self]

theorem start_rest (d : Tapedev β) (i w clock rand : Nat) :
    (d.start i w clock rand).mem = d.mem ∧
      ∀ j, d.written j = none → (d.start i w clock rand).written j = none := by
  have hupd : ∀ j, d.written j = none → Function.update d.written i none j = none := by
    intro j hj
    by_cases hji : j = i
    · subst hji
      exact Function.update_self ..
    · rw [Function.update_of_ne hji]
      exact hj
  unfold Tapedev.start
  dsimp only
  split
  · split
    · exact ⟨rfl, hupd⟩
    · exact ⟨rfl, hupd⟩
  · exact ⟨rfl, fun _ hj => hj⟩

theorem Machine.Agrees.clear (h : m.Agrees d) (hi : i < m.numSections) (q : Irq)
    (clock rand : Nat) (io : Nat → Nat → Io) :
    (m.put i ((m.section i).clear (some q))).Agrees
      (d.next (.write 0x10 (irqBit q i).toNat 4 clock rand io)) := by
  rw [next_irqClear]
  refine h.put (h.mirrors.clear hi q) ?_ rfl ?_ h.unwritten rfl
  · rw [Sys.clear_dev]
    exact h.section_mem hi
  · exact clearIrq_aadesNo ..

theorem Machine.Agrees.clears (h : m.Agrees d) (hi : i < m.numSections) (o : Option Irq)
    (clock rand : Nat) :
    (m.put i ((m.section i).clear o)).Agrees
      ((o.map fun q => Call.write 0x10 (irqBit q i).toNat 4 clock rand noIo).toList.foldl
        Tapedev.next d) := by
  cases o with
  | none => exact h.put_section i
  | some q => exact h.clear hi q clock rand noIo

theorem Machine.Agrees.send (h : m.Agrees d) (hi : i < m.numSections) (n : LstNode)
    (clock rand : Nat) (io : Nat → Nat → Io) :
    (m.put i ((m.section i).send n)).Agrees
      (d.next (.write (0x100 * (i + 1)) n.word 4 clock rand io)) := by
  have hen : d.aadg = 2 := h.mirrors.enabled
  have hid : i < d.aadesNo := h.count ▸ hi
  rw [next_cmd (h.count ▸ h.mirrors.few) hen h.timed hid]
  obtain ⟨hmem, hw⟩ := start_rest d i n.word clock rand
  refine h.put ?_ ?_ hmem (start_frame d i n.word clock rand).2
    (fun j => hw j (h.unwritten j)) start_fastMode
  · rw [start_writeCmd hen]
    exact h.mirrors.send hi n
  · rw [Sys.send_dev, hmem]
    exact h.section_mem hi

/-- What the driver writes to the registers does to the section what the machine says. -/
theorem Machine.Agrees.access (h : m.Agrees d) (hi : i < m.numSections)
    (a : Option Irq × Option LstNode) :
    (m.put i (((m.section i).clear a.1).sendOpt a.2)).Agrees
      ((regCalls i clock rand a).foldl Tapedev.next d) := by
  unfold regCalls
  rw [List.foldl_append]
  have hclear := h.clears hi a.1 clock rand
  generalize (a.1.map fun q => Call.write 0x10 (irqBit q i).toNat 4 clock rand noIo).toList.foldl
    Tapedev.next d = d₁ at hclear ⊢
  cases a.2 with
  | none => exact hclear
  | some n =>
    have hsend := hclear.send hi n clock rand noIo
    rw [Machine.section_put, Machine.put_put] at hsend
    exact hsend

theorem Machine.Agrees.own (h : m.Agrees d) (hi : i < m.numSections)
    {l : Tape.Label (realDevice β)} (hl : l.isDevice = false) (hs : (m.section i).next l = some t) :
    (m.put i t).Agrees
      ((regCalls i clock rand ((m.section i).accesses l)).foldl Tapedev.next d) :=
  (h.access hi _).congr_put (Sys.next_accesses hl hs)

theorem Machine.Agrees.withHandler (h : m.Agrees d) (k : Option Nat) :
    Machine.Agrees { m with handler := k } d :=
  ⟨h.mirrors.withHandler, h.count, h.mem, h.unwritten, h.timed⟩

/-- A step of the driver. -/
theorem Machine.Agrees.driver (h : m.Agrees d) {l : Machine.Label (realDevice β)}
    (hl : l.isDevice = false) (hs : m.next l = some m') :
    m'.Agrees ((m.writes clock rand l).foldl Tapedev.next d) := by
  cases l with
  | own i l =>
    change (if l.isOwn then _ else none) = some m' at hs
    split at hs
    · obtain ⟨hi, t, ht, rfl⟩ := Machine.onSection_eq hs
      exact h.own hi hl ht
    · cases hs
  | interrupt =>
    unfold Machine.next at hs
    dsimp only at hs
    split at hs
    · cases hs
      refine ⟨h.mirrors.snapshots, h.count, fun i hi => ?_, h.unwritten, h.timed⟩
      show (m.snapshots i).dev.mem = _
      rw [Machine.snapshots_eq (m := m) hi]
      exact h.mem i hi
    · cases hs
  | readStatus =>
    obtain ⟨i, hh, hs⟩ := Option.bind_eq_some_iff.mp hs
    obtain ⟨hi, t, ht, rfl⟩ := Machine.onSection_eq hs
    exact (h.put_section i).congr_put (Sys.next_accesses (l := .readStatus) rfl ht)
  | handle =>
    obtain ⟨i, hh, hs⟩ := Option.bind_eq_some_iff.mp hs
    obtain ⟨m₁, hm₁, rfl⟩ := Option.map_eq_some_iff.mp hs
    obtain ⟨hi, t, ht, rfl⟩ := Machine.onSection_eq hm₁
    have hwrites : m.writes clock rand .handle =
        regCalls i clock rand ((m.section i).accesses .handle) := by
      simp only [Machine.writes, hh]
    rw [hwrites]
    exact (h.own (l := .handle) hi rfl ht).withHandler _
  | finish =>
    obtain ⟨i, hh, hs⟩ := Option.bind_eq_some_iff.mp hs
    split at hs
    · cases hs
    · cases hs
      exact h.withHandler _

/-! ## The device's steps -/

/-- The CPU's view of the memory, for one section after another. -/
theorem exec_syncs (h : m.Mirrors d.toPCIint) {is : List Nat} (his : ∀ i ∈ is, i < m.numSections)
    (mem : Nat → β) :
    ∃ m', (machine (realDevice β)).exec m (syncs is mem) = some m' ∧ m'.Mirrors d.toPCIint ∧
      m'.numSections = m.numSections ∧
      ∀ j, (m'.sections j).dev.mem = if j ∈ is then mem else (m.sections j).dev.mem := by
  induction is generalizing m with
  | nil => exact ⟨m, rfl, h, rfl, fun j => by simp⟩
  | cons i is ih =>
    have hi : i < m.numSections := his i List.mem_cons_self
    let t : Sys (realDevice β) :=
      { m.section i with dev := { (m.section i).dev with mem := mem } }
    have hnext : m.next (.own i (.tick (.cpu mem))) = some (m.put i t) := by
      show (if i < m.numSections then _ else none) = _
      rw [if_pos hi]
      rfl
    have hself : (m.put i (m.section i)).Mirrors d.toPCIint :=
      h.put (h.toShows.put_section i) rfl (h.aades i) fun _ _ => rfl
    have hmir : (m.put i t).Mirrors d.toPCIint := hself.congr_put rfl rfl rfl rfl
    obtain ⟨m', hexec, hmir', hno, hmem⟩ :=
      ih hmir (fun j hj => his j (List.mem_cons_of_mem _ hj))
    refine ⟨m', ?_, hmir', hno, fun j => ?_⟩
    · show (m.next (.own i (.tick (.cpu mem)))).bind _ = _
      rw [hnext]
      exact hexec
    · rw [hmem]
      by_cases hji : j = i
      · subst hji
        simp [t]
      · rw [Machine.put_other m hji]
        simp [hji]

/-- All sections see the new memory. -/
theorem Machine.Mirrors.sync {mem : Nat → β} (h : m.Mirrors d.toPCIint)
    (hno : d.aadesNo = m.numSections) (hmem : d.mem = mem) (hw : ∀ i, d.written i = none)
    (hf : d.fastMode = false) :
    ∃ m', (machine (realDevice β)).exec m (syncs (List.range d.aadesNo) mem) = some m' ∧
      m'.Agrees d := by
  have hrange : ∀ i ∈ List.range d.aadesNo, i < m.numSections :=
    fun i hi => hno ▸ List.mem_range.mp hi
  obtain ⟨m', hexec, hmir, hno', hm⟩ := exec_syncs h hrange mem
  refine ⟨m', hexec, hmir, hno.trans hno'.symm, fun i hi => ?_, hw, hf⟩
  rw [hm, if_pos (List.mem_range.mpr (hno ▸ hno' ▸ hi)), hmem]

theorem pass_rest (d : Tapedev β) (clock : Nat) (io : Nat → Io) (i : Nat)
    (hw : ∀ j, d.written j = none) (j : Nat) : (d.pass clock io i).written j = none := by
  unfold Tapedev.pass
  split
  · dsimp only
    split
    · by_cases hji : j = i
      · subst hji
        exact Function.update_self ..
      · exact (Function.update_of_ne hji _ _).trans (hw j)
    · exact hw j
  · exact hw j

/-- The step of a section in a call of the timer is a move of the machine. -/
theorem Machine.Agrees.pass (h : m.Agrees d) (io : Nat → Io) (hi : i < m.numSections)
    (hw : d.works clock i = true) :
    ∃ m', (machine (realDevice β)).exec m (.own i (.tick (.io (io i))) ::
      syncs (List.range d.aadesNo) (d.pass clock io i).mem) = some m' ∧
      m'.Agrees (d.pass clock io i) := by
  have hbusy : (m.section i).dev.sec.aadg.busy = true := by
    have haades : d.aades i = (m.section i).dev.sec := h.mirrors.aades i hi
    rw [← haades]
    exact (Bool.and_eq_true_iff.mp hw).1
  obtain ⟨t, ht⟩ : ∃ t, (m.section i).tick (.io (io i)) = some t := by
    have hmove : ∃ r, Dev.move (m.section i).dev (.io (io i)) = some r := by
      unfold Dev.move
      dsimp only
      rw [if_pos hbusy]
      exact ⟨_, rfl⟩
    obtain ⟨r, hr⟩ := hmove
    exact ⟨_, Option.map_eq_some_iff.mpr ⟨r, hr, rfl⟩⟩
  have hstep : (d.pass clock io i).toPCIint =
      (d.toPCIint.step i (m.section i).dev.mem (io i)).1 := by
    rw [pass_toPCIint hw, h.section_mem hi]
    rfl
  have hmir : (m.put i t).Mirrors (d.pass clock io i).toPCIint := by
    rw [hstep]
    exact h.mirrors.tick hi ht
  have hno : (d.pass clock io i).aadesNo = d.aadesNo := pass_aadesNo d clock io i
  obtain ⟨m', hexec, hag⟩ := hmir.sync (hno.trans h.count) rfl (pass_rest d clock io i h.unwritten)
    (pass_fastMode.trans h.timed)
  refine ⟨m', ?_, hag⟩
  have hnext : m.next (.own i (.tick (.io (io i)))) = some (m.put i t) := by
    show (if i < m.numSections then ((m.section i).tick (.io (io i))).map _ else none) = _
    rw [if_pos hi, ht]
    rfl
  show (m.next (.own i (.tick (.io (io i))))).bind _ = _
  rw [hnext, ← hno]
  exact hexec

/-- A call of the timer: the loop over the sections. -/
theorem Machine.Agrees.passAll (h : m.Agrees d) (io : Nat → Io) {is : List Nat}
    (his : ∀ i ∈ is, i < m.numSections) :
    ∃ m', (machine (realDevice β)).exec m (d.moves clock io is) = some m' ∧
      m'.Agrees (d.passAll clock io is).1 := by
  induction is generalizing m d with
  | nil => exact ⟨m, rfl, h⟩
  | cons i is ih =>
    have hi : i < m.numSections := his i List.mem_cons_self
    have hrest : ∀ {m₁ : Machine (realDevice β)}, m₁.Agrees (d.pass clock io i) →
        ∃ m', (machine (realDevice β)).exec m₁ ((d.pass clock io i).moves clock io is) = some m' ∧
          m'.Agrees ((d.pass clock io i).passAll clock io is).1 := by
      intro m₁ hm₁
      refine ih hm₁ fun j hj => ?_
      rw [← hm₁.count, pass_aadesNo, h.count]
      exact his j (List.mem_cons_of_mem _ hj)
    show ∃ m', (machine (realDevice β)).exec m ((if d.works clock i then _ else []) ++ _) = some m' ∧
      m'.Agrees ((d.pass clock io i).passAll clock io is).1
    cases hw : d.works clock i with
    | true =>
      obtain ⟨m₁, hexec, hm₁⟩ := h.pass io hi hw
      obtain ⟨m', hexec', hm'⟩ := hrest hm₁
      refine ⟨m', ?_, hm'⟩
      rw [if_pos rfl, Lts.exec_append, hexec]
      exact hexec'
    | false =>
      rw [if_neg Bool.false_ne_true, List.nil_append]
      refine hrest ?_
      rw [pass_of_not_works hw]
      exact h

theorem Machine.Agrees.timer (h : m.Agrees d) (clock : Nat) (io : Nat → Io) :
    ∃ m', (machine (realDevice β)).exec m (d.moves clock io (List.range d.aadesNo)) = some m' ∧
      m'.Agrees (d.next (.timer clock io)) := by
  have hnext : d.next (.timer clock io) = (d.passAll clock io (List.range d.aadesNo)).1 := by
    show (d.aabf clock io).1 = _
    rw [aabf_enabled h.mirrors.enabled]
  rw [hnext]
  exact h.passAll io fun i hi => h.count ▸ List.mem_range.mp hi

theorem Machine.Agrees.cpu (h : m.Agrees d) (mem : Nat → β) :
    ∃ m', (machine (realDevice β)).exec m (syncs (List.range d.aadesNo) mem) = some m' ∧
      m'.Agrees (d.next (.cpu mem)) :=
  Machine.Mirrors.sync (d := { d with mem := mem }) h.mirrors h.count rfl h.unwritten h.timed

end

/-! ## After the probe -/

/-- The register accesses of `tapedev_probe`: it switches the device on, the timer runs out, the
handler clears INIT_DONE, and the sections are unmasked and given the addresses of their page
tables. -/
def probeCalls (n clock rand : Nat) (io : Nat → Io) (dma : Nat → Nat) : List (Call β) :=
  enableWrites clock rand noIo ++
    [.timer clock io, .write 0x10 (1#32 <<< INIT_DONE).toNat 4 clock rand noIo,
      .write 0x0c (sectionsMask n).toNat 4 clock rand noIo] ++
    (List.range n).map fun i => .write (0x100 * (i + 1) + 0x08) (dma i) 4 clock rand noIo

/-- The driver when the sections have been created. -/
def probedMachine (d : Tapedev β) (info : Nat → SectionInfo) : Machine (realDevice β) where
  numSections := d.aadesNo
  sections i :=
    { sec := newSection (info i)
      submit := .idle
      outstanding := none
      nextReq := 0
      built := []
      waiters := []
      nextCall := 0
      dev := ⟨d.aades i, d.mem⟩
      done := false
      error := false
      line := d.line
      irq := none
      cur := none
      log := [] }
  line := d.line
  handler := none

/-- A device that is on and has had no command yet. -/
structure Tapedev.Ready (d : Tapedev β) : Prop where
  enabled : d.aadg = 2
  few : d.aadesNo ≤ 8
  idle : ∀ i, i < d.aadesNo → (d.aades i).aadg = .idle
  irq : d.irqAadf = 0
  mask : d.irqMask = sectionsMask d.aadesNo
  unwritten : ∀ i, d.written i = none
  timed : d.fastMode = false

section
variable {d : Tapedev β} {i : Nat}

theorem sectionsMask_section {n : Nat} (hn : n ≤ 8) (hi : i < n) (q : Irq) :
    (sectionsMask n).getLsbD (q.index i) = false := by
  have hall : ∀ n, n < 9 → ∀ i, i < n → ∀ q ∈ [Irq.done, Irq.error],
      (sectionsMask n).getLsbD (q.index i) = false := by decide +kernel
  exact hall n (by omega) i hi q (by cases q <;> simp)

theorem Tapedev.Ready.agrees (h : d.Ready) (info : Nat → SectionInfo) :
    (probedMachine d info).Initial ∧ (probedMachine d info).Agrees d := by
  have hshows : (probedMachine d info).Shows d.toPCIint :=
    { few := h.few
      line := rfl
      bits := fun i q _ => by
        rw [h.irq]
        cases q <;> exact BitVec.getLsbD_zero
      unmasked := fun i q hi => by
        rw [h.mask]
        exact sectionsMask_section h.few hi q }
  have hsections : ∀ i, i < d.aadesNo → ((probedMachine d info).sections i).Initial := by
    intro i hi
    refine ⟨rfl, rfl, rfl, rfl, rfl, rfl, rfl, ?_, rfl, rfl, rfl, rfl, rfl⟩
    exact decide_eq_true (h.idle i hi)
  exact ⟨⟨hsections, rfl⟩, ⟨⟨hshows, h.enabled, fun _ _ => rfl⟩, rfl, fun _ _ => rfl, h.unwritten, h.timed⟩⟩

theorem aabh_frame (d : Tapedev β) (aabu val : Nat) :
    (aabh d aabu val).aadesNo = d.aadesNo ∧ (aabh d aabu val).aades = d.aades ∧
      (aabh d aabu val).written = d.written ∧ (aabh d aabu val).fastMode = d.fastMode := by
  unfold aabh
  split
  · split
    · exact ⟨rfl, rfl, rfl, rfl⟩
    · split <;> exact ⟨rfl, rfl, rfl, rfl⟩
  · exact ⟨rfl, rfl, rfl, rfl⟩
  · exact ⟨rfl, rfl, rfl, rfl⟩
  · unfold clearIrq
    dsimp only
    split <;> exact ⟨rfl, rfl, rfl, rfl⟩
  · exact ⟨rfl, rfl, rfl, rfl⟩

/-- The first call of the timer after ENABLE. -/
theorem aabf_first (h : d.aadg = 1) (clock : Nat) (io : Nat → Io) :
    (d.aabf clock io).1 = (aaca d).1 := by
  unfold Tapedev.aabf
  rw [if_neg (by omega)]
  dsimp only
  rw [(aaca_on h).2.1, if_neg Bool.false_ne_true]
  have hidle : ∀ i ∈ List.range (aaca d).1.aadesNo, (aaca d).1.works clock i = false := by
    intro i hi
    have hi' : i < d.aadesNo := by
      rw [← (aaca_frame d).1]
      exact List.mem_range.mp hi
    unfold Tapedev.works
    rw [(aaca_on h).2.2 i hi']
    rfl
  rw [passAll_of_idle hidle]

/-- The section and the register of an address. -/
theorem sectionOf_address (hi : i < 8) {reg : Nat} (hreg : reg < 0x100) :
    sectionOf (0x100 * (i + 1) + reg) = i ∧ (0x100 * (i + 1) + reg) &&& 0xff = reg := by
  have hall : ∀ i, i < 8 → ∀ reg, reg < 0x100 → sectionOf (0x100 * (i + 1) + reg) = i ∧
      (0x100 * (i + 1) + reg) &&& 0xff = reg := by decide +kernel
  exact hall i hi reg hreg

/-- A page table is given to a section. -/
theorem Tapedev.Ready.table (h : d.Ready) (hi : i < d.aadesNo) (val clock rand : Nat) :
    (d.next (.write (0x100 * (i + 1) + 0x08) val 4 clock rand noIo)).Ready := by
  have hsec := sectionOf_address (Nat.lt_of_lt_of_le hi h.few) (show 0x08 < 0x100 by decide)
  have hnext : d.next (.write (0x100 * (i + 1) + 0x08) val 4 clock rand noIo) =
      d.setSection i (aabiPgtable d.aadg (d.aades i) val) := by
    have hen := h.enabled
    show aabk d _ val 4 clock rand noIo = _
    unfold aabk
    rw [if_neg (not_not.mpr rfl), if_neg (by omega), if_neg (by omega), hsec.1, hsec.2,
      if_neg (by omega)]
    unfold Tapedev.aabi
    rw [if_neg (not_not.mpr hen)]
    rfl
  rw [hnext]
  refine ⟨h.enabled, h.few, fun j hj => ?_, h.irq, h.mask, h.unwritten, h.timed⟩
  show (Function.update d.aades i (aabiPgtable d.aadg (d.aades i) val) j).aadg = .idle
  by_cases hji : j = i
  · subst hji
    rw [Function.update_self]
    unfold aabiPgtable
    split <;> exact h.idle j hj
  · rw [Function.update_of_ne hji]
    exact h.idle j hj

theorem Tapedev.Ready.tables {is : List Nat} (h : d.Ready) (his : ∀ i ∈ is, i < d.aadesNo)
    (dma : Nat → Nat) (clock rand : Nat) :
    ((is.map fun i => Call.write (0x100 * (i + 1) + 0x08) (dma i) 4 clock rand noIo).foldl
      Tapedev.next d).Ready := by
  induction is generalizing d with
  | nil => exact h
  | cons i is ih =>
    have hi := his i List.mem_cons_self
    refine ih (h.table hi (dma i) clock rand) fun j hj => ?_
    have hsame := run_sameSections d [Call.write (0x100 * (i + 1) + 0x08) (dma i) 4 clock rand noIo]
    exact hsame.aadesNo ▸ his j (List.mem_cons_of_mem _ hj)

/-- `tapedev_probe` makes every device that can be created ready. -/
theorem probe_ready {p : Props} {x : Setup β} (hd : tapedevRealize p x = .ok d)
    (hf : p.fastMode = false) (clock rand : Nat) (io : Nat → Io) (dma : Nat → Nat) :
    ((probeCalls d.aadesNo clock rand io dma).foldl Tapedev.next d).Ready := by
  obtain ⟨rfl, hreal⟩ := tapedevRealize_ok hd
  generalize hd₀ : newTapedev p x = d at hreal
  have hoff : d.aadg = 0 ∧ d.fastMode = false ∧ ∀ i, d.written i = none := by
    rw [← hd₀]
    exact ⟨rfl, hf, fun _ => rfl⟩
  unfold probeCalls
  rw [List.foldl_append, List.foldl_append]
  -- the device is told to come up
  obtain ⟨hirq, hmask, hg⟩ := enableWrites_state d clock rand noIo
  have hframe : ∀ d : Tapedev β, let e := (enableWrites clock rand noIo).foldl Tapedev.next d
      e.aadesNo = d.aadesNo ∧ e.written = d.written ∧ e.fastMode = d.fastMode := by
    intro d
    obtain ⟨hn₁, -, hw₁, hf₁⟩ := aabh_frame d 0x10 0xffffffff
    obtain ⟨hn₂, -, hw₂, hf₂⟩ := aabh_frame (aabh d 0x10 0xffffffff) 0x0c initMask.toNat
    obtain ⟨hn₃, -, hw₃, hf₃⟩ :=
      aabh_frame (aabh (aabh d 0x10 0xffffffff) 0x0c initMask.toNat) 0x00 1
    exact ⟨hn₃.trans (hn₂.trans hn₁), hw₃.trans (hw₂.trans hw₁), hf₃.trans (hf₂.trans hf₁)⟩
  obtain ⟨hno, hw, hfast⟩ := hframe d
  generalize (enableWrites clock rand noIo).foldl Tapedev.next d = d₁ at hirq hmask hg hno hw hfast
  rw [if_pos hoff.1] at hg
  -- it comes up, the handler clears INIT_DONE, and the sections are unmasked
  have hup : (d₁.next (.timer clock io)) = (aaca d₁).1 := aabf_first hg clock io
  have hready : (([.timer clock io, .write 0x10 (1#32 <<< INIT_DONE).toNat 4 clock rand noIo,
      .write 0x0c (sectionsMask d.aadesNo).toNat 4 clock rand noIo] : List (Call β)).foldl
        Tapedev.next d₁).Ready := by
    show (((d₁.next (.timer clock io)).next (.write 0x10 _ 4 clock rand noIo)).next
      (.write 0x0c (sectionsMask d.aadesNo).toNat 4 clock rand noIo)).Ready
    obtain ⟨hg₂, -, hidle⟩ := aaca_on hg
    obtain ⟨hno₂, -, hfast₂, -, -, hirq₂⟩ := aaca_frame d₁
    have hw₂ : (aaca d₁).1.written = d₁.written := by rw [aaca_enabling hg]
    rw [hup, next_irqClear, next_irqMask]
    generalize (aaca d₁).1 = d₂ at hg₂ hidle hno₂ hfast₂ hirq₂ hw₂
    obtain ⟨hcg, hca⟩ := clearIrq_frame d₂.toPCIint (1#32 <<< INIT_DONE)
    have hcn : (clearIrq d₂.toPCIint (1#32 <<< INIT_DONE)).aadesNo = d.aadesNo := by
      rw [clearIrq_aadesNo, hno₂, hno]
    refine ⟨hcg.trans hg₂, hcn ▸ hreal.few, fun i hi => ?_, ?_, congrArg sectionsMask hcn.symm,
      fun i => ?_, hfast₂.trans (hfast.trans hoff.2.1)⟩
    · show ((clearIrq d₂.toPCIint (1#32 <<< INIT_DONE)).aades i).aadg = .idle
      rw [hca, hidle i (hno ▸ hcn ▸ hi)]
    · show (clearIrq d₂.toPCIint (1#32 <<< INIT_DONE)).irqAadf = 0
      rw [clearIrq_irqAadf, hirq₂, if_pos hg, hirq]
      decide
    · show d₂.written i = none
      rw [hw₂, hw]
      exact hoff.2.2 i
  have hsame := run_sameSections d₁ ([.timer clock io, .write 0x10 (1#32 <<< INIT_DONE).toNat 4 clock rand noIo,
      .write 0x0c (sectionsMask d.aadesNo).toNat 4 clock rand noIo] : List (Call β))
  exact hready.tables (fun i hi => hsame.aadesNo ▸ hno ▸ List.mem_range.mp hi) dma clock rand

end

/-- A device that has been created in the timer mode and probed, and the driver. -/
inductive Rig.Probed : Rig β → Prop
  | mk {p : Props} {x : Setup β} {d : Tapedev β} (hd : tapedevRealize p x = .ok d)
      (hf : p.fastMode = false) (clock rand : Nat) (io : Nat → Io) (dma : Nat → Nat)
      (info : Nat → SectionInfo) :
      Probed (probedMachine ((probeCalls d.aadesNo clock rand io dma).foldl Tapedev.next d) info,
        (probeCalls d.aadesNo clock rand io dma).foldl Tapedev.next d)

theorem Rig.Probed.agrees {r : Rig β} (h : r.Probed) : r.1.Initial ∧ r.1.Agrees r.2 := by
  obtain ⟨hd, hf, clock, rand, io, dma, info⟩ := h
  dsimp only
  exact (probe_ready hd hf clock rand io dma).agrees info

/-- The driver on the whole device. -/
def rig (β : Type) : Lts (Rig β) (RigLabel β) := ⟨Rig.Probed, Rig.next⟩

/-! ## Runs -/

section
variable {r r' : Rig β} {m m' : Machine D} {s t : Sys D} {l : Label D}

theorem rig_agrees (h : (rig β).Reach r) : r.1.Agrees r.2 := by
  refine Lts.invariant (M := rig β) (P := fun r => r.1.Agrees r.2) (fun r hr => hr.agrees.2)
    (fun r l r' _ hag hs => ?_) h
  cases l with
  | driver l clock rand =>
    change (if l.isDevice then none else _) = some r' at hs
    split at hs
    · cases hs
    · next hl =>
      obtain ⟨m, hm, rfl⟩ := Option.map_eq_some_iff.mp hs
      exact hag.driver (Bool.eq_false_iff.mpr hl) hm
  | timer clock io =>
    obtain ⟨m, hm, rfl⟩ := Option.map_eq_some_iff.mp hs
    obtain ⟨m', hexec, hag'⟩ := hag.timer clock io
    cases hm.symm.trans hexec
    exact hag'
  | cpu mem =>
    obtain ⟨m, hm, rfl⟩ := Option.map_eq_some_iff.mp hs
    obtain ⟨m', hexec, hag'⟩ := hag.cpu mem
    cases hm.symm.trans hexec
    exact hag'

/-- What the driver does on the whole device it does in the machine. -/
theorem rig_machine (h : (rig β).Reach r) : (machine (realDevice β)).Reach r.1 := by
  refine Lts.invariant (M := rig β) (P := fun r => (machine (realDevice β)).Reach r.1)
    (fun r hr => .init hr.agrees.1) (fun r l r' _ hm hs => ?_) h
  cases l with
  | driver l clock rand =>
    change (if l.isDevice then none else _) = some r' at hs
    split at hs
    · cases hs
    · obtain ⟨m, hnext, rfl⟩ := Option.map_eq_some_iff.mp hs
      exact hm.step hnext
  | timer clock io =>
    obtain ⟨m, hexec, rfl⟩ := Option.map_eq_some_iff.mp hs
    exact Lts.reach_exec hm hexec
  | cpu mem =>
    obtain ⟨m, hexec, rfl⟩ := Option.map_eq_some_iff.mp hs
    exact Lts.reach_exec hm hexec

/-! ## What the driver finds -/

theorem Sys.Flow.next (h : s.Flow) (hs : s.next l = some t) : t.Flow :=
  flow_step h (Sys.next_step h hs)

theorem Machine.flow_section {i : Nat} (h : (m.sections i).Flow) : (m.section i).Flow :=
  h.next (l := .otherLine m.line) rfl

theorem Machine.flow_put {i : Nat} (h : ∀ j, j < m.numSections → (m.sections j).Flow)
    (ht : t.Flow) (j : Nat) (hj : j < m.numSections) : ((m.put i t).sections j).Flow := by
  by_cases hji : j = i
  · subst hji
    rwa [Machine.put_self]
  · rw [Machine.put_other m hji]
    exact h j hj

/-- In every section the device is concerned with the head of the queue. -/
theorem machine_flow (h : (machine D).Reach m) : ∀ i, i < m.numSections → (m.sections i).Flow := by
  refine Lts.invariant (M := machine D) (P := fun m => ∀ i, i < m.numSections → (m.sections i).Flow)
    (fun m hm i hi => (hm.sections i hi).flow) (fun m l m' _ hf hs => ?_) h
  cases l with
  | own i l =>
    change (if l.isOwn then _ else none) = some m' at hs
    split at hs
    · obtain ⟨hi, t, ht, rfl⟩ := Machine.onSection_eq hs
      exact Machine.flow_put hf ((Machine.flow_section (hf i hi)).next ht)
    · cases hs
  | interrupt =>
    change m.next .interrupt = some m' at hs
    unfold Machine.next at hs
    dsimp only at hs
    split at hs
    · cases hs
      intro i hi
      show (m.snapshots i).Flow
      rw [Machine.snapshots_eq (m := m) hi]
      obtain ⟨hwords, hpending, htracks, -⟩ := hf i hi
      refine ⟨hwords, hpending, htracks.congr rfl rfl rfl rfl rfl, fun sn hsn => ?_⟩
      cases hsn
      exact ⟨id, id, fun st hst => by cases hst⟩
    · cases hs
  | readStatus =>
    obtain ⟨i, -, hs⟩ := Option.bind_eq_some_iff.mp hs
    obtain ⟨hi, t, ht, rfl⟩ := Machine.onSection_eq hs
    exact Machine.flow_put hf ((Machine.flow_section (hf i hi)).next (l := .readStatus) ht)
  | handle =>
    obtain ⟨i, -, hs⟩ := Option.bind_eq_some_iff.mp hs
    obtain ⟨m₁, hm₁, rfl⟩ := Option.map_eq_some_iff.mp hs
    obtain ⟨hi, t, ht, rfl⟩ := Machine.onSection_eq hm₁
    exact Machine.flow_put hf ((Machine.flow_section (hf i hi)).next (l := .handle) ht)
  | finish =>
    obtain ⟨i, -, hs⟩ := Option.bind_eq_some_iff.mp hs
    split at hs
    · cases hs
    · cases hs
      exact hf

/-- A queue that is empty has left the device at rest. -/
theorem Sys.Flow.quiet_of_empty (h : s.Flow) (he : s.sec.cmdQueue.isEmpty = true) : s.Quiet := by
  have htracks := h.tracks
  rw [List.isEmpty_iff.mp he] at htracks
  exact htracks

/-- The handler clears the interrupt that reports the head. -/
theorem Sys.Flow.handle_clears (h : s.Flow) {node : LstNode} {rest : List LstNode} {st : SectStatus}
    (hirq : s.irq = some ⟨!st.isErr, st.isErr, some st⟩) (hq : s.sec.cmdQueue = node :: rest)
    (hrep : s.Reported node st) :
    (s.accesses .handle).1 = some (if st.isErr then .error else .done) := by
  unfold Sys.accesses
  rw [hirq]
  cases herr : st.isErr with
  | true =>
    dsimp only
    rw [handle_error hq herr]
    rfl
  | false =>
    have hdone : st = .done := hrep.final.resolve_left (by rw [herr]; decide)
    subst hdone
    have hword := h.words node (by rw [hq]; exact List.mem_cons_self)
    obtain ⟨htake, heject⟩ := hrep.tape rfl
    dsimp only
    rw [show (!false) = true from rfl, handle_done hq hword htake heject]
    rfl

/-- When a step of the driver sends a command, the device is at rest, and has nothing to report
once the driver has cleared its interrupt. -/
theorem Sys.Flow.sends_at_rest (h : s.Flow) (hs : s.next l = some t) {n : LstNode}
    (hn : (s.accesses l).2 = some n) :
    D.busy s.dev = false ∧ (s.clear (s.accesses l).1).done = false ∧
      (s.clear (s.accesses l).1).error = false := by
  cases l with
  | splice =>
    unfold Sys.accesses at hn ⊢
    dsimp only at hn ⊢
    split at hn
    · dsimp only at hn
      split at hn
      · next he =>
        have hq := h.quiet_of_empty he
        exact ⟨hq.resting, hq.done, hq.error⟩
      · cases hn
    · cases hn
  | eject oom =>
    unfold Sys.accesses at hn ⊢
    dsimp only at hn ⊢
    split at hn
    · next he =>
      have hq := h.quiet_of_empty (Bool.and_eq_true_iff.mp he).2
      exact ⟨hq.resting, hq.done, hq.error⟩
    · cases hn
  | handle =>
    rcases h.handle_cases hs with ⟨sn, hirq, hd, he, -⟩ | ⟨node, rest, st, hirq, hq, hrep, -⟩
    · obtain ⟨done, error, status⟩ := sn
      dsimp only at hd he
      subst hd he
      unfold Sys.accesses at hn
      rw [hirq] at hn
      cases status <;> cases hn
    · rw [h.handle_clears hirq hq hrep]
      refine ⟨hrep.resting, ?_⟩
      have hd := hrep.done
      have he := hrep.error
      cases herr : st.isErr with
      | true =>
        rw [herr] at hd
        exact ⟨hd, rfl⟩
      | false =>
        rw [herr] at he
        exact ⟨rfl, he⟩
  | queueRq op start env => cases hn
  | build => cases hn
  | fail => cases hn
  | wake c => cases hn
  | signal c => cases hn
  | snapshot => cases hn
  | readStatus => cases hn
  | tick a => cases hn
  | otherLine level => cases hn

end

/-! ## Results -/

section
variable {d : Tapedev β} {i : Nat}

/-- A read of a register of a section. -/
theorem aabl_section (h8 : d.aadesNo ≤ 8) (hen : d.aadg = 2) (hi : i < d.aadesNo) {reg : Nat}
    (hreg : reg < 0x100) : aabl d (0x100 * (i + 1) + reg) 4 = d.aabj i reg := by
  have hsec := sectionOf_address (show i < 8 by omega) hreg
  unfold aabl
  rw [if_neg (not_not.mpr rfl), if_neg (by omega), if_neg (by omega), hsec.1, hsec.2,
    if_neg (by omega)]

/-- The IRQ status. -/
theorem aabl_irqStatus (d : Tapedev β) : aabl d 0x08 4 = d.irqAadf.toNat := by
  unfold aabl
  rw [if_neg (not_not.mpr rfl), if_pos (by decide)]
  unfold aabg
  rw [if_neg (by omega)]
  rfl

end

/-- **The driver runs on the whole device.** In every run of the driver with the device, with its
timer, the registers the driver reads have the values they have in the machine: the bits of
the IRQ status, STATUS and TAPE_NO of every section. The driver does what it does in a run of
the machine, and no call of the timer is one the machine cannot follow. -/
theorem driver_reads_registers {r : Rig β} (h : (rig β).Reach r) :
    (machine (realDevice β)).Reach r.1 ∧ r.2.line = r.1.line ∧
    (∀ i, i < r.1.numSections →
      (∀ q : Irq, (aabl r.2 0x08 4).testBit (q.index i) = (r.1.sections i).bit q) ∧
      aabl r.2 (0x100 * (i + 1) + 0x04) 4 = ((realDevice β).status (r.1.sections i).dev).code ∧
      aabl r.2 (0x100 * (i + 1) + 0x0c) 4 = (realDevice β).tapeNo (r.1.sections i).dev) ∧
    ∀ clock io, ∃ r', (rig β).next r (.timer clock io) = some r' := by
  have hag := rig_agrees h
  refine ⟨rig_machine h, hag.mirrors.line, fun i hi => ⟨fun q => ?_, ?_, ?_⟩, fun clock io => ?_⟩
  · rw [aabl_irqStatus, BitVec.testBit_toNat]
    exact hag.mirrors.bits i q hi
  · rw [aabl_section (hag.count ▸ hag.mirrors.few) hag.mirrors.enabled (hag.count ▸ hi) (by decide)]
    show r.2.statusReg i = _
    unfold Tapedev.statusReg
    rw [hag.unwritten i, hag.mirrors.aades i hi]
    rfl
  · rw [aabl_section (hag.count ▸ hag.mirrors.few) hag.mirrors.enabled (hag.count ▸ hi) (by decide)]
    show (r.2.aades i).aaaa = _
    rw [hag.mirrors.aades i hi]
    rfl
  · obtain ⟨m', hexec, -⟩ := hag.timer clock io
    exact ⟨_, Option.map_eq_some_iff.mpr ⟨m', hexec, rfl⟩⟩

/-- The small device with its driver. -/
def smallRig : Rig Nat :=
  (probedMachine ((probeCalls 1 0 0 (fun _ => plainIo) fun _ => 0).foldl Tapedev.next
    (smallDevice false)) fun _ => twoTapes,
    (probeCalls 1 0 0 (fun _ => plainIo) fun _ => 0).foldl Tapedev.next (smallDevice false))

theorem smallRig_probed : smallRig.Probed :=
  .mk (smallDevice_realized false) rfl 0 0 (fun _ => plainIo) (fun _ => 0) fun _ => twoTapes

/-- An EJECT without a tape is answered with an error. -/
theorem driver_reads_registers_eject :
    ∃ r, (rig Nat).Reach r ∧ (r.1.sections 0).bit .error = true ∧
      (aabl r.2 0x08 4).testBit (Irq.error.index 0) = true := by
  let r := ((rig Nat).exec smallRig [.driver (.own 0 (.eject false)) 3 0]).get (by decide +kernel)
  have hr : (rig Nat).Reach r := Lts.reach_exec (.init smallRig_probed) (Option.some_get _).symm
  have hbit : (r.1.sections 0).bit .error = true := by decide +kernel
  have hone : 0 < r.1.numSections := by decide +kernel
  exact ⟨r, hr, hbit, (((driver_reads_registers hr).2.2.1 0 hone).1 .error).trans hbit⟩

/-- The command in a list of writes, and what is written before it. -/
theorem regCalls_cmd {j i clock rand w c n : Nat} {a : Option Irq × Option LstNode}
    {pre post : List (Call β)} {io : Nat → Nat → Io}
    (h : regCalls j clock rand a = pre ++ Call.write (0x100 * (i + 1)) w 4 c n io :: post) :
    (∃ node, a.2 = some node) ∧ j = i ∧
      pre = (a.1.map fun q => Call.write 0x10 (irqBit q j).toNat 4 clock rand noIo).toList := by
  obtain ⟨q, node⟩ := a
  unfold regCalls at h
  have hne : ∀ {v : Nat} {x : Nat → Nat → Io} {c' n' : Nat},
      (Call.write 0x10 v 4 c' n' x : Call β) ≠ Call.write (0x100 * (i + 1)) w 4 c n io := by
    intro v x c' n' he
    have := (Call.write.inj he).1
    omega
  cases q with
  | none =>
    cases node with
    | none => cases pre <;> cases h
    | some node =>
      cases pre with
      | nil =>
        have hinj : 0x100 * (j + 1) = 0x100 * (i + 1) := (Call.write.inj (List.cons.inj h).1).1
        exact ⟨⟨node, rfl⟩, by omega, rfl⟩
      | cons b pre => cases pre <;> cases (List.cons.inj h).2
  | some q =>
    cases pre with
    | nil => exact absurd (List.cons.inj h).1 hne
    | cons b pre =>
      obtain ⟨hb, hrest⟩ := List.cons.inj h
      subst hb
      cases node with
      | none => cases pre <;> cases hrest
      | some node =>
        cases pre with
        | nil =>
          have hinj : 0x100 * (j + 1) = 0x100 * (i + 1) :=
            (Call.write.inj (List.cons.inj hrest).1).1
          exact ⟨⟨node, rfl⟩, by omega, rfl⟩
        | cons b pre => cases pre <;> cases (List.cons.inj hrest).2

/-- **No command is written to a busy section.** Whenever the driver writes a command to the CMD
register of a section, in whatever run of the driver with the whole device in timer mode, the
section is executing none, and neither of its interrupts is pending at that moment. -/
theorem command_finds_section_at_rest {r r' : Rig β} (h : (rig β).Reach r)
    {l : Machine.Label (realDevice β)} {clock rand : Nat}
    (hs : (rig β).next r (.driver l clock rand) = some r') {i w c n : Nat} {io : Nat → Nat → Io}
    {pre post : List (Call β)}
    (hw : r.1.writes clock rand l = pre ++ Call.write (0x100 * (i + 1)) w 4 c n io :: post) :
    let d := pre.foldl Tapedev.next r.2
    (d.aades i).aadg.busy = false ∧ ∀ q : Irq, d.irqAadf.getLsbD (q.index i) = false := by
  have hag := rig_agrees h
  -- the step is one of section `i`
  obtain ⟨l', t, hi, hnext, hw⟩ : ∃ l' t, i < r.1.numSections ∧ (r.1.section i).next l' = some t ∧
      regCalls i clock rand ((r.1.section i).accesses l') =
        pre ++ Call.write (0x100 * (i + 1)) w 4 c n io :: post := by
    change (if l.isDevice then none else _) = some r' at hs
    split at hs
    · cases hs
    · obtain ⟨m, hm, -⟩ := Option.map_eq_some_iff.mp hs
      cases l with
      | own j l' =>
        obtain ⟨-, rfl, -⟩ := regCalls_cmd hw
        change (if l'.isOwn then _ else none) = some m at hm
        split at hm
        · obtain ⟨hi, t, ht, -⟩ := Machine.onSection_eq hm
          exact ⟨l', t, hi, ht, hw⟩
        · cases hm
      | handle =>
        obtain ⟨j, hh, hm⟩ := Option.bind_eq_some_iff.mp hm
        obtain ⟨m₁, hm₁, -⟩ := Option.map_eq_some_iff.mp hm
        obtain ⟨hi, t, ht, -⟩ := Machine.onSection_eq hm₁
        simp only [Machine.writes, hh] at hw
        obtain ⟨-, rfl, -⟩ := regCalls_cmd hw
        exact ⟨.handle, t, hi, ht, hw⟩
      | interrupt => cases pre <;> cases hw
      | readStatus => cases pre <;> cases hw
      | finish => cases pre <;> cases hw
  obtain ⟨⟨node, hn⟩, -, hpre⟩ := regCalls_cmd hw
  have hflow := Machine.flow_section (machine_flow (rig_machine h) i hi)
  obtain ⟨hrest, hdone, herror⟩ := hflow.sends_at_rest hnext hn
  have hag' : (r.1.put i ((r.1.section i).clear ((r.1.section i).accesses l').1)).Agrees
      (pre.foldl Tapedev.next r.2) := by
    rw [hpre]
    exact hag.clears hi _ clock rand
  have hdev : ((r.1.section i).clear ((r.1.section i).accesses l').1).dev = (r.1.section i).dev :=
    Sys.clear_dev _ _
  refine ⟨?_, fun q => ?_⟩
  · rw [hag'.mirrors.aades i hi, Machine.put_self, hdev]
    exact hrest
  · rw [hag'.mirrors.bits i q hi, Machine.put_self]
    cases q with
    | done => exact hdone
    | error => exact herror

/-- An EJECT on the small device. -/
theorem command_finds_section_at_rest_eject :
    ∃ w, smallRig.1.writes 3 0 (.own 0 (.eject false)) = [Call.write 0x100 w 4 3 0 noIo] ∧
      (smallRig.2.aades 0).aadg.busy = false := by
  have hs : (rig Nat).next smallRig (.driver (.own 0 (.eject false)) 3 0) =
      some (((rig Nat).next smallRig (.driver (.own 0 (.eject false)) 3 0)).get (by decide +kernel)) :=
    (Option.some_get _).symm
  have hw : smallRig.1.writes 3 0 (.own 0 (.eject false)) =
      [] ++ Call.write (0x100 * (0 + 1)) (ioctlNode 0).word 4 3 0 noIo :: [] := rfl
  have hrest := (command_finds_section_at_rest (.init smallRig_probed) hs hw).1
  rw [List.foldl_nil] at hrest
  exact ⟨_, hw, hrest⟩

end Zso.Tape

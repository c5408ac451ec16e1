import Zso.Lib.Transition
import Zso.Tape.Plan
import Zso.Tape.Section

/-!
# A section at work

One section of the driver, the interrupt handler as far as it concerns the
section, and the device behind it, as a transition system. The steps are the
critical sections of the driver's threads, the register reads between them, and
the moves of the device:

* a submission: `queueRq` (up to `sec->req = req`), `build` (the commands and the
  page table), `splice` (under the lock), or `fail`;
* EJECT ioctls: `eject`, then `wake` or `signal`;
* the handler: `snapshot` of the IRQ status, `readStatus` of the section, and
  `handle` under the lock. It may run at any time, as the line is shared with the
  other sections;
* the device: `tick`.

blk-mq hands over one request at a time: a new one comes only when the previous
one has been ended.

The device is a parameter `DevModel`: a section that accepts a command when idle,
and answers it at once or later. What is proved here holds for every device that
follows the laws of the structure.
-/

namespace Zso.Tape
open Transition

/-- A section of a device as the driver sees it. A section is idle, busy with a
command (`Exec s w` says which one), or has failed. An answer is a final status;
`tick` is the device's own progress, with an oracle for what it depends on. -/
structure DevModel where
  σ : Type
  α : Type
  status : σ → SectStatus
  tapeNo : σ → Nat
  idle : σ → Bool
  busy : σ → Bool
  Exec : σ → Nat → Prop
  write : σ → Nat → σ × Option SectStatus
  tick : σ → α → Option (σ × Option SectStatus)
  /-- the host does its part -/
  healthy : α → Prop
  exec_busy : ∀ {s w}, Exec s w → busy s = true
  busy_idle : ∀ {s}, busy s = true → idle s = false
  write_busy : ∀ {s} w, idle s = false → write s w = (s, none)
  write_start : ∀ {s w}, idle s = true → (write s w).2 = none →
    Exec (write s w).1 w ∧ tapeNo (write s w).1 = tapeNo s
  write_refuse : ∀ {s w st}, idle s = true → (write s w).2 = some st →
    idle (write s w).1 = true ∧ status (write s w).1 = st ∧ st.isErr = true ∧
    tapeNo (write s w).1 = tapeNo s
  tick_goes : ∀ {s a s'}, tick s a = some (s', none) →
    (∀ w, Exec s w ↔ Exec s' w) ∧ busy s' = busy s ∧ idle s' = idle s ∧ status s' = status s ∧
    tapeNo s' = tapeNo s
  tick_ends : ∀ {s a s' st}, tick s a = some (s', some st) →
    busy s = true ∧ busy s' = false ∧ status s' = st ∧ (st.isErr = true ∨ st = .done) ∧
    (healthy a → idle s' = true)
  tick_tape : ∀ {s a s' w}, tick s a = some (s', some .done) → Exec s w →
    (fieldCmd w = CMD_TAKE_TAPE → tapeNo s' = fieldArg w) ∧
    (fieldCmd w = CMD_EJECT_TAPE → tapeNo s' = NO_TAPE)

/-- What the handler has read: the section's two bits of the IRQ status, and then
the section's status. -/
structure Snapshot where
  done : Bool
  error : Bool
  status : Option SectStatus
deriving DecidableEq, Repr

/-- The thread in `tapedev_queue_rq`. -/
inductive Submit
  | idle
  /-- `sec->req` is set -/
  | started (r : Nat) (write : Bool) (start : Nat) (env : SgEnv)
  /-- the commands are on the private list -/
  | built (r : Nat) (nodes : List LstNode)
  /-- the submission failed with this status -/
  | failed (r : Nat) (status : BlkStatus)

structure Sys (D : DevModel) where
  sec : Section
  submit : Submit
  /-- the request blk-mq has handed over and not got back -/
  outstanding : Option Nat
  nextReq : Nat
  /-- the commands linked for the last request -/
  built : List LstNode
  /-- the EJECT calls that wait for `ioctl_cmd_done` -/
  waiters : List Nat
  nextCall : Nat
  dev : D.σ
  /-- the section's bits of the IRQ status, and the level of the line -/
  done : Bool
  error : Bool
  line : Bool
  irq : Option Snapshot
  /-- the command the device is executing -/
  cur : Option LstNode
  log : List Event

variable {D : DevModel}

/-! ## The device's registers -/

/-- The device completes a command: `raise_irq` with the bit for the status. -/
def Sys.answer (s : Sys D) (node : Option LstNode) (st : SectStatus) : Sys D :=
  { s with
    done := s.done || !st.isErr
    error := s.error || st.isErr
    line := true
    cur := none
    log := s.log ++ (node.map fun n => Event.answered n st).toList }

/-- `section_send_cmd` -/
def Sys.send (s : Sys D) (node : LstNode) : Sys D :=
  let accepted := D.idle s.dev
  let r := D.write s.dev node.word
  let s' := { s with dev := r.1, log := s.log ++ [.sent node accepted] }
  match r.2 with
  | some st => s'.answer (some node) st
  | none => if accepted then { s' with cur := some node } else s'

theorem Sys.send_dev (s : Sys D) (n : LstNode) : (s.send n).dev = (D.write s.dev n.word).1 := by
  unfold Sys.send
  dsimp only
  split
  · rfl
  · split <;> rfl

def Sys.sendOpt (s : Sys D) : Option LstNode → Sys D
  | none => s
  | some node => s.send node

/-- Nodes are put at the end of the queue. If it was empty, the first of them is
sent before they are linked. -/
def Sys.link (s : Sys D) (nodes : List LstNode) : Sys D :=
  let s := if s.sec.cmdQueue.isEmpty then s.sendOpt nodes.head? else s
  { s with sec := { s.sec with cmdQueue := s.sec.cmdQueue ++ nodes } }

/-- `clear_sec_done_intrpt`, `clear_sec_err_intrpt`. Clearing a bit that is set
drops the line. -/
def Sys.clear (s : Sys D) : Option Irq → Sys D
  | none => s
  | some .done => { s with done := false, line := s.line && !s.done }
  | some .error => { s with error := false, line := s.line && !s.error }

/-! ## Steps -/

/-- `tapedev_queue_rq`, up to the first critical section. `op` is `none` for an
operation other than READ and WRITE. -/
def Sys.queueRq (s : Sys D) (op : Option Bool) (start : Nat) (env : SgEnv) : Option (Sys D) :=
  match s.outstanding, s.submit with
  | none, .idle =>
    let s := { s with outstanding := some s.nextReq, nextReq := s.nextReq + 1 }
    let r := s.nextReq - 1
    match op with
    | some write =>
      some { s with sec := { s.sec with req := some r }, submit := .started r write start env }
    | none => some { s with submit := .failed r .notsupp }
  | _, _ => none

/-- `create_start_pos_setup_cmds` and `do_scatter_gather`, up to the lock. -/
def Sys.build (s : Sys D) : Option (Sys D) :=
  match s.submit with
  | .started r write start env =>
    some (onOutcome
      (fun e => { s with
        sec := { s.sec with cpuDmaBuf := e.2.pgtBuf }, submit := .failed r e.1 })
      (fun st => { s with
        sec := { s.sec with cpuDmaBuf := st.pgtBuf }
        submit := .built r (st.cmds.map fun c => ⟨c, .request r⟩) })
      (planRequest s.sec.info write env start s.sec.cpuDmaBuf))
  | _ => none

/-- The critical section at the end of `do_scatter_gather`. -/
def Sys.splice (s : Sys D) : Option (Sys D) :=
  match s.submit with
  | .built r nodes =>
    let s := { s with log := s.log ++ [Event.queued r nodes] }.link nodes
    some { s with submit := .idle, built := nodes }
  | _ => none

/-- The critical section of `tapedev_queue_rq` after a failed submission. The
block layer gets the status and is done with the request. -/
def Sys.fail (s : Sys D) : Option (Sys D) :=
  match s.submit with
  | .failed r status =>
    some { s with
      sec := { s.sec with req := none }
      submit := .idle
      outstanding := none
      log := s.log ++ if s.sec.req = none then [] else [.ended r status s.sec.req] }
  | _ => none

/-- An EJECT call that finds `ioctl_cmd_done` set returns. -/
def Sys.consume (s : Sys D) (c : Nat) : Sys D :=
  let r := ejectConsume s.sec
  { s with sec := r.1, log := s.log ++ [.returned c r.2] }

/-- The EJECT ioctl up to its first wait. -/
def Sys.eject (s : Sys D) (oom : Bool) : Sys D :=
  let c := s.nextCall
  let s := { s with nextCall := c + 1 }
  if oom then { s with log := s.log ++ [.returned c (-ENOMEM)] }
  else
    let s := { s with sec := { s.sec with ejectionCmds := s.sec.ejectionCmds + 1 } }
    let s := s.link [ioctlNode c]
    if s.sec.ioctlCmdDone then s.consume c else { s with waiters := s.waiters ++ [c] }

def Sys.wake (s : Sys D) (c : Nat) : Option (Sys D) :=
  if c ∈ s.waiters ∧ s.sec.ioctlCmdDone = true then
    some ({ s with waiters := s.waiters.erase c }.consume c)
  else none

/-- A signal ends the wait only while the flag is clear. -/
def Sys.signal (s : Sys D) (c : Nat) : Option (Sys D) :=
  if c ∈ s.waiters ∧ s.sec.ioctlCmdDone = false then
    some { s with
      waiters := s.waiters.erase c, log := s.log ++ [.returned c (-ERESTARTSYS)] }
  else none

def Sys.snapshot (s : Sys D) : Option (Sys D) :=
  match s.irq with
  | none => some { s with irq := some ⟨s.done, s.error, none⟩ }
  | some _ => none

def Sys.readStatus (s : Sys D) : Option (Sys D) :=
  match s.irq with
  | some ⟨done, error, none⟩ => some { s with irq := some ⟨done, error, some (D.status s.dev)⟩ }
  | _ => none

def Event.endsRequest : Event → Bool
  | .ended _ _ _ => true
  | _ => false

/-- The body of `handle_sections_interrupts` for the section. -/
def Sys.handle (s : Sys D) : Option (Sys D) :=
  match s.irq with
  | some ⟨done, error, some st⟩ =>
    if done || error then
      let h := handleSectionInterrupt done error st (D.tapeNo s.dev) s.sec
      let s := s.clear h.clear
      let s := { s with
        sec := h.sec
        irq := none
        outstanding := if h.events.any Event.endsRequest then none else s.outstanding
        log := s.log ++ h.events }
      some (s.sendOpt h.send)
    else some { s with irq := none }
  | _ => none

def Sys.tick (s : Sys D) (a : D.α) : Option (Sys D) :=
  (D.tick s.dev a).map fun r =>
    let s' := { s with dev := r.1 }
    match r.2 with
    | some st => s'.answer s.cur st
    | none => s'

inductive Label (D : DevModel)
  | queueRq (op : Option Bool) (start : Nat) (env : SgEnv)
  | build
  | splice
  | fail
  | eject (oom : Bool)
  | wake (c : Nat)
  | signal (c : Nat)
  | snapshot
  | readStatus
  | handle
  | tick (a : D.α)
  /-- another section raises or drops the line -/
  | otherLine (level : Bool)

def Sys.next (s : Sys D) : Label D → Option (Sys D)
  | .queueRq op start env => s.queueRq op start env
  | .build => s.build
  | .splice => s.splice
  | .fail => s.fail
  | .eject oom => some (s.eject oom)
  | .wake c => s.wake c
  | .signal c => s.signal c
  | .snapshot => s.snapshot
  | .readStatus => s.readStatus
  | .handle => s.handle
  | .tick a => s.tick a
  | .otherLine level => some { s with line := level }

/-- An initialised section: nothing queued, nothing in flight, the handler not
running. Which tape is loaded is up to the device. -/
structure Sys.Initial (s : Sys D) : Prop where
  queue : s.sec.cmdQueue = []
  req : s.sec.req = none
  flag : s.sec.ioctlCmdDone = false
  ioctlStatus : s.sec.ioctlStatus = 0
  submit : s.submit = .idle
  outstanding : s.outstanding = none
  waiters : s.waiters = []
  dev : D.idle s.dev = true
  done : s.done = false
  error : s.error = false
  irq : s.irq = none
  cur : s.cur = none
  log : s.log = []

/-- The section with the device `D`, started in a state with `I`. -/
def systemFrom (D : DevModel) (I : Sys D → Prop) : Lts (Sys D) (Label D) := ⟨I, Sys.next⟩

/-- The section with the device `D`. -/
def system (D : DevModel) : Lts (Sys D) (Label D) := systemFrom D Sys.Initial

/-! ## A device that answers as it likes -/

structure AnyDev where
  /-- the command being executed -/
  cur : Option Nat
  status : SectStatus
  tape : Nat
deriving DecidableEq, Repr

/-- Every command is answered with DONE or with an error, whichever the oracle
says. A tape is there after a TAKE_TAPE that is done, and none after an
EJECT_TAPE. -/
def anyDevice : DevModel where
  σ := AnyDev
  α := SectStatus
  status := AnyDev.status
  tapeNo := AnyDev.tape
  idle s := s.cur.isNone
  busy s := s.cur.isSome
  Exec s w := s.cur = some w
  write s w :=
    if s.cur.isNone then ({ s with cur := some w, status := .working }, none) else (s, none)
  tick s st :=
    match s.cur with
    | none => none
    | some w =>
      if st.isErr = true ∨ st = .done then
        let tape :=
          if st = .done then
            match fieldCmd w with
            | CMD_TAKE_TAPE => fieldArg w
            | CMD_EJECT_TAPE => NO_TAPE
            | _ => s.tape
          else s.tape
        some (⟨none, st, tape⟩, some st)
      else none
  healthy _ := True
  exec_busy := by
    intro s w h
    simp [h]
  busy_idle := by
    intro s h
    simpa [Option.isSome_iff_ne_none] using h
  write_busy := by
    intro s w h
    simp [h]
  write_start := by
    intro s w h _
    simp [h]
  write_refuse := by
    intro s w st h hst
    simp [h] at hst
  tick_goes := by
    intro s a s' h
    cases hc : s.cur with
    | none => simp [hc] at h
    | some w =>
      simp only [hc] at h
      split at h <;> cases h
  tick_ends := by
    intro s a s' st h
    cases hc : s.cur with
    | none => simp [hc] at h
    | some w =>
      simp only [hc] at h
      split at h
      · next hst =>
        cases h
        exact ⟨by simp, rfl, rfl, hst, fun _ => rfl⟩
      · cases h
  tick_tape := by
    intro s a s' w h hw
    simp only [hw] at h
    split at h
    · cases h
      constructor
      · intro hc
        simp [hc]
      · intro hc
        simp [hc]
    · cases h

/-- A section with two of the smallest tapes on this device, just initialised. -/
def freshSection : Sys anyDevice where
  sec := ⟨twoTapes, NO_TAPE, 0, false, 0, 0, fun _ => 0, none, []⟩
  submit := .idle
  outstanding := none
  nextReq := 0
  built := []
  waiters := []
  nextCall := 0
  dev := ⟨none, .idle, 0⟩
  done := false
  error := false
  line := false
  irq := none
  cur := none
  log := []

theorem freshSection_initial : freshSection.Initial := by
  constructor <;> rfl

end Zso.Tape

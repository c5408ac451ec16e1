import Zso.Tape.RealDevice
import Zso.Tape.WireFormat

/-!
# The whole device: registers, timer and sections

`Tapedev` is the state of `tapedev.c` between two calls of its functions. The guest
reads and writes registers of any size at any address (`aabl`, `aabk`), the timer calls
`aabf`, the board may be reset, and the CPU may change the memory; nothing is assumed
about who does it, or in which order.

A command is executed by the timer or, in the fast mode, at once, by the loop at the end of
`aabm`. The `assert`s of the source and its array accesses are checked: the first one that
fails is kept in `fault`.

* `Tapedev.next` is one call from outside, `tapedev` the system of all such calls.
* `Tapedev.Atom` is what the device can do at once, and `next_atoms` says that every call is a
  sequence of it.
-/

namespace Zso.Tape
open Bits Transition

variable {β : Type}

/-! ## Checks -/

inductive Fault
  /-- an `assert` that does not hold -/
  | assert
  /-- an array used outside its bounds -/
  | bounds
deriving DecidableEq, Repr

/-- `aaas`, `aaat`: a tape is loaded, and `aaag` has a place for it. -/
def loadedFault (s : Aacc β) : Option Fault :=
  if s.aaaa = 0 then some .assert else if s.aaad ≤ s.aaaa - 1 then some .bounds else none

/-- `aaaw`. -/
def aaawFault (s : Aacc β) : Option Fault :=
  if s.aaai = 0 ∨ s.aaad < s.aaai ∨ s.aaaa ≠ 0 then some .assert
  else if s.aaad ≤ s.aaai - 1 then some .bounds else none

/-- The transfer of a block: `aaap` has 513 entries, and `aada` 8192 bytes. -/
def aaboMoveFault (s : Aacc β) (isRead : Bool) (io : Io) : Option Fault :=
  if 512 < s.aaan then some .bounds
  else if aabb s = 0 then none
  else if io.seek = false then none
  else if 8192 < s.blockSize then some .bounds
  else if isRead && !io.file then none
  else if io.dma = false then none
  else if io.file = false then none
  else loadedFault s

def aaboFault (s : Aacc β) (isRead : Bool) (io : Io) : Option Fault :=
  -- the check in `aaar`, before the one of `aabo`
  if s.aaaa = 0 then some .assert
  else if s.aaab = 0 then none
  else if s.aaaf ≥ s.tapeSize ∨ s.aaaf + s.blockSize > s.tapeSize then none
  else if s.aaal = 0 then none
  else if s.aaak = 0 then
    match aabn s io with
    | .error _ => none
    | .ok s => aaboMoveFault s isRead io
  else aaboMoveFault s isRead io

/-- The checks of one step of a section. -/
def stepFault (s : Aacc β) (io : Io) : Option Fault :=
  match s.aadg with
  | .disabled => none
  | .idle => none
  | .take => aaawFault s
  | .eject => if s.aaaa = 0 then some .assert else none
  | .rewind => loadedFault s
  | .ffwd => loadedFault s
  | .read => aaboFault s true io
  | .write => aaboFault s false io
  | .failed => none

/-! ## State -/

/-- `struct PCIint`. `d->aaah` is never anything but 0 and is left out. -/
structure Tapedev (β : Type) extends PCIint β where
  /-- STATUS register of the device -/
  aadf : Nat
  /-- what the guest has written over the STATUS of a section -/
  written : Nat → Option Nat
  /-- `aaah` of a section: when it may go on, in ms -/
  aaah : Nat → Int
  fastMode : Bool
  /-- memory on the bus, in 512-byte units -/
  mem : Nat → β
  fault : Option Fault

/-- A command has been started: `aabd`. In the timer mode `clock + time == 0 ? 0 : rand() % time`
is read by C as a condition on the sum. -/
def Tapedev.delay (d : Tapedev β) (id : Nat) (clock time rand : Nat) : Tapedev β :=
  { d with
    aaah := Function.update d.aaah id
      (if d.fastMode then (clock : Int) - 1
      else if clock + time = 0 then 0 else ((rand % time : Nat) : Int)) }

/-! ## The timer -/

/-- A section has work to do: not `no_work` of `aabf`. -/
def Tapedev.works (d : Tapedev β) (clock id : Nat) : Bool :=
  (d.aades id).aadg.busy && (d.fastMode || decide (d.aaah id ≤ clock))

/-- The body of the loop of `aabf`. `rand() % 1` in `aabe` is 0. -/
def Tapedev.pass (d : Tapedev β) (clock : Nat) (io : Nat → Io) (id : Nat) : Tapedev β :=
  if d.works clock id then
    let s := d.aades id
    let r := aabf s d.mem (io id)
    let d' := { d with
      toPCIint := d.toPCIint.answer id r.1
      mem := r.2
      fault := d.fault.or (stepFault s (io id)) }
    match r.1.2 with
    | some _ => { d' with written := Function.update d.written id none }
    | none => d'.delay id clock 1 0
  else d

/-- The first loop of `aaca`. It stops at a section that is busy. -/
def stopLoop : List Nat → (Nat → Aacc β) → Bool × (Nat → Aacc β)
  | [], f => (true, f)
  | i :: is, f =>
    if (f i).aadg = .idle ∨ (f i).aadg = .failed then
      stopLoop is (Function.update f i { f i with aadg := .disabled })
    else (false, f)

/-- A loop over the sections of the device. -/
def Tapedev.each (d : Tapedev β) (f : Aacc β → Aacc β) : Tapedev β :=
  { d with aades := fun i => if i < d.aadesNo then f (d.aades i) else d.aades i }

/-- A mark of `stopLoop` taken back. -/
def Aacc.unmark (s : Aacc β) : Aacc β := if s.aadg = .disabled then { s with aadg := .idle } else s

def irqInitDone : BitVec 32 := 1#32 <<< 0

/-- `aaca`: the device is enabled or disabled. The result is that of `aaca`. -/
def aaca (d : Tapedev β) : Tapedev β × Bool :=
  if d.aadg = 1 then
    let d := { d with aadg := 2, aadf := 1 }.each fun s : Aacc β => { s with aadg := .idle }
    ({ d with toPCIint := raiseIrq d.toPCIint irqInitDone }, false)
  else if d.aadg = 3 then
    match stopLoop (List.range d.aadesNo) d.aades with
    | (true, aades) => ({ d with aades := aades, aadg := 0, aadf := 0 }.each aaaz, true)
    | (false, aades) => ({ d with aades := aades }.each Aacc.unmark, false)
  else (d, false)

/-- The loop of `aabf` over the sections, and whether it has done anything. -/
def Tapedev.passAll (clock : Nat) (io : Nat → Io) : List Nat → Tapedev β → Tapedev β × Bool
  | [], d => (d, false)
  | i :: is, d =>
    let r := (d.pass clock io i).passAll clock io is
    (r.1, d.works clock i || r.2)

/-- `aabf`. -/
def Tapedev.aabf (d : Tapedev β) (clock : Nat) (io : Nat → Io) : Tapedev β × Bool :=
  if d.aadg = 0 then (d, false)
  else
    let r := aaca d
    if r.2 then r else r.1.passAll clock io (List.range r.1.aadesNo)

/-! ## Registers -/

/-- Steps a section needs at most to complete its command. -/
def Aacc.work (s : Aacc β) : Nat :=
  match s.aadg with
  | .read | .write => s.aaal + 1
  | .take | .eject | .rewind | .ffwd => 1
  | .disabled | .idle | .failed => 0

def Tapedev.work (d : Tapedev β) : Nat := ((List.range d.aadesNo).map fun i => (d.aades i).work).sum

/-- `while (aabf(s->d)) ;`, at most `n` times. The second component says that the loop has
ended. -/
def fastLoop (clock : Nat) : Nat → (Nat → Nat → Io) → Tapedev β → Tapedev β × Bool
  | 0, _, d => (d, false)
  | n + 1, io, d =>
    let r := d.aabf clock (io 0)
    if r.2 then fastLoop clock n (fun k => io (k + 1)) r.1 else (r.1, true)

/-- `aabm` without the loop at its end. -/
def Tapedev.start (d : Tapedev β) (id cmdVal clock rand : Nat) : Tapedev β :=
  let s := d.aades id
  let a := aabm d.aadg s cmdVal
  if s.aadg = .idle then
    let d := { d with
      toPCIint := d.toPCIint.answer id a, written := Function.update d.written id none }
    match a.2 with
    | some _ => d
    | none => d.delay id clock (if a.1.aadg = .read ∨ a.1.aadg = .write then 1 else 100) rand
  else d

/-- `aabm`. The loop has as many rounds as it can need: `fastLoop_ends`. -/
def Tapedev.aabm (d : Tapedev β) (id cmdVal clock rand : Nat) (io : Nat → Nat → Io) : Tapedev β :=
  let d' := d.start id cmdVal clock rand
  if d.fastMode ∧ (d.aades id).aadg = .idle ∧ d.aadg ≠ 4 then (fastLoop clock (d'.work + 1) io d').1
  else d'

/-- A section with a new state. -/
def Tapedev.setSection (d : Tapedev β) (id : Nat) (s : Aacc β) : Tapedev β :=
  { d with aades := Function.update d.aades id s }

/-- `aabi`: a write of a register of a section. -/
def Tapedev.aabi (d : Tapedev β) (id aadeAabu val clock rand : Nat) (io : Nat → Nat → Io) :
    Tapedev β :=
  if d.aadg ≠ 2 then d
  else
    match aadeAabu with
    | 0x00 => d.aabm id val clock rand io
    | 0x04 => { d with written := Function.update d.written id (some val) }
    | 0x08 => d.setSection id (aabiPgtable d.aadg (d.aades id) val)
    | 0x18 =>
      if (d.aades id).aadg = .idle ∧ val ≤ 4 then d.setSection id { d.aades id with aaac := val }
      else d
    | _ => d

/-- `aabh`: a write of a register of the device. -/
def aabh (d : Tapedev β) (aabu val : Nat) : Tapedev β :=
  match aabu with
  | 0x00 =>
    if 0 < val ∧ d.aadg = 0 then { d with aadg := 1 }
    else if val = 0 ∧ (d.aadg = 2 ∨ d.aadg = 4) then { d with aadg := 3 }
    else d
  | 0x04 => { d with aadf := val }
  | 0x0c => { d with irqMask := BitVec.ofNat 32 val }
  | 0x10 => { d with toPCIint := clearIrq d.toPCIint (BitVec.ofNat 32 val) }
  | _ => d

/-- The section of an address. The subtraction wraps around. -/
def sectionOf (aabu : Nat) : Nat := u64sub ((aabu &&& 0xff00) >>> 8) 1

/-- `aabk`: a write of the guest. -/
def aabk (d : Tapedev β) (aabu val size clock rand : Nat) (io : Nat → Nat → Io) : Tapedev β :=
  if size ≠ 4 then d
  else if aabu ≤ 0xfc then aabh d aabu val
  else if d.aadg = 0 then d
  else if d.aadesNo ≤ sectionOf aabu then d
  else d.aabi (sectionOf aabu) (aabu &&& 0xff) val clock rand io

/-- `aabg`: a read of a register of the device. -/
def aabg (d : Tapedev β) (aabu : Nat) : Nat :=
  if d.aadg = 0 ∧ 0x14 ≤ aabu then 0
  else
    match aabu with
    | 0x00 => if d.aadg ≠ 0 ∧ d.aadg ≠ 1 then 1 else 0
    | 0x04 => d.aadf
    | 0x08 => d.irqAadf.toNat
    | 0x0c => d.irqMask.toNat
    | 0x14 => d.aadesNo
    | _ => 0

/-- STATUS of a section as the guest reads it. -/
def Tapedev.statusReg (d : Tapedev β) (id : Nat) : Nat := (d.written id).getD (d.aades id).aadf.code

/-- `aabj`: a read of a register of a section. -/
def Tapedev.aabj (d : Tapedev β) (id aadeAabu : Nat) : Nat :=
  let s := d.aades id
  match aadeAabu with
  | 0x00 => if d.statusReg id ≠ 1 then 1 else 0
  | 0x04 => d.statusReg id
  | 0x08 => aabjPgtable s
  | 0x0c => s.aaaa
  | 0x10 => s.aaad
  | 0x14 => s.aaae
  | 0x18 => s.aaac
  | _ => 0

/-- `aabl`: a read of the guest. -/
def aabl (d : Tapedev β) (aabu size : Nat) : Nat :=
  if size ≠ 4 then 0
  else if aabu ≤ 0xfc then aabg d aabu
  else if d.aadg = 0 ∨ d.aadg = 1 then 0
  else if d.aadesNo ≤ sectionOf aabu then 0
  else d.aabj (sectionOf aabu) (aabu &&& 0xff)

/-! ## Reset and start -/

/-- A section after `tapedev_reset`. The positions of its tapes are kept. -/
def Aacc.reset (s : Aacc β) : Aacc β :=
  aaaz { s with aadf := .idle, aaaa := 0, aaab := 0, aaac := 0, aadg := .idle, aaaf := 0 }

def tapedevReset (d : Tapedev β) : Tapedev β :=
  let d := { d with aadf := 0, irqAadf := 0, irqMask := 0, aadg := 0 }
  { d.each Aacc.reset with
    written := fun i => if i < d.aadesNo then none else d.written i
    aaah := fun i => if i < d.aadesNo then 0 else d.aaah i }

/-- The properties the device is created with. -/
structure Props where
  /-- `data_dir` is given -/
  dataDir : Bool
  fastMode : Bool
  tapes : List Nat
  tapeTypes : List Nat

/-- The file of a section, and how the host answers while it is opened. -/
structure HostFile (β : Type) where
  openat : Bool
  seekEnd : Bool
  seekLast : Bool
  write : Bool
  seekStart : Bool
  /-- its length in bytes -/
  len : Nat
  data : Nat → β
  /-- the unit with the last byte of the section, when that byte is 0 -/
  zeroed : β

/-- What the host answers while the device is created: the directory, the files of the
sections, and what `g_malloc` has left in the positions. -/
structure Setup (β : Type) where
  mkdir : Bool
  opendir : Bool
  file : Nat → HostFile β
  positions : Nat → Nat → Nat
  mem : Nat → β

/-- The size of the file of a section, an `uint32_t`. -/
def fileSize (tapes ty : Nat) : Nat := u32 (tapes * (32 * (1 <<< ty) * 8192))

/-- `size-1`. -/
def lastByte (size : Nat) : Nat := u32 (size + 2 ^ 32 - 1)

/-- The file after `open_tape_file`. -/
def HostFile.opened (f : HostFile β) (size : Nat) : Nat → β :=
  if f.len = size then f.data else Function.update f.data (lastByte size / 512) f.zeroed

/-- `open_tape_file`. The result of `lseek` is put into an `int`, so that it is taken for an error
from 2 GiB on. -/
def openTapeFile (i size : Nat) (f : HostFile β) : Except String (Nat → β) :=
  if f.openat = false then .error s!"Failed to open tape file {i}"
  else if f.seekEnd = false then .error s!"Failed to seek in tape file {i}"
  else if f.len = size then .ok (f.opened size)
  else if f.seekLast = false ∨ 2 ^ 31 ≤ lastByte size then .error s!"Failed to seek in tape file {i}"
  else if f.write = false then .error s!"Failed to write end zero into tape file {i}"
  else if f.seekStart = false then .error s!"Failed to seek in tape file {i}"
  else .ok (f.opened size)

/-- The section with `tapes` tapes of type `ty`. -/
def newAacc (tapes ty : Nat) (positions : Nat → Nat) (file : Nat → β) : Aacc β where
  aadf := .idle
  aaaa := 0
  aaab := 0
  aaac := 0
  aaad := tapes
  aaae := ty
  aadg := .idle
  aaaf := 0
  aaag := positions
  aaai := 0
  aaaj := 0
  aaak := 0
  aaal := 0
  aaam := 0
  aaan := 0
  aaao := 0
  aadb := file
  aaap := fun _ => 0

/-- The checks of the properties, with their messages. -/
def checkSections : List (Nat × Nat) → Except String Unit
  | [] => .ok ()
  | (tapes, ty) :: rest =>
    if 4 < ty then .error s!"invalid tape size {ty}"
    else if 10000 < tapes ∨ tapes = 0 then
      .error s!"invalid number of tapes: !(0 < {tapes} <= 10000)"
    else checkSections rest

/-- The files of the sections, or the first error. -/
def openFiles (file : Nat → HostFile β) : Nat → List (Nat × Nat) → Except String Unit
  | _, [] => .ok ()
  | i, (tapes, ty) :: rest =>
    match openTapeFile i (fileSize tapes ty) (file i) with
    | .error e => .error e
    | .ok _ => openFiles file (i + 1) rest

/-- The device that has been created. -/
def newTapedev (p : Props) (x : Setup β) : Tapedev β where
  aadg := 0
  irqAadf := 0
  irqMask := 0
  line := false
  aadesNo := p.tapes.length
  aades i :=
    let tapes := p.tapes.getD i 0
    let ty := p.tapeTypes.getD i 0
    newAacc tapes ty (x.positions i) ((x.file i).opened (fileSize tapes ty))
  aadf := 0
  written _ := none
  aaah _ := 0
  fastMode := p.fastMode
  mem := x.mem
  fault := none

/-- `tapedev_realize`. -/
def tapedevRealize (p : Props) (x : Setup β) : Except String (Tapedev β) :=
  let n := p.tapes.length
  if n ≠ p.tapeTypes.length then .error s!"tapes len {n} != tape_types len {p.tapeTypes.length}"
  else if 8 < n ∨ n = 0 then .error s!"invalid number of sections {n}"
  else
    match checkSections (p.tapes.zip p.tapeTypes) with
    | .error e => .error e
    | .ok () =>
      if p.dataDir = false then .error "data_dir not specified"
      else if x.mkdir = false then .error "Failed to create tape data directory"
      else if x.opendir = false then .error "Failed to open tape data directory"
      else
        match openFiles x.file 0 (p.tapes.zip p.tapeTypes) with
        | .error e => .error e
        | .ok () => .ok (newTapedev p x)

/-! ## Calls from outside -/

inductive Call (β : Type)
  /-- the guest writes a register -/
  | write (aabu val size clock rand : Nat) (io : Nat → Nat → Io)
  /-- the timer runs out: `aabp` -/
  | timer (clock : Nat) (io : Nat → Io)
  | reset
  /-- the CPU or another device writes to memory -/
  | cpu (mem : Nat → β)

def Tapedev.next (d : Tapedev β) : Call β → Tapedev β
  | .write aabu val size clock rand io => aabk d aabu val size clock rand io
  | .timer clock io => (d.aabf clock io).1
  | .reset => tapedevReset d
  | .cpu mem => { d with mem := mem }

/-- All the calls there can be, from a device that has been created. -/
def tapedev (β : Type) : Lts (Tapedev β) (Call β) where
  init d := ∃ p x, tapedevRealize p x = .ok d
  next d c := some (d.next c)

/-! ## A small device

One section with two tapes of 256 KiB, on an empty directory. -/

def smallProps (fastMode : Bool) : Props where
  dataDir := true
  fastMode := fastMode
  tapes := [2]
  tapeTypes := [0]

def smallSetup : Setup Nat where
  mkdir := true
  opendir := true
  file _ := ⟨true, true, true, true, true, 0, fun _ => 0, 0⟩
  positions _ _ := 0
  mem _ := 0

def smallDevice (fastMode : Bool) : Tapedev Nat := newTapedev (smallProps fastMode) smallSetup

theorem smallDevice_realized (fastMode : Bool) :
    tapedevRealize (smallProps fastMode) smallSetup = .ok (smallDevice fastMode) := rfl

/-- Host accesses that succeed, with an empty page table. -/
def plainIo : Io := ⟨some fun _ => 0, true, true, true⟩

/-- The small device when it has been enabled. -/
def smallEnabled (fastMode : Bool) : Tapedev Nat :=
  ((smallDevice fastMode).next (.write 0x00 1 4 0 0 fun _ _ => plainIo)).next
    (.timer 0 fun _ => plainIo)

theorem smallEnabled_reach (fastMode : Bool) : (tapedev Nat).Reach (smallEnabled fastMode) :=
  .step (.step (.init ⟨_, _, smallDevice_realized fastMode⟩) rfl) rfl

/-- Accesses of the host with one block in the page table; `seek` may fail. -/
def seekIo (seek : Bool) : Io := ⟨some fun _ => 2 ^ 32 + 1, seek, true, true⟩

/-- The guest takes tape 1 and writes a block to it. -/
def smallTransfer (seek : Bool) : List (Call Nat) :=
  [.cpu fun _ => 7, .write 0x108 8 4 0 0 fun _ _ => plainIo,
    .write 0x100 0x100 4 0 0 fun _ _ => plainIo, .write 0x100 0x105 4 0 0 fun _ _ => seekIo seek]

/-- All calls for it since the device was created. -/
def smallSession : List (Call Nat) :=
  [.write 0x00 1 4 0 0 fun _ _ => plainIo, .timer 0 fun _ => plainIo] ++ smallTransfer true

/-! ## Devices that can be created -/

theorem checkSections_ok {l : List (Nat × Nat)} (h : checkSections l = .ok ()) {c : Nat × Nat}
    (hc : c ∈ l) : c.2 ≤ 4 ∧ 1 ≤ c.1 ∧ c.1 ≤ 10000 := by
  induction l with
  | nil => cases hc
  | cons a l ih =>
    unfold checkSections at h
    split at h
    · cases h
    · next hty =>
      split at h
      · cases h
      · next htapes =>
        obtain ⟨hle, hne⟩ := not_or.mp htapes
        rcases List.mem_cons.mp hc with rfl | hc
        · exact ⟨not_lt.mp hty, Nat.one_le_iff_ne_zero.mpr hne, not_lt.mp hle⟩
        · exact ih h hc

/-- The limits `tapedev_realize` sets. -/
structure Tapedev.Realized (d : Tapedev β) : Prop where
  many : 1 ≤ d.aadesNo
  few : d.aadesNo ≤ 8
  type : ∀ i, i < d.aadesNo → (d.aades i).aaae ≤ 4
  tapes : ∀ i, i < d.aadesNo → 1 ≤ (d.aades i).aaad ∧ (d.aades i).aaad ≤ 10000

theorem tapedevRealize_ok {p : Props} {x : Setup β} {d : Tapedev β}
    (h : tapedevRealize p x = .ok d) : d = newTapedev p x ∧ d.Realized := by
  unfold tapedevRealize at h
  dsimp only at h
  split at h
  · cases h
  · next hlen =>
    split at h
    · cases h
    · next hn =>
      split at h
      · cases h
      · next hcheck =>
        split at h
        · cases h
        · split at h
          · cases h
          · split at h
            · cases h
            · split at h
              · cases h
              · cases h
                obtain ⟨h8, h0⟩ := not_or.mp hn
                have hlen := not_not.mp hlen
                have hsec : ∀ i, i < p.tapes.length → p.tapeTypes.getD i 0 ≤ 4 ∧
                    1 ≤ p.tapes.getD i 0 ∧ p.tapes.getD i 0 ≤ 10000 := by
                  intro i hi
                  have hi' : i < p.tapeTypes.length := hlen ▸ hi
                  have hmem : (p.tapes[i], p.tapeTypes[i]) ∈ p.tapes.zip p.tapeTypes := by
                    have hz : i < (p.tapes.zip p.tapeTypes).length := by
                      rw [List.length_zip]
                      omega
                    have hget := List.getElem_mem hz
                    rwa [List.getElem_zip] at hget
                  have hok := checkSections_ok hcheck hmem
                  simpa only [List.getD_eq_getElem?_getD, List.getElem?_eq_getElem hi,
                    List.getElem?_eq_getElem hi', Option.getD_some] using hok
                exact ⟨rfl, Nat.one_le_iff_ne_zero.mpr h0, not_lt.mp h8, fun i hi => (hsec i hi).1,
                  fun i hi => (hsec i hi).2⟩

/-! ## The changes as equations -/

/-- The bit of an interrupt that may not be raised. -/
def irqBits (o : Option Irq) (id : Nat) : BitVec 32 :=
  match o with
  | none => 0
  | some q => irqBit q id

theorem raiseIrq_eq (d : PCIint β) (irq : BitVec 32) :
    raiseIrq d irq = { d with
      irqAadf := d.irqAadf ||| irq
      line := d.line || decide (irq &&& ~~~d.irqMask ≠ 0) } := by
  unfold raiseIrq
  dsimp only
  split
  · next h => rw [decide_eq_true h, Bool.or_true]
  · next h => rw [decide_eq_false h, Bool.or_false]

theorem answer_eq (d : PCIint β) (i : Nat) (a : Answer β) :
    d.answer i a = { d with
      aades := Function.update d.aades i a.1
      irqAadf := d.irqAadf ||| irqBits a.2 i
      line := d.line || decide (irqBits a.2 i &&& ~~~d.irqMask ≠ 0) } := by
  unfold PCIint.answer
  dsimp only
  cases a.2 with
  | none => simp [irqBits]
  | some q => exact raiseIrq_eq _ _

section
variable (d : PCIint β) (i : Nat) (a : Answer β)

@[simp] theorem answer_aades : (d.answer i a).aades = Function.update d.aades i a.1 := by
  rw [answer_eq]
@[simp] theorem answer_aadg : (d.answer i a).aadg = d.aadg := by rw [answer_eq]
@[simp] theorem answer_aadesNo : (d.answer i a).aadesNo = d.aadesNo := by rw [answer_eq]
@[simp] theorem answer_irqMask : (d.answer i a).irqMask = d.irqMask := by rw [answer_eq]
@[simp] theorem answer_irqAadf : (d.answer i a).irqAadf = d.irqAadf ||| irqBits a.2 i := by
  rw [answer_eq]

end

section
variable {d : Tapedev β} {clock i w rand : Nat} {io : Nat → Io}

theorem pass_of_not_works (hw : d.works clock i = false) : d.pass clock io i = d := by
  unfold Tapedev.pass
  rw [hw]
  rfl

theorem pass_toPCIint (hw : d.works clock i = true) : (d.pass clock io i).toPCIint =
    d.toPCIint.answer i (Tape.aabf (d.aades i) d.mem (io i)).1 := by
  unfold Tapedev.pass
  rw [if_pos hw]
  dsimp only
  split <;> rfl

theorem pass_fault (hw : d.works clock i = true) : (d.pass clock io i).fault =
    d.fault.or (stepFault (d.aades i) (io i)) := by
  unfold Tapedev.pass
  rw [if_pos hw]
  dsimp only
  split <;> rfl

@[simp] theorem pass_fastMode : (d.pass clock io i).fastMode = d.fastMode := by
  unfold Tapedev.pass
  split
  · dsimp only
    split <;> rfl
  · rfl

theorem start_toPCIint (hi : (d.aades i).aadg = .idle) : (d.start i w clock rand).toPCIint =
    d.toPCIint.answer i (Tape.aabm d.aadg (d.aades i) w) := by
  unfold Tapedev.start
  dsimp only
  rw [if_pos hi]
  split <;> rfl

@[simp] theorem start_fault : (d.start i w clock rand).fault = d.fault := by
  unfold Tapedev.start
  dsimp only
  split
  · split <;> rfl
  · rfl

@[simp] theorem start_fastMode : (d.start i w clock rand).fastMode = d.fastMode := by
  unfold Tapedev.start
  dsimp only
  split
  · split <;> rfl
  · rfl

end

theorem each_aades {d : Tapedev β} {i : Nat} (hi : i < d.aadesNo) (f : Aacc β → Aacc β) :
    (d.each f).aades i = f (d.aades i) :=
  if_pos hi

/-! ## Enabling and disabling -/

section
variable {f : Nat → Aacc β} {is : List Nat} {i : Nat}

/-- A section is left alone, or it was at rest and is marked. -/
theorem stopLoop_section (is : List Nat) (f : Nat → Aacc β) (i : Nat) :
    (stopLoop is f).2 i = f i ∨
    ((f i).aadg = .idle ∨ (f i).aadg = .failed) ∧
      (stopLoop is f).2 i = { f i with aadg := .disabled } := by
  induction is generalizing f with
  | nil => exact .inl rfl
  | cons j is ih =>
    unfold stopLoop
    split
    · next hj =>
      by_cases hij : i = j
      · subst hij
        rcases ih (Function.update f i { f i with aadg := .disabled }) with he | ⟨-, he⟩
        · rw [he, Function.update_self]
          exact .inr ⟨hj, rfl⟩
        · rw [he, Function.update_self]
          exact .inr ⟨hj, rfl⟩
      · have hrest := ih (Function.update f j { f j with aadg := .disabled })
        rwa [Function.update_of_ne hij] at hrest
    · exact .inl rfl

/-- When the loop gets to its end, all sections were at rest, and are marked. -/
theorem stopLoop_true (h : (stopLoop is f).1 = true) (hi : i ∈ is) :
    ((f i).aadg = .idle ∨ (f i).aadg = .failed) ∧
      (stopLoop is f).2 i = { f i with aadg := .disabled } := by
  induction is generalizing f with
  | nil => cases hi
  | cons j is ih =>
    unfold stopLoop at h ⊢
    split at h
    · next hj =>
      rw [if_pos hj]
      by_cases hij : i = j
      · subst hij
        refine ⟨hj, ?_⟩
        rcases stopLoop_section is (Function.update f i { f i with aadg := .disabled }) i with
          he | ⟨-, he⟩
        · rw [he, Function.update_self]
        · rw [he, Function.update_self]
      · have hrest := ih h ((List.mem_cons.mp hi).resolve_left hij)
        rwa [Function.update_of_ne hij] at hrest
    · cases h

/-- When it does not, one of them was not. -/
theorem stopLoop_false (hd : is.Nodup) (h : (stopLoop is f).1 = false) :
    ∃ i ∈ is, (f i).aadg ≠ .idle ∧ (f i).aadg ≠ .failed := by
  induction is generalizing f with
  | nil => cases h
  | cons j is ih =>
    obtain ⟨hj, hd⟩ := List.nodup_cons.mp hd
    unfold stopLoop at h
    split at h
    · obtain ⟨i, hi, hne⟩ := ih hd h
      have hij : i ≠ j := fun he => hj (he ▸ hi)
      rw [Function.update_of_ne hij] at hne
      exact ⟨i, List.mem_cons_of_mem _ hi, hne⟩
    · next hrest => exact ⟨j, List.mem_cons_self, not_or.mp hrest⟩

end

section
variable {d : Tapedev β} {i : Nat}

theorem aaca_enabling (h : d.aadg = 1) : aaca d =
    ({ d with
      aadg := 2, aadf := 1
      aades := fun i => if i < d.aadesNo then { d.aades i with aadg := .idle } else d.aades i
      irqAadf := d.irqAadf ||| irqInitDone
      line := d.line || decide (irqInitDone &&& ~~~d.irqMask ≠ 0) }, false) := by
  unfold aaca
  rw [if_pos h]
  dsimp only
  rw [raiseIrq_eq]
  rfl

/-- All sections are at rest: the device is disabled. -/
theorem aaca_stopped (h : d.aadg = 3)
    (hs : (stopLoop (List.range d.aadesNo) d.aades).1 = true) : aaca d =
    ({ d with aadg := 0, aadf := 0, aades := (stopLoop (List.range d.aadesNo) d.aades).2 }.each aaaz,
      true) := by
  unfold aaca
  rw [if_neg (by omega), if_pos h]
  cases hl : stopLoop (List.range d.aadesNo) d.aades with
  | mk b f =>
    rw [hl] at hs
    cases hs
    rfl

/-- A section is busy: the marks are taken back. -/
theorem aaca_waiting (h : d.aadg = 3)
    (hs : (stopLoop (List.range d.aadesNo) d.aades).1 = false) : aaca d =
    ({ d with aades := (stopLoop (List.range d.aadesNo) d.aades).2 }.each Aacc.unmark, false) := by
  unfold aaca
  rw [if_neg (by omega), if_pos h]
  cases hl : stopLoop (List.range d.aadesNo) d.aades with
  | mk b f =>
    rw [hl] at hs
    cases hs
    rfl

theorem aaca_of_ne (h1 : d.aadg ≠ 1) (h3 : d.aadg ≠ 3) : aaca d = (d, false) := by
  unfold aaca
  rw [if_neg h1, if_neg h3]

theorem busy_of_resting {g : Aadg} (h : g = .idle ∨ g = .failed) : g.busy = false := by
  rcases h with rfl | rfl <;> rfl

/-- The device comes up. -/
theorem aaca_on (h : d.aadg = 1) : (aaca d).1.aadg = 2 ∧ (aaca d).2 = false ∧
    ∀ i, i < d.aadesNo → (aaca d).1.aades i = { d.aades i with aadg := .idle } := by
  rw [aaca_enabling h]
  exact ⟨rfl, rfl, fun i hi => if_pos hi⟩

/-- The device goes off if all sections are at rest, and waits if not. -/
theorem aaca_off (h : d.aadg = 3) :
    ((aaca d).1.aadg = 0 ∧ (aaca d).2 = true ∧ ∀ i, i < d.aadesNo →
      (d.aades i).aadg.busy = false ∧
        (aaca d).1.aades i = aaaz { d.aades i with aadg := .disabled }) ∨
    ((aaca d).1.aadg = 3 ∧ (aaca d).2 = false ∧
      (∃ i, i < d.aadesNo ∧ (d.aades i).aadg ≠ .idle ∧ (d.aades i).aadg ≠ .failed) ∧
      ∀ i, i < d.aadesNo → (aaca d).1.aades i = d.aades i ∧ (d.aades i).aadg ≠ .disabled ∨
        (d.aades i).aadg.busy = false ∧ (aaca d).1.aades i = { d.aades i with aadg := .idle }) := by
  cases hs : (stopLoop (List.range d.aadesNo) d.aades).1 with
  | true =>
    left
    rw [aaca_stopped h hs]
    refine ⟨rfl, rfl, fun i hi => ?_⟩
    obtain ⟨hrest, he⟩ := stopLoop_true hs (List.mem_range.mpr hi)
    refine ⟨busy_of_resting hrest, ?_⟩
    rw [← he]
    exact if_pos hi
  | false =>
    right
    rw [aaca_waiting h hs]
    obtain ⟨i, hi, hne⟩ := stopLoop_false List.nodup_range hs
    refine ⟨h, rfl, ⟨i, List.mem_range.mp hi, hne⟩, fun i hi => ?_⟩
    rw [each_aades (by exact hi)]
    rcases stopLoop_section (List.range d.aadesNo) d.aades i with he | ⟨hrest, he⟩
    · dsimp only
      rw [he]
      unfold Aacc.unmark
      split
      · next hdis => exact .inr ⟨by rw [hdis]; rfl, rfl⟩
      · next hdis => exact .inl ⟨rfl, hdis⟩
    · dsimp only
      rw [he]
      exact .inr ⟨busy_of_resting hrest, rfl⟩

/-- What `aaca` does to a section. -/
theorem aaca_section (h : d.aadg = 1 ∨ d.aadg = 3) (hi : i < d.aadesNo) :
    (aaca d).1.aades i = d.aades i ∨
    (d.aadg = 1 ∨ (d.aades i).aadg.busy = false) ∧
      (aaca d).1.aades i = { d.aades i with aadg := .idle } ∨
    (d.aades i).aadg.busy = false ∧
      (aaca d).1.aades i = aaaz { d.aades i with aadg := .disabled } := by
  rcases h with h | h
  · exact .inr (.inl ⟨.inl h, (aaca_on h).2.2 i hi⟩)
  · rcases aaca_off h with ⟨-, -, hs⟩ | ⟨-, -, -, hs⟩
    · exact .inr (.inr (hs i hi))
    · rcases hs i hi with ⟨he, -⟩ | ⟨hrest, he⟩
      · exact .inl he
      · exact .inr (.inl ⟨.inr hrest, he⟩)

/-- The rest of the device. -/
theorem aaca_frame (d : Tapedev β) : (aaca d).1.aadesNo = d.aadesNo ∧ (aaca d).1.fault = d.fault ∧
    (aaca d).1.fastMode = d.fastMode ∧ (aaca d).1.mem = d.mem ∧ (aaca d).1.irqMask = d.irqMask ∧
    (aaca d).1.irqAadf = d.irqAadf ||| (if d.aadg = 1 then irqInitDone else 0) := by
  by_cases h1 : d.aadg = 1
  · rw [aaca_enabling h1, if_pos h1]
    exact ⟨rfl, rfl, rfl, rfl, rfl, rfl⟩
  · rw [if_neg h1]
    by_cases h3 : d.aadg = 3
    · cases hs : (stopLoop (List.range d.aadesNo) d.aades).1 with
      | true =>
        rw [aaca_stopped h3 hs]
        exact ⟨rfl, rfl, rfl, rfl, rfl, BitVec.or_zero.symm⟩
      | false =>
        rw [aaca_waiting h3 hs]
        exact ⟨rfl, rfl, rfl, rfl, rfl, BitVec.or_zero.symm⟩
    · rw [aaca_of_ne h1 h3]
      exact ⟨rfl, rfl, rfl, rfl, rfl, BitVec.or_zero.symm⟩

end

/-! ## What a call is made of -/

/-- The smallest changes of the device. -/
inductive Tapedev.Atom : Tapedev β → Tapedev β → Prop
  /-- a busy section goes on -/
  | pass (d : Tapedev β) (clock : Nat) (io : Nat → Io) (i : Nat) :
      i < d.aadesNo → d.works clock i = true → Atom d (d.pass clock io i)
  /-- an idle section is sent a command -/
  | start (d : Tapedev β) (i w clock rand : Nat) :
      i < d.aadesNo → d.aadg = 2 → (d.aades i).aadg = .idle → Atom d (d.start i w clock rand)
  /-- a register that the sections do not depend on, or memory -/
  | regs (d : Tapedev β) (mask : BitVec 32) (aadf : Nat) (written : Nat → Option Nat)
      (mem : Nat → β) :
      Atom d { d with irqMask := mask, aadf := aadf, written := written, mem := mem }
  | clear (d : Tapedev β) (val : BitVec 32) :
      Atom d { d with toPCIint := clearIrq d.toPCIint val }
  /-- the pointer to the page table -/
  | table (d : Tapedev β) (i val : Nat) : i < d.aadesNo → d.aadg = 2 →
      Atom d (d.setSection i (aabiPgtable d.aadg (d.aades i) val))
  /-- the block size -/
  | block (d : Tapedev β) (i val : Nat) : i < d.aadesNo → d.aadg = 2 →
      (d.aades i).aadg = .idle → val ≤ 4 →
      Atom d (d.setSection i { d.aades i with aaac := val })
  /-- ENABLE is set -/
  | enable (d : Tapedev β) : d.aadg = 0 → Atom d { d with aadg := 1 }
  /-- ENABLE is cleared -/
  | disable (d : Tapedev β) : d.aadg = 2 ∨ d.aadg = 4 → Atom d { d with aadg := 3 }
  /-- the device follows ENABLE -/
  | aaca (d : Tapedev β) : d.aadg = 1 ∨ d.aadg = 3 → Atom d (aaca d).1
  | reset (d : Tapedev β) : Atom d (tapedevReset d)

section
variable {d d' : Tapedev β} {clock : Nat} {io : Nat → Io}

abbrev Tapedev.Atoms : Tapedev β → Tapedev β → Prop := Relation.ReflTransGen Tapedev.Atom

theorem pass_aadesNo (d : Tapedev β) (clock : Nat) (io : Nat → Io) (i : Nat) :
    (d.pass clock io i).aadesNo = d.aadesNo := by
  cases hw : d.works clock i with
  | true => rw [pass_toPCIint hw, answer_aadesNo]
  | false => rw [pass_of_not_works hw]

theorem pass_atoms (d : Tapedev β) (clock : Nat) (io : Nat → Io) {i : Nat} (hi : i < d.aadesNo) :
    d.Atoms (d.pass clock io i) := by
  cases hw : d.works clock i with
  | true => exact .single (.pass d clock io i hi hw)
  | false =>
    rw [pass_of_not_works hw]

theorem passAll_atoms (clock : Nat) (io : Nat → Io) {is : List Nat} {d : Tapedev β}
    (his : ∀ i ∈ is, i < d.aadesNo) : d.Atoms (d.passAll clock io is).1 := by
  induction is generalizing d with
  | nil => exact .refl
  | cons i is ih =>
    refine (pass_atoms d clock io (his i List.mem_cons_self)).trans (ih fun j hj => ?_)
    rw [pass_aadesNo]
    exact his j (List.mem_cons_of_mem _ hj)

theorem aaca_atoms (d : Tapedev β) : d.Atoms (aaca d).1 := by
  by_cases h : d.aadg = 1 ∨ d.aadg = 3
  · exact .single (.aaca d h)
  · obtain ⟨h1, h3⟩ := not_or.mp h
    rw [aaca_of_ne h1 h3]

theorem aabf_atoms (d : Tapedev β) (clock : Nat) (io : Nat → Io) : d.Atoms (d.aabf clock io).1 := by
  unfold Tapedev.aabf
  split
  · exact .refl
  · dsimp only
    split
    · exact aaca_atoms d
    · exact (aaca_atoms d).trans (passAll_atoms clock io fun i hi => List.mem_range.mp hi)

theorem fastLoop_atoms (clock n : Nat) (io : Nat → Nat → Io) (d : Tapedev β) :
    d.Atoms (fastLoop clock n io d).1 := by
  induction n generalizing io d with
  | zero => exact .refl
  | succ n ih =>
    unfold fastLoop
    dsimp only
    split
    · exact (aabf_atoms d clock (io 0)).trans (ih _ _)
    · exact aabf_atoms d clock (io 0)

theorem aabm_atoms (d : Tapedev β) {i : Nat} (hi : i < d.aadesNo) (hen : d.aadg = 2)
    (w clock rand : Nat) (io : Nat → Nat → Io) : d.Atoms (d.aabm i w clock rand io) := by
  have hstart : d.Atoms (d.start i w clock rand) := by
    by_cases hidle : (d.aades i).aadg = .idle
    · exact .single (.start d i w clock rand hi hen hidle)
    · unfold Tapedev.start
      dsimp only
      rw [if_neg hidle]
  unfold Tapedev.aabm
  dsimp only
  split
  · exact hstart.trans (fastLoop_atoms _ _ _ _)
  · exact hstart

theorem aabi_atoms (d : Tapedev β) {i : Nat} (hi : i < d.aadesNo)
    (addr val clock rand : Nat) (io : Nat → Nat → Io) :
    d.Atoms (d.aabi i addr val clock rand io) := by
  unfold Tapedev.aabi
  split
  · exact .refl
  · next hen =>
    have hen := not_not.mp hen
    split
    · exact aabm_atoms d hi hen val clock rand io
    · exact .single (.regs d d.irqMask d.aadf _ d.mem)
    · exact .single (.table d i val hi hen)
    · split
      · next h => exact .single (.block d i val hi hen h.1 h.2)
      · exact .refl
    · exact .refl

theorem aabh_atoms (d : Tapedev β) (addr val : Nat) : d.Atoms (aabh d addr val) := by
  unfold aabh
  split
  · split
    · next h => exact .single (.enable d h.2)
    · split
      · next h => exact .single (.disable d h.2)
      · exact .refl
  · exact .single (.regs d d.irqMask val d.written d.mem)
  · exact .single (.regs d _ d.aadf d.written d.mem)
  · exact .single (.clear d _)
  · exact .refl

/-- Every call is made of such changes. -/
theorem next_atoms (d : Tapedev β) (c : Call β) : d.Atoms (d.next c) := by
  cases c with
  | write aabu val size clock rand io =>
    show d.Atoms (aabk d aabu val size clock rand io)
    unfold aabk
    split
    · exact .refl
    · split
      · exact aabh_atoms d aabu val
      · split
        · exact .refl
        · split
          · exact .refl
          · next h => exact aabi_atoms d (not_le.mp h) _ val clock rand io
  | timer clock io => exact aabf_atoms d clock io
  | reset => exact .single (.reset d)
  | cpu mem => exact .single (.regs d d.irqMask d.aadf d.written mem)

theorem reach_run (h : (tapedev β).Reach d) (cs : List (Call β)) :
    (tapedev β).Reach (cs.foldl Tapedev.next d) := by
  induction cs generalizing d with
  | nil => exact h
  | cons c cs ih => exact ih (h.step rfl)

/-- What every small change keeps holds as long as the device exists. -/
theorem tapedev_invariant {P : Tapedev β → Prop}
    (hinit : ∀ p x d, tapedevRealize p x = .ok d → P d)
    (hatom : ∀ d d', P d → Tapedev.Atom d d' → P d') {d : Tapedev β}
    (h : (tapedev β).Reach d) : P d := by
  refine Lts.invariant (fun d hd => ?_) (fun d c d' _ hp hs => ?_) h
  · obtain ⟨p, x, hr⟩ := hd
    exact hinit p x d hr
  · cases hs
    exact Relation.ReflTransGen.rec hp (fun _ ha ih => hatom _ _ ih ha) (next_atoms d c)

end

/-! ## What no call changes -/

theorem aabm_tapes (s : Aacc β) (w : Nat) :
    (aabm 2 s w).1.aaad = s.aaad ∧ (aabm 2 s w).1.aaae = s.aaae := by
  by_cases hi : s.aadg = .idle
  · rcases aabm_cases hi w with ⟨s', g, he, -, hargs, -⟩ | ⟨st, he, -⟩
    · rw [he]
      show s'.aaad = s.aaad ∧ s'.aaae = s.aaae
      rw [hargs]
      exact ⟨rfl, rfl⟩
    · rw [he]
      exact ⟨rfl, rfl⟩
  · rw [aabm_busy hi]
    exact ⟨rfl, rfl⟩

theorem aabo_tapes (s : Aacc β) (isRead : Bool) (mem : Nat → β) (io : Io) :
    (aabo s isRead mem io).1.1.aaad = s.aaad ∧ (aabo s isRead mem io).1.1.aaae = s.aaae := by
  rcases aabo_step s isRead mem io with ⟨s', g, st, hc, -, -, he⟩ | ⟨s', file, hc, he⟩
  · rw [he]
    show s'.aaad = s.aaad ∧ s'.aaae = s.aaae
    rw [hc]
    exact ⟨rfl, rfl⟩
  · obtain ⟨f, g, n, o, p, hn⟩ := aaboNext_frame { s' with aadb := file }
    rw [he, hn]
    dsimp only
    have htapes : s'.aaad = s.aaad ∧ s'.aaae = s.aaae := by
      rw [hc]
      exact ⟨rfl, rfl⟩
    split <;> exact htapes

theorem aabf_tapes (s : Aacc β) (mem : Nat → β) (io : Io) :
    (aabf s mem io).1.1.aaad = s.aaad ∧ (aabf s mem io).1.1.aaae = s.aaae := by
  unfold aabf
  cases s.aadg with
  | disabled | idle | take | eject | rewind | ffwd | failed => exact ⟨rfl, rfl⟩
  | read => exact aabo_tapes s true mem io
  | write => exact aabo_tapes s false mem io

/-- The sections of a device and their tapes. -/
structure Tapedev.SameSections (d d' : Tapedev β) : Prop where
  aadesNo : d'.aadesNo = d.aadesNo
  fastMode : d'.fastMode = d.fastMode
  tapes : ∀ i, i < d.aadesNo →
    (d'.aades i).aaad = (d.aades i).aaad ∧ (d'.aades i).aaae = (d.aades i).aaae

section
variable {d d' : Tapedev β}

theorem update_tapes {f : Nat → Aacc β} {i : Nat} {s : Aacc β}
    (h : s.aaad = (f i).aaad ∧ s.aaae = (f i).aaae) (j : Nat) :
    (Function.update f i s j).aaad = (f j).aaad ∧ (Function.update f i s j).aaae = (f j).aaae := by
  by_cases hji : j = i
  · subst hji
    rwa [Function.update_self]
  · rw [Function.update_of_ne hji]
    exact ⟨rfl, rfl⟩

theorem Tapedev.Atom.sameSections (h : Tapedev.Atom d d') : d.SameSections d' := by
  cases h with
  | pass clock io i hi hw =>
    refine ⟨pass_aadesNo d clock io i, pass_fastMode, ?_⟩
    rw [pass_toPCIint hw, answer_aades]
    exact fun j _ => update_tapes (aabf_tapes _ _ _) j
  | start i w clock rand hi hen hidle =>
    refine ⟨?_, start_fastMode, ?_⟩
    · rw [start_toPCIint hidle, answer_aadesNo]
    · rw [start_toPCIint hidle, answer_aades, hen]
      exact fun j _ => update_tapes (aabm_tapes _ _) j
  | regs mask aadf written mem => exact ⟨rfl, rfl, fun _ _ => ⟨rfl, rfl⟩⟩
  | clear val =>
    have he : (clearIrq d.toPCIint val).aadesNo = d.aadesNo ∧
        (clearIrq d.toPCIint val).aades = d.aades := by
      unfold clearIrq
      dsimp only
      split <;> exact ⟨rfl, rfl⟩
    refine ⟨he.1, rfl, fun i _ => ?_⟩
    dsimp only
    rw [he.2]
    exact ⟨rfl, rfl⟩
  | table i val hi hen =>
    refine ⟨rfl, rfl, fun j _ => update_tapes ?_ j⟩
    unfold aabiPgtable
    split <;> exact ⟨rfl, rfl⟩
  | block i val hi hen hidle hval =>
    refine ⟨rfl, rfl, fun j _ => update_tapes ?_ j⟩
    exact ⟨rfl, rfl⟩
  | enable h0 => exact ⟨rfl, rfl, fun _ _ => ⟨rfl, rfl⟩⟩
  | disable h2 => exact ⟨rfl, rfl, fun _ _ => ⟨rfl, rfl⟩⟩
  | aaca h13 =>
    obtain ⟨hno, -, hf, -⟩ := aaca_frame d
    refine ⟨hno, hf, fun i hi => ?_⟩
    rcases aaca_section h13 hi with he | ⟨-, he⟩ | ⟨-, he⟩ <;> rw [he] <;> exact ⟨rfl, rfl⟩
  | reset =>
    refine ⟨rfl, rfl, fun i _ => ?_⟩
    show (if i < d.aadesNo then (d.aades i).reset else d.aades i).aaad = _ ∧
      (if i < d.aadesNo then (d.aades i).reset else d.aades i).aaae = _
    split <;> exact ⟨rfl, rfl⟩

theorem Tapedev.SameSections.trans {d₁ d₂ d₃ : Tapedev β} (h : d₁.SameSections d₂)
    (h' : d₂.SameSections d₃) : d₁.SameSections d₃ := by
  refine ⟨h'.aadesNo.trans h.aadesNo, h'.fastMode.trans h.fastMode, fun i hi => ?_⟩
  have hi' : i < d₂.aadesNo := h.aadesNo ▸ hi
  exact ⟨(h'.tapes i hi').1.trans (h.tapes i hi).1, (h'.tapes i hi').2.trans (h.tapes i hi).2⟩

theorem run_sameSections (d : Tapedev β) (cs : List (Call β)) :
    d.SameSections (cs.foldl Tapedev.next d) := by
  induction cs generalizing d with
  | nil => exact ⟨rfl, rfl, fun _ _ => ⟨rfl, rfl⟩⟩
  | cons c cs ih =>
    refine Tapedev.SameSections.trans ?_ (ih _)
    exact Relation.ReflTransGen.rec ⟨rfl, rfl, fun _ _ => ⟨rfl, rfl⟩⟩
      (fun _ ha ih => ih.trans ha.sameSections) (next_atoms d c)

theorem tapedev_realized (h : (tapedev β).Reach d) : d.Realized := by
  refine tapedev_invariant (fun p x d hd => (tapedevRealize_ok hd).2) (fun d d' hp ha => ?_) h
  obtain ⟨hno, -, ht⟩ := ha.sameSections
  refine ⟨?_, ?_, fun i hi => ?_, fun i hi => ?_⟩
  · rw [hno]
    exact hp.many
  · rw [hno]
    exact hp.few
  · rw [(ht i (hno ▸ hi)).2]
    exact hp.type i (hno ▸ hi)
  · rw [(ht i (hno ▸ hi)).1]
    exact hp.tapes i (hno ▸ hi)

end

end Zso.Tape

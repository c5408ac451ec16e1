import Zso.Tape.Planner

/-!
# The device: `tapedev.c`

The section machine of the emulated device. The source has its identifiers
replaced by meaningless ones; they are kept, and each field says what it is.

A section executes one command at a time. `aabm` decodes a command word and
either rejects it at once or starts it; `aabf` advances a started command by one
step, which for READ and WRITE is one block. Time is left out: a started section
may take its next step at any moment, which covers the fast mode and the timer.

The host file and the memory are kept in 512-byte units of an arbitrary type
`β`. Accesses that may fail are decided by an oracle `Io`.
-/

namespace Zso.Tape
open Bits

/-- `aadg` of a section, the values 0 to 8. -/
inductive Aadg
  | disabled
  | idle
  | take
  | eject
  | rewind
  | ffwd
  | read
  | write
  | failed
deriving DecidableEq, Repr

/-- `aacc`, the state of a section. -/
structure Aacc (β : Type) where
  /-- STATUS register -/
  aadf : SectStatus
  /-- number of the loaded tape, 0 for none -/
  aaaa : Nat
  /-- bus address of the page table -/
  aaab : Nat
  /-- block size type -/
  aaac : Nat
  /-- number of tapes -/
  aaad : Nat
  /-- tape size type -/
  aaae : Nat
  aadg : Aadg
  /-- position on the loaded tape, in bytes -/
  aaaf : Nat
  /-- the remembered position of every tape -/
  aaag : Nat → Nat
  /-- tape to take -/
  aaai : Nat
  /-- blocks to forward -/
  aaaj : Nat
  /-- blocks transferred -/
  aaak : Nat
  /-- blocks left to transfer -/
  aaal : Nat
  /-- page-table offset of the command -/
  aaam : Nat
  /-- index of the current page-table entry -/
  aaan : Nat
  /-- blocks of the current entry already passed -/
  aaao : Nat
  /-- contents of the host file, by 512-byte sector -/
  aadb : Nat → β
  /-- the device's copy of the page table, with one entry behind its end -/
  aaap : Nat → Nat

/-- Which interrupt a completion raises. -/
inductive Irq
  | done
  | error
deriving DecidableEq, Repr

/-- `aaddize`: the block size in bytes. -/
def Aacc.blockSize {β : Type} (s : Aacc β) : Nat := 1 <<< (9 + s.aaac)

/-- `aaadize`: the tape size in bytes. -/
def Aacc.tapeSize {β : Type} (s : Aacc β) : Nat := 32 * (1 <<< s.aaae) * 8192

variable {β : Type}

/-- Offset in the host file of the position on the loaded tape. -/
def aaar (s : Aacc β) : Nat := u32 ((s.aaaa - 1) * s.tapeSize + s.aaaf)

/-- Moves the loaded tape forward. -/
def aaas (s : Aacc β) (offset : Nat) : Aacc β :=
  let aaaf := u32 (s.aaaf + offset)
  { s with aaaf := aaaf, aaag := Function.update s.aaag (s.aaaa - 1) aaaf }

/-- Rewinds the loaded tape. -/
def aaat (s : Aacc β) : Aacc β :=
  { s with aaaf := 0, aaag := Function.update s.aaag (s.aaaa - 1) 0 }

/-- Ejects the loaded tape. -/
def aaau (s : Aacc β) : Aacc β := { s with aaaa := 0, aaaf := 0 }

/-- Loads the tape `aaai` at its remembered position. -/
def aaaw (s : Aacc β) : Aacc β := { s with aaaa := s.aaai, aaaf := s.aaag (s.aaai - 1) }

/-! ## The page-table walk -/

/-- An entry put together again. -/
def packEntry (hi lo : Nat) : Nat := ((hi &&& 0xffffffff) <<< 32) ||| (lo &&& 0xffffffff)

/-- The loop of `aaax`, with the number of units still to skip. -/
def aaaxLoop : Nat → Aacc β → Bool × Aacc β
  | 0, s => (true, s)
  | n + 1, s =>
    if s.aaan ≥ 4096 / 8 then (false, s)
    else
      let aabs := s.aaap s.aaan
      let aabr := aabs &&& 0xffffffff
      let aabt := aabs >>> 32
      if aabt = 0 ∨ aabr = 0 then (false, s)
      else
        let aabr := aabr - 1
        if aabr = 0 then aaaxLoop n { s with aaan := s.aaan + 1, aaao := 0 }
        else
          aaaxLoop n { s with
            aaap := Function.update s.aaap s.aaan (packEntry aabt aabr), aaao := s.aaao + 1 }

/-- Skips `aaam` units of the page table. -/
def aaax (s : Aacc β) : Bool × Aacc β := aaaxLoop s.aaam s

/-- Forgets the arguments of the command. -/
def aaaz (s : Aacc β) : Aacc β :=
  { s with aaai := 0, aaaj := 0, aaak := 0, aaal := 0, aaam := 0, aaan := 0, aaao := 0 }

/-- Passes one block of the current entry. -/
def aaba (s : Aacc β) : Aacc β :=
  let aadc := s.aaap s.aaan
  let aadd := u32 ((aadc &&& 0xffffffff) + 2 ^ 32 - 1)
  let aabu := aadc >>> 32
  let aaap := Function.update s.aaap s.aaan (packEntry aabu aadd)
  if aadd = 0 then { s with aaap := aaap, aaan := s.aaan + 1, aaao := 0 }
  else { s with aaap := aaap, aaao := s.aaao + 1 }

/-- Bus address of the current block, 0 when the entry has none. -/
def aabb (s : Aacc β) : Nat :=
  let aadc := s.aaap s.aaan
  if aadc >>> 32 = 0 ∨ aadc &&& 0xffffffff = 0 then 0
  else ((aadc >>> 32) <<< 9) + u32 (s.blockSize * s.aaao)

/-! ## Commands -/

/-- A section with the interrupt it raises, if any. -/
abbrev Answer (β : Type) := Aacc β × Option Irq

/-- Completes the command with a status. -/
def aabc (s : Aacc β) (st : Aadg) (aadf : SectStatus) : Answer β :=
  (aaaz { s with aadg := st, aadf := aadf }, some (if aadf.isErr then .error else .done))

/-- Starts a command. -/
def aabd (s : Aacc β) (st : Aadg) : Answer β := ({ s with aadg := st, aadf := .working }, none)

/-- The checks the commands other than TAKE_TAPE begin with. -/
def needsTape (s : Aacc β) (k : Answer β) : Answer β :=
  if s.aaaa = 0 then aabc s .idle .errNoTape else k

/-- A write of the CMD register. `dAadg` is the state of the whole device, whose
value 4 stands for a hardware error. -/
def aabm (dAadg : Nat) (s : Aacc β) (cmdVal : Nat) : Answer β :=
  if s.aadg ≠ .idle then (s, none)
  else if dAadg = 4 then aabc s .failed .errReset
  else
    let arg := fieldArg cmdVal
    match fieldCmd cmdVal with
    | CMD_TAKE_TAPE =>
      if s.aaaa ≠ 0 then aabc s .idle .errTapeActive
      else if arg > s.aaad ∨ arg = 0 then aabc s .idle .errInvalidTapeNo
      else aabd { s with aaai := arg } .take
    | CMD_EJECT_TAPE => needsTape s (aabd s .eject)
    | CMD_REWIND => needsTape s (aabd s .rewind)
    | CMD_FAST_FWD =>
      needsTape s
        (if arg ≥ s.tapeSize / s.blockSize then aabc s .idle .errInvalidFfwdPos
        else aabd { s with aaaj := arg } .ffwd)
    | CMD_READ =>
      needsTape s
        (aabd { s with aaal := fieldCount cmdVal, aaam := fieldOffset cmdVal, aaak := 0 } .read)
    | CMD_WRITE =>
      needsTape s
        (aabd { s with aaal := fieldCount cmdVal, aaam := fieldOffset cmdVal, aaak := 0 } .write)
    | _ => aabc s .idle .errInvalidCmd

/-! ## Block transfer -/

/-- What the host answers during one step: the page table read over the bus, or
`none` for a bus error, and whether the seek, the file access and the data
transfer succeed. -/
structure Io where
  table : Option (Nat → Nat)
  seek : Bool
  file : Bool
  dma : Bool

/-- Copies `n` units from `src` of `g` to `dst` of `f`. -/
def copyUnits (n dst src : Nat) (f g : Nat → β) : Nat → β := fun a =>
  if dst ≤ a ∧ a < dst + n then g (src + (a - dst)) else f a

/-- Loads the page table and skips to the command's offset. The error is the
completed command. -/
def aabn (s : Aacc β) (io : Io) : Except (Answer β) (Aacc β) :=
  let s := { s with aaan := 0, aaao := 0 }
  match io.table with
  | none => .error (aabc s .idle .errPgtable)
  | some table =>
    let s := { s with aaap := fun i => if i < 4096 / 8 then table i else s.aaap i }
    match aaax s with
    | (false, s) => .error (aabc s .idle .errPgtable)
    | (true, s) => .ok s

/-- The bookkeeping after a transferred block. -/
def aaboNext (s : Aacc β) : Answer β :=
  let s := aaas (aaba { s with aaak := s.aaak + 1 }) s.blockSize
  let s := { s with aaal := s.aaal - 1 }
  if s.aaal > 0 then (s, none) else aabc s .idle .done

/-- The transfer of one block between the host file at `pos` and the bus, in units of 512 bytes.
The position is rounded down to a unit. It is a multiple of one unless the table `aaag`, which
`g_malloc` does not clear, has started with another value for a tape that has not been rewound. -/
def aaboMove (s : Aacc β) (isRead : Bool) (pos : Nat) (mem : Nat → β) (io : Io) :
    Answer β × (Nat → β) :=
  let page := aabb s
  let units := s.blockSize / 512
  if page = 0 then (aabc s .idle .errPgtable, mem)
  else if io.seek = false then (aabc s .failed .errIo, mem)
  else if isRead then
    if io.file = false then (aabc s .failed .errIo, mem)
    else if io.dma = false then (aabc s .failed .errPgtable, mem)
    else (aaboNext s, copyUnits units (page / 512) (pos / 512) mem s.aadb)
  else if io.dma = false then (aabc s .failed .errPgtable, mem)
  else if io.file = false then (aabc s .failed .errIo, mem)
  else (aaboNext { s with aadb := copyUnits units (pos / 512) (page / 512) s.aadb mem }, mem)

/-- One step of READ or WRITE. -/
def aabo (s : Aacc β) (isRead : Bool) (mem : Nat → β) (io : Io) : Answer β × (Nat → β) :=
  let pos := aaar s
  if s.aaaa = 0 then (aabc s .idle .errIo, mem)
  else if s.aaab = 0 then (aabc s .idle .errPgtable, mem)
  else if s.aaaf ≥ s.tapeSize ∨ s.aaaf + s.blockSize > s.tapeSize then
    (aabc s .idle .errReadPastEnd, mem)
  else if s.aaal = 0 then (aabc s .idle .done, mem)
  else if s.aaak = 0 then
    match aabn s io with
    | .error a => (a, mem)
    | .ok s => aaboMove s isRead pos mem io
  else aaboMove s isRead pos mem io

/-- The body of the section loop of `aabf`. -/
def aabf (s : Aacc β) (mem : Nat → β) (io : Io) : Answer β × (Nat → β) :=
  match s.aadg with
  | .disabled => ((s, none), mem)
  | .idle => ((s, none), mem)
  | .take => (aabc (aaaw s) .idle .done, mem)
  | .eject => (aabc (aaau s) .idle .done, mem)
  | .rewind => (aabc (aaat s) .idle .done, mem)
  | .ffwd => (aabc (aaas s (s.aaaj * s.blockSize)) .idle .done, mem)
  | .read => aabo s true mem io
  | .write => aabo s false mem io
  | .failed => ((s, none), mem)

/-! ## Interrupts -/

/-- `struct PCIint`: the registers shared by the sections. `line` is the level
of the INTx pin (`pci_set_irq`); MSI is not enabled. -/
structure PCIint (β : Type) where
  aadg : Nat
  irqAadf : BitVec 32
  irqMask : BitVec 32
  line : Bool
  aadesNo : Nat
  aades : Nat → Aacc β

/-- The bit of a section's interrupt: `16 + id` for DONE, `24 + id` for ERROR. -/
def irqBit (q : Irq) (id : Nat) : BitVec 32 :=
  match q with
  | .done => 1#32 <<< (16 + id)
  | .error => 1#32 <<< (24 + id)

def raiseIrq (d : PCIint β) (irq : BitVec 32) : PCIint β :=
  let d := { d with irqAadf := d.irqAadf ||| irq }
  if irq &&& ~~~d.irqMask ≠ 0 then { d with line := true } else d

def clearIrq (d : PCIint β) (val : BitVec 32) : PCIint β :=
  let newIrqAadf := d.irqAadf &&& ~~~val
  if newIrqAadf = d.irqAadf then d
  else { d with irqAadf := newIrqAadf, line := false }

/-- A section's new state, with the interrupt it raises. -/
def PCIint.answer (d : PCIint β) (id : Nat) (a : Answer β) : PCIint β :=
  let d := { d with aades := Function.update d.aades id a.1 }
  match a.2 with
  | none => d
  | some q => raiseIrq d (irqBit q id)

/-- A write of a section's CMD register: `aabi` lets it through only while the
device is enabled. -/
def PCIint.writeCmd (d : PCIint β) (id cmdVal : Nat) : PCIint β :=
  if d.aadg ≠ 2 then d else d.answer id (aabm d.aadg (d.aades id) cmdVal)

/-- One step of a section. -/
def PCIint.step (d : PCIint β) (id : Nat) (mem : Nat → β) (io : Io) : PCIint β × (Nat → β) :=
  let r := aabf (d.aades id) mem io
  (d.answer id r.1, r.2)

end Zso.Tape

import Zso.Lib.Bits

/-!
# Registers, statuses and command words of the tape device

The constants of `tapedev.h` and `tapedev_defs.h`, the encoder
`create_tapedev_cmd` of the driver, and the two decoders: the macros
`GET_CMD_TYPE` / `GET_CMD_BODY` that the driver applies when a command has
completed, and the field extraction at the head of the device's `aabm`.

A command word is a natural number below `2 ^ 32`. `Cmd` is the command a word
stands for; `Cmd.encode` is `create_tapedev_cmd` on its arguments, and
`fieldCmd_encode` and `fields_rw` say that the device reads back what the driver
wrote.
-/

namespace Zso.Tape
open Bits

/-! ## Constants -/

@[match_pattern] abbrev CMD_TAKE_TAPE : Nat := 0x00
@[match_pattern] abbrev CMD_EJECT_TAPE : Nat := 0x01
@[match_pattern] abbrev CMD_REWIND : Nat := 0x02
@[match_pattern] abbrev CMD_FAST_FWD : Nat := 0x03
@[match_pattern] abbrev CMD_READ : Nat := 0x04
@[match_pattern] abbrev CMD_WRITE : Nat := 0x05
abbrev CMD_UNSUPPORTED : Nat := 0xffffffff

abbrev NO_TAPE : Nat := 0
abbrev MAX_SG_PGT_ENTRIES : Nat := 512
abbrev BASE_TAPE_SIZE : Nat := 32 * 8192

def ENOMEM : Int := 12
def EIO : Int := 5
def EINVAL : Int := 22
def ERESTARTSYS : Int := 512

/-- The values of a section's STATUS register. -/
inductive SectStatus
  | idle
  | working
  | done
  | errInvalidCmd
  | errTapeActive
  | errNoTape
  | errReset
  | errInvalidTapeNo
  | errInvalidFfwdPos
  | errReadPastEnd
  | errWritePastEnd
  | errIo
  | errPgtable
deriving DecidableEq, Repr

/-- The register value of a status. -/
def SectStatus.code : SectStatus → Nat
  | .idle => 0x00
  | .working => 0x01
  | .done => 0x02
  | .errInvalidCmd => 0x80
  | .errTapeActive => 0x81
  | .errNoTape => 0x82
  | .errReset => 0x83
  | .errInvalidTapeNo => 0x84
  | .errInvalidFfwdPos => 0x85
  | .errReadPastEnd => 0x86
  | .errWritePastEnd => 0x87
  | .errIo => 0x88
  | .errPgtable => 0x89

/-- `TAPEDEV_SECT_STATUS_ERR_MASK`: the bit all error statuses share. -/
def SectStatus.isErr (s : SectStatus) : Bool := s.code &&& 0x80 != 0

/-- The block layer statuses the driver uses. -/
inductive BlkStatus
  | ok
  | notsupp
  | ioerr
  | inval
deriving DecidableEq, Repr

/-! ## Command words -/

/-- `GET_CMD_TYPE` -/
def getCmdType (cmd : Nat) : Nat := cmd &&& 0xff

/-- `GET_CMD_BODY` -/
def getCmdBody (cmd : Nat) : Nat := cmd &&& 0xffffff00

/-- `create_tapedev_cmd` -/
def createTapedevCmd (cmdType arg1 arg2 : Nat) : Nat :=
  match cmdType with
  | CMD_TAKE_TAPE => u32 (arg1 <<< 8) ||| CMD_TAKE_TAPE
  | CMD_EJECT_TAPE => CMD_EJECT_TAPE
  | CMD_REWIND => CMD_REWIND
  | CMD_FAST_FWD => u32 (arg1 <<< 8) ||| CMD_FAST_FWD
  | CMD_READ => ((arg1 &&& 0x1ff) <<< 23) ||| ((arg2 &&& 0x7fff) <<< 8) ||| CMD_READ
  | CMD_WRITE => ((arg1 &&& 0x1ff) <<< 23) ||| ((arg2 &&& 0x7fff) <<< 8) ||| CMD_WRITE
  | _ => CMD_UNSUPPORTED

/-! The fields of a word as the device's `aabm` extracts them: `cmd`, `arg`,
`rw_aadd` (the block count) and `rw_offset`. -/

def fieldCmd (cmdVal : Nat) : Nat := cmdVal &&& 0xff
def fieldArg (cmdVal : Nat) : Nat := (cmdVal >>> 8) &&& 0xffffff
def fieldCount (cmdVal : Nat) : Nat := (cmdVal >>> 8) &&& (2 ^ 15 - 1)
def fieldOffset (cmdVal : Nat) : Nat := (cmdVal >>> (8 + 15)) &&& (2 ^ 9 - 1)

/-- A command with its arguments. -/
inductive Cmd
  | takeTape (tape : Nat)
  | ejectTape
  | rewind
  | fastFwd (blocks : Nat)
  | rw (write : Bool) (offset count : Nat)
deriving DecidableEq, Repr

/-- `write ? TAPEDEV_CMD_WRITE : TAPEDEV_CMD_READ` -/
def rwType (write : Bool) : Nat := if write then CMD_WRITE else CMD_READ

/-- The word the driver builds for a command. -/
def Cmd.encode : Cmd → Nat
  | .takeTape t => createTapedevCmd CMD_TAKE_TAPE t 0
  | .ejectTape => createTapedevCmd CMD_EJECT_TAPE 0 0
  | .rewind => createTapedevCmd CMD_REWIND 0 0
  | .fastFwd n => createTapedevCmd CMD_FAST_FWD n 0
  | .rw w off n => createTapedevCmd (rwType w) off n

/-- The arguments fit their fields. -/
def Cmd.InRange : Cmd → Prop
  | .takeTape t => t < 2 ^ 24
  | .ejectTape => True
  | .rewind => True
  | .fastFwd n => n < 2 ^ 24
  | .rw _ off n => off < 2 ^ 9 ∧ n < 2 ^ 15

/-- The register code of a command. -/
def Cmd.code : Cmd → Nat
  | .takeTape _ => CMD_TAKE_TAPE
  | .ejectTape => CMD_EJECT_TAPE
  | .rewind => CMD_REWIND
  | .fastFwd _ => CMD_FAST_FWD
  | .rw w _ _ => rwType w

namespace CommandLemmas

/-- A word with one argument: what does not fit its 24 bits is cut off. -/
theorem argWord (arg : Nat) {code : Nat} (hc : code < 2 ^ 8) :
    fieldCmd (u32 (arg <<< 8) ||| code) = code ∧
    fieldArg (u32 (arg <<< 8) ||| code) = arg % 2 ^ 24 := by
  have hs : u32 (arg <<< 8) = (arg % 2 ^ 24) <<< 8 := by
    simp only [u32, Nat.shiftLeft_eq]
    omega
  rw [hs]
  constructor
  · exact (and_mask _ 8).trans (shl_or_mod hc)
  · unfold fieldArg
    rw [shl_or_shr hc]
    exact (and_mask _ 24).trans (Nat.mod_mod _ _)

/-- A word with the two arguments of READ and WRITE. -/
theorem rwWord (off cnt : Nat) {code : Nat} (hc : code < 2 ^ 8) :
    let w := ((off &&& 0x1ff) <<< 23) ||| ((cnt &&& 0x7fff) <<< 8) ||| code
    fieldCmd w = code ∧ fieldCount w = cnt % 2 ^ 15 ∧ fieldOffset w = off % 2 ^ 9 := by
  intro w
  have hoff : off &&& 0x1ff = off % 2 ^ 9 := and_mask _ 9
  have hcnt : cnt &&& 0x7fff = cnt % 2 ^ 15 := and_mask _ 15
  have hn : cnt % 2 ^ 15 < 2 ^ 15 := Nat.mod_lt _ (by decide)
  -- the two argument fields form one 24-bit field above the command code
  have hw : w = ((off % 2 ^ 9) <<< 15 ||| cnt % 2 ^ 15) <<< 8 ||| code := by
    simp only [w, hoff, hcnt, Nat.shiftLeft_or_distrib, ← Nat.shiftLeft_add]
  rw [hw]
  refine ⟨(and_mask _ 8).trans (shl_or_mod hc), ?_, ?_⟩
  · unfold fieldCount
    rw [shl_or_shr hc, and_mask, shl_or_mod hn]
  · unfold fieldOffset
    rw [Nat.shiftRight_add, shl_or_shr hc, shl_or_shr hn, and_mask, Nat.mod_mod]

end CommandLemmas

open CommandLemmas

/-- The device extracts from a word the command the driver encoded. -/
theorem fieldCmd_encode (c : Cmd) : fieldCmd c.encode = c.code := by
  cases c with
  | takeTape t => exact (argWord t (by decide)).1
  | ejectTape => rfl
  | rewind => rfl
  | fastFwd n => exact (argWord n (by decide)).1
  | rw w off n => cases w <;> exact (rwWord off n (by decide)).1

theorem Cmd.code_le (c : Cmd) : c.code ≤ CMD_WRITE := by
  cases c with
  | rw w off n => cases w <;> simp only [Cmd.code, rwType] <;> decide
  | _ => simp only [Cmd.code]; decide

theorem fieldArg_takeTape {t : Nat} (h : t < 2 ^ 24) : fieldArg (Cmd.takeTape t).encode = t :=
  (argWord t (by decide)).2.trans (Nat.mod_eq_of_lt h)

theorem fieldArg_fastFwd {n : Nat} (h : n < 2 ^ 24) : fieldArg (Cmd.fastFwd n).encode = n :=
  (argWord n (by decide)).2.trans (Nat.mod_eq_of_lt h)

theorem fields_rw {w : Bool} {off n : Nat} (h : (Cmd.rw w off n).InRange) :
    fieldCount (Cmd.rw w off n).encode = n ∧ fieldOffset (Cmd.rw w off n).encode = off := by
  have hw : fieldCount (Cmd.rw w off n).encode = n % 2 ^ 15 ∧
      fieldOffset (Cmd.rw w off n).encode = off % 2 ^ 9 := by
    cases w <;> exact (rwWord off n (by decide)).2
  rwa [Nat.mod_eq_of_lt h.1, Nat.mod_eq_of_lt h.2] at hw

/-- The macro the driver uses on completion reads the same command code. -/
theorem getCmdType_eq (w : Nat) : getCmdType w = fieldCmd w := rfl

/-- The driver's `GET_CMD_BODY(cmd) >> 8` is the device's argument field. -/
theorem getCmdBody_shr (w : Nat) : getCmdBody w >>> 8 = fieldArg w := by
  unfold getCmdBody fieldArg
  rw [Nat.shiftRight_and_distrib]
  rfl

end Zso.Tape

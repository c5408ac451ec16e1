import Zso.Tape.Walk

/-!
# What goes over the bus

The driver packs commands, page-table entries and the address of the page table into
words, and the device takes them apart with shifts and masks of its own. The driver takes
a command word apart once more when the command has completed.

* `aabm_decode`: the device acts on a word as on the command it decodes from it.
* `wire_formats_agree`: all decoders return what was encoded.
-/

namespace Zso.Tape
open Bits CommandLemmas WalkLemmas

variable {β : Type}

/-! ## Command words -/

/-- The command the switch of `aabm` finds in a word. -/
def decodeCmd (cmdVal : Nat) : Option Cmd :=
  match fieldCmd cmdVal with
  | CMD_TAKE_TAPE => some (.takeTape (fieldArg cmdVal))
  | CMD_EJECT_TAPE => some .ejectTape
  | CMD_REWIND => some .rewind
  | CMD_FAST_FWD => some (.fastFwd (fieldArg cmdVal))
  | CMD_READ => some (.rw false (fieldOffset cmdVal) (fieldCount cmdVal))
  | CMD_WRITE => some (.rw true (fieldOffset cmdVal) (fieldCount cmdVal))
  | _ => none

/-- What an idle section does with a command. -/
def Cmd.start (s : Aacc β) : Cmd → Answer β
  | .takeTape t =>
    if s.aaaa ≠ 0 then aabc s .idle .errTapeActive
    else if t > s.aaad ∨ t = 0 then aabc s .idle .errInvalidTapeNo
    else aabd { s with aaai := t } .take
  | .ejectTape => needsTape s (aabd s .eject)
  | .rewind => needsTape s (aabd s .rewind)
  | .fastFwd n =>
    needsTape s
      (if n ≥ s.tapeSize / s.blockSize then aabc s .idle .errInvalidFfwdPos
      else aabd { s with aaaj := n } .ffwd)
  | .rw write off n =>
    needsTape s
      (aabd { s with aaal := n, aaam := off, aaak := 0 } (if write then .write else .read))

/-- The device acts on a word as on the command it decodes from it. -/
theorem aabm_decode {s : Aacc β} (hi : s.aadg = .idle) (cmdVal : Nat) :
    aabm 2 s cmdVal = (decodeCmd cmdVal).elim (aabc s .idle .errInvalidCmd) (Cmd.start s) := by
  unfold aabm decodeCmd
  rw [if_neg (not_not.mpr hi), if_neg (by decide)]
  dsimp only
  generalize fieldCmd cmdVal = k
  -- the six codes of the switch, and the default
  rcases k with _ | _ | _ | _ | _ | _ | k <;> rfl

theorem decodeCmd_encode {c : Cmd} (h : c.InRange) : decodeCmd c.encode = some c := by
  unfold decodeCmd
  rw [fieldCmd_encode]
  cases c with
  | takeTape t => simp only [Cmd.code, fieldArg_takeTape h]
  | ejectTape => rfl
  | rewind => rfl
  | fastFwd n => simp only [Cmd.code, fieldArg_fastFwd h]
  | rw write off n =>
    obtain ⟨hn, hoff⟩ := fields_rw (w := write) h
    cases write <;> simp only [Cmd.code, rwType, hn, hoff] <;> rfl

/-! ## Page-table entries -/

/-- The address field of an entry, and the number of blocks. -/
def entryAddr (aadc : Nat) : Nat := (aadc >>> 32) <<< 9
def entryCount (aadc : Nat) : Nat := aadc &&& 0xffffffff

theorem shl_div_512 {addr : Nat} (h : 512 ∣ addr) : (addr / 512) <<< 9 = addr := by
  rw [Nat.shiftLeft_eq]
  exact Nat.div_mul_cancel h

theorem entry_decode {addr n : Nat} (hd : 512 ∣ addr) (ha : addr < 2 ^ 41) (hn : n < 2 ^ 32) :
    entryAddr (pgtEntry addr n) = addr ∧ entryCount (pgtEntry addr n) = n := by
  obtain ⟨h1, h2⟩ := pgtEntry_fields ha hn
  unfold entryAddr entryCount
  rw [h1, h2]
  exact ⟨shl_div_512 hd, rfl⟩

/-- The device starts a non-empty entry at its address. -/
theorem aabb_entry {s : Aacc β} {addr n : Nat} (hd : 512 ∣ addr) (ha : addr < 2 ^ 41)
    (hn : n < 2 ^ 32) (ha0 : 0 < addr) (hn0 : 0 < n) (he : s.aaap s.aaan = pgtEntry addr n)
    (hk : s.aaao = 0) : aabb s = addr := by
  obtain ⟨h1, h2⟩ := pgtEntry_fields ha hn
  have hpos : 0 < addr / 512 := Nat.div_pos (Nat.le_of_dvd ha0 hd) (by decide)
  unfold aabb
  simp only [he, h1, h2]
  rw [if_neg (by omega), shl_div_512 hd, hk, Nat.mul_zero]
  exact Nat.add_zero addr

/-! ## The page-table pointer -/

/-- What `tapedev_probe` writes to the register: `(dma_addr >> 9) & 0xffffffff`. -/
def pgtRegister (dmaAddr : Nat) : Nat := u32 ((dmaAddr >>> 9) &&& 0xffffffff)

/-- `aabi`, a write of the register at 0x08. -/
def aabiPgtable (dAadg : Nat) (s : Aacc β) (val : Nat) : Aacc β :=
  if dAadg ≠ 2 then s else { s with aaab := u64 (val <<< 9) }

/-- `aabj`, a read of the register at 0x08. -/
def aabjPgtable (s : Aacc β) : Nat := u32 (s.aaab >>> 9)

theorem pgtRegister_eq {addr : Nat} (ha : addr < 2 ^ 41) : pgtRegister addr = addr / 512 := by
  have hs : addr >>> 9 = addr / 512 := Nat.shiftRight_eq_div_pow addr 9
  have hm : addr / 512 &&& 0xffffffff = addr / 512 :=
    (and_mask _ 32).trans (Nat.mod_eq_of_lt (by omega))
  unfold pgtRegister
  rw [hs, hm, u32_of_lt (by omega)]

theorem aabiPgtable_register {addr : Nat} (hd : 512 ∣ addr) (ha : addr < 2 ^ 41) (s : Aacc β) :
    (aabiPgtable 2 s (pgtRegister addr)).aaab = addr ∧
    aabjPgtable (aabiPgtable 2 s (pgtRegister addr)) = pgtRegister addr := by
  have hw : (aabiPgtable 2 s (pgtRegister addr)).aaab = addr := by
    rw [pgtRegister_eq ha, aabiPgtable, if_neg (by decide)]
    show u64 ((addr / 512) <<< 9) = addr
    rw [shl_div_512 hd, u64_of_lt (by omega)]
  have hs : addr >>> 9 = addr / 512 := Nat.shiftRight_eq_div_pow addr 9
  refine ⟨hw, ?_⟩
  rw [aabjPgtable, hw, hs, pgtRegister_eq ha, u32_of_lt (by omega)]

/-- **Wire formats.** For a command with arguments in range, the device decodes the word the
driver built to the same command and arguments and acts on it, and the macros of the driver's
completion path find the same command and, for TAKE_TAPE and FAST_FWD, the same argument. A
page-table entry and the page-table pointer are decoded to the address and the count they were
built from. -/
theorem wire_formats_agree (β : Type) :
    (∀ c : Cmd, c.InRange →
      decodeCmd c.encode = some c ∧
      (∀ s : Aacc β, s.aadg = .idle → aabm 2 s c.encode = c.start s) ∧
      getCmdType c.encode = c.code ∧
      ∀ arg, c = .takeTape arg ∨ c = .fastFwd arg → getCmdBody c.encode >>> 8 = arg) ∧
    (∀ addr n, 512 ∣ addr → addr < 2 ^ 41 → n < 2 ^ 32 →
      entryAddr (pgtEntry addr n) = addr ∧ entryCount (pgtEntry addr n) = n ∧
      ∀ s : Aacc β, 0 < addr → 0 < n → s.aaap s.aaan = pgtEntry addr n → s.aaao = 0 →
        aabb s = addr) ∧
    ∀ addr, 512 ∣ addr → addr < 2 ^ 41 → ∀ s : Aacc β,
      (aabiPgtable 2 s (pgtRegister addr)).aaab = addr ∧
      aabjPgtable (aabiPgtable 2 s (pgtRegister addr)) = pgtRegister addr := by
  refine ⟨fun c hc => ?_, fun addr n hd ha hn => ?_, fun addr hd ha => aabiPgtable_register hd ha⟩
  · refine ⟨decodeCmd_encode hc, fun s hi => ?_, (getCmdType_eq _).trans (fieldCmd_encode c),
      fun arg harg => ?_⟩
    · rw [aabm_decode hi, decodeCmd_encode hc]
      rfl
    · rw [getCmdBody_shr]
      rcases harg with rfl | rfl
      · exact fieldArg_takeTape hc
      · exact fieldArg_fastFwd hc
  · obtain ⟨h1, h2⟩ := entry_decode hd ha hn
    exact ⟨h1, h2, fun s ha0 hn0 he hk => aabb_entry hd ha hn ha0 hn0 he hk⟩

/-- The largest arguments. -/
theorem wire_formats_agree_largest :
    decodeCmd (Cmd.rw true 511 32767).encode = some (.rw true 511 32767) ∧
    getCmdBody (Cmd.fastFwd (2 ^ 24 - 1)).encode >>> 8 = 2 ^ 24 - 1 ∧
    entryAddr (pgtEntry (2 ^ 41 - 512) (2 ^ 32 - 1)) = 2 ^ 41 - 512 :=
  have h := wire_formats_agree Unit
  ⟨(h.1 (.rw true 511 32767) (by simp [Cmd.InRange])).1,
    (h.1 (.fastFwd (2 ^ 24 - 1)) (by simp [Cmd.InRange])).2.2.2 _ (.inr rfl),
    (h.2.1 (2 ^ 41 - 512) (2 ^ 32 - 1) (by norm_num) (by norm_num) (by norm_num)).1⟩

end Zso.Tape

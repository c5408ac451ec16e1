import Mathlib.Data.List.Basic
import Mathlib.Tactic

/-!
# The offset of `rand`

The loader of the OOM killer attaches a probe to `rand`. It takes the offset of the function from
the first line of `nm -D libc | grep "T rand@@"`, with a scan of its own before `strtol`.

* `rand_offset_exact`: the lines that are accepted, and the offset that is read from each. There
  has to be a `T`; what stands before it and is no digit is skipped without an error.
* `rand_offset_of_nm`: a line as `nm` prints it gives the offset back, up to `LONG_MAX`.
-/

namespace Zso.Oomk

/-- The two calls of `exit(1)` after the line has been read. -/
inductive OffsetError
  | tooLong
  | format
  deriving DecidableEq

/-- The argument of `perror`. -/
def OffsetError.message : OffsetError → String
  | .tooLong => "offset_str_idx greater than allowed"
  | .format => "find_rand_offset:: offset_str is not in expected format\n"

/-- `sizeof(offset_str)` -/
def OFFSET_STR_SIZE : Nat := 64

def LONG_MAX : Nat := 2 ^ 63 - 1

/-- The condition on the characters that are copied: a `0`, behind another digit, or one of
`1`..`9` and `a`..`f`. -/
def isOffsetChar (firstNonZeroPresent : Bool) (c : UInt8) : Bool :=
  (c == 48 && firstNonZeroPresent) || (49 ≤ c && c ≤ 57) || (97 ≤ c && c ≤ 102)

/-- The loop over `buffer`, with `offset_str` up to `offset_str_idx`. -/
def scanOffset : List UInt8 → Bool → List UInt8 → Except OffsetError (List UInt8)
  | [], _, _ => .error .format
  | c :: cs, firstNonZeroPresent, offsetStr =>
    if offsetStr.length ≥ OFFSET_STR_SIZE - 1 then .error .tooLong
    else if c = 32 then scanOffset cs firstNonZeroPresent offsetStr
    else if c = 84 then .ok offsetStr
    else if isOffsetChar firstNonZeroPresent c then scanOffset cs true (offsetStr ++ [c])
    else scanOffset cs firstNonZeroPresent offsetStr

def hexDigit (c : UInt8) : Nat := if c ≤ 57 then c.toNat - 48 else c.toNat - 87

def hexValue (str : List UInt8) : Nat := str.foldl (fun v c => 16 * v + hexDigit c) 0

/-- `strtol(str, NULL, 16)`, for a string of digits `0`..`9` and `a`..`f`. -/
def strtol (str : List UInt8) : Nat := min (hexValue str) LONG_MAX

/-- `find_rand_offset`, from the string that `fgets` has put into `buffer`: a line of at most 999
bytes, with the newline, and without a NUL. The source does not ask whether `fgets` has found a
line; here it has. An error is what the program ends with. -/
def findRandOffset (line : List UInt8) : Except String Nat :=
  -- buffer[buffer_len-1] = '\0', and the loop still goes over it
  ((scanOffset (line.dropLast ++ [0]) false []).map strtol).mapError OffsetError.message

/-! ## What is accepted -/

def isHexChar (c : UInt8) : Bool := (48 ≤ c && c ≤ 57) || (97 ≤ c && c ≤ 102)

/-- The digits before the first `T`. -/
def digitsBeforeT (cs : List UInt8) : List UInt8 := (cs.takeWhile (· ≠ 84)).filter isHexChar

/-- What the scan copies: all digits, or those from the first that is not 0. -/
def copied (firstNonZeroPresent : Bool) (cs : List UInt8) : List UInt8 :=
  if firstNonZeroPresent then digitsBeforeT cs else (digitsBeforeT cs).dropWhile (· = 48)

section
variable {c : UInt8} {cs out r line : List UInt8} {seen : Bool}

theorem isOffsetChar_eq : isOffsetChar seen c = (isHexChar c && (seen || c != 48)) := by
  unfold isOffsetChar isHexChar
  by_cases hc : c = 48
  · subst hc
    cases seen <;> rfl
  · have hle : (49 : UInt8) ≤ c ↔ (48 : UInt8) ≤ c := by
      have hne : c.toNat ≠ 48 := fun h => hc (UInt8.toNat_inj.mp h)
      rw [UInt8.le_iff_toNat_le, UInt8.le_iff_toNat_le]
      change 49 ≤ c.toNat ↔ 48 ≤ c.toNat
      omega
    have hbeq : (c == 48) = false := beq_eq_false_iff_ne.mpr hc
    simp [bne, hbeq, hle]

theorem digitsBeforeT_of_digit (h : isHexChar c = true) (hT : c ≠ 84) :
    digitsBeforeT (c :: cs) = c :: digitsBeforeT cs := by
  simp [digitsBeforeT, hT, h]

theorem digitsBeforeT_skip (h : isHexChar c = false) (hT : c ≠ 84) :
    digitsBeforeT (c :: cs) = digitsBeforeT cs := by
  simp [digitsBeforeT, hT, h]

/-- A character that is copied. -/
theorem copied_of_isOffsetChar (h : isOffsetChar seen c = true) (hT : c ≠ 84) :
    copied seen (c :: cs) = c :: copied true cs := by
  rw [isOffsetChar_eq, Bool.and_eq_true] at h
  unfold copied
  rw [digitsBeforeT_of_digit h.1 hT, if_pos rfl]
  cases seen with
  | true => rfl
  | false =>
    have hne : c ≠ 48 := by simpa using h.2
    simp [hne]

/-- A character that is not: it is no digit, or a 0 in front. -/
theorem copied_of_not_isOffsetChar (h : isOffsetChar seen c = false) (hT : c ≠ 84) :
    copied seen (c :: cs) = copied seen cs := by
  rw [isOffsetChar_eq] at h
  unfold copied
  cases hhex : isHexChar c with
  | false => rw [digitsBeforeT_skip hhex hT]
  | true =>
    obtain ⟨hseen, hzero⟩ : seen = false ∧ c = 48 := by simpa [hhex] using h
    rw [digitsBeforeT_of_digit hhex hT, hseen]
    simp [hzero]

theorem scanOffset_ok_iff : scanOffset cs seen out = .ok r ↔
    84 ∈ cs ∧ r = out ++ copied seen cs ∧ r.length < OFFSET_STR_SIZE - 1 := by
  induction cs generalizing seen out with
  | nil => simp [scanOffset]
  | cons c cs ih =>
    unfold scanOffset
    split
    · next hlong =>
      -- the string only gets longer
      refine ⟨fun h => (by cases h), ?_⟩
      rintro ⟨-, rfl, hlt⟩
      rw [List.length_append] at hlt
      omega
    · next hshort =>
      split
      · next hspace =>
        subst hspace
        have hskip : copied seen (32 :: cs) = copied seen cs :=
          copied_of_not_isOffsetChar (by cases seen <;> rfl) (by decide)
        rw [ih, hskip, List.mem_cons, or_iff_right (by decide)]
      · split
        · next hT =>
          subst hT
          have hnil : copied seen (84 :: cs) = [] := by
            simp [copied, digitsBeforeT]
          rw [hnil, List.append_nil]
          constructor
          · rintro ⟨⟩
            exact ⟨List.mem_cons_self, rfl, Nat.lt_of_not_le hshort⟩
          · rintro ⟨-, rfl, -⟩
            rfl
        · next hT =>
          have hmem : (84 ∈ c :: cs) ↔ 84 ∈ cs := by
            rw [List.mem_cons, or_iff_right (Ne.symm hT)]
          split
          · next hcopy =>
            rw [ih, hmem, copied_of_isOffsetChar hcopy hT, List.append_assoc]
            rfl
          · next hcopy =>
            rw [ih, hmem, copied_of_not_isOffsetChar (Bool.eq_false_iff.mpr hcopy) hT]

/-- The NUL at the end of the line is no digit. -/
theorem digitsBeforeT_append_nul : digitsBeforeT (cs ++ [0]) = digitsBeforeT cs := by
  unfold digitsBeforeT
  rw [List.takeWhile_append]
  split
  · next h =>
    have hnul : ([0] : List UInt8).takeWhile (· ≠ 84) = [0] := by decide
    rw [hnul, List.filter_append, (List.takeWhile_prefix _).eq_of_length h]
    exact List.append_nil _
  · rfl

/-- Zeros in front do not change the value. -/
theorem hexValue_dropWhile : hexValue (cs.dropWhile (· = 48)) = hexValue cs := by
  induction cs with
  | nil => rfl
  | cons c cs ih =>
    by_cases hc : c = 48
    · subst hc
      rw [List.dropWhile_cons_of_pos (by decide), ih]
      rfl
    · rw [List.dropWhile_cons_of_neg (by simpa using hc)]

/-- What is copied of a line. -/
theorem copied_line : copied false (line.dropLast ++ [0]) =
    (digitsBeforeT line.dropLast).dropWhile (· = 48) := by
  rw [copied, digitsBeforeT_append_nul]
  rfl

theorem findRandOffset_of_digits (hT : 84 ∈ line.dropLast)
    (hlt : ((digitsBeforeT line.dropLast).dropWhile (· = 48)).length < 63) :
    findRandOffset line = .ok (min (hexValue (digitsBeforeT line.dropLast)) LONG_MAX) := by
  have hscan : scanOffset (line.dropLast ++ [0]) false [] =
      .ok ((digitsBeforeT line.dropLast).dropWhile (· = 48)) :=
    scanOffset_ok_iff.mpr ⟨List.mem_append_left _ hT, by rw [copied_line, List.nil_append], hlt⟩
  rw [findRandOffset, hscan, Except.map, Except.mapError, strtol, hexValue_dropWhile]

end

/-- **What the loader reads from a line.** A line that fits into the buffer gives an offset exactly
when there is a `T` in it, before its last character, with fewer than 63 digits before that, zeros
in front not counted. The offset is the number that these digits form, wherever they stand:
spaces and all other characters between them, capital letters too, are skipped without an error. -/
theorem rand_offset_exact (line : List UInt8) (n : Nat) : findRandOffset line = .ok n ↔
    84 ∈ line.dropLast ∧ ((digitsBeforeT line.dropLast).dropWhile (· = 48)).length < 63 ∧
      n = min (hexValue (digitsBeforeT line.dropLast)) LONG_MAX := by
  constructor
  · intro h
    cases hscan : scanOffset (line.dropLast ++ [0]) false [] with
    | error e =>
      rw [findRandOffset, hscan] at h
      cases h
    | ok str =>
      obtain ⟨hT, hstr, hlt⟩ := scanOffset_ok_iff.mp hscan
      have hT' : 84 ∈ line.dropLast := by
        rwa [List.mem_append, or_iff_left (by decide)] at hT
      rw [List.nil_append, copied_line] at hstr
      rw [hstr] at hlt
      rw [findRandOffset_of_digits hT' hlt] at h
      exact ⟨hT', hlt, (Except.ok.inj h).symm⟩
  · rintro ⟨hT, hlt, rfl⟩
    exact findRandOffset_of_digits hT hlt

/-! ## The lines of `nm` -/

/-- A digit as `%x` prints it. -/
def hexChar (d : Nat) : UInt8 := if d < 10 then UInt8.ofNat (48 + d) else UInt8.ofNat (87 + d)

/-- The last `k` hexadecimal digits of a number. -/
def hexDigits : Nat → Nat → List UInt8
  | 0, _ => []
  | k + 1, n => hexDigits k (n / 16) ++ [hexChar (n % 16)]

/-- A line of `nm -D` for a function: sixteen digits, a space, `T`, a space and the name. -/
def nmLine (offset : Nat) (name : List UInt8) : List UInt8 :=
  hexDigits 16 offset ++ 32 :: 84 :: 32 :: name

section
variable {k n d : Nat} {name : List UInt8}

theorem hexChar_spec : ∀ d < 16, isHexChar (hexChar d) = true ∧ hexDigit (hexChar d) = d ∧
    hexChar d ≠ 84 := by
  decide

theorem hexDigits_length : (hexDigits k n).length = k := by
  induction k generalizing n with
  | zero => rfl
  | succ k ih => rw [hexDigits, List.length_append, ih, List.length_singleton]

theorem exists_of_mem_hexDigits {c : UInt8} (h : c ∈ hexDigits k n) : ∃ d < 16, c = hexChar d := by
  induction k generalizing n with
  | zero => cases h
  | succ k ih =>
    rcases List.mem_append.mp h with h | h
    · exact ih h
    · exact ⟨n % 16, Nat.mod_lt _ (by decide), List.mem_singleton.mp h⟩

theorem hexValue_hexDigits : hexValue (hexDigits k n) = n % 16 ^ k := by
  induction k generalizing n with
  | zero => rw [pow_zero, Nat.mod_one]; rfl
  | succ k ih =>
    have hlast := (hexChar_spec (n % 16) (Nat.mod_lt _ (by decide))).2.1
    have hstep : hexValue (hexDigits (k + 1) n) =
        16 * hexValue (hexDigits k (n / 16)) + n % 16 := by
      rw [hexDigits, hexValue, List.foldl_append, List.foldl_cons, List.foldl_nil, hlast]
      rfl
    rw [hstep, ih, pow_succ', Nat.mod_mul, Nat.add_comm]

/-- The digits of the number, and nothing of the name, stand before the `T`. -/
theorem digitsBeforeT_nmLine : digitsBeforeT (nmLine n name).dropLast = hexDigits 16 n := by
  have hnot : ∀ c ∈ hexDigits 16 n, decide (c ≠ 84) = true := by
    intro c hc
    obtain ⟨d, hd, rfl⟩ := exists_of_mem_hexDigits hc
    exact decide_eq_true (hexChar_spec d hd).2.2
  have hhex : ∀ c ∈ hexDigits 16 n, isHexChar c = true := by
    intro c hc
    obtain ⟨d, hd, rfl⟩ := exists_of_mem_hexDigits hc
    exact (hexChar_spec d hd).1
  have hspace : isHexChar 32 = false := by decide
  rw [nmLine, List.dropLast_append_of_ne_nil (List.cons_ne_nil _ _)]
  unfold digitsBeforeT
  rw [List.takeWhile_append_of_pos hnot, List.filter_append, List.filter_eq_self.mpr hhex]
  simp [hspace]

end

/-- **A line of `nm` gives its offset back**, whatever the name is. An offset that does not fit
into a `long` is read as `LONG_MAX`. -/
theorem rand_offset_of_nm (n : Nat) (name : List UInt8) (hn : n < 2 ^ 64) :
    findRandOffset (nmLine n name) = .ok (min n LONG_MAX) := by
  have hT : 84 ∈ (nmLine n name).dropLast := by
    rw [nmLine, List.dropLast_append_of_ne_nil (List.cons_ne_nil _ _)]
    simp
  have hlt : ((hexDigits 16 n).dropWhile (· = 48)).length < 63 := by
    have hle := (List.dropWhile_suffix (l := hexDigits 16 n) (· = 48)).length_le
    rw [hexDigits_length] at hle
    omega
  have hvalue : hexValue (hexDigits 16 n) = n := by
    rw [hexValue_hexDigits]
    exact Nat.mod_eq_of_lt hn
  have hread := findRandOffset_of_digits hT (by rwa [digitsBeforeT_nmLine])
  rwa [digitsBeforeT_nmLine, hvalue] at hread

/-- The line in the comment of the source, `0000000000040790 T rand@@GLIBC_2.2.5`. -/
theorem rand_offset_of_nm_glibc :
    findRandOffset [48, 48, 48, 48, 48, 48, 48, 48, 48, 48, 48, 52, 48, 55, 57, 48, 32, 84, 32,
      114, 97, 110, 100, 64, 64, 71, 76, 73, 66, 67, 95, 50, 46, 50, 46, 53, 10] = .ok 0x40790 :=
  rand_offset_of_nm 0x40790
    [114, 97, 110, 100, 64, 64, 71, 76, 73, 66, 67, 95, 50, 46, 50, 46, 53, 10] (by decide)

end Zso.Oomk

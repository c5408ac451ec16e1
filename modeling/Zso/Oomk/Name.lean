import Mathlib.Data.List.Infix
import Mathlib.Tactic

/-!
# The name filter

Every handler of the OOM killer first looks for `oomp` in the name of the current task.

* `substr_search_exact`: the search finds the substring wherever it is in the string and
  reads nothing behind the string's end.
* `name_filter_iff`: the filter looks at the whole buffer, and so at what was on the stack
  before the name was copied there.
-/

namespace Zso.Oomk

/-- The characters of `oomp`. -/
def oompStr : List UInt8 := [111, 111, 109, 112]

def oompLen : Nat := 4

/-- How a run of the inner loop ends. -/
inductive TailMatch
  /-- `return true` -/
  | found
  /-- `break` -/
  | mismatch
  /-- `return false` -/
  | ranOff
  deriving DecidableEq

/-- The inner loop over the indices `j`. A read outside of `str` gives `none`. -/
def matchTail (str : List UInt8) (strLen i : Nat) : List Nat → Option TailMatch
  | [] => some .mismatch
  | j :: js =>
    if i + j < strLen then
      str[i + j]?.bind fun c =>
        if some c = oompStr[j]? then
          if j ≥ oompLen - 1 then some .found else matchTail str strLen i js
        else some .mismatch
    else some .ranOff

/-- The outer loop over the indices `i`. -/
def searchFrom (str : List UInt8) (strLen : Nat) : List Nat → Option Bool
  | [] => some false
  | i :: is =>
    str[i]?.bind fun c =>
      if some c = oompStr[0]? then
        (matchTail str strLen i (List.range' 1 (oompLen - 1))).bind fun
          | .found => some true
          | .ranOff => some false
          | .mismatch => searchFrom str strLen is
      else searchFrom str strLen is

/-- `oomp_substr_exists_in` -/
def oompSubstrExistsIn (str : List UInt8) (strLen : Nat) : Option Bool :=
  searchFrom str strLen (List.range strLen)

/-- The buffer `char comm[16]`, after the name of the task has been copied to it. -/
abbrev Comm := Vector UInt8 16

/-- `is_oomp_present` -/
def isOompPresent (comm : Comm) : Bool := oompSubstrExistsIn comm.toList 16 == some true

/-- The name in the buffer: all before the first NUL. -/
def Comm.name (comm : Comm) : List UInt8 := comm.toList.takeWhile (· ≠ 0)

section
variable {str : List UInt8} {len i : Nat}

/-- `oomp` is at position `i`. -/
def OompAt (str : List UInt8) (i : Nat) : Prop := ∀ j < oompLen, str[i + j]? = oompStr[j]?

theorem oompAt_iff_prefix : OompAt str i ↔ oompStr <+: str.drop i := by
  rw [List.prefix_iff_getElem?]
  simp only [List.getElem?_drop]
  constructor
  · intro h j hj
    rw [h j hj]
    exact List.getElem?_eq_getElem hj
  · intro h j hj
    rw [h j hj]
    exact (List.getElem?_eq_getElem hj).symm

/-- `oomp` is at a position where there is room for it. -/
theorem OompAt.le (h : OompAt str i) : i + oompLen ≤ str.length := by
  have h3 := h 3 (by decide)
  have hlt : i + 3 < str.length := by
    by_contra hge
    rw [List.getElem?_eq_none (by omega)] at h3
    cases h3
  exact hlt

theorem exists_oompAt_iff : (∃ k, OompAt str k) ↔ oompStr <:+: str := by
  rw [List.infix_iff_prefix_suffix]
  constructor
  · rintro ⟨k, hk⟩
    exact ⟨str.drop k, oompAt_iff_prefix.mp hk, List.drop_suffix k str⟩
  · rintro ⟨t, hpre, hsuf⟩
    rw [List.suffix_iff_eq_drop] at hsuf
    exact ⟨_, oompAt_iff_prefix.mpr (hsuf ▸ hpre)⟩

/-- The inner loop decides whether what is left of `oomp` is there, and runs off the end
only when there is no room for it. -/
theorem matchTail_cases (hlen : len ≤ str.length) (n : Nat) (hn : 0 < n) {j : Nat}
    (hj : j + n = oompLen) :
    (matchTail str len i (List.range' j n) = some .found ∧ i + oompLen ≤ len ∧
      ∀ m, j ≤ m → m < oompLen → str[i + m]? = oompStr[m]?) ∨
    (matchTail str len i (List.range' j n) = some .mismatch ∧
      ∃ m, j ≤ m ∧ m < oompLen ∧ str[i + m]? ≠ oompStr[m]?) ∨
    (matchTail str len i (List.range' j n) = some .ranOff ∧ len < i + oompLen) := by
  induction n generalizing j with
  | zero => omega
  | succ n ih =>
    rw [List.range'_succ, matchTail]
    by_cases hr : i + j < len
    · obtain ⟨c, hc⟩ : ∃ c, str[i + j]? = some c := ⟨_, List.getElem?_eq_getElem (by omega)⟩
      rw [if_pos hr, hc, Option.bind_some]
      by_cases he : some c = oompStr[j]?
      · rw [if_pos he]
        by_cases hl : j ≥ oompLen - 1
        · rw [if_pos hl]
          refine .inl ⟨rfl, by omega, fun m hm hm' => ?_⟩
          obtain rfl : m = j := by omega
          exact hc.trans he
        · rw [if_neg hl]
          rcases ih (by omega) (by omega : j + 1 + n = oompLen) with
            ⟨hm, hle, hat⟩ | ⟨hm, m, hm', hne⟩ | ⟨hm, hlt⟩
          · refine .inl ⟨hm, hle, fun m hjm hlt => ?_⟩
            rcases Nat.eq_or_lt_of_le hjm with rfl | hjm
            · exact hc.trans he
            · exact hat m hjm hlt
          · exact .inr (.inl ⟨hm, m, by omega, hne⟩)
          · exact .inr (.inr ⟨hm, hlt⟩)
      · rw [if_neg he]
        exact .inr (.inl ⟨rfl, j, le_rfl, by omega, by rwa [hc]⟩)
    · rw [if_neg hr]
      exact .inr (.inr ⟨rfl, by omega⟩)

/-- The inner loop, once the first character has matched. -/
theorem matchTail_eq (hlen : len ≤ str.length) (h0 : str[i]? = oompStr[0]?) :
    (matchTail str len i (List.range' 1 (oompLen - 1)) = some .found ∧ OompAt str i ∧
      i + oompLen ≤ len) ∨
    (matchTail str len i (List.range' 1 (oompLen - 1)) = some .mismatch ∧ ¬ OompAt str i) ∨
    (matchTail str len i (List.range' 1 (oompLen - 1)) = some .ranOff ∧ len < i + oompLen) := by
  rcases matchTail_cases hlen (i := i) (oompLen - 1) (by decide) (j := 1) (by decide) with
    ⟨hm, hle, hat⟩ | ⟨hm, m, -, hlt, hne⟩ | h
  · refine .inl ⟨hm, fun m hm' => ?_, hle⟩
    rcases Nat.eq_zero_or_pos m with rfl | hpos
    · exact h0
    · exact hat m hpos hm'
  · exact .inr (.inl ⟨hm, fun hat => hne (hat m hlt)⟩)
  · exact .inr (.inr h)

/-- The rest of the search. -/
theorem searchFrom_eq (hlen : len ≤ str.length) (n : Nat) (hn : i + n = len) :
    ∃ b, searchFrom str len (List.range' i n) = some b ∧
      (b = true ↔ ∃ k, i ≤ k ∧ k + oompLen ≤ len ∧ OompAt str k) := by
  induction n generalizing i with
  | zero =>
    refine ⟨false, rfl, ?_⟩
    simp only [Bool.false_eq_true, false_iff]
    rintro ⟨k, hk, hk', -⟩
    unfold oompLen at hk'
    omega
  | succ n ih =>
    obtain ⟨b, hb, hiff⟩ := ih (i := i + 1) (by omega)
    obtain ⟨c, hc⟩ : ∃ c, str[i]? = some c := ⟨_, List.getElem?_eq_getElem (by omega)⟩
    -- `oomp` is not at `i`: it is found from `i + 1` on or not at all
    have hskip : ¬ OompAt str i → (b = true ↔ ∃ k, i ≤ k ∧ k + oompLen ≤ len ∧ OompAt str k) := by
      intro hnot
      rw [hiff]
      constructor
      · rintro ⟨k, hk, hat⟩
        exact ⟨k, by omega, hat⟩
      · rintro ⟨k, hk, hk', hat⟩
        refine ⟨k, Nat.lt_of_le_of_ne hk ?_, hk', hat⟩
        rintro rfl
        exact hnot hat
    rw [List.range'_succ, searchFrom, hc, Option.bind_some]
    by_cases e : some c = oompStr[0]?
    · rw [if_pos e]
      rcases matchTail_eq hlen (hc.trans e) with ⟨hm, hat, hle⟩ | ⟨hm, hnot⟩ | ⟨hm, hlt⟩
      · refine ⟨true, by rw [hm]; rfl, ?_⟩
        simpa using ⟨i, le_rfl, hle, hat⟩
      · refine ⟨b, ?_, hskip hnot⟩
        rw [hm]
        exact hb
      · refine ⟨false, by rw [hm]; rfl, ?_⟩
        simp only [Bool.false_eq_true, false_iff]
        rintro ⟨k, hk, hk', -⟩
        omega
    · rw [if_neg e]
      refine ⟨b, hb, hskip fun hat => e ?_⟩
      rw [← hc]
      exact hat 0 (by decide)

/-- The search finds `oomp` exactly when it is within the first `len` characters. -/
theorem oompSubstrExistsIn_eq (hlen : len ≤ str.length) :
    ∃ b, oompSubstrExistsIn str len = some b ∧
      (b = true ↔ ∃ k, k + oompLen ≤ len ∧ OompAt str k) := by
  obtain ⟨b, hb, hiff⟩ := searchFrom_eq hlen len (Nat.zero_add len)
  exact ⟨b, by rw [oompSubstrExistsIn, List.range_eq_range', hb], by simpa using hiff⟩

theorem oompAt_append {rest : List UInt8} (h : i + oompLen ≤ str.length) :
    OompAt (str ++ rest) i ↔ OompAt str i := by
  unfold OompAt
  refine forall₂_congr fun j hj => ?_
  rw [List.getElem?_append_left (by omega)]

/-- The search in a buffer that goes on behind the string. -/
theorem oompSubstrExistsIn_append (str rest : List UInt8) :
    ∃ b, oompSubstrExistsIn (str ++ rest) str.length = some b ∧ (b = true ↔ oompStr <:+: str) := by
  have hlen : str.length ≤ (str ++ rest).length := by simp
  obtain ⟨b, hb, hiff⟩ := oompSubstrExistsIn_eq hlen
  refine ⟨b, hb, ?_⟩
  rw [hiff, ← exists_oompAt_iff]
  constructor
  · rintro ⟨k, hk, hat⟩
    exact ⟨k, (oompAt_append hk).mp hat⟩
  · rintro ⟨k, hat⟩
    exact ⟨k, hat.le, (oompAt_append hat.le).mpr hat⟩

end

/-- **Exact search.** The search in the first `str.length` bytes of a buffer finds `oomp`
exactly if it occurs there. It does the same when these bytes are all that can be read, so
it reads nothing behind them. When a partial match runs off the end, `oomp` is at no later
position. -/
theorem substr_search_exact (str rest : List UInt8) :
    (∃ b, oompSubstrExistsIn str str.length = some b ∧
      oompSubstrExistsIn (str ++ rest) str.length = some b ∧ (b = true ↔ oompStr <:+: str)) ∧
    ∀ i, str[i]? = oompStr[0]? →
      matchTail str str.length i (List.range' 1 (oompLen - 1)) = some .ranOff →
      ∀ k, i ≤ k → ¬ OompAt str k := by
  constructor
  · obtain ⟨b, hb, hiff⟩ := oompSubstrExistsIn_append str []
    obtain ⟨b', hb', hiff'⟩ := oompSubstrExistsIn_append str rest
    rw [List.append_nil] at hb
    have heq : b' = b := Bool.eq_iff_iff.mpr (hiff'.trans hiff.symm)
    exact ⟨b, hb, heq ▸ hb', hiff⟩
  · intro i h0 hm k hk hat
    have hle := hat.le
    rcases matchTail_eq le_rfl h0 with ⟨hf, -⟩ | ⟨hf, -⟩ | ⟨-, hlt⟩
    · rw [hm] at hf
      cases hf
    · rw [hm] at hf
      cases hf
    · omega

/-- In `foo` the match that begins at the first `o` runs off the end. -/
theorem substr_search_runs_off :
    matchTail [102, 111, 111] 3 1 (List.range' 1 (oompLen - 1)) = some .ranOff ∧
      ∀ k, 1 ≤ k → ¬ OompAt [102, 111, 111] k :=
  ⟨by decide, (substr_search_exact [102, 111, 111] []).2 1 (by decide) (by decide)⟩

/-! ## The filter -/

theorem isOompPresent_iff (comm : Comm) : isOompPresent comm = true ↔ oompStr <:+: comm.toList := by
  have hlen : comm.toList.length = 16 := by simp
  obtain ⟨b, hb, hiff⟩ := oompSubstrExistsIn_append comm.toList []
  rw [List.append_nil, hlen] at hb
  rw [← hiff, isOompPresent, hb]
  simp

/-- A task whose name contains `oomp` passes the filter. -/
theorem isOompPresent_of_name {comm : Comm} (h : oompStr <:+: comm.name) :
    isOompPresent comm = true :=
  (isOompPresent_iff comm).mpr (h.trans (List.takeWhile_prefix _).isInfix)

/-- The name of a task: at most 15 characters, none of them NUL. -/
structure TaskName where
  chars : List UInt8
  length_le : chars.length ≤ 15
  no_nul : 0 ∉ chars

/-- `BPF_CORE_READ_STR_INTO`: the name and its NUL are copied, the rest of the buffer stays as
it was. -/
def TaskName.readStrInto (name : TaskName) (comm : Comm) : Comm :=
  ⟨(name.chars ++ 0 :: comm.toList.drop (name.chars.length + 1)).toArray, by
    have := name.length_le
    simp
    omega⟩

/-- The bytes behind the terminator. -/
def TaskName.leftover (name : TaskName) (comm : Comm) : List UInt8 :=
  comm.toList.drop (name.chars.length + 1)

/-- A string without `x` does not reach across an `x`. -/
theorem infix_append_cons {α : Type} {l a b : List α} {x : α} (hx : x ∉ l) :
    l <:+: a ++ x :: b ↔ l <:+: a ∨ l <:+: b := by
  constructor
  · rintro ⟨s, t, h⟩
    rcases List.append_eq_append_iff.mp h with ⟨c, hc, -⟩ | ⟨c, hc, ht⟩
    · exact .inl ⟨s, c, hc.symm⟩
    · cases c with
      | nil => exact .inl ⟨s, [], by simpa using hc⟩
      | cons y c =>
        obtain ⟨rfl, rfl⟩ : x = y ∧ b = c ++ t := by simpa using ht
        -- the `x` is before `l`
        have hc' : s ++ l = (a ++ [x]) ++ c := by simpa using hc
        rcases List.append_eq_append_iff.mp hc' with ⟨d, hd, rfl⟩ | ⟨d, -, rfl⟩
        · rcases List.eq_nil_or_concat d with rfl | ⟨d, y, rfl⟩
          · exact .inr ⟨[], t, by simp⟩
          · rw [List.concat_eq_append, ← List.append_assoc] at hd
            have hy : x = y := by simpa using (List.append_inj' hd rfl).2
            exact absurd (by simp [hy]) hx
        · exact .inr ⟨d, t, by simp⟩
  · rintro (h | h)
    · exact h.trans (List.prefix_append _ _).isInfix
    · exact h.trans ((List.suffix_cons _ _).trans (List.suffix_append _ _)).isInfix

/-- **The filter and the name.** The filter finds `oomp` in the bytes behind the terminator as
well. Its verdict is that of the name exactly if `oomp` is in the name or not in those bytes. -/
theorem name_filter_iff (name : TaskName) (comm : Comm) :
    (isOompPresent (name.readStrInto comm) = true ↔ oompStr <:+: name.chars) ↔
      oompStr <:+: name.chars ∨ ¬ oompStr <:+: name.leftover comm := by
  have hbytes : (name.readStrInto comm).toList = name.chars ++ 0 :: name.leftover comm := rfl
  rw [isOompPresent_iff, hbytes, infix_append_cons (by decide)]
  tauto

/-- The name is `sh`, and `oomp` was on the stack. -/
theorem name_filter_sees_stack :
    ∃ (name : TaskName) (comm : Comm), isOompPresent (name.readStrInto comm) = true ∧
      ¬ oompStr <:+: name.chars :=
  ⟨⟨[115, 104], by decide, by decide⟩,
    ⟨#[0, 0, 0, 111, 111, 109, 112, 0, 0, 0, 0, 0, 0, 0, 0, 0], rfl⟩, by decide +kernel, by decide⟩

end Zso.Oomk

import Mathlib.Tactic

/-!
# Fields of machine words

Words are natural numbers below a power of two. A word is built by shifting
fields into place and or-ing them, and taken apart by shifting and masking. The
lemmas here say when the two are inverse.
-/

namespace Bits

/-- Truncation to a 32-bit word. -/
def u32 (n : Nat) : Nat := n % 2 ^ 32

/-- Truncation to a 64-bit word. -/
def u64 (n : Nat) : Nat := n % 2 ^ 64

/-- Subtraction of 64-bit words, which wraps around. -/
def u64sub (a b : Nat) : Nat := (a + 2 ^ 64 - b) % 2 ^ 64

theorem u32_of_lt {n : Nat} (h : n < 2 ^ 32) : u32 n = n := Nat.mod_eq_of_lt h

theorem u64_of_lt {n : Nat} (h : n < 2 ^ 64) : u64 n = n := Nat.mod_eq_of_lt h

theorem u64sub_of_le {a b : Nat} (ha : a < 2 ^ 64) (hb : b ≤ a) : u64sub a b = a - b := by
  unfold u64sub
  have e : a + 2 ^ 64 - b = (a - b) + 2 ^ 64 := by omega
  rw [e, Nat.add_mod_right, Nat.mod_eq_of_lt (by omega)]

/-- A low field or-ed below a shifted one is their sum. -/
theorem shl_or {a b k : Nat} (hb : b < 2 ^ k) : a <<< k ||| b = a * 2 ^ k + b := by
  rw [← Nat.shiftLeft_add_eq_or_of_lt hb, Nat.shiftLeft_eq]

/-- The low field is what is left modulo its size. -/
theorem shl_or_mod {a b k : Nat} (hb : b < 2 ^ k) : (a <<< k ||| b) % 2 ^ k = b := by
  rw [shl_or hb, Nat.mul_add_mod_self_right, Nat.mod_eq_of_lt hb]

/-- The high field is what is left after shifting the low one out. -/
theorem shl_or_shr {a b k : Nat} (hb : b < 2 ^ k) : (a <<< k ||| b) >>> k = a := by
  rw [shl_or hb, Nat.shiftRight_eq_div_pow]
  rw [Nat.add_comm, Nat.add_mul_div_right _ _ (Nat.two_pow_pos k), Nat.div_eq_of_lt hb, Nat.zero_add]

/-- Masking with `2 ^ k - 1` keeps the low `k` bits. -/
theorem and_mask (n k : Nat) : n &&& (2 ^ k - 1) = n % 2 ^ k := Nat.and_two_pow_sub_one_eq_mod n k

end Bits

import Mathlib.Data.Multiset.AddSub
import Mathlib.Tactic

/-!
# Ledgers of resources

Items are acquired and released one at a time. A ledger has the items that are live, and whether
every item was live when it was released.

* `Ledger.run_acquire`, `Ledger.run_release`: what a row of acquisitions or releases does.
* `Ledger.run_acquire_release`: items are acquired and some of them released.
* `Ledger.run_balanced`: acquiring items and releasing them leaves the ledger as it was.
-/

namespace Ledgers

inductive Op (ι : Type)
  | acquire (i : ι)
  | release (i : ι)
deriving DecidableEq, Repr

structure Ledger (ι : Type) where
  live : Multiset ι
  /-- nothing has been released that was not live -/
  sound : Bool

namespace Ledger
variable {ι : Type} [DecidableEq ι]

def apply (L : Ledger ι) : Op ι → Ledger ι
  | .acquire i => { L with live := i ::ₘ L.live }
  | .release i => ⟨L.live.erase i, L.sound && decide (i ∈ L.live)⟩

def run (L : Ledger ι) (ops : List (Op ι)) : Ledger ι := ops.foldl apply L

@[simp] theorem run_nil (L : Ledger ι) : L.run [] = L := rfl

@[simp] theorem run_cons (L : Ledger ι) (op : Op ι) (ops : List (Op ι)) :
    L.run (op :: ops) = (L.apply op).run ops := rfl

theorem run_append (L : Ledger ι) (ops ops' : List (Op ι)) :
    L.run (ops ++ ops') = (L.run ops).run ops' := List.foldl_append

theorem run_acquire (L : Ledger ι) (l : List ι) :
    L.run (l.map .acquire) = ⟨↑l + L.live, L.sound⟩ := by
  induction l generalizing L with
  | nil => simp
  | cons i l ih => simp [ih, apply, ← Multiset.cons_coe]

/-- Releasing items that are live. -/
theorem run_release {L : Ledger ι} {l : List ι} {rest : Multiset ι} (h : L.live = ↑l + rest) :
    L.run (l.map .release) = ⟨rest, L.sound⟩ := by
  induction l generalizing L with
  | nil =>
    cases L
    simpa using h
  | cons i l ih =>
    have hcons : L.live = i ::ₘ (↑l + rest) := by rw [h, ← Multiset.cons_coe, Multiset.cons_add]
    have hi : L.apply (.release i) = ⟨↑l + rest, L.sound⟩ := by simp [apply, hcons]
    rw [List.map_cons, run_cons, hi, ih rfl]

/-- Acquiring items and then releasing all but `lost`. -/
theorem run_acquire_release (L : Ledger ι) {l l' : List ι} {lost : Multiset ι}
    (h : (l : Multiset ι) = ↑l' + lost) :
    L.run (l.map .acquire ++ l'.map .release) = ⟨lost + L.live, L.sound⟩ := by
  rw [run_append, run_acquire]
  exact run_release (by rw [h, add_assoc])

theorem run_balanced (L : Ledger ι) {l l' : List ι} (h : l.Perm l') :
    L.run (l.map .acquire ++ l'.map .release) = L := by
  have hl : (l : Multiset ι) = ↑l' + 0 := by rw [add_zero, Multiset.coe_eq_coe.mpr h]
  rw [L.run_acquire_release hl, zero_add]

/-- A clean-up in the reverse order. -/
theorem run_reverse (L : Ledger ι) (l : List ι) :
    L.run (l.map .acquire ++ l.reverse.map .release) = L :=
  L.run_balanced (List.reverse_perm l).symm

/-- What has gone wrong is not put right. -/
theorem run_unsound {L : Ledger ι} (h : L.sound = false) (ops : List (Op ι)) :
    (L.run ops).sound = false := by
  induction ops generalizing L with
  | nil => exact h
  | cons op ops ih =>
    refine ih ?_
    cases op with
    | acquire i => exact h
    | release i =>
      show (L.sound && _) = false
      rw [h, Bool.false_and]

end Ledger

end Ledgers

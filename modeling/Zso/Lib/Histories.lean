import Mathlib.Tactic

/-!
# Histories

A history is the list of the events so far, the first one first.

* `AtEach P h`: `P` holds of each event of `h` and of the history before it.
* `AtEach.prefixes`: what holds of the empty history and is kept by each event holds of
  every part of the history from its start.
-/

namespace Histories

variable {α : Type}

/-- `P` holds of each event and of what was before it. -/
def AtEach (P : List α → α → Prop) (h : List α) : Prop :=
  ∀ pre a, pre ++ [a] <+: h → P pre a

variable {P : List α → α → Prop} {h : List α}

@[simp] theorem atEach_nil : AtEach P [] := fun pre a hpre => by simp at hpre

@[simp] theorem atEach_cons {a : α} :
    AtEach P (a :: h) ↔ P [] a ∧ AtEach (fun pre => P (a :: pre)) h := by
  constructor
  · intro hP
    refine ⟨hP [] a (by simp), fun pre b hpre => hP (a :: pre) b ?_⟩
    exact List.cons_prefix_cons.mpr ⟨rfl, hpre⟩
  · rintro ⟨ha, hP⟩ pre b hpre
    cases pre with
    | nil =>
      obtain rfl : b = a := (List.cons_prefix_cons.mp hpre).1
      exact ha
    | cons c pre =>
      obtain ⟨rfl, hrest⟩ := List.cons_prefix_cons.mp hpre
      exact hP pre b hrest

/-- Induction over the history. -/
theorem AtEach.prefixes {Q : List α → Prop} (hP : AtEach P h) (hnil : Q [])
    (hstep : ∀ pre a, pre ++ [a] <+: h → P pre a → Q pre → Q (pre ++ [a])) {pre : List α}
    (hpre : pre <+: h) : Q pre := by
  induction pre using List.reverseRecOn with
  | nil => exact hnil
  | append_singleton pre a ih =>
    exact hstep pre a hpre (hP pre a hpre) (ih ((List.prefix_append _ _).trans hpre))

end Histories

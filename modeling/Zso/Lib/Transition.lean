import Mathlib.Tactic

/-!
# Labelled transition systems

A system is a set of initial states and a partial step function. What is
nondeterministic is in the label, so a run is a list of labels and can be
executed. This module has the rules the rest of the development uses.

* `Lts.ReachOn G`: the states reached by steps that all meet `G`.
* `Lts.invariantOn`: an invariant is proved once for the start and once for a
  step.
* `Lts.recording`: a record of what has happened is kept beside the state.
* `Lts.exec`: a list of labels is run.
-/

namespace Transition

/-- A labelled transition system with an executable step. -/
structure Lts (σ ℓ : Type) where
  init : σ → Prop
  next : σ → ℓ → Option σ

variable {σ ℓ : Type}

namespace Lts

/-- States reached from an initial state by steps that all meet `G`. -/
inductive ReachOn (M : Lts σ ℓ) (G : σ → ℓ → Prop) : σ → Prop
  | init {s : σ} : M.init s → ReachOn M G s
  | step {s s' : σ} {l : ℓ} : ReachOn M G s → G s l → M.next s l = some s' → ReachOn M G s'

/-- States reached by any steps. -/
def Reach (M : Lts σ ℓ) : σ → Prop := M.ReachOn fun _ _ => True

theorem Reach.step {M : Lts σ ℓ} {s s' : σ} {l : ℓ} (hr : M.Reach s) (hs : M.next s l = some s') :
    M.Reach s' :=
  ReachOn.step hr trivial hs

/-- Dropping the condition on the steps only adds states. -/
theorem ReachOn.mono {M : Lts σ ℓ} {G H : σ → ℓ → Prop} {s : σ} (h : M.ReachOn G s)
    (hGH : ∀ s l, G s l → H s l) : M.ReachOn H s := by
  induction h with
  | init h => exact .init h
  | step _ hg hs ih => exact ih.step (hGH _ _ hg) hs

theorem ReachOn.reach {M : Lts σ ℓ} {G : σ → ℓ → Prop} {s : σ} (h : M.ReachOn G s) : M.Reach s :=
  h.mono fun _ _ _ => trivial

/-- Another start of the same steps. -/
theorem ReachOn.restart {M N : Lts σ ℓ} {G : σ → ℓ → Prop} {s : σ} (h : M.ReachOn G s)
    (hinit : ∀ s, M.init s → N.ReachOn G s) (hnext : M.next = N.next) : N.ReachOn G s := by
  induction h with
  | init h => exact hinit _ h
  | step _ hg hs ih => exact ih.step hg (hnext ▸ hs)

/-- In a run every state before a step is itself reached. -/
theorem Reach.reachOn {M : Lts σ ℓ} {s : σ} (h : M.Reach s) : M.ReachOn (fun s _ => M.Reach s) s := by
  induction h with
  | init h => exact .init h
  | step hr _ hs ih => exact ih.step hr hs

/-- The invariant rule. The step may use that the state before it is reached. -/
theorem invariantOn {M : Lts σ ℓ} {G : σ → ℓ → Prop} {P : σ → Prop}
    (hinit : ∀ s, M.init s → P s)
    (hstep : ∀ s l s', M.ReachOn G s → P s → G s l → M.next s l = some s' → P s')
    {s : σ} (h : M.ReachOn G s) : P s := by
  induction h with
  | init h => exact hinit _ h
  | step hr hg hs ih => exact hstep _ _ _ hr ih hg hs

theorem invariant {M : Lts σ ℓ} {P : σ → Prop}
    (hinit : ∀ s, M.init s → P s)
    (hstep : ∀ s l s', M.Reach s → P s → M.next s l = some s' → P s')
    {s : σ} (h : M.Reach s) : P s :=
  invariantOn hinit (fun s l s' hr hp _ hs => hstep s l s' hr hp hs) h

/-- The system with a record that the steps write and never read. -/
def recording {γ : Type} (M : Lts σ ℓ) (start : γ → Prop) (write : σ → ℓ → γ → γ) :
    Lts (σ × γ) ℓ where
  init p := M.init p.1 ∧ start p.2
  next p l := (M.next p.1 l).map fun s => (s, write p.1 l p.2)

/-- Without the record it is the same system. -/
theorem ReachOn.forget {γ : Type} {M : Lts σ ℓ} {start : γ → Prop} {write : σ → ℓ → γ → γ}
    {G : σ → ℓ → Prop} {p : σ × γ}
    (h : (M.recording start write).ReachOn (fun p l => G p.1 l) p) : M.ReachOn G p.1 := by
  induction h with
  | init h => exact .init h.1
  | step _ hg hs ih =>
    obtain ⟨s, hs', rfl⟩ := Option.map_eq_some_iff.mp hs
    exact ih.step hg hs'

/-- Executing a list of labels. -/
def exec (M : Lts σ ℓ) : σ → List ℓ → Option σ
  | s, [] => some s
  | s, l :: ls => (M.next s l).bind fun s' => M.exec s' ls

@[simp] theorem exec_nil (M : Lts σ ℓ) (s : σ) : M.exec s [] = some s := rfl

@[simp] theorem exec_cons (M : Lts σ ℓ) (s : σ) (l : ℓ) (ls : List ℓ) :
    M.exec s (l :: ls) = (M.next s l).bind fun s' => M.exec s' ls := rfl

theorem exec_append (M : Lts σ ℓ) (s : σ) (ls ls' : List ℓ) :
    M.exec s (ls ++ ls') = (M.exec s ls).bind fun s' => M.exec s' ls' := by
  induction ls generalizing s with
  | nil => rfl
  | cons l ls ih =>
    show (M.next s l).bind (fun s' => M.exec s' (ls ++ ls')) = _
    rw [exec_cons, Option.bind_assoc]
    exact congrArg _ (funext ih)

/-- Executing labels that meet the condition as long as `I` holds, which they keep. -/
theorem ReachOn.exec_of {M : Lts σ ℓ} {G : σ → ℓ → Prop} {I : σ → Prop} {s s' : σ} {ls : List ℓ}
    (hr : M.ReachOn G s) (hI : I s)
    (hG : ∀ l ∈ ls, ∀ s, I s → G s l ∧ ∀ s', M.next s l = some s' → I s')
    (he : M.exec s ls = some s') : M.ReachOn G s' := by
  induction ls generalizing s with
  | nil =>
    cases he
    exact hr
  | cons l ls ih =>
    obtain ⟨t, ht, he⟩ := Option.bind_eq_some_iff.mp he
    obtain ⟨hg, hkeep⟩ := hG l List.mem_cons_self s hI
    exact ih (hr.step hg ht) (hkeep t ht) (fun l' hl' => hG l' (List.mem_cons_of_mem _ hl')) he

/-- Executing labels that always meet the condition. -/
theorem ReachOn.exec {M : Lts σ ℓ} {G : σ → ℓ → Prop} {s s' : σ} {ls : List ℓ}
    (hr : M.ReachOn G s) (hG : ∀ l ∈ ls, ∀ s, G s l) (he : M.exec s ls = some s') :
    M.ReachOn G s' :=
  hr.exec_of (I := fun _ => True) trivial (fun l hl s _ => ⟨hG l hl s, fun _ _ => trivial⟩) he

theorem reach_exec {M : Lts σ ℓ} {s s' : σ} {ls : List ℓ} (hr : M.Reach s)
    (he : M.exec s ls = some s') : M.Reach s' :=
  ReachOn.exec hr (fun _ _ _ => trivial) he

end Lts

end Transition

import Zso.Lib.Transition

/-!
# Fair runs

An endless run of a transition system. A thread that stops may be scheduled never
again, so what a run does in the end follows only if the threads go on: `Run.Fair`
says that what is due and stays due is done.

* `Run.eventually`: a rank that never grows, and that falls whenever the duty of the
  moment is done, leads to the goal.
* `Run.exists_exec`: a list of labels, and then one that changes nothing, is a run.
* `exists_follow`: what each step carries on is carried along the run.
-/

namespace Transition

variable {σ ℓ : Type}

/-- An endless run whose steps all meet `G`. -/
structure Run (M : Lts σ ℓ) (G : σ → ℓ → Prop) where
  state : Nat → σ
  label : Nat → ℓ
  step : ∀ i, M.next (state i) (label i) = some (state (i + 1))
  meets : ∀ i, G (state i) (label i)

namespace Run

variable {M : Lts σ ℓ} {G : σ → ℓ → Prop}

/-- Weak fairness: what is due from some moment on is done. -/
def Fair (run : Run M G) (due : σ → Prop) (does : ℓ → Prop) : Prop :=
  ∀ i, (∀ j, i ≤ j → due (run.state j)) → ∃ j, i ≤ j ∧ does (run.label j)

/-- The states of a run that starts in a reached state are reached. -/
theorem reach (run : Run M G) (h : M.Reach (run.state 0)) (i : Nat) : M.Reach (run.state i) := by
  induction i with
  | zero => exact h
  | succ i ih => exact ih.step (run.step i)

theorem reachOn (run : Run M G) (h : M.ReachOn G (run.state 0)) (i : Nat) :
    M.ReachOn G (run.state i) := by
  induction i with
  | zero => exact h
  | succ i ih => exact ih.step (run.meets i) (run.step i)

section
variable {κ α : Type} [LT α] {run : Run M G} {due : κ → σ → Prop}
  {does : κ → ℓ → Prop} {pending goal : Nat → Prop} {rank : Nat → α} {duty : Nat → κ}

/-- While the goal is pending, some duty is due. A step reaches the goal or keeps it
pending, and then the rank falls, or the rank and the duty stay and the duty is not
done. -/
structure Progress (run : Run M G) (due : κ → σ → Prop) (does : κ → ℓ → Prop)
    (pending goal : Nat → Prop) (rank : Nat → α) (duty : Nat → κ) : Prop where
  due : ∀ i, pending i → due (duty i) (run.state i)
  step : ∀ i, pending i → goal i ∨ pending (i + 1) ∧
    (rank (i + 1) < rank i ∨
      rank (i + 1) = rank i ∧ duty (i + 1) = duty i ∧ ¬ does (duty i) (run.label i))

/-- As long as neither the goal is reached nor the rank falls, nothing changes. -/
theorem Progress.stays (h : Progress run due does pending goal rank duty) {i : Nat}
    (hi : pending i) (hgoal : ∀ j, i ≤ j → ¬ goal j)
    (hrank : ∀ j, i ≤ j → pending j → ¬ rank j < rank i) (n : Nat) :
    pending (i + n) ∧ rank (i + n) = rank i ∧ duty (i + n) = duty i := by
  induction n with
  | zero => exact ⟨hi, rfl, rfl⟩
  | succ n ih =>
    obtain ⟨hp, hr, hd⟩ := ih
    obtain ⟨hp', hlt | ⟨hr', hd', -⟩⟩ :=
      (h.step (i + n) hp).resolve_left (hgoal _ (Nat.le_add_right i n))
    · rw [hr] at hlt
      exact absurd hlt (hrank _ (Nat.le_add_right i (n + 1)) hp')
    · exact ⟨hp', hr'.trans hr, hd'.trans hd⟩

/-- In a run that is fair to every duty the goal is reached. -/
theorem eventually [WellFoundedLT α] (h : Progress run due does pending goal rank duty)
    (hfair : ∀ k, run.Fair (due k) (does k)) {i : Nat} (hi : pending i) :
    ∃ j, i ≤ j ∧ goal j := by
  -- by induction on the rank
  obtain ⟨x, hx⟩ : ∃ x, rank i = x := ⟨_, rfl⟩
  induction x using WellFoundedLT.induction generalizing i with
  | ind x ih =>
    by_contra hno
    have hgoal : ∀ j, i ≤ j → ¬ goal j := fun j hj hg => hno ⟨j, hj, hg⟩
    have hrank : ∀ j, i ≤ j → pending j → ¬ rank j < rank i := by
      intro j hj hp hlt
      obtain ⟨k, hk, hg⟩ := ih (rank j) (hx ▸ hlt) hp rfl
      exact hno ⟨k, hj.trans hk, hg⟩
    have hstays := h.stays hi hgoal hrank
    have hdue : ∀ j, i ≤ j → due (duty i) (run.state j) := by
      intro j hj
      obtain ⟨n, rfl⟩ := Nat.exists_eq_add_of_le hj
      obtain ⟨hp, -, hd⟩ := hstays n
      exact hd ▸ h.due _ hp
    obtain ⟨j, hj, hdoes⟩ := hfair (duty i) i hdue
    obtain ⟨n, rfl⟩ := Nat.exists_eq_add_of_le hj
    obtain ⟨hp, hr, hd⟩ := hstays n
    rcases (h.step _ hp).resolve_left (hgoal _ hj) with ⟨hp', hlt | ⟨-, -, hnot⟩⟩
    · exact hrank _ (hj.trans (Nat.le_succ _)) hp' (hr ▸ hlt)
    · exact hnot (hd ▸ hdoes)

end

/-! ## Runs that come to rest -/

/-- A step in front of a run. -/
def cons (run : Run M G) (s : σ) (l : ℓ) (hs : M.next s l = some (run.state 0)) (hg : G s l) :
    Run M G where
  state
    | 0 => s
    | i + 1 => run.state i
  label
    | 0 => l
    | i + 1 => run.label i
  step i := by
    cases i with
    | zero => exact hs
    | succ i => exact run.step i
  meets i := by
    cases i with
    | zero => exact hg
    | succ i => exact run.meets i

/-- The labels `ls` lead from `s` to `t`, and there the run stays. -/
theorem exists_exec {I : σ → Prop} {s t : σ} {ls : List ℓ} (stay : ℓ) (hI : I s)
    (hG : ∀ l ∈ ls, ∀ s, I s → G s l ∧ ∀ s', M.next s l = some s' → I s')
    (he : M.exec s ls = some t) (hg : G t stay) (hstay : M.next t stay = some t) :
    ∃ run : Run M G, run.state 0 = s ∧ (∀ i, run.label i ∈ ls ∨ ls.length ≤ i) ∧
      ∀ i, ls.length ≤ i → run.state i = t := by
  induction ls generalizing s with
  | nil =>
    cases he
    exact ⟨⟨fun _ => t, fun _ => stay, fun _ => hstay, fun _ => hg⟩, rfl,
      fun i => .inr (Nat.zero_le i), fun _ _ => rfl⟩
  | cons l ls ih =>
    obtain ⟨s', hs, he⟩ := Option.bind_eq_some_iff.mp he
    obtain ⟨hgl, hnext⟩ := hG l List.mem_cons_self s hI
    obtain ⟨run, rfl, hlabel, hrest⟩ :=
      ih (hnext s' hs) (fun l hl => hG l (List.mem_cons_of_mem _ hl)) he
    refine ⟨run.cons s l hs hgl, rfl, fun i => ?_, fun i hi => ?_⟩
    · cases i with
      | zero => exact .inl List.mem_cons_self
      | succ i =>
        exact (hlabel i).imp (List.mem_cons_of_mem _) Nat.succ_le_succ
    · cases i with
      | zero => cases hi
      | succ i => exact hrest i (Nat.le_of_succ_le_succ hi)

end Run

/-- What every step carries on is carried along for ever. -/
theorem exists_follow {τ : Type} {P : Nat → τ → Prop} {R : Nat → τ → τ → Prop} {a : τ}
    (h0 : P 0 a) (hstep : ∀ i x, P i x → ∃ y, P (i + 1) y ∧ R i x y) :
    ∃ f : Nat → τ, f 0 = a ∧ (∀ i, P i (f i)) ∧ ∀ i, R i (f i) (f (i + 1)) := by
  have : Nonempty τ := ⟨a⟩
  choose! next hnext using hstep
  let f : Nat → τ := Nat.rec a next
  have hP : ∀ i, P i (f i) := by
    intro i
    induction i with
    | zero => exact h0
    | succ i ih => exact (hnext i _ ih).1
  exact ⟨f, rfl, hP, fun i => (hnext i _ (hP i)).2⟩

end Transition

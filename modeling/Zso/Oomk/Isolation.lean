import Zso.Oomk.Deeds

/-!
# Threads do not interfere

All threads share one map, one flag and the handlers. What the OOM killer knows of a thread and
whether it kills it nevertheless depends on nothing but the thread's own events, the records of it
that the map drops, and the flag.

* `Label.concerns`: the events a thread's record depends on.
* `Killer.SameFor`: what the handlers can see of a thread. An event that does not concern the
  thread keeps it, and one that does takes equal views to equal views.
* `threads_do_not_interfere`: two histories with the same events of a thread, in the same order,
  end with the same record and the same kills, however they are interleaved with the others.
-/

namespace Zso.Oomk

/-- The label is an event of thread `k`, drops its record, or sets the flag. -/
def Label.concerns (k : PidTgid) : Label → Bool
  | .fire t _ _ => t.pidTgid = k
  | .exit t => t.pidTgid = k
  | .evict k' => k' = k
  | .allow _ => true

/-- For each event of a history that concerns `k`: whether `k` is killed by it. -/
def Killer.killsOf (k : PidTgid) (s : Killer) : List Label → List Bool
  | [] => []
  | l :: ls =>
    if l.concerns k then decide (s.kills l = some k) :: (s.step l).killsOf k ls
    else (s.step l).killsOf k ls

/-- The handlers see the same of thread `k`. -/
structure Killer.SameFor (k : PidTgid) (s s' : Killer) : Prop where
  record : s'.stateMap k = s.stateMap k
  flag : s'.isKillingAllowed = s.isKillingAllowed

section
variable {k : PidTgid} {s s' : Killer} {l : Label}

theorem Killer.SameFor.trans {s₁ s₂ s₃ : Killer} (h : Killer.SameFor k s₁ s₂)
    (h' : Killer.SameFor k s₂ s₃) : Killer.SameFor k s₁ s₃ :=
  ⟨h'.record.trans h.record, h'.flag.trans h.flag⟩

theorem Killer.SameFor.symm (h : Killer.SameFor k s s') : Killer.SameFor k s' s :=
  ⟨h.record.symm, h.flag.symm⟩

theorem Killer.sameFor_set {k' : PidTgid} (hne : k ≠ k') (s : Killer) (p : ProcInfo) :
    Killer.SameFor k s (s.set k' p) := ⟨Killer.set_ne hne, rfl⟩

theorem Killer.sameFor_delete {k' : PidTgid} (hne : k ≠ k') (s : Killer) :
    Killer.SameFor k s (s.delete k') := ⟨Killer.delete_ne hne, rfl⟩

/-- An event of another thread is not seen. -/
theorem Killer.sameFor_step (hl : l.concerns k = false) (s : Killer) :
    Killer.SameFor k s (s.step l) := by
  cases l with
  | fire t miss probe =>
    have hne : k ≠ t.pidTgid := fun he => by simp [Label.concerns, he] at hl
    show Killer.SameFor k s (s.fire t miss probe).1
    rw [Killer.fire_eq]
    split
    · split
      · exact Killer.sameFor_delete hne s
      · split
        · exact Killer.sameFor_delete hne s
        · exact Killer.sameFor_set hne s _
    · exact ⟨rfl, rfl⟩
  | exit t =>
    have hne : k ≠ t.pidTgid := fun he => by simp [Label.concerns, he] at hl
    show Killer.SameFor k s (s.checkIfProcExited t)
    rw [Killer.checkIfProcExited_eq]
    split
    · exact Killer.sameFor_delete hne s
    · exact ⟨rfl, rfl⟩
  | evict k' =>
    have hne : k ≠ k' := fun he => by simp [Label.concerns, he] at hl
    exact Killer.sameFor_delete hne s
  | allow on => cases hl

theorem Killer.SameFor.found (h : Killer.SameFor k s s') : s'.found k = s.found k := by
  unfold Killer.found
  rw [h.record]

theorem Killer.SameFor.shouldKill (h : Killer.SameFor k s s') (e : Effect) (p : ProcInfo) :
    s'.shouldKill e p = s.shouldKill e p := by
  unfold Killer.shouldKill
  rw [h.flag]

theorem Killer.SameFor.delete (h : Killer.SameFor k s s') :
    Killer.SameFor k (s.delete k) (s'.delete k) :=
  ⟨by rw [Killer.delete_self, Killer.delete_self], h.flag⟩

/-- An event of the thread does the same to both. -/
theorem Killer.SameFor.step (h : Killer.SameFor k s s') (hl : l.concerns k = true) :
    Killer.SameFor k (s.step l) (s'.step l) ∧ s'.kills l = s.kills l := by
  cases l with
  | fire t miss probe =>
    obtain rfl : t.pidTgid = k := of_decide_eq_true hl
    refine ⟨?_, ?_⟩
    · show Killer.SameFor _ (s.fire t miss probe).1 (s'.fire t miss probe).1
      rw [Killer.fire_eq, Killer.fire_eq, h.found, h.shouldKill]
      split
      · split
        · exact h.delete
        · split
          · exact h.delete
          · exact ⟨by rw [Killer.set_self, Killer.set_self], h.flag⟩
      · exact h
    · rw [Killer.kills_fire, Killer.kills_fire, h.found, h.shouldKill]
  | exit t =>
    obtain rfl : t.pidTgid = k := of_decide_eq_true hl
    refine ⟨?_, rfl⟩
    show Killer.SameFor _ (s.checkIfProcExited t) (s'.checkIfProcExited t)
    rw [Killer.checkIfProcExited_eq, Killer.checkIfProcExited_eq]
    split
    · exact h.delete
    · exact h
  | evict k' =>
    obtain rfl : k' = k := of_decide_eq_true hl
    exact ⟨h.delete, rfl⟩
  | allow on => exact ⟨⟨h.record, rfl⟩, rfl⟩

/-- A history and the part of it that concerns the thread. -/
theorem Killer.SameFor.run (h : Killer.SameFor k s s') (ls : List Label) :
    Killer.SameFor k (ls.foldl Killer.step s) ((ls.filter (Label.concerns k)).foldl Killer.step s') ∧
      s'.killsOf k (ls.filter (Label.concerns k)) = s.killsOf k ls := by
  induction ls generalizing s s' with
  | nil => exact ⟨h, rfl⟩
  | cons l ls ih =>
    cases hl : l.concerns k with
    | true =>
      obtain ⟨hstep, hkills⟩ := h.step hl
      obtain ⟨hrun, hrest⟩ := ih hstep
      rw [List.filter_cons_of_pos hl]
      refine ⟨hrun, ?_⟩
      unfold Killer.killsOf
      rw [if_pos hl, if_pos hl, hkills, hrest]
    | false =>
      have hstep : Killer.SameFor k (s.step l) s' := (Killer.sameFor_step hl s).symm.trans h
      obtain ⟨hrun, hrest⟩ := ih hstep
      rw [List.filter_cons_of_neg (by rw [hl]; exact Bool.false_ne_true)]
      refine ⟨hrun, ?_⟩
      rw [hrest, Killer.killsOf, if_neg (by rw [hl]; exact Bool.false_ne_true)]

end

/-- **Threads do not interfere.** Two histories in which a thread has the same events, in the same
order and with the flag set and cleared at the same places among them, leave it the same record and
kill it at the same events, whatever the other threads do and however they are interleaved. -/
theorem threads_do_not_interfere (s : Killer) {k : PidTgid} {ls ls' : List Label}
    (h : ls.filter (Label.concerns k) = ls'.filter (Label.concerns k)) :
    (ls.foldl Killer.step s).stateMap k = (ls'.foldl Killer.step s).stateMap k ∧
      s.killsOf k ls = s.killsOf k ls' := by
  have hself : Killer.SameFor k s s := ⟨rfl, rfl⟩
  obtain ⟨hrun, hkills⟩ := hself.run ls
  obtain ⟨hrun', hkills'⟩ := hself.run ls'
  rw [h] at hrun hkills
  exact ⟨hrun.record.symm.trans hrun'.record, hkills.symm.trans hkills'⟩

/-- Two threads write; their writes may come in either order. -/
theorem threads_do_not_interfere_writes :
    let s : Killer := ⟨fun _ => none, true⟩
    (([oompExit 7 .write 1, oompExit 8 .write 1].foldl Killer.step s).stateMap ⟨7, 7⟩) =
      ([oompExit 8 .write 1, oompExit 7 .write 1].foldl Killer.step s).stateMap ⟨7, 7⟩ :=
  (threads_do_not_interfere (k := ⟨7, 7⟩) ⟨fun _ => none, true⟩ rfl).1

end Zso.Oomk

import Zso.Adler.Places

/-!
# Sleeping writers

A writer that finds no free buffer sleeps on `free_wq`. The interrupt handler wakes the
sleepers when it puts a buffer back. The error path of `adlerdev_write` puts a buffer back
too, when `copy_from_user` has failed, and wakes nobody.

* `no_writer_stuck`: that is harmless as long as the next interrupt is sure to come:
  another buffer is running, or is with another writer. It is not harmless otherwise.
* `last_fault_leaves_sleeper`: sixteen writers fault while a seventeenth sleeps.
-/

namespace Zso.Adler
open Transition

/-- Writer `w` sleeps on `free_wq`. -/
def Sys.Sleeps (s : Sys) (w : Nat) : Prop := ∃ call, s.writes w = some call ∧ call.pc = .asleep

/-- Writer `w` has a buffer. -/
def Sys.Holds (s : Sys) (w : Nat) : Prop := s.spot w ≠ none

/-- A writer sleeps beside a free buffer, and nothing under way will wake it. -/
structure Sys.Stuck (s : Sys) : Prop where
  sleeper : ∃ w, s.Sleeps w
  free : s.buffersFree ≠ []
  running : s.buffersRunning = []
  /-- nobody has been woken and has yet to test its condition -/
  woken : ∀ w call, s.writes w = some call → call.pc ≠ .retest
  holder : ∀ w, ¬ s.Holds w

/-- When `copy_from_user` fails for a writer while others sleep, another buffer is running or
with another writer. -/
def FaultsWatched (s : Sys) : Label → Prop
  | .writeStep w (.fault _) =>
    (∃ x, s.Sleeps x) → s.buffersRunning ≠ [] ∨ ∃ x, x ≠ w ∧ s.Holds x
  | _ => True

/-- While writers sleep beside a free buffer there is one that will be retired. -/
def Sys.Watched (s : Sys) : Prop :=
  (∃ x, s.Sleeps x) → s.buffersFree ≠ [] → s.buffersRunning ≠ [] ∨ ∃ x, s.Holds x

section
variable {s t u : Sys} {w x b : Nat} {call : WriteCall} {co : Option WriteCall} {l : Label}

/-! ## Who sleeps -/

/-- A writer other than `w` is where it was. -/
theorem Sys.Sleeps.setWrite (h : (s.setWrite w co).Sleeps x)
    (hco : ∀ call, co = some call → call.pc ≠ .asleep) : s.Sleeps x := by
  obtain ⟨call, hx, hp⟩ := h
  rcases Sys.setWrite_cases hx with ⟨-, he⟩ | ⟨-, he⟩
  · exact absurd hp (hco call he)
  · exact ⟨call, he, hp⟩

theorem WriteCall.loop_pc_ne (call : WriteCall) : call.loop.pc ≠ .asleep := by
  unfold WriteCall.loop
  dsimp only
  split <;> simp

/-- A writer falls asleep only when there is no free buffer. -/
theorem writeStep_sleeps {step : WriteStep} (h : s.writeStep w call step = some t)
    (hx : t.Sleeps x) : t.buffersFree = [] ∨ s.Sleeps x := by
  cases step with
  | test =>
    simp only [Sys.writeStep] at h
    split at h
    · split at h
      · cases h
        exact .inr (hx.setWrite (by rintro _ ⟨⟩; simp))
      · cases h
        exact .inr (hx.setWrite (by rintro _ ⟨⟩; simp))
    · cases h
  | retest =>
    simp only [Sys.writeStep] at h
    split at h
    · cases h
      by_cases hf : s.buffersFree = []
      · exact .inl hf
      · exact .inr (hx.setWrite (by rintro _ ⟨⟩; simp [hf]))
    · cases h
  | signal =>
    simp only [Sys.writeStep] at h
    split at h
    · split at h
      · cases h
        exact .inr (hx.setWrite (by rintro _ ⟨⟩; simp [WriteCall.cutShort]))
      · cases h
        exact .inr (hx.setWrite (by rintro _ ⟨⟩; simp))
    · cases h
  | copy =>
    simp only [Sys.writeStep] at h
    split at h
    · obtain ⟨ctx, -, rfl⟩ := Option.map_eq_some_iff.mp h
      exact .inr (hx.setWrite (by rintro _ ⟨⟩; simp))
    · cases h
  | fault garbage =>
    simp only [Sys.writeStep] at h
    split at h
    · cases h
      exact .inr (hx.setWrite (by rintro _ ⟨⟩; simp [WriteCall.cutShort]))
    · cases h
  | submit =>
    simp only [Sys.writeStep] at h
    split at h
    · obtain ⟨u, hu, rfl⟩ := Option.map_eq_some_iff.mp h
      have hx' : u.Sleeps x := hx.setWrite (by rintro _ ⟨⟩; exact WriteCall.loop_pc_ne _)
      split at hu
      · obtain ⟨c, ctx, -, -, rfl⟩ := Sys.start_eq hu
        exact .inr hx'
      · cases hu
        exact .inr hx'
    · cases h
  | exit =>
    simp only [Sys.writeStep] at h
    split at h
    · cases h
      exact .inr (hx.setWrite (by rintro _ ⟨⟩))
    · cases h

theorem Sys.wakeFree_not_sleeps : ¬ s.wakeFree.Sleeps x := by
  rintro ⟨call, hx, hp⟩
  obtain ⟨old, -, rfl⟩ := Option.map_eq_some_iff.mp hx
  cases hpc : old.pc <;> simp [WritePc.wake, hpc] at hp

/-- Whoever sleeps after a step slept before it, unless there is no free buffer. -/
theorem Sys.next_sleeps (h : s.next l = some t) (hx : t.Sleeps x) :
    t.buffersFree = [] ∨ s.Sleeps x := by
  cases Sys.next_step h with
  | write w c data hw hc => exact .inr (hx.setWrite (by rintro _ ⟨⟩; exact WriteCall.loop_pc_ne _))
  | isrLast b c ctx hi hr hb hc => exact absurd hx Sys.wakeFree_not_sleeps
  | isrNext b b' rest c c' ctx ctx' hi hr hb hc hb' hc' => exact absurd hx Sys.wakeFree_not_sleeps
  | power _ hp =>
    obtain ⟨hwrites, -⟩ := powerStep_frame hp
    obtain ⟨call, hc, hpc⟩ := hx
    exact .inr ⟨call, hwrites ▸ hc, hpc⟩
  | openFile | release | read | readStep | finish | isrNothing => exact .inr hx
  | move | take | interrupted | copy | fault | submitFirst | submit | exit =>
    obtain ⟨call, -, h⟩ := Option.bind_eq_some_iff.mp h
    exact writeStep_sleeps h hx

/-! ## Who has a buffer -/

/-- No buffer of a writer other than `w` changes hands. -/
theorem Sys.Holds.setWrite (h : s.Holds x) (hne : x ≠ w) : (s.setWrite w co).Holds x := by
  rw [Sys.Holds, Sys.spot_setWrite, if_neg hne]
  exact h

/-- A writer without a buffer does something. -/
theorem Sys.Holds.setWrite_of (h : s.Holds x) (hw : s.spot w = none) :
    (s.setWrite w co).Holds x := by
  refine h.setWrite ?_
  rintro rfl
  exact h hw

theorem Sys.holds_self (hco : (co.bind fun call => call.pc.spot) ≠ none) :
    (s.setWrite w co).Holds w := by
  rw [Sys.Holds, Sys.spot_setWrite, if_pos rfl]
  exact hco

/-- Nobody gives a buffer away, and the lists stay. -/
theorem Sys.Watched.stay (h : s.Watched) (hx : s.Sleeps x) (hfree : t.buffersFree ≠ [])
    (hf : t.buffersFree = s.buffersFree) (hr : t.buffersRunning = s.buffersRunning)
    (hh : ∀ w, s.Holds w → t.Holds w) : t.buffersRunning ≠ [] ∨ ∃ x, t.Holds x := by
  rw [hf] at hfree
  rcases h ⟨x, hx⟩ hfree with hrun | ⟨w, hw⟩
  · exact .inl (hr ▸ hrun)
  · exact .inr ⟨w, hh w hw⟩

theorem Sys.Watched.step (h : s.Watched) (hg : FaultsWatched s l) (hs : s.next l = some t) :
    t.Watched := by
  rintro ⟨x, hx⟩ hfree
  have hx' : s.Sleeps x := (Sys.next_sleeps hs hx).resolve_left hfree
  cases Sys.next_step hs with
  | write w c data hw hc =>
    exact h.stay hx' hfree rfl rfl fun y hy => hy.setWrite_of (by simp [Sys.spot, hw])
  | move w step call pc hl hw hpc hpc' =>
    have hspot := (Sys.spot_eq hw).trans (WritePc.spot_of_waits hpc)
    exact h.stay hx' hfree rfl rfl fun y hy => hy.setWrite_of hspot
  | interrupted w call hw hpc =>
    have hspot := (Sys.spot_eq hw).trans (WritePc.spot_of_waits hpc)
    exact h.stay hx' hfree rfl rfl fun y hy => hy.setWrite_of hspot
  | exit w call ret hw hpc =>
    have hspot : s.spot w = none := by rw [Sys.spot_eq hw, hpc]; rfl
    exact h.stay hx' hfree rfl rfl fun y hy => hy.setWrite_of hspot
  | take w call b rest hw hpc hf => exact .inr ⟨w, Sys.holds_self (by simp [WritePc.spot])⟩
  | copy w call b ctx hw hpc hc => exact .inr ⟨w, Sys.holds_self (by simp [WritePc.spot])⟩
  | fault w call b garbage hw hpc =>
    -- the list of free buffers was empty perhaps, so only the condition on the step helps
    rcases hg ⟨x, hx'⟩ with hrun | ⟨y, hne, hy⟩
    · exact .inl hrun
    · exact .inr ⟨y, Sys.Holds.setWrite hy hne⟩
  | submitFirst w call b c ctx hw hpc hr hb hc => exact .inl (by simp [Sys.queued, Sys.setWrite])
  | submit w call b hw hpc hr => exact .inl (by simp [Sys.queued, Sys.setWrite])
  | isrLast b c ctx hi hr hb hc => exact absurd hx Sys.wakeFree_not_sleeps
  | isrNext b b' rest c c' ctx ctx' hi hr hb hc hb' hc' => exact absurd hx Sys.wakeFree_not_sleeps
  | power _ hp =>
    obtain ⟨hwrites, hf, hr⟩ := powerStep_frame hp
    exact h.stay hx' hfree hf hr fun y hy => by simpa [Sys.Holds, Sys.spot, hwrites] using hy
  | openFile | release | read | readStep | finish | isrNothing =>
    exact h.stay hx' hfree rfl rfl fun _ hy => hy

theorem Sys.Probed.watched (h : s.Probed) : s.Watched := by
  rintro ⟨w, call, hw, -⟩
  simp [h.writes w] at hw

theorem Sys.Watched.reach (h : adler.ReachOn FaultsWatched s) : s.Watched :=
  Lts.invariantOn (fun _ => Sys.Probed.watched) (fun _ _ _ _ hs hg hn => hs.step hg hn) h

/-! ## A fault nobody watches -/

/-- There are finitely many calls. -/
theorem Sys.writes_bounded (h : adler.Reach s) : ∃ n, ∀ w, n ≤ w → s.writes w = none := by
  refine Lts.invariant (P := fun s : Sys => ∃ n, ∀ w, n ≤ w → s.writes w = none)
    (fun s (hs : s.Probed) => ⟨0, fun w _ => hs.writes w⟩) (fun s l t _ ih hs => ?_) h
  obtain ⟨n, hn⟩ := ih
  -- a step touches one call at most, or wakes them all
  have hset : ∀ (u : Sys) w co, u.writes = s.writes →
      ∃ n, ∀ x, n ≤ x → (u.setWrite w co).writes x = none := by
    intro u w co hu
    refine ⟨max n (w + 1), fun x hx => ?_⟩
    rw [Sys.writes_setWrite, if_neg (by omega), hu]
    exact hn x (by omega)
  have hwake : ∀ u : Sys, u.writes = s.writes → ∃ n, ∀ x, n ≤ x → u.wakeFree.writes x = none := by
    intro u hu
    refine ⟨n, fun x hx => ?_⟩
    simp [Sys.wakeFree, hu, hn x hx]
  cases Sys.next_step hs with
  | power _ hp =>
    rw [(powerStep_frame hp).1]
    exact ⟨n, hn⟩
  | openFile | release | read | readStep | finish | isrNothing => exact ⟨n, hn⟩
  | isrLast | isrNext => exact hwake _ rfl
  | write | move | take | interrupted | copy | fault | submitFirst | submit | exit =>
    exact hset _ _ _ rfl

/-- The buffers are where they were, and whoever slept sleeps. -/
structure Sys.Still (s t : Sys) : Prop where
  free : t.buffersFree = s.buffersFree
  running : t.buffersRunning = s.buffersRunning
  spot : ∀ w, t.spot w = s.spot w
  sleeps : ∀ w, s.Sleeps w → t.Sleeps w

theorem Sys.Still.trans (h : s.Still t) (h' : t.Still u) : s.Still u where
  free := h'.free.trans h.free
  running := h'.running.trans h.running
  spot w := (h'.spot w).trans (h.spot w)
  sleeps w hw := h'.sleeps w (h.sleeps w hw)

/-- A writer that was woken finds a free buffer and goes on to take it. -/
theorem Sys.retest_still (hf : s.buffersFree ≠ []) (hw : s.writes w = some call)
    (hpc : call.pc = .retest) : ∃ t, s.next (.writeStep w .retest) = some t ∧ s.Still t ∧
      t.writes = Function.update s.writes w (some { call with pc := .test }) := by
  refine ⟨s.setWrite w (some { call with pc := .test }), ?_, ⟨rfl, rfl, fun x => ?_, fun x hx => ?_⟩,
    rfl⟩
  · simp [Sys.next, hw, Sys.writeStep, hpc, hf]
  · rw [Sys.spot_setWrite]
    split
    · next hx => simp [hx, Sys.spot_eq hw, hpc, WritePc.spot]
    · rfl
  · obtain ⟨call', hx, hp⟩ := hx
    have hne : x ≠ w := by
      rintro rfl
      simp_all
    exact ⟨call', by rw [Sys.writes_setWrite, if_neg hne, hx], hp⟩

/-- The writers that have been woken test their condition, one after the other. -/
theorem Sys.settle (hf : s.buffersFree ≠ []) (n : Nat) :
    ∃ ls t, adler.exec s ls = some t ∧ s.Still t ∧ (∀ w, n ≤ w → t.writes w = s.writes w) ∧
      ∀ w call, w < n → t.writes w = some call → call.pc ≠ .retest := by
  induction n with
  | zero => exact ⟨[], s, rfl, ⟨rfl, rfl, fun _ => rfl, fun _ h => h⟩, fun _ _ => rfl, by simp⟩
  | succ n ih =>
    obtain ⟨ls, t, ht, hstill, hrest, hdone⟩ := ih
    by_cases hn : ∃ call, t.writes n = some call ∧ call.pc = .retest
    · obtain ⟨call, hw, hpc⟩ := hn
      obtain ⟨u, hu, hstill', hwrites⟩ := Sys.retest_still (hstill.free ▸ hf) hw hpc
      refine ⟨ls ++ [.writeStep n .retest], u, ?_, hstill.trans hstill', fun w hw => ?_,
        fun w call' hlt hw => ?_⟩
      · rw [Lts.exec_append, ht, Option.bind_some, Lts.exec_cons,
          show adler.next t (.writeStep n .retest) = some u from hu]
        rfl
      · rw [hwrites, Function.update_of_ne (by omega), hrest w (by omega)]
      · rw [hwrites] at hw
        rcases Sys.setWrite_cases hw with ⟨-, he⟩ | ⟨hne, he⟩
        · cases he
          simp
        · exact hdone w call' (by omega) he
    · refine ⟨ls, t, ht, hstill, fun w hw => hrest w (by omega), fun w call hlt hw hpc => ?_⟩
      rcases Nat.lt_succ_iff_lt_or_eq.mp hlt with hlt | rfl
      · exact hdone w call hlt hw hpc
      · exact hn ⟨call, hw, hpc⟩

/-- Nobody holds a buffer and nothing is running: once all woken writers have tested their
condition, the others sleep for good. -/
theorem Sys.stuck_after (hr : adler.Reach s) (hx : s.Sleeps x) (hf : s.buffersFree ≠ [])
    (hrun : s.buffersRunning = []) (hh : ∀ w, ¬ s.Holds w) :
    ∃ ls t, adler.exec s ls = some t ∧ t.Stuck := by
  obtain ⟨n, hn⟩ := Sys.writes_bounded hr
  obtain ⟨ls, t, ht, hstill, hrest, hdone⟩ := Sys.settle hf n
  refine ⟨ls, t, ht, ⟨x, hstill.sleeps x hx⟩, hstill.free ▸ hf, hstill.running.trans hrun,
    fun w call hw => ?_, fun w hw => hh w (by rwa [Sys.Holds, ← hstill.spot w])⟩
  rcases Nat.lt_or_ge w n with hlt | hge
  · exact hdone w call hlt hw
  · rw [hrest w hge, hn w hge] at hw
    cases hw

/-- After an unwatched fault there is a free buffer, and nobody to use it. -/
theorem Sys.unwatched_fault (hr : adler.Reach s) (hs : adler.next s l = some t)
    (hg : ¬ FaultsWatched s l) : ∃ ls u, adler.exec t ls = some u ∧ u.Stuck := by
  have hl : ∃ w garbage, l = .writeStep w (.fault garbage) := by
    by_contra hl
    exact hg (by unfold FaultsWatched; split <;> simp_all)
  obtain ⟨w, garbage, rfl⟩ := hl
  simp only [FaultsWatched, not_forall, not_or, not_exists, not_and, not_not] at hg
  obtain ⟨⟨x, call', hx, hp⟩, hrun, hh⟩ := hg
  have hr' := hr.step hs
  obtain ⟨call, hw, hs⟩ := Option.bind_eq_some_iff.mp hs
  simp only [Sys.writeStep] at hs
  split at hs
  · next b hpc =>
    cases hs
    have hne : x ≠ w := by
      rintro rfl
      simp_all
    refine Sys.stuck_after hr' (x := x) ⟨call', ?_, hp⟩ (List.cons_ne_nil _ _) hrun ?_
    · rw [Sys.writes_setWrite, if_neg hne]
      exact hx
    · intro y hy
      rw [Sys.Holds, Sys.spot_setWrite] at hy
      split at hy
      · exact hy rfl
      · next hyw => exact hh y hyw hy
  · cases hs

end

/-- **No writer is stuck as long as faults are watched.** If, whenever `copy_from_user` fails
while a writer sleeps, another buffer is running or with another writer, then no writer sleeps
beside a free buffer with nothing under way to wake it. From the state after a single fault without
that, such a state can be reached. -/
theorem no_writer_stuck (s : Sys) : (adler.ReachOn FaultsWatched s → ¬ s.Stuck) ∧
    ∀ l t, adler.Reach s → adler.next s l = some t → ¬ FaultsWatched s l →
      ∃ ls u, adler.exec t ls = some u ∧ u.Stuck := by
  refine ⟨fun h hstuck => ?_, fun l t hr hs hg => Sys.unwatched_fault hr hs hg⟩
  rcases Sys.Watched.reach h hstuck.sleeper hstuck.free with hrun | ⟨w, hw⟩
  · exact hrun hstuck.running
  · exact hstuck.holder w hw

/-- Sixteen writers take all buffers, and a seventeenth goes to sleep. -/
def crowd : List Label :=
  .openFile 0 :: ((List.range 16).flatMap fun w => [.write w 0 [1], .writeStep w .test]) ++
    [.write 16 0 [1], .writeStep 16 .test, .writeStep 16 .retest]

/-- One of the sixteen faults, and the others will see to the sleeper. -/
theorem no_writer_stuck_watched : ∃ s, adler.ReachOn FaultsWatched s ∧ s.Sleeps 16 ∧
    s.buffersFree = [15] ∧ ¬ s.Stuck := by
  let s := (adler.exec probed crowd).get (by decide +kernel)
  let t := (adler.next s (.writeStep 0 (.fault []))).get (by decide +kernel)
  have hcrowd : ∀ l ∈ crowd, ∀ s, FaultsWatched s l := by
    intro l hl s
    simp only [crowd, List.cons_append, List.mem_cons, List.mem_append, List.mem_flatMap,
      List.not_mem_nil, or_false] at hl
    rcases hl with rfl | ⟨w, -, rfl | rfl⟩ | rfl | rfl | rfl <;> trivial
  have hs : adler.ReachOn FaultsWatched s :=
    (Lts.ReachOn.init probed_probed).exec hcrowd (Option.some_get _).symm
  have hholds : s.Holds 1 := show s.spot 1 ≠ none by decide +kernel
  have ht : adler.ReachOn FaultsWatched t :=
    hs.step (l := .writeStep 0 (.fault [])) (fun _ => .inr ⟨1, by decide, hholds⟩)
      (Option.some_get _).symm
  exact ⟨t, ht, ⟨⟨0, [1], 0, .asleep⟩, rfl, rfl⟩, by decide +kernel, (no_writer_stuck t).1 ht⟩

/-- All sixteen fault. Each puts its buffer back without waking the seventeenth. -/
theorem last_fault_leaves_sleeper : ∃ s, adler.Reach s ∧ s.Stuck := by
  let faults : List Label := (List.range 16).map fun w => .writeStep w (.fault [])
  let s := (adler.exec probed (crowd ++ faults)).get (by decide +kernel)
  have hs : adler.Reach s := Lts.reach_exec (.init probed_probed) (Option.some_get _).symm
  have hcrowd : ∀ w, w < 17 → (s.writes w).map WriteCall.pc ≠ some .retest ∧ s.spot w = none := by
    decide +kernel
  have hall : ∀ w, (s.writes w).map WriteCall.pc ≠ some .retest ∧ s.spot w = none := by
    intro w
    rcases Nat.lt_or_ge w 17 with hlt | hge
    · exact hcrowd w hlt
    · obtain ⟨w, rfl⟩ := Nat.exists_eq_add_of_le' hge
      exact ⟨by rintro ⟨⟩, rfl⟩
  refine ⟨s, hs, ⟨16, ⟨0, [1], 0, .asleep⟩, rfl, rfl⟩, by decide +kernel, by decide +kernel,
    fun w call hw hpc => (hall w).1 (by rw [hw, ← hpc]; rfl), fun w hw => hw (hall w).2⟩

end Zso.Adler

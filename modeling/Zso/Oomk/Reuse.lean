import Zso.Oomk.Deeds

/-!
# Thread ids that are used again

The record of a thread is meant to be gone when the thread is, so that the next thread
with the same ids starts with all counters zero. The exit hook deletes the record, but
only if the name of the thread has `oomp` in it at that moment, and the thread may still
send packets afterwards.

`no_inherited_counters` says when this works, and `counters_inherited` is a thread that
leaves its record to the next one.
-/

namespace Zso.Oomk
open Transition

/-- Where a thread id is in its life. -/
inductive Phase
  /-- no thread has the id -/
  | gone
  /-- a thread that was not traced yet -/
  | fresh
  | traced
  /-- the exit hook has run -/
  | exiting
  deriving DecidableEq

inductive LifeLabel
  | start (k : PidTgid)
  | act (l : Label)
  | release (k : PidTgid)

def Probe.isPacket : Probe → Bool
  | .ipFinishOutput2Entry _ => true
  | .ipFinishOutput2Exit _ => true
  | _ => false

abbrev Phases := PidTgid → Phase

/-- A probe can fire on any thread there is. A thread that exits only sends packets. -/
def Phase.allows (probe : Probe) : Phase → Bool
  | .gone => false
  | .fresh => true
  | .traced => true
  | .exiting => probe.isPacket

/-- A thread becomes traced at its first event that passes the name filter. -/
def Phase.fired (comm : Comm) : Phase → Phase
  | .fresh => if isOompPresent comm then .traced else .fresh
  | ph => ph

def lifeNext (p : Killer × Phases) : LifeLabel → Option (Killer × Phases)
  | .start k => if p.2 k = .gone then some (p.1, Function.update p.2 k .fresh) else none
  | .act (.fire t miss probe) =>
    if (p.2 t.pidTgid).allows probe then
      some (p.1.step (.fire t miss probe),
        Function.update p.2 t.pidTgid ((p.2 t.pidTgid).fired t.comm))
    else none
  | .act (.exit t) =>
    if p.2 t.pidTgid = .fresh ∨ p.2 t.pidTgid = .traced then
      some (p.1.step (.exit t), Function.update p.2 t.pidTgid .exiting)
    else none
  | .act (.evict k) => some (p.1.step (.evict k), p.2)
  | .act (.allow on) => some (p.1.step (.allow on), p.2)
  | .release k => if p.2 k = .exiting then some (p.1, Function.update p.2 k .gone) else none

/-- The OOM killer and the lives of threads, some of which may be older than it. -/
def lives : Lts (Killer × Phases) LifeLabel where
  init p := (∀ k, p.1.stateMap k = none) ∧ ∀ k, p.2 k = .gone ∨ p.2 k = .fresh
  next := lifeNext

/-- A thread that has a record exits under a traced name, and what it does afterwards
is done under another one. -/
def CleanExit (p : Killer × Phases) : LifeLabel → Prop
  | .act (.exit t) => p.1.stateMap t.pidTgid ≠ none → isOompPresent t.comm = true
  | .act (.fire t _ _) => p.2 t.pidTgid = .exiting → isOompPresent t.comm = false
  | _ => True

/-- Only threads that are traced have records. -/
def RecordsTraced (p : Killer × Phases) : Prop := ∀ k, p.2 k ≠ .traced → p.1.stateMap k = none

section
variable {p p' : Killer × Phases} {k : PidTgid}

theorem RecordsTraced.update (h : RecordsTraced p) {s : Killer} {ph : Phase}
    (hother : ∀ k', k' ≠ k → p.1.stateMap k' = none → s.stateMap k' = none)
    (hself : ph ≠ .traced → s.stateMap k = none) :
    RecordsTraced (s, Function.update p.2 k ph) := by
  intro k' hne
  by_cases hk : k' = k
  · subst hk
    exact hself (by simpa using hne)
  · exact hother k' hk (h k' (by simpa [hk] using hne))

theorem Killer.delete_none {s : Killer} {k' : PidTgid} (h : s.stateMap k = none) :
    (s.delete k').stateMap k = none := by
  by_cases hk : k = k'
  · subst hk
    simp
  · rwa [Killer.delete_ne hk]

/-- A probe that is not traced. -/
theorem Killer.fire_untraced {t : Task} (h : isOompPresent t.comm = false) (s : Killer)
    (miss : Bool) (probe : Probe) : (s.fire t miss probe).1 = s := by
  rw [Killer.fire_eq, h]
  rfl

theorem recordsTraced_step {l : LifeLabel} (h : RecordsTraced p) (hg : CleanExit p l)
    (hs : lifeNext p l = some p') : RecordsTraced p' := by
  cases l with
  | start k =>
    simp only [lifeNext, Option.ite_none_right_eq_some] at hs
    obtain ⟨hgone, ⟨⟩⟩ := hs
    exact h.update (fun _ _ => id) fun _ => h k (by simp [hgone])
  | release k =>
    simp only [lifeNext, Option.ite_none_right_eq_some] at hs
    obtain ⟨hexit, ⟨⟩⟩ := hs
    exact h.update (fun _ _ => id) fun _ => h k (by simp [hexit])
  | act l =>
    cases l with
    | fire t miss probe =>
      simp only [lifeNext, Option.ite_none_right_eq_some] at hs
      obtain ⟨hallows, ⟨⟩⟩ := hs
      have hother : ∀ k', k' ≠ t.pidTgid → p.1.stateMap k' = none →
          (p.1.step (.fire t miss probe)).stateMap k' = none := fun k' hk hnone =>
        (Killer.fire_ne _ _ _ _ hk).trans hnone
      refine h.update hother fun hph => ?_
      -- a thread that is not traced afterwards was not traced before, and is not now
      have hname : isOompPresent t.comm = false := by
        cases hp : p.2 t.pidTgid with
        | gone => simp [hp, Phase.allows] at hallows
        | fresh =>
          rw [hp] at hph
          simpa [Phase.fired] using hph
        | traced => exact absurd (by rw [hp]; rfl) hph
        | exiting => exact hg hp
      show (p.1.fire t miss probe).1.stateMap t.pidTgid = none
      rw [Killer.fire_untraced hname]
      refine h _ fun htraced => hph ?_
      rw [htraced]
      rfl
    | exit t =>
      simp only [lifeNext, Option.ite_none_right_eq_some] at hs
      obtain ⟨-, ⟨⟩⟩ := hs
      have hstep : p.1.step (.exit t) = if isOompPresent t.comm then p.1.delete t.pidTgid else p.1 :=
        Killer.checkIfProcExited_eq _ _
      rw [hstep]
      refine h.update (fun k' _ hnone => ?_) fun _ => ?_
      · split
        · exact Killer.delete_none hnone
        · exact hnone
      · split
        · simp
        · next hname => exact not_not.mp fun hne => hname (hg hne)
    | evict k =>
      cases hs
      exact fun k' hne => Killer.delete_none (h k' hne)
    | allow on =>
      cases hs
      exact h

end

/-- If every thread that has a record exits under a traced name and does nothing under
such a name afterwards, then no record is left of a thread that is gone, and the first
traced event of a new thread finds a new record. -/
theorem no_inherited_counters {p : Killer × Phases} (h : lives.ReachOn CleanExit p) (k : PidTgid) :
    (p.2 k = .gone → p.1.stateMap k = none) ∧ (p.2 k = .fresh → p.1.found k = procInfoNew) := by
  have hinv : RecordsTraced p :=
    Lts.invariantOn (M := lives) (fun p hi k _ => hi.1 k)
      (fun p l p' _ hp hg hs => recordsTraced_step hp hg hs) h
  refine ⟨fun hgone => hinv k (by simp [hgone]), fun hfresh => ?_⟩
  rw [Killer.found, hinv k (by simp [hfresh]), Option.getD_none]

/-- A thread writes and exits, and another one gets its ids. -/
theorem no_inherited_counters_write :
    ∃ p : Killer × Phases, lives.ReachOn CleanExit p ∧ p.2 ⟨7, 7⟩ = .fresh ∧
      p.1.found ⟨7, 7⟩ = procInfoNew := by
  let p₀ : Killer × Phases := (⟨fun _ => none, false⟩, fun _ => .fresh)
  let write : LifeLabel := .act (oompExit 7 .write 1)
  let run : List LifeLabel := [.act (.exit (oompTask 7)), .release ⟨7, 7⟩, .start ⟨7, 7⟩]
  let p₁ := (lives.next p₀ write).get (by decide +kernel)
  let p := (lives.exec p₁ run).get (by decide +kernel)
  have h₀ : lives.ReachOn CleanExit p₀ := .init ⟨fun _ => rfl, fun _ => .inr rfl⟩
  have hg : CleanExit p₀ write := by rintro ⟨⟩
  have h₁ : lives.ReachOn CleanExit p₁ := h₀.step hg (Option.some_get _).symm
  have hname : isOompPresent oompComm = true := by decide +kernel
  have hr : lives.ReachOn CleanExit p :=
    h₁.exec (by simp [run, CleanExit, oompTask, hname]) (Option.some_get _).symm
  have hfresh : p.2 ⟨7, 7⟩ = .fresh := by decide +kernel
  exact ⟨p, hr, hfresh, (no_inherited_counters hr ⟨7, 7⟩).2 hfresh⟩

/-- A thread exits and sends one more TCP packet. The next thread with its ids finds a
record that counts the packet. -/
theorem counters_inherited :
    ∃ p : Killer × Phases, lives.Reach p ∧ p.2 ⟨7, 7⟩ = .gone ∧
      (p.1.stateMap ⟨7, 7⟩).map ProcInfo.tcpPacketSentCount = some 1 := by
  let p₀ : Killer × Phases := (⟨fun _ => none, false⟩, fun _ => .fresh)
  let run : List LifeLabel :=
    [.act (oompExit 7 .write 1), .act (.exit (oompTask 7)),
      .act (.fire (oompTask 7) false (.ipFinishOutput2Entry (some IPPROTO_TCP))),
      .act (.fire (oompTask 7) false (.ipFinishOutput2Exit 0)), .release ⟨7, 7⟩]
  let p := (lives.exec p₀ run).get (by decide +kernel)
  have hr : lives.Reach p :=
    Lts.reach_exec (.init ⟨fun _ => rfl, fun _ => .inr rfl⟩) (Option.some_get _).symm
  exact ⟨p, hr, by decide +kernel, by decide +kernel⟩

end Zso.Oomk

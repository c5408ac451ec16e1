import Zso.Tape.CurrentTape
import Zso.Tape.History

/-!
# Requests that are reported as done

The driver ends a request with BLK_STS_OK when it finds no further command of the
request behind the one that is done. `no_false_success` says that by then the device
has completed every command of the request, in order.
-/

namespace Zso.Tape
open Transition

variable {D : DevModel}

/-- Every request of a device that keeps its tape is accounted for. A request that
failed may be forgotten. -/
theorem recorded_probed (hD : D.KeepsTape) {s : Sys D}
    (h : (systemFrom D Sys.Probed).Reach s) : s.Recorded True := by
  have h' : (system D).ReachOn (fun s _ => (systemFrom D Sys.Probed).Reach s) s :=
    Sys.Probed.reachOn h.reachOn
  refine recorded_reachOn (fun s l _ hg _ => ⟨fun node rest done hq _ hirq => ?_, .inl trivial⟩) h'
  exact ejectOnly_reachOn hD hg hq hirq

theorem ended_not_mem_exchange (hist : List (LstNode × SectStatus)) (r : Nat) (st : BlkStatus)
    (x : Option Nat) : .ended r st x ∉ hist.flatMap exchange := by
  simp [exchange]

theorem Sys.HeadEvents.not_ended {s : Sys D} {o : Owner} {q : List LstNode} {evs : List Event}
    (h : s.HeadEvents o q evs) (r : Nat) (st : BlkStatus) (x : Option Nat) :
    .ended r st x ∉ evs := by
  unfold Sys.HeadEvents at h
  split at h
  · simp [h]
  · split at h
    · rcases h with ⟨-, rfl⟩ | ⟨st, -, rfl⟩ | ⟨-, rfl⟩ <;> simp
    · simp [h]

/-- A request that is not over has not been ended. -/
theorem Sys.Recorded.not_ended {lost : Prop} {s : Sys D} (h : s.Recorded lost) {r : Nat}
    (ho : s.outstanding = some r) (hq : s.submit ≠ .idle ∨ commandsLeft s.sec.cmdQueue ≠ [])
    (st : BlkStatus) (x : Option Nat) : .ended r st x ∉ s.log := by
  rw [← mem_historyOf (o := .request r) rfl]
  rcases hq with hq | hq
  · simp [h.starting hq r ho]
  · obtain ⟨hist, evs, -, -, hev, hl⟩ := h.active hq r ho
    rw [hl]
    simp only [List.mem_cons, List.mem_append, reduceCtorEq, false_or, not_or]
    exact ⟨ended_not_mem_exchange hist r st x, hev.not_ended r st x⟩

/-- What the end of a request tells about its history. -/
theorem Closed.of_ended {lost : Prop} {r : Nat} {l : List Event} (h : Closed lost r l)
    {st : BlkStatus} {x : Option Nat} (hm : .ended r st x ∈ l) :
    x = some r ∧ (st = .ok → ∃ hist : List (LstNode × SectStatus), (∀ p ∈ hist, Succeeds p) ∧
      l = .queued r (hist.map Prod.fst) :: (hist.flatMap exchange ++ [.ended r .ok (some r)])) := by
  cases h with
  | unseen => cases hm
  | rejected st' hne =>
    simp only [List.mem_singleton, Event.ended.injEq, true_and] at hm
    exact ⟨hm.2, fun h => absurd (hm.1.symm.trans h) hne⟩
  | success hist hok =>
    simp only [List.mem_cons, List.mem_append, reduceCtorEq, false_or, List.not_mem_nil, or_false,
      Event.ended.injEq, true_and] at hm
    obtain ⟨-, hx⟩ := hm.resolve_left (ended_not_mem_exchange hist r st x)
    exact ⟨hx, fun _ => ⟨hist, hok, rfl⟩⟩
  | aborted hist p rest hok hfail =>
    simp only [List.mem_cons, List.mem_append, reduceCtorEq, false_or, List.not_mem_nil, or_false,
      Event.ended.injEq, true_and] at hm
    obtain ⟨hst, hx⟩ := hm.resolve_left (ended_not_mem_exchange _ r st x)
    exact ⟨hx, fun h => by simp [hst] at h⟩
  | lost hist p rest hlost hok hfail =>
    simp only [List.mem_cons, reduceCtorEq, false_or] at hm
    exact absurd hm (ended_not_mem_exchange _ r st x)

/-- When a request has been ended with BLK_STS_OK, its commands have been sent to the
device and completed one after the other in the order in which they were queued, each
with DONE, or with ERR_NO_TAPE for an EJECT. And a request is only ever ended while
`sec->req` is that request. -/
theorem no_false_success {β : Type} {s : Sys (realDevice β)}
    (h : (systemFrom (realDevice β) Sys.Probed).Reach s) {r : Nat} {st : BlkStatus}
    {x : Option Nat} (he : .ended r st x ∈ s.log) :
    x = some r ∧ (st = .ok → ∃ hist : List (LstNode × SectStatus),
      (∀ p ∈ hist, p.2 = .done ∨ p.2 = .errNoTape ∧ fieldCmd p.1.word = CMD_EJECT_TAPE) ∧
      historyOf (.request r) s.log =
        .queued r (hist.map Prod.fst) :: (hist.flatMap exchange ++ [.ended r .ok (some r)])) := by
  have hrec := recorded_probed (realDevice_keepsTape β) h
  refine (hrec.closed r ?_).of_ended ((mem_historyOf rfl).mpr he)
  rintro ⟨ho, hq⟩
  exact hrec.not_ended ho hq st x he

/-- A WRITE of one block, from its submission to its end. -/
theorem no_false_success_write :
    ∃ s : Sys (realDevice Nat), (systemFrom (realDevice Nat) Sys.Probed).Reach s ∧
      .ended 0 .ok (some 0) ∈ s.log ∧ ∃ hist : List (LstNode × SectStatus),
        (∀ p ∈ hist, p.2 = .done ∨ p.2 = .errNoTape ∧ fieldCmd p.1.word = CMD_EJECT_TAPE) ∧
        historyOf (.request 0) s.log =
          .queued 0 (hist.map Prod.fst) :: (hist.flatMap exchange ++ [.ended 0 .ok (some 0)]) := by
  let io : Io := ⟨some fun _ => 8 * 2 ^ 32 + 1, true, true, true⟩
  let finish : List (Label (realDevice Nat)) := [.tick (.io io), .snapshot, .readStatus, .handle]
  let run : List (Label (realDevice Nat)) :=
    [.queueRq (some true) 3 ⟨fun _ => false, true, [⟨4096, 512⟩]⟩, .build, .splice] ++
      finish ++ finish ++ finish ++ finish ++ finish
  let M := systemFrom (realDevice Nat) Sys.Probed
  let s := (M.exec probedSection run).get (by decide +kernel)
  have hs : M.exec probedSection run = some s := (Option.some_get _).symm
  have hr : M.Reach s := Lts.reach_exec (.init ⟨probedSection_initial, rfl⟩) hs
  have he : .ended 0 .ok (some 0) ∈ s.log := by decide +kernel
  exact ⟨s, hr, he, (no_false_success hr he).2 rfl⟩

end Zso.Tape

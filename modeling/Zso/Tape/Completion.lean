import Zso.Tape.History

/-!
# How requests are ended

`__abort_rest_of_req_cmds` clears `sec->req` when it has emptied the queue, and
the call of `_end_request_helper` after it finds no request to end. A request
that fails is ended only if an ioctl command is behind it in the queue
(`request_ended_once`, `failed_request_not_ended`).
-/

namespace Zso.Tape
open Transition

variable {D : DevModel}

def Event.endStatus : Event → Option BlkStatus
  | .ended _ st _ => some st
  | _ => none

/-- The calls of `blk_mq_end_request` for `r`. -/
def endings (r : Nat) (log : List Event) : List BlkStatus :=
  (historyOf (.request r) log).filterMap Event.endStatus

def Event.failed : Event → Bool
  | .answered n st => !decide (Succeeds (n, st))
  | _ => false

/-- A command of `r` failed. -/
def anyFailed (r : Nat) (log : List Event) : Bool :=
  (historyOf (.request r) log).any Event.failed

/-- The steps that do not lose a request: the handler finds an ioctl command behind
the failed command, and ERR_NO_TAPE only as the answer to an EJECT. -/
def EndsRequests (s : Sys D) (l : Label D) : Prop :=
  l = .handle → s.EjectOnly ∧ s.EjectBehind

theorem filterMap_exchange (hist : List (LstNode × SectStatus)) :
    (hist.flatMap exchange).filterMap Event.endStatus = [] := by
  induction hist with
  | nil => rfl
  | cons p hist ih => simpa [exchange, Event.endStatus] using ih

theorem any_exchange (hist : List (LstNode × SectStatus)) :
    (hist.flatMap exchange).any Event.failed = hist.any fun p => !decide (Succeeds p) := by
  induction hist with
  | nil => rfl
  | cons p hist ih => simp [exchange, Event.failed, ih]

/-- A request that was queued and is over has been ended once, with its verdict. -/
theorem Closed.ended {r : Nat} {l : List Event} (h : Closed False r l) {nodes : List LstNode}
    (hq : .queued r nodes ∈ l) :
    l.filterMap Event.endStatus = [if l.any Event.failed then .ioerr else .ok] := by
  cases h with
  | unseen => cases hq
  | rejected st hst => simp at hq
  | success hist hok =>
    have hany : (hist.any fun p => !decide (Succeeds p)) = false :=
      List.any_eq_false.mpr fun p hp => by simp [hok p hp]
    rw [List.filterMap_cons_none rfl, List.filterMap_append, filterMap_exchange, List.any_cons,
      List.any_append, any_exchange, hany]
    rfl
  | aborted hist p rest hok hfail =>
    have hany : ((hist ++ [p]).any fun p => !decide (Succeeds p)) = true :=
      List.any_eq_true.mpr ⟨p, by simp, by simp [hfail]⟩
    rw [List.filterMap_cons_none rfl, List.filterMap_append, filterMap_exchange, List.any_cons,
      List.any_append, any_exchange, hany]
    rfl
  | lost hist p rest hlost => exact hlost.elim

/-- Once the commands of a request have been queued, and none of them is queued any
more, the request has been ended exactly once: with BLK_STS_OK if none of its
commands failed, and with BLK_STS_IOERR otherwise. -/
theorem request_ended_once {s : Sys D} (h : (system D).ReachOn EndsRequests s) {r : Nat}
    {nodes : List LstNode} (hq : .queued r nodes ∈ s.log)
    (hleft : ∀ n ∈ s.sec.cmdQueue, n.owner ≠ .request r) :
    endings r s.log = [if anyFailed r s.log then .ioerr else .ok] := by
  have hrec : s.Recorded False := recorded_reachOn (fun s l _ hg hl => (hg hl).imp id .inr) h
  have hq' : .queued r nodes ∈ historyOf (.request r) s.log := (mem_historyOf rfl).mpr hq
  refine (hrec.closed r ?_).ended hq'
  rintro ⟨ho, hsub | hc⟩
  · rw [hrec.starting hsub r ho] at hq'
    cases hq'
  · obtain ⟨pre, suf, post, hp⟩ := shaped_reachOn h
    obtain ⟨r', -, ho', -, hb, hc'⟩ := hp.owner hc
    rw [ho] at ho'
    obtain rfl := Option.some.inj ho'
    rw [hc'] at hc
    obtain ⟨n, hn⟩ := List.exists_mem_of_ne_nil _ hc
    have hmem : n ∈ s.sec.cmdQueue := by
      rw [hp.queue]
      simp [hn]
    exact hleft n hmem (hp.mem_suf hb n hn).2

/-- A one-block WRITE whose first command fails, with an EJECT ioctl behind it. -/
theorem request_ended_before_eject :
    ∃ s : Sys anyDevice, (system anyDevice).ReachOn EndsRequests s ∧
      endings 0 s.log = [if anyFailed 0 s.log then .ioerr else .ok] ∧
      endings 0 s.log = [.ioerr] := by
  let start : List (Label anyDevice) :=
    [.queueRq (some true) 3 ⟨fun _ => false, true, [⟨4096, 512⟩]⟩, .build, .splice, .eject false,
      .tick .errIo, .snapshot, .readStatus]
  let s := ((system anyDevice).exec freshSection start).get (by decide +kernel)
  let s' := (s.next .handle).get (by decide +kernel)
  have hs : (system anyDevice).exec freshSection start = some s := (Option.some_get _).symm
  have hr : (system anyDevice).ReachOn EndsRequests s := by
    refine Lts.ReachOn.exec (.init freshSection_initial) (fun l hl s hh => ?_) hs
    subst hh
    simp [start] at hl
  have hirq : s.irq = some ⟨false, true, some .errIo⟩ := by decide +kernel
  have hq : s.sec.cmdQueue.map LstNode.isIoctl = [false, false, false, false, false, true] := by
    decide +kernel
  have hG : EndsRequests s .handle := by
    refine fun _ => ⟨fun node rest done _ _ h => ?_, fun node rest done st h _ _ _ => ?_⟩
    · rw [hirq] at h
      cases h
    · rw [h, List.map_cons, List.cons.injEq] at hq
      have hmem : true ∈ rest.map LstNode.isIoctl := by
        rw [hq.2]
        decide
      exact List.mem_map.mp hmem
  have hr' : (system anyDevice).ReachOn EndsRequests s' :=
    hr.step hG (Option.some_get _).symm
  have hqueued : ∃ nodes, Event.queued 0 nodes ∈ s'.log := by
    refine ⟨s'.built, ?_⟩
    decide +kernel
  obtain ⟨nodes, hqueued⟩ := hqueued
  refine ⟨s', hr', request_ended_once hr' hqueued (by decide +kernel), by decide +kernel⟩

/-- A one-block WRITE whose first command fails, with nothing behind it: the request
is taken off the queue and never ended. -/
theorem failed_request_not_ended :
    ∃ s : Sys anyDevice, (system anyDevice).Reach s ∧ .queued 0 s.built ∈ s.log ∧
      s.sec.cmdQueue = [] ∧ anyFailed 0 s.log = true ∧ s.sec.req = none ∧
      s.outstanding = some 0 ∧ endings 0 s.log = [] := by
  let run : List (Label anyDevice) :=
    [.queueRq (some true) 3 ⟨fun _ => false, true, [⟨4096, 512⟩]⟩, .build, .splice,
      .tick .errIo, .snapshot, .readStatus, .handle]
  let s := ((system anyDevice).exec freshSection run).get (by decide +kernel)
  have hs : (system anyDevice).exec freshSection run = some s := (Option.some_get _).symm
  exact ⟨s, Lts.reach_exec (.init freshSection_initial) hs, by decide +kernel, by decide +kernel,
    by decide +kernel, by decide +kernel, by decide +kernel, by decide +kernel⟩

end Zso.Tape
